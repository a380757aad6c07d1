import SnapshotStore.Proofs.Backend.Shards
import SnapshotStore.Proofs.Store.Opening
import SnapshotStore.Proofs.Store.UpToDate

namespace SnapshotStore

variable {K V S σ β : Type}

namespace Store

-- Several threads that each run commands of their own on the same store.
def threads (store : Store K V S σ) (commands : List (List (Command K V (World S σ) β)))
    (world : World S σ) : Threads K V S σ (List (Outcome K V β)) :=
  ⟨commands.map store.performAll, world⟩

variable {store : Store K V S σ}

theorem keep_threads (commands : List (List (Command K V (World S σ) β))) (world : World S σ) :
    (store.threads commands world).Keep store.setting store.path := by
  intro routine hroutine
  obtain ⟨list, -, rfl⟩ := List.mem_map.mp hroutine
  exact store.keeps_performAll list

-- Any number of threads on a store whose file could be loaded at the start, with any failures.
theorem threads_save_in_order [DecidableEq K] (laws : store.backend.Laws) {world : World S σ}
    (hvalid : laws.Valid world.map) (hclear : world.files.Clear store.path)
    {found : List (K × V)} (hfound : store.persistence.load world.files = .ok found)
    {commands : List (List (Command K V (World S σ) β))} {moves : List (Move K V S)}
    {threads : Threads K V S σ (List (Outcome K V β))}
    (hrun : Threads.Run store.setting (store.threads commands world) moves threads) :
    let ledger := Ledger.of moves
    -- the file is as it was found, or what the latest save has copied from the map
    Threads.Shown store.setting store.path world.files ledger.saves threads.world.files ∧
    (∀ save ∈ ledger.saves, save.Sound store.backend.segments moves) ∧
    (∀ first second, (ledger.attempts first).writing = true →
      (ledger.attempts second).writing = true → first = second) ∧
    -- saves do not overlap
    ledger.saves.Pairwise (fun newer older => older.stop < newer.start) ∧
    -- a command that has ended well has had its own changes saved
    (∀ (thread : Nat) (before own : List (Exchange K V)) (command : Command K V (World S σ) β)
      (answer : Answer K V β), store.policy = .writeThrough →
      Move.own thread moves = before ++ own →
      (store.perform command).run.Follows own (.done (.ok answer)) →
      (∃ exchange ∈ own, exchange.writes = true ∨ exchange.request = .acquire) →
      Threads.Covered thread moves) ∧
    -- the file is up to date if the map has not changed since a save was begun
    (∀ save ∈ ledger.saves, store.persistence.serializer.RoundTrips →
      (∀ move ∈ moves.drop save.start, ∀ key,
        store.backend.get key move.map = store.backend.get key threads.world.map) →
      ∃ entries, store.persistence.load threads.world.files = .ok entries ∧
        entries.Perm (store.backend.snapshot threads.world.map)) := by
  intro ledger
  have hkeep := store.keep_threads commands world
  have hready : Threads.Ready laws (store.threads commands world) :=
    ⟨hkeep, hvalid, hclear, Persistence.readable_of_load hfound⟩
  have hsaves := hrun.savesSound hkeep
  refine ⟨(hrun.filesSound hkeep hclear hready.readable).shown, hsaves.sound, ?_,
    hsaves.ordered, ?_, ?_⟩
  · exact fun first second hfirst hsecond => hrun.writing_unique hkeep hfirst hsecond
  · intro thread before own command answer hpolicy hown hfollows hacts
    exact hrun.covered hkeep hpolicy hown hfollows hacts
  · intro save hsave hserializer hsame
    exact hrun.load_settled laws hserializer hready hsave hsame

-- A store of two shards that is written through.
def twoShards : Store UInt8 UInt8 (Shards UInt8 UInt8 2 1) Unit :=
  ⟨.sharded 2 1 UInt8.toNat, ⟨⟨"db"⟩, .pairs⟩, .writeThrough, false, false, []⟩

-- The store as it is loaded from a file with one entry.
def oneEntry : World (Shards UInt8 UInt8 2 1) Unit where
  files := ⟨.ofEntries [(["db"], .file [0, 9])], [], []⟩
  channel := default
  mishaps _ := .none
  desk := ()
  map := twoShards.backend.load [(0, 9)]

def twoWriters : List (List (Command UInt8 UInt8 (World (Shards UInt8 UInt8 2 1) Unit) Unit)) :=
  [[.insert 1 10], [.insert 2 20]]

-- The second thread writes to the first shard when the first thread has just copied it.
def crossing : List Nat :=
  [0, 0, 0, 1, 0, 0, 0, 0, 0, 0, 0, 1, 1, 1, 1, 1, 1, 1, 1, 1]

theorem threads_save_in_order_two_writers : ∃ moves threads,
    (twoShards.threads twoWriters oneEntry).play twoShards.setting crossing =
      some (moves, threads) ∧
    (Ledger.of moves).saves.map (fun save => (save.thread, save.start, save.stop)) =
      [(1, 12, 18), (0, 2, 9)] ∧
    threads.world.files.look ⟨"db"⟩ = .ok (some (.file [0, 9, 2, 20, 1, 10])) ∧
    (Ledger.of moves).saves.Pairwise (fun newer older => older.stop < newer.start) ∧
    ∃ entries, twoShards.persistence.load threads.world.files = .ok entries ∧
      entries.Perm (twoShards.backend.snapshot threads.world.map) := by
  obtain ⟨⟨moves, threads⟩, hplay⟩ : ∃ last,
      (twoShards.threads twoWriters oneEntry).play twoShards.setting crossing = some last :=
    ⟨_, rfl⟩
  have hsaves : ((twoShards.threads twoWriters oneEntry).play twoShards.setting crossing).map
      (fun last => (Ledger.of last.1).saves.map fun save => (save.thread, save.start, save.stop)) =
      some [(1, 12, 18), (0, 2, 9)] := rfl
  have hlook : ((twoShards.threads twoWriters oneEntry).play twoShards.setting crossing).map
      (fun last => last.2.world.files.look ⟨"db"⟩) =
      some (.ok (some (.file [0, 9, 2, 20, 1, 10]))) := rfl
  have hquiet : ((twoShards.threads twoWriters oneEntry).play twoShards.setting crossing).map
      (fun last => (last.1.drop 12).all fun move => !move.exchange.writes) = some true := rfl
  rw [hplay] at hsaves hlook hquiet
  have hsaves := Option.some.inj hsaves
  have hquiet : ∀ move ∈ moves.drop 12, move.exchange.writes = false := by
    simpa using Option.some.inj hquiet
  have hrun : Threads.Run twoShards.setting (twoShards.threads twoWriters oneEntry) moves threads :=
    Threads.Run.play .start hplay
  have hclear : oneEntry.files.Clear twoShards.path :=
    FileTree.clear_of_resolve ["db.json.tmp"] (.found ["db"] (.file [0, 9])) rfl
      (FileTree.isPlain_of_none rfl) rfl (by decide)
  have hfound : twoShards.persistence.load oneEntry.files = .ok [(0, 9)] := rfl
  have hvalid := (Backend.shardedLaws 2 1 UInt8.toNat).valid_load [((0 : UInt8), (9 : UInt8))]
  obtain ⟨-, -, -, hordered, -, hsettled⟩ :=
    threads_save_in_order (Backend.shardedLaws 2 1 UInt8.toNat) hvalid hclear hfound hrun
  refine ⟨moves, threads, hplay, hsaves, Option.some.inj hlook, hordered, ?_⟩
  obtain ⟨save, rest, hcons, hfields, -⟩ := List.map_eq_cons_iff.mp hsaves
  have hstart : save.start = 12 := congrArg (fun fields => fields.2.1) hfields
  refine hsettled save (hcons ▸ List.mem_cons_self) Serializer.roundTrips_pairs ?_
  rw [hstart]
  intro move hmove key
  rw [hrun.steady (keep_threads _ _) 12 hquiet move hmove]

end Store

end SnapshotStore
