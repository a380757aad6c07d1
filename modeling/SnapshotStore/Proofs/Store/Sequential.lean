import SnapshotStore.Proofs.Backend.Shards
import SnapshotStore.Proofs.Store.CallerDriven
import SnapshotStore.Proofs.Store.Opening
import SnapshotStore.Proofs.Store.UpToDate
import SnapshotStore.Proofs.Threads.Alone

namespace SnapshotStore

variable {K V S σ α β : Type}

namespace Threads

variable {setting : Setting K V S σ} {path : Path} {start threads : Threads K V S σ α}
  {moves : List (Move K V S)}

theorem Run.thread_eq_zero (h : Run setting start moves threads) (hlone : start.routines.length = 1)
    {move : Move K V S} (hmove : move ∈ moves) : move.thread = 0 := by
  have hlt := h.thread_lt.2 move hmove
  omega

-- Nobody writes to the map while the only thread copies it.
theorem Run.view_eq (hkeep : start.Keep setting path) (h : Run setting start moves threads)
    (hlone : start.routines.length = 1) {save : Save S} (hsave : save ∈ (Ledger.of moves).saves)
    {view : S} (hview : view ∈ save.views) : view = save.map := by
  have hsound := (h.savesSound hkeep).sound save hsave
  obtain ⟨last, hlast, hthread, -⟩ := Ledger.move_of_mem_saves hsave
  refine hsound.steady ?_ view hview
  intro move hmove
  have hmem : move ∈ moves := List.mem_of_mem_take (List.mem_of_mem_drop hmove)
  apply hsound.recent.quiet move hmove
  rw [h.thread_eq_zero hlone hmem, ← hthread, h.thread_eq_zero hlone hlast]

end Threads

section

variable {store : Store K V S σ} {start threads : Threads K V S σ (List (Outcome K V β))}
  {moves : List (Move K V S)}

-- What the file shows if only one thread uses the store.
def Store.ShowsLastSave (store : Store K V S σ) (found : FileTree) (moves : List (Move K V S))
    (files : FileTree) : Prop :=
  match (Ledger.of moves).saves.head? with
  | none => files.look store.path = found.look store.path
  | some save => ∃ entries, store.persistence.load files = .ok entries ∧
    entries.Perm (store.backend.snapshot save.map)

theorem Threads.Run.showsLastSave [DecidableEq K] (laws : store.backend.Laws)
    (hserializer : store.persistence.serializer.RoundTrips)
    (hready : Ready laws start) (hlone : start.routines.length = 1)
    (h : Run store.setting start moves threads) :
    store.ShowsLastSave start.world.files moves threads.world.files := by
  unfold Store.ShowsLastSave
  cases hhead : (Ledger.of moves).saves.head? with
  | none =>
      have hshown := (h.filesSound hready.keep hready.clear hready.readable).shown
      rw [Shown, hhead] at hshown
      exact hshown
  | some save =>
      have hsave := List.mem_of_head? hhead
      have hsound := (h.savesSound hready.keep).sound save hsave
      have hview : ∀ view ∈ save.views, view = save.map :=
        fun view hmem => h.view_eq hready.keep hlone hsave hmem
      obtain ⟨last, hlast, -, hmap⟩ := Ledger.move_of_mem_saves hsave
      have hall := (h.allValid laws hready.keep hready.valid).2
      have hsaved : laws.Valid save.map := hmap ▸ hall last hlast
      obtain ⟨entries, hload, hperm⟩ := h.load_latest laws hserializer hready hhead
      refine ⟨entries, hload, hperm.trans (laws.perm_assemble ?_ hsound.length hsaved ?_)⟩
      · intro view hmem
        rw [hview view hmem]
        exact hsaved
      · intro view hmem key
        rw [hview view hmem]

-- Once the only thread has written its change through, the file shows the map.
theorem Threads.Run.load_covered [DecidableEq K] (laws : store.backend.Laws)
    (hserializer : store.persistence.serializer.RoundTrips)
    (hready : Ready laws start) (hlone : start.routines.length = 1)
    (h : Run store.setting start moves threads) (hcovered : Covered 0 moves) :
    ∃ entries, store.persistence.load threads.world.files = .ok entries ∧
      entries.Perm (store.backend.snapshot threads.world.map) := by
  obtain ⟨save, hhead, hquiet⟩ := hcovered
  apply h.load_settled laws hserializer hready (List.mem_of_head? hhead)
  intro move hmove key
  have hsteady := h.steady hready.keep save.start fun move hmove =>
    hquiet move hmove (h.thread_eq_zero hlone (List.mem_of_mem_drop hmove))
  rw [hsteady move hmove]

end

-- Any commands on a store that has just been opened, with any failures of its saves and with
-- listeners that may fail. The moments of the run are those at which the commands, also those
-- within callbacks, ask for something or have been answered.
theorem file_shows_last_save [DecidableEq K] {backend : Backend K V S} (laws : backend.Laws)
    {builder : Builder K V σ} {serializer : Bool → Serializer K V}
    (hserializer : (serializer builder.pretty).RoundTrips) {files : FileTree}
    (hclear : files.Clear builder.path) {opened : Opened K V S σ}
    (hopened : builder.build backend serializer files = .ok opened) {world : World S σ}
    (hfiles : world.files = files) (hmap : world.map = opened.map)
    (commands : List (Command K V (World S σ) β)) :
    let store := opened.store
    let start : Threads K V S σ _ := ⟨[store.performAll commands], world⟩
    -- the file is as it was found, or it shows the map as it was at the last save
    (∀ moves threads, Threads.Run store.setting start moves threads →
      store.ShowsLastSave files moves threads.world.files) ∧
    -- when a command has been written through, the store can be opened again with the same map
    (builder.policy = .writeThrough → ∀ moves threads,
      Threads.Run store.setting start moves threads →
      ∀ (before own : List (Exchange K V)) (command : Command K V (World S σ) β)
        (answer : Answer K V β), Move.own 0 moves = before ++ own →
        (store.perform command).run.Follows own (.done (.ok answer)) →
        (∃ exchange ∈ own, exchange.writes = true ∨ exchange.request = .acquire) →
        ∃ again, builder.build backend serializer threads.world.files = .ok again ∧
          ∀ key, backend.get key again.map = backend.get key threads.world.map) ∧
    -- a change of the map is not saved by itself
    (builder.policy = .callerDriven → ∀ (command : Command K V (World S σ) β) (now : World S σ),
      command.Changes → ((store.perform command).exec (World.serve store.setting) now).2.files =
        ((store.performAll (command.called backend now.map)).run
          (World.serve store.setting) now).2.files) ∧
    -- there are such runs
    (world.saving = false → (store.performAll commands).Undisturbed store.setting world →
      ∃ moves, Threads.Run store.setting start moves
        ⟨[.done ((store.performAll commands).run (World.serve store.setting) world).1],
          ((store.performAll commands).run (World.serve store.setting) world).2⟩) := by
  obtain ⟨-, entries, hload, hfill⟩ := Builder.build_eq_ok hopened
  obtain ⟨hstore, hentries, -⟩ := Builder.fill_eq_ok hfill
  obtain ⟨store, map, worker⟩ := opened
  dsimp only at hstore hentries
  subst hstore hentries
  intro store start
  have hkeep : start.Keep store.setting store.path := by
    intro routine hroutine
    rw [List.mem_singleton.mp hroutine]
    exact store.keeps_performAll commands
  have hready : @Threads.Ready K V S σ β store _ laws start := by
    refine ⟨hkeep, ?_, ?_, ?_⟩
    · exact hmap ▸ laws.valid_load entries
    · exact hfiles ▸ hclear
    · exact hfiles ▸ Persistence.readable_of_load hload
  refine ⟨?_, ?_, ?_, ?_⟩
  · intro moves threads hrun
    have hshows := hrun.showsLastSave laws hserializer hready rfl
    rwa [hfiles] at hshows
  · intro hpolicy moves threads hrun before own command answer hown hfollows hacts
    have hcovered := hrun.covered hkeep hpolicy hown hfollows hacts
    obtain ⟨found, hfound, hperm⟩ := hrun.load_covered laws hserializer hready rfl hcovered
    have hvalid := (hrun.allValid laws hkeep hready.valid).1
    exact ⟨_, Builder.build_again hopened hfound, laws.get_load hvalid hperm⟩
  · intro hpolicy command now hchanges
    exact Store.exec_files_of_callerDriven hpolicy hchanges now
  · intro hfree hundisturbed
    exact Threads.Run.alone (store.keeps_performAll commands) hfree hundisturbed

-- A store under a single lock, opened on a file with one entry. Its first save cannot replace the
-- file.
def underOneLock : Builder UInt8 UInt8 Unit :=
  { path := ⟨"db"⟩, policy := .writeThrough }

def underOneLockOpened : Opened UInt8 UInt8 (Buckets UInt8 UInt8 3) Unit :=
  ⟨⟨.locked 3 UInt8.toNat, ⟨⟨"db"⟩, .pairs⟩, .writeThrough, false, false, []⟩,
    (Backend.locked 3 UInt8.toNat).load [(0, 9)], none⟩

def firstSaveFails : World (Buckets UInt8 UInt8 3) Unit where
  files := ⟨.ofEntries [(["db"], .file [0, 9])], [], []⟩
  channel := default
  mishaps save := if save = 0 then .renaming .noEntry else .none
  desk := ()
  map := underOneLockOpened.map

def firstInsert : Command UInt8 UInt8 (World (Buckets UInt8 UInt8 3) Unit) Unit :=
  .insert 1 10

def secondInsert : Command UInt8 UInt8 (World (Buckets UInt8 UInt8 3) Unit) Unit :=
  .insert 2 20

def twoInserts := Threads.play underOneLockOpened.store.setting (List.replicate 19 0)
  ⟨[underOneLockOpened.store.performAll [firstInsert, secondInsert]], firstSaveFails⟩

def afterFirstInsert : World (Buckets UInt8 UInt8 3) Unit :=
  ((underOneLockOpened.store.perform firstInsert).exec
    (World.serve underOneLockOpened.store.setting) firstSaveFails).2

theorem file_shows_last_save_second_insert : ∃ moves threads,
    twoInserts = some (moves, threads) ∧
    (Ledger.of moves).saves.map (fun save => (save.start, save.stop)) = [(12, 17)] ∧
    threads.world.files.look ⟨"db"⟩ = .ok (some (.file [0, 9, 1, 10, 2, 20])) ∧
    underOneLockOpened.store.ShowsLastSave firstSaveFails.files moves threads.world.files ∧
    ∃ again, underOneLock.build (.locked 3 UInt8.toNat) (fun _ => .pairs) threads.world.files =
        .ok again ∧
      ∀ key, (Backend.locked 3 UInt8.toNat).get key again.map =
        (Backend.locked 3 UInt8.toNat).get key threads.world.map := by
  obtain ⟨⟨moves, threads⟩, hplay⟩ : ∃ last, twoInserts = some last := ⟨_, rfl⟩
  have hsaves : twoInserts.map
      (fun last => (Ledger.of last.1).saves.map fun save => (save.start, save.stop)) =
      some [(12, 17)] := rfl
  have hlook : twoInserts.map (fun last => last.2.world.files.look ⟨"db"⟩) =
      some (.ok (some (.file [0, 9, 1, 10, 2, 20]))) := rfl
  -- the moves of the second insert
  have hlast : twoInserts.map (fun last => (Move.own 0 last.1).drop 10) =
      some ((underOneLockOpened.store.perform secondInsert).run.exchanges
        (World.serve underOneLockOpened.store.setting) afterFirstInsert) := rfl
  rw [hplay] at hsaves hlook hlast
  have hrun : Threads.Run underOneLockOpened.store.setting _ moves threads :=
    Threads.Run.play .start hplay
  have hclear : firstSaveFails.files.Clear underOneLock.path :=
    FileTree.clear_of_resolve ["db.json.tmp"] (.found ["db"] (.file [0, 9])) rfl
      (FileTree.isPlain_of_none rfl) rfl (by decide)
  have hopened : underOneLock.build (.locked 3 UInt8.toNat) (fun _ => .pairs)
      firstSaveFails.files = .ok underOneLockOpened := rfl
  obtain ⟨hshows, hagain, -⟩ := file_shows_last_save (Backend.lockedLaws 3 UInt8.toNat)
    Serializer.roundTrips_pairs hclear hopened rfl rfl [firstInsert, secondInsert]
  refine ⟨moves, threads, hplay, Option.some.inj hsaves, Option.some.inj hlook,
    hshows moves threads hrun, ?_⟩
  have hsplit := (List.take_append_drop 10 (Move.own 0 moves)).symm
  have hlast : (Move.own 0 moves).drop 10 = _ := Option.some.inj hlast
  rw [hlast] at hsplit
  have hfollows := Routine.follows_exchanges (World.serve underOneLockOpened.store.setting)
    (underOneLockOpened.store.perform secondInsert).run afterFirstInsert
  exact hagain rfl moves threads hrun _ _ secondInsert (.found none) hsplit hfollows
    ⟨_, .head _, .inl rfl⟩

end SnapshotStore
