import SnapshotStore.Proofs.Threads.Files
import SnapshotStore.Proofs.Threads.Settled

namespace SnapshotStore.Threads

variable {K V S σ β : Type} {store : Store K V S σ}
  {start threads : Threads K V S σ (List (Outcome K V β))} {moves : List (Move K V S)}

-- Threads that keep to the order of requests start on a store whose file can be read.
structure Ready [DecidableEq K] (laws : store.backend.Laws)
    (start : Threads K V S σ (List (Outcome K V β))) : Prop where
  keep : start.Keep store.setting store.path
  valid : laws.Valid start.world.map
  clear : start.world.files.Clear store.path
  readable : start.world.files.Readable store.path

-- What a thread has asked for last may be a whole command that has ended well. If the command has
-- changed the map, or saved it, then the file has been replaced since.
theorem Run.covered (hkeep : start.Keep store.setting store.path)
    (h : Run store.setting start moves threads) (hpolicy : store.policy = .writeThrough)
    {thread : Nat} {before own : List (Exchange K V)} (hown : Move.own thread moves = before ++ own)
    {command : Command K V (World S σ) β} {answer : Answer K V β}
    (hfollows : (store.perform command).run.Follows own (.done (.ok answer)))
    (hacts : ∃ exchange ∈ own, exchange.writes = true ∨ exchange.request = .acquire) :
    Covered thread moves := by
  have hresolves := hfollows.obeys (Store.resolves_perform hpolicy command)
  have hwash := hresolves answer rfl
  cases halong : (Store.washing K V).along .quiet own with
  | dirty => exact absurd halong hwash
  | quiet =>
      obtain ⟨exchange, hmem, hact⟩ := hacts
      obtain ⟨hwrites, hacquire⟩ := Store.Wash.of_along_quiet halong exchange hmem
      rcases hact with htrue | hacquires
      · cases hwrites.symm.trans htrue
      · exact absurd hacquires hacquire
  | clean =>
      apply h.settled hkeep thread
      rw [hown, Protocol.along, List.foldl_append]
      exact Store.Wash.along_clean halong _

-- Loading the file gives what the latest save has copied.
theorem Run.load_latest [DecidableEq K] (laws : store.backend.Laws)
    (hserializer : store.persistence.serializer.RoundTrips) (hready : Ready laws start)
    (h : Run store.setting start moves threads) {save : Save S}
    (hsave : (Ledger.of moves).saves.head? = some save) :
    ∃ entries, store.persistence.load threads.world.files = .ok entries ∧
      entries.Perm (store.backend.assemble save.views) := by
  have hshown := (h.filesSound hready.keep hready.clear hready.readable).shown
  rw [Shown, hsave] at hshown
  obtain ⟨bytes, hbytes, hlook⟩ := hshown
  have hsound := (h.savesSound hready.keep).sound save (List.mem_of_head? hsave)
  have hall := (h.allValid laws hready.keep hready.valid).2
  have hviews : ∀ view ∈ save.views, laws.Valid view := by
    intro view hview
    obtain ⟨move, hmove, rfl⟩ := hsound.view_mem hview
    exact hall move (List.mem_of_mem_drop hmove)
  exact Persistence.load_serialized hserializer
    (laws.nodup_assemble hviews (Nat.le_of_eq hsound.length)) hbytes hlook

-- A save shows the present map if the map has had the same bindings ever since the save began. A
-- later one that has taken its place shows the same.
theorem Run.load_settled [DecidableEq K] (laws : store.backend.Laws)
    (hserializer : store.persistence.serializer.RoundTrips) (hready : Ready laws start)
    (h : Run store.setting start moves threads) {save : Save S}
    (hsave : save ∈ (Ledger.of moves).saves)
    (hsame : ∀ move ∈ moves.drop save.start, ∀ key,
      store.backend.get key move.map = store.backend.get key threads.world.map) :
    ∃ entries, store.persistence.load threads.world.files = .ok entries ∧
      entries.Perm (store.backend.snapshot threads.world.map) := by
  have hsaves := h.savesSound hready.keep
  have hall := h.allValid laws hready.keep hready.valid
  obtain ⟨latest, hlatest⟩ : ∃ latest, (Ledger.of moves).saves.head? = some latest :=
    Option.isSome_iff_exists.mp (List.isSome_head?.mpr (List.ne_nil_of_mem hsave))
  have hsound := hsaves.sound latest (List.mem_of_head? hlatest)
  have hle : save.start ≤ latest.start := by
    have hordered := hsaves.ordered
    obtain ⟨rest, hcons⟩ := List.head?_eq_some_iff.mp hlatest
    rw [hcons] at hordered hsave
    rcases List.mem_cons.mp hsave with rfl | hold
    · exact Nat.le_refl _
    · have hafter := (List.pairwise_cons.mp hordered).1 save hold
      have hwithin := (hsaves.sound save (hcons ▸ List.mem_cons_of_mem _ hold)).start_le
      omega
  have hviews : ∀ view ∈ latest.views, laws.Valid view ∧ ∀ key,
      store.backend.get key view = store.backend.get key threads.world.map := by
    intro view hview
    obtain ⟨move, hmove, rfl⟩ := hsound.view_mem hview
    have hlater : move ∈ moves.drop save.start := List.drop_subset_drop_left moves hle hmove
    exact ⟨hall.2 move (List.mem_of_mem_drop hmove), hsame move hlater⟩
  obtain ⟨entries, hload, hperm⟩ := h.load_latest laws hserializer hready hlatest
  have hassembled := laws.perm_assemble (fun view hview => (hviews view hview).1) hsound.length
    hall.1 fun view hview => (hviews view hview).2
  exact ⟨entries, hload, hperm.trans hassembled⟩

end SnapshotStore.Threads
