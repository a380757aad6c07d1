import SnapshotStore.Proofs.Store.Batches

namespace SnapshotStore.Store

open SnapshotStore.Action

variable {K V S σ α β γ ρ : Type} {store : Store K V S σ}

-- After a look at a key, an action does on a world what another one does on the world that its
-- callback has left. It may only answer something else.
def DoesAs (store : Store K V S σ) (key : K) (action : Action K V (World S σ) α)
    (world : World S σ) (other : Action K V (World S σ) γ) (middle : World S σ) (answer : α) :
    Prop :=
  action.Ends (World.serve store.setting) world
    (⟨.get key, store.backend.get key world.map⟩ ::
      other.run.exchanges (World.serve store.setting) middle)
    ((other.exec (World.serve store.setting) middle).1.map fun _ => answer)
    (other.exec (World.serve store.setting) middle).2

-- A look at a key, and nothing else.
def OnlyLooks (store : Store K V S σ) (key : K) (action : Action K V (World S σ) α)
    (world : World S σ) (answer : α) : Prop :=
  action.Ends (World.serve store.setting) world
    [⟨.get key, store.backend.get key world.map⟩] (.ok answer) world

theorem DoesAs.map {key : K} {action : Action K V (World S σ) α} {world middle : World S σ}
    {other : Action K V (World S σ) γ} {answer : α}
    (h : store.DoesAs key action world other middle answer) (f : α → β) :
    store.DoesAs key (f <$> action) world other middle (f answer) := by
  have hends := Ends.map f h
  cases hother : (other.exec (World.serve store.setting) middle).1 <;>
    simpa only [DoesAs, hother, Except.map] using hends

section

variable {world middle : World S σ} {key : K} {value : V}

theorem doesAs_update [DecidableEq K] (laws : store.backend.Laws) (hvalid : laws.Valid world.map)
    {mutate : V → Action K V (World S σ) (V × ρ)} {current : V} {answer : ρ}
    (hfound : store.backend.get key world.map = some current)
    (hmutate : (mutate current).Ends (World.serve store.setting) world [] (.ok (value, answer))
      middle) (hmap : middle.map = world.map) :
    store.DoesAs key (store.update key mutate) world (store.insert key value) middle
      (some answer) := by
  obtain ⟨rest, hsets, hupdate⟩ := exists_sets_update mutate hfound hmutate
  have hinsert := store.sets_insert key value middle
  rw [laws.insert_fst key value (hmap ▸ hvalid), hmap, hfound] at hinsert
  rw [DoesAs, hfound]
  exact hupdate _ _ _ (hsets.ends_of_sets hinsert)

theorem doesAs_getOrInsertWith {make : Action K V (World S σ) (V × ρ)} {answer : ρ}
    (hfound : store.backend.get key world.map = none)
    (hmake : make.Ends (World.serve store.setting) world [] (.ok (value, answer)) middle) :
    store.DoesAs key (store.getOrInsertWith key make) world (store.insert key value) middle
      (value, some answer) := by
  obtain ⟨rest, hsets, hfill⟩ := exists_sets_getOrInsertWith hfound hmake
  rw [DoesAs, hfound]
  exact hfill _ _ _ (hsets.ends_of_sets (store.sets_insert key value middle))

theorem doesAs_getOrInsert (hfound : store.backend.get key world.map = none) (value : V) :
    store.DoesAs key (store.getOrInsert key value) world (store.insert key value) world value := by
  have hmake : (pure (value, ()) : Action K V (World S σ) (V × Unit)).Ends
    (World.serve store.setting) world [] (.ok (value, ())) world := ends_pure _
  rw [store.getOrInsert_eq key value ()]
  exact (doesAs_getOrInsertWith hfound hmake).map Prod.fst

theorem onlyLooks_getOrInsert (hfound : store.backend.get key world.map = some value)
    (default : V) : store.OnlyLooks key (store.getOrInsert key default) world value := by
  rw [store.getOrInsert_eq key default (), OnlyLooks, hfound]
  exact (ends_getOrInsertWith_found hfound (pure (default, ()))).map Prod.fst

end

-- What a batch does and what its entries do that are set one by one.
structure BatchAgrees (store : Store K V S σ) (entries : List (K × V)) (world : World S σ)
    (separate : Routine K V (World S σ) (List (Outcome K V β))) : Prop where
  map : ((store.extend entries).exec (World.serve store.setting) world).2.map =
    (separate.run (World.serve store.setting) world).2.map
  events : ∀ position < store.listeners.length,
    (told position ((store.extend entries).run.exchanges (World.serve store.setting)
      world)).filter Event.isMutation =
    (told position (separate.exchanges (World.serve store.setting) world)).filter Event.isMutation
  -- the batch evaluates the policy last, and once
  evaluates : ∃ puts evaluation saved,
    (store.extend entries).run.exchanges (World.serve store.setting) world = puts ++ evaluation ∧
    Tally store.listeners.length puts 0 0 (store.backend.putEvents entries world.map) ∧
    store.Evaluation (World S σ) evaluation saved ∧
    ((store.extend entries).exec (World.serve store.setting) world).1 = answered saved ()
  shows : store.policy = .writeThrough → store.Writable world.files → entries ≠ [] →
    ((store.extend entries).exec (World.serve store.setting) world).1 = .ok () →
    (∀ outcome ∈ (separate.run (World.serve store.setting) world).1,
      ∃ answer, outcome = .ok answer) →
    store.ShowsMap ((store.extend entries).exec (World.serve store.setting) world).2.files
      ((store.extend entries).exec (World.serve store.setting) world).2.map ∧
    ((store.extend entries).exec (World.serve store.setting) world).2.files.look store.path =
      (separate.run (World.serve store.setting) world).2.files.look store.path

theorem batchAgrees (hlisteners : ∀ listener ∈ store.listeners, listener.NeverFails)
    (entries : List (K × V)) (world : World S σ) :
    store.BatchAgrees entries world (store.performAll (Command.inserts (β := β) entries)) := by
  obtain ⟨puts, middle, evaluation, saved, after, htally, hputs, hmap, hfiles, hevaluation,
    hafter, hsettle, hends⟩ := ends_extend hlisteners entries world
  obtain ⟨hinserts, htold⟩ := exec_inserts (β := β) hlisteners entries world
  refine ⟨?_, fun position hlt => ?_, ⟨puts, evaluation, saved, hends.exchanges, htally,
    hevaluation, by rw [hends.exec]⟩, ?_⟩
  · rw [hends.exec, hafter, hmap]
    exact hinserts.symm
  · rw [hends.exchanges, told_append, List.filter_append, htally.told position hlt,
      hevaluation.tally.2.told position hlt, Event.filter_isMutation_saved,
      Backend.filter_isMutation_putEvents, List.append_nil]
    exact (htold position hlt).symm
  · intro hpolicy hwritable hne hok hall
    rw [hends.exec] at hok ⊢
    have hexec := hsettle.exec
    rw [show answered saved () = .ok () from hok] at hexec
    obtain ⟨-, hshows⟩ := shows_settled hpolicy hexec (hfiles ▸ hwritable)
    obtain ⟨-, hshown⟩ := shows_inserts hlisteners hpolicy entries hall hwritable
    have hsame := hshown hne
    rw [hinserts, ← hmap, ← hafter] at hsame
    exact ⟨hshows, hshows.look_eq hsame⟩

-- All ways to write, on any backend, with listeners that do not fail. Saves may fail, unless it is
-- the file that is compared. The callbacks ask the store for nothing.
theorem write_paths_agree [DecidableEq K] (laws : store.backend.Laws)
    (hlisteners : ∀ listener ∈ store.listeners, listener.NeverFails) {world : World S σ}
    (hvalid : laws.Valid world.map) :
    (∀ key (mutate : V → Action K V (World S σ) (V × ρ)),
      (store.backend.get key world.map = none →
        store.OnlyLooks key (store.update key mutate) world none) ∧
      ∀ current value answer middle, store.backend.get key world.map = some current →
        (mutate current).Ends (World.serve store.setting) world [] (.ok (value, answer)) middle →
        middle.map = world.map → store.DoesAs key (store.update key mutate) world
          (store.insert key value) middle (some answer)) ∧
    (∀ key value,
      (store.backend.get key world.map = none →
        store.DoesAs key (store.getOrInsert key value) world (store.insert key value) world
          value) ∧
      ∀ existing, store.backend.get key world.map = some existing →
        store.OnlyLooks key (store.getOrInsert key value) world existing) ∧
    (∀ key (make : Action K V (World S σ) (V × ρ)),
      (∀ value answer middle, store.backend.get key world.map = none →
        make.Ends (World.serve store.setting) world [] (.ok (value, answer)) middle →
        store.DoesAs key (store.getOrInsertWith key make) world (store.insert key value) middle
          (value, some answer)) ∧
      ∀ existing, store.backend.get key world.map = some existing →
        store.OnlyLooks key (store.getOrInsertWith key make) world (existing, none)) ∧
    -- a value that is made at no cost
    (∀ key value (answer : ρ), Prod.fst <$> store.getOrInsertWith key (pure (value, answer)) =
      (store.getOrInsert key value : Action K V (World S σ) V)) ∧
    ∀ entries, store.BatchAgrees entries world
      (store.performAll (Command.inserts (β := β) entries)) := by
  refine ⟨fun key mutate => ⟨fun hfound => ?_, fun current value answer middle => ?_⟩,
    fun key value => ⟨fun hfound => ?_, fun existing hfound => ?_⟩,
    fun key make => ⟨fun value answer middle => ?_, fun existing hfound => ?_⟩,
    fun key value answer => ?_, fun entries => ?_⟩
  · rw [OnlyLooks, hfound]
    exact ends_update_missing mutate hfound
  · exact doesAs_update laws hvalid
  · exact doesAs_getOrInsert hfound value
  · exact onlyLooks_getOrInsert hfound value
  · exact doesAs_getOrInsertWith
  · rw [OnlyLooks, hfound]
    exact ends_getOrInsertWith_found hfound make
  · exact (store.getOrInsert_eq key value answer).symm
  · exact batchAgrees hlisteners entries world

-- No save fails.
def filledPages : World (Shards UInt8 UInt8 4 4) Pages :=
  { blankPages with mishaps := fun _ => .none }

def repeated : List (UInt8 × UInt8) := [(1, 5), (0, 7), (1, 6)]

def separately : Routine UInt8 UInt8 (World (Shards UInt8 UInt8 4 4) Pages)
    (List (Outcome UInt8 UInt8 Unit)) :=
  noted.performAll (Command.inserts repeated)

theorem write_paths_agree_repeated :
    (noted.update 0 fun value => pure (value + 1, ())).exec (World.serve noted.setting)
        filledPages =
      (.ok (some ()), ((noted.insert 0 10).exec (World.serve noted.setting) filledPages).2) ∧
    ((noted.extend repeated).exec (World.serve noted.setting) filledPages).2.desk.1 =
      [.insert 1 5, .update 0 9 7, .update 1 5 6, .flush 2] ∧
    ((noted.extend repeated).exec (World.serve noted.setting) filledPages).2.files.look ⟨"db"⟩ =
      (separately.run (World.serve noted.setting) filledPages).2.files.look ⟨"db"⟩ := by
  let laws := Backend.shardedLaws (K := UInt8) (V := UInt8) 4 4 UInt8.toNat
  have hvalid : laws.Valid filledPages.map := laws.valid_insert 0 9 laws.valid_empty
  have hagree := @write_paths_agree _ _ _ _ Unit Unit noted _ laws neverFails_noted filledPages
    hvalid
  obtain ⟨hupdate, -, -, -, hbatch⟩ := hagree
  have hmutate : (pure (9 + 1, ()) : Action UInt8 UInt8 _ (UInt8 × Unit)).Ends
      (World.serve noted.setting) filledPages [] (.ok (10, ())) filledPages := ends_pure _
  have hdoes := (hupdate 0 fun value => pure (value + 1, ())).2 9 10 () filledPages rfl hmutate rfl
  have hwritable : noted.Writable filledPages.files :=
    ⟨FileTree.clear_of_resolve ["db.json.tmp"] (.missing [] "db") rfl (FileTree.isPlain_of_none rfl)
      rfl (by decide), none, rfl, by simp⟩
  have hok : (separately.run (World.serve noted.setting) filledPages).1 =
      [.ok (.found none), .ok (.found (some 9)), .ok (.found (some 5))] := rfl
  have hall : ∀ outcome ∈ (separately.run (World.serve noted.setting) filledPages).1,
      ∃ answer, outcome = .ok answer := by
    rw [hok]
    simp
  obtain ⟨-, hlook⟩ := (hbatch repeated).shows rfl hwritable (List.cons_ne_nil _ _) rfl hall
  exact ⟨hdoes.exec, rfl, hlook⟩

end SnapshotStore.Store
