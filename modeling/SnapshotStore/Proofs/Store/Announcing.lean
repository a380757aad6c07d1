import SnapshotStore.Proofs.Store.Evaluation
import SnapshotStore.Proofs.Store.Looking

namespace SnapshotStore

variable {K V S σ ω α β ρ : Type}

theorem Action.ends_ask_bind {serve : Server K V ω} {request : Request K V}
    {next : request.Response → Action K V ω β} {whole after : ω} {later : List (Exchange K V)}
    {outcome : Except Failure β}
    (h : (next (serve request whole).1).Ends serve (serve request whole).2 later outcome after) :
    (ask request >>= next).Ends serve whole (⟨request, (serve request whole).1⟩ :: later) outcome
      after :=
  (ends_ask serve request whole).bind h

theorem Action.ends_answered_bind {serve : Server K V ω} {request : Request K V}
    {response : request.Response} {next : request.Response → Action K V ω β} {whole after : ω}
    {later : List (Exchange K V)} {outcome : Except Failure β}
    (hanswered : (serve request whole).1 = response)
    (h : (next response).Ends serve (serve request whole).2 later outcome after) :
    (ask request >>= next).Ends serve whole (⟨request, response⟩ :: later) outcome after := by
  subst hanswered
  exact ends_ask_bind h

namespace Store

open SnapshotStore.Action

def announce (store : Store K V S σ) (event : Event K V) : Action K V ω Unit := do
  store.tell event
  store.settle

section

variable (store : Store K V S σ) (key : K) (value : V)

theorem insert_eq : (store.insert key value : Action K V ω (Option V)) = (do
    let previous ← ask (.insert key value)
    (fun _ => previous) <$> store.announce (.ofPut key previous value)) := by
  simp only [insert, put, announce, bind_assoc, pure_bind, map_eq_pure_bind]

theorem remove_eq : (store.remove key : Action K V ω (Option V)) = (do
    let removed ← ask (.remove key)
    (fun _ => removed) <$> match removed with
      | some _ => store.announce (.remove key)
      | none => store.settle) := by
  refine congrArg _ (funext fun removed => ?_)
  cases removed with
  | none => simp only [tellRemoval, pure_bind, map_eq_pure_bind]
  | some value => simp only [tellRemoval, announce, bind_assoc, map_eq_pure_bind]

-- What is done under a key that was found unbound.
theorem fill_eq (answer : ρ) : (do
    let _ ← store.put key value
    store.settle
    pure answer : Action K V ω ρ) = (do
    let previous ← ask (.insert key value)
    (fun _ => answer) <$> store.announce (.ofPut key previous value)) := by
  simp only [put, announce, bind_assoc, pure_bind, map_eq_pure_bind]

-- What is done under a key that was found bound.
theorem replace_eq (current : V) (answer : ρ) : (do
    let _ ← ask (.insert key value)
    store.tell (.update key current value)
    store.settle
    pure answer : Action K V ω ρ) = (do
    let _ ← ask (.insert key value)
    (fun _ => answer) <$> store.announce (.update key current value)) := by
  simp only [announce, bind_assoc, map_eq_pure_bind]

-- A value that is made at no cost.
theorem getOrInsert_eq (answer : ρ) : (store.getOrInsert key value : Action K V ω V) =
    Prod.fst <$> store.getOrInsertWith key (pure (value, answer)) := by
  simp only [getOrInsert, getOrInsertWith, map_bind]
  refine congrArg _ (funext fun found => ?_)
  cases found with
  | none => simp only [pure_bind, map_bind, map_pure]
  | some existing => simp only [map_pure]

end

-- One key is set, an event is announced, and that is how it ends.
structure Sets (store : Store K V S σ) (action : Action K V (World S σ) α) (world : World S σ)
    (key : K) (value : V) (event : Event K V) (answer : α) : Prop where
  ends : action.Ends (World.serve store.setting) world
    (⟨.insert key value, (store.backend.insert key value world.map).1⟩ ::
      (store.announce event).run.exchanges (World.serve store.setting)
        { world with map := (store.backend.insert key value world.map).2 })
    (((store.announce event).exec (World.serve store.setting)
      { world with map := (store.backend.insert key value world.map).2 }).1.map fun _ => answer)
    ((store.announce event).exec (World.serve store.setting)
      { world with map := (store.backend.insert key value world.map).2 }).2

section

variable {store : Store K V S σ} {world middle : World S σ} {key : K} {value : V}
  {nested : List (Exchange K V)}

theorem sets_of_announce {next : Option V → Action K V (World S σ) α} {event : Event K V}
    {answer : α} (hnext : next (store.backend.insert key value world.map).1 =
      (fun _ => answer) <$> store.announce event) :
    store.Sets (ask (.insert key value) >>= next) world key value event answer := by
  have hannounce := (store.announce event).ends_exec (World.serve store.setting)
    { world with map := (store.backend.insert key value world.map).2 }
  have hends := hannounce.map fun _ => answer
  rw [← hnext] at hends
  exact ⟨ends_ask_bind hends⟩

theorem sets_insert (key : K) (value : V) (world : World S σ) :
    let previous := (store.backend.insert key value world.map).1
    store.Sets (store.insert key value) world key value (.ofPut key previous value) previous := by
  intro previous
  rw [insert_eq]
  exact sets_of_announce rfl

-- Two operations that set the same key alike differ in nothing but their answers.
theorem Sets.ends_of_sets {action : Action K V (World S σ) α} {other : Action K V (World S σ) β}
    {event : Event K V} {answer : α} {answer' : β}
    (h : store.Sets action world key value event answer)
    (h' : store.Sets other world key value event answer') :
    action.Ends (World.serve store.setting) world
      (other.run.exchanges (World.serve store.setting) world)
      ((other.exec (World.serve store.setting) world).1.map fun _ => answer)
      (other.exec (World.serve store.setting) world).2 := by
  rw [h'.ends.exchanges, h'.ends.exec]
  have hmap : ∀ outcome : Except Failure Unit,
      Except.map (fun _ => answer) (outcome.map fun _ => answer') =
        outcome.map fun _ => answer := by
    intro outcome
    cases outcome <;> rfl
  rw [hmap]
  exact h.ends

theorem looks_settle (store : Store K V S σ) : (store.settle : Action K V ω Unit).Looks :=
  returns_settle store.looks_flush (leaves_looking trivial)

-- Evaluating the policy when nobody else uses the store.
theorem ends_settle (hlisteners : ∀ listener ∈ store.listeners, listener.NeverFails)
    (world : World S σ) : ∃ own saved after, store.Evaluation (World S σ) own saved ∧
      after.map = world.map ∧ store.settle.Ends (World.serve store.setting) world own
        (answered saved ()) after := by
  have hends := store.settle.ends_exec (World.serve store.setting) world
  obtain ⟨saved, hevaluation, houtcome⟩ :=
    evaluation_of_yields hends.yields (calm_exchanges world hlisteners store.settle.run)
  rw [houtcome] at hends
  exact ⟨_, saved, _, hevaluation,
    (Routine.run_looks store.looks_settle store.setting world).1, hends⟩

theorem Sets.evaluates (hlisteners : ∀ listener ∈ store.listeners, listener.NeverFails)
    {action : Action K V (World S σ) α} {event : Event K V} {answer : α}
    (h : store.Sets action world key value event answer) :
    ∃ evaluation saved after, store.Evaluation (World S σ) evaluation saved ∧
      after.map = (store.backend.insert key value world.map).2 ∧
      action.Ends (World.serve store.setting) world
        (⟨.insert key value, (store.backend.insert key value world.map).1⟩ ::
          (store.notices event ++ evaluation)) (answered saved answer) after := by
  obtain ⟨desk, htell⟩ := ends_notices event
    { world with map := (store.backend.insert key value world.map).2 } hlisteners
  obtain ⟨evaluation, saved, after, hevaluation, hmap, hsettle⟩ := ends_settle hlisteners
    { world with map := (store.backend.insert key value world.map).2, desk := desk }
  have hannounce : (store.announce event).Ends (World.serve store.setting) _ _ _ _ :=
    htell.bind hsettle
  have hends := h.ends
  rw [hannounce.exchanges, hannounce.exec, answered_map] at hends
  exact ⟨evaluation, saved, after, hevaluation, hmap, hends⟩

theorem ends_get_bind {next : Option V → Action K V (World S σ) α} {found : Option V}
    {later : List (Exchange K V)} {outcome : Except Failure α} {after : World S σ}
    (hfound : store.backend.get key world.map = found)
    (h : (next found).Ends (World.serve store.setting) world later outcome after) :
    (ask (.get key) >>= next).Ends (World.serve store.setting) world (⟨.get key, found⟩ :: later)
      outcome after :=
  ends_answered_bind hfound h

section

variable (mutate : V → Action K V (World S σ) (V × ρ))

theorem ends_update_missing (hfound : store.backend.get key world.map = none) :
    (store.update key mutate).Ends (World.serve store.setting) world [⟨.get key, none⟩]
      (.ok none) world :=
  ends_get_bind hfound (ends_pure none)

theorem ends_update_raised {current : V} {failure : Failure}
    (hfound : store.backend.get key world.map = some current)
    (hmutate : (mutate current).Ends (World.serve store.setting) world nested (.error failure)
      middle) :
    (store.update key mutate).Ends (World.serve store.setting) world
      (⟨.get key, some current⟩ :: nested) (.error failure) middle :=
  ends_get_bind hfound hmutate.bind_error

-- What `update` does after a callback, on what that has left.
theorem exists_sets_update {current : V} {answer : ρ}
    (hfound : store.backend.get key world.map = some current)
    (hmutate : (mutate current).Ends (World.serve store.setting) world nested
      (.ok (value, answer)) middle) :
    ∃ rest, store.Sets rest middle key value (.update key current value) (some answer) ∧
      ∀ later outcome after, rest.Ends (World.serve store.setting) middle later outcome after →
        (store.update key mutate).Ends (World.serve store.setting) world
          (⟨.get key, some current⟩ :: (nested ++ later)) outcome after := by
  have hsets : store.Sets (do
      let _ ← ask (.insert key value)
      (fun _ => some answer) <$> store.announce (.update key current value)) middle key value
      (.update key current value) (some answer) := sets_of_announce rfl
  rw [← replace_eq] at hsets
  exact ⟨_, hsets, fun later outcome after hrest => ends_get_bind hfound (hmutate.bind hrest)⟩

end

section

variable {make : Action K V (World S σ) (V × ρ)}

theorem ends_getOrInsertWith_found {existing : V}
    (hfound : store.backend.get key world.map = some existing)
    (make : Action K V (World S σ) (V × ρ)) :
    (store.getOrInsertWith key make).Ends (World.serve store.setting) world
      [⟨.get key, some existing⟩] (.ok (existing, none)) world :=
  ends_get_bind hfound (ends_pure (existing, none))

theorem ends_getOrInsertWith_raised {failure : Failure}
    (hfound : store.backend.get key world.map = none)
    (hmake : make.Ends (World.serve store.setting) world nested (.error failure) middle) :
    (store.getOrInsertWith key make).Ends (World.serve store.setting) world
      (⟨.get key, none⟩ :: nested) (.error failure) middle :=
  ends_get_bind hfound hmake.bind_error

theorem exists_sets_getOrInsertWith {answer : ρ}
    (hfound : store.backend.get key world.map = none)
    (hmake : make.Ends (World.serve store.setting) world nested (.ok (value, answer)) middle) :
    let event := Event.ofPut key (store.backend.insert key value middle.map).1 value
    ∃ rest, store.Sets rest middle key value event (value, some answer) ∧
      ∀ later outcome after, rest.Ends (World.serve store.setting) middle later outcome after →
        (store.getOrInsertWith key make).Ends (World.serve store.setting) world
          (⟨.get key, none⟩ :: (nested ++ later)) outcome after := by
  intro event
  have hsets : store.Sets (do
      let previous ← ask (.insert key value)
      (fun _ => (value, some answer)) <$> store.announce (.ofPut key previous value)) middle key
      value event (value, some answer) := sets_of_announce rfl
  rw [← fill_eq] at hsets
  exact ⟨_, hsets, fun later outcome after hrest => ends_get_bind hfound (hmake.bind hrest)⟩

end

end

end Store

end SnapshotStore
