import SnapshotStore.Proofs.Store.Announcing
import SnapshotStore.Proofs.Store.Changelog
import SnapshotStore.Proofs.Threads.Alone

namespace SnapshotStore

variable {K V S σ ω α β γ : Type}

open Store (Phase saving)

theorem Store.Phase.Allows.wipe_lt {segments segment : Nat} {path : Path} {phase : Phase K V}
    (h : phase.Allows segments path (.wipe segment)) : segment < segments := by
  cases phase with
  | outside => exact h
  | replacing copied bytes stage => cases stage <;> exact h.elim
  | _ => exact h.elim

-- What is done beside the store leaves the map valid, and so do the requests of the store.
theorem Routine.Obeys.valid_run [DecidableEq K] {setting : Setting K V S σ}
    (laws : setting.backend.Laws) {routine : Routine K V (World S σ) α} {path : Path}
    {post : Phase K V → α → Prop} {phase : Phase K V}
    (hobeys : routine.Obeys (saving K V setting.backend.segments path) post phase)
    {world : World S σ} (hbeside : routine.Undisturbed setting world)
    (hvalid : laws.Valid world.map) :
    laws.Valid (routine.run (World.serve setting) world).2.map := by
  induction routine generalizing world phase with
  | done answer => exact hvalid
  | call request next ih =>
      refine ih _ (hobeys.2 _) hbeside (Threads.valid_serve laws request hvalid ?_)
      rintro segment rfl
      exact Phase.Allows.wipe_lt hobeys.1
  | aside act next ih =>
      refine ih _ (hobeys.2 _) hbeside.2 ?_
      rwa [hbeside.1.map]

namespace Store

open SnapshotStore.Action

variable {store : Store K V S σ}

-- How an operation ends that sets a key after its callback, given what has been asked before and
-- what the callback has left.
structure Resumes [DecidableEq K] (store : Store K V S σ) (action : Action K V (World S σ) α)
    (world : World S σ) (before : List (Exchange K V)) (middle : World S σ) (key : K) (value : V)
    (event : Event K V) (answer : α) : Prop where
  bindings : store.backend.bindings (action.exec (World.serve store.setting) world).2.map =
    Function.update (store.backend.bindings middle.map) key (some value)
  -- the policy is evaluated last, and once
  evaluates : ∃ evaluation saved, store.Evaluation (World S σ) evaluation saved ∧
    action.run.exchanges (World.serve store.setting) world = before ++
      ⟨.insert key value, store.backend.get key middle.map⟩ ::
        (store.notices event ++ evaluation) ∧
    (action.exec (World.serve store.setting) world).1 = answered saved answer
  attempts : (action.run.exchanges (World.serve store.setting) world).countP Exchange.isAttempt =
    before.countP Exchange.isAttempt + store.policy.attempts
  nudges : (action.run.exchanges (World.serve store.setting) world).countP Exchange.isNudge =
    before.countP Exchange.isNudge + store.policy.nudges

section

variable [DecidableEq K] (laws : store.backend.Laws)
  (hlisteners : ∀ listener ∈ store.listeners, listener.NeverFails) {world middle : World S σ}
  {key : K} {value : V} {event : Event K V}

include hlisteners

-- What a key is set to after a callback replaces whatever the callback has bound it to.
theorem Sets.resumes {action rest : Action K V (World S σ) α} {before : List (Exchange K V)}
    {answer : α} (hmiddle : laws.Valid middle.map)
    (hsets : store.Sets rest middle key value event answer)
    (haction : ∀ later outcome after,
      rest.Ends (World.serve store.setting) middle later outcome after →
      action.Ends (World.serve store.setting) world (before ++ later) outcome after) :
    store.Resumes action world before middle key value event answer := by
  obtain ⟨evaluation, saved, after, hevaluation, hmap, hrest⟩ := hsets.evaluates hlisteners
  have hends := haction _ _ _ hrest
  rw [laws.insert_fst key value hmiddle] at hends
  have hinsert := Exchange.mute_insert key value (store.backend.get key middle.map)
  have htally := hevaluation.tally_announced hinsert event
  refine ⟨?_, ⟨evaluation, saved, hevaluation, hends.exchanges, by rw [hends.exec]⟩, ?_, ?_⟩
  · rw [hends.exec, hmap]
    exact Backend.bindings_insert laws hmiddle key value
  · rw [hends.exchanges, List.countP_append]
    exact congrArg _ htally.attempts
  · rw [hends.exchanges, List.countP_append]
    exact congrArg _ htally.nudges

omit hlisteners in
theorem Resumes.map {action : Action K V (World S σ) α} {before : List (Exchange K V)}
    {answer : α} (h : store.Resumes action world before middle key value event answer)
    (f : α → γ) : store.Resumes (f <$> action) world before middle key value event (f answer) := by
  obtain ⟨evaluation, saved, hevaluation, hexchanges, houtcome⟩ := h.evaluates
  have hends := (action.ends_exec (World.serve store.setting) world).map f
  refine ⟨?_, ⟨evaluation, saved, hevaluation, ?_, ?_⟩, ?_, ?_⟩
  · rw [hends.exec]
    exact h.bindings
  · rw [hends.exchanges, hexchanges]
  · rw [hends.exec, houtcome]
    exact answered_map saved answer f
  · rw [hends.exchanges]
    exact h.attempts
  · rw [hends.exchanges]
    exact h.nudges

end

def callback (store : Store K V S σ) (inner : List (Command K V ω β)) (made : Except Failure V) :
    Action K V ω (V × List (Outcome K V β)) := do
  let outcomes ← ofRoutine (store.performAll inner)
  let value ← Action.ofExcept made
  pure (value, outcomes)

theorem perform_update (key : K) (inner : List (Command K V ω β)) (edit : V → Except Failure V) :
    store.perform (.update key inner edit) =
      Answer.updated <$> store.update key fun current => store.callback inner (edit current) := by
  rw [perform]
  rfl

theorem perform_getOrInsertWith (key : K) (inner : List (Command K V ω β))
    (make : Except Failure V) : store.perform (.getOrInsertWith key inner make) =
      (fun made => Answer.obtained made.1 made.2) <$>
        store.getOrInsertWith key (store.callback inner make) := by
  rw [perform]
  rfl

theorem ends_callback (store : Store K V S σ) (inner : List (Command K V (World S σ) β))
    (made : Except Failure V) (world : World S σ) :
    (store.callback inner made).Ends (World.serve store.setting) world
      ((store.performAll inner).exchanges (World.serve store.setting) world)
      (made.map fun value =>
        (value, ((store.performAll inner).run (World.serve store.setting) world).1))
      ((store.performAll inner).run (World.serve store.setting) world).2 := by
  have hmade (outcomes : List (Outcome K V β)) (after : World S σ) : (do
      let value ← Action.ofExcept made
      pure (value, outcomes) : Action K V (World S σ) _).Ends (World.serve store.setting) after
        [] (made.map fun value => (value, outcomes)) after := by
    cases made <;> exact ⟨rfl, rfl⟩
  have hends : (store.callback inner made).Ends (World.serve store.setting) world _ _ _ :=
    (ends_ofRoutine (World.serve store.setting) (store.performAll inner) world).bind (hmade _ _)
  rwa [List.append_nil] at hends

-- Any operation with a callback that first runs any commands on the same store, on any backend,
-- with listeners that do not fail. Saves may fail, and what the callback does beside the store
-- leaves the store and the files alone.
theorem callbacks_are_taken_up [DecidableEq K] (laws : store.backend.Laws)
    (hlisteners : ∀ listener ∈ store.listeners, listener.NeverFails) {world : World S σ}
    (hvalid : laws.Valid world.map) (inner : List (Command K V (World S σ) β))
    (hbeside : (store.performAll inner).Undisturbed store.setting world) (key : K) :
    let nested := (store.performAll inner).exchanges (World.serve store.setting) world
    let outcomes := ((store.performAll inner).run (World.serve store.setting) world).1
    let middle := ((store.performAll inner).run (World.serve store.setting) world).2
    -- an update of a bound key
    (∀ current edit, store.backend.get key world.map = some current →
      (∀ value, edit current = .ok value →
        store.Resumes (store.perform (.update key inner edit)) world
          (⟨.get key, some current⟩ :: nested) middle key value (.update key current value)
          (.updated (some outcomes))) ∧
      ∀ failure, edit current = .error failure →
        (store.perform (.update key inner edit)).Ends (World.serve store.setting) world
          (⟨.get key, some current⟩ :: nested) (.error failure) middle) ∧
    -- a value for an unbound key
    (∀ make, store.backend.get key world.map = none →
      (∀ value, make = .ok value →
        store.Resumes (store.perform (.getOrInsertWith key inner make)) world
          (⟨.get key, none⟩ :: nested) middle key value
          (.ofPut key (store.backend.get key middle.map) value)
          (.obtained value (some outcomes))) ∧
      ∀ failure, make = .error failure →
        (store.perform (.getOrInsertWith key inner make)).Ends (World.serve store.setting) world
          (⟨.get key, none⟩ :: nested) (.error failure) middle) := by
  intro nested outcomes middle
  have hmiddle : laws.Valid middle.map := by
    have hobeys := store.keeps_performAll inner
    exact @Routine.Obeys.valid_run _ _ _ _ _ _ store.setting laws _ _ _ _ hobeys _ hbeside hvalid
  have hok {made : Except Failure V} {value : V} (hmade : made = .ok value) :
      (store.callback inner made).Ends (World.serve store.setting) world nested
        (.ok (value, outcomes)) middle := by
    have hends := store.ends_callback inner made world
    rwa [hmade] at hends ⊢
  have herror {made : Except Failure V} {failure : Failure} (hmade : made = .error failure) :
      (store.callback inner made).Ends (World.serve store.setting) world nested (.error failure)
        middle := by
    have hends := store.ends_callback inner made world
    rwa [hmade] at hends ⊢
  refine ⟨fun current edit hfound => ⟨fun value hedit => ?_, fun failure hedit => ?_⟩,
    fun make hfound => ⟨fun value hmake => ?_, fun failure hmake => ?_⟩⟩
  · obtain ⟨rest, hsets, hupdate⟩ := exists_sets_update
      (fun current => store.callback inner (edit current)) hfound (hok hedit)
    rw [perform_update]
    exact (hsets.resumes laws hlisteners hmiddle hupdate).map _
  · rw [perform_update]
    exact (ends_update_raised (fun current => store.callback inner (edit current)) hfound
      (herror hedit)).map _
  · obtain ⟨rest, hsets, hfill⟩ := exists_sets_getOrInsertWith hfound (hok hmake)
    rw [laws.insert_fst key value hmiddle] at hsets
    rw [perform_getOrInsertWith]
    exact (hsets.resumes laws hlisteners hmiddle hfill).map _
  · rw [perform_getOrInsertWith]
    exact (ends_getOrInsertWith_raised hfound (herror hmake)).map _

-- A callback that removes the key that is being updated, after which the first save fails.
def removesItsKey : List (Command UInt8 UInt8 (World (Shards UInt8 UInt8 4 4) Pages) Unit) :=
  [.remove 0, .insert 1 5]

theorem callbacks_are_taken_up_removesItsKey :
    noted.backend.get 0
      ((noted.performAll removesItsKey).run (World.serve noted.setting) blankPages).2.map = none ∧
    (let run := (noted.perform (.update 0 removesItsKey fun value => .ok (value + 1))).exec
      (World.serve noted.setting) blankPages
    noted.backend.get 0 run.2.map = some 10 ∧
    run.2.desk.1 = [.remove 0, .flushError (.io (.openTemporary ⟨"db.json.tmp"⟩)), .insert 1 5,
      .flush 1, .update 0 9 10, .flush 2]) ∧
    ((noted.perform (.update 0 removesItsKey fun _ => .error .unknown)).exec
        (World.serve noted.setting) blankPages).2 =
      ((noted.performAll removesItsKey).run (World.serve noted.setting) blankPages).2 := by
  let laws := Backend.shardedLaws (K := UInt8) (V := UInt8) 4 4 UInt8.toNat
  have hasks : (noted.performAll removesItsKey).Returns (asking UInt8 UInt8) () :=
    noted.asks_performAll ⟨trivial, trivial, trivial⟩
  have hbeside := hasks.undisturbed noted.setting blankPages
  have hvalid : laws.Valid blankPages.map := laws.valid_insert 0 9 laws.valid_empty
  have hcallbacks := @callbacks_are_taken_up _ _ _ _ _ noted _ laws neverFails_noted blankPages
    hvalid removesItsKey hbeside 0
  obtain ⟨hupdate, -⟩ := hcallbacks
  have hbound : noted.backend.get 0 blankPages.map = some 9 := rfl
  obtain ⟨hresumes, -⟩ := hupdate 9 (fun value => .ok (value + 1)) hbound
  obtain ⟨-, hraises⟩ := hupdate 9 (fun _ => .error .unknown) hbound
  have hset := congrFun (hresumes 10 rfl).bindings 0
  rw [Function.update_self] at hset
  exact ⟨rfl, ⟨hset, rfl⟩, congrArg Prod.snd (hraises .unknown rfl).exec⟩

end Store

end SnapshotStore
