import SnapshotStore.Proofs.Persistence.Requests
import SnapshotStore.Store.Command

namespace SnapshotStore

variable {K V S σ ω β ρ Φ : Type} {protocol : Protocol K V Φ} {phase : Φ}

def Command.Reads : Command K V ω β → Prop
  | .get _ => True
  | .containsKey _ => True
  | .length => True
  | .isEmpty => True
  | .entries => True
  | .keys => True
  | .values => True
  | _ => False

namespace Store

open SnapshotStore.Action

-- A look at the map leaves the phase as it is.
structure LeftByLooks (protocol : Protocol K V Φ) (phase : Φ) : Prop where
  get (key : K) : protocol.Leaves phase (.get key)
  contains (key : K) : protocol.Leaves phase (.contains key)
  count (segment : Nat) : protocol.Leaves phase (.count segment)
  copy (segment : Nat) : protocol.Leaves phase (.copy segment)

-- So does telling the listeners.
structure LeftByReads (protocol : Protocol K V Φ) (phase : Φ) : Prop
    extends LeftByLooks protocol phase where
  notify (position : Nat) (event : Event K V) : protocol.Leaves phase (.notify position event)

-- So does a change of a map with so many segments.
structure LeftByWrites (segments : Nat) (protocol : Protocol K V Φ) (phase : Φ) : Prop
    extends LeftByReads protocol phase where
  insert (key : K) (value : V) : protocol.Leaves phase (.insert key value)
  remove (key : K) : protocol.Leaves phase (.remove key)
  wipe (segment : Nat) : segment < segments → protocol.Leaves phase (.wipe segment)

section Looks

variable (store : Store K V S σ) (hlooks : LeftByLooks protocol phase)

include hlooks

theorem returns_get (key : K) :
    (store.get key : Action K V ω (Option V)).Returns protocol phase :=
  returns_ask (hlooks.get key)

theorem returns_containsKey (key : K) :
    (store.containsKey key : Action K V ω Bool).Returns protocol phase :=
  returns_ofRoutine (Routine.returns_contains _ hlooks.contains hlooks.get key)

theorem returns_length : (store.length : Action K V ω Nat).Returns protocol phase :=
  returns_ofRoutine (Routine.returns_size _ hlooks.copy hlooks.count)

theorem returns_isEmpty : (store.isEmpty : Action K V ω Bool).Returns protocol phase :=
  returns_bind (store.returns_length hlooks) fun _ => returns_pure _

theorem returns_entries : (store.entries : Action K V ω (List (K × V))).Returns protocol phase :=
  returns_ofRoutine (Routine.returns_snapshotFrom hlooks.copy _)

theorem returns_keys : (store.keys : Action K V ω (List K)).Returns protocol phase :=
  returns_bind (store.returns_entries hlooks) fun _ => returns_pure _

theorem returns_values : (store.values : Action K V ω (List V)).Returns protocol phase :=
  returns_bind (store.returns_entries hlooks) fun _ => returns_pure _

theorem returns_perform_of_reads {command : Command K V ω β} (h : command.Reads) :
    (store.perform command).Returns protocol phase := by
  cases command with
  | get key =>
      rw [perform]
      exact returns_map _ (store.returns_get hlooks key)
  | containsKey key =>
      rw [perform]
      exact returns_map _ (store.returns_containsKey hlooks key)
  | length =>
      rw [perform]
      exact returns_map _ (store.returns_length hlooks)
  | isEmpty =>
      rw [perform]
      exact returns_map _ (store.returns_isEmpty hlooks)
  | entries =>
      rw [perform]
      exact returns_map _ (store.returns_entries hlooks)
  | keys =>
      rw [perform]
      exact returns_map _ (store.returns_keys hlooks)
  | values =>
      rw [perform]
      exact returns_map _ (store.returns_values hlooks)
  | _ => exact h.elim

end Looks

section Reads

variable (store : Store K V S σ) (hreads : LeftByReads protocol phase)

include hreads

theorem returns_tellFrom (event : Event K V) (positions : List Nat) :
    (tellFrom event positions : Action K V ω Unit).Returns protocol phase := by
  induction positions with
  | nil => exact returns_pure _
  | cons position rest ih =>
      apply returns_bind (returns_ask (hreads.notify position event))
      intro outcome
      exact returns_bind (returns_ofExcept outcome) fun _ => ih

theorem returns_tell (event : Event K V) :
    (store.tell event : Action K V ω Unit).Returns protocol phase :=
  returns_tellFrom hreads event _

theorem returns_report (failure : Failure) :
    (store.report failure : Action K V ω Unit).Returns protocol phase := by
  unfold report
  cases failure with
  | store error => exact returns_bind (store.returns_tell hreads _) fun _ => returns_raise _
  | exception text => exact returns_raise (.exception text)
  | unknown => exact returns_raise .unknown

theorem returns_flush (hsaving : Persistence.LeftBySaving protocol phase) :
    (store.flush : Action K V ω Unit).Returns protocol phase := by
  apply returns_bind (returns_ofRoutine
    (Persistence.returns_saveFrom hsaving store.persistence store.backend))
  rintro (failure | entries)
  · exact store.returns_report hreads failure
  · exact store.returns_tell hreads _

end Reads

theorem returns_settle {store : Store K V S σ}
    (hflush : (store.flush : Action K V ω Unit).Returns protocol phase)
    (hnudge : protocol.Leaves phase .nudge) :
    (store.settle : Action K V ω Unit).Returns protocol phase := by
  unfold settle
  cases store.policy with
  | writeThrough => exact hflush
  | background milliseconds => exact returns_bind (returns_ask hnudge) fun _ => returns_pure _
  | callerDriven => exact returns_pure _

section Writes

variable {store : Store K V S σ} (hwrites : LeftByWrites store.backend.segments protocol phase)

include hwrites

theorem returns_put (key : K) (value : V) :
    (store.put key value : Action K V ω (Option V)).Returns protocol phase := by
  apply returns_bind (returns_ask (hwrites.insert key value))
  intro previous
  exact returns_bind (store.returns_tell hwrites.toLeftByReads _) fun _ => returns_pure _

theorem returns_putAll (entries : List (K × V)) :
    (store.putAll entries : Action K V ω Unit).Returns protocol phase := by
  induction entries with
  | nil => exact returns_pure _
  | cons entry rest ih => exact returns_bind (returns_put hwrites _ _) fun _ => ih

theorem returns_tellRemoval (key : K) (removed : Option V) :
    (store.tellRemoval key removed : Action K V ω Unit).Returns protocol phase := by
  cases removed with
  | none => exact returns_pure _
  | some value => exact store.returns_tell hwrites.toLeftByReads _

variable (hsettle : (store.settle : Action K V ω Unit).Returns protocol phase)

include hsettle

theorem returns_insert (key : K) (value : V) :
    (store.insert key value : Action K V ω (Option V)).Returns protocol phase := by
  apply returns_bind (returns_put hwrites key value)
  intro previous
  exact returns_bind hsettle fun _ => returns_pure _

theorem returns_remove (key : K) :
    (store.remove key : Action K V ω (Option V)).Returns protocol phase := by
  apply returns_bind (returns_ask (hwrites.remove key))
  intro removed
  apply returns_bind (returns_tellRemoval hwrites key removed)
  intro _
  exact returns_bind hsettle fun _ => returns_pure _

theorem returns_clear : (store.clear : Action K V ω Unit).Returns protocol phase := by
  have hmap : (Memory.clear store.backend : Routine K V ω Unit).Returns protocol phase :=
    Routine.returns_clear _ hwrites.copy hwrites.wipe hwrites.remove
  apply returns_bind (returns_ofRoutine hmap)
  intro _
  exact returns_bind (store.returns_tell hwrites.toLeftByReads _) fun _ => hsettle

theorem returns_extend (entries : List (K × V)) :
    (store.extend entries : Action K V ω Unit).Returns protocol phase :=
  returns_bind (returns_putAll hwrites entries) fun _ => hsettle

-- What `update` does after its callback.
theorem returns_replace (key : K) (current updated : V) (answer : ρ) :
    (do
      let _ ← ask (.insert key updated)
      store.tell (.update key current updated)
      store.settle
      pure (some answer) : Action K V ω (Option ρ)).Returns protocol phase := by
  apply returns_bind (returns_ask (hwrites.insert key updated))
  intro _
  apply returns_bind (store.returns_tell hwrites.toLeftByReads _)
  intro _
  exact returns_bind hsettle fun _ => returns_pure _

-- What the others do that look at a key first.
theorem returns_fill (key : K) (value : V) (answer : ρ) :
    (do
      let _ ← store.put key value
      store.settle
      pure answer : Action K V ω ρ).Returns protocol phase := by
  apply returns_bind (returns_put hwrites key value)
  intro _
  exact returns_bind hsettle fun _ => returns_pure _

theorem returns_update (key : K) (mutate : V → Action K V ω (V × ρ))
    (hmutate : ∀ value, (mutate value).Returns protocol phase) :
    (store.update key mutate).Returns protocol phase := by
  apply returns_bind (returns_ask (hwrites.get key))
  rintro (_ | current)
  · exact returns_pure _
  · exact returns_bind (hmutate current) fun made =>
      returns_replace hwrites hsettle key current made.1 made.2

theorem returns_getOrInsertWith (key : K) (make : Action K V ω (V × ρ))
    (hmake : make.Returns protocol phase) :
    (store.getOrInsertWith key make).Returns protocol phase := by
  apply returns_bind (returns_ask (hwrites.get key))
  rintro (_ | existing)
  · exact returns_bind hmake fun made => returns_fill hwrites hsettle key made.1 _
  · exact returns_pure _

theorem returns_getOrInsert (key : K) (value : V) :
    (store.getOrInsert key value : Action K V ω V).Returns protocol phase := by
  apply returns_bind (returns_ask (hwrites.get key))
  rintro (_ | existing)
  · exact returns_fill hwrites hsettle key value value
  · exact returns_pure _

end Writes

end Store

end SnapshotStore
