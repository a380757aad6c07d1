import SnapshotStore.Proofs.Routine.Protocol
import SnapshotStore.Routine.Memory

namespace SnapshotStore

variable {K V S ω α β Φ : Type} {protocol : Protocol K V Φ} {phase : Φ}

-- A request that is allowed in a phase and ends in it, whatever the response.
def Protocol.Leaves (protocol : Protocol K V Φ) (phase : Φ) (request : Request K V) : Prop :=
  protocol.Allows phase request ∧ ∀ response, protocol.after phase request response = phase

namespace Routine

def Returns (protocol : Protocol K V Φ) (phase : Φ) (routine : Routine K V ω α) : Prop :=
  routine.Obeys protocol (fun phase' _ => phase' = phase) phase

theorem returns_pure (answer : α) : (pure answer : Routine K V ω α).Returns protocol phase := rfl

theorem returns_bind {routine : Routine K V ω α} {next : α → Routine K V ω β}
    (h : routine.Returns protocol phase) (hnext : ∀ answer, (next answer).Returns protocol phase) :
    (routine >>= next).Returns protocol phase := by
  refine (obeys_bind routine next).mpr (h.mono ?_)
  rintro phase' answer rfl
  exact hnext answer

theorem returns_ask {request : Request K V} (h : protocol.Leaves phase request) :
    (ask request : Routine K V ω request.Response).Returns protocol phase := h

theorem returns_snapshotFrom (hcopy : ∀ segment, protocol.Leaves phase (.copy segment))
    (list : List Nat) : (Memory.snapshotFrom list : Routine K V ω _).Returns protocol phase := by
  induction list with
  | nil => exact returns_pure _
  | cons segment rest ih =>
      apply returns_bind (returns_ask (hcopy segment))
      intro _
      exact returns_bind ih fun _ => returns_pure _

theorem returns_countFrom (hcount : ∀ segment, protocol.Leaves phase (.count segment))
    (list : List Nat) : (Memory.countFrom list : Routine K V ω _).Returns protocol phase := by
  induction list with
  | nil => exact returns_pure _
  | cons segment rest ih =>
      apply returns_bind (returns_ask (hcount segment))
      intro _
      exact returns_bind ih fun _ => returns_pure _

theorem returns_wipeFrom (list : List Nat)
    (hwipe : ∀ segment ∈ list, protocol.Leaves phase (.wipe segment)) :
    (Memory.wipeFrom list : Routine K V ω _).Returns protocol phase := by
  induction list with
  | nil => exact returns_pure _
  | cons segment rest ih =>
      rw [List.forall_mem_cons] at hwipe
      exact returns_bind (returns_ask hwipe.1) fun _ => ih hwipe.2

theorem returns_removeAll (hremove : ∀ key, protocol.Leaves phase (.remove key))
    (entries : List (K × V)) :
    (Memory.removeAll entries : Routine K V ω _).Returns protocol phase := by
  induction entries with
  | nil => exact returns_pure _
  | cons entry rest ih => exact returns_bind (returns_ask (hremove entry.1)) fun _ => ih

variable (backend : Backend K V S)

theorem returns_size (hcopy : ∀ segment, protocol.Leaves phase (.copy segment))
    (hcount : ∀ segment, protocol.Leaves phase (.count segment)) :
    (Memory.size backend : Routine K V ω _).Returns protocol phase := by
  unfold Memory.size
  split
  · exact returns_countFrom hcount _
  · exact returns_bind (returns_snapshotFrom hcopy _) fun _ => returns_pure _

theorem returns_contains (hcontains : ∀ key, protocol.Leaves phase (.contains key))
    (hget : ∀ key, protocol.Leaves phase (.get key)) (key : K) :
    (Memory.contains backend key : Routine K V ω _).Returns protocol phase := by
  unfold Memory.contains
  split
  · exact returns_ask (hcontains key)
  · exact returns_bind (returns_ask (hget key)) fun _ => returns_pure _

theorem returns_clear (hcopy : ∀ segment, protocol.Leaves phase (.copy segment))
    (hwipe : ∀ segment < backend.segments, protocol.Leaves phase (.wipe segment))
    (hremove : ∀ key, protocol.Leaves phase (.remove key)) :
    (Memory.clear backend : Routine K V ω _).Returns protocol phase := by
  unfold Memory.clear
  split
  · exact returns_wipeFrom _ fun segment hsegment => hwipe segment (List.mem_range.mp hsegment)
  · exact returns_bind (returns_snapshotFrom hcopy _) (returns_removeAll hremove)

end Routine

namespace Action

def Returns (protocol : Protocol K V Φ) (phase : Φ) (action : Action K V ω α) : Prop :=
  action.run.Returns protocol phase

theorem returns_pure (answer : α) : (pure answer : Action K V ω α).Returns protocol phase := rfl

theorem returns_raise (failure : Failure) :
    (raise failure : Action K V ω α).Returns protocol phase := rfl

theorem returns_ofExcept (outcome : Except Failure α) :
    (ofExcept outcome : Action K V ω α).Returns protocol phase := rfl

theorem returns_ofRoutine {routine : Routine K V ω α} (h : routine.Returns protocol phase) :
    (ofRoutine routine).Returns protocol phase :=
  Routine.returns_bind h fun _ => Routine.returns_pure _

-- A failure ends the action where it is.
theorem returns_bind {action : Action K V ω α} {next : α → Action K V ω β}
    (h : action.Returns protocol phase) (hnext : ∀ answer, (next answer).Returns protocol phase) :
    (action >>= next).Returns protocol phase := by
  refine (obeys_bind action next).mpr (Routine.Obeys.mono h ?_)
  rintro phase' (failure | answer) rfl
  · exact rfl
  · exact hnext answer

theorem returns_map (f : α → β) {action : Action K V ω α} (h : action.Returns protocol phase) :
    (f <$> action).Returns protocol phase :=
  (obeys_map f action).mpr h

theorem returns_ask {request : Request K V} (h : protocol.Leaves phase request) :
    (ask request : Action K V ω request.Response).Returns protocol phase :=
  returns_ofRoutine (Routine.returns_ask h)

theorem returns_exclusively {action : Action K V ω α} (hacquire : protocol.Leaves phase .acquire)
    (hrelease : protocol.Leaves phase .release) (h : action.Returns protocol phase) :
    (exclusively action).Returns protocol phase := by
  refine (obeys_exclusively action).mpr ⟨hacquire.1, ?_⟩
  rw [hacquire.2 ()]
  refine Routine.Obeys.mono h ?_
  rintro _ outcome rfl
  exact ⟨hrelease.1, hrelease.2 ()⟩

end Action

end SnapshotStore
