import Mathlib.Data.List.Count
import SnapshotStore.Proofs.Store.Notices

namespace SnapshotStore

variable {K V S σ ω α β : Type}

-- Taking the lock of the saves is how an attempt to save begins.
def Exchange.isAttempt : Exchange K V → Bool
  | ⟨.acquire, _⟩ => true
  | _ => false

def Exchange.isNudge : Exchange K V → Bool
  | ⟨.nudge, _⟩ => true
  | _ => false

-- How many of each an evaluation asks for.
def FlushPolicy.attempts : FlushPolicy → Nat
  | .writeThrough => 1
  | _ => 0

def FlushPolicy.nudges : FlushPolicy → Nat
  | .background _ => 1
  | _ => 0

-- What the listeners are told of an attempt to save. Only the errors of the store itself are
-- reported.
def Event.ofSave? : Except Failure Nat → Option (Event K V)
  | .ok entries => some (.flush entries)
  | .error (.store error) => some (.flushError error)
  | .error _ => none

def Event.isMutation : Event K V → Bool
  | .flush _ => false
  | .flushError _ => false
  | _ => true

theorem Event.isMutation_ofPut (key : K) (previous : Option V) (value : V) :
    (ofPut key previous value).isMutation = true := by
  cases previous <;> rfl

-- How an operation ends that has an answer, given how the save ends that the policy asks for.
def answered (saved : Option (Except Failure Nat)) (answer : α) : Except Failure α :=
  match saved with
  | some (.error failure) => .error failure
  | _ => .ok answer

theorem answered_map (saved : Option (Except Failure Nat)) (answer : α) (f : α → β) :
    (answered saved answer).map f = answered saved (f answer) := by
  rcases saved with _ | (failure | entries) <;> rfl

-- Neither an attempt to save nor a nudge, and nothing that a listener is told.
def Request.IsMute : Request K V → Prop
  | .acquire => False
  | .nudge => False
  | .notify _ _ => False
  | _ => True

theorem Exchange.mute_get (key : K) (found : Option V) :
    ∀ exchange ∈ [(⟨.get key, found⟩ : Exchange K V)], exchange.request.IsMute :=
  List.forall_mem_singleton.mpr trivial

theorem Exchange.mute_insert (key : K) (value : V) (previous : Option V) :
    ∀ exchange ∈ [(⟨.insert key value, previous⟩ : Exchange K V)], exchange.request.IsMute :=
  List.forall_mem_singleton.mpr trivial

theorem Exchange.mute_remove (key : K) (removed : Option V) :
    ∀ exchange ∈ [(⟨.remove key, removed⟩ : Exchange K V)], exchange.request.IsMute :=
  List.forall_mem_singleton.mpr trivial

def mute (K V : Type) : Protocol K V Unit where
  Allows _ := Request.IsMute
  AllowsAside _ := True
  after _ _ _ := ()

theorem Persistence.leftByFiling_mute : LeftByFiling (mute K V) () where
  copy _ := ⟨trivial, fun _ => rfl⟩
  serialize _ := ⟨trivial, fun _ => rfl⟩
  create _ := ⟨trivial, fun _ => rfl⟩
  append _ _ := ⟨trivial, fun _ => rfl⟩
  sync _ := ⟨trivial, fun _ => rfl⟩
  rename _ _ := ⟨trivial, fun _ => rfl⟩
  discard _ := ⟨trivial, fun _ => rfl⟩

theorem Memory.mute_clear (backend : Backend K V S) :
    (Memory.clear backend : Routine K V ω Unit).Returns (mute K V) () :=
  Routine.returns_clear backend (fun _ => ⟨trivial, fun _ => rfl⟩)
    (fun _ _ => ⟨trivial, fun _ => rfl⟩) fun _ => ⟨trivial, fun _ => rfl⟩

theorem Store.leftByLooks_mute : LeftByLooks (mute K V) () where
  get _ := ⟨trivial, fun _ => rfl⟩
  contains _ := ⟨trivial, fun _ => rfl⟩
  count _ := ⟨trivial, fun _ => rfl⟩
  copy _ := ⟨trivial, fun _ => rfl⟩

-- How many attempts and nudges there are among some exchanges, and what each of the listeners is
-- told by them.
structure Tally (listeners : Nat) (exchanges : List (Exchange K V)) (attempts nudges : Nat)
    (events : List (Event K V)) : Prop where
  attempts : exchanges.countP Exchange.isAttempt = attempts
  nudges : exchanges.countP Exchange.isNudge = nudges
  told : ∀ position < listeners, told position exchanges = events

namespace Tally

variable {first second exchanges : List (Exchange K V)} {listeners : Nat}
  {attempts nudges attempts' nudges' : Nat} {events events' : List (Event K V)}

theorem append (h : Tally listeners first attempts nudges events)
    (h' : Tally listeners second attempts' nudges' events') :
    Tally listeners (first ++ second) (attempts + attempts') (nudges + nudges')
      (events ++ events') := by
  refine ⟨?_, ?_, fun position hlt => ?_⟩
  · rw [List.countP_append, h.attempts, h'.attempts]
  · rw [List.countP_append, h.nudges, h'.nudges]
  · rw [told_append, h.told position hlt, h'.told position hlt]

theorem mute (listeners : Nat) (h : ∀ exchange ∈ exchanges, exchange.request.IsMute) :
    Tally listeners exchanges 0 0 [] := by
  refine ⟨List.countP_eq_zero.mpr ?_, List.countP_eq_zero.mpr ?_, fun position _ => ?_⟩
  · rintro ⟨request, response⟩ hmem
    have hmute := h _ hmem
    cases request <;> first | exact hmute.elim | exact Bool.false_ne_true
  · rintro ⟨request, response⟩ hmem
    have hmute := h _ hmem
    cases request <;> first | exact hmute.elim | exact Bool.false_ne_true
  · refine List.filterMap_eq_nil_iff.mpr ?_
    rintro ⟨request, response⟩ hmem
    have hmute := h _ hmem
    cases request <;> first | exact hmute.elim | rfl

theorem notices (store : Store K V S σ) (event : Event K V) :
    Tally store.listeners.length (store.notices event) 0 0 [event] := by
  refine ⟨List.countP_eq_zero.mpr ?_, List.countP_eq_zero.mpr ?_, fun position hlt => ?_⟩
  · intro exchange hmem
    obtain ⟨position, -, rfl⟩ := List.mem_map.mp hmem
    exact Bool.false_ne_true
  · intro exchange hmem
    obtain ⟨position, -, rfl⟩ := List.mem_map.mp hmem
    exact Bool.false_ne_true
  · exact Store.told_notices hlt event

end Tally

namespace Store

open SnapshotStore.Action

variable {store : Store K V S σ} {exchanges : List (Exchange K V)}

-- An attempt to save, and then what the listeners are told of it.
structure Attempt (store : Store K V S σ) (ω : Type) (exchanges : List (Exchange K V))
    (saved : Except Failure Nat) : Prop where
  parts : ∃ save, exchanges = save ++ (Event.ofSave? saved).elim [] store.notices ∧
    (store.persistence.saveFrom store.backend : Action K V ω Nat).Yields save saved

-- What is asked for when the policy is evaluated, and how the attempt to save ends that it makes,
-- if it makes one.
def Evaluation (store : Store K V S σ) (ω : Type) (exchanges : List (Exchange K V))
    (saved : Option (Except Failure Nat)) : Prop :=
  match store.policy with
  | .writeThrough => ∃ outcome, saved = some outcome ∧ store.Attempt ω exchanges outcome
  | .background _ => saved = none ∧ ∃ accepted, exchanges = [⟨.nudge, accepted⟩]
  | .callerDriven => saved = none ∧ exchanges = []

theorem tally_saveFrom {saved : Except Failure Nat} (listeners : Nat)
    (h : (store.persistence.saveFrom store.backend : Action K V ω Nat).Yields exchanges saved) :
    Tally listeners exchanges 1 0 [] := by
  obtain ⟨inside, rfl, hinside⟩ := Yields.of_exclusively h
  have hmute := Routine.Yields.forall_allowed hinside
    (Persistence.returns_writeCopy Persistence.leftByFiling_mute store.persistence store.backend)
  have hacquire : Tally listeners [(⟨.acquire, ()⟩ : Exchange K V)] 1 0 [] :=
    ⟨rfl, rfl, fun _ _ => rfl⟩
  have hrelease : Tally listeners [(⟨.release, ()⟩ : Exchange K V)] 0 0 [] :=
    ⟨rfl, rfl, fun _ _ => rfl⟩
  exact (hacquire.append (Tally.mute listeners hmute)).append hrelease

theorem Attempt.tally {saved : Except Failure Nat} (h : store.Attempt ω exchanges saved) :
    Tally store.listeners.length exchanges 1 0 (Event.ofSave? saved).toList := by
  obtain ⟨save, rfl, hsave⟩ := h.parts
  have htally := tally_saveFrom store.listeners.length hsave
  cases Event.ofSave? (K := K) (V := V) saved with
  | none => exact htally.append (Tally.mute _ fun _ hmem => absurd hmem List.not_mem_nil)
  | some event => exact htally.append (Tally.notices store event)

-- An evaluation asks for what the policy says.
theorem Evaluation.tally {saved : Option (Except Failure Nat)}
    (h : store.Evaluation ω exchanges saved) :
    saved.toList.length = store.policy.attempts ∧
      Tally store.listeners.length exchanges store.policy.attempts store.policy.nudges
        (saved.toList.filterMap Event.ofSave?) := by
  unfold Evaluation at h
  cases hpolicy : store.policy with
  | writeThrough =>
      rw [hpolicy] at h
      obtain ⟨outcome, rfl, hattempt⟩ := h
      have hevents : (some outcome).toList.filterMap Event.ofSave? =
          (Event.ofSave? (K := K) (V := V) outcome).toList := by
        cases hevent : Event.ofSave? (K := K) (V := V) outcome <;> simp [hevent]
      exact ⟨rfl, hevents ▸ hattempt.tally⟩
  | background milliseconds =>
      rw [hpolicy] at h
      obtain ⟨rfl, accepted, rfl⟩ := h
      exact ⟨rfl, rfl, rfl, fun _ _ => rfl⟩
  | callerDriven =>
      rw [hpolicy] at h
      obtain ⟨rfl, rfl⟩ := h
      exact ⟨rfl, rfl, rfl, fun _ _ => rfl⟩

-- What an operation asks for that makes a change and announces it.
theorem Evaluation.tally_announced {saved : Option (Except Failure Nat)}
    (h : store.Evaluation ω exchanges saved) {change : List (Exchange K V)}
    (hmute : ∀ exchange ∈ change, exchange.request.IsMute) (event : Event K V) :
    Tally store.listeners.length (change ++ (store.notices event ++ exchanges))
      store.policy.attempts store.policy.nudges
      (event :: saved.toList.filterMap Event.ofSave?) := by
  have htally := (Tally.mute _ hmute).append ((Tally.notices store event).append h.tally.2)
  simpa using htally

theorem report_of_yields {failure : Failure} {outcome : Except Failure Unit}
    (h : (store.report failure : Action K V ω Unit).Yields exchanges outcome)
    (hcalm : Calm exchanges) :
    exchanges = (Event.ofSave? (.error failure)).elim [] store.notices ∧
      outcome = .error failure := by
  cases failure with
  | store error =>
      rcases Yields.of_bind h with ⟨other, -, htell⟩ | ⟨_, first, second, rfl, htell, hraise⟩
      · cases (notices_of_yields htell hcalm).2
      · obtain ⟨rfl, rfl⟩ := hraise.of_raise
        rw [List.append_nil] at hcalm ⊢
        exact ⟨(notices_of_yields htell hcalm).1, rfl⟩
  | exception text => exact Yields.of_raise h
  | unknown => exact Yields.of_raise h

theorem attempt_of_yields {outcome : Except Failure Unit}
    (h : (store.flush : Action K V ω Unit).Yields exchanges outcome) (hcalm : Calm exchanges) :
    ∃ saved, store.Attempt ω exchanges saved ∧ outcome = answered (some saved) () := by
  obtain ⟨saved, save, others, rfl, hsave, hothers⟩ := Yields.of_ofRoutine_bind h
  have hrest := (calm_append.mp hcalm).2
  cases saved with
  | ok entries =>
      obtain ⟨rfl, rfl⟩ := notices_of_yields hothers hrest
      exact ⟨.ok entries, ⟨save, rfl, hsave⟩, rfl⟩
  | error failure =>
      obtain ⟨rfl, rfl⟩ := report_of_yields hothers hrest
      exact ⟨.error failure, ⟨save, rfl, hsave⟩, rfl⟩

theorem evaluation_of_yields {outcome : Except Failure Unit}
    (h : (store.settle : Action K V ω Unit).Yields exchanges outcome) (hcalm : Calm exchanges) :
    ∃ saved, store.Evaluation ω exchanges saved ∧ outcome = answered saved () := by
  unfold settle at h
  unfold Evaluation
  cases hpolicy : store.policy with
  | writeThrough =>
      rw [hpolicy] at h
      obtain ⟨saved, hattempt, houtcome⟩ := attempt_of_yields h hcalm
      exact ⟨some saved, ⟨saved, rfl, hattempt⟩, houtcome⟩
  | background milliseconds =>
      rw [hpolicy] at h
      obtain ⟨accepted, others, rfl, hothers⟩ := Yields.of_ask_bind h
      obtain ⟨rfl, houtcome⟩ := hothers.of_pure
      exact ⟨none, ⟨rfl, accepted, rfl⟩, houtcome⟩
  | callerDriven =>
      rw [hpolicy] at h
      obtain ⟨rfl, houtcome⟩ := h.of_pure
      exact ⟨none, ⟨rfl, rfl⟩, houtcome⟩

end Store

end SnapshotStore
