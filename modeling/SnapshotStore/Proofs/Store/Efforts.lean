import SnapshotStore.Proofs.Persistence.Endings
import SnapshotStore.Proofs.Store.Course

namespace SnapshotStore

variable {K V S σ ω α β : Type}

def Effort.isFlush : Effort → Bool
  | evaluation _ => false
  | flush _ => true

theorem Effort.attempts_append (efforts more : List Effort) :
    attempts (efforts ++ more) = attempts efforts ++ attempts more :=
  List.filterMap_append

theorem Effort.attempts_evaluation (saved : Option (Except Failure Nat)) :
    attempts [evaluation saved] = saved.toList := by
  cases saved <;> rfl

def Event.isOfSave (event : Event K V) : Bool :=
  !event.isMutation

theorem Event.filter_isOfSave_saved (attempts : List (Except Failure Nat)) :
    (attempts.filterMap ofSave?).filter isOfSave =
      (attempts.filterMap ofSave? : List (Event K V)) := by
  refine List.filter_eq_self.mpr fun event hmem => ?_
  obtain ⟨saved, -, hevent⟩ := List.mem_filterMap.mp hmem
  rcases saved with (_ | _ | _) | entries <;> cases hevent <;> rfl

-- Whoever begins an attempt to save goes on to tell each of the listeners of it.
def Tells (listeners : Nat) (exchanges : List (Exchange K V)) : Prop :=
  ∀ before later, exchanges = before ++ later → ∀ position < listeners,
    later.countP Exchange.isAttempt ≤ ((told position later).filter Event.isOfSave).length

namespace Tells

variable {listeners : Nat} {first second exchanges : List (Exchange K V)}

theorem of_countP_eq_zero (h : exchanges.countP Exchange.isAttempt = 0) :
    Tells listeners exchanges := by
  rintro before later rfl position -
  rw [List.countP_append] at h
  omega

theorem append (h : Tells listeners first) (h' : Tells listeners second) :
    Tells listeners (first ++ second) := by
  intro before later hsplit position hlt
  rcases List.append_eq_append_iff.mp hsplit with ⟨middle, -, hsecond⟩ | ⟨middle, hfirst, rfl⟩
  · exact h' middle later hsecond position hlt
  · have hmiddle := h before middle hfirst position hlt
    have hlater := h' [] second rfl position hlt
    rw [List.countP_append, told_append, List.filter_append, List.length_append]
    omega

end Tells

namespace Store

variable {store : Store K V S σ} {exchanges others : List (Exchange K V)}
  {efforts more : List Effort}

-- What some operations ask for is what their efforts come to.
structure Bears (store : Store K V S σ) (exchanges : List (Exchange K V))
    (efforts : List Effort) : Prop where
  attempts : exchanges.countP Exchange.isAttempt = (Effort.attempts efforts).length
  nudges : exchanges.countP Exchange.isNudge =
    efforts.countP Effort.isEvaluation * store.policy.nudges
  saves : (Effort.attempts efforts).length =
    efforts.countP Effort.isEvaluation * store.policy.attempts + efforts.countP Effort.isFlush
  told : ∀ position < store.listeners.length, (told position exchanges).filter Event.isOfSave =
    (Effort.attempts efforts).filterMap Event.ofSave?
  reported : EncodesOrReports exchanges → ∀ failure,
    .error failure ∈ Effort.attempts efforts → ∃ error, failure = .store error
  tells : EncodesOrReports exchanges → Tells store.listeners.length exchanges

namespace Bears

theorem mute (h : ∀ exchange ∈ exchanges, exchange.request.IsMute) :
    store.Bears exchanges [] := by
  have htally := Tally.mute store.listeners.length h
  refine ⟨htally.attempts, htally.nudges.trans (Nat.zero_mul _).symm,
    by simp [Effort.attempts], fun position hlt => ?_,
    fun _ _ hmem => absurd hmem List.not_mem_nil, fun _ => .of_countP_eq_zero htally.attempts⟩
  rw [htally.told position hlt]
  rfl

theorem append (h : store.Bears exchanges efforts) (h' : store.Bears others more) :
    store.Bears (exchanges ++ others) (efforts ++ more) := by
  refine ⟨?_, ?_, ?_, fun position hlt => ?_, fun hencodes failure hmem => ?_, fun hencodes => ?_⟩
  · rw [List.countP_append, h.attempts, h'.attempts, Effort.attempts_append, List.length_append]
  · rw [List.countP_append, List.countP_append, h.nudges, h'.nudges, Nat.add_mul]
  · rw [Effort.attempts_append, List.length_append, h.saves, h'.saves, List.countP_append,
      List.countP_append, Nat.add_mul]
    omega
  · rw [told_append, List.filter_append, h.told position hlt, h'.told position hlt,
      Effort.attempts_append, List.filterMap_append]
  · rw [Effort.attempts_append] at hmem
    rcases List.mem_append.mp hmem with hmem | hmem
    · exact h.reported (fun entries other hother =>
        hencodes entries other (List.mem_append_left _ hother)) failure hmem
    · exact h'.reported (fun entries other hother =>
        hencodes entries other (List.mem_append_right _ hother)) failure hmem
  · exact (h.tells fun entries other hother =>
      hencodes entries other (List.mem_append_left _ hother)).append
      (h'.tells fun entries other hother =>
        hencodes entries other (List.mem_append_right _ hother))

end Bears

-- A save that fails does so as its requests do.
theorem Attempt.reported {failure : Failure} (h : store.Attempt ω exchanges (.error failure))
    (hencodes : EncodesOrReports exchanges) : ∃ error, failure = .store error := by
  obtain ⟨save, rfl, hsave⟩ := h.parts
  rcases Persistence.saveFrom_of_yields hsave with ⟨_, hok, -⟩ | ⟨_, hfailure, hcause⟩
  · cases hok
  · obtain rfl := Except.error.inj hfailure
    rcases hcause with hstore | ⟨entries, hmem⟩
    · exact hstore
    · exact hencodes entries failure (List.mem_append_left _ hmem)

theorem Attempt.tells {saved : Except Failure Nat} (h : store.Attempt ω exchanges saved)
    (hencodes : EncodesOrReports exchanges) : Tells store.listeners.length exchanges := by
  obtain ⟨event, hevent, hofSave⟩ : ∃ event : Event K V,
      Event.ofSave? saved = some event ∧ event.isOfSave = true := by
    cases saved with
    | ok entries => exact ⟨_, rfl, rfl⟩
    | error failure =>
        obtain ⟨error, rfl⟩ := h.reported hencodes
        exact ⟨_, rfl, rfl⟩
  obtain ⟨save, rfl, hsave⟩ := h.parts
  have hattempts := (tally_saveFrom store.listeners.length hsave).attempts
  have hnotices := Tally.notices store event
  rw [hevent]
  intro before later hsplit position hlt
  rcases List.append_eq_append_iff.mp hsplit with ⟨middle, -, hlater⟩ | ⟨middle, rfl, rfl⟩
  · exact Tells.of_countP_eq_zero hnotices.attempts middle later hlater position hlt
  · -- The attempt may begin in here, and all that is told of it comes behind.
    have htold := hnotices.told position hlt
    rw [List.countP_append] at hattempts
    rw [List.countP_append, Option.elim_some, hnotices.attempts, told_append, htold,
      List.filter_append, List.length_append, List.filter_singleton, hofSave]
    simp only [cond_true, List.length_singleton]
    omega

theorem Attempt.writes_eq {saved : Except Failure Nat} (h : store.Attempt ω exchanges saved) :
    ∀ exchange ∈ exchanges, exchange.writes = false := by
  obtain ⟨save, rfl, hsave⟩ := h.parts
  have hquiet := Routine.Yields.forall_allowed hsave
    (Persistence.quiet_saveFrom store.persistence store.backend)
  refine List.forall_mem_append.mpr ⟨fun exchange hmem => (hquiet exchange hmem).writes_eq _, ?_⟩
  intro exchange hmem
  cases hevent : Event.ofSave? (K := K) (V := V) saved with
  | none =>
      rw [hevent] at hmem
      exact absurd hmem List.not_mem_nil
  | some event =>
      rw [hevent] at hmem
      obtain ⟨position, -, rfl⟩ := List.mem_map.mp hmem
      rfl

-- An evaluation leaves the map as it is.
theorem Evaluation.writes_eq {saved : Option (Except Failure Nat)}
    (h : store.Evaluation ω exchanges saved) : ∀ exchange ∈ exchanges, exchange.writes = false := by
  unfold Evaluation at h
  split at h
  · obtain ⟨_, -, hattempt⟩ := h
    exact hattempt.writes_eq
  · obtain ⟨-, accepted, rfl⟩ := h
    exact List.forall_mem_singleton.mpr rfl
  · obtain ⟨-, rfl⟩ := h
    exact fun _ hmem => absurd hmem List.not_mem_nil

theorem Evaluation.reported {saved : Option (Except Failure Nat)} {failure : Failure}
    (h : store.Evaluation ω exchanges saved) (hsaved : saved = some (.error failure))
    (hencodes : EncodesOrReports exchanges) : ∃ error, failure = .store error := by
  unfold Evaluation at h
  subst hsaved
  split at h
  · obtain ⟨_, hsame, hattempt⟩ := h
    obtain rfl := Option.some.inj hsame
    exact hattempt.reported hencodes
  · cases h.1
  · cases h.1

theorem Evaluation.tells {saved : Option (Except Failure Nat)}
    (h : store.Evaluation ω exchanges saved) (hencodes : EncodesOrReports exchanges) :
    Tells store.listeners.length exchanges := by
  unfold Evaluation at h
  split at h
  · obtain ⟨_, -, hattempt⟩ := h
    exact hattempt.tells hencodes
  · obtain ⟨-, accepted, rfl⟩ := h
    exact .of_countP_eq_zero rfl
  · obtain ⟨-, rfl⟩ := h
    exact .of_countP_eq_zero rfl

theorem Finishes.bears {saved : Option (Except Failure Nat)}
    (h : store.Finishes ω exchanges saved) : store.Bears exchanges [.evaluation saved] := by
  obtain ⟨own, evaluation, events, rfl, htally, hmutations, hevaluation⟩ := h
  obtain ⟨hlength, htally'⟩ := hevaluation.tally
  have hsum := htally.append htally'
  refine ⟨?_, ?_, ?_, fun position hlt => ?_, fun hencodes failure hmem => ?_, fun hencodes => ?_⟩
  · rw [hsum.attempts, Effort.attempts_evaluation, hlength, Nat.zero_add]
  · rw [hsum.nudges]
    simp [Effort.isEvaluation]
  · rw [Effort.attempts_evaluation, hlength]
    simp [Effort.isEvaluation, Effort.isFlush]
  · have hown : events.filter Event.isOfSave = [] :=
      List.filter_eq_nil_iff.mpr fun event hmem => by simp [Event.isOfSave, hmutations event hmem]
    rw [hsum.told position hlt, List.filter_append, hown, Effort.attempts_evaluation]
    exact Event.filter_isOfSave_saved _
  · rw [Effort.attempts_evaluation, Option.mem_toList] at hmem
    exact hevaluation.reported hmem fun entries other hother =>
      hencodes entries other (List.mem_append_right _ hother)
  · exact (Tells.of_countP_eq_zero htally.attempts).append (hevaluation.tells
      fun entries other hother => hencodes entries other (List.mem_append_right _ hother))

theorem Attempt.bears {saved : Except Failure Nat} (h : store.Attempt ω exchanges saved) :
    store.Bears exchanges [.flush saved] := by
  have htally := h.tally
  refine ⟨htally.attempts, ?_, ?_, fun position hlt => ?_, fun hencodes failure hmem => ?_,
    h.tells⟩
  · rw [htally.nudges]
    simp [Effort.isEvaluation]
  · simp [Effort.attempts, Effort.saved?, Effort.isEvaluation, Effort.isFlush]
  · have hevents : (Event.ofSave? (K := K) (V := V) saved).toList =
        (Effort.attempts [.flush saved]).filterMap Event.ofSave? := by
      rcases saved with (_ | _ | _) | entries <;> rfl
    rw [htally.told position hlt, hevents]
    exact Event.filter_isOfSave_saved _
  · obtain rfl := List.mem_singleton.mp hmem
    exact h.reported hencodes

mutual

theorem Course.bears {command : Command K V ω β} {exchanges : List (Exchange K V)}
    {outcome : Outcome K V β} {efforts : List Effort}
    (h : store.Course command exchanges outcome efforts) : store.Bears exchanges efforts := by
  cases h with
  | reads _ hmute => exact .mute hmute
  | writes answer _ hfinishes => exact hfinishes.bears
  | updateMissing => exact .mute (Exchange.mute_get _ none)
  | updateRaised hnested _ =>
      exact (Bears.mute (Exchange.mute_get _ _)).append (Courses.bears hnested)
  | updateDone hnested _ hfinishes =>
      have hlater := (Courses.bears hnested).append hfinishes.bears
      exact (Bears.mute (Exchange.mute_get _ _)).append hlater
  | getOrInsertFound => exact .mute (Exchange.mute_get _ _)
  | getOrInsertMissing hfinishes =>
      exact (Bears.mute (Exchange.mute_get _ none)).append hfinishes.bears
  | getOrInsertWithFound => exact .mute (Exchange.mute_get _ _)
  | getOrInsertWithRaised hnested =>
      exact (Bears.mute (Exchange.mute_get _ none)).append (Courses.bears hnested)
  | getOrInsertWithDone hnested hfinishes =>
      have hlater := (Courses.bears hnested).append hfinishes.bears
      exact (Bears.mute (Exchange.mute_get _ none)).append hlater
  | flush hattempt => exact hattempt.bears
  | aside act answer => exact .mute fun _ hmem => absurd hmem List.not_mem_nil

theorem Courses.bears {commands : List (Command K V ω β)} {exchanges : List (Exchange K V)}
    {outcomes : List (Outcome K V β)} {efforts : List Effort}
    (h : store.Courses commands exchanges outcomes efforts) : store.Bears exchanges efforts := by
  cases h with
  | nil => exact .mute fun _ hmem => absurd hmem List.not_mem_nil
  | cons hcourse hcourses => exact (Course.bears hcourse).append (Courses.bears hcourses)

end

end Store

end SnapshotStore
