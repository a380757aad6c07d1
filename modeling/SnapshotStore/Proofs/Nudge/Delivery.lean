import SnapshotStore.Nudge.Channel
import SnapshotStore.Proofs.Trace

namespace SnapshotStore.Nudge

structure Line where
  channel : Channel := {}
  -- whether the receiver is in a wait
  inWait : Bool := false

-- What is seen of a step.
inductive Sign where
  | sent (accepted : Bool)
  | closed
  | began
  | returned (status : Status)
  deriving DecidableEq

-- One step under the channel's lock. Those who send and close need no names, since a step of any
-- of them may come at any time. So may the end of the receiver's time.
inductive Line.Step : Line → Sign → Line → Prop where
  | send (line : Line) :
      Step line (.sent line.channel.trySend.1) { line with channel := line.channel.trySend.2 }
  | close (line : Line) : Step line .closed { line with channel := line.channel.close }
  | begin {channel after : Channel} : channel.startReceive = some after →
      Step ⟨channel, false⟩ .began ⟨after, true⟩
  | refuse {channel : Channel} : channel.startReceive = none →
      Step ⟨channel, false⟩ (.returned .closed) ⟨channel, false⟩
  | wake {channel : Channel} (timeIsUp : Bool) : (channel.isReady || timeIsUp) = true →
      Step ⟨channel, true⟩ (.returned channel.finishReceive.1) ⟨channel.finishReceive.2, false⟩

-- What the others have done since the receiver began the wait that it is in, if it is in one.
def currentWait (signs : List Sign) : Option (List Sign) :=
  signs.foldl (fun wait sign =>
    match sign with
    | .began => some []
    | .returned _ => none
    | _ => wait.map (· ++ [sign])) none

theorem currentWait_sent (signs : List Sign) (accepted : Bool) :
    currentWait (signs ++ [.sent accepted]) =
      (currentWait signs).map (· ++ [.sent accepted]) := by
  simp [currentWait]

theorem currentWait_closed (signs : List Sign) :
    currentWait (signs ++ [.closed]) = (currentWait signs).map (· ++ [.closed]) := by
  simp [currentWait]

theorem currentWait_began (signs : List Sign) : currentWait (signs ++ [.began]) = some [] := by
  simp [currentWait]

theorem currentWait_returned (signs : List Sign) (status : Status) :
    currentWait (signs ++ [.returned status]) = none := by
  simp [currentWait]

namespace Line

-- What the signs so far tell about a line.
structure Fits (signs : List Sign) (line : Line) : Prop where
  closed : line.channel.closed = true ↔ .closed ∈ signs
  inWait : line.inWait = (currentWait signs).isSome
  waiting : line.channel.receiverWaiting = line.inWait
  pending : ∀ during, currentWait signs = some during →
    during.count (.sent true) = line.channel.pending.toNat
  -- Only a close leaves a nudge behind when a wait ends.
  quiet : line.channel.closed = false → line.channel.pending = true → line.inWait = true
  delivered : line.channel.closed = false →
    signs.count (.sent true) = signs.count (.returned .nudged) + line.channel.pending.toNat

variable {line after : Line} {signs : List Sign}

theorem Fits.send (h : Fits signs line) : Fits (signs ++ [.sent line.channel.trySend.1])
    { line with channel := line.channel.trySend.2 } := by
  rw [Channel.trySend_snd]
  have haccepted := line.channel.trySend_fst
  generalize line.channel.trySend.1 = accepted at haccepted
  -- No nudge is accepted on top of another one.
  have hcount : (line.channel.pending || accepted).toNat =
      line.channel.pending.toNat + [Sign.sent accepted].count (.sent true) := by
    subst haccepted
    cases line.channel.pending <;> cases line.channel.closed <;>
      cases line.channel.receiverWaiting <;> rfl
  have hinWait : line.inWait = (currentWait (signs ++ [.sent accepted])).isSome := by
    simpa [currentWait_sent] using h.inWait
  refine ⟨by simpa using h.closed, hinWait, h.waiting, ?_, ?_, ?_⟩
  · intro during hduring
    rw [currentWait_sent, Option.map_eq_some_iff] at hduring
    obtain ⟨before, hbefore, rfl⟩ := hduring
    rw [List.count_append, h.pending before hbefore]
    exact hcount.symm
  · intro hopen hp
    cases hbefore : line.channel.pending with
    | true => exact h.quiet hopen hbefore
    | false =>
        rw [hbefore, Bool.false_or, haccepted] at hp
        have hwaiting : line.channel.receiverWaiting = true := by simp_all
        exact h.waiting.symm.trans hwaiting
  · intro hopen
    rw [List.count_append, List.count_append, h.delivered hopen, hcount]
    simp
    omega

theorem Fits.close (h : Fits signs line) :
    Fits (signs ++ [.closed]) { line with channel := line.channel.close } := by
  have hinWait : line.inWait = (currentWait (signs ++ [.closed])).isSome := by
    simpa [currentWait_closed] using h.inWait
  refine ⟨by simp [Channel.close], hinWait, h.waiting, ?_, ?_, ?_⟩
  · intro during hduring
    rw [currentWait_closed, Option.map_eq_some_iff] at hduring
    obtain ⟨before, hbefore, rfl⟩ := hduring
    simpa [Channel.close] using h.pending before hbefore
  · exact fun hopen => by cases hopen
  · exact fun hopen => by cases hopen

theorem Fits.begin {channel next : Channel} (h : Fits signs ⟨channel, false⟩)
    (hstart : channel.startReceive = some next) : Fits (signs ++ [.began]) ⟨next, true⟩ := by
  obtain ⟨hopen, rfl⟩ := Channel.startReceive_eq_some_iff.mp hstart
  have hpending : channel.pending = false := by
    rw [Bool.eq_false_iff]
    exact fun hp => by cases h.quiet hopen hp
  refine ⟨by simpa using h.closed, by simp [currentWait_began], rfl, ?_, fun _ _ => rfl, ?_⟩
  · intro during hduring
    rw [currentWait_began] at hduring
    obtain rfl := Option.some.inj hduring
    simp [hpending]
  · intro _
    simpa using h.delivered hopen

theorem Fits.refuse {channel : Channel} (h : Fits signs ⟨channel, false⟩)
    (hstart : channel.startReceive = none) :
    Fits (signs ++ [.returned .closed]) ⟨channel, false⟩ := by
  have hclosed : channel.closed = true := Channel.startReceive_eq_none_iff.mp hstart
  refine ⟨by simpa using h.closed, by simp [currentWait_returned], h.waiting, ?_, h.quiet, ?_⟩
  · exact fun during hduring => by simp [currentWait_returned] at hduring
  · exact fun hopen => by cases hclosed.symm.trans hopen

theorem Fits.wake {channel : Channel} (h : Fits signs ⟨channel, true⟩) :
    Fits (signs ++ [.returned channel.finishReceive.1]) ⟨channel.finishReceive.2, false⟩ := by
  rw [Channel.finishReceive_snd, Channel.finishReceive_fst]
  refine ⟨by simpa using h.closed, by simp [currentWait_returned], rfl, ?_, ?_, ?_⟩
  · exact fun during hduring => by simp [currentWait_returned] at hduring
  · intro hopen hp
    simp [show channel.closed = false from hopen] at hp
  · intro hopen
    have hopen : channel.closed = false := hopen
    have hdelivered := h.delivered hopen
    cases hp : channel.pending <;> simp_all

theorem Fits.step {sign : Sign} (h : Fits signs line) (hstep : Step line sign after) :
    Fits (signs ++ [sign]) after := by
  cases hstep with
  | send => exact h.send
  | close => exact h.close
  | begin hstart => exact h.begin hstart
  | refuse hstart => exact h.refuse hstart
  | wake timeIsUp hready => exact h.wake

theorem fits_start : Fits [] {} where
  closed := by simp
  inWait := rfl
  waiting := rfl
  pending _ hduring := by cases hduring
  quiet _ hpending := by cases hpending
  delivered _ := rfl

theorem fits (h : Trace Step {} signs line) : Fits signs line :=
  h.invariant fits_start fun _ _ _ _ _ hfits hstep => hfits.step hstep

-- A nudge is accepted in an open wait that has none yet.
theorem Step.sent_iff {accepted : Bool} (h : Fits signs line)
    (hstep : Step line (.sent accepted) after) : accepted = true ↔
      .closed ∉ signs ∧ ∃ during, currentWait signs = some during ∧ .sent true ∉ during := by
  cases hstep with
  | send =>
      rw [Channel.trySend_fst, h.waiting, h.inWait, ← h.closed]
      cases hwait : currentWait signs with
      | none => simp
      | some during =>
          have hpending : .sent true ∉ during ↔ line.channel.pending = false := by
            rw [← List.count_eq_zero, h.pending during hwait]
            cases line.channel.pending <;> simp
          simp [hpending]

-- What the end of a wait tells about it.
theorem Step.returned {status : Status} (h : Fits signs line)
    (hstep : Step line (.returned status) after) : (status = .closed ↔ .closed ∈ signs) ∧
      (status ≠ .closed → ∃ during, currentWait signs = some during ∧
        during.count (.sent true) = if status = .nudged then 1 else 0) := by
  rw [← h.closed]
  cases hstep with
  | refuse hstart =>
      have hclosed := Channel.startReceive_eq_none_iff.mp hstart
      exact ⟨iff_of_true rfl hclosed, fun hopen => absurd rfl hopen⟩
  | @wake channel timeIsUp hready =>
      rw [Channel.finishReceive_fst]
      obtain ⟨during, hwait⟩ := Option.isSome_iff_exists.mp h.inWait.symm
      have hpending := h.pending during hwait
      cases hclosed : channel.closed with
      | true => simp
      | false => cases hp : channel.pending <;> simp_all

theorem Step.once_closed {sign : Sign} (hstep : Step line sign after)
    (hclosed : line.channel.closed = true) : after.channel.closed = true ∧
      sign ≠ .sent true ∧ ∀ status, sign = .returned status → status = .closed := by
  cases hstep with
  | send =>
      rw [Channel.trySend_snd, Channel.trySend_fst]
      simp [hclosed]
  | close => simp [Channel.close]
  | begin hstart => simp [(Channel.startReceive_eq_some_iff.mp hstart).1] at hclosed
  | refuse => exact ⟨hclosed, by simp, fun status hstatus => (Sign.returned.inj hstatus).symm⟩
  | @wake channel timeIsUp hready =>
      have hclosed : channel.closed = true := hclosed
      rw [Channel.finishReceive_snd, Channel.finishReceive_fst]
      simp [hclosed]

end Line

-- At any time after any number of sends, waits and closes, in any order.
theorem nudges_are_delivered_once {signs : List Sign} {line : Line}
    (h : Trace Line.Step {} signs line) :
    (line.channel.closed = false →
      (line.channel.pending = true → line.channel.receiverWaiting = true) ∧
      signs.count (.sent true) =
        signs.count (.returned .nudged) + line.channel.pending.toNat) ∧
    -- which nudges are accepted
    (∀ before later accepted, signs = before ++ .sent accepted :: later → (accepted = true ↔
      .closed ∉ before ∧ ∃ during, currentWait before = some during ∧ .sent true ∉ during)) ∧
    -- how waits end
    (∀ before later status, signs = before ++ .returned status :: later →
      (status = .closed ↔ .closed ∈ before) ∧
      (status ≠ .closed → ∃ during, currentWait before = some during ∧
        during.count (.sent true) = if status = .nudged then 1 else 0)) ∧
    -- what is left once the channel is closed
    (∀ before later, signs = before ++ .closed :: later →
      .sent true ∉ later ∧ ∀ status, .returned status ∈ later → status = .closed) := by
  refine ⟨fun hopen => ⟨fun hpending => ?_, (Line.fits h).delivered hopen⟩, ?_, ?_, ?_⟩
  · have hfits := Line.fits h
    exact hfits.waiting.trans (hfits.quiet hopen hpending)
  · rintro before later accepted rfl
    obtain ⟨now, next, hbefore, hstep, -⟩ := h.exists_step
    exact hstep.sent_iff (Line.fits hbefore)
  · rintro before later status rfl
    obtain ⟨now, next, hbefore, hstep, -⟩ := h.exists_step
    exact hstep.returned (Line.fits hbefore)
  · rintro before later rfl
    obtain ⟨now, next, -, hstep, hlater⟩ := h.exists_step
    have hclosed : next.channel.closed = true := by
      cases hstep
      rfl
    have hall := hlater.forall_mem (fun _ _ _ hstep => hstep.once_closed) hclosed
    exact ⟨fun hmem => (hall _ hmem).1 rfl, fun status hmem => (hall _ hmem).2 status rfl⟩

-- A nudge that comes too early, one that arrives, one that is dropped, and a wait without any.
def severalWaits : List Sign :=
  [.sent false, .began, .sent true, .sent false, .returned .nudged, .began, .returned .timeout,
    .began, .sent true]

-- The close overtakes the last nudge.
def closedInWait : List Sign :=
  severalWaits ++ [.closed, .sent false, .returned .closed, .returned .closed]

theorem nudges_are_delivered_once_closedInWait :
    (∃ line, Trace Line.Step {} severalWaits line ∧ line.channel.pending = true ∧
      severalWaits.count (.sent true) = severalWaits.count (.returned .nudged) + 1) ∧
    ∃ line, Trace Line.Step {} closedInWait line ∧ line.channel = ⟨false, true, true⟩ ∧
      (∃ during, currentWait [.sent false, .began, .sent true, .sent false] = some during ∧
        during.count (.sent true) = 1) ∧
      ∀ status, Sign.returned status ∈ [.sent false, .returned .closed, .returned .closed] →
        status = .closed := by
  have hseveral : Trace Line.Step {} severalWaits ⟨⟨true, true, false⟩, true⟩ :=
    .next (.next (.next (.next (.next (.next (.next (.next (.next .start
      (.send _)) (.begin rfl)) (.send _)) (.send _)) (.wake false rfl)) (.begin rfl))
      (.wake true rfl)) (.begin rfl)) (.send _)
  have hclosed : Trace Line.Step {} closedInWait ⟨⟨false, true, true⟩, false⟩ :=
    .next (.next (.next (.next hseveral (.close _)) (.send _)) (.wake false rfl)) (.refuse rfl)
  obtain ⟨hopen, -, -, -⟩ := nudges_are_delivered_once hseveral
  obtain ⟨-, -, hwaits, hlater⟩ := nudges_are_delivered_once hclosed
  refine ⟨⟨_, hseveral, rfl, (hopen rfl).2⟩, _, hclosed, rfl, ?_, ?_⟩
  · exact (hwaits [.sent false, .began, .sent true, .sent false] _ .nudged rfl).2 (by decide)
  · exact (hlater severalWaits _ rfl).2

end SnapshotStore.Nudge
