import Mathlib.Algebra.Ring.Int.Defs
import SnapshotStore.FlushPolicy
import SnapshotStore.Nudge.Receiver
import SnapshotStore.Worker.Basic
import SnapshotStore.Proofs.Nudge.Delivery

namespace SnapshotStore

open Nudge (Channel Status Line Sign Receiver)

variable {now timeout deadline : Int64}

namespace Nudge.Deadline

theorem toInt_left (hnow : 0 ≤ now) : (lastReading - now).toInt = 2 ^ 63 - 1 - now.toInt := by
  have hnonneg : 0 ≤ now.toInt := Int64.le_iff_toInt_le.mp hnow
  have hlt := now.toInt_lt
  rw [Int64.toInt_sub, lastReading, Int64.toInt_maxValue]
  exact Int.bmod_eq_of_le (by omega) (by omega)

theorem toInt_headroom (hnow : 0 ≤ now) :
    (headroom now).toInt = (2 ^ 63 - 1 - now.toInt) / 10 ^ 6 := by
  have hnonneg : 0 ≤ now.toInt := Int64.le_iff_toInt_le.mp hnow
  have hlt := now.toInt_lt
  have hunit : nanosecondsPerMillisecond.toInt = 10 ^ 6 := rfl
  rw [headroom, Int64.toInt_div, toInt_left hnow, hunit, Int.tdiv_eq_ediv_of_nonneg (by omega)]
  exact Int.bmod_eq_of_le (by omega) (by omega)

-- Rounding the headroom down keeps the last millisecond before the clock's end out of use.
theorem headroom_le_iff (hnow : 0 ≤ now) : headroom now ≤ timeout ↔
    2 ^ 63 - 1 - 10 ^ 6 < now.toInt + timeout.toInt * 10 ^ 6 := by
  rw [Int64.le_iff_toInt_le, toInt_headroom hnow]
  omega

theorem toInt_timeout (htimeout : 0 < timeout) (hfits : timeout.toInt * 10 ^ 6 < 2 ^ 63) :
    (timeout * nanosecondsPerMillisecond).toInt = timeout.toInt * 10 ^ 6 := by
  have hpos : 0 < timeout.toInt := Int64.lt_iff_toInt_lt.mp htimeout
  have hunit : nanosecondsPerMillisecond.toInt = 10 ^ 6 := rfl
  rw [Int64.toInt_mul, hunit]
  exact Int.bmod_eq_of_le (by omega) (by omega)

theorem toInt_deadline (hnow : 0 ≤ now) (htimeout : 0 < timeout)
    (hfits : now.toInt + timeout.toInt * 10 ^ 6 < 2 ^ 63) :
    (now + timeout * nanosecondsPerMillisecond).toInt = now.toInt + timeout.toInt * 10 ^ 6 := by
  have hnonneg : 0 ≤ now.toInt := Int64.le_iff_toInt_le.mp hnow
  have hpos : 0 < timeout.toInt := Int64.lt_iff_toInt_lt.mp htimeout
  rw [Int64.toInt_add, toInt_timeout htimeout (by omega)]
  exact Int.bmod_eq_of_le (by omega) (by omega)

theorem ofTimeout?_eq_none_iff (hnow : 0 ≤ now) : ofTimeout? now timeout = none ↔
    2 ^ 63 - 1 - 10 ^ 6 < now.toInt + timeout.toInt * 10 ^ 6 := by
  rw [← headroom_le_iff hnow, ofTimeout?]
  simp

theorem ofTimeout?_eq_some_iff (hnow : 0 ≤ now) (htimeout : 0 < timeout) :
    ofTimeout? now timeout = some deadline ↔
      now.toInt + timeout.toInt * 10 ^ 6 ≤ 2 ^ 63 - 1 - 10 ^ 6 ∧
      deadline.toInt = now.toInt + timeout.toInt * 10 ^ 6 := by
  rw [ofTimeout?]
  by_cases hfits : now.toInt + timeout.toInt * 10 ^ 6 ≤ 2 ^ 63 - 1 - 10 ^ 6
  · have hfree : ¬ headroom now ≤ timeout := by
      rw [headroom_le_iff hnow]
      omega
    rw [if_neg hfree, Option.some_inj, eq_comm, ← Int64.toInt_inj,
      toInt_deadline hnow htimeout (by omega)]
    exact (and_iff_right hfits).symm
  · have hlong : headroom now ≤ timeout := (headroom_le_iff hnow).mpr (by omega)
    rw [if_pos hlong]
    exact iff_of_false (by simp) fun hexact => hfits hexact.1

end Nudge.Deadline

-- Every deadline lies ahead.
theorem Nudge.Receiver.isOver_eq_false (hnow : 0 ≤ now) (htimeout : 0 < timeout) :
    isOver now timeout = false := by
  have hpos : 0 < timeout.toInt := Int64.lt_iff_toInt_lt.mp htimeout
  unfold isOver
  cases hdeadline : Deadline.ofTimeout? now timeout with
  | none => rfl
  | some deadline =>
      have hexact := ((Deadline.ofTimeout?_eq_some_iff hnow htimeout).mp hdeadline).2
      have hlater : ¬ deadline ≤ now := by
        rw [Int64.le_iff_toInt_le]
        omega
      simpa using hlater

theorem FlushPolicy.validate_background_iff :
    (FlushPolicy.background timeout).validate = .ok () ↔ 0 < timeout := by
  rw [FlushPolicy.validate, ← Int64.not_le]
  by_cases hle : timeout ≤ 0 <;> simp [hle]

theorem Worker.create_iff {hasFunction : Bool} {source : Worker.Source} :
    (∃ worker, Worker.create timeout hasFunction source = .ok worker ∧
      worker.interval = timeout) ↔
    0 < timeout ∧ hasFunction = true ∧ source ≠ .missing := by
  rw [← Int64.not_le]
  by_cases hle : timeout ≤ 0 <;> cases hasFunction <;> cases source <;>
    simp [Worker.create, hle]

-- A line and the clock by which its receiver waits.
structure Nudge.Timed extends Line where
  clock : Int64 := 0
  -- when the wait that the receiver is in ends by itself, if it ever does
  deadline : Option Int64 := none

namespace Nudge.Timed

-- What is seen of a step. A wait is seen with the clock's readings at its begin and its end.
inductive Event where
  | passed
  | sent (accepted : Bool)
  | closed
  | began (now timeout : Int64)
  | returned (reading : Int64) (status : Status)
  deriving DecidableEq

def Event.sign? : Event → Option Sign
  | .passed => none
  | .sent accepted => some (.sent accepted)
  | .closed => some .closed
  | .began _ _ => some .began
  | .returned _ status => some (.returned status)

def isDue (timed : Timed) : Prop :=
  ∃ deadline, timed.deadline = some deadline ∧ deadline ≤ timed.clock

inductive Step : Timed → Event → Timed → Prop where
  | pass {timed : Timed} (reading : Int64) : timed.clock ≤ reading →
      Step timed .passed { timed with clock := reading }
  | send (timed : Timed) : Step timed (.sent timed.channel.trySend.1)
      { timed with channel := timed.channel.trySend.2 }
  | close (timed : Timed) : Step timed .closed { timed with channel := timed.channel.close }
  | begin {timed : Timed} {after : Channel} (timeout : Int64) : timed.inWait = false →
      timed.channel.startReceive = some after →
      Step timed (.began timed.clock timeout)
        { timed with
          channel := after
          inWait := true
          deadline := Deadline.ofTimeout? timed.clock timeout }
  | refuse {timed : Timed} : timed.inWait = false → timed.channel.startReceive = none →
      Step timed (.returned timed.clock .closed) timed
  -- Nothing ends a wait but a nudge, a close and its deadline.
  | wake {timed : Timed} : timed.inWait = true → timed.channel.isReady = true ∨ timed.isDue →
      Step timed (.returned timed.clock timed.channel.finishReceive.1)
        { timed with
          channel := timed.channel.finishReceive.2
          inWait := false }

variable {start timed after : Timed} {event : Event} {events : List Event}

-- Without its clock a timed line is a line.
theorem trace_toLine (h : Trace Step start events timed) :
    Trace Line.Step start.toLine (events.filterMap Event.sign?) timed.toLine := by
  induction h with
  | start => exact .start
  | @next events now after event _ hstep ih =>
      obtain ⟨⟨channel, inWait⟩, clock, deadline⟩ := now
      rw [List.filterMap_append]
      cases hstep with
      | pass =>
          rw [show [Event.passed].filterMap Event.sign? = [] from rfl, List.append_nil]
          exact ih
      | send => exact ih.next (.send _)
      | close => exact ih.next (.close _)
      | begin timeout hidle hstart =>
          obtain rfl : inWait = false := hidle
          exact ih.next (.begin hstart)
      | refuse hidle hstart =>
          obtain rfl : inWait = false := hidle
          exact ih.next (.refuse hstart)
      | wake hwait hends =>
          obtain rfl : inWait = true := hwait
          exact ih.next (.wake true (Bool.or_true _))

-- A wait keeps its deadline.
theorem Step.deadline_eq (hstep : Step timed event after) (hwait : timed.inWait = true)
    (hstays : ∀ reading status, event ≠ .returned reading status) :
    after.inWait = true ∧ after.deadline = timed.deadline := by
  cases hstep with
  | pass => exact ⟨hwait, rfl⟩
  | send => exact ⟨hwait, rfl⟩
  | close => exact ⟨hwait, rfl⟩
  | begin _ hidle => cases hidle.symm.trans hwait
  | refuse => exact absurd rfl (hstays _ _)
  | wake => exact absurd rfl (hstays _ _)

theorem deadline_eq (h : Trace Step start events timed) (hwait : start.inWait = true)
    (hstays : ∀ reading status, .returned reading status ∉ events) :
    timed.inWait = true ∧ timed.deadline = start.deadline := by
  induction h with
  | start => exact ⟨hwait, rfl⟩
  | next _ hstep ih =>
      obtain ⟨hnow, hdeadline⟩ := ih fun reading status hmem =>
        hstays reading status (List.mem_append_left _ hmem)
      obtain ⟨hafter, hsame⟩ := hstep.deadline_eq hnow fun reading status hevent =>
        hstays reading status (by simp [hevent])
      exact ⟨hafter, hsame.trans hdeadline⟩

-- Time runs out only where it can.
theorem Step.out_of_time {reading : Int64} (hstep : Step timed (.returned reading .timeout) after)
    (hwait : timed.inWait = true) : ∃ deadline, timed.deadline = some deadline ∧
      deadline ≤ reading := by
  generalize hevent : Event.returned reading .timeout = event at hstep
  cases hstep with
  | wake _ hends =>
      obtain ⟨rfl, hstatus⟩ := Event.returned.inj hevent
      rw [Channel.finishReceive_fst] at hstatus
      have hunready : timed.channel.isReady = false := by
        unfold Channel.isReady
        cases hclosed : timed.channel.closed <;> cases hpending : timed.channel.pending <;>
          simp [hclosed, hpending] at hstatus ⊢
      exact hends.resolve_left (by simp [hunready])
  | refuse hidle => cases hidle.symm.trans hwait
  | _ => cases hevent

-- From the begin of a wait to its end by time.
theorem deadline_le {before during later : List Event} {reading : Int64}
    (h : Trace Step start
      (before ++ .began now timeout :: during ++ .returned reading .timeout :: later) timed)
    (hstays : ∀ reading status, .returned reading status ∉ during) :
    ∃ deadline, Deadline.ofTimeout? now timeout = some deadline ∧ deadline ≤ reading := by
  obtain ⟨waiting, ended, hbefore, hend, -⟩ := h.exists_step
  obtain ⟨idle, begun, -, hbegin, hduring⟩ := hbefore.exists_step
  cases hbegin with
  | begin _ hidle hstart =>
      obtain ⟨hwait, hdeadline⟩ := deadline_eq hduring rfl hstays
      simpa [hdeadline] using hend.out_of_time hwait

end Nudge.Timed

namespace Nudge

open Deadline

-- For a wait that begins at `now`, and every timeout that a background save may have.
theorem timeouts_are_never_early (hnow : 0 ≤ now) (htimeout : 0 < timeout) :
    -- which intervals are accepted
    (∀ interval : Int64, ((FlushPolicy.background interval).validate = .ok () ↔ 0 < interval) ∧
      ∀ hasFunction source, (∃ worker, Worker.create interval hasFunction source = .ok worker ∧
        worker.interval = interval) ↔ 0 < interval ∧ hasFunction = true ∧ source ≠ .missing) ∧
    -- the words on the way hold the true numbers
    ((lastReading - now).toInt = 2 ^ 63 - 1 - now.toInt ∧
      (headroom now).toInt = (2 ^ 63 - 1 - now.toInt) / 10 ^ 6 ∧
      (ofTimeout? now timeout ≠ none →
        (timeout * nanosecondsPerMillisecond).toInt = timeout.toInt * 10 ^ 6 ∧
        (now + timeout * nanosecondsPerMillisecond).toInt =
          now.toInt + timeout.toInt * 10 ^ 6)) ∧
    -- which waits have a deadline, and which one
    (∀ deadline, ofTimeout? now timeout = some deadline ↔
      now.toInt + timeout.toInt * 10 ^ 6 ≤ 2 ^ 63 - 1 - 10 ^ 6 ∧
      deadline.toInt = now.toInt + timeout.toInt * 10 ^ 6) ∧
    (ofTimeout? now timeout = none ↔
      2 ^ 63 - 1 - 10 ^ 6 < now.toInt + timeout.toInt * 10 ^ 6) ∧
    -- no wait is over as it begins
    (∀ channel, (Receiver.start now timeout channel).1 ≠ .done .timeout) ∧
    -- and none runs out of time early, whatever happens meanwhile
    ∀ start timed before during later reading,
      Trace Timed.Step start
        (before ++ .began now timeout :: during ++ .returned reading .timeout :: later) timed →
      (∀ reading status, .returned reading status ∉ during) →
      now.toInt + timeout.toInt * 10 ^ 6 ≤ reading.toInt := by
  refine ⟨fun interval => ⟨FlushPolicy.validate_background_iff, fun _ _ => Worker.create_iff⟩,
    ⟨toInt_left hnow, toInt_headroom hnow, fun htimed => ?_⟩,
    fun deadline => ofTimeout?_eq_some_iff hnow htimeout, ofTimeout?_eq_none_iff hnow, ?_, ?_⟩
  · rw [Ne, ofTimeout?_eq_none_iff hnow] at htimed
    have hnonneg : 0 ≤ now.toInt := Int64.le_iff_toInt_le.mp hnow
    exact ⟨toInt_timeout htimeout (by omega), toInt_deadline hnow htimeout (by omega)⟩
  · intro channel
    unfold Receiver.start
    rw [Receiver.isOver_eq_false hnow htimeout]
    cases channel.startReceive <;> simp
  · intro start timed before during later reading h hstays
    obtain ⟨deadline, hdeadline, hle⟩ := Timed.deadline_le h hstays
    rw [← ((ofTimeout?_eq_some_iff hnow htimeout).mp hdeadline).2]
    exact Int64.le_iff_toInt_le.mp hle

-- A wait that nothing ends but the clock.
def Timed.quietWait : List Timed.Event :=
  [.sent false, .began 5 30, .passed, .returned 30000005 .timeout]

-- A wait of thirty milliseconds has a deadline up to a certain reading, and one nanosecond after it
-- has none; the longest wait never has one.
theorem timeouts_are_never_early_quietWait :
    (∃ timed, Trace Timed.Step { clock := 5 } Timed.quietWait timed ∧
      (5 : Int64).toInt + (30 : Int64).toInt * 10 ^ 6 ≤ (30000005 : Int64).toInt) ∧
    (∃ deadline, ofTimeout? (lastReading - 31000000) 30 = some deadline ∧
      deadline.toInt = 2 ^ 63 - 1 - 10 ^ 6) ∧
    ofTimeout? (lastReading - 30999999) 30 = none ∧
    ofTimeout? 5 Int64.maxValue = none := by
  have hquiet : Trace Timed.Step { clock := 5 } Timed.quietWait
      { clock := 30000005, deadline := some 30000005 } :=
    .next (.next (.next (.next .start (.send _)) (.begin 30 rfl rfl))
      (.pass 30000005 (by decide))) (.wake rfl (.inr ⟨_, rfl, by decide⟩))
  have hfive : (0 : Int64) ≤ 5 := by decide
  have hthirty : (0 : Int64) < 30 := by decide
  have hfirst : (0 : Int64) ≤ lastReading - 31000000 := by decide
  have hsecond : (0 : Int64) ≤ lastReading - 30999999 := by decide
  obtain ⟨-, -, -, -, -, hearly⟩ := timeouts_are_never_early hfive hthirty
  obtain ⟨-, -, hlast, -⟩ := timeouts_are_never_early hfirst hthirty
  obtain ⟨-, -, -, hbeyond, -⟩ := timeouts_are_never_early hsecond hthirty
  obtain ⟨-, -, -, hlongest, -⟩ := timeouts_are_never_early hfive
    (show 0 < Int64.maxValue by decide)
  refine ⟨⟨_, hquiet, ?_⟩, ⟨lastReading - 1000000, ?_, by decide +kernel⟩, ?_, ?_⟩
  · exact hearly _ _ [.sent false] [.passed] [] _ hquiet (by simp)
  · exact (hlast _).mpr ⟨by decide +kernel, by decide +kernel⟩
  · exact hbeyond.mpr (by decide +kernel)
  · exact hlongest.mpr (by decide +kernel)

end Nudge

end SnapshotStore
