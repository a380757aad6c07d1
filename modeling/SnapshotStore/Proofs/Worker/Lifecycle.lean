import Mathlib.Data.Bool.Count
import SnapshotStore.Proofs.Trace
import SnapshotStore.Proofs.Worker.Steps

namespace SnapshotStore.Worker

open Nudge (Channel Status)

-- How far a call of stop has come.
inductive StopCall where
  -- about to set the stop flag
  | requesting
  -- about to close the channel
  | closing
  -- about to take the lock under which the thread is joined
  | queueing
  | joining
  | returned
  deriving DecidableEq

structure Life where
  run : Run
  stops : List StopCall := []
  -- whether nobody has joined the thread yet
  joinable : Bool := true

-- One step of the worker's thread or of another one. Those who nudge and close need no names,
-- since a step of any of them may come at any time. So may a new call of stop.
inductive Life.Step : Life → Sign → Life → Prop where
  | thread {life : Life} {next : Run} (timeIsUp : Bool) : life.run.step? timeIsUp = some next →
      Step life life.run.sign { life with run := next }
  | trigger (life : Life) :
      Step life (.sent life.run.trigger.1) { life with run := life.run.trigger.2 }
  | send (life : Life) : Step life (.sent life.run.send.1) { life with run := life.run.send.2 }
  | close (life : Life) : Step life .closed { life with run := life.run.closeChannel }
  | callStop (life : Life) : Step life .unseen { life with stops := life.stops ++ [.requesting] }
  | requestStop {life : Life} {i : Nat} : life.stops[i]? = some .requesting →
      Step life .stopRequested
        { life with run := life.run.requestStop, stops := life.stops.set i .closing }
  | closeToStop {life : Life} {i : Nat} : life.stops[i]? = some .closing →
      Step life .closed
        { life with run := life.run.closeChannel, stops := life.stops.set i .queueing }
  | lock {life : Life} {i : Nat} : life.stops[i]? = some .queueing → .joining ∉ life.stops →
      Step life .unseen { life with stops := life.stops.set i .joining }
  | join {life : Life} {i : Nat} : life.stops[i]? = some .joining →
      (life.joinable = true → life.run.worker.isRunning = false) →
      Step life .stopReturned { life with stops := life.stops.set i .returned, joinable := false }

def Sign.outcome? : Sign → Option Bool
  | .flushEnded succeeded => some succeeded
  | _ => none

-- How the runs that have ended did end.
def outcomes (signs : List Sign) : List Bool :=
  signs.filterMap Sign.outcome?

-- How the last wait ended, unless it has led to a run already.
def lastReceived (signs : List Sign) : Option Status :=
  signs.foldl (fun before sign =>
    match sign with
    | .received status => some status
    | .flushBegan => none
    | _ => before) none

variable {signs : List Sign} {sign : Sign} {worker : Worker} {channel : Channel}

theorem outcomes_append_none (h : sign.outcome? = none) :
    outcomes (signs ++ [sign]) = outcomes signs := by
  simp [outcomes, h]

theorem outcomes_append_ended (succeeded : Bool) :
    outcomes (signs ++ [.flushEnded succeeded]) = outcomes signs ++ [succeeded] := by
  simp [outcomes, Sign.outcome?]

theorem lastReceived_append_received (status : Status) :
    lastReceived (signs ++ [.received status]) = some status := by
  simp [lastReceived]

theorem lastReceived_append_unseen :
    lastReceived (signs ++ [.unseen]) = lastReceived signs := by
  simp [lastReceived]

-- How many runs are in progress.
def running (worker : Worker) : Nat :=
  if worker.phase = .flushing then 1 else 0

structure Fits (signs : List Sign) (worker : Worker) : Prop where
  began : signs.count .flushBegan = (outcomes signs).length + worker.running
  flushes : worker.flushes = .ofNat ((outcomes signs).count true)
  failures : worker.failures = .ofNat ((outcomes signs).count false)
  lastFailed : worker.lastFailed = true ↔ (outcomes signs).getLast? = some false
  woken : ∀ status, worker.phase = .woken status → lastReceived signs = some status
  resolved : worker.phase = .resolved →
    ∃ status, status ≠ .closed ∧ lastReceived signs = some status

-- As long as no run ends, it is enough to look at the phase.
theorem Fits.turn {phase : Phase} (h : Fits signs worker) (hnone : sign.outcome? = none)
    (hbegan : worker.running + [sign].count .flushBegan = { worker with phase }.running)
    (hwoken : ∀ status, phase = .woken status → lastReceived (signs ++ [sign]) = some status)
    (hresolved : phase = .resolved →
      ∃ status, status ≠ .closed ∧ lastReceived (signs ++ [sign]) = some status) :
    Fits (signs ++ [sign]) { worker with phase } := by
  refine ⟨?_, ?_, ?_, ?_, hwoken, hresolved⟩
  · rw [List.count_append, h.began, outcomes_append_none hnone, Nat.add_assoc, hbegan]
  · rw [outcomes_append_none hnone]
    exact h.flushes
  · rw [outcomes_append_none hnone]
    exact h.failures
  · rw [outcomes_append_none hnone]
    exact h.lastFailed

theorem Fits.moves {after : Worker} {later : Channel} (h : Fits signs worker)
    (hmoves : Moves worker channel sign after later) : Fits (signs ++ [sign]) after := by
  cases hmoves with
  | goesOn hphase _ => exact h.turn rfl (by simp [running, hphase]) (by simp) (by simp)
  | leaves hphase _ => exact h.turn rfl (by simp [running, hphase]) (by simp) (by simp)
  | waits hphase _ => exact h.turn rfl (by simp [running, hphase]) (by simp) (by simp)
  | refused hphase _ =>
      refine h.turn rfl (by simp [running, hphase]) ?_ (by simp)
      rintro status ⟨⟩
      exact lastReceived_append_received _
  | wakes hphase =>
      refine h.turn rfl (by simp [running, hphase]) ?_ (by simp)
      rintro status ⟨⟩
      exact lastReceived_append_received _
  | @resolves status hphase hopen _ =>
      refine h.turn rfl (by simp [running, hphase]) (by simp) fun _ => ⟨status, hopen, ?_⟩
      exact lastReceived_append_unseen.trans (h.woken status hphase)
  | quits hphase _ => exact h.turn rfl (by simp [running, hphase]) (by simp) (by simp)
  | flushes hphase => exact h.turn rfl (by simp [running, hphase]) (by simp) (by simp)

theorem Fits.finish (h : Fits signs worker) (hphase : worker.phase = .flushing)
    (outcome : Except Failure Unit) :
    Fits (signs ++ [.flushEnded outcome.isOk]) (worker.finish outcome) := by
  have hready : (worker.finish outcome).phase = .ready := finish_phase outcome
  refine ⟨?_, ?_, ?_, ?_, by simp [hready], by simp [hready]⟩
  · simp [h.began, outcomes_append_ended, running, hphase, hready]
  · rw [outcomes_append_ended]
    cases outcome <;> simp [Worker.finish, h.flushes, Except.isOk, Except.toBool]
  · rw [outcomes_append_ended]
    cases outcome <;> simp [Worker.finish, h.failures, Except.isOk, Except.toBool]
  · rw [outcomes_append_ended]
    cases outcome <;> simp [Worker.finish, Except.isOk, Except.toBool]

theorem Fits.counted (h : Fits signs worker) :
    (worker.flushes + worker.failures).toNat = (outcomes signs).length % 2 ^ 64 := by
  rw [h.flushes, h.failures, ← UInt64.ofNat_add, List.count_true_add_count_false]
  exact UInt64.toNat_ofNat'

theorem fits_start (h : worker.phase = .ready) (hflushes : worker.flushes = 0)
    (hfailures : worker.failures = 0) (hfailed : worker.lastFailed = false) : Fits [] worker where
  began := by simp [running, h, outcomes]
  flushes := by simp [hflushes, outcomes]
  failures := by simp [hfailures, outcomes]
  lastFailed := by simp [hfailed, outcomes]
  woken := by simp [h]
  resolved := by simp [h]

-- Some of the worker's own steps are not seen either.
def Sign.isOthers : Sign → Bool
  | .sent _ => true
  | .closed => true
  | .stopRequested => true
  | .stopReturned => true
  | .unseen => true
  | _ => false

-- A step of another thread, as far as it concerns the worker.
structure Life.Aside (life : Life) (sign : Sign) (after : Life) : Prop where
  isOthers : sign.isOthers = true
  worker : after.run.worker =
    if sign = .stopRequested then life.run.worker.requestStop else life.run.worker
  closed : after.run.channel.closed = true ↔ life.run.channel.closed = true ∨ sign = .closed
  -- Who returns from a stop has joined the thread or come after somebody who has.
  returns : sign = .stopReturned → after.joinable = false
  joins : after.joinable = false → life.joinable = false ∨ life.run.worker.phase = .exited

namespace Life

variable {life after : Life}

theorem trySend_closed (channel : Channel) : channel.trySend.2.closed = channel.closed := by
  rw [Channel.trySend_snd]

theorem trigger_closed (worker : Worker) (channel : Channel) :
    (worker.trigger channel).2.closed = channel.closed := by
  unfold Worker.trigger
  split
  · exact trySend_closed channel
  · rfl

theorem Step.cases (h : Step life sign after) :
    (∃ next, life.run.Moves sign next ∧ after = { life with run := next }) ∨
      Aside life sign after := by
  cases h with
  | thread timeIsUp hstep => exact .inl ⟨_, Run.moves_of_step? hstep, rfl⟩
  | trigger =>
      have hclosed := trigger_closed life.run.worker life.run.channel
      exact .inr ⟨rfl, by simp [Run.trigger], by simp [Run.trigger, hclosed], by simp, .inl⟩
  | send =>
      have hclosed := trySend_closed life.run.channel
      exact .inr ⟨rfl, by simp [Run.send], by simp [Run.send, hclosed], by simp, .inl⟩
  | close =>
      exact .inr ⟨rfl, by simp [Run.closeChannel], by simp [Run.closeChannel, Channel.close],
        by simp, .inl⟩
  | callStop => exact .inr ⟨rfl, by simp, by simp, by simp, .inl⟩
  | requestStop _ =>
      exact .inr ⟨rfl, by simp [Run.requestStop], by simp [Run.requestStop], by simp, .inl⟩
  | closeToStop _ =>
      exact .inr ⟨rfl, by simp [Run.closeChannel], by simp [Run.closeChannel, Channel.close],
        by simp, .inl⟩
  | lock _ _ => exact .inr ⟨rfl, by simp, by simp, by simp, .inl⟩
  | join _ hgone =>
      refine .inr ⟨rfl, by simp, by simp, fun _ => rfl, fun _ => ?_⟩
      cases hjoinable : life.joinable with
      | false => exact .inl rfl
      | true => exact .inr (by simpa [isRunning] using hgone hjoinable)

theorem Aside.phase (h : Aside life sign after) :
    after.run.worker.phase = life.run.worker.phase := by
  rw [h.worker]
  split <;> rfl

theorem Aside.stopRequested (h : Aside life sign after) :
    after.run.worker.stopRequested = true ↔
      life.run.worker.stopRequested = true ∨ sign = .stopRequested := by
  rw [h.worker]
  split <;> simp_all [Worker.requestStop]

theorem Aside.fits (h : Aside life sign after) (hfits : Fits signs life.run.worker) :
    Fits (signs ++ [sign]) after.run.worker := by
  have hothers := h.isOthers
  have hnone : sign.outcome? = none := by cases sign <;> first | rfl | cases hothers
  have hbegan : [sign].count .flushBegan = 0 := by cases sign <;> first | rfl | cases hothers
  have hreceived : lastReceived (signs ++ [sign]) = lastReceived signs := by
    cases sign <;> first | simp [lastReceived]; done | cases hothers
  have hsame : Fits (signs ++ [sign])
      { life.run.worker with phase := life.run.worker.phase } :=
    hfits.turn hnone (by rw [hbegan]; rfl) (by rw [hreceived]; exact hfits.woken)
      (by rw [hreceived]; exact hfits.resolved)
  rw [h.worker]
  split
  · exact ⟨hsame.began, hsame.flushes, hsame.failures, hsame.lastFailed, hsame.woken,
      hsame.resolved⟩
  · exact hsame

-- The worker's own thread sets no flag.
theorem moves_frame {run next : Run} (h : run.Moves sign next) :
    next.worker.stopRequested = run.worker.stopRequested ∧
      next.channel.closed = run.channel.closed ∧
      sign ≠ .stopRequested ∧ sign ≠ .closed ∧ sign ≠ .stopReturned := by
  cases h with
  | thread calls hmoves =>
      obtain ⟨hstop, hclosed⟩ := hmoves.keeps_flags
      refine ⟨hstop, hclosed, ?_⟩
      cases hmoves <;> simp
  | finish _ => simp [finish_stopRequested]

-- How the end of the thread comes about.
structure Fits (closedBefore : Bool) (signs : List Sign) (life : Life) : Prop where
  worker : Worker.Fits signs life.run.worker
  stopRequested : life.run.worker.stopRequested = true ↔ .stopRequested ∈ signs
  closed : life.run.channel.closed = true ↔ closedBefore = true ∨ .closed ∈ signs
  wokenClosed : life.run.worker.phase = .woken .closed → life.run.channel.closed = true
  left : life.run.worker.phase = .exited →
    life.run.worker.stopRequested = true ∨ life.run.channel.closed = true
  joined : life.joinable = false → life.run.worker.phase = .exited

variable {closedBefore : Bool}

theorem Fits.moves {next : Run} (h : Fits closedBefore signs life)
    (hmoves : life.run.Moves sign next) :
    Fits closedBefore (signs ++ [sign]) { life with run := next } := by
  obtain ⟨hstop, hclosed, hnoStop, hnoClose, -⟩ := moves_frame hmoves
  refine ⟨?_, ?_, ?_, ?_, ?_, ?_⟩
  · cases hmoves with
    | thread calls hmoves => exact h.worker.moves hmoves
    | finish hflushing => exact h.worker.finish hflushing _
  · simp [hstop, h.stopRequested, hnoStop.symm]
  · simp [hclosed, h.closed, hnoClose.symm]
  · intro hwoken
    rw [hclosed]
    cases hmoves with
    | thread calls hmoves =>
        cases hmoves with
        | refused _ hrefused => exact hrefused
        | wakes _ =>
            have hstatus : life.run.channel.finishReceive.1 = .closed := by simpa using hwoken
            rw [Channel.finishReceive_fst] at hstatus
            grind
        | _ => cases hwoken
    | finish _ => simp [finish_phase] at hwoken
  · intro hexited
    rw [hclosed, hstop]
    cases hmoves with
    | thread calls hmoves =>
        cases hmoves with
        | leaves _ hleaves => exact .inl hleaves
        | quits hphase hquits =>
            refine hquits.symm.imp_right ?_
            rintro rfl
            exact h.wokenClosed hphase
        | _ => cases hexited
    | finish _ => simp [finish_phase] at hexited
  · exact fun hjoined => absurd (h.joined hjoined) hmoves.not_exited

theorem Fits.aside (h : Fits closedBefore signs life) (haside : Aside life sign after) :
    Fits closedBefore (signs ++ [sign]) after := by
  refine ⟨haside.fits h.worker, ?_, ?_, ?_, ?_, ?_⟩
  · simp [haside.stopRequested, h.stopRequested, eq_comm]
  · simp [haside.closed, h.closed, or_assoc, eq_comm]
  · rw [haside.phase, haside.closed]
    exact fun hwoken => .inl (h.wokenClosed hwoken)
  · rw [haside.phase, haside.stopRequested, haside.closed]
    exact fun hexited => (h.left hexited).imp .inl .inl
  · rw [haside.phase]
    exact fun hjoined => (haside.joins hjoined).elim h.joined id

theorem Fits.step (h : Fits closedBefore signs life) (hstep : Step life sign after) :
    Fits closedBefore (signs ++ [sign]) after := by
  rcases hstep.cases with ⟨next, hmoves, rfl⟩ | haside
  · exact h.moves hmoves
  · exact h.aside haside

theorem Step.once_exited (hstep : Step life sign after)
    (hexited : life.run.worker.phase = .exited) :
    after.run.worker.phase = .exited ∧ sign ≠ .flushBegan := by
  rcases hstep.cases with ⟨next, hmoves, -⟩ | haside
  · exact absurd hexited hmoves.not_exited
  · have hothers := haside.isOthers
    exact ⟨haside.phase.trans hexited, by rintro rfl; cases hothers⟩

theorem Step.resolved (hstep : Step life .flushBegan after) :
    life.run.worker.phase = .resolved := by
  rcases hstep.cases with ⟨next, hmoves, -⟩ | haside
  · generalize hsign : Sign.flushBegan = sign at hmoves
    cases hmoves with
    | thread calls hmoves =>
        cases hmoves with
        | flushes hresolved => exact hresolved
        | _ => cases hsign
    | finish _ => cases hsign
  · cases haside.isOthers

-- Who returns from a stop finds the thread gone.
theorem Step.stopped (h : Fits closedBefore signs life)
    (hstep : Step life .stopReturned after) : life.run.worker.phase = .exited := by
  rcases hstep.cases with ⟨next, hmoves, -⟩ | haside
  · exact absurd rfl (moves_frame hmoves).2.2.2.2
  · exact (haside.joins (haside.returns rfl)).elim h.joined id

-- After a request to stop only a run that the thread has already decided on can begin.
def decided (life : Life) : Nat :=
  if life.run.worker.phase = .resolved then 1 else 0

theorem Step.once_requested (hstep : Step life sign after)
    (hstop : life.run.worker.stopRequested = true) :
    after.run.worker.stopRequested = true ∧
      after.decided + [sign].count .flushBegan ≤ life.decided := by
  rcases hstep.cases with ⟨next, hmoves, rfl⟩ | haside
  · refine ⟨(moves_frame hmoves).1.trans hstop, ?_⟩
    cases hmoves with
    | thread calls hmoves => cases hmoves <;> simp_all [decided]
    | finish hflushing => simp_all [decided, finish_phase]
  · have hothers := haside.isOthers
    have hbegan : [sign].count .flushBegan = 0 := by cases sign <;> first | rfl | cases hothers
    refine ⟨haside.stopRequested.mpr (.inl hstop), ?_⟩
    rw [hbegan, decided, decided, haside.phase]
    exact le_rfl

theorem runs_once_requested {later : List Sign} {last : Life}
    (h : Trace Step life later last) (hstop : life.run.worker.stopRequested = true) :
    later.count .flushBegan ≤ 1 := by
  have hbound : last.run.worker.stopRequested = true ∧
      last.decided + later.count .flushBegan ≤ life.decided := by
    induction h with
    | start => exact ⟨hstop, le_rfl⟩
    | next _ hstep ih =>
        have hafter := hstep.once_requested ih.1
        rw [List.count_append]
        exact ⟨hafter.1, by omega⟩
  have hdecided : life.decided ≤ 1 := by
    unfold decided
    split <;> omega
  omega

-- A worker with its channel, on its first step and with nobody who stops it yet.
def start (worker : Worker) (channel : Channel) (outcome : Nat → Except Failure Unit) : Life :=
  { run := { worker := worker, channel := channel, outcome := outcome } }

theorem fits {interval : Int64} {hasFunction : Bool} {source : Source}
    {outcome : Nat → Except Failure Unit}
    (hcreate : create interval hasFunction source = .ok worker)
    (h : Trace Step (start worker channel outcome) signs life) :
    Fits channel.closed signs life := by
  obtain ⟨ownsChannel, rfl⟩ := create_ok hcreate
  refine h.invariant ?_ fun _ _ _ _ _ hfits hstep => hfits.step hstep
  exact ⟨fits_start rfl rfl rfl rfl, by simp [start], by simp [start], by simp [start],
    by simp [start], by simp [start]⟩

end Life

-- At any time after any steps of the worker's thread and of others, in any order.
theorem runs_end_with_the_stop {interval : Int64} {hasFunction : Bool} {source : Source}
    {outcome : Nat → Except Failure Unit} {life : Life}
    (hcreate : create interval hasFunction source = .ok worker)
    (h : Trace Life.Step (Life.start worker channel outcome) signs life) :
    -- No run begins before the last one has ended, nor without a wait of its own.
    (∀ before later, signs = before ++ .flushBegan :: later →
      before.count .flushBegan = (outcomes before).length ∧
      ∃ status, status ≠ .closed ∧ lastReceived before = some status) ∧
    -- what is counted
    (life.run.worker.phase = .waiting ∨ life.run.worker.phase = .exited →
      (life.run.worker.flushes + life.run.worker.failures).toNat =
        (outcomes signs).length % 2 ^ 64 ∧
      (life.run.worker.lastFailed = true ↔ (outcomes signs).getLast? = some false)) ∧
    -- why the thread is gone
    (life.run.worker.phase = .exited →
      .stopRequested ∈ signs ∨ channel.closed = true ∨ .closed ∈ signs) ∧
    -- what is left once a stop is requested
    (∀ before later, signs = before ++ .stopRequested :: later →
      later.count .flushBegan ≤ 1) ∧
    -- and once a call of stop has returned
    (∀ before later, signs = before ++ .stopReturned :: later →
      before.count .flushBegan = (outcomes before).length ∧ .flushBegan ∉ later ∧
      life.run.worker.isRunning = false) := by
  have hfits := Life.fits hcreate h
  refine ⟨?_, fun _ => ⟨hfits.worker.counted, hfits.worker.lastFailed⟩, fun hexited => ?_, ?_, ?_⟩
  · rintro before later rfl
    obtain ⟨now, next, hbefore, hstep, -⟩ := h.exists_step
    have hnow := (Life.fits hcreate hbefore).worker
    have hresolved : now.run.worker.phase = .resolved := hstep.resolved
    exact ⟨by simp [hnow.began, running, hresolved], hnow.resolved hresolved⟩
  · rw [← hfits.stopRequested, ← hfits.closed]
    exact hfits.left hexited
  · rintro before later rfl
    obtain ⟨now, next, hbefore, hstep, hlater⟩ := h.exists_step
    have hnext := (Life.fits hcreate hbefore).step hstep
    exact Life.runs_once_requested hlater (hnext.stopRequested.mpr (by simp))
  · rintro before later rfl
    obtain ⟨now, next, hbefore, hstep, hlater⟩ := h.exists_step
    have hnow := Life.fits hcreate hbefore
    have hexited : now.run.worker.phase = .exited := hstep.stopped hnow
    have hnext := (hstep.once_exited hexited).1
    have hlast := hlater.stable (fun _ _ _ hstep hnow => (hstep.once_exited hnow).1) hnext
    have hnone := hlater.forall_mem (fun _ _ _ hstep => hstep.once_exited) hnext
    exact ⟨by simp [hnow.worker.began, running, hexited], fun hmem => hnone _ hmem rfl,
      by simp [isRunning, hlast]⟩

-- The thread on its own, with what is seen of it.
def Run.alone : List Bool → Run → Option (List Sign × Run)
  | [], run => some ([], run)
  | timeIsUp :: times, run => do
    let next ← run.step? timeIsUp
    let (signs, last) ← next.alone times
    return (run.sign :: signs, last)

theorem Run.alone_trace (times : List Bool) {run last : Run} {stops : List StopCall}
    {joinable : Bool} (h : run.alone times = some (signs, last)) :
    Trace Life.Step ⟨run, stops, joinable⟩ signs ⟨last, stops, joinable⟩ := by
  induction times generalizing run signs with
  | nil =>
      obtain ⟨rfl, rfl⟩ := Prod.mk.inj (Option.some.inj h)
      exact .start
  | cons timeIsUp times ih =>
      obtain ⟨next, hstep, h⟩ := Option.bind_eq_some_iff.mp h
      obtain ⟨⟨later, _⟩, halone, h⟩ := Option.bind_eq_some_iff.mp h
      obtain ⟨rfl, rfl⟩ := Prod.mk.inj (Option.some.inj h)
      exact (Trace.start.next (.thread timeIsUp hstep)).append (ih halone)

def firstRunFails (call : Nat) : Except Failure Unit :=
  if call = 1 then .error .unknown else .ok ()

-- A nudge leads to the first run.
def nudgedOnce : List Sign :=
  [.unseen, .waitBegan, .sent true, .received .nudged, .unseen, .flushBegan, .flushEnded false]

-- When the timer has led to a second run that has not begun yet, two threads stop the worker.
def stoppedTwice : List Sign :=
  nudgedOnce ++ [.unseen, .waitBegan, .received .timeout, .unseen, .unseen, .unseen] ++
    .stopRequested :: [.flushBegan, .closed, .unseen, .stopRequested, .closed, .flushEnded true,
      .exited, .stopReturned, .unseen, .stopReturned, .sent false]

theorem runs_end_with_the_stop_stoppedTwice :
    ∃ worker life, create 1000 true .own = .ok worker ∧
      Trace Life.Step (Life.start worker {} firstRunFails) stoppedTwice life ∧
      life.run.worker.phase = .exited ∧
      (life.run.worker.flushes + life.run.worker.failures).toNat = 2 ∧
      life.run.worker.lastFailed = false ∧ life.run.worker.isRunning = false := by
  let fresh : Worker := { interval := 1000, ownsChannel := true }
  let failed : Worker :=
    { fresh with
      failures := 1
      lastFailed := true
      log := ["[AsyncFlushWorker] Unknown flush error\n"] }
  let stopped : Worker := { failed with stopRequested := true, flushes := 1, lastFailed := false }
  let life (worker : Worker) (channel : Channel) (calls : Nat) (stops : List StopCall) : Life :=
    ⟨⟨worker, channel, firstRunFails, calls⟩, stops, true⟩
  have hwaits : Trace Life.Step (Life.start fresh {} firstRunFails) [.unseen, .waitBegan]
      (life { fresh with phase := .waiting } ⟨true, false, false⟩ 0 []) :=
    Run.alone_trace [false, false] rfl
  have hfails : Trace Life.Step
      (life { fresh with phase := .waiting } ⟨true, true, false⟩ 0 [])
      [.received .nudged, .unseen, .flushBegan, .flushEnded false] (life failed {} 1 []) :=
    Run.alone_trace [false, false, false, false] rfl
  have hfirst : Trace Life.Step (Life.start fresh {} firstRunFails) nudgedOnce
      (life failed {} 1 []) :=
    (hwaits.next (.trigger _)).append hfails
  have hresolves : Trace Life.Step (life failed {} 1 [])
      [.unseen, .waitBegan, .received .timeout, .unseen]
      (life { failed with phase := .resolved } {} 1 []) :=
    Run.alone_trace [false, false, true, false] rfl
  have hrequested : Trace Life.Step (life failed {} 1 [])
      ([.unseen, .waitBegan, .received .timeout, .unseen, .unseen, .unseen] ++ [.stopRequested])
      (life { failed with phase := .resolved, stopRequested := true } {} 1
        [.closing, .requesting]) :=
    ((hresolves.next (.callStop _)).next (.callStop _)).next (.requestStop (i := 0) rfl)
  have hbegan : Trace Life.Step
      (life { failed with phase := .resolved, stopRequested := true } {} 1
        [.closing, .requesting]) [.flushBegan]
      (life { failed with phase := .flushing, stopRequested := true } {} 2
        [.closing, .requesting]) :=
    Run.alone_trace [false] rfl
  have hclosed : Trace Life.Step
      (life { failed with phase := .resolved, stopRequested := true } {} 1
        [.closing, .requesting]) [.flushBegan, .closed, .unseen, .stopRequested, .closed]
      (life { failed with phase := .flushing, stopRequested := true } ⟨false, false, true⟩ 2
        [.joining, .queueing]) :=
    (((hbegan.next (.closeToStop (i := 0) rfl)).next (.lock (i := 0) rfl (by decide))).next
      (.requestStop (i := 1) rfl)).next (.closeToStop (i := 1) rfl)
  have hexited : Trace Life.Step
      (life { failed with phase := .flushing, stopRequested := true } ⟨false, false, true⟩ 2
        [.joining, .queueing]) [.flushEnded true, .exited]
      (life { stopped with phase := .exited } ⟨false, false, true⟩ 2 [.joining, .queueing]) :=
    Run.alone_trace [false, false] rfl
  have hreturned : Trace Life.Step
      (life { stopped with phase := .exited } ⟨false, false, true⟩ 2 [.joining, .queueing])
      [.stopReturned, .unseen, .stopReturned, .sent false]
      ⟨⟨{ stopped with phase := .exited }, ⟨false, false, true⟩, firstRunFails, 2⟩,
        [.returned, .returned], false⟩ :=
    (((Trace.start.next (.join (i := 0) rfl fun _ => rfl)).next
      (.lock (i := 1) rfl (by decide))).next (.join (i := 1) rfl (by decide))).next (.send _)
  have hall : Trace Life.Step (Life.start fresh {} firstRunFails) stoppedTwice _ :=
    (hfirst.append hrequested).append ((hclosed.append hexited).append hreturned)
  have hcreate : create 1000 true .own = .ok fresh := rfl
  obtain ⟨-, hcounts, -, -, hends⟩ := runs_end_with_the_stop hcreate hall
  refine ⟨fresh, _, hcreate, hall, rfl, ?_, rfl, ?_⟩
  · exact (hcounts (.inr rfl)).1
  · exact (hends (stoppedTwice.take 21) _ rfl).2.2

end SnapshotStore.Worker
