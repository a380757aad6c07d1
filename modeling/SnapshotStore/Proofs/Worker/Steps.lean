import SnapshotStore.Worker.Run

namespace SnapshotStore.Worker

open Nudge (Channel Status)

-- What is seen of a step, of the worker's thread or of another one.
inductive Sign where
  | waitBegan
  | received (status : Status)
  | flushBegan
  | flushEnded (succeeded : Bool)
  | exited
  | sent (accepted : Bool)
  | closed
  | stopRequested
  | stopReturned
  | unseen
  deriving DecidableEq

variable {worker after : Worker} {channel later : Channel}

-- What will be seen of the thread's next step outside of a flush.
def sign (worker : Worker) (channel : Channel) : Sign :=
  match worker.phase with
  | .ready => if worker.stopRequested then .exited else .unseen
  | .entering => if channel.closed then .received .closed else .waitBegan
  | .waiting => .received channel.finishReceive.1
  | .woken status => if status = .closed || worker.stopRequested then .exited else .unseen
  | .resolved => .flushBegan
  | .flushing => .unseen
  | .exited => .unseen

-- The moves of the thread outside of a flush. Only the phase and the channel change.
inductive Moves (worker : Worker) (channel : Channel) : Sign → Worker → Channel → Prop where
  | goesOn : worker.phase = .ready → worker.stopRequested = false →
      Moves worker channel .unseen { worker with phase := .entering } channel
  | leaves : worker.phase = .ready → worker.stopRequested = true →
      Moves worker channel .exited { worker with phase := .exited } channel
  | waits : worker.phase = .entering → channel.closed = false →
      Moves worker channel .waitBegan { worker with phase := .waiting }
        { channel with receiverWaiting := true }
  | refused : worker.phase = .entering → channel.closed = true →
      Moves worker channel (.received .closed) { worker with phase := .woken .closed } channel
  | wakes : worker.phase = .waiting →
      Moves worker channel (.received channel.finishReceive.1)
        { worker with phase := .woken channel.finishReceive.1 } channel.finishReceive.2
  | resolves {status : Status} : worker.phase = .woken status → status ≠ .closed →
      worker.stopRequested = false →
      Moves worker channel .unseen { worker with phase := .resolved } channel
  | quits {status : Status} : worker.phase = .woken status →
      status = .closed ∨ worker.stopRequested = true →
      Moves worker channel .exited { worker with phase := .exited } channel
  | flushes : worker.phase = .resolved →
      Moves worker channel .flushBegan { worker with phase := .flushing } channel

theorem moves_look (h : worker.phase = .ready) :
    Moves worker channel (worker.sign channel) worker.look channel := by
  simp only [sign, h, look]
  split
  · next hstop => exact .leaves h hstop
  · next hstop => exact .goesOn h (by simpa using hstop)

theorem moves_enter (h : worker.phase = .entering) :
    Moves worker channel (worker.sign channel) (worker.enter channel).1
      (worker.enter channel).2 := by
  simp only [sign, h, enter, Channel.startReceive]
  cases hclosed : channel.closed with
  | true => exact .refused h hclosed
  | false =>
      have hmove := Moves.waits h hclosed
      simpa [hclosed] using hmove

theorem moves_decide {status : Status} (h : worker.phase = .woken status) :
    Moves worker channel (worker.sign channel) (worker.decide status) channel := by
  simp only [sign, h, decide]
  split
  · next hleaves => exact .quits h (by simpa using hleaves)
  · next hstays =>
      have hstays : status ≠ .closed ∧ worker.stopRequested = false := by simpa using hstays
      exact .resolves h hstays.1 hstays.2

theorem moves_of_step? {timeIsUp : Bool}
    (h : worker.step? channel timeIsUp = some (after, later)) :
    Moves worker channel (worker.sign channel) after later := by
  unfold step? at h
  cases hphase : worker.phase with
  | ready =>
      simp only [hphase, Option.some.injEq, Prod.mk.injEq] at h
      obtain ⟨rfl, rfl⟩ := h
      exact moves_look hphase
  | entering =>
      simp only [hphase, Option.some.injEq] at h
      have hmove : Moves worker channel _ _ _ := moves_enter hphase
      rwa [h] at hmove
  | waiting =>
      simp only [hphase, Option.ite_none_right_eq_some, Option.some.injEq] at h
      obtain ⟨rfl, rfl⟩ : _ = after ∧ _ = later := Prod.mk.inj h.2
      simp only [sign, hphase]
      exact .wakes hphase
  | woken status =>
      simp only [hphase, Option.some.injEq, Prod.mk.injEq] at h
      obtain ⟨rfl, rfl⟩ := h
      exact moves_decide hphase
  | resolved =>
      simp only [hphase, Option.some.injEq, Prod.mk.injEq] at h
      obtain ⟨rfl, rfl⟩ := h
      simp only [sign, hphase]
      exact .flushes hphase
  | flushing => simp [hphase] at h
  | exited => simp [hphase] at h

-- The thread neither requests a stop nor closes the channel.
theorem Moves.keeps_flags {sign : Sign} (h : Moves worker channel sign after later) :
    after.stopRequested = worker.stopRequested ∧ later.closed = channel.closed := by
  cases h <;> simp [Channel.finishReceive_snd]

theorem create_ok {interval : Int64} {hasFunction : Bool} {source : Source}
    (h : create interval hasFunction source = .ok worker) :
    ∃ ownsChannel, worker = { interval, ownsChannel } := by
  unfold create at h
  split at h
  · cases h
  · split at h
    · cases h
    · cases source <;> cases h <;> exact ⟨_, rfl⟩

theorem finish_phase (outcome : Except Failure Unit) : (worker.finish outcome).phase = .ready := by
  cases outcome <;> rfl

theorem finish_stopRequested (outcome : Except Failure Unit) :
    (worker.finish outcome).stopRequested = worker.stopRequested := by
  cases outcome <;> rfl

namespace Run

variable {run next : Run}

-- What will be seen of the thread's next step, be it in a flush or not.
def sign (run : Run) : Sign :=
  if run.isFlushing then .flushEnded (run.outcome run.calls).isOk
  else run.worker.sign run.channel

inductive Moves (run : Run) : Sign → Run → Prop where
  | thread {sign : Sign} {worker : Worker} {channel : Channel} (calls : Nat) :
      Worker.Moves run.worker run.channel sign worker channel →
      Moves run sign { run with worker := worker, channel := channel, calls := calls }
  | finish : run.worker.phase = .flushing →
      Moves run (.flushEnded (run.outcome run.calls).isOk)
        { run with worker := run.worker.finish (run.outcome run.calls) }

theorem moves_of_step? {timeIsUp : Bool} (h : run.step? timeIsUp = some next) :
    Moves run run.sign next := by
  unfold step? at h
  unfold sign
  split at h
  · next hflushing =>
      obtain rfl := Option.some.inj h
      rw [if_pos hflushing]
      exact .finish (by simpa [isFlushing] using hflushing)
  · next hflushing =>
      rw [if_neg hflushing]
      split at h
      · next worker channel hstep =>
          obtain rfl := Option.some.inj h
          exact .thread _ (Worker.moves_of_step? hstep)
      · cases h

-- A thread that is gone makes no more moves.
theorem Moves.not_exited {sign : Sign} (h : run.Moves sign next) :
    run.worker.phase ≠ .exited := by
  cases h with
  | thread calls hmoves => cases hmoves <;> simp_all
  | finish hflushing => simp [hflushing]

end Run

end SnapshotStore.Worker
