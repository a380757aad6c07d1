import SnapshotStore.Proofs.Worker.Steps

namespace SnapshotStore.Worker

open Nudge (Channel)

variable {worker after : Worker} {channel later : Channel}

-- What the thread does not undo.
structure Keeps (worker : Worker) (channel : Channel) (after : Worker) (later : Channel) :
    Prop where
  stopRequested : after.stopRequested = worker.stopRequested
  closed : later.closed = channel.closed
  exited : worker.phase = .exited → after = worker

theorem Moves.keeps {sign : Sign} (h : Moves worker channel sign after later) :
    Keeps worker channel after later := by
  refine ⟨h.keeps_flags.1, h.keeps_flags.2, fun hexited => ?_⟩
  cases h <;> simp_all

theorem keeps_proceed (steps : Nat) (timeIsUp : Bool) (worker : Worker) (channel : Channel) :
    Keeps worker channel (proceed steps timeIsUp worker channel).1
      (proceed steps timeIsUp worker channel).2 := by
  induction steps generalizing timeIsUp worker channel with
  | zero => exact ⟨rfl, rfl, fun _ => rfl⟩
  | succ steps ih =>
      rw [proceed]
      cases hstep : worker.step? channel timeIsUp with
      | none => exact ⟨rfl, rfl, fun _ => rfl⟩
      | some next =>
          have hfirst := (moves_of_step? hstep).keeps
          have hrest := ih false next.1 next.2
          refine ⟨hrest.stopRequested.trans hfirst.stopRequested, hrest.closed.trans hfirst.closed,
            fun hexited => ?_⟩
          obtain hsame : next.1 = worker := hfirst.exited hexited
          exact (hrest.exited (hsame ▸ hexited)).trans hsame

variable (hstop : worker.stopRequested = true) (hclosed : channel.closed = true)

theorem takeTurn_of_flushing (h : worker.phase = .flushing) :
    worker.takeTurn channel = (worker, channel) := by
  simp [takeTurn, stepsPerTurn, proceed, step?, h]

theorem takeTurn_of_resolved (h : worker.phase = .resolved) :
    (worker.takeTurn channel).1.phase = .flushing := by
  simp [takeTurn, stepsPerTurn, proceed, step?, begin, h]

include hstop hclosed

theorem takeTurn_of_stopped (hresolved : worker.phase ≠ .resolved)
    (hflushing : worker.phase ≠ .flushing) : (worker.takeTurn channel).1.phase = .exited := by
  cases hphase : worker.phase with
  | ready => simp [takeTurn, stepsPerTurn, proceed, step?, look, hphase, hstop]
  | entering =>
      simp [takeTurn, stepsPerTurn, proceed, step?, enter, Channel.startReceive, decide, hphase,
        hclosed]
  | waiting =>
      simp [takeTurn, stepsPerTurn, proceed, step?, wake, Channel.isReady, Channel.finishReceive,
        decide, hphase, hclosed]
  | woken status =>
      simp [takeTurn, stepsPerTurn, proceed, step?, decide, hphase, hstop]
  | resolved => exact (hresolved hphase).elim
  | flushing => exact (hflushing hphase).elim
  | exited => simp [takeTurn, stepsPerTurn, proceed, step?, hphase]

-- A flush that was still to be made is made, and then the thread is gone.
theorem takeTurn_finish_of_stopped (outcome : Except Failure Unit) :
    ((worker.finish outcome).takeTurn channel).1.phase = .exited := by
  refine takeTurn_of_stopped ((finish_stopRequested outcome).trans hstop) hclosed ?_ ?_
  · simp [finish_phase]
  · simp [finish_phase]

end SnapshotStore.Worker
