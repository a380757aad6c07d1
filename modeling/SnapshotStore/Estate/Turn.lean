import SnapshotStore.Estate.Basic

namespace SnapshotStore.Estate

open Nudge (Channel)

variable {K V S σ : Type}

-- Applies steps of a worker's thread to the worker and its store's channel.
def stepWorker (estate : Estate K V S σ) (position : Nat) (post : Post)
    (step : Worker → Channel → Worker × Channel) : Estate K V S σ :=
  let (worker, channel) := step post.worker (estate.channelOf post.store)
  (estate.setWorker position worker).setChannel post.store channel

def flushOutcome (estate : Estate K V S σ) (position : Nat) :
    Option (Except Failure Unit × Estate K V S σ) :=
  match estate.cells[position]? with
  | some cell => estate.perform position cell.store.flush.run
  | none => none

-- Runs the flush of a worker that is about to flush, and starts its next turn.
def runFlush (estate : Estate K V S σ) (position : Nat) : Estate K V S σ :=
  match estate.posts[position]? with
  | some post =>
    if post.worker.phase = .flushing then
      match estate.flushOutcome post.store with
      | some (outcome, estate) =>
        estate.stepWorker position post fun worker channel =>
          (worker.finish outcome).takeTurn channel
      | none => estate
    else estate
  | none => estate

-- A turn of the worker at a position, if there is a reason for one.
def turn (estate : Estate K V S σ) (position : Nat) : Estate K V S σ :=
  match estate.posts[position]? with
  | some post => (estate.stepWorker position post Worker.takeTurn).runFlush position
  | none => estate

def settle (estate : Estate K V S σ) : Estate K V S σ :=
  (List.range estate.posts.length).foldl turn estate

-- The timer of a waiting worker runs out.
def tick (estate : Estate K V S σ) (position : Nat) : Estate K V S σ :=
  match estate.posts[position]? with
  | some post =>
    let step := Worker.proceed Worker.stepsPerTurn true
    (estate.stepWorker position post step).runFlush position
  | none => estate

-- Every timer runs out once.
def tickAll (estate : Estate K V S σ) : Estate K V S σ :=
  (List.range estate.posts.length).foldl tick estate

-- Stops a worker and waits until its thread is gone.
def stopWorker (estate : Estate K V S σ) (position : Nat) : Estate K V S σ :=
  match estate.posts[position]? with
  | some post =>
    let estate := estate.setWorker position post.worker.requestStop
    let estate := estate.setChannel post.store (estate.channelOf post.store).close
    estate.turn position
  | none => estate

end SnapshotStore.Estate
