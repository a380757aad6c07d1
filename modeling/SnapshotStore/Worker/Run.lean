import SnapshotStore.Worker.Basic

namespace SnapshotStore

open Nudge (Channel)

structure Worker.Run where
  worker : Worker
  channel : Channel
  -- by the number of the call, which starts at one
  outcome : Nat → Except Failure Unit
  -- the calls that have begun
  calls : Nat := 0

namespace Worker.Run

def isFlushing (run : Run) : Bool :=
  run.worker.phase = .flushing

-- The next step of the worker's thread, of which the end of a flush is one.
def step? (run : Run) (timeIsUp : Bool) : Option Run :=
  if run.isFlushing then
    some { run with worker := run.worker.finish (run.outcome run.calls) }
  else
    match run.worker.step? run.channel timeIsUp with
    | some (worker, channel) =>
      let calls := if worker.phase = .flushing then run.calls + 1 else run.calls
      some { run with worker := worker, channel := channel, calls := calls }
    | none => none

def trigger (run : Run) : Bool × Run :=
  let (accepted, channel) := run.worker.trigger run.channel
  (accepted, { run with channel := channel })

def send (run : Run) : Bool × Run :=
  let (accepted, channel) := run.channel.trySend
  (accepted, { run with channel := channel })

def closeChannel (run : Run) : Run :=
  { run with channel := run.channel.close }

def requestStop (run : Run) : Run :=
  { run with worker := run.worker.requestStop }

-- Both halves of a stop. The caller then waits until the worker's thread is gone.
def stop (run : Run) : Run :=
  run.requestStop.closeChannel

end Worker.Run

end SnapshotStore
