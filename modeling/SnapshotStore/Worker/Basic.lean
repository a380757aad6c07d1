import SnapshotStore.Failure
import SnapshotStore.Nudge.Channel

namespace SnapshotStore

open Nudge (Channel Status)

-- Where a worker's thread is.
inductive Worker.Phase where
  -- about to look at the stop flag
  | ready
  -- has seen no stop and is about to wait
  | entering
  | waiting
  -- out of the wait and about to look at the stop flag again
  | woken (status : Status)
  -- has seen no stop and is about to flush
  | resolved
  | flushing
  | exited
  deriving DecidableEq

-- Waits until its interval has passed or a nudge arrives, then runs its flush function, and starts
-- again. No failure of that function ends it.
structure Worker where
  interval : Int64
  -- A worker that was given a channel leaves the nudging to those who gave it.
  ownsChannel : Bool
  phase : Worker.Phase := .ready
  stopRequested : Bool := false
  flushes : UInt64 := 0
  failures : UInt64 := 0
  lastFailed : Bool := false
  -- the lines written about failures, the latest first
  log : List String := []
  deriving DecidableEq

namespace Worker

-- Where a worker's channel comes from.
inductive Source where
  | own
  | shared
  | missing
  deriving DecidableEq

def create (interval : Int64) (hasFunction : Bool) (source : Source) : Except StoreError Worker :=
  if interval ≤ 0 then .error (.config .flushInterval)
  else if !hasFunction then .error (.config .noFlushFunction)
  else
    match source with
    | .own => .ok { interval := interval, ownsChannel := true }
    | .shared => .ok { interval := interval, ownsChannel := false }
    | .missing => .error (.config .noChannel)

def isRunning (worker : Worker) : Bool :=
  worker.phase ≠ .exited

def trigger (worker : Worker) (channel : Channel) : Bool × Channel :=
  if worker.ownsChannel then channel.trySend else (false, channel)

-- The first half of a stop. The second half closes the channel, so that a waiting worker sees the
-- request at once.
def requestStop (worker : Worker) : Worker :=
  { worker with stopRequested := true }

def look (worker : Worker) : Worker :=
  if worker.stopRequested then { worker with phase := .exited }
  else { worker with phase := .entering }

def enter (worker : Worker) (channel : Channel) : Worker × Channel :=
  match channel.startReceive with
  | some channel => ({ worker with phase := .waiting }, channel)
  | none => ({ worker with phase := .woken .closed }, channel)

def wake (worker : Worker) (channel : Channel) : Worker × Channel :=
  let (status, channel) := channel.finishReceive
  ({ worker with phase := .woken status }, channel)

def decide (worker : Worker) (status : Status) : Worker :=
  if status = .closed || worker.stopRequested then { worker with phase := .exited }
  else { worker with phase := .resolved }

def begin (worker : Worker) : Worker :=
  { worker with phase := .flushing }

def failureLine (failure : Failure) : String :=
  match failure.what? with
  | some text => "[AsyncFlushWorker] Flush error: " ++ text ++ "\n"
  | none => "[AsyncFlushWorker] Unknown flush error\n"

def finish (worker : Worker) (outcome : Except Failure Unit) : Worker :=
  match outcome with
  | .ok _ =>
    { worker with
      phase := .ready
      flushes := worker.flushes + 1
      lastFailed := false }
  | .error failure =>
    { worker with
      phase := .ready
      failures := worker.failures + 1
      lastFailed := true
      log := failureLine failure :: worker.log }

-- The next step outside of a flush. There is none when the thread is gone, nor while it waits with
-- time left and nothing to wake it.
def step? (worker : Worker) (channel : Channel) (timeIsUp : Bool) : Option (Worker × Channel) :=
  match worker.phase with
  | .ready => some (worker.look, channel)
  | .entering => some (worker.enter channel)
  | .waiting => if channel.isReady || timeIsUp then some (worker.wake channel) else none
  | .woken status => some (worker.decide status, channel)
  | .resolved => some (worker.begin, channel)
  | .flushing => none
  | .exited => none

-- Steps until there is none, at most so many. Time is up for the first one only.
def proceed : Nat → Bool → Worker → Channel → Worker × Channel
  | 0, _, worker, channel => (worker, channel)
  | steps + 1, timeIsUp, worker, channel =>
    match worker.step? channel timeIsUp with
    | some (worker, channel) => proceed steps false worker channel
    | none => (worker, channel)

-- No turn has more steps than this before the thread waits, flushes or is gone.
def stepsPerTurn : Nat := 5

def takeTurn (worker : Worker) (channel : Channel) : Worker × Channel :=
  proceed stepsPerTurn false worker channel

end Worker

end SnapshotStore
