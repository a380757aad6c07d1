import SnapshotStore.Nudge.Channel
import SnapshotStore.Nudge.Deadline

namespace SnapshotStore.Nudge

inductive Receiver where
  | waiting
  | done (status : Status)
  deriving DecidableEq

namespace Receiver

-- A deadline that is not in the future ends the wait at once.
def isOver (now timeout : Int64) : Bool :=
  match Deadline.ofTimeout? now timeout with
  | some deadline => deadline ≤ now
  | none => false

def finish (channel : Channel) : Receiver × Channel :=
  let (status, channel) := channel.finishReceive
  (.done status, channel)

def start (now timeout : Int64) (channel : Channel) : Receiver × Channel :=
  match channel.startReceive with
  | some channel => if isOver now timeout then finish channel else (.waiting, channel)
  | none => (.done .closed, channel)

-- A nudge or a close ends the wait.
def wake (receiver : Receiver) (channel : Channel) : Receiver × Channel :=
  match receiver with
  | .waiting => if channel.isReady then finish channel else (receiver, channel)
  | .done _ => (receiver, channel)

-- Waits for the thread's end, if need be until its time is up.
def join (receiver : Receiver) (channel : Channel) : Status × Channel :=
  match receiver with
  | .waiting => channel.finishReceive
  | .done status => (status, channel)

end Receiver

end SnapshotStore.Nudge
