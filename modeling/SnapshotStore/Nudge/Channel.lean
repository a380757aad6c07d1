namespace SnapshotStore.Nudge

-- A nudge is accepted only while the receiver waits and no other one is pending.
structure Channel where
  receiverWaiting : Bool := false
  pending : Bool := false
  closed : Bool := false
  deriving DecidableEq, Inhabited

-- How a wait ends.
inductive Status where
  | nudged
  | timeout
  | closed
  deriving DecidableEq

def Status.name : Status → String
  | .nudged => "nudged"
  | .timeout => "timeout"
  | .closed => "closed"

namespace Channel

def trySend (channel : Channel) : Bool × Channel :=
  if channel.closed || !channel.receiverWaiting || channel.pending then (false, channel)
  else (true, { channel with pending := true })

-- There is no wait on a closed channel.
def startReceive (channel : Channel) : Option Channel :=
  if channel.closed then none else some { channel with receiverWaiting := true }

-- A wait that ends with neither a nudge nor a close has run out of time. A nudge that was
-- pending when the channel was closed is never delivered.
def finishReceive (channel : Channel) : Status × Channel :=
  let awake := { channel with receiverWaiting := false }
  if awake.closed then (.closed, awake)
  else if awake.pending then (.nudged, { awake with pending := false })
  else (.timeout, awake)

def close (channel : Channel) : Channel :=
  { channel with closed := true }

-- A waiting receiver wakes up without its timer.
def isReady (channel : Channel) : Bool :=
  channel.pending || channel.closed

variable (channel : Channel)

theorem trySend_fst :
    channel.trySend.1 = (!channel.closed && channel.receiverWaiting && !channel.pending) := by
  obtain ⟨waiting, pending, closed⟩ := channel
  cases waiting <;> cases pending <;> cases closed <;> rfl

theorem trySend_snd :
    channel.trySend.2 = { channel with pending := channel.pending || channel.trySend.1 } := by
  obtain ⟨waiting, pending, closed⟩ := channel
  cases waiting <;> cases pending <;> cases closed <;> rfl

theorem startReceive_eq_some_iff {channel after : Channel} : channel.startReceive = some after ↔
    channel.closed = false ∧ after = { channel with receiverWaiting := true } := by
  unfold startReceive
  cases channel.closed <;> simp [eq_comm]

theorem startReceive_eq_none_iff {channel : Channel} :
    channel.startReceive = none ↔ channel.closed = true := by
  unfold startReceive
  cases channel.closed <;> simp

theorem finishReceive_fst : channel.finishReceive.1 =
    if channel.closed then .closed else if channel.pending then .nudged else .timeout := by
  obtain ⟨waiting, pending, closed⟩ := channel
  cases pending <;> cases closed <;> rfl

-- Only a close leaves a nudge behind.
theorem finishReceive_snd : channel.finishReceive.2 =
    { receiverWaiting := false
      pending := channel.pending && channel.closed
      closed := channel.closed } := by
  obtain ⟨waiting, pending, closed⟩ := channel
  cases pending <;> cases closed <;> rfl

end Channel

end SnapshotStore.Nudge
