namespace SnapshotStore.Nudge.Deadline

def nanosecondsPerMillisecond : Int64 := 1000000

-- The clock counts nanoseconds in a signed word, so that a wait may reach beyond its last reading.
def lastReading : Int64 := Int64.maxValue

-- The whole milliseconds that are left on the clock.
def headroom (now : Int64) : Int64 :=
  (lastReading - now) / nanosecondsPerMillisecond

-- The reading at which a wait that starts now runs out of time, if it ever does.
def ofTimeout? (now timeout : Int64) : Option Int64 :=
  if headroom now ≤ timeout then none
  else some (now + timeout * nanosecondsPerMillisecond)

end SnapshotStore.Nudge.Deadline
