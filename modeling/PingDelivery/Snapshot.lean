import PingDelivery.Dict
import PingDelivery.Event
import PingDelivery.Metric
import PingDelivery.Time.Instant

/-! # Snapshots

What was measured for one ping in one window of time, taken out of the buffer as a unit. -/

namespace PingDelivery

structure Snapshot where
  metrics : Dict Metric
  events : List Event
  startTime : Time.Instant
  endTime : Time.Instant
  deriving DecidableEq

namespace Snapshot

def isEmpty (s : Snapshot) : Bool := s.metrics.isEmpty && s.events.isEmpty

def eventCount (s : Snapshot) : Nat := s.events.length

end Snapshot
end PingDelivery
