import PingDelivery.Snapshot

/-! # The measurement buffer

For each ping the buffer keeps an open window: the metrics and events recorded since the window
began. Draining a window takes everything out at once and opens the next window where the drained
one ends; restoring puts a snapshot back ahead of what was recorded since. -/

namespace PingDelivery

structure Window where
  metrics : Dict Metric
  events : List Event
  startTime : Time.Instant
  deriving DecidableEq

namespace Window

def opened (now : Time.Instant) : Window := ⟨.empty, [], now⟩

def isEmpty (w : Window) : Bool := w.metrics.isEmpty && w.events.isEmpty

def drain (w : Window) (now : Time.Instant) : Snapshot × Window :=
  (⟨w.metrics, w.events, w.startTime, now⟩, opened now)

/-- The sum, held within 64 bits. -/
def saturatingAdd (a b : Int64) : Int64 :=
  let s := a.toInt + b.toInt
  if s < -0x8000000000000000 then Int64.minValue
  else if 0x7FFFFFFFFFFFFFFF < s then Int64.maxValue
  else Int64.ofInt s

def set (w : Window) (id : String) (m : Metric) : Window :=
  { w with metrics := w.metrics.insert id m }

/-- A metric of another type under the same name gives way to the counter. -/
def add (w : Window) (id : String) (amount : Int64) : Window :=
  match w.metrics.get? id with
  | some (.counter n) => w.set id (.counter (saturatingAdd n amount))
  | _ => w.set id (.counter amount)

def push (w : Window) (e : Event) : Window := { w with events := w.events ++ [e] }

/-- One metric put back: counters add up, of other metrics the one that is there stays. -/
def putBack (now : Dict Metric) (id : String) (older : Metric) : Dict Metric :=
  match now.get? id, older with
  | none, m => now.insert id m
  | some (.counter n), .counter o => now.insert id (.counter (saturatingAdd n o))
  | some _, _ => now

def restore (w : Window) (s : Snapshot) : Window where
  metrics := s.metrics.foldl putBack w.metrics
  events := s.events ++ w.events
  startTime := w.startTime.min s.startTime

end Window

/-- The windows by the ping that they belong to. -/
structure Buffer where
  windows : Dict Window
  deriving DecidableEq

namespace Buffer

def empty : Buffer := ⟨.empty⟩

/-- The ping's window; one that does not exist yet opens now. The clock is read here, and once more
when the window is drained in the same step; `now` stands for both readings. -/
def window (b : Buffer) (ping : String) (now : Time.Instant) : Window :=
  (b.windows.get? ping).getD (.opened now)

def put (b : Buffer) (ping : String) (w : Window) : Buffer := ⟨b.windows.insert ping w⟩

def setMetric (b : Buffer) (now : Time.Instant) (ping id : String) (m : Metric) : Buffer :=
  b.put ping ((b.window ping now).set id m)

def addToCounter (b : Buffer) (now : Time.Instant) (ping id : String) (amount : Int64) : Buffer :=
  b.put ping ((b.window ping now).add id amount)

/-- Records an event. The event that brings the window up to the limit drains it. A window that this
very event has opened ends as it begins: one reading of the clock does for both. -/
def recordEvent (b : Buffer) (now : Time.Instant) (ping : String) (e : Event) (limit : Nat) :
    Buffer × Option Snapshot :=
  let w := (b.window ping now).push e
  if limit ≤ w.events.length then
    let (s, w) := w.drain now
    (b.put ping w, some s)
  else (b.put ping w, none)

/-- Takes what is buffered for the ping; where nothing is, the window stays open. -/
def take (b : Buffer) (now : Time.Instant) (ping : String) : Buffer × Option Snapshot :=
  match b.windows.get? ping with
  | some w =>
    if w.isEmpty then (b, none)
    else
      let (s, w) := w.drain now
      (b.put ping w, some s)
  | none => (b, none)

def restore (b : Buffer) (now : Time.Instant) (ping : String) (s : Snapshot) : Buffer :=
  b.put ping ((b.window ping now).restore s)

def eventCount (b : Buffer) (ping : String) : Nat :=
  (b.windows.get? ping).elim 0 (·.events.length)

def isEmpty (b : Buffer) (ping : String) : Bool := (b.windows.get? ping).all Window.isEmpty

def metric? (b : Buffer) (ping id : String) : Option Metric :=
  (b.windows.get? ping).bind (·.metrics.get? id)

end Buffer
end PingDelivery
