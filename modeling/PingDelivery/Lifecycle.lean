import PingDelivery.Assembly
import PingDelivery.Buffer
import PingDelivery.ClientId
import PingDelivery.Queue.Opening
import PingDelivery.Settings.Basic
import PingDelivery.Upload.Summary

/-! # The lifecycle handle

What an application holds: it buffers measurements, turns them into pings and queues those. Taking
measurements out of the buffer, assembling and queueing them, and putting them back if queueing
failed are separate steps, between which other callers may act. -/

namespace PingDelivery

inductive LifecycleError where
  | storage (e : Store.Error)
  | queue (e : QueueError)
  | assembly (e : AssemblyError)
  | run (e : Upload.RunError)
  deriving DecidableEq

def LifecycleError.text : LifecycleError → String
  | storage e => "Storage error: " ++ e.text
  | queue e => "Queue error: " ++ e.text
  | assembly e => "Assembly error: " ++ e.text
  | run e => "Scheduler error: " ++ e.text

structure Lifecycle where
  config : Configuration
  buffer : Buffer
  maxPingSize : Nat
  types : Dict PingType
  clientId : Uuid
  droppedOversized : Nat
  deriving DecidableEq

namespace Lifecycle

/-- The ping that events are sent in unless another is named. -/
def eventsPing : String := "events"

/-- The reason of pings forced out by the number of their events. -/
def capacityReason : String := "max_capacity"

/-- A handle with an empty buffer and the events ping registered. -/
def create (config : Configuration) (settings : LifecycleSettings) (clientId : Uuid) : Lifecycle :=
  ⟨config, .empty, settings.maxPingSize, Dict.empty.insert eventsPing ⟨eventsPing, true⟩, clientId, 0⟩

/-- What opening gives: the handle and its queue, and whether an id was drawn. -/
abbrev Opening := Store.Program (Ended LifecycleError (Lifecycle × Queue) × Bool)

/-- Opens a handle over a store: the client id first, then the queue. -/
def openOver (config : Configuration) (settings : LifecycleSettings) (fresh : Uuid) : Opening :=
  (ClientId.loadOrCreate fresh).bind fun
    | (.error e, drew) => .done (.error (.storage e), drew)
    | (.ok id, drew) => (Queue.rehydrate settings.queueConfig).bind fun
      | .error e => .done (.error (.queue e), drew)
      | .panic => .done (.panic, drew)
      | .ok q => .tell (.opened config.applicationId q.report.restored)
          (.done (.ok (create config settings id, q), drew))

/-- The last registration of a name counts. -/
def register (l : Lifecycle) (t : PingType) : Lifecycle :=
  { l with types := l.types.insert t.name t }

/-- Names that are not registered carry no client id. -/
def typeOf (l : Lifecycle) (name : String) : PingType := (l.types.get? name).getD ⟨name, false⟩

def setMetric (l : Lifecycle) (now : Time.Instant) (ping id : String) (m : Metric) : Lifecycle :=
  { l with buffer := l.buffer.setMetric now ping id m }

def addToCounter (l : Lifecycle) (now : Time.Instant) (ping id : String) (n : Int64) : Lifecycle :=
  { l with buffer := l.buffer.addToCounter now ping id n }

/-! ## Submitting -/

/-- A snapshot taken out of the buffer, on its way into the queue. -/
structure Submission where
  documentType : String
  reason : Option String
  snapshot : Snapshot
  deriving DecidableEq

/-- Records an event; the one that fills the window takes the snapshot out. -/
def recordEvent (l : Lifecycle) (now : Time.Instant) (ping : String) (e : Event) :
    Lifecycle × Option Submission :=
  let (buffer, s) := l.buffer.recordEvent now ping e l.config.maxEvents
  ({ l with buffer }, s.map fun s => ⟨ping, some capacityReason, s⟩)

/-- Takes out whatever is buffered. -/
def drain (l : Lifecycle) (now : Time.Instant) (ping : String) (reason : Option String) :
    Lifecycle × Option Submission :=
  let (buffer, s) := l.buffer.take now ping
  ({ l with buffer }, s.map fun s => ⟨ping, reason, s⟩)

def request (l : Lifecycle) (s : Submission) : Assembly.Request where
  documentType := s.documentType
  reason := s.reason
  clientId := if (l.typeOf s.documentType).includeClientId then some l.clientId else none

/-- Puts a submission back that could not be queued. -/
def takeBack (l : Lifecycle) (now : Time.Instant) (s : Submission) : Lifecycle :=
  { l with buffer := l.buffer.restore now s.documentType s.snapshot }

/-- What became of a submission: the id of the queued ping, nothing for one that was too large, or
an error. -/
abbrev Submitted := Except LifecycleError (Option Uuid) × Lifecycle × Queue

/-- Queues an assembled ping or takes the submission back. -/
def enqueue (l : Lifecycle) (q : Queue) (now : Time.Instant) (s : Submission) (p : Ping) :
    Store.Program Submitted :=
  (q.perform (.enqueue p)).bind fun
    | (.ok _, q) => .done (.ok (some p.id), l, q)
    | (.error e, q) =>
      .tell (.notQueued s.documentType e) (.done (.error (.queue e), l.takeBack now s, q))

/-- Assembles a submission: a ping to be queued, or how the submission ends without one. Says also
whether an id was drawn. -/
def assemble (l : Lifecycle) (now : Time.Instant) (fresh : Uuid) (s : Submission) :
    Store.Program ((Ping ⊕ Except LifecycleError (Option Uuid)) × Lifecycle) × Bool :=
  match Assembly.assemble (l.request s) l.config s.snapshot l.maxPingSize fresh now with
  | (.ok p, drew) => (.tell (Assembly.notice p) (.done (.inl p, l)), drew)
  | (.error (.payloadTooLarge _ size limit), drew) =>
    (.tell (.oversized s.documentType size limit)
      (.done (.inr (.ok none), { l with droppedOversized := l.droppedOversized + 1 })), drew)
  | (.error e, drew) => (.done (.inr (.error (.assembly e)), l), drew)

/-- Assembles and queues a submission; says also whether an id was drawn. -/
def submit (l : Lifecycle) (q : Queue) (now : Time.Instant) (fresh : Uuid) (s : Submission) :
    Store.Program Submitted × Bool :=
  let (made, drew) := l.assemble now fresh s
  (made.bind fun
    | (.inl p, l) => l.enqueue q now s p
    | (.inr r, l) => .done (r, l, q), drew)

end Lifecycle
end PingDelivery
