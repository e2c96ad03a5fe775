import PingDelivery.Lifecycle
import PingDelivery.Proofs.Queue.Numbering
import PingDelivery.Upload.Run

/-! # A client and its store

The world is the content of a store and at most one process over it. In the process any number of
submissions and upload runs are under way at once; an `Action` is one step of one of them, or a call
on the handle or the queue. Between any two actions, and at any point within one, the process may
end and another may open the store, with any configuration. Runs do not wait for their turn here:
what holds however many go side by side holds of those that do.
-/

namespace PingDelivery
open Store Upload

/-- Where a submission stands that has been taken out of the buffer. -/
inductive Stage where
  | drained
  /-- About to be queued. -/
  | assembled (p : Ping)
  /-- Refused by the queue and not put back yet. -/
  | refused (e : QueueError)

structure Held where
  submission : Lifecycle.Submission
  stage : Stage

/-- A process: its handle, its queue and scheduler, and what is under way. -/
structure Client where
  lifecycle : Lifecycle
  desk : Desk
  held : List Held
  runs : List Run.Phase

namespace Client

def queue (c : Client) : Queue := c.desk.queue

def setQueue (c : Client) (q : Queue) : Client := { c with desk := { c.desk with queue := q } }

def created (config : Configuration) (settings : LifecycleSettings) (clientId : Uuid) (q : Queue) :
    Client :=
  ⟨.create config settings clientId, ⟨.create config settings.plan, q⟩, [], []⟩

/-- One step. Submissions and runs are named by their places; where no such thing is under way the
step does nothing. `passed` says that a caller checked the queue's health at an earlier time. An
answer comes from the uploader, or from a run that has waited for one too long. -/
inductive Action where
  | setMetric (now : Time.Instant) (ping id : String) (m : Metric)
  | addToCounter (now : Time.Instant) (ping id : String) (n : Int64)
  | register (t : PingType)
  | recordEvent (now : Time.Instant) (ping : String) (e : Event)
  | drain (now : Time.Instant) (ping : String) (reason : Option String)
  | assemble (i : Nat) (now : Time.Instant) (fresh : Uuid)
  | enqueue (i : Nat) (passed : Bool)
  | takeBack (i : Nat) (now : Time.Instant)
  | request (passed : Bool) (r : Queue.Request)
  | startRun
  | look (i : Nat) (passed : Bool)
  | answer (i : Nat) (o : Outcome)
  | settle (i : Nat) (passed : Bool)
  | abandon (i : Nat)
  | cancel

/-- What the step asks of the queue. -/
def asks (c : Client) : Action → Option (Bool × Queue.Request)
  | .request passed r => some (passed, r)
  | .enqueue i passed =>
    match c.held[i]? with
    | some ⟨_, .assembled p⟩ => some (passed, .enqueue p)
    | _ => none
  | .look i passed =>
    match c.runs[i]? with
    | some (.looking _) => if c.desk.scheduler.cancelled then none else some (passed, .peek 1)
    | _ => none
  | .settle i passed =>
    match c.runs[i]? with
    | some (.settling p o _) => some (passed, Run.ack p o)
    | _ => none
  | _ => none

def setRun (c : Client) (i : Nat) (phase : Run.Phase) : Client :=
  { c with runs := c.runs.set i phase }

/-- Follows a run's step. -/
def follow (c : Client) (i : Nat) (s : Run.Step) : Program Client :=
  s.bind fun (phase, desk) => .done { c with desk, runs := c.runs.set i phase }

def hold (c : Client) (l : Lifecycle) (s : Option Lifecycle.Submission) : Client :=
  { c with lifecycle := l, held := c.held ++ (s.map (⟨·, .drained⟩)).toList }

/-- The submission is not under way any more. -/
def release (c : Client) (i : Nat) (l : Lifecycle) : Client :=
  { c with lifecycle := l, held := c.held.eraseIdx i }

/-- What the client makes of the queue's reply. -/
def resume (c : Client) (a : Except QueueError Queue.Reply) : Action → Program Client
  | .enqueue i _ =>
    match c.held[i]?, a with
    | some _, .ok _ => .done (c.release i c.lifecycle)
    | some ⟨s, _⟩, .error e =>
      .tell (.notQueued s.documentType e) (.done { c with held := c.held.set i ⟨s, .refused e⟩ })
    | none, _ => .done c
  | .look i _ =>
    match c.runs[i]? with
    | some (.looking s) => c.follow i (Run.looked c.desk s a)
    | _ => .done c
  | .settle i _ =>
    match c.runs[i]? with
    | some (.settling p o s) => c.follow i (Run.settled c.desk p o s a)
    | _ => .done c
  | _ => .done c

/-- A step that asks nothing of the queue. -/
def act (c : Client) : Action → Program Client
  | .setMetric now ping id m =>
    .done { c with lifecycle := c.lifecycle.setMetric now ping id m }
  | .addToCounter now ping id n =>
    .done { c with lifecycle := c.lifecycle.addToCounter now ping id n }
  | .register t => .done { c with lifecycle := c.lifecycle.register t }
  | .recordEvent now ping e =>
    let (l, s) := c.lifecycle.recordEvent now ping e
    .done (c.hold l s)
  | .drain now ping reason =>
    let (l, s) := c.lifecycle.drain now ping reason
    .done (c.hold l s)
  | .assemble i now fresh =>
    match c.held[i]? with
    | some ⟨s, .drained⟩ => (c.lifecycle.assemble now fresh s).1.bind fun
      | (.inl p, l) =>
        .done { c with lifecycle := l, held := c.held.set i ⟨s, .assembled p⟩ }
      | (.inr _, l) => .done (c.release i l)
    | _ => .done c
  | .takeBack i now =>
    match c.held[i]? with
    | some ⟨s, .refused _⟩ => .done (c.release i (c.lifecycle.takeBack now s))
    | _ => .done c
  | .startRun => .done { c with runs := c.runs ++ [Run.takeTurn c.desk] }
  | .look i _ =>
    match c.runs[i]? with
    | some (.looking s) =>
      .done (if c.desk.scheduler.cancelled then c.setRun i (Run.stopped s) else c)
    | _ => .done c
  | .answer i o =>
    match c.runs[i]? with
    | some (.uploading p s) => .done (c.setRun i (.settling p o s))
    | _ => .done c
  | .abandon i =>
    match c.runs[i]? with
    | some (.uploading _ s) => .done (c.setRun i (Run.abandon s))
    | _ => .done c
  | .cancel =>
    .done { c with desk := { c.desk with scheduler := { c.desk.scheduler with cancelled := true } } }
  | .request _ _ | .enqueue _ _ | .settle _ _ => .done c

abbrev Reply := Option (Except QueueError Queue.Reply)

/-- A whole step, and what the queue replied if it was asked. -/
def perform (c : Client) (a : Action) : Program (Reply × Client) :=
  match c.asks a with
  | some (passed, r) => (c.queue.attend passed r).bind fun (reply, q) =>
    ((c.setQueue q).resume reply a).bind fun c => .done (some reply, c)
  | none => (c.act a).bind fun c => .done (none, c)

end Client

/-! ## The world -/

/-- How a store is opened: with a handle, or the queue alone. -/
structure Opening where
  config : Configuration
  settings : LifecycleSettings
  fresh : Uuid
  handle : Bool

/-- Where it fails or panics there is no process afterwards. -/
def Opening.program (o : Opening) : Program (Option Client) :=
  if o.handle then (Lifecycle.openOver o.config o.settings o.fresh).bind fun
    | (.ok (l, q), _) => .done (some ⟨l, ⟨.create o.config o.settings.plan, q⟩, [], []⟩)
    | (.error _, _) | (.panic, _) => .done none
  else (Queue.rehydrate o.settings.queueConfig).bind fun
    | .ok q => .done (some (.created o.config o.settings o.fresh q))
    | .error _ | .panic => .done none

inductive Deed where
  | act (a : Client.Action)
  | opening (o : Opening)
  | ending

structure World where
  content : Content
  client : Option Client

def World.program (client : Option Client) : Deed → Program (Client.Reply × Option Client)
  | .act a =>
    match client with
    | some c => (c.perform a).bind fun (reply, c) => .done (reply, some c)
    | none => .done (none, none)
  | .opening o =>
    match client with
    | some c => .done (none, some c)
    | none => o.program.bind fun c => .done (none, c)
  | .ending => .done (none, none)

/-- A deed in a world: what could be seen, what came of it unless the process died, and the content
it left. -/
structure Moment where
  before : World
  deed : Deed
  trace : List Observed
  result : Option (Client.Reply × Option Client)
  content : Content

namespace Moment

def after (t : Moment) : World := ⟨t.content, t.result.bind (·.2)⟩

def request (t : Moment) : Option Queue.Request :=
  match t.before.client, t.deed with
  | some c, .act a => (c.asks a).map (·.2)
  | _, _ => none

def reply (t : Moment) : Client.Reply := t.result.bind (·.1)

/-- The ping that the queue took at this moment: the enqueue returned `Ok`, or the process died under
it when the record was already written. -/
def accepted? (t : Moment) : Option Ping :=
  match t.request with
  | some (.enqueue p) =>
    if t.reply = some (.ok .accepted) ∨
        t.result.isNone ∧ t.content (Record.key p.id) ≠ t.before.content (Record.key p.id) then
      some p
    else none
  | _ => none

/-- The ping whose enqueue returned `Ok` at this moment. -/
def returned? (t : Moment) : Option Ping :=
  match t.request with
  | some (.enqueue p) => if t.reply = some (.ok .accepted) then some p else none
  | _ => none

/-- The moment can happen. Every ping that is handed to the queue stands in memory. -/
structure Happens (t : Moment) : Prop where
  follows : Follows (World.program t.before.client t.deed) t.before.content t.trace t.result t.content
  fits : ∀ r ∈ t.request, r.Fits

end Moment

/-- `History w₀ h w`: the moments `h`, the latest first, led from `w₀` to `w`. -/
inductive History (w₀ : World) : List Moment → World → Prop where
  | start : History w₀ [] w₀
  | next {h : List Moment} {t : Moment} (hh : History w₀ h t.before) (ht : t.Happens) :
      History w₀ (t :: h) t.after

end PingDelivery
