import PingDelivery.Lifecycle
import PingDelivery.Store.Faulty
import PingDelivery.Upload.Run
import PingDelivery.Upload.Worker

/-! # A world to run a client in

One store, the queues and schedulers that were opened over it, the tasks that work on them, an
uploader that follows a script, and two clocks: a wall clock that is set by hand and a clock of
timers that moves only when every task waits. One task at a time works on a queue. While a store
lingers over its call the task keeps the queue, and the others go on. -/

namespace PingDelivery.Session

/-- What the uploader does with one call: how long it takes, which fault it adds to the store,
whether it acknowledges its ping itself, and what it answers. -/
structure Script where
  delay : Nat
  fault : Option Store.Fault
  ack : Bool
  outcome : Upload.Outcome
  deriving DecidableEq

def Script.standard : Script := ⟨0, none, false, .success⟩

/-- A call of the uploader as it was begun. -/
structure Call where
  moment : Nat
  request : Upload.Request
  deriving DecidableEq

structure Uploader where
  script : List Script
  calls : Nat
  inFlight : Nat
  maxInFlight : Nat
  deriving DecidableEq

namespace Uploader

def ofScript (script : List Script) : Uploader := ⟨script, 0, 0, 0⟩

/-- The next call's script; calls beyond the script succeed at once. -/
def next (u : Uploader) : Script := u.script[u.calls]?.getD .standard

def began (u : Uploader) : Uploader :=
  { u with calls := u.calls + 1, inFlight := u.inFlight + 1,
           maxInFlight := Nat.max u.maxInFlight (u.inFlight + 1) }

def ended (u : Uploader) : Uploader := { u with inFlight := u.inFlight - 1 }

end Uploader

/-- A call under way: its script, when it is answered and when it is given up, and whether the run
waits for it already. -/
structure Pending where
  script : Script
  answerAt : Nat
  expiresAt : Nat
  awaited : Bool
  deriving DecidableEq

/-- A request to a queue that was found well when it was made. -/
inductive Errand where
  /-- Somebody else works on the queue. -/
  | lined (r : Queue.Request)
  /-- The queue has been handed over. -/
  | handed (r : Queue.Request)
  /-- The store is on the call, which will have come to this. -/
  | calling (answer : Except QueueError Queue.Reply) (queue : Queue) (notices : List Notice)

inductive Activity where
  /-- A worker about to wait. -/
  | resting
  /-- A worker that waits; `rung` once the bell has woken it. -/
  | idle (wakeAt : Nat) (rung : Bool)
  | running (phase : Upload.Run.Phase) (pending : Option Pending)
  /-- A run that waits for a queue in the midst of a phase. -/
  | asking (phase : Upload.Run.Phase) (pending : Option Pending) (queue : Nat) (errand : Errand)
  | done (result : Option (Except Upload.RunError Upload.Summary))

/-- A caller of one run, or a worker. -/
structure Task where
  scheduler : Nat
  worker : Option Upload.Worker
  activity : Activity

namespace Task

def caller (scheduler : Nat) : Task := ⟨scheduler, none, .running .arriving none⟩

def isDone (t : Task) : Bool :=
  match t.activity with
  | .done _ => true
  | _ => false

def result? (t : Task) : Option (Except Upload.RunError Upload.Summary) :=
  match t.activity with
  | .done r => r
  | _ => none

end Task

structure Timer where
  moment : Nat
  task : Nat
  deriving DecidableEq

/-- A scheduler and the queue it drains. -/
structure Station where
  scheduler : Upload.Scheduler
  queue : Nat
  deriving DecidableEq

/-- An open handle with its scheduler and the worker it started. -/
structure Handle where
  lifecycle : Lifecycle
  station : Nat
  worker : Option Nat
  deriving DecidableEq

structure World where
  now : Nat
  clock : Time.Instant
  drawn : Nat
  store : Store.Faulty
  config : Configuration
  queues : List Queue
  /-- For each queue, whether a task works on it, and the tasks that wait for it. -/
  lines : List Upload.Turn
  stations : List Station
  tasks : List Task
  ready : List Nat
  /-- Tasks whose call the store is on, the longest first. -/
  calling : List Nat
  timers : List Timer
  uploader : Uploader
  queue : Option Nat
  station : Option Nat
  handle : Option Handle
  worker : Option Nat
  spawned : List Nat
  /-- The task whose caller is the session itself, and whether it has been woken. -/
  root : Option Nat
  rootWoken : Bool
  /-- What was reported and which calls were begun since the last look, the latest first. -/
  notices : List Notice
  calls : List Call

namespace World

def say (w : World) (ns : List Notice) : World := { w with notices := ns.reverse ++ w.notices }

/-- The id that would be drawn next. -/
def fresh (w : World) : Uuid := .drawn (w.drawn + 1)

def draw (w : World) (drew : Bool) : World := if drew then { w with drawn := w.drawn + 1 } else w

/-- Follows a program on the store. -/
def follow {α : Type} (w : World) (p : Store.Program α) : α × World :=
  let (a, store, ns) := p.run Store.Faulty.backend w.store
  (a, { w with store }.say ns)

def setQueue (w : World) (i : Nat) (q : Queue) : World := { w with queues := w.queues.set i q }

def setStation (w : World) (i : Nat) (s : Station) : World :=
  { w with stations := w.stations.set i s }

def setTask (w : World) (i : Nat) (t : Task) : World := { w with tasks := w.tasks.set i t }

def addQueue (w : World) (q : Queue) : World × Nat :=
  ({ w with queues := w.queues ++ [q], lines := w.lines ++ [.free] }, w.queues.length)

def addStation (w : World) (s : Station) : World × Nat :=
  ({ w with stations := w.stations ++ [s] }, w.stations.length)

/-- Puts a task at the end of those that can go on, once. -/
def wake (w : World) (task : Nat) : World :=
  if w.root = some task then { w with rootWoken := true }
  else if w.ready.contains task then w
  else { w with ready := w.ready ++ [task] }

def addTask (w : World) (t : Task) : World × Nat :=
  ({ w with tasks := w.tasks ++ [t] }, w.tasks.length)

/-- A task of its own that can go on at once. -/
def spawn (w : World) (t : Task) : World × Nat :=
  let (w, i) := w.addTask t
  (w.wake i, i)

def changeScheduler (w : World) (i : Nat) (f : Upload.Scheduler → Upload.Scheduler) : World :=
  match w.stations[i]? with
  | some s => w.setStation i { s with scheduler := f s.scheduler }
  | none => w

def dropTimers (w : World) (task : Nat) : World :=
  { w with timers := w.timers.filter (·.task ≠ task) }

def addTimer (w : World) (moment task : Nat) : World :=
  { w with timers := w.timers ++ [⟨moment, task⟩] }

/-- Marks a waiting worker as woken by the bell. -/
def markRung (w : World) (task : Nat) : World :=
  match w.tasks[task]? with
  | some ⟨s, wk, .idle t _⟩ => w.setTask task ⟨s, wk, .idle t true⟩
  | _ => w

def ring (w : World) (i : Nat) : World :=
  match w.stations[i]? with
  | none => w
  | some s =>
    let (heard, bell) := s.scheduler.bell.ring
    let w := w.setStation i { s with scheduler := { s.scheduler with bell } }
    match heard with
    | some task => (w.markRung task).wake task
    | none => w

/-- Cancels a scheduler and wakes those who watch for it, in the order in which they began to. -/
def cancel (w : World) (i : Nat) : World :=
  match w.stations[i]? with
  | none => w
  | some s =>
    if s.scheduler.cancelled then w
    else
      let w := w.setStation i
        { s with scheduler := { s.scheduler with cancelled := true, watchers := [] } }
      s.scheduler.watchers.foldl wake w

/-- Gives the turn on to the next in line, who is then admitted. -/
def leaveTurn (w : World) (i : Nat) : World :=
  match w.stations[i]? with
  | none => w
  | some s =>
    let (next, turn) := s.scheduler.turn.leave
    let w := w.setStation i { s with scheduler := { s.scheduler with turn } }
    match next with
    | none => w
    | some task =>
      match w.tasks[task]? with
      | some t => (w.setTask task { t with activity := .running .admitted none }).wake task
      | none => w

/-- Hands a queue on to the next who waits for it. -/
def leaveQueue (w : World) (i : Nat) : World :=
  match w.lines[i]? with
  | none => w
  | some line =>
    let (next, line) := line.leave
    let w := { w with lines := w.lines.set i line }
    match next with
    | none => w
    | some task =>
      match w.tasks[task]? with
      | some ⟨s, wk, .asking phase pending j (.lined r)⟩ =>
        (w.setTask task ⟨s, wk, .asking phase pending j (.handed r)⟩).wake task
      | _ => w

end World
end PingDelivery.Session
