import PingDelivery.Session.World

/-! # Running tasks

`advance` takes one task one phase further. `tick` decides whose turn it is: the session's own work
first, then the tasks that can go on in the order they were woken, and when none can, the clock
jumps to the earliest timer. -/

namespace PingDelivery.Session

/-- What became of a step of a task. -/
inductive Progress where
  | going
  | waiting
  | ended
  deriving DecidableEq

namespace World

/-- Jitter leaves delays as they are here: its bounds are a matter of the back-off itself. -/
def steady (ms : Nat) : Nat := ms

def putPhase (w : World) (id : Nat) (t : Task) (phase : Upload.Run.Phase)
    (pending : Option Pending) : World :=
  w.setTask id { t with activity := .running phase pending }

/-- Ends a task's run: a caller is done with it, a worker looks what to do next. -/
def endRun (w : World) (id : Nat) (t : Task) (r : Except Upload.RunError Upload.Summary) :
    World × Progress :=
  match t.worker with
  | none => (w.setTask id { t with activity := .done (some r) }, .ended)
  | some worker =>
    let (worker, ns, more) := worker.after steady w.now r
    let w := w.say ns
    if more then (w.setTask id { t with worker := some worker, activity := .resting }, .going)
    else
      ((w.say [.workerExited]).setTask id { t with worker := some worker, activity := .done none },
        .ended)

/-- Ends a run that holds the turn. -/
def endTurn (w : World) (id : Nat) (t : Task) (r : Except Upload.RunError Upload.Summary) :
    World × Progress :=
  (w.leaveTurn t.scheduler).endRun id t r

/-- Hands a ping to the uploader. -/
def beginCall (w : World) (s : Upload.Scheduler) (p : Ping) : World × Pending :=
  let script := w.uploader.next
  let request := Upload.Request.ofPing s.config s.plan.compress w.clock p
  ({ w with uploader := w.uploader.began, calls := ⟨w.now, request⟩ :: w.calls },
    ⟨script, w.now + script.delay, w.now + s.plan.timeout.ceilMillis, false⟩)

/-- Stops waiting for a call. -/
def endCall (w : World) (id station : Nat) : World :=
  (({ w with uploader := w.uploader.ended }).dropTimers id).changeScheduler station (·.unwatch id)

/-- Adds the fault of a call's script to the store. -/
def addFault (w : World) (s : Script) : World :=
  match s.fault with
  | some f => { w with store := { w.store with faults := w.store.faults ++ [f] } }
  | none => w

/-- The queue that the uploader itself acknowledges its ping to. -/
def ackedQueue? (w : World) (s : Script) : Option (Nat × Queue) :=
  if s.ack then w.queue.bind fun i => (w.queues[i]?).map (i, ·) else none

/-- Puts back what a run's step has changed, and goes on with its phase. -/
def putDesk (w : World) (id : Nat) (t : Task) (station : Station) (phase : Upload.Run.Phase)
    (d : Upload.Desk) : World × Progress :=
  let w := (w.setStation t.scheduler { station with scheduler := d.scheduler }).setQueue
    station.queue d.queue
  match phase with
  | .finished r => w.endTurn id t r
  | .uploading p s =>
    let (w, pending) := w.beginCall d.scheduler p
    (w.putPhase id t (.uploading p s) (some pending), .going)
  | phase => (w.putPhase id t phase none, .going)

/-- Whether a request cannot be answered at once: the queue is well, but somebody works on it or the
store lingers over the call. -/
def holdsUp (w : World) (i : Nat) (q : Queue) (r : Queue.Request) : Bool :=
  !q.faulted && ((w.lines[i]?).any (·.held) || (q.decide r).call?.any w.store.lingers)

/-- Takes a well queue or stands in line for it. -/
def approach (w : World) (id : Nat) (t : Task) (phase : Upload.Run.Phase)
    (pending : Option Pending) (i : Nat) (r : Queue.Request) : World × Progress :=
  let (handed, line) := ((w.lines[i]?).getD .free).ask id
  let w := { w with lines := w.lines.set i line }
  if handed then (w.setTask id { t with activity := .asking phase pending i (.handed r) }, .going)
  else (w.setTask id { t with activity := .asking phase pending i (.lined r) }, .waiting)

/-- The uploader's answer to a call. -/
def hear (w : World) (id : Nat) (t : Task) (p : Ping) (s : Upload.Summary) (c : Pending) :
    World × Progress :=
  ((w.endCall id t.scheduler).putPhase id t (.settling p c.script.outcome s) none, .going)

/-- What the uploader does when its delay is over, before it answers. -/
def answerCall (w : World) (id : Nat) (t : Task) (p : Ping) (s : Upload.Summary) (c : Pending) :
    World × Progress :=
  let w := w.addFault c.script
  match w.ackedQueue? c.script with
  | none => w.hear id t p s c
  | some (i, q) =>
    if w.holdsUp i q (.ackSuccess p.id) then
      w.approach id t (.uploading p s) (some c) i (.ackSuccess p.id)
    else
      let ((_, q), w) := w.follow (q.perform (.ackSuccess p.id))
      (w.setQueue i q).hear id t p s c

/-- Waits for a call: the answer's timer first, then the one that gives it up. -/
def awaitCall (w : World) (id : Nat) (t : Task) (p : Ping) (s : Upload.Summary) (c : Pending) :
    World :=
  if c.awaited then w
  else
    ((((w.changeScheduler t.scheduler (·.watch id)).addTimer c.answerAt id).addTimer
      c.expiresAt id)).putPhase id t (.uploading p s) (some { c with awaited := true })

/-- A call under way: cancelling counts before the answer, the answer before the time limit. -/
def stepCall (w : World) (id : Nat) (t : Task) (station : Station) (p : Ping) (s : Upload.Summary)
    (c : Pending) : World × Progress :=
  if station.scheduler.cancelled then
    ((w.endCall id t.scheduler).say [.abandoned p.id]).endTurn id t
      (.ok { s with stopReason := .cancelled })
  else if c.answerAt ≤ w.now then w.answerCall id t p s c
  else if c.expiresAt ≤ w.now then
    let w := (w.endCall id t.scheduler).changeScheduler t.scheduler (·.mark .timeout)
    (w.putPhase id t (.settling p (Upload.Run.timedOut station.scheduler.plan) s) none, .going)
  else (w.awaitCall id t p s c, .waiting)

def stepRun (w : World) (id : Nat) (t : Task) (station : Station) (q : Queue)
    (phase : Upload.Run.Phase) (pending : Option Pending) : World × Progress :=
  let desk : Upload.Desk := ⟨station.scheduler, q⟩
  match phase with
  | .arriving =>
    if station.scheduler.suspended then w.endRun id t (.error .suspended)
    else
      let (taken, turn) := station.scheduler.turn.ask id
      let w := w.changeScheduler t.scheduler ({ · with turn })
      if taken then (w.putPhase id t .admitted none, .going)
      else (w.putPhase id t .waiting none, .waiting)
  | .waiting => (w, .waiting)
  | .admitted => w.putDesk id t station (Upload.Run.takeTurn desk) desk
  | .looking s =>
    if !station.scheduler.cancelled && w.holdsUp station.queue q (.peek 1) then
      w.approach id t (.looking s) none station.queue (.peek 1)
    else
      let ((phase, desk), w) := w.follow (Upload.Run.look desk s)
      w.putDesk id t station phase desk
  | .uploading p s =>
    match pending with
    | some c => w.stepCall id t station p s c
    | none => (w, .waiting)
  | .settling p o s =>
    if w.holdsUp station.queue q (Upload.Run.ack p o) then
      w.approach id t (.settling p o s) none station.queue (Upload.Run.ack p o)
    else
      let ((phase, desk), w) := w.follow (Upload.Run.settle desk p o s)
      w.putDesk id t station phase desk
  | .finished r => w.endTurn id t r

/-- A run goes on with a queue's answer. -/
def resume (w : World) (id : Nat) (t : Task) (station : Station) (phase : Upload.Run.Phase)
    (pending : Option Pending) (q : Queue) (a : Except QueueError Queue.Reply) :
    World × Progress :=
  let desk : Upload.Desk := ⟨station.scheduler, q⟩
  match phase, pending with
  | .looking s, _ =>
    let ((phase, desk), w) := w.follow (Upload.Run.looked desk s a)
    w.putDesk id t station phase desk
  | .settling p o s, _ =>
    let ((phase, desk), w) := w.follow (Upload.Run.settled desk p o s a)
    w.putDesk id t station phase desk
  | .uploading p s, some c => w.hear id t p s c
  | phase, pending => (w.putPhase id t phase pending, .going)

/-- The queue is changed, and left to the next. -/
def conclude (w : World) (id : Nat) (t : Task) (station : Station) (phase : Upload.Run.Phase)
    (pending : Option Pending) (i : Nat) (a : Except QueueError Queue.Reply) (q : Queue) :
    World × Progress :=
  ((w.setQueue i q).leaveQueue i).resume id t station phase pending q a

/-- A request goes on. That the queue was well is not asked again when it is handed over. -/
def stepErrand (w : World) (id : Nat) (t : Task) (station : Station) (phase : Upload.Run.Phase)
    (pending : Option Pending) (i : Nat) (q : Queue) : Errand → World × Progress
  | .lined _ => (w, .waiting)
  | .handed r =>
    let lingers := (q.decide r).call?.any w.store.lingers
    let ((a, q), store, ns) := (q.settle (q.decide r)).run Store.Faulty.backend w.store
    let w := { w with store }
    if lingers then
      ({ w with calling := w.calling ++ [id] }.setTask id
        { t with activity := .asking phase pending i (.calling a q ns) }, .waiting)
    else (w.say ns).conclude id t station phase pending i a q
  | .calling a q ns =>
    if w.calling.contains id then (w, .waiting)
    else (w.say ns).conclude id t station phase pending i a q

/-- Forgets that a worker waits; a ring it heard and does not use is given on. -/
def stopIdling (w : World) (id : Nat) (t : Task) (unused : Bool) : World :=
  let w := (w.dropTimers id).changeScheduler t.scheduler fun s =>
    { s.unwatch id with bell := s.bell.forget id }
  if unused then w.ring t.scheduler else w

def exitWorker (w : World) (id : Nat) (t : Task) : World × Progress :=
  ((w.say [.workerExited]).setTask id { t with activity := .done none }, .ended)

def startRun (w : World) (id : Nat) (t : Task) : World × Progress :=
  (w.putPhase id t .arriving none, .going)

/-- A worker about to wait looks first whether it has to. -/
def stepResting (w : World) (id : Nat) (t : Task) (worker : Upload.Worker) (station : Station) :
    World × Progress :=
  let s := station.scheduler
  let wakeAt := worker.wakeAt s.plan w.now
  if s.cancelled then w.exitWorker id t
  else if wakeAt ≤ w.now then w.startRun id t
  else
    let (rung, bell) := if worker.listens then s.bell.listen id else (false, s.bell)
    let w := w.changeScheduler t.scheduler ({ · with bell })
    if rung then w.startRun id t
    else
      (((w.changeScheduler t.scheduler (·.watch id)).addTimer wakeAt id).setTask id
        { t with activity := .idle wakeAt false }, .waiting)

/-- A worker that was woken: cancelling counts first, then the timer, then the bell. -/
def stepIdle (w : World) (id : Nat) (t : Task) (station : Station) (wakeAt : Nat) (rung : Bool) :
    World × Progress :=
  if station.scheduler.cancelled then (w.stopIdling id t rung).exitWorker id t
  else if wakeAt ≤ w.now then (w.stopIdling id t rung).startRun id t
  else if rung then (w.stopIdling id t false).startRun id t
  else (w, .waiting)

/-- One phase of one task. -/
def advance (w : World) (id : Nat) : World × Progress :=
  match w.tasks[id]? with
  | none => (w, .ended)
  | some t =>
    match w.stations[t.scheduler]? with
    | none => (w, .ended)
    | some station =>
      match t.activity, t.worker, w.queues[station.queue]? with
      | .running phase pending, _, some q => w.stepRun id t station q phase pending
      | .asking phase pending i errand, _, _ =>
        match w.queues[i]? with
        | some q => w.stepErrand id t station phase pending i q errand
        | none => (w, .ended)
      | .resting, some worker, _ => w.stepResting id t worker station
      | .idle wakeAt rung, _, _ => w.stepIdle id t station wakeAt rung
      | _, _, _ => (w, .ended)

/-! ## Whose turn it is -/

/-- What the session itself waits for. -/
inductive Wait where
  | moment (time : Nat)
  | tasks (ids : List Nat)

def Wait.isOver (w : World) : Wait → Bool
  | .moment time => time ≤ w.now
  | .tasks ids => ids.all fun i => (w.tasks[i]?).all Task.isDone

/-- Takes a task as far as it can go, at most `fuel` phases. -/
def poll (w : World) (id : Nat) : Nat → World
  | 0 => w
  | fuel + 1 =>
    match w.advance id with
    | (w, .going) => w.poll id fuel
    | (w, _) => w

/-- Takes the tasks that can go on in their order until none can. A store that lingers over a call is
done with it when all others wait. -/
def settle (w : World) : Nat → World
  | 0 => w
  | fuel + 1 =>
    match w.ready, w.calling with
    | [], [] => w
    | [], id :: r => ({ w with calling := r }.wake id).settle fuel
    | id :: r, _ => ({ w with ready := r }.poll id fuel).settle fuel

/-- When the next timer runs out, or what the session waits for comes. -/
def nextMoment? (w : World) : Wait → Option Nat
  | .moment time => (time :: w.timers.map (·.moment)).min?
  | .tasks _ => (w.timers.map (·.moment)).min?

/-- Jumps to a moment and wakes those whose time it is. -/
def jump (w : World) (time : Nat) : World :=
  let (due, later) := w.timers.partition (·.moment ≤ time)
  due.foldl (fun w t => w.wake t.task) { w with now := Nat.max w.now time, timers := later }

/-- Goes on until what the session waits for has come: its own task, when woken, before the
others. Stops where nothing can happen any more. -/
def drive (w : World) (wait : Wait) : Nat → World
  | 0 => w
  | fuel + 1 =>
    let w := match w.root, w.rootWoken with
      | some id, true => { w with rootWoken := false }.poll id fuel
      | _, _ => w
    if wait.isOver w then w
    else
      let w := w.settle fuel
      if wait.isOver w || w.rootWoken then w.drive wait fuel
      else
        match w.nextMoment? wait with
        | some time => (w.jump time).drive wait fuel
        | none => w

/-- More phases than a session of any sensible length has. -/
def patience : Nat := 1000000000

end World
end PingDelivery.Session
