import PingDelivery.Session.Executor

/-! # Commands of a session

What a session can do to its world, and what it is told. Commands that need an open queue,
scheduler, handle or directory fail where there is none. -/

namespace PingDelivery.Session

inductive Command where
  | setClock (t : Time.Instant)
  | sleep (ms : Nat)
  | call (c : Store.Call)
  | loadClientId
  | setFailing (on : Bool)
  | addFault (f : Store.Fault)
  | addGhost (key : String)
  | listDirectory
  | writeFile (name : String) (content : Bytes)
  | makeDirectory (name : String)
  | openStore (name : String)
  | reopenStore
  | openQueue (settings : LifecycleSettings)
  | close
  | request (r : Queue.Request)
  | contains (id : Uuid)
  | inspectQueue
  | openScheduler (settings : LifecycleSettings) (config : Option Configuration.Draft)
  | runOnce
  | spawnRuns (n : Nat)
  | join
  | trigger
  | spawnWorker
  | workerFinished
  | cancel
  | inspectScheduler
  | inspectUploader
  | openLifecycle (settings : LifecycleSettings) (config : Option Configuration.Draft)
  | openAtStoragePath (name : String) (settings : LifecycleSettings)
      (config : Option Configuration.Draft)
  | dropLifecycle
  | register (t : PingType)
  | setMetric (ping id : String) (m : Metric)
  | addToCounter (ping id : String) (amount : Int64)
  | recordEvent (e : Event) (ping : Option String)
  | submit (ping : String) (reason : Option String)
  | flush
  | start
  | shutdown
  | inspectBuffer (ping : String)
  | inspectLifecycle

/-- What is missing for a command. -/
inductive Absent where
  | queue
  | scheduler
  | lifecycle
  | directory
  deriving DecidableEq, Repr

inductive Failure where
  | store (e : Store.Error)
  | queue (e : QueueError)
  | run (e : Upload.RunError)
  | lifecycle (e : LifecycleError)
  | config (e : ConfigError)
  | absent (what : Absent)
  | panicked

structure SchedulerView where
  stats : Upload.Stats
  suspended : Bool
  cancelled : Bool
  pending : Nat

structure LifecycleView where
  clientId : Uuid
  pending : Nat
  stats : Upload.Stats
  droppedOversized : Nat

inductive Answer where
  | nothing
  | value (b : Option Bytes)
  | names (l : List String)
  | id (id : Option Uuid)
  | flag (b : Option Bool)
  | size (count : Nat) (isEmpty : Bool)
  | queueOpened (report : Queue.Report) (config : Queue.Config)
  | pings (l : List Ping)
  | retry (d : Queue.Disposition)
  | queueState (isEmpty : Bool) (report : Queue.Report)
  | summary (s : Upload.Summary)
  | results (l : List (Except Upload.RunError Upload.Summary))
  | scheduler (v : SchedulerView)
  | uploader (u : Uploader)
  | lifecycleOpened (clientId : Uuid) (report : Queue.Report) (config : Configuration)
  | stored (clientId : Uuid) (report : Queue.Report) (submitted : Option Uuid) (pending : Nat)
  | lifecycle (v : LifecycleView)

abbrev Outcome := Except Failure Answer × World

namespace World

def done (w : World) : Outcome := (.ok .nothing, w)

def lacks (w : World) (a : Absent) : Outcome := (.error (.absent a), w)

def withQueue (w : World) (f : Nat → Queue → Outcome) : Outcome :=
  match w.queue with
  | none => w.lacks .queue
  | some i =>
    match w.queues[i]? with
    | none => w.lacks .queue
    | some q => f i q

def withStation (w : World) (f : Nat → Station → Outcome) : Outcome :=
  match w.station with
  | none => w.lacks .scheduler
  | some i =>
    match w.stations[i]? with
    | none => w.lacks .scheduler
    | some s => f i s

def withHandle (w : World) (f : Handle → Station → Queue → Outcome) : Outcome :=
  match w.handle with
  | none => w.lacks .lifecycle
  | some h =>
    match w.stations[h.station]? with
    | none => w.lacks .lifecycle
    | some s =>
      match w.queues[s.queue]? with
      | none => w.lacks .lifecycle
      | some q => f h s q

/-! ## The store and its directory -/

def call (w : World) : Store.Call → Outcome
  | .put k b =>
    match w.follow (.perform (.put k b)) with
    | (.ok _, w) => w.done
    | (.error e, w) => (.error (.store e), w)
  | .get k =>
    match w.follow (.perform (.get k)) with
    | (.ok v, w) => (.ok (.value v), w)
    | (.error e, w) => (.error (.store e), w)
  | .delete k =>
    match w.follow (.perform (.delete k)) with
    | (.ok _, w) => w.done
    | (.error e, w) => (.error (.store e), w)
  | .list =>
    match w.follow (.perform .list) with
    | (.ok l, w) => (.ok (.names l), w)
    | (.error e, w) => (.error (.store e), w)

def loadClientId (w : World) : Outcome :=
  match w.follow (ClientId.loadOrCreate w.fresh) with
  | ((.ok id, drew), w) => (.ok (.id (some id)), w.draw drew)
  | ((.error e, drew), w) => (.error (.store e), w.draw drew)

def setMedium (w : World) (m : Store.Medium) : World := { w with store := { w.store with medium := m } }

def setFailing (w : World) (on : Bool) : Outcome :=
  match w.store.medium with
  | .memory m =>
    (.ok (.size m.records.size m.records.isEmpty), w.setMedium (.memory { m with failing := on }))
  | _ => w.lacks .directory

def withDirectory (w : World) (f : Store.Directory → Outcome) : Outcome :=
  match w.store.medium with
  | .directory d => f d
  | _ => w.lacks .directory

def setFiles (w : World) (d : Store.Directory) (files : Store.FileSystem) : World :=
  w.setMedium (.directory { d with files })

def openStore (w : World) (name : String) : Outcome :=
  w.withDirectory fun d =>
    let (r, files, ns) := Store.Directory.openAt d.files (d.root ++ Store.Path.ofText name)
    let w := (w.setFiles d files).say ns
    match r with
    | .ok _ => (.ok (.flag (some true)), w)
    | .error e => (.error (.store e), w)

def makeDirectory (w : World) (name : String) : Outcome :=
  w.withDirectory fun d =>
    match d.files.makeDirectories (d.root ++ Store.Path.ofText name) with
    | .ok files => (w.setFiles d files).done
    | .error e => (.error (.store (Store.Directory.osFailure e)), w)

def writeFile (w : World) (name : String) (content : Bytes) : Outcome :=
  w.withDirectory fun d =>
    (w.setFiles d (d.files.put (d.root ++ Store.Path.ofText name) (.file content))).done

/-! ## Opening and closing -/

/-- A handle that is let go cancels its scheduler. -/
def dropHandle (w : World) : World :=
  match w.handle with
  | none => w
  | some h => { w.cancel h.station with handle := none }

def close (w : World) : World := { w.dropHandle with queue := none, station := none }

def reopenStore (w : World) : Outcome :=
  let w := w.close
  match w.store.medium with
  | .directory d =>
    let (r, files, ns) := Store.Directory.openAt d.files d.root
    let w := (w.setFiles d files).say ns
    match r with
    | .ok _ => w.done
    | .error e => (.error (.store e), w)
  | _ => w.done

def openQueue (w : World) (s : LifecycleSettings) : Outcome :=
  match w.follow (Queue.rehydrate s.queueConfig) with
  | (.error e, w) => (.error (.queue e), w)
  | (.panic, w) => (.error .panicked, w)
  | (.ok q, w) =>
    let (w, i) := w.close.addQueue q
    (.ok (.queueOpened q.report q.config), { w with queue := some i })

/-- The draft becomes the session's configuration. -/
def configure (w : World) : Option Configuration.Draft → Except ConfigError World
  | none => .ok w
  | some d => d.build.map fun config => { w with config }

def openScheduler (w : World) (s : LifecycleSettings) (config : Option Configuration.Draft) :
    Outcome :=
  w.withQueue fun i _ =>
    match w.configure config with
    | .error e => (.error (.config e), w)
    | .ok w =>
      let (w, k) := w.addStation ⟨.create w.config s.plan, i⟩
      { w with station := some k }.done

def openLifecycle (w : World) (s : LifecycleSettings) (config : Option Configuration.Draft) :
    Outcome :=
  match w.configure config with
  | .error e => (.error (.config e), w)
  | .ok w =>
    match w.follow (Lifecycle.openOver w.config s w.fresh) with
    | ((.error e, drew), w) => (.error (.lifecycle e), w.draw drew)
    | ((.panic, drew), w) => (.error .panicked, w.draw drew)
    | ((.ok (l, q), drew), w) =>
      let (w, i) := (w.draw drew).close.addQueue q
      let (w, k) := w.addStation ⟨.create w.config s.plan, i⟩
      (.ok (.lifecycleOpened l.clientId q.report w.config),
        { w with queue := some i, station := some k, handle := some ⟨l, k, none⟩ })

/-- A handle over a directory of its own: opened, used for one count and one ping, and let go. -/
def openAtStoragePath (w : World) (name : String) (s : LifecycleSettings)
    (config : Option Configuration.Draft) : Outcome :=
  match w.configure config with
  | .error e => (.error (.config e), w)
  | .ok w => w.withDirectory fun d =>
    let (r, files, ns) := Store.Directory.openAt d.files (d.root ++ Store.Path.ofText name)
    let w := (w.setFiles d files).say ns
    match r with
    | .error e => (.error (.lifecycle (.storage e)), w)
    | .ok inner =>
      let ((r, drew), inner, ns) :=
        (Lifecycle.openOver w.config s w.fresh).run Store.Directory.backend inner
      let w := ((w.draw drew).setFiles d inner.files).say ns
      match r with
      | .error e => (.error (.lifecycle e), w)
      | .panic => (.error .panicked, w)
      | .ok (l, q) =>
        let l := l.addToCounter w.clock "metrics" "c" 1
        match l.drain w.clock "metrics" none with
        | (_, none) => (.ok (.stored l.clientId q.report none q.pings.length), w)
        | (l, some sub) =>
          let (p, drew) := l.submit q w.clock w.fresh sub
          let ((r, l, q), inner, ns) := p.run Store.Directory.backend inner
          let w := ((w.draw drew).setFiles d inner.files).say ns
          match r with
          | .error e => (.error (.lifecycle e), w)
          | .ok id => (.ok (.stored l.clientId q.report id q.pings.length), w)

/-! ## The queue -/

def request (w : World) (r : Queue.Request) : Outcome :=
  w.withQueue fun i q =>
    let ((answer, q), w) := w.follow (q.perform r)
    let w := w.setQueue i q
    match answer with
    | .error e => (.error (.queue e), w)
    | .ok .accepted => w.done
    | .ok (.pings l) => (.ok (.pings l), w)
    | .ok (.retry d) => (.ok (.retry d), w)

/-! ## Runs and workers -/

/-- Runs once as the session's own task. -/
def runHere (w : World) (station : Nat) (fail : Upload.RunError → Failure) : Outcome :=
  let (w, id) := w.addTask (.caller station)
  let w := { w with root := some id, rootWoken := true }.drive (.tasks [id]) patience
  let w := { w with root := none, rootWoken := false }
  match (w.tasks[id]?).bind Task.result? with
  | some (.ok s) => (.ok (.summary s), w)
  | some (.error e) => (.error (fail e), w)
  | none => w.done

def spawnRuns (w : World) (station : Nat) : Nat → World
  | 0 => w
  | n + 1 =>
    let (w, id) := w.spawn (.caller station)
    { w with spawned := w.spawned ++ [id] }.spawnRuns station n

def join (w : World) : Outcome :=
  let w' := w.drive (.tasks w.spawned) patience
  (.ok (.results (w.spawned.filterMap fun i => (w'.tasks[i]?).bind Task.result?)),
    { w' with spawned := [] })

/-- A worker of its own for a scheduler. -/
def spawnWorker (w : World) (station : Nat) (s : Station) : World × Nat :=
  w.spawn ⟨station, some (.start s.scheduler.plan), .resting⟩

def isRunning (w : World) (task : Option Nat) : Bool :=
  match task.bind (w.tasks[·]?) with
  | some t => !t.isDone
  | none => false

/-- Starts the handle's worker unless one is alive. -/
def start (w : World) : Outcome :=
  w.withHandle fun h s _ =>
    if w.isRunning h.worker then w.done
    else
      let (w, id) := w.spawnWorker h.station s
      ({ w with handle := some { h with worker := some id } }.say [.workerStarted]).done

/-- Cancels the handle's scheduler and waits for the worker to end. -/
def shutdown (w : World) : Outcome :=
  w.withHandle fun h _ _ =>
    let w := (w.cancel h.station).drive (.tasks h.worker.toList) patience
    ({ w with handle := some { h with worker := none } }.say [.shutDown]).done

/-! ## The handle -/

def updateLifecycle (w : World) (f : Lifecycle → Lifecycle) : Outcome :=
  w.withHandle fun h _ _ => { w with handle := some { h with lifecycle := f h.lifecycle } }.done

/-- Queues what was taken out of the buffer, and rings for the worker. -/
def submitOut (w : World) (h : Handle) (s : Station) (q : Queue) (l : Lifecycle)
    (sub : Lifecycle.Submission) : Outcome :=
  let (p, drew) := l.submit q w.clock w.fresh sub
  let ((r, l, q), w) := (w.draw drew).follow p
  let w := { w.setQueue s.queue q with handle := some { h with lifecycle := l } }
  match r with
  | .error e => (.error (.lifecycle e), w)
  | .ok none => (.ok (.id none), w)
  | .ok (some id) => (.ok (.id (some id)), w.ring h.station)

def recordEvent (w : World) (e : Event) (ping : String) : Outcome :=
  w.withHandle fun h s q =>
    match h.lifecycle.recordEvent w.clock ping e with
    | (l, none) => (.ok (.id none), { w with handle := some { h with lifecycle := l } })
    | (l, some sub) =>
      (w.say [.thresholdReached l.config.maxEvents ping]).submitOut h s q l sub

def submit (w : World) (ping : String) (reason : Option String) : Outcome :=
  w.withHandle fun h s q =>
    match h.lifecycle.drain w.clock ping reason with
    | (_, none) => (.ok (.id none), w.say [.nothingBuffered ping])
    | (l, some sub) => w.submitOut h s q l sub

/-! ## All of them -/

def perform (w : World) : Command → Outcome
  | .setClock t => { w with clock := t }.done
  | .sleep ms => (w.drive (.moment (w.now + ms)) patience).done
  | .call c => w.call c
  | .loadClientId => w.loadClientId
  | .setFailing on => w.setFailing on
  | .addFault f => { w with store := { w.store with faults := w.store.faults ++ [f] } }.done
  | .addGhost k => { w with store := { w.store with ghosts := w.store.ghosts ++ [k] } }.done
  | .listDirectory => w.withDirectory fun d => (.ok (.names (d.files.children d.root)), w)
  | .writeFile name b => w.writeFile name b
  | .makeDirectory name => w.makeDirectory name
  | .openStore name => w.openStore name
  | .reopenStore => w.reopenStore
  | .openQueue s => w.openQueue s
  | .close => w.close.done
  | .request r => w.request r
  | .contains id => w.withQueue fun _ q => (.ok (.flag (some (q.contains id))), w)
  | .inspectQueue => w.withQueue fun _ q => (.ok (.queueState q.pings.isEmpty q.report), w)
  | .openScheduler s c => w.openScheduler s c
  | .runOnce => w.withStation fun i _ => w.runHere i .run
  | .spawnRuns n => w.withStation fun i _ => (w.spawnRuns i n).done
  | .join => w.join
  | .trigger => w.withStation fun i _ => (w.ring i).done
  | .spawnWorker => w.withStation fun i s =>
      let (w, id) := w.spawnWorker i s
      { w with worker := some id }.done
  | .workerFinished =>
    (.ok (.flag ((w.worker.bind (w.tasks[·]?)).map Task.isDone)), w)
  | .cancel => w.withStation fun i _ => (w.cancel i).done
  | .inspectScheduler => w.withStation fun _ s =>
      (.ok (.scheduler ⟨s.scheduler.stats, s.scheduler.suspended, s.scheduler.cancelled,
        (w.queues[s.queue]?).elim 0 (·.pings.length)⟩), w)
  | .inspectUploader => (.ok (.uploader w.uploader), w)
  | .openLifecycle s c => w.openLifecycle s c
  | .openAtStoragePath name s c => w.openAtStoragePath name s c
  | .dropLifecycle => w.dropHandle.done
  | .register t =>
    let (r, w) := w.updateLifecycle (·.register t)
    (r, if w.handle.isSome then w.say [.registered t.name t.includeClientId] else w)
  | .setMetric ping id m => w.updateLifecycle (·.setMetric w.clock ping id m)
  | .addToCounter ping id n => w.updateLifecycle (·.addToCounter w.clock ping id n)
  | .recordEvent e ping => w.recordEvent e (ping.getD Lifecycle.eventsPing)
  | .submit ping reason => w.submit ping reason
  | .flush => w.withHandle fun h _ _ => w.runHere h.station fun e => .lifecycle (.run e)
  | .start => w.start
  | .shutdown => w.shutdown
  | .inspectBuffer ping => w.withHandle fun h _ _ =>
      (.ok (.size (h.lifecycle.buffer.eventCount ping) (h.lifecycle.buffer.isEmpty ping)), w)
  | .inspectLifecycle => w.withHandle fun h s q =>
      (.ok (.lifecycle ⟨h.lifecycle.clientId, q.pings.length, s.scheduler.stats,
        h.lifecycle.droppedOversized⟩), w)

end World

/-! ## Sessions -/

/-- What one command came to. -/
structure Report where
  result : Except Failure Answer
  now : Nat
  queue : Option (Nat × Bool)
  calls : List Call
  notices : List Notice

def queueView (w : World) : Option (Nat × Bool) :=
  (w.queue.bind (w.queues[·]?)).map fun q => (q.pings.length, q.faulted)

/-- One command, after which every task goes on as far as it can without time passing. -/
def step (w : World) (c : Command) : Report × World :=
  let (result, w) := { w with notices := [], calls := [] }.perform c
  let w := w.settle World.patience
  (⟨result, w.now, queueView w, w.calls.reverse, w.notices.reverse⟩, w)

def Report.panicked (r : Report) : Bool :=
  match r.result with
  | .error .panicked => true
  | _ => false

/-- A panic ends the session. -/
def run : World → List Command → List Report
  | _, [] => []
  | w, c :: r =>
    let (report, w) := step w c
    if report.panicked then [report] else report :: run w r

/-- A fresh world over an empty store. -/
def World.initial (medium : Store.Medium) (clock : Time.Instant) (config : Configuration)
    (script : List Script) : World where
  now := 0
  clock := clock
  drawn := 0
  store := .ofMedium medium
  config := config
  queues := []
  lines := []
  stations := []
  tasks := []
  ready := []
  calling := []
  timers := []
  uploader := .ofScript script
  queue := none
  station := none
  handle := none
  worker := none
  spawned := []
  root := none
  rootWoken := false
  notices := []
  calls := []

end PingDelivery.Session
