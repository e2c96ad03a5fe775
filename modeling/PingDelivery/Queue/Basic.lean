import PingDelivery.Store.Program

/-! # The pending queue

Pings that wait to be uploaded, oldest first, kept both in memory and in a store. A request is
decided from the memory alone; where it changes anything, that is by one store call, and memory
follows only if the call succeeds. The first call that fails suspends the queue until it is opened
again. -/

namespace PingDelivery

structure Queue.Config where
  /-- A ping is given up once its failed attempts reach this number. -/
  maxAttempts : UInt32
  maxPings : Nat
  maxBytes : Nat
  deriving DecidableEq, Repr

def Queue.Config.standard : Queue.Config := ⟨5, 250, 10 * 1024 * 1024⟩

/-- What opening a queue found. -/
structure Queue.Report where
  restored : Nat
  discardedCorrupt : Nat
  discardedOverQuota : Nat
  deriving DecidableEq, Repr

structure Queue where
  config : Queue.Config
  pings : List Ping
  nextSequence : UInt64
  faulted : Bool
  report : Queue.Report
  deriving DecidableEq

namespace Queue

inductive Request where
  | enqueue (p : Ping)
  | peek (limit : Nat)
  | ackSuccess (id : Uuid)
  | ackUnrecoverable (id : Uuid)
  | ackRecoverable (id : Uuid)
  deriving DecidableEq

/-- What became of a ping after a recoverable failure. -/
inductive Disposition where
  | retained (attempts : UInt32)
  | dropped (attempts : UInt32)
  deriving DecidableEq, Repr

inductive Reply where
  | accepted
  | pings (l : List Ping)
  | retry (d : Disposition)
  deriving DecidableEq

/-- What a request comes to: a refusal or an answer at once, or a call on the store with what
follows once it has succeeded. -/
inductive Decision where
  | refuse (e : QueueError)
  | answer (r : Reply)
  | write (c : Store.Call) (queue : Queue) (reply : Reply) (notice : Option Notice)
  deriving DecidableEq

/-- The call on the store, if there is one. -/
def Decision.call? : Decision → Option Store.Call
  | refuse _ | answer _ => none
  | write c _ _ _ => some c

def find? (q : Queue) (id : Uuid) : Option Ping := q.pings.find? (·.id = id)

def contains (q : Queue) (id : Uuid) : Bool := (q.find? id).isSome

def without (q : Queue) (id : Uuid) : Queue := { q with pings := q.pings.eraseP (·.id = id) }

/-- The ping in the place of the first one that has its id. -/
def replaceFirst (p : Ping) : List Ping → List Ping
  | [] => []
  | x :: r => if x.id = p.id then p :: r else x :: replaceFirst p r

def replace (q : Queue) (p : Ping) : Queue := { q with pings := replaceFirst p q.pings }

def push (q : Queue) (p : Ping) : Queue :=
  { q with pings := q.pings ++ [p], nextSequence := q.nextSequence + 1 }

def storePut (p : Ping) : Store.Call := .put (Record.key p.id) (Record.encode p)

def storeDelete (id : Uuid) : Store.Call := .delete (Record.key id)

def decideRemoval (q : Queue) (id : Uuid) : Decision :=
  if q.contains id then .write (storeDelete id) (q.without id) .accepted (some (.removed id))
  else .refuse (.notFound id)

/-- The part of a request that holds the queue to itself, up to its call on the store. -/
def decide (q : Queue) : Request → Decision
  | .enqueue p =>
    if q.contains p.id then .refuse (.duplicate p.id)
    else
      let p := { p with sequence := q.nextSequence }
      .write (storePut p) (q.push p) .accepted (some (.queued p.id p.documentType p.sequence))
  | .peek limit => .answer (.pings (q.pings.take limit))
  | .ackSuccess id | .ackUnrecoverable id => q.decideRemoval id
  | .ackRecoverable id =>
    match q.find? id with
    | none => .refuse (.notFound id)
    | some p =>
      let p := p.attempted
      if q.config.maxAttempts ≤ p.attempts then
        .write (storeDelete id) (q.without id) (.retry (.dropped p.attempts))
          (some (.exhausted id p.attempts))
      else .write (storePut p) (q.replace p) (.retry (.retained p.attempts)) none

/-- Every request asks this first, before it waits for the queue. -/
def health (q : Queue) : Except QueueError Unit :=
  if q.faulted then .error .suspended else .ok ()

/-- The queue after a failed call, and what is said the first time. -/
def fault (q : Queue) (e : Store.Error) : Queue × Option Notice :=
  ({ q with faulted := true }, if q.faulted then none else some (.queueSuspended e))

def told {α : Type} (n : Option Notice) (p : Store.Program α) : Store.Program α :=
  match n with
  | none => p
  | some n => .tell n p

/-- Carries a decision out. -/
def settle (q : Queue) : Decision → Store.Program (Except QueueError Reply × Queue)
  | .refuse e => .done (.error e, q)
  | .answer r => .done (.ok r, q)
  | .write c q' reply notice => .call c fun
    | .ok _ => told notice (.done (.ok reply, q'))
    | .error e => told (q.fault e).2 (.done (.error (.storage e), (q.fault e).1))

/-- A whole request, when nobody else holds the queue. -/
def perform (q : Queue) (r : Request) : Store.Program (Except QueueError Reply × Queue) :=
  match q.health with
  | .error e => .done (.error e, q)
  | .ok () => q.settle (q.decide r)

end Queue
end PingDelivery
