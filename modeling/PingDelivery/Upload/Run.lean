import PingDelivery.Queue.Basic
import PingDelivery.Upload.Outcome
import PingDelivery.Upload.Request
import PingDelivery.Upload.Scheduler
import PingDelivery.Upload.Summary

/-! # Upload runs

A run takes its turn and then hands the oldest ping to the uploader again and again, acknowledging
each answer, until the queue is empty, a ping fails recoverably, or the scheduler is cancelled. It
is a machine of phases: between two phases other tasks may act, within a phase's step only the
store is called. -/

namespace PingDelivery.Upload

/-- What a run works on. -/
structure Desk where
  scheduler : Scheduler
  queue : Queue
  deriving DecidableEq

namespace Run

inductive Phase where
  /-- Has not asked for the turn yet. -/
  | arriving
  /-- Stands in line. -/
  | waiting
  /-- Was given the turn and has not looked around yet. -/
  | admitted
  /-- Is about to look for the next ping. -/
  | looking (s : Summary)
  /-- Has handed the ping to the uploader. -/
  | uploading (p : Ping) (s : Summary)
  /-- Has the uploader's answer, or gave up waiting for it. -/
  | settling (p : Ping) (o : Outcome) (s : Summary)
  | finished (r : Except RunError Summary)

abbrev Step := Store.Program (Phase × Desk)

def told {α : Type} : List Notice → Store.Program α → Store.Program α
  | [], p => p
  | n :: ns, p => .tell n (told ns p)

/-- A queue error ends the run; a fatal one suspends the scheduler. -/
def fail (d : Desk) (e : QueueError) : Step :=
  if e.isFatal then
    told (if d.scheduler.suspended then [] else [.uploadsSuspended e])
      (.done (.finished (.error (.storageFault e)),
        { d with scheduler := { d.scheduler with suspended := true } }))
  else .done (.finished (.error (.queue e)), d)

/-- The first thing a run does with its turn. -/
def takeTurn (d : Desk) : Phase :=
  if d.scheduler.suspended then .finished (.error .suspended) else .looking .zero

/-- What a run does with the queue's answer to a look at its oldest ping. -/
def looked (d : Desk) (s : Summary) : Except QueueError Queue.Reply → Step
  | .error e => fail d e
  | .ok (.pings (p :: _)) =>
    told ((Request.trace d.scheduler.config p).toList ++ [.uploading p])
      (.done (.uploading p s, d))
  | .ok _ => .done (.finished (.ok { s with stopReason := .queueEmpty }), d)

/-- The end of a run of a cancelled scheduler. -/
def stopped (s : Summary) : Phase := .finished (.ok { s with stopReason := .cancelled })

/-- Takes the oldest ping up, unless there is none or the scheduler is cancelled. -/
def look (d : Desk) (s : Summary) : Step :=
  if d.scheduler.cancelled then .done (stopped s, d)
  else (d.queue.perform (.peek 1)).bind fun (r, q) => looked { d with queue := q } s r

/-- The outcome of an upload that took too long. -/
def timedOut (plan : Plan) : Outcome :=
  .recoverable ("upload timed out after " ++ plan.timeout.text)

/-- How an outcome is acknowledged. -/
def ack (p : Ping) : Outcome → Queue.Request
  | .success => .ackSuccess p.id
  | .unrecoverable _ => .ackUnrecoverable p.id
  | .recoverable _ => .ackRecoverable p.id

/-- What an acknowledged outcome adds to the counts, what is said, and whether the run goes on. -/
def account (d : Desk) (p : Ping) (s : Summary) :
    Outcome → Queue.Reply → Phase × Scheduler × Notice
  | .success, _ =>
    (.looking { s with uploaded := s.uploaded + 1 }, d.scheduler.mark .uploaded,
      .uploaded p.id p.documentType)
  | .unrecoverable reason, _ =>
    (.looking { s with unrecoverable := s.unrecoverable + 1 }, d.scheduler.mark .unrecoverable,
      .refused p.id reason)
  | .recoverable reason, .retry (.dropped n) =>
    (.finished (.ok { s with droppedAfterRetries := s.droppedAfterRetries + 1,
                             stopReason := .recoverableFailure }),
      (d.scheduler.mark .recoverable).mark .dropped, .dropped p.id n reason)
  | .recoverable reason, .retry (.retained n) =>
    (.finished (.ok { s with recoverable := s.recoverable + 1,
                             stopReason := .recoverableFailure }),
      d.scheduler.mark .recoverable, .retained p.id n reason)
  | .recoverable reason, _ =>
    (.finished (.ok { s with stopReason := .recoverableFailure }),
      d.scheduler.mark .recoverable, .retained p.id p.attempts reason)

/-- What a run does with the queue's answer to an acknowledgement. -/
def settled (d : Desk) (p : Ping) (o : Outcome) (s : Summary) : Except QueueError Queue.Reply → Step
  | .error e => fail d e
  | .ok reply =>
    let (phase, scheduler, notice) := account d p s o reply
    .tell notice (.done (phase, { d with scheduler }))

/-- Acknowledges the outcome of an upload. -/
def settle (d : Desk) (p : Ping) (o : Outcome) (s : Summary) : Step :=
  (d.queue.perform (ack p o)).bind fun (r, q) => settled { d with queue := q } p o s r

/-- The end of a run whose upload is abandoned. -/
def abandon (s : Summary) : Phase := stopped s

end Run
end PingDelivery.Upload
