import PingDelivery.Upload.Backoff
import PingDelivery.Upload.Plan
import PingDelivery.Notice

/-! # The background worker

The worker runs at every interval or when the bell rings, but after a run that failed recoverably
it waits its back-off out and hears no bell. It ends when cancelled or on a fatal error. Times are
in milliseconds. -/

namespace PingDelivery.Upload

structure Worker where
  backoff : Backoff
  retryAt : Option Nat
  deriving DecidableEq

namespace Worker

def start (plan : Plan) : Worker := ⟨.ofConfig plan.backoff, none⟩

/-- When the worker runs next if nothing wakes it before. -/
def wakeAt (w : Worker) (plan : Plan) (now : Nat) : Nat :=
  match w.retryAt with
  | some t => Nat.max t now
  | none => now + plan.interval.ceilMillis

/-- Whether the bell counts. -/
def listens (w : Worker) : Bool := w.retryAt.isNone

/-- After a run: the worker, what is said, and whether it goes on. -/
def after (w : Worker) (shake : Nat → Nat) (now : Nat) :
    Except RunError Summary → Worker × List Notice × Bool
  | .ok s =>
    if s.stopReason = .recoverableFailure then
      let (wait, backoff) := w.backoff.fail shake
      (⟨backoff, some (now + wait.ceilMillis)⟩, [.backingOff wait], true)
    else
      (⟨w.backoff.reset, none⟩, if 0 < s.attempted then [.runFinished s] else [],
        s.stopReason ≠ .cancelled)
  | .error e =>
    if e.isFatal then (w, [.workerStopping e], false) else (w, [.runFailed e], true)

end Worker
end PingDelivery.Upload
