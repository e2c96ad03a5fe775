import PingDelivery.Queue.Error

/-! # How an upload run ends

A run ends with a summary of what it acknowledged and why it stopped, or with an error. -/

namespace PingDelivery.Upload

inductive StopReason where
  | queueEmpty
  | recoverableFailure
  | cancelled
  deriving DecidableEq, Repr

def StopReason.text : StopReason → String
  | queueEmpty => "QueueEmpty"
  | recoverableFailure => "RecoverableFailure"
  | cancelled => "Cancelled"

structure Summary where
  uploaded : Nat
  unrecoverable : Nat
  recoverable : Nat
  droppedAfterRetries : Nat
  stopReason : StopReason
  deriving DecidableEq, Repr

namespace Summary

def zero : Summary := ⟨0, 0, 0, 0, .queueEmpty⟩

def attempted (s : Summary) : Nat :=
  s.uploaded + s.unrecoverable + s.recoverable + s.droppedAfterRetries

def text (s : Summary) : String :=
  "RunSummary \x7b uploaded: " ++ toString s.uploaded ++ ", unrecoverable: " ++
    toString s.unrecoverable ++ ", recoverable: " ++ toString s.recoverable ++
    ", dropped_after_retries: " ++ toString s.droppedAfterRetries ++ ", stop_reason: " ++
    s.stopReason.text ++ " \x7d"

end Summary

/-- A run's own errors: the queue failed fatally under it, or had done so under an earlier run, or
refused for a reason that does not stop later runs. -/
inductive RunError where
  | storageFault (e : QueueError)
  | suspended
  | queue (e : QueueError)
  deriving DecidableEq

namespace RunError

def isFatal : RunError → Bool
  | storageFault _ | suspended => true
  | queue _ => false

def text : RunError → String
  | storageFault e => "Fatal storage fault, uploads suspended: " ++ e.text
  | suspended => "Scheduler suspended after a storage fault"
  | queue e => "Queue error: " ++ e.text

end RunError
end PingDelivery.Upload
