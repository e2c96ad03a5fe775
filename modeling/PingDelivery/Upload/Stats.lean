/-! # Upload statistics

Totals over the life of a scheduler. A ping dropped after its last attempt counts both as a
recoverable failure and as dropped. -/

namespace PingDelivery.Upload

structure Stats where
  uploaded : Nat
  recoverableFailures : Nat
  unrecoverableFailures : Nat
  droppedAfterRetries : Nat
  timeouts : Nat
  deriving DecidableEq, Repr

namespace Stats

def zero : Stats := ⟨0, 0, 0, 0, 0⟩

inductive Mark where
  | uploaded
  | recoverable
  | unrecoverable
  | dropped
  | timeout
  deriving DecidableEq, Repr

def mark (s : Stats) : Mark → Stats
  | .uploaded => { s with uploaded := s.uploaded + 1 }
  | .recoverable => { s with recoverableFailures := s.recoverableFailures + 1 }
  | .unrecoverable => { s with unrecoverableFailures := s.unrecoverableFailures + 1 }
  | .dropped => { s with droppedAfterRetries := s.droppedAfterRetries + 1 }
  | .timeout => { s with timeouts := s.timeouts + 1 }

/-- The totals after each mark. -/
def history : Stats → List Mark → List Stats
  | _, [] => []
  | s, m :: r => s.mark m :: history (s.mark m) r

end Stats
end PingDelivery.Upload
