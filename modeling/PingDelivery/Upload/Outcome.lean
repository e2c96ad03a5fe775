/-! # Outcomes of an upload

A failure is recoverable if trying again later may help. -/

namespace PingDelivery.Upload

inductive Outcome where
  | success
  | recoverable (reason : String)
  | unrecoverable (reason : String)
  deriving DecidableEq, Repr

namespace Outcome

/-- Of the collector's answers 2xx are success, and only 4xx are beyond help. -/
def ofStatus (status : Nat) : Outcome :=
  let reason := "HTTP " ++ toString status
  if 200 ≤ status ∧ status ≤ 299 then success
  else if 400 ≤ status ∧ status ≤ 499 then unrecoverable reason
  else recoverable reason

def isSuccess (o : Outcome) : Bool := o == success

def reason? : Outcome → Option String
  | success => none
  | recoverable r | unrecoverable r => some r

def text : Outcome → String
  | success => "success"
  | recoverable r => "recoverable failure: " ++ r
  | unrecoverable r => "unrecoverable failure: " ++ r

end Outcome
end PingDelivery.Upload
