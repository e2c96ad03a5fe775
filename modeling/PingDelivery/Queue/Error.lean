import PingDelivery.Record
import PingDelivery.Store.Call

/-! # Why a queue refuses

A storage failure, and the suspension that it leaves behind, are fatal: only opening the queue
again lifts them. -/

namespace PingDelivery

inductive QueueError where
  | storage (e : Store.Error)
  | suspended
  | notFound (id : Uuid)
  | duplicate (id : Uuid)
  deriving DecidableEq

namespace QueueError

def isFatal : QueueError → Bool
  | storage _ | suspended => true
  | notFound _ | duplicate _ => false

def text : QueueError → String
  | storage e => "Storage fault: " ++ e.text
  | suspended => "Queue suspended after a storage fault"
  | notFound id => "Ping not found: " ++ id.text
  | duplicate id => "Ping already queued: " ++ id.text

end QueueError
end PingDelivery
