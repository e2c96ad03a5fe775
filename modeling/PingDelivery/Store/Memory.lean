import PingDelivery.Dict
import PingDelivery.Store.Program

/-! # The map store

The reference for what a store is: a map from valid keys to bytes. While it is marked as failing,
every call fails. -/

namespace PingDelivery.Store

structure Memory where
  records : Dict Bytes
  failing : Bool
  deriving DecidableEq

namespace Memory

def empty : Memory := ⟨.empty, false⟩

def failure : Error := .io "memory store marked as failing"

/-- What a healthy map does. -/
def answer : (c : Call) → Memory → Result c × Memory
  | .put k b, m =>
    if ValidKey k then (.ok (), { m with records := m.records.insert k b })
    else (.error (.invalidKey k), m)
  | .get k, m => (if ValidKey k then .ok (m.records.get? k) else .error (.invalidKey k), m)
  | .delete k, m =>
    if ValidKey k then (.ok (), { m with records := m.records.erase k })
    else (.error (.invalidKey k), m)
  | .list, m => (.ok m.records.keys, m)

def serve (c : Call) (m : Memory) : Result c × Memory × List Notice :=
  if m.failing then (.error failure, m, [])
  else
    let (r, m) := answer c m
    (r, m, [])

def backend : Backend Memory := ⟨serve⟩

end Memory
end PingDelivery.Store
