import PingDelivery.Bytes
import PingDelivery.Metadata
import PingDelivery.Time.Instant
import PingDelivery.Uuid

/-! # Pings

An assembled ping. After assembly only its place in the queue and its count of failed attempts
change. -/

namespace PingDelivery

structure Ping where
  id : Uuid
  documentType : String
  payload : Bytes
  createdAt : Time.Instant
  attempts : UInt32
  sequence : UInt64
  metadata : Metadata
  deriving DecidableEq

namespace Ping

/-- A ping that has not been queued nor tried. -/
def fresh (id : Uuid) (documentType : String) (payload : Bytes) (createdAt : Time.Instant)
    (metadata : Metadata) : Ping :=
  ⟨id, documentType, payload, createdAt, 0, 0, metadata⟩

def size (p : Ping) : Nat := p.payload.length

def url (p : Ping) : String := p.metadata.url

/-- One failed attempt more; the count stays at its maximum once there. -/
def attempted (p : Ping) : Ping :=
  { p with attempts := if p.attempts.toNat + 1 < 0x100000000 then p.attempts + 1 else p.attempts }

/-- What is fixed when a ping is assembled. -/
structure Content where
  documentType : String
  payload : Bytes
  createdAt : Time.Instant
  metadata : Metadata
  deriving DecidableEq

def content (p : Ping) : Content := ⟨p.documentType, p.payload, p.createdAt, p.metadata⟩

end Ping

/-- A registered kind of ping: only a kind that opts in carries the client id. -/
structure PingType where
  name : String
  includeClientId : Bool
  deriving DecidableEq

end PingDelivery
