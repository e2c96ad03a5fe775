import PingDelivery.Ended
import PingDelivery.Ping
import PingDelivery.Time.Rfc3339

/-! # Records of pings

The bytes a ping is stored as. Integers take one byte below 251 and otherwise a mark byte with two,
four or eight bytes behind it, lowest first; texts and byte lists carry their length; an optional
value is a byte 0, or a byte 1 and the value. Every part says where it ends, so what follows a
record does not matter. A record is stored under its id and is refused under any other key.

The reader makes room for an id or a text before it reads it, as much as its length announces. More
than any block of memory can have it cannot ask for: it panics. Memory itself is taken to suffice. -/

namespace PingDelivery.Record

inductive Error where
  | malformed
  | unsupportedVersion (version : UInt8)
  | keyMismatch (key : String) (found : Uuid)
  deriving DecidableEq

/-- What is wrong with malformed bytes is not said. -/
def Error.text : Error → String
  | malformed => "Deserialization error"
  | unsupportedVersion v => "Unsupported record version " ++ toString v.toNat
  | keyMismatch key found => "Record id " ++ found.text ++ " does not match key " ++ key

def version : UInt8 := 1

/-- A ping is stored under the canonical text of its id. -/
def key (id : Uuid) : String := id.text

/-- Keys that read as ids are pings; all others belong to someone else. -/
def isPingKey (k : String) : Bool := (Uuid.parse? k).isSome

/-! ## Writing -/

/-- The lowest bytes of a number, lowest first. -/
def littleEndian : Nat → Nat → Bytes
  | 0, _ => []
  | width + 1, n => UInt8.ofNat n :: littleEndian width (n / 256)

def varint (n : Nat) : Bytes :=
  if n < 251 then [UInt8.ofNat n]
  else if n < 0x10000 then 251 :: littleEndian 2 n
  else if n < 0x100000000 then 252 :: littleEndian 4 n
  else 253 :: littleEndian 8 n

def block (b : Bytes) : Bytes := varint b.length ++ b

def text (s : String) : Bytes := block (Bytes.ofText s)

def option : Option String → Bytes
  | none => [0]
  | some s => 1 :: text s

def metadata (m : Metadata) : Bytes :=
  text m.serverEndpoint ++ text m.path ++ text m.userAgent ++ option m.channel ++ option m.tag

def encode (p : Ping) : Bytes :=
  version :: (block p.id.octets ++ text p.documentType ++ block p.payload ++
    text (Time.Rfc3339.write p.createdAt) ++ varint p.attempts.toNat ++ varint p.sequence.toNat ++
    metadata p.metadata)

/-! ## Reading -/

/-- No block of memory is longer. -/
def longest : Nat := 0x7FFFFFFFFFFFFFFF

/-- A scan takes a value off the front; what it refuses is malformed. -/
abbrev Scan := StateT Bytes (Ended Unit)

namespace Scan

def refuse {α : Type} : Scan α := fun _ => .error ()

def panic {α : Type} : Scan α := fun _ => .panic

def byte : Scan UInt8 := fun b =>
  match b with
  | [] => .error ()
  | x :: r => .ok (x, r)

def take (n : Nat) : Scan Bytes := fun b =>
  if n ≤ b.length then .ok (b.take n, b.drop n) else .error ()

def valueOf (b : Bytes) : Nat := b.foldr (fun x n => x.toNat + 256 * n) 0

def wide (width : Nat) : Scan Nat := do return valueOf (← take width)

/-- A number of at most that many bytes; a wider mark is refused even before a small value. -/
def varint (widest : Nat) : Scan Nat := do
  let x ← byte
  if x < 251 then return x.toNat
  else if x = 251 ∧ 2 ≤ widest then wide 2
  else if x = 252 ∧ 4 ≤ widest then wide 4
  else if x = 253 ∧ 8 ≤ widest then wide 8
  else refuse

/-- Bytes that room is made for before they are read. -/
def block : Scan Bytes := do
  let n ← varint 8
  if n ≤ longest then take n else panic

/-- Bytes that are read one by one. -/
def bytes : Scan Bytes := do take (← varint 8)

def lift {α : Type} (o : Option α) : Scan α := fun b => o.elim (.error ()) fun a => .ok (a, b)

def text : Scan String := do lift (Bytes.text? (← block))

def option : Scan (Option String) := do
  let x ← byte
  if x = 0 then return none
  else if x = 1 then return some (← text)
  else refuse

def metadata : Scan Metadata := do
  return ⟨← text, ← text, ← text, ← option, ← option⟩

/-- The version and the ping. -/
def record : Scan (UInt8 × Ping) := do
  let version ← byte
  let id ← lift (Uuid.ofOctets? (← block))
  let documentType ← text
  let payload ← bytes
  let createdAt ← lift (Time.Rfc3339.read? (← text))
  let attempts ← varint 4
  let sequence ← varint 8
  let metadata ← metadata
  return (version, ⟨id, documentType, payload, createdAt, UInt32.ofNat attempts,
    UInt64.ofNat sequence, metadata⟩)

end Scan

/-- The ping stored under a key, from the front of the bytes. -/
def decode (k : String) (b : Bytes) : Ended Error Ping :=
  match Scan.record b with
  | .error _ => .error .malformed
  | .panic => .panic
  | .ok ((v, p), _) =>
    if v ≠ version then .error (.unsupportedVersion v)
    else if key p.id ≠ k then .error (.keyMismatch k p.id)
    else .ok p

end PingDelivery.Record
