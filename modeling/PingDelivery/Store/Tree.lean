import PingDelivery.Dict
import PingDelivery.Store.Program

/-! # The ordered tree store

An embedded tree of byte keys in byte order, which other programs may write to. The store reads and
writes valid keys only, and lists every key that is text. -/

namespace PingDelivery.Store

/-- Keys are kept as hexadecimal text, whose order is that of the bytes. -/
structure Tree where
  records : Dict Bytes
  deriving DecidableEq

namespace Tree

def empty : Tree := ⟨.empty⟩

def slot (key : String) : String := (Bytes.ofText key).hex

def insertRaw (t : Tree) (key value : Bytes) : Tree := ⟨t.records.insert key.hex value⟩

def keys (t : Tree) : List String :=
  t.records.keys.filterMap fun h => (Bytes.ofHex? h).bind Bytes.text?

def serve : (c : Call) → Tree → Result c × Tree × List Notice
  | .put k b, t =>
    if ValidKey k then (.ok (), ⟨t.records.insert (slot k) b⟩, [])
    else (.error (.invalidKey k), t, [])
  | .get k, t =>
    (if ValidKey k then .ok (t.records.get? (slot k)) else .error (.invalidKey k), t, [])
  | .delete k, t =>
    if ValidKey k then (.ok (), ⟨t.records.erase (slot k)⟩, [])
    else (.error (.invalidKey k), t, [])
  | .list, t => (.ok t.keys, t, [])

def backend : Backend Tree := ⟨serve⟩

end Tree
end PingDelivery.Store
