import PingDelivery.Json.Reader

/-! # Reading JSON of an expected shape

These readers know what they expect and report a data fault where well-formed text holds something
else: another kind of value, a missing or repeated field, a number out of range. A record is read
from an object, whose unknown members are skipped, or from an array of its fields in order. -/

namespace PingDelivery.Json.Reader

/-- What stands here is not what was asked for: a data fault, unless the value itself is broken. -/
def mismatch {α : Type} : Reader α := do
  match (← peek) with
  | none => fail .endOfText
  | some 'n' => word "null".toList; fail .dataError
  | some 't' => word "true".toList; fail .dataError
  | some 'f' => word "false".toList; fail .dataError
  | some '"' => do let _ ← quoted false; fail .dataError
  | some c =>
    if c = '[' ∨ c = '{' then fail .dataError
    else if c = '-' ∨ c.isDigit then do let _ ← number; fail .dataError
    else fail .syntaxError

def int64 : Reader Json := do
  match (← peek) with
  | none => fail .endOfText
  | some c =>
    if c = '-' ∨ c.isDigit then do
      let n ← number
      match n.int? with
      | some v => if -0x8000000000000000 ≤ v ∧ v < 0x8000000000000000 then return .int v else fail .dataError
      | none => fail .dataError
    else mismatch

def boolean : Reader Json := do
  match (← peek) with
  | some 't' => word "true".toList; return .bool true
  | some 'f' => word "false".toList; return .bool false
  | _ => mismatch

def string : Reader String := do
  match (← peek) with
  | some '"' => quoted false
  | _ => mismatch

def text : Reader Json := return .str (← string)

/-- The value, or null. -/
def nullable (r : Reader Json) : Reader Json := do
  match (← peek) with
  | some 'n' => word "null".toList; return .null
  | _ => r

def texts : Reader Json := do
  match (← peek) with
  | some '[' => do
    drop 1
    let l ← items text (← bound) true []
    drop 1
    return .arr l
  | _ => mismatch

/-- An object of strings, in the order of the text. -/
def textMap : Reader Json := do
  match (← peek) with
  | some '{' => do
    drop 1
    let l ← members false (fun k acc => do colon; return (k, ← text) :: acc) (← bound) true []
    drop 1
    return .obj l.reverse
  | _ => mismatch

/-! ## Records -/

/-- A field of a record: what it is in an object that lacks it and in an array that ends before
it, where it may be left out at all. -/
structure Field where
  name : String
  read : Reader Json
  absent : Option Json
  beyond : Option Json

def orFault (v : Option Json) : Reader Json :=
  match v with
  | some v => return v
  | none => fail .dataError

def recordMember (fields : List Field) (k : String) (found : List (String × Json)) :
    Reader (List (String × Json)) := do
  match fields.find? (·.name == k) with
  | none => do colon; skip; return found
  | some f =>
    if found.any (·.1 == k) then fail .dataError
    else do colon; return (k, ← f.read) :: found

/-- Whether an array goes on; a comma is taken. -/
def another (first : Bool) : Reader Bool := do
  match (← peek) with
  | none => fail .endOfText
  | some ']' => return false
  | some c =>
    if first then return true
    else if c = ',' then do
      drop 1
      match (← peek) with
      | none => fail .endOfText
      | some ']' => fail .syntaxError
      | some _ => return true
    else fail .syntaxError

def arrayFields : Bool → List Field → Reader (List Json)
  | _, [] => return []
  | first, f :: r => do
    if ← another first then
      let v ← f.read
      return v :: (← arrayFields false r)
    else (f :: r).mapM fun f => orFault f.beyond

def closeArray : Reader Unit := do
  match (← peek) with
  | none => fail .endOfText
  | some ']' => drop 1
  | some _ => fail .syntaxError

/-- The values of the fields in their order. -/
def record (fields : List Field) : Reader (List Json) := do
  match (← peek) with
  | some '{' => do
    drop 1
    let found ← members false (recordMember fields) (← bound) true []
    let values ← fields.mapM fun f =>
      match found.find? (·.1 == f.name) with
      | some p => return p.2
      | none => orFault f.absent
    drop 1
    return values
  | some '[' => do
    drop 1
    let values ← arrayFields true fields
    closeArray
    return values
  | _ => mismatch

/-! ## Variants -/

def nullValue : Reader Json := do
  match (← peek) with
  | some 'n' => word "null".toList; return .null
  | _ => mismatch

/-- A variant by its name alone, or as the one member of an object, whose value is the variant's
content. Names that need no content have none and take null for it. -/
def variant (content : String → Option (Option (Reader Json))) : Reader (String × Json) := do
  match (← peek) with
  | none => fail .endOfText
  | some '"' => do
    let name ← quoted false
    match content name with
    | some none => return (name, .null)
    | _ => fail .dataError
  | some '{' => do
    drop 1
    let name ← string
    match content name with
    | none => fail .dataError
    | some c => do
      colon
      let v ← c.getD nullValue
      match (← peek) with
      | none => fail .endOfText
      | some '}' => do drop 1; return (name, v)
      | some _ => fail .syntaxError
  | some _ => fail .syntaxError

end PingDelivery.Json.Reader
