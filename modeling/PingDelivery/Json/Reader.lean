import PingDelivery.Json.Basic
import PingDelivery.Json.Token

/-! # Reading any JSON value

`read` gives the value that a whole text is; `skip` passes over one without looking at it. Nesting
is limited where values are kept and not where they are skipped. -/

namespace PingDelivery.Json.Reader

def Numeral.text (n : Numeral) : String :=
  String.ofList ((if n.negative then ['-'] else []) ++ n.whole ++
    (match n.fraction with | none => [] | some f => '.' :: f)) ++
    (match n.exponent with | none => "" | some e => "e" ++ toString e)

def numberValue : Reader Json := do
  let n ← number
  match n.int? with
  | some v => return .int v
  | none => return .real n.text

/-- How deep values may be nested. -/
def maxDepth : Nat := 128

def value : Nat → Reader Json
  | 0 => do
    match (← peek) with
    | none => fail .endOfText
    | some _ => fail .syntaxError
  | depth + 1 => do
    match (← peek) with
    | none => fail .endOfText
    | some 'n' => word "null".toList; return .null
    | some 't' => word "true".toList; return .bool true
    | some 'f' => word "false".toList; return .bool false
    | some '"' => return .str (← quoted false)
    | some '[' => do
      drop 1
      let l ← items (value depth) (← bound) true []
      drop 1
      return .arr l
    | some '{' => do
      drop 1
      let l ← members false
        (fun k acc => do colon; return (k, ← value depth) :: acc) (← bound) true []
      drop 1
      return .obj l.reverse
    | some c =>
      if c = '-' ∨ c.isDigit then numberValue else fail .syntaxError

/-- Passes over a value; the nesting is bounded by the length of the text alone. -/
def skipValue : Nat → Reader Unit
  | 0 => fail .endOfText
  | depth + 1 => do
    match (← peek) with
    | none => fail .endOfText
    | some 'n' => word "null".toList
    | some 't' => word "true".toList
    | some 'f' => word "false".toList
    | some '"' => do let _ ← quoted true
    | some '[' => do
      drop 1
      let _ ← items (skipValue depth) (← bound) true []
      drop 1
    | some '{' => do
      drop 1
      members true (fun _ _ => do colon; skipValue depth) (← bound) true ()
      drop 1
    | some c =>
      if c = '-' ∨ c.isDigit then do let _ ← numeral true else fail .syntaxError

def skip : Reader Unit := do skipValue (← bound)

end Reader

def read (s : String) : Except Fault Json := Reader.run (Reader.value Reader.maxDepth) s

end PingDelivery.Json
