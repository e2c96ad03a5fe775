import PingDelivery.Bytes

/-! # Tokens of JSON text

Readers take characters from the front of a text and stop with a `Fault`: the text breaks the
grammar, ends too soon, or is well formed and holds something else than what was asked for. The
first fault in the order of the text is the one that is reported. -/

namespace PingDelivery.Json

inductive Fault where
  | syntaxError
  | dataError
  | endOfText
  deriving DecidableEq, Repr

abbrev Reader := StateT (List Char) (Except Fault)

namespace Reader

def isSpace (c : Char) : Bool := c == ' ' || c == '\n' || c == '\t' || c == '\r'

def skipSpace : Reader Unit := modify (·.dropWhile isSpace)

/-- The next character that is not white space, which stays. -/
def peek : Reader (Option Char) := do
  skipSpace
  return (← get).head?

def drop (n : Nat) : Reader Unit := modify (·.drop n)

def fail {α : Type} (f : Fault) : Reader α := throw f

/-- The rest of a word; a text that ends within it ends too soon. -/
def word : List Char → Reader Unit
  | [] => pure ()
  | c :: r => do
    match (← get) with
    | [] => fail .endOfText
    | x :: s => if x = c then set s; word r else fail .syntaxError

/-! ## Numbers -/

/-- A written number: whole digits, digits after the point, exponent. -/
structure Numeral where
  negative : Bool
  whole : List Char
  fraction : Option (List Char)
  exponent : Option Int

def digits : Reader (List Char) := do
  let s ← get
  let ds := s.takeWhile Char.isDigit
  set (s.drop ds.length)
  return ds

/-- What a missing digit is: the grammar broken, or the text at its end. A reader that skips what
it reads does not tell the two apart. -/
def missingDigit {α : Type} (skipping : Bool) : Reader α := do
  if skipping then fail .syntaxError
  else if (← get).isEmpty then fail .endOfText else fail .syntaxError

def wholePart (skipping : Bool) : Reader (List Char) := do
  let ds ← digits
  match ds with
  | [] => missingDigit skipping
  | '0' :: _ :: _ => fail .syntaxError
  | _ => return ds

def fractionPart (skipping : Bool) : Reader (Option (List Char)) := do
  match (← get) with
  | '.' :: r =>
    set r
    let ds ← digits
    if ds.isEmpty then missingDigit skipping else return some ds
  | _ => return none

def naturalOf (ds : List Char) : Nat := ds.foldl (fun n c => 10 * n + (c.toNat - 48)) 0

def exponentPart (skipping : Bool) : Reader (Option Int) := do
  match (← get) with
  | e :: r =>
    if e ≠ 'e' ∧ e ≠ 'E' then return none
    let (negative, r) := match r with
      | '+' :: r => (false, r)
      | '-' :: r => (true, r)
      | r => (false, r)
    set r
    let ds ← digits
    if ds.isEmpty then missingDigit skipping
    else return some (if negative then -(naturalOf ds : Int) else naturalOf ds)
  | [] => return none

/-- The number at the front, whose sign or first digit has been seen. -/
def numeral (skipping : Bool) : Reader Numeral := do
  let negative ← match (← get) with
    | '-' :: r => do set r; pure true
    | _ => pure false
  let whole ← wholePart skipping
  let fraction ← fractionPart skipping
  let exponent ← exponentPart skipping
  return ⟨negative, whole, fraction, exponent⟩

/-- Too large for a double: at least half a unit above the greatest finite one. -/
def Numeral.overflows (n : Numeral) : Bool :=
  let frac := n.fraction.getD []
  let significand := (n.whole ++ frac).dropWhile (· == '0')
  let exponent : Int := n.exponent.getD 0 - frac.length
  let places : Int := significand.length + exponent
  !significand.isEmpty && (places > 309 ||
    (places == 309 && (0x3FFFFFFFFFFFFF <<< 970) * Nat.pow 10 (-exponent).toNat ≤
      naturalOf significand * Nat.pow 10 exponent.toNat))

/-- The integer a numeral stands for, unless it has a point or an exponent, is minus zero, or does
not fit 64 bits. -/
def Numeral.int? (n : Numeral) : Option Int :=
  if n.fraction.isSome || n.exponent.isSome then none else
  let v := naturalOf n.whole
  if n.negative then (if 0 < v ∧ v ≤ 0x8000000000000000 then some (-(v : Int)) else none)
  else if v < 0x10000000000000000 then some v else none

/-- A number that is kept: one too large for a double breaks the grammar. -/
def number : Reader Numeral := do
  let n ← numeral false
  if n.int?.isNone && n.overflows then fail .syntaxError else return n

/-! ## Strings -/

def hexFour (s : List Char) : Except Fault (Nat × List Char) :=
  let four := s.take 4
  if four.foldl (fun n c => n + c.utf8Size) 0 < 4 then .error .endOfText
  else match four.mapM Bytes.hexValue? with
    | some [a, b, c, d] => .ok (((a * 16 + b) * 16 + c) * 16 + d, s.drop 4)
    | _ => .error .syntaxError

def isHighSurrogate (n : Nat) : Bool := 0xD800 ≤ n && n ≤ 0xDBFF

def isLowSurrogate (n : Nat) : Bool := 0xDC00 ≤ n && n ≤ 0xDFFF

/-- A character given by its number; above the first plane by two halves of a pair. -/
def unicodeEscape (s : List Char) : Except Fault (Char × List Char) := do
  let (n, s) ← hexFour s
  if isLowSurrogate n then .error .syntaxError
  else if isHighSurrogate n then
    match s with
    | [] | ['\\'] => .error .endOfText
    | '\\' :: 'u' :: s =>
      let (m, s) ← hexFour s
      if isLowSurrogate m then
        .ok (Char.ofNat (0x10000 + (n - 0xD800) * 0x400 + (m - 0xDC00)), s)
      else .error .syntaxError
    | _ => .error .syntaxError
  else .ok (Char.ofNat n, s)

def simpleEscape? (c : Char) : Option Char :=
  if c = '"' ∨ c = '\\' ∨ c = '/' then some c
  else if c = 'b' then some (Char.ofNat 8)
  else if c = 'f' then some (Char.ofNat 12)
  else if c = 'n' then some '\n'
  else if c = 'r' then some '\r'
  else if c = 't' then some '\t'
  else none

/-- What follows a backslash. A skipping reader takes any four digits for a character. -/
def escapeAt (skipping : Bool) : List Char → Except Fault (Char × List Char)
  | [] => .error .endOfText
  | 'u' :: s =>
    if skipping then (hexFour s).map fun p => (Bytes.replacement, p.2) else unicodeEscape s
  | c :: s =>
    match simpleEscape? c with
    | some x => .ok (x, s)
    | none => .error .syntaxError

/-- The rest of a string behind its opening quote, for at most `fuel` characters. -/
def stringBody (skipping : Bool) :
    Nat → List Char → List Char → Except Fault (List Char × List Char)
  | 0, _, _ => .error .endOfText
  | _ + 1, _, [] => .error .endOfText
  | fuel + 1, acc, c :: s =>
    if c = '"' then .ok (acc.reverse, s)
    else if c = '\\' then do
      let (x, s) ← escapeAt skipping s
      stringBody skipping fuel (x :: acc) s
    else if c.toNat < 32 then .error .syntaxError
    else stringBody skipping fuel (c :: acc) s

/-- A string, whose opening quote has been seen. -/
def quoted (skipping : Bool) : Reader String := do
  let s ← get
  let (cs, rest) ← stringBody skipping (s.length + 1) [] (s.drop 1)
  set rest
  return String.ofList cs

/-! ## Items and members

The loops take one unit of fuel an item; every item takes at least one character. -/

def items {α : Type} (item : Reader α) : Nat → Bool → List α → Reader (List α)
  | 0, _, _ => fail .endOfText
  | fuel + 1, first, acc => do
    match (← peek) with
    | none => fail .endOfText
    | some ']' => return acc.reverse
    | some c =>
      if first then items item fuel false ((← item) :: acc)
      else if c = ',' then do
        drop 1
        match (← peek) with
        | none => fail .endOfText
        | some ']' => fail .syntaxError
        | some _ => items item fuel false ((← item) :: acc)
      else fail .syntaxError

def colon : Reader Unit := do
  match (← peek) with
  | none => fail .endOfText
  | some ':' => drop 1
  | some _ => fail .syntaxError

/-- The next key of an object, or that there is none; the closing brace stays. -/
def key? (skipping first : Bool) : Reader (Option String) := do
  match (← peek) with
  | none => fail .endOfText
  | some '}' => return none
  | some c =>
    if first then
      if c = '"' then return some (← quoted skipping) else fail .syntaxError
    else if c = ',' then do
      drop 1
      match (← peek) with
      | none => fail .endOfText
      | some '"' => return some (← quoted skipping)
      | some _ => fail .syntaxError
    else fail .syntaxError

/-- Reads members by `member`, which is given the key and stands before the colon. -/
def members {σ : Type} (skipping : Bool) (member : String → σ → Reader σ) :
    Nat → Bool → σ → Reader σ
  | 0, _, _ => fail .endOfText
  | fuel + 1, first, acc => do
    match (← key? skipping first) with
    | none => return acc
    | some k => members skipping member fuel false (← member k acc)

/-- More than the items the rest of the text can hold. -/
def bound : Reader Nat := return (← get).length + 1

/-- Nothing but white space may follow. -/
def finish : Reader Unit := do
  match (← peek) with
  | none => pure ()
  | some _ => fail .syntaxError

def run {α : Type} (r : Reader α) (s : String) : Except Fault α :=
  (StateT.run (do let a ← r; finish; return a) s.toList).map (·.1)

end Reader
end PingDelivery.Json
