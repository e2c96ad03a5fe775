import PingDelivery.Json.Basic
import PingDelivery.Bytes
import PingDelivery.Time.Date

/-! # Scalars of TOML

Readers of strings, numbers, dates and bare words. They take characters from the front of a text or
fail; why a document is refused is not said. -/

namespace PingDelivery.Toml

abbrev Reader := StateT (List Char) Option

def isSpace (c : Char) : Bool := c == ' ' || c == '\t'

def skipSpace : Reader Unit := modify (·.dropWhile isSpace)

def take (c : Char) : Reader Unit := do
  match (← get) with
  | x :: r => if x = c then set r else failure
  | [] => failure

/-- Characters that may stand in a comment or a literal string. -/
def isPrintable (c : Char) : Bool := c == '\t' || (32 ≤ c.toNat && c.toNat != 127)

/-- A line end, if one stands here: a line feed with or without a carriage return. -/
def newline? : List Char → Option (List Char)
  | '\n' :: r => some r
  | '\r' :: '\n' :: r => some r
  | _ => none

/-! ## Strings -/

def scalar? (ds : List Char) : Option Char := do
  let n ← ds.foldlM (fun n c => do
    let d ← Bytes.hexValue? c
    return 16 * n + d) 0
  if n < 0xD800 ∨ (0xDFFF < n ∧ n < 0x110000) then some (Char.ofNat n) else none

/-- What follows a backslash. -/
def escape? : List Char → Option (Char × List Char)
  | 'b' :: r => some (Char.ofNat 8, r)
  | 't' :: r => some ('\t', r)
  | 'n' :: r => some ('\n', r)
  | 'f' :: r => some (Char.ofNat 12, r)
  | 'r' :: r => some ('\r', r)
  | '"' :: r => some ('"', r)
  | '\\' :: r => some ('\\', r)
  | 'u' :: r => if r.length < 4 then none else (scalar? (r.take 4)).map (·, r.drop 4)
  | 'U' :: r => if r.length < 8 then none else (scalar? (r.take 8)).map (·, r.drop 8)
  | _ => none

/-- A string on one line behind its opening quote. -/
def lineBody (quote : Char) (escapes : Bool) :
    Nat → List Char → List Char → Option (List Char × List Char)
  | 0, _, _ | _, _, [] => none
  | fuel + 1, acc, c :: r =>
    if c = quote then some (acc.reverse, r)
    else if c = '\\' ∧ escapes then do
      let (x, r) ← escape? r
      lineBody quote escapes fuel (x :: acc) r
    else if isPrintable c then lineBody quote escapes fuel (c :: acc) r
    else none

def skipFold : List Char → List Char
  | '\r' :: '\n' :: r => skipFold r
  | c :: r => if isSpace c || c == '\n' then skipFold r else c :: r
  | [] => []

/-- The text behind a backslash at the end of a line: blanks and line ends are passed over. -/
def foldedLine? (s : List Char) : Option (List Char) :=
  (newline? (s.dropWhile isSpace)).map skipFold

/-- A string over several lines behind its three opening quotes. Of more than three quotes in a
row at the end the last three close it. -/
def textBody (quote : Char) (escapes : Bool) :
    Nat → List Char → List Char → Option (List Char × List Char)
  | 0, _, _ | _, _, [] => none
  | fuel + 1, acc, c :: r =>
    if c = quote then
      let n := (r.takeWhile (· = quote)).length + 1
      if n < 3 then textBody quote escapes fuel (c :: acc) r
      else if n ≤ 5 then some (acc.reverse ++ List.replicate (n - 3) quote, r.drop (n - 1))
      else none
    else if c = '\\' ∧ escapes then
      match foldedLine? r with
      | some r => textBody quote escapes fuel acc r
      | none => do
        let (x, r) ← escape? r
        textBody quote escapes fuel (x :: acc) r
    else match newline? (c :: r) with
      | some r => textBody quote escapes fuel ('\n' :: acc) r
      | none => if isPrintable c then textBody quote escapes fuel (c :: acc) r else none

def lineString (quote : Char) : Reader String := do
  let s ← get
  match lineBody quote (quote == '"') (s.length + 1) [] s with
  | some (cs, r) => set r; return String.ofList cs
  | none => failure

/-- The line end right behind the opening quotes does not count. -/
def textString (quote : Char) : Reader String := do
  let s ← get
  let s := (newline? s).getD s
  match textBody quote (quote == '"') (s.length + 1) [] s with
  | some (cs, r) => set r; return String.ofList cs
  | none => failure

/-- A string of either kind, whose first quote stands here. -/
def quoted (quote : Char) : Reader String := do
  match (← get) with
  | a :: b :: c :: r =>
    if a = quote ∧ b = quote ∧ c = quote then set r; textString quote
    else set (b :: c :: r); lineString quote
  | _ :: r => set r; lineString quote
  | [] => failure

/-! ## Numbers -/

/-- Digits of a radix, with single underscores between them. -/
def digits? (radix : Nat) : List Char → Option Nat
  | [] => none
  | s =>
    if s.head? = some '_' ∨ s.getLast? = some '_' then none
    else (s.foldlM (fun (acc : Nat × Bool) c => do
      if c = '_' then if acc.2 then none else some (acc.1, true)
      else
        let d ← Bytes.hexValue? c
        if d < radix then some (acc.1 * radix + d, false) else none) (0, false)).map (fun (p : Nat × Bool) => p.1)

/-- A number without a zero in front. -/
def decimal? (s : List Char) : Option Nat :=
  match s with
  | '0' :: _ :: _ => none
  | s => digits? 10 s

def inRange? (n : Int) : Option Int := if -0x8000000000000000 ≤ n ∧ n < 0x8000000000000000 then some n else none

def unsigned (s : List Char) : Bool × List Char :=
  match s with
  | '+' :: r => (false, r)
  | '-' :: r => (true, r)
  | r => (false, r)

def integer? (s : List Char) : Option Int :=
  match s with
  | '0' :: 'x' :: r => (digits? 16 r).bind fun n => inRange? n
  | '0' :: 'o' :: r => (digits? 8 r).bind fun n => inRange? n
  | '0' :: 'b' :: r => (digits? 2 r).bind fun n => inRange? n
  | s =>
    let (negative, ds) := unsigned s
    (decimal? ds).bind fun n => inRange? (if negative then -(n : Int) else n)

def digitsOf (s : List Char) : List Char := s.takeWhile fun c => c.isDigit || c == '_'

/-- A whole part, and a fraction or an exponent or both: the digits without their point, how many of
them stand behind it, and the exponent. -/
def real? (s : List Char) : Option (Nat × Nat × Int) := do
  let whole := digitsOf s
  let w ← decimal? whole
  let exponent? (r : List Char) : Option Int := do
    let (negative, ds) := unsigned r
    let n ← digits? 10 ds
    return if negative then -(n : Int) else n
  match s.drop whole.length with
  | '.' :: r =>
    let frac := digitsOf r
    let f ← digits? 10 frac
    let places := (frac.filter Char.isDigit).length
    match r.drop frac.length with
    | [] => return (w * Nat.pow 10 places + f, places, 0)
    | e :: r =>
      if e = 'e' ∨ e = 'E' then return (w * Nat.pow 10 places + f, places, ← exponent? r) else none
  | e :: r => if e = 'e' ∨ e = 'E' then return (w, 0, ← exponent? r) else none
  | [] => none

/-- The least value that no finite binary number of 64 bits is nearest to. -/
def overflowAt : Nat := 0x3FFFFFFFFFFFFF <<< 970

/-- Whether `n` over ten to the `places`, times ten to the exponent, is too large for 64 bits. -/
def isTooLarge (n places : Nat) (exponent : Int) : Bool :=
  let shift := exponent - places
  n ≠ 0 && if 310 ≤ shift then true
    else if 0 ≤ shift then decide (overflowAt ≤ n * Nat.pow 10 shift.toNat)
    else if -(((n.log2 : Nat) : Int)) ≤ shift then decide (overflowAt * Nat.pow 10 (-shift).toNat ≤ n)
    else false

/-- A number with a fraction or an exponent, or a word for none; one that is too large is refused
unless it is negative. -/
def isFloat (s : List Char) : Bool :=
  let (negative, s) := unsigned s
  if s = "inf".toList ∨ s = "nan".toList then true
  else match real? s with
    | some (n, places, exponent) => negative || !isTooLarge n places exponent
    | none => false

/-! ## Dates and times -/

/-- Exactly so many digits. -/
def fixed? (n : Nat) (s : List Char) : Option (Nat × List Char) :=
  let ds := s.take n
  if ds.length = n ∧ ds.all Char.isDigit then (digits? 10 ds).map (·, s.drop n) else none

def mark? (c : Char) (s : List Char) : Option (List Char) :=
  if s.head? = some c then some (s.drop 1) else none

def date? (s : List Char) : Option (List Char) := do
  let (y, s) ← fixed? 4 s
  let s ← mark? '-' s
  let (m, s) ← fixed? 2 s
  let s ← mark? '-' s
  let (d, s) ← fixed? 2 s
  if (Time.Date.mk y m d).Valid then some s else none

def time? (s : List Char) : Option (List Char) := do
  let (h, s) ← fixed? 2 s
  let s ← mark? ':' s
  let (m, s) ← fixed? 2 s
  let s ← mark? ':' s
  let (sec, s) ← fixed? 2 s
  if 23 < h ∨ 59 < m ∨ 60 < sec then none else
  match s with
  | '.' :: r =>
    let frac := r.takeWhile Char.isDigit
    if frac.isEmpty then none else some (r.drop frac.length)
  | s => some s

def offset? (s : List Char) : Option (List Char) :=
  match s with
  | 'Z' :: r | 'z' :: r => some r
  | sign :: r => do
    if sign ≠ '+' ∧ sign ≠ '-' then none else
    let (h, r) ← fixed? 2 r
    let r ← mark? ':' r
    let (m, r) ← fixed? 2 r
    if 23 < h ∨ 59 < m then none else some r
  | [] => none

/-- A date, a time, or both, and then perhaps with an offset. -/
def isDateTime (s : List Char) : Bool :=
  match date? s with
  | some [] => true
  | some (sep :: r) =>
    (sep == 'T' || sep == 't' || sep == ' ') && match time? r with
      | some [] => true
      | some r => offset? r == some []
      | none => false
  | none => time? s == some []

def isWordChar (c : Char) : Bool :=
  c.isAlphanum || c == '+' || c == '-' || c == '_' || c == '.' || c == ':'

/-- The word that stands here; a date takes the time behind a blank with it. -/
def word : Reader (List Char) := do
  let s ← get
  let first := s.takeWhile isWordChar
  let rest := s.drop first.length
  match date? first, rest with
  | some [], ' ' :: r =>
    let second := r.takeWhile isWordChar
    if (second.take 2).all Char.isDigit ∧ (second.drop 2).head? = some ':' then
      set (r.drop second.length)
      return first ++ ' ' :: second
    else set rest; return first
  | _, _ => set rest; return first

/-- The member under which a date or time appears among other values. -/
def dateTimeKey : String := "datetime"

/-- A bare value; dates and times become an object of one member. -/
def scalar : Reader Json := do
  let w ← word
  if w = "true".toList then return .bool true
  else if w = "false".toList then return .bool false
  else match integer? w with
    | some n => return .int n
    | none =>
      if isFloat w then return .real (String.ofList w)
      else if isDateTime w then return .obj [(dateTimeKey, .str (String.ofList w))]
      else failure

end PingDelivery.Toml
