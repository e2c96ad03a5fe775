import PingDelivery.Text.Blank
import PingDelivery.Text.Digits
import PingDelivery.Time.Instant

/-! # Times as RFC 3339 text

`write` gives the one canonical text in UTC, with as many decimals as the value needs in groups of
three; `writeMillis` always gives three, the rest cut off. `read?` is lenient: blanks before
numbers and around separators, one-digit fields, signed years, any offset below a day. -/

namespace PingDelivery.Time.Rfc3339

/-- Four digits, and a sign where four do not hold the year. -/
def yearChars (y : Int) : List Char :=
  if 0 ≤ y ∧ y ≤ 9999 then Text.padded 4 y.toNat
  else (if y < 0 then '-' else '+') :: Text.padded 4 y.natAbs

def dateChars (d : Date) : List Char :=
  yearChars d.year ++ '-' :: Text.padded 2 d.month ++ '-' :: Text.padded 2 d.day

def clockChars (t : Instant) : List Char :=
  Text.padded 2 t.hour ++ ':' :: Text.padded 2 t.minute ++ ':' :: Text.padded 2 t.second

def fractionChars (n : Nat) : List Char :=
  if n = 0 then []
  else if n % 1000000 = 0 then '.' :: Text.padded 3 (n / 1000000)
  else if n % 1000 = 0 then '.' :: Text.padded 6 (n / 1000)
  else '.' :: Text.padded 9 n

def chars (t : Instant) : List Char :=
  dateChars t.date ++ 'T' :: clockChars t ++ fractionChars t.fraction ++ ['Z']

def write (t : Instant) : String := String.ofList (chars t)

def writeMillis (t : Instant) : String :=
  String.ofList (dateChars t.date ++ 'T' :: clockChars t ++
    '.' :: Text.padded 3 (t.fraction / 1000000) ++ ['Z'])

/-- Six decimals, as log lines show times. -/
def writeMicros (t : Instant) : String :=
  String.ofList (dateChars t.date ++ 'T' :: clockChars t ++
    '.' :: Text.padded 6 (t.fraction / 1000) ++ ['Z'])

/-! ## Reading -/

abbrev Scan (α : Type) := List Char → Option (α × List Char)

def digitsValue (ds : List Char) : Nat := ds.foldl (fun n c => 10 * n + (c.toNat - 48)) 0

/-- At least one digit and at most `max`. -/
def scanDigits (max : Nat) : Scan Nat := fun s =>
  let ds := (s.take max).takeWhile Char.isDigit
  if ds.isEmpty then none else some (digitsValue ds, s.drop ds.length)

/-- A number after any blanks. -/
def scanNumber (max : Nat) : Scan Nat := fun s => scanDigits max (Text.trimStart s)

/-- Four digits at most, or a sign and any number of them. -/
def scanYear : Scan Int := fun s =>
  match Text.trimStart s with
  | '-' :: r => (scanDigits r.length r).map fun (n, r) => (-(n : Int), r)
  | '+' :: r => (scanDigits r.length r).map fun (n, r) => ((n : Int), r)
  | r => (scanDigits 4 r).map fun (n, r) => ((n : Int), r)

/-- A separator, with blanks before it. -/
def scanMark (c : Char) : Scan Unit := fun s =>
  match Text.trimStart s with
  | x :: r => if x = c then some ((), r) else none
  | [] => none

/-- Nanoseconds of the digits after a point; digits past the ninth are skipped. -/
def scanFraction : Scan Nat
  | '.' :: r =>
    let ds := r.takeWhile Char.isDigit
    if ds.isEmpty then none
    else
      let kept := ds.take 9
      some (digitsValue kept * Nat.pow 10 (9 - kept.length), r.drop ds.length)
  | s => some (0, s)

def scanTwoDigits : Scan Nat
  | a :: b :: r =>
    if a.isDigit && b.isDigit then some (digitsValue [a, b], r) else none
  | _ => none

/-- Seconds east of UTC: a letter Z or the name UTC in either case, or a sign, two digits of
hours, colons or blanks, and two digits of minutes. -/
def scanOffset : Scan Int := fun s =>
  match s with
  | 'Z' :: r | 'z' :: r => some (0, r)
  | sign :: r =>
    if (s.take 3).map Char.toLower = ['u', 't', 'c'] then some (0, s.drop 3)
    else if sign = '+' ∨ sign = '-' ∨ sign = Char.ofNat 0x2212 then do
      let (h, r) ← scanTwoDigits r
      let (m, r) ← scanTwoDigits (r.dropWhile fun c => c == ':' || Text.isBlank c)
      if 59 < m then none else
      let east : Int := h * 3600 + m * 60
      some (if sign = '+' then east else -east, r)
    else none
  | [] => none

structure Fields where
  date : Date
  hour : Nat
  minute : Nat
  second : Nat
  nanos : Nat
  offset : Int

def scanFields : Scan Fields := fun s => do
  let (year, s) ← scanYear s
  let (_, s) ← scanMark '-' s
  let (month, s) ← scanNumber 2 s
  let (_, s) ← scanMark '-' s
  let (day, s) ← scanNumber 2 s
  let s ← match s with
    | 'T' :: r | 't' :: r | ' ' :: r => some r
    | _ => none
  let (hour, s) ← scanNumber 2 s
  let (_, s) ← scanMark ':' s
  let (minute, s) ← scanNumber 2 s
  let (_, s) ← scanMark ':' s
  let (second, s) ← scanNumber 2 s
  let (nanos, s) ← scanFraction s
  let (offset, s) ← scanOffset (Text.trimStart s)
  return (⟨⟨year, month, day⟩, hour, minute, second, nanos, offset⟩, s)

/-- The instant that the fields name, if the date exists, the clock shows it and the year can be
written before the offset is taken off. Second 60 is the leap second of its minute. -/
def Fields.instant? (f : Fields) : Option Instant :=
  if f.date.Valid ∧ -262143 ≤ f.date.year ∧ f.date.year ≤ 262142 ∧ f.hour ≤ 23 ∧ f.minute ≤ 59 ∧
      f.second ≤ 60 ∧ -86400 < f.offset ∧ f.offset < 86400 then
    let leap := f.second = 60
    let clock : Int := f.hour * 3600 + f.minute * 60 + (if leap then 59 else f.second)
    Instant.make? (f.date.toDays * 86400 + clock - f.offset)
      (if leap then f.nanos + 1000000000 else f.nanos)
  else none

def readChars? (s : List Char) : Option Instant := do
  let (fields, rest) ← scanFields s
  if rest.all Text.isBlank then fields.instant? else none

def read? (s : String) : Option Instant := readChars? s.toList

end PingDelivery.Time.Rfc3339
