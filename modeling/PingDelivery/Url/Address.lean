import PingDelivery.Bytes

/-! # Addresses of hosts

A host whose last label is a number is an address of four bytes; its numbers may be decimal, octal
or hexadecimal and the last one fills the bytes that are left. An address in brackets has eight
pieces of sixteen bits. -/

namespace PingDelivery.Url

/-- Pieces of a text between the separators. -/
def pieces (sep : Char) (s : List Char) : List (List Char) :=
  s.foldr (fun c acc =>
    if c = sep then [] :: acc
    else match acc with
      | p :: r => (c :: p) :: r
      | [] => [[c]]) [[]]

def valueIn (radix : Nat) (ds : List Char) : Option Nat :=
  ds.foldlM (fun n c => do
    let d ← Bytes.hexValue? c
    if d < radix then some (n * radix + d) else none) 0

/-- A number: hexadecimal behind 0x, octal behind another leading zero, else decimal. A bare 0x is
zero. -/
def addressNumber? (s : List Char) : Option Nat :=
  match s with
  | [] => none
  | '0' :: 'x' :: r | '0' :: 'X' :: r => valueIn 16 r
  | '0' :: c :: r => valueIn 8 (c :: r)
  | s => valueIn 10 s

/-- Labels of a host without the empty one behind a final point. -/
def labelsOf (host : List Char) : List (List Char) :=
  let ls := pieces '.' host
  if 1 < ls.length ∧ ls.getLast? = some [] then ls.dropLast else ls

def endsInNumber (host : List Char) : Bool :=
  match (labelsOf host).getLast? with
  | some [] | none => false
  | some l => l.all Char.isDigit || (addressNumber? l).isSome

/-- The address of 32 bits. -/
def ipv4? (host : List Char) : Option Nat := do
  let ls := labelsOf host
  if 4 < ls.length then none else
  let ns ← ls.mapM addressNumber?
  let last ← ns.getLast?
  let front := ns.dropLast
  if Nat.pow 256 (4 - front.length) ≤ last ∨ front.any (255 < ·) then none
  else some (front.zipIdx.foldl (fun sum p => sum + p.1 * Nat.pow 256 (3 - p.2)) last)

def ipv4Chars (n : Nat) : List Char :=
  ['.'].intercalate ([n / 0x1000000, n / 0x10000 % 256, n / 256 % 256, n % 256].map (Nat.toDigits 10))

/-! ## Eight pieces -/

/-- A byte in decimal, without a zero in front. -/
def decimalByte? (s : List Char) : Option Nat :=
  match s with
  | [] => none
  | '0' :: _ :: _ => none
  | s => do
    let n ← valueIn 10 s
    if n ≤ 255 then some n else none

/-- Four bytes in decimal as two pieces, at the end of an address. -/
def embedded? (s : List Char) : Option (List Nat) :=
  match (pieces '.' s).mapM decimalByte? with
  | some [a, b, c, d] => some [a * 256 + b, c * 256 + d]
  | _ => none

def piece? (s : List Char) : Option Nat :=
  if s.isEmpty ∨ 4 < s.length then none else valueIn 16 s

/-- Pieces between colons, of which the last may be four bytes in decimal. -/
def pieceList? : List (List Char) → Option (List Nat)
  | [] => some []
  | [l] => if l.contains '.' then embedded? l else (piece? l).map ([·])
  | l :: r => do
    let n ← piece? l
    let ns ← pieceList? r
    return n :: ns

/-- The text on both sides of the first two colons in a row. -/
def splitGap : List Char → Option (List Char × List Char)
  | ':' :: ':' :: r => some ([], r)
  | c :: r => (splitGap r).map fun (a, b) => (c :: a, b)
  | [] => none

def sidePieces? (s : List Char) : Option (List Nat) :=
  if s.isEmpty then some [] else pieceList? (pieces ':' s)

/-- The eight pieces; a double colon stands for the zeros that are missing, one at least. -/
def ipv6? (s : List Char) : Option (List Nat) :=
  match splitGap s with
  | none => do
    let ns ← sidePieces? s
    if ns.length = 8 then some ns else none
  | some (a, b) => do
    if a.contains '.' then none else
    let front ← sidePieces? a
    let back ← sidePieces? b
    if front.length + back.length ≤ 7 then
      some (front ++ List.replicate (8 - front.length - back.length) 0 ++ back)
    else none

/-- Length of the run of zeros at the front. -/
def zeroRun (ns : List Nat) : Nat := (ns.takeWhile (· == 0)).length

/-- Start and length of the first longest run of at least two zeros. -/
def longestGap (ns : List Nat) : Option (Nat × Nat) :=
  (List.range ns.length).foldl (fun best i =>
    let n := zeroRun (ns.drop i)
    match best with
    | some (_, m) => if m < n then some (i, n) else best
    | none => if 2 ≤ n then some (i, n) else none) none

def pieceChars (ns : List Nat) : List Char := [':'].intercalate (ns.map (Nat.toDigits 16))

def ipv6Chars (ns : List Nat) : List Char :=
  match longestGap ns with
  | none => pieceChars ns
  | some (i, n) => pieceChars (ns.take i) ++ [':', ':'] ++ pieceChars (ns.drop (i + n))

end PingDelivery.Url
