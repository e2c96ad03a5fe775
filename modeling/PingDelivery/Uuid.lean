import PingDelivery.Bytes

/-! # Identifiers of 128 bits

A `Uuid` is sixteen octets. Its canonical text is 32 lower-case digits in groups of 8, 4, 4, 4
and 12; `parse?` reads that text in either case, plain digits, and the braced and `urn:uuid:`
forms of the hyphenated text. -/

namespace PingDelivery

structure Uuid where
  octets : Bytes
  length_octets : octets.length = 16
  deriving DecidableEq

namespace Uuid

def ofOctets? (b : Bytes) : Option Uuid :=
  if h : b.length = 16 then some ⟨b, h⟩ else none

@[simp] theorem ofOctets?_octets (u : Uuid) : ofOctets? u.octets = some u := by
  simp [ofOctets?, u.length_octets]

/-- Lengths of the groups of the canonical text, in digits. -/
def groups : List Nat := [8, 4, 4, 4, 12]

/-- Joins groups of the given lengths by hyphens; the last group takes what is left. -/
def hyphenate : List Nat → List Char → List Char
  | n :: m :: r, s => s.take n ++ '-' :: hyphenate (m :: r) (s.drop n)
  | _, s => s

def unhyphenate : List Nat → List Char → Option (List Char)
  | n :: m :: r, s =>
    if (s.drop n).head? = some '-' then
      (unhyphenate (m :: r) (s.drop (n + 1))).map (s.take n ++ ·)
    else none
  | _, s => some s

def chars (u : Uuid) : List Char := hyphenate groups u.octets.hexChars

def text (u : Uuid) : String := String.ofList u.chars

instance : ToString Uuid := ⟨text⟩

def ofDigits? (s : List Char) : Option Uuid := (Bytes.ofHexChars? s).bind ofOctets?

def ofHyphenated? (s : List Char) : Option Uuid := (unhyphenate groups s).bind ofDigits?

/-- The form is told by the length: 32 digits, 36 hyphenated, 38 braced, 45 with the urn scheme. -/
def parseChars? (s : List Char) : Option Uuid :=
  if s.length = 32 then ofDigits? s
  else if s.length = 36 then ofHyphenated? s
  else if s.length = 38 ∧ s.head? = some '{' ∧ s.getLast? = some '}' then
    ofHyphenated? ((s.drop 1).take 36)
  else if s.length = 45 ∧ s.take 9 = "urn:uuid:".toList then ofHyphenated? (s.drop 9)
  else none

def parse? (s : String) : Option Uuid := parseChars? s.toList

/-! ## Drawn identifiers -/

def octetsOf (n : Nat) : Bytes :=
  (List.range 16).map fun i => UInt8.ofNat (n / Nat.pow 256 (15 - i))

/-- The number as 128 bits, with the version set to 4 and the variant to the standard one. -/
def drawn (n : Nat) : Uuid :=
  let b := octetsOf n
  ⟨(b.modify 6 fun x => (x &&& 0x0F) ||| 0x40).modify 8 fun x => (x &&& 0x3F) ||| 0x80,
    by simp [b, octetsOf]⟩

end Uuid
end PingDelivery
