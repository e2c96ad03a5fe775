/-! # Bytes and their UTF-8 reading

Payloads, records and files are lists of bytes. `text?` reads them as UTF-8 and refuses anything
else; `lossyText` never refuses: it puts one replacement character for each longest piece that
starts a character and does not finish it. `split` is the one step both readings of ill-formed
input rest on: it says where the next character, or the next broken piece, ends. -/

namespace PingDelivery

abbrev Bytes := List UInt8

namespace Bytes

def ofText (s : String) : Bytes := s.toUTF8.toList

def text? (b : Bytes) : Option String := String.fromUTF8? ⟨b.toArray⟩

def hexDigit (n : Nat) : Char := if n < 10 then Char.ofNat (48 + n) else Char.ofNat (87 + n)

def hexValue? (c : Char) : Option Nat :=
  if '0' ≤ c ∧ c ≤ '9' then some (c.toNat - 48)
  else if 'a' ≤ c ∧ c ≤ 'f' then some (c.toNat - 87)
  else if 'A' ≤ c ∧ c ≤ 'F' then some (c.toNat - 55)
  else none

theorem hexValue?_hexDigit {n : Nat} (h : n < 16) : hexValue? (hexDigit n) = some n := by
  have hall : ∀ m ∈ List.range 16, hexValue? (hexDigit m) = some m := by decide
  exact hall n (List.mem_range.2 h)

def hexPair (b : UInt8) : List Char := [hexDigit (b.toNat / 16), hexDigit (b.toNat % 16)]

def hexChars (b : Bytes) : List Char := b.flatMap hexPair

/-- Two lower-case digits a byte. -/
def hex (b : Bytes) : String := String.ofList b.hexChars

def ofHexChars? : List Char → Option Bytes
  | [] => some []
  | [_] => none
  | a :: b :: r => do
    let hi ← hexValue? a
    let lo ← hexValue? b
    let rest ← ofHexChars? r
    return UInt8.ofNat (16 * hi + lo) :: rest

def ofHex? (s : String) : Option Bytes := ofHexChars? s.toList

theorem ofHexChars?_hexChars (b : Bytes) : ofHexChars? b.hexChars = some b := by
  induction b with
  | nil => rfl
  | cons x r ih =>
    have hx := x.toNat_lt
    simp only [hexChars, List.flatMap_cons, hexPair, List.cons_append, List.nil_append] at ih ⊢
    simp only [ofHexChars?, hexValue?_hexDigit (show x.toNat / 16 < 16 by omega),
      hexValue?_hexDigit (show x.toNat % 16 < 16 by omega), ih]
    simp only [Option.bind_eq_bind, Option.bind_some, Option.pure_def, Option.some.injEq,
      List.cons.injEq, and_true]
    rw [Nat.div_add_mod]
    simp

/-! ## Ill-formed UTF-8 -/

def isContinuation (b : UInt8) : Bool := 0x80 ≤ b && b < 0xC0

/-- Which second bytes may follow a first byte, and how long the character is then. -/
def leads (b : UInt8) : Option (Nat × UInt8 × UInt8) :=
  if 0xC2 ≤ b ∧ b ≤ 0xDF then some (2, 0x80, 0xBF)
  else if b = 0xE0 then some (3, 0xA0, 0xBF)
  else if b = 0xED then some (3, 0x80, 0x9F)
  else if 0xE1 ≤ b ∧ b ≤ 0xEF then some (3, 0x80, 0xBF)
  else if b = 0xF0 then some (4, 0x90, 0xBF)
  else if 0xF1 ≤ b ∧ b ≤ 0xF3 then some (4, 0x80, 0xBF)
  else if b = 0xF4 then some (4, 0x80, 0x8F)
  else none

def replacement : Char := Char.ofNat 0xFFFD

def joined (mask : Nat) (b : UInt8) (tail : Bytes) : Char :=
  Char.ofNat (tail.foldl (fun n c => n * 64 + c.toNat % 64) (b.toNat % mask))

/-- The character at the front, or the replacement for a broken piece, and how many more bytes
after the first it takes. -/
def split (b : UInt8) (rest : Bytes) : Char × Nat :=
  if b < 0x80 then (Char.ofNat b.toNat, 0) else
  match leads b with
  | none => (replacement, 0)
  | some (width, lo, hi) =>
    match rest with
    | [] => (replacement, 0)
    | c :: rest' =>
      if ¬ (lo ≤ c ∧ c ≤ hi) then (replacement, 0) else
      let more := (rest'.take (width - 2)).takeWhile isContinuation
      if more.length = width - 2 then
        (joined (0x80 >>> width) b (c :: more), width - 1)
      else (replacement, 1 + more.length)

/-- Reads every byte list, with a replacement character for each broken piece. -/
def lossyChars : Bytes → List Char
  | [] => []
  | b :: rest => (split b rest).1 :: lossyChars (rest.drop (split b rest).2)
termination_by b => b.length
decreasing_by simp only [List.length_drop, List.length_cons]; omega

def lossyText (b : Bytes) : String := String.ofList b.lossyChars

end Bytes
end PingDelivery
