import PingDelivery.Text.Digits

/-! # Values read from whole texts

Numbers, truth values and characters as they stand in variables: nothing may stand beside them, not
even blanks. Digits are taken from the left, so of two faults the first one met is named. -/

namespace PingDelivery.Text

inductive Unreadable where
  | noDigits
  | notADigit
  | tooLarge
  | tooSmall
  | notBoolean
  | noCharacter
  | manyCharacters
  deriving DecidableEq, Repr

def Unreadable.text : Unreadable → String
  | noDigits => "cannot parse integer from empty string"
  | notADigit => "invalid digit found in string"
  | tooLarge => "number too large to fit in target type"
  | tooSmall => "number too small to fit in target type"
  | notBoolean => "provided string was not `true` or `false`"
  | noCharacter => "cannot parse char from empty string"
  | manyCharacters => "too many characters in string"

/-- Digits up to a limit, behind those that make `n`. -/
def digitsUpTo (limit : Nat) (fault : Unreadable) : Nat → List Char → Except Unreadable Nat
  | n, [] => .ok n
  | n, c :: r =>
    if ¬ c.isDigit then .error .notADigit
    else
      let n := n * 10 + (c.toNat - 48)
      if limit < n then .error fault else digitsUpTo limit fault n r

theorem le_of_digitsUpTo {limit n m : Nat} {fault : Unreadable} {s : List Char}
    (h : digitsUpTo limit fault n s = .ok m) (hn : n ≤ limit) : m ≤ limit := by
  fun_induction digitsUpTo limit fault n s with
  | case1 n => cases h; exact hn
  | case2 => cases h
  | case3 => cases h
  | case4 _ _ _ _ _ hle ih => exact ih h (Nat.le_of_not_lt hle)

/-- A number from 0 up to the limit; a plus sign may stand in front. -/
def readNat (limit : Nat) (s : String) : Except Unreadable Nat :=
  match s.toList with
  | [] => .error .noDigits
  | '+' :: c :: r => digitsUpTo limit .tooLarge 0 (c :: r)
  | cs => digitsUpTo limit .tooLarge 0 cs

/-- A number of so many bits with a sign. -/
def readInt (bits : Nat) (s : String) : Except Unreadable Int :=
  match s.toList with
  | '-' :: c :: r =>
    (digitsUpTo (Nat.pow 2 (bits - 1)) .tooSmall 0 (c :: r)).map fun (n : Nat) => -(n : Int)
  | _ => (readNat (Nat.pow 2 (bits - 1) - 1) s).map Int.ofNat

def readBool (s : String) : Except Unreadable Bool :=
  if s = "true" then .ok true else if s = "false" then .ok false else .error .notBoolean

def readChar (s : String) : Except Unreadable Char :=
  match s.toList with
  | [] => .error .noCharacter
  | [c] => .ok c
  | _ => .error .manyCharacters

end PingDelivery.Text
