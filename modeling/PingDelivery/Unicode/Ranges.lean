import PingDelivery.Bytes

/-! # Sets of characters

Properties of characters are data of the Unicode standard. A set is written as words, one for each
range in ascending order: how far its first character is from the last one of the range before, and
behind a hyphen, if it has more than one character, how many more. Numbers are hexadecimal. -/

namespace PingDelivery.Unicode

/-- Texts between blanks and line ends. -/
def words (s : String) : List (List Char) :=
  (s.toList.foldr (fun c acc =>
    if c = ' ' ∨ c = '\n' then [] :: acc
    else match acc with
      | w :: r => (c :: w) :: r
      | [] => [[c]]) [[]]).filter (!·.isEmpty)

def number (s : List Char) : Nat := s.foldl (fun n c => 16 * n + (Bytes.hexValue? c).getD 0) 0

/-- The parts of a word before and behind a sign; the second is empty without one. -/
def parts (sign : Char) (w : List Char) : List Char × List Char :=
  let front := w.takeWhile (· ≠ sign)
  (front, w.drop (front.length + 1))

structure Ranges where
  bounds : List (Nat × Nat)

namespace Ranges

def collect : Nat → List (List Char) → List (Nat × Nat)
  | _, [] => []
  | last, w :: ws =>
    let (gap, more) := parts '-' w
    let first := last + number gap
    (first, first + number more) :: collect (first + number more) ws

def ofText (s : String) : Ranges := ⟨collect 0 (words s)⟩

def contains (r : Ranges) (c : Char) : Bool := r.bounds.any fun b => b.1 ≤ c.toNat && c.toNat ≤ b.2

end Ranges
end PingDelivery.Unicode
