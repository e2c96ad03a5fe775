/-! # Punycode

The form in ASCII of a label: its ASCII characters, and behind the last hyphen where the others go.
Those are put in by rising code point, each as the distance from the one before; distances are
written with digits of base 36 whose thresholds follow the sizes seen so far. -/

namespace PingDelivery.Url.Punycode

/-- Letters stand for 0 to 25, digits for 26 to 35. -/
def digit (n : Nat) : Char := if n < 26 then Char.ofNat (97 + n) else Char.ofNat (22 + n)

def value? (c : Char) : Option Nat :=
  if 'a' ≤ c ∧ c ≤ 'z' then some (c.toNat - 97)
  else if 'A' ≤ c ∧ c ≤ 'Z' then some (c.toNat - 65)
  else if '0' ≤ c ∧ c ≤ '9' then some (c.toNat - 22)
  else none

theorem value?_digit {n : Nat} (h : n < 36) : value? (digit n) = some n := by
  have hall : ∀ m ∈ List.range 36, value? (digit m) = some m := by decide
  exact hall n (List.mem_range.2 h)

/-- A digit below the threshold of its place is the last one of a number. -/
def threshold (place bias : Nat) : Nat := Nat.max 1 (Nat.min 26 (36 * place - bias))

theorem threshold_pos (place bias : Nat) : 0 < threshold place bias :=
  Nat.lt_of_lt_of_le Nat.one_pos (Nat.le_max_left ..)

theorem threshold_lt (place bias : Nat) : threshold place bias < 36 := by
  simp only [threshold, Nat.max_def, Nat.min_def]
  split <;> split <;> omega

def settle (places delta : Nat) : Nat :=
  if 455 < delta then settle (places + 1) (delta / 35)
  else 36 * places + 36 * delta / (delta + 38)
termination_by delta
decreasing_by exact Nat.div_lt_self (by omega) (by omega)

/-- The bias after a number, of which `count` there are with it; the first one weighs less. -/
def adapt (delta count : Nat) (first : Bool) : Nat :=
  let d := if first then delta / 700 else delta / 2
  settle 0 (d + d / count)

/-! ## Writing -/

def digitsOf (bias place q : Nat) : List Char :=
  let t := threshold place bias
  if q < t then [digit q]
  else digit (t + (q - t) % (36 - t)) :: digitsOf bias (place + 1) ((q - t) / (36 - t))
termination_by q
decreasing_by
  have ht := threshold_pos place bias
  exact Nat.lt_of_le_of_lt (Nat.div_le_self ..) (by omega)

structure Writer where
  delta : Nat
  bias : Nat
  handled : Nat
  written : List Char

/-- Passes one character of the label while those of code point `m` are put in. -/
def pass (basic m : Nat) (w : Writer) (c : Char) : Writer :=
  if c.toNat < m then { w with delta := w.delta + 1 }
  else if c.toNat = m then
    ⟨0, adapt w.delta (w.handled + 1) (w.handled == basic), w.handled + 1,
      w.written ++ digitsOf w.bias 1 w.delta⟩
  else w

def sweep (label : List Char) (basic : Nat) : Nat → List Nat → Writer → Writer
  | _, [], w => w
  | n, m :: ms, w =>
    let w := { w with delta := w.delta + (m - n) * (w.handled + 1) }
    let w := label.foldl (pass basic m) w
    sweep label basic (m + 1) ms { w with delta := w.delta + 1 }

def isBasic (c : Char) : Bool := c.toNat < 128

def encode (label : List Char) : List Char :=
  let basic := label.filter isBasic
  let others := ((label.filter (!isBasic ·)).map Char.toNat).mergeSort.eraseDups
  let start : Writer := ⟨0, 72, basic.length, basic ++ if basic.isEmpty then [] else ['-']⟩
  (sweep label basic.length 128 others start).written

/-! ## Reading -/

structure Reader where
  /-- Code point and place of the character put in last, the place one too great. -/
  point : Nat
  index : Nat
  bias : Nat
  label : List Char
  /-- The number being read: its value so far, its next place and that place's weight. -/
  number : Nat
  place : Nat
  weight : Nat

/-- Puts in the character that a whole number stands for. -/
def Reader.put? (r : Reader) (first : Bool) : Option Reader :=
  let count := r.label.length + 1
  let i := r.index + r.number
  let point := r.point + i / count
  if point < 0xD800 ∨ (0xDFFF < point ∧ point < 0x110000) then
    some ⟨point, i % count + 1, adapt r.number count first,
      r.label.take (i % count) ++ Char.ofNat point :: r.label.drop (i % count), 0, 1, 1⟩
  else none

def Reader.run (first : Bool) (r : Reader) : List Char → Option (List Char)
  | [] => if r.place = 1 then some r.label else none
  | c :: rest =>
    match value? c with
    | none => none
    | some d =>
      let number := r.number + d * r.weight
      let t := threshold r.place r.bias
      if 0x100000000 ≤ number + r.index then none
      else if d < t then
        match { r with number }.put? first with
        | none => none
        | some r => r.run false rest
      else { r with number, place := r.place + 1, weight := r.weight * (36 - t) }.run first rest

/-- The label that a text stands for, if it stands for one. -/
def decode? (s : List Char) : Option (List Char) :=
  let tail := (s.reverse.takeWhile (· ≠ '-')).reverse
  let front := s.take (s.length - tail.length - 1)
  if ¬ s.all isBasic then none
  else Reader.run true ⟨128, 0, 72, front, 0, 1, 1⟩ (if front.isEmpty then s else tail)

end PingDelivery.Url.Punycode
