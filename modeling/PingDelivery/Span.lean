import PingDelivery.Text.Digits

/-! # Spans of time

A `Span` is a length of time in whole nanoseconds. Settings give spans in milliseconds, timers run
in milliseconds; `text` is the short form that messages use. -/

namespace PingDelivery

structure Span where
  nanos : Nat
  deriving DecidableEq, Repr

namespace Span

def ofMillis (n : Nat) : Span := ⟨n * 1000000⟩

def ofSeconds (n : Nat) : Span := ⟨n * 1000000000⟩

def ofParts (seconds nanos : Nat) : Span := ⟨seconds * 1000000000 + nanos⟩

def seconds (d : Span) : Nat := d.nanos / 1000000000

def subsecNanos (d : Span) : Nat := d.nanos % 1000000000

def millis (d : Span) : Nat := d.nanos / 1000000

/-- Whole milliseconds, a begun one counting as whole. -/
def ceilMillis (d : Span) : Nat := (d.nanos + 999999) / 1000000

def isZero (d : Span) : Bool := d.nanos == 0

instance : LE Span := ⟨fun a b => a.nanos ≤ b.nanos⟩
instance : LT Span := ⟨fun a b => a.nanos < b.nanos⟩
instance (a b : Span) : Decidable (a ≤ b) := inferInstanceAs (Decidable (a.nanos ≤ b.nanos))
instance (a b : Span) : Decidable (a < b) := inferInstanceAs (Decidable (a.nanos < b.nanos))

def min (a b : Span) : Span := if a ≤ b then a else b

theorem min_le_left (a b : Span) : min a b ≤ a := by
  unfold min; split
  · exact Nat.le_refl _
  · rename_i h; exact Nat.le_of_lt (Nat.lt_of_not_le h)

theorem min_le_right (a b : Span) : min a b ≤ b := by
  unfold min; split
  · assumption
  · exact Nat.le_refl _

theorem le_min {a b c : Span} (hb : a ≤ b) (hc : a ≤ c) : a ≤ b.min c := by
  unfold min; split
  · exact hb
  · exact hc

theorem min_eq_left {a b : Span} (h : a ≤ b) : a.min b = a := if_pos h

@[simp] theorem millis_ofMillis (n : Nat) : (ofMillis n).millis = n :=
  Nat.mul_div_cancel n (by decide)

theorem ofMillis_le_ofMillis {m n : Nat} : ofMillis m ≤ ofMillis n ↔ m ≤ n :=
  Nat.mul_le_mul_right_iff (by decide)

theorem min_ofMillis (m n : Nat) : (ofMillis m).min (ofMillis n) = ofMillis (Nat.min m n) := by
  unfold min
  split
  · rename_i h
    rw [ofMillis_le_ofMillis] at h
    exact congrArg ofMillis (Nat.min_eq_left h).symm
  · rename_i h
    rw [ofMillis_le_ofMillis] at h
    exact congrArg ofMillis (Nat.min_eq_right (Nat.le_of_not_le h)).symm

theorem ofParts_seconds_subsecNanos (d : Span) : ofParts d.seconds d.subsecNanos = d := by
  simp [ofParts, seconds, subsecNanos, Nat.div_add_mod']

/-- A number of units and the fraction left over, in tenths of a power of ten, without the
trailing zeros. -/
def decimal (whole fraction places : Nat) : String :=
  let tail := ((Text.padded places fraction).reverse.dropWhile (· == '0')).reverse
  toString whole ++ (if tail.isEmpty then "" else String.ofList ('.' :: tail))

/-- The largest unit among seconds, milli-, micro- and nanoseconds that the span reaches. -/
def text (d : Span) : String :=
  if 1000000000 ≤ d.nanos then decimal (d.nanos / 1000000000) (d.nanos % 1000000000) 9 ++ "s"
  else if 1000000 ≤ d.nanos then decimal (d.nanos / 1000000) (d.nanos % 1000000) 6 ++ "ms"
  else if 1000 ≤ d.nanos then decimal (d.nanos / 1000) (d.nanos % 1000) 3 ++ "µs"
  else decimal d.nanos 0 0 ++ "ns"

end Span
end PingDelivery
