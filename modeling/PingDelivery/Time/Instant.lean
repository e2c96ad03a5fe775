import PingDelivery.Time.Date

/-! # Points in time

An `Instant` is a number of seconds since 1970-01-01T00:00:00Z and a part of the second in
nanoseconds. A part of a thousand million or more lies in a leap second. On a clock only the last
second of a minute has one, and `make?` gives no others; but whoever sets the part by hand can put
one behind any second. The calendar years that can be written bound the range. -/

namespace PingDelivery.Time

/-- First second of the year −262143. -/
def minSeconds : Int := Date.toDays ⟨-262143, 1, 1⟩ * 86400

/-- Last second of the year 262142. -/
def maxSeconds : Int := Date.toDays ⟨262142, 12, 31⟩ * 86400 + 86399

def Representable (seconds : Int) (nanos : Nat) : Prop :=
  minSeconds ≤ seconds ∧ seconds ≤ maxSeconds ∧ nanos < 2000000000

instance (s : Int) (n : Nat) : Decidable (Representable s n) := by
  unfold Representable; infer_instance

/-- A leap second stands at the end of a minute. -/
def OnClock (seconds : Int) (nanos : Nat) : Prop := 1000000000 ≤ nanos → seconds % 60 = 59

instance (s : Int) (n : Nat) : Decidable (OnClock s n) :=
  inferInstanceAs (Decidable (1000000000 ≤ n → s % 60 = 59))

structure Instant where
  seconds : Int
  nanos : Nat
  representable : Representable seconds nanos
  deriving DecidableEq

namespace Instant

def make? (seconds : Int) (nanos : Nat) : Option Instant :=
  if h : Representable seconds nanos ∧ OnClock seconds nanos then some ⟨seconds, nanos, h.1⟩ else none

/-- A clock can show the instant. -/
def Civil (t : Instant) : Prop := OnClock t.seconds t.nanos

instance (t : Instant) : Decidable t.Civil := inferInstanceAs (Decidable (OnClock t.seconds t.nanos))

def ofMillis? (ms : Int) : Option Instant :=
  make? (ms.fdiv 1000) ((ms.fmod 1000).toNat * 1000000)

/-- Milliseconds since the epoch; a leap second runs on into the next one. -/
def millis (t : Instant) : Int := t.seconds * 1000 + t.nanos / 1000000

instance : LE Instant :=
  ⟨fun a b => a.seconds < b.seconds ∨ (a.seconds = b.seconds ∧ a.nanos ≤ b.nanos)⟩

instance (a b : Instant) : Decidable (a ≤ b) :=
  inferInstanceAs (Decidable (a.seconds < b.seconds ∨ (a.seconds = b.seconds ∧ a.nanos ≤ b.nanos)))

def min (a b : Instant) : Instant := if a ≤ b then a else b

theorem le_refl (a : Instant) : a ≤ a := .inr ⟨rfl, Nat.le_refl _⟩

theorem le_trans {a b c : Instant} (h : a ≤ b) (h' : b ≤ c) : a ≤ c := by
  rcases h with h | ⟨h, hn⟩ <;> rcases h' with h' | ⟨h', hn'⟩
  · exact .inl (Int.lt_trans h h')
  · exact .inl (h' ▸ h)
  · exact .inl (h ▸ h')
  · exact .inr ⟨h.trans h', Nat.le_trans hn hn'⟩

theorem le_total (a b : Instant) : a ≤ b ∨ b ≤ a := by
  rcases Int.lt_trichotomy a.seconds b.seconds with h | h | h
  · exact .inl (.inl h)
  · exact (Nat.le_total a.nanos b.nanos).imp (fun hn => .inr ⟨h, hn⟩) (fun hn => .inr ⟨h.symm, hn⟩)
  · exact .inr (.inl h)

theorem le_antisymm {a b : Instant} (h : a ≤ b) (h' : b ≤ a) : a = b := by
  obtain ⟨s, n, _⟩ := a
  obtain ⟨s', n', _⟩ := b
  have hfields : s = s' ∧ n = n' := by
    rcases h with h | ⟨h, hn⟩ <;> rcases h' with h' | ⟨h', hn'⟩
    · exact absurd h (Int.lt_asymm h')
    · exact absurd h' (Int.ne_of_gt h)
    · exact absurd h (Int.ne_of_gt h')
    · exact ⟨h, Nat.le_antisymm hn hn'⟩
  obtain ⟨rfl, rfl⟩ := hfields
  rfl

theorem min_le_left (a b : Instant) : min a b ≤ a := by
  unfold min
  split
  · exact le_refl a
  · rename_i h
    exact (le_total a b).resolve_left h

theorem min_le_right (a b : Instant) : min a b ≤ b := by
  unfold min
  split
  · assumption
  · exact le_refl b

theorem min_eq_right {a b : Instant} (h : b ≤ a) : min a b = b := by
  unfold min
  split
  · rename_i h'
    exact le_antisymm h' h
  · rfl

/-! ## The fields of a clock reading -/

def days (t : Instant) : Int := t.seconds.fdiv 86400

def secondOfDay (t : Instant) : Nat := (t.seconds.fmod 86400).toNat

def date (t : Instant) : Date := Date.ofDays t.days

def hour (t : Instant) : Nat := t.secondOfDay / 3600

def minute (t : Instant) : Nat := t.secondOfDay / 60 % 60

/-- 60 in the leap second of a minute. -/
def second (t : Instant) : Nat := t.secondOfDay % 60 + t.nanos / 1000000000

/-- The part of the shown second. -/
def fraction (t : Instant) : Nat := t.nanos % 1000000000

end Instant
end PingDelivery.Time
