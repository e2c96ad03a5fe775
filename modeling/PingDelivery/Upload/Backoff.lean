import PingDelivery.Span

/-! # Back-off

How long to wait after runs that failed recoverably. The delay grows with the number of failed runs
in a row and never exceeds the configured maximum, jitter included. -/

namespace PingDelivery.Upload

inductive Strategy where
  | exponential
  | linear
  | fixed
  deriving DecidableEq, Repr

namespace Backoff

structure Config where
  strategy : Strategy
  base : Span
  ceiling : Span
  jitter : Bool
  deriving DecidableEq, Repr

def Config.standard : Config := ⟨.exponential, .ofSeconds 1, .ofSeconds 300, true⟩

def wordMax : Nat := 0xFFFFFFFFFFFFFFFF

/-- The product, held within 64 bits. -/
def saturatingMul (a b : Nat) : Nat := Nat.min (a * b) wordMax

/-- What an exponential delay is multiplied by, held within 64 bits. -/
def power (attempt : UInt32) : Nat := if attempt.toNat < 64 then Nat.pow 2 attempt.toNat else wordMax

/-- The milliseconds of a span, cut to 64 bits. -/
def wordMillis (d : Span) : Nat := d.millis % 0x10000000000000000

def uncapped (c : Config) (attempt : UInt32) : Span :=
  match c.strategy with
  | .exponential => .ofMillis (saturatingMul (wordMillis c.base) (power attempt))
  | .linear => .ofMillis (saturatingMul (wordMillis c.base) (attempt.toNat + 1))
  | .fixed => c.base

/-- The delay without jitter. -/
def plain (c : Config) (attempt : UInt32) : Span := (uncapped c attempt).min c.ceiling

/-- The delay, where `shake` is what the jitter makes of its milliseconds. -/
def delay (c : Config) (shake : Nat → Nat) (attempt : UInt32) : Span :=
  if c.jitter then (Span.ofMillis (shake (plain c attempt).millis)).min c.ceiling
  else plain c attempt

end Backoff

/-- The failed runs in a row, with the configuration that turns them into delays. -/
structure Backoff where
  config : Backoff.Config
  failures : UInt32
  deriving DecidableEq, Repr

namespace Backoff

def ofConfig (c : Config) : Backoff := ⟨c, 0⟩

/-- One more failed run, and how long to wait after it. -/
def fail (b : Backoff) (shake : Nat → Nat) : Span × Backoff :=
  (delay b.config shake b.failures,
    { b with failures := if b.failures.toNat + 1 < 0x100000000 then b.failures + 1 else b.failures })

def reset (b : Backoff) : Backoff := { b with failures := 0 }

end Backoff
end PingDelivery.Upload
