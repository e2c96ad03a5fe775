/-! # Computations that can panic

Beside its value and its errors a computation has a third ending: it panics, which stops the program
that is following it. Nothing is handed back then, and nothing is done after it. -/

namespace PingDelivery

inductive Ended (ε α : Type) where
  | ok (a : α)
  | error (e : ε)
  | panic
  deriving DecidableEq

namespace Ended
variable {ε ε' α β : Type}

def map (f : α → β) : Ended ε α → Ended ε β
  | ok a => ok (f a)
  | error e => error e
  | panic => panic

def mapError (f : ε → ε') : Ended ε α → Ended ε' α
  | ok a => ok a
  | error e => error (f e)
  | panic => panic

def bind : Ended ε α → (α → Ended ε β) → Ended ε β
  | ok a, f => f a
  | error e, _ => error e
  | panic, _ => panic

instance : Monad (Ended ε) where
  pure := ok
  bind := bind

def toOption : Ended ε α → Option α
  | ok a => some a
  | error _ | panic => none

theorem bind_eq_ok_iff {x : Ended ε α} {f : α → Ended ε β} {b : β} :
    x.bind f = ok b ↔ ∃ a, x = ok a ∧ f a = ok b := by
  cases x <;> simp [bind]

theorem bind_eq_panic_iff {x : Ended ε α} {f : α → Ended ε β} :
    x.bind f = panic ↔ x = panic ∨ ∃ a, x = ok a ∧ f a = panic := by
  cases x <;> simp [bind]

end Ended
end PingDelivery
