import PingDelivery.Notice

/-! # Programs over a store

A `Program` is a finite plan of store calls, each followed by what to do with its result. It says
nothing about the store: a `Backend` serves the calls, and `run` follows the plan with one. Where a
plan may be cut short or interleaved with others, it is between two of its calls. -/

namespace PingDelivery.Store

inductive Program (α : Type) where
  | done (a : α)
  | tell (n : Notice) (rest : Program α)
  | call (c : Call) (next : Result c → Program α)

namespace Program
variable {α β : Type}

def bind : Program α → (α → Program β) → Program β
  | done a, f => f a
  | tell n p, f => tell n (p.bind f)
  | call c next, f => call c fun r => (next r).bind f

instance : Monad Program where
  pure := done
  bind := bind

def say (n : Notice) : Program Unit := tell n (done ())

def perform (c : Call) : Program (Result c) := call c done

end Program

/-- A store of some kind: how it serves a call. A failing call leaves it as it was, as far as
`Call`s can tell. -/
structure Backend (σ : Type) where
  serve : (c : Call) → σ → Result c × σ × List Notice

namespace Program
variable {α σ : Type}

/-- Follows a plan to its end: the result, the store and the notices in their order. -/
def run (b : Backend σ) : Program α → σ → α × σ × List Notice
  | done a, s => (a, s, [])
  | tell n p, s =>
    let (a, s, ns) := p.run b s
    (a, s, n :: ns)
  | call c next, s =>
    let (r, s, ms) := b.serve c s
    let (a, s, ns) := (next r).run b s
    (a, s, ms ++ ns)

/-- How the store can look while the plan is followed: at the start and after each call. -/
def states (b : Backend σ) : Program α → σ → List σ
  | done _, s => [s]
  | tell _ p, s => p.states b s
  | call c next, s =>
    let (r, t, _) := b.serve c s
    s :: (next r).states b t

end Program
end PingDelivery.Store
