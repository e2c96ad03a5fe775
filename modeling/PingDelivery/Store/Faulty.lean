import PingDelivery.Store.Directory
import PingDelivery.Store.Memory
import PingDelivery.Store.Tree

/-! # A store with injected faults

Between the program and a store of any kind stands a list of faults: each lets a number of calls of
its name pass and then fails a number of them before they reach the store. Keys are listed in
order, and behind them keys that the store does not hold. -/

namespace PingDelivery.Store

inductive Medium where
  | memory (m : Memory)
  | directory (d : Directory)
  | tree (t : Tree)
  deriving DecidableEq

namespace Medium

def serve (c : Call) : Medium → Result c × Medium × List Notice
  | memory m =>
    let (r, m, ns) := Memory.serve c m
    (r, memory m, ns)
  | directory d =>
    let (r, d, ns) := Directory.serve c d
    (r, directory d, ns)
  | tree t =>
    let (r, t, ns) := Tree.serve c t
    (r, tree t, ns)

def backend : Backend Medium := ⟨serve⟩

/-- Whether the caller has to wait for the answer: files are the operating system's, and a tree is
flushed after every write. -/
def lingers : Medium → Call → Bool
  | memory _, _ => false
  | directory _, _ => true
  | tree _, c => c.writes

end Medium

structure Fault where
  call : String
  skip : Nat
  times : Nat
  deriving DecidableEq, Repr

namespace Fault

/-- Asks the faults in order about a call: each counts it, until one fails it. -/
def ask (name : String) : List Fault → Bool × List Fault
  | [] => (false, [])
  | f :: r =>
    if f.call ≠ name ∨ f.times = 0 then
      let (hit, r) := ask name r
      (hit, f :: r)
    else if 0 < f.skip then
      let (hit, r) := ask name r
      (hit, { f with skip := f.skip - 1 } :: r)
    else (true, { f with times := f.times - 1 } :: r)

def failure (name : String) : Error := .io ("injected " ++ name ++ " fault")

end Fault

structure Faulty where
  medium : Medium
  faults : List Fault
  ghosts : List String
  deriving DecidableEq

namespace Faulty

def ofMedium (m : Medium) : Faulty := ⟨m, [], []⟩

/-- Texts in the order of their code points. -/
def sorted (l : List String) : List String := l.mergeSort fun a b => decide (a ≤ b)

def arrange (ghosts : List String) : (c : Call) → Result c → Result c
  | .list, .ok keys => .ok (sorted keys ++ ghosts)
  | .list, .error e => .error e
  | .put _ _, r | .get _, r | .delete _, r => r

def serve (c : Call) (s : Faulty) : Result c × Faulty × List Notice :=
  let (hit, faults) := Fault.ask c.name s.faults
  if hit then (.error (Fault.failure c.name), { s with faults }, [])
  else
    let (r, medium, ns) := Medium.serve c s.medium
    (arrange s.ghosts c r, { s with faults, medium }, ns)

def backend : Backend Faulty := ⟨serve⟩

/-- A call that is failed before it reaches the store, or has a key that no store takes, is answered
at once. -/
def lingers (s : Faulty) (c : Call) : Bool :=
  !(Fault.ask c.name s.faults).1 && c.key?.all (fun k => decide (ValidKey k)) && s.medium.lingers c

end Faulty
end PingDelivery.Store
