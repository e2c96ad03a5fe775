import PingDelivery.Configuration.Basic
import PingDelivery.Upload.Plan
import PingDelivery.Upload.Stats

/-! # The state of a scheduler

Runs take turns, in the order they asked; a bell wakes the worker, and a ring that nobody hears is
kept, one at most; cancelling is for good and wakes all who watch for it. Tasks are known by their
numbers. -/

namespace PingDelivery.Upload

/-- Who may run: at most one, the others wait in line. -/
structure Turn where
  held : Bool
  line : List Nat
  deriving DecidableEq, Repr

namespace Turn

def free : Turn := ⟨false, []⟩

/-- Takes the turn or joins the line; says whether it was taken. -/
def ask (t : Turn) (task : Nat) : Bool × Turn :=
  if t.held then (false, { t with line := t.line ++ [task] }) else (true, ⟨true, t.line⟩)

/-- Hands the turn to the first in line, if anyone waits. -/
def leave (t : Turn) : Option Nat × Turn :=
  match t.line with
  | [] => (none, ⟨false, []⟩)
  | task :: r => (some task, ⟨true, r⟩)

end Turn

/-- A bell that remembers one ring. -/
structure Bell where
  kept : Bool
  listeners : List Nat
  deriving DecidableEq, Repr

namespace Bell

def silent : Bell := ⟨false, []⟩

/-- Wakes the one who has listened longest; if nobody listens the ring is kept. -/
def ring (b : Bell) : Option Nat × Bell :=
  match b.listeners with
  | [] => (none, { b with kept := true })
  | task :: r => (some task, { b with listeners := r })

/-- Uses up a kept ring or starts to listen; says whether there was one. -/
def listen (b : Bell) (task : Nat) : Bool × Bell :=
  if b.kept then (true, { b with kept := false })
  else (false, { b with listeners := b.listeners ++ [task] })

def forget (b : Bell) (task : Nat) : Bell := { b with listeners := b.listeners.filter (· ≠ task) }

end Bell

structure Scheduler where
  config : Configuration
  plan : Plan
  turn : Turn
  bell : Bell
  watchers : List Nat
  suspended : Bool
  cancelled : Bool
  stats : Stats
  deriving DecidableEq

namespace Scheduler

def create (config : Configuration) (plan : Plan) : Scheduler :=
  ⟨config, plan, .free, .silent, [], false, false, .zero⟩

def mark (s : Scheduler) (m : Stats.Mark) : Scheduler := { s with stats := s.stats.mark m }

def watch (s : Scheduler) (task : Nat) : Scheduler := { s with watchers := s.watchers ++ [task] }

def unwatch (s : Scheduler) (task : Nat) : Scheduler :=
  { s with watchers := s.watchers.filter (· ≠ task) }

end Scheduler
end PingDelivery.Upload
