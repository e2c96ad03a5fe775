import Mathlib.Logic.Function.Basic
import PingDelivery.Buffer

/-! # Events in the buffer

What the operations of the buffer do to the events of each ping. Each of them touches one ping: what
it says of all pings at once is an update of one place.
-/

namespace PingDelivery.Buffer

/-- The events buffered for each ping, in the order of their recording. -/
def events (b : Buffer) (ping : String) : List Event := (b.windows.get? ping).elim [] (·.events)

theorem events_put (b : Buffer) (ping : String) (w : Window) :
    (b.put ping w).events = Function.update b.events ping w.events := by
  funext ping'
  simp only [events, put, Dict.get?_insert, Function.update_apply]
  by_cases h : ping' = ping
  · rw [if_pos h, if_pos h]
    rfl
  · rw [if_neg h, if_neg h]

theorem events_put_of_ne {b : Buffer} {ping ping' : String} {w : Window} (h : ping' ≠ ping) :
    (b.put ping w).events ping' = b.events ping' := by
  rw [events_put, Function.update_of_ne h]

theorem events_window (b : Buffer) (ping : String) (now : Time.Instant) :
    (b.window ping now).events = b.events ping := by
  rw [window, events]
  cases b.windows.get? ping with
  | none => rfl
  | some w => rfl

/-- A window whose events are those that were there changes nothing. -/
theorem events_put_same {b : Buffer} {ping : String} {w : Window} (h : w.events = b.events ping) :
    (b.put ping w).events = b.events := by
  rw [events_put, h, Function.update_eq_self]

theorem events_setMetric (b : Buffer) (now : Time.Instant) (ping id : String) (m : Metric) :
    (b.setMetric now ping id m).events = b.events :=
  events_put_same (b.events_window ping now)

theorem events_addToCounter (b : Buffer) (now : Time.Instant) (ping id : String) (n : Int64) :
    (b.addToCounter now ping id n).events = b.events := by
  refine events_put_same (Eq.trans ?_ (b.events_window ping now))
  unfold Window.add
  split <;> rfl

/-- An event is recorded behind those that are there, and stays or is taken out with them. -/
theorem events_recordEvent (b : Buffer) (now : Time.Instant) (ping : String) (e : Event)
    (limit : Nat) :
    (∃ b', b.recordEvent now ping e limit = (b', none) ∧
      b'.events = Function.update b.events ping (b.events ping ++ [e])) ∨
    ∃ b' s, b.recordEvent now ping e limit = (b', some s) ∧ s.events = b.events ping ++ [e] ∧
      b'.events = Function.update b.events ping [] := by
  have hpush : ((b.window ping now).push e).events = b.events ping ++ [e] := by
    rw [Window.push, events_window]
  by_cases hfull : limit ≤ ((b.window ping now).push e).events.length
  · exact .inr ⟨_, _, if_pos hfull, hpush, events_put _ _ _⟩
  · refine .inl ⟨_, if_neg hfull, ?_⟩
    rw [events_put, hpush]

/-- What is taken is all that was there, and never nothing. -/
theorem events_take (b : Buffer) (now : Time.Instant) (ping : String) :
    b.take now ping = (b, none) ∨
      ∃ b' s, b.take now ping = (b', some s) ∧ s.isEmpty = false ∧ s.events = b.events ping ∧
        b'.events = Function.update b.events ping [] := by
  unfold take
  split
  · rename_i w hw
    split
    · exact .inl rfl
    · rename_i hne
      refine .inr ⟨_, _, rfl, Bool.eq_false_iff.2 hne, ?_, events_put _ _ _⟩
      rw [events, hw]
      rfl
  · exact .inl rfl

/-- Events that are put back come before those recorded since. -/
theorem events_restore (b : Buffer) (now : Time.Instant) (ping : String) (s : Snapshot) :
    (b.restore now ping s).events = Function.update b.events ping (s.events ++ b.events ping) := by
  rw [restore, events_put]
  exact congrArg (fun l => Function.update b.events ping (s.events ++ l)) (b.events_window ping now)

end PingDelivery.Buffer
