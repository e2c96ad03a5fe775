import Mathlib.Data.List.Induction
import PingDelivery.Proofs.Buffer.Merging
import PingDelivery.Proofs.Buffer.Windows

/-! # The life of a buffer

A buffer lives through the operations of its callers, each under a limit of its own, and through
snapshots that are put back: any that has been taken out so far, at any later time, for any ping. `paced`
says how one operation moves the start of its window. Under a clock that is never turned back no window
starts later than now and no snapshot ends before it starts: `Punctual`.
-/

namespace PingDelivery.Buffer
open Time (Instant)

inductive Move where
  | operate (limit : Nat) (o : Operation)
  /-- The snapshot that was taken out as the `i`-th goes back into a window. -/
  | putBack (now : Instant) (ping : String) (i : Nat)

def Move.now : Move → Instant
  | operate _ o => o.now
  | putBack now _ _ => now

/-- The buffer, and all that has been taken out of it, the oldest first. -/
structure Timeline where
  buffer : Buffer
  out : List Drained

/-- No clock reading is earlier than the one before it. -/
def Forward (l : List Move) : Prop := l.Pairwise fun m m' => m.now ≤ m'.now

namespace Timeline

def start : Timeline := ⟨.empty, []⟩

def step (t : Timeline) : Move → Timeline
  | .operate limit o =>
    let r := t.buffer.operate limit o
    ⟨r.1, t.out ++ r.2.toList⟩
  | .putBack now ping i =>
    match t.out[i]? with
    | some d => { t with buffer := t.buffer.restore now ping d.snapshot }
    | none => t

def run (t : Timeline) (l : List Move) : Timeline := l.foldl step t

theorem run_concat (t : Timeline) (l : List Move) (m : Move) :
    t.run (l ++ [m]) = (t.run l).step m :=
  List.foldl_concat _ _ _ _

theorem run_cons (t : Timeline) (m : Move) (l : List Move) : t.run (m :: l) = (t.step m).run l := rfl

theorem mem_step {t : Timeline} {m : Move} {d : Drained} (h : d ∈ t.out) : d ∈ (t.step m).out := by
  cases m with
  | operate limit o => exact List.mem_append_left _ h
  | putBack now ping i =>
    simp only [step]
    split
    · exact h
    · exact h

/-- What has been taken out stays on the list. -/
theorem mem_run {t : Timeline} {l : List Move} {d : Drained} (h : d ∈ t.out) : d ∈ (t.run l).out := by
  induction l generalizing t with
  | nil => exact h
  | cons m l ih => exact ih (mem_step h)

end Timeline

/-! ## What moves do to a window -/

section
variable {limit : Nat} {b : Buffer} {o : Operation} {w w' : Option Window} {d : Option Drained}
  {now : Instant} {ping : String}

/-- The start of a window; one that does not exist yet starts now. -/
def startOf (now : Instant) (w : Option Window) : Instant := (w.getD (.opened now)).startTime

/-- How an operation moves the start of its window: not at all, or the window that it drains is followed
by one that starts where it ends. -/
inductive Paced (o : Operation) (w : Option Window) : Option Window → Option Drained → Prop where
  | unopened (h : w = none) : Paced o w none none
  | kept {w' : Window} (h : w'.startTime = startOf o.now w) : Paced o w (some w') none
  | drained {d : Drained} (hstart : d.snapshot.startTime = startOf o.now w)
      (hend : d.snapshot.endTime = o.now) : Paced o w (some (.opened o.now)) (some d)

theorem paced (limit : Nat) (o : Operation) (w : Option Window) :
    Paced o w (o.onWindow limit w).1 (o.onWindow limit w).2 := by
  obtain ⟨ping, now, act⟩ := o
  cases act with
  | set id m => exact .kept rfl
  | add id amount =>
    refine .kept ?_
    rw [add_eq_set]
    rfl
  | record e =>
    simp only [Operation.onWindow]
    split
    · exact .drained rfl rfl
    · exact .kept rfl
  | take =>
    cases w with
    | none => exact .unopened rfl
    | some w =>
      simp only [Operation.onWindow]
      split
      · exact .kept rfl
      · exact .drained rfl rfl

theorem get?_restored (b : Buffer) (now : Instant) (ping' : String) (s : Snapshot) (ping : String) :
    (b.restore now ping' s).windows.get? ping =
      if ping = ping' then some (((b.windows.get? ping').getD (.opened now)).restore s)
      else b.windows.get? ping :=
  get?_put _ _ _ _

end

/-! ## A clock that is never turned back -/

namespace Timeline
variable {t : Timeline} {now now' : Instant} {m : Move} {l : List Move}

/-- Nothing in the buffer or out of it is later than now. -/
structure Punctual (t : Timeline) (now : Instant) : Prop where
  windows : ∀ ping w, t.buffer.windows.get? ping = some w → w.startTime ≤ now
  ordered : ∀ d ∈ t.out, d.snapshot.startTime ≤ d.snapshot.endTime
  out : ∀ d ∈ t.out, d.snapshot.endTime ≤ now

theorem Punctual.later (h : t.Punctual now) (hle : now ≤ now') : t.Punctual now' where
  windows ping w hw := Instant.le_trans (h.windows ping w hw) hle
  ordered := h.ordered
  out d hd := Instant.le_trans (h.out d hd) hle

theorem punctual_start (now : Instant) : start.Punctual now where
  windows ping w hw := by cases hw
  ordered d hd := absurd hd List.not_mem_nil
  out d hd := absurd hd List.not_mem_nil

theorem Punctual.startOf_le (h : t.Punctual now) (ping : String) :
    startOf now (t.buffer.windows.get? ping) ≤ now := by
  cases hw : t.buffer.windows.get? ping with
  | none => exact Instant.le_refl now
  | some w => exact h.windows ping w hw

theorem Punctual.step (h : t.Punctual m.now) : (t.step m).Punctual m.now := by
  cases m with
  | operate limit o =>
    -- a window starts where it did or now, and what is drained ends now
    have hpaced := paced limit o (t.buffer.windows.get? o.ping)
    obtain ⟨hout, -⟩ := operate_onWindow limit t.buffer o o.ping
    have hstart : startOf o.now (t.buffer.windows.get? o.ping) ≤ o.now := h.startOf_le o.ping
    have hwindows (ping : String) (w : Window)
        (hw : (t.buffer.operate limit o).1.windows.get? ping = some w) : w.startTime ≤ o.now := by
      rw [(operate_onWindow limit t.buffer o ping).2] at hw
      by_cases hp : ping = o.ping
      · rw [if_pos hp] at hw
        rw [hw] at hpaced
        generalize (o.onWindow limit (t.buffer.windows.get? o.ping)).2 = d at hpaced
        cases hpaced with
        | kept hkept => exact hkept ▸ hstart
        | drained _ _ => exact Instant.le_refl o.now
      · rw [if_neg hp] at hw
        exact h.windows ping w hw
    have hdrained (d : Drained) (hd : (t.buffer.operate limit o).2 = some d) :
        d.snapshot.startTime ≤ d.snapshot.endTime ∧ d.snapshot.endTime = o.now := by
      rw [hout] at hd
      rw [hd] at hpaced
      generalize (o.onWindow limit (t.buffer.windows.get? o.ping)).1 = w at hpaced
      cases hpaced with
      | drained hs he => exact ⟨by rw [hs, he]; exact hstart, he⟩
    have hmem (d : Drained) (hd : d ∈ t.out ++ (t.buffer.operate limit o).2.toList) :
        d ∈ t.out ∨ (t.buffer.operate limit o).2 = some d :=
      (List.mem_append.1 hd).imp_right Option.mem_toList.1
    refine ⟨hwindows, fun d hd => ?_, fun d hd => ?_⟩
    · rcases hmem d hd with hd | hd
      · exact h.ordered d hd
      · exact (hdrained d hd).1
    · rcases hmem d hd with hd | hd
      · exact h.out d hd
      · rw [(hdrained d hd).2]
        exact Instant.le_refl o.now
  | putBack now ping i =>
    simp only [Timeline.step]
    split
    · rename_i d hd
      refine ⟨fun ping' w hw => ?_, h.ordered, h.out⟩
      rw [get?_restored] at hw
      split at hw
      · cases hw
        exact Instant.le_trans (Instant.min_le_left _ _) (h.startOf_le ping)
      · exact h.windows ping' w hw
    · exact h

/-- **Nothing is ahead of the clock**, at its last reading or any later one. -/
theorem punctual_run (h : Forward l) (hnow : ∀ m ∈ l, m.now ≤ now) : (start.run l).Punctual now := by
  induction l using List.reverseRecOn generalizing now with
  | nil => exact punctual_start now
  | append_singleton l m ih =>
    -- the last move was made no earlier than all before it, and nothing was ahead of those
    obtain ⟨hl, -, hlast⟩ := List.pairwise_append.1 h
    rw [run_concat]
    refine (ih hl ?_).step.later (hnow m List.mem_concat_self)
    intro m' hm'
    exact hlast m' hm' m List.mem_cons_self

end Timeline
end PingDelivery.Buffer
