import Mathlib.Algebra.GroupWithZero.Nat
import PingDelivery.Proofs.Upload.Sharing
import PingDelivery.Proofs.Upload.Shift

/-! # Winding up

Once the scheduler has been cancelled or suspended, its runs come to an end: every step that a run
takes brings it nearer to it, some run can take one until all have returned, and it does not matter
what the store does.
-/

namespace PingDelivery.Upload
open Store

namespace Run

/-- How many steps the run has before it at most, once the scheduler has been halted. -/
def Phase.windup : Phase → Nat
  | .arriving => 4
  | .waiting => 3
  | .admitted => 2
  | .looking _ => 1
  | .uploading _ _ => 1
  | .settling _ _ _ => 2
  | .finished _ => 0

theorem Phase.Idle.windup {phase : Phase} (h : phase.Idle) : phase.windup ≤ 1 := by
  rcases h with ⟨s, rfl⟩ | ⟨r, rfl⟩
  · exact Nat.le_refl 1
  · exact Nat.zero_le 1

section
variable {d : Desk} {m m' : Content} {phase : Phase} {a : Act}
  {log : Option (Queue.Request × Queue.Response)} {x : List Deed × Phase × Desk}

/-- Whatever a look is answered, a run that has been cancelled takes up no ping. -/
theorem Looked.finished {s : Summary} {b : Queue.Response} (h : Looked d s b x)
    (hc : d.scheduler.cancelled = true) : x.1 = [] ∧ ∃ r, x.2.1 = .finished r := by
  cases h with
  | refused e => exact ⟨rfl, _, rfl⟩
  | called hc' =>
    rw [hc] at hc'
    cases hc'
  | stopped _ | emptied _ => exact ⟨rfl, _, rfl⟩

theorem windup_settled (d : Desk) (p : Ping) (o : Outcome) (s : Summary) (b : Queue.Response) :
    (heeded d (.settling p o s) b).2.1.windup < 2 := by
  cases b with
  | error e => exact Nat.zero_lt_two
  | ok reply => exact Nat.lt_succ_of_le (idle_account d p s o reply).1.windup

/-- A step of a halted run brings it nearer to its end. -/
theorem Consulted.winds_up (h : Consulted d m phase a log x m')
    (hhalt : d.scheduler.cancelled = true ∨ phase = .admitted) (hfits : fits d phase a = true) :
    x.2.1.windup < phase.windup := by
  cases h with
  | idle hidle =>
    rw [hidle] at hfits
    cases hfits
  | entered => exact Nat.lt_succ_of_le (idle_takeTurn d).windup
  | stopped _ | abandoned _ => exact Nat.zero_lt_one
  | answered hc | expired hc =>
    rcases hhalt with hcancelled | hphase
    · rw [hc] at hcancelled
      cases hcancelled
    · cases hphase
  | looked _ =>
    rcases hhalt with hcancelled | hphase
    · obtain ⟨-, r, hr⟩ := (looked_heeded d _ (sight d _)).finished hcancelled
      rw [hr]
      exact Nat.zero_lt_one
    · cases hphase
  | settled _ => exact windup_settled _ _ _ _ _

/-- A halted run that has the turn can take a step. -/
theorem exists_fitting (hb : phase.busy = true)
    (hhalt : d.scheduler.cancelled = true ∨ phase = .admitted) :
    ∃ a, ∀ f : Found, fits d phase (f.ground a) = true := by
  cases phase with
  | arriving | waiting | finished r => cases hb
  | admitted => exact ⟨.enter, fun _ => rfl⟩
  | looking s => exact ⟨.look false false, fun _ => rfl⟩
  | uploading p s =>
    rcases hhalt with hcancelled | hphase
    · exact ⟨.abandon, fun _ => hcancelled⟩
    · cases hphase
  | settling p o s => exact ⟨.settle false, fun _ => rfl⟩

end
end Run

namespace Shift

/-- The scheduler has been cancelled or suspended. -/
def Halted (s : Shift) : Prop :=
  s.crew.desk.scheduler.cancelled = true ∨ s.crew.desk.scheduler.suspended = true

def windup (s : Shift) : Nat := (s.crew.runs.map Run.Phase.windup).sum

section
variable {s s' : Shift} {m m' : Content} {mv : Move} {es : List Event} {tr : List Observed}

/-- Of a scheduler that has been suspended no run is under way. -/
theorem Ordered.admitted (ho : s.Ordered) (hs : s.crew.desk.scheduler.suspended = true) {i : Nat}
    {phase : Run.Phase} (hi : s.crew.runs[i]? = some phase) (hb : phase.busy = true) :
    phase = .admitted := by
  obtain ⟨cur, hc⟩ := ho.orderly
  exact hc.silent hs _ ((hc.alone i phase).1 ⟨hi, hb⟩)

theorem Ordered.halted (ho : s.Ordered) (hs : s.Halted) {i : Nat} {phase : Run.Phase}
    (hi : s.crew.runs[i]? = some phase) (hb : phase.busy = true) :
    s.crew.desk.scheduler.cancelled = true ∨ phase = .admitted :=
  hs.imp_right fun hs => ho.admitted hs hi hb

theorem windup_set {c : Crew} {i : Nat} {x y : Run.Phase} (hi : c.runs[i]? = some x)
    (hlt : y.windup < x.windup) :
    ((c.runs.set i y).map Run.Phase.windup).sum < (c.runs.map Run.Phase.windup).sum := by
  have hsum := Crew.sum_map_set Run.Phase.windup hi y
  omega

theorem Put.winds_up {c c' : Crew} {i : Nat} {phase : Run.Phase}
    {x : List Run.Deed × Run.Phase × Desk} {es : List Crew.Event} (h : Put c i x es c')
    (hi : c.runs[i]? = some phase) (hlt : x.2.1.windup < phase.windup) :
    (c'.runs.map Run.Phase.windup).sum < (c.runs.map Run.Phase.windup).sum := by
  cases h with
  | goes_on _ | ends => exact windup_set hi hlt
  | @hands deeds r d j rest hj =>
    exact Nat.lt_trans (windup_set (c := ⟨d, c.runs.set i (.finished r)⟩) hj (by decide))
      (windup_set hi hlt)

/-- **A halted shift winds up.** A move brings somebody new, leaves all runs where they are, or takes
them nearer to their end. -/
theorem Ordered.winds_up (ho : s.Ordered) (hs : s.Halted) (h : Moved s m es s' m') :
    s'.crew.runs = s.crew.runs ++ [.arriving] ∨ s'.crew.runs = s.crew.runs ∨
      s'.windup < s.windup := by
  cases h with
  | kept _ | checked _ _ | inquired _ _ _ _ | hired _ | dismissed _ _ | heard _ _ | requested _
  | cancelled => exact .inr (.inl rfl)
  | came | sent _ => exact .inl rfl
  | refused hi _ | admitted hi _ | lined hi _ => exact .inr (.inr (windup_set hi (by decide)))
  | @acted i a phase log x es' c m' hi hb h hput =>
    cases hfits : Run.fits s.crew.desk phase ((s.found i).ground a) with
    | true => exact .inr (.inr (hput.winds_up hi (h.winds_up (ho.halted hs hi hb) hfits)))
    | false =>
      obtain ⟨-, rfl, -⟩ := h.eq_of_unfit hfits
      cases hput with
      | goes_on _ =>
        obtain ⟨hlt, rfl⟩ := List.getElem?_eq_some_iff.1 hi
        exact .inr (.inl (List.set_getElem_self hlt))
      | ends | hands _ => cases hb

/-- To ask for the turn is a step, too. -/
theorem runs_ask (c : Crew) (i : Nat) :
    ∃ y, (c.ask i).2.runs = c.runs.set i y ∧ y.windup < Run.Phase.windup .arriving := by
  unfold Crew.ask
  split
  · exact ⟨_, rfl, by decide⟩
  · split <;> exact ⟨_, rfl, by decide⟩

/-- While a run has not returned there is a move that takes the shift nearer to its end, whatever the
store does. -/
theorem Ordered.goes_on (ho : s.Ordered) (hs : s.Halted) (hgo : ¬ s.crew.Ended) : ∃ mv,
    (∀ m tr es s' m', Follows (s.perform mv) m tr (some (es, s')) m' → s'.windup < s.windup) ∧
      ∀ m, ∃ tr x m', Follows (s.perform mv) m tr (some x) m' := by
  obtain ⟨cur, hc⟩ := ho.orderly
  cases cur with
  | some u =>
    obtain ⟨i, phase⟩ := u
    obtain ⟨hi, hb⟩ := (hc.alone i phase).2 rfl
    have hhalt := ho.halted hs hi hb
    obtain ⟨a, ha⟩ := Run.exists_fitting hb hhalt
    refine ⟨.crew (.act i a), ?_, fun m => Follows.exists_end _ m⟩
    intro m tr es s' m' hf
    obtain ⟨out, hcrew, hout⟩ := hf.of_bind_done
    obtain ⟨⟨es', c⟩, rfl, hx⟩ := Option.map_eq_some_iff.1 hout.symm
    cases hx
    simp only [ground, consult, hi, hb, if_true] at hcrew
    obtain ⟨out, hact, hout⟩ := hcrew.of_bind_done
    obtain ⟨⟨log, x⟩, rfl, hx⟩ := Option.map_eq_some_iff.1 hout.symm
    cases hx
    obtain ⟨tr', hact'⟩ := Run.follows_of_consult hact
    have hput := put_cases hc (Run.acted_of_follows hact').turn
    exact hput.winds_up hi ((Run.consulted_of_follows hact).winds_up hhalt (ha _))
  | none =>
    -- nobody has the turn, so nobody stands in line, and who has not returned has only just come
    obtain ⟨phase, hphase, hrun⟩ : ∃ phase ∈ s.crew.runs, ∀ r, phase ≠ .finished r := by
      simpa [Crew.Ended] using hgo
    obtain ⟨i, hi⟩ := List.mem_iff_getElem?.1 hphase
    have hidle : phase.busy = false := by
      rw [Bool.eq_false_iff]
      intro hb
      cases (hc.alone i phase).1 ⟨hi, hb⟩
    have harriving : phase = .arriving := by
      cases phase with
      | arriving => rfl
      | waiting =>
        have hmem := (hc.waiting.mem i).2 hi
        rw [hc.free rfl] at hmem
        cases hmem
      | finished r => exact absurd rfl (hrun r)
      | _ => cases hidle
    subst harriving
    refine ⟨.crew (.ask i), ?_, fun m => Follows.exists_end _ m⟩
    intro m tr es s' m' hf
    obtain ⟨out, hcrew, hout⟩ := hf.of_bind_done
    obtain ⟨⟨es', c⟩, rfl, hx⟩ := Option.map_eq_some_iff.1 hout.symm
    cases hx
    simp only [ground, consult, Crew.perform, hi] at hcrew
    obtain ⟨hout, rfl⟩ := hcrew.eq_of_done
    cases hout
    obtain ⟨y, hy, hlt⟩ := runs_ask s.crew i
    unfold windup
    rw [hy]
    exact windup_set hi hlt

end
end Shift
end PingDelivery.Upload
