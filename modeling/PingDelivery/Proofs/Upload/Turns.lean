import PingDelivery.Proofs.Upload.Crew

/-! # One at a time

In an orderly crew one run at most has the turn, and the others wait for it in line. `Moved` lists what
a move of an orderly crew can come to; each of its cases leaves the crew in order.
-/

namespace PingDelivery.Upload
open Store

namespace Crew

theorem getElem?_concat {α : Type} {l : List α} {x y : α} {j : Nat} :
    (l ++ [x])[j]? = some y ↔ l[j]? = some y ∨ j = l.length ∧ y = x := by
  rw [List.getElem?_append]
  by_cases hj : j < l.length
  · simp [hj, Nat.ne_of_lt hj]
  · have hnone : l[j]? = none := List.getElem?_eq_none (Nat.not_lt.1 hj)
    rw [if_neg hj, hnone, List.getElem?_singleton]
    have : j - l.length = 0 ↔ j = l.length := by omega
    by_cases h : j = l.length
    · simp [h, eq_comm]
    · simp [h, this]

theorem getElem?_set_of {α : Type} {l : List α} {x y z : α} {i j : Nat} (hi : l[i]? = some x) :
    (l.set i y)[j]? = some z ↔ j = i ∧ z = y ∨ j ≠ i ∧ l[j]? = some z := by
  have hlt : i < l.length := (List.getElem?_eq_some_iff.1 hi).1
  rw [List.getElem?_set]
  by_cases h : i = j
  · subst h
    simp [hlt, eq_comm]
  · simp [h, Ne.symm h]

section
variable {runs : List Run.Phase} {cur : Option (Nat × Run.Phase)} {line : List Nat} {i : Nat}
  {x y : Run.Phase}

/-- The run that has the turn, if any, and its phase. -/
def Alone (runs : List Run.Phase) (cur : Option (Nat × Run.Phase)) : Prop :=
  ∀ i phase, runs[i]? = some phase ∧ phase.busy = true ↔ cur = some (i, phase)

namespace Alone

/-- A run that does not get the turn. -/
theorem others (h : Alone runs cur) (hi : runs[i]? = some x) (hx : x.busy = false)
    (hy : y.busy = false) : Alone (runs.set i y) cur := by
  intro j phase
  rw [← h j phase, getElem?_set_of hi]
  constructor
  · rintro ⟨⟨-, rfl⟩ | ⟨-, hj⟩, hb⟩
    · simp [hy] at hb
    · exact ⟨hj, hb⟩
  · rintro ⟨hj, hb⟩
    refine ⟨.inr ⟨?_, hj⟩, hb⟩
    rintro rfl
    cases hi.symm.trans hj
    simp [hx] at hb

/-- The one run that has the turn, whether it had it before. -/
theorem goes (h : Alone runs cur) (hi : runs[i]? = some x) (hcur : ∀ u ∈ cur, u.1 = i)
    (hy : y.busy = true) : Alone (runs.set i y) (some (i, y)) := by
  intro j phase
  rw [getElem?_set_of hi]
  constructor
  · rintro ⟨⟨rfl, rfl⟩ | ⟨hne, hj⟩, hb⟩
    · rfl
    · exact absurd (hcur _ ((h j phase).1 ⟨hj, hb⟩)) hne
  · rintro ⟨⟩
    exact ⟨.inl ⟨rfl, rfl⟩, hy⟩

/-- It gives the turn up. -/
theorem ends (h : Alone runs (some (i, x))) (hy : y.busy = false) : Alone (runs.set i y) none := by
  intro j phase
  obtain ⟨hi, -⟩ := (h i x).2 rfl
  rw [getElem?_set_of hi]
  constructor
  · rintro ⟨⟨-, rfl⟩ | ⟨hne, hj⟩, hb⟩
    · simp [hy] at hb
    · cases (h j phase).1 ⟨hj, hb⟩
      exact absurd rfl hne
  · rintro ⟨⟩

theorem came (h : Alone runs cur) (hy : y.busy = false) : Alone (runs ++ [y]) cur := by
  intro j phase
  rw [← h j phase, getElem?_concat]
  constructor
  · rintro ⟨hj | ⟨-, rfl⟩, hb⟩
    · exact ⟨hj, hb⟩
    · simp [hy] at hb
  · exact fun ⟨hj, hb⟩ => ⟨.inl hj, hb⟩

end Alone

/-- The runs that wait stand in line, each once. -/
structure Waiting (runs : List Run.Phase) (line : List Nat) : Prop where
  nodup : line.Nodup
  mem : ∀ i, i ∈ line ↔ runs[i]? = some .waiting

namespace Waiting

theorem others (h : Waiting runs line) (hi : runs[i]? = some x) (hx : x ≠ .waiting)
    (hy : y ≠ .waiting) : Waiting (runs.set i y) line := by
  refine ⟨h.nodup, fun j => ?_⟩
  rw [h.mem j, getElem?_set_of hi]
  by_cases hj : j = i
  · simp [hj, hi, hx, hy.symm]
  · simp [hj]

theorem joins (h : Waiting runs line) (hi : runs[i]? = some x) (hx : x ≠ .waiting) :
    Waiting (runs.set i .waiting) (line ++ [i]) := by
  constructor
  · refine List.nodup_append.2 ⟨h.nodup, List.pairwise_singleton _ i, ?_⟩
    rintro j hj _ hi' rfl
    cases List.mem_singleton.1 hi'
    exact hx (Option.some.inj (hi.symm.trans ((h.mem i).1 hj)))
  · intro j
    rw [List.mem_append, h.mem j, List.mem_singleton, getElem?_set_of hi]
    by_cases hj : j = i
    · simp [hj]
    · simp [hj]

theorem leaves (h : Waiting runs (i :: line)) (hy : y ≠ .waiting) :
    Waiting (runs.set i y) line := by
  obtain ⟨hnew, hnodup⟩ := List.nodup_cons.1 h.nodup
  refine ⟨hnodup, fun j => ?_⟩
  rw [getElem?_set_of ((h.mem i).1 List.mem_cons_self), ← h.mem j, List.mem_cons]
  by_cases hj : j = i
  · simp [hj, hnew, hy.symm]
  · simp [hj]

theorem came (h : Waiting runs line) (hy : y ≠ .waiting) : Waiting (runs ++ [y]) line := by
  refine ⟨h.nodup, fun j => ?_⟩
  simp [h.mem j, getElem?_concat, hy.symm]

end Waiting
end

/-- One run at most has the turn, and while nobody has it nobody waits for it. When the scheduler is
suspended no run is under way. -/
structure Orderly (c : Crew) (cur : Option (Nat × Run.Phase)) : Prop where
  held : c.turn.held = cur.isSome
  alone : Alone c.runs cur
  waiting : Waiting c.runs c.turn.line
  free : cur = none → c.turn.line = []
  silent : c.desk.scheduler.suspended = true → ∀ u ∈ cur, u.2 = .admitted

namespace Orderly
variable {c : Crew} {cur : Option (Nat × Run.Phase)} {i : Nat} {phase : Run.Phase}

theorem start {d : Desk} (h : d.scheduler.turn = .free) : Orderly ⟨d, []⟩ none where
  held := congrArg Turn.held h
  alone i phase := by simp
  waiting := by
    change Waiting [] d.scheduler.turn.line
    rw [h]
    exact ⟨List.nodup_nil, by simp [Turn.free]⟩
  free _ := congrArg Turn.line h
  silent _ _ hu := by cases hu

theorem came (h : Orderly c cur) : Orderly { c with runs := c.runs ++ [.arriving] } cur where
  held := h.held
  alone := h.alone.came rfl
  waiting := h.waiting.came nofun
  free := h.free
  silent := h.silent

theorem refused (h : Orderly c cur) (hi : c.runs[i]? = some .arriving)
    (r : Except RunError Summary) : Orderly { c with runs := c.runs.set i (.finished r) } cur where
  held := h.held
  alone := h.alone.others hi rfl rfl
  waiting := h.waiting.others hi nofun nofun
  free := h.free
  silent := h.silent

theorem lined (h : Orderly c cur) (hi : c.runs[i]? = some .arriving) (hheld : c.turn.held = true) :
    Orderly ⟨c.desk.withTurn ⟨true, c.turn.line ++ [i]⟩, c.runs.set i .waiting⟩ cur where
  held := hheld.symm.trans h.held
  alone := h.alone.others hi rfl rfl
  waiting := h.waiting.joins hi nofun
  free hcur := by
    rw [h.held, hcur] at hheld
    cases hheld
  silent := h.silent

/-- A run is given the turn that nobody has. -/
theorem admitted (h : Orderly c none) (hi : c.runs[i]? = some .arriving) :
    Orderly ⟨c.desk.withTurn ⟨true, c.turn.line⟩, c.runs.set i .admitted⟩ (some (i, .admitted)) where
  held := rfl
  alone := h.alone.goes hi (fun _ hu => by cases hu) rfl
  waiting := h.waiting.others hi nofun nofun
  free := nofun
  silent _ u hu := by cases hu; rfl

/-- The run that has the turn goes on. -/
theorem acted {phase' : Run.Phase} {d : Desk} (h : Orderly c (some (i, phase)))
    (hturn : d.scheduler.turn = c.turn) (hb : phase'.busy = true)
    (hsilent : d.scheduler.suspended = true → phase' = .admitted) :
    Orderly ⟨d, c.runs.set i phase'⟩ (some (i, phase')) where
  held := (congrArg Turn.held hturn).trans h.held
  alone := h.alone.goes ((h.alone i phase).2 rfl).1 (fun u hu => by cases hu; rfl) hb
  waiting := by
    obtain ⟨hi, hbusy⟩ := (h.alone i phase).2 rfl
    change Waiting _ d.scheduler.turn.line
    rw [hturn]
    refine h.waiting.others hi ?_ ?_
    · rintro rfl
      cases hbusy
    · rintro rfl
      cases hb
  free := nofun
  silent hs u hu := by
    cases hu
    exact hsilent hs

/-- When the run that has the turn ends, the others wait on. -/
theorem rest {line : List Nat} (h : Orderly c (some (i, phase))) (hline : c.turn.line = line)
    (r : Except RunError Summary) : Waiting (c.runs.set i (.finished r)) line := by
  obtain ⟨hi, hbusy⟩ := (h.alone i phase).2 rfl
  refine hline ▸ h.waiting.others hi ?_ nofun
  rintro rfl
  cases hbusy

theorem ended {d : Desk} (h : Orderly c (some (i, phase))) (hline : c.turn.line = [])
    (r : Except RunError Summary) :
    Orderly ⟨d.withTurn .free, c.runs.set i (.finished r)⟩ none where
  held := rfl
  alone := h.alone.ends rfl
  waiting := h.rest hline r
  free _ := rfl
  silent _ _ hu := by cases hu

/-- The run that has the turn ends, and the first in line is given it. -/
theorem handed {d : Desk} {j : Nat} {rest : List Nat} (h : Orderly c (some (i, phase)))
    (hline : c.turn.line = j :: rest) (r : Except RunError Summary) :
    Orderly ⟨d.withTurn ⟨true, rest⟩, (c.runs.set i (.finished r)).set j .admitted⟩
      (some (j, .admitted)) where
  held := rfl
  alone := (h.alone.ends rfl).goes (((h.rest hline r).mem j).1 List.mem_cons_self)
    (fun _ hu => by cases hu) rfl
  waiting := (h.rest hline r).leaves nofun
  free := nofun
  silent _ u hu := by cases hu; rfl

/-- What others do leaves the turn as it is. -/
theorem outside {d : Desk} (h : Orderly c cur) (hturn : d.scheduler.turn = c.turn)
    (hsuspended : d.scheduler.suspended = c.desk.scheduler.suspended) :
    Orderly ⟨d, c.runs⟩ cur where
  held := (congrArg Turn.held hturn).trans h.held
  alone := h.alone
  waiting := by
    change Waiting _ d.scheduler.turn.line
    rw [hturn]
    exact h.waiting
  free hcur := (congrArg Turn.line hturn).trans (h.free hcur)
  silent hs := h.silent (hsuspended ▸ hs)

theorem not_finished (h : Orderly c (some (i, phase))) (r : Except RunError Summary) :
    .finished r ≠ phase := by
  rintro rfl
  cases ((h.alone i _).2 rfl).2

/-- **At most one run has the turn.** -/
theorem unique (h : Orderly c cur) {j : Nat} {phase' : Run.Phase} (hi : c.runs[i]? = some phase)
    (hj : c.runs[j]? = some phase') (hb : phase.busy = true) (hb' : phase'.busy = true) : i = j := by
  have hcur := (h.alone i phase).1 ⟨hi, hb⟩
  rw [(h.alone j phase').1 ⟨hj, hb'⟩] at hcur
  exact (congrArg Prod.fst (Option.some.inj hcur)).symm

end Orderly

/-! ## Moves -/

/-- What a move can come to, where `cur` has the turn before it and `cur'` after it. -/
inductive Moved (c : Crew) (m : Content) : Option (Nat × Run.Phase) → Move → List Event → Crew →
    Option (Nat × Run.Phase) → Content → Prop where
  | came {cur : Option (Nat × Run.Phase)} :
      Moved c m cur .come [] { c with runs := c.runs ++ [.arriving] } cur m
  | refused {cur : Option (Nat × Run.Phase)} {i : Nat} (hi : c.runs[i]? = some .arriving)
      (hs : c.desk.scheduler.suspended = true) :
      Moved c m cur (.ask i) [.run i (.returned (.error .suspended))]
        { c with runs := c.runs.set i (.finished (.error .suspended)) } cur m
  | admitted {i : Nat} (hi : c.runs[i]? = some .arriving)
      (hs : c.desk.scheduler.suspended = false) :
      Moved c m none (.ask i) [.run i .took]
        ⟨c.desk.withTurn ⟨true, c.turn.line⟩, c.runs.set i .admitted⟩ (some (i, .admitted)) m
  | lined {cur : Option (Nat × Run.Phase)} {i : Nat} (hi : c.runs[i]? = some .arriving)
      (hs : c.desk.scheduler.suspended = false) (hheld : c.turn.held = true) :
      Moved c m cur (.ask i) []
        ⟨c.desk.withTurn ⟨true, c.turn.line ++ [i]⟩, c.runs.set i .waiting⟩ cur m
  | acted {i : Nat} {a : Run.Act} {phase phase' : Run.Phase} {deeds : List Run.Deed} {d : Desk}
      {m' : Content} {tr : List Observed} (hi : c.runs[i]? = some phase)
      (h : Follows (Run.act c.desk phase a) m tr (some (deeds, phase', d)) m')
      (hmoves : phase' ≠ phase) (hgo : ∀ r, phase' ≠ .finished r) :
      Moved c m (some (i, phase)) (.act i a) (deeds.map (.run i)) ⟨d, c.runs.set i phase'⟩
        (some (i, phase')) m'
  | ended {i : Nat} {a : Run.Act} {phase : Run.Phase} {deeds : List Run.Deed} {d : Desk}
      {r : Except RunError Summary} {m' : Content} {tr : List Observed}
      (hi : c.runs[i]? = some phase)
      (h : Follows (Run.act c.desk phase a) m tr (some (deeds, .finished r, d)) m')
      (hline : c.turn.line = []) :
      Moved c m (some (i, phase)) (.act i a) (deeds.map (.run i) ++ [.run i (.returned r)])
        ⟨d.withTurn .free, c.runs.set i (.finished r)⟩ none m'
  | handed {i j : Nat} {rest : List Nat} {a : Run.Act} {phase : Run.Phase} {deeds : List Run.Deed}
      {d : Desk} {r : Except RunError Summary} {m' : Content} {tr : List Observed}
      (hi : c.runs[i]? = some phase)
      (h : Follows (Run.act c.desk phase a) m tr (some (deeds, .finished r, d)) m')
      (hline : c.turn.line = j :: rest)
      (hj : (c.runs.set i (.finished r))[j]? = some .waiting) :
      Moved c m (some (i, phase)) (.act i a)
        (deeds.map (.run i) ++ [.run i (.returned r), .run j .took])
        ⟨d.withTurn ⟨true, rest⟩, (c.runs.set i (.finished r)).set j .admitted⟩
        (some (j, .admitted)) m'
  | requested {cur : Option (Nat × Run.Phase)} {passed : Bool} {r : Queue.Request}
      {a : Except QueueError Queue.Reply} {q : Queue} {m' : Content} {tr : List Observed}
      (h : Follows (c.desk.queue.attend passed r) m tr (some (a, q)) m') :
      Moved c m cur (.request passed r) [.request r a]
        { c with desk := { c.desk with queue := q } } cur m'
  | cancelled {cur : Option (Nat × Run.Phase)} : Moved c m cur .cancel [.cancelled] { c with
      desk := { c.desk with scheduler := { c.desk.scheduler with cancelled := true } } } cur m

section
variable {c c' : Crew} {cur cur' : Option (Nat × Run.Phase)} {m m' : Content} {mv : Move}
  {es : List Event} {tr : List Observed} {i : Nat} {a : Run.Act} {phase : Run.Phase}

theorem moved_of_ask (hc : Orderly c cur) (hi : c.runs[i]? = some .arriving) :
    ∃ cur', Moved c m cur (.ask i) (c.ask i).1 (c.ask i).2 cur' m := by
  unfold Crew.ask Turn.ask
  cases hs : c.desk.scheduler.suspended with
  | true => exact ⟨cur, .refused hi hs⟩
  | false =>
    cases hheld : c.turn.held with
    | true =>
      have hlined : Moved c m cur _ _ _ cur m := .lined hi hs hheld
      exact ⟨cur, by simpa [hheld] using hlined⟩
    | false =>
      have hcur : cur = none := by
        rw [hc.held] at hheld
        simpa using hheld
      subst hcur
      exact ⟨_, .admitted hi hs⟩

theorem passOn_of_nil (h : c.turn.line = []) :
    c.passOn = ([], { c with desk := c.desk.withTurn .free }) := by
  rw [passOn, Turn.leave, h]
  rfl

theorem passOn_of_cons {j : Nat} {rest : List Nat} (h : c.turn.line = j :: rest) :
    c.passOn = ([.run j .took], ⟨c.desk.withTurn ⟨true, rest⟩, c.runs.set j .admitted⟩) := by
  rw [passOn, Turn.leave, h]

/-- A step of the run that has the turn, if it leads to another phase. -/
theorem moved_of_put {x : List Run.Deed × Run.Phase × Desk} (hc : Orderly c (some (i, phase)))
    (h : Follows (Run.act c.desk phase a) m tr (some x) m') (hmoves : x.2.1 ≠ phase) :
    ∃ cur', Moved c m (some (i, phase)) (.act i a) (c.put i x).1 (c.put i x).2 cur' m' := by
  obtain ⟨deeds, phase', d⟩ := x
  obtain ⟨hi, -⟩ := (hc.alone i phase).2 rfl
  have hturn : d.scheduler.turn = c.turn := (Run.acted_of_follows h).turn
  cases phase' with
  | finished r =>
    cases hline : c.turn.line with
    | nil =>
      have hpass : (Crew.mk d (c.runs.set i (.finished r))).passOn = _ :=
        passOn_of_nil ((congrArg Turn.line hturn).trans hline)
      have hended := Moved.ended hi h hline
      exact ⟨_, by simpa only [put, hpass] using hended⟩
    | cons j rest =>
      have hpass : (Crew.mk d (c.runs.set i (.finished r))).passOn = _ :=
        passOn_of_cons ((congrArg Turn.line hturn).trans hline)
      have hj := ((hc.rest hline r).mem j).1 List.mem_cons_self
      have hhanded := Moved.handed hi h hline hj
      exact ⟨_, by simpa only [put, hpass] using hhanded⟩
  | _ => exact ⟨_, .acted hi h hmoves nofun⟩

theorem put_same (hi : c.runs[i]? = some phase) (hb : phase.busy = true) :
    c.put i ([], phase, c.desk) = ([], c) := by
  have hset : c.runs.set i phase = c.runs := by
    obtain ⟨hlt, rfl⟩ := List.getElem?_eq_some_iff.1 hi
    exact List.set_getElem_self hlt
  cases phase with
  | finished r => cases hb
  | _ => simp [put, hset]

/-- **A move does nothing or comes to one of these.** -/
theorem moved_of_follows (hc : Orderly c cur)
    (h : Follows (c.perform mv) m tr (some (es, c')) m') :
    (es = [] ∧ c' = c ∧ m' = m) ∨ ∃ cur', Moved c m cur mv es c' cur' m' := by
  have hsame (h : Follows (.done ([], c)) m tr (some (es, c')) m') : es = [] ∧ c' = c ∧ m' = m := by
    obtain ⟨hout, hm⟩ := h.eq_of_done
    cases hout
    exact ⟨rfl, rfl, hm⟩
  cases mv with
  | come =>
    obtain ⟨hout, rfl⟩ := h.eq_of_done
    cases hout
    exact .inr ⟨_, .came⟩
  | ask i =>
    simp only [perform] at h
    split at h
    · rename_i hi
      obtain ⟨hout, rfl⟩ := h.eq_of_done
      obtain ⟨cur', hasked⟩ := moved_of_ask (m := m') hc hi
      rw [← hout] at hasked
      exact .inr ⟨cur', hasked⟩
    · exact .inl (hsame h)
  | act i a =>
    simp only [perform] at h
    split at h
    · rename_i phase hi
      split at h
      · rename_i hb
        have hcur := (hc.alone i phase).1 ⟨hi, hb⟩
        subst hcur
        obtain ⟨out, hact, hout⟩ := h.of_bind_done
        cases out with
        | none => cases hout
        | some x =>
          have hput := Option.some.inj hout
          rcases (Run.acted_of_follows hact).idle_or_moves with ⟨hdeeds, hphase, hd, hm⟩ | hmoves
          · have hx : x = ([], phase, c.desk) := Prod.ext hdeeds (Prod.ext hphase hd)
            rw [hx, put_same hi hb] at hput
            cases hput
            exact .inl ⟨rfl, rfl, hm⟩
          · obtain ⟨cur', hmoved⟩ := moved_of_put hc hact hmoves
            rw [← hput] at hmoved
            exact .inr ⟨cur', hmoved⟩
      · exact .inl (hsame h)
    · exact .inl (hsame h)
  | request passed r =>
    rcases h.of_bind with ⟨hout, -⟩ | ⟨⟨a, q⟩, tr₁, tr₂, m₁, hq, hrest, -⟩
    · cases hout
    · obtain ⟨hout, rfl⟩ := hrest.eq_of_done
      cases hout
      exact .inr ⟨_, .requested hq⟩
  | cancel =>
    obtain ⟨hout, rfl⟩ := h.eq_of_done
    cases hout
    exact .inr ⟨_, .cancelled⟩

/-- **Order is kept.** -/
theorem Orderly.moved (hc : Orderly c cur) (h : Moved c m cur mv es c' cur' m') :
    Orderly c' cur' := by
  cases h with
  | came => exact hc.came
  | refused hi _ => exact hc.refused hi _
  | admitted hi _ => exact hc.admitted hi
  | lined hi _ hheld => exact hc.lined hi hheld
  | acted hi hf _ hgo =>
    have hacted := Run.acted_of_follows hf
    obtain ⟨hb, hs⟩ := hacted.goes_on ((hc.alone _ _).2 rfl).2 hgo
    refine hc.acted hacted.turn hb ?_
    intro hs'
    obtain ⟨hs, hadmitted⟩ := hs hs'
    exact hadmitted (hc.silent hs _ rfl)
  | ended _ _ hline => exact hc.ended hline _
  | handed _ _ hline _ => exact hc.handed hline _
  | requested _ | cancelled => exact hc.outside rfl rfl

end
end Crew
end PingDelivery.Upload
