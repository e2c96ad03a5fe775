import PingDelivery.Proofs.Upload.Turns

/-! # Runs in turn are runs one after another

`Serial` is a crew without a turn: one run after another takes steps, from the desk that the others
have left. Whatever a crew can be seen to do, in whatever way its runs interleave, is seen of
`Serial`, with the runs in the order in which they were given the turn.
-/

namespace PingDelivery.Upload
open Store

/-! ## No step looks at the turn -/

namespace Run

/-- The same phase and desk, but for the turn. -/
def retaken (t : Turn) (x : Phase × Desk) : Step := .done (x.1, x.2.withTurn t)

section
variable (d : Desk) (t : Turn)

theorem fail_withTurn (e : QueueError) : fail (d.withTurn t) e = (fail d e).bind (retaken t) := by
  unfold fail
  split
  · rw [told_bind]
    rfl
  · rfl

theorem looked_withTurn (s : Summary) (a : Except QueueError Queue.Reply) :
    looked (d.withTurn t) s a = (looked d s a).bind (retaken t) := by
  unfold looked
  split
  · exact fail_withTurn d t _
  · rw [told_bind]
    rfl
  · rfl

theorem account_withTurn (p : Ping) (s : Summary) (o : Outcome) (reply : Queue.Reply) :
    account (d.withTurn t) p s o reply =
      ((account d p s o reply).1, { (account d p s o reply).2.1 with turn := t },
        (account d p s o reply).2.2) := by
  unfold account
  split <;> rfl

theorem settled_withTurn (p : Ping) (o : Outcome) (s : Summary)
    (a : Except QueueError Queue.Reply) :
    settled (d.withTurn t) p o s a = (settled d p o s a).bind (retaken t) := by
  cases a with
  | error e => exact fail_withTurn d t e
  | ok reply =>
    simp only [settled, account_withTurn]
    rfl

theorem call_withTurn (phase : Phase) : call (d.withTurn t) phase =
    ((call d phase).1, (call d phase).2.1, (call d phase).2.2.withTurn t) := by
  unfold call
  split
  · change (if d.scheduler.cancelled then _ else _) = _
    split <;> rfl
  · rfl

/-- A step comes to the same whoever has the turn. -/
theorem act_withTurn (phase : Phase) (a : Act) : act (d.withTurn t) phase a =
    (act d phase a).bind fun x => .done (x.1, x.2.1, x.2.2.withTurn t) := by
  cases phase with
  | looking s =>
    cases a with
    | look checked passed =>
      change (if d.scheduler.cancelled && !checked then _ else (d.queue.attend passed _).bind _) =
        (if d.scheduler.cancelled && !checked then _ else _ : Program _).bind _
      split
      · rfl
      · rw [Program.bind_assoc]
        refine Program.bind_congr ?_
        rintro ⟨a, q⟩
        change (looked (Desk.withTurn { d with queue := q } t) s a).bind _ = _
        rw [looked_withTurn, Program.bind_assoc, Program.bind_assoc]
        exact Program.bind_congr fun x => congrArg Program.done (call_withTurn x.2 t x.1)
    | _ => rfl
  | uploading p s =>
    cases a with
    | hear o | expire | abandon =>
      change (if d.scheduler.cancelled then _ else _) =
        (if d.scheduler.cancelled then _ else _ : Program _).bind _
      split <;> rfl
    | _ => rfl
  | settling p o s =>
    cases a with
    | settle passed =>
      change (d.queue.attend passed _).bind _ = ((d.queue.attend passed _).bind _).bind _
      rw [Program.bind_assoc]
      refine Program.bind_congr ?_
      rintro ⟨a, q⟩
      change (settled (Desk.withTurn { d with queue := q } t) p o s a).bind _ = _
      rw [settled_withTurn, Program.bind_assoc, Program.bind_assoc]
      exact Program.bind_congr fun x => rfl
    | _ => rfl
  | admitted => cases a <;> rfl
  | _ => rfl

theorem follows_withTurn {d d' : Desk} {m m' : Content} {phase phase' : Phase} {a : Act}
    {deeds : List Deed} {tr : List Observed} (t : Turn)
    (h : Follows (act d phase a) m tr (some (deeds, phase', d')) m') :
    ∃ tr', Follows (act (d.withTurn t) phase a) m tr' (some (deeds, phase', d'.withTurn t)) m' := by
  rw [act_withTurn]
  exact ⟨_, h.bind (.done _ _)⟩

end
end Run

/-! ## Calls of the uploader -/

namespace Run

/-- How many calls of the uploader the run waits for. -/
def Phase.aloft : Phase → Nat
  | .uploading _ _ => 1
  | _ => 0

theorem Phase.aloft_le (phase : Phase) : phase.aloft ≤ 1 := by
  unfold aloft
  split <;> decide

theorem Phase.Idle.aloft {phase : Phase} (h : phase.Idle) : phase.aloft = 0 := by
  rcases h with ⟨s, rfl⟩ | ⟨r, rfl⟩ <;> rfl

/-- A step calls the uploader or hears of a call, and waits for none else. -/
theorem Acted.flights {d d' : Desk} {m m' : Content} {phase phase' : Phase} {a : Act}
    {deeds : List Deed} (h : Acted d m phase a deeds phase' d' m') :
    phase.aloft + (deeds.filterMap Deed.called?).length = deeds.countP Deed.lands + phase'.aloft := by
  cases h with
  | idle => exact Nat.add_comm _ _
  | entered => exact (idle_takeTurn d).aloft.symm.trans (Nat.zero_add _).symm
  | settled _ => exact (idle_account _ _ _ _ _).1.aloft.symm.trans (Nat.zero_add _).symm
  | _ => rfl

end Run

namespace Crew

def aloft (cur : Option (Nat × Run.Phase)) : Nat := cur.elim 0 (·.2.aloft)

theorem calls_deeds (i : Nat) (deeds : List Run.Deed) :
    calls (deeds.map (.run i)) = deeds.filterMap Run.Deed.called? := by
  rw [calls, List.filterMap_map]
  rfl

theorem landings_deeds (i : Nat) (deeds : List Run.Deed) :
    landings (deeds.map (.run i)) = deeds.countP Run.Deed.lands := by
  rw [landings, List.countP_map]
  rfl

theorem calls_append (es es' : List Event) : calls (es ++ es') = calls es ++ calls es' :=
  List.filterMap_append

theorem landings_append (es es' : List Event) :
    landings (es ++ es') = landings es + landings es' :=
  List.countP_append

theorem calls_append_deed {x : Run.Deed} (h : x.called? = none) (es : List Event) (i : Nat) :
    calls (es ++ [x].map (.run i)) = calls es := by
  rw [calls_append, calls_deeds, List.filterMap_cons_none h, List.filterMap_nil, List.append_nil]

theorem landings_append_deed (es : List Event) (i : Nat) (x : Run.Deed) :
    landings (es ++ [x].map (.run i)) = landings es + if x.lands then 1 else 0 := by
  rw [landings_append, landings_deeds, List.countP_singleton]

end Crew

/-! ## One after another -/

namespace Crew

/-- `Serial d₀ m₀ es cur d m`: from the desk `d₀` over the content `m₀` runs have been carried out one
after another, with `es` to be seen; `cur` is the one under way. A run that finds the scheduler
suspended when it comes is refused, which others may be only while no run is under way. -/
inductive Serial (d₀ : Desk) (m₀ : Content) :
    List Event → Option (Nat × Run.Phase) → Desk → Content → Prop where
  | start : Serial d₀ m₀ [] none d₀ m₀
  | takes {es : List Event} {d : Desk} {m : Content} {i : Nat} (h : Serial d₀ m₀ es none d m)
      (hnew : ∀ x, .run i x ∉ es) : Serial d₀ m₀ (es ++ [.run i .took]) (some (i, .admitted)) d m
  | acts {es : List Event} {d d' : Desk} {m m' : Content} {i : Nat} {phase phase' : Run.Phase}
      {a : Run.Act} {deeds : List Run.Deed} {tr : List Observed}
      (h : Serial d₀ m₀ es (some (i, phase)) d m) (hh : Honest es i d a)
      (hf : Follows (Run.act d phase a) m tr (some (deeds, phase', d')) m')
      (hgo : ∀ r, phase' ≠ .finished r) :
      Serial d₀ m₀ (es ++ deeds.map (.run i)) (some (i, phase')) d' m'
  | returns {es : List Event} {d d' : Desk} {m m' : Content} {i : Nat} {phase : Run.Phase}
      {a : Run.Act} {deeds : List Run.Deed} {r : Except RunError Summary} {tr : List Observed}
      (h : Serial d₀ m₀ es (some (i, phase)) d m) (hh : Honest es i d a)
      (hf : Follows (Run.act d phase a) m tr (some (deeds, .finished r, d')) m') :
      Serial d₀ m₀ (es ++ (deeds.map (.run i) ++ [.run i (.returned r)])) none d' m'
  | refused {es : List Event} {cur : Option (Nat × Run.Phase)} {d : Desk} {m : Content} {i : Nat}
      (h : Serial d₀ m₀ es cur d m) (hcur : ∀ u ∈ cur, u.2 = .admitted)
      (hs : d.scheduler.suspended = true) (hnew : ∀ x, .run i x ∉ es) :
      Serial d₀ m₀ (es ++ [.run i (.returned (.error .suspended))]) cur d m
  | requested {es : List Event} {cur : Option (Nat × Run.Phase)} {d : Desk} {m m' : Content}
      {passed : Bool} {r : Queue.Request} {a : Except QueueError Queue.Reply} {q : Queue}
      {tr : List Observed} (h : Serial d₀ m₀ es cur d m)
      (hf : Follows (d.queue.attend passed r) m tr (some (a, q)) m') :
      Serial d₀ m₀ (es ++ [.request r a]) cur { d with queue := q } m'
  | cancelled {es : List Event} {cur : Option (Nat × Run.Phase)} {d : Desk} {m : Content}
      (h : Serial d₀ m₀ es cur d m) : Serial d₀ m₀ (es ++ [.cancelled]) cur
        { d with scheduler := { d.scheduler with cancelled := true } } m

def Begun (runs : List Run.Phase) (i : Nat) : Prop :=
  ∃ phase, runs[i]? = some phase ∧ phase.begun = true

namespace Begun
variable {runs : List Run.Phase} {i j : Nat} {x y : Run.Phase}

theorem set (h : Begun runs j) (hy : y.begun = true) : Begun (runs.set i y) j := by
  obtain ⟨phase, hj, hphase⟩ := h
  by_cases hij : i = j
  · subst hij
    have hlt : i < runs.length := (List.getElem?_eq_some_iff.1 hj).1
    exact ⟨y, List.getElem?_set_self hlt, hy⟩
  · exact ⟨phase, (List.getElem?_set_ne hij).trans hj, hphase⟩

theorem set_self (hi : runs[i]? = some x) (hy : y.begun = true) : Begun (runs.set i y) i :=
  ⟨y, List.getElem?_set_self (List.getElem?_eq_some_iff.1 hi).1, hy⟩

theorem ne (h : Begun runs j) (hi : runs[i]? = some x) (hx : x.begun = false) : i ≠ j := by
  rintro rfl
  obtain ⟨phase, hj, hphase⟩ := h
  cases hi.symm.trans hj
  simp [hx] at hphase

end Begun

/-- Of runs that have not begun nothing is to be seen. -/
def Unseen (es : List Event) (runs : List Run.Phase) : Prop := ∀ i x, .run i x ∈ es → Begun runs i

namespace Unseen
variable {es es' : List Event} {runs runs' : List Run.Phase} {i : Nat} {phase : Run.Phase}

theorem new (h : Unseen es runs) (hi : runs[i]? = some phase) (hphase : phase.begun = false) :
    ∀ x, .run i x ∉ es := by
  intro x hx
  exact (h i x hx).ne hi hphase rfl

theorem append (h : Unseen es runs) (hruns : ∀ j, Begun runs j → Begun runs' j)
    (hes : Unseen es' runs') : Unseen (es ++ es') runs' := by
  intro j x hx
  rcases List.mem_append.1 hx with hx | hx
  · exact hruns j (h j x hx)
  · exact hes j x hx

theorem deeds (deeds : List Run.Deed) (h : Begun runs i) : Unseen (deeds.map (.run i)) runs := by
  intro j x hx
  obtain ⟨y, -, hy⟩ := List.mem_map.1 hx
  cases hy
  exact h

theorem singleton {x : Run.Deed} (h : Begun runs i) : Unseen [.run i x] runs :=
  deeds [x] h

theorem nil : Unseen [] runs := by
  intro j x hx
  cases hx

theorem returned (h : Unseen es runs) (hi : runs[i]? = some phase) (deeds : List Run.Deed)
    (r : Except RunError Summary) :
    Unseen (es ++ (deeds.map (.run i) ++ [.run i (.returned r)])) (runs.set i (.finished r)) := by
  refine h.append (fun j hj => hj.set rfl) ?_
  exact (Unseen.deeds deeds (.set_self hi rfl)).append (fun _ hj => hj) (.singleton (.set_self hi rfl))

end Unseen

theorem begun_of_busy {phase : Run.Phase} (h : phase.busy = true) : phase.begun = true := by
  cases phase <;> first | rfl | cases h

section
variable {c c' : Crew} {cur cur' : Option (Nat × Run.Phase)} {m m' : Content} {mv : Move}
  {es es' : List Event}

/-- Nothing is seen of a run before it has begun. -/
theorem Unseen.moved (hes : Unseen es c.runs) (hc : Orderly c cur)
    (h : Moved c m cur mv es' c' cur' m') : Unseen (es ++ es') c'.runs := by
  cases h with
  | came =>
    refine hes.append ?_ .nil
    rintro j ⟨phase, hj, hphase⟩
    exact ⟨phase, getElem?_concat.2 (.inl hj), hphase⟩
  | refused hi _ | admitted hi _ =>
    exact hes.append (fun j hj => hj.set rfl) (.singleton (.set_self hi rfl))
  | lined hi _ _ =>
    refine hes.append ?_ .nil
    intro j hj
    have hne := hj.ne hi rfl
    obtain ⟨phase, hj, hphase⟩ := hj
    exact ⟨phase, (List.getElem?_set_ne hne).trans hj, hphase⟩
  | acted hi hf _ hgo =>
    have hb := ((hc.alone _ _).2 rfl).2
    have hbegun := begun_of_busy ((Run.acted_of_follows hf).goes_on hb hgo).1
    exact hes.append (fun j hj => hj.set hbegun) (.deeds _ (.set_self hi hbegun))
  | ended hi _ _ => exact hes.returned hi _ _
  | @handed i j rest a phase deeds d r _ tr hi _ _ hj =>
    have htook := (hes.returned hi deeds r).append (fun j' hj' => hj'.set rfl)
      (Unseen.singleton (x := .took) (Begun.set_self (y := .admitted) hj rfl))
    simpa using htook
  | requested _ | cancelled =>
    refine hes.append (fun _ hj => hj) ?_
    intro j x hx
    cases List.mem_singleton.1 hx

/-- A move of the crew is one of runs that take no turns, or two. -/
theorem Serial.moved {d : Desk} {m₀ : Content} (hs : Serial d m₀ es cur (c.desk.withTurn .free) m)
    (hc : Orderly c cur) (hes : Unseen es c.runs) (hh : mv.Honest es c.desk)
    (h : Moved c m cur mv es' c' cur' m') : Serial d m₀ (es ++ es') cur' (c'.desk.withTurn .free) m' := by
  cases h with
  | came | lined _ _ _ =>
    rw [List.append_nil]
    exact hs
  | refused hi hsuspended => exact hs.refused (hc.silent hsuspended) hsuspended (hes.new hi rfl)
  | admitted hi _ => exact hs.takes (hes.new hi rfl)
  | acted _ hf _ hgo =>
    obtain ⟨tr', hf'⟩ := Run.follows_withTurn .free hf
    exact hs.acts hh hf' hgo
  | ended _ hf _ =>
    obtain ⟨tr', hf'⟩ := Run.follows_withTurn .free hf
    exact hs.returns hh hf'
  | @handed i j rest a phase deeds d' r _ tr hi hf hline hj =>
    obtain ⟨tr', hf'⟩ := Run.follows_withTurn .free hf
    -- two moves here: the one run returns, and the other takes its turn
    have htakes := (hs.returns hh hf').takes ((hes.returned hi deeds r).new hj rfl)
    change Serial _ _ _ _ (d'.withTurn .free) _
    simpa using htakes
  | requested hq => exact hs.requested hq
  | cancelled => exact hs.cancelled

end

/-- A call of the uploader that is not over is that of the run under way. -/
theorem Serial.flights {d d₀ : Desk} {m₀ : Content} (hs : Serial d₀ m₀ es cur d m) :
    (calls es).length = landings es + aloft cur := by
  have hquiet {es : List Event} {e : Event} {n : Nat} (h : (calls es).length = landings es + n)
      (hcalled : e.called? = none) (hlands : e.lands = false) :
      (calls (es ++ [e])).length = landings (es ++ [e]) + n := by
    have hcalls : calls [e] = [] := by simp [calls, hcalled]
    have hlandings : landings [e] = 0 := by simp [landings, hlands]
    rw [calls_append, landings_append, hcalls, hlandings, List.append_nil, h, Nat.add_zero]
  have hstep {es : List Event} {i : Nat} {phase phase' : Run.Phase} {deeds : List Run.Deed}
      (h : (calls es).length = landings es + phase.aloft)
      (hdeeds : phase.aloft + (deeds.filterMap Run.Deed.called?).length =
        deeds.countP Run.Deed.lands + phase'.aloft) :
      (calls (es ++ deeds.map (.run i))).length =
        landings (es ++ deeds.map (.run i)) + phase'.aloft := by
    rw [calls_append, landings_append, calls_deeds, landings_deeds, List.length_append]
    omega
  induction hs with
  | start => rfl
  | takes _ _ ih => exact hquiet ih rfl rfl
  | acts _ _ hf _ ih => exact hstep ih (Run.acted_of_follows hf).flights
  | returns _ _ hf ih =>
    rw [← List.append_assoc]
    exact hquiet (hstep ih (Run.acted_of_follows hf).flights) rfl rfl
  | refused _ _ _ _ ih | requested _ _ ih | cancelled _ ih => exact hquiet ih rfl rfl

/-- **Whatever a crew can be seen to do is done by runs one after another**, in the order in which
they were given the turn. -/
theorem Course.serial {d : Desk} {m₀ m : Content} {es : List Event} {c : Crew}
    (hfree : d.scheduler.turn = .free) (h : Course ⟨d, []⟩ m₀ es c m) : ∃ cur, Orderly c cur ∧
      Unseen es c.runs ∧ Serial d m₀ es cur (c.desk.withTurn .free) m := by
  induction h with
  | start =>
    have hd : d.withTurn .free = d := by
      rw [Desk.withTurn, ← hfree]
    refine ⟨none, .start hfree, .nil, ?_⟩
    change Serial d m₀ [] none (d.withTurn .free) m₀
    rw [hd]
    exact .start
  | move _ hh hf ih =>
    obtain ⟨cur, hc, hes, hs⟩ := ih
    rcases moved_of_follows hc hf with ⟨rfl, rfl, rfl⟩ | ⟨cur', hmoved⟩
    · rw [List.append_nil]
      exact ⟨cur, hc, hes, hs⟩
    · exact ⟨cur', hc.moved hmoved, hes.moved hc hmoved, hs.moved hc hes hh hmoved⟩

end Crew
end PingDelivery.Upload
