import PingDelivery.Proofs.Upload.Shift

/-! # What a move comes to for one run

A move of a shift touches one run, or two where the turn is handed on. `Viewed` lists what can become
of a run in a move of anybody, so that what is to be shown of each run can be shown of one.
-/

namespace PingDelivery.Upload
open Store

namespace Shift

def Event.deed? (i : Nat) : Event → Option Run.Deed
  | .crew (.run k x) => if k = i then some x else none
  | .crew (.request _ _) | .crew .cancelled | .asked _ _ _ | .sent _ _ => none

/-- What is seen of a run. -/
def deeds (i : Nat) (es : List Event) : List Run.Deed := es.filterMap (Event.deed? i)

theorem deeds_append (i : Nat) (es es' : List Event) : deeds i (es ++ es') = deeds i es ++ deeds i es' :=
  List.filterMap_append

theorem mem_deeds {i : Nat} {es : List Event} {x : Run.Deed} :
    x ∈ deeds i es ↔ .crew (.run i x) ∈ es := by
  constructor
  · intro h
    obtain ⟨e, he, hx⟩ := List.mem_filterMap.1 h
    unfold Event.deed? at hx
    split at hx
    · split at hx
      · rename_i hk
        cases hx
        exact hk ▸ he
      · cases hx
    all_goals cases hx
  · intro h
    exact List.mem_filterMap.2 ⟨_, h, if_pos rfl⟩

theorem deeds_told (i k : Nat) (log : Option (Queue.Request × Queue.Response)) :
    deeds i (told k log) = [] := by
  rw [deeds, told, List.filterMap_map]
  exact List.filterMap_eq_nil_iff.2 fun _ _ => rfl

theorem deeds_self (i : Nat) (ds : List Run.Deed) :
    deeds i ((ds.map (Crew.Event.run i)).map .crew) = ds := by
  rw [deeds, List.map_map, List.filterMap_map]
  have hsome : Event.deed? i ∘ (Event.crew ∘ Crew.Event.run i) = some :=
    funext fun x => if_pos rfl
  rw [hsome, List.filterMap_some]

theorem deeds_other {i k : Nat} (hik : i ≠ k) (ds : List Run.Deed) :
    deeds i ((ds.map (Crew.Event.run k)).map .crew) = [] := by
  rw [deeds, List.map_map, List.filterMap_map]
  exact List.filterMap_eq_nil_iff.2 fun _ _ => if_neg hik.symm

/-- What a move can come to for a run: its phase before, what is seen of it and its phase after. -/
inductive Viewed (s : Shift) (m : Content) (i : Nat) :
    Option Run.Phase → List Run.Deed → Option Run.Phase → Prop where
  | same (x : Option Run.Phase) : Viewed s m i x [] x
  | came : Viewed s m i none [] (some .arriving)
  | refused (hs : s.crew.desk.scheduler.suspended = true) : Viewed s m i (some .arriving)
      [.returned (.error .suspended)] (some (.finished (.error .suspended)))
  | admitted : Viewed s m i (some .arriving) [.took] (some .admitted)
  | lined : Viewed s m i (some .arriving) [] (some .waiting)
  | given : Viewed s m i (some .waiting) [.took] (some .admitted)
  | goes_on {phase phase' : Run.Phase} {a : Run.Act} {log : Option (Queue.Request × Queue.Response)}
      {ds : List Run.Deed} {d : Desk} {m' : Content} (hb : phase.busy = true)
      (h : Run.Consulted s.crew.desk m phase ((s.found i).ground a) log (ds, phase', d) m')
      (hgo : ∀ r, phase' ≠ .finished r) : Viewed s m i (some phase) ds (some phase')
  | returns {phase : Run.Phase} {a : Run.Act} {log : Option (Queue.Request × Queue.Response)}
      {ds : List Run.Deed} {r : Except RunError Summary} {d : Desk} {m' : Content}
      (hb : phase.busy = true)
      (h : Run.Consulted s.crew.desk m phase ((s.found i).ground a) log (ds, .finished r, d) m') :
      Viewed s m i (some phase) (ds ++ [.returned r]) (some (.finished r))

section
variable {s s' : Shift} {m m' : Content} {es : List Event} {i : Nat}

theorem viewed_came : Viewed s m i s.crew.runs[i]? [] (s.crew.runs ++ [.arriving])[i]? := by
  rcases Nat.lt_trichotomy i s.crew.runs.length with hlt | rfl | hgt
  · rw [List.getElem?_append_left hlt]
    exact .same _
  · rw [List.getElem?_concat_length, List.getElem?_eq_none (Nat.le_refl _)]
    exact .came
  · rw [List.getElem?_eq_none (Nat.le_of_lt hgt), List.getElem?_eq_none]
    · exact .same none
    · rw [List.length_append]
      exact hgt

/-- Where one run takes a step at most one other is concerned, who is given the turn. -/
theorem viewed_put {k : Nat} {phase : Run.Phase} {a : Run.Act}
    {log : Option (Queue.Request × Queue.Response)} {x : List Run.Deed × Run.Phase × Desk}
    {es : List Crew.Event} {c : Crew} (hk : s.crew.runs[k]? = some phase) (hb : phase.busy = true)
    (h : Run.Consulted s.crew.desk m phase ((s.found k).ground a) log x m')
    (hput : Put s.crew k x es c) (i : Nat) :
    Viewed s m i s.crew.runs[i]? (deeds i (es.map .crew)) c.runs[i]? := by
  have hlt : k < s.crew.runs.length := (List.getElem?_eq_some_iff.1 hk).1
  rcases eq_or_ne i k with rfl | hik
  · cases hput with
    | goes_on hgo =>
      rw [hk, deeds_self, List.getElem?_set_self hlt]
      exact .goes_on hb h hgo
    | @ends ds r d =>
      have hds : deeds i ((ds.map (Crew.Event.run i) ++ [Crew.Event.run i (.returned r)]).map .crew) =
          ds ++ [.returned r] := by
        rw [List.map_append, deeds_append, deeds_self]
        simp [deeds, Event.deed?]
      rw [hk, hds, List.getElem?_set_self hlt]
      exact .returns hb h
    | @hands ds r d j rest hj =>
      have hij : j ≠ i := by
        rintro rfl
        cases hj.symm.trans (List.getElem?_set_self hlt)
      have hds : deeds i ((ds.map (Crew.Event.run i) ++
          [Crew.Event.run i (.returned r), .run j .took]).map .crew) = ds ++ [.returned r] := by
        rw [List.map_append, deeds_append, deeds_self]
        simp [deeds, Event.deed?, hij]
      rw [hk, hds, List.getElem?_set_ne hij, List.getElem?_set_self hlt]
      exact .returns hb h
  · cases hput with
    | goes_on hgo =>
      rw [deeds_other hik, List.getElem?_set_ne hik.symm]
      exact .same _
    | @ends ds r d =>
      have hds : deeds i
          ((ds.map (Crew.Event.run k) ++ [Crew.Event.run k (.returned r)]).map .crew) = [] := by
        rw [List.map_append, deeds_append, deeds_other hik]
        simp [deeds, Event.deed?, hik.symm]
      rw [hds, List.getElem?_set_ne hik.symm]
      exact .same _
    | @hands ds r d j rest hj =>
      rw [List.map_append, deeds_append, deeds_other hik, List.nil_append]
      rcases eq_or_ne i j with rfl | hij
      · have hwaiting : s.crew.runs[i]? = some .waiting := (List.getElem?_set_ne hik.symm).symm.trans hj
        have hds : deeds i ([Crew.Event.run k (.returned r), .run i .took].map .crew) = [.took] := by
          simp [deeds, Event.deed?, hik.symm]
        rw [hwaiting, hds, List.getElem?_set_self (List.getElem?_eq_some_iff.1 hj).1]
        exact .given
      · have hds : deeds i ([Crew.Event.run k (.returned r), .run j .took].map .crew) = [] := by
          simp [deeds, Event.deed?, hik.symm, hij.symm]
        rw [hds, List.getElem?_set_ne hij.symm, List.getElem?_set_ne hik.symm]
        exact .same _

theorem viewed_set {k : Nat} {x y : Run.Phase} {ds : List Run.Deed} (hk : s.crew.runs[k]? = some x)
    (hself : Viewed s m k (some x) ds (some y)) (i : Nat) :
    Viewed s m i s.crew.runs[i]? (deeds i ((ds.map (.run k)).map .crew)) (s.crew.runs.set k y)[i]? := by
  rcases eq_or_ne i k with rfl | hik
  · rw [hk, deeds_self, List.getElem?_set_self (List.getElem?_eq_some_iff.1 hk).1]
    exact hself
  · rw [deeds_other hik, List.getElem?_set_ne hik.symm]
    exact .same _

/-- **A move comes to one of these for a run.** -/
theorem Moved.view (h : Moved s m es s' m') (i : Nat) :
    Viewed s m i s.crew.runs[i]? (deeds i es) s'.crew.runs[i]? := by
  cases h with
  | kept _ | checked _ _ | inquired _ _ _ _ | hired _ | dismissed _ _ | heard _ _ | requested _
  | cancelled => exact .same _
  | came | sent _ => exact viewed_came
  | refused hk hs => exact viewed_set hk (.refused hs) i
  | admitted hk _ => exact viewed_set hk .admitted i
  | lined hk _ => exact viewed_set hk .lined i
  | acted hk hb h hput =>
    rw [deeds_append, deeds_told, List.nil_append]
    exact viewed_put hk hb h hput i

end
end Shift
end PingDelivery.Upload
