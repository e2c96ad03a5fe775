import PingDelivery.Proofs.Upload.Books
import PingDelivery.Proofs.Upload.Suspension

/-! # Cancelling disturbs nothing

Once the scheduler has been cancelled no uploader is called, heard or waited for. The run under way may
still acknowledge an answer that it has had before, and nothing else becomes of the queue by a run. A
ping whose upload is abandoned is left as it was, and nothing is counted for it.
-/

namespace PingDelivery.Upload
open Store

namespace Run

/-- The uploader is called, heard, or waited for in vain. -/
def Deed.Polls : Deed → Prop
  | .called _ | .answered _ _ | .expired _ => True
  | .took | .abandoned _ | .acked _ _ | .returned _ => False

section
variable {d : Desk} {m m' : Content} {phase : Phase} {a : Act}
  {log : Option (Queue.Request × Queue.Response)} {x : List Deed × Phase × Desk}

/-- What a run of a cancelled scheduler can come to. -/
inductive Wound (d : Desk) : Phase → Act → Option (Queue.Request × Queue.Response) → List Deed →
    Phase → Prop where
  | idle (phase : Phase) (a : Act) : Wound d phase a none [] phase
  | entered : Wound d .admitted .enter none [] (takeTurn d)
  | stopped {s : Summary} {passed : Bool} :
      Wound d (.looking s) (.look false passed) none [] (Run.stopped s)
  | abandoned {p : Ping} {s : Summary} :
      Wound d (.uploading p s) .abandon none [.abandoned p] (Run.stopped s)
  | looked {s : Summary} {passed : Bool} {b : Queue.Response} {r : Except RunError Summary} :
      Wound d (.looking s) (.look true passed) (some (.peek 1, b)) [] (.finished r)
  | settled {p : Ping} {o : Outcome} {s : Summary} {passed : Bool} {b : Queue.Response}
      {phase : Phase} (hidle : phase.Idle) :
      Wound d (.settling p o s) (.settle passed) (some (ack p o, b)) [.acked (ack p o) b] phase

theorem Consulted.wound (h : Consulted d m phase a log x m') (hc : d.scheduler.cancelled = true) :
    Wound d phase a log x.1 x.2.1 := by
  cases h with
  | idle _ => exact .idle _ _
  | entered => exact .entered
  | stopped _ => exact .stopped
  | abandoned _ => exact .abandoned
  | answered hc' | expired hc' =>
    rw [hc] at hc'
    cases hc'
  | @looked s checked passed hchecked =>
    obtain ⟨hdeeds, r, hr⟩ := (looked_heeded d s (sight d passed)).finished hc
    rw [hdeeds, hr, hchecked hc]
    exact .looked
  | @settled p o s passed b q tr m' _ =>
    rw [heeded_settling_deeds]
    refine .settled ?_
    cases b with
    | error e => exact .inr ⟨_, rfl⟩
    | ok reply => exact (idle_account _ p s o reply).1

theorem Wound.not_polls {ds : List Deed} {phase' : Phase} (h : Wound d phase a log ds phase') :
    ∀ x ∈ ds, ¬ x.Polls := by
  cases h <;> simp [Deed.Polls]

theorem Consulted.of_called {p : Ping} (h : Consulted d m phase a log x m')
    (hcalled : .called p ∈ x.1) : ∃ s r b rest,
      log = some (r, b) ∧ x = ([.called p], .uploading p s, d) ∧ d.queue.pings = p :: rest := by
  have hlooked {s : Summary} {passed : Bool} {b : Queue.Response} (h : Looked d s b x)
      (hb : sight d passed = b) (hcalled : .called p ∈ x.1) :
      x = ([.called p], .uploading p s, d) ∧ ∃ rest, d.queue.pings = p :: rest := by
    cases h with
    | refused e | stopped _ | emptied _ => cases hcalled
    | @called p' rest _ =>
      cases List.mem_singleton.1 hcalled
      refine ⟨rfl, ?_⟩
      unfold sight at hb
      split at hb
      · cases hb
      · cases hpings : d.queue.pings with
        | nil =>
          rw [hpings] at hb
          cases hb
        | cons p' rest' =>
          rw [hpings] at hb
          cases hb
          exact ⟨rest', rfl⟩
  cases h with
  | idle _ | entered | stopped _ => cases hcalled
  | answered _ | expired _ | abandoned _ => cases List.mem_singleton.1 hcalled
  | @looked s checked passed _ =>
    obtain ⟨hx, rest, hrest⟩ := hlooked (looked_heeded d s (sight d passed)) rfl hcalled
    exact ⟨s, _, _, rest, rfl, hx, hrest⟩
  | settled _ =>
    rw [heeded_settling_deeds] at hcalled
    cases List.mem_singleton.1 hcalled

/-- A run waits for the uploader since it has handed the ping over. -/
theorem Consulted.of_uploading {p : Ping} {w : Summary} (h : Consulted d m phase a log x m')
    (hx : x.2.1 = .uploading p w) :
    (phase = .uploading p w ∧ log = none ∧ x.1 = []) ∨ .called p ∈ x.1 := by
  have hidle (hidle : x.2.1.Idle) : False := by
    rcases hidle with ⟨s, hs⟩ | ⟨r, hr⟩
    · cases hs.symm.trans hx
    · cases hr.symm.trans hx
  have hlooked {s : Summary} {b : Queue.Response} (h : Looked d s b x) : .called p ∈ x.1 := by
    cases h with
    | refused e | stopped _ | emptied _ => cases hx
    | called _ =>
      cases hx
      exact List.mem_cons_self
  cases h with
  | idle _ => exact .inl ⟨hx, rfl, rfl⟩
  | entered => exact (hidle (idle_takeTurn d)).elim
  | stopped _ | answered _ | expired _ | abandoned _ => cases hx
  | looked _ => exact .inr (hlooked (looked_heeded d _ _))
  | @settled p o s passed b q tr m' _ =>
    cases b with
    | error e => cases hx
    | ok reply => exact (hidle (idle_account { d with queue := q } p s o reply).1).elim

/-- Whoever abandons a ping has waited for the uploader, and the scheduler has been cancelled. -/
theorem Consulted.of_abandoned {p : Ping} (h : Consulted d m phase a log x m')
    (hmem : .abandoned p ∈ x.1) : d.scheduler.cancelled = true ∧ ∃ w,
      phase = .uploading p w ∧ log = none ∧ x = ([.abandoned p], Run.stopped w, d) := by
  have hlooked {s : Summary} {b : Queue.Response} (h : Looked d s b x) : .abandoned p ∉ x.1 := by
    cases h <;> simp
  cases h with
  | idle _ | entered | stopped _ => cases hmem
  | answered _ | expired _ => cases List.mem_singleton.1 hmem
  | abandoned hc =>
    cases List.mem_singleton.1 hmem
    exact ⟨hc, _, rfl, rfl, rfl⟩
  | looked _ => exact absurd hmem (hlooked (looked_heeded d _ _))
  | settled _ =>
    rw [heeded_settling_deeds] at hmem
    cases List.mem_singleton.1 hmem

end

/-- The run may be about to ask the queue. -/
def Phase.asking : Phase → Bool
  | .looking _ | .settling _ _ _ => true
  | _ => false

theorem Phase.Idle.ne_settling {phase : Phase} (h : phase.Idle) (p : Ping) (o : Outcome)
    (s : Summary) : phase ≠ .settling p o s := by
  rcases h with ⟨s', rfl⟩ | ⟨r, rfl⟩ <;> simp

/-- The run has not begun, or has not come yet. -/
def Unbegun (phase : Option Phase) : Prop :=
  phase = none ∨ phase = some .arriving ∨ phase = some .waiting ∨ phase = some .admitted

/-- A run that had not looked for a ping when the scheduler was cancelled. -/
inductive Late (suspended : Prop) : Option Phase → Prop where
  | absent : Late suspended none
  | arriving : Late suspended (some .arriving)
  | waiting : Late suspended (some .waiting)
  | admitted : Late suspended (some .admitted)
  | looking : Late suspended (some (.looking .zero))
  | stopped : Late suspended (some (stopped .zero))
  | refused (h : suspended) : Late suspended (some (.finished (.error .suspended)))

theorem Late.mono {P Q : Prop} (hpq : P → Q) {phase : Option Phase} (h : Late P phase) :
    Late Q phase := by
  cases h with
  | refused hp => exact .refused (hpq hp)
  | absent => exact .absent
  | arriving => exact .arriving
  | waiting => exact .waiting
  | admitted => exact .admitted
  | looking => exact .looking
  | stopped => exact .stopped

theorem Unbegun.late {phase : Option Phase} (h : Unbegun phase) (suspended : Prop) :
    Late suspended phase := by
  rcases h with rfl | rfl | rfl | rfl
  · exact .absent
  · exact .arriving
  · exact .waiting
  · exact .admitted

/-- Who is late has attempted nothing. -/
theorem Late.finished {suspended : Prop} {r : Except RunError Summary}
    (h : Late suspended (some (.finished r))) (hs : ¬ suspended) :
    ∃ w, r = .ok w ∧ w.stopReason = .cancelled ∧ w.attempted = 0 := by
  generalize hphase : some (Phase.finished r) = phase at h
  cases h with
  | stopped =>
    cases hphase
    exact ⟨_, rfl, rfl, rfl⟩
  | refused h => exact absurd h hs
  | _ => cases hphase

end Run

theorem Found.checked_of_ground {f : Found} {a : Run.Act} {checked passed : Bool}
    (h : f.ground a = .look checked passed) : f.checked = checked := by
  cases a with
  | look _ _ =>
    cases h
    rfl
  | _ => cases h

namespace Shift

/-! ## One move -/

/-- What a run may still ask once the scheduler is cancelled: it has an answer to acknowledge, or was
going to look and had found that nobody had cancelled. -/
inductive Owes (s : Shift) (i : Nat) : Queue.Request → Prop where
  | ack {p : Ping} {o : Outcome} {w : Summary} (h : s.crew.runs[i]? = some (.settling p o w)) :
      Owes s i (Run.ack p o)
  | look {w : Summary} (h : s.crew.runs[i]? = some (.looking w)) (hf : (s.found i).checked = true) :
      Owes s i (.peek 1)

section
variable {s s' : Shift} {m m' : Content} {es : List Event} {i : Nat}

theorem Put.runs {c c' : Crew} {phase : Run.Phase} {x : List Run.Deed × Run.Phase × Desk}
    {es : List Crew.Event} (h : Put c i x es c') (hi : c.runs[i]? = some phase) :
    c'.runs[i]? = some x.2.1 ∧
      ∀ k, k ≠ i → c'.runs[k]? = c.runs[k]? ∨ c'.runs[k]? = some .admitted := by
  have hlt : i < c.runs.length := (List.getElem?_eq_some_iff.1 hi).1
  cases h with
  | goes_on _ | ends =>
    exact ⟨List.getElem?_set_self hlt, fun k hk => .inl (List.getElem?_set_ne hk.symm)⟩
  | @hands ds r d j rest hj =>
    have hji : j ≠ i := by
      rintro rfl
      cases hj.symm.trans (List.getElem?_set_self hlt)
    refine ⟨(List.getElem?_set_ne hji).trans (List.getElem?_set_self hlt), fun k hk => ?_⟩
    rcases eq_or_ne k j with rfl | hkj
    · exact .inr (List.getElem?_set_self (List.getElem?_eq_some_iff.1 hj).1)
    · exact .inl ((List.getElem?_set_ne hkj.symm).trans (List.getElem?_set_ne hk.symm))

/-- Cancelling is for good. -/
theorem Moved.cancelled_stays (h : Moved s m es s' m')
    (hc : s.crew.desk.scheduler.cancelled = true) :
    s'.crew.desk.scheduler.cancelled = true := by
  obtain ⟨turn, stats, suspended, cancelled, hscheduler, hstays⟩ := h.scheduler
  rw [hscheduler]
  exact hstays hc

/-- Nobody finds out that nobody has cancelled any more. -/
theorem Moved.checked_before (h : Moved s m es s' m') (hc : s.crew.desk.scheduler.cancelled = true)
    (hi : (s'.found i).checked = true) : (s.found i).checked = true := by
  have hupdate {k : Nat} {f : Found} (hf : f.checked = true → (s.found k).checked = true)
      (hi : (Function.update s.found k f i).checked = true) : (s.found i).checked = true := by
    rcases eq_or_ne i k with rfl | hik
    · exact hf (Function.update_self i f s.found ▸ hi)
    · exact Function.update_of_ne hik f s.found ▸ hi
  cases h with
  | kept hfound =>
    rcases hfound i with heq | hnothing
    · exact heq ▸ hi
    · exact absurd hnothing (Found.ne_of_checked hi)
  | checked _ hc' =>
    rw [hc] at hc'
    cases hc'
  | inquired _ _ hf _ => exact hupdate (fun h => (hf h).1) hi
  | acted _ _ _ _ => exact hupdate (fun h => absurd rfl (Found.ne_of_checked h)) hi
  | _ => exact hi

/-- **A move of a cancelled scheduler** asks nothing for its runs, and no run comes to owe anything; or
one run asks what it owed, and none owes anything any more. -/
theorem Ordered.owes_moved (ho : s.Ordered) (hc : s.crew.desk.scheduler.cancelled = true)
    (h : Moved s m es s' m') :
    (asked es = [] ∧ marks es = [] ∧ ∀ k r, Owes s' k r → Owes s k r) ∨
      ∃ i r b, asked es = [(i, r, b)] ∧ Owes s i r ∧ ∀ k r, ¬ Owes s' k r := by
  have hchecked {k : Nat} : (s'.found k).checked = true → (s.found k).checked = true :=
    h.checked_before hc
  -- what a run owes it has by its phase, and by what it has found out before the cancelling
  have hback (hruns : ∀ (k : Nat) (phase : Run.Phase), s'.crew.runs[k]? = some phase →
      phase.asking = true → s.crew.runs[k]? = some phase) (k : Nat) (r : Queue.Request)
      (howes : Owes s' k r) : Owes s k r := by
    cases howes with
    | ack hk => exact .ack (hruns _ _ hk rfl)
    | look hk hf => exact .look (hruns _ _ hk rfl) (hchecked hf)
  have hset {j : Nat} {x y : Run.Phase} (hj : s.crew.runs[j]? = some x) (hy : y.asking = false)
      (k : Nat) (phase : Run.Phase) (hk : (s.crew.runs.set j y)[k]? = some phase)
      (hb : phase.asking = true) : s.crew.runs[k]? = some phase := by
    rcases (Crew.getElem?_set_of hj).1 hk with ⟨-, rfl⟩ | ⟨-, hk⟩
    · rw [hy] at hb
      cases hb
    · exact hk
  cases h with
  | kept _ | checked _ _ | inquired _ _ _ _ | hired _ | dismissed _ _ | heard _ _ | requested _
  | cancelled => exact .inl ⟨rfl, rfl, hback fun _ _ hk _ => hk⟩
  | came | sent _ =>
    refine .inl ⟨rfl, rfl, hback fun k phase hk hb => ?_⟩
    rcases Crew.getElem?_concat.1 hk with hk | ⟨-, rfl⟩
    · exact hk
    · cases hb
  | refused hj _ | admitted hj _ | lined hj _ => exact .inl ⟨rfl, rfl, hback (hset hj rfl)⟩
  | @acted i a phase log x es' c m' hi hb h hput =>
    obtain ⟨-, hmarks, -, -⟩ := hput.books
    obtain ⟨hself, hothers⟩ := hput.runs hi
    obtain ⟨cur, hcrew⟩ := ho.orderly
    -- nobody has found anything out any more, and nobody else is under way
    have hlast (k : Nat) (r : Queue.Request)
        (howes : Owes { s with crew := c, found := Function.update s.found i .nothing } k r) :
        k = i ∧ ∃ p o w, x.2.1 = .settling p o w ∧ r = Run.ack p o := by
      cases howes with
      | look _ hf => exact absurd (ho.forgets hi hb k) (Found.ne_of_checked hf)
      | @ack p o w hk =>
        rcases eq_or_ne k i with rfl | hki
        · exact ⟨rfl, p, o, w, Option.some.inj (hself.symm.trans hk), rfl⟩
        · rcases hothers k hki with hsame | hadmitted
          · exact absurd (hcrew.unique (hsame.symm.trans hk) hi rfl hb) hki
          · cases hadmitted.symm.trans hk
    have hwound := h.wound hc
    rw [asked_told, marks_append, marks_told, List.nil_append, hmarks]
    generalize hground : (s.found i).ground a = a', hds : x.1 = ds, hphase : x.2.1 = phase'
      at hwound hlast
    cases hwound with
    | idle _ _ =>
      refine .inl ⟨rfl, rfl, fun k r howes => ?_⟩
      obtain ⟨rfl, p, o, w, rfl, rfl⟩ := hlast k r howes
      exact .ack hi
    | entered =>
      refine .inl ⟨rfl, rfl, fun k r howes => ?_⟩
      obtain ⟨-, p, o, w, hturn, -⟩ := hlast k r howes
      exact absurd hturn ((idle_takeTurn _).ne_settling p o w)
    | stopped | abandoned =>
      refine .inl ⟨rfl, rfl, fun k r howes => ?_⟩
      obtain ⟨-, p, o, w, hstopped, -⟩ := hlast k r howes
      cases hstopped
    | @looked w passed b r =>
      refine .inr ⟨i, _, b, rfl, .look hi (Found.checked_of_ground hground), fun k r howes => ?_⟩
      obtain ⟨-, p, o, w, hfinished, -⟩ := hlast k r howes
      cases hfinished
    | @settled p o w passed b phase' hidle =>
      refine .inr ⟨i, _, b, rfl, .ack hi, fun k r howes => ?_⟩
      obtain ⟨-, p, o, w, hsettling, -⟩ := hlast k r howes
      exact absurd hsettling (hidle.ne_settling p o w)

/-- No uploader is called, heard or waited for. -/
theorem Viewed.unpolled {x y : Option Run.Phase} {ds : List Run.Deed} (h : Viewed s m i x ds y)
    (hc : s.crew.desk.scheduler.cancelled = true) : ∀ u ∈ ds, ¬ u.Polls := by
  cases h with
  | same | came | refused _ | admitted | lined | given => simp [Run.Deed.Polls]
  | goes_on _ h _ => exact (h.wound hc).not_polls
  | returns _ h =>
    intro u hu
    rcases List.mem_append.1 hu with hu | hu
    · exact (h.wound hc).not_polls u hu
    · cases List.mem_singleton.1 hu
      exact id

/-- Whoever is late is told so. -/
theorem Viewed.late {x y : Option Run.Phase} {ds : List Run.Deed} (h : Viewed s m i x ds y)
    (hc : s.crew.desk.scheduler.cancelled = true) (hf : (s.found i).checked = false)
    (hl : Run.Late (s.crew.desk.scheduler.suspended = true) x) :
    Run.Late (s.crew.desk.scheduler.suspended = true) y ∧
      ∀ u ∈ ds, Passing u := by
  have hwound {phase phase' : Run.Phase} {a : Run.Act} {ds : List Run.Deed}
      {log : Option (Queue.Request × Queue.Response)} (hb : phase.busy = true)
      (hl : Run.Late (s.crew.desk.scheduler.suspended = true) (some phase))
      (h : Run.Wound s.crew.desk phase ((s.found i).ground a) log ds phase') :
      Run.Late (s.crew.desk.scheduler.suspended = true) (some phase') ∧ ds = [] := by
    generalize hground : (s.found i).ground a = a' at h
    cases h with
    | idle _ _ => exact ⟨hl, rfl⟩
    | entered =>
      refine ⟨?_, rfl⟩
      unfold Run.takeTurn
      split
      · exact .refused ‹_›
      · exact .looking
    | stopped =>
      cases hl
      exact ⟨.stopped, rfl⟩
    | abandoned | settled _ => cases hl
    | looked =>
      rw [Found.checked_of_ground hground] at hf
      cases hf
  cases h with
  | same => exact ⟨hl, by simp⟩
  | came => exact ⟨.arriving, by simp⟩
  | refused hs => exact ⟨.refused hs, by simp [Passing]⟩
  | admitted | given => exact ⟨.admitted, by simp [Passing]⟩
  | lined => exact ⟨.waiting, by simp⟩
  | goes_on hb h _ =>
    obtain ⟨hlate, rfl⟩ := hwound hb hl (h.wound hc)
    exact ⟨hlate, by simp⟩
  | returns hb h =>
    obtain ⟨hlate, rfl⟩ := hwound hb hl (h.wound hc)
    exact ⟨hlate, fun u hu => .inr ⟨_, List.mem_singleton.1 hu⟩⟩

/-! ## From the cancelling on -/

theorem Course.cancelled_stays (ho : s.Ordered) (hc : s.crew.desk.scheduler.cancelled = true)
    (h : Course s m es s' m') : s'.crew.desk.scheduler.cancelled = true := by
  induction h with
  | start => exact hc
  | move h hf ih => exact (moved_of_follows (h.ordered ho) hf).cancelled_stays ih

theorem Course.unpolled (ho : s.Ordered) (hc : s.crew.desk.scheduler.cancelled = true)
    (h : Course s m es s' m') (i : Nat) : ∀ x ∈ deeds i es, ¬ x.Polls := by
  induction h with
  | start => exact fun x hx => absurd hx List.not_mem_nil
  | move h hf ih =>
    rw [deeds_append]
    intro x hx
    rcases List.mem_append.1 hx with hx | hx
    · exact ih x hx
    · exact ((moved_of_follows (h.ordered ho) hf).view i).unpolled (h.cancelled_stays ho hc) x hx

/-- **Runs ask one thing at most**, and it is what one of them owed. -/
theorem Course.owes (ho : s.Ordered) (hc : s.crew.desk.scheduler.cancelled = true)
    (h : Course s m es s' m') :
    (asked es = [] ∧ marks es = [] ∧ ∀ k r, Owes s' k r → Owes s k r) ∨
      ∃ i r b, asked es = [(i, r, b)] ∧ Owes s i r ∧ ∀ k r, ¬ Owes s' k r := by
  induction h with
  | start => exact .inl ⟨rfl, rfl, fun _ _ h => h⟩
  | move h hf ih =>
    have ho' := h.ordered ho
    have hmove := ho'.owes_moved (h.cancelled_stays ho hc) (moved_of_follows ho' hf)
    rw [asked_append, marks_append]
    rcases ih with ⟨hasked, hmarks, hback⟩ | ⟨i, r, b, hasked, howes, hnone⟩
    · rw [hasked, hmarks, List.nil_append, List.nil_append]
      rcases hmove with ⟨hasked', hmarks', hback'⟩ | ⟨i, r, b, hasked', howes, hnone⟩
      · exact .inl ⟨hasked', hmarks', fun k r howes => hback k r (hback' k r howes)⟩
      · exact .inr ⟨i, r, b, hasked', hback i r howes, hnone⟩
    · rcases hmove with ⟨hasked', -, hback'⟩ | ⟨i', r', b', -, howes', -⟩
      · rw [hasked, hasked']
        exact .inr ⟨i, r, b, rfl, howes, fun k r howes => hnone k r (hback' k r howes)⟩
      · exact absurd howes' (hnone i' r')

theorem Course.late (ho : s.Ordered) (hc : s.crew.desk.scheduler.cancelled = true)
    (h : Course s m es s' m') (hf : (s.found i).checked = false)
    (hl : Run.Late (s.crew.desk.scheduler.suspended = true) s.crew.runs[i]?) :
    (s'.found i).checked = false ∧
      Run.Late (s'.crew.desk.scheduler.suspended = true) s'.crew.runs[i]? ∧
        ∀ u ∈ deeds i es, Passing u := by
  induction h with
  | start => exact ⟨hf, hl, fun u hu => absurd hu List.not_mem_nil⟩
  | move h hmove ih =>
    obtain ⟨hfound, hlate, hdeeds⟩ := ih
    have ho' := h.ordered ho
    have hc' := h.cancelled_stays ho hc
    have hmoved := moved_of_follows ho' hmove
    obtain ⟨hlate', hdeeds'⟩ := (hmoved.view i).late hc' hfound hlate
    refine ⟨?_, hlate'.mono fun hs => (ho'.silent hs hmoved).1, ?_⟩
    · rw [Bool.eq_false_iff]
      intro hchecked
      rw [hmoved.checked_before hc' hchecked] at hfound
      cases hfound
    · rw [deeds_append]
      intro u hu
      rcases List.mem_append.1 hu with hu | hu
      · exact hdeeds u hu
      · exact hdeeds' u hu

/-! ## Abandoned uploads -/

variable {s₀ : Shift} {m₀ : Content} {p : Ping} {w : Summary}

/-- A run does what it does in its own steps. -/
theorem Moved.of_deed {u : Run.Deed} (h : Moved s m es s' m') (hu : .crew (.run i u) ∈ es)
    (hpassing : ¬ Passing u) : ∃ a phase log x es', s.crew.runs[i]? = some phase ∧
      Run.Consulted s.crew.desk m phase ((s.found i).ground a) log x m' ∧ u ∈ x.1 ∧
        Put s.crew i x es' s'.crew ∧ es = told i log ++ es'.map .crew := by
  cases h with
  | kept _ | checked _ _ | inquired _ _ _ _ | hired _ | dismissed _ _ | heard _ _ | came
  | lined _ _ => cases hu
  | sent _ | requested _ | cancelled => cases List.mem_singleton.1 hu
  | refused _ _ =>
    cases List.mem_singleton.1 hu
    exact absurd (.inr ⟨_, rfl⟩) hpassing
  | admitted _ _ =>
    cases List.mem_singleton.1 hu
    exact absurd (.inl rfl) hpassing
  | @acted k a phase log x es' c m' hk hb h hput =>
    have hdeed := mem_deeds.2 hu
    obtain ⟨rest, hrest, hpass⟩ := hput.deeds i
    rw [deeds_append, deeds_told, List.nil_append, hrest] at hdeed
    rcases List.mem_append.1 hdeed with hown | hmem
    · split at hown
      · rename_i hik
        subst hik
        exact ⟨a, phase, log, x, es', hk, h, hown, hput, rfl⟩
      · cases hown
    · exact absurd (hpass u hmem) hpassing

/-- A ping that is handed over is the oldest one, and with that the step ends. -/
theorem Moved.of_called (h : Moved s m es s' m') (hcalled : .crew (.run i (.called p)) ∈ es) :
    (∃ r b, es = [.asked i r b, .crew (.run i (.called p))]) ∧
      ∃ rest, s'.crew.desk.queue.pings = p :: rest := by
  obtain ⟨a, phase, log, x, es', -, hx, hmem, hput, rfl⟩ := h.of_deed hcalled (by simp [Passing])
  obtain ⟨w, r, b, rest, rfl, rfl, hpings⟩ := hx.of_called hmem
  generalize s'.crew = c at hput
  cases hput with
  | goes_on _ => exact ⟨⟨r, b, rfl⟩, rest, hpings⟩

/-- When a ping is abandoned the run has waited for the uploader, and with that it returns. -/
theorem Moved.of_abandoned (h : Moved s m es s' m') (hmem : .crew (.run i (.abandoned p)) ∈ es) :
    s.crew.desk.scheduler.cancelled = true ∧ (∃ w, s.crew.runs[i]? = some (.uploading p w)) ∧
      ∃ rest, es = .crew (.run i (.abandoned p)) :: rest ∧
        .crew (.run i (.abandoned p)) ∉ rest := by
  obtain ⟨a, phase, log, x, es', hi, hx, hown, hput, rfl⟩ := h.of_deed hmem (by simp [Passing])
  obtain ⟨hc, w, rfl, rfl, rfl⟩ := hx.of_abandoned hown
  refine ⟨hc, ⟨w, hi⟩, ?_⟩
  generalize s'.crew = c at hput
  unfold Run.stopped at hput
  cases hput with
  | goes_on hgo => exact absurd rfl (hgo _)
  | ends | hands _ => exact ⟨_, rfl, by simp⟩

/-- While a run waits for the uploader no run asks the queue, and nothing is counted. -/
theorem Ordered.of_uploading (ho : s.Ordered) (h : Moved s m es s' m')
    (hi : s'.crew.runs[i]? = some (.uploading p w)) :
    (s.crew.runs[i]? = some (.uploading p w) ∧ deeds i es = [] ∧ asked es = [] ∧ marks es = []) ∨
      .crew (.run i (.called p)) ∈ es := by
  have hset {k : Nat} {x y : Run.Phase} (hk : s.crew.runs[k]? = some x) (hx : x.busy = false)
      (hy : ∀ p w, y ≠ .uploading p w)
      (hi : (s.crew.runs.set k y)[i]? = some (.uploading p w)) :
      s.crew.runs[i]? = some (.uploading p w) ∧ i ≠ k := by
    rcases (Crew.getElem?_set_of hk).1 hi with ⟨-, rfl⟩ | ⟨hik, hi⟩
    · exact absurd rfl (hy p w)
    · exact ⟨hi, hik⟩
  cases h with
  | kept _ | checked _ _ | inquired _ _ _ _ | hired _ | dismissed _ _ | heard _ _ | requested _
  | cancelled => exact .inl ⟨hi, rfl, rfl, rfl⟩
  | came | sent _ =>
    rcases Crew.getElem?_concat.1 hi with hi | ⟨-, hphase⟩
    · exact .inl ⟨hi, rfl, rfl, rfl⟩
    · cases hphase
  | refused hk _ | admitted hk _ =>
    obtain ⟨hi, hik⟩ := hset hk rfl (by simp) hi
    exact .inl ⟨hi, deeds_other hik [_], rfl, rfl⟩
  | lined hk _ => exact .inl ⟨(hset hk rfl (by simp) hi).1, rfl, rfl, rfl⟩
  | @acted k a phase log x es' c m' hk hb h hput =>
    obtain ⟨hself, hothers⟩ := hput.runs hk
    rcases eq_or_ne i k with rfl | hik
    · rcases h.of_uploading (Option.some.inj (hself.symm.trans hi)) with ⟨rfl, rfl, hnone⟩ | hcalled
      · obtain ⟨ds, phase, d⟩ := x
        obtain rfl : ds = [] := hnone
        obtain rfl : phase = .uploading p w := Option.some.inj (hself.symm.trans hi)
        cases hput with
        | goes_on _ => exact .inl ⟨hk, rfl, rfl, rfl⟩
      · obtain ⟨rest, hrest, -⟩ := hput.deeds i
        refine .inr (mem_deeds.1 ?_)
        rw [deeds_append, deeds_told, List.nil_append, hrest, if_pos rfl]
        exact List.mem_append_left _ hcalled
    · obtain ⟨cur, hcrew⟩ := ho.orderly
      rcases hothers i hik with hsame | hadmitted
      · exact absurd (hcrew.unique (hsame.symm.trans hi) hk rfl hb) hik
      · cases hadmitted.symm.trans hi

/-- While somebody waits for the uploader no run owes anything. -/
theorem Ordered.not_owes (ho : s.Ordered) (hi : s.crew.runs[i]? = some (.uploading p w)) (k : Nat)
    (r : Queue.Request) : ¬ Owes s k r := by
  obtain ⟨cur, hcrew⟩ := ho.orderly
  rintro (hk | ⟨hk, -⟩)
  · obtain rfl := hcrew.unique hk hi rfl rfl
    cases hk.symm.trans hi
  · obtain rfl := hcrew.unique hk hi rfl rfl
    cases hk.symm.trans hi

/-- **Since the ping was handed over** no run has asked the queue, and nothing has been counted. -/
theorem Course.since_called (ho : s₀.Ordered)
    (hnone : ∀ p w, s₀.crew.runs[i]? ≠ some (.uploading p w)) (h : Course s₀ m₀ es s m)
    (hi : s.crew.runs[i]? = some (.uploading p w)) : ∃ es₁ es₂ s₁ m₁,
      es = es₁ ++ .crew (.run i (.called p)) :: es₂ ∧
        Course s₀ m₀ (es₁ ++ [.crew (.run i (.called p))]) s₁ m₁ ∧ Course s₁ m₁ es₂ s m ∧
          (∃ rest, s₁.crew.desk.queue.pings = p :: rest) ∧ deeds i es₂ = [] ∧ asked es₂ = [] ∧
            marks es₂ = [] := by
  induction h with
  | start => exact absurd hi (hnone p w)
  | @move es es' s s' m m' mv tr h hf ih =>
    have ho' := h.ordered ho
    have hmoved := moved_of_follows ho' hf
    -- either it has waited before this move, or the ping is handed over in it
    rcases ho'.of_uploading hmoved hi with ⟨hi', hdeeds', hasked', hmarks'⟩ | hcalled
    · obtain ⟨es₁, es₂, s₁, m₁, rfl, hbefore, hafter, hpings, hdeeds, hasked, hmarks⟩ := ih hi'
      refine ⟨es₁, es₂ ++ es', s₁, m₁, List.append_assoc _ _ _, hbefore, hafter.move hf, hpings, ?_⟩
      rw [deeds_append, asked_append, marks_append, hdeeds, hasked, hmarks]
      exact ⟨hdeeds', hasked', hmarks'⟩
    · obtain ⟨⟨r, b, rfl⟩, hpings⟩ := hmoved.of_called hcalled
      have hcourse := h.move hf
      refine ⟨es ++ [.asked i r b], [], s', m', ?_, ?_, .start, hpings, rfl, rfl, rfl⟩
      · rw [List.append_assoc]
        rfl
      · rw [List.append_assoc]
        exact hcourse

/-- Where a ping has been abandoned. -/
theorem Course.at_abandoned (ho : s₀.Ordered) (h : Course s₀ m₀ es s m) {es₁ es₂ : List Event}
    (hes : es = es₁ ++ .crew (.run i (.abandoned p)) :: es₂) : ∃ s₁ m₁,
      Course s₀ m₀ es₁ s₁ m₁ ∧ Course s₁ m₁ (.crew (.run i (.abandoned p)) :: es₂) s m ∧
        s₁.crew.desk.scheduler.cancelled = true ∧
          ∃ w, s₁.crew.runs[i]? = some (.uploading p w) := by
  induction h generalizing es₂ with
  | start => cases es₁ <;> cases hes
  | @move es es' s s' m m' mv tr h hf ih =>
    rcases append_eq_split hes with ⟨u, hu, rfl⟩ | ⟨u, hu, rfl⟩
    · obtain ⟨s₁, m₁, hbefore, hafter, hrest⟩ := ih hu
      exact ⟨s₁, m₁, hbefore, hafter.move hf, hrest⟩
    · obtain ⟨hc, huploading, rest, hfirst, hnot⟩ :=
        (moved_of_follows (h.ordered ho) hf).of_abandoned (i := i) (p := p) (by rw [hu]; simp)
      rw [hu] at hfirst hf
      cases u with
      | nil =>
        rw [List.append_nil]
        exact ⟨s, m, h, .move .start hf, hc, huploading⟩
      | cons e u =>
        refine absurd ?_ hnot
        rw [← (List.cons.inj hfirst).2]
        simp

/-- What has become of a ping since a run handed it over, and left it. -/
structure LeftAlone (p : Ping) (s : Shift) (m : Content) (es : List Event) (s' : Shift)
    (m' : Content) : Prop where
  oldest : ∃ rest, s.crew.desk.queue.pings = p :: rest
  unasked : asked es = []
  uncounted : s'.crew.desk.scheduler.stats = s.crew.desk.scheduler.stats
  kept : (∀ a ∈ requests es, a.1.acks? ≠ some p.id) →
    s'.crew.desk.queue.Oldest p (m (Record.key p.id)) m'

/-- **An abandoned ping is left alone.** -/
theorem Course.left_alone {d : Desk} (hfree : d.scheduler.turn = .free)
    (h : Course (opened d) m₀ es s m) {es₁ es₂ : List Event}
    (hes : es = es₁ ++ .crew (.run i (.abandoned p)) :: es₂) : ∃ es₃ es₄ s₁ m₁,
      es₁ = es₃ ++ .crew (.run i (.called p)) :: es₄ ∧ deeds i es₄ = [] ∧
        Course (opened d) m₀ (es₃ ++ [.crew (.run i (.called p))]) s₁ m₁ ∧
          LeftAlone p s₁ m₁ (es₄ ++ .crew (.run i (.abandoned p)) :: es₂) s m := by
  have ho := ordered_opened hfree
  obtain ⟨s₂, m₂, hbefore, hafter, hc, w, hi⟩ := h.at_abandoned ho hes
  obtain ⟨es₃, es₄, s₁, m₁, rfl, hcalled, hwaited, hpings, hdeeds, hasked, hmarks⟩ :=
    hbefore.since_called ho (by simp [opened]) hi
  have ho₁ := hcalled.ordered ho
  have ho₂ := hbefore.ordered ho
  have hsince := hwaited.trans hafter
  obtain ⟨hasked', hmarks', -⟩ : asked (.crew (.run i (.abandoned p)) :: es₂) = [] ∧
      marks (.crew (.run i (.abandoned p)) :: es₂) = [] ∧ ∀ k r, Owes s k r → Owes s₂ k r := by
    rcases hafter.owes ho₂ hc with hnone | ⟨k, r, b, -, howes, -⟩
    · exact hnone
    · exact absurd howes (ho₂.not_owes hi k r)
  refine ⟨es₃, es₄, s₁, m₁, rfl, hdeeds, hcalled, hpings, ?_, ?_, fun hacks => ?_⟩
  · rw [asked_append, hasked, hasked']
    rfl
  · rw [hsince.stats ho₁, marks_append, hmarks, hmarks']
    rfl
  · exact (hsince.answered ho₁).oldest ⟨hpings, rfl⟩ hacks

/-! ## The whole of it -/

/-- What becomes of a cancelled scheduler `s`, with `es₀` seen before. -/
structure Undisturbed (es₀ : List Event) (s : Shift) (m : Content) (es : List Event) (s' : Shift)
    (m' : Content) : Prop where
  unpolled : ∀ i, ∀ u ∈ deeds i es, ¬ u.Polls
  owed : asked es = [] ∨ ∃ i r b, asked es = [(i, r, b)] ∧ Owes s i r
  answered : s.crew.desk.queue.Answered m (requests es) s'.crew.desk.queue m'
  stats : s'.crew.desk.scheduler.stats = (marks es).foldl Stats.mark s.crew.desk.scheduler.stats
  unmarked : asked es = [] → marks es = []
  /-- Who had not begun does nothing, and has attempted nothing when it returns. -/
  later : ∀ i, Run.Unbegun s.crew.runs[i]? → (∀ u ∈ deeds i es, Passing u) ∧
    (∀ r b, (i, r, b) ∉ asked es) ∧ (s'.crew.desk.scheduler.suspended = false →
      ∀ r, s'.crew.runs[i]? = some (.finished r) →
        ∃ w, r = .ok w ∧ w.stopReason = .cancelled ∧ w.attempted = 0)
  summary : ∀ (i : Nat) (w : Summary), s'.crew.runs[i]? = some (.finished (.ok w)) →
    w = { Run.tally (answers i (es₀ ++ es)) with stopReason := w.stopReason }
  windsUp : s'.WindsUp

theorem Owes.begun {r : Queue.Request} (h : Owes s i r) : ¬ Run.Unbegun s.crew.runs[i]? := by
  intro hbegun
  rcases h with hi | ⟨hi, -⟩ <;> rw [hi] at hbegun <;> simp [Run.Unbegun] at hbegun

/-- **Cancelling disturbs nothing.** In whatever way runs come, workers send them and others ask the
queue: once the scheduler has been cancelled no uploader is called, heard or waited for. Queue and
store change by what the queue is asked, and of that the runs ask one thing at most: the one under way
acknowledges an answer that it has had before, or takes the look that it was about to take. Whoever
comes later returns as cancelled, with nothing attempted. All runs return, and the summary of each
counts what the queue has answered it. A ping that has been abandoned is left alone: it is where it
was, as it was and as it was stored, and nothing has been counted since it was handed over. -/
theorem disturbs_nothing {d : Desk} (hfree : d.scheduler.turn = .free) {es₀ : List Event}
    (h₀ : Course (opened d) m₀ es₀ s m) (hc : s.crew.desk.scheduler.cancelled = true)
    (h : Course s m es s' m') :
    Undisturbed es₀ s m es s' m' ∧
      ∀ es₁ i p es₂, es₀ ++ es = es₁ ++ .crew (.run i (.abandoned p)) :: es₂ →
        ∃ es₃ es₄ s₁ m₁, es₁ = es₃ ++ .crew (.run i (.called p)) :: es₄ ∧ deeds i es₄ = [] ∧
          Course (opened d) m₀ (es₃ ++ [.crew (.run i (.called p))]) s₁ m₁ ∧
            LeftAlone p s₁ m₁ (es₄ ++ .crew (.run i (.abandoned p)) :: es₂) s' m' := by
  have ho := h₀.ordered (ordered_opened hfree)
  have hall := h₀.trans h
  have howed : asked es = [] ∧ marks es = [] ∨ ∃ i r b, asked es = [(i, r, b)] ∧ Owes s i r :=
    (h.owes ho hc).imp (fun h => ⟨h.1, h.2.1⟩) fun ⟨i, r, b, hasked, howes, _⟩ =>
      ⟨i, r, b, hasked, howes⟩
  refine ⟨⟨h.unpolled ho hc, howed.imp_left (·.1), h.answered ho, h.stats ho, ?_, ?_, ?_, ?_⟩, ?_⟩
  · intro hnone
    rcases howed with ⟨-, hmarks⟩ | ⟨i, r, b, hasked, -⟩
    · exact hmarks
    · cases hnone.symm.trans hasked
  · intro i hbegun
    have hfound : (s.found i).checked = false := by
      rw [Bool.eq_false_iff]
      intro hchecked
      obtain ⟨w, hi⟩ := ho.looking i hchecked
      exact (Owes.look hi hchecked).begun hbegun
    obtain ⟨-, hlate, hdeeds⟩ := h.late ho hc hfound (hbegun.late _)
    refine ⟨hdeeds, fun r b hasked => ?_, fun hs r hi => ?_⟩
    · rcases howed with ⟨hnone, -⟩ | ⟨k, r', b', hone, howes⟩
      · rw [hnone] at hasked
        cases hasked
      · rw [hone] at hasked
        cases List.mem_singleton.1 hasked
        exact howes.begun hbegun
    · rw [hi] at hlate
      exact hlate.finished (by simp [hs])
  · intro i w hi
    have hcounts := hall.counts hfree i
    rw [hi, hall.tally (ordered_opened hfree)] at hcounts
    exact hcounts
  · exact (h.ordered ho).windsUp (.inl (h.cancelled_stays ho hc))
  · intro es₁ i p es₂ hes
    exact hall.left_alone hfree hes

end

/-- A run is cancelled while it waits for the uploader, and another one comes later. -/
theorem cancelled_of_two : ∃ (d : Desk) (es₀ es : List Event) (s s' : Shift) (m m' : Content),
    d.scheduler.turn = .free ∧ Course (opened d) (fun _ => none) es₀ s m ∧
      s.crew.desk.scheduler.cancelled = true ∧ Course s m es s' m' ∧
      s'.crew.runs = [.finished (.ok ⟨0, 0, 0, 0, .cancelled⟩),
        .finished (.ok ⟨0, 0, 0, 0, .cancelled⟩)] ∧
      s'.crew.desk.queue.Oldest Queue.blank none m' ∧ Undisturbed es₀ s m es s' m' := by
  let d : Desk := { Client.plain.desk with queue := .restored .standard [Queue.blank] 0 0 }
  have h₀ : Course (opened d) (fun _ => none) [] _ _ := .start
  have h₀ := h₀.step (.crew .come) (.done _ _)
  have h₀ := h₀.step (.crew (.ask 0)) (.done _ _)
  have h₀ := h₀.step (.crew (.act 0 .enter)) (.done _ _)
  have h₀ := h₀.step (.crew (.act 0 (.look false false))) (.tell (.done _ _))
  have h₀ : Course (opened d) _ [.crew (.run 0 .took), .asked 0 (.peek 1) _,
      .crew (.run 0 (.called _)), .crew .cancelled] ⟨⟨_, [.uploading _ _]⟩, _, _⟩ _ :=
    h₀.step (.crew .cancel) (.done _ _)
  have h := h₀.fresh.step (.crew (.act 0 .abandon)) (.done _ _)
  have h := h.step (.crew .come) (.done _ _)
  have h := h.step (.crew (.ask 1)) (.done _ _)
  have h := h.step (.crew (.act 1 .enter)) (.done _ _)
  have h : Course _ _ [.crew (.run 0 (.abandoned _)), .crew (.run 0 (.returned _)),
      .crew (.run 1 .took), .crew (.run 1 (.returned _))]
      ⟨⟨_, [.finished _, .finished _]⟩, _, _⟩ _ :=
    h.step (.crew (.act 1 (.look false false))) (.done _ _)
  exact ⟨d, _, _, _, _, _, _, rfl, h₀, rfl, h, rfl, ⟨⟨_, rfl⟩, rfl⟩, (disturbs_nothing rfl h₀ rfl h).1⟩

end Shift
end PingDelivery.Upload
