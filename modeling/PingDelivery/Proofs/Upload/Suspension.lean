import PingDelivery.Proofs.Upload.View
import PingDelivery.Proofs.Upload.Windup

/-! # A suspended scheduler stays silent

A run that the queue refuses for good suspends the scheduler, and nothing else does. From then on no
run asks the queue or calls the uploader: who has not had the turn yet is refused when it comes, and
who has just been given it is refused the second time it looks. A worker leaves when it hears of it.
-/

namespace PingDelivery.Upload
open Store

namespace Run
variable {d : Desk} {m m' : Content} {phase : Phase} {a : Act}
  {log : Option (Queue.Request × Queue.Response)} {x : List Deed × Phase × Desk}

/-- A step has been answered with an error: it ends the run, and suspends the scheduler if it is
fatal. -/
structure Refused (d : Desk) (r : Queue.Request) (e : QueueError) (x : List Deed × Phase × Desk) :
    Prop where
  deeds : x.1 = [] ∨ x.1 = [.acked r (.error e)]
  phase : x.2.1 = .finished (.error (.ofQueue e))
  suspended : x.2.2.scheduler.suspended = (d.scheduler.suspended || e.isFatal)

theorem heeded_settling_deeds (d : Desk) (p : Ping) (o : Outcome) (s : Summary)
    (b : Queue.Response) : (heeded d (.settling p o s) b).1 = [.acked (ack p o) b] := by
  cases b <;> rfl

/-- **No other step suspends the scheduler.** -/
theorem Consulted.refused_or_same (h : Consulted d m phase a log x m') :
    (∃ r e, log = some (r, .error e) ∧ Refused d r e x) ∨
      (∀ r e, log ≠ some (r, .error e)) ∧
        x.2.2.scheduler.suspended = d.scheduler.suspended := by
  have hfailed (d : Desk) (e : QueueError) :
      (d.failed e).scheduler.suspended = (d.scheduler.suspended || e.isFatal) :=
    congrArg (·.scheduler.suspended) (failed_eq d e)
  cases h with
  | idle _ | entered | stopped _ | answered _ | expired _ | abandoned _ => exact .inr ⟨by simp, rfl⟩
  | @looked s checked passed _ =>
    have hlooked := looked_heeded d s (sight d passed)
    generalize sight d passed = b, heeded d (.looking s) (sight d passed) = x at hlooked
    cases hlooked with
    | refused e => exact .inl ⟨_, e, rfl, .inl rfl, rfl, hfailed d e⟩
    | called _ | stopped _ | emptied _ => exact .inr ⟨by simp, rfl⟩
  | @settled p o s passed b q tr m' hq =>
    cases b with
    | error e => exact .inl ⟨_, e, rfl, .inr rfl, rfl, hfailed { d with queue := q } e⟩
    | ok reply =>
      obtain ⟨stats, hstats⟩ := account_stats { d with queue := q } p s o reply
      exact .inr ⟨by simp, (congrArg Scheduler.suspended hstats :)⟩

/-- A run that has just been given the turn does no more than look whether the scheduler is suspended. -/
theorem Consulted.of_admitted (h : Consulted d m .admitted a log x m') :
    log = none ∧ (x = ([], .admitted, d) ∨ x = ([], takeTurn d, d)) := by
  cases h with
  | idle _ => exact ⟨rfl, .inl rfl⟩
  | entered => exact ⟨rfl, .inr rfl⟩

/-- That it returns is not for a run's own step to show. -/
theorem Consulted.not_returned (h : Consulted d m phase a log x m') (r : Except RunError Summary) :
    .returned r ∉ x.1 := by
  have hlooking {s : Summary} {b : Queue.Response} (h : Looked d s b x) : .returned r ∉ x.1 := by
    cases h <;> simp
  cases h with
  | idle _ | entered | stopped _ => exact List.not_mem_nil
  | answered _ | expired _ | abandoned _ => simp
  | looked _ => exact hlooking (looked_heeded d _ _)
  | settled _ => simp [heeded_settling_deeds]

end Run

namespace Shift

/-- What can be seen while the scheduler is suspended. -/
def Event.Silent : Event → Prop
  | .crew (.run _ .took) | .crew (.request _ _) | .crew .cancelled | .sent _ _ => True
  | .crew (.run _ (.returned r)) => r = .error .suspended
  | .crew (.run _ _) | .asked _ _ _ => False

/-- A run that has been refused says so, if it has to acknowledge anything, and returns the error. -/
inductive Refusal (i : Nat) (r : Queue.Request) (e : QueueError) : List Event → List Event → Prop where
  | looked (es : List Event) :
      Refusal i r e (.crew (.run i (.returned (.error (.ofQueue e)))) :: es) es
  | settled (es : List Event) :
      Refusal i r e (.crew (.run i (.acked r (.error e))) ::
        .crew (.run i (.returned (.error (.ofQueue e)))) :: es) es

theorem Refusal.append {i : Nat} {r : Queue.Request} {e : QueueError} {es es' : List Event}
    (h : Refusal i r e es es') (es'' : List Event) : Refusal i r e (es ++ es'') (es' ++ es'') := by
  cases h with
  | looked => exact .looked _
  | settled => exact .settled _

/-- All that is seen is that somebody has been given the turn. -/
def HandedOn (es : List Event) : Prop := ∀ e ∈ es, ∃ j, e = .crew (.run j .took)

theorem HandedOn.silent {es : List Event} (h : HandedOn es) : ∀ e ∈ es, e.Silent := by
  intro e he
  obtain ⟨j, rfl⟩ := h e he
  trivial

theorem Refusal.not_asked {i k : Nat} {r r' : Queue.Request} {e : QueueError} {b : Queue.Response}
    {es es' : List Event} (h : Refusal i r e es es') (hes : HandedOn es') : .asked k r' b ∉ es := by
  intro hmem
  cases h with
  | looked | settled =>
    simp only [List.mem_cons, reduceCtorEq, false_or] at hmem
    obtain ⟨j, hj⟩ := hes _ hmem
    cases hj

section
variable {s s' : Shift} {m m' : Content} {es : List Event}

/-- **A move of a suspended scheduler is silent.** -/
theorem Ordered.silent (ho : s.Ordered) (hs : s.crew.desk.scheduler.suspended = true)
    (h : Moved s m es s' m') :
    s'.crew.desk.scheduler.suspended = true ∧ ∀ e ∈ es, e.Silent := by
  cases h with
  | kept _ | checked _ _ | inquired _ _ _ _ | hired _ | dismissed _ _ | heard _ _ | came
  | lined _ _ => exact ⟨hs, fun e he => absurd he List.not_mem_nil⟩
  | sent _ | refused _ _ | admitted _ _ | requested _ | cancelled =>
    refine ⟨hs, fun e he => ?_⟩
    cases List.mem_singleton.1 he
    trivial
  | @acted i a phase log x es' c m' hi hb h hput =>
    obtain rfl := ho.admitted hs hi hb
    obtain ⟨rfl, rfl | rfl⟩ := h.of_admitted
    · cases hput with
      | goes_on _ => exact ⟨hs, fun e he => absurd he List.not_mem_nil⟩
    · rw [Run.takeTurn, if_pos hs] at hput
      cases hput with
      | goes_on hgo => exact absurd rfl (hgo _)
      | ends =>
        refine ⟨hs, fun e he => ?_⟩
        cases List.mem_singleton.1 he
        rfl
      | hands _ =>
        refine ⟨hs, fun e he => ?_⟩
        rcases List.mem_cons.1 he with rfl | he
        · rfl
        · cases List.mem_singleton.1 he
          trivial

theorem asked_mem_told {i k : Nat} {log : Option (Queue.Request × Queue.Response)} {r : Queue.Request}
    {b : Queue.Response} {es : List Crew.Event} (h : .asked k r b ∈ told i log ++ es.map .crew) :
    k = i ∧ log = some (r, b) := by
  rcases List.mem_append.1 h with h | h
  · obtain ⟨⟨r', b'⟩, hlog, heq⟩ := List.mem_map.1 h
    cases heq
    exact ⟨rfl, Option.mem_toList.1 hlog⟩
  · obtain ⟨e, -, he⟩ := List.mem_map.1 h
    cases he

/-- **A move suspends the scheduler only when the queue refuses a run for good in it**, and then the
run returns at once. -/
theorem Moved.refusal_or_same (h : Moved s m es s' m') :
    (∃ i r e es' es'', es = .asked i r (.error e) :: es' ∧ Refusal i r e es' es'' ∧
      HandedOn es'' ∧
      s'.crew.desk.scheduler.suspended = (s.crew.desk.scheduler.suspended || e.isFatal)) ∨
    (∀ i r e, .asked i r (.error e) ∉ es) ∧
      s'.crew.desk.scheduler.suspended = s.crew.desk.scheduler.suspended := by
  cases h with
  | kept _ | checked _ _ | inquired _ _ _ _ | hired _ | dismissed _ _ | heard _ _ | came
  | lined _ _ => exact .inr ⟨fun _ _ _ => List.not_mem_nil, rfl⟩
  | sent _ | refused _ _ | admitted _ _ | requested _ | cancelled =>
    refine .inr ⟨fun i r e he => ?_, rfl⟩
    cases List.mem_singleton.1 he
  | @acted i a phase log x es' c m' hi hb h hput =>
    obtain ⟨turn, hdesk⟩ := hput.desk
    rcases h.refused_or_same with ⟨r, e, rfl, hrefused⟩ | ⟨hlog, hsame⟩
    · obtain ⟨deeds, phase', d⟩ := x
      obtain rfl : phase' = _ := hrefused.phase
      have hsuspended : c.desk.scheduler.suspended = _ :=
        (congrArg (·.scheduler.suspended) hdesk).trans hrefused.suspended
      refine .inl ⟨i, r, e, es'.map .crew, ?_⟩
      rcases hrefused.deeds with hdeeds | hdeeds <;> obtain rfl : deeds = _ := hdeeds <;>
        cases hput with
        | goes_on hgo => exact absurd rfl (hgo _)
        | ends =>
          exact ⟨[], rfl, by constructor, fun _ he => absurd he List.not_mem_nil, hsuspended⟩
        | @hands _ _ _ j _ _ =>
          exact ⟨[.crew (.run j .took)], rfl, by constructor, by simp [HandedOn], hsuspended⟩
    · refine .inr ⟨fun k r e he => ?_, (congrArg (·.scheduler.suspended) hdesk).trans hsame⟩
      obtain ⟨-, hsome⟩ := asked_mem_told he
      exact hlog r e hsome

/-! ## The whole course -/

/-- What has been seen up to a point lies in the earlier events or reaches into the later ones. -/
theorem append_eq_split {α : Type} {l l' l₁ l₂ : List α} {a : α} (h : l ++ l' = l₁ ++ a :: l₂) :
    (∃ u, l = l₁ ++ a :: u ∧ l₂ = u ++ l') ∨ ∃ u, l' = u ++ a :: l₂ ∧ l₁ = l ++ u := by
  rcases List.append_eq_append_iff.1 h with ⟨u, rfl, hl'⟩ | ⟨u, rfl, hl'⟩
  · exact .inr ⟨u, hl', rfl⟩
  · cases u with
    | nil => exact .inr ⟨[], hl'.symm, (List.append_nil _).symm.trans (List.append_nil _).symm⟩
    | cons b u =>
      cases hl'
      exact .inl ⟨u, rfl, rfl⟩

variable {s₀ : Shift} {m₀ : Content} {i j : Nat} {r : Queue.Request} {e : QueueError}

/-- **The scheduler is suspended when the queue has refused one of its runs for good.** -/
theorem Course.suspended_iff (ho : s₀.Ordered) (hactive : s₀.crew.desk.scheduler.suspended = false)
    (h : Course s₀ m₀ es s m) : s.crew.desk.scheduler.suspended = true ↔
      ∃ i r e, .asked i r (.error e) ∈ es ∧ e.isFatal = true := by
  induction h with
  | start => simp [hactive]
  | @move es es' s s' m m' mv tr h hf ih =>
    rcases (moved_of_follows (h.ordered ho) hf).refusal_or_same with
      ⟨i, r, e, es', es'', rfl, hrefusal, htook, hsuspended⟩ | ⟨hnone, hsame⟩
    · rw [hsuspended, Bool.or_eq_true, ih]
      constructor
      · rintro (⟨k, r', e', hmem, hfatal⟩ | hfatal)
        · exact ⟨k, r', e', List.mem_append_left _ hmem, hfatal⟩
        · exact ⟨i, r, e, List.mem_append_right _ List.mem_cons_self, hfatal⟩
      · rintro ⟨k, r', e', hmem, hfatal⟩
        rcases List.mem_append.1 hmem with hmem | hmem
        · exact .inl ⟨k, r', e', hmem, hfatal⟩
        · rcases List.mem_cons.1 hmem with heq | hmem
          · cases heq
            exact .inr hfatal
          · exact absurd hmem (hrefusal.not_asked htook)
    · rw [hsame, ih]
      constructor
      · rintro ⟨k, r', e', hmem, hfatal⟩
        exact ⟨k, r', e', List.mem_append_left _ hmem, hfatal⟩
      · rintro ⟨k, r', e', hmem, hfatal⟩
        rcases List.mem_append.1 hmem with hmem | hmem
        · exact ⟨k, r', e', hmem, hfatal⟩
        · exact absurd hmem (hnone k r' e')

/-- **A run that the queue refuses returns, and if it was refused for good all is silent.** -/
theorem Course.after_refusal (ho : s₀.Ordered) (hactive : s₀.crew.desk.scheduler.suspended = false)
    (h : Course s₀ m₀ es s m) {es₁ es₂ : List Event} (hes : es = es₁ ++ .asked i r (.error e) :: es₂) :
    ∃ es₃, Refusal i r e es₂ es₃ ∧ (e.isFatal = true → ∀ e' ∈ es₃, e'.Silent) := by
  induction h generalizing es₂ with
  | start => cases es₁ <;> cases hes
  | @move es es' s s' m m' mv tr h hf ih =>
    have ho' := h.ordered ho
    have hmoved := moved_of_follows ho' hf
    rcases append_eq_split hes with ⟨u, hu, rfl⟩ | ⟨u, hu, -⟩
    · obtain ⟨es₃, hrefusal, hsilent⟩ := ih hu
      refine ⟨es₃ ++ es', hrefusal.append es', fun hfatal e' he' => ?_⟩
      rcases List.mem_append.1 he' with he' | he'
      · exact hsilent hfatal e' he'
      · have hsuspended := (h.suspended_iff ho hactive).2 ⟨i, r, e, by rw [hu]; simp, hfatal⟩
        exact (ho'.silent hsuspended hmoved).2 e' he'
    · rcases hmoved.refusal_or_same with
        ⟨i', r', e', es₃, es₄, hes', hrefusal, htook, -⟩ | ⟨hnone, -⟩
      · have hhead : u = [] ∧ i' = i ∧ r' = r ∧ e' = e ∧ es₃ = es₂ := by
          rw [hes'] at hu
          cases u with
          | nil =>
            cases hu
            exact ⟨rfl, rfl, rfl, rfl, rfl⟩
          | cons x u =>
            injection hu with _ hu
            have hmem : .asked i r (.error e) ∈ es₃ := by simp [hu]
            exact absurd hmem (hrefusal.not_asked htook)
        obtain ⟨-, rfl, rfl, rfl, rfl⟩ := hhead
        exact ⟨es₄, hrefusal, fun _ => htook.silent⟩
      · exact absurd (by rw [hu]; simp) (hnone i r e)

/-! ## Workers -/

theorem Moved.finished (h : Moved s m es s' m') {res : Except RunError Summary}
    (hi : s.crew.runs[i]? = some (.finished res)) :
    s'.crew.runs[i]? = some (.finished res) := by
  have hview := h.view i
  rw [hi] at hview
  generalize deeds i es = ds, s'.crew.runs[i]? = y at hview ⊢
  cases hview with
  | same => rfl
  | goes_on hb _ _ | returns hb _ => cases hb

theorem Moved.returned (h : Moved s m es s' m') {res : Except RunError Summary}
    (hes : .crew (.run i (.returned res)) ∈ es) : s'.crew.runs[i]? = some (.finished res) := by
  have hview := h.view i
  have hmem := mem_deeds.2 hes
  generalize s.crew.runs[i]? = x, deeds i es = ds, s'.crew.runs[i]? = y at hview hmem ⊢
  cases hview with
  | same | came | lined => cases hmem
  | admitted | given => cases List.mem_singleton.1 hmem
  | refused _ =>
    cases List.mem_singleton.1 hmem
    rfl
  | goes_on _ h _ => exact absurd hmem (h.not_returned res)
  | returns _ h =>
    rcases List.mem_append.1 hmem with hmem | hmem
    · exact absurd hmem (h.not_returned res)
    · cases List.mem_singleton.1 hmem
      rfl

/-- What a run has been seen to return is what it has come to. -/
theorem Course.returned (ho : s₀.Ordered) (h : Course s₀ m₀ es s m) {res : Except RunError Summary}
    (hes : .crew (.run i (.returned res)) ∈ es) : s.crew.runs[i]? = some (.finished res) := by
  induction h with
  | start => cases hes
  | move h hf ih =>
    have hmoved := moved_of_follows (h.ordered ho) hf
    rcases List.mem_append.1 hes with hes | hes
    · exact hmoved.finished (ih hes)
    · exact hmoved.returned hes

/-- The run has ended without a fatal error. -/
def EndedWell (s : Shift) (i : Nat) : Prop :=
  ∃ res, s.crew.runs[i]? = some (.finished res) ∧ ∀ e, res = .error e → e.isFatal = false

/-- Of each run that a worker has sent it waits to hear, or it has heard that it ended without a fatal
error, or it has left. -/
def Attended (es : List Event) (s : Shift) : Prop :=
  ∀ j i, .sent j i ∈ es → (∃ w, s.posts[j]? = some (.running w i)) ∨ s.posts[j]? = some .left ∨
    s.EndedWell i

theorem heard_of_fatal {e : RunError} (h : e.isFatal = true) (w : Worker) (shake : Nat → Nat)
    (now : Nat) : heard w shake now (.error e) = .left := by
  simp [heard, Worker.after, h]

theorem Moved.endedWell (h : Moved s m es s' m') (hi : s.EndedWell i) : s'.EndedWell i := by
  obtain ⟨res, hi, hres⟩ := hi
  exact ⟨res, h.finished hi, hres⟩

/-- A worker sends a run when it has rested, and then waits for it. -/
theorem Moved.of_sent (h : Moved s m es s' m') (hsent : .sent j i ∈ es) : es = [.sent j i] ∧
    ∃ w, s.posts[j]? = some (.resting w) ∧ s'.posts[j]? = some (.running w i) := by
  cases h with
  | @sent k w hk =>
    cases List.mem_singleton.1 hsent
    exact ⟨rfl, w, hk, List.getElem?_set_self (List.getElem?_eq_some_iff.1 hk).1⟩
  | kept _ | checked _ _ | inquired _ _ _ _ | hired _ | dismissed _ _ | heard _ _ | came
  | lined _ _ => cases hsent
  | refused _ _ | admitted _ _ | requested _ | cancelled => cases List.mem_singleton.1 hsent
  | acted _ _ _ _ =>
    rcases List.mem_append.1 hsent with hsent | hsent
    · obtain ⟨_, -, heq⟩ := List.mem_map.1 hsent
      cases heq
    · obtain ⟨_, -, heq⟩ := List.mem_map.1 hsent
      cases heq

/-- A worker that rests has heard of all its runs. -/
theorem Attended.rested {w : Worker} (ha : Attended es s) (hj : s.posts[j]? = some (.resting w))
    (hsent : .sent j i ∈ es) : s.EndedWell i := by
  rcases ha j i hsent with ⟨w', hrunning⟩ | hleft | hwell
  · cases hj.symm.trans hrunning
  · cases hj.symm.trans hleft
  · exact hwell

theorem Attended.moved {es es' : List Event} (ha : Attended es s) (h : Moved s m es' s' m') :
    Attended (es ++ es') s' := by
  have hset {k j i : Nat} {x y : Post} (hk : s.posts[k]? = some x) (hsent : .sent j i ∈ es)
      (hself : j = k → (∃ w, y = .running w i) ∨ y = .left ∨ s'.EndedWell i) :
      (∃ w, (s.posts.set k y)[j]? = some (.running w i)) ∨ (s.posts.set k y)[j]? = some .left ∨
        s'.EndedWell i := by
    rcases eq_or_ne j k with rfl | hjk
    · rw [List.getElem?_set_self (List.getElem?_eq_some_iff.1 hk).1]
      rcases hself rfl with ⟨w, rfl⟩ | rfl | hwell
      · exact .inl ⟨w, rfl⟩
      · exact .inr (.inl rfl)
      · exact .inr (.inr hwell)
    · rw [List.getElem?_set_ne hjk.symm]
      exact (ha j i hsent).imp_right (·.imp_right h.endedWell)
  intro j i hmem
  rcases List.mem_append.1 hmem with hsent | hsent
  · have hended (i : Nat) : s.EndedWell i → s'.EndedWell i := h.endedWell
    have hbefore := ha j i hsent
    have hstill := hbefore.imp_right (·.imp_right h.endedWell)
    cases h with
    | hired w =>
      rcases hstill with ⟨w', hrunning⟩ | hleft | hwell
      · exact .inl ⟨w', Crew.getElem?_concat.2 (.inl hrunning)⟩
      · exact .inr (.inl (Crew.getElem?_concat.2 (.inl hleft)))
      · exact .inr (.inr hwell)
    | dismissed hk _ => exact hset hk hsent fun _ => .inr (.inl rfl)
    | @heard k i' w res shake now hk hi =>
      refine hset hk hsent ?_
      rintro rfl
      rcases hbefore with ⟨w', hrunning⟩ | hleft | hwell
      · cases hk.symm.trans hrunning
        by_cases hfatal : ∃ e, res = .error e ∧ e.isFatal = true
        · obtain ⟨e, rfl, he⟩ := hfatal
          exact .inr (.inl (heard_of_fatal he w shake now))
        · refine .inr (.inr ⟨res, hi, fun e he => ?_⟩)
          exact Bool.eq_false_iff.2 fun h => hfatal ⟨e, he, h⟩
      · cases hk.symm.trans hleft
      · exact .inr (.inr hwell)
    | sent hk =>
      refine hset hk hsent ?_
      rintro rfl
      exact .inr (.inr (hended i (ha.rested hk hsent)))
    | _ => exact hstill
  · obtain ⟨-, w, -, hrunning⟩ := h.of_sent hsent
    exact .inl ⟨w, hrunning⟩

theorem Course.attended {d : Desk} (hfree : d.scheduler.turn = .free)
    (h : Course (opened d) m₀ es s m) : Attended es s := by
  induction h with
  | start => exact fun _ _ hsent => absurd hsent List.not_mem_nil
  | move h hf ih => exact ih.moved (moved_of_follows (h.ordered (ordered_opened hfree)) hf)

/-- A worker that has sent another run has heard its last one end without a fatal error. -/
theorem Course.sent_again {d : Desk} (hfree : d.scheduler.turn = .free)
    (h : Course (opened d) m₀ es s m) {es₁ es₂ : List Event} {k : Nat}
    (hes : es = es₁ ++ .sent j i :: es₂) (hagain : .sent j k ∈ es₂) : s.EndedWell i := by
  induction h generalizing es₂ with
  | start => cases es₁ <;> cases hes
  | @move es es' s s' m m' mv tr h hf ih =>
    have hmoved := moved_of_follows (h.ordered (ordered_opened hfree)) hf
    rcases append_eq_split hes with ⟨u, hu, rfl⟩ | ⟨u, hu, -⟩
    · rcases List.mem_append.1 hagain with hagain | hagain
      · exact hmoved.endedWell (ih hu hagain)
      · obtain ⟨-, w, hrested, -⟩ := hmoved.of_sent hagain
        exact hmoved.endedWell ((h.attended hfree).rested hrested (by rw [hu]; simp))
    · obtain ⟨hsingle, -⟩ := hmoved.of_sent (j := j) (i := i) (by rw [hu]; simp)
      rw [hu] at hsingle
      cases u with
      | nil =>
        cases hsingle
        cases hagain
      | cons x u => simp at hsingle

/-! ## Suspension -/

/-- What has become of a worker one of whose runs has ended with a fatal error: it has not sent another
one, and leaves when it hears of it if it has not left before. -/
structure Stopped (s : Shift) (j i : Nat) (es : List Event) : Prop where
  idle : ∀ k, .sent j k ∉ es
  leaves : s.posts[j]? = some .left ∨ (∃ w, s.posts[j]? = some (.running w i)) ∧
    ∀ shake now, (s.hear j shake now).posts[j]? = some .left

theorem Course.stopped {d : Desk} (hfree : d.scheduler.turn = .free)
    (h : Course (opened d) m₀ es s m) {es₁ es₂ : List Event} {err : RunError}
    (hes : es = es₁ ++ .sent j i :: es₂) (hreturned : .crew (.run i (.returned (.error err))) ∈ es)
    (hfatal : err.isFatal = true) : Stopped s j i es₂ := by
  have hi := h.returned (ordered_opened hfree) hreturned
  have hnot : ¬ s.EndedWell i := by
    rintro ⟨res, hres, hwell⟩
    cases hi.symm.trans hres
    rw [hwell err rfl] at hfatal
    cases hfatal
  refine ⟨fun k hagain => hnot (h.sent_again hfree hes hagain), ?_⟩
  rcases h.attended hfree j i (by rw [hes]; simp) with ⟨w, hrunning⟩ | hleft | hwell
  · refine .inr ⟨⟨w, hrunning⟩, fun shake now => ?_⟩
    have hheard : s.hear j shake now = { s with posts := s.posts.set j .left } := by
      simp only [hear, hrunning, hi, heard_of_fatal hfatal]
    rw [hheard]
    exact List.getElem?_set_self (List.getElem?_eq_some_iff.1 hrunning).1
  · exact .inl hleft
  · exact absurd hwell hnot

/-- A halted shift comes to its end, whatever the store does: while a run has not returned some move
takes it nearer, and so does every move that does anything for a run. -/
structure WindsUp (s : Shift) : Prop where
  goes_on : ¬ s.crew.Ended → ∃ mv,
    (∀ m tr es s' m', Follows (s.perform mv) m tr (some (es, s')) m' → s'.windup < s.windup) ∧
      ∀ m, ∃ tr x m', Follows (s.perform mv) m tr (some x) m'
  nearer : ∀ mv m tr es s' m', Follows (s.perform mv) m tr (some (es, s')) m' →
    s'.crew.runs = s.crew.runs ++ [.arriving] ∨ s'.crew.runs = s.crew.runs ∨ s'.windup < s.windup

theorem Ordered.windsUp (ho : s.Ordered) (hs : s.Halted) : s.WindsUp where
  goes_on := ho.goes_on hs
  nearer _ _ _ _ _ _ hf := ho.winds_up hs (moved_of_follows ho hf)

/-- **A suspended scheduler stays silent.** In whatever way runs come, others ask the queue and the
store fails: the scheduler is suspended exactly when the queue has refused one of its runs for good.
A run that the queue refuses returns the error at once. If that was for good, nothing is seen from then
on but that runs are refused, those that stood in line as well, and all of them return; a worker that
one of these runs belongs to sends no other and leaves. -/
theorem stays_silent {d : Desk} (hfree : d.scheduler.turn = .free)
    (hactive : d.scheduler.suspended = false) (h : Course (opened d) m₀ es s m) :
    (s.crew.desk.scheduler.suspended = true ↔
      ∃ i r e, .asked i r (.error e) ∈ es ∧ e.isFatal = true) ∧
    (∀ es₁ i r e es₂, es = es₁ ++ .asked i r (.error e) :: es₂ →
      ∃ es₃, Refusal i r e es₂ es₃ ∧ (e.isFatal = true → ∀ e' ∈ es₃, e'.Silent)) ∧
    (∀ es₁ j i es₂ err, es = es₁ ++ .sent j i :: es₂ →
      .crew (.run i (.returned (.error err))) ∈ es → err.isFatal = true → Stopped s j i es₂) ∧
    (s.crew.desk.scheduler.suspended = true → s.WindsUp) := by
  have ho := ordered_opened hfree
  refine ⟨h.suspended_iff ho hactive, ?_, ?_, ?_⟩
  · intro es₁ i r e es₂ hes
    exact h.after_refusal ho hactive hes
  · intro es₁ j i es₂ err hes hreturned hfatal
    exact h.stopped hfree hes hreturned hfatal
  · intro hs
    exact (h.ordered ho).windsUp (.inr hs)

end

/-- Others find the store failing while a worker's run has the turn and another one stands in line. -/
theorem silence_of_two : ∃ (d : Desk) (es : List Event) (s : Shift) (m : Content),
    d.scheduler.turn = .free ∧ d.scheduler.suspended = false ∧
      Course (opened d) (fun _ => none) es s m ∧
      s.crew.runs = [.finished (.error (.storageFault .suspended)),
        .finished (.error .suspended)] ∧
      s.posts = [.left] ∧ s.crew.desk.scheduler.suspended = true := by
  let d : Desk := { Client.plain.desk with queue := .restored .standard [Queue.blank] 0 0 }
  have h : Course (opened d) (fun _ => none) [] _ _ := .start
  have h := h.step .hire (.done _ _)
  have h := h.step (.wake 0) (.done _ _)
  have h := h.step (.crew .come) (.done _ _)
  have h := h.step (.crew (.ask 0)) (.done _ _)
  have h := h.step (.crew (.ask 1)) (.done _ _)
  have h := h.step (.crew (.act 0 .enter)) (.done _ _)
  have h := h.step (.crew (.request false (.ackSuccess Queue.blank.id)))
    (.call (.failed Memory.failure) (.tell (.done _ _)))
  have h := h.step (.crew (.act 0 (.look false false))) (.tell (.done _ _))
  have h := h.step (.crew (.act 1 .enter)) (.done _ _)
  have h : Course (opened d) _ [.sent 0 0, .crew (.run 0 .took), .crew (.request _ _),
      .asked 0 (.peek 1) (.error .suspended), .crew (.run 0 (.returned _)),
      .crew (.run 1 .took), .crew (.run 1 (.returned _))]
      ⟨⟨_, [.finished _, .finished _]⟩, _, [.left]⟩ _ := h.step (.hear 0 id 0) (.done _ _)
  obtain ⟨hiff, -, -, -⟩ := stays_silent rfl rfl h
  exact ⟨d, _, _, _, rfl, rfl, h, rfl, rfl, hiff.2 ⟨0, .peek 1, .suspended, by simp, rfl⟩⟩

end Shift
end PingDelivery.Upload
