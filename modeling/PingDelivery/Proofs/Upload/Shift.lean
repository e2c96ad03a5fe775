import PingDelivery.Proofs.Upload.Consult
import PingDelivery.Proofs.Upload.Serial
import PingDelivery.Upload.Worker

/-! # A crew at work

A `Shift` is a crew with the background workers that send runs to it. A move is what one task does
between two points at which others may come in between. A run that wants something of the queue finds
out first whether anyone has cancelled, then whether the queue is well, and then waits for the queue;
what it has found out may not hold any more when its turn comes. What a run asks the queue and what
it is answered is to be seen. A worker rests until it is time or the bell rings, sends a run, and hears
how it has ended. `Moved` lists what a move can come to.
-/

namespace PingDelivery.Upload
open Store

/-! ## Moves -/

/-- What a run has found out since its last step: that nobody had cancelled, and that the queue was
well. -/
structure Found where
  checked : Bool
  passed : Bool

def Found.nothing : Found := ⟨false, false⟩

theorem Found.ne_of_checked {f : Found} (h : f.checked = true) : f ≠ .nothing := by
  rintro rfl
  cases h

theorem Found.ne_of_passed {f : Found} (h : f.passed = true) : f ≠ .nothing := by
  rintro rfl
  cases h

/-- The step takes for granted what has been found. -/
def Found.ground (f : Found) : Run.Act → Run.Act
  | .look _ _ => .look f.checked f.passed
  | .settle _ => .settle f.passed
  | a => a

/-- Where a worker stands. -/
inductive Post where
  | resting (w : Worker)
  /-- It has sent a run and waits to hear how it ends. -/
  | running (w : Worker) (i : Nat)
  | left

/-- A crew, what its runs have found out, and the workers. What a run does before it asks the queue is
told apart into `check` and `inquire`, so that a cancellation or a failure may come in between. Its
wait for the uploader is not: to see that nobody has cancelled and to take the answer is one step, and
a cancellation that comes between the two looks counts as one that comes after the answer. -/
structure Shift where
  crew : Crew
  found : Nat → Found
  posts : List Post

namespace Shift

def opened (d : Desk) : Shift := ⟨⟨d, []⟩, fun _ => .nothing, []⟩

inductive Event where
  | crew (e : Crew.Event)
  /-- A run has asked the queue and been answered. -/
  | asked (i : Nat) (r : Queue.Request) (b : Queue.Response)
  /-- A worker has sent a run. -/
  | sent (j i : Nat)

def Event.crew? : Event → Option Crew.Event
  | .crew e => some e
  | .asked _ _ _ | .sent _ _ => none

/-- A move of the crew rests on what its runs have found. A run that finds out that somebody has
cancelled, or that the queue is suspended, acts on it at once and therefore finds out no more. -/
inductive Move where
  | crew (mv : Crew.Move)
  | check (i : Nat)
  | inquire (i : Nat)
  | hire
  /-- It is time for the worker, or the bell has rung. -/
  | wake (j : Nat)
  /-- The worker finds out that somebody has cancelled. -/
  | dismiss (j : Nat)
  | hear (j : Nat) (shake : Nat → Nat) (now : Nat)

def ground (found : Nat → Found) : Crew.Move → Crew.Move
  | .act i a => .act i ((found i).ground a)
  | mv => mv

/-- After its step a run has to find out everything anew. -/
def forget (found : Nat → Found) : Crew.Move → Nat → Found
  | .act i _ => Function.update found i .nothing
  | _ => found

/-- What a run that has taken a step has asked. -/
def told (i : Nat) (log : Option (Queue.Request × Queue.Response)) : List Event :=
  log.toList.map fun (r, b) => .asked i r b

/-- A move of a crew, with what is asked in it. -/
def consult (c : Crew) : Crew.Move → Program (List Event × Crew)
  | .act i a =>
    match c.runs[i]? with
    | some phase =>
      if phase.busy then (Run.consult c.desk phase a).bind fun (log, x) =>
        .done (told i log ++ (c.put i x).1.map .crew, (c.put i x).2)
      else .done ([], c)
    | none => .done ([], c)
  | mv => (c.perform mv).bind fun (es, c) => .done (es.map .crew, c)

def check (s : Shift) (i : Nat) : Shift :=
  match s.crew.runs[i]? with
  | some (.looking _) =>
    if s.crew.desk.scheduler.cancelled then s
    else { s with found := Function.update s.found i ⟨true, false⟩ }
  | _ => s

def inquire (s : Shift) (i : Nat) : Shift :=
  if s.crew.desk.queue.faulted then s
  else
    match s.crew.runs[i]?, (s.found i).checked with
    | some (.looking _), true => { s with found := Function.update s.found i ⟨true, true⟩ }
    | some (.settling _ _ _), _ => { s with found := Function.update s.found i ⟨false, true⟩ }
    | _, _ => s

def dismiss (s : Shift) (j : Nat) : Shift :=
  match s.posts[j]?, s.crew.desk.scheduler.cancelled with
  | some (.resting _), true => { s with posts := s.posts.set j .left }
  | _, _ => s

/-- Where the worker stands once it has heard how its run has ended. -/
def heard (w : Worker) (shake : Nat → Nat) (now : Nat) (r : Except RunError Summary) : Post :=
  let (w, _, goes) := w.after shake now r
  if goes then .resting w else .left

def hear (s : Shift) (j : Nat) (shake : Nat → Nat) (now : Nat) : Shift :=
  match s.posts[j]? with
  | some (.running w i) =>
    match s.crew.runs[i]? with
    | some (.finished r) => { s with posts := s.posts.set j (heard w shake now r) }
    | _ => s
  | _ => s

theorem check_crew (s : Shift) (i : Nat) : (s.check i).crew = s.crew := by
  unfold check
  split
  · split <;> rfl
  · rfl

theorem inquire_crew (s : Shift) (i : Nat) : (s.inquire i).crew = s.crew := by
  unfold inquire
  split
  · rfl
  · split <;> rfl

theorem dismiss_crew (s : Shift) (j : Nat) : (s.dismiss j).crew = s.crew := by
  unfold dismiss
  split <;> rfl

theorem hear_crew (s : Shift) (j : Nat) (shake : Nat → Nat) (now : Nat) :
    (s.hear j shake now).crew = s.crew := by
  unfold hear
  split
  · split <;> rfl
  · rfl

def wake (s : Shift) (j : Nat) : List Event × Shift :=
  match s.posts[j]? with
  | some (.resting w) =>
    ([.sent j s.crew.runs.length], { s with
      crew := { s.crew with runs := s.crew.runs ++ [.arriving] }
      posts := s.posts.set j (.running w s.crew.runs.length) })
  | _ => ([], s)

def perform (s : Shift) : Move → Program (List Event × Shift)
  | .crew mv => (consult s.crew (ground s.found mv)).bind fun (es, c) =>
    .done (es, { s with crew := c, found := forget s.found mv })
  | .check i => .done ([], s.check i)
  | .inquire i => .done ([], s.inquire i)
  | .hire => .done ([], { s with
      posts := s.posts ++ [.resting (.start s.crew.desk.scheduler.plan)] })
  | .wake j => .done (s.wake j)
  | .dismiss j => .done ([], s.dismiss j)
  | .hear j shake now => .done ([], s.hear j shake now)

/-- `Course s₀ m₀ es s m`: moves of a shift over a store with the content `m₀` have led to `s` and `m`,
and `es` could be seen of them, the first first. -/
inductive Course (s₀ : Shift) (m₀ : Content) : List Event → Shift → Content → Prop where
  | start : Course s₀ m₀ [] s₀ m₀
  | move {es es' : List Event} {s s' : Shift} {m m' : Content} {mv : Move} {tr : List Observed}
      (h : Course s₀ m₀ es s m) (hf : Follows (s.perform mv) m tr (some (es', s')) m') :
      Course s₀ m₀ (es ++ es') s' m'

theorem Course.trans {s₀ s s' : Shift} {m₀ m m' : Content} {es es' : List Event}
    (h : Course s₀ m₀ es s m) (h' : Course s m es' s' m') : Course s₀ m₀ (es ++ es') s' m' := by
  induction h' with
  | start =>
    rw [List.append_nil]
    exact h
  | move _ hf ih =>
    rw [← List.append_assoc]
    exact ih.move hf

/-- The move is one that is named. -/
theorem Course.step {s₀ s s' : Shift} {m₀ m m' : Content} {es es' : List Event} {tr : List Observed}
    (h : Course s₀ m₀ es s m) (mv : Move)
    (hf : Follows (s.perform mv) m tr (some (es', s')) m') : Course s₀ m₀ (es ++ es') s' m' :=
  h.move hf

/-- Where a course has led to, another one starts. -/
theorem Course.fresh {s₀ s : Shift} {m₀ m : Content} {es : List Event} (_ : Course s₀ m₀ es s m) :
    Course s m [] s m := .start

/-! ## What a move can come to -/

/-- How what a step of a run has left is put back. -/
inductive Put (c : Crew) (i : Nat) :
    List Run.Deed × Run.Phase × Desk → List Crew.Event → Crew → Prop where
  | goes_on {deeds : List Run.Deed} {phase : Run.Phase} {d : Desk}
      (hgo : ∀ r, phase ≠ .finished r) :
      Put c i (deeds, phase, d) (deeds.map (.run i)) ⟨d, c.runs.set i phase⟩
  | ends {deeds : List Run.Deed} {r : Except RunError Summary} {d : Desk} :
      Put c i (deeds, .finished r, d) (deeds.map (.run i) ++ [.run i (.returned r)])
        ⟨d.withTurn .free, c.runs.set i (.finished r)⟩
  | hands {deeds : List Run.Deed} {r : Except RunError Summary} {d : Desk} {j : Nat}
      {rest : List Nat} (hj : (c.runs.set i (.finished r))[j]? = some .waiting) :
      Put c i (deeds, .finished r, d)
        (deeds.map (.run i) ++ [.run i (.returned r), .run j .took])
        ⟨d.withTurn ⟨true, rest⟩, (c.runs.set i (.finished r)).set j .admitted⟩

theorem put_cases {c : Crew} {i : Nat} {phase : Run.Phase} {x : List Run.Deed × Run.Phase × Desk}
    (hc : c.Orderly (some (i, phase))) (hturn : x.2.2.scheduler.turn = c.turn) :
    Put c i x (c.put i x).1 (c.put i x).2 := by
  obtain ⟨deeds, phase', d⟩ := x
  cases phase' with
  | finished r =>
    cases hline : c.turn.line with
    | nil =>
      have hpass : (Crew.mk d (c.runs.set i (.finished r))).passOn = _ :=
        Crew.passOn_of_nil ((congrArg Turn.line hturn).trans hline)
      have hends : Put c i (deeds, .finished r, d) _ _ := .ends
      simpa only [Crew.put, hpass] using hends
    | cons j rest =>
      have hpass : (Crew.mk d (c.runs.set i (.finished r))).passOn = _ :=
        Crew.passOn_of_cons ((congrArg Turn.line hturn).trans hline)
      have hj := ((hc.rest hline r).mem j).1 List.mem_cons_self
      have hhands : Put c i (deeds, .finished r, d) _ ⟨d.withTurn ⟨true, rest⟩, _⟩ := .hands hj
      simpa only [Crew.put, hpass] using hhands
  | _ => exact .goes_on fun r h => by cases h

theorem Put.desk {c c' : Crew} {i : Nat} {x : List Run.Deed × Run.Phase × Desk}
    {es : List Crew.Event} (h : Put c i x es c') :
    ∃ turn, c'.desk = x.2.2.withTurn turn := by
  cases h with
  | @goes_on deeds phase d _ => exact ⟨d.scheduler.turn, rfl⟩
  | ends | hands _ => exact ⟨_, rfl⟩

/-- What a move of a shift can come to. -/
inductive Moved (s : Shift) (m : Content) : List Event → Shift → Content → Prop where
  | kept {found : Nat → Found} (hfound : ∀ i, found i = s.found i ∨ found i = .nothing) :
      Moved s m [] { s with found } m
  | checked {i : Nat} {w : Summary} (hi : s.crew.runs[i]? = some (.looking w))
      (hc : s.crew.desk.scheduler.cancelled = false) :
      Moved s m [] { s with found := Function.update s.found i ⟨true, false⟩ } m
  | inquired {i : Nat} {phase : Run.Phase} {f : Found} (hi : s.crew.runs[i]? = some phase)
      (hb : phase.busy = true)
      (hf : f.checked = true → (s.found i).checked = true ∧ ∃ w, phase = .looking w)
      (hq : s.crew.desk.queue.faulted = false) :
      Moved s m [] { s with found := Function.update s.found i f } m
  | hired (w : Worker) : Moved s m [] { s with posts := s.posts ++ [.resting w] } m
  | dismissed {j : Nat} {w : Worker} (hj : s.posts[j]? = some (.resting w))
      (hc : s.crew.desk.scheduler.cancelled = true) :
      Moved s m [] { s with posts := s.posts.set j .left } m
  | heard {j i : Nat} {w : Worker} {r : Except RunError Summary} {shake : Nat → Nat} {now : Nat}
      (hj : s.posts[j]? = some (.running w i)) (hi : s.crew.runs[i]? = some (.finished r)) :
      Moved s m [] { s with posts := s.posts.set j (heard w shake now r) } m
  | came : Moved s m [] { s with crew := { s.crew with runs := s.crew.runs ++ [.arriving] } } m
  | sent {j : Nat} {w : Worker} (hj : s.posts[j]? = some (.resting w)) :
      Moved s m [.sent j s.crew.runs.length] { s with
        crew := { s.crew with runs := s.crew.runs ++ [.arriving] }
        posts := s.posts.set j (.running w s.crew.runs.length) } m
  | refused {i : Nat} (hi : s.crew.runs[i]? = some .arriving)
      (hs : s.crew.desk.scheduler.suspended = true) :
      Moved s m [.crew (.run i (.returned (.error .suspended)))] { s with
        crew := { s.crew with runs := s.crew.runs.set i (.finished (.error .suspended)) } } m
  | admitted {i : Nat} {turn : Turn} (hi : s.crew.runs[i]? = some .arriving)
      (hs : s.crew.desk.scheduler.suspended = false) :
      Moved s m [.crew (.run i .took)] { s with
        crew := ⟨s.crew.desk.withTurn turn, s.crew.runs.set i .admitted⟩ } m
  | lined {i : Nat} {turn : Turn} (hi : s.crew.runs[i]? = some .arriving)
      (hs : s.crew.desk.scheduler.suspended = false) :
      Moved s m [] { s with
        crew := ⟨s.crew.desk.withTurn turn, s.crew.runs.set i .waiting⟩ } m
  | acted {i : Nat} {a : Run.Act} {phase : Run.Phase} {log : Option (Queue.Request × Queue.Response)}
      {x : List Run.Deed × Run.Phase × Desk} {es : List Crew.Event} {c : Crew} {m' : Content}
      (hi : s.crew.runs[i]? = some phase) (hb : phase.busy = true)
      (h : Run.Consulted s.crew.desk m phase ((s.found i).ground a) log x m')
      (hput : Put s.crew i x es c) :
      Moved s m (told i log ++ es.map .crew)
        { s with crew := c, found := Function.update s.found i .nothing } m'
  | requested {passed : Bool} {r : Queue.Request} {b : Queue.Response} {q : Queue} {m' : Content}
      {tr : List Observed} (h : Follows (s.crew.desk.queue.attend passed r) m tr (some (b, q)) m') :
      Moved s m [.crew (.request r b)] { s with
        crew := { s.crew with desk := { s.crew.desk with queue := q } } } m'
  | cancelled : Moved s m [.crew .cancelled] { s with
      crew := { s.crew with desk := { s.crew.desk with
        scheduler := { s.crew.desk.scheduler with cancelled := true } } } } m

/-- One run at most has the turn. Only that run has found anything out, and that nobody had cancelled
only if it is about to look. -/
structure Ordered (s : Shift) : Prop where
  orderly : ∃ cur, s.crew.Orderly cur
  busy : ∀ i, s.found i ≠ .nothing → ∃ phase, s.crew.runs[i]? = some phase ∧ phase.busy = true
  looking : ∀ i, (s.found i).checked = true → ∃ w, s.crew.runs[i]? = some (.looking w)

theorem ordered_opened {d : Desk} (h : d.scheduler.turn = .free) : (opened d).Ordered where
  orderly := ⟨none, .start h⟩
  busy _ hi := absurd rfl hi
  looking _ hi := absurd hi Bool.false_ne_true

/-- What is asked aside, it is a move of the crew. -/
theorem consult_perform (c : Crew) (mv : Crew.Move) :
    ((consult c mv).bind fun x => .done (x.1.filterMap Event.crew?, x.2)) = c.perform mv := by
  have hcrew (es : List Crew.Event) : (es.map Event.crew).filterMap Event.crew? = es := by
    rw [List.filterMap_map]
    exact List.filterMap_some
  have htold (i : Nat) (log : Option (Queue.Request × Queue.Response)) :
      (told i log).filterMap Event.crew? = [] := by
    rw [told, List.filterMap_map]
    exact List.filterMap_eq_nil_iff.2 fun _ _ => rfl
  have hrest (p : Program (List Crew.Event × Crew)) :
      ((p.bind fun (es, c) => .done (es.map .crew, c)).bind fun x =>
        .done (x.1.filterMap Event.crew?, x.2)) = p := by
    rw [Program.bind_assoc]
    simp only [Program.bind, hcrew]
    exact Program.bind_done p
  cases mv with
  | act i a =>
    simp only [consult, Crew.perform]
    cases c.runs[i]? with
    | none => rfl
    | some phase =>
      dsimp only
      split
      · rw [← Run.consult_act, Program.bind_assoc, Program.bind_assoc]
        refine Program.bind_congr ?_
        rintro ⟨log, x⟩
        simp only [Program.bind, List.filterMap_append, hcrew, htold, List.nil_append]
      · rfl
  | _ => exact hrest _

section
variable {s s' : Shift} {m m' : Content} {mv : Move} {es : List Event} {tr : List Observed}

theorem follows_of_consult {c c' : Crew} {mv : Crew.Move}
    (h : Follows (consult c mv) m tr (some (es, c')) m') :
    ∃ tr', Follows (c.perform mv) m tr' (some (es.filterMap Event.crew?, c')) m' := by
  rw [← consult_perform]
  exact ⟨_, h.bind (.done _ _)⟩

theorem moved_of_check (i : Nat) : Moved s m [] (s.check i) m := by
  have hkept : Moved s m [] s m := .kept fun _ => .inl rfl
  unfold check
  split
  · rename_i w hi
    split
    · exact hkept
    · rename_i hc
      exact .checked hi (Bool.eq_false_iff.2 hc)
  · exact hkept

theorem moved_of_inquire (i : Nat) : Moved s m [] (s.inquire i) m := by
  have hkept : Moved s m [] s m := .kept fun _ => .inl rfl
  unfold inquire
  split
  · exact hkept
  · rename_i hq
    have hq : s.crew.desk.queue.faulted = false := Bool.eq_false_iff.2 hq
    split
    · rename_i w hi hchecked
      exact .inquired hi rfl (fun _ => ⟨hchecked, w, rfl⟩) hq
    · rename_i p o w hi
      exact .inquired hi rfl (fun h => absurd h Bool.false_ne_true) hq
    · exact hkept

theorem moved_of_wake (j : Nat) : Moved s m (s.wake j).1 (s.wake j).2 m := by
  unfold wake
  split
  · rename_i w hj
    exact .sent hj
  · exact .kept fun _ => .inl rfl

theorem moved_of_dismiss (j : Nat) : Moved s m [] (s.dismiss j) m := by
  unfold dismiss
  split
  · rename_i w hj hc
    exact .dismissed hj hc
  · exact .kept fun _ => .inl rfl

theorem moved_of_hear (j : Nat) (shake : Nat → Nat) (now : Nat) :
    Moved s m [] (s.hear j shake now) m := by
  have hkept : Moved s m [] s m := .kept fun _ => .inl rfl
  unfold hear
  split
  · rename_i w i hj
    split
    · rename_i r hi
      exact .heard hj hi
    · exact hkept
  · exact hkept

theorem moved_of_act {i : Nat} {a : Run.Act} {c : Crew} (ho : s.Ordered)
    (h : Follows (consult s.crew (.act i ((s.found i).ground a))) m tr (some (es, c)) m') :
    Moved s m es { s with crew := c, found := Function.update s.found i .nothing } m' := by
  have hkept (h : Follows (.done ([], s.crew)) m tr (some (es, c)) m') :
      Moved s m es { s with crew := c, found := Function.update s.found i .nothing } m' := by
    obtain ⟨hout, rfl⟩ := h.eq_of_done
    cases hout
    refine .kept fun k => ?_
    rcases eq_or_ne k i with rfl | hki
    · exact .inr (Function.update_self _ _ _)
    · exact .inl (Function.update_of_ne hki _ _)
  simp only [consult] at h
  split at h
  · rename_i phase hi
    split at h
    · rename_i hb
      obtain ⟨out, hact, hout⟩ := h.of_bind_done
      obtain ⟨⟨log, x⟩, rfl, hx⟩ := Option.map_eq_some_iff.1 hout.symm
      cases hx
      obtain ⟨tr', hact'⟩ := Run.follows_of_consult hact
      obtain ⟨cur, hc⟩ := ho.orderly
      obtain rfl := (hc.alone i phase).1 ⟨hi, hb⟩
      exact .acted hi hb (Run.consulted_of_follows hact)
        (put_cases hc (Run.acted_of_follows hact').turn)
    · exact hkept h
  · exact hkept h

theorem moved_of_ask {i : Nat} (hi : s.crew.runs[i]? = some .arriving) :
    Moved s m ((s.crew.ask i).1.map .crew) { s with crew := (s.crew.ask i).2 } m := by
  unfold Crew.ask
  cases hs : s.crew.desk.scheduler.suspended with
  | true => exact .refused hi hs
  | false =>
    rw [if_neg Bool.false_ne_true]
    split
    · exact .admitted hi hs
    · exact .lined hi hs

/-- **A move comes to one of these.** -/
theorem moved_of_follows (ho : s.Ordered) (h : Follows (s.perform mv) m tr (some (es, s')) m') :
    Moved s m es s' m' := by
  have of_done {x : List Event × Shift} (h : Follows (.done x) m tr (some (es, s')) m')
      (hx : Moved s m x.1 x.2 m) : Moved s m es s' m' := by
    obtain ⟨rfl, rfl⟩ := h.eq_of_done
    exact hx
  cases mv with
  | check i => exact of_done h (moved_of_check i)
  | inquire i => exact of_done h (moved_of_inquire i)
  | hire => exact of_done h (.hired _)
  | wake j => exact of_done h (moved_of_wake j)
  | dismiss j => exact of_done h (moved_of_dismiss j)
  | hear j shake now => exact of_done h (moved_of_hear j shake now)
  | crew mv =>
    obtain ⟨out, hcrew, hout⟩ := h.of_bind_done
    obtain ⟨⟨es', c⟩, rfl, hx⟩ := Option.map_eq_some_iff.1 hout.symm
    cases hx
    cases mv with
    | act i a => exact moved_of_act ho hcrew
    | come =>
      obtain ⟨hout, rfl⟩ := hcrew.eq_of_done
      cases hout
      exact .came
    | ask i =>
      simp only [ground, consult, Crew.perform] at hcrew
      split at hcrew
      · rename_i hi
        obtain ⟨hout, rfl⟩ := hcrew.eq_of_done
        cases hout
        exact moved_of_ask hi
      · obtain ⟨hout, rfl⟩ := hcrew.eq_of_done
        cases hout
        exact .kept fun _ => .inl rfl
    | request passed r =>
      obtain ⟨out, hrequest, hout⟩ := hcrew.of_bind_done
      obtain ⟨⟨es', c⟩, rfl, hx⟩ := Option.map_eq_some_iff.1 hout.symm
      cases hx
      obtain ⟨out, hattend, hout⟩ := hrequest.of_bind_done
      obtain ⟨⟨b, q⟩, rfl, hx⟩ := Option.map_eq_some_iff.1 hout.symm
      cases hx
      exact .requested hattend
    | cancel =>
      obtain ⟨hout, rfl⟩ := hcrew.eq_of_done
      cases hout
      exact .cancelled

/-- A move touches nothing of the scheduler but the turn, its statistics and whether it is suspended or
cancelled. Cancelling is for good. -/
theorem Moved.scheduler (h : Moved s m es s' m') : ∃ turn stats suspended cancelled,
    s'.crew.desk.scheduler = { s.crew.desk.scheduler with turn, stats, suspended, cancelled } ∧
      (s.crew.desk.scheduler.cancelled = true → cancelled = true) := by
  cases h with
  | kept _ | checked _ _ | inquired _ _ _ _ | hired _ | dismissed _ _ | heard _ _ | came | sent _
  | refused _ _ | admitted _ _ | lined _ _ | requested _ => exact ⟨_, _, _, _, rfl, id⟩
  | cancelled => exact ⟨_, _, _, true, rfl, fun _ => rfl⟩
  | acted _ _ h hput =>
    obtain ⟨turn, hdesk⟩ := hput.desk
    obtain ⟨stats, suspended, hscheduler⟩ := h.scheduler
    rw [hdesk, Desk.withTurn, hscheduler]
    exact ⟨turn, stats, suspended, _, rfl, id⟩

/-- What the crew does in a move, if anything. -/
theorem crew_of_follows (h : Follows (s.perform mv) m tr (some (es, s')) m') :
    (es.filterMap Event.crew? = [] ∧ s'.crew = s.crew ∧ m' = m) ∨ ∃ mv' tr',
      Follows (s.crew.perform (ground s.found mv')) m tr'
        (some (es.filterMap Event.crew?, s'.crew)) m' := by
  have of_same {x : List Event × Shift} (h : Follows (.done x) m tr (some (es, s')) m')
      (hes : x.1 = []) (hx : x.2.crew = s.crew) :
      es.filterMap Event.crew? = [] ∧ s'.crew = s.crew ∧ m' = m := by
    obtain ⟨rfl, rfl⟩ := h.eq_of_done
    exact ⟨congrArg (List.filterMap Event.crew?) hes, hx, rfl⟩
  cases mv with
  | crew mv =>
    obtain ⟨out, hcrew, hout⟩ := h.of_bind_done
    obtain ⟨⟨es', c⟩, rfl, hx⟩ := Option.map_eq_some_iff.1 hout.symm
    cases hx
    exact .inr ⟨mv, follows_of_consult hcrew⟩
  | wake j =>
    have h : Follows (.done (s.wake j)) m tr (some (es, s')) m' := h
    unfold wake at h
    split at h
    · obtain ⟨hout, rfl⟩ := h.eq_of_done
      cases hout
      exact .inr ⟨.come, _, .done _ _⟩
    · exact .inl (of_same h rfl rfl)
  | check i => exact .inl (of_same h rfl (check_crew s i))
  | inquire i => exact .inl (of_same h rfl (inquire_crew s i))
  | hire => exact .inl (of_same h rfl rfl)
  | dismiss j => exact .inl (of_same h rfl (dismiss_crew s j))
  | hear j shake now => exact .inl (of_same h rfl (hear_crew s j shake now))

/-- Runs that have found anything out have the turn, so there is one such run at most. -/
theorem Ordered.only (ho : s.Ordered) {i k : Nat} {phase : Run.Phase}
    (hi : s.crew.runs[i]? = some phase) (hb : phase.busy = true) (hk : s.found k ≠ .nothing) :
    k = i := by
  obtain ⟨cur, hc⟩ := ho.orderly
  obtain ⟨phase', hk, hb'⟩ := ho.busy k hk
  exact hc.unique hk hi hb' hb

/-- When it takes a step, nobody has found anything out any more. -/
theorem Ordered.forgets (ho : s.Ordered) {i : Nat} {phase : Run.Phase}
    (hi : s.crew.runs[i]? = some phase) (hb : phase.busy = true) (k : Nat) :
    Function.update s.found i .nothing k = .nothing := by
  rcases eq_or_ne k i with rfl | hki
  · exact Function.update_self _ _ _
  · rw [Function.update_of_ne hki]
    by_contra hk
    exact hki (ho.only hi hb hk)

theorem Ordered.found_moved (ho : s.Ordered) (h : Moved s m es s' m') :
    (∀ i, s'.found i ≠ .nothing → ∃ phase, s'.crew.runs[i]? = some phase ∧ phase.busy = true) ∧
      ∀ i, (s'.found i).checked = true → ∃ w, s'.crew.runs[i]? = some (.looking w) := by
  -- a run that has not had the turn, and what has been found meanwhile
  have haside {i : Nat} {x y : Run.Phase} (hi : s.crew.runs[i]? = some x) (hx : x.busy = false)
      {k : Nat} {phase : Run.Phase} (hk : s.crew.runs[k]? = some phase) (hb : phase.busy = true) :
      (s.crew.runs.set i y)[k]? = some phase := by
    refine (List.getElem?_set_ne ?_).trans hk
    rintro rfl
    cases hi.symm.trans hk
    simp [hx] at hb
  have hothers {i : Nat} {x y : Run.Phase} (hi : s.crew.runs[i]? = some x) (hx : x.busy = false) :
      (∀ k, s.found k ≠ .nothing →
        ∃ phase, (s.crew.runs.set i y)[k]? = some phase ∧ phase.busy = true) ∧
        ∀ k, (s.found k).checked = true → ∃ w, (s.crew.runs.set i y)[k]? = some (.looking w) := by
    refine ⟨fun k hk => ?_, fun k hk => ?_⟩
    · obtain ⟨phase, hk, hb⟩ := ho.busy k hk
      exact ⟨phase, haside hi hx hk hb, hb⟩
    · obtain ⟨w, hk⟩ := ho.looking k hk
      exact ⟨w, haside hi hx hk rfl⟩
  have hcame : (∀ k, s.found k ≠ .nothing →
        ∃ phase, (s.crew.runs ++ [.arriving])[k]? = some phase ∧ phase.busy = true) ∧
      ∀ k, (s.found k).checked = true →
        ∃ w, (s.crew.runs ++ [.arriving])[k]? = some (.looking w) := by
    refine ⟨fun k hk => ?_, fun k hk => ?_⟩
    · obtain ⟨phase, hk, hb⟩ := ho.busy k hk
      exact ⟨phase, Crew.getElem?_concat.2 (.inl hk), hb⟩
    · obtain ⟨w, hk⟩ := ho.looking k hk
      exact ⟨w, Crew.getElem?_concat.2 (.inl hk)⟩
  have hupdate {i : Nat} {f : Found}
      (hf : f ≠ .nothing → ∃ phase, s.crew.runs[i]? = some phase ∧ phase.busy = true)
      (hf' : f.checked = true → ∃ w, s.crew.runs[i]? = some (.looking w)) :
      (∀ k, Function.update s.found i f k ≠ .nothing →
        ∃ phase, s.crew.runs[k]? = some phase ∧ phase.busy = true) ∧
      ∀ k, (Function.update s.found i f k).checked = true →
        ∃ w, s.crew.runs[k]? = some (.looking w) := by
    refine ⟨fun k hk => ?_, fun k hk => ?_⟩ <;> rcases eq_or_ne k i with rfl | hki
    · exact hf (Function.update_self k f s.found ▸ hk)
    · exact ho.busy k (Function.update_of_ne hki f s.found ▸ hk)
    · exact hf' (Function.update_self k f s.found ▸ hk)
    · exact ho.looking k (Function.update_of_ne hki f s.found ▸ hk)
  cases h with
  | kept hfound =>
    refine ⟨fun k hk => ?_, fun k hk => ?_⟩
    · exact ho.busy k fun hnothing => hk ((hfound k).elim (·.trans hnothing) id)
    · rcases hfound k with heq | hnothing
      · exact ho.looking k (heq ▸ hk)
      · exact absurd hnothing (Found.ne_of_checked hk)
  | checked hi _ => exact hupdate (fun _ => ⟨_, hi, rfl⟩) fun _ => ⟨_, hi⟩
  | inquired hi hb hf _ =>
    refine hupdate (fun _ => ⟨_, hi, hb⟩) fun hchecked => ?_
    obtain ⟨-, w, rfl⟩ := hf hchecked
    exact ⟨w, hi⟩
  | came | sent _ => exact hcame
  | refused hi _ | admitted hi _ | lined hi _ => exact hothers hi rfl
  | acted hi hb _ _ => exact ⟨fun k hk => absurd (ho.forgets hi hb k) hk,
      fun k hk => absurd (ho.forgets hi hb k) (Found.ne_of_checked hk)⟩
  | hired _ | dismissed _ _ | heard _ _ | requested _ | cancelled => exact ⟨ho.busy, ho.looking⟩

/-- **Order is kept.** -/
theorem Ordered.moved (ho : s.Ordered) (h : Follows (s.perform mv) m tr (some (es, s')) m') :
    s'.Ordered := by
  obtain ⟨hbusy, hlooking⟩ := ho.found_moved (moved_of_follows ho h)
  refine ⟨?_, hbusy, hlooking⟩
  obtain ⟨cur, hc⟩ := ho.orderly
  rcases crew_of_follows h with ⟨-, hsame, -⟩ | ⟨mv', tr', hf⟩
  · exact ⟨cur, hsame ▸ hc⟩
  · rcases Crew.moved_of_follows hc hf with ⟨-, hsame, -⟩ | ⟨cur', hmoved⟩
    · exact ⟨cur, hsame ▸ hc⟩
    · exact ⟨cur', hc.moved hmoved⟩

theorem Course.ordered {s₀ : Shift} {m₀ : Content} (h : Course s₀ m₀ es s m) (ho : s₀.Ordered) :
    s.Ordered := by
  induction h with
  | start => exact ho
  | move _ hf ih => exact ih.moved hf

/-! ## What was found out did hold -/

/-- What a run has found out has held since its last deed. -/
structure Witnessed (es : List Crew.Event) (s : Shift) : Prop where
  checked : ∀ i, (s.found i).checked = true → s.crew.desk.scheduler.cancelled = true →
    Crew.Since es i (· = .cancelled)
  passed : ∀ i, (s.found i).passed = true → s.crew.desk.queue.faulted = true →
    Crew.Since es i Crew.Event.Faults

theorem since_append {es es' : List Crew.Event} {i : Nat} {P : Crew.Event → Prop}
    (h : Crew.Since es i P) (hnone : ∀ x, .run i x ∉ es') : Crew.Since (es ++ es') i P := by
  obtain ⟨es₁, e, es₂, rfl, he, hes₂⟩ := h
  refine ⟨es₁, e, es₂ ++ es', List.append_assoc es₁ (e :: es₂) es', he, fun x hx => ?_⟩
  rcases List.mem_append.1 hx with hx | hx
  · exact hes₂ x hx
  · exact hnone x hx

theorem since_last {es : List Crew.Event} {i : Nat} {P : Crew.Event → Prop} {e : Crew.Event}
    (he : P e) : Crew.Since (es ++ [e]) i P :=
  ⟨es, e, [], rfl, he, fun _ => List.not_mem_nil⟩

/-- A request that suspends the queue shows it. -/
theorem faults_of_attend {q q' : Queue} {passed : Bool} {r : Queue.Request} {b : Queue.Response}
    (h : Follows (q.attend passed r) m tr (some (b, q')) m') :
    q'.faulted = q.faulted ∨ Crew.Event.Faults (.request r b) := by
  obtain ⟨hattended, -⟩ := Queue.attended_of_follows h
  cases hattended with
  | refused e | peeked hr => exact .inl rfl
  | failed e => exact .inr trivial
  | written hc => cases hc <;> exact .inl rfl

namespace Witnessed
variable {es : List Crew.Event}

/-- More is seen of others, and nothing becomes of cancelling or of the queue. -/
theorem append {es' : List Crew.Event} {c : Crew} (h : Witnessed es s)
    (hnone : ∀ i, s.found i ≠ .nothing → ∀ x, .run i x ∉ es')
    (hcancelled : c.desk.scheduler.cancelled = true → s.crew.desk.scheduler.cancelled = true)
    (hfaulted : c.desk.queue.faulted = true → s.crew.desk.queue.faulted = true) :
    Witnessed (es ++ es') { s with crew := c } where
  checked i hi hc :=
    since_append (h.checked i hi (hcancelled hc)) (hnone i (Found.ne_of_checked hi))
  passed i hi hq := since_append (h.passed i hi (hfaulted hq)) (hnone i (Found.ne_of_passed hi))

theorem update {i : Nat} {f : Found} (h : Witnessed es s)
    (hchecked : f.checked = true → s.crew.desk.scheduler.cancelled = true →
      Crew.Since es i (· = .cancelled))
    (hpassed : f.passed = true → s.crew.desk.queue.faulted = true →
      Crew.Since es i Crew.Event.Faults) :
    Witnessed es { s with found := Function.update s.found i f } where
  checked k hk := by
    rcases eq_or_ne k i with rfl | hki
    · exact hchecked (Function.update_self k f s.found ▸ hk)
    · exact h.checked k (Function.update_of_ne hki f s.found ▸ hk)
  passed k hk := by
    rcases eq_or_ne k i with rfl | hki
    · exact hpassed (Function.update_self k f s.found ▸ hk)
    · exact h.passed k (Function.update_of_ne hki f s.found ▸ hk)

end Witnessed

theorem Witnessed.moved {es es' : List Event} (hw : Witnessed (es.filterMap Event.crew?) s)
    (ho : s.Ordered) (h : Moved s m es' s' m') :
    Witnessed ((es ++ es').filterMap Event.crew?) s' := by
  have hidle {i : Nat} {phase : Run.Phase} (hi : s.crew.runs[i]? = some phase)
      (hb : phase.busy = false) (y : Run.Deed) (k : Nat) (hk : s.found k ≠ .nothing)
      (x : Run.Deed) : Crew.Event.run k x ∉ [.run i y] := by
    intro hmem
    cases List.mem_singleton.1 hmem
    obtain ⟨phase', hk, hb'⟩ := ho.busy i hk
    cases hi.symm.trans hk
    simp [hb] at hb'
  have hsilent (k : Nat) (_ : s.found k ≠ .nothing) (x : Run.Deed) : Crew.Event.run k x ∉ [] :=
    List.not_mem_nil
  rw [List.filterMap_append]
  cases h with
  | kept hfound =>
    rw [List.filterMap_nil, List.append_nil]
    refine ⟨fun i hi => ?_, fun i hi => ?_⟩
    · rcases hfound i with heq | hnothing
      · exact hw.checked i (heq ▸ hi)
      · exact absurd hnothing (Found.ne_of_checked hi)
    · rcases hfound i with heq | hnothing
      · exact hw.passed i (heq ▸ hi)
      · exact absurd hnothing (Found.ne_of_passed hi)
  | checked _ hc =>
    rw [List.filterMap_nil, List.append_nil]
    refine hw.update (fun _ hcancelled => ?_) fun h => absurd h Bool.false_ne_true
    rw [hc] at hcancelled
    cases hcancelled
  | @inquired i phase f _ _ hf hq =>
    rw [List.filterMap_nil, List.append_nil]
    refine hw.update (fun hchecked => hw.checked i (hf hchecked).1) fun _ hfaulted => ?_
    rw [hq] at hfaulted
    cases hfaulted
  | hired _ | dismissed _ _ | heard _ _ =>
    rw [List.filterMap_nil, List.append_nil]
    exact ⟨hw.checked, hw.passed⟩
  | came | lined _ _ => exact hw.append hsilent id id
  | sent _ =>
    have happend := hw.append (c := { s.crew with runs := s.crew.runs ++ [.arriving] }) hsilent id id
    exact ⟨happend.checked, happend.passed⟩
  | refused hi _ | admitted hi _ => exact hw.append (hidle hi rfl _) id id
  | acted hi hb _ _ => exact
      ⟨fun k hk => absurd (ho.forgets hi hb k) (Found.ne_of_checked hk),
        fun k hk => absurd (ho.forgets hi hb k) (Found.ne_of_passed hk)⟩
  | requested h =>
    rcases faults_of_attend h with heq | hfaults
    · refine hw.append ?_ id (heq ▸ id)
      intro k _ x hx
      cases List.mem_singleton.1 hx
    · refine ⟨fun i hi hc => ?_, fun i _ _ => since_last hfaults⟩
      refine since_append (hw.checked i hi hc) fun x hx => ?_
      cases List.mem_singleton.1 hx
  | cancelled =>
    refine ⟨fun i _ _ => since_last rfl, fun i hi hq => ?_⟩
    refine since_append (hw.passed i hi hq) fun x hx => ?_
    cases List.mem_singleton.1 hx

theorem Witnessed.honest {es : List Crew.Event} (hw : Witnessed es s) (mv : Crew.Move) :
    (ground s.found mv).Honest es s.crew.desk := by
  cases mv with
  | act i a =>
    cases a with
    | look checked passed => exact ⟨hw.checked i, hw.passed i⟩
    | settle passed => exact hw.passed i
    | _ => trivial
  | _ => trivial

/-- **The crew of a shift is a crew.** What its runs take for granted has held when they asked. -/
theorem Course.honest {d : Desk} {m₀ : Content} (hfree : d.scheduler.turn = .free)
    (h : Course (opened d) m₀ es s m) :
    Crew.Course ⟨d, []⟩ m₀ (es.filterMap Event.crew?) s.crew m := by
  suffices hboth : Witnessed (es.filterMap Event.crew?) s ∧
      Crew.Course ⟨d, []⟩ m₀ (es.filterMap Event.crew?) s.crew m from hboth.2
  induction h with
  | start =>
    exact ⟨⟨fun _ hi => absurd hi Bool.false_ne_true, fun _ hi => absurd hi Bool.false_ne_true⟩,
      .start⟩
  | move h hf ih =>
    obtain ⟨hw, hcrew⟩ := ih
    have ho := h.ordered (ordered_opened hfree)
    refine ⟨hw.moved ho (moved_of_follows ho hf), ?_⟩
    rw [List.filterMap_append]
    rcases crew_of_follows hf with ⟨hes, hsame, rfl⟩ | ⟨mv, tr', hf⟩
    · rw [hes, List.append_nil, hsame]
      exact hcrew
    · exact hcrew.move (hw.honest mv) hf

end
end Shift
end PingDelivery.Upload
