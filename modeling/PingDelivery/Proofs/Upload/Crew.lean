import PingDelivery.Proofs.Upload.Steps

/-! # Runs that take turns

A crew is a scheduler with its queue and any number of upload runs on them. A `Move` is one step of
one run, or something that others do in between: wherever a run waits anybody may move. A run asks
for cancelling and for the queue's health before it waits for the queue, so what it then does may
rest on an answer that no longer holds; `Honest` says that it did hold when it was asked for. Calls
on the store may fail. A `Course` is what can be seen of a crew whose moves follow one another in any
way. `Acted` lists what one step of a run can come to.
-/

namespace PingDelivery.Upload
open Store

def Desk.withTurn (d : Desk) (t : Turn) : Desk := { d with scheduler := { d.scheduler with turn := t } }

/-- The queue is well, and the scheduler neither suspended nor cancelled. -/
structure Desk.Sound (d : Desk) : Prop where
  well : d.queue.faulted = false
  active : d.scheduler.suspended = false
  uncancelled : d.scheduler.cancelled = false

namespace Run

/-- What can be seen of a run. -/
inductive Deed where
  /-- It has been given the turn. -/
  | took
  /-- It hands a ping to the uploader. -/
  | called (p : Ping)
  | answered (p : Ping) (o : Outcome)
  /-- It has waited too long for the answer. -/
  | expired (p : Ping)
  | abandoned (p : Ping)
  /-- It has acknowledged an answer, and the queue has replied. -/
  | acked (r : Queue.Request) (a : Except QueueError Queue.Reply)
  | returned (r : Except RunError Summary)

def Deed.called? : Deed → Option Ping
  | .called p => some p
  | _ => none

/-- A call of the uploader is over. -/
def Deed.lands : Deed → Bool
  | .answered _ _ | .expired _ | .abandoned _ => true
  | _ => false

/-- A step of a run that has the turn. -/
inductive Act where
  | enter
  /-- `checked` and `passed`: that nobody had cancelled, and that the queue was well, it has found out
  at an earlier time. -/
  | look (checked passed : Bool)
  | hear (o : Outcome)
  | expire
  | abandon
  | settle (passed : Bool)

/-- The run has the turn. -/
def Phase.busy : Phase → Bool
  | .admitted | .looking _ | .uploading _ _ | .settling _ _ _ => true
  | .arriving | .waiting | .finished _ => false

/-- The run has had the turn, or has been refused it. -/
def Phase.begun : Phase → Bool
  | .arriving | .waiting => false
  | _ => true

/-- The uploader is called with a ping that was found, unless the scheduler has been cancelled. -/
def call (d : Desk) : Phase → List Deed × Phase × Desk
  | .uploading p s =>
    if d.scheduler.cancelled then ([], abandon s, d) else ([.called p], .uploading p s, d)
  | phase => ([], phase, d)

/-- A step that does not fit the phase does nothing. An upload that is cancelled is not heard of. -/
def act (d : Desk) : Phase → Act → Program (List Deed × Phase × Desk)
  | .admitted, .enter => .done ([], takeTurn d, d)
  | .looking s, .look checked passed =>
    if d.scheduler.cancelled && !checked then .done ([], stopped s, d)
    else (d.queue.attend passed (.peek 1)).bind fun (a, q) =>
      (looked { d with queue := q } s a).bind fun (phase, d) => .done (call d phase)
  | .uploading p s, .hear o =>
    if d.scheduler.cancelled then .done ([], .uploading p s, d)
    else .done ([.answered p o], .settling p o s, d)
  | .uploading p s, .expire =>
    if d.scheduler.cancelled then .done ([], .uploading p s, d)
    else .done ([.expired p], .settling p (timedOut d.scheduler.plan) s,
      { d with scheduler := d.scheduler.mark .timeout })
  | .uploading p s, .abandon =>
    if d.scheduler.cancelled then .done ([.abandoned p], abandon s, d)
    else .done ([], .uploading p s, d)
  | .settling p o s, .settle passed =>
    (d.queue.attend passed (ack p o)).bind fun (a, q) =>
      (settled { d with queue := q } p o s a).bind fun (phase, d) =>
        .done ([.acked (ack p o) a], phase, d)
  | phase, _ => .done ([], phase, d)

/-! With nobody in between the steps are those of a run by itself. -/

theorem call_uncancelled {d : Desk} (hc : d.scheduler.cancelled = false) (phase : Phase) :
    (call d phase).2 = (phase, d) := by
  cases phase with
  | uploading p s => simp [call, hc]
  | _ => rfl

theorem looked_call {d : Desk} (hc : d.scheduler.cancelled = false) (s : Summary)
    (a : Except QueueError Queue.Reply) :
    ((looked d s a).bind fun x => .done (call x.2 x.1).2) = looked d s a := by
  unfold looked
  split
  · unfold fail
    split
    · rw [told_bind]
      rfl
    · rfl
  · rw [told_bind]
    exact congrArg (told _) (congrArg Program.done (call_uncancelled hc _))
  · rfl

theorem act_look (d : Desk) (s : Summary) :
    ((act d (.looking s) (.look false false)).bind fun x => .done x.2) = look d s := by
  cases hc : d.scheduler.cancelled with
  | true => simp [act, look, hc, Program.bind]
  | false =>
    simp only [act, look, hc, Bool.false_and, Bool.false_eq_true, if_false, Program.bind_assoc]
    refine Program.bind_congr ?_
    rintro ⟨a, q⟩
    exact looked_call (d := { d with queue := q }) hc s a

theorem act_settle (d : Desk) (p : Ping) (o : Outcome) (s : Summary) :
    ((act d (.settling p o s) (.settle false)).bind fun x => .done x.2) = settle d p o s := by
  simp only [act, settle, Program.bind_assoc]
  refine Program.bind_congr ?_
  rintro ⟨a, q⟩
  exact Program.bind_done _

end Run

structure Crew where
  desk : Desk
  runs : List Run.Phase

namespace Crew

inductive Event where
  | run (i : Nat) (d : Run.Deed)
  /-- Others have asked something of the queue. -/
  | request (r : Queue.Request) (a : Except QueueError Queue.Reply)
  | cancelled

namespace Event

def called? : Event → Option Ping
  | .run _ x => x.called?
  | .request _ _ | .cancelled => none

def lands : Event → Bool
  | .run _ x => x.lands
  | .request _ _ | .cancelled => false

/-- The store has failed under a request of others, which suspends the queue. -/
def Faults : Event → Prop
  | .request _ (.error (.storage _)) => True
  | _ => False

end Event

/-- The pings that the uploader was called with, in order. -/
def calls (es : List Event) : List Ping := es.filterMap Event.called?

/-- How many calls of the uploader are over. -/
def landings (es : List Event) : Nat := es.countP Event.lands

/-- Something of the kind has been seen since the last deed of the run. -/
def Since (es : List Event) (i : Nat) (P : Event → Prop) : Prop :=
  ∃ es₁ e es₂, es = es₁ ++ e :: es₂ ∧ P e ∧ ∀ x, .run i x ∉ es₂

/-- What a run takes for granted has held since its last deed, even if it does not hold any more. -/
def Honest (es : List Event) (i : Nat) (d : Desk) : Run.Act → Prop
  | .look checked passed =>
    (checked = true → d.scheduler.cancelled = true → Since es i (· = .cancelled)) ∧
    (passed = true → d.queue.faulted = true → Since es i Event.Faults)
  | .settle passed => passed = true → d.queue.faulted = true → Since es i Event.Faults
  | .enter | .hear _ | .expire | .abandon => True

/-- Runs are named by their places. A caller of a run comes and then asks for the turn. -/
inductive Move where
  | come
  | ask (i : Nat)
  | act (i : Nat) (a : Run.Act)
  | request (passed : Bool) (r : Queue.Request)
  | cancel

def Move.Honest (es : List Event) (d : Desk) : Move → Prop
  | .act i a => Crew.Honest es i d a
  | .come | .ask _ | .request _ _ | .cancel => True

def turn (c : Crew) : Turn := c.desk.scheduler.turn

/-- Asks for the turn, unless the scheduler is suspended. -/
def ask (c : Crew) (i : Nat) : List Event × Crew :=
  if c.desk.scheduler.suspended then
    ([.run i (.returned (.error .suspended))],
      { c with runs := c.runs.set i (.finished (.error .suspended)) })
  else
    match c.turn.ask i with
    | (true, turn) => ([.run i .took], ⟨c.desk.withTurn turn, c.runs.set i .admitted⟩)
    | (false, turn) => ([], ⟨c.desk.withTurn turn, c.runs.set i .waiting⟩)

/-- Gives the turn on. -/
def passOn (c : Crew) : List Event × Crew :=
  match c.turn.leave with
  | (none, turn) => ([], { c with desk := c.desk.withTurn turn })
  | (some j, turn) => ([.run j .took], ⟨c.desk.withTurn turn, c.runs.set j .admitted⟩)

/-- Puts back what a step of a run has left; a run that has finished gives the turn on. -/
def put (c : Crew) (i : Nat) : List Run.Deed × Run.Phase × Desk → List Event × Crew
  | (deeds, .finished r, d) =>
    let (es, c) := passOn ⟨d, c.runs.set i (.finished r)⟩
    (deeds.map (.run i) ++ .run i (.returned r) :: es, c)
  | (deeds, phase, d) => (deeds.map (.run i), ⟨d, c.runs.set i phase⟩)

def perform (c : Crew) : Move → Program (List Event × Crew)
  | .come => .done ([], { c with runs := c.runs ++ [.arriving] })
  | .ask i =>
    match c.runs[i]? with
    | some .arriving => .done (c.ask i)
    | _ => .done ([], c)
  | .act i a =>
    match c.runs[i]? with
    | some phase =>
      if phase.busy then (Run.act c.desk phase a).bind fun x => .done (c.put i x)
      else .done ([], c)
    | none => .done ([], c)
  | .request passed r => (c.desk.queue.attend passed r).bind fun (a, q) =>
    .done ([.request r a], { c with desk := { c.desk with queue := q } })
  | .cancel => .done ([.cancelled], { c with
      desk := { c.desk with scheduler := { c.desk.scheduler with cancelled := true } } })

/-- `Course c₀ m₀ es c m`: moves over a store with the content `m₀` have led to `c` and `m`, and
`es` could be seen of them, the first first. -/
inductive Course (c₀ : Crew) (m₀ : Content) : List Event → Crew → Content → Prop where
  | start : Course c₀ m₀ [] c₀ m₀
  | move {es es' : List Event} {c c' : Crew} {m m' : Content} {mv : Move} {tr : List Observed}
      (h : Course c₀ m₀ es c m) (hh : mv.Honest es c.desk)
      (hf : Follows (c.perform mv) m tr (some (es', c')) m') : Course c₀ m₀ (es ++ es') c' m'

end Crew

/-! ## Steps of a run -/

namespace Run

/-- What a step of a run can come to. -/
inductive Acted (d : Desk) (m : Content) :
    Phase → Act → List Deed → Phase → Desk → Content → Prop where
  | idle (phase : Phase) (a : Act) : Acted d m phase a [] phase d m
  | entered : Acted d m .admitted .enter [] (takeTurn d) d m
  | stopped {s : Summary} {checked passed : Bool} (h : d.scheduler.cancelled = true) :
      Acted d m (.looking s) (.look checked passed) [] (stopped s) d m
  | refused {s : Summary} {checked passed : Bool} (h : d.queue.faulted = true) :
      Acted d m (.looking s) (.look checked passed) []
        (.finished (.error (.ofQueue .suspended))) (d.failed .suspended) m
  | emptied {s : Summary} {checked passed : Bool} (h : d.queue.pings = []) :
      Acted d m (.looking s) (.look checked passed) []
        (.finished (.ok { s with stopReason := .queueEmpty })) d m
  | called {s : Summary} {checked passed : Bool} {p : Ping} {rest : List Ping}
      (h : d.queue.pings = p :: rest) (hc : d.scheduler.cancelled = false) :
      Acted d m (.looking s) (.look checked passed) [.called p] (.uploading p s) d m
  | answered {p : Ping} {s : Summary} {o : Outcome} (hc : d.scheduler.cancelled = false) :
      Acted d m (.uploading p s) (.hear o) [.answered p o] (.settling p o s) d m
  | expired {p : Ping} {s : Summary} (hc : d.scheduler.cancelled = false) :
      Acted d m (.uploading p s) .expire [.expired p]
        (.settling p (timedOut d.scheduler.plan) s)
        { d with scheduler := d.scheduler.mark .timeout } m
  | abandoned {p : Ping} {s : Summary} (hc : d.scheduler.cancelled = true) :
      Acted d m (.uploading p s) .abandon [.abandoned p] (abandon s) d m
  | failed {p : Ping} {o : Outcome} {s : Summary} {passed : Bool} {tr : List Observed}
      {e : QueueError} {q : Queue} {m' : Content}
      (h : Follows (d.queue.attend passed (ack p o)) m tr (some (.error e, q)) m') :
      Acted d m (.settling p o s) (.settle passed) [.acked (ack p o) (.error e)]
        (.finished (.error (.ofQueue e))) (Desk.failed { d with queue := q } e) m'
  | settled {p : Ping} {o : Outcome} {s : Summary} {passed : Bool} {tr : List Observed}
      {reply : Queue.Reply} {q : Queue} {m' : Content}
      (h : Follows (d.queue.attend passed (ack p o)) m tr (some (.ok reply, q)) m') :
      Acted d m (.settling p o s) (.settle passed) [.acked (ack p o) (.ok reply)]
        (account { d with queue := q } p s o reply).1
        ⟨(account { d with queue := q } p s o reply).2.1, q⟩ m'

section
variable {d d' : Desk} {m m' : Content} {phase phase' : Phase} {a : Act} {deeds : List Deed}
  {tr : List Observed}

theorem acted_of_look {s : Summary} {checked passed : Bool}
    (h : Follows (act d (.looking s) (.look checked passed)) m tr (some (deeds, phase', d')) m') :
    Acted d m (.looking s) (.look checked passed) deeds phase' d' m' := by
  simp only [act, Queue.attend_peek] at h
  split at h
  · rename_i hc
    obtain ⟨hout, rfl⟩ := h.eq_of_done
    cases hout
    exact .stopped (Bool.and_eq_true_iff.1 hc).1
  · simp only [Program.bind] at h
    split at h
    · rename_i hf
      obtain ⟨tr', h⟩ := (quiet_fail d .suspended).of_bind h
      obtain ⟨hout, rfl⟩ := h.eq_of_done
      cases hout
      exact .refused (Bool.and_eq_true_iff.1 hf).1
    · cases hp : d.queue.pings with
      | nil =>
        rw [hp] at h
        obtain ⟨hout, rfl⟩ := h.eq_of_done
        cases hout
        exact .emptied hp
      | cons p rest =>
        rw [hp] at h
        obtain ⟨tr', h⟩ := (quiet_looked_cons d s p []).of_bind h
        obtain ⟨hout, rfl⟩ := h.eq_of_done
        cases hc : d.scheduler.cancelled with
        | true =>
          simp only [call, hc] at hout
          cases hout
          exact .stopped hc
        | false =>
          simp only [call, hc] at hout
          cases hout
          exact .called hp hc

theorem acted_of_settle {p : Ping} {o : Outcome} {s : Summary} {passed : Bool}
    (h : Follows (act d (.settling p o s) (.settle passed)) m tr (some (deeds, phase', d')) m') :
    Acted d m (.settling p o s) (.settle passed) deeds phase' d' m' := by
  rcases h.of_bind with ⟨hout, -⟩ | ⟨⟨a, q⟩, tr₁, tr₂, m₁, hq, hrest, -⟩
  · cases hout
  · cases a with
    | error e =>
      obtain ⟨tr', hdone⟩ := (quiet_fail { d with queue := q } e).of_bind hrest
      obtain ⟨hout, rfl⟩ := hdone.eq_of_done
      cases hout
      exact .failed hq
    | ok reply =>
      obtain ⟨tr', hdone⟩ := (quiet_settled_ok { d with queue := q } p o s reply).of_bind hrest
      obtain ⟨hout, rfl⟩ := hdone.eq_of_done
      cases hout
      exact .settled hq

/-- A step that is done at once. -/
theorem acted_of_done {x : List Deed × Phase × Desk} (hact : act d phase a = .done x)
    (hx : Acted d m phase a x.1 x.2.1 x.2.2 m)
    (h : Follows (act d phase a) m tr (some (deeds, phase', d')) m') :
    Acted d m phase a deeds phase' d' m' := by
  rw [hact] at h
  obtain ⟨rfl, rfl⟩ := h.eq_of_done
  exact hx

theorem acted_of_upload {p : Ping} {s : Summary}
    (h : Follows (act d (.uploading p s) a) m tr (some (deeds, phase', d')) m') :
    Acted d m (.uploading p s) a deeds phase' d' m' := by
  cases hc : d.scheduler.cancelled with
  | true =>
    cases a with
    | hear o | expire => exact acted_of_done (if_pos hc) (.idle _ _) h
    | abandon => exact acted_of_done (if_pos hc) (.abandoned hc) h
    | _ => exact acted_of_done rfl (.idle _ _) h
  | false =>
    have hgo : ¬ d.scheduler.cancelled = true := ne_true_of_eq_false hc
    cases a with
    | hear o => exact acted_of_done (if_neg hgo) (.answered hc) h
    | expire => exact acted_of_done (if_neg hgo) (.expired hc) h
    | abandon => exact acted_of_done (if_neg hgo) (.idle _ _) h
    | _ => exact acted_of_done rfl (.idle _ _) h

/-- **A step of a run comes to one of these.** -/
theorem acted_of_follows (h : Follows (act d phase a) m tr (some (deeds, phase', d')) m') :
    Acted d m phase a deeds phase' d' m' := by
  cases phase with
  | looking s =>
    cases a with
    | look checked passed => exact acted_of_look h
    | _ => exact acted_of_done rfl (.idle _ _) h
  | uploading p s => exact acted_of_upload h
  | settling p o s =>
    cases a with
    | settle passed => exact acted_of_settle h
    | _ => exact acted_of_done rfl (.idle _ _) h
  | admitted =>
    cases a with
    | enter => exact acted_of_done rfl .entered h
    | _ => exact acted_of_done rfl (.idle _ _) h
  | _ => exact acted_of_done rfl (.idle _ _) h

/-- A step that does anything leads to another phase. -/
theorem Acted.idle_or_moves (h : Acted d m phase a deeds phase' d' m') :
    (deeds = [] ∧ phase' = phase ∧ d' = d ∧ m' = m) ∨ phase' ≠ phase := by
  have hne {phase phase' : Phase} (hidle : phase'.Idle) (hphase : ¬ phase.Idle) : phase' ≠ phase := by
    rintro rfl
    exact hphase hidle
  cases h with
  | idle => exact .inl ⟨rfl, rfl, rfl, rfl⟩
  | entered => exact .inr (hne (idle_takeTurn d) (by rintro (⟨_, h⟩ | ⟨_, h⟩) <;> cases h))
  | settled _ => exact .inr (hne (idle_account _ _ _ _ _).1 (by rintro (⟨_, h⟩ | ⟨_, h⟩) <;> cases h))
  | _ => exact .inr nofun

/-- No step of a run touches the turn. -/
theorem Acted.turn (h : Acted d m phase a deeds phase' d' m') :
    d'.scheduler.turn = d.scheduler.turn := by
  have hfailed (d : Desk) (e : QueueError) : (d.failed e).scheduler.turn = d.scheduler.turn := by
    unfold Desk.failed
    split <;> rfl
  have haccount (d : Desk) (p : Ping) (s : Summary) (o : Outcome) (reply : Queue.Reply) :
      (account d p s o reply).2.1.turn = d.scheduler.turn := by
    unfold account
    split <;> rfl
  cases h with
  | refused _ | failed _ => exact hfailed _ _
  | settled _ => exact haccount _ _ _ _ _
  | _ => rfl

/-- A run keeps the turn until it has finished. The scheduler is not suspended by a run that goes on,
and a run that finds it suspended goes no further. -/
theorem Acted.goes_on (h : Acted d m phase a deeds phase' d' m') (hbusy : phase.busy = true)
    (hgo : ∀ r, phase' ≠ .finished r) : phase'.busy = true ∧
      (d'.scheduler.suspended = true → d.scheduler.suspended = true ∧
        (phase = .admitted → phase' = .admitted)) := by
  have hidle {phase : Phase} (hphase : phase.Idle) (hgo : ∀ r, phase ≠ .finished r) :
      phase.busy = true := by
    rcases hphase with ⟨s, rfl⟩ | ⟨r, rfl⟩
    · rfl
    · exact absurd rfl (hgo r)
  have haccount (d : Desk) (p : Ping) (s : Summary) (o : Outcome) (reply : Queue.Reply) :
      (account d p s o reply).2.1.suspended = d.scheduler.suspended := by
    unfold account
    split <;> rfl
  cases h with
  | idle => exact ⟨hbusy, fun h => ⟨h, id⟩⟩
  | entered =>
    refine ⟨hidle (idle_takeTurn d) hgo, fun h => ⟨h, fun _ => ?_⟩⟩
    rw [takeTurn, if_pos h] at hgo
    exact absurd rfl (hgo _)
  | stopped | refused | emptied | abandoned | failed => exact absurd rfl (hgo _)
  | called _ _ | answered _ | expired _ => exact ⟨rfl, fun h => ⟨h, nofun⟩⟩
  | settled _ =>
    refine ⟨hidle (idle_account _ _ _ _ _).1 hgo, fun h => ⟨?_, nofun⟩⟩
    rw [haccount] at h
    exact h

end
end Run
end PingDelivery.Upload
