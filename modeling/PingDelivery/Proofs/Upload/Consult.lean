import PingDelivery.Proofs.Queue.Answers
import PingDelivery.Proofs.Upload.Crew

/-! # What a run asks of the queue

A step of a run asks the queue one thing at most. `consult` is the step with the question and the
answer to be seen. `Consulted` lists what it can come to; all that follows an answer is in `heeded`.
-/

namespace PingDelivery.Upload
open Store

namespace Run

/-! ## Questions to the queue -/

/-- What a step asks of the queue, if anything, and whether the queue was found well before. -/
def asks (d : Desk) : Phase → Act → Option (Bool × Queue.Request)
  | .looking _, .look checked passed =>
    if d.scheduler.cancelled && !checked then none else some (passed, .peek 1)
  | .settling p o _, .settle passed => some (passed, ack p o)
  | _, _ => none

/-- What a run does with the answer. -/
def heed (d : Desk) (phase : Phase) (b : Queue.Response) : Program (List Deed × Phase × Desk) :=
  match phase with
  | .looking s => (looked d s b).bind fun (phase, d) => .done (call d phase)
  | .settling p o s =>
    (settled d p o s b).bind fun (phase, d) => .done ([.acked (ack p o) b], phase, d)
  | phase => .done ([], phase, d)

/-- A step, with what it asks and the answer. -/
def consult (d : Desk) (phase : Phase) (a : Act) :
    Program (Option (Queue.Request × Queue.Response) × List Deed × Phase × Desk) :=
  match asks d phase a with
  | none => (act d phase a).bind fun x => .done (none, x)
  | some (passed, r) => (d.queue.attend passed r).bind fun (b, q) =>
    (heed { d with queue := q } phase b).bind fun x => .done (some (r, b), x)

theorem act_of_asks {d : Desk} {phase : Phase} {a : Act} {passed : Bool} {r : Queue.Request}
    (h : asks d phase a = some (passed, r)) : act d phase a =
      (d.queue.attend passed r).bind fun (b, q) => heed { d with queue := q } phase b := by
  unfold asks at h
  split at h
  · split at h
    · cases h
    · rename_i hc
      cases h
      exact if_neg hc
  · cases h
    rfl
  · cases h

/-- But for what is to be seen of it, it is the step. -/
theorem consult_act (d : Desk) (phase : Phase) (a : Act) :
    ((consult d phase a).bind fun x => .done x.2) = act d phase a := by
  unfold consult
  split
  · rw [Program.bind_assoc]
    exact Program.bind_done _
  · rename_i passed r h
    rw [act_of_asks h, Program.bind_assoc]
    refine Program.bind_congr ?_
    rintro ⟨b, q⟩
    rw [Program.bind_assoc]
    exact Program.bind_done _

/-- What the answer leads to. -/
def heeded (d : Desk) (phase : Phase) (b : Queue.Response) : List Deed × Phase × Desk :=
  match phase, b with
  | .looking _, .error e => ([], .finished (.error (.ofQueue e)), d.failed e)
  | .looking s, .ok (.pings (p :: _)) => call d (.uploading p s)
  | .looking s, .ok _ => ([], .finished (.ok { s with stopReason := .queueEmpty }), d)
  | .settling p o _, .error e =>
    ([.acked (ack p o) (.error e)], .finished (.error (.ofQueue e)), d.failed e)
  | .settling p o s, .ok reply =>
    ([.acked (ack p o) (.ok reply)], (account d p s o reply).1,
      { d with scheduler := (account d p s o reply).2.1 })
  | phase, _ => ([], phase, d)

theorem quiet_heed (d : Desk) (phase : Phase) (b : Queue.Response) :
    Quiet (· = heeded d phase b) (heed d phase b) := by
  have after {p : Program (Phase × Desk)} {x : Phase × Desk}
      {f : Phase × Desk → List Deed × Phase × Desk} (hp : Quiet (· = x) p) :
      Quiet (· = f x) (p.bind fun y => .done (f y)) := by
    refine hp.bind ?_
    rintro _ rfl
    exact .done rfl
  cases phase with
  | looking s =>
    cases b with
    | error e => exact after (f := fun y => call y.2 y.1) (quiet_fail d e)
    | ok reply =>
      cases reply with
      | pings l =>
        cases l with
        | nil => exact .done rfl
        | cons p rest => exact after (f := fun y => call y.2 y.1) (quiet_looked_cons d s p rest)
      | _ => exact .done rfl
  | settling p o s =>
    cases b with
    | error e => exact after (quiet_fail d e)
    | ok reply => exact after (quiet_settled_ok d p o s reply)
  | _ => exact .done rfl

theorem failed_eq (d : Desk) (e : QueueError) : d.failed e = { d with scheduler :=
    { d.scheduler with suspended := d.scheduler.suspended || e.isFatal } } := by
  unfold Desk.failed
  split
  · rename_i h
    rw [h, Bool.or_true]
  · rename_i h
    rw [Bool.eq_false_iff.2 h, Bool.or_false]

/-- To account for an outcome changes no more of the scheduler than its statistics. -/
theorem account_stats (d : Desk) (p : Ping) (s : Summary) (o : Outcome) (reply : Queue.Reply) :
    ∃ stats, (account d p s o reply).2.1 = { d.scheduler with stats } := by
  unfold account
  split <;> exact ⟨_, rfl⟩

/-- What the answer to a look leads to. -/
inductive Looked (d : Desk) (s : Summary) : Queue.Response → List Deed × Phase × Desk → Prop where
  | refused (e : QueueError) :
      Looked d s (.error e) ([], .finished (.error (.ofQueue e)), d.failed e)
  | called {p : Ping} {rest : List Ping} (hc : d.scheduler.cancelled = false) :
      Looked d s (.ok (.pings (p :: rest))) ([.called p], .uploading p s, d)
  | stopped {reply : Queue.Reply} (hc : d.scheduler.cancelled = true) :
      Looked d s (.ok reply) ([], Run.stopped s, d)
  | emptied (reply : Queue.Reply) :
      Looked d s (.ok reply) ([], .finished (.ok { s with stopReason := .queueEmpty }), d)

theorem looked_heeded (d : Desk) (s : Summary) (b : Queue.Response) :
    Looked d s b (heeded d (.looking s) b) := by
  cases b with
  | error e => exact .refused e
  | ok reply =>
    cases reply with
    | pings l =>
      cases l with
      | nil => exact .emptied _
      | cons p rest =>
        change Looked d s _ (call d (.uploading p s))
        unfold call
        cases hc : d.scheduler.cancelled with
        | true => exact .stopped hc
        | false => exact .called hc
    | _ => exact .emptied _

/-- What a look is answered. -/
def sight (d : Desk) (passed : Bool) : Queue.Response :=
  if d.queue.faulted && !passed then .error .suspended else .ok (.pings (d.queue.pings.take 1))

/-- The run can take the step. -/
def fits (d : Desk) : Phase → Act → Bool
  | .admitted, .enter | .looking _, .look _ _ | .settling _ _ _, .settle _ => true
  | .uploading _ _, .hear _ | .uploading _ _, .expire => !d.scheduler.cancelled
  | .uploading _ _, .abandon => d.scheduler.cancelled
  | _, _ => false

/-- What a step can come to, with what it asks and the answer. -/
inductive Consulted (d : Desk) (m : Content) : Phase → Act → Option (Queue.Request × Queue.Response) →
    List Deed × Phase × Desk → Content → Prop where
  | idle {phase : Phase} {a : Act} (h : fits d phase a = false) :
      Consulted d m phase a none ([], phase, d) m
  | entered : Consulted d m .admitted .enter none ([], takeTurn d, d) m
  | stopped {s : Summary} {passed : Bool} (hc : d.scheduler.cancelled = true) :
      Consulted d m (.looking s) (.look false passed) none ([], stopped s, d) m
  | answered {p : Ping} {s : Summary} {o : Outcome} (hc : d.scheduler.cancelled = false) :
      Consulted d m (.uploading p s) (.hear o) none ([.answered p o], .settling p o s, d) m
  | expired {p : Ping} {s : Summary} (hc : d.scheduler.cancelled = false) :
      Consulted d m (.uploading p s) .expire none ([.expired p],
        .settling p (timedOut d.scheduler.plan) s,
        { d with scheduler := d.scheduler.mark .timeout }) m
  | abandoned {p : Ping} {s : Summary} (hc : d.scheduler.cancelled = true) :
      Consulted d m (.uploading p s) .abandon none ([.abandoned p], abandon s, d) m
  | looked {s : Summary} {checked passed : Bool}
      (hc : d.scheduler.cancelled = true → checked = true) :
      Consulted d m (.looking s) (.look checked passed) (some (.peek 1, sight d passed))
        (heeded d (.looking s) (sight d passed)) m
  | settled {p : Ping} {o : Outcome} {s : Summary} {passed : Bool} {b : Queue.Response} {q : Queue}
      {tr : List Observed} {m' : Content}
      (hq : Follows (d.queue.attend passed (ack p o)) m tr (some (b, q)) m') :
      Consulted d m (.settling p o s) (.settle passed) (some (ack p o, b))
        (heeded { d with queue := q } (.settling p o s) b) m'

section
variable {d : Desk} {m m' : Content} {phase : Phase} {a : Act}
  {log : Option (Queue.Request × Queue.Response)} {x : List Deed × Phase × Desk} {tr : List Observed}

theorem consulted_of_asks {passed : Bool} {r : Queue.Request}
    (ha : asks d phase a = some (passed, r))
    (h : Follows (consult d phase a) m tr (some (log, x)) m') : Consulted d m phase a log x m' := by
  unfold consult at h
  rw [ha] at h
  rcases h.of_bind with ⟨hout, -⟩ | ⟨⟨b, q⟩, tr₁, tr₂, m₁, hq, hrest, -⟩
  · cases hout
  · obtain ⟨tr', hdone⟩ := (quiet_heed { d with queue := q } phase b).of_bind hrest
    obtain ⟨hout, rfl⟩ := hdone.eq_of_done
    cases hout
    unfold asks at ha
    split at ha
    · rename_i s checked passed'
      split at ha
      · cases ha
      · rename_i hc
        cases ha
        rw [Queue.attend_peek] at hq
        obtain ⟨hout, rfl⟩ := hq.eq_of_done
        cases hout
        refine .looked fun hcancelled => ?_
        simpa [hcancelled] using hc
    · cases ha
      exact .settled hq
    · cases ha

theorem consulted_of_silent (ha : asks d phase a = none)
    (h : Follows (consult d phase a) m tr (some (log, x)) m') : Consulted d m phase a log x m' := by
  unfold consult at h
  rw [ha] at h
  obtain ⟨out, hact, hout⟩ := h.of_bind_done
  obtain ⟨y, rfl, hy⟩ := Option.map_eq_some_iff.1 hout.symm
  cases hy
  have of_done {x' : List Deed × Phase × Desk} (hdone : act d phase a = .done x')
      (hx' : Consulted d m phase a none x' m) : Consulted d m phase a none x m' := by
    rw [hdone] at hact
    obtain ⟨rfl, rfl⟩ := hact.eq_of_done
    exact hx'
  cases phase with
  | admitted =>
    cases a with
    | enter => exact of_done rfl .entered
    | _ => exact of_done rfl (.idle rfl)
  | looking s =>
    cases a with
    | look checked passed =>
      simp only [asks] at ha
      split at ha
      · rename_i hc
        obtain ⟨hcancelled, hchecked⟩ := Bool.and_eq_true_iff.1 hc
        obtain rfl : checked = false := by simpa using hchecked
        exact of_done (if_pos hc) (.stopped hcancelled)
      · cases ha
    | _ => exact of_done rfl (.idle rfl)
  | uploading p s =>
    cases hc : d.scheduler.cancelled with
    | true =>
      cases a with
      | hear o | expire => exact of_done (if_pos hc) (.idle (by simp [fits, hc]))
      | abandon => exact of_done (if_pos hc) (.abandoned hc)
      | _ => exact of_done rfl (.idle rfl)
    | false =>
      have hgo : ¬ d.scheduler.cancelled = true := ne_true_of_eq_false hc
      cases a with
      | hear o => exact of_done (if_neg hgo) (.answered hc)
      | expire => exact of_done (if_neg hgo) (.expired hc)
      | abandon => exact of_done (if_neg hgo) (.idle hc)
      | _ => exact of_done rfl (.idle rfl)
  | settling p o s =>
    cases a with
    | settle passed => cases ha
    | _ => exact of_done rfl (.idle rfl)
  | _ => exact of_done rfl (.idle rfl)

/-- **A step comes to one of these.** -/
theorem consulted_of_follows (h : Follows (consult d phase a) m tr (some (log, x)) m') :
    Consulted d m phase a log x m' := by
  cases ha : asks d phase a with
  | none => exact consulted_of_silent ha h
  | some u => exact consulted_of_asks ha h

/-- A step of a run counts and may suspend. It touches nothing else of the scheduler. -/
theorem Consulted.scheduler (h : Consulted d m phase a log x m') : ∃ stats suspended,
    x.2.2.scheduler = { d.scheduler with stats, suspended } := by
  have hlooked {s : Summary} {b : Queue.Response} (h : Looked d s b x) : ∃ stats suspended,
      x.2.2.scheduler = { d.scheduler with stats, suspended } := by
    cases h with
    | refused e =>
      rw [failed_eq]
      exact ⟨_, _, rfl⟩
    | called _ | stopped _ | emptied _ => exact ⟨_, _, rfl⟩
  cases h with
  | idle _ | entered | stopped _ | answered _ | expired _ | abandoned _ => exact ⟨_, _, rfl⟩
  | looked _ => exact hlooked (looked_heeded d _ _)
  | @settled p o s passed b q tr m' _ =>
    cases b with
    | error e =>
      exact ⟨d.scheduler.stats, d.scheduler.suspended || e.isFatal,
        (congrArg Desk.scheduler (failed_eq { d with queue := q } e) :)⟩
    | ok reply =>
      obtain ⟨stats, hstats⟩ := account_stats { d with queue := q } p s o reply
      exact ⟨stats, d.scheduler.suspended, hstats⟩

theorem Consulted.eq_of_unfit (h : Consulted d m phase a log x m') (hfits : fits d phase a = false) :
    log = none ∧ x = ([], phase, d) ∧ m' = m := by
  cases h with
  | idle _ => exact ⟨rfl, rfl, rfl⟩
  | answered hc | expired hc | abandoned hc =>
    simp [fits, hc] at hfits
  | _ => cases hfits

theorem follows_of_consult (h : Follows (consult d phase a) m tr (some (log, x)) m') :
    ∃ tr', Follows (act d phase a) m tr' (some x) m' := by
  rw [← consult_act]
  exact ⟨_, h.bind (.done _ _)⟩

end
end Run

end PingDelivery.Upload
