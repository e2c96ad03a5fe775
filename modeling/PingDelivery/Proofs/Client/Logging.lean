import PingDelivery.Proofs.Client.Order

/-! # Which payloads are logged

Only a run that takes a ping up traces its payload, once, and only where the configuration asks for it.
Nothing else that is done ever does: `Moment.Happens.payloads`.
-/

namespace PingDelivery
open Store Upload

/-! ## Payload traces -/

def Notice.isPayload : Notice → Bool
  | payload _ => true
  | _ => false

def Store.Observed.isPayload : Observed → Bool
  | .told n => n.isPayload
  | .called _ _ => false

/-- A trace without its payload traces. -/
def unlogged (tr : List Observed) : List Observed := tr.filter (!·.isPayload)

def Store.Observed.payload? : Observed → Option Ping
  | .told (.payload p) => some p
  | _ => none

def payloads (tr : List Observed) : List Ping := tr.filterMap Observed.payload?

/-- Whatever happens, the program traces these payloads on its way to its end. -/
inductive Traces {α : Type} : List Ping → Program α → Prop where
  | done (a : α) : Traces [] (.done a)
  | payload {x : Ping} {l : List Ping} {p : Program α} (h : Traces l p) :
      Traces (x :: l) (.tell (.payload x) p)
  | tell {n : Notice} {l : List Ping} {p : Program α} (hn : n.isPayload = false) (h : Traces l p) :
      Traces l (.tell n p)
  | call {c : Call} {next : Result c → Program α} {l : List Ping} (h : ∀ r, Traces l (next r)) :
      Traces l (.call c next)

namespace Traces
variable {α β : Type} {l l' : List Ping} {p : Program α}

theorem bind {f : α → Program β} (h : Traces l p) (hf : ∀ a, Traces l' (f a)) :
    Traces (l ++ l') (p.bind f) := by
  induction h with
  | done a => exact hf a
  | payload _ ih => exact .payload ih
  | tell hn _ ih => exact .tell hn ih
  | call _ ih => exact .call ih

theorem then_done (h : Traces l p) (f : α → β) : Traces l (p.bind fun a => .done (f a)) := by
  have hbind : Traces (l ++ []) (p.bind fun a => .done (f a)) := h.bind fun a => .done _
  rwa [List.append_nil] at hbind

theorem payloads_cons_told {n : Notice} (hn : n.isPayload = false) (tr : List Observed) :
    payloads (.told n :: tr) = payloads tr := by
  cases n <;> first | rfl | cases hn

theorem follows (h : Traces l p) {m m' : Content} {tr : List Observed} {out : Option α}
    (hf : Follows p m tr out m') : payloads tr <+: l ∧ (out.isSome → payloads tr = l) := by
  have hcut {l : List Ping} {out : Option α} (hout : out = none) :
      payloads [] <+: l ∧ (out.isSome → payloads [] = l) :=
    ⟨List.nil_prefix, fun h => by rw [hout] at h; cases h⟩
  induction h generalizing m tr with
  | done a =>
    obtain ⟨rfl, -, -⟩ := hf.of_done
    exact ⟨List.nil_prefix, fun _ => rfl⟩
  | payload _ ih =>
    rcases hf.of_tell with ⟨rfl, rfl, rfl⟩ | ⟨tr, rfl, hrest⟩
    · exact hcut rfl
    · obtain ⟨hinitial, heq⟩ := ih hrest
      exact ⟨List.cons_prefix_cons.2 ⟨rfl, hinitial⟩, fun h => congrArg (_ :: ·) (heq h)⟩
  | tell hn _ ih =>
    rcases hf.of_tell with ⟨rfl, rfl, rfl⟩ | ⟨tr, rfl, hrest⟩
    · exact hcut rfl
    · rw [payloads_cons_told hn]
      exact ih hrest
  | call _ ih =>
    rcases hf.of_call with ⟨rfl, rfl, rfl⟩ | ⟨e, tr, rfl, hrest⟩ | ⟨a, tr, rfl, -, hrest⟩
    · exact hcut rfl
    · have hnext := ih _ hrest
      exact hnext
    · have hnext := ih _ hrest
      exact hnext

theorem told {n : Option Notice} (hn : ∀ x ∈ n, x.isPayload = false) (h : Traces l p) :
    Traces l (Queue.told n p) := by
  cases n with
  | none => exact h
  | some n => exact .tell (hn n rfl) h

end Traces

/-! ## Who traces payloads -/

theorem traces_settle (q : Queue) (r : Queue.Request) : Traces [] (q.settle (q.decide r)) := by
  have hwrite (c : Call) (q' : Queue) (reply : Queue.Reply) {n : Option Notice}
      (hn : ∀ x ∈ n, x.isPayload = false) : Traces [] (q.settle (.write c q' reply n)) := by
    refine .call fun r => ?_
    cases r with
    | ok _ => exact .told hn (.done _)
    | error e =>
      refine .told (fun x hx => ?_) (.done _)
      unfold Queue.fault at hx
      split at hx
      · cases hx
      · cases hx
        rfl
  cases r with
  | enqueue p =>
    simp only [Queue.decide]
    split
    · exact .done _
    · exact hwrite _ _ _ fun x hx => by cases hx; rfl
  | peek n => exact .done _
  | ackSuccess id | ackUnrecoverable id =>
    simp only [Queue.decide, Queue.decideRemoval]
    split
    · exact hwrite _ _ _ fun x hx => by cases hx; rfl
    · exact .done _
  | ackRecoverable id =>
    simp only [Queue.decide]
    split
    · exact .done _
    · split
      · exact hwrite _ _ _ fun x hx => by cases hx; rfl
      · exact hwrite _ _ _ fun x hx => by cases hx

theorem traces_attend (q : Queue) (passed : Bool) (r : Queue.Request) :
    Traces [] (q.attend passed r) := by
  unfold Queue.attend Queue.perform
  split
  · exact traces_settle q r
  · split
    · exact .done _
    · exact traces_settle q r

theorem traces_fail (d : Desk) (e : QueueError) : Traces [] (Run.fail d e) := by
  unfold Run.fail
  split
  · split
    · exact .done _
    · exact .tell rfl (.done _)
  · exact .done _

theorem traces_settled (d : Desk) (p : Ping) (o : Outcome) (s : Summary)
    (a : Except QueueError Queue.Reply) : Traces [] (Run.settled d p o s a) := by
  cases a with
  | error e => exact traces_fail d e
  | ok reply =>
    have hnotice : (Run.account d p s o reply).2.2.isPayload = false := by
      unfold Run.account
      split <;> rfl
    exact .tell hnotice (.done _)

theorem traces_assemble (l : Lifecycle) (now : Time.Instant) (fresh : Uuid)
    (s : Lifecycle.Submission) : Traces [] (l.assemble now fresh s).1 := by
  have h := l.assembled now fresh s
  generalize (Assembly.assemble (l.request s) l.config s.snapshot l.maxPingSize fresh now).1 = r at h
  generalize (l.assemble now fresh s).1 = program at h ⊢
  cases h with
  | made _ => exact .tell rfl (.done _)
  | oversized _ _ _ => exact .tell rfl (.done _)
  | invalid _ _ => exact .done _
  | empty _ _ => exact .done _

theorem traces_load (keys : List String) (found : List Ping) (corrupt : Nat) :
    Traces [] (Queue.load keys found corrupt) := by
  induction keys generalizing found corrupt with
  | nil => exact .done _
  | cons k keys ih =>
    rw [Queue.load]
    split
    · refine .call fun r => ?_
      obtain e | b := r
      · exact .done _
      · cases b with
        | none => exact ih _ _
        | some b =>
          simp only
          split
          · exact ih _ _
          · exact .done _
          · refine .tell rfl (.call fun r => ?_)
            cases r with
            | error e => exact .done _
            | ok _ => exact ih _ _
    · exact ih _ _

theorem traces_trim (c : Queue.Config) (l : List Ping) (dropped : Nat) :
    Traces [] (Queue.trim c l dropped) := by
  induction l generalizing dropped with
  | nil => exact .done _
  | cons p l ih =>
    rw [Queue.trim]
    split
    · exact .done _
    · refine .call fun r => ?_
      cases r with
      | error e => exact .done _
      | ok _ => exact ih _

theorem traces_rehydrate (c : Queue.Config) : Traces [] (Queue.rehydrate c) := by
  refine .call fun r => ?_
  cases r with
  | error e => exact .done _
  | ok keys =>
    refine (traces_load keys [] 0).bind fun x => ?_
    cases x with
    | error _ | panic => exact .done _
    | ok x =>
      refine (traces_trim c (Queue.ordered x.1) 0).bind fun y => ?_
      cases y with
      | error e => exact .done _
      | ok y =>
        refine .told (fun n hn => ?_) (.tell rfl (.done _))
        split at hn
        · cases hn
          rfl
        · cases hn

theorem traces_write (id : Uuid) : Traces [] (ClientId.write id) := by
  refine .call fun r => ?_
  cases r with
  | error e => exact .done _
  | ok _ => exact .tell rfl (.done _)

theorem traces_loadOrCreate (fresh : Uuid) : Traces [] (ClientId.loadOrCreate fresh) := by
  have hwrite : Traces [] ((ClientId.write fresh).bind fun r => .done (r, true)) :=
    (traces_write fresh).bind fun r => .done _
  refine .call fun r => ?_
  match r with
  | .error e => exact .done _
  | .ok none => exact hwrite
  | .ok (some b) =>
    simp only
    split
    · exact .done _
    · exact .tell rfl hwrite

theorem traces_opening (o : Opening) : Traces [] o.program := by
  unfold Opening.program
  split
  · have hopen : Traces [] (Lifecycle.openOver o.config o.settings o.fresh) := by
      refine (traces_loadOrCreate o.fresh).bind fun x => ?_
      match x with
      | (.error e, drew) => exact .done _
      | (.ok id, drew) =>
        refine (traces_rehydrate _).bind fun y => ?_
        cases y with
        | error _ | panic => exact .done _
        | ok q => exact .tell rfl (.done _)
    refine hopen.bind fun x => ?_
    match x with
    | (.error e, drew) => exact .done _
    | (.panic, drew) => exact .done _
    | (.ok _, drew) => exact .done _
  · refine (traces_rehydrate _).bind fun y => ?_
    cases y with
    | error _ | panic => exact .done _
    | ok q => exact .done _

namespace Client
variable {c : Client}

/-- The ping that a run finds when the step takes it up. -/
def peeked? (c : Client) : Action → Option Ping
  | .look i passed =>
    match c.runs[i]? with
    | some (.looking _) =>
      if c.desk.scheduler.cancelled || (c.queue.faulted && !passed) then none
      else c.queue.pings.head?
    | _ => none
  | _ => none

/-- The payloads that the step traces. -/
def logged (c : Client) (a : Action) : List Ping :=
  if c.desk.scheduler.config.logPings then (c.peeked? a).toList else []

theorem logged_of_peeked {a : Action} (h : c.peeked? a = none) : c.logged a = [] := by
  rw [logged, h]
  split <;> rfl

theorem traces_act (c : Client) (a : Action) : Traces [] (c.act a) := by
  cases a with
  | assemble i now fresh =>
    simp only [act]
    split
    · refine (traces_assemble _ _ _ _).bind fun x => ?_
      split <;> exact .done _
    · exact .done _
  | takeBack i now | answer i o | abandon i =>
    simp only [act]
    split <;> exact .done _
  | look i passed =>
    simp only [act]
    split
    · split <;> exact .done _
    · exact .done _
  | _ => exact .done _

theorem traces_follow {l : List Ping} {s : Run.Step} (h : Traces l s) (i : Nat) :
    Traces l (c.follow i s) := by
  have hthen := h.then_done fun x => { c with desk := x.2, runs := c.runs.set i x.1 }
  exact hthen

/-- What a run says of the queue's answer to its look. -/
theorem traces_looked (d : Desk) (s : Summary) (a : Except QueueError Queue.Reply) :
    Traces (if d.scheduler.config.logPings then
      (match a with | .ok (.pings l) => l.head?.toList | _ => []) else []) (Run.looked d s a) := by
  have hnone : (if d.scheduler.config.logPings then ([] : List Ping) else []) = [] := ite_self _
  match a with
  | .error e =>
    simp only [hnone]
    exact traces_fail d e
  | .ok .accepted | .ok (.retry _) | .ok (.pings []) =>
    simp only [List.head?_nil, Option.toList_none, hnone]
    exact .done _
  | .ok (.pings (p :: l)) =>
    have huploading : Traces [] (Run.told [Notice.uploading p] (.done (Run.Phase.uploading p s, d))) :=
      .tell rfl (.done _)
    simp only [Run.looked, Request.trace, List.head?_cons]
    split
    · exact .payload huploading
    · exact huploading

theorem traces_resume (reply : Except QueueError Queue.Reply) {a : Action}
    (ha : ∀ i passed, a ≠ .look i passed) : Traces [] (c.resume reply a) := by
  cases a with
  | look i passed => exact absurd rfl (ha i passed)
  | enqueue i passed =>
    simp only [resume]
    split
    · exact .done _
    · exact .tell rfl (.done _)
    · exact .done _
  | settle i passed =>
    simp only [resume]
    split
    · exact traces_follow (traces_settled _ _ _ _ _) i
    · exact .done _
  | _ => exact .done _

theorem perform_of_asks_none {a : Action} (h : c.asks a = none) :
    c.perform a = (c.act a).bind fun c => .done (none, c) := by
  rw [perform, h]

/-- A run that looks asks the queue for its first ping. -/
theorem perform_look {i : Nat} {s : Summary} (passed : Bool) (hrun : c.runs[i]? = some (.looking s))
    (hcancelled : c.desk.scheduler.cancelled = false) : ∃ reply,
      reply = (if c.queue.faulted && !passed then .error .suspended
        else .ok (.pings (c.queue.pings.take 1))) ∧
      c.perform (.look i passed) =
        (c.follow i (Run.looked c.desk s reply)).bind fun c => .done (some reply, c) := by
  refine ⟨_, rfl, ?_⟩
  have hasks : c.asks (.look i passed) = some (passed, .peek 1) := by
    simp only [asks, hrun, hcancelled, Bool.false_eq_true, if_false]
  have hresume (reply : Except QueueError Queue.Reply) :
      (c.setQueue c.queue).resume reply (.look i passed) = c.follow i (Run.looked c.desk s reply) := by
    change (match c.runs[i]? with
      | some (.looking s) => c.follow i (Run.looked c.desk s reply)
      | _ => .done c) = _
    rw [hrun]
  rw [perform, hasks]
  simp only
  rw [Queue.attend_peek]
  simp only [Program.bind]
  rw [hresume]

/-- **A step traces the payload of the ping that a run takes up with it**, if it is to be logged. -/
theorem traces_perform (c : Client) (a : Action) : Traces (c.logged a) (c.perform a) := by
  have hact {a : Action} (hasks : c.asks a = none) (hpeeked : c.peeked? a = none) :
      Traces (c.logged a) (c.perform a) := by
    rw [logged_of_peeked hpeeked, perform_of_asks_none hasks]
    exact (traces_act c a).then_done _
  have hask {a : Action} (ha : ∀ i passed, a ≠ .look i passed) :
      Traces (c.logged a) (c.perform a) := by
    have hpeeked : c.peeked? a = none := by
      cases a with
      | look i passed => exact absurd rfl (ha i passed)
      | _ => rfl
    rw [logged_of_peeked hpeeked, perform]
    split
    · exact (traces_attend _ _ _).bind fun x => (traces_resume x.1 ha).then_done _
    · exact (traces_act c a).then_done _
  cases a with
  | look i passed =>
    cases hrun : c.runs[i]? with
    | none => exact hact (by simp only [asks, hrun]) (by simp only [peeked?, hrun])
    | some phase =>
      cases phase with
      | looking s =>
        cases hcancelled : c.desk.scheduler.cancelled with
        | true =>
          exact hact (by simp only [asks, hrun, hcancelled, if_true])
            (by simp only [peeked?, hrun, hcancelled, Bool.true_or, if_true])
        | false =>
          obtain ⟨reply, hreply, hperform⟩ := perform_look passed hrun hcancelled
          rw [hperform]
          have hlooked := traces_looked c.desk s reply
          have hlogged : c.logged (.look i passed) = if c.desk.scheduler.config.logPings then
              (match reply with | .ok (.pings l) => l.head?.toList | _ => []) else [] := by
            rw [logged, peeked?, hrun, hcancelled, Bool.false_or, hreply]
            cases c.queue.faulted && !passed with
            | true => rfl
            | false => simp only [Bool.false_eq_true, if_false, List.head?_take, Nat.one_ne_zero]
          rw [hlogged]
          exact (traces_follow hlooked i).then_done _
      | _ => exact hact (by simp only [asks, hrun]) (by simp only [peeked?, hrun])
  | _ => exact hask fun _ _ h => by cases h

end Client

namespace Moment

/-- The ping that a run takes up at the moment. -/
def peeked? (t : Moment) : Option Ping :=
  match t.before.client, t.deed with
  | some c, .act a => c.peeked? a
  | _, _ => none

/-- The payloads that are traced at the moment. -/
def logged (t : Moment) : List Ping :=
  match t.before.client, t.deed with
  | some c, .act a => c.logged a
  | _, _ => []

/-- **Payloads are traced of the pings that runs take up**, once each, and of no others. -/
theorem Happens.payloads {t : Moment} (ht : t.Happens) : payloads t.trace <+: t.logged ∧
    (t.result.isSome → PingDelivery.payloads t.trace = t.logged) := by
  refine Traces.follows ?_ ht.follows
  unfold logged World.program
  cases t.deed with
  | act a =>
    cases t.before.client with
    | none => exact .done _
    | some c => exact (c.traces_perform a).then_done _
  | opening o =>
    cases t.before.client with
    | none => exact (traces_opening o).then_done _
    | some c => exact .done _
  | ending => cases t.before.client <;> exact .done _

end Moment
end PingDelivery
