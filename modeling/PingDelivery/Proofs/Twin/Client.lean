import PingDelivery.Proofs.Client.World
import PingDelivery.Proofs.Twin.Queue

/-! # Processes side by side

Clients that are bonded stay so in everything they do: `programs_perform`. The one step that takes more
than that is the assembling of a ping, where configuration and client id go into what is sent; that the
pings it makes are bonded is asked for (`Makes`).
-/

namespace PingDelivery
open Store Upload

/-! ## Lists side by side -/

section
variable {α β : Type} {R : α → β → Prop} {l : List α} {l' : List β}

theorem rel_getElem? (h : List.Forall₂ R l l') (i : Nat) : Option.Rel R l[i]? l'[i]? := by
  induction h generalizing i with
  | nil => exact .none
  | cons ha _ ih =>
    cases i with
    | zero => exact .some ha
    | succ i => exact ih i

theorem forall₂_set (h : List.Forall₂ R l l') (i : Nat) {a : α} {b : β} (hab : R a b) :
    List.Forall₂ R (l.set i a) (l'.set i b) := by
  induction h generalizing i with
  | nil => exact .nil
  | cons ha h ih =>
    cases i with
    | zero => exact .cons hab h
    | succ i => exact .cons ha (ih i)

theorem forall₂_eraseIdx (h : List.Forall₂ R l l') (i : Nat) :
    List.Forall₂ R (l.eraseIdx i) (l'.eraseIdx i) := by
  induction h generalizing i with
  | nil => exact .nil
  | cons ha h ih =>
    cases i with
    | zero => exact h
    | succ i => exact .cons ha (ih i)

end

namespace Bond
variable {B : Bond}

/-! ## What a process holds -/

inductive Stages (B : Bond) : Stage → Stage → Prop where
  | drained : B.Stages .drained .drained
  | assembled {p p' : Ping} (h : B.pings p p') : B.Stages (.assembled p) (.assembled p')
  | refused (e : QueueError) : B.Stages (.refused e) (.refused e)

structure Helds (B : Bond) (x x' : Held) : Prop where
  submission : x'.submission = x.submission
  stage : B.Stages x.stage x'.stage

structure Lifecycles (B : Bond) (l l' : Lifecycle) : Prop where
  config : B.configs l.config l'.config
  buffer : l'.buffer = l.buffer
  maxPingSize : l'.maxPingSize = l.maxPingSize
  types : l'.types = l.types
  clientId : B.ids l.clientId l'.clientId
  droppedOversized : l'.droppedOversized = l.droppedOversized

theorem Lifecycles.withBuffer {l l' : Lifecycle} (h : B.Lifecycles l l') (buffer : Buffer) :
    B.Lifecycles { l with buffer } { l' with buffer } :=
  { h with buffer := rfl }

theorem Lifecycles.typeOf_eq {l l' : Lifecycle} (h : B.Lifecycles l l') (name : String) :
    l'.typeOf name = l.typeOf name := by
  rw [Lifecycle.typeOf, Lifecycle.typeOf, h.types]

theorem Lifecycles.request_eq {l l' : Lifecycle} (h : B.Lifecycles l l')
    (hid : l'.clientId = l.clientId) (s : Lifecycle.Submission) : l'.request s = l.request s := by
  rw [Lifecycle.request, Lifecycle.request, h.typeOf_eq, hid]

structure Schedulers (B : Bond) (s s' : Scheduler) : Prop where
  config : B.configs s.config s'.config
  plan : s'.plan = s.plan
  turn : s'.turn = s.turn
  bell : s'.bell = s.bell
  watchers : s'.watchers = s.watchers
  suspended : s'.suspended = s.suspended
  cancelled : s'.cancelled = s.cancelled
  stats : s'.stats = s.stats

structure Desks (B : Bond) (d d' : Desk) : Prop where
  scheduler : B.Schedulers d.scheduler d'.scheduler
  queue : B.Queues d.queue d'.queue

inductive Phases (B : Bond) : Run.Phase → Run.Phase → Prop where
  | arriving : B.Phases .arriving .arriving
  | waiting : B.Phases .waiting .waiting
  | admitted : B.Phases .admitted .admitted
  | looking (s : Summary) : B.Phases (.looking s) (.looking s)
  | uploading {p p' : Ping} (h : B.pings p p') (s : Summary) :
      B.Phases (.uploading p s) (.uploading p' s)
  | settling {p p' : Ping} (h : B.pings p p') (o : Outcome) (s : Summary) :
      B.Phases (.settling p o s) (.settling p' o s)
  | finished (r : Except RunError Summary) : B.Phases (.finished r) (.finished r)

structure Clients (B : Bond) (c c' : Client) : Prop where
  lifecycle : B.Lifecycles c.lifecycle c'.lifecycle
  desk : B.Desks c.desk c'.desk
  held : List.Forall₂ B.Helds c.held c'.held
  runs : List.Forall₂ B.Phases c.runs c'.runs

/-! ## Runs -/

structure Strides (B : Bond) (x x' : Run.Phase × Desk) : Prop where
  phase : B.Phases x.1 x'.1
  desk : B.Desks x.2 x'.2

theorem Schedulers.mark {s s' : Scheduler} (h : B.Schedulers s s') (m : Stats.Mark) :
    B.Schedulers (s.mark m) (s'.mark m) :=
  { h with stats := congrArg (·.mark m) h.stats }

theorem phases_takeTurn {d d' : Desk} (h : B.Desks d d') :
    B.Phases (Run.takeTurn d) (Run.takeTurn d') := by
  rw [Run.takeTurn, Run.takeTurn, h.scheduler.suspended]
  split
  · exact .finished _
  · exact .looking _

theorem programs_fail {d d' : Desk} (h : B.Desks d d') (e : QueueError) :
    B.Programs B.Strides (Run.fail d e) (Run.fail d' e) := by
  have hsuspended : B.Desks { d with scheduler := { d.scheduler with suspended := true } }
      { d' with scheduler := { d'.scheduler with suspended := true } } :=
    ⟨{ h.scheduler with suspended := rfl }, h.queue⟩
  unfold Run.fail
  rw [h.scheduler.suspended]
  split
  · cases d.scheduler.suspended with
    | true => exact .done ⟨.finished _, hsuspended⟩
    | false => exact .tell (.same _) (.done ⟨.finished _, hsuspended⟩)
  · exact .done ⟨.finished _, h⟩

theorem programs_looked {d d' : Desk} (h : B.Desks d d') (s : Summary)
    {a a' : Except QueueError Queue.Reply} (ha : B.Responses a a') :
    B.Programs B.Strides (Run.looked d s a) (Run.looked d' s a') := by
  cases ha with
  | error e => exact programs_fail h e
  | ok hr =>
    cases hr with
    | accepted => exact .done ⟨.finished _, h⟩
    | retry x => exact .done ⟨.finished _, h⟩
    | pings hl =>
      cases hl with
      | nil => exact .done ⟨.finished _, h⟩
      | @cons p p' _ _ hp _ =>
        have hhanded : B.Programs B.Strides (.tell (.uploading p) (.done (.uploading p s, d)))
            (.tell (.uploading p') (.done (.uploading p' s, d'))) :=
          .tell (.uploading hp.bonded) (.done ⟨.uploading hp.bonded s, h⟩)
        simp only [Run.looked, Request.trace]
        split <;> split
        · exact .left (.right hhanded)
        · exact .left hhanded
        · exact .right hhanded
        · exact hhanded

/-- An acknowledged outcome is booked alike. -/
theorem account_eq {d d' : Desk} (h : B.Desks d d') {p p' : Ping} (hp : B.pings p p') (s : Summary)
    (o : Outcome) {r r' : Queue.Reply} (hr : B.Replies r r') :
    (Run.account d' p' s o r').1 = (Run.account d p s o r).1 ∧
      B.Schedulers (Run.account d p s o r).2.1 (Run.account d' p' s o r').2.1 ∧
      (Run.account d' p' s o r').2.2 = (Run.account d p s o r).2.2 := by
  have hagree := B.agree hp
  cases o with
  | success =>
    exact ⟨rfl, h.scheduler.mark _, by simp only [Run.account, hagree.id, hagree.documentType]⟩
  | unrecoverable reason => exact ⟨rfl, h.scheduler.mark _, by simp only [Run.account, hagree.id]⟩
  | recoverable reason =>
    cases hr with
    | accepted | pings _ =>
      exact ⟨rfl, h.scheduler.mark _, by simp only [Run.account, hagree.id, hagree.attempts]⟩
    | retry x =>
      cases x with
      | dropped n =>
        exact ⟨rfl, (h.scheduler.mark _).mark _, by simp only [Run.account, hagree.id]⟩
      | retained n => exact ⟨rfl, h.scheduler.mark _, by simp only [Run.account, hagree.id]⟩

theorem phases_account (d : Desk) (p : Ping) (s : Summary) (o : Outcome) (r : Queue.Reply) :
    B.Phases (Run.account d p s o r).1 (Run.account d p s o r).1 := by
  unfold Run.account
  split <;> constructor

theorem programs_settled {d d' : Desk} (h : B.Desks d d') {p p' : Ping} (hp : B.pings p p')
    (o : Outcome) (s : Summary) {a a' : Except QueueError Queue.Reply} (ha : B.Responses a a') :
    B.Programs B.Strides (Run.settled d p o s a) (Run.settled d' p' o s a') := by
  cases ha with
  | error e => exact programs_fail h e
  | @ok r r' hr =>
    obtain ⟨hphase, hscheduler, hnotice⟩ := account_eq h hp s o hr
    simp only [Run.settled, hphase, hnotice]
    exact .tell (.same _) (.done ⟨phases_account d p s o r, hscheduler, h.queue⟩)

theorem requests_ack {p p' : Ping} (hp : B.pings p p') (o : Outcome) :
    B.Requests (Run.ack p o) (Run.ack p' o) := by
  have hid := (B.agree hp).id
  cases o with
  | success =>
    rw [Run.ack, Run.ack, hid]
    exact .ackSuccess _
  | unrecoverable reason =>
    rw [Run.ack, Run.ack, hid]
    exact .ackUnrecoverable _
  | recoverable reason =>
    rw [Run.ack, Run.ack, hid]
    exact .ackRecoverable _

end Bond

/-! ## Submissions -/

/-- The ping that a submission becomes, its size unseen. -/
def Lifecycle.made (l : Lifecycle) (now : Time.Instant) (fresh : Uuid) (s : Lifecycle.Submission) :
    Ping :=
  Assembly.ping (l.request s) l.config s.snapshot fresh now

namespace Bond
variable {B : Bond}

/-- Of this submission two handles make pings of one size, and bonded ones unless they are refused. -/
structure Makes (B : Bond) (l l' : Lifecycle) (now : Time.Instant) (fresh : Uuid)
    (s : Lifecycle.Submission) : Prop where
  size : (l'.made now fresh s).size = (l.made now fresh s).size
  bonded : Assembly.refusal? (l.request s) s.snapshot = none →
    (l.made now fresh s).size ≤ l.maxPingSize → B.pings (l.made now fresh s) (l'.made now fresh s)

inductive Products (B : Bond) : Ping ⊕ Except LifecycleError (Option Uuid) →
    Ping ⊕ Except LifecycleError (Option Uuid) → Prop where
  | ping {p p' : Ping} (h : B.pings p p') : B.Products (.inl p) (.inl p')
  | ended (r : Except LifecycleError (Option Uuid)) : B.Products (.inr r) (.inr r)

structure Assemblies (B : Bond)
    (x x' : (Ping ⊕ Except LifecycleError (Option Uuid)) × Lifecycle) : Prop where
  product : B.Products x.1 x'.1
  lifecycle : B.Lifecycles x.2 x'.2

inductive Verdicts (B : Bond) : Except AssemblyError Ping × Bool → Except AssemblyError Ping × Bool →
    Prop where
  | error (e : AssemblyError) (drew : Bool) : B.Verdicts (.error e, drew) (.error e, drew)
  | ok {p p' : Ping} (h : B.pings p p') (drew : Bool) : B.Verdicts (.ok p, drew) (.ok p', drew)

theorem verdicts_assemble {l l' : Lifecycle} (h : B.Lifecycles l l') {now : Time.Instant}
    {fresh : Uuid} {s : Lifecycle.Submission} (hmakes : B.Makes l l' now fresh s) : B.Verdicts
      (Assembly.assemble (l.request s) l.config s.snapshot l.maxPingSize fresh now)
      (Assembly.assemble (l'.request s) l'.config s.snapshot l'.maxPingSize fresh now) := by
  have hrefusal : Assembly.refusal? (l'.request s) s.snapshot =
      Assembly.refusal? (l.request s) s.snapshot := rfl
  have hsize : (Assembly.ping (l'.request s) l'.config s.snapshot fresh now).size =
      (Assembly.ping (l.request s) l.config s.snapshot fresh now).size := hmakes.size
  unfold Assembly.assemble Assembly.sized
  rw [hrefusal, hsize, h.maxPingSize]
  cases hr : Assembly.refusal? (l.request s) s.snapshot with
  | some e => exact .error e false
  | none =>
    by_cases hfits : l.maxPingSize < (Assembly.ping (l.request s) l.config s.snapshot fresh now).size
    · simp only [if_pos hfits]
      exact .error _ true
    · simp only [if_neg hfits]
      exact .ok (hmakes.bonded hr (Nat.not_lt.1 hfits)) true

theorem programs_assemble {l l' : Lifecycle} (h : B.Lifecycles l l') {now : Time.Instant}
    {fresh : Uuid} {s : Lifecycle.Submission} (hmakes : B.Makes l l' now fresh s) :
    B.Programs B.Assemblies (l.assemble now fresh s).1 (l'.assemble now fresh s).1 := by
  have hverdicts := verdicts_assemble h hmakes
  unfold Lifecycle.assemble
  generalize Assembly.assemble (l.request s) l.config s.snapshot l.maxPingSize fresh now = x,
    Assembly.assemble (l'.request s) l'.config s.snapshot l'.maxPingSize fresh now = x' at hverdicts
  cases hverdicts with
  | error e drew =>
    cases e with
    | payloadTooLarge _ size limit =>
      exact .tell (.same _) (.done ⟨.ended _,
        { h with droppedOversized := congrArg (· + 1) h.droppedOversized }⟩)
    | invalidDocumentType _ | emptySnapshot _ => exact .done ⟨.ended _, h⟩
  | @ok p p' hp drew =>
    have hnotice : Assembly.notice p' = Assembly.notice p := by
      rw [Assembly.notice, Assembly.notice, (B.agree hp).id, (B.agree hp).documentType,
        (B.agree hp).size]
    simp only [hnotice]
    exact .tell (.same _) (.done ⟨.ping hp, h⟩)

/-! ## Steps of a process -/

namespace Clients
variable {c c' : Client}

theorem setQueue (h : B.Clients c c') {q q' : Queue} (hq : B.Queues q q') :
    B.Clients (c.setQueue q) (c'.setQueue q') :=
  { h with desk := ⟨h.desk.scheduler, hq⟩ }

theorem setRun (h : B.Clients c c') (i : Nat) {x x' : Run.Phase} (hx : B.Phases x x') :
    B.Clients (c.setRun i x) (c'.setRun i x') :=
  { h with runs := forall₂_set h.runs i hx }

theorem hold (h : B.Clients c c') {l l' : Lifecycle} (hl : B.Lifecycles l l')
    (s : Option Lifecycle.Submission) : B.Clients (c.hold l s) (c'.hold l' s) := by
  refine { h with lifecycle := hl, held := List.rel_append h.held ?_ }
  cases s with
  | none => exact .nil
  | some s => exact .cons ⟨rfl, .drained⟩ .nil

theorem release (h : B.Clients c c') (i : Nat) {l l' : Lifecycle} (hl : B.Lifecycles l l') :
    B.Clients (c.release i l) (c'.release i l') :=
  { h with lifecycle := hl, held := forall₂_eraseIdx h.held i }

theorem follow (h : B.Clients c c') (i : Nat) {s s' : Run.Step} (hs : B.Programs B.Strides s s') :
    B.Programs B.Clients (c.follow i s) (c'.follow i s') :=
  hs.bind fun _ _ hx => .done ⟨h.lifecycle, hx.desk, h.held, forall₂_set h.runs i hx.phase⟩

end Clients

structure Inquiries (B : Bond) (x x' : Bool × Queue.Request) : Prop where
  passed : x'.1 = x.1
  request : B.Requests x.2 x'.2

theorem rel_asks {c c' : Client} (h : B.Clients c c') (a : Client.Action)
    (hfits : ∀ x ∈ c.asks a, x.2.Fits) :
    Option.Rel B.Inquiries (c.asks a) (c'.asks a) := by
  cases a with
  | request passed r => exact .some ⟨rfl, .of_fits (hfits _ rfl)⟩
  | enqueue i passed =>
    have hheld := rel_getElem? h.held i
    simp only [Client.asks] at hfits ⊢
    generalize c.held[i]? = x, c'.held[i]? = x' at *
    cases hheld with
    | none => exact .none
    | @some x x' hx =>
      obtain ⟨s, stage⟩ := x
      obtain ⟨s', stage'⟩ := x'
      cases hx.stage with
      | drained | refused _ => exact .none
      | assembled hp => exact .some ⟨rfl, .enqueue ⟨hp, hfits _ rfl _ rfl⟩⟩
  | look i passed =>
    have hrun := rel_getElem? h.runs i
    simp only [Client.asks, h.desk.scheduler.cancelled]
    generalize c.runs[i]? = x, c'.runs[i]? = x' at *
    cases hrun with
    | none => exact .none
    | some hx =>
      cases hx with
      | looking s =>
        cases c.desk.scheduler.cancelled with
        | true => exact .none
        | false => exact .some ⟨rfl, .peek 1⟩
      | _ => exact .none
  | settle i passed =>
    have hrun := rel_getElem? h.runs i
    simp only [Client.asks]
    generalize c.runs[i]? = x, c'.runs[i]? = x' at *
    cases hrun with
    | none => exact .none
    | some hx =>
      cases hx with
      | settling hp o s => exact .some ⟨rfl, requests_ack hp o⟩
      | _ => exact .none
  | _ => exact .none

theorem programs_resume {c c' : Client} (h : B.Clients c c') (a : Client.Action)
    {r r' : Except QueueError Queue.Reply} (hr : B.Responses r r') :
    B.Programs B.Clients (c.resume r a) (c'.resume r' a) := by
  cases a with
  | enqueue i passed =>
    have hheld := rel_getElem? h.held i
    simp only [Client.resume]
    generalize c.held[i]? = x, c'.held[i]? = x' at hheld
    cases hheld with
    | none => exact .done h
    | @some x x' hx =>
      obtain ⟨s, stage⟩ := x
      obtain ⟨s', stage'⟩ := x'
      cases hx.submission
      cases hr with
      | ok hr => exact .done (h.release i h.lifecycle)
      | error e => exact .tell (.same _) (.done
          { h with held := forall₂_set h.held i ⟨rfl, .refused e⟩ })
  | look i passed =>
    have hrun := rel_getElem? h.runs i
    simp only [Client.resume]
    generalize c.runs[i]? = x, c'.runs[i]? = x' at hrun
    cases hrun with
    | none => exact .done h
    | some hx =>
      cases hx with
      | looking s => exact h.follow i (programs_looked h.desk s hr)
      | _ => exact .done h
  | settle i passed =>
    have hrun := rel_getElem? h.runs i
    simp only [Client.resume]
    generalize c.runs[i]? = x, c'.runs[i]? = x' at hrun
    cases hrun with
    | none => exact .done h
    | some hx =>
      cases hx with
      | settling hp o s => exact h.follow i (programs_settled h.desk hp o s hr)
      | _ => exact .done h
  | _ => exact .done h

/-- Of what the step assembles the clients make pings alike. -/
def Assembles (B : Bond) (c c' : Client) (a : Client.Action) : Prop :=
  ∀ i now fresh s, a = .assemble i now fresh → c.held[i]? = some ⟨s, .drained⟩ →
    B.Makes c.lifecycle c'.lifecycle now fresh s

theorem programs_act {c c' : Client} (h : B.Clients c c') {a : Client.Action}
    (hmakes : B.Assembles c c' a) : B.Programs B.Clients (c.act a) (c'.act a) := by
  have hbuffer := h.lifecycle.buffer
  cases a with
  | setMetric now ping id m =>
    refine .done { h with lifecycle := { h.lifecycle with buffer := ?_ } }
    exact congrArg (·.setMetric now ping id m) hbuffer
  | addToCounter now ping id n =>
    refine .done { h with lifecycle := { h.lifecycle with buffer := ?_ } }
    exact congrArg (·.addToCounter now ping id n) hbuffer
  | register t =>
    refine .done { h with lifecycle := { h.lifecycle with types := ?_ } }
    exact congrArg (·.insert t.name t) h.lifecycle.types
  | recordEvent now ping e =>
    have hmax := B.configs_maxEvents h.lifecycle.config
    simp only [Client.act, Lifecycle.recordEvent, hbuffer, hmax]
    exact .done (h.hold (h.lifecycle.withBuffer _) _)
  | drain now ping reason =>
    simp only [Client.act, Lifecycle.drain, hbuffer]
    exact .done (h.hold (h.lifecycle.withBuffer _) _)
  | assemble i now fresh =>
    have hheld := rel_getElem? h.held i
    have hmake := hmakes i now fresh
    simp only [Client.act]
    generalize c.held[i]? = x, c'.held[i]? = x' at hheld hmake
    cases hheld with
    | none => exact .done h
    | @some x x' hx =>
      obtain ⟨s, stage⟩ := x
      obtain ⟨s', stage'⟩ := x'
      cases hx.submission
      cases hx.stage with
      | assembled _ | refused _ => exact .done h
      | drained =>
        refine (programs_assemble h.lifecycle (hmake s rfl rfl)).bind fun y y' hy => ?_
        obtain ⟨product, l⟩ := y
        obtain ⟨product', l'⟩ := y'
        cases hy.product with
        | ping hp => exact .done { h with
            lifecycle := hy.lifecycle, held := forall₂_set h.held i ⟨rfl, .assembled hp⟩ }
        | ended r => exact .done (h.release i hy.lifecycle)
  | takeBack i now =>
    have hheld := rel_getElem? h.held i
    simp only [Client.act]
    generalize c.held[i]? = x, c'.held[i]? = x' at hheld
    cases hheld with
    | none => exact .done h
    | @some x x' hx =>
      obtain ⟨s, stage⟩ := x
      obtain ⟨s', stage'⟩ := x'
      cases hx.submission
      cases hx.stage with
      | drained | assembled _ => exact .done h
      | refused e => exact .done (h.release i { h.lifecycle with
          buffer := congrArg (·.restore now s.documentType s.snapshot) hbuffer })
  | startRun =>
    exact .done { h with runs := List.rel_append h.runs (.cons (phases_takeTurn h.desk) .nil) }
  | look i passed =>
    have hrun := rel_getElem? h.runs i
    simp only [Client.act, h.desk.scheduler.cancelled]
    generalize c.runs[i]? = x, c'.runs[i]? = x' at hrun
    cases hrun with
    | none => exact .done h
    | some hx =>
      cases hx with
      | looking s =>
        cases c.desk.scheduler.cancelled with
        | true => exact .done (h.setRun i (.finished _))
        | false => exact .done h
      | _ => exact .done h
  | answer i o =>
    have hrun := rel_getElem? h.runs i
    simp only [Client.act]
    generalize c.runs[i]? = x, c'.runs[i]? = x' at hrun
    cases hrun with
    | none => exact .done h
    | some hx =>
      cases hx with
      | uploading hp s => exact .done (h.setRun i (.settling hp o s))
      | _ => exact .done h
  | abandon i =>
    have hrun := rel_getElem? h.runs i
    simp only [Client.act]
    generalize c.runs[i]? = x, c'.runs[i]? = x' at hrun
    cases hrun with
    | none => exact .done h
    | some hx =>
      cases hx with
      | uploading hp s => exact .done (h.setRun i (.finished _))
      | _ => exact .done h
  | cancel =>
    exact .done { h with
      desk := ⟨{ h.desk.scheduler with cancelled := rfl }, h.desk.queue⟩ }
  | request passed r => exact .done h
  | enqueue i passed => exact .done h
  | settle i passed => exact .done h

structure Performed (B : Bond) (x x' : Client.Reply × Client) : Prop where
  reply : Option.Rel B.Responses x.1 x'.1
  client : B.Clients x.2 x'.2

/-- **Bonded clients act alike.** -/
theorem programs_perform {c c' : Client} (h : B.Clients c c') {a : Client.Action}
    (hfits : ∀ x ∈ c.asks a, x.2.Fits) (hmakes : B.Assembles c c' a) :
    B.Programs B.Performed (c.perform a) (c'.perform a) := by
  have hasks := rel_asks h a hfits
  unfold Client.perform
  generalize c.asks a = x, c'.asks a = x' at hasks
  cases hasks with
  | none => exact (programs_act h hmakes).bind fun _ _ hx => .done ⟨.none, hx⟩
  | @some x x' hx =>
    obtain ⟨passed, r⟩ := x
    obtain ⟨passed', r'⟩ := x'
    cases hx.passed
    exact (programs_attend h.desk.queue passed hx.request).bind fun _ _ hy =>
      (programs_resume (h.setQueue hy.queue) a hy.response).bind fun _ _ hz =>
        .done ⟨.some hy.response, hz⟩

end Bond
end PingDelivery
