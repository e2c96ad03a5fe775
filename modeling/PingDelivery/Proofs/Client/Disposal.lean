import PingDelivery.Proofs.Buffer.Merging
import PingDelivery.Proofs.Client.Returns

/-! # What becomes of what was buffered

Measurements leave the buffer in one way only: the whole window of a ping is taken out as a submission.
A submission then ends in one of four ways, and the document type alone decides whether it is the fourth,
in which it is lost without being counted.
-/

namespace PingDelivery
open Store Upload

/-! ## What stays in a buffer -/

/-- Both are counters. -/
def Metric.Counters (m m' : Metric) : Prop := ∃ n n', m = .counter n ∧ m' = .counter n'

namespace Buffer
variable {b b' : Buffer} {ping ping' id : String} {w : Window} {m : Metric}

/-- What is buffered for the ping stays, but for the value of the one metric that is set anew and the
counts of counters. -/
structure Keeps (b b' : Buffer) (set : Option (String × String)) (ping : String) : Prop where
  events : b.events ping <:+: b'.events ping
  metrics : ∀ id m, b.metric? ping id = some m → ∃ m', b'.metric? ping id = some m' ∧
    (m' = m ∨ set = some (ping, id) ∨ m.Counters m')

/-- All that is buffered for the ping is taken out, and nothing else. -/
structure TakenOut (b b' : Buffer) (ping : String) (s : Snapshot) : Prop where
  nonempty : s.isEmpty = false
  events : b.events ping <+: s.events
  metrics : ∀ id, s.metrics.get? id = b.metric? ping id
  others : ∀ ping', ping' ≠ ping → b.Keeps b' none ping'

theorem metric?_put : (b.put ping w).metric? ping' id =
    if ping' = ping then w.metrics.get? id else b.metric? ping' id := by
  rw [metric?, put, Dict.get?_insert]
  split <;> rfl

theorem metric?_window (now : Time.Instant) : (b.window ping now).metrics.get? id = b.metric? ping id := by
  rw [window, metric?]
  cases b.windows.get? ping <;> rfl

theorem Keeps.refl (b : Buffer) (set : Option (String × String)) (ping : String) : b.Keeps b set ping :=
  ⟨List.infix_refl _, fun _ m hm => ⟨m, hm, .inl rfl⟩⟩

/-- A window that has grown. -/
theorem keeps_put (now : Time.Instant) {set : Option (String × String)}
    (hevents : b.events ping <:+: w.events)
    (hmetrics : ∀ id m, (b.window ping now).metrics.get? id = some m → ∃ m',
      w.metrics.get? id = some m' ∧ (m' = m ∨ set = some (ping, id) ∨ m.Counters m')) (ping' : String) :
    b.Keeps (b.put ping w) set ping' := by
  by_cases h : ping' = ping
  · subst h
    refine ⟨?_, fun id m hm => ?_⟩
    · rw [events_put, Function.update_self]
      exact hevents
    · rw [metric?_put, if_pos rfl]
      exact hmetrics id m ((metric?_window now).trans hm)
  · refine ⟨?_, fun id m hm => ⟨m, ?_, .inl rfl⟩⟩
    · exact (events_put_of_ne h).symm ▸ List.infix_refl _
    · rwa [metric?_put, if_neg h]

theorem keeps_setMetric (now : Time.Instant) (m : Metric) (ping' : String) :
    b.Keeps (b.setMetric now ping id m) (some (ping, id)) ping' := by
  refine keeps_put now ?_ (fun id' m' hm' => ?_) ping'
  · exact (b.events_window ping now) ▸ List.infix_refl _
  · rw [Window.set, Dict.get?_insert]
    split
    · rename_i heq
      exact ⟨m, rfl, .inr (.inl (heq ▸ rfl))⟩
    · exact ⟨m', hm', .inl rfl⟩

theorem keeps_addToCounter (now : Time.Instant) (n : Int64) (ping' : String) :
    b.Keeps (b.addToCounter now ping id n) (some (ping, id)) ping' := by
  obtain ⟨m, hm⟩ : ∃ m, (b.window ping now).add id n = (b.window ping now).set id m := by
    unfold Window.add
    split
    · exact ⟨_, rfl⟩
    · exact ⟨_, rfl⟩
  rw [addToCounter, hm]
  exact keeps_setMetric now m ping'

/-- What is put back takes nothing away. -/
theorem get?_restore {s : Snapshot} (hm : w.metrics.get? id = some m) :
    ∃ m', (w.restore s).metrics.get? id = some m' ∧ (m' = m ∨ m.Counters m') := by
  rw [Window.get?_restore, hm]
  cases m with
  | counter n =>
    cases s.metrics.get? id with
    | none => exact ⟨_, rfl, .inl rfl⟩
    | some older =>
      cases older with
      | counter o => exact ⟨_, rfl, .inr ⟨n, _, rfl, rfl⟩⟩
      | _ => exact ⟨_, rfl, .inl rfl⟩
  | _ => exact ⟨_, rfl, .inl rfl⟩

theorem keeps_restore (now : Time.Instant) (s : Snapshot) (ping' : String) :
    b.Keeps (b.restore now ping s) none ping' := by
  refine keeps_put now ?_ (fun id m hm => ?_) ping'
  · refine ⟨s.events, [], ?_⟩
    rw [List.append_nil, Window.restore, events_window]
  · obtain ⟨m', hm', h⟩ := get?_restore hm
    exact ⟨m', hm', h.imp_right .inr⟩

theorem takenOut_drain {now : Time.Instant} (hevents : b.events ping <+: w.events)
    (hmetrics : w.metrics = (b.window ping now).metrics) (hne : w.isEmpty = false) :
    b.TakenOut (b.put ping (w.drain now).2) ping (w.drain now).1 where
  nonempty := hne
  events := hevents
  metrics id := by rw [← metric?_window now, ← hmetrics]; rfl
  others ping' h := by
    refine ⟨?_, fun id m hm => ⟨m, ?_, .inl rfl⟩⟩
    · exact (events_put_of_ne h).symm ▸ List.infix_refl _
    · rwa [metric?_put, if_neg h]

/-- An event is recorded, or everything is taken out with it. -/
theorem recordEvent_cases (b : Buffer) (now : Time.Instant) (ping : String) (e : Event) (limit : Nat) :
    (∃ b', b.recordEvent now ping e limit = (b', none) ∧ ∀ ping', b.Keeps b' none ping') ∨
    ∃ b' s, b.recordEvent now ping e limit = (b', some s) ∧ b.TakenOut b' ping s := by
  have hevents : ((b.window ping now).push e).events = b.events ping ++ [e] := by
    rw [Window.push, events_window]
  by_cases hfull : limit ≤ ((b.window ping now).push e).events.length
  · refine .inr ⟨_, _, if_pos hfull, takenOut_drain (hevents ▸ List.prefix_append _ _) rfl ?_⟩
    rw [Window.isEmpty, hevents, List.isEmpty_eq_false_iff.2 (List.append_ne_nil_of_right_ne_nil _
      (List.cons_ne_nil _ _)), Bool.and_false]
  · refine .inl ⟨_, if_neg hfull, keeps_put now ?_ fun id m hm => ⟨m, hm, .inl rfl⟩⟩
    exact hevents ▸ (List.prefix_append _ _).isInfix

theorem take_cases (b : Buffer) (now : Time.Instant) (ping : String) :
    b.take now ping = (b, none) ∨
      ∃ b' s, b.take now ping = (b', some s) ∧ b.TakenOut b' ping s := by
  unfold take
  split
  · rename_i w hw
    have hwindow : b.window ping now = w := by rw [window, hw]; rfl
    split
    · exact .inl rfl
    · rename_i hne
      have hevents : (b.window ping now).events = b.events ping := events_window b ping now
      refine .inr ⟨_, _, rfl, takenOut_drain ?_ (hwindow ▸ rfl) (Bool.eq_false_iff.2 hne)⟩
      exact hwindow ▸ hevents.symm ▸ List.prefix_refl _
  · exact .inl rfl

end Buffer

/-! ## How a submission ends -/

namespace Lifecycle

inductive Disposal where
  | queued
  | takenBack
  | oversized
  | lost
  deriving DecidableEq

/-- What each ending comes to: what the caller is told, the handle and the queue after it, and the store. -/
inductive Disposed (l : Lifecycle) (q : Queue) (now : Time.Instant) (fresh : Uuid) (s : Submission)
    (m : Content) : Disposal → Submitted → Content → Prop where
  /-- A new ping that carries the snapshot is pending and stored. -/
  | queued {p : Ping} (carries : p = Assembly.ping (l.request s) l.config s.snapshot fresh now)
      (new : q.find? p.id = none) : Disposed l q now fresh s m .queued
        (.ok (some p.id), l, q.push { p with sequence := q.nextSequence })
        ((Queue.storePut { p with sequence := q.nextSequence }).effect m)
  /-- The measurements are in the buffer again, and the caller has an error of the queue. -/
  | takenBack {e : QueueError} {q' : Queue} (pings : q'.pings = q.pings) :
      Disposed l q now fresh s m .takenBack (.error (.queue e), l.takeBack now s, q') m
  | oversized : Disposed l q now fresh s m .oversized
      (.ok none, { l with droppedOversized := l.droppedOversized + 1 }, q) m
  /-- The measurements are nowhere, and no count tells of them. -/
  | lost {t : String} : Disposed l q now fresh s m .lost
      (.error (.assembly (.invalidDocumentType t)), l, q) m

/-- The call has taken the submission out of the buffer. -/
inductive TakesOut (l l' : Lifecycle) (s : Submission) : Prop where
  | submitted (now : Time.Instant) (ping : String) (reason : Option String)
      (h : l.drain now ping reason = (l', some s))
  | recorded (now : Time.Instant) (ping : String) (e : Event)
      (h : l.recordEvent now ping e = (l', some s))

variable {l l' : Lifecycle} {q q' : Queue} {now : Time.Instant} {fresh : Uuid} {s : Submission}
  {m m' : Content} {tr : List Observed} {x : Submitted} {d d' : Disposal}

/-- The ending that a caller reads off what it is told. -/
def Disposal.told : Except LifecycleError (Option Uuid) → Disposal
  | .ok (some _) => .queued
  | .ok none => .oversized
  | .error (.queue _) => .takenBack
  | .error _ => .lost

theorem Disposed.eq_told (h : l.Disposed q now fresh s m d x m') : d = .told x.1 := by
  cases h <;> rfl

theorem TakesOut.nonempty (h : l.TakesOut l' s) : s.snapshot.isEmpty = false := by
  cases h with
  | submitted now ping reason h =>
    rcases l.buffer.take_cases now ping with htake | ⟨b, s', htake, htaken⟩ <;>
      rw [drain, htake] at h <;> cases h
    exact htaken.nonempty
  | recorded now ping e h =>
    rcases l.buffer.recordEvent_cases now ping e l.config.maxEvents with
      ⟨b, hrecord, -⟩ | ⟨b, s', hrecord, htaken⟩ <;> rw [recordEvent, hrecord] at h <;> cases h
    exact htaken.nonempty

theorem disposed_enqueue {p : Ping}
    (hp : p = Assembly.ping (l.request s) l.config s.snapshot fresh now)
    (h : Follows (l.enqueue q now s p) m tr (some x) m') :
    ∃ d, l.Disposed q now fresh s m d x m' ∧ d ≠ .lost := by
  rcases h.of_bind with ⟨hout, -⟩ | ⟨⟨r, q'⟩, tr₁, tr₂, m₁, hq, hrest, -⟩
  · cases hout
  · have hattend : Follows (q.attend false (.enqueue p)) m tr₁ (some (r, q')) m₁ := hq
    obtain ⟨hattended, -⟩ := Queue.attended_of_follows hattend
    cases r with
    | error e =>
      rcases hrest.of_tell with ⟨-, -, hout⟩ | ⟨tr', -, hdone⟩
      · cases hout
      · obtain ⟨rfl, rfl⟩ := hdone.eq_of_done
        refine ⟨.takenBack, ?_, nofun⟩
        cases hattended with
        | refused e => exact .takenBack rfl
        | failed e => exact .takenBack rfl
    | ok reply =>
      obtain ⟨rfl, rfl⟩ := hrest.eq_of_done
      refine ⟨.queued, ?_, nofun⟩
      cases hattended with
      | peeked hr => cases hr
      | written hchange =>
        cases hchange with
        | pushed hnew => exact .queued hp hnew
        | acked hr _ => rcases hr with hr | hr <;> cases hr

theorem assemble_of_invalid (h : ¬ PingDelivery.Submission.IsDocumentType s.documentType) :
    (l.assemble now fresh s).1 =
      .done (.inr (.error (.assembly (.invalidDocumentType s.documentType))), l) := by
  have hrefusal : Assembly.refusal? (l.request s) s.snapshot =
      some (.invalidDocumentType s.documentType) := if_pos h
  rw [assemble, Assembly.assemble, hrefusal]

theorem fst_submit (l : Lifecycle) (q : Queue) (now : Time.Instant) (fresh : Uuid) (s : Submission) :
    (l.submit q now fresh s).1 = (l.assemble now fresh s).1.bind fun
      | (.inl p, l) => l.enqueue q now s p
      | (.inr r, l) => .done (r, l, q) := rfl

/-- A submission that has something in it ends in one of the four ways, and is lost exactly if its
document type is not one. -/
theorem disposed_submit (hs : s.snapshot.isEmpty = false)
    (h : Follows (l.submit q now fresh s).1 m tr (some x) m') :
    ∃ d, l.Disposed q now fresh s m d x m' ∧
      (d = .lost ↔ ¬ PingDelivery.Submission.IsDocumentType s.documentType) := by
  have hlost {d : Disposal} (hvalid : PingDelivery.Submission.IsDocumentType s.documentType)
      (hd : d ≠ .lost) : d = .lost ↔ ¬ PingDelivery.Submission.IsDocumentType s.documentType :=
    ⟨fun h => absurd h hd, fun h => absurd hvalid h⟩
  rw [fst_submit] at h
  by_cases hvalid : PingDelivery.Submission.IsDocumentType s.documentType
  · have hassembled := l.assembled now fresh s
    generalize (Assembly.assemble (l.request s) l.config s.snapshot l.maxPingSize fresh now).1 = r
      at hassembled
    generalize (l.assemble now fresh s).1 = program at hassembled h
    cases hassembled with
    | made hp =>
      rcases h.of_tell with ⟨-, -, hout⟩ | ⟨tr', -, henqueue⟩
      · cases hout
      · obtain ⟨d, hd, hne⟩ := disposed_enqueue hp henqueue
        exact ⟨d, hd, hlost hvalid hne⟩
    | oversized t size limit =>
      rcases h.of_tell with ⟨-, -, hout⟩ | ⟨tr', -, hdone⟩
      · cases hout
      · obtain ⟨rfl, rfl⟩ := hdone.eq_of_done
        exact ⟨.oversized, .oversized, hlost hvalid nofun⟩
    | invalid hinvalid t => exact absurd hvalid hinvalid
    | empty hempty t => cases hs.symm.trans hempty
  · rw [assemble_of_invalid hvalid] at h
    obtain ⟨rfl, rfl⟩ := h.eq_of_done
    exact ⟨.lost, .lost, fun _ => hvalid, fun _ => rfl⟩

end Lifecycle

/-! ## How measurements leave the buffer -/

namespace Client

/-- The metric that a step sets or adds to. -/
def Action.sets? : Action → Option (String × String)
  | .setMetric _ ping id _ | .addToCounter _ ping id _ => some (ping, id)
  | _ => none

/-- What a step does to what is buffered for a ping: it stays, or all of it is under way. -/
inductive Buffered (c : Client) (a : Action) (c' : Client) (ping : String) : Prop where
  | kept (h : c.lifecycle.buffer.Keeps c'.lifecycle.buffer a.sets? ping)
  | taken (s : Lifecycle.Submission) (held : c'.held = c.held ++ [⟨s, .drained⟩])
      (type : s.documentType = ping)
      (h : c.lifecycle.buffer.TakenOut c'.lifecycle.buffer ping s.snapshot)

variable {c c' : Client} {a : Action}

/-- What is taken out of one ping's window leaves those of all others alone. -/
theorem Buffered.of_takenOut {l : Lifecycle} {s : Lifecycle.Submission} (hsets : a.sets? = none)
    (h : c.lifecycle.buffer.TakenOut l.buffer s.documentType s.snapshot) (ping : String) :
    c.Buffered a (c.hold l (some s)) ping := by
  by_cases hping : ping = s.documentType
  · exact .taken s rfl hping.symm (hping ▸ h)
  · exact .kept (hsets ▸ h.others ping hping)

theorem buffered_assemble (i : Nat) (now : Time.Instant) (fresh : Uuid) (ping : String) :
    Quiet (fun c' => c.Buffered (.assemble i now fresh) c' ping) (c.act (.assemble i now fresh)) := by
  simp only [act]
  split
  · rename_i s hi
    have hassembled := c.lifecycle.assembled now fresh s
    generalize (Assembly.assemble (c.lifecycle.request s) c.lifecycle.config s.snapshot
      c.lifecycle.maxPingSize fresh now).1 = r at hassembled
    generalize (c.lifecycle.assemble now fresh s).1 = program at hassembled ⊢
    cases hassembled with
    | made hp => exact .tell (fun _ _ h => by cases h) (.done (.kept (.refl _ _ _)))
    | oversized t size limit => exact .tell (fun _ _ h => by cases h) (.done (.kept (.refl _ _ _)))
    | invalid hinvalid t => exact .done (.kept (.refl _ _ _))
    | empty hempty t => exact .done (.kept (.refl _ _ _))
  · exact .done (.kept (.refl _ _ _))

theorem buffered_recordEvent (now : Time.Instant) (ping' : String) (e : Event) (ping : String) :
    c.Buffered (.recordEvent now ping' e) (c.hold (c.lifecycle.recordEvent now ping' e).1
      (c.lifecycle.recordEvent now ping' e).2) ping := by
  rcases c.lifecycle.buffer.recordEvent_cases now ping' e c.lifecycle.config.maxEvents with
    ⟨b, hrecord, hkeeps⟩ | ⟨b, s, hrecord, htaken⟩
  · rw [Lifecycle.recordEvent, hrecord]
    exact .kept (hkeeps ping)
  · rw [Lifecycle.recordEvent, hrecord]
    exact .of_takenOut rfl htaken ping

theorem buffered_drain (now : Time.Instant) (ping' : String) (reason : Option String)
    (ping : String) : c.Buffered (.drain now ping' reason)
      (c.hold (c.lifecycle.drain now ping' reason).1 (c.lifecycle.drain now ping' reason).2) ping := by
  rcases c.lifecycle.buffer.take_cases now ping' with htake | ⟨b, s, htake, htaken⟩
  · rw [Lifecycle.drain, htake]
    exact .kept (.refl _ _ _)
  · rw [Lifecycle.drain, htake]
    exact .of_takenOut rfl htaken ping

theorem buffered_act (a : Action) (ping : String) :
    Quiet (fun c' => c.Buffered a c' ping) (c.act a) := by
  cases a with
  | setMetric now ping' id m => exact .done (.kept (Buffer.keeps_setMetric now m ping))
  | addToCounter now ping' id n => exact .done (.kept (Buffer.keeps_addToCounter now n ping))
  | recordEvent now ping' e => exact .done (buffered_recordEvent now ping' e ping)
  | drain now ping' reason => exact .done (buffered_drain now ping' reason ping)
  | assemble i now fresh => exact buffered_assemble i now fresh ping
  | takeBack i now =>
    simp only [act]
    split
    · exact .done (.kept (Buffer.keeps_restore now _ ping))
    · exact .done (.kept (.refl _ _ _))
  | look i passed =>
    simp only [act]
    split
    · split <;> exact .done (.kept (.refl _ _ _))
    · exact .done (.kept (.refl _ _ _))
  | answer i o | abandon i =>
    simp only [act]
    split <;> exact .done (.kept (.refl _ _ _))
  | _ => exact .done (.kept (.refl _ _ _))

theorem buffered_resume (reply : Except QueueError Queue.Reply) (a : Action) (ping : String) :
    Quiet (fun c' => c.Buffered a c' ping) (c.resume reply a) := by
  have hfollow {P : Run.Phase × Desk → Prop} (i : Nat) {step : Run.Step} (h : Quiet P step) :
      Quiet (fun c' => c.Buffered a c' ping) (c.follow i step) :=
    h.bind fun _ _ => .done (.kept (.refl _ _ _))
  cases a with
  | enqueue i passed =>
    simp only [resume]
    split
    · exact .done (.kept (.refl _ _ _))
    · exact .tell (fun _ _ h => by cases h) (.done (.kept (.refl _ _ _)))
    · exact .done (.kept (.refl _ _ _))
  | look i passed =>
    simp only [resume]
    split
    · exact hfollow i (quiet_looked _ _ _)
    · exact .done (.kept (.refl _ _ _))
  | settle i passed =>
    simp only [resume]
    split
    · exact hfollow i (quiet_settled _ _ _ _ _)
    · exact .done (.kept (.refl _ _ _))
  | _ => exact .done (.kept (.refl _ _ _))

theorem buffered_perform {m m' : Content} {tr : List Observed} {r : Reply}
    (h : Follows (c.perform a) m tr (some (r, c')) m') (ping : String) : c.Buffered a c' ping := by
  unfold perform at h
  split at h
  · rcases h.of_bind with ⟨hout, -⟩ | ⟨⟨reply, q⟩, tr₁, tr₂, m₁, -, hrest, -⟩
    · cases hout
    · have hquiet : Quiet (fun y : Reply × Client => c.Buffered a y.2 ping)
          (((c.setQueue q).resume reply a).bind fun c' => .done (some reply, c')) :=
        (buffered_resume (c := c.setQueue q) reply a ping).bind fun c' hc' => by
          cases hc' with
          | kept h => exact .done (.kept h)
          | taken s held type h => exact .done (.taken s held type h)
      obtain ⟨-, -, hout⟩ := hquiet.follows hrest
      exact hout _ rfl
  · have hquiet : Quiet (fun y : Reply × Client => c.Buffered a y.2 ping)
        ((c.act a).bind fun c' => .done (none, c')) :=
      (buffered_act a ping).bind fun c' hc' => .done hc'
    obtain ⟨-, -, hout⟩ := hquiet.follows h
    exact hout _ rfl

end Client

/-! ## Submissions of a process -/

namespace Ledger
open Lifecycle (Disposal Submission)

/-- The submissions that were taken out. -/
def drained (es : List Entry) : List Submission :=
  es.filterMap fun
    | .drained s _ => some s
    | _ => none

/-- The submissions that have ended, and how. -/
def endings (es : List Entry) : List (Disposal × Submission) :=
  es.filterMap fun
    | .sent _ s => some (.queued, s)
    | .restored s => some (.takenBack, s)
    | .oversized s => some (.oversized, s)
    | .rejected s => some (.lost, s)
    | _ => none

variable {es : List Entry} {b : Books}

/-- Whatever was taken out is under way or has ended once. -/
theorem drained_perm (h : Books.opened.Posted es b) :
    (drained es).Perm (b.underway ++ (endings es).map (·.2)) := by
  have hends {s : Submission} {l l' l₀ l₁ : List Submission} (ih : l₀.Perm (l ++ l₁))
      (hheld : l.Perm (s :: l')) : l₀.Perm (l' ++ s :: l₁) :=
    (ih.trans (hheld.append_right l₁)).trans List.perm_middle.symm
  induction h with
  | nil => exact .nil
  | cons _ he ih =>
    cases he with
    | recorded ping e => exact ih
    | drained _ hheld => exact (ih.cons _).trans (hheld.append_right _).symm
    | sent hheld _ => exact hends ih hheld
    | oversized hheld => exact hends ih hheld
    | rejected hheld _ => exact hends ih hheld
    | restored hheld => exact hends ih hheld

theorem invalid_of_lost {s : Submission} (h : Books.opened.Posted es b)
    (hs : (.lost, s) ∈ endings es) : ¬ PingDelivery.Submission.IsDocumentType s.documentType := by
  induction h with
  | nil => cases hs
  | cons _ he ih =>
    cases he with
    | recorded ping e => exact ih hs
    | drained _ _ => exact ih hs
    | rejected _ hinvalid =>
      rcases List.mem_cons.1 hs with heq | hs
      · cases heq
        exact hinvalid
      · exact ih hs
    | _ => exact ih ((List.mem_cons.1 hs).resolve_left nofun)

theorem dropped_eq_count (h : Books.opened.Posted es b) :
    b.dropped = (endings es).countP (·.1 = .oversized) := by
  induction h with
  | nil => rfl
  | cons _ he ih =>
    cases he with
    | oversized _ => exact (congrArg (· + 1) ih).trans (List.countP_cons_of_pos rfl).symm
    | _ => exact ih

end Ledger

/-- **Measurements disappear unaccounted under an invalid document type, and under no other.** A call
that takes a snapshot out, in whatever state the handle, the queue and the store are, ends in exactly one
way: a new ping that carries it is pending, or it is in the buffer again, or it is dropped and counted, or
it is lost, exactly if its document type is not one. The same holds of every process and however its calls
interleave; and nothing else takes measurements out of the buffer. -/
theorem disappears_only_if_invalid (c : Client) :
    (∀ {l : Lifecycle} {q : Queue} {now : Time.Instant} {fresh : Uuid} {s : Lifecycle.Submission}
      {m m' : Content} {tr : List Observed} {x : Lifecycle.Submitted}, c.lifecycle.TakesOut l s →
      Follows (l.submit q now fresh s).1 m tr (some x) m' →
        ∃ d, l.Disposed q now fresh s m d x m' ∧ (∀ d', l.Disposed q now fresh s m d' x m' → d' = d) ∧
          (d = .lost ↔ ¬ Submission.IsDocumentType s.documentType)) ∧
    (∀ {m₀ : Content} {h : List Moment} {w : World}, History ⟨m₀, none⟩ h w → w.client = some c →
      (Ledger.drained (ledger h)).Perm (c.submissions ++ (Ledger.endings (ledger h)).map (·.2)) ∧
      c.lifecycle.droppedOversized = (Ledger.endings (ledger h)).countP (·.1 = .oversized) ∧
      ∀ s, (.lost, s) ∈ Ledger.endings (ledger h) → ¬ Submission.IsDocumentType s.documentType) ∧
    ∀ {c' : Client} {a : Client.Action} {m m' : Content} {tr : List Observed} {r : Client.Reply},
      Follows (c.perform a) m tr (some (r, c')) m' → ∀ ping, c.Buffered a c' ping := by
  refine ⟨fun htaken hf => ?_, fun hh hc => ?_, fun hf ping => Client.buffered_perform hf ping⟩
  · obtain ⟨d, hd, hlost⟩ := Lifecycle.disposed_submit htaken.nonempty hf
    exact ⟨d, hd, fun d' hd' => hd'.eq_told.trans hd.eq_told.symm, hlost⟩
  · obtain ⟨hposted, -⟩ := hh.booked _ hc
    exact ⟨Ledger.drained_perm hposted, Ledger.dropped_eq_count hposted,
      fun s hs => Ledger.invalid_of_lost hposted hs⟩

/-- The submission of the first event of a window of one is queued, which is the one way it ends. -/
theorem first_event_queued : ∃ l tr x m', Client.plain.lifecycle.TakesOut l (.ofEvent 0) ∧
    Follows (l.submit Client.plain.queue ⟨0, 0, representable_zero⟩ (.drawn 3) (.ofEvent 0)).1
      (fun _ => none) tr (some x) m' ∧ x.1 = .ok (some (.drawn 3)) ∧
    ∀ d, l.Disposed Client.plain.queue ⟨0, 0, representable_zero⟩ (.drawn 3) (.ofEvent 0)
      (fun _ => none) d x m' ↔ d = .queued := by
  let now : Time.Instant := ⟨0, 0, representable_zero⟩
  let l : Lifecycle := (Client.plain.lifecycle.recordEvent now "events" ⟨0, "a", "b", .empty⟩).1
  have htaken : Client.plain.lifecycle.TakesOut l (.ofEvent 0) := .recorded now "events" _ rfl
  have hmade : Assembly.assemble (l.request (.ofEvent 0)) l.config _ l.maxPingSize (.drawn 3) now = _ :=
    assemble_of_short (by decide) short_ofFirst (by decide)
  have hassemble : (l.assemble now (.drawn 3) (.ofEvent 0)).1 =
      .tell (Assembly.notice (.ofEvent 0 (.drawn 3))) (.done (.inl (.ofEvent 0 (.drawn 3)), l)) := by
    rw [Lifecycle.assemble, hmade]
    rfl
  obtain ⟨tr, henqueue⟩ := Queue.follows_enqueue (q := Client.plain.queue)
    (p := .ofEvent 0 (.drawn 3)) rfl rfl (fun _ => none)
  let p : Ping := { Ping.ofEvent 0 (.drawn 3) with sequence := Client.plain.queue.nextSequence }
  obtain ⟨tr, hsubmit⟩ : ∃ tr, Follows (l.submit Client.plain.queue now (.drawn 3) (.ofEvent 0)).1
      (fun _ => none) tr (some (.ok (some (.drawn 3)), l, Client.plain.queue.push p))
      ((Queue.storePut p).effect fun _ => none) := by
    rw [Lifecycle.fst_submit, hassemble]
    exact ⟨_, .tell (henqueue.bind (.done _ _))⟩
  obtain ⟨d, hd, hunique, -⟩ := (disappears_only_if_invalid Client.plain).1 htaken hsubmit
  obtain rfl := hd.eq_told
  exact ⟨l, tr, _, _, htaken, hsubmit, rfl, fun d => ⟨hunique d, fun h => h ▸ hd⟩⟩

/-- Under a type that is none the event is nowhere and no count tells of it: it is neither pending nor
buffered, and none has been dropped. -/
theorem lost_uncounted : ∃ l s l' q' m' e, Client.plain.lifecycle.TakesOut l s ∧
    s.snapshot.events = [⟨0, "a", "b", .empty⟩] ∧
    Follows (l.submit Client.plain.queue ⟨0, 0, representable_zero⟩ (.drawn 3) s).1 (fun _ => none) []
      (some (.error (.assembly e), l', q')) m' ∧
    (∀ k, m' k = none) ∧ q'.pings = [] ∧ l'.buffer.events s.documentType = [] ∧
    l'.droppedOversized = Client.plain.lifecycle.droppedOversized := by
  let now : Time.Instant := ⟨0, 0, representable_zero⟩
  let taken := Client.plain.lifecycle.recordEvent now "Not/Valid" ⟨0, "a", "b", .empty⟩
  let s : Lifecycle.Submission := { Lifecycle.Submission.ofEvent 0 with documentType := "Not/Valid" }
  have hinvalid : ¬ Submission.IsDocumentType s.documentType := by decide
  have hsubmit : Follows (taken.1.submit Client.plain.queue now (.drawn 3) s).1 (fun _ => none) []
      (some (.error (.assembly (.invalidDocumentType "Not/Valid")), taken.1, Client.plain.queue))
      (fun _ => none) := by
    rw [Lifecycle.fst_submit, Lifecycle.assemble_of_invalid hinvalid]
    exact .done _ _
  exact ⟨taken.1, s, _, _, _, _, .recorded now "Not/Valid" _ rfl, rfl, hsubmit, fun _ => rfl, rfl, rfl, rfl⟩

end PingDelivery
