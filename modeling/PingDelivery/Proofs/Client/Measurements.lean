import Mathlib.Data.List.Perm.Basic
import PingDelivery.Proofs.Buffer
import PingDelivery.Proofs.Client.Ledger
import PingDelivery.Proofs.Client.Steps

/-! # Measurements are neither lost nor sent twice

Each step of a client is worth at most two entries of the ledger, and its books follow them: that is
what `posted_act` and `posted_resume` say of the steps that do not ask the queue and of those that
do. A process begins with empty books, so along every history its books are those of its ledger,
whatever steps of other calls stand between the three steps of a submission.
-/

namespace PingDelivery
open Store Upload

/-- The moments since the process began, the latest first. -/
def life (h : List Moment) : List Moment := h.takeWhile (·.before.client.isSome)

namespace Client

def submissions (c : Client) : List Lifecycle.Submission := c.held.map (·.submission)

def books (c : Client) : Books := ⟨c.lifecycle.buffer.events, c.submissions, c.lifecycle.droppedOversized⟩

/-- The entry of a submission that is taken out. -/
def takenOut (c : Client) (s : Lifecycle.Submission) : Entry :=
  .drained s (c.submissions.all (·.documentType ≠ s.documentType))

/-- The entries of a step, the latest first. -/
def entries (c : Client) (reply : Reply) : Action → List Entry
  | .recordEvent now ping e =>
    ((c.lifecycle.recordEvent now ping e).2.map c.takenOut).toList ++ [.recorded ping e]
  | .drain now ping reason => ((c.lifecycle.drain now ping reason).2.map c.takenOut).toList
  | .assemble i now fresh =>
    match c.held[i]? with
    | some ⟨s, .drained⟩ =>
      match (Assembly.assemble (c.lifecycle.request s) c.lifecycle.config s.snapshot
        c.lifecycle.maxPingSize fresh now).1 with
      | .ok _ => []
      | .error (.payloadTooLarge ..) => [.oversized s]
      | .error _ => [.rejected s]
    | _ => []
  | .enqueue i _ =>
    match c.held[i]?, reply with
    | some ⟨s, .assembled p⟩, some (.ok .accepted) => [.sent p s]
    | _, _ => []
  | .takeBack i _ =>
    match c.held[i]? with
    | some ⟨s, .refused _⟩ => [.restored s]
    | _ => []
  | _ => []

end Client

def Moment.entries (t : Moment) : List Entry :=
  match t.before.client, t.deed with
  | some c, .act a => c.entries t.reply a
  | _, _ => []

/-- The ledger of the process that is there now. -/
def ledger (h : List Moment) : List Entry := (life h).flatMap Moment.entries

/-- A submission on its way has something in it, and the ping made of it is its own. -/
structure Held.Sound (x : Held) : Prop where
  nonempty : x.submission.snapshot.isEmpty = false
  carries : ∀ p, x.stage = .assembled p → p.Carries x.submission

def Client.Sound (c : Client) : Prop := ∀ x ∈ c.held, x.Sound

/-! ## Submissions under way -/

theorem submissions_perm {l : List Held} {i : Nat} {x : Held} (h : l[i]? = some x) :
    (l.map (·.submission)).Perm (x.submission :: (l.eraseIdx i).map (·.submission)) := by
  obtain ⟨hi, rfl⟩ := List.getElem?_eq_some_iff.1 h
  exact ((List.getElem_cons_eraseIdx_perm hi).map (·.submission)).symm

/-- A submission that only goes on to its next stage is still the same. -/
theorem submissions_set {l : List Held} {i : Nat} {x y : Held} (h : l[i]? = some x)
    (hy : y.submission = x.submission) :
    (l.set i y).map (·.submission) = l.map (·.submission) := by
  obtain ⟨hi, rfl⟩ := List.getElem?_eq_some_iff.1 h
  rw [List.map_set, hy]
  refine List.ext_getElem? ?_
  intro j
  rw [List.getElem?_set]
  split
  · rename_i hij
    subst hij
    rw [List.length_map, if_pos hi, List.getElem?_map, List.getElem?_eq_getElem hi]
    rfl
  · rfl

namespace Client
variable {c : Client}

theorem Sound.set (h : c.Sound) {i : Nat} {x y : Held} (hx : c.held[i]? = some x)
    (hy : x.Sound → y.Sound) : ∀ z ∈ c.held.set i y, z.Sound := by
  intro z hz
  rcases List.mem_or_eq_of_mem_set hz with hz | rfl
  · exact h z hz
  · exact hy (h x (List.mem_of_getElem? hx))

theorem Sound.erase (h : c.Sound) (i : Nat) : ∀ z ∈ c.held.eraseIdx i, z.Sound := fun z hz =>
  h z (List.mem_of_mem_eraseIdx hz)

/-- The books of a step follow its entries, and what is under way stays sound. -/
structure Booked (c : Client) (es : List Entry) (c' : Client) : Prop where
  posted : c.books.Posted es c'.books
  sound : c'.Sound

theorem Booked.same {c' : Client} (h : c.Sound) (hl : c'.lifecycle.buffer.events =
      c.lifecycle.buffer.events) (hdropped : c'.lifecycle.droppedOversized = c.lifecycle.droppedOversized)
    (hheld : c'.held = c.held) : c.Booked [] c' := by
  constructor
  · have hbooks : c'.books = c.books := by
      rw [books, books, hl, hdropped, submissions, submissions, hheld]
    exact hbooks ▸ .nil
  · rw [Sound, hheld]
    exact h

/-- A submission goes on to its next stage. -/
theorem Booked.advanced {i : Nat} {s : Lifecycle.Submission} {stage stage' : Stage} (h : c.Sound)
    (hi : c.held[i]? = some ⟨s, stage⟩) (hstage : ∀ p, stage' = .assembled p → p.Carries s) :
    c.Booked [] { c with held := c.held.set i ⟨s, stage'⟩ } := by
  constructor
  · have hbooks : books { c with held := c.held.set i ⟨s, stage'⟩ } = c.books := by
      rw [books, books, submissions, submissions, submissions_set (y := ⟨s, stage'⟩) hi rfl]
    exact hbooks ▸ .nil
  · exact h.set hi fun hx => ⟨hx.nonempty, hstage⟩

/-- A submission ends, with what that does to the books. -/
theorem Booked.released {e : Entry} {i : Nat} {s : Lifecycle.Submission} {stage : Stage}
    {l : Lifecycle} (h : c.Sound) (hi : c.held[i]? = some ⟨s, stage⟩)
    (he : ∀ l', c.submissions.Perm (s :: l') →
      c.books.Enters e ⟨l.buffer.events, l', l.droppedOversized⟩) :
    c.Booked [e] (c.release i l) :=
  ⟨.cons .nil (he _ (submissions_perm hi)), h.erase i⟩

/-- A submission that is taken out joins those under way. -/
theorem Booked.joined {es : List Entry} {l : Lifecycle} {s : Lifecycle.Submission} {b : Books}
    (h : c.Sound) (hb : c.books.Posted es b) (hunder : b.underway = c.submissions)
    (hevents : s.snapshot.events = b.buffered s.documentType)
    (hbuffered : l.buffer.events = Function.update b.buffered s.documentType [])
    (hdropped : l.droppedOversized = b.dropped) (hs : s.snapshot.isEmpty = false) :
    c.Booked (c.takenOut s :: es) (c.hold l (some s)) := by
  constructor
  · refine .cons hb ?_
    have hheld : (c.hold l (some s)).submissions.Perm (s :: b.underway) := by
      rw [submissions, hold, List.map_append, hunder]
      exact List.perm_append_comm
    have hentry := Books.Enters.drained hevents hheld
    rw [← hbuffered, ← hdropped] at hentry
    rw [takenOut, ← hunder]
    exact hentry
  · intro x hx
    rcases List.mem_append.1 hx with hx | hx
    · exact h x hx
    · cases List.mem_singleton.1 hx
      exact ⟨hs, fun p hp => by cases hp⟩

theorem hold_none (c : Client) (l : Lifecycle) : c.hold l none = { c with lifecycle := l } := by
  rw [hold, Option.map_none, Option.toList_none, List.append_nil]

theorem booked_recordEvent (h : c.Sound) (now : Time.Instant) (ping : String) (e : Event) :
    c.Booked (c.entries none (.recordEvent now ping e))
      (c.hold (c.lifecycle.recordEvent now ping e).1 (c.lifecycle.recordEvent now ping e).2) := by
  let after : Books :=
    { c.books with buffered := Function.update c.books.buffered ping (c.books.buffered ping ++ [e]) }
  have hrecorded : c.books.Enters (.recorded ping e) after := .recorded ping e
  rcases c.lifecycle.buffer.events_recordEvent now ping e c.lifecycle.config.maxEvents with
    ⟨b, hb, hevents⟩ | ⟨b, s, hb, hs, hevents⟩
  · have hl : c.lifecycle.recordEvent now ping e = ({ c.lifecycle with buffer := b }, none) := by
      rw [Lifecycle.recordEvent, hb]
      rfl
    rw [entries, hl, hold_none]
    refine ⟨.cons .nil ?_, h⟩
    have hbooks : books { c with lifecycle := { c.lifecycle with buffer := b } } = after :=
      congrArg (fun f => Books.mk f c.submissions c.lifecycle.droppedOversized) hevents
    exact hbooks ▸ hrecorded
  · have hl : c.lifecycle.recordEvent now ping e = ({ c.lifecycle with buffer := b },
        some ⟨ping, some Lifecycle.capacityReason, s⟩) := by
      rw [Lifecycle.recordEvent, hb]
      rfl
    rw [entries, hl]
    have hall : s.events = after.buffered ping := by
      change s.events = Function.update c.books.buffered ping _ ping
      rw [hs, Function.update_self]
      rfl
    have hnone : b.events = Function.update after.buffered ping [] := by
      change b.events = Function.update (Function.update c.books.buffered ping _) ping []
      rw [hevents, Function.update_idem]
      rfl
    have hne : s.events.isEmpty = false := by
      rw [hs]
      exact List.isEmpty_eq_false_iff.2 (List.append_ne_nil_of_right_ne_nil _ (List.cons_ne_nil _ _))
    refine .joined h (.cons .nil hrecorded) rfl hall hnone rfl ?_
    rw [Snapshot.isEmpty, hne, Bool.and_false]

theorem booked_drain (h : c.Sound) (now : Time.Instant) (ping : String) (reason : Option String) :
    c.Booked (c.entries none (.drain now ping reason))
      (c.hold (c.lifecycle.drain now ping reason).1 (c.lifecycle.drain now ping reason).2) := by
  rcases c.lifecycle.buffer.events_take now ping with htake | ⟨b, s, htake, hne, hs, hevents⟩
  · have hl : c.lifecycle.drain now ping reason = (c.lifecycle, none) := by
      rw [Lifecycle.drain, htake]
      rfl
    rw [entries, hl, hold_none]
    exact .same h rfl rfl rfl
  · have hl : c.lifecycle.drain now ping reason =
        ({ c.lifecycle with buffer := b }, some ⟨ping, reason, s⟩) := by
      rw [Lifecycle.drain, htake]
      rfl
    rw [entries, hl]
    exact .joined h .nil rfl hs hevents rfl hne

theorem booked_assemble (h : c.Sound) (i : Nat) (now : Time.Instant) (fresh : Uuid) :
    Quiet (c.Booked (c.entries none (.assemble i now fresh))) (c.act (.assemble i now fresh)) := by
  have hsame : c.Booked [] c := .same h rfl rfl rfl
  cases hi : c.held[i]? with
  | none =>
    simp only [entries, act, hi]
    exact .done hsame
  | some x =>
    obtain ⟨s, stage⟩ := x
    cases stage with
    | assembled p =>
      simp only [entries, act, hi]
      exact .done hsame
    | refused e =>
      simp only [entries, act, hi]
      exact .done hsame
    | drained =>
      simp only [entries, act, hi]
      have hassembled := c.lifecycle.assembled now fresh s
      generalize (Assembly.assemble (c.lifecycle.request s) c.lifecycle.config s.snapshot
        c.lifecycle.maxPingSize fresh now).1 = r at hassembled ⊢
      generalize (c.lifecycle.assemble now fresh s).1 = program at hassembled ⊢
      cases hassembled with
      | made hp =>
        refine .tell (fun _ _ => Notice.noConfusion) (.done (.advanced h hi ?_))
        intro p hstage
        cases hstage
        rw [hp]
        exact ⟨_, _, rfl, rfl⟩
      | oversized t size limit =>
        exact .tell (fun _ _ => Notice.noConfusion) (.done (.released h hi fun l hl => .oversized hl))
      | invalid hinvalid t => exact .done (.released h hi fun l hl => .rejected hl hinvalid)
      | empty hempty t =>
        rw [(h _ (List.mem_of_getElem? hi)).nonempty] at hempty
        cases hempty

theorem booked_takeBack (h : c.Sound) (i : Nat) (now : Time.Instant) :
    Quiet (c.Booked (c.entries none (.takeBack i now))) (c.act (.takeBack i now)) := by
  have hsame : c.Booked [] c := .same h rfl rfl rfl
  cases hi : c.held[i]? with
  | none =>
    simp only [entries, act, hi]
    exact .done hsame
  | some x =>
    obtain ⟨s, stage⟩ := x
    cases stage with
    | assembled p =>
      simp only [entries, act, hi]
      exact .done hsame
    | drained =>
      simp only [entries, act, hi]
      exact .done hsame
    | refused e =>
      simp only [entries, act, hi]
      refine .done (.released h hi ?_)
      intro l hl
      rw [Lifecycle.takeBack, Buffer.events_restore]
      exact .restored hl

/-- A step that does not ask the queue. -/
theorem booked_act (h : c.Sound) (a : Action) : Quiet (c.Booked (c.entries none a)) (c.act a) := by
  have hsame : c.Booked [] c := .same h rfl rfl rfl
  cases a with
  | setMetric now ping id m =>
    exact .done (.same h (Buffer.events_setMetric _ _ _ _ _) rfl rfl)
  | addToCounter now ping id n =>
    exact .done (.same h (Buffer.events_addToCounter _ _ _ _ _) rfl rfl)
  | recordEvent now ping e => exact .done (booked_recordEvent h now ping e)
  | drain now ping reason => exact .done (booked_drain h now ping reason)
  | assemble i now fresh => exact booked_assemble h i now fresh
  | takeBack i now => exact booked_takeBack h i now
  | enqueue i passed =>
    have hnone : c.entries none (.enqueue i passed) = [] := by
      simp only [entries]
      split
      · rename_i hreply
        cases hreply
      · rfl
    rw [hnone]
    exact .done hsame
  | look i passed =>
    simp only [entries, act]
    split
    · split
      · exact .done (.same h rfl rfl rfl)
      · exact .done hsame
    · exact .done hsame
  | answer i o =>
    simp only [entries, act]
    split
    · exact .done (.same h rfl rfl rfl)
    · exact .done hsame
  | abandon i =>
    simp only [entries, act]
    split
    · exact .done (.same h rfl rfl rfl)
    · exact .done hsame
  | _ => exact .done (.same h rfl rfl rfl)

/-- A run's step leaves the books alone. -/
theorem booked_follow (h : c.Sound) (i : Nat) {P : Run.Phase × Desk → Prop} {step : Run.Step}
    (hstep : Quiet P step) : Quiet (c.Booked []) (c.follow i step) :=
  hstep.bind fun _ _ => .done (.same h rfl rfl rfl)

theorem booked_enqueued (h : c.Sound) {i : Nat} {passed : Bool} {p : Ping}
    {s : Lifecycle.Submission} (hi : c.held[i]? = some ⟨s, .assembled p⟩)
    {reply : Except QueueError Queue.Reply} (hok : ∀ x, reply = .ok x → x = .accepted) :
    Quiet (c.Booked (c.entries (some reply) (.enqueue i passed)))
      (c.resume reply (.enqueue i passed)) := by
  cases reply with
  | error e =>
    simp only [entries, resume, hi]
    exact .tell (fun _ _ => Notice.noConfusion) (.done (.advanced h hi fun p hp => by cases hp))
  | ok x =>
    obtain rfl := hok x rfl
    simp only [entries, resume, hi]
    have hcarries := (h _ (List.mem_of_getElem? hi)).carries p rfl
    exact .done (.released h hi fun l hl => .sent hl hcarries)

/-- A step that asks the queue, after the queue's reply. -/
theorem booked_resume (h : c.Sound) {a : Action} {passed : Bool} {r : Queue.Request}
    {reply : Except QueueError Queue.Reply} (hasks : c.asks a = some (passed, r))
    (hok : ∀ p x, r = .enqueue p → reply = .ok x → x = .accepted) :
    Quiet (c.Booked (c.entries (some reply) a)) (c.resume reply a) := by
  have hsame : c.Booked [] c := .same h rfl rfl rfl
  cases a with
  | request passed' r' => exact .done hsame
  | enqueue i passed' =>
    simp only [asks] at hasks
    split at hasks
    · rename_i s p hi
      cases hasks
      exact booked_enqueued h hi fun x => hok p x rfl
    · cases hasks
  | look i passed' =>
    simp only [resume]
    split
    · exact booked_follow h i (quiet_looked _ _ _)
    · exact .done hsame
  | settle i passed' =>
    simp only [resume]
    split
    · exact booked_follow h i (quiet_settled _ _ _ _ _)
    · exact .done hsame
  | _ => cases hasks

theorem entries_setQueue (q : Queue) (reply : Reply) (a : Action) :
    (c.setQueue q).entries reply a = c.entries reply a := by
  cases a <;> rfl

/-- **Every step is booked.** -/
theorem booked_perform (h : c.Sound) {a : Action} {m m' : Content} {tr : List Observed} {r : Reply}
    {c' : Client} (hf : Follows (c.perform a) m tr (some (r, c')) m') :
    c.Booked (c.entries r a) c' := by
  unfold perform at hf
  split at hf
  · rename_i passed request hasks
    rcases hf.of_bind with ⟨hout, -⟩ | ⟨⟨reply, q⟩, tr₁, tr₂, m₁, hq, hrest, -⟩
    · cases hout
    · obtain ⟨hattended, -⟩ := Queue.attended_of_follows hq
      have hok (p : Ping) (x : Queue.Reply) (hp : request = .enqueue p) (hx : reply = .ok x) :
          x = .accepted := by
        subst hp hx
        exact hattended.enqueued
      have hsound : (c.setQueue q).Sound := h
      have hquiet : Quiet (fun y : Reply × Client => y.1 = some reply ∧
          c.Booked (c.entries (some reply) a) y.2)
          (((c.setQueue q).resume reply a).bind fun c' => .done (some reply, c')) :=
        (booked_resume (c := c.setQueue q) hsound hasks hok).bind fun c' hc' => by
          rw [entries_setQueue] at hc'
          exact .done ⟨rfl, hc'.posted, hc'.sound⟩
      obtain ⟨-, -, hout⟩ := hquiet.follows hrest
      obtain ⟨rfl, hbooked⟩ := hout _ rfl
      exact hbooked
  · have hquiet : Quiet (fun y : Reply × Client => y.1 = none ∧ c.Booked (c.entries none a) y.2)
        ((c.act a).bind fun c' => .done (none, c')) :=
      (booked_act h a).bind fun c' hc' => .done ⟨rfl, hc'⟩
    obtain ⟨-, -, hout⟩ := hquiet.follows hf
    obtain ⟨rfl, hbooked⟩ := hout _ rfl
    exact hbooked

end Client

/-! ## Along a history -/

theorem life_cons_some {t : Moment} {c : Client} (h : List Moment) (hc : t.before.client = some c) :
    life (t :: h) = t :: life h := by
  rw [life, List.takeWhile_cons, hc]
  rfl

theorem life_cons_none {t : Moment} (h : List Moment) (hc : t.before.client = none) :
    life (t :: h) = [] := by
  rw [life, List.takeWhile_cons, hc]
  rfl

theorem ledger_cons {t : Moment} {c : Client} (h : List Moment) (hc : t.before.client = some c) :
    ledger (t :: h) = t.entries ++ ledger h := by
  rw [ledger, life_cons_some h hc, List.flatMap_cons, ledger]

theorem ledger_of_silent {t : Moment} {c : Client} {h : List Moment} (hc : t.before.client = some c)
    (ht : t.entries = []) : ledger (t :: h) = ledger h := by
  rw [ledger_cons h hc, ht, List.nil_append]

/-- The books of the process are those of its ledger. -/
def World.Booked (h : List Moment) (w : World) : Prop :=
  ∀ c, w.client = some c → Books.opened.Posted (ledger h) c.books ∧ c.Sound

theorem World.Booked.step {h : List Moment} {t : Moment} (hw : t.before.Booked h)
    (ht : t.Happens) : t.after.Booked (t :: h) := by
  intro c' hc'
  cases ht.lives hc' with
  | @acted c a r hc hd hreply hf =>
    obtain ⟨hposted, hsound⟩ := hw c hc
    obtain ⟨hposted', hsound'⟩ := Client.booked_perform hsound hf
    have hentries : t.entries = c.entries r a := by
      rw [Moment.entries, hc, hd, hreply]
    rw [ledger_cons h hc, hentries]
    exact ⟨hposted.append hposted', hsound'⟩
  | opened hc _ _ _ hcreated =>
    subst hcreated
    have hledger : ledger (t :: h) = [] := by
      rw [ledger, life_cons_none h hc]
      rfl
    exact ⟨hledger ▸ .nil, fun x hx => by cases hx⟩
  | idle hc hm hacts =>
    have hentries : t.entries = [] := by
      rw [Moment.entries]
      split
      · rename_i hd
        exact absurd hd (hacts _)
      · rfl
    rw [ledger_of_silent hc hentries]
    exact hw c' hc

theorem History.booked {m₀ : Content} {h : List Moment} {w : World}
    (hh : History ⟨m₀, none⟩ h w) : w.Booked h := by
  induction hh with
  | start => exact fun c hc => by cases hc
  | next _ ht ih => exact ih.step ht

/-! ## Sent pings -/

theorem mem_sent {es : List Entry} {p : Ping} {s : Lifecycle.Submission}
    (h : (p, s) ∈ Ledger.sent es) : .sent p s ∈ es := by
  obtain ⟨e, he, heq⟩ := List.mem_filterMap.1 h
  cases e with
  | sent p' s' =>
    cases heq
    exact he
  | _ => cases heq

/-- A ping is put down as sent when its enqueue has returned `Ok`. -/
theorem Client.reply_of_sent {c : Client} {r : Client.Reply} {a : Client.Action} {p : Ping}
    {s : Lifecycle.Submission} (h : .sent p s ∈ c.entries r a) :
    (∃ passed, c.asks a = some (passed, .enqueue p)) ∧ r = some (.ok .accepted) := by
  cases a with
  | enqueue i passed =>
    simp only [entries] at h
    split at h
    · rename_i s' p' hi
      cases List.mem_singleton.1 h
      refine ⟨⟨passed, ?_⟩, rfl⟩
      rw [asks, hi]
    · cases h
  | recordEvent now ping e =>
    rcases List.mem_append.1 h with h | h
    · obtain ⟨s', -, heq⟩ := Option.map_eq_some_iff.1 (Option.mem_toList.1 h)
      cases heq
    · cases List.mem_singleton.1 h
  | drain now ping reason =>
    obtain ⟨s', -, heq⟩ := Option.map_eq_some_iff.1 (Option.mem_toList.1 h)
    cases heq
  | assemble i now fresh =>
    simp only [entries] at h
    split at h
    · split at h
      · cases h
      · cases List.mem_singleton.1 h
      · cases List.mem_singleton.1 h
    · cases h
  | takeBack i now =>
    simp only [entries] at h
    split at h
    · cases List.mem_singleton.1 h
    · cases h
  | _ => cases h

theorem returned_of_sent {h : List Moment} {p : Ping} {s : Lifecycle.Submission}
    (hs : (p, s) ∈ Ledger.sent (ledger h)) : ∃ t ∈ h, t.returned? = some p := by
  obtain ⟨t, ht, hsent⟩ := List.mem_flatMap.1 (mem_sent hs)
  refine ⟨t, (List.takeWhile_sublist _).subset ht, ?_⟩
  unfold Moment.entries at hsent
  split at hsent
  · rename_i c a hc hd
    obtain ⟨⟨passed, hasks⟩, hreply⟩ := Client.reply_of_sent hsent
    have hreq : t.request = some (.enqueue p) := by
      rw [Moment.request_of_act hc hd, hasks]
      rfl
    rw [Moment.returned?, hreq]
    exact if_pos hreply
  · cases hsent

/-- **No measurement is lost or sent twice.** In every process, after any steps of any number of
calls in any order, with store calls failing anywhere, the events recorded for a ping are those
buffered, those of the submissions under way, those of the pings that the queue took and those
dropped for their size, each exactly once. Where no submission of the ping was taken out while
another was under way, in particular where the calls do not overlap, the order holds too. -/
theorem measurements_accounted {m₀ : Content} {h : List Moment} {w : World} {c : Client}
    {ping : String} (hh : History ⟨m₀, none⟩ h w) (hc : w.client = some c)
    (hping : Submission.IsDocumentType ping) :
    (Ledger.recorded ping (ledger h)).Perm
      (c.lifecycle.buffer.events ping ++ Ledger.events (Ledger.ofPing ping c.submissions) ++
        Ledger.events (Ledger.ofPing ping ((Ledger.sent (ledger h)).map (·.2))) ++
        Ledger.events (Ledger.ofPing ping (Ledger.oversized (ledger h)))) ∧
    c.lifecycle.droppedOversized = (Ledger.oversized (ledger h)).length ∧
    (∀ p s, (p, s) ∈ Ledger.sent (ledger h) →
      p.documentType = s.documentType ∧ p.Carries s ∧ ∃ t ∈ h, t.returned? = some p) ∧
    (Ledger.OneByOne ping (ledger h) →
      Ledger.events (Ledger.outstanding ping (ledger h)).reverse ++ c.lifecycle.buffer.events ping =
        Ledger.recorded ping (ledger h)) := by
  obtain ⟨hposted, -⟩ := hh.booked c hc
  refine ⟨Ledger.recorded_perm hposted hping, Ledger.dropped_eq hposted, ?_,
    Ledger.outstanding_append hposted⟩
  intro p s hs
  have hcarries := Ledger.carries_of_sent hposted hs
  exact ⟨hcarries.documentType, hcarries, returned_of_sent hs⟩

/-- The first event of a window of one is taken out at once, and is under way. -/
theorem one_event_accounted : ∃ h w c, History ⟨fun _ => none, none⟩ h w ∧ w.client = some c ∧
    c.lifecycle.buffer.events "events" = [] ∧
    (Ledger.recorded "events" (ledger h)).Perm (Ledger.events c.submissions) ∧
    Ledger.recorded "events" (ledger h) = [⟨0, "a", "b", .empty⟩] := by
  obtain ⟨tr, hopen⟩ := happens_open_nil
  have hrecord := happens_act (c := .plain)
    (a := .recordEvent ⟨0, 0, by decide⟩ "events" ⟨0, "a", "b", .empty⟩) (fun _ => none) rfl rfl
  have hh := (History.start.next hopen).next hrecord
  obtain ⟨hperm, -⟩ := measurements_accounted hh rfl
    (by decide : Submission.IsDocumentType "events")
  exact ⟨_, _, _, hh, rfl, rfl, hperm, rfl⟩

end PingDelivery
