import PingDelivery.Proofs.Client.Delivery
import PingDelivery.Proofs.Client.Measurements
import PingDelivery.Proofs.Client.Returns
import PingDelivery.Proofs.Text.Characters

/-! # What stands in the headers

A header value is written out as it is, so a line break in it would end the header. Apart from the date,
only the user agent and the tag are not fixed. They are checked when a client is set up, stamped on pings,
written to records and read back by other processes; nothing checks them again when a request is built.
So the promise rests on where pending pings come from: whatever is read back was made by an assembler, or
a caller handed it in.
-/

namespace PingDelivery
open Store Upload

/-! ## Text without control characters -/

open Text (Printable)

theorem Sendable.printable {s : String} (h : Sendable s) : Printable s :=
  Text.printable_iff_all.2 h.2

theorem Text.printable_padded (width n : Nat) : Printable (String.ofList (padded width n)) := by
  intro c hc
  rw [String.toList_ofList] at hc
  exact isControl_of_isDigit (Time.Rfc3339.isDigit_of_mem_padded hc)

theorem Time.Rfc2822.printable_write (t : Instant) : Printable (write t) := by
  have hweekday := Text.printable_getD (l := weekdays) (by decide) (Date.weekday t.days)
  have hmonth := Text.printable_getD (l := months) (by decide) (t.date.month - 1)
  have hbetween : Printable ", " ∧ Printable " " ∧ Printable ":" ∧ Printable " +0000" := by decide
  simp only [write, Text.printable_append, hweekday, hmonth, hbetween, Text.printable_toString,
    Text.printable_padded, and_self]

/-! ## The headers of a request -/

namespace Upload

theorem isControl_of_isTagChar {c : Char} (h : isTagChar c = true) : Text.isControl c = false := by
  rw [isTagChar, Bool.or_eq_true, beq_iff_eq] at h
  rcases h with h | rfl
  · exact Text.isControl_of_isAlphanum h
  · decide

/-- No value ends its header, the user agent is there, and a tag is one. -/
structure Contained (headers : Dict String) : Prop where
  values : ∀ e ∈ headers.entries, Printable e.2
  agent : ∃ a, headers.get? "User-Agent" = some a ∧ a.toList ≠ []
  tag : ∀ v, headers.get? Request.tagHeader = some v → 1 ≤ v.toList.length ∧ v.toList.length ≤ 20 ∧
    ∀ c ∈ v.toList, isTagChar c = true

/-- The text of a tag can stand in a header. -/
theorem printable_of_tag (t : Tag) : Printable t.text := fun c hc =>
  isControl_of_isTagChar (List.all_eq_true.1 t.allowed c hc)

theorem tag_of_tagFor {c₁ c₂ : Configuration} {p : Ping} {v : String}
    (hp : p.metadata.tag = c₁.tag.map (·.text)) (h : Request.tagFor c₂ p = some v) :
    ∃ t : Tag, t.text = v := by
  rw [Request.tagFor, hp, ← Option.map_or] at h
  obtain ⟨t, -, ht⟩ := Option.map_eq_some_iff.1 h
  exact ⟨t, ht⟩

theorem mem_of_mem_foldl {l : List (String × String)} {d : Dict String} {e : String × String}
    (h : e ∈ (l.foldl (fun d p => d.insert p.1 p.2) d).entries) : e ∈ d.entries ∨ e ∈ l := by
  induction l generalizing d with
  | nil => exact .inl h
  | cons p l ih =>
    rcases ih h with h | h
    · exact (Dict.mem_place h).elim (fun heq => .inr (heq ▸ List.mem_cons_self)) .inl
    · exact .inr (List.mem_cons_of_mem p h)

theorem mem_of_mem_ofList {l : List (String × String)} {e : String × String}
    (h : e ∈ (Dict.ofList l).entries) : e ∈ l := (mem_of_mem_foldl h).resolve_left List.not_mem_nil

/-- A request for a ping that was stamped by a configuration, under any other. -/
theorem contained_headersFor {c₁ : Configuration} {p : Ping}
    (hagent : p.metadata.userAgent = c₁.userAgent) (htag : p.metadata.tag = c₁.tag.map (·.text))
    (c₂ : Configuration) (compress : Bool) (now : Time.Instant) :
    Contained (Request.headersFor c₂ compress now p) := by
  have hget := Request.get?_headersFor c₂ compress now p
  refine ⟨fun e he => ?_, ⟨c₁.userAgent, ?_, c₁.userAgent_sendable.1⟩, fun v hv => ?_⟩
  · rcases List.mem_append.1 (mem_of_mem_ofList he) with he | he
    · rcases List.mem_append.1 he with he | he
      · simp only [Request.fixedHeaders, hagent, List.mem_cons, List.not_mem_nil, or_false] at he
        rcases he with rfl | rfl | rfl | rfl | rfl
        · exact (by decide : Printable "application/json; charset=utf-8")
        · exact Time.Rfc2822.printable_write now
        · exact c₁.userAgent_sendable.printable
        · exact (by decide : Printable programName)
        · exact (by decide : Printable programVersion)
      · split at he
        · cases he
        · rename_i v hv
          obtain rfl := List.mem_singleton.1 he
          obtain ⟨t, rfl⟩ := tag_of_tagFor htag hv
          exact printable_of_tag t
    · split at he
      · obtain rfl := List.mem_singleton.1 he
        exact (by decide : Printable "gzip")
      · cases he
  · rw [hget, if_neg (by decide), if_neg (by decide), if_neg (by decide), hagent]
    simp [stampedHeaders, Dict.ofList]
  · rw [hget, if_neg (by decide), if_pos rfl] at hv
    obtain ⟨t, rfl⟩ := tag_of_tagFor htag hv
    exact ⟨List.length_pos_iff.2 t.nonempty, t.length_le, List.all_eq_true.1 t.allowed⟩

end Upload

/-! ## Where pending pings come from -/

/-- An assembler makes such a ping under its id. -/
def Ping.Made (p : Ping) : Prop :=
  ∃ (r : Assembly.Request) (c : Configuration) (s : Snapshot) (made : Time.Instant),
    p.content = (Assembly.ping r c s p.id made).content

/-- When it was made does not matter. -/
theorem Ping.Made.congr {p p' : Ping} (hp : p.Made) (h : p'.lasting = p.lasting) : p'.Made := by
  obtain ⟨r, c, s, made, hmade⟩ := hp
  obtain ⟨hid, hcontent⟩ : p'.id = p.id ∧ p'.settled.content = p.settled.content := Prod.ext_iff.1 h
  refine ⟨r, c, s, p'.createdAt, ?_⟩
  rw [hid]
  simp only [content, settled, Content.mk.injEq] at hcontent hmade ⊢
  exact ⟨hcontent.1.trans hmade.1, hcontent.2.1.trans hmade.2.1, rfl,
    hcontent.2.2.2.trans hmade.2.2.2⟩

/-- A caller of the queue hands the ping in, and it is taken. -/
def Moment.HandsIn (t : Moment) (p : Ping) : Prop :=
  ∃ passed x, t.deed = .act (.request passed (.enqueue x)) ∧ t.accepted? = some x ∧
    x.lasting = p.lasting

/-- Nothing comes to be pending in a third way. -/
def Ping.Origin (h : List Moment) (p : Ping) : Prop := p.Made ∨ ∃ t ∈ h, t.HandsIn p

theorem Ping.Origin.congr {h : List Moment} {p p' : Ping} (hp : p.Origin h)
    (hlasting : p'.lasting = p.lasting) : p'.Origin h := by
  rcases hp with hmade | ⟨t, ht, passed, x, hd, hx, hxlasting⟩
  · exact .inl (hmade.congr hlasting)
  · exact .inr ⟨t, ht, passed, x, hd, hx, hxlasting.trans hlasting.symm⟩

theorem Ping.Origin.later {h : List Moment} {p : Ping} (hp : p.Origin h) (t : Moment) :
    p.Origin (t :: h) :=
  hp.imp_right fun ⟨t', ht', hands⟩ => ⟨t', List.mem_cons_of_mem t ht', hands⟩

/-- Whatever can be read in the store as a ping comes from somewhere. -/
def World.Traced (h : List Moment) (w : World) : Prop :=
  ∀ k x, Queue.stored? w.content k = some x → x.Origin h

/-- What a change leaves to be read was there before, but for a new ping, or a count. -/
theorem Queue.Mirror.stored_change {q q' : Queue} {r : Request} {c : Call} {reply : Reply} {m : Content}
    (hm : Mirror m q.pings) (hr : r.Fits) (hc : Change q r c q' reply) {k : String} {x : Ping}
    (hx : stored? (c.effect m) k = some x) :
    stored? m k = some x ∨ (∃ y, r = .enqueue y ∧ x.lasting = y.lasting) ∨
      ∃ y, stored? m k = some y ∧ x.lasting = y.lasting := by
  have hdeleted {id : Uuid} (hx : stored? ((storeDelete id).effect m) k = some x) :
      stored? m k = some x := by
    by_cases hk : k = Record.key id
    · rw [stored?, hk, effect_delete_self] at hx
      cases hx
    · rwa [stored_congr (effect_delete_of_ne hk)] at hx
  cases hc with
  | @pushed y _ =>
    by_cases hk : k = Record.key y.id
    · have hself := stored_put_self ((hr y rfl).numbered q.nextSequence) m
      rw [hk, hself] at hx
      cases hx
      exact .inr (.inl ⟨y, rfl, Ping.lasting_settled _⟩)
    · have hother := effect_put_of_ne (m := m) (p := { y with sequence := q.nextSequence }) hk
      exact .inl ((stored_congr hother).symm.trans hx)
  | acked _ _ => exact .inl (hdeleted hx)
  | exhausted _ _ => exact .inl (hdeleted hx)
  | @retried id y hy _ =>
    obtain ⟨hmem, rfl⟩ := id_of_find hy
    by_cases hk : k = Record.key y.id
    · have hself := stored_put_self (hm.fits hmem).attempted m
      have hkey : k = Record.key y.attempted.id := hk
      rw [hkey, hself] at hx
      cases hx
      exact .inr (.inr ⟨y.settled, hk ▸ hm.held y hmem,
        (Ping.lasting_settled _).trans (Ping.lasting_settled y).symm⟩)
    · exact .inl ((stored_congr (effect_put_of_ne (p := y.attempted) hk)).symm.trans hx)

/-- A ping that is taken was assembled by the process or is handed in at this moment. -/
theorem origin_of_accepted {h : List Moment} {t : Moment} {c : Client} {a : Client.Action}
    {passed : Bool} {p : Ping} (hc : c.Sound) (hd : t.deed = .act a)
    (hasks : c.asks a = some (passed, .enqueue p)) (hp : t.accepted? = some p) : p.Origin (t :: h) := by
  cases a with
  | request passed' r =>
    cases hasks
    exact .inr ⟨t, List.mem_cons_self, passed, p, hd, hp, rfl⟩
  | enqueue i passed' =>
    simp only [Client.asks] at hasks
    split at hasks
    · rename_i s p' hi
      cases hasks
      obtain ⟨r, c', -, hmade⟩ := (hc _ (List.mem_of_getElem? hi)).carries p rfl
      exact .inl ⟨r, c', s.snapshot, p.createdAt, congrArg Ping.content hmade⟩
    · cases hasks
  | look i passed' =>
    simp only [Client.asks] at hasks
    split at hasks
    · split at hasks <;> cases hasks
    · cases hasks
  | settle i passed' =>
    simp only [Client.asks] at hasks
    split at hasks
    · rename_i p' o s hi
      cases o <;> cases hasks
    · cases hasks
  | _ => cases hasks

theorem World.Traced.step {h : List Moment} {t : Moment} (hw : t.before.Traced h)
    (hm : t.before.Mirrored) (hb : t.before.Booked h) (ht : t.Happens) : t.after.Traced (t :: h) := by
  intro k x hx
  change Queue.stored? t.content k = some x at hx
  cases ht.course with
  | @acted c a out hc hd hf hresult =>
    obtain ⟨-, ⟨-, hcontent, -⟩ | ⟨passed, r, asked, hasks, hattended, hout⟩⟩ :=
      Client.perform_cases hf
    · rw [hcontent] at hx
      exact (hw k x hx).later t
    · rcases hattended.same_or_change with ⟨hcontent, -⟩ | ⟨call, q, reply, hchange, hcontent, hq⟩
      · rw [hcontent] at hx
        exact (hw k x hx).later t
      · rw [hcontent] at hx
        have hr : r.Fits := ht.fits r (by
          rw [Moment.request_of_act hc hd, hasks]
          rfl)
        rcases (hm c hc).stored_change hr hchange hx with hx | ⟨y, rfl, hsame⟩ | ⟨y, hy, hsame⟩
        · exact (hw k x hx).later t
        · refine (origin_of_accepted (hb c hc).2 hd hasks ?_).congr hsame
          refine accepted_of_change hc hd hasks (hm c hc) hchange hcontent hresult ?_
          intro x' c' hx'
          obtain ⟨reply', q', hasked, hreply, -⟩ := hout x' c' hx'
          rw [hreply, (hq _ _ hasked).1]
        · exact ((hw k y hy).congr hsame).later t
  | opened hc hd hf hresult =>
    obtain ⟨m₁, tr₁, opened, gone, kept, hpings, hrebuilt, -, -⟩ := opening_cases hf
    rcases hrebuilt.changed k with heq | ⟨hgone, -⟩
    · rw [Queue.stored_congr heq, hpings.stored] at hx
      exact (hw k x hx).later t
    · rw [Queue.stored?, hgone] at hx
      cases hx
  | idle hcontent _ _ _ _ =>
    rw [hcontent] at hx
    exact (hw k x hx).later t

/-- From a store without pings, whatever is pending was assembled or handed in. -/
theorem History.traced {m₀ : Content} {h : List Moment} {w : World}
    (hempty : ∀ k, Record.isPingKey k = true → m₀ k = none) (hh : History ⟨m₀, none⟩ h w) :
    w.Traced h := by
  induction hh with
  | start =>
    intro k x hx
    have hnone : m₀ k = none := hempty k (Queue.isPingKey_of_stored hx)
    change (m₀ k).bind _ = some x at hx
    rw [hnone] at hx
    cases hx
  | next hh ht ih => exact ih.step hh.mirrored hh.booked ht

/-- **No value breaks out of its header.** Whatever configurations a store has been opened with, with
crashes and restarts anywhere, the headers under which a run sends a ping are contained, unless a caller
has handed in one that no assembler made. -/
theorem headers_contained (g : Gzip) {m₀ : Content} {h : List Moment} {u : Moment} {c₂ : Configuration}
    {p : Ping} {w : Wire} (hempty : ∀ k, Record.isPingKey k = true → m₀ k = none)
    (hh : History ⟨m₀, none⟩ h u.before) (hu : u.Happens) (hsends : u.Sends g c₂ p w)
    (hown : ∀ t ∈ h, t.HandsIn p → p.Made) : p.Made ∧ Contained w.headers := by
  obtain ⟨hands, client, now, -, rfl, rfl⟩ := hsends
  obtain ⟨c, rest, hc, hpings⟩ := hands.head hu
  have hstored := (hh.mirrored c hc).held p (hpings ▸ List.mem_cons_self)
  have horigin : p.Origin h :=
    (hh.traced hempty _ p.settled hstored).congr (Ping.lasting_settled p).symm
  have hmade : p.Made := horigin.elim id fun ⟨t, ht, hin⟩ => hown t ht hin
  refine ⟨hmade, ?_⟩
  obtain ⟨r, c₁, s, made, hcontent⟩ := hmade
  have hmeta : p.metadata = Assembly.metadata r c₁ p.id := congrArg Ping.Content.metadata hcontent
  obtain ⟨zipped, body, hwire⟩ :=
    Wire.ofPing_parts g client.desk.scheduler.config client.desk.scheduler.plan.compress now p
  rw [hwire]
  exact contained_headersFor (congrArg Metadata.userAgent hmeta) (congrArg Metadata.tag hmeta) _ _ _

/-! ## The headers of a ping that has waited -/

/-- A submission is queued where the queue takes its ping. -/
theorem happens_queue {c : Client} {i : Nat} {s : Lifecycle.Submission} {p : Ping} (m : Content)
    (hi : c.held[i]? = some ⟨s, .assembled p⟩) (hp : p.Fits) (hq : c.queue.faulted = false)
    (hnew : c.queue.find? p.id = none) : ∃ tr, Moment.Happens ⟨⟨m, some c⟩, .act (.enqueue i false), tr,
      some (some (.ok .accepted), some ((c.setQueue (c.queue.push
        { p with sequence := c.queue.nextSequence })).release i c.lifecycle)),
      (Queue.storePut { p with sequence := c.queue.nextSequence }).effect m⟩ := by
  have hasks : c.asks (.enqueue i false) = some (false, .enqueue p) := by
    simp only [Client.asks, hi]
  obtain ⟨tr, henqueue⟩ := Queue.follows_enqueue hq hnew m
  let q : Queue := c.queue.push { p with sequence := c.queue.nextSequence }
  have hresume : (c.setQueue q).resume (.ok .accepted) (.enqueue i false) =
      .done ((c.setQueue q).release i c.lifecycle) := by
    simp only [Client.resume, Client.setQueue, hi]
  have hstep : Follows (c.perform (.enqueue i false)) m (tr ++ [])
      (some (some (.ok .accepted), (c.setQueue q).release i c.lifecycle))
      ((Queue.storePut { p with sequence := c.queue.nextSequence }).effect m) := by
    rw [Client.perform, hasks]
    refine henqueue.bind ?_
    simp only
    rw [hresume]
    exact .done _ _
  refine ⟨_, hstep.bind (.done _ _), fun r hr p' hp' => ?_⟩
  rw [Moment.request_of_act rfl rfl, hasks] at hr
  cases hr
  cases hp'
  exact hp

/-- A process with other settings that has found a ping, and its run. -/
def Client.found (p : Ping) (phase : Run.Phase) : Client :=
  { Client.created Opening.other.config Opening.other.settings Opening.other.fresh
      (.restored Opening.other.settings.queueConfig [p] 0 0) with runs := [phase] }

theorem sends_found (m : Content) (p : Ping) : ∃ u : Moment,
    u.before = ⟨m, some (.found p (.looking .zero))⟩ ∧ u.Happens ∧
      u.Sends .stored Opening.other.config p
        (Wire.ofPing .stored Opening.other.config true ⟨0, 0, representable_zero⟩ p) := by
  refine ⟨⟨⟨m, some (.found p (.looking .zero))⟩, .act (.look 0 false), _,
    some (some (.ok (.pings [p])), some (.found p (.uploading p .zero))), m⟩, rfl,
    ⟨.tell (.tell (.done _ _)), fun r hr => ?_⟩,
    ⟨⟨_, _, 0, false, .zero, rfl, rfl, rfl, rfl, rfl⟩, _, _, rfl, rfl, rfl⟩⟩
  cases hr
  exact fun _ h => by cases h

/-- A process that has queued a small ping ends, and the next one sends it. -/
theorem sends_after_ending {h : List Moment} {c : Client} {p : Ping}
    (hh : History ⟨fun _ => none, none⟩ h ⟨(Queue.storePut p).effect fun _ => none, some c⟩)
    (hp : c.queue.pings = [p]) (hcivil : p.createdAt.Civil) (hsize : p.size ≤ 4 * 1000) :
    ∃ (h' : List Moment) (u : Moment), History ⟨fun _ => none, none⟩ h' u.before ∧ u.Happens ∧
      u.Sends .stored Opening.other.config p
        (Wire.ofPing .stored Opening.other.config true ⟨0, 0, representable_zero⟩ p) := by
  let m : Content := (Queue.storePut p).effect fun _ => none
  have hend : Moment.Happens ⟨⟨m, some c⟩, .ending, [], some (none, none), m⟩ :=
    ⟨.done _ _, fun r hr => by cases hr⟩
  have hcontent : (Memory.ofPings [p]).records.get? = m := get?_ofPings_cons p []
  have hmirror : Queue.Mirror (Memory.ofPings [p]).records.get? [p] := by
    rw [hcontent, ← hp]
    exact hh.mirrored c rfl
  have hfits : Opening.other.settings.queueConfig.admits [p] = true := by
    have htotal : Queue.totalSize [p] ≤ 4 * 1000 := by
      rw [Queue.totalSize, List.foldr_cons, List.foldr_nil, Nat.add_zero]
      exact hsize
    have hcount : 1 ≤ Opening.other.settings.queueConfig.maxPings := by decide
    exact Bool.and_eq_true_iff.2 ⟨decide_eq_true hcount, decide_eq_true (htotal.trans (by decide))⟩
  obtain ⟨_, hreopen⟩ := happens_open (o := .other) rfl (working_ofPings [p]) hmirror
    (List.pairwise_singleton _ _) (List.forall_mem_singleton.2 hcivil) hfits
  rw [hcontent] at hreopen
  have hstart : Moment.Happens ⟨⟨m, some (.created Opening.other.config Opening.other.settings
      Opening.other.fresh (.restored Opening.other.settings.queueConfig [p] 0 0))⟩, .act .startRun, [],
      some (none, some (.found p (.looking .zero))), m⟩ := happens_act m rfl rfl
  obtain ⟨u, hbefore, hu, hsends⟩ := sends_found m p
  have hlooking : History ⟨fun _ => none, none⟩ _ ⟨m, some (.found p (.looking .zero))⟩ :=
    ((hh.next hend).next hreopen).next hstart
  exact ⟨_, u, hbefore ▸ hlooking, hu, hsends⟩

/-- A process has recorded an event and queued the ping of it, and has ended. The next one sends it under
the user agent of the first and under its own tag. -/
theorem headers_of_found : ∃ (h : List Moment) (u : Moment) (w : Wire),
    History ⟨fun _ => none, none⟩ h u.before ∧ u.Happens ∧
      u.Sends .stored Opening.other.config (.ofEvent 0 (.drawn 3)) w ∧ Contained w.headers ∧
      w.headers.get? "User-Agent" = some "agent" ∧ w.headers.get? Request.tagHeader = some "live" := by
  let now : Time.Instant := ⟨0, 0, representable_zero⟩
  let recorded : Client := Client.plain.hold
    (Client.plain.lifecycle.recordEvent now "events" ⟨0, "a", "b", .empty⟩).1 (some (.ofEvent 0))
  obtain ⟨_, hopen⟩ := happens_open_nil
  have hrecord := happens_act (c := .plain) (a := .recordEvent now "events" ⟨0, "a", "b", .empty⟩)
    (fun _ => none) rfl rfl
  have hmade : Assembly.assemble _ _ _ LifecycleSettings.standard.maxPingSize _ now = _ :=
    assemble_of_short (by decide) short_ofFirst (by decide)
  have hassemble := happens_assemble (c := recorded) (i := 0) (fun _ => none) rfl hmade
  obtain ⟨_, hqueue⟩ := happens_queue
    (c := { recorded with held := [⟨.ofEvent 0, .assembled (.ofEvent 0 (.drawn 3))⟩] }) (i := 0)
    (fun _ => none) rfl (fits_of_short (by decide) (by decide +kernel) short_ofFirst) rfl rfl
  have hqueued := (((History.start.next hopen).next hrecord).next hassemble).next hqueue
  obtain ⟨h, u, hh, hu, hsends⟩ := sends_after_ending (p := .ofEvent 0 (.drawn 3)) hqueued rfl
    (by decide) (size_of_short short_ofFirst)
  have hassembled : (Ping.ofEvent 0 (.drawn 3)).Made := ⟨Client.plain.lifecycle.request (.ofEvent 0),
    Opening.plain.config, (Lifecycle.Submission.ofEvent 0).snapshot, now, rfl⟩
  obtain ⟨-, hcontained⟩ := headers_contained .stored (fun _ _ => rfl) hh hu hsends
    fun _ _ _ => hassembled
  have hdelivers := delivers_ofPing .stored (Client.plain.lifecycle.request (.ofEvent 0))
    (Lifecycle.Submission.ofEvent 0).snapshot Opening.plain.config Opening.other.config (.drawn 3) true
    now now
  exact ⟨h, u, _, hh, hu, hsends, hcontained, hdelivers.agent, hdelivers.tag⟩

end PingDelivery
