import PingDelivery.Proofs.Twin.Sight

/-! # Debug options change no delivery

Logging payloads and tagging pings reach the log, one header and one field of the stored records. All
else stays as it is, however long the history: its decisions, counts, sizes and answers.
-/

namespace PingDelivery
open Store Upload

/-! ## Without debug options -/

def Configuration.debugged (c : Configuration) (logPings : Bool) (tag : Option Tag) : Configuration :=
  { c with logPings, tag }

def Configuration.undebugged (c : Configuration) : Configuration := c.debugged false none

def Configuration.unlogged (c : Configuration) : Configuration := { c with logPings := false }

def Ping.tagged (p : Ping) (tag : Option String) : Ping :=
  { p with metadata := { p.metadata with tag } }

def Ping.untagged (p : Ping) : Ping := p.tagged none

def Queue.Reply.untagged : Queue.Reply → Queue.Reply
  | pings l => .pings (l.map Ping.untagged)
  | r => r

def Upload.Wire.untagged (w : Wire) : Wire :=
  { w with headers := w.headers.erase Request.tagHeader }

/-! ## Histories that differ in debug options -/

/-- Two worlds that differ in tags and debug options at most. -/
structure World.Matches (w w' : World) : Prop where
  records : ∀ k, w'.content k = w.content k ∨ ∃ p p' : Ping, p'.untagged = p.untagged ∧
    w.content k = some (Record.encode p) ∧ w'.content k = some (Record.encode p')
  pending : w'.client.map (fun c => c.queue.pings.map Ping.untagged) =
    w.client.map fun c => c.queue.pings.map Ping.untagged
  status : w'.client.map Client.status = w.client.map Client.status

/-- Two moments at which the same comes about but for tags and payload traces. -/
structure Moment.Matches (t t' : Moment) : Prop where
  opens : ∀ r, t.Opens r ↔ t'.Opens r
  ended : t'.ended? = t.ended?
  reply : t'.reply.map (·.map Queue.Reply.untagged) = t.reply.map (·.map Queue.Reply.untagged)
  sent : ∀ g now, (t'.sent? g now).map Wire.untagged = (t.sent? g now).map Wire.untagged
  told : t.result.isSome → said t'.trace = said t.trace

inductive Episode.Matches : Episode → Episode → Prop where
  | moment {t t' : Moment} (h : t.Matches t') (hafter : t.after.Matches t'.after) :
      Matches (.moment t) (.moment t')
  | timeout {w w' : World} {i : Nat}
      (hafter : (Episode.timeout w i).after.Matches (Episode.timeout w' i).after) :
      Matches (.timeout w i) (.timeout w' i)

/-- Two worlds that differ in what is to be logged at most. -/
structure World.Same (w w' : World) : Prop where
  content : w'.content = w.content
  pending : w'.client.map (·.queue.pings) = w.client.map (·.queue.pings)
  status : w'.client.map Client.status = w.client.map Client.status

/-- Two moments at which the same comes about but for payload traces. -/
structure Moment.Same (t t' : Moment) : Prop where
  opens : ∀ r, t.Opens r ↔ t'.Opens r
  ended : t'.ended? = t.ended?
  reply : t'.reply = t.reply
  sent : t'.sent? = t.sent?
  seen : t.result.isSome → unlogged t'.trace = unlogged t.trace

inductive Episode.Same : Episode → Episode → Prop where
  | moment {t t' : Moment} (h : t.Same t') (hafter : t.after.Same t'.after) :
      Same (.moment t) (.moment t')
  | timeout {w w' : World} {i : Nat}
      (hafter : (Episode.timeout w i).after.Same (Episode.timeout w' i).after) :
      Same (.timeout w i) (.timeout w' i)

/-! ## Tags -/

theorem Configuration.exists_debugged {c c' : Configuration} (h : c'.undebugged = c.undebugged) :
    ∃ logPings tag, c' = c.debugged logPings tag :=
  ⟨c'.logPings, c'.tag, congrArg (·.debugged c'.logPings c'.tag) h⟩

theorem Configuration.exists_logged {c c' : Configuration} (h : c'.unlogged = c.unlogged) :
    ∃ logPings, c' = c.debugged logPings c.tag := by
  have htag : c'.unlogged.tag = c.unlogged.tag := congrArg tag h
  have heq : c' = c.debugged c'.logPings c'.tag := congrArg (·.debugged c'.logPings c'.tag) h
  exact ⟨c'.logPings, heq.trans (congrArg (c.debugged c'.logPings) htag)⟩

theorem Ping.exists_tagged {p p' : Ping} (h : p'.untagged = p.untagged) : ∃ tag, p' = p.tagged tag :=
  ⟨p'.metadata.tag, congrArg (·.tagged p'.metadata.tag) h⟩

/-- A tag is short. -/
theorem Tag.length_le_longest (t : Tag) : (Bytes.ofText t.text).length ≤ Record.longest := by
  refine Record.length_ofText_le_longest ((Nat.mul_le_mul_left 4 t.length_le).trans ?_)
  decide

theorem Ping.Fits.tagged {p : Ping} (h : p.Fits) {tag : Option Tag} :
    (p.tagged (tag.map (·.text))).Fits := by
  refine ⟨h.documentType, h.payload, ⟨h.metadata.serverEndpoint, h.metadata.path,
    h.metadata.userAgent, h.metadata.channel, fun s hs => ?_⟩⟩
  obtain ⟨t, -, rfl⟩ := Option.map_eq_some_iff.1 hs
  exact t.length_le_longest

namespace Upload

theorem Request.erase_headersFor (c c' : Configuration) (compress : Bool) (now : Time.Instant)
    (p : Ping) (tag : Option String) : (headersFor c' compress now (p.tagged tag)).erase tagHeader =
      (headersFor c compress now p).erase tagHeader := by
  refine Dict.ext_get? fun k => ?_
  rw [Dict.get?_erase, Dict.get?_erase]
  split
  · rfl
  · rename_i hk
    rw [get?_headersFor, get?_headersFor, if_neg hk, if_neg hk]
    rfl

/-- A tag reaches one header and nothing else. -/
theorem Wire.untagged_ofPing {g : Gzip} {c c' : Configuration} {compress : Bool} {now : Time.Instant}
    {p p' : Ping} (h : p'.untagged = p.untagged) :
    (ofPing g c' compress now p').untagged = (ofPing g c compress now p).untagged := by
  obtain ⟨tag, rfl⟩ := Ping.exists_tagged h
  have hheaders (compress : Bool) := Request.erase_headersFor c c' compress now p tag
  have hpayload : (p.tagged tag).payload = p.payload := rfl
  unfold ofPing
  rw [hpayload]
  split <;> simp only [untagged, hheaders] <;> rfl

end Upload

/-! ## The bonds -/

/-- Whatever tags and debug options there are. -/
def Bond.debugging : Bond where
  pings p p' := p'.untagged = p.untagged ∧ (p.Fits → p'.Fits)
  configs c c' := c'.undebugged = c.undebugged
  ids id id' := id' = id
  stored _ _ := False
  pings_refl p := ⟨rfl, id⟩
  ids_refl id := rfl
  agree h := by
    obtain ⟨tag, rfl⟩ := Ping.exists_tagged h.1
    exact ⟨rfl, rfl, rfl, rfl, rfl, rfl⟩
  pings_numbered n h := by
    obtain ⟨tag, rfl⟩ := Ping.exists_tagged h.1
    refine ⟨rfl, fun hp => ?_⟩
    obtain ⟨hdocument, hpayload, hmetadata⟩ := h.2 ⟨hp.documentType, hp.payload, hp.metadata⟩
    exact ⟨hdocument, hpayload, hmetadata⟩
  pings_settled h := by
    obtain ⟨tag, rfl⟩ := Ping.exists_tagged h.1
    exact ⟨rfl, fun hp => (h.2 (Ping.fits_of_settled hp)).settled.toFits⟩
  pings_attempted h := by
    obtain ⟨tag, rfl⟩ := Ping.exists_tagged h.1
    refine ⟨rfl, fun hp => ?_⟩
    obtain ⟨hdocument, hpayload, hmetadata⟩ := h.2 ⟨hp.documentType, hp.payload, hp.metadata⟩
    exact ⟨hdocument, hpayload, hmetadata⟩
  pings_fits h := h.2
  configs_maxEvents h := by
    obtain ⟨logPings, tag, rfl⟩ := Configuration.exists_debugged h
    rfl
  configs_applicationId h := by
    obtain ⟨logPings, tag, rfl⟩ := Configuration.exists_debugged h
    rfl
  stored_ids h := h.elim

/-- Whether payloads are logged or not. -/
def Bond.logging : Bond where
  pings p p' := p' = p
  configs c c' := c'.unlogged = c.unlogged
  ids id id' := id' = id
  stored _ _ := False
  pings_refl p := rfl
  ids_refl id := rfl
  agree h := h ▸ ⟨rfl, rfl, rfl, rfl, rfl, rfl⟩
  pings_numbered n h := h ▸ rfl
  pings_attempted h := h ▸ rfl
  pings_settled h := h ▸ rfl
  pings_fits h hp := h ▸ hp
  configs_maxEvents h := by
    obtain ⟨logPings, rfl⟩ := Configuration.exists_logged h
    rfl
  configs_applicationId h := by
    obtain ⟨logPings, rfl⟩ := Configuration.exists_logged h
    rfl
  stored_ids h := h.elim

/-! ## What is assembled -/

/-- Debug options reach an assembled ping by its tag alone. -/
theorem ping_debugged (r : Assembly.Request) (c : Configuration) (s : Snapshot) (id : Uuid)
    (now : Time.Instant) (logPings : Bool) (tag : Option Tag) :
    Assembly.ping r (c.debugged logPings tag) s id now =
      (Assembly.ping r c s id now).tagged (tag.map (·.text)) := rfl

theorem assemblesAt_debugging (t : Moment) : Bond.debugging.AssemblesAt t := by
  intro c c' a _ _ hclients i now fresh s _ _
  have hlifecycle := hclients.lifecycle
  obtain ⟨logPings, tag, hconfig⟩ := Configuration.exists_debugged hlifecycle.config
  have hmade : c'.lifecycle.made now fresh s =
      (c.lifecycle.made now fresh s).tagged (tag.map (·.text)) := by
    rw [Lifecycle.made, hlifecycle.request_eq hlifecycle.clientId, hconfig, ping_debugged]
    rfl
  exact ⟨by rw [hmade]; rfl, fun _ _ => hmade ▸ ⟨rfl, fun h => h.tagged⟩⟩

theorem assemblesAt_logging (t : Moment) : Bond.logging.AssemblesAt t := by
  intro c c' a _ _ hclients i now fresh s _ _
  have hlifecycle := hclients.lifecycle
  obtain ⟨logPings, hconfig⟩ := Configuration.exists_logged hlifecycle.config
  have hmade : c'.lifecycle.made now fresh s = c.lifecycle.made now fresh s := by
    rw [Lifecycle.made, hlifecycle.request_eq hlifecycle.clientId, hconfig]
    rfl
  exact ⟨congrArg Ping.size hmade, fun _ _ => hmade⟩

/-! ## What is seen -/

namespace Bond

section Tags

theorem map_untagged {l l' : List Ping} (h : List.Forall₂ debugging.Kept l l') :
    l'.map Ping.untagged = l.map Ping.untagged := by
  induction h with
  | nil => rfl
  | cons hp _ ih => rw [List.map_cons, List.map_cons, hp.bonded.1, ih]

theorem Responses.untagged {r r' : Client.Reply} (h : Option.Rel debugging.Responses r r') :
    r'.map (·.map Queue.Reply.untagged) = r.map (·.map Queue.Reply.untagged) := by
  cases h with
  | none => rfl
  | some h =>
    cases h with
    | error e => rfl
    | ok h =>
      cases h with
      | accepted | retry _ => rfl
      | pings hl =>
        have hmap := map_untagged hl
        simp only [Option.map_some, Except.map, Queue.Reply.untagged, hmap]

theorem Worlds.matches {w w' : World} (h : debugging.Worlds w w') : w.Matches w' := by
  obtain ⟨hcontent, hclient⟩ := h
  refine ⟨fun k => ?_, ?_, ?_⟩
  · have hk := hcontent k
    generalize w.content k = x, w'.content k = x' at hk
    cases hk with
    | same x => exact .inl rfl
    | records hp => exact .inr ⟨_, _, hp.bonded.1, rfl, rfl⟩
    | ids h => exact h.elim
  all_goals
    generalize w.client = c, w'.client = c' at hclient
    cases hclient with
    | none => rfl
    | some hc =>
      first
        | exact congrArg some (map_untagged hc.desk.queue.pings)
        | exact congrArg some hc.status_eq

theorem Alike.matches {e e' : Episode} (h : debugging.Alike e e') (he : e.Happens)
    (he' : e'.Happens) : e.Matches e' := by
  have hafter := h.after.matches
  cases h with
  | timeout h i => exact .timeout hafter
  | @moment t t' hp h =>
    refine .moment ?_ hafter
    refine ⟨h.opens_iff hp he he', h.ended_eq hp (assemblesAt_debugging t),
      Responses.untagged h.rel_reply, fun g now => ?_, fun halive => said_eq ?_ (h.sights halive)⟩
    · have hsent := h.rel_sent hp g now
      generalize t.sent? g now = x, t'.sent? g now = x' at hsent ⊢
      cases hsent with
      | none => rfl
      | some hw =>
        obtain ⟨c, c', compress, p, p', -, hp, rfl, rfl⟩ := hw
        exact congrArg some (Wire.untagged_ofPing hp.1)
    · intro p p' hp
      obtain ⟨tag, rfl⟩ := Ping.exists_tagged hp.1
      rfl

end Tags

section Logging

theorem eq_of_kept {l l' : List Ping} (h : List.Forall₂ logging.Kept l l') : l' = l := by
  induction h with
  | nil => rfl
  | cons hp _ ih => rw [ih, show _ = _ from hp.bonded]

theorem Values.eq {k : String} {x x' : Option Bytes} (h : logging.Values k x x') : x' = x := by
  cases h with
  | same => rfl
  | records hp => rw [show _ = _ from hp.bonded]
  | ids h => exact h.elim

theorem Sights.eq {o o' : Observed} (h : logging.Sights o o') : o' = o := by
  cases h with
  | told hn =>
    cases hn with
    | same => rfl
    | uploading hp => rw [show _ = _ from hp]
  | put hb r => cases hb.eq; rfl
  | read hx => rw [hx.eq]
  | same => rfl

theorem Responses.eq {r r' : Client.Reply} (h : Option.Rel logging.Responses r r') : r' = r := by
  cases h with
  | none => rfl
  | some h =>
    cases h with
    | error e => rfl
    | ok h =>
      cases h with
      | accepted | retry _ => rfl
      | pings hl => rw [eq_of_kept hl]

theorem Worlds.same {w w' : World} (h : logging.Worlds w w') : w.Same w' := by
  obtain ⟨hcontent, hclient⟩ := h
  refine ⟨funext fun k => (hcontent k).eq, ?_, ?_⟩
  all_goals
    generalize w.client = c, w'.client = c' at hclient
    cases hclient with
    | none => rfl
    | some hc =>
      first
        | exact congrArg some (eq_of_kept hc.desk.queue.pings)
        | exact congrArg some hc.status_eq

theorem Alike.same {e e' : Episode} (h : logging.Alike e e') (he : e.Happens) (he' : e'.Happens) :
    e.Same e' := by
  have hafter := h.after.same
  cases h with
  | timeout h i => exact .timeout hafter
  | @moment t t' hp h =>
    refine .moment ?_ hafter
    refine ⟨h.opens_iff hp he he', h.ended_eq hp (assemblesAt_logging t), Responses.eq h.rel_reply,
      funext fun g => funext fun now => ?_, fun halive => ?_⟩
    · have hsent := h.rel_sent hp g now
      generalize t.sent? g now = x, t'.sent? g now = x' at hsent ⊢
      cases hsent with
      | none => rfl
      | some hw =>
        obtain ⟨c, c', compress, p, p', hc, hp, rfl, rfl⟩ := hw
        cases show p' = p from hp
        obtain ⟨logPings, rfl⟩ := Configuration.exists_logged hc
        rfl
    · have hsights := h.sights halive
      generalize unlogged t.trace = l, unlogged t'.trace = l' at hsights ⊢
      induction hsights with
      | nil => rfl
      | cons hs _ ih => rw [hs.eq, ih]

end Logging

end Bond

/-! ## The two options -/

/-- **Debug options never alter delivery.** To every history there are such as differ from it in debug
options at will; all that do, match it but for tags; those that only log otherwise come to the same in
all things; and payloads are traced of the pings that runs take up, once each and no others, where they
are to be logged. -/
theorem debug_options_never_alter_delivery {m : Content} {h : List Episode} {w : World}
    (hh : Saga ⟨m, none⟩ h w) :
    (∀ tasks, List.Forall₂ Bond.debugging.Tasks (h.map Episode.task) tasks → ∃ h' w',
      Saga ⟨m, none⟩ h' w' ∧ h'.map Episode.task = tasks ∧
        List.Forall₂ Bond.debugging.Episodes h h') ∧
    (∀ h' w', Saga ⟨m, none⟩ h' w' → List.Forall₂ Bond.debugging.Episodes h h' →
      List.Forall₂ Episode.Matches h h') ∧
    (∀ h' w', Saga ⟨m, none⟩ h' w' → List.Forall₂ Bond.logging.Episodes h h' →
      List.Forall₂ Episode.Same h h') ∧
    ∀ t, .moment t ∈ h → payloads t.trace <+: t.logged ∧
      (t.result.isSome → payloads t.trace = t.logged ∧ t.handed? = t.peeked?) := by
  have hsame {B : Bond} : B.Contents m m := fun k => .same (m k)
  have hpair {B : Bond} {R : Episode → Episode → Prop}
      (hR : ∀ e e', B.Alike e e' → e.Happens → e'.Happens → R e e')
      (hmakes : ∀ t, B.AssemblesAt t) {h' : List Episode} {w' : World} (hh' : Saga ⟨m, none⟩ h' w')
      (hp : List.Forall₂ B.Episodes h h') : List.Forall₂ R h h' := by
    obtain ⟨halike, -⟩ := Bond.alike hsame hh hh' hp fun t _ => hmakes t
    refine List.forall₂_iff_get.2 ⟨halike.length_eq, fun i hi hi' => ?_⟩
    exact hR _ _ ((List.forall₂_iff_get.1 halike).2 i hi hi') (hh.happens _ (List.get_mem h ⟨i, hi⟩))
      (hh'.happens _ (List.get_mem h' ⟨i, hi'⟩))
  refine ⟨fun tasks htasks => Bond.exists_saga hsame hh (fun t _ => assemblesAt_debugging t) htasks,
    fun h' w' => hpair (fun e e' => Bond.Alike.matches) assemblesAt_debugging,
    fun h' w' => hpair (fun e e' => Bond.Alike.same) assemblesAt_logging, fun t ht => ?_⟩
  have hhappens : t.Happens := hh.happens _ ht
  exact ⟨hhappens.payloads.1, fun halive => ⟨hhappens.payloads.2 halive, hhappens.handed_eq halive⟩⟩

/-- A run that finds a ping hands it over. -/
theorem happens_look {c : Client} {i : Nat} {s : Summary} {p : Ping} {rest : List Ping} (m : Content)
    (hrun : c.runs[i]? = some (.looking s)) (hcancelled : c.desk.scheduler.cancelled = false)
    (hfaulted : c.queue.faulted = false) (hpings : c.queue.pings = p :: rest) : ∃ tr, Moment.Happens
      ⟨⟨m, some c⟩, .act (.look i false), tr, some (some (.ok (.pings [p])),
        some { c with runs := c.runs.set i (.uploading p s) }), m⟩ := by
  obtain ⟨reply, hreply, hperform⟩ := Client.perform_look false hrun hcancelled
  have heq : reply = .ok (.pings [p]) := by rw [hreply, hfaulted, hpings]; rfl
  rw [heq] at hperform
  obtain ⟨tr, hlooked⟩ := (quiet_looked_cons c.desk s p []).reaches m
  have hstep : Follows (c.perform (.look i false)) m (tr ++ [] ++ []) (some (some (.ok (.pings [p])),
      { c with runs := c.runs.set i (.uploading p s) })) m := by
    rw [hperform]
    refine Follows.bind (a := { c with runs := c.runs.set i (.uploading p s) }) ?_ (.done _ _)
    exact hlooked.bind (.done _ _)
  refine ⟨_, Follows.bind hstep (.done _ _), fun r hr => ?_⟩
  rw [Moment.request_of_act rfl rfl, Client.asks, hrun] at hr
  simp only [hcancelled] at hr
  cases hr
  exact fun _ h => by cases h

theorem live_ne_nil : "live".toList ≠ [] := by decide

theorem length_live : "live".toList.length ≤ maxTagLength := by decide

theorem allowed_live : "live".toList.all isTagChar = true := by decide

/-- The plain opening, with payloads logged and pings tagged. -/
def Opening.debugged : Opening :=
  { Opening.plain with
    config := Opening.plain.config.debugged true
      (some ⟨"live", live_ne_nil, length_live, allowed_live⟩) }

/-- A ping is queued and taken up, without debug options and with both. -/
theorem alters_no_delivery_of_one : ∃ (h h' : List Episode) (w w' : World) (t : Moment),
    Saga ⟨fun _ => none, none⟩ h w ∧ Saga ⟨fun _ => none, none⟩ h' w' ∧
      h'.map Episode.task = [.deed (.act (.look 0 false)), .deed (.act .startRun),
        .deed (.act (.request false (.enqueue .ofOneEvent))), .deed (.opening .debugged)] ∧
      .moment t ∈ h ∧ t.handed? = some .ofOneEvent ∧ payloads t.trace = [] ∧
      List.Forall₂ Episode.Matches h h' := by
  obtain ⟨tr₁, hopen⟩ := happens_open_nil
  obtain ⟨tr₂, henqueue⟩ := happens_enqueue (c := .plain) (p := .ofOneEvent) (fun _ => none) rfl rfl
    fits_ofOneEvent
  let q := Client.plain.queue.push .ofOneEvent
  have hstart := happens_act (c := Client.plain.setQueue q) (a := .startRun)
    ((Queue.storePut .ofOneEvent).effect fun _ => none) rfl rfl
  obtain ⟨tr₄, hlook⟩ := happens_look (i := 0)
    (c := { Client.plain.setQueue q with runs := [.looking .zero] })
    ((Queue.storePut .ofOneEvent).effect fun _ => none) rfl rfl rfl rfl
  have hh := (((Saga.start.next (e := .moment _) hopen).next (e := .moment _) henqueue).next
    (e := .moment _) hstart).next (e := .moment _) hlook
  obtain ⟨hexists, hmatches, -, htraces⟩ := debug_options_never_alter_delivery hh
  obtain ⟨h', w', hh', htasks, hp⟩ := hexists [.deed (.act (.look 0 false)), .deed (.act .startRun),
    .deed (.act (.request false (.enqueue .ofOneEvent))), .deed (.opening .debugged)]
    (.cons (.deed (.act _)) (.cons (.deed (.act _)) (.cons (.deed (.act _))
      (.cons (.deed (.opening ⟨rfl, rfl, rfl, rfl⟩)) .nil))))
  exact ⟨_, h', _, w', _, hh, hh', htasks, List.mem_cons_self, rfl,
    ((htraces _ List.mem_cons_self).2 rfl).1, hmatches h' w' hh' hp⟩

end PingDelivery
