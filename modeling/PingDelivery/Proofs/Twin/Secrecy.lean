import PingDelivery.Proofs.Json.Replacing
import PingDelivery.Proofs.Twin.Sight

/-! # The client id stays where it is asked for

Over stores that differ in the client id alone the same operations come to the same, except for that id
in the payloads of pings whose name had opted in when they were assembled. Who has opted in is read off
the history: the last registration of the name since the store was opened.
-/

namespace PingDelivery
open Store Upload

/-! ## Who opts in -/

/-- Whether the name was last registered with the client id. An opening forgets all registrations; the
events ping is registered with it. -/
def optedIn (name : String) : List Episode → Bool
  | [] => false
  | .moment t :: h =>
    match t.deed with
    | .act (.register r) => if r.name = name then r.includeClientId else optedIn name h
    | .opening _ =>
      if t.before.client.isNone then decide (name = Lifecycle.eventsPing) else optedIn name h
    | _ => optedIn name h
  | .timeout _ _ :: h => optedIn name h

namespace Client
variable {c c' : Client}

theorem quiet_act_types {a : Action} (ha : ∀ t, a ≠ .register t) :
    Quiet (fun c' => c'.lifecycle.types = c.lifecycle.types) (c.act a) := by
  cases a with
  | register t => exact absurd rfl (ha t)
  | assemble i now fresh =>
    simp only [act]
    split
    · refine (quiet_assemble _ _ _ _).bind fun x hx => ?_
      split
      · exact .done hx
      · exact .done hx
    · exact .done rfl
  | takeBack i now | answer i o | abandon i =>
    simp only [act]
    split <;> exact .done rfl
  | look i passed =>
    simp only [act]
    split
    · split <;> exact .done rfl
    · exact .done rfl
  | _ => exact .done rfl

theorem quiet_resume_types (reply : Except QueueError Queue.Reply) (a : Action) :
    Quiet (fun c' => c'.lifecycle.types = c.lifecycle.types) (c.resume reply a) := by
  cases a with
  | enqueue i passed =>
    simp only [resume]
    split
    · exact .done rfl
    · exact .tell (fun _ _ hn => by cases hn) (.done rfl)
    · exact .done rfl
  | look i passed =>
    simp only [resume]
    split
    · exact (quiet_looked _ _ _).bind fun x _ => .done rfl
    · exact .done rfl
  | settle i passed =>
    simp only [resume]
    split
    · exact (quiet_settled _ _ _ _ _).bind fun x _ => .done rfl
    · exact .done rfl
  | _ => exact .done rfl

/-- Only a registration changes what is registered. -/
theorem types_of_perform {a : Action} {m m' : Content} {tr : List Observed} {r : Reply}
    (h : Follows (c.perform a) m tr (some (r, c')) m') : c'.lifecycle.types =
      match a with
      | .register t => c.lifecycle.types.insert t.name t
      | _ => c.lifecycle.types := by
  by_cases hregister : ∃ t, a = .register t
  · obtain ⟨t, rfl⟩ := hregister
    obtain ⟨-, -, hout | hout⟩ := h.of_done
    · cases hout
    · cases hout
      rfl
  · have ha (t : PingType) : a ≠ .register t := fun h => hregister ⟨t, h⟩
    have hsame : c'.lifecycle.types = c.lifecycle.types := by
      unfold perform at h
      split at h
      · rcases h.of_bind with ⟨hout, -⟩ | ⟨x, tr₁, tr₂, m₁, -, hrest, -⟩
        · cases hout
        · obtain ⟨out, hresume, hout⟩ := hrest.of_bind_done
          obtain ⟨c', rfl, hc'⟩ := Option.map_eq_some_iff.1 hout.symm
          cases hc'
          exact ((quiet_resume_types _ a).follows hresume).2.2 _ rfl
      · obtain ⟨out, hact, hout⟩ := h.of_bind_done
        obtain ⟨c', rfl, hc'⟩ := Option.map_eq_some_iff.1 hout.symm
        cases hc'
        exact ((quiet_act_types ha).follows hact).2.2 _ rfl
    cases a with
    | register t => exact absurd rfl (ha t)
    | _ => exact hsame

end Client

/-- A process looks a name up as it was last registered. -/
theorem Saga.optedIn {m : Content} {h : List Episode} {w : World} (hh : Saga ⟨m, none⟩ h w) {c : Client}
    (hc : w.client = some c) (name : String) :
    (c.lifecycle.typeOf name).includeClientId = optedIn name h := by
  induction hh generalizing c with
  | start => cases hc
  | @next h e _ he ih =>
    cases e with
    | timeout w i =>
      obtain ⟨c₀, hc₀, rfl⟩ := Option.map_eq_some_iff.1 hc
      have hsame : (c₀.expire i).lifecycle = c₀.lifecycle := by
        unfold Client.expire
        split <;> rfl
      rw [hsame]
      exact ih hc₀
    | moment t =>
      cases Moment.Happens.lives he hc with
      | @acted c₀ a r hc₀ hd hreply hf =>
        have htypes := Client.types_of_perform hf
        rw [PingDelivery.optedIn, hd]
        cases a with
        | register t =>
          simp only at htypes ⊢
          rw [Lifecycle.typeOf, htypes, Dict.get?_insert]
          by_cases hname : t.name = name
          · rw [if_pos hname.symm, if_pos hname]
            rfl
          · rw [if_neg (Ne.symm hname), if_neg hname]
            exact ih hc₀
        | _ =>
          simp only at htypes ⊢
          rw [Lifecycle.typeOf, htypes]
          exact ih hc₀
      | opened hnone hd _ _ hcreated =>
        subst hcreated
        rw [PingDelivery.optedIn, hd]
        simp only [hnone, Option.isNone_none, if_true, Client.created, Lifecycle.create,
          Lifecycle.typeOf, Dict.get?_insert, Dict.get?_empty]
        by_cases hname : name = Lifecycle.eventsPing
        · simp [hname]
        · simp [hname]
      | idle hc₀ _ hacts =>
        rw [PingDelivery.optedIn]
        cases hd : t.deed with
        | act a => exact absurd hd (hacts a)
        | opening o =>
          simp only [hc₀, Option.isNone_some, Bool.false_eq_true, if_false]
          exact ih hc₀
        | ending => exact ih hc₀

/-! ## What is assembled -/

/-- The ping that a submission becomes with this step. -/
def Client.assembled? (c : Client) : Client.Action → Option Ping
  | .assemble i now fresh =>
    match c.held[i]? with
    | some ⟨s, .drained⟩ => (Assembly.assemble (c.lifecycle.request s) c.lifecycle.config s.snapshot
        c.lifecycle.maxPingSize fresh now).1.toOption
    | _ => none
  | _ => none

def Moment.assembled? (t : Moment) : Option Ping :=
  match t.before.client, t.deed with
  | some c, .act a => c.assembled? a
  | _, _ => none

theorem Moment.of_assembled {t : Moment} {p : Ping} (h : t.assembled? = some p) :
    ∃ c i now fresh s, t.before.client = some c ∧ t.deed = .act (.assemble i now fresh) ∧
      c.held[i]? = some ⟨s, .drained⟩ ∧ p = c.lifecycle.made now fresh s := by
  unfold assembled? at h
  split at h
  · rename_i c a hc hd
    unfold Client.assembled? at h
    split at h
    · rename_i i now fresh
      split at h
      · rename_i s hs
        refine ⟨c, i, now, fresh, s, hc, hd, hs, ?_⟩
        generalize hx : Assembly.assemble (c.lifecycle.request s) c.lifecycle.config s.snapshot
          c.lifecycle.maxPingSize fresh now = x at h
        obtain ⟨verdict, drew⟩ := x
        cases verdict with
        | error e => cases h
        | ok p' =>
          cases h
          exact Assembly.eq_ping_of_assemble hx
      · cases h
    · cases h
  · cases h

theorem Moment.assembled_of_fits {t : Moment} {c : Client} {i : Nat} {now : Time.Instant} {fresh : Uuid}
    {s : Lifecycle.Submission} (hc : t.before.client = some c)
    (hd : t.deed = .act (.assemble i now fresh)) (hs : c.held[i]? = some ⟨s, .drained⟩)
    (hrefusal : Assembly.refusal? (c.lifecycle.request s) s.snapshot = none)
    (hfits : (c.lifecycle.made now fresh s).size ≤ c.lifecycle.maxPingSize) :
    t.assembled? = some (c.lifecycle.made now fresh s) := by
  have hsized : Assembly.sized (c.lifecycle.made now fresh s) c.lifecycle.maxPingSize =
      .ok (c.lifecycle.made now fresh s) := if_neg (Nat.not_lt.2 hfits)
  simp only [assembled?, hc, hd, Client.assembled?, hs, Assembly.assemble, hrefusal]
  exact congrArg Except.toOption hsized

/-- A ping whose name has not opted in carries no client id. -/
theorem Moment.shows_no_clientId {t : Moment} {p : Ping} (h : t.assembled? = some p) {m : Content}
    {earlier : List Episode} (hh : Saga ⟨m, none⟩ earlier t.before)
    (hname : PingDelivery.optedIn p.documentType earlier = false) :
    ∃ j, Assembly.Shows p.payload j ∧ j.path? ["client_info", "client_id"] = none := by
  obtain ⟨c, i, now, fresh, s, hc, -, -, rfl⟩ := Moment.of_assembled h
  have hflag := (hh.optedIn hc s.documentType).trans hname
  refine ⟨_, Assembly.shows_document (c.lifecycle.request s) c.lifecycle.config fresh s.snapshot, ?_⟩
  rw [Assembly.recovers_document.clientId, Lifecycle.request, hflag]
  rfl

/-! ## Pings that differ in the client id -/

def clientIdPath : List String := ["client_info", "client_id"]

/-- Two payloads that differ in the client id and nothing else. -/
def DifferInClientId (a a' : Uuid) (b b' : Bytes) : Prop :=
  ∃ j j' : Json, b = j.bytes ∧ b' = j'.bytes ∧
    Json.Replaced (.str a.text) (.str a'.text) clientIdPath j j'

theorem DifferInClientId.length_eq {a a' : Uuid} {b b' : Bytes} (h : DifferInClientId a a' b b') :
    b'.length = b.length := by
  obtain ⟨j, j', rfl, rfl, hreplaced⟩ := h
  exact hreplaced.length_bytes (by rw [Uuid.length_bytes, Uuid.length_bytes])

theorem replaced_document (t : String) (reason : Option String) (a a' : Uuid) (c : Configuration)
    (id : Uuid) (s : Snapshot) : Json.Replaced (.str a.text) (.str a'.text) clientIdPath
      (Assembly.document ⟨t, reason, some a⟩ c id s) (Assembly.document ⟨t, reason, some a'⟩ c id s) := by
  have hinfo : Json.Replaced (.str a.text) (.str a'.text) ["client_id"]
      (Assembly.clientInfo ⟨t, reason, some a⟩ c) (Assembly.clientInfo ⟨t, reason, some a'⟩ c) :=
    .member (l := [("application_id", _)]) .here
  rw [Assembly.document_eq, Assembly.document_eq]
  exact .member (l := [("ping_info", _)]) hinfo

/-- The ping was assembled in the course of the history, when its name had opted in. -/
def Licensed (h : List Episode) (p : Ping) : Prop :=
  ∃ later t earlier p₀, h = later ++ .moment t :: earlier ∧ t.assembled? = some p₀ ∧
    p₀.id = p.id ∧ p₀.settled.content = p.settled.content ∧ optedIn p.documentType earlier = true

theorem Licensed.settled {h : List Episode} {p : Ping} (hp : Licensed h p) : Licensed h p.settled := by
  obtain ⟨later, t, earlier, p₀, hh, hassembled, hid, hcontent, hopted⟩ := hp
  refine ⟨later, t, earlier, p₀, hh, hassembled, hid, ?_, hopted⟩
  rw [hcontent, Ping.settled_settled]

/-- Two pings that are the same but for the client id in their payloads, if they may carry it. -/
inductive Ping.Twins (h : List Episode) (a a' : Uuid) (p : Ping) : Ping → Prop where
  | same : Twins h a a' p p
  | differ {b : Bytes} (hlicensed : Licensed h p) (hpayloads : DifferInClientId a a' p.payload b) :
      Twins h a a' p { p with payload := b }

theorem Ping.Twins.agrees {h : List Episode} {a a' : Uuid} {p p' : Ping} (ht : p.Twins h a a' p') :
    p.Agrees p' := by
  cases ht with
  | same => exact ⟨rfl, rfl, rfl, rfl, rfl, rfl⟩
  | differ _ hpayloads => exact ⟨rfl, rfl, rfl, rfl, rfl, hpayloads.length_eq⟩

/-- Pings that differ in the client id where they may, over stores that keep the one and the other. -/
def Bond.secrecy (h : List Episode) (a a' : Uuid) : Bond where
  pings := Ping.Twins h a a'
  configs c c' := c' = c
  ids id id' := id' = id ∨ id = a ∧ id' = a'
  stored b b' := ClientId.ofBytes? b = some a ∧ ClientId.ofBytes? b' = some a'
  pings_refl p := .same
  ids_refl id := .inl rfl
  agree := Ping.Twins.agrees
  pings_numbered n ht := by
    cases ht with
    | same => exact .same
    | differ hlicensed hpayloads => exact .differ hlicensed hpayloads
  pings_attempted ht := by
    cases ht with
    | same => exact .same
    | differ hlicensed hpayloads => exact .differ hlicensed hpayloads
  pings_settled ht := by
    cases ht with
    | same => exact .same
    | differ hlicensed hpayloads => exact .differ hlicensed.settled hpayloads
  pings_fits ht hp := by
    cases ht with
    | same => exact hp
    | differ _ hpayloads =>
      exact ⟨hp.documentType, hpayloads.length_eq.trans_lt hp.payload, hp.metadata⟩
  configs_maxEvents hc := by rw [hc]
  configs_applicationId hc := by rw [hc]
  stored_ids hb := ⟨a, a', hb.1, hb.2, .inr ⟨rfl, rfl⟩⟩

/-- **What the client id does to a ping.** It reaches the payload, of pings that may carry it. -/
theorem made_cases {h : List Episode} {a a' : Uuid} {l l' : Lifecycle}
    (hl : (Bond.secrecy h a a').Lifecycles l l') (now : Time.Instant) (fresh : Uuid)
    (s : Lifecycle.Submission) : l'.made now fresh s = l.made now fresh s ∨
      (l.typeOf s.documentType).includeClientId = true ∧ ∃ b,
        DifferInClientId a a' (l.made now fresh s).payload b ∧
          l'.made now fresh s = { l.made now fresh s with payload := b } := by
  have hconfig : l'.config = l.config := hl.config
  have hsame (hrequest : l'.request s = l.request s) : l'.made now fresh s = l.made now fresh s := by
    rw [Lifecycle.made, hrequest, hconfig]
    rfl
  rcases hl.clientId with hid | ⟨hid, hid'⟩
  · exact .inl (hsame (hl.request_eq hid s))
  · cases hflag : (l.typeOf s.documentType).includeClientId with
    | false =>
      refine .inl (hsame ?_)
      simp only [Lifecycle.request, hl.typeOf_eq, hflag, Bool.false_eq_true, if_false]
    | true =>
      refine .inr ⟨rfl, (l'.made now fresh s).payload, ?_, ?_⟩
      · refine ⟨_, _, rfl, rfl, ?_⟩
        simp only [Lifecycle.request, hl.typeOf_eq, hflag, if_true, hid, hid', hconfig]
        exact replaced_document _ _ a a' _ _ _
      · rw [Lifecycle.made, hconfig]
        rfl

theorem assemblesAt_secrecy {m : Content} {h : List Episode} {w : World} (hh : Saga ⟨m, none⟩ h w)
    (a a' : Uuid) {t : Moment} (ht : .moment t ∈ h) : (Bond.secrecy h a a').AssemblesAt t := by
  intro c c' act hc hd hclients i now fresh s hact hs
  subst hact
  have hmade := made_cases hclients.lifecycle now fresh s
  refine ⟨?_, fun hrefusal hfits => ?_⟩
  · rcases hmade with hmade | ⟨-, b, hdiffer, hmade⟩
    · rw [hmade]
    · rw [hmade]
      exact hdiffer.length_eq
  · rcases hmade with hmade | ⟨hflag, b, hdiffer, hmade⟩
    · rw [hmade]
      exact .same
    · obtain ⟨later, earlier, rfl⟩ := List.append_of_mem ht
      rw [hmade]
      refine .differ ⟨later, t, earlier, _, rfl, Moment.assembled_of_fits hc hd hs hrefusal hfits,
        rfl, rfl, ?_⟩ hdiffer
      exact (hh.earlier.optedIn hc _).symm.trans hflag

/-! ## What is seen -/

/-- The attempt that is made at the moment: what is sent, before it is compressed. -/
def Moment.attempt? (t : Moment) (now : Time.Instant) : Option Upload.Request :=
  match t.before.client, t.handed? with
  | some c, some p => some (.ofPing c.desk.scheduler.config c.desk.scheduler.plan.compress now p)
  | _, _ => none

/-- Two requests that are the same but for the client id in their bodies, if it may be there. -/
inductive Upload.Request.Twins (h : List Episode) (a a' : Uuid) (r : Request) : Request → Prop where
  | same : Twins h a a' r r
  | differ {p : Ping} {b : Bytes} (hp : Licensed h p) (hid : r.documentId = p.id)
      (hbody : r.body = p.payload) (hbodies : DifferInClientId a a' r.body b) :
      Twins h a a' r { r with body := b }

/-- Two worlds that are the same but for the client id and for where it may be. -/
structure World.Twins (h : List Episode) (a a' : Uuid) (w w' : World) : Prop where
  records : ∀ k, k ≠ ClientId.key → w'.content k = w.content k ∨ ∃ p p' : Ping,
    p.Twins h a a' p' ∧ w.content k = some (Record.encode p) ∧
      w'.content k = some (Record.encode p')
  pending : Option.Rel (fun c c' : Client => List.Forall₂ (Ping.Twins h a a') c.queue.pings c'.queue.pings)
    w.client w'.client
  status : w'.client.map Client.status = w.client.map Client.status

/-- Two moments at which the same comes about but for the client id where it may be. -/
structure Moment.Twins (h : List Episode) (a a' : Uuid) (t t' : Moment) : Prop where
  opens : ∀ r, t.Opens r ↔ t'.Opens r
  ended : t'.ended? = t.ended?
  reply : Option.Rel (Bond.secrecy h a a').Responses t.reply t'.reply
  attempt : ∀ now, Option.Rel (Request.Twins h a a') (t.attempt? now) (t'.attempt? now)
  told : t.result.isSome → said t'.trace = said t.trace

inductive Episode.Twins (h : List Episode) (a a' : Uuid) : Episode → Episode → Prop where
  | moment {t t' : Moment} (ht : t.Twins h a a' t') (hafter : t.after.Twins h a a' t'.after) :
      Twins h a a' (.moment t) (.moment t')
  | timeout {w w' : World} {i : Nat}
      (hafter : (Episode.timeout w i).after.Twins h a a' (Episode.timeout w' i).after) :
      Twins h a a' (.timeout w i) (.timeout w' i)

namespace Bond
variable {h : List Episode} {a a' : Uuid}

theorem Worlds.twins {w w' : World} (hw : (secrecy h a a').Worlds w w') : w.Twins h a a' w' := by
  obtain ⟨hcontent, hclient⟩ := hw
  refine ⟨fun k hk => ?_, ?_, ?_⟩
  · have hvalues := hcontent k
    generalize w.content k = x, w'.content k = x' at hvalues
    cases hvalues with
    | same x => exact .inl rfl
    | records hp => exact .inr ⟨_, _, hp.bonded, rfl, rfl⟩
    | ids _ => exact absurd rfl hk
  · generalize w.client = c, w'.client = c' at hclient
    cases hclient with
    | none => exact .none
    | some hc => exact .some (hc.desk.queue.pings.imp fun _ _ hp => hp.bonded)
  · generalize w.client = c, w'.client = c' at hclient
    cases hclient with
    | none => rfl
    | some hc => exact congrArg some hc.status_eq

theorem Moments.rel_attempt {t t' : Moment} (ht : (secrecy h a a').Moments t t')
    (hp : (secrecy h a a').Parallel t t') (now : Time.Instant) :
    Option.Rel (Request.Twins h a a') (t.attempt? now) (t'.attempt? now) := by
  have hhanded := ht.rel_handed hp
  have hclient := ht.before.client
  unfold Moment.attempt?
  generalize t.handed? = x, t'.handed? = x' at hhanded
  generalize t.before.client = c, t'.before.client = c' at hclient
  cases hclient with
  | none => exact .none
  | @some c c' hc =>
    cases hhanded with
    | none => exact .none
    | some hx =>
      have hconfig : c'.desk.scheduler.config = c.desk.scheduler.config := hc.desk.scheduler.config
      simp only [hc.desk.scheduler.plan, hconfig]
      refine .some ?_
      cases hx with
      | same => exact .same
      | differ hlicensed hpayloads => exact .differ hlicensed rfl rfl hpayloads

theorem Alike.twins {m : Content} {w : World} (hh : Saga ⟨m, none⟩ h w) {e e' : Episode}
    (he : (secrecy h a a').Alike e e') (hmem : e ∈ h) (hhappens : e.Happens) (hhappens' : e'.Happens) :
    e.Twins h a a' e' := by
  have hafter := he.after.twins
  cases he with
  | timeout _ i => exact .timeout hafter
  | @moment t t' hp ht =>
    refine .moment ?_ hafter
    refine ⟨ht.opens_iff hp hhappens hhappens', ht.ended_eq hp (assemblesAt_secrecy hh a a' hmem),
      ht.rel_reply, ht.rel_attempt hp, fun halive => said_eq (fun p p' hp => ?_) (ht.sights halive)⟩
    cases hp <;> rfl

end Bond

/-! ## Stores that differ in the client id -/

/-- Two stores that hold the same, but for the ids `a` and `a'` that are read as the client's. -/
structure DifferInId (a a' : Uuid) (m m' : Content) : Prop where
  same : ∀ k, k ≠ ClientId.key → m' k = m k
  left : ∃ b, m ClientId.key = some b ∧ ClientId.ofBytes? b = some a
  right : ∃ b, m' ClientId.key = some b ∧ ClientId.ofBytes? b = some a'

theorem DifferInId.contents {a a' : Uuid} {m m' : Content} (hm : DifferInId a a' m m')
    (h : List Episode) : (Bond.secrecy h a a').Contents m m' := by
  intro k
  by_cases hk : k = ClientId.key
  · obtain ⟨b, hb, ha⟩ := hm.left
    obtain ⟨b', hb', ha'⟩ := hm.right
    rw [hk, hb, hb']
    exact .ids ⟨ha, ha'⟩
  · rw [hm.same k hk]
    exact .same _

theorem Bond.tasks_refl (h : List Episode) (a a' : Uuid) (tasks : List Episode.Task) :
    List.Forall₂ (Bond.secrecy h a a').Tasks tasks tasks := by
  refine List.forall₂_same.2 fun task _ => ?_
  cases task with
  | timeout i => exact .timeout i
  | deed d =>
    cases d with
    | act a => exact .deed (.act a)
    | opening o => exact .deed (.opening ⟨rfl, rfl, rfl, rfl⟩)
    | ending => exact .deed .ending

/-- **The client id does not leak.** Over stores that differ in it alone, the same can be done, and
comes to the same, but for the client id in the payloads of pings that were assembled when their name had
opted in. All others carry no client id. -/
theorem client_id_does_not_leak {a a' : Uuid} {m m' : Content} (hm : DifferInId a a' m m')
    {h : List Episode} {w : World} (hh : Saga ⟨m, none⟩ h w) :
    (∃ h' w', Saga ⟨m', none⟩ h' w' ∧ h'.map Episode.task = h.map Episode.task ∧
      List.Forall₂ (Bond.secrecy h a a').Episodes h h') ∧
    (∀ h' w', Saga ⟨m', none⟩ h' w' → List.Forall₂ (Bond.secrecy h a a').Episodes h h' →
      List.Forall₂ (Episode.Twins h a a') h h') ∧
    ∀ later t earlier p, h = later ++ .moment t :: earlier → t.assembled? = some p →
      optedIn p.documentType earlier = false →
        ∃ j, Assembly.Shows p.payload j ∧ j.path? clientIdPath = none := by
  have hcontents := hm.contents h
  have hmakes (t : Moment) (ht : .moment t ∈ h) := assemblesAt_secrecy hh a a' ht
  refine ⟨Bond.exists_saga hcontents hh hmakes (Bond.tasks_refl h a a' _), fun h' w' hh' hp => ?_, ?_⟩
  · obtain ⟨halike, -⟩ := Bond.alike hcontents hh hh' hp hmakes
    refine List.forall₂_iff_get.2 ⟨halike.length_eq, fun i hi hi' => ?_⟩
    exact ((List.forall₂_iff_get.1 halike).2 i hi hi').twins hh (List.get_mem h ⟨i, hi⟩)
      (hh.happens _ (List.get_mem h ⟨i, hi⟩)) (hh'.happens _ (List.get_mem h' ⟨i, hi'⟩))
  · rintro later t earlier p rfl hassembled hname
    exact t.shows_no_clientId hassembled hh.earlier hname

/-! ### A ping that opted in -/

theorem differInId_ofId (id id' : Uuid) :
    DifferInId id id' (Memory.ofId id).records.get? (Memory.ofId id').records.get? where
  same k hk := by rw [get?_ofId, get?_ofId, if_neg hk, if_neg hk]
  left := ⟨_, (get?_ofId id _).trans (if_pos rfl), ClientId.ofBytes?_text id⟩
  right := ⟨_, (get?_ofId id' _).trans (if_pos rfl), ClientId.ofBytes?_text id'⟩

/-- The submission of one event that fills its window. -/
def Lifecycle.Submission.ofOneEvent : Lifecycle.Submission :=
  ⟨"events", some Lifecycle.capacityReason, .ofOneEvent⟩

/-- The ping it becomes in a process whose client id is the fifth drawn. -/
def Ping.ofOptedIn : Ping :=
  Assembly.ping ⟨"events", some Lifecycle.capacityReason, some (.drawn 5)⟩ Opening.handled.config
    .ofOneEvent (.drawn 3) ⟨0, 0, representable_zero⟩

/-- The process once the event has filled the window. -/
def Client.ofEvent : Client :=
  { Client.ofId (.drawn 5) with
    lifecycle := ((Client.ofId (.drawn 5)).lifecycle.recordEvent ⟨0, 0, representable_zero⟩ "events"
      ⟨0, "a", "b", .empty⟩).1
    held := [⟨.ofOneEvent, .drained⟩] }

/-- The moment at which it assembles the ping. -/
def Moment.ofAssembly (m : Content) : Moment where
  before := ⟨m, some .ofEvent⟩
  deed := .act (.assemble 0 ⟨0, 0, representable_zero⟩ (.drawn 3))
  trace := [.told (Assembly.notice .ofOptedIn)]
  result := some (none, some { Client.ofEvent with held := [⟨.ofOneEvent, .assembled .ofOptedIn⟩] })
  content := m

theorem assemble_ofOptedIn : Assembly.assemble (Client.ofEvent.lifecycle.request .ofOneEvent)
    Client.ofEvent.lifecycle.config .ofOneEvent Client.ofEvent.lifecycle.maxPingSize (.drawn 3)
    ⟨0, 0, representable_zero⟩ = (.ok .ofOptedIn, true) :=
  assemble_of_short (by decide) (by decide +kernel) (by decide)

theorem happens_ofAssembly (m : Content) : (Moment.ofAssembly m).Happens :=
  happens_assemble (s := .ofOneEvent) m rfl assemble_ofOptedIn

theorem assembled_ofAssembly (m : Content) : (Moment.ofAssembly m).assembled? = some .ofOptedIn := by
  change (Assembly.assemble (Client.ofEvent.lifecycle.request .ofOneEvent) _ .ofOneEvent
    _ _ _).1.toOption = _
  rw [assemble_ofOptedIn]
  rfl

/-- A process whose store keeps one client id fills the window of its events ping and assembles it. The
same can be done over another, and all that differs is the id in that ping. -/
theorem does_not_leak_from_events : ∃ h w h' w',
    Saga ⟨(Memory.ofId (.drawn 5)).records.get?, none⟩ h w ∧
      Saga ⟨(Memory.ofId (.drawn 6)).records.get?, none⟩ h' w' ∧
      (∃ t, .moment t ∈ h ∧ t.assembled? = some .ofOptedIn) ∧
      List.Forall₂ (Episode.Twins h (.drawn 5) (.drawn 6)) h h' := by
  obtain ⟨tr, hopen⟩ := happens_open_ofId (.drawn 5)
  let m := (Memory.ofId (.drawn 5)).records.get?
  have hrecord : Moment.Happens ⟨⟨m, some (.ofId (.drawn 5))⟩,
      .act (.recordEvent ⟨0, 0, representable_zero⟩ "events" ⟨0, "a", "b", .empty⟩), [],
      some (none, some .ofEvent), m⟩ := happens_act m rfl rfl
  have hh := ((Saga.start.next (e := .moment _) hopen).next (e := .moment _) hrecord).next
    (e := .moment _) (happens_ofAssembly m)
  obtain ⟨⟨h', w', hh', -, hp⟩, htwins, -⟩ :=
    client_id_does_not_leak (differInId_ofId (.drawn 5) (.drawn 6)) hh
  exact ⟨_, _, h', w', hh, hh', ⟨_, List.mem_cons_self, assembled_ofAssembly m⟩, htwins h' w' hh' hp⟩

end PingDelivery
