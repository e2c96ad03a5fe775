import PingDelivery.Proofs.Client.Order
import PingDelivery.Proofs.Client.Retention
import PingDelivery.Proofs.Payload
import PingDelivery.Upload.Wire

/-! # Pings are delivered as they were assembled

Where a ping goes, under which user agent and with what in it is stamped on it when it is assembled.
The record keeps all of that, however often it is written anew, and a request is built from it and from
nothing else; the configuration of the day adds its tag to pings that have none. So it does not matter
to a delivery how many processes the ping has waited through, nor how they were set up.
-/

namespace PingDelivery
open Store Upload

/-! ## Requests -/

namespace Upload

/-- The headers that come of the stamped user agent and of the program. -/
def stampedHeaders (userAgent : String) : Dict String :=
  .ofList [("Content-Type", "application/json; charset=utf-8"), ("User-Agent", userAgent),
    ("X-Client-Type", programName), ("X-Client-Version", programVersion)]

namespace Request
variable (c : Configuration) (compress : Bool) (now : Time.Instant) (p : Ping)

theorem get?_fixedHeaders (k : String) : (Dict.ofList (fixedHeaders now p)).get? k =
    if k = "Date" then some (Time.Rfc2822.write now)
    else (stampedHeaders p.metadata.userAgent).get? k := by
  simp only [fixedHeaders, stampedHeaders, Dict.ofList, List.foldl, Dict.get?_insert]
  by_cases hk : k = "Date"
  · subst hk
    simp
  · simp [hk]

/-- Every header there is. -/
theorem get?_headersFor (k : String) : (headersFor c compress now p).get? k =
    if k = "Content-Encoding" then (if compress then some "gzip" else none)
    else if k = tagHeader then tagFor c p
    else if k = "Date" then some (Time.Rfc2822.write now)
    else (stampedHeaders p.metadata.userAgent).get? k := by
  rw [headersFor, ← get?_fixedHeaders]
  have hdrop {k' : String} (h : (Dict.ofList (fixedHeaders now p)).get? k' = none) :
      (Dict.ofList (fixedHeaders now p)).get? k =
        if k = k' then none else (Dict.ofList (fixedHeaders now p)).get? k := by
    split
    · rename_i hk
      rw [hk, h]
    · rfl
  have hencoding : (Dict.ofList (fixedHeaders now p)).get? "Content-Encoding" = none := by
    simp [fixedHeaders, Dict.ofList]
  have htag : (Dict.ofList (fixedHeaders now p)).get? tagHeader = none := by
    simp [fixedHeaders, Dict.ofList, tagHeader]
  cases tagFor c p with
  | none =>
    cases compress with
    | false =>
      simp only [Bool.false_eq_true, if_false, List.append_nil]
      rw [← hdrop htag, ← hdrop hencoding]
    | true =>
      simp only [if_true, List.append_nil]
      rw [Dict.ofList_concat, Dict.get?_insert, ← hdrop htag]
  | some t =>
    cases compress with
    | false =>
      simp only [Bool.false_eq_true, if_false, List.append_nil]
      rw [Dict.ofList_concat, Dict.get?_insert]
      by_cases hk : k = "Content-Encoding"
      · rw [hk, if_neg (by decide), hencoding, if_pos rfl]
      · rw [if_neg hk]
    | true =>
      simp only [if_true]
      rw [Dict.ofList_concat, Dict.get?_insert, Dict.ofList_concat, Dict.get?_insert]
end Request

namespace Wire

/-- The request does not depend on how often the ping was tried or where it stands in the queue. -/
theorem ofPing_congr {g : Gzip} {c : Configuration} {compress : Bool} {now : Time.Instant}
    {p p' : Ping} (hid : p'.id = p.id) (hcontent : p'.content = p.content) :
    ofPing g c compress now p' = ofPing g c compress now p := by
  obtain ⟨id, documentType, payload, createdAt, attempts, sequence, metadata⟩ := p
  obtain ⟨id', documentType', payload', createdAt', attempts', sequence', metadata'⟩ := p'
  cases hid
  cases hcontent
  rfl

theorem ofPing_settled (g : Gzip) (c : Configuration) (compress : Bool) (now : Time.Instant) (p : Ping) :
    ofPing g c compress now p.settled = ofPing g c compress now p := rfl

/-- The body is compressed or it is not, and the headers say so. -/
theorem ofPing_cases (g : Gzip) (c : Configuration) (compress : Bool) (now : Time.Instant) (p : Ping) :
    (∃ z, g.zip p.payload = some z ∧
      ofPing g c compress now p = ⟨p.id, p.url, Request.headersFor c true now p, z⟩) ∨
      ofPing g c compress now p = ⟨p.id, p.url, Request.headersFor c false now p, p.payload⟩ := by
  unfold ofPing
  split
  · rename_i z hz
    split at hz
    · exact .inl ⟨z, hz, rfl⟩
    · cases hz
  · exact .inr rfl

theorem ofPing_parts (g : Gzip) (c : Configuration) (compress : Bool) (now : Time.Instant) (p : Ping) :
    ∃ zipped body,
      ofPing g c compress now p = ⟨p.id, p.url, Request.headersFor c zipped now p, body⟩ := by
  rcases ofPing_cases g c compress now p with ⟨z, -, heq⟩ | heq
  · exact ⟨true, z, heq⟩
  · exact ⟨false, p.payload, heq⟩

theorem content_ofPing (g : Gzip) (c : Configuration) (compress : Bool) (now : Time.Instant)
    (p : Ping) : (ofPing g c compress now p).content? g = some p.payload := by
  rcases ofPing_cases g c compress now p with ⟨z, hz, heq⟩ | heq <;>
    rw [heq, content?, isCompressed, Request.get?_headersFor]
  · exact g.unzip_zip _ z hz
  · rfl

end Wire

/-- The attempt delivers what was assembled: `r`, `s` and `c₁` are what it was assembled from, under
the id, and `c₂` is the configuration at the time of the attempt. -/
structure Delivers (g : Gzip) (r : Assembly.Request) (s : Snapshot) (c₁ : Configuration) (id : Uuid)
    (c₂ : Configuration) (w : Wire) : Prop where
  documentId : w.documentId = id
  url : w.url = Metadata.withoutTrailingSlashes c₁.endpoint.text ++
    Submission.path c₁.applicationId r.documentType id
  agent : w.headers.get? "User-Agent" = some c₁.userAgent
  body : w.content? g = some (Assembly.document r c₁ id s).bytes
  tag : w.headers.get? Request.tagHeader = (c₁.tag.or c₂.tag).map (·.text)
  /-- Nothing else in the headers comes of the attempt. -/
  others : ∀ k, k ≠ "Date" → k ≠ "Content-Encoding" → k ≠ Request.tagHeader →
    w.headers.get? k = (stampedHeaders c₁.userAgent).get? k

/-- A request built from an assembled ping delivers it. -/
theorem delivers_ofPing (g : Gzip) (r : Assembly.Request) (s : Snapshot) (c₁ c₂ : Configuration)
    (id : Uuid) (compress : Bool) (made now : Time.Instant) : Delivers g r s c₁ id c₂
      (Wire.ofPing g c₂ compress now (Assembly.ping r c₁ s id made)) := by
  have hcontent := Wire.content_ofPing g c₂ compress now (Assembly.ping r c₁ s id made)
  obtain ⟨zipped, body, heq⟩ := Wire.ofPing_parts g c₂ compress now (Assembly.ping r c₁ s id made)
  rw [heq] at hcontent ⊢
  refine ⟨rfl, rfl, ?_, hcontent, ?_, fun k hdate hencoding htag => ?_⟩
  · rw [Request.get?_headersFor, if_neg (by decide), if_neg (by decide), if_neg (by decide)]
    simp [stampedHeaders, Dict.ofList, Assembly.ping, Ping.fresh, Assembly.metadata]
  · rw [Request.get?_headersFor, if_neg (by decide), if_pos rfl, Option.map_or]
    rfl
  · rw [Request.get?_headersFor, if_neg hencoding, if_neg htag, if_neg hdate]
    rfl

end Upload

/-! ## What is stored under an id -/

/-- Whatever can be read under the id of the ping is the ping, number and attempts aside. -/
def World.Carries (w : World) (p : Ping) : Prop :=
  ∀ x, Queue.stored? w.content (Record.key p.id) = some x → x.content = p.settled.content

theorem carries_of_accepted {t : Moment} {p : Ping} (ht : t.Happens) (h : t.accepted? = some p) :
    t.after.Carries p := by
  obtain ⟨y, hy, -, hcontent⟩ := keeps_of_accepted ht h
  intro x hx
  rw [hy] at hx
  cases hx
  exact hcontent

/-- A change that takes no new ping under the id writes nothing else under it. -/
theorem Queue.Mirror.carries {q q' : Queue} {r : Request} {c : Call} {reply : Reply} {m : Content}
    {p : Ping} (hm : Mirror m q.pings) (hc : Change q r c q' reply)
    (hnew : ∀ x, r = .enqueue x → x.id ≠ p.id)
    (h : ∀ x, stored? m (Record.key p.id) = some x → x.content = p.settled.content) :
    ∀ x, stored? (c.effect m) (Record.key p.id) = some x → x.content = p.settled.content := by
  have hsame {m' : Content} (hk : m' (Record.key p.id) = m (Record.key p.id)) (x : Ping)
      (hx : stored? m' (Record.key p.id) = some x) : x.content = p.settled.content :=
    h x ((stored_congr hk).symm.trans hx)
  have hother {id : Uuid} (hid : id ≠ p.id) : Record.key p.id ≠ Record.key id := fun hk =>
    hid (Record.key_injective hk).symm
  have hdeleted (id : Uuid) (x : Ping)
      (hx : stored? ((storeDelete id).effect m) (Record.key p.id) = some x) :
      x.content = p.settled.content := by
    by_cases hid : id = p.id
    · rw [stored?, ← hid, effect_delete_self] at hx
      cases hx
    · exact hsame (effect_delete_of_ne (hother hid)) x hx
  cases hc with
  | @pushed y _ => exact hsame (effect_put_of_ne (hother (hnew y rfl)))
  | @acked r id y _ _ => exact hdeleted id
  | @exhausted id y _ _ => exact hdeleted id
  | @retried id y hy _ =>
    obtain ⟨hmem, rfl⟩ := id_of_find hy
    by_cases hid : y.id = p.id
    · have hself := stored_put_self (hm.fits hmem).attempted m
      intro x hx
      rw [show Record.key p.id = Record.key y.attempted.id from congrArg Record.key hid.symm,
        hself] at hx
      cases hx
      exact h y.settled (hid ▸ hm.held y hmem)
    · exact hsame (effect_put_of_ne (hother hid))

theorem World.Carries.step {t : Moment} {p : Ping} (h : t.before.Carries p)
    (hm : t.before.Mirrored) (ht : t.Happens) (hnew : ∀ x, t.accepted? = some x → x.id ≠ p.id) :
    t.after.Carries p := by
  have hsame (hk : t.content (Record.key p.id) = t.before.content (Record.key p.id)) :
      t.after.Carries p := fun x hx => h x ((Queue.stored_congr hk).symm.trans hx)
  cases ht.course with
  | @acted c a out hc hd hf hresult =>
    obtain ⟨-, ⟨-, hcontent, -⟩ | ⟨passed, r, asked, hasks, hattended, hout⟩⟩ :=
      Client.perform_cases hf
    · exact hsame (by rw [hcontent])
    · rcases hattended.same_or_change with ⟨hcontent, -⟩ | ⟨call, q, reply, hchange, hcontent, hq⟩
      · exact hsame (by rw [hcontent])
      · change ∀ x, Queue.stored? t.content _ = some x → _
        rw [hcontent]
        refine (hm c hc).carries hchange (fun x hr => ?_) h
        subst hr
        refine hnew x (accepted_of_change hc hd hasks (hm c hc) hchange hcontent hresult ?_)
        intro y c' hy
        obtain ⟨reply', q', hasked, hreply, -⟩ := hout y c' hy
        rw [hreply, (hq _ _ hasked).1]
  | opened hc hd hf hresult =>
    obtain ⟨m₁, tr₁, opened, gone, kept, hpings, hrebuilt, -, -⟩ := opening_cases hf
    rcases hrebuilt.changed (Record.key p.id) with heq | ⟨hgone, -⟩
    · exact hsame (heq.trans (hpings _ (Record.isPingKey_key p.id)))
    · intro x hx
      change Queue.stored? t.content _ = some x at hx
      rw [Queue.stored?, hgone] at hx
      cases hx
  | idle hcontent _ _ _ _ => exact hsame (by rw [hcontent])

/-- What was taken under an id is all that is ever read under it, until another ping is taken. -/
theorem History.carries {m₀ : Content} {later earlier : List Moment} {t : Moment} {w : World}
    {p : Ping} (hh : History ⟨m₀, none⟩ (later ++ t :: earlier) w) (hp : t.accepted? = some p)
    (hlast : ∀ u ∈ later, ∀ x, u.accepted? = some x → x.id ≠ p.id) : w.Carries p := by
  induction later generalizing w with
  | nil =>
    cases hh with
    | next _ ht => exact carries_of_accepted ht hp
  | cons u later ih =>
    cases hh with
    | next hh ht =>
      have hcarries := ih hh fun v hv => hlast v (List.mem_cons_of_mem u hv)
      exact hcarries.step hh.mirrored ht (hlast u List.mem_cons_self)

/-! ## Attempts -/

/-- A run hands the ping to the uploader, in this request and under this configuration. -/
structure Moment.Sends (t : Moment) (g : Gzip) (c : Configuration) (p : Ping) (w : Wire) : Prop where
  hands : t.Hands p
  request : ∃ (client : Client) (now : Time.Instant), t.before.client = some client ∧
    client.desk.scheduler.config = c ∧
      w = Wire.ofPing g c client.desk.scheduler.plan.compress now p

/-- **A queued ping is delivered as it was assembled.** -/
theorem delivered_as_assembled (g : Gzip) {m₀ : Content} {later earlier : List Moment} {t u : Moment}
    {r : Assembly.Request} {s : Snapshot} {c₁ c₂ : Configuration} {limit : Nat} {id : Uuid}
    {made : Time.Instant} {p p' : Ping} {drew : Bool} {w : Wire}
    (hmade : Assembly.assemble r c₁ s limit id made = (.ok p, drew)) (hp : t.accepted? = some p)
    (hh : History ⟨m₀, none⟩ (later ++ t :: earlier) u.before)
    (hlast : ∀ v ∈ later, ∀ x, v.accepted? = some x → x.id ≠ p.id)
    (hu : u.Happens) (hsends : u.Sends g c₂ p' w) (hid : p'.id = p.id) :
    Delivers g r s c₁ id c₂ w := by
  obtain ⟨hands, client, now, -, rfl, rfl⟩ := hsends
  obtain ⟨c, rest, hc, hpings⟩ := hands.head hu
  have hheld := (hh.mirrored c hc).held p' (hpings ▸ List.mem_cons_self)
  have hcontent : p'.settled.content = p.settled.content :=
    hh.carries hp hlast p'.settled (hid ▸ hheld)
  have hid : p'.settled.id = p.settled.id := hid
  rw [← Wire.ofPing_settled, Wire.ofPing_congr hid hcontent, Wire.ofPing_settled, Assembly.eq_ping_of_assemble hmade]
  exact delivers_ofPing g r s c₁ _ id _ made now

/-! ## A delivery by another process -/

namespace Upload.Gzip

def crc (b : Bytes) : UInt32 :=
  ~~~ b.foldl (fun c x => (List.range 8).foldl
    (fun c _ => if c &&& 1 = 1 then (c >>> 1) ^^^ 0xEDB88320 else c >>> 1) (c ^^^ x.toUInt32))
    0xFFFFFFFF

/-- The bytes as they are, in a single block with room for as many as two bytes can count. -/
def store (b : Bytes) : Option Bytes :=
  if b.length < 65536 then
    some (([0x1F, 0x8B, 8, 0, 0, 0, 0, 0, 0, 255, 1] ++ Record.littleEndian 2 b.length ++
      Record.littleEndian 2 (65535 - b.length)) ++
        (b ++ (Record.littleEndian 4 (crc b).toNat ++ Record.littleEndian 4 b.length)))
  else none

def unstore (z : Bytes) : Option Bytes :=
  let b := (z.drop 15).take (z.length - 23)
  if store b = some z then some b else none

/-- The least that compresses. -/
def stored : Gzip where
  zip := store
  unzip := unstore
  unzip_zip b z h := by
    have hb : (z.drop 15).take (z.length - 23) = b := by
      unfold store at h
      split at h
      · cases h
        rw [List.drop_left' (by simp [Record.Scan.length_littleEndian]), List.take_left']
        simp only [List.length_append, Record.Scan.length_littleEndian, List.length_cons,
          List.length_nil]
        omega
      · cases h
    simp only [unstore, hb, h, if_true]

end Upload.Gzip

/-- Another application's settings over the same store. -/
def Opening.other : Opening where
  config := ⟨"other", Opening.plain.config.endpoint, "other agent", some "beta", 1, true,
    some ⟨"live", by decide, by decide, by decide⟩, by decide, Nat.one_pos⟩
  settings := { LifecycleSettings.standard with maxAttempts := 2 }
  fresh := .drawn 4
  handle := false

theorem representable_zero : Time.Representable 0 0 := by decide

def Snapshot.ofOneEvent : Snapshot :=
  ⟨.empty, [⟨0, "a", "b", .empty⟩], ⟨0, 0, representable_zero⟩, ⟨0, 0, representable_zero⟩⟩

def Ping.ofOneEvent : Ping :=
  Assembly.ping ⟨"events", none, none⟩ Opening.plain.config .ofOneEvent (.drawn 3)
    ⟨0, 0, representable_zero⟩

/-- A document of so few characters makes a small payload. -/
theorem size_of_short {r : Assembly.Request} {c : Configuration} {s : Snapshot} {id : Uuid}
    {now : Time.Instant} (h : (Assembly.document r c id s).chars.length ≤ 1000) :
    (Assembly.ping r c s id now).size ≤ 4 * 1000 :=
  (Bytes.length_ofText_le _).trans (Nat.mul_le_mul_left 4 h)

theorem assemble_of_short {r : Assembly.Request} {c : Configuration} {s : Snapshot} {id : Uuid}
    {now : Time.Instant} {limit : Nat} (hrefusal : Assembly.refusal? r s = none)
    (h : (Assembly.document r c id s).chars.length ≤ 1000) (hlimit : 4 * 1000 ≤ limit) :
    Assembly.assemble r c s limit id now = (.ok (Assembly.ping r c s id now), true) := by
  rw [Assembly.assemble, hrefusal]
  exact congrArg (·, true) (if_neg (Nat.not_lt.2 ((size_of_short h).trans hlimit)))

theorem fits_of_short {r : Assembly.Request} {s : Snapshot} {id : Uuid} {now : Time.Instant}
    (htype : r.documentType.toList.length ≤ 1000)
    (hpath : (Submission.path Opening.plain.config.applicationId r.documentType id).toList.length ≤ 1000)
    (h : (Assembly.document r Opening.plain.config id s).chars.length ≤ 1000) :
    (Assembly.ping r Opening.plain.config s id now).Fits := by
  have hshort (s : String) (h : s.toList.length ≤ 1000) : (Bytes.ofText s).length ≤ Record.longest :=
    Record.length_ofText_le_longest ((Nat.mul_le_mul_left 4 h).trans (by decide))
  have hsize : (Assembly.ping r Opening.plain.config s id now).size ≤ 4 * 1000 := size_of_short h
  refine ⟨hshort _ htype, lt_of_le_of_lt hsize (by decide), ?_⟩
  exact ⟨hshort Opening.plain.config.endpoint.text (by decide +kernel), hshort _ hpath,
    hshort Opening.plain.config.userAgent (by decide), (fun t ht => by cases ht),
    fun t ht => by cases ht⟩

theorem short_ofOneEvent : (Assembly.document ⟨"events", none, none⟩ Opening.plain.config (.drawn 3)
    .ofOneEvent).chars.length ≤ 1000 := by decide +kernel

theorem size_ofOneEvent : Ping.ofOneEvent.size ≤ 4 * 1000 := size_of_short short_ofOneEvent

theorem fits_ofOneEvent : Ping.ofOneEvent.Fits :=
  fits_of_short (by decide) (by decide +kernel) short_ofOneEvent

theorem assemble_ofOneEvent : Assembly.assemble ⟨"events", none, none⟩ Opening.plain.config
    .ofOneEvent LifecycleSettings.standard.maxPingSize (.drawn 3) ⟨0, 0, by decide⟩ =
      (.ok .ofOneEvent, true) :=
  assemble_of_short (by decide) short_ofOneEvent (by decide)

theorem admits_ofOneEvent :
    Opening.other.settings.queueConfig.admits [Ping.ofOneEvent.attempted] = true := by
  have htotal : Queue.totalSize [Ping.ofOneEvent.attempted] ≤ 4 * 1000 := by
    rw [Queue.totalSize, List.foldr_cons, List.foldr_nil, Nat.add_zero]
    exact size_ofOneEvent
  refine Bool.and_eq_true_iff.2 ⟨by decide, decide_eq_true (htotal.trans ?_)⟩
  decide

/-- The process that opens the map, and its run. -/
def Client.other (phase : Run.Phase) : Client :=
  { Client.created Opening.other.config Opening.other.settings Opening.other.fresh
      (.restored Opening.other.settings.queueConfig [Ping.ofOneEvent.attempted] 0 0) with
    runs := [phase] }

theorem sends_other (m : Content) : ∃ u : Moment,
    u.before = ⟨m, some (.other (.looking .zero))⟩ ∧ u.Happens ∧
      u.Sends .stored Opening.other.config Ping.ofOneEvent.attempted
        (Wire.ofPing .stored Opening.other.config true ⟨0, 0, by decide⟩ Ping.ofOneEvent.attempted) := by
  refine ⟨⟨⟨m, some (.other (.looking .zero))⟩, .act (.look 0 false), _,
    some (some (.ok (.pings [Ping.ofOneEvent.attempted])),
      some (.other (.uploading Ping.ofOneEvent.attempted .zero))), m⟩, rfl,
    ⟨.tell (.tell (.done _ _)), fun r hr => ?_⟩,
    ⟨⟨_, _, 0, false, .zero, rfl, rfl, rfl, rfl, rfl⟩, _, _, rfl, rfl, rfl⟩⟩
  cases hr
  exact fun _ h => by cases h

theorem isCompressed_ofOneEvent (c : Configuration) (now : Time.Instant) :
    (Wire.ofPing .stored c true now Ping.ofOneEvent.attempted).isCompressed = true := by
  have hfits : Ping.ofOneEvent.attempted.payload.length < 65536 :=
    lt_of_le_of_lt size_ofOneEvent (by decide)
  rw [Wire.ofPing, if_pos rfl]
  have hzip : Gzip.stored.zip Ping.ofOneEvent.attempted.payload = some _ := if_pos hfits
  rw [hzip, Wire.isCompressed, Request.get?_headersFor]
  rfl

/-- A ping has failed once and its process has ended. A process that was set up otherwise sends it as
it was assembled, compressed and under a tag of its own. -/
theorem delivered_by_other : ∃ (later earlier : List Moment) (t u : Moment) (w : Wire),
    History ⟨fun _ => none, none⟩ (later ++ t :: earlier) u.before ∧
      t.accepted? = some .ofOneEvent ∧ u.Happens ∧
      u.Sends .stored Opening.other.config Ping.ofOneEvent.attempted w ∧ w.isCompressed = true ∧
      Delivers .stored ⟨"events", none, none⟩ .ofOneEvent Opening.plain.config (.drawn 3)
        Opening.other.config w := by
  let m₁ := (Queue.storePut .ofOneEvent).effect fun _ => none
  let m₂ := (Queue.storePut Ping.ofOneEvent.attempted).effect m₁
  obtain ⟨tr₁, hopen⟩ := happens_open_nil
  obtain ⟨tr₂, henqueue⟩ := happens_enqueue (c := .plain) (p := .ofOneEvent) (fun _ => none) rfl rfl
    fits_ofOneEvent
  have hfind : ((Queue.restored LifecycleSettings.standard.queueConfig [] 0 0).push
      .ofOneEvent).find? Ping.ofOneEvent.id = some .ofOneEvent := Queue.find_head rfl
  obtain ⟨tr₃, hretry⟩ := Queue.follows_retry rfl hfind (by decide) m₁
  obtain ⟨tr₃, hfailure⟩ := happens_request (c := Client.plain.setQueue _) hretry fun x hx => by
    cases hx
  have hh := ((History.start.next hopen).next henqueue).next hfailure
  have hending (m : Content) (c : Client) : Moment.Happens
      ⟨⟨m, some c⟩, .ending, [], some (none, none), m⟩ := ⟨.done _ _, fun r hr => by cases hr⟩
  have hcontent : (Memory.ofPings [Ping.ofOneEvent.attempted, .ofOneEvent]).records.get? = m₂ := by
    rw [get?_ofPings_cons, get?_ofPings_cons]
    rfl
  have hm : Queue.Mirror (Memory.ofPings [Ping.ofOneEvent.attempted, .ofOneEvent]).records.get?
      [Ping.ofOneEvent.attempted] := by
    rw [hcontent]
    exact hh.mirrored _ rfl
  obtain ⟨tr₄, hreopen⟩ := happens_open (o := .other) rfl (working_ofPings _) hm
    (List.pairwise_singleton _ _) (List.forall_mem_singleton.2 (by decide)) admits_ofOneEvent
  rw [hcontent] at hreopen
  have hstart := happens_act (c := .created Opening.other.config Opening.other.settings
    Opening.other.fresh (.restored Opening.other.settings.queueConfig
      [Ping.ofOneEvent.attempted] 0 0)) (a := .startRun) m₂ rfl rfl
  obtain ⟨u, hbefore, hu, hsends⟩ := sends_other m₂
  have hh : History _ ([_, _, _, _] ++ _ :: [_]) ⟨m₂, some (.other (.looking .zero))⟩ :=
    ((hh.next (hending _ _)).next hreopen).next hstart
  rw [← hbefore] at hh
  refine ⟨_, _, _, u, _, hh, rfl, hu, hsends, isCompressed_ofOneEvent _ _,
    delivered_as_assembled .stored assemble_ofOneEvent rfl hh ?_ hu hsends rfl⟩
  intro v hv x hx
  simp only [List.mem_cons, List.not_mem_nil, or_false] at hv
  rcases hv with rfl | rfl | rfl | rfl <;> cases hx

end PingDelivery
