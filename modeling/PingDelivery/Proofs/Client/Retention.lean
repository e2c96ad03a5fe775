import PingDelivery.Proofs.Client.Steps

/-! # Pings are kept until they are released

A ping that the queue has taken stays in the store under its own key, readable and with everything
it was enqueued with, over all that can happen later: other requests, failing calls, processes that
die, openings with any quotas. Only what `Releases` lists takes it out. The time in its record is the
one it was made at unless that lies in a leap second within a minute; then it is the same moment told
as one of the next second. The proof carries two facts along a history, that the store mirrors the
queue and that every answer a run is about to acknowledge was given by the uploader.
-/

namespace PingDelivery
open Store Upload

/-- The ping does not fit into the quotas together with all pings behind it. -/
def Queue.OverQuota (c : Queue.Config) (m : Content) (id : Uuid) : Prop :=
  ∃ a p b, Queue.Listing m (a ++ p :: b) ∧ p.id = id ∧ c.admits (p :: b) = false

namespace Moment

/-- The uploader gives this answer for the ping. -/
def Answers (t : Moment) (p : Ping) (o : Outcome) : Prop :=
  ∃ (c : Client) (i : Nat) (s : Summary), t.before.client = some c ∧ t.deed = .act (.answer i o) ∧
    c.runs[i]? = some (.uploading p s)

/-- Why the record of a ping may go, after the moments `earlier`. -/
inductive Cause (earlier : List Moment) (t : Moment) (id : Uuid) : Prop where
  /-- A caller acknowledges it. -/
  | acked {passed : Bool} {r : Queue.Request} (deed : t.deed = .act (.request passed r))
      (request : r = .ackSuccess id ∨ r = .ackUnrecoverable id)
  /-- A run acknowledges what the uploader has answered. -/
  | uploaded {c : Client} {i : Nat} {passed : Bool} {p : Ping} {o : Outcome} {s : Summary}
      (client : t.before.client = some c) (deed : t.deed = .act (.settle i passed))
      (run : c.runs[i]? = some (.settling p o s)) (ping : p.id = id)
      (answer : ∃ u ∈ earlier, u.Answers p o)
      (final : o = .success ∨ ∃ reason, o = .unrecoverable reason)
  /-- A recoverable failure is its last. -/
  | exhausted {c : Client} {p : Ping} (client : t.before.client = some c)
      (request : t.request = some (.ackRecoverable id)) (pending : c.queue.find? id = some p)
      (attempts : c.queue.config.maxAttempts ≤ p.attempted.attempts)
  /-- An opening finds it over quota. -/
  | overQuota {o : Opening} (client : t.before.client = none) (deed : t.deed = .opening o)
      (quota : Queue.OverQuota o.settings.queueConfig t.before.content id)

/-- The moment takes the record of the ping out of the store, and for one of the causes. -/
def Releases (earlier : List Moment) (t : Moment) (id : Uuid) : Prop :=
  t.content (Record.key id) = none ∧ t.Cause earlier id

end Moment

/-! ## Answers -/

/-- Every answer that a run is about to acknowledge was given in the history. -/
def World.Answered (h : List Moment) (w : World) : Prop :=
  ∀ (c : Client) (i : Nat) (p : Ping) (o : Outcome) (s : Summary), w.client = some c →
    c.runs[i]? = some (.settling p o s) → ∃ u ∈ h, u.Answers p o

theorem not_idle_settling (p : Ping) (o : Outcome) (s : Summary) :
    ¬ Run.Phase.Idle (.settling p o s) := by
  rintro (⟨_, h⟩ | ⟨_, h⟩) <;> cases h

theorem World.Answered.step {h : List Moment} {t : Moment} (hw : t.before.Answered h)
    (ht : t.Happens) : t.after.Answered (t :: h) := by
  intro c' j p o s hc' hj
  have hold {c : Client} (hc : t.before.client = some c)
      (hrun : c.runs[j]? = some (.settling p o s)) : ∃ u ∈ t :: h, u.Answers p o := by
    obtain ⟨u, hu, hanswers⟩ := hw c j p o s hc hrun
    exact ⟨u, List.mem_cons_of_mem _ hu, hanswers⟩
  have hstep {c : Client} {a : Client.Action} {r : Client.Reply} (hc : t.before.client = some c)
      (hd : t.deed = .act a) (hrun : c.RunStep a r c'.runs) : ∃ u ∈ t :: h, u.Answers p o := by
    rcases hrun.busy hj (not_idle_settling p o s) with hj | ⟨_, _, _, _, _, -, -, h⟩ |
      ⟨i, _, _, s', rfl, hi, h⟩
    · exact hold hc hj
    · cases h
    · cases h
      exact ⟨t, List.mem_cons_self, c, i, _, hc, hd, hi⟩
  cases ht.lives hc' with
  | acted hc hd _ hf =>
    obtain ⟨-, ⟨-, -, hout⟩ | ⟨_, _, _, -, -, hout⟩⟩ := Client.perform_cases hf
    · obtain ⟨-, -, hrun⟩ := hout _ _ rfl
      exact hstep hc hd hrun
    · obtain ⟨_, _, -, -, -, hrun⟩ := hout _ _ rfl
      exact hstep hc hd hrun
  | opened _ _ _ _ hcreated =>
    subst hcreated
    cases hj
  | idle hc _ _ => exact hold hc hj

theorem History.answered {m₀ : Content} {h : List Moment} {w : World}
    (hh : History ⟨m₀, none⟩ h w) : w.Answered h := by
  induction hh with
  | start => exact fun c i p o s hc => by cases hc
  | next _ ht ih => exact ih.step ht

/-! ## Keeping -/

/-- The store holds the ping: its record reads as what was enqueued, number and attempts aside. -/
def World.Keeps (w : World) (p : Ping) : Prop :=
  ∃ x, Queue.stored? w.content (Record.key p.id) = some x ∧ x.id = p.id ∧
    x.content = p.settled.content

theorem Ping.content_settled_iff {p : Ping} :
    p.settled.content = p.content ↔ p.createdAt.Civil := by
  rw [← Time.Instant.settled_eq_self_iff]
  refine ⟨fun h => congrArg Content.createdAt h, fun h => ?_⟩
  rw [settled, h]

/-- What the queue has taken is in the store. -/
theorem keeps_of_accepted {t : Moment} {p : Ping} (ht : t.Happens) (h : t.accepted? = some p) :
    t.after.Keeps p := by
  obtain ⟨hreq, hor⟩ := Moment.accepted_cases h
  have hp := ht.fits _ hreq p rfl
  cases ht.course with
  | @acted c a out hc hd hf hresult =>
    rw [Moment.request_of_act hc hd] at hreq
    obtain ⟨-, ⟨hasks, -⟩ | ⟨passed, r, asked, hasks, hattended, hout⟩⟩ := Client.perform_cases hf
    · rw [hasks] at hreq
      cases hreq
    · rw [hasks] at hreq
      cases hreq
      rcases hattended.same_or_change with ⟨hsame, hrefused⟩ | ⟨call, q, reply, hchange, hwritten, -⟩
      · rcases hor with hreply | ⟨-, hdiffers⟩
        · cases out with
          | none =>
            rw [Moment.reply, hresult] at hreply
            cases hreply
          | some x =>
            obtain ⟨reply, q, rfl, hx, -⟩ := hout x.1 x.2 rfl
            rw [Moment.reply, hresult] at hreply
            change x.1 = some (.ok .accepted) at hreply
            rw [hx] at hreply
            cases hreply
            obtain ⟨l, hl⟩ := (hrefused _ q rfl).1 _ rfl
            cases hl
        · rw [hsame] at hdiffers
          exact absurd rfl hdiffers
      · obtain ⟨-, rfl, -⟩ := hchange.enqueue
        refine ⟨{ p with sequence := c.queue.nextSequence }.settled, ?_, rfl, rfl⟩
        change Queue.stored? t.content _ = _
        rw [hwritten]
        exact Queue.stored_put_self (hp.numbered _) _
  | opened hc _ _ _ =>
    rw [Moment.request, hc] at hreq
    cases hreq
  | idle _ _ hacts _ _ =>
    unfold Moment.request at hreq
    split at hreq
    · rename_i c a hc hd
      rw [hacts a hd] at hc
      cases hc
    · cases hreq

/-- A request that acknowledges a ping for good comes from a caller or from a run that has the
uploader's answer. -/
theorem cause_of_acked {h : List Moment} {t : Moment} {c : Client} {a : Client.Action}
    {passed : Bool} {r : Queue.Request} {id : Uuid} (hc : t.before.client = some c)
    (hd : t.deed = .act a) (hasks : c.asks a = some (passed, r)) (ha : t.before.Answered h)
    (hr : r = .ackSuccess id ∨ r = .ackUnrecoverable id) : t.Cause h id := by
  cases a with
  | request passed' r' =>
    cases hasks
    exact .acked hd hr
  | enqueue i passed' =>
    simp only [Client.asks] at hasks
    split at hasks
    · cases hasks
      rcases hr with hr | hr <;> cases hr
    · cases hasks
  | look i passed' =>
    simp only [Client.asks] at hasks
    split at hasks
    · split at hasks
      · cases hasks
      · cases hasks
        rcases hr with hr | hr <;> cases hr
    · cases hasks
  | settle i passed' =>
    simp only [Client.asks] at hasks
    split at hasks
    · rename_i p o s hrun
      have hanswer := ha c i p o s hc hrun
      cases hasks
      cases o with
      | success =>
        rcases hr with hr | hr <;> cases hr
        exact .uploaded hc hd hrun rfl hanswer (.inl rfl)
      | unrecoverable reason =>
        rcases hr with hr | hr <;> cases hr
        exact .uploaded hc hd hrun rfl hanswer (.inr ⟨reason, rfl⟩)
      | recoverable reason => rcases hr with hr | hr <;> cases hr
    · cases hasks
  | _ => cases hasks

/-- A moment that does not release the ping leaves it in the store, and calls no record of it
unreadable. -/
theorem World.Keeps.step {h : List Moment} {t : Moment} {p : Ping} (hk : t.before.Keeps p)
    (hm : t.before.Mirrored) (ha : t.before.Answered h) (ht : t.Happens)
    (hr : ¬ t.Releases h p.id) :
    t.after.Keeps p ∧ Queue.Undiscarded (Record.key p.id) t.trace := by
  obtain ⟨x, hx, hid, hcontent⟩ := hk
  have hsame (hk : t.content (Record.key p.id) = t.before.content (Record.key p.id)) :
      t.after.Keeps p := ⟨x, (Queue.stored_congr hk).trans hx, hid, hcontent⟩
  cases ht.course with
  | @acted c a out hc hd hf hresult =>
    obtain ⟨htr, ⟨-, hcontent', -⟩ | ⟨passed, r, asked, hasks, hattended, hout⟩⟩ :=
      Client.perform_cases hf
    · exact ⟨hsame (by rw [hcontent']), htr _⟩
    · refine ⟨?_, htr _⟩
      rcases hattended.same_or_change with ⟨hm', -⟩ | ⟨call, q, reply, hchange, hm', -⟩
      · exact hsame (by rw [hm'])
      · rw [← hid] at hr
        have hx' : Queue.stored? t.before.content (Record.key x.id) = some x := hid ▸ hx
        rw [Moment.Releases, hm'] at hr
        rcases (hm c hc).keeps hchange hx' with ⟨y, hy, hyid, hycontent⟩ |
          ⟨hgone, hacked | ⟨hrecoverable, z, hz, hmax⟩⟩
        · refine ⟨y, ?_, hyid.trans hid, hycontent.trans hcontent⟩
          change Queue.stored? t.content _ = _
          rw [hm', ← hid]
          exact hy
        · exact absurd ⟨hgone, cause_of_acked hc hd hasks ha hacked⟩ hr
        · have hreq : t.request = some (.ackRecoverable x.id) := by
            rw [Moment.request_of_act hc hd, hasks, ← hrecoverable]
            rfl
          exact absurd ⟨hgone, .exhausted hc hreq hz hmax⟩ hr
  | @opened o out hc hd hf hresult =>
    obtain ⟨m₁, tr₁, opened, gone, kept, hpings, hrebuilt, htr, -⟩ := opening_cases hf
    have hkey : Record.isPingKey (Record.key p.id) = true := Record.isPingKey_key p.id
    refine ⟨?_, htr _ (Queue.unreadable_of_stored hx)⟩
    rcases hrebuilt.changed (Record.key p.id) with heq | ⟨hgone, hu | ⟨y, hy, hyid⟩⟩
    · exact hsame (heq.trans (hpings _ hkey))
    · rw [hpings.unreadable, Queue.unreadable_of_stored hx] at hu
      cases hu
    · -- the ping is among those deleted: then it did not fit
      obtain ⟨a, b, hab⟩ := List.append_of_mem hy
      have hlisting : Queue.Listing m₁ (gone ++ kept) := by
        rcases hrebuilt.listing with hnil | hlisting
        · rw [hnil] at hy
          cases hy
        · exact hlisting
      rw [hab, List.append_assoc] at hlisting
      have hover : Queue.OverQuota o.settings.queueConfig t.before.content p.id :=
        ⟨a, y, b ++ kept, hpings.listing hlisting, Record.key_injective hyid,
          hrebuilt.overQuota a y b hab⟩
      exact absurd ⟨hgone, .overQuota hc hd hover⟩ hr
  | idle hm' htr _ _ _ =>
    rw [htr]
    exact ⟨hsame (by rw [hm']), .nil⟩

/-- **At least once, and no silent loss.** What is kept is all that was enqueued; its time is the same in
every field unless it lies in a leap second within a minute. -/
theorem kept_until_released {m₀ : Content} {later earlier : List Moment} {t : Moment} {w : World}
    {p : Ping} (hh : History ⟨m₀, none⟩ (later ++ t :: earlier) w) (hp : t.accepted? = some p)
    (hkeep : ∀ a u b, later = a ++ u :: b → ¬ u.Releases (b ++ t :: earlier) p.id) :
    (∃ x, Queue.stored? w.content (Record.key p.id) = some x ∧ x.id = p.id ∧
      x.content = p.settled.content ∧ (x.content = p.content ↔ p.createdAt.Civil)) ∧
      ∀ u ∈ later, Queue.Undiscarded (Record.key p.id) u.trace := by
  suffices hkept : w.Keeps p ∧ ∀ u ∈ later, Queue.Undiscarded (Record.key p.id) u.trace by
    obtain ⟨⟨x, hx, hid, hcontent⟩, htr⟩ := hkept
    exact ⟨⟨x, hx, hid, hcontent, hcontent ▸ Ping.content_settled_iff⟩, htr⟩
  induction later generalizing w with
  | nil =>
    cases hh with
    | next _ ht => exact ⟨keeps_of_accepted ht hp, fun u hu => absurd hu List.not_mem_nil⟩
  | cons u later ih =>
    cases hh with
    | next hh ht =>
      obtain ⟨hkept, htr⟩ := ih hh fun a v b hab => hkeep (u :: a) v b (by rw [hab]; rfl)
      obtain ⟨hkept', htr'⟩ := World.Keeps.step hkept hh.mirrored hh.answered ht
        (hkeep [] u later rfl)
      refine ⟨hkept', ?_⟩
      intro v hv
      rcases List.mem_cons.1 hv with rfl | hv
      · exact htr'
      · exact htr v hv

theorem kept_over_an_ending : ∃ h w, History ⟨fun _ => none, none⟩ h w ∧ w.client = none ∧
    ∃ x, Queue.stored? w.content (Record.key Queue.blank.id) = some x ∧
      x.content = Queue.blank.content := by
  obtain ⟨tr, hopen⟩ := happens_open_nil
  obtain ⟨tr', henqueue⟩ := happens_enqueue (c := .plain) (p := Queue.blank) (fun _ => none) rfl rfl
    Queue.fits_blank
  have hending (m : Content) (c : Client) : Moment.Happens
      ⟨⟨m, some c⟩, .ending, [], some (none, none), m⟩ := ⟨.done _ _, fun r hr => by cases hr⟩
  have hh := ((History.start.next hopen).next henqueue).next (hending _ _)
  obtain ⟨⟨x, hx, -, -, hcontent⟩, -⟩ := @kept_until_released _ [_] _ _ _ _ hh rfl
    fun a u b hab hrel => by
      cases a with
      | nil =>
        obtain ⟨rfl, rfl⟩ := List.cons.inj hab
        cases hrel.2 with
        | acked hd _ => cases hd
        | uploaded _ hd _ _ _ _ => cases hd
        | exhausted _ hreq _ _ => cases hreq
        | overQuota _ hd _ => cases hd
      | cons v a =>
        have hlen := congrArg List.length hab
        simp only [List.length_cons, List.length_append, List.length_nil] at hlen
        omega
  exact ⟨_, _, hh, rfl, x, hx, hcontent.2 (by decide)⟩

/-- The enqueue of a ping made in a leap second within a minute has returned, and its record already
tells another time. -/
theorem kept_as_made_later : ∃ (t : Moment) (earlier : List Moment) (x : Ping),
    History ⟨fun _ => none, none⟩ (t :: earlier) t.after ∧ t.returned? = some Record.hasty ∧
      Queue.stored? t.content (Record.key Record.hasty.id) = some x ∧
      x.createdAt = ⟨1700006165, 333333333, by decide⟩ ∧
      Record.hasty.createdAt = ⟨1700006164, 1333333333, by decide⟩ := by
  obtain ⟨tr, hopen⟩ := happens_open_nil
  obtain ⟨tr', henqueue⟩ := happens_enqueue (c := .plain) (p := Record.hasty) (fun _ => none) rfl rfl
    Record.fits_hasty
  exact ⟨_, _, _, (History.start.next hopen).next henqueue, rfl,
    Queue.stored_put_self (Record.fits_hasty.numbered 0) _, rfl, rfl⟩

end PingDelivery
