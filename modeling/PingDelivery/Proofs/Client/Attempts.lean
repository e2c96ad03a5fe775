import PingDelivery.Proofs.Client.Order

/-! # The ceiling of attempts, across restarts

A ping's count of attempts is kept in its record, which is written anew at each recoverable failure
and read again at each opening. `failures` counts the failures in the history instead, since the ping
was last taken. The two agree over everything that can happen, and so the ceiling holds for the
history: the failure that reaches it is the last one. A process may die under an acknowledgement
when its record is already written; that failure counts, as no later one can tell the difference.
-/

namespace PingDelivery
open Store Upload

/-! ## Counting in the history -/

namespace Moment

/-- What became of a ping, as the reply says. -/
def disposition? (t : Moment) : Option Queue.Disposition :=
  match t.reply with
  | some (.ok (.retry d)) => some d
  | _ => none

/-- The ping of which a recoverable failure was put down: its acknowledgement succeeded, or the
process died under it when the store had already changed. -/
def failed? (t : Moment) : Option Uuid :=
  match t.request with
  | some (.ackRecoverable id) =>
    if t.disposition?.isSome ∨
        t.result.isNone ∧ t.content (Record.key id) ≠ t.before.content (Record.key id) then
      some id
    else none
  | _ => none

end Moment

/-- How many of the moments count, of those after the last one that starts the count anew. -/
def countSince (starts counts : Moment → Bool) : List Moment → Nat
  | [] => 0
  | t :: h => if starts t then 0 else countSince starts counts h + (counts t).toNat

/-- The recoverable failures of the ping since it was taken. -/
def failures (id : Uuid) : List Moment → Nat :=
  countSince (·.accepted?.any (·.id = id)) (·.failed? = some id)

/-- The same by what the callers were told: the acknowledgements that returned `Ok` since the enqueue
that did. -/
def returnedFailures (id : Uuid) : List Moment → Nat :=
  countSince (·.returned?.any (·.id = id))
    fun t => t.request = some (.ackRecoverable id) && t.disposition?.isSome

theorem countSince_congr {starts starts' counts counts' : Moment → Bool} {h : List Moment}
    (hs : ∀ t ∈ h, starts t = starts' t) (hc : ∀ t ∈ h, counts t = counts' t) :
    countSince starts counts h = countSince starts' counts' h := by
  induction h with
  | nil => rfl
  | cons t h ih =>
    rw [countSince, countSince, hs t List.mem_cons_self, hc t List.mem_cons_self,
      ih (fun u hu => hs u (List.mem_cons_of_mem _ hu)) fun u hu => hc u (List.mem_cons_of_mem _ hu)]

/-- A failure put down while the process lives is one that the caller was told of. -/
theorem Moment.failed_iff {t : Moment} (halive : t.result = none → t.failed? = none) (id : Uuid) :
    t.failed? = some id ↔ t.request = some (.ackRecoverable id) ∧ t.disposition?.isSome := by
  unfold Moment.failed? at halive ⊢
  cases hreq : t.request with
  | none => simp
  | some r =>
    rw [hreq] at halive
    cases r with
    | ackRecoverable id' =>
      by_cases hsome : t.disposition?.isSome
      · simp [hsome]
      · by_cases hnone : t.result = none
        · rw [halive hnone]
          simp [hsome]
        · simp [hsome, hnone]
    | _ => simp

/-- Where no process dies under a call that has changed the store, the failures are those that the
callers were told of. -/
theorem failures_eq_returned {h : List Moment}
    (halive : ∀ t ∈ h, t.result = none → t.accepted? = none ∧ t.failed? = none) (id : Uuid) :
    failures id h = returnedFailures id h := by
  refine countSince_congr ?_ ?_
  · intro t ht
    rw [Moment.returned_eq_accepted fun hdied => (halive t ht hdied).1]
  · intro t ht
    have hiff := Moment.failed_iff (fun hdied => (halive t ht hdied).2) id
    rw [decide_eq_decide.2 hiff, Bool.decide_and, Bool.decide_eq_true]

section
variable {t : Moment} {h : List Moment} {id : Uuid}

theorem failures_of_accepted {p : Ping} (ht : t.accepted? = some p) (hid : p.id = id) :
    failures id (t :: h) = 0 := by
  simp [failures, countSince, ht, hid]

theorem failures_of_failed (ht : t.accepted? = none) (hf : t.failed? = some id) :
    failures id (t :: h) = failures id h + 1 := by
  simp [failures, countSince, ht, hf]

/-- A moment at which the ping is neither taken nor fails does not count for it. -/
theorem failures_of_other (ht : ∀ p, t.accepted? = some p → p.id ≠ id) (hf : t.failed? ≠ some id) :
    failures id (t :: h) = failures id h := by
  have hany : t.accepted?.any (·.id = id) = false := by
    cases hp : t.accepted? with
    | none => rfl
    | some p => simpa using ht p hp
  simp [failures, countSince, hany, hf]

/-- A moment at which nothing changes takes no ping and puts no failure down. -/
theorem uncounted_of_same (hcontent : t.content = t.before.content)
    (hreply : ∀ reply, t.reply = some (.ok reply) → ∃ l, reply = .pings l) :
    t.accepted? = none ∧ t.failed? = none := by
  have haccepted : t.reply ≠ some (.ok .accepted) := by
    intro h
    obtain ⟨l, hl⟩ := hreply _ h
    cases hl
  have hdisposition : t.disposition? = none := by
    unfold Moment.disposition?
    split
    · rename_i h
      obtain ⟨l, hl⟩ := hreply _ h
      cases hl
    · rfl
  constructor
  · unfold Moment.accepted?
    split
    · simp [haccepted, hcontent]
    · rfl
  · unfold Moment.failed?
    split
    · simp [hdisposition, hcontent]
    · rfl

end

/-! ## The count in the record is the count in the history -/

/-- Below a ceiling a count has a successor. -/
theorem Ping.toNat_attempts_succ {p : Ping} {K : UInt32} (h : p.attempts < K) :
    (p.attempts + 1).toNat = p.attempts.toNat + 1 := by
  have hlt := UInt32.lt_iff_toNat_lt.1 h
  have hK := K.toNat_lt
  rw [UInt32.toNat_add, UInt32.toNat_one]
  exact Nat.mod_eq_of_lt (by omega)

/-- Below a ceiling the count does not run full. -/
theorem Ping.attempts_attempted {p : Ping} {K : UInt32} (h : p.attempts < K) :
    p.attempted.attempts.toNat = p.attempts.toNat + 1 := by
  have hsucc := toNat_attempts_succ h
  have hroom := (p.attempts + 1).toNat_lt
  have hattempted : p.attempted.attempts = p.attempts + 1 := if_pos (by omega)
  rw [hattempted, hsucc]

/-- Every record has been written with the count of its ping's failures, and none has reached the
ceiling. -/
structure Counted (K : UInt32) (h : List Moment) (m : Content) : Prop where
  stored : ∀ k p, Queue.stored? m k = some p →
    p.attempts.toNat = failures p.id h ∧ p.attempts < K
  bounded : ∀ id, failures id h ≤ K.toNat

namespace Counted
variable {K : UInt32} {h : List Moment} {t : Moment} {m m' : Content}

/-- A moment that counts for one ping at most, and changes no other record. -/
theorem changed_at (hm : Counted K h m) (id : Uuid)
    (hsame : ∀ k, k ≠ Record.key id → m' k = m k)
    (hothers : ∀ id', id' ≠ id → failures id' (t :: h) = failures id' h)
    (hid : ∀ p, Queue.stored? m' (Record.key id) = some p →
      p.attempts.toNat = failures id (t :: h) ∧ p.attempts < K)
    (hle : failures id (t :: h) ≤ K.toNat) : Counted K (t :: h) m' := by
  constructor
  · intro k p hp
    have hkey := Queue.key_of_stored hp
    by_cases hpid : p.id = id
    · subst hpid
      exact hid p (hkey ▸ hp)
    · have hk : k ≠ Record.key id := fun hk => hpid (Record.key_injective (hkey.trans hk))
      rw [Queue.stored_congr (hsame k hk)] at hp
      rw [hothers p.id hpid]
      exact hm.stored k p hp
  · intro id'
    by_cases hid' : id' = id
    · exact hid' ▸ hle
    · rw [hothers id' hid']
      exact hm.bounded id'

/-- The count of a pending ping is the one in its record. -/
theorem pending (hm : Counted K h m) {l : List Ping} (hmirror : Queue.Mirror m l) {p : Ping}
    (hp : p ∈ l) : p.attempts.toNat = failures p.id h ∧ p.attempts < K :=
  hm.stored _ p.settled (hmirror.held p hp)

/-- A moment that counts for none, and at most deletes records. -/
theorem deleted (hm : Counted K h m) (ht : t.accepted? = none ∧ t.failed? = none)
    (hgone : ∀ k, Queue.stored? m' k = Queue.stored? m k ∨ m' k = none) :
    Counted K (t :: h) m' := by
  have hsame (id : Uuid) : failures id (t :: h) = failures id h :=
    failures_of_other (by simp [ht.1]) (by simp [ht.2])
  constructor
  · intro k p hp
    rcases hgone k with hk | hk
    · rw [hsame]
      exact hm.stored k p (hk ▸ hp)
    · simp [Queue.stored?, hk] at hp
  · intro id
    rw [hsame]
    exact hm.bounded id

/-- A new ping starts with none. -/
theorem taken (hm : Counted K h m) (hK : 0 < K) {p p' : Ping} (haccepted : t.accepted? = some p)
    (hfailed : t.failed? = none) (hid : p'.id = p.id) (hfresh : p'.attempts = 0)
    (hp' : p'.Fits) : Counted K (t :: h) ((Queue.storePut p').effect m) := by
  have hzero : failures p'.id (t :: h) = 0 := failures_of_accepted haccepted hid.symm
  refine hm.changed_at p'.id (fun k hk => Queue.effect_put_of_ne hk) ?_ ?_ (hzero ▸ Nat.zero_le _)
  · intro id hne
    refine failures_of_other ?_ (by simp [hfailed])
    intro x hx
    cases haccepted.symm.trans hx
    exact hid ▸ hne.symm
  · intro x hx
    cases hx.symm.trans (Queue.stored_put_self hp' m)
    have hcount : p'.settled.attempts = 0 := hfresh
    rw [hzero, hcount]
    exact ⟨rfl, hK⟩

/-- A failure that reaches the ceiling takes the record with it. -/
theorem exhausted (hm : Counted K h m) {id : Uuid} (haccepted : t.accepted? = none)
    (hfailed : t.failed? = some id) (hlt : failures id h < K.toNat) :
    Counted K (t :: h) ((Queue.storeDelete id).effect m) := by
  have hsucc : failures id (t :: h) = failures id h + 1 := failures_of_failed haccepted hfailed
  refine hm.changed_at id (fun k hk => Queue.effect_delete_of_ne hk) ?_ ?_ (hsucc ▸ hlt)
  · intro id' hne
    exact failures_of_other (by simp [haccepted]) (by simpa [hfailed] using hne.symm)
  · intro x hx
    simp [Queue.stored?, Queue.effect_delete_self] at hx

/-- A failure below the ceiling is one more in the record. -/
theorem retried (hm : Counted K h m) {p : Ping} (haccepted : t.accepted? = none)
    (hfailed : t.failed? = some p.id) (hp : Queue.stored? m (Record.key p.id) = some p.settled)
    (hlt : p.attempted.attempts < K) :
    Counted K (t :: h) ((Queue.storePut p.attempted).effect m) := by
  obtain ⟨hcount, hbelow⟩ : p.attempts.toNat = failures p.id h ∧ p.attempts < K :=
    hm.stored _ p.settled hp
  have hfits : p.Fits := Ping.fits_of_settled (Queue.addressable_of_stored hp).toFits
  have hput := Queue.stored_put_self hfits.attempted m
  have hsucc : failures p.id (t :: h) = failures p.id h + 1 := failures_of_failed haccepted hfailed
  have hattempts : p.attempted.attempts.toNat = failures p.id (t :: h) := by
    rw [Ping.attempts_attempted hbelow, hcount, hsucc]
  refine hm.changed_at p.id (fun k hk => Queue.effect_put_of_ne (p := p.attempted) hk) ?_ ?_ ?_
  · intro id hne
    exact failures_of_other (by simp [haccepted]) (by simpa [hfailed] using hne.symm)
  · intro x hx
    cases hx.symm.trans hput
    exact ⟨hattempts, hlt⟩
  · have := UInt32.lt_iff_toNat_lt.1 hlt
    omega

end Counted

/-! ## Steps -/

section
variable {K : UInt32} {h : List Moment} {t : Moment} {c : Client} {a : Client.Action} {passed : Bool}
  {r : Queue.Request} {call : Call} {q : Queue} {reply : Queue.Reply}
  {out : Option (Client.Reply × Client)}

/-- An acknowledged failure is put down, whether or not the process lived to say so. -/
theorem failed_of_retry {id : Uuid} {d : Queue.Disposition}
    (hreq : t.request = some (.ackRecoverable id))
    (hresult : t.result = out.map fun x => (x.1, some x.2))
    (hreply : ∀ x c', out = some (x, c') → x = some (.ok (.retry d)))
    (hne : t.content (Record.key id) ≠ t.before.content (Record.key id)) : t.failed? = some id := by
  unfold Moment.failed?
  rw [hreq]
  refine if_pos ?_
  cases out with
  | none => exact .inr ⟨by rw [hresult]; rfl, hne⟩
  | some x =>
    have hx : t.reply = some (.ok (.retry d)) := by
      rw [Moment.reply, hresult]
      exact hreply x.1 x.2 rfl
    exact .inl (by rw [Moment.disposition?, hx]; rfl)

/-- A request that changes something keeps the counts. -/
theorem Counted.changed (hm : Counted K h t.before.content)
    (hmirror : Queue.Mirror t.before.content c.queue.pings) (hK : 0 < K)
    (hceiling : c.queue.config.maxAttempts = K) (hr : r.Fits)
    (hfresh : ∀ p, r = .enqueue p → p.attempts = 0) (hc : t.before.client = some c)
    (hd : t.deed = .act a) (hasks : c.asks a = some (passed, r))
    (hchange : Queue.Change c.queue r call q reply)
    (hcontent : t.content = call.effect t.before.content)
    (hresult : t.result = out.map fun x => (x.1, some x.2))
    (hreply : ∀ x c', out = some (x, c') → x = some (.ok reply)) :
    Counted K (t :: h) t.content := by
  have hreq : t.request = some r := by
    rw [Moment.request_of_act hc hd, hasks]
    rfl
  cases hchange with
  | @pushed p hnone =>
    have haccepted := accepted_of_change hc hd hasks hmirror (.pushed hnone) hcontent hresult hreply
    rw [hcontent]
    exact hm.taken hK haccepted (by simp [Moment.failed?, hreq]) rfl (hfresh p rfl)
      ((hr p rfl).numbered _)
  | @acked r id p hr' hsome =>
    have hacked : t.accepted? = none ∧ t.failed? = none := by
      rcases hr' with rfl | rfl <;> simp [Moment.accepted?, Moment.failed?, hreq]
    refine hm.deleted hacked ?_
    intro k
    rw [hcontent]
    by_cases hk : k = Record.key id
    · exact .inr (hk ▸ Queue.effect_delete_self _ _)
    · exact .inl (Queue.stored_congr (Queue.effect_delete_of_ne hk))
  | @exhausted id p hsome hmax =>
    obtain ⟨hmem, rfl⟩ := Queue.id_of_find hsome
    have hheld := hmirror.held p hmem
    obtain ⟨b, hb, -⟩ := Queue.decode_of_stored hheld
    obtain ⟨hcount, hlt⟩ := hm.pending hmirror hmem
    have hfailed : t.failed? = some p.id := by
      refine failed_of_retry hreq hresult hreply ?_
      simp [hcontent, Queue.effect_delete_self, hb]
    rw [hcontent]
    exact hm.exhausted (by simp [Moment.accepted?, hreq]) hfailed
      (hcount ▸ UInt32.lt_iff_toNat_lt.1 hlt)
  | @retried id p hsome hmax =>
    obtain ⟨hmem, rfl⟩ := Queue.id_of_find hsome
    have hheld := hmirror.held p hmem
    have hput := Queue.stored_put_self (hmirror.fits hmem).attempted t.before.content
    have hfailed : t.failed? = some p.id := by
      refine failed_of_retry hreq hresult hreply ?_
      intro heq
      have hsame : some p.attempted.settled = some p.settled := by
        rw [← hput, ← hheld]
        exact Queue.stored_congr (hcontent ▸ heq)
      have hsettled := Option.some.inj hsame
      have hcount : p.attempted.attempts = p.attempts := (congrArg Ping.attempts hsettled :)
      have hsucc := Ping.attempts_attempted (hm.pending hmirror hmem).2
      rw [hcount] at hsucc
      omega
    rw [hcontent]
    exact hm.retried (by simp [Moment.accepted?, hreq]) hfailed hheld
      (UInt32.not_le.1 (hceiling ▸ hmax))

end

/-- At this moment no queue is opened with another ceiling, and only a new ping is enqueued. -/
structure Moment.Under (K : UInt32) (t : Moment) : Prop where
  ceiling : ∀ o, t.deed = .opening o → o.settings.queueConfig.maxAttempts = K
  fresh : ∀ p, t.request = some (.enqueue p) → p.attempts = 0

theorem Moment.Under.ofRequest {K : UInt32} {t : Moment} {c : Client} {passed : Bool}
    {r : Queue.Request} (hc : t.before.client = some c) (hd : t.deed = .act (.request passed r))
    (hr : ∀ p, r = .enqueue p → p.attempts = 0) : t.Under K where
  ceiling o ho := by
    rw [hd] at ho
    cases ho
  fresh p hp := by
    rw [request_of_act hc hd] at hp
    exact hr p (Option.some.inj hp)

structure World.Capped (K : UInt32) (h : List Moment) (w : World) : Prop where
  counted : Counted K h w.content
  ceiling : ∀ c, w.client = some c → c.queue.config.maxAttempts = K

theorem uncounted_of_request {t : Moment} (hreq : t.request = none) :
    t.accepted? = none ∧ t.failed? = none := by
  simp [Moment.accepted?, Moment.failed?, hreq]

theorem World.Capped.counted_step {K : UInt32} {h : List Moment} {t : Moment}
    (hw : t.before.Capped K h) (hm : t.before.Mirrored) (hK : 0 < K) (ht : t.Happens)
    (hu : t.Under K) : Counted K (t :: h) t.content := by
  cases ht.course with
  | @acted c a out hc hd hf hresult =>
    have hreq := Moment.request_of_act hc hd
    obtain ⟨-, ⟨hasks, hcontent, -⟩ | ⟨passed, r, asked, hasks, hattended, hout⟩⟩ :=
      Client.perform_cases hf
    · rw [hcontent]
      exact hw.counted.deleted (uncounted_of_request (by simp [hreq, hasks])) fun k => .inl rfl
    · have hr : t.request = some r := by simp [hreq, hasks]
      rcases hattended.same_or_change with ⟨hcontent, hshown⟩ | ⟨call, q, reply, hchange, hcontent, hq⟩
      · rw [hcontent]
        refine hw.counted.deleted (uncounted_of_same hcontent ?_) fun k => .inl rfl
        intro reply hreply
        cases out with
        | none => simp [Moment.reply, hresult] at hreply
        | some x =>
          obtain ⟨reply', q, hasked, hx, -⟩ := hout x.1 x.2 rfl
          obtain ⟨hpings, -⟩ := hshown _ _ hasked
          refine hpings reply ?_
          simpa [Moment.reply, hresult, hx] using hreply
      · refine hw.counted.changed (hm c hc) hK (hw.ceiling c hc) (ht.fits r hr)
          (fun p hp => hu.fresh p (hp ▸ hr)) hc hd hasks hchange hcontent hresult ?_
        intro x c' hx
        obtain ⟨reply', q', hasked, hreply, -⟩ := hout x c' hx
        rw [hreply, (hq _ _ hasked).1]
  | @opened o out hc hd hf hresult =>
    obtain ⟨m₁, tr₁, opened, gone, kept, hsame, hrebuilt, -⟩ := opening_cases hf
    refine hw.counted.deleted (uncounted_of_request (by simp [Moment.request, hc])) ?_
    intro k
    rcases hrebuilt.changed k with hk | ⟨hnone, -⟩
    · exact .inl ((Queue.stored_congr hk).trans (hsame.stored k))
    · exact .inr hnone
  | idle hcontent _ hacts _ _ =>
    have hreq : t.request = none := by
      unfold Moment.request
      split
      · rename_i hc hd
        rw [hacts _ hd] at hc
        cases hc
      · rfl
    rw [hcontent]
    exact hw.counted.deleted (uncounted_of_request hreq) fun k => .inl rfl

theorem World.Capped.step {K : UInt32} {h : List Moment} {t : Moment} (hw : t.before.Capped K h)
    (hm : t.before.Mirrored) (hK : 0 < K) (ht : t.Happens) (hu : t.Under K) :
    t.after.Capped K (t :: h) := by
  refine ⟨hw.counted_step hm hK ht hu, ?_⟩
  intro c' hc'
  cases ht.lives hc' with
  | @acted c a r hc hd hreply hf =>
    have hceiling := hw.ceiling c hc
    obtain ⟨-, ⟨-, -, hout⟩ | ⟨passed, r', asked, hasks, hattended, hout⟩⟩ :=
      Client.perform_cases hf
    · obtain ⟨-, hqueue, -⟩ := hout _ _ rfl
      rw [hqueue, hceiling]
    · obtain ⟨reply, q, rfl, -, hqueue, -⟩ := hout _ _ rfl
      rw [hqueue, hattended.config, hceiling]
  | opened hc hd hsame hrebuilt hcreated =>
    subst hcreated
    obtain ⟨-, -, -, corrupt, rfl, -⟩ := hrebuilt.opened _ rfl
    exact hu.ceiling _ hd
  | idle hc _ _ => exact hw.ceiling c' hc

theorem History.capped {K : UInt32} {m₀ : Content} {h : List Moment} {w : World} (hK : 0 < K)
    (hempty : ∀ k, Record.isPingKey k = true → m₀ k = none) (hh : History ⟨m₀, none⟩ h w)
    (hu : ∀ t ∈ h, t.Under K) : w.Capped K h := by
  induction hh with
  | start =>
    refine ⟨⟨?_, fun id => Nat.zero_le _⟩, fun c hc => by cases hc⟩
    intro k p hp
    have hk := Queue.isPingKey_of_stored hp
    simp [Queue.stored?, hempty k hk] at hp
  | @next h t hh ht ih =>
    have hw := ih fun u hm => hu u (List.mem_cons_of_mem _ hm)
    exact hw.step hh.mirrored hK ht (hu t List.mem_cons_self)

/-! ## What a failure comes to -/

/-- An acknowledged failure, the ping's `n`-th: the ping stays in its place with that count, or its
record is gone and the pings around it have closed up. All other records are as they were. -/
structure Moment.Fails (t : Moment) (K : UInt32) (c : Client) (id : Uuid) (d : Queue.Disposition)
    (n : UInt32) (c' : Client) : Prop where
  after : t.after.client = some c'
  outcome : n < K ∧ d = .retained n ∧
      c'.queue.pings = c.queue.pings.map (fun x => if x.id = id then { x with attempts := n } else x) ∨
    n = K ∧ d = .dropped n ∧ c'.queue.pings = c.queue.pings.filter (·.id ≠ id) ∧
      t.content (Record.key id) = none
  others : ∀ k, k ≠ Record.key id → t.content k = t.before.content k

theorem Moment.fails_of_change {K : UInt32} {h : List Moment} {t : Moment} {c c' : Client} {id : Uuid}
    {call : Call} {q : Queue} {d : Queue.Disposition} (hw : t.before.Capped K h)
    (hm : Queue.Mirror t.before.content c.queue.pings) (hc : t.before.client = some c)
    (hchange : Queue.Change c.queue (.ackRecoverable id) call q (.retry d))
    (hcontent : t.content = call.effect t.before.content) (hafter : t.after.client = some c')
    (hqueue : c'.queue = q) :
    ∃ n, n.toNat = failures id h + 1 ∧ t.Fails K c id d n c' := by
  cases hchange with
  | @exhausted _ p hsome hmax =>
    obtain ⟨hmem, rfl⟩ := Queue.id_of_find hsome
    obtain ⟨hcount, hlt⟩ := hw.counted.pending hm hmem
    have hsucc := Ping.attempts_attempted hlt
    have hK : p.attempted.attempts = K := by
      rw [hw.ceiling c hc] at hmax
      have := UInt32.lt_iff_toNat_lt.1 hlt
      have := UInt32.le_iff_toNat_le.1 hmax
      exact UInt32.toNat_inj.1 (by omega)
    refine ⟨_, by rw [hsucc, hcount], hafter, .inr ⟨hK, rfl, ?_, ?_⟩, ?_⟩
    · rw [hqueue]
      exact Queue.eraseP_eq_filter hm.distinct p.id
    · rw [hcontent]
      exact Queue.effect_delete_self _ _
    · intro k hk
      rw [hcontent]
      exact Queue.effect_delete_of_ne hk
  | @retried _ p hsome hmax =>
    obtain ⟨hmem, rfl⟩ := Queue.id_of_find hsome
    obtain ⟨hcount, hlt⟩ := hw.counted.pending hm hmem
    have hbelow : p.attempted.attempts < K := UInt32.not_le.1 (hw.ceiling c hc ▸ hmax)
    refine ⟨_, by rw [Ping.attempts_attempted hlt, hcount], hafter, .inl ⟨hbelow, rfl, ?_⟩, ?_⟩
    · rw [hqueue]
      refine (Queue.replaceFirst_eq_map hm.distinct p.attempted).trans (List.map_congr_left ?_)
      intro x hx
      by_cases hid : x.id = p.id
      · obtain rfl := Queue.eq_of_id hm.distinct hx hmem hid
        rfl
      · exact (if_neg hid).trans (if_neg hid).symm
    · intro k hk
      rw [hcontent]
      exact Queue.effect_put_of_ne (p := p.attempted) hk

/-- A caller is told of the failure that is put down, or nothing has changed. -/
theorem Moment.fails_or_same {K : UInt32} {h : List Moment} {t : Moment} {c : Client} {id : Uuid}
    (hw : t.before.Capped K h) (hm : t.before.Mirrored) (ht : t.Happens)
    (hc : t.before.client = some c) (hreq : t.request = some (.ackRecoverable id))
    {c' : Client} (hc' : t.after.client = some c') :
    (∃ d n, t.disposition? = some d ∧ t.failed? = some id ∧ n.toNat = failures id h + 1 ∧
      t.Fails K c id d n c') ∨
    (t.disposition? = none ∧ c'.queue.pings = c.queue.pings ∧ t.content = t.before.content) := by
  cases ht.lives hc' with
  | opened hnone _ _ _ _ =>
    rw [hc] at hnone
    cases hnone
  | idle _ _ hacts =>
    unfold Moment.request at hreq
    split at hreq
    · rename_i hd
      exact absurd hd (hacts _)
    · cases hreq
  | @acted c₁ a r hc₁ hd hreply hf =>
    cases hc.symm.trans hc₁
    have hask := Moment.request_of_act hc hd
    rw [hreq] at hask
    obtain ⟨-, ⟨hasks, -⟩ | ⟨passed, r', asked, hasks, hattended, hout⟩⟩ := Client.perform_cases hf
    · rw [hasks] at hask
      cases hask
    · rw [hasks] at hask
      cases hask
      obtain ⟨reply, q, rfl, rfl, hqueue, -⟩ := hout _ _ rfl
      generalize hcontent : t.content = m' at hattended ⊢
      cases hattended with
      | refused e => exact .inr ⟨by rw [disposition?, hreply], by rw [hqueue], rfl⟩
      | peeked hr => cases hr
      | failed e => exact .inr ⟨by rw [disposition?, hreply], by rw [hqueue], rfl⟩
      | written hchange =>
        obtain ⟨d, rfl⟩ := hchange.retry
        have hdisposition : t.disposition? = some d := by rw [disposition?, hreply]
        have hfailed : t.failed? = some id := by simp [failed?, hreq, hdisposition]
        obtain ⟨n, hn, hfails⟩ := fails_of_change hw (hm c hc) hc hchange hcontent hc' hqueue
        exact .inl ⟨d, n, hdisposition, hfailed, hn, hfails⟩

/-- **The ceiling holds across restarts.** Along every history from a store without pings, with the
same ceiling at every opening, a pending ping's count is the number of its recoverable failures since
it was taken, and lies below the ceiling; no ping fails more often than the ceiling says. The
acknowledgement of a failure tells its number, keeps the ping in its place below the ceiling and
deletes it there, and touches no other ping. The number of the attempt that a ping is on fits into its
word. -/
theorem attempts_capped {K : UInt32} {m₀ : Content} {h : List Moment} {w : World} (hK : 0 < K)
    (hempty : ∀ k, Record.isPingKey k = true → m₀ k = none) (hh : History ⟨m₀, none⟩ h w)
    (hu : ∀ t ∈ h, t.Under K) :
    (∀ k p, Queue.stored? w.content k = some p →
      p.attempts.toNat = failures p.id h ∧ p.attempts < K) ∧
    (∀ c, w.client = some c → ∀ p ∈ c.queue.pings,
      p.attempts.toNat = failures p.id h ∧ p.attempts < K ∧
        (p.attempts + 1).toNat = Notice.attemptNumber p) ∧
    (∀ id, failures id h ≤ K.toNat) ∧
    ((∀ t ∈ h, t.result = none → t.accepted? = none ∧ t.failed? = none) →
      ∀ id, failures id h = returnedFailures id h) ∧
    (∀ (t : Moment) (c c' : Client) (id : Uuid), t.before = w → t.Happens → w.client = some c →
      t.request = some (.ackRecoverable id) → t.after.client = some c' →
      (∃ (d : Queue.Disposition) (n : UInt32), t.disposition? = some d ∧ t.failed? = some id ∧
        n.toNat = failures id h + 1 ∧ t.Fails K c id d n c') ∨
      (t.disposition? = none ∧ c'.queue.pings = c.queue.pings ∧ t.content = w.content)) ∧
    ∀ (t : Moment) (p : Ping), t.before = w → t.Happens → t.Hands p →
      (p.attempts + 1).toNat = Notice.attemptNumber p ∧
        Notice.attemptNumber p = failures p.id h + 1 ∧ Notice.attemptNumber p ≤ K.toNat := by
  have hw := hh.capped hK hempty hu
  have hpending (c : Client) (hc : w.client = some c) (p : Ping) (hp : p ∈ c.queue.pings) :
      p.attempts.toNat = failures p.id h ∧ p.attempts < K ∧
        (p.attempts + 1).toNat = Notice.attemptNumber p := by
    obtain ⟨hcount, hlt⟩ := hw.counted.pending (hh.mirrored c hc) hp
    have hword := Ping.toNat_attempts_succ hlt
    exact ⟨hcount, hlt, hword⟩
  refine ⟨hw.counted.stored, hpending, hw.counted.bounded, failures_eq_returned, ?_, ?_⟩
  · rintro t c c' id rfl ht hc hreq hc'
    exact Moment.fails_or_same hw hh.mirrored ht hc hreq hc'
  · rintro t p rfl ht hhands
    obtain ⟨c, rest, hc, hpings⟩ := hhands.head ht
    obtain ⟨hcount, hlt, hword⟩ := hpending c hc p (by simp [hpings])
    have := UInt32.lt_iff_toNat_lt.1 hlt
    refine ⟨hword, by rw [Notice.attemptNumber, hcount], ?_⟩
    rw [Notice.attemptNumber]
    omega

/-- A ping that has failed once is on its second attempt. -/
theorem capped_after_one_failure : ∃ h w c p, History ⟨fun _ => none, none⟩ h w ∧
    w.client = some c ∧ c.queue.pings = [p] ∧ failures p.id h = 1 ∧ p.attempts.toNat = 1 ∧
      p.attempts < 5 ∧ (p.attempts + 1).toNat = 2 := by
  let first : Ping := { Queue.blank with sequence := 0 }
  obtain ⟨tr, hopen⟩ := happens_open_nil
  obtain ⟨tr', henqueue⟩ := happens_enqueue (c := .plain) (p := Queue.blank) (fun _ => none) rfl rfl
    Queue.fits_blank
  have hfind : (Client.plain.queue.push first).find? first.id = some first := by
    simp [Queue.find?, Queue.push, Client.plain, Client.created, Client.queue, Queue.restored]
  obtain ⟨tr₁, hretry⟩ := Queue.follows_retry (q := Client.plain.queue.push first) rfl hfind
    (by decide) ((Queue.storePut first).effect fun _ => none)
  obtain ⟨tr'', hfailure⟩ := happens_request (c := Client.plain.setQueue (Client.plain.queue.push first))
    hretry fun p hp => by cases hp
  have hh := ((History.start.next hopen).next henqueue).next hfailure
  obtain ⟨-, hpending, -⟩ := attempts_capped (K := 5) (by decide) (fun _ _ => rfl) hh (by
    simp only [List.forall_mem_cons]
    refine ⟨.ofRequest rfl rfl fun p hp => (by cases hp), .ofRequest rfl rfl fun p hp => ?_,
      ⟨fun o ho => ?_, fun p hp => (by cases hp)⟩, fun t ht => absurd ht List.not_mem_nil⟩
    · cases hp
      rfl
    · cases ho
      rfl)
  have hpings : ((Client.plain.queue.push first).replace first.attempted).pings =
      [first.attempted] := by
    simp [Queue.replace, Queue.push, Queue.replaceFirst, Client.plain, Client.created, Client.queue,
      Queue.restored, Ping.attempted]
  have hmem : first.attempted ∈ ((Client.plain.queue.push first).replace first.attempted).pings := by
    rw [hpings]
    exact List.mem_singleton_self _
  obtain ⟨hcount, hlt, hnext⟩ := hpending _ rfl first.attempted hmem
  have hone : first.attempted.attempts.toNat = 1 := by decide
  exact ⟨_, _, _, first.attempted, hh, rfl, hpings, hcount ▸ hone, hone, hlt, hnext⟩

end PingDelivery
