import PingDelivery.Proofs.Queue.Reopening
import PingDelivery.Proofs.Queue.Lobby

/-! # All or nothing

A request that has the queue to itself either does the whole of what it is for, to the one ping it
names, or leaves list, numbering and store as they were. `Granted` says what there is to do,
`Transacted` when it is done and what becomes of the queue when it is not. A store may fail at any
call, as long as a failed call leaves its content alone.
-/

namespace PingDelivery.Queue
open Store

/-- What a granted request has done: something to the first ping with the id, in its place, and to the
record under that id. -/
inductive Granted (q : Queue) (m : Content) : Request → Reply → Queue → Content → Prop where
  | added (p : Ping) (hnew : p.id ∉ ids q.pings) :
      Granted q m (.enqueue p) .accepted
        { q with
          pings := q.pings ++ [{ p with sequence := q.nextSequence }]
          nextSequence := q.nextSequence + 1 }
        (Function.update m (Record.key p.id) (some (Record.encode { p with sequence := q.nextSequence })))
  | shown (limit : Nat) : Granted q m (.peek limit) (.pings (q.pings.take limit)) q m
  | removed {r : Request} {before after : List Ping} {p : Ping}
      (hr : r = .ackSuccess p.id ∨ r = .ackUnrecoverable p.id)
      (hl : q.pings = before ++ p :: after) (hfirst : p.id ∉ ids before) :
      Granted q m r .accepted { q with pings := before ++ after }
        (Function.update m (Record.key p.id) none)
  | dropped {before after : List Ping} {p : Ping} {n : UInt32}
      (hl : q.pings = before ++ p :: after) (hfirst : p.id ∉ ids before)
      (hn : n.toNat = min (p.attempts.toNat + 1) 0xFFFFFFFF) (hmax : q.config.maxAttempts ≤ n) :
      Granted q m (.ackRecoverable p.id) (.retry (.dropped n)) { q with pings := before ++ after }
        (Function.update m (Record.key p.id) none)
  | retained {before after : List Ping} {p : Ping} {n : UInt32}
      (hl : q.pings = before ++ p :: after) (hfirst : p.id ∉ ids before)
      (hn : n.toNat = min (p.attempts.toNat + 1) 0xFFFFFFFF) (hmax : n < q.config.maxAttempts) :
      Granted q m (.ackRecoverable p.id) (.retry (.retained n))
        { q with pings := before ++ { p with attempts := n } :: after }
        (Function.update m (Record.key p.id) (some (Record.encode { p with attempts := n })))

/-- What a request is refused for while the store is at work. -/
inductive Refusal (q : Queue) : Request → QueueError → Prop where
  | duplicate (p : Ping) (h : p.id ∈ ids q.pings) : Refusal q (.enqueue p) (.duplicate p.id)
  | notFound {r : Request} {id : Uuid} (hr : r.acks? = some id) (h : id ∉ ids q.pings) :
      Refusal q r (.notFound id)

/-- What a request comes to: `a` is the answer, `q'` and `m'` are the queue and the content it leaves. -/
structure Transacted (q : Queue) (r : Request) (m : Content) (a : Response) (q' : Queue)
    (m' : Content) : Prop where
  granted : ∀ reply, a = .ok reply → Granted q m r reply q' m'
  /-- After an error nothing is different but, maybe, that the queue is suspended. -/
  unchanged : ∀ e, a = .error e → q' = { q with faulted := q'.faulted } ∧ m' = m
  /-- Only a failure of the store suspends a queue. -/
  suspends : q'.faulted = true ↔ q.faulted = true ∨ ∃ e, a = .error (.storage e)
  suspended : a = .error .suspended ↔ q.faulted = true
  refused : ∀ e, e.isFatal = false → (a = .error e ↔ q.faulted = false ∧ Refusal q r e)
  /-- An error that is not the store's has come of no call at all. -/
  silent : ∀ e, a = .error e → (∀ e', e ≠ .storage e') → q.perform r = .done (.error e, q)

/-! ## The ping that is named -/

section
variable {q q' : Queue} {m m' : Content} {r : Request} {p : Ping} {id : Uuid}
  {before after : List Ping}

theorem find?_eq_none_iff : q.find? id = none ↔ id ∉ ids q.pings := by
  simp [find?, ids]

theorem contains_iff : q.contains id = true ↔ id ∈ ids q.pings := by
  rw [contains, Option.isSome_iff_ne_none, ne_eq, find?_eq_none_iff, not_not]

/-- What is found is the first ping with the id. -/
theorem split_of_find (h : q.find? id = some p) : p.id = id ∧ ∃ before after,
    q.pings = before ++ p :: after ∧ p.id ∉ ids before := by
  obtain ⟨hid, before, after, hl, hbefore⟩ := List.find?_eq_some_iff_append.1 h
  obtain rfl := of_decide_eq_true hid
  refine ⟨rfl, before, after, hl, fun hmem => ?_⟩
  obtain ⟨x, hx, hxid⟩ := List.mem_map.1 hmem
  simpa [hxid] using hbefore x hx

theorem without_split (hl : q.pings = before ++ p :: after) (hfirst : p.id ∉ ids before) :
    q.without p.id = { q with pings := before ++ after } := by
  have hbefore : ∀ x ∈ before, ¬ Decidable.decide (x.id = p.id) = true := fun x hx hxid =>
    hfirst (List.mem_map.2 ⟨x, hx, of_decide_eq_true hxid⟩)
  rw [without, hl, List.eraseP_append_right _ hbefore]
  simp

theorem replaceFirst_split {p' : Ping} (hid : p'.id = p.id) (hfirst : p.id ∉ ids before) :
    replaceFirst p' (before ++ p :: after) = before ++ p' :: after := by
  induction before with
  | nil => rw [List.nil_append, replaceFirst, if_pos hid.symm, List.nil_append]
  | cons x before ih =>
    obtain ⟨hx, hbefore⟩ := not_or.1 fun hmem => hfirst (List.mem_cons.2 hmem)
    rw [List.cons_append, replaceFirst, if_neg fun hxid => hx (hid.symm.trans hxid.symm),
      ih hbefore, List.cons_append]

theorem toNat_attempted (p : Ping) :
    p.attempted.attempts.toNat = min (p.attempts.toNat + 1) 0xFFFFFFFF := by
  have hlt : p.attempts.toNat < 4294967296 := p.attempts.toNat_lt
  simp only [Ping.attempted]
  split
  · rw [UInt32.toNat_add, UInt32.toNat_one]
    omega
  · omega

/-! ## What a request decides -/

theorem Granted.of_change {c : Call} {reply : Reply} (h : Change q r c q' reply) :
    Granted q m r reply q' (c.effect m) := by
  cases h with
  | @pushed p hnone => exact .added p (find?_eq_none_iff.1 hnone)
  | @acked r id p hr hsome =>
    obtain ⟨rfl, before, after, hl, hfirst⟩ := split_of_find hsome
    rw [without_split hl hfirst]
    exact .removed hr hl hfirst
  | @exhausted id p hsome hmax =>
    obtain ⟨rfl, before, after, hl, hfirst⟩ := split_of_find hsome
    rw [without_split hl hfirst]
    exact .dropped hl hfirst (toNat_attempted p) hmax
  | @retried id p hsome hmax =>
    obtain ⟨rfl, before, after, hl, hfirst⟩ := split_of_find hsome
    have hq : q.replace p.attempted = { q with pings := before ++ p.attempted :: after } := by
      rw [replace, hl, replaceFirst_split (show p.attempted.id = p.id from rfl) hfirst]
    rw [hq]
    exact .retained hl hfirst (toNat_attempted p) (UInt32.not_le.1 hmax)

theorem decideRemoval_eq_refuse_iff {e : QueueError} :
    q.decideRemoval id = .refuse e ↔ e = .notFound id ∧ id ∉ ids q.pings := by
  rw [decideRemoval, contains, ← find?_eq_none_iff]
  cases q.find? id <;> simp [eq_comm]

theorem Refusal.of_acks {e : QueueError} (hr : r.acks? = some id) :
    Refusal q r e ↔ e = .notFound id ∧ id ∉ ids q.pings := by
  constructor
  · rintro (⟨p, -⟩ | ⟨hr', h⟩)
    · cases hr
    · cases hr.symm.trans hr'
      exact ⟨rfl, h⟩
  · rintro ⟨rfl, h⟩
    exact .notFound hr h

/-- **What a request is refused for.** -/
theorem decide_eq_refuse_iff {e : QueueError} : q.decide r = .refuse e ↔ Refusal q r e := by
  cases r with
  | peek limit =>
    refine ⟨nofun, ?_⟩
    rintro (_ | ⟨hr, -⟩)
    cases hr
  | enqueue p =>
    rw [Queue.decide]
    constructor
    · intro h
      split at h
      · rename_i hc
        cases h
        exact .duplicate p (contains_iff.1 hc)
      · cases h
    · rintro (⟨_, hmem⟩ | ⟨hr, -⟩)
      · rw [if_pos (contains_iff.2 hmem)]
      · cases hr
  | ackSuccess id | ackUnrecoverable id =>
    exact decideRemoval_eq_refuse_iff.trans (Refusal.of_acks rfl).symm
  | ackRecoverable id =>
    rw [Refusal.of_acks rfl, ← find?_eq_none_iff, Queue.decide]
    cases q.find? id with
    | none => simp [eq_comm]
    | some p => dsimp only; split <;> simp

/-! ## What becomes of it -/

theorem perform_of_suspended (hq : q.faulted = true) (r : Request) :
    q.perform r = .done (.error .suspended, q) := by
  rw [perform, health, if_pos hq]

theorem perform_of_well (hq : q.faulted = false) (r : Request) :
    q.perform r = q.settle (q.decide r) :=
  show q.attend false r = _ from attend_of_well hq

theorem Refusal.not_fatal {e : QueueError} (h : Refusal q r e) : e.isFatal = false := by
  cases h <;> rfl

theorem transacted_of_suspended (hq : q.faulted = true) (r : Request) (m : Content) :
    Transacted q r m (.error .suspended) q m where
  granted := nofun
  unchanged _ _ := ⟨rfl, rfl⟩
  suspends := by simp [hq]
  suspended := by simp [hq]
  refused e he := by
    rw [hq]
    constructor
    · rintro ⟨⟩
      cases he
    · rintro ⟨⟨⟩, -⟩
  silent e he _ := by
    cases he
    exact perform_of_suspended hq r

/-- A queue that is well carries out what it has decided. -/
theorem Settled.transacted {a : Response} (hq : q.faulted = false)
    (h : Settled q m (q.decide r) a q' m') : Transacted q r m a q' m' := by
  have hperform := perform_of_well hq r
  generalize hd : q.decide r = d at h hperform
  have hrefusal (e : QueueError) : q.faulted = false ∧ Refusal q r e ↔ d = .refuse e := by
    rw [← hd, decide_eq_refuse_iff, and_iff_right hq]
  cases h with
  | refused e =>
    have hfatal : e.isFatal = false := (decide_eq_refuse_iff.1 hd).not_fatal
    refine ⟨nofun, fun _ _ => ⟨rfl, rfl⟩, ?_, ?_, fun e' _ => by simp [hrefusal], ?_⟩
    · simp only [hq, Bool.false_eq_true, false_or, false_iff]
      rintro ⟨e', ⟨⟩⟩
      cases hfatal
    · simp only [hq, Bool.false_eq_true, iff_false]
      rintro ⟨⟩
      cases hfatal
    · rintro e' ⟨⟩ -
      exact hperform
  | answered reply =>
    obtain ⟨limit, rfl, rfl⟩ := peek_of_decide hd
    refine ⟨?_, nofun, by simp, by simp [hq], fun e _ => by simp [hrefusal], nofun⟩
    rintro reply ⟨⟩
    exact .shown limit
  | failed e =>
    refine ⟨nofun, fun _ _ => ⟨rfl, rfl⟩, by simp, by simp [hq], fun e' he' => ?_, ?_⟩
    · simp only [hrefusal, reduceCtorEq, iff_false]
      rintro ⟨⟩
      cases he'
    · rintro e' ⟨⟩ hstorage
      exact absurd rfl (hstorage e)
  | written =>
    obtain ⟨hchange, -⟩ := change_of_decide hd
    have hfaulted : q'.faulted = false := hchange.faulted.trans hq
    refine ⟨?_, nofun, by simp [hq, hfaulted], by simp [hq], fun e _ => by simp [hrefusal], nofun⟩
    rintro reply ⟨⟩
    exact .of_change hchange

theorem transacted_of_follows {tr : List Observed} {a : Response}
    (h : Follows (q.perform r) m tr (some (a, q')) m') : Transacted q r m a q' m' := by
  cases hq : q.faulted with
  | true =>
    rw [perform_of_suspended hq] at h
    obtain ⟨hout, rfl⟩ := h.eq_of_done
    cases hout
    exact transacted_of_suspended hq r _
  | false =>
    rw [perform_of_well hq] at h
    exact (settled_of_follows h).transacted hq

theorem run_told {α σ : Type} (b : Backend σ) (n : Option Notice) (p : Program α) (s : σ) :
    ((told n p).run b s).1 = (p.run b s).1 := by
  cases n <;> rfl

/-- A queue that is well fails for the store's sake exactly if the one call that it makes has failed. -/
theorem storage_iff {σ : Type} (b : Backend σ) (hq : q.faulted = false) (s : σ) (e : Error) :
    ((q.perform r).run b s).1.1 = .error (.storage e) ↔
      ∃ c, (q.decide r).call? = some c ∧ (b.serve c s).1 = .error e := by
  rw [perform_of_well hq]
  cases hd : q.decide r with
  | refuse e' =>
    have hfatal : e'.isFatal = false := (decide_eq_refuse_iff.1 hd).not_fatal
    simp only [Decision.call?, settle, Program.run, reduceCtorEq, false_and, exists_false, iff_false]
    rintro ⟨⟩
    cases hfatal
  | answer reply => simp [Decision.call?, settle, Program.run]
  | write c q' reply notice =>
    cases hc : (b.serve c s).1 with
    | ok a => simp [Decision.call?, settle, Program.run, hc, run_told]
    | error e' => simp [Decision.call?, settle, Program.run, hc, run_told]

end

/-- **A request is done as a whole or not at all**, in any queue and over any store whose failed calls
change nothing. It ends, with an error of the store exactly if its one call has failed. -/
theorem all_or_nothing {σ : Type} {b : Backend σ} {view : σ → Content} (hb : b.Implements view)
    (q : Queue) (r : Request) (s : σ) : ∃ a q' s' ns,
      (q.perform r).run b s = ((a, q'), s', ns) ∧ Transacted q r (view s) a q' (view s') ∧
        ∀ e, a = .error (.storage e) ↔
          q.faulted = false ∧ ∃ c, (q.decide r).call? = some c ∧ (b.serve c s).1 = .error e := by
  obtain ⟨tr, hrun⟩ := hb.run_follows (q.perform r) s
  refine ⟨_, _, _, _, rfl, transacted_of_follows hrun, fun e => ?_⟩
  cases hq : q.faulted with
  | true => simp [perform_of_suspended hq, Program.run]
  | false => simpa using storage_iff b hq s e

/-- A failed attempt that a failing map cannot record is not counted, and the queue is suspended. -/
theorem retry_over_failing_store : ∃ s' ns,
    ((restored .standard [blank] 0 0).perform (.ackRecoverable blank.id)).run Memory.backend
        ⟨.empty, true⟩ =
      ((.error (.storage Memory.failure), { restored .standard [blank] 0 0 with faulted := true }),
        s', ns) ∧ s'.records.get? = Dict.empty.get? := by
  obtain ⟨a, q', s', ns, hrun, htransacted, hstorage⟩ := all_or_nothing Memory.implements
    (restored .standard [blank] 0 0) (.ackRecoverable blank.id) ⟨.empty, true⟩
  obtain rfl : a = .error (.storage Memory.failure) :=
    (hstorage _).2 ⟨rfl, _, rfl, rfl⟩
  obtain ⟨hq', hcontent⟩ := htransacted.unchanged _ rfl
  rw [htransacted.suspends.2 (.inr ⟨_, rfl⟩)] at hq'
  exact ⟨s', ns, hq' ▸ hrun, hcontent⟩

end PingDelivery.Queue
