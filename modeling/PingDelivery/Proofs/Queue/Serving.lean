import PingDelivery.Proofs.Store.Execution
import PingDelivery.Queue.Opening

/-! # What a request can come to

Every change of a queue goes by one store call. `Change` lists the four decisions that make such a
call, `Attended` everything that a request can come to when the call may fail and the process may
die before or after it. Each later fact about a request is a case of these two.
-/

namespace PingDelivery.Queue
open Store

/-- A request as the queue meets it. A caller asks for the queue's health before it waits for the
queue, so one that has `passed` is served even if the queue was suspended in the meantime. -/
def attend (q : Queue) (passed : Bool) (r : Request) : Program (Except QueueError Reply × Queue) :=
  if passed then q.settle (q.decide r) else q.perform r

/-- The decisions that change something: the call, the queue after it and the reply. -/
inductive Change (q : Queue) : Request → Call → Queue → Reply → Prop where
  | pushed {p : Ping} (h : q.find? p.id = none) :
      Change q (.enqueue p) (storePut { p with sequence := q.nextSequence })
        (q.push { p with sequence := q.nextSequence }) .accepted
  | acked {r : Request} {id : Uuid} {p : Ping} (hr : r = .ackSuccess id ∨ r = .ackUnrecoverable id)
      (h : q.find? id = some p) : Change q r (storeDelete id) (q.without id) .accepted
  | exhausted {id : Uuid} {p : Ping} (h : q.find? id = some p)
      (hmax : q.config.maxAttempts ≤ p.attempted.attempts) :
      Change q (.ackRecoverable id) (storeDelete id) (q.without id)
        (.retry (.dropped p.attempted.attempts))
  | retried {id : Uuid} {p : Ping} (h : q.find? id = some p)
      (hmax : ¬ q.config.maxAttempts ≤ p.attempted.attempts) :
      Change q (.ackRecoverable id) (storePut p.attempted) (q.replace p.attempted)
        (.retry (.retained p.attempted.attempts))

theorem change_of_removal {q q' : Queue} {id : Uuid} {r : Request} {c : Call} {reply : Reply}
    {notice : Option Notice} (hr : r = .ackSuccess id ∨ r = .ackUnrecoverable id)
    (h : q.decideRemoval id = .write c q' reply notice) :
    Change q r c q' reply ∧ ∀ k e, notice ≠ some (.discardedRecord k e) := by
  unfold decideRemoval at h
  split at h
  · rename_i hc
    obtain ⟨p, hp⟩ := Option.isSome_iff_exists.1 hc
    cases h
    exact ⟨.acked hr hp, nofun⟩
  · cases h

theorem change_of_decide {q q' : Queue} {r : Request} {c : Call} {reply : Reply}
    {notice : Option Notice} (h : q.decide r = .write c q' reply notice) :
    Change q r c q' reply ∧ ∀ k e, notice ≠ some (.discardedRecord k e) := by
  cases r with
  | enqueue p =>
    simp only [Queue.decide] at h
    split at h
    · cases h
    · rename_i hc
      cases h
      exact ⟨.pushed (Option.not_isSome_iff_eq_none.1 hc), nofun⟩
  | peek limit => cases h
  | ackSuccess id => exact change_of_removal (.inl rfl) h
  | ackUnrecoverable id => exact change_of_removal (.inr rfl) h
  | ackRecoverable id =>
    simp only [Queue.decide] at h
    split at h
    · cases h
    · rename_i p hp
      split at h
      · rename_i hmax
        cases h
        exact ⟨.exhausted hp hmax, nofun⟩
      · rename_i hmax
        cases h
        exact ⟨.retried hp hmax, nofun⟩

theorem peek_of_decide {q : Queue} {r : Request} {reply : Reply} (h : q.decide r = .answer reply) :
    ∃ limit, r = .peek limit ∧ reply = .pings (q.pings.take limit) := by
  cases r with
  | peek limit =>
    cases h
    exact ⟨limit, rfl, rfl⟩
  | enqueue p =>
    simp only [Queue.decide] at h
    split at h <;> cases h
  | ackSuccess id | ackUnrecoverable id =>
    simp only [Queue.decide, decideRemoval] at h
    split at h <;> cases h
  | ackRecoverable id =>
    simp only [Queue.decide] at h
    split at h
    · cases h
    · split at h <;> cases h

/-- What a request can come to, over the content before and after. -/
inductive Attended (q : Queue) (r : Request) (m : Content) :
    Option (Except QueueError Reply × Queue) → Content → Prop where
  | died : Attended q r m none m
  | refused (e : QueueError) : Attended q r m (some (.error e, q)) m
  | peeked {limit : Nat} (hr : r = .peek limit) :
      Attended q r m (some (.ok (.pings (q.pings.take limit)), q)) m
  | failed (e : Error) : Attended q r m (some (.error (.storage e), { q with faulted := true })) m
  | written {c : Call} {q' : Queue} {reply : Reply} (h : Change q r c q' reply) :
      Attended q r m (some (.ok reply, q')) (c.effect m)
  | diedWritten {c : Call} {q' : Queue} {reply : Reply} (h : Change q r c q' reply) :
      Attended q r m none (c.effect m)

/-- Nothing in the trace reports the record under the key as unreadable. -/
def Undiscarded (k : String) (tr : List Observed) : Prop :=
  ∀ e, .told (.discardedRecord k e) ∉ tr

theorem Undiscarded.nil {k : String} : Undiscarded k [] := fun _ => List.not_mem_nil

theorem Undiscarded.append {k : String} {tr tr' : List Observed} (h : Undiscarded k tr)
    (h' : Undiscarded k tr') : Undiscarded k (tr ++ tr') := fun e he =>
  (List.mem_append.1 he).elim (h e) (h' e)

theorem Undiscarded.called {k : String} {tr : List Observed} (h : Undiscarded k tr) (c : Call)
    (r : Result c) : Undiscarded k (.called c r :: tr) := fun e he => by
  rcases List.mem_cons.1 he with he | he
  · cases he
  · exact h e he

theorem Undiscarded.told {k : String} {tr : List Observed} (h : Undiscarded k tr) {n : Notice}
    (hn : ∀ e, n ≠ .discardedRecord k e) : Undiscarded k (.told n :: tr) := fun e he => by
  rcases List.mem_cons.1 he with he | he
  · cases he
    exact hn e rfl
  · exact h e he

/-- A notice leaves no more than itself. -/
theorem follows_told {α : Type} {n : Option Notice} {p : Program α} {m m' : Content}
    {tr : List Observed} {out : Option α} (h : Follows (told n p) m tr out m') :
    ∃ tr', Follows p m tr' out m' ∧
      ∀ k, (∀ e, n ≠ some (.discardedRecord k e)) → Undiscarded k tr' → Undiscarded k tr := by
  cases n with
  | none => exact ⟨tr, h, fun k _ htr => htr⟩
  | some n =>
    rcases h.of_tell with ⟨rfl, rfl, rfl⟩ | ⟨tr', rfl, hrest⟩
    · exact ⟨[], .cut p _, fun k _ htr => htr⟩
    · exact ⟨tr', hrest, fun k hn htr => htr.told fun e he => hn e (he ▸ rfl)⟩

section
variable {q : Queue} {r : Request} {m m' : Content} {tr : List Observed}
  {out : Option (Except QueueError Reply × Queue)}

theorem attended_of_settle (h : Follows (q.settle (q.decide r)) m tr out m') :
    Attended q r m out m' ∧ ∀ k, Undiscarded k tr := by
  cases hd : q.decide r with
  | refuse e =>
    rw [hd] at h
    obtain ⟨rfl, rfl, rfl | rfl⟩ := h.of_done
    · exact ⟨.died, fun _ => .nil⟩
    · exact ⟨.refused e, fun _ => .nil⟩
  | answer reply =>
    rw [hd] at h
    obtain ⟨rfl, rfl, rfl | rfl⟩ := h.of_done
    · exact ⟨.died, fun _ => .nil⟩
    · obtain ⟨limit, hr, rfl⟩ := peek_of_decide hd
      exact ⟨.peeked hr, fun _ => .nil⟩
  | write c q' reply notice =>
    rw [hd] at h
    rcases h.of_call with ⟨rfl, rfl, rfl⟩ | ⟨e, tr', rfl, hrest⟩ | ⟨a, tr', rfl, -, hrest⟩
    · exact ⟨.died, fun _ => .nil⟩
    · obtain ⟨tr'', hdone, htr⟩ := follows_told hrest
      obtain ⟨rfl, rfl, hout⟩ := hdone.of_done
      refine ⟨?_, fun k => (htr k (?_) .nil).called _ _⟩
      · rcases hout with rfl | rfl
        · exact .died
        · exact .failed e
      · intro e' he'
        simp only [fault] at he'
        split at he' <;> cases he'
    · obtain ⟨hc, hn⟩ := change_of_decide hd
      obtain ⟨tr'', hdone, htr⟩ := follows_told hrest
      obtain ⟨rfl, rfl, hout⟩ := hdone.of_done
      refine ⟨?_, fun k => (htr k (hn k) .nil).called _ _⟩
      rcases hout with rfl | rfl
      · exact .diedWritten hc
      · exact .written hc

/-- **A request comes to one of these**, and never calls a record unreadable. -/
theorem attended_of_follows {passed : Bool} (h : Follows (q.attend passed r) m tr out m') :
    Attended q r m out m' ∧ ∀ k, Undiscarded k tr := by
  unfold attend at h
  split at h
  · exact attended_of_settle h
  · unfold perform health at h
    split at h
    · obtain ⟨rfl, rfl, rfl | rfl⟩ := h.of_done
      · exact ⟨.died, fun _ => .nil⟩
      · exact ⟨.refused _, fun _ => .nil⟩
    · exact attended_of_settle h

/-- A request leaves store and list as they were and at most shows pings, or one change is made,
which is in the store even where the process died before it could tell. -/
theorem Attended.same_or_change (h : Attended q r m out m') :
    (m' = m ∧ ∀ a q', out = some (a, q') →
      (∀ reply, a = .ok reply → ∃ l, reply = .pings l) ∧ q'.pings = q.pings ∧
        q'.nextSequence = q.nextSequence) ∨
      ∃ c q' reply, Change q r c q' reply ∧ m' = c.effect m ∧
        ∀ a q'', out = some (a, q'') → a = .ok reply ∧ q'' = q' := by
  cases h with
  | died => exact .inl ⟨rfl, fun a q' h => by cases h⟩
  | refused e =>
    refine .inl ⟨rfl, ?_⟩
    intro a q' h
    cases h
    exact ⟨nofun, rfl, rfl⟩
  | peeked hr =>
    refine .inl ⟨rfl, ?_⟩
    intro a q' h
    cases h
    exact ⟨fun reply h => by cases h; exact ⟨_, rfl⟩, rfl, rfl⟩
  | failed e =>
    refine .inl ⟨rfl, ?_⟩
    intro a q' h
    cases h
    exact ⟨nofun, rfl, rfl⟩
  | written hc =>
    refine .inr ⟨_, _, _, hc, rfl, ?_⟩
    intro a q' h
    cases h
    exact ⟨rfl, rfl⟩
  | diedWritten hc => exact .inr ⟨_, _, _, hc, rfl, fun a q' h => by cases h⟩

theorem Change.config {q' : Queue} {c : Call} {reply : Reply} (h : Change q r c q' reply) :
    q'.config = q.config := by
  cases h <;> rfl

/-- No request changes the quotas or the ceiling. -/
theorem Attended.config {a : Except QueueError Reply} {q' : Queue}
    (h : Attended q r m (some (a, q')) m') : q'.config = q.config := by
  cases h with
  | refused | peeked | failed => rfl
  | written hc => exact hc.config

theorem Change.enqueue {p : Ping} {q' : Queue} {c : Call} {reply : Reply}
    (h : Change q (.enqueue p) c q' reply) :
    q.find? p.id = none ∧ c = storePut { p with sequence := q.nextSequence } ∧
      q' = q.push { p with sequence := q.nextSequence } ∧ reply = .accepted := by
  cases h with
  | pushed hnone => exact ⟨hnone, rfl, rfl, rfl⟩
  | acked hr _ => rcases hr with hr | hr <;> cases hr

/-- A recoverable failure that changes something is answered by what became of the ping. -/
theorem Change.retry {id : Uuid} {q' : Queue} {c : Call} {reply : Reply}
    (h : Change q (.ackRecoverable id) c q' reply) : ∃ d, reply = .retry d := by
  cases h with
  | acked hr _ => rcases hr with hr | hr <;> cases hr
  | exhausted _ _ => exact ⟨_, rfl⟩
  | retried _ _ => exact ⟨_, rfl⟩

/-- An enqueue that is not refused is accepted. -/
theorem Attended.enqueued {p : Ping} {reply : Reply} {q' : Queue}
    (h : Attended q (.enqueue p) m (some (.ok reply, q')) m') : reply = .accepted := by
  cases h with
  | peeked hr => cases hr
  | written hc =>
    obtain ⟨-, -, -, hreply⟩ := hc.enqueue
    exact hreply

/-- The health of a queue that is well does not matter. -/
theorem attend_of_well {passed : Bool} (hq : q.faulted = false) :
    q.attend passed r = q.settle (q.decide r) := by
  rw [attend, perform, health, hq]
  cases passed <;> rfl

/-- A look is refused by a suspended queue, unless its health was asked for before, and else shows the
first pings. -/
theorem attend_peek (q : Queue) (passed : Bool) (n : Nat) : q.attend passed (.peek n) =
    .done (if q.faulted && !passed then .error .suspended else .ok (.pings (q.pings.take n)), q) := by
  cases passed with
  | true => rw [Bool.not_true, Bool.and_false]; rfl
  | false =>
    rw [Bool.not_false, Bool.and_true, attend, if_neg Bool.false_ne_true, perform, health]
    cases q.faulted <;> rfl

/-- A queue that is well makes a change it has decided on, or the store has failed. -/
theorem of_write {passed : Bool} {c : Call} {q' q'' : Queue} {reply : Reply}
    {notice : Option Notice} {a : Except QueueError Reply} (hq : q.faulted = false)
    (hd : q.decide r = .write c q' reply notice)
    (h : Follows (q.attend passed r) m tr (some (a, q'')) m') :
    (a = .ok reply ∧ q'' = q' ∧ m' = c.effect m) ∨ ∃ e, a = .error (.storage e) := by
  rw [attend_of_well hq, hd] at h
  rcases h.of_call with ⟨-, -, hout⟩ | ⟨e, tr', -, hrest⟩ | ⟨x, tr', -, -, hrest⟩
  · cases hout
  · obtain ⟨tr'', hdone, -⟩ := follows_told hrest
    obtain ⟨hout, -⟩ := hdone.eq_of_done
    exact .inr ⟨e, congrArg Prod.fst hout⟩
  · obtain ⟨tr'', hdone, -⟩ := follows_told hrest
    obtain ⟨hout, hm⟩ := hdone.eq_of_done
    exact .inl ⟨congrArg Prod.fst hout, congrArg Prod.snd hout, hm⟩

/-- A queue that is well does what it has decided if the store does. -/
theorem follows_write {c : Call} {q' : Queue} {reply : Reply} {notice : Option Notice}
    (hq : q.faulted = false) (hd : q.decide r = .write c q' reply notice) {a : c.Answer}
    (ha : c.Truthful m a) :
    ∃ tr, Follows (q.attend false r) m tr (some (.ok reply, q')) (c.effect m) := by
  rw [attend_of_well hq, hd]
  cases notice with
  | none => exact ⟨_, .call (.answered a ha) (.done _ _)⟩
  | some n => exact ⟨_, .call (.answered a ha) (.tell (.done _ _))⟩

/-- Over a healthy backend the store does. -/
theorem gives_write {σ : Type} {b : Backend σ} {view : σ → Content} {well : σ → Prop} {c : Call}
    {q' : Queue} {reply : Reply} {notice : Option Notice} (hb : b.Healthy view well) {st : σ}
    (hst : well st) (hq : q.faulted = false) (hd : q.decide r = .write c q' reply notice)
    (hkey : ∀ k ∈ c.key?, ValidKey k) : ∃ st', (q.attend false r).Gives b st (.ok reply, q') st' ∧
      well st' ∧ view st' = c.effect (view st) := by
  obtain ⟨a, ha⟩ := hb.answers c st hst hkey
  have hserved := hb.implements c st
  rw [ha] at hserved
  refine ⟨(b.serve c st).2.1, ?_, hb.stays c st hst, hserved.eq_of_ok⟩
  rw [attend_of_well hq, hd]
  refine .call ha ?_
  cases notice with
  | none => exact .done _ _
  | some n => exact .tell (.done _ _)

theorem find_head {p : Ping} {rest : List Ping} (h : q.pings = p :: rest) :
    q.find? p.id = some p := by
  simp [find?, h]

theorem without_head {p : Ping} {rest : List Ping} (h : q.pings = p :: rest) :
    q.without p.id = { q with pings := rest } := by
  simp [without, h]

theorem decide_removal {id : Uuid} {p : Ping} (h : q.find? id = some p) :
    q.decideRemoval id = .write (storeDelete id) (q.without id) .accepted (some (.removed id)) := by
  rw [decideRemoval, contains, h]
  rfl

theorem decide_enqueue {p : Ping} (hp : q.find? p.id = none) :
    q.decide (.enqueue p) = .write (storePut { p with sequence := q.nextSequence })
      (q.push { p with sequence := q.nextSequence }) .accepted
      (some (.queued p.id p.documentType q.nextSequence)) := by
  have hcontains : q.contains p.id = false := by
    rw [contains, hp]
    rfl
  rw [Queue.decide, hcontains, if_neg Bool.false_ne_true]

/-- A queue that is well takes a new ping if the store does. -/
theorem follows_enqueue {p : Ping} (hq : q.faulted = false) (hp : q.find? p.id = none)
    (m : Content) : ∃ tr, Follows (q.attend false (.enqueue p)) m tr
      (some (.ok .accepted, q.push { p with sequence := q.nextSequence }))
      ((storePut { p with sequence := q.nextSequence }).effect m) :=
  follows_write hq (decide_enqueue hp) (a := ()) trivial

/-- If the store does not, the queue is suspended. -/
theorem follows_enqueue_failed {p : Ping} (hq : q.faulted = false) (hp : q.find? p.id = none)
    (m : Content) (e : Error) : ∃ tr, Follows (q.attend false (.enqueue p)) m tr
      (some (.error (.storage e), { q with faulted := true })) m := by
  have hnotice : (q.fault e).2 = some (.queueSuspended e) := by
    rw [fault, hq]
    rfl
  rw [attend_of_well hq, decide_enqueue hp]
  obtain ⟨tr, htold⟩ : ∃ tr, Follows (told (q.fault e).2 (.done (.error (.storage e), (q.fault e).1)))
      m tr (some ((.error (.storage e) : Except QueueError Reply), { q with faulted := true })) m := by
    rw [hnotice]
    exact ⟨_, .tell (.done _ _)⟩
  exact ⟨_, .call (.failed e) htold⟩

theorem follows_suspended (hq : q.faulted = true) (m : Content) (r : Request) :
    Follows (q.attend false r) m [] (some (.error .suspended, q)) m := by
  rw [attend, if_neg Bool.false_ne_true, perform, health, if_pos hq]
  exact .done _ _

/-- A queue that is well keeps a ping that may be tried again if the store does. -/
theorem follows_retry {id : Uuid} {p : Ping} (hq : q.faulted = false) (hp : q.find? id = some p)
    (hmax : ¬ q.config.maxAttempts ≤ p.attempted.attempts) (m : Content) :
    ∃ tr, Follows (q.attend false (.ackRecoverable id)) m tr
      (some (.ok (.retry (.retained p.attempted.attempts)), q.replace p.attempted))
      ((storePut p.attempted).effect m) := by
  have hdecide : q.decide (.ackRecoverable id) = .write (storePut p.attempted)
      (q.replace p.attempted) (.retry (.retained p.attempted.attempts)) none := by
    simp [Queue.decide, hp, hmax]
  exact follows_write hq hdecide (a := ()) trivial

end
end PingDelivery.Queue
