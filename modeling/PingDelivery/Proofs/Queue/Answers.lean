import PingDelivery.Proofs.Queue.Mirror

/-! # Requests one after another

`Answered` is what comes of a queue that is asked one thing after another. Whatever is asked, the
oldest ping stays the oldest, as it is and as it is stored, until somebody acknowledges it.
-/

namespace PingDelivery.Queue
open Store

abbrev Response := Except QueueError Reply

/-- `Answered q m l q' m'`: the queue has been asked the requests of the list in their order, each by
somebody who may have found it well before, and has answered as the list says. -/
inductive Answered (q : Queue) (m : Content) : List (Request × Response) → Queue → Content → Prop where
  | start : Answered q m [] q m
  | next {l : List (Request × Response)} {q' q'' : Queue} {m' m'' : Content} {passed : Bool}
      {r : Request} {b : Response} {tr : List Observed} (h : Answered q m l q' m')
      (hf : Follows (q'.attend passed r) m' tr (some (b, q'')) m'') :
      Answered q m (l ++ [(r, b)]) q'' m''

/-- The ping that is acknowledged. -/
def Request.acks? : Request → Option Uuid
  | .ackSuccess id | .ackUnrecoverable id | .ackRecoverable id => some id
  | .enqueue _ | .peek _ => none

/-- The oldest ping, and what is stored of it. -/
structure Oldest (p : Ping) (b : Option Bytes) (q : Queue) (m : Content) : Prop where
  head : ∃ rest, q.pings = p :: rest
  record : m (Record.key p.id) = b

section
variable {q q' : Queue} {m m' : Content} {p : Ping} {b : Option Bytes} {r : Request}
  {l : List (Request × Response)}

/-- A change that does not come of an acknowledgement of the oldest ping leaves it alone. -/
theorem Oldest.change (h : Oldest p b q m) {c : Call} {reply : Reply} (hc : Change q r c q' reply)
    (hr : r.acks? ≠ some p.id) : Oldest p b q' (c.effect m) := by
  obtain ⟨rest, hpings⟩ := h.head
  have hdeleted {id : Uuid} (hid : id ≠ p.id) :
      Oldest p b (q.without id) ((storeDelete id).effect m) := by
    refine ⟨⟨rest.eraseP (·.id = id), ?_⟩, ?_⟩
    · rw [without, hpings, List.eraseP_cons_of_neg (by simpa using hid.symm)]
    · rw [effect_delete_of_ne fun hk => hid (Record.key_injective hk).symm, h.record]
  have hput {x : Ping} (hid : x.id ≠ p.id) {l : List Ping} (hl : q'.pings = p :: l) :
      Oldest p b q' ((storePut x).effect m) := by
    refine ⟨⟨l, hl⟩, ?_⟩
    rw [effect_put_of_ne fun hk => hid (Record.key_injective hk).symm, h.record]
  cases hc with
  | @pushed x hnone =>
    have hid : x.id ≠ p.id := by
      rintro hid
      exact ne_id_of_find hnone p (by rw [hpings]; exact List.mem_cons_self) hid.symm
    exact hput (x := { x with sequence := q.nextSequence }) hid
      (l := rest ++ [{ x with sequence := q.nextSequence }]) (by rw [push, hpings]; rfl)
  | @acked r id x hacks _ =>
    refine hdeleted fun hid => hr ?_
    rcases hacks with rfl | rfl <;> rw [← hid] <;> rfl
  | @exhausted id x _ _ => exact hdeleted fun hid => hr (by rw [← hid]; rfl)
  | @retried id x hx _ =>
    have hid : x.id ≠ p.id := by
      rintro hid
      refine hr ?_
      rw [← hid, (id_of_find hx).2]
      rfl
    refine hput (x := x.attempted) hid (l := replaceFirst x.attempted rest) ?_
    rw [replace, hpings, replaceFirst, if_neg fun h => hid h.symm]

theorem Oldest.attended (h : Oldest p b q m) {a : Response}
    (ha : Attended q r m (some (a, q')) m') (hr : r.acks? ≠ some p.id) : Oldest p b q' m' := by
  cases ha with
  | refused _ | peeked _ => exact h
  | failed _ => exact ⟨h.head, h.record⟩
  | written hc => exact h.change hc hr

/-- **The oldest ping stays the oldest until it is acknowledged.** -/
theorem Answered.oldest (ha : Answered q m l q' m') (h : Oldest p b q m)
    (hl : ∀ a ∈ l, a.1.acks? ≠ some p.id) : Oldest p b q' m' := by
  induction ha with
  | start => exact h
  | next _ hf ih =>
    obtain ⟨hattended, -⟩ := attended_of_follows hf
    refine (ih fun a ha => hl a (List.mem_append_left _ ha)).attended hattended ?_
    exact hl _ (List.mem_append_right _ List.mem_cons_self)

end
end PingDelivery.Queue
