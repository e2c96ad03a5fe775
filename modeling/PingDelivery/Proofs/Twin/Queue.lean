import PingDelivery.Proofs.Queue.Mirror
import PingDelivery.Proofs.Queue.Serving
import PingDelivery.Proofs.Twin.Bond

/-! # Queues side by side

Queues with bonded pings decide alike, and so does their opening: ids, sequence numbers, ages, attempts
and sizes are all a queue looks at, and in none of these do bonded pings differ.
-/

namespace PingDelivery
open Store

namespace Bond
variable {B : Bond}

/-! ## Bonded pings -/

namespace Kept
variable {p p' : Ping}

theorem of_fits (h : p.Fits) : B.Kept p p := ⟨B.pings_refl p, h⟩

theorem agree (h : B.Kept p p') : p.Agrees p' := B.agree h.bonded

theorem numbered (h : B.Kept p p') (n : UInt64) :
    B.Kept { p with sequence := n } { p' with sequence := n } :=
  ⟨B.pings_numbered n h.bonded, h.fits.numbered n⟩

theorem attempted (h : B.Kept p p') : B.Kept p.attempted p'.attempted :=
  ⟨B.pings_attempted h.bonded, h.fits.attempted⟩

theorem settled (h : B.Kept p p') : B.Kept p.settled p'.settled :=
  ⟨B.pings_settled h.bonded, h.fits.settled.toFits⟩

end Kept

/-! ## Requests -/

inductive Requests (B : Bond) : Queue.Request → Queue.Request → Prop where
  | enqueue {p p' : Ping} (h : B.Kept p p') : B.Requests (.enqueue p) (.enqueue p')
  | peek (n : Nat) : B.Requests (.peek n) (.peek n)
  | ackSuccess (id : Uuid) : B.Requests (.ackSuccess id) (.ackSuccess id)
  | ackUnrecoverable (id : Uuid) : B.Requests (.ackUnrecoverable id) (.ackUnrecoverable id)
  | ackRecoverable (id : Uuid) : B.Requests (.ackRecoverable id) (.ackRecoverable id)

theorem Requests.of_fits {r : Queue.Request} (h : r.Fits) : B.Requests r r := by
  cases r with
  | enqueue p => exact .enqueue (.of_fits (h p rfl))
  | peek n => exact .peek n
  | ackSuccess id => exact .ackSuccess id
  | ackUnrecoverable id => exact .ackUnrecoverable id
  | ackRecoverable id => exact .ackRecoverable id

theorem Requests.fits {r r' : Queue.Request} (h : B.Requests r r') (hr : r.Fits) : r'.Fits := by
  cases h with
  | enqueue hp =>
    intro p h
    cases h
    exact hp.fits'
  | _ => exact hr

inductive Replies (B : Bond) : Queue.Reply → Queue.Reply → Prop where
  | accepted : B.Replies .accepted .accepted
  | pings {l l' : List Ping} (h : List.Forall₂ B.Kept l l') : B.Replies (.pings l) (.pings l')
  | retry (d : Queue.Disposition) : B.Replies (.retry d) (.retry d)

inductive Responses (B : Bond) :
    Except QueueError Queue.Reply → Except QueueError Queue.Reply → Prop where
  | error (e : QueueError) : B.Responses (.error e) (.error e)
  | ok {r r' : Queue.Reply} (h : B.Replies r r') : B.Responses (.ok r) (.ok r')

structure Queues (B : Bond) (q q' : Queue) : Prop where
  config : q'.config = q.config
  pings : List.Forall₂ B.Kept q.pings q'.pings
  nextSequence : q'.nextSequence = q.nextSequence
  faulted : q'.faulted = q.faulted
  report : q'.report = q.report

/-- What a request has come to. -/
structure Served (B : Bond) (x x' : Except QueueError Queue.Reply × Queue) : Prop where
  response : B.Responses x.1 x'.1
  queue : B.Queues x.2 x'.2

inductive Decisions (B : Bond) : Queue.Decision → Queue.Decision → Prop where
  | refuse (e : QueueError) : B.Decisions (.refuse e) (.refuse e)
  | answer {r r' : Queue.Reply} (h : B.Replies r r') : B.Decisions (.answer r) (.answer r')
  | put {p p' : Ping} {q q' : Queue} {r r' : Queue.Reply} {n n' : Option Notice} (hp : B.Kept p p')
      (hq : B.Queues q q') (hr : B.Replies r r') (hn : n' = n) :
      B.Decisions (.write (Queue.storePut p) q r n) (.write (Queue.storePut p') q' r' n')
  | delete {q q' : Queue} {r r' : Queue.Reply} (id : Uuid) (n : Option Notice) (hq : B.Queues q q')
      (hr : B.Replies r r') :
      B.Decisions (.write (Queue.storeDelete id) q r n) (.write (Queue.storeDelete id) q' r' n)

theorem rel_find {l l' : List Ping} (h : List.Forall₂ B.Kept l l') (id : Uuid) :
    Option.Rel B.Kept (l.find? (·.id = id)) (l'.find? (·.id = id)) := by
  induction h with
  | nil => exact .none
  | cons hp _ ih =>
    simp only [List.find?_cons, hp.agree.id]
    split
    · exact .some hp
    · exact ih

theorem forall₂_eraseP {l l' : List Ping} (h : List.Forall₂ B.Kept l l') (id : Uuid) :
    List.Forall₂ B.Kept (l.eraseP (·.id = id)) (l'.eraseP (·.id = id)) := by
  induction h with
  | nil => exact .nil
  | @cons p _ _ _ hp h ih =>
    rw [List.eraseP_cons, List.eraseP_cons, hp.agree.id]
    cases decide (p.id = id) with
    | true => exact h
    | false => exact .cons hp ih

theorem forall₂_replaceFirst {x x' : Ping} (hx : B.Kept x x') {l l' : List Ping}
    (h : List.Forall₂ B.Kept l l') :
    List.Forall₂ B.Kept (Queue.replaceFirst x l) (Queue.replaceFirst x' l') := by
  induction h with
  | nil => exact .nil
  | cons hp h ih =>
    rw [Queue.replaceFirst, Queue.replaceFirst, hp.agree.id, hx.agree.id]
    split
    · exact .cons hx h
    · exact .cons hp ih

namespace Queues
variable {q q' : Queue}

theorem find (h : B.Queues q q') (id : Uuid) : Option.Rel B.Kept (q.find? id) (q'.find? id) :=
  rel_find h.pings id

theorem contains_eq (h : B.Queues q q') (id : Uuid) : q'.contains id = q.contains id := by
  have hfind := h.find id
  unfold Queue.contains
  generalize q.find? id = x, q'.find? id = x' at hfind ⊢
  cases hfind <;> rfl

theorem without (h : B.Queues q q') (id : Uuid) : B.Queues (q.without id) (q'.without id) :=
  { h with pings := forall₂_eraseP h.pings id }

theorem replace (h : B.Queues q q') {p p' : Ping} (hp : B.Kept p p') :
    B.Queues (q.replace p) (q'.replace p') :=
  { h with pings := forall₂_replaceFirst hp h.pings }

theorem push (h : B.Queues q q') {p p' : Ping} (hp : B.Kept p p') :
    B.Queues (q.push p) (q'.push p') where
  config := h.config
  pings := List.rel_append h.pings (.cons hp .nil)
  nextSequence := congrArg (· + 1) h.nextSequence
  faulted := h.faulted
  report := h.report

theorem fault (h : B.Queues q q') (e : Store.Error) :
    B.Queues (q.fault e).1 (q'.fault e).1 ∧ (q'.fault e).2 = (q.fault e).2 := by
  unfold Queue.fault
  rw [h.faulted]
  exact ⟨{ h with faulted := rfl }, rfl⟩

theorem decisions_removal (h : B.Queues q q') (id : Uuid) :
    B.Decisions (q.decideRemoval id) (q'.decideRemoval id) := by
  unfold Queue.decideRemoval
  rw [h.contains_eq]
  split
  · exact .delete id _ (h.without id) .accepted
  · exact .refuse _

theorem decisions (h : B.Queues q q') {r r' : Queue.Request} (hr : B.Requests r r') :
    B.Decisions (q.decide r) (q'.decide r') := by
  cases hr with
  | @enqueue p p' hp =>
    have hcontains : q'.contains p'.id = q.contains p.id := by rw [hp.agree.id, h.contains_eq]
    have hnumbered := hp.numbered q.nextSequence
    simp only [Queue.decide, hcontains, h.nextSequence]
    split
    · rw [hp.agree.id]
      exact .refuse _
    · exact .put hnumbered (h.push hnumbered) .accepted (by rw [hp.agree.id, hp.agree.documentType])
  | peek n => exact .answer (.pings (List.forall₂_take n h.pings))
  | ackSuccess id => exact h.decisions_removal id
  | ackUnrecoverable id => exact h.decisions_removal id
  | ackRecoverable id =>
    have hfind := h.find id
    simp only [Queue.decide]
    generalize q.find? id = x, q'.find? id = x' at hfind
    cases hfind with
    | none => exact .refuse _
    | @some p p' hp =>
      simp only [h.config, hp.attempted.agree.attempts]
      split
      · exact .delete id _ (h.without id) (.retry _)
      · exact .put hp.attempted (h.replace hp.attempted) (.retry _) rfl

end Queues

theorem Programs.told {α β : Type} {R : α → β → Prop} {p : Program α} {p' : Program β}
    (n : Option Notice) (h : B.Programs R p p') : B.Programs R (Queue.told n p) (Queue.told n p') := by
  cases n with
  | none => exact h
  | some n => exact .tell (.same n) h

theorem programs_settle {q q' : Queue} (hq : B.Queues q q') {d d' : Queue.Decision}
    (hd : B.Decisions d d') : B.Programs B.Served (q.settle d) (q'.settle d') := by
  have hfault (e : Store.Error) : B.Programs B.Served
      (Queue.told (q.fault e).2 (.done (.error (.storage e), (q.fault e).1)))
      (Queue.told (q'.fault e).2 (.done (.error (.storage e), (q'.fault e).1))) := by
    obtain ⟨hqueue, hnotice⟩ := hq.fault e
    rw [hnotice]
    exact .told _ (.done ⟨.error _, hqueue⟩)
  cases hd with
  | refuse e => exact .done ⟨.error e, hq⟩
  | answer hr => exact .done ⟨.ok hr, hq⟩
  | @put p p' _ _ _ _ n _ hp hx hr hn =>
    have hput : Queue.storePut p' = .put (Record.key p.id) (Record.encode p') := by
      rw [Queue.storePut, hp.agree.id]
    rw [hput, hn]
    refine .put (.records hp) fun r => ?_
    cases r with
    | error e => exact hfault e
    | ok _ => exact .told n (.done ⟨.ok hr, hx⟩)
  | delete id n hx hr =>
    refine .delete fun r => ?_
    cases r with
    | error e => exact hfault e
    | ok _ => exact .told n (.done ⟨.ok hr, hx⟩)

/-- **Bonded queues answer alike**, to callers who have checked their health before or not. -/
theorem programs_attend {q q' : Queue} (hq : B.Queues q q') (passed : Bool) {r r' : Queue.Request}
    (hr : B.Requests r r') : B.Programs B.Served (q.attend passed r) (q'.attend passed r') := by
  have hsettle := programs_settle hq (hq.decisions hr)
  unfold Queue.attend Queue.perform Queue.health
  rw [hq.faulted]
  cases passed with
  | true => exact hsettle
  | false =>
    cases q.faulted with
    | true => exact .done ⟨.error _, hq⟩
    | false => exact hsettle

/-! ## Opening -/

/-- What has been read of a store so far. -/
structure Found (B : Bond) (x x' : List Ping × Nat) : Prop where
  pings : List.Forall₂ B.Kept x.1 x'.1
  count : x'.2 = x.2

inductive Loadings {ε α β : Type} (R : α → β → Prop) : Ended ε α → Ended ε β → Prop where
  | error (e : ε) : Loadings R (.error e) (.error e)
  | panic : Loadings R .panic .panic
  | ok {a : α} {b : β} (h : R a b) : Loadings R (.ok a) (.ok b)

inductive Trimmings {α β : Type} (R : α → β → Prop) :
    Except Store.Error α → Except Store.Error β → Prop where
  | error (e : Store.Error) : Trimmings R (.error e) (.error e)
  | ok {a : α} {b : β} (h : R a b) : Trimmings R (.ok a) (.ok b)

theorem programs_load (keys : List String) {found found' : List Ping} (corrupt : Nat)
    (hfound : List.Forall₂ B.Kept found found') :
    B.Programs (Loadings B.Found) (Queue.load keys found corrupt) (Queue.load keys found' corrupt) := by
  induction keys generalizing found found' corrupt with
  | nil => exact .done (.ok ⟨List.rel_reverse hfound, rfl⟩)
  | cons k keys ih =>
    rw [Queue.load, Queue.load]
    cases hk : Record.isPingKey k with
    | false => exact ih corrupt hfound
    | true =>
      refine .get (fun e => .done (.error e)) fun x x' hx => ?_
      cases hx with
      | same x =>
        cases x with
        | none => exact ih corrupt hfound
        | some b =>
          cases hdecode : Record.decode k b with
          | ok p =>
            simp only [hdecode]
            exact ih corrupt (.cons (.of_fits (Record.addressable_of_decode hdecode).toFits) hfound)
          | panic =>
            simp only [hdecode]
            exact .done .panic
          | error e =>
            simp only [hdecode]
            refine .tell (.same _) (.delete fun r => ?_)
            cases r with
            | error e => exact .done (.error e)
            | ok _ => exact ih (corrupt + 1) hfound
      | @records p p' h =>
        have hdecode := Record.decode_encode_settled h.fits []
        have hdecode' := Record.decode_encode_settled h.fits' []
        rw [List.append_nil] at hdecode hdecode'
        rw [h.agree.id] at hdecode'
        simp only [hdecode, hdecode']
        exact ih corrupt (.cons h.settled hfound)
      | ids => exact absurd hk (by decide)

/-- Sorting goes by what bonded pings have in common. -/
theorem forall₂_ordered {l l' : List Ping} (h : List.Forall₂ B.Kept l l') :
    List.Forall₂ B.Kept (Queue.ordered l) (Queue.ordered l') := by
  obtain ⟨hlength, hzip⟩ := List.forall₂_iff_zip.1 h
  have hprecedes : ∀ a ∈ l.zip l', ∀ b ∈ l.zip l',
      Queue.precedes a.1 b.1 = Queue.precedes a.2 b.2 := by
    intro a ha b hb
    have ha := (hzip ha).agree
    have hb := (hzip hb).agree
    rw [Queue.precedes, Queue.precedes, ha.sequence, hb.sequence, ha.createdAt, hb.createdAt]
  have hleft := List.map_mergeSort (f := Prod.fst) (l := l.zip l')
    (r := fun a b => Queue.precedes a.1 b.1) (s := Queue.precedes) fun _ _ _ _ => rfl
  have hright := List.map_mergeSort (f := Prod.snd) (l := l.zip l')
    (r := fun a b => Queue.precedes a.1 b.1) (s := Queue.precedes) hprecedes
  rw [List.map_fst_zip hlength.le] at hleft
  rw [List.map_snd_zip hlength.ge] at hright
  rw [Queue.ordered, Queue.ordered, ← hleft, ← hright, List.forall₂_map_left_iff,
    List.forall₂_map_right_iff, List.forall₂_same]
  exact fun x hx => hzip (List.mem_mergeSort.1 hx)

theorem admits_eq (c : Queue.Config) {l l' : List Ping} (h : List.Forall₂ B.Kept l l') :
    c.admits l' = c.admits l := by
  have hsize : Queue.totalSize l' = Queue.totalSize l := by
    induction h with
    | nil => rfl
    | cons hp _ ih =>
      rw [Queue.totalSize, List.foldr_cons, hp.agree.size]
      exact congrArg _ ih
  rw [Queue.Config.admits, Queue.Config.admits, hsize, h.length_eq]

theorem programs_trim (c : Queue.Config) {l l' : List Ping} (h : List.Forall₂ B.Kept l l')
    (dropped : Nat) :
    B.Programs (Trimmings B.Found) (Queue.trim c l dropped) (Queue.trim c l' dropped) := by
  induction h generalizing dropped with
  | nil => exact .done (.ok ⟨.nil, rfl⟩)
  | @cons p p' l l' hp h ih =>
    rw [Queue.trim, Queue.trim, admits_eq c (.cons hp h)]
    split
    · exact .done (.ok ⟨.cons hp h, rfl⟩)
    · refine .delete_of_eq (congrArg Record.key hp.agree.id) fun r => ?_
      cases r with
      | error e => exact .done (.error e)
      | ok _ => exact ih (dropped + 1)

theorem queues_restored (c : Queue.Config) {l l' : List Ping} (h : List.Forall₂ B.Kept l l')
    (corrupt dropped : Nat) :
    B.Queues (Queue.restored c l corrupt dropped) (Queue.restored c l' corrupt dropped) where
  config := rfl
  pings := h
  nextSequence := by
    have hlast : List.Forall₂ B.Kept l.reverse l'.reverse := List.rel_reverse h
    simp only [Queue.restored, List.getLast?_eq_head?_reverse]
    generalize l.reverse = x, l'.reverse = x' at hlast ⊢
    cases hlast with
    | nil => rfl
    | cons hp _ => exact congrArg (· + 1) hp.agree.sequence
  faulted := rfl
  report := congrArg (fun n => (⟨n, corrupt, dropped⟩ : Queue.Report)) h.length_eq.symm

/-- **Queues are opened alike** over stores that are alike. -/
theorem programs_rehydrate (c : Queue.Config) :
    B.Programs (Loadings B.Queues) (Queue.rehydrate c) (Queue.rehydrate c) := by
  refine .list fun r => ?_
  cases r with
  | error e => exact .done (.error _)
  | ok keys =>
    refine (programs_load keys 0 .nil).bind fun x x' hx => ?_
    cases hx with
    | error e => exact .done (.error _)
    | panic => exact .done .panic
    | ok hfound =>
      obtain ⟨hpings, hcorrupt⟩ := hfound
      refine (programs_trim c (forall₂_ordered hpings) 0).bind fun y y' hy => ?_
      cases hy with
      | error e => exact .done (.error _)
      | ok hkept =>
        obtain ⟨hpings, hdropped⟩ := hkept
        simp only [hcorrupt, hdropped, ← hpings.length_eq]
        exact .told _ (.tell (.same _) (.done (.ok (queues_restored c hpings _ _))))

end Bond
end PingDelivery
