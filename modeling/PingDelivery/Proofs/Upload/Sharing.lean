import Mathlib.Algebra.GroupWithZero.Nat
import Mathlib.Data.Set.List
import PingDelivery.Proofs.Client.Steps
import PingDelivery.Proofs.Queue.Reopening
import PingDelivery.Proofs.Upload.Serial

/-! # Shared work

Where nothing goes wrong the runs of a crew share the pings out among themselves: each ping is handed
over once, in order, by one of them, whichever that is, and what they report adds up. Others may add
pings in the meantime. The crew comes to an end, too: every move of a run takes it nearer to it, and
while a run has not finished some move is possible.
-/

namespace PingDelivery.Upload
open Store

namespace Run

/-- The uploader has answered with success, and the store has not failed. -/
def Deed.Smooth : Deed → Prop
  | .answered _ o => o = .success
  | .expired _ | .abandoned _ => False
  | .acked _ a => ∀ e, a ≠ .error (.storage e)
  | .took | .called _ | .returned _ => True

namespace Phase

/-- The ping that the run has handed over and not settled yet. -/
def inHand : Phase → List Ping
  | .uploading p _ | .settling p _ _ => [p]
  | _ => []

/-- How many pings the run has counted as uploaded. -/
def uploaded : Phase → Nat
  | .looking s | .uploading _ s | .settling _ _ s | .finished (.ok s) => s.uploaded
  | _ => 0

/-- How many steps the run has before it if there are no more pings, or more. -/
def weight : Phase → Nat
  | .arriving => 6
  | .waiting => 5
  | .admitted => 4
  | .looking _ => 3
  | .uploading _ _ => 2
  | .settling _ _ _ => 1
  | .finished _ => 0

/-- What the run has come to fits the pending pings. -/
structure Fits (phase : Phase) (pings : List Ping) : Prop where
  head : phase.inHand <+: pings
  success : ∀ p o s, phase = .settling p o s → o = .success
  result : ∀ r, phase = .finished r → ∃ s, r = .ok s

theorem fits_of_empty {phase : Phase} (h : phase.inHand = []) (hgo : ∀ r, phase ≠ .finished r)
    (pings : List Ping) : phase.Fits pings where
  head := h ▸ List.nil_prefix
  success p o s hs := by
    rw [hs] at h
    cases h
  result r hr := absurd hr (hgo r)

/-- A run that does not have the turn does not mind what becomes of the pings. -/
theorem Fits.others {phase : Phase} {pings : List Ping} (h : phase.Fits pings)
    (hb : phase.busy = false) (pings' : List Ping) : phase.Fits pings' where
  head := by
    cases phase <;> first | exact List.nil_prefix | cases hb
  success := h.success
  result := h.result

theorem Fits.more {phase : Phase} {pings : List Ping} (h : phase.Fits pings) (pings' : List Ping) :
    phase.Fits (pings ++ pings') where
  head := h.head.trans (List.prefix_append _ _)
  success := h.success
  result := h.result

end Phase

section
variable {d d' : Desk} {m m' : Content} {phase phase' : Phase} {a : Act} {deeds : List Deed}
  {tr : List Observed}

/-- What a step brings: a ping less, counted as uploaded, or none; in any case the end is nearer. -/
structure Brings (phase : Phase) (pings : List Ping) (deeds : List Deed) (phase' : Phase)
    (pings' done : List Ping) : Prop where
  split : done ++ pings' = pings
  handed : phase.inHand ++ deeds.filterMap Deed.called? = done ++ phase'.inHand
  counted : phase'.uploaded = phase.uploaded + done.length
  ends : ∀ r, phase' = .finished r → pings' = []
  nearer : 3 * pings'.length + phase'.weight < 3 * pings.length + phase.weight

/-- The oldest ping is acknowledged, or the store fails. -/
theorem acked_head {p : Ping} {rest : List Ping} {passed : Bool} {q : Queue}
    {reply : Except QueueError Queue.Reply} (hd : d.Sound) (hp : d.queue.pings = p :: rest)
    (h : Follows (d.queue.attend passed (.ackSuccess p.id)) m tr (some (reply, q)) m') :
    (reply = .ok .accepted ∧ q = { d.queue with pings := rest }) ∨ ∃ e, reply = .error (.storage e) := by
  have hdecide : d.queue.decide (.ackSuccess p.id) = _ :=
    Queue.decide_removal (Queue.find_head hp)
  rcases Queue.of_write hd.well hdecide h with ⟨hreply, hq, -⟩ | hfailed
  · exact .inl ⟨hreply, hq.trans (Queue.without_head hp)⟩
  · exact .inr hfailed

/-- A step at which nothing goes wrong. -/
theorem Acted.smooth (h : Acted d m phase a deeds phase' d' m') (hd : d.Sound)
    (hfits : phase.Fits d.queue.pings) (hsmooth : ∀ x ∈ deeds, x.Smooth) (hmoves : phase' ≠ phase) :
    d'.Sound ∧ d'.queue.nextSequence = d.queue.nextSequence ∧ phase'.Fits d'.queue.pings ∧
      ∃ done, Brings phase d.queue.pings deeds phase' d'.queue.pings done := by
  cases h with
  | idle => exact absurd rfl hmoves
  | entered =>
    have hturn : takeTurn d = .looking .zero := by
      rw [takeTurn, if_neg (by simp [hd.active])]
    rw [hturn]
    exact ⟨hd, rfl, Phase.fits_of_empty rfl (by simp) _, [], rfl, rfl, rfl, by simp, by simp [Phase.weight]⟩
  | stopped hc | abandoned hc =>
    rw [hd.uncancelled] at hc
    cases hc
  | refused hf =>
    rw [hd.well] at hf
    cases hf
  | @emptied s _ _ he =>
    refine ⟨hd, rfl, ⟨List.nil_prefix, ?_, ?_⟩, [], rfl, rfl, rfl, fun _ _ => he,
      by simp [Phase.weight]⟩
    · rintro _ _ _ ⟨⟩
    · rintro _ ⟨⟩
      exact ⟨_, rfl⟩
  | called hp _ =>
    refine ⟨hd, rfl, ⟨⟨_, hp.symm⟩, ?_, ?_⟩, [], rfl, rfl, rfl, by simp, by simp [Phase.weight]⟩
    · rintro _ _ _ ⟨⟩
    · rintro _ ⟨⟩
  | @answered p s o _ =>
    refine ⟨hd, rfl, ⟨hfits.head, ?_, ?_⟩, [], rfl, rfl, rfl, by simp, by simp [Phase.weight]⟩
    · rintro _ _ _ ⟨⟩
      exact hsmooth _ (List.mem_singleton_self _)
    · rintro _ ⟨⟩
  | expired _ => exact absurd (hsmooth _ (List.mem_singleton_self _)) id
  | @failed p o s passed tr e q m' hf =>
    obtain rfl := hfits.success p o s rfl
    obtain ⟨rest, hp⟩ := hfits.head
    rcases acked_head hd hp.symm hf with ⟨hok, -⟩ | ⟨e', he⟩
    · cases hok
    · exact absurd he (hsmooth _ (List.mem_singleton_self _) e')
  | @settled p o s passed tr reply q m' hf =>
    obtain rfl := hfits.success p o s rfl
    obtain ⟨rest, hp⟩ := hfits.head
    rcases acked_head hd hp.symm hf with ⟨hok, rfl⟩ | ⟨e, he⟩
    · cases hok
      have hlooking : Phase.Fits (.looking { s with uploaded := s.uploaded + 1 }) rest :=
        Phase.fits_of_empty rfl (by simp) _
      refine ⟨⟨hd.well, hd.active, hd.uncancelled⟩, rfl, hlooking, [p], hp, rfl, rfl, ?_, ?_⟩
      · rintro _ ⟨⟩
      · rw [← hp]
        change 3 * rest.length + 3 < 3 * (rest.length + 1) + 1
        omega
    · cases he

/-- A run that has the turn can take a step at which nothing goes wrong. -/
theorem exists_smooth (hd : d.Sound) (hfits : phase.Fits d.queue.pings) (hb : phase.busy = true)
    (m : Content) : ∃ a x tr m', Follows (act d phase a) m tr (some x) m' ∧ x.2.1 ≠ phase ∧
      (∀ y ∈ x.1, y.Smooth) ∧ ∀ es i, Crew.Honest es i d a := by
  cases phase with
  | arriving | waiting | finished r => cases hb
  | admitted =>
    refine ⟨.enter, _, _, _, .done _ m, ?_, by simp, by simp [Crew.Honest]⟩
    simp [takeTurn, hd.active]
  | looking s =>
    refine ⟨.look false false, ?_⟩
    have hhonest (es : List Crew.Event) (i : Nat) : Crew.Honest es i d (.look false false) := by
      simp [Crew.Honest]
    simp only [act, hd.uncancelled, Queue.attend_peek, hd.well, Program.bind, Bool.false_and,
      Bool.false_eq_true, if_false]
    cases hp : d.queue.pings with
    | nil => exact ⟨_, _, _, .done _ m, by simp [call], by simp [call], hhonest⟩
    | cons p rest =>
      obtain ⟨tr, hf⟩ := (quiet_looked_cons d s p []).reaches m
      refine ⟨_, _, _, hf.bind (.done _ _), ?_, ?_, hhonest⟩
      · simp [call, hd.uncancelled]
      · simp [call, hd.uncancelled, Deed.Smooth]
  | uploading p s =>
    refine ⟨.hear .success, ?_⟩
    simp only [act, hd.uncancelled, Bool.false_eq_true, if_false]
    refine ⟨_, _, _, .done _ m, by simp, ?_, by simp [Crew.Honest]⟩
    simp [Deed.Smooth]
  | settling p o s =>
    obtain rfl := hfits.success p o s rfl
    obtain ⟨rest, hp⟩ := hfits.head
    have hdecide : d.queue.decide (.ackSuccess p.id) = _ :=
      Queue.decide_removal (Queue.find_head hp.symm)
    obtain ⟨tr, hack⟩ := Queue.follows_write (m := m) hd.well hdecide (a := ()) trivial
    obtain ⟨tr', hsettled⟩ := (quiet_settled_ok { d with queue := d.queue.without p.id } p .success s
      .accepted).reaches ((Queue.storeDelete p.id).effect m)
    refine ⟨.settle false, _, _, _, hack.bind (hsettled.bind (.done _ _)), ?_, ?_,
      by simp [Crew.Honest]⟩
    · simp [account]
    · simp [Deed.Smooth]

end
end Run

/-! ## A crew shares -/

namespace Crew

namespace Event

/-- Nothing goes wrong, and others do no more than add pings and look at them. -/
def Smooth : Event → Prop
  | .run _ x => x.Smooth
  | .request (.enqueue _) a | .request (.peek _) a => ∀ e, a ≠ .error (.storage e)
  | .request _ _ | .cancelled => False

/-- The ping that the queue has taken. -/
def taken? : Event → Option Ping
  | .request (.enqueue p) (.ok _) => some p
  | _ => none

end Event

def taken (es : List Event) : List Ping := es.filterMap Event.taken?

/-- The pings as the queue numbers them. -/
def numbered (n : UInt64) (ps : List Ping) : List Ping :=
  ps.mapIdx fun k p => { p with sequence := n + .ofNat k }

/-- All pings that have been pending, the oldest first. -/
def received (q : Queue) (es : List Event) : List Ping :=
  q.pings ++ numbered q.nextSequence (taken es)

theorem taken_append (es es' : List Event) : taken (es ++ es') = taken es ++ taken es' :=
  List.filterMap_append

theorem received_append {q : Queue} {es es' : List Event} (h : taken es' = []) :
    received q (es ++ es') = received q es := by
  rw [received, taken_append, h, List.append_nil, received]

theorem received_enqueue (q : Queue) (es : List Event) (p : Ping) (a : Queue.Reply) :
    received q (es ++ [.request (.enqueue p) (.ok a)]) =
      received q es ++ [{ p with sequence := q.nextSequence + .ofNat (taken es).length }] := by
  have htaken : taken (es ++ [.request (.enqueue p) (.ok a)]) = taken es ++ [p] :=
    taken_append _ _
  rw [received, htaken, numbered, List.mapIdx_concat, ← List.append_assoc]
  rfl

theorem taken_deeds (i : Nat) (deeds : List Run.Deed) : taken (deeds.map (.run i)) = [] := by
  rw [taken, List.filterMap_map, List.filterMap_eq_nil_iff]
  intro x _
  rfl

def work (c : Crew) : Nat := 3 * c.desk.queue.pings.length + (c.runs.map Run.Phase.weight).sum

theorem sum_map_set {α : Type} (f : α → Nat) {l : List α} {i : Nat} {x : α} (hi : l[i]? = some x)
    (y : α) : ((l.set i y).map f).sum + f x = (l.map f).sum + f y := by
  induction l generalizing i with
  | nil => cases hi
  | cons z l ih =>
    cases i with
    | zero =>
      cases hi
      simp only [List.set_cons_zero, List.map_cons, List.sum_cons]
      omega
    | succ i =>
      have hrest := ih (i := i) hi
      simp only [List.set_cons_succ, List.map_cons, List.sum_cons]
      omega

def inHand (cur : Option (Nat × Run.Phase)) : List Ping := cur.elim [] (·.2.inHand)

/-- How the work of a crew that set out with the queue `q` has been shared: the pings in `done` have
been uploaded and counted, and the others are still pending. -/
structure Share (q : Queue) (es : List Event) (c : Crew) (cur : Option (Nat × Run.Phase))
    (done : List Ping) : Prop where
  sound : c.desk.Sound
  split : done ++ c.desk.queue.pings = received q es
  next : c.desk.queue.nextSequence = q.nextSequence + .ofNat (taken es).length
  called : calls es = done ++ inHand cur
  fits : ∀ (i : Nat) (phase : Run.Phase), c.runs[i]? = some phase → phase.Fits c.desk.queue.pings
  /-- A run has ended only when there were no more pings. -/
  emptied : taken es = [] → ∀ (i : Nat) (r : Except RunError Summary),
    c.runs[i]? = some (.finished r) → c.desk.queue.pings = []
  total : (c.runs.map Run.Phase.uploaded).sum = done.length

namespace Share
variable {q : Queue} {done : List Ping} {es : List Event} {c : Crew} {cur : Option (Nat × Run.Phase)}
  {m m' : Content} {i : Nat} {phase phase' x y : Run.Phase} {d : Desk}

theorem came (h : Share q es c cur done) :
    Share q es { c with runs := c.runs ++ [.arriving] } cur done where
  sound := h.sound
  split := h.split
  next := h.next
  called := h.called
  fits j phase hj := by
    rcases getElem?_concat.1 hj with hj | ⟨-, rfl⟩
    · exact h.fits j phase hj
    · exact Run.Phase.fits_of_empty rfl (by simp) _
  emptied hes j r hj := by
    rcases getElem?_concat.1 hj with hj | ⟨-, hr⟩
    · exact h.emptied hes j r hj
    · cases hr
  total := by simp [h.total, Run.Phase.uploaded]

theorem withTurn (h : Share q es c cur done) (t : Turn) :
    Share q es { c with desk := c.desk.withTurn t } cur done where
  sound := ⟨h.sound.well, h.sound.active, h.sound.uncancelled⟩
  split := h.split
  next := h.next
  called := h.called
  fits := h.fits
  emptied := h.emptied
  total := h.total

/-- A run that does no more than stand in line or get the turn. -/
theorem lines (h : Share q es c cur done) (hi : c.runs[i]? = some x) (hx : x.uploaded = 0)
    (hy : y.inHand = []) (hy' : y.uploaded = 0) (hgo : ∀ r, y ≠ .finished r) :
    Share q es { c with runs := c.runs.set i y } cur done where
  sound := h.sound
  split := h.split
  next := h.next
  called := h.called
  fits j phase hj := by
    rcases (getElem?_set_of hi).1 hj with ⟨-, rfl⟩ | ⟨-, hj⟩
    · exact Run.Phase.fits_of_empty hy hgo _
    · exact h.fits j phase hj
  emptied hes j r hj := by
    rcases (getElem?_set_of hi).1 hj with ⟨-, hr⟩ | ⟨-, hj⟩
    · exact absurd hr.symm (hgo r)
    · exact h.emptied hes j r hj
  total := by
    have hsum := sum_map_set Run.Phase.uploaded hi y
    have htotal := h.total
    dsimp only
    omega

/-- What is seen besides calls and new pings changes nothing. -/
theorem seen {es' : List Event} {cur' : Option (Nat × Run.Phase)} (h : Share q es c cur done)
    (hes : calls es' = []) (hes' : taken es' = []) (hcur : inHand cur' = inHand cur) :
    Share q (es ++ es') c cur' done where
  sound := h.sound
  split := h.split.trans (received_append hes').symm
  next := by rw [taken_append, hes', List.append_nil, h.next]
  called := by rw [calls_append, hes, List.append_nil, h.called, hcur]
  fits := h.fits
  emptied hnone := by
    rw [taken_append, hes', List.append_nil] at hnone
    exact h.emptied hnone
  total := h.total

/-- Others add a ping. -/
theorem enqueued {p : Ping} {a : Queue.Reply} (h : Share q es c cur done) :
    Share q (es ++ [.request (.enqueue p) (.ok a)])
      { c with desk := { c.desk with
          queue := c.desk.queue.push { p with sequence := c.desk.queue.nextSequence } } } cur done where
  sound := ⟨h.sound.well, h.sound.active, h.sound.uncancelled⟩
  split := by
    rw [received_enqueue, ← h.split, ← h.next, List.append_assoc]
    rfl
  next := by
    have htaken : taken (es ++ [.request (.enqueue p) (.ok a)]) = taken es ++ [p] :=
      taken_append _ _
    change c.desk.queue.nextSequence + 1 = _
    rw [htaken, h.next, List.length_append, UInt64.ofNat_add, ← UInt64.add_assoc]
    rfl
  called := by
    rw [calls_append]
    exact (List.append_nil _).trans h.called
  fits i phase hi := (h.fits i phase hi).more _
  emptied hnone := by
    rw [taken_append] at hnone
    cases (List.append_eq_nil_iff.1 hnone).2
  total := h.total

/-- The run that has the turn takes a step. -/
theorem stepped {a : Run.Act} {deeds : List Run.Deed} {tr : List Observed}
    (h : Share q es c (some (i, phase)) done) (hc : Orderly c (some (i, phase)))
    (hf : Follows (Run.act c.desk phase a) m tr (some (deeds, phase', d)) m')
    (hmoves : phase' ≠ phase) (hsmooth : ∀ x ∈ deeds, x.Smooth) :
    (∃ done', Share q (es ++ deeds.map (.run i)) ⟨d, c.runs.set i phase'⟩ (some (i, phase')) done') ∧
      work ⟨d, c.runs.set i phase'⟩ < work c := by
  obtain ⟨hi, hb⟩ := (hc.alone i phase).2 rfl
  obtain ⟨hsound, hnext, hfits, done', hbrings⟩ :=
    (Run.acted_of_follows hf).smooth h.sound (h.fits i phase hi) hsmooth hmoves
  have htaken : taken (es ++ deeds.map (.run i)) = taken es := by
    rw [taken_append, taken_deeds, List.append_nil]
  -- the run that stepped is the only one whose phase has to fit the pings that are left
  refine ⟨⟨done ++ done', hsound, ?_, ?_, ?_, ?_, ?_, ?_⟩, ?_⟩
  · rw [List.append_assoc, hbrings.split, h.split, received_append (taken_deeds i deeds)]
  · rw [htaken, ← h.next]
    exact hnext
  · rw [calls_append, calls_deeds, h.called, List.append_assoc, List.append_assoc]
    exact congrArg (done ++ ·) hbrings.handed
  · intro j x hj
    rcases (getElem?_set_of hi).1 hj with ⟨-, rfl⟩ | ⟨hne, hj⟩
    · exact hfits
    · refine (h.fits j x hj).others ?_ _
      exact Bool.eq_false_iff.2 fun hx => hne (hc.unique hj hi hx hb)
  · intro hnone j r hj
    rcases (getElem?_set_of hi).1 hj with ⟨-, hr⟩ | ⟨-, hj⟩
    · exact hbrings.ends r hr.symm
    · have hsplit := hbrings.split
      rw [h.emptied (htaken ▸ hnone) j r hj] at hsplit
      exact (List.append_eq_nil_iff.1 hsplit).2
  · have hsum := sum_map_set Run.Phase.uploaded hi phase'
    have htotal := h.total
    have hcounted := hbrings.counted
    rw [List.length_append]
    change ((c.runs.set i phase').map _).sum = _
    omega
  · have hsum := sum_map_set Run.Phase.weight hi phase'
    have hnearer := hbrings.nearer
    unfold work
    change 3 * d.queue.pings.length + ((c.runs.set i phase').map _).sum < _
    omega

/-- Others ask something of the queue. -/
theorem requested {passed : Bool} {r : Queue.Request} {a : Except QueueError Queue.Reply}
    {q' : Queue} {tr : List Observed} (h : Share q es c cur done)
    (hf : Follows (c.desk.queue.attend passed r) m tr (some (a, q')) m')
    (hsmooth : (Event.request r a).Smooth) :
    Share q (es ++ [.request r a]) { c with desk := { c.desk with queue := q' } } cur done := by
  have hlook (hr : taken [.request r a] = []) (hq : q' = c.desk.queue) :
      Share q (es ++ [.request r a]) { c with desk := { c.desk with queue := q' } } cur done := by
    rw [hq]
    exact h.seen rfl hr rfl
  obtain ⟨hattended, -⟩ := Queue.attended_of_follows hf
  cases hattended with
  | refused e => exact hlook (by cases r <;> rfl) rfl
  | peeked hr => exact hlook (by rw [hr]; rfl) rfl
  | failed e =>
    cases r with
    | enqueue _ | peek _ => exact absurd rfl (hsmooth e)
    | _ => cases hsmooth
  | written hchange =>
    cases hchange with
    | pushed _ => exact h.enqueued
    | acked hr _ => rcases hr with rfl | rfl <;> cases hsmooth
    | exhausted _ _ | retried _ _ => cases hsmooth

variable {es' : List Event} {c' : Crew} {cur' : Option (Nat × Run.Phase)} {mv : Move}

/-- To stand in line, or to be given the turn, is work done. -/
theorem work_lines (hi : c.runs[i]? = some x) (hlt : y.weight < x.weight) (t : Turn) :
    work ⟨c.desk.withTurn t, c.runs.set i y⟩ < work c := by
  have hsum := sum_map_set Run.Phase.weight hi y
  unfold work
  change 3 * c.desk.queue.pings.length + _ < _
  dsimp only
  omega

/-- **A move at which nothing goes wrong** keeps the shares, and unless somebody comes by it the end
is nearer. -/
theorem moved (h : Share q es c cur done) (hc : Orderly c cur) (hm : Moved c m cur mv es' c' cur' m')
    (hsmooth : ∀ e ∈ es', e.Smooth) :
    (∃ done', Share q (es ++ es') c' cur' done') ∧
      (mv = .come ∨ (∃ passed r, mv = .request passed r) ∨ c'.work < c.work) := by
  cases hm with
  | came =>
    rw [List.append_nil]
    exact ⟨⟨done, h.came⟩, .inl rfl⟩
  | refused _ hs =>
    rw [h.sound.active] at hs
    cases hs
  | admitted hi _ =>
    have hshare := (h.lines (y := .admitted) hi rfl rfl rfl (by simp)).withTurn ⟨true, c.turn.line⟩
    exact ⟨⟨done, hshare.seen rfl rfl rfl⟩, .inr (.inr (work_lines hi (by decide) _))⟩
  | @lined cur i hi _ _ =>
    have hshare := (h.lines (y := .waiting) hi rfl rfl rfl (by simp)).withTurn
      ⟨true, c.turn.line ++ [i]⟩
    rw [List.append_nil]
    exact ⟨⟨done, hshare⟩, .inr (.inr (work_lines hi (by decide) _))⟩
  | acted _ hf hmoves _ =>
    obtain ⟨hshare, hwork⟩ := h.stepped hc hf hmoves fun x hx => hsmooth _ (List.mem_map_of_mem hx)
    exact ⟨hshare, .inr (.inr hwork)⟩
  | ended _ hf _ =>
    obtain ⟨⟨done', hshare⟩, hwork⟩ := h.stepped hc hf (hc.not_finished _) fun x hx =>
      hsmooth _ (List.mem_append_left _ (List.mem_map_of_mem hx))
    rw [← List.append_assoc]
    exact ⟨⟨done', (hshare.withTurn _).seen rfl rfl rfl⟩, .inr (.inr hwork)⟩
  | handed _ hf _ hj =>
    obtain ⟨⟨done', hshare⟩, hwork⟩ := h.stepped hc hf (hc.not_finished _) fun x hx =>
      hsmooth _ (List.mem_append_left _ (List.mem_map_of_mem hx))
    rw [← List.append_assoc]
    refine ⟨⟨done', ((hshare.lines (y := .admitted) hj rfl rfl rfl (by simp)).withTurn _).seen rfl rfl rfl⟩,
      .inr (.inr (Nat.lt_trans ?_ hwork))⟩
    exact work_lines (c := ⟨_, _⟩) hj (by decide) _
  | requested hq => exact ⟨⟨done, h.requested hq (hsmooth _ (List.mem_singleton_self _))⟩,
      .inr (.inl ⟨_, _, rfl⟩)⟩
  | cancelled => exact absurd (hsmooth _ (List.mem_singleton_self _)) id

end Share

theorem Course.share {d : Desk} {m₀ m : Content} {es : List Event} {c : Crew}
    (hfree : d.scheduler.turn = .free) (hd : d.Sound) (h : Course ⟨d, []⟩ m₀ es c m)
    (hsmooth : ∀ e ∈ es, e.Smooth) :
    ∃ cur done, Orderly c cur ∧ Share d.queue es c cur done := by
  induction h with
  | start =>
    refine ⟨none, [], .start hfree, hd, ?_, ?_, rfl, ?_, ?_, rfl⟩
    · exact (List.append_nil _).symm
    · exact (UInt64.add_zero _).symm
    · intro i phase hi
      cases hi
    · intro _ i r hi
      cases hi
  | @move es es' c c' m m' mv tr _ _ hf ih =>
    obtain ⟨cur, done, hc, hshare⟩ := ih fun e he => hsmooth e (List.mem_append_left _ he)
    rcases moved_of_follows hc hf with ⟨rfl, rfl, rfl⟩ | ⟨cur', hmoved⟩
    · rw [List.append_nil]
      exact ⟨cur, done, hc, hshare⟩
    · obtain ⟨⟨done', hshare'⟩, -⟩ :=
        hshare.moved hc hmoved fun e he => hsmooth e (List.mem_append_right _ he)
      exact ⟨cur', done', hc.moved hmoved, hshare'⟩

/-! ## The end -/

/-- All runs have returned. -/
def Ended (c : Crew) : Prop := ∀ phase ∈ c.runs, ∃ r, phase = .finished r

section
variable {q : Queue} {done : List Ping} {es : List Event} {c : Crew}
  {cur : Option (Nat × Run.Phase)} {m : Content}

/-- The pings are handed over in order, each once. -/
theorem Share.in_order (h : Share q es c cur done) (hc : Orderly c cur) :
    calls es <+: received q es := by
  rw [h.called, ← h.split]
  refine (List.prefix_append_right_inj done).2 ?_
  cases cur with
  | none => exact List.nil_prefix
  | some u => exact (h.fits u.1 u.2 ((hc.alone u.1 u.2).2 rfl).1).head

/-- What has come of a crew whose runs have all returned. -/
structure Settled (q : Queue) (es : List Event) (c : Crew) : Prop where
  /-- What was not handed over is still pending. -/
  handed : calls es ++ c.desk.queue.pings = received q es
  counted : ∃ ss : List Summary, c.runs = ss.map (.finished <| .ok ·) ∧
    (ss.map (·.uploaded)).sum = (calls es).length
  emptied : c.runs ≠ [] → taken es = [] → c.desk.queue.pings = []

/-- **When all have returned, what was handed over is in the summaries.** -/
theorem Share.settled (h : Share q es c cur done) (hc : Orderly c cur) (hended : c.Ended) :
    Settled q es c := by
  have hresults : c.runs ∈ Set.range (List.map fun s => Run.Phase.finished (.ok s)) := by
    rw [Set.range_list_map]
    intro phase hphase
    obtain ⟨r, rfl⟩ := hended phase hphase
    obtain ⟨i, hi⟩ := List.mem_iff_getElem?.1 hphase
    obtain ⟨s, hs⟩ := (h.fits i _ hi).result r rfl
    exact ⟨s, congrArg Run.Phase.finished hs.symm⟩
  have hcur : cur = none := by
    refine Option.eq_none_iff_forall_ne_some.2 ?_
    rintro ⟨i, phase⟩ rfl
    obtain ⟨hi, hb⟩ := (hc.alone i phase).2 rfl
    obtain ⟨r, rfl⟩ := hended phase (List.mem_of_getElem? hi)
    cases hb
  have hcalls : calls es = done := by
    rw [h.called, hcur]
    exact List.append_nil done
  refine ⟨hcalls ▸ h.split, ?_, ?_⟩
  · obtain ⟨ss, hss⟩ := hresults
    have htotal := h.total
    rw [← hss, List.map_map] at htotal
    exact ⟨ss, hss.symm, htotal.trans (congrArg List.length hcalls.symm)⟩
  · intro hruns hnone
    obtain ⟨phase, hphase⟩ := List.exists_mem_of_ne_nil _ hruns
    obtain ⟨r, rfl⟩ := hended phase hphase
    obtain ⟨i, hi⟩ := List.mem_iff_getElem?.1 hphase
    exact h.emptied hnone i r hi

theorem smooth_put (i : Nat) {x : List Run.Deed × Run.Phase × Desk} (h : ∀ y ∈ x.1, y.Smooth) :
    ∀ e ∈ (c.put i x).1, e.Smooth := by
  obtain ⟨deeds, phase, d⟩ := x
  have hdeeds : ∀ e ∈ deeds.map (Event.run i), e.Smooth := by
    intro e he
    obtain ⟨y, hy, rfl⟩ := List.mem_map.1 he
    exact h y hy
  cases phase with
  | finished r =>
    have hpass : ∀ e ∈ (passOn ⟨d, c.runs.set i (.finished r)⟩).1, e.Smooth := by
      unfold passOn
      split
      · simp
      · simp [Event.Smooth, Run.Deed.Smooth]
    intro e he
    rcases List.mem_append.1 he with he | he
    · exact hdeeds e he
    · rcases List.mem_cons.1 he with rfl | he
      · trivial
      · exact hpass e he
  | _ => exact hdeeds

/-- While a run has not returned some move is possible at which nothing goes wrong. -/
theorem Share.goes_on (h : Share q es c cur done) (hc : Orderly c cur) (hgo : ¬ c.Ended)
    (m : Content) : ∃ mv tr es' c' m', mv.Honest es c.desk ∧
      Follows (c.perform mv) m tr (some (es', c')) m' ∧ (∀ e ∈ es', e.Smooth) ∧
      c'.work < c.work := by
  have hmove (mv : Move) {tr : List Observed} {es' : List Event} {c' : Crew} {m' : Content}
      {cur' : Option (Nat × Run.Phase)} (hcome : mv ≠ .come)
      (hask : ∀ passed r, mv ≠ .request passed r) (hh : mv.Honest es c.desk)
      (hf : Follows (c.perform mv) m tr (some (es', c')) m')
      (hm : Moved c m cur mv es' c' cur' m') (hsmooth : ∀ e ∈ es', e.Smooth) :
      ∃ mv tr es' c' m', mv.Honest es c.desk ∧ Follows (c.perform mv) m tr (some (es', c')) m' ∧
        (∀ e ∈ es', e.Smooth) ∧ c'.work < c.work := by
    obtain ⟨-, hmv | ⟨passed, r, hmv⟩ | hwork⟩ := h.moved hc hm hsmooth
    · exact absurd hmv hcome
    · exact absurd hmv (hask passed r)
    · exact ⟨mv, tr, es', c', m', hh, hf, hsmooth, hwork⟩
  cases cur with
  | some u =>
    obtain ⟨i, phase⟩ := u
    obtain ⟨hi, hb⟩ := (hc.alone i phase).2 rfl
    obtain ⟨a, x, tr, m', hf, hmoves, hsmooth, hhonest⟩ :=
      Run.exists_smooth h.sound (h.fits i phase hi) hb m
    obtain ⟨cur', hmoved⟩ := moved_of_put hc hf hmoves
    have hperform : c.perform (.act i a) =
        (Run.act c.desk phase a).bind fun x => .done (c.put i x) := by
      simp only [perform, hi, hb, if_true]
    have hput : Follows (c.perform (.act i a)) m (tr ++ []) (some (c.put i x)) m' := by
      rw [hperform]
      exact hf.bind (.done _ _)
    exact hmove (.act i a) (by simp) (by simp) (hhonest es i) hput hmoved (smooth_put i hsmooth)
  | none =>
    -- nobody has the turn, so nobody stands in line, and who has not returned has only just come
    have hline : c.turn.line = [] := hc.free rfl
    obtain ⟨phase, hphase, hrun⟩ : ∃ phase ∈ c.runs, ∀ r, phase ≠ .finished r := by
      simpa [Ended] using hgo
    obtain ⟨i, hi⟩ := List.mem_iff_getElem?.1 hphase
    have hnobody {j : Nat} (hj : c.runs[j]? = some .waiting) : False := by
      have hmem := (hc.waiting.mem j).2 hj
      rw [hline] at hmem
      cases hmem
    have hidle (hb : phase.busy = true) : False := by
      cases (hc.alone i phase).1 ⟨hi, hb⟩
    cases phase with
    | arriving =>
      have hperform : c.perform (.ask i) = .done (c.ask i) := by
        simp only [perform, hi]
      have hask : c.ask i = ([.run i .took],
          ⟨c.desk.withTurn ⟨true, c.turn.line⟩, c.runs.set i .admitted⟩) := by
        have hheld : c.turn.held = false := hc.held
        simp [Crew.ask, Turn.ask, h.sound.active, hheld]
      have hgiven : Follows (c.perform (.ask i)) m [] (some (c.ask i)) m := by
        rw [hperform]
        exact .done _ _
      rw [hask] at hgiven
      exact hmove (.ask i) (by simp) (by simp) trivial hgiven (.admitted hi h.sound.active)
        (by simp [Event.Smooth, Run.Deed.Smooth])
    | waiting => exact (hnobody hi).elim
    | finished r => exact absurd rfl (hrun r)
    | _ => exact (hidle rfl).elim

/-- With no new pings all of them have been handed over. -/
theorem Settled.complete (h : Settled q es c) (hruns : c.runs ≠ []) (hnone : taken es = []) :
    calls es = q.pings ∧ c.desk.queue.pings = [] := by
  have hhanded := h.handed
  have hempty := h.emptied hruns hnone
  rw [hempty, List.append_nil, received, hnone] at hhanded
  exact ⟨hhanded.trans (List.append_nil _), hempty⟩

/-- What is seen of a crew when nothing goes wrong, and what can become of it. -/
structure Shared (q : Queue) (es : List Event) (c : Crew) (m : Content) : Prop where
  in_order : calls es <+: received q es
  settled : c.Ended → Settled q es c
  /-- While a run has not returned some move takes the crew nearer to its end. -/
  goes_on : ¬ c.Ended → ∃ mv tr es' c' m', mv.Honest es c.desk ∧
    Follows (c.perform mv) m tr (some (es', c')) m' ∧ (∀ e ∈ es', e.Smooth) ∧ c'.work < c.work
  /-- So does every move that does anything, unless somebody comes by it or asks the queue. -/
  nearer : ∀ (mv : Move) (tr : List Observed) (es' : List Event) (c' : Crew) (m' : Content),
    Follows (c.perform mv) m tr (some (es', c')) m' → (∀ e ∈ es', e.Smooth) →
      mv = .come ∨ (∃ passed r, mv = .request passed r) ∨ c' = c ∨ c'.work < c.work

theorem Share.shared (h : Share q es c cur done) (hc : Orderly c cur) (m : Content) :
    Shared q es c m where
  in_order := h.in_order hc
  settled := h.settled hc
  goes_on hgo := h.goes_on hc hgo m
  nearer mv tr es' c' m' hf hsmooth := by
    rcases moved_of_follows hc hf with ⟨-, hsame, -⟩ | ⟨cur', hmoved⟩
    · exact .inr (.inr (.inl hsame))
    · obtain ⟨-, hcome | hask | hwork⟩ := h.moved hc hmoved hsmooth
      · exact .inl hcome
      · exact .inr (.inl hask)
      · exact .inr (.inr (.inr hwork))

end

/-- **Runs take turns.** Whatever a crew has come to, one run at most waits for the uploader, and of
all its calls one at most is not over. What can be seen is what runs do that are carried out one after
another, in the order in which they were given the turn, each on the desk that those before it have
left; the one under way, if any, is the one that has the turn. Where nothing goes wrong the pings are
handed over in order and each once, whoever comes and asks in whatever way, and the crew comes to an
end; when all runs have returned, their summaries count what was handed over, and without new pings
that is all there was. -/
theorem runs_take_turns {d : Desk} {m₀ m : Content} {es : List Event} {c : Crew}
    (hfree : d.scheduler.turn = .free) (h : Course ⟨d, []⟩ m₀ es c m) :
    ((∀ (i j : Nat) (p p' : Ping) (s s' : Summary), c.runs[i]? = some (.uploading p s) →
      c.runs[j]? = some (.uploading p' s') → i = j) ∧ (calls es).length ≤ landings es + 1) ∧
    (∃ cur, Alone c.runs cur ∧ Serial d m₀ es cur (c.desk.withTurn .free) m) ∧
    (d.Sound → (∀ e ∈ es, e.Smooth) → Shared d.queue es c m) := by
  obtain ⟨cur, hc, -, hserial⟩ := h.serial hfree
  refine ⟨⟨?_, ?_⟩, ⟨cur, hc.alone, hserial⟩, ?_⟩
  · intro i j p p' s s' hi hj
    exact hc.unique hi hj rfl rfl
  · have haloft : aloft cur ≤ 1 := by
      cases cur with
      | none => exact Nat.zero_le 1
      | some u => exact u.2.aloft_le
    rw [hserial.flights]
    omega
  · intro hd hsmooth
    obtain ⟨cur', done, hc', hshare⟩ := h.share hfree hd hsmooth
    exact hshare.shared hc' m

/-- Two callers and one ping: the second finds nothing left to do. -/
theorem turns_of_two : ∃ (d : Desk) (es : List Event) (c : Crew) (m : Content),
    Course ⟨d, []⟩ (fun _ => none) es c m ∧ d.queue.pings = [Queue.blank] ∧ c.runs.length = 2 ∧
      calls es = [Queue.blank] ∧ c.desk.queue.pings = [] := by
  let d : Desk := { Client.plain.desk with queue := .restored .standard [Queue.blank] 0 0 }
  have step {es es' : List Event} {c c' : Crew} {m m' : Content} {tr : List Observed}
      (h : Course ⟨d, []⟩ (fun _ => none) es c m) (mv : Move) (hh : mv.Honest es c.desk)
      (hf : Follows (c.perform mv) m tr (some (es', c')) m') :
      Course ⟨d, []⟩ (fun _ => none) (es ++ es') c' m' := h.move hh hf
  have hlook (es : List Event) (i : Nat) (d : Desk) : Honest es i d (.look false false) := by
    simp [Honest]
  have hsettle (es : List Event) (i : Nat) (d : Desk) : Honest es i d (.settle false) := by
    simp [Honest]
  have h := step .start .come trivial (.done _ _)
  have h := step h .come trivial (.done _ _)
  have h := step h (.ask 0) trivial (.done _ _)
  have h := step h (.ask 1) trivial (.done _ _)
  have h := step h (.act 0 .enter) trivial (.done _ _)
  have h := step h (.act 0 (.look false false)) (hlook _ _ _) (.tell (.done _ _))
  have h := step h (.act 0 (.hear .success)) trivial (.done _ _)
  have h := step h (.act 0 (.settle false)) (hsettle _ _ _)
    (.call (.answered (c := .delete _) () trivial) (.tell (.tell (.done _ _))))
  have h := step h (.act 0 (.look false false)) (hlook _ _ _) (.done _ _)
  have h := step h (.act 1 .enter) trivial (.done _ _)
  have h : Course ⟨d, []⟩ _
      [.run 0 .took, .run 0 (.called Queue.blank), .run 0 (.answered _ .success),
        .run 0 (.acked _ (.ok .accepted)), .run 0 (.returned _), .run 1 .took, .run 1 (.returned _)]
      ⟨_, [.finished _, .finished _]⟩ _ := step h (.act 1 (.look false false)) (hlook _ _ _) (.done _ _)
  obtain ⟨-, -, hshared⟩ := runs_take_turns rfl h
  have hsmooth := hshared ⟨rfl, rfl, rfl⟩ (by simp [Event.Smooth, Run.Deed.Smooth])
  obtain ⟨hcalls, hpings⟩ := (hsmooth.settled (by simp [Ended])).complete (by simp) rfl
  exact ⟨d, _, _, _, h, rfl, rfl, hcalls, hpings⟩

end Crew
end PingDelivery.Upload
