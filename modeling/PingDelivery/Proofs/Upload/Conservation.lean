import PingDelivery.Proofs.Client.Steps
import PingDelivery.Proofs.Upload.Books
import Mathlib.Algebra.BigOperators.Group.Finset.Piecewise
import Mathlib.Algebra.GroupWithZero.Nat

/-! # Pings are conserved

A ping enters the queue once, and once it leaves it again: uploaded, refused for good or given up after
its last attempt. Where only runs acknowledge, each way out has its counter in the statistics, so what
was restored and what was accepted is at any time pending or counted. The summaries of the runs add up
to the same counters.
-/

namespace PingDelivery
open Store

namespace Queue

/-! ## What requests do to the number of pings -/

/-- A ping has entered the queue. -/
def enters : Request × Response → Bool
  | (.enqueue _, .ok _) => true
  | _ => false

/-- A ping has left the queue. -/
def leaves : Request × Response → Bool
  | (.ackSuccess _, .ok _) | (.ackUnrecoverable _, .ok _)
  | (.ackRecoverable _, .ok (.retry (.dropped _))) => true
  | _ => false

/-- The ping that is kept for another attempt. -/
def retained? : Request × Response → Option Uuid
  | (.ackRecoverable id, .ok (.retry (.retained _))) => some id
  | _ => none

def retained (l : List (Request × Response)) : List Uuid := l.filterMap retained?

section
variable {q q' : Queue} {m m' : Content} {r : Request} {l : List (Request × Response)}

theorem length_without {id : Uuid} {p : Ping} (h : q.find? id = some p) :
    (q.without id).pings.length + 1 = q.pings.length := by
  have hmem : p ∈ q.pings := List.mem_of_find?_eq_some h
  rw [without, List.length_eraseP_of_mem hmem (List.find?_some h)]
  exact Nat.succ_pred_eq_of_pos (List.length_pos_of_mem hmem)

theorem length_replaceFirst (p : Ping) (l : List Ping) :
    (replaceFirst p l).length = l.length := by
  have hids := congrArg List.length (ids_replaceFirst p l)
  rwa [List.length_map, List.length_map] at hids

theorem Change.balance {c : Call} {reply : Reply} (h : Change q r c q' reply) :
    q.pings.length + [(r, .ok reply)].countP enters =
      q'.pings.length + [(r, .ok reply)].countP leaves := by
  cases h with
  | pushed _ =>
    rw [push, List.length_append]
    rfl
  | acked hr hp =>
    rw [← length_without hp]
    rcases hr with rfl | rfl <;> rfl
  | exhausted hp _ =>
    rw [← length_without hp]
    rfl
  | retried _ _ =>
    rw [replace, length_replaceFirst]
    rfl

/-- A request that is refused or only looks moves no ping. -/
theorem balance_of_unmoved {b : Response} (hb : ∀ reply, b = .ok reply → ∃ limit, r = .peek limit) :
    enters (r, b) = false ∧ leaves (r, b) = false := by
  cases b with
  | error e => cases r <;> exact ⟨rfl, rfl⟩
  | ok reply =>
    obtain ⟨limit, rfl⟩ := hb reply rfl
    exact ⟨rfl, rfl⟩

theorem Attended.balance {b : Response} (h : Attended q r m (some (b, q')) m') :
    q.pings.length + [(r, b)].countP enters = q'.pings.length + [(r, b)].countP leaves := by
  have hunmoved (hb : ∀ reply, b = .ok reply → ∃ limit, r = .peek limit) :
      [(r, b)].countP enters = [(r, b)].countP leaves := by
    obtain ⟨hin, hout⟩ := balance_of_unmoved hb
    rw [List.countP_singleton, List.countP_singleton, hin, hout]
  cases h with
  | refused e | failed e => rw [hunmoved fun reply h => by cases h]
  | peeked hr => rw [hunmoved fun reply _ => ⟨_, hr⟩]
  | written hc => exact hc.balance

/-- **What was there and has entered is there or has left.** -/
theorem Answered.balance (h : Answered q m l q' m') :
    q.pings.length + l.countP enters = q'.pings.length + l.countP leaves := by
  induction h with
  | start => rfl
  | next _ hf ih =>
    obtain ⟨hattended, -⟩ := attended_of_follows hf
    have hstep := hattended.balance
    rw [List.countP_append, List.countP_append]
    omega

/-- A recoverable failure is answered by what has become of the ping. -/
theorem Answered.retry (h : Answered q m l q' m') {id : Uuid} {reply : Reply}
    (hmem : (.ackRecoverable id, .ok reply) ∈ l) : ∃ d, reply = .retry d := by
  induction h with
  | start => cases hmem
  | next _ hf ih =>
    rcases List.mem_append.1 hmem with hmem | hmem
    · exact ih hmem
    · cases List.mem_singleton.1 hmem
      obtain ⟨hattended, -⟩ := attended_of_follows hf
      cases hattended with
      | peeked hr => cases hr
      | written hc => exact hc.retry

end
end Queue

namespace Upload

/-! ## What is counted of an answer -/

theorem Stats.foldl_mark (s : Stats) (ms : List Stats.Mark) : ms.foldl Stats.mark s =
    ⟨s.uploaded + ms.count .uploaded, s.recoverableFailures + ms.count .recoverable,
      s.unrecoverableFailures + ms.count .unrecoverable,
      s.droppedAfterRetries + ms.count .dropped, s.timeouts + ms.count .timeout⟩ := by
  induction ms generalizing s with
  | nil => rfl
  | cons a ms ih =>
    rw [List.foldl_cons, ih]
    cases a <;> simp [Stats.mark, Nat.add_left_comm, Nat.add_comm]

/-- What the statistics count of the answers. -/
def answerMarks (l : List (Queue.Request × Queue.Response)) : List Stats.Mark :=
  l.flatMap fun (r, b) => (Run.Deed.acked r b).marks

section
variable (a : Queue.Request × Queue.Response) (l l' : List (Queue.Request × Queue.Response))

theorem answerMarks_append : answerMarks (l ++ l') = answerMarks l ++ answerMarks l' :=
  List.flatMap_append

theorem count_answerMarks_cons (x : Stats.Mark) :
    (answerMarks (a :: l)).count x = (answerMarks [a]).count x + (answerMarks l).count x := by
  rw [← List.count_append, ← answerMarks_append, List.singleton_append]

theorem length_retained_cons : (Queue.retained (a :: l)).length =
    (Queue.retained [a]).length + (Queue.retained l).length := by
  rw [← List.length_append, Queue.retained, ← List.singleton_append, List.filterMap_append]
  rfl

/-- Each ping that has left is counted under one of three. -/
theorem countP_leaves : l.countP Queue.leaves = (answerMarks l).count .uploaded +
    (answerMarks l).count .unrecoverable + (answerMarks l).count .dropped := by
  have hone (a : Queue.Request × Queue.Response) : [a].countP Queue.leaves =
      (answerMarks [a]).count .uploaded + (answerMarks [a]).count .unrecoverable +
        (answerMarks [a]).count .dropped := by
    obtain ⟨_ | _ | _ | _ | _, e | _ | _ | d | d⟩ := a <;> rfl
  induction l with
  | nil => rfl
  | cons a l ih =>
    rw [← List.singleton_append, List.countP_append, hone, ih, List.singleton_append]
    simp only [count_answerMarks_cons a l]
    omega

/-- A recoverable failure is counted whether the ping is dropped or retained. -/
theorem count_recoverable (h : ∀ id reply, (.ackRecoverable id, .ok reply) ∈ l →
    ∃ d : Queue.Disposition, reply = .retry d) :
    (answerMarks l).count .recoverable = (answerMarks l).count .dropped +
      (Queue.retained l).length := by
  induction l with
  | nil => rfl
  | cons a l ih =>
    have hone : (answerMarks [a]).count .recoverable =
        (answerMarks [a]).count .dropped + (Queue.retained [a]).length := by
      obtain ⟨r, e | reply⟩ := a
      · cases r <;> rfl
      · cases r with
        | ackRecoverable id =>
          obtain ⟨d, rfl⟩ := h id reply List.mem_cons_self
          cases d <;> rfl
        | _ => rfl
    have hrest := ih fun id reply hmem => h id reply (List.mem_cons_of_mem a hmem)
    rw [length_retained_cons a l, count_answerMarks_cons a l, count_answerMarks_cons a l, hone, hrest]
    omega

/-- What a summary has counted of the answers. -/
theorem tally_acked : Run.tally (l.map fun (r, b) => .acked r b) =
    ⟨(answerMarks l).count .uploaded, (answerMarks l).count .unrecoverable,
      (Queue.retained l).length, (answerMarks l).count .dropped, .queueEmpty⟩ := by
  suffices hfrom : ∀ s : Summary, (l.map fun (r, b) => Run.Deed.acked r b).foldl Run.Deed.count s =
      ⟨s.uploaded + (answerMarks l).count .uploaded,
        s.unrecoverable + (answerMarks l).count .unrecoverable,
        s.recoverable + (Queue.retained l).length,
        s.droppedAfterRetries + (answerMarks l).count .dropped, s.stopReason⟩ by
    refine (hfrom .zero).trans ?_
    simp only [Summary.zero, Nat.zero_add]
  induction l with
  | nil => exact fun s => rfl
  | cons a l ih =>
    intro s
    have hone : Run.Deed.count s (.acked a.1 a.2) =
        ⟨s.uploaded + (answerMarks [a]).count .uploaded,
          s.unrecoverable + (answerMarks [a]).count .unrecoverable,
          s.recoverable + (Queue.retained [a]).length,
          s.droppedAfterRetries + (answerMarks [a]).count .dropped, s.stopReason⟩ := by
      obtain ⟨_ | _ | _ | _ | _, e | _ | _ | d | d⟩ := a <;> rfl
    rw [List.map_cons, List.foldl_cons, hone, ih]
    simp only [count_answerMarks_cons a l, length_retained_cons a l, Nat.add_assoc]

end

/-! ## What is counted over a shift -/

namespace Run

/-- But for timeouts, the statistics count what the queue has answered. -/
theorem Consulted.count_marks {d : Desk} {m m' : Content} {phase : Phase} {a : Act}
    {log : Option (Queue.Request × Queue.Response)} {x : List Deed × Phase × Desk}
    (h : Consulted d m phase a log x m') {k : Stats.Mark} (hk : k ≠ .timeout) :
    (x.1.flatMap Deed.marks).count k = (answerMarks log.toList).count k := by
  cases h with
  | idle _ | entered | stopped _ | answered _ | abandoned _ => rfl
  | expired _ => exact List.count_cons_of_ne hk.symm
  | @looked s checked passed _ =>
    rw [(looked_heeded d s (sight d passed)).books.2.2]
    rfl
  | @settled p o s passed b q tr m' hq => cases b <;> rfl

end Run

namespace Shift

section
variable {s₀ s s' : Shift} {m₀ m m' : Content} {es : List Event}

/-- What the runs have been answered, in the order of the answers. -/
def replies (es : List Event) : List (Queue.Request × Queue.Response) := (asked es).map (·.2)

theorem replies_append (es es' : List Event) : replies (es ++ es') = replies es ++ replies es' := by
  rw [replies, asked_append, List.map_append]
  rfl

theorem Moved.count_marks (h : Moved s m es s' m') {k : Stats.Mark} (hk : k ≠ .timeout) :
    (marks es).count k = (answerMarks (replies es)).count k := by
  cases h with
  | kept _ | checked _ _ | inquired _ _ _ _ | hired _ | dismissed _ _ | heard _ _ | came | sent _
  | refused _ _ | admitted _ _ | lined _ _ | requested _ | cancelled => rfl
  | acted _ _ h hput =>
    obtain ⟨-, hmarks, -, -⟩ := hput.books
    rw [marks_append, marks_told, List.nil_append, hmarks, h.count_marks hk, replies, asked_told,
      List.map_map]
    exact congrArg (fun l => (answerMarks l).count k) (List.map_id _).symm

theorem Course.count_marks (ho : s₀.Ordered) (h : Course s₀ m₀ es s m) {k : Stats.Mark}
    (hk : k ≠ .timeout) : (marks es).count k = (answerMarks (replies es)).count k := by
  induction h with
  | start => rfl
  | move h hf ih =>
    rw [marks_append, replies_append, answerMarks_append, List.count_append, List.count_append, ih,
      (moved_of_follows (h.ordered ho) hf).count_marks hk]

/-- Where only runs acknowledge, what comes of acknowledgements comes of what runs have asked. -/
theorem flatMap_requests {β : Type} {f : Queue.Request × Queue.Response → List β}
    (hf : ∀ r b, r.acks? = none → f (r, b) = [])
    (hacks : ∀ r b, .crew (.request r b) ∈ es → r.acks? = none) :
    (requests es).flatMap f = (replies es).flatMap f := by
  induction es with
  | nil => rfl
  | cons e es ih =>
    have hrest := ih fun r b h => hacks r b (List.mem_cons_of_mem e h)
    have hone : (requests [e]).flatMap f = (replies [e]).flatMap f := by
      cases e with
      | sent j i | asked i r b => rfl
      | crew e =>
        cases e with
        | run i u | cancelled => rfl
        | request r b =>
          refine (List.flatMap_singleton f (r, b)).trans (hf r b ?_)
          exact hacks r b List.mem_cons_self
    rw [← List.singleton_append, requests_append, replies_append, List.flatMap_append,
      List.flatMap_append, hone, hrest]

theorem answerMarks_requests (hacks : ∀ r b, .crew (.request r b) ∈ es → r.acks? = none) :
    answerMarks (requests es) = answerMarks (replies es) := by
  refine flatMap_requests (fun r b hr => ?_) hacks
  cases r with
  | enqueue p | peek n => rfl
  | ackSuccess id | ackUnrecoverable id | ackRecoverable id => cases hr

theorem retained_requests (hacks : ∀ r b, .crew (.request r b) ∈ es → r.acks? = none) :
    Queue.retained (requests es) = Queue.retained (replies es) := by
  rw [Queue.retained, Queue.retained, List.filterMap_eq_flatMap_toList,
    List.filterMap_eq_flatMap_toList]
  refine flatMap_requests (fun r b hr => ?_) hacks
  cases r with
  | enqueue p | peek n => rfl
  | ackSuccess id | ackUnrecoverable id | ackRecoverable id => cases hr

/-- Who asks has come. -/
theorem Moved.askers (h : Moved s m es s' m') :
    s.crew.runs.length ≤ s'.crew.runs.length ∧ ∀ a ∈ asked es, a.1 < s.crew.runs.length := by
  have hnone {n : Nat} (a : Nat × Queue.Request × Queue.Response) (ha : a ∈ []) : a.1 < n :=
    absurd ha List.not_mem_nil
  cases h with
  | kept _ | checked _ _ | inquired _ _ _ _ | hired _ | dismissed _ _ | heard _ _ | requested _
  | cancelled => exact ⟨Nat.le_refl _, hnone⟩
  | came | sent _ => exact ⟨by simp, hnone⟩
  | refused _ _ | admitted _ _ | lined _ _ => exact ⟨by simp, hnone⟩
  | @acted i a phase log x es c m' hi _ _ hput =>
    refine ⟨?_, fun a ha => ?_⟩
    · cases hput <;> simp
    · rw [asked_told] at ha
      obtain ⟨y, -, rfl⟩ := List.mem_map.1 ha
      exact (List.getElem?_eq_some_iff.1 hi).1

theorem Course.askers (ho : s₀.Ordered) (h : Course s₀ m₀ es s m) :
    ∀ a ∈ asked es, a.1 < s.crew.runs.length := by
  induction h with
  | start => exact fun a ha => absurd ha List.not_mem_nil
  | move h hf ih =>
    obtain ⟨hle, hnew⟩ := (moved_of_follows (h.ordered ho) hf).askers
    intro a ha
    rw [asked_append] at ha
    rcases List.mem_append.1 ha with ha | ha
    · exact (ih a ha).trans_le hle
    · exact (hnew a ha).trans_le hle

/-- What one run has been answered. -/
def repliesTo (i : Nat) (es : List Event) : List (Queue.Request × Queue.Response) :=
  (asked es).filterMap fun (k, a) => if k = i then some a else none

theorem answers_eq (i : Nat) (es : List Event) :
    answers i es = (repliesTo i es).map fun (r, b) => .acked r b := by
  rw [answers, repliesTo, List.map_filterMap]
  refine List.filterMap_congr fun a _ => ?_
  obtain ⟨k, r, b⟩ := a
  by_cases hk : k = i <;> simp [hk]

/-- What is answered to all runs is what is answered to each of them. -/
theorem sum_repliesTo {f : List (Queue.Request × Queue.Response) → Nat} (hnil : f [] = 0)
    (happend : ∀ l l', f (l ++ l') = f l + f l') {n : Nat} (h : ∀ a ∈ asked es, a.1 < n) :
    ∑ i ∈ Finset.range n, f (repliesTo i es) = f (replies es) := by
  unfold repliesTo replies
  generalize asked es = l at h
  induction l with
  | nil => simp only [List.filterMap_nil, List.map_nil, hnil, Finset.sum_const_zero]
  | cons a l ih =>
    obtain ⟨k, a⟩ := a
    have hstep (i : Nat) : f (((k, a) :: l).filterMap fun (k, a) => if k = i then some a else none) =
        (if k = i then f [a] else 0) +
          f (l.filterMap fun (k, a) => if k = i then some a else none) := by
      rw [← List.singleton_append, List.filterMap_append, happend]
      by_cases hk : k = i <;> simp [hk, hnil]
    have hk : k ∈ Finset.range n := Finset.mem_range.2 (h _ List.mem_cons_self)
    rw [Finset.sum_congr rfl fun i _ => hstep i, Finset.sum_add_distrib, Finset.sum_ite_eq, if_pos hk,
      ih fun a ha => h a (List.mem_cons_of_mem _ ha), ← happend]
    rfl

/-- What the summaries of all runs have counted is what all runs have been answered. -/
theorem sum_summaries {f : Summary → Nat} {g : List (Queue.Request × Queue.Response) → Nat}
    (hfg : ∀ l reason,
      f { Run.tally (l.map fun (r, b) => .acked r b) with stopReason := reason } = g l)
    (hnil : g [] = 0) (happend : ∀ l l', g (l ++ l') = g l + g l') {d : Desk}
    (hfree : d.scheduler.turn = .free) (h : Course (opened d) m₀ es s m) {ws : List Summary}
    (hruns : s.crew.runs = ws.map fun w => .finished (.ok w)) :
    (ws.map f).sum = g (replies es) := by
  have ho := ordered_opened hfree
  have hlength : s.crew.runs.length = ws.length := by rw [hruns, List.length_map]
  have heach : ws.map f = (List.range ws.length).map fun i => g (repliesTo i es) := by
    refine List.ext_getElem (by simp) fun i hi _ => ?_
    rw [List.length_map] at hi
    have hcounts := h.counts hfree i
    rw [h.tally ho, answers_eq, hruns, List.getElem?_map, List.getElem?_eq_getElem hi] at hcounts
    have hw : ws[i] = { Run.tally ((repliesTo i es).map fun (r, b) => .acked r b) with
      stopReason := ws[i].stopReason } := hcounts
    rw [List.getElem_map, List.getElem_map, List.getElem_range, hw, hfg]
  rw [heach, ← sum_repliesTo hnil happend (hlength ▸ h.askers ho)]
  rfl

/-! ## The books of a lifecycle -/

/-- **The books are balanced.** `restored` pings were there at the opening, `es` has been seen of the
shift since, and `s` is how it stands. -/
structure Conserved (restored : Nat) (es : List Event) (s : Shift) : Prop where
  pings : restored + (requests es).countP Queue.enters =
    s.crew.desk.queue.pings.length + s.crew.desk.scheduler.stats.uploaded +
      s.crew.desk.scheduler.stats.unrecoverableFailures +
      s.crew.desk.scheduler.stats.droppedAfterRetries
  /-- The failures after which pings were retained, ping by ping, among any that have them all. -/
  retries : ∀ ids : Finset Uuid, (∀ id ∈ Queue.retained (requests es), id ∈ ids) →
    s.crew.desk.scheduler.stats.recoverableFailures =
      s.crew.desk.scheduler.stats.droppedAfterRetries +
        ∑ id ∈ ids, (Queue.retained (requests es)).count id
  summaries : ∀ ws : List Summary, s.crew.runs = ws.map (fun w => .finished (.ok w)) →
    s.crew.desk.scheduler.stats.uploaded = (ws.map (·.uploaded)).sum ∧
    s.crew.desk.scheduler.stats.unrecoverableFailures = (ws.map (·.unrecoverable)).sum ∧
    s.crew.desk.scheduler.stats.droppedAfterRetries = (ws.map (·.droppedAfterRetries)).sum ∧
    s.crew.desk.scheduler.stats.recoverableFailures =
      (ws.map fun w => w.recoverable + w.droppedAfterRetries).sum

/-- The totals, by what runs have been answered. -/
theorem Course.totals {d : Desk} (hfree : d.scheduler.turn = .free)
    (hzero : d.scheduler.stats = .zero) (h : Course (opened d) m₀ es s m) :
    let ms := answerMarks (replies es)
    let stats := s.crew.desk.scheduler.stats
    stats.uploaded = ms.count .uploaded ∧ stats.recoverableFailures = ms.count .recoverable ∧
      stats.unrecoverableFailures = ms.count .unrecoverable ∧
      stats.droppedAfterRetries = ms.count .dropped := by
  have ho := ordered_opened hfree
  have hcount {k : Stats.Mark} (hk : k ≠ .timeout) := h.count_marks ho hk
  have hstats := h.stats ho
  rw [show (opened d).crew.desk.scheduler.stats = .zero from hzero, Stats.foldl_mark,
    hcount (by decide), hcount (by decide), hcount (by decide), hcount (by decide)] at hstats
  simp only [hstats, Stats.zero, Nat.zero_add, and_self]

/-- **Where only runs acknowledge, the books are balanced at any time.** -/
theorem pings_conserved {config : Configuration} {settings : LifecycleSettings} {fresh : Uuid}
    {m₀ m₁ m : Content} {tr : List Observed} {l : Lifecycle} {q : Queue} {drew : Bool}
    {es : List Event} {s : Shift}
    (hopen : Follows (Lifecycle.openOver config settings fresh) m₀ tr (some (.ok (l, q), drew)) m₁)
    (h : Course (opened ⟨.create config settings.plan, q⟩) m₁ es s m)
    (hacks : ∀ r b, .crew (.request r b) ∈ es → r.acks? = none) :
    Conserved q.report.restored es s := by
  obtain ⟨_, _, _, _, kept, -, hrebuilt, -, hout⟩ := openOver_cases hopen
  obtain ⟨_, q', hopened, heq⟩ := hout _ _ rfl
  cases heq
  obtain ⟨-, -, -, corrupt, rfl, -⟩ := hrebuilt.opened _ hopened
  have hanswered := h.answered (ordered_opened rfl)
  obtain ⟨huploaded, hrecoverable, hunrecoverable, hdropped⟩ := h.totals rfl rfl
  have hmarks := answerMarks_requests hacks
  have hretained := retained_requests hacks
  have hretries : s.crew.desk.scheduler.stats.recoverableFailures =
      s.crew.desk.scheduler.stats.droppedAfterRetries +
        (Queue.retained (requests es)).length := by
    rw [hrecoverable, hdropped, ← hmarks]
    exact count_recoverable _ fun id reply hmem => hanswered.retry hmem
  refine ⟨?_, fun ids hids => ?_, fun ws hruns => ?_⟩
  · have hbalance := hanswered.balance
    rw [countP_leaves, hmarks] at hbalance
    rw [huploaded, hunrecoverable, hdropped, Nat.add_assoc, Nat.add_assoc]
    rwa [Nat.add_assoc] at hbalance
  · rw [hretries, ← Multiset.coe_card, ← Multiset.sum_count_eq_card hids]
    simp only [Multiset.coe_count]
  · have hsum {f : Summary → Nat} {k : Stats.Mark} (hf : ∀ l reason,
        f { Run.tally (l.map fun (r, b) => .acked r b) with stopReason := reason } =
          (answerMarks l).count k) : (ws.map f).sum = (answerMarks (replies es)).count k :=
      sum_summaries hf rfl (fun l l' => by rw [answerMarks_append, List.count_append]) rfl h hruns
    have hrecovered : (ws.map (·.recoverable)).sum = (Queue.retained (replies es)).length :=
      sum_summaries (g := fun l => (Queue.retained l).length)
        (fun l reason => by rw [tally_acked]) rfl
        (fun l l' => by rw [Queue.retained, List.filterMap_append, List.length_append]; rfl) rfl h hruns
    have hgone : (ws.map (·.droppedAfterRetries)).sum = (answerMarks (replies es)).count .dropped :=
      hsum fun l reason => by rw [tally_acked]
    refine ⟨?_, ?_, ?_, ?_⟩
    · rw [huploaded, hsum fun l reason => by rw [tally_acked]]
    · rw [hunrecoverable, hsum fun l reason => by rw [tally_acked]]
    · rw [hdropped, hgone]
    · rw [List.sum_map_add, hrecovered, hgone, hretries, hretained, hdropped, Nat.add_comm]

/-- A handle on an empty store. -/
theorem follows_openOver_nil (config : Configuration) (settings : LifecycleSettings) (fresh : Uuid) :
    ∃ tr m, Follows (Lifecycle.openOver config settings fresh) (fun _ => none) tr
      (some (.ok (.create config settings fresh, .restored settings.queueConfig [] 0 0), true)) m := by
  let m := (Call.put ClientId.key (Bytes.ofText fresh.text)).effect fun _ => none
  have hid : Follows (ClientId.loadOrCreate fresh) (fun _ => none) _ (some (.ok fresh, true)) m :=
    .call (.answered (c := .get _) none rfl) (.call (.answered (c := .put _ _) () trivial) (.tell (.done _ _)))
  have hkeys : Call.list.Truthful m [ClientId.key] := by
    refine ⟨List.nodup_singleton _, fun k hk => List.mem_singleton.2 ?_⟩
    by_contra hne
    simp [m, Call.effect, hne] at hk
  have hload : Follows (Queue.load [ClientId.key] [] 0) m [] (some (.ok ([], 0))) m := by
    rw [Queue.load, isPingKey_clientId]
    exact .done _ _
  have htrim : Follows (Queue.trim settings.queueConfig (Queue.ordered []) 0) m []
      (some (.ok ([], 0))) m := by
    rw [Queue.ordered, List.mergeSort_nil]
    exact .done _ _
  have hqueue : Follows (Queue.rehydrate settings.queueConfig) m _
      (some (.ok (.restored settings.queueConfig [] 0 0))) m :=
    .call (.answered (c := .list) [ClientId.key] hkeys)
      (hload.bind (htrim.bind (.tell (.done _ _))))
  exact ⟨_, _, hid.bind (hqueue.bind (.tell (.done _ _)))⟩

/-- A ping is accepted, fails and is kept for another attempt. -/
theorem conserved_of_one : ∃ (tr : List Observed) (m₁ m : Content) (l : Lifecycle) (q : Queue)
    (es : List Event) (s : Shift),
    Follows (Lifecycle.openOver Opening.plain.config .standard (.drawn 2)) (fun _ => none) tr
      (some (.ok (l, q), true)) m₁ ∧
      Course (opened ⟨.create Opening.plain.config LifecycleSettings.standard.plan, q⟩) m₁ es s m ∧
      (∀ r b, .crew (.request r b) ∈ es → r.acks? = none) ∧
      s.crew.runs = [.finished (.ok ⟨0, 0, 1, 0, .recoverableFailure⟩)] ∧
      s.crew.desk.scheduler.stats = ⟨0, 1, 0, 0, 0⟩ ∧ Conserved q.report.restored es s := by
  obtain ⟨tr, m₁, hopen⟩ := follows_openOver_nil Opening.plain.config .standard (.drawn 2)
  have h : Course (opened ⟨.create Opening.plain.config LifecycleSettings.standard.plan,
    .restored LifecycleSettings.standard.queueConfig [] 0 0⟩) m₁ [] _ _ := .start
  have h := h.step (.crew (.request false (.enqueue Queue.blank)))
    (.call (.answered (c := .put _ _) () trivial) (.tell (.done _ _)))
  have h := h.step (.crew .come) (.done _ _)
  have h := h.step (.crew (.ask 0)) (.done _ _)
  have h := h.step (.crew (.act 0 .enter)) (.done _ _)
  have h := h.step (.crew (.act 0 (.look false false))) (.tell (.done _ _))
  have h := h.step (.crew (.act 0 (.hear (.recoverable "")))) (.done _ _)
  have h : Course (opened _) _ [.crew (.request (.enqueue _) _), .crew (.run 0 .took),
      .asked 0 (.peek 1) _, .crew (.run 0 (.called _)), .crew (.run 0 (.answered _ _)),
      .asked 0 (.ackRecoverable _) _, .crew (.run 0 (.acked _ _)), .crew (.run 0 (.returned _))]
      ⟨⟨_, [.finished _]⟩, _, _⟩ _ :=
    h.step (.crew (.act 0 (.settle false)))
      (.call (.answered (c := .put _ _) () trivial) (.tell (.done _ _)))
  refine ⟨tr, m₁, _, _, _, _, _, hopen, h, ?acks, rfl, rfl, pings_conserved hopen h ?acks⟩
  intro r b hmem
  rcases List.mem_cons.1 hmem with heq | hmem
  · cases heq
    rfl
  · simp at hmem

end
end Shift

end Upload
end PingDelivery
