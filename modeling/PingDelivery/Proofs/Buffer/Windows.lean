import Mathlib.Algebra.Ring.Int.Defs
import PingDelivery.Proofs.Buffer

/-! # Windows lose and mix nothing

Callers come to the buffer one after another, in whatever order they get hold of it. What an
operation does is done to the window of its own ping (`Operation.onWindow`), so of a run of operations
each ping sees those for itself and no others: `run_project`. `Operated` lists what one operation can
come to for its window. By induction over a run the events that were drained and those still buffered
are all that were recorded, in order, the counters add up, and no window reaches the limit.
-/

namespace PingDelivery.Buffer

/-! ## Operations -/

/-- What a caller does with the window of a ping. -/
inductive Act where
  | set (id : String) (m : Metric)
  | add (id : String) (amount : Int64)
  | record (e : Event)
  | take
  deriving DecidableEq

structure Operation where
  ping : String
  now : Time.Instant
  act : Act
  deriving DecidableEq

/-- A snapshot taken out of the buffer. It was `forced` if the event that reached the limit took it
out. -/
structure Drained where
  ping : String
  forced : Bool
  snapshot : Snapshot
  deriving DecidableEq

/-- One operation on a buffer whose windows all have the same limit. -/
def operate (limit : Nat) (b : Buffer) (o : Operation) : Buffer × Option Drained :=
  match o.act with
  | .set id m => (b.setMetric o.now o.ping id m, none)
  | .add id amount => (b.addToCounter o.now o.ping id amount, none)
  | .record e =>
    let r := b.recordEvent o.now o.ping e limit
    (r.1, r.2.map (⟨o.ping, true, ·⟩))
  | .take =>
    let r := b.take o.now o.ping
    (r.1, r.2.map (⟨o.ping, false, ·⟩))

/-- Operations in their order: the buffer after them, and what they have taken out. -/
def run (limit : Nat) : Buffer → List Operation → Buffer × List Drained
  | b, [] => (b, [])
  | b, o :: l =>
    let r := b.operate limit o
    let rest := run limit r.1 l
    (rest.1, r.2.toList ++ rest.2)

/-- The operations for one ping. -/
def own (ping : String) (l : List Operation) : List Operation := l.filter (·.ping = ping)

namespace Act

def recorded : Act → List Event
  | record e => [e]
  | set _ _ | add _ _ | take => []

/-- What is added to the counter. -/
def added (id : String) : Act → Int
  | add id' amount => if id' = id then amount.toInt else 0
  | set _ _ | record _ | take => 0

/-- Whether the act drains a window that has reached the limit. -/
def forces : Act → Bool
  | record _ => true
  | set _ _ | add _ _ | take => false

/-- The value of a counter that is added to; a metric of another type counts nothing. -/
def raised (old : Option Metric) (amount : Int64) : Int64 :=
  match old with
  | some (.counter n) => Window.saturatingAdd n amount
  | _ => amount

/-- The metric after the act, from the metric before. -/
def measured (id : String) (old : Option Metric) : Act → Option Metric
  | set id' m => if id = id' then some m else old
  | add id' amount => if id = id' then some (.counter (raised old amount)) else old
  | record _ | take => old

end Act

/-- The value of a counter; what is no counter counts nothing. -/
def countOf : Option Metric → Int
  | some (.counter n) => n.toInt
  | _ => 0

/-- Within 64 bits. -/
def Fits (n : Int) : Prop := -0x8000000000000000 ≤ n ∧ n ≤ 0x7FFFFFFFFFFFFFFF

/-! ## One window -/

def held (w : Option Window) : List Event := w.elim [] (·.events)

def metricOf (w : Option Window) (id : String) : Option Metric := w.bind (·.metrics.get? id)

/-- What an operation does to its window, which may not exist yet, and what it takes out. -/
def Operation.onWindow (limit : Nat) (o : Operation) (w : Option Window) :
    Option Window × Option Drained :=
  match o.act with
  | .set id m => (some ((w.getD (.opened o.now)).set id m), none)
  | .add id amount => (some ((w.getD (.opened o.now)).add id amount), none)
  | .record e =>
    let w := (w.getD (.opened o.now)).push e
    if limit ≤ w.events.length then
      (some (w.drain o.now).2, some ⟨o.ping, true, (w.drain o.now).1⟩)
    else (some w, none)
  | .take =>
    match w with
    | some w =>
      if w.isEmpty then (some w, none)
      else (some (w.drain o.now).2, some ⟨o.ping, false, (w.drain o.now).1⟩)
    | none => (none, none)

def follow (limit : Nat) : Option Window → List Operation → Option Window × List Drained
  | w, [] => (w, [])
  | w, o :: l =>
    let r := o.onWindow limit w
    let rest := follow limit r.1 l
    (rest.1, r.2.toList ++ rest.2)

section
variable {limit : Nat} {b : Buffer} {o : Operation} {w w' : Option Window} {l : List Operation}
  {ping id : String} {d : Option Drained}

theorem get?_put (b : Buffer) (ping' : String) (w : Window) (ping : String) :
    (b.put ping' w).windows.get? ping = if ping = ping' then some w else b.windows.get? ping :=
  Dict.get?_insert _ _ _ _

/-- An operation is one on the window of its ping; the other windows stay as they are. -/
theorem operate_onWindow (limit : Nat) (b : Buffer) (o : Operation) (ping : String) :
    (b.operate limit o).2 = (o.onWindow limit (b.windows.get? o.ping)).2 ∧
      (b.operate limit o).1.windows.get? ping =
        if ping = o.ping then (o.onWindow limit (b.windows.get? o.ping)).1
        else b.windows.get? ping := by
  obtain ⟨ping', now, act⟩ := o
  cases act with
  | set id m => exact ⟨rfl, get?_put _ _ _ _⟩
  | add id amount => exact ⟨rfl, get?_put _ _ _ _⟩
  | record e =>
    let w := (b.window ping' now).push e
    by_cases hfull : limit ≤ w.events.length
    · have hrecord : b.recordEvent now ping' e limit =
          (b.put ping' (w.drain now).2, some (w.drain now).1) := if_pos hfull
      have hwindow : Operation.onWindow limit ⟨ping', now, .record e⟩ (b.windows.get? ping') =
          (some (w.drain now).2, some ⟨ping', true, (w.drain now).1⟩) := if_pos hfull
      simp only [operate, hrecord, hwindow]
      exact ⟨rfl, get?_put _ _ _ _⟩
    · have hrecord : b.recordEvent now ping' e limit = (b.put ping' w, none) := if_neg hfull
      have hwindow : Operation.onWindow limit ⟨ping', now, .record e⟩ (b.windows.get? ping') =
          (some w, none) := if_neg hfull
      simp only [operate, hrecord, hwindow]
      exact ⟨rfl, get?_put _ _ _ _⟩
  | take =>
    have hsame : b.windows.get? ping =
        if ping = ping' then b.windows.get? ping' else b.windows.get? ping := by
      split
      · rename_i h
        rw [h]
      · rfl
    simp only [operate, Operation.onWindow, take]
    cases hw : b.windows.get? ping' with
    | none =>
      rw [hw] at hsame
      exact ⟨rfl, hsame⟩
    | some w =>
      rw [hw] at hsame
      by_cases hempty : w.isEmpty = true
      · simp only [if_pos hempty]
        exact ⟨rfl, hsame⟩
      · simp only [if_neg hempty]
        exact ⟨rfl, get?_put _ _ _ _⟩

/-- What is taken out is of the operation's ping. -/
theorem ping_of_onWindow {d : Drained} (h : (o.onWindow limit w).2 = some d) : d.ping = o.ping := by
  obtain ⟨ping', now, act⟩ := o
  cases act with
  | set _ _ | add _ _ => cases h
  | record e =>
    simp only [Operation.onWindow] at h
    split at h <;> cases h
    rfl
  | take =>
    simp only [Operation.onWindow] at h
    split at h
    · split at h <;> cases h
      rfl
    · cases h

/-- **Of a run, each ping sees its own operations.** -/
theorem run_project (limit : Nat) (b : Buffer) (l : List Operation) (ping : String) :
    (run limit b l).1.windows.get? ping = (follow limit (b.windows.get? ping) (own ping l)).1 ∧
      (run limit b l).2.filter (·.ping = ping) =
        (follow limit (b.windows.get? ping) (own ping l)).2 := by
  induction l generalizing b with
  | nil => exact ⟨rfl, rfl⟩
  | cons o l ih =>
    obtain ⟨hd, hw⟩ := operate_onWindow limit b o ping
    obtain ⟨ihw, ihd⟩ := ih (b.operate limit o).1
    rw [run, List.filter_append]
    by_cases hp : o.ping = ping
    · have hown : own ping (o :: l) = o :: own ping l :=
        List.filter_cons_of_pos (decide_eq_true hp)
      have hall : (b.operate limit o).2.toList.filter (·.ping = ping) =
          (b.operate limit o).2.toList := by
        refine List.filter_eq_self.2 ?_
        intro d hmem
        rw [hd] at hmem
        exact decide_eq_true ((ping_of_onWindow (Option.mem_toList.1 hmem)).trans hp)
      rw [if_pos hp.symm, hp] at hw
      rw [hw] at ihw ihd
      rw [hown, follow, hall, ihd, hd, hp]
      exact ⟨ihw, rfl⟩
    · have hown : own ping (o :: l) = own ping l :=
        List.filter_cons_of_neg (by simpa using hp)
      have hnone : (b.operate limit o).2.toList.filter (·.ping = ping) = [] := by
        refine List.filter_eq_nil_iff.2 ?_
        intro d hmem hdp
        rw [hd] at hmem
        exact hp ((ping_of_onWindow (Option.mem_toList.1 hmem)).symm.trans (of_decide_eq_true hdp))
      rw [if_neg (Ne.symm hp)] at hw
      rw [hw] at ihw ihd
      rw [hown, hnone, List.nil_append]
      exact ⟨ihw, ihd⟩

/-! ## One operation -/

theorem held_getD (w : Option Window) (now : Time.Instant) :
    (w.getD (.opened now)).events = held w := by
  cases w <;> rfl

theorem metrics_getD (w : Option Window) (now : Time.Instant) (id : String) :
    (w.getD (.opened now)).metrics.get? id = metricOf w id := by
  cases w <;> rfl

/-- What an operation comes to: its window goes on, or all that is in it is taken out and it begins
anew. -/
inductive Operated (limit : Nat) (o : Operation) (w : Option Window) :
    Option Window → Option Drained → Prop where
  | kept {w' : Option Window} (hevents : held w' = held w ++ o.act.recorded)
      (hmetrics : ∀ id, metricOf w' id = o.act.measured id (metricOf w id))
      (hbelow : o.act.forces = true → (held w').length < limit) : Operated limit o w w' none
  | drained {s : Snapshot} (hevents : s.events = held w ++ o.act.recorded)
      (hmetrics : ∀ id, s.metrics.get? id = o.act.measured id (metricOf w id))
      (hfull : o.act.forces = true → limit ≤ s.events.length) (hsome : s.isEmpty = false) :
      Operated limit o w (some (.opened o.now)) (some ⟨o.ping, o.act.forces, s⟩)

theorem add_eq_set (w : Window) (id : String) (amount : Int64) :
    w.add id amount = w.set id (.counter (Act.raised (w.metrics.get? id) amount)) := by
  unfold Window.add Act.raised
  cases w.metrics.get? id with
  | none => rfl
  | some m => cases m <;> rfl

theorem operated (limit : Nat) (o : Operation) (w : Option Window) :
    Operated limit o w (o.onWindow limit w).1 (o.onWindow limit w).2 := by
  obtain ⟨ping, now, act⟩ := o
  cases act with
  | set id' m =>
    refine .kept ?_ ?_ fun h => absurd h Bool.false_ne_true
    · exact (held_getD w now).trans (List.append_nil _).symm
    · intro id
      rw [← metrics_getD w now]
      exact Dict.get?_insert _ _ _ _
  | add id' amount =>
    have hadd : Operation.onWindow limit ⟨ping, now, .add id' amount⟩ w =
        (some ((w.getD (.opened now)).set id' (.counter (Act.raised (metricOf w id') amount))),
          none) := by
      rw [← metrics_getD w now, ← add_eq_set]
      rfl
    rw [hadd]
    refine .kept ?_ ?_ fun h => absurd h Bool.false_ne_true
    · exact (held_getD w now).trans (List.append_nil _).symm
    · intro id
      refine (Dict.get?_insert _ _ _ _).trans ?_
      rw [metrics_getD, Act.measured]
      by_cases h : id = id'
      · rw [if_pos h, if_pos h, h]
      · rw [if_neg h, if_neg h]
  | record e =>
    have hpush : ((w.getD (.opened now)).push e).events = held w ++ [e] := by
      rw [Window.push, held_getD]
    by_cases hfull : limit ≤ ((w.getD (.opened now)).push e).events.length
    · rw [show Operation.onWindow limit ⟨ping, now, .record e⟩ w = _ from if_pos hfull]
      refine .drained hpush (metrics_getD w now) (fun _ => hfull) ?_
      rw [Snapshot.isEmpty, Window.drain, hpush, List.isEmpty_eq_false_iff.2 (by simp), Bool.and_false]
    · rw [show Operation.onWindow limit ⟨ping, now, .record e⟩ w = _ from if_neg hfull]
      exact .kept hpush (metrics_getD w now) fun _ => Nat.not_le.1 hfull
  | take =>
    cases w with
    | none => exact .kept rfl (fun _ => rfl) fun h => absurd h Bool.false_ne_true
    | some w =>
      by_cases hempty : w.isEmpty = true
      · rw [show Operation.onWindow limit ⟨ping, now, .take⟩ (some w) = _ from if_pos hempty]
        exact .kept (List.append_nil _).symm (fun _ => rfl) fun h => absurd h Bool.false_ne_true
      · rw [show Operation.onWindow limit ⟨ping, now, .take⟩ (some w) = _ from if_neg hempty]
        exact .drained (List.append_nil _).symm (fun _ => rfl) (fun h => absurd h Bool.false_ne_true)
          (Bool.eq_false_iff.2 hempty)

/-! ## The events of one window -/

theorem recorded_of_not_forces {a : Act} (h : a.forces = false) : a.recorded = [] := by
  cases a with
  | record e => cases h
  | set _ _ | add _ _ | take => rfl

theorem length_recorded_le (a : Act) : a.recorded.length ≤ 1 := by
  cases a <;> simp [Act.recorded]

/-- **Nothing is lost and nothing is there twice**: what was drained and what is left are all the
events, in order. -/
theorem follow_events (limit : Nat) (w : Option Window) (l : List Operation) :
    (follow limit w l).2.flatMap (·.snapshot.events) ++ held (follow limit w l).1 =
      held w ++ l.flatMap (·.act.recorded) := by
  induction l generalizing w with
  | nil => exact (List.append_nil _).symm
  | cons o l ih =>
    have hop := operated limit o w
    rw [follow, List.flatMap_append, List.append_assoc, ih, List.flatMap_cons]
    generalize o.onWindow limit w = r at hop ⊢
    obtain ⟨w', d⟩ := r
    cases hop with
    | kept hevents _ _ =>
      rw [hevents, List.append_assoc]
      rfl
    | drained hevents _ _ _ =>
      rw [← List.append_assoc (held w), ← hevents]
      exact congrArg (· ++ _) (List.append_nil _)

/-- No window reaches the limit, and a snapshot that is forced out has exactly that many events. -/
theorem follow_below (hlimit : 0 < limit) (hw : (held w).length < limit) :
    (held (follow limit w l).1).length < limit ∧
      ∀ d ∈ (follow limit w l).2, d.forced = true → d.snapshot.eventCount = limit := by
  induction l generalizing w with
  | nil => exact ⟨hw, fun _ hd => absurd hd List.not_mem_nil⟩
  | cons o l ih =>
    have hop := operated limit o w
    rw [follow]
    generalize o.onWindow limit w = r at hop ⊢
    obtain ⟨w', d⟩ := r
    cases hop with
    | kept hevents _ hbelow =>
      refine ih ?_
      cases hforces : o.act.forces with
      | true => exact hbelow hforces
      | false =>
        rw [hevents, recorded_of_not_forces hforces, List.append_nil]
        exact hw
    | drained hevents _ hfull _ =>
      obtain ⟨hrest, hexact⟩ := ih (w := some (.opened o.now)) hlimit
      refine ⟨hrest, ?_⟩
      intro d hd hforced
      rcases List.mem_cons.1 hd with rfl | hd
      · refine Nat.le_antisymm ?_ (hfull hforced)
        have hone := length_recorded_le o.act
        rw [Snapshot.eventCount, hevents, List.length_append]
        omega
      · exact hexact d hd hforced

theorem follow_nonempty : ∀ d ∈ (follow limit w l).2, d.snapshot.isEmpty = false := by
  induction l generalizing w with
  | nil => exact fun _ hd => absurd hd List.not_mem_nil
  | cons o l ih =>
    have hop := operated limit o w
    rw [follow]
    generalize o.onWindow limit w = r at hop ⊢
    obtain ⟨w', d⟩ := r
    intro d hd
    cases hop with
    | kept _ _ _ => exact ih d hd
    | drained _ _ _ hsome =>
      rcases List.mem_cons.1 hd with rfl | hd
      · exact hsome
      · exact ih d hd

/-! ## The counters of one window -/

/-- No metric of another type, if there is one at all. -/
def IsCount (m : Option Metric) : Prop := m = none ∨ ∃ n, m = some (.counter n)

theorem toInt_saturatingAdd {a b : Int64} (h : Fits (a.toInt + b.toInt)) :
    (Window.saturatingAdd a b).toInt = a.toInt + b.toInt := by
  obtain ⟨hlow, hhigh⟩ := h
  rw [Window.saturatingAdd, if_neg (Int.not_lt.2 hlow), if_neg (Int.not_lt.2 hhigh)]
  exact Int64.toInt_ofInt_of_le hlow (Int.lt_add_one_of_le hhigh)

/-- What is added to a counter is what it grows by, if it has room. -/
theorem toInt_raised {old : Option Metric} {amount : Int64} (hold : IsCount old)
    (hfits : Fits (countOf old + amount.toInt)) :
    (Act.raised old amount).toInt = countOf old + amount.toInt := by
  rcases hold with rfl | ⟨n, rfl⟩
  · exact (Int.zero_add _).symm
  · exact toInt_saturatingAdd hfits

theorem count_measured {a : Act} {old : Option Metric} (hold : IsCount old)
    (hset : ∀ m, a ≠ .set id m)
    (hfits : ∀ amount, a = .add id amount → Fits (countOf old + amount.toInt)) :
    IsCount (a.measured id old) ∧ countOf (a.measured id old) = countOf old + a.added id := by
  cases a with
  | set id' m =>
    have hne : id ≠ id' := by
      rintro rfl
      exact hset m rfl
    rw [Act.measured, if_neg hne]
    exact ⟨hold, (Int.add_zero _).symm⟩
  | add id' amount =>
    rw [Act.measured, Act.added]
    by_cases h : id = id'
    · subst h
      rw [if_pos rfl, if_pos rfl]
      exact ⟨.inr ⟨_, rfl⟩, toInt_raised hold (hfits amount rfl)⟩
    · rw [if_neg h, if_neg (Ne.symm h)]
      exact ⟨hold, (Int.add_zero _).symm⟩
  | record e | take => exact ⟨hold, (Int.add_zero _).symm⟩

/-- What was drained of a counter and what is left of it add up to all that was added. -/
theorem follow_counted (hcount : IsCount (metricOf w id))
    (hset : ∀ o ∈ l, ∀ m, o.act ≠ .set id m)
    (hfits : ∀ before o after amount, l = before ++ o :: after → o.act = .add id amount →
      Fits (countOf (metricOf (follow limit w before).1 id) + amount.toInt)) :
    ((follow limit w l).2.map fun d => countOf (d.snapshot.metrics.get? id)).sum +
        countOf (metricOf (follow limit w l).1 id) =
      countOf (metricOf w id) + (l.map (·.act.added id)).sum := by
  induction l generalizing w with
  | nil => exact Int.add_comm _ _
  | cons o l ih =>
    obtain ⟨hcount', hsum⟩ := count_measured hcount (hset o List.mem_cons_self)
      fun amount => hfits [] o l amount rfl
    have hset' : ∀ o' ∈ l, ∀ m, o'.act ≠ .set id m :=
      fun o' ho' => hset o' (List.mem_cons_of_mem _ ho')
    have hfits' : ∀ before o' after amount, l = before ++ o' :: after → o'.act = .add id amount →
        Fits (countOf (metricOf (follow limit (o.onWindow limit w).1 before).1 id) +
          amount.toInt) := by
      rintro before o' after amount rfl
      exact hfits (o :: before) o' after amount rfl
    have hop := operated limit o w
    rw [follow, List.map_append, List.sum_append, List.map_cons, List.sum_cons, ← Int.add_assoc,
      ← hsum]
    generalize o.onWindow limit w = r at hop hfits' ⊢
    obtain ⟨w', d⟩ := r
    cases hop with
    | kept _ hmetrics _ =>
      rw [← hmetrics] at hcount' ⊢
      rw [Int.add_assoc, ih hcount' hset' hfits']
      exact Int.zero_add _
    | drained _ hmetrics _ _ =>
      rw [Int.add_assoc, ih (w := some (.opened o.now)) (.inl rfl) hset' hfits', ← hmetrics]
      simp [countOf, metricOf, Window.opened]

end

/-! ## All windows -/

/-- What is buffered of a counter. -/
def counted (b : Buffer) (ping id : String) : Int := countOf (b.metric? ping id)

/-- The ping's metric is added to and never set. -/
def OnlyAdded (ping id : String) (l : List Operation) : Prop :=
  ∀ o ∈ l, o.ping = ping → ∀ m, o.act ≠ .set id m

/-- Whenever something is added to the counter, the sum is within 64 bits. -/
def Unsaturated (limit : Nat) (ping id : String) (l : List Operation) : Prop :=
  ∀ before o after amount, l = before ++ o :: after → o.ping = ping → o.act = .add id amount →
    Fits ((run limit .empty before).1.counted ping id + amount.toInt)

/-- What is to be seen of one ping after operations on any pings. -/
structure Accounted (limit : Nat) (l : List Operation) (ping : String) : Prop where
  /-- The events that were drained, and then those still buffered, are those recorded, in order. -/
  events : ((run limit .empty l).2.filter (·.ping = ping)).flatMap (·.snapshot.events) ++
    (run limit .empty l).1.events ping = (own ping l).flatMap (·.act.recorded)
  below : (run limit .empty l).1.eventCount ping < limit
  full : ∀ d ∈ (run limit .empty l).2, d.ping = ping → d.forced = true →
    d.snapshot.eventCount = limit
  nonempty : ∀ d ∈ (run limit .empty l).2, d.ping = ping → d.snapshot.isEmpty = false
  counters : ∀ id, OnlyAdded ping id l → Unsaturated limit ping id l →
    (((run limit .empty l).2.filter (·.ping = ping)).map fun d =>
      countOf (d.snapshot.metrics.get? id)).sum + (run limit .empty l).1.counted ping id =
        ((own ping l).map (·.act.added id)).sum
  /-- Without the operations for other pings all would be the same. -/
  alone : (run limit .empty (own ping l)).1.windows.get? ping =
      (run limit .empty l).1.windows.get? ping ∧
    (run limit .empty (own ping l)).2.filter (·.ping = ping) =
      (run limit .empty l).2.filter (·.ping = ping)
  /-- An operation for another ping leaves the window alone and takes nothing of it out. -/
  others : ∀ o : Operation, o.ping ≠ ping →
    ((run limit .empty l).1.operate limit o).1.windows.get? ping =
        (run limit .empty l).1.windows.get? ping ∧
      ∀ d ∈ ((run limit .empty l).1.operate limit o).2, d.ping ≠ ping

theorem run_empty_project (limit : Nat) (l : List Operation) (ping : String) :
    (run limit .empty l).1.windows.get? ping = (follow limit none (own ping l)).1 ∧
      (run limit .empty l).2.filter (·.ping = ping) = (follow limit none (own ping l)).2 :=
  run_project limit .empty l ping

theorem own_own (ping : String) (l : List Operation) : own ping (own ping l) = own ping l :=
  List.filter_filter.trans (List.filter_congr fun _ _ => Bool.and_self _)

theorem fits_own {limit : Nat} {ping id : String} {l : List Operation}
    (h : Unsaturated limit ping id l) :
    ∀ before o after amount, own ping l = before ++ o :: after → o.act = .add id amount →
      Fits (countOf (metricOf (follow limit none before).1 id) + amount.toInt) := by
  intro before o after amount hsplit hadd
  obtain ⟨l₁, l₂, rfl, rfl, hafter⟩ := List.filter_eq_append_iff.1 hsplit
  obtain ⟨l₃, l₄, rfl, hskip, hping, -⟩ := List.filter_eq_cons_iff.1 hafter
  have hfits := h (l₁ ++ l₃) o l₄ amount (List.append_assoc _ _ _).symm (of_decide_eq_true hping) hadd
  have hown : own ping (l₁ ++ l₃) = own ping l₁ := by
    rw [own, List.filter_append, List.filter_eq_nil_iff.2 hskip, List.append_nil]
    rfl
  obtain ⟨hwindow, -⟩ := run_empty_project limit (l₁ ++ l₃) ping
  rw [hown] at hwindow
  rw [counted, metric?, hwindow] at hfits
  exact hfits

/-- **Windows lose and mix nothing**, in whatever order any callers come to the buffer. -/
theorem loses_and_mixes_nothing {limit : Nat} (hlimit : 0 < limit) (l : List Operation)
    (ping : String) : Accounted limit l ping := by
  obtain ⟨hwindow, hdrained⟩ := run_empty_project limit l ping
  obtain ⟨hbelow, hfull⟩ := follow_below (w := none) (l := own ping l) hlimit hlimit
  have hmem {d : Drained} (hd : d ∈ (run limit .empty l).2) (hp : d.ping = ping) :
      d ∈ (follow limit none (own ping l)).2 := by
    rw [← hdrained]
    exact List.mem_filter.2 ⟨hd, decide_eq_true hp⟩
  refine ⟨?_, ?_, fun d hd hp => hfull d (hmem hd hp), fun d hd hp => follow_nonempty d (hmem hd hp),
    ?_, ?_, ?_⟩
  · rw [hdrained, Buffer.events, hwindow]
    exact follow_events limit none (own ping l)
  · have hcount (w : Option Window) : w.elim 0 (·.events.length) = (held w).length := by
      cases w <;> rfl
    rw [eventCount, hwindow, hcount]
    exact hbelow
  · intro id hadded hfits
    have hset : ∀ o ∈ own ping l, ∀ m, o.act ≠ .set id m := by
      intro o ho
      obtain ⟨ho, hp⟩ := List.mem_filter.1 ho
      exact hadded o ho (of_decide_eq_true hp)
    rw [hdrained, counted, metric?, hwindow]
    exact (follow_counted (.inl rfl) hset (fits_own hfits)).trans (Int.zero_add _)
  · obtain ⟨howindow, hodrained⟩ := run_empty_project limit (own ping l) ping
    rw [own_own] at howindow hodrained
    exact ⟨howindow.trans hwindow.symm, hodrained.trans hdrained.symm⟩
  · intro o ho
    obtain ⟨hd, hw⟩ := operate_onWindow limit (run limit .empty l).1 o ping
    rw [if_neg (Ne.symm ho)] at hw
    refine ⟨hw, ?_⟩
    intro d hmem hp
    rw [hd] at hmem
    exact ho ((ping_of_onWindow hmem).symm.trans hp)

/-- A counter is added to, the second event fills the window, and the counter is added to again, while
another ping is recorded for. -/
def twoWindows (now : Time.Instant) : List Operation :=
  [⟨"metrics", now, .add "c" 5⟩, ⟨"metrics", now, .record ⟨0, "a", "b", .empty⟩⟩,
    ⟨"events", now, .record ⟨0, "a", "b", .empty⟩⟩,
    ⟨"metrics", now, .record ⟨1, "a", "b", .empty⟩⟩, ⟨"metrics", now, .add "c" 3⟩]

theorem onlyAdded_twoWindows (now : Time.Instant) : OnlyAdded "metrics" "c" (twoWindows now) := by
  intro o ho _ m hset
  simp only [twoWindows, List.mem_cons, List.not_mem_nil, or_false] at ho
  rcases ho with rfl | rfl | rfl | rfl | rfl <;> cases hset

theorem unsaturated_twoWindows (now : Time.Instant) :
    Unsaturated 2 "metrics" "c" (twoWindows now) := by
  rintro before o after amount hl - hadd
  match before with
  | [] =>
    cases hl
    cases hadd
    exact ⟨by decide, by decide⟩
  | [_] | [_, _] | [_, _, _] =>
    cases hl
    cases hadd
  | [_, _, _, _] =>
    cases hl
    cases hadd
    -- the counter has gone out with the window
    have hcounted : countOf (metricOf (follow 2 none (own "metrics" ((twoWindows now).take 4))).1
      "c") = 0 := rfl
    rw [counted, metric?, (run_empty_project _ _ _).1]
    change Fits (countOf (metricOf (follow 2 none (own "metrics" ((twoWindows now).take 4))).1 "c") + 3)
    rw [hcounted]
    exact ⟨by decide, by decide⟩
  | _ :: _ :: _ :: _ :: _ :: before => simp [twoWindows] at hl

theorem two_windows_accounted : 0 < 2 ∧
    Accounted 2 (twoWindows ⟨0, 0, by decide⟩) "metrics" ∧
    (((run 2 .empty (twoWindows ⟨0, 0, by decide⟩)).2.filter (·.ping = "metrics")).map fun d =>
      countOf (d.snapshot.metrics.get? "c")).sum +
        (run 2 .empty (twoWindows ⟨0, 0, by decide⟩)).1.counted "metrics" "c" = 8 := by
  have h := loses_and_mixes_nothing (show 0 < 2 by decide) (twoWindows ⟨0, 0, by decide⟩) "metrics"
  exact ⟨by decide, h, h.counters "c" (onlyAdded_twoWindows _) (unsaturated_twoWindows _)⟩

end PingDelivery.Buffer
