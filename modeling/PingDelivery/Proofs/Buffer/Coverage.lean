import Mathlib.Data.List.Chain
import Mathlib.Data.List.Forall2
import PingDelivery.Proofs.Buffer.Timeline

/-! # Windows cover what they carry

Beside the buffer a book is kept of the operations that its content comes from: `Sources`. The book looks
at the buffer and the buffer never at it. `Make` says that the sources account for the content: each event
is that of its operation, each metric is what its operations come to. A window starts no later than any of
its sources was recorded, also when it takes back old snapshots, and so a snapshot covers its own:
`Covers`. As long as nothing is put back the windows of a ping follow each other without a gap.
-/

namespace PingDelivery.Buffer
open Time (Instant)
open Window (merged saturatingAdd)

/-! ## Where content comes from -/

/-- The value of a metric comes from an operation that sets it or begins to count, or from those of two
counts that were summed. -/
inductive Yields (id : String) : List Operation → Metric → Prop where
  | set {o : Operation} {m : Metric} (h : o.act = .set id m) : Yields id [o] m
  | add {o : Operation} {n : Int64} (h : o.act = .add id n) : Yields id [o] (.counter n)
  | sum {l l' : List Operation} {n n' : Int64} (h : Yields id l (.counter n))
      (h' : Yields id l' (.counter n')) : Yields id (l ++ l') (.counter (saturatingAdd n n'))

/-- The operations behind the events, in their order, and behind each metric. -/
structure Sources where
  events : List Operation
  metrics : String → List Operation

namespace Sources

def empty : Sources := ⟨[], fun _ => []⟩

instance : Membership Operation Sources := ⟨fun s o => o ∈ s.events ∨ ∃ id, o ∈ s.metrics id⟩

/-- What an addition adds to: a counter. A metric of another type gives way. -/
def ofCounter (s : Sources) (w : Option Window) (id : String) : List Operation :=
  match metricOf w id with
  | some (.counter _) => s.metrics id
  | _ => []

/-- The sources of a window after an operation on it. -/
def note (s : Sources) (w : Option Window) (o : Operation) : Sources :=
  match o.act with
  | .set id _ => { s with metrics := Function.update s.metrics id [o] }
  | .add id _ => { s with metrics := Function.update s.metrics id (s.ofCounter w id ++ [o]) }
  | .record _ => { s with events := s.events ++ [o] }
  | .take => s

/-- The sources of a window after a snapshot with sources of its own has been put back into it. -/
def putBack (s : Sources) (w : Option Window) (older : Sources) (t : Snapshot) : Sources where
  events := older.events ++ s.events
  metrics id :=
    match metricOf w id, t.metrics.get? id with
    | none, _ => older.metrics id
    | some (.counter _), some (.counter _) => older.metrics id ++ s.metrics id
    | some _, _ => s.metrics id

/-- The operations come to these events and metrics, and to no more. -/
structure Make (s : Sources) (l : List Event) (value : String → Option Metric) : Prop where
  events : s.events.map (·.act) = l.map .record
  metrics : ∀ id m, value id = some m → Yields id (s.metrics id) m
  nothing : ∀ id, value id = none → s.metrics id = []

variable {s older : Sources} {w : Option Window} {t : Snapshot} {o o' : Operation}

theorem make_empty : empty.Make [] fun _ => none where
  events := rfl
  metrics id m hm := by cases hm
  nothing _ _ := rfl

theorem Make.not_mem (h : s.Make [] fun _ => none) : o ∉ s := by
  intro ho
  rcases ho with ho | ⟨id, ho⟩
  · rw [List.map_eq_nil_iff.1 h.events] at ho
    cases ho
  · rw [h.nothing id rfl] at ho
    cases ho

/-! ### An operation -/

theorem mem_update {id : String} {l : List Operation}
    (h : (Membership.mem { s with metrics := Function.update s.metrics id l } o')) :
    o' ∈ l ∨ o' ∈ s := by
  rcases h with h | ⟨id', h⟩
  · exact .inr (.inl h)
  · simp only [Function.update_apply] at h
    split at h
    · exact .inl h
    · exact .inr (.inr ⟨id', h⟩)

theorem mem_ofCounter {id : String} (h : o ∈ s.ofCounter w id) : o ∈ s := by
  unfold ofCounter at h
  split at h
  · exact .inr ⟨id, h⟩
  · cases h

theorem mem_note (h : o' ∈ s.note w o) : o' = o ∨ o' ∈ s := by
  unfold note at h
  split at h
  · exact (mem_update h).imp_left List.mem_singleton.1
  · rcases mem_update h with h | h
    · rcases List.mem_append.1 h with h | h
      · exact .inr (mem_ofCounter h)
      · exact .inl (List.mem_singleton.1 h)
    · exact .inr h
  · rcases h with h | h
    · rcases List.mem_append.1 h with h | h
      · exact .inr (.inl h)
      · exact .inl (List.mem_singleton.1 h)
    · exact .inr (.inr h)
  · exact .inr h

/-- One metric comes from other operations than before. -/
theorem Make.update {l : List Event} {value : String → Option Metric} {id : String} {m : Metric}
    {os : List Operation} (h : s.Make l value) (ho : Yields id os m) :
    Make { s with metrics := Function.update s.metrics id os } l
      fun id' => if id' = id then some m else value id' where
  events := h.events
  metrics id' m' hm' := by
    simp only [Function.update_apply]
    split at hm'
    · rename_i hid
      cases hm'
      rw [if_pos hid, hid]
      exact ho
    · rename_i hid
      rw [if_neg hid]
      exact h.metrics id' m' hm'
  nothing id' hnone := by
    simp only [Function.update_apply]
    split at hnone
    · cases hnone
    · rename_i hid
      rw [if_neg hid]
      exact h.nothing id' hnone

theorem yields_raised (h : s.Make (held w) (metricOf w)) {id : String} {amount : Int64}
    (ho : o.act = .add id amount) :
    Yields id (s.ofCounter w id ++ [o]) (.counter (Act.raised (metricOf w id) amount)) := by
  unfold ofCounter
  cases hm : metricOf w id with
  | none => exact .add ho
  | some m =>
    cases m with
    | counter n => exact .sum (h.metrics id _ hm) (.add ho)
    | _ => exact .add ho

theorem measured_add (w : Option Window) (id : String) (amount : Int64) :
    (fun id' => Act.measured id' (metricOf w id') (.add id amount)) = fun id' =>
      if id' = id then some (.counter (Act.raised (metricOf w id) amount)) else metricOf w id' := by
  funext id'
  rw [Act.measured]
  split
  · rename_i hid
    rw [hid]
  · rfl

/-- The sources keep up with every operation. -/
theorem make_note (h : s.Make (held w) (metricOf w)) :
    (s.note w o).Make (held w ++ o.act.recorded) fun id => o.act.measured id (metricOf w id) := by
  obtain ⟨ping, now, act⟩ := o
  cases act with
  | set id m =>
    rw [Act.recorded, List.append_nil]
    exact h.update (.set rfl)
  | add id amount =>
    rw [Act.recorded, List.append_nil, measured_add]
    exact h.update (yields_raised h rfl)
  | record e =>
    refine ⟨?_, h.metrics, h.nothing⟩
    simp only [note, Act.recorded, List.map_append, h.events]
    rfl
  | take =>
    rw [Act.recorded, List.append_nil]
    exact h

/-! ### A snapshot that is put back -/

theorem mem_putBack (h : o ∈ s.putBack w older t) : o ∈ s ∨ o ∈ older := by
  rcases h with h | ⟨id, h⟩
  · rcases List.mem_append.1 h with h | h
    · exact .inr (.inl h)
    · exact .inl (.inl h)
  · simp only [putBack] at h
    split at h
    · exact .inr (.inr ⟨id, h⟩)
    · rcases List.mem_append.1 h with h | h
      · exact .inr (.inr ⟨id, h⟩)
      · exact .inl (.inr ⟨id, h⟩)
    · exact .inl (.inr ⟨id, h⟩)

theorem make_putBack (h : s.Make (held w) (metricOf w))
    (hold : older.Make t.events t.metrics.get?) :
    (s.putBack w older t).Make (t.events ++ held w)
      fun id => merged (metricOf w id) (t.metrics.get? id) where
  events := by simp only [putBack, List.map_append, h.events, hold.events]
  metrics id m hm := by
    cases hnew : metricOf w id with
    | none =>
      rw [hnew] at hm
      simp only [putBack, hnew]
      exact hold.metrics id m hm
    | some n =>
      have hn := h.metrics id n hnew
      cases hgone : t.metrics.get? id with
      | none =>
        rw [hnew, hgone, Window.merged_none] at hm
        cases hm
        simp only [putBack, hnew, hgone]
        exact hn
      | some n' =>
        have hn' := hold.metrics id n' hgone
        rw [hnew, hgone] at hm
        cases n with
        | counter c =>
          cases n' with
          | counter c' =>
            cases hm
            simp only [putBack, hnew, hgone]
            rw [Window.saturatingAdd_comm]
            exact .sum hn' hn
          | _ =>
            cases hm
            simp only [putBack, hnew, hgone]
            exact hn
        | _ =>
          cases hm
          simp only [putBack, hnew, hgone]
          exact hn
  nothing id hnone := by
    cases hnew : metricOf w id with
    | none =>
      rw [hnew] at hnone
      simp only [putBack, hnew]
      exact hold.nothing id hnone
    | some n =>
      rw [hnew] at hnone
      exact absurd hnone (Window.merged_some_ne_none n _)

end Sources

/-! ## The book -/

/-- The sources of what is buffered for each ping, and of each snapshot that has been taken out. -/
structure Book where
  held : String → Sources
  sent : List Sources

namespace Book

def opened : Book := ⟨fun _ => .empty, []⟩

/-- The entry that a move on the buffer makes. -/
def step (k : Book) (t : Timeline) : Move → Book
  | .operate limit o =>
    let s := (k.held o.ping).note (t.buffer.windows.get? o.ping) o
    match (t.buffer.operate limit o).2 with
    | none => { k with held := Function.update k.held o.ping s }
    | some _ => ⟨Function.update k.held o.ping .empty, k.sent ++ [s]⟩
  | .putBack _ ping i =>
    match t.out[i]?, k.sent[i]? with
    | some d, some older =>
      let s := (k.held ping).putBack (t.buffer.windows.get? ping) older d.snapshot
      { k with held := Function.update k.held ping s }
    | _, _ => k

def keep : Book → Timeline → List Move → Book
  | k, _, [] => k
  | k, t, m :: l => keep (k.step t m) (t.step m) l

theorem keep_concat (k : Book) (t : Timeline) (l : List Move) (m : Move) :
    k.keep t (l ++ [m]) = (k.keep t l).step (t.run l) m := by
  induction l generalizing k t with
  | nil => rfl
  | cons m' l ih => exact ih _ _

end Book

/-- The snapshot comes from the sources, and its window covers the times at which they were recorded. -/
structure Drained.Covers (d : Drained) (s : Sources) : Prop where
  ordered : d.snapshot.startTime ≤ d.snapshot.endTime
  made : s.Make d.snapshot.events d.snapshot.metrics.get?
  within : ∀ o ∈ s, d.snapshot.startTime ≤ o.now ∧ o.now ≤ d.snapshot.endTime

/-- The book is in order at this time. -/
structure Booked (t : Timeline) (k : Book) (now : Instant) : Prop where
  made : ∀ ping, (k.held ping).Make (held (t.buffer.windows.get? ping))
    (metricOf (t.buffer.windows.get? ping))
  begun : ∀ ping w, t.buffer.windows.get? ping = some w → ∀ o ∈ k.held ping, w.startTime ≤ o.now
  past : ∀ ping, ∀ o ∈ k.held ping, o.now ≤ now
  sent : List.Forall₂ Drained.Covers t.out k.sent

section
variable {t : Timeline} {k : Book} {now now' : Instant} {m : Move} {l : List Move} {ping : String}
  {o : Operation}

theorem booked_opened (now : Instant) : Booked .start .opened now where
  made _ := Sources.make_empty
  begun _ _ hw := by cases hw
  past _ _ ho := absurd ho Sources.make_empty.not_mem
  sent := .nil

theorem Booked.later (h : Booked t k now) (hle : now ≤ now') : Booked t k now' where
  made := h.made
  begun := h.begun
  past ping o ho := Instant.le_trans (h.past ping o ho) hle
  sent := h.sent

theorem Booked.startOf_le (h : Booked t k now) (ho : o ∈ k.held ping) :
    startOf now' (t.buffer.windows.get? ping) ≤ o.now := by
  cases hw : t.buffer.windows.get? ping with
  | none =>
    have hmade := h.made ping
    rw [hw] at hmade
    exact absurd ho hmade.not_mem
  | some w => exact h.begun ping w hw o ho

/-- The sources of one ping's window change, and its start with them. -/
theorem Booked.update {b : Buffer} {s : Sources} (h : Booked t k now)
    (hothers : ∀ ping', ping' ≠ ping → b.windows.get? ping' = t.buffer.windows.get? ping')
    (hmade : s.Make (held (b.windows.get? ping)) (metricOf (b.windows.get? ping)))
    (hbegun : ∀ w, b.windows.get? ping = some w → ∀ o ∈ s, w.startTime ≤ o.now)
    (hpast : ∀ o ∈ s, o.now ≤ now) {out : List Drained} {sent : List Sources}
    (hsent : List.Forall₂ Drained.Covers out sent) :
    Booked ⟨b, out⟩ ⟨Function.update k.held ping s, sent⟩ now where
  made ping' := by
    by_cases hp : ping' = ping
    · subst hp
      simp only [Function.update_self]
      exact hmade
    · simp only [Function.update_of_ne hp, hothers ping' hp]
      exact h.made ping'
  begun ping' w hw o ho := by
    by_cases hp : ping' = ping
    · subst hp
      simp only [Function.update_self] at ho
      exact hbegun w hw o ho
    · simp only [Function.update_of_ne hp] at ho
      exact h.begun ping' w (hothers ping' hp ▸ hw) o ho
  past ping' o ho := by
    by_cases hp : ping' = ping
    · subst hp
      simp only [Function.update_self] at ho
      exact hpast o ho
    · simp only [Function.update_of_ne hp] at ho
      exact h.past ping' o ho
  sent := hsent

theorem Booked.operate (h : Booked t k o.now) (hpunctual : t.Punctual o.now) (limit : Nat) :
    Booked (t.step (.operate limit o)) (k.step t (.operate limit o)) o.now := by
  obtain ⟨hout, -⟩ := operate_onWindow limit t.buffer o o.ping
  have hwindow := (operate_onWindow limit t.buffer o o.ping).2
  rw [if_pos rfl] at hwindow
  have hothers (ping' : String) (hp : ping' ≠ o.ping) :
      (t.buffer.operate limit o).1.windows.get? ping' = t.buffer.windows.get? ping' := by
    rw [(operate_onWindow limit t.buffer o ping').2, if_neg hp]
  have hnote := Sources.make_note (o := o) (h.made o.ping)
  have hstart : ∀ o' ∈ (k.held o.ping).note (t.buffer.windows.get? o.ping) o,
      startOf o.now (t.buffer.windows.get? o.ping) ≤ o'.now ∧ o'.now ≤ o.now := by
    intro o' ho'
    rcases Sources.mem_note ho' with rfl | ho'
    · exact ⟨hpunctual.startOf_le _, Instant.le_refl _⟩
    · exact ⟨h.startOf_le ho', h.past o.ping o' ho'⟩
  have hoperated := operated limit o (t.buffer.windows.get? o.ping)
  have hpaced := paced limit o (t.buffer.windows.get? o.ping)
  simp only [Timeline.step, Book.step]
  rw [← hout, ← hwindow] at hoperated hpaced
  generalize (t.buffer.operate limit o).1 = b at hoperated hpaced hothers ⊢
  generalize (t.buffer.operate limit o).2 = d at hoperated hpaced ⊢
  generalize hw : b.windows.get? o.ping = w at hoperated hpaced
  cases hoperated with
  | kept hevents hmetrics _ =>
    simp only [Option.toList_none, List.append_nil]
    refine h.update hothers ?_ (fun w' hw' o' ho' => ?_) (fun o' ho' => (hstart o' ho').2) h.sent
    · have hvalue : metricOf w = fun id =>
          o.act.measured id (metricOf (t.buffer.windows.get? o.ping) id) := funext hmetrics
      rw [hw, hevents, hvalue]
      exact hnote
    · rw [hw] at hw'
      subst hw'
      cases hpaced with
      | kept hkept => exact hkept ▸ (hstart o' ho').1
  | @drained s hevents hmetrics _ _ =>
    simp only [Option.toList_some]
    refine h.update hothers ?_ (fun w' _ o' ho' => ?_) (fun o' ho' => ?_) ?_
    · rw [hw]
      exact Sources.make_empty
    · exact absurd ho' Sources.make_empty.not_mem
    · exact absurd ho' Sources.make_empty.not_mem
    · cases hpaced with
      | drained hs he =>
        have hvalue : s.metrics.get? = fun id =>
            o.act.measured id (metricOf (t.buffer.windows.get? o.ping) id) := funext hmetrics
        refine List.rel_append h.sent (.cons ⟨?_, ?_, fun o' ho' => ?_⟩ .nil)
        · rw [hs, he]
          exact hpunctual.startOf_le _
        · rw [hevents, hvalue]
          exact hnote
        · rw [hs, he]
          exact hstart o' ho'

theorem exists_of_forall₂ {α β : Type} {r : α → β → Prop} {l : List α} {l' : List β}
    (h : List.Forall₂ r l l') {i : Nat} {a : α} (ha : l[i]? = some a) :
    ∃ b, l'[i]? = some b ∧ r a b := by
  induction h generalizing i with
  | nil => cases ha
  | cons hr _ ih =>
    cases i with
    | zero =>
      cases ha
      exact ⟨_, rfl, hr⟩
    | succ i => exact ih ha

/-- What is put back ended before now and lowers the start below its own. -/
theorem Booked.putBack (h : Booked t k now) (hpunctual : t.Punctual now) (i : Nat) :
    Booked (t.step (.putBack now ping i)) (k.step t (.putBack now ping i)) now := by
  simp only [Timeline.step, Book.step]
  cases hd : t.out[i]? with
  | none => exact h
  | some d =>
    obtain ⟨older, holder, hcovers⟩ := exists_of_forall₂ h.sent hd
    have hget (ping' : String) := get?_restored t.buffer now ping d.snapshot ping'
    simp only [holder]
    refine h.update (fun ping' hp => (hget ping').trans (if_neg hp)) ?_ (fun w hw o ho => ?_)
      (fun o ho => ?_) h.sent
    · have hmade := Sources.make_putBack (h.made ping) hcovers.made
      rw [hget, if_pos rfl]
      have hvalue : metricOf (some (((t.buffer.windows.get? ping).getD (.opened now)).restore d.snapshot)) =
          fun id => merged (metricOf (t.buffer.windows.get? ping) id) (d.snapshot.metrics.get? id) := by
        funext id
        rw [metricOf, Option.bind_some, Window.get?_restore, metrics_getD]
      have hevents : held (some (((t.buffer.windows.get? ping).getD (.opened now)).restore d.snapshot)) =
          d.snapshot.events ++ held (t.buffer.windows.get? ping) :=
        congrArg (d.snapshot.events ++ ·) (held_getD _ now)
      rw [hvalue, hevents]
      exact hmade
    · rw [hget, if_pos rfl] at hw
      cases hw
      -- the start is the earlier of the window's and the snapshot's, each below its own sources
      rcases Sources.mem_putBack ho with ho | ho
      · exact Instant.le_trans (Instant.min_le_left _ _) (h.startOf_le ho)
      · exact Instant.le_trans (Instant.min_le_right _ _) (hcovers.within o ho).1
    · rcases Sources.mem_putBack ho with ho | ho
      · exact h.past ping o ho
      · exact Instant.le_trans (hcovers.within o ho).2 (hpunctual.out d (List.mem_of_getElem? hd))

/-- **The book is in order**, whatever the moves, at the last reading of the clock or any later one. -/
theorem booked_run (h : Forward l) (hnow : ∀ m ∈ l, m.now ≤ now) :
    Booked (Timeline.start.run l) (Book.opened.keep .start l) now := by
  induction l using List.reverseRecOn generalizing now with
  | nil => exact booked_opened now
  | append_singleton l m ih =>
    obtain ⟨hl, -, hlast⟩ := List.pairwise_append.1 h
    have hbefore : ∀ m' ∈ l, m'.now ≤ m.now := fun m' hm' => hlast m' hm' m List.mem_cons_self
    have hpunctual : (Timeline.start.run l).Punctual m.now := Timeline.punctual_run hl hbefore
    rw [Timeline.run_concat, Book.keep_concat]
    refine Booked.later ?_ (hnow m List.mem_concat_self)
    cases m with
    | operate limit o => exact (ih hl hbefore).operate hpunctual limit
    | putBack now ping i => exact (ih hl hbefore).putBack hpunctual i

/-! ### Every source is an operation that was made -/

/-- Everything in the book is such an operation. -/
structure Book.All (k : Book) (p : Operation → Prop) : Prop where
  held : ∀ ping, ∀ o ∈ k.held ping, p o
  sent : ∀ s ∈ k.sent, ∀ o ∈ s, p o

theorem Book.All.update {p : Operation → Prop} {s : Sources} (h : k.All p) (hs : ∀ o ∈ s, p o)
    (ping : String) : ∀ ping', ∀ o ∈ Function.update k.held ping s ping', p o := by
  intro ping'
  rw [Function.update_apply]
  split
  · exact hs
  · exact h.held ping'

theorem Book.All.step {p : Operation → Prop} (h : k.All p)
    (hm : ∀ limit o, m = .operate limit o → p o) : (k.step t m).All p := by
  cases m with
  | operate limit o =>
    have hnote : ∀ o' ∈ (k.held o.ping).note (t.buffer.windows.get? o.ping) o, p o' := by
      intro o' ho'
      rcases Sources.mem_note ho' with rfl | ho'
      · exact hm limit o' rfl
      · exact h.held o.ping o' ho'
    simp only [Book.step]
    split
    · exact ⟨h.update hnote o.ping, h.sent⟩
    · refine ⟨h.update (fun o' ho' => absurd ho' Sources.make_empty.not_mem) o.ping, fun s hs => ?_⟩
      rcases List.mem_append.1 hs with hs | hs
      · exact h.sent s hs
      · exact List.mem_singleton.1 hs ▸ hnote
  | putBack now ping i =>
    simp only [Book.step]
    split
    · rename_i d older _ holder
      refine ⟨h.update (fun o ho => ?_) ping, h.sent⟩
      rcases Sources.mem_putBack ho with ho | ho
      · exact h.held ping o ho
      · exact h.sent older (List.mem_of_getElem? holder) o ho
    · exact h

theorem all_made (l : List Move) :
    (Book.opened.keep .start l).All fun o => ∃ limit, .operate limit o ∈ l := by
  induction l using List.reverseRecOn with
  | nil =>
    refine ⟨fun _ o ho => absurd ho Sources.make_empty.not_mem, fun s hs => ?_⟩
    cases hs
  | append_singleton l m ih =>
    rw [Book.keep_concat]
    have hwider : (Book.opened.keep .start l).All fun o => ∃ limit, .operate limit o ∈ l ++ [m] := by
      refine ⟨fun ping o ho => ?_, fun s hs o ho => ?_⟩
      · exact (ih.held ping o ho).imp fun _ h => List.mem_append_left _ h
      · exact (ih.sent s hs o ho).imp fun _ h => List.mem_append_left _ h
    refine hwider.step fun limit o hm => ⟨limit, ?_⟩
    rw [hm]
    exact List.mem_concat_self

/-! ## Windows without a gap -/

/-- Each snapshot of the ping starts where the one before it ends, and the window is open from where the
last one ends. -/
structure Timeline.Contiguous (ping : String) (t : Timeline) : Prop where
  chain : (t.out.filter (·.ping = ping)).IsChain fun d d' => d'.snapshot.startTime = d.snapshot.endTime
  last : ∀ d ∈ (t.out.filter (·.ping = ping)).getLast?, ∃ w, t.buffer.windows.get? ping = some w ∧
    w.startTime = d.snapshot.endTime

theorem Timeline.Contiguous.step (h : t.Contiguous ping) (hm : ∀ now i, m ≠ .putBack now ping i) :
    (t.step m).Contiguous ping := by
  cases m with
  | operate limit o =>
    obtain ⟨hout, hwindow⟩ := operate_onWindow limit t.buffer o ping
    by_cases hp : o.ping = ping
    · subst hp
      rw [if_pos rfl] at hwindow
      have hpaced := paced limit o (t.buffer.windows.get? o.ping)
      have hping (d : Drained) (hd : (t.buffer.operate limit o).2 = some d) : d.ping = o.ping :=
        ping_of_onWindow (hout.symm.trans hd)
      simp only [Timeline.step]
      rw [← hout, ← hwindow] at hpaced
      generalize (t.buffer.operate limit o).1 = b at hpaced ⊢
      generalize (t.buffer.operate limit o).2 = d at hpaced hping ⊢
      have hstart (d' : Drained) (hd' : d' ∈ (t.out.filter (·.ping = o.ping)).getLast?) :
          startOf o.now (t.buffer.windows.get? o.ping) = d'.snapshot.endTime := by
        obtain ⟨w, hw, hend⟩ := h.last d' hd'
        rw [hw]
        exact hend
      generalize hw : b.windows.get? o.ping = w at hpaced
      cases hpaced with
      | unopened hnone =>
        simp only [Option.toList_none, List.append_nil]
        refine ⟨h.chain, fun d' hd' => ?_⟩
        obtain ⟨w, hw, -⟩ := h.last d' hd'
        rw [hnone] at hw
        cases hw
      | kept hkept =>
        simp only [Option.toList_none, List.append_nil]
        exact ⟨h.chain, fun d' hd' => ⟨_, hw, hkept.trans (hstart d' hd')⟩⟩
      | @drained d hs he =>
        have hfilter : (t.out ++ [d]).filter (·.ping = o.ping) =
            t.out.filter (·.ping = o.ping) ++ [d] := by
          simp [List.filter_append, hping d rfl]
        simp only [Option.toList_some]
        refine ⟨?_, fun d' hd' => ⟨_, hw, ?_⟩⟩
        · simp only [hfilter]
          refine h.chain.append (.singleton d) fun d' hd' d'' hd'' => ?_
          cases hd''
          rw [hs, hstart d' hd']
        · simp only [hfilter, List.getLast?_concat, Option.mem_some_iff] at hd'
          subst hd'
          exact he.symm
    · rw [if_neg (Ne.symm hp)] at hwindow
      have hnone : (t.buffer.operate limit o).2.toList.filter (·.ping = ping) = [] := by
        refine List.filter_eq_nil_iff.2 fun d hd hdp => hp ?_
        rw [Option.mem_toList, hout] at hd
        exact (ping_of_onWindow hd).symm.trans (of_decide_eq_true hdp)
      simp only [Timeline.step]
      refine ⟨?_, fun d hd => ?_⟩
      · simp only [List.filter_append, hnone, List.append_nil]
        exact h.chain
      · simp only [List.filter_append, hnone, List.append_nil] at hd
        rw [hwindow]
        exact h.last d hd
  | putBack now ping' i =>
    have hp : ping ≠ ping' := by
      rintro rfl
      exact hm now i rfl
    simp only [Timeline.step]
    split
    · refine ⟨h.chain, fun d hd => ?_⟩
      rw [get?_restored, if_neg hp]
      exact h.last d hd
    · exact h

theorem contiguous_run (h : ∀ now i, .putBack now ping i ∉ l) :
    (Timeline.start.run l).Contiguous ping := by
  induction l using List.reverseRecOn with
  | nil => exact ⟨.nil, fun d hd => by cases hd⟩
  | append_singleton l m ih =>
    rw [Timeline.run_concat]
    refine (ih fun now i hm => h now i (List.mem_append_left _ hm)).step ?_
    rintro now i rfl
    exact h now i List.mem_concat_self

theorem step_take_of_isEmpty (h : t.buffer.isEmpty ping = true) (limit : Nat) (now : Instant) :
    t.step (.operate limit ⟨ping, now, .take⟩) = t := by
  have htake : t.buffer.take now ping = (t.buffer, none) := by
    unfold take
    split
    · rename_i w hw
      rw [isEmpty, hw] at h
      exact if_pos h
    · rfl
  simp only [Timeline.step, operate, htake, Option.map_none, Option.toList_none, List.append_nil]

end

/-- **A snapshot's window covers what it carries.** Under a clock that is never turned back, whatever is
recorded, drained, taken and put back, every snapshot that has been taken out ends no earlier than it
starts, is made up of operations that were made, and each of them was made in its window. Of a ping for
which nothing is put back each snapshot starts where the one before it ends. To take what is empty changes
nothing. -/
theorem windows_cover_what_they_carry {l : List Move} (hclock : Forward l) :
    List.Forall₂ Drained.Covers (Timeline.start.run l).out (Book.opened.keep .start l).sent ∧
    (∀ s ∈ (Book.opened.keep .start l).sent, ∀ o ∈ s, ∃ limit, .operate limit o ∈ l) ∧
    (∀ ping, (∀ now i, .putBack now ping i ∉ l) →
      ((Timeline.start.run l).out.filter (·.ping = ping)).IsChain fun d d' =>
        d'.snapshot.startTime = d.snapshot.endTime) ∧
    ∀ ping, (Timeline.start.run l).buffer.isEmpty ping = true → ∀ limit now,
      (Timeline.start.run l).step (.operate limit ⟨ping, now, .take⟩) = Timeline.start.run l := by
  refine ⟨?_, (all_made l).sent, fun ping h => (contiguous_run h).chain,
    fun ping h => step_take_of_isEmpty h⟩
  cases hlast : l.getLast? with
  | none =>
    rw [List.getLast?_eq_none_iff.1 hlast]
    exact .nil
  | some m =>
    obtain ⟨before, rfl⟩ := List.getLast?_eq_some_iff.1 hlast
    have hnow : ∀ m' ∈ before ++ [m], m'.now ≤ m.now := by
      intro m' hm'
      rcases List.mem_append.1 hm' with hm' | hm'
      · exact (List.pairwise_append.1 hclock).2.2 m' hm' m List.mem_cons_self
      · exact List.mem_singleton.1 hm' ▸ Instant.le_refl _
    exact (booked_run hclock hnow).sent

/-- Two windows of a ping are taken out, go back in the wrong order, and are taken out as one. -/
def overlapping (t₀ t₁ t₂ : Instant) : List Move :=
  [.operate 9 ⟨"metrics", t₀, .add "c" 2⟩, .operate 1 ⟨"metrics", t₀, .record ⟨0, "a", "b", .empty⟩⟩,
    .operate 9 ⟨"metrics", t₁, .add "c" 3⟩, .operate 9 ⟨"metrics", t₁, .take⟩,
    .putBack t₂ "metrics" 0, .putBack t₂ "metrics" 1, .operate 9 ⟨"metrics", t₂, .take⟩]

theorem overlapping_covered :
    Forward (overlapping ⟨0, 0, by decide⟩ ⟨1, 0, by decide⟩ ⟨2, 0, by decide⟩) ∧
    ∃ d s, (Timeline.start.run
        (overlapping ⟨0, 0, by decide⟩ ⟨1, 0, by decide⟩ ⟨2, 0, by decide⟩)).out[2]? = some d ∧
      d.Covers s ∧ d.snapshot.startTime = ⟨0, 0, by decide⟩ ∧ d.snapshot.endTime = ⟨2, 0, by decide⟩ ∧
      d.snapshot.metrics.get? "c" = some (.counter 5) ∧
      s.metrics "c" = [⟨"metrics", ⟨1, 0, by decide⟩, .add "c" 3⟩, ⟨"metrics", ⟨0, 0, by decide⟩, .add "c" 2⟩] := by
  have hclock : Forward (overlapping ⟨0, 0, by decide⟩ ⟨1, 0, by decide⟩ ⟨2, 0, by decide⟩) := by
    simp only [overlapping, Forward, List.pairwise_cons, List.forall_mem_cons, List.Pairwise.nil,
      and_true, Move.now]
    decide
  obtain ⟨hcovers, -⟩ := windows_cover_what_they_carry hclock
  obtain ⟨s, hs, hcovered⟩ := exists_of_forall₂ hcovers (i := 2) rfl
  refine ⟨hclock, _, s, rfl, hcovered, rfl, rfl, rfl, ?_⟩
  cases hs
  rfl

end PingDelivery.Buffer
