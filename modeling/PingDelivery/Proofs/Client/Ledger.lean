import PingDelivery.Lifecycle
import Mathlib.Logic.Function.Basic
import Mathlib.Data.List.Flatten

/-! # A ledger of measurements

What happens to the events of a process is put down in entries, the latest first, and the balance is
kept in `Books`: what is buffered, which submissions are under way, and how many have been dropped.
`Enters` says what each entry does to the balance and `Posted` runs it along a ledger. That nothing
is lost is then a property of ledgers: it is shown here once, whatever keeps them.
-/

namespace PingDelivery
open Lifecycle (Submission)

inductive Entry where
  | recorded (ping : String) (e : Event)
  /-- A submission was taken out of the buffer; `alone` if no other one of its ping was under way. -/
  | drained (s : Submission) (alone : Bool)
  /-- The queue took the ping made of the submission. -/
  | sent (p : Ping) (s : Submission)
  | oversized (s : Submission)
  /-- No ping could be made of the submission. -/
  | rejected (s : Submission)
  | restored (s : Submission)

structure Books where
  buffered : String → List Event
  underway : List Submission
  dropped : Nat

/-- The payload is the document made of the submission's snapshot. -/
def Ping.Carries (p : Ping) (s : Submission) : Prop :=
  ∃ (r : Assembly.Request) (c : Configuration), r.documentType = s.documentType ∧
    p = Assembly.ping r c s.snapshot p.id p.createdAt

theorem Ping.Carries.documentType {p : Ping} {s : Submission} (h : p.Carries s) :
    p.documentType = s.documentType := by
  obtain ⟨r, c, hr, hp⟩ := h
  rw [hp]
  exact hr

namespace Books

def opened : Books := ⟨fun _ => [], [], 0⟩

/-- What an entry does to the books. -/
inductive Enters (b : Books) : Entry → Books → Prop where
  | recorded (ping : String) (e : Event) : Enters b (.recorded ping e)
      { b with buffered := Function.update b.buffered ping (b.buffered ping ++ [e]) }
  | drained {s : Submission} {l : List Submission} (all : s.snapshot.events = b.buffered s.documentType)
      (held : l.Perm (s :: b.underway)) :
      Enters b (.drained s (b.underway.all (·.documentType ≠ s.documentType)))
        { b with buffered := Function.update b.buffered s.documentType [], underway := l }
  | sent {p : Ping} {s : Submission} {l : List Submission} (held : b.underway.Perm (s :: l))
      (carries : p.Carries s) : Enters b (.sent p s) { b with underway := l }
  | oversized {s : Submission} {l : List Submission} (held : b.underway.Perm (s :: l)) :
      Enters b (.oversized s) { b with underway := l, dropped := b.dropped + 1 }
  | rejected {s : Submission} {l : List Submission} (held : b.underway.Perm (s :: l))
      (invalid : ¬ PingDelivery.Submission.IsDocumentType s.documentType) :
      Enters b (.rejected s) { b with underway := l }
  | restored {s : Submission} {l : List Submission} (held : b.underway.Perm (s :: l)) :
      Enters b (.restored s)
        { b with
          buffered := Function.update b.buffered s.documentType
            (s.snapshot.events ++ b.buffered s.documentType)
          underway := l }

/-- `Posted b es b'`: the entries lead from `b` to `b'`. -/
inductive Posted (b : Books) : List Entry → Books → Prop where
  | nil : Posted b [] b
  | cons {es : List Entry} {e : Entry} {b' b'' : Books} (h : Posted b es b') (he : b'.Enters e b'') :
      Posted b (e :: es) b''

theorem Posted.append {b b' b'' : Books} {es es' : List Entry} (h : Posted b es b')
    (h' : Posted b' es' b'') : Posted b (es' ++ es) b'' := by
  induction h' with
  | nil => exact h
  | cons _ he ih => exact .cons ih he

end Books

/-! ## Reading a ledger -/

namespace Ledger

/-- The events recorded for a ping, in the order of their recording. -/
def recorded (ping : String) (es : List Entry) : List Event :=
  (es.filterMap fun
    | .recorded ping' e => if ping' = ping then some e else none
    | _ => none).reverse

def sent (es : List Entry) : List (Ping × Submission) :=
  es.filterMap fun
    | .sent p s => some (p, s)
    | _ => none

def oversized (es : List Entry) : List Submission :=
  es.filterMap fun
    | .oversized s => some s
    | _ => none

/-- What was taken out for a ping and not put back, the latest first. -/
def outstanding (ping : String) : List Entry → List Submission
  | [] => []
  | .drained s _ :: es =>
    if s.documentType = ping then s :: outstanding ping es else outstanding ping es
  | .restored s :: es => (outstanding ping es).erase s
  | _ :: es => outstanding ping es

/-- The submissions of a ping. -/
def ofPing (ping : String) (l : List Submission) : List Submission :=
  l.filter (·.documentType = ping)

def events (l : List Submission) : List Event := l.flatMap (·.snapshot.events)

/-- No submission of the ping was taken out while another one was under way. -/
def OneByOne (ping : String) (es : List Entry) : Prop :=
  ∀ s, .drained s false ∈ es → s.documentType ≠ ping

theorem recorded_cons (ping ping' : String) (e : Event) (es : List Entry) :
    recorded ping (.recorded ping' e :: es) =
      recorded ping es ++ if ping' = ping then [e] else [] := by
  rw [recorded, List.filterMap_cons]
  by_cases h : ping' = ping
  · simp only [if_pos h, List.reverse_cons, recorded]
  · simp only [if_neg h, List.append_nil, recorded]

theorem ofPing_perm (ping : String) {l l' : List Submission} (h : l.Perm l') :
    (ofPing ping l).Perm (ofPing ping l') := h.filter _

/-- How often the event is in the submissions of the ping. -/
def tally (a : Event) (ping : String) (l : List Submission) : Nat :=
  (events (ofPing ping l)).count a

theorem tally_cons (a : Event) (ping : String) (s : Submission) (l : List Submission) :
    tally a ping (s :: l) =
      (if s.documentType = ping then s.snapshot.events.count a else 0) + tally a ping l := by
  unfold tally ofPing
  rw [List.filter_cons]
  by_cases h : s.documentType = ping
  · rw [if_pos (decide_eq_true h), if_pos h, events, List.flatMap_cons, List.count_append]
    rfl
  · rw [if_neg (by simpa using h), if_neg h, Nat.zero_add]

/-- A submission and the others, wherever it stands among them. -/
theorem tally_perm (a : Event) (ping : String) {s : Submission} {l l' : List Submission}
    (h : l.Perm (s :: l')) : tally a ping l =
      (if s.documentType = ping then s.snapshot.events.count a else 0) + tally a ping l' := by
  rw [← tally_cons]
  exact ((ofPing_perm ping h).flatMap_right _).count_eq a

/-- Recorded on one side; buffered, under way, sent and dropped on the other. -/
def Balanced (a : Event) (ping : String) (es : List Entry) (b : Books) : Prop :=
  (recorded ping es).count a = (b.buffered ping).count a + tally a ping b.underway +
    tally a ping ((sent es).map (·.2)) + tally a ping (oversized es)

namespace Balanced
variable {b : Books} {es : List Entry} {ping : String} {a : Event}

/-- An event is recorded on both sides. -/
theorem recorded (h : Balanced a ping es b) (ping' : String) (e : Event) :
    Balanced a ping (.recorded ping' e :: es)
      { b with buffered := Function.update b.buffered ping' (b.buffered ping' ++ [e]) } := by
  unfold Balanced at h ⊢
  change _ = _ + tally a ping b.underway + tally a ping ((sent es).map (·.2)) +
    tally a ping (oversized es)
  rw [recorded_cons, List.count_append, h]
  dsimp only
  by_cases hp : ping' = ping
  · subst hp
    rw [if_pos rfl, Function.update_self, List.count_append]
    omega
  · rw [if_neg hp, Function.update_of_ne (Ne.symm hp), List.count_nil, Nat.add_zero]

/-- Events move between the buffer and the submissions under way. -/
theorem moved {e : Entry} {ping' : String} {l : List Submission} {events : List Event}
    (h : Balanced a ping es b) (hrecorded : Ledger.recorded ping (e :: es) = Ledger.recorded ping es)
    (hsent : sent (e :: es) = sent es) (hoversized : oversized (e :: es) = oversized es)
    (hsame : ping' = ping → (b.buffered ping).count a + tally a ping b.underway =
      events.count a + tally a ping l)
    (hother : ping' ≠ ping → tally a ping b.underway = tally a ping l) :
    Balanced a ping (e :: es)
      { b with buffered := Function.update b.buffered ping' events, underway := l } := by
  unfold Balanced at h ⊢
  rw [hrecorded, hsent, hoversized, h]
  dsimp only
  by_cases hp : ping' = ping
  · have hmoved := hsame hp
    subst hp
    rw [Function.update_self]
    omega
  · rw [Function.update_of_ne (Ne.symm hp), hother hp]

theorem enters {b' : Books} {e : Entry}
    (hping : PingDelivery.Submission.IsDocumentType ping) (h : Balanced a ping es b)
    (he : b.Enters e b') : Balanced a ping (e :: es) b' := by
  cases he with
  | recorded ping' e => exact h.recorded ping' e
  | @drained s l hall hheld =>
    have hunder := tally_perm a ping hheld
    refine h.moved rfl rfl rfl ?_ ?_
    · intro hs
      subst hs
      rw [hunder, if_pos rfl, hall, List.count_nil]
      omega
    · intro hs
      rw [hunder, if_neg hs, Nat.zero_add]
  | @restored s l hheld =>
    have hunder := tally_perm a ping hheld
    refine h.moved rfl rfl rfl ?_ ?_
    · intro hs
      subst hs
      rw [hunder, if_pos rfl, List.count_append]
      omega
    · intro hs
      rw [hunder, if_neg hs, Nat.zero_add]
  | @sent p s l hheld hcarries =>
    have hunder := tally_perm a ping hheld
    unfold Balanced at h ⊢
    change (Ledger.recorded ping es).count a = (b.buffered ping).count a + tally a ping l +
      tally a ping (s :: (Ledger.sent es).map (·.2)) + tally a ping (oversized es)
    rw [h, hunder, tally_cons]
    omega
  | @oversized s l hheld =>
    have hunder := tally_perm a ping hheld
    unfold Balanced at h ⊢
    change (Ledger.recorded ping es).count a = (b.buffered ping).count a + tally a ping l +
      tally a ping ((sent es).map (·.2)) + tally a ping (s :: Ledger.oversized es)
    rw [h, hunder, tally_cons]
    omega
  | @rejected s l hheld hinvalid =>
    have hunder := tally_perm a ping hheld
    have hne : s.documentType ≠ ping := by
      intro hs
      exact hinvalid (hs ▸ hping)
    unfold Balanced at h ⊢
    change (Ledger.recorded ping es).count a = (b.buffered ping).count a + tally a ping l +
      tally a ping ((sent es).map (·.2)) + tally a ping (Ledger.oversized es)
    rw [h, hunder, if_neg hne, Nat.zero_add]

end Balanced

/-- **Nothing is lost and nothing is there twice**: what was recorded for a ping is what is buffered,
under way, sent, or dropped for its size. -/
theorem recorded_perm {b : Books} {es : List Entry} {ping : String} (h : Books.opened.Posted es b)
    (hping : PingDelivery.Submission.IsDocumentType ping) :
    (recorded ping es).Perm (b.buffered ping ++ events (ofPing ping b.underway) ++
      events (ofPing ping ((sent es).map (·.2))) ++ events (ofPing ping (oversized es))) := by
  refine List.perm_iff_count.2 ?_
  intro a
  rw [List.count_append, List.count_append, List.count_append]
  change Balanced a ping es b
  induction h with
  | nil => rfl
  | cons _ he ih => exact ih.enters hping he

theorem dropped_eq {b : Books} {es : List Entry} (h : Books.opened.Posted es b) :
    b.dropped = (oversized es).length := by
  induction h with
  | nil => rfl
  | cons _ he ih =>
    cases he with
    | oversized _ => exact congrArg (· + 1) ih
    | _ => exact ih

theorem carries_of_sent {b : Books} {es : List Entry} (h : Books.opened.Posted es b) {p : Ping}
    {s : Submission} (hs : (p, s) ∈ sent es) : p.Carries s := by
  induction h with
  | nil => cases hs
  | cons _ he ih =>
    cases he with
    | sent _ hcarries =>
      rcases List.mem_cons.1 hs with heq | hs
      · cases heq
        exact hcarries
      · exact ih hs
    | _ => exact ih hs

/-! ## In order -/

/-- What is outstanding and then what is buffered is what was recorded; of the ping no submission is
under way, or only the latest outstanding one. -/
structure InOrder (ping : String) (es : List Entry) (b : Books) : Prop where
  order : events (outstanding ping es).reverse ++ b.buffered ping = recorded ping es
  last : ofPing ping b.underway = [] ∨
    ∃ s l, ofPing ping b.underway = [s] ∧ outstanding ping es = s :: l

theorem ofPing_cons_pos {ping : String} {s : Submission} (h : s.documentType = ping)
    (l : List Submission) : ofPing ping (s :: l) = s :: ofPing ping l :=
  List.filter_cons_of_pos (decide_eq_true h)

theorem ofPing_cons_neg {ping : String} {s : Submission} (h : s.documentType ≠ ping)
    (l : List Submission) : ofPing ping (s :: l) = ofPing ping l :=
  List.filter_cons_of_neg (by simpa using h)

theorem ping_of_outstanding {ping : String} {es : List Entry} {s : Submission}
    (h : s ∈ outstanding ping es) : s.documentType = ping := by
  induction es with
  | nil => cases h
  | cons e es ih =>
    cases e with
    | drained s' alone =>
      rw [outstanding] at h
      split at h
      · rename_i hs'
        rcases List.mem_cons.1 h with rfl | h
        · exact hs'
        · exact ih h
      · exact ih h
    | restored s' => exact ih (List.mem_of_mem_erase h)
    | _ => exact ih h

theorem events_reverse_cons (s : Submission) (l : List Submission) :
    events (s :: l).reverse = events l.reverse ++ s.snapshot.events := by
  rw [events, List.reverse_cons, List.flatMap_append, List.flatMap_singleton]
  rfl

namespace InOrder
variable {ping : String} {es : List Entry} {b b' : Books}

/-- A submission of the ping that ends is the only one, and the latest outstanding one. -/
theorem ends {s : Submission} {l : List Submission} (h : InOrder ping es b)
    (hheld : b.underway.Perm (s :: l)) (hs : s.documentType = ping) :
    ofPing ping l = [] ∧ ∃ rest, outstanding ping es = s :: rest := by
  have hperm := ofPing_perm ping hheld
  rw [ofPing_cons_pos hs] at hperm
  rcases h.last with hnone | ⟨s', rest, hone, hout⟩
  · rw [hnone] at hperm
    exact absurd hperm.nil_eq.symm (List.cons_ne_nil _ _)
  · rw [hone] at hperm
    obtain ⟨rfl, hl⟩ := List.cons.inj hperm.singleton_eq
    exact ⟨hl.symm, rest, hout⟩

/-- A submission of another ping that ends does not matter. -/
theorem last_of_ne {s : Submission} {l : List Submission} (h : InOrder ping es b)
    (hheld : b.underway.Perm (s :: l)) (hs : s.documentType ≠ ping) :
    ofPing ping l = [] ∨ ∃ s l', ofPing ping l = [s] ∧ outstanding ping es = s :: l' := by
  have hperm := ofPing_perm ping hheld
  rw [ofPing_cons_neg hs] at hperm
  rcases h.last with hnone | ⟨s', rest, hone, hout⟩
  · rw [hnone] at hperm
    exact .inl hperm.nil_eq.symm
  · rw [hone] at hperm
    exact .inr ⟨s', rest, hperm.singleton_eq.symm, hout⟩

/-- A submission that ends and is not put back leaves everything in order. -/
theorem leaves {e : Entry} {s : Submission} {l : List Submission} (h : InOrder ping es b)
    (hheld : b.underway.Perm (s :: l)) (hout : outstanding ping (e :: es) = outstanding ping es)
    (hrecorded : recorded ping (e :: es) = recorded ping es) (hbuffered : b'.buffered = b.buffered)
    (hunder : b'.underway = l) : InOrder ping (e :: es) b' := by
  refine ⟨?_, ?_⟩
  · rw [hout, hrecorded, hbuffered]
    exact h.order
  · rw [hout, hunder]
    by_cases hs : s.documentType = ping
    · exact .inl (h.ends hheld hs).1
    · exact h.last_of_ne hheld hs

/-- A submission that is taken out alone is the latest outstanding one. -/
theorem drained {s : Submission} {l : List Submission} {alone : Bool} (h : InOrder ping es b)
    (hall : s.snapshot.events = b.buffered s.documentType) (hheld : l.Perm (s :: b.underway))
    (hs : s.documentType = ping) (hnone : ofPing ping b.underway = []) :
    InOrder ping (.drained s alone :: es)
      { b with buffered := Function.update b.buffered s.documentType [], underway := l } := by
  have hout : outstanding ping (.drained s alone :: es) = s :: outstanding ping es := if_pos hs
  have hperm := ofPing_perm ping hheld
  rw [ofPing_cons_pos hs, hnone] at hperm
  refine ⟨?_, .inr ⟨s, _, hperm.eq_singleton, hout⟩⟩
  rw [hout, events_reverse_cons]
  dsimp only
  subst hs
  rw [Function.update_self, List.append_nil, hall]
  exact h.order

/-- One of another ping does not matter. -/
theorem drained_of_ne {s : Submission} {l : List Submission} {alone : Bool}
    (h : InOrder ping es b) (hheld : l.Perm (s :: b.underway)) (hs : s.documentType ≠ ping) :
    InOrder ping (.drained s alone :: es)
      { b with buffered := Function.update b.buffered s.documentType [], underway := l } := by
  have hout : outstanding ping (.drained s alone :: es) = outstanding ping es := if_neg hs
  have hperm := ofPing_perm ping hheld
  rw [ofPing_cons_neg hs] at hperm
  refine ⟨?_, ?_⟩
  · rw [hout]
    dsimp only
    rw [Function.update_of_ne (Ne.symm hs)]
    exact h.order
  · rw [hout]
    rcases h.last with hnone | ⟨s', rest, hone, hrest⟩
    · rw [hnone] at hperm
      exact .inl hperm.eq_nil
    · rw [hone] at hperm
      exact .inr ⟨s', rest, hperm.eq_singleton, hrest⟩

/-- What is put back was the latest to be taken out, so it goes where it came from. -/
theorem restored {s : Submission} {l : List Submission} (h : InOrder ping es b)
    (hheld : b.underway.Perm (s :: l)) :
    InOrder ping (.restored s :: es)
      { b with
        buffered := Function.update b.buffered s.documentType
          (s.snapshot.events ++ b.buffered s.documentType)
        underway := l } := by
  by_cases hs : s.documentType = ping
  · obtain ⟨hnone, rest, hrest⟩ := h.ends hheld hs
    refine ⟨?_, .inl hnone⟩
    have horder := h.order
    rw [hrest, events_reverse_cons, List.append_assoc] at horder
    rw [outstanding, hrest, List.erase_cons_head]
    dsimp only
    subst hs
    rw [Function.update_self]
    exact horder
  · have hout : outstanding ping (.restored s :: es) = outstanding ping es := by
      refine List.erase_of_not_mem ?_
      intro hmem
      exact hs (ping_of_outstanding hmem)
    refine ⟨?_, ?_⟩
    · rw [hout]
      dsimp only
      rw [Function.update_of_ne (Ne.symm hs)]
      exact h.order
    · rw [hout]
      exact h.last_of_ne hheld hs

theorem none_of_all {l : List Submission} {s : Submission} (hs : s.documentType = ping)
    (h : l.all (·.documentType ≠ s.documentType) = true) : ofPing ping l = [] := by
  refine List.filter_eq_nil_iff.2 ?_
  intro x hx hxp
  have hne := of_decide_eq_true (List.all_eq_true.1 h x hx)
  exact hne ((of_decide_eq_true hxp).trans hs.symm)

theorem enters {e : Entry} (h : InOrder ping es b) (he : b.Enters e b')
    (halone : ∀ s, e = .drained s false → s.documentType ≠ ping) : InOrder ping (e :: es) b' := by
  cases he with
  | recorded ping' e =>
    refine ⟨?_, h.last⟩
    change events (outstanding ping es).reverse ++ _ = _
    rw [recorded_cons]
    dsimp only
    by_cases hp : ping' = ping
    · subst hp
      rw [if_pos rfl, Function.update_self, ← List.append_assoc, h.order]
    · rw [if_neg hp, Function.update_of_ne (Ne.symm hp), List.append_nil, h.order]
  | @drained s l hall hheld =>
    by_cases hs : s.documentType = ping
    · cases hother : b.underway.all (·.documentType ≠ s.documentType) with
      | false =>
        rw [hother] at halone
        exact absurd hs (halone s rfl)
      | true => exact h.drained hall hheld hs (none_of_all hs hother)
    · exact h.drained_of_ne hheld hs
  | sent hheld _ => exact h.leaves hheld rfl rfl rfl rfl
  | oversized hheld => exact h.leaves hheld rfl rfl rfl rfl
  | rejected hheld _ => exact h.leaves hheld rfl rfl rfl rfl
  | restored hheld => exact h.restored hheld

end InOrder

/-- **One by one, order holds too.** -/
theorem outstanding_append {b : Books} {es : List Entry} {ping : String}
    (h : Books.opened.Posted es b) (hone : OneByOne ping es) :
    events (outstanding ping es).reverse ++ b.buffered ping = recorded ping es := by
  have horder : InOrder ping es b := by
    induction h with
    | nil => exact ⟨rfl, .inl rfl⟩
    | cons _ he ih =>
      have ih := ih fun s hs => hone s (List.mem_cons_of_mem _ hs)
      exact ih.enters he fun s hs => hone s (hs ▸ List.mem_cons_self)
  exact horder.order

end Ledger
end PingDelivery
