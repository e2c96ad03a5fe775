import PingDelivery.Proofs.Queue.Answers
import PingDelivery.Upload.Scheduler

/-! # Callers before a queue

Many callers ask one queue. Each looks first whether the queue is well, then waits for its turn, and
then has the queue to itself until it has returned, also while the store is at work for it. A move is
what one of them does between two points at which others may come in between. What somebody has found
before it stood in line may not hold any more when its turn comes, and it does not look again.
-/

namespace PingDelivery.Queue
open Store Upload

/-- Where a caller stands. -/
inductive Stage where
  | arriving (r : Request)
  /-- It has found the queue well. -/
  | passed (r : Request)
  | waiting (r : Request)
  | admitted (r : Request)
  /-- The store is at work for it. -/
  | calling (r : Request)
  | returned (b : Response)

/-- It has the queue to itself. -/
def Stage.inside : Stage → Bool
  | .admitted _ | .calling _ => true
  | .arriving _ | .passed _ | .waiting _ | .returned _ => false

/-- It has found the queue well, and has not been served. -/
def Stage.past : Stage → Bool
  | .passed _ | .waiting _ | .admitted _ => true
  | .arriving _ | .calling _ | .returned _ => false

structure Lobby where
  queue : Queue
  turn : Turn
  callers : List Stage

namespace Lobby

def opened (q : Queue) : Lobby := ⟨q, .free, []⟩

inductive Event where
  /-- A caller's call reaches the store. -/
  | called (i : Nat) (c : Call)
  | returned (i : Nat) (b : Response)

inductive Move where
  | come (r : Request)
  | check (i : Nat)
  | ask (i : Nat)
  | enter (i : Nat)
  /-- The store answers. -/
  | finish (i : Nat)

def put (l : Lobby) (i : Nat) (x : Stage) : Lobby := { l with callers := l.callers.set i x }

/-- Hands the queue to the first in line. -/
def passOn (l : Lobby) : Lobby :=
  match l.turn.leave with
  | (none, turn) => { l with turn }
  | (some j, turn) =>
    match l.callers[j]? with
    | some (.waiting r) => { l with turn }.put j (.admitted r)
    | _ => { l with turn }

def check (l : Lobby) (i : Nat) (r : Request) : List Event × Lobby :=
  match l.queue.health with
  | .error e => ([.returned i (.error e)], l.put i (.returned (.error e)))
  | .ok () => ([], l.put i (.passed r))

def ask (l : Lobby) (i : Nat) (r : Request) : Lobby :=
  let (taken, turn) := l.turn.ask i
  { l with turn }.put i (if taken then .admitted r else .waiting r)

/-- What is left of a request for one that has the queue to itself. -/
def finish (l : Lobby) (i : Nat) (r : Request) : Program (List Event × Lobby) :=
  (l.queue.settle (l.queue.decide r)).bind fun (b, q) =>
    .done ([.returned i b], ({ l with queue := q }.put i (.returned b)).passOn)

def perform (l : Lobby) : Move → Program (List Event × Lobby)
  | .come r => .done ([], { l with callers := l.callers ++ [.arriving r] })
  | .check i =>
    match l.callers[i]? with
    | some (.arriving r) => .done (l.check i r)
    | _ => .done ([], l)
  | .ask i =>
    match l.callers[i]? with
    | some (.passed r) => .done ([], l.ask i r)
    | _ => .done ([], l)
  | .enter i =>
    match l.callers[i]? with
    | some (.admitted r) =>
      match (l.queue.decide r).call? with
      | some c => .done ([.called i c], l.put i (.calling r))
      | none => l.finish i r
    | _ => .done ([], l)
  | .finish i =>
    match l.callers[i]? with
    | some (.calling r) => l.finish i r
    | _ => .done ([], l)

/-- `Course l₀ m₀ es l m`: moves of the callers over a store with the content `m₀` have led to `l` and
`m`, and `es` could be seen of them, the first first. -/
inductive Course (l₀ : Lobby) (m₀ : Content) : List Event → Lobby → Content → Prop where
  | start : Course l₀ m₀ [] l₀ m₀
  | move {es es' : List Event} {l l' : Lobby} {m m' : Content} {mv : Move} {tr : List Observed}
      (h : Course l₀ m₀ es l m) (hf : Follows (l.perform mv) m tr (some (es', l')) m') :
      Course l₀ m₀ (es ++ es') l' m'

end Lobby

/-! ## What becomes of a decision -/

/-- The queue has been found suspended, or the store has failed. -/
def Shut (b : Response) : Prop := b = .error .suspended ∨ ∃ e, b = .error (.storage e)

/-- What carrying a decision out comes to. -/
inductive Settled (q : Queue) (m : Content) : Decision → Response → Queue → Content → Prop where
  | refused (e : QueueError) : Settled q m (.refuse e) (.error e) q m
  | answered (reply : Reply) : Settled q m (.answer reply) (.ok reply) q m
  | failed {c : Call} {q' : Queue} {reply : Reply} {notice : Option Notice} (e : Error) :
      Settled q m (.write c q' reply notice) (.error (.storage e)) { q with faulted := true } m
  | written {c : Call} {q' : Queue} {reply : Reply} {notice : Option Notice} :
      Settled q m (.write c q' reply notice) (.ok reply) q' (c.effect m)

section
variable {q q' : Queue} {m m' : Content} {tr : List Observed} {r : Request} {b : Response}
  {d : Decision}

theorem settled_of_follows (h : Follows (q.settle d) m tr (some (b, q')) m') :
    Settled q m d b q' m' := by
  cases d with
  | refuse e =>
    obtain ⟨hout, rfl⟩ := h.eq_of_done
    cases hout
    exact .refused e
  | answer reply =>
    obtain ⟨hout, rfl⟩ := h.eq_of_done
    cases hout
    exact .answered reply
  | write c q' reply notice =>
    rcases h.of_call with ⟨-, -, hout⟩ | ⟨e, tr', -, hrest⟩ | ⟨a, tr', -, -, hrest⟩
    · cases hout
    · obtain ⟨tr'', hdone, -⟩ := follows_told hrest
      obtain ⟨hout, rfl⟩ := hdone.eq_of_done
      cases hout
      exact .failed e
    · obtain ⟨tr'', hdone, -⟩ := follows_told hrest
      obtain ⟨hout, rfl⟩ := hdone.eq_of_done
      cases hout
      exact .written

/-- A request is refused for its ping's sake only. -/
theorem not_shut_of_decide {e : QueueError} (h : q.decide r = .refuse e) : ¬ Shut (.error e) := by
  have hremoval {id : Uuid} (h : q.decideRemoval id = .refuse e) : ¬ Shut (.error e) := by
    unfold decideRemoval at h
    split at h
    · cases h
    · cases h
      simp [Shut]
  cases r with
  | peek limit => cases h
  | enqueue p =>
    simp only [Queue.decide] at h
    split at h
    · cases h
      simp [Shut]
    · cases h
  | ackSuccess id => exact hremoval h
  | ackUnrecoverable id => exact hremoval h
  | ackRecoverable id =>
    simp only [Queue.decide] at h
    split at h
    · cases h
      simp [Shut]
    · split at h <;> cases h

theorem Change.faulted {c : Call} {reply : Reply} (h : Change q r c q' reply) :
    q'.faulted = q.faulted := by
  cases h <;> rfl

/-- A suspended queue stays suspended. -/
theorem Settled.faulted (h : Settled q m (q.decide r) b q' m') (hq : q.faulted = true) :
    q'.faulted = true := by
  generalize hd : q.decide r = d at h
  cases h with
  | refused e | answered reply => exact hq
  | failed e => rfl
  | written => exact (change_of_decide hd).1.faulted.trans hq

/-- A call that fails suspends the queue. -/
theorem Settled.suspends {e : Error} (h : Settled q m (q.decide r) (.error (.storage e)) q' m') :
    q'.faulted = true := by
  generalize hd : q.decide r = d at h
  cases h with
  | refused => exact absurd (.inr ⟨e, rfl⟩) (not_shut_of_decide hd)
  | failed => rfl

/-- Without a call a request is answered for its own sake, and nothing changes. -/
theorem Settled.of_no_call (h : Settled q m (q.decide r) b q' m') (hc : (q.decide r).call? = none) :
    ¬ Shut b ∧ q' = q ∧ m' = m := by
  generalize hd : q.decide r = d at h hc
  cases h with
  | refused e => exact ⟨not_shut_of_decide hd, rfl, rfl⟩
  | answered reply => exact ⟨by simp [Shut], rfl, rfl⟩
  | failed e | written => cases hc

end

namespace Lobby

/-! ## What a move can come to -/

/-- The queue is handed on, if anyone stands in line. -/
inductive Handed (l : Lobby) : Lobby → Prop where
  | nobody (turn : Turn) : Handed l { l with turn }
  | given {j : Nat} {r : Request} {turn : Turn} (hj : l.callers[j]? = some (.waiting r))
      (hheld : turn.held = true) : Handed l ({ l with turn }.put j (.admitted r))

theorem handed_passOn (l : Lobby) : Handed l l.passOn := by
  unfold passOn
  split
  · exact .nobody _
  · rename_i j turn hleave
    split
    · rename_i r hj
      refine .given hj ?_
      unfold Turn.leave at hleave
      split at hleave <;> cases hleave
      rfl
    · exact .nobody _

/-- What a move can come to. -/
inductive Moved (l : Lobby) (m : Content) : List Event → Lobby → Content → Prop where
  | kept : Moved l m [] l m
  | came (r : Request) : Moved l m [] { l with callers := l.callers ++ [.arriving r] } m
  | refused {i : Nat} {r : Request} (hi : l.callers[i]? = some (.arriving r))
      (hq : l.queue.faulted = true) :
      Moved l m [.returned i (.error .suspended)] (l.put i (.returned (.error .suspended))) m
  | passed {i : Nat} {r : Request} (hi : l.callers[i]? = some (.arriving r))
      (hq : l.queue.faulted = false) : Moved l m [] (l.put i (.passed r)) m
  | taken {i : Nat} {r : Request} {turn : Turn} (hi : l.callers[i]? = some (.passed r))
      (hfree : l.turn.held = false) (hheld : turn.held = true) :
      Moved l m [] ({ l with turn }.put i (.admitted r)) m
  | lined {i : Nat} {r : Request} {turn : Turn} (hi : l.callers[i]? = some (.passed r))
      (hheld : turn.held = true) : Moved l m [] ({ l with turn }.put i (.waiting r)) m
  | called {i : Nat} {r : Request} {c : Call} (hi : l.callers[i]? = some (.admitted r)) :
      Moved l m [.called i c] (l.put i (.calling r)) m
  | answered {i : Nat} {r : Request} {b : Response} {l' : Lobby}
      (hi : l.callers[i]? = some (.admitted r)) (hb : ¬ Shut b)
      (h : Handed (l.put i (.returned b)) l') : Moved l m [.returned i b] l' m
  | served {i : Nat} {r : Request} {b : Response} {q : Queue} {l' : Lobby} {m' : Content}
      (hi : l.callers[i]? = some (.calling r)) (hs : Settled l.queue m (l.queue.decide r) b q m')
      (h : Handed ({ l with queue := q }.put i (.returned b)) l') : Moved l m [.returned i b] l' m'

section
variable {l l' : Lobby} {m m' : Content} {mv : Move} {es : List Event} {tr : List Observed}
  {i : Nat} {r : Request}

theorem finish_of_follows (h : Follows (l.finish i r) m tr (some (es, l')) m') : ∃ b q,
    Settled l.queue m (l.queue.decide r) b q m' ∧ es = [.returned i b] ∧
      Handed ({ l with queue := q }.put i (.returned b)) l' := by
  obtain ⟨out, hsettle, hout⟩ := h.of_bind_done
  obtain ⟨⟨b, q⟩, rfl, hx⟩ := Option.map_eq_some_iff.1 hout.symm
  cases hx
  exact ⟨b, q, settled_of_follows hsettle, rfl, handed_passOn _⟩

theorem moved_of_check (hi : l.callers[i]? = some (.arriving r)) :
    Moved l m (l.check i r).1 (l.check i r).2 m := by
  unfold check health
  cases hq : l.queue.faulted with
  | true => exact .refused hi hq
  | false => exact .passed hi hq

theorem moved_of_ask (hi : l.callers[i]? = some (.passed r)) : Moved l m [] (l.ask i r) m := by
  unfold ask Turn.ask
  cases hheld : l.turn.held with
  | true => exact .lined hi rfl
  | false => exact .taken hi hheld rfl

/-- **A move comes to one of these.** -/
theorem moved_of_follows (h : Follows (l.perform mv) m tr (some (es, l')) m') :
    Moved l m es l' m' := by
  have of_done {x : List Event × Lobby} (h : Follows (.done x) m tr (some (es, l')) m')
      (hx : Moved l m x.1 x.2 m) : Moved l m es l' m' := by
    obtain ⟨rfl, rfl⟩ := h.eq_of_done
    exact hx
  cases mv with
  | come r => exact of_done h (.came r)
  | check i =>
    simp only [perform] at h
    split at h
    · rename_i hi
      exact of_done h (moved_of_check hi)
    · exact of_done h .kept
  | ask i =>
    simp only [perform] at h
    split at h
    · rename_i hi
      exact of_done h (moved_of_ask hi)
    · exact of_done h .kept
  | enter i =>
    simp only [perform] at h
    split at h
    · rename_i hi
      split at h
      · exact of_done h (.called hi)
      · rename_i hc
        obtain ⟨b, q, hs, rfl, hhanded⟩ := finish_of_follows h
        obtain ⟨hb, rfl, rfl⟩ := hs.of_no_call hc
        exact .answered hi hb hhanded
    · exact of_done h .kept
  | finish i =>
    simp only [perform] at h
    split at h
    · rename_i hi
      obtain ⟨b, q, hs, rfl, hhanded⟩ := finish_of_follows h
      exact .served hi hs hhanded
    · exact of_done h .kept

/-! ## One at a time -/

theorem put_self {x y : Stage} (hi : l.callers[i]? = some x) : (l.put i y).callers[i]? = some y :=
  List.getElem?_set_self (List.getElem?_eq_some_iff.1 hi).1

theorem put_other {j : Nat} {y : Stage} (hij : j ≠ i) :
    (l.put i y).callers[j]? = l.callers[j]? :=
  List.getElem?_set_ne hij.symm

theorem getElem?_came (l : List Stage) (x : Stage) (j : Nat) :
    (l ++ [x])[j]? = l[j]? ∨ (l[j]? = none ∧ (l ++ [x])[j]? = some x) := by
  rcases Nat.lt_trichotomy j l.length with hlt | rfl | hgt
  · exact .inl (List.getElem?_append_left hlt)
  · exact .inr ⟨List.getElem?_eq_none (Nat.le_refl _), List.getElem?_concat_length⟩
  · rw [List.getElem?_eq_none (Nat.le_of_lt hgt), List.getElem?_eq_none]
    · exact .inl rfl
    · rw [List.length_append]
      exact hgt

/-- The caller has the queue to itself. -/
def Inside (l : Lobby) (i : Nat) : Prop := ∃ x, l.callers[i]? = some x ∧ x.inside = true

/-- One caller at most is inside, and none while the queue is free. -/
structure Exclusive (l : Lobby) : Prop where
  free : l.turn.held = false → ∀ i, ¬ l.Inside i
  only : ∀ i j, l.Inside i → l.Inside j → i = j

theorem exclusive_opened (q : Queue) : (opened q).Exclusive where
  free _ _ := by rintro ⟨x, hi, -⟩; cases hi
  only _ _ := by rintro ⟨x, hi, -⟩; cases hi

theorem Inside.of_put {j : Nat} {x y : Stage} (hi : l.callers[i]? = some x)
    (h : (l.put i y).Inside j) : (j = i ∧ y.inside = true) ∨ (j ≠ i ∧ l.Inside j) := by
  obtain ⟨z, hj, hz⟩ := h
  rcases eq_or_ne j i with rfl | hij
  · cases (put_self hi).symm.trans hj
    exact .inl ⟨rfl, hz⟩
  · exact .inr ⟨hij, z, (put_other hij).symm.trans hj, hz⟩

/-- Nobody has gone in. -/
theorem Exclusive.of_inside (h : l.Exclusive) (hback : ∀ j, l'.Inside j → l.Inside j)
    (hheld : l'.turn.held = false → l.turn.held = false) : l'.Exclusive where
  free hfree i hi := h.free (hheld hfree) i (hback i hi)
  only i j hi hj := h.only i j (hback i hi) (hback j hj)

/-- Somebody has gone in while nobody was there. -/
theorem exclusive_of_one (hheld : l.turn.held = true) (hone : ∀ j, l.Inside j → j = i) :
    l.Exclusive where
  free hfree := by
    rw [hheld] at hfree
    cases hfree
  only j k hj hk := (hone j hj).trans (hone k hk).symm

theorem Exclusive.left {q : Queue} {x : Stage} {b : Response} (h : l.Exclusive)
    (hi : l.callers[i]? = some x) (hx : x.inside = true) (j : Nat) :
    ¬ ({ l with queue := q }.put i (.returned b)).Inside j := by
  intro hj
  rcases Inside.of_put (l := { l with queue := q }) hi hj with ⟨-, hb⟩ | ⟨hij, hinside⟩
  · cases hb
  · exact hij (h.only j i hinside ⟨x, hi, hx⟩)

theorem Handed.exclusive (h : Handed l l') (hnone : ∀ j, ¬ l.Inside j) : l'.Exclusive := by
  cases h with
  | nobody turn => exact ⟨fun _ => hnone, fun i _ hi => absurd hi (hnone i)⟩
  | @given j r turn hj hheld =>
    refine exclusive_of_one (i := j) hheld fun k hk => ?_
    rcases Inside.of_put (l := { l with turn }) hj hk with ⟨hkj, -⟩ | ⟨-, hinside⟩
    · exact hkj
    · exact absurd hinside (hnone k)

theorem Exclusive.moved (h : l.Exclusive) (hm : Moved l m es l' m') : l'.Exclusive := by
  -- only `taken` and `passOn` let anyone in, and both find nobody inside
  have haside {i j : Nat} {x y : Stage} {turn : Turn} (hi : l.callers[i]? = some x)
      (hy : y.inside = true → x.inside = true) (hj : ({ l with turn }.put i y).Inside j) :
      l.Inside j := by
    rcases Inside.of_put (l := { l with turn }) hi hj with ⟨rfl, hinside⟩ | ⟨-, hinside⟩
    · exact ⟨x, hi, hy hinside⟩
    · exact hinside
  cases hm with
  | kept => exact h
  | came r =>
    refine h.of_inside ?_ id
    rintro j ⟨x, hj, hx⟩
    rcases getElem?_came l.callers (.arriving r) j with hsame | ⟨-, hcame⟩
    · exact ⟨x, hsame.symm.trans hj, hx⟩
    · cases hcame.symm.trans hj
      cases hx
  | refused hi _ | passed hi _ => exact h.of_inside (fun _ => haside hi nofun) id
  | called hi => exact h.of_inside (fun _ => haside hi fun _ => rfl) id
  | lined hi hheld =>
    refine h.of_inside (fun _ => haside hi nofun) fun hfree => ?_
    cases hheld.symm.trans hfree
  | @taken i r turn hi hfree hheld =>
    refine exclusive_of_one (i := i) hheld fun j hj => ?_
    rcases Inside.of_put (l := { l with turn }) hi hj with ⟨hji, -⟩ | ⟨-, hinside⟩
    · exact hji
    · exact absurd hinside (h.free hfree j)
  | answered hi _ hhanded => exact hhanded.exclusive (h.left hi rfl)
  | served hi _ hhanded => exact hhanded.exclusive (h.left hi rfl)

/-! ## What a move comes to for one caller -/

def Event.caller : Event → Nat
  | .called i _ | .returned i _ => i

/-- What is seen of a caller. -/
def seen (i : Nat) (es : List Event) : List Event := es.filter (·.caller = i)

theorem mem_seen {e : Event} : e ∈ seen i es ↔ e ∈ es ∧ e.caller = i := by
  rw [seen, List.mem_filter, decide_eq_true_iff]

theorem seen_self {es : List Event} (h : ∀ e ∈ es, e.caller = i) : seen i es = es :=
  List.filter_eq_self.2 fun e he => decide_eq_true (h e he)

theorem seen_other {j : Nat} {es : List Event} (hij : i ≠ j) (h : ∀ e ∈ es, e.caller = j) :
    seen i es = [] :=
  List.filter_eq_nil_iff.2 fun e he heq => hij ((of_decide_eq_true heq).symm.trans (h e he))

/-- What a move can come to for a caller: where it stands before, what is seen of it and where it stands
after. -/
inductive Viewed (l : Lobby) (i : Nat) : Option Stage → List Event → Option Stage → Prop where
  | same (x : Option Stage) : Viewed l i x [] x
  | came (r : Request) : Viewed l i none [] (some (.arriving r))
  | refused (r : Request) : Viewed l i (some (.arriving r)) [.returned i (.error .suspended)]
      (some (.returned (.error .suspended)))
  | passed (r : Request) (hq : l.queue.faulted = false) :
      Viewed l i (some (.arriving r)) [] (some (.passed r))
  /-- It stands in line, or its turn has come. -/
  | moved {x y : Stage} (hx : x.past = true) (hy : y.past = true) :
      Viewed l i (some x) [] (some y)
  | called (r : Request) (c : Call) :
      Viewed l i (some (.admitted r)) [.called i c] (some (.calling r))
  | answered (r : Request) {b : Response} (hb : ¬ Shut b) :
      Viewed l i (some (.admitted r)) [.returned i b] (some (.returned b))
  | served (r : Request) (b : Response) :
      Viewed l i (some (.calling r)) [.returned i b] (some (.returned b))

/-- **A move comes to one of these for a caller.** -/
theorem Moved.view (h : Moved l m es l' m') (i : Nat) :
    Viewed l i l.callers[i]? (seen i es) l'.callers[i]? := by
  -- one caller moves; where it returns, another one may be handed the queue
  have hset {k : Nat} {x y : Stage} {es : List Event} (hk : l.callers[k]? = some x)
      (hself : Viewed l k (some x) es (some y)) (hes : ∀ e ∈ es, e.caller = k) :
      Viewed l i l.callers[i]? (seen i es) (l.callers.set k y)[i]? := by
    rcases eq_or_ne i k with rfl | hik
    · rw [hk, seen_self hes, List.getElem?_set_self (List.getElem?_eq_some_iff.1 hk).1]
      exact hself
    · rw [seen_other hik hes, List.getElem?_set_ne hik.symm]
      exact .same _
  have hreturned {k : Nat} {b : Response} : ∀ e ∈ [Event.returned k b], e.caller = k := by
    simp [Event.caller]
  have hleft {k : Nat} {x : Stage} {q : Queue} {b : Response} {l' : Lobby}
      (hk : l.callers[k]? = some x)
      (hself : Viewed l k (some x) [.returned k b] (some (.returned b)))
      (h : Handed ({ l with queue := q }.put k (.returned b)) l') :
      Viewed l i l.callers[i]? (seen i [.returned k b]) l'.callers[i]? := by
    cases h with
    | nobody turn => exact hset hk hself hreturned
    | @given j r turn hj hheld =>
      have hj : (l.callers.set k (.returned b))[j]? = some (.waiting r) := hj
      rcases eq_or_ne i j with rfl | hij
      · have hik : i ≠ k := by
          rintro rfl
          cases hj.symm.trans (List.getElem?_set_self (List.getElem?_eq_some_iff.1 hk).1)
        rw [seen_other hik hreturned, put_self hj, ← List.getElem?_set_ne hik.symm, hj]
        exact .moved rfl rfl
      · rw [put_other hij]
        exact hset hk hself hreturned
  cases h with
  | kept => exact .same _
  | came r =>
    rcases getElem?_came l.callers (.arriving r) i with hsame | ⟨hnone, hcame⟩
    · rw [hsame]
      exact .same _
    · rw [hnone, hcame]
      exact .came r
  | refused hk _ => exact hset hk (.refused _) hreturned
  | passed hk hq => exact hset hk (.passed _ hq) nofun
  | taken hk _ _ => exact hset hk (.moved rfl rfl) nofun
  | lined hk _ => exact hset hk (.moved rfl rfl) nofun
  | called hk => exact hset hk (.called _ _) (by simp [Event.caller])
  | answered hk hb h => exact hleft hk (.answered _ hb) h
  | served hk _ h => exact hleft hk (.served _ _) h

end
end Lobby
end PingDelivery.Queue
