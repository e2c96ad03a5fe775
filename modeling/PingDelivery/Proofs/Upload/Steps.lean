import PingDelivery.Proofs.Queue.Serving
import PingDelivery.Upload.Run

/-! # What a step of an upload run comes to

Between two phases a run asks the queue at most once; what it then makes of the reply only speaks. A
program of that kind gives one result, whatever happens to the store.
-/

namespace PingDelivery
open Store Upload

/-! ## Programs that only speak -/

/-- The program calls nothing, calls no record unreadable, and what it gives has the property. -/
inductive Quiet {α : Type} (P : α → Prop) : Program α → Prop where
  | done {a : α} (h : P a) : Quiet P (.done a)
  | tell {n : Notice} {p : Program α} (hn : ∀ k e, n ≠ .discardedRecord k e) (h : Quiet P p) :
      Quiet P (.tell n p)

namespace Quiet
variable {α β : Type} {P Q : α → Prop} {R : β → Prop} {p : Program α}

theorem bind {f : α → Program β} (h : Quiet P p) (hf : ∀ a, P a → Quiet R (f a)) :
    Quiet R (p.bind f) := by
  induction h with
  | done ha => exact hf _ ha
  | tell hn _ ih => exact .tell hn ih

theorem mono (h : Quiet P p) (hpq : ∀ a, P a → Q a) : Quiet Q p := by
  induction h with
  | done ha => exact .done (hpq _ ha)
  | tell hn _ ih => exact .tell hn ih

theorem told {ns : List Notice} (hns : ∀ n ∈ ns, ∀ k e, n ≠ .discardedRecord k e)
    (h : Quiet P p) : Quiet P (Run.told ns p) := by
  induction ns with
  | nil => exact h
  | cons n ns ih =>
    exact .tell (hns n List.mem_cons_self) (ih fun n' hn' => hns n' (List.mem_cons_of_mem _ hn'))

theorem follows (h : Quiet P p) {m m' : Content} {tr : List Observed} {out : Option α}
    (hf : Follows p m tr out m') :
    m' = m ∧ (∀ k, Queue.Undiscarded k tr) ∧ ∀ a, out = some a → P a := by
  induction h generalizing tr with
  | done ha =>
    obtain ⟨rfl, rfl, rfl | rfl⟩ := hf.of_done
    · exact ⟨rfl, fun _ => .nil, nofun⟩
    · refine ⟨rfl, fun _ => .nil, ?_⟩
      intro a h
      cases h
      exact ha
  | tell hn _ ih =>
    rcases hf.of_tell with ⟨rfl, rfl, rfl⟩ | ⟨tr', rfl, hrest⟩
    · exact ⟨rfl, fun _ => .nil, nofun⟩
    · obtain ⟨hm, htr, hout⟩ := ih hrest
      exact ⟨hm, fun k => (htr k).told (hn k), hout⟩

theorem eq_of_follows {a x : α} (h : Quiet (· = a) p) {m m' : Content} {tr : List Observed}
    (hf : Follows p m tr (some x) m') : x = a ∧ m' = m := by
  obtain ⟨hm, -, hx⟩ := h.follows hf
  exact ⟨hx x rfl, hm⟩

/-- Before another program it can be passed over. -/
theorem of_bind {a : α} {f : α → Program β} (h : Quiet (· = a) p) {m m' : Content}
    {tr : List Observed} {out : β} (hf : Follows (p.bind f) m tr (some out) m') :
    ∃ tr', Follows (f a) m tr' (some out) m' := by
  rcases hf.of_bind with ⟨hout, -⟩ | ⟨x, tr₁, tr₂, m₁, hp, hrest, -⟩
  · cases hout
  · obtain ⟨rfl, rfl⟩ := h.eq_of_follows hp
    exact ⟨tr₂, hrest⟩

/-- It can be followed to its end, over any store. -/
theorem reaches {a : α} (h : Quiet (· = a) p) (m : Content) : ∃ tr, Follows p m tr (some a) m := by
  induction h with
  | done ha =>
    cases ha
    exact ⟨_, .done _ m⟩
  | tell _ _ ih =>
    obtain ⟨tr, hf⟩ := ih
    exact ⟨_, .tell hf⟩

/-- Over any backend it gives its result and leaves the store alone. -/
theorem gives {σ : Type} {a : α} (h : Quiet (· = a) p) (b : Backend σ) (st : σ) :
    p.Gives b st a st := by
  induction h with
  | done ha =>
    cases ha
    exact .done _ st
  | tell _ _ ih => exact ih.tell

end Quiet

/-! ## Upload runs -/

theorem told_bind {α β : Type} (ns : List Notice) (p : Program α) (f : α → Program β) :
    (Run.told ns p).bind f = Run.told ns (p.bind f) := by
  induction ns with
  | nil => rfl
  | cons n ns ih => exact congrArg (Program.tell n) ih

/-- The run is about to look on or has ended. -/
def Upload.Run.Phase.Idle (phase : Run.Phase) : Prop :=
  (∃ s, phase = .looking s) ∨ ∃ r, phase = .finished r

theorem idle_takeTurn (d : Desk) : (Run.takeTurn d).Idle := by
  unfold Run.takeTurn
  split
  · exact .inr ⟨_, rfl⟩
  · exact .inl ⟨_, rfl⟩

/-- The error with which an error of the queue ends a run. -/
def Upload.RunError.ofQueue (e : QueueError) : RunError :=
  if e.isFatal then .storageFault e else .queue e

/-- The desk after an error of the queue: a fatal one has suspended the scheduler. -/
def Upload.Desk.failed (d : Desk) (e : QueueError) : Desk :=
  if e.isFatal then { d with scheduler := { d.scheduler with suspended := true } } else d

theorem quiet_fail (d : Desk) (e : QueueError) :
    Quiet (· = (.finished (.error (.ofQueue e)), d.failed e)) (Run.fail d e) := by
  unfold Run.fail RunError.ofQueue Desk.failed
  split
  · refine .told ?_ (.done rfl)
    intro n hn
    split at hn
    · cases hn
    · cases List.mem_singleton.1 hn
      exact nofun
  · exact .done rfl

theorem idle_fail (d : Desk) (e : QueueError) :
    Quiet (fun x => x.2.queue = d.queue ∧ Run.Phase.Idle x.1) (Run.fail d e) := by
  refine (quiet_fail d e).mono ?_
  rintro _ rfl
  refine ⟨?_, .inr ⟨_, rfl⟩⟩
  unfold Desk.failed
  split <;> rfl

/-- A ping that is seen is handed to the uploader. -/
theorem quiet_looked_cons (d : Desk) (s : Summary) (p : Ping) (rest : List Ping) :
    Quiet (· = (.uploading p s, d)) (Run.looked d s (.ok (.pings (p :: rest)))) := by
  refine .told ?_ (.done rfl)
  intro n hn
  rcases List.mem_append.1 hn with hn | hn
  · rw [Request.trace] at hn
    split at hn
    · cases List.mem_singleton.1 hn
      exact nofun
    · cases hn
  · cases List.mem_singleton.1 hn
    exact nofun

/-- A look hands over the first ping of the reply or ends the run. -/
theorem quiet_looked (d : Desk) (s : Summary) (a : Except QueueError Queue.Reply) :
    Quiet (fun x => x.2.queue = d.queue ∧ (Run.Phase.Idle x.1 ∨
      ∃ p rest, a = .ok (.pings (p :: rest)) ∧ x.1 = .uploading p s)) (Run.looked d s a) := by
  unfold Run.looked
  split
  · exact (idle_fail d _).mono fun x hx => ⟨hx.1, .inl hx.2⟩
  · rename_i p rest
    refine (quiet_looked_cons d s p rest).mono ?_
    rintro _ rfl
    exact ⟨rfl, .inr ⟨p, rest, rfl, rfl⟩⟩
  · exact .done ⟨rfl, .inl (.inr ⟨_, rfl⟩)⟩

theorem idle_account (d : Desk) (p : Ping) (s : Summary) (o : Outcome) (reply : Queue.Reply) :
    (Run.account d p s o reply).1.Idle ∧
      ∀ k e, (Run.account d p s o reply).2.2 ≠ .discardedRecord k e := by
  unfold Run.account
  split
  · exact ⟨.inl ⟨_, rfl⟩, fun _ _ => Notice.noConfusion⟩
  · exact ⟨.inl ⟨_, rfl⟩, fun _ _ => Notice.noConfusion⟩
  · exact ⟨.inr ⟨_, rfl⟩, fun _ _ => Notice.noConfusion⟩
  · exact ⟨.inr ⟨_, rfl⟩, fun _ _ => Notice.noConfusion⟩
  · exact ⟨.inr ⟨_, rfl⟩, fun _ _ => Notice.noConfusion⟩

/-- An acknowledgement that the queue took is accounted for. -/
theorem quiet_settled_ok (d : Desk) (p : Ping) (o : Outcome) (s : Summary) (reply : Queue.Reply) :
    Quiet (· = ((Run.account d p s o reply).1,
      { d with scheduler := (Run.account d p s o reply).2.1 })) (Run.settled d p o s (.ok reply)) := by
  obtain ⟨-, hn⟩ := idle_account d p s o reply
  exact .tell hn (.done rfl)

theorem quiet_settled (d : Desk) (p : Ping) (o : Outcome) (s : Summary)
    (a : Except QueueError Queue.Reply) :
    Quiet (fun x => x.2.queue = d.queue ∧ Run.Phase.Idle x.1) (Run.settled d p o s a) := by
  cases a with
  | error e => exact idle_fail d e
  | ok reply =>
    refine (quiet_settled_ok d p o s reply).mono ?_
    rintro _ rfl
    exact ⟨rfl, (idle_account d p s o reply).1⟩

end PingDelivery
