import PingDelivery.Proofs.Queue.Lobby
import PingDelivery.Proofs.Queue.Reopening

/-! # A fence with a gap

A store call that fails suspends the queue. That shuts out everyone who had not found the queue well
before, and nobody who had: in their turn they call the store and change list and store, as if nothing
had happened. The queue is fenced exactly as long as they stay where they are.
-/

namespace PingDelivery.Queue
open Store

namespace Lobby
section
variable {l l' : Lobby} {m m' : Content} {es : List Event} {i : Nat}

/-! ## Behind a failure -/

/-- The caller has not found the queue well, or it has returned. -/
def Outside (x : Option Stage) : Prop :=
  x = none ∨ (∃ r, x = some (.arriving r)) ∨ ∃ b, x = some (.returned b)

/-- It has found the queue well, and has not been served. -/
def Past (x : Option Stage) : Prop := ∃ y, x = some y ∧ y.past = true

/-- It is being served, or has returned. -/
def Over (x : Option Stage) : Prop :=
  (∃ r, x = some (.calling r)) ∨ ∃ b, x = some (.returned b)

/-- What a fence lets nobody do: call the store, or be answered as if the queue were well. -/
def Event.Breaks : Event → Prop
  | .called _ _ => True
  | .returned _ b => ¬ Shut b

theorem outside_or_past (x : Option Stage) :
    Outside x ∨ Past x ∨ ∃ r, x = some (.calling r) := by
  cases x with
  | none => exact .inl (.inl rfl)
  | some y =>
    cases y with
    | arriving r => exact .inl (.inr (.inl ⟨r, rfl⟩))
    | returned b => exact .inl (.inr (.inr ⟨b, rfl⟩))
    | calling r => exact .inr (.inr ⟨r, rfl⟩)
    | passed r | waiting r | admitted r => exact .inr (.inl ⟨_, rfl, rfl⟩)

theorem Outside.not_past {x : Option Stage} (h : Outside x) : ¬ Past x := by
  rintro ⟨y, rfl, hy⟩
  rcases h with hnone | ⟨r, hr⟩ | ⟨b, hb⟩
  · cases hnone
  · cases hr
    cases hy
  · cases hb
    cases hy

theorem Over.not_past {x : Option Stage} (h : Over x) : ¬ Past x := by
  rintro ⟨y, rfl, hy⟩
  rcases h with ⟨r, hr⟩ | ⟨b, hb⟩
  · cases hr
    cases hy
  · cases hb
    cases hy

/-- Who comes to a suspended queue is refused. -/
theorem Viewed.outside {x y : Option Stage} (h : Viewed l i x es y) (hq : l.queue.faulted = true)
    (hx : Outside x) : Outside y ∧ ∀ e ∈ es, e = .returned i (.error .suspended) := by
  cases h with
  | same => exact ⟨hx, nofun⟩
  | came r => exact ⟨.inr (.inl ⟨r, rfl⟩), nofun⟩
  | refused r => exact ⟨.inr (.inr ⟨_, rfl⟩), fun e he => List.mem_singleton.1 he⟩
  | passed r hwell =>
    rw [hq] at hwell
    cases hwell
  | moved hpast _ => exact absurd ⟨_, rfl, hpast⟩ hx.not_past
  | called | answered _ _ => exact absurd ⟨_, rfl, rfl⟩ hx.not_past
  | served r b => rcases hx with hx | ⟨r, hx⟩ | ⟨b, hx⟩ <;> cases hx

theorem Viewed.over {x y : Option Stage} (h : Viewed l i x es y) (hx : Over x) : Over y := by
  cases h with
  | same => exact hx
  | served r b => exact .inr ⟨b, rfl⟩
  | moved hpast _ => exact absurd ⟨_, rfl, hpast⟩ hx.not_past
  | called | answered _ _ => exact absurd ⟨_, rfl, rfl⟩ hx.not_past
  | came | refused | passed => rcases hx with ⟨r, hx⟩ | ⟨b, hx⟩ <;> cases hx

/-- Who has found the queue well before is not refused. -/
theorem Viewed.past {x y : Option Stage} (h : Viewed l i x es y) (hx : Past x) :
    (Past y ∧ es = []) ∨ (Over y ∧ ∃ e ∈ es, e.Breaks) := by
  cases h with
  | same => exact .inl ⟨hx, rfl⟩
  | moved _ hpast => exact .inl ⟨⟨_, rfl, hpast⟩, rfl⟩
  | called r c => exact .inr ⟨.inl ⟨r, rfl⟩, _, List.mem_cons_self, trivial⟩
  | answered r hb => exact .inr ⟨.inr ⟨_, rfl⟩, _, List.mem_cons_self, hb⟩
  | came => exact absurd hx (Outside.not_past (.inl rfl))
  | refused r | passed r _ => exact absurd hx (Outside.not_past (.inr (.inl ⟨r, rfl⟩)))
  | served r _ => exact absurd hx (Over.not_past (.inl ⟨r, rfl⟩))

theorem Handed.queue (h : Handed l l') : l'.queue = l.queue := by
  cases h <;> rfl

/-- A suspended queue stays suspended. -/
theorem Moved.faulted (h : Moved l m es l' m') (hq : l.queue.faulted = true) :
    l'.queue.faulted = true := by
  cases h with
  | kept | came _ | refused _ _ | passed _ _ | taken _ _ _ | lined _ _ | called _ => exact hq
  | answered _ _ hhanded =>
    rw [hhanded.queue]
    exact hq
  | served _ hs hhanded =>
    rw [hhanded.queue]
    exact hs.faulted hq

/-- The store is at work for nobody. -/
def Still (l : Lobby) : Prop := ∀ (i : Nat) (r : Request), l.callers[i]? ≠ some (.calling r)

theorem Handed.still (h : Handed l l') (hl : l.Still) : l'.Still := by
  cases h with
  | nobody turn => exact hl
  | @given j r turn hj _ =>
    intro i r' hi
    rcases eq_or_ne i j with rfl | hij
    · cases (put_self (l := { l with turn }) hj).symm.trans hi
    · exact hl i r' ((put_other hij).symm.trans hi)

theorem Moved.still (h : Moved l m es l' m') (hl : l.Still) (hes : ∀ i c, .called i c ∉ es) :
    l'.Still := by
  intro i r hi
  have hview := h.view i
  generalize hx : l.callers[i]? = x, hy : l'.callers[i]? = y, hseen : seen i es = es' at hview
  cases hview with
  | same => exact hl i r (hx.trans (hy.symm.trans hi))
  | moved _ hpast =>
    cases hy.symm.trans hi
    cases hpast
  | called r' c => exact hes i c (mem_seen.1 (hseen ▸ List.mem_cons_self)).1
  | came | refused | passed | answered | served => cases hy.symm.trans hi

/-- Without a call nothing changes. -/
theorem Moved.unchanged (h : Moved l m es l' m') (hl : l.Still) (hes : ∀ i c, .called i c ∉ es) :
    l'.queue = l.queue ∧ m' = m := by
  cases h with
  | kept | came _ | refused _ _ | passed _ _ | taken _ _ _ | lined _ _ => exact ⟨rfl, rfl⟩
  | called _ => exact absurd List.mem_cons_self (hes _ _)
  | answered _ _ hhanded => exact ⟨hhanded.queue, rfl⟩
  | served hi _ _ => exact absurd hi (hl _ _)

theorem Moved.one (h : Moved l m es l' m') : es = [] ∨ ∃ e, es = [e] := by
  cases h with
  | kept | came _ | passed _ _ | taken _ _ _ | lined _ _ => exact .inl rfl
  | refused _ _ | called _ | answered _ _ _ | served _ _ _ => exact .inr ⟨_, rfl⟩

/-- A call that has failed suspends the queue, and leaves the store to itself. -/
theorem Moved.failed {b : Error} (h : Moved l m [.returned i (.error (.storage b))] l' m')
    (hl : l.Exclusive) : l'.queue.faulted = true ∧ l'.Still := by
  generalize hes : [Event.returned i (.error (.storage b))] = es at h
  cases h with
  | kept | came _ | passed _ _ | taken _ _ _ | lined _ _ | refused _ _ | called _ => cases hes
  | answered _ hb _ =>
    cases hes
    exact absurd (.inr ⟨b, rfl⟩) hb
  | served hi hs hhanded =>
    cases hes
    refine ⟨?_, hhanded.still fun j r hj => hl.left hi rfl j ⟨_, hj, rfl⟩⟩
    rw [hhanded.queue]
    exact hs.suspends

variable {l₀ : Lobby} {m₀ : Content}

theorem Course.exclusive (h : Course l₀ m₀ es l m) (hl : l₀.Exclusive) : l.Exclusive := by
  induction h with
  | start => exact hl
  | move _ hf ih => exact ih.moved (moved_of_follows hf)

/-- Where a call has failed. -/
theorem Course.at_failure {b : Error} {es₁ : List Event} (hl : l₀.Exclusive)
    (h : Course l₀ m₀ es l m) (hes : es = es₁ ++ [.returned i (.error (.storage b))]) :
    l.queue.faulted = true ∧ l.Still := by
  induction h with
  | start => simp at hes
  | move h hf ih =>
    have hmoved := moved_of_follows hf
    rcases hmoved.one with rfl | ⟨e, rfl⟩
    -- the failure is the last that was seen, and what has happened since has not been seen
    · obtain ⟨hfaulted, hstill⟩ := ih ((List.append_nil _).symm.trans hes)
      exact ⟨hmoved.faulted hfaulted, hmoved.still hstill fun _ _ => List.not_mem_nil⟩
    · obtain ⟨-, hlast⟩ := List.append_inj' hes rfl
      cases hlast
      exact hmoved.failed (h.exclusive hl)

/-- Everyone behind a failure: who was outside is refused, and who had found the queue well stays where
it was or breaks the fence. -/
structure Behind (l₁ : Lobby) (es : List Event) (l : Lobby) : Prop where
  faulted : l.queue.faulted = true
  outside : ∀ i, Outside l₁.callers[i]? → Outside l.callers[i]? ∧
    ∀ e ∈ seen i es, e = .returned i (.error .suspended)
  past : ∀ i, Past l₁.callers[i]? → (Past l.callers[i]? ∧ seen i es = []) ∨
    (Over l.callers[i]? ∧ ∃ e ∈ seen i es, e.Breaks)

theorem seen_append (i : Nat) (es es' : List Event) :
    seen i (es ++ es') = seen i es ++ seen i es' := List.filter_append _ _

theorem Course.behind {l₁ : Lobby} {m₁ : Content} (hq : l₁.queue.faulted = true)
    (h : Course l₁ m₁ es l m) : Behind l₁ es l := by
  induction h with
  | start => exact ⟨hq, fun i hi => ⟨hi, nofun⟩, fun i hi => .inl ⟨hi, rfl⟩⟩
  | move h hf ih =>
    have hmoved := moved_of_follows hf
    refine ⟨hmoved.faulted ih.faulted, fun i hi => ?_, fun i hi => ?_⟩ <;> rw [seen_append]
    · obtain ⟨hout, hseen⟩ := ih.outside i hi
      obtain ⟨hout', hseen'⟩ := (hmoved.view i).outside ih.faulted hout
      exact ⟨hout', fun e he => (List.mem_append.1 he).elim (hseen e) (hseen' e)⟩
    · rcases ih.past i hi with ⟨hpast, hseen⟩ | ⟨hover, e, he, hbreaks⟩
      · rw [hseen, List.nil_append]
        exact (hmoved.view i).past hpast
      · exact .inr ⟨(hmoved.view i).over hover, e, List.mem_append_left _ he, hbreaks⟩

/-- While nobody calls the store nothing changes. -/
theorem Course.unchanged {l₁ : Lobby} {m₁ : Content} (hl : l₁.Still) (h : Course l₁ m₁ es l m)
    (hes : ∀ i c, .called i c ∉ es) : l.queue = l₁.queue ∧ m = m₁ ∧ l.Still := by
  induction h with
  | start => exact ⟨rfl, rfl, hl⟩
  | move h hf ih =>
    obtain ⟨hqueue, rfl, hstill⟩ := ih fun i c hc => hes i c (List.mem_append_left _ hc)
    have hmoved := moved_of_follows hf
    have hes' (i : Nat) (c : Call) : Event.called i c ∉ _ := fun hc =>
      hes i c (List.mem_append_right _ hc)
    obtain ⟨hsame, hm⟩ := hmoved.unchanged hstill hes'
    exact ⟨hsame.trans hqueue, hm, hmoved.still hstill hes'⟩

/-! ## The fence -/

/-- The queue is fenced: nobody calls the store, list and store stay as they are, and whoever returns
has been refused. -/
structure Fenced (l : Lobby) (m : Content) (es : List Event) (l' : Lobby) (m' : Content) : Prop where
  uncalled : ∀ i c, .called i c ∉ es
  kept : l'.queue.pings = l.queue.pings
  stored : m' = m
  shut : ∀ i b, .returned i b ∈ es → Shut b

theorem Behind.refused {l₁ : Lobby} (h : Behind l₁ es l) (hl : l₁.Still) {e : Event} (he : e ∈ es)
    (hpast : ¬ Past l₁.callers[e.caller]?) : e = .returned e.caller (.error .suspended) := by
  rcases outside_or_past l₁.callers[e.caller]? with hout | hin | ⟨r, hr⟩
  · exact (h.outside _ hout).2 e (mem_seen.2 ⟨he, rfl⟩)
  · exact absurd hin hpast
  · exact absurd hr (hl _ r)

/-- Who stays where it was has not been seen. -/
theorem Behind.refused_of_stay {l₁ : Lobby} (h : Behind l₁ es l) (hl : l₁.Still)
    (hstay : ∀ j : Nat, Past l₁.callers[j]? → Past l.callers[j]?) {e : Event} (he : e ∈ es) :
    e = .returned e.caller (.error .suspended) := by
  refine h.refused hl he fun hpast => ?_
  rcases h.past _ hpast with ⟨-, hnone⟩ | ⟨hover, -⟩
  · have hmem : e ∈ seen e.caller es := mem_seen.2 ⟨he, rfl⟩
    rw [hnone] at hmem
    cases hmem
  · exact hover.not_past (hstay _ hpast)

theorem Course.fenced_iff {l₁ : Lobby} {m₁ : Content} (hq : l₁.queue.faulted = true)
    (hl : l₁.Still) (h : Course l₁ m₁ es l m) :
    Fenced l₁ m₁ es l m ↔ ∀ j : Nat, Past l₁.callers[j]? → Past l.callers[j]? := by
  have hbehind := h.behind hq
  constructor
  · intro hfenced j hj
    rcases hbehind.past j hj with ⟨hpast, -⟩ | ⟨-, e, he, hbreaks⟩
    · exact hpast
    · have hmem := (mem_seen.1 he).1
      cases e with
      | called k c => exact absurd hmem (hfenced.uncalled k c)
      | returned k b => exact absurd (hfenced.shut k b hmem) hbreaks
  · intro hstay
    have huncalled (k : Nat) (c : Call) : .called k c ∉ es := fun hc => by
      cases hbehind.refused_of_stay hl hstay hc
    obtain ⟨hqueue, hm, -⟩ := h.unchanged hl huncalled
    refine ⟨huncalled, congrArg Queue.pings hqueue, hm, fun k b hb => ?_⟩
    cases hbehind.refused_of_stay hl hstay hb
    exact .inl rfl

/-- **A failed call shuts out everyone but those who had found the queue well.** After it whoever has
not found the queue well before is refused without a call. The queue is fenced exactly as long as
nobody who had found it well is served; once all have returned, it has been exactly if there was nobody
of them. -/
theorem fenced_but_for_past {q : Queue} {b : Error} {es₁ es₂ : List Event} {l₁ l₂ : Lobby}
    {m₁ m₂ : Content}
    (h₁ : Course (opened q) m₀ (es₁ ++ [.returned i (.error (.storage b))]) l₁ m₁)
    (h₂ : Course l₁ m₁ es₂ l₂ m₂) :
    (∀ e ∈ es₂, ¬ Past l₁.callers[e.caller]? → e = .returned e.caller (.error .suspended)) ∧
      (Fenced l₁ m₁ es₂ l₂ m₂ ↔ ∀ j : Nat, Past l₁.callers[j]? → Past l₂.callers[j]?) ∧
      ((∀ x ∈ l₂.callers, ∃ b, x = .returned b) →
        (Fenced l₁ m₁ es₂ l₂ m₂ ↔ ∀ j : Nat, ¬ Past l₁.callers[j]?)) := by
  obtain ⟨hfaulted, hstill⟩ := h₁.at_failure (exclusive_opened q) rfl
  have hiff := h₂.fenced_iff hfaulted hstill
  refine ⟨fun e => (h₂.behind hfaulted).refused hstill, hiff, fun hreturned => hiff.trans ?_⟩
  constructor
  · intro hstay j hj
    obtain ⟨x, hx, hpast⟩ := hstay j hj
    obtain ⟨b, rfl⟩ := hreturned x (List.mem_of_getElem? hx)
    cases hpast
  · exact fun hnone j hj => absurd hj (hnone j)

end

/-- The move is one that is named. -/
theorem Course.step {l₀ l l' : Lobby} {m₀ m m' : Content} {es es' : List Event}
    {tr : List Observed} (h : Course l₀ m₀ es l m) (mv : Move)
    (hf : Follows (l.perform mv) m tr (some (es', l')) m') : Course l₀ m₀ (es ++ es') l' m' :=
  h.move hf

/-- Where a course has led to, another one starts. -/
theorem Course.fresh {l₀ l : Lobby} {m₀ m : Content} {es : List Event} (_ : Course l₀ m₀ es l m) :
    Course l m [] l m := .start

/-- Nobody else stands in line when the call fails, and who comes later is refused. -/
theorem fence_of_one : ∃ (es₁ es₂ : List Event) (b : Error) (l₁ l₂ : Lobby) (m₁ m₂ : Content),
    Course (opened (.restored .standard [] 0 0)) (fun _ => none)
      (es₁ ++ [.returned 0 (.error (.storage b))]) l₁ m₁ ∧
      Course l₁ m₁ es₂ l₂ m₂ ∧ es₂ = [.returned 1 (.error .suspended)] ∧
      Fenced l₁ m₁ es₂ l₂ m₂ := by
  have h₁ : Course (opened (.restored .standard [] 0 0)) (fun _ => none) [] _ _ := .start
  have h₁ := h₁.step (.come (.enqueue blank)) (.done _ _)
  have h₁ := h₁.step (.check 0) (.done _ _)
  have h₁ := h₁.step (.ask 0) (.done _ _)
  have h₁ := h₁.step (.enter 0) (.done _ _)
  have h₁ : Course _ _ ([.called 0 _] ++ [.returned 0 _]) ⟨_, _, [.returned _]⟩ _ :=
    h₁.step (.finish 0) (.call (.failed Memory.failure) (.tell (.done _ _)))
  have h₂ := h₁.fresh.step (.come (.peek 1)) (.done _ _)
  have h₂ : Course _ _ [.returned 1 _] ⟨_, _, [.returned _, .returned _]⟩ _ :=
    h₂.step (.check 1) (.done _ _)
  obtain ⟨-, -, hiff⟩ := fenced_but_for_past h₁ h₂
  refine ⟨_, _, _, _, _, _, _, h₁, h₂, rfl, (hiff ?_).2 ?_⟩
  · exact List.forall_mem_cons.2 ⟨⟨_, rfl⟩, List.forall_mem_singleton.2 ⟨_, rfl⟩⟩
  · rintro j ⟨y, hy, hpast⟩
    cases j with
    | zero =>
      cases hy
      cases hpast
    | succ j => cases hy

/-- **The fence lets a caller through.** Two callers have found the queue well, and the call of the first
one fails. The second one has its turn then: it calls the store, changes store and list, and is told
that its ping is queued. -/
theorem served_behind_failure : ∃ (c c' : Call) (l₁ l₂ : Lobby) (m₁ m₂ : Content),
    Course (opened (.restored .standard [] 0 0)) (fun _ => none)
      ([.called 0 c] ++ [.returned 0 (.error (.storage Memory.failure))]) l₁ m₁ ∧
      l₁.queue.faulted = true ∧ l₁.queue.pings = [] ∧
      Course l₁ m₁ [.called 1 c', .returned 1 (.ok .accepted)] l₂ m₂ ∧ l₂.queue.pings = [blank] ∧
      m₂ (Record.key blank.id) = some (Record.encode blank) ∧
      ¬ Fenced l₁ m₁ [.called 1 c', .returned 1 (.ok .accepted)] l₂ m₂ := by
  have h₁ : Course (opened (.restored .standard [] 0 0)) (fun _ => none) [] _ _ := .start
  have h₁ := h₁.step (.come (.enqueue blank)) (.done _ _)
  have h₁ := h₁.step (.come (.enqueue blank)) (.done _ _)
  have h₁ := h₁.step (.check 0) (.done _ _)
  have h₁ := h₁.step (.check 1) (.done _ _)
  have h₁ := h₁.step (.ask 0) (.done _ _)
  have h₁ := h₁.step (.ask 1) (.done _ _)
  have h₁ := h₁.step (.enter 0) (.done _ _)
  have h₁ := h₁.step (.finish 0) (.call (.failed Memory.failure) (.tell (.done _ _)))
  have h₂ := h₁.fresh.step (.enter 1) (.done _ _)
  have h₂ := h₂.step (.finish 1) (.call (.answered (c := storePut blank) () trivial) (.tell (.done _ _)))
  refine ⟨_, _, _, _, _, _, h₁, rfl, rfl, h₂, rfl, effect_put_self _ _, ?_⟩
  exact fun hfenced => hfenced.uncalled 1 _ List.mem_cons_self

end Lobby
end PingDelivery.Queue
