import PingDelivery.Proofs.Client.World

/-! # Whole calls

What a caller sees as one call is a few steps of the client. Taken one right after the other they
are the calls of the library: a submission, a look at the oldest ping, an acknowledgement.
-/

namespace PingDelivery
open Store Upload

namespace Client
variable {c : Client}

/-- A step, whatever the queue replied. -/
def step (c : Client) (a : Action) : Program Client := (c.perform a).bind fun x => .done x.2

theorem step_of_asks {a : Action} {r : Queue.Request} (h : c.asks a = some (false, r)) :
    c.step a = (c.queue.perform r).bind fun x => (c.setQueue x.2).resume x.1 a := by
  have hattend : c.queue.attend false r = c.queue.perform r := if_neg Bool.false_ne_true
  rw [step, perform, h]
  simp only
  rw [hattend, Program.bind_assoc]
  refine Program.bind_congr ?_
  intro x
  rw [Program.bind_assoc]
  exact Program.bind_done _

theorem step_of_act {a : Action} (h : c.asks a = none) : c.step a = c.act a := by
  rw [step, perform, h]
  simp only
  rw [Program.bind_assoc]
  exact Program.bind_done _

/-! ## Submissions -/

/-- The steps of a submission in a row. -/
def submit (c : Client) (i : Nat) (now : Time.Instant) (fresh : Uuid) : Program Client :=
  (c.step (.assemble i now fresh)).bind fun c => (c.step (.enqueue i false)).bind fun c =>
    c.step (.takeBack i now)

theorem getElem_last (l : List Held) (x : Held) : (l ++ [x])[l.length]? = some x :=
  List.getElem?_concat_length

theorem set_last (l : List Held) (x y : Held) : (l ++ [x]).set l.length y = l ++ [y] := by
  rw [List.set_append_right _ _ (Nat.le_refl _), Nat.sub_self]
  rfl

theorem eraseIdx_last (l : List Held) (x : Held) : (l ++ [x]).eraseIdx l.length = l := by
  rw [List.eraseIdx_append_of_length_le (Nat.le_refl _), Nat.sub_self]
  exact List.append_nil l

/-- With nothing in its place a step of a submission does nothing. -/
theorem idle_of_none {i : Nat} (h : c.held[i]? = none) (now : Time.Instant) :
    c.step (.enqueue i false) = .done c ∧ c.step (.takeBack i now) = .done c := by
  constructor
  · have hasks : c.asks (.enqueue i false) = none := by
      rw [asks, h]
    rw [step_of_act hasks, act]
  · rw [step_of_act rfl, act, h]

theorem takeBack_eq {l : List Held} {s : Lifecycle.Submission} {e : QueueError}
    (h : c.held = l ++ [⟨s, .refused e⟩]) (now : Time.Instant) :
    c.step (.takeBack l.length now) =
      .done { c with lifecycle := c.lifecycle.takeBack now s, held := l } := by
  have hlast : c.held[l.length]? = some ⟨s, .refused e⟩ := by
    rw [h]
    exact getElem_last _ _
  rw [step_of_act rfl, act, hlast]
  simp only
  rw [release, h, eraseIdx_last]

theorem enqueue_eq {l : List Held} {s : Lifecycle.Submission} {p : Ping}
    (h : c.held = l ++ [⟨s, .assembled p⟩]) (now : Time.Instant) :
    ((c.step (.enqueue l.length false)).bind fun c => c.step (.takeBack l.length now)) =
      (c.lifecycle.enqueue c.queue now s p).bind fun x =>
        .done { c.setQueue x.2.2 with lifecycle := x.2.1, held := l } := by
  have hlast : c.held[l.length]? = some ⟨s, .assembled p⟩ := by
    rw [h]
    exact getElem_last _ _
  have hasks : c.asks (.enqueue l.length false) = some (false, .enqueue p) := by
    rw [asks, hlast]
  rw [step_of_asks hasks, Lifecycle.enqueue, Program.bind_assoc, Program.bind_assoc]
  refine Program.bind_congr ?_
  intro x
  obtain ⟨reply, q⟩ := x
  have hlast' : (c.setQueue q).held[l.length]? = some ⟨s, .assembled p⟩ := hlast
  cases reply with
  | ok x =>
    have hresume : (c.setQueue q).resume (.ok x) (.enqueue l.length false) =
        .done ((c.setQueue q).release l.length c.lifecycle) := by
      simp only [resume, hlast']
      rfl
    have hheld : ((c.setQueue q).release l.length c.lifecycle).held = l := by
      change c.held.eraseIdx l.length = l
      rw [h, eraseIdx_last]
    have hnone : ((c.setQueue q).release l.length c.lifecycle).held[l.length]? = none := by
      rw [hheld]
      exact List.getElem?_eq_none (Nat.le_refl _)
    change ((c.setQueue q).resume (.ok x) (.enqueue l.length false)).bind _ = _
    rw [hresume]
    refine (idle_of_none hnone now).2.trans ?_
    exact congrArg (fun l => Program.done { c.setQueue q with held := l }) hheld
  | error e =>
    have hset : (c.setQueue q).held.set l.length ⟨s, .refused e⟩ = l ++ [⟨s, .refused e⟩] := by
      change c.held.set l.length ⟨s, .refused e⟩ = _
      rw [h, set_last]
    have hresume : (c.setQueue q).resume (.error e) (.enqueue l.length false) =
        .tell (.notQueued s.documentType e)
          (.done { c.setQueue q with held := l ++ [⟨s, .refused e⟩] }) := by
      simp only [resume, hlast']
      rw [hset]
    change ((c.setQueue q).resume (.error e) (.enqueue l.length false)).bind _ = _
    rw [hresume]
    refine congrArg (Program.tell _) ?_
    exact takeBack_eq (c := { c.setQueue q with held := l ++ [⟨s, .refused e⟩] }) rfl now

/-- **A submission is its steps in a row**, for the one that was taken out last. -/
theorem submit_eq {l : List Held} {s : Lifecycle.Submission} (h : c.held = l ++ [⟨s, .drained⟩])
    (now : Time.Instant) (fresh : Uuid) :
    c.submit l.length now fresh = (c.lifecycle.submit c.queue now fresh s).1.bind fun x =>
      .done { c.setQueue x.2.2 with lifecycle := x.2.1, held := l } := by
  have hlast : c.held[l.length]? = some ⟨s, .drained⟩ := by
    rw [h]
    exact getElem_last _ _
  rw [submit, step_of_act rfl, act, hlast, Lifecycle.submit]
  simp only
  rw [Program.bind_assoc, Program.bind_assoc]
  refine Program.bind_congr ?_
  intro x
  obtain ⟨made, lifecycle⟩ := x
  cases made with
  | inl p =>
    have hheld : { c with lifecycle, held := c.held.set l.length ⟨s, .assembled p⟩ }.held =
        l ++ [⟨s, .assembled p⟩] := by
      change c.held.set l.length ⟨s, .assembled p⟩ = _
      rw [h, set_last]
    exact enqueue_eq hheld now
  | inr r =>
    have hheld : (c.release l.length lifecycle).held = l := by
      change c.held.eraseIdx l.length = l
      rw [h, eraseIdx_last]
    have hnone : (c.release l.length lifecycle).held[l.length]? = none := by
      rw [hheld]
      exact List.getElem?_eq_none (Nat.le_refl _)
    obtain ⟨henqueue, htakeBack⟩ := idle_of_none hnone now
    change ((c.release l.length lifecycle).step _).bind _ = _
    rw [henqueue]
    refine htakeBack.trans ?_
    exact congrArg (fun l => Program.done { c with lifecycle, held := l }) hheld

/-! ## Runs -/

/-- A look of the client's is a look of the run. -/
theorem look_eq {i : Nat} {s : Summary} (h : c.runs[i]? = some (.looking s)) :
    c.step (.look i false) = c.follow i (Run.look c.desk s) := by
  cases hcancelled : c.desk.scheduler.cancelled with
  | true =>
    have hasks : c.asks (.look i false) = none := by
      rw [asks, h]
      exact if_pos hcancelled
    rw [step_of_act hasks, act, h]
    simp only
    rw [if_pos hcancelled, Run.look, if_pos hcancelled]
    rfl
  | false =>
    have hasks : c.asks (.look i false) = some (false, .peek 1) := by
      rw [asks, h]
      exact if_neg (Bool.eq_false_iff.1 hcancelled)
    rw [step_of_asks hasks, Run.look, if_neg (Bool.eq_false_iff.1 hcancelled), follow,
      Program.bind_assoc]
    refine Program.bind_congr ?_
    intro x
    obtain ⟨reply, q⟩ := x
    have hrun : (c.setQueue q).runs[i]? = some (.looking s) := h
    rw [resume, hrun]
    rfl

/-- An acknowledgement of the client's is one of the run. -/
theorem settle_eq {i : Nat} {p : Ping} {o : Outcome} {s : Summary}
    (h : c.runs[i]? = some (.settling p o s)) :
    c.step (.settle i false) = c.follow i (Run.settle c.desk p o s) := by
  have hasks : c.asks (.settle i false) = some (false, Run.ack p o) := by
    rw [asks, h]
  rw [step_of_asks hasks, Run.settle, follow, Program.bind_assoc]
  refine Program.bind_congr ?_
  intro x
  obtain ⟨reply, q⟩ := x
  have hrun : (c.setQueue q).runs[i]? = some (.settling p o s) := h
  rw [resume, hrun]
  rfl

end Client
end PingDelivery
