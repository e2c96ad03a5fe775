import PingDelivery.Proofs.Upload.View

/-! # What is on the books

What has become of queue, store and statistics can be told from what has been seen of a shift. Queue
and store have changed by the requests that were answered, one after another, and by nothing else. The
statistics have counted the acknowledgements and the answers that runs did not wait for. The summary of
a run counts its own acknowledgements.
-/

namespace PingDelivery.Upload
open Store

namespace Run

/-! ## One step -/

/-- What the statistics count. -/
def Deed.marks : Deed → List Stats.Mark
  | .expired _ => [.timeout]
  | .acked (.ackSuccess _) (.ok _) => [.uploaded]
  | .acked (.ackUnrecoverable _) (.ok _) => [.unrecoverable]
  | .acked (.ackRecoverable _) (.ok (.retry (.dropped _))) => [.recoverable, .dropped]
  | .acked (.ackRecoverable _) (.ok _) => [.recoverable]
  | _ => []

/-- What a summary counts. -/
def Deed.count (s : Summary) : Deed → Summary
  | .acked (.ackSuccess _) (.ok _) => { s with uploaded := s.uploaded + 1 }
  | .acked (.ackUnrecoverable _) (.ok _) => { s with unrecoverable := s.unrecoverable + 1 }
  | .acked (.ackRecoverable _) (.ok (.retry (.dropped _))) =>
    { s with droppedAfterRetries := s.droppedAfterRetries + 1 }
  | .acked (.ackRecoverable _) (.ok (.retry (.retained _))) =>
    { s with recoverable := s.recoverable + 1 }
  | _ => s

/-- What the deeds add up to. -/
def tally (ds : List Deed) : Summary := ds.foldl Deed.count .zero

theorem tally_append (ds ds' : List Deed) : tally (ds ++ ds') = ds'.foldl Deed.count (tally ds) :=
  List.foldl_append

/-- What the run has counted so far is `t`. -/
def Phase.Counts (t : Summary) : Phase → Prop
  | .arriving | .waiting | .admitted => t = .zero
  | .looking s | .uploading _ s | .settling _ _ s => s = t
  | .finished (.ok s) => s = { t with stopReason := s.stopReason }
  | .finished (.error _) => True

theorem stats_account (d : Desk) (p : Ping) (s : Summary) (o : Outcome) (reply : Queue.Reply) :
    (account d p s o reply).2.1.stats =
      (Deed.acked (ack p o) (.ok reply)).marks.foldl Stats.mark d.scheduler.stats := by
  cases o with
  | success | unrecoverable reason => rfl
  | recoverable reason =>
    cases reply with
    | retry disposition => cases disposition <;> rfl
    | _ => rfl

theorem counts_account (d : Desk) (p : Ping) (s : Summary) (o : Outcome) (reply : Queue.Reply) :
    (account d p s o reply).1.Counts (Deed.count s (.acked (ack p o) (.ok reply))) := by
  cases o with
  | success | unrecoverable reason => rfl
  | recoverable reason =>
    cases reply with
    | retry disposition => cases disposition <;> rfl
    | _ => rfl

section
variable {d : Desk} {m m' : Content} {phase : Phase} {a : Act}
  {log : Option (Queue.Request × Queue.Response)} {x : List Deed × Phase × Desk}

/-- Nothing is on the books of a look. -/
theorem Looked.books {s : Summary} {b : Queue.Response} (h : Looked d s b x) :
    x.2.2.queue = d.queue ∧ x.2.2.scheduler.stats = d.scheduler.stats ∧
      x.1.flatMap Deed.marks = [] := by
  cases h with
  | refused e =>
    rw [failed_eq]
    exact ⟨rfl, rfl, rfl⟩
  | called _ | stopped _ | emptied _ => exact ⟨rfl, rfl, rfl⟩

theorem queue_settling (d : Desk) (p : Ping) (o : Outcome) (s : Summary) (b : Queue.Response) :
    (heeded d (.settling p o s) b).2.2.queue = d.queue := by
  cases b with
  | error e => rw [heeded, failed_eq]
  | ok reply => rfl

/-- A step asks the queue nothing and leaves it as it is, or the queue answers it. -/
theorem Consulted.request (h : Consulted d m phase a log x m') :
    (log = none ∧ x.2.2.queue = d.queue ∧ m' = m) ∨ ∃ passed r b tr, log = some (r, b) ∧
      Follows (d.queue.attend passed r) m tr (some (b, x.2.2.queue)) m' := by
  cases h with
  | idle _ | entered | stopped _ | answered _ | expired _ | abandoned _ => exact .inl ⟨rfl, rfl, rfl⟩
  | @looked s checked passed _ =>
    refine .inr ⟨passed, _, _, [], rfl, ?_⟩
    rw [(looked_heeded d s _).books.1, Queue.attend_peek]
    exact .done _ _
  | @settled p o s passed b q tr m' hq =>
    refine .inr ⟨passed, _, _, tr, rfl, ?_⟩
    rw [queue_settling]
    exact hq

theorem Consulted.stats (h : Consulted d m phase a log x m') :
    x.2.2.scheduler.stats = (x.1.flatMap Deed.marks).foldl Stats.mark d.scheduler.stats := by
  cases h with
  | idle _ | entered | stopped _ | answered _ | expired _ | abandoned _ => rfl
  | @looked s checked passed _ =>
    obtain ⟨-, hstats, hnone⟩ := (looked_heeded d s (sight d passed)).books
    rw [hstats, hnone]
    rfl
  | @settled p o s passed b q tr m' hq =>
    cases b with
    | error e =>
      refine (congrArg (·.scheduler.stats) (failed_eq { d with queue := q } e)).trans ?_
      cases o <;> rfl
    | ok reply =>
      refine (stats_account { d with queue := q } p s o reply).trans ?_
      rw [heeded, List.flatMap_singleton]

theorem counts_takeTurn (d : Desk) : (takeTurn d).Counts .zero := by
  unfold takeTurn
  split
  · trivial
  · rfl

theorem Consulted.counts {t : Summary} (h : Consulted d m phase a log x m') (hc : phase.Counts t) :
    x.2.1.Counts (x.1.foldl Deed.count t) := by
  have hlooked {s : Summary} {b : Queue.Response} (h : Looked d s b x) (hs : s = t) :
      x.2.1.Counts (x.1.foldl Deed.count t) := by
    cases h with
    | refused e => trivial
    | called _ => exact hs
    | stopped _ | emptied _ =>
      subst hs
      rfl
  cases h with
  | idle _ => exact hc
  | entered =>
    obtain rfl : t = .zero := hc
    exact counts_takeTurn d
  | stopped _ | abandoned _ =>
    obtain rfl : _ = t := hc
    rfl
  | answered _ | expired _ => exact hc
  | looked _ => exact hlooked (looked_heeded d _ _) hc
  | @settled p o s passed b q tr m' hq =>
    cases b with
    | error e => trivial
    | ok reply =>
      obtain rfl : s = t := hc
      exact counts_account { d with queue := q } p s o reply

/-- To look is not counted, and to acknowledge as the queue has answered. -/
theorem Consulted.tally (h : Consulted d m phase a log x m') (t : Summary) :
    x.1.foldl Deed.count t = (log.toList.map fun (r, b) => Deed.acked r b).foldl Deed.count t := by
  cases h with
  | idle _ | entered | stopped _ | answered _ | expired _ | abandoned _ => rfl
  | @looked s checked passed _ =>
    have hlooked := looked_heeded d s (sight d passed)
    generalize sight d passed = b, heeded d (.looking s) (sight d passed) = x at hlooked
    cases hlooked with
    | refused e | called _ | stopped _ | emptied _ => rfl
  | @settled p o s passed b q tr m' hq => cases b <;> rfl

end
end Run

/-! ## The whole course -/

namespace Shift

/-- What the queue has been asked and has answered, by whomever. -/
def Event.request? : Event → Option (Queue.Request × Queue.Response)
  | .asked _ r b | .crew (.request r b) => some (r, b)
  | .crew (.run _ _) | .crew .cancelled | .sent _ _ => none

def requests (es : List Event) : List (Queue.Request × Queue.Response) :=
  es.filterMap Event.request?

def Event.marks : Event → List Stats.Mark
  | .crew (.run _ x) => x.marks
  | .crew (.request _ _) | .crew .cancelled | .asked _ _ _ | .sent _ _ => []

def marks (es : List Event) : List Stats.Mark := es.flatMap Event.marks

/-- What the runs have asked the queue and been answered. -/
def Event.asked? : Event → Option (Nat × Queue.Request × Queue.Response)
  | .asked i r b => some (i, r, b)
  | .crew _ | .sent _ _ => none

def asked (es : List Event) : List (Nat × Queue.Request × Queue.Response) :=
  es.filterMap Event.asked?

theorem requests_append (es es' : List Event) : requests (es ++ es') = requests es ++ requests es' :=
  List.filterMap_append

theorem marks_append (es es' : List Event) : marks (es ++ es') = marks es ++ marks es' :=
  List.flatMap_append

theorem asked_append (es es' : List Event) : asked (es ++ es') = asked es ++ asked es' :=
  List.filterMap_append

theorem asked_told (i : Nat) (log : Option (Queue.Request × Queue.Response))
    (es : List Crew.Event) : asked (told i log ++ es.map .crew) = log.toList.map (i, ·) := by
  have hcrew : asked (es.map .crew) = [] := by
    rw [asked, List.filterMap_map]
    exact List.filterMap_eq_nil_iff.2 fun _ _ => rfl
  rw [asked_append, hcrew, List.append_nil]
  cases log <;> rfl

theorem requests_told (i : Nat) (log : Option (Queue.Request × Queue.Response)) :
    requests (told i log) = log.toList := by
  cases log <;> rfl

theorem marks_told (i : Nat) (log : Option (Queue.Request × Queue.Response)) :
    marks (told i log) = [] := by
  cases log <;> rfl

theorem requests_deeds (i : Nat) (ds : List Run.Deed) :
    requests ((ds.map (Crew.Event.run i)).map .crew) = [] := by
  rw [requests, List.map_map, List.filterMap_map]
  exact List.filterMap_eq_nil_iff.2 fun _ _ => rfl

theorem marks_deeds (i : Nat) (ds : List Run.Deed) :
    marks ((ds.map (Crew.Event.run i)).map .crew) = ds.flatMap Run.Deed.marks := by
  rw [marks, List.map_map, List.flatMap_map]
  rfl

/-- The run has been given the turn, or has returned. -/
def Passing (u : Run.Deed) : Prop := u = .took ∨ ∃ r, u = .returned r

theorem foldl_count_passing {ds : List Run.Deed} (h : ∀ u ∈ ds, Passing u) (t : Summary) :
    ds.foldl Run.Deed.count t = t := by
  induction ds with
  | nil => rfl
  | cons u ds ih =>
    have hu : Run.Deed.count t u = t := by
      rcases h u List.mem_cons_self with rfl | ⟨r, rfl⟩ <;> rfl
    rw [List.foldl_cons, hu]
    exact ih fun v hv => h v (List.mem_cons_of_mem u hv)

/-- What is seen of a run where one of them takes a step. -/
theorem Put.deeds {c c' : Crew} {k : Nat} {x : List Run.Deed × Run.Phase × Desk}
    {es : List Crew.Event} (h : Put c k x es c') (i : Nat) : ∃ rest,
      Shift.deeds i (es.map .crew) = (if i = k then x.1 else []) ++ rest ∧
        ∀ u ∈ rest, Passing u := by
  have hown (ds : List Run.Deed) (tail : List Crew.Event)
      (htail : ∀ j u, .run j u ∈ tail → Passing u) : ∃ rest,
      Shift.deeds i ((ds.map (Crew.Event.run k) ++ tail).map .crew) = (if i = k then ds else []) ++ rest ∧
        ∀ u ∈ rest, Passing u := by
    refine ⟨Shift.deeds i (tail.map .crew), ?_, fun u hu => ?_⟩
    · rw [List.map_append, deeds_append]
      split
      · rename_i hik
        rw [hik, deeds_self]
      · rename_i hik
        rw [deeds_other hik]
    · obtain ⟨e, he, heq⟩ := List.mem_map.1 (mem_deeds.1 hu)
      cases heq
      exact htail i u he
  cases h with
  | goes_on _ =>
    have hgoes := hown ‹_› [] fun _ _ hu => absurd hu List.not_mem_nil
    rwa [List.append_nil] at hgoes
  | ends =>
    refine hown _ _ fun j u hu => ?_
    cases List.mem_singleton.1 hu
    exact .inr ⟨_, rfl⟩
  | hands _ =>
    refine hown _ _ fun j u hu => ?_
    rcases List.mem_cons.1 hu with heq | hu
    · cases heq
      exact .inr ⟨_, rfl⟩
    · cases List.mem_singleton.1 hu
      exact .inl rfl

/-- To return, and to hand the turn on, is not on the books. -/
theorem Put.books {c c' : Crew} {i : Nat} {x : List Run.Deed × Run.Phase × Desk}
    {es : List Crew.Event} (h : Put c i x es c') :
    requests (es.map .crew) = [] ∧ marks (es.map .crew) = x.1.flatMap Run.Deed.marks ∧
      c'.desk.queue = x.2.2.queue ∧ c'.desk.scheduler.stats = x.2.2.scheduler.stats := by
  cases h with
  | goes_on _ => exact ⟨requests_deeds _ _, marks_deeds _ _, rfl, rfl⟩
  | ends | hands _ =>
    refine ⟨?_, ?_, rfl, rfl⟩
    · rw [List.map_append, requests_append, requests_deeds]
      rfl
    · rw [List.map_append, marks_append, marks_deeds]
      exact List.append_nil _

section
variable {s₀ s s' : Shift} {m₀ m m' : Content} {es : List Event}

/-- A move leaves queue and store as they are, or the queue answers one request in it. -/
theorem Moved.request (h : Moved s m es s' m') :
    (requests es = [] ∧ s'.crew.desk.queue = s.crew.desk.queue ∧ m' = m) ∨
      ∃ passed r b tr, requests es = [(r, b)] ∧
        Follows (s.crew.desk.queue.attend passed r) m tr (some (b, s'.crew.desk.queue)) m' := by
  cases h with
  | kept _ | checked _ _ | inquired _ _ _ _ | hired _ | dismissed _ _ | heard _ _ | came | sent _
  | refused _ _ | admitted _ _ | lined _ _ | cancelled => exact .inl ⟨rfl, rfl, rfl⟩
  | requested hf => exact .inr ⟨_, _, _, _, rfl, hf⟩
  | @acted i a phase log x es' c m' hi hb h hput =>
    obtain ⟨hes, -, hqueue, -⟩ := hput.books
    rw [requests_append, requests_told, hes, List.append_nil]
    rcases h.request with ⟨rfl, hsame, hm⟩ | ⟨passed, r, b, tr, rfl, hf⟩
    · exact .inl ⟨rfl, hqueue.trans hsame, hm⟩
    · exact .inr ⟨passed, r, b, tr, rfl, hqueue ▸ hf⟩

theorem Moved.stats (h : Moved s m es s' m') : s'.crew.desk.scheduler.stats =
    (marks es).foldl Stats.mark s.crew.desk.scheduler.stats := by
  cases h with
  | kept _ | checked _ _ | inquired _ _ _ _ | hired _ | dismissed _ _ | heard _ _ | came | sent _
  | refused _ _ | admitted _ _ | lined _ _ | requested _ | cancelled => rfl
  | acted _ _ h hput =>
    obtain ⟨-, hmarks, -, hstats⟩ := hput.books
    rw [marks_append, marks_told, List.nil_append, hmarks, ← h.stats]
    exact hstats

/-- **Queue and store have changed by the requests that were answered and by nothing else.** -/
theorem Course.answered (ho : s₀.Ordered) (h : Course s₀ m₀ es s m) :
    s₀.crew.desk.queue.Answered m₀ (requests es) s.crew.desk.queue m := by
  induction h with
  | start => exact .start
  | move h hf ih =>
    rw [requests_append]
    rcases (moved_of_follows (h.ordered ho) hf).request with
      ⟨hnone, hqueue, rfl⟩ | ⟨passed, r, b, tr, hone, hf⟩
    · rw [hnone, List.append_nil, hqueue]
      exact ih
    · rw [hone]
      exact ih.next hf

/-- **The statistics have counted what was seen.** -/
theorem Course.stats (ho : s₀.Ordered) (h : Course s₀ m₀ es s m) : s.crew.desk.scheduler.stats =
    (marks es).foldl Stats.mark s₀.crew.desk.scheduler.stats := by
  induction h with
  | start => rfl
  | move h hf ih =>
    rw [marks_append, List.foldl_append, ← ih]
    exact (moved_of_follows (h.ordered ho) hf).stats

/-- What has been counted of a run, whether it has come yet or not. -/
def Counts (t : Summary) (phase : Option Run.Phase) : Prop := phase.elim (t = .zero) (·.Counts t)

theorem Viewed.counts {i : Nat} {x y : Option Run.Phase} {ds : List Run.Deed} {t : Summary}
    (h : Viewed s m i x ds y) (hc : Counts t x) : Counts (ds.foldl Run.Deed.count t) y := by
  cases h with
  | same | came | admitted | lined | given => exact hc
  | refused _ => trivial
  | goes_on _ h _ => exact h.counts hc
  | returns _ h =>
    rw [List.foldl_append]
    exact h.counts hc

/-- **A run has counted what it has acknowledged.** -/
theorem Course.counts {d : Desk} (hfree : d.scheduler.turn = .free)
    (h : Course (opened d) m₀ es s m) (i : Nat) :
    Counts (Run.tally (deeds i es)) s.crew.runs[i]? := by
  induction h with
  | start => rfl
  | move h hf ih =>
    rw [deeds_append, Run.tally_append]
    exact ((moved_of_follows (h.ordered (ordered_opened hfree)) hf).view i).counts ih

/-- What the queue has answered a run. -/
def answers (i : Nat) (es : List Event) : List Run.Deed :=
  (asked es).filterMap fun (k, r, b) => if k = i then some (.acked r b) else none

theorem answers_append (i : Nat) (es es' : List Event) :
    answers i (es ++ es') = answers i es ++ answers i es' := by
  rw [answers, asked_append, List.filterMap_append]
  rfl

theorem Moved.tally (h : Moved s m es s' m') (i : Nat) (t : Summary) :
    (deeds i es).foldl Run.Deed.count t = (answers i es).foldl Run.Deed.count t := by
  have hset {k : Nat} {u : Run.Deed} (hu : Passing u) :
      (deeds i (([u].map (Crew.Event.run k)).map .crew)).foldl Run.Deed.count t = t := by
    rcases eq_or_ne i k with rfl | hik
    · rw [deeds_self]
      refine foldl_count_passing (fun v hv => ?_) t
      rwa [List.mem_singleton.1 hv]
    · rw [deeds_other hik]
      rfl
  cases h with
  | kept _ | checked _ _ | inquired _ _ _ _ | hired _ | dismissed _ _ | heard _ _ | came | sent _
  | lined _ _ | requested _ | cancelled => rfl
  | refused _ _ => exact hset (.inr ⟨_, rfl⟩)
  | admitted _ _ => exact hset (.inl rfl)
  | @acted k a phase log x es' c m' hk hb h hput =>
    obtain ⟨rest, hrest, hpassing⟩ := hput.deeds i
    rw [deeds_append, deeds_told, List.nil_append, hrest, List.foldl_append,
      foldl_count_passing hpassing, answers, asked_told]
    split
    · rename_i hik
      rw [h.tally]
      cases log <;> simp [hik]
    · rename_i hik
      cases log <;> simp [Ne.symm hik]

/-- **The summary of a run counts what the queue has answered it.** -/
theorem Course.tally (ho : s₀.Ordered) (h : Course s₀ m₀ es s m) (i : Nat) :
    Run.tally (deeds i es) = Run.tally (answers i es) := by
  induction h with
  | start => rfl
  | move h hf ih =>
    rw [deeds_append, answers_append, Run.tally_append, Run.tally_append, ih]
    exact (moved_of_follows (h.ordered ho) hf).tally i _

end
end Shift
end PingDelivery.Upload
