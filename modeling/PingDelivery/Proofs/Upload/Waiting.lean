import PingDelivery.Proofs.Client.Steps
import PingDelivery.Proofs.Upload.Vigil

/-! # Back-off is waited out

However often the bell rings, a worker whose run has failed recoverably sends no other run before its
back-off is over. The delays grow with the failures in a row, which a run that ends well otherwise ends
and an error leaves as they are. After a run that has found the queue empty the next one follows within
the interval, and at once if the bell has rung.
-/

namespace PingDelivery.Upload
open Store

/-! ## Counting failures -/

/-- What can be counted of them. -/
def Backoff.most : Nat := 0xFFFFFFFF

theorem Backoff.toNat_fail (b : Backoff) (shake : Nat → Nat) {n : Nat}
    (h : b.failures.toNat = min n Backoff.most) :
    (b.fail shake).2.failures.toNat = min (n + 1) Backoff.most := by
  have hmost : Backoff.most = 4294967295 := rfl
  have hlt := b.failures.toNat_lt
  simp only [Backoff.fail]
  split
  · rename_i hfits
    rw [UInt32.toNat_add, h, hmost]
    rw [h, hmost] at hfits
    simp only [UInt32.toNat_one]
    omega
  · rename_i hfull
    rw [h, hmost] at hfull ⊢
    omega

namespace Shift

section
variable (w : Worker) (shake : Nat → Nat) (now : Nat)

theorem heard_failure {s : Summary} (h : s.stopReason = .recoverableFailure) :
    heard w shake now (.ok s) = .resting
      ⟨(w.backoff.fail shake).2, some (now + (w.backoff.fail shake).1.ceilMillis)⟩ := by
  simp [heard, Worker.after, h]

theorem heard_success {s : Summary} (h : s.stopReason ≠ .recoverableFailure) :
    heard w shake now (.ok s) = if s.stopReason = .cancelled then .left
      else .resting ⟨w.backoff.reset, none⟩ := by
  by_cases hc : s.stopReason = .cancelled
  · simp [heard, Worker.after, hc]
  · simp [heard, Worker.after, h, hc]

theorem heard_ne_running (r : Except RunError Summary) (w' : Worker) (i : Nat) :
    heard w shake now r ≠ .running w' i := by
  unfold heard
  split
  split <;> exact fun h => by cases h

theorem heard_error (e : RunError) :
    heard w shake now (.error e) = if e.isFatal then .left else .resting w := by
  cases h : e.isFatal <;> simp [heard, Worker.after, h]

end
end Shift

namespace Vigil

/-- What hearing of a run does to the number of failures in a row. -/
def Doing.tally (n : Nat) : Doing → Nat
  | .heard _ (.ok s) _ => if s.stopReason = .recoverableFailure then n + 1 else 0
  | .heard _ (.error _) _ | .sent _ => n

/-- The recoverable failures in a row: of the runs that the worker has heard of, those that ended so
since it started or since the last one that ended well otherwise. -/
def failures (j : Nat) (log : Log) : Nat := (doings j (log.map (·.2))).foldl Doing.tally 0

theorem doings_append (j : Nat) (log : Log) (t : Nat) (es : List Event) :
    doings j ((log ++ es.map (t, ·)).map (·.2)) = doings j (log.map (·.2)) ++ doings j es := by
  have hes : (es.map (t, ·)).map (·.2) = es := by rw [List.map_map]; exact List.map_id es
  rw [List.map_append, hes, doings, List.filterMap_append]
  rfl

theorem failures_append (j : Nat) (log : Log) (t : Nat) (es : List Event) :
    failures j (log ++ es.map (t, ·)) = (doings j es).foldl Doing.tally (failures j log) := by
  rw [failures, doings_append, List.foldl_append]
  rfl

section
variable {v v' : Vigil} {m m' : Content} {es : List Event} {j : Nat} {log : Log}

/-- The worker has counted `n` failures, as far as it can count. -/
structure Counted (config : Backoff.Config) (n : Nat) (x : Stance) : Prop where
  absent : x = .absent → n = 0
  config : ∀ w, x.worker? = some w → w.backoff.config = config
  failures : ∀ w, x.worker? = some w → w.backoff.failures.toNat = min n Backoff.most

theorem Counted.of_none {config : Backoff.Config} {n : Nat} {x : Stance} (hx : x.worker? = none)
    (habsent : x = .absent → n = 0) : Counted config n x := by
  refine ⟨habsent, fun w hw => ?_, fun w hw => ?_⟩ <;> cases hx.symm.trans hw

theorem Counted.of_some {config : Backoff.Config} {n : Nat} {x : Stance} {w : Worker}
    (hx : x.worker? = some w) (hconfig : w.backoff.config = config)
    (hfailures : w.backoff.failures.toNat = min n Backoff.most) : Counted config n x := by
  refine ⟨fun habsent => ?_, fun w' hw => ?_, fun w' hw => ?_⟩
  · rw [habsent] at hx
    cases hx
  · cases hx.symm.trans hw
    exact hconfig
  · cases hx.symm.trans hw
    exact hfailures

theorem Counted.heard {config : Backoff.Config} {n i : Nat} {w : Worker} {r : Except RunError Summary}
    (hc : Counted config n (.running w i)) (shake : Nat → Nat) (now : Nat) :
    Counted config (Doing.tally n (.heard i r shake)) (.ofPost (Shift.heard w shake now r)) := by
  have hleft (n : Nat) : Counted config n (.ofPost .left) := .of_none rfl fun h => by cases h
  have hconfig := hc.config w rfl
  have hfailures := hc.failures w rfl
  cases r with
  | ok s =>
    by_cases hs : s.stopReason = .recoverableFailure
    · rw [Shift.heard_failure w shake now hs, Doing.tally, if_pos hs]
      exact .of_some rfl hconfig (w.backoff.toNat_fail shake hfailures)
    · rw [Shift.heard_success w shake now hs, Doing.tally, if_neg hs]
      split
      · exact hleft 0
      · exact .of_some rfl hconfig rfl
  | error e =>
    rw [Shift.heard_error, Doing.tally]
    split
    · exact hleft n
    · exact .of_some rfl hconfig hfailures

theorem Counted.turned {n : Nat} {x y : Stance} {ds : List Doing}
    (hc : Counted v.scheduler.plan.backoff n x) (h : Turned v x ds y) :
    Counted v.scheduler.plan.backoff (ds.foldl Doing.tally n) y := by
  cases h with
  | same => exact hc
  | hired =>
    rw [List.foldl_nil, hc.absent rfl]
    exact .of_some rfl rfl rfl
  | lay _ _ | rung _ => exact .of_some rfl (hc.config _ rfl) (hc.failures _ rfl)
  | left _ => exact .of_none rfl fun h => by cases h
  | sent hw _ _ => exact .of_some rfl (hc.config _ hw) (hc.failures _ hw)
  | heard shake _ => exact hc.heard shake v.now

theorem Course.counted {d : Desk} {now : Nat} {m₀ : Content} (hfree : d.scheduler.turn = .free)
    (hsilent : d.scheduler.bell = .silent) (h : Course (opened d now) m₀ log v m) (j : Nat) :
    Counted d.scheduler.plan.backoff (failures j log) (v.stance j) := by
  have ho : (opened d now).shift.Ordered := Shift.ordered_opened hfree
  induction h with
  | start => exact .of_none rfl fun _ => rfl
  | @move log es v v' m m' mv tr h hf ih =>
    have hmoved := moved_of_follows (h.ordered ho) hf
    have hplan : v.scheduler.plan = d.scheduler.plan := h.plan ho
    rw [failures_append]
    rcases (h.attentive ho (attentive_opened hsilent now)).turned hmoved j with
      ⟨-, hturned⟩ | ⟨rfl, -, -, hstance, -⟩
    · rw [← hplan] at ih ⊢
      exact ih.turned hturned
    · rw [hstance]
      exact ih

/-! ## Until the back-off is over -/

theorem Worker.not_listens {w : Worker} {r : Nat} (h : w.retryAt = some r) : w.listens = false := by
  rw [Worker.listens, h]
  rfl

theorem Worker.listens_of_none {w : Worker} (h : w.retryAt = none) : w.listens = true := by
  rw [Worker.listens, h]
  rfl

theorem Worker.le_wakeAt {w : Worker} {r : Nat} (h : w.retryAt = some r) (plan : Plan) (now : Nat) :
    r ≤ w.wakeAt plan now := by
  rw [Worker.wakeAt, h]
  exact Nat.le_max_left r now

/-- The worker waits until `t` at least and hears no bell, or it has left. -/
inductive Barred (t : Nat) : Stance → Prop where
  | idle {w : Worker} {r : Nat} (hw : w.retryAt = some r) (h : t ≤ r) : Barred t (.idle w)
  | asleep {w : Worker} {n : Nap} (hl : w.listens = false) (hr : n.rung = false) (h : t ≤ n.wakeAt) :
      Barred t (.asleep w n)
  | left : Barred t .left

/-- All there is for it to rise for is the timer. -/
theorem Barred.over {t : Nat} {x : Stance} {c : Cause} (hb : Barred t x) (hc : c ≠ .cancelled)
    (hs : v.hasCause x c = true) : t ≤ v.now := by
  cases hb with
  | idle hw h =>
    cases c with
    | cancelled => exact absurd rfl hc
    | timer => exact (h.trans (Worker.le_wakeAt hw _ _)).trans (of_decide_eq_true hs)
    | bell =>
      simp only [hasCause, Worker.not_listens hw, Bool.false_and] at hs
      cases hs
  | asleep hl hr h =>
    cases c with
    | cancelled => exact absurd rfl hc
    | timer => exact h.trans (of_decide_eq_true hs)
    | bell => cases hr.symm.trans hs
  | left => cases hs

theorem Barred.turned {t : Nat} {x y : Stance} {ds : List Doing} (hb : t ≤ v.now ∨ Barred t x)
    (h : Turned v x ds y) : (t ≤ v.now ∨ Barred t y) ∧ ∀ i, .sent i ∈ ds → t ≤ v.now := by
  rcases hb with hle | hb
  · exact ⟨.inl hle, fun _ _ => hle⟩
  · cases h with
    | same => exact ⟨.inr hb, fun _ hi => absurd hi List.not_mem_nil⟩
    | hired | heard _ _ => cases hb
    | lay _ _ =>
      cases hb with
      | idle hw h => exact ⟨.inr (.asleep (Worker.not_listens hw) rfl (h.trans (Worker.le_wakeAt hw _ _))),
          fun _ hi => absurd hi List.not_mem_nil⟩
    | rung hl =>
      cases hb with
      | asleep hl' _ _ => cases hl.symm.trans hl'
    | left _ => exact ⟨.inr .left, fun _ hi => absurd hi List.not_mem_nil⟩
    | sent _ hc hs =>
      have hle := hb.over hc hs
      exact ⟨.inl hle, fun _ _ => hle⟩

/-- A run that the worker has sent, in the log and among what is seen of the worker. -/
theorem mem_doings {i : Nat} : .sent i ∈ doings j es ↔ .shift (.sent j i) ∈ es := by
  constructor
  · intro h
    obtain ⟨e, he, hdoing⟩ := List.mem_filterMap.1 h
    unfold Event.doing? at hdoing
    split at hdoing
    · split at hdoing
      · rename_i hj
        cases hdoing
        exact hj ▸ he
      · cases hdoing
    · split at hdoing <;> cases hdoing
    all_goals cases hdoing
  · intro h
    exact List.mem_filterMap.2 ⟨_, h, if_pos rfl⟩

theorem mem_log {log : Log} {now t : Nat} {e : Event} :
    (t, e) ∈ log ++ es.map (now, ·) ↔ (t, e) ∈ log ∨ t = now ∧ e ∈ es := by
  rw [List.mem_append, List.mem_map]
  refine or_congr Iff.rfl ⟨?_, ?_⟩
  · rintro ⟨e', he', heq⟩
    cases heq
    exact ⟨rfl, he'⟩
  · rintro ⟨rfl, he⟩
    exact ⟨e, he, rfl⟩

/-- A worker that is barred until `t` sends nothing before. -/
theorem Course.barred {u : Vigil} {m₀ : Content} {t : Nat} (ho : u.shift.Ordered) (ha : u.Attentive)
    (hb : Barred t (u.stance j)) (h : Course u m₀ log v m) :
    (t ≤ v.now ∨ Barred t (v.stance j)) ∧ ∀ t' i, (t', .shift (.sent j i)) ∈ log → t ≤ t' := by
  induction h with
  | start => exact ⟨.inr hb, fun _ _ h => absurd h List.not_mem_nil⟩
  | move h hf ih =>
    obtain ⟨hbarred, hsent⟩ := ih
    rcases (h.attentive ho ha).turned (moved_of_follows (h.ordered ho) hf) j with
      ⟨hnow, hturned⟩ | ⟨rfl, hnow, -, hstance, -⟩
    · obtain ⟨hafter, hdoings⟩ := Barred.turned hbarred hturned
      rw [hnow]
      refine ⟨hafter, fun t' i hi => ?_⟩
      rcases mem_log.1 hi with hold | ⟨rfl, hnew⟩
      · exact hsent t' i hold
      · exact hdoings i (mem_doings.2 hnew)
    · rw [hstance]
      refine ⟨hbarred.imp (fun hle => hle.trans hnow.le) id, fun t' i hi => hsent t' i ?_⟩
      simpa using hi

/-! ## Until the interval is over -/

/-- The worker waits until `t` at most. -/
inductive Due (plan : Plan) (now t : Nat) : Stance → Prop where
  | idle {w : Worker} (hw : w.retryAt = none) (h : now + plan.interval.ceilMillis = t) :
      Due plan now t (.idle w)
  | asleep {w : Worker} {n : Nap} (hn : n.wakeAt = t) (h : now ≤ t) : Due plan now t (.asleep w n)

theorem Worker.wakeAt_of_none {w : Worker} (h : w.retryAt = none) (plan : Plan) (now : Nat) :
    w.wakeAt plan now = now + plan.interval.ceilMillis := by
  rw [Worker.wakeAt, h]

/-- The worker sets its timer to `t`, or has set it. -/
inductive Timed (plan : Plan) (now t : Nat) : Stance → Prop where
  | idle {w : Worker} (h : w.wakeAt plan now = t) : Timed plan now t (.idle w)
  | asleep {w : Worker} {n : Nap} (hn : n.wakeAt = t) (h : now ≤ t) : Timed plan now t (.asleep w n)

theorem Due.timed {plan : Plan} {now t : Nat} {x : Stance} (hd : Due plan now t x) :
    Timed plan now t x := by
  cases hd with
  | idle hw h => exact .idle ((Worker.wakeAt_of_none hw plan now).trans h)
  | asleep hn h => exact .asleep hn h

theorem Worker.now_le_wakeAt (w : Worker) (plan : Plan) (now : Nat) : now ≤ w.wakeAt plan now := by
  cases hr : w.retryAt with
  | none =>
    rw [Worker.wakeAt_of_none hr]
    exact Nat.le_add_right _ _
  | some r =>
    rw [Worker.wakeAt, hr]
    exact Nat.le_max_right r now

theorem Timed.le {plan : Plan} {now t : Nat} {x : Stance} (hd : Timed plan now t x) : now ≤ t := by
  cases hd with
  | idle h => exact h ▸ Worker.now_le_wakeAt _ _ _
  | asleep _ h => exact h

/-- When it is time the worker can rise. -/
theorem Timed.over {x : Stance} (hd : Timed v.scheduler.plan v.now v.now x) :
    v.hasCause x .timer = true := by
  cases hd with
  | idle h => exact decide_eq_true h.le
  | asleep hn _ => exact decide_eq_true hn.le

theorem Timed.turned {t : Nat} {x y : Stance} {ds : List Doing}
    (hd : Timed v.scheduler.plan v.now t x) (h : Turned v x ds y) :
    v.scheduler.cancelled = true ∨ (∃ i, .sent i ∈ ds) ∨ Timed v.scheduler.plan v.now t y := by
  cases h with
  | same => exact .inr (.inr hd)
  | hired | heard _ _ => cases hd
  | lay _ _ =>
    have hle := hd.le
    cases hd with
    | idle h => exact .inr (.inr (.asleep h hle))
  | rung _ =>
    cases hd with
    | asleep hn h => exact .inr (.inr (.asleep hn h))
  | left hs => exact .inl (cancelled_of_hasCause hs)
  | sent _ _ _ => exact .inr (.inl ⟨_, List.mem_singleton_self _⟩)

/-- A worker whose timer is set to `t` has sent a run by then, unless somebody has cancelled. -/
theorem Course.timed {u : Vigil} {m₀ : Content} {t : Nat} (ho : u.shift.Ordered) (ha : u.Attentive)
    (hd : Timed u.scheduler.plan u.now t (u.stance j)) (h : Course u m₀ log v m) :
    v.scheduler.cancelled = true ∨ (∃ t' i, (t', .shift (.sent j i)) ∈ log ∧ t' ≤ t) ∨
      Timed v.scheduler.plan v.now t (v.stance j) := by
  induction h with
  | start => exact .inr (.inr hd)
  | @move log es v v' m m' mv tr h hf ih =>
    have hmoved := moved_of_follows (h.ordered ho) hf
    obtain ⟨hplan, hstays⟩ := hmoved.scheduler
    rcases ih with hc | ⟨t', i, hi, hle⟩ | hd
    · exact .inl (hstays hc)
    · exact .inr (.inl ⟨t', i, List.mem_append_left _ hi, hle⟩)
    · rcases (h.attentive ho ha).turned hmoved j with
        ⟨hnow, hturned⟩ | ⟨rfl, -, -, hstance, hwaits⟩
      · rw [hplan, hnow]
        rcases hd.turned hturned with hc | ⟨i, hi⟩ | hd'
        · exact .inl (hstays hc)
        · exact .inr (.inl ⟨v.now, i, mem_log.2 (.inr ⟨rfl, mem_doings.1 hi⟩), hd.le⟩)
        · exact .inr (.inr hd')
      · rw [hplan, hstance]
        refine .inr (.inr ?_)
        generalize v.stance j = x at hd hwaits
        cases hd with
        | idle _ => cases hwaits
        | asleep hn _ =>
          simp only [waits, Bool.and_eq_true, decide_eq_true_eq] at hwaits
          exact .asleep hn (hn ▸ hwaits.2)

/-! ## While a ring is kept -/

/-- The worker is about to lie down at `t` and will hear the ring that is kept. -/
structure Called (v : Vigil) (j t : Nat) : Prop where
  now : v.now = t
  kept : v.scheduler.bell.kept = true
  idle : ∃ w, v.stance j = .idle w ∧ w.listens = true

theorem Called.over (hc : Called v j v.now) : v.hasCause (v.stance j) .bell = true := by
  obtain ⟨w, hw, hl⟩ := hc.idle
  rw [hw]
  exact Bool.and_eq_true_iff.2 ⟨hl, hc.kept⟩

/-- A ring that is kept is used by a worker that sends a run, if at all. -/
theorem Moved.kept_or_sent (h : Moved v m es v' m') (hk : v.scheduler.bell.kept = true) :
    v'.scheduler.bell.kept = true ∨ ∃ k i, .shift (.sent k i) ∈ es := by
  cases h with
  | inside h _ _ =>
    obtain ⟨turn, stats, suspended, cancelled, hscheduler, -⟩ := h.scheduler
    rw [Vigil.scheduler, hscheduler]
    exact .inl hk
  | hired | passed _ _ | kept | heard _ _ _ => exact .inl hk
  | rang =>
    obtain ⟨bell, naps, hring, -, hkept, -⟩ := ring_cases v
    rw [hring]
    exact .inl (hkept hk)
  | lay _ _ _ hbell =>
    subst hbell
    exact .inl hk
  | left hs =>
    obtain ⟨bell, naps, hup, -, -, hkept, -⟩ := getUp_cases (kept_of_hasCause hs)
    rw [hup]
    exact .inl (hkept (by decide) hk)
  | sent _ _ _ => exact .inr ⟨_, _, List.mem_singleton_self _⟩

theorem Course.called {u : Vigil} {m₀ : Content} (ho : u.shift.Ordered) (ha : u.Attentive)
    (hc : Called u j u.now) (h : Course u m₀ log v m) :
    v.scheduler.cancelled = true ∨ (∃ k i, (u.now, .shift (.sent k i)) ∈ log) ∨ Called v j u.now := by
  induction h with
  | start => exact .inr (.inr hc)
  | @move log es v v' m m' mv tr h hf ih =>
    have hmoved := moved_of_follows (h.ordered ho) hf
    obtain ⟨-, hstays⟩ := hmoved.scheduler
    rcases ih with hcancelled | ⟨k, i, hi⟩ | ⟨hnow, hk, w, hw, hl⟩
    · exact .inl (hstays hcancelled)
    · exact .inr (.inl ⟨k, i, List.mem_append_left _ hi⟩)
    · have hsent {k i : Nat} (hi : .shift (.sent k i) ∈ es) :
          ∃ k i, (u.now, .shift (.sent k i)) ∈ log ++ es.map (v.now, ·) :=
        ⟨k, i, mem_log.2 (.inr ⟨hnow.symm, hi⟩)⟩
      rcases hmoved.kept_or_sent hk with hk' | ⟨k, i, hi⟩
      · rcases (h.attentive ho ha).turned hmoved j with ⟨hnow', hturned⟩ | ⟨-, -, -, -, hwaits⟩
        · rw [hw] at hturned
          generalize hy : v'.stance j = y at hturned
          generalize hds : doings j es = ds at hturned
          cases hturned with
          | same => exact .inr (.inr ⟨hnow'.trans hnow, hk', w, hy, hl⟩)
          | lay _ hb =>
            rw [hl, hk] at hb
            cases hb
          | left hs => exact .inl (hstays (cancelled_of_hasCause hs))
          | sent _ _ _ =>
            have hi : .sent _ ∈ doings j es := hds ▸ List.mem_singleton_self _
            exact .inr (.inl (hsent (mem_doings.1 hi)))
        · rw [hw] at hwaits
          cases hwaits
      · exact .inr (.inl (hsent hi))

/-! ## When a run has ended -/

theorem finished_or_returned {s s' : Shift} {es : List Shift.Event} {i : Nat}
    {r : Except RunError Summary} (h : s.Moved m es s' m')
    (hi : s'.crew.runs[i]? = some (.finished r)) :
    s.crew.runs[i]? = some (.finished r) ∨ .crew (.run i (.returned r)) ∈ es := by
  have hview := h.view i
  rw [hi] at hview
  generalize hx : s.crew.runs[i]? = x, hds : Shift.deeds i es = ds at hview
  cases hview with
  | same => exact .inl rfl
  | refused _ => exact .inr (Shift.mem_deeds.1 (hds ▸ List.mem_singleton_self _))
  | goes_on _ _ hgo => exact absurd rfl (hgo r)
  | returns _ _ =>
    exact .inr (Shift.mem_deeds.1 (hds ▸ List.mem_append_right _ (List.mem_singleton_self _)))

theorem Moved.finished_or_returned {i : Nat} {r : Except RunError Summary} (h : Moved v m es v' m')
    (hi : v'.shift.crew.runs[i]? = some (.finished r)) :
    v.shift.crew.runs[i]? = some (.finished r) ∨ .shift (.crew (.run i (.returned r))) ∈ es := by
  cases h with
  | inside h _ _ =>
    exact (Vigil.finished_or_returned h hi).imp id fun hmem => List.mem_map.2 ⟨_, hmem, rfl⟩
  | hired | passed _ _ | kept | heard _ _ _ | lay _ _ _ _ => exact .inl hi
  | rang =>
    obtain ⟨bell, naps, hring, -⟩ := ring_cases v
    rw [hring] at hi
    exact .inl hi
  | left hs =>
    obtain ⟨bell, naps, hup, -⟩ := getUp_cases (kept_of_hasCause hs)
    rw [hup] at hi
    exact .inl hi
  | sent _ _ hs =>
    rcases Crew.getElem?_concat.1 hi with hi | ⟨-, harriving⟩
    · exact .inl hi
    · cases harriving

/-- The worker has sent the run that it waits for, and if the run has ended it has ended just now. -/
def Fresh (log : Log) (v : Vigil) (j : Nat) : Prop :=
  ∀ w i, v.stance j = .running w i → (∃ t, (t, .shift (.sent j i)) ∈ log) ∧
    ∀ r, v.shift.crew.runs[i]? = some (.finished r) →
      (v.now, .shift (.crew (.run i (.returned r)))) ∈ log

theorem Course.fresh {u : Vigil} {m₀ : Content} (ho : u.shift.Ordered) (ha : u.Attentive)
    (hu : ∀ w i, u.stance j ≠ .running w i) (h : Course u m₀ log v m) : Fresh log v j := by
  induction h with
  | start => exact fun w i hw => absurd hw (hu w i)
  | @move log es v v' m m' mv tr h hf ih =>
    have hmoved := moved_of_follows (h.ordered ho) hf
    intro w i hw
    rcases (h.attentive ho ha).turned hmoved j with ⟨hnow, hturned⟩ | ⟨rfl, -, hshift, hstance, hwaits⟩
    · have hreturned {r : Except RunError Summary}
          (hold : v.shift.crew.runs[i]? = some (.finished r) →
            (v.now, .shift (.crew (.run i (.returned r)))) ∈ log)
          (hi : v'.shift.crew.runs[i]? = some (.finished r)) :
          (v'.now, .shift (.crew (.run i (.returned r)))) ∈ log ++ es.map (v.now, ·) := by
        rw [hnow]
        rcases hmoved.finished_or_returned hi with hi | hmem
        · exact List.mem_append_left _ (hold hi)
        · exact mem_log.2 (.inr ⟨rfl, hmem⟩)
      generalize hx : v.stance j = x, hds : doings j es = ds, v'.stance j = y at hturned hw
      cases hturned with
      | hired | lay _ _ | rung _ | left _ => cases hw
      | same =>
        obtain ⟨⟨t, hsent⟩, hfinished⟩ := ih w i (hx.trans hw)
        exact ⟨⟨t, List.mem_append_left _ hsent⟩, fun r hi => hreturned (hfinished r) hi⟩
      | sent _ _ _ =>
        cases hw
        have hsent : .sent v.shift.crew.runs.length ∈ doings j es := hds ▸ List.mem_singleton_self _
        refine ⟨⟨v.now, mem_log.2 (.inr ⟨rfl, mem_doings.1 hsent⟩)⟩, fun r hi => hreturned ?_ hi⟩
        intro hold
        cases (List.getElem?_eq_none (Nat.le_refl _)).symm.trans hold
      | @heard w₀ i₀ r shake _ =>
        generalize hpost : Shift.heard w₀ shake v.now r = post at hw
        cases post with
        | running w₁ i₁ => exact absurd hpost (Shift.heard_ne_running w₀ shake v.now r w₁ i₁)
        | _ => cases hw
    · rw [hstance] at hw
      obtain ⟨⟨t, hsent⟩, -⟩ := ih w i hw
      refine ⟨⟨t, List.mem_append_left _ hsent⟩, fun r hi => ?_⟩
      rw [hshift] at hi
      rw [hw] at hwaits
      simp [waits, hi] at hwaits

theorem Moved.sent_lt (h : Moved v m es v' m') :
    v.shift.posts.length ≤ v'.shift.posts.length ∧
      ∀ k i, .shift (.sent k i) ∈ es → k < v'.shift.posts.length := by
  have hnone (k i : Nat) (h : Event.shift (.sent k i) ∈ ([] : List Event)) :
      k < v'.shift.posts.length := absurd h List.not_mem_nil
  cases h with
  | inside h _ hposts =>
    refine ⟨by rw [hposts], fun k i hmem => ?_⟩
    exact absurd (mem_doings.2 hmem) (by rw [doings_inside h hposts k]; exact List.not_mem_nil)
  | hired => exact ⟨by rw [List.length_append]; exact Nat.le_add_right _ _, hnone⟩
  | rang =>
    obtain ⟨bell, naps, hring, -⟩ := ring_cases v
    rw [hring]
    refine ⟨Nat.le_refl _, fun k i hmem => ?_⟩
    cases List.mem_singleton.1 hmem
  | lay _ _ _ _ | passed _ _ | kept => exact ⟨Nat.le_refl _, hnone⟩
  | left _ => exact ⟨(List.length_set ..).ge, hnone⟩
  | @sent j w c hj _ _ =>
    refine ⟨(List.length_set ..).ge, fun k i hmem => ?_⟩
    cases List.mem_singleton.1 hmem
    exact (List.getElem?_eq_some_iff.1 hj).1.trans_le (List.length_set ..).ge
  | heard _ _ _ =>
    refine ⟨(List.length_set ..).ge, fun k i hmem => ?_⟩
    cases List.mem_singleton.1 hmem

/-- Runs are sent by those who have a post, and nobody loses it. -/
theorem Course.sent_lt {u : Vigil} {m₀ : Content} (ho : u.shift.Ordered) (h : Course u m₀ log v m) :
    u.shift.posts.length ≤ v.shift.posts.length ∧
      ∀ t k i, (t, .shift (.sent k i)) ∈ log → k < v.shift.posts.length := by
  induction h with
  | start => exact ⟨Nat.le_refl _, fun _ _ _ h => absurd h List.not_mem_nil⟩
  | move h hf ih =>
    obtain ⟨hle, hsent⟩ := (moved_of_follows (h.ordered ho) hf).sent_lt
    refine ⟨ih.1.trans hle, fun t k i hi => ?_⟩
    rcases mem_log.1 hi with hi | ⟨-, hi⟩
    · exact (ih.2 t k i hi).trans_le hle
    · exact hsent k i hi

theorem Attentive.stance_hear (ha : v.Attentive) {w : Worker} {i : Nat} {r : Except RunError Summary}
    (hj : v.shift.posts[j]? = some (.running w i))
    (hi : v.shift.crew.runs[i]? = some (.finished r)) (shake : Nat → Nat) :
    (v.hear j shake).2.stance j = .ofPost (Shift.heard w shake v.now r) := by
  simp only [hear, hj, hi, shift_hear hj hi]
  exact stance_of_post (List.getElem?_set_self (List.getElem?_eq_some_iff.1 hj).1) (ha.not_asleep hj)

/-- A worker that has cause to rise leaves or sends a run. -/
theorem rise_cases {c : Cause} (hs : v.hasCause (v.stance j) c = true) :
    if c = .cancelled then (v.rise j c).1 = [] ∧ (v.rise j c).2.stance j = .left
    else (v.rise j c).1 = [.shift (.sent j v.shift.crew.runs.length)] ∧
      ∃ w, (v.rise j c).2.stance j = .running w v.shift.crew.runs.length := by
  obtain ⟨w, hj⟩ := posts_of_rests (rests_of_hasCause hs)
  obtain ⟨bell, naps, hup, hnap, -⟩ := getUp_cases (kept_of_hasCause hs)
  have hpost (post : Post) : (v.shift.posts.set j post)[j]? = some post :=
    List.getElem?_set_self (List.getElem?_eq_some_iff.1 hj).1
  rw [rise_eq hj hs, hup]
  split
  · exact ⟨rfl, congrArg₂ Stance.of (hpost .left) hnap⟩
  · exact ⟨rfl, w, congrArg₂ Stance.of (hpost _) hnap⟩

theorem rise_sends {c : Cause} (hc : c ≠ .cancelled) (hs : v.hasCause (v.stance j) c = true) :
    ∃ i, (v.rise j c).1 = [.shift (.sent j i)] := by
  have hrise := rise_cases hs
  rw [if_neg hc] at hrise
  exact ⟨_, hrise.1⟩

/-- The worker has sent a run by `t`; or it is not later than that yet, and at `t` it can send one. -/
def SendsBy (v : Vigil) (log : Log) (j t : Nat) : Prop :=
  (∃ t' i, (t', .shift (.sent j i)) ∈ log ∧ t' ≤ t) ∨
    v.now ≤ t ∧ (v.now = t → ∃ c i, (v.rise j c).1 = [.shift (.sent j i)])

theorem Course.sends_on_time {u : Vigil} {m₀ : Content} {t : Nat} (ho : u.shift.Ordered)
    (ha : u.Attentive) (hd : Timed u.scheduler.plan u.now t (u.stance j)) (h : Course u m₀ log v m)
    (hc : v.scheduler.cancelled = false) : v.SendsBy log j t := by
  rcases h.timed ho ha hd with hcancelled | hsent | htimed
  · cases hc.symm.trans hcancelled
  · exact .inl hsent
  · refine .inr ⟨htimed.le, fun hv => ⟨.timer, rise_sends (by decide) ?_⟩⟩
    rw [← hv] at htimed
    exact htimed.over

theorem Course.sends_by_due {u : Vigil} {m₀ : Content} {t : Nat} (ho : u.shift.Ordered)
    (ha : u.Attentive) (hd : Due u.scheduler.plan u.now t (u.stance j)) (h : Course u m₀ log v m)
    (hc : v.scheduler.cancelled = false) : v.SendsBy log j t := h.sends_on_time ho ha hd.timed hc

theorem Course.sends_when_called {u : Vigil} {m₀ : Content} (ho : u.shift.Ordered)
    (ha : u.Attentive) (hj : j < u.shift.posts.length) (hcalled : Called u j u.now)
    (h : Course u m₀ log v m) (hc : v.scheduler.cancelled = false)
    (hone : v.shift.posts.length = 1) : v.SendsBy log j u.now := by
  rcases h.called ho ha hcalled with hcancelled | ⟨k, i, hmem⟩ | hcalled
  · cases hc.symm.trans hcancelled
  · -- nobody else could have used the ring
    obtain ⟨hle, hlt⟩ := h.sent_lt ho
    have hk := hlt _ k i hmem
    obtain rfl : k = j := by omega
    exact .inl ⟨_, i, hmem, Nat.le_refl _⟩
  · refine .inr ⟨hcalled.now.le, fun hv => ⟨.bell, rise_sends (by decide) ?_⟩⟩
    rw [← hv] at hcalled
    exact hcalled.over

theorem nanos_le_of_ceilMillis {now t : Nat} {s : Span} (h : now + s.ceilMillis ≤ t) :
    (Span.ofMillis now).nanos + s.nanos ≤ (Span.ofMillis t).nanos := by
  simp only [Span.ofMillis, Span.ceilMillis] at h ⊢
  omega

/-- What comes of a run of the worker `w` in the place `j`. It has ended with `r` when `log₁` had been
seen and had led to `v₁`, and since it has been heard of `log` has been seen and has led to `v`. -/
structure Aftermath (plan : Plan) (log₁ : Log) (v₁ : Vigil) (j i : Nat) (w : Worker)
    (r : Except RunError Summary) (shake : Nat → Nat) (log : Log) (v : Vigil) : Prop where
  sent : ∃ t, (t, .shift (.sent j i)) ∈ log₁
  returned : (v₁.now, .shift (.crew (.run i (.returned r)))) ∈ log₁
  counted : w.backoff.failures.toNat = min (failures j log₁) Backoff.most
  waits : ∀ s, r = .ok s → s.stopReason = .recoverableFailure →
    ∀ t k, (t, .shift (.sent j k)) ∈ log →
      (Span.ofMillis v₁.now).nanos + (Backoff.delay plan.backoff shake
        (.ofNat (min (failures j log₁) Backoff.most))).nanos ≤ (Span.ofMillis t).nanos
  counts : ∀ s, r = .ok s → s.stopReason = .recoverableFailure →
    ∃ w', (v₁.hear j shake).2.stance j = .idle w' ∧
      w'.backoff.failures.toNat = min (failures j log₁ + 1) Backoff.most
  resets : ∀ s, r = .ok s → s.stopReason = .queueEmpty →
    ∃ w', (v₁.hear j shake).2.stance j = .idle w' ∧ w'.backoff.failures = 0
  punctual : ∀ s, r = .ok s → s.stopReason = .queueEmpty → v.scheduler.cancelled = false →
    v.SendsBy log j (v₁.now + plan.interval.ceilMillis)
  at_once : ∀ s, r = .ok s → s.stopReason = .queueEmpty → v.scheduler.cancelled = false →
    v₁.scheduler.bell.kept = true → v.shift.posts.length = 1 → v.SendsBy log j v₁.now
  keeps : ∀ e, r = .error e → e.isFatal = false → (v₁.hear j shake).2.stance j = .idle w

/-- **Back-off is waited out.** Whatever is done meanwhile, a worker whose run has failed recoverably
sends no other before the delay is over that belongs to its failures in a row. A run that ends on an
empty queue ends the row and is followed by another within the interval, and at once if a ring is kept;
an error that is not fatal leaves the row as it is. -/
theorem back_off_is_waited_out {d : Desk} {now : Nat} {m₀ m₁ : Content} {log₁ : Log} {v₁ : Vigil}
    {i : Nat} {w : Worker} {r : Except RunError Summary} (hfree : d.scheduler.turn = .free)
    (hsilent : d.scheduler.bell = .silent) (h₁ : Course (opened d now) m₀ log₁ v₁ m₁)
    (hj : v₁.shift.posts[j]? = some (.running w i))
    (hi : v₁.shift.crew.runs[i]? = some (.finished r)) (shake : Nat → Nat)
    (h : Course (v₁.hear j shake).2 m₁ log v m) :
    Aftermath d.scheduler.plan log₁ v₁ j i w r shake log v := by
  have ho₁ := h₁.ordered (Shift.ordered_opened hfree)
  have ha₁ := h₁.attentive (Shift.ordered_opened hfree) (attentive_opened hsilent now)
  have hstance : v₁.stance j = .running w i := stance_of_post hj (ha₁.not_asleep hj)
  have hheard : v₁.hear j shake = ([.heard j i r shake], { v₁ with shift := { v₁.shift with
      posts := v₁.shift.posts.set j (Shift.heard w shake v₁.now r) } }) := by
    simp only [hear, hj, hi, shift_hear hj hi]
  have hmoved : Moved v₁ m₁ _ (v₁.hear j shake).2 m₁ := moved_of_hear j shake
  have ho := hmoved.ordered ho₁
  have ha := ha₁.moved hmoved
  have hplan : v₁.scheduler.plan = d.scheduler.plan := h₁.plan (Shift.ordered_opened hfree)
  have hafter := ha₁.stance_hear hj hi shake
  have hcounted := h₁.counted hfree hsilent j
  rw [hstance] at hcounted
  obtain ⟨hsent, hreturned⟩ := h₁.fresh (Shift.ordered_opened hfree) (attentive_opened hsilent now)
    (fun _ _ h => by cases h) w i hstance
  have hidle {s : Summary} (hr : r = .ok s) (hs : s.stopReason = .queueEmpty) :
      (v₁.hear j shake).2.stance j = .idle ⟨w.backoff.reset, none⟩ := by
    rw [hafter, hr, Shift.heard_success w shake v₁.now (by rw [hs]; decide), hs]
    rfl
  have hretry {s : Summary} (hr : r = .ok s) (hs : s.stopReason = .recoverableFailure) :
      (v₁.hear j shake).2.stance j = .idle ⟨(w.backoff.fail shake).2,
        some (v₁.now + (w.backoff.fail shake).1.ceilMillis)⟩ := by
    rw [hafter, hr, Shift.heard_failure w shake v₁.now hs]
    rfl
  have hnow : (v₁.hear j shake).2.now = v₁.now := by rw [hheard]
  have hplan' : (v₁.hear j shake).2.scheduler.plan = d.scheduler.plan :=
    hmoved.scheduler.1.trans hplan
  refine ⟨hsent, hreturned r hi, hcounted.failures w rfl, fun s hr hs t k hk => ?_,
    fun s hr hs => ⟨_, hretry hr hs, w.backoff.toNat_fail shake (hcounted.failures w rfl)⟩,
    fun s hr hs => ⟨_, hidle hr hs, rfl⟩, fun s hr hs hc => ?_, fun s hr hs hc hk hone => ?_,
    fun e hr he => ?_⟩
  · have hbarred : Barred (v₁.now + (w.backoff.fail shake).1.ceilMillis)
        ((v₁.hear j shake).2.stance j) := hretry hr hs ▸ .idle rfl (Nat.le_refl _)
    have hdelay : (w.backoff.fail shake).1 = Backoff.delay d.scheduler.plan.backoff shake
        (.ofNat (min (failures j log₁) Backoff.most)) := by
      rw [← hcounted.failures w rfl, UInt32.ofNat_toNat, ← hcounted.config w rfl]
      rfl
    rw [← hdelay]
    exact nanos_le_of_ceilMillis ((h.barred ho ha hbarred).2 t k hk)
  · have hdue : Due (v₁.hear j shake).2.scheduler.plan (v₁.hear j shake).2.now
        (v₁.now + d.scheduler.plan.interval.ceilMillis) ((v₁.hear j shake).2.stance j) := by
      rw [hidle hr hs, hnow, hplan']
      exact .idle rfl rfl
    exact h.sends_by_due ho ha hdue hc
  · have hcalled : Called (v₁.hear j shake).2 j (v₁.hear j shake).2.now :=
      ⟨rfl, by rw [hheard]; exact hk, _, hidle hr hs, rfl⟩
    have hplace : j < (v₁.hear j shake).2.shift.posts.length := by
      rw [hheard, List.length_set]
      exact (List.getElem?_eq_some_iff.1 hj).1
    exact hnow ▸ h.sends_when_called ho ha hplace hcalled hc hone
  · rw [hafter, hr, Shift.heard_error, he]
    rfl

end

theorem ceilMillis_first : (Backoff.delay .standard id 0).ceilMillis = 1000 := by decide +kernel

/-- A worker's first run fails recoverably. The bell is rung at once, and the next run is sent when the
second is over that the worker has to wait. -/
theorem waits_a_second : ∃ (d : Desk) (log₁ log : Log) (v₁ v : Vigil) (m₁ m : Content) (w : Worker)
    (r : Except RunError Summary),
    d.scheduler.turn = .free ∧ d.scheduler.bell = .silent ∧
      Course (opened d 0) (fun _ => none) log₁ v₁ m₁ ∧
      v₁.shift.posts[0]? = some (.running w 0) ∧ v₁.shift.crew.runs[0]? = some (.finished r) ∧
      r = .ok ⟨0, 0, 1, 0, .recoverableFailure⟩ ∧
      Course (v₁.hear 0 id).2 m₁ log v m ∧ log = [(0, .rang), (1000, .shift (.sent 0 1))] ∧
      Aftermath d.scheduler.plan log₁ v₁ 0 0 w r id log v := by
  let d : Desk := { Client.plain.desk with queue := .restored .standard [Queue.blank] 0 0 }
  let d' : Desk := ⟨{ d.scheduler with stats := ⟨0, 1, 0, 0, 0⟩ },
    .restored .standard [Queue.blank.attempted] 0 0⟩
  let failed (found : Nat → Found) (post : Post) : Vigil :=
    ⟨⟨⟨d', [.finished (.ok ⟨0, 0, 1, 0, .recoverableFailure⟩)]⟩, found, [post]⟩, 0, fun _ => none⟩
  have h : Course (opened d 0) (fun _ => none) [] _ _ := .start
  have h := h.step .hire (.done _ _)
  have h := h.step .ring (.done _ _)
  have h := h.step (.rise 0 .bell) (.done _ _)
  have h := h.step (.crew (.ask 0)) (.done _ _)
  have h := h.step (.crew (.act 0 .enter)) (.done _ _)
  have h := h.step (.crew (.act 0 (.look false false))) (.tell (.done _ _))
  have h := h.step (.crew (.act 0 (.hear (.recoverable "")))) (.done _ _)
  obtain ⟨found, log₁, m₁, h₁⟩ : ∃ found log₁ m₁, Course (opened d 0) _ log₁
      (failed found (.running (.start d.scheduler.plan) 0)) m₁ :=
    ⟨_, _, _, h.step (.crew (.act 0 (.settle false)))
      (.call (.answered (c := .put _ _) () trivial) (.tell (.done _ _)))⟩
  have hheard : ((failed found (.running (.start d.scheduler.plan) 0)).hear 0 id).2 =
      failed found (.resting ⟨⟨.standard, 1⟩, some (0 + 1000)⟩) := by
    rw [← ceilMillis_first]
    rfl
  have h : Course (failed found (.resting ⟨⟨.standard, 1⟩, some (0 + 1000)⟩)) m₁ [] _ _ := .start
  have h := h.step .ring (.done _ _)
  have h := h.step (.lie 0) (.done _ _)
  have h := h.step (.pass 1000) (.done _ _)
  have h : Course _ _ [(0, .rang), (1000, .shift (.sent 0 1))] _ _ :=
    h.step (.rise 0 .timer) (.done _ _)
  rw [← hheard] at h
  exact ⟨d, _, _, _, _, _, _, _, _, rfl, rfl, h₁, rfl, rfl, rfl, h, rfl,
    back_off_is_waited_out rfl rfl h₁ rfl rfl id h⟩

end Vigil
end PingDelivery.Upload
