import Mathlib.Data.List.Forall2
import PingDelivery.Proofs.Buffer.Timeline

/-! # Putting back as if nothing had been taken out

What is recorded between the taking out of a snapshot and its return comes to the same as if it had been
recorded with nothing taken out. For one recording this is `merged_measured`: to merge a metric and then
to record it is to record it and then to merge it, if counters are only added to and hold nothing
negative and nothing else is ever a counter (`Suits`). A window without the snapshot and one with it
(`Beside`) then stay side by side through all recordings, and the return makes one of the other.
-/

namespace PingDelivery

/-- The metric may stand under its id: counters under the ids that are counted, and not below zero, all
else under the other ids. -/
def Metric.Suits (counted : Prop) : Metric → Prop
  | .counter n => counted ∧ 0 ≤ n.toInt
  | .quantity _ | .boolean _ | .string _ | .stringList _ => ¬ counted

namespace Buffer
open Time (Instant)
open Window (merged)

/-- Every metric that is there suits its id. -/
def Suitable (counted : String → Prop) (metrics : String → Option Metric) : Prop :=
  ∀ id m, metrics id = some m → m.Suits (counted id)

/-- Ids that are counted are added to, by no negative amount, and all others are set, to no counter. -/
def Act.Suits (counted : String → Prop) : Act → Prop
  | set id m => ¬ counted id ∧ ∀ n, m ≠ .counter n
  | add id amount => counted id ∧ 0 ≤ amount.toInt
  | record _ | take => True

variable {counted : String → Prop} {ping : String} {limit limit' : Nat} {b b' : Buffer} {o : Operation}
  {a : Act} {w w' : Window} {s : Snapshot} {d : Drained} {newer older : Option Metric} {id : String}

/-! ## One metric -/

theorem suits_of_not_counter {m : Metric} {p : Prop} (hm : ∀ n, m ≠ .counter n) (hp : ¬ p) :
    m.Suits p := by
  cases m with
  | counter n => exact absurd rfl (hm n)
  | _ => exact hp

theorem merged_of_suits {m : Metric} {p : Prop} (hm : m.Suits p) (hp : ¬ p)
    (older : Option Metric) : merged (some m) older = some m := by
  cases m with
  | counter n => exact absurd hm.1 hp
  | _ => rfl

theorem exists_count_of_suits {m : Metric} {p : Prop} (hm : m.Suits p) (hp : p) :
    ∃ n, m = .counter n ∧ 0 ≤ n.toInt := by
  cases m with
  | counter n => exact ⟨n, rfl, hm.2⟩
  | _ => exact absurd hp hm

theorem suits_raised {amount : Int64} {p : Prop} (hp : p) (hamount : 0 ≤ amount.toInt)
    (hold : ∀ m, older = some m → m.Suits p) :
    Metric.Suits p (.counter (Act.raised older amount)) := by
  refine ⟨hp, ?_⟩
  cases older with
  | none => exact hamount
  | some m =>
    obtain ⟨n, rfl, hn⟩ := exists_count_of_suits (hold m rfl) hp
    exact Window.saturatingAdd_nonneg hn hamount

theorem suits_measured (ha : a.Suits counted) (hold : ∀ m, older = some m → m.Suits (counted id)) :
    ∀ m, a.measured id older = some m → m.Suits (counted id) := by
  cases a with
  | set id' m' =>
    intro m hm
    rw [Act.measured] at hm
    split at hm
    · rename_i hid
      cases hm
      exact hid ▸ suits_of_not_counter ha.2 ha.1
    · exact hold m hm
  | add id' amount =>
    intro m hm
    rw [Act.measured] at hm
    split at hm
    · rename_i hid
      cases hm
      exact suits_raised (hid ▸ ha.1) ha.2 hold
    · exact hold m hm
  | record e | take => exact hold

theorem suits_merged {p : Prop} (hnew : ∀ m, newer = some m → m.Suits p)
    (hold : ∀ m, older = some m → m.Suits p) : ∀ m, merged newer older = some m → m.Suits p := by
  cases newer with
  | none => exact hold
  | some n =>
    intro m hm
    by_cases hp : p
    · obtain ⟨c, rfl, hc⟩ := exists_count_of_suits (hnew n rfl) hp
      cases older with
      | none =>
        cases hm
        exact ⟨hp, hc⟩
      | some o =>
        obtain ⟨c', rfl, hc'⟩ := exists_count_of_suits (hold o rfl) hp
        cases hm
        exact ⟨hp, Window.saturatingAdd_nonneg hc hc'⟩
    · rw [merged_of_suits (hnew n rfl) hp] at hm
      exact hnew m hm

/-- What is added to a merged counter might have been added before the merge. -/
theorem merged_raised {amount : Int64} {p : Prop} (hp : p) (hamount : 0 ≤ amount.toInt)
    (hnew : ∀ m, newer = some m → m.Suits p) (hold : ∀ m, older = some m → m.Suits p) :
    merged (some (.counter (Act.raised newer amount))) older =
      some (.counter (Act.raised (merged newer older) amount)) := by
  cases older with
  | none => rw [Window.merged_none, Window.merged_none]
  | some o =>
    obtain ⟨c', rfl, hc'⟩ := exists_count_of_suits (hold o rfl) hp
    cases newer with
    | none => exact congrArg (fun n => some (Metric.counter n)) (Window.saturatingAdd_comm _ _)
    | some n =>
      obtain ⟨c, rfl, hc⟩ := exists_count_of_suits (hnew n rfl) hp
      exact congrArg (fun n => some (Metric.counter n))
        (Window.saturatingAdd_right_comm hc hamount hc')

/-- **Merging commutes with recording.** -/
theorem merged_measured (ha : a.Suits counted)
    (hnew : ∀ m, newer = some m → m.Suits (counted id))
    (hold : ∀ m, older = some m → m.Suits (counted id)) :
    merged (a.measured id newer) older = a.measured id (merged newer older) := by
  cases a with
  | set id' m =>
    rw [Act.measured, Act.measured]
    split
    · exact merged_of_suits (suits_of_not_counter ha.2 ha.1) ha.1 older
    · rfl
  | add id' amount =>
    rw [Act.measured, Act.measured]
    split
    · rename_i hid
      exact merged_raised (hid ▸ ha.1) ha.2 hnew hold
    · rfl
  | record e | take => rfl

/-! ## One window -/

/-- What an operation leaves of a window that it does not drain. -/
theorem exists_kept (hkept : (o.onWindow limit (some w)).2 = none) :
    ∃ w', o.onWindow limit (some w) = (some w', none) ∧ w'.events = w.events ++ o.act.recorded ∧
      (∀ id, w'.metrics.get? id = o.act.measured id (w.metrics.get? id)) ∧ w'.startTime = w.startTime := by
  have hoperated := operated limit o (some w)
  have hpaced := paced limit o (some w)
  rw [hkept] at hoperated hpaced
  generalize hw : (o.onWindow limit (some w)).1 = w' at hoperated hpaced
  have hresult : o.onWindow limit (some w) = (w', none) := Prod.ext hw hkept
  cases hpaced with
  | unopened h => cases h
  | @kept w' hstart =>
    cases hoperated with
    | kept hevents hmetrics _ => exact ⟨w', hresult, hevents, hmetrics, hstart⟩

/-- A recording does the same to a window with the snapshot in it and to one without. -/
theorem restore_onWindow (ha : o.act.Suits counted) (hw : Suitable counted w.metrics.get?)
    (hs : Suitable counted s.metrics.get?) (hkept : (o.onWindow limit (some w)).2 = none)
    (hkept' : (o.onWindow limit' (some (w.restore s))).2 = none) :
    ∃ w', o.onWindow limit (some w) = (some w', none) ∧
      o.onWindow limit' (some (w.restore s)) = (some (w'.restore s), none) ∧
      Suitable counted w'.metrics.get? := by
  obtain ⟨w', hw', hevents, hmetrics, hstart⟩ := exists_kept hkept
  obtain ⟨u, hu, huevents, humetrics, hustart⟩ := exists_kept hkept'
  -- both ways lead to the same metrics, events and start
  have hsame : u = w'.restore s := by
    refine Window.ext_get? (fun id => ?_) ?_ ?_
    · rw [humetrics, Window.get?_restore, Window.get?_restore, hmetrics]
      exact (merged_measured ha (hw id) (hs id)).symm
    · rw [huevents]
      simp only [Window.restore, hevents, List.append_assoc]
    · rw [hustart]
      simp only [Window.restore, hstart]
  refine ⟨w', hw', hsame ▸ hu, fun id => ?_⟩
  rw [hmetrics]
  exact suits_measured ha (hw id)

/-! ## Two buffers side by side -/

theorem onWindow_of_operate (hp : o.ping = ping)
    (hkept : ∀ d, (b.operate limit o).2 = some d → d.ping ≠ ping) :
    (o.onWindow limit (b.windows.get? o.ping)).2 = none := by
  obtain ⟨hout, -⟩ := operate_onWindow limit b o ping
  rw [← hout]
  cases hd : (b.operate limit o).2 with
  | none => rfl
  | some d => exact absurd ((ping_of_onWindow (hout.symm.trans hd)).trans hp) (hkept d hd)

/-- The second buffer has the snapshot in the ping's window, the first one lacks it. -/
structure Beside (counted : String → Prop) (ping : String) (s : Snapshot) (b b' : Buffer) : Prop where
  own : ∃ w, b.windows.get? ping = some w ∧ b'.windows.get? ping = some (w.restore s) ∧
    Suitable counted w.metrics.get?
  others : ∀ ping', ping' ≠ ping → b.windows.get? ping' = b'.windows.get? ping'

theorem Beside.restore (h : Beside counted ping s b b') (now : Instant) :
    b.restore now ping s = b' := by
  obtain ⟨w, hw, hw', -⟩ := h.own
  have hget (ping' : String) :
      (b.restore now ping s).windows.get? ping' = b'.windows.get? ping' := by
    rw [get?_restored]
    split
    · rename_i hp
      rw [hp, hw, hw']
      rfl
    · rename_i hp
      exact h.others ping' hp
  have hwindows : (b.restore now ping s).windows = b'.windows := Dict.ext_get? hget
  generalize b.restore now ping s = r at hwindows
  cases r
  cases b'
  cases hwindows
  rfl

theorem Beside.operate (h : Beside counted ping s b b') (hs : Suitable counted s.metrics.get?)
    (ha : o.ping = ping → o.act.Suits counted) (hlimit : o.ping ≠ ping → limit = limit')
    (hkept : ∀ d, (b.operate limit o).2 = some d → d.ping ≠ ping)
    (hkept' : ∀ d, (b'.operate limit' o).2 = some d → d.ping ≠ ping) :
    Beside counted ping s (b.operate limit o).1 (b'.operate limit' o).1 ∧
      (b.operate limit o).2 = (b'.operate limit' o).2 := by
  have hb := operate_onWindow limit b o
  have hb' := operate_onWindow limit' b' o
  by_cases hp : o.ping = ping
  · obtain ⟨w, hw, hw', hsuits⟩ := h.own
    rw [← hp] at hw hw'
    obtain ⟨w₁, hw₁, hw₁', hsuits₁⟩ := restore_onWindow (ha hp) hsuits hs
      (hw ▸ onWindow_of_operate hp hkept) (hw' ▸ onWindow_of_operate hp hkept')
    refine ⟨⟨⟨w₁, ?_, ?_, hsuits₁⟩, fun ping' hp' => ?_⟩, ?_⟩
    · rw [(hb ping).2, if_pos hp.symm, hw, hw₁]
    · rw [(hb' ping).2, if_pos hp.symm, hw', hw₁']
    · have hne : ping' ≠ o.ping := hp ▸ hp'
      rw [(hb ping').2, (hb' ping').2, if_neg hne, if_neg hne]
      exact h.others ping' hp'
    · rw [(hb ping).1, (hb' ping).1, hw, hw', hw₁, hw₁']
  · have hsame := h.others o.ping hp
    have hlimits := hlimit hp
    subst hlimits
    refine ⟨⟨?_, fun ping' hp' => ?_⟩, ?_⟩
    · rw [(hb ping).2, (hb' ping).2, if_neg (Ne.symm hp), if_neg (Ne.symm hp)]
      exact h.own
    · rw [(hb ping').2, (hb' ping').2, hsame, h.others ping' hp']
    · rw [(hb ping).1, (hb' ping).1, hsame]

/-- A recording and the same one elsewhere, for the ping or for another; only the ping's own may be under
different limits. -/
inductive Move.Records (counted : String → Prop) (ping : String) : Move → Move → Prop where
  | operate {limit limit' : Nat} {o : Operation} (hsuits : o.ping = ping → o.act.Suits counted)
      (hlimit : o.ping ≠ ping → limit = limit') : Records counted ping (.operate limit o) (.operate limit' o)

theorem Beside.run {l l' : List Move} {out : List Drained} (h : Beside counted ping s b b')
    (hs : Suitable counted s.metrics.get?) (hl : List.Forall₂ (Move.Records counted ping) l l')
    (hkept : ∀ d ∈ (Timeline.run ⟨b, out⟩ l).out, d.ping ≠ ping)
    (hkept' : ∀ d ∈ (Timeline.run ⟨b', out⟩ l').out, d.ping ≠ ping) :
    Beside counted ping s (Timeline.run ⟨b, out⟩ l).buffer (Timeline.run ⟨b', out⟩ l').buffer ∧
      (Timeline.run ⟨b, out⟩ l).out = (Timeline.run ⟨b', out⟩ l').out := by
  induction hl generalizing b b' out with
  | nil => exact ⟨h, rfl⟩
  | cons hm _ ih =>
    cases hm with
    | @operate limit limit' o hsuits hlimit =>
      rw [Timeline.run_cons] at hkept hkept' ⊢
      rw [Timeline.run_cons]
      have hmem {c : Buffer} {limit : Nat} {d : Drained} (hd : (c.operate limit o).2 = some d) :
          d ∈ (Timeline.step ⟨c, out⟩ (.operate limit o)).out :=
        List.mem_append_right _ (Option.mem_toList.2 hd)
      obtain ⟨hbeside, hout⟩ := h.operate hs hsuits hlimit
        (fun d hd => hkept d (Timeline.mem_run (hmem hd)))
        fun d hd => hkept' d (Timeline.mem_run (hmem hd))
      simp only [Timeline.step, hout] at hkept hkept' ⊢
      exact ih hbeside hkept hkept'

/-! ## Taking out -/

/-- The buffer if the operation had drained no window: the event that fills one is recorded, and what is
asked for stays. -/
def undrained (b : Buffer) (o : Operation) : Buffer :=
  match o.act with
  | .record e => b.put o.ping ((b.window o.ping o.now).push e)
  | .set _ _ | .add _ _ | .take => b

theorem restore_drain {now : Instant} (h : w.startTime ≤ now) :
    (w.drain now).2.restore (w.drain now).1 = w := by
  refine Window.ext_get? (fun id => ?_) (List.append_nil _) (Instant.min_eq_right h)
  rw [Window.get?_restore]
  rfl

theorem beside_drain {now : Instant} {c c' : Buffer} (h : w.startTime ≤ now)
    (hc : c = b.put ping (w.drain now).2) (hc' : c'.windows.get? ping = some w)
    (hothers : ∀ ping', ping' ≠ ping → b.windows.get? ping' = c'.windows.get? ping') :
    Beside counted ping (w.drain now).1 c c' where
  own := by
    refine ⟨(w.drain now).2, ?_, ?_, fun id m hm => by cases hm⟩
    · rw [hc, get?_put, if_pos rfl]
    · rw [hc', restore_drain h]
  others ping' hp := by
    rw [hc, get?_put, if_neg hp]
    exact hothers ping' hp

/-- What an operation takes out is all that keeps its buffer from being the undrained one. -/
theorem beside_undrained (counted : String → Prop) (hd : (b.operate limit o).2 = some d)
    (hstart : startOf o.now (b.windows.get? o.ping) ≤ o.now) :
    Beside counted o.ping d.snapshot (b.operate limit o).1 (b.undrained o) := by
  obtain ⟨ping, now, act⟩ := o
  cases act with
  | set _ _ | add _ _ => cases hd
  | record e =>
    have hrecord : b.operate limit ⟨ping, now, .record e⟩ = ((b.recordEvent now ping e limit).1,
      (b.recordEvent now ping e limit).2.map (⟨ping, true, ·⟩)) := rfl
    rw [hrecord] at hd ⊢
    by_cases hfull : limit ≤ ((b.window ping now).push e).events.length
    · rw [show b.recordEvent now ping e limit = _ from if_pos hfull] at hd ⊢
      cases hd
      refine beside_drain hstart rfl ?_ fun ping' hp => ?_
      · exact (get?_put _ _ _ _).trans (if_pos rfl)
      · exact ((get?_put _ _ _ _).trans (if_neg hp)).symm
    · rw [show b.recordEvent now ping e limit = _ from if_neg hfull] at hd
      cases hd
  | take =>
    have htake : b.operate limit ⟨ping, now, .take⟩ = ((b.take now ping).1,
      (b.take now ping).2.map (⟨ping, false, ·⟩)) := rfl
    rw [htake] at hd ⊢
    cases hw : b.windows.get? ping with
    | none =>
      simp only [take, hw] at hd
      cases hd
    | some w =>
      rw [hw] at hstart
      by_cases hempty : w.isEmpty = true
      · simp only [take, hw, if_pos hempty] at hd
        cases hd
      · simp only [take, hw, if_neg hempty] at hd ⊢
        cases hd
        exact beside_drain hstart rfl hw fun _ _ => rfl

theorem suitable_operate (limit : Nat) (ho : o.act.Suits counted)
    (hw : Suitable counted (metricOf (b.windows.get? o.ping))) :
    Suitable counted (metricOf ((b.operate limit o).1.windows.get? o.ping)) := by
  have hoperated := operated limit o (b.windows.get? o.ping)
  rw [(operate_onWindow limit b o o.ping).2, if_pos rfl]
  generalize (o.onWindow limit (b.windows.get? o.ping)).1 = w at hoperated ⊢
  generalize (o.onWindow limit (b.windows.get? o.ping)).2 = d at hoperated
  cases hoperated with
  | kept _ hmetrics _ =>
    intro id
    rw [hmetrics]
    exact suits_measured ho (hw id)
  | drained _ _ _ _ =>
    intro id m hm
    cases hm

theorem suitable_drained (hd : (b.operate limit o).2 = some d) (ho : o.act.Suits counted)
    (hw : Suitable counted (metricOf (b.windows.get? o.ping))) :
    Suitable counted d.snapshot.metrics.get? := by
  have hoperated := operated limit o (b.windows.get? o.ping)
  rw [← (operate_onWindow limit b o o.ping).1, hd] at hoperated
  generalize (o.onWindow limit (b.windows.get? o.ping)).1 = w at hoperated
  cases hoperated with
  | drained _ hmetrics _ _ =>
    intro id
    rw [hmetrics]
    exact suits_measured ho (hw id)

/-! ## Along a timeline -/

namespace Timeline
variable {t : Timeline} {m : Move} {l : List Move}

/-- Whether a move touches the ping's metrics only as their ids say; what goes back to the ping has been
taken from it. -/
def Allows (counted : String → Prop) (ping : String) (t : Timeline) : Move → Prop
  | .operate _ o => o.ping = ping → o.act.Suits counted
  | .putBack _ ping' i => ping' = ping → ∀ d, t.out[i]? = some d → d.ping = ping

/-- All metrics of the ping suit their ids, those that have been taken out as well. -/
structure Orderly (counted : String → Prop) (ping : String) (t : Timeline) : Prop where
  window : Suitable counted (metricOf (t.buffer.windows.get? ping))
  out : ∀ d ∈ t.out, d.ping = ping → Suitable counted d.snapshot.metrics.get?

theorem Orderly.step (h : t.Orderly counted ping) (hm : t.Allows counted ping m) :
    (t.step m).Orderly counted ping := by
  cases m with
  | operate limit o =>
    refine ⟨?_, fun d hd hdp => ?_⟩
    · by_cases hp : o.ping = ping
      · subst hp
        exact suitable_operate limit (hm rfl) h.window
      · obtain ⟨-, hwindow⟩ := operate_onWindow limit t.buffer o ping
        rw [if_neg (Ne.symm hp)] at hwindow
        exact hwindow ▸ h.window
    · rcases List.mem_append.1 hd with hd | hd
      · exact h.out d hd hdp
      · rw [Option.mem_toList] at hd
        have hp : d.ping = o.ping :=
          ping_of_onWindow ((operate_onWindow limit t.buffer o ping).1.symm.trans hd)
        have hsame : o.ping = ping := hp.symm.trans hdp
        subst hsame
        exact suitable_drained hd (hm rfl) h.window
  | putBack now ping' i =>
    simp only [Timeline.step]
    split
    · rename_i d hd
      refine ⟨fun id => ?_, h.out⟩
      rw [get?_restored]
      split
      · rename_i hp
        have hmem : d ∈ t.out := List.mem_of_getElem? hd
        have hold := h.out d hmem (hm hp.symm d hd)
        have hnew := h.window id
        rw [hp] at hnew
        rw [metricOf, Option.bind_some, Window.get?_restore, metrics_getD]
        exact suits_merged hnew (hold id)
      · exact h.window id
    · exact h

/-- Every move is one that is allowed where it is made. -/
def Disciplined (counted : String → Prop) (ping : String) (l : List Move) : Prop :=
  ∀ before m after, l = before ++ m :: after → (start.run before).Allows counted ping m

theorem orderly_run (h : Disciplined counted ping l) : (start.run l).Orderly counted ping := by
  induction l using List.reverseRecOn with
  | nil =>
    refine ⟨fun id m hm => ?_, fun d hd => absurd hd List.not_mem_nil⟩
    cases hm
  | append_singleton l m ih =>
    rw [run_concat]
    refine (ih fun before m' after hl => ?_).step (h l m [] rfl)
    exact h before m' (after ++ [m]) (by rw [hl, List.append_assoc]; rfl)

end Timeline

theorem suits_of_drained (hd : (b.operate limit o).2 = some d) : o.act.Suits counted := by
  obtain ⟨ping, now, act⟩ := o
  cases act with
  | set _ _ | add _ _ => cases hd
  | record _ | take => exact trivial

/-! ## Taking out, recording and putting back -/

/-- **Restoring is as if nothing had been taken out.** After any life of a buffer whose clock was never
turned back, in which the ping's counted ids were only added to by no negative amount and its other ids
only set to no counter, a window is drained. Recordings of the same kind for the ping, and any operations
for others, follow, and fill no window of the ping; nor do they alone, under the same limits or others. When
the snapshot is put back then, at whatever time, the buffer is the one that the recordings alone lead to, in
every metric, event and start of a window, and as much has been taken out for others. -/
theorem restores_as_if_not_taken {before recordings alone : List Move}
    (hclock : Forward (before ++ [.operate limit o]))
    (hbefore : Timeline.Disciplined counted o.ping before)
    (hd : ((Timeline.start.run before).buffer.operate limit o).2 = some d)
    (hrecords : List.Forall₂ (Move.Records counted o.ping) recordings alone)
    (hbelow : ∀ x ∈ (Timeline.run ⟨((Timeline.start.run before).buffer.operate limit o).1, []⟩
      recordings).out, x.ping ≠ o.ping)
    (halone : ∀ x ∈ (Timeline.run ⟨(Timeline.start.run before).buffer.undrained o, []⟩ alone).out,
      x.ping ≠ o.ping) (later : Instant) :
    (Timeline.run ⟨((Timeline.start.run before).buffer.operate limit o).1, []⟩ recordings).buffer.restore
        later o.ping d.snapshot =
      (Timeline.run ⟨(Timeline.start.run before).buffer.undrained o, []⟩ alone).buffer ∧
    (Timeline.run ⟨((Timeline.start.run before).buffer.operate limit o).1, []⟩ recordings).out =
      (Timeline.run ⟨(Timeline.start.run before).buffer.undrained o, []⟩ alone).out := by
  obtain ⟨hforward, -, hlast⟩ := List.pairwise_append.1 hclock
  have hpunctual : (Timeline.start.run before).Punctual o.now :=
    Timeline.punctual_run hforward fun m hm => hlast m hm _ List.mem_cons_self
  have hsnapshot : Suitable counted d.snapshot.metrics.get? :=
    suitable_drained hd (suits_of_drained hd) (Timeline.orderly_run hbefore).window
  have hbeside := beside_undrained counted hd (hpunctual.startOf_le o.ping)
  obtain ⟨hend, hout⟩ := hbeside.run hsnapshot hrecords hbelow halone
  exact ⟨hend.restore later, hout⟩

/-- Operations that all suit are allowed whenever they are made. -/
theorem disciplined_of_operates {l : List Move}
    (h : ∀ m ∈ l, ∃ limit o, m = .operate limit o ∧ o.act.Suits counted) :
    Timeline.Disciplined counted ping l := by
  rintro before m after rfl
  obtain ⟨limit, o, rfl, ho⟩ := h m (by simp)
  exact fun _ => ho

/-- A counter that is nearly full, a text and an event. -/
def nearlyFull (now : Instant) : List Move :=
  [.operate 9 ⟨"metrics", now, .add "c" 0x7FFFFFFFFFFFFFFE⟩,
    .operate 9 ⟨"metrics", now, .set "theme" (.string "dark")⟩,
    .operate 9 ⟨"metrics", now, .record ⟨0, "a", "b", .empty⟩⟩]

/-- The counter runs full, the text is set anew, and another ping is recorded for. -/
def overflowing (now : Instant) : List Move :=
  [.operate 9 ⟨"metrics", now, .add "c" 5⟩,
    .operate 9 ⟨"events", now, .record ⟨1, "a", "b", .empty⟩⟩,
    .operate 9 ⟨"metrics", now, .set "theme" (.string "light")⟩,
    .operate 9 ⟨"metrics", now, .record ⟨2, "a", "b", .empty⟩⟩]

theorem full_as_if_not_taken : ∃ d,
    ((Timeline.start.run (nearlyFull ⟨0, 0, by decide⟩)).buffer.operate 9
      ⟨"metrics", ⟨1, 0, by decide⟩, .take⟩).2 = some d ∧
    let b := (Timeline.run ⟨((Timeline.start.run (nearlyFull ⟨0, 0, by decide⟩)).buffer.operate 9
      ⟨"metrics", ⟨1, 0, by decide⟩, .take⟩).1, []⟩ (overflowing ⟨1, 0, by decide⟩)).buffer.restore
        ⟨1, 0, by decide⟩ "metrics" d.snapshot
    b = (Timeline.start.run (nearlyFull ⟨0, 0, by decide⟩ ++ overflowing ⟨1, 0, by decide⟩)).buffer ∧
      b.metric? "metrics" "c" = some (.counter Int64.maxValue) ∧
      b.metric? "metrics" "theme" = some (.string "light") := by
  have hsuits : ∀ now, ∀ m ∈ nearlyFull now, ∃ limit o, m = .operate limit o ∧ o.act.Suits (· = "c") := by
    intro now m hm
    simp only [nearlyFull, List.mem_cons, List.not_mem_nil, or_false] at hm
    rcases hm with rfl | rfl | rfl
    · exact ⟨_, _, rfl, rfl, by decide⟩
    · exact ⟨_, _, rfl, by decide, by simp⟩
    · exact ⟨_, _, rfl, trivial⟩
  have hrecords : ∀ now, List.Forall₂ (Move.Records (· = "c") "metrics") (overflowing now)
      (overflowing now) := by
    intro now
    refine .cons (.operate ?_ fun _ => rfl) (.cons (.operate ?_ fun _ => rfl)
      (.cons (.operate ?_ fun _ => rfl) (.cons (.operate ?_ fun _ => rfl) .nil)))
    · exact fun _ => ⟨rfl, by decide⟩
    · exact fun _ => trivial
    · exact fun _ => ⟨by decide, by simp⟩
    · exact fun _ => trivial
  have hclock : Forward (nearlyFull ⟨0, 0, by decide⟩ ++
      [.operate 9 ⟨"metrics", ⟨1, 0, by decide⟩, .take⟩]) := by
    simp only [nearlyFull, Forward, List.cons_append, List.nil_append, List.pairwise_cons,
      List.forall_mem_cons, List.Pairwise.nil, and_true, Move.now]
    decide
  obtain ⟨hsame, -⟩ := restores_as_if_not_taken hclock (disciplined_of_operates (hsuits _)) rfl
    (hrecords ⟨1, 0, by decide⟩) (by decide) (by decide) ⟨1, 0, by decide⟩
  refine ⟨_, rfl, hsame, ?_, ?_⟩
  · rw [hsame]
    rfl
  · rw [hsame]
    rfl

end Buffer
end PingDelivery
