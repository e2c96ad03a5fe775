import PingDelivery.Proofs.Upload.Waiting

/-! # What a ring comes to

A ring wakes a worker that listens, and where none does it is kept. So a ring that is kept while nobody
has anything to do waits for the end of a back-off. Whoever has been woken sends a run before time
passes, and so does whoever lies down where a ring is kept.
-/

namespace PingDelivery.Upload
open Store
namespace Vigil

section
variable {u v v' : Vigil} {m m' : Content} {es : List Event} {j k t : Nat} {log : Log}

/-! ## The bell and those who sleep -/

/-- A ring is kept only while nobody listens, and whoever sleeps and hears the bell is listed until the
bell has rung for it. -/
structure Tuned (v : Vigil) : Prop where
  silent : v.scheduler.bell.kept = true → v.scheduler.bell.listeners = []
  listed : ∀ j w n, v.stance j = .asleep w n → w.listens = true → n.rung = false →
    j ∈ v.scheduler.bell.listeners

theorem ring_of_nil (h : v.scheduler.bell.listeners = []) :
    v.ring = v.setBell { v.scheduler.bell with kept := true } := by
  simp only [ring, Bell.ring, h]

theorem ring_of_cons {rest : List Nat} (h : v.scheduler.bell.listeners = k :: rest) :
    v.ring = (v.setBell { v.scheduler.bell with listeners := rest }).setNap k
      ((v.naps k).map fun n => { n with rung := true }) := by
  simp only [ring, Bell.ring, h]

theorem stance_of_resting {w : Worker} (hj : v.shift.posts[j]? = some (.resting w)) :
    v.stance j = .idle w ∨ ∃ n, v.stance j = .asleep w n := by
  rw [stance, hj]
  cases v.naps j with
  | none => exact .inl rfl
  | some n => exact .inr ⟨n, rfl⟩

theorem rests_of_resting {w : Worker} (hj : v.shift.posts[j]? = some (.resting w)) :
    (v.stance j).rests = true := by
  rcases stance_of_resting hj with hx | ⟨n, hx⟩ <;> rw [hx] <;> rfl

theorem ring_same (v : Vigil) :
    v.ring.now = v.now ∧ v.ring.shift.posts = v.shift.posts := by
  obtain ⟨bell, naps, hring, -⟩ := Vigil.ring_cases v
  rw [hring]
  exact ⟨rfl, rfl⟩

theorem getUp_posts {c : Cause} (hs : v.hasCause (v.stance j) c = true) :
    (v.getUp j c).shift.posts = v.shift.posts := by
  obtain ⟨bell, naps, hup, -⟩ := getUp_cases (kept_of_hasCause hs)
  rw [hup]
  rfl

theorem getUp_nap {c : Cause} (hs : v.hasCause (v.stance j) c = true) :
    (v.getUp j c).naps j = none := by
  obtain ⟨bell, naps, hup, hnap, -⟩ := getUp_cases (kept_of_hasCause hs)
  rw [hup]
  exact hnap

theorem Tuned.of_same (ht : u.Tuned) (hnaps : v.naps = u.naps)
    (hbell : v.scheduler.bell = u.scheduler.bell)
    (hposts : ∀ k, u.naps k ≠ none → v.shift.posts[k]? = u.shift.posts[k]?) : v.Tuned := by
  refine ⟨fun hk => ?_, fun k w n hstance hl hr => ?_⟩
  · rw [hbell] at hk ⊢
    exact ht.silent hk
  · have hnap : u.naps k ≠ none := by
      rw [← hnaps, nap_of_asleep hstance]
      exact Option.some_ne_none n
    have hsame : v.stance k = u.stance k := stance_congr (hposts k hnap) (congrFun hnaps k)
    rw [hbell]
    exact ht.listed k w n (hsame.symm.trans hstance) hl hr

theorem Tuned.ring (ht : v.Tuned) : v.ring.Tuned := by
  cases hlisteners : v.scheduler.bell.listeners with
  | nil =>
    rw [ring_of_nil hlisteners]
    refine ⟨fun _ => hlisteners, fun k w n hstance hl hr => ?_⟩
    exact ht.listed k w n hstance hl hr
  | cons k₀ rest =>
    rw [ring_of_cons hlisteners]
    refine ⟨fun hk => ?_, fun k w n hstance hl hr => ?_⟩
    · cases hlisteners.symm.trans (ht.silent hk)
    · rcases eq_or_ne k k₀ with rfl | hne
      · have hnap := (naps_setNap _ k _).symm.trans (nap_of_asleep hstance)
        obtain ⟨n₀, -, rfl⟩ := Option.map_eq_some_iff.1 hnap
        cases hr
      · rw [stance_setNap_of_ne _ _ hne] at hstance
        have hmem := ht.listed k w n hstance hl hr
        rw [hlisteners] at hmem
        exact (List.mem_cons.1 hmem).resolve_left hne

theorem Tuned.forget (ht : v.Tuned) (j : Nat) :
    ((v.setBell (v.scheduler.bell.forget j)).setNap j none).Tuned := by
  refine ⟨fun hk => ?_, fun k w n hstance hl hr => ?_⟩
  · exact List.filter_eq_nil_iff.2 fun k hmem => by
      rw [ht.silent hk] at hmem
      cases hmem
  · have hnap := nap_of_asleep hstance
    have hkj : k ≠ j := by
      rintro rfl
      cases (naps_setNap _ k none).symm.trans hnap
    rw [stance_setNap_of_ne _ _ hkj] at hstance
    exact List.mem_filter.2 ⟨ht.listed k w n hstance hl hr, by simpa using hkj⟩

theorem Tuned.up {c : Cause} (ht : v.Tuned) (hs : v.hasCause (v.stance j) c = true) :
    (v.getUp j c).Tuned := by
  unfold getUp
  cases hn : v.naps j with
  | none =>
    dsimp only
    split
    · rename_i hc
      rw [Bell.listen, if_pos (kept_of_hasCause hs hc hn)]
      exact ⟨fun hk => absurd hk Bool.false_ne_true, ht.listed⟩
    · exact ht
  | some n =>
    dsimp only
    split
    · exact (ht.forget j).ring
    · exact ht.forget j

theorem Tuned.lay {w : Worker} (ht : v.Tuned) (wakeAt : Nat) (hj : v.stance j = .idle w)
    (hb : (w.listens && v.scheduler.bell.kept) = false) :
    ((v.setBell { v.scheduler.bell with
      listeners := v.scheduler.bell.listeners ++ if w.listens then [j] else [] }).setNap j
        (some ⟨wakeAt, false⟩)).Tuned := by
  refine ⟨fun hk => ?_, fun k w' n hstance hl hr => ?_⟩
  · have hdeaf : w.listens = false := by
      rw [show v.scheduler.bell.kept = true from hk, Bool.and_true] at hb
      exact hb
    change v.scheduler.bell.listeners ++ _ = []
    rw [ht.silent hk, hdeaf]
    rfl
  · refine List.mem_append.2 ?_
    rcases eq_or_ne k j with rfl | hkj
    · have hpost : v.shift.posts[k]? = some (.resting w') := post_of_stance hstance
      obtain rfl : w = w' :=
        Post.resting.inj (Option.some.inj ((post_of_stance hj).symm.trans hpost))
      rw [hl]
      exact .inr (List.mem_singleton_self k)
    · rw [stance_setNap_of_ne _ _ hkj] at hstance
      exact .inl (ht.listed k w' n hstance hl hr)

theorem Tuned.moved (ht : v.Tuned) (ha : v.Attentive) (h : Moved v m es v' m') : v'.Tuned := by
  have set {j k : Nat} {c : Cause} (post : Post) (hs : v.hasCause (v.stance j) c = true)
      (hk : (v.getUp j c).naps k ≠ none) :
      (v.shift.posts.set j post)[k]? = (v.getUp j c).shift.posts[k]? := by
    rw [getUp_posts hs]
    refine List.getElem?_set_ne ?_
    rintro rfl
    exact hk (getUp_nap hs)
  cases h with
  | inside h _ hposts =>
    obtain ⟨turn, stats, suspended, cancelled, hscheduler, -⟩ := h.scheduler
    exact ht.of_same rfl (congrArg (·.bell) hscheduler) fun k _ => congrArg (·[k]?) hposts
  | hired =>
    refine ht.of_same rfl rfl fun k hk => ?_
    obtain ⟨w, hw⟩ := ha.napping k hk
    exact List.getElem?_append_left (List.getElem?_eq_some_iff.1 hw).1
  | rang => exact ht.ring
  | lay hj _ hb hbell =>
    subst hbell
    exact ht.lay _ hj hb
  | left hs => exact (ht.up hs).of_same rfl rfl fun k hk => set .left hs hk
  | sent _ _ hs => exact (ht.up hs).of_same rfl rfl fun k hk => set _ hs hk
  | heard _ hj _ =>
    refine ht.of_same rfl rfl fun k hk => List.getElem?_set_ne ?_
    rintro rfl
    exact hk (ha.not_asleep hj)
  | passed _ _ | kept => exact ht.of_same rfl rfl fun _ _ => rfl

/-! ## Timers and back-offs -/

/-- A sleeper is woken only if it hears the bell, and while it waits a back-off out its timer is set to
the end of it, or to when it lay down if that was later. A run is sent only when the back-off is
over. -/
def Fits (now : Nat) : Stance → Prop
  | .asleep w n => (n.rung = true → w.listens = true) ∧
      ∀ r, w.retryAt = some r → r ≤ n.wakeAt ∧ n.wakeAt ≤ max r now
  | .running w _ => ∀ r, w.retryAt = some r → r ≤ now
  | .idle _ | .absent | .left => True

theorem Fits.later {now now' : Nat} {x : Stance} (hx : Fits now x) (h : now ≤ now') :
    Fits now' x := by
  cases x with
  | asleep w n =>
    refine ⟨hx.1, fun r hr => ?_⟩
    obtain ⟨hle, hge⟩ := hx.2 r hr
    exact ⟨hle, by omega⟩
  | running w i => exact fun r hr => (hx r hr).trans h
  | idle _ | absent | left => trivial

theorem Fits.barred {now r : Nat} {x : Stance} {w : Worker} (hx : Fits now x)
    (hrests : x.rests = true) (hw : x.worker? = some w) (hr : w.retryAt = some r) : Barred r x := by
  cases x with
  | absent | left | running _ _ => cases hrests
  | idle _ =>
    cases hw
    exact .idle hr (Nat.le_refl r)
  | asleep _ n =>
    cases hw
    have hdeaf : w.listens = false := Worker.not_listens hr
    refine .asleep hdeaf ?_ (hx.2 r hr).1
    cases hrung : n.rung with
    | false => rfl
    | true => cases hdeaf.symm.trans (hx.1 hrung)

theorem Fits.turned {x y : Stance} {ds : List Doing} (hx : Fits v.now x)
    (h : Turned v x ds y) : Fits v.now y := by
  cases h with
  | same => exact hx
  | hired | left _ => trivial
  | lay _ _ =>
    refine ⟨nofun, fun r hr => ?_⟩
    simp only [Worker.wakeAt, hr]
    exact ⟨Nat.le_max_left r v.now, Nat.le_refl _⟩
  | rung hl => exact ⟨fun _ => hl, hx.2⟩
  | sent hw hc hs => exact fun r hr => (hx.barred (rests_of_hasCause hs) hw hr).over hc hs
  | @heard w i r shake _ =>
    generalize hpost : Shift.heard w shake v.now r = post
    cases post with
    | running w₁ i₁ => exact absurd hpost (Shift.heard_ne_running w shake v.now r w₁ i₁)
    | resting _ | left => trivial

/-! ## What holds at any time -/

structure Regular (v : Vigil) : Prop where
  ordered : v.shift.Ordered
  attentive : v.Attentive
  tuned : v.Tuned
  fits : ∀ j, Fits v.now (v.stance j)

theorem regular_opened {d : Desk} (hfree : d.scheduler.turn = .free)
    (hsilent : d.scheduler.bell = .silent) (now : Nat) : (opened d now).Regular where
  ordered := Shift.ordered_opened hfree
  attentive := attentive_opened hsilent now
  tuned := by
    refine ⟨fun _ => congrArg Bell.listeners hsilent, fun j w n hstance => ?_⟩
    cases hstance
  fits _ := trivial

theorem Regular.moved (hv : v.Regular) (h : Moved v m es v' m') : v'.Regular where
  ordered := h.ordered hv.ordered
  attentive := hv.attentive.moved h
  tuned := hv.tuned.moved hv.attentive h
  fits j := by
    rcases hv.attentive.turned h j with ⟨hnow, hturned⟩ | ⟨-, hnow, -, hstance, -⟩
    · rw [hnow]
      exact (hv.fits j).turned hturned
    · rw [hstance]
      exact (hv.fits j).later hnow.le

theorem Course.regular (h : Course u m log v m') (hu : u.Regular) : v.Regular := by
  induction h with
  | start => exact hu
  | move _ hf ih => exact ih.moved (moved_of_follows ih.ordered hf)

theorem Course.stays_cancelled (h : Course u m log v m') (hu : u.Regular)
    (hc : u.scheduler.cancelled = true) : v.scheduler.cancelled = true := by
  induction h with
  | start => exact hc
  | move h hf ih => exact (moved_of_follows (h.regular hu).ordered hf).scheduler.2 ih

/-! ## A ring that is kept -/

/-- **Where a ring is kept a worker waits for nothing but the end of its back-off.** -/
theorem Regular.kept_in_back_off {w : Worker} (hv : v.Regular) (hk : v.scheduler.bell.kept = true)
    (hj : v.shift.posts[j]? = some (.resting w)) (ht : v.now < t)
    (hwaits : v.waits t (v.stance j) = true) : ∃ r, w.retryAt = some r ∧ t ≤ r := by
  rcases stance_of_resting hj with hx | ⟨n, hx⟩
  · rw [hx] at hwaits
    cases hwaits
  · rw [hx] at hwaits
    simp only [waits, Bool.and_eq_true, Bool.not_eq_true', decide_eq_true_eq] at hwaits
    obtain ⟨⟨-, hquiet⟩, hle⟩ := hwaits
    cases hr : w.retryAt with
    | none =>
      have hl : w.listens = true := Worker.listens_of_none hr
      have hlisted := hv.tuned.listed j w n hx hl hquiet
      rw [hv.tuned.silent hk] at hlisted
      cases hlisted
    | some r =>
      have hfits := hv.fits j
      rw [hx] at hfits
      have hwake := (hfits.2 r hr).2
      exact ⟨r, rfl, by omega⟩

/-! ## A ring that wakes -/

/-- The bell has rung at `t` for the worker, which has not risen yet. -/
structure Roused (v : Vigil) (j t : Nat) : Prop where
  now : v.now = t
  asleep : ∃ w n, v.stance j = .asleep w n ∧ n.rung = true

theorem Roused.over (hr : Roused v j v.now) : v.hasCause (v.stance j) .bell = true := by
  obtain ⟨w, n, hstance, hrung⟩ := hr.asleep
  rw [hstance]
  exact hrung

theorem Course.roused (hu : u.Regular) (hr : Roused u j u.now) (h : Course u m log v m') :
    v.scheduler.cancelled = true ∨ (∃ i, (u.now, .shift (.sent j i)) ∈ log) ∨ Roused v j u.now := by
  induction h with
  | start => exact .inr (.inr hr)
  | @move log es v v' m m' mv tr h hf ih =>
    have hv := h.regular hu
    have hmoved := moved_of_follows hv.ordered hf
    obtain ⟨-, hstays⟩ := hmoved.scheduler
    rcases ih with hcancelled | ⟨i, hi⟩ | ⟨hnow, w, n, hstance, hrung⟩
    · exact .inl (hstays hcancelled)
    · exact .inr (.inl ⟨i, List.mem_append_left _ hi⟩)
    · rcases hv.attentive.turned hmoved j with ⟨hnow', hturned⟩ | ⟨-, -, -, -, hwaits⟩
      · rw [hstance] at hturned
        generalize hy : v'.stance j = y, hds : doings j es = ds at hturned
        cases hturned with
        | same => exact .inr (.inr ⟨hnow'.trans hnow, w, n, hy, hrung⟩)
        | rung _ => exact .inr (.inr ⟨hnow'.trans hnow, w, _, hy, rfl⟩)
        | left hs => exact .inl (hstays (cancelled_of_hasCause hs))
        | sent _ _ _ =>
          have hi : .sent _ ∈ doings j es := hds ▸ List.mem_singleton_self _
          exact .inr (.inl ⟨_, mem_log.2 (.inr ⟨hnow.symm, mem_doings.1 hi⟩)⟩)
      · rw [hstance] at hwaits
        simp [waits, hrung] at hwaits

theorem Course.sends_when_roused (hu : u.Regular) (hr : Roused u j u.now) (h : Course u m log v m')
    (hc : v.scheduler.cancelled = false) : v.SendsBy log j u.now := by
  rcases h.roused hu hr with hcancelled | ⟨i, hi⟩ | hroused
  · cases hc.symm.trans hcancelled
  · exact .inl ⟨_, i, hi, Nat.le_refl _⟩
  · refine .inr ⟨hroused.now.le, fun hv => ⟨.bell, rise_sends (by decide) ?_⟩⟩
    rw [← hv] at hroused
    exact hroused.over

/-- Where a ring is kept somebody uses it. -/
theorem Course.sends_where_called (hu : u.Regular) (hcalled : Called u j u.now)
    (h : Course u m log v m') (hc : v.scheduler.cancelled = false) : ∃ k, v.SendsBy log k u.now := by
  rcases h.called hu.ordered hu.attentive hcalled with hcancelled | ⟨k, i, hi⟩ | hcalled
  · cases hc.symm.trans hcancelled
  · exact ⟨k, .inl ⟨_, i, hi, Nat.le_refl _⟩⟩
  · refine ⟨j, .inr ⟨hcalled.now.le, fun hv => ⟨.bell, rise_sends (by decide) ?_⟩⟩⟩
    rw [← hv] at hcalled
    exact hcalled.over

/-- **A ring that is kept is answered at once where a worker rests that waits no back-off out.** -/
theorem Regular.answered_where_kept {w : Worker} (hu : u.Regular)
    (hk : u.scheduler.bell.kept = true) (hj : u.shift.posts[j]? = some (.resting w))
    (hw : w.retryAt = none) (h : Course u m log v m') (hc : v.scheduler.cancelled = false) :
    ∃ k, v.SendsBy log k u.now := by
  have hl := Worker.listens_of_none hw
  rcases stance_of_resting hj with hx | ⟨n, hx⟩
  · exact h.sends_where_called hu ⟨rfl, hk, w, hx, hl⟩ hc
  · cases hrung : n.rung with
    | true => exact ⟨j, h.sends_when_roused hu ⟨rfl, w, n, hx, hrung⟩ hc⟩
    | false =>
      have hlisted := hu.tuned.listed j w n hx hl hrung
      rw [hu.tuned.silent hk] at hlisted
      cases hlisted

/-- The ring wakes somebody, or it is kept. -/
theorem Regular.roused_or_kept (hv : v.Regular) :
    (∃ k, Roused v.ring k v.ring.now) ∨ v.ring.scheduler.bell.kept = true := by
  cases hlisteners : v.scheduler.bell.listeners with
  | nil =>
    rw [ring_of_nil hlisteners]
    exact .inr rfl
  | cons k rest =>
    obtain ⟨w, n, hstance, -⟩ := hv.attentive.listening k (hlisteners ▸ List.mem_cons_self)
    rw [ring_of_cons hlisteners, nap_of_asleep hstance]
    exact .inl ⟨k, rfl, w, { n with rung := true }, stance_setNap (post_of_stance hstance) _ _, rfl⟩

theorem Regular.ring (hv : v.Regular) : v.ring.Regular := hv.moved (m := fun _ => none) .rang

/-- **A ring is answered at once where a worker waits for its interval.** -/
theorem Regular.answered_at_once {w : Worker} (hu : u.Regular)
    (hj : u.shift.posts[j]? = some (.resting w)) (hw : w.retryAt = none)
    (h : Course u.ring m log v m') (hc : v.scheduler.cancelled = false) :
    ∃ k, v.SendsBy log k u.now := by
  obtain ⟨hnow, hposts⟩ := ring_same u
  rw [← hnow]
  rcases hu.roused_or_kept with ⟨k, hroused⟩ | hkept
  · exact ⟨k, h.sends_when_roused hu.ring hroused hc⟩
  · exact hu.ring.answered_where_kept hkept (hposts ▸ hj) hw h hc

/-! ## A ring during a run -/

/-- A worker of which nothing has been seen is still about its run. -/
theorem Course.still_running {w : Worker} {i : Nat} (hu : u.Regular) (hj : u.stance j = .running w i)
    (h : Course u m log v m') (hquiet : doings j (log.map (·.2)) = []) :
    v.stance j = .running w i := by
  induction h with
  | start => exact hj
  | @move log es v v' m m' mv tr h hf ih =>
    rw [doings_append, List.append_eq_nil_iff] at hquiet
    have hv := h.regular hu
    have hstance := ih hquiet.1
    rcases hv.attentive.turned (moved_of_follows hv.ordered hf) j with
      ⟨-, hturned⟩ | ⟨-, -, -, hsame, -⟩
    · rw [hstance, hquiet.2] at hturned
      generalize hy : v'.stance j = y at hturned
      cases hturned with
      | same => rfl
      | left hs => cases hs
    · exact hsame.trans hstance

/-- After a run that has ended neither in a recoverable failure nor so that the worker leaves, either
the worker listens or its back-off is over. -/
theorem heard_carries_on {w : Worker} {r : Except RunError Summary} {now : Nat} (shake : Nat → Nat)
    (hfits : Fits now (.running w 0)) (hok : ∀ s, r = .ok s → s.stopReason = .queueEmpty)
    (herror : ∀ e, r = .error e → e.isFatal = false) :
    ∃ w', Shift.heard w shake now r = .resting w' ∧ ∀ t, w'.retryAt = some t → t ≤ now := by
  cases r with
  | ok s =>
    have hs := hok s rfl
    rw [Shift.heard_success w shake now (by rw [hs]; decide), hs]
    exact ⟨_, rfl, fun t ht => by cases ht⟩
  | error e =>
    rw [Shift.heard_error, herror e rfl]
    exact ⟨w, rfl, hfits⟩

/-- A ring stays kept until a run is sent. -/
theorem Course.kept_or_sent (hu : u.Regular) (hk : u.scheduler.bell.kept = true)
    (h : Course u m log v m') :
    v.scheduler.bell.kept = true ∨ ∃ t k i, (t, .shift (.sent k i)) ∈ log := by
  induction h with
  | start => exact .inl hk
  | move h hf ih =>
    rcases ih with hk | ⟨t, k, i, hi⟩
    · rcases (moved_of_follows (h.regular hu).ordered hf).kept_or_sent hk with hk | ⟨k, i, hi⟩
      · exact .inl hk
      · exact .inr ⟨_, k, i, mem_log.2 (.inr ⟨rfl, hi⟩)⟩
    · exact .inr ⟨t, k, i, List.mem_append_left _ hi⟩

theorem mem_doings_log {i : Nat} (hi : (t, .shift (.sent j i)) ∈ log) :
    .sent i ∈ doings j (log.map (·.2)) := mem_doings.2 (List.mem_map.2 ⟨_, hi, rfl⟩)

theorem Regular.ring_running {w : Worker} {i : Nat} (hu : u.Regular)
    (hj : u.shift.posts[j]? = some (.running w i)) : u.ring.stance j = .running w i := by
  have hpost : u.ring.shift.posts[j]? = some (.running w i) := (ring_same u).2 ▸ hj
  exact stance_of_post hpost (hu.ring.attentive.not_asleep hpost)

theorem hear_eq {w : Worker} {i : Nat} {r : Except RunError Summary}
    (hj : v.shift.posts[j]? = some (.running w i))
    (hi : v.shift.crew.runs[i]? = some (.finished r)) (shake : Nat → Nat) :
    (v.hear j shake).2 = { v with shift := { v.shift with
      posts := v.shift.posts.set j (Shift.heard w shake v.now r) } } := by
  simp only [hear, hj, hi, shift_hear hj hi]

/-- Whoever has been woken does not care how another's run has ended. -/
theorem Roused.hear {w : Worker} {i : Nat} {r : Except RunError Summary} (hr : Roused v k v.now)
    (hj : v.shift.posts[j]? = some (.running w i))
    (hi : v.shift.crew.runs[i]? = some (.finished r)) (shake : Nat → Nat) :
    Roused (v.hear j shake).2 k (v.hear j shake).2.now := by
  obtain ⟨w', n, hstance, hrung⟩ := hr.asleep
  have hkj : k ≠ j := by
    rintro rfl
    cases hj.symm.trans (post_of_stance hstance)
  refine ⟨rfl, w', n, ?_, hrung⟩
  rw [hear_eq hj hi shake, ← hstance]
  exact stance_congr (List.getElem?_set_ne hkj.symm) rfl

/-- A ring that is kept when a run is over is answered at once. -/
theorem Regular.answered_when_over {w : Worker} {i : Nat} {r : Except RunError Summary}
    {shake : Nat → Nat} (hu : u.Regular) (hk : u.scheduler.bell.kept = true)
    (hj : u.shift.posts[j]? = some (.running w i))
    (hi : u.shift.crew.runs[i]? = some (.finished r))
    (hok : ∀ s, r = .ok s → s.stopReason = .queueEmpty)
    (herror : ∀ e, r = .error e → e.isFatal = false)
    (h : Course (u.hear j shake).2 m log v m') (hc : v.scheduler.cancelled = false) :
    ∃ k, v.SendsBy log k u.now := by
  have hafter : (u.hear j shake).2.Regular := hu.moved (m := m) (moved_of_hear j shake)
  have hheard := hear_eq hj hi shake
  have hnow : (u.hear j shake).2.now = u.now := by rw [hheard]
  have hkept : (u.hear j shake).2.scheduler.bell.kept = true := by
    rw [hheard]
    exact hk
  have hfits := hu.fits j
  rw [stance_of_post hj (hu.attentive.not_asleep hj)] at hfits
  obtain ⟨w', hresting, hover⟩ := heard_carries_on shake hfits hok herror
  have hidle := hu.attentive.stance_hear hj hi shake
  rw [hresting] at hidle
  cases hretry : w'.retryAt with
  | none => exact hnow ▸ hafter.answered_where_kept hkept (post_of_stance hidle) hretry h hc
  | some t =>
    -- an error has left the worker its back-off, which was over before the run
    have htimed : Timed (u.hear j shake).2.scheduler.plan (u.hear j shake).2.now u.now
        ((u.hear j shake).2.stance j) := by
      rw [hidle, hnow]
      refine .idle ?_
      rw [Worker.wakeAt, hretry]
      exact Nat.max_eq_right (hover t hretry)
    exact ⟨j, h.sends_on_time hafter.ordered hafter.attentive htimed hc⟩

/-- **A ring during a run is answered at once when the run is over**, unless it has ended in a
recoverable failure or the worker leaves, or somebody else has answered it before. -/
theorem Regular.answered_after_run {v₁ : Vigil} {m₁ : Content} {log₁ : Log} {w : Worker} {i : Nat}
    {r : Except RunError Summary} (hu : u.Regular) (hj : u.shift.posts[j]? = some (.running w i))
    (h₁ : Course u.ring m log₁ v₁ m₁) (hquiet : doings j (log₁.map (·.2)) = [])
    (hi : v₁.shift.crew.runs[i]? = some (.finished r))
    (hok : ∀ s, r = .ok s → s.stopReason = .queueEmpty)
    (herror : ∀ e, r = .error e → e.isFatal = false) {shake : Nat → Nat}
    (h : Course (v₁.hear j shake).2 m₁ log v m') (hc : v.scheduler.cancelled = false) :
    (∃ t k i', k ≠ j ∧ (t, .shift (.sent k i')) ∈ log₁) ∨ ∃ k, v.SendsBy log k v₁.now := by
  have hv₁ := h₁.regular hu.ring
  have hpost : v₁.shift.posts[j]? = some (.running w i) :=
    post_of_stance (h₁.still_running hu.ring (hu.ring_running hj) hquiet)
  have by_another {t k i' : Nat} (hi' : (t, .shift (.sent k i')) ∈ log₁) : k ≠ j := by
    rintro rfl
    have hdoing := mem_doings_log hi'
    rw [hquiet] at hdoing
    cases hdoing
  rcases hu.roused_or_kept with ⟨k, hroused⟩ | hkept
  · have hmoved : Moved v₁ m₁ _ (v₁.hear j shake).2 m₁ := moved_of_hear j shake
    rcases h₁.roused hu.ring hroused with hcancelled | ⟨i', hi'⟩ | hroused
    · have hcancelled := h.stays_cancelled (hv₁.moved hmoved) (hmoved.scheduler.2 hcancelled)
      cases hc.symm.trans hcancelled
    · exact .inl ⟨_, k, i', by_another hi', hi'⟩
    · rw [← hroused.now] at hroused
      have hnow : (v₁.hear j shake).2.now = v₁.now := by rw [hear_eq hpost hi shake]
      have hsends := h.sends_when_roused (hv₁.moved hmoved) (hroused.hear hpost hi shake) hc
      exact .inr ⟨k, hnow ▸ hsends⟩
  · rcases h₁.kept_or_sent hu.ring hkept with hkept | ⟨t, k, i', hi'⟩
    · exact .inr (hv₁.answered_when_over hkept hpost hi hok herror h hc)
    · exact .inl ⟨t, k, i', by_another hi', hi'⟩

/-! ## During a back-off -/

/-- **However often the bell rings during a back-off, the next run is sent at the end of it**, neither
sooner nor later. -/
theorem Regular.sends_after_back_off {w : Worker} (hu : u.Regular)
    (hj : u.shift.posts[j]? = some (.resting w)) (hw : w.retryAt = some t) (ht : u.now ≤ t)
    (h : Course u m log v m') :
    (∀ t' i, (t', .shift (.sent j i)) ∈ log → t ≤ t') ∧
      (v.scheduler.cancelled = false → v.SendsBy log j t) := by
  have hbarred := (hu.fits j).barred (rests_of_resting hj) (worker_of_resting hj) hw
  have htimed : Timed u.scheduler.plan u.now t (u.stance j) := by
    rcases stance_of_resting hj with hx | ⟨n, hx⟩
    · rw [hx]
      refine .idle ?_
      rw [Worker.wakeAt, hw]
      exact Nat.max_eq_left ht
    · have hfits := hu.fits j
      rw [hx] at hfits ⊢
      obtain ⟨hle, hge⟩ := hfits.2 t hw
      exact .asleep (by omega) ht
  exact ⟨(h.barred hu.ordered hu.attentive hbarred).2,
    h.sends_on_time hu.ordered hu.attentive htimed⟩

end
end Vigil
end PingDelivery.Upload
