import PingDelivery.Proofs.Upload.Suspension

/-! # A shift in time

A `Vigil` is a shift with a clock. A worker that has nothing to do lies down: it sets its timer, and
listens to the bell unless it waits a back-off out. It rises because somebody has cancelled, because its
time has come or because the bell has rung for it; where there are several causes any of them may be
the one. A ring that wakes nobody is kept, and one that has woken a worker which rose for another cause
is handed on. The clock goes on only while no worker has anything to do, and never past a timer. What
is seen is stamped with the time.
-/

namespace PingDelivery.Upload
open Store

/-- Until when a worker lies down, and whether the bell has rung for it. -/
structure Nap where
  wakeAt : Nat
  rung : Bool

/-- Why a worker rises. -/
inductive Cause where
  | cancelled
  | timer
  | bell
  deriving DecidableEq

structure Vigil where
  shift : Shift
  now : Nat
  naps : Nat → Option Nap

/-- What a worker is about. -/
inductive Stance where
  | absent
  /-- About to lie down. -/
  | idle (w : Worker)
  | asleep (w : Worker) (n : Nap)
  | running (w : Worker) (i : Nat)
  | left

namespace Stance

def ofPost : Post → Stance
  | .resting w => .idle w
  | .running w i => .running w i
  | .left => .left

def of : Option Post → Option Nap → Stance
  | some (.resting w), some n => .asleep w n
  | some post, _ => ofPost post
  | none, _ => .absent

def worker? : Stance → Option Worker
  | .idle w | .asleep w _ | .running w _ => some w
  | .absent | .left => none

def post? : Stance → Option Post
  | .idle w | .asleep w _ => some (.resting w)
  | .running w i => some (.running w i)
  | .left => some .left
  | .absent => none

/-- Whether the worker could send a run, had it cause to. -/
def rests : Stance → Bool
  | .idle _ | .asleep _ _ => true
  | .absent | .running _ _ | .left => false

end Stance

namespace Vigil

def opened (d : Desk) (now : Nat) : Vigil := ⟨.opened d, now, fun _ => none⟩

inductive Event where
  | shift (e : Shift.Event)
  | rang
  /-- A worker has heard how its run has ended; `shake` is what jitter makes of a delay. -/
  | heard (j i : Nat) (r : Except RunError Summary) (shake : Nat → Nat)

inductive Move where
  | crew (mv : Crew.Move)
  | check (i : Nat)
  | inquire (i : Nat)
  | hire
  | ring
  | lie (j : Nat)
  | rise (j : Nat) (c : Cause)
  | hear (j : Nat) (shake : Nat → Nat)
  | pass (t : Nat)

section
variable (v : Vigil)

def scheduler : Scheduler := v.shift.crew.desk.scheduler

def setBell (bell : Bell) : Vigil :=
  { v with shift := { v.shift with crew := { v.shift.crew with desk := { v.shift.crew.desk with
    scheduler := { v.shift.crew.desk.scheduler with bell } } } } }

def setNap (j : Nat) (n : Option Nap) : Vigil := { v with naps := Function.update v.naps j n }

def stance (j : Nat) : Stance := .of v.shift.posts[j]? (v.naps j)

/-- Whether the worker has the cause to rise. -/
def hasCause : Stance → Cause → Bool
  | .idle _, .cancelled | .asleep _ _, .cancelled => v.scheduler.cancelled
  | .idle w, .timer => w.wakeAt v.scheduler.plan v.now ≤ v.now
  | .asleep _ n, .timer => n.wakeAt ≤ v.now
  | .idle w, .bell => w.listens && v.scheduler.bell.kept
  | .asleep _ n, .bell => n.rung
  | .absent, _ | .running _ _, _ | .left, _ => false

/-- There is nothing for the worker to do before `t`. -/
def waits (t : Nat) : Stance → Bool
  | .asleep _ n => !v.scheduler.cancelled && !n.rung && t ≤ n.wakeAt
  | .running _ i => !(v.shift.crew.runs[i]?).any fun
    | .finished _ => true
    | _ => false
  | .idle _ => false
  | .absent | .left => true

/-- Wakes the worker that has listened longest; if none listens the ring is kept. -/
def ring : Vigil :=
  match v.scheduler.bell.ring with
  | (none, bell) => v.setBell bell
  | (some j, bell) => (v.setBell bell).setNap j ((v.naps j).map fun n => { n with rung := true })

/-- The worker lies down, unless it has been cancelled or hears a ring that was kept. -/
def lie (j : Nat) : Vigil :=
  match v.stance j with
  | .idle w =>
    if v.scheduler.cancelled then v
    else
      let (rung, bell) := if w.listens then v.scheduler.bell.listen j else (false, v.scheduler.bell)
      if rung then v
      else (v.setBell bell).setNap j (some ⟨w.wakeAt v.scheduler.plan v.now, false⟩)
  | _ => v

/-- The worker is up. A ring that has woken it is handed on unless it is what the worker rose for. -/
def getUp (j : Nat) (c : Cause) : Vigil :=
  match v.naps j with
  | none => if c = .bell then v.setBell (v.scheduler.bell.listen j).2 else v
  | some n =>
    let v := (v.setBell (v.scheduler.bell.forget j)).setNap j none
    if n.rung && c ≠ .bell then v.ring else v

/-- The worker sends a run, or leaves. -/
def rise (j : Nat) (c : Cause) : List Event × Vigil :=
  if v.hasCause (v.stance j) c then
    let v := v.getUp j c
    if c = .cancelled then ([], { v with shift := v.shift.dismiss j })
    else ((v.shift.wake j).1.map .shift, { v with shift := (v.shift.wake j).2 })
  else ([], v)

def hear (j : Nat) (shake : Nat → Nat) : List Event × Vigil :=
  match v.shift.posts[j]? with
  | some (.running _ i) =>
    match v.shift.crew.runs[i]? with
    | some (.finished r) =>
      ([.heard j i r shake], { v with shift := v.shift.hear j shake v.now })
    | _ => ([], v)
  | _ => ([], v)

def pass (t : Nat) : Vigil :=
  if v.now < t ∧ (List.range v.shift.posts.length).all fun j => v.waits t (v.stance j) then
    { v with now := t }
  else v

def inside (mv : Shift.Move) : Program (List Event × Vigil) :=
  (v.shift.perform mv).bind fun (es, s) => .done (es.map .shift, { v with shift := s })

def perform : Move → Program (List Event × Vigil)
  | .crew mv => v.inside (.crew mv)
  | .check i => v.inside (.check i)
  | .inquire i => v.inside (.inquire i)
  | .hire => v.inside .hire
  | .ring => .done ([.rang], v.ring)
  | .lie j => .done ([], v.lie j)
  | .rise j c => .done (v.rise j c)
  | .hear j shake => .done (v.hear j shake)
  | .pass t => .done ([], v.pass t)

end

/-- What was seen, and when. -/
abbrev Log := List (Nat × Event)

/-- `Course v₀ m₀ es v m`: moves of a vigil over a store with the content `m₀` have led to `v` and `m`,
and `es` could be seen of them, the first first. -/
inductive Course (v₀ : Vigil) (m₀ : Content) : Log → Vigil → Content → Prop where
  | start : Course v₀ m₀ [] v₀ m₀
  | move {log : Log} {es : List Event} {v v' : Vigil} {m m' : Content} {mv : Move}
      {tr : List Observed} (h : Course v₀ m₀ log v m)
      (hf : Follows (v.perform mv) m tr (some (es, v')) m') :
      Course v₀ m₀ (log ++ es.map (v.now, ·)) v' m'

/-! ## What a move can come to -/

section
variable {v v' : Vigil} {m m' : Content} {es : List Event} {j : Nat}

/-- What a move can come to. -/
inductive Moved (v : Vigil) (m : Content) : List Event → Vigil → Content → Prop where
  | inside {es : List Shift.Event} {s : Shift} {m' : Content} (h : v.shift.Moved m es s m')
      (ho : s.Ordered) (hposts : s.posts = v.shift.posts) :
      Moved v m (es.map .shift) { v with shift := s } m'
  | hired : Moved v m [] { v with shift := { v.shift with
      posts := v.shift.posts ++ [.resting (.start v.scheduler.plan)] } } m
  | rang : Moved v m [.rang] v.ring m
  | lay {j : Nat} {w : Worker} {bell : Bell} (hj : v.stance j = .idle w)
      (hc : v.scheduler.cancelled = false) (hb : (w.listens && v.scheduler.bell.kept) = false)
      (hbell : bell = { v.scheduler.bell with listeners :=
        v.scheduler.bell.listeners ++ if w.listens then [j] else [] }) :
      Moved v m [] ((v.setBell bell).setNap j (some ⟨w.wakeAt v.scheduler.plan v.now, false⟩)) m
  | left {j : Nat} (hs : v.hasCause (v.stance j) .cancelled = true) :
      Moved v m [] { v.getUp j .cancelled with shift := { (v.getUp j .cancelled).shift with
        posts := v.shift.posts.set j .left } } m
  | sent {j : Nat} {w : Worker} {c : Cause} (hj : v.shift.posts[j]? = some (.resting w))
      (hc : c ≠ .cancelled) (hs : v.hasCause (v.stance j) c = true) :
      Moved v m [.shift (.sent j v.shift.crew.runs.length)] { v.getUp j c with
        shift := { (v.getUp j c).shift with
          crew := { (v.getUp j c).shift.crew with runs := v.shift.crew.runs ++ [.arriving] }
          posts := v.shift.posts.set j (.running w v.shift.crew.runs.length) } } m
  | heard {j i : Nat} {w : Worker} {r : Except RunError Summary} (shake : Nat → Nat)
      (hj : v.shift.posts[j]? = some (.running w i))
      (hi : v.shift.crew.runs[i]? = some (.finished r)) :
      Moved v m [.heard j i r shake] { v with shift := { v.shift with
        posts := v.shift.posts.set j (Shift.heard w shake v.now r) } } m
  | passed {t : Nat} (ht : v.now < t) (hw : ∀ j, v.waits t (v.stance j) = true) :
      Moved v m [] { v with now := t } m
  | kept : Moved v m [] v m

theorem post_of_stance {x : Stance} (h : v.stance j = x) : v.shift.posts[j]? = x.post? := by
  subst h
  unfold stance
  generalize v.shift.posts[j]? = post, v.naps j = nap
  cases post with
  | none => rfl
  | some post => cases post <;> cases nap <;> rfl

theorem posts_of_rests (h : (v.stance j).rests = true) : ∃ w, v.shift.posts[j]? = some (.resting w) := by
  rw [post_of_stance rfl]
  cases hx : v.stance j with
  | idle w | asleep w _ => exact ⟨w, rfl⟩
  | _ =>
    rw [hx] at h
    cases h

theorem rests_of_hasCause {x : Stance} {c : Cause} (h : v.hasCause x c = true) : x.rests = true := by
  cases x with
  | idle w | asleep w n => rfl
  | _ => cases c <;> cases h

theorem cancelled_of_hasCause {x : Stance} (h : v.hasCause x .cancelled = true) :
    v.scheduler.cancelled = true := by
  cases x with
  | idle w | asleep w n => exact h
  | _ => cases h

/-- Nobody but a listener hears the bell, and nobody starts to listen. -/
theorem ring_cases (v : Vigil) : ∃ bell naps, v.ring = { v.setBell bell with naps } ∧
    (∀ k ∈ bell.listeners, k ∈ v.scheduler.bell.listeners) ∧
    (v.scheduler.bell.kept = true → bell.kept = true) ∧
    ∀ k, naps k = v.naps k ∨ k ∈ v.scheduler.bell.listeners ∧
      naps k = (v.naps k).map fun n => { n with rung := true } := by
  unfold ring Bell.ring
  cases hl : v.scheduler.bell.listeners with
  | nil => exact ⟨_, _, rfl, fun k hk => hl ▸ hk, fun _ => rfl, fun k => .inl rfl⟩
  | cons j rest =>
    refine ⟨_, _, rfl, fun k hk => List.mem_cons_of_mem _ hk, id, fun k => ?_⟩
    rcases eq_or_ne k j with rfl | hkj
    · exact .inr ⟨List.mem_cons_self, Function.update_self _ _ _⟩
    · exact .inl (Function.update_of_ne hkj _ _)

/-- Who gets up is not asleep and does not listen. For the others it is at the most as if the bell had
been rung. -/
theorem getUp_cases {c : Cause} (hk : c = .bell → v.naps j = none → v.scheduler.bell.kept = true) :
    ∃ bell naps, v.getUp j c = { v.setBell bell with naps } ∧ naps j = none ∧
      (∀ k ∈ bell.listeners, k ∈ v.scheduler.bell.listeners ∧ (v.naps j ≠ none → k ≠ j)) ∧
      (c ≠ .bell → v.scheduler.bell.kept = true → bell.kept = true) ∧
      ∀ k, k ≠ j → naps k = v.naps k ∨ k ∈ v.scheduler.bell.listeners ∧
        naps k = (v.naps k).map fun n => { n with rung := true } := by
  unfold getUp
  cases hn : v.naps j with
  | none =>
    dsimp only
    split
    · rename_i hc
      rw [Bell.listen, if_pos (hk hc hn)]
      exact ⟨_, v.naps, rfl, hn, fun k hk => ⟨hk, fun h => absurd rfl h⟩, fun h => absurd hc h,
        fun k _ => .inl rfl⟩
    · exact ⟨v.scheduler.bell, v.naps, rfl, hn, fun k hk => ⟨hk, fun h => absurd rfl h⟩, fun _ => id,
        fun k _ => .inl rfl⟩
  | some n =>
    dsimp only
    have hforget {k : Nat} (hk : k ∈ (v.scheduler.bell.forget j).listeners) :
        k ∈ v.scheduler.bell.listeners ∧ (some n ≠ none → k ≠ j) := by
      obtain ⟨hk, hne⟩ := List.mem_filter.1 hk
      exact ⟨hk, fun _ => by simpa using hne⟩
    have hnaps {k : Nat} (hkj : k ≠ j) : Function.update v.naps j none k = v.naps k :=
      Function.update_of_ne hkj _ _
    split
    · obtain ⟨bell, naps, hring, hlisteners, hkept, hothers⟩ :=
        ring_cases ((v.setBell (v.scheduler.bell.forget j)).setNap j none)
      have hself : (Function.update v.naps j none : Nat → Option Nap) j = none :=
        Function.update_self _ _ _
      refine ⟨bell, naps, hring, ?_, fun k hk => hforget (hlisteners k hk), fun _ => hkept,
        fun k hkj => ?_⟩
      · rcases hothers j with hsame | ⟨-, hrung⟩
        · exact hsame.trans hself
        · exact hrung.trans (congrArg _ hself)
      · rcases hothers k with hsame | ⟨hk, hrung⟩
        · exact .inl (hsame.trans (hnaps hkj))
        · exact .inr ⟨(hforget hk).1, hrung.trans (congrArg _ (hnaps hkj))⟩
    · exact ⟨_, _, rfl, Function.update_self _ _ _, fun k hk => hforget hk, fun _ => id,
        fun k hkj => .inl (hnaps hkj)⟩

theorem kept_of_hasCause {c : Cause} (hs : v.hasCause (v.stance j) c = true) (hc : c = .bell)
    (hn : v.naps j = none) : v.scheduler.bell.kept = true := by
  obtain ⟨w, hj⟩ := posts_of_rests (rests_of_hasCause hs)
  rw [stance, hj, hn, hc] at hs
  exact (Bool.and_eq_true_iff.1 hs).2

theorem getUp_now {c : Cause} (hs : v.hasCause (v.stance j) c = true) : (v.getUp j c).now = v.now := by
  obtain ⟨bell, naps, hup, -⟩ := getUp_cases (kept_of_hasCause hs)
  rw [hup]
  rfl

theorem moved_of_lie (j : Nat) : Moved v m [] (v.lie j) m := by
  unfold lie
  split
  · rename_i w hj
    cases hc : v.scheduler.cancelled with
    | true => exact .kept
    | false =>
      rw [if_neg Bool.false_ne_true]
      cases hl : w.listens with
      | false => exact .lay hj hc (by rw [hl, Bool.false_and]) (by rw [hl]; simp)
      | true =>
        cases hk : v.scheduler.bell.kept with
        | true =>
          simp only [if_true, Bell.listen, hk]
          exact .kept
        | false =>
          simp only [if_true, Bell.listen, hk, Bool.false_eq_true, if_false]
          exact .lay hj hc (by rw [hk, Bool.and_false]) (by rw [hl]; simp [hk])
  · exact .kept

theorem rise_eq {w : Worker} {c : Cause} (hj : v.shift.posts[j]? = some (.resting w))
    (hs : v.hasCause (v.stance j) c = true) : v.rise j c =
      if c = .cancelled then ([], { v.getUp j c with shift := { (v.getUp j c).shift with
        posts := v.shift.posts.set j .left } })
      else ([.shift (.sent j v.shift.crew.runs.length)], { v.getUp j c with
        shift := { (v.getUp j c).shift with
          crew := { (v.getUp j c).shift.crew with runs := v.shift.crew.runs ++ [.arriving] }
          posts := v.shift.posts.set j (.running w v.shift.crew.runs.length) } }) := by
  obtain ⟨bell, naps, hup, -⟩ := getUp_cases (kept_of_hasCause hs)
  unfold rise
  rw [if_pos hs, hup]
  dsimp only
  split
  · rename_i hc
    subst hc
    have hcancelled : v.shift.crew.desk.scheduler.cancelled = true := cancelled_of_hasCause hs
    simp only [setBell, Shift.dismiss, hj, hcancelled]
  · simp only [setBell, Shift.wake, hj]
    rfl

theorem moved_of_rise (j : Nat) (c : Cause) : Moved v m (v.rise j c).1 (v.rise j c).2 m := by
  by_cases hs : v.hasCause (v.stance j) c = true
  · obtain ⟨w, hj⟩ := posts_of_rests (rests_of_hasCause hs)
    rw [rise_eq hj hs]
    split
    · rename_i hc
      subst hc
      exact .left hs
    · rename_i hc
      exact .sent hj hc hs
  · unfold rise
    rw [if_neg hs]
    exact .kept

theorem shift_hear {w : Worker} {i now : Nat} {r : Except RunError Summary}
    (hj : v.shift.posts[j]? = some (.running w i))
    (hi : v.shift.crew.runs[i]? = some (.finished r)) (shake : Nat → Nat) :
    v.shift.hear j shake now = { v.shift with
      posts := v.shift.posts.set j (Shift.heard w shake now r) } := by
  simp only [Shift.hear, hj, hi]

theorem moved_of_hear (j : Nat) (shake : Nat → Nat) :
    Moved v m (v.hear j shake).1 (v.hear j shake).2 m := by
  unfold hear
  split
  · rename_i w i hj
    split
    · rename_i r hi
      rw [shift_hear hj hi]
      exact .heard shake hj hi
    · exact .kept
  · exact .kept

theorem moved_of_pass (t : Nat) : Moved v m [] (v.pass t) m := by
  unfold pass
  split
  · rename_i h
    refine .passed h.1 fun j => ?_
    rcases Nat.lt_or_ge j v.shift.posts.length with hlt | hge
    · exact List.all_eq_true.1 h.2 j (List.mem_range.2 hlt)
    · rw [stance, List.getElem?_eq_none hge]
      rfl
  · exact .kept

/-- Whether it is a move of the runs, which leaves the workers where they are. -/
def Move.ofRuns : Move → Bool
  | .crew _ | .check _ | .inquire _ => true
  | .hire | .ring | .lie _ | .rise _ _ | .hear _ _ | .pass _ => false

theorem moved_of_inside {mv : Shift.Move} {tr : List Observed} (ho : v.shift.Ordered)
    (hposts : ∀ {tr es s m'}, Follows (v.shift.perform mv) m tr (some (es, s)) m' →
      s.posts = v.shift.posts)
    (h : Follows (v.inside mv) m tr (some (es, v')) m') :
    ∃ es' s, es = es'.map .shift ∧ v' = { v with shift := s } ∧ v.shift.Moved m es' s m' ∧
      s.Ordered ∧ s.posts = v.shift.posts := by
  obtain ⟨out, hperform, hout⟩ := h.of_bind_done
  obtain ⟨⟨es', s⟩, rfl, hx⟩ := Option.map_eq_some_iff.1 hout.symm
  cases hx
  exact ⟨es', s, rfl, rfl, Shift.moved_of_follows ho hperform, ho.moved hperform, hposts hperform⟩

theorem moved_of_ofRuns {mv : Move} {tr : List Observed} (ho : v.shift.Ordered)
    (hmv : mv.ofRuns = true) (h : Follows (v.perform mv) m tr (some (es, v')) m') :
    ∃ es' s, es = es'.map .shift ∧ v' = { v with shift := s } ∧ v.shift.Moved m es' s m' ∧
      s.Ordered ∧ s.posts = v.shift.posts := by
  cases mv with
  | crew mv =>
    refine moved_of_inside ho (fun {_ _ _ _} h => ?_) h
    obtain ⟨out, -, hout⟩ := h.of_bind_done
    obtain ⟨x, rfl, hx⟩ := Option.map_eq_some_iff.1 hout.symm
    cases hx
    rfl
  | check i =>
    refine moved_of_inside ho (fun {_ _ _ _} h => ?_) h
    obtain ⟨hout, -⟩ := Follows.eq_of_done h
    cases hout
    unfold Shift.check
    split
    · split <;> rfl
    · rfl
  | inquire i =>
    refine moved_of_inside ho (fun {_ _ _ _} h => ?_) h
    obtain ⟨hout, -⟩ := Follows.eq_of_done h
    cases hout
    unfold Shift.inquire
    split
    · rfl
    · split <;> rfl
  | hire | ring | lie _ | rise _ _ | hear _ _ | pass _ => cases hmv

/-- **A move comes to one of these.** -/
theorem moved_of_follows {mv : Move} {tr : List Observed} (ho : v.shift.Ordered)
    (h : Follows (v.perform mv) m tr (some (es, v')) m') : Moved v m es v' m' := by
  have of_done {x : List Event × Vigil} (h : Follows (.done x) m tr (some (es, v')) m')
      (hx : Moved v m x.1 x.2 m) : Moved v m es v' m' := by
    obtain ⟨rfl, rfl⟩ := h.eq_of_done
    exact hx
  cases hmv : mv.ofRuns with
  | true =>
    obtain ⟨es', s, rfl, rfl, hmoved, hordered, hposts⟩ := moved_of_ofRuns ho hmv h
    exact .inside hmoved hordered hposts
  | false =>
    cases mv with
    | crew _ | check _ | inquire _ => cases hmv
    | hire =>
      obtain ⟨hout, rfl⟩ := Follows.eq_of_done h
      cases hout
      exact .hired
    | ring => exact of_done h .rang
    | lie j => exact of_done h (moved_of_lie j)
    | rise j c => exact of_done h (moved_of_rise j c)
    | hear j shake => exact of_done h (moved_of_hear j shake)
    | pass t => exact of_done h (moved_of_pass t)

/-! ## What stays -/

theorem ordered_setBell (ho : v.shift.Ordered) (bell : Bell) : (v.setBell bell).shift.Ordered where
  orderly := ho.orderly.imp fun _ hc => hc.outside rfl rfl
  busy := ho.busy
  looking := ho.looking

theorem ordered_came {s : Shift} (ho : s.Ordered) (posts : List Post) : Shift.Ordered
    ⟨{ s.crew with runs := s.crew.runs ++ [.arriving] }, s.found, posts⟩ := by
  obtain ⟨hbusy, hlooking⟩ := ho.found_moved (m := fun _ => none) .came
  exact ⟨ho.orderly.imp fun _ hc => hc.came, hbusy, hlooking⟩

theorem Moved.ordered (ho : v.shift.Ordered) (h : Moved v m es v' m') : v'.shift.Ordered := by
  cases h with
  | inside _ ho _ => exact ho
  | hired | heard _ _ _ => exact ⟨ho.orderly, ho.busy, ho.looking⟩
  | passed _ _ | kept => exact ho
  | rang =>
    obtain ⟨bell, naps, hring, -⟩ := ring_cases v
    rw [hring]
    exact ordered_setBell ho bell
  | lay _ _ _ _ => exact ordered_setBell ho _
  | left hs =>
    obtain ⟨bell, naps, hup, -⟩ := getUp_cases (kept_of_hasCause hs)
    have ho := ordered_setBell ho bell
    rw [hup]
    exact ⟨ho.orderly, ho.busy, ho.looking⟩
  | sent _ _ hs =>
    obtain ⟨bell, naps, hup, -⟩ := getUp_cases (kept_of_hasCause hs)
    rw [hup]
    exact ordered_came (ordered_setBell ho bell) _

/-- The plan is the same for ever, and cancelling is for good. -/
theorem Moved.scheduler (h : Moved v m es v' m') : v'.scheduler.plan = v.scheduler.plan ∧
    (v.scheduler.cancelled = true → v'.scheduler.cancelled = true) := by
  cases h with
  | inside h _ _ =>
    obtain ⟨turn, stats, suspended, cancelled, hscheduler, hstays⟩ := h.scheduler
    rw [Vigil.scheduler, hscheduler]
    exact ⟨rfl, hstays⟩
  | hired | heard _ _ _ | passed _ _ | kept | lay _ _ _ _ => exact ⟨rfl, id⟩
  | rang =>
    obtain ⟨bell, naps, hring, -⟩ := ring_cases v
    rw [hring]
    exact ⟨rfl, id⟩
  | left hs | sent _ _ hs =>
    obtain ⟨bell, naps, hup, -⟩ := getUp_cases (kept_of_hasCause hs)
    rw [hup]
    exact ⟨rfl, id⟩

/-! ## Who is asleep -/

/-- Only workers that rest are asleep, and only those of them listen that wait no back-off out. -/
structure Attentive (v : Vigil) : Prop where
  napping : ∀ j, v.naps j ≠ none → ∃ w, v.shift.posts[j]? = some (.resting w)
  listening : ∀ j ∈ v.scheduler.bell.listeners, ∃ w n, v.stance j = .asleep w n ∧ w.listens = true

theorem stance_congr {v' : Vigil} {k : Nat} (hposts : v'.shift.posts[k]? = v.shift.posts[k]?)
    (hnaps : v'.naps k = v.naps k) : v'.stance k = v.stance k := by
  rw [stance, hposts, hnaps, stance]

theorem naps_setNap (v : Vigil) (j : Nat) (n : Option Nap) : (v.setNap j n).naps j = n := by
  simp only [setNap, Function.update_self]

theorem stance_setNap_of_ne {k : Nat} (bell : Bell) (n : Option Nap) (hkj : k ≠ j) :
    ((v.setBell bell).setNap j n).stance k = v.stance k := by
  refine stance_congr rfl ?_
  simp only [setNap, Function.update_of_ne hkj]
  rfl

theorem stance_setNap {w : Worker} (hj : v.shift.posts[j]? = some (.resting w)) (bell : Bell) (n : Nap) :
    ((v.setBell bell).setNap j (some n)).stance j = .asleep w n :=
  congrArg₂ Stance.of hj (naps_setNap _ j _)

theorem nap_of_asleep {w : Worker} {n : Nap} (h : v.stance j = .asleep w n) : v.naps j = some n := by
  have hpost := post_of_stance h
  rw [stance, hpost] at h
  cases hnap : v.naps j with
  | none =>
    rw [hnap] at h
    cases h
  | some n' =>
    rw [hnap] at h
    cases h
    rfl

theorem Attentive.not_asleep (ha : v.Attentive) {w : Worker} {i : Nat}
    (hj : v.shift.posts[j]? = some (.running w i)) : v.naps j = none := by
  by_contra hnap
  obtain ⟨w', hw'⟩ := ha.napping j hnap
  cases hj.symm.trans hw'

/-- A listener that has been woken listens no more. -/
theorem Attentive.woken (ha : v.Attentive) (v' : Vigil) {k : Nat}
    (hposts : v'.shift.posts[k]? = v.shift.posts[k]?)
    (hnaps : v'.naps k = v.naps k ∨ k ∈ v.scheduler.bell.listeners ∧
      v'.naps k = (v.naps k).map fun n => { n with rung := true }) :
    v'.stance k = v.stance k ∨ ∃ w n, v.stance k = .asleep w n ∧ w.listens = true ∧
      v'.stance k = .asleep w { n with rung := true } := by
  rcases hnaps with hsame | ⟨hk, hrung⟩
  · exact .inl (stance_congr hposts hsame)
  · obtain ⟨w, n, hstance, hl⟩ := ha.listening k hk
    refine .inr ⟨w, n, hstance, hl, ?_⟩
    rw [stance, hposts, post_of_stance hstance, hrung, nap_of_asleep hstance]
    rfl

/-- For the others it is as if the bell had been rung when a worker gets up, at the most. -/
theorem Attentive.others {c : Cause} {v' : Vigil} (ha : v.Attentive)
    (hs : v.hasCause (v.stance j) c = true) (hnaps : v'.naps = (v.getUp j c).naps)
    (hposts : ∀ k, k ≠ j → v'.shift.posts[k]? = v.shift.posts[k]?) {k : Nat} (hkj : k ≠ j) :
    v'.stance k = v.stance k ∨ ∃ w n, v.stance k = .asleep w n ∧ w.listens = true ∧
      v'.stance k = .asleep w { n with rung := true } := by
  obtain ⟨bell, naps, hup, -, -, -, hothers⟩ := getUp_cases (kept_of_hasCause hs)
  rw [hup] at hnaps
  refine ha.woken v' (hposts k hkj) ?_
  rw [hnaps]
  exact hothers k hkj

theorem Attentive.up {c : Cause} {v' : Vigil} (ha : v.Attentive)
    (hs : v.hasCause (v.stance j) c = true) (hnaps : v'.naps = (v.getUp j c).naps)
    (hbell : v'.scheduler.bell = (v.getUp j c).scheduler.bell)
    (hposts : ∀ k, k ≠ j → v'.shift.posts[k]? = v.shift.posts[k]?) : v'.Attentive := by
  obtain ⟨bell, naps, hup, hself, hlisteners, -, hothers⟩ := getUp_cases (kept_of_hasCause hs)
  rw [hup] at hbell
  refine ⟨fun k hk => ?_, fun k hk => ?_⟩
  · rw [hnaps, hup] at hk
    have hkj : k ≠ j := by
      rintro rfl
      exact hk hself
    rw [hposts k hkj]
    refine ha.napping k fun hnone => hk ?_
    rcases hothers k hkj with hsame | ⟨-, hrung⟩
    · exact hsame.trans hnone
    · exact hrung.trans (congrArg _ hnone)
  · rw [hbell] at hk
    obtain ⟨hk, hne⟩ := hlisteners k hk
    obtain ⟨w, n, hstance, hl⟩ := ha.listening k hk
    have hkj : k ≠ j := by
      rintro rfl
      exact hne (by rw [nap_of_asleep hstance]; exact Option.some_ne_none n) rfl
    rcases ha.others hs hnaps hposts hkj with hsame | ⟨w, n, -, hl, hrung⟩
    · exact ⟨w, n, hsame.trans hstance, hl⟩
    · exact ⟨w, _, hrung, hl⟩

theorem attentive_opened {d : Desk} (hsilent : d.scheduler.bell = .silent) (now : Nat) :
    (opened d now).Attentive where
  napping j hj := absurd rfl hj
  listening j hj := by
    change j ∈ d.scheduler.bell.listeners at hj
    rw [hsilent] at hj
    cases hj

theorem Attentive.moved (ha : v.Attentive) (h : Moved v m es v' m') : v'.Attentive := by
  have same {v' : Vigil} (hnaps : v'.naps = v.naps)
      (hbell : v'.scheduler.bell.listeners = v.scheduler.bell.listeners)
      (hposts : ∀ (k : Nat) (w : Worker), v.shift.posts[k]? = some (.resting w) →
        v'.shift.posts[k]? = some (.resting w)) : v'.Attentive := by
    refine ⟨fun k hk => ?_, fun k hk => ?_⟩
    · obtain ⟨w, hw⟩ := ha.napping k (hnaps ▸ hk)
      exact ⟨w, hposts k w hw⟩
    · obtain ⟨w, n, hstance, hl⟩ := ha.listening k (hbell ▸ hk)
      have hpost := post_of_stance hstance
      refine ⟨w, n, ?_, hl⟩
      rw [stance_congr ((hposts k w hpost).trans hpost.symm) (congrFun hnaps k), hstance]
  cases h with
  | inside h _ hposts =>
    obtain ⟨turn, stats, suspended, cancelled, hscheduler, -⟩ := h.scheduler
    exact same rfl (congrArg (·.bell.listeners) hscheduler) fun k w hk =>
      (congrArg (·[k]?) hposts).trans hk
  | hired =>
    exact same rfl rfl fun k w hk =>
      (List.getElem?_append_left (List.getElem?_eq_some_iff.1 hk).1).trans hk
  | passed _ _ | kept => exact same rfl rfl fun _ _ => id
  | @heard j i w r shake hj hi =>
    refine same rfl rfl fun k w' hk => (List.getElem?_set_ne ?_).trans hk
    rintro rfl
    cases hj.symm.trans hk
  | rang =>
    obtain ⟨bell, naps, hring, hlisteners, -, hothers⟩ := ring_cases v
    rw [hring]
    refine ⟨fun k hk => ha.napping k fun hnone => hk ?_, fun k hk => ?_⟩
    · rcases hothers k with hsame | ⟨-, hrung⟩
      · exact hsame.trans hnone
      · exact hrung.trans (congrArg _ hnone)
    · obtain ⟨w, n, hstance, hl⟩ := ha.listening k (hlisteners k hk)
      rcases ha.woken { v.setBell bell with naps } rfl (hothers k) with hsame | ⟨w, n, -, hl, hrung⟩
      · exact ⟨w, n, hsame.trans hstance, hl⟩
      · exact ⟨w, _, hrung, hl⟩
  | @lay j w bell hj hc hb hbell =>
    have hpost : v.shift.posts[j]? = some (.resting w) := post_of_stance hj
    refine ⟨fun k hk => ?_, fun k hk => ?_⟩
    · rcases eq_or_ne k j with rfl | hkj
      · exact ⟨w, hpost⟩
      · exact ha.napping k fun hnone => hk ((Function.update_of_ne hkj _ _).trans hnone)
    · change k ∈ bell.listeners at hk
      rw [hbell] at hk
      rcases List.mem_append.1 hk with hk | hk
      · obtain ⟨w', n, hstance, hl⟩ := ha.listening k hk
        have hkj : k ≠ j := by
          rintro rfl
          cases hj.symm.trans hstance
        exact ⟨w', n, (stance_setNap_of_ne bell _ hkj).trans hstance, hl⟩
      · cases hl : w.listens with
        | false => simp [hl] at hk
        | true =>
          simp only [hl, if_true, List.mem_singleton] at hk
          subst hk
          exact ⟨w, _, stance_setNap hpost bell _, hl⟩
  | left hs => exact ha.up hs rfl rfl fun k hkj => List.getElem?_set_ne hkj.symm
  | sent _ _ hs => exact ha.up hs rfl rfl fun k hkj => List.getElem?_set_ne hkj.symm

/-! ## What a move comes to for one worker -/

/-- What is seen of a worker. -/
inductive Doing where
  | sent (i : Nat)
  | heard (i : Nat) (r : Except RunError Summary) (shake : Nat → Nat)

def Event.doing? (j : Nat) : Event → Option Doing
  | .shift (.sent k i) => if k = j then some (.sent i) else none
  | .heard k i r shake => if k = j then some (.heard i r shake) else none
  | .shift (.crew _) | .shift (.asked _ _ _) | .rang => none

def doings (j : Nat) (es : List Event) : List Doing := es.filterMap (Event.doing? j)

/-- What a move can come to for a worker while the clock stands still: its stance before, what is seen
of it and its stance after. -/
inductive Turned (v : Vigil) : Stance → List Doing → Stance → Prop where
  | same (x : Stance) : Turned v x [] x
  | hired : Turned v .absent [] (.idle (.start v.scheduler.plan))
  | lay {w : Worker} (hc : v.scheduler.cancelled = false)
      (hb : (w.listens && v.scheduler.bell.kept) = false) :
      Turned v (.idle w) [] (.asleep w ⟨w.wakeAt v.scheduler.plan v.now, false⟩)
  | rung {w : Worker} {n : Nap} (hl : w.listens = true) :
      Turned v (.asleep w n) [] (.asleep w { n with rung := true })
  | left {x : Stance} (hs : v.hasCause x .cancelled = true) : Turned v x [] .left
  | sent {x : Stance} {w : Worker} {c : Cause} (hw : x.worker? = some w) (hc : c ≠ .cancelled)
      (hs : v.hasCause x c = true) :
      Turned v x [.sent v.shift.crew.runs.length] (.running w v.shift.crew.runs.length)
  | heard {w : Worker} {i : Nat} {r : Except RunError Summary} (shake : Nat → Nat)
      (hi : v.shift.crew.runs[i]? = some (.finished r)) :
      Turned v (.running w i) [.heard i r shake] (.ofPost (Shift.heard w shake v.now r))

theorem doings_inside {es : List Shift.Event} {s : Shift} {m' : Content} (h : v.shift.Moved m es s m')
    (hposts : s.posts = v.shift.posts) (j : Nat) : doings j (es.map .shift) = [] := by
  rw [doings, List.filterMap_map]
  refine List.filterMap_eq_nil_iff.2 fun e he => ?_
  cases e with
  | sent k i =>
    obtain ⟨-, w, hresting, hrunning⟩ := h.of_sent he
    cases hresting.symm.trans (hposts ▸ hrunning)
  | _ => rfl

theorem stance_of_post {post : Post} (hpost : v.shift.posts[j]? = some post) (hnap : v.naps j = none) :
    v.stance j = .ofPost post := by
  rw [stance, hpost, hnap]
  cases post <;> rfl

theorem worker_of_resting {w : Worker} (h : v.shift.posts[j]? = some (.resting w)) :
    (v.stance j).worker? = some w := by
  rw [stance, h]
  cases v.naps j <;> rfl

/-- **A move comes to one of these for a worker**, or it lets time pass for which the worker waits. -/
theorem Attentive.turned (ha : v.Attentive) (h : Moved v m es v' m') (j : Nat) :
    v'.now = v.now ∧ Turned v (v.stance j) (doings j es) (v'.stance j) ∨
      es = [] ∧ v.now < v'.now ∧ v'.shift = v.shift ∧ v'.stance j = v.stance j ∧
        v.waits v'.now (v.stance j) = true := by
  have same {v' : Vigil} (hnow : v'.now = v.now) (hdoings : doings j es = [])
      (hstance : v'.stance j = v.stance j) :
      v'.now = v.now ∧ Turned v (v.stance j) (doings j es) (v'.stance j) := by
    rw [hdoings, hstance]
    exact ⟨hnow, .same _⟩
  have woken {v' : Vigil} (hnow : v'.now = v.now) (hdoings : doings j es = [])
      (hwoken : v'.stance j = v.stance j ∨ ∃ w n, v.stance j = .asleep w n ∧ w.listens = true ∧
        v'.stance j = .asleep w { n with rung := true }) :
      v'.now = v.now ∧ Turned v (v.stance j) (doings j es) (v'.stance j) := by
    rcases hwoken with hsame | ⟨w, n, hstance, hl, hrung⟩
    · exact same hnow hdoings hsame
    · rw [hdoings, hstance, hrung]
      exact ⟨hnow, .rung hl⟩
  have posted {v' : Vigil} {post : Post} (hnow : v'.now = v.now)
      (hpost : v'.shift.posts[j]? = some post) (hnap : v'.naps j = none)
      (hturned : Turned v (v.stance j) (doings j es) (.ofPost post)) :
      v'.now = v.now ∧ Turned v (v.stance j) (doings j es) (v'.stance j) := by
    rw [stance_of_post hpost hnap]
    exact ⟨hnow, hturned⟩
  cases h with
  | inside h _ hposts =>
    exact .inl (same rfl (doings_inside h hposts j) (stance_congr (congrArg (·[j]?) hposts) rfl))
  | hired =>
    rcases Nat.lt_trichotomy j v.shift.posts.length with hlt | rfl | hgt
    · exact .inl (same rfl rfl (stance_congr (List.getElem?_append_left hlt) rfl))
    · have hnone : v.shift.posts[v.shift.posts.length]? = none := List.getElem?_eq_none (Nat.le_refl _)
      have hnap : v.naps v.shift.posts.length = none := by
        by_contra hnap
        obtain ⟨w, hw⟩ := ha.napping _ hnap
        cases hnone.symm.trans hw
      have hbefore : v.stance v.shift.posts.length = .absent := by rw [stance, hnone]; rfl
      refine .inl (posted rfl List.getElem?_concat_length hnap ?_)
      rw [hbefore]
      exact .hired
    · refine .inl (same rfl rfl (stance_congr ?_ rfl))
      rw [List.getElem?_eq_none (Nat.le_of_lt hgt), List.getElem?_eq_none]
      rw [List.length_append]
      exact hgt
  | kept => exact .inl (same rfl rfl rfl)
  | passed ht hw => exact .inr ⟨rfl, ht, rfl, rfl, hw j⟩
  | rang =>
    obtain ⟨bell, naps, hring, -, -, hothers⟩ := ring_cases v
    rw [hring]
    exact .inl (woken rfl rfl (ha.woken _ rfl (hothers j)))
  | @lay k w bell hk hc hb hbell =>
    rcases eq_or_ne j k with rfl | hjk
    · rw [hk, stance_setNap (post_of_stance hk)]
      exact .inl ⟨rfl, .lay hc hb⟩
    · exact .inl (same rfl rfl (stance_setNap_of_ne bell _ hjk))
  | @left k hs =>
    rcases eq_or_ne j k with rfl | hjk
    · obtain ⟨w, hj⟩ := posts_of_rests (rests_of_hasCause hs)
      obtain ⟨bell, naps, hup, hself, -⟩ := getUp_cases (kept_of_hasCause hs)
      rw [hup]
      exact .inl (posted rfl (List.getElem?_set_self (List.getElem?_eq_some_iff.1 hj).1) hself (.left hs))
    · refine .inl (woken (getUp_now hs) rfl (ha.others hs ?_ ?_ hjk))
      · rfl
      · exact fun k hk => List.getElem?_set_ne hk.symm
  | @sent k w c hk hc hs =>
    rcases eq_or_ne j k with rfl | hjk
    · obtain ⟨bell, naps, hup, hself, -⟩ := getUp_cases (kept_of_hasCause hs)
      have hdoings : doings j [.shift (.sent j v.shift.crew.runs.length)] =
          [.sent v.shift.crew.runs.length] := by simp [doings, Event.doing?]
      rw [hup]
      refine .inl (posted rfl (List.getElem?_set_self (List.getElem?_eq_some_iff.1 hk).1) hself ?_)
      rw [hdoings]
      exact .sent (worker_of_resting hk) hc hs
    · have hdoings : doings j [.shift (.sent k v.shift.crew.runs.length)] = [] := by
        simp [doings, Event.doing?, hjk.symm]
      refine .inl (woken (getUp_now hs) hdoings (ha.others hs ?_ ?_ hjk))
      · rfl
      · exact fun k hk => List.getElem?_set_ne hk.symm
  | @heard k i w r shake hk hi =>
    rcases eq_or_ne j k with rfl | hjk
    · have hnap := ha.not_asleep hk
      have hdoings : doings j [.heard j i r shake] = [.heard i r shake] := by
        simp [doings, Event.doing?]
      refine .inl (posted rfl (List.getElem?_set_self (List.getElem?_eq_some_iff.1 hk).1) hnap ?_)
      rw [hdoings, stance_of_post hk hnap]
      exact .heard shake hi
    · have hdoings : doings j [.heard k i r shake] = [] := by simp [doings, Event.doing?, hjk.symm]
      exact .inl (same rfl hdoings (stance_congr (List.getElem?_set_ne hjk.symm) rfl))

/-! ## Courses -/

/-- The move is one that is named. -/
theorem Course.step {v₀ : Vigil} {m₀ : Content} {log : Log} {tr : List Observed}
    (h : Course v₀ m₀ log v m) (mv : Move) (hf : Follows (v.perform mv) m tr (some (es, v')) m') :
    Course v₀ m₀ (log ++ es.map (v.now, ·)) v' m' := h.move hf

theorem Course.ordered {v₀ : Vigil} {m₀ : Content} {log : Log} (h : Course v₀ m₀ log v m)
    (ho : v₀.shift.Ordered) : v.shift.Ordered := by
  induction h with
  | start => exact ho
  | move _ hf ih => exact (moved_of_follows ih hf).ordered ih

theorem Course.attentive {v₀ : Vigil} {m₀ : Content} {log : Log} (h : Course v₀ m₀ log v m)
    (ho : v₀.shift.Ordered) (ha : v₀.Attentive) : v.Attentive := by
  induction h with
  | start => exact ha
  | move h hf ih => exact ih.moved (moved_of_follows (h.ordered ho) hf)

theorem Course.plan {v₀ : Vigil} {m₀ : Content} {log : Log} (h : Course v₀ m₀ log v m)
    (ho : v₀.shift.Ordered) : v.scheduler.plan = v₀.scheduler.plan := by
  induction h with
  | start => rfl
  | move h hf ih => exact (moved_of_follows (h.ordered ho) hf).scheduler.1.trans ih

end
end Vigil
end PingDelivery.Upload
