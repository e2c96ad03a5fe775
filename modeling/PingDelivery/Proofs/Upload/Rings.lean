import Mathlib.Data.Finset.Card
import PingDelivery.Proofs.Upload.Bell

/-! # Rings are neither lost nor multiplied

Every ring that has not been used is kept or has woken a sleeper. A run that is sent because the bell
has rung uses one up, so there are never more of these than rings. Only one ring is kept: however often
the bell rings while the only worker is about a run or waits a back-off out, one run at most is sent for
it.
-/

namespace PingDelivery.Upload
open Store
namespace Vigil

/-! ## Keeping a diary -/

/-- A move, when it was made and what was seen of it. -/
structure Entry where
  time : Nat
  move : Move
  seen : List Event

def Event.isRing : Event → Bool
  | .rang => true
  | .shift _ | .heard _ _ _ _ => false

def Event.isSending : Event → Bool
  | .shift (.sent _ _) => true
  | .shift (.crew _) | .shift (.asked _ _ _) | .rang | .heard _ _ _ _ => false

namespace Entry

def log (e : Entry) : Log := e.seen.map (e.time, ·)

def rings (e : Entry) : Nat := e.seen.countP Event.isRing

/-- The runs that the workers have sent. -/
def sends (e : Entry) : Nat := e.seen.countP Event.isSending

/-- Those of them that were sent because it was time. -/
def timed (e : Entry) : Nat :=
  match e.move with
  | .rise _ .timer => e.sends
  | _ => 0

end Entry

def total (f : Entry → Nat) (book : List Entry) : Nat := (book.map f).sum

theorem total_append (f : Entry → Nat) (book book' : List Entry) :
    total f (book ++ book') = total f book + total f book' := by
  rw [total, List.map_append, List.sum_append]
  rfl

theorem total_concat (f : Entry → Nat) (book : List Entry) (e : Entry) :
    total f (book ++ [e]) = total f book + f e := total_append f book [e]

/-- `Diary v₀ m₀ book v m`: a course from `v₀` and `m₀` to `v` and `m` of which `book` tells every
move. -/
inductive Diary (v₀ : Vigil) (m₀ : Content) : List Entry → Vigil → Content → Prop where
  | start : Diary v₀ m₀ [] v₀ m₀
  | move {book : List Entry} {seen : List Event} {v v' : Vigil} {m m' : Content} (mv : Move)
      {tr : List Observed} (h : Diary v₀ m₀ book v m)
      (hf : Follows (v.perform mv) m tr (some (seen, v')) m') :
      Diary v₀ m₀ (book ++ [⟨v.now, mv, seen⟩]) v' m'

section
variable {u v v' : Vigil} {m m' : Content} {es : List Event} {j n : Nat} {book : List Entry}

theorem Diary.course (h : Diary u m book v m') : Course u m (book.flatMap Entry.log) v m' := by
  induction h with
  | start => exact .start
  | move mv _ hf ih =>
    rw [List.flatMap_append, List.flatMap_singleton]
    exact ih.step mv hf

/-! ## Rings that have not been used -/

def rungFor (n : Nat) (naps : Nat → Option Nap) : Finset Nat :=
  (Finset.range n).filter fun k => (naps k).any Nap.rung = true

/-- The rings that have not been used: one that is kept, and those that have woken a sleeper. -/
def unused (v : Vigil) : Nat :=
  v.scheduler.bell.kept.toNat + (rungFor v.shift.posts.length v.naps).card

theorem mem_rungFor {naps : Nat → Option Nap} {k : Nat} :
    k ∈ rungFor n naps ↔ k < n ∧ (naps k).any Nap.rung = true := by
  rw [rungFor, Finset.mem_filter, Finset.mem_range]

theorem card_rungFor_le (naps : Nat → Option Nap) (j : Nat) (nap : Option Nap) :
    (rungFor n (Function.update naps j nap)).card ≤ (rungFor n naps).card + 1 := by
  have hsub : rungFor n (Function.update naps j nap) ⊆ insert j (rungFor n naps) := by
    intro k hk
    rcases eq_or_ne k j with rfl | hkj
    · exact Finset.mem_insert_self k _
    · rw [mem_rungFor, Function.update_of_ne hkj] at hk
      exact Finset.mem_insert_of_mem (mem_rungFor.2 hk)
  exact (Finset.card_le_card hsub).trans (Finset.card_insert_le j _)

/-- Whoever was woken before is so no more. -/
theorem card_rungFor_quiet (naps : Nat → Option Nap) {nap : Option Nap} (hj : j < n)
    (hnap : nap.any Nap.rung = false) :
    (rungFor n (Function.update naps j nap)).card + ((naps j).any Nap.rung).toNat ≤
      (rungFor n naps).card := by
  have hsub : rungFor n (Function.update naps j nap) ⊆ (rungFor n naps).erase j := by
    intro k hk
    rcases eq_or_ne k j with rfl | hkj
    · rw [mem_rungFor, Function.update_self, hnap] at hk
      cases hk.2
    · rw [mem_rungFor, Function.update_of_ne hkj] at hk
      exact Finset.mem_erase.2 ⟨hkj, mem_rungFor.2 hk⟩
  have hle := Finset.card_le_card hsub
  cases hrung : (naps j).any Nap.rung with
  | false => exact hle.trans (Finset.card_le_card (Finset.erase_subset j _))
  | true =>
    have hmem : j ∈ rungFor n naps := mem_rungFor.2 ⟨hj, hrung⟩
    have hpos := Finset.card_pos.2 ⟨j, hmem⟩
    rw [Finset.card_erase_of_mem hmem] at hle
    rw [Bool.toNat_true]
    omega

theorem unused_ring (v : Vigil) : v.ring.unused ≤ v.unused + 1 := by
  cases hlisteners : v.scheduler.bell.listeners with
  | nil =>
    rw [ring_of_nil hlisteners]
    change 1 + (rungFor v.shift.posts.length v.naps).card ≤
      v.scheduler.bell.kept.toNat + (rungFor v.shift.posts.length v.naps).card + 1
    omega
  | cons k rest =>
    rw [ring_of_cons hlisteners]
    have hle := card_rungFor_le (n := v.shift.posts.length) v.naps k
      ((v.naps k).map fun nap => { nap with rung := true })
    change v.scheduler.bell.kept.toNat + (rungFor v.shift.posts.length _).card ≤
      v.scheduler.bell.kept.toNat + (rungFor v.shift.posts.length v.naps).card + 1
    exact Nat.add_le_add_left hle _

/-- Who rises for the bell uses a ring up. Who rises for another cause uses none: it hands on the one
that has woken it. -/
theorem Attentive.unused_getUp {c : Cause} (ha : v.Attentive)
    (hs : v.hasCause (v.stance j) c = true) :
    (v.getUp j c).unused + (if c = .bell then 1 else 0) ≤ v.unused := by
  unfold getUp
  cases hn : v.naps j with
  | none =>
    dsimp only
    split
    · rename_i hc
      have hkept := kept_of_hasCause hs hc hn
      rw [Bell.listen, if_pos hkept]
      change 0 + (rungFor v.shift.posts.length v.naps).card + 1 ≤
        v.scheduler.bell.kept.toNat + (rungFor v.shift.posts.length v.naps).card
      rw [hkept, Bool.toNat_true]
      omega
    · exact Nat.le_refl _
  | some nap =>
    obtain ⟨w, hj⟩ := ha.napping j (by rw [hn]; exact Option.some_ne_none nap)
    have hlt := (List.getElem?_eq_some_iff.1 hj).1
    have hquiet := card_rungFor_quiet v.naps hlt (Option.any_none (p := Nap.rung))
    rw [hn, Option.any_some] at hquiet
    have hforgot : ((v.setBell (v.scheduler.bell.forget j)).setNap j none).unused + nap.rung.toNat ≤
        v.unused := by
      rw [unused, unused, Nat.add_assoc]
      exact Nat.add_le_add_left hquiet _
    dsimp only
    split
    · rename_i hboth
      obtain ⟨hrung, hc⟩ := Bool.and_eq_true_iff.1 hboth
      have hring := unused_ring ((v.setBell (v.scheduler.bell.forget j)).setNap j none)
      rw [if_neg (of_decide_eq_true hc)]
      rw [hrung, Bool.toNat_true] at hforgot
      omega
    · split
      · rename_i hc
        have hrung : nap.rung = true := by
          rw [stance, hj, hn, hc] at hs
          exact hs
        rw [hrung, Bool.toNat_true] at hforgot
        exact hforgot
      · exact (Nat.le_add_right _ _).trans hforgot

theorem length_posts_getUp {c : Cause} (hs : v.hasCause (v.stance j) c = true) (post : Post) :
    (v.shift.posts.set j post).length = (v.getUp j c).shift.posts.length := by
  rw [getUp_posts hs]
  exact List.length_set ..

/-- Nothing but the bell makes rings. -/
theorem Moved.unused_le (ha : v.Attentive) (h : Moved v m es v' m') :
    v'.unused ≤ v.unused + es.countP Event.isRing := by
  have same {u v' : Vigil} (hle : u.unused ≤ v.unused)
      (hkept : v'.scheduler.bell.kept = u.scheduler.bell.kept)
      (hposts : v'.shift.posts.length = u.shift.posts.length) (hnaps : v'.naps = u.naps) (n : Nat) :
      v'.unused ≤ v.unused + n := by
    rw [unused, hkept, hposts, hnaps]
    exact hle.trans (Nat.le_add_right _ _)
  have up {j : Nat} {c : Cause} (hs : v.hasCause (v.stance j) c = true) :
      (v.getUp j c).unused ≤ v.unused := (Nat.le_add_right _ _).trans (ha.unused_getUp hs)
  cases h with
  | inside h _ hposts =>
    obtain ⟨turn, stats, suspended, cancelled, hscheduler, -⟩ := h.scheduler
    refine same (Nat.le_refl _) ?_ ?_ ?_ _
    · exact congrArg (·.bell.kept) hscheduler
    · exact congrArg List.length hposts
    · rfl
  | hired =>
    have hnone : v.naps v.shift.posts.length = none := by
      by_contra hnap
      obtain ⟨w, hw⟩ := ha.napping _ hnap
      exact Nat.lt_irrefl _ (List.getElem?_eq_some_iff.1 hw).1
    have hsub : rungFor (v.shift.posts ++ [Post.resting (.start v.scheduler.plan)]).length v.naps ⊆
        rungFor v.shift.posts.length v.naps := by
      intro k hk
      obtain ⟨hlt, hrung⟩ := mem_rungFor.1 hk
      refine mem_rungFor.2 ⟨?_, hrung⟩
      rw [List.length_append, List.length_singleton] at hlt
      refine lt_of_le_of_ne (Nat.le_of_lt_succ hlt) ?_
      rintro rfl
      rw [hnone] at hrung
      cases hrung
    exact Nat.add_le_add_left (Finset.card_le_card hsub) _
  | rang => exact unused_ring v
  | @lay j w bell hj _ _ hbell =>
    subst hbell
    have hlt := (List.getElem?_eq_some_iff.1 (post_of_stance hj)).1
    exact Nat.add_le_add_left ((Nat.le_add_right _ _).trans (card_rungFor_quiet v.naps hlt rfl)) _
  | left hs | sent _ _ hs =>
    refine same (up hs) ?_ ?_ ?_ _
    · rfl
    · exact length_posts_getUp hs _
    · rfl
  | heard _ _ _ =>
    refine same (Nat.le_refl _) ?_ ?_ ?_ _
    · rfl
    · exact List.length_set ..
    · rfl
  | passed _ _ | kept => exact Nat.le_refl _

/-! ## Runs and rings -/

theorem sendings_inside {es : List Shift.Event} {s : Shift} (h : v.shift.Moved m es s m')
    (hposts : s.posts = v.shift.posts) :
    (es.map Event.shift).countP Event.isSending = 0 := by
  refine List.countP_eq_zero.2 fun e he => ?_
  obtain ⟨e', -, rfl⟩ := List.mem_map.1 he
  cases e' with
  | crew _ | asked _ _ _ => exact Bool.false_ne_true
  | sent k i =>
    have hdoing := mem_doings.2 he
    rw [doings_inside h hposts k] at hdoing
    cases hdoing

/-- Only a worker that rises sends a run. -/
theorem sends_of_other {mv : Move} {tr : List Observed} (ho : v.shift.Ordered)
    (hmv : ∀ j c, mv ≠ .rise j c) (hf : Follows (v.perform mv) m tr (some (es, v')) m') :
    es.countP Event.isSending = 0 := by
  cases hruns : mv.ofRuns with
  | true =>
    obtain ⟨es', s, rfl, -, hmoved, -, hposts⟩ := moved_of_ofRuns ho hruns hf
    exact sendings_inside hmoved hposts
  | false =>
    cases mv with
    | crew _ | check _ | inquire _ => cases hruns
    | rise j c => exact absurd rfl (hmv j c)
    | hire | ring | lie _ | pass _ =>
      obtain ⟨hout, -⟩ := Follows.eq_of_done hf
      cases hout
      rfl
    | hear j shake =>
      obtain ⟨hout, -⟩ := Follows.eq_of_done hf
      obtain rfl : es = (v.hear j shake).1 := congrArg Prod.fst hout
      unfold hear
      split
      · split <;> rfl
      · rfl

theorem timed_of_other {e : Entry} (h : ∀ j, e.move ≠ .rise j .timer) : e.timed = 0 := by
  unfold Entry.timed
  split
  · rename_i hmove
    exact absurd hmove (h _)
  · rfl

theorem Attentive.unused_rise {c : Cause} (ha : v.Attentive)
    (hs : v.hasCause (v.stance j) c = true) :
    (v.rise j c).2.unused + (if c = .bell then 1 else 0) ≤ v.unused := by
  obtain ⟨w, hj⟩ := posts_of_rests (rests_of_hasCause hs)
  have hsame : (v.rise j c).2.unused = (v.getUp j c).unused := by
    rw [rise_eq hj hs]
    split <;> simp only [unused, scheduler, length_posts_getUp hs]
  rw [hsame]
  exact ha.unused_getUp hs

/-- **Every run that is not sent because it was time uses a ring up.** -/
theorem Regular.sends_le (hv : v.Regular) {mv : Move} {tr : List Observed}
    (hf : Follows (v.perform mv) m tr (some (es, v')) m') :
    Entry.sends ⟨v.now, mv, es⟩ + v'.unused ≤
      Entry.timed ⟨v.now, mv, es⟩ + Entry.rings ⟨v.now, mv, es⟩ + v.unused := by
  by_cases hmv : ∃ j c, mv = .rise j c
  · obtain ⟨j, c, rfl⟩ := hmv
    obtain ⟨hout, -⟩ := Follows.eq_of_done hf
    obtain rfl : es = (v.rise j c).1 := congrArg Prod.fst hout
    obtain rfl : v' = (v.rise j c).2 := congrArg Prod.snd hout
    by_cases hs : v.hasCause (v.stance j) c = true
    · have hunused := hv.attentive.unused_rise hs
      have hrise := rise_cases hs
      cases c with
      | cancelled =>
        obtain ⟨hseen, -⟩ := hrise
        simp only [Entry.sends, Entry.timed, Entry.rings, hseen]
        exact (Nat.zero_add _).trans_le (hunused.trans (Nat.le_add_left _ _))
      | timer =>
        refine Nat.add_le_add (Nat.le_add_right _ _) ?_
        exact hunused
      | bell =>
        obtain ⟨hseen, -⟩ := hrise
        simp only [Entry.sends, Entry.timed, Entry.rings, hseen]
        exact (Nat.add_comm _ _).trans_le (hunused.trans (Nat.le_add_left _ _))
    · have hstays : v.rise j c = ([], v) := if_neg hs
      rw [hstays]
      exact Nat.add_le_add (Nat.zero_le _) (Nat.le_refl _)
  · have hother : ∀ j c, mv ≠ .rise j c := fun j c h => hmv ⟨j, c, h⟩
    have hsends : Entry.sends ⟨v.now, mv, es⟩ = 0 := sends_of_other hv.ordered hother hf
    have hunused := (moved_of_follows hv.ordered hf).unused_le hv.attentive
    rw [hsends, timed_of_other fun j => hother j .timer, Nat.zero_add, Nat.zero_add, Nat.add_comm]
    exact hunused

theorem Diary.regular (h : Diary u m book v m') (hu : u.Regular) : v.Regular :=
  h.course.regular hu

/-- **Rings are not multiplied.** -/
theorem Diary.sends_le (h : Diary u m book v m') (hu : u.Regular) :
    total Entry.sends book + v.unused ≤
      total Entry.timed book + total Entry.rings book + u.unused := by
  induction h with
  | start => exact Nat.add_le_add (Nat.zero_le _) (Nat.le_refl _)
  | move mv h hf ih =>
    have hstep := (h.regular hu).sends_le hf
    simp only [total_concat]
    omega

/-! ## One worker -/

/-- The worker is about a run or waits a back-off out. -/
def Engaged (v : Vigil) (j : Nat) : Prop :=
  (∃ w i, v.shift.posts[j]? = some (.running w i)) ∨
    ∃ w, v.shift.posts[j]? = some (.resting w) ∧ w.retryAt ≠ none

/-- Whoever else there was has left. -/
def Alone (v : Vigil) (j : Nat) : Prop :=
  ∀ k post, k ≠ j → v.shift.posts[k]? = some post → post = .left

/-- However often the bell has rung for it, there is one ring at the most. -/
theorem Regular.unused_le_one (hv : v.Regular) (he : v.Engaged j) (ha : v.Alone j) :
    v.unused ≤ 1 := by
  have hnone : rungFor v.shift.posts.length v.naps = ∅ := by
    refine Finset.eq_empty_iff_forall_notMem.2 fun k hk => ?_
    obtain ⟨-, hrung⟩ := mem_rungFor.1 hk
    cases hnap : v.naps k with
    | none =>
      rw [hnap] at hrung
      cases hrung
    | some nap =>
      rw [hnap, Option.any_some] at hrung
      obtain ⟨w, hw⟩ := hv.attentive.napping k (by rw [hnap]; exact Option.some_ne_none nap)
      rcases eq_or_ne k j with rfl | hkj
      · rcases he with ⟨w', i, hrunning⟩ | ⟨w', hresting, hretry⟩
        · cases hw.symm.trans hrunning
        · cases hw.symm.trans hresting
          have hstance : v.stance k = .asleep w nap := by rw [stance, hw, hnap]; rfl
          have hfits := hv.fits k
          rw [hstance] at hfits
          have hlistens := hfits.1 hrung
          exact hretry (Option.isNone_iff_eq_none.1 hlistens)
      · cases ha k _ hkj hw
  rw [unused, hnone, Finset.card_empty]
  exact Bool.toNat_le _

/-- **Rings are merged.** While the only worker is about one run or waits one back-off out the bell may
ring as often as it likes: but for the runs that are sent because it is time or for later rings, one
more is sent at the most. -/
theorem Diary.merged {v₁ : Vigil} {m₁ : Content} {book₁ book₂ : List Entry} (hu : u.Regular)
    (h₁ : Diary u m book₁ v₁ m₁) (hnone : total Entry.sends book₁ = 0) (he : v₁.Engaged j)
    (ha : v₁.Alone j) (h₂ : Diary v₁ m₁ book₂ v m') : total Entry.sends (book₁ ++ book₂) ≤
      total Entry.timed (book₁ ++ book₂) + 1 + total Entry.rings book₂ := by
  have hv₁ := h₁.regular hu
  have hone := hv₁.unused_le_one he ha
  have hle := h₂.sends_le hv₁
  rw [total_append, total_append]
  omega

/-! ## Neither lost nor multiplied -/

/-- What becomes of the rings when a vigil has got to `u` and `m`. -/
structure Answering (u : Vigil) (m : Content) : Prop where
  /-- Where a ring is kept a worker waits for nothing but the end of its back-off. -/
  waits : ∀ (j : Nat) (w : Worker) (t : Nat), u.shift.posts[j]? = some (.resting w) →
    u.scheduler.bell.kept = true → u.now < t → u.waits t (u.stance j) = true →
      ∃ r, w.retryAt = some r ∧ t ≤ r
  /-- Where a worker rests that waits no back-off out a ring that is kept is answered at once. -/
  kept : ∀ (j : Nat) (w : Worker), u.shift.posts[j]? = some (.resting w) → w.retryAt = none →
    u.scheduler.bell.kept = true → ∀ log v m', Course u m log v m' →
      v.scheduler.cancelled = false → ∃ k, v.SendsBy log k u.now
  /-- So is one that comes then. -/
  interval : ∀ (j : Nat) (w : Worker), u.shift.posts[j]? = some (.resting w) → w.retryAt = none →
    ∀ log v m', Course u.ring m log v m' → v.scheduler.cancelled = false →
      ∃ k, v.SendsBy log k u.now
  /-- One that comes during a run is answered at once when the run is over, unless somebody else has
  answered it before. -/
  run : ∀ (j : Nat) (w : Worker) (i : Nat), u.shift.posts[j]? = some (.running w i) →
    ∀ log₁ v₁ m₁ r shake, Course u.ring m log₁ v₁ m₁ → doings j (log₁.map (·.2)) = [] →
      v₁.shift.crew.runs[i]? = some (.finished r) →
      (∀ s, r = .ok s → s.stopReason = .queueEmpty) → (∀ e, r = .error e → e.isFatal = false) →
      ∀ log v m', Course (v₁.hear j shake).2 m₁ log v m' → v.scheduler.cancelled = false →
        (∃ t k i', k ≠ j ∧ (t, .shift (.sent k i')) ∈ log₁) ∨ ∃ k, v.SendsBy log k v₁.now
  /-- However often the bell rings during a back-off, the next run is sent at the end of it. -/
  backOff : ∀ (j : Nat) (w : Worker) (t : Nat), u.shift.posts[j]? = some (.resting w) →
    w.retryAt = some t → u.now ≤ t → ∀ log v m', Course u m log v m' →
      (∀ t' i, (t', .shift (.sent j i)) ∈ log → t ≤ t') ∧
        (v.scheduler.cancelled = false → v.SendsBy log j t)
  /-- However often the bell rings while the only worker is about one run or waits one back-off out,
  one run at the most is sent for it: the others are sent because it is time or for later rings. -/
  merged : ∀ j book₁ v₁ m₁ book₂ v m', Diary u m book₁ v₁ m₁ → total Entry.sends book₁ = 0 →
    v₁.Engaged j → v₁.Alone j → Diary v₁ m₁ book₂ v m' → total Entry.sends (book₁ ++ book₂) ≤
      total Entry.timed (book₁ ++ book₂) + 1 + total Entry.rings book₂

/-- **Rings are neither lost nor multiplied.** Whatever has been done, a ring is answered before time
passes, or when the run is over during which it has come, or at the end of the back-off; and no more
runs are sent than there are rings but for those that are sent because it is time. -/
theorem rings_neither_lost_nor_multiplied {d : Desk} {now : Nat} {m₀ : Content}
    (hfree : d.scheduler.turn = .free) (hsilent : d.scheduler.bell = .silent)
    (h : Diary (opened d now) m₀ book u m) : u.Answering m ∧
      total Entry.sends book ≤ total Entry.timed book + total Entry.rings book := by
  have hopened := regular_opened hfree hsilent now
  have hu := h.regular hopened
  have hunused : (opened d now).unused = 0 := by
    have hkept : (opened d now).scheduler.bell.kept = false := congrArg Bell.kept hsilent
    rw [unused, hkept]
    rfl
  refine ⟨⟨?_, ?_, ?_, ?_, ?_, ?_⟩, ?_⟩
  · exact fun j w t hj hk ht hwaits => hu.kept_in_back_off hk hj ht hwaits
  · exact fun j w hj hw hk log v m' hcourse hc => hu.answered_where_kept hk hj hw hcourse hc
  · exact fun j w hj hw log v m' hcourse hc => hu.answered_at_once hj hw hcourse hc
  · intro j w i hj log₁ v₁ m₁ r shake h₁ hquiet hi hok herror log v m' hcourse hc
    exact hu.answered_after_run hj h₁ hquiet hi hok herror hcourse hc
  · exact fun j w t hj hw ht log v m' hcourse => hu.sends_after_back_off hj hw ht hcourse
  · exact fun j book₁ v₁ m₁ book₂ v m' h₁ hnone he ha h₂ => h₁.merged hu hnone he ha h₂
  · have hle := h.sends_le hopened
    omega

end

/-- The bell rings, and a worker sends a run. The bell rings twice more during the run, which finds the
queue empty; one more run is sent, at once. -/
theorem merges_two_rings : ∃ (d : Desk) (book book₁ book₂ : List Entry) (u v₁ v : Vigil)
    (m m₁ m' : Content), d.scheduler.turn = .free ∧ d.scheduler.bell = .silent ∧
      Diary (opened d 0) (fun _ => none) book u m ∧ Diary u m book₁ v₁ m₁ ∧ v₁.Engaged 0 ∧
      v₁.Alone 0 ∧ Diary v₁ m₁ book₂ v m' ∧ total Entry.rings book₁ = 2 ∧
      total Entry.rings book₂ = 0 ∧ total Entry.sends (book₁ ++ book₂) = 1 ∧
      total Entry.timed (book₁ ++ book₂) = 0 ∧ v.now = 0 ∧ u.Answering m := by
  let d : Desk := { Client.plain.desk with queue := .restored .standard [] 0 0 }
  let about (kept : Bool) : Vigil :=
    ⟨⟨⟨⟨{ d.scheduler with bell := ⟨kept, []⟩ }, d.queue⟩, [.arriving]⟩, fun _ => .nothing,
      [.running (.start d.scheduler.plan) 0]⟩, 0, fun _ => none⟩
  have h : Diary (opened d 0) (fun _ => none) [] _ _ := .start
  have h := h.move .hire (.done _ _)
  have h := h.move .ring (.done _ _)
  obtain ⟨book, h⟩ : ∃ book, Diary (opened d 0) _ book (about false) _ :=
    ⟨_, h.move (.rise 0 .bell) (.done _ _)⟩
  have h₁ : Diary (about false) (fun _ => none) [] _ _ := .start
  have h₁ := h₁.move .ring (.done _ _)
  have h₁ : Diary _ _ [⟨0, .ring, [.rang]⟩, ⟨0, .ring, [.rang]⟩] (about true) _ :=
    h₁.move .ring (.done _ _)
  have h₂ : Diary (about true) (fun _ => none) [] _ _ := .start
  have h₂ := h₂.move (.crew (.ask 0)) (.done _ _)
  have h₂ := h₂.move (.crew (.act 0 .enter)) (.done _ _)
  have h₂ := h₂.move (.crew (.act 0 (.look false false))) (.done _ _)
  have h₂ := h₂.move (.hear 0 id) (.done _ _)
  have h₂ := h₂.move (.rise 0 .bell) (.done _ _)
  have halone : (about true).Alone 0 := by
    intro k post hk hpost
    cases k with
    | zero => exact absurd rfl hk
    | succ k => cases hpost
  exact ⟨d, _, _, _, _, _, _, _, _, _, rfl, rfl, h, h₁, .inl ⟨_, _, rfl⟩, halone, h₂, rfl, rfl, rfl,
    rfl, rfl, (rings_neither_lost_nor_multiplied rfl rfl h).1⟩

end Vigil
end PingDelivery.Upload
