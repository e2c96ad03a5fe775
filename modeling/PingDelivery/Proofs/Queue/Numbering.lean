import Mathlib.Algebra.Group.Nat.Defs
import PingDelivery.Proofs.Queue.Rehydration

/-! # Sequence numbers

A queue numbers its pings upwards and a retried ping keeps its number, so the numbers ascend along
the list and the next one lies above them all. `Numbered` is kept by every request, and by opening
even though the next number is then taken from the last ping that is left. Numbers have 64 bits;
`Unexhausted` says that they have not run out.
-/

namespace PingDelivery

/-- What does not change about a ping while it is queued and over openings. -/
def Ping.lasting (p : Ping) : Uuid × Ping.Content := (p.id, p.settled.content)

@[simp] theorem Ping.lasting_settled (p : Ping) : p.settled.lasting = p.lasting := by
  rw [lasting, settled_settled]
  rfl

theorem map_lasting_settled (l : List Ping) : (l.map Ping.settled).map Ping.lasting = l.map Ping.lasting := by
  rw [List.map_map]
  exact List.map_congr_left fun p _ => p.lasting_settled

namespace Queue
open Store

/-- The number of every pending ping has a successor. -/
def Unexhausted (q : Queue) : Prop := ∀ p ∈ q.pings, p.sequence.toNat + 1 < 2 ^ 64

abbrev Ascending (l : List Ping) : Prop := l.Pairwise fun a b => a.sequence < b.sequence

theorem Ascending.settled {l : List Ping} (h : Ascending l) : Ascending (l.map Ping.settled) :=
  List.pairwise_map.2 h

structure Numbered (q : Queue) : Prop where
  ascending : Ascending q.pings
  below : ∀ p ∈ q.pings, p.sequence < q.nextSequence

theorem map_replaceFirst {α : Type} {f : Ping → α} {l : List Ping} (hl : (ids l).Nodup)
    {p p' : Ping} (hp : p ∈ l) (hid : p'.id = p.id) (hf : f p' = f p) :
    (replaceFirst p' l).map f = l.map f := by
  rw [replaceFirst_eq_map hl, List.map_map]
  refine List.map_congr_left ?_
  intro x hx
  by_cases hx' : x.id = p'.id
  · obtain rfl := eq_of_id hl hx hp (hx'.trans hid)
    simp only [Function.comp_apply, if_pos hx', hf]
  · simp only [Function.comp_apply, if_neg hx']

/-- Whatever a request writes, all pings but a new one are lasting. -/
theorem lasting_change {q q' : Queue} {r : Request} {c : Call} {reply : Reply}
    (hl : (ids q.pings).Nodup) (hc : Change q r c q' reply) :
    (∃ p, r = .enqueue p ∧ q'.pings.map Ping.lasting = q.pings.map Ping.lasting ++ [p.lasting]) ∨
      (q'.pings.map Ping.lasting).Sublist (q.pings.map Ping.lasting) := by
  cases hc with
  | @pushed p _ => exact .inl ⟨p, rfl, List.map_append⟩
  | acked _ _ => exact .inr (List.eraseP_sublist.map _)
  | exhausted _ _ => exact .inr (List.eraseP_sublist.map _)
  | @retried id p hsome _ =>
    obtain ⟨hmem, -⟩ := id_of_find hsome
    have hmap : (replaceFirst p.attempted q.pings).map Ping.lasting = q.pings.map Ping.lasting :=
      map_replaceFirst hl hmem rfl rfl
    exact .inr (hmap ▸ List.Sublist.refl _)

theorem toNat_succ {n : UInt64} (h : n.toNat + 1 < 2 ^ 64) : (n + 1).toNat = n.toNat + 1 := by
  rw [UInt64.toNat_add, UInt64.toNat_one]
  exact Nat.mod_eq_of_lt h

theorem lt_succ {n : UInt64} (h : n.toNat + 1 < 2 ^ 64) : n < n + 1 := by
  rw [UInt64.lt_iff_toNat_lt, toNat_succ h]
  exact Nat.lt_succ_self _

theorem map_sequence_retried {l : List Ping} (hl : (ids l).Nodup) {p : Ping} (hp : p ∈ l) :
    (replaceFirst p.attempted l).map (·.sequence) = l.map (·.sequence) :=
  map_replaceFirst hl hp rfl rfl

/-- The list ascends after a request even where the numbers run out with it. -/
theorem Numbered.ascending_change {q q' : Queue} {r : Request} {c : Call} {reply : Reply}
    (h : Numbered q) (hl : (ids q.pings).Nodup) (hc : Change q r c q' reply) :
    Ascending q'.pings := by
  cases hc with
  | pushed _ =>
    refine List.pairwise_append.2 ⟨h.ascending, List.pairwise_singleton _ _, ?_⟩
    intro x hx y hy
    cases List.mem_singleton.1 hy
    exact h.below x hx
  | acked _ _ => exact h.ascending.sublist List.eraseP_sublist
  | exhausted _ _ => exact h.ascending.sublist List.eraseP_sublist
  | retried hsome _ =>
    have hasc := List.pairwise_map.2 h.ascending
    rw [← map_sequence_retried hl (id_of_find hsome).1] at hasc
    exact List.pairwise_map.1 hasc

theorem Numbered.change {q q' : Queue} {r : Request} {c : Call} {reply : Reply} (h : Numbered q)
    (hl : (ids q.pings).Nodup) (hc : Change q r c q' reply) (hroom : q'.Unexhausted) :
    Numbered q' := by
  refine ⟨h.ascending_change hl hc, ?_⟩
  intro x hx
  cases hc with
  | @pushed p _ =>
    have hnext : q.nextSequence < q.nextSequence + 1 := lt_succ
      (hroom { p with sequence := q.nextSequence } (List.mem_append_right _ List.mem_cons_self))
    rcases List.mem_append.1 hx with hx | hx
    · exact UInt64.lt_trans (h.below x hx) hnext
    · cases List.mem_singleton.1 hx
      exact hnext
  | acked _ _ => exact h.below x (List.eraseP_sublist.subset hx)
  | exhausted _ _ => exact h.below x (List.eraseP_sublist.subset hx)
  | @retried id p hsome _ =>
    have hseq : x.sequence ∈ (replaceFirst p.attempted q.pings).map (·.sequence) :=
      List.mem_map_of_mem hx
    rw [map_sequence_retried hl (id_of_find hsome).1] at hseq
    obtain ⟨y, hy, hyx⟩ := List.mem_map.1 hseq
    exact hyx ▸ h.below y hy

/-- The next number after opening lies above the last ping that is left. -/
theorem numbered_restored {c : Config} {l : List Ping} {corrupt dropped : Nat} (h : Ascending l)
    (hroom : (restored c l corrupt dropped).Unexhausted) :
    Numbered (restored c l corrupt dropped) := by
  refine ⟨h, ?_⟩
  intro p hp
  have hne : l ≠ [] := List.ne_nil_of_mem hp
  have hlast : (restored c l corrupt dropped).nextSequence = (l.getLast hne).sequence + 1 := by
    rw [restored, List.getLast?_eq_getLast_of_ne_nil hne]
    rfl
  have hsucc := lt_succ (hroom _ (List.getLast_mem hne))
  rw [hlast]
  rw [← List.dropLast_append_getLast hne] at h hp
  rcases List.mem_append.1 hp with hp | hp
  · have := (List.pairwise_append.1 h).2.2 p hp _ List.mem_cons_self
    exact UInt64.lt_trans this hsucc
  · cases List.mem_singleton.1 hp
    exact hsucc

/-! ## Opening a numbered store -/

theorem ascending_of_sorted {l : List Ping} (h : l.Pairwise fun a b => precedes a b = true)
    (hne : l.Pairwise fun a b => a.sequence ≠ b.sequence) : Ascending l := by
  refine (h.and hne).imp fun {a b} ⟨hab, hne⟩ => ?_
  rcases precedes_iff.1 hab with hlt | ⟨heq, -⟩
  · exact hlt
  · exact absurd heq hne

/-- A listing of a mirrored list with ascending numbers is that list, as its records read. -/
theorem Listing.eq_of_mirror {m : Content} {l l' : List Ping} (hl' : Listing m l')
    (hm : Mirror m l) (hl : Ascending l) : l' = l.map Ping.settled := by
  have hl := hl.settled
  have hmem (p : Ping) : p ∈ l.map Ping.settled ↔ stored? m (Record.key p.id) = some p := by
    rw [List.mem_map]
    constructor
    · rintro ⟨x, hx, rfl⟩
      exact hm.held x hx
    · exact hm.exists_of_stored
  have hperm : l'.Perm (l.map Ping.settled) := by
    refine (List.perm_ext_iff_of_nodup (List.Nodup.of_map _ hl'.distinct)
      (List.Nodup.of_map _ hm.settled.distinct)).2 fun p => ?_
    rw [hl'.mem_iff, hmem]
  have hne : ((l.map Ping.settled).map (·.sequence)).Nodup :=
    List.pairwise_map.2 (hl.imp UInt64.ne_of_lt)
  have hne' := List.pairwise_map.1 ((hperm.map (·.sequence)).nodup_iff.2 hne)
  have hasc := ascending_of_sorted hl'.sorted hne'
  exact hperm.eq_of_pairwise (fun a b _ _ hab hba => absurd hba (UInt64.lt_asymm hab)) hasc hl

/-- **Opening a mirrored store cuts a front part off**, however far it comes. -/
theorem Rebuilt.mirrored {c : Config} {m m' : Content} {tr : List Observed}
    {out : Option (Ended QueueError Queue)} {gone kept l : List Ping}
    (h : Rebuilt c m tr out m' gone kept) (hm : Mirror m l) (hl : Ascending l) :
    ∃ l', l' <:+ l.map Ping.settled ∧ Mirror m' l' ∧ ∀ q, out = some (.ok q) → q.pings = l' := by
  rcases h.listing with rfl | hlisting
  · have hsame : m' = m := by
      funext k
      rcases h.changed k with heq | ⟨-, hu | ⟨p, hp, -⟩⟩
      · exact heq
      · rw [hm.readable k] at hu
        cases hu
      · cases hp
    refine ⟨_, List.suffix_refl _, hsame ▸ hm.settled, ?_⟩
    intro q hq
    obtain ⟨hlisting, -, -, corrupt, rfl, -⟩ := h.opened q hq
    exact hlisting.eq_of_mirror hm hl
  · have hwhole := hlisting.eq_of_mirror hm hl
    refine ⟨kept, hwhole ▸ List.suffix_append gone kept, h.mirror_of_readable hlisting ?_, ?_⟩
    · intro k
      rcases h.changed k with heq | ⟨hnone, -⟩
      · rw [unreadable_congr heq, hm.readable k]
      · exact unreadable_of_none hnone
    · intro q hq
      obtain ⟨-, -, -, corrupt, rfl, -⟩ := h.opened q hq
      rfl

end Queue
end PingDelivery
