import PingDelivery.Proofs.Dict
import PingDelivery.Proofs.Queue.Salvage
import Mathlib.Data.List.Nodup

/-! # Openings that are cut short

An opening may fail or die at any of its calls, and so may the next. What they leave is a `Remnant`
of the content: the pings that are gone are the first in the order, each of which was due to go, and
the unreadable records that are gone would have gone anyway. The rest is found in the same order
again, as long as the store lists what is left as it did before, also where two pings bear the same
number and age. So whoever opens next carries on where the last one stopped; and if a record panics
the opening, it panics every one of them.
-/

namespace PingDelivery.Queue
open Store

/-- What is listed stands in the order of the list. -/
def InOrder (order : List String) (tr : List Observed) : Prop :=
  ∀ (keys : List String) (tr' : List Observed), tr = .called .list (.ok keys) :: tr' →
    keys.Sublist order

/-- `Interrupted c order m m'`: openings have left `m'` of `m`, one after the other, each of which may
have failed or died anywhere. -/
inductive Interrupted (c : Config) (order : List String) (m : Content) : Content → Prop where
  | start : Interrupted c order m m
  | again {m₁ m₂ : Content} {tr : List Observed} {out : Option (Ended QueueError Queue)}
      (h : Interrupted c order m m₁) (hf : Follows (rehydrate c) m₁ tr out m₂)
      (horder : InOrder order tr) : Interrupted c order m m₂

/-- Openings write nothing. -/
theorem Interrupted.noneOverlong {c : Config} {order : List String} {m m' : Content}
    (h : Interrupted c order m m') (hread : NoneOverlong m) : NoneOverlong m' := by
  induction h with
  | start => exact hread
  | again _ hf _ ih =>
    obtain ⟨gone, kept, hrebuilt⟩ := rebuilt_of_follows hf
    intro k b hping hk
    rcases hrebuilt.changed k with hsame | ⟨hnone, -⟩
    · exact ih k b hping (hsame.symm.trans hk)
    · cases hnone.symm.trans hk

theorem Interrupted.jams {c : Config} {order : List String} {m m' : Content}
    (h : Interrupted c order m m') {k : String} {b : Bytes} (hj : Jams m k b) : Jams m' k b := by
  induction h with
  | start => exact hj
  | again _ hf _ ih =>
    obtain ⟨gone, kept, hrebuilt⟩ := rebuilt_of_follows hf
    exact ih.kept (hrebuilt.jammed k b ih)

/-- The content without the records of all pings but those of the list. -/
def leaving (m : Content) (l : List Ping) : Content := fun k =>
  if Record.isPingKey k = true ∧ ∀ p ∈ l, Record.key p.id ≠ k then none else m k

/-! ## One order only -/

section
variable {α : Type} {l : List α} {a b : α}

theorem pairwise_idxOf [DecidableEq α] (h : l.Nodup) :
    l.Pairwise fun a b => l.idxOf a < l.idxOf b := by
  rw [List.pairwise_iff_getElem]
  intro i j hi hj hij
  rw [h.idxOf_getElem, h.idxOf_getElem]
  exact hij

/-- Of two elements one stands first. -/
theorem pair_sublist (ha : a ∈ l) (hb : b ∈ l) (hne : a ≠ b) :
    [a, b].Sublist l ∨ [b, a].Sublist l := by
  obtain ⟨s, t, rfl⟩ := List.append_of_mem ha
  rcases List.mem_append.1 hb with hs | ht
  · right
    exact (List.singleton_sublist.2 hs).append (List.singleton_sublist.2 List.mem_cons_self)
  · left
    have hbt : b ∈ t := (List.mem_cons.1 ht).resolve_left hne.symm
    exact ((List.singleton_sublist.2 hbt).cons_cons a).trans (List.sublist_append_right _ _)

end

/-- By sequence number, then by age, then as listed. -/
def Ahead (order : List String) (a b : Ping) : Prop :=
  precedes a b = true ∧
    (precedes b a = true → order.idxOf (Record.key a.id) < order.idxOf (Record.key b.id))

theorem Ahead.asymm {order : List String} {a b : Ping} (h : Ahead order a b) : ¬ Ahead order b a := by
  intro h'
  exact Nat.lt_asymm (h.2 h'.1) (h'.2 h.1)

/-- Pings that are listed in the order are put in order so that those which neither precede nor follow
each other stay as listed. -/
theorem ahead_ordered {order : List String} {found : List Ping}
    (hfound : found.Pairwise fun a b => order.idxOf (Record.key a.id) < order.idxOf (Record.key b.id)) :
    (ordered found).Pairwise (Ahead order) := by
  have hperm : (ordered found).Perm found := List.mergeSort_perm found precedes
  have hsorted : (ordered found).Pairwise fun a b => precedes a b = true :=
    List.pairwise_mergeSort precedes_trans precedes_total found
  have hdistinct : (ordered found).Nodup := by
    refine hperm.nodup_iff.2 (hfound.imp fun {a b} hlt heq => ?_)
    rw [heq] at hlt
    exact Nat.lt_irrefl _ hlt
  rw [List.pairwise_iff_forall_sublist]
  intro a b hab
  refine ⟨List.pairwise_iff_forall_sublist.1 hsorted hab, fun hba => ?_⟩
  have hne : a ≠ b := List.pairwise_iff_forall_sublist.1 hdistinct hab
  have ha : a ∈ found := hperm.mem_iff.1 (hab.subset List.mem_cons_self)
  have hb : b ∈ found := hperm.mem_iff.1 (hab.subset (List.mem_cons_of_mem _ List.mem_cons_self))
  rcases pair_sublist ha hb hne with hsub | hsub
  · exact List.pairwise_iff_forall_sublist.1 hfound hsub
  · -- the sort is stable, so they would stand the other way round
    have hback := List.pair_sublist_mergeSort precedes_trans precedes_total hba hsub
    have hidx := pairwise_idxOf hdistinct
    exact absurd (List.pairwise_iff_forall_sublist.1 hidx hab)
      (Nat.lt_asymm (List.pairwise_iff_forall_sublist.1 hidx hback))

/-- A listing in which no two pings could stand the other way round. -/
structure Roll (order : List String) (m : Content) (l : List Ping) : Prop where
  listing : Listing m l
  ahead : l.Pairwise (Ahead order)

theorem Roll.unique {order : List String} {m : Content} {l l' : List Ping} (h : Roll order m l)
    (h' : Roll order m l') : l = l' := by
  have hperm : l.Perm l' := by
    refine (List.perm_ext_iff_of_nodup (List.Nodup.of_map _ h.listing.distinct)
      (List.Nodup.of_map _ h'.listing.distinct)).2 fun p => ?_
    rw [h.listing.mem_iff, h'.listing.mem_iff]
  exact hperm.eq_of_pairwise (fun a b _ _ hab hba => absurd hba hab.asymm) h.ahead h'.ahead

theorem Found.roll {order : List String} {m : Content} {l : List Ping} {tr : List Observed}
    (h : Found m l tr) (hnodup : order.Nodup) (horder : InOrder order tr) : Roll order m l := by
  refine ⟨h.listing, ?_⟩
  obtain @⟨keys, tr', -, -, rfl⟩ := h
  refine ahead_ordered (List.pairwise_filterMap.2 ?_)
  refine ((pairwise_idxOf hnodup).sublist (horder _ _ rfl)).imp ?_
  intro k k' hlt p hp p' hp'
  rwa [key_of_stored hp, key_of_stored hp']

/-! ## What is left -/

section
variable {c : Config} {order : List String} {m m₁ m₂ m' : Content} {gone gone' kept kept' : List Ping}

/-- What is left of the pings is found in the same order. -/
theorem Remnant.roll (h : Remnant c m m' gone kept) (hl : Roll order m (gone ++ kept)) :
    Roll order m' kept := by
  have hdistinct := hl.listing.distinct
  rw [ids, List.map_append] at hdistinct
  refine ⟨⟨(List.nodup_append.1 hdistinct).2.1, fun p => ?_, ?_⟩, ?_⟩
  · constructor
    · intro hp
      rw [stored_congr (h.kept_record hl.listing hp)]
      exact (hl.listing.mem_iff p).1 (List.mem_append_right _ hp)
    · intro hp
      obtain ⟨b, hb, -⟩ := decode_of_stored hp
      have hsame : m' (Record.key p.id) = m (Record.key p.id) := by
        refine (h.changed _).resolve_right ?_
        rintro ⟨hnone, -⟩
        cases hnone.symm.trans hb
      rw [stored_congr hsame] at hp
      refine (List.mem_append.1 ((hl.listing.mem_iff p).2 hp)).resolve_left fun hgone => ?_
      cases (h.deleted p hgone).symm.trans hb
  · exact hl.listing.sorted.sublist (List.sublist_append_right _ _)
  · exact hl.ahead.sublist (List.sublist_append_right _ _)

theorem Remnant.refl (c : Config) (m : Content) (kept : List Ping) : Remnant c m m [] kept where
  overQuota a p b h := by cases a <;> cases h
  deleted p hp := absurd hp List.not_mem_nil
  changed k := .inl rfl

/-- **What is left of what was left is left.** -/
theorem Remnant.trans (h : Remnant c m m₁ gone (gone' ++ kept)) (h' : Remnant c m₁ m₂ gone' kept) :
    Remnant c m m₂ (gone ++ gone') kept := by
  refine ⟨?_, ?_, ?_⟩
  · intro a p b hab
    rcases List.append_eq_append_iff.1 hab with ⟨a', rfl, hgone'⟩ | ⟨b', rfl, hb⟩
    · exact h'.overQuota a' p b hgone'
    · cases b' with
      | nil => exact h'.overQuota [] p b hb.symm
      | cons x b' =>
        obtain ⟨rfl, rfl⟩ : p = x ∧ b = b' ++ gone' := List.cons.inj hb
        rw [List.cons_append, List.append_assoc]
        exact h.overQuota a p b' rfl
  · intro p hp
    rcases List.mem_append.1 hp with hp | hp
    · rcases h'.changed (Record.key p.id) with hsame | ⟨hnone, -⟩
      · exact hsame.trans (h.deleted p hp)
      · exact hnone
    · exact h'.deleted p hp
  · intro k
    rcases h'.changed k with hsame | ⟨hnone, hu | ⟨p, hp, hk⟩⟩
    · rw [hsame]
      refine (h.changed k).imp_right ?_
      rintro ⟨hnone, hreason⟩
      refine ⟨hnone, hreason.imp_right ?_⟩
      rintro ⟨p, hp, hk⟩
      exact ⟨p, List.mem_append_left _ hp, hk⟩
    · refine .inr ⟨hnone, .inl ?_⟩
      rcases h.changed k with hsame | ⟨hnone₁, -⟩
      · rw [← unreadable_congr hsame, hu]
      · rw [unreadable_of_none hnone₁] at hu
        cases hu
    · exact .inr ⟨hnone, .inr ⟨p, List.mem_append_right _ hp, hk⟩⟩

/-- Where no ping has been deleted it does not matter which are kept. -/
theorem Remnant.of_nil (h : Remnant c m m' [] kept) (kept' : List Ping) :
    Remnant c m m' [] kept' where
  overQuota a p b hnil := by cases a <;> cases hnil
  deleted := h.deleted
  changed := h.changed

/-- **Interrupted openings leave a remnant.** -/
theorem Interrupted.remnant {l : List Ping} (h : Interrupted c order m m') (hnodup : order.Nodup)
    (hl : Roll order m l) : ∃ gone kept, l = gone ++ kept ∧ Remnant c m m' gone kept := by
  induction h with
  | start => exact ⟨[], l, rfl, .refl c m l⟩
  | @again m₁ m₂ tr out _ hf horder ih =>
    obtain ⟨gone, kept, rfl, hleft⟩ := ih
    obtain ⟨gone', kept', hrebuilt, ⟨rfl, -⟩ | hfound⟩ := found_of_follows hf
    · refine ⟨gone, kept, rfl, ?_⟩
      rw [← List.append_nil gone]
      exact hleft.trans (hrebuilt.remnant.of_nil kept)
    · obtain rfl := (hleft.roll hl).unique (hfound.roll hnodup horder)
      exact ⟨gone ++ gone', kept', (List.append_assoc _ _ _).symm, hleft.trans hrebuilt.remnant⟩

theorem LongestFitting.unique {l : List Ping} (h : LongestFitting c l kept)
    (h' : LongestFitting c l kept') : kept = kept' :=
  (h'.longest _ h.suffix h.count h.bytes).sublist.antisymm
    (h.longest _ h'.suffix h'.count h'.bytes).sublist

theorem Remnant.eq_leaving (h : Remnant c m m' gone kept) (hm : Mirror m' kept) :
    m' = leaving m kept := by
  funext k
  unfold leaving
  split
  · rename_i hk
    obtain ⟨hping, hother⟩ := hk
    refine Option.not_isSome_iff_eq_none.1 fun hsome => ?_
    obtain ⟨p, hp, hkey⟩ := hm.only k hping hsome
    exact hother p hp hkey
  · rename_i hk
    refine (h.changed k).resolve_right ?_
    rintro ⟨hnone, hreason⟩
    have hping : Record.isPingKey k = true := by
      rcases hreason with hu | ⟨p, -, rfl⟩
      · simp only [unreadable, Bool.and_eq_true] at hu
        exact hu.1.1
      · exact Record.isPingKey_key p.id
    refine hk ⟨hping, fun p hp hkey => ?_⟩
    obtain ⟨b, hb, -⟩ := decode_of_stored (hm.held p hp)
    rw [hkey, hnone] at hb
    cases hb

/-- What an opening makes of a content whose pings are `l` in their order, or of what was left of it. -/
structure Resumed (c : Config) (m : Content) (l : List Ping) (q : Queue) (m' : Content) : Prop where
  fitting : LongestFitting c l q.pings
  queue : ∃ corrupt dropped, q = restored c q.pings corrupt dropped
  content : m' = leaving m q.pings

theorem Resumed.unique {l : List Ping} {q q' : Queue} (h : Resumed c m l q m₁)
    (h' : Resumed c m l q' m₂) : q' = { q with report := q'.report } ∧ m₂ = m₁ := by
  have hpings := h.fitting.unique h'.fitting
  constructor
  · obtain ⟨corrupt, dropped, hq⟩ := h.queue
    obtain ⟨corrupt', dropped', hq'⟩ := h'.queue
    rw [← hpings] at hq'
    rw [hq, hq']
    rfl
  · rw [h.content, h'.content, hpings]

theorem Interrupted.resumed {l : List Ping} {q : Queue} {tr : List Observed}
    (h : Interrupted c order m m₁) (hnodup : order.Nodup) (hl : Roll order m l)
    (hf : Follows (rehydrate c) m₁ tr (some (.ok q)) m₂) (horder : InOrder order tr) :
    Resumed c m l q m₂ := by
  obtain ⟨gone, kept, rfl, hleft⟩ := h.remnant hnodup hl
  obtain ⟨gone', kept', hrebuilt, ⟨-, hopened⟩ | hfound⟩ := found_of_follows hf
  · exact absurd rfl (hopened q)
  · obtain rfl := (hleft.roll hl).unique (hfound.roll hnodup horder)
    have hmirror := hrebuilt.mirror rfl
    obtain ⟨-, hkept, -, corrupt, rfl, -⟩ := hrebuilt.opened q rfl
    have hall := hleft.trans hrebuilt.remnant
    rw [← List.append_assoc]
    exact ⟨longestFitting_of_split hall.overQuota hkept, ⟨corrupt, _, rfl⟩, hall.eq_leaving hmirror⟩

/-- An opening that changes nothing has discarded nothing. -/
theorem restored_of_unchanged {q : Queue} {tr : List Observed}
    (hf : Follows (rehydrate c) m tr (some (.ok q)) m) : q = restored c q.pings 0 0 := by
  obtain ⟨gone, kept, hrebuilt⟩ := rebuilt_of_follows hf
  obtain ⟨hlisting, -, hreadable, corrupt, rfl, hcorrupt⟩ := hrebuilt.opened q rfl
  cases gone with
  | nil =>
    rw [hcorrupt hreadable]
    rfl
  | cons p gone =>
    obtain ⟨b, hb, -⟩ := decode_of_stored ((hlisting.mem_iff p).1 List.mem_cons_self)
    cases (hrebuilt.deleted p List.mem_cons_self).symm.trans hb

theorem inOrder_listed {keys : List String} {tr : List Observed} (h : keys.Sublist order) :
    InOrder order (.called .list (.ok keys) :: tr) := by
  intro keys' tr' heq
  cases heq
  exact h

/-- An opening that comes to its end has listed the keys in an order. -/
theorem exists_roll {q : Queue} {tr : List Observed}
    (hf : Follows (rehydrate c) m (.called .list (.ok order) :: tr) (some (.ok q)) m') :
    order.Nodup ∧ ∃ l, Roll order m l := by
  obtain ⟨gone, kept, -, ⟨-, hopened⟩ | hfound⟩ := found_of_follows hf
  · exact absurd rfl (hopened q)
  · have hnodup : order.Nodup := by
      cases hfound
      assumption
    exact ⟨hnodup, _, hfound.roll hnodup (inOrder_listed (List.Sublist.refl _))⟩

end

/-! ## Over a backend in working order -/

section
variable {σ : Type} {b : Backend σ} {view : σ → Content} {well : σ → Prop} {s : σ}

theorem exists_opening (hb : b.Healthy view well) (hs : well s) (c : Config) {keys : List String}
    (hlist : (b.serve .list s).1 = .ok keys) (hread : NoneOverlong (view s)) : ∃ q s' ns tr,
      (rehydrate c).run b s = (.ok q, s', ns) ∧ well s' ∧
        Follows (rehydrate c) (view s) (.called .list (.ok keys) :: tr) (some (.ok q)) (view s') := by
  obtain ⟨tr, hrun, htr⟩ := hb.call_follows _ hs
  change Follows (rehydrate c) _ _ (some ((rehydrate c).run b s).1) _ at hrun
  obtain ⟨q, hq⟩ := exists_opened hrun htr hread.not_jams
  rw [hq, hlist] at hrun
  exact ⟨q, _, _, tr, Prod.ext hq rfl, (rehydrate c).run_keeps hb.stays hs, hrun⟩

theorem run_panics_of_jams (hb : b.Healthy view well) (hs : well s) (c : Config) {k : String}
    {x : Bytes} (hj : Jams (view s) k x) : ((rehydrate c).run b s).1 = .panic := by
  obtain ⟨tr, hrun, htr⟩ := hb.run_follows (rehydrate c) hs
  exact (panics_of_jams hrun htr hj).1

end

/-! ## A map with an unreadable record -/

/-- Bytes that are no record under the key of a ping, and a ping. -/
def soiled : Memory :=
  ⟨⟨[(Record.key (.drawn 0), [255]), (Record.key blank.id, Record.encode blank)],
    List.pairwise_pair.2 (by decide)⟩, false⟩

/-- The map after an opening that died once it had deleted those bytes. -/
def cleansed : Memory := { soiled with records := soiled.records.erase (Record.key (.drawn 0)) }

theorem working_soiled : soiled.Working where
  running := rfl
  valid k hk := by
    rcases List.mem_pair.1 hk with rfl | rfl
    · exact Uuid.validKey_text _
    · exact Uuid.validKey_text _

theorem keys_cleansed : cleansed.records.keys.Sublist soiled.records.keys :=
  List.filter_sublist.map _

theorem working_cleansed : cleansed.Working where
  running := rfl
  valid k hk := working_soiled.valid k (keys_cleansed.subset hk)

theorem noneOverlong_soiled : NoneOverlong soiled.records.get? := by
  intro k x hk hx
  rw [← Record.decode_eq_panic_iff (k := k)]
  rcases List.mem_pair.1 (Dict.mem_of_find hx) with h | h
  · cases h
    nofun
  · cases h
    rw [decode_encode_blank]
    nofun

/-- An opening may die once it has deleted the record under the first key. -/
theorem follows_cut {c : Config} {m : Content} {k : String} {keys : List String} {b : Bytes}
    {e : Record.Error} (hkeys : Call.list.Truthful m (k :: keys)) (hk : Record.isPingKey k = true)
    (hb : m k = some b) (he : Record.decode k b = .error e) : Follows (rehydrate c) m
      [.called .list (.ok (k :: keys)), .called (.get k) (.ok (some b)),
        .told (.discardedRecord k e), .called (.delete k) (.ok ())]
      none ((Call.delete k).effect m) := by
  refine .call (.answered (c := .list) (k :: keys) hkeys) ?_
  simp only [load, if_pos hk]
  refine .call (.answered (c := .get k) (some b) hb.symm) ?_
  simp only [he]
  exact .tell (.call (.answered (c := .delete k) () trivial) (.cut _ _))

theorem interrupted_soiled : Interrupted .standard soiled.records.keys soiled.records.get?
    cleansed.records.get? := by
  have hcontent : cleansed.records.get? =
      (Call.delete (Record.key (.drawn 0))).effect soiled.records.get? := by
    funext k
    simp only [cleansed, Dict.get?_erase, Call.effect, Function.update_apply]
  have hcut := follows_cut (c := .standard) (m := soiled.records.get?) (b := [255])
    ⟨soiled.records.nodup_keys, fun _ => Dict.mem_keys_of_isSome⟩ (Record.isPingKey_key (.drawn 0))
    rfl rfl
  rw [hcontent]
  exact .again .start hcut (inOrder_listed (List.Sublist.refl _))

end PingDelivery.Queue
