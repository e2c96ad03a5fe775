import PingDelivery.Proofs.Queue.Mirror

/-! # What opening a queue does

Opening reads every listed record, deletes the unreadable ones, orders the rest and deletes from the
front until the quotas hold. `Loaded` and `Trimmed` say what the two loops have done when they end,
fail or are cut short; `Rebuilt` puts them together. The records that go are the unreadable ones and
a front part of the order, each ping of which does not fit together with all behind it. A record that
jams the reader stops the opening there, and stays.
-/

namespace PingDelivery.Queue
open Store

/-- A record under the key of a ping that cannot be read as that ping. -/
def unreadable (m : Content) (k : String) : Bool :=
  Record.isPingKey k && (m k).isSome && (stored? m k).isNone

theorem isPingKey_of_stored {m : Content} {k : String} {p : Ping} (h : stored? m k = some p) :
    Record.isPingKey k = true := key_of_stored h ▸ Record.isPingKey_key p.id

theorem unreadable_of_stored {m : Content} {k : String} {p : Ping} (h : stored? m k = some p) :
    unreadable m k = false := by
  rw [unreadable, h, Option.isNone_some, Bool.and_false]

theorem stored_of_unreadable {m : Content} {k : String} (h : unreadable m k = true) :
    stored? m k = none := by
  cases hs : stored? m k with
  | none => rfl
  | some p =>
    rw [unreadable_of_stored hs] at h
    cases h

theorem unreadable_congr {m m' : Content} {k : String} (h : m' k = m k) :
    unreadable m' k = unreadable m k := by
  rw [unreadable, unreadable, h, stored_congr h]

theorem unreadable_of_none {m : Content} {k : String} (h : m k = none) : unreadable m k = false := by
  rw [unreadable, h, Option.isSome_none, Bool.and_false, Bool.false_and]

/-- A record under the key of a ping at which the reader panics. -/
structure Jams (m : Content) (k : String) (b : Bytes) : Prop where
  ping : Record.isPingKey k = true
  held : m k = some b
  panics : Record.decode k b = .panic

theorem Jams.kept {m m' : Content} {k : String} {b : Bytes} (h : Jams m k b) (hm : m' k = some b) :
    Jams m' k b := ⟨h.ping, hm, h.panics⟩

theorem Jams.unreadable {m : Content} {k : String} {b : Bytes} (h : Jams m k b) :
    unreadable m k = true := by
  rw [Queue.unreadable, h.ping, stored?, h.held, Option.bind_some, h.panics]
  rfl

theorem not_jams_of_error {m : Content} {k : String} {b : Bytes} {e : Record.Error} (hb : m k = some b)
    (he : Record.decode k b = .error e) (b' : Bytes) : ¬ Jams m k b' := by
  rintro ⟨-, hb', hpanics⟩
  obtain rfl : b = b' := Option.some.inj (hb.symm.trans hb')
  cases he.symm.trans hpanics

/-! ## Reading the records -/

/-- What reading the records under the keys has done, however far it came. -/
structure Loaded (keys : List String) (found : List Ping) (corrupt : Nat) (m : Content)
    (tr : List Observed) (out : Option (Ended Error (List Ping × Nat))) (m' : Content) : Prop where
  changed : ∀ k, m' k = m k ∨ (m' k = none ∧ unreadable m k = true)
  undiscarded : ∀ k, unreadable m k = false → Undiscarded k tr
  jammed : ∀ k b, Jams m k b → m' k = some b
  failed : ∀ e, out = some (.error e) →
    ∃ c : Call, .called c (.error e) ∈ tr ∧ ∀ k ∈ c.key?, k ∈ keys
  panicked : out = some .panic → ∃ k ∈ keys, ∃ b, Jams m k b
  read : ∀ l n, out = some (.ok (l, n)) →
    l = found.reverse ++ keys.filterMap (stored? m) ∧
      n = corrupt + keys.countP (unreadable m) ∧ ∀ k ∈ keys, unreadable m' k = false

namespace Loaded
variable {keys : List String} {found : List Ping} {corrupt : Nat} {m m' : Content} {k : String}
  {tr : List Observed} {out : Option (Ended Error (List Ping × Nat))}

theorem died : Loaded keys found corrupt m [] none m :=
  ⟨fun _ => .inl rfl, fun _ _ => .nil, fun _ _ h => h.held, nofun, nofun, nofun⟩

/-- The reading stops at a record that jams it, which stays where it is. -/
theorem stopped {b : Bytes} (h : Jams m k b)
    (hout : out = none ∨ out = some .panic) : Loaded (k :: keys) found corrupt m [] out m := by
  refine ⟨fun _ => .inl rfl, fun _ _ => .nil, fun _ _ h' => h'.held, ?_,
    fun _ => ⟨k, List.mem_cons_self, b, h⟩, ?_⟩
  · intro e he
    rcases hout with rfl | rfl <;> cases he
  · intro l n hl
    rcases hout with rfl | rfl <;> cases hl

theorem called (h : Loaded keys found corrupt m tr out m') (c : Call) (r : Result c) :
    Loaded keys found corrupt m (.called c r :: tr) out m' := by
  refine ⟨h.changed, fun k hk => (h.undiscarded k hk).called _ _, h.jammed, ?_, h.panicked, h.read⟩
  intro e he
  obtain ⟨c', hc', hk⟩ := h.failed e he
  exact ⟨c', List.mem_cons_of_mem _ hc', hk⟩

theorem told (h : Loaded keys found corrupt m tr out m') (hu : unreadable m k = true)
    (e : Record.Error) : Loaded keys found corrupt m (.told (.discardedRecord k e) :: tr) out m' := by
  refine ⟨h.changed, fun k' hk' => (h.undiscarded k' hk').told ?_, h.jammed, ?_, h.panicked,
    h.read⟩
  · intro e' he'
    cases he'
    rw [hu] at hk'
    cases hk'
  · intro e' he'
    obtain ⟨c, hc, hkeys⟩ := h.failed e' he'
    exact ⟨c, List.mem_cons_of_mem _ hc, hkeys⟩

theorem refused {c : Call} (e : Error) (hout : out = none ∨ out = some (.error e))
    (hc : ∀ k ∈ c.key?, k ∈ keys) :
    Loaded keys found corrupt m [.called c (.error e)] out m := by
  refine ⟨fun _ => .inl rfl, fun _ _ => Undiscarded.nil.called _ _, fun _ _ h => h.held, ?_, ?_, ?_⟩
  · intro e' he
    rcases hout with rfl | rfl
    · cases he
    · cases he
      exact ⟨c, List.mem_singleton_self _, hc⟩
  · intro hp
    rcases hout with rfl | rfl <;> cases hp
  · intro l n hl
    rcases hout with rfl | rfl <;> cases hl

theorem stays_readable (h : Loaded keys found corrupt m tr out m') (hu : unreadable m k = false) :
    unreadable m' k = false := by
  rcases h.changed k with heq | ⟨-, hun⟩
  · rw [unreadable_congr heq, hu]
  · rw [hu] at hun
    cases hun

theorem of_tail {e : Error} (h : Loaded keys found corrupt m tr out m')
    (he : out = some (.error e)) :
    ∃ c : Call, .called c (.error e) ∈ tr ∧ ∀ k' ∈ c.key?, k' ∈ k :: keys := by
  obtain ⟨c, hc, hkeys⟩ := h.failed e he
  exact ⟨c, hc, fun k' hk' => List.mem_cons_of_mem _ (hkeys k' hk')⟩

theorem panicked_of_tail (h : Loaded keys found corrupt m tr out m') (hp : out = some .panic) :
    ∃ k' ∈ k :: keys, ∃ b, Jams m k' b := by
  obtain ⟨k', hk', hjams⟩ := h.panicked hp
  exact ⟨k', List.mem_cons_of_mem k hk', hjams⟩

/-- All keys were read, so none of them jammed. -/
theorem not_jams {l : List Ping} {n : Nat} (h : Loaded keys found corrupt m tr out m')
    (hout : out = some (.ok (l, n))) (hk : k ∈ keys) (b : Bytes) : ¬ Jams m k b := by
  intro hj
  obtain ⟨-, -, hread⟩ := h.read l n hout
  have hstill : Jams m' k b := hj.kept (h.jammed k b hj)
  exact Bool.noConfusion (hstill.unreadable.symm.trans (hread k hk))

/-- A key without a ping under it is passed over. -/
theorem skip (h : Loaded keys found corrupt m tr out m') (hk : stored? m k = none)
    (hu : unreadable m k = false) : Loaded (k :: keys) found corrupt m tr out m' := by
  refine ⟨h.changed, h.undiscarded, h.jammed, fun e he => h.of_tail he, h.panicked_of_tail, ?_⟩
  intro l n hl
  obtain ⟨rfl, rfl, hread⟩ := h.read l n hl
  refine ⟨by rw [List.filterMap_cons_none hk],
    by rw [List.countP_cons_of_neg (by rw [hu]; exact Bool.false_ne_true)], fun k' hk' => ?_⟩
  rcases List.mem_cons.1 hk' with rfl | hk'
  · exact h.stays_readable hu
  · exact hread k' hk'

theorem found_cons {p : Ping} (h : Loaded keys (p :: found) corrupt m tr out m')
    (hp : stored? m k = some p) : Loaded (k :: keys) found corrupt m tr out m' := by
  have hu := unreadable_of_stored hp
  refine ⟨h.changed, h.undiscarded, h.jammed, fun e he => h.of_tail he, h.panicked_of_tail, ?_⟩
  intro l n hl
  obtain ⟨rfl, rfl, hread⟩ := h.read l n hl
  refine ⟨by rw [List.filterMap_cons_some hp, List.reverse_cons, List.append_assoc]; rfl,
    by rw [List.countP_cons_of_neg (by rw [hu]; exact Bool.false_ne_true)], fun k' hk' => ?_⟩
  rcases List.mem_cons.1 hk' with rfl | hk'
  · exact h.stays_readable hu
  · exact hread k' hk'

/-- An unreadable record is deleted; the other keys are as they were. -/
theorem discard (h : Loaded keys found (corrupt + 1) ((Call.delete k).effect m) tr out m')
    (hu : unreadable m k = true) (hj : ∀ b, ¬ Jams m k b) (hk : k ∉ keys) :
    Loaded (k :: keys) found corrupt m (.called (.delete k) (.ok ()) :: tr) out m' := by
  have hne {k' : String} (hk' : k' ≠ k) : (Call.delete k).effect m k' = m k' :=
    Function.update_of_ne hk' _ _
  have hself : (Call.delete k).effect m k = none := Function.update_self _ _ _
  have hread {k' : String} (hk' : k' ∈ keys) : k' ≠ k := fun he => hk (he ▸ hk')
  have hgone : m' k = none := by
    rcases h.changed k with heq | ⟨heq, -⟩
    · rw [heq, hself]
    · exact heq
  refine ⟨?_, ?_, ?_, ?_, ?_, ?_⟩
  · intro k'
    by_cases hk' : k' = k
    · subst hk'
      exact .inr ⟨hgone, hu⟩
    · rcases h.changed k' with heq | ⟨heq, hun⟩
      · exact .inl (heq.trans (hne hk'))
      · exact .inr ⟨heq, unreadable_congr (hne hk') ▸ hun⟩
  · intro k' hk'
    have hne' : k' ≠ k := by
      rintro rfl
      rw [hu] at hk'
      cases hk'
    exact (h.undiscarded k' (by rw [unreadable_congr (hne hne'), hk'])).called _ _
  · intro k' b hb
    have hne' : k' ≠ k := by
      rintro rfl
      exact hj b hb
    exact h.jammed k' b (hb.kept ((hne hne').trans hb.held))
  · intro e he
    exact (h.called _ _).of_tail he
  · intro hp
    obtain ⟨k', hk', b, hb⟩ := h.panicked hp
    exact ⟨k', List.mem_cons_of_mem k hk', b, hb.kept ((hne (hread hk')).symm.trans hb.held)⟩
  · intro l n hl
    obtain ⟨rfl, rfl, hrest⟩ := h.read l n hl
    refine ⟨?_, ?_, ?_⟩
    · rw [List.filterMap_cons_none (stored_of_unreadable hu),
        List.filterMap_congr fun k' hk' => stored_congr (hne (hread hk'))]
    · rw [List.countP_cons_of_pos hu,
        List.countP_congr fun k' hk' => by rw [unreadable_congr (hne (hread hk'))]]
      omega
    · intro k' hk'
      rcases List.mem_cons.1 hk' with rfl | hk'
      · exact unreadable_of_none hgone
      · exact hrest k' hk'

end Loaded

theorem loaded_of_follows {keys : List String} (hkeys : keys.Nodup) {found : List Ping}
    {corrupt : Nat} {m m' : Content} {tr : List Observed}
    {out : Option (Ended Error (List Ping × Nat))}
    (h : Follows (load keys found corrupt) m tr out m') : Loaded keys found corrupt m tr out m' := by
  induction keys generalizing found corrupt m tr with
  | nil =>
    obtain ⟨rfl, rfl, rfl | rfl⟩ := h.of_done
    · exact .died
    · refine ⟨fun _ => .inl rfl, fun _ _ => .nil, fun _ _ h => h.held, nofun, nofun, ?_⟩
      intro l n hl
      cases hl
      exact ⟨(List.append_nil _).symm, rfl, nofun⟩
  | cons k keys ih =>
    obtain ⟨hk, hkeys⟩ := List.nodup_cons.1 hkeys
    rw [load] at h
    split at h
    · rename_i hping
      rcases h.of_call with ⟨rfl, rfl, rfl⟩ | ⟨e, tr', rfl, hrest⟩ | ⟨a, tr', rfl, ha, hrest⟩
      · exact .died
      · obtain ⟨rfl, rfl, hout⟩ := hrest.of_done
        refine .refused e hout ?_
        intro k' hk'
        cases hk'
        exact List.mem_cons_self
      · have ha : m k = a := ha.symm
        cases a with
        | none =>
          have hstored : stored? m k = none := by rw [stored?, ha, Option.bind_none]
          exact ((ih hkeys hrest).skip hstored (unreadable_of_none ha)).called _ _
        | some b =>
          simp only at hrest
          split at hrest
          · rename_i p hp
            exact ((ih hkeys hrest).found_cons (stored_of_decode ha hp)).called _ _
          · rename_i hp
            obtain ⟨rfl, rfl, hout⟩ := hrest.of_done
            exact (Loaded.stopped ⟨hping, ha, hp⟩ hout).called _ _
          · rename_i e he
            have hu : unreadable m k = true := by
              rw [unreadable, hping, stored?, ha, Option.bind_some, he]
              rfl
            rcases hrest.of_tell with ⟨rfl, rfl, rfl⟩ | ⟨tr'', rfl, hdelete⟩
            · exact Loaded.died.called _ _
            · rcases hdelete.of_call with ⟨rfl, rfl, rfl⟩ | ⟨e', tr', rfl, hdone⟩ |
                ⟨⟨⟩, tr', rfl, -, hrest⟩
              · exact (Loaded.died.told hu e).called _ _
              · obtain ⟨rfl, rfl, hout⟩ := hdone.of_done
                refine ((Loaded.refused e' hout ?_).told hu e).called _ _
                intro k' hk'
                cases hk'
                exact List.mem_cons_self
              · exact (((ih hkeys hrest).discard hu (not_jams_of_error ha he) hk).told hu e).called _ _
    · rename_i hping
      have hstored : stored? m k = none := by
        cases hs : stored? m k with
        | none => rfl
        | some p => exact absurd (isPingKey_of_stored hs) hping
      refine (ih hkeys h).skip hstored ?_
      rw [unreadable, Bool.eq_false_iff.2 hping, Bool.false_and, Bool.false_and]

/-! ## The order of the pings -/

theorem precedes_iff {a b : Ping} : precedes a b = true ↔
    a.sequence < b.sequence ∨ (a.sequence = b.sequence ∧ a.createdAt ≤ b.createdAt) := by
  simp only [precedes, Bool.or_eq_true, Bool.and_eq_true, decide_eq_true_eq]

theorem precedes_trans (a b c : Ping) (hab : precedes a b = true) (hbc : precedes b c = true) :
    precedes a c = true := by
  rw [precedes_iff] at hab hbc ⊢
  rcases hab with hab | ⟨hab, ht⟩ <;> rcases hbc with hbc | ⟨hbc, ht'⟩
  · exact .inl (UInt64.lt_trans hab hbc)
  · exact .inl (hbc ▸ hab)
  · exact .inl (hab ▸ hbc)
  · exact .inr ⟨hab.trans hbc, Time.Instant.le_trans ht ht'⟩

theorem precedes_total (a b : Ping) : (precedes a b || precedes b a) = true := by
  rw [Bool.or_eq_true, precedes_iff, precedes_iff]
  by_cases hlt : a.sequence < b.sequence
  · exact .inl (.inl hlt)
  · by_cases hgt : b.sequence < a.sequence
    · exact .inr (.inl hgt)
    · have heq : a.sequence = b.sequence :=
        UInt64.le_antisymm (UInt64.not_lt.1 hgt) (UInt64.not_lt.1 hlt)
      exact (Time.Instant.le_total a.createdAt b.createdAt).imp (fun h => .inr ⟨heq, h⟩)
        fun h => .inr ⟨heq.symm, h⟩

/-- The pings that can be read from the store, each once, in the order of the queue. -/
structure Listing (m : Content) (l : List Ping) : Prop where
  distinct : (ids l).Nodup
  mem_iff : ∀ p, p ∈ l ↔ stored? m (Record.key p.id) = some p
  sorted : l.Pairwise fun a b => precedes a b = true

/-- However the keys were listed, the order makes a listing of what is under them. -/
theorem listing_ordered {m : Content} {keys : List String} (hkeys : keys.Nodup)
    (hall : ∀ k, (m k).isSome → k ∈ keys) : Listing m (ordered (keys.filterMap (stored? m))) := by
  have hperm := List.mergeSort_perm (keys.filterMap (stored? m)) precedes
  constructor
  · refine (hperm.map _).nodup_iff.2 (List.pairwise_map.2 (List.pairwise_filterMap.2 ?_))
    refine hkeys.imp fun {k k'} hne p hp p' hp' hid => hne ?_
    rw [← key_of_stored hp, ← key_of_stored hp', hid]
  · intro p
    rw [ordered, hperm.mem_iff, List.mem_filterMap]
    constructor
    · rintro ⟨k, -, hp⟩
      rw [key_of_stored hp]
      exact hp
    · intro hp
      obtain ⟨b, hb, -⟩ := decode_of_stored hp
      exact ⟨_, hall _ (Option.isSome_iff_exists.2 ⟨b, hb⟩), hp⟩
  · exact List.pairwise_mergeSort precedes_trans precedes_total _

/-- An opening begins with a listing of the keys, and the list is what it has found under them, put in
order. -/
inductive Found (m : Content) (l : List Ping) : List Observed → Prop where
  | listed {keys : List String} {tr : List Observed} (hnodup : keys.Nodup)
      (hall : ∀ k, (m k).isSome → k ∈ keys) (hl : l = ordered (keys.filterMap (stored? m))) :
      Found m l (.called .list (.ok keys) :: tr)

theorem Found.listing {m : Content} {l : List Ping} {tr : List Observed} (h : Found m l tr) :
    Listing m l := by
  obtain ⟨hnodup, hall, rfl⟩ := h
  exact listing_ordered hnodup hall

/-! ## Holding the quotas -/

/-- What deleting from the front has done: `gone` is deleted, `kept` is not. -/
structure Trimmed (c : Config) (l : List Ping) (dropped : Nat) (m : Content) (tr : List Observed)
    (out : Option (Except Error (List Ping × Nat))) (m' : Content) (gone kept : List Ping) :
    Prop where
  split : l = gone ++ kept
  overQuota : ∀ a p b, gone = a ++ p :: b → c.admits (p :: b ++ kept) = false
  deleted : ∀ p ∈ gone, m' (Record.key p.id) = none
  unchanged : ∀ k, (∀ p ∈ gone, Record.key p.id ≠ k) → m' k = m k
  undiscarded : ∀ k, Undiscarded k tr
  failed : ∀ e, out = some (.error e) →
    ∃ c : Call, .called c (.error e) ∈ tr ∧ ∀ k ∈ c.key?, ∃ p ∈ l, Record.key p.id = k
  trimmed : ∀ l' n, out = some (.ok (l', n)) →
    l' = kept ∧ n = dropped + gone.length ∧ (kept = [] ∨ c.admits kept = true)

namespace Trimmed
variable {c : Config} {l : List Ping} {dropped : Nat} {m m' : Content} {tr : List Observed}
  {out : Option (Except Error (List Ping × Nat))}

/-- Nothing has been deleted yet. -/
theorem untouched (htr : ∀ k, Undiscarded k tr)
    (hfailed : ∀ e, out = some (.error e) →
      ∃ c : Call, .called c (.error e) ∈ tr ∧ ∀ k ∈ c.key?, ∃ p ∈ l, Record.key p.id = k)
    (htrimmed : ∀ l' n, out = some (.ok (l', n)) →
      l' = l ∧ n = dropped ∧ (l = [] ∨ c.admits l = true)) :
    Trimmed c l dropped m tr out m [] l where
  split := rfl
  overQuota a p b h := by cases a <;> cases h
  deleted p hp := absurd hp List.not_mem_nil
  unchanged _ _ := rfl
  undiscarded := htr
  failed := hfailed
  trimmed := htrimmed

/-- The oldest ping does not fit with all behind it and is deleted. -/
theorem delete {p : Ping} {gone kept : List Ping}
    (h : Trimmed c l (dropped + 1) ((storeDelete p.id).effect m) tr out m' gone kept)
    (hover : c.admits (p :: l) = false) :
    Trimmed c (p :: l) dropped m (.called (storeDelete p.id) (.ok ()) :: tr) out m'
      (p :: gone) kept := by
  obtain ⟨rfl, hquota, hdeleted, hsame, htr, hfailed, htrimmed⟩ := h
  refine ⟨rfl, ?_, ?_, ?_, fun k => (htr k).called _ _,
    ?_, ?_⟩
  · intro a x b hab
    cases a with
    | nil =>
      cases hab
      exact hover
    | cons y a =>
      obtain ⟨rfl, rfl⟩ := List.cons.inj hab
      exact hquota a x b rfl
  · intro x hx
    by_cases hmem : ∃ y ∈ gone, Record.key y.id = Record.key x.id
    · obtain ⟨y, hy, hkey⟩ := hmem
      rw [← hkey]
      exact hdeleted y hy
    · rcases List.mem_cons.1 hx with rfl | hx
      · rw [hsame _ fun y hy hkey => hmem ⟨y, hy, hkey⟩, effect_delete_self]
      · exact absurd ⟨x, hx, rfl⟩ hmem
  · intro k hk
    rw [hsame k fun y hy => hk y (List.mem_cons_of_mem _ hy),
      effect_delete_of_ne (hk p List.mem_cons_self).symm]
  · intro e he
    obtain ⟨ce, hce, hkeys⟩ := hfailed e he
    refine ⟨ce, List.mem_cons_of_mem _ hce, ?_⟩
    intro k hk
    obtain ⟨y, hy, hkey⟩ := hkeys k hk
    exact ⟨y, List.mem_cons_of_mem _ hy, hkey⟩
  · intro l' n hl
    obtain ⟨rfl, rfl, hkept⟩ := htrimmed l' n hl
    exact ⟨rfl, by rw [List.length_cons]; omega, hkept⟩

end Trimmed

theorem trimmed_of_follows {c : Config} {l : List Ping} {dropped : Nat} {m m' : Content}
    {tr : List Observed} {out : Option (Except Error (List Ping × Nat))}
    (h : Follows (trim c l dropped) m tr out m') :
    ∃ gone kept, Trimmed c l dropped m tr out m' gone kept := by
  induction l generalizing dropped m tr with
  | nil =>
    obtain ⟨rfl, rfl, hout⟩ := h.of_done
    refine ⟨[], [], .untouched (fun _ => .nil) (?_) ?_⟩
    · intro e he
      rcases hout with rfl | rfl <;> cases he
    · intro l' n hl
      rcases hout with rfl | rfl <;> cases hl
      exact ⟨rfl, rfl, .inl rfl⟩
  | cons p r ih =>
    rw [trim] at h
    split at h
    · rename_i hadmits
      obtain ⟨rfl, rfl, hout⟩ := h.of_done
      refine ⟨[], p :: r, .untouched (fun _ => .nil) (?_) ?_⟩
      · intro e he
        rcases hout with rfl | rfl <;> cases he
      · intro l' n hl
        rcases hout with rfl | rfl <;> cases hl
        exact ⟨rfl, rfl, .inr hadmits⟩
    · rename_i hover
      rcases h.of_call with ⟨rfl, rfl, rfl⟩ | ⟨e, tr', rfl, hdone⟩ | ⟨⟨⟩, tr', rfl, -, hrest⟩
      · exact ⟨[], p :: r, .untouched (fun _ => .nil) nofun nofun⟩
      · obtain ⟨rfl, rfl, hout⟩ := hdone.of_done
        refine ⟨[], p :: r, .untouched (fun _ => Undiscarded.nil.called _ _) (?_)
          ?_⟩
        · intro e' he
          rcases hout with rfl | rfl <;> cases he
          refine ⟨_, List.mem_singleton_self _, fun k hk => ⟨p, List.mem_cons_self, ?_⟩⟩
          cases hk
          rfl
        · intro l' n hl
          rcases hout with rfl | rfl <;> cases hl
      · obtain ⟨gone, kept, htrim⟩ := ih hrest
        exact ⟨p :: gone, kept, htrim.delete (Bool.eq_false_iff.2 hover)⟩

/-! ## Opening -/

/-- **What opening has done, however far it came.** Of the readable pings `gone` is deleted and
`kept` is not. -/
structure Rebuilt (c : Config) (m : Content) (tr : List Observed)
    (out : Option (Ended QueueError Queue)) (m' : Content) (gone kept : List Ping) : Prop where
  listing : gone = [] ∨ Listing m (gone ++ kept)
  overQuota : ∀ a p b, gone = a ++ p :: b → c.admits (p :: b ++ kept) = false
  deleted : ∀ p ∈ gone, m' (Record.key p.id) = none
  changed : ∀ k, m' k = m k ∨
    (m' k = none ∧ (unreadable m k = true ∨ ∃ p ∈ gone, Record.key p.id = k))
  undiscarded : ∀ k, unreadable m k = false → Undiscarded k tr
  jammed : ∀ k b, Jams m k b → m' k = some b
  panicked : out = some .panic → ∃ k b, Jams m k b
  failed : ∀ e, out = some (.error e) → ∃ (c : Call) (e' : Error), .called c (.error e') ∈ tr ∧
    ∀ k ∈ c.key?, ∃ keys : List String, .called .list (.ok keys) ∈ tr ∧ k ∈ keys
  opened : ∀ q, out = some (.ok q) → Listing m (gone ++ kept) ∧
    (kept = [] ∨ c.admits kept = true) ∧ (∀ k, unreadable m' k = false) ∧
    ∃ corrupt, q = restored c kept corrupt gone.length ∧
      ((∀ k, unreadable m k = false) → corrupt = 0)

section
variable {c : Config} {m m₁ m' : Content} {tr tr₁ tr₂ tr₃ : List Observed}
  {out : Option (Ended QueueError Queue)} {keys : List String}

/-- Before the first deletion over quota only unreadable records are gone. -/
theorem Rebuilt.ofLoaded {loaded : Option (Ended Error (List Ping × Nat))}
    (h : Loaded keys [] 0 m tr loaded m')
    (hout : out = none ∨ (∃ e, loaded = some (.error e) ∧ out = some (.error (.storage e))) ∨
      (loaded = some .panic ∧ out = some .panic)) :
    Rebuilt c m (.called .list (.ok keys) :: tr) out m' [] [] where
  listing := .inl rfl
  overQuota a p b hab := by cases a <;> cases hab
  deleted p hp := absurd hp List.not_mem_nil
  changed k := (h.changed k).imp_right fun ⟨hnone, hu⟩ => ⟨hnone, .inl hu⟩
  undiscarded k hk := (h.undiscarded k hk).called _ _
  jammed := h.jammed
  panicked hp := by
    rcases hout with rfl | ⟨e', -, rfl⟩ | ⟨hloaded, -⟩
    · cases hp
    · cases hp
    · obtain ⟨k, -, b, hb⟩ := h.panicked hloaded
      exact ⟨k, b, hb⟩
  failed e he := by
    rcases hout with rfl | ⟨e', hloaded, rfl⟩ | ⟨-, rfl⟩
    · cases he
    · obtain ⟨ce, hce, hkeys⟩ := h.failed e' hloaded
      exact ⟨ce, e', List.mem_cons_of_mem _ hce, fun k hk => ⟨keys, List.mem_cons_self, hkeys k hk⟩⟩
    · cases he
  opened q hq := by
    rcases hout with rfl | ⟨e', -, rfl⟩ | ⟨-, rfl⟩ <;> cases hq

/-- What is deleted over quota and what is not is what was found. -/
theorem Found.ofTrimmed {found : List Ping} {corrupt : Nat}
    {trimmed : Option (Except Error (List Ping × Nat))} {gone kept : List Ping}
    (hkeys : keys.Nodup) (hall : ∀ k, (m k).isSome → k ∈ keys)
    (hload : Loaded keys [] 0 m tr₁ (some (.ok (found, corrupt))) m₁)
    (htrim : Trimmed c (ordered found) 0 m₁ tr₂ trimmed m' gone kept) :
    Found m (gone ++ kept) (.called .list (.ok keys) :: tr₃) := by
  obtain ⟨hfound, -, -⟩ := hload.read _ _ rfl
  refine .listed hkeys hall ?_
  rw [← htrim.split, hfound]
  rfl

/-- Deleting over quota after all records have been read. -/
theorem Rebuilt.ofTrimmed {found : List Ping} {corrupt : Nat}
    {trimmed : Option (Except Error (List Ping × Nat))} {gone kept : List Ping}
    (hkeys : keys.Nodup) (hall : ∀ k, (m k).isSome → k ∈ keys)
    (hload : Loaded keys [] 0 m tr₁ (some (.ok (found, corrupt))) m₁)
    (htrim : Trimmed c (ordered found) 0 m₁ tr₂ trimmed m' gone kept)
    (htr : ∀ k, Undiscarded k tr₃)
    (hout : out = none ∨ (∃ e, trimmed = some (.error e) ∧ out = some (.error (.storage e))) ∨
      ∃ pings dropped, trimmed = some (.ok (pings, dropped)) ∧
        out = some (.ok (restored c pings corrupt dropped))) :
    Rebuilt c m (.called .list (.ok keys) :: (tr₁ ++ (tr₂ ++ tr₃))) out m' gone kept := by
  obtain ⟨-, hcorrupt, hread⟩ := hload.read _ _ rfl
  have hfound : Found m (gone ++ kept) (.called .list (.ok keys) :: tr₁) :=
    .ofTrimmed hkeys hall hload htrim
  have hlisting := hfound.listing
  have hchanged (k : String) : m' k = m₁ k ∨
      (m' k = none ∧ ∃ p ∈ gone, Record.key p.id = k) := by
    by_cases hk : ∃ p ∈ gone, Record.key p.id = k
    · obtain ⟨p, hp, rfl⟩ := hk
      exact .inr ⟨htrim.deleted p hp, p, hp, rfl⟩
    · exact .inl (htrim.unchanged k fun p hp hkey => hk ⟨p, hp, hkey⟩)
  have hfree (k : String) (b : Bytes) : ¬ Jams m k b := fun hj =>
    hload.not_jams rfl (hall k (Option.isSome_iff_exists.2 ⟨b, hj.held⟩)) b hj
  refine ⟨.inr hlisting, htrim.overQuota, htrim.deleted, ?_, ?_, fun k b hj => absurd hj (hfree k b),
    ?_, ?_, ?_⟩
  · intro k
    rcases hchanged k with hk | ⟨hnone, hgone⟩
    · rcases hload.changed k with hk' | ⟨hnone, hu⟩
      · exact .inl (hk.trans hk')
      · exact .inr ⟨hk.trans hnone, .inl hu⟩
    · exact .inr ⟨hnone, .inr hgone⟩
  · intro k hk
    exact ((hload.undiscarded k hk).append ((htrim.undiscarded k).append (htr k))).called _ _
  · intro hp
    rcases hout with rfl | ⟨e', -, rfl⟩ | ⟨pings, dropped, -, rfl⟩ <;> cases hp
  · intro e he
    rcases hout with rfl | ⟨e', htrimmed, rfl⟩ | ⟨pings, dropped, -, rfl⟩
    · cases he
    · obtain ⟨ce, hce, hkey⟩ := htrim.failed e' htrimmed
      have hmem : Observed.called ce (.error e') ∈ tr₁ ++ (tr₂ ++ tr₃) :=
        List.mem_append_right _ (List.mem_append_left _ hce)
      refine ⟨ce, e', List.mem_cons_of_mem _ hmem, fun k hk => ⟨keys, List.mem_cons_self, ?_⟩⟩
      obtain ⟨p, hp, rfl⟩ := hkey k hk
      rw [htrim.split] at hp
      obtain ⟨b, hb, -⟩ := decode_of_stored ((hlisting.mem_iff p).1 hp)
      exact hall _ (Option.isSome_iff_exists.2 ⟨b, hb⟩)
    · cases he
  · intro q hq
    rcases hout with rfl | ⟨e', -, rfl⟩ | ⟨pings, dropped, htrimmed, rfl⟩
    · cases hq
    · cases hq
    · cases hq
      obtain ⟨rfl, rfl, hkept⟩ := htrim.trimmed _ _ htrimmed
      refine ⟨hlisting, hkept, ?_, corrupt, by rw [Nat.zero_add], ?_⟩
      · intro k
        rcases hchanged k with hk | ⟨hnone, -⟩
        · rw [unreadable_congr hk]
          by_cases hkk : k ∈ keys
          · exact hread k hkk
          · refine hload.stays_readable (unreadable_of_none ?_)
            exact Option.not_isSome_iff_eq_none.1 fun hsome => hkk (hall k hsome)
        · exact unreadable_of_none hnone
      · intro hreadable
        rw [hcorrupt, Nat.zero_add, List.countP_eq_zero]
        intro k _
        rw [hreadable k]
        exact Bool.false_ne_true

/-- The listing itself was not answered. -/
theorem Rebuilt.unlisted
    (hout : tr = [] ∧ out = none ∨ ∃ e, tr = [.called .list (.error e)] ∧
      (out = none ∨ out = some (.error (.storage e)))) : Rebuilt c m tr out m [] [] where
  listing := .inl rfl
  overQuota a p b hab := by cases a <;> cases hab
  deleted p hp := absurd hp List.not_mem_nil
  changed _ := .inl rfl
  undiscarded k _ := by
    rcases hout with ⟨rfl, -⟩ | ⟨e, rfl, -⟩
    · exact .nil
    · exact Undiscarded.nil.called _ _
  jammed k b hj := hj.held
  panicked hp := by
    rcases hout with ⟨-, rfl⟩ | ⟨e', -, rfl | rfl⟩ <;> cases hp
  failed e he := by
    rcases hout with ⟨-, rfl⟩ | ⟨e', rfl, rfl | rfl⟩
    · cases he
    · cases he
    · exact ⟨.list, e', List.mem_singleton_self _, nofun⟩
  opened q hq := by
    rcases hout with ⟨-, rfl⟩ | ⟨e', -, rfl | rfl⟩ <;> cases hq

/-- An opening that has deleted anything over quota, or has come to its end, has put what it found in
order before. -/
theorem found_of_follows (h : Follows (rehydrate c) m tr out m') :
    ∃ gone kept, Rebuilt c m tr out m' gone kept ∧
      ((gone = [] ∧ ∀ q, out ≠ some (.ok q)) ∨ Found m (gone ++ kept) tr) := by
  rcases h.of_call with ⟨rfl, rfl, rfl⟩ | ⟨e, tr', rfl, hdone⟩ | ⟨keys, tr', rfl, hkeys, hrest⟩
  · exact ⟨[], [], .unlisted (.inl ⟨rfl, rfl⟩), .inl ⟨rfl, nofun⟩⟩
  · obtain ⟨rfl, rfl, hout⟩ := hdone.of_done
    refine ⟨[], [], .unlisted (.inr ⟨e, rfl, hout⟩), .inl ⟨rfl, ?_⟩⟩
    rcases hout with rfl | rfl <;> nofun
  · obtain ⟨hnodup, hall⟩ := hkeys
    rcases hrest.of_bind with ⟨rfl, hload⟩ | ⟨loaded, tr₁, tr₂, m₁, hload, hrest, rfl⟩
    · exact ⟨[], [], .ofLoaded (loaded_of_follows hnodup hload) (.inl rfl), .inl ⟨rfl, nofun⟩⟩
    · have hload := loaded_of_follows hnodup hload
      cases loaded with
      | error e =>
        obtain ⟨rfl, rfl, hout⟩ := hrest.of_done
        rw [List.append_nil]
        refine ⟨[], [], .ofLoaded hload (hout.imp_right fun h => .inl ⟨e, rfl, h⟩), .inl ⟨rfl, ?_⟩⟩
        rcases hout with rfl | rfl <;> nofun
      | panic =>
        obtain ⟨rfl, rfl, hout⟩ := hrest.of_done
        rw [List.append_nil]
        refine ⟨[], [], .ofLoaded hload (hout.imp_right fun h => .inr ⟨rfl, h⟩), .inl ⟨rfl, ?_⟩⟩
        rcases hout with rfl | rfl <;> nofun
      | ok loaded =>
        obtain ⟨found, corrupt⟩ := loaded
        rcases hrest.of_bind with ⟨rfl, htrim⟩ | ⟨trimmed, tr₃, tr₄, m₂, htrim, hrest, rfl⟩
        · obtain ⟨gone, kept, htrim⟩ := trimmed_of_follows htrim
          rw [← List.append_nil tr₂]
          exact ⟨gone, kept, .ofTrimmed hnodup hall hload htrim (fun _ => .nil) (.inl rfl),
            .inr (.ofTrimmed hnodup hall hload htrim)⟩
        · obtain ⟨gone, kept, htrim⟩ := trimmed_of_follows htrim
          refine ⟨gone, kept, ?_, .inr (.ofTrimmed hnodup hall hload htrim)⟩
          cases trimmed with
          | error e =>
            obtain ⟨rfl, rfl, hout⟩ := hrest.of_done
            exact .ofTrimmed hnodup hall hload htrim (fun _ => .nil)
              (hout.imp_right fun h => .inl ⟨e, rfl, h⟩)
          | ok trimmed =>
            obtain ⟨pings, dropped⟩ := trimmed
            obtain ⟨tr₅, hrest, htold⟩ := follows_told hrest
            obtain ⟨tr₆, hdone, htold'⟩ :=
              follows_told (n := some (.rehydrated pings.length)) hrest
            obtain ⟨rfl, rfl, hout⟩ := hdone.of_done
            refine .ofTrimmed hnodup hall hload htrim (?_)
              (hout.imp_right fun h => .inr ⟨pings, dropped, rfl, h⟩)
            intro k
            refine htold k (?_) (htold' k nofun .nil)
            intro e he
            split at he <;> cases he

theorem rebuilt_of_follows (h : Follows (rehydrate c) m tr out m') :
    ∃ gone kept, Rebuilt c m tr out m' gone kept := by
  obtain ⟨gone, kept, hrebuilt, -⟩ := found_of_follows h
  exact ⟨gone, kept, hrebuilt⟩

/-- An opening that meets no failure reports none. -/
theorem not_untroubled_of_error {e : QueueError}
    (h : Follows (rehydrate c) m tr (some (.error e)) m') : ¬ Untroubled tr := by
  intro htr
  obtain ⟨gone, kept, hrebuilt⟩ := rebuilt_of_follows h
  obtain ⟨call, e', hcall, hlisted⟩ := hrebuilt.failed e rfl
  obtain ⟨k, hk, hinvalid⟩ := htr.answered call e' hcall
  obtain ⟨keys, hkeys, hmem⟩ := hlisted k hk
  exact hinvalid (htr.listed keys hkeys k hmem)

/-- It comes to its end, unless a record jams it. -/
theorem exists_opened {r : Ended QueueError Queue} (h : Follows (rehydrate c) m tr (some r) m')
    (htr : Untroubled tr) (hfree : ∀ k b, ¬ Jams m k b) : ∃ q, r = .ok q := by
  cases r with
  | ok q => exact ⟨q, rfl⟩
  | error e => exact absurd htr (not_untroubled_of_error h)
  | panic =>
    obtain ⟨gone, kept, hrebuilt⟩ := rebuilt_of_follows h
    obtain ⟨k, b, hj⟩ := hrebuilt.panicked rfl
    exact absurd hj (hfree k b)

/-- Where a record jams the reader, no opening succeeds. -/
theorem not_jams_of_opened {q : Queue} (h : Follows (rehydrate c) m tr (some (.ok q)) m')
    (k : String) (b : Bytes) : ¬ Jams m k b := by
  intro hj
  obtain ⟨gone, kept, hrebuilt⟩ := rebuilt_of_follows h
  obtain ⟨-, -, hreadable, -⟩ := hrebuilt.opened q rfl
  have hstill := hj.kept (hrebuilt.jammed k b hj)
  exact Bool.noConfusion (hstill.unreadable.symm.trans (hreadable k))

/-- **A record that jams the reader stops every opening that meets no failure**, and stays. -/
theorem panics_of_jams {r : Ended QueueError Queue} (h : Follows (rehydrate c) m tr (some r) m')
    (htr : Untroubled tr) {k : String} {b : Bytes} (hj : Jams m k b) :
    r = .panic ∧ m' k = some b := by
  cases r with
  | panic =>
    obtain ⟨gone, kept, hrebuilt⟩ := rebuilt_of_follows h
    exact ⟨rfl, hrebuilt.jammed k b hj⟩
  | error e => exact absurd htr (not_untroubled_of_error h)
  | ok q => exact absurd hj (not_jams_of_opened h k b)

/-! ## The mirror after opening -/

theorem Mirror.readable {l : List Ping} (h : Mirror m l) (k : String) : unreadable m k = false := by
  cases hs : stored? m k with
  | some p => exact unreadable_of_stored hs
  | none =>
    refine Bool.eq_false_iff.2 ?_
    intro hu
    simp only [unreadable, Bool.and_eq_true] at hu
    obtain ⟨p, hp, rfl⟩ := h.only k hu.1.1 hu.1.2
    rw [h.held p hp] at hs
    cases hs

/-- What openings may leave of a content: the pings of `gone` are deleted, each of which did not fit
together with all behind it, and with them some of the unreadable records. -/
structure Remnant (c : Config) (m m' : Content) (gone kept : List Ping) : Prop where
  overQuota : ∀ a p b, gone = a ++ p :: b → c.admits (p :: b ++ kept) = false
  deleted : ∀ p ∈ gone, m' (Record.key p.id) = none
  changed : ∀ k, m' k = m k ∨
    (m' k = none ∧ (unreadable m k = true ∨ ∃ p ∈ gone, Record.key p.id = k))

theorem Rebuilt.remnant {gone kept : List Ping} (h : Rebuilt c m tr out m' gone kept) :
    Remnant c m m' gone kept := ⟨h.overQuota, h.deleted, h.changed⟩

/-- The records of the pings that are kept are as they were. -/
theorem Remnant.kept_record {gone kept : List Ping} (h : Remnant c m m' gone kept)
    (hlisting : Listing m (gone ++ kept)) {p : Ping} (hp : p ∈ kept) :
    m' (Record.key p.id) = m (Record.key p.id) := by
  have hdistinct := hlisting.distinct
  rw [ids, List.map_append] at hdistinct
  obtain ⟨-, -, hdisjoint⟩ := List.nodup_append.1 hdistinct
  have hstored := (hlisting.mem_iff p).1 (List.mem_append_right _ hp)
  rcases h.changed (Record.key p.id) with heq | ⟨-, hu | ⟨x, hx, hkey⟩⟩
  · exact heq
  · rw [unreadable_of_stored hstored] at hu
    cases hu
  · have hid := Record.key_injective hkey
    exact absurd hid (hdisjoint _ (List.mem_map_of_mem hx) _ (List.mem_map_of_mem hp))

theorem Rebuilt.kept_record {gone kept : List Ping} (h : Rebuilt c m tr out m' gone kept)
    (hlisting : Listing m (gone ++ kept)) {p : Ping} (hp : p ∈ kept) :
    m' (Record.key p.id) = m (Record.key p.id) := h.remnant.kept_record hlisting hp

theorem Rebuilt.mirror_of_readable {gone kept : List Ping} (h : Rebuilt c m tr out m' gone kept)
    (hlisting : Listing m (gone ++ kept)) (hreadable : ∀ k, unreadable m' k = false) :
    Mirror m' kept := by
  have hdistinct := hlisting.distinct
  rw [ids, List.map_append] at hdistinct
  refine ⟨(List.nodup_append.1 hdistinct).2.1, ?_, ?_⟩
  · intro p hp
    have hstored := (hlisting.mem_iff p).1 (List.mem_append_right _ hp)
    rw [stored_congr (h.kept_record hlisting hp), hstored, (addressable_of_stored hstored).settled]
  · intro k hk hsome
    have hread := hreadable k
    rw [unreadable, hk, hsome, Bool.true_and, Bool.true_and] at hread
    cases hp : stored? m' k with
    | none =>
      rw [hp] at hread
      cases hread
    | some p =>
      obtain rfl := key_of_stored hp
      refine ⟨p, ?_, rfl⟩
      rcases h.changed (Record.key p.id) with heq | ⟨hnone, -⟩
      · rw [stored_congr heq] at hp
        rcases List.mem_append.1 ((hlisting.mem_iff p).2 hp) with hgone | hkept
        · rw [h.deleted p hgone] at hsome
          cases hsome
        · exact hkept
      · rw [hnone] at hsome
        cases hsome

/-- **An opened queue mirrors its store**, whatever the store held before. -/
theorem Rebuilt.mirror {gone kept : List Ping} (h : Rebuilt c m tr out m' gone kept) {q : Queue}
    (hq : out = some (.ok q)) : Mirror m' q.pings := by
  obtain ⟨hlisting, -, hreadable, corrupt, rfl, -⟩ := h.opened q hq
  exact h.mirror_of_readable hlisting hreadable

end
end PingDelivery.Queue
