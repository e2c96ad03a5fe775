import PingDelivery.Proofs.Queue.Reopening
import PingDelivery.Proofs.Record.Spelling
import Mathlib.Data.Set.Card

/-! # What opening makes of any content

A store may hold anything under its keys: records that cannot be read, records under another
spelling of their id, records with the same number. `Opened` says what an opening that comes to its
end has made of them. The list is the longest end of the readable pings in their order that fits the
quotas. Nothing else is left under the keys of pings, and all other keys are as they were. An opening
that no call fails comes to its end unless a record is overlong: that one panics it, again each time.
-/

namespace PingDelivery.Queue
open Store

/-! ## Order and quotas -/

/-- The same pings in the order of the queue. Pings that were in order already have kept it, so those
that neither precede nor follow each other stand as they were found. -/
structure StablySorted (found l : List Ping) : Prop where
  perm : l.Perm found
  sorted : l.Pairwise fun a b => precedes a b = true
  stable : ∀ l' : List Ping, l'.Sublist found → l'.Pairwise (fun a b => precedes a b = true) →
    l'.Sublist l

theorem stablySorted_ordered (found : List Ping) : StablySorted found (ordered found) where
  perm := List.mergeSort_perm found precedes
  sorted := List.pairwise_mergeSort precedes_trans precedes_total found
  stable _ hsub hsorted := List.sublist_mergeSort precedes_trans precedes_total hsorted hsub

/-- The longest end of the list that both quotas admit. -/
structure LongestFitting (c : Config) (l kept : List Ping) : Prop where
  suffix : kept <:+ l
  count : kept.length ≤ c.maxPings
  bytes : totalSize kept ≤ c.maxBytes
  longest : ∀ l', l' <:+ l → l'.length ≤ c.maxPings → totalSize l' ≤ c.maxBytes → l' <:+ kept

theorem admits_iff {c : Config} {l : List Ping} :
    c.admits l = true ↔ l.length ≤ c.maxPings ∧ totalSize l ≤ c.maxBytes := by
  simp only [Config.admits, Bool.and_eq_true, decide_eq_true_eq]

/-- Where each deletion was due and none is due any more, the longest end is left. -/
theorem longestFitting_of_split {c : Config} {gone kept : List Ping}
    (hover : ∀ a p b, gone = a ++ p :: b → c.admits (p :: b ++ kept) = false)
    (hkept : kept = [] ∨ c.admits kept = true) : LongestFitting c (gone ++ kept) kept := by
  have hfit : kept.length ≤ c.maxPings ∧ totalSize kept ≤ c.maxBytes := by
    rcases hkept with rfl | hkept
    · exact ⟨Nat.zero_le _, Nat.zero_le _⟩
    · exact admits_iff.1 hkept
  refine ⟨List.suffix_append gone kept, hfit.1, hfit.2, ?_⟩
  intro l' hl' hcount hbytes
  rcases List.suffix_or_suffix_of_suffix hl' (List.suffix_append gone kept) with hin | ⟨more, rfl⟩
  · exact hin
  · cases more with
    | nil => exact List.suffix_refl _
    | cons p b =>
      -- a longer end begins with a ping that was over quota
      obtain ⟨a, ha⟩ := hl'
      rw [← List.append_assoc] at ha
      have hgone : gone = a ++ p :: b := (List.append_cancel_right ha).symm
      have hfits := hover a p b hgone
      rw [admits_iff.2 ⟨hcount, hbytes⟩] at hfits
      cases hfits

/-! ## Openings that come to their end -/

/-- An opening has listed the keys, read what is under them, put the readable pings in order and
deleted from the front of them. -/
structure Opened (c : Config) (m : Content) (keys : List String) (q : Queue) : Prop where
  nodup : keys.Nodup
  complete : ∀ k, (m k).isSome → k ∈ keys
  fitting : LongestFitting c (ordered (keys.filterMap (stored? m))) q.pings
  queue : ∃ dropped, (keys.filterMap (stored? m)).length = dropped + q.pings.length ∧
    q = restored c q.pings (keys.countP (unreadable m)) dropped

theorem opened_of_loaded {c : Config} {m m₁ m' : Content} {tr tr' : List Observed}
    {keys : List String} {found kept : List Ping} {corrupt dropped : Nat} {gone kept' : List Ping}
    (hnodup : keys.Nodup) (hall : ∀ k, (m k).isSome → k ∈ keys)
    (hload : Loaded keys [] 0 m tr (some (.ok (found, corrupt))) m₁)
    (htrim : Trimmed c (ordered found) 0 m₁ tr' (some (.ok (kept, dropped))) m' gone kept') :
    Opened c m keys (restored c kept corrupt dropped) := by
  obtain ⟨hfound, hcorrupt, -⟩ := hload.read _ _ rfl
  obtain ⟨rfl, hdropped, hkept⟩ := htrim.trimmed _ _ rfl
  rw [List.reverse_nil, List.nil_append] at hfound
  subst hfound
  have hlength : (keys.filterMap (stored? m)).length = gone.length + kept.length := by
    rw [← (stablySorted_ordered _).perm.length_eq, htrim.split, List.length_append]
  refine ⟨hnodup, hall, ?_, ?_⟩
  · rw [htrim.split]
    exact longestFitting_of_split htrim.overQuota hkept
  · rw [hcorrupt, hdropped, Nat.zero_add, Nat.zero_add]
    exact ⟨gone.length, hlength, rfl⟩

section
variable {c : Config} {m m' : Content} {tr : List Observed} {q : Queue}

theorem opened_of_follows (h : Follows (rehydrate c) m tr (some (.ok q)) m') :
    ∃ (keys : List String) (tr' : List Observed),
      tr = .called .list (.ok keys) :: tr' ∧ Opened c m keys q := by
  rcases h.of_call with ⟨-, -, hout⟩ | ⟨e, tr', -, hdone⟩ | ⟨keys, tr', rfl, ⟨hnodup, hall⟩, hrest⟩
  · cases hout
  · cases hdone.eq_of_done.1
  · refine ⟨keys, tr', rfl, ?_⟩
    rcases hrest.of_bind with ⟨hout, -⟩ | ⟨loaded, tr₁, tr₂, m₁, hload, hrest, -⟩
    · cases hout
    · cases loaded with
      | error e => cases hrest.eq_of_done.1
      | panic => cases hrest.eq_of_done.1
      | ok loaded =>
        rcases hrest.of_bind with ⟨hout, -⟩ | ⟨trimmed, tr₃, tr₄, m₂, htrim, hrest, -⟩
        · cases hout
        · cases trimmed with
          | error e => cases hrest.eq_of_done.1
          | ok trimmed =>
            obtain ⟨gone, kept, htrim⟩ := trimmed_of_follows htrim
            obtain ⟨tr₅, hrest, -⟩ := follows_told hrest
            obtain ⟨tr₆, hdone, -⟩ := follows_told (n := some (.rehydrated trimmed.1.length)) hrest
            cases hdone.eq_of_done.1
            exact opened_of_loaded hnodup hall (loaded_of_follows hnodup hload) htrim

/-! ## What is counted, numbered and left -/

/-- How many keys of pings there are. -/
noncomputable def pingKeys (m : Content) : Nat :=
  {k | Record.isPingKey k = true ∧ (m k).isSome = true}.ncard

theorem countP_pingKeys (m : Content) (keys : List String) :
    keys.countP (fun k => Record.isPingKey k && (m k).isSome) =
      (keys.filterMap (stored? m)).length + keys.countP (unreadable m) := by
  induction keys with
  | nil => rfl
  | cons k keys ih =>
    rw [List.countP_cons, List.countP_cons, ih]
    cases hs : stored? m k with
    | some p =>
      obtain ⟨b, hb, -⟩ := decode_of_stored hs
      rw [isPingKey_of_stored hs, hb, unreadable_of_stored hs, List.filterMap_cons_some hs,
        List.length_cons]
      simp only [Option.isSome_some, Bool.and_self, if_true, Bool.false_eq_true, if_false]
      omega
    | none =>
      have hkey : (Record.isPingKey k && (m k).isSome) = unreadable m k := by
        rw [unreadable, hs, Option.isNone_none, Bool.and_true]
      rw [List.filterMap_cons_none hs, hkey]
      omega

/-- Under every key of a ping there is a readable record or an unreadable one. -/
theorem pingKeys_eq {keys : List String} (hnodup : keys.Nodup)
    (hall : ∀ k, (m k).isSome → k ∈ keys) :
    pingKeys m = (keys.filterMap (stored? m)).length + keys.countP (unreadable m) := by
  have hset : {k | Record.isPingKey k = true ∧ (m k).isSome = true} =
      ((keys.filter fun k => Record.isPingKey k && (m k).isSome).toFinset : Set String) := by
    ext k
    simp only [Set.mem_ofPred_eq, List.coe_toFinset, List.mem_filter, Bool.and_eq_true]
    exact ⟨fun h => ⟨hall k h.2, h⟩, fun h => h.2⟩
  rw [pingKeys, hset, Set.ncard_coe_finset, List.toFinset_card_of_nodup (hnodup.filter _),
    ← List.countP_eq_length_filter, countP_pingKeys]

/-- In a list in order the last number is the highest, so the next one lies above them all. -/
theorem below_restored {l : List Ping} {corrupt dropped : Nat}
    (hl : l.Pairwise fun a b => precedes a b = true)
    (hroom : ∀ p ∈ l, p.sequence.toNat + 1 < 2 ^ 64) :
    ∀ p ∈ l, p.sequence < (restored c l corrupt dropped).nextSequence := by
  intro p hp
  have hne : l ≠ [] := List.ne_nil_of_mem hp
  have hnext : (restored c l corrupt dropped).nextSequence = (l.getLast hne).sequence + 1 := by
    rw [restored, List.getLast?_eq_getLast_of_ne_nil hne]
    rfl
  have hsucc := lt_succ (hroom _ (List.getLast_mem hne))
  rw [hnext]
  rw [← List.dropLast_append_getLast hne] at hl hp
  rcases List.mem_append.1 hp with hp | hp
  · rcases precedes_iff.1 ((List.pairwise_append.1 hl).2.2 p hp _ List.mem_cons_self) with hlt | heq
    · exact UInt64.lt_trans hlt hsucc
    · exact heq.1 ▸ hsucc
  · cases List.mem_singleton.1 hp
    exact hsucc

/-- **What opening makes of any content.** -/
structure Salvaged (c : Config) (m : Content) (keys : List String) (q : Queue) (m' : Content) :
    Prop where
  /-- Of the readable pings, in order, the longest end within the quotas is left. -/
  pings : ∃ l, StablySorted (keys.filterMap (stored? m)) l ∧ LongestFitting c l q.pings
  distinct : (ids q.pings).Nodup
  numbered : ∀ p ∈ q.pings, p.sequence < q.nextSequence
  healthy : q.faulted = false
  /-- The keys of pings that are left are those of the list, with the bytes they had. -/
  left : ∀ k, Record.isPingKey k = true →
    ((m' k).isSome = true ↔ ∃ p ∈ q.pings, Record.key p.id = k)
  kept : ∀ p ∈ q.pings, m' (Record.key p.id) = m (Record.key p.id)
  others : ∀ k, Record.isPingKey k = false → m' k = m k
  restored : q.report.restored = q.pings.length
  counted : q.report.restored + q.report.discardedCorrupt + q.report.discardedOverQuota = pingKeys m

theorem salvaged_of_opened {keys : List String} {gone : List Ping} (h : Opened c m keys q)
    (hr : Rebuilt c m tr (some (.ok q)) m' gone q.pings)
    (hroom : ∀ k p, stored? m k = some p → p.sequence.toNat + 1 < 2 ^ 64) :
    Salvaged c m keys q m' := by
  obtain ⟨hlisting, -, -, -⟩ := hr.opened q rfl
  obtain ⟨dropped, hdropped, hq⟩ := h.queue
  have hmirror := hr.mirror rfl
  have hsorted := stablySorted_ordered (keys.filterMap (stored? m))
  have hstored (p : Ping) (hp : p ∈ q.pings) : stored? m (Record.key p.id) = some p :=
    (hlisting.mem_iff p).1 (List.mem_append_right _ hp)
  refine ⟨⟨_, hsorted, h.fitting⟩, hmirror.distinct, ?_, congrArg Queue.faulted hq, ?_,
    fun p hp => hr.kept_record hlisting hp, ?_, congrArg (·.report.restored) hq, ?_⟩
  · have hnext (corrupt : Nat) :
        ∀ p ∈ q.pings, p.sequence < (restored c q.pings corrupt dropped).nextSequence :=
      below_restored (hsorted.sorted.sublist h.fitting.suffix.sublist)
        fun p hp => hroom _ p (hstored p hp)
    rw [hq]
    exact hnext _
  · intro k hk
    constructor
    · exact hmirror.only k hk
    · rintro ⟨p, hp, rfl⟩
      obtain ⟨b, hb, -⟩ := decode_of_stored (hmirror.held p hp)
      rw [hb]
      rfl
  · intro k hk
    rcases hr.changed k with hsame | ⟨-, hu | ⟨p, -, rfl⟩⟩
    · exact hsame
    · rw [unreadable, hk, Bool.false_and, Bool.false_and] at hu
      cases hu
    · rw [Record.isPingKey_key] at hk
      cases hk
  · rw [pingKeys_eq h.nodup h.complete, hdropped, hq]
    simp only [restored]
    omega

end

theorem jams_iff {m : Content} {k : String} {b : Bytes} : Jams m k b ↔
    Record.isPingKey k = true ∧ m k = some b ∧ Record.Spelled.Overlong b :=
  ⟨fun h => ⟨h.ping, h.held, Record.decode_eq_panic_iff.1 h.panics⟩,
    fun ⟨hk, hb, h⟩ => ⟨hk, hb, Record.decode_eq_panic_iff.2 h⟩⟩

/-- No record under the key of a ping is overlong. -/
def NoneOverlong (m : Content) : Prop :=
  ∀ k x, Record.isPingKey k = true → m k = some x → ¬ Record.Spelled.Overlong x

theorem NoneOverlong.not_jams {m : Content} (h : NoneOverlong m) (k : String) (x : Bytes) :
    ¬ Jams m k x := by
  intro hj
  obtain ⟨hk, hx, hlong⟩ := jams_iff.1 hj
  exact h k x hk hx hlong

/-- A ping, bytes under the key of a ping that are no record, and something of another owner. -/
def litter : Memory :=
  ⟨((Dict.empty.insert (Record.key blank.id) (Record.encode blank)).insert
    (Record.key (.drawn 2)) [255]).insert "notes" [1, 2], false⟩

theorem working_litter : litter.Working where
  running := rfl
  valid k hk := by
    rcases Dict.mem_keys_insert hk with rfl | hk
    · decide
    rcases Dict.mem_keys_insert hk with rfl | hk
    · exact Uuid.validKey_text _
    rcases Dict.mem_keys_insert hk with rfl | hk
    · exact Uuid.validKey_text _
    · cases hk

theorem decode_encode_blank : Record.decode (Record.key blank.id) (Record.encode blank) = .ok blank := by
  have hdecode := Record.decode_encode_settled fits_blank []
  have hblank : blank.settled = blank := Ping.settled_eq_self_iff.2 (by decide)
  rwa [List.append_nil, hblank] at hdecode

/-- Under the key of a ping there is its record or a byte that is none. -/
theorem get?_litter {k : String} {x : Bytes} (hk : Record.isPingKey k = true)
    (h : litter.records.get? k = some x) :
    Record.decode k x = .ok blank ∨ Record.decode k x = .error .malformed := by
  rw [litter, Dict.get?_insert, Dict.get?_insert, Dict.get?_insert, Dict.get?_empty] at h
  split at h
  case isTrue hnotes =>
    rw [hnotes] at hk
    exact absurd hk (by decide)
  split at h
  · cases h
    exact .inr rfl
  split at h
  case isTrue hblank =>
    cases h
    rw [hblank]
    exact .inl decode_encode_blank
  · cases h

/-- A map with an overlong record under the key of a ping. -/
def hoard : Memory := ⟨Dict.empty.insert (Record.key (.drawn 161)) Record.boundless, false⟩

theorem working_hoard : hoard.Working where
  running := rfl
  valid k hk := by
    rcases Dict.mem_keys_insert hk with rfl | hk
    · exact Uuid.validKey_text _
    · cases hk

end PingDelivery.Queue
