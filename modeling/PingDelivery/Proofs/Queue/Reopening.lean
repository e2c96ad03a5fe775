import PingDelivery.Proofs.Queue.Numbering
import PingDelivery.Proofs.Record.Delimited

/-! # Opening a queue again

`Reached m₀ q m` are the queues that come about over a store: opened over the content `m₀` and then
asked anything, with calls failing anywhere. By induction over it the store mirrors the queue and
the numbers ascend. A listing of a mirrored store has only one order then, so a queue opened over it
afresh is the same list again, in whatever order the store lists its keys.
-/

namespace PingDelivery
open Store

namespace Queue

/-- No two records that can be read bear the same number. -/
def DistinctlyNumbered (m : Content) : Prop :=
  ∀ k k' p p', stored? m k = some p → stored? m k' = some p' → p.sequence = p'.sequence → k = k'

/-- The queues over a store, what the store then holds, and all queues that there have been, the latest
first. A request may find the queue suspended or have passed its check before. Numbers that do not fit
into 64 bits wrap around. -/
inductive Reached (m₀ : Content) : List Queue → Queue → Content → Prop where
  | opened {c : Config} {tr : List Observed} {q : Queue} {m : Content}
      (h : Follows (rehydrate c) m₀ tr (some (.ok q)) m) : Reached m₀ [q] q m
  | asked {past : List Queue} {q q' : Queue} {m m' : Content} {passed : Bool} {r : Request}
      {tr : List Observed} {a : Except QueueError Reply} (hq : Reached m₀ past q m) (hr : r.Fits)
      (h : Follows (q.attend passed r) m tr (some (a, q')) m') : Reached m₀ (q' :: past) q' m'

theorem Listing.ascending {m : Content} {l : List Ping} (h : Listing m l)
    (hm : DistinctlyNumbered m) : Ascending l := by
  refine ascending_of_sorted h.sorted ?_
  refine (List.pairwise_map.1 h.distinct).imp_of_mem fun {a b} ha hb hne hseq => hne ?_
  exact Record.key_injective (hm _ _ a b ((h.mem_iff a).1 ha) ((h.mem_iff b).1 hb) hseq)

theorem Numbered.opened {c : Config} {m m' : Content} {tr : List Observed}
    {out : Option (Ended QueueError Queue)} {gone kept : List Ping}
    (h : Rebuilt c m tr out m' gone kept) {q : Queue} (hq : out = some (.ok q))
    (hm : ∀ l, Listing m l → Ascending l) (hroom : q.Unexhausted) : Numbered q := by
  obtain ⟨hlisting, -, -, corrupt, rfl, -⟩ := h.opened q hq
  exact numbered_restored ((hm _ hlisting).sublist (List.sublist_append_right _ _)) hroom

theorem Numbered.attended {q q' : Queue} {r : Request} {m m' : Content}
    {a : Except QueueError Reply} (h : Numbered q) (hl : (ids q.pings).Nodup)
    (ha : Attended q r m (some (a, q')) m') (hroom : q'.Unexhausted) : Numbered q' := by
  cases ha with
  | refused e => exact h
  | peeked hr => exact h
  | failed e => exact ⟨h.ascending, h.below⟩
  | written hc => exact h.change hl hc hroom

/-- **Memory mirrors storage** in every queue that is reached. -/
theorem Reached.mirror {m₀ m : Content} {past : List Queue} {q : Queue} (h : Reached m₀ past q m) :
    Mirror m q.pings := by
  induction h with
  | opened h =>
    obtain ⟨gone, kept, hrebuilt⟩ := rebuilt_of_follows h
    exact hrebuilt.mirror rfl
  | asked _ hr h ih =>
    obtain ⟨hattended, -⟩ := attended_of_follows h
    obtain ⟨l, hl, hpings⟩ := ih.attended hr hattended
    exact hpings _ _ rfl ▸ hl

/-- The numbers ascend as long as they have not run out. -/
theorem Reached.numbered {m₀ m : Content} {past : List Queue} {q : Queue}
    (hm₀ : DistinctlyNumbered m₀) (h : Reached m₀ past q m) (hroom : ∀ x ∈ past, x.Unexhausted) :
    Numbered q := by
  induction h with
  | opened h =>
    obtain ⟨gone, kept, hrebuilt⟩ := rebuilt_of_follows h
    exact .opened hrebuilt rfl (fun l hl => hl.ascending hm₀) (hroom _ List.mem_cons_self)
  | asked hq _ h ih =>
    obtain ⟨hattended, -⟩ := attended_of_follows h
    exact (ih fun x hx => hroom x (List.mem_cons_of_mem _ hx)).attended hq.mirror.distinct hattended
      (hroom _ List.mem_cons_self)

theorem admits_settled (c : Config) (l : List Ping) :
    c.admits (l.map Ping.settled) = c.admits l := by
  rw [Config.admits, Config.admits, List.length_map, totalSize, totalSize, List.foldr_map]
  rfl

/-- An opening of a mirrored store that meets no failure gives the mirrored list, as its records read,
and leaves the store as it was, if the list fits. -/
theorem restored_of_follows {c : Config} {m m' : Content} {tr : List Observed} {l : List Ping}
    {r : Ended QueueError Queue} (hm : Mirror m l) (hl : Ascending l) (hfit : c.admits l = true)
    (h : Follows (rehydrate c) m tr (some r) m') (htr : Untroubled tr) :
    r = .ok (restored c (l.map Ping.settled) 0 0) ∧ m' = m := by
  obtain ⟨gone, kept, hrebuilt⟩ := rebuilt_of_follows h
  have hgone : gone = [] := by
    rcases hrebuilt.listing with hnil | hlisting
    · exact hnil
    · have hwhole := hlisting.eq_of_mirror hm hl
      cases gone with
      | nil => rfl
      | cons p b =>
        have hover := hrebuilt.overQuota [] p b rfl
        rw [hwhole, admits_settled, hfit] at hover
        cases hover
  subst hgone
  have hsame : m' = m := by
    funext k
    rcases hrebuilt.changed k with heq | ⟨-, hu | ⟨p, hp, -⟩⟩
    · exact heq
    · rw [hm.readable k] at hu
      cases hu
    · cases hp
  have hfree (k : String) (b : Bytes) : ¬ Jams m k b := by
    intro hj
    exact Bool.noConfusion (hj.unreadable.symm.trans (hm.readable k))
  obtain ⟨q, rfl⟩ := exists_opened h htr hfree
  obtain ⟨hlisting, -, -, corrupt, rfl, hcorrupt⟩ := hrebuilt.opened q rfl
  obtain rfl : kept = l.map Ping.settled := hlisting.eq_of_mirror hm hl
  rw [hcorrupt hm.readable]
  exact ⟨rfl, hsame⟩

theorem map_settled_eq_self_iff {l : List Ping} :
    l.map Ping.settled = l ↔ ∀ p ∈ l, p.createdAt.Civil := by
  refine ⟨fun h p hp => ?_, fun h => ?_⟩
  · rw [← h] at hp
    obtain ⟨x, -, rfl⟩ := List.mem_map.1 hp
    exact Time.Instant.civil_settled x.createdAt
  · exact (List.map_congr_left fun p hp => Ping.settled_eq_self_iff.2 (h p hp)).trans (List.map_id l)

/-- **Memory mirrors storage, and opening again is exact.** In every queue that is reached the keys
of pings in the store are the ids of the list and each record reads as its ping. Unless a pending ping
has borne the last number before, a queue opened over that store, by any backend in working order and
with any quotas that the list does not exceed, has the pings of those records in the same order, and
nothing is deleted. They are the same in every field if none was made in a leap second within a
minute, and only then. -/
theorem mirrors_and_reopens {m₀ m : Content} {past : List Queue} {q : Queue}
    (hm₀ : DistinctlyNumbered m₀) (h : Reached m₀ past q m) :
    Mirror m q.pings ∧
      ((∀ x ∈ past, x.Unexhausted) →
        ∀ (σ : Type) (b : Backend σ) (view : σ → Content) (well : σ → Prop), b.Healthy view well →
          ∀ s, well s → view s = m → ∀ c : Config, c.admits q.pings = true → ∃ s' ns,
            (rehydrate c).run b s = (.ok (restored c (q.pings.map Ping.settled) 0 0), s', ns) ∧
              view s' = m) ∧
      (q.pings.map Ping.settled = q.pings ↔ ∀ p ∈ q.pings, p.createdAt.Civil) := by
  refine ⟨h.mirror, fun hroom σ b view well hb s hs hview c hfit => ?_, map_settled_eq_self_iff⟩
  obtain ⟨tr, hrun, htr⟩ := hb.run_follows (rehydrate c) hs
  rw [hview] at hrun
  obtain ⟨hresult, hcontent⟩ :=
    restored_of_follows h.mirror (h.numbered hm₀ hroom).ascending hfit hrun htr
  exact ⟨_, _, Prod.ext hresult rfl, hcontent⟩

/-! ## Queues of one ping and of two -/

theorem mirror_nil : Mirror (fun _ => none) [] where
  distinct := List.nodup_nil
  held _ hp := absurd hp List.not_mem_nil
  only _ _ hsome := absurd hsome Bool.false_ne_true

theorem distinctlyNumbered_nil : DistinctlyNumbered fun _ => none := by
  intro k k' p p' hp
  rw [stored?, Option.bind_none] at hp
  cases hp

/-- A map that mirrors a list is opened as that list, if the list fits. -/
theorem follows_open_memory {c : Config} {s : Memory} {l : List Ping} (hs : s.Working)
    (hm : Mirror s.records.get? l) (hl : Ascending l) (hfit : c.admits l = true) : ∃ tr,
    Follows (rehydrate c) s.records.get? tr (some (.ok (restored c (l.map Ping.settled) 0 0)))
      s.records.get? := by
  obtain ⟨tr, hrun, htr⟩ := Memory.healthy.run_follows (rehydrate c) hs
  obtain ⟨hresult, hcontent⟩ := restored_of_follows hm hl hfit hrun htr
  rw [hresult, hcontent] at hrun
  exact ⟨tr, hrun⟩

theorem admits_nil (c : Config) : c.admits [] = true := by
  simp only [Config.admits, List.length_nil, totalSize, List.foldr_nil, Nat.zero_le]
  rfl

theorem follows_open_nil (c : Config) : ∃ tr,
    Follows (rehydrate c) (fun _ => none) tr (some (.ok (restored c [] 0 0))) fun _ => none :=
  follows_open_memory (s := .empty) .empty mirror_nil .nil (admits_nil c)

/-- A ping is queued where nothing was. -/
theorem reached_one (c : Config) {p : Ping} (hp : p.Fits) :
    Reached (fun _ => none)
      [(restored c [] 0 0).push { p with sequence := 0 }, restored c [] 0 0]
      ((restored c [] 0 0).push { p with sequence := 0 })
      ((storePut { p with sequence := 0 }).effect fun _ => none) := by
  obtain ⟨tr, hopen⟩ := follows_open_nil c
  obtain ⟨tr', henqueue⟩ := follows_enqueue (q := restored c [] 0 0) (p := p) rfl rfl fun _ => none
  refine .asked (.opened hopen) ?_ henqueue
  rintro p' ⟨⟩
  exact hp

/-- A ping without content. -/
def blank : Ping := .fresh (.drawn 1) "" [] ⟨0, 0, by decide⟩ ⟨"", "", "", none, none⟩

theorem fits_blank : blank.Fits where
  documentType := Record.length_ofText_le_longest (by decide)
  payload := by decide
  metadata := ⟨Record.length_ofText_le_longest (by decide), Record.length_ofText_le_longest (by decide),
    Record.length_ofText_le_longest (by decide), nofun, nofun⟩

end Queue

/-- A map that holds these pings. -/
def Store.Memory.ofPings : List Ping → Memory
  | [] => .empty
  | p :: l => ⟨(ofPings l).records.insert (Record.key p.id) (Record.encode p), false⟩

theorem get?_ofPings_cons (p : Ping) (l : List Ping) : (Memory.ofPings (p :: l)).records.get? =
    (Queue.storePut p).effect (Memory.ofPings l).records.get? := by
  funext k
  simp only [Memory.ofPings, Dict.get?_insert, Queue.storePut, Call.effect, Function.update_apply]

theorem working_ofPings (l : List Ping) : (Memory.ofPings l).Working := by
  induction l with
  | nil => exact .empty
  | cons p l ih =>
    refine ⟨rfl, fun k hk => ?_⟩
    rcases Dict.mem_keys_insert hk with rfl | hk
    · exact p.id.validKey_text
    · exact ih.valid k hk

namespace Queue

theorem mirror_ofPings {l : List Ping} (hfits : ∀ p ∈ l, p.Fits) (hids : (ids l).Nodup) :
    Mirror (Memory.ofPings l).records.get? l := by
  induction l with
  | nil => exact mirror_nil
  | cons p l ih =>
    obtain ⟨hp, hids⟩ := List.nodup_cons.1 hids
    have hl := ih (fun x hx => hfits x (List.mem_cons_of_mem p hx)) hids
    have hnew : ∀ x ∈ l, x.id ≠ p.id := fun x hx hid => hp (List.mem_map.2 ⟨x, hx, hid⟩)
    rw [get?_ofPings_cons]
    exact (hl.push (hfits p List.mem_cons_self) hnew).perm (List.perm_append_singleton p l).symm

theorem reopens_one_ping : ∃ s' ns, (rehydrate .standard).run Memory.backend (.ofPings [blank]) =
    (.ok (restored .standard [blank] 0 0), s', ns) := by
  have hreached := reached_one .standard fits_blank
  obtain ⟨-, hreopen, -⟩ := mirrors_and_reopens distinctlyNumbered_nil hreached
  have hroom : ∀ x ∈ [(restored .standard [] 0 0).push { blank with sequence := 0 },
      restored .standard [] 0 0], x.Unexhausted := by
    intro x hx p hp
    rcases List.mem_pair.1 hx with rfl | rfl
    · cases List.mem_singleton.1 hp
      decide
    · cases hp
  obtain ⟨s', ns, hrun, -⟩ := hreopen hroom Memory Memory.backend _ Memory.Working Memory.healthy
    (.ofPings [blank]) (working_ofPings _) (get?_ofPings_cons blank []) .standard (by decide)
  exact ⟨s', ns, hrun⟩

/-- A ping with the last number there is. -/
def utmost : Ping := { blank with sequence := 0xFFFFFFFFFFFFFFFF }

/-- A ping that is queued behind it. -/
def late : Ping := { blank with id := .drawn 2 }

theorem fits_utmost : utmost.Fits := fits_blank.numbered _

theorem fits_late : late.Fits := ⟨fits_blank.documentType, fits_blank.payload, fits_blank.metadata⟩

theorem mirror_utmost : Mirror (Memory.ofPings [utmost]).records.get? [utmost] :=
  mirror_ofPings (List.forall_mem_singleton.2 fits_utmost) (List.nodup_singleton _)

theorem distinctlyNumbered_utmost : DistinctlyNumbered (Memory.ofPings [utmost]).records.get? := by
  intro k k' x x' hx hx' _
  obtain ⟨y, hy, rfl⟩ := mirror_utmost.exists_of_stored hx
  obtain ⟨y', hy', rfl⟩ := mirror_utmost.exists_of_stored hx'
  cases List.mem_singleton.1 hy
  cases List.mem_singleton.1 hy'
  rw [← key_of_stored hx, ← key_of_stored hx']

/-- Behind the last number the numbers begin again. -/
theorem reached_late : ∃ past, Reached (Memory.ofPings [utmost]).records.get? past
    ((restored .standard [utmost] 0 0).push late) (Memory.ofPings [late, utmost]).records.get? := by
  obtain ⟨tr, hopen⟩ := follows_open_memory (c := .standard) (l := [utmost])
    (working_ofPings _) mirror_utmost (List.pairwise_singleton _ _) (by decide)
  obtain ⟨tr', henqueue⟩ := follows_enqueue (q := restored .standard [utmost] 0 0) (p := late) rfl
    (by decide) (Memory.ofPings [utmost]).records.get?
  rw [get?_ofPings_cons late]
  refine ⟨_, .asked (.opened hopen) ?_ henqueue⟩
  rintro p ⟨⟩
  exact fits_late

/-- The record of a ping made in a leap second within a minute reads as made a second later; and where
a ping has the last number, the next one is found before it. -/
theorem reopened_otherwise :
    (∃ past q m, Reached (fun _ => none) past q m ∧ q.pings = [Record.hasty] ∧
      stored? m (Record.key Record.hasty.id) =
        some { Record.hasty with createdAt := ⟨1700006165, 333333333, by decide⟩ }) ∧
    ∃ m₀ past q m, DistinctlyNumbered m₀ ∧ Reached m₀ past q m ∧ q.pings = [utmost, late] ∧
      ∃ tr, Follows (rehydrate .standard) m tr (some (.ok (restored .standard [late, utmost] 0 0))) m := by
  constructor
  · have hreached := reached_one .standard Record.fits_hasty
    have hheld := hreached.mirror.held Record.hasty (List.mem_singleton_self _)
    exact ⟨_, _, _, hreached, rfl, hheld⟩
  · obtain ⟨past, hreached⟩ := reached_late
    have hmirror : Mirror (Memory.ofPings [late, utmost]).records.get? [late, utmost] :=
      mirror_ofPings (List.forall_mem_cons.2 ⟨fits_late, List.forall_mem_singleton.2 fits_utmost⟩)
        (by decide)
    have hopen := follows_open_memory (c := .standard) (working_ofPings _) hmirror
      (List.pairwise_pair.2 (by decide)) (by decide)
    exact ⟨_, past, _, _, distinctlyNumbered_utmost, hreached, rfl, hopen⟩

end Queue
end PingDelivery
