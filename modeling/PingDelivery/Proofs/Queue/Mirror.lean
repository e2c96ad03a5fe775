import PingDelivery.Proofs.Queue.Serving
import PingDelivery.Proofs.Record.RoundTrip
import Mathlib.Data.List.Nodup

/-! # Memory mirrors the store

A queue is kept twice, as a list in memory and as records in a store. `Mirror m l` says that the two
agree: the keys of pings in the store are the ids in the list, and each record reads as the listed
ping, with its time as records tell it (`Ping.settled`; that is the ping itself unless it was made in
a leap second within a minute). Whatever a request comes to, the store mirrors a list again, and that
list is the memory's unless the process died.
-/

namespace PingDelivery.Queue
open Store

/-! ## Reading the store -/

/-- The ping that is stored under the key, if its record can be read. -/
def stored? (m : Content) (k : String) : Option Ping :=
  (m k).bind fun b => (Record.decode k b).toOption

theorem decode_of_stored {m : Content} {k : String} {p : Ping} (h : stored? m k = some p) :
    ∃ b, m k = some b ∧ Record.decode k b = .ok p := by
  obtain ⟨b, hb, hp⟩ := Option.bind_eq_some_iff.1 h
  refine ⟨b, hb, ?_⟩
  cases hd : Record.decode k b with
  | error e => rw [hd] at hp; cases hp
  | panic => rw [hd] at hp; cases hp
  | ok p' => rw [hd] at hp; cases hp; rfl

theorem stored_of_decode {m : Content} {k : String} {b : Bytes} {p : Ping} (hb : m k = some b)
    (h : Record.decode k b = .ok p) : stored? m k = some p := by
  rw [stored?, hb, Option.bind_some, h]
  rfl

theorem key_of_stored {m : Content} {k : String} {p : Ping} (h : stored? m k = some p) :
    Record.key p.id = k := by
  obtain ⟨b, -, hd⟩ := decode_of_stored h
  exact Record.key_of_decode hd

theorem addressable_of_stored {m : Content} {k : String} {p : Ping} (h : stored? m k = some p) :
    p.Addressable := by
  obtain ⟨b, -, hd⟩ := decode_of_stored h
  exact Record.addressable_of_decode hd

theorem stored_congr {m m' : Content} {k : String} (h : m' k = m k) : stored? m' k = stored? m k := by
  rw [stored?, stored?, h]

theorem effect_put_of_ne {m : Content} {p : Ping} {k : String} (h : k ≠ Record.key p.id) :
    (storePut p).effect m k = m k := Function.update_of_ne h _ _

theorem effect_put_self (m : Content) (p : Ping) :
    (storePut p).effect m (Record.key p.id) = some (Record.encode p) := Function.update_self _ _ _

theorem effect_delete_of_ne {m : Content} {id : Uuid} {k : String} (h : k ≠ Record.key id) :
    (storeDelete id).effect m k = m k := Function.update_of_ne h _ _

theorem effect_delete_self (m : Content) (id : Uuid) :
    (storeDelete id).effect m (Record.key id) = none := Function.update_self _ _ _

/-- A stored ping is read back. -/
theorem stored_put_self {p : Ping} (h : p.Fits) (m : Content) :
    stored? ((storePut p).effect m) (Record.key p.id) = some p.settled := by
  have hdecode := Record.decode_encode_settled h []
  rw [List.append_nil] at hdecode
  exact stored_of_decode (effect_put_self m p) hdecode

/-! ## Lists of pings with distinct ids -/

abbrev ids (l : List Ping) : List Uuid := l.map (·.id)

theorem eq_of_id {l : List Ping} (h : (ids l).Nodup) {p p' : Ping} (hp : p ∈ l) (hp' : p' ∈ l)
    (hid : p.id = p'.id) : p = p' := List.inj_on_of_nodup_map h hp hp' hid

theorem eraseP_eq_filter {l : List Ping} (h : (ids l).Nodup) (id : Uuid) :
    l.eraseP (·.id = id) = l.filter (·.id ≠ id) := by
  induction l with
  | nil => rfl
  | cons x r ih =>
    obtain ⟨hx, hr⟩ := List.nodup_cons.1 h
    by_cases hid : x.id = id
    · have hrest : r.filter (·.id ≠ id) = r := by
        refine List.filter_eq_self.2 ?_
        intro y hy
        have : y.id ≠ id := fun hy' => hx (List.mem_map.2 ⟨y, hy, hy'.trans hid.symm⟩)
        simpa using this
      rw [List.eraseP_cons_of_pos (by simpa using hid), List.filter_cons_of_neg (by simpa using hid),
        hrest]
    · rw [List.eraseP_cons_of_neg (by simpa using hid), List.filter_cons_of_pos (by simpa using hid),
        ih hr]

theorem replaceFirst_eq_map {l : List Ping} (h : (ids l).Nodup) (p : Ping) :
    replaceFirst p l = l.map fun x => if x.id = p.id then p else x := by
  induction l with
  | nil => rfl
  | cons x r ih =>
    obtain ⟨hx, hr⟩ := List.nodup_cons.1 h
    rw [replaceFirst, List.map_cons]
    by_cases hid : x.id = p.id
    · have hrest : r.map (fun x => if x.id = p.id then p else x) = r := by
        refine (List.map_congr_left fun y hy => if_neg ?_).trans (List.map_id r)
        intro hy'
        exact hx (List.mem_map.2 ⟨y, hy, hy'.trans hid.symm⟩)
      rw [if_pos hid, if_pos hid, hrest]
    · rw [if_neg hid, if_neg hid, ih hr]

theorem ids_replaceFirst (p : Ping) (l : List Ping) : ids (replaceFirst p l) = ids l := by
  induction l with
  | nil => rfl
  | cons x r ih =>
    rw [replaceFirst]
    by_cases hid : x.id = p.id
    · rw [if_pos hid, ids, List.map_cons, ids, List.map_cons, hid]
    · rw [if_neg hid, ids, List.map_cons, ids, List.map_cons]
      exact congrArg _ ih

/-! ## The mirror -/

/-- **The store and the list agree.** -/
structure Mirror (m : Content) (l : List Ping) : Prop where
  distinct : (ids l).Nodup
  held : ∀ p ∈ l, stored? m (Record.key p.id) = some p.settled
  only : ∀ k, Record.isPingKey k = true → (m k).isSome → ∃ p ∈ l, Record.key p.id = k

namespace Mirror
variable {m : Content} {l : List Ping}

theorem fits (h : Mirror m l) {p : Ping} (hp : p ∈ l) : p.Fits :=
  Ping.fits_of_settled (addressable_of_stored (h.held p hp)).toFits

theorem push (h : Mirror m l) {p : Ping} (hp : p.Fits) (hnew : ∀ x ∈ l, x.id ≠ p.id) :
    Mirror ((storePut p).effect m) (l ++ [p]) := by
  constructor
  · rw [ids, List.map_append]
    refine List.Nodup.append h.distinct (List.nodup_singleton _) ?_
    intro id hid hid'
    obtain ⟨x, hx, rfl⟩ := List.mem_map.1 hid
    exact hnew x hx (List.mem_singleton.1 hid')
  · intro x hx
    rcases List.mem_append.1 hx with hx | hx
    · have hkey : Record.key x.id ≠ Record.key p.id := fun hk => hnew x hx (Record.key_injective hk)
      rw [stored_congr (effect_put_of_ne hkey)]
      exact h.held x hx
    · cases List.mem_singleton.1 hx
      exact stored_put_self hp m
  · intro k hk hsome
    by_cases hkey : k = Record.key p.id
    · exact ⟨p, List.mem_append_right _ (List.mem_singleton_self p), hkey.symm⟩
    · rw [effect_put_of_ne hkey] at hsome
      obtain ⟨x, hx, hxk⟩ := h.only k hk hsome
      exact ⟨x, List.mem_append_left _ hx, hxk⟩

theorem remove (h : Mirror m l) (id : Uuid) :
    Mirror ((storeDelete id).effect m) (l.eraseP (·.id = id)) := by
  rw [eraseP_eq_filter h.distinct]
  constructor
  · exact h.distinct.sublist (List.filter_sublist.map _)
  · intro x hx
    obtain ⟨hx, hid⟩ := List.mem_filter.1 hx
    have hkey : Record.key x.id ≠ Record.key id := fun hk =>
      of_decide_eq_true hid (Record.key_injective hk)
    rw [stored_congr (effect_delete_of_ne hkey)]
    exact h.held x hx
  · intro k hk hsome
    have hkey : k ≠ Record.key id := by
      rintro rfl
      rw [effect_delete_self] at hsome
      cases hsome
    rw [effect_delete_of_ne hkey] at hsome
    obtain ⟨x, hx, rfl⟩ := h.only k hk hsome
    have hid : x.id ≠ id := fun hid => hkey (congrArg _ hid)
    exact ⟨x, List.mem_filter.2 ⟨hx, decide_eq_true hid⟩, rfl⟩

theorem replace (h : Mirror m l) {p : Ping} (hp : p.Fits) (hx : ∃ x ∈ l, x.id = p.id) :
    Mirror ((storePut p).effect m) (replaceFirst p l) := by
  constructor
  · rw [ids_replaceFirst]
    exact h.distinct
  · rw [replaceFirst_eq_map h.distinct]
    intro y hy
    obtain ⟨x, hx, rfl⟩ := List.mem_map.1 hy
    by_cases hid : x.id = p.id
    · rw [if_pos hid]
      exact stored_put_self hp m
    · rw [if_neg hid, stored_congr (effect_put_of_ne fun hk => hid (Record.key_injective hk))]
      exact h.held x hx
  · intro k hk hsome
    have hmem : ∃ x ∈ l, Record.key x.id = k := by
      by_cases hkey : k = Record.key p.id
      · obtain ⟨x, hx, hid⟩ := hx
        exact ⟨x, hx, hid ▸ hkey.symm⟩
      · rw [effect_put_of_ne hkey] at hsome
        exact h.only k hk hsome
    obtain ⟨x, hx, rfl⟩ := hmem
    have hid : x.id ∈ ids (replaceFirst p l) := by
      rw [ids_replaceFirst]
      exact List.mem_map_of_mem hx
    obtain ⟨y, hy, hyx⟩ := List.mem_map.1 hid
    exact ⟨y, hy, congrArg _ hyx⟩

theorem exists_of_stored (h : Mirror m l) {k : String} {p : Ping} (hp : stored? m k = some p) :
    ∃ x ∈ l, x.settled = p := by
  obtain rfl := key_of_stored hp
  obtain ⟨b, hb, -⟩ := decode_of_stored hp
  obtain ⟨x, hx, hkey⟩ := h.only _ (Record.isPingKey_key p.id) (Option.isSome_iff_exists.2 ⟨b, hb⟩)
  have hheld := h.held x hx
  rw [hkey, hp] at hheld
  exact ⟨x, hx, (Option.some.inj hheld).symm⟩

theorem perm {l' : List Ping} (h : Mirror m l) (hl : l'.Perm l) : Mirror m l' where
  distinct := (hl.map _).nodup_iff.2 h.distinct
  held p hp := h.held p (hl.subset hp)
  only k hk hsome := by
    obtain ⟨p, hp, hkey⟩ := h.only k hk hsome
    exact ⟨p, hl.symm.subset hp, hkey⟩

/-- What the store mirrors are the pings as their records read. -/
theorem settled (h : Mirror m l) : Mirror m (l.map Ping.settled) := by
  refine ⟨?_, ?_, ?_⟩
  · rw [ids, List.map_map]
    exact h.distinct
  · intro p hp
    obtain ⟨x, hx, rfl⟩ := List.mem_map.1 hp
    rw [Ping.settled_settled]
    exact h.held x hx
  · intro k hk hsome
    obtain ⟨x, hx, hkey⟩ := h.only k hk hsome
    exact ⟨x.settled, List.mem_map_of_mem hx, hkey⟩

end Mirror

/-! ## Requests -/

theorem id_of_find {q : Queue} {id : Uuid} {p : Ping} (h : q.find? id = some p) :
    p ∈ q.pings ∧ p.id = id := by
  have hid := List.find?_some h
  exact ⟨List.mem_of_find?_eq_some h, of_decide_eq_true hid⟩

theorem ne_id_of_find {q : Queue} {id : Uuid} (h : q.find? id = none) :
    ∀ x ∈ q.pings, x.id ≠ id := fun x hx hid =>
  List.find?_eq_none.1 h x hx (decide_eq_true hid)

/-- Only of what is handed to the queue from outside it has to be known. -/
def Request.Fits (r : Request) : Prop := ∀ p, r = .enqueue p → p.Fits

theorem Mirror.change {q q' : Queue} {r : Request} {c : Call} {reply : Reply} {m : Content}
    (h : Mirror m q.pings) (hr : r.Fits) (hc : Change q r c q' reply) :
    Mirror (c.effect m) q'.pings := by
  cases hc with
  | @pushed p hnone =>
    exact h.push ((hr p rfl).numbered _) (ne_id_of_find hnone)
  | acked _ hsome => exact h.remove _
  | exhausted hsome _ => exact h.remove _
  | @retried id p hsome _ =>
    obtain ⟨hmem, -⟩ := id_of_find hsome
    exact h.replace (h.fits hmem).attempted ⟨p, hmem, rfl⟩

/-- **A request keeps the mirror**, whatever it comes to. -/
theorem Mirror.attended {q : Queue} {r : Request} {m m' : Content}
    {out : Option (Except QueueError Reply × Queue)} (h : Mirror m q.pings) (hr : r.Fits)
    (ha : Attended q r m out m') :
    ∃ l, Mirror m' l ∧ ∀ a q', out = some (a, q') → q'.pings = l := by
  cases ha with
  | died => exact ⟨_, h, nofun⟩
  | refused e => exact ⟨_, h, fun a q' he => by cases he; rfl⟩
  | peeked hlimit => exact ⟨_, h, fun a q' he => by cases he; rfl⟩
  | failed e => exact ⟨_, h, fun a q' he => by cases he; rfl⟩
  | written hc => exact ⟨_, h.change hr hc, fun a q' he => by cases he; rfl⟩
  | diedWritten hc => exact ⟨_, h.change hr hc, nofun⟩

/-- A request leaves the record of a ping with what lasts of it, unless it deletes the record: then it
acknowledges the ping for good or was its last attempt. -/
theorem Mirror.keeps {q q' : Queue} {r : Request} {c : Call} {reply : Reply} {m : Content}
    {x : Ping} (h : Mirror m q.pings) (hc : Change q r c q' reply)
    (hx : stored? m (Record.key x.id) = some x) :
    (∃ y, stored? (c.effect m) (Record.key x.id) = some y ∧ y.id = x.id ∧ y.content = x.content) ∨
      (c.effect m (Record.key x.id) = none ∧
        ((r = .ackSuccess x.id ∨ r = .ackUnrecoverable x.id) ∨ (r = .ackRecoverable x.id ∧
          ∃ z, q.find? x.id = some z ∧ q.config.maxAttempts ≤ z.attempted.attempts))) := by
  obtain ⟨w, hmem, hw⟩ := h.exists_of_stored hx
  have hwid : w.id = x.id := by rw [← hw, Ping.settled]
  have hsame {m' : Content} (hm' : m' (Record.key x.id) = m (Record.key x.id)) :
      ∃ y, stored? m' (Record.key x.id) = some y ∧ y.id = x.id ∧ y.content = x.content :=
    ⟨x, (stored_congr hm').trans hx, rfl, rfl⟩
  have hkey {id : Uuid} (hne : id ≠ x.id) : Record.key x.id ≠ Record.key id := fun hk =>
    hne (Record.key_injective hk).symm
  cases hc with
  | pushed hnone =>
    have hne := ne_id_of_find hnone w hmem
    rw [hwid] at hne
    exact .inl (hsame (effect_put_of_ne (hkey hne.symm)))
  | @acked r id p hr _ =>
    by_cases hid : id = x.id
    · subst hid
      exact .inr ⟨effect_delete_self m _, .inl hr⟩
    · exact .inl (hsame (effect_delete_of_ne (hkey hid)))
  | @exhausted id p hsome hmax =>
    by_cases hid : id = x.id
    · subst hid
      exact .inr ⟨effect_delete_self m _, .inr ⟨rfl, p, hsome, hmax⟩⟩
    · exact .inl (hsame (effect_delete_of_ne (hkey hid)))
  | @retried id p hsome hmax =>
    obtain ⟨hp, rfl⟩ := id_of_find hsome
    by_cases hid : p.id = x.id
    · obtain rfl := eq_of_id h.distinct hp hmem (hid.trans hwid.symm)
      subst hw
      exact .inl ⟨p.attempted.settled, stored_put_self (h.fits hp).attempted m, rfl, rfl⟩
    · exact .inl (hsame (effect_put_of_ne (hkey hid)))

end PingDelivery.Queue
