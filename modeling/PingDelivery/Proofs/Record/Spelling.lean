import Mathlib.Data.Nat.Digits.Defs
import PingDelivery.Proofs.Record.Delimited

/-! # The language of records

The reader takes more than the writer gives: numbers with more bytes than they need, times in any
spelling, and whatever follows. `Spelled` says which bytes spell which ping, without the reader, and the
reader takes exactly these: it gives a ping from the front of the bytes if and only if the front spells
it. The three ways in which it refuses are told apart in the same terms, and so are the bytes at which it
panics, those that are `Overlong`. What it gives can be written again, and is then read as the same.
-/

namespace PingDelivery.Record

/-! ## What bytes spell -/

namespace Spelled

/-- A number in one byte below 251, or behind a mark in the bytes that it announces, the lowest first.
Fewer of them might do. -/
inductive Number (widest : Nat) : Bytes → Nat → Prop where
  | small {x : UInt8} (h : x < 251) : Number widest [x] x.toNat
  | marked {mark : UInt8} {l : Bytes} (hmark : (mark, l.length) ∈ [(251, 2), (252, 4), (253, 8)])
      (hwidest : l.length ≤ widest) : Number widest (mark :: l) (Nat.ofDigits 256 (l.map UInt8.toNat))

/-- Bytes behind their number. -/
inductive Counted : Bytes → Bytes → Prop where
  | counted {c b : Bytes} (h : Number 8 c b.length) : Counted (c ++ b) b

/-- Bytes behind their number that memory has room for. -/
structure Block (c b : Bytes) : Prop where
  counted : Counted c b
  short : b.length ≤ longest

def Text (c : Bytes) (s : String) : Prop := Block c (Bytes.ofText s)

inductive Optional : Bytes → Option String → Prop where
  | absent : Optional [0] none
  | present {c : Bytes} {s : String} (h : Text c s) : Optional (1 :: c) (some s)

inductive Meta : Bytes → Metadata → Prop where
  | fields {c₁ c₂ c₃ c₄ c₅ : Bytes} {m : Metadata} (serverEndpoint : Text c₁ m.serverEndpoint)
      (path : Text c₂ m.path) (userAgent : Text c₃ m.userAgent) (channel : Optional c₄ m.channel)
      (tag : Optional c₅ m.tag) : Meta (c₁ ++ (c₂ ++ (c₃ ++ (c₄ ++ c₅)))) m

/-- The record of a ping under a version. The time is any text that reads as it. -/
inductive Whole (v : UInt8) : Bytes → Ping → Prop where
  | fields {c₁ c₂ c₃ c₄ c₅ c₆ c₇ : Bytes} {p : Ping} {time : String} (id : Block c₁ p.id.octets)
      (documentType : Text c₂ p.documentType) (payload : Counted c₃ p.payload) (createdAt : Text c₄ time)
      (htime : Time.Rfc3339.read? time = some p.createdAt) (attempts : Number 4 c₅ p.attempts.toNat)
      (sequence : Number 8 c₆ p.sequence.toNat) (metadata : Meta c₇ p.metadata) :
      Whole v (v :: (c₁ ++ (c₂ ++ (c₃ ++ (c₄ ++ (c₅ ++ (c₆ ++ c₇))))))) p

/-- What stands in front of the length of one of the texts of the metadata. -/
inductive Meta.Lead : Bytes → Prop where
  | serverEndpoint : Lead []
  | path {c₁ : Bytes} {e : String} (serverEndpoint : Text c₁ e) : Lead c₁
  | userAgent {c₁ c₂ : Bytes} {e p : String} (serverEndpoint : Text c₁ e) (path : Text c₂ p) :
      Lead (c₁ ++ c₂)
  | channel {c₁ c₂ c₃ : Bytes} {e p u : String} (serverEndpoint : Text c₁ e) (path : Text c₂ p)
      (userAgent : Text c₃ u) : Lead (c₁ ++ (c₂ ++ (c₃ ++ [1])))
  | tag {c₁ c₂ c₃ c₄ : Bytes} {e p u : String} {o : Option String} (serverEndpoint : Text c₁ e)
      (path : Text c₂ p) (userAgent : Text c₃ u) (channel : Optional c₄ o) :
      Lead (c₁ ++ (c₂ ++ (c₃ ++ (c₄ ++ [1]))))

/-- What stands in a record in front of the length of its id or of one of its texts. -/
inductive Lead : Bytes → Prop where
  | id (v : UInt8) : Lead [v]
  | documentType (v : UInt8) {c₁ : Bytes} {i : Uuid} (id : Block c₁ i.octets) : Lead (v :: c₁)
  | createdAt (v : UInt8) {c₁ c₂ c₃ b : Bytes} {i : Uuid} {d : String} (id : Block c₁ i.octets)
      (documentType : Text c₂ d) (payload : Counted c₃ b) : Lead (v :: (c₁ ++ (c₂ ++ c₃)))
  | metadata (v : UInt8) {c₁ c₂ c₃ c₄ c₅ c₆ l b : Bytes} {i : Uuid} {d time : String} {t : Time.Instant}
      {n k : Nat} (id : Block c₁ i.octets) (documentType : Text c₂ d) (payload : Counted c₃ b)
      (createdAt : Text c₄ time) (htime : Time.Rfc3339.read? time = some t) (attempts : Number 4 c₅ n)
      (sequence : Number 8 c₆ k) (metadata : Meta.Lead l) :
      Lead (v :: (c₁ ++ (c₂ ++ (c₃ ++ (c₄ ++ (c₅ ++ (c₆ ++ l)))))))

/-- A number that announces more bytes than any block of memory has. -/
def Excessive (b : Bytes) : Prop := ∃ c n, c <+: b ∧ Number 8 c n ∧ longest < n

/-- Where the length of an id or of a text should stand, far too much is announced. -/
def Overlong (b : Bytes) : Prop := ∃ l s, b = l ++ s ∧ Lead l ∧ Excessive s

end Spelled

/-! ## The reader reads what is spelled -/

namespace Scan
open Spelled

variable {b r : Bytes}

theorem valueOf_eq (l : Bytes) : valueOf l = Nat.ofDigits 256 (l.map UInt8.toNat) := by
  induction l with
  | nil => rfl
  | cons x l ih =>
    rw [List.map_cons, Nat.ofDigits_cons, ← ih]
    rfl

theorem take_iff {n : Nat} {x : Bytes} : take n b = .ok (x, r) ↔ b = x ++ r ∧ x.length = n := by
  constructor
  · intro h
    have hlength := length_of_take h
    unfold take at h
    split at h
    · cases h
      exact ⟨(List.take_append_drop n b).symm, hlength⟩
    · cases h
  · rintro ⟨rfl, rfl⟩
    exact take_append x r

theorem wide_iff {width n : Nat} : wide width b = .ok (n, r) ↔
    ∃ l, b = l ++ r ∧ l.length = width ∧ n = Nat.ofDigits 256 (l.map UInt8.toNat) := by
  constructor
  · intro h
    obtain ⟨l, r', hl, hn⟩ := eq_of_bind h
    cases hn
    obtain ⟨rfl, hlength⟩ := take_iff.1 hl
    exact ⟨l, rfl, hlength, valueOf_eq l⟩
  · rintro ⟨l, rfl, rfl, rfl⟩
    rw [wide, bind_of_eq (take_append l r), valueOf_eq]
    rfl

/-- What stands behind the first byte of a number. -/
theorem varint_cons {widest : Nat} (x : UInt8) (s : Bytes) : varint widest (x :: s) =
    if x < 251 then .ok (x.toNat, s)
    else if x = 251 ∧ 2 ≤ widest then wide 2 s
    else if x = 252 ∧ 4 ≤ widest then wide 4 s
    else if x = 253 ∧ 8 ≤ widest then wide 8 s
    else .error () := by
  rw [varint, bind_of_eq (byte_cons x s)]
  simp only [apply_ite (fun y : Scan Nat => y s)]
  rfl

theorem varint_iff {widest n : Nat} : varint widest b = .ok (n, r) ↔
    ∃ c, b = c ++ r ∧ Number widest c n := by
  constructor
  · intro h
    have hmarked {mark : UInt8} {width : Nat} {s : Bytes}
        (hmark : (mark, width) ∈ [(251, 2), (252, 4), (253, 8)]) (hwidest : width ≤ widest)
        (hs : wide width s = .ok (n, r)) : ∃ c, mark :: s = c ++ r ∧ Number widest c n := by
      obtain ⟨l, rfl, rfl, rfl⟩ := wide_iff.1 hs
      exact ⟨mark :: l, rfl, .marked hmark hwidest⟩
    cases b with
    | nil => cases h
    | cons x s =>
      rw [varint_cons] at h
      split at h
      · rename_i hx
        cases h
        exact ⟨[x], rfl, .small hx⟩
      · split at h
        · rename_i hx
          exact hx.1 ▸ hmarked (by simp) hx.2 h
        · split at h
          · rename_i hx
            exact hx.1 ▸ hmarked (by simp) hx.2 h
          · split at h
            · rename_i hx
              exact hx.1 ▸ hmarked (by simp) hx.2 h
            · cases h
  · rintro ⟨c, rfl, hc⟩
    cases hc with
    | small hx => exact (varint_cons _ _).trans (if_pos hx)
    | @marked mark l hmark hwidest =>
      -- each mark has its own branch, which the length of the bytes lets through
      have hwide : wide l.length (l ++ r) = .ok (Nat.ofDigits 256 (l.map UInt8.toNat), r) :=
        wide_iff.2 ⟨l, rfl, rfl, rfl⟩
      rw [List.cons_append, varint_cons]
      simp only [List.mem_cons, Prod.mk.injEq, List.not_mem_nil, or_false] at hmark
      rcases hmark with ⟨rfl, hl⟩ | ⟨rfl, hl⟩ | ⟨rfl, hl⟩
      · rw [hl] at hwide hwidest
        simp [hwidest, hwide]
      · rw [hl] at hwide hwidest
        simp [hwidest, hwide]
      · rw [hl] at hwide hwidest
        simp [hwidest, hwide]

theorem bytes_iff {x : Bytes} : bytes b = .ok (x, r) ↔ ∃ c, b = c ++ r ∧ Counted c x := by
  constructor
  · intro h
    obtain ⟨n, s, hn, hx⟩ := eq_of_bind h
    obtain ⟨c, rfl, hc⟩ := varint_iff.1 hn
    obtain ⟨rfl, rfl⟩ := take_iff.1 hx
    exact ⟨c ++ x, (List.append_assoc _ _ _).symm, .counted hc⟩
  · rintro ⟨_, rfl, @⟨c, _, hc⟩⟩
    rw [List.append_assoc, bytes, bind_of_eq (varint_iff.2 ⟨c, rfl, hc⟩)]
    exact take_append x r

/-- A block is read as bytes are, if there is room. -/
theorem block_eq_bytes {x : Bytes} :
    block b = .ok (x, r) ↔ bytes b = .ok (x, r) ∧ x.length ≤ longest := by
  constructor
  · intro h
    have hshort := length_of_block h
    obtain ⟨n, s, hn, hx⟩ := eq_of_bind h
    split at hx
    · exact ⟨(bind_of_eq hn).trans hx, hshort⟩
    · cases hx
  · rintro ⟨h, hshort⟩
    obtain ⟨n, s, hn, hx⟩ := eq_of_bind h
    rw [block, bind_of_eq hn, if_pos (length_of_take hx ▸ hshort)]
    exact hx

theorem block_iff {x : Bytes} : block b = .ok (x, r) ↔ ∃ c, b = c ++ r ∧ Block c x := by
  rw [block_eq_bytes, bytes_iff]
  constructor
  · rintro ⟨⟨c, rfl, hc⟩, hshort⟩
    exact ⟨c, rfl, hc, hshort⟩
  · rintro ⟨c, rfl, hc⟩
    exact ⟨⟨c, rfl, hc.counted⟩, hc.short⟩

theorem lift_iff {α : Type} {o : Option α} {a : α} : lift o b = .ok (a, r) ↔ o = some a ∧ b = r := by
  cases o with
  | none => simp [lift]
  | some a' => simp [lift]

theorem text?_eq_some_iff {x : Bytes} {s : String} : Bytes.text? x = some s ↔ x = Bytes.ofText s := by
  constructor
  · intro h
    exact (Bytes.ofText_of_text? h).symm
  · rintro rfl
    exact Bytes.text?_ofText s

theorem text_iff {s : String} : text b = .ok (s, r) ↔ ∃ c, b = c ++ r ∧ Text c s := by
  constructor
  · intro h
    obtain ⟨x, r', hx, hs⟩ := eq_of_bind h
    obtain ⟨hread, rfl⟩ := lift_iff.1 hs
    rw [text?_eq_some_iff.1 hread] at hx
    exact block_iff.1 hx
  · intro h
    rw [text, bind_of_eq (block_iff.2 h)]
    exact lift_iff.2 ⟨Bytes.text?_ofText s, rfl⟩

theorem option_iff {o : Option String} : option b = .ok (o, r) ↔ ∃ c, b = c ++ r ∧ Optional c o := by
  constructor
  · intro h
    cases b with
    | nil => cases h
    | cons x b =>
      rw [option, bind_of_eq (byte_cons x b)] at h
      split at h
      · rename_i hx
        cases h
        exact ⟨[0], by rw [hx]; rfl, .absent⟩
      · split at h
        · rename_i hx
          obtain ⟨s, r', hs, hp⟩ := eq_of_bind h
          cases hp
          obtain ⟨c, rfl, hc⟩ := text_iff.1 hs
          exact ⟨1 :: c, by rw [hx]; rfl, .present hc⟩
        · cases h
  · rintro ⟨_, rfl, hc⟩
    cases hc with
    | absent => rfl
    | @present c s hc =>
      rw [List.cons_append, option, bind_of_eq (byte_cons _ _), if_neg (by decide), if_pos rfl,
        bind_of_eq (text_iff.2 ⟨c, rfl, hc⟩)]
      rfl

theorem metadata_iff {m : Metadata} : metadata b = .ok (m, r) ↔ ∃ c, b = c ++ r ∧ Meta c m := by
  constructor
  · intro h
    obtain ⟨e, _, he, h⟩ := eq_of_bind h
    obtain ⟨p, _, hp, h⟩ := eq_of_bind h
    obtain ⟨u, _, hu, h⟩ := eq_of_bind h
    obtain ⟨c, _, hc, h⟩ := eq_of_bind h
    obtain ⟨t, _, ht, h⟩ := eq_of_bind h
    cases h
    obtain ⟨c₁, rfl, h₁⟩ := text_iff.1 he
    obtain ⟨c₂, rfl, h₂⟩ := text_iff.1 hp
    obtain ⟨c₃, rfl, h₃⟩ := text_iff.1 hu
    obtain ⟨c₄, rfl, h₄⟩ := option_iff.1 hc
    obtain ⟨c₅, rfl, h₅⟩ := option_iff.1 ht
    exact ⟨_, by simp only [List.append_assoc], .fields h₁ h₂ h₃ h₄ h₅⟩
  · rintro ⟨_, rfl, @⟨c₁, c₂, c₃, c₄, c₅, m, h₁, h₂, h₃, h₄, h₅⟩⟩
    simp only [List.append_assoc]
    rw [metadata, bind_of_eq (text_iff.2 ⟨c₁, rfl, h₁⟩), bind_of_eq (text_iff.2 ⟨c₂, rfl, h₂⟩),
      bind_of_eq (text_iff.2 ⟨c₃, rfl, h₃⟩), bind_of_eq (option_iff.2 ⟨c₄, rfl, h₄⟩),
      bind_of_eq (option_iff.2 ⟨c₅, rfl, h₅⟩)]
    rfl

theorem number_lt {widest n : Nat} {c : Bytes} (h : Number widest c n) (hone : 1 ≤ widest) :
    n < 256 ^ widest := by
  cases h with
  | @small x hx =>
    exact x.toNat_lt.trans_le (Nat.pow_le_pow_right (n := 256) (by decide) hone)
  | @marked mark l hmark hwidest =>
    rw [← valueOf_eq]
    exact (valueOf_lt l).trans_le (Nat.pow_le_pow_right (by decide) hwidest)

theorem record_iff {v : UInt8} {p : Ping} :
    record b = .ok ((v, p), r) ↔ ∃ c, b = c ++ r ∧ Whole v c p := by
  constructor
  · intro h
    cases b with
    | nil => cases h
    | cons x b =>
      rw [record, bind_of_eq (byte_cons x b)] at h
      obtain ⟨octets, _, ho, h⟩ := eq_of_bind h
      obtain ⟨id, _, hid, h⟩ := eq_of_bind h
      obtain ⟨documentType, _, hd, h⟩ := eq_of_bind h
      obtain ⟨payload, _, hp, h⟩ := eq_of_bind h
      obtain ⟨time, _, ht, h⟩ := eq_of_bind h
      obtain ⟨createdAt, _, hc, h⟩ := eq_of_bind h
      obtain ⟨attempts, _, ha, h⟩ := eq_of_bind h
      obtain ⟨sequence, _, hs, h⟩ := eq_of_bind h
      obtain ⟨metadata, _, hm, h⟩ := eq_of_bind h
      cases h
      obtain ⟨hoctets, rfl⟩ := lift_iff.1 hid
      obtain ⟨htime, rfl⟩ := lift_iff.1 hc
      obtain ⟨c₁, rfl, h₁⟩ := block_iff.1 ho
      obtain ⟨c₂, rfl, h₂⟩ := text_iff.1 hd
      obtain ⟨c₃, rfl, h₃⟩ := bytes_iff.1 hp
      obtain ⟨c₄, rfl, h₄⟩ := text_iff.1 ht
      obtain ⟨c₅, rfl, h₅⟩ := varint_iff.1 ha
      obtain ⟨c₆, rfl, h₆⟩ := varint_iff.1 hs
      obtain ⟨c₇, rfl, h₇⟩ := metadata_iff.1 hm
      rw [Uuid.eq_octets_of_ofOctets? hoctets] at h₁
      -- no number that was read is cut by the word it goes into
      have hattempts : (UInt32.ofNat attempts).toNat = attempts :=
        UInt32.toNat_ofNat_of_lt' (number_lt h₅ (by decide))
      have hsequence : (UInt64.ofNat sequence).toNat = sequence :=
        UInt64.toNat_ofNat_of_lt' (number_lt h₆ (by decide))
      exact ⟨_, by simp only [List.cons_append, List.append_assoc],
        .fields h₁ h₂ h₃ h₄ htime (hattempts.symm ▸ h₅) (hsequence.symm ▸ h₆) h₇⟩
  · rintro ⟨_, rfl, @⟨c₁, c₂, c₃, c₄, c₅, c₆, c₇, p, time, h₁, h₂, h₃, h₄, ht, h₅, h₆, h₇⟩⟩
    simp only [List.cons_append, List.append_assoc]
    rw [record, bind_of_eq (byte_cons _ _), bind_of_eq (block_iff.2 ⟨c₁, rfl, h₁⟩),
      bind_of_eq (lift_iff.2 ⟨p.id.ofOctets?_octets, rfl⟩), bind_of_eq (text_iff.2 ⟨c₂, rfl, h₂⟩),
      bind_of_eq (bytes_iff.2 ⟨c₃, rfl, h₃⟩), bind_of_eq (text_iff.2 ⟨c₄, rfl, h₄⟩),
      bind_of_eq (lift_iff.2 ⟨ht, rfl⟩), bind_of_eq (varint_iff.2 ⟨c₅, rfl, h₅⟩),
      bind_of_eq (varint_iff.2 ⟨c₆, rfl, h₆⟩), bind_of_eq (metadata_iff.2 ⟨c₇, rfl, h₇⟩)]
    simp only [UInt32.ofNat_toNat, UInt64.ofNat_toNat]
    rfl

/-! ### Where the reader panics -/

theorem take_ne_panic (n : Nat) : take n b ≠ .panic := by
  unfold take
  split <;> nofun

theorem lift_ne_panic {α : Type} (o : Option α) : lift o b ≠ .panic := by
  cases o <;> nofun

theorem wide_ne_panic (width : Nat) : wide width b ≠ .panic := by
  intro h
  replace h := bind_eq_panic_iff.1 h
  rcases h with h | ⟨_, _, -, h⟩
  · exact take_ne_panic _ h
  · cases h

theorem varint_ne_panic (widest : Nat) : varint widest b ≠ .panic := by
  cases b with
  | nil => nofun
  | cons x s =>
    rw [varint_cons]
    split
    · nofun
    · split
      · exact wide_ne_panic 2
      · split
        · exact wide_ne_panic 4
        · split
          · exact wide_ne_panic 8
          · nofun

theorem bytes_ne_panic : bytes b ≠ .panic := by
  intro h
  replace h := bind_eq_panic_iff.1 h
  rcases h with h | ⟨_, _, -, h⟩
  · exact varint_ne_panic 8 h
  · exact take_ne_panic _ h

theorem block_panic_iff : block b = .panic ↔ Excessive b := by
  constructor
  · intro h
    replace h := bind_eq_panic_iff.1 h
    rcases h with h | ⟨n, s, hn, h⟩
    · exact absurd h (varint_ne_panic 8)
    · obtain ⟨c, rfl, hc⟩ := varint_iff.1 hn
      split at h
      · exact absurd h (take_ne_panic n)
      · rename_i hlong
        exact ⟨c, n, List.prefix_append c s, hc, Nat.lt_of_not_le hlong⟩
  · rintro ⟨c, n, ⟨s, rfl⟩, hc, hlong⟩
    rw [block, bind_of_eq (varint_iff.2 ⟨c, rfl, hc⟩), if_neg (Nat.not_le_of_lt hlong)]
    rfl

theorem text_panic_iff : text b = .panic ↔ Excessive b := by
  rw [← block_panic_iff]
  refine bind_eq_panic_iff.trans ⟨?_, .inl⟩
  rintro (h | ⟨x, r, -, h⟩)
  · exact h
  · exact absurd h (lift_ne_panic _)

theorem option_panic_iff : option b = .panic ↔ ∃ s, b = 1 :: s ∧ Excessive s := by
  cases b with
  | nil => exact ⟨nofun, nofun⟩
  | cons x s =>
    rw [option, bind_of_eq (byte_cons x s)]
    by_cases hone : x = 1
    · subst hone
      rw [if_neg (by decide), if_pos rfl, bind_eq_panic_iff, text_panic_iff]
      constructor
      · rintro (h | ⟨_, _, -, h⟩)
        · exact ⟨s, rfl, h⟩
        · cases h
      · rintro ⟨_, ⟨⟩, h⟩
        exact .inl h
    · rw [if_neg hone]
      constructor
      · intro h
        split at h <;> cases h
      · rintro ⟨_, ⟨⟩, -⟩
        exact absurd rfl hone

theorem lead_of_metadata_panic (h : metadata b = .panic) :
    ∃ l s, b = l ++ s ∧ Meta.Lead l ∧ Excessive s := by
  replace h := bind_eq_panic_iff.1 h
  rcases h with h | ⟨e, b₁, he, h⟩
  · exact ⟨[], b, rfl, .serverEndpoint, text_panic_iff.1 h⟩
  obtain ⟨c₁, rfl, h₁⟩ := text_iff.1 he
  replace h := bind_eq_panic_iff.1 h
  rcases h with h | ⟨p, b₂, hp, h⟩
  · exact ⟨c₁, b₁, rfl, .path h₁, text_panic_iff.1 h⟩
  obtain ⟨c₂, rfl, h₂⟩ := text_iff.1 hp
  replace h := bind_eq_panic_iff.1 h
  rcases h with h | ⟨u, b₃, hu, h⟩
  · exact ⟨c₁ ++ c₂, b₂, by simp only [List.append_assoc], .userAgent h₁ h₂, text_panic_iff.1 h⟩
  obtain ⟨c₃, rfl, h₃⟩ := text_iff.1 hu
  replace h := bind_eq_panic_iff.1 h
  rcases h with h | ⟨c, b₄, hc, h⟩
  · obtain ⟨s, rfl, hs⟩ := option_panic_iff.1 h
    exact ⟨_, s, by simp only [List.append_assoc, List.singleton_append], .channel h₁ h₂ h₃, hs⟩
  obtain ⟨c₄, rfl, h₄⟩ := option_iff.1 hc
  replace h := bind_eq_panic_iff.1 h
  rcases h with h | ⟨_, _, -, h⟩
  · obtain ⟨s, rfl, hs⟩ := option_panic_iff.1 h
    exact ⟨_, s, by simp only [List.append_assoc, List.singleton_append], .tag h₁ h₂ h₃ h₄, hs⟩
  · cases h

theorem metadata_panic_of_lead {l s : Bytes} (hl : Meta.Lead l) (hs : Excessive s) :
    metadata (l ++ s) = .panic := by
  cases hl with
  | serverEndpoint => exact bind_eq_panic_iff.2 (.inl (text_panic_iff.2 hs))
  | path h₁ =>
    rw [metadata, bind_of_eq (text_iff.2 ⟨_, rfl, h₁⟩)]
    exact bind_eq_panic_iff.2 (.inl (text_panic_iff.2 hs))
  | userAgent h₁ h₂ =>
    rw [List.append_assoc, metadata, bind_of_eq (text_iff.2 ⟨_, rfl, h₁⟩),
      bind_of_eq (text_iff.2 ⟨_, rfl, h₂⟩)]
    exact bind_eq_panic_iff.2 (.inl (text_panic_iff.2 hs))
  | channel h₁ h₂ h₃ =>
    simp only [List.append_assoc, List.singleton_append]
    rw [metadata, bind_of_eq (text_iff.2 ⟨_, rfl, h₁⟩), bind_of_eq (text_iff.2 ⟨_, rfl, h₂⟩),
      bind_of_eq (text_iff.2 ⟨_, rfl, h₃⟩)]
    exact bind_eq_panic_iff.2 (.inl (option_panic_iff.2 ⟨s, rfl, hs⟩))
  | tag h₁ h₂ h₃ h₄ =>
    simp only [List.append_assoc, List.singleton_append]
    rw [metadata, bind_of_eq (text_iff.2 ⟨_, rfl, h₁⟩), bind_of_eq (text_iff.2 ⟨_, rfl, h₂⟩),
      bind_of_eq (text_iff.2 ⟨_, rfl, h₃⟩), bind_of_eq (option_iff.2 ⟨_, rfl, h₄⟩)]
    exact bind_eq_panic_iff.2 (.inl (option_panic_iff.2 ⟨s, rfl, hs⟩))

theorem overlong_of_record_panic (h : record b = .panic) : Overlong b := by
  cases b with
  | nil => cases h
  | cons v b =>
    rw [record, bind_of_eq (byte_cons v b)] at h
    replace h := bind_eq_panic_iff.1 h
    rcases h with h | ⟨octets, b₁, ho, h⟩
    · exact ⟨[v], b, rfl, .id v, block_panic_iff.1 h⟩
    obtain ⟨c₁, rfl, h₁⟩ := block_iff.1 ho
    replace h := bind_eq_panic_iff.1 h
    rcases h with h | ⟨id, _, hid, h⟩
    · exact absurd h (lift_ne_panic _)
    obtain ⟨hoctets, rfl⟩ := lift_iff.1 hid
    rw [Uuid.eq_octets_of_ofOctets? hoctets] at h₁
    replace h := bind_eq_panic_iff.1 h
    rcases h with h | ⟨d, b₂, hd, h⟩
    · exact ⟨v :: c₁, b₁, rfl, .documentType v h₁, text_panic_iff.1 h⟩
    obtain ⟨c₂, rfl, h₂⟩ := text_iff.1 hd
    replace h := bind_eq_panic_iff.1 h
    rcases h with h | ⟨payload, b₃, hp, h⟩
    · exact absurd h bytes_ne_panic
    obtain ⟨c₃, rfl, h₃⟩ := bytes_iff.1 hp
    replace h := bind_eq_panic_iff.1 h
    rcases h with h | ⟨time, b₄, ht, h⟩
    · exact ⟨v :: (c₁ ++ (c₂ ++ c₃)), b₃, by simp only [List.cons_append, List.append_assoc],
        .createdAt v h₁ h₂ h₃, text_panic_iff.1 h⟩
    obtain ⟨c₄, rfl, h₄⟩ := text_iff.1 ht
    replace h := bind_eq_panic_iff.1 h
    rcases h with h | ⟨createdAt, _, hc, h⟩
    · exact absurd h (lift_ne_panic _)
    obtain ⟨htime, rfl⟩ := lift_iff.1 hc
    replace h := bind_eq_panic_iff.1 h
    rcases h with h | ⟨attempts, b₅, ha, h⟩
    · exact absurd h (varint_ne_panic 4)
    obtain ⟨c₅, rfl, h₅⟩ := varint_iff.1 ha
    replace h := bind_eq_panic_iff.1 h
    rcases h with h | ⟨sequence, b₆, hs, h⟩
    · exact absurd h (varint_ne_panic 8)
    obtain ⟨c₆, rfl, h₆⟩ := varint_iff.1 hs
    replace h := bind_eq_panic_iff.1 h
    rcases h with h | ⟨_, _, -, h⟩
    · obtain ⟨l, s, rfl, hl, hs⟩ := lead_of_metadata_panic h
      exact ⟨_, s, by simp only [List.cons_append, List.append_assoc],
        .metadata v h₁ h₂ h₃ h₄ htime h₅ h₆ hl, hs⟩
    · cases h

theorem record_panic_of_overlong (h : Overlong b) : record b = .panic := by
  obtain ⟨l, s, rfl, hl, hs⟩ := h
  cases hl with
  | id v =>
    rw [List.singleton_append, record, bind_of_eq (byte_cons _ _)]
    exact bind_eq_panic_iff.2 (.inl (block_panic_iff.2 hs))
  | @documentType v c₁ i h₁ =>
    rw [List.cons_append, record, bind_of_eq (byte_cons _ _), bind_of_eq (block_iff.2 ⟨c₁, rfl, h₁⟩),
      bind_of_eq (lift_iff.2 ⟨i.ofOctets?_octets, rfl⟩)]
    exact bind_eq_panic_iff.2 (.inl (text_panic_iff.2 hs))
  | @createdAt v c₁ c₂ c₃ x i d h₁ h₂ h₃ =>
    simp only [List.cons_append, List.append_assoc]
    rw [record, bind_of_eq (byte_cons _ _), bind_of_eq (block_iff.2 ⟨c₁, rfl, h₁⟩),
      bind_of_eq (lift_iff.2 ⟨i.ofOctets?_octets, rfl⟩), bind_of_eq (text_iff.2 ⟨c₂, rfl, h₂⟩),
      bind_of_eq (bytes_iff.2 ⟨c₃, rfl, h₃⟩)]
    exact bind_eq_panic_iff.2 (.inl (text_panic_iff.2 hs))
  | @metadata v c₁ c₂ c₃ c₄ c₅ c₆ l x i d time t n k h₁ h₂ h₃ h₄ ht h₅ h₆ hl =>
    simp only [List.cons_append, List.append_assoc]
    rw [record, bind_of_eq (byte_cons _ _), bind_of_eq (block_iff.2 ⟨c₁, rfl, h₁⟩),
      bind_of_eq (lift_iff.2 ⟨i.ofOctets?_octets, rfl⟩), bind_of_eq (text_iff.2 ⟨c₂, rfl, h₂⟩),
      bind_of_eq (bytes_iff.2 ⟨c₃, rfl, h₃⟩), bind_of_eq (text_iff.2 ⟨c₄, rfl, h₄⟩),
      bind_of_eq (lift_iff.2 ⟨ht, rfl⟩), bind_of_eq (varint_iff.2 ⟨c₅, rfl, h₅⟩),
      bind_of_eq (varint_iff.2 ⟨c₆, rfl, h₆⟩)]
    exact bind_eq_panic_iff.2 (.inl (metadata_panic_of_lead hl hs))

/-- **The reader panics exactly at what is overlong.** -/
theorem record_panic_iff : record b = .panic ↔ Overlong b :=
  ⟨overlong_of_record_panic, record_panic_of_overlong⟩

end Scan

/-! ## What is given and what is refused -/

section
variable {k : String} {b : Bytes} {p : Ping}

theorem reads_iff {v : UInt8} : (∃ r, Scan.record b = .ok ((v, p), r)) ↔
    ∃ c, c <+: b ∧ Spelled.Whole v c p := by
  constructor
  · rintro ⟨r, h⟩
    obtain ⟨c, rfl, hc⟩ := Scan.record_iff.1 h
    exact ⟨c, List.prefix_append c r, hc⟩
  · rintro ⟨c, ⟨r, rfl⟩, hc⟩
    exact ⟨r, Scan.record_iff.2 ⟨c, rfl, hc⟩⟩

/-- **The reader gives what is spelled**, under the ping's own key. -/
theorem decode_eq_ok_iff : decode k b = .ok p ↔
    (∃ c, c <+: b ∧ Spelled.Whole version c p) ∧ k = key p.id := by
  rw [← reads_iff]
  constructor
  · intro h
    obtain ⟨hread, hk⟩ := record_of_decode h
    exact ⟨hread, hk.symm⟩
  · rintro ⟨⟨r, hr⟩, rfl⟩
    simp only [decode, hr, ne_eq, not_true_eq_false, if_false]

/-- The key makes no difference to a panic, nor does the version. -/
theorem decode_eq_panic_iff : decode k b = .panic ↔ Spelled.Overlong b := by
  rw [← Scan.record_panic_iff, decode]
  cases Scan.record b with
  | error e => simp
  | panic => simp
  | ok x =>
    simp only [reduceCtorEq, iff_false]
    split
    · simp
    · split <;> simp

/-- Why nothing is given: the front spells nothing, and nothing in it is overlong, or it spells a ping
under another version, or a ping with another key. -/
inductive Refused (k : String) (b : Bytes) : Error → Prop where
  | malformed (h : ∀ c v p, c <+: b → ¬ Spelled.Whole v c p) (hshort : ¬ Spelled.Overlong b) :
      Refused k b .malformed
  | unsupportedVersion {c : Bytes} {v : UInt8} {p : Ping} (hc : c <+: b) (h : Spelled.Whole v c p)
      (hv : v ≠ version) : Refused k b (.unsupportedVersion v)
  | keyMismatch {c : Bytes} {p : Ping} (hc : c <+: b) (h : Spelled.Whole version c p)
      (hk : k ≠ key p.id) : Refused k b (.keyMismatch k p.id)

theorem refused_of_decode {e : Error} (h : decode k b = .error e) : Refused k b e := by
  have hshort : ¬ Spelled.Overlong b := by
    rw [← decode_eq_panic_iff (k := k), h]
    nofun
  unfold decode at h
  split at h
  · rename_i herror
    cases h
    refine .malformed (fun c v p hc hspelled => ?_) hshort
    obtain ⟨r, hr⟩ := reads_iff.2 ⟨c, hc, hspelled⟩
    rw [herror] at hr
    cases hr
  · cases h
  · rename_i v p r hr
    obtain ⟨c, hc, hspelled⟩ := reads_iff.1 ⟨r, hr⟩
    split at h
    · rename_i hv
      cases h
      exact .unsupportedVersion hc hspelled hv
    · rename_i hv
      rw [not_not] at hv
      subst hv
      split at h
      · rename_i hk
        cases h
        exact .keyMismatch hc hspelled (Ne.symm hk)
      · cases h

/-- What reads as a whole is malformed if it is cut short. -/
theorem malformed_of_prefix {c t : Bytes} {v : UInt8} (h : Spelled.Whole v c p) (ht : t <+: c)
    (hne : t ≠ c) (k : String) : decode k t = .error .malformed := by
  have hwhole : Scan.record c = .ok ((v, p), []) :=
    Scan.record_iff.2 ⟨c, (List.append_nil c).symm, h⟩
  rw [decode, Scan.Delimited.record.error_of_prefix hwhole ht hne]

end

/-- What a ping that is given goes by. -/
structure Sound (k : String) (b : Bytes) (p : Ping) : Prop where
  canonical : Uuid.Canonical k
  own : k = p.id.text
  version : b.head? = some 1
  /-- The result rests on the bytes that spell the ping, on all of them and on no others. -/
  consumed : ∃ c, c <+: b ∧ Spelled.Whole 1 c p ∧ (∀ b', c <+: b' → decode k b' = .ok p) ∧
    ∀ t, t <+: c → t ≠ c → decode k t = .error .malformed
  stable : ∀ s, decode k (encode p ++ s) = .ok p

theorem sound_of_decode {k : String} {b : Bytes} {p : Ping} (h : decode k b = .ok p) : Sound k b p := by
  obtain ⟨⟨c, hc, hspelled⟩, hk⟩ := decode_eq_ok_iff.1 h
  refine ⟨hk ▸ p.id.canonical_text, hk, ?_, ?_, ?_⟩
  · obtain ⟨r, rfl⟩ := hc
    cases hspelled
    rfl
  · refine ⟨c, hc, hspelled, fun b' hb' => ?_, fun t ht hne => malformed_of_prefix hspelled ht hne k⟩
    exact decode_eq_ok_iff.2 ⟨⟨c, hb', hspelled⟩, hk⟩
  · exact hk ▸ decode_encode (addressable_of_decode h)

/-- Every number takes more bytes than it needs, and the time has an offset and a tenth decimal. -/
def lavish : Bytes :=
  1 :: (253 :: [16, 0, 0, 0, 0, 0, 0, 0] ++ (Uuid.drawn 0).octets) ++ (251 :: [1, 0] ++ [109]) ++
    (252 :: [1, 0, 0, 0] ++ [7]) ++ (36 :: Bytes.ofText "2024-01-01 01:00:00.1234567899+01:00") ++
    (252 :: [3, 0, 0, 0]) ++ (253 :: [2, 0, 0, 0, 0, 0, 0, 0]) ++ ([0, 0] ++ (251 :: [0, 0]) ++ [0] ++
      (1 :: 251 :: [1, 0] ++ [120]))

def modest : Ping :=
  ⟨.drawn 0, "m", [7], ⟨1704067200, 123456789, by decide⟩, 3, 2, ⟨"", "", "", none, some "x"⟩⟩

/-- The version, and an id that is said to have 2^64 - 1 bytes. -/
def boundless : Bytes := 1 :: 253 :: List.replicate 8 255

theorem boundless_panics (k : String) : decode k boundless = .panic := rfl

end PingDelivery.Record
