import PingDelivery.Record
import PingDelivery.Store.Call

/-! # Ids as keys

The canonical text of an id reads as that id, every store takes it as a key, and so a record's key
is a ping's key and tells its ping apart from all others. -/

namespace PingDelivery

namespace Uuid

theorem length_hexChars (b : Bytes) : b.hexChars.length = 2 * b.length := by
  induction b with
  | nil => rfl
  | cons x r ih =>
    simp only [Bytes.hexChars, List.flatMap_cons, List.length_append, List.length_cons] at ih ⊢
    rw [ih]
    simp only [Bytes.hexPair, List.length_cons, List.length_nil]
    omega

/-- Hyphens put between groups are taken out again, if there are characters enough. -/
theorem unhyphenate_hyphenate : ∀ (gs : List Nat) (s : List Char), gs.foldr (· + ·) 0 ≤ s.length →
    unhyphenate gs (hyphenate gs s) = some s
  | [], _, _ => rfl
  | [_], _, _ => rfl
  | n :: m :: r, s, h => by
    simp only [List.foldr_cons] at h
    have hlen : (s.take n).length = n := by rw [List.length_take]; omega
    have ih := unhyphenate_hyphenate (m :: r) (s.drop n)
      (by rw [List.length_drop, List.foldr_cons]; omega)
    generalize hw : hyphenate (m :: r) (s.drop n) = w at ih
    have hhead : ((s.take n ++ '-' :: w).drop n) = '-' :: w := List.drop_left' hlen
    have htail : ((s.take n ++ '-' :: w).drop (n + 1)) = w := by
      rw [← List.drop_drop, hhead, List.drop_succ_cons, List.drop_zero]
    rw [hyphenate, hw, unhyphenate, if_pos (by rw [hhead]; rfl), htail, ih, List.take_left' hlen,
      Option.map_some, List.take_append_drop]

theorem length_hyphenate : ∀ (gs : List Nat) (s : List Char), gs.foldr (· + ·) 0 ≤ s.length →
    (hyphenate gs s).length = s.length + (gs.length - 1)
  | [], _, _ => rfl
  | [_], _, _ => rfl
  | n :: m :: r, s, h => by
    simp only [List.foldr_cons] at h
    have ih := length_hyphenate (m :: r) (s.drop n)
      (by rw [List.length_drop, List.foldr_cons]; omega)
    simp only [hyphenate, List.length_append, List.length_take, List.length_cons, ih,
      List.length_drop]
    omega

theorem mem_hyphenate : ∀ {gs : List Nat} {s : List Char} {c : Char}, c ∈ hyphenate gs s →
    c = '-' ∨ c ∈ s
  | [], _, _, h => .inr h
  | [_], _, _, h => .inr h
  | n :: m :: r, s, c, h => by
    rcases List.mem_append.1 h with h | h
    · exact .inr (List.mem_of_mem_take h)
    · rcases List.mem_cons.1 h with h | h
      · exact .inl h
      · exact (mem_hyphenate h).imp id List.mem_of_mem_drop

theorem length_digits (u : Uuid) : u.octets.hexChars.length = 32 := by
  rw [length_hexChars, u.length_octets]

theorem length_chars (u : Uuid) : u.chars.length = 36 := by
  rw [chars, length_hyphenate _ _ (by rw [length_digits]; decide), length_digits]
  rfl

/-- **The canonical text is read back.** -/
@[simp] theorem parse?_text (u : Uuid) : parse? u.text = some u := by
  simp only [parse?, text, String.toList_ofList, parseChars?, length_chars]
  simp only [show ¬ (36 : Nat) = 32 by decide, if_false, if_true, ofHyphenated?, chars]
  rw [unhyphenate_hyphenate _ _ (by rw [length_digits]; decide)]
  simp only [Option.bind_some, ofDigits?, Bytes.ofHexChars?_hexChars, ofOctets?_octets]

theorem text_injective {u v : Uuid} (h : u.text = v.text) : u = v := by
  have := congrArg parse? h
  simpa using this

theorem exists_hexDigit {b : Bytes} {c : Char} (h : c ∈ b.hexChars) :
    ∃ n < 16, c = Bytes.hexDigit n := by
  obtain ⟨x, -, hx⟩ := List.mem_flatMap.1 h
  have := x.toNat_lt
  simp only [Bytes.hexPair, List.mem_cons, List.not_mem_nil, or_false] at hx
  rcases hx with rfl | rfl
  · exact ⟨_, by omega, rfl⟩
  · exact ⟨_, by omega, rfl⟩

theorem isKeyChar_of_mem_hexChars {b : Bytes} {c : Char} (h : c ∈ b.hexChars) :
    Store.isKeyChar c = true := by
  have all : ∀ n < 16, Store.isKeyChar (Bytes.hexDigit n) = true := by decide
  obtain ⟨n, hn, rfl⟩ := exists_hexDigit h
  exact all n hn

/-- Every store takes the canonical text as a key. -/
theorem validKey_text (u : Uuid) : Store.ValidKey u.text := by
  simp only [Store.ValidKey, text, String.toList_ofList, length_chars, List.all_eq_true]
  refine ⟨?_, by decide, ?_⟩
  · intro h
    have := length_chars u
    rw [h] at this
    cases this
  · intro c hc
    rcases mem_hyphenate hc with rfl | hc
    · rfl
    · exact isKeyChar_of_mem_hexChars hc

/-! ## The canonical text -/

def lowerDigits : List Char :=
  ['0', '1', '2', '3', '4', '5', '6', '7', '8', '9', 'a', 'b', 'c', 'd', 'e', 'f']

/-- Five groups of lower-case digits with hyphens between them. -/
def Canonical (s : String) : Prop :=
  ∃ parts : List (List Char), s.toList = ['-'].intercalate parts ∧
    parts.map List.length = [8, 4, 4, 4, 12] ∧ ∀ part ∈ parts, part ⊆ lowerDigits

theorem hexChars_subset (b : Bytes) : b.hexChars ⊆ lowerDigits := by
  have hall : ∀ n < 16, Bytes.hexDigit n ∈ lowerDigits := by decide
  intro c hc
  obtain ⟨n, hn, rfl⟩ := exists_hexDigit hc
  exact hall n hn

/-- Characters in groups of these lengths, of which the last takes what is left. -/
def cut : List Nat → List Char → List (List Char)
  | n :: m :: r, s => s.take n :: cut (m :: r) (s.drop n)
  | _, s => [s]

theorem cut_ne_nil : ∀ (gs : List Nat) (s : List Char), cut gs s ≠ []
  | [], _ | [_], _ | _ :: _ :: _, _ => List.cons_ne_nil _ _

theorem intercalate_cut : ∀ (gs : List Nat) (s : List Char),
    ['-'].intercalate (cut gs s) = hyphenate gs s
  | [], s | [_], s => List.append_nil s
  | n :: m :: r, s => by
    rw [cut, hyphenate, List.intercalate_cons_of_ne_nil (cut_ne_nil _ _), intercalate_cut (m :: r)]
    simp

theorem subset_of_mem_cut : ∀ {gs : List Nat} {s part : List Char}, part ∈ cut gs s → part ⊆ s
  | [], _, _, h | [_], _, _, h => by
    rw [List.mem_singleton.1 h]
    exact List.Subset.refl _
  | n :: m :: r, s, part, h => by
    rcases List.mem_cons.1 h with rfl | h
    · exact List.take_subset n s
    · exact List.Subset.trans (subset_of_mem_cut h) (List.drop_subset n s)

theorem canonical_text (u : Uuid) : Canonical u.text := by
  refine ⟨cut groups u.octets.hexChars, ?_, ?_, fun part hpart => ?_⟩
  · rw [text, String.toList_ofList, intercalate_cut, chars]
  · simp only [cut, groups, List.map_cons, List.map_nil, List.length_take, List.length_drop,
      u.length_digits]
    decide
  · exact List.Subset.trans (subset_of_mem_cut hpart) (hexChars_subset _)

theorem eq_octets_of_ofOctets? {b : Bytes} {u : Uuid} (h : ofOctets? b = some u) : b = u.octets := by
  unfold ofOctets? at h
  split at h
  · cases h
    rfl
  · cases h

end Uuid

namespace Record

@[simp] theorem isPingKey_key (id : Uuid) : isPingKey (key id) = true := by
  simp only [isPingKey, key, Uuid.parse?_text, Option.isSome_some]

theorem key_injective {u v : Uuid} (h : key u = key v) : u = v := Uuid.text_injective h

end Record
end PingDelivery
