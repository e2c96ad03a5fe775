import PingDelivery.Proofs.Text.Utf8
import PingDelivery.Url.Basic
import Mathlib.Data.List.TakeWhile

/-! # The canonical form of web addresses

Whatever a text looks like that is read as a web address, the address that comes out has each of its parts
in one form: percent-encoded as that part asks for, the path without segments that only move, the host
without any character that could end it. `canonical_of_parse` gathers what is known of an address by
its having been read.
-/

namespace PingDelivery

theorem mem_of_mem_intercalate {α : Type} {sep c : α} {ls : List (List α)}
    (h : c ∈ [sep].intercalate ls) : c = sep ∨ ∃ l ∈ ls, c ∈ l := by
  induction ls with
  | nil => cases h
  | cons l ls ih =>
    cases ls with
    | nil =>
      rw [List.intercalate_singleton] at h
      exact .inr ⟨l, List.mem_cons_self, h⟩
    | cons l' ls =>
      rw [List.intercalate_cons_cons, List.append_assoc, List.mem_append, List.mem_append,
        List.mem_singleton] at h
      rcases h with h | h | h
      · exact .inr ⟨l, List.mem_cons_self, h⟩
      · exact .inl h
      · exact (ih h).imp_right fun ⟨m, hm, hc⟩ => ⟨m, List.mem_cons_of_mem l hm, hc⟩

theorem exists_digitChar_of_mem_toDigits {b n : Nat} (hb : 1 < b) {c : Char}
    (h : c ∈ Nat.toDigits b n) : ∃ d < b, c = d.digitChar := by
  induction n using Nat.strongRecOn with
  | ind n ih =>
    rw [Nat.toDigits_eq_if hb] at h
    split at h
    · rename_i hn
      exact ⟨n, hn, List.mem_singleton.1 h⟩
    · rename_i hn
      rcases List.mem_append.1 h with h | h
      · exact ih (n / b) (Nat.div_lt_self (by omega) hb) h
      · exact ⟨n % b, Nat.mod_lt n (by omega), List.mem_singleton.1 h⟩

namespace Url

/-! ## Encoded text -/

/-- No character is left that has to be encoded. -/
def Settled (encoded : Char → Bool) (s : List Char) : Prop :=
  ∀ c ∈ s, c.toNat < 128 ∧ encoded c = false

/-- What an encoded byte is written with is not encoded again. -/
def Stable (encoded : Char → Bool) : Prop :=
  encoded '%' = false ∧ ∀ n < 16, encoded (upperDigit n) = false

theorem stable_inFragment : Stable inFragment := by unfold Stable; decide

theorem stable_inPath : Stable inPath := by unfold Stable; decide

theorem stable_inUserinfo : Stable inUserinfo := by unfold Stable; decide

theorem stable_inQuery : Stable inQuery := by unfold Stable; decide

section
variable {encoded : Char → Bool} {s : List Char}

theorem Settled.append {t : List Char} (hs : Settled encoded s) (ht : Settled encoded t) :
    Settled encoded (s ++ t) := fun c hc => (List.mem_append.1 hc).elim (hs c) (ht c)

/-- Settled text is not encoded any further. -/
theorem Settled.encode_eq (h : Settled encoded s) : encode encoded s = s := by
  induction s with
  | nil => rfl
  | cons c s ih =>
    obtain ⟨hc, hs⟩ := List.forall_mem_cons.1 h
    have hchar : encodeChar encoded c = [c] := if_pos ⟨hc.1, by rw [hc.2]; exact Bool.false_ne_true⟩
    have hrest : encode encoded s = s := ih hs
    rw [encode] at hrest ⊢
    rw [List.flatMap_cons, hchar, hrest, List.singleton_append]

/-- An encoded text holds characters of the text and those that bytes are written with. -/
theorem mem_encode {c : Char} (h : c ∈ encode encoded s) :
    (c ∈ s ∧ c.toNat < 128 ∧ encoded c = false) ∨ c = '%' ∨ ∃ n < 16, c = upperDigit n := by
  obtain ⟨x, hx, hc⟩ := List.mem_flatMap.1 h
  unfold encodeChar at hc
  split at hc
  · rename_i hkept
    obtain rfl := List.mem_singleton.1 hc
    exact .inl ⟨hx, hkept.1, Bool.eq_false_iff.2 hkept.2⟩
  · obtain ⟨b, -, hb⟩ := List.mem_flatMap.1 hc
    have hlt := b.toNat_lt
    simp only [percentByte, List.mem_cons, List.not_mem_nil, or_false] at hb
    rcases hb with rfl | rfl | rfl
    · exact .inr (.inl rfl)
    · exact .inr (.inr ⟨_, by omega, rfl⟩)
    · exact .inr (.inr ⟨_, by omega, rfl⟩)

theorem settled_encode (h : Stable encoded) (s : List Char) : Settled encoded (encode encoded s) := by
  have hdigit : ∀ n < 16, (upperDigit n).toNat < 128 := by decide
  intro c hc
  rcases mem_encode hc with ⟨-, hkept⟩ | rfl | ⟨n, hn, rfl⟩
  · exact hkept
  · exact ⟨by decide, h.1⟩
  · exact ⟨hdigit n hn, h.2 n hn⟩

end

/-- Encoding puts in none of the characters that a path is cut or turned at. -/
theorem not_mem_encode {encoded : Char → Bool} {s : List Char} {c : Char}
    (hc : c = '/' ∨ c = '\\' ∨ c = ':') (h : c ∉ s) : c ∉ encode encoded s := by
  have hdigit : ∀ n < 16, upperDigit n ≠ '/' ∧ upperDigit n ≠ '\\' ∧ upperDigit n ≠ ':' := by decide
  intro hmem
  rcases mem_encode hmem with ⟨hmem, -⟩ | rfl | ⟨n, hn, rfl⟩
  · exact h hmem
  · revert hc
    decide
  · obtain ⟨h1, h2, h3⟩ := hdigit n hn
    rcases hc with hc | hc | hc
    · exact h1 hc
    · exact h2 hc
    · exact h3 hc

/-! ## Paths -/

theorem pieces_eq_splitOn (sep : Char) (s : List Char) : pieces sep s = s.splitOn sep := by
  induction s with
  | nil => rfl
  | cons c s ih =>
    obtain ⟨p, r, hpr⟩ := List.exists_cons_of_ne_nil (List.splitOn_ne_nil sep s)
    rw [List.splitOn_cons_eq_if_modifyHead, ← ih]
    rw [← ih] at hpr
    unfold pieces at hpr ⊢
    rw [List.foldr_cons, hpr]
    simp only [beq_iff_eq, List.modifyHead_cons]

theorem mem_of_mem_pieces {sep c : Char} {s p : List Char} (hp : p ∈ pieces sep s) (hc : c ∈ p) :
    c ∈ s ∧ c ≠ sep := by
  rw [pieces_eq_splitOn] at hp
  induction s generalizing p with
  | nil =>
    obtain rfl := List.mem_singleton.1 hp
    cases hc
  | cons x s ih =>
    rw [List.splitOn_cons_eq_if_modifyHead] at hp
    split at hp
    · rcases List.mem_cons.1 hp with rfl | hp
      · cases hc
      · exact (ih hp hc).imp_left (List.mem_cons_of_mem x)
    · rename_i hx
      obtain ⟨q, r, hqr⟩ := List.exists_cons_of_ne_nil (List.splitOn_ne_nil sep s)
      rw [hqr, List.modifyHead_cons] at hp
      rw [hqr] at ih
      rcases List.mem_cons.1 hp with rfl | hp
      · rcases List.mem_cons.1 hc with rfl | hc
        · exact ⟨List.mem_cons_self, by simpa using hx⟩
        · exact (ih List.mem_cons_self hc).imp_left (List.mem_cons_of_mem x)
      · exact (ih (List.mem_cons_of_mem q hp) hc).imp_left (List.mem_cons_of_mem x)

theorem pathChars_eq_intercalate (l : List (List Char)) :
    pathChars l = ['/'].intercalate ([] :: l) := by
  induction l with
  | nil => rfl
  | cons s l ih =>
    rw [List.intercalate_cons_cons, pathChars, List.flatMap_cons]
    rw [pathChars] at ih
    cases l with
    | nil => simp
    | cons t l =>
      rw [ih, List.intercalate_cons_cons, List.intercalate_cons_cons]
      simp

/-- A segment of a path as it is kept. -/
structure IsSegment (s : List Char) : Prop where
  settled : Settled inPath s
  whole : ∀ c ∈ s, c ≠ '/' ∧ c ≠ '\\'
  stays : isDoublePoint s = false ∧ isSinglePoint s = false

theorem isSegment_nil : IsSegment [] :=
  ⟨fun _ h => absurd h List.not_mem_nil, fun _ h => absurd h List.not_mem_nil, by decide⟩

theorem mem_advance {before : List (List Char)} {s t : List Char} (h : t ∈ advance before s) :
    t ∈ before ∨ t = s ∧ isDoublePoint s = false ∧ isSinglePoint s = false := by
  unfold advance at h
  split at h
  · split at h
    · cases h
    · split at h
      · exact .inl h
      · exact .inl (List.mem_cons_of_mem _ h)
  · rename_i hdouble
    split at h
    · exact .inl h
    · rename_i hsingle
      rcases List.mem_cons.1 h with rfl | h
      · exact .inr ⟨rfl, Bool.eq_false_iff.2 hdouble, Bool.eq_false_iff.2 hsingle⟩
      · exact .inl h

/-- The walk leaves of the segments those that do not move, and puts in empty ones. -/
theorem mem_walk {before l : List (List Char)} {t : List Char} (h : t ∈ walk before l) :
    t = [] ∨ t ∈ before ∨ t ∈ l ∧ isDoublePoint t = false ∧ isSinglePoint t = false := by
  induction l generalizing before with
  | nil =>
    rw [walk, List.mem_reverse, List.mem_cons] at h
    exact h.imp_right .inl
  | cons s l ih =>
    have hadvance (h : t ∈ advance before s) : t = [] ∨ t ∈ before ∨
        t ∈ s :: l ∧ isDoublePoint t = false ∧ isSinglePoint t = false := by
      rcases mem_advance h with h | ⟨rfl, hstays⟩
      · exact .inr (.inl h)
      · exact .inr (.inr ⟨List.mem_cons_self, hstays⟩)
    cases l with
    | nil =>
      rw [walk, List.mem_reverse] at h
      split at h
      · exact (List.mem_cons.1 h).elim .inl hadvance
      · rename_i hmoves
        rw [not_or] at hmoves
        rcases List.mem_cons.1 h with rfl | h
        · exact .inr (.inr ⟨List.mem_cons_self, Bool.eq_false_iff.2 hmoves.1,
            Bool.eq_false_iff.2 hmoves.2⟩)
        · exact .inr (.inl h)
    | cons s' l =>
      rw [walk] at h
      · rcases ih h with h | h | ⟨h, hstays⟩
        · exact .inl h
        · exact hadvance h
        · exact .inr (.inr ⟨List.mem_cons_of_mem s h, hstays⟩)
      · exact List.cons_ne_nil _ _

theorem walk_ne_nil (before l : List (List Char)) : walk before l ≠ [] := by
  induction l generalizing before with
  | nil => simp [walk]
  | cons s l ih =>
    cases l with
    | nil =>
      rw [walk]
      split <;> simp
    | cons s' l =>
      rw [walk]
      · exact ih _
      · exact List.cons_ne_nil _ _

/-- Where no segment moves, the walk changes nothing. -/
theorem walk_eq {before l : List (List Char)} (hne : l ≠ [])
    (h : ∀ s ∈ l, isDoublePoint s = false ∧ isSinglePoint s = false) :
    walk before l = before.reverse ++ l := by
  induction l generalizing before with
  | nil => exact absurd rfl hne
  | cons s l ih =>
    obtain ⟨⟨hdouble, hsingle⟩, hl⟩ := List.forall_mem_cons.1 h
    cases l with
    | nil => simp [walk, hdouble, hsingle]
    | cons s' l =>
      rw [walk, ih (List.cons_ne_nil _ _) hl]
      · simp [advance, hdouble, hsingle]
      · exact List.cons_ne_nil _ _

theorem isSegment_of_mem_normalizePath {s t : List Char} (hs : '\\' ∉ s)
    (h : t ∈ normalizePath s) : IsSegment t := by
  obtain ⟨s', hpath, hs'⟩ : ∃ s', normalizePath s = walk [] (pieces '/' (encode inPath s')) ∧
      '\\' ∉ s' := by
    unfold normalizePath
    split
    · exact ⟨_, rfl, fun hmem => hs (List.mem_cons_of_mem _ hmem)⟩
    · exact ⟨_, rfl, hs⟩
  rw [hpath] at h
  rcases mem_walk h with rfl | h | ⟨h, hstays⟩
  · exact isSegment_nil
  · cases h
  · refine ⟨fun c hc => settled_encode stable_inPath s' c (mem_of_mem_pieces h hc).1, ?_, hstays⟩
    intro c hc
    obtain ⟨hmem, hslash⟩ := mem_of_mem_pieces h hc
    exact ⟨hslash, fun heq => not_mem_encode (.inr (.inl rfl)) hs' (heq ▸ hmem)⟩

/-- A path whose segments are kept is read as itself. -/
theorem normalizePath_pathChars {l : List (List Char)} (hne : l ≠ []) (h : ∀ s ∈ l, IsSegment s) :
    normalizePath (pathChars l) = l := by
  obtain ⟨s, r, rfl⟩ := List.exists_cons_of_ne_nil hne
  have hchars : pathChars (s :: r) = '/' :: ['/'].intercalate (s :: r) := by
    rw [pathChars_eq_intercalate, List.intercalate_cons_cons, List.nil_append,
      List.singleton_append]
  have hsettled : Settled inPath (['/'].intercalate (s :: r)) := by
    intro c hc
    rcases mem_of_mem_intercalate hc with rfl | ⟨t, ht, hc⟩
    · decide
    · exact (h t ht).settled c hc
  rw [hchars]
  change walk [] (pieces '/' (encode inPath (['/'].intercalate (s :: r)))) = s :: r
  rw [hsettled.encode_eq, pieces_eq_splitOn, List.splitOn_intercalate _ _ hne,
    walk_eq hne fun t ht => (h t ht).stays, List.reverse_nil, List.nil_append]
  exact fun t ht hslash => ((h t ht).whole _ hslash).1 rfl

/-! ## Hosts -/

/-- A domain has a name, and nothing in it could end it. -/
def Host.Plain : Host → Prop
  | domain name => name ≠ [] ∧ ∀ c ∈ name, forbiddenInDomain c = false
  | ipv4 _ | ipv6 _ => True

theorem allowed_of_domainToAscii? {s d : List Char} (h : domainToAscii? s = some d) :
    ∀ c ∈ d, forbiddenInDomain c = false := by
  unfold domainToAscii? at h
  obtain ⟨mapped, -, h⟩ := Option.bind_eq_some_iff.1 h
  obtain ⟨labels, -, h⟩ := Option.bind_eq_some_iff.1 h
  split at h
  · cases h
  · rename_i hlabels
    split at h
    · cases h
    · cases h
      intro c hc
      rcases mem_of_mem_intercalate hc with rfl | ⟨w, hw, hc⟩
      · decide
      · obtain ⟨l, hl, rfl⟩ := List.mem_map.1 hw
        exact Bool.eq_false_iff.2 fun hforbidden =>
          hlabels (List.any_eq_true.2 ⟨l, hl, List.any_eq_true.2 ⟨c, hc, hforbidden⟩⟩)

theorem plain_of_parseHost {s : List Char} {host : Host} (h : parseHost s = .ok host) : host.Plain := by
  unfold parseHost at h
  split at h
  · split at h
    · split at h <;> cases h
      trivial
    · cases h
  · split at h
    · cases h
    · cases h
    · rename_i d hne hd
      obtain ⟨t, -, hd⟩ := Option.bind_eq_some_iff.1 hd
      split at h
      · split at h <;> cases h
        trivial
      · cases h
        exact ⟨fun hnil => hne (hnil ▸ rfl), allowed_of_domainToAscii? hd⟩

/-- A character that neither ends the authority of an address nor counts as blank, nor parts the user
from the host. -/
structure Inner (c : Char) : Prop where
  shown : 32 < c.toNat
  inside : endsAuthority .special c = false
  noAt : c ≠ '@'

theorem inner_of_allowed {c : Char} (h : forbiddenInDomain c = false) :
    Inner c ∧ c ≠ ':' ∧ c ≠ '[' ∧ c ≠ ']' := by
  simp only [forbiddenInDomain, Bool.or_eq_false_iff, decide_eq_false_iff_not, Nat.not_le,
    List.contains_eq_mem, List.mem_cons, List.not_mem_nil, or_false, not_or] at h
  obtain ⟨⟨hshown, -⟩, -, hhash, hslash, hcolon, -, -, hquestion, hat, hopen, hback, hclose, -, -⟩ := h
  refine ⟨⟨hshown, ?_, hat⟩, hcolon, hopen, hclose⟩
  simp [endsAuthority, isSlash, hhash, hslash, hquestion, hback]

theorem inner_digitChar {d : Nat} (h : d < 16) :
    Inner d.digitChar ∧ d.digitChar ≠ ':' ∧ d.digitChar ≠ '[' ∧ d.digitChar ≠ ']' := by
  have hall : ∀ d < 16, forbiddenInDomain d.digitChar = false := by decide
  exact inner_of_allowed (hall d h)

theorem mem_ipv4Chars {n : Nat} {c : Char} (h : c ∈ ipv4Chars n) :
    Inner c ∧ c ≠ ':' ∧ c ≠ '[' ∧ c ≠ ']' := by
  rcases mem_of_mem_intercalate h with rfl | ⟨w, hw, hc⟩
  · exact inner_of_allowed (by decide)
  · obtain ⟨m, -, rfl⟩ := List.mem_map.1 hw
    obtain ⟨d, hd, rfl⟩ := exists_digitChar_of_mem_toDigits (by decide) hc
    exact inner_digitChar (by omega)

theorem mem_ipv6Chars {ns : List Nat} {c : Char} (h : c ∈ ipv6Chars ns) :
    Inner c ∧ c ≠ '[' ∧ c ≠ ']' := by
  have hcolon : Inner ':' ∧ ':' ≠ '[' ∧ ':' ≠ ']' := ⟨⟨by decide, by decide, by decide⟩, by decide⟩
  have hpieces {ms : List Nat} (h : c ∈ pieceChars ms) : Inner c ∧ c ≠ '[' ∧ c ≠ ']' := by
    rcases mem_of_mem_intercalate h with rfl | ⟨w, hw, hc⟩
    · exact hcolon
    · obtain ⟨m, -, rfl⟩ := List.mem_map.1 hw
      obtain ⟨d, hd, rfl⟩ := exists_digitChar_of_mem_toDigits (by decide) hc
      obtain ⟨hinner, -, hbrackets⟩ := inner_digitChar hd
      exact ⟨hinner, hbrackets⟩
  unfold ipv6Chars at h
  split at h
  · exact hpieces h
  · rcases List.mem_append.1 h with h | h
    · rcases List.mem_append.1 h with h | h
      · exact hpieces h
      · simp only [List.mem_cons, List.not_mem_nil, or_false, or_self] at h
        exact h ▸ hcolon
    · exact hpieces h

namespace Host.Plain
variable {host : Host}

theorem ne_nil (h : host.Plain) : host.chars ≠ [] := by
  cases host with
  | domain name => exact h.1
  | ipv4 n =>
    rw [chars, ipv4Chars, List.map_cons, List.map_cons, List.intercalate_cons_cons, List.append_assoc]
    exact List.append_ne_nil_of_left_ne_nil Nat.toDigits_ne_nil _
  | ipv6 ns => exact List.cons_ne_nil _ _

theorem inner (h : host.Plain) {c : Char} (hc : c ∈ host.chars) : Inner c := by
  cases host with
  | domain name => exact (inner_of_allowed (h.2 c hc)).1
  | ipv4 n => exact (mem_ipv4Chars hc).1
  | ipv6 ns =>
    rcases List.mem_append.1 hc with hc | hc
    · rcases List.mem_cons.1 hc with rfl | hc
      · exact ⟨by decide, by decide, by decide⟩
      · exact (mem_ipv6Chars hc).1
    · obtain rfl := List.mem_singleton.1 hc
      exact ⟨by decide, by decide, by decide⟩

end Host.Plain

theorem spanHost_append {inside : Bool} {s : List Char} (r : List Char)
    (h : ∀ c ∈ s, c ≠ '[' ∧ c ≠ ']' ∧ (inside = false → c ≠ ':')) :
    spanHost inside (s ++ r) = (s ++ (spanHost inside r).1, (spanHost inside r).2) := by
  induction s with
  | nil => rfl
  | cons c s ih =>
    obtain ⟨⟨hopen, hclose, hcolon⟩, hs⟩ := List.forall_mem_cons.1 h
    have hgoes : ¬ (c = ':' ∧ ¬ inside = true) := fun hc =>
      hcolon (Bool.eq_false_iff.2 hc.2) hc.1
    rw [List.cons_append, spanHost, if_neg hgoes, if_neg hopen, if_neg hclose]
    simp only [ih hs, List.cons_append]

/-- A host is read up to its end. -/
theorem spanHost_chars {host : Host} (h : host.Plain) {r : List Char}
    (hr : r = [] ∨ ∃ ds, r = ':' :: ds) : spanHost false (host.chars ++ r) = (host.chars, r) := by
  have hrest : spanHost false r = ([], r) := by
    rcases hr with rfl | ⟨ds, rfl⟩
    · rfl
    · rw [spanHost, if_pos ⟨rfl, Bool.false_ne_true⟩]
  cases host with
  | domain name =>
    have hname : ∀ c ∈ name, c ≠ '[' ∧ c ≠ ']' ∧ (false = false → c ≠ ':') := fun c hc =>
      have ⟨_, hcolon, hopen, hclose⟩ := inner_of_allowed (h.2 c hc)
      ⟨hopen, hclose, fun _ => hcolon⟩
    rw [Host.chars, spanHost_append r hname, hrest, List.append_nil]
  | ipv4 n =>
    have hdigits : ∀ c ∈ ipv4Chars n, c ≠ '[' ∧ c ≠ ']' ∧ (false = false → c ≠ ':') := fun c hc =>
      have ⟨_, hcolon, hopen, hclose⟩ := mem_ipv4Chars hc
      ⟨hopen, hclose, fun _ => hcolon⟩
    rw [Host.chars, spanHost_append r hdigits, hrest, List.append_nil]
  | ipv6 ns =>
    have hpieces : ∀ c ∈ ipv6Chars ns, c ≠ '[' ∧ c ≠ ']' ∧ (true = false → c ≠ ':') := fun c hc =>
      have ⟨_, hopen, hclose⟩ := mem_ipv6Chars hc
      ⟨hopen, hclose, fun h => by cases h⟩
    have hclosed : spanHost true (']' :: r) = ([']'], r) := by
      rw [spanHost, if_neg (by decide), if_neg (by decide), if_pos rfl]
      simp only [hrest]
    rw [Host.chars, List.append_assoc, List.cons_append, List.singleton_append, spanHost,
      if_neg (by decide), if_pos rfl]
    simp only [spanHost_append (']' :: r) hpieces, hclosed, List.cons_append]

/-! ## Users -/

/-- A user name, which may go with a colon and a password. -/
inductive IsUserinfo : List Char → Prop where
  | name {n : List Char} (hn : Settled inUserinfo n) : IsUserinfo n
  | password {n p : List Char} (hn : Settled inUserinfo n) (hp : Settled inUserinfo p) (hne : p ≠ []) :
      IsUserinfo (n ++ ':' :: p)

theorem encode_ne_nil {encoded : Char → Bool} {s : List Char} (h : s ≠ []) : encode encoded s ≠ [] := by
  obtain ⟨c, r, rfl⟩ := List.exists_cons_of_ne_nil h
  rw [encode, List.flatMap_cons]
  refine List.append_ne_nil_of_left_ne_nil ?_ _
  unfold encodeChar
  split
  · exact List.cons_ne_nil c []
  · have hbytes : Bytes.ofText (String.singleton c) = String.utf8EncodeChar c := by
      rw [String.singleton_eq_ofList, Bytes.ofText_ofList, List.flatMap_singleton]
    have hlength : 0 < (String.utf8EncodeChar c).length := by
      rw [String.length_utf8EncodeChar]
      exact c.utf8Size_pos
    obtain ⟨b, bs, hb⟩ := List.exists_cons_of_ne_nil (List.ne_nil_of_length_pos hlength)
    rw [hbytes, hb, List.flatMap_cons]
    exact List.append_ne_nil_of_left_ne_nil (List.cons_ne_nil _ _) _

theorem isUserinfo_userinfoChars (s : List Char) : IsUserinfo (userinfoChars s) := by
  rw [userinfoChars]
  split
  · rw [List.append_nil]
    exact .name (settled_encode stable_inUserinfo _)
  · rename_i hpassword
    refine .password (settled_encode stable_inUserinfo _) (settled_encode stable_inUserinfo _) ?_
    exact encode_ne_nil fun hnil => hpassword (hnil ▸ rfl)

theorem ne_colon_of_settled {n : List Char} (h : Settled inUserinfo n) :
    ∀ c ∈ n, decide (c ≠ ':') = true := by
  intro c hc
  refine decide_eq_true fun heq => ?_
  have hsettled := (h c hc).2
  rw [heq] at hsettled
  revert hsettled
  decide

theorem userinfoChars_eq {s : List Char} (h : IsUserinfo s) : userinfoChars s = s := by
  cases h with
  | name hn =>
    have htake : s.takeWhile (· ≠ ':') = s :=
      List.takeWhile_eq_self_iff.2 (ne_colon_of_settled hn)
    rw [userinfoChars, htake, List.drop_length, List.drop_nil, hn.encode_eq]
    exact List.append_nil s
  | @password n p hn hp hne =>
    have htake : (n ++ ':' :: p).takeWhile (· ≠ ':') = n := by
      rw [List.takeWhile_append_of_pos (ne_colon_of_settled hn), List.takeWhile_cons_of_neg (by decide),
        List.append_nil]
    rw [userinfoChars, htake, List.drop_left, List.drop_one, List.tail_cons,
      List.isEmpty_eq_false_iff.2 hne, if_neg Bool.false_ne_true, hn.encode_eq, hp.encode_eq]

theorem shown_of_not_control {c : Char} (h : isControlByte c = false) (hblank : c ≠ ' ') :
    32 < c.toNat := by
  rw [isControlByte, Bool.or_eq_false_iff, decide_eq_false_iff_not] at h
  exact Nat.lt_of_le_of_ne (Nat.not_lt.1 h.1) fun heq => hblank (Char.toNat_inj.1 heq.symm)

/-- What needs no encoding anywhere shows. -/
theorem shown_of_not_inFragment {c : Char} (h : inFragment c = false) : 32 < c.toNat := by
  simp only [inFragment, Bool.or_eq_false_iff, decide_eq_false_iff_not, List.contains_eq_mem,
    List.mem_cons, List.not_mem_nil, or_false, not_or] at h
  obtain ⟨hcontrol, hblank, -⟩ := h
  exact shown_of_not_control hcontrol hblank

theorem of_not_inPath {c : Char} (h : inPath c = false) : 32 < c.toNat ∧ c ≠ '#' ∧ c ≠ '?' := by
  simp only [inPath, Bool.or_eq_false_iff, decide_eq_false_iff_not, List.contains_eq_mem,
    List.mem_cons, List.not_mem_nil, or_false, not_or] at h
  obtain ⟨hfragment, hhash, hquestion, -⟩ := h
  exact ⟨shown_of_not_inFragment hfragment, hhash, hquestion⟩

theorem of_not_inQuery {c : Char} (h : inQuery c = false) : 32 < c.toNat ∧ c ≠ '#' := by
  simp only [inQuery, Bool.or_eq_false_iff, decide_eq_false_iff_not, List.contains_eq_mem,
    List.mem_cons, List.not_mem_nil, or_false, not_or] at h
  obtain ⟨hcontrol, hblank, -, hhash, -⟩ := h
  exact ⟨shown_of_not_control hcontrol hblank, hhash⟩

theorem IsUserinfo.inner {s : List Char} (h : IsUserinfo s) {c : Char} (hc : c ∈ s) : Inner c := by
  have hsettled {n : List Char} (hn : Settled inUserinfo n) (hc : c ∈ n) : Inner c := by
    have h := (hn c hc).2
    simp only [inUserinfo, Bool.or_eq_false_iff, decide_eq_false_iff_not, List.contains_eq_mem,
      List.mem_cons, List.not_mem_nil, or_false, not_or] at h
    obtain ⟨hpath, hslash, -, -, -, hat, -, hback, -⟩ := h
    obtain ⟨hshown, hhash, hquestion⟩ := of_not_inPath hpath
    exact ⟨hshown, by simp [endsAuthority, isSlash, hhash, hslash, hquestion, hback], hat⟩
  cases h with
  | name hn => exact hsettled hn hc
  | @password n p hn hp _ =>
    rcases List.mem_append.1 hc with hc | hc
    · exact hsettled hn hc
    · rcases List.mem_cons.1 hc with rfl | hc
      · exact ⟨by decide, by decide, by decide⟩
      · exact hsettled hp hc

/-! ## Addresses -/

/-- What is known of an address that has been read. -/
structure Canonical (u : Url) : Prop where
  userinfo : IsUserinfo u.userinfo
  host : u.host.Plain
  port : ∀ p, u.port = some p → p ≤ 65535 ∧ p ≠ defaultPort u.secure
  path : u.path ≠ []
  segments : ∀ s ∈ u.path, IsSegment s
  query : ∀ q, u.query = some q → Settled inQuery q
  fragment : ∀ f, u.fragment = some f → Settled inFragment f

theorem port_of_parsePort {default? : Option Nat} {s : List Char} {port : Option Nat}
    (h : parsePort default? s = .ok port) {p : Nat} (hp : port = some p) :
    p ≤ 65535 ∧ default? ≠ some p := by
  unfold parsePort at h
  split at h
  · split at h
    · cases h
      cases hp
    · simp only at h
      split at h
      · cases h
      · rename_i hle
        split at h
        · cases h
          cases hp
        · rename_i hne
          cases h
          cases hp
          exact ⟨Nat.not_lt.1 hle, fun heq => hne heq.symm⟩
  · cases h

theorem authority_of_parse {default? : Option Nat} {s : List Char} {more : Bool} {a : Authority}
    (h : parseAuthority .special default? s more = .ok a) : IsUserinfo a.userinfo ∧ a.host.Plain ∧
      ∀ p, a.port = some p → p ≤ 65535 ∧ default? ≠ some p := by
  have huser := isUserinfo_userinfoChars ((splitUserinfo s).1.getD [])
  unfold parseAuthority at h
  simp only [bind, Except.bind, pure, Except.pure, if_neg (show ¬ Kind.special = .plain by decide)] at h
  split at h
  · cases h
  · split at h
    · cases h
    · split at h
      · cases h
      · rename_i host hhost
        split at h
        · cases h
        · split at h
          · split at h
            · cases h
            · rename_i port hport
              cases h
              exact ⟨huser, plain_of_parseHost hhost, fun p hp => port_of_parsePort hport hp⟩
          · cases h
            exact ⟨huser, plain_of_parseHost hhost, fun p hp => by cases hp⟩

theorem canonical_of_parseWeb {secure : Bool} {s : List Char} {u : Url}
    (h : parseWeb secure s = .ok u) : Canonical u := by
  unfold parseWeb at h
  simp only [bind, Except.bind, pure, Except.pure] at h
  split at h
  · cases h
  · rename_i a ha
    cases h
    obtain ⟨huser, hhost, hport⟩ := authority_of_parse ha
    refine ⟨huser, hhost, fun p hp => ?_, walk_ne_nil _ _, ?_, ?_, ?_⟩
    · obtain ⟨hle, hne⟩ := hport p hp
      exact ⟨hle, fun heq => hne (congrArg some heq.symm)⟩
    · refine fun t ht => isSegment_of_mem_normalizePath (fun hmem => ?_) ht
      obtain ⟨c, -, hc⟩ := List.mem_map.1 hmem
      split at hc
      · cases hc
      · rename_i hback
        exact hback hc
    · intro q hq
      obtain ⟨q', -, rfl⟩ := Option.map_eq_some_iff.1 hq
      exact settled_encode stable_inQuery q'
    · intro f hf
      obtain ⟨f', -, rfl⟩ := Option.map_eq_some_iff.1 hf
      exact settled_encode stable_inFragment f'

/-- **What has been read is in canonical form.** -/
theorem canonical_of_parse {s : String} {u : Url} (h : parse s = .ok (.web u)) : Canonical u := by
  have hmap {secure : Bool} {rest : List Char} (h : (parseWeb secure rest).map Absolute.web =
      .ok (.web u)) : Canonical u := by
    cases hweb : parseWeb secure rest with
    | error e =>
      rw [hweb] at h
      cases h
    | ok v =>
      rw [hweb] at h
      cases h
      exact canonical_of_parseWeb hweb
  unfold parse at h
  split at h
  · cases h
  · rename_i scheme rest hscheme
    split at h
    · exact hmap h
    · split at h
      · exact hmap h
      · cases hother : checkOther (kindOf scheme) scheme rest with
        | error e =>
          rw [hother] at h
          cases h
        | ok v =>
          rw [hother] at h
          cases h

end Url
end PingDelivery
