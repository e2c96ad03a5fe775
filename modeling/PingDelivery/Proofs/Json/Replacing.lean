import PingDelivery.Proofs.Json.Compact
import PingDelivery.Proofs.Text.Utf8
import PingDelivery.Proofs.Uuid

/-! # Values put in place of one another

Two values that differ at the end of one path are written alike but for what stands there. So they take
the same number of bytes if those two values do, as the texts of any two ids do.
-/

namespace PingDelivery

namespace Json

/-- The second value is the first with `v'` in place of `v` at the end of the path. -/
inductive Replaced (v v' : Json) : List String → Json → Json → Prop where
  | here : Replaced v v' [] v v'
  | member {k : String} {path : List String} {l r : List (String × Json)} {w w' : Json}
      (h : Replaced v v' path w w') :
      Replaced v v' (k :: path) (.obj (l ++ (k, w) :: r)) (.obj (l ++ (k, w') :: r))

theorem exists_separated (l r : List (List Char)) :
    ∃ pre post, ∀ t, separated (l ++ t :: r) = pre ++ t ++ post := by
  cases l with
  | nil => exact ⟨[], r.flatMap (',' :: ·), fun t => rfl⟩
  | cons s l =>
    refine ⟨s ++ l.flatMap (',' :: ·) ++ [','], r.flatMap (',' :: ·), fun t => ?_⟩
    simp only [List.cons_append, separated, List.flatMap_append, List.flatMap_cons,
      List.append_assoc, List.nil_append]

/-- Around the place the texts are the same. -/
theorem Replaced.exists_chars {v v' w w' : Json} {path : List String} (h : Replaced v v' path w w') :
    ∃ pre post, chars w = pre ++ chars v ++ post ∧ chars w' = pre ++ chars v' ++ post := by
  induction h with
  | here => exact ⟨[], [], (List.append_nil _).symm, (List.append_nil _).symm⟩
  | @member k path l r w w' _ ih =>
    obtain ⟨pre, post, hw, hw'⟩ := ih
    obtain ⟨pre', post', hsep⟩ := exists_separated (l.map fun m => (Member.written m).text)
      (r.map fun m => (Member.written m).text)
    refine ⟨'\x7b' :: pre' ++ quoteChars k ++ ':' :: pre, post ++ post' ++ ['\x7d'], ?_, ?_⟩ <;>
    · rw [chars_obj, List.map_append, List.map_cons, hsep]
      simp only [Member.text, Member.written, hw, hw', List.append_assoc, List.cons_append]

theorem bytes_eq (v : Json) : v.bytes = v.chars.flatMap String.utf8EncodeChar :=
  Bytes.ofText_ofList v.chars

theorem Replaced.length_bytes {v v' w w' : Json} {path : List String} (h : Replaced v v' path w w')
    (hlength : v'.bytes.length = v.bytes.length) : w'.bytes.length = w.bytes.length := by
  obtain ⟨pre, post, hw, hw'⟩ := h.exists_chars
  rw [bytes_eq, bytes_eq] at hlength
  rw [bytes_eq, bytes_eq, hw, hw']
  simp only [List.flatMap_append, List.length_append, hlength]

end Json

/-- An id is written with a byte for each of its 36 characters, between quotes. -/
theorem Uuid.length_bytes (id : Uuid) : (Json.str id.text).bytes.length = 38 := by
  have hdigit : ∀ n < 16, Json.escapeChar (Bytes.hexDigit n) = [Bytes.hexDigit n] ∧
      (String.utf8EncodeChar (Bytes.hexDigit n)).length = 1 := by decide
  have hplain : ∀ c ∈ id.chars,
      Json.escapeChar c = [c] ∧ (String.utf8EncodeChar c).length = 1 := by
    intro c hc
    rcases Uuid.mem_hyphenate hc with rfl | hc
    · decide
    · obtain ⟨n, hn, rfl⟩ := Uuid.exists_hexDigit hc
      exact hdigit n hn
  have hlength {l : List Char} (h : ∀ c ∈ l, Json.escapeChar c = [c] ∧
      (String.utf8EncodeChar c).length = 1) :
      ((l.flatMap Json.escapeChar).flatMap String.utf8EncodeChar).length = l.length := by
    induction l with
    | nil => rfl
    | cons c l ih =>
      obtain ⟨⟨hescape, hone⟩, hl⟩ := List.forall_mem_cons.1 h
      rw [List.flatMap_cons, hescape, List.singleton_append, List.flatMap_cons, List.length_append,
        hone, ih hl, List.length_cons, Nat.add_comm]
  have hchars := hlength hplain
  rw [id.length_chars] at hchars
  rw [Json.bytes_eq, Json.chars, Json.quoteChars, Uuid.text, String.toList_ofList]
  simp only [List.cons_append, List.flatMap_cons, List.flatMap_append, List.length_append, hchars,
    List.flatMap_nil, List.length_nil]
  rfl

end PingDelivery
