import PingDelivery.Json.Writer
import PingDelivery.Proofs.Text.Utf8

/-! # The grammar of compact JSON

`Compact d t v` says that the text `t` is the value `v`, written without blanks, with every name of an
object once, and nested at most `d` deep. There may be several texts of a value, for a character of a
string can be written in more than one way. `compact_chars` is the case of the writer's own text; it is
put together from the parts of a value, as a document is.
-/

namespace PingDelivery.Json

/-! ## The grammar -/

/-- What may stand behind a backslash, and the character it stands for. -/
def shortEscapes : List (Char × Char) :=
  [('"', '"'), ('\\', '\\'), ('/', '/'), ('b', Char.ofNat 8), ('f', Char.ofNat 12), ('n', '\n'),
    ('r', '\r'), ('t', '\t')]

def IsSurrogate (n : Nat) : Prop := 0xD800 ≤ n ∧ n ≤ 0xDFFF

/-- How a character of a string may be written: as itself, by a short escape, or by its number. -/
inductive Spelled : List Char → Char → Prop where
  | plain {c : Char} (hlow : 32 ≤ c.toNat) (hquote : c ≠ '"') (hslash : c ≠ '\\') : Spelled [c] c
  | short {e c : Char} (h : (e, c) ∈ shortEscapes) : Spelled ['\\', e] c
  | numbered {a b c d : Char} {w x y z : Nat} (ha : Bytes.hexValue? a = some w)
      (hb : Bytes.hexValue? b = some x) (hc : Bytes.hexValue? c = some y)
      (hd : Bytes.hexValue? d = some z) (hn : ¬ IsSurrogate (((w * 16 + x) * 16 + y) * 16 + z)) :
      Spelled ['\\', 'u', a, b, c, d] (Char.ofNat (((w * 16 + x) * 16 + y) * 16 + z))

inductive Inside : List Char → List Char → Prop where
  | nil : Inside [] []
  | cons {t ts cs : List Char} {c : Char} (h : Spelled t c) (hs : Inside ts cs) :
      Inside (t ++ ts) (c :: cs)

/-- A string between its quotes. -/
inductive Quoted : List Char → String → Prop where
  | intro {ts : List Char} {s : String} (h : Inside ts s.toList) : Quoted ('"' :: ts ++ ['"']) s

/-- A number in decimal digits, without a leading zero. -/
structure Decimal (ds : List Char) (n : Nat) : Prop where
  digits : ∀ c ∈ ds, c.isDigit = true
  nonempty : ds ≠ []
  leading : ds.head? = some '0' → ds = ['0']
  value : Nat.ofDigitChars 10 ds 0 = n

inductive Integer : List Char → Int → Prop where
  | natural {ds : List Char} {n : Nat} (h : Decimal ds n) : Integer ds n
  | negative {ds : List Char} {n : Nat} (h : Decimal ds n) (hn : 0 < n) : Integer ('-' :: ds) (-n)

/-- The texts with a comma between each two. -/
def separated : List (List Char) → List Char
  | [] => []
  | t :: r => t ++ r.flatMap (',' :: ·)

/-- A member of an object, with the texts of its name and of its value. -/
structure Member where
  name : String
  value : Json
  nameText : List Char
  valueText : List Char

namespace Member

def text (m : Member) : List Char := m.nameText ++ ':' :: m.valueText

def pair (m : Member) : String × Json := (m.name, m.value)

end Member

inductive Compact : Nat → List Char → Json → Prop where
  | null {d : Nat} : Compact (d + 1) "null".toList .null
  | yes {d : Nat} : Compact (d + 1) "true".toList (.bool true)
  | no {d : Nat} : Compact (d + 1) "false".toList (.bool false)
  /-- Integers of 64 bits, with or without a sign. -/
  | int {d : Nat} {t : List Char} {n : Int} (h : Integer t n) (hlow : -0x8000000000000000 ≤ n)
      (hhigh : n < 0x10000000000000000) : Compact (d + 1) t (.int n)
  | str {d : Nat} {t : List Char} {s : String} (h : Quoted t s) : Compact (d + 1) t (.str s)
  | arr {d : Nat} {l : List (List Char × Json)} (h : ∀ p ∈ l, Compact d p.1 p.2) :
      Compact (d + 1) ('[' :: separated (l.map (·.1)) ++ [']']) (.arr (l.map (·.2)))
  | obj {d : Nat} {l : List Member} (hnames : (l.map Member.name).Nodup)
      (hquoted : ∀ m ∈ l, Quoted m.nameText m.name) (h : ∀ m ∈ l, Compact d m.valueText m.value) :
      Compact (d + 1) ('\x7b' :: separated (l.map Member.text) ++ ['\x7d']) (.obj (l.map Member.pair))

theorem Spelled.length_pos {t : List Char} {c : Char} (h : Spelled t c) : 0 < t.length := by
  cases h <;> exact Nat.succ_pos _

theorem Inside.length_le {ts cs : List Char} (h : Inside ts cs) : cs.length ≤ ts.length := by
  induction h with
  | nil => exact Nat.le_refl 0
  | cons h _ ih =>
    have := h.length_pos
    rw [List.length_append, List.length_cons]
    omega

/-! ## What the writer writes -/

theorem spelled_escapeChar (c : Char) : Spelled (escapeChar c) c := by
  unfold escapeChar
  split
  · subst c
    exact .short (by decide)
  split
  · subst c
    exact .short (by decide)
  split
  · subst c
    exact .short (by decide)
  split
  · subst c
    exact .short (by decide)
  split
  · subst c
    exact .short (by decide)
  have hofNat {n : Nat} (h : c.toNat = n) : c = Char.ofNat n := h ▸ (Char.ofNat_toNat c).symm
  split
  · rename_i h
    exact hofNat h ▸ .short (by decide)
  split
  · rename_i h
    exact hofNat h ▸ .short (by decide)
  split
  · rename_i h
    have hhigh := Bytes.hexValue?_hexDigit (show c.toNat / 16 < 16 by omega)
    have hlow := Bytes.hexValue?_hexDigit (show c.toNat % 16 < 16 by omega)
    have hn : ((0 * 16 + 0) * 16 + c.toNat / 16) * 16 + c.toNat % 16 = c.toNat := by omega
    have hspelled := Spelled.numbered (a := '0') (b := '0') (w := 0) (x := 0) rfl rfl hhigh hlow
      (by unfold IsSurrogate; omega)
    rwa [hn, Char.ofNat_toNat] at hspelled
  · rename_i hquote hslash _ _ _ _ _ hlow
    exact .plain (Nat.le_of_not_lt hlow) hquote hslash

theorem inside_flatMap (cs : List Char) : Inside (cs.flatMap escapeChar) cs := by
  induction cs with
  | nil => exact .nil
  | cons c cs ih => exact .cons (spelled_escapeChar c) ih

theorem quoted_quoteChars (s : String) : Quoted (quoteChars s) s := .intro (inside_flatMap s.toList)

/-- Only zero begins with the digit zero. -/
theorem eq_zero_of_head?_toDigits {n : Nat} (h : (Nat.toDigits 10 n).head? = some '0') : n = 0 := by
  induction n using Nat.strongRecOn with
  | ind n ih =>
    rcases Nat.lt_or_ge n 10 with hn | hn
    · have hall : ∀ m < 10, m.digitChar = '0' → m = 0 := by decide
      rw [Nat.toDigits_of_lt_base hn] at h
      exact hall n hn (Option.some.inj h)
    · obtain ⟨c, r, hd⟩ := List.exists_cons_of_ne_nil (Nat.toDigits_ne_nil (n := n / 10) (b := 10))
      rw [Nat.toDigits_of_base_le (by decide) hn, hd] at h
      have := ih (n / 10) (by omega) (hd ▸ h)
      omega

theorem decimal_toDigits (n : Nat) : Decimal (Nat.toDigits 10 n) n where
  digits _ hc := Nat.isDigit_of_mem_toDigits (by decide) (by decide) hc
  nonempty := Nat.toDigits_ne_nil
  leading h := by
    rw [eq_zero_of_head?_toDigits h]
    rfl
  value := Nat.ofDigitChars_ten_toDigits

theorem integer_intChars (n : Int) : Integer (intChars n) n := by
  unfold intChars
  split
  · rename_i hneg
    have h := Integer.negative (decimal_toDigits n.natAbs) (by omega)
    rwa [show -(n.natAbs : Int) = n by omega] at h
  · rename_i hneg
    have h := Integer.natural (decimal_toDigits n.toNat)
    rwa [show (n.toNat : Int) = n by omega] at h

theorem itemChars_eq (l : List Json) : itemChars l = (l.map chars).flatMap (',' :: ·) := by
  induction l with
  | nil => simp [itemChars]
  | cons v l ih => simp [itemChars, ih]

theorem chars_arr (l : List Json) : chars (.arr l) = '[' :: separated (l.map chars) ++ [']'] := by
  cases l with
  | nil => simp [chars, separated]
  | cons v l => simp [chars, separated, itemChars_eq]

/-- A member as it is written. -/
def Member.written (m : String × Json) : Member := ⟨m.1, m.2, quoteChars m.1, chars m.2⟩

theorem memberChars_eq (l : List (String × Json)) :
    memberChars l = (l.map fun m => (Member.written m).text).flatMap (',' :: ·) := by
  induction l with
  | nil => simp [memberChars]
  | cons m l ih => simp [memberChars, ih, Member.text, Member.written]

theorem chars_obj (l : List (String × Json)) :
    chars (.obj l) = '\x7b' :: separated (l.map fun m => (Member.written m).text) ++ ['\x7d'] := by
  cases l with
  | nil => simp [chars, separated]
  | cons m l => simp [chars, separated, memberChars_eq, Member.text, Member.written]

/-- The writer's text of the value is compact. -/
def Writes (d : Nat) (v : Json) : Prop := Compact d (chars v) v

theorem writes_str {d : Nat} (s : String) : Writes (d + 1) (.str s) := by
  rw [Writes, chars]
  exact .str (quoted_quoteChars s)

theorem writes_int {d : Nat} {n : Int} (hlow : -0x8000000000000000 ≤ n)
    (hhigh : n < 0x10000000000000000) : Writes (d + 1) (.int n) := by
  rw [Writes, chars]
  exact .int (integer_intChars n) hlow hhigh

theorem writes_bool {d : Nat} (b : Bool) : Writes (d + 1) (.bool b) := by
  cases b with
  | true => exact .yes
  | false => exact .no

theorem writes_arr {d : Nat} {l : List Json} (h : ∀ v ∈ l, Writes d v) : Writes (d + 1) (.arr l) := by
  have hl : ∀ p ∈ l.map fun v => (chars v, v), Compact d p.1 p.2 := by
    intro p hp
    obtain ⟨v, hv, rfl⟩ := List.mem_map.1 hp
    exact h v hv
  have harr := Compact.arr hl
  simp only [List.map_map, Function.comp_def, List.map_id'] at harr
  rw [Writes, chars_arr]
  exact harr

theorem writes_obj {d : Nat} {l : List (String × Json)} (hnames : (l.map (·.1)).Nodup)
    (h : ∀ m ∈ l, Writes d m.2) : Writes (d + 1) (.obj l) := by
  have hl : ∀ m ∈ l.map Member.written, Quoted m.nameText m.name ∧ Compact d m.valueText m.value := by
    intro m hm
    obtain ⟨p, hp, rfl⟩ := List.mem_map.1 hm
    exact ⟨quoted_quoteChars p.1, h p hp⟩
  have hobj := Compact.obj (l := l.map Member.written) (by rw [List.map_map]; exact hnames)
    (fun m hm => (hl m hm).1) (fun m hm => (hl m hm).2)
  have hpairs : (l.map Member.written).map Member.pair = l := by
    rw [List.map_map]
    exact List.map_id l
  rw [List.map_map, hpairs] at hobj
  rw [Writes, chars_obj]
  exact hobj

end PingDelivery.Json
