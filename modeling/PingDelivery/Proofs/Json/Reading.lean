import PingDelivery.Json.Reader
import PingDelivery.Proofs.Json.Compact
import Mathlib.Data.List.TakeWhile

/-! # Compact texts are read back

The reader takes a compact text of a value, whatever follows it, and gives the value: `takes_value`. A
value ends where its grammar says, numbers alone excepted, whose end is seen by what follows; in a
compact text that is a comma, a closing bracket or nothing (`Stops`). The loops over items and members
have fuel for the rest of the text, and every item has a character at least.
-/

namespace PingDelivery.Json.Reader

/-- The reader takes the front of the text and leaves the rest. -/
def Takes {α : Type} (r : Reader α) (s : List Char) (a : α) (rest : List Char) : Prop :=
  r s = .ok (a, rest)

section
variable {α β : Type} {s s₁ s₂ : List Char} {a : α} {b : β}

theorem Takes.bind {r : Reader α} {f : α → Reader β} (h : Takes r s a s₁) (hf : Takes (f a) s₁ b s₂) :
    Takes (r >>= f) s b s₂ := by
  change (r s >>= fun x => f x.1 x.2) = .ok (b, s₂)
  rw [h]
  exact hf

theorem takes_pure (a : α) (s : List Char) : Takes (pure a) s a s := rfl

theorem takes_get (s : List Char) : Takes get s s s := rfl

theorem takes_set (s s' : List Char) : Takes (set s') s () s' := rfl

theorem takes_lift {x : Except Fault α} (h : x = .ok a) (s : List Char) :
    Takes (liftM x : Reader α) s a s := by
  rw [h]
  rfl

theorem takes_drop (n : Nat) (s : List Char) : Takes (drop n) s () (s.drop n) := rfl

theorem takes_peek {c : Char} (hc : isSpace c = false) (s : List Char) :
    Takes peek (c :: s) (some c) (c :: s) := by
  have hskip : (c :: s).dropWhile isSpace = c :: s := List.dropWhile_cons_of_neg (by simp [hc])
  change Except.ok (((c :: s).dropWhile isSpace).head?, (c :: s).dropWhile isSpace) = _
  rw [hskip]
  rfl

theorem takes_word (w s : List Char) : Takes (word w) (w ++ s) () s := by
  induction w with
  | nil => exact takes_pure () s
  | cons c w ih =>
    refine (takes_get _).bind ?_
    simp only [List.cons_append, if_true]
    exact (takes_set _ _).bind ih

end

/-- What may follow a value in a compact text. -/
def Stops (s : List Char) : Prop := ∀ c ∈ s.head?, c = ',' ∨ c = ']' ∨ c = '\x7d'

theorem stops_nil : Stops [] := fun _ h => by cases h

theorem stops_comma (s : List Char) : Stops (',' :: s) := fun _ h => by
  cases h
  exact .inl rfl

theorem stops_bracket (s : List Char) : Stops (']' :: s) := fun _ h => by
  cases h
  exact .inr (.inl rfl)

theorem stops_brace (s : List Char) : Stops ('\x7d' :: s) := fun _ h => by
  cases h
  exact .inr (.inr rfl)

/-! ## Numbers -/

theorem takes_digits {ds s : List Char} (hd : ∀ c ∈ ds, c.isDigit = true) (hs : Stops s) :
    Takes digits (ds ++ s) ds s := by
  have htake : (ds ++ s).takeWhile Char.isDigit = ds := by
    rw [List.takeWhile_append_of_pos hd]
    cases s with
    | nil => simp
    | cons c s => rcases hs c rfl with rfl | rfl | rfl <;> simp
  change Except.ok ((ds ++ s).takeWhile Char.isDigit,
    (ds ++ s).drop ((ds ++ s).takeWhile Char.isDigit).length) = _
  rw [htake, List.drop_left]

theorem takes_wholePart {ds s : List Char} {n : Nat} (hd : Decimal ds n) (hs : Stops s) :
    Takes (wholePart false) (ds ++ s) ds s := by
  refine (takes_digits hd.digits hs).bind ?_
  split
  · exact absurd rfl hd.nonempty
  · rename_i c r
    cases hd.leading rfl
  · exact takes_pure _ _

theorem takes_fractionPart {s : List Char} (hs : Stops s) : Takes (fractionPart false) s none s := by
  refine (takes_get s).bind ?_
  split
  · rcases hs '.' rfl with h | h | h <;> cases h
  · exact takes_pure _ _

theorem takes_exponentPart {s : List Char} (hs : Stops s) : Takes (exponentPart false) s none s := by
  refine (takes_get s).bind ?_
  split
  · rename_i c r
    have hc : c ≠ 'e' ∧ c ≠ 'E' := by rcases hs c rfl with rfl | rfl | rfl <;> decide
    rw [if_pos hc]
    exact takes_pure _ _
  · exact takes_pure _ _

/-- The rest of a number whose sign has been taken. -/
theorem takes_unsigned {ds s : List Char} {n : Nat} (negative : Bool) (hd : Decimal ds n)
    (hs : Stops s) : Takes (do
      let whole ← wholePart false
      let fraction ← fractionPart false
      let exponent ← exponentPart false
      return (⟨negative, whole, fraction, exponent⟩ : Numeral)) (ds ++ s) ⟨negative, ds, none, none⟩ s :=
  (takes_wholePart hd hs).bind ((takes_fractionPart hs).bind
    ((takes_exponentPart hs).bind (takes_pure _ _)))

theorem takes_numeral {t s : List Char} {n : Int} (h : Integer t n) (hlow : -0x8000000000000000 ≤ n)
    (hhigh : n < 0x10000000000000000) (hs : Stops s) :
    ∃ k : Numeral, k.int? = some n ∧ Takes (numeral false) (t ++ s) k s := by
  cases h with
  | @natural _ n hd =>
    refine ⟨⟨false, t, none, none⟩, ?_, ?_⟩
    · have hv : naturalOf t = n := hd.value
      simp only [Numeral.int?, hv, Option.isSome_none, Bool.or_self, Bool.false_eq_true, if_false]
      rw [if_pos (by omega)]
    · refine (takes_get _).bind ?_
      split
      · rename_i r heq
        obtain ⟨c, ds', rfl⟩ := List.exists_cons_of_ne_nil hd.nonempty
        cases heq
        exact absurd (hd.digits '-' List.mem_cons_self) (by decide)
      · exact takes_unsigned false hd hs
  | @negative ds n hd hn =>
    refine ⟨⟨true, ds, none, none⟩, ?_, ?_⟩
    · have hv : naturalOf ds = n := hd.value
      simp only [Numeral.int?, hv, Option.isSome_none, Bool.or_self, Bool.false_eq_true, if_false,
        if_true]
      rw [if_pos ⟨hn, by omega⟩]
    · refine (takes_get _).bind ?_
      exact (takes_set _ _).bind (takes_unsigned true hd hs)

theorem takes_numberValue {t s : List Char} {n : Int} (h : Integer t n)
    (hlow : -0x8000000000000000 ≤ n) (hhigh : n < 0x10000000000000000) (hs : Stops s) :
    Takes numberValue (t ++ s) (.int n) s := by
  obtain ⟨k, hint, hk⟩ := takes_numeral h hlow hhigh hs
  have hnumber : Takes number (t ++ s) k s := by
    refine hk.bind ?_
    rw [hint]
    exact takes_pure _ _
  refine hnumber.bind ?_
  rw [hint]
  exact takes_pure _ _

/-! ## Strings -/

theorem hexFour_cons {a b c d : Char} {w x y z : Nat} (ha : Bytes.hexValue? a = some w)
    (hb : Bytes.hexValue? b = some x) (hc : Bytes.hexValue? c = some y)
    (hd : Bytes.hexValue? d = some z) (s : List Char) :
    hexFour (a :: b :: c :: d :: s) = .ok (((w * 16 + x) * 16 + y) * 16 + z, s) := by
  have hsize : ¬ [a, b, c, d].foldl (fun n c => n + c.utf8Size) 0 < 4 := by
    have := a.utf8Size_pos
    have := b.utf8Size_pos
    have := c.utf8Size_pos
    have := d.utf8Size_pos
    simp only [List.foldl_cons, List.foldl_nil]
    omega
  have hvalues : [a, b, c, d].mapM Bytes.hexValue? = some [w, x, y, z] := by
    simp [ha, hb, hc, hd]
  have hfour : (a :: b :: c :: d :: s).take 4 = [a, b, c, d] := rfl
  simp only [hexFour, hfour, hvalues, if_neg hsize]
  rfl

/-- An escape is read whole. -/
theorem escapeAt_cons {e c : Char} (h : (e, c) ∈ shortEscapes) (s : List Char) :
    escapeAt false (e :: s) = .ok (c, s) := by
  simp only [shortEscapes, List.mem_cons, Prod.mk.injEq, List.not_mem_nil, or_false] at h
  rcases h with ⟨rfl, rfl⟩ | ⟨rfl, rfl⟩ | ⟨rfl, rfl⟩ | ⟨rfl, rfl⟩ | ⟨rfl, rfl⟩ | ⟨rfl, rfl⟩ |
    ⟨rfl, rfl⟩ | ⟨rfl, rfl⟩ <;> rfl

theorem stringBody_spelled {t : List Char} {c : Char} (h : Spelled t c) (fuel : Nat)
    (acc s : List Char) :
    stringBody false (fuel + 1) acc (t ++ s) = stringBody false fuel (c :: acc) s := by
  cases h with
  | plain hlow hquote hslash =>
    simp only [List.cons_append, List.nil_append, stringBody]
    rw [if_neg hquote, if_neg hslash, if_neg (Nat.not_lt.2 hlow)]
  | short h =>
    simp only [List.cons_append, List.nil_append, stringBody, escapeAt_cons h]
    rfl
  | @numbered a b c d w x y z ha hb hc hd hn =>
    have hunicode : escapeAt false ('u' :: a :: b :: c :: d :: s) =
        .ok (Char.ofNat (((w * 16 + x) * 16 + y) * 16 + z), s) := by
      have hlow : ¬ isLowSurrogate (((w * 16 + x) * 16 + y) * 16 + z) = true := by
        simp only [isLowSurrogate, Bool.and_eq_true, decide_eq_true_eq]
        exact fun h => hn ⟨by omega, h.2⟩
      have hhigh : ¬ isHighSurrogate (((w * 16 + x) * 16 + y) * 16 + z) = true := by
        simp only [isHighSurrogate, Bool.and_eq_true, decide_eq_true_eq]
        exact fun h => hn ⟨h.1, by omega⟩
      simp only [escapeAt, Bool.false_eq_true, if_false, unicodeEscape, hexFour_cons ha hb hc hd]
      change (if _ then _ else if _ then _ else _) = _
      rw [if_neg hlow, if_neg hhigh]
    simp only [List.cons_append, List.nil_append, stringBody, hunicode]
    rfl

theorem stringBody_inside {ts cs : List Char} (h : Inside ts cs) (fuel : Nat) (acc s : List Char)
    (hfuel : cs.length < fuel) :
    stringBody false fuel acc (ts ++ '"' :: s) = .ok (acc.reverse ++ cs, s) := by
  induction h generalizing fuel acc with
  | nil =>
    cases fuel with
    | zero => exact absurd hfuel (Nat.not_lt_zero _)
    | succ fuel => simp [stringBody]
  | cons h hs ih =>
    cases fuel with
    | zero => exact absurd hfuel (Nat.not_lt_zero _)
    | succ fuel =>
      rw [List.append_assoc, stringBody_spelled h, ih fuel _ (Nat.lt_of_succ_lt_succ hfuel)]
      simp

theorem takes_quoted {t : List Char} {x : String} (h : Quoted t x) (s : List Char) :
    Takes (quoted false) (t ++ s) x s := by
  cases h with
  | @intro ts x h =>
    have hlength := h.length_le
    have htext : ('"' :: ts ++ ['"'] ++ s).drop 1 = ts ++ '"' :: s := by simp
    have hbody := stringBody_inside h (('"' :: ts ++ ['"'] ++ s).length + 1) [] s (by
      simp only [List.length_append, List.length_cons]
      omega)
    rw [← htext] at hbody
    refine (takes_get _).bind ((takes_lift hbody _).bind ((takes_set _ _).bind ?_))
    rw [List.reverse_nil, List.nil_append, String.ofList_toList]
    exact takes_pure _ _

/-! ## Items and members -/

/-- The text begins with a character that is neither blank nor a closing bracket. -/
def Starts (t : List Char) : Prop := ∃ c r, t = c :: r ∧ isSpace c = false ∧ c ≠ ']'

theorem takes_bound (s : List Char) : Takes bound s (s.length + 1) s := rfl

section
variable {α : Type} {item : Reader α} {l : List (List Char × α)}

/-- The items behind the first one. -/
theorem takes_items_more (hstarts : ∀ p ∈ l, Starts p.1)
    (hitem : ∀ p ∈ l, ∀ s, Stops s → Takes item (p.1 ++ s) p.2 s) (fuel : Nat) (acc : List α)
    (s : List Char) (hfuel : l.length < fuel) :
    Takes (items item fuel false acc) ((l.map (·.1)).flatMap (',' :: ·) ++ ']' :: s)
      (acc.reverse ++ l.map (·.2)) (']' :: s) := by
  induction l generalizing fuel acc with
  | nil =>
    cases fuel with
    | zero => exact absurd hfuel (Nat.not_lt_zero _)
    | succ fuel =>
      rw [List.map_nil, List.map_nil, List.append_nil]
      exact (takes_peek rfl s).bind (takes_pure _ _)
  | cons p l ih =>
    cases fuel with
    | zero => exact absurd hfuel (Nat.not_lt_zero _)
    | succ fuel =>
      obtain ⟨c, r, hc, hspace, hclose⟩ := hstarts p List.mem_cons_self
      have hrest := ih (fun q hq => hstarts q (List.mem_cons_of_mem _ hq))
        (fun q hq => hitem q (List.mem_cons_of_mem _ hq)) fuel (p.2 :: acc)
        (Nat.lt_of_succ_lt_succ hfuel)
      have hp := hitem p List.mem_cons_self ((l.map (·.1)).flatMap (',' :: ·) ++ ']' :: s) (by
        cases l with
        | nil => exact stops_bracket s
        | cons q l => exact stops_comma _)
      rw [List.reverse_cons, List.append_assoc] at hrest
      rw [hc] at hp
      simp only [List.map_cons, List.flatMap_cons, List.cons_append, List.append_assoc, hc] at hp ⊢
      refine (takes_peek rfl _).bind ((takes_drop 1 _).bind ((takes_peek hspace _).bind ?_))
      split
      · contradiction
      · rename_i heq
        exact absurd (Option.some.inj heq) hclose
      · exact hp.bind hrest

theorem takes_items (hstarts : ∀ p ∈ l, Starts p.1)
    (hitem : ∀ p ∈ l, ∀ s, Stops s → Takes item (p.1 ++ s) p.2 s) (fuel : Nat) (s : List Char)
    (hfuel : l.length < fuel) :
    Takes (items item fuel true []) (separated (l.map (·.1)) ++ ']' :: s) (l.map (·.2))
      (']' :: s) := by
  cases fuel with
  | zero => exact absurd hfuel (Nat.not_lt_zero _)
  | succ fuel =>
    cases l with
    | nil => exact (takes_peek rfl s).bind (takes_pure _ _)
    | cons p l =>
      obtain ⟨c, r, hc, hspace, hclose⟩ := hstarts p List.mem_cons_self
      have hrest := takes_items_more (fun q hq => hstarts q (List.mem_cons_of_mem _ hq))
        (fun q hq => hitem q (List.mem_cons_of_mem _ hq)) fuel [p.2] s
        (Nat.lt_of_succ_lt_succ hfuel)
      have hp := hitem p List.mem_cons_self ((l.map (·.1)).flatMap (',' :: ·) ++ ']' :: s) (by
        cases l with
        | nil => exact stops_bracket s
        | cons q l => exact stops_comma _)
      rw [hc] at hp
      simp only [List.map_cons, separated, List.cons_append, List.append_assoc, hc] at hp ⊢
      refine (takes_peek hspace _).bind ?_
      split
      · contradiction
      · rename_i heq
        exact absurd (Option.some.inj heq) hclose
      · exact hp.bind hrest

end

theorem takes_colon (s : List Char) : Takes colon (':' :: s) () s :=
  (takes_peek rfl s).bind (takes_drop 1 _)

/-- A member of an object whose values are read by `r`. -/
def pairOf (r : Reader Json) (k : String) (acc : List (String × Json)) :
    Reader (List (String × Json)) := do
  colon
  return (k, ← r) :: acc

section
variable {r : Reader Json}

theorem takes_member {m : Member} {s : List Char} (acc : List (String × Json))
    (h : Takes r (m.valueText ++ s) m.value s) :
    Takes (pairOf r m.name acc) (':' :: m.valueText ++ s) (m.pair :: acc) s :=
  (takes_colon _).bind (h.bind (takes_pure _ _))

theorem takes_key_first {t : List Char} {k : String} (h : Quoted t k) (s : List Char) :
    Takes (key? false true) (t ++ s) (some k) s := by
  have hq := takes_quoted h s
  cases h with
  | intro h => exact (takes_peek rfl _).bind (hq.bind (takes_pure _ _))

theorem takes_key_more {t : List Char} {k : String} (h : Quoted t k) (s : List Char) :
    Takes (key? false false) (',' :: t ++ s) (some k) s := by
  have hq := takes_quoted h s
  cases h with
  | intro h =>
    exact (takes_peek rfl _).bind ((takes_drop 1 _).bind
      ((takes_peek rfl _).bind (hq.bind (takes_pure _ _))))

variable {l : List Member}

theorem takes_members_more (hquoted : ∀ m ∈ l, Quoted m.nameText m.name)
    (hvalue : ∀ m ∈ l, ∀ s, Stops s → Takes r (m.valueText ++ s) m.value s) (fuel : Nat)
    (acc : List (String × Json)) (s : List Char) (hfuel : l.length < fuel) :
    Takes (members false (pairOf r) fuel false acc)
      ((l.map Member.text).flatMap (',' :: ·) ++ '\x7d' :: s) ((l.map Member.pair).reverse ++ acc)
      ('\x7d' :: s) := by
  induction l generalizing fuel acc with
  | nil =>
    cases fuel with
    | zero => exact absurd hfuel (Nat.not_lt_zero _)
    | succ fuel => exact ((takes_peek rfl s).bind (takes_pure none _)).bind (takes_pure _ _)
  | cons m l ih =>
    cases fuel with
    | zero => exact absurd hfuel (Nat.not_lt_zero _)
    | succ fuel =>
      have hrest := ih (fun q hq => hquoted q (List.mem_cons_of_mem _ hq))
        (fun q hq => hvalue q (List.mem_cons_of_mem _ hq)) fuel (m.pair :: acc)
        (Nat.lt_of_succ_lt_succ hfuel)
      have hv := hvalue m List.mem_cons_self ((l.map Member.text).flatMap (',' :: ·) ++ '\x7d' :: s)
        (by
          cases l with
          | nil => exact stops_brace s
          | cons q l => exact stops_comma _)
      rw [List.map_cons, List.map_cons, List.flatMap_cons, List.append_assoc, List.reverse_cons,
        List.append_assoc, Member.text, ← List.cons_append, List.append_assoc]
      exact (takes_key_more (hquoted m List.mem_cons_self) _).bind
        ((takes_member acc hv).bind hrest)

theorem takes_members (hquoted : ∀ m ∈ l, Quoted m.nameText m.name)
    (hvalue : ∀ m ∈ l, ∀ s, Stops s → Takes r (m.valueText ++ s) m.value s) (fuel : Nat)
    (s : List Char) (hfuel : l.length < fuel) :
    Takes (members false (pairOf r) fuel true []) (separated (l.map Member.text) ++ '\x7d' :: s)
      (l.map Member.pair).reverse ('\x7d' :: s) := by
  cases fuel with
  | zero => exact absurd hfuel (Nat.not_lt_zero _)
  | succ fuel =>
    cases l with
    | nil => exact ((takes_peek rfl s).bind (takes_pure none _)).bind (takes_pure _ _)
    | cons m l =>
      have hrest := takes_members_more (fun q hq => hquoted q (List.mem_cons_of_mem _ hq))
        (fun q hq => hvalue q (List.mem_cons_of_mem _ hq)) fuel [m.pair] s
        (Nat.lt_of_succ_lt_succ hfuel)
      have hv := hvalue m List.mem_cons_self ((l.map Member.text).flatMap (',' :: ·) ++ '\x7d' :: s)
        (by
          cases l with
          | nil => exact stops_brace s
          | cons q l => exact stops_comma _)
      rw [List.map_cons, List.map_cons, separated, List.append_assoc, List.reverse_cons, Member.text,
        List.append_assoc]
      exact (takes_key_first (hquoted m List.mem_cons_self) _).bind
        ((takes_member [] hv).bind hrest)

end

/-! ## Values -/

theorem Starts.length_pos {t : List Char} (h : Starts t) : 0 < t.length := by
  obtain ⟨c, r, rfl, -⟩ := h
  exact Nat.succ_pos _

theorem isSpace_of_isDigit {c : Char} (h : c.isDigit = true) : isSpace c = false := by
  have hne : ∀ b : Char, b.isDigit = false → (c == b) = false := by
    intro b hb
    rw [beq_eq_false_iff_ne]
    rintro rfl
    rw [h] at hb
    cases hb
  simp [isSpace, hne]

theorem starts_of_isDigit {c : Char} (r : List Char) (h : c.isDigit = true) : Starts (c :: r) := by
  refine ⟨c, r, rfl, isSpace_of_isDigit h, ?_⟩
  rintro rfl
  cases h

theorem starts_of_compact {d : Nat} {t : List Char} {v : Json} (h : Compact d t v) : Starts t := by
  cases h with
  | null => exact ⟨_, _, rfl, rfl, by decide⟩
  | yes => exact ⟨_, _, rfl, rfl, by decide⟩
  | no => exact ⟨_, _, rfl, rfl, by decide⟩
  | int h =>
    cases h with
    | natural h =>
      obtain ⟨c, ds, rfl⟩ := List.exists_cons_of_ne_nil h.nonempty
      exact starts_of_isDigit ds (h.digits c List.mem_cons_self)
    | negative => exact ⟨_, _, rfl, rfl, by decide⟩
  | str h =>
    cases h with
    | intro => exact ⟨_, _, rfl, rfl, by decide⟩
  | arr => exact ⟨_, _, rfl, rfl, by decide⟩
  | obj => exact ⟨_, _, rfl, rfl, by decide⟩

/-- Texts of a character at least are as many as their characters at most. -/
theorem length_le_separated {ts : List (List Char)} (h : ∀ t ∈ ts, 0 < t.length) :
    ts.length ≤ (separated ts).length := by
  cases ts with
  | nil => exact Nat.le_refl 0
  | cons t ts =>
    have hmore : ∀ l : List (List Char), l.length ≤ (l.flatMap (',' :: ·)).length := by
      intro l
      induction l with
      | nil => exact Nat.le_refl 0
      | cons u l ih =>
        rw [List.flatMap_cons, List.length_append, List.length_cons, List.length_cons]
        omega
    have := hmore ts
    have := h t List.mem_cons_self
    rw [separated, List.length_append, List.length_cons]
    omega

/-- A value whose text begins as a number does is read as one. -/
theorem takes_value_number {d : Nat} {t s : List Char} {n : Int} (h : Integer t n)
    (hnumber : Takes numberValue (t ++ s) (.int n) s) : Takes (value (d + 1)) (t ++ s) (.int n) s := by
  cases h with
  | natural h =>
    obtain ⟨c, ds, rfl⟩ := List.exists_cons_of_ne_nil h.nonempty
    have hc := h.digits c List.mem_cons_self
    refine (takes_peek (isSpace_of_isDigit hc) _).bind ?_
    split <;> rename_i heq
    -- the characters other values begin with are no digits
    iterate 7 cases heq <;> cases hc
    rw [← Option.some.inj heq, if_pos (.inr hc)]
    exact hnumber
  | negative h => exact (takes_peek rfl _).bind hnumber

theorem takes_value {d : Nat} {t : List Char} {v : Json} (h : Compact d t v) (s : List Char)
    (hs : Stops s) : Takes (value d) (t ++ s) v s := by
  induction h generalizing s with
  | null => exact (takes_peek rfl _).bind ((takes_word _ s).bind (takes_pure _ _))
  | yes => exact (takes_peek rfl _).bind ((takes_word _ s).bind (takes_pure _ _))
  | no => exact (takes_peek rfl _).bind ((takes_word _ s).bind (takes_pure _ _))
  | int h hlow hhigh => exact takes_value_number h (takes_numberValue h hlow hhigh hs)
  | str h =>
    have hq := takes_quoted h s
    cases h with
    | intro => exact (takes_peek rfl _).bind (hq.bind (takes_pure _ _))
  | @arr d l h ih =>
    have hstarts : ∀ p ∈ l, Starts p.1 := fun p hp => starts_of_compact (h p hp)
    have hlength : (l.map (·.1)).length ≤ (separated (l.map (·.1))).length := by
      refine length_le_separated fun t ht => ?_
      obtain ⟨p, hp, rfl⟩ := List.mem_map.1 ht
      exact (hstarts p hp).length_pos
    rw [List.length_map] at hlength
    have hitems := takes_items hstarts ih ((separated (l.map (·.1)) ++ ']' :: s).length + 1) s (by
      rw [List.length_append]
      omega)
    rw [List.append_assoc, List.cons_append]
    exact (takes_peek rfl _).bind ((takes_drop 1 _).bind ((takes_bound _).bind
      (hitems.bind ((takes_drop 1 _).bind (takes_pure _ _)))))
  | @obj d l hnames hquoted h ih =>
    have hlength : (l.map Member.text).length ≤ (separated (l.map Member.text)).length := by
      refine length_le_separated fun t ht => ?_
      obtain ⟨m, hm, rfl⟩ := List.mem_map.1 ht
      rw [Member.text, List.length_append, List.length_cons]
      omega
    rw [List.length_map] at hlength
    have hmembers := takes_members hquoted ih
      ((separated (l.map Member.text) ++ '\x7d' :: s).length + 1) s (by
        rw [List.length_append]
        omega)
    have hl : (l.map Member.pair).reverse.reverse = l.map Member.pair := List.reverse_reverse _
    rw [List.append_assoc, List.cons_append, ← hl]
    exact (takes_peek rfl _).bind ((takes_drop 1 _).bind ((takes_bound _).bind
      (hmembers.bind ((takes_drop 1 _).bind (takes_pure _ _)))))

end Reader

/-- A text that is one compact value, nested no deeper than values may be, is read as that value. -/
theorem read_of_compact {t : List Char} {v : Json} (h : Compact Reader.maxDepth t v) :
    read (String.ofList t) = .ok v := by
  have htake := Reader.takes_value h [] Reader.stops_nil
  have hwhole : Reader.Takes (do let a ← Reader.value Reader.maxDepth; Reader.finish; return a)
      (t ++ []) v [] := htake.bind (Reader.takes_pure _ _)
  rw [List.append_nil] at hwhole
  rw [read, Reader.run, String.toList_ofList]
  exact congrArg (Except.map (·.1)) hwhole

end PingDelivery.Json
