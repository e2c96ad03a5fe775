import PingDelivery.Text.Blank

/-! # Letters, digits and controls

Letters and digits are those of ASCII and are told by their code points, as control characters are. So no
letter or digit is a control character or blank, and in lower case it stays a letter or a digit. -/

namespace PingDelivery.Text

theorem isUpper_iff {c : Char} : c.isUpper = true ↔ 65 ≤ c.toNat ∧ c.toNat ≤ 90 :=
  decide_eq_true_iff

theorem isLower_iff {c : Char} : c.isLower = true ↔ 97 ≤ c.toNat ∧ c.toNat ≤ 122 := by
  change (decide (97 ≤ c.toNat) && decide (c.toNat ≤ 122)) = true ↔ _
  rw [Bool.and_eq_true, decide_eq_true_eq, decide_eq_true_eq]

theorem isAlphanum_iff {c : Char} :
    c.isAlphanum = true ↔ (c.isUpper = true ∨ c.isLower = true) ∨ c.isDigit = true := by
  change (c.isUpper || c.isLower || c.isDigit) = true ↔ _
  rw [Bool.or_eq_true, Bool.or_eq_true]

theorem isLower_or_isDigit_toLower {c : Char} (h : c.isAlphanum = true) :
    c.toLower.isLower ∨ c.toLower.isDigit := by
  unfold Char.toLower
  split
  · rename_i hupper
    obtain ⟨hlow, hhigh⟩ := isUpper_iff.1 (decide_eq_true hupper)
    refine .inl (isLower_iff.2 ?_)
    have hcode : c.toNat = c.val.toNat := rfl
    have hsum : (c.val + 32).toNat = c.toNat + 32 := by
      rw [UInt32.toNat_add, ← hcode]
      exact Nat.mod_eq_of_lt (by change c.toNat + 32 < _; omega)
    change 97 ≤ (c.val + 32).toNat ∧ (c.val + 32).toNat ≤ 122
    omega
  · rename_i hupper
    rcases isAlphanum_iff.1 h with (h | h) | h
    · exact absurd (of_decide_eq_true h) hupper
    · exact .inl h
    · exact .inr h

theorem toLower_of_isLower_or_isDigit {c : Char} (h : c.isLower ∨ c.isDigit) : c.toLower = c := by
  unfold Char.toLower
  split
  · rename_i hupper
    have hcode := isUpper_iff.1 (decide_eq_true hupper)
    rcases h with h | h
    · have hlower := isLower_iff.1 h
      omega
    · have hdigit : 48 ≤ c.toNat ∧ c.toNat ≤ 57 := Char.isDigit_iff_toNat.1 h
      omega
  · rfl

theorem isAlphanum_of_isLower_or_isDigit {c : Char} (h : c.isLower ∨ c.isDigit) :
    c.isAlphanum = true :=
  isAlphanum_iff.2 (h.imp_left .inr)

theorem isAlphanum_of_isBlank {c : Char} (h : isBlank c = true) : c.isAlphanum = false := by
  refine Bool.eq_false_iff.2 fun halnum => ?_
  simp only [isBlank, Bool.or_eq_true, Bool.and_eq_true, decide_eq_true_eq, beq_iff_eq] at h
  rcases isAlphanum_iff.1 halnum with (hc | hc) | hc
  · have hcode := isUpper_iff.1 hc
    omega
  · have hcode := isLower_iff.1 hc
    omega
  · have hcode : 48 ≤ c.toNat ∧ c.toNat ≤ 57 := Char.isDigit_iff_toNat.1 hc
    omega

theorem isControl_eq_false_iff {c : Char} :
    isControl c = false ↔ 32 ≤ c.toNat ∧ (c.toNat < 127 ∨ 160 ≤ c.toNat) := by
  simp only [isControl, Bool.or_eq_false_iff, Bool.and_eq_false_iff, decide_eq_false_iff_not]
  omega

theorem isControl_of_isDigit {c : Char} (h : c.isDigit = true) : isControl c = false := by
  have hcode : 48 ≤ c.toNat ∧ c.toNat ≤ 57 := Char.isDigit_iff_toNat.1 h
  rw [isControl_eq_false_iff]
  omega

theorem isControl_of_isAlphanum {c : Char} (h : c.isAlphanum = true) : isControl c = false := by
  rw [isControl_eq_false_iff]
  rcases isAlphanum_iff.1 h with (h | h) | h
  · have hcode := isUpper_iff.1 h
    omega
  · have hcode := isLower_iff.1 h
    omega
  · exact isControl_eq_false_iff.1 (isControl_of_isDigit h)

/-! ## Text without control characters -/

def Printable (s : String) : Prop := ∀ c ∈ s.toList, isControl c = false

theorem printable_iff_all {s : String} : Printable s ↔ s.toList.all (!isControl ·) = true := by
  simp only [Printable, List.all_eq_true, Bool.not_eq_true']

instance (s : String) : Decidable (Printable s) := decidable_of_iff _ printable_iff_all.symm

theorem printable_append {s t : String} : Printable (s ++ t) ↔ Printable s ∧ Printable t := by
  simp only [Printable, String.toList_append, List.mem_append, or_imp, forall_and]

theorem printable_toString (n : Nat) : Printable (toString n) := by
  intro c hc
  have hdigits : (toString n).toList = Nat.toDigits 10 n := by
    rw [Nat.toString_eq_repr, Nat.toList_repr]
  rw [hdigits] at hc
  exact isControl_of_isDigit (Nat.isDigit_of_mem_toDigits (by decide) (by decide) hc)

theorem printable_getD {l : List String} (h : ∀ s ∈ l, Printable s) (i : Nat) :
    Printable (l[i]?.getD "") := by
  cases hi : l[i]? with
  | none => exact fun c hc => by cases hc
  | some s => exact h s (List.mem_of_getElem? hi)

end PingDelivery.Text
