import PingDelivery.Proofs.Text.Characters
import PingDelivery.Proofs.Url.Canonical
import PingDelivery.Submission

/-! # Slugs

A slug is made in one pass over an id that looks at no more than whether the last character became a
hyphen; blanks are taken off before it and hyphens after it. `slugChars_eq` says what comes of that: the
runs of letters and digits in the id, in lower case, with hyphens between them.
-/

namespace PingDelivery.Submission

/-! ## Words -/

/-- Words of small letters and digits, single hyphens between them. -/
def IsSlug (s : List Char) : Prop :=
  ∃ ws : List (List Char), ws ≠ [] ∧ (∀ w ∈ ws, w ≠ [] ∧ ∀ c ∈ w, c.isLower ∨ c.isDigit) ∧
    s = ['-'].intercalate ws

/-- The runs of letters and digits in a text, in lower case. -/
def words (s : List Char) : List (List Char) :=
  ((s.splitOnP (!·.isAlphanum)).filter (!·.isEmpty)).map (·.map Char.toLower)

@[simp] theorem words_nil : words [] = [] := rfl

/-- Words on either side of another character are words of their own. -/
theorem words_append_cons {c : Char} (h : c.isAlphanum = false) (s r : List Char) :
    words (s ++ c :: r) = words s ++ words r := by
  simp [words, List.splitOnP_append_cons, h]

theorem words_cons_of_not {c : Char} (h : c.isAlphanum = false) (r : List Char) :
    words (c :: r) = words r :=
  words_append_cons h [] r

/-- A letter or digit lengthens the word that it stands before, or is one alone. -/
theorem words_cons_of_isAlphanum {c : Char} (h : c.isAlphanum = true) (r : List Char) :
    words (c :: r) = if r.head?.any Char.isAlphanum then (words r).modifyHead (c.toLower :: ·)
      else [c.toLower] :: words r := by
  cases r with
  | nil => simp [words, List.splitOnP_cons_eq_if_modifyHead, h]
  | cons d r =>
    obtain ⟨w, ws, hws⟩ := List.exists_cons_of_ne_nil (List.splitOnP_ne_nil (!·.isAlphanum) r)
    cases hd : d.isAlphanum <;>
      simp [words, List.splitOnP_cons_eq_if_modifyHead, h, hd, hws]

theorem words_cons_ne_nil {c : Char} (h : c.isAlphanum = true) (r : List Char) :
    words (c :: r) ≠ [] := by
  induction r generalizing c with
  | nil =>
    rw [words_cons_of_isAlphanum h]
    exact List.cons_ne_nil _ _
  | cons d r ih =>
    rw [words_cons_of_isAlphanum h]
    split
    · rename_i hd
      obtain ⟨w, ws, hws⟩ := List.exists_cons_of_ne_nil (ih hd)
      rw [hws]
      exact List.cons_ne_nil _ _
    · exact List.cons_ne_nil _ _

theorem words_eq_nil_iff {s : List Char} : words s = [] ↔ ∀ c ∈ s, c.isAlphanum = false := by
  induction s with
  | nil => simp
  | cons c r ih =>
    cases h : c.isAlphanum with
    | false => simp [words_cons_of_not h, ih, h]
    | true =>
      refine iff_of_false (words_cons_ne_nil h r) fun hnone => ?_
      have hc := hnone c List.mem_cons_self
      rw [h] at hc
      cases hc

theorem mem_words {s w : List Char} (h : w ∈ words s) :
    w ≠ [] ∧ ∀ c ∈ w, c.isLower ∨ c.isDigit := by
  induction s generalizing w with
  | nil => cases h
  | cons c r ih =>
    cases hc : c.isAlphanum with
    | false => exact ih (words_cons_of_not hc r ▸ h)
    | true =>
      have hlower := Text.isLower_or_isDigit_toLower hc
      rw [words_cons_of_isAlphanum hc] at h
      split at h
      · cases hws : words r with
        | nil =>
          rw [hws] at h
          cases h
        | cons w' ws =>
          rw [hws] at h ih
          rcases List.mem_cons.1 h with rfl | h
          · exact ⟨List.cons_ne_nil _ _,
              List.forall_mem_cons.2 ⟨hlower, (ih List.mem_cons_self).2⟩⟩
          · exact ih (List.mem_cons_of_mem _ h)
      · rcases List.mem_cons.1 h with rfl | h
        · exact ⟨List.cons_ne_nil _ _, List.forall_mem_singleton.2 hlower⟩
        · exact ih h

theorem words_of_run {w : List Char} (hw : w ≠ []) (h : ∀ c ∈ w, c.isAlphanum = true) :
    words w = [w.map Char.toLower] := by
  have hsplit : w.splitOnP (!·.isAlphanum) = [w] :=
    List.splitOnP_eq_singleton fun c hc => by rw [h c hc]; rfl
  simp [words, hsplit, hw]

theorem words_append_of_not {t : List Char} (h : ∀ c ∈ t, c.isAlphanum = false) (s : List Char) :
    words (s ++ t) = words s := by
  cases t with
  | nil => rw [List.append_nil]
  | cons c t =>
    obtain ⟨hc, ht⟩ := List.forall_mem_cons.1 h
    rw [words_append_cons hc, words_eq_nil_iff.2 ht, List.append_nil]

theorem words_of_append_not {t : List Char} (h : ∀ c ∈ t, c.isAlphanum = false) (s : List Char) :
    words (t ++ s) = words s := by
  induction t with
  | nil => rfl
  | cons c t ih =>
    obtain ⟨hc, ht⟩ := List.forall_mem_cons.1 h
    rw [List.cons_append, words_cons_of_not hc, ih ht]

/-- Trimming takes no letter and no digit away. -/
theorem words_trim (s : List Char) : words (Text.trim s) = words s := by
  have hblank (l : List Char) : ∀ c ∈ l.takeWhile Text.isBlank, c.isAlphanum = false :=
    fun _ hc => Text.isAlphanum_of_isBlank (List.mem_takeWhile_imp hc)
  have hstart (l : List Char) : words (Text.trimStart l) = words l := by
    have hsplit : l.takeWhile Text.isBlank ++ Text.trimStart l = l := List.takeWhile_append_dropWhile
    have hwords := words_of_append_not (hblank l) (Text.trimStart l)
    rw [← hwords, hsplit]
  have hend (l : List Char) : words (Text.trimEnd l) = words l := by
    have hsplit : Text.trimEnd l ++ (l.reverse.takeWhile Text.isBlank).reverse = l := by
      rw [Text.trimEnd, ← List.reverse_append, List.takeWhile_append_dropWhile, List.reverse_reverse]
    have hback : ∀ c ∈ (l.reverse.takeWhile Text.isBlank).reverse, c.isAlphanum = false :=
      fun c hc => hblank l.reverse c (List.mem_reverse.1 hc)
    have hwords := words_append_of_not hback (Text.trimEnd l)
    rw [← hwords, hsplit]
  rw [Text.trim, hend, hstart]

/-! ## What the pass over an id gives -/

/-- A hyphen at the front comes of the first character alone. -/
theorem squeeze_false (s : List Char) : squeeze false s =
    (if s.head?.any (!·.isAlphanum) then ['-'] else []) ++ squeeze true s := by
  cases s with
  | nil => rfl
  | cons c r => cases h : c.isAlphanum <;> simp [squeeze, h]

/-- Behind a hyphen the pass gives the words, and a hyphen if anything follows the last one. -/
theorem squeeze_true (s : List Char) : ∃ t, (t = [] ∨ t = ['-'] ∧ words s ≠ []) ∧
    squeeze true s = ['-'].intercalate (words s) ++ t := by
  induction s with
  | nil => exact ⟨[], .inl rfl, rfl⟩
  | cons c r ih =>
    obtain ⟨t, ht, hr⟩ := ih
    cases hc : c.isAlphanum with
    | false =>
      refine ⟨t, ?_, ?_⟩
      · rwa [words_cons_of_not hc]
      · rw [words_cons_of_not hc, ← hr]
        simp [squeeze, hc]
    | true =>
      have hpass : squeeze true (c :: r) = c.toLower :: squeeze false r := by simp [squeeze, hc]
      rw [hpass, squeeze_false, hr, words_cons_of_isAlphanum hc]
      cases r with
      | nil =>
        refine ⟨[], .inl rfl, ?_⟩
        rcases ht with rfl | ⟨-, hne⟩
        · rfl
        · exact absurd words_nil hne
      | cons d r =>
        cases hd : d.isAlphanum with
        | true =>
          obtain ⟨w, ws, hws⟩ := List.exists_cons_of_ne_nil (words_cons_ne_nil hd r)
          refine ⟨t, ?_, ?_⟩
          · rcases ht with ht | ⟨ht, -⟩
            · exact .inl ht
            · exact .inr ⟨ht, by simp [hd, hws]⟩
          · cases ws <;> simp [hd, hws]
        | false =>
          cases hws : words (d :: r) with
          | nil =>
            rcases ht with rfl | ⟨-, hne⟩
            · exact ⟨['-'], .inr ⟨rfl, by simp [hd]⟩, by simp [hd]⟩
            · exact absurd hws hne
          | cons w ws =>
            refine ⟨t, ?_, by simp [hd]⟩
            rcases ht with ht | ⟨ht, -⟩
            · exact .inl ht
            · exact .inr ⟨ht, by simp [hd]⟩

theorem not_isHyphen {c : Char} (h : c.isLower ∨ c.isDigit) : isHyphen c = false := by
  refine Bool.eq_false_iff.2 fun hyphen => ?_
  rw [isHyphen, beq_iff_eq] at hyphen
  subst hyphen
  revert h
  decide

section
variable {ws : List (List Char)} (h : ∀ w ∈ ws, w ≠ [] ∧ ∀ c ∈ w, c.isLower ∨ c.isDigit)
include h

/-- Words put together do not start with a hyphen. -/
theorem head_intercalate (hne : ws ≠ []) :
    ∃ c r, ['-'].intercalate ws = c :: r ∧ isHyphen c = false := by
  obtain ⟨w, ws, rfl⟩ := List.exists_cons_of_ne_nil hne
  obtain ⟨hw, hchars⟩ := h w List.mem_cons_self
  obtain ⟨c, r, rfl⟩ := List.exists_cons_of_ne_nil hw
  have hc := not_isHyphen (hchars c List.mem_cons_self)
  cases ws with
  | nil => exact ⟨c, r, List.intercalate_singleton, hc⟩
  | cons w' ws => exact ⟨c, r ++ ['-'] ++ ['-'].intercalate (w' :: ws), List.intercalate_cons_cons, hc⟩

/-- They do not end with one either. -/
theorem last_intercalate (hne : ws ≠ []) :
    ∃ r c, ['-'].intercalate ws = r ++ [c] ∧ isHyphen c = false := by
  induction ws with
  | nil => exact absurd rfl hne
  | cons w ws ih =>
    cases ws with
    | nil =>
      obtain ⟨hw, hchars⟩ := h w List.mem_cons_self
      refine ⟨w.dropLast, w.getLast hw, ?_, not_isHyphen (hchars _ (List.getLast_mem hw))⟩
      rw [List.intercalate_singleton, List.dropLast_concat_getLast]
    | cons w' ws =>
      obtain ⟨r, c, hr, hc⟩ := ih (fun x hx => h x (List.mem_cons_of_mem _ hx)) (List.cons_ne_nil _ _)
      refine ⟨w ++ ['-'] ++ r, c, ?_, hc⟩
      rw [List.intercalate_cons_cons, hr, List.append_assoc _ r]

/-- Trimming leaves them as they are and takes hyphens behind them away. -/
theorem trimHyphens_intercalate (hne : ws ≠ []) {t : List Char} (ht : t = [] ∨ t = ['-']) :
    trimHyphens (['-'].intercalate ws ++ t) = ['-'].intercalate ws := by
  obtain ⟨c, r, hhead, hc⟩ := head_intercalate h hne
  obtain ⟨r', c', hlast, hc'⟩ := last_intercalate h hne
  have hfront : (['-'].intercalate ws ++ t).dropWhile isHyphen = ['-'].intercalate ws ++ t := by
    rw [hhead, List.cons_append, List.dropWhile_cons_of_neg (by rw [hc]; exact Bool.false_ne_true)]
  have hback : ((r' ++ [c']).reverse).dropWhile isHyphen = (r' ++ [c']).reverse := by
    rw [List.reverse_concat, List.dropWhile_cons_of_neg (by rw [hc']; exact Bool.false_ne_true)]
  rw [trimHyphens, hfront, hlast, List.reverse_append]
  rcases ht with rfl | rfl
  · rw [List.reverse_nil, List.nil_append, hback, List.reverse_reverse]
  · rw [List.reverse_singleton, List.singleton_append, List.dropWhile_cons_of_pos (by rfl), hback,
      List.reverse_reverse]

end

theorem trimHyphens_squeeze (s : List Char) :
    trimHyphens (squeeze false s) = ['-'].intercalate (words s) := by
  have hlead : (squeeze false s).dropWhile isHyphen = (squeeze true s).dropWhile isHyphen := by
    rw [squeeze_false]
    split
    · rw [List.singleton_append, List.dropWhile_cons_of_pos (by rfl)]
    · rfl
  obtain ⟨t, ht, hs⟩ := squeeze_true s
  cases hws : words s with
  | nil =>
    rcases ht with rfl | ⟨-, hne⟩
    · rw [trimHyphens, hlead, hs, hws]
      rfl
    · exact absurd hws hne
  | cons w ws =>
    have hne : words s ≠ [] := by
      rw [hws]
      exact List.cons_ne_nil _ _
    rw [← hws, ← trimHyphens_intercalate (fun w hw => mem_words hw) hne (ht.imp_right (·.1)), ← hs,
      trimHyphens, hlead]
    rfl

/-- **The application's part of a path**: the runs of letters and digits of the id in lower case, and
hyphens for all that stands between them. -/
theorem slugChars_eq (s : List Char) : slugChars s = ['-'].intercalate (words s) := by
  rw [slugChars, trimHyphens_squeeze, words_trim]

theorem IsSlug.ne_nil {s : List Char} (h : IsSlug s) : s ≠ [] := by
  obtain ⟨ws, hne, hwords, rfl⟩ := h
  obtain ⟨c, r, heq, -⟩ := head_intercalate hwords hne
  rw [heq]
  exact List.cons_ne_nil c r

theorem isSlug_slugChars {s : List Char} (h : ∃ c ∈ s, c.isAlphanum) : IsSlug (slugChars s) := by
  obtain ⟨c, hc, hletter⟩ := h
  refine ⟨words s, fun hnil => ?_, fun w hw => mem_words hw, slugChars_eq s⟩
  have hnone := words_eq_nil_iff.1 hnil c hc
  rw [hletter] at hnone
  cases hnone

theorem slugChars_eq_nil {s : List Char} (h : ¬ ∃ c ∈ s, c.isAlphanum) : slugChars s = [] := by
  have hnil : words s = [] := words_eq_nil_iff.2 fun c hc =>
    Bool.eq_false_iff.2 fun hletter => h ⟨c, hc, hletter⟩
  rw [slugChars_eq, hnil]
  rfl

theorem mem_slugChars {s : List Char} {c : Char} (h : c ∈ slugChars s) :
    c = '-' ∨ c.isLower ∨ c.isDigit := by
  rw [slugChars_eq] at h
  exact (mem_of_mem_intercalate h).imp_right fun ⟨_, hw, hc⟩ => (mem_words hw).2 c hc

/-! ## What a slug looks like -/

section
variable {ws : List (List Char)} (h : ∀ w ∈ ws, w ≠ [] ∧ ∀ c ∈ w, c.isLower ∨ c.isDigit)
include h

/-- Words in lower case are read back from what they are put together to. -/
theorem words_intercalate : words (['-'].intercalate ws) = ws := by
  induction ws with
  | nil => rfl
  | cons w ws ih =>
    obtain ⟨⟨hw, hchars⟩, hrest⟩ := List.forall_mem_cons.1 h
    have hlower : w.map Char.toLower = w := by
      rw [List.map_congr_left fun c hc => Text.toLower_of_isLower_or_isDigit (hchars c hc), List.map_id']
    have hword : words w = [w] := by
      rw [words_of_run hw fun c hc => Text.isAlphanum_of_isLower_or_isDigit (hchars c hc), hlower]
    cases ws with
    | nil => rw [List.intercalate_singleton, hword]
    | cons w' ws =>
      rw [List.intercalate_cons_cons, List.append_assoc, List.singleton_append,
        words_append_cons (by rfl), hword, ih hrest]
      rfl

/-- Between two hyphens stands a word. -/
theorem not_infix_intercalate : ¬ ['-', '-'] <:+: ['-'].intercalate ws := by
  rintro ⟨s, t, heq⟩
  rcases eq_or_ne ws [] with rfl | hne
  · simp at heq
  · have hsplit : (['-'].intercalate ws).splitOn '-' = ws := by
      refine List.splitOn_intercalate '-' (fun w hw hmem => ?_) hne
      exact absurd (not_isHyphen ((h w hw).2 _ hmem)) (by decide)
    have hempty : [] ∈ (['-'].intercalate ws).splitOn '-' := by
      rw [← heq, List.append_assoc]
      simp [List.splitOn, List.splitOnP_append_cons, List.splitOnP_cons_eq_if_modifyHead]
    rw [hsplit] at hempty
    exact (h [] hempty).1 rfl

end

variable (s : List Char)

theorem head?_slugChars : (slugChars s).head? ≠ some '-' := by
  rw [slugChars_eq]
  rcases eq_or_ne (words s) [] with hnil | hne
  · rw [hnil]
    exact nofun
  · obtain ⟨c, r, heq, hc⟩ := head_intercalate (fun w hw => mem_words hw) hne
    rw [heq, List.head?_cons]
    rintro ⟨⟩
    cases hc

theorem getLast?_slugChars : (slugChars s).getLast? ≠ some '-' := by
  rw [slugChars_eq]
  rcases eq_or_ne (words s) [] with hnil | hne
  · rw [hnil]
    exact nofun
  · obtain ⟨r, c, heq, hc⟩ := last_intercalate (fun w hw => mem_words hw) hne
    rw [heq, List.getLast?_concat]
    rintro ⟨⟩
    cases hc

theorem slugChars_slugChars : slugChars (slugChars s) = slugChars s := by
  rw [slugChars_eq (slugChars s), slugChars_eq s, words_intercalate fun w hw => mem_words hw]

theorem slugChars_eq_nil_iff : slugChars s = [] ↔ ∀ c ∈ s, c.isAlphanum = false := by
  constructor
  · intro hnil c hc
    refine Bool.eq_false_iff.2 fun hletter => ?_
    exact (isSlug_slugChars ⟨c, hc, hletter⟩).ne_nil hnil
  · intro hnone
    refine slugChars_eq_nil ?_
    rintro ⟨c, hc, hletter⟩
    rw [hnone c hc] at hletter
    cases hletter

/-- **Slugs.** The slug of a text is its runs of letters and digits, in lower case and in their order, with
single hyphens between them. So it has no other characters, no hyphen at either end and no two in a row; it
is empty only where the text has neither letters nor digits, and it is its own slug. -/
theorem slug_joins_words (text : String) :
    (slug text).toList = ['-'].intercalate (words text.toList) ∧
    (∀ c ∈ (slug text).toList, c = '-' ∨ c.isLower ∨ c.isDigit) ∧
    (slug text).toList.head? ≠ some '-' ∧ (slug text).toList.getLast? ≠ some '-' ∧
    ¬ ['-', '-'] <:+: (slug text).toList ∧
    (slug text = "" ↔ ∀ c ∈ text.toList, c.isAlphanum = false) ∧
    slug (slug text) = slug text := by
  have htoList : (slug text).toList = slugChars text.toList := String.toList_ofList
  have hempty : slug text = "" ↔ slugChars text.toList = [] := by
    rw [← htoList, String.toList_eq_nil_iff]
  rw [hempty, htoList]
  refine ⟨slugChars_eq _, fun c hc => mem_slugChars hc, head?_slugChars _, getLast?_slugChars _, ?_,
    slugChars_eq_nil_iff _, ?_⟩
  · rw [slugChars_eq]
    exact not_infix_intercalate fun w hw => mem_words hw
  · rw [slug, htoList, slugChars_slugChars, slug]

/-- Blanks and other characters at the ends of an id leave nothing behind, nor does a run of them more than
one hyphen. -/
example : slug "  _Org..Example  App-\n" = "org-example-app" := by decide

end PingDelivery.Submission
