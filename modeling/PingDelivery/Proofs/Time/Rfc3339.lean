import PingDelivery.Proofs.Text.Utf8
import PingDelivery.Proofs.Time.Calendar
import PingDelivery.Time.Rfc3339
import Mathlib.Algebra.Group.Nat.Defs
import Mathlib.Data.List.TakeWhile

/-! # Written times are read back

The lenient reader takes the canonical text of an instant apart into the fields it was written
with: `scanFields_chars`. Each part stops where it should because what follows it is neither a
digit nor a blank. That the fields name the instant again rests on the calendar and on the rule
that only the last second of a minute can be a leap second. -/

namespace PingDelivery.Time.Rfc3339
open Text (padded trimStart isBlank)

/-! ## Digits -/

theorem isDigit_of_mem_padded {width n : Nat} {c : Char} (h : c ∈ padded width n) :
    c.isDigit = true := by
  rcases List.mem_append.1 h with h | h
  · rw [List.eq_of_mem_replicate h]; rfl
  · exact Nat.isDigit_of_mem_toDigits (by decide) (by decide) h

theorem padded_ne_nil (width n : Nat) : padded width n ≠ [] :=
  List.append_ne_nil_of_right_ne_nil _ Nat.toDigits_ne_nil

theorem length_padded_of_lt (width : Nat) {n : Nat} (hw : 0 < width) (h : n < 10 ^ width) :
    (padded width n).length = width := by
  have := (Nat.length_toDigits_le_iff (show 1 < 10 by decide) hw).2 h
  simp only [padded, List.length_append, List.length_replicate]
  omega

theorem digitsValue_padded (width n : Nat) : digitsValue (padded width n) = n := by
  change Nat.ofDigitChars 10 (padded width n) 0 = n
  rw [padded, Nat.ofDigitChars_append, Nat.ofDigitChars_replicate_zero, Nat.mul_zero,
    Nat.ofDigitChars_ten_toDigits]

theorem isBlank_of_isDigit {c : Char} (h : c.isDigit = true) : isBlank c = false := by
  simp only [Char.isDigit, Bool.and_eq_true, decide_eq_true_eq] at h
  have h1 : 48 ≤ c.toNat := h.1
  have h2 : c.toNat ≤ 57 := h.2
  simp only [isBlank, Bool.or_eq_false_iff, Bool.and_eq_false_iff, decide_eq_false_iff_not, beq_eq_false_iff_ne]
  omega

theorem trimStart_padded (width n : Nat) (s : List Char) :
    trimStart (padded width n ++ s) = padded width n ++ s := by
  cases h : padded width n with
  | nil => exact absurd h (padded_ne_nil width n)
  | cons c r =>
    have hc := isBlank_of_isDigit (isDigit_of_mem_padded (h ▸ List.mem_cons_self : c ∈ padded width n))
    simp only [trimStart, List.cons_append, List.dropWhile_cons, hc, Bool.false_eq_true, if_false]

theorem takeWhile_padded (width n : Nat) (s : List Char) (hs : ∀ c ∈ s.head?, c.isDigit = false) :
    (padded width n ++ s).takeWhile Char.isDigit = padded width n := by
  rw [List.takeWhile_append_of_pos fun c hc => isDigit_of_mem_padded hc]
  cases s with
  | nil => simp
  | cons c s => simp [hs c (by simp)]

/-- Digits are scanned to where they end, or to the limit. -/
theorem scanDigits_padded {width n max : Nat} (s : List Char) (hmax : (padded width n).length ≤ max)
    (hs : (padded width n).length = max ∨ ∀ c ∈ s.head?, c.isDigit = false) :
    scanDigits max (padded width n ++ s) = some (n, s) := by
  have htake : (padded width n ++ s).take max =
      padded width n ++ s.take (max - (padded width n).length) := by
    rw [List.take_append, List.take_of_length_le hmax]
  have hds : ((padded width n ++ s).take max).takeWhile Char.isDigit = padded width n := by
    rw [htake]
    refine takeWhile_padded width n _ ?_
    rcases hs with hs | hs
    · rw [hs, Nat.sub_self]; simp
    · intro c hc
      rw [List.head?_take] at hc
      split at hc
      · simp at hc
      · exact hs c hc
  simp only [scanDigits, hds, digitsValue_padded, List.drop_left]
  rw [if_neg (by simpa using padded_ne_nil width n)]

theorem scanNumber_padded {n : Nat} (s : List Char) (h : n < 100) :
    scanNumber 2 (padded 2 n ++ s) = some (n, s) := by
  rw [scanNumber, trimStart_padded]
  have := length_padded_of_lt 2 (by decide) h
  exact scanDigits_padded s (by omega) (.inl this)

/-! ## The parts of a written time -/

theorem scanMark_cons {c : Char} (s : List Char) (h : isBlank c = false) :
    scanMark c (c :: s) = some ((), s) := by
  simp only [scanMark, trimStart, List.dropWhile_cons, h, Bool.false_eq_true, if_false, if_true]

theorem scanYear_yearChars (y : Int) (s : List Char) :
    scanYear (yearChars y ++ '-' :: s) = some (y, '-' :: s) := by
  have hstop : ∀ c ∈ ('-' :: s).head?, c.isDigit = false := by
    intro c hc
    simp only [List.head?_cons, Option.mem_some_iff] at hc
    subst hc
    rfl
  by_cases hy : 0 ≤ y ∧ y ≤ 9999
  · -- four digits, which the limit of four takes whole
    have hlen : (padded 4 y.toNat).length = 4 := length_padded_of_lt 4 (by decide) (by omega)
    simp only [yearChars, if_pos hy, scanYear, trimStart_padded]
    cases h : padded 4 y.toNat with
    | nil => exact absurd h (padded_ne_nil _ _)
    | cons c r =>
      have hc := isDigit_of_mem_padded (h ▸ List.mem_cons_self : c ∈ padded 4 y.toNat)
      have hscan : scanDigits 4 (padded 4 y.toNat ++ '-' :: s) = some (y.toNat, '-' :: s) :=
        scanDigits_padded ('-' :: s) hlen.le (.inl hlen)
      rw [h] at hscan
      simp only [List.cons_append] at hscan ⊢
      split
      · rename_i heq; cases heq; simp at hc
      · rename_i heq; cases heq; simp at hc
      · rw [hscan]
        simp only [Option.map_some, Option.some.injEq, Prod.mk.injEq, and_true]
        omega
  · simp only [yearChars, if_neg hy]
    by_cases hneg : y < 0
    · simp only [hneg, if_true, List.cons_append, scanYear, trimStart, List.dropWhile_cons,
        show isBlank '-' = false from rfl, Bool.false_eq_true, if_false]
      rw [scanDigits_padded _ (by simp) (.inr hstop)]
      simp only [Option.map_some, Option.some.injEq, Prod.mk.injEq, and_true]
      omega
    · simp only [hneg, if_false, List.cons_append, scanYear, trimStart, List.dropWhile_cons,
        show isBlank '+' = false from rfl, Bool.false_eq_true, if_false]
      rw [scanDigits_padded _ (by simp) (.inr hstop)]
      simp only [Option.map_some, Option.some.injEq, Prod.mk.injEq, and_true]
      omega

/-- Decimals of any number of places up to nine. -/
theorem scanFraction_padded {places n : Nat} (s : List Char) (hp : 0 < places) (h9 : places ≤ 9)
    (hn : n < 10 ^ places) (hs : ∀ c ∈ s.head?, c.isDigit = false) :
    scanFraction ('.' :: padded places n ++ s) = some (n * 10 ^ (9 - places), s) := by
  have hlen := length_padded_of_lt places hp hn
  have hds := takeWhile_padded places n s hs
  have hrest : (padded places n ++ s).drop places = s := List.drop_left' hlen
  simp only [scanFraction, List.cons_append, hds, List.take_of_length_le (hlen.le.trans h9),
    digitsValue_padded, hlen, hrest]
  rw [if_neg (by simpa using padded_ne_nil places n)]
  rfl

theorem scanFraction_fractionChars {n : Nat} (s : List Char) (hn : n < 1000000000)
    (hs : ∀ c ∈ s.head?, c.isDigit = false) (hdot : s.head? ≠ some '.') :
    scanFraction (fractionChars n ++ s) = some (n, s) := by
  unfold fractionChars
  split
  · rename_i h0
    cases s with
    | nil => rw [h0]; rfl
    | cons c s =>
      rw [h0, List.nil_append, scanFraction]
      intro r hr
      cases hr
      exact hdot rfl
  · split
    · rw [scanFraction_padded s (by decide) (by decide) (by omega) hs]
      simp only [Option.some.injEq, Prod.mk.injEq, and_true]
      omega
    · split
      · rw [scanFraction_padded s (by decide) (by decide) (by omega) hs]
        simp only [Option.some.injEq, Prod.mk.injEq, and_true]
        omega
      · rw [scanFraction_padded s (by decide) (by decide) (by omega) hs]
        simp

/-! ## A whole time -/

/-- The fields that an instant is written with. -/
def fieldsOf (t : Instant) : Fields := ⟨t.date, t.hour, t.minute, t.second, t.fraction, 0⟩

theorem secondOfDay_lt (t : Instant) : t.secondOfDay < 86400 := by
  unfold Instant.secondOfDay
  rw [Int.fmod_eq_emod_of_nonneg _ (by decide)]
  omega

theorem hour_lt (t : Instant) : t.hour < 24 := by
  have := secondOfDay_lt t
  unfold Instant.hour
  omega

theorem minute_lt (t : Instant) : t.minute < 60 := Nat.mod_lt _ (by decide)

theorem second_le (t : Instant) : t.second ≤ 60 := by
  have := t.representable.2.2
  unfold Instant.second
  omega

theorem fraction_lt (t : Instant) : t.fraction < 1000000000 := Nat.mod_lt _ (by decide)

/-- Date and clock are taken apart whatever decimals stand behind the seconds. -/
theorem scanFields_fraction (t : Instant) {decimals : List Char} {nanos : Nat}
    (h : scanFraction (decimals ++ ['Z']) = some (nanos, ['Z'])) :
    scanFields (dateChars t.date ++ 'T' :: clockChars t ++ decimals ++ ['Z']) =
      some (⟨t.date, t.hour, t.minute, t.second, nanos, 0⟩, []) := by
  obtain ⟨-, hmonth, -, hday⟩ := Date.valid_ofDays t.days
  have hday' := hday.trans (Date.daysIn_le _ _)
  have hsecond := second_le t
  have h1 := hour_lt t
  have h2 := minute_lt t
  simp only [scanFields, dateChars, clockChars, List.append_assoc, List.cons_append,
    Instant.date, scanYear_yearChars, Option.bind_eq_bind, Option.bind_some,
    scanMark_cons _ (show isBlank '-' = false from rfl),
    scanMark_cons _ (show isBlank ':' = false from rfl),
    scanNumber_padded _ (show (Date.ofDays t.days).month < 100 by omega),
    scanNumber_padded _ (show (Date.ofDays t.days).day < 100 by omega),
    scanNumber_padded _ (show t.hour < 100 by omega),
    scanNumber_padded _ (show t.minute < 100 by omega),
    scanNumber_padded _ (show t.second < 100 by omega), h]
  rfl

theorem scanFields_chars (t : Instant) : scanFields (chars t) = some (fieldsOf t, []) :=
  scanFields_fraction t (scanFraction_fractionChars ['Z'] (fraction_lt t) (by simp) (by simp))

/-! ## The instant behind the fields -/

theorem seconds_eq (t : Instant) : t.seconds = t.days * 86400 + t.secondOfDay := by
  unfold Instant.days Instant.secondOfDay
  rw [Int.fmod_eq_emod_of_nonneg _ (by decide), Int.fdiv_eq_ediv_of_nonneg _ (by decide)]
  omega

theorem secondOfDay_eq (t : Instant) :
    t.secondOfDay = t.hour * 3600 + t.minute * 60 + t.secondOfDay % 60 := by
  unfold Instant.hour Instant.minute
  omega

/-- The days of an instant lie within the years that can be written. -/
theorem days_bounds (t : Instant) :
    Date.toDays ⟨-262143, 1, 1⟩ ≤ t.days ∧ t.days ≤ Date.toDays ⟨262142, 12, 31⟩ := by
  obtain ⟨hmin, hmax, -⟩ := t.representable
  have hs := seconds_eq t
  have hd := secondOfDay_lt t
  unfold minSeconds at hmin
  unfold maxSeconds at hmax
  omega

/-- Where a leap second does not stand at the end of a minute, a second of the minute follows. -/
theorem secondOfDay_mod_lt {t : Instant} (h : ¬ t.Civil) :
    1000000000 ≤ t.nanos ∧ t.secondOfDay % 60 < 59 := by
  obtain ⟨hnanos, hseconds⟩ := Classical.not_imp.1 h
  have hs := seconds_eq t
  exact ⟨hnanos, by omega⟩

theorem seconds_lt_maxSeconds {t : Instant} (h : ¬ t.Civil) : t.seconds + 1 ≤ maxSeconds := by
  obtain ⟨-, hmax, -⟩ := t.representable
  obtain ⟨-, hseconds⟩ := Classical.not_imp.1 h
  unfold maxSeconds at hmax ⊢
  omega

end Rfc3339

/-- The instant that the written text names: a leap second within a minute is written as the second
that follows. -/
def Instant.settled (t : Instant) : Instant :=
  if h : t.Civil then t
  else ⟨t.seconds + 1, t.nanos - 1000000000, by
    obtain ⟨hmin, -, hnanos⟩ := t.representable
    exact ⟨by omega, Rfc3339.seconds_lt_maxSeconds h, by omega⟩⟩

namespace Instant

theorem settled_of_civil {t : Instant} (h : t.Civil) : t.settled = t := dif_pos h

theorem settled_of_not_civil {t : Instant} (h : ¬ t.Civil) :
    t.settled.seconds = t.seconds + 1 ∧ t.settled.nanos = t.nanos - 1000000000 := by
  rw [settled, dif_neg h]
  exact ⟨rfl, rfl⟩

theorem civil_settled (t : Instant) : t.settled.Civil := by
  by_cases h : t.Civil
  · rwa [settled_of_civil h]
  · intro hnanos
    have := t.representable.2.2
    have := (settled_of_not_civil h).2
    omega

theorem settled_eq_self_iff {t : Instant} : t.settled = t ↔ t.Civil :=
  ⟨fun h => h ▸ t.civil_settled, settled_of_civil⟩

end Instant

namespace Rfc3339

/-- The fields of a clock, read as those of an instant. -/
theorem instant?_of_clock {f : Fields} {t u : Instant} (hdate : f.date = t.date) (hhour : f.hour = t.hour)
    (hminute : f.minute = t.minute) (hsecond : f.second ≤ 60) (hoffset : f.offset = 0)
    (hclock : t.seconds - t.secondOfDay % 60 + (if f.second = 60 then 59 else f.second : Nat) = u.seconds)
    (hnanos : (if f.second = 60 then f.nanos + 1000000000 else f.nanos) = u.nanos) (hu : u.Civil) :
    f.instant? = some u := by
  obtain ⟨hy, hy'⟩ := Date.year_ofDays_bounds (days_bounds t).1 (days_bounds t).2
  have hh := hour_lt t
  have hm := minute_lt t
  have hseconds : t.days * 86400 + ((t.hour : Int) * 3600 + t.minute * 60 +
      (if f.second = 60 then 59 else f.second : Nat)) - 0 = u.seconds := by
    have := seconds_eq t
    have := secondOfDay_eq t
    omega
  have hzero : -86400 < (0 : Int) ∧ (0 : Int) < 86400 := by decide
  unfold Fields.instant?
  rw [hdate, hhour, hminute, hoffset, if_pos ⟨Date.valid_ofDays t.days, hy, hy', Nat.le_of_lt_succ hh,
    Nat.le_of_lt_succ hm, hsecond, hzero⟩]
  change Instant.make? ((Date.ofDays t.days).toDays * 86400 + ((t.hour : Int) * 3600 + t.minute * 60 +
    (if f.second = 60 then 59 else f.second : Nat)) - 0)
    (if f.second = 60 then f.nanos + 1000000000 else f.nanos) = some u
  rw [Date.toDays_ofDays, hnanos, hseconds, Instant.make?, dif_pos ⟨u.representable, hu⟩]

theorem instant?_fieldsOf (t : Instant) : (fieldsOf t).instant? = some t.settled := by
  have hbound := t.representable.2.2
  have hsixty : t.secondOfDay % 60 < 60 := Nat.mod_lt _ (by decide)
  have hsecond : (fieldsOf t).second = t.secondOfDay % 60 + t.nanos / 1000000000 := rfl
  have hfraction : (fieldsOf t).nanos = t.nanos % 1000000000 := rfl
  by_cases h : t.Civil
  · have hleap : 1000000000 ≤ t.nanos → t.secondOfDay % 60 = 59 := by
      intro hnanos
      have := h hnanos
      have := seconds_eq t
      omega
    rw [Instant.settled_of_civil h]
    refine instant?_of_clock (t := t) rfl rfl rfl (second_le t) rfl ?_ ?_ h
    · split <;> omega
    · split <;> omega
  · -- the second that is written is the next one, and it is no leap second
    obtain ⟨hnanos, hlt⟩ := secondOfDay_mod_lt h
    obtain ⟨hseconds, hrest⟩ := Instant.settled_of_not_civil h
    refine instant?_of_clock (t := t) rfl rfl rfl (second_le t) rfl ?_ ?_ t.civil_settled
    · rw [hseconds]
      split <;> omega
    · rw [hrest]
      split <;> omega

/-- **A written time is read back**, in every year and in the leap second of a minute too. -/
theorem read?_write (t : Instant) : read? (write t) = some t.settled := by
  simp only [read?, write, String.toList_ofList, readChars?, scanFields_chars, Option.bind_eq_bind,
    Option.bind_some, List.all_nil, if_true]
  exact instant?_fieldsOf t

theorem civil_of_make? {seconds : Int} {nanos : Nat} {t : Instant}
    (h : Instant.make? seconds nanos = some t) : t.Civil := by
  unfold Instant.make? at h
  split at h
  · rename_i hmake
    cases h
    exact hmake.2
  · cases h

theorem civil_of_instant? {f : Fields} {t : Instant} (h : f.instant? = some t) : t.Civil := by
  obtain ⟨-, hmake⟩ := Option.ite_none_right_eq_some.1 h
  exact civil_of_make? hmake

/-- What is read is on a clock. -/
theorem civil_of_read? {s : String} {t : Instant} (h : read? s = some t) : t.Civil := by
  obtain ⟨⟨f, rest⟩, -, h⟩ := Option.bind_eq_some_iff.1 h
  obtain ⟨-, hinstant⟩ := Option.ite_none_right_eq_some.1 h
  exact civil_of_instant? hinstant

/-! ## Times in milliseconds -/

theorem representable_millis (t : Instant) :
    Representable t.seconds (t.nanos - t.nanos % 1000000) := by
  obtain ⟨hmin, hmax, hnanos⟩ := t.representable
  exact ⟨hmin, hmax, by omega⟩

end Rfc3339

/-- The instant without what is finer than a millisecond. -/
def Instant.wholeMillis (t : Instant) : Instant :=
  ⟨t.seconds, t.nanos - t.nanos % 1000000, Rfc3339.representable_millis t⟩

namespace Rfc3339

theorem fieldsOf_wholeMillis (t : Instant) :
    fieldsOf t.wholeMillis =
      ⟨t.date, t.hour, t.minute, t.second, t.fraction / 1000000 * 1000000, 0⟩ := by
  have hsecond : t.wholeMillis.second = t.second := by
    change t.secondOfDay % 60 + (t.nanos - t.nanos % 1000000) / 1000000000 =
      t.secondOfDay % 60 + t.nanos / 1000000000
    omega
  have hfraction : t.wholeMillis.fraction = t.fraction / 1000000 * 1000000 := by
    change (t.nanos - t.nanos % 1000000) % 1000000000 = t.nanos % 1000000000 / 1000000 * 1000000
    omega
  rw [fieldsOf, hsecond, hfraction]
  rfl

/-- A time written in milliseconds is read back, cut to whole ones. -/
theorem read?_writeMillis (t : Instant) :
    read? (writeMillis t) = some t.wholeMillis.settled := by
  have hlt := fraction_lt t
  have hscan := scanFields_fraction t (scanFraction_padded (n := t.fraction / 1000000) ['Z']
    (by decide : 0 < 3) (by decide) (by omega) (by simp))
  rw [show 10 ^ (9 - 3) = 1000000 from rfl, ← fieldsOf_wholeMillis] at hscan
  simp only [read?, writeMillis, String.toList_ofList, readChars?, hscan, Option.bind_eq_bind,
    Option.bind_some, List.all_nil, if_true]
  exact instant?_fieldsOf t.wholeMillis

/-! ## Length -/

theorem length_padded_le (width places : Nat) {n : Nat} (hp : 0 < places) (h : n < 10 ^ places) :
    (Text.padded width n).length ≤ width + places := by
  have := (Nat.length_toDigits_le_iff (show 1 < 10 by decide) hp).2 h
  simp only [Text.padded, List.length_append, List.length_replicate]
  omega

theorem length_yearChars_le {y : Int} (h : -262143 ≤ y ∧ y ≤ 262142) : (yearChars y).length ≤ 11 := by
  unfold yearChars
  split
  · exact (length_padded_le _ 6 (by decide) (by omega)).trans (by decide)
  · exact Nat.succ_le_succ (length_padded_le _ 6 (by decide) (by omega))

theorem length_fractionChars_le {n : Nat} (h : n < 1000000000) : (fractionChars n).length ≤ 19 := by
  unfold fractionChars
  have (width m : Nat) (hw : width ≤ 9) (hm : m ≤ n) :
      ('.' :: Text.padded width m).length ≤ 19 := by
    have : (Text.padded width m).length ≤ width + 9 := length_padded_le width 9 (by decide) (by omega)
    rw [List.length_cons]
    omega
  split
  · exact Nat.zero_le _
  · split
    · exact this 3 _ (by decide) (Nat.div_le_self _ _)
    · split
      · exact this 6 _ (by decide) (Nat.div_le_self _ _)
      · exact this 9 _ (by decide) (Nat.le_refl _)

/-- A written time is short. -/
theorem length_chars_le (t : Instant) : (chars t).length ≤ 100 := by
  have hy := length_yearChars_le (Date.year_ofDays_bounds (days_bounds t).1 (days_bounds t).2)
  obtain ⟨-, hmonth, -, hday⟩ := Date.valid_ofDays t.days
  have hday' := hday.trans (Date.daysIn_le _ _)
  have hf := length_fractionChars_le (fraction_lt t)
  have hs := second_le t
  have h1 := hour_lt t
  have h2 := minute_lt t
  have two (n : Nat) (h : n < 100) := length_padded_of_lt 2 (by decide) h
  have := two (Date.ofDays t.days).month (by omega)
  have := two (Date.ofDays t.days).day (by omega)
  have := two t.hour (by omega)
  have := two t.minute (by omega)
  have := two t.second (by omega)
  simp only [chars, dateChars, clockChars, Instant.date, List.length_append, List.length_cons,
    List.length_nil]
  omega

theorem length_ofText_write (t : Instant) : (Bytes.ofText (write t)).length ≤ 400 := by
  have := Bytes.length_ofText_le (chars t)
  have := length_chars_le t
  unfold write
  omega

end PingDelivery.Time.Rfc3339
