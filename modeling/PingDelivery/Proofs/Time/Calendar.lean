import PingDelivery.Time.Instant
import Mathlib.Order.Monotone.Basic

/-! # Day numbers name dates

A day number's date exists in the calendar, its own day number is the one it came from, and its
year stays within the years of the days around it. The rule that finds the year of a cycle of 400
years from a day of the cycle is monotone, so it is enough to look at the first and the last day of
each year; months are settled by looking at every day of one year. -/

namespace PingDelivery.Time.Date

/-- Days from the start of the cycle of 400 years to the start of one of its years. -/
def yearStart (y : Nat) : Nat := 365 * y + y / 4 - y / 100

/-- Days from the start of the cycle to the end of one of its years. -/
def yearEnd (y : Nat) : Nat := yearStart (y + 1) - 1 + (y + 1) / 400

/-- The year of the cycle that a day of the cycle falls in. -/
def yearOfCycle (doe : Nat) : Nat := (doe - doe / 1460 + doe / 36524 - doe / 146096) / 365

theorem yearOfCycle_mono {a b : Nat} (h : a ≤ b) : yearOfCycle a ≤ yearOfCycle b := by
  have step : ∀ n, n - n / 1460 + n / 36524 - n / 146096 ≤
      (n + 1) - (n + 1) / 1460 + (n + 1) / 36524 - (n + 1) / 146096 := by
    intro n
    omega
  have mono := monotone_nat_of_le_succ (f := fun n : Nat => n - n / 1460 + n / 36524 - n / 146096) step
  exact Nat.div_le_div_right (mono h)

theorem yearOfCycle_ends : ∀ y < 400, yearOfCycle (yearStart y) = y ∧
    yearOfCycle (yearEnd y) = y := by
  decide +kernel

theorem yearOfCycle_bounds {doe : Nat} (h : doe < 146097) : yearOfCycle doe < 400 ∧
    yearStart (yearOfCycle doe) ≤ doe ∧ doe ≤ yearEnd (yearOfCycle doe) := by
  have last : yearOfCycle doe ≤ 399 :=
    (yearOfCycle_mono (show doe ≤ yearEnd 399 by simp only [yearEnd, yearStart]; omega)).trans
      (yearOfCycle_ends 399 (by omega)).2.le
  refine ⟨by omega, ?_, ?_⟩
  · by_contra hlt
    obtain ⟨y, hy⟩ : ∃ y, yearOfCycle doe = y + 1 := by
      cases hy : yearOfCycle doe with
      | zero => rw [hy] at hlt; simp [yearStart] at hlt
      | succ y => exact ⟨y, rfl⟩
    rw [hy] at hlt last
    have before : doe ≤ yearEnd y := by unfold yearEnd; omega
    have := yearOfCycle_mono before
    rw [(yearOfCycle_ends y (by omega)).2] at this
    omega
  · by_contra hlt
    have behind : yearStart (yearOfCycle doe + 1) ≤ doe ∧ yearOfCycle doe < 399 := by
      simp only [yearEnd, yearStart] at hlt ⊢
      omega
    have := yearOfCycle_mono behind.1
    rw [(yearOfCycle_ends _ (by omega)).1] at this
    omega


/-- The month counted from March that a day of the year counted from 1 March falls in. -/
def monthOfYear (doy : Nat) : Nat := (5 * doy + 2) / 153

/-- The month's number, and the day before which it starts. -/
theorem monthOfYear_bounds {doy : Nat} (h : doy < 366) : monthOfYear doy < 12 ∧
    monthStart (monthOfYear doy) ≤ doy ∧ doy < monthStart (monthOfYear doy + 1) := by
  simp only [monthOfYear, monthStart]
  omega

/-- A day by its cycle, the year of the cycle and the day of that year. -/
theorem ofDays_eq (n : Int) : ∃ (era : Int) (yoe doy : Nat), yoe < 400 ∧
    doy + yearStart yoe ≤ yearEnd yoe ∧ n = era * 146097 + (yearStart yoe + doy : Nat) - 719468 ∧
    ofDays n = ⟨(if doy < 306 then 0 else 1) + (yoe + era * 400),
      if doy < 306 then monthOfYear doy + 3 else monthOfYear doy - 9,
      doy - monthStart (monthOfYear doy) + 1⟩ := by
  have hdoe : ((n + 719468 - (n + 719468).fdiv 146097 * 146097).toNat : Int) =
      n + 719468 - (n + 719468).fdiv 146097 * 146097 := by
    rw [Int.fdiv_eq_ediv_of_nonneg _ (by decide)]
    omega
  generalize hera : (n + 719468).fdiv 146097 = era at hdoe
  generalize hd : (n + 719468 - era * 146097).toNat = doe at hdoe
  have small : doe < 146097 := by
    rw [Int.fdiv_eq_ediv_of_nonneg _ (by decide)] at hera
    omega
  obtain ⟨hy, hs, he⟩ := yearOfCycle_bounds small
  refine ⟨era, yearOfCycle doe, doe - yearStart (yearOfCycle doe), hy, by omega, by omega, ?_⟩
  generalize hdoy : doe - yearStart (yearOfCycle doe) = doy
  have march : monthOfYear doy < 10 ↔ doy < 306 := by simp only [monthOfYear]; omega
  have : ofDays n = ⟨if (if monthOfYear doy < 10 then monthOfYear doy + 3 else monthOfYear doy - 9) ≤ 2
      then (yearOfCycle doe + era * 400 : Int) + 1 else yearOfCycle doe + era * 400,
      if monthOfYear doy < 10 then monthOfYear doy + 3 else monthOfYear doy - 9,
      doy - monthStart (monthOfYear doy) + 1⟩ := by
    subst hdoy hd hera
    rfl
  rw [this]
  by_cases h : doy < 306
  · have := march.2 h
    simp only [h, this, if_true]
    rw [if_neg (by omega), Int.zero_add]
  · have := mt march.1 h
    have hm : monthOfYear doy - 9 ≤ 2 := by
      have : yearEnd (yearOfCycle doe) < yearStart (yearOfCycle doe) + 366 := by
        simp only [yearEnd, yearStart]; omega
      have := (monthOfYear_bounds (show doy < 366 by omega)).1
      omega
    simp only [h, this, hm, if_true, if_false, Int.add_comm]

/-- **The date of a day number has that number.** -/
theorem toDays_ofDays (n : Int) : (ofDays n).toDays = n := by
  obtain ⟨era, yoe, doy, hy, hlast, hn, h⟩ := ofDays_eq n
  have hdoy : doy < 366 := by simp only [yearEnd, yearStart] at hlast; omega
  obtain ⟨hm, hstart, _⟩ := monthOfYear_bounds hdoy
  rw [h]
  have hmonth : ((if doy < 306 then monthOfYear doy + 3 else monthOfYear doy - 9) + 9) % 12 =
      monthOfYear doy := by
    split
    · omega
    · have : 9 ≤ monthOfYear doy := by simp only [monthOfYear]; omega
      omega
  have hyear : (if (if doy < 306 then monthOfYear doy + 3 else monthOfYear doy - 9) ≤ 2
      then (if doy < 306 then 0 else 1) + (yoe + era * 400 : Int) - 1
      else (if doy < 306 then 0 else 1) + (yoe + era * 400)) = yoe + era * 400 := by
    by_cases h : doy < 306
    · simp only [h, if_true]
      rw [if_neg (by omega), Int.zero_add]
    · simp only [h, if_false]
      rw [if_pos (by simp only [monthOfYear] at hm ⊢; omega)]
      omega
  simp only [toDays, hmonth, hyear]
  rw [Int.fdiv_eq_ediv_of_nonneg _ (by decide), show ((yoe + era * 400 : Int)) / 400 = era by omega]
  simp only [yearStart] at hn
  omega

theorem daysIn_le (year : Int) (month : Nat) : daysIn year month ≤ 31 := by
  unfold daysIn
  split
  · split <;> omega
  · split <;> omega

/-- **Every day number is the number of a day that exists.** -/
theorem valid_ofDays (n : Int) : (ofDays n).Valid := by
  obtain ⟨era, yoe, doy, hy, hlast, -, h⟩ := ofDays_eq n
  have hdoy : doy < 366 := by simp only [yearEnd, yearStart] at hlast; omega
  rw [h]
  by_cases hjan : doy < 306
  · have all : ∀ doy < 306, 1 ≤ monthOfYear doy + 3 ∧ monthOfYear doy + 3 ≤ 12 ∧
        doy - monthStart (monthOfYear doy) + 1 ≤ daysIn 1 (monthOfYear doy + 3) := by decide +kernel
    obtain ⟨h1, h12, hd⟩ := all doy hjan
    simp only [hjan, if_true, Valid]
    refine ⟨h1, h12, by omega, ?_⟩
    simpa only [daysIn, show monthOfYear doy + 3 ≠ 2 by omega, if_false] using hd
  · have all : ∀ doy < 366, ¬ doy < 306 → 1 ≤ monthOfYear doy - 9 ∧ monthOfYear doy - 9 ≤ 12 ∧
        doy - monthStart (monthOfYear doy) + 1 ≤ 31 ∧
        (monthOfYear doy - 9 ≠ 1 → monthOfYear doy - 9 = 2 ∧
          doy - monthStart (monthOfYear doy) + 1 ≤ 29 ∧
          (doy < 365 → doy - monthStart (monthOfYear doy) + 1 ≤ 28)) := by decide +kernel
    obtain ⟨h1, h12, h31, hfeb⟩ := all doy hdoy hjan
    simp only [hjan, if_false, Valid]
    refine ⟨h1, h12, by omega, ?_⟩
    by_cases hm : monthOfYear doy - 9 = 1
    · simpa [daysIn, hm] using h31
    · obtain ⟨h2, h29, h28⟩ := hfeb hm
      simp only [daysIn, h2, if_true]
      split
      · exact h29
      · rename_i hleap
        refine h28 ?_
        simp only [isLeap, Bool.or_eq_true, Bool.and_eq_true, beq_iff_eq, bne_iff_ne] at hleap
        simp only [yearEnd, yearStart] at hlast
        omega

/-- The years of the days between two given ones. -/
theorem year_ofDays_bounds {n : Int} (hmin : toDays ⟨-262143, 1, 1⟩ ≤ n)
    (hmax : n ≤ toDays ⟨262142, 12, 31⟩) :
    -262143 ≤ (ofDays n).year ∧ (ofDays n).year ≤ 262142 := by
  obtain ⟨era, yoe, doy, hy, hlast, hn, h⟩ := ofDays_eq n
  have hlow : toDays ⟨-262143, 1, 1⟩ = -96465292 := by decide +kernel
  have hhigh : toDays ⟨262142, 12, 31⟩ = 95026236 := by decide +kernel
  rw [hlow] at hmin
  rw [hhigh] at hmax
  have hdoy : doy < 366 ∧ yearStart yoe + doy < 146097 := by
    simp only [yearEnd, yearStart] at hlast ⊢; omega
  have hera : -656 ≤ era ∧ era ≤ 655 := by omega
  simp only [h, yearStart] at hn hdoy ⊢
  by_cases hmarch : doy < 306
  · simp only [hmarch, if_true]
    rcases Int.lt_or_le (-656) era with hlt | hle
    · rcases Int.lt_or_le era 655 with hlt' | hle' <;> omega
    · omega
  · simp only [hmarch, if_false]
    rcases Int.lt_or_le (-656) era with hlt | hle
    · rcases Int.lt_or_le era 655 with hlt' | hle' <;> omega
    · omega

end PingDelivery.Time.Date
