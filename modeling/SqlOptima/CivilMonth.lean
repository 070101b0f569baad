import SqlOptima.CivilDate
import Mathlib.Order.Monotone.Basic

namespace SqlOptima.CivilMonth

open CivilDate

/-- Months are counted from January of year 0. -/
def monthIndex (date : Date) : Int := 12 * date.year + (date.month - 1)

def monthFirst (k : Int) : Int := toDay ⟨k / 12, k % 12 + 1, 1⟩

def monthLength (k : Int) : Int := monthFirst (k + 1) - monthFirst k

def monthOf (n : Int) : Int := monthIndex (ofDay n)

def dayOf (n : Int) : Int := (ofDay n).day

theorem yearStart_pred (y : Int) :
    yearStart (y - 1) + 365 ≤ yearStart y ∧ yearStart y ≤ yearStart (y - 1) + 366 := by
  unfold yearStart
  omega

theorem monthLength_bounds (k : Int) : 28 ≤ monthLength k ∧ monthLength k ≤ 31 := by
  have hyear := yearStart_pred (k / 12)
  have hmonth : 0 ≤ k % 12 ∧ k % 12 ≤ 11 := by omega
  unfold monthLength monthFirst toDay monthStart
  simp only
  by_cases hlast : k % 12 = 11
  · rw [show (k + 1) / 12 = k / 12 + 1 by omega, show (k + 1) % 12 = 0 by omega, hlast,
      Int.add_sub_cancel, if_pos (by decide), if_neg (by decide)]
    omega
  · rw [show (k + 1) / 12 = k / 12 by omega, show (k + 1) % 12 = k % 12 + 1 by omega]
    split
    · split
      · omega
      · omega
    · split
      · omega
      · omega

theorem monthFirst_lt_succ (k : Int) : monthFirst k < monthFirst (k + 1) := by
  have h := monthLength_bounds k
  unfold monthLength at h
  omega

theorem monthFirst_lt_iff {m m' : ℤ} : monthFirst m < monthFirst m' ↔ m < m' :=
  (strictMono_int_of_lt_succ monthFirst_lt_succ).lt_iff_lt

/-- The year that begins in March ends after the day. -/
theorem yearAndDay_lt (z : Int) : z < yearStart ((yearAndDay z).1 + 1) := by
  simp only [yearAndDay]
  generalize hcentury : min (z % 146097 / 36524) 3 = century
  generalize hin : z % 146097 - 36524 * century = inCentury
  generalize hyear : min (inCentury % 1461 / 365) 3 = year
  have hc : 0 ≤ century ∧ century ≤ 3 := by omega
  have hf : 0 ≤ inCentury / 1461 ∧ inCentury / 1461 ≤ 24 := by omega
  have hy : 0 ≤ year ∧ year ≤ 3 := by omega
  by_cases hyear3 : year = 3
  · by_cases hfour : inCentury / 1461 = 24
    · by_cases hcentury3 : century = 3
      · rw [show 400 * (z / 146097) + 100 * century + 4 * (inCentury / 1461) + year + 1 =
          400 * (z / 146097 + 1) + 100 * 0 + 4 * 0 + 0 by omega,
          yearStart_cycles (by decide) (by decide) (by decide) (by decide) (by decide) (by decide)]
        omega
      · rw [show 400 * (z / 146097) + 100 * century + 4 * (inCentury / 1461) + year + 1 =
          400 * (z / 146097) + 100 * (century + 1) + 4 * 0 + 0 by omega,
          yearStart_cycles (by omega) (by omega) (by decide) (by decide) (by decide) (by decide)]
        omega
    · rw [show 400 * (z / 146097) + 100 * century + 4 * (inCentury / 1461) + year + 1 =
        400 * (z / 146097) + 100 * century + 4 * (inCentury / 1461 + 1) + 0 by omega,
        yearStart_cycles hc.1 hc.2 (by omega) (by omega) (by decide) (by decide)]
      omega
  · rw [Int.add_assoc (400 * (z / 146097) + 100 * century + 4 * (inCentury / 1461)),
      yearStart_cycles hc.1 hc.2 hf.1 hf.2 (by omega) (by omega)]
    omega

theorem monthFirst_add_day (n : Int) : monthFirst (monthOf n) + (dayOf n - 1) = n := by
  have hday := toDay_ofDay n
  obtain ⟨hz, hd, hd'⟩ := yearAndDay_spec (n + 306)
  obtain ⟨hm, hm', -, -⟩ := month_spec hd hd'
  have hmonth : 1 ≤ (ofDay n).month ∧ (ofDay n).month ≤ 12 := by
    unfold ofDay
    simp only
    split
    · constructor <;> simp only <;> omega
    · constructor <;> simp only <;> omega
  unfold monthFirst monthOf dayOf monthIndex
  rw [show (12 * (ofDay n).year + ((ofDay n).month - 1)) / 12 = (ofDay n).year by omega,
    show (12 * (ofDay n).year + ((ofDay n).month - 1)) % 12 + 1 = (ofDay n).month by omega]
  unfold toDay at hday ⊢
  simp only
  split at hday
  · rename_i h
    rw [if_pos h]
    omega
  · rename_i h
    rw [if_neg h]
    omega

theorem one_le_dayOf (n : Int) : 1 ≤ dayOf n := by
  obtain ⟨hz, hd, hd'⟩ := yearAndDay_spec (n + 306)
  obtain ⟨hm, hm', hday, -⟩ := month_spec hd hd'
  unfold dayOf ofDay
  simp only
  split
  · exact hday
  · exact hday

theorem lt_monthFirst_succ (n : Int) : n < monthFirst (monthOf n + 1) := by
  obtain ⟨hz, hd, hd'⟩ := yearAndDay_spec (n + 306)
  obtain ⟨hm, hm', -, -⟩ := month_spec hd hd'
  have hlt := yearAndDay_lt (n + 306)
  unfold monthFirst monthOf monthIndex ofDay
  simp only
  generalize yearAndDay (n + 306) = yd at *
  obtain ⟨year, day⟩ := yd
  simp only at *
  generalize hmonth : (5 * day + 2) / 153 = month at *
  split
  · rename_i hten
    by_cases hnine : month = 9
    · rw [show (12 * year + (month + 3 - 1) + 1) / 12 = year + 1 by omega,
        show (12 * year + (month + 3 - 1) + 1) % 12 = 0 by omega, toDay, if_pos (by simp)]
      simp only [monthStart, Int.add_sub_cancel]
      omega
    · rw [show (12 * year + (month + 3 - 1) + 1) / 12 = year by omega,
        show (12 * year + (month + 3 - 1) + 1) % 12 = month + 3 by omega, toDay,
        if_neg (by simp only; omega)]
      simp only [monthStart]
      omega
  · by_cases heleven : month = 11
    · rw [show (12 * (year + 1) + (month - 9 - 1) + 1) / 12 = year + 1 by omega,
        show (12 * (year + 1) + (month - 9 - 1) + 1) % 12 = 2 by omega, toDay,
        if_neg (by simp)]
      simp only [monthStart]
      omega
    · rw [show (12 * (year + 1) + (month - 9 - 1) + 1) / 12 = year + 1 by omega,
        show (12 * (year + 1) + (month - 9 - 1) + 1) % 12 = 1 by omega, toDay,
        if_pos (by simp)]
      simp only [monthStart, Int.add_sub_cancel]
      omega

theorem monthFirst_le (n : Int) : monthFirst (monthOf n) ≤ n := by
  have h := monthFirst_add_day n
  have h' := one_le_dayOf n
  omega

theorem monthOf_eq_iff {n k : Int} : monthOf n = k ↔ monthFirst k ≤ n ∧ n < monthFirst (k + 1) := by
  constructor
  · rintro rfl
    exact ⟨monthFirst_le n, lt_monthFirst_succ n⟩
  · rintro ⟨hle, hlt⟩
    have h := monthFirst_lt_iff.mp ((monthFirst_le n).trans_lt hlt)
    have h' := monthFirst_lt_iff.mp (hle.trans_lt (lt_monthFirst_succ n))
    omega

theorem monthOf_mono {n n' : ℤ} (h : n ≤ n') : monthOf n ≤ monthOf n' := by
  have hlt := (monthFirst_le n).trans_lt (h.trans_lt (lt_monthFirst_succ n'))
  have hmonth := monthFirst_lt_iff.mp hlt
  omega

/-- A day that is not in the month it falls into moves to the month's end. -/
def addMonths (k n : Int) : Int :=
  monthFirst (monthOf n + k) + (min (dayOf n) (monthLength (monthOf n + k)) - 1)

theorem monthOf_addMonths (k n : Int) : monthOf (addMonths k n) = monthOf n + k := by
  have hday := one_le_dayOf n
  have hlength := monthLength_bounds (monthOf n + k)
  rw [monthOf_eq_iff, addMonths]
  unfold monthLength at *
  omega

theorem addMonths_zero (n : Int) : addMonths 0 n = n := by
  have h := monthFirst_add_day n
  have hlt := lt_monthFirst_succ n
  unfold addMonths monthLength
  rw [Int.add_zero]
  omega

end SqlOptima.CivilMonth
