import SqlOptima.PostgresTime

namespace SqlOptima.BoundaryCount

open CivilMonth PostgresTime

variable {u m a b c d : Int}

/-- The boundaries of a unit of length `u` crossed from `a` to `b`. -/
def crossed (u a b : Int) : Int := b / u - a / u

/-- The later of two points is at least as far into its unit as the earlier one. -/
def LaterAhead (position : Int → Int) (a b : Int) : Prop :=
  if a ≤ b then position a ≤ position b else position b ≤ position a

theorem sub_eq_crossed (u a b : Int) : b - a = crossed u a b * u + (b % u - a % u) := by
  have ha := Int.emod_add_mul_ediv a u
  have hb := Int.emod_add_mul_ediv b u
  have hmul : crossed u a b * u = u * (b / u) - u * (a / u) := by
    rw [crossed, Int.sub_mul, Int.mul_comm, Int.mul_comm (a / u)]
  omega

theorem crossed_swap (u a b : Int) : crossed u b a = -crossed u a b := by
  unfold crossed
  omega

theorem ediv_eq_crossed_iff (hu : 0 < u) : (b - a) / u = crossed u a b ↔ a % u ≤ b % u := by
  have ha := Int.emod_nonneg a hu.ne'
  have hb := Int.emod_nonneg b hu.ne'
  have hb' := Int.emod_lt_of_pos b hu
  rw [sub_eq_crossed u a b, Int.add_comm, Int.add_mul_ediv_right _ _ hu.ne']
  constructor
  · intro h
    by_contra hlt
    have hneg := Int.ediv_neg_of_neg_of_pos (by omega : b % u - a % u < 0) hu
    omega
  · intro h
    rw [Int.ediv_eq_zero_of_lt (by omega) (by omega), Int.zero_add]

/-- Whole units elapsed are as many as boundaries crossed. -/
theorem tdiv_eq_crossed_iff (hu : 0 < u) :
    (b - a).tdiv u = crossed u a b ↔ LaterAhead (· % u) a b := by
  unfold LaterAhead
  split
  · rename_i hle
    rw [Int.tdiv_eq_ediv_of_nonneg (by omega), ediv_eq_crossed_iff hu]
  · rename_i hlt
    rw [show b - a = -(a - b) by omega, Int.neg_tdiv, Int.tdiv_eq_ediv_of_nonneg (by omega),
      ← ediv_eq_crossed_iff hu, crossed_swap u b a]
    omega

theorem tmod_eq_of_abs_lt (h : |d| < m) : d.tmod m = d := by
  rw [abs_lt] at h
  by_cases hd : 0 ≤ d
  · exact Int.tmod_eq_of_lt hd h.2
  · have hneg := Int.tmod_eq_of_lt (by omega : 0 ≤ -d) (by omega : -d < m)
    rw [Int.neg_tmod] at hneg
    omega

theorem abs_tmod_lt (hm : 0 < m) (d : Int) : |d.tmod m| < m :=
  abs_lt.mpr ⟨Int.lt_tmod_of_pos d hm, Int.tmod_lt_of_pos d hm⟩

/-- A multiple of `m` between `-m` and `m`. -/
theorem eq_tmod_of_near (h : |d - d.tmod m| < m) : d = d.tmod m := by
  have hdvd : m ∣ d - d.tmod m := Int.dvd_self_sub_tmod
  have hzero := Int.eq_zero_of_abs_lt_dvd hdvd h
  omega

/-- The elapsed time without its whole multiples of `m` is the boundaries crossed. -/
theorem tmod_eq_crossed_iff (hu : 0 < u) (hm : u ≤ m) :
    (b - a).tmod m = crossed u a b * u ↔ |b - a| < m ∧ a % u = b % u := by
  have hsub := sub_eq_crossed u a b
  have ha := Int.emod_nonneg a hu.ne'
  have ha' := Int.emod_lt_of_pos a hu
  have hb := Int.emod_nonneg b hu.ne'
  have hb' := Int.emod_lt_of_pos b hu
  constructor
  · intro h
    have hsmall : |(b - a) - (b - a).tmod m| < m := by
      rw [h, abs_lt]
      constructor
      · omega
      · omega
    have heq := eq_tmod_of_near hsmall
    rw [← heq] at h
    exact ⟨heq ▸ abs_tmod_lt (by omega) (b - a), by omega⟩
  · rintro ⟨habs, hpos⟩
    rw [tmod_eq_of_abs_lt habs]
    omega

theorem abs_sub_tdiv_mul_lt (hu : 0 < u) (d : Int) : |d - d.tdiv u * u| < u := by
  have hmod := Int.tmod_add_mul_tdiv d u
  rw [Int.mul_comm] at hmod
  rw [show d - d.tdiv u * u = d.tmod u by omega]
  exact abs_tmod_lt hu d

/-- The same, counted in whole units. -/
theorem tdiv_tmod_eq_crossed_iff (hu : 0 < u) (hm : 2 * u ≤ m) :
    ((b - a).tmod m).tdiv u = crossed u a b ↔ |b - a| < m ∧ LaterAhead (· % u) a b := by
  have hsub := sub_eq_crossed u a b
  have ha := Int.emod_nonneg a hu.ne'
  have ha' := Int.emod_lt_of_pos a hu
  have hb := Int.emod_nonneg b hu.ne'
  have hb' := Int.emod_lt_of_pos b hu
  constructor
  · intro h
    have hwhole := abs_sub_tdiv_mul_lt hu ((b - a).tmod m)
    rw [h, abs_lt] at hwhole
    have hsmall : |(b - a) - (b - a).tmod m| < m := by
      rw [abs_lt]
      constructor
      · omega
      · omega
    have heq := eq_tmod_of_near hsmall
    rw [← heq] at h
    exact ⟨heq ▸ abs_tmod_lt (by omega) (b - a), (tdiv_eq_crossed_iff hu).mp h⟩
  · rintro ⟨habs, hahead⟩
    rw [tmod_eq_of_abs_lt habs]
    exact (tdiv_eq_crossed_iff hu).mpr hahead

/-- Less than half a unit away from `c` units, or halfway and further from zero. -/
def RoundsTo (u d c : Int) : Prop :=
  2 * |d - c * u| < u ∨ 2 * (d - c * u) = u ∧ d < 0 ∨ 2 * (d - c * u) = -u ∧ 0 < d

theorem floor_half_eq_iff (hu : 0 < u) :
    ⌊(d : ℚ) / u + 1 / 2⌋ = c ↔ -u ≤ 2 * (d - c * u) ∧ 2 * (d - c * u) < u := by
  have hu' : (0 : ℚ) < u := by exact_mod_cast hu
  have hle : (c : ℚ) ≤ d / u + 1 / 2 ↔ (2 * c - 1) * u ≤ 2 * d := by
    rw [← sub_le_iff_le_add, le_div_iff₀ hu', ← Int.cast_le (R := ℚ)]
    push_cast
    constructor
    · intro h
      linarith
    · intro h
      linarith
  have hlt : (d : ℚ) / u + 1 / 2 < c + 1 ↔ 2 * d < (2 * c + 1) * u := by
    rw [← lt_sub_iff_add_lt, div_lt_iff₀ hu', ← Int.cast_lt (R := ℚ)]
    push_cast
    constructor
    · intro h
      linarith
    · intro h
      linarith
  rw [Int.floor_eq_iff, hle, hlt]
  constructor
  · rintro ⟨h, h'⟩
    constructor
    · linarith
    · linarith
  · rintro ⟨h, h'⟩
    constructor
    · linarith
    · linarith

theorem roundHalfAway_eq_iff (hu : 0 < u) :
    roundHalfAway ((d : ℚ) / u) = c ↔ RoundsTo u d c := by
  have hu' : (0 : ℚ) < u := by exact_mod_cast hu
  have hzero : d = 0 → 2 * (d - c * u) ≠ -u := by
    rintro rfl h
    have hodd : (2 * c - 1) * u = 0 := by linarith
    rcases mul_eq_zero.mp hodd with h | h
    · omega
    · omega
  have habs : 2 * |d - c * u| < u ↔ -u < 2 * (d - c * u) ∧ 2 * (d - c * u) < u := by
    rw [show 2 * |d - c * u| = |2 * (d - c * u)| by rw [abs_mul]; rfl, abs_lt]
  unfold roundHalfAway RoundsTo
  rw [habs]
  by_cases hd : 0 ≤ d
  · have hq : (0 : ℚ) ≤ d / u := div_nonneg (by exact_mod_cast hd) hu'.le
    rw [if_pos hq, floor_half_eq_iff hu]
    omega
  · have hq : ¬ (0 : ℚ) ≤ d / u := by
      rw [not_le]
      exact div_neg_of_neg_of_pos (by exact_mod_cast not_le.mp hd) hu'
    have hneg : ⌊-((d : ℚ) / u) + 1 / 2⌋ = -c ↔
        -u ≤ 2 * (-d - -c * u) ∧ 2 * (-d - -c * u) < u := by
      rw [← floor_half_eq_iff hu, Int.cast_neg, neg_div]
    rw [if_neg hq, neg_eq_iff_eq_neg, hneg, neg_mul]
    omega

section Age

variable {s t : Int}

/-- The time since the year of a time began, with months of 31 days. -/
def sinceYear (t : Int) : Int :=
  monthOf (dayNumber t) % 12 * (31 * usecsPerDay) + sinceMonth t

theorem sinceMonth_bounds (t : Int) : 0 ≤ sinceMonth t ∧ sinceMonth t < 31 * usecsPerDay := by
  have hday := one_le_dayOf (dayNumber t)
  have hfirst := monthFirst_add_day (dayNumber t)
  have hlast := lt_monthFirst_succ (dayNumber t)
  have hlength := monthLength_bounds (monthOf (dayNumber t))
  unfold monthLength at hlength
  unfold sinceMonth timeOfDay usecsPerDay
  omega

theorem monthFirst_add_sinceMonth (t : Int) :
    monthFirst (monthOf (dayNumber t)) * usecsPerDay + sinceMonth t = t := by
  have hday := monthFirst_add_day (dayNumber t)
  have hsplit := Int.emod_add_mul_ediv t usecsPerDay
  unfold sinceMonth timeOfDay
  unfold dayNumber usecsPerDay at *
  omega

theorem ageFields_months (later earlier : Int) :
    (ageFields later earlier).months =
      monthOf (dayNumber later) - monthOf (dayNumber earlier) -
        if sinceMonth later < sinceMonth earlier then 1 else 0 := by
  have hborrow : dayOf (dayNumber later) - dayOf (dayNumber earlier) -
      (if timeOfDay later - timeOfDay earlier < 0 then 1 else 0) < 0 ↔
        sinceMonth later < sinceMonth earlier := by
    unfold sinceMonth timeOfDay usecsPerDay
    split
    · omega
    · omega
  unfold ageFields
  simp only [hborrow]
  split
  · rfl
  · rw [Int.sub_zero]

theorem ageFields_months_nonneg {later earlier : Int} (h : earlier ≤ later) :
    0 ≤ (ageFields later earlier).months := by
  have hmonth : monthOf (dayNumber earlier) ≤ monthOf (dayNumber later) := by
    apply monthOf_mono
    unfold dayNumber usecsPerDay
    omega
  have hlater := monthFirst_add_sinceMonth later
  have hearlier := monthFirst_add_sinceMonth earlier
  rw [ageFields_months]
  by_cases hsame : monthOf (dayNumber earlier) = monthOf (dayNumber later)
  · rw [hsame] at hearlier
    rw [if_neg (by omega)]
    omega
  · split
    · omega
    · omega

theorem ageFields_months_iff (later earlier : Int) :
    (ageFields later earlier).months =
      monthOf (dayNumber later) - monthOf (dayNumber earlier) ↔
        sinceMonth earlier ≤ sinceMonth later := by
  rw [ageFields_months]
  split
  · omega
  · omega

theorem ageFields_years_iff {later earlier : Int} (h : earlier ≤ later) :
    (ageFields later earlier).months.tdiv 12 =
      monthOf (dayNumber later) / 12 - monthOf (dayNumber earlier) / 12 ↔
        sinceYear earlier ≤ sinceYear later := by
  have hnonneg := ageFields_months_nonneg h
  have hlater := sinceMonth_bounds later
  have hearlier := sinceMonth_bounds earlier
  rw [Int.tdiv_eq_ediv_of_nonneg hnonneg, ageFields_months]
  unfold sinceYear usecsPerDay at *
  split
  · omega
  · omega

/-- The months of an age are the month boundaries crossed. -/
theorem age_months_iff :
    (age t s).months = monthOf (dayNumber t) - monthOf (dayNumber s) ↔
      LaterAhead sinceMonth s t := by
  unfold age LaterAhead
  by_cases h : t < s
  · rw [if_pos h, if_neg (not_le.mpr h), ← ageFields_months_iff]
    simp only [Interval.neg]
    omega
  · rw [if_neg h, if_pos (not_lt.mp h), ageFields_months_iff]

/-- The years of an age are the year boundaries crossed. -/
theorem age_years_iff :
    (age t s).months.tdiv 12 = monthOf (dayNumber t) / 12 - monthOf (dayNumber s) / 12 ↔
      LaterAhead sinceYear s t := by
  unfold age LaterAhead
  by_cases h : t < s
  · rw [if_pos h, if_neg (not_le.mpr h), ← ageFields_years_iff h.le]
    simp only [Interval.neg, Int.neg_tdiv]
    omega
  · rw [if_neg h, if_pos (not_lt.mp h), ageFields_years_iff (not_lt.mp h)]

end Age

end SqlOptima.BoundaryCount
