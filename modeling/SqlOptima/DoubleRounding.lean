import Mathlib.Data.Int.Log
import Mathlib.Data.Rat.Floor

namespace SqlOptima.DoubleRounding

/-- The integer next to a rational, and the even one of two that are equally near. -/
def roundHalfEven (q : ℚ) : ℤ :=
  if q - ⌊q⌋ < 1 / 2 then ⌊q⌋
  else if 1 / 2 < q - ⌊q⌋ then ⌊q⌋ + 1
  else if ⌊q⌋ % 2 = 0 then ⌊q⌋
  else ⌊q⌋ + 1

/-- The double next to a rational in the normal range: 53 significant bits. -/
def roundDouble (q : ℚ) : ℚ :=
  if q = 0 then 0
  else roundHalfEven (q / 2 ^ (Int.log 2 |q| - 52)) * 2 ^ (Int.log 2 |q| - 52)

theorem roundHalfEven_intCast (n : ℤ) : roundHalfEven n = n := by
  simp [roundHalfEven]

/-- A rational whose 53 bits end at an integer multiple of its last place is a double. -/
theorem roundDouble_of_eq {q : ℚ} {n : ℤ} (h : q / 2 ^ (Int.log 2 |q| - 52) = n) :
    roundDouble q = q := by
  unfold roundDouble
  split
  · next hq => exact hq.symm
  · rw [h, roundHalfEven_intCast, ← h]
    exact div_mul_cancel₀ q (zpow_ne_zero _ (by norm_num))

theorem abs_roundHalfEven_sub_le (q : ℚ) : |roundHalfEven q - q| ≤ 1 / 2 := by
  have hlow := Int.floor_le q
  have hhigh := Int.lt_floor_add_one q
  unfold roundHalfEven
  split
  · next h =>
      rw [abs_le]
      constructor <;> linarith
  · next h =>
      have hnear : |((⌊q⌋ + 1 : ℤ) : ℚ) - q| ≤ 1 / 2 := by
        push_cast
        rw [abs_le]
        constructor <;> linarith
      split
      · exact hnear
      · next h' =>
          split
          · rw [abs_le]
            constructor <;> linarith
          · exact hnear

/-- The relative error of a rounding. -/
theorem abs_roundDouble_sub_le (q : ℚ) : |roundDouble q - q| ≤ |q| / 2 ^ 53 := by
  unfold roundDouble
  split
  · next h => simp [h]
  · next h =>
      have hu : (0 : ℚ) < 2 ^ (Int.log 2 |q| - 52) := zpow_pos (by norm_num) _
      have hlog : (2 : ℚ) ^ Int.log 2 |q| ≤ |q| :=
        Int.zpow_log_le_self (by norm_num) (abs_pos.mpr h)
      have hulp : (2 : ℚ) ^ (Int.log 2 |q| - 52) ≤ |q| / 2 ^ 52 := by
        rw [zpow_sub₀ (by norm_num)]
        gcongr
        norm_num
      have hscale : (roundHalfEven (q / 2 ^ (Int.log 2 |q| - 52)) : ℚ) *
          2 ^ (Int.log 2 |q| - 52) - q =
            (roundHalfEven (q / 2 ^ (Int.log 2 |q| - 52)) - q / 2 ^ (Int.log 2 |q| - 52)) *
              2 ^ (Int.log 2 |q| - 52) := by
        rw [sub_mul, div_mul_cancel₀ q hu.ne']
      rw [hscale, abs_mul, abs_of_pos hu]
      calc |(roundHalfEven (q / 2 ^ (Int.log 2 |q| - 52)) : ℚ) - q / 2 ^ (Int.log 2 |q| - 52)| *
            2 ^ (Int.log 2 |q| - 52)
          ≤ 1 / 2 * (|q| / 2 ^ 52) :=
            mul_le_mul (abs_roundHalfEven_sub_le _) hulp hu.le (by norm_num)
        _ = |q| / 2 ^ 53 := by ring

theorem roundDouble_nonneg {q : ℚ} (h : 0 ≤ q) : 0 ≤ roundDouble q := by
  have herror := abs_le.mp (abs_roundDouble_sub_le q)
  rw [abs_of_nonneg h] at herror
  linarith [herror.1]

theorem roundDouble_nonpos {q : ℚ} (h : q ≤ 0) : roundDouble q ≤ 0 := by
  have herror := abs_le.mp (abs_roundDouble_sub_le q)
  rw [abs_of_nonpos h] at herror
  linarith [herror.2]

theorem roundDouble_le_two_mul {q : ℚ} (h : 0 ≤ q) : roundDouble q ≤ 2 * q := by
  have herror := abs_le.mp (abs_roundDouble_sub_le q)
  rw [abs_of_nonneg h] at herror
  linarith [herror.2]

/-- The integer part, towards zero. -/
def truncate (q : ℚ) : ℤ := if q < 0 then ⌈q⌉ else ⌊q⌋

theorem truncate_nonpos {q : ℚ} (h : q ≤ 0) : truncate q ≤ 0 := by
  unfold truncate
  split
  · exact Int.ceil_nonpos.mpr h
  · exact Int.floor_nonpos h

theorem truncate_le {q : ℚ} (h : 0 ≤ q) : (truncate q : ℚ) ≤ q := by
  rw [truncate, if_neg (not_lt.mpr h)]
  exact Int.floor_le q

/-- A double value; the finite ones by their exact value. -/
inductive Double where
  | finite (q : ℚ)
  | infinity (negative : Bool)
  | nan
  deriving DecidableEq

/-- `math.isclose`, in the normal range. -/
def isclose (relTol absTol : ℚ) : Double → Double → Bool
  | .finite a, .finite b =>
      let diff := |roundDouble (b - a)|
      decide (a = b ∨ diff ≤ |roundDouble (relTol * b)| ∨ diff ≤ |roundDouble (relTol * a)| ∨
        diff ≤ absTol)
  | .infinity a, .infinity b => a == b
  | _, _ => false

/-- The place of the last bit of the double next to a rational; the smallest doubles have fewer
bits. -/
def lastPlace (q : ℚ) : ℤ := if Int.log 2 |q| - 52 < -1074 then -1074 else Int.log 2 |q| - 52

/-- The double next to a rational. -/
def nearestDouble (q : ℚ) : Double :=
  let r : ℚ := roundHalfEven (q / 2 ^ lastPlace q) * 2 ^ lastPlace q
  if 2 ^ 1024 ≤ |r| then .infinity (q < 0) else .finite r

/-- The equality of doubles: nothing equals NaN. -/
def Double.equal : Double → Double → Bool
  | .finite a, .finite b => a = b
  | .infinity a, .infinity b => a == b
  | _, _ => false

theorem Double.equal_comm (a b : Double) : a.equal b = b.equal a := by
  cases a with
  | finite q =>
      cases b with
      | finite r => exact decide_eq_decide.mpr eq_comm
      | infinity _ => rfl
      | nan => rfl
  | infinity s =>
      cases b with
      | finite _ => rfl
      | infinity t => exact Bool.beq_comm
      | nan => rfl
  | nan =>
      cases b with
      | finite _ => rfl
      | infinity _ => rfl
      | nan => rfl

end SqlOptima.DoubleRounding
