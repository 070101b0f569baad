import Mathlib.Data.Int.Basic

namespace SqlOptima.KeyTiling

/-!
# Ranges that tile an interval

Inclusive ranges of integers that follow one another from one end of an interval to the other.
-/

/-- Ranges of at most `size` keys, from `lo` to `hi`. -/
inductive Tiles (size hi : Int) : Int → List (Int × Int) → Prop
  | last {lo : Int} (hle : lo ≤ hi) (hsize : hi - lo < size) : Tiles size hi lo [(lo, hi)]
  | cons {lo mid : Int} {rest : List (Int × Int)} (hle : lo ≤ mid) (hsize : mid - lo < size)
      (hlt : mid < hi) (hrest : Tiles size hi (mid + 1) rest) :
      Tiles size hi lo ((lo, mid) :: rest)

def inRange (key : Int) (range : Int × Int) : Bool := range.1 ≤ key && key ≤ range.2

variable {size lo hi key : Int} {ranges : List (Int × Int)}

theorem inRange_eq_true {range : Int × Int} :
    inRange key range = true ↔ range.1 ≤ key ∧ key ≤ range.2 := by
  rw [inRange, Bool.and_eq_true, decide_eq_true_eq, decide_eq_true_eq]

theorem Tiles.le (h : Tiles size hi lo ranges) : lo ≤ hi := by
  cases h with
  | last hle _ => exact hle
  | cons hle _ hlt _ => exact Int.le_trans hle (Int.le_of_lt hlt)

theorem Tiles.bounds (h : Tiles size hi lo ranges) :
    ∀ range ∈ ranges, lo ≤ range.1 ∧ range.1 ≤ range.2 ∧ range.2 ≤ hi := by
  induction h with
  | last hle _ => exact List.forall_mem_singleton.mpr ⟨Int.le_refl _, hle, Int.le_refl _⟩
  | cons hle _ hlt hrest ih =>
      refine List.forall_mem_cons.mpr ⟨⟨Int.le_refl _, hle, Int.le_of_lt hlt⟩, ?_⟩
      intro range hrange
      obtain ⟨hlow, hmid, hhigh⟩ := ih range hrange
      exact ⟨by omega, hmid, hhigh⟩

theorem Tiles.tail {start stop : Int} (h : Tiles size hi lo ((start, stop) :: ranges))
    (hlt : stop < hi) : Tiles size hi (stop + 1) ranges := by
  cases h with
  | last _ _ => exact absurd hlt (Int.lt_irrefl _)
  | cons _ _ _ hrest => exact hrest

/-- A key before the interval is in no range. -/
theorem Tiles.countP_before (h : Tiles size hi lo ranges) (hkey : key < lo) :
    ranges.countP (inRange key) = 0 := by
  rw [List.countP_eq_zero]
  intro range hrange hin
  have hlow := (h.bounds range hrange).1
  have hle := (inRange_eq_true.mp hin).1
  omega

/-- Every key of the interval is in exactly one range. -/
theorem Tiles.countP_inRange (h : Tiles size hi lo ranges) (hlo : lo ≤ key) (hhi : key ≤ hi) :
    ranges.countP (inRange key) = 1 := by
  induction h with
  | last hle _ =>
      rw [List.countP_cons, List.countP_nil, if_pos (inRange_eq_true.mpr ⟨hlo, hhi⟩)]
  | @cons lo mid rest hle _ hlt hrest ih =>
      rw [List.countP_cons]
      by_cases hmid : key ≤ mid
      · rw [if_pos (inRange_eq_true.mpr ⟨hlo, hmid⟩), hrest.countP_before (by omega)]
      · rw [if_neg (fun hin => hmid (inRange_eq_true.mp hin).2), ih (by omega)]

end SqlOptima.KeyTiling
