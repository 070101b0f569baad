import Mathlib.Data.Int.Basic
import Mathlib.Algebra.BigOperators.Group.List.Basic

namespace SqlOptima.TransferRange

inductive CopyMode where
  | insertSelect
  | streamBulk
  | bcpNative
  deriving DecidableEq, Repr

/-- The settings' other threshold is in megabytes; the copier passes a size of zero for it. -/
structure TransferFileOffloadSettings where
  enabled : Bool
  minRows : Int64
  deriving DecidableEq, Repr

def shouldFileOffload (sameServer : Bool) (settings : TransferFileOffloadSettings)
    (rowEstimate : Int64) : Bool :=
  !sameServer && settings.enabled && settings.minRows ≤ rowEstimate

def selectMSSQLCopyMode (sameServer : Bool) (offload : TransferFileOffloadSettings)
    (rowEstimate : Int64) : CopyMode :=
  if sameServer then .insertSelect
  else if shouldFileOffload false offload rowEstimate then .bcpNative
  else .streamBulk

/-- The next range of keys; `none` where the source returns `done`. -/
def nextIntegerRange (current max chunk : Int64) : Option (Int64 × Int64) :=
  let chunk := if chunk < 1 then 1 else chunk
  if max < current then none
  else
    let hi := current + chunk - 1
    if hi < current then none
    else some (current, if max < hi then max else hi)

/-- Whether a table without an order column is refused. -/
def heapCopyPolicyRefuses (rowEstimate chunkSize : Int64) : Bool :=
  (if chunkSize < 1 then 1 else chunkSize) < rowEstimate

def maxCopyIters (rowEstimate chunk : Int64) : Nat :=
  let chunk := if chunk < 1 then 1 else chunk
  let n := rowEstimate / chunk + 32
  let n := if n < 8 then 8 else n
  let n := if 1000000 < n then 1000000 else n
  n.toInt.toNat

def shouldSkipInsertOnlyDelta (hasSourceMax hasTargetMax : Bool) (cmp : Ordering) : Bool :=
  hasSourceMax && hasTargetMax && cmp.isGE

section IntegerRange

variable {current max chunk lo hi : Int64}

/-- The end of the range before it is cut to the maximum; it wraps around past the last integer. -/
theorem toInt_rangeEnd (current chunk : Int64) :
    (current + chunk - 1).toInt = (current.toInt + chunk.toInt - 1).bmod (2 ^ 64) := by
  rw [Int64.toInt_sub, Int64.toInt_add, show (1 : Int64).toInt = 1 from rfl, Int.bmod_sub_bmod]

theorem rangeEnd_lt_iff (hchunk : 1 ≤ chunk) :
    current + chunk - 1 < current ↔ 2 ^ 63 ≤ current.toInt + chunk.toInt - 1 := by
  have hc : 1 ≤ chunk.toInt := Int64.le_iff_toInt_le.mp hchunk
  have hbounds := current.le_toInt
  have hupper := current.toInt_lt
  have hchunkUpper := chunk.toInt_lt
  rw [Int64.lt_iff_toInt_lt, toInt_rangeEnd, Int.bmod_def]
  split <;> omega

theorem toInt_rangeEnd_of_lt (hchunk : 1 ≤ chunk)
    (h : current.toInt + chunk.toInt - 1 < 2 ^ 63) :
    (current + chunk - 1).toInt = current.toInt + chunk.toInt - 1 := by
  have hc : 1 ≤ chunk.toInt := Int64.le_iff_toInt_le.mp hchunk
  have hbounds := current.le_toInt
  rw [toInt_rangeEnd]
  exact Int.bmod_eq_of_le (by omega) (by omega)

theorem toInt_succ (h : hi.toInt < max.toInt) : (hi + 1).toInt = hi.toInt + 1 := by
  have hlow := hi.le_toInt
  have hupper := max.toInt_lt
  rw [Int64.toInt_add, show (1 : Int64).toInt = 1 from rfl]
  exact Int.bmod_eq_of_le (by omega) (by omega)

theorem nextIntegerRange_eq_none_iff (hchunk : 1 ≤ chunk) :
    nextIntegerRange current max chunk = none ↔
      max.toInt < current.toInt ∨ 2 ^ 63 ≤ current.toInt + chunk.toInt - 1 := by
  have hc : ¬ chunk < 1 := Int64.not_lt.mpr hchunk
  rw [nextIntegerRange, if_neg hc]
  simp only [← rangeEnd_lt_iff hchunk, ← Int64.lt_iff_toInt_lt]
  split
  · simp [*]
  · split
    · simp [*]
    · simp [*]

theorem nextIntegerRange_eq_some (hchunk : 1 ≤ chunk)
    (h : nextIntegerRange current max chunk = some (lo, hi)) :
    lo = current ∧ current.toInt ≤ max.toInt ∧ current.toInt + chunk.toInt - 1 < 2 ^ 63 ∧
      hi.toInt = min (current.toInt + chunk.toInt - 1) max.toInt := by
  have hnone : ¬ (max.toInt < current.toInt ∨ 2 ^ 63 ≤ current.toInt + chunk.toInt - 1) := by
    rw [← nextIntegerRange_eq_none_iff hchunk, h]
    exact Option.some_ne_none _
  rw [not_or, Int.not_lt, Int.not_le] at hnone
  have hend := toInt_rangeEnd_of_lt hchunk hnone.2
  have hc : ¬ chunk < 1 := Int64.not_lt.mpr hchunk
  rw [nextIntegerRange, if_neg hc, if_neg (by rw [Int64.lt_iff_toInt_lt]; omega),
    if_neg (by rw [rangeEnd_lt_iff hchunk]; omega)] at h
  obtain ⟨rfl, rfl⟩ := Prod.mk.inj (Option.some.inj h)
  refine ⟨rfl, hnone.1, hnone.2, ?_⟩
  split
  · next hlt =>
      rw [Int64.lt_iff_toInt_lt, hend] at hlt
      omega
  · next hle =>
      rw [Int64.lt_iff_toInt_lt, hend] at hle
      rw [hend]
      omega

end IntegerRange

end SqlOptima.TransferRange
