import SqlOptima.CoreTypes
import SqlOptima.KeyTiling
import SqlOptima.NumberText
import SqlOptima.TransferRange

namespace SqlOptima.PrimaryKeyChunker

open CoreTypes
open KeyTiling (Tiles inRange)
open TransferRange (rangeEnd_lt_iff toInt_rangeEnd_of_lt toInt_succ)

/-!
# Chunks of an integer key
-/

structure PrimaryKeyBounds where
  min : Int64
  max : Int64

def PrimaryKeyBounds.isEmpty (b : PrimaryKeyBounds) : Bool := b.max < b.min

def newPrimaryKeyChunker (size : Int64) : Int64 := if size < 1 then 1 else size

/-- `%d` -/
def formatKey (key : Int64) : String :=
  String.ofList (if key.toInt < 0 then '-' :: NumberText.padded 0 10 key.toInt.natAbs
    else NumberText.padded 0 10 key.toInt.natAbs)

variable {Uuid : Type}

/-- What the planner puts into every chunk, with the fresh identifiers and the clock readings of
the chunks. -/
structure PlanContext (Uuid : Type) where
  jobID : Uuid
  schema : String
  table : String
  pkCol : String
  fresh : UInt32 → Uuid
  now : UInt32 → Int

def keyChunk (ctx : PlanContext Uuid) (idx : UInt32) (start stop : Int64) : ChunkPlan Uuid :=
  newChunkPlan (ctx.fresh idx) (ctx.now idx) ctx.jobID ctx.schema ctx.table idx ctx.pkCol
    (some (formatKey start)) (some (formatKey stop))

def chunkEnd (chunkSize max start : Int64) : Int64 :=
  if max < start + chunkSize - 1 then max else start + chunkSize - 1

/-- The loop of `Plan`. No result means that it is still running when the fuel is spent. -/
def planLoop (ctx : PlanContext Uuid) (chunkSize max : Int64) :
    Nat → UInt32 → Int64 → Option (List (ChunkPlan Uuid))
  | 0, _, _ => none
  | fuel + 1, idx, start =>
      if start ≤ max then
        let stop := chunkEnd chunkSize max start
        if max ≤ stop then some [keyChunk ctx idx start stop]
        else
          (planLoop ctx chunkSize max fuel (idx + 1) (stop + 1)).map
            (keyChunk ctx idx start stop :: ·)
      else some []

def plan (ctx : PlanContext Uuid) (chunkSize : Int64) (bounds : PrimaryKeyBounds) (fuel : Nat) :
    Option (List (ChunkPlan Uuid)) :=
  if bounds.isEmpty then some [] else planLoop ctx chunkSize bounds.max fuel 0 bounds.min

/-! ## The ranges of a plan -/

/-- The integer of a key text, as the extraction predicate takes it. -/
def readKey (key : String) : Option Int :=
  match key.toList with
  | '-' :: digits => (NumberText.readDigits 10 digits).map fun n => -Int.ofNat n
  | digits => (NumberText.readDigits 10 digits).map Int.ofNat

def readRange (chunk : ChunkPlan Uuid) : Option (Int × Int) :=
  (chunk.startKey.bind readKey).bind fun start => (chunk.endKey.bind readKey).map fun stop =>
    (start, stop)

/-- A chunk's predicate `key BETWEEN @start AND @end`. -/
def selects (key : Int) (chunk : ChunkPlan Uuid) : Bool := (readRange chunk).any (inRange key)

/-- The chunks in index order, their ranges one after the other over the bounds. -/
structure Tiled (size lo hi : Int) (plans : List (ChunkPlan Uuid)) : Prop where
  indexes : plans.map (fun chunk => chunk.chunkIndex.toNat) = List.range plans.length
  ranges : ∃ ranges, plans.map readRange = ranges.map some ∧ Tiles size hi lo ranges
  once : ∀ key, lo ≤ key → key ≤ hi → plans.countP (selects key) = 1

/-- The first key of the last chunk. -/
def lastStart (size lo hi : Int) : Int := lo + (hi - lo) / size * size

/-- The sum of the last chunk is an `int64`, and the indices of the chunks are different ones. -/
def Fits (size lo hi : Int) : Prop :=
  lastStart size lo hi + size - 1 < 2 ^ 63 ∧ (hi - lo) / size < 2 ^ 32

instance (size lo hi : Int) : Decidable (Fits size lo hi) := inferInstanceAs (Decidable (_ ∧ _))

section Keys

theorem readKey_formatKey (key : Int64) : readKey (formatKey key) = some key.toInt := by
  have hdigits : NumberText.readDigits 10 (NumberText.padded 0 10 key.toInt.natAbs) =
      some key.toInt.natAbs := NumberText.readDigits_padded (by decide) (by decide) 0 _
  rw [readKey, formatKey, String.toList_ofList]
  by_cases hneg : key.toInt < 0
  · rw [if_pos hneg]
    change (NumberText.readDigits 10 _).map _ = _
    rw [hdigits, Option.map_some]
    congr 1
    change -(key.toInt.natAbs : Int) = key.toInt
    omega
  · rw [if_neg hneg]
    split
    · next digits heq =>
        rw [NumberText.padded, Nat.zero_sub, List.replicate_zero, List.nil_append] at heq
        have hminus : '-' ∈ Nat.toDigits 10 key.toInt.natAbs := heq ▸ List.mem_cons_self
        exact absurd (Nat.isDigit_of_mem_toDigits (by decide) (by decide) hminus) (by decide)
    · rw [hdigits, Option.map_some]
      congr 1
      exact Int.natAbs_of_nonneg (Int.not_lt.mp hneg)

variable (ctx : PlanContext Uuid) (idx : UInt32) (start stop : Int64)

theorem readRange_keyChunk :
    readRange (keyChunk ctx idx start stop) = some (start.toInt, stop.toInt) := by
  change ((readKey (formatKey start)).bind fun s => (readKey (formatKey stop)).map fun e =>
    (s, e)) = _
  rw [readKey_formatKey, readKey_formatKey]
  rfl

end Keys

section Numbers

variable {plans : List (ChunkPlan Uuid)}

/-- The chunks have the indices from `idx` on, as the counter of the planner gives them. -/
def Numbered (idx : UInt32) (plans : List (ChunkPlan Uuid)) : Prop :=
  plans.map (·.chunkIndex) = (List.range plans.length).map fun k => idx + UInt32.ofNat k

theorem numbered_nil {idx : UInt32} : Numbered idx ([] : List (ChunkPlan Uuid)) := rfl

theorem Numbered.cons {chunk : ChunkPlan Uuid} {idx : UInt32} (hidx : chunk.chunkIndex = idx)
    (h : Numbered (idx + 1) plans) : Numbered idx (chunk :: plans) := by
  rw [Numbered, List.map_cons, h, List.length_cons, List.range_succ_eq_map, List.map_cons,
    List.map_map]
  congr 1
  · exact hidx.trans (UInt32.add_zero _).symm
  · refine List.map_congr_left fun k _ => ?_
    change _ = idx + UInt32.ofNat (k + 1)
    rw [UInt32.ofNat_add, UInt32.add_assoc, UInt32.add_comm 1]
    rfl

theorem Numbered.indexes_iff (h : Numbered 0 plans) :
    plans.map (fun chunk => chunk.chunkIndex.toNat) = List.range plans.length ↔
      plans.length ≤ 2 ^ 32 := by
  have hmap : plans.map (fun chunk => chunk.chunkIndex.toNat) =
      (List.range plans.length).map fun k => k % 2 ^ 32 := by
    have h' := congrArg (List.map UInt32.toNat) h
    rw [List.map_map, List.map_map] at h'
    refine h'.trans (List.map_congr_left fun k _ => ?_)
    change (0 + UInt32.ofNat k).toNat = _
    rw [UInt32.zero_add]
    rfl
  rw [hmap]
  constructor
  · intro hid
    by_contra hlt
    have hfix := List.map_inj_left.mp (hid.trans (List.map_id _).symm) (plans.length - 1)
      (List.mem_range.mpr (by omega))
    change (plans.length - 1) % 2 ^ 32 = plans.length - 1 at hfix
    omega
  · intro hlt
    refine (List.map_congr_left fun k hk => ?_).trans (List.map_id _)
    have hk := List.mem_range.mp hk
    exact Nat.mod_eq_of_lt (by omega)

end Numbers

section Loop

variable {ctx : PlanContext Uuid} {size max start : Int64}

theorem toInt_chunkEnd (hsize : 1 ≤ size) (h : start.toInt + size.toInt - 1 < 2 ^ 63) :
    (chunkEnd size max start).toInt = min (start.toInt + size.toInt - 1) max.toInt := by
  have hend := toInt_rangeEnd_of_lt hsize h
  rw [chunkEnd]
  split
  · next hlt =>
      rw [Int64.lt_iff_toInt_lt, hend] at hlt
      omega
  · next hle =>
      rw [Int64.lt_iff_toInt_lt, hend] at hle
      rw [hend]
      omega

/-- A sum that wraps around makes a chunk that ends before it starts. -/
theorem chunkEnd_lt (hsize : 1 ≤ size) (hle : start ≤ max)
    (h : 2 ^ 63 ≤ start.toInt + size.toInt - 1) :
    (chunkEnd size max start).toInt < start.toInt := by
  have hwrap := (rangeEnd_lt_iff hsize).mpr h
  rw [Int64.lt_iff_toInt_lt] at hwrap
  rw [Int64.le_iff_toInt_le] at hle
  rw [chunkEnd, if_neg]
  · exact hwrap
  · rw [Int64.lt_iff_toInt_lt]
    omega

theorem planLoop_succ (hle : start ≤ max) (fuel : Nat) (idx : UInt32) :
    planLoop ctx size max (fuel + 1) idx start =
      if max ≤ chunkEnd size max start then some [keyChunk ctx idx start (chunkEnd size max start)]
      else (planLoop ctx size max fuel (idx + 1) (chunkEnd size max start + 1)).map
        (keyChunk ctx idx start (chunkEnd size max start) :: ·) := by
  rw [planLoop, if_pos hle]

theorem lastStart_add {size lo hi : Int} (hsize : 1 ≤ size) :
    lastStart size (lo + size) hi = lastStart size lo hi := by
  have hdiv : (hi - (lo + size)) / size = (hi - lo) / size - 1 := by
    have h := Int.sub_mul_ediv_right (hi - lo) 1 (show size ≠ 0 by omega)
    rwa [Int.one_mul, Int.sub_sub] at h
  rw [lastStart, lastStart, hdiv, Int.sub_mul, Int.one_mul]
  omega

/-- The chunks from an index on. -/
structure Planned (size lo hi : Int) (idx : UInt32) (plans : List (ChunkPlan Uuid)) : Prop where
  length : (plans.length : Int) = (hi - lo) / size + 1
  numbered : Numbered idx plans

theorem planned_singleton {chunk : ChunkPlan Uuid} {size lo hi : Int} {idx : UInt32}
    (hidx : chunk.chunkIndex = idx) (hle : lo ≤ hi) (hsize : hi - lo < size) :
    Planned size lo hi idx [chunk] where
  length := by
    rw [Int.ediv_eq_zero_of_lt (by omega) hsize]
    rfl
  numbered := .cons hidx numbered_nil

theorem Planned.cons {chunk : ChunkPlan Uuid} {plans : List (ChunkPlan Uuid)} {size lo hi : Int}
    {idx : UInt32} (hidx : chunk.chunkIndex = idx) (hsize : 1 ≤ size)
    (h : Planned size (lo + size) hi (idx + 1) plans) :
    Planned size lo hi idx (chunk :: plans) where
  length := by
    have hdiv := Int.sub_mul_ediv_right (hi - lo) 1 (show size ≠ 0 by omega)
    rw [Int.one_mul, Int.sub_sub] at hdiv
    have hlen := h.length
    rw [List.length_cons]
    omega
  numbered := .cons hidx h.numbered

theorem le_lastStart {size lo hi : Int} (hsize : 1 ≤ size) (hle : lo ≤ hi) :
    lo ≤ lastStart size lo hi := by
  have hdiv : 0 ≤ (hi - lo) / size := Int.ediv_nonneg (by omega) (by omega)
  have hmul := Int.mul_nonneg hdiv (show 0 ≤ size by omega)
  rw [lastStart]
  omega

theorem lastStart_of_lt {size lo hi : Int} (hle : lo ≤ hi) (hlast : hi - lo < size) :
    lastStart size lo hi = lo := by
  rw [lastStart, Int.ediv_eq_zero_of_lt (by omega) hlast, Int.zero_mul, Int.add_zero]

/-- While the sums fit, the loop ends and its ranges tile the keys from where it starts. -/
theorem planLoop_of_fits (hsize : 1 ≤ size) {n : Nat} {idx : UInt32} (hle : start ≤ max)
    (hn : (max.toInt - start.toInt) / size.toInt < n)
    (hfit : lastStart size.toInt start.toInt max.toInt + size.toInt - 1 < 2 ^ 63) :
    ∃ plans ranges, planLoop ctx size max n idx start = some plans ∧
      Planned size.toInt start.toInt max.toInt idx plans ∧
      plans.map readRange = ranges.map some ∧
      Tiles size.toInt max.toInt start.toInt ranges := by
  have hsize' : 1 ≤ size.toInt := Int64.le_iff_toInt_le.mp hsize
  induction n generalizing idx start with
  | zero =>
      have hdiv := Int.ediv_nonneg (Int.sub_nonneg_of_le (Int64.le_iff_toInt_le.mp hle))
        (Int.le_trans (by decide) hsize')
      omega
  | succ n ih =>
      have hle' := Int64.le_iff_toInt_le.mp hle
      have hstart := le_lastStart hsize' hle'
      have hend := @toInt_chunkEnd size max start hsize (by omega)
      rw [planLoop_succ hle]
      by_cases hlast : max.toInt - start.toInt < size.toInt
      · rw [Int.min_eq_right (by omega)] at hend
        rw [if_pos (Int64.le_iff_toInt_le.mpr (Int.le_of_eq hend.symm))]
        refine ⟨_, [(start.toInt, max.toInt)], rfl, planned_singleton rfl hle' hlast, ?_,
          .last hle' hlast⟩
        rw [List.map_singleton, readRange_keyChunk, hend]
        rfl
      · rw [Int.min_eq_left (by omega)] at hend
        have hlt : (chunkEnd size max start).toInt < max.toInt := by omega
        have hnext : (chunkEnd size max start + 1).toInt = start.toInt + size.toInt := by
          rw [toInt_succ hlt]
          omega
        rw [if_neg (fun h => by rw [Int64.le_iff_toInt_le] at h; omega)]
        obtain ⟨plans, ranges, hplans, hplanned, hranges, htiles⟩ :=
          @ih (chunkEnd size max start + 1) (idx + 1)
            (Int64.le_iff_toInt_le.mpr (by omega))
            (by
              have hdiv := Int.sub_mul_ediv_right (max.toInt - start.toInt) 1
                (show size.toInt ≠ 0 by omega)
              rw [Int.one_mul, Int.sub_sub] at hdiv
              rw [hnext]
              omega)
            (by rwa [hnext, lastStart_add hsize'])
        rw [hnext] at hplanned
        refine ⟨_, (start.toInt, (chunkEnd size max start).toInt) :: ranges,
          by rw [hplans]; rfl, hplanned.cons rfl hsize', ?_,
          .cons (by omega) (by omega) hlt (by rwa [← toInt_succ hlt])⟩
        rw [List.map_cons, readRange_keyChunk, hranges]
        rfl

theorem ranges_cons {idx : UInt32} {stop : Int64} {rest : List (ChunkPlan Uuid)}
    {ranges : List (Int × Int)}
    (h : (keyChunk ctx idx start stop :: rest).map readRange = ranges.map some) :
    ∃ tail, ranges = (start.toInt, stop.toInt) :: tail ∧ rest.map readRange = tail.map some := by
  cases ranges with
  | nil => cases h
  | cons range tail =>
      rw [List.map_cons, List.map_cons, readRange_keyChunk] at h
      obtain ⟨hhead, htail⟩ := List.cons.inj h
      exact ⟨tail, by rw [Option.some.inj hhead], htail⟩

theorem start_fits (hsize : 1 ≤ size) {idx : UInt32} (hle : start ≤ max)
    {rest : List (ChunkPlan Uuid)} {ranges : List (Int × Int)}
    (hranges : (keyChunk ctx idx start (chunkEnd size max start) :: rest).map readRange =
      ranges.map some)
    (htiles : Tiles size.toInt max.toInt start.toInt ranges) :
    start.toInt + size.toInt - 1 < 2 ^ 63 := by
  obtain ⟨tail, rfl, -⟩ := ranges_cons hranges
  have hfirst := (htiles.bounds _ List.mem_cons_self).2.1
  by_contra hwrap
  exact absurd (chunkEnd_lt hsize hle (Int.not_lt.mp hwrap)) (Int.not_lt.mpr hfirst)

/-- Ranges that tile the keys come from sums that fit. -/
theorem fits_of_planLoop (hsize : 1 ≤ size) {n : Nat} {idx : UInt32} (hle : start ≤ max)
    {plans : List (ChunkPlan Uuid)} {ranges : List (Int × Int)}
    (hplans : planLoop ctx size max n idx start = some plans)
    (hranges : plans.map readRange = ranges.map some)
    (htiles : Tiles size.toInt max.toInt start.toInt ranges) :
    lastStart size.toInt start.toInt max.toInt + size.toInt - 1 < 2 ^ 63 ∧
      Planned size.toInt start.toInt max.toInt idx plans := by
  have hsize' : 1 ≤ size.toInt := Int64.le_iff_toInt_le.mp hsize
  induction n generalizing idx start plans ranges with
  | zero => cases hplans
  | succ n ih =>
      have hle' := Int64.le_iff_toInt_le.mp hle
      rw [planLoop_succ hle] at hplans
      by_cases hlast : max ≤ chunkEnd size max start
      · rw [if_pos hlast] at hplans
        obtain rfl := Option.some.inj hplans
        have hfit := start_fits hsize hle hranges htiles
        have hlt : max.toInt - start.toInt < size.toInt := by
          rw [Int64.le_iff_toInt_le, toInt_chunkEnd hsize hfit] at hlast
          omega
        exact ⟨by rwa [lastStart_of_lt hle' hlt], planned_singleton rfl hle' hlt⟩
      · rw [if_neg hlast] at hplans
        obtain ⟨rest, hrest, rfl⟩ := Option.map_eq_some_iff.mp hplans
        have hfit := start_fits hsize hle hranges htiles
        have hend := @toInt_chunkEnd size max start hsize hfit
        rw [Int64.le_iff_toInt_le] at hlast
        rw [Int.min_eq_left (by omega)] at hend
        have hnext : (chunkEnd size max start + 1).toInt = start.toInt + size.toInt := by
          rw [toInt_succ (Int.not_le.mp hlast)]
          omega
        obtain ⟨tail, rfl, htail⟩ := ranges_cons hranges
        obtain ⟨hfits, hplanned⟩ := ih (Int64.le_iff_toInt_le.mpr (by omega)) hrest htail
          (by rw [toInt_succ (Int.not_le.mp hlast)]; exact htiles.tail (by omega))
        rw [hnext] at hfits hplanned
        rw [lastStart_add hsize'] at hfits
        exact ⟨hfits, hplanned.cons rfl hsize'⟩

end Loop

theorem Planned.indexes_iff {size lo hi : Int} {plans : List (ChunkPlan Uuid)}
    (h : Planned size lo hi 0 plans) :
    plans.map (fun chunk => chunk.chunkIndex.toNat) = List.range plans.length ↔
      (hi - lo) / size < 2 ^ 32 := by
  have hlen := h.length
  rw [h.numbered.indexes_iff]
  omega

theorem once_of_ranges {size lo hi : Int} {plans : List (ChunkPlan Uuid)}
    {ranges : List (Int × Int)} (hranges : plans.map readRange = ranges.map some)
    (htiles : Tiles size hi lo ranges) {key : Int} (hlo : lo ≤ key) (hhi : key ≤ hi) :
    plans.countP (selects key) = 1 := by
  have hcount := htiles.countP_inRange hlo hhi
  have hplans : plans.countP (selects key) =
      (plans.map readRange).countP fun range => range.any (inRange key) := by
    rw [List.countP_map]
    rfl
  rw [hplans, hranges, List.countP_map]
  exact hcount

theorem newPrimaryKeyChunker_of_pos {size : Int64} (h : 1 ≤ size) :
    newPrimaryKeyChunker size = size := if_neg (Int64.not_lt.mpr h)

/-- A plan tiles the keys exactly when the sum of its last chunk does not wrap around and the
chunks are no more than there are indices. -/
theorem plan_tiled_iff (ctx : PlanContext Uuid) {size : Int64} (hsize : 0 < size)
    {bounds : PrimaryKeyBounds} (hle : bounds.min ≤ bounds.max) :
    (∃ fuel plans, plan ctx (newPrimaryKeyChunker size) bounds fuel = some plans ∧
      Tiled size.toInt bounds.min.toInt bounds.max.toInt plans) ↔
      Fits size.toInt bounds.min.toInt bounds.max.toInt := by
  have hone : 1 ≤ size := by
    rw [Int64.lt_iff_toInt_lt] at hsize
    exact Int64.le_iff_toInt_le.mpr hsize
  have hempty : bounds.isEmpty = false := decide_eq_false (Int64.not_lt.mpr hle)
  simp only [plan, hempty, newPrimaryKeyChunker_of_pos hone, Bool.false_eq_true, if_false]
  constructor
  · rintro ⟨fuel, plans, hplans, htiled⟩
    obtain ⟨ranges, hranges, htiles⟩ := htiled.ranges
    obtain ⟨hfit, hplanned⟩ := fits_of_planLoop hone hle hplans hranges htiles
    exact ⟨hfit, hplanned.indexes_iff.mp htiled.indexes⟩
  · rintro ⟨hfit, hcount⟩
    have hdiv := Int.ediv_nonneg (Int.sub_nonneg_of_le (Int64.le_iff_toInt_le.mp hle))
      (Int.le_of_lt (Int64.lt_iff_toInt_lt.mp hsize))
    obtain ⟨plans, ranges, hplans, hplanned, hranges, htiles⟩ :=
      @planLoop_of_fits _ ctx _ _ _ hone (((bounds.max.toInt - bounds.min.toInt) /
        size.toInt).toNat + 1) 0 hle (by omega) hfit
    exact ⟨_, plans, hplans, hplanned.indexes_iff.mpr hcount, ⟨ranges, hranges, htiles⟩,
      fun key => once_of_ranges hranges htiles⟩

section Examples

def ordersContext : PlanContext Unit where
  jobID := ()
  schema := "dbo"
  table := "Orders"
  pkCol := "Id"
  fresh _ := ()
  now _ := 0

theorem smallKeys_tiled : ∃ fuel plans,
    plan ordersContext (newPrimaryKeyChunker 2) ⟨-1, 3⟩ fuel = some plans ∧ Tiled 2 (-1) 3 plans :=
  (plan_tiled_iff ordersContext (by decide) (by decide)).mpr (by decide)

/-- The sum of a chunk at the last key wraps around. -/
theorem lastKey_notTiled : ¬ ∃ fuel plans,
    plan ordersContext (newPrimaryKeyChunker 1000) ⟨9223372036854775807, 9223372036854775807⟩ fuel =
      some plans ∧ Tiled 1000 9223372036854775807 9223372036854775807 plans := by
  rintro ⟨fuel, plans, hplans, htiled⟩
  obtain ⟨ranges, hranges, htiles⟩ := htiled.ranges
  have hfit := (@fits_of_planLoop _ ordersContext 1000 9223372036854775807 9223372036854775807
    (by decide) fuel 0 (by decide) _ _ hplans hranges htiles).1
  exact absurd hfit (by decide)

end Examples

end SqlOptima.PrimaryKeyChunker
