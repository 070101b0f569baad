import Mathlib.Algebra.BigOperators.Group.Finset.Basic
import Mathlib.Data.Int.Basic
import Mathlib.Data.Int.ConditionallyCompleteOrder
import Mathlib.Data.List.Count
import Mathlib.Tactic.Positivity
import Mathlib.Tactic.Ring

namespace SqlOptima.ParallelMigration

/-- The sizes a parallel migration runs with. -/
structure ParallelPlan where
  chunkSize : Nat
  workers : Nat
  chunkSize_pos : 0 < chunkSize
  workers_pos : 0 < workers

structure ChunkBoundary where
  start : Int
  stop : Int
  deriving DecidableEq

structure PartitionRange where
  partitionId : Nat
  startValue : Int
  endValue : Int
  deriving DecidableEq

/-- How `_detect_chunk_column` classifies an integer key. A key outside a primary key is synthetic. -/
inductive ChunkColumnType where
  | identityPk | bigintPk | synthetic
  deriving DecidableEq

/-- The least and the greatest key, as the planner's query returns them. -/
structure KeyBounds where
  minVal : Int
  maxVal : Int
  ordered : minVal ≤ maxVal

namespace ParallelPlan

variable (p : ParallelPlan)

def step : Nat := max 1 p.chunkSize

/-- The ranges of the chunk planner, both ends included. -/
def generateRanges (current endVal : Int) : List ChunkBoundary :=
  if current ≤ endVal then
    let chunkEnd := min (current + p.step - 1) endVal
    ⟨current, chunkEnd⟩ :: generateRanges (chunkEnd + 1) endVal
  else []
termination_by (endVal + 1 - current).toNat
decreasing_by
  have : 1 ≤ p.step := Nat.le_max_left _ _
  omega

/-- A synthetic key is not cut. -/
def chunksFor (b : KeyBounds) : ChunkColumnType → List ChunkBoundary
  | .identityPk => p.generateRanges b.minVal b.maxVal
  | .bigintPk => p.generateRanges b.minVal b.maxVal
  | .synthetic => [⟨b.minVal, b.maxVal⟩]

variable (columnType : ChunkColumnType)

/-- What the planner makes of the answer to its query, which is `none` on an
empty table or an error. -/
def planTable : Option KeyBounds → List ChunkBoundary
  | none => []
  | some b => p.chunksFor b columnType

def chunksPerPartition (chunks : List ChunkBoundary) : Nat := max 1 (chunks.length / p.workers)

def computeDeterministicRanges (bounds : Option KeyBounds) : List PartitionRange :=
  let chunks := p.planTable columnType bounds
  let size := p.chunksPerPartition chunks
  (List.range ((chunks.length + size - 1) / size)).map fun i =>
    let group := (chunks.drop (i * size)).take size
    ⟨i, (group.head?.map ChunkBoundary.start).getD 0,
      (group.getLast?.map ChunkBoundary.stop).getD 0⟩

/-- `total` is the row count the server reports. -/
def computeIdRanges (total : Nat) : List PartitionRange :=
  if total = 0 then []
  else
    (List.range (max 1 ((total + p.chunkSize - 1) / p.chunkSize))).map fun i =>
      ⟨i, i * p.chunkSize, (i + 1) * p.chunkSize⟩

def ranges (bounds : Option KeyBounds) (total : Nat) : List PartitionRange :=
  if p.computeDeterministicRanges columnType bounds = [] then p.computeIdRanges total
  else p.computeDeterministicRanges columnType bounds

end ParallelPlan

section Workers

variable {Row : Type} (key : Row → Int) (rows : List Row) (p : ParallelPlan)

def extractRange (start stop : Int) : List Row :=
  rows.filter fun r => start ≤ key r ∧ key r ≤ stop

/-- The rows a worker extracts from its partition. -/
def migratePartition (endValue current : Int) : List Row :=
  if current < endValue then
    let nextEnd := min (current + p.chunkSize) endValue
    let batch := extractRange key rows current nextEnd
    if batch.isEmpty then [] else batch ++ migratePartition endValue nextEnd
  else []
termination_by (endValue - current).toNat
decreasing_by
  have := p.chunkSize_pos
  omega

def extracted (columnType : ChunkColumnType) (bounds : Option KeyBounds) (total : Nat) :
    List Row :=
  (p.ranges columnType bounds total).flatMap fun r =>
    migratePartition key rows p r.endValue r.startValue

end Workers

section Hits

variable {Row : Type} (key : Row → Int) (rows : List Row) (p : ParallelPlan)

/-- How many of the range queries of a worker return the rows of a key. -/
def hits (endValue current k : Int) : Nat :=
  if current < endValue then
    let nextEnd := min (current + p.chunkSize) endValue
    if (extractRange key rows current nextEnd).isEmpty then 0
    else (if current ≤ k ∧ k ≤ nextEnd then 1 else 0) + hits endValue nextEnd k
  else 0
termination_by (endValue - current).toNat
decreasing_by
  have := p.chunkSize_pos
  omega

variable {key rows p}

theorem isEmpty_extractRange {start stop : Int} :
    (extractRange key rows start stop).isEmpty ↔ ∀ r ∈ rows, ¬ (start ≤ key r ∧ key r ≤ stop) := by
  rw [List.isEmpty_iff, extractRange, List.filter_eq_nil_iff]
  simp only [decide_eq_true_eq]

theorem count_extractRange [DecidableEq Row] (start stop : Int) (r : Row) :
    (extractRange key rows start stop).count r =
      (if start ≤ key r ∧ key r ≤ stop then 1 else 0) * rows.count r := by
  by_cases h : start ≤ key r ∧ key r ≤ stop
  · rw [if_pos h, one_mul, extractRange]
    apply List.count_filter
    exact decide_eq_true h
  · rw [if_neg h, zero_mul, List.count_eq_zero, extractRange, List.mem_filter, decide_eq_true_eq]
    exact fun hr => h hr.2

theorem count_migratePartition [DecidableEq Row] (endValue current : Int) (r : Row) :
    (migratePartition key rows p endValue current).count r =
      hits key rows p endValue current (key r) * rows.count r := by
  fun_induction migratePartition key rows p endValue current with
  | case1 current hlt nextEnd batch hempty =>
      rw [hits, if_pos hlt, if_pos hempty, zero_mul, List.count_nil]
  | case2 current hlt nextEnd batch hempty ih =>
      rw [hits, if_pos hlt, if_neg hempty, List.count_append, ih, count_extractRange, add_mul]
  | case3 current hge => rw [hits, if_neg hge, zero_mul, List.count_nil]

theorem count_extracted [DecidableEq Row] (columnType : ChunkColumnType)
    (bounds : Option KeyBounds) (total : Nat) (r : Row) :
    (extracted key rows p columnType bounds total).count r =
      ((p.ranges columnType bounds total).map fun range =>
        hits key rows p range.endValue range.startValue (key r)).sum * rows.count r := by
  rw [extracted]
  induction p.ranges columnType bounds total with
  | nil => simp
  | cons range ranges ih =>
      rw [List.flatMap_cons, List.count_append, count_migratePartition, ih, List.map_cons,
        List.sum_cons, add_mul]

theorem extracted_perm_iff [DecidableEq Row] (columnType : ChunkColumnType)
    (bounds : Option KeyBounds) (total : Nat) :
    (extracted key rows p columnType bounds total).Perm rows ↔
      ∀ r ∈ rows, ((p.ranges columnType bounds total).map fun range =>
        hits key rows p range.endValue range.startValue (key r)).sum = 1 := by
  rw [List.perm_iff_count]
  constructor
  · intro h r hr
    have hcount := h r
    rw [count_extracted] at hcount
    exact Nat.eq_of_mul_eq_mul_right (List.count_pos_iff.mpr hr) (hcount.trans (one_mul _).symm)
  · intro h r
    rw [count_extracted]
    by_cases hr : r ∈ rows
    · rw [h r hr, one_mul]
    · rw [List.count_eq_zero.mpr hr, mul_zero]

theorem hits_eq_zero_of_lt {endValue current k : Int} (h : k < current) :
    hits key rows p endValue current k = 0 := by
  fun_induction hits key rows p endValue current k with
  | case1 => rfl
  | case2 current hlt nextEnd hempty ih =>
      have := p.chunkSize_pos
      rw [if_neg (by omega), ih (by omega)]
  | case3 => rfl

theorem hits_eq_zero_of_gt {endValue current k : Int} (h : endValue < k) :
    hits key rows p endValue current k = 0 := by
  fun_induction hits key rows p endValue current k with
  | case1 => rfl
  | case2 current hlt nextEnd hempty ih => rw [if_neg (by omega), ih]
  | case3 => rfl

theorem one_le_hits {endValue k : Int} (hlt : k < endValue) (hrow : ∃ r ∈ rows, key r = k) :
    1 ≤ hits key rows p endValue k k := by
  have hpos := p.chunkSize_pos
  obtain ⟨r, hr, rfl⟩ := hrow
  have hinside : key r ≤ key r ∧ key r ≤ min (key r + p.chunkSize) endValue := by omega
  rw [hits, if_pos hlt, if_neg, if_pos hinside]
  · exact Nat.le_add_right _ _
  · rw [isEmpty_extractRange]
    intro h
    exact h r hr hinside

/-- Where the range queries of a partition meet. -/
def cut (p : ParallelPlan) (start : Int) (i : Nat) : Int := start + i * p.chunkSize

theorem cut_zero (start : Int) : cut p start 0 = start := by
  simp [cut]

theorem cut_one (start : Int) : cut p start 1 = start + p.chunkSize := by
  simp [cut]

theorem cut_next (start : Int) (i : Nat) : cut p (cut p start 1) i = cut p start (i + 1) := by
  rw [cut, cut, cut]
  push_cast
  ring

theorem start_le_cut (start : Int) (i : Nat) : start ≤ cut p start i := by
  rw [cut]
  exact le_add_of_nonneg_right (by positivity)

theorem le_cut (start : Int) (i : Nat) : cut p start 1 ≤ cut p start (i + 1) := by
  rw [← cut_next start i]
  exact start_le_cut _ i

variable (key rows p) in
/-- A key of a partition is read once: the partition has more than one key, the
key is not where two of its range queries meet, and no range query before the
key finds nothing. -/
structure ReadOnce (start endValue k : Int) : Prop where
  wide : start < endValue
  inside : ∀ i, cut p start (i + 1) < endValue → k ≠ cut p start (i + 1)
  filled : ∀ i, cut p start (i + 1) < k →
    ∃ r ∈ rows, cut p start i ≤ key r ∧ key r ≤ cut p start (i + 1)

/-- Behind a range query that found rows the rest of the partition decides. -/
theorem readOnce_next_iff {start endValue k : Int} (hend : cut p start 1 < endValue)
    (hk : cut p start 1 < k)
    (hfound : ∃ r ∈ rows, start ≤ key r ∧ key r ≤ cut p start 1) :
    ReadOnce key rows p (cut p start 1) endValue k ↔ ReadOnce key rows p start endValue k := by
  have hpos := p.chunkSize_pos
  constructor
  · rintro ⟨-, hinside, hfilled⟩
    refine ⟨by rw [cut_one] at hend; omega, ?_, ?_⟩
    · intro i hlt
      cases i with
      | zero => exact hk.ne'
      | succ i => simpa only [cut_next] using hinside i (by rwa [cut_next])
    · intro i hlt
      cases i with
      | zero => simpa only [cut_zero] using hfound
      | succ i => simpa only [cut_next] using hfilled i (by rwa [cut_next])
  · rintro ⟨-, hinside, hfilled⟩
    refine ⟨hend, ?_, ?_⟩
    · intro i hlt
      rw [cut_next] at hlt ⊢
      exact hinside (i + 1) hlt
    · intro i hlt
      rw [cut_next] at hlt
      rw [cut_next, cut_next]
      exact hfilled (i + 1) hlt

/-- A key below the first cut, or at the end of a partition with none, is read
by the first range query alone. -/
theorem readOnce_of_le {start endValue k : Int} (hwide : start < endValue)
    (hk : k < cut p start 1 ∨ k = endValue ∧ endValue ≤ cut p start 1) :
    ReadOnce key rows p start endValue k := by
  refine ⟨hwide, ?_, ?_⟩
  · intro i hlt
    have := le_cut (p := p) start i
    omega
  · intro i hlt
    have := le_cut (p := p) start i
    omega

theorem hits_eq_one_iff {endValue start k : Int} (hstart : start ≤ k) (hend : k ≤ endValue)
    (hrow : ∃ r ∈ rows, key r = k) :
    hits key rows p endValue start k = 1 ↔ ReadOnce key rows p start endValue k := by
  have hpos := p.chunkSize_pos
  fun_induction hits key rows p endValue start k with
  | case1 start hlt nextEnd hempty =>
      -- the loop breaks before the key
      rw [isEmpty_extractRange] at hempty
      obtain ⟨r, hr, rfl⟩ := hrow
      have hbeyond : cut p start 1 < key r := by
        have := hempty r hr
        rw [cut_one]
        omega
      constructor
      · intro h
        exact absurd h (by decide)
      · intro h
        obtain ⟨r', hr', hin⟩ := h.filled 0 hbeyond
        rw [cut_zero, cut_one] at hin
        rw [cut_one] at hbeyond
        exact absurd ⟨hin.1, by omega⟩ (hempty r' hr')
  | case2 start hlt nextEnd hfound ih =>
      rw [isEmpty_extractRange] at hfound
      push Not at hfound
      by_cases hlast : start + p.chunkSize < endValue
      · have hnext : nextEnd = cut p start 1 := by
          rw [cut_one]
          omega
        have hcut : cut p start 1 < endValue := by rwa [cut_one]
        rw [hnext] at hfound ih ⊢
        rcases lt_trichotomy k (cut p start 1) with hk | rfl | hk
        · rw [if_pos ⟨hstart, hk.le⟩, hits_eq_zero_of_lt hk]
          exact iff_of_true rfl (readOnce_of_le hlt (.inl hk))
        · -- the next range query reads the key again
          have hagain : 1 ≤ hits key rows p endValue (cut p start 1) (cut p start 1) :=
            one_le_hits hcut hrow
          rw [if_pos ⟨hstart, le_rfl⟩]
          exact iff_of_false (by omega) fun h => h.inside 0 hcut rfl
        · rw [if_neg (by omega), Nat.zero_add]
          exact (ih hk.le).trans (readOnce_next_iff hcut hk hfound)
      · have hnext : nextEnd = endValue := by omega
        rw [hnext, if_pos ⟨hstart, hend⟩, hits, if_neg (lt_irrefl _)]
        apply iff_of_true rfl
        apply readOnce_of_le hlt
        rw [cut_one]
        omega
  | case3 start hge =>
      constructor
      · intro h
        exact absurd h (by decide)
      · intro h
        exact absurd h.wide hge

end Hits

section Partitions

variable (p : ParallelPlan) (b : KeyBounds)

theorem step_eq : p.step = p.chunkSize := Nat.max_eq_right p.chunkSize_pos

theorem getElem?_generateRanges (current endVal : Int) (i : Nat) :
    (p.generateRanges current endVal)[i]? =
      if cut p current i ≤ endVal then
        some ⟨cut p current i, min (cut p current (i + 1) - 1) endVal⟩
      else none := by
  have hpos := p.chunkSize_pos
  fun_induction ParallelPlan.generateRanges p current endVal generalizing i with
  | case1 current hle chunkEnd ih =>
      cases i with
      | zero =>
          rw [List.getElem?_cons_zero, cut_zero, if_pos hle, cut_one, ← step_eq]
      | succ i =>
          rw [List.getElem?_cons_succ, ih]
          by_cases hlast : cut p current 1 ≤ endVal
          · have hnext : chunkEnd + 1 = cut p current 1 := by
              rw [cut_one] at hlast ⊢
              rw [← step_eq] at hlast ⊢
              omega
            rw [hnext, cut_next, cut_next]
          · have hend : chunkEnd = endVal := by
              rw [cut_one, ← step_eq] at hlast
              omega
            have hafter := start_le_cut (p := p) (endVal + 1) i
            have hbeyond := le_cut (p := p) current i
            rw [hend, if_neg (by omega), if_neg (by omega)]
  | case2 current hgt =>
      have hafter := start_le_cut (p := p) current i
      rw [List.getElem?_nil, if_neg (by omega)]

/-- How many chunks the planner cuts the keys into. -/
def chunkCount : Nat := (b.maxVal - b.minVal).toNat / p.chunkSize + 1

theorem cut_le_maxVal_iff (i : Nat) : cut p b.minVal i ≤ b.maxVal ↔ i < chunkCount p b := by
  have hb := b.ordered
  rw [chunkCount, Nat.lt_succ_iff, Nat.le_div_iff_mul_le p.chunkSize_pos,
    Int.le_toNat (by omega), cut, Nat.cast_mul, le_sub_iff_add_le']

theorem getElem?_chunks (i : Nat) :
    (p.generateRanges b.minVal b.maxVal)[i]? =
      if i < chunkCount p b then
        some ⟨cut p b.minVal i, min (cut p b.minVal (i + 1) - 1) b.maxVal⟩
      else none := by
  have h := getElem?_generateRanges p b.minVal b.maxVal i
  rwa [if_congr (cut_le_maxVal_iff p b i) rfl rfl] at h

theorem length_chunks : (p.generateRanges b.minVal b.maxVal).length = chunkCount p b := by
  apply eq_of_forall_ge_iff
  intro i
  rw [← List.getElem?_eq_none_iff, getElem?_chunks]
  split
  · next h => exact iff_of_false (by simp) h.not_ge
  · next h => exact iff_of_true rfl (not_lt.mp h)

def partitionSize : Nat := max 1 (chunkCount p b / p.workers)

theorem partitionSize_pos : 0 < partitionSize p b := Nat.le_max_left _ _

/-- How many keys a partition spans. -/
def partitionWidth : Nat := partitionSize p b * p.chunkSize

theorem partitionWidth_pos : 0 < partitionWidth p b :=
  Nat.mul_pos (partitionSize_pos p b) p.chunkSize_pos

def partitionStart (i : Nat) : Int := b.minVal + i * partitionWidth p b

def partitionEnd (i : Nat) : Int :=
  min (b.minVal + (i + 1) * partitionWidth p b - 1) b.maxVal

theorem cut_mul_partitionSize (i : Nat) :
    cut p b.minVal (i * partitionSize p b) = partitionStart p b i := by
  rw [cut, partitionStart, partitionWidth]
  push_cast
  ring

theorem head?_group {i : Nat} (h : i * partitionSize p b < chunkCount p b) :
    (((p.generateRanges b.minVal b.maxVal).drop (i * partitionSize p b)).take (partitionSize p b)).head?.map
        ChunkBoundary.start = some (partitionStart p b i) := by
  rw [List.head?_take, if_neg (partitionSize_pos p b).ne', List.head?_drop, getElem?_chunks,
    if_pos h, Option.map_some, cut_mul_partitionSize]

theorem getLast?_group {i : Nat} (h : i * partitionSize p b < chunkCount p b) :
    (((p.generateRanges b.minVal b.maxVal).drop (i * partitionSize p b)).take
        (partitionSize p b)).getLast?.map ChunkBoundary.stop = some (partitionEnd p b i) := by
  have hpos := partitionSize_pos p b
  rw [List.getLast?_eq_getElem?, List.length_take, List.length_drop, length_chunks,
    List.getElem?_take_of_lt (by omega), List.getElem?_drop, getElem?_chunks,
    if_pos (by omega), Option.map_some]
  have hend : partitionEnd p b i =
      min (cut p b.minVal ((i + 1) * partitionSize p b) - 1) b.maxVal := by
    rw [cut_mul_partitionSize, partitionEnd, partitionStart, Nat.cast_succ]
  rw [hend]
  have hsucc : (i + 1) * partitionSize p b = i * partitionSize p b + partitionSize p b :=
    Nat.succ_mul _ _
  by_cases hfull : (i + 1) * partitionSize p b ≤ chunkCount p b
  · have hindex : i * partitionSize p b +
        (min (partitionSize p b) (chunkCount p b - i * partitionSize p b) - 1) + 1 =
          (i + 1) * partitionSize p b := by omega
    rw [hindex]
  · -- the last partition ends with the last chunk, at the greatest key
    have hindex : i * partitionSize p b +
        (min (partitionSize p b) (chunkCount p b - i * partitionSize p b) - 1) + 1 =
          chunkCount p b := by omega
    have hlast := (cut_le_maxVal_iff p b (chunkCount p b)).not.mpr (lt_irrefl _)
    have hbeyond := (cut_le_maxVal_iff p b ((i + 1) * partitionSize p b)).not.mpr
      (by omega)
    rw [hindex, Option.some_inj]
    dsimp only
    omega

def partitionCount : Nat := (chunkCount p b + partitionSize p b - 1) / partitionSize p b

theorem lt_partitionCount_iff (i : Nat) :
    i < partitionCount p b ↔ i * partitionSize p b < chunkCount p b := by
  have hpos := partitionSize_pos p b
  rw [partitionCount, Nat.lt_iff_add_one_le, Nat.le_div_iff_mul_le hpos, Nat.succ_mul]
  omega

theorem ranges_of_ne_synthetic {columnType : ChunkColumnType} (h : columnType ≠ .synthetic)
    (total : Nat) :
    p.ranges columnType (some b) total =
      (List.range (partitionCount p b)).map fun i =>
        ⟨i, partitionStart p b i, partitionEnd p b i⟩ := by
  have hplan : p.planTable columnType (some b) = p.generateRanges b.minVal b.maxVal := by
    cases columnType with
    | identityPk => rfl
    | bigintPk => rfl
    | synthetic => exact absurd rfl h
  have hranges : p.computeDeterministicRanges columnType (some b) =
      (List.range (partitionCount p b)).map fun i =>
        ⟨i, partitionStart p b i, partitionEnd p b i⟩ := by
    rw [ParallelPlan.computeDeterministicRanges, hplan, ParallelPlan.chunksPerPartition,
      length_chunks]
    apply List.map_congr_left
    intro i hi
    have hlt := (lt_partitionCount_iff p b i).mp (List.mem_range.mp hi)
    have hhead := head?_group p b hlt
    have hlast := getLast?_group p b hlt
    rw [partitionSize] at hhead hlast
    simp only [hhead, hlast, Option.getD_some]
  have hfirst : 0 < partitionCount p b := by
    rw [lt_partitionCount_iff, Nat.zero_mul, chunkCount]
    exact Nat.succ_pos _
  rw [ParallelPlan.ranges, hranges, if_neg]
  rw [List.map_eq_nil_iff, List.range_eq_nil]
  exact hfirst.ne'

/-- The whole of a synthetic key is one partition. -/
theorem ranges_synthetic (total : Nat) :
    p.ranges .synthetic (some b) total = [⟨0, b.minVal, b.maxVal⟩] := by
  have hsize : p.chunksPerPartition [⟨b.minVal, b.maxVal⟩] = 1 := by
    rw [ParallelPlan.chunksPerPartition]
    exact Nat.max_eq_left (Nat.div_le_self 1 p.workers)
  have hranges : p.computeDeterministicRanges .synthetic (some b) =
      [⟨0, b.minVal, b.maxVal⟩] := by
    rw [ParallelPlan.computeDeterministicRanges, ParallelPlan.planTable, ParallelPlan.chunksFor]
    dsimp only
    rw [hsize, Nat.div_one]
    rfl
  rw [ParallelPlan.ranges, hranges, if_neg (List.cons_ne_nil _ _)]

theorem sum_map_range (f : Nat → Nat) (n : Nat) :
    ((List.range n).map f).sum = ∑ i ∈ Finset.range n, f i := by
  induction n with
  | zero => rfl
  | succ n ih => rw [List.range_succ, List.map_append, List.sum_append, ih, Finset.sum_range_succ,
      List.map_singleton, List.sum_singleton]

/-- The partition of a key. -/
def partitionOf (k : Int) : Nat := ((k - b.minVal) / partitionWidth p b).toNat

theorem partitionOf_spec {k : Int} (hmin : b.minVal ≤ k) (hmax : k ≤ b.maxVal) :
    partitionStart p b (partitionOf p b k) ≤ k ∧ k ≤ partitionEnd p b (partitionOf p b k) ∧
      partitionOf p b k < partitionCount p b := by
  have hwidth : (0 : Int) < partitionWidth p b := by exact_mod_cast partitionWidth_pos p b
  have hdiv := Int.ediv_mul_le (k - b.minVal) hwidth.ne'
  have hlt := Int.lt_ediv_add_one_mul_self (k - b.minVal) hwidth
  have hquot : ((partitionOf p b k : Nat) : Int) = (k - b.minVal) / partitionWidth p b :=
    Int.toNat_of_nonneg (Int.ediv_nonneg (by omega) hwidth.le)
  have hstart : partitionStart p b (partitionOf p b k) ≤ k := by
    rw [partitionStart, hquot]
    omega
  refine ⟨hstart, ?_, ?_⟩
  · rw [partitionEnd, hquot]
    omega
  · rw [lt_partitionCount_iff, ← cut_le_maxVal_iff, cut_mul_partitionSize]
    exact hstart.trans hmax

end Partitions

section Sums

variable {Row : Type} {key : Row → Int} {rows : List Row} {p : ParallelPlan}

theorem sum_hits_some {columnType : ChunkColumnType} (h : columnType ≠ .synthetic) {b : KeyBounds}
    {k : Int} (hmin : b.minVal ≤ k) (hmax : k ≤ b.maxVal) (total : Nat) :
    ((p.ranges columnType (some b) total).map fun range =>
        hits key rows p range.endValue range.startValue k).sum =
      hits key rows p (partitionEnd p b (partitionOf p b k))
        (partitionStart p b (partitionOf p b k)) k := by
  obtain ⟨hstart, hend, hcount⟩ := partitionOf_spec p b hmin hmax
  rw [ranges_of_ne_synthetic p b h, List.map_map, sum_map_range]
  apply Finset.sum_eq_single (partitionOf p b k)
  · intro i hi hne
    rw [partitionStart] at hstart
    rw [partitionEnd] at hend
    rcases Nat.lt_or_gt_of_ne hne with hlt | hgt
    · apply hits_eq_zero_of_gt
      dsimp only
      rw [partitionEnd]
      have : ((i : Int) + 1) * partitionWidth p b ≤ partitionOf p b k * partitionWidth p b := by
        gcongr
        exact_mod_cast hlt
      omega
    · apply hits_eq_zero_of_lt
      dsimp only
      rw [partitionStart]
      have : ((partitionOf p b k : Int) + 1) * partitionWidth p b ≤ i * partitionWidth p b := by
        gcongr
        exact_mod_cast hgt
      omega
  · intro h
    exact absurd (Finset.mem_range.mpr hcount) h

theorem sum_hits_some_of_outside {columnType : ChunkColumnType} (hne : columnType ≠ .synthetic)
    {b : KeyBounds} {k : Int} (h : k < b.minVal ∨ b.maxVal < k) (total : Nat) :
    ((p.ranges columnType (some b) total).map fun range =>
        hits key rows p range.endValue range.startValue k).sum = 0 := by
  rw [ranges_of_ne_synthetic p b hne, List.map_map, sum_map_range]
  apply Finset.sum_eq_zero
  intro i hi
  rcases h with hlt | hgt
  · apply hits_eq_zero_of_lt
    dsimp only
    rw [partitionStart]
    have : 0 ≤ (i : Int) * partitionWidth p b := by positivity
    omega
  · apply hits_eq_zero_of_gt
    dsimp only
    rw [partitionEnd]
    omega

theorem sum_hits_synthetic (b : KeyBounds) (k : Int) (total : Nat) :
    ((p.ranges .synthetic (some b) total).map fun range =>
        hits key rows p range.endValue range.startValue k).sum =
      hits key rows p b.maxVal b.minVal k := by
  rw [ranges_synthetic, List.map_singleton, List.sum_singleton]

def idRangeCount (p : ParallelPlan) (total : Nat) : Nat :=
  if total = 0 then 0 else max 1 ((total + p.chunkSize - 1) / p.chunkSize)

theorem ranges_none (columnType : ChunkColumnType) (total : Nat) :
    p.ranges columnType none total =
      (List.range (idRangeCount p total)).map fun i =>
        ⟨i, cut p 0 i, cut p 0 (i + 1)⟩ := by
  have hempty : p.computeDeterministicRanges columnType none = [] := by
    simp [ParallelPlan.computeDeterministicRanges, ParallelPlan.planTable,
      ParallelPlan.chunksPerPartition]
  rw [ParallelPlan.ranges, if_pos hempty, ParallelPlan.computeIdRanges, idRangeCount]
  split
  · rfl
  · simp only [cut, zero_add, Nat.cast_succ]

theorem hits_idRange {i : Nat} {k : Int} (hrow : ∃ r ∈ rows, key r = k) :
    hits key rows p (cut p 0 (i + 1)) (cut p 0 i) k =
      if cut p 0 i ≤ k ∧ k ≤ cut p 0 (i + 1) then 1 else 0 := by
  have hpos := p.chunkSize_pos
  have hnext : cut p (cut p 0 i) 1 = cut p 0 (i + 1) := by
    simp only [cut]
    push_cast
    ring
  have hwide : cut p 0 i < cut p 0 (i + 1) := by
    rw [← hnext, cut_one]
    omega
  split
  · next h =>
      rw [hits_eq_one_iff h.1 h.2 hrow]
      apply readOnce_of_le hwide
      rw [hnext]
      omega
  · next h =>
      rw [not_and_or, not_le, not_le] at h
      rcases h with h | h
      · exact hits_eq_zero_of_lt h
      · exact hits_eq_zero_of_gt h

theorem cut_mono {i j : Nat} (h : i ≤ j) : cut p 0 i ≤ cut p 0 j := by
  obtain ⟨d, rfl⟩ := Nat.exists_eq_add_of_le h
  have : cut p 0 (i + d) = cut p (cut p 0 i) d := by
    simp only [cut]
    push_cast
    ring
  rw [this]
  exact start_le_cut _ d

theorem sum_idRanges_eq_zero_iff (n : Nat) (k : Int) :
    (∑ i ∈ Finset.range n, if cut p 0 i ≤ k ∧ k ≤ cut p 0 (i + 1) then 1 else 0) = 0 ↔
      n = 0 ∨ k < 0 ∨ cut p 0 n < k := by
  have hzero := cut_zero (p := p) 0
  induction n with
  | zero => simp
  | succ n ih =>
      rw [Finset.sum_range_succ, Nat.add_eq_zero_iff]
      simp only [ih]
      have hn := cut_mono (p := p) (Nat.zero_le n)
      have hstep := cut_mono (p := p) (Nat.le_add_right n 1)
      split
      · omega
      · rcases Nat.eq_zero_or_pos n with rfl | hpos
        · omega
        · omega

/-- Ranges that share their end points read a key once where just one of them
contains it. -/
theorem sum_idRanges_eq_one_iff (n : Nat) (k : Int) :
    (∑ i ∈ Finset.range n, if cut p 0 i ≤ k ∧ k ≤ cut p 0 (i + 1) then 1 else 0) = 1 ↔
      0 < n ∧ 0 ≤ k ∧ k ≤ cut p 0 n ∧ ∀ i, 0 < i → i < n → k ≠ cut p 0 i := by
  have hzero := cut_zero (p := p) 0
  induction n with
  | zero => simp
  | succ n ih =>
      have hn := cut_mono (p := p) (Nat.zero_le n)
      have hstep := cut_mono (p := p) (Nat.le_add_right n 1)
      have hsplit : (∀ i, 0 < i → i < n + 1 → k ≠ cut p 0 i) ↔
          (∀ i, 0 < i → i < n → k ≠ cut p 0 i) ∧ (0 < n → k ≠ cut p 0 n) := by
        constructor
        · intro h
          exact ⟨fun i h0 hi => h i h0 (by omega), fun h0 => h n h0 (Nat.lt_succ_self n)⟩
        · rintro ⟨h, hlast⟩ i h0 hi
          rcases Nat.lt_succ_iff_lt_or_eq.mp hi with hi | rfl
          · exact h i h0 hi
          · exact hlast h0
      rw [Finset.sum_range_succ, hsplit]
      have hsum := sum_idRanges_eq_zero_iff (p := p) n k
      by_cases hin : cut p 0 n ≤ k ∧ k ≤ cut p 0 (n + 1)
      · rw [if_pos hin, Nat.add_eq_right, hsum]
        constructor
        · intro h
          refine ⟨Nat.succ_pos n, by omega, hin.2, ?_, by omega⟩
          intro i h0 hi
          have := cut_mono (p := p) hi.le
          omega
        · rintro ⟨-, -, -, -, hlast⟩
          rcases Nat.eq_zero_or_pos n with rfl | hpos
          · exact .inl rfl
          · have := hlast hpos
            omega
      · rw [if_neg hin, Nat.add_zero]
        simp only [ih]
        constructor
        · rintro ⟨h0, hk, hle, hinside⟩
          exact ⟨Nat.succ_pos n, hk, by omega, hinside, fun _ => by omega⟩
        · rintro ⟨-, hk, hle, hinside, hlast⟩
          rcases Nat.eq_zero_or_pos n with rfl | hpos
          · omega
          · exact ⟨hpos, hk, by omega, hinside⟩

end Sums

section Once

variable {Row : Type} (key : Row → Int) (rows : List Row) (p : ParallelPlan)

/-- Which keys the workers read once. With bounds from the planner: those within
the bounds that are read once in their partition, which is the whole for a synthetic key. Without:
those up to the reported row count that are not where two ranges meet. -/
def ReadByOneQuery (columnType : ChunkColumnType) (bounds : Option KeyBounds) (total : Nat)
    (k : Int) : Prop :=
  match bounds with
  | some b =>
      b.minVal ≤ k ∧ k ≤ b.maxVal ∧
        if columnType = .synthetic then ReadOnce key rows p b.minVal b.maxVal k
        else ReadOnce key rows p (partitionStart p b (partitionOf p b k))
          (partitionEnd p b (partitionOf p b k)) k
  | none =>
      0 < idRangeCount p total ∧ 0 ≤ k ∧ k ≤ cut p 0 (idRangeCount p total) ∧
        ∀ i, 0 < i → i < idRangeCount p total → k ≠ cut p 0 i

/-- The workers together extract every row exactly once, exactly when every key
of the table is one that a single range query reads. -/
theorem extracted_once_iff (columnType : ChunkColumnType) (bounds : Option KeyBounds)
    (total : Nat) :
    (extracted key rows p columnType bounds total).Perm rows ↔
      ∀ r ∈ rows, ReadByOneQuery key rows p columnType bounds total (key r) := by
  classical
  rw [extracted_perm_iff]
  apply forall₂_congr
  intro r hr
  have hrow : ∃ r' ∈ rows, key r' = key r := ⟨r, hr, rfl⟩
  cases bounds with
  | none =>
      rw [ranges_none, List.map_map, sum_map_range]
      simp only [Function.comp_apply, hits_idRange hrow]
      exact sum_idRanges_eq_one_iff _ _
  | some b =>
      rw [ReadByOneQuery]
      by_cases hsynthetic : columnType = .synthetic
      · rw [if_pos hsynthetic, hsynthetic, sum_hits_synthetic]
        rcases lt_or_ge (key r) b.minVal with hlt | hmin
        · rw [hits_eq_zero_of_lt hlt]
          exact iff_of_false (by decide) fun h => hlt.not_ge h.1
        rcases lt_or_ge b.maxVal (key r) with hgt | hmax
        · rw [hits_eq_zero_of_gt hgt]
          exact iff_of_false (by decide) fun h => hgt.not_ge h.2.1
        · rw [hits_eq_one_iff hmin hmax hrow]
          exact ⟨fun h => ⟨hmin, hmax, h⟩, fun h => h.2.2⟩
      · rw [if_neg hsynthetic]
        by_cases hin : b.minVal ≤ key r ∧ key r ≤ b.maxVal
        · obtain ⟨hstart, hend, -⟩ := partitionOf_spec p b hin.1 hin.2
          rw [sum_hits_some hsynthetic hin.1 hin.2, hits_eq_one_iff hstart hend hrow]
          exact ⟨fun h => ⟨hin.1, hin.2, h⟩, fun h => h.2.2⟩
        · rw [sum_hits_some_of_outside hsynthetic (by omega)]
          exact iff_of_false (by decide) fun h => hin ⟨h.1, h.2.1⟩

end Once

section SmallTables

def oneByOne : ParallelPlan := ⟨1, 1, by decide, by decide⟩

def bounds13 : KeyBounds := ⟨1, 3, by decide⟩

theorem extracted_middle :
    extracted (id : Int → Int) [1, 2, 3] oneByOne .identityPk (some bounds13) 3 = [1, 2, 2, 3] := by
  have hranges : oneByOne.ranges .identityPk (some bounds13) 3 = [⟨0, 1, 3⟩] := by
    rw [ranges_of_ne_synthetic _ _ (by decide)]
    decide
  rw [extracted, hranges, List.flatMap_singleton, migratePartition, if_pos (by decide),
    if_neg (by decide), migratePartition, if_pos (by decide), if_neg (by decide),
    migratePartition, if_neg (by decide)]
  decide

theorem extracted_single :
    extracted (id : Int → Int) [5] oneByOne .identityPk (some ⟨5, 5, le_rfl⟩) 1 = [] := by
  have hranges : oneByOne.ranges .identityPk (some ⟨5, 5, le_rfl⟩) 1 = [⟨0, 5, 5⟩] := by
    rw [ranges_of_ne_synthetic _ _ (by decide)]
    decide
  rw [extracted, hranges, List.flatMap_singleton, migratePartition, if_neg (by decide)]

/-- Of the keys 1, 2 and 3 in batches of one, the one in the middle is extracted
twice; the only key of a table is never extracted. -/
theorem middle_twice_and_single_never :
    ¬ (extracted (id : Int → Int) [1, 2, 3] oneByOne .identityPk (some bounds13) 3).Perm [1, 2, 3] ∧
      ¬ (extracted (id : Int → Int) [5] oneByOne .identityPk (some ⟨5, 5, le_rfl⟩) 1).Perm [5] := by
  rw [extracted_middle, extracted_single]
  decide

end SmallTables

end SqlOptima.ParallelMigration
