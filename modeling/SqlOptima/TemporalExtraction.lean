import SqlOptima.ParallelMigration

namespace SqlOptima.TemporalExtraction

open ParallelMigration

/-- `max(1, chunk_size)` keys a chunk. -/
def planner (chunkSize : Int) : ParallelPlan where
  chunkSize := (max 1 chunkSize).toNat
  workers := 1
  chunkSize_pos := by omega
  workers_pos := Nat.one_pos

def generateRanges (chunkSize : Int) (bounds : KeyBounds) (columnType : ChunkColumnType) :
    List ChunkBoundary :=
  (planner chunkSize).chunksFor bounds columnType

/-- The chunks of `plan_table`; the boundary of a chunk plan is optional. -/
def planTable (chunkSize : Int) (columnType : ChunkColumnType) (bounds : Option KeyBounds) :
    List (Option ChunkBoundary) :=
  match bounds with
  | none => []
  | some b => (generateRanges chunkSize b columnType).map some

/-- Which of the calls of an activity raise, with the text of the exception; a failed copy
may have sent some of its rows. -/
structure Faults where
  prepare : Option String
  extract : Nat → Option String
  copy : Nat → Option (String × Nat)
  disconnect : Option String

structure ActivityResult (Row : Type) where
  copied : List Row
  error : Option String

inductive Status where
  | completed | failed
  deriving DecidableEq

def ActivityResult.status {Row : Type} (result : ActivityResult Row) : Status :=
  if result.error.isNone then .completed else .failed

section Activity

variable {Row : Type} (key : Row → Int) (rows : List Row) (faults : Faults)

/-- `WHERE [column] >= ? AND [column] < ?` -/
def rangeQuery (chunk : ChunkBoundary) : List Row :=
  rows.filter fun r => chunk.start ≤ key r ∧ key r < chunk.stop

/-- The query of `DataExtractor.extract_range` for a chunk. -/
def engineQuery (chunk : ChunkBoundary) : List Row :=
  extractRange key rows chunk.start chunk.stop

/-- The loop over the chunk plans from index `idx` on. -/
def migrateChunks (idx : Nat) : List (Option ChunkBoundary) → ActivityResult Row
  | [] => ⟨[], none⟩
  | none :: chunkPlans => migrateChunks (idx + 1) chunkPlans
  | some boundary :: chunkPlans =>
      match faults.extract idx with
      | some error => ⟨[], some error⟩
      | none =>
          let chunk := rangeQuery key rows boundary
          if chunk.isEmpty then migrateChunks (idx + 1) chunkPlans
          else
            match faults.copy idx with
            | some (error, sent) => ⟨chunk.take sent, some error⟩
            | none =>
                let rest := migrateChunks (idx + 1) chunkPlans
                ⟨chunk ++ rest.copied, rest.error⟩

def migrateTable (chunkPlans : List (Option ChunkBoundary)) : ActivityResult Row :=
  match faults.prepare with
  | some error => ⟨[], some error⟩
  | none =>
      let result := migrateChunks key rows faults 0 chunkPlans
      { result with error := faults.disconnect.or result.error }

end Activity

section Runs

variable {Row : Type} {key : Row → Int} {rows : List Row} {faults : Faults}

/-- What the queries of the chunks return, one after the other. -/
def queried (query : ChunkBoundary → List Row) (chunkPlans : List (Option ChunkBoundary)) :
    List Row :=
  chunkPlans.flatMap fun plan => plan.elim [] query

variable (key rows faults) in
/-- No call that the loop makes raises. -/
def LoopUndisturbed (idx : Nat) (chunkPlans : List (Option ChunkBoundary)) : Prop :=
  ∀ i boundary, chunkPlans[i]? = some (some boundary) →
    faults.extract (idx + i) = none ∧
      (rangeQuery key rows boundary ≠ [] → faults.copy (idx + i) = none)

variable (key rows faults) in
def Undisturbed (chunkPlans : List (Option ChunkBoundary)) : Prop :=
  faults.prepare = none ∧ faults.disconnect = none ∧
    LoopUndisturbed key rows faults 0 chunkPlans

theorem loopUndisturbed_cons (idx : Nat) (plan : Option ChunkBoundary)
    (chunkPlans : List (Option ChunkBoundary)) :
    LoopUndisturbed key rows faults idx (plan :: chunkPlans) ↔
      (∀ boundary, plan = some boundary → faults.extract idx = none ∧
        (rangeQuery key rows boundary ≠ [] → faults.copy idx = none)) ∧
        LoopUndisturbed key rows faults (idx + 1) chunkPlans := by
  constructor
  · intro h
    refine ⟨fun boundary hplan => ?_, fun i boundary hi => ?_⟩
    · simpa using h 0 boundary (by simp [hplan])
    · simpa [Nat.add_assoc, Nat.add_comm 1] using h (i + 1) boundary (by simpa using hi)
  · rintro ⟨hhead, htail⟩ i boundary hi
    cases i with
    | zero => simpa using hhead boundary (by simpa using hi)
    | succ i => simpa [Nat.add_assoc, Nat.add_comm 1] using htail i boundary (by simpa using hi)

theorem migrateChunks_error_iff (idx : Nat) (chunkPlans : List (Option ChunkBoundary)) :
    (migrateChunks key rows faults idx chunkPlans).error = none ↔
      LoopUndisturbed key rows faults idx chunkPlans := by
  fun_induction migrateChunks key rows faults idx chunkPlans with
  | case1 idx => simp [LoopUndisturbed]
  | case2 idx chunkPlans ih => simp [loopUndisturbed_cons, ih]
  | case3 idx boundary chunkPlans error hfault => simp [loopUndisturbed_cons, hfault]
  | case4 idx boundary chunkPlans hfault chunk hempty ih =>
      have hnil : rangeQuery key rows boundary = [] := List.isEmpty_iff.mp hempty
      simp [loopUndisturbed_cons, hfault, hnil, ih]
  | case5 idx boundary chunkPlans hfault chunk hfound error sent hcopy =>
      have hne : rangeQuery key rows boundary ≠ [] := fun h => hfound (List.isEmpty_iff.mpr h)
      simp [loopUndisturbed_cons, hfault, hne, hcopy]
  | case6 idx boundary chunkPlans hfault chunk hfound hcopy rest ih =>
      simp [loopUndisturbed_cons, hfault, hcopy, ih, rest]

theorem migrateChunks_copied {idx : Nat} {chunkPlans : List (Option ChunkBoundary)}
    (h : (migrateChunks key rows faults idx chunkPlans).error = none) :
    (migrateChunks key rows faults idx chunkPlans).copied =
      queried (rangeQuery key rows) chunkPlans := by
  fun_induction migrateChunks key rows faults idx chunkPlans with
  | case1 idx => rfl
  | case2 idx chunkPlans ih => simpa [queried] using ih h
  | case3 idx boundary chunkPlans error hfault => cases h
  | case4 idx boundary chunkPlans hfault chunk hempty ih =>
      have hnil : rangeQuery key rows boundary = [] := List.isEmpty_iff.mp hempty
      simpa [queried, hnil] using ih h
  | case5 idx boundary chunkPlans hfault chunk hfound error sent hcopy => cases h
  | case6 idx boundary chunkPlans hfault chunk hfound hcopy rest ih =>
      rw [ih h]
      simp [queried, chunk]

theorem completed_iff (chunkPlans : List (Option ChunkBoundary)) :
    (migrateTable key rows faults chunkPlans).status = .completed ↔
      Undisturbed key rows faults chunkPlans := by
  rw [Undisturbed, ← migrateChunks_error_iff, migrateTable]
  cases hprepare : faults.prepare with
  | some error => simp [ActivityResult.status]
  | none => cases hdisconnect : faults.disconnect <;> simp [ActivityResult.status]

theorem copied_of_completed {chunkPlans : List (Option ChunkBoundary)}
    (h : Undisturbed key rows faults chunkPlans) :
    (migrateTable key rows faults chunkPlans).copied =
      queried (rangeQuery key rows) chunkPlans := by
  obtain ⟨hprepare, -, hloop⟩ := h
  rw [migrateTable, hprepare]
  exact migrateChunks_copied ((migrateChunks_error_iff 0 chunkPlans).mpr hloop)

end Runs

section Ranges

variable {Row : Type} {key : Row → Int} {rows : List Row}

theorem start_le_stop_of_mem {p : ParallelPlan} {current endVal : Int} {chunk : ChunkBoundary}
    (h : chunk ∈ p.generateRanges current endVal) : chunk.start ≤ chunk.stop := by
  fun_induction ParallelPlan.generateRanges p current endVal with
  | case1 current hle chunkEnd ih =>
      have hstep : 1 ≤ p.step := Nat.le_max_left _ _
      rcases List.mem_cons.mp h with rfl | h
      · show current ≤ chunkEnd
        omega
      · exact ih h
  | case2 current hgt => cases h

theorem start_le_stop_of_planned {chunkSize : Int} {columnType : ChunkColumnType}
    {bounds : Option KeyBounds} {chunk : ChunkBoundary}
    (h : some chunk ∈ planTable chunkSize columnType bounds) : chunk.start ≤ chunk.stop := by
  cases bounds with
  | none => cases h
  | some b =>
      have hmem : chunk ∈ generateRanges chunkSize b columnType := by simpa [planTable] using h
      cases columnType with
      | identityPk => exact start_le_stop_of_mem hmem
      | bigintPk => exact start_le_stop_of_mem hmem
      | synthetic =>
          rw [generateRanges, ParallelPlan.chunksFor, List.mem_singleton] at hmem
          rw [hmem]
          exact b.ordered

/-- The two queries differ by the rows at the end of the chunk. -/
theorem rangeQuery_eq_iff {chunk : ChunkBoundary} (hchunk : chunk.start ≤ chunk.stop) :
    rangeQuery key rows chunk = engineQuery key rows chunk ↔
      ∀ r ∈ rows, key r ≠ chunk.stop := by
  rw [rangeQuery, engineQuery, extractRange]
  constructor
  · intro h r hr hstop
    have hengine : r ∈ rows.filter fun r => chunk.start ≤ key r ∧ key r ≤ chunk.stop := by
      rw [List.mem_filter, decide_eq_true_eq]
      exact ⟨hr, by omega, by omega⟩
    rw [← h, List.mem_filter, decide_eq_true_eq] at hengine
    omega
  · intro h
    apply List.filter_congr
    intro r hr
    have := h r hr
    rw [decide_eq_decide]
    omega

def inRange (key : Row → Int) (rows : List Row) (low high : Int) : List Row :=
  rows.filter fun r => low ≤ key r ∧ key r ≤ high

/-- The engine's queries split the rows of the planned range. -/
theorem queried_generateRanges_perm (p : ParallelPlan) (current endVal : Int) :
    ((p.generateRanges current endVal).flatMap (engineQuery key rows)).Perm
      (inRange key rows current endVal) := by
  fun_induction ParallelPlan.generateRanges p current endVal with
  | case1 current hle chunkEnd ih =>
      have hstep : 1 ≤ p.step := Nat.le_max_left _ _
      have hfirst : engineQuery key rows ⟨current, chunkEnd⟩ =
          (inRange key rows current endVal).filter fun r => key r ≤ chunkEnd := by
        rw [engineQuery, extractRange, inRange, List.filter_filter]
        apply List.filter_congr
        intro r _
        rw [← Bool.decide_and, decide_eq_decide]
        dsimp only
        omega
      have hrest : inRange key rows (chunkEnd + 1) endVal =
          (inRange key rows current endVal).filter fun r => !decide (key r ≤ chunkEnd) := by
        rw [inRange, inRange, List.filter_filter]
        apply List.filter_congr
        intro r _
        rw [← decide_not, ← Bool.decide_and, decide_eq_decide]
        omega
      rw [List.flatMap_cons, hfirst]
      exact (ih.append_left _).trans (hrest ▸ List.filter_append_perm _ _)
  | case2 current hgt =>
      have hnone : inRange key rows current endVal = [] := by
        rw [inRange, List.filter_eq_nil_iff]
        intro r _
        rw [decide_eq_true_eq]
        omega
      rw [hnone]
      exact .nil

/-- The rows with a key in the range the planner was given. -/
def plannedRows (key : Row → Int) (rows : List Row) (bounds : Option KeyBounds) : List Row :=
  bounds.elim [] fun b => inRange key rows b.minVal b.maxVal

theorem queried_planTable_perm (chunkSize : Int) (columnType : ChunkColumnType)
    (bounds : Option KeyBounds) :
    (queried (engineQuery key rows) (planTable chunkSize columnType bounds)).Perm
      (plannedRows key rows bounds) := by
  cases bounds with
  | none => exact .nil
  | some b =>
      have hranges : queried (engineQuery key rows) (planTable chunkSize columnType (some b)) =
          (generateRanges chunkSize b columnType).flatMap (engineQuery key rows) := by
        simp [queried, planTable, List.flatMap_map]
      rw [hranges]
      cases columnType with
      | identityPk => exact queried_generateRanges_perm _ _ _
      | bigintPk => exact queried_generateRanges_perm _ _ _
      | synthetic =>
          simp [generateRanges, ParallelPlan.chunksFor, engineQuery, extractRange, plannedRows,
            inRange]

end Ranges

section Agreement

variable {Row : Type} (key : Row → Int) (rows : List Row) (faults : Faults)

/-- A completed activity has copied the rows of the planned range, each once, and has
selected in every chunk what the engine selects. -/
def ExtractorsAgree (chunkSize : Int) (columnType : ChunkColumnType)
    (bounds : Option KeyBounds) : Prop :=
  let chunkPlans := planTable chunkSize columnType bounds
  let result := migrateTable key rows faults chunkPlans
  result.status = .completed →
    result.copied.Perm (plannedRows key rows bounds) ∧
      ∀ chunk, some chunk ∈ chunkPlans → rangeQuery key rows chunk = engineQuery key rows chunk

/-- Unless a call raises, no key of the table is the end of a chunk. -/
theorem extractorsAgree_iff (chunkSize : Int) (columnType : ChunkColumnType)
    (bounds : Option KeyBounds) :
    ExtractorsAgree key rows faults chunkSize columnType bounds ↔
      (Undisturbed key rows faults (planTable chunkSize columnType bounds) →
        ∀ chunk, some chunk ∈ planTable chunkSize columnType bounds →
          ∀ r ∈ rows, key r ≠ chunk.stop) := by
  simp only [ExtractorsAgree, completed_iff]
  apply imp_congr_right
  intro hundisturbed
  have hqueries : (∀ chunk, some chunk ∈ planTable chunkSize columnType bounds →
      rangeQuery key rows chunk = engineQuery key rows chunk) ↔
        ∀ chunk, some chunk ∈ planTable chunkSize columnType bounds →
          ∀ r ∈ rows, key r ≠ chunk.stop := by
    apply forall₂_congr
    intro chunk hchunk
    exact rangeQuery_eq_iff (start_le_stop_of_planned hchunk)
  rw [← hqueries, copied_of_completed hundisturbed, and_iff_right_iff_imp]
  intro h
  have hsame : queried (rangeQuery key rows) (planTable chunkSize columnType bounds) =
      queried (engineQuery key rows) (planTable chunkSize columnType bounds) := by
    apply List.flatMap_congr
    rintro (_ | chunk) hchunk
    · rfl
    · exact h chunk hchunk
  rw [hsame]
  exact queried_planTable_perm chunkSize columnType bounds

variable {key rows faults}

theorem exists_stop_eq_maxVal (p : ParallelPlan) {current endVal : Int} (h : current ≤ endVal) :
    ∃ chunk ∈ p.generateRanges current endVal, chunk.stop = endVal := by
  fun_induction ParallelPlan.generateRanges p current endVal with
  | case1 current hle chunkEnd ih =>
      by_cases hlast : chunkEnd + 1 ≤ endVal
      · obtain ⟨chunk, hmem, hstop⟩ := ih hlast
        exact ⟨chunk, List.mem_cons_of_mem _ hmem, hstop⟩
      · refine ⟨_, List.mem_cons_self, ?_⟩
        dsimp only
        omega
  | case2 current hgt => exact absurd h hgt

/-- On a table that still has the greatest key of the plan, an undisturbed activity does
not agree with the engine. -/
theorem not_agree_of_greatest_key {chunkSize : Int} {columnType : ChunkColumnType}
    {b : KeyBounds} {r : Row} (hr : r ∈ rows) (hkey : key r = b.maxVal)
    (hundisturbed : Undisturbed key rows faults (planTable chunkSize columnType (some b))) :
    ¬ ExtractorsAgree key rows faults chunkSize columnType (some b) := by
  intro h
  obtain ⟨-, hqueries⟩ := h ((completed_iff _).mpr hundisturbed)
  obtain ⟨chunk, hmem, hstop⟩ : ∃ chunk ∈ generateRanges chunkSize b columnType,
      chunk.stop = b.maxVal := by
    cases columnType with
    | identityPk => exact exists_stop_eq_maxVal _ b.ordered
    | bigintPk => exact exists_stop_eq_maxVal _ b.ordered
    | synthetic => exact ⟨_, List.mem_singleton.mpr rfl, rfl⟩
  have hplan : some chunk ∈ planTable chunkSize columnType (some b) := List.mem_map_of_mem hmem
  have hnone := (rangeQuery_eq_iff (start_le_stop_of_planned hplan)).mp (hqueries chunk hplan)
  exact hnone r hr (hkey.trans hstop.symm)

end Agreement

def faultless : Faults := ⟨none, fun _ => none, fun _ => none, none⟩

theorem planTable_pairs :
    planTable 2 .bigintPk (some bounds13) = [some ⟨1, 2⟩, some ⟨3, 3⟩] := by
  have hstep : (planner 2).step = 2 := rfl
  rw [planTable, generateRanges, ParallelPlan.chunksFor, bounds13]
  unfold ParallelPlan.generateRanges ParallelPlan.generateRanges ParallelPlan.generateRanges
  simp [hstep]

/-- Of the keys 1, 2 and 3 in chunks of two, only the first arrives, and the activity
completes. -/
theorem chunk_ends_are_lost :
    (migrateTable (id : Int → Int) [1, 2, 3] faultless
        (planTable 2 .bigintPk (some bounds13))).status = .completed ∧
      (migrateTable (id : Int → Int) [1, 2, 3] faultless
        (planTable 2 .bigintPk (some bounds13))).copied = [1] ∧
      ¬ ExtractorsAgree (id : Int → Int) [1, 2, 3] faultless 2 .bigintPk (some bounds13) := by
  have hstatus : (migrateTable (id : Int → Int) [1, 2, 3] faultless
      (planTable 2 .bigintPk (some bounds13))).status = .completed := by
    rw [planTable_pairs]
    decide
  refine ⟨hstatus, ?_, ?_⟩
  · rw [planTable_pairs]
    decide
  · apply not_agree_of_greatest_key (r := 3)
    · decide
    · rfl
    · exact (completed_iff _).mp hstatus

end SqlOptima.TemporalExtraction
