import Mathlib.Data.List.Count
import SqlOptima.ExceptRules
import SqlOptima.TableValidators

namespace SqlOptima.RowHashValidator

open TableValidators

/-- A row of a hash query: its key columns and the `row_hash`, which may be `None`. -/
structure HashRow (V : Type) where
  columns : List (String × V)
  rowHash : Option String

structure RowHashAnswers (V : Type) where
  sample : Answer (List (String × V))
  source : Answer (HashRow V)
  target : Answer (HashRow V)

structure RowHashValidationResult where
  schema : String
  table : String
  sampleSize : Nat
  rowsChecked : Nat := 0
  matchingRows : Nat := 0
  mismatchingRows : Nat := 0
  missingInTarget : Nat := 0
  missingInSource : Nat := 0
  issues : List String := []
  deriving DecidableEq

def RowHashValidationResult.passed (result : RowHashValidationResult) : Bool :=
  result.mismatchingRows = 0 && result.missingInTarget = 0

section Validate

variable {V : Type} (str : V → String)

/-- `r[c]`, or the `KeyError`. -/
def column (row : List (String × V)) (c : String) : Except String V :=
  match row.lookup c with
  | some v => .ok v
  | none => .error ("'" ++ c ++ "'")

def keyOf (pkColumns : List String) (row : List (String × V)) : Except String String := do
  let values ← pkColumns.mapM (column row)
  .ok ("|".intercalate (values.map str))

/-- A dictionary: a key keeps its first place and its last value. -/
def insertLast (entries : List (String × String)) (key value : String) : List (String × String) :=
  if entries.any fun e => e.1 = key then
    entries.map fun e => if e.1 = key then (key, value) else e
  else entries ++ [(key, value)]

def collectHashes (pkColumns : List String) (rows : List (HashRow V)) :
    Except String (List (String × String)) := do
  let entries ← rows.mapM fun row => do
    let key ← keyOf str pkColumns row.columns
    .ok (key, row.rowHash.getD "")
  .ok (entries.foldl (fun dict e => insertLast dict e.1 e.2) [])

/-- `_fetch_source_hashes` and `_fetch_target_hashes`: the values of the sampled keys, the
query, the dictionary of its rows. -/
def fetchHashes (pkColumns : List String) (sampleRows : List (List (String × V)))
    (answer : Answer (HashRow V)) : Except String (List (String × String)) := do
  let _ ← sampleRows.mapM fun row => pkColumns.mapM (column row)
  let rows ← answer
  collectHashes str pkColumns rows

def compareHash (tgtHashes : List (String × String)) (result : RowHashValidationResult)
    (entry : String × String) : RowHashValidationResult :=
  match tgtHashes.lookup entry.1 with
  | none => { result with
      missingInTarget := result.missingInTarget + 1
      issues := result.issues ++ ["Row " ++ entry.1 ++ " missing in target."] }
  | some tgtHash =>
      if entry.2 = tgtHash then { result with matchingRows := result.matchingRows + 1 }
      else { result with
        mismatchingRows := result.mismatchingRows + 1
        issues := result.issues ++ ["Row " ++ entry.1 ++ " hash mismatch: source=" ++
          String.ofList (entry.2.toList.take 8) ++ "… target=" ++
          String.ofList (tgtHash.toList.take 8) ++ "…"] }

/-- The comparison of both dictionaries. -/
def compareHashes (result : RowHashValidationResult) (srcHashes tgtHashes : List (String × String)) :
    RowHashValidationResult :=
  let compared := srcHashes.foldl (compareHash tgtHashes)
    { result with rowsChecked := srcHashes.length }
  { compared with
    missingInSource := tgtHashes.countP fun t => (srcHashes.lookup t.1).isNone }

variable (sampleSize : Nat) (schema table : String) (pkColumns : List String)

def validate (answers : RowHashAnswers V) : RowHashValidationResult :=
  let result : RowHashValidationResult :=
    { schema := schema, table := table, sampleSize := sampleSize }
  if pkColumns = [] then
    { result with issues := ["No PK columns provided; cannot perform row hash validation."] }
  else
    match answers.sample with
    | .error exc => { result with issues := ["Source sample query failed: " ++ exc] }
    | .ok [] => result
    | .ok srcRows =>
        match fetchHashes str pkColumns srcRows answers.source with
        | .error exc => { result with issues := ["Source hash query failed: " ++ exc] }
        | .ok srcHashes =>
            match fetchHashes str pkColumns srcRows answers.target with
            | .error exc => { result with issues := ["Target hash query failed: " ++ exc] }
            | .ok tgtHashes => compareHashes result srcHashes tgtHashes

end Validate

end SqlOptima.RowHashValidator

namespace SqlOptima.ValidationSoundness

open ExceptRules DdlIdentifier DoubleRounding ValidationEngine TableValidators
open RowHashValidator (RowHashAnswers fetchHashes column)

section Engine

variable {κ δ ε : Type} (engine : Validators κ δ ε)
variable (runAggregateValidation runChecksumValidation : Bool)

/-- Nothing but passed results, and all that were to be made. -/
def ReportSound (report : ValidationReport) : Prop :=
  report.overallStatus = .passed →
    report.results.length = report.totalObjects ∧ ∀ r ∈ report.results, r.status = .passed

theorem length_onRequest {run : Bool} {result : Except ε ValidationResult}
    {results : List ValidationResult} (h : onRequest run result = .ok results) :
    results.length = if run then 1 else 0 := by
  cases run with
  | false =>
      cases h
      rfl
  | true =>
      cases result with
      | error e => cases h
      | ok r =>
          cases h
          rfl

theorem length_validateEntry {entry : TableInfo κ} {db : δ} {results : List ValidationResult}
    (h : validateEntry engine runAggregateValidation runChecksumValidation entry db = .ok results) :
    results.length = if entry.tableName = "" then 0
      else entriesPerTable runAggregateValidation runChecksumValidation := by
  unfold validateEntry at h
  split at h
  · next hname =>
      cases h
      rw [if_pos hname, List.length_nil]
  · next hname =>
      obtain ⟨schemaResult, -, h⟩ := exists_of_bind_eq_ok h
      obtain ⟨rowResult, -, h⟩ := exists_of_bind_eq_ok h
      obtain ⟨cksumResult, hcksum, h⟩ := exists_of_bind_eq_ok h
      obtain ⟨aggResult, hagg, h⟩ := exists_of_bind_eq_ok h
      cases h
      simp only [if_neg hname, List.length_cons, List.length_append, length_onRequest hcksum,
        length_onRequest hagg, entriesPerTable]
      omega

/-- The entries that have a name. -/
def namedCount (tables : List (TableInfo κ × δ)) : Nat :=
  tables.countP fun t => t.1.tableName ≠ ""

theorem length_validateEntries {tables : List (TableInfo κ × δ)} {results : List ValidationResult}
    (h : validateEntries engine runAggregateValidation runChecksumValidation tables = .ok results) :
    results.length = namedCount tables *
      entriesPerTable runAggregateValidation runChecksumValidation := by
  induction tables generalizing results with
  | nil =>
      cases h
      simp [namedCount]
  | cons t tables ih =>
      obtain ⟨entry, db⟩ := t
      obtain ⟨first, hfirst, h⟩ := exists_of_bind_eq_ok h
      obtain ⟨others, hothers, h⟩ := exists_of_bind_eq_ok h
      cases h
      rw [List.length_append, ih hothers, length_validateEntry engine _ _ hfirst, namedCount,
        namedCount, List.countP_cons]
      by_cases hname : entry.tableName = ""
      · simp [hname]
      · simp [hname, Nat.add_mul, Nat.add_comm]

theorem entriesPerTable_pos : 0 < entriesPerTable runAggregateValidation runChecksumValidation := by
  unfold entriesPerTable
  omega

theorem namedCount_eq_length_iff (tables : List (TableInfo κ × δ)) :
    namedCount tables = tables.length ↔ ∀ t ∈ tables, t.1.tableName ≠ "" := by
  simp [namedCount, List.countP_eq_length]

theorem overallStatus_passed_iff (results : List ValidationResult) (totalObjects : Nat) :
    (summarize results totalObjects).overallStatus = .passed ↔
      ∀ r ∈ results, r.status ≠ .failed ∧ r.status ≠ .warning := by
  simp only [summarize, overallStatus]
  have hfailed : 0 < (results.countP fun r => r.status = .failed) ↔
      ∃ r ∈ results, r.status = .failed := by
    simp [List.countP_pos_iff]
  have hwarning : 0 < (results.countP fun r => r.status = .warning) ↔
      ∃ r ∈ results, r.status = .warning := by
    simp [List.countP_pos_iff]
  constructor
  · intro h r hr
    constructor
    · intro hr'
      rw [if_pos (hfailed.mpr ⟨r, hr, hr'⟩)] at h
      cases h
    · intro hr'
      rw [if_pos (hwarning.mpr ⟨r, hr, hr'⟩)] at h
      split at h <;> cases h
  · intro h
    rw [if_neg, if_neg]
    · intro hpos
      obtain ⟨r, hr, hr'⟩ := hwarning.mp hpos
      exact (h r hr).2 hr'
    · intro hpos
      obtain ⟨r, hr, hr'⟩ := hfailed.mp hpos
      exact (h r hr).1 hr'

/-- What keeps a report sound: a result that is counted, or entries that all have a name and
results of which none is errored or skipped. -/
def ReportGuarded (tables : List (TableInfo κ × δ)) (results : List ValidationResult) : Prop :=
  (∃ r ∈ results, r.status = .failed ∨ r.status = .warning) ∨
    (∀ t ∈ tables, t.1.tableName ≠ "") ∧ ∀ r ∈ results, r.status ≠ .error ∧ r.status ≠ .skipped

theorem reportSound_iff {tables : List (TableInfo κ × δ)} {results : List ValidationResult}
    (h : validateEntries engine runAggregateValidation runChecksumValidation tables = .ok results) :
    ReportSound (summarize results
        (tables.length * entriesPerTable runAggregateValidation runChecksumValidation)) ↔
      ReportGuarded tables results := by
  have hlength : results.length =
      tables.length * entriesPerTable runAggregateValidation runChecksumValidation ↔
        ∀ t ∈ tables, t.1.tableName ≠ "" := by
    rw [length_validateEntries engine _ _ h, ← namedCount_eq_length_iff]
    constructor
    · exact fun heq => Nat.eq_of_mul_eq_mul_right (entriesPerTable_pos _ _) heq
    · exact fun heq => congrArg (· * _) heq
  unfold ReportSound ReportGuarded
  rw [overallStatus_passed_iff]
  constructor
  · intro hsound
    by_cases hcounted : ∃ r ∈ results, r.status = .failed ∨ r.status = .warning
    · exact Or.inl hcounted
    · push Not at hcounted
      obtain ⟨hall, hpassed⟩ := hsound hcounted
      refine Or.inr ⟨hlength.mp hall, fun r hr => ?_⟩
      rw [hpassed r hr]
      exact ⟨nofun, nofun⟩
  · intro hguarded hnone
    cases hguarded with
    | inl hcounted =>
        obtain ⟨r, hr, hstatus⟩ := hcounted
        cases hstatus with
        | inl hfailed => exact absurd hfailed (hnone r hr).1
        | inr hwarning => exact absurd hwarning (hnone r hr).2
    | inr hguarded =>
        refine ⟨hlength.mpr hguarded.1, fun r hr => ?_⟩
        cases hstatus : r.status with
        | passed => rfl
        | failed => exact absurd hstatus (hnone r hr).1
        | warning => exact absurd hstatus (hnone r hr).2
        | error => exact absurd hstatus (hguarded.2 r hr).1
        | skipped => exact absurd hstatus (hguarded.2 r hr).2

theorem validateMigration_ok_iff (tables : List (TableInfo κ × δ)) (report : ValidationReport) :
    validateMigration engine runAggregateValidation runChecksumValidation tables = .ok report ↔
      ∃ results, validateEntries engine runAggregateValidation runChecksumValidation tables =
          .ok results ∧
        report = summarize results
          (tables.length * entriesPerTable runAggregateValidation runChecksumValidation) := by
  unfold validateMigration
  constructor
  · intro h
    obtain ⟨results, hresults, h⟩ := exists_of_bind_eq_ok h
    cases h
    exact ⟨results, hresults, rfl⟩
  · rintro ⟨results, hresults, rfl⟩
    rw [hresults]
    rfl

end Engine

section RowCount

theorem tolerance_of_nonpos {actual : Int} (h : actual ≤ 0) : tolerance actual = 100 := by
  have hactual : roundDouble actual ≤ 0 := roundDouble_nonpos (Int.cast_nonpos.mpr h)
  have hhundredth : 0 ≤ roundDouble (1 / 100) := roundDouble_nonneg (by norm_num)
  have hscaled : truncate (roundDouble (roundDouble (1 / 100) * roundDouble actual)) ≤ 0 :=
    truncate_nonpos (roundDouble_nonpos (mul_nonpos_of_nonneg_of_nonpos hhundredth hactual))
  unfold tolerance
  omega

theorem tolerance_lt {actual : Int} (h : 100 < actual) : tolerance actual < actual := by
  have hpos : (0 : ℚ) < actual := Int.cast_pos.mpr (by omega)
  have hactual : 0 ≤ roundDouble actual := roundDouble_nonneg hpos.le
  have hhundredth : 0 ≤ roundDouble (1 / 100) := roundDouble_nonneg (by norm_num)
  have hproduct : 0 ≤ roundDouble (1 / 100) * roundDouble actual := mul_nonneg hhundredth hactual
  have hscaled : (truncate (roundDouble (roundDouble (1 / 100) * roundDouble actual)) : ℚ) <
      actual := by
    calc (truncate (roundDouble (roundDouble (1 / 100) * roundDouble actual)) : ℚ)
        ≤ roundDouble (roundDouble (1 / 100) * roundDouble actual) :=
          truncate_le (roundDouble_nonneg hproduct)
      _ ≤ 2 * (roundDouble (1 / 100) * roundDouble actual) := roundDouble_le_two_mul hproduct
      _ ≤ 2 * (2 * (1 / 100) * (2 * actual)) := by
          gcongr
          · exact roundDouble_le_two_mul (by norm_num)
          · exact roundDouble_le_two_mul hpos.le
      _ < actual := by linarith
  have hscaled' := Int.cast_lt.mp hscaled
  unfold tolerance
  omega

/-- A failed target count lies within the tolerance of every small table. -/
theorem withinTolerance_neg_one (estimated : Int) :
    rowCountsWithinTolerance estimated (-1) = true ↔ |estimated + 1| ≤ 100 := by
  unfold rowCountsWithinTolerance
  rw [tolerance_of_nonpos (by norm_num), sub_neg_eq_add]
  split
  · next h => simp [h]
  · simp

/-- So does a failed source count. -/
theorem withinTolerance_zero (actual : Int) :
    rowCountsWithinTolerance 0 actual = true ↔ |actual| ≤ 100 := by
  unfold rowCountsWithinTolerance
  split
  · next h => simp [← h]
  · next h =>
      rw [if_neg (fun h0 => h h0.symm), decide_eq_true_eq, zero_sub, abs_neg]
      by_cases hneg : actual ≤ 0
      · rw [tolerance_of_nonpos hneg]
      · by_cases hlarge : 100 < actual
        · have hlt := tolerance_lt hlarge
          rw [abs_of_pos (by omega)]
          omega
        · rw [abs_of_pos (by omega)]
          have hleast : 100 ≤ tolerance actual := le_max_left _ _
          omega

variable (answers : RowCountAnswers) (tableName schema : String)

/-- The estimate that is compared: 0 when no count of the source could be read. -/
def sourceEstimate : Int := (partitionCount answers).getD (fetchExactCount answers)

/-- Neither the partitions gave a count nor the counting query. -/
def SourceCountFailed : Prop := partitionCount answers = none ∧ answers.exact.Failed

def NamesSafe : Prop :=
  isSafeIdentifier schema.toList = true ∧ isSafeIdentifier tableName.toList = true

def RowCountSound (expectedRowCount : Option Int) : Prop :=
  answers.target.Failed ∨ expectedRowCount = none ∧ SourceCountFailed answers →
    ∀ result, validateRowCount answers tableName schema expectedRowCount = .ok result →
      result.status ≠ .passed

/-- A failed count is compared with a number that is far from what stands in for it. -/
def RowCountGuarded : Option Int → Prop
  | some expected => answers.target.Failed → expected ≠ -1
  | none => NamesSafe tableName schema →
      (answers.target.Failed → 100 < |sourceEstimate answers + 1|) ∧
        (¬ answers.target.Failed → SourceCountFailed answers → 100 < |countTarget answers|)

theorem countTarget_of_failed (h : answers.target.Failed) : countTarget answers = -1 := by
  obtain ⟨e, he⟩ := h
  rw [countTarget, he]

theorem sourceEstimate_of_failed (h : SourceCountFailed answers) : sourceEstimate answers = 0 := by
  obtain ⟨hpartitions, e, he⟩ := h
  rw [sourceEstimate, hpartitions, fetchExactCount, he]
  rfl

theorem passes_expected_iff (expected : Int) :
    (∃ result, validateRowCount answers tableName schema (some expected) = .ok result ∧
      result.status = .passed) ↔ countTarget answers = expected := by
  by_cases hmatch : countTarget answers = expected
  · simp [validateRowCount, countsMatch, hmatch, bind, Except.bind]
  · simp [validateRowCount, countsMatch, hmatch, bind, Except.bind]

theorem fetch_of_namesSafe (h : NamesSafe tableName schema) :
    fetchSqlserverTableRowEstimate answers schema tableName = .ok (sourceEstimate answers) := by
  simp only [fetchSqlserverTableRowEstimate, validateSqlIdentifier, h.1, h.2, if_true]
  rfl

theorem fetch_of_not_namesSafe (h : ¬ NamesSafe tableName schema) :
    ∃ e, fetchSqlserverTableRowEstimate answers schema tableName = .error e := by
  unfold fetchSqlserverTableRowEstimate validateSqlIdentifier
  by_cases hschema : isSafeIdentifier schema.toList = true
  · have htable : ¬ isSafeIdentifier tableName.toList = true := fun ht => h ⟨hschema, ht⟩
    rw [if_pos hschema, if_neg htable]
    exact ⟨_, rfl⟩
  · rw [if_neg hschema]
    exact ⟨_, rfl⟩

theorem passes_estimate_iff :
    (∃ result, validateRowCount answers tableName schema none = .ok result ∧
      result.status = .passed) ↔ NamesSafe tableName schema ∧
        rowCountsWithinTolerance (sourceEstimate answers) (countTarget answers) = true := by
  by_cases hnames : NamesSafe tableName schema
  · cases hmatch : rowCountsWithinTolerance (sourceEstimate answers) (countTarget answers) with
    | false =>
        simp [validateRowCount, fetch_of_namesSafe answers tableName schema hnames, countsMatch,
          hmatch, bind, Except.bind]
    | true =>
        simp [validateRowCount, fetch_of_namesSafe answers tableName schema hnames, countsMatch,
          hmatch, hnames, bind, Except.bind]
  · obtain ⟨e, he⟩ := fetch_of_not_namesSafe answers tableName schema hnames
    simp [validateRowCount, he, hnames, bind, Except.bind]

theorem rowCountSound_iff_not_exists (expectedRowCount : Option Int) :
    RowCountSound answers tableName schema expectedRowCount ↔
      (answers.target.Failed ∨ expectedRowCount = none ∧ SourceCountFailed answers →
        ¬ ∃ result, validateRowCount answers tableName schema expectedRowCount = .ok result ∧
          result.status = .passed) := by
  unfold RowCountSound
  push Not
  rfl

theorem rowCountSound_iff (expectedRowCount : Option Int) :
    RowCountSound answers tableName schema expectedRowCount ↔
      RowCountGuarded answers tableName schema expectedRowCount := by
  rw [rowCountSound_iff_not_exists]
  cases expectedRowCount with
  | some expected =>
      rw [passes_expected_iff]
      constructor
      · intro hsound hfailed heq
        exact hsound (Or.inl hfailed) ((countTarget_of_failed answers hfailed).trans heq.symm)
      · intro hguarded hfailed heq
        cases hfailed with
        | inl hfailed =>
            exact hguarded hfailed (heq.symm.trans (countTarget_of_failed answers hfailed))
        | inr hnone => cases hnone.1
  | none =>
      rw [passes_estimate_iff]
      constructor
      · intro hsound hnames
        constructor
        · intro hfailed
          have hmiss := fun h => hsound (Or.inl hfailed) ⟨hnames, h⟩
          rw [countTarget_of_failed answers hfailed, withinTolerance_neg_one] at hmiss
          exact not_le.mp hmiss
        · intro _ hsource
          have hmiss := fun h => hsound (Or.inr ⟨rfl, hsource⟩) ⟨hnames, h⟩
          rw [sourceEstimate_of_failed answers hsource, withinTolerance_zero] at hmiss
          exact not_le.mp hmiss
      · rintro hguarded hfailed ⟨hnames, hmatch⟩
        obtain ⟨htarget, hsource⟩ := hguarded hnames
        by_cases hfailed' : answers.target.Failed
        · rw [countTarget_of_failed answers hfailed', withinTolerance_neg_one] at hmatch
          exact not_le.mpr (htarget hfailed') hmatch
        · have hsource' : SourceCountFailed answers := by
            cases hfailed with
            | inl h => exact absurd h hfailed'
            | inr h => exact h.2
          rw [sourceEstimate_of_failed answers hsource', withinTolerance_zero] at hmatch
          exact not_le.mpr (hsource hfailed' hsource') hmatch

end RowCount

section Aggregate

variable {V : Type} [DecidableEq V] (py : Conversions V) (answers : AggregateAnswers V)
variable (tableName schema targetSchema : String) (aggregateColumns : Option (List String))

/-- The query of the columns fails, or one of the aggregate queries that are made. -/
def AggregateQueryFailed : Prop :=
  aggregateColumns = none ∧ answers.columns.Failed ∨
    ∃ idx < (aggregateColumns.getD (detectNumericColumns answers)).length,
      (answers.source idx).Failed ∨ (answers.target idx).Failed

theorem firstRow_of_failed {Row : Type} {answer : Answer Row} (h : answer.Failed) :
    firstRow answer = none := by
  obtain ⟨e, rfl⟩ := h
  rfl

theorem columnResult_of_failed {idx : Nat} (col : String)
    (h : (answers.source idx).Failed ∨ (answers.target idx).Failed) :
    (columnResult py answers tableName schema targetSchema col idx).1 = .error := by
  unfold columnResult
  cases h with
  | inl hsource => rw [firstRow_of_failed hsource]
  | inr htarget =>
      have hnone : getAggregatesTarget answers targetSchema tableName col idx = none := by
        unfold getAggregatesTarget
        rw [firstRow_of_failed htarget]
        split <;> rfl
      rw [hnone]
      split
      · next heq => cases heq
      · rfl

theorem aggregate_sound (h : AggregateQueryFailed answers aggregateColumns) :
    (validateAggregates py answers tableName schema targetSchema aggregateColumns).status ≠
      .passed := by
  by_cases hcolumns : aggregateColumns.getD (detectNumericColumns answers) = []
  · simp only [validateAggregates, hcolumns, if_true]
    nofun
  · simp only [validateAggregates, if_neg hcolumns]
    have herrored : ∃ idx < (aggregateColumns.getD (detectNumericColumns answers)).length,
        (answers.source idx).Failed ∨ (answers.target idx).Failed := by
      cases h with
      | inr h => exact h
      | inl h =>
          obtain ⟨hnone, e, he⟩ := h
          rw [hnone, Option.getD_none, detectNumericColumns, he] at hcolumns
          exact absurd rfl hcolumns
    obtain ⟨idx, hidx, hfailed⟩ := herrored
    have hany : ((aggregateColumns.getD (detectNumericColumns answers)).zipIdx.map fun c =>
        columnResult py answers tableName schema targetSchema c.1 c.2).any
          (fun c => c.1 = .failed || c.1 = .error) = true := by
      rw [List.any_map, List.any_eq_true]
      refine ⟨(_, idx), List.mk_mem_zipIdx_iff_getElem?.mpr (List.getElem?_eq_getElem hidx), ?_⟩
      simp [columnResult_of_failed py answers tableName schema targetSchema _ hfailed]
    simp only [hany, if_true]
    nofun

end Aggregate

section Chunk

variable {V : Type} (py : Conversions V) (answers : ChunkAnswers V) (request : ChunkRequest V)

theorem chunk_sound (h : answers.source.Failed ∨ answers.target.Failed)
    (result : ValidationResult) (hresult : validateChunk py answers request = .ok result) :
    result.status ≠ .passed := by
  unfold validateChunk at hresult
  obtain ⟨tgt, htgt, hresult⟩ := exists_of_bind_eq_ok hresult
  obtain ⟨-, -, htgt⟩ := exists_of_bind_eq_ok htgt
  have hmissing : querySource answers request = none ∨ tgt = none := by
    cases h with
    | inl hsource =>
        refine Or.inl ?_
        rw [querySource, firstRow_of_failed hsource]
        split <;> rfl
    | inr htarget =>
        refine Or.inr ?_
        rw [firstRow_of_failed htarget] at htgt
        split at htgt <;> cases htgt <;> rfl
  split at hresult
  · next src tgt' hsrc htgt' =>
      cases hmissing with
      | inl hnone => rw [hnone] at hsrc; cases hsrc
      | inr hnone => cases hnone
  · cases hresult
    nofun

end Chunk

section RowHash

variable {V : Type} (str : V → String) (sampleSize : Nat) (schema table : String)
variable (pkColumns : List String) (answers : RowHashAnswers V)

/-- A query that is made fails: the sample, for a sample that is not empty the source hashes,
and after these the target hashes. -/
def HashQueryFailed : Prop :=
  pkColumns ≠ [] ∧
    (answers.sample.Failed ∨
      ∃ srcRows, answers.sample = .ok srcRows ∧ srcRows ≠ [] ∧
        (∃ keys, (srcRows.mapM fun row => pkColumns.mapM (column row)) = .ok keys) ∧
        (answers.source.Failed ∨
          (∃ srcHashes, fetchHashes str pkColumns srcRows answers.source = .ok srcHashes) ∧
            answers.target.Failed))

theorem fetchHashes_of_failed {answer : Answer (RowHashValidator.HashRow V)}
    (srcRows : List (List (String × V))) (h : answer.Failed) :
    ∃ e, fetchHashes str pkColumns srcRows answer = .error e := by
  obtain ⟨e, rfl⟩ := h
  unfold fetchHashes
  cases srcRows.mapM fun row => pkColumns.mapM (column row) with
  | error e' => exact ⟨e', rfl⟩
  | ok keys => exact ⟨e, rfl⟩

/-- Every failed query ends the validation with counters of zero. -/
theorem validate_passed_of_failed (h : HashQueryFailed str pkColumns answers) :
    (RowHashValidator.validate str sampleSize schema table pkColumns answers).passed = true := by
  obtain ⟨hpk, hfailed⟩ := h
  unfold RowHashValidator.validate
  rw [if_neg hpk]
  cases hfailed with
  | inl hsample =>
      obtain ⟨e, he⟩ := hsample
      rw [he]
      rfl
  | inr hlater =>
      obtain ⟨srcRows, hsample, hne, -, hfailed⟩ := hlater
      rw [hsample]
      cases srcRows with
      | nil => exact absurd rfl hne
      | cons row rows =>
          cases hfailed with
          | inl hsource =>
              obtain ⟨e, he⟩ := fetchHashes_of_failed str pkColumns (row :: rows) hsource
              simp only [he]
              rfl
          | inr htarget =>
              obtain ⟨⟨srcHashes, hsrc⟩, htarget⟩ := htarget
              obtain ⟨e, he⟩ := fetchHashes_of_failed str pkColumns (row :: rows) htarget
              simp only [hsrc, he]
              rfl

theorem rowHash_sound_iff :
    (HashQueryFailed str pkColumns answers →
      (RowHashValidator.validate str sampleSize schema table pkColumns answers).passed = false) ↔
        ¬ HashQueryFailed str pkColumns answers := by
  constructor
  · intro hsound hfailed
    have hpassed := validate_passed_of_failed str sampleSize schema table pkColumns answers hfailed
    rw [hsound hfailed] at hpassed
    cases hpassed
  · exact fun hnone hfailed => absurd hfailed hnone

end RowHash

section Calls

/-- A validation of some tables by an engine, with a call of each single validator. -/
structure ValidationCalls (κ δ V ε : Type) where
  engine : Validators κ δ ε
  tables : List (TableInfo κ × δ)
  runAggregateValidation : Bool
  runChecksumValidation : Bool
  tableName : String
  schema : String
  targetSchema : String
  rowCounts : RowCountAnswers
  expectedRowCount : Option Int
  aggregates : AggregateAnswers V
  aggregateColumns : Option (List String)
  chunk : ChunkAnswers V
  chunkRequest : ChunkRequest V
  sampleSize : Nat
  pkColumns : List String
  hashes : RowHashAnswers V

variable {κ δ V ε : Type} [DecidableEq V] (py : Conversions V) (calls : ValidationCalls κ δ V ε)

structure NeverPassesOnFailure : Prop where
  engine : ∀ report, validateMigration calls.engine calls.runAggregateValidation
    calls.runChecksumValidation calls.tables = .ok report → ReportSound report
  rowCount : RowCountSound calls.rowCounts calls.tableName calls.schema calls.expectedRowCount
  aggregate : AggregateQueryFailed calls.aggregates calls.aggregateColumns →
    (validateAggregates py calls.aggregates calls.tableName calls.schema calls.targetSchema
      calls.aggregateColumns).status ≠ .passed
  chunk : calls.chunk.source.Failed ∨ calls.chunk.target.Failed →
    ∀ result, validateChunk py calls.chunk calls.chunkRequest = .ok result →
      result.status ≠ .passed
  rowHash : HashQueryFailed py.str calls.pkColumns calls.hashes →
    (RowHashValidator.validate py.str calls.sampleSize calls.schema calls.tableName
      calls.pkColumns calls.hashes).passed = false

structure FailuresCounted : Prop where
  engine : ∀ results, validateEntries calls.engine calls.runAggregateValidation
    calls.runChecksumValidation calls.tables = .ok results → ReportGuarded calls.tables results
  rowCount : RowCountGuarded calls.rowCounts calls.tableName calls.schema calls.expectedRowCount
  rowHash : ¬ HashQueryFailed py.str calls.pkColumns calls.hashes

theorem neverPassesOnFailure_iff :
    NeverPassesOnFailure py calls ↔ FailuresCounted py calls := by
  constructor
  · intro h
    constructor
    · intro results hresults
      have hreport := (validateMigration_ok_iff calls.engine _ _ _ _).mpr ⟨results, hresults, rfl⟩
      exact (reportSound_iff calls.engine _ _ hresults).mp (h.engine _ hreport)
    · exact (rowCountSound_iff _ _ _ _).mp h.rowCount
    · exact (rowHash_sound_iff _ _ _ _ _ _).mp h.rowHash
  · intro h
    constructor
    · intro report hreport
      obtain ⟨results, hresults, rfl⟩ := (validateMigration_ok_iff calls.engine _ _ _ report).mp hreport
      exact (reportSound_iff calls.engine _ _ hresults).mpr (h.engine results hresults)
    · exact (rowCountSound_iff _ _ _ _).mpr h.rowCount
    · exact aggregate_sound py _ _ _ _ _
    · exact chunk_sound py _ _
    · exact (rowHash_sound_iff _ _ _ _ _ _).mpr h.rowHash

def intConversions : Conversions Int where
  float n := some (.finite (roundDouble n))
  str n := toString n

/-- The target is gone after its table was copied, and the catalogue cannot be read. -/
def lostAnswers : TableAnswers Int where
  rowCounts := ⟨.error "connection lost", true, .ok [some 40], .ok [some 40]⟩
  checksums := ⟨.ok [some 7], .error "connection lost"⟩
  aggregates := ⟨.error "connection lost", fun _ => .ok [], fun _ => .error "connection lost"⟩

def lostCalls : ValidationCalls String (TableAnswers Int) Int IdentifierError where
  engine := defaultValidators intConversions fun _ _ name => .ok { objectName := name }
  tables := [(⟨some "orders", some "dbo", some "public", none, none⟩, lostAnswers)]
  runAggregateValidation := true
  runChecksumValidation := false
  tableName := "orders"
  schema := "dbo"
  targetSchema := "public"
  rowCounts := lostAnswers.rowCounts
  expectedRowCount := none
  aggregates := lostAnswers.aggregates
  aggregateColumns := none
  chunk := ⟨.ok [⟨40, some 1, some 40, []⟩], .error "connection lost"⟩
  chunkRequest := ⟨"orders", ["id"], some 1, some 40, "dbo", "public", []⟩
  sampleSize := 1000
  pkColumns := ["id"]
  hashes := ⟨.ok [[("id", 1)]], .ok [⟨[("id", 1)], some "C4CA4238"⟩], .error "connection lost"⟩

theorem lost_target_passes_row_hash : ¬ NeverPassesOnFailure intConversions lostCalls := by
  intro h
  have hfailed : HashQueryFailed intConversions.str lostCalls.pkColumns lostCalls.hashes :=
    ⟨by decide, Or.inr ⟨_, rfl, List.cons_ne_nil _ _, ⟨_, rfl⟩, Or.inr ⟨⟨_, rfl⟩, _, rfl⟩⟩⟩
  have hpassed := h.rowHash hfailed
  rw [validate_passed_of_failed _ _ _ _ _ _ hfailed] at hpassed
  cases hpassed

end Calls

end SqlOptima.ValidationSoundness
