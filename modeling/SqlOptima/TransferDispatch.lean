import SqlOptima.ConstraintPlan
import SqlOptima.TransferPreflight

namespace SqlOptima.TransferDispatch

open ConstraintPlan (TransferConstraintPlan)
open TransferPreflight (PythonText TableReport TransferPath)

/-- One table of the request, as the control plane hands it over. -/
structure TableRequest where
  sourceSchema : String
  sourceTable : String
  targetSchema : String
  targetTable : String
  columns : List String := []
  chunkSize : Option Int := none
  rowCountEstimate : Option Int := none
  deriving DecidableEq, Repr

structure TransferTablePayload where
  sourceSchema : String
  sourceTable : String
  targetSchema : String
  targetTable : String
  columns : List String
  chunkSize : Int
  orderColumn : Option String
  rowCountEstimate : Int
  deriving DecidableEq, Repr

structure TransferDispatchConfig where
  path : TransferPath
  tables : List TransferTablePayload
  constraintPlan : TransferConstraintPlan
  deriving DecidableEq, Repr

def TransferDispatchConfig.validate (cfg : TransferDispatchConfig) :
    Except String TransferDispatchConfig :=
  if cfg.tables = [] then .error "TransferDispatchConfig requires at least one table"
  else
    match cfg.tables.find? fun table => table.columns = [] ∨ "*" ∈ table.columns with
    | none => .ok cfg
    | some table =>
        if table.columns = [] then
          .error ("Table " ++ table.sourceTable ++ " has no resolved columns")
        else .error ("Table " ++ table.sourceTable ++ " must not use wildcard columns")

section Build

variable (py : PythonText)

def tableKey (schema table : String) : String := py.lower (schema ++ "." ++ table)

/-- The matched columns of a report, those without a name apart. -/
def matchedNames (report : TableReport) : List String :=
  (report.columns.matched.map (·.name)).filter (· != "")

/-- The names of the first report on the table that has some. -/
def columnsFromPreflight (preflight : List TableReport) (sourceSchema sourceTable : String) :
    List String :=
  ((preflight.find? fun report =>
    tableKey py report.source.1 report.source.2 = tableKey py sourceSchema sourceTable ∧
      matchedNames report ≠ []).map matchedNames).getD []

/-- `int(value or default)` -/
def intOr (value : Option Int) (default : Int) : Int :=
  (value.filter (· != 0)).getD default

def requestedColumns (table : TableRequest) : List String := table.columns.filter (· != "*")

def tablePayload (chunkSize : Int) (preflight : List TableReport) (table : TableRequest) :
    TransferTablePayload :=
  let requested := requestedColumns table
  let inferred := columnsFromPreflight py preflight table.sourceSchema table.sourceTable
  let columns := if requested = [] then inferred else requested
  { sourceSchema := table.sourceSchema
    sourceTable := table.sourceTable
    targetSchema := table.targetSchema
    targetTable := table.targetTable
    columns := columns
    chunkSize := intOr table.chunkSize chunkSize
    orderColumn := columns.head?
    rowCountEstimate := intOr table.rowCountEstimate 0 }

/-- No preflight reads as one without tables. -/
def buildTransferDispatchConfig (path : TransferPath) (tables : List TableRequest)
    (thresholdChunkSize : Option Int) (constraintPlan : TransferConstraintPlan)
    (preflight : List TableReport) : Except String TransferDispatchConfig :=
  let chunkSize := intOr thresholdChunkSize 10000
  TransferDispatchConfig.validate
    { path := path
      tables := tables.map (tablePayload py chunkSize preflight)
      constraintPlan := constraintPlan }

end Build

section Accepted

variable {py : PythonText} {path : TransferPath} {tables : List TableRequest}
  {thresholdChunkSize : Option Int} {constraintPlan : TransferConstraintPlan}
  {preflight : List TableReport} {cfg : TransferDispatchConfig}

theorem validate_eq_ok {cfg' : TransferDispatchConfig} (h : cfg.validate = .ok cfg') :
    cfg' = cfg ∧ ∀ table ∈ cfg.tables, table.columns ≠ [] ∧ "*" ∉ table.columns := by
  unfold TransferDispatchConfig.validate at h
  split at h
  · cases h
  · split at h
    · next hfind =>
        refine ⟨(Except.ok.inj h).symm, fun table htable => ?_⟩
        have hnot := List.find?_eq_none.mp hfind table htable
        rw [decide_eq_true_eq, not_or] at hnot
        exact hnot
    · split at h
      · cases h
      · cases h

/-- What an accepted configuration says of its tables. -/
theorem tables_of_build
    (h : buildTransferDispatchConfig py path tables thresholdChunkSize constraintPlan preflight =
      .ok cfg) :
    cfg.tables = tables.map (tablePayload py (intOr thresholdChunkSize 10000) preflight) ∧
      ∀ table ∈ cfg.tables, table.columns ≠ [] ∧ "*" ∉ table.columns := by
  obtain ⟨rfl, hcolumns⟩ := validate_eq_ok h
  exact ⟨rfl, hcolumns⟩

/-- The order column of an accepted table is the first of its columns. -/
theorem orderColumn_of_build
    (h : buildTransferDispatchConfig py path tables thresholdChunkSize constraintPlan preflight =
      .ok cfg) {payload : TransferTablePayload} (hpayload : payload ∈ cfg.tables) :
    ∃ first rest, payload.columns = first :: rest ∧ payload.orderColumn = some first := by
  obtain ⟨htables, hcolumns⟩ := tables_of_build h
  have hne := (hcolumns payload hpayload).1
  rw [htables] at hpayload
  obtain ⟨table, -, rfl⟩ := List.mem_map.mp hpayload
  obtain ⟨first, rest, heq⟩ := List.exists_cons_of_ne_nil hne
  refine ⟨first, rest, heq, ?_⟩
  change (tablePayload py (intOr thresholdChunkSize 10000) preflight table).columns.head? = _
  rw [heq, List.head?_cons]

end Accepted

end SqlOptima.TransferDispatch
