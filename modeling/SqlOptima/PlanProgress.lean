import Mathlib.Algebra.BigOperators.Group.List.Basic
import Mathlib.Algebra.GroupWithZero.Nat

namespace SqlOptima.PlanProgress

section Metadata

inductive PlanStatus where
  | pending
  | running
  | migrating
  | completed
  | failed
  | stopped
  deriving DecidableEq

/-- A row of `transfer_table_plans` or of `migration_table_plans`; the error columns are the
former's. -/
structure TablePlan where
  jobId : String
  schemaName : String
  tableName : String
  status : PlanStatus := .pending
  rows : Nat := 0
  error : Option String := none
  errorCount : Nat := 0
  deriving DecidableEq

structure JobTotals where
  rows : Nat := 0
  tablesDone : Nat := 0
  deriving DecidableEq

/-- The plan rows of all jobs, and the totals of the job that runs. -/
structure Metadata where
  plans : List TablePlan
  totals : JobTotals := {}
  deriving DecidableEq

inductive Write where
  /-- `UpdateTransferTableProgress` and `UpdateTablePlanProgress`. -/
  | updateTableProgress (tableName : String) (status : PlanStatus) (rows : Nat)
  /-- `SetTransferTableError`. -/
  | setTableError (sourceSchema sourceTable message : String)
  /-- `UpdateTransferJobTotals` and `UpdateMigrationJobTotals`. -/
  | updateJobTotals (rows tablesDone : Nat)
  deriving DecidableEq

/-- The `WHERE` clause. -/
def Write.selects (jobId : String) : Write → TablePlan → Bool
  | .updateTableProgress tableName _ _, p => p.jobId = jobId && p.tableName = tableName
  | .setTableError sourceSchema sourceTable _, p =>
      p.jobId = jobId && p.schemaName = sourceSchema && p.tableName = sourceTable
  | .updateJobTotals _ _, _ => false

/-- The `SET` clause for a plan row. -/
def Write.set : Write → TablePlan → TablePlan
  | .updateTableProgress _ status rows, p => { p with status := status, rows := rows }
  | .setTableError _ _ message, p =>
      { p with status := .failed, error := some message, errorCount := p.errorCount + 1 }
  | .updateJobTotals _ _, p => p

def Write.setPlan (jobId : String) (w : Write) (p : TablePlan) : TablePlan :=
  if w.selects jobId p then w.set p else p

def Write.setTotals : Write → JobTotals → JobTotals
  | .updateJobTotals rows tablesDone, _ => ⟨rows, tablesDone⟩
  | _, totals => totals

def Metadata.exec (jobId : String) (m : Metadata) (w : Write) : Metadata :=
  ⟨m.plans.map (w.setPlan jobId), w.setTotals m.totals⟩

def Metadata.execAll (jobId : String) (m : Metadata) (ws : List Write) : Metadata :=
  ws.foldl (Metadata.exec jobId) m

/-- `CheckBeforeChunk`. -/
inductive CommandCheck where
  | goOn
  | stopped
  | failed
  deriving DecidableEq

end Metadata

section Transfer

structure TransferTable where
  sourceSchema : String
  sourceTable : String
  deriving DecidableEq

/-- What `Move` returns: its count of rows, or its error. -/
inductive CopyResult where
  | copied (rows : Nat)
  | stopped
  | failed (message : String)
  deriving DecidableEq

/-- What happens to one table: `reports` are the counts that `AfterChunk` is called with. -/
structure TransferOutcome where
  check : CommandCheck
  reports : List Nat
  result : CopyResult
  deriving DecidableEq

/-- The writes while a table is moved, before `Move` returns. -/
def transferProgress (table : TransferTable) (reports : List Nat) : List Write :=
  .updateTableProgress table.sourceTable .running 0 ::
    reports.map (.updateTableProgress table.sourceTable .running)

/-- The loop of `TransferGoJobHandler.Run` over the tables: the writes for each table in turn, and
after the loop the totals. -/
def transferTables : JobTotals → List (TransferTable × TransferOutcome) → List (List Write)
  | totals, [] => [[.updateJobTotals totals.rows totals.tablesDone]]
  | totals, (table, outcome) :: rest =>
      match outcome.check with
      | .stopped => []
      | .failed => []
      | .goOn =>
          let progress := transferProgress table outcome.reports
          match outcome.result with
          | .stopped => [progress]
          | .failed message =>
              [progress ++ [.setTableError table.sourceSchema table.sourceTable message]]
          | .copied rows =>
              let totals : JobTotals := ⟨totals.rows + rows, totals.tablesDone + 1⟩
              (progress ++
                [.updateTableProgress table.sourceTable .completed rows,
                 .updateJobTotals totals.rows totals.tablesDone]) :: transferTables totals rest

end Transfer

section Migration

structure MigrationTable where
  sourceSchema : String
  tableName : String
  skipDataLoad : Bool := false
  deriving DecidableEq

/-- A chunk that is loaded: the counts that the row callback reports, and its rows. -/
structure ChunkOutcome where
  reports : List Nat
  rows : Nat
  deriving DecidableEq

/-- How the loop over the chunks ends after the loaded ones. -/
inductive SequentialEnd where
  | finished
  /-- The context, a delay, a claim or a command check fails. -/
  | interrupted
  | stopped
  | chunkFailed (reports : List Nat)
  deriving DecidableEq

inductive ParallelEnd where
  | finished
  | stopped
  | failed
  deriving DecidableEq

/-- What happens in `Move`. Of parallel workers: the rows of the loaded chunks in the order in which
they are added, and for each report how many of them are added when it is made. -/
inductive MoveOutcome where
  | unplanned
  | empty
  | sequential (chunks : List ChunkOutcome) (ending : SequentialEnd)
  | parallel (chunkRows reports : List Nat) (ending : ParallelEnd)
  deriving DecidableEq

structure MigrationOutcome where
  check : CommandCheck
  move : MoveOutcome
  deriving DecidableEq

/-- What `Move` returns. -/
inductive MoveResult where
  | migrated (rows : Nat)
  | stopped
  | failed
  deriving DecidableEq

variable (table : MigrationTable) (jobBase : JobTotals)

/-- `UpdateTablePlanProgress` and `UpdateMigrationJobTotals` while the table is migrated. -/
def migrating (tableRows : Nat) : List Write :=
  [.updateTableProgress table.tableName .migrating tableRows,
   .updateJobTotals (jobBase.rows + tableRows) jobBase.tablesDone]

/-- `throttledChunkProgress.report`, for the reports that its throttle lets through. -/
def chunkReports (rowsMigrated : Nat) (reports : List Nat) : List Write :=
  reports.flatMap fun chunkRows => migrating table jobBase (rowsMigrated + chunkRows)

def moveSequential (ending : SequentialEnd) : Nat → List ChunkOutcome → List Write
  | rowsMigrated, [] =>
      match ending with
      | .finished => []
      | .interrupted => []
      | .stopped => [.updateTableProgress table.tableName .stopped rowsMigrated]
      | .chunkFailed reports =>
          chunkReports table jobBase rowsMigrated reports ++
            [.updateTableProgress table.tableName .failed rowsMigrated]
  | rowsMigrated, chunk :: rest =>
      chunkReports table jobBase rowsMigrated chunk.reports ++
        migrating table jobBase (rowsMigrated + chunk.rows) ++
        moveSequential ending (rowsMigrated + chunk.rows) rest

def moveParallel (chunkRows reports : List Nat) (ending : ParallelEnd) : List Write :=
  (reports.flatMap fun added => migrating table jobBase (chunkRows.take added).sum) ++
    match ending with
    | .finished => []
    | .stopped => [.updateTableProgress table.tableName .stopped chunkRows.sum]
    | .failed => [.updateTableProgress table.tableName .failed chunkRows.sum]

def markFailed (rowsMigrated : Nat) : List Write :=
  [.updateTableProgress table.tableName .failed rowsMigrated]

/-- The end of `Move` when all chunks are migrated. -/
def markCompleted (rowsMigrated : Nat) : List Write :=
  [.updateTableProgress table.tableName .completed rowsMigrated,
   .updateJobTotals (jobBase.rows + rowsMigrated) (jobBase.tablesDone + 1)]

/-- The writes of `Move` after its first, and what it returns. -/
def moveChunks : MoveOutcome → List Write × MoveResult
  | .unplanned => (markFailed table 0, .failed)
  | .empty => ([.updateTableProgress table.tableName .completed 0], .migrated 0)
  | .sequential chunks ending =>
      let writes := moveSequential table jobBase ending 0 chunks
      let rows := (chunks.map ChunkOutcome.rows).sum
      match ending with
      | .finished => (writes ++ markCompleted table jobBase rows, .migrated rows)
      | .stopped => (writes ++ markFailed table rows, .stopped)
      | .interrupted => (writes ++ markFailed table rows, .failed)
      | .chunkFailed _ => (writes ++ markFailed table rows, .failed)
  | .parallel chunkRows reports ending =>
      let writes := moveParallel table jobBase chunkRows reports ending
      match ending with
      | .finished =>
          (writes ++ markCompleted table jobBase chunkRows.sum, .migrated chunkRows.sum)
      -- on an error `moveParallel` returns its result without the rows
      | .stopped => (writes ++ markFailed table 0, .stopped)
      | .failed => (writes ++ markFailed table 0, .failed)

def move (outcome : MoveOutcome) : List Write × MoveResult :=
  let (writes, result) := moveChunks table jobBase outcome
  (.updateTableProgress table.tableName .migrating 0 :: writes, result)

/-- The loop of `MigrationGoJobHandler` over the tables: the writes for each table in turn, and
after the loop the totals. -/
def migrationTables : JobTotals → List (MigrationTable × MigrationOutcome) → List (List Write)
  | totals, [] => [[.updateJobTotals totals.rows totals.tablesDone]]
  | totals, (table, outcome) :: rest =>
      match outcome.check with
      | .stopped => []
      | .failed => []
      | .goOn =>
          if table.skipDataLoad then
            [.updateTableProgress table.tableName .completed 0] ::
              migrationTables ⟨totals.rows, totals.tablesDone + 1⟩ rest
          else
            match move table totals outcome.move with
            | (writes, .stopped) => [writes]
            | (writes, .failed) => writes :: migrationTables totals rest
            | (writes, .migrated rows) =>
                writes :: migrationTables ⟨totals.rows + rows, totals.tablesDone + 1⟩ rest

end Migration

end SqlOptima.PlanProgress
