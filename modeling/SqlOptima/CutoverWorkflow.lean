import Mathlib.Data.Finmap
import SqlOptima.DoubleRounding
import SqlOptima.TransitionSystem

namespace SqlOptima.CutoverWorkflow

open DoubleRounding

abbrev Counts := Finmap (fun _ : String => Nat)

structure FreezeState where
  frozenAt : Int
  sourceRowCounts : Counts

structure CutoverInput where
  sourceConnectionId : String
  targetConnectionId : String
  tables : List String
  schema : String
  targetSchema : String
  requireHumanApproval : Bool
  rollbackOnFailure : Bool
  validationThresholdPct : ℚ
  snapshotRef : Option String

/-- A row of `cutover_checkpoints` that belongs to the job. -/
structure Checkpoint where
  id : Nat
  tables : List String
  schemaName : String
  targetSchema : String
  checkpointLsn : String
  snapshotRef : Option String
  committed : Bool
  createdAt : Int
  committedAt : Option Int
  rolledBackAt : Option Int
  writesFrozenAt : Option Int
  sourceRowCounts : Option Counts
  connectionSwitch : Option String

/-- What `verify_or_create` finds: the file of a reference, `pg_dump`, the override and the
outcome of a dump. -/
structure SnapshotFacts where
  fileUsable : Bool
  pgDumpFound : Bool
  allowNoSnapshot : Bool
  dump : Except String String

structure SnapshotResult where
  verified : Bool
  snapshotRef : Option String
  message : String
  created : Bool

def isExternalRef (ref : String) : Bool := ref.startsWith "s3://" || ref.startsWith "gs://"

def verifyRef (facts : SnapshotFacts) (ref : String) : SnapshotResult :=
  if facts.fileUsable then ⟨true, some ref, "Snapshot file verified", false⟩
  else if isExternalRef ref then
    ⟨true, some ref, "External snapshot ref accepted (operator-verified)", false⟩
  else ⟨false, some ref, "Snapshot not found: " ++ ref, false⟩

/-- `SnapshotGate.verify_or_create` with `require_snapshot`. -/
def verifyOrCreate (facts : SnapshotFacts) (existingRef : Option String) : SnapshotResult :=
  if existingRef.getD "" ≠ "" then verifyRef facts (existingRef.getD "")
  else if facts.pgDumpFound = false then
    if facts.allowNoSnapshot then
      ⟨true, none, "pg_dump unavailable; MIGRATION_ALLOW_NO_SNAPSHOT=1 override", false⟩
    else
      ⟨false, none, "pg_dump not found — install PostgreSQL client tools or set snapshot_ref",
        false⟩
  else
    match facts.dump with
    | .ok ref => ⟨true, some ref, "pg_dump snapshot created: " ++ ref, true⟩
    | .error message => ⟨false, none, message, false⟩

inductive CutoverError where
  | snapshot (message : String)
  | activity (message : String)
  | timedOut
  | rejected
  | validationBelow (validated total : Nat)
  | rollback (message : String)
  deriving DecidableEq

structure Result where
  success : Bool
  errors : List CutoverError
  tablesMigrated : Nat
  tablesValidated : Nat

def failedResult (error : CutoverError) : Result := ⟨false, [error], 0, 0⟩

/-- Where the run of the workflow stands, and inside an activity of several statements. -/
inductive Phase where
  | verifying
  | freezing (counts : Counts) (rest : List String)
  | syncing (rest : List String)
  | saving
  | waiting (polls : Nat)
  | validating (rest : List String) (validated : Nat)
  | switching (validated : Nat)
  | committing (validated : Nat)
  | rollingBack (validated : Nat)
  | ended (result : Result)

/-- The run, the checkpoints of its job, the rows of the source tables and, as a record
of the run: the last signal, the last signal at the decision, what the snapshot gate and
the freeze returned, and the statuses the validations returned. -/
structure State where
  phase : Phase
  approved : Bool
  signalReceived : Bool
  records : List Checkpoint
  source : String → Nat
  lastSignal : Option Bool
  decidedOn : Option (Option Bool)
  snapshot : Option SnapshotResult
  freeze : Option FreezeState
  statuses : List String

/-- `ORDER BY created_at DESC LIMIT 1`; `pick` says which of several newest rows it is. -/
def getLatestCheckpoint (records : List Checkpoint) (pick : Nat) : Option Checkpoint :=
  let newest := records.filter fun r => records.all fun r' => r'.createdAt ≤ r.createdAt
  newest[pick % newest.length]?

def updateRecord (records : List Checkpoint) (id : Nat) (f : Checkpoint → Checkpoint) :
    List Checkpoint :=
  records.map fun r => if r.id = id then f r else r

def recordWriteFreeze (records : List Checkpoint) (pick : Nat) (freeze : FreezeState) :
    List Checkpoint :=
  match getLatestCheckpoint records pick with
  | none => records
  | some record =>
      updateRecord records record.id fun r =>
        { r with
          writesFrozenAt := some freeze.frozenAt
          sourceRowCounts := some freeze.sourceRowCounts }

def storeConnectionSwitch (records : List Checkpoint) (pick : Nat) (manifest : String) :
    List Checkpoint :=
  match getLatestCheckpoint records pick with
  | none => records
  | some record =>
      updateRecord records record.id fun r => { r with connectionSwitch := some manifest }

def markCommitted (records : List Checkpoint) (pick : Nat) (now : Int) : List Checkpoint :=
  match getLatestCheckpoint records pick with
  | none => records
  | some record =>
      updateRecord records record.id fun r =>
        { r with committed := true, committedAt := some now }

/-- The checkpoint of the workflow: no freeze is passed on to it. -/
def newCheckpoint (inp : CutoverInput) (id : Nat) (now : Int) : Checkpoint where
  id := id
  tables := inp.tables
  schemaName := inp.schema
  targetSchema := inp.targetSchema
  checkpointLsn := "FINAL"
  snapshotRef := inp.snapshotRef
  committed := false
  createdAt := now
  committedAt := none
  rolledBackAt := none
  writesFrozenAt := none
  sourceRowCounts := none
  connectionSwitch := none

structure RollbackResult where
  success : Bool
  error : Option String
  tablesTruncated : List String
  snapshotRef : Option String
  errors : List String
  message : String

/-- `CutoverService.rollback`; `target` gives the error of the TRUNCATE of each table, if any,
and is `none` when the service has no connector. -/
def rollback (target : Option (String → Option String)) (record : Option Checkpoint) : RollbackResult :=
  match record with
  | none => ⟨false, some "No cutover checkpoint found for job", [], none, [], ""⟩
  | some record =>
      if record.committed then
        ⟨false, some "Cutover already committed — rollback window closed", [], none, [], ""⟩
      else
        let truncated := target.elim [] fun execute =>
          record.tables.filter fun table => (execute table).isNone
        let errors := target.elim [] fun execute =>
          record.tables.filterMap fun table => (execute table).map (table ++ ": " ++ ·)
        { success := errors.isEmpty
          error := none
          tablesTruncated := truncated
          snapshotRef := record.snapshotRef
          errors := errors
          message :=
            if record.snapshotRef.getD "" = "" then
              "Target tables truncated to pre-cutover state"
            else "Tables truncated; restore from snapshot: " ++ record.snapshotRef.getD "" }

def recordRollback (records : List Checkpoint) (pick : Nat) (now : Int) : List Checkpoint :=
  match getLatestCheckpoint records pick with
  | none => records
  | some record =>
      if record.committed then records
      else updateRecord records record.id fun r => { r with rolledBackAt := some now }

/-- `validated / len(tables) * 100` in doubles, or 100 without tables. -/
def validationPct (validated total : Nat) : ℚ :=
  if total = 0 then 100
  else roundDouble (roundDouble (validated / total) * 100)

/-- Whether `commit_cutover` stores a connection switch before it marks the checkpoint. -/
def storesSwitch (inp : CutoverInput) : Bool :=
  inp.sourceConnectionId ≠ "" && inp.targetConnectionId ≠ "" && !inp.tables.isEmpty

def startCommit (inp : CutoverInput) (validated : Nat) : Phase :=
  if storesSwitch inp then .switching validated else .committing validated

def completedResult (inp : CutoverInput) (validated : Nat) : Result :=
  ⟨true, [], inp.tables.length, validated⟩

/-- After the last validation. -/
def decideCutover (inp : CutoverInput) (validated : Nat) : Phase :=
  if validationPct validated inp.tables.length < inp.validationThresholdPct then
    if inp.rollbackOnFailure then .rollingBack validated
    else .ended (completedResult inp validated)
  else startCommit inp validated

def syncTables : List String → Phase
  | [] => .saving
  | rest => .syncing rest

def validateTables (inp : CutoverInput) (rest : List String) (validated : Nat) : Phase :=
  match rest with
  | [] => decideCutover inp validated
  | rest => .validating rest validated

def afterCheckpoint (inp : CutoverInput) : Phase :=
  if inp.requireHumanApproval then .waiting 0 else validateTables inp inp.tables 0

/-- The result after a rollback below the threshold. -/
def rolledBackResult (inp : CutoverInput) (validated : Nat) (rb : RollbackResult) : Result :=
  ⟨false, .validationBelow validated inp.tables.length :: rb.errors.map .rollback,
    inp.tables.length, validated⟩

/-- An activity that is not `returned` has failed after its statement and is tried again. -/
inductive Label where
  | approve
  | reject
  | sourceRows (table : String) (count : Nat)
  | activityFailed (message : String)
  | activityRetried
  | snapshotChecked (facts : SnapshotFacts)
  | tableCounted
  | freezeRecorded (now : Int) (pick : Nat) (returned : Bool)
  | tableMigrated
  | checkpointSaved (id : Nat) (now : Int) (returned : Bool)
  | polled
  | tableValidated (status : String)
  | switchStored (manifest : String) (pick : Nat)
  | committed (now : Int) (pick : Nat) (returned : Bool)
  | rolledBack (execute : String → Option String) (now : Int) (pick : Nat) (returned : Bool)
  | manualRollback (target : Option (String → Option String)) (now : Int) (pick : Nat)

/-- The phase in which the current activity starts again. -/
def restart (inp : CutoverInput) : Phase → Phase
  | .freezing _ _ => .freezing ∅ inp.tables
  | .committing validated => startCommit inp validated
  | phase => phase

def isRunning : Phase → Bool
  | .ended _ => false
  | _ => true

/-- The check of the signals after a sleep of the waiting loop. -/
def poll (inp : CutoverInput) (s : State) (polls : Nat) : State :=
  if s.signalReceived then
    { s with
      phase :=
        if s.approved then validateTables inp inp.tables 0
        else .ended (failedResult .rejected)
      decidedOn := some s.lastSignal }
  else if polls + 1 < 60 then { s with phase := .waiting (polls + 1) }
  else { s with phase := .ended (failedResult .timedOut) }

def step (inp : CutoverInput) (s : State) : Label → Option State
  | .approve =>
      some { s with approved := true, signalReceived := true, lastSignal := some true }
  | .reject =>
      some { s with approved := false, signalReceived := true, lastSignal := some false }
  | .sourceRows table count => some { s with source := Function.update s.source table count }
  | .activityFailed message =>
      match s.phase with
      | .ended _ => none
      | .waiting _ => none
      | _ => some { s with phase := .ended (failedResult (.activity message)) }
  | .activityRetried =>
      if isRunning s.phase then some { s with phase := restart inp s.phase } else none
  | .snapshotChecked facts =>
      match s.phase with
      | .verifying =>
          let snap := verifyOrCreate facts inp.snapshotRef
          some { s with
            snapshot := some snap
            phase :=
              if snap.verified then .freezing ∅ inp.tables
              else .ended (failedResult (.snapshot snap.message)) }
      | _ => none
  | .tableCounted =>
      match s.phase with
      | .freezing counts (table :: rest) =>
          some { s with phase := .freezing (counts.insert table (s.source table)) rest }
      | _ => none
  | .freezeRecorded now pick returned =>
      match s.phase with
      | .freezing counts [] =>
          let freeze : FreezeState := ⟨now, counts⟩
          some { s with
            records := recordWriteFreeze s.records pick freeze
            freeze := if returned then some freeze else s.freeze
            phase := if returned then syncTables inp.tables else .freezing ∅ inp.tables }
      | _ => none
  | .tableMigrated =>
      match s.phase with
      | .syncing (_ :: rest) => some { s with phase := syncTables rest }
      | _ => none
  | .checkpointSaved id now returned =>
      match s.phase with
      | .saving =>
          if id ∈ s.records.map Checkpoint.id then none
          else some { s with
            records := s.records ++ [newCheckpoint inp id now]
            phase := if returned then afterCheckpoint inp else .saving }
      | _ => none
  | .polled =>
      match s.phase with
      | .waiting polls => some (poll inp s polls)
      | _ => none
  | .tableValidated status =>
      match s.phase with
      | .validating (_ :: rest) validated =>
          some { s with
            statuses := s.statuses ++ [status]
            phase :=
              validateTables inp rest (if status = "passed" then validated + 1 else validated) }
      | _ => none
  | .switchStored manifest pick =>
      match s.phase with
      | .switching validated =>
          some { s with
            records := storeConnectionSwitch s.records pick manifest
            phase := .committing validated }
      | _ => none
  | .committed now pick returned =>
      match s.phase with
      | .committing validated =>
          some { s with
            records := markCommitted s.records pick now
            phase :=
              if returned then .ended (completedResult inp validated)
              else startCommit inp validated }
      | _ => none
  | .rolledBack execute now pick returned =>
      match s.phase with
      | .rollingBack validated =>
          let rb := rollback (some execute) (getLatestCheckpoint s.records pick)
          some { s with
            records := recordRollback s.records pick now
            phase :=
              if returned then .ended (rolledBackResult inp validated rb)
              else .rollingBack validated }
      | _ => none
  | .manualRollback _ now pick => some { s with records := recordRollback s.records pick now }

/-- The start of a run: its job id is fresh, so the job has no checkpoint yet. -/
structure AtStart (s : State) : Prop where
  phase : s.phase = .verifying
  approved : s.approved = false
  signalReceived : s.signalReceived = false
  records : s.records = []
  lastSignal : s.lastSignal = none
  statuses : s.statuses = []

/-- When every table is validated the double is exact. -/
theorem validationPct_self (total : Nat) : validationPct total total = 100 := by
  unfold validationPct
  split
  · rfl
  · next h =>
      have hone : roundDouble 1 = 1 := by
        apply roundDouble_of_eq (n := 2 ^ 52)
        simp
        norm_num
      have hhundred : roundDouble 100 = 100 := by
        have hlog : Int.log 2 |(100 : ℚ)| = 6 := by decide
        apply roundDouble_of_eq (n := 100 * 2 ^ 46)
        rw [hlog]
        norm_num
      rw [div_self (Nat.cast_ne_zero.mpr h), hone, one_mul, hhundred]

theorem exists_newest {records : List Checkpoint} (h : records ≠ []) :
    ∃ r ∈ records, ∀ r' ∈ records, r'.createdAt ≤ r.createdAt := by
  induction records with
  | nil => exact absurd rfl h
  | cons r records ih =>
      cases records with
      | nil => exact ⟨r, by simp, by simp⟩
      | cons r₁ records =>
          obtain ⟨m, hm, hmax⟩ := ih (by simp)
          rcases le_total r.createdAt m.createdAt with hle | hle
          · refine ⟨m, List.mem_cons_of_mem r hm, ?_⟩
            rintro r' (_ | ⟨_, hr'⟩)
            · exact hle
            · exact hmax r' hr'
          · refine ⟨r, by simp, ?_⟩
            rintro r' (_ | ⟨_, hr'⟩)
            · exact le_rfl
            · exact (hmax r' hr').trans hle

theorem getLatestCheckpoint_isSome {records : List Checkpoint} (h : records ≠ []) (pick : Nat) :
    (getLatestCheckpoint records pick).isSome := by
  obtain ⟨r, hr, hmax⟩ := exists_newest h
  have hmem : r ∈ records.filter fun r =>
      records.all fun r' => decide (r'.createdAt ≤ r.createdAt) := by
    simpa [hr] using hmax
  rw [getLatestCheckpoint, List.getElem?_eq_getElem (Nat.mod_lt _ (List.length_pos_of_mem hmem))]
  rfl

theorem mem_of_getLatestCheckpoint {records : List Checkpoint} {pick : Nat} {r : Checkpoint}
    (h : getLatestCheckpoint records pick = some r) : r ∈ records :=
  List.mem_of_mem_filter (List.mem_of_getElem? h)

def ordersInput : CutoverInput where
  sourceConnectionId := "source"
  targetConnectionId := "target"
  tables := ["orders"]
  schema := "dbo"
  targetSchema := "public"
  requireHumanApproval := true
  rollbackOnFailure := true
  validationThresholdPct := 100
  snapshotRef := some "s3://backups/orders"

def ordersStart : State where
  phase := .verifying
  approved := false
  signalReceived := false
  records := []
  source := fun _ => 10
  lastSignal := none
  decidedOn := none
  snapshot := none
  freeze := none
  statuses := []

theorem atStart_ordersStart : AtStart ordersStart := ⟨rfl, rfl, rfl, rfl, rfl, rfl⟩

/-- A cutover of one table up to its commit; after the freeze the table has `rows` rows. -/
def ordersRun (rows : Nat) : List Label :=
  [.snapshotChecked ⟨true, true, false, .ok ""⟩, .tableCounted, .freezeRecorded 1 0 true,
    .sourceRows "orders" rows, .tableMigrated, .checkpointSaved 1 2 true, .approve, .polled,
    .tableValidated "passed", .switchStored "manifest" 0]

def ordersState (rows : Nat) : State where
  phase := .committing 1
  approved := true
  signalReceived := true
  records := [{ newCheckpoint ordersInput 1 2 with connectionSwitch := some "manifest" }]
  source := Function.update (fun _ => 10) "orders" rows
  lastSignal := some true
  decidedOn := some (some true)
  snapshot := some ⟨true, some "s3://backups/orders", "Snapshot file verified", false⟩
  freeze := some ⟨1, (∅ : Counts).insert "orders" 10⟩
  statuses := ["passed"]

/-- The same cutover when it has been approved and not yet read the approval. -/
def ordersApproved (rows : Nat) : State where
  phase := .waiting 0
  approved := true
  signalReceived := true
  records := [newCheckpoint ordersInput 1 2]
  source := Function.update (fun _ => 10) "orders" rows
  lastSignal := some true
  decidedOn := none
  snapshot := some ⟨true, some "s3://backups/orders", "Snapshot file verified", false⟩
  freeze := some ⟨1, (∅ : Counts).insert "orders" 10⟩
  statuses := []

theorem runSteps_ordersApproved (rows : Nat) :
    TransitionSystem.runSteps (step ordersInput) ordersStart ((ordersRun rows).take 7) =
      some (ordersApproved rows) := rfl

theorem runSteps_ordersRun (rows : Nat) :
    TransitionSystem.runSteps (step ordersInput) ordersStart (ordersRun rows) =
      some (ordersState rows) := by
  rw [← List.take_append_drop 7 (ordersRun rows), TransitionSystem.runSteps_append,
    runSteps_ordersApproved]
  simp [ordersRun, ordersApproved, ordersState, ordersInput, TransitionSystem.runSteps, step,
    newCheckpoint, poll, validateTables, decideCutover, validationPct_self, startCommit,
    storesSwitch, storeConnectionSwitch, updateRecord, getLatestCheckpoint]

end SqlOptima.CutoverWorkflow
