import SqlOptima.JobDispatch
import SqlOptima.PostMigrationDdl

namespace SqlOptima.PostMigrationFinalizer

open DdlIdentifier PostMigrationDdl
open JobDispatch (MigrationStatus)
open PythonTransforms (UnicodeTables)

section Models

inductive FinalizeObjectStatus where
  | pending | applied | skipped | failed | unsupported
  deriving DecidableEq

inductive FinalizePhaseStatus where
  | pending | inProgress | completed | partialPhase | failed | skipped
  deriving DecidableEq

structure PostMigrationFinalizeOptions where
  autoFinalizeAfterValidation : Bool := true
  finalizeIdentities : Bool := true
  finalizeIndexes : Bool := true
  finalizeForeignKeys : Bool := true
  finalizeCheckConstraints : Bool := true
  finalizeDefaults : Bool := true
  finalizeTriggers : Bool := false
  createIndexesConcurrently : Bool := false

structure FinalizeObjectResult where
  objectKey : String
  objectType : String
  status : FinalizeObjectStatus
  message : Option String := none
  ddl : Option String := none
  deriving DecidableEq

structure FinalizeTableResult where
  tableName : Ident
  targetSchema : Ident
  status : FinalizePhaseStatus
  objects : List FinalizeObjectResult

/-- A record of `migration_table_plans`; of `plan_config` the two keys that are read. -/
structure TablePlan where
  migrationTablePlanId : Nat
  schemaName : Option String
  tableName : Ident
  targetSchema : Option String
  status : String
  deferredSchema : Option DeferredTableSchema
  columnTypeCasts : List ColumnTypeCast
  deriving DecidableEq

/-- What `finalize_table` applies, object by object. -/
inductive DeferredObject where
  | typeCast (cast : ColumnTypeCast)
  | identity (col : DeferredIdentityColumn)
  | index (idx : DeferredSecondaryIndex)
  | foreignKey (fk : DeferredForeignKey)
  | check (chk : DeferredCheckConstraint)
  | default (default : DeferredColumnDefault)
  | trigger (triggerName : String)
  deriving DecidableEq

/-- Statements sent to the target for an object of a table plan, and how the one that raised
did so. -/
structure Attempt where
  plan : TablePlan
  object : DeferredObject
  statements : List String
  error : Option String

/-- The target, and what it was asked for so far. -/
structure Connection (D : Type) where
  db : D
  attempts : List Attempt

/-- `str.lower`, and what `strip` and `\d` read of Unicode. -/
structure PythonText where
  unicode : UnicodeTables
  lower : String → String
  lower_lower : ∀ s, lower (lower s) = lower s

end Models

section FinalizeTable

variable {D : Type} (py : PythonText) (exec : String → D → Option String × D)

/-- Up to the first statement that raises. -/
def executeStatements : List String → D → Option String × D
  | [], db => (none, db)
  | stmt :: stmts, db =>
      match exec stmt db with
      | (some error, db) => (some error, db)
      | (none, db) => executeStatements stmts db

/-- The `try` around the statements of an object. -/
def applyStatements (plan : TablePlan) (object : DeferredObject) (key objectType : String)
    (statements : List String) (message failedDdl : Option String) (conn : Connection D) :
    FinalizeObjectResult × Connection D :=
  let (error, db) := executeStatements exec statements conn.db
  let conn := ⟨db, conn.attempts ++ [⟨plan, object, statements, error⟩]⟩
  match error with
  | none => (⟨key, objectType, .applied, message, some ("\n".intercalate statements)⟩, conn)
  | some exc => (⟨key, objectType, .failed, some exc, failedDdl⟩, conn)

variable (opts : PostMigrationFinalizeOptions) (plan : TablePlan) (catalog : DeferredTableSchema)
variable (schemaResolver : SchemaMap)

def applyColumnTypeCast (cast : ColumnTypeCast) (conn : Connection D) :
    FinalizeObjectResult × Connection D :=
  let stmt := generateColumnTypeCast catalog.targetSchema catalog.tableName cast
  applyStatements exec plan (.typeCast cast) ("type_cast:" ++ cast.columnName.name)
    "column_type_cast" [stmt] (some (cast.loadPgType.getD "text" ++ " → " ++ cast.finalPgType))
    (some stmt) conn

def applyIdentity (col : DeferredIdentityColumn) (conn : Connection D) :
    FinalizeObjectResult × Connection D :=
  applyStatements exec plan (.identity col) col.columnName.name "identity"
    (generateIdentityFinalize catalog.targetSchema catalog.tableName col) none none conn

def applyIndex (idx : DeferredSecondaryIndex) (conn : Connection D) :
    FinalizeObjectResult × Connection D :=
  if truthy idx.unsupportedReason then
    (⟨idx.indexName.name, "index", .unsupported,
      some ("Unsupported index type: " ++ idx.unsupportedReason.getD ""), none⟩, conn)
  else
    match generateSecondaryIndex catalog.targetSchema catalog.tableName idx
        opts.createIndexesConcurrently with
    | none => (⟨idx.indexName.name, "index", .skipped, some "No DDL generated", none⟩, conn)
    | some ddl =>
        applyStatements exec plan (.index idx) idx.indexName.name "index" [ddl] none (some ddl) conn

def applyForeignKey (fk : DeferredForeignKey) (conn : Connection D) :
    FinalizeObjectResult × Connection D :=
  match generateForeignKey py.lower catalog.targetSchema catalog.tableName fk schemaResolver with
  | [] => (⟨fk.constraintName.name, "foreign_key", .skipped,
      some "Disabled or incomplete FK metadata", none⟩, conn)
  | stmts => applyStatements exec plan (.foreignKey fk) fk.constraintName.name "foreign_key" stmts
      none none conn

def applyCheck (chk : DeferredCheckConstraint) (conn : Connection D) :
    FinalizeObjectResult × Connection D :=
  match generateCheckConstraint py.unicode catalog.targetSchema catalog.tableName chk with
  | [] => (⟨chk.constraintName.name, "check", .skipped, none, none⟩, conn)
  | stmts => applyStatements exec plan (.check chk) chk.constraintName.name "check" stmts none none
      conn

def applyDefault (default : DeferredColumnDefault) (conn : Connection D) :
    FinalizeObjectResult × Connection D :=
  match generateColumnDefault py.unicode catalog.targetSchema catalog.tableName default with
  | none => (⟨default.columnName.name, "default", .skipped,
      some "Default expression not auto-transpilable", none⟩, conn)
  | some ddl => applyStatements exec plan (.default default) default.columnName.name "default"
      [ddl] none none conn

def skipTrigger (triggerName : String) (conn : Connection D) :
    FinalizeObjectResult × Connection D :=
  (⟨triggerName, "trigger", .skipped,
    some "Trigger conversion requires manual review — not auto-applied", none⟩, conn)

def applyObject (conn : Connection D) : DeferredObject → FinalizeObjectResult × Connection D
  | .typeCast cast => applyColumnTypeCast exec plan catalog cast conn
  | .identity col => applyIdentity exec plan catalog col conn
  | .index idx => applyIndex exec opts plan catalog idx conn
  | .foreignKey fk => applyForeignKey py exec plan catalog schemaResolver fk conn
  | .check chk => applyCheck py exec plan catalog chk conn
  | .default default => applyDefault py exec plan catalog default conn
  | .trigger triggerName => skipTrigger triggerName conn

/-- The objects of a table in the order of the sections of `finalize_table`. -/
def tableObjects (casts : List ColumnTypeCast) : List DeferredObject :=
  casts.map .typeCast ++
  (if opts.finalizeIdentities then catalog.identityColumns.map .identity else []) ++
  (if opts.finalizeIndexes then catalog.secondaryIndexes.map .index else []) ++
  (if opts.finalizeForeignKeys then catalog.foreignKeys.map .foreignKey else []) ++
  (if opts.finalizeCheckConstraints then catalog.checkConstraints.map .check else []) ++
  (if opts.finalizeDefaults then catalog.columnDefaults.map .default else []) ++
  (if opts.finalizeTriggers then catalog.triggers.map .trigger else [])

def applyObjects (conn : Connection D) :
    List DeferredObject → List FinalizeObjectResult × Connection D
  | [] => ([], conn)
  | object :: objects =>
      let (result, conn) := applyObject py exec opts plan catalog schemaResolver conn object
      let (results, conn) := applyObjects conn objects
      (result :: results, conn)

def finalizeTable (schemaMap : SchemaMap) (casts : List ColumnTypeCast) (conn : Connection D) :
    FinalizeTableResult × Connection D :=
  let schemaResolver := schemaMap.map fun e => (py.lower e.1, e.2)
  let (objects, conn) := applyObjects py exec opts plan catalog schemaResolver conn
    (tableObjects opts catalog casts)
  ({ tableName := catalog.tableName
     targetSchema := catalog.targetSchema
     status := if objects.any fun o => o.status = .failed then .partialPhase else .completed
     objects := objects }, conn)

end FinalizeTable

section FinalizeJob

variable {D : Type} (py : PythonText) (exec : String → D → Option String × D)
variable (opts : PostMigrationFinalizeOptions)

/-- `text or default` -/
def orName (text : Option String) (default : Ident) : Ident :=
  if h : text.getD "" = "" then default else ⟨text.getD "", h⟩

def dbo : Ident := ⟨"dbo", by decide⟩

def publicSchema : Ident := ⟨"public", by decide⟩

/-- The catalog in the plan, or one of the plan's own names. -/
def TablePlan.catalog (plan : TablePlan) : DeferredTableSchema :=
  match plan.deferredSchema with
  | some deferred => deferred
  | none =>
      { sourceSchema := (orName plan.schemaName dbo).name
        tableName := plan.tableName
        targetSchema := orName plan.targetSchema publicSchema }

/-- A plan without deferred objects and casts is passed over. -/
def TablePlan.passedOver (plan : TablePlan) : Bool :=
  plan.deferredSchema.isNone && plan.columnTypeCasts.isEmpty

/-- The loop over the table plans: the objects' results with the names of their tables. -/
def finalizePlans (schemaMap : SchemaMap) (conn : Connection D) :
    List TablePlan → List (Ident × FinalizeObjectResult) × Connection D
  | [] => ([], conn)
  | plan :: plans =>
      if plan.passedOver then finalizePlans schemaMap conn plans
      else
        let catalog := plan.catalog
        let schemaMap := (py.lower catalog.sourceSchema, catalog.targetSchema) :: schemaMap
        let (table, conn) := finalizeTable py exec opts plan catalog schemaMap
          plan.columnTypeCasts conn
        let (results, conn) := finalizePlans schemaMap conn plans
        (table.objects.map (fun o => (plan.tableName, o)) ++ results, conn)

/-- A job record; its plans have different primary keys. -/
structure MigrationJobRecord where
  status : MigrationStatus
  tablePlans : List TablePlan
  distinct : tablePlans.Nodup

structure PostMigrationFinalizeState where
  status : FinalizePhaseStatus
  tables : List (Ident × FinalizeObjectResult)
  lastError : Option String

/-- `finalize_migration_job` for a job whose record and target connection may be missing. -/
def finalizeMigrationJob (job : Option MigrationJobRecord) (targetFound : Bool) (db : D) :
    PostMigrationFinalizeState × Connection D :=
  match job with
  | none => (⟨.failed, [], some "Job not found"⟩, ⟨db, []⟩)
  | some job =>
      if targetFound then
        let (tables, conn) := finalizePlans py exec opts [] ⟨db, []⟩ job.tablePlans
        let status := if tables.any fun t => t.2.status = .failed then .partialPhase else .completed
        (⟨status, tables, none⟩, conn)
      else (⟨.failed, [], some "Target connection not found"⟩, ⟨db, []⟩)

/-- Whether `watch_go_migration_job` hands a job that has come to an end to the finalizer. -/
def watcherFinalizes (validateAfter finalizeAfter validationPassed : Bool)
    (job : MigrationJobRecord) : Bool :=
  let validationOk := !validateAfter || validationPassed
  finalizeAfter && (job.status = .completed || job.status = .partialRun) && validationOk &&
    opts.autoFinalizeAfterValidation

end FinalizeJob

end SqlOptima.PostMigrationFinalizer
