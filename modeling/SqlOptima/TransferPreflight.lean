import SqlOptima.InsertionDict

namespace SqlOptima.TransferPreflight

open InsertionDict (fromPairs)

inductive TransferPath where
  | mssqlToPg | pgToMssql | pgToPg | mssqlToMssql
  deriving DecidableEq, Repr

inductive DatabaseEngine where
  | sqlserver | postgres
  deriving DecidableEq, Repr

def pathEngines : TransferPath → DatabaseEngine × DatabaseEngine
  | .mssqlToPg => (.sqlserver, .postgres)
  | .pgToMssql => (.postgres, .sqlserver)
  | .pgToPg => (.postgres, .postgres)
  | .mssqlToMssql => (.sqlserver, .sqlserver)

def isHomogeneous (path : TransferPath) : Bool :=
  (pathEngines path).1 = (pathEngines path).2

inductive Severity where
  | blocker | warning | info | ok
  deriving DecidableEq, Repr

structure ColumnInventory where
  name : String
  typeName : String
  nullable : Bool
  isIdentity : Bool := false
  isComputed : Bool := false
  deriving DecidableEq, Repr

/-- The entries of an object's `extra` that the comparison reads. -/
structure ObjectExtra where
  isPrimaryKey : Bool := false
  referenced : Option String := none
  referencedTable : Option String := none
  direction : Option String := none
  definition : Option String := none
  timing : Option String := none
  deriving DecidableEq, Repr

structure ObjectInventory where
  objectId : String
  kind : String
  extra : ObjectExtra
  deriving DecidableEq, Repr

structure TableInventory where
  schema : String
  table : String
  existing : Bool
  rowCount : Int := 0
  columns : List ColumnInventory := []
  constraints : List ObjectInventory := []
  indexes : List ObjectInventory := []
  foreignKeys : List ObjectInventory := []
  triggers : List ObjectInventory := []
  deriving DecidableEq, Repr

/-- `str.lower` and `str.strip`. -/
structure PythonText where
  lower : String → String
  strip : String → String

section Reports

structure MatchedColumn where
  name : String
  sourceType : String
  targetType : String
  deriving DecidableEq, Repr

structure MissingColumn where
  name : String
  sourceType : String
  severity : Severity
  message : String
  deriving DecidableEq, Repr

structure ExtraColumn where
  name : String
  targetType : String
  deriving DecidableEq, Repr

structure TypeMismatch where
  name : String
  sourceType : String
  targetType : String
  severity : Severity
  message : String
  deriving DecidableEq, Repr

structure NullabilityMismatch where
  name : String
  severity : Severity
  message : String
  deriving DecidableEq, Repr

structure ColumnsReport where
  matched : List MatchedColumn := []
  missingOnTarget : List MissingColumn := []
  extraOnTarget : List ExtraColumn := []
  typeMismatches : List TypeMismatch := []
  nullabilityMismatches : List NullabilityMismatch := []
  deriving DecidableEq, Repr

structure ConstraintEntry where
  id : String
  kind : String
  severity : Severity
  recommendedAction : String
  reason : Option String
  referenced : Option String
  direction : Option String
  definition : Option String
  deriving DecidableEq, Repr

structure ForeignKeyEntry where
  id : String
  direction : String
  referenced : String
  referencedInJob : Bool
  severity : Severity
  recommendedAction : String
  reason : String
  definition : Option String
  deriving DecidableEq, Repr

structure TriggerEntry where
  id : String
  timing : String
  severity : Severity
  recommendedAction : String
  reason : String
  definition : Option String
  deriving DecidableEq, Repr

structure IdentityReport where
  hasIdentityOrSerial : Bool
  recommendedAction : String
  reason : String
  deriving DecidableEq, Repr

structure TableReport where
  source : String × String
  target : String × String
  existence : String
  rowCountSource : Int
  rowCountTarget : Int
  columns : ColumnsReport
  constraints : List ConstraintEntry
  indexes : List ConstraintEntry
  foreignKeys : List ForeignKeyEntry
  triggers : List TriggerEntry
  identity : Option IdentityReport
  hasBlocker : Bool
  warningCount : Nat
  deriving DecidableEq, Repr

end Reports

section Columns

variable (py : PythonText)

def typeAliases : List (String × String) :=
  [("character varying", "varchar"), ("character", "char"),
    ("national character varying", "varchar"), ("national character", "char"),
    ("integer", "int"), ("int4", "int"), ("int8", "bigint"), ("int2", "smallint"),
    ("bool", "boolean"), ("timestamptz", "timestamp with time zone"), ("datetime2", "datetime"),
    ("nvarchar", "varchar"), ("nchar", "char"), ("sysname", "varchar"),
    ("float8", "double precision"), ("float4", "real"), ("numeric", "decimal")]

def normalizeType (typeName : String) : String :=
  let raw := py.lower (py.strip typeName)
  let raw :=
    if '(' ∈ raw.toList then py.strip (String.ofList (raw.toList.takeWhile (· != '('))) else raw
  (typeAliases.lookup raw).getD raw

/-- `{c.name.lower(): c for c in columns}` -/
def byName (columns : List ColumnInventory) : List (String × ColumnInventory) :=
  fromPairs (columns.map fun c => (py.lower c.name, c))

/-- What one source column adds to the report. -/
def compareColumn (homogeneous cloneMissing : Bool) (tgtBy : List (String × ColumnInventory))
    (key : String) (col : ColumnInventory) : ColumnsReport :=
  if col.isComputed then {}
  else
    match tgtBy.lookup key with
    | none =>
        if cloneMissing then { matched := [⟨col.name, col.typeName, col.typeName⟩] }
        else
          { missingOnTarget := [⟨col.name, col.typeName, .blocker,
              "Column " ++ col.name ++ " is missing on the target table"⟩] }
    | some tgt =>
        let nullability : List NullabilityMismatch :=
          if col.nullable && !tgt.nullable then
            [⟨col.name, .warning, "Source allows NULL but target does not"⟩]
          else []
        if normalizeType py col.typeName = normalizeType py tgt.typeName then
          { matched := [⟨col.name, col.typeName, tgt.typeName⟩]
            nullabilityMismatches := nullability }
        else
          { typeMismatches := [⟨col.name, col.typeName, tgt.typeName,
              if homogeneous then .blocker else .warning,
              if homogeneous then "Not assignment-compatible"
              else "Heterogeneous type mapping is not applied yet — review before load"⟩]
            nullabilityMismatches := nullability }

def compareColumns (source target : TableInventory) (homogeneous createIfMissing : Bool) :
    ColumnsReport :=
  let srcBy := byName py source.columns
  let tgtBy := byName py target.columns
  let cloneMissing := createIfMissing && !target.existing
  let compared := srcBy.map fun e => compareColumn py homogeneous cloneMissing tgtBy e.1 e.2
  { matched := compared.flatMap ColumnsReport.matched
    missingOnTarget := compared.flatMap ColumnsReport.missingOnTarget
    extraOnTarget := (tgtBy.filter fun e => !(srcBy.map Prod.fst).contains e.1).map fun e =>
      ⟨e.2.name, e.2.typeName⟩
    typeMismatches := compared.flatMap ColumnsReport.typeMismatches
    nullabilityMismatches := compared.flatMap ColumnsReport.nullabilityMismatches }

end Columns

section Objects

def constraintEntry (obj : ObjectInventory) (defaultAction : String) (reason : Option String)
    (severity : Severity) (kind : Option String) : ConstraintEntry where
  id := obj.objectId
  kind := kind.getD obj.kind
  severity := severity
  recommendedAction := defaultAction
  reason := reason
  referenced := obj.extra.referenced
  direction := obj.extra.direction
  definition := obj.extra.definition

def compareConstraint (c : ObjectInventory) : Option ConstraintEntry :=
  if c.kind = "primary_key" then some (constraintEntry c "keep" none .info none)
  else if c.kind ∈ ["check", "unique"] then
    some (constraintEntry c "disable"
      (some "Disable check/unique constraints during bulk load, then restore") .warning none)
  else none

def compareIndex (idx : ObjectInventory) : ConstraintEntry :=
  if idx.extra.isPrimaryKey then constraintEntry idx "keep" none .info (some "primary")
  else
    constraintEntry idx "disable" (some "Secondary index slows bulk load") .warning
      (some "secondary")

/-- A text that is there and not empty. -/
def truthy (text : Option String) : Option String := text.filter (· != "")

def compareForeignKey (py : PythonText) (tablesInJob : List String) (fk : ObjectInventory) :
    ForeignKeyEntry :=
  let referenced := ((truthy fk.extra.referenced).or (truthy fk.extra.referencedTable)).getD ""
  { id := fk.objectId
    direction := fk.extra.direction.getD "outgoing"
    referenced := referenced
    referencedInJob := (tablesInJob.map py.lower).contains (py.lower referenced)
    severity := .warning
    recommendedAction := "disable"
    reason := "Disable foreign keys during bulk load, then restore"
    definition := truthy fk.extra.definition }

def compareTrigger (tg : ObjectInventory) : TriggerEntry where
  id := tg.objectId
  timing := tg.extra.timing.getD "unknown"
  severity := .warning
  recommendedAction := "disable"
  reason := "INSERT triggers fire per row during bulk load"
  definition := truthy tg.extra.definition

def identityReport (source target : TableInventory) : Option IdentityReport :=
  if (source.columns ++ target.columns).any ColumnInventory.isIdentity then
    some ⟨true, "set_insert_identity", "Preserve source keys on identity/serial columns"⟩
  else none

/-- The status of the target, and whether it blocks. -/
def existence (target : TableInventory) (createIfMissing : Bool) : String × Bool :=
  if target.existing then ("exists", false)
  else ("missing", !createIfMissing)

def countSeverity (level : Severity) (columns : ColumnsReport)
    (constraints indexes : List ConstraintEntry) (foreignKeys : List ForeignKeyEntry)
    (triggers : List TriggerEntry) : Nat :=
  columns.missingOnTarget.countP (fun m => m.severity = level) +
    columns.typeMismatches.countP (fun m => m.severity = level) +
    columns.nullabilityMismatches.countP (fun m => m.severity = level) +
    constraints.countP (fun c => c.severity = level) +
    indexes.countP (fun c => c.severity = level) +
    foreignKeys.countP (fun f => f.severity = level) +
    triggers.countP (fun t => t.severity = level)

end Objects

def compareTable (py : PythonText) (path : TransferPath) (source target : TableInventory)
    (createIfMissing : Bool) (tablesInJob : List String) : TableReport :=
  let columns := compareColumns py source target (isHomogeneous path) createIfMissing
  let constraints := target.constraints.filterMap compareConstraint
  let indexes := target.indexes.map compareIndex
  let foreignKeys := target.foreignKeys.map (compareForeignKey py tablesInJob)
  let triggers := target.triggers.map compareTrigger
  { source := (source.schema, source.table)
    target := (target.schema, target.table)
    existence := (existence target createIfMissing).1
    rowCountSource := source.rowCount
    rowCountTarget := target.rowCount
    columns := columns
    constraints := constraints
    indexes := indexes
    foreignKeys := foreignKeys
    triggers := triggers
    identity := identityReport source target
    hasBlocker :=
      (existence target createIfMissing).2 ||
        columns.typeMismatches.any (fun m => m.severity = .blocker) ||
        columns.missingOnTarget.any (fun m => m.severity = .blocker)
    warningCount := countSeverity .warning columns constraints indexes foreignKeys triggers }

end SqlOptima.TransferPreflight
