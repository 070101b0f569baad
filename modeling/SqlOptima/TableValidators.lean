import Mathlib.Data.List.Count
import Mathlib.Data.List.DropRight
import SqlOptima.DdlIdentifier
import SqlOptima.DoubleRounding
import SqlOptima.NumberText

namespace SqlOptima.ValidationEngine

inductive ValidationStatus where
  | passed | failed | warning | error | skipped
  deriving DecidableEq

inductive ValidationCategory where
  | schema | rowCount | aggregate | chunk | checksum | queryResult | constraint | performance
  deriving DecidableEq

structure ValidationIssue where
  category : ValidationCategory
  severity : String := "warning"
  message : String := ""
  deriving DecidableEq

structure ValidationResult where
  objectName : String := ""
  category : ValidationCategory := .schema
  status : ValidationStatus := .passed
  issues : List ValidationIssue := []
  sourceCount : Option Int := none
  targetCount : Option Int := none
  deriving DecidableEq

structure ValidationReport where
  results : List ValidationResult
  totalObjects : Nat
  passed : Nat
  failed : Nat
  warnings : Nat
  overallStatus : ValidationStatus
  deriving DecidableEq

/-- An entry of `tables`; an absent key is `none`. -/
structure TableInfo (κ : Type) where
  name : Option String
  schema : Option String
  targetSchema : Option String
  sourceColumns : Option (List κ)
  targetColumns : Option (List κ)

def TableInfo.tableName {κ : Type} (entry : TableInfo κ) : String := entry.name.getD ""

def TableInfo.schemaName {κ : Type} (entry : TableInfo κ) : String := entry.schema.getD "dbo"

def TableInfo.targetSchemaName {κ : Type} (entry : TableInfo κ) : String :=
  entry.targetSchema.getD "public"

/-- The validators an engine is built with. A value of `δ` is what both databases answer while
a table is validated, a value of `ε` an exception a validator lets through. -/
structure Validators (κ δ ε : Type) where
  schemaValidator : List κ → List κ → String → Except ε ValidationResult
  rowCountValidator : δ → String → String → String → Except ε ValidationResult
  checksumValidator : δ → String → String → String → Except ε ValidationResult
  aggregateValidator : δ → String → String → String → Except ε ValidationResult

section Engine

variable {κ δ ε : Type} (engine : Validators κ δ ε)
variable (runAggregateValidation runChecksumValidation : Bool)

def entriesPerTable : Nat :=
  2 + (if runAggregateValidation then 1 else 0) + (if runChecksumValidation then 1 else 0)

/-- The result of a validation that runs on request. -/
def onRequest (run : Bool) (result : Except ε ValidationResult) :
    Except ε (List ValidationResult) :=
  if run then List.singleton <$> result else .ok []

/-- The results of one entry; one without a name is skipped. -/
def validateEntry (entry : TableInfo κ) (db : δ) : Except ε (List ValidationResult) :=
  if entry.tableName = "" then .ok []
  else do
    let schemaResult ← engine.schemaValidator (entry.sourceColumns.getD [])
      (entry.targetColumns.getD []) (entry.schemaName ++ "." ++ entry.tableName)
    let rowResult ← engine.rowCountValidator db entry.tableName entry.schemaName
      entry.targetSchemaName
    let cksumResult ← onRequest runChecksumValidation <|
      engine.checksumValidator db entry.tableName entry.schemaName entry.targetSchemaName
    let aggResult ← onRequest runAggregateValidation <|
      engine.aggregateValidator db entry.tableName entry.schemaName entry.targetSchemaName
    .ok (schemaResult :: rowResult :: (cksumResult ++ aggResult))

def validateEntries : List (TableInfo κ × δ) → Except ε (List ValidationResult)
  | [] => .ok []
  | (entry, db) :: tables => do
      let results ← validateEntry engine runAggregateValidation runChecksumValidation entry db
      let others ← validateEntries tables
      .ok (results ++ others)

def overallStatus (failed warnings : Nat) : ValidationStatus :=
  if failed > 0 then .failed else if warnings > 0 then .warning else .passed

/-- The report over the results of all entries: an errored or skipped result is not counted. -/
def summarize (results : List ValidationResult) (totalObjects : Nat) : ValidationReport :=
  let failed := results.countP fun r => r.status = .failed
  let warnings := results.countP fun r => r.status = .warning
  { results := results
    totalObjects := totalObjects
    passed := results.countP fun r => r.status = .passed
    failed := failed
    warnings := warnings
    overallStatus := overallStatus failed warnings }

def validateMigration (tables : List (TableInfo κ × δ)) : Except ε ValidationReport := do
  let results ← validateEntries engine runAggregateValidation runChecksumValidation tables
  .ok (summarize results
    (tables.length * entriesPerTable runAggregateValidation runChecksumValidation))

end Engine

end SqlOptima.ValidationEngine

namespace SqlOptima.TableValidators

open DdlIdentifier DoubleRounding ValidationEngine

/-- What a query gives: its rows, or the text of the exception. -/
abbrev Answer (Row : Type) := Except String (List Row)

def Answer.Failed {Row : Type} (answer : Answer Row) : Prop := ∃ e, answer = .error e

section RowCount

/-- The answers of the queries of a row count; a column of a source row may be absent or
`None`. `dmvAllowed` is the entry of the connector in `_dmv_supported_by_connector`. -/
structure RowCountAnswers where
  target : Answer Int
  dmvAllowed : Bool
  partitions : Answer (Option Int)
  exact : Answer (Option Int)

variable (answers : RowCountAnswers)

/-- `None` stands for `(0, False)`. -/
def fetchFromPartitions : Option Int :=
  match answers.partitions with
  | .ok (some rowCount :: _) => some rowCount
  | _ => none

def fetchExactCount : Int :=
  match answers.exact with
  | .ok (some cnt :: _) => cnt
  | _ => 0

/-- The count of the partitions, where it is allowed and there. -/
def partitionCount : Option Int :=
  if answers.dmvAllowed then fetchFromPartitions answers else none

def fetchSqlserverTableRowEstimate (schema table : String) : Except IdentifierError Int := do
  validateSqlIdentifier schema "schema"
  validateSqlIdentifier table "table"
  .ok ((partitionCount answers).getD (fetchExactCount answers))

def countTarget : Int :=
  match answers.target with
  | .ok (cnt :: _) => cnt
  | .ok [] => 0
  | .error _ => -1

/-- `max(100, int(0.01 * actual))` -/
def tolerance (actual : Int) : Int :=
  max 100 (truncate (roundDouble (roundDouble (1 / 100) * roundDouble actual)))

def rowCountsWithinTolerance (estimated actual : Int) : Bool :=
  if estimated = actual then true
  else if actual = 0 then estimated = 0
  else decide (|estimated - actual| ≤ tolerance actual)

def countsMatch (sourceCount targetCount : Int) : Option Int → Bool
  | some expected => targetCount = expected
  | none => rowCountsWithinTolerance sourceCount targetCount

/-- `RowCountValidator.validate` -/
def validateRowCount (tableName schema : String) (expectedRowCount : Option Int) :
    Except IdentifierError ValidationResult := do
  let targetCount := countTarget answers
  let sourceCount ← match expectedRowCount with
    | some expected => .ok expected
    | none => fetchSqlserverTableRowEstimate answers schema tableName
  let result : ValidationResult :=
    { objectName := schema ++ "." ++ tableName
      category := .rowCount
      sourceCount := some sourceCount
      targetCount := some targetCount }
  if countsMatch sourceCount targetCount expectedRowCount then .ok { result with status := .passed }
  else .ok { result with
    status := .failed
    issues := [⟨.rowCount, "error", "Row count mismatch: source=" ++ toString sourceCount ++
      ", target=" ++ toString targetCount⟩] }

end RowCount

section Checksum

structure ChecksumAnswers where
  source : Answer (Option Int)
  target : Answer (Option Int)

def checksumOf : Answer (Option Int) → Int
  | .ok (some chk :: _) => chk
  | .ok _ => 0
  | .error _ => -1

/-- `ChecksumValidator.validate` with its default algorithm. -/
def validateChecksum (answers : ChecksumAnswers) (tableName schema : String) : ValidationResult :=
  let sourceCrc := checksumOf answers.source
  let targetCrc := checksumOf answers.target
  let object := schema ++ "." ++ tableName
  { objectName := object
    category := .checksum
    status := .warning
    issues := [⟨.checksum, "warning", "CRC32 cross-database checksum comparison is unreliable for " ++
      object ++ ": BINARY_CHECKSUM (SQL Server) and hashtext(ROW_TO_JSON) (PostgreSQL) use " ++
      "incompatible algorithms and will never match even for identical data. " ++
      "Use AggregateValidator for data-integrity checks. (source=" ++ toString sourceCrc ++
      ", target=" ++ toString targetCrc ++ ")"⟩]
    sourceCount := some sourceCrc
    targetCount := some targetCrc }

end Checksum

/-- What `float` and `str` make of a value of a driver; `float` may raise. -/
structure Conversions (V : Type) where
  float : V → Option Double
  str : V → String

section Aggregate

variable {V : Type} [DecidableEq V] (py : Conversions V)

/-- The six digits after the point of `f"{num:.6f}"`, without the zeros at the end. -/
def fixedText (q : ℚ) : String :=
  let scaled := (roundHalfEven (|q| * 10 ^ 6)).toNat
  let digits := Nat.toDigits 10 (scaled / 10 ^ 6) ++ '.' :: NumberText.padded 6 10 (scaled % 10 ^ 6)
  let text := (if q < 0 then ['-'] else []) ++ digits
  String.ofList ((text.rdropWhile (· = '0')).rdropWhile (· = '.'))

def formatNumber : Double → String
  | .finite q => if q = ⌊q⌋ ∧ |q| < 10 ^ 15 then toString ⌊q⌋ else fixedText q
  | .infinity negative => if negative then "-inf" else "inf"
  | .nan => "nan"

def formatAggregateValue (v : V) : String :=
  match py.float v with
  | some num => formatNumber num
  | none => py.str v

structure AggregateRow (V : Type) where
  min : Option V
  max : Option V
  sum : Option V
  avg : Option V

inductive AggregateKey where
  | min | max | sum | avg
  deriving DecidableEq

def AggregateKey.text : AggregateKey → String
  | .min => "min"
  | .max => "max"
  | .sum => "sum"
  | .avg => "avg"

def AggregateRow.get (row : AggregateRow V) : AggregateKey → Option V
  | .min => row.min
  | .max => row.max
  | .sum => row.sum
  | .avg => row.avg

/-- The relative and the absolute tolerance of a comparison. -/
def tolerances : AggregateKey → ℚ × ℚ
  | .avg => (roundDouble (1 / 10 ^ 6), roundDouble (1 / 10 ^ 4))
  | .sum => (roundDouble (1 / 10 ^ 6), roundDouble (1 / 10 ^ 4))
  | .min => (0, roundDouble (1 / 10 ^ 6))
  | .max => (0, roundDouble (1 / 10 ^ 6))

def aggregateValuesMatch (key : AggregateKey) (source target : V) : Bool :=
  match py.float source, py.float target with
  | some s, some t => isclose (tolerances key).1 (tolerances key).2 s t
  | _, _ => source = target

/-- The text of a mismatch; a missing aggregate is not compared. -/
def aggregateMismatch (source target : AggregateRow V) (key : AggregateKey) : Option String :=
  match source.get key, target.get key with
  | some s, some t =>
      if aggregateValuesMatch py key s t then none
      else some (key.text ++ ": " ++ formatAggregateValue py s ++ " vs " ++
        formatAggregateValue py t)
  | _, _ => none

/-- `_AGGREGATE_NUMERIC_TYPES` -/
def aggregateNumericTypes : List String :=
  ["int", "bigint", "smallint", "tinyint", "decimal", "numeric", "float", "real", "money",
    "smallmoney"]

/-- The answers of an aggregate validation: the columns of the table with their types, and for
the column at each index its aggregates on both sides. -/
structure AggregateAnswers (V : Type) where
  columns : Answer (String × String)
  source : Nat → Answer (AggregateRow V)
  target : Nat → Answer (AggregateRow V)

variable (answers : AggregateAnswers V)

def detectNumericColumns : List String :=
  match answers.columns with
  | .ok rows =>
      (rows.filter fun r => aggregateNumericTypes.contains r.2.toLower).map Prod.fst
  | .error _ => []

def firstRow {Row : Type} : Answer Row → Option Row
  | .ok (row :: _) => some row
  | _ => none

/-- A name that cannot be quoted raises inside the `try` of the query. -/
def getAggregatesTarget (schema table column : String) (idx : Nat) : Option (AggregateRow V) :=
  match quotePgIdent column, quotePgIdent schema, quotePgIdent table with
  | .ok _, .ok _, .ok _ => firstRow (answers.target idx)
  | _, _, _ => none

inductive ColumnStatus where
  | passed | failed | error
  deriving DecidableEq

/-- One turn of the loop over the columns. -/
def columnResult (tableName schema targetSchema col : String) (idx : Nat) :
    ColumnStatus × List ValidationIssue :=
  match firstRow (answers.source idx), getAggregatesTarget answers targetSchema tableName col idx with
  | some src, some tgt =>
      match [AggregateKey.min, .max, .sum, .avg].filterMap (aggregateMismatch py src tgt) with
      | [] => (.passed, [])
      | mismatches => (.failed, [⟨.aggregate, "error", "Aggregate mismatch for " ++ col ++ ": " ++
          "; ".intercalate mismatches⟩])
  | _, _ => (.error, [⟨.aggregate, "error", "Aggregate query failed for column " ++ col ++
      " on " ++ schema ++ "." ++ tableName⟩])

/-- `AggregateValidator.validate` -/
def validateAggregates (tableName schema targetSchema : String)
    (aggregateColumns : Option (List String)) : ValidationResult :=
  let columns := aggregateColumns.getD (detectNumericColumns answers)
  let object := schema ++ "." ++ tableName
  if columns = [] then
    { objectName := object
      category := .aggregate
      status := .skipped
      issues := [⟨.aggregate, "warning", "No numeric columns to compare on " ++ object⟩] }
  else
    let columnResults := columns.zipIdx.map fun c =>
      columnResult py answers tableName schema targetSchema c.1 c.2
    let issues := columnResults.flatMap Prod.snd
    { objectName := object
      category := .aggregate
      status :=
        if columnResults.any fun c => c.1 = .failed || c.1 = .error then .failed
        else if issues = [] then .passed
        else .warning
      issues := issues }

end Aggregate

section Chunk

variable {V : Type} (py : Conversions V)

/-- The row of a chunk query; an aggregate may be absent or `None`. -/
structure ChunkRow (V : Type) where
  cnt : Int
  minPk : Option V
  maxPk : Option V
  sums : List (String × Option V)

structure ChunkAnswers (V : Type) where
  source : Answer (ChunkRow V)
  target : Answer (ChunkRow V)

structure ChunkRequest (V : Type) where
  tableName : String
  pkColumns : List String
  pkStart : Option V
  pkEnd : Option V
  schema : String
  targetSchema : String
  numericColumns : List String

def ChunkRequest.wholeTable (request : ChunkRequest V) : Bool :=
  request.pkStart.isNone && request.pkEnd.isNone

/-- A range of a composite key is not queried. -/
def ChunkRequest.queried (request : ChunkRequest V) : Bool :=
  request.wholeTable || request.pkColumns.length = 1

/-- The names that are quoted before the `try` of the target query; an empty key column only
where it bounds the range. -/
def ChunkRequest.quotedNames (request : ChunkRequest V) : List String :=
  [request.targetSchema, request.tableName] ++ request.numericColumns ++
    if request.wholeTable = false ∧ request.pkColumns.length = 1 then request.pkColumns else []

def querySource (answers : ChunkAnswers V) (request : ChunkRequest V) : Option (ChunkRow V) :=
  if request.queried then firstRow answers.source else none

def queryTarget (answers : ChunkAnswers V) (request : ChunkRequest V) :
    Except IdentifierError (Option (ChunkRow V)) := do
  let _ ← request.quotedNames.mapM quotePgIdent
  .ok (if request.queried then firstRow answers.target else none)

def boundMismatch (agg : String) : Option V → Option V → List String
  | some sv, some tv =>
      if py.str sv = py.str tv then []
      else [agg ++ ": src=" ++ py.str sv ++ " tgt=" ++ py.str tv]
  | _, _ => []

def sumsMatch (sv tv : V) : Bool :=
  match py.float sv, py.float tv with
  | some s, some t => isclose (roundDouble (1 / 10 ^ 9)) 0 s t
  | _, _ => py.str sv = py.str tv

def sumMismatch (src tgt : ChunkRow V) (col : String) : List String :=
  match (src.sums.lookup col).join, (tgt.sums.lookup col).join with
  | some sv, some tv =>
      if sumsMatch py sv tv then []
      else ["sum(" ++ col ++ "): src=" ++ py.str sv ++ " tgt=" ++ py.str tv]
  | _, _ => []

def chunkMismatches (request : ChunkRequest V) (src tgt : ChunkRow V) : List String :=
  (if src.cnt = tgt.cnt then []
    else ["count: src=" ++ toString src.cnt ++ " tgt=" ++ toString tgt.cnt]) ++
  (if request.pkColumns.length = 1 then
    boundMismatch py "min_pk" src.minPk tgt.minPk ++ boundMismatch py "max_pk" src.maxPk tgt.maxPk
    else []) ++
  request.numericColumns.flatMap (sumMismatch py src tgt)

def optionText : Option V → String
  | some v => py.str v
  | none => "None"

/-- `L3ChunkHashValidator.validate_chunk` -/
def validateChunk (answers : ChunkAnswers V) (request : ChunkRequest V) :
    Except IdentifierError ValidationResult := do
  let src := querySource answers request
  let tgt ← queryTarget answers request
  let result : ValidationResult :=
    { objectName := request.schema ++ "." ++ request.tableName ++ "[" ++
        optionText py request.pkStart ++ ".." ++ optionText py request.pkEnd ++ "]"
      category := .chunk }
  match src, tgt with
  | some src, some tgt =>
      let mismatches := chunkMismatches py request src tgt
      .ok { result with
        status := if mismatches = [] then .passed else .failed
        issues := mismatches.map fun m => ⟨.chunk, "error", "Chunk mismatch — " ++ m⟩
        sourceCount := some src.cnt
        targetCount := some tgt.cnt }
  | _, _ =>
      .ok { result with
        status := .error
        issues := [⟨.chunk, "error", "Chunk query failed on source or target"⟩] }

end Chunk

section Defaults

/-- What both databases answer while the engine validates a table. -/
structure TableAnswers (V : Type) where
  rowCounts : RowCountAnswers
  checksums : ChecksumAnswers
  aggregates : AggregateAnswers V

/-- The validators `ValidationEngine` makes when it is given none, with the schema validator as
it is called. -/
def defaultValidators {κ V : Type} [DecidableEq V] (py : Conversions V)
    (schemaValidator : List κ → List κ → String → Except IdentifierError ValidationResult) :
    Validators κ (TableAnswers V) IdentifierError where
  schemaValidator := schemaValidator
  rowCountValidator db tableName schema _ := validateRowCount db.rowCounts tableName schema none
  checksumValidator db tableName schema _ := .ok (validateChecksum db.checksums tableName schema)
  aggregateValidator db tableName schema targetSchema :=
    .ok (validateAggregates py db.aggregates tableName schema targetSchema none)

end Defaults

end SqlOptima.TableValidators
