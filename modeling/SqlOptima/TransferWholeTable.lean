import SqlOptima.TransferCompleteness
import SqlOptima.TransferDispatch

namespace SqlOptima.TransferWholeTable

open TransferCommands TransferKeys TransferRange TransferCopier TransferRanges TransferKeyset
open TransferCompleteness
open TransferDispatch
open TransferPreflight (PythonText TableReport TransferPath)
open ColumnTransforms (trimSpace)
open ConstraintPlan (toLower TransferConstraintPlan)

def trim (s : String) : String := String.ofList (trimSpace s.toList)

def isIntegerSQLType (typeName : String) : Bool :=
  ["tinyint", "smallint", "int", "bigint"].contains (toLower (trim typeName))

/-- A source table, as the server answers about it: its rows in any order and by each column, the
types of its columns, and the columns of its primary key. -/
structure SourceTable (Row : Type) (sql : SqlOrder) where
  rows : List Row
  value : String → Row → Option DriverValue
  columnType : String → Option String
  primaryKey : List String
  orderedBy : String → List Row
  perm : ∀ column, (orderedBy column).Perm rows
  sorted : ∀ column, (orderedBy column).Pairwise fun a b =>
    sql.leKey (value column a) (value column b) = true
  integers : ∀ column, (columnType column).any isIntegerSQLType = true →
    ∀ row ∈ rows, ∀ v, value column row = some v → ∃ n, v = .int n

namespace SourceTable

variable {Row : Type} {sql : SqlOrder} (src : SourceTable Row sql)

def orderKind (column : String) : OrderColumn :=
  if (src.columnType column).any isIntegerSQLType then .integer else .keyset

theorem integers_orderedBy {column : String} (h : src.orderKind column = .integer) :
    ∀ row ∈ src.orderedBy column ++ [], ∀ v, src.value column row = some v → ∃ n, v = .int n := by
  intro row hrow
  rw [List.append_nil] at hrow
  unfold orderKind at h
  split at h
  · next htype => exact src.integers column htype row ((src.perm column).mem_iff.mp hrow)
  · cases h

/-- The tables of a transfer into an empty target, without an order column and with one. -/
def heapTables : Tables Row sql where
  key _ := none
  source := src.rows
  target := []
  order := .heap
  ordered := List.pairwise_of_forall fun _ _ => rfl
  integers h := absurd h (by decide)

def tablesBy (column : String) : Tables Row sql where
  key := src.value column
  source := src.orderedBy column
  target := []
  order := src.orderKind column
  ordered := src.sorted column
  integers := src.integers_orderedBy

end SourceTable

/-- What the run meets besides the payload and the source's rows. -/
structure Surroundings where
  chunkSize : Int64
  sameServer : Bool
  offload : TransferFileOffloadSettings
  bcpOnPath : Bool
  opens : Bool
  estimate : Option Int64
  orderQueried : Bool
  identityResolved : Bool
  deltaBounds : Bool
  bcp : PhaseAnswers
  stream : PhaseAnswers

/-- The number of a payload, where it is one of the worker's integers. -/
def decodeInt (n : Int) : Option Int64 :=
  if -2 ^ 63 ≤ n ∧ n < 2 ^ 63 then some (Int64.ofInt n) else none

section Payload

variable {Row : Type} {sql : SqlOrder} (sprint : Option DriverValue → List UInt8)
  (equalFold : String → String → Bool)
  (payload : TransferTablePayload) (src : SourceTable Row sql) (env : Surroundings)

/-- The order column: the payload's, else the column of the primary key, else none, which reads as
the empty name. It is not resolved where a query fails or the key has several columns. -/
def resolveOrderColumn : Option String :=
  let order := trim (payload.orderColumn.getD "")
  if !env.orderQueried then none
  else if order = "" then
    match src.primaryKey with
    | [] => some ""
    | [name] => some name
    | _ :: _ :: _ => none
  else some order

def indexOfColumn (columns : List String) (name : String) : Option Nat :=
  columns.findIdx? fun c => equalFold c name

def workerTables : Tables Row sql :=
  let order := (resolveOrderColumn payload src env).getD ""
  if order = "" then src.heapTables else src.tablesBy order

/-- The request of the worker; a payload whose numbers do not decode never comes to it. -/
def workerRequest : CopyRequest where
  hasColumns := payload.columns != []
  orderListed := (indexOfColumn equalFold payload.columns
    ((resolveOrderColumn payload src env).getD "")).isSome
  chunkSize := if env.chunkSize < 1 then (decodeInt payload.chunkSize).getD 0 else env.chunkSize
  rowCountEstimate := (decodeInt payload.rowCountEstimate).getD 0
  sameServer := env.sameServer
  offload := env.offload
  bcpOnPath := env.bcpOnPath
  opens := env.opens
  estimate := env.estimate
  orderResolved := (resolveOrderColumn payload src env).isSome
  identityResolved := env.identityResolved
  deltaBounds := env.deltaBounds
  bcp := env.bcp
  stream := env.stream

/-- The copy of one table into an empty target. -/
def transferTable : Option (Outcome Row) :=
  if (decodeInt payload.chunkSize).isSome && (decodeInt payload.rowCountEstimate).isSome then
    some (copySQLServerToSQLServer sprint (workerTables payload src env)
      (workerRequest equalFold payload src env))
  else none

end Payload

section Whole

variable {Row : Type} {sql : SqlOrder} {sprint : Option DriverValue → List UInt8}
  {equalFold : String → String → Bool}
  {payload : TransferTablePayload} {src : SourceTable Row sql} {env : Surroundings}

theorem workerTables_cases (payload : TransferTablePayload) (src : SourceTable Row sql)
    (env : Surroundings) :
    workerTables payload src env = src.heapTables ∨
      ∃ column, workerTables payload src env = src.tablesBy column := by
  unfold workerTables
  by_cases h : (resolveOrderColumn payload src env).getD "" = ""
  · exact Or.inl (if_pos h)
  · exact Or.inr ⟨_, if_neg h⟩

theorem target_workerTables : (workerTables payload src env).target = [] := by
  rcases workerTables_cases payload src env with h | ⟨column, h⟩
  · rw [h]
    rfl
  · rw [h]
    rfl

theorem source_workerTables : (workerTables payload src env).source.Perm src.rows := by
  rcases workerTables_cases payload src env with h | ⟨column, h⟩
  · rw [h]
    exact List.Perm.refl _
  · rw [h]
    exact src.perm column

end Whole

section EmptyTarget

variable {Row : Type} {sql : SqlOrder} {sprint : Option DriverValue → List UInt8}
  {t : Tables Row sql} {r : CopyRequest} {chunk : Int64}

theorem targetMax_nil (t : Tables Row sql) : t.targetMax [] = none := rfl

theorem rowsOwed_nil (t : Tables Row sql) : rowsOwed t [] = t.source :=
  List.filter_eq_self.mpr fun row _ => by simp [isOwed, targetMax_nil]

theorem deltaSkip_nil (h : t.target = []) : deltaSkip sprint t = false := by
  unfold deltaSkip
  rw [h, targetMax_nil]
  cases sql.maxKey t.sourceKeys <;> rfl

theorem filesKept_of_none_lost (start : Int) (plan : List (Int × Load)) :
    FilesKept t (fun _ => false) start plan := by
  induction plan generalizing start with
  | nil => trivial
  | cons p plan ih => exact ⟨fun h => absurd h Bool.false_ne_true, ih _⟩

/-- The pages of the stream, and of the statements on one server, cover the source: without an order
column there is one page; ranges of integers miss the null keys and have to reach the last key;
pages by key have to come to the end of the rows. -/
def StreamPagesCover (sprint : Option DriverValue → List UInt8) (t : Tables Row sql)
    (r : CopyRequest) (chunk : Int64) : Prop :=
  let sizes :=
    ((iterations chunk r.stream.chunks).take (maxCopyIters r.rowCountEstimate chunk)).map Prod.fst
  match t.order with
  | .heap => True
  | .integer =>
      (∀ row ∈ t.source, t.key row ≠ none) ∧
        ∀ lo hi, t.integerSpan [] = .range lo hi → ReachesWithin lo.toInt hi.toInt sizes
  | .keyset => BatchesReach sprint t sizes none t.source

theorem streamCovers_nil_iff :
    StreamCovers sprint t r [] chunk ↔ StreamPagesCover sprint t r chunk := by
  unfold StreamCovers StreamPagesCover
  cases t.order with
  | heap => exact Iff.rfl
  | integer =>
      have hnulls : NullsCovered t [] ↔ ∀ row ∈ t.source, t.key row ≠ none := by
        simp [NullsCovered, targetMax_nil]
      refine and_congr hnulls (forall_congr' fun lo => forall_congr' fun hi => ?_)
      refine imp_congr_right fun _ => ?_
      dsimp only
      rw [and_iff_left (filesKept_of_none_lost _ _)]
  | keyset =>
      simp only [rowsOwed_nil, targetMax_nil, Option.map_none]

end EmptyTarget

section Whole

variable {Row : Type} {sql : SqlOrder} {sprint : Option DriverValue → List UInt8}
  {equalFold : String → String → Bool} {py : PythonText} {path : TransferPath}
  {tables : List TableRequest} {thresholdChunkSize : Option Int}
  {constraintPlan : TransferConstraintPlan} {preflight : List TableReport}
  {cfg : TransferDispatchConfig} {payload : TransferTablePayload} {src : SourceTable Row sql}
  {env : Surroundings} {o : Outcome Row}

/-- The pages of the path that the copy takes cover the source. A bulk copy that fails hands over to
the stream, with the target as it leaves it. -/
def PagesCover (sprint : Option DriverValue → List UInt8) (t : Tables Row sql) (r : CopyRequest) :
    Prop :=
  match copyMode r (r.estimate.getD 0) with
  | .insertSelect | .streamBulk => StreamPagesCover sprint t r (startChunkSize r)
  | .bcpNative => ModeCovers sprint t r .bcpNative (startChunkSize r)

theorem covers_nil_iff {t : Tables Row sql} {r : CopyRequest} (h : t.target = []) :
    Covers sprint t r ↔ PagesCover sprint t r := by
  unfold Covers PagesCover
  rw [deltaSkip_nil h, if_neg (by simp)]
  cases copyMode r (r.estimate.getD 0) with
  | bcpNative => exact Iff.rfl
  | insertSelect =>
      rw [ModeCovers, h]
      exact streamCovers_nil_iff
  | streamBulk =>
      rw [ModeCovers, h]
      exact streamCovers_nil_iff

/-- The copy of an accepted table into an empty target that returns no error has landed every source
row once exactly when its pages cover the source, on the table's first column. -/
theorem landed_perm_rows_iff
    (hbuild : buildTransferDispatchConfig py path tables thresholdChunkSize constraintPlan
      preflight = .ok cfg) (hpayload : payload ∈ cfg.tables)
    (hrun : transferTable sprint equalFold payload src env = some o) (hok : o.error = none) :
    o.landed.Perm src.rows ↔
      ∃ first rest, payload.columns = first :: rest ∧ payload.orderColumn = some first ∧
        PagesCover sprint (workerTables payload src env)
          (workerRequest equalFold payload src env) := by
  obtain ⟨first, rest, hcolumns, horder⟩ := orderColumn_of_build hbuild hpayload
  unfold transferTable at hrun
  split at hrun
  · obtain rfl := Option.some.inj hrun
    have htarget : (workerTables payload src env).target = [] := target_workerTables
    have hsource : (workerTables payload src env).source.Perm src.rows := source_workerTables
    have hperm := landed_perm_rowsOwed_iff hok
    rw [htarget, rowsOwed_nil, covers_nil_iff htarget] at hperm
    have hrows : (copySQLServerToSQLServer sprint (workerTables payload src env)
        (workerRequest equalFold payload src env)).landed.Perm src.rows ↔ _ :=
      Iff.trans ⟨fun h => h.trans hsource.symm, fun h => h.trans hsource⟩ hperm
    exact hrows.trans ⟨fun h => ⟨first, rest, hcolumns, horder, h⟩, fun ⟨_, _, _, _, h⟩ => h⟩
  · cases hrun

end Whole

section Samples

/-- A table of one column, listed by it. -/
def columnTable {Row : Type} (key : Row → Option DriverValue) (typeName : String) (rows : List Row)
    (hsorted : rows.Pairwise fun a b => numericOrder.leKey (key a) (key b) = true)
    (hint : (some typeName).any isIntegerSQLType = true →
      ∀ row ∈ rows, ∀ v, key row = some v → ∃ n, v = .int n) : SourceTable Row numericOrder where
  rows := rows
  value _ := key
  columnType _ := some typeName
  primaryKey := []
  orderedBy _ := rows
  perm _ := List.Perm.refl _
  sorted _ := hsorted
  integers _ := hint

def intTable (rows : List (Option Int64))
    (hsorted : rows.Pairwise fun a b =>
      numericOrder.leKey (a.map .int) (b.map .int) = true) :
    SourceTable (Option Int64) numericOrder :=
  columnTable (Option.map .int) "int" rows hsorted fun _ row _ v hv => by
    cases row with
    | none => cases hv
    | some n => exact ⟨n, (Option.some.inj hv).symm⟩

def timeTable (rows : List Int)
    (hsorted : rows.Pairwise fun a b =>
      numericOrder.leKey (some (.time a)) (some (.time b)) = true) :
    SourceTable Int numericOrder :=
  columnTable (fun ticks => some (.time ticks)) "datetime2" rows hsorted fun h =>
    absurd h (by decide)

/-- Every query succeeds, on one server. -/
def quietRun (chunks : List ChunkAnswer) : Surroundings where
  chunkSize := 0
  sameServer := true
  offload := ⟨true, 2000000⟩
  bcpOnPath := true
  opens := true
  estimate := some 3
  orderQueried := true
  identityResolved := true
  deltaBounds := true
  bcp := ⟨true, true, []⟩
  stream := ⟨true, true, chunks⟩

def pageOf (size : Int64) : ChunkAnswer := { quietChunk with reload := some size }

def eventsRequest (chunkSize : Int) : TableRequest where
  sourceSchema := "dbo"
  sourceTable := "Events"
  targetSchema := "dbo"
  targetTable := "Events"
  columns := ["At"]
  chunkSize := some chunkSize

def eventsPayload (chunkSize : Int) : TransferTablePayload :=
  ⟨"dbo", "Events", "dbo", "Events", ["At"], chunkSize, some "At", 0⟩

def eventsPlan : TransferConstraintPlan := ⟨true, "restore_now", []⟩

def eventsConfig (chunkSize : Int) : TransferDispatchConfig :=
  ⟨.mssqlToMssql, [eventsPayload chunkSize], eventsPlan⟩

def buildEvents (chunkSize : Int) : Except String TransferDispatchConfig :=
  buildTransferDispatchConfig ⟨id, id⟩ .mssqlToMssql [eventsRequest chunkSize] none eventsPlan []

def eventsTables {Row : Type} (chunkSize : Int) (src : SourceTable Row numericOrder)
    (chunks : List ChunkAnswer) : Tables Row numericOrder :=
  workerTables (eventsPayload chunkSize) src (quietRun chunks)

def eventsCopy {Row : Type} (chunkSize : Int) (src : SourceTable Row numericOrder)
    (chunks : List ChunkAnswer) : CopyRequest :=
  workerRequest (fun a b => a == b) (eventsPayload chunkSize) src (quietRun chunks)

def transferEvents {Row : Type} (chunkSize : Int) (src : SourceTable Row numericOrder)
    (chunks : List ChunkAnswer) : Option (Outcome Row) :=
  transferTable (fun _ => []) (fun a b => a == b) (eventsPayload chunkSize) src (quietRun chunks)

def distinctTimes : SourceTable Int numericOrder := timeTable [1, 2, 3] (by decide)

def distinctCopy : Outcome Int :=
  copySQLServerToSQLServer (fun _ => [])
    (eventsTables 2 distinctTimes (List.replicate 3 (pageOf 2)))
    (eventsCopy 2 distinctTimes (List.replicate 3 (pageOf 2)))

theorem distinct_times_covered :
    ∃ first rest, (eventsPayload 2).columns = first :: rest ∧
      (eventsPayload 2).orderColumn = some first ∧
      PagesCover (fun _ => []) (eventsTables 2 distinctTimes (List.replicate 3 (pageOf 2)))
        (eventsCopy 2 distinctTimes (List.replicate 3 (pageOf 2))) := by
  have hbuild : buildEvents 2 = .ok (eventsConfig 2) := by decide +kernel
  have hrun : transferEvents 2 distinctTimes (List.replicate 3 (pageOf 2)) = some distinctCopy := by
    unfold transferEvents transferTable
    exact if_pos (by decide +kernel)
  have hok : distinctCopy.error = none := by decide +kernel
  have hperm : distinctCopy.landed.Perm distinctTimes.rows := by decide +kernel
  exact (landed_perm_rows_iff hbuild List.mem_cons_self hrun hok).mp hperm

/-- A run that returns no error and leaves rows behind. -/
abbrev LosesRows {Row : Type} [DecidableEq Row] (src : SourceTable Row numericOrder)
    (run : Option (Outcome Row)) : Prop :=
  ∃ o ∈ run, o.error = none ∧ ¬ o.landed.Perm src.rows

def equalTimes : SourceTable Int numericOrder := timeTable [5, 5, 5] (by decide)

def nullKey : SourceTable (Option Int64) numericOrder := intTable [none, some 1] (by decide)

def sparseKeys : SourceTable (Option Int64) numericOrder := intTable [some 0, some 1000] (by decide)

/-- Three equal keys with pages of two; a null among integers; two integers that are further apart
than the 32 ranges that an estimate of zero allows. -/
theorem first_columns_lose_rows :
    buildEvents 2 = .ok (eventsConfig 2) ∧ buildEvents 10 = .ok (eventsConfig 10) ∧
      LosesRows equalTimes (transferEvents 2 equalTimes (List.replicate 3 (pageOf 2))) ∧
      LosesRows nullKey (transferEvents 10 nullKey (List.replicate 3 (pageOf 10))) ∧
      LosesRows sparseKeys (transferEvents 10 sparseKeys (List.replicate 40 (pageOf 10))) := by
  decide +kernel

end Samples

end SqlOptima.TransferWholeTable
