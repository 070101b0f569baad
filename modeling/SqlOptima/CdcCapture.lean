import Mathlib.Order.WithBot
import SqlOptima.SourceLog
import SqlOptima.TransitionSystem

namespace SqlOptima.CdcCapture

open SqlOptima.Lsn
open SqlOptima.ChangeLog
open SqlOptima.SourceLog

inductive ChangeOperation
  | insert
  | update
  | delete
  | updateMerge
  deriving DecidableEq

/-- A captured change. Its generated identifier and its time stamps, which
nothing below reads, are left out. -/
structure ChangeEvent (Value : Type) where
  tableSchema : String
  tableName : String
  operation : ChangeOperation
  afterValues : Option (List (String × Value))
  beforeValues : Option (List (String × Value))
  lsn : Option LsnPosition
  deriving DecidableEq

structure TableInfo where
  schemaName : String
  tableName : String
  deriving DecidableEq

variable {Value : Type}

def cdcMetaCols : List String :=
  ["__$start_lsn", "__$end_lsn", "__$seqval", "__$operation", "__$update_mask"]

/-- The event of a change row; `none` for a row the capture skips. -/
def rowToChange (table : TableInfo) (row : CtRow Value) : Option (ChangeEvent Value) :=
  let data := row.columns.filter fun c => !(cdcMetaCols.contains c.1)
  let lsn := some (parseLsn (some row.startLSN.bytes))
  if row.operation = 3 then none
  else if row.operation = 2 then
    some ⟨table.schemaName, table.tableName, .insert, some data, none, lsn⟩
  else if row.operation = 1 then
    some ⟨table.schemaName, table.tableName, .delete, none, some data, lsn⟩
  else if row.operation = 4 then
    some ⟨table.schemaName, table.tableName, .update, some data, none, lsn⟩
  else none

theorem rowToChange_eq_some {table : TableInfo} {r : CtRow Value} {e : ChangeEvent Value}
    (h : rowToChange table r = some e) :
    e.lsn = some (unpack r.startLSN) ∧ e.tableSchema = table.schemaName ∧
      e.tableName = table.tableName := by
  simp only [rowToChange, parseLsn_bytes] at h
  split at h
  · cases h
  · split at h
    · cases h
      exact ⟨rfl, rfl, rfl⟩
    · split at h
      · cases h
        exact ⟨rfl, rfl, rfl⟩
      · split at h
        · cases h
          exact ⟨rfl, rfl, rfl⟩
        · cases h

/-- What `capture_changes` does once it has the two bounds of the log. -/
inductive CapturePlan
  | skip (newPosition : LsnPosition)
  | query (fromLsn : LSN) (inclusive : Bool) (maxLsn : LSN)
  deriving DecidableEq

/-- Where the query starts, and whether it includes that LSN. A position behind
the retained log is moved up to its minimum. -/
def captureStart (lastPosition : Option LSN) (minLsn : LSN) : LSN × Bool :=
  match lastPosition with
  | none => (minLsn, true)
  | some last => if last < minLsn then (minLsn, true) else (last, false)

def planCapture (lastPosition minLsn maxLsn : Option (List Byte)) : CapturePlan :=
  match normalizeLsnBytes maxLsn with
  | none => .skip ⟨0, 0, 0⟩
  | some mx =>
      match normalizeLsnBytes minLsn with
      | none => .skip (unpack mx)
      | some mn =>
          let start := captureStart (normalizeLsnBytes lastPosition) mn
          if mx < mn ∨ (start.2 = false ∧ mx ≤ start.1) then .skip (unpack mx)
          else .query start.1 start.2 mx

def queryRows (rows : List (CtRow Value)) (fromLsn : LSN) (inclusive : Bool)
    (batchSize : Nat) : List (CtRow Value) :=
  (rows.filter fun r =>
    if inclusive then decide (fromLsn ≤ r.startLSN) else decide (fromLsn < r.startLSN)).take
      batchSize

structure CaptureBatch (Value : Type) where
  changes : List (ChangeEvent Value)
  newPosition : LsnPosition

def collectBatch (table : TableInfo) (maxLsn : LSN) (rows : List (CtRow Value)) :
    CaptureBatch Value :=
  ⟨rows.filterMap (rowToChange table),
    parseLsn (some (lastPos CtRow.startLSN maxLsn rows).bytes)⟩

/-- The source database as a capture sees it: a capture table and the two
answers about its log. Change rows are never older than the minimum or newer
than the maximum, and no row has the zero LSN. -/
structure Source (Value : Type) where
  table : CaptureTable Value
  minLsn : LSN
  maxLsn : LSN
  bounded : ∀ r ∈ table.rows, .zero < r.startLSN ∧ minLsn ≤ r.startLSN ∧ r.startLSN ≤ maxLsn

def Source.Grows (src : Source Value) (rows : List (CtRow Value)) (maxLsn : LSN) : Prop :=
  rows.Pairwise CtRow.le ∧ src.maxLsn ≤ maxLsn ∧
    ∀ r ∈ rows, .zero < r.startLSN ∧ src.minLsn ≤ r.startLSN ∧ src.maxLsn < r.startLSN ∧
      r.startLSN ≤ maxLsn

instance (src : Source Value) (rows : List (CtRow Value)) (maxLsn : LSN) :
    Decidable (src.Grows rows maxLsn) :=
  inferInstanceAs (Decidable (_ ∧ _))

theorem Source.Grows.commits {src : Source Value} {rows : List (CtRow Value)} {maxLsn : LSN}
    (h : src.Grows rows maxLsn) : Commits src.table rows :=
  ⟨h.1, fun r hr r' hr' => (src.bounded r hr).2.2.trans_lt (h.2.2 r' hr').2.2.1⟩

def Source.grow (src : Source Value) (rows : List (CtRow Value)) (maxLsn : LSN)
    (h : src.Grows rows maxLsn) : Source Value where
  table := src.table.append rows h.commits
  minLsn := src.minLsn
  maxLsn := maxLsn
  bounded := by
    intro r hr
    rcases List.mem_append.mp hr with hr | hr
    · obtain ⟨hzero, hmin, hmax⟩ := src.bounded r hr
      exact ⟨hzero, hmin, hmax.trans h.2.1⟩
    · obtain ⟨hzero, hmin, -, hmax⟩ := h.2.2 r hr
      exact ⟨hzero, hmin, hmax⟩

structure CaptureConfig where
  table : TableInfo
  batchSize : Nat
  batchPos : 0 < batchSize

/-- The capture agent's loop for one table: the position it stored, the query
an unfinished iteration is about to send, and all events returned so far. -/
structure CaptureState (Value : Type) where
  source : Source Value
  position : WithBot LSN
  pending : Option (LSN × Bool × LSN)
  events : List (ChangeEvent Value)

inductive CaptureAction (Value : Type)
  | commit (rows : List (CtRow Value)) (maxLsn : LSN)
  | fetchBounds (minNull maxNull : Bool)
  | fetchRows
  | abort

/-- The position the agent stores for a batch; packing it cannot fail unless a
segment is out of range. -/
def advance (position : WithBot LSN) (newPosition : LsnPosition) : WithBot LSN :=
  match newPosition.serialize with
  | none => position
  | some l => l

def step (cfg : CaptureConfig) (s : CaptureState Value) :
    CaptureAction Value → Option (CaptureState Value)
  | .commit rows maxLsn =>
      if h : s.source.Grows rows maxLsn then
        some { s with source := s.source.grow rows maxLsn h }
      else none
  | .fetchBounds minNull maxNull =>
      match s.pending with
      | some _ => none
      | none =>
          let minLsn := if minNull then none else some s.source.minLsn.bytes
          let maxLsn := if maxNull then none else some s.source.maxLsn.bytes
          match planCapture (Option.map LSN.bytes s.position) minLsn maxLsn with
          | .skip newPosition => some { s with position := advance s.position newPosition }
          | .query fromLsn inclusive mx => some { s with pending := some (fromLsn, inclusive, mx) }
  | .fetchRows =>
      match s.pending with
      | none => none
      | some (fromLsn, inclusive, mx) =>
          let rows := queryRows s.source.table.rows fromLsn inclusive cfg.batchSize
          let batch := collectBatch cfg.table mx rows
          some { s with
            position := advance s.position batch.newPosition
            pending := none
            events := s.events ++ batch.changes }
  | .abort => some { s with pending := none }

def initial (source : Source Value) (start : WithBot LSN) : CaptureState Value :=
  ⟨source, start, none, []⟩

end SqlOptima.CdcCapture
