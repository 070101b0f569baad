import Mathlib.Data.List.Forall2
import SqlOptima.ColumnTransforms

namespace SqlOptima.CopyValues

open CellValues ColumnTransforms WireFormat

inductive CopyValue where
  | null
  | bool (v : Bool)
  | int16 (v : Int16)
  | int32 (v : Int32)
  | int64 (v : Int64)
  | float32 (v : UInt32)
  | float64 (v : UInt64)
  | text (v : Text)
  | bytes (v : Option (List UInt8))
  | date (v : Int32)
  | timestampMicros (v : Int64)
  | timeMicros (v : Int64)
  | uuid (v : UUID)
  | numeric (v : Text)
  deriving DecidableEq

section Encoding

def int16Bytes (v : Int16) : List UInt8 := beBytes 2 v.toUInt16.toNat

def int32Bytes (v : Int32) : List UInt8 := beBytes 4 v.toUInt32.toNat

def int64Bytes (v : Int64) : List UInt8 := beBytes 8 v.toUInt64.toNat

variable (rt : Runtime)

/-- The data of a field, `none` for NULL; a nil byte slice and a text that is no number come out as
NULL too. -/
def CopyValue.copyDataBytes : CopyValue → Option (List UInt8)
  | .null => none
  | .bool v => some (if v then [1] else [0])
  | .int16 v => some (int16Bytes v)
  | .int32 v => some (int32Bytes v)
  | .int64 v => some (int64Bytes v)
  | .float32 v => some (beBytes 4 v.toNat)
  | .float64 v => some (beBytes 8 v.toNat)
  | .text v => some v
  | .bytes v => v
  | .date v => some (int32Bytes v)
  | .timestampMicros v => some (int64Bytes v)
  | .timeMicros v => some (int64Bytes v)
  | .uuid v => some v.bytes
  | .numeric v => rt.encodeNumericBinaryString v

def pgEpochDays : Int32 := 10957

def pgEpochMicros : Int64 := 946684800000000

def toCopyValue : CellValue → CopyValue
  | .null => .null
  | .bool v => .bool v
  | .i16 v => .int16 v
  | .i32 v => .int32 v
  | .i64 v => .int64 v
  | .f32 v => .float32 v
  | .f64 v => .float64 v
  | .str v => .text v
  | .bin v => .bytes v
  | .date v => .date (v - pgEpochDays)
  | .timestampMicros v => .timestampMicros (v - pgEpochMicros)
  | .timeMicros v => .timeMicros v
  | .uuid v => .uuid v

def toCopyValueForColumn (c : CellValue) (lt : LogicalType) : CopyValue :=
  if lt = .decimal then
    match c with
    | .null => .null
    | .str v => .numeric v
    | .f64 v => .numeric (rt.formatG64 v)
    | c => toCopyValue c
  else toCopyValue c

/-- What the numeric check reads; for the other kinds it is the `%v` text of the cell's struct. -/
def decimalStringFromCell : CellValue → Text
  | .str v => v
  | .f64 v => rt.formatG64 v
  | .null => ascii "0"
  | .bool v => inBraces (formatBool v)
  | .i16 v => inBraces (formatInt v.toInt)
  | .i32 v => inBraces (formatInt v.toInt)
  | .i64 v => inBraces (formatInt v.toInt)
  | .f32 v => inBraces (rt.formatG32 v)
  | .bin v => inBraces (formatBytes (v.getD []))
  | .date v => inBraces (formatInt v.toInt)
  | .timestampMicros v => inBraces (formatInt v.toInt)
  | .timeMicros v => inBraces (formatInt v.toInt)
  | .uuid v => inBraces (formatBytes v.bytes)

inductive CopyRowError where
  | widthMismatch (cells columns : Nat)
  | column (name : String)
  deriving DecidableEq, Repr

def numericRejected (col : ExtractionColumn) (c : CellValue) : Bool :=
  decide (col.logicalType = .decimal) && decide (c ≠ .null) &&
    (rt.encodeNumericBinaryString (decimalStringFromCell rt c)).isNone

def cellToCopyValue (p : ExtractionColumn × CellValue) : Except CopyRowError CopyValue :=
  if numericRejected rt p.1 p.2 then .error (.column p.1.name)
  else .ok (toCopyValueForColumn rt p.2 p.1.logicalType)

def cellsToCopyRow (schema : ExtractionSchema) (cells : List CellValue) :
    Except CopyRowError (List CopyValue) :=
  if cells.length ≠ schema.length then .error (.widthMismatch cells.length schema.length)
  else (schema.zip cells).mapM (cellToCopyValue rt)

end Encoding

section Rows

variable {rt : Runtime}

theorem mapM_cellToCopyValue_of_rejected {ps : List (ExtractionColumn × CellValue)}
    (h : ∃ p ∈ ps, numericRejected rt p.1 p.2 = true) :
    ∃ e, ps.mapM (cellToCopyValue rt) = .error e := by
  induction ps with
  | nil => simp at h
  | cons p ps ih =>
      rw [List.mapM_cons, cellToCopyValue]
      by_cases hp : numericRejected rt p.1 p.2 = true
      · rw [if_pos hp]
        exact ⟨_, rfl⟩
      · rw [if_neg hp]
        have hrest : ∃ q ∈ ps, numericRejected rt q.1 q.2 = true := by
          obtain ⟨q, hq, hrej⟩ := h
          rcases List.mem_cons.mp hq with rfl | hq
          · exact absurd hrej hp
          · exact ⟨q, hq, hrej⟩
        obtain ⟨e, he⟩ := ih hrest
        exact ⟨e, by rw [he]; rfl⟩

theorem mapM_cellToCopyValue_of_accepted {ps : List (ExtractionColumn × CellValue)}
    (h : ∀ p ∈ ps, numericRejected rt p.1 p.2 ≠ true) :
    ps.mapM (cellToCopyValue rt) =
      .ok (ps.map fun p => toCopyValueForColumn rt p.2 p.1.logicalType) := by
  induction ps with
  | nil => rfl
  | cons p ps ih =>
      rw [List.mapM_cons, cellToCopyValue, if_neg (h p List.mem_cons_self),
        ih fun q hq => h q (List.mem_cons_of_mem _ hq)]
      rfl

/-- The rows the conversion refuses: a wrong width, or a decimal column whose text is no number. -/
def RowRejected (rt : Runtime) (schema : ExtractionSchema) (cells : List CellValue) : Prop :=
  cells.length ≠ schema.length ∨ ∃ p ∈ schema.zip cells, numericRejected rt p.1 p.2 = true

theorem cellsToCopyRow_of_rejected {schema : ExtractionSchema} {cells : List CellValue}
    (h : RowRejected rt schema cells) : ∃ e, cellsToCopyRow rt schema cells = .error e := by
  rw [cellsToCopyRow]
  split
  · exact ⟨_, rfl⟩
  · next hlen => exact mapM_cellToCopyValue_of_rejected (h.resolve_left hlen)

theorem cellsToCopyRow_of_accepted {schema : ExtractionSchema} {cells : List CellValue}
    (h : ¬ RowRejected rt schema cells) :
    cellsToCopyRow rt schema cells =
      .ok ((schema.zip cells).map fun p => toCopyValueForColumn rt p.2 p.1.logicalType) := by
  rw [RowRejected, not_or] at h
  rw [cellsToCopyRow, if_neg h.1]
  apply mapM_cellToCopyValue_of_accepted
  intro p hp hrej
  exact h.2 ⟨p, hp, hrej⟩

end Rows

end SqlOptima.CopyValues
