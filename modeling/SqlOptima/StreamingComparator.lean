import SqlOptima.Utf8Text
import SqlOptima.WhileLoop

namespace SqlOptima.StreamingComparator

open Utf8Text WhileLoop

structure StreamingComparisonConfig where
  chunkSize : Nat := 1000
  maxRowsToCompare : Option Nat := none
  abortOnFirstMismatch : Bool := true
  chunkSize_pos : 0 < chunkSize

/-- A row as the drivers give it. -/
abbrev Row (V : Type) := List (String × V)

structure RowDiff (V : Type) where
  rowNumber : Nat
  keyValues : String × Option V
  differences : List (String × Option V × Option V)

structure StreamingComparisonResult (V : Type) where
  totalRowsCompared : Nat := 0
  matchingRows : Nat := 0
  differingRows : Nat := 0
  diffs : List (RowDiff V) := []
  sourceHash : String := ""
  targetHash : String := ""
  hashesMatch : Bool := false
  success : Bool := true

/-- The variables of the loop; of a hash what it was updated with. -/
structure LoopState (V : Type) where
  sourceHash : List UInt8 := []
  targetHash : List UInt8 := []
  offset : Nat := 0
  totalCompared : Nat := 0
  firstDiff : Option (RowDiff V) := none
  result : StreamingComparisonResult V := {}

section Compare

variable {V : Type} (str : V → List Char) (config : StreamingComparisonConfig)
variable (columns : List String) (keyColumn : String)

/-- `"|".join(str(row.get(c, "")) for c in columns)` -/
def rowText (row : Row V) : List Char :=
  List.intercalate ['|'] (columns.map fun c => ((row.lookup c).map str).getD [])

def optionStr : Option V → List Char
  | some v => str v
  | none => "None".toList

def rowDiff (rowNumber : Nat) (sRow tRow : Row V) : RowDiff V where
  rowNumber := rowNumber
  keyValues := (keyColumn, sRow.lookup keyColumn)
  differences := (columns.map fun c => (c, sRow.lookup c, tRow.lookup c)).filter fun d =>
    optionStr str d.2.1 ≠ optionStr str d.2.2

/-- The loop over the pairs of two pages, with its `break`. -/
def comparePairs : List (Row V × Row V) → LoopState V → LoopState V
  | [], st => st
  | (sRow, tRow) :: pairs, st =>
      let sStr := rowText str columns sRow
      let tStr := rowText str columns tRow
      let st := { st with
        sourceHash := st.sourceHash ++ utf8 sStr
        targetHash := st.targetHash ++ utf8 tStr }
      let counted := { st with totalCompared := st.totalCompared + 1 }
      if sStr ≠ tStr ∧ st.firstDiff.isNone then
        let firstDiff := rowDiff str columns keyColumn st.totalCompared sRow tRow
        let diffs := st.result.diffs ++ [firstDiff]
        if config.abortOnFirstMismatch then
          { st with
            firstDiff := some firstDiff
            result := { st.result with
              diffs := diffs
              differingRows := 1
              matchingRows := st.totalCompared
              success := false } }
        else
          comparePairs pairs { counted with
            firstDiff := some firstDiff
            result := { st.result with diffs := diffs } }
      else comparePairs pairs counted

variable (source target : List (Row V))

/-- `OFFSET offset ROWS FETCH NEXT limit ROWS ONLY` of the ordered rows. -/
def page (rows : List (Row V)) (offset limit : Nat) : List (Row V) := (rows.drop offset).take limit

/-- A limit of 0 is none. -/
def limitReached (st : LoopState V) : Bool :=
  match config.maxRowsToCompare with
  | some limit => limit ≠ 0 && limit ≤ st.totalCompared
  | none => false

def countRows (st : LoopState V) : LoopState V :=
  { st with result := { st.result with
    totalRowsCompared := st.result.totalRowsCompared +
      max (page source st.offset config.chunkSize).length
        (page target st.offset config.chunkSize).length } }

/-- Both pages at the offset, compared. -/
def compareRows (st : LoopState V) : LoopState V :=
  comparePairs str config columns keyColumn
    ((page source st.offset config.chunkSize).zip (page target st.offset config.chunkSize))
    (countRows config source target st)

/-- One turn of `while True`. -/
def comparePages (st : LoopState V) : Turn (LoopState V) :=
  if limitReached config st then .stop st
  else if (page source st.offset config.chunkSize).isEmpty &&
      (page target st.offset config.chunkSize).isEmpty then .stop st
  else
    let compared := compareRows str config columns keyColumn source target st
    if config.abortOnFirstMismatch && !compared.result.diffs.isEmpty then .stop compared
    else .next { compared with offset := compared.offset + config.chunkSize }

/-- What follows the loop. -/
def conclude (hexdigest : List UInt8 → String) (st : LoopState V) : StreamingComparisonResult V :=
  let result := { st.result with
    sourceHash := hexdigest st.sourceHash
    targetHash := hexdigest st.targetHash
    hashesMatch := hexdigest st.sourceHash == hexdigest st.targetHash }
  if result.diffs.isEmpty then { result with matchingRows := st.totalCompared, success := true }
  else result

/-- `compare_tables` returns the result. -/
def CompareTables (hexdigest : List UInt8 → String) (result : StreamingComparisonResult V) : Prop :=
  ∃ st, Finishes (comparePages str config columns keyColumn source target) {} st ∧
    conclude hexdigest st = result

end Compare

end SqlOptima.StreamingComparator
