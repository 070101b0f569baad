import Mathlib.Data.String.Basic
import SqlOptima.ExceptRules
import SqlOptima.NumberText
import SqlOptima.Utf8Text

namespace SqlOptima.RowHashExpressions

open ExceptRules NumberText Utf8Text

section Cells

/-- A text both databases can hold: PostgreSQL has no null character. -/
abbrev SharedText := { text : List Char // '\u0000' ∉ text }

/-- A value that is not NULL; `V` are the values of all other types. -/
inductive Value (V : Type) where
  | text (t : SharedText)
  | other (v : V)
  deriving DecidableEq

abbrev Cell (V : Type) := Option (Value V)

/-- A row by the names of its columns. -/
abbrev Row (V : Type) := List (String × Cell V)

/-- What the databases make of a value that is no text, and of a name without quotes. -/
structure Databases (V : Type) where
  castNvarchar : V → List Char
  castText : V → SharedText
  unquoted : String → Option String

end Cells

section SqlServer

def utf16Units (c : Char) : List Nat :=
  if c.toNat < 0x10000 then [c.toNat]
  else [0xD800 + (c.toNat - 0x10000) / 0x400, 0xDC00 + (c.toNat - 0x10000) % 0x400]

/-- The bytes of an NVARCHAR. -/
def utf16le (text : List Char) : List UInt8 :=
  text.flatMap fun c =>
    (utf16Units c).flatMap fun u => [UInt8.ofNat (u % 256), UInt8.ofNat (u / 256)]

/-- `CONCAT`: NULL counts as the empty text, and the number of arguments is limited. -/
def concat (args : List (Option (List Char))) : Except String (List Char) :=
  if 2 ≤ args.length ∧ args.length ≤ 254 then .ok (args.flatMap fun a => a.getD [])
  else .error "The concat function requires 2 to 254 arguments."

/-- `CONVERT(NVARCHAR(32), digest, 2)`; a digest has 32 digits. -/
def convertStyle2 (digest : List UInt8) : List Char :=
  digest.flatMap fun b => paddedUpper 2 16 b.toNat

/-- An argument of `CONCAT`. -/
inductive SourceArgument where
  | castColumn (c : String)
  | separator

/-- The arguments in `hash_expr` of `_fetch_source_hashes`. -/
def sourceArguments (allCols : List String) : List SourceArgument :=
  (allCols.map SourceArgument.castColumn).intersperse .separator

end SqlServer

section Postgres

/-- The bytes PostgreSQL hashes, in lower-case digits. -/
def hexText (digest : List UInt8) : List Char :=
  digest.flatMap fun b => padded 2 16 b.toNat

/-- An operand of `||`. -/
inductive TargetOperand where
  | coalesceColumn (c : String)
  | separator

/-- The operands in `hash_expr` of `_fetch_target_hashes`. -/
def targetOperands (allCols : List String) : List TargetOperand :=
  (allCols.map TargetOperand.coalesceColumn).intersperse .separator

end Postgres

section Evaluation

variable {V : Type} (dbs : Databases V) (md5 : List UInt8 → List UInt8)

def columnCell (row : Row V) (c : String) : Except String (Cell V) :=
  match row.lookup c with
  | some cell => .ok cell
  | none => .error ("Invalid column name '" ++ c ++ "'.")

def nvarcharOf : Value V → List Char
  | .text t => t.val
  | .other v => dbs.castNvarchar v

def textOf : Value V → SharedText
  | .text t => t
  | .other v => dbs.castText v

def SourceArgument.eval (row : Row V) : SourceArgument → Except String (Option (List Char))
  | .castColumn c => (fun cell => cell.map (nvarcharOf dbs)) <$> columnCell row c
  | .separator => .ok (some ['|'])

/-- The bytes SQL Server hashes for a row. -/
def sourceBytes (allCols : List String) (row : Row V) : Except String (List UInt8) := do
  let args ← (sourceArguments allCols).mapM (SourceArgument.eval dbs row)
  let text ← concat args
  .ok (utf16le text)

def sourceRowHash (allCols : List String) (row : Row V) : Except String (List Char) :=
  (fun bytes => convertStyle2 (md5 bytes)) <$> sourceBytes dbs allCols row

def TargetOperand.eval (row : Row V) : TargetOperand → Except String (List Char)
  | .coalesceColumn c =>
      match dbs.unquoted c with
      | none => .error "syntax error"
      | some name => (fun cell => (cell.map fun v => (textOf dbs v).val).getD []) <$>
          columnCell row name
  | .separator => .ok ['|']

/-- The bytes PostgreSQL hashes for a row. -/
def targetBytes (allCols : List String) (row : Row V) : Except String (List UInt8) :=
  if allCols = [] then .error "function md5() does not exist"
  else (fun operands => utf8 operands.flatten) <$>
    (targetOperands allCols).mapM (TargetOperand.eval dbs row)

def targetRowHash (allCols : List String) (row : Row V) : Except String (List Char) :=
  (fun bytes => hexText (md5 bytes)) <$> targetBytes dbs allCols row

end Evaluation

end SqlOptima.RowHashExpressions
