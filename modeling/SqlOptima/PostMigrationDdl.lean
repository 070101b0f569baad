import Mathlib.Data.List.Infix
import SqlOptima.DdlIdentifier
import SqlOptima.PythonTransforms

namespace SqlOptima.PostMigrationDdl

open DdlIdentifier
open PythonTransforms (UnicodeTables)

section Catalog

structure DeferredIdentityColumn where
  columnName : Ident
  seedValue : Int := 1
  incrementValue : Int := 1
  deriving DecidableEq

structure DeferredSecondaryIndex where
  indexName : Ident
  isUnique : Bool := false
  keyColumns : List Ident := []
  includeColumns : List Ident := []
  filterDefinition : Option String := none
  unsupportedReason : Option String := none
  deriving DecidableEq

/-- An empty `referenced_table` is `none`. -/
structure DeferredForeignKey where
  constraintName : Ident
  columns : List Ident := []
  referencedSchema : String := "dbo"
  referencedTable : Option Ident := none
  referencedColumns : List Ident := []
  onDelete : String := "NO_ACTION"
  onUpdate : String := "NO_ACTION"
  isDisabled : Bool := false
  deriving DecidableEq

structure DeferredCheckConstraint where
  constraintName : Ident
  checkDefinition : String
  isDisabled : Bool := false
  deriving DecidableEq

structure DeferredColumnDefault where
  columnName : Ident
  defaultDefinition : String
  deriving DecidableEq

structure DeferredTableSchema where
  sourceSchema : String
  tableName : Ident
  targetSchema : Ident
  identityColumns : List DeferredIdentityColumn := []
  secondaryIndexes : List DeferredSecondaryIndex := []
  foreignKeys : List DeferredForeignKey := []
  checkConstraints : List DeferredCheckConstraint := []
  columnDefaults : List DeferredColumnDefault := []
  triggers : List String := []
  deriving DecidableEq

/-- An entry of `column_type_casts`. -/
structure ColumnTypeCast where
  columnName : Ident
  finalPgType : String
  usingSql : String
  loadPgType : Option String
  deriving DecidableEq

end Catalog

section Generator

/-- `bool` of an optional text. -/
def truthy (text : Option String) : Bool := text.any (· ≠ "")

def qualified (targetSchema tableName : Ident) : String :=
  targetSchema.quoted ++ "." ++ tableName.quoted

def quotedList (columns : List Ident) : String :=
  ", ".intercalate (columns.map Ident.quoted)

/-- `str.upper`, as far as a search for ASCII names can tell. -/
def upperChar (c : Char) : Char :=
  if c = '\u0131' then 'I' else if c = '\u017f' then 'S' else c.toUpper

def upper (text : String) : List Char := text.toList.map upperChar

def generateIdentityFinalize (targetSchema tableName : Ident) (column : DeferredIdentityColumn) :
    List String :=
  let table := qualified targetSchema tableName
  let colIdent := column.columnName.quoted
  let seed := max column.seedValue 1
  let alter := "ALTER TABLE " ++ table ++ " ALTER COLUMN " ++ colIdent ++
    " ADD GENERATED BY DEFAULT AS IDENTITY" ++
    if column.incrementValue ≠ 0 ∧ column.incrementValue ≠ 1 then
      " (INCREMENT BY " ++ toString column.incrementValue ++ ")"
    else ""
  let setval := "SELECT setval(pg_get_serial_sequence('" ++ table ++ "', '" ++
    column.columnName.name ++ "'), GREATEST(COALESCE((SELECT MAX(" ++ colIdent ++ ") FROM " ++
    table ++ "), 0), " ++ toString seed ++ "), true)"
  [alter ++ ";", setval ++ ";"]

def generateColumnTypeCast (targetSchema tableName : Ident) (cast : ColumnTypeCast) : String :=
  "ALTER TABLE " ++ qualified targetSchema tableName ++ " ALTER COLUMN " ++
    cast.columnName.quoted ++ " TYPE " ++ cast.finalPgType ++ " USING " ++ cast.usingSql ++ ";"

/-- What follows `CREATE INDEX` or `CREATE UNIQUE INDEX`. -/
def indexRest (targetSchema tableName : Ident) (index : DeferredSecondaryIndex) : String :=
  index.indexName.quoted ++ " ON " ++ qualified targetSchema tableName ++ " (" ++
    quotedList index.keyColumns ++ ")" ++
    (if index.includeColumns = [] then "" else
      " INCLUDE (" ++ quotedList index.includeColumns ++ ")") ++
    (if truthy index.filterDefinition then " WHERE " ++ index.filterDefinition.getD "" else "") ++
    ";"

/-- `concurrently` is put in where the whole statement does not contain `UNIQUE`. -/
def generateSecondaryIndex (targetSchema tableName : Ident) (index : DeferredSecondaryIndex)
    (concurrently : Bool) : Option String :=
  if truthy index.unsupportedReason then none
  else if index.keyColumns = [] then none
  else
    let rest := indexRest targetSchema tableName index
    let base := (if index.isUnique then "CREATE UNIQUE INDEX " else "CREATE INDEX ") ++ rest
    if concurrently && !decide ("UNIQUE".toList <:+: upper base) then
      some ("CREATE INDEX CONCURRENTLY " ++ rest)
    else some base

def fkActionMap : List (String × String) :=
  [("NO_ACTION", "NO ACTION"), ("CASCADE", "CASCADE"), ("SET_NULL", "SET NULL"),
    ("SET_DEFAULT", "SET DEFAULT")]

def fkAction (action : String) : String :=
  let key := String.ofList ((upper action).map fun c => if c = ' ' then '_' else c)
  (fkActionMap.lookup key).getD "NO ACTION"

/-- The statements of a foreign key whose referenced schema is resolved. -/
def foreignKeyStatements (targetSchema tableName : Ident) (fk : DeferredForeignKey)
    (referencedTable refSchema : Ident) : List String :=
  let table := qualified targetSchema tableName
  let add := "ALTER TABLE " ++ table ++ " ADD CONSTRAINT " ++ fk.constraintName.quoted ++
    " FOREIGN KEY (" ++ quotedList fk.columns ++ ") REFERENCES " ++
    (refSchema.quoted ++ ("." ++ referencedTable.quoted ++ " (" ++
      quotedList fk.referencedColumns ++ ") ON DELETE " ++ fkAction fk.onDelete ++
      " ON UPDATE " ++ fkAction fk.onUpdate ++ " NOT VALID;"))
  let validate := "ALTER TABLE " ++ table ++ " VALIDATE CONSTRAINT " ++ fk.constraintName.quoted
  [add, validate ++ ";"]

/-- Whether a foreign key has statements, and the table it refers to. -/
def DeferredForeignKey.reference (fk : DeferredForeignKey) : Option Ident :=
  if fk.isDisabled || fk.columns.isEmpty then none else fk.referencedTable

/-- A dictionary with its newest entry first. -/
abbrev SchemaMap := List (String × Ident)

def resolveSchema (lower : String → String) (resolver : SchemaMap) (fk : DeferredForeignKey)
    (targetSchema : Ident) : Ident :=
  (resolver.lookup (lower fk.referencedSchema)).getD targetSchema

def generateForeignKey (lower : String → String) (targetSchema tableName : Ident)
    (fk : DeferredForeignKey) (resolver : SchemaMap) : List String :=
  match fk.reference with
  | none => []
  | some referencedTable =>
      foreignKeyStatements targetSchema tableName fk referencedTable
        (resolveSchema lower resolver fk targetSchema)

/-- `expr[1:-1]` of an expression in parentheses. -/
def dropParentheses (expr : List Char) : List Char :=
  if expr.head? = some '(' ∧ expr.getLast? = some ')' then expr.tail.dropLast else expr

/-- `re.sub(r"\[([^\]]+)\]", r'"\1"', expr)`, for at most as many characters as given. -/
def bracketsToQuotes : Nat → List Char → List Char
  | 0, cs => cs
  | _ + 1, [] => []
  | n + 1, c :: cs =>
      let name := cs.takeWhile (· ≠ ']')
      let rest := cs.dropWhile (· ≠ ']')
      if c = '[' ∧ name ≠ [] ∧ rest ≠ [] then
        '"' :: name ++ '"' :: bracketsToQuotes n rest.tail
      else c :: bracketsToQuotes n cs

variable (u : UnicodeTables)

def transpileCheckExpression (definition : String) : String :=
  let expr := dropParentheses (PythonTransforms.strip u definition.toList)
  ((String.ofList (bracketsToQuotes expr.length expr)).replace "getdate()"
    "CURRENT_TIMESTAMP").replace "GETDATE()" "CURRENT_TIMESTAMP"

/-- `^[\d.]+$`; the `$` also matches before a last line feed. -/
def isNumber (expr : List Char) : Bool :=
  let digits := if expr.getLast? = some '\n' then expr.dropLast else expr
  digits ≠ [] && digits.all fun c => (u.digit c).isSome || c = '.'

def transpileDefaultExpression (definition : String) : Option String :=
  let expr := dropParentheses (PythonTransforms.strip u definition.toList)
  let lowered := PythonTransforms.lower (String.ofList expr)
  if lowered ∈ ["getdate()", "sysdatetime()", "sysutcdatetime()"] then some "CURRENT_TIMESTAMP"
  else if lowered ∈ ["newid()", "newsequentialid()"] then some "gen_random_uuid()"
  else if isNumber u expr then some (String.ofList expr)
  else if expr.head? = some (Char.ofNat 39) ∧ expr.getLast? = some (Char.ofNat 39) then
    some (String.ofList expr)
  else none

def generateCheckConstraint (targetSchema tableName : Ident) (check : DeferredCheckConstraint) :
    List String :=
  let expr := transpileCheckExpression u check.checkDefinition
  if check.isDisabled || expr == "" then []
  else
    let table := qualified targetSchema tableName
    ["ALTER TABLE " ++ table ++ " ADD CONSTRAINT " ++ check.constraintName.quoted ++ " CHECK (" ++
        expr ++ ") NOT VALID;",
      "ALTER TABLE " ++ table ++ " VALIDATE CONSTRAINT " ++ check.constraintName.quoted ++ ";"]

/-- An expression that is the empty text counts as none. -/
def generateColumnDefault (targetSchema tableName : Ident) (default : DeferredColumnDefault) :
    Option String :=
  match transpileDefaultExpression u default.defaultDefinition with
  | none => none
  | some expr =>
      if expr = "" then none
      else some ("ALTER TABLE " ++ qualified targetSchema tableName ++ " ALTER COLUMN " ++
        default.columnName.quoted ++ " SET DEFAULT " ++ expr ++ ";")

end Generator

theorem foreignKeyStatements_injective {targetSchema tableName referencedTable : Ident}
    {fk : DeferredForeignKey} {refSchema refSchema' : Ident}
    (h : foreignKeyStatements targetSchema tableName fk referencedTable refSchema =
      foreignKeyStatements targetSchema tableName fk referencedTable refSchema') :
    refSchema = refSchema' := by
  have hadd := (List.cons.inj h).1
  simp only [String.append_right_inj, String.append_left_inj] at hadd
  exact Ident.quoted_injective hadd

end SqlOptima.PostMigrationDdl
