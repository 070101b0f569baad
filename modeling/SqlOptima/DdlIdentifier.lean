import SqlOptima.QuotedText

namespace SqlOptima.DdlIdentifier

open QuotedText

inductive IdentifierError where
  | unsafeIdentifier (label value : String)
  | empty
  deriving DecidableEq

/-- A double quote inside the name is doubled. -/
def escapeQuotes : List Char → List Char := doubled '"'

def quotePgIdent (name : String) : Except IdentifierError String :=
  if name = "" then .error .empty
  else .ok (String.ofList ('"' :: escapeQuotes name.toList ++ ['"']))

section Names

/-- A name that can be quoted. -/
structure Ident where
  name : String
  nonempty : name ≠ ""
  deriving DecidableEq

def Ident.quoted (i : Ident) : String :=
  String.ofList ('"' :: escapeQuotes i.name.toList ++ ['"'])

theorem Ident.quoted_injective : Function.Injective Ident.quoted := by
  intro i j h
  have hlist := String.ofList_injective h
  rw [List.cons_append, List.cons_append] at hlist
  have hname := doubled_injective _ (List.append_cancel_right (List.cons.inj hlist).2)
  cases i
  cases j
  cases String.toList_injective hname
  rfl

end Names

def isNameStart (c : Char) : Bool := c.isAlpha || c = '_'

def isNameRest (c : Char) : Bool := c.isAlphanum || c = '_' || c = ' ' || c = '-'

/-- `^[a-zA-Z_][a-zA-Z0-9_ \-]{0,127}$`; the `$` also matches before a last line feed. -/
def isSafeIdentifier (value : List Char) : Bool :=
  match if value.getLast? = some '\n' then value.dropLast else value with
  | [] => false
  | c :: cs => isNameStart c && cs.all isNameRest && decide (cs.length ≤ 127)

/-- The check of `shared/kernel/sql_identifier.py`. -/
def validateSqlIdentifier (value label : String) : Except IdentifierError Unit :=
  if isSafeIdentifier value.toList then .ok () else .error (.unsafeIdentifier label value)

end SqlOptima.DdlIdentifier
