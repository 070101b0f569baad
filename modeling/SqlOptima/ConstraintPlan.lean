import SqlOptima.ColumnTransforms
import SqlOptima.QuotedText

namespace SqlOptima.ConstraintPlan

open ColumnTransforms (trimSpace toLowerChar)
open QuotedText (enclosed)

inductive Engine where
  | postgres | sqlserver
  | other (name : String)
  deriving DecidableEq, Repr

structure TransferConstraintItem where
  key : String
  objectId : String
  kind : String
  schema : String
  table : String
  action : String
  definition : String
  deriving DecidableEq, Repr

structure TransferConstraintPlan where
  operatorReviewed : Bool
  onStop : String
  items : List TransferConstraintItem
  deriving DecidableEq, Repr

/-- The plan of the job's configuration, decoded; an absent or `null` one is the empty plan. -/
def parseTransferConstraintPlan : Option TransferConstraintPlan → TransferConstraintPlan
  | none => ⟨false, "", []⟩
  | some plan => if plan.onStop = "" then { plan with onStop := "restore_now" } else plan

section Text

/-- `strings.EqualFold` against lower-case ASCII: two letters outside ASCII fold to an ASCII one. -/
def foldChar (c : Char) : Char :=
  if c = '\u017f' then 's' else if c = '\u212a' then 'k' else c.toLower

def equalFold (s lower : String) : Bool :=
  s.toList.map foldChar == lower.toList

/-- Upper case, as far as a comparison with ASCII words can tell. -/
def toUpperChar (c : Char) : Char :=
  if c = '\u0131' then 'I' else if c = '\u017f' then 'S' else c.toUpper

def toLower (s : String) : String :=
  String.ofList (s.toList.map toLowerChar)

def startsWithUpper (definition word : String) : Bool :=
  word.toList.isPrefixOf (definition.toList.map toUpperChar)

def quoteWith (opening closing : Char) (ident : String) : String :=
  String.ofList (enclosed opening closing ident.toList)

def quoteIdentPG : String → String := quoteWith '"' '"'

def quotedTablePG (schema table : String) : String :=
  quoteIdentPG schema ++ "." ++ quoteIdentPG table

def quoteIdentMSSQL : String → String := quoteWith '[' ']'

def quotedTableMSSQL (schema table : String) : String :=
  quoteIdentMSSQL schema ++ "." ++ quoteIdentMSSQL table

end Text

def disableConstraintItems (plan : TransferConstraintPlan) : List TransferConstraintItem :=
  plan.items.filter fun item => equalFold item.action "disable"

section Order

/-- The map of the source; a kind that it does not have, also one in capitals, reads as zero. -/
def rank : String → Nat
  | "foreign_key" => 0
  | "check" => 1
  | "unique" => 2
  | "index" => 3
  | "secondary" => 3
  | "trigger" => 4
  | _ => 0

def less (restore : Bool) (a b : TransferConstraintItem) : Bool :=
  if rank a.kind ≠ rank b.kind then
    if restore then rank b.kind < rank a.kind else rank a.kind < rank b.kind
  else
    a.objectId < b.objectId

variable {α : Type}

/-- `if less(j, i) { out[i], out[j] = out[j], out[i] }`. -/
def exchange (lt : α → α → Bool) (out : Array α) (i j : Nat) : Array α :=
  if h : i < out.size ∧ j < out.size then
    if lt out[j] out[i] then out.swap i j h.1 h.2 else out
  else out

def exchangeSort (lt : α → α → Bool) (items : List α) : List α :=
  let n := items.length
  let pass (out : Array α) (i : Nat) : Array α :=
    (List.range' (i + 1) (n - (i + 1))).foldl (fun out j => exchange lt out i j) out
  ((List.range n).foldl pass items.toArray).toList

def orderedConstraintItems (items : List TransferConstraintItem) (restore : Bool) :
    List TransferConstraintItem :=
  exchangeSort (less restore) items

theorem exchange_perm (lt : α → α → Bool) (out : Array α) (i j : Nat) :
    (exchange lt out i j).toList.Perm out.toList := by
  unfold exchange
  split
  · split
    · exact (Array.swap_perm _ _).toList
    · exact List.Perm.refl _
  · exact List.Perm.refl _

theorem foldl_perm {β : Type} (f : Array α → β → Array α)
    (hf : ∀ out b, (f out b).toList.Perm out.toList) (bs : List β) (out : Array α) :
    (bs.foldl f out).toList.Perm out.toList := by
  induction bs generalizing out with
  | nil => exact List.Perm.refl _
  | cons b bs ih => exact (ih (f out b)).trans (hf out b)

theorem exchangeSort_perm (lt : α → α → Bool) (items : List α) :
    (exchangeSort lt items).Perm items := by
  unfold exchangeSort
  apply foldl_perm
  intro out i
  apply foldl_perm
  intro out j
  exact exchange_perm lt out i j

@[simp]
theorem mem_orderedConstraintItems {items : List TransferConstraintItem} {restore : Bool}
    {item : TransferConstraintItem} :
    item ∈ orderedConstraintItems items restore ↔ item ∈ items :=
  (exchangeSort_perm _ items).mem_iff

end Order

section Statements

def sanitizeDDLFragment (fragment kind : String) : Except String String :=
  let trimmed := trimSpace fragment.toList
  if trimmed = [] then .error (kind ++ " definition is empty")
  else if ';' ∈ trimmed then
    .error (kind ++ " definition must not contain a statement separator")
  else .ok (String.ofList trimmed)

def buildPostgresDropConstraint (schema table name : String) : String :=
  "ALTER TABLE " ++ quotedTablePG schema table ++ " DROP CONSTRAINT " ++ quoteIdentPG name

def buildPostgresAddConstraint (schema table name definition : String) : Except String String := do
  let text ← sanitizeDDLFragment definition "constraint"
  if ["FOREIGN KEY", "CHECK", "UNIQUE", "PRIMARY KEY", "EXCLUDE"].any (startsWithUpper text) then
    .ok ("ALTER TABLE " ++ quotedTablePG schema table ++ " ADD CONSTRAINT " ++ quoteIdentPG name ++
      " " ++ text)
  else
    .error "constraint definition must be FOREIGN KEY, CHECK, UNIQUE, PRIMARY KEY, or EXCLUDE"

def buildPostgresDropIndex (schema name : String) : String :=
  "DROP INDEX IF EXISTS " ++ quoteIdentPG schema ++ "." ++ quoteIdentPG name

def buildPostgresCreateIndex (definition : String) : Except String String := do
  let text ← sanitizeDDLFragment definition "index"
  if startsWithUpper text "CREATE " then .ok text
  else .error "index restore SQL must be a CREATE statement"

def buildPostgresDisableTrigger (schema table name : String) : String :=
  "ALTER TABLE " ++ quotedTablePG schema table ++ " DISABLE TRIGGER " ++ quoteIdentPG name

def buildPostgresEnableTrigger (schema table name : String) : String :=
  "ALTER TABLE " ++ quotedTablePG schema table ++ " ENABLE TRIGGER " ++ quoteIdentPG name

def buildMSSQLNoCheckConstraint (schema table name : String) : String :=
  "ALTER TABLE " ++ quotedTableMSSQL schema table ++ " NOCHECK CONSTRAINT " ++ quoteIdentMSSQL name

def buildMSSQLCheckConstraint (schema table name : String) : String :=
  "ALTER TABLE " ++ quotedTableMSSQL schema table ++ " WITH CHECK CHECK CONSTRAINT " ++
    quoteIdentMSSQL name

def buildMSSQLDisableIndex (schema table name : String) : String :=
  "ALTER INDEX " ++ quoteIdentMSSQL name ++ " ON " ++ quotedTableMSSQL schema table ++ " DISABLE"

def buildMSSQLRebuildIndex (schema table name : String) : String :=
  "ALTER INDEX " ++ quoteIdentMSSQL name ++ " ON " ++ quotedTableMSSQL schema table ++ " REBUILD"

def buildMSSQLDisableTrigger (schema table name : String) : String :=
  "DISABLE TRIGGER " ++ quoteIdentMSSQL name ++ " ON " ++ quotedTableMSSQL schema table

def buildMSSQLEnableTrigger (schema table name : String) : String :=
  "ENABLE TRIGGER " ++ quoteIdentMSSQL name ++ " ON " ++ quotedTableMSSQL schema table

def constraintDisableSQL (engine : Engine) (item : TransferConstraintItem) :
    Except String String :=
  match engine with
  | .postgres =>
      match toLower item.kind with
      | "foreign_key" | "check" | "unique" =>
          .ok (buildPostgresDropConstraint item.schema item.table item.objectId)
      | "index" | "secondary" => .ok (buildPostgresDropIndex item.schema item.objectId)
      | "trigger" => .ok (buildPostgresDisableTrigger item.schema item.table item.objectId)
      | _ => .error ("cannot disable " ++ item.kind ++ " " ++ item.objectId)
  | .sqlserver =>
      match toLower item.kind with
      | "foreign_key" | "check" =>
          .ok (buildMSSQLNoCheckConstraint item.schema item.table item.objectId)
      | "index" | "secondary" | "unique" =>
          .ok (buildMSSQLDisableIndex item.schema item.table item.objectId)
      | "trigger" => .ok (buildMSSQLDisableTrigger item.schema item.table item.objectId)
      | _ => .error ("cannot disable " ++ item.kind ++ " " ++ item.objectId)
  | .other name => .error ("unsupported target engine " ++ name)

def constraintRestoreSQL (engine : Engine) (item : TransferConstraintItem) :
    Except String String :=
  match engine with
  | .postgres =>
      match toLower item.kind with
      | "foreign_key" | "check" | "unique" =>
          buildPostgresAddConstraint item.schema item.table item.objectId item.definition
      | "index" | "secondary" => buildPostgresCreateIndex item.definition
      | "trigger" => .ok (buildPostgresEnableTrigger item.schema item.table item.objectId)
      | _ => .error ("cannot restore " ++ item.kind ++ " " ++ item.objectId)
  | .sqlserver =>
      match toLower item.kind with
      | "foreign_key" | "check" =>
          .ok (buildMSSQLCheckConstraint item.schema item.table item.objectId)
      | "index" | "secondary" | "unique" =>
          .ok (buildMSSQLRebuildIndex item.schema item.table item.objectId)
      | "trigger" => .ok (buildMSSQLEnableTrigger item.schema item.table item.objectId)
      | _ => .error ("cannot restore " ++ item.kind ++ " " ++ item.objectId)
  | .other name => .error ("unsupported target engine " ++ name)

end Statements

end SqlOptima.ConstraintPlan
