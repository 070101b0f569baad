import SqlOptima.CdcPoll
import SqlOptima.QuotedText

namespace SqlOptima.CdcStatements

open CdcPoll
open QuotedText (enclosed)

/-!
# Statements that apply changes
-/

variable {V : Type}

section Build

def quoteIdentPG (ident : String) : String :=
  String.ofList (enclosed '"' '"' ident.toList)

def quotedTablePG (schema table : String) : String :=
  quoteIdentPG schema ++ "." ++ quoteIdentPG table

/-- The statements of `ApplyStatement`; one that is not applicable is none. -/
inductive Statement
  | delete (schema table : String) (pkColumns : List String)
  | upsert (schema table : String) (columns pkColumns : List String)
  deriving DecidableEq

def updatedColumns (columns pkColumns : List String) : List String :=
  columns.filter fun c => c ∉ pkColumns

def placeholders (n : Nat) : List String :=
  (List.range n).map fun i => "$" ++ toString (i + 1)

def onConflict (columns pkColumns : List String) : String :=
  let conflictCols := ", ".intercalate (pkColumns.map quoteIdentPG)
  if updatedColumns columns pkColumns = [] then "ON CONFLICT (" ++ conflictCols ++ ") DO NOTHING"
  else
    "ON CONFLICT (" ++ conflictCols ++ ") DO UPDATE SET " ++
      ", ".intercalate ((updatedColumns columns pkColumns).map fun c =>
        quoteIdentPG c ++ " = EXCLUDED." ++ quoteIdentPG c)

def Statement.sql : Statement → String
  | .delete schema table pkColumns =>
      "DELETE FROM " ++ quotedTablePG schema table ++ " WHERE " ++
        " AND ".intercalate ((pkColumns.zip (placeholders pkColumns.length)).map fun p =>
          quoteIdentPG p.1 ++ " = " ++ p.2)
  | .upsert schema table columns pkColumns =>
      "INSERT INTO " ++ quotedTablePG schema table ++ " (" ++
        ", ".intercalate (columns.map quoteIdentPG) ++ ") VALUES (" ++
          ", ".intercalate (placeholders columns.length) ++ ") " ++ onConflict columns pkColumns

def buildApplyStatement (schema table : String) (op : CDCOperation)
    (columns pkColumns : List String) : Option Statement :=
  match op with
  | .updateBefore => none
  | .delete => if pkColumns = [] then none else some (.delete schema table pkColumns)
  | .insert | .updateAfter =>
      if columns = [] ∨ pkColumns = [] then none
      else some (.upsert schema table columns pkColumns)

end Build

section Bind

/-- What `ev.Columns[c]` gives: nil for a column that is not there. -/
def columnValue (ev : CDCEvent (Option V)) (c : String) : Option V := (ev.columns.lookup c).join

inductive ApplyError
  | missingPkColumn (column : String)
  | execution
  deriving DecidableEq

def bindKey (ev : CDCEvent (Option V)) : List String → Except ApplyError (List (Option V))
  | [] => .ok []
  | c :: cs =>
      match ev.columns.lookup c with
      | none => .error (.missingPkColumn c)
      | some v => (bindKey ev cs).map (v :: ·)

def bindArgs (ev : CDCEvent (Option V)) (columns pkColumns : List String) :
    Except ApplyError (List (Option V)) :=
  match ev.operation with
  | .delete => bindKey ev pkColumns
  | .insert | .updateAfter => .ok (columns.map (columnValue ev))
  | .updateBefore => .ok []

end Bind

section Apply

/-- The part of the configuration of a poll loop that the writer is given. -/
structure ApplyConfig where
  targetSchema : String
  targetTable : String
  columns : List String
  pkColumns : List String

/-- What the target is asked to run. -/
structure Execution (V : Type) where
  statement : Statement
  args : List (Option V)
  deriving DecidableEq

def statementFor (cfg : ApplyConfig) (ev : CDCEvent (Option V)) : Option Statement :=
  buildApplyStatement cfg.targetSchema cfg.targetTable ev.operation cfg.columns cfg.pkColumns

/-- `ApplyWriter.Apply` up to the execution, which is none where there is no statement. -/
def prepare (cfg : ApplyConfig) (ev : CDCEvent (Option V)) :
    Except ApplyError (Option (Execution V)) :=
  match statementFor cfg ev with
  | none => .ok none
  | some statement =>
      match bindArgs ev cfg.columns cfg.pkColumns with
      | .error e => .error e
      | .ok args => .ok (some ⟨statement, args⟩)

/-- `ApplyWriter.Apply`: what it ran, or its error. `executes` says whether the target does what it
is asked. -/
def apply (cfg : ApplyConfig) (executes : Bool) (ev : CDCEvent (Option V)) :
    Except ApplyError (Option (Execution V)) :=
  match prepare cfg ev with
  | .error e => .error e
  | .ok none => .ok none
  | .ok (some execution) => if executes then .ok (some execution) else .error .execution

/-- What a statement for the event needs of the configuration. -/
def HasStatement (cfg : ApplyConfig) (ev : CDCEvent (Option V)) : Prop :=
  cfg.pkColumns ≠ [] ∧ (ev.operation = .delete ∨ cfg.columns ≠ [])

/-- A delete needs its key. -/
def HasKey (cfg : ApplyConfig) (ev : CDCEvent (Option V)) : Prop :=
  ev.operation = .delete → ∀ c ∈ cfg.pkColumns, (ev.columns.lookup c).isSome

end Apply

section Prepared

variable {cfg : ApplyConfig} {ev : CDCEvent (Option V)}

theorem bindKey_isOk_iff {cs : List String} :
    (∃ args, bindKey ev cs = .ok args) ↔ ∀ c ∈ cs, (ev.columns.lookup c).isSome := by
  induction cs with
  | nil => exact iff_of_true ⟨[], rfl⟩ fun _ hc => absurd hc List.not_mem_nil
  | cons c cs ih =>
      rw [List.forall_mem_cons, ← ih, bindKey]
      cases ev.columns.lookup c with
      | none =>
          refine iff_of_false ?_ fun h => Bool.false_ne_true h.1
          rintro ⟨args, hargs⟩
          cases hargs
      | some v =>
          constructor
          · rintro ⟨args, hargs⟩
            cases hbind : bindKey ev cs with
            | error e =>
                rw [hbind] at hargs
                cases hargs
            | ok rest => exact ⟨rfl, rest, rfl⟩
          · rintro ⟨-, rest, hrest⟩
            exact ⟨v :: rest, by rw [hrest]; rfl⟩

theorem statementFor_eq_none_iff :
    statementFor cfg ev = none ↔ (ev.isApplicable → ¬ HasStatement cfg ev) := by
  rw [statementFor, HasStatement, CDCEvent.isApplicable, CDCOperation.isApplicable]
  cases ev.operation with
  | updateBefore => exact iff_of_true rfl fun h => absurd h Bool.false_ne_true
  | delete =>
      rw [buildApplyStatement]
      split
      · next hkey => exact iff_of_true rfl fun _ h => h.1 hkey
      · next hkey => exact iff_of_false (Option.some_ne_none _) fun h => h rfl ⟨hkey, .inl rfl⟩
  | insert | updateAfter =>
      rw [buildApplyStatement]
      split
      · next hnone =>
          refine iff_of_true rfl fun _ h => ?_
          rcases hnone with hcolumns | hkey
          · exact h.2.elim (fun h => by cases h) fun hne => hne hcolumns
          · exact h.1 hkey
      · next hsome =>
          obtain ⟨hcolumns, hkey⟩ := not_or.mp hsome
          exact iff_of_false (Option.some_ne_none _) fun h => h rfl ⟨hkey, .inr hcolumns⟩

theorem apply_of_no_statement {executes : Bool} (h : ¬ HasStatement cfg ev) :
    apply cfg executes ev = .ok none := by
  rw [apply, prepare, statementFor_eq_none_iff.mpr fun _ => h]

theorem bindArgs_isOk_of_hasKey (h : HasKey cfg ev) :
    ∃ args, bindArgs ev cfg.columns cfg.pkColumns = .ok args := by
  rw [bindArgs]
  cases hop : ev.operation with
  | delete => exact bindKey_isOk_iff.mpr (h hop)
  | insert => exact ⟨_, rfl⟩
  | updateAfter => exact ⟨_, rfl⟩
  | updateBefore => exact ⟨_, rfl⟩

theorem exists_apply_of_hasKey (h : HasKey cfg ev) :
    ∃ execution, apply cfg true ev = .ok execution := by
  obtain ⟨args, hargs⟩ := bindArgs_isOk_of_hasKey h
  rw [apply, prepare, hargs]
  cases statementFor cfg ev with
  | none => exact ⟨none, rfl⟩
  | some statement => exact ⟨some ⟨statement, args⟩, rfl⟩

theorem hasKey_of_apply {executes : Bool} {execution : Option (Execution V)}
    (h : apply cfg executes ev = .ok execution) : HasKey cfg ev := by
  intro hdelete c hc
  have hstatement : statementFor cfg ev ≠ none := fun hnone =>
    statementFor_eq_none_iff.mp hnone (by rw [CDCEvent.isApplicable, hdelete]; rfl)
      ⟨List.ne_nil_of_mem hc, .inl hdelete⟩
  obtain ⟨statement, hstatement⟩ := Option.ne_none_iff_exists'.mp hstatement
  rw [apply, prepare, hstatement, bindArgs, hdelete] at h
  dsimp only at h
  cases hbind : bindKey ev cfg.pkColumns with
  | error e =>
      rw [hbind] at h
      cases h
  | ok args => exact bindKey_isOk_iff.mp ⟨args, hbind⟩ c hc

theorem isSome_of_apply {executes : Bool} {execution : Option (Execution V)}
    (h : apply cfg executes ev = .ok execution) (happ : ev.isApplicable = true)
    (hstatement : HasStatement cfg ev) : execution.isSome := by
  have hsome : statementFor cfg ev ≠ none := fun hnone =>
    statementFor_eq_none_iff.mp hnone happ hstatement
  obtain ⟨statement, hsome⟩ := Option.ne_none_iff_exists'.mp hsome
  rw [apply, prepare, hsome] at h
  dsimp only at h
  cases hbind : bindArgs ev cfg.columns cfg.pkColumns with
  | error e =>
      rw [hbind] at h
      cases h
  | ok args =>
      rw [hbind] at h
      dsimp only at h
      split at h
      · cases h
        rfl
      · cases h

end Prepared

end SqlOptima.CdcStatements
