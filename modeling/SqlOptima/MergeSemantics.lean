import Mathlib.Data.Multiset.Basic
import SqlOptima.KeyedUpsert
import SqlOptima.PythonText

namespace SqlOptima.MergeSemantics

open PythonText KeyedUpsert

section Expressions

/-- The parts of an expression in which references to columns are told from the rest. -/
inductive Token where
  | ref (qualifier : Option Text) (column : Text)
  | equals
  | other (t : Text)
  deriving DecidableEq

inductive Piece (V : Type) where
  | value (v : V)
  | text (t : Text)

/-- How a database evaluates an expression after its columns are read. -/
structure Engine (V : Type) where
  null : V
  value : List (Piece V) → V
  holds : List (Piece V) → Bool
  value_lone : ∀ v, value [.value v] = v

abbrev Row (V : Type) := Text → V

/-- A row in scope under a name. -/
structure Entry (V : Type) where
  name : Text
  columns : List Text
  row : Row V

abbrev Scope := List (Text × List Text)

variable {V : Type}

def Entry.scope (env : List (Entry V)) : Scope := env.map fun e => (e.name, e.columns)

/-- A reference names one column; it is ambiguous where two tables have the column. -/
def Resolves (scope : Scope) : Token → Bool
  | .ref (some q) c => (scope.find? fun e => e.1 = q).any fun e => c ∈ e.2
  | .ref none c => (scope.filter fun e => c ∈ e.2).length = 1
  | .equals => true
  | .other _ => true

def look (null : V) (env : List (Entry V)) : Option Text → Text → V
  | some q, c => (env.find? fun e => e.name = q).elim null fun e => e.row c
  | none, c => (env.find? fun e => c ∈ e.columns).elim null fun e => e.row c

def piece (null : V) (env : List (Entry V)) : Token → Piece V
  | .ref q c => .value (look null env q c)
  | .equals => .text ['=']
  | .other t => .text t

def Engine.eval (engine : Engine V) (env : List (Entry V)) (ts : List Token) : V :=
  engine.value (ts.map (piece engine.null env))

def Engine.test (engine : Engine V) (env : List (Entry V)) (ts : List Token) : Bool :=
  engine.holds (ts.map (piece engine.null env))

end Expressions

section Tables

inductive Source where
  | table (name : Text)
  | query (t : Text)
  deriving DecidableEq

/-- A target table with a unique index, and the table or query that rows are read from. -/
structure Database (V : Type) where
  engine : Engine V
  target : Text
  targetColumns : List Text
  keys : List Text
  defaults : Row V
  source : Source
  sourceColumns : List Text

structure Assignment where
  qualifier : Option Text
  column : Text
  value : List Token
  deriving DecidableEq

variable {V : Type} [DecidableEq V]

/-- Equal columns; null is equal to nothing. -/
def equalOn (null : V) (columns : List (Text × Text)) (r r' : Row V) : Bool :=
  columns.all fun c => r c.1 ≠ null ∧ r c.1 = r' c.2

def Database.sameKey (db : Database V) (r r' : Row V) : Bool :=
  equalOn db.engine.null (db.keys.map fun c => (c, c)) r r'

/-- The row that is inserted, with defaults for the columns that are not named. -/
def Database.proposed (db : Database V) (columns : List Text) (values : List (List Token))
    (env : List (Entry V)) : Row V :=
  fun c => ((columns.zip values).lookup c).elim (db.defaults c) (db.engine.eval env)

def Database.assign (db : Database V) (assignments : List Assignment) (env : List (Entry V))
    (r : Row V) : Row V :=
  fun c => (assignments.find? fun a => a.column = c).elim (r c) fun a => db.engine.eval env a.value

end Tables

section Merge

/-- An equality of a key column of the target and a column of the source, on either side of it, or
another condition. -/
inductive Conjunct where
  | key (targetFirst : Bool) (target source : Text)
  | extra (ts : List Token)

/-- An alias, and whether it is written with `AS`. -/
structure Alias where
  writtenAs : Bool
  name : Text

/-- `MERGE` with an update of the joined rows and an insert of the rows that are not. -/
structure Merge where
  target : Text
  targetAlias : Option Alias
  source : Source
  sourceAlias : Option Alias
  on : List Conjunct
  matchedCondition : Option (List Token)
  updates : List Assignment
  insertCondition : Option (List Token)
  columns : List Text
  values : List (List Token)

def Merge.targetName (m : Merge) : Text := m.targetAlias.elim m.target Alias.name

def Source.name : Source → Text
  | .table name => name
  | .query _ => []

def Merge.sourceName (m : Merge) : Text := m.sourceAlias.elim m.source.name Alias.name

def Conjunct.keyPair : Conjunct → Option (Text × Text)
  | .key _ target source => some (target, source)
  | .extra _ => none

def Merge.keyPairs (m : Merge) : List (Text × Text) := m.on.filterMap Conjunct.keyPair

variable {V : Type} [DecidableEq V]

def Merge.env (db : Database V) (m : Merge) (t s : Row V) : List (Entry V) :=
  [⟨m.targetName, db.targetColumns, t⟩, ⟨m.sourceName, db.sourceColumns, s⟩]

def Merge.sourceEnv (db : Database V) (m : Merge) (s : Row V) : List (Entry V) :=
  [⟨m.sourceName, db.sourceColumns, s⟩]

def Conjunct.holds (db : Database V) (m : Merge) (t s : Row V) : Conjunct → Bool
  | .key _ target source => equalOn db.engine.null [(target, source)] t s
  | .extra ts => db.engine.test (m.env db t s) ts

def Merge.joined (db : Database V) (m : Merge) (t s : Row V) : Bool :=
  m.on.all (Conjunct.holds db m t s)

def Merge.change (db : Database V) (m : Merge) (t s : Row V) : Row V :=
  if m.matchedCondition.all (db.engine.test (m.env db t s)) then
    db.assign m.updates (m.env db t s) t
  else t

def Merge.wanted (db : Database V) (m : Merge) (s : Row V) : Bool :=
  m.insertCondition.all (db.engine.test (m.sourceEnv db s))

def Merge.insertedRow (db : Database V) (m : Merge) (s : Row V) : Row V :=
  db.proposed m.columns m.values (m.sourceEnv db s)

/-- The unique index is checked at the end. -/
def Merge.exec (db : Database V) (m : Merge) (target source : List (Row V)) :
    Option (List (Row V)) :=
  let result := mergeAll (m.joined db) (m.change db) (m.wanted db) (m.insertedRow db) target source
  if Unique db.sameKey result then some result else none

/-- A regular identifier. -/
def IsName (t : Text) : Prop := t ≠ [] ∧ ∀ c ∈ t, isWord c = true

/-- A `MERGE` that runs: its names are those of the database, and the join is on the columns of
the unique index. -/
structure Merge.Valid (db : Database V) (m : Merge) : Prop where
  target : m.target = db.target
  source : m.source = db.source
  names : m.targetName ≠ m.sourceName
  identifiers : IsName m.targetName ∧ IsName m.sourceName ∧
    ∀ k ∈ m.keyPairs, IsName k.1 ∧ IsName k.2
  keys : db.keys = m.keyPairs.map Prod.fst
  keyed : m.keyPairs ≠ []
  keyTargets : ∀ k ∈ m.keyPairs, k.1 ∈ db.targetColumns
  keySources : ∀ k ∈ m.keyPairs, k.2 ∈ db.sourceColumns
  columns : m.columns ⊆ db.targetColumns
  columnsNodup : m.columns.Nodup
  inserts : m.columns ≠ []
  lengths : m.values.length = m.columns.length
  valuesResolve : ∀ v ∈ m.values, ∀ t ∈ v,
    Resolves [(m.sourceName, db.sourceColumns)] t = true
  updatesResolve : ∀ a ∈ m.updates, ∀ t ∈ a.value,
    Resolves [(m.targetName, db.targetColumns), (m.sourceName, db.sourceColumns)] t = true
  updated : ∀ a ∈ m.updates, a.column ∈ db.targetColumns ∧
    ∀ q ∈ a.qualifier, q = m.targetName
  updatedNodup : (m.updates.map Assignment.column).Nodup

end Merge

section Upsert

inductive From where
  | table (name : Text)
  | derived (query name : Text)
  | parenthesised (table name : Text)
  deriving DecidableEq

inductive RowSource where
  | values (vs : List (List Token))
  | select (vs : List (List Token)) (items : From)
  deriving DecidableEq

/-- `INSERT … ON CONFLICT`; without an action it is `DO NOTHING`. -/
structure Upsert where
  target : Text
  columns : List Text
  rows : RowSource
  conflict : List Text
  action : Option (List Assignment)
  deriving DecidableEq

def RowSource.expressions : RowSource → List (List Token)
  | .values vs => vs
  | .select vs _ => vs

def excludedName : Text := "EXCLUDED".toList

variable {V : Type} [DecidableEq V]

/-- The scope of the expressions; the parentheses are those of a query, not of a table. -/
def RowSource.scope (db : Database V) : RowSource → Option Scope
  | .values _ => some []
  | .select _ (.table name) =>
      if db.source = .table name then some [(name, db.sourceColumns)] else none
  | .select _ (.derived query name) =>
      if db.source = .query query then some [(name, db.sourceColumns)] else none
  | .select _ (.parenthesised _ _) => none

def Upsert.actionScope (db : Database V) (u : Upsert) : Scope :=
  [(u.target, db.targetColumns), (excludedName, db.targetColumns)]

def Assignment.accepted (db : Database V) (u : Upsert) (a : Assignment) : Bool :=
  a.qualifier = none && a.column ∈ db.targetColumns && a.value.all (Resolves (u.actionScope db))

/-- `ON CONFLICT` needs the columns of a unique index, unless it does nothing. -/
def Upsert.conflictAccepted (db : Database V) (u : Upsert) : Bool :=
  match u.conflict with
  | [] => u.action.isNone
  | columns => columns ⊆ db.keys && db.keys ⊆ columns

/-- What is checked before any row is read. -/
def Upsert.accepted (db : Database V) (u : Upsert) : Bool :=
  u.target = db.target && u.columns.Nodup && u.columns ⊆ db.targetColumns &&
    u.rows.expressions.length = u.columns.length &&
    (u.rows.scope db).any (fun scope => u.rows.expressions.all fun v => v.all (Resolves scope)) &&
    u.conflictAccepted db &&
    u.action.all fun as => as.all (Assignment.accepted db u) && (as.map Assignment.column).Nodup

def Upsert.rowsOf (db : Database V) (u : Upsert) (source : List (Row V)) : List (Row V) :=
  match u.rows with
  | .values vs => [db.proposed u.columns vs []]
  | .select vs (.table name) =>
      source.map fun s => db.proposed u.columns vs [⟨name, db.sourceColumns, s⟩]
  | .select vs (.derived _ name) =>
      source.map fun s => db.proposed u.columns vs [⟨name, db.sourceColumns, s⟩]
  | .select _ (.parenthesised _ _) => []

def Upsert.actionEnv (db : Database V) (u : Upsert) (r proposed : Row V) : List (Entry V) :=
  [⟨u.target, db.targetColumns, r⟩, ⟨excludedName, db.targetColumns, proposed⟩]

def Upsert.update (db : Database V) (u : Upsert) : Option (Row V → Row V → Row V) :=
  u.action.map fun as r proposed => db.assign as (u.actionEnv db r proposed) r

def Upsert.exec (db : Database V) (u : Upsert) (target source : List (Row V)) :
    Option (List (Row V)) :=
  if u.accepted db then
    (writeAll db.sameKey (u.update db) (target.map fun t => (t, false)) (u.rowsOf db source)).map
      (List.map Prod.fst)
  else none

end Upsert

section Effect

variable {V : Type} [DecidableEq V]

/-- The join keys of the source are unique. -/
def Merge.sourceUnique (db : Database V) (m : Merge) (source : List (Row V)) : Prop :=
  Unique (equalOn db.engine.null (m.keyPairs.map fun k => (k.2, k.2))) source

/-- The same table, or an error of both. -/
def SameTable (a b : Option (List (Row V))) : Prop :=
  a.map Multiset.ofList = b.map Multiset.ofList

/-- A statement that is left as it is keeps its effect. -/
def EffectKept (db : Database V) (m : Merge) (converted : Option Upsert) : Prop :=
  ∀ u ∈ converted, ∀ target source : List (Row V), Unique db.sameKey target →
    m.sourceUnique db source → SameTable (u.exec db target source) (m.exec db target source)

end Effect

end SqlOptima.MergeSemantics
