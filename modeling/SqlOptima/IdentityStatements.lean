import Mathlib.Data.List.Basic
import SqlOptima.DelimitedIdentifiers
import SqlOptima.PostMigrationDdl
import SqlOptima.SqlReading

namespace SqlOptima.SequenceValues

/-!
# Sequences

A sequence of numbers as PostgreSQL has it: the values go in steps of the increment until they
leave the bounds.
-/

structure Sequence where
  increment : Int
  minValue : Int
  maxValue : Int
  lastValue : Int
  isCalled : Bool

/-- `b` comes after `a` in the direction of the increment. -/
def Beyond (increment a b : Int) : Prop := (0 < increment ∧ a < b) ∨ (increment < 0 ∧ b < a)

namespace Sequence

variable (s : Sequence)

def candidate : Int := if s.isCalled then s.lastValue + s.increment else s.lastValue

def nextval : Option (Int × Sequence) :=
  if s.minValue ≤ s.candidate ∧ s.candidate ≤ s.maxValue then
    some (s.candidate, { s with lastValue := s.candidate, isCalled := true })
  else none

/-- A value out of the bounds is an error. -/
def setval (value : Int) (isCalled : Bool) : Option Sequence :=
  if s.minValue ≤ value ∧ value ≤ s.maxValue then
    some { s with lastValue := value, isCalled := isCalled }
  else none

/-- The next values, as many as there are. -/
def generated : Nat → Sequence → List Int
  | 0, _ => []
  | n + 1, s =>
      match s.nextval with
      | none => []
      | some (v, s') => v :: generated n s'

end Sequence

section Direction

variable {increment a b c : Int}

theorem Beyond.trans (hab : Beyond increment a b) (hbc : Beyond increment b c) :
    Beyond increment a c := by
  unfold Beyond at *
  omega

theorem Beyond.ne (h : Beyond increment a b) : a ≠ b := by
  unfold Beyond at h
  omega

theorem beyond_add (h : increment ≠ 0) (a : Int) : Beyond increment a (a + increment) := by
  unfold Beyond
  omega

variable {s : Sequence}

/-- The values after a call go on from the last one in the direction of the increment. -/
theorem generated_beyond (hinc : s.increment ≠ 0) (hcalled : s.isCalled = true) (n : Nat) :
    (∀ v ∈ s.generated n, Beyond s.increment s.lastValue v) ∧
      (s.generated n).Pairwise (Beyond s.increment) := by
  induction n generalizing s with
  | zero => exact ⟨fun v hv => absurd hv List.not_mem_nil, List.Pairwise.nil⟩
  | succ n ih =>
      rw [Sequence.generated, Sequence.nextval]
      split
      · next => exact ⟨fun v hv => absurd hv List.not_mem_nil, List.Pairwise.nil⟩
      · next v s' heq =>
          split at heq
          · cases heq
            have hstep : Beyond s.increment s.lastValue s.candidate := by
              rw [Sequence.candidate, if_pos hcalled]
              exact beyond_add hinc _
            obtain ⟨hbeyond, hpairwise⟩ :=
              @ih { s with lastValue := s.candidate, isCalled := true } hinc rfl
            refine ⟨List.forall_mem_cons.mpr ⟨hstep, fun v hv => ?_⟩,
              List.pairwise_cons.mpr ⟨hbeyond, hpairwise⟩⟩
            exact hstep.trans (hbeyond v hv)
          · cases heq

end Direction

end SqlOptima.SequenceValues

namespace SqlOptima.IdentityStatements

open DdlIdentifier PostMigrationDdl SequenceValues SqlReading QuotedText
open DelimitedIdentifiers (clip clip_eq_self_iff)

/-!
# The identity statements

The statements of an identity column, read and executed as PostgreSQL does it.
-/

section Columns

inductive ColumnType where
  | smallint | integer | bigint | numeric

/-- The least and the greatest value of an integer type. -/
def ColumnType.bounds : ColumnType → Option (Int × Int)
  | .smallint => some (-32768, 32767)
  | .integer => some (-2147483648, 2147483647)
  | .bigint => some (-9223372036854775808, 9223372036854775807)
  | .numeric => none

def ColumnType.Holds (type : ColumnType) (value : Int) : Prop :=
  ∀ bounds ∈ type.bounds, bounds.1 ≤ value ∧ value ≤ bounds.2

/-- The types that SQL Server takes for an identity column. -/
inductive IdentityType where
  | tinyint | smallint | int | bigint | decimal
  deriving DecidableEq

def IdentityType.target : IdentityType → ColumnType
  | .tinyint => .smallint
  | .smallint => .smallint
  | .int => .integer
  | .bigint => .bigint
  | .decimal => .numeric

/-- A row of the identity columns of SQL Server. -/
structure IdentityRow where
  columnName : Ident
  typeName : IdentityType
  seedValue : Int
  incrementValue : Int
  lastValue : Option Int
  increment_ne : incrementValue ≠ 0
  seed_holds : typeName.target.Holds seedValue

/-- The body of the loop of `_discover_identities`; the last value is not used any further. -/
def discoverIdentity (row : IdentityRow) : DeferredIdentityColumn where
  columnName := row.columnName
  seedValue := if row.seedValue = 0 then 1 else row.seedValue
  incrementValue := if row.incrementValue = 0 then 1 else row.incrementValue

end Columns

section Target

/-- A column of a table of PostgreSQL, with its values. -/
structure Column where
  type : ColumnType
  notNull : Bool
  hasDefault : Bool
  identity : Option Sequence
  values : List Int
  holds : ∀ v ∈ values, type.Holds v

/-- The columns by schema, table and name, as they are kept. -/
abbrev Database := List Char → List Char → List Char → Option Column

def Database.set (db : Database) (schema table name : List Char) (column : Column) : Database :=
  fun schema' table' name' =>
    if schema' = schema ∧ table' = table ∧ name' = name then some column
    else db schema' table' name'

inductive Statement where
  | addIdentity (schema table column : List Char) (increment : Option Int)
  | setMaximum (schema table column ofSchema ofTable ofColumn : List Char) (floor : Int)

def apostrophe : Char := Char.ofNat 39

def alterTable : List Char := "ALTER TABLE ".toList

def alterColumn : List Char := " ALTER COLUMN ".toList

def addGenerated : List Char := " ADD GENERATED BY DEFAULT AS IDENTITY".toList

def incrementBy : List Char := " (INCREMENT BY ".toList

def selectSetval : List Char := "SELECT setval(pg_get_serial_sequence(".toList

def selectMaximum : List Char := "), GREATEST(COALESCE((SELECT MAX(".toList

def fromTable : List Char := ") FROM ".toList

def orZero : List Char := "), 0), ".toList

def called : List Char := "), true);".toList

/-- What PostgreSQL keeps of an identifier: the first 63 bytes. -/
def kept (name : List Char) : List Char := clip 63 name

def readTable (text : List Char) : Option (List Char × List Char × List Char) := do
  let schema ← quoted '"' text
  let rest ← expect ['.'] schema.2
  let table ← quoted '"' rest
  some (kept schema.1, kept table.1, table.2)

def readAddIdentity (text : List Char) : Option Statement := do
  let rest ← expect alterTable text
  let table ← readTable rest
  let rest ← expect alterColumn table.2.2
  let column ← quoted '"' rest
  let rest ← expect addGenerated column.2
  if rest = [';'] then some (.addIdentity table.1 table.2.1 (kept column.1) none)
  else
    let rest ← expect incrementBy rest
    let increment ← integer rest
    if increment.2 = [')', ';'] then
      some (.addIdentity table.1 table.2.1 (kept column.1) (some increment.1))
    else none

/-- The column, its table and the number of `GREATEST(COALESCE((SELECT MAX(...) ...`. -/
def readMaximum (text : List Char) : Option (List Char × List Char × List Char × Int) := do
  let rest ← expect selectMaximum text
  let column ← quoted '"' rest
  let rest ← expect fromTable column.2
  let table ← readTable rest
  let rest ← expect orZero table.2.2
  let floor ← integer rest
  if floor.2 = called then some (table.1, table.2.1, kept column.1, floor.1) else none

/-- The first argument of `pg_get_serial_sequence` is read once more, as the name of a table; the
second is the name of the column as it is, of which nothing is cut off. -/
def readSetval (text : List Char) : Option Statement := do
  let rest ← expect selectSetval text
  let relation ← quoted apostrophe rest
  let rest ← expect [',', ' '] relation.2
  let column ← quoted apostrophe rest
  let table ← readTable relation.1
  let source ← readMaximum column.2
  if table.2.2 = [] then
    some (.setMaximum table.1 table.2.1 column.1 source.1 source.2.1 source.2.2.1 source.2.2.2)
  else none

def readStatement (text : List Char) : Option Statement :=
  (readAddIdentity text).or (readSetval text)

/-- The sequence of an identity column that is added. -/
def newSequence (bounds : Int × Int) (increment : Int) : Sequence :=
  if 0 < increment then ⟨increment, 1, bounds.2, 1, false⟩
  else ⟨increment, bounds.1, -1, -1, false⟩

def greatest (a b : Int) : Int := if a ≤ b then b else a

/-- `COALESCE(MAX(...), 0)` -/
def maximum : List Int → Int
  | [] => 0
  | v :: vs => vs.foldl greatest v

/-- An identity column is an integer column that is declared NOT NULL, has no default and is none
yet. A column without a sequence leaves `setval` without an effect. -/
def exec (db : Database) : Statement → Option Database
  | .addIdentity schema table name increment =>
      (db schema table name).bind fun column =>
        column.type.bounds.bind fun bounds =>
          if column.notNull ∧ column.hasDefault = false ∧ column.identity.isNone ∧
              increment.getD 1 ≠ 0 then
            some (db.set schema table name
              { column with identity := some (newSequence bounds (increment.getD 1)) })
          else none
  | .setMaximum schema table name ofSchema ofTable ofName floor =>
      (db schema table name).bind fun column =>
        (db ofSchema ofTable ofName).bind fun source =>
          match column.identity with
          | none => some db
          | some sequence =>
              (sequence.setval (greatest (maximum source.values) floor) true).map fun sequence =>
                db.set schema table name { column with identity := some sequence }

/-- What cannot be read is an error. -/
def run (db : Database) (text : String) : Option Database :=
  (readStatement text.toList).bind (exec db)

def runAll (db : Database) (statements : List String) : Option Database :=
  statements.foldlM run db

end Target

section Reading

variable {rest : List Char}

/-- The text of a qualified name. -/
def qualifiedText (schema table : List Char) : List Char :=
  '"' :: (doubled '"' schema ++ '"' :: '.' :: '"' :: (doubled '"' table ++ ['"']))

theorem toList_quoted (i : Ident) :
    i.quoted.toList = '"' :: (doubled '"' i.name.toList ++ ['"']) :=
  String.toList_ofList

theorem quoted_ident (i : Ident) (h : rest.head? ≠ some '"') :
    quoted '"' (i.quoted.toList ++ rest) = some (i.name.toList, rest) := by
  rw [toList_quoted, List.cons_append, List.append_assoc, List.singleton_append]
  exact quoted_double h i.name.toList

theorem toList_qualified (schema table : Ident) :
    (qualified schema table).toList = qualifiedText schema.name.toList table.name.toList := by
  simp [qualified, qualifiedText, toList_quoted]

theorem readTable_qualifiedText (schema table : List Char) (h : rest.head? ≠ some '"') :
    readTable (qualifiedText schema table ++ rest) = some (kept schema, kept table, rest) := by
  have hschema : quoted '"' (qualifiedText schema table ++ rest) =
      some (schema, '.' :: '"' :: (doubled '"' table ++ '"' :: rest)) := by
    rw [qualifiedText, List.cons_append, List.append_assoc, List.cons_append, List.cons_append,
      List.cons_append, List.append_assoc, List.singleton_append]
    exact quoted_double (head_cons_ne (show '.' ≠ '"' by decide) _) schema
  simp only [readTable, Option.bind_eq_bind, hschema, Option.bind_some, expect_cons, expect_nil,
    quoted_double h table]

/-- What is read as a qualified name is one. -/
theorem eq_of_readTable {s t text : List Char} (h : readTable text = some (s, t, rest)) :
    ∃ schema table, s = kept schema ∧ t = kept table ∧
      text = qualifiedText schema table ++ rest := by
  simp only [readTable, Option.bind_eq_bind, Option.bind_eq_some_iff] at h
  obtain ⟨⟨schema, afterSchema⟩, hs, afterDot, hdot, ⟨table, afterTable⟩, ht, h⟩ := h
  cases h
  refine ⟨schema, table, rfl, rfl, ?_⟩
  have hafter : afterSchema = ['.'] ++ afterDot := eq_append_of_expect hdot
  rw [(eq_of_quoted hs).1, hafter, (eq_of_quoted ht).1, qualifiedText]
  simp

theorem qualifiedText_injective {s t s' t' : List Char}
    (h : qualifiedText s t = qualifiedText s' t') : s = s' ∧ t = t' := by
  have hread : ∀ s t, quoted '"' (qualifiedText s t) =
      some (s, '.' :: '"' :: (doubled '"' t ++ ['"'])) := fun s _ =>
    quoted_double (head_cons_ne (show '.' ≠ '"' by decide) _) s
  have heq := hread s t
  rw [h, hread s' t'] at heq
  obtain ⟨hs, htail⟩ := Prod.mk.inj (Option.some.inj heq)
  have ht : doubled '"' t' = doubled '"' t :=
    List.append_cancel_right (List.cons.inj (List.cons.inj htail).2).2
  exact ⟨hs.symm, (doubled_injective '"' ht).symm⟩

theorem doubled_comm {q q' : Char} (h : q ≠ q') (text : List Char) :
    doubled q (doubled q' text) = doubled q' (doubled q text) := by
  induction text with
  | nil => rfl
  | cons c text ih =>
      rw [doubled_cons, doubled_cons, doubled_append, doubled_append, ih]
      by_cases hq : c = q
      · have hq' : c ≠ q' := fun heq => h (hq.symm.trans heq)
        simp [doubled_cons, hq, h]
      · by_cases hq' : c = q'
        · simp [doubled_cons, hq', Ne.symm h]
        · simp [doubled_cons, hq, hq']

theorem doubled_qualifiedText {q : Char} (hquote : q ≠ '"') (hdot : q ≠ '.')
    (s t : List Char) :
    doubled q (qualifiedText s t) = qualifiedText (doubled q s) (doubled q t) := by
  simp [qualifiedText, doubled_cons, doubled_append, doubled_comm hquote, Ne.symm hquote,
    Ne.symm hdot]

def incrementClause (increment : Int) : String :=
  if increment ≠ 0 ∧ increment ≠ 1 then " (INCREMENT BY " ++ toString increment ++ ")" else ""

/-- What follows the literals in the second statement. -/
def maximumOf (schema table column : Ident) (floor : Int) : List Char :=
  selectMaximum ++ (column.quoted.toList ++ (fromTable ++
    ((qualified schema table).toList ++ (orZero ++ ((toString floor).toList ++ called)))))

def setvalText (schema table column : Ident) (floor : Int) : List Char :=
  selectSetval ++ apostrophe :: ((qualified schema table).toList ++ apostrophe :: ',' :: ' ' ::
    apostrophe :: (column.name.toList ++ apostrophe :: maximumOf schema table column floor))

theorem opening_literal : "SELECT setval(pg_get_serial_sequence('".toList =
    selectSetval ++ [apostrophe] := append_literal rfl rfl

theorem between_literals : "', '".toList = [apostrophe, ',', ' ', apostrophe] :=
  toList_literal rfl

theorem closing_literal : "'), GREATEST(COALESCE((SELECT MAX(".toList =
    apostrophe :: selectMaximum := cons_literal rfl rfl

theorem called_eq : "), true)".toList ++ ";".toList = called :=
  (congrArg ("), true)".toList ++ ·) (toList_literal rfl)).trans (append_literal rfl rfl).symm

theorem literals_eq {before before' between after after' t c text : List Char}
    (hbefore : before' = before ++ [apostrophe])
    (hbetween : between = [apostrophe, ',', ' ', apostrophe])
    (hafter : after' = apostrophe :: after) :
    before' ++ (t ++ (between ++ (c ++ (after' ++ text)))) =
      before ++ apostrophe :: (t ++ apostrophe :: ',' :: ' ' :: apostrophe ::
        (c ++ apostrophe :: (after ++ text))) := by
  rw [hbefore, hbetween, hafter]
  simp

theorem statements_eq (schema table : Ident) (column : DeferredIdentityColumn) :
    ∃ alter setval, generateIdentityFinalize schema table column = [alter, setval] ∧
      alter.toList = alterTable ++ ((qualified schema table).toList ++ (alterColumn ++
        (column.columnName.quoted.toList ++ (addGenerated ++
          ((incrementClause column.incrementValue).toList ++ [';']))))) ∧
      setval.toList = setvalText schema table column.columnName (max column.seedValue 1) := by
  refine ⟨_, _, rfl, ?_, ?_⟩
  · simp only [String.toList_append, List.append_assoc]
    rfl
  · simp only [String.toList_append, List.append_assoc]
    rw [called_eq, setvalText, maximumOf]
    exact literals_eq opening_literal between_literals closing_literal

theorem head_ne {word : List Char} {c q : Char} (h : word.head? = some c) (hc : c ≠ q)
    (text : List Char) : (word ++ text).head? ≠ some q := by
  rw [List.head?_append, h, Option.some_or]
  exact fun heq => hc (Option.some.inj heq)

theorem head_alterColumn : alterColumn.head? = some ' ' := head_literal rfl

theorem head_addGenerated : addGenerated.head? = some ' ' := head_literal rfl

theorem head_incrementBy : incrementBy.head? = some ' ' := head_literal rfl

theorem close_eq : ")".toList = [')'] := toList_literal rfl

theorem incrementClause_toList {increment : Int} (h : increment ≠ 0 ∧ increment ≠ 1) :
    (incrementClause increment).toList ++ [';'] =
      incrementBy ++ ((toString increment).toList ++ [')', ';']) := by
  rw [incrementClause, if_pos h]
  simp only [String.toList_append, List.append_assoc]
  rw [close_eq]
  rfl

theorem incrementClause_none {increment : Int} (h : ¬ (increment ≠ 0 ∧ increment ≠ 1)) :
    (incrementClause increment).toList ++ [';'] = [';'] := by
  rw [incrementClause, if_neg h]
  rfl

theorem readAddIdentity_eq (schema table column : Ident) (increment : Int) :
    readAddIdentity (alterTable ++ ((qualified schema table).toList ++ (alterColumn ++
      (column.quoted.toList ++ (addGenerated ++
        ((incrementClause increment).toList ++ [';'])))))) =
      some (.addIdentity (kept schema.name.toList) (kept table.name.toList)
        (kept column.name.toList)
        (if increment ≠ 0 ∧ increment ≠ 1 then some increment else none)) := by
  rw [toList_qualified]
  have htable := readTable_qualifiedText schema.name.toList table.name.toList
    (head_ne head_alterColumn (by decide) (column.quoted.toList ++ (addGenerated ++
      ((incrementClause increment).toList ++ [';']))))
  have hcolumn := quoted_ident column (head_ne head_addGenerated (by decide)
    ((incrementClause increment).toList ++ [';']))
  simp only [readAddIdentity, expect_append, Option.bind_eq_bind, Option.bind_some, htable, hcolumn]
  by_cases hinc : increment ≠ 0 ∧ increment ≠ 1
  · have hclause : incrementBy ++ ((toString increment).toList ++ [')', ';']) ≠ [';'] := by
      intro heq
      exact head_ne head_incrementBy (by decide) _ (congrArg List.head? heq)
    rw [if_pos hinc, incrementClause_toList hinc, if_neg hclause, expect_append, Option.bind_some,
      integer_toString (by rintro c ⟨⟩; rfl)]
    rfl
  · rw [if_neg hinc, incrementClause_none hinc, if_pos rfl]

theorem head_fromTable : fromTable.head? = some ')' := head_literal rfl

theorem head_orZero : orZero.head? = some ')' := head_literal rfl

theorem head_selectMaximum : selectMaximum.head? = some ')' := head_literal rfl

theorem head_called : called.head? = some ')' := head_literal rfl

section Literals

variable {schema table column : Ident} {floor : Int}

theorem readMaximum_eq (schema table column : Ident) (floor : Int) :
    readMaximum (maximumOf schema table column floor) =
      some (kept schema.name.toList, kept table.name.toList, kept column.name.toList, floor) := by
  have hcolumn := quoted_ident column (head_ne head_fromTable (by decide)
    ((qualified schema table).toList ++ (orZero ++ ((toString floor).toList ++ called))))
  have htable := readTable_qualifiedText schema.name.toList table.name.toList
    (head_ne head_orZero (by decide) ((toString floor).toList ++ called))
  have hfloor : integer ((toString floor).toList ++ called) = some (floor, called) := by
    refine integer_toString ?_ floor
    rw [head_called]
    rintro c ⟨⟩
    rfl
  rw [← toList_qualified] at htable
  rw [readMaximum, maximumOf]
  simp only [expect_append, Option.bind_eq_bind, Option.bind_some, hcolumn, htable, hfloor, if_true]

theorem within_qualifiedText (s t : List Char) :
    Within '"' apostrophe false (qualifiedText s t) := by
  have hdot : Within '"' apostrophe false ('.' :: '"' :: (doubled '"' t ++ ['"'])) := by
    rw [Within, if_neg (by decide), Within, if_pos rfl, Bool.not_false, within_quoted]
    exact ⟨fun heq => absurd heq (by decide), rfl⟩
  rw [qualifiedText, Within, if_pos rfl, Bool.not_false, within_quoted]
  exact hdot

/-- In what is read as the second part of the statement apostrophes stand in names only. -/
theorem within_of_readMaximum {text : List Char} {found : List Char × List Char × List Char × Int}
    (h : readMaximum text = some found) : Within '"' apostrophe false text := by
  simp only [readMaximum, Option.bind_eq_bind, Option.bind_eq_some_iff] at h
  obtain ⟨rest, hrest, ⟨c, afterColumn⟩, hcolumn, afterFrom, hfrom, ⟨s, t, afterTable⟩, htable,
    afterZero, hzero, ⟨n, afterFloor⟩, hfloor, h⟩ := h
  split at h
  · next hends =>
      dsimp only at hcolumn hfrom htable hzero hfloor hends
      obtain ⟨schema, table, -, -, htext⟩ := eq_of_readTable htable
      obtain ⟨digits, hdigits, hall⟩ := eq_append_of_integer hfloor
      have hdigit : ∀ c : Char, c ≠ '-' → c.isDigit = false → c ∉ digits := by
        intro c hminus hc hmem
        obtain heq | hdigit := hall c hmem
        · exact hminus heq
        · exact absurd (hc.symm.trans hdigit) Bool.noConfusion
      have hselect : Within '"' apostrophe false selectMaximum :=
        within_of_notMem (notMem_literal rfl (by decide)) (notMem_literal rfl (by decide))
      have hword : Within '"' apostrophe false fromTable :=
        within_of_notMem (notMem_literal rfl (by decide)) (notMem_literal rfl (by decide))
      have hor : Within '"' apostrophe false orZero :=
        within_of_notMem (notMem_literal rfl (by decide)) (notMem_literal rfl (by decide))
      have hcalled : Within '"' apostrophe false called :=
        within_of_notMem (notMem_literal rfl (by decide)) (notMem_literal rfl (by decide))
      have hnumber : Within '"' apostrophe false digits :=
        within_of_notMem (hdigit _ (by decide) (by decide)) (hdigit _ (by decide) (by decide))
      rw [eq_append_of_expect hrest, within_append hselect, (eq_of_quoted hcolumn).1, Within,
        if_pos rfl, Bool.not_false, within_quoted, eq_append_of_expect hfrom, within_append hword,
        htext, within_append (within_qualifiedText schema table), eq_append_of_expect hzero,
        within_append hor, hdigits, within_append hnumber, hends]
      exact hcalled
  · cases h

/-- The literal that holds the qualified name ends with it. -/
theorem qualified_of_quoted {s t s' t' rest after : List Char}
    (h : quoted apostrophe (apostrophe :: (qualifiedText s t ++ apostrophe :: rest)) =
      some (qualifiedText s' t', after)) :
    s = doubled apostrophe s' ∧ t = doubled apostrophe t' ∧ after = rest := by
  have hne : apostrophe ≠ '"' := by decide
  have htext := (List.cons.inj (eq_of_quoted h).1).2
  have hdoubled : Within '"' apostrophe false (doubled apostrophe (qualifiedText s' t')) :=
    within_doubled hne (within_qualifiedText s' t')
  have houtside : ∀ rest, ¬ Within '"' apostrophe false (apostrophe :: rest) := by
    intro rest hwithin
    rw [Within, if_neg hne] at hwithin
    exact Bool.noConfusion (hwithin.1 rfl)
  obtain ⟨tail, hq, htail⟩ | ⟨tail, hq, htail⟩ := List.append_eq_append_iff.mp htext
  · cases tail with
    | nil =>
        rw [List.append_nil, doubled_qualifiedText hne (by decide)] at hq
        obtain ⟨hs, ht⟩ := qualifiedText_injective hq
        exact ⟨hs.symm, ht.symm, (List.cons.inj htail).2.symm⟩
    | cons c tail =>
        obtain ⟨rfl, -⟩ := List.cons.inj htail
        rw [hq, within_append (within_qualifiedText s t)] at hdoubled
        exact absurd hdoubled (houtside tail)
  · cases tail with
    | nil =>
        rw [List.append_nil, doubled_qualifiedText hne (by decide)] at hq
        obtain ⟨hs, ht⟩ := qualifiedText_injective hq
        exact ⟨hs, ht, (List.cons.inj htail).2⟩
    | cons c tail =>
        obtain ⟨rfl, -⟩ := List.cons.inj htail
        have hwithin := within_qualifiedText s t
        rw [hq, within_append hdoubled] at hwithin
        exact absurd hwithin (houtside tail)

/-- The literal that holds the name of the column ends with it. -/
theorem column_of_quoted {name literal after text : List Char}
    {found found' : List Char × List Char × List Char × Int}
    (htext : readMaximum text = some found) (hafter : readMaximum after = some found')
    (h : quoted apostrophe (apostrophe :: (name ++ apostrophe :: text)) = some (literal, after)) :
    name = doubled apostrophe literal := by
  have hne : apostrophe ≠ '"' := by decide
  have heq := (List.cons.inj (eq_of_quoted h).1).2
  have hwithin := within_of_readMaximum htext
  have hwithin' := within_of_readMaximum hafter
  obtain ⟨tail, hq, htail⟩ | ⟨tail, hq, htail⟩ := List.append_eq_append_iff.mp heq
  · cases tail with
    | nil => exact (hq.trans (List.append_nil name)).symm
    | cons c tail =>
        -- The closing apostrophe is in a name of the text behind the literal.
        obtain ⟨-, htail⟩ := List.cons.inj htail
        rw [htail] at hwithin
        exact absurd (within_behind hne hwithin) (not_within hwithin')
  · cases tail with
    | nil => exact hq.trans (List.append_nil _)
    | cons c tail =>
        obtain ⟨-, htail⟩ := List.cons.inj htail
        rw [htail] at hwithin'
        exact absurd (within_behind hne hwithin') (not_within hwithin)

/-- The literals of the second statement are read as the names when every apostrophe in them has
its partner. -/
theorem readSetval_eq {s t c : List Char} (hschema : schema.name.toList = doubled apostrophe s)
    (htable : table.name.toList = doubled apostrophe t)
    (hcolumn : column.name.toList = doubled apostrophe c) :
    readSetval (setvalText schema table column floor) =
      some (.setMaximum (kept s) (kept t) c (kept schema.name.toList) (kept table.name.toList)
        (kept column.name.toList) floor) := by
  have hrelation : ∀ text : List Char, quoted apostrophe (apostrophe ::
      ((qualified schema table).toList ++ apostrophe :: ',' :: text)) =
        some (qualifiedText s t, ',' :: text) := by
    intro text
    rw [toList_qualified, hschema, htable, ← doubled_qualifiedText (by decide) (by decide)]
    exact quoted_double (head_cons_ne (show ',' ≠ apostrophe by decide) text) _
  have hliteral : quoted apostrophe (apostrophe :: (column.name.toList ++ apostrophe ::
      maximumOf schema table column floor)) =
        some (c, maximumOf schema table column floor) := by
    have hread := quoted_double (head_ne head_selectMaximum (show ')' ≠ apostrophe by decide)
      (column.quoted.toList ++ (fromTable ++ ((qualified schema table).toList ++ (orZero ++
        ((toString floor).toList ++ called)))))) c
    rwa [← hcolumn] at hread
  have hname : readTable (qualifiedText s t) = some (kept s, kept t, []) := by
    have hread := @readTable_qualifiedText [] s t (by decide)
    rwa [List.append_nil] at hread
  simp only [readSetval, setvalText, expect_append, expect_cons, expect_nil, Option.bind_eq_bind,
    Option.bind_some, hrelation, hliteral, hname, readMaximum_eq, if_true]

/-- What is read back has its apostrophes in pairs. -/
theorem literals_of_readSetval {s t c ofSchema ofTable ofColumn : List Char} {floor' : Int}
    (h : readSetval (setvalText schema table column floor) =
      some (.setMaximum s t c ofSchema ofTable ofColumn floor')) :
    ∃ schema' table', schema.name.toList = doubled apostrophe schema' ∧ kept schema' = s ∧
      table.name.toList = doubled apostrophe table' ∧ kept table' = t ∧
        column.name.toList = doubled apostrophe c := by
  simp only [readSetval, setvalText, expect_append, Option.bind_eq_bind, Option.bind_some,
    Option.bind_eq_some_iff] at h
  obtain ⟨⟨relation, afterRelation⟩, hrelation, rest, hrest, ⟨literal, after⟩, hliteral,
    ⟨s', t', u⟩, hname, found, hfound, h⟩ := h
  split at h
  · next hends =>
      injection Option.some.inj h with hs ht hc
      dsimp only at hs ht hc hends hname hfound hliteral hrest
      subst hs ht hc hends
      obtain ⟨schema', table', hs, ht, rfl⟩ := eq_of_readTable hname
      rw [toList_qualified, List.append_nil] at hrelation
      obtain ⟨hschema, htable, rfl⟩ := qualified_of_quoted hrelation
      cases hrest
      exact ⟨schema', table', hschema, hs.symm, htable, ht.symm,
        column_of_quoted (readMaximum_eq schema table column floor) hfound hliteral⟩
  · cases h

theorem eq_setMaximum_of_readSetval {text : List Char} {statement : Statement}
    (h : readSetval text = some statement) :
    ∃ s t c s' t' c' floor, statement = .setMaximum s t c s' t' c' floor := by
  simp only [readSetval, Option.bind_eq_bind, Option.bind_eq_some_iff] at h
  obtain ⟨_, -, _, -, _, -, _, -, _, -, _, -, h⟩ := h
  split at h
  · cases h
    exact ⟨_, _, _, _, _, _, _, rfl⟩
  · cases h

theorem head_alterTable : alterTable.head? = some 'A' := head_literal rfl

theorem head_selectSetval : selectSetval.head? = some 'S' := head_literal rfl

/-- The second statement is not read as the first. -/
theorem readAddIdentity_setvalText :
    readAddIdentity (setvalText schema table column floor) = none := by
  have hhead : (setvalText schema table column floor).head? = some 'S' := by
    rw [setvalText, List.head?_append, head_selectSetval, Option.some_or]
  rw [readAddIdentity, expect_of_head_ne head_alterTable hhead (by decide)]
  rfl

end Literals

end Reading

end SqlOptima.IdentityStatements
