import SqlOptima.IdentityStatements

namespace SqlOptima.IdentityFinalize

open DdlIdentifier PostMigrationDdl SequenceValues SqlReading IdentityStatements
open QuotedText (doubled doubled_of_notMem)
open DelimitedIdentifiers (clip_eq_self_iff)

/-!
# Identity columns after the statements
-/

section Statement

variable (schema table : Ident) (row : IdentityRow)

/-- As the column stands after the load. -/
structure PlainInteger (column : Column) : Prop where
  integer : column.type.bounds ≠ none
  notNull : column.notNull = true
  noDefault : column.hasDefault = false
  noIdentity : column.identity = none

/-- Whatever the column holds: after the statements its sequence goes on beyond all that is there,
and on a plain integer column the statements succeed. -/
def NeverCollides : Prop :=
  ∀ (db : Database) (column : Column),
    db (kept schema.name.toList) (kept table.name.toList) (kept row.columnName.name.toList) =
        some column →
    column.type = row.typeName.target →
      (∀ db', runAll db (generateIdentityFinalize schema table (discoverIdentity row)) = some db' →
        ∃ column' sequence,
          db' (kept schema.name.toList) (kept table.name.toList)
            (kept row.columnName.name.toList) = some column' ∧
          column'.values = column.values ∧ column'.identity = some sequence ∧
          ∀ n, (sequence.generated n).Pairwise (Beyond row.incrementValue) ∧
            ∀ v ∈ sequence.generated n, v ∉ column.values ∧
              ∀ x ∈ column.values, Beyond row.incrementValue x v) ∧
      (PlainInteger column →
        (runAll db (generateIdentityFinalize schema table (discoverIdentity row))).isSome)

/-- Between apostrophes, where a pair of them is one, the name stands for the same identifier. -/
def KeptInLiteral (name : List Char) : Prop :=
  ∃ read, name = doubled apostrophe read ∧ kept read = kept name

/-- The increment goes up and the literals of the second statement name the column; of its own
name, unlike those of its schema and its table, nothing is cut off there. -/
def Finalizable : Prop :=
  row.typeName ≠ .decimal →
    0 < row.incrementValue ∧ KeptInLiteral schema.name.toList ∧ KeptInLiteral table.name.toList ∧
      row.columnName.name.toList = doubled apostrophe (kept row.columnName.name.toList)

end Statement

section Execution

variable (schema table : Ident) (row : IdentityRow)

/-- The greatest value that the sequence is set to at least. -/
def floorOf : Int := max (discoverIdentity row).seedValue 1

theorem increment_eq : (discoverIdentity row).incrementValue = row.incrementValue :=
  if_neg row.increment_ne

/-- What the first statement is read as. -/
def addition : Statement :=
  .addIdentity (kept schema.name.toList) (kept table.name.toList) (kept row.columnName.name.toList)
    (if row.incrementValue ≠ 0 ∧ row.incrementValue ≠ 1 then some row.incrementValue else none)

theorem runAll_eq (db : Database) :
    runAll db (generateIdentityFinalize schema table (discoverIdentity row)) =
      (exec db (addition schema table row)).bind fun db' =>
        (readSetval (setvalText schema table row.columnName (floorOf row))).bind (exec db') := by
  obtain ⟨alter, setval, hstatements, halter, hsetval⟩ :=
    statements_eq schema table (discoverIdentity row)
  have hread : readStatement alter.toList = some (addition schema table row) := by
    rw [halter, readStatement, readAddIdentity_eq, increment_eq, Option.some_or]
    rfl
  have hread' : readStatement setval.toList =
      readSetval (setvalText schema table row.columnName (floorOf row)) := by
    rw [hsetval, readStatement, readAddIdentity_setvalText, Option.none_or]
    rfl
  rw [hstatements, runAll, List.foldlM_cons, run, hread, Option.bind_some, Option.bind_eq_bind]
  refine congrArg (Option.bind _) (funext fun db' => ?_)
  rw [List.foldlM_cons, run, hread', Option.bind_eq_bind]
  simp only [List.foldlM_nil, Option.pure_def]
  exact Option.bind_fun_some _

variable {schema table row}

theorem set_self (db : Database) (s t c : List Char) (column : Column) :
    (db.set s t c column) s t c = some column :=
  if_pos ⟨rfl, rfl, rfl⟩

theorem increment_getD : (if row.incrementValue ≠ 0 ∧ row.incrementValue ≠ 1 then
    some row.incrementValue else none).getD 1 = row.incrementValue := by
  have hne := row.increment_ne
  split
  · rfl
  · next h =>
      rw [Option.getD_none]
      by_contra hone
      exact h ⟨hne, Ne.symm hone⟩

/-- The first statement succeeds on the plain integer columns. -/
theorem exec_addition {db db' : Database} {column : Column}
    (hcolumn : db (kept schema.name.toList) (kept table.name.toList)
      (kept row.columnName.name.toList) = some column)
    (h : exec db (addition schema table row) = some db') :
    ∃ bounds, column.type.bounds = some bounds ∧
      db' = db.set (kept schema.name.toList) (kept table.name.toList)
        (kept row.columnName.name.toList)
        { column with identity := some (newSequence bounds row.incrementValue) } := by
  rw [addition, exec, hcolumn, Option.bind_some, Option.bind_eq_some_iff] at h
  obtain ⟨bounds, hbounds, h⟩ := h
  rw [increment_getD] at h
  split at h
  · cases h
    exact ⟨bounds, hbounds, rfl⟩
  · cases h

theorem exec_addition_plain {db : Database} {column : Column}
    (hcolumn : db (kept schema.name.toList) (kept table.name.toList)
      (kept row.columnName.name.toList) = some column)
    (hplain : PlainInteger column) : (exec db (addition schema table row)).isSome := by
  obtain ⟨bounds, hbounds⟩ := Option.ne_none_iff_exists'.mp hplain.integer
  rw [addition, exec, hcolumn, Option.bind_some, hbounds, Option.bind_some, increment_getD, if_pos]
  · rfl
  · exact ⟨hplain.notNull, hplain.noDefault, by rw [hplain.noIdentity]; rfl, row.increment_ne⟩

theorem le_greatest (a b : Int) : a ≤ greatest a b ∧ b ≤ greatest a b := by
  rw [greatest]
  split
  · next h => exact ⟨h, Int.le_refl b⟩
  · next h => exact ⟨Int.le_refl a, by omega⟩

theorem greatest_cases (a b : Int) : greatest a b = a ∨ greatest a b = b := by
  rw [greatest]
  split
  · exact .inr rfl
  · exact .inl rfl

theorem foldl_greatest (vs : List Int) (a : Int) :
    (a ≤ vs.foldl greatest a ∧ ∀ x ∈ vs, x ≤ vs.foldl greatest a) ∧
      (vs.foldl greatest a = a ∨ vs.foldl greatest a ∈ vs) := by
  induction vs generalizing a with
  | nil => exact ⟨⟨Int.le_refl a, fun x hx => absurd hx List.not_mem_nil⟩, .inl rfl⟩
  | cons v vs ih =>
      obtain ⟨⟨hle, hall⟩, hmem⟩ := ih (greatest a v)
      obtain ⟨ha, hv⟩ := le_greatest a v
      rw [List.foldl_cons]
      refine ⟨⟨Int.le_trans ha hle, List.forall_mem_cons.mpr ⟨Int.le_trans hv hle, hall⟩⟩, ?_⟩
      obtain heq | hin := hmem
      · obtain hgreatest | hgreatest := greatest_cases a v
        · exact .inl (heq.trans hgreatest)
        · exact .inr (by rw [heq, hgreatest]; exact List.mem_cons_self)
      · exact .inr (List.mem_cons_of_mem v hin)

theorem le_maximum {values : List Int} : ∀ x ∈ values, x ≤ maximum values := by
  cases values with
  | nil => exact fun x hx => absurd hx List.not_mem_nil
  | cons v vs =>
      obtain ⟨⟨hle, hall⟩, -⟩ := foldl_greatest vs v
      exact List.forall_mem_cons.mpr ⟨hle, hall⟩

theorem maximum_cases (values : List Int) : maximum values = 0 ∨ maximum values ∈ values := by
  cases values with
  | nil => exact .inl rfl
  | cons v vs =>
      obtain ⟨-, heq | hmem⟩ := foldl_greatest vs v
      · exact .inr (by rw [maximum, heq]; exact List.mem_cons_self)
      · exact .inr (List.mem_cons_of_mem v hmem)

theorem bounds_pos {type : ColumnType} {bounds : Int × Int} (h : type.bounds = some bounds) :
    bounds.1 < 0 ∧ 1 ≤ bounds.2 := by
  cases type with
  | smallint => cases h; decide
  | integer => cases h; decide
  | bigint => cases h; decide
  | numeric => cases h

theorem one_le_floorOf : 1 ≤ floorOf row := by
  unfold floorOf
  omega

theorem floorOf_le {bounds : Int × Int} (h : row.typeName.target.bounds = some bounds) :
    floorOf row ≤ bounds.2 := by
  have hseed := (row.seed_holds bounds h).2
  have hone := (bounds_pos h).2
  have hdiscovered : (discoverIdentity row).seedValue = row.seedValue ∨
      (discoverIdentity row).seedValue = 1 := by
    rw [discoverIdentity]
    dsimp only
    split
    · exact .inr rfl
    · exact .inl rfl
  unfold floorOf
  omega

/-- With literals that hold, the second statement sets the sequence to what is at least all the
values and the floor. -/
theorem exec_setval {db : Database} {column : Column} {sequence : Sequence}
    (hcolumn : db (kept schema.name.toList) (kept table.name.toList)
      (kept row.columnName.name.toList) = some column)
    (hsequence : column.identity = some sequence)
    (hschema : KeptInLiteral schema.name.toList) (htable : KeptInLiteral table.name.toList)
    (hname : row.columnName.name.toList = doubled apostrophe (kept row.columnName.name.toList)) :
    (readSetval (setvalText schema table row.columnName (floorOf row))).bind (exec db) =
      (sequence.setval (greatest (maximum column.values) (floorOf row)) true).map fun sequence =>
        db.set (kept schema.name.toList) (kept table.name.toList)
          (kept row.columnName.name.toList) { column with identity := some sequence } := by
  obtain ⟨s, hs, hschema⟩ := hschema
  obtain ⟨t, ht, htable⟩ := htable
  rw [readSetval_eq hs ht hname, Option.bind_some, exec, hschema, htable, hcolumn,
    Option.bind_some, Option.bind_some, hsequence]

/-- The sequence of an upward identity column is set within its bounds. -/
theorem setval_up {column : Column} {bounds : Int × Int}
    (htype : column.type = row.typeName.target) (hbounds : column.type.bounds = some bounds)
    (hinc : 0 < row.incrementValue) :
    (newSequence bounds row.incrementValue).setval
        (greatest (maximum column.values) (floorOf row)) true =
      some ⟨row.incrementValue, 1, bounds.2, greatest (maximum column.values) (floorOf row),
        true⟩ := by
  have hfloor : floorOf row ≤ bounds.2 := floorOf_le (htype ▸ hbounds)
  have hone : 1 ≤ floorOf row := one_le_floorOf
  have hmax : maximum column.values ≤ bounds.2 := by
    obtain hzero | hmem := maximum_cases column.values
    · omega
    · exact (column.holds _ hmem bounds hbounds).2
  have hle := (le_greatest (maximum column.values) (floorOf row)).2
  have hupper : greatest (maximum column.values) (floorOf row) ≤ bounds.2 := by
    obtain heq | heq := greatest_cases (maximum column.values) (floorOf row)
    · omega
    · omega
  rw [newSequence, if_pos hinc, Sequence.setval, if_pos ⟨Int.le_trans hone hle, hupper⟩]

/-- The values of a downward sequence are negative, and what it would be set to is not. -/
theorem setval_down {bounds : Int × Int} (hinc : ¬ 0 < row.incrementValue) (values : List Int) :
    (newSequence bounds row.incrementValue).setval (greatest (maximum values) (floorOf row)) true =
      none := by
  have hone : 1 ≤ floorOf row := one_le_floorOf
  have hle := (le_greatest (maximum values) (floorOf row)).2
  rw [newSequence, if_neg hinc, Sequence.setval, if_neg]
  dsimp only
  omega

end Execution

section Main

variable {schema table : Ident} {row : IdentityRow}

theorem target_bounds (h : row.typeName ≠ .decimal) : row.typeName.target.bounds ≠ none := by
  cases htype : row.typeName with
  | tinyint => exact Option.some_ne_none _
  | smallint => exact Option.some_ne_none _
  | int => exact Option.some_ne_none _
  | bigint => exact Option.some_ne_none _
  | decimal => exact absurd htype h

theorem neverCollides_of_decimal (h : row.typeName = .decimal) :
    NeverCollides schema table row := by
  intro db column hcolumn htype
  have hbounds : column.type.bounds = none := by
    rw [htype, h]
    rfl
  refine ⟨fun db' hdb' => ?_, fun hplain => absurd hbounds hplain.integer⟩
  rw [runAll_eq, addition, exec, hcolumn, Option.bind_some, hbounds] at hdb'
  cases hdb'

theorem neverCollides_of_finalizable (hinc : 0 < row.incrementValue)
    (hschema : KeptInLiteral schema.name.toList) (htable : KeptInLiteral table.name.toList)
    (hname : row.columnName.name.toList = doubled apostrophe (kept row.columnName.name.toList)) :
    NeverCollides schema table row := by
  intro db column hcolumn htype
  have hrun : ∀ db₁, exec db (addition schema table row) = some db₁ →
      ∃ bounds, (readSetval (setvalText schema table row.columnName (floorOf row))).bind
        (exec db₁) = some (db₁.set (kept schema.name.toList) (kept table.name.toList)
          (kept row.columnName.name.toList)
          { column with identity := some ⟨row.incrementValue, 1, bounds,
            greatest (maximum column.values) (floorOf row), true⟩ }) := by
    intro db₁ hdb₁
    obtain ⟨bounds, hbounds, rfl⟩ := exec_addition hcolumn hdb₁
    refine ⟨bounds.2, ?_⟩
    rw [exec_setval (set_self _ _ _ _ _) rfl hschema htable hname]
    dsimp only
    rw [setval_up htype hbounds hinc]
    rfl
  constructor
  · intro db' hdb'
    rw [runAll_eq, Option.bind_eq_some_iff] at hdb'
    obtain ⟨db₁, hdb₁, hdb'⟩ := hdb'
    obtain ⟨bounds, hset⟩ := hrun db₁ hdb₁
    rw [hset] at hdb'
    cases hdb'
    refine ⟨_, _, set_self _ _ _ _ _, rfl, rfl, fun n => ?_⟩
    obtain ⟨hbeyond, hpairwise⟩ := @generated_beyond ⟨row.incrementValue, 1, bounds,
      greatest (maximum column.values) (floorOf row), true⟩ row.increment_ne rfl n
    refine ⟨hpairwise, fun v hv => ?_⟩
    have hafter : ∀ x ∈ column.values, Beyond row.incrementValue x v := by
      intro x hx
      have hmax := le_maximum x hx
      have hgreatest := (le_greatest (maximum column.values) (floorOf row)).1
      have hlast := hbeyond v hv
      unfold Beyond at hlast ⊢
      dsimp only at hlast
      omega
    exact ⟨fun hmem => (hafter v hmem).ne rfl, hafter⟩
  · intro hplain
    obtain ⟨db₁, hdb₁⟩ := Option.isSome_iff_exists.mp (exec_addition_plain hcolumn hplain)
    obtain ⟨bounds, hset⟩ := hrun db₁ hdb₁
    rw [runAll_eq, hdb₁, Option.bind_some, hset]
    rfl

/-- A column as the load leaves it, without a row. -/
def loadedColumn (type : ColumnType) : Column where
  type := type
  notNull := true
  hasDefault := false
  identity := none
  values := []
  holds := List.forall_mem_nil _

def loadedDatabase (schema table : Ident) (row : IdentityRow) : Database :=
  Database.set (fun _ _ _ => none) (kept schema.name.toList) (kept table.name.toList)
    (kept row.columnName.name.toList) (loadedColumn row.typeName.target)

theorem finalizable_of_neverCollides (h : NeverCollides schema table row) :
    Finalizable schema table row := by
  intro hdecimal
  have hcolumn : loadedDatabase schema table row (kept schema.name.toList)
      (kept table.name.toList) (kept row.columnName.name.toList) =
        some (loadedColumn row.typeName.target) := set_self _ _ _ _ _
  have hplain : PlainInteger (loadedColumn row.typeName.target) :=
    ⟨target_bounds hdecimal, rfl, rfl, rfl⟩
  obtain ⟨db', hdb'⟩ := Option.isSome_iff_exists.mp ((h _ _ hcolumn rfl).2 hplain)
  rw [runAll_eq, Option.bind_eq_some_iff] at hdb'
  obtain ⟨db₁, hdb₁, hdb'⟩ := hdb'
  obtain ⟨bounds, -, rfl⟩ := exec_addition hcolumn hdb₁
  obtain ⟨statement, hstatement, hexec⟩ := Option.bind_eq_some_iff.mp hdb'
  obtain ⟨s, t, c, s', t', c', floor, rfl⟩ := eq_setMaximum_of_readSetval hstatement
  rw [exec, Option.bind_eq_some_iff] at hexec
  obtain ⟨found, hfound, -⟩ := hexec
  -- The only column there is must be the one that the literals name.
  have hsame : s = kept schema.name.toList ∧ t = kept table.name.toList ∧
      c = kept row.columnName.name.toList := by
    by_contra hother
    rw [Database.set, if_neg hother, loadedDatabase, Database.set, if_neg hother] at hfound
    cases hfound
  obtain ⟨rfl, rfl, rfl⟩ := hsame
  obtain ⟨schema', table', hs, hschema, ht, htable, hname⟩ := literals_of_readSetval hstatement
  have hschema : KeptInLiteral schema.name.toList := ⟨schema', hs, hschema⟩
  have htable : KeptInLiteral table.name.toList := ⟨table', ht, htable⟩
  refine ⟨?_, hschema, htable, hname⟩
  by_contra hinc
  rw [exec_setval (set_self _ _ _ _ _) rfl hschema htable hname, setval_down hinc] at hdb'
  cases hdb'

/-- The sequence never collides exactly when the increment is positive and the literals of the
second statement name the column; a column that is no integer keeps the statements from
succeeding. -/
theorem neverCollides_iff (schema table : Ident) (row : IdentityRow) :
    NeverCollides schema table row ↔ Finalizable schema table row := by
  refine ⟨finalizable_of_neverCollides, fun h => ?_⟩
  by_cases hdecimal : row.typeName = .decimal
  · exact neverCollides_of_decimal hdecimal
  · obtain ⟨hinc, hschema, htable, hname⟩ := h hdecimal
    exact neverCollides_of_finalizable hinc hschema htable hname

/-- A plain name is kept in a literal. -/
theorem keptInLiteral_of_notMem {name : List Char} (h : apostrophe ∉ name) :
    KeptInLiteral name := ⟨name, (doubled_of_notMem h).symm, rfl⟩

theorem doubled_kept {name : List Char} (h : apostrophe ∉ name)
    (hbytes : (name.map Char.utf8Size).sum ≤ 63) : name = doubled apostrophe (kept name) := by
  rw [kept, clip_eq_self_iff.mpr hbytes, doubled_of_notMem h]

end Main

section Example

theorem orders_nonempty : "orders" ≠ "" := by decide

def orders : Ident := ⟨"orders", orders_nonempty⟩

theorem countdown_ne : (-1 : Int) ≠ 0 := by decide

theorem countdown_holds : IdentityType.int.target.Holds (-1) := by
  rintro bounds ⟨⟩
  decide

/-- `id int IDENTITY(-1, -1)` -/
def countdown : IdentityRow where
  columnName := orders
  typeName := .int
  seedValue := -1
  incrementValue := -1
  lastValue := none
  increment_ne := countdown_ne
  seed_holds := countdown_holds

theorem countdown_run :
    runAll (loadedDatabase orders orders countdown)
      (generateIdentityFinalize orders orders (discoverIdentity countdown)) = none := by
  have hcolumn : loadedDatabase orders orders countdown (kept orders.name.toList)
      (kept orders.name.toList) (kept countdown.columnName.name.toList) =
        some (loadedColumn .integer) := set_self _ _ _ _ _
  have hkept : KeptInLiteral orders.name.toList := keptInLiteral_of_notMem (by decide)
  have hname : orders.name.toList = doubled apostrophe (kept orders.name.toList) :=
    doubled_kept (by decide) (by decide)
  rw [runAll_eq]
  refine Option.bind_eq_none_iff.mpr fun db hdb => ?_
  obtain ⟨bounds, -, rfl⟩ := exec_addition hcolumn hdb
  rw [exec_setval (set_self _ _ _ _ _) rfl hkept hkept hname, setval_down (by decide)]
  rfl

/-- The sequence of a column that counts down cannot be set to 1. -/
theorem countdown_fails : ¬ NeverCollides orders orders countdown := by
  intro h
  have hplain : PlainInteger (loadedColumn .integer) := ⟨Option.some_ne_none _, rfl, rfl, rfl⟩
  have hrun := (h (loadedDatabase orders orders countdown) (loadedColumn .integer)
    (set_self _ _ _ _ _) rfl).2 hplain
  rw [countdown_run] at hrun
  cases hrun

end Example

end SqlOptima.IdentityFinalize
