import SqlOptima.ApplyStatements
import SqlOptima.DelimitedIdentifiers
import SqlOptima.Utf8Text

namespace SqlOptima.ApplierStatements

open ApplyStatements
open CdcCapture (ChangeEvent ChangeOperation)
open DelimitedIdentifiers
open Utf8Text (utf8)

/-!
# The texts of the statements that apply and load rows

A statement is the list of the pieces that its format string has: texts of its own and the names
spliced into it, which the applier and the loader put in quotes each in its own way.
-/

section Builders

/-- `_quote_ident` of the applier. -/
def quoteIdent (ident : List Char) : List Char := '"' :: (ident ++ ['"'])

/-- `quoteIdentPG` of the loader: `strings.ReplaceAll` doubles the quotes inside. -/
def quoteIdentPG (ident : List Char) : List Char :=
  QuotedText.enclosed '"' '"' ident

def fixed (text : String) : Piece := .plain text.toList

def ident (text : String) : Piece := .name text.toList

/-- `sep.join` of the parts. -/
def joined (sep : String) : List (List Piece) → List Piece
  | [] => []
  | [part] => part
  | part :: parts => part ++ fixed sep :: joined sep parts

def placeholder (idx : Nat) : List Char := '$' :: Nat.toDigits 10 idx

def columnList (columns : List String) : List Piece :=
  joined ", " (columns.map fun c => [ident c])

def updateList (columns : List String) : List Piece :=
  joined ", " (columns.map fun c => [ident c, fixed " = EXCLUDED.", ident c])

def qualified (schema table : String) : List Piece := [ident schema, fixed ".", ident table]

variable {V : Type}

/-- `_build_upsert`; without values the statement is the empty text. -/
def buildUpsert (e : ChangeEvent (Option V)) (pkColumns : List String) : List Piece :=
  let cols := (e.afterValues.getD []).map Prod.fst
  if cols = [] then []
  else
    fixed "INSERT INTO " :: (qualified e.tableSchema e.tableName ++
      fixed " (" :: (columnList cols ++
        fixed ")\nVALUES (" ::
          (joined ", " ((List.range cols.length).map fun i => [.plain (placeholder (i + 1))]) ++
            fixed ")\nON CONFLICT (" :: (columnList pkColumns ++
              fixed ")\nDO UPDATE SET " :: (updateList cols ++ [fixed ";"])))))

/-- `_build_delete` -/
def buildDelete (e : ChangeEvent (Option V)) (pkColumns : List String) : List Piece :=
  fixed "DELETE FROM " :: (qualified e.tableSchema e.tableName ++
    fixed "\nWHERE " ::
      (joined " AND " (pkColumns.mapIdx fun i c =>
        [ident c, fixed " = ", .plain (placeholder (i + 1))]) ++ [fixed ";"]))

/-- The statement that `apply` executes for an event. -/
def applyStatement (pkColumns : List String) (e : ChangeEvent (Option V)) : List Piece :=
  if e.operation = .delete then buildDelete e (deleteKey pkColumns e)
  else buildUpsert e (upsertKey pkColumns e)

/-- What the loader puts into its statements. -/
structure LoadTarget where
  targetSchema : String
  targetTable : String
  columns : List String
  conflictColumns : List String
  pkColumn : String
  deriving DecidableEq

/-- `hash/fnv`, 32 bits, 1a. -/
def hashStrings (parts : List String) : UInt32 :=
  (parts.flatMap fun part => utf8 part.toList ++ [0]).foldl
    (fun h b => (h ^^^ b.toUInt32) * 16777619) 2166136261

/-- The first column stands in for missing conflict columns. -/
def LoadTarget.conflicts (t : LoadTarget) : List String :=
  if t.conflictColumns = [] then t.columns.take 1 else t.conflictColumns

def LoadTarget.staging (t : LoadTarget) : Piece :=
  .name ("_mig_stg_".toList ++
    Nat.toDigits 16 (hashStrings ([t.targetSchema, t.targetTable] ++ t.conflicts)).toNat)

def LoadTarget.target (t : LoadTarget) : List Piece := qualified t.targetSchema t.targetTable

/-- `BuildCopyStatement` -/
def buildCopyStatement (t : LoadTarget) : List Piece :=
  if t.columns = [] then
    fixed "COPY " :: (t.target ++ [fixed " FROM STDIN WITH (FORMAT binary)"])
  else
    fixed "COPY " :: (t.target ++
      fixed " (" :: (columnList t.columns ++ [fixed ") FROM STDIN WITH (FORMAT binary)"]))

/-- The statements of `RunToTargetTableUpsert`, which gives up without columns. -/
def upsertStatements (t : LoadTarget) : List (List Piece) :=
  if t.columns = [] then []
  else
    [fixed "CREATE TEMP TABLE " :: t.staging :: fixed " (LIKE " ::
        (t.target ++ [fixed " INCLUDING DEFAULTS) ON COMMIT DROP"]),
      fixed "COPY " :: t.staging :: fixed " (" ::
        (columnList t.columns ++ [fixed ") FROM STDIN WITH (FORMAT binary)"]),
      fixed "INSERT INTO " :: (t.target ++
        fixed " (" :: (columnList t.columns ++
          fixed ") SELECT " :: (columnList t.columns ++
            fixed " FROM " :: t.staging :: fixed " ON CONFLICT (" :: (columnList t.conflicts ++
              fixed ") DO UPDATE SET " :: updateList t.columns))))]

/-- `DeleteChunkRange` -/
def deleteChunkRange (t : LoadTarget) : List Piece :=
  fixed "DELETE FROM " :: (t.target ++
    [fixed " WHERE ", ident t.pkColumn, fixed " >= $1 AND ", ident t.pkColumn, fixed " <= $2"])

def loaderStatements (t : LoadTarget) : List (List Piece) :=
  buildCopyStatement t :: deleteChunkRange t :: upsertStatements t

/-- The longest name that PostgreSQL keeps whole has so many bytes. -/
def maxNameBytes : Nat := 63

/-- Every name is one identifier token with the name as its value, and every other character of
the statement stands for itself. -/
def Lexes (quote : List Char → List Char) (ps : List Piece) : Prop :=
  scan maxNameBytes .outside (render quote ps) = some (tokens ps)

instance instDecidableLexes (quote : List Char → List Char) (ps : List Piece) :
    Decidable (Lexes quote ps) :=
  inferInstanceAs (Decidable (_ = _))

end Builders

section Separation

/-- Pieces that a text keeps apart from whatever follows. -/
def Closes (part : List Piece) : Prop :=
  ∀ rest, StartsPlain rest → Separated rest → Separated (part ++ rest)

theorem closes_ident (text : String) : Closes [ident text] :=
  fun _ hplain hsep => ⟨hplain, hsep⟩

theorem closes_qualified (schema table : String) : Closes (qualified schema table) :=
  fun _ hplain hsep => ⟨List.cons_ne_nil _ _, by decide, hplain, hsep⟩

theorem closes_update (c : String) : Closes [ident c, fixed " = EXCLUDED.", ident c] :=
  fun _ hplain hsep => ⟨List.cons_ne_nil _ _, by decide, hplain, hsep⟩

theorem closes_placeholder (idx : Nat) : Closes [.plain (placeholder idx)] := by
  refine fun rest _ hsep => ⟨fun hmem => ?_, hsep⟩
  obtain heq | hdigit := List.mem_cons.mp hmem
  · exact absurd heq (by decide)
  · exact absurd (Nat.isDigit_of_mem_toDigits (by decide) (by decide) hdigit) (by decide)

theorem closes_condition (c : String) (idx : Nat) :
    Closes [ident c, fixed " = ", .plain (placeholder idx)] :=
  fun rest hplain hsep =>
    ⟨List.cons_ne_nil _ _, by decide, closes_placeholder idx rest hplain hsep⟩

/-- A text that keeps names apart. -/
def Keeps (text : String) : Prop := text.toList ≠ [] ∧ '"' ∉ text.toList

instance instDecidableKeeps (text : String) : Decidable (Keeps text) :=
  inferInstanceAs (Decidable (_ ∧ _))

theorem Closes.separated {part : List Piece} (h : Closes part) {text : String} (htext : Keeps text)
    {rest : List Piece} (hrest : Separated rest) : Separated (part ++ fixed text :: rest) :=
  h _ htext.1 ⟨htext.2, hrest⟩

theorem closes_joined {sep : String} (hsep : Keeps sep) {parts : List (List Piece)}
    (h : ∀ part ∈ parts, Closes part) : Closes (joined sep parts) := by
  induction parts with
  | nil => exact fun _ _ hrest => hrest
  | cons part parts ih =>
      have hpart := h part List.mem_cons_self
      have hparts := ih fun part hpart => h part (List.mem_cons_of_mem _ hpart)
      cases parts with
      | nil => exact hpart
      | cons part' parts =>
          intro rest hplain hrest
          rw [joined, List.append_assoc, List.cons_append]
          · exact hpart.separated hsep (hparts rest hplain hrest)
          · exact List.cons_ne_nil _ _

theorem closes_columnList (columns : List String) : Closes (columnList columns) := by
  refine closes_joined (by decide) fun part hpart => ?_
  obtain ⟨c, -, rfl⟩ := List.mem_map.mp hpart
  exact closes_ident c

theorem closes_updateList (columns : List String) : Closes (updateList columns) := by
  refine closes_joined (by decide) fun part hpart => ?_
  obtain ⟨c, -, rfl⟩ := List.mem_map.mp hpart
  exact closes_update c

variable {V : Type}

theorem separated_buildUpsert (e : ChangeEvent (Option V)) (pkColumns : List String) :
    Separated (buildUpsert e pkColumns) := by
  rw [buildUpsert]
  split
  · exact trivial
  · refine ⟨by decide, ?_⟩
    refine (closes_qualified _ _).separated (by decide) ?_
    refine (closes_columnList _).separated (by decide) ?_
    refine (closes_joined (by decide) fun part hpart => ?_).separated (by decide) ?_
    · obtain ⟨i, -, rfl⟩ := List.mem_map.mp hpart
      exact closes_placeholder (i + 1)
    · refine (closes_columnList _).separated (by decide) ?_
      exact (closes_updateList _).separated (by decide) trivial

theorem separated_buildDelete (e : ChangeEvent (Option V)) (pkColumns : List String) :
    Separated (buildDelete e pkColumns) := by
  refine ⟨by decide, ?_⟩
  refine (closes_qualified _ _).separated (by decide) ?_
  refine (closes_joined (by decide) fun part hpart => ?_).separated (by decide) trivial
  obtain ⟨i, hi, rfl⟩ := List.mem_mapIdx.mp hpart
  exact closes_condition _ (i + 1)

theorem separated_applyStatement (pkColumns : List String) (e : ChangeEvent (Option V)) :
    Separated (applyStatement pkColumns e) := by
  rw [applyStatement]
  split
  · exact separated_buildDelete e _
  · exact separated_buildUpsert e _

theorem closes_staging (t : LoadTarget) : Closes [t.staging] := fun _ hplain hsep => ⟨hplain, hsep⟩

theorem separated_buildCopyStatement (t : LoadTarget) : Separated (buildCopyStatement t) := by
  rw [buildCopyStatement]
  split
  · exact ⟨by decide, (closes_qualified _ _).separated (by decide) trivial⟩
  · refine ⟨by decide, (closes_qualified _ _).separated (by decide) ?_⟩
    exact (closes_columnList _).separated (by decide) trivial

theorem separated_deleteChunkRange (t : LoadTarget) : Separated (deleteChunkRange t) := by
  refine ⟨by decide, (closes_qualified _ _).separated (by decide) ?_⟩
  refine (closes_ident t.pkColumn).separated (by decide) ?_
  exact (closes_ident t.pkColumn).separated (by decide) trivial

theorem separated_upsertStatements (t : LoadTarget) :
    ∀ ps ∈ upsertStatements t, Separated ps := by
  intro ps hps
  rw [upsertStatements] at hps
  split at hps
  · exact absurd hps List.not_mem_nil
  · simp only [List.mem_cons, List.not_mem_nil, or_false] at hps
    obtain rfl | rfl | rfl := hps
    · refine ⟨by decide, (closes_staging t).separated (by decide) ?_⟩
      exact (closes_qualified _ _).separated (by decide) trivial
    · refine ⟨by decide, (closes_staging t).separated (by decide) ?_⟩
      exact (closes_columnList _).separated (by decide) trivial
    · refine ⟨by decide, (closes_qualified _ _).separated (by decide) ?_⟩
      refine (closes_columnList _).separated (by decide) ?_
      refine (closes_columnList _).separated (by decide) ?_
      refine (closes_staging t).separated (by decide) ?_
      refine (closes_columnList _).separated (by decide) ?_
      have hclose := closes_updateList t.columns [] trivial trivial
      rwa [List.append_nil] at hclose

theorem separated_loaderStatements (t : LoadTarget) :
    ∀ ps ∈ loaderStatements t, Separated ps := by
  intro ps hps
  obtain rfl | hps := List.mem_cons.mp hps
  · exact separated_buildCopyStatement t
  · obtain rfl | hps := List.mem_cons.mp hps
    · exact separated_deleteChunkRange t
    · exact separated_upsertStatements t ps hps

end Separation

section Identifiers

variable {V : Type}

/-- The applier's statement is read as it is meant where no name has a double quote in it; the
loader's statements are read so whatever the names are. A name is not empty, and PostgreSQL cuts
off what is too long. -/
theorem statements_lex_iff (pkColumns : List String) (e : ChangeEvent (Option V))
    (t : LoadTarget) :
    (Lexes quoteIdent (applyStatement pkColumns e) ∧
        ∀ ps ∈ loaderStatements t, Lexes quoteIdentPG ps) ↔
      (∀ ident ∈ names (applyStatement pkColumns e), Fits maxNameBytes ident ∧ '"' ∉ ident) ∧
        ∀ ps ∈ loaderStatements t, ∀ ident ∈ names ps, Fits maxNameBytes ident := by
  refine and_congr ?_ (forall₂_congr fun ps hps => ?_)
  · exact scan_render_enclosed_iff (separated_applyStatement pkColumns e)
  · exact scan_render_quoted_iff (separated_loaderStatements t ps hps)

def ordersInsert (column : String) : ChangeEvent (Option Nat) where
  tableSchema := "dbo"
  tableName := "Orders"
  operation := .insert
  afterValues := some [("id", some 1), (column, some 2)]
  beforeValues := none
  lsn := none

/-- A column name with a quote in it ends the identifier early. -/
theorem quote_in_column_splits :
    ¬ Lexes quoteIdent (applyStatement ["id"] (ordersInsert "size\" = 0; --")) := by
  intro h
  have hnames := (scan_render_enclosed_iff (separated_applyStatement _ _)).mp h
  exact (hnames "size\" = 0; --".toList (by decide)).2 (by decide)

end Identifiers

end SqlOptima.ApplierStatements
