import Mathlib.Algebra.BigOperators.Group.Multiset.Defs
import Mathlib.Algebra.Ring.Nat
import Mathlib.Data.Multiset.Dedup
import SqlOptima.PythonText

namespace SqlOptima.PivotMeaning

open PythonText

/-!
# What PIVOT and a grouped SELECT return

Tables over arbitrary values; how a database reads a column, a list of names and an aggregate
function is part of its dialect.
-/

structure Table (V : Type) where
  columns : List Text
  rows : Multiset (List V)

/-- How a database reads the parts of a query: a column expression over named columns, with the name
and the values that it has, the names of an `IN` list, whether a value is the one that a name of the
list stands for, and the aggregate functions. -/
structure Dialect (V : Type) where
  column : List Text → Text → Option (Text × (List V → V))
  names : Text → List Text
  fits : V → Text → Bool
  aggregate : Text → Multiset V → V

/-- An item of a select list; a star stands for all columns. -/
structure SelectItem where
  text : Text
  star : Bool
  deriving DecidableEq, Repr

variable {V : Type} (d : Dialect V)

def readItem (columns : List Text) (item : SelectItem) :
    Option (List Text × (List V → List V)) :=
  if item.star then some (columns, id)
  else (d.column columns item.text).map fun c => ([c.1], fun row => [c.2 row])

def selectFrom (items : List SelectItem) (t : Table V) : Option (Table V) :=
  (items.mapM (readItem d t.columns)).map fun read =>
    ⟨read.flatMap (·.1), t.rows.map fun row => read.flatMap (·.2 row)⟩

/-- `source PIVOT (aggFunc(aggCol) FOR pivotCol IN (names))`: the source is grouped by its other
columns, and each name gives a column with the aggregate over its rows. -/
def pivot [DecidableEq V] (aggFunc aggCol pivotCol : Text) (names : List Text)
    (source : Table V) : Option (Table V) :=
  match d.column source.columns aggCol, d.column source.columns pivotCol with
  | some agg, some piv =>
      let kept := source.columns.filter fun c => c ≠ agg.1 ∧ c ≠ piv.1
      let key := fun row => kept.filterMap fun c => (source.columns.zip row).lookup c
      some
        { columns := kept ++ names
          rows := (source.rows.map key).dedup.map fun k =>
            k ++ names.map fun name => d.aggregate aggFunc
              ((source.rows.filter fun row => key row = k ∧ d.fits (piv.2 row) name = true).map
                agg.2) }
  | _, _ => none

/-- A query that groups its source by some items and adds a conditional sum for each value. -/
structure GroupedQuery where
  items : List SelectItem
  aggCol : Text
  pivotCol : Text
  values : List Text
  sourceQuery : Text
  groupItems : List SelectItem
  orderBy : Text
  deriving DecidableEq, Repr

/-- What a grouped query returns. It is refused when its list of sums is empty, for the comma before
it, and when it is to group by a star. -/
def grouped [DecidableEq V] (q : GroupedQuery) (source : Table V) : Option (Table V) :=
  if q.values = [] ∨ q.groupItems.any SelectItem.star then none
  else
    match d.column source.columns q.aggCol, d.column source.columns q.pivotCol,
      q.groupItems.mapM (readItem d source.columns), q.items.mapM (readItem d source.columns) with
    | some agg, some piv, some keys, some read =>
        let key := fun row => keys.flatMap (·.2 row)
        some
          { columns := read.flatMap (·.1) ++ q.values
            rows := (source.rows.map fun row => (key row, read.flatMap (·.2 row))).dedup.map
              fun k => k.2 ++ q.values.map fun value => d.aggregate "SUM".toList
                ((source.rows.filter fun row =>
                  key row = k.1 ∧ d.fits (piv.2 row) value = true).map agg.2) }
    | _, _, _, _ => none

section Columns

variable {d} {items : List SelectItem} {t source : Table V} {q : GroupedQuery}
  {columns : List Text}

/-- Items without a star give a column each. -/
theorem length_columns (hstar : ∀ item ∈ items, item.star = false)
    {read : List (List Text × (List V → List V))}
    (hread : items.mapM (readItem d columns) = some read) :
    (read.flatMap (·.1)).length = items.length := by
  induction items generalizing read with
  | nil =>
      obtain rfl : [] = read := by simpa using hread
      rfl
  | cons item items ih =>
      obtain ⟨hitem, hrest⟩ := List.forall_mem_cons.mp hstar
      rw [List.mapM_cons] at hread
      obtain ⟨first, hfirst, hread⟩ := Option.bind_eq_some_iff.mp hread
      obtain ⟨rest, hrest', hread⟩ := Option.bind_eq_some_iff.mp hread
      obtain rfl : first :: rest = read := Option.some.inj hread
      rw [readItem, hitem, if_neg Bool.false_ne_true] at hfirst
      obtain ⟨c, -, rfl⟩ := Option.map_eq_some_iff.mp hfirst
      rw [List.flatMap_cons, List.length_append, ih hrest hrest', List.length_cons, Nat.add_comm]
      rfl

theorem length_selectFrom (hstar : ∀ item ∈ items, item.star = false) {out : Table V}
    (h : selectFrom d items t = some out) : out.columns.length = items.length := by
  obtain ⟨read, hread, rfl⟩ := Option.map_eq_some_iff.mp h
  exact length_columns hstar hread

theorem length_grouped [DecidableEq V] (hstar : ∀ item ∈ q.items, item.star = false) {out : Table V}
    (h : grouped d q source = some out) :
    out.columns.length = q.items.length + q.values.length := by
  unfold grouped at h
  split_ifs at h
  split at h
  · rename_i agg piv keys read _ _ _ hread
    obtain rfl := Option.some.inj h
    rw [List.length_append, length_columns hstar hread]
  · cases h

theorem grouped_of_star [DecidableEq V] (h : ∃ item ∈ q.groupItems, item.star = true) :
    grouped d q source = none :=
  if_pos (.inr (List.any_eq_true.mpr h))

theorem grouped_of_values [DecidableEq V] (h : q.values = []) : grouped d q source = none :=
  if_pos (.inl h)

end Columns

end SqlOptima.PivotMeaning

namespace SqlOptima.StaticPivot

open PythonText PivotMeaning

section Rewriter

def isQuote (c : Char) : Bool := ['[', ']', '\'', '"'].contains c

/-- `v.strip("[]'\"")`. -/
def stripQuotes (s : Text) : Text :=
  ((s.dropWhile isQuote).reverse.dropWhile isQuote).reverse

def parseInList (inList : Text) : List Text :=
  (((inList.splitOn ',').map strip).filter (· ≠ [])).map stripQuotes

/-- `\s+AS\s+\w+`. -/
def aliasMatch : Matcher := fun _ rest =>
  let blanks := rest.takeWhile isSpace
  let keyword := rest.drop blanks.length
  let between := (keyword.drop 2).takeWhile isSpace
  let name := ((keyword.drop 2).drop between.length).takeWhile isWord
  if blanks ≠ [] ∧ "AS".toList.isPrefixOf (upper keyword) = true ∧ between ≠ [] ∧ name ≠ [] then
    some ([], blanks.length + 2 + between.length + name.length)
  else none

def joinItems (items : List SelectItem) : Text := [','].intercalate (items.map SelectItem.text)

/-- The groups of a match; the columns of `select_prefix` are stripped. -/
structure PivotMatch where
  selectItems : List SelectItem
  trimmed : strip (joinItems selectItems) = joinItems selectItems
  sourceQuery : Text
  aggFunc : Text
  aggCol : Text
  pivotCol : Text
  inList : Text
  orderBy : Text

def PivotMatch.prefixCols (m : PivotMatch) : Text := joinItems m.selectItems

def PivotMatch.groupCols (m : PivotMatch) : Text := strip (substitute aliasMatch m.prefixCols)

def sumCase (pivotCol aggCol value : Text) : Text :=
  "    SUM(CASE WHEN ".toList ++ pivotCol ++ " = '".toList ++ value ++ "' THEN ".toList ++ aggCol ++
    " END) AS \"".toList ++ value ++ "\"".toList

def orderClause (orderBy : Text) : Text :=
  if orderBy = [] then [] else "\nORDER BY ".toList ++ orderBy

def joinCases (pivotCol aggCol : Text) (values : List Text) : Text :=
  ",\n".toList.intercalate (values.map (sumCase pivotCol aggCol))

def groupedText (prefixCols cases sourceQuery groupCols order : Text) : Text :=
  "SELECT\n    ".toList ++ prefixCols ++ ",\n".toList ++ cases ++ "\nFROM (\n    ".toList ++
    sourceQuery ++ "\n) AS _src\nGROUP BY ".toList ++ groupCols ++ order

def converted (m : PivotMatch) : Text :=
  groupedText m.prefixCols (joinCases m.pivotCol (strip m.aggCol) (parseInList m.inList))
    (strip m.sourceQuery) m.groupCols (orderClause (strip m.orderBy))

/-- Where a match stands in a text. -/
structure Found where
  start : Text
  groups : PivotMatch
  rest : Text

/-- `StaticPivotRewriter.rewrite`, by what the pattern finds. -/
def rewrite (search : Text → Option Found) (sql : Text) : Option Text :=
  (search sql).map fun found => found.start ++ converted found.groups ++ found.rest

end Rewriter

section Queries

def withoutAlias (item : SelectItem) : SelectItem :=
  { item with text := substitute aliasMatch item.text }

/-- The query that the rewritten text spells. -/
def rewritten (m : PivotMatch) : GroupedQuery where
  items := m.selectItems
  aggCol := strip m.aggCol
  pivotCol := m.pivotCol
  values := parseInList m.inList
  sourceQuery := strip m.sourceQuery
  groupItems := m.selectItems.map withoutAlias
  orderBy := strip m.orderBy

def spell (q : GroupedQuery) : Text :=
  groupedText (joinItems q.items) (joinCases q.pivotCol q.aggCol q.values) q.sourceQuery
    (strip (joinItems q.groupItems)) (orderClause q.orderBy)

variable {V : Type} [DecidableEq V]

/-- What the PIVOT query returns. -/
def pivotResult (d : Dialect V) (m : PivotMatch) (source : Table V) : Option (Table V) :=
  (pivot d m.aggFunc (strip m.aggCol) m.pivotCol (d.names m.inList) source).bind
    (selectFrom d m.selectItems)

/-- What the rewritten query returns. -/
def rewrittenResult (d : Dialect V) (m : PivotMatch) (source : Table V) : Option (Table V) :=
  grouped d (rewritten m) source

/-- A query in which the pattern finds a PIVOT returns the same when it is rewritten. -/
def Preserves (tsql postgres : Dialect V) (search : Text → Option Found) (source : Table V)
    (sql : Text) : Prop :=
  ∀ found, search sql = some found → ∀ out, pivotResult tsql found.groups source = some out →
    rewrittenResult postgres found.groups source = some out

end Queries

section Spelling

theorem drop_append_stop {n : Nat} {s : Text} (h : n ≤ s.length) (t : Text) :
    (s ++ t).drop n = s.drop n ++ t := List.drop_append_of_le_length h

theorem takeWhile_comma {p : Char → Bool} (hp : p ',' = false) (s t : Text) :
    (s ++ ',' :: t).takeWhile p = s.takeWhile p :=
  takeWhile_append_stop (v := ',' :: t) (by simp [hp]) s

theorem length_takeWhile_le (p : Char → Bool) (s : Text) : (s.takeWhile p).length ≤ s.length :=
  (List.takeWhile_prefix p).length_le

theorem asKeyword_comma (s t : Text) :
    "AS".toList.isPrefixOf (upper (s ++ ',' :: t)) = "AS".toList.isPrefixOf (upper s) := by
  cases s with
  | nil => rfl
  | cons c s =>
      cases s with
      | nil => simp [upper, List.isPrefixOf]
      | cons d s => rfl

theorem length_of_asKeyword {s : Text} (h : "AS".toList.isPrefixOf (upper s) = true) :
    2 ≤ s.length := by
  simpa [upper] using (List.isPrefixOf_iff_prefix.mp h).length_le

/-- An alias does not reach over a comma. -/
theorem aliasMatch_comma (before : Option Char) (s t : Text) :
    aliasMatch before (s ++ ',' :: t) = aliasMatch before s := by
  unfold aliasMatch
  have hspace : isSpace ',' = false := by decide
  have hword : isWord ',' = false := by decide
  simp only [takeWhile_comma hspace, drop_append_stop (length_takeWhile_le isSpace s),
    asKeyword_comma]
  cases hkeyword : "AS".toList.isPrefixOf (upper (s.drop (s.takeWhile isSpace).length)) with
  | false => simp
  | true =>
      rw [drop_append_stop (length_of_asKeyword hkeyword), takeWhile_comma hspace,
        drop_append_stop (length_takeWhile_le isSpace _), takeWhile_comma hword]

theorem length_of_aliasMatch (before : Option Char) (s r : Text) (n : Nat)
    (h : aliasMatch before s = some (r, n)) : n ≤ s.length := by
  unfold aliasMatch at h
  simp only at h
  split_ifs at h with hmatch
  obtain ⟨-, hn⟩ := Prod.mk.inj (Option.some.inj h)
  have hblanks := length_takeWhile_le isSpace s
  have hkeyword := length_of_asKeyword hmatch.2.1
  have hbetween := length_takeWhile_le isSpace
    ((s.drop (s.takeWhile isSpace).length).drop 2)
  have hname := length_takeWhile_le isWord
    (((s.drop (s.takeWhile isSpace).length).drop 2).drop
      (((s.drop (s.takeWhile isSpace).length).drop 2).takeWhile isSpace).length)
  simp only [List.length_drop] at hkeyword hbetween hname
  omega

theorem substituteFrom_aliasMatch (before : Option Char) (s : Text) :
    substituteFrom aliasMatch 0 before s = substitute aliasMatch s := by
  cases s <;> rfl

theorem aliasMatch_here (before : Option Char) (t : Text) :
    aliasMatch before (',' :: t) = none := by
  have hnil := aliasMatch_comma before [] t
  rw [List.nil_append] at hnil
  rw [hnil]
  rfl

theorem substitute_comma (s t : Text) :
    substitute aliasMatch (s ++ ',' :: t) =
      substitute aliasMatch s ++ ',' :: substitute aliasMatch t := by
  have hparts : substituteFrom aliasMatch 0 none (s ++ ',' :: t) =
      substituteFrom aliasMatch 0 none s ++
        substituteFrom aliasMatch 0 (s.getLast?.or none) (',' :: t) :=
    substituteFrom_append (',' :: t) length_of_aliasMatch s 0 none (Nat.zero_le _)
      fun a b _ _ => aliasMatch_comma (a.getLast?.or none) b t
  have hcomma (before : Option Char) : substituteFrom aliasMatch 0 before (',' :: t) =
      ',' :: substituteFrom aliasMatch 0 (some ',') t := by
    rw [substituteFrom, aliasMatch_here]
  rw [substitute, hparts, hcomma, substituteFrom_aliasMatch, substituteFrom_aliasMatch]

theorem joinItems_cons_cons (item next : SelectItem) (items : List SelectItem) :
    joinItems (item :: next :: items) = item.text ++ ',' :: joinItems (next :: items) := by
  simp [joinItems]

/-- The aliases of the items are removed one by one. -/
theorem substitute_joinItems (items : List SelectItem) :
    substitute aliasMatch (joinItems items) = joinItems (items.map withoutAlias) := by
  induction items with
  | nil => rfl
  | cons item items ih =>
      cases items with
      | nil => simp [joinItems, withoutAlias]
      | cons next items =>
          rw [joinItems_cons_cons, substitute_comma, ih]
          exact (joinItems_cons_cons (withoutAlias item) (withoutAlias next)
            (items.map withoutAlias)).symm

theorem converted_eq (m : PivotMatch) : converted m = spell (rewritten m) := by
  have hgroup : m.groupCols = strip (joinItems (m.selectItems.map withoutAlias)) :=
    congrArg strip (substitute_joinItems m.selectItems)
  rw [converted, hgroup]
  rfl

end Spelling

section Results

variable {V : Type} [DecidableEq V] {tsql postgres : Dialect V} {m : PivotMatch}
  {source out : Table V}

/-- The rewritten query returns more columns than the PIVOT query, or nothing. -/
theorem rewrittenResult_ne (h : pivotResult tsql m source = some out) :
    rewrittenResult postgres m source ≠ some out := by
  intro hrewritten
  obtain ⟨t, -, hselect⟩ := Option.bind_eq_some_iff.mp h
  by_cases hstar : ∃ item ∈ m.selectItems, item.star = true
  · obtain ⟨item, hitem, hs⟩ := hstar
    have hgroup : ∃ item ∈ (rewritten m).groupItems, item.star = true :=
      ⟨withoutAlias item, List.mem_map_of_mem hitem, hs⟩
    rw [rewrittenResult, grouped_of_star hgroup] at hrewritten
    cases hrewritten
  · have hplain : ∀ item ∈ m.selectItems, item.star = false := by simpa using hstar
    have hcolumns := length_selectFrom hplain hselect
    have hwider : out.columns.length = m.selectItems.length + (rewritten m).values.length :=
      length_grouped hplain hrewritten
    have hnone : (rewritten m).values = [] := List.length_eq_zero_iff.mp (by omega)
    rw [rewrittenResult, grouped_of_values hnone] at hrewritten
    cases hrewritten

/-- The rewriting of a text preserves its result exactly when the pattern finds no PIVOT query in it
that returns one; a text in which it finds none is left alone, and the text that replaces a query
spells the grouped one. -/
theorem preserves_iff (tsql postgres : Dialect V) (search : Text → Option Found)
    (source : Table V) (sql : Text) :
    (rewrite search sql = (search sql).map fun found =>
        found.start ++ spell (rewritten found.groups) ++ found.rest) ∧
      (Preserves tsql postgres search source sql ↔
        ∀ found, search sql = some found → pivotResult tsql found.groups source = none) := by
  refine ⟨by simp only [rewrite, converted_eq], fun h found hfound => ?_, fun h found hfound => ?_⟩
  · rw [Option.eq_none_iff_forall_ne_some]
    intro out hout
    exact rewrittenResult_ne hout (h found hfound out hout)
  · intro out hout
    rw [h found hfound] at hout
    cases hout

def territorySales : PivotMatch where
  selectItems := [⟨"region".toList, false⟩]
  trimmed := by decide
  sourceQuery := "SELECT region, territory, sales FROM territories".toList
  aggFunc := "SUM".toList
  aggCol := "sales".toList
  pivotCol := "territory".toList
  inList := "[North]".toList
  orderBy := []

def territoryQuery : Text :=
  "SELECT region FROM (SELECT region, territory, sales FROM territories) AS s ".toList ++
    "PIVOT (SUM(sales) FOR territory IN ([North])) AS p".toList

/-- Columns by their names, over numbers. -/
def byName : Dialect Nat where
  column columns text := (columns.idxOf? text).map fun i => (text, fun row => row.getD i 0)
  names := parseInList
  fits value name := value = name.length
  aggregate _ values := values.sum

/-- The query of the regions gets the sum of the one territory as a second column. -/
theorem territorySales_changed :
    ¬ Preserves byName byName
      (fun sql => if sql = territoryQuery then some ⟨[], territorySales, []⟩ else none)
      ⟨["region".toList, "territory".toList, "sales".toList], {[1, 5, 10]}⟩ territoryQuery := by
  intro h
  obtain ⟨out, hout⟩ : ∃ out, pivotResult byName territorySales
      ⟨["region".toList, "territory".toList, "sales".toList], {[1, 5, 10]}⟩ = some out :=
    ⟨_, rfl⟩
  exact rewrittenResult_ne hout (h ⟨[], territorySales, []⟩ (if_pos rfl) out hout)

end Results

end SqlOptima.StaticPivot
