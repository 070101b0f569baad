import SqlOptima.DoubleRounding
import SqlOptima.ExceptRules
import SqlOptima.InsertionDict
import SqlOptima.LexicalBands

namespace SqlOptima.RowComparison

open DoubleRounding ExceptRules InsertionDict LexicalBands

/-!
# The comparison of a sampled row
-/

/-- The values of the drivers. Numbers have an exact value; a decimal or a float may also be
infinite or NaN. -/
inductive Value (O : Type) where
  | int (n : Int)
  | decimal (d : Double)
  | float (d : Double)
  | text (s : String)
  | other (o : O)

variable {O : Type}

def Value.exact : Value O → Option Double
  | .int n => some (.finite n)
  | .decimal d => some d
  | .float d => some d
  | .text _ => none
  | .other _ => none

/-- `==` of two values. -/
def Value.equal [DecidableEq O] : Value O → Value O → Bool
  | .text s, .text t => s == t
  | .other a, .other b => a = b
  | a, b =>
      match a.exact, b.exact with
      | some x, some y => x.equal y
      | _, _ => false

/-- What `float` gives or raises. -/
inductive FloatResult where
  | value (d : Double)
  | typeOrValueError
  | overflowError

/-- `float` of a text and of the other values. -/
structure FloatOf (O : Type) where
  text : String → Option Double
  other : O → Option Double

def FloatResult.ofOption : Option Double → FloatResult
  | some d => .value d
  | none => .typeOrValueError

def toFloat (py : FloatOf O) : Option (Value O) → FloatResult
  | none => .typeOrValueError
  | some (.int n) =>
      match nearestDouble n with
      | .finite q => .value (.finite q)
      | _ => .overflowError
  | some (.decimal (.finite q)) => .value (nearestDouble q)
  | some (.decimal d) => .value d
  | some (.float d) => .value d
  | some (.text s) => .ofOption (py.text s)
  | some (.other o) => .ofOption (py.other o)

inductive CompareError where
  | overflowError

/-- `!=` of two values, one of which may be `None`. -/
def unequal [DecidableEq O] : Option (Value O) → Option (Value O) → Bool
  | none, none => false
  | some a, some b => !a.equal b
  | _, _ => true

/-- Whether the body of the loop appends the column. -/
def compareColumn [DecidableEq O] (py : FloatOf O) (sv tv : Option (Value O)) :
    Except CompareError Bool :=
  if sv.isNone && tv.isNone then .ok false
  else if unequal sv tv then
    match toFloat py sv with
    | .overflowError => .error .overflowError
    | .typeOrValueError => .ok true
    | .value a =>
        match toFloat py tv with
        | .overflowError => .error .overflowError
        | .typeOrValueError => .ok true
        | .value b => .ok (!a.equal b)
  else .ok false

abbrev Row (O : Type) := List (String × Option (Value O))

/-- The row by the lower-cased names of its columns; `lower` is Python's. -/
def lowerKeys (lower : String → String) (row : Row O) : Row O :=
  fromPairs (row.map fun e => (lower e.1, e.2))

def columnLe (a b : String) : Bool := lexLe a.toList b.toList

def sortedCommon (src tgt : Row O) : List String :=
  ((src.map Prod.fst).filter (tgt.map Prod.fst).contains).mergeSort columnLe

/-- The loop over the common columns. -/
def compareColumns (differs : String → Except CompareError Bool) :
    List String → Except CompareError (List String)
  | [] => .ok []
  | col :: cols => do
      let found ← differs col
      let diffs ← compareColumns differs cols
      .ok (if found then col :: diffs else diffs)

/-- `_compare_rows` -/
def compareRows [DecidableEq O] (lower : String → String) (py : FloatOf O) (src tgt : Row O) :
    Except CompareError (List String) :=
  let srcLower := lowerKeys lower src
  let tgtLower := lowerKeys lower tgt
  compareColumns (fun col => compareColumn py (srcLower.lookup col).join (tgtLower.lookup col).join)
    (sortedCommon srcLower tgtLower)

/-! ## What the comparison is for -/

variable [DecidableEq O]

/-- A column of both rows, up to case, holds two different values. -/
def ColumnDiffers (lower : String → String) (src tgt : Row O) (col : String) : Prop :=
  ∃ s ∈ src, ∃ t ∈ tgt, lower s.1 = col ∧ lower t.1 = col ∧ unequal s.2 t.2 = true

/-- Exactly the columns that differ are returned, whichever row comes first. -/
def Exact (lower : String → String) (py : FloatOf O) (src tgt : Row O) : Prop :=
  ∃ diffs, compareRows lower py src tgt = .ok diffs ∧ compareRows lower py tgt src = .ok diffs ∧
    ∀ col, col ∈ diffs ↔ ColumnDiffers lower src tgt col

/-- The value under the lower-cased name of a column. -/
def cell (lower : String → String) (row : Row O) (col : String) : Option (Value O) :=
  ((lowerKeys lower row).lookup col).join

/-- Two different values that `float` does not raise on and does not map to one number. -/
structure Told (py : FloatOf O) (sv tv : Option (Value O)) : Prop where
  unequal : unequal sv tv = true
  source : toFloat py sv ≠ .overflowError
  target : toFloat py tv ≠ .overflowError
  floats : ∀ a b, toFloat py sv = .value a → toFloat py tv = .value b → a.equal b = false

section Column

variable {py : FloatOf O} {sv tv : Option (Value O)}

theorem Value.equal_comm (a b : Value O) : a.equal b = b.equal a := by
  cases a with
  | int n =>
      cases b with
      | int m => exact Double.equal_comm (.finite n) (.finite m)
      | decimal d => exact Double.equal_comm _ _
      | float d => exact Double.equal_comm _ _
      | text s => rfl
      | other o => rfl
  | decimal d =>
      cases b with
      | int m => exact Double.equal_comm _ _
      | decimal d => exact Double.equal_comm _ _
      | float d => exact Double.equal_comm _ _
      | text s => rfl
      | other o => rfl
  | float d =>
      cases b with
      | int m => exact Double.equal_comm _ _
      | decimal d => exact Double.equal_comm _ _
      | float d => exact Double.equal_comm _ _
      | text s => rfl
      | other o => rfl
  | text s =>
      cases b with
      | int m => rfl
      | decimal d => rfl
      | float d => rfl
      | text t => exact Bool.beq_comm
      | other o => rfl
  | other o =>
      cases b with
      | int m => rfl
      | decimal d => rfl
      | float d => rfl
      | text s => rfl
      | other p => exact decide_eq_decide.mpr eq_comm

theorem unequal_comm (sv tv : Option (Value O)) : unequal sv tv = unequal tv sv := by
  cases sv with
  | none =>
      cases tv with
      | none => rfl
      | some b => rfl
  | some a =>
      cases tv with
      | none => rfl
      | some b => exact congrArg not (a.equal_comm b)

theorem Told.symm (h : Told py sv tv) : Told py tv sv where
  unequal := unequal_comm sv tv ▸ h.unequal
  source := h.target
  target := h.source
  floats a b ha hb := (a.equal_comm b).trans (h.floats b a hb ha)

theorem compareColumn_of_equal (h : unequal sv tv = false) :
    compareColumn py sv tv = .ok false := by
  rw [compareColumn, h]
  split
  · rfl
  · rfl

theorem compareColumn_of_unequal (h : unequal sv tv = true) :
    compareColumn py sv tv =
      match toFloat py sv with
      | .overflowError => .error .overflowError
      | .typeOrValueError => .ok true
      | .value a =>
          match toFloat py tv with
          | .overflowError => .error .overflowError
          | .typeOrValueError => .ok true
          | .value b => .ok (!a.equal b) := by
  rw [compareColumn, h, if_pos rfl, if_neg]
  rintro hnone
  rw [Bool.and_eq_true, Option.isNone_iff_eq_none, Option.isNone_iff_eq_none] at hnone
  rw [hnone.1, hnone.2] at h
  cases h

theorem compareColumn_of_told (h : Told py sv tv) : compareColumn py sv tv = .ok true := by
  rw [compareColumn_of_unequal h.unequal]
  cases hs : toFloat py sv with
  | overflowError => exact absurd hs h.source
  | typeOrValueError => rfl
  | value a =>
      cases ht : toFloat py tv with
      | overflowError => exact absurd ht h.target
      | typeOrValueError => rfl
      | value b =>
          change Except.ok (!a.equal b) = _
          rw [h.floats a b hs ht]
          rfl

/-- A column that is returned whichever row comes first. -/
theorem told_of_compareColumn (h : compareColumn py sv tv = .ok true)
    (h' : compareColumn py tv sv = .ok true) : Told py sv tv := by
  have hne : unequal sv tv = true := by
    cases hunequal : unequal sv tv with
    | true => rfl
    | false =>
        rw [compareColumn_of_equal hunequal] at h
        cases h
  rw [compareColumn_of_unequal hne] at h
  rw [compareColumn_of_unequal (unequal_comm sv tv ▸ hne)] at h'
  refine ⟨hne, fun hs => ?_, fun ht => ?_, fun a b hs ht => ?_⟩
  · rw [hs] at h
    cases h
  · rw [ht] at h'
    cases h'
  · rw [hs, ht] at h
    exact (Bool.not_eq_true' _).mp (Except.ok.inj h)

end Column

section Rows

variable {lower : String → String} {py : FloatOf O} {src tgt : Row O} {col : String}

omit [DecidableEq O] in
theorem mem_keys_lowerKeys {row : Row O} :
    col ∈ (lowerKeys lower row).map Prod.fst ↔ ∃ e ∈ row, lower e.1 = col := by
  rw [lowerKeys, mem_keys_fromPairs, List.map_map, List.mem_map]
  rfl

omit [DecidableEq O] in
/-- The value under a lower-cased name is the value of some column of that name. -/
theorem exists_cell {row : Row O} (h : col ∈ (lowerKeys lower row).map Prod.fst) :
    ∃ e ∈ row, lower e.1 = col ∧ e.2 = cell lower row col := by
  obtain ⟨v, hlookup, hmem⟩ := exists_lookup h
  obtain ⟨e, he, heq⟩ := List.mem_map.mp (mem_of_mem_fromPairs hmem)
  obtain ⟨rfl, rfl⟩ := Prod.mk.inj heq
  refine ⟨e, he, rfl, ?_⟩
  rw [cell, hlookup]
  rfl

omit [DecidableEq O] in
theorem mem_sortedCommon {a b : Row O} :
    col ∈ sortedCommon a b ↔ col ∈ a.map Prod.fst ∧ col ∈ b.map Prod.fst := by
  rw [sortedCommon, List.mem_mergeSort, List.mem_filter, List.contains_iff_mem]

omit [DecidableEq O] in
theorem sortedCommon_comm (a b : Row O) (ha : (a.map Prod.fst).Nodup)
    (hb : (b.map Prod.fst).Nodup) : sortedCommon a b = sortedCommon b a := by
  have htrans (s t u : String) (hst : columnLe s t = true) (htu : columnLe t u = true) :
      columnLe s u = true := lexLe_trans hst htu
  have htotal (s t : String) : (columnLe s t || columnLe t s) = true :=
    Bool.or_eq_true_iff.mpr (lexLe_total _ _)
  have hperm : (sortedCommon a b).Perm (sortedCommon b a) := by
    refine (List.perm_ext_iff_of_nodup ?_ ?_).mpr fun col => ?_
    · exact (List.mergeSort_perm _ _).nodup_iff.mpr (ha.filter _)
    · exact (List.mergeSort_perm _ _).nodup_iff.mpr (hb.filter _)
    · rw [mem_sortedCommon, mem_sortedCommon, and_comm]
  refine List.Perm.eq_of_pairwise (fun s t _ _ hst hts => ?_)
    (List.pairwise_mergeSort htrans htotal _) (List.pairwise_mergeSort htrans htotal _) hperm
  exact String.toList_inj.mp (lexLe_antisymm hst hts)

theorem compareColumns_of {differs : String → Except CompareError Bool} {found : String → Bool}
    {cols : List String} (h : ∀ col ∈ cols, differs col = .ok (found col)) :
    compareColumns differs cols = .ok (cols.filter found) := by
  induction cols with
  | nil => rfl
  | cons col cols ih =>
      rw [List.forall_mem_cons] at h
      rw [compareColumns, h.1, ih h.2, List.filter_cons]
      rfl

theorem of_mem_compareColumns {differs : String → Except CompareError Bool}
    {cols diffs : List String} (h : compareColumns differs cols = .ok diffs) (hcol : col ∈ diffs) :
    col ∈ cols ∧ differs col = .ok true := by
  induction cols generalizing diffs with
  | nil =>
      cases h
      cases hcol
  | cons c cols ih =>
      rw [compareColumns] at h
      obtain ⟨found, hfound, h⟩ := exists_of_bind_eq_ok h
      obtain ⟨rest, hrest, h⟩ := exists_of_bind_eq_ok h
      obtain rfl := Except.ok.inj h
      cases found with
      | false =>
          have hmem := ih hrest hcol
          exact ⟨List.mem_cons_of_mem c hmem.1, hmem.2⟩
      | true =>
          rcases List.mem_cons.mp hcol with rfl | hold
          · exact ⟨List.mem_cons_self, hfound⟩
          · have hmem := ih hrest hold
            exact ⟨List.mem_cons_of_mem c hmem.1, hmem.2⟩

theorem columnDiffers_of_cells
    (h : col ∈ sortedCommon (lowerKeys lower src) (lowerKeys lower tgt))
    (hne : unequal (cell lower src col) (cell lower tgt col) = true) :
    ColumnDiffers lower src tgt col := by
  obtain ⟨hsrc, htgt⟩ := mem_sortedCommon.mp h
  obtain ⟨s, hs, hscol, hsv⟩ := exists_cell hsrc
  obtain ⟨t, ht, htcol, htv⟩ := exists_cell htgt
  exact ⟨s, hs, t, ht, hscol, htcol, by rwa [hsv, htv]⟩

theorem mem_sortedCommon_of_differs (h : ColumnDiffers lower src tgt col) :
    col ∈ sortedCommon (lowerKeys lower src) (lowerKeys lower tgt) := by
  obtain ⟨s, hs, t, ht, hscol, htcol, -⟩ := h
  exact mem_sortedCommon.mpr
    ⟨mem_keys_lowerKeys.mpr ⟨s, hs, hscol⟩, mem_keys_lowerKeys.mpr ⟨t, ht, htcol⟩⟩

theorem compareRows_eq (lower : String → String) (py : FloatOf O) (src tgt : Row O) :
    compareRows lower py src tgt =
      compareColumns (fun col => compareColumn py (cell lower src col) (cell lower tgt col))
        (sortedCommon (lowerKeys lower src) (lowerKeys lower tgt)) := rfl

omit [DecidableEq O] in
/-- The same columns in the same order, whichever row comes first. -/
theorem sortedCommon_lowerKeys_comm (lower : String → String) (src tgt : Row O) :
    sortedCommon (lowerKeys lower tgt) (lowerKeys lower src) =
      sortedCommon (lowerKeys lower src) (lowerKeys lower tgt) :=
  sortedCommon_comm _ _ (nodup_keys_fromPairs _) (nodup_keys_fromPairs _)

theorem told_of_exact (h : Exact lower py src tgt) (hdiffers : ColumnDiffers lower src tgt col) :
    Told py (cell lower src col) (cell lower tgt col) := by
  obtain ⟨diffs, hforth, hback, hdiffs⟩ := h
  have hcol := (hdiffs col).mpr hdiffers
  rw [compareRows_eq] at hforth hback
  exact told_of_compareColumn (of_mem_compareColumns hforth hcol).2
    (of_mem_compareColumns hback hcol).2

/-- The comparison is exact when `float` keeps apart every two values that differ. -/
theorem exact_iff (lower : String → String) (py : FloatOf O) (src tgt : Row O) :
    Exact lower py src tgt ↔
      ∀ col, ColumnDiffers lower src tgt col →
        Told py (cell lower src col) (cell lower tgt col) := by
  constructor
  · exact fun h col => told_of_exact h
  · intro htold
    have hcell : ∀ col ∈ sortedCommon (lowerKeys lower src) (lowerKeys lower tgt),
        unequal (cell lower src col) (cell lower tgt col) = true →
          Told py (cell lower src col) (cell lower tgt col) :=
      fun col hcol hne => htold col (columnDiffers_of_cells hcol hne)
    rw [Exact, compareRows_eq, compareRows_eq, sortedCommon_lowerKeys_comm lower src tgt]
    refine ⟨(sortedCommon (lowerKeys lower src) (lowerKeys lower tgt)).filter fun col =>
        unequal (cell lower src col) (cell lower tgt col),
      compareColumns_of fun col hcol => ?_, compareColumns_of fun col hcol => ?_, fun col => ?_⟩
    · cases hne : unequal (cell lower src col) (cell lower tgt col) with
      | false => exact compareColumn_of_equal hne
      | true => exact compareColumn_of_told (hcell col hcol hne)
    · cases hne : unequal (cell lower src col) (cell lower tgt col) with
      | false => exact compareColumn_of_equal ((unequal_comm _ _).trans hne)
      | true => exact compareColumn_of_told (hcell col hcol hne).symm
    · rw [List.mem_filter]
      constructor
      · rintro ⟨hcol, hne⟩
        exact columnDiffers_of_cells hcol hne
      · exact fun hdiffers => ⟨mem_sortedCommon_of_differs hdiffers, (htold col hdiffers).unequal⟩

end Rows

section Examples

omit [DecidableEq O] in
theorem toFloat_int {py : FloatOf O} {n : Int} {q : ℚ} (h : nearestDouble n = .finite q) :
    toFloat py (some (.int n)) = .value (.finite q) := by
  change (match nearestDouble n with
    | .finite q => FloatResult.value (.finite q)
    | _ => .overflowError) = _
  rw [h]

def plainFloat : FloatOf Empty where
  text _ := none
  other o := o.elim

/-- Two integers that are next to each other are one number for `float`. -/
theorem largeIntegers_notExact :
    ¬ Exact id plainFloat [("id", some (.int 9007199254740992))]
      [("id", some (.int 9007199254740993))] := by
  intro h
  have hdiffers : ColumnDiffers id [("id", some (.int 9007199254740992))]
      [("id", some (@Value.int Empty 9007199254740993))] "id" :=
    ⟨_, List.mem_cons_self, _, List.mem_cons_self, rfl, rfl, rfl⟩
  have hlow : nearestDouble ((9007199254740992 : Int) : ℚ) = .finite 9007199254740992 := by
    decide +kernel
  have hhigh : nearestDouble ((9007199254740993 : Int) : ℚ) = .finite 9007199254740992 := by
    decide +kernel
  have hfloats := (told_of_exact h hdiffers).floats (.finite 9007199254740992)
    (.finite 9007199254740992)
    (toFloat_int hlow) (toFloat_int hhigh)
  exact absurd hfloats (by decide)

end Examples

end SqlOptima.RowComparison
