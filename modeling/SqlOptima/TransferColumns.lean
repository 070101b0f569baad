import Mathlib.Data.List.Find
import SqlOptima.TransferDispatch

namespace SqlOptima.TransferColumns

open InsertionDict (fromPairs lookup_fromPairs mem_fromPairs)
open TransferPreflight TransferDispatch
open ConstraintPlan (TransferConstraintPlan)

/-- A table of the job: what the request says of it, and the two inventories. -/
structure TableCase where
  request : TableRequest
  source : TableInventory
  target : TableInventory
  deriving DecidableEq

section Columns

variable (py : PythonText) (path : TransferPath) (createIfMissing : Bool)
  (tablesInJob : List String)

/-- The last of the columns that have a name, up to case. -/
def lastNamed (columns : List ColumnInventory) (key : String) : Option ColumnInventory :=
  columns.reverse.find? fun c => py.lower c.name = key

/-- The comparison keeps one column for each name up to case, the last; it matches the target's if
both have one type or the path keeps types. -/
def carries (x : TableCase) (name : String) : Bool :=
  name != "" &&
    (lastNamed py x.source.columns (py.lower name)).any fun kept =>
      kept.name = name && !kept.isComputed &&
        (isHomogeneous path ||
          (lastNamed py x.target.columns (py.lower name)).all fun tgt =>
            normalizeType py kept.typeName = normalizeType py tgt.typeName)

/-- The table whose report the configuration reads for a request: the first on the same source
that carries a column. -/
def readFor (cases : List TableCase) (request : TableRequest) : Option TableCase :=
  cases.find? fun y =>
    tableKey py y.source.schema y.source.table =
        tableKey py request.sourceSchema request.sourceTable ∧
      ∃ c ∈ y.source.columns, carries py path y c.name = true

def report (x : TableCase) : TableReport :=
  compareTable py path x.source x.target createIfMissing tablesInJob

end Columns

section Matched

variable {py : PythonText} {path : TransferPath} {createIfMissing : Bool}
  {tablesInJob : List String} {x : TableCase} {name key : String} {col : ColumnInventory}

theorem lookup_byName (columns : List ColumnInventory) (key : String) :
    (byName py columns).lookup key = lastNamed py columns key := by
  rw [byName, lookup_fromPairs, ← List.map_reverse, lastNamed]
  induction columns.reverse with
  | nil => rfl
  | cons c columns ih =>
      rw [List.map_cons, List.lookup_cons, List.find?_cons, ih]
      by_cases h : py.lower c.name = key
      · simp [h]
      · simp [h, beq_eq_false_iff_ne.mpr (Ne.symm h)]

theorem mem_byName {columns : List ColumnInventory} :
    (key, col) ∈ byName py columns ↔ lastNamed py columns key = some col := by
  rw [← lookup_byName, byName, mem_fromPairs, lookup_fromPairs]

theorem lower_name_of_lastNamed {columns : List ColumnInventory}
    (h : lastNamed py columns key = some col) : col ∈ columns ∧ py.lower col.name = key :=
  ⟨List.mem_reverse.mp (List.mem_of_find?_eq_some h), by simpa using List.find?_some h⟩

/-- The comparison lists a column as matched. -/
def Matches (py : PythonText) (cloneMissing : Bool) (tgtBy : List (String × ColumnInventory))
    (key : String) (col : ColumnInventory) : Prop :=
  col.isComputed = false ∧
    match tgtBy.lookup key with
    | none => cloneMissing = true
    | some tgt => normalizeType py col.typeName = normalizeType py tgt.typeName

theorem mem_matched_compareColumn {homogeneous cloneMissing : Bool}
    {tgtBy : List (String × ColumnInventory)} :
    (∃ m ∈ (compareColumn py homogeneous cloneMissing tgtBy key col).matched, m.name = name) ↔
      Matches py cloneMissing tgtBy key col ∧ col.name = name := by
  unfold compareColumn Matches
  cases hcomputed : col.isComputed with
  | true => simp
  | false =>
      cases tgtBy.lookup key with
      | none => cases cloneMissing <;> simp
      | some tgt =>
          by_cases htype : normalizeType py col.typeName = normalizeType py tgt.typeName
          · simp [htype]
          · simp [htype]

/-- A column that is neither computed nor matched blocks, but for its type on a path that changes
types. -/
theorem matches_of_no_blocker {homogeneous cloneMissing : Bool}
    {tgtBy : List (String × ColumnInventory)} (hcomputed : col.isComputed = false)
    (hmissing : ∀ m ∈ (compareColumn py homogeneous cloneMissing tgtBy key col).missingOnTarget,
      m.severity ≠ .blocker)
    (htypes : ∀ m ∈ (compareColumn py homogeneous cloneMissing tgtBy key col).typeMismatches,
      m.severity ≠ .blocker) :
    Matches py cloneMissing tgtBy key col ↔
      homogeneous = true ∨ ∀ tgt, tgtBy.lookup key = some tgt →
        normalizeType py col.typeName = normalizeType py tgt.typeName := by
  unfold compareColumn at hmissing htypes
  unfold Matches
  cases hlookup : tgtBy.lookup key with
  | none =>
      cases cloneMissing with
      | true => simp [hcomputed]
      | false => simp [hcomputed, hlookup] at hmissing
  | some tgt =>
      by_cases htype : normalizeType py col.typeName = normalizeType py tgt.typeName
      · simp [hcomputed, htype]
      · cases homogeneous with
        | true => simp [hcomputed, hlookup, htype] at htypes
        | false => simp [hcomputed, htype]

end Matched

section Report

variable {py : PythonText} {path : TransferPath} {createIfMissing : Bool}
  {tablesInJob : List String} {x : TableCase} {name : String}

theorem mem_matchedNames :
    name ∈ matchedNames (report py path createIfMissing tablesInJob x) ↔
      name ≠ "" ∧ ∃ kept, lastNamed py x.source.columns (py.lower name) = some kept ∧
        kept.name = name ∧
        Matches py (createIfMissing && !x.target.existing) (byName py x.target.columns)
          (py.lower name) kept := by
  rw [matchedNames, List.mem_filter, bne_iff_ne, and_comm, List.mem_map]
  refine and_congr_right fun _ => ?_
  simp only [report, compareTable, compareColumns, List.mem_flatMap, List.mem_map]
  constructor
  · rintro ⟨m, ⟨_, ⟨⟨key, kept⟩, hkept, rfl⟩, hm⟩, hname⟩
    obtain ⟨hmatches, hkeptName⟩ := mem_matched_compareColumn.mp ⟨m, hm, hname⟩
    rw [mem_byName] at hkept
    obtain ⟨-, hkey⟩ := lower_name_of_lastNamed hkept
    subst hkeptName hkey
    exact ⟨kept, hkept, rfl, hmatches⟩
  · rintro ⟨kept, hkept, hname, hmatches⟩
    obtain ⟨m, hm, hmName⟩ := mem_matched_compareColumn.mpr ⟨hmatches, hname⟩
    exact ⟨m, ⟨_, ⟨(py.lower name, kept), mem_byName.mpr hkept, rfl⟩, hm⟩, hmName⟩

theorem no_blockers
    (h : (report py path createIfMissing tablesInJob x).hasBlocker = false) {key : String}
    {col : ColumnInventory} (hcol : lastNamed py x.source.columns key = some col) :
    let compared := compareColumn py (isHomogeneous path)
      (createIfMissing && !x.target.existing) (byName py x.target.columns) key col
    (∀ m ∈ compared.missingOnTarget, m.severity ≠ .blocker) ∧
      ∀ m ∈ compared.typeMismatches, m.severity ≠ .blocker := by
  simp only [report, compareTable, compareColumns, Bool.or_eq_false_iff, List.any_eq_false,
    decide_eq_true_eq, List.mem_flatMap, List.mem_map] at h
  obtain ⟨⟨-, htypes⟩, hmissing⟩ := h
  have hmem : (key, col) ∈ byName py x.source.columns := mem_byName.mpr hcol
  exact ⟨fun m hm => hmissing m ⟨_, ⟨_, hmem, rfl⟩, hm⟩,
    fun m hm => htypes m ⟨_, ⟨_, hmem, rfl⟩, hm⟩⟩

/-- Without a blocker, the matched columns are those that the table carries. -/
theorem mem_matchedNames_iff_carries
    (h : (report py path createIfMissing tablesInJob x).hasBlocker = false) :
    name ∈ matchedNames (report py path createIfMissing tablesInJob x) ↔
      carries py path x name = true := by
  rw [mem_matchedNames, carries, Bool.and_eq_true, bne_iff_ne]
  refine and_congr_right fun _ => ?_
  rw [Option.any_eq_true]
  refine exists_congr fun kept => and_congr_right fun hkept => ?_
  rw [Bool.and_eq_true, Bool.and_eq_true, Bool.or_eq_true, decide_eq_true_eq, Bool.not_eq_true',
    and_assoc]
  refine and_congr_right fun _ => ?_
  constructor
  · intro hmatches
    obtain ⟨hmissing, htypes⟩ := no_blockers h hkept
    refine ⟨hmatches.1, ?_⟩
    rcases (matches_of_no_blocker hmatches.1 hmissing htypes).mp hmatches with hpath | htype
    · exact Or.inl hpath
    · refine Or.inr (Option.all_eq_true _ _ |>.mpr fun tgt htgt => ?_)
      rw [decide_eq_true_eq]
      exact htype tgt (by rwa [lookup_byName])
  · rintro ⟨hcomputed, hpath⟩
    obtain ⟨hmissing, htypes⟩ := no_blockers h hkept
    refine (matches_of_no_blocker hcomputed hmissing htypes).mpr (hpath.imp_right fun htype => ?_)
    intro tgt htgt
    rw [lookup_byName] at htgt
    exact of_decide_eq_true ((Option.all_eq_true _ _).mp htype tgt htgt)

theorem matchedNames_ne_nil_iff
    (h : (report py path createIfMissing tablesInJob x).hasBlocker = false) :
    matchedNames (report py path createIfMissing tablesInJob x) ≠ [] ↔
      ∃ c ∈ x.source.columns, carries py path x c.name = true := by
  constructor
  · intro hne
    obtain ⟨name, hname⟩ := List.exists_mem_of_ne_nil _ hne
    obtain ⟨-, kept, hkept, rfl, -⟩ := mem_matchedNames.mp hname
    exact ⟨kept, (lower_name_of_lastNamed hkept).1, (mem_matchedNames_iff_carries h).mp hname⟩
  · rintro ⟨c, -, hc⟩
    exact List.ne_nil_of_mem ((mem_matchedNames_iff_carries h).mpr hc)

end Report

section Job

variable {py : PythonText} {path : TransferPath} {createIfMissing : Bool}
  {tablesInJob : List String} {cases : List TableCase} {thresholdChunkSize : Option Int}
  {constraintPlan : TransferConstraintPlan} {cfg : TransferDispatchConfig}

/-- The report that the configuration reads is the one of the first table on the same source that
carries a column. -/
theorem columnsFromPreflight_reports
    (hblock : ∀ y ∈ cases, (report py path createIfMissing tablesInJob y).hasBlocker = false)
    (request : TableRequest) :
    columnsFromPreflight py (cases.map (report py path createIfMissing tablesInJob))
        request.sourceSchema request.sourceTable =
      ((readFor py path cases request).map fun y =>
        matchedNames (report py path createIfMissing tablesInJob y)).getD [] := by
  rw [columnsFromPreflight, List.find?_map, Option.map_map]
  have hfind : cases.find? ((fun r : TableReport =>
      decide (tableKey py r.source.1 r.source.2 =
        tableKey py request.sourceSchema request.sourceTable ∧ matchedNames r ≠ [])) ∘
        report py path createIfMissing tablesInJob) = readFor py path cases request := by
    refine List.find?_congr fun y hy => ?_
    rw [Function.comp_apply, decide_eq_decide]
    exact and_congr_right fun _ => matchedNames_ne_nil_iff (hblock y hy)
  rw [hfind]
  rfl

/-- The configuration lists every column of a table exactly when the report that it reads is of a
table that carries them all. -/
theorem columns_complete_iff
    (hblock : ∀ y ∈ cases, (report py path createIfMissing tablesInJob y).hasBlocker = false)
    (hbuild : buildTransferDispatchConfig py path (cases.map TableCase.request) thresholdChunkSize
      constraintPlan (cases.map (report py path createIfMissing tablesInJob)) = .ok cfg)
    {x : TableCase} {payload : TransferTablePayload} (hx : (x, payload) ∈ cases.zip cfg.tables)
    (hlisted : requestedColumns x.request = []) :
    (∀ c ∈ x.source.columns, c.isComputed = false → c.name ∈ payload.columns) ↔
      ∃ y, readFor py path cases x.request = some y ∧
        ∀ c ∈ x.source.columns, c.isComputed = false → carries py path y c.name = true := by
  obtain ⟨htables, hcolumns⟩ := tables_of_build hbuild
  rw [List.map_map] at htables
  have hpayload := hx
  rw [htables, ← List.map_prod_left_eq_zip] at hpayload
  obtain ⟨y, -, heq⟩ := List.mem_map.mp hpayload
  obtain ⟨rfl, rfl⟩ := Prod.mk.inj heq
  have hread : (tablePayload py (intOr thresholdChunkSize 10000)
      (cases.map (report py path createIfMissing tablesInJob)) y.request).columns =
      ((readFor py path cases y.request).map fun z =>
        matchedNames (report py path createIfMissing tablesInJob z)).getD [] := by
    rw [← columnsFromPreflight_reports hblock, tablePayload, if_pos hlisted]
  have hne := (hcolumns _ (List.of_mem_zip hx).2).1
  simp only [Function.comp_apply] at hne ⊢
  rw [hread] at hne ⊢
  cases hz : readFor py path cases y.request with
  | none =>
      rw [hz] at hne
      exact absurd rfl hne
  | some z =>
      have hmem : z ∈ cases := List.mem_of_find?_eq_some hz
      simp only [Option.map_some, Option.getD_some, Option.some.injEq, exists_eq_left']
      refine forall_congr' fun c => forall_congr' fun _ => forall_congr' fun _ => ?_
      exact mem_matchedNames_iff_carries (hblock z hmem)

end Job

section Samples

/-- Case conversion and stripping as far as the names below need them. -/
def asciiText : PythonText where
  lower s := String.ofList (s.toList.map Char.toLower)
  strip s := s

def ordersCase (amountType : String) : TableCase where
  request := { sourceSchema := "dbo", sourceTable := "Orders", targetSchema := "public",
               targetTable := "orders" }
  source := { schema := "dbo", table := "Orders", existing := true,
              columns := [{ name := "Id", typeName := "int", nullable := false },
                { name := "Amount", typeName := amountType, nullable := true }] }
  target := { schema := "public", table := "orders", existing := true,
              columns := [{ name := "id", typeName := "integer", nullable := false },
                { name := "amount", typeName := "numeric(19,4)", nullable := true }] }

def reviewedPlan : TransferConstraintPlan := ⟨true, "restore_now", []⟩

def ordersConfig (columns : List String) : TransferDispatchConfig where
  path := .mssqlToPg
  tables := [⟨"dbo", "Orders", "public", "orders", columns, 10000, some "Id", 0⟩]
  constraintPlan := reviewedPlan

def ordersReport (amountType : String) : TableReport :=
  report asciiText .mssqlToPg false ["public.orders"] (ordersCase amountType)

def buildOrders (amountType : String) : Except String TransferDispatchConfig :=
  buildTransferDispatchConfig asciiText .mssqlToPg [(ordersCase amountType).request] none
    reviewedPlan [ordersReport amountType]

theorem decimal_amount_carried :
    (ordersCase "decimal").source.columns.all
      (fun c => c.isComputed || decide (c.name ∈ ["Id", "Amount"])) = true := by
  have hblock : ∀ y ∈ [ordersCase "decimal"],
      (report asciiText .mssqlToPg false ["public.orders"] y).hasBlocker = false := by
    decide +kernel
  have hbuild : buildOrders "decimal" = .ok (ordersConfig ["Id", "Amount"]) := by
    decide +kernel
  have hread : readFor asciiText .mssqlToPg [ordersCase "decimal"] (ordersCase "decimal").request =
      some (ordersCase "decimal") := by
    decide +kernel
  have hcarried := (columns_complete_iff hblock hbuild List.mem_cons_self rfl).mpr
    ⟨_, hread, by decide +kernel⟩
  refine List.all_eq_true.mpr fun c hc => ?_
  cases hcomputed : c.isComputed with
  | true => rfl
  | false => exact decide_eq_true (hcarried c hc hcomputed)

/-- SQL Server's money against numeric is a warning, and the column is not copied. -/
theorem money_amount_left_behind :
    (ordersReport "money").hasBlocker = false ∧
      buildOrders "money" = .ok (ordersConfig ["Id"]) ∧
      ¬ ∀ c ∈ (ordersCase "money").source.columns, c.isComputed = false → c.name ∈ ["Id"] := by
  decide +kernel

end Samples

end SqlOptima.TransferColumns
