import Mathlib.Data.List.Nodup
import SqlOptima.LobChunkReader

namespace SqlOptima.LobExtract

open CellValues
open LobChunkReader
open Utf16Pieces (pieces)

/-!
# Rows with streamed columns

The large columns of a row are left out of its query, read one by one, and put between the others.
-/

section Rows

inductive SourceValue
  | plain (v : DriverValue)
  | large (v : LobValue)
  deriving DecidableEq

def SourceValue.driverValue : SourceValue → DriverValue
  | .plain v => v
  | .large v => v.driverValue

def SourceValue.lob : SourceValue → Option LobValue
  | .plain _ => none
  | .large v => some v

def isLOB (lt : LogicalType) : Bool := lt = .largeUtf8 || lt = .largeBinary

/-- The values of the columns of a type: text and xml are large texts. -/
def HoldsType : LogicalType → SourceValue → Prop
  | .largeUtf8, .large (.text _) => True
  | .largeUtf8, .large (.xml _) => True
  | .largeBinary, .large (.binary _) => True
  | lt, .plain _ => isLOB lt = false
  | _, .large _ => False

structure SourceRow (columns : ExtractionSchema) where
  value : String → SourceValue
  typed : ∀ c ∈ columns, HoldsType c.logicalType (value c.name)

/-- A table, whose columns have different names; `lookup` is the first row that the server finds for
a key, or the error of comparing it with the key column. -/
structure SourceTable where
  columns : ExtractionSchema
  distinct : (columns.map (·.name)).Nodup
  named : ∀ c ∈ columns, c.name ≠ ""
  lookup : DriverValue → Except String (Option (SourceRow columns))

/-- The cell of a column that is selected in one piece. -/
def SourceRow.cell {columns : ExtractionSchema} (rt : Runtime) (row : SourceRow columns)
    (c : ExtractionColumn) : CellValue :=
  convertCell rt (row.value c.name).driverValue c.logicalType

end Rows

section Split

structure ExtractOptions where
  inlineTextLOBs : Bool
  inlineBinaryLOBs : Bool
  deriving DecidableEq

def streamed (opts : ExtractOptions) (c : ExtractionColumn) : Bool :=
  if !isLOB c.logicalType then false
  else if opts.inlineTextLOBs && c.logicalType = .largeUtf8 then false
  else if opts.inlineBinaryLOBs && c.logicalType = .largeBinary then false
  else true

def lobIndexes (opts : ExtractOptions) (schema : ExtractionSchema) : List Nat :=
  (schema.zipIdx.filter fun ci => streamed opts ci.1).map Prod.snd

/-- The names in the schema are those in `seen`. -/
def addCol (queryCols : ExtractionSchema) (c : ExtractionColumn) : ExtractionSchema :=
  if c.name ∈ queryCols.map (·.name) then queryCols else queryCols ++ [c]

def splitSchemaForLOBStreaming (schema : ExtractionSchema) (pkColumn : String)
    (opts : ExtractOptions) : ExtractionSchema × List Nat :=
  let indexes := lobIndexes opts schema
  if indexes = [] then (schema, [])
  else
    let kept := (schema.zipIdx.filter fun ci => ci.2 ∉ indexes).map Prod.fst
    let queryCols := kept.foldl addCol []
    if pkColumn = "" then (queryCols, indexes)
    else
      match schema.find? (·.name = pkColumn) with
      | some c => (addCol queryCols c, indexes)
      | none => (queryCols, indexes)

end Split

section Merge

def lobCellFromData (data : DriverValue) (lt : LogicalType) : CellValue :=
  match lt, data with
  | _, .nil => .null
  | .largeBinary, .bytes b => .bin b
  | .largeUtf8, .string v => .str v
  | .largeUtf8, .bytes v => .str (v.getD [])
  | _, .bytes b => .bin b
  | _, .string s => .str s
  | _, _ => .null

/-- The columns from the one with index `i` on; `cells` are those of the query that are left. -/
def enrichFrom (readLOB : String → Option (Except String DriverValue)) (lobIndexes : List Nat) :
    Nat → ExtractionSchema → List CellValue → Option (Except String (List CellValue))
  | _, [], _ => some (.ok [])
  | i, col :: cols, cells =>
      if i ∈ lobIndexes then
        match readLOB col.name with
        | none => none
        | some (.error message) => some (.error message)
        | some (.ok data) =>
            (enrichFrom readLOB lobIndexes (i + 1) cols cells).map
              (·.map (lobCellFromData data col.logicalType :: ·))
      else
        match cells with
        | [] => some (.error "partial row too short for schema merge")
        | cell :: cells =>
            (enrichFrom readLOB lobIndexes (i + 1) cols cells).map (·.map (cell :: ·))

def enrichRowWithLOBs (readLOB : String → Option (Except String DriverValue))
    (schema : ExtractionSchema) (lobIndexes : List Nat) (cells : List CellValue) :
    Option (Except String (List CellValue)) :=
  enrichFrom readLOB lobIndexes 0 schema cells

variable (rt : Runtime)

/-- The key as an argument of the query; of the cells without a case of their own it is the `%v`
text. -/
def cellToDriverValue : CellValue → DriverValue
  | .null => .nil
  | .i16 v => .int64 (Int64.ofInt v.toInt)
  | .i32 v => .int64 (Int64.ofInt v.toInt)
  | .i64 v => .int64 v
  | .str v => .string v
  | .uuid v => .bytes (some v.bytes)
  | .bool v => .string (inBraces (formatBool v))
  | .f32 v => .string (inBraces (rt.formatG32 v))
  | .f64 v => .string (inBraces (rt.formatG64 v))
  | .bin v => .string (inBraces (formatBytes (v.getD [])))
  | .date v => .string (inBraces (formatInt v.toInt))
  | .timestampMicros v => .string (inBraces (formatInt v.toInt))
  | .timeMicros v => .string (inBraces (formatInt v.toInt))

/-- `quote` is `%q`. -/
def pkValueFromRow (quote : String → String) (querySchema : ExtractionSchema) (cells : List CellValue) (pkColumn : String) :
    Except String DriverValue :=
  match (querySchema.zip cells).find? (·.1.name = pkColumn) with
  | some (_, cell) => .ok (cellToDriverValue rt cell)
  | none => .error ("pk column " ++ quote pkColumn ++ " not found in extract row")

variable (quote : String → String) (typeName : DriverValue → String) (tableName : String)
  (chunkSizeBytes : Int) (fuel : Nat)

/-- What the query for one column of the row under a key finds. -/
def SourceTable.found (table : SourceTable) (key : DriverValue) (col : String) : Found :=
  (table.lookup key).map fun row => row.bind fun row => (row.value col).lob

/-- A handle with room for one connection has none left while the cursor of the rows is open: the
query waits for it and the reader does not return. -/
def SourceTable.readLOB (table : SourceTable) (maxOpenConns : Nat) (key : DriverValue)
    (col : String) : Option (Except String DriverValue) :=
  if maxOpenConns = 1 then none
  else LobChunkReader.readLOB typeName tableName chunkSizeBytes fuel (table.found key col)

/-- A row as `RunWithOptions` sends it on: the query without the streamed columns, then their
values. -/
def extractRow (maxOpenConns : Nat) (opts : ExtractOptions) (pkColumn : String)
    (table : SourceTable) (row : SourceRow table.columns) :
    Option (Except String (List CellValue)) :=
  let split := splitSchemaForLOBStreaming table.columns pkColumn opts
  let cells := scanRow rt (split.1.map fun c => (row.value c.name).driverValue) split.1
  if split.2 = [] then some (.ok cells)
  else
    match pkValueFromRow rt quote split.1 cells pkColumn with
    | .error message => some (.error message)
    | .ok key =>
        enrichRowWithLOBs
          (table.readLOB typeName tableName chunkSizeBytes fuel maxOpenConns key) table.columns
          split.2 cells

end Merge

section Splitting

variable {opts : ExtractOptions} {schema : ExtractionSchema}

theorem mem_lobIndexes_iff {i : Nat} {c : ExtractionColumn} (h : schema[i]? = some c) :
    i ∈ lobIndexes opts schema ↔ streamed opts c = true := by
  rw [lobIndexes, List.mem_map]
  constructor
  · rintro ⟨⟨c', i'⟩, hmem, rfl⟩
    obtain ⟨hmem, hstream⟩ := List.mem_filter.mp hmem
    have hc := List.mem_zipIdx_iff_getElem?.mp hmem
    obtain rfl := Option.some.inj (h.symm.trans hc)
    exact hstream
  · intro hstream
    exact ⟨(c, i), List.mem_filter.mpr ⟨List.mem_zipIdx_iff_getElem?.mpr h, hstream⟩, rfl⟩

theorem lobIndexes_eq_nil_iff :
    lobIndexes opts schema = [] ↔ ∀ c ∈ schema, streamed opts c = false := by
  rw [List.eq_nil_iff_forall_not_mem]
  constructor
  · intro h c hc
    obtain ⟨i, hi⟩ := List.mem_iff_getElem?.mp hc
    rw [← Bool.not_eq_true, ← mem_lobIndexes_iff hi]
    exact h i
  · intro h i hi
    obtain ⟨⟨c, i'⟩, hmem, rfl⟩ := List.mem_map.mp hi
    obtain ⟨hmem, hstream⟩ := List.mem_filter.mp hmem
    have hc := List.mem_of_getElem? (List.mem_zipIdx_iff_getElem?.mp hmem)
    rw [h c hc] at hstream
    cases hstream

theorem exists_addCol_eq (queryCols : ExtractionSchema) (c : ExtractionColumn) :
    ∃ extra, addCol queryCols c = queryCols ++ extra := by
  rw [addCol]
  split
  · exact ⟨[], (List.append_nil _).symm⟩
  · exact ⟨[c], rfl⟩

theorem mem_addCol {queryCols : ExtractionSchema} {c d : ExtractionColumn}
    (h : d ∈ addCol queryCols c) : d ∈ queryCols ∨ d = c := by
  rw [addCol] at h
  split at h
  · exact Or.inl h
  · exact (List.mem_append.mp h).imp_right List.mem_singleton.mp

theorem foldl_addCol {cols : ExtractionSchema} {front : ExtractionSchema}
    (h : ((front ++ cols).map (·.name)).Nodup) : cols.foldl addCol front = front ++ cols := by
  induction cols generalizing front with
  | nil => exact (List.append_nil front).symm
  | cons c cols ih =>
      have hnew : c.name ∉ front.map (·.name) := by
        rw [List.map_append, List.map_cons, List.nodup_append] at h
        exact fun hmem => h.2.2 _ hmem _ List.mem_cons_self rfl
      rw [List.foldl_cons, addCol, if_neg hnew, ih, List.append_assoc, List.singleton_append]
      rwa [List.append_assoc, List.singleton_append]

theorem kept_eq : (schema.zipIdx.filter fun ci => ci.2 ∉ lobIndexes opts schema).map Prod.fst =
    schema.filter fun c => !streamed opts c := by
  have hfilter : (schema.zipIdx.filter fun ci => ci.2 ∉ lobIndexes opts schema) =
      schema.zipIdx.filter ((fun c => !streamed opts c) ∘ Prod.fst) := by
    refine List.filter_congr fun ci hci => ?_
    rw [decide_not, Function.comp_apply]
    refine congrArg not (Bool.eq_iff_iff.mpr ?_)
    rw [decide_eq_true_iff]
    exact mem_lobIndexes_iff (List.mem_zipIdx_iff_getElem?.mp hci)
  rw [hfilter, ← List.filter_map, List.zipIdx_map_fst]

theorem eq_of_name_eq (h : (schema.map (·.name)).Nodup) {c d : ExtractionColumn}
    (hc : c ∈ schema) (hd : d ∈ schema) (hname : c.name = d.name) : c = d :=
  List.inj_on_of_nodup_map h hc hd hname

theorem name_of_find? {part : ExtractionSchema} {name : String} {k : ExtractionColumn}
    (h : part.find? (·.name = name) = some k) : k.name = name := by
  have hk := List.find?_some h
  exact of_decide_eq_true hk

/-- A column is found by its name in any part of the schema that has it. -/
theorem find?_name_eq (h : (schema.map (·.name)).Nodup) {part : ExtractionSchema} {name : String}
    (hsub : ∀ c ∈ part, c ∈ schema) (hhas : ∀ c ∈ schema, c.name = name → c ∈ part) :
    part.find? (·.name = name) = schema.find? (·.name = name) := by
  cases hfind : schema.find? (·.name = name) with
  | none =>
      rw [List.find?_eq_none] at hfind ⊢
      exact fun c hc => hfind c (hsub c hc)
  | some k =>
      have hname := name_of_find? hfind
      have hk := List.mem_of_find?_eq_some hfind
      cases hpart : part.find? (·.name = name) with
      | none =>
          exact absurd (decide_eq_true hname) (List.find?_eq_none.mp hpart k (hhas k hk hname))
      | some c =>
          have hc := hsub c (List.mem_of_find?_eq_some hpart)
          rw [eq_of_name_eq h hc hk ((name_of_find? hpart).trans hname.symm)]

theorem mem_addCol_self (h : (schema.map (·.name)).Nodup) {queryCols : ExtractionSchema}
    (hsub : ∀ c ∈ queryCols, c ∈ schema) {c : ExtractionColumn} (hc : c ∈ schema) :
    c ∈ addCol queryCols c := by
  rw [addCol]
  split
  · next hname =>
      obtain ⟨d, hd, hdc⟩ := List.mem_map.mp hname
      rwa [← eq_of_name_eq h (hsub d hd) hc hdc]
  · exact List.mem_append_right _ List.mem_cons_self

/-- The query has the columns that are not streamed, in their order, and the key column. -/
theorem splitSchema_eq (h : (schema.map (·.name)).Nodup) (hnamed : ∀ c ∈ schema, c.name ≠ "")
    (pkColumn : String) :
    (splitSchemaForLOBStreaming schema pkColumn opts).2 = lobIndexes opts schema ∧
      (∃ extra, (splitSchemaForLOBStreaming schema pkColumn opts).1 =
        (schema.filter fun c => !streamed opts c) ++ extra) ∧
      (splitSchemaForLOBStreaming schema pkColumn opts).1.find? (·.name = pkColumn) =
        schema.find? (·.name = pkColumn) := by
  rw [splitSchemaForLOBStreaming]
  split
  · rename_i hnil
    refine ⟨hnil.symm, ⟨[], ?_⟩, rfl⟩
    rw [List.append_nil, List.filter_eq_self.mpr]
    intro c hc
    rw [lobIndexes_eq_nil_iff.mp hnil c hc]
    rfl
  · have hnodup : (([] ++ schema.filter fun c => !streamed opts c).map
        fun c : ExtractionColumn => c.name).Nodup := h.sublist (List.filter_sublist.map _)
    have hkept : ∀ c ∈ schema.filter fun c => !streamed opts c, c ∈ schema :=
      fun c => List.mem_of_mem_filter
    rw [kept_eq]
    dsimp only
    rw [foldl_addCol hnodup, List.nil_append]
    split
    · rename_i hempty
      refine ⟨rfl, ⟨[], (List.append_nil _).symm⟩, find?_name_eq h hkept ?_⟩
      exact fun c hc hname => absurd (hname.trans hempty) (hnamed c hc)
    · split
      · rename_i k hk
        have hmem := List.mem_of_find?_eq_some hk
        have hname := name_of_find? hk
        refine ⟨rfl, exists_addCol_eq _ _, find?_name_eq h ?_ ?_⟩
        · intro c hc
          rcases mem_addCol hc with hc | rfl
          · exact hkept c hc
          · exact hmem
        · intro c hc hcname
          rw [eq_of_name_eq h hc hmem (hcname.trans hname.symm)]
          exact mem_addCol_self h hkept hmem
      · rename_i hnone
        refine ⟨rfl, ⟨[], (List.append_nil _).symm⟩, find?_name_eq h hkept ?_⟩
        exact fun c hc hname => absurd (decide_eq_true hname) (List.find?_eq_none.mp hnone c hc)

end Splitting

section Merging

variable {opts : ExtractOptions}

theorem map_cons_eq_iff {r : Option (Except String (List CellValue))} {a b : CellValue}
    {cells : List CellValue} :
    r.map (·.map (a :: ·)) = some (.ok (b :: cells)) ↔ a = b ∧ r = some (.ok cells) := by
  cases r with
  | none =>
      exact iff_of_false (Option.some_ne_none _).symm fun h => Option.some_ne_none _ h.2.symm
  | some r =>
      cases r with
      | error message => simp [Except.map]
      | ok l => simp [Except.map]

/-- The merge gives each column its own cell if and only if every streamed one is read as it. -/
theorem enrichFrom_eq_iff {readLOB : String → Option (Except String DriverValue)}
    {indexes : List Nat} {cell : ExtractionColumn → CellValue} (extra : List CellValue)
    {cols : ExtractionSchema} {i : Nat}
    (hindex : ∀ j c, cols[j]? = some c → (i + j ∈ indexes ↔ streamed opts c = true)) :
    enrichFrom readLOB indexes i cols
        ((cols.filter fun c => !streamed opts c).map cell ++ extra) =
      some (.ok (cols.map cell)) ↔
    ∀ c ∈ cols, streamed opts c = true →
      ∃ data, readLOB c.name = some (.ok data) ∧
        lobCellFromData data c.logicalType = cell c := by
  induction cols generalizing i with
  | nil => exact iff_of_true rfl fun c hc => absurd hc List.not_mem_nil
  | cons c cols ih =>
      have hc : i ∈ indexes ↔ streamed opts c = true := hindex 0 c rfl
      have ih := @ih (i + 1) fun j c hj => by
        rw [Nat.add_right_comm]
        exact hindex (j + 1) c hj
      unfold enrichFrom
      rw [List.forall_mem_cons, ← ih, List.map_cons]
      cases hstream : streamed opts c with
      | true =>
          have hfilter : ((c :: cols).filter fun c => !streamed opts c) =
              cols.filter fun c => !streamed opts c := by
            rw [List.filter_cons, hstream]
            rfl
          rw [if_pos (hc.mpr hstream), hfilter]
          cases hread : readLOB c.name with
          | none => simp
          | some result =>
              cases result with
              | error message => simp
              | ok data =>
                  rw [map_cons_eq_iff]
                  simp
      | false =>
          have hfilter : ((c :: cols).filter fun c => !streamed opts c) =
              c :: cols.filter fun c => !streamed opts c := by
            rw [List.filter_cons, hstream]
            rfl
          have hnot : i ∉ indexes := by
            rw [hc, hstream]
            exact Bool.false_ne_true
          rw [if_neg hnot, hfilter, List.map_cons, List.cons_append]
          refine map_cons_eq_iff.trans ?_
          rw [and_iff_right rfl, and_iff_right fun h => absurd h Bool.false_ne_true]

end Merging

section Values

variable {rt : Runtime} {tableName : String} {size : Nat}

theorem lobCellFromData_driverValue {lt : LogicalType} {v : LobValue}
    (h : HoldsType lt (.large v)) :
    lobCellFromData v.driverValue lt = convertCell rt v.driverValue lt := by
  cases lt <;> first | exact absurd h id | skip
  · cases v with
    | text chars => cases chars <;> rfl
    | binary bytes => exact absurd h id
    | xml document => cases document <;> rfl
  · cases v with
    | text chars => exact absurd h id
    | binary bytes => cases bytes <;> rfl
    | xml document => exact absurd h id

/-- What the driver may hand out for a large column of the type. -/
def Readable : LogicalType → DriverValue → Prop
  | .largeUtf8, .nil => True
  | .largeUtf8, .string _ => True
  | .largeBinary, .nil => True
  | .largeBinary, .bytes _ => True
  | _, _ => False

theorem readable_driverValue {lt : LogicalType} {v : LobValue} (h : HoldsType lt (.large v)) :
    Readable lt v.driverValue := by
  cases lt <;> first | exact absurd h id | skip
  · cases v with
    | text chars => cases chars <;> trivial
    | binary bytes => exact absurd h id
    | xml document => cases document <;> trivial
  · cases v with
    | text chars => exact absurd h id
    | binary bytes => cases bytes <;> trivial
    | xml document => exact absurd h id

theorem readable_of_reassembled {lt : LogicalType} {found : Found} {data : DriverValue}
    (hlob : lt = .largeUtf8 ∨ lt = .largeBinary)
    (h : ∀ v, found = .ok (some v) → HoldsType lt (.large v))
    (hread : found.reassembled tableName size = .ok data) : Readable lt data := by
  cases found with
  | error message => cases hread
  | ok v =>
      cases v with
      | none =>
          cases hread
          rcases hlob with rfl | rfl
          · trivial
          · trivial
      | some v =>
          have hv := h v rfl
          cases v with
          | text chars =>
              have hlt : lt = .largeUtf8 := by
                cases lt <;> first | rfl | exact absurd hv id
              subst hlt
              cases chars with
              | none =>
                  cases hread
                  trivial
              | some chars =>
                  obtain rfl := Except.ok.inj hread
                  split
                  · trivial
                  · trivial
          | binary bytes =>
              have hlt : lt = .largeBinary := by
                cases lt <;> first | rfl | exact absurd hv id
              subst hlt
              cases bytes with
              | none =>
                  cases hread
                  trivial
              | some bytes =>
                  obtain rfl := Except.ok.inj hread
                  split
                  · trivial
                  · trivial
          | xml document => cases hread

/-- A value that is lost becomes another cell. -/
theorem lobCellFromData_inj {lt : LogicalType} {a b : DriverValue} (ha : Readable lt a)
    (hb : Readable lt b) (h : lobCellFromData a lt = lobCellFromData b lt) : a = b := by
  cases lt <;> first | exact absurd ha id | skip
  · cases a <;> first | exact absurd ha id | skip
    all_goals
      cases b <;> first | exact absurd hb id | skip
    · rfl
    · cases h
    · cases h
    · exact congrArg DriverValue.string (CellValue.str.inj h)
  · cases a <;> first | exact absurd ha id | skip
    all_goals
      cases b <;> first | exact absurd hb id | skip
    · rfl
    · cases h
    · cases h
    · exact congrArg DriverValue.bytes (CellValue.bin.inj h)

/-- The row's value arrives: it is what the key finds, and intact; or what the key finds in its
place reads as it does. -/
def Arrives (tableName : String) (size : Nat) (found : Found) (v : LobValue) : Prop :=
  if found = .ok (some v) then Intact size v
  else found.reassembled tableName size = .ok v.driverValue

theorem arrives_iff (hsize : 0 < size) (found : Found) (v : LobValue) :
    Arrives tableName size found v ↔ found.reassembled tableName size = .ok v.driverValue := by
  rw [Arrives]
  split
  · rename_i hown
    rw [hown]
    exact (reassembled_eq_iff hsize v).symm
  · rfl

/-- A value is read as the cell that it is elsewhere if and only if it arrives. -/
theorem cell_reassembled_iff {lt : LogicalType} {v : LobValue} {found : Found} (hsize : 0 < size)
    (hlob : lt = .largeUtf8 ∨ lt = .largeBinary) (hv : HoldsType lt (.large v))
    (hfound : ∀ v, found = .ok (some v) → HoldsType lt (.large v)) :
    (∃ data, found.reassembled tableName size = .ok data ∧
        lobCellFromData data lt = convertCell rt v.driverValue lt) ↔
      Arrives tableName size found v := by
  rw [← lobCellFromData_driverValue hv, arrives_iff hsize]
  refine ⟨?_, fun hread => ⟨_, hread, rfl⟩⟩
  rintro ⟨data, hread, hcell⟩
  have hdata := readable_of_reassembled hlob hfound hread
  rw [hread, lobCellFromData_inj hdata (readable_driverValue hv) hcell]

end Values

section Rows

variable {rt : Runtime} {quote : String → String} {typeName : DriverValue → String}
  {tableName : String} {chunkSizeBytes : Int} {maxOpenConns : Nat} {opts : ExtractOptions}
  {table : SourceTable} {row : SourceRow table.columns}

theorem isLOB_of_streamed {c : ExtractionColumn} (h : streamed opts c = true) :
    c.logicalType = .largeUtf8 ∨ c.logicalType = .largeBinary := by
  have hlob : isLOB c.logicalType = true := by
    rw [streamed] at h
    cases hlob : isLOB c.logicalType with
    | false =>
        rw [hlob] at h
        cases h
    | true => rfl
  rw [isLOB, Bool.or_eq_true, decide_eq_true_eq, decide_eq_true_eq] at hlob
  exact hlob

theorem exists_large {c : ExtractionColumn} (hc : c ∈ table.columns)
    (h : streamed opts c = true) : ∃ v, row.value c.name = .large v := by
  have htyped := row.typed c hc
  cases hvalue : row.value c.name with
  | large v => exact ⟨v, rfl⟩
  | plain v =>
      rw [hvalue] at htyped
      rcases isLOB_of_streamed h with hlt | hlt
      · rw [hlt] at htyped
        cases htyped
      · rw [hlt] at htyped
        cases htyped

theorem holdsType_found {c : ExtractionColumn} (hc : c ∈ table.columns) {key : DriverValue}
    {v : LobValue} (h : table.found key c.name = .ok (some v)) :
    HoldsType c.logicalType (.large v) := by
  rw [SourceTable.found] at h
  cases hlookup : table.lookup key with
  | error message =>
      rw [hlookup] at h
      cases h
  | ok found =>
      rw [hlookup] at h
      obtain ⟨other, -, hlob⟩ := Option.bind_eq_some_iff.mp (Except.ok.inj h)
      have htyped := other.typed c hc
      cases hvalue : other.value c.name with
      | plain w =>
          rw [hvalue] at hlob
          cases hlob
      | large w =>
          rw [hvalue] at hlob htyped
          cases hlob
          exact htyped

/-- Some number of rounds suffices for all columns. -/
theorem exists_rounds (table : SourceTable) (key : DriverValue) (cols : ExtractionSchema) :
    ∃ bound, ∀ c ∈ cols, (table.found key c.name).rounds ≤ bound := by
  induction cols with
  | nil => exact ⟨0, fun c hc => absurd hc List.not_mem_nil⟩
  | cons c cols ih =>
      obtain ⟨bound, hbound⟩ := ih
      refine ⟨max (table.found key c.name).rounds bound, List.forall_mem_cons.mpr ⟨?_, ?_⟩⟩
      · exact Nat.le_max_left _ _
      · exact fun c hc => (hbound c hc).trans (Nat.le_max_right _ _)

theorem scanRow_eq (cols : ExtractionSchema) :
    scanRow rt (cols.map fun c => (row.value c.name).driverValue) cols =
      cols.map (row.cell rt) := by
  rw [scanRow, List.zipWith_map_left, List.zipWith_self]
  rfl

/-- The key is the cell of the first column of its name. -/
theorem pkValueFromRow_eq (cell : ExtractionColumn → CellValue) (cols : ExtractionSchema)
    (pkColumn : String) :
    pkValueFromRow rt quote cols (cols.map cell) pkColumn =
      ((cols.find? (·.name = pkColumn)).map fun k => cellToDriverValue rt (cell k)).elim
        (.error ("pk column " ++ quote pkColumn ++ " not found in extract row")) .ok := by
  have hzip : (cols.zip (cols.map cell)).find? (·.1.name = pkColumn) =
      (cols.find? (·.name = pkColumn)).map fun k => (k, cell k) := by
    rw [← List.map_prod_left_eq_zip, List.find?_map]
    rfl
  rw [pkValueFromRow, hzip]
  cases cols.find? (·.name = pkColumn) with
  | none => rfl
  | some k => rfl

/-- The key column is one of the table, and what its value finds makes every streamed value of the
row arrive. -/
def FoundByKey (rt : Runtime) (tableName : String) (size : Nat) (opts : ExtractOptions)
    (pkColumn : String) (table : SourceTable) (row : SourceRow table.columns) : Prop :=
  ∃ k ∈ table.columns, k.name = pkColumn ∧
    ∀ c ∈ table.columns, streamed opts c = true → ∀ v, row.value c.name = .large v →
      Arrives tableName size (table.found (cellToDriverValue rt (row.cell rt k)) c.name) v

theorem foundByKey_iff {size : Nat} {pkColumn : String} {k : ExtractionColumn}
    (hk : k ∈ table.columns) (hname : k.name = pkColumn) :
    FoundByKey rt tableName size opts pkColumn table row ↔
      ∀ c ∈ table.columns, streamed opts c = true → ∀ v, row.value c.name = .large v →
        Arrives tableName size (table.found (cellToDriverValue rt (row.cell rt k)) c.name) v := by
  constructor
  · rintro ⟨k', hk', hname', h⟩
    rwa [eq_of_name_eq table.distinct hk' hk (hname'.trans hname.symm)] at h
  · exact fun h => ⟨k, hk, hname, h⟩

/-- The streamed columns are read as the row's cells if and only if there is a connection for it and
their values arrive. -/
theorem streamed_read_iff {fuel : Nat} {key : DriverValue}
    (hstreams : ¬ ∀ c ∈ table.columns, streamed opts c = false)
    (hfuel : ∀ c ∈ table.columns, (table.found key c.name).rounds ≤ fuel) :
    (∀ c ∈ table.columns, streamed opts c = true →
        ∃ data, table.readLOB typeName tableName chunkSizeBytes fuel maxOpenConns key c.name =
            some (.ok data) ∧
          lobCellFromData data c.logicalType = row.cell rt c) ↔
      maxOpenConns ≠ 1 ∧ ∀ c ∈ table.columns, streamed opts c = true →
        ∀ v, row.value c.name = .large v →
          Arrives tableName (chunkSize chunkSizeBytes) (table.found key c.name) v := by
  by_cases hone : maxOpenConns = 1
  · refine iff_of_false (fun h => hstreams fun c hc => ?_) fun h => h.1 hone
    rw [← Bool.not_eq_true]
    intro hstream
    obtain ⟨data, hread, -⟩ := h c hc hstream
    rw [SourceTable.readLOB, if_pos hone] at hread
    cases hread
  · rw [and_iff_right hone]
    refine forall₂_congr fun c hc => forall_congr' fun hstream => ?_
    obtain ⟨v, hv⟩ := exists_large hc hstream
    have htyped := row.typed c hc
    have hlob := isLOB_of_streamed hstream
    rw [hv] at htyped
    rw [SourceTable.readLOB, if_neg hone, readLOB_eq (hfuel c hc), SourceRow.cell, hv]
    simp only [Option.some.injEq]
    refine (cell_reassembled_iff (chunkSize_pos chunkSizeBytes) hlob htyped
      fun v => holdsType_found hc).trans ?_
    refine ⟨fun h v' hv' => ?_, fun h => h v rfl⟩
    cases hv'
    exact h

theorem exists_key_rounds (cols : ExtractionSchema) :
    ∃ bound, ∀ k ∈ cols, ∀ c ∈ table.columns,
      (table.found (cellToDriverValue rt (row.cell rt k)) c.name).rounds ≤ bound := by
  induction cols with
  | nil => exact ⟨0, fun k hk => absurd hk List.not_mem_nil⟩
  | cons k cols ih =>
      obtain ⟨bound, hbound⟩ := ih
      obtain ⟨first, hfirst⟩ :=
        exists_rounds table (cellToDriverValue rt (row.cell rt k)) table.columns
      refine ⟨max first bound, List.forall_mem_cons.mpr ⟨?_, ?_⟩⟩
      · exact fun c hc => (hfirst c hc).trans (Nat.le_max_left _ _)
      · exact fun k hk c hc => (hbound k hk c hc).trans (Nat.le_max_right _ _)

/-- With enough rounds a row is as it is in the source if and only if nothing of it is streamed, or
its streamed values are found by its key, on a handle with a second connection. -/
theorem extractRow_eq_iff (pkColumn : String) {fuel : Nat}
    (hfuel : ∀ k ∈ table.columns, ∀ c ∈ table.columns,
      (table.found (cellToDriverValue rt (row.cell rt k)) c.name).rounds ≤ fuel) :
    extractRow rt quote typeName tableName chunkSizeBytes fuel maxOpenConns opts pkColumn table
        row = some (.ok (table.columns.map (row.cell rt))) ↔
      (∀ c ∈ table.columns, streamed opts c = false) ∨
        maxOpenConns ≠ 1 ∧
          FoundByKey rt tableName (chunkSize chunkSizeBytes) opts pkColumn table row := by
  rw [extractRow]
  by_cases hnil : lobIndexes opts table.columns = []
  · have hsplit : splitSchemaForLOBStreaming table.columns pkColumn opts = (table.columns, []) :=
      if_pos hnil
    rw [hsplit, scanRow_eq, if_pos rfl]
    exact iff_of_true rfl (Or.inl (lobIndexes_eq_nil_iff.mp hnil))
  · obtain ⟨hindexes, ⟨extra, hquery⟩, hkey⟩ :=
      @splitSchema_eq opts _ table.distinct table.named pkColumn
    have hstreams : ¬ ∀ c ∈ table.columns, streamed opts c = false :=
      fun hall => hnil (lobIndexes_eq_nil_iff.mpr hall)
    rw [or_iff_right hstreams, hindexes, if_neg hnil, scanRow_eq, pkValueFromRow_eq, hkey]
    cases hfind : table.columns.find? (·.name = pkColumn) with
    | none =>
        refine iff_of_false (fun h => by cases h) ?_
        rintro ⟨-, k, hk, hname, -⟩
        exact List.find?_eq_none.mp hfind k hk (decide_eq_true hname)
    | some k =>
        have hk := List.mem_of_find?_eq_some hfind
        have hname := name_of_find? hfind
        rw [hquery, List.map_append]
        refine (enrichFrom_eq_iff (extra.map (row.cell rt)) ?_).trans ?_
        · intro j c hj
          rw [Nat.zero_add]
          exact mem_lobIndexes_iff hj
        · rw [foundByKey_iff hk hname]
          exact streamed_read_iff hstreams (hfuel k hk)

/-- A row arrives as it is if and only if nothing of it is streamed; or the handle has room for a
second connection, and the row's key finds its streamed values, none of them an empty text, an empty
byte string or xml, and no chunk of a text ends within a surrogate pair. -/
theorem extractRow_reproduces_iff (rt : Runtime) (quote : String → String)
    (typeName : DriverValue → String) (tableName : String) (chunkSizeBytes : Int)
    (maxOpenConns : Nat) (opts : ExtractOptions) (pkColumn : String) (table : SourceTable)
    (row : SourceRow table.columns) :
    (∃ bound, ∀ fuel, bound ≤ fuel →
        extractRow rt quote typeName tableName chunkSizeBytes fuel maxOpenConns opts pkColumn table
          row = some (.ok (table.columns.map (row.cell rt)))) ↔
      (∀ c ∈ table.columns, streamed opts c = false) ∨
        maxOpenConns ≠ 1 ∧
          FoundByKey rt tableName (chunkSize chunkSizeBytes) opts pkColumn table row := by
  obtain ⟨rounds, hrounds⟩ := @exists_key_rounds rt table row table.columns
  constructor
  · rintro ⟨bound, h⟩
    have hfuel := h (max rounds bound) (Nat.le_max_right _ _)
    exact (extractRow_eq_iff pkColumn fun k hk c hc =>
      (hrounds k hk c hc).trans (Nat.le_max_left _ _)).mp hfuel
  · intro h
    exact ⟨rounds, fun fuel hfuel => (extractRow_eq_iff pkColumn fun k hk c hc =>
      (hrounds k hk c hc).trans hfuel).mpr h⟩

/-- `RunWithOptions` allows one connection, which its own cursor holds: a row of it arrives if and
only if nothing of it is streamed. -/
theorem runWithOptions_reproduces_iff (rt : Runtime) (quote : String → String)
    (typeName : DriverValue → String) (tableName : String) (chunkSizeBytes : Int)
    (opts : ExtractOptions) (pkColumn : String) (table : SourceTable)
    (row : SourceRow table.columns) :
    (∃ bound, ∀ fuel, bound ≤ fuel →
        extractRow rt quote typeName tableName chunkSizeBytes fuel 1 opts pkColumn table row =
          some (.ok (table.columns.map (row.cell rt)))) ↔
      ∀ c ∈ table.columns, streamed opts c = false := by
  rw [extractRow_reproduces_iff]
  exact or_iff_left fun h => h.1 rfl

def plainRuntime : Runtime where
  formatG32 _ := []
  formatG64 _ := []
  toFloat32 _ := 0
  timeString _ := []
  sha256 _ _ := 0
  parseUUID _ := none
  encodeNumericBinaryString _ := none

def noteColumns : ExtractionSchema := [⟨"id", .int64⟩, ⟨"note", .largeUtf8⟩]

def noteValue (name : String) : SourceValue :=
  if name = "note" then .large (.text (some [])) else .plain (.int64 7)

theorem noteValue_typed : ∀ c ∈ noteColumns, HoldsType c.logicalType (noteValue c.name) := by
  refine List.forall_mem_cons.mpr ⟨rfl, List.forall_mem_cons.mpr ⟨trivial, ?_⟩⟩
  exact fun c hc => absurd hc List.not_mem_nil

/-- A row with an empty note. -/
def emptyNote : SourceRow noteColumns := ⟨noteValue, noteValue_typed⟩

/-- The table of that row, which is found by its key. -/
def notes : SourceTable where
  columns := noteColumns
  distinct := by decide
  named := by decide
  lookup key := .ok (if key = .int64 7 then some emptyNote else none)

/-- An empty text arrives as NULL, with as many connections as it takes. -/
theorem empty_text_becomes_null :
    ¬ ∃ bound, ∀ fuel, bound ≤ fuel →
      extractRow plainRuntime id (fun _ => "") "dbo.Notes" 4 fuel 0 ⟨false, false⟩ "id" notes
          emptyNote =
        some (.ok (notes.columns.map (emptyNote.cell plainRuntime))) := by
  rintro ⟨bound, h⟩
  have hnull : extractRow plainRuntime id (fun _ => "") "dbo.Notes" 4 (bound + 1) 0 ⟨false, false⟩
      "id" notes emptyNote = some (.ok [.i64 7, .null]) := rfl
  have hsource : notes.columns.map (emptyNote.cell plainRuntime) = [.i64 7, .str []] := rfl
  have heq := (h (bound + 1) (Nat.le_succ bound)).symm.trans hnull
  rw [hsource] at heq
  cases heq

end Rows

end SqlOptima.LobExtract
