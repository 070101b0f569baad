import SqlOptima.ColumnMasking
import SqlOptima.InsertionDict

namespace SqlOptima.MaskingDiscovery

open CellValues (Runtime CellValue)
open ColumnTransforms ColumnMasking InsertionDict

/-!
# Masking by discovered sensitivity
-/

inductive SensitivityClass where
  | pii | phi | pci | credential | none
  deriving DecidableEq

def SensitivityClass.value : SensitivityClass → String
  | .pii => "pii"
  | .phi => "phi"
  | .pci => "pci"
  | .credential => "credential"
  | .none => "none"

/-- A column of the source; the name of its type may be missing. -/
structure DiscoveredColumn where
  columnName : String
  typeName : Option String

structure TableMaskingProfile where
  tableName : String
  columnSensitivity : StringMap
  columnTypes : StringMap
  sensitiveCount : Nat

def dict (pairs : List (String × String)) : StringMap :=
  ⟨fromPairs pairs, nodup_keys_fromPairs pairs⟩

def sensitiveColumns (classify : String → SensitivityClass) (names : List String) :
    List (String × SensitivityClass) :=
  (names.map fun name => (name, classify name)).filter fun c => c.2 ≠ .none

/-- The body of the loop of `discover_table_masking`. `classify` stands for the name patterns,
`lower` for the lower case of Python. -/
def tableProfile (classify : String → SensitivityClass) (lower : String → String) (table : String)
    (columns : List DiscoveredColumn) : TableMaskingProfile :=
  let sensMap := dict ((sensitiveColumns classify (columns.map (·.columnName))).map
    fun c => (c.1, c.2.value))
  { tableName := table
    columnSensitivity := sensMap
    columnTypes := dict (columns.filterMap fun c =>
      match c.typeName with
      | some typeName => if typeName = "" then none else some (c.columnName, lower typeName)
      | none => none)
    sensitiveCount := sensMap.entries.length }

inductive MergeError where
  | valueError (message : String)

def emptyDict : StringMap := dict []

/-- `d or None` -/
def orNone (d : StringMap) : Option StringMap := if d.entries = [] then none else some d

/-- `{**discovered, **(column_sensitivity or {})}` -/
def mergedSensitivity (profile : TableMaskingProfile) (columnSensitivity : Option StringMap) :
    StringMap :=
  dict (profile.columnSensitivity.entries ++ (columnSensitivity.getD emptyDict).entries)

def mergeMaskingProfile (profile : TableMaskingProfile) (maskingPolicy : String)
    (columnTransforms columnSensitivity : Option StringMap) :
    Except MergeError (Option StringMap × Option StringMap) :=
  if maskingPolicy = "none" then .ok (columnTransforms, none)
  else
    let merged := mergedSensitivity profile columnSensitivity
    let transforms := columnTransforms.getD emptyDict
    let refused :=
      if maskingPolicy = "strict" ∧ profile.sensitiveCount > 0 then
        merged.entries.find? fun e => e.2 ≠ "none" ∧ transforms.get? e.1 = some "identity"
      else none
    match refused with
    | some (col, sens) =>
        .error (.valueError ("Strict masking: column '" ++ col ++ "' is " ++ sens ++
          " but transform is identity"))
    | none => .ok (orNone transforms, orNone merged)

/-! ## What strict masking promises -/

/-- The columns that are extracted, each under its own name. -/
structure ExtractedColumns where
  names : List String
  nodup : names.Nodup

/-- The payload has the merged maps, in the order in which Go goes through them. -/
structure Carries (payload : GoTableDispatchPayload)
    (merged : Option StringMap × Option StringMap) : Prop where
  transforms : payload.columnTransforms.entries.Perm (merged.1.getD emptyDict).entries
  sensitivity : payload.columnSensitivity.entries.Perm (merged.2.getD emptyDict).entries

/-- The discovery has put the column into a class. -/
def SensitiveColumn (profile : TableMaskingProfile) (col : String) : Prop :=
  (profile.columnSensitivity.get? col).isSome = true

/-- The transform does not leave every value as it is, whatever its name. -/
def Changes (rt : Runtime) (t : Transform) : Prop := ∃ c, t.apply rt c ≠ c

def IsMask (t : Transform) : Prop := t.isMask = true

variable (counts : Transform → Prop)
variable (profile : TableMaskingProfile) (columnTransforms columnSensitivity : Option StringMap)
variable (columns : ExtractedColumns) (types : StringMap)

/-- Unless the merge raises, every column that is classified as sensitive has a transform that
counts. -/
def StrictMasks : Prop :=
  ∀ merged, mergeMaskingProfile profile "strict" columnTransforms columnSensitivity = .ok merged →
    ∀ payload, payload.columns = columns.names → payload.columnTypes = types →
      Carries payload merged →
      ∀ (i : Nat) (col : String), columns.names[i]? = some col →
        SensitiveColumn profile col →
        ∃ t ∈ (buildColumnTransformPipeline payload).chain i, counts t

/-- The class that counts for a column: the caller's, else the discovered one. -/
def classOf (col : String) : Option String :=
  ((columnSensitivity.getD emptyDict).get? col).or (profile.columnSensitivity.get? col)

/-- The caller asks for the identity on a column that has a class. -/
def Refused : Prop :=
  ∃ col sens, classOf profile columnSensitivity col = some sens ∧ sens ≠ "none" ∧
    (columnTransforms.getD emptyDict).get? col = some "identity"

/-- The default of its type counts, or nothing the caller says takes the transform of the column
away. -/
def Covered (col : String) : Prop :=
  (∃ t ∈ (types.get? col).elim [] typeTransform, counts t) ∨
    ∃ sens, classOf profile columnSensitivity col = some sens ∧ sens ≠ "none" ∧ sens ≠ "" ∧
      ∃ t, lookupTransform (sensitivityTransform ((columnTransforms.getD emptyDict).get col) sens) =
        some t ∧ counts t

section Merge

variable {profile : TableMaskingProfile} {columnTransforms columnSensitivity : Option StringMap}

theorem get?_mergedSensitivity (col : String) :
    (mergedSensitivity profile columnSensitivity).get? col =
      classOf profile columnSensitivity col :=
  lookup_fromPairs_append profile.columnSensitivity.nodup (columnSensitivity.getD emptyDict).nodup
    col

theorem orNone_getD (d : StringMap) : ((orNone d).getD emptyDict).entries = d.entries := by
  rw [orNone]
  split
  · next hnil => exact hnil.symm
  · rfl

theorem refused_iff :
    Refused profile columnTransforms columnSensitivity ↔
      ∃ e ∈ (mergedSensitivity profile columnSensitivity).entries,
        e.2 ≠ "none" ∧ (columnTransforms.getD emptyDict).get? e.1 = some "identity" := by
  constructor
  · rintro ⟨col, sens, hclass, hsens, hidentity⟩
    rw [← get?_mergedSensitivity] at hclass
    exact ⟨(col, sens), (mem_iff_lookup (mergedSensitivity _ _).nodup).mpr hclass, hsens, hidentity⟩
  · rintro ⟨⟨col, sens⟩, hmem, hsens, hidentity⟩
    have hclass := (mem_iff_lookup (mergedSensitivity _ _).nodup).mp hmem
    rw [← StringMap.get?, get?_mergedSensitivity] at hclass
    exact ⟨col, sens, hclass, hsens, hidentity⟩

/-- Strict masking refuses the identity where there is something to mask, and else merges. -/
theorem mergeMaskingProfile_strict (hcount : 0 < profile.sensitiveCount) :
    (Refused profile columnTransforms columnSensitivity →
      ∃ e, mergeMaskingProfile profile "strict" columnTransforms columnSensitivity = .error e) ∧
    (¬ Refused profile columnTransforms columnSensitivity →
      mergeMaskingProfile profile "strict" columnTransforms columnSensitivity =
        .ok (orNone (columnTransforms.getD emptyDict),
          orNone (mergedSensitivity profile columnSensitivity))) := by
  have hstrict : mergeMaskingProfile profile "strict" columnTransforms columnSensitivity =
      match (mergedSensitivity profile columnSensitivity).entries.find? fun e =>
        e.2 ≠ "none" ∧ (columnTransforms.getD emptyDict).get? e.1 = some "identity" with
      | some (col, sens) =>
          .error (.valueError ("Strict masking: column '" ++ col ++ "' is " ++ sens ++
            " but transform is identity"))
      | none => .ok (orNone (columnTransforms.getD emptyDict),
          orNone (mergedSensitivity profile columnSensitivity)) := by
    rw [mergeMaskingProfile, if_neg (by decide)]
    dsimp only
    rw [if_pos ⟨rfl, hcount⟩]
  rw [hstrict, refused_iff]
  constructor
  · rintro ⟨e, he, hrefused⟩
    cases hfind : (mergedSensitivity profile columnSensitivity).entries.find? fun e =>
        e.2 ≠ "none" ∧ (columnTransforms.getD emptyDict).get? e.1 = some "identity" with
    | none => exact absurd (decide_eq_true hrefused) (List.find?_eq_none.mp hfind e he)
    | some entry => exact ⟨_, rfl⟩
  · intro hno
    rw [List.find?_eq_none.mpr]
    exact fun e he hrefused => hno ⟨e, he, of_decide_eq_true hrefused⟩

end Merge

section Chains

variable {profile : TableMaskingProfile} {columnTransforms columnSensitivity : Option StringMap}
variable {columns : ExtractedColumns} {payload : GoTableDispatchPayload}

theorem colIndex_of_getElem? {i : Nat} {col : String} (h : columns.names[i]? = some col) :
    colIndex columns.names col = some i := by
  refine colIndex_eq_some_iff.mpr ⟨h, fun j hj hcol => ?_⟩
  have hlt := (List.getElem?_eq_some_iff.mp h).1
  have hij := (List.getElem?_inj hlt columns.nodup).mp (h.trans hcol.symm)
  omega

/-- Two of the transforms that can be asked for change nothing. -/
theorem changes_iff {rt : Runtime} {t : Transform} :
    Changes rt t ↔ t ≠ .identity ∧ t ≠ .datetimeToUTC := by
  constructor
  · rintro ⟨c, hc⟩
    constructor
    · rintro rfl
      exact hc rfl
    · rintro rfl
      exact hc rfl
  · rintro ⟨hidentity, hdatetime⟩
    cases t with
    | identity => exact absurd rfl hidentity
    | datetimeToUTC => exact absurd rfl hdatetime
    | stripTrailingNulls => exact ⟨.str [0], fun h => absurd (CellValue.str.inj h) (by decide)⟩
    | bitToBool => exact ⟨.i16 0, nofun⟩
    | moneyToDecimal => exact ⟨.i16 0, nofun⟩
    | maskNullify => exact ⟨.i16 0, nofun⟩
    | maskRedact => exact ⟨.i16 0, nofun⟩
    | maskHash => exact ⟨.i16 0, nofun⟩
    | maskTokenize => exact ⟨.i16 0, nofun⟩
    | maskPartialEmail => exact ⟨.i16 0, nofun⟩
    | maskLastFour => exact ⟨.i16 0, nofun⟩
    | maskFPENumeric => exact ⟨.i16 0, nofun⟩

theorem changes_of_isMask {rt : Runtime} {t : Transform} (h : IsMask t) : Changes rt t := by
  refine changes_iff.mpr ⟨?_, ?_⟩
  · rintro rfl
    exact Bool.false_ne_true h
  · rintro rfl
    exact Bool.false_ne_true h

theorem exists_classTransform {explicit sens : String} :
    (∃ t ∈ classTransform explicit sens, counts t) ↔
      sens ≠ "none" ∧ sens ≠ "" ∧
        ∃ t, lookupTransform (sensitivityTransform explicit sens) = some t ∧ counts t := by
  rw [classTransform, ← and_assoc, ← not_or]
  split
  · next hnone =>
      refine iff_of_false ?_ fun h => h.1 hnone
      rintro ⟨t, ht, -⟩
      exact List.not_mem_nil ht
  · next hclass =>
      rw [and_iff_right hclass]
      simp only [Option.mem_toList]

/-- The chain of a column holds a transform that counts when nothing takes it away. -/
theorem chain_covered_iff (hcolumns : payload.columns = columns.names)
    (hcarries : Carries payload (orNone (columnTransforms.getD emptyDict),
      orNone (mergedSensitivity profile columnSensitivity))) {i : Nat} {col : String}
    (hcol : columns.names[i]? = some col)
    (hsensitive : SensitiveColumn profile col) :
    (∃ t ∈ (buildColumnTransformPipeline payload).chain i, counts t) ↔
      Covered counts profile columnTransforms columnSensitivity payload.columnTypes col := by
  have hidx : colIndex payload.columns col = some i := hcolumns ▸ colIndex_of_getElem? hcol
  have htransforms : payload.columnTransforms.get? col =
      (columnTransforms.getD emptyDict).get? col := by
    have hperm := hcarries.transforms
    rw [orNone_getD] at hperm
    exact lookup_eq_of_perm hperm payload.columnTransforms.nodup col
  have hsensitivity : payload.columnSensitivity.get? col =
      classOf profile columnSensitivity col := by
    have hperm := hcarries.sensitivity
    rw [orNone_getD] at hperm
    rw [← get?_mergedSensitivity]
    exact lookup_eq_of_perm hperm payload.columnSensitivity.nodup col
  obtain ⟨sens, hsens⟩ : ∃ sens, classOf profile columnSensitivity col = some sens := by
    rw [classOf]
    obtain ⟨discovered, hdiscovered⟩ := Option.isSome_iff_exists.mp hsensitive
    rw [hdiscovered]
    exact Option.isSome_iff_exists.mp (by rw [Option.isSome_or]; exact Bool.or_true _)
  have hlength : payload.columnSensitivity.entries.length > 0 := by
    refine List.length_pos_of_ne_nil fun hnil => ?_
    rw [StringMap.get?, hnil, hsens] at hsensitivity
    cases hsensitivity
  have hclass : classChain payload col =
      classTransform ((columnTransforms.getD emptyDict).get col) sens := by
    rw [classChain, hsensitivity, hsens, StringMap.get, htransforms]
    rfl
  rw [chain_buildColumnTransformPipeline, List.getD, getElem?_buildChains hidx, Option.getD_some,
    columnChain, if_pos hlength, hclass]
  simp only [List.mem_append, or_and_right, exists_or]
  rw [typeChain, exists_classTransform, Covered, hsens]
  simp only [Option.some.injEq, exists_eq_left']

end Chains

theorem sensitiveCount_pos {classify : String → SensitivityClass} {lower : String → String}
    {table : String} {discovered : List DiscoveredColumn} {col : String}
    (h : SensitiveColumn (tableProfile classify lower table discovered) col) :
    0 < (tableProfile classify lower table discovered).sensitiveCount := by
  have hcount : (tableProfile classify lower table discovered).sensitiveCount =
      (tableProfile classify lower table discovered).columnSensitivity.entries.length := rfl
  rw [hcount]
  refine List.length_pos_of_ne_nil fun hnil => ?_
  rw [SensitiveColumn, StringMap.get?, hnil] at h
  cases h

theorem exists_class {classify : String → SensitivityClass} {lower : String → String}
    {table : String} {discovered : List DiscoveredColumn} {col value : String}
    (h : (tableProfile classify lower table discovered).columnSensitivity.get? col = some value) :
    ∃ c : SensitivityClass, c ≠ .none ∧ c.value = value := by
  have hmem := mem_of_mem_fromPairs ((mem_iff_lookup (StringMap.nodup _)).mpr h)
  obtain ⟨⟨name, c⟩, hc, heq⟩ := List.mem_map.mp hmem
  exact ⟨c, of_decide_eq_true (List.mem_filter.mp hc).2, (Prod.mk.inj heq).2⟩

theorem exists_defaultMask {c : SensitivityClass} (h : c ≠ .none) :
    c.value ≠ "none" ∧ c.value ≠ "" ∧
      ∃ t, lookupTransform (sensitivityTransform "" c.value) = some t ∧ IsMask t := by
  cases c with
  | pii => exact ⟨by decide, by decide, .maskHash, rfl, rfl⟩
  | phi => exact ⟨by decide, by decide, .maskNullify, rfl, rfl⟩
  | pci => exact ⟨by decide, by decide, .maskFPENumeric, rfl, rfl⟩
  | credential => exact ⟨by decide, by decide, .maskNullify, rfl, rfl⟩
  | none => exact absurd rfl h

/-- What the caller says under another spelling takes nothing away. -/
theorem covered_of_otherSpelling {classify : String → SensitivityClass} {lower : String → String}
    {table : String} {discovered : List DiscoveredColumn}
    {columnTransforms columnSensitivity : Option StringMap} {types : StringMap} {col : String}
    (hmasks : ∀ t, IsMask t → counts t)
    (h : SensitiveColumn (tableProfile classify lower table discovered) col)
    (htransforms : (columnTransforms.getD emptyDict).get? col = none)
    (hsensitivity : (columnSensitivity.getD emptyDict).get? col = none) :
    Covered counts (tableProfile classify lower table discovered) columnTransforms columnSensitivity
      types col := by
  obtain ⟨value, hvalue⟩ := Option.isSome_iff_exists.mp h
  obtain ⟨c, hc, rfl⟩ := exists_class hvalue
  obtain ⟨hnone, hempty, t, ht, hmask⟩ := exists_defaultMask hc
  refine .inr ⟨c.value, ?_, hnone, hempty, t, ?_, hmasks t hmask⟩
  · rw [classOf, hsensitivity, hvalue]
    rfl
  · rw [StringMap.get, htransforms]
    exact ht

section Promise

variable (classify : String → SensitivityClass) (lower : String → String) (table : String)
variable (discovered : List DiscoveredColumn)

theorem strictMasks_iff_covered (columnTransforms columnSensitivity : Option StringMap)
    (columns : ExtractedColumns) (types : StringMap) :
    StrictMasks counts (tableProfile classify lower table discovered) columnTransforms
        columnSensitivity columns types ↔
      Refused (tableProfile classify lower table discovered) columnTransforms columnSensitivity ∨
        ∀ col ∈ columns.names,
          SensitiveColumn (tableProfile classify lower table discovered) col →
            Covered counts (tableProfile classify lower table discovered) columnTransforms
              columnSensitivity types col := by
  by_cases hrefused :
    Refused (tableProfile classify lower table discovered) columnTransforms columnSensitivity
  · refine iff_of_true ?_ (.inl hrefused)
    intro merged hmerged _ _ _ _ _ col _ hsensitive
    obtain ⟨e, he⟩ := (mergeMaskingProfile_strict (sensitiveCount_pos hsensitive)).1 hrefused
    rw [he] at hmerged
    cases hmerged
  · rw [or_iff_right hrefused]
    have hmerge {col : String}
        (hsensitive : SensitiveColumn (tableProfile classify lower table discovered) col) :=
      (mergeMaskingProfile_strict (sensitiveCount_pos hsensitive)).2 hrefused
    constructor
    · intro hmasks col hcol hsensitive
      obtain ⟨i, hi⟩ := List.getElem?_of_mem hcol
      have hcarries : Carries
          ⟨columns.names, columnTransforms.getD emptyDict,
            mergedSensitivity (tableProfile classify lower table discovered) columnSensitivity,
            types⟩
          (orNone (columnTransforms.getD emptyDict),
            orNone (mergedSensitivity (tableProfile classify lower table discovered)
              columnSensitivity)) :=
        ⟨.of_eq (orNone_getD _).symm, .of_eq (orNone_getD _).symm⟩
      exact (chain_covered_iff counts rfl hcarries hi hsensitive).mp
        (hmasks _ (hmerge hsensitive) _ rfl rfl hcarries i col hi hsensitive)
    · intro hcovered merged hmerged payload hcolumns htypes hcarries i col hi hsensitive
      rw [hmerge hsensitive] at hmerged
      obtain rfl := Except.ok.inj hmerged
      rw [chain_covered_iff counts hcolumns hcarries hi hsensitive, htypes]
      exact hcovered col (List.mem_of_getElem? hi) hsensitive

/-- Strict masking keeps its promise exactly when it refuses, or the caller's entries for a
sensitive column leave it covered; entries under another spelling always do. It is so whether any
transform counts that changes values, or only a mask. -/
theorem strictMasks_iff (rt : Runtime) (columnTransforms columnSensitivity : Option StringMap)
    (columns : ExtractedColumns) (types : StringMap) :
    (∀ counts, counts = Changes rt ∨ counts = IsMask →
      (StrictMasks counts (tableProfile classify lower table discovered) columnTransforms
          columnSensitivity columns types ↔
        Refused (tableProfile classify lower table discovered) columnTransforms columnSensitivity ∨
          ∀ col ∈ columns.names,
            SensitiveColumn (tableProfile classify lower table discovered) col →
              Covered counts (tableProfile classify lower table discovered) columnTransforms
                columnSensitivity types col)) ∧
      ∀ col, SensitiveColumn (tableProfile classify lower table discovered) col →
        (columnTransforms.getD emptyDict).get? col = none →
        (columnSensitivity.getD emptyDict).get? col = none →
          Covered (Changes rt) (tableProfile classify lower table discovered) columnTransforms
            columnSensitivity types col ∧
          Covered IsMask (tableProfile classify lower table discovered) columnTransforms
            columnSensitivity types col :=
  ⟨fun counts _ => strictMasks_iff_covered counts classify lower table discovered columnTransforms
    columnSensitivity columns types, fun _ hsensitive htransforms hsensitivity =>
    ⟨covered_of_otherSpelling (Changes rt) (fun _ => changes_of_isMask) hsensitive htransforms
      hsensitivity,
    covered_of_otherSpelling IsMask (fun _ => id) hsensitive htransforms hsensitivity⟩⟩

end Promise

section Examples

theorem patients_nodup : ["id", "ssn", "birth_date"].Nodup := by decide

def patientColumns : ExtractedColumns := ⟨["id", "ssn", "birth_date"], patients_nodup⟩

def patientClass : String → SensitivityClass
  | "ssn" => .pii
  | "birth_date" => .phi
  | _ => .none

def patients : TableMaskingProfile :=
  tableProfile patientClass id "Patients"
    [⟨"id", some "int"⟩, ⟨"ssn", some "varchar"⟩, ⟨"birth_date", some "datetime"⟩]

def patientPayload (transforms sensitivity : StringMap) : GoTableDispatchPayload where
  columns := ["id", "ssn", "birth_date"]
  columnTransforms := transforms
  columnSensitivity := sensitivity
  columnTypes := patients.columnTypes

theorem not_strictMasks_of_chain {rt : Runtime} {transforms sensitivity : Option StringMap}
    {merged : Option StringMap × Option StringMap}
    (hmerged : mergeMaskingProfile patients "strict" transforms sensitivity = .ok merged)
    {i : Nat} {col : String} (hcol : patientColumns.names[i]? = some col)
    (hsensitive : SensitiveColumn patients col)
    (hchain : ∀ t ∈ (buildColumnTransformPipeline (patientPayload (merged.1.getD emptyDict)
      (merged.2.getD emptyDict))).chain i, t = .datetimeToUTC) :
    ¬ StrictMasks (Changes rt) patients transforms sensitivity patientColumns
      patients.columnTypes := by
  intro h
  obtain ⟨t, ht, hchanges⟩ := h merged hmerged
    (patientPayload (merged.1.getD emptyDict) (merged.2.getD emptyDict)) rfl rfl
    ⟨.refl _, .refl _⟩ i col hcol hsensitive
  exact (changes_iff.mp hchanges).2 (hchain t ht)

/-- The caller takes the class of a discovered column back, or misspells the transform; the default
of a datetime column does not mask it. -/
theorem patients_leak :
    (∀ rt, ¬ StrictMasks (Changes rt) patients none (some (dict [("ssn", "none")]))
        patientColumns patients.columnTypes) ∧
      (∀ rt, ¬ StrictMasks (Changes rt) patients (some (dict [("ssn", "mask_hsah")])) none
        patientColumns patients.columnTypes) ∧
      ∀ rt, ¬ StrictMasks (Changes rt) patients none (some (dict [("birth_date", "none")]))
        patientColumns patients.columnTypes := by
  refine ⟨fun rt => @not_strictMasks_of_chain rt _ _
      (none, some (dict [("ssn", "none"), ("birth_date", "phi")])) rfl 1 "ssn" rfl rfl ?_,
    fun rt => @not_strictMasks_of_chain rt _ _ (some (dict [("ssn", "mask_hsah")]),
      some (dict [("ssn", "pii"), ("birth_date", "phi")])) rfl 1 "ssn" rfl rfl ?_,
    fun rt => @not_strictMasks_of_chain rt _ _
      (none, some (dict [("ssn", "pii"), ("birth_date", "none")])) rfl 2 "birth_date" rfl rfl ?_⟩
  · exact fun t ht => absurd ht List.not_mem_nil
  · exact fun t ht => absurd ht List.not_mem_nil
  · exact fun t ht => List.mem_singleton.mp ht

end Examples

end SqlOptima.MaskingDiscovery
