import Mathlib.Data.List.Infix
import Mathlib.Data.List.TakeWhile
import SqlOptima.DdlIdentifier
import SqlOptima.InsertionDict

namespace SqlOptima.ColumnTypeOverride

open DdlIdentifier InsertionDict

/-!
# Column type overrides
-/

/-- A dictionary of Python, in the order of insertion. -/
abbrev Dict (V : Type) := List (String × V)

/-- What a result shows of `str`: the lower case, the text without the blanks around it, and the
representation. A dot has no case and is the lower case of nothing else. -/
structure PythonStr where
  lower : String → String
  strip : String → String
  repr : String → String
  lower_dot : ∀ s, '.' ∈ (lower s).toList ↔ '.' ∈ s.toList

/-- `castTemplate` is the text before and the text after the column. -/
structure ColumnTypeOverrideOption where
  optionId : String
  pgDdlType : String
  extractType : String
  castTemplate : String × String
  requiresExtension : Option String

def quoteMssqlIdent (ident : String) : String :=
  String.ofList
    ('[' :: ident.toList.flatMap (fun c => if c = ']' then [']', ']'] else [c]) ++ [']'])

def ColumnTypeOverrideOption.sourceCastExpression (o : ColumnTypeOverrideOption)
    (columnName : String) : String :=
  o.castTemplate.1 ++ quoteMssqlIdent columnName ++ o.castTemplate.2

structure ResolvedColumnTypeOverride where
  tableName : String
  columnName : String
  sourceType : String
  optionId : String
  pgDdlType : String
  extractType : String
  sourceCastExpression : String
  requiresExtension : Option String

def typeOverrideCatalog : Dict (List ColumnTypeOverrideOption) :=
  [("sql_variant",
      [⟨"sql_variant_jsonb", "jsonb", "nvarchar", ("CAST(", " AS nvarchar(max))"), none⟩,
        ⟨"sql_variant_text", "text", "nvarchar", ("CAST(", " AS nvarchar(max))"), none⟩,
        ⟨"sql_variant_bytea", "bytea", "varbinary", ("CAST(", " AS varbinary(max))"), none⟩]),
    ("hierarchyid",
      [⟨"hierarchyid_text", "text", "nvarchar", ("CAST(", " AS nvarchar(900))"), none⟩,
        ⟨"hierarchyid_ltree", "ltree", "nvarchar", ("", ".ToString()"), some "ltree"⟩,
        ⟨"hierarchyid_varchar", "varchar(900)", "nvarchar", ("CAST(", " AS nvarchar(900))"),
          none⟩]),
    ("geometry",
      [⟨"geometry_postgis", "geometry", "nvarchar", ("", ".STAsText()"), some "postgis"⟩,
        ⟨"geometry_text_wkt", "text", "nvarchar", ("", ".STAsText()"), none⟩]),
    ("geography",
      [⟨"geography_postgis", "geography", "nvarchar", ("", ".STAsText()"), some "postgis"⟩,
        ⟨"geography_text_wkt", "text", "nvarchar", ("", ".STAsText()"), none⟩])]

section Keys

def overrideKey (tableName columnName : String) : String := tableName ++ "." ++ columnName

/-- The key is split at its first dot. -/
def parseOverrideKey (py : PythonStr) (key : String) : Except String (String × String) :=
  let table := key.toList.takeWhile (· ≠ '.')
  let column := (key.toList.dropWhile (· ≠ '.')).drop 1
  if table = [] ∨ column = [] then .error ("Invalid column type override key: " ++ py.repr key)
  else .ok (String.ofList table, String.ofList column)

end Keys

section Options

variable (py : PythonStr)

def optionsForSourceType (sourceType : String) : List ColumnTypeOverrideOption :=
  let base := py.lower (py.strip sourceType)
  let base :=
    if '(' ∈ base.toList then py.strip (String.ofList (base.toList.takeWhile (· ≠ '('))) else base
  (typeOverrideCatalog.lookup base).getD []

def lookupOption (sourceType optionId : String) : Option ColumnTypeOverrideOption :=
  (optionsForSourceType py sourceType).find? (·.optionId = optionId)

end Options

section Assessment

/-- An entry of `unsupported_type_columns`. -/
structure UnsupportedColumn where
  columnName : Option String
  sourceType : Option String

structure TableAssessment where
  tableName : String
  blockerTypes : List String
  unsupportedTypeColumns : List UnsupportedColumn
  blockers : List String

structure DatabaseAssessment where
  tables : List TableAssessment

def usesUnsupportedType : String := "uses unsupported type"

def isUnsupportedTypeOnlyBlocker (ta : TableAssessment) : Bool :=
  if ta.blockerTypes = [] then false
  else if ta.blockers = [] then false
  else ta.blockers.all fun msg => decide (usesUnsupportedType.toList <:+: msg.toList)

def missingTypeOverrideKeys (ta : TableAssessment) (overrides : Dict String) : List String :=
  (ta.blockerTypes.map (overrideKey ta.tableName)).filter fun key =>
    key ∉ overrides.map Prod.fst

def sourceTypeForColumn (py : PythonStr) (ta : TableAssessment) (columnName : String) :
    Option String :=
  match ta.unsupportedTypeColumns.find? (·.columnName = some columnName) with
  | some entry =>
      let sourceType := py.lower (entry.sourceType.getD "")
      if sourceType = "" then none else some sourceType
  | none => if columnName ∈ ta.blockerTypes then some "sql_variant" else none

end Assessment

section Resolve

variable (py : PythonStr)

def byName (assessment : DatabaseAssessment) : Dict TableAssessment :=
  fromPairs (assessment.tables.map fun ta => (py.lower ta.tableName, ta))

/-- The body of the first loop of `resolve_overrides_for_tables`: an override, or the error that
is noted. -/
def resolveEntry (assessment : DatabaseAssessment) (key optionId : String) :
    Except String ResolvedColumnTypeOverride :=
  match parseOverrideKey py key with
  | .error message => .error message
  | .ok (tableName, columnName) =>
      match (byName py assessment).lookup (py.lower tableName) with
      | none => .error ("Override " ++ py.repr key ++ ": table not in assessment")
      | some ta =>
          if columnName ∉ ta.blockerTypes then
            .error ("Override " ++ py.repr key ++ ": column is not an unsupported-type blocker")
          else
            match sourceTypeForColumn py ta columnName with
            | none =>
                .error ("Override " ++ py.repr key ++
                  ": could not determine source SQL Server type")
            | some sourceType =>
                match lookupOption py sourceType optionId with
                | none =>
                    .error ("Override " ++ py.repr key ++ ": unknown option_id " ++
                      py.repr optionId ++ " for type " ++ py.repr sourceType)
                | some option =>
                    .ok { tableName := ta.tableName
                          columnName := columnName
                          sourceType := sourceType
                          optionId := optionId
                          pgDdlType := option.pgDdlType
                          extractType := option.extractType
                          sourceCastExpression := option.sourceCastExpression columnName
                          requiresExtension := option.requiresExtension }

/-- The body of the second loop. -/
def missingError (assessment : DatabaseAssessment) (overrides : Dict String) (name : String) :
    Option String :=
  match (byName py assessment).lookup (py.lower name) with
  | none => none
  | some ta =>
      if isUnsupportedTypeOnlyBlocker ta ∧ missingTypeOverrideKeys ta overrides ≠ [] then
        some ("Table " ++ ta.tableName ++ ": missing type overrides for " ++
          ", ".intercalate (missingTypeOverrideKeys ta overrides))
      else none

def errorOf {α : Type} : Except String α → Option String
  | .error message => some message
  | .ok _ => none

def resolveOverridesForTables (assessment : DatabaseAssessment) (tableNames : List String)
    (overrides : Dict String) : Except String (Dict ResolvedColumnTypeOverride) :=
  let results := overrides.map fun e => resolveEntry py assessment e.1 e.2
  let errors := results.filterMap errorOf ++
    tableNames.filterMap (missingError py assessment overrides)
  if errors = [] then
    .ok (fromPairs ((results.filterMap Except.toOption).map fun ro =>
      (overrideKey ro.tableName ro.columnName, ro)))
  else .error ("; ".intercalate errors)

end Resolve

section Apply

def loadAsTextForCopy : List String := ["jsonb", "json", "ltree", "geometry", "geography"]

namespace ResolvedColumnTypeOverride

variable (ro : ResolvedColumnTypeOverride)

def loadPgDdlType : String :=
  if ro.pgDdlType ∈ loadAsTextForCopy then "text" else ro.pgDdlType

def needsFinalizeTypeCast : Bool := ro.loadPgDdlType ≠ ro.pgDdlType

def finalizeCastUsingSql : Except IdentifierError (Option String) :=
  if ro.needsFinalizeTypeCast = false then .ok none
  else
    match quotePgIdent ro.columnName with
    | .error e => .error e
    | .ok pgCol => .ok (some (
        match ro.pgDdlType with
        | "jsonb" | "json" => pgCol ++ "::" ++ ro.pgDdlType
        | "ltree" => pgCol ++ "::ltree"
        | "geometry" => "ST_GeomFromText(" ++ pgCol ++ ")::geometry"
        | "geography" => "ST_GeomFromText(" ++ pgCol ++ ")::geography"
        | _ => pgCol ++ "::" ++ ro.pgDdlType))

end ResolvedColumnTypeOverride

structure ColumnTypeCast where
  columnName : String
  loadPgType : String
  finalPgType : String
  usingSql : String

/-- The body of the loop of `column_type_casts_for_plan`. -/
def columnTypeCast (ro : ResolvedColumnTypeOverride) :
    Except IdentifierError (Option ColumnTypeCast) :=
  match ro.finalizeCastUsingSql with
  | .error e => .error e
  | .ok none => .ok none
  | .ok (some usingSql) =>
      .ok (if usingSql = "" then none
        else some ⟨ro.columnName, ro.loadPgDdlType, ro.pgDdlType, usingSql⟩)

def columnTypeCastsForPlan (resolved : Dict ResolvedColumnTypeOverride) (tableName : String) :
    Except IdentifierError (List ColumnTypeCast) :=
  (((resolved.map Prod.snd).filter fun ro =>
    ro.tableName = tableName ∧ ro.needsFinalizeTypeCast).mapM columnTypeCast).map
      (List.filterMap id)

def overridesByTable (resolved : Dict ResolvedColumnTypeOverride) :
    Dict (Dict ResolvedColumnTypeOverride) :=
  (resolved.map Prod.snd).foldl (fun grouped ro =>
    assign grouped ro.tableName
      (assign ((grouped.lookup ro.tableName).getD []) ro.columnName ro)) []

structure TableMigrationPlan where
  tableName : String
  columnTypes : Option (Dict String)
  columnExtractCasts : Option (Dict String)

/-- The body of the loop of `_apply_column_type_overrides_to_plans`: the plan, and what the result
has for its table. -/
def applyOverridesToPlan (byTable : Dict (Dict ResolvedColumnTypeOverride))
    (plan : TableMigrationPlan) : TableMigrationPlan × Option (String × Dict String) :=
  let tableOverrides := (byTable.lookup plan.tableName).getD []
  if tableOverrides = [] then (plan, none)
  else
    ({ plan with
        columnTypes := some (tableOverrides.foldl
          (fun types e => assign types e.1 e.2.extractType) (plan.columnTypes.getD []))
        columnExtractCasts := some (fromPairs (tableOverrides.map fun e =>
          (e.1, e.2.sourceCastExpression))) },
      some (plan.tableName, fromPairs (tableOverrides.map fun e => (e.1, e.2.loadPgDdlType))))

def applyColumnTypeOverridesToPlans (plans : List TableMigrationPlan)
    (resolved : Dict ResolvedColumnTypeOverride) : List TableMigrationPlan × Dict (Dict String) :=
  let results := plans.map (applyOverridesToPlan (overridesByTable resolved))
  (results.map Prod.fst, fromPairs (results.filterMap Prod.snd))

/-- `mapped` is the type that `map_sqlserver_to_postgres_ddl` gives. -/
def provisionedType (pgTypesByTable : Dict (Dict String)) (tableName columnName mapped : String) :
    String :=
  match ((pgTypesByTable.lookup tableName).getD []).lookup columnName with
  | some pgType => if pgType = "" then mapped else pgType
  | none => mapped

/-- The policies of a table that is there; any other text is refused. -/
inductive TargetTablePolicy where
  | useExisting
  | dropEmptyRecreate
  | truncateReload
  | unsupported (policy : String)

/-- What `provision_target_tables` finds of a target table, and the policy chosen for it. A count
that cannot be read is `-1`. -/
structure TargetTable where
  present : Bool
  rowCount : Int
  policy : TargetTablePolicy

inductive ProvisionError where
  | notEmpty (tableName : String) (rowCount : Int)
  | unsupportedPolicy (tableName policy : String)

/-- The body of the loop of `provision_target_tables`, for a column of the table: the type it is
created with, if the table is created. A table that is dropped first is created without the types
of the overrides. -/
def provisionTargetTable (target : TargetTable) (pgTypesByTable : Dict (Dict String))
    (tableName columnName mapped : String) : Except ProvisionError (Option String) :=
  if target.present = false then
    .ok (some (provisionedType pgTypesByTable tableName columnName mapped))
  else
    match target.policy with
    | .useExisting => .ok none
    | .dropEmptyRecreate =>
        if 0 < target.rowCount then .error (.notEmpty tableName target.rowCount)
        else .ok (some (provisionedType [] tableName columnName mapped))
    | .truncateReload => .ok none
    | .unsupported policy => .error (.unsupportedPolicy tableName policy)

/-- The plan of a selected table, with the types that the catalog of the source has. -/
def plannedTable (typesByTable : Dict (Dict String)) (tableName : String) : TableMigrationPlan where
  tableName := tableName
  columnTypes := some ((typesByTable.lookup tableName).getD [])
  columnExtractCasts := none

end Apply

section Keys

variable {py : PythonStr}

theorem toList_overrideKey (tableName columnName : String) :
    (overrideKey tableName columnName).toList = tableName.toList ++ '.' :: columnName.toList := by
  simp [overrideKey]

theorem split_overrideKey {t : String} (ht : '.' ∉ t.toList) (c : String) :
    (overrideKey t c).toList.takeWhile (· ≠ '.') = t.toList ∧
      ((overrideKey t c).toList.dropWhile (· ≠ '.')).drop 1 = c.toList := by
  have hstop : ∀ d ∈ t.toList, decide (d ≠ '.') = true :=
    fun d hd => decide_eq_true fun hdot => ht (hdot ▸ hd)
  rw [toList_overrideKey]
  constructor
  · rw [List.takeWhile_append_of_pos hstop, List.takeWhile_cons_of_neg (by simp), List.append_nil]
  · rw [List.dropWhile_append_of_pos hstop, List.dropWhile_cons_of_neg (by simp)]
    rfl

theorem overrideKey_injective {t t' c c' : String} (ht : '.' ∉ t.toList) (ht' : '.' ∉ t'.toList)
    (h : overrideKey t c = overrideKey t' c') : t = t' ∧ c = c' := by
  obtain ⟨htable, hcolumn⟩ := split_overrideKey ht c
  obtain ⟨htable', hcolumn'⟩ := split_overrideKey ht' c'
  rw [h, htable'] at htable
  rw [h, hcolumn'] at hcolumn
  exact ⟨String.toList_inj.mp htable.symm, String.toList_inj.mp hcolumn.symm⟩

/-- What is parsed is a key of a table whose name is not empty and holds no dot. -/
theorem parseOverrideKey_eq {key t c : String} (h : parseOverrideKey py key = .ok (t, c)) :
    key = overrideKey t c ∧ t ≠ "" ∧ '.' ∉ t.toList ∧ c ≠ "" := by
  simp only [parseOverrideKey] at h
  split at h
  · cases h
  next hne =>
    obtain ⟨htable, hcolumn⟩ := not_or.mp hne
    cases h
    have hdrop : key.toList.dropWhile (· ≠ '.') ≠ [] := by
      intro hnil
      exact hcolumn (by rw [hnil]; rfl)
    have hdot : (key.toList.dropWhile (· ≠ '.')).head hdrop = '.' := by
      simpa using List.head_dropWhile_not (· ≠ '.') hdrop
    have hcons := List.cons_head_tail hdrop
    rw [hdot] at hcons
    refine ⟨String.toList_inj.mp ?_, ?_, ?_, ?_⟩
    · rw [toList_overrideKey, String.toList_ofList, String.toList_ofList, List.drop_one, hcons,
        List.takeWhile_append_dropWhile]
    · exact fun hempty => htable (by simpa using congrArg String.toList hempty)
    · rw [String.toList_ofList]
      intro hmem
      simpa using List.mem_takeWhile_imp hmem
    · exact fun hempty => hcolumn (by simpa using congrArg String.toList hempty)

theorem parseOverrideKey_overrideKey (py : PythonStr) (t c : String) :
    parseOverrideKey py (overrideKey t c) = .ok (t, c) ↔ t ≠ "" ∧ '.' ∉ t.toList ∧ c ≠ "" := by
  constructor
  · exact fun h => (parseOverrideKey_eq h).2
  · rintro ⟨ht, hdot, hc⟩
    obtain ⟨htable, hcolumn⟩ := split_overrideKey hdot c
    have hne : ∀ s : String, s ≠ "" → s.toList ≠ [] := fun s hs hnil =>
      hs (String.toList_inj.mp hnil)
    simp only [parseOverrideKey, htable, hcolumn]
    rw [if_neg (not_or.mpr ⟨hne t ht, hne c hc⟩), String.ofList_toList, String.ofList_toList]

end Keys

section Resolution

variable {py : PythonStr} {assessment : DatabaseAssessment} {overrides : Dict String}
variable {tableNames : List String} {resolved : Dict ResolvedColumnTypeOverride}

theorem byName_lookup {name : String} {ta : TableAssessment}
    (h : (byName py assessment).lookup name = some ta) :
    ta ∈ assessment.tables ∧ py.lower ta.tableName = name := by
  have hmem := mem_of_mem_fromPairs ((mem_iff_lookup (nodup_keys_fromPairs _)).mpr h)
  obtain ⟨ta', hta, heq⟩ := List.mem_map.mp hmem
  cases heq
  exact ⟨hta, rfl⟩

theorem catalog_typed : ∀ e ∈ typeOverrideCatalog, ∀ o ∈ e.2, o.pgDdlType ≠ "" := by decide

theorem catalog_lookup_typed (base : String) :
    ∀ o ∈ (typeOverrideCatalog.lookup base).getD [], o.pgDdlType ≠ "" := by
  intro o ho
  cases hlookup : typeOverrideCatalog.lookup base with
  | none =>
      rw [hlookup] at ho
      cases ho
  | some options =>
      rw [hlookup] at ho
      obtain ⟨before, after, hcatalog, -⟩ := List.lookup_eq_some_iff.mp hlookup
      exact catalog_typed (base, options) (by rw [hcatalog]; simp) o ho

theorem lookupOption_typed {sourceType optionId : String} {option : ColumnTypeOverrideOption}
    (h : lookupOption py sourceType optionId = some option) : option.pgDdlType ≠ "" :=
  catalog_lookup_typed _ option (List.mem_of_find?_eq_some h)

/-- An accepted entry is an override of a blocking column of the table that its key names, under
the spelling of the assessment. -/
theorem resolveEntry_ok {key optionId : String} {ro : ResolvedColumnTypeOverride}
    (h : resolveEntry py assessment key optionId = .ok ro) :
    ∃ tableName ta, parseOverrideKey py key = .ok (tableName, ro.columnName) ∧
      (byName py assessment).lookup (py.lower tableName) = some ta ∧
        ro.tableName = ta.tableName ∧ ro.pgDdlType ≠ "" := by
  unfold resolveEntry at h
  split at h
  · cases h
  next tableName columnName hparse =>
    split at h
    · cases h
    next ta hta =>
      split at h
      · cases h
      next =>
        split at h
        · cases h
        next sourceType hsource =>
          split at h
          · cases h
          next option hoption =>
            cases h
            exact ⟨tableName, ta, hparse, hta, rfl, lookupOption_typed hoption⟩

/-- What the resolved overrides of an accepted map are. -/
structure FromOverrides (py : PythonStr) (assessment : DatabaseAssessment)
    (overrides : Dict String) (resolved : Dict ResolvedColumnTypeOverride) : Prop where
  nodup : (resolved.map Prod.fst).Nodup
  sound : ∀ e ∈ resolved, e.1 = overrideKey e.2.tableName e.2.columnName ∧
    ∃ entry ∈ overrides, resolveEntry py assessment entry.1 entry.2 = .ok e.2
  complete : ∀ entry ∈ overrides, ∃ ro e, resolveEntry py assessment entry.1 entry.2 = .ok ro ∧
    e ∈ resolved ∧ e.1 = overrideKey ro.tableName ro.columnName

theorem resolve_ok
    (h : resolveOverridesForTables py assessment tableNames overrides = .ok resolved) :
    FromOverrides py assessment overrides resolved := by
  simp only [resolveOverridesForTables] at h
  split at h
  next hnone =>
    cases h
    have haccepted : ∀ entry ∈ overrides, ∃ ro,
        resolveEntry py assessment entry.1 entry.2 = .ok ro := by
      intro entry hentry
      cases hresult : resolveEntry py assessment entry.1 entry.2 with
      | error message =>
          have hmem : message ∈ (overrides.map fun e =>
              resolveEntry py assessment e.1 e.2).filterMap errorOf :=
            List.mem_filterMap.mpr ⟨_, List.mem_map.mpr ⟨entry, hentry, hresult⟩, rfl⟩
          rw [(List.append_eq_nil_iff.mp hnone).1] at hmem
          cases hmem
      | ok ro => exact ⟨ro, rfl⟩
    refine ⟨nodup_keys_fromPairs _, ?_, ?_⟩
    · rintro ⟨key, ro⟩ he
      obtain ⟨ro', hro, heq⟩ := List.mem_map.mp (mem_of_mem_fromPairs he)
      obtain ⟨rfl, rfl⟩ := Prod.mk.inj heq
      obtain ⟨result, hresult, hok⟩ := List.mem_filterMap.mp hro
      obtain ⟨entry, hentry, rfl⟩ := List.mem_map.mp hresult
      refine ⟨rfl, entry, hentry, ?_⟩
      cases hresult : resolveEntry py assessment entry.1 entry.2 with
      | error message =>
          rw [hresult] at hok
          cases hok
      | ok ro' =>
          rw [hresult] at hok
          cases hok
          rfl
    · intro entry hentry
      obtain ⟨ro, hro⟩ := haccepted entry hentry
      have hkey : overrideKey ro.tableName ro.columnName ∈ (fromPairs
          (((overrides.map fun e => resolveEntry py assessment e.1 e.2).filterMap
            Except.toOption).map fun ro => (overrideKey ro.tableName ro.columnName, ro))).map
              Prod.fst := by
        rw [mem_keys_fromPairs, List.map_map, List.mem_map]
        exact ⟨ro, List.mem_filterMap.mpr
          ⟨.ok ro, List.mem_map.mpr ⟨entry, hentry, hro⟩, rfl⟩, rfl⟩
      obtain ⟨e, he, hfst⟩ := List.mem_map.mp hkey
      exact ⟨ro, e, hro, he, hfst⟩
  next => cases h

end Resolution

end SqlOptima.ColumnTypeOverride
