import SqlOptima.ColumnTypeOverride
import SqlOptima.ExceptRules

namespace SqlOptima.OverrideApplication

open DdlIdentifier InsertionDict ColumnTypeOverride

/-!
# Where an accepted override arrives
-/


section Statement

/-- What a dispatched job does with a column. -/
structure ColumnEffect where
  extractCast : Option String
  columnType : Option String
  provisionedType : Except ProvisionError (Option String)
  finalizeCasts : Except IdentifierError (List ColumnTypeCast)

/-- The table is there and is dropped to be created anew. -/
def Recreated (target : TargetTable) : Prop :=
  target.present = true ∧ target.policy = .dropEmptyRecreate ∧ target.rowCount ≤ 0

/-- A table that is created gives its column the type; a table that is kept stays as it is. -/
def provisionedWith (target : TargetTable) (tableName pgType : String) :
    Except ProvisionError (Option String) :=
  if target.present = false then .ok (some pgType)
  else
    match target.policy with
    | .useExisting => .ok none
    | .dropEmptyRecreate =>
        if 0 < target.rowCount then .error (.notEmpty tableName target.rowCount)
        else .ok (some pgType)
    | .truncateReload => .ok none
    | .unsupported policy => .error (.unsupportedPolicy tableName policy)

variable (targets : String → TargetTable) (mapped : String → String → String)

/-- `targets` are the target tables by name, `mapped` the types that `map_sqlserver_to_postgres_ddl`
gives the columns. -/
def dispatchedEffect (resolved : Dict ResolvedColumnTypeOverride)
    (pgTypesByTable : Dict (Dict String)) (plan : TableMigrationPlan) (columnName : String) :
    ColumnEffect where
  extractCast := (plan.columnExtractCasts.getD []).lookup columnName
  columnType := (plan.columnTypes.getD []).lookup columnName
  provisionedType := provisionTargetTable (targets plan.tableName) pgTypesByTable plan.tableName
    columnName (mapped plan.tableName columnName)
  finalizeCasts := (columnTypeCastsForPlan resolved plan.tableName).map fun casts =>
    casts.filter (·.columnName = columnName)

/-- The effect of an override on its column in the table of a plan. -/
def overrideEffect (tableName : String) (ro : ResolvedColumnTypeOverride) : ColumnEffect where
  extractCast := some ro.sourceCastExpression
  columnType := some ro.extractType
  provisionedType := provisionedWith (targets tableName) tableName ro.loadPgDdlType
  finalizeCasts := (columnTypeCast ro).map Option.toList

/-- The effect on a column without an override. -/
def catalogEffect (typesByTable : Dict (Dict String)) (tableName columnName : String) :
    ColumnEffect where
  extractCast := none
  columnType := ((typesByTable.lookup tableName).getD []).lookup columnName
  provisionedType := provisionedWith (targets tableName) tableName (mapped tableName columnName)
  finalizeCasts := .ok []

variable (py : PythonStr) (assessment : DatabaseAssessment)

/-- A name means the table that is spelled so; where no table is, letter case does not count. -/
def RefersTo (name tableName : String) : Prop :=
  name = tableName ∨
    (py.lower name = py.lower tableName ∧ ∀ ta ∈ assessment.tables, ta.tableName ≠ name)

def OverridesApplied (tableNames : List String) (typesByTable : Dict (Dict String))
    (resolved : Dict ResolvedColumnTypeOverride) : Prop :=
  let applied :=
    applyColumnTypeOverridesToPlans (tableNames.map (plannedTable typesByTable)) resolved
  applied.1.map (·.tableName) = tableNames ∧
    ∀ plan ∈ applied.1, ∀ columnName,
      (∀ ro ∈ resolved.map Prod.snd, RefersTo py assessment plan.tableName ro.tableName →
        ro.columnName = columnName →
          dispatchedEffect targets mapped resolved applied.2 plan columnName =
            overrideEffect targets plan.tableName ro) ∧
      ((∀ ro ∈ resolved.map Prod.snd, RefersTo py assessment plan.tableName ro.tableName →
        ro.columnName ≠ columnName) →
          dispatchedEffect targets mapped resolved applied.2 plan columnName =
            catalogEffect targets mapped typesByTable plan.tableName columnName)

/-- A table that an override is for. -/
def Overridden (overrides : Dict String) (ta : TableAssessment) : Prop :=
  ∃ key ∈ overrides.map Prod.fst, ∃ tableName columnName,
    parseOverrideKey py key = .ok (tableName, columnName) ∧
      (byName py assessment).lookup (py.lower tableName) = some ta

/-- Whoever selects an overridden table spells it as the assessment does. -/
def SelectedAsAssessed (tableNames : List String) (overrides : Dict String) : Prop :=
  ∀ name ∈ tableNames, ∀ ta, Overridden py assessment overrides ta →
    RefersTo py assessment name ta.tableName → name = ta.tableName

/-- An override of a selected table that is dropped and created anew loads into the very type that
its column is mapped to. -/
def RecreatedAlike (tableNames : List String) (resolved : Dict ResolvedColumnTypeOverride) : Prop :=
  ∀ ro ∈ resolved.map Prod.snd, ro.tableName ∈ tableNames → Recreated (targets ro.tableName) →
    ro.loadPgDdlType = mapped ro.tableName ro.columnName

end Statement

section Overrides

variable {py : PythonStr} {assessment : DatabaseAssessment} {overrides : Dict String}
variable {resolved : Dict ResolvedColumnTypeOverride}

/-- The override of a column, if there is one. -/
def overrideFor (resolved : Dict ResolvedColumnTypeOverride) (tableName columnName : String) :
    Option ResolvedColumnTypeOverride :=
  (resolved.map Prod.snd).find? fun ro => ro.tableName = tableName ∧ ro.columnName = columnName

theorem overrideFor_eq_none {tableName columnName : String} :
    overrideFor resolved tableName columnName = none ↔
      ∀ ro ∈ resolved.map Prod.snd, ro.tableName = tableName → ro.columnName ≠ columnName := by
  rw [overrideFor, List.find?_eq_none]
  refine forall₂_congr fun ro _ => ?_
  rw [decide_eq_true_eq, not_and]

theorem eq_toList_head? {α β : Type} {l : List α} {f : α → β} (hn : (l.map f).Nodup) {b : β}
    (hconst : ∀ a ∈ l, f a = b) : l = l.head?.toList := by
  cases l with
  | nil => rfl
  | cons a l =>
      cases l with
      | nil => rfl
      | cons a' l =>
          have heq : f a = f a' :=
            (hconst a List.mem_cons_self).trans
              (hconst a' (List.mem_cons_of_mem _ List.mem_cons_self)).symm
          rw [List.map_cons, List.nodup_cons, List.map_cons, heq] at hn
          exact absurd List.mem_cons_self hn.1

theorem filter_overrides (h : FromOverrides py assessment overrides resolved)
    (tableName columnName : String) :
    ((resolved.map Prod.snd).filter fun ro =>
        ro.tableName = tableName ∧ ro.columnName = columnName) =
      (overrideFor resolved tableName columnName).toList := by
  rw [overrideFor, ← List.head?_filter, List.filter_map]
  have hkeys : ((resolved.filter ((fun ro : ResolvedColumnTypeOverride =>
      decide (ro.tableName = tableName ∧ ro.columnName = columnName)) ∘ Prod.snd)).map
        Prod.fst).Nodup := h.nodup.sublist (List.filter_sublist.map _)
  have hone := eq_toList_head? hkeys (b := overrideKey tableName columnName) fun e he => by
    obtain ⟨hmem, hcol⟩ := List.mem_filter.mp he
    obtain ⟨rfl, rfl⟩ := of_decide_eq_true hcol
    exact (h.sound e hmem).1
  rw [hone]
  cases (List.filter _ resolved).head? with
  | none => rfl
  | some e => rfl

theorem overrideFor_of_mem (h : FromOverrides py assessment overrides resolved)
    {ro : ResolvedColumnTypeOverride} (hro : ro ∈ resolved.map Prod.snd) :
    overrideFor resolved ro.tableName ro.columnName = some ro := by
  have hmem : ro ∈ (resolved.map Prod.snd).filter fun ro' =>
      ro'.tableName = ro.tableName ∧ ro'.columnName = ro.columnName :=
    List.mem_filter.mpr ⟨hro, decide_eq_true ⟨rfl, rfl⟩⟩
  rw [filter_overrides h] at hmem
  exact Option.mem_toList.mp hmem

/-- The columns of one table, as `overrides_by_table` groups them. -/
def tableOverrides (resolved : Dict ResolvedColumnTypeOverride) (tableName : String) :
    Dict ResolvedColumnTypeOverride :=
  ((overridesByTable resolved).lookup tableName).getD []

theorem groups_spec (l : List ResolvedColumnTypeOverride) (tableName : String) :
    let columns := ((l.foldl (fun grouped ro => assign grouped ro.tableName
      (assign ((grouped.lookup ro.tableName).getD []) ro.columnName ro)) []).lookup
        tableName).getD []
    (columns.map Prod.fst).Nodup ∧ ∀ columnName, columns.lookup columnName =
      l.reverse.find? fun ro => ro.tableName = tableName ∧ ro.columnName = columnName := by
  induction l using List.reverseRecOn with
  | nil => exact ⟨List.nodup_nil, fun _ => rfl⟩
  | append_singleton l ro ih =>
      obtain ⟨hnodup, hlookup⟩ := ih
      rw [List.foldl_append, List.reverse_append, List.reverse_singleton, List.foldl_cons,
        List.foldl_nil, lookup_assign]
      split
      · next htable =>
          subst htable
          refine ⟨nodup_keys_assign hnodup _ _, fun columnName => ?_⟩
          rw [Option.getD_some, lookup_assign, hlookup, List.singleton_append, List.find?_cons]
          by_cases hcol : columnName = ro.columnName
          · simp [hcol]
          · simp [hcol, Ne.symm hcol]
      · next htable =>
          refine ⟨hnodup, fun columnName => ?_⟩
          rw [hlookup, List.singleton_append, List.find?_cons_of_neg]
          exact fun hmatch => htable (of_decide_eq_true hmatch).1.symm

theorem nodup_tableOverrides (resolved : Dict ResolvedColumnTypeOverride) (tableName : String) :
    ((tableOverrides resolved tableName).map Prod.fst).Nodup :=
  (groups_spec _ tableName).1

theorem lookup_tableOverrides (h : FromOverrides py assessment overrides resolved)
    (tableName columnName : String) :
    (tableOverrides resolved tableName).lookup columnName =
      overrideFor resolved tableName columnName := by
  rw [tableOverrides, overridesByTable, (groups_spec _ tableName).2, ← List.head?_filter,
    List.filter_reverse, filter_overrides h]
  cases overrideFor resolved tableName columnName with
  | none => rfl
  | some ro => rfl

end Overrides

section Plans

variable {py : PythonStr} {assessment : DatabaseAssessment} {overrides : Dict String}
variable {resolved : Dict ResolvedColumnTypeOverride} {typesByTable : Dict (Dict String)}

/-- What the types of the target table become. -/
def pgTypes (resolved : Dict ResolvedColumnTypeOverride) (tableName : String) :
    Option (Dict String) :=
  if tableOverrides resolved tableName = [] then none
  else some (fromPairs ((tableOverrides resolved tableName).map fun e => (e.1, e.2.loadPgDdlType)))

theorem applyOverridesToPlan_snd (plan : TableMigrationPlan) :
    (applyOverridesToPlan (overridesByTable resolved) plan).2 =
      (pgTypes resolved plan.tableName).map (Prod.mk plan.tableName) := by
  rw [applyOverridesToPlan, pgTypes, tableOverrides]
  split
  · rfl
  · rfl

theorem lookup_pgTypes (h : FromOverrides py assessment overrides resolved)
    (tableName columnName : String) :
    ((pgTypes resolved tableName).getD []).lookup columnName =
      (overrideFor resolved tableName columnName).map (·.loadPgDdlType) := by
  rw [← lookup_tableOverrides h, pgTypes]
  split
  · next hnil =>
      rw [hnil]
      rfl
  · exact lookup_fromPairs_map (nodup_tableOverrides resolved tableName) _ _

theorem lookup_extractCasts (h : FromOverrides py assessment overrides resolved)
    (tableName columnName : String) :
    ((applyOverridesToPlan (overridesByTable resolved)
        (plannedTable typesByTable tableName)).1.columnExtractCasts.getD []).lookup columnName =
      (overrideFor resolved tableName columnName).map (·.sourceCastExpression) := by
  rw [← lookup_tableOverrides h, applyOverridesToPlan]
  change ((if tableOverrides resolved tableName = [] then _ else _ :
    TableMigrationPlan × Option (String × Dict String)).1.columnExtractCasts.getD []).lookup
      columnName = _
  split
  · next hnil =>
      rw [hnil]
      rfl
  · exact lookup_fromPairs_map (nodup_tableOverrides resolved tableName) _ _

theorem lookup_columnTypes (h : FromOverrides py assessment overrides resolved)
    (tableName columnName : String) :
    ((applyOverridesToPlan (overridesByTable resolved)
        (plannedTable typesByTable tableName)).1.columnTypes.getD []).lookup columnName =
      ((overrideFor resolved tableName columnName).map (·.extractType)).or
        (((typesByTable.lookup tableName).getD []).lookup columnName) := by
  rw [← lookup_tableOverrides h, applyOverridesToPlan]
  change ((if tableOverrides resolved tableName = [] then _ else _ :
    TableMigrationPlan × Option (String × Dict String)).1.columnTypes.getD []).lookup
      columnName = _
  split
  · next hnil =>
      rw [hnil]
      rfl
  · exact lookup_assignAll (nodup_tableOverrides resolved tableName) _ _ _

end Plans

section Casts

variable {py : PythonStr} {assessment : DatabaseAssessment} {overrides : Dict String}
variable {resolved : Dict ResolvedColumnTypeOverride} {ro : ResolvedColumnTypeOverride}

def castOf (ro : ResolvedColumnTypeOverride) : Option ColumnTypeCast :=
  (columnTypeCast ro).toOption.getD none

theorem columnTypeCast_eq (hne : ro.columnName ≠ "") : columnTypeCast ro = .ok (castOf ro) := by
  have hquoted : ∃ pgCol, quotePgIdent ro.columnName = .ok pgCol := ⟨_, if_neg hne⟩
  obtain ⟨pgCol, hquoted⟩ := hquoted
  rw [castOf, columnTypeCast, ResolvedColumnTypeOverride.finalizeCastUsingSql, hquoted]
  split
  · next heq =>
      split at heq
      · cases heq
      · cases heq
  · rfl
  · rfl

theorem columnName_of_castOf {cast : ColumnTypeCast} (h : castOf ro = some cast) :
    cast.columnName = ro.columnName := by
  rw [castOf, columnTypeCast] at h
  split at h
  · cases h
  · cases h
  · change (if _ then _ else _) = some cast at h
    split at h
    · cases h
    · cases h
      rfl

theorem castOf_of_not_needed (h : ro.needsFinalizeTypeCast = false) : castOf ro = none := by
  rw [castOf, columnTypeCast, ResolvedColumnTypeOverride.finalizeCastUsingSql, if_pos h]
  rfl

theorem columnName_ne (h : FromOverrides py assessment overrides resolved)
    (hro : ro ∈ resolved.map Prod.snd) : ro.columnName ≠ "" ∧ ro.pgDdlType ≠ "" := by
  obtain ⟨e, he, rfl⟩ := List.mem_map.mp hro
  obtain ⟨entry, -, hentry⟩ := (h.sound e he).2
  obtain ⟨_, _, hparse, -, -, htyped⟩ := resolveEntry_ok hentry
  exact ⟨(parseOverrideKey_eq hparse).2.2.2, htyped⟩

/-- The deferred cast of a column is the one of its override. -/
theorem finalizeCasts_eq (h : FromOverrides py assessment overrides resolved)
    (tableName columnName : String) :
    ((columnTypeCastsForPlan resolved tableName).map fun casts =>
        casts.filter (·.columnName = columnName)) =
      .ok ((overrideFor resolved tableName columnName).bind castOf).toList := by
  have hmapM : ((resolved.map Prod.snd).filter fun ro =>
      ro.tableName = tableName ∧ ro.needsFinalizeTypeCast).mapM columnTypeCast =
        .ok (((resolved.map Prod.snd).filter fun ro =>
          ro.tableName = tableName ∧ ro.needsFinalizeTypeCast).map castOf) := by
    refine ExceptRules.mapM_of_forall₂ (List.forall₂_map_right_iff.mpr ?_)
    refine List.forall₂_same.mpr fun ro hro => columnTypeCast_eq ?_
    exact (columnName_ne h (List.mem_filter.mp hro).1).1
  rw [columnTypeCastsForPlan, hmapM]
  refine congrArg Except.ok ?_
  have hone : ((resolved.map Prod.snd).filter fun ro =>
      ro.tableName = tableName ∧ ro.columnName = columnName).filterMap castOf =
        ((overrideFor resolved tableName columnName).bind castOf).toList := by
    rw [filter_overrides h]
    cases overrideFor resolved tableName columnName with
    | none => rfl
    | some ro =>
        rw [Option.bind_some, Option.toList_some, List.filterMap_cons]
        cases castOf ro with
        | none => rfl
        | some cast => rfl
  rw [← hone, List.filterMap_map, Function.id_comp]
  dsimp only
  rw [List.filter_filterMap, List.filterMap_filter, List.filterMap_filter]
  refine List.filterMap_congr fun ro _ => ?_
  cases hcast : castOf ro with
  | none => simp
  | some cast =>
      have hname := columnName_of_castOf hcast
      have hneeded : ro.needsFinalizeTypeCast = true := by
        by_contra hno
        rw [castOf_of_not_needed (Bool.eq_false_iff.mpr hno)] at hcast
        cases hcast
      simp only [hname, hneeded, Option.filter, and_true, decide_eq_true_eq]
      rw [ite_and]

end Casts

section Dispatch

variable {py : PythonStr} {assessment : DatabaseAssessment} {overrides : Dict String}
variable {resolved : Dict ResolvedColumnTypeOverride} {typesByTable : Dict (Dict String)}
variable {tableNames : List String}

theorem applyOverridesToPlan_tableName (plan : TableMigrationPlan) :
    (applyOverridesToPlan (overridesByTable resolved) plan).1.tableName = plan.tableName := by
  rw [applyOverridesToPlan]
  split
  · rfl
  · rfl

theorem applied_eq :
    applyColumnTypeOverridesToPlans (tableNames.map (plannedTable typesByTable)) resolved =
      (tableNames.map fun name =>
        (applyOverridesToPlan (overridesByTable resolved) (plannedTable typesByTable name)).1,
        fromPairs
          (tableNames.filterMap fun name => (pgTypes resolved name).map (Prod.mk name))) := by
  rw [applyColumnTypeOverridesToPlans, List.map_map, List.map_map, List.filterMap_map,
    List.filterMap_map]
  refine congrArg (Prod.mk _) (congrArg fromPairs (List.filterMap_congr fun name _ => ?_))
  exact applyOverridesToPlan_snd (plannedTable typesByTable name)

theorem loadPgDdlType_ne {ro : ResolvedColumnTypeOverride} (h : ro.pgDdlType ≠ "") :
    ro.loadPgDdlType ≠ "" := by
  rw [ResolvedColumnTypeOverride.loadPgDdlType]
  split
  · decide
  · exact h

variable {targets : String → TargetTable} {mapped : String → String → String}

theorem provisionTargetTable_eq (target : TargetTable) (pgTypesByTable : Dict (Dict String))
    (tableName columnName mappedType : String) :
    (Recreated target →
      provisionTargetTable target pgTypesByTable tableName columnName mappedType =
        .ok (some mappedType)) ∧
    (¬ Recreated target →
      provisionTargetTable target pgTypesByTable tableName columnName mappedType =
        provisionedWith target tableName
          (provisionedType pgTypesByTable tableName columnName mappedType)) := by
  obtain ⟨present, rowCount, policy⟩ := target
  rw [provisionTargetTable, provisionedWith, Recreated]
  cases present with
  | false => exact ⟨fun h => absurd h.1 Bool.false_ne_true, fun _ => rfl⟩
  | true =>
      cases policy with
      | useExisting => exact ⟨fun h => absurd h.2.1 nofun, fun _ => rfl⟩
      | truncateReload => exact ⟨fun h => absurd h.2.1 nofun, fun _ => rfl⟩
      | unsupported policy => exact ⟨fun h => absurd h.2.1 nofun, fun _ => rfl⟩
      | dropEmptyRecreate =>
          by_cases hrows : 0 < rowCount
          · refine ⟨fun h => absurd hrows (Int.not_lt.mpr h.2.2), fun _ => ?_⟩
            simp only [hrows, if_true]
          · refine ⟨fun _ => ?_, fun h => absurd ⟨rfl, rfl, Int.not_lt.mp hrows⟩ h⟩
            simp only [hrows, if_false]
            rfl

theorem provisionedWith_of_recreated {target : TargetTable} (h : Recreated target)
    (tableName pgType : String) : provisionedWith target tableName pgType = .ok (some pgType) := by
  rw [provisionedWith, h.1, if_neg (Bool.noConfusion : ¬ true = false), h.2.1]
  exact if_neg (Int.not_lt.mpr h.2.2)

/-- The type a column is provisioned with: the override under the name of the plan counts, unless
the table is dropped first. -/
theorem provisioned_eq (h : FromOverrides py assessment overrides resolved) {name : String}
    (hname : name ∈ tableNames) (columnName : String) :
    provisionedType
        (fromPairs (tableNames.filterMap fun name => (pgTypes resolved name).map (Prod.mk name)))
        name columnName (mapped name columnName) =
      ((overrideFor resolved name columnName).map (·.loadPgDdlType)).getD
        (mapped name columnName) := by
  rw [provisionedType, lookup_fromPairs_filterMap (pgTypes resolved) hname, lookup_pgTypes h]
  cases hfor : overrideFor resolved name columnName with
  | none => rfl
  | some ro =>
      have hro := columnName_ne h (List.mem_of_find?_eq_some hfor)
      exact if_neg (loadPgDdlType_ne hro.2)

/-- The job does with a column what the override under the name of the plan says, else what the
catalog says, when the override agrees with the mapping wherever the table is dropped first. -/
theorem dispatchedEffect_eq (h : FromOverrides py assessment overrides resolved) {name : String}
    (hname : name ∈ tableNames) (columnName : String)
    (halike : ∀ ro, overrideFor resolved name columnName = some ro → Recreated (targets name) →
      ro.loadPgDdlType = mapped name columnName) :
    dispatchedEffect targets mapped resolved
        (fromPairs (tableNames.filterMap fun name => (pgTypes resolved name).map (Prod.mk name)))
        (applyOverridesToPlan (overridesByTable resolved) (plannedTable typesByTable name)).1
        columnName =
      ((overrideFor resolved name columnName).map (overrideEffect targets name)).getD
        (catalogEffect targets mapped typesByTable name columnName) := by
  have hprovisioned : provisionTargetTable (targets name)
      (fromPairs (tableNames.filterMap fun name => (pgTypes resolved name).map (Prod.mk name)))
      name columnName (mapped name columnName) = provisionedWith (targets name) name
        (((overrideFor resolved name columnName).map (·.loadPgDdlType)).getD
          (mapped name columnName)) := by
    by_cases hrecreated : Recreated (targets name)
    · rw [(provisionTargetTable_eq _ _ _ _ _).1 hrecreated,
        provisionedWith_of_recreated hrecreated]
      cases hfor : overrideFor resolved name columnName with
      | none => rfl
      | some ro =>
          rw [Option.map_some, Option.getD_some, halike ro hfor hrecreated]
    · rw [(provisionTargetTable_eq _ _ _ _ _).2 hrecreated, provisioned_eq h hname]
  rw [dispatchedEffect, lookup_extractCasts h, lookup_columnTypes h, applyOverridesToPlan_tableName]
  change ColumnEffect.mk _ _
    (provisionTargetTable (targets name) _ name columnName (mapped name columnName))
    ((columnTypeCastsForPlan resolved name).map _) = _
  rw [hprovisioned, finalizeCasts_eq h]
  cases hfor : overrideFor resolved name columnName with
  | none => rfl
  | some ro =>
      have hro := columnName_ne h (List.mem_of_find?_eq_some hfor)
      change _ = overrideEffect targets name ro
      rw [overrideEffect, columnTypeCast_eq hro.1]
      rfl

theorem noDot_of_resolveEntry {key optionId : String} {ro : ResolvedColumnTypeOverride}
    (h : resolveEntry py assessment key optionId = .ok ro) : '.' ∉ ro.tableName.toList := by
  obtain ⟨name, ta, hparse, hta, htable, -⟩ := resolveEntry_ok h
  have hlower := (byName_lookup hta).2
  rw [htable, ← py.lower_dot, hlower, py.lower_dot]
  exact (parseOverrideKey_eq hparse).2.2.1

theorem overridden_iff (h : FromOverrides py assessment overrides resolved) (tableName : String) :
    (∃ ro ∈ resolved.map Prod.snd, ro.tableName = tableName) ↔
      ∃ ta, Overridden py assessment overrides ta ∧ ta.tableName = tableName := by
  constructor
  · rintro ⟨ro, hro, rfl⟩
    obtain ⟨e, he, rfl⟩ := List.mem_map.mp hro
    obtain ⟨entry, hmem, hentry⟩ := (h.sound e he).2
    obtain ⟨name, ta, hparse, hta, htable, -⟩ := resolveEntry_ok hentry
    exact ⟨ta, ⟨entry.1, List.mem_map_of_mem hmem, name, _, hparse, hta⟩, htable.symm⟩
  · rintro ⟨ta, ⟨key, hkey, name, columnName, hparse, hta⟩, rfl⟩
    obtain ⟨entry, hentry, rfl⟩ := List.mem_map.mp hkey
    obtain ⟨ro, e, hro, he, hsame⟩ := h.complete entry hentry
    obtain ⟨name', ta', hparse', hta', htable, -⟩ := resolveEntry_ok hro
    rw [hparse] at hparse'
    cases hparse'
    rw [hta] at hta'
    cases hta'
    obtain ⟨hkey', entry', -, hentry'⟩ := h.sound e he
    have hsame' := overrideKey_injective (noDot_of_resolveEntry hentry') (noDot_of_resolveEntry hro)
      (hkey'.symm.trans hsame)
    exact ⟨e.2, List.mem_map_of_mem he, hsame'.1.trans htable⟩

/-- Accepted overrides reach the columns they are for exactly when the overridden tables are
selected under the spelling of the assessment and no override is lost with a table that is dropped
first; and a key is parsed to what it was made of exactly when the table has a name without a dot. -/
theorem overridesApplied_iff
    (h : resolveOverridesForTables py assessment tableNames overrides = .ok resolved) :
    (OverridesApplied targets mapped py assessment tableNames typesByTable resolved ↔
      SelectedAsAssessed py assessment tableNames overrides ∧
        RecreatedAlike targets mapped tableNames resolved) ∧
    ∀ tableName columnName,
      parseOverrideKey py (overrideKey tableName columnName) = .ok (tableName, columnName) ↔
        tableName ≠ "" ∧ '.' ∉ tableName.toList ∧ columnName ≠ "" := by
  refine ⟨?_, parseOverrideKey_overrideKey py⟩
  have hfrom := resolve_ok h
  rw [OverridesApplied, applied_eq]
  dsimp only
  constructor
  · rintro ⟨-, happlied⟩
    refine ⟨fun name hname ta hover hrefers => ?_, fun ro hro hname hrecreated => ?_⟩
    · by_contra hspelled
      obtain ⟨ro, hro, htable⟩ := (overridden_iff hfrom ta.tableName).mpr ⟨ta, hover, rfl⟩
      have heffect := (happlied _ (List.mem_map_of_mem hname) ro.columnName).1 ro hro
        (by rw [applyOverridesToPlan_tableName, htable]; exact hrefers) rfl
      have hnone : overrideFor resolved name ro.columnName = none := by
        rw [overrideFor_eq_none]
        intro ro' hro' htable'
        obtain ⟨ta', hover', hname'⟩ := (overridden_iff hfrom name).mp ⟨ro', hro', htable'⟩
        obtain ⟨_, _, _, _, _, hta'⟩ := hover'
        exact absurd hname' ((hrefers.resolve_left hspelled).2 ta' (byName_lookup hta').1)
      have hcast : _ = some ro.sourceCastExpression := congrArg ColumnEffect.extractCast heffect
      rw [dispatchedEffect, lookup_extractCasts hfrom, hnone] at hcast
      cases hcast
    · have heffect := (happlied _ (List.mem_map_of_mem hname) ro.columnName).1 ro hro
        (by rw [applyOverridesToPlan_tableName]; exact .inl rfl) rfl
      have htype := congrArg ColumnEffect.provisionedType heffect
      rw [dispatchedEffect, overrideEffect, applyOverridesToPlan_tableName] at htype
      change provisionTargetTable (targets ro.tableName) _ ro.tableName ro.columnName _ =
        provisionedWith (targets ro.tableName) ro.tableName _ at htype
      rw [(provisionTargetTable_eq _ _ _ _ _).1 hrecreated,
        provisionedWith_of_recreated hrecreated] at htype
      exact (Option.some.inj (Except.ok.inj htype)).symm
  · rintro ⟨hspelled, halike⟩
    refine ⟨?_, fun plan hplan columnName => ?_⟩
    · rw [List.map_map]
      refine (List.map_congr_left fun name _ => ?_).trans (List.map_id tableNames)
      exact applyOverridesToPlan_tableName _
    · obtain ⟨name, hname, rfl⟩ := List.mem_map.mp hplan
      have hagree : ∀ ro, overrideFor resolved name columnName = some ro →
          Recreated (targets name) → ro.loadPgDdlType = mapped name columnName := by
        intro ro hfor hrecreated
        have hkey := List.find?_some hfor
        rw [decide_eq_true_eq] at hkey
        obtain ⟨rfl, rfl⟩ := hkey
        exact halike ro (List.mem_of_find?_eq_some hfor) hname hrecreated
      rw [applyOverridesToPlan_tableName, dispatchedEffect_eq hfrom hname columnName hagree]
      constructor
      · rintro ro hro hrefers rfl
        obtain ⟨ta, hover, htable⟩ := (overridden_iff hfrom ro.tableName).mp ⟨ro, hro, rfl⟩
        have hexact : name = ro.tableName := by
          rw [← htable]
          exact hspelled name hname ta hover (htable ▸ hrefers)
        subst hexact
        rw [overrideFor_of_mem hfrom hro]
        rfl
      · intro hother
        have hnone : overrideFor resolved name columnName = none :=
          overrideFor_eq_none.mpr fun ro hro htable => hother ro hro (.inl htable.symm)
        rw [hnone]
        rfl

end Dispatch

section Example

theorem toLower_eq_dot {c : Char} : c.toLower = '.' ↔ c = '.' := by
  delta Char.toLower
  split
  · next h =>
      refine iff_of_false ?_ ?_
      · intro heq
        have hval : (c.val + 32).toNat = 46 := congrArg (fun d : Char => d.val.toNat) heq
        have hfrom : 65 ≤ c.val.toNat := h.1
        have hto : c.val.toNat ≤ 90 := h.2
        rw [UInt32.toNat_add] at hval
        have hsmall : (32 : UInt32).toNat = 32 := rfl
        omega
      · rintro rfl
        exact absurd h (by decide)
  · exact Iff.rfl

theorem dot_mem_map_toLower (s : String) :
    '.' ∈ (String.ofList (s.toList.map Char.toLower)).toList ↔ '.' ∈ s.toList := by
  rw [String.toList_ofList, List.mem_map]
  constructor
  · rintro ⟨c, hc, hdot⟩
    exact toLower_eq_dot.mp hdot ▸ hc
  · exact fun h => ⟨'.', h, rfl⟩

def asciiStr : PythonStr where
  lower s := String.ofList (s.toList.map Char.toLower)
  strip s := String.ofList
    ((s.toList.dropWhile Char.isWhitespace).reverse.dropWhile Char.isWhitespace).reverse
  repr s := "'" ++ s ++ "'"
  lower_dot := dot_mem_map_toLower

def ordersTable : TableAssessment where
  tableName := "Orders"
  blockerTypes := ["Payload"]
  unsupportedTypeColumns := [⟨some "Payload", some "sql_variant"⟩]
  blockers := ["Column 'Payload' uses unsupported type 'sql_variant'"]

def payloadOverride : ResolvedColumnTypeOverride where
  tableName := "Orders"
  columnName := "Payload"
  sourceType := "sql_variant"
  optionId := "sql_variant_jsonb"
  pgDdlType := "jsonb"
  extractType := "nvarchar"
  sourceCastExpression := "CAST([Payload] AS nvarchar(max))"
  requiresExtension := none

def payloadOption : Dict String := [("Orders.Payload", "sql_variant_jsonb")]

theorem lower_ofList (l : List Char) :
    asciiStr.lower (String.ofList l) = String.ofList (l.map Char.toLower) := by
  change String.ofList ((String.ofList l).toList.map Char.toLower) = _
  rw [String.toList_ofList]

theorem strip_ofList (l : List Char) :
    asciiStr.strip (String.ofList l) = String.ofList
      ((l.dropWhile Char.isWhitespace).reverse.dropWhile Char.isWhitespace).reverse := by
  change String.ofList (((String.ofList l).toList.dropWhile _).reverse.dropWhile _).reverse = _
  rw [String.toList_ofList]

theorem lower_orders : asciiStr.lower "orders" = asciiStr.lower "Orders" := by
  have hlower : asciiStr.lower "orders" = "orders" := lower_ofList _
  have hupper : asciiStr.lower "Orders" = "orders" := lower_ofList _
  rw [hlower, hupper]

theorem lower_sqlVariant : asciiStr.lower "sql_variant" = "sql_variant" := lower_ofList _

theorem options_sqlVariant : lookupOption asciiStr "sql_variant" "sql_variant_jsonb" =
    some ⟨"sql_variant_jsonb", "jsonb", "nvarchar", ("CAST(", " AS nvarchar(max))"), none⟩ := by
  have hstrip : asciiStr.strip "sql_variant" = "sql_variant" := strip_ofList _
  have hparens : '(' ∉ "sql_variant".toList := by
    rw [show "sql_variant".toList = _ from String.toList_ofList]
    decide
  rw [lookupOption, optionsForSourceType, hstrip, lower_sqlVariant, if_neg hparens]
  rfl

theorem payload_cast :
    "CAST(" ++ quoteMssqlIdent "Payload" ++ " AS nvarchar(max))" =
      "CAST([Payload] AS nvarchar(max))" := by
  rw [quoteMssqlIdent, show "Payload".toList = _ from String.toList_ofList]
  rfl

theorem payload_resolved : resolveEntry asciiStr ⟨[ordersTable]⟩ "Orders.Payload"
    "sql_variant_jsonb" = .ok payloadOverride := by
  have hparse : parseOverrideKey asciiStr "Orders.Payload" = .ok ("Orders", "Payload") :=
    (parseOverrideKey_overrideKey asciiStr "Orders" "Payload").mpr
      ⟨by decide, by decide, by decide⟩
  have htable : (byName asciiStr ⟨[ordersTable]⟩).lookup (asciiStr.lower "Orders") =
      some ordersTable := List.lookup_cons_self
  have htype : sourceTypeForColumn asciiStr ordersTable "Payload" = some "sql_variant" := by
    rw [sourceTypeForColumn]
    change (if asciiStr.lower "sql_variant" = "" then none
      else some (asciiStr.lower "sql_variant")) = _
    rw [lower_sqlVariant, if_neg (by decide)]
  rw [resolveEntry, hparse]
  dsimp only
  rw [htable]
  dsimp only
  rw [if_neg (by decide), htype]
  dsimp only
  rw [options_sqlVariant]
  exact congrArg (fun cast => Except.ok { payloadOverride with sourceCastExpression := cast })
    payload_cast

theorem missingError_orders {name : String}
    (h : (byName asciiStr ⟨[ordersTable]⟩).lookup (asciiStr.lower name) = some ordersTable) :
    missingError asciiStr ⟨[ordersTable]⟩ payloadOption name = none := by
  have hgiven : missingTypeOverrideKeys ordersTable payloadOption = [] := by decide
  rw [missingError, h]
  dsimp only
  rw [hgiven, if_neg (fun hmissing => hmissing.2 rfl)]

theorem resolved_of_not_missing {name : String}
    (h : missingError asciiStr ⟨[ordersTable]⟩ payloadOption name = none) :
    resolveOverridesForTables asciiStr ⟨[ordersTable]⟩ [name] payloadOption =
      .ok [("Orders.Payload", payloadOverride)] := by
  have hmissing : [name].filterMap (missingError asciiStr ⟨[ordersTable]⟩ payloadOption) = [] := by
    rw [List.filterMap_cons_none h, List.filterMap_nil]
  have hresults : payloadOption.map (fun e => resolveEntry asciiStr ⟨[ordersTable]⟩ e.1 e.2) =
      [.ok payloadOverride] := congrArg (· :: []) payload_resolved
  have hkey : overrideKey payloadOverride.tableName payloadOverride.columnName =
      "Orders.Payload" := by decide
  rw [resolveOverridesForTables, hresults, hmissing]
  change Except.ok [(overrideKey payloadOverride.tableName payloadOverride.columnName, _)] = _
  rw [hkey]

theorem orders_resolved : resolveOverridesForTables asciiStr ⟨[ordersTable]⟩ ["Orders"]
    payloadOption = .ok [("Orders.Payload", payloadOverride)] :=
  resolved_of_not_missing (missingError_orders List.lookup_cons_self)

def newTable : TargetTable := ⟨false, 0, .useExisting⟩

def emptyTable : TargetTable := ⟨true, 0, .dropEmptyRecreate⟩

/-- The table is not there yet, or it is dropped first and its column is mapped to the very type. -/
theorem orders_applied :
    OverridesApplied (fun _ => newTable) (fun _ _ => "bytea") asciiStr ⟨[ordersTable]⟩ ["Orders"] []
        [("Orders.Payload", payloadOverride)] ∧
      OverridesApplied (fun _ => emptyTable) (fun _ _ => "text") asciiStr ⟨[ordersTable]⟩ ["Orders"]
        [] [("Orders.Payload", payloadOverride)] := by
  have hspelled : SelectedAsAssessed asciiStr ⟨[ordersTable]⟩ ["Orders"] payloadOption := by
    intro name hname ta hover _
    obtain ⟨_, _, _, _, _, hta⟩ := hover
    rw [List.mem_singleton.mp hname, List.mem_singleton.mp (byName_lookup hta).1]
    rfl
  refine ⟨(overridesApplied_iff orders_resolved).1.mpr ⟨hspelled, ?_⟩,
    (overridesApplied_iff orders_resolved).1.mpr ⟨hspelled, ?_⟩⟩
  · intro ro _ _ hrecreated
    exact absurd hrecreated.1 Bool.false_ne_true
  · intro ro hro _ _
    rw [List.mem_singleton.mp hro]
    decide

/-- The selection may be in any letter case for the overrides to be accepted, but then they are
dropped; and a table that is created anew gets the mapped types. -/
theorem lowerCase_dropped :
    resolveOverridesForTables asciiStr ⟨[ordersTable]⟩ ["orders"] payloadOption =
        .ok [("Orders.Payload", payloadOverride)] ∧
      ¬ OverridesApplied (fun _ => newTable) (fun _ _ => "text") asciiStr ⟨[ordersTable]⟩ ["orders"]
        [] [("Orders.Payload", payloadOverride)] ∧
      ¬ OverridesApplied (fun _ => emptyTable) (fun _ _ => "bytea") asciiStr ⟨[ordersTable]⟩
        ["Orders"] [] [("Orders.Payload", payloadOverride)] ∧
      parseOverrideKey asciiStr (overrideKey "dbo.Orders" "Payload") ≠
        .ok ("dbo.Orders", "Payload") := by
  refine ⟨resolved_of_not_missing (missingError_orders ?_), ?_, ?_, by decide⟩
  · rw [lower_orders]
    exact List.lookup_cons_self
  · rintro ⟨-, happlied⟩
    have heffect := (happlied (plannedTable [] "orders") List.mem_cons_self "Payload").1
      payloadOverride List.mem_cons_self (.inr ⟨lower_orders, by decide⟩) rfl
    have hcast := congrArg ColumnEffect.extractCast heffect
    cases hcast
  · rintro ⟨-, happlied⟩
    have heffect := (happlied _ List.mem_cons_self "Payload").1
      payloadOverride List.mem_cons_self (.inl rfl) rfl
    have htype := congrArg ColumnEffect.provisionedType heffect
    exact absurd (Option.some.inj (Except.ok.inj htype)) (by decide)

end Example

end SqlOptima.OverrideApplication
