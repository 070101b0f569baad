import SqlOptima.PostMigrationFinalizer

namespace SqlOptima.FinalizeRequests

open DdlIdentifier PostMigrationDdl PostMigrationFinalizer

/-- What the target is asked for, whatever it answers. -/
structure Request where
  plan : TablePlan
  object : DeferredObject
  statements : List String

def requestOf (a : Attempt) : Request :=
  ⟨a.plan, a.object, a.statements⟩

section Requests

variable {D : Type} (py : PythonText) (exec : String → D → Option String × D)
variable (opts : PostMigrationFinalizeOptions)

def objectStatements (catalog : DeferredTableSchema) (resolver : SchemaMap) :
    DeferredObject → List String
  | .typeCast cast => [generateColumnTypeCast catalog.targetSchema catalog.tableName cast]
  | .identity col => generateIdentityFinalize catalog.targetSchema catalog.tableName col
  | .index idx => (generateSecondaryIndex catalog.targetSchema catalog.tableName idx
      opts.createIndexesConcurrently).toList
  | .foreignKey fk =>
      generateForeignKey py.lower catalog.targetSchema catalog.tableName fk resolver
  | .check chk => generateCheckConstraint py.unicode catalog.targetSchema catalog.tableName chk
  | .default default =>
      (generateColumnDefault py.unicode catalog.targetSchema catalog.tableName default).toList
  | .trigger _ => []

/-- The requests for some objects of a plan: those that have statements. -/
def objectRequests (plan : TablePlan) (catalog : DeferredTableSchema) (resolver : SchemaMap)
    (objects : List DeferredObject) : List Request :=
  (objects.map fun object => (⟨plan, object, objectStatements py opts catalog resolver object⟩ :
    Request)).filter fun r => !r.statements.isEmpty

def requestsOf (conn : Connection D) : List Request :=
  conn.attempts.map requestOf

theorem requestsOf_applyStatements (plan : TablePlan) (object : DeferredObject)
    (key objectType : String) (statements : List String) (message failedDdl : Option String)
    (conn : Connection D) :
    requestsOf (applyStatements exec plan object key objectType statements message failedDdl
      conn).2 = requestsOf conn ++ [⟨plan, object, statements⟩] := by
  unfold applyStatements
  split
  split
  · simp [requestsOf, requestOf]
  · simp [requestsOf, requestOf]

variable (plan : TablePlan) (catalog : DeferredTableSchema) (resolver : SchemaMap)

/-- An object without statements is passed over, and one with statements has them executed. -/
inductive ObjectStep (object : DeferredObject) (conn : Connection D) :
    FinalizeObjectResult × Connection D → Prop where
  | passedOver {result : FinalizeObjectResult}
      (statements : objectStatements py opts catalog resolver object = [])
      (notApplied : result.status ≠ .applied) (notFailed : result.status ≠ .failed) :
      ObjectStep object conn (result, conn)
  | executed {key objectType : String} {statements : List String}
      {message failedDdl : Option String}
      (asked : objectStatements py opts catalog resolver object = statements)
      (nonempty : statements ≠ []) :
      ObjectStep object conn (applyStatements exec plan object key objectType statements message
        failedDdl conn)

theorem applyIndex_step (idx : DeferredSecondaryIndex) (conn : Connection D) :
    ObjectStep py exec opts plan catalog resolver (.index idx) conn
      (applyIndex exec opts plan catalog idx conn) := by
  have hstmts : objectStatements py opts catalog resolver (.index idx) =
      (generateSecondaryIndex catalog.targetSchema catalog.tableName idx
        opts.createIndexesConcurrently).toList := rfl
  unfold applyIndex
  by_cases hreason : truthy idx.unsupportedReason = true
  · rw [generateSecondaryIndex, if_pos hreason] at hstmts
    rw [if_pos hreason]
    exact .passedOver hstmts nofun nofun
  · rw [if_neg hreason]
    split
    · next hddl =>
        rw [hddl] at hstmts
        exact .passedOver hstmts nofun nofun
    · next ddl hddl =>
        rw [hddl] at hstmts
        exact .executed hstmts nofun

theorem applyForeignKey_step (fk : DeferredForeignKey) (conn : Connection D) :
    ObjectStep py exec opts plan catalog resolver (.foreignKey fk) conn
      (applyForeignKey py exec plan catalog resolver fk conn) := by
  unfold applyForeignKey
  split
  · next hnil => exact .passedOver hnil nofun nofun
  · next hne => exact .executed rfl hne

theorem applyCheck_step (chk : DeferredCheckConstraint) (conn : Connection D) :
    ObjectStep py exec opts plan catalog resolver (.check chk) conn
      (applyCheck py exec plan catalog chk conn) := by
  unfold applyCheck
  split
  · next hnil => exact .passedOver hnil nofun nofun
  · next hne => exact .executed rfl hne

theorem applyDefault_step (dflt : DeferredColumnDefault) (conn : Connection D) :
    ObjectStep py exec opts plan catalog resolver (.default dflt) conn
      (applyDefault py exec plan catalog dflt conn) := by
  have hstmts : objectStatements py opts catalog resolver (.default dflt) =
      (generateColumnDefault py.unicode catalog.targetSchema catalog.tableName dflt).toList := by
    rw [objectStatements]
  unfold applyDefault
  split
  · next hddl =>
      rw [hddl] at hstmts
      exact .passedOver hstmts nofun nofun
  · next ddl hddl =>
      rw [hddl] at hstmts
      exact .executed hstmts nofun

theorem applyObject_step (object : DeferredObject) (conn : Connection D) :
    ObjectStep py exec opts plan catalog resolver object conn
      (applyObject py exec opts plan catalog resolver conn object) := by
  cases object with
  | typeCast cast => exact .executed rfl nofun
  | identity col => exact .executed rfl nofun
  | index idx => exact applyIndex_step py exec opts plan catalog resolver idx conn
  | foreignKey fk => exact applyForeignKey_step py exec opts plan catalog resolver fk conn
  | check chk => exact applyCheck_step py exec opts plan catalog resolver chk conn
  | default dflt => exact applyDefault_step py exec opts plan catalog resolver dflt conn
  | trigger triggerName => exact .passedOver rfl nofun nofun

theorem requestsOf_applyObject (object : DeferredObject) (conn : Connection D) :
    requestsOf (applyObject py exec opts plan catalog resolver conn object).2 =
      requestsOf conn ++ objectRequests py opts plan catalog resolver [object] := by
  have hstep := applyObject_step py exec opts plan catalog resolver object conn
  generalize applyObject py exec opts plan catalog resolver conn object = out at hstep ⊢
  rw [objectRequests, List.map_singleton]
  cases hstep with
  | passedOver hnil =>
      rw [hnil]
      exact (List.append_nil _).symm
  | executed hasked hne =>
      rw [requestsOf_applyStatements, hasked, List.filter_cons_of_pos (by simpa using hne)]
      rfl

theorem requestsOf_applyObjects (objects : List DeferredObject) (conn : Connection D) :
    requestsOf (applyObjects py exec opts plan catalog resolver conn objects).2 =
      requestsOf conn ++ objectRequests py opts plan catalog resolver objects := by
  induction objects generalizing conn with
  | nil => simp [applyObjects, objectRequests]
  | cons object objects ih =>
      simp only [applyObjects]
      rw [ih, requestsOf_applyObject, List.append_assoc]
      simp only [objectRequests, ← List.filter_append, ← List.map_append, List.cons_append,
        List.nil_append]

end Requests

section Plans

variable {D : Type} (py : PythonText) (exec : String → D → Option String × D)
variable (opts : PostMigrationFinalizeOptions)

/-- The schema map after a plan. -/
def extendMap (schemaMap : SchemaMap) (plan : TablePlan) : SchemaMap :=
  if plan.passedOver then schemaMap
  else (py.lower plan.catalog.sourceSchema, plan.catalog.targetSchema) :: schemaMap

def planObjects (plan : TablePlan) : List DeferredObject :=
  if plan.passedOver then [] else tableObjects opts plan.catalog plan.columnTypeCasts

def planRequests (schemaMap : SchemaMap) (plan : TablePlan) : List Request :=
  objectRequests py opts plan plan.catalog schemaMap (planObjects opts plan)

/-- The requests of the plans from a schema map on. -/
def requests (schemaMap : SchemaMap) : List TablePlan → List Request
  | [] => []
  | plan :: plans =>
      planRequests py opts (extendMap py schemaMap plan) plan ++
        requests (extendMap py schemaMap plan) plans

/-- The keys of a schema map are in lower case. -/
def LowerKeys (schemaMap : SchemaMap) : Prop := ∀ e ∈ schemaMap, py.lower e.1 = e.1

variable {py}

attribute [local simp] requests in
theorem LowerKeys.extendMap {schemaMap : SchemaMap} (h : LowerKeys py schemaMap)
    (plan : TablePlan) : LowerKeys py (extendMap py schemaMap plan) := by
  unfold FinalizeRequests.extendMap
  split
  · exact h
  · intro e he
    cases he with
    | head => exact py.lower_lower _
    | tail _ he => exact h e he

/-- So the resolver of `finalize_table` is the schema map. -/
theorem LowerKeys.resolver {schemaMap : SchemaMap} (h : LowerKeys py schemaMap) :
    schemaMap.map (fun e => (py.lower e.1, e.2)) = schemaMap := by
  conv_rhs => rw [← List.map_id schemaMap]
  exact List.map_congr_left fun e he => by rw [h e he, id]

theorem requestsOf_finalizePlans {schemaMap : SchemaMap} (h : LowerKeys py schemaMap)
    (plans : List TablePlan) (conn : Connection D) :
    requestsOf (finalizePlans py exec opts schemaMap conn plans).2 =
      requestsOf conn ++ requests py opts schemaMap plans := by
  induction plans generalizing schemaMap conn with
  | nil => simp [finalizePlans, requests]
  | cons plan plans ih =>
      have hnext := h.extendMap plan
      by_cases hpassed : plan.passedOver = true
      · simp only [finalizePlans, if_pos hpassed, requests, planRequests, planObjects, extendMap,
          objectRequests, List.map_nil, List.filter_nil, List.nil_append]
        exact ih h conn
      · have hresolver := hnext.resolver
        simp only [extendMap, if_neg hpassed] at hnext hresolver
        simp only [finalizePlans, if_neg hpassed, requests, planRequests, planObjects, extendMap]
        rw [ih hnext, finalizeTable, hresolver, ← List.append_assoc]
        congr 1
        exact requestsOf_applyObjects py exec opts plan _ _ _ _

variable {opts}

theorem mem_planRequests_iff {schemaMap : SchemaMap} {plan : TablePlan} {r : Request} :
    r ∈ planRequests py opts schemaMap plan ↔
      r.plan = plan ∧ r.object ∈ planObjects opts plan ∧
        r.statements = objectStatements py opts plan.catalog schemaMap r.object ∧
          r.statements ≠ [] := by
  simp only [planRequests, objectRequests, List.mem_filter, List.mem_map]
  constructor
  · rintro ⟨⟨object, hobject, rfl⟩, hne⟩
    exact ⟨rfl, hobject, rfl, by simpa using hne⟩
  · rintro ⟨rfl, hobject, hstatements, hne⟩
    refine ⟨⟨r.object, hobject, ?_⟩, by simpa using hne⟩
    rw [← hstatements]

/-- A request is one of a plan in the order, under the schema map of the plans up to it. -/
theorem mem_requests_iff {schemaMap : SchemaMap} {plans : List TablePlan} {r : Request} :
    r ∈ requests py opts schemaMap plans ↔
      ∃ before after, plans = before ++ r.plan :: after ∧
        r ∈ planRequests py opts (extendMap py (before.foldl (extendMap py) schemaMap) r.plan)
          r.plan := by
  induction plans generalizing schemaMap with
  | nil =>
      simp only [requests, List.not_mem_nil, false_iff]
      rintro ⟨before, after, hsplit, -⟩
      simp at hsplit
  | cons plan plans ih =>
      rw [requests, List.mem_append, ih]
      constructor
      · rintro (hhead | ⟨before, after, hsplit, hmem⟩)
        · obtain rfl := (mem_planRequests_iff.mp hhead).1
          exact ⟨[], plans, rfl, hhead⟩
        · exact ⟨plan :: before, after, by rw [hsplit, List.cons_append], hmem⟩
      · rintro ⟨before, after, hsplit, hmem⟩
        cases before with
        | nil =>
            obtain ⟨hplan, -⟩ := List.cons.inj hsplit
            rw [hplan]
            exact Or.inl hmem
        | cons q before =>
            obtain ⟨hplan, hrest⟩ := List.cons.inj hsplit
            subst hplan
            exact Or.inr ⟨before, after, hrest, hmem⟩

end Plans

section Resolution

variable {py : PythonText} {plan : TablePlan}

theorem lookup_extendMap (h : plan.passedOver = false) (schemaMap : SchemaMap) (key : String) :
    (extendMap py schemaMap plan).lookup key =
      if key = py.lower plan.catalog.sourceSchema then some plan.catalog.targetSchema
      else schemaMap.lookup key := by
  rw [extendMap, h, if_neg Bool.false_ne_true, List.lookup_cons]
  split
  · next heq => rw [if_pos (beq_iff_eq.mp heq)]
  · next hne => rw [if_neg (beq_eq_false_iff_ne.mp hne)]

/-- Where an entry of a schema map comes from. -/
theorem exists_of_lookup_foldl {before : List TablePlan} {schemaMap : SchemaMap} {key : String}
    {target : Ident} (h : (before.foldl (extendMap py) schemaMap).lookup key = some target) :
    schemaMap.lookup key = some target ∨
      ∃ q ∈ before, q.passedOver = false ∧ py.lower q.catalog.sourceSchema = key ∧
        q.catalog.targetSchema = target := by
  induction before generalizing schemaMap with
  | nil => exact Or.inl h
  | cons q before ih =>
      cases ih h with
      | inr hlater =>
          obtain ⟨q', hq', hq''⟩ := hlater
          exact Or.inr ⟨q', List.mem_cons_of_mem _ hq', hq''⟩
      | inl hhere =>
          cases hpassed : q.passedOver with
          | true =>
              rw [extendMap, if_pos hpassed] at hhere
              exact Or.inl hhere
          | false =>
              rw [lookup_extendMap hpassed] at hhere
              split at hhere
              · next hkey =>
                  exact Or.inr ⟨q, List.mem_cons_self, hpassed, hkey.symm,
                    Option.some.inj hhere⟩
              · exact Or.inl hhere

theorem resolveSchema_first (h : plan.passedOver = false) (fk : DeferredForeignKey) :
    resolveSchema py.lower (extendMap py [] plan) fk plan.catalog.targetSchema =
      plan.catalog.targetSchema := by
  rw [resolveSchema, lookup_extendMap h]
  split <;> rfl

theorem resolveSchema_second {q : TablePlan} (h : plan.passedOver = false)
    (hq : q.passedOver = false) {fk : DeferredForeignKey}
    (hkey : py.lower q.catalog.sourceSchema = py.lower fk.referencedSchema)
    (hne : py.lower plan.catalog.sourceSchema ≠ py.lower fk.referencedSchema) :
    resolveSchema py.lower (extendMap py (extendMap py [] q) plan) fk plan.catalog.targetSchema =
      q.catalog.targetSchema := by
  rw [resolveSchema, lookup_extendMap h, if_neg hne.symm, lookup_extendMap hq, if_pos hkey.symm]
  rfl

theorem resolveSchema_of_same {before : List TablePlan} (h : plan.passedOver = false)
    {fk : DeferredForeignKey}
    (hsame : ∀ q ∈ before, q.passedOver = false →
      py.lower q.catalog.sourceSchema = py.lower fk.referencedSchema →
        py.lower plan.catalog.sourceSchema = py.lower fk.referencedSchema ∨
          q.catalog.targetSchema = plan.catalog.targetSchema) :
    resolveSchema py.lower (extendMap py (before.foldl (extendMap py) []) plan) fk
      plan.catalog.targetSchema = plan.catalog.targetSchema := by
  rw [resolveSchema, lookup_extendMap h]
  split
  · rfl
  · next hne =>
      cases hlookup : (before.foldl (extendMap py) []).lookup (py.lower fk.referencedSchema) with
      | none => rfl
      | some target =>
          cases exists_of_lookup_foldl hlookup with
          | inl hempty => cases hempty
          | inr hfound =>
              obtain ⟨q, hq, hpassed, hkey, htarget⟩ := hfound
              rw [Option.getD_some, ← htarget]
              exact (hsame q hq hpassed hkey).resolve_left (Ne.symm hne)

end Resolution

section Objects

variable (py : PythonText) {opts : PostMigrationFinalizeOptions} {catalog : DeferredTableSchema}
variable {resolver : SchemaMap}

/-- Whether there are statements for an object. -/
def applicable : DeferredObject → Bool
  | .typeCast _ => true
  | .identity _ => true
  | .index idx => !truthy idx.unsupportedReason && !idx.keyColumns.isEmpty
  | .foreignKey fk => fk.reference.isSome
  | .check chk => !chk.isDisabled && transpileCheckExpression py.unicode chk.checkDefinition != ""
  | .default dflt => truthy (transpileDefaultExpression py.unicode dflt.defaultDefinition)
  | .trigger _ => false

variable {py}

theorem objectStatements_index_ne_nil_iff {idx : DeferredSecondaryIndex} :
    objectStatements py opts catalog resolver (.index idx) ≠ [] ↔
      applicable py (.index idx) = true := by
  unfold objectStatements generateSecondaryIndex applicable
  by_cases hreason : truthy idx.unsupportedReason = true
  · simp [hreason]
  · by_cases hkeys : idx.keyColumns = []
    · simp [hreason, hkeys]
    · simp only [hreason, hkeys, Bool.false_eq_true, if_false]
      rw [← apply_ite some]
      exact iff_of_true (List.cons_ne_nil _ _) (by simp [hkeys])

theorem objectStatements_foreignKey_ne_nil_iff {fk : DeferredForeignKey} :
    objectStatements py opts catalog resolver (.foreignKey fk) ≠ [] ↔
      applicable py (.foreignKey fk) = true := by
  rw [objectStatements, generateForeignKey, applicable]
  cases fk.reference with
  | none => simp
  | some referencedTable => simp [foreignKeyStatements]

theorem objectStatements_check_ne_nil_iff {chk : DeferredCheckConstraint} :
    objectStatements py opts catalog resolver (.check chk) ≠ [] ↔
      applicable py (.check chk) = true := by
  rw [objectStatements, generateCheckConstraint, applicable]
  by_cases hdisabled : chk.isDisabled = true
  · simp [hdisabled]
  · by_cases hexpr : transpileCheckExpression py.unicode chk.checkDefinition = ""
    · simp [hexpr]
    · simp [hdisabled, hexpr]

theorem objectStatements_default_ne_nil_iff {dflt : DeferredColumnDefault} :
    objectStatements py opts catalog resolver (.default dflt) ≠ [] ↔
      applicable py (.default dflt) = true := by
  simp only [objectStatements, applicable]
  unfold generateColumnDefault
  cases transpileDefaultExpression py.unicode dflt.defaultDefinition with
  | none => simp [truthy]
  | some expr =>
      by_cases hexpr : expr = ""
      · simp [truthy, hexpr]
      · simp [truthy, hexpr]

theorem objectStatements_ne_nil_iff (object : DeferredObject) :
    objectStatements py opts catalog resolver object ≠ [] ↔ applicable py object = true := by
  cases object with
  | typeCast cast => exact ⟨fun _ => rfl, fun _ => nofun⟩
  | identity col => exact ⟨fun _ => rfl, fun _ => nofun⟩
  | index idx => exact objectStatements_index_ne_nil_iff
  | foreignKey fk => exact objectStatements_foreignKey_ne_nil_iff
  | check chk => exact objectStatements_check_ne_nil_iff
  | default dflt => exact objectStatements_default_ne_nil_iff
  | trigger triggerName => exact ⟨fun h => absurd rfl h, nofun⟩

/-- The section of `finalize_table` an object belongs to. -/
def sectionOf : DeferredObject → Nat
  | .typeCast _ => 0
  | .identity _ => 1
  | .index _ => 2
  | .foreignKey _ => 3
  | .check _ => 4
  | .default _ => 5
  | .trigger _ => 6

/-- Objects in the order of the sections, none after a given one. -/
structure SortedTo (n : Nat) (objects : List DeferredObject) : Prop where
  sorted : objects.Pairwise fun a b => sectionOf a ≤ sectionOf b
  bounded : ∀ a ∈ objects, sectionOf a ≤ n

theorem SortedTo.append {n : Nat} {objects block : List DeferredObject} (h : SortedTo n objects)
    (hblock : ∀ b ∈ block, sectionOf b = n + 1) : SortedTo (n + 1) (objects ++ block) where
  sorted := by
    refine List.pairwise_append.mpr ⟨h.sorted, ?_, ?_⟩
    · refine List.Pairwise.imp_of_mem (fun {a b} ha hb _ => ?_) (List.pairwise_of_forall
        (fun _ _ => trivial) : block.Pairwise fun _ _ => True)
      rw [hblock a ha, hblock b hb]
    · intro a ha b hb
      rw [hblock b hb]
      exact Nat.le_succ_of_le (h.bounded a ha)
  bounded := by
    intro a ha
    cases List.mem_append.mp ha with
    | inl ha => exact Nat.le_succ_of_le (h.bounded a ha)
    | inr ha => exact (hblock a ha).le

theorem SortedTo.append_section {α : Type} {n : Nat} {objects : List DeferredObject}
    (h : SortedTo n objects) (wanted : Bool) {f : α → DeferredObject}
    (hf : ∀ x, sectionOf (f x) = n + 1) (xs : List α) :
    SortedTo (n + 1) (objects ++ if wanted then xs.map f else []) := by
  refine h.append fun b hb => ?_
  split at hb
  · obtain ⟨x, -, rfl⟩ := List.mem_map.mp hb
    exact hf x
  · cases hb

theorem sortedTo_casts (casts : List ColumnTypeCast) : SortedTo 0 (casts.map .typeCast) where
  sorted := List.pairwise_map.mpr (List.pairwise_of_forall fun _ _ => Nat.le_refl 0)
  bounded := by
    intro a ha
    obtain ⟨cast, -, rfl⟩ := List.mem_map.mp ha
    exact Nat.le_refl 0

theorem sortedTo_tableObjects (casts : List ColumnTypeCast) :
    SortedTo 6 (tableObjects opts catalog casts) := by
  have hidentities := (sortedTo_casts casts).append_section opts.finalizeIdentities
    (f := .identity) (fun _ => rfl) catalog.identityColumns
  have hindexes := hidentities.append_section opts.finalizeIndexes
    (f := .index) (fun _ => rfl) catalog.secondaryIndexes
  have hforeignKeys := hindexes.append_section opts.finalizeForeignKeys
    (f := .foreignKey) (fun _ => rfl) catalog.foreignKeys
  have hchecks := hforeignKeys.append_section opts.finalizeCheckConstraints
    (f := .check) (fun _ => rfl) catalog.checkConstraints
  have hdefaults := hchecks.append_section opts.finalizeDefaults
    (f := .default) (fun _ => rfl) catalog.columnDefaults
  exact hdefaults.append_section opts.finalizeTriggers
    (f := .trigger) (fun _ => rfl) catalog.triggers

end Objects

section Log

variable {D : Type} {py : PythonText} {exec : String → D → Option String × D}
variable {opts : PostMigrationFinalizeOptions}

/-- The requests for a plan are made in the order of the sections. -/
theorem pairwise_planRequests (schemaMap : SchemaMap) (plan : TablePlan) :
    (planRequests py opts schemaMap plan).Pairwise fun r r' =>
      sectionOf r.object ≤ sectionOf r'.object := by
  refine List.Pairwise.filter _ (List.pairwise_map.mpr ?_)
  unfold planObjects
  split
  · exact List.Pairwise.nil
  · exact (sortedTo_tableObjects plan.columnTypeCasts).sorted

theorem mem_plans_of_mem_requests {schemaMap : SchemaMap} {plans : List TablePlan} {r : Request}
    (h : r ∈ requests py opts schemaMap plans) : r.plan ∈ plans := by
  obtain ⟨before, after, hsplit, -⟩ := mem_requests_iff.mp h
  rw [hsplit]
  exact List.mem_append_right _ List.mem_cons_self

theorem pairwise_requests {schemaMap : SchemaMap} {plans : List TablePlan}
    (hdistinct : plans.Nodup) :
    (requests py opts schemaMap plans).Pairwise fun r r' =>
      r.plan = r'.plan → sectionOf r.object ≤ sectionOf r'.object := by
  induction plans generalizing schemaMap with
  | nil => exact List.Pairwise.nil
  | cons plan plans ih =>
      obtain ⟨hfresh, hrest⟩ := List.nodup_cons.mp hdistinct
      refine List.pairwise_append.mpr
        ⟨(pairwise_planRequests _ plan).imp ?_, ih hrest, ?_⟩
      · intro r r' hle _
        exact hle
      · intro r hr r' hr' hsame
        refine absurd (mem_plans_of_mem_requests hr') ?_
        rw [← hsame, (mem_planRequests_iff.mp hr).1]
        exact hfresh

/-- What every execution of statements keeps, an object keeps. -/
theorem applyObject_preserves {P : Connection D → Prop}
    (hstep : ∀ plan object key objectType statements message failedDdl conn, P conn →
      P (applyStatements exec plan object key objectType statements message failedDdl conn).2)
    (plan : TablePlan) (catalog : DeferredTableSchema) (resolver : SchemaMap)
    (object : DeferredObject) {conn : Connection D} (h : P conn) :
    P (applyObject py exec opts plan catalog resolver conn object).2 := by
  have hobject := applyObject_step py exec opts plan catalog resolver object conn
  generalize applyObject py exec opts plan catalog resolver conn object = out at hobject ⊢
  cases hobject with
  | passedOver => exact h
  | executed => exact hstep _ _ _ _ _ _ _ _ h

theorem applyObjects_preserves {P : Connection D → Prop}
    (hstep : ∀ plan object key objectType statements message failedDdl conn, P conn →
      P (applyStatements exec plan object key objectType statements message failedDdl conn).2)
    (plan : TablePlan) (catalog : DeferredTableSchema) (resolver : SchemaMap)
    (objects : List DeferredObject) {conn : Connection D} (h : P conn) :
    P (applyObjects py exec opts plan catalog resolver conn objects).2 := by
  induction objects generalizing conn with
  | nil => exact h
  | cons object objects ih =>
      exact ih (applyObject_preserves hstep plan catalog resolver object h)

theorem finalizePlans_preserves {P : Connection D → Prop}
    (hstep : ∀ plan object key objectType statements message failedDdl conn, P conn →
      P (applyStatements exec plan object key objectType statements message failedDdl conn).2)
    (schemaMap : SchemaMap) (plans : List TablePlan) {conn : Connection D} (h : P conn) :
    P (finalizePlans py exec opts schemaMap conn plans).2 := by
  induction plans generalizing schemaMap conn with
  | nil => exact h
  | cons plan plans ih =>
      simp only [finalizePlans]
      split
      · exact ih schemaMap h
      · exact ih _ (applyObjects_preserves hstep _ _ _ _ h)

/-- An attempt ends the way its statements end in some state of the target. -/
def Executed (exec : String → D → Option String × D) (a : Attempt) : Prop :=
  ∃ db, a.error = (executeStatements exec a.statements db).1

theorem executed_of_mem_attempts {schemaMap : SchemaMap} {plans : List TablePlan} {db : D}
    {a : Attempt} (h : a ∈ (finalizePlans py exec opts schemaMap ⟨db, []⟩ plans).2.attempts) :
    Executed exec a := by
  refine finalizePlans_preserves (P := fun conn => ∀ b ∈ conn.attempts, Executed exec b)
    ?_ schemaMap plans (List.forall_mem_nil _) a h
  intro plan object key objectType statements message failedDdl conn hconn b hb
  have hlog : (applyStatements exec plan object key objectType statements message failedDdl
      conn).2.attempts = conn.attempts ++
        [⟨plan, object, statements, (executeStatements exec statements conn.db).1⟩] := by
    unfold applyStatements
    split
    next error db heq => split <;> simp [heq]
  rw [hlog] at hb
  cases List.mem_append.mp hb with
  | inl hold => exact hconn b hold
  | inr hnew =>
      rw [List.mem_singleton.mp hnew]
      exact ⟨conn.db, rfl⟩

theorem executeStatements_eq_none_of_accepted {statements : List String}
    (h : ∀ stmt ∈ statements, ∀ db, (exec stmt db).1 = none) (db : D) :
    (executeStatements exec statements db).1 = none := by
  induction statements generalizing db with
  | nil => rfl
  | cons stmt stmts ih =>
      obtain ⟨hhead, htail⟩ := List.forall_mem_cons.mp h
      unfold executeStatements
      split
      · next error _ heq => exact absurd (hhead db) (by rw [heq]; nofun)
      · exact ih htail _

end Log

end SqlOptima.FinalizeRequests
