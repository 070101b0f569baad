import SqlOptima.FinalizeRequests
import SqlOptima.TextKeys
import SqlOptima.TransformAgreement

namespace SqlOptima.FinalizeOrder

open DdlIdentifier PostMigrationDdl PostMigrationFinalizer FinalizeRequests
open JobDispatch (MigrationStatus)
open TextKeys (append_sep_inj)
open TransformAgreement (asciiTables)

section Spec

/-- A database that the finalizer is connected to. -/
structure Target where
  State : Type
  exec : String → State → Option String × State
  state : State

/-- The target never refuses the given statements. -/
def Target.Accepts (target : Target) (accepted : Set String) : Prop :=
  ∀ stmt ∈ accepted, ∀ state, (target.exec stmt state).1 = none

def inOrder (job : MigrationJobRecord) (order : List TablePlan)
    (h : order.Perm job.tablePlans) : MigrationJobRecord :=
  { job with tablePlans := order, distinct := h.nodup_iff.mpr job.distinct }

variable (py : PythonText) (opts : PostMigrationFinalizeOptions) (job : MigrationJobRecord)

/-- What the target is asked for when the table plans come in some order. -/
def attempts (targetFound : Bool) (target : Target) (order : List TablePlan)
    (h : order.Perm job.tablePlans) : List Attempt :=
  (finalizeMigrationJob py target.exec opts (some (inOrder job order h))
    targetFound target.state).2.attempts

def IsConstraint (object : DeferredObject) : Prop :=
  (∃ fk, object = .foreignKey fk) ∨ ∃ chk, object = .check chk

/-- The table of a plan is the one that a foreign key refers to. -/
def RefersTo (fk : DeferredForeignKey) (q : TablePlan) : Prop :=
  py.lower q.catalog.sourceSchema = py.lower fk.referencedSchema ∧
    fk.reference = some q.catalog.tableName

/-- A unique index over exactly the columns that a foreign key refers to. -/
structure DependsOn (fk : DeferredForeignKey) (q : TablePlan) (idx : DeferredSecondaryIndex) :
    Prop where
  refersTo : RefersTo py fk q
  deferred : idx ∈ q.catalog.secondaryIndexes
  unique : idx.isUnique = true
  total : truthy idx.filterDefinition = false
  columns : idx.keyColumns.Perm fk.referencedColumns

/-- The plans that the validation after a migration leaves out. -/
def DataFailed (plan : TablePlan) : Prop := py.lower plan.status = "failed"

/-- The outcome does not depend on the order of the table plans, and no order breaks what
finalization promises of foreign keys and failed tables. -/
structure OrderIndependent (targetFound : Bool) (accepted : Set String) : Prop where
  sameConstraints : ∀ (target : Target), target.Accepts accepted →
    ∀ (order : List TablePlan) (h : order.Perm job.tablePlans) (r : Request),
      IsConstraint r.object →
        (r ∈ (attempts py opts job targetFound target order h).map requestOf ↔
          r ∈ (attempts py opts job targetFound target job.tablePlans (.refl _)).map requestOf)
  ownSchema : ∀ (target : Target), target.Accepts accepted →
    ∀ (order : List TablePlan) (h : order.Perm job.tablePlans),
      ∀ a ∈ attempts py opts job targetFound target order h, ∀ fk, a.object = .foreignKey fk →
        ∀ q ∈ job.tablePlans, RefersTo py fk q →
          a.statements = foreignKeyStatements a.plan.catalog.targetSchema a.plan.catalog.tableName
            fk q.catalog.tableName q.catalog.targetSchema
  indexFirst : ∀ (target : Target), target.Accepts accepted →
    ∀ (order : List TablePlan) (h : order.Perm job.tablePlans) (before after : List Attempt)
      (a : Attempt), attempts py opts job targetFound target order h = before ++ a :: after →
        ∀ fk, a.object = .foreignKey fk → ∀ q ∈ job.tablePlans, (∃ idx, DependsOn py fk q idx) →
          ∃ b ∈ before, b.plan = q ∧ b.error = none ∧
            ∃ idx, DependsOn py fk q idx ∧ b.object = .index idx
  noFailedTable : ∀ (target : Target), target.Accepts accepted →
    ∀ (order : List TablePlan) (h : order.Perm job.tablePlans),
      ∀ a ∈ attempts py opts job targetFound target order h, ¬ DataFailed py a.plan

/-- A foreign key of a plan that is sent to the target. -/
def AsksFor (p : TablePlan) (fk : DeferredForeignKey) : Prop :=
  .foreignKey fk ∈ planObjects opts p ∧ fk.reference ≠ none

/-- Every foreign key stays within the target schema of its table and, where it needs a deferred
index, within its table; and failed tables have nothing deferred. -/
structure OrderGuarded (accepted : Set String) : Prop where
  sameTarget : ∀ p ∈ job.tablePlans, ∀ fk, AsksFor opts p fk →
    ∀ q ∈ job.tablePlans, q.passedOver = false →
      py.lower q.catalog.sourceSchema = py.lower fk.referencedSchema →
        py.lower p.catalog.sourceSchema = py.lower fk.referencedSchema ∨
          q.catalog.targetSchema = p.catalog.targetSchema
  ownTarget : ∀ p ∈ job.tablePlans, ∀ fk, AsksFor opts p fk →
    ∀ q ∈ job.tablePlans, RefersTo py fk q → q.catalog.targetSchema = p.catalog.targetSchema
  ownIndex : ∀ p ∈ job.tablePlans, ∀ fk, AsksFor opts p fk →
    ∀ q ∈ job.tablePlans, (∃ idx, DependsOn py fk q idx) →
      q = p ∧ ∃ idx, DependsOn py fk p idx ∧ .index idx ∈ planObjects opts p ∧
        applicable py (.index idx) = true ∧
          ∀ stmt ∈ objectStatements py opts p.catalog [] (.index idx), stmt ∈ accepted
  nothingDeferred : ∀ p ∈ job.tablePlans, DataFailed py p →
    ∀ object ∈ planObjects opts p, applicable py object = false

end Spec

section Log

variable {py : PythonText} {opts : PostMigrationFinalizeOptions} {job : MigrationJobRecord}
variable {target : Target} {order : List TablePlan} {h : order.Perm job.tablePlans}

theorem requests_attempts :
    (attempts py opts job true target order h).map requestOf = requests py opts [] order :=
  requestsOf_finalizePlans target.exec opts (List.forall_mem_nil _) order ⟨target.state, []⟩

theorem mem_requests_of_mem_attempts {a : Attempt}
    (ha : a ∈ attempts py opts job true target order h) :
    requestOf a ∈ requests py opts [] order := by
  rw [← requests_attempts (h := h)]
  exact List.mem_map_of_mem ha

theorem exists_attempt_of_mem_requests {r : Request} (hr : r ∈ requests py opts [] order) :
    ∃ a ∈ attempts py opts job true target order h, requestOf a = r := by
  rw [← requests_attempts (h := h)] at hr
  exact List.mem_map.mp hr

theorem executed_of_mem {a : Attempt} (ha : a ∈ attempts py opts job true target order h) :
    Executed target.exec a :=
  executed_of_mem_attempts ha

theorem pairwise_attempts :
    (attempts py opts job true target order h).Pairwise fun a b =>
      a.plan = b.plan → sectionOf a.object ≤ sectionOf b.object := by
  have hrequests : (requests py opts [] order).Pairwise _ :=
    pairwise_requests (h.nodup_iff.mpr job.distinct)
  rw [← requests_attempts (h := h), List.pairwise_map] at hrequests
  exact hrequests

theorem mem_before_of_section_lt {before after : List Attempt} {a b : Attempt}
    (hlog : attempts py opts job true target order h = before ++ a :: after)
    (hb : b ∈ attempts py opts job true target order h) (hplan : b.plan = a.plan)
    (hlt : sectionOf b.object < sectionOf a.object) : b ∈ before := by
  have hsorted : (attempts py opts job true target order h).Pairwise _ := pairwise_attempts
  rw [hlog] at hb hsorted
  cases List.mem_append.mp hb with
  | inl hbefore => exact hbefore
  | inr hlate =>
      obtain ⟨-, hsorted, -⟩ := List.pairwise_append.mp hsorted
      cases List.mem_cons.mp hlate with
      | inl heq =>
          rw [heq] at hlt
          exact absurd hlt (Nat.lt_irrefl _)
      | inr hafter =>
          exact absurd ((List.pairwise_cons.mp hsorted).1 b hafter hplan.symm) (Nat.not_le.mpr hlt)

/-- The requests of the plan that comes first are made before all others. -/
theorem exists_first_attempts (target : Target) {p : TablePlan} {rest : List TablePlan}
    (h : (p :: rest).Perm job.tablePlans) {r : Request}
    (hr : r ∈ planRequests py opts (extendMap py [] p) p) :
    ∃ before a after, attempts py opts job true target (p :: rest) h = before ++ a :: after ∧
      requestOf a = r ∧ ∀ b ∈ before, b.plan = p := by
  have hlog : (attempts py opts job true target (p :: rest) h).map requestOf = _ :=
    requests_attempts
  obtain ⟨first, later, hsplit, hfirst, -⟩ := List.map_eq_append_iff.mp hlog
  rw [← hfirst] at hr
  obtain ⟨a, ha, hreq⟩ := List.mem_map.mp hr
  obtain ⟨before, after, hat⟩ := List.append_of_mem ha
  refine ⟨before, a, after ++ later, ?_, hreq, fun b hb => ?_⟩
  · rw [hsplit, hat, List.append_assoc, List.cons_append]
  · have hmem : requestOf b ∈ first.map requestOf :=
      List.mem_map_of_mem (hat ▸ List.mem_append_left _ hb)
    rw [hfirst] at hmem
    exact (mem_planRequests_iff.mp hmem).1

end Log

section ForeignKeys

variable {py : PythonText} {opts : PostMigrationFinalizeOptions}

theorem passedOver_of_mem_planObjects {p : TablePlan} {object : DeferredObject}
    (h : object ∈ planObjects opts p) : p.passedOver = false := by
  cases hpassed : p.passedOver with
  | false => rfl
  | true =>
      rw [planObjects, if_pos hpassed] at h
      cases h

theorem mem_planRequests_of_applicable {p : TablePlan} {object : DeferredObject}
    (h : object ∈ planObjects opts p) (happlicable : applicable py object = true)
    (schemaMap : SchemaMap) :
    ⟨p, object, objectStatements py opts p.catalog schemaMap object⟩ ∈
      planRequests py opts schemaMap p :=
  mem_planRequests_iff.mpr ⟨rfl, h, rfl, (objectStatements_ne_nil_iff object).mpr happlicable⟩

theorem objectStatements_foreignKey {catalog : DeferredTableSchema} {schemaMap : SchemaMap}
    {fk : DeferredForeignKey} {referencedTable : Ident} (h : fk.reference = some referencedTable) :
    objectStatements py opts catalog schemaMap (.foreignKey fk) =
      foreignKeyStatements catalog.targetSchema catalog.tableName fk referencedTable
        (resolveSchema py.lower schemaMap fk catalog.targetSchema) := by
  rw [objectStatements, generateForeignKey, h]

/-- A foreign key of the plan that comes first refers to the plan's own target schema. -/
theorem AsksFor.mem_first {p : TablePlan} {fk : DeferredForeignKey} (h : AsksFor opts p fk)
    {referencedTable : Ident} (href : fk.reference = some referencedTable) :
    ⟨p, .foreignKey fk, foreignKeyStatements p.catalog.targetSchema p.catalog.tableName fk
      referencedTable p.catalog.targetSchema⟩ ∈ planRequests py opts (extendMap py [] p) p := by
  have happlicable : applicable py (.foreignKey fk) = true := Option.isSome_iff_ne_none.mpr h.2
  have hmem := mem_planRequests_of_applicable h.1 happlicable (extendMap py [] p)
  rw [objectStatements_foreignKey href,
    resolveSchema_first (passedOver_of_mem_planObjects h.1)] at hmem
  exact hmem

end ForeignKeys

section Necessary

variable {py : PythonText} {opts : PostMigrationFinalizeOptions} {job : MigrationJobRecord}
variable {accepted : Set String}

open Classical in
/-- The target that refuses all it may refuse. -/
noncomputable def refusing (accepted : Set String) : Target where
  State := Unit
  exec stmt state := (if stmt ∈ accepted then none else some "refused", state)
  state := ()

theorem refusing_accepts : (refusing accepted).Accepts accepted := fun _ hstmt _ => if_pos hstmt

theorem accepted_of_executeStatements {statements : List String}
    {state : (refusing accepted).State}
    (h : (executeStatements (refusing accepted).exec statements state).1 = none) :
    ∀ stmt ∈ statements, stmt ∈ accepted := by
  induction statements with
  | nil => exact List.forall_mem_nil _
  | cons stmt stmts ih =>
      by_cases hstmt : stmt ∈ accepted
      · have hexec : (refusing accepted).exec stmt state = (none, state) :=
          Prod.ext (if_pos hstmt) rfl
        simp only [executeStatements, hexec] at h
        exact List.forall_mem_cons.mpr ⟨hstmt, ih h⟩
      · have hexec : (refusing accepted).exec stmt state = (some "refused", state) :=
          Prod.ext (if_neg hstmt) rfl
        simp only [executeStatements, hexec] at h
        cases h

theorem perm_first {p : TablePlan} (hp : p ∈ job.tablePlans) :
    (p :: job.tablePlans.erase p).Perm job.tablePlans :=
  (List.perm_cons_erase hp).symm

theorem perm_second {p q : TablePlan} (hp : p ∈ job.tablePlans) (hq : q ∈ job.tablePlans)
    (hne : p ≠ q) :
    (q :: p :: (job.tablePlans.erase q).erase p).Perm job.tablePlans :=
  ((List.perm_cons_erase ((List.mem_erase_of_ne hne).mpr hp)).symm.cons q).trans (perm_first hq)

/-- What a plan that comes second is asked for, under the schema map of the first. -/
theorem mem_planRequests_second {p q : TablePlan} {rest : List TablePlan}
    (hdistinct : (q :: p :: rest).Nodup) {r : Request} (hplan : r.plan = p)
    (h : r ∈ requests py opts [] (q :: p :: rest)) :
    r ∈ planRequests py opts (extendMap py (extendMap py [] q) p) p := by
  obtain ⟨before, after, hsplit, hmem⟩ := mem_requests_iff.mp h
  rw [hplan] at hsplit hmem
  have hbefore : p ∉ before := by
    rw [hsplit] at hdistinct
    exact (List.nodup_cons.mp (List.nodup_middle.mp hdistinct)).1 ∘ List.mem_append_left after
  have hfirst : p ∉ [q] := by
    rw [List.mem_singleton]
    rintro rfl
    exact (List.nodup_cons.mp hdistinct).1 List.mem_cons_self
  obtain ⟨hq, -⟩ := (append_sep_inj hfirst hbefore).mp hsplit
  rw [← hq] at hmem
  exact hmem

variable (hindependent : OrderIndependent py opts job true accepted)

include hindependent

theorem sameTarget_of_orderIndependent {p q : TablePlan} (hp : p ∈ job.tablePlans)
    {fk : DeferredForeignKey} (hasks : AsksFor opts p fk) (hq : q ∈ job.tablePlans)
    (hpassed : q.passedOver = false)
    (hkey : py.lower q.catalog.sourceSchema = py.lower fk.referencedSchema)
    (hown : py.lower p.catalog.sourceSchema ≠ py.lower fk.referencedSchema) :
    q.catalog.targetSchema = p.catalog.targetSchema := by
  obtain ⟨referencedTable, href⟩ := Option.ne_none_iff_exists'.mp hasks.2
  have hne : p ≠ q := by
    rintro rfl
    exact hown hkey
  have hp' := passedOver_of_mem_planObjects hasks.1
  have hfirst := hindependent.sameConstraints _ refusing_accepts _ (perm_first hp)
    ⟨p, .foreignKey fk, foreignKeyStatements p.catalog.targetSchema p.catalog.tableName fk
      referencedTable p.catalog.targetSchema⟩ (Or.inl ⟨fk, rfl⟩)
  have hsecond := hindependent.sameConstraints _ refusing_accepts _ (perm_second hp hq hne)
    ⟨p, .foreignKey fk, foreignKeyStatements p.catalog.targetSchema p.catalog.tableName fk
      referencedTable p.catalog.targetSchema⟩ (Or.inl ⟨fk, rfl⟩)
  have hmem := hsecond.mpr (hfirst.mp (by
    rw [requests_attempts, requests]
    exact List.mem_append_left _ (hasks.mem_first href)))
  rw [requests_attempts] at hmem
  have hstatements := (mem_planRequests_iff.mp (mem_planRequests_second
    ((perm_second hp hq hne).nodup_iff.mpr job.distinct) rfl hmem)).2.2.1
  rw [objectStatements_foreignKey href, resolveSchema_second hp' hpassed hkey hown] at hstatements
  exact (foreignKeyStatements_injective hstatements).symm

theorem ownTarget_of_orderIndependent {p q : TablePlan} (hp : p ∈ job.tablePlans)
    {fk : DeferredForeignKey} (hasks : AsksFor opts p fk) (hq : q ∈ job.tablePlans)
    (hrefers : RefersTo py fk q) : q.catalog.targetSchema = p.catalog.targetSchema := by
  obtain ⟨before, a, after, hlog, hreq, -⟩ :=
    exists_first_attempts (refusing accepted) (perm_first hp) (hasks.mem_first hrefers.2)
  obtain ⟨rfl, hobject, hstatements⟩ := Request.mk.inj hreq
  have hown := hindependent.ownSchema _ refusing_accepts _ (perm_first hp) a
    (hlog ▸ List.mem_append_right _ List.mem_cons_self) fk hobject q hq hrefers
  exact (foreignKeyStatements_injective (hstatements.symm.trans hown)).symm

theorem ownIndex_of_orderIndependent {p q : TablePlan} (hp : p ∈ job.tablePlans)
    {fk : DeferredForeignKey} (hasks : AsksFor opts p fk) (hq : q ∈ job.tablePlans)
    (hdepends : ∃ idx, DependsOn py fk q idx) :
    q = p ∧ ∃ idx, DependsOn py fk p idx ∧ .index idx ∈ planObjects opts p ∧
      applicable py (.index idx) = true ∧
        ∀ stmt ∈ objectStatements py opts p.catalog [] (.index idx), stmt ∈ accepted := by
  obtain ⟨referencedTable, href⟩ := Option.ne_none_iff_exists'.mp hasks.2
  obtain ⟨before, a, after, hlog, hreq, hfirst⟩ :=
    exists_first_attempts (refusing accepted) (perm_first hp) (hasks.mem_first href)
  obtain ⟨-, hobject, -⟩ := Request.mk.inj hreq
  obtain ⟨b, hb, hplan, hnone, idx, hidx, hindex⟩ := hindependent.indexFirst _ refusing_accepts _
    (perm_first hp) before after a hlog fk hobject q hq hdepends
  have hqp : q = p := hplan.symm.trans (hfirst b hb)
  have hmem : b ∈ attempts py opts job true (refusing accepted) _ (perm_first hp) :=
    hlog ▸ List.mem_append_left _ hb
  obtain ⟨_, _, -, hplanned⟩ := mem_requests_iff.mp (mem_requests_of_mem_attempts hmem)
  obtain ⟨-, hobjects, hstatements, hne⟩ := mem_planRequests_iff.mp hplanned
  obtain ⟨state, herror⟩ := executed_of_mem hmem
  simp only [requestOf, hplan, hqp, hindex] at hobjects hstatements hne
  rw [hstatements] at hne
  refine ⟨hqp, idx, hqp ▸ hidx, hobjects, (objectStatements_ne_nil_iff _).mp hne, ?_⟩
  have haccepted := accepted_of_executeStatements (herror.symm.trans hnone)
  rw [hstatements] at haccepted
  exact haccepted

theorem nothingDeferred_of_orderIndependent {p : TablePlan} (hp : p ∈ job.tablePlans)
    (hfailed : DataFailed py p) {object : DeferredObject} (hobject : object ∈ planObjects opts p) :
    applicable py object = false := by
  by_contra happlicable
  obtain ⟨before, a, after, hlog, hreq, -⟩ :=
    exists_first_attempts (refusing accepted) (perm_first hp) (mem_planRequests_of_applicable
      hobject (Bool.eq_true_of_not_eq_false happlicable) (extendMap py [] p))
  obtain ⟨rfl, -, -⟩ := Request.mk.inj hreq
  exact hindependent.noFailedTable _ refusing_accepts _ (perm_first hp) a
    (hlog ▸ List.mem_append_right _ List.mem_cons_self) hfailed

theorem guarded_of_orderIndependent : OrderGuarded py opts job accepted where
  sameTarget _ hp _ hasks _ hq hpassed hkey := or_iff_not_imp_left.mpr fun hown =>
    sameTarget_of_orderIndependent hindependent hp hasks hq hpassed hkey hown
  ownTarget _ hp _ hasks _ hq hrefers :=
    ownTarget_of_orderIndependent hindependent hp hasks hq hrefers
  ownIndex _ hp _ hasks _ hq hdepends :=
    ownIndex_of_orderIndependent hindependent hp hasks hq hdepends
  nothingDeferred _ hp hfailed _ hobject :=
    nothingDeferred_of_orderIndependent hindependent hp hfailed hobject

end Necessary

section Sufficient

variable {py : PythonText} {opts : PostMigrationFinalizeOptions} {job : MigrationJobRecord}
variable {accepted : Set String} (hguarded : OrderGuarded py opts job accepted)

include hguarded

/-- Under the guard a foreign key refers to the target schema of its own table. -/
theorem OrderGuarded.objectStatements_eq {before after : List TablePlan} {p : TablePlan}
    (h : (before ++ p :: after).Perm job.tablePlans) {object : DeferredObject}
    (hobject : object ∈ planObjects opts p) :
    objectStatements py opts p.catalog (extendMap py (before.foldl (extendMap py) []) p) object =
      objectStatements py opts p.catalog [] object := by
  cases object with
  | foreignKey fk =>
      cases href : fk.reference with
      | none => simp only [objectStatements, generateForeignKey, href]
      | some referencedTable =>
          have hp : p ∈ job.tablePlans :=
            h.mem_iff.mp (List.mem_append_right _ List.mem_cons_self)
          have hasks : AsksFor opts p fk := ⟨hobject, href ▸ Option.some_ne_none _⟩
          rw [objectStatements_foreignKey href, objectStatements_foreignKey href,
            resolveSchema_of_same (passedOver_of_mem_planObjects hobject)]
          · rfl
          · intro q hq hpassed hkey
            exact hguarded.sameTarget p hp fk hasks q
              (h.mem_iff.mp (List.mem_append_left _ hq)) hpassed hkey
  | _ => rfl

theorem OrderGuarded.mem_requests_iff {order : List TablePlan} (h : order.Perm job.tablePlans)
    {r : Request} :
    r ∈ requests py opts [] order ↔
      r.plan ∈ job.tablePlans ∧ r.object ∈ planObjects opts r.plan ∧
        r.statements = objectStatements py opts r.plan.catalog [] r.object ∧
          r.statements ≠ [] := by
  rw [FinalizeRequests.mem_requests_iff]
  constructor
  · rintro ⟨before, after, rfl, hmem⟩
    obtain ⟨-, hobject, hstatements, hne⟩ := mem_planRequests_iff.mp hmem
    rw [hguarded.objectStatements_eq h hobject] at hstatements
    exact ⟨h.mem_iff.mp (List.mem_append_right _ List.mem_cons_self), hobject, hstatements, hne⟩
  · rintro ⟨hplan, hobject, hstatements, hne⟩
    obtain ⟨before, after, rfl⟩ := List.append_of_mem (h.mem_iff.mpr hplan)
    rw [← hguarded.objectStatements_eq h hobject] at hstatements
    exact ⟨before, after, rfl, mem_planRequests_iff.mpr ⟨rfl, hobject, hstatements, hne⟩⟩

variable {target : Target} {order : List TablePlan} {h : order.Perm job.tablePlans}

theorem OrderGuarded.of_mem_attempts {a : Attempt}
    (ha : a ∈ attempts py opts job true target order h) :
    a.plan ∈ job.tablePlans ∧ a.object ∈ planObjects opts a.plan ∧
      a.statements = objectStatements py opts a.plan.catalog [] a.object ∧ a.statements ≠ [] :=
  (hguarded.mem_requests_iff h).mp (mem_requests_of_mem_attempts ha)

theorem OrderGuarded.ownSchema {a : Attempt} (ha : a ∈ attempts py opts job true target order h)
    {fk : DeferredForeignKey} (hobject : a.object = .foreignKey fk) {q : TablePlan}
    (hq : q ∈ job.tablePlans) (hrefers : RefersTo py fk q) :
    a.statements = foreignKeyStatements a.plan.catalog.targetSchema a.plan.catalog.tableName fk
      q.catalog.tableName q.catalog.targetSchema := by
  obtain ⟨hp, hplanned, hstatements, -⟩ := hguarded.of_mem_attempts ha
  rw [hobject] at hplanned hstatements
  have hasks : AsksFor opts a.plan fk := ⟨hplanned, hrefers.2 ▸ Option.some_ne_none _⟩
  rw [hstatements, objectStatements_foreignKey hrefers.2,
    hguarded.ownTarget a.plan hp fk hasks q hq hrefers]
  rfl

/-- An accepted index of a table is created. -/
theorem OrderGuarded.exists_created (h : order.Perm job.tablePlans)
    (haccepts : target.Accepts accepted) {p : TablePlan} (hp : p ∈ job.tablePlans)
    {idx : DeferredSecondaryIndex} (hindex : .index idx ∈ planObjects opts p)
    (happlicable : applicable py (.index idx) = true)
    (haccepted : ∀ stmt ∈ objectStatements py opts p.catalog [] (.index idx), stmt ∈ accepted) :
    ∃ b ∈ attempts py opts job true target order h,
      b.plan = p ∧ b.object = .index idx ∧ b.error = none := by
  have hne : objectStatements py opts p.catalog [] (.index idx) ≠ [] :=
    (objectStatements_ne_nil_iff _).mpr happlicable
  have hmem : ⟨p, .index idx, objectStatements py opts p.catalog [] (.index idx)⟩ ∈
      requests py opts [] order :=
    (hguarded.mem_requests_iff h).mpr ⟨hp, hindex, rfl, hne⟩
  obtain ⟨b, hb, hreq⟩ : ∃ b ∈ attempts py opts job true target order h, requestOf b = _ :=
    exists_attempt_of_mem_requests hmem
  obtain ⟨hplan, hobject, hstatements⟩ := Request.mk.inj hreq
  obtain ⟨state, herror⟩ := executed_of_mem hb
  refine ⟨b, hb, hplan, hobject, ?_⟩
  rw [herror, hstatements]
  exact executeStatements_eq_none_of_accepted
    (fun stmt hstmt => haccepts stmt (haccepted stmt hstmt)) state

theorem OrderGuarded.indexFirst (haccepts : target.Accepts accepted) {before after : List Attempt}
    {a : Attempt} (hlog : attempts py opts job true target order h = before ++ a :: after)
    {fk : DeferredForeignKey} (hobject : a.object = .foreignKey fk) {q : TablePlan}
    (hq : q ∈ job.tablePlans) (hdepends : ∃ idx, DependsOn py fk q idx) :
    ∃ b ∈ before, b.plan = q ∧ b.error = none ∧
      ∃ idx, DependsOn py fk q idx ∧ b.object = .index idx := by
  have ha : a ∈ attempts py opts job true target order h :=
    hlog ▸ List.mem_append_right _ List.mem_cons_self
  obtain ⟨hp, hplanned, -, -⟩ := hguarded.of_mem_attempts ha
  rw [hobject] at hplanned
  have hreference : fk.reference ≠ none := by
    obtain ⟨_, hidx⟩ := hdepends
    rw [hidx.refersTo.2]
    exact Option.some_ne_none _
  obtain ⟨hqp, idx, hidx, hindex, happlicable, haccepted⟩ :=
    hguarded.ownIndex a.plan hp fk ⟨hplanned, hreference⟩ q hq hdepends
  obtain ⟨b, hb, hplan, hcreated, hnone⟩ :=
    hguarded.exists_created h haccepts hp hindex happlicable haccepted
  refine ⟨b, ?_, hplan.trans hqp.symm, hnone, idx, hqp ▸ hidx, hcreated⟩
  -- the sections put the index of a table before its foreign keys
  refine mem_before_of_section_lt hlog hb hplan ?_
  rw [hcreated, hobject]
  exact Nat.lt_succ_self 2

theorem OrderGuarded.noFailedTable {a : Attempt}
    (ha : a ∈ attempts py opts job true target order h) : ¬ DataFailed py a.plan := by
  intro hfailed
  obtain ⟨hp, hplanned, hstatements, hne⟩ := hguarded.of_mem_attempts ha
  rw [hstatements] at hne
  have happlicable := (objectStatements_ne_nil_iff _).mp hne
  rw [hguarded.nothingDeferred a.plan hp hfailed a.object hplanned] at happlicable
  cases happlicable

theorem orderIndependent_of_guarded : OrderIndependent py opts job true accepted where
  sameConstraints target _ order h r _ := by
    rw [requests_attempts, requests_attempts, hguarded.mem_requests_iff h,
      hguarded.mem_requests_iff (.refl _)]
  ownSchema _ _ _ _ _ ha _ hobject _ hq hrefers := hguarded.ownSchema ha hobject hq hrefers
  indexFirst _ haccepts _ _ _ _ _ hlog _ hobject _ hq hdepends :=
    hguarded.indexFirst haccepts hlog hobject hq hdepends
  noFailedTable _ _ _ _ _ ha := hguarded.noFailedTable ha

end Sufficient

section Exactness

theorem attempts_not_found {py : PythonText} {opts : PostMigrationFinalizeOptions}
    {job : MigrationJobRecord} {target : Target} {order : List TablePlan}
    {h : order.Perm job.tablePlans} : attempts py opts job false target order h = [] := rfl

theorem orderIndependent_iff (py : PythonText) (opts : PostMigrationFinalizeOptions)
    (job : MigrationJobRecord) (targetFound : Bool) (accepted : Set String) :
    OrderIndependent py opts job targetFound accepted ↔
      (targetFound = true → OrderGuarded py opts job accepted) := by
  cases targetFound with
  | true =>
      constructor
      · intro hindependent _
        exact guarded_of_orderIndependent hindependent
      · intro hguarded
        exact orderIndependent_of_guarded (hguarded rfl)
  | false =>
      refine ⟨fun _ => nofun, fun _ => ⟨fun _ _ _ _ _ _ => Iff.rfl, ?_, ?_, ?_⟩⟩
      · intro target _ order h a ha
        rw [attempts_not_found] at ha
        cases ha
      · intro target _ order h before after a hlog
        rw [attempts_not_found] at hlog
        exact absurd hlog.symm
          (List.append_ne_nil_of_right_ne_nil before (List.cons_ne_nil a after))
      · intro target _ order h a ha
        rw [attempts_not_found] at ha
        cases ha

/-- `lower` where it is needed below. -/
def salesText : PythonText where
  unicode := asciiTables
  lower text := if text = "Sales" then "sales" else text
  lower_lower text := by
    by_cases h : text = "Sales"
    · simp [h]
    · simp [h]

def customerKey : DeferredForeignKey where
  constraintName := ⟨"FK_Orders_Customer", by decide⟩
  columns := [⟨"CustomerId", by decide⟩]
  referencedSchema := "Sales"
  referencedTable := some ⟨"Customer", by decide⟩
  referencedColumns := [⟨"Id", by decide⟩]

def ordersPlan : TablePlan where
  migrationTablePlanId := 1
  schemaName := some "dbo"
  tableName := ⟨"Orders", by decide⟩
  targetSchema := some "public"
  status := "completed"
  deferredSchema := some
    { sourceSchema := "dbo"
      tableName := ⟨"Orders", by decide⟩
      targetSchema := publicSchema
      foreignKeys := [customerKey] }
  columnTypeCasts := []

def customerPlan : TablePlan where
  migrationTablePlanId := 2
  schemaName := some "Sales"
  tableName := ⟨"Customer", by decide⟩
  targetSchema := some "sales"
  status := "completed"
  deferredSchema := some
    { sourceSchema := "Sales"
      tableName := ⟨"Customer", by decide⟩
      targetSchema := ⟨"sales", by decide⟩ }
  columnTypeCasts := []

def salesJob : MigrationJobRecord where
  status := .completed
  tablePlans := [ordersPlan, customerPlan]
  distinct := by decide

/-- The orders' foreign key refers to a table `public.Customer` that does not exist. -/
theorem customer_key_in_wrong_schema :
    ¬ OrderIndependent salesText {} salesJob true Set.univ := by
  intro hindependent
  have hasks : AsksFor {} ordersPlan customerKey := ⟨by decide, by decide⟩
  exact absurd (ownTarget_of_orderIndependent hindependent List.mem_cons_self hasks
    (List.mem_cons_of_mem _ List.mem_cons_self) (q := customerPlan) ⟨by decide, by decide⟩)
    (by decide)

end Exactness

end SqlOptima.FinalizeOrder
