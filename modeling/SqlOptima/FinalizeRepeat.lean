import SqlOptima.FinalizeRequests
import SqlOptima.TransformAgreement

namespace SqlOptima.FinalizeRepeat

open DdlIdentifier PostMigrationDdl PostMigrationFinalizer FinalizeRequests
open TransformAgreement (asciiTables)

section Server

/-- What a server remembers of the statements sent to it: how many there were, and which of them
have taken effect. -/
structure ServerState where
  sent : Nat
  taken : List String

variable (once : String → Bool)

/-- A statement that creates something is refused once it has taken effect; besides, the server
may be out of order when the `n`-th statement comes. -/
def execOnce (outage : Nat → Option String) (stmt : String) (server : ServerState) :
    Option String × ServerState :=
  match outage server.sent with
  | some error => (some error, { server with sent := server.sent + 1 })
  | none =>
      if once stmt && decide (stmt ∈ server.taken) then
        (some "already exists", { server with sent := server.sent + 1 })
      else (none, ⟨server.sent + 1, server.taken ++ [stmt]⟩)

end Server

section Spec

variable (py : PythonText) (once : String → Bool) (opts : PostMigrationFinalizeOptions)
variable (plan : TablePlan) (catalog : DeferredTableSchema) (schemaMap : SchemaMap)
variable (casts : List ColumnTypeCast)

def runTable (outage : Nat → Option String) (server : ServerState) :
    FinalizeTableResult × Connection ServerState :=
  finalizeTable py (execOnce once outage) opts plan catalog schemaMap casts ⟨server, []⟩

def firstRun (outage : Nat → Option String) : FinalizeTableResult × Connection ServerState :=
  runTable py once opts plan catalog schemaMap casts outage ⟨0, []⟩

/-- The run after it, when the server is in order. -/
def secondRun (outage : Nat → Option String) : FinalizeTableResult × Connection ServerState :=
  runTable py once opts plan catalog schemaMap casts (fun _ => none)
    (firstRun py once opts plan catalog schemaMap casts outage).2.db

def statusAt (run : FinalizeTableResult × Connection ServerState) (i : Nat) :
    Option FinalizeObjectStatus :=
  run.1.objects[i]?.map (·.status)

def tableResolver : SchemaMap := schemaMap.map fun e => (py.lower e.1, e.2)

/-- The connection that an object finds in the first run after the objects before it. -/
def reached (outage : Nat → Option String) (before : List DeferredObject) :
    Connection ServerState :=
  (applyObjects py (execOnce once outage) opts plan catalog (tableResolver py schemaMap)
    ⟨⟨0, []⟩, []⟩ before).2

/-- Whatever fails in a first run, a second one completes it. -/
structure Repeatable : Prop where
  appliedAgain : ∀ outage i,
    statusAt (firstRun py once opts plan catalog schemaMap casts outage) i = some .applied →
      statusAt (secondRun py once opts plan catalog schemaMap casts outage) i = some .applied
  restApplied : ∀ outage i,
    statusAt (firstRun py once opts plan catalog schemaMap casts outage) i = some .failed →
      statusAt (secondRun py once opts plan catalog schemaMap casts outage) i = some .applied
  noPartialEffect : ∀ outage before object after,
    tableObjects opts catalog casts = before ++ object :: after →
      let conn := reached py once opts plan catalog schemaMap outage before
      let step := applyObject py (execOnce once outage) opts plan catalog
        (tableResolver py schemaMap) conn object
      step.1.status = .failed → step.2.db.taken = conn.db.taken

/-- Objects that have one statement, which creates nothing. -/
def repeatableObject : DeferredObject → Prop
  | .typeCast cast =>
      once (generateColumnTypeCast catalog.targetSchema catalog.tableName cast) = false
  | .index idx => ∀ ddl, generateSecondaryIndex catalog.targetSchema catalog.tableName idx
      opts.createIndexesConcurrently = some ddl → once ddl = false
  | .default dflt => ∀ ddl, generateColumnDefault py.unicode catalog.targetSchema catalog.tableName
      dflt = some ddl → once ddl = false
  | .identity _ => False
  | .foreignKey _ => False
  | .check _ => False
  | .trigger _ => True

/-- Nothing is sent but objects that can be repeated. -/
def OnlyRepeatable : Prop :=
  ∀ object ∈ tableObjects opts catalog casts, applicable py object = true →
    repeatableObject py once opts catalog object

end Spec

section Objects

variable {D : Type} {py : PythonText} {exec : String → D → Option String × D}
variable {opts : PostMigrationFinalizeOptions} {plan : TablePlan} {catalog : DeferredTableSchema}
variable {resolver : SchemaMap}

theorem applyObjects_append (before after : List DeferredObject) (conn : Connection D) :
    applyObjects py exec opts plan catalog resolver conn (before ++ after) =
      let (results, conn) := applyObjects py exec opts plan catalog resolver conn before
      let (results', conn) := applyObjects py exec opts plan catalog resolver conn after
      (results ++ results', conn) := by
  induction before generalizing conn with
  | nil => rfl
  | cons object before ih =>
      simp only [List.cons_append, applyObjects, ih]

/-- What holds of every object and its result holds along the whole table. -/
theorem forall₂_applyObjects {P : DeferredObject → FinalizeObjectResult → Prop}
    {objects : List DeferredObject}
    (hstep : ∀ object ∈ objects, ∀ conn : Connection D,
      P object (applyObject py exec opts plan catalog resolver conn object).1)
    (conn : Connection D) :
    List.Forall₂ P objects
      (applyObjects py exec opts plan catalog resolver conn objects).1 := by
  induction objects generalizing conn with
  | nil => exact .nil
  | cons object objects ih =>
      refine .cons (hstep object List.mem_cons_self conn) (ih ?_ _)
      intro o ho
      exact hstep o (List.mem_cons_of_mem _ ho)

theorem length_applyObjects (objects : List DeferredObject) (conn : Connection D) :
    (applyObjects py exec opts plan catalog resolver conn objects).1.length = objects.length :=
  (forall₂_applyObjects (P := fun _ _ => True) (fun _ _ _ => trivial) conn).length_eq.symm

theorem getElem?_applyObjects (before after : List DeferredObject) (object : DeferredObject)
    (conn : Connection D) :
    (applyObjects py exec opts plan catalog resolver conn (before ++ object :: after)).1[
        before.length]? =
      some (applyObject py exec opts plan catalog resolver
        (applyObjects py exec opts plan catalog resolver conn before).2 object).1 := by
  simp only [applyObjects_append, applyObjects]
  rw [List.getElem?_append_right (length_applyObjects before conn).le, length_applyObjects,
    Nat.sub_self]
  rfl

theorem applyStatements_status (object : DeferredObject) (key objectType : String)
    (statements : List String) (message failedDdl : Option String) (conn : Connection D) :
    (applyStatements exec plan object key objectType statements message failedDdl conn).1.status =
      if (executeStatements exec statements conn.db).1 = none then .applied else .failed := by
  unfold applyStatements
  split
  next error db heq => split <;> simp [heq]

theorem applyStatements_db (object : DeferredObject) (key objectType : String)
    (statements : List String) (message failedDdl : Option String) (conn : Connection D) :
    (applyStatements exec plan object key objectType statements message failedDdl conn).2.db =
      (executeStatements exec statements conn.db).2 := by
  unfold applyStatements
  split
  next error db heq => split <;> simp [heq]

theorem applyObject_passedOver {object : DeferredObject} (h : applicable py object = false)
    (conn : Connection D) :
    (applyObject py exec opts plan catalog resolver conn object).2 = conn := by
  have hstep := applyObject_step py exec opts plan catalog resolver object conn
  generalize applyObject py exec opts plan catalog resolver conn object = out at hstep ⊢
  cases hstep with
  | passedOver => rfl
  | executed hasked hne =>
      rw [← hasked, objectStatements_ne_nil_iff, h] at hne
      cases hne

theorem applyObject_executed {object : DeferredObject} (h : applicable py object = true)
    (conn : Connection D) :
    let step := applyObject py exec opts plan catalog resolver conn object
    let run := executeStatements exec (objectStatements py opts catalog resolver object) conn.db
    step.1.status = (if run.1 = none then .applied else .failed) ∧ step.2.db = run.2 := by
  have hstep := applyObject_step py exec opts plan catalog resolver object conn
  generalize applyObject py exec opts plan catalog resolver conn object = out at hstep ⊢
  cases hstep with
  | passedOver hnil => exact absurd hnil ((objectStatements_ne_nil_iff object).mpr h)
  | executed hasked hne =>
      rw [hasked]
      exact ⟨applyStatements_status .., applyStatements_db ..⟩

end Objects

section Server

variable {once : String → Bool} {outage : Nat → Option String} {stmt : String}
variable {server : ServerState}

theorem execOnce_outage {error : String} (h : outage server.sent = some error) :
    execOnce once outage stmt server = (some error, { server with sent := server.sent + 1 }) := by
  rw [execOnce, h]

theorem execOnce_accepted (hup : outage server.sent = none)
    (h : once stmt = false ∨ stmt ∉ server.taken) :
    execOnce once outage stmt server = (none, ⟨server.sent + 1, server.taken ++ [stmt]⟩) := by
  have hfree : ¬ (once stmt && decide (stmt ∈ server.taken)) = true := by
    rw [Bool.and_eq_true, decide_eq_true_eq]
    rintro ⟨honce, htaken⟩
    cases h with
    | inl hrepeat => exact Bool.false_ne_true (hrepeat.symm.trans honce)
    | inr hnew => exact hnew htaken
  rw [execOnce, hup]
  exact if_neg hfree

theorem execOnce_refused (honce : once stmt = true) (htaken : stmt ∈ server.taken) :
    (execOnce once outage stmt server).1 ≠ none := by
  unfold execOnce
  split
  · exact Option.some_ne_none _
  · rw [if_pos (by rw [honce, decide_eq_true htaken]; rfl)]
    exact Option.some_ne_none _

theorem taken_subset_execOnce : server.taken ⊆ (execOnce once outage stmt server).2.taken := by
  unfold execOnce
  split
  · exact List.Subset.refl _
  · split
    · exact List.Subset.refl _
    · exact List.subset_append_left _ _

theorem taken_subset_executeStatements (statements : List String) (server : ServerState) :
    server.taken ⊆ (executeStatements (execOnce once outage) statements server).2.taken := by
  induction statements generalizing server with
  | nil => exact List.Subset.refl _
  | cons stmt stmts ih =>
      have hstmt : server.taken ⊆ (execOnce once outage stmt server).2.taken :=
        taken_subset_execOnce
      unfold executeStatements
      split
      · next heq =>
          rw [heq] at hstmt
          exact hstmt
      · next heq =>
          rw [heq] at hstmt
          exact List.Subset.trans hstmt (ih _)

end Server

section Sufficient

variable {py : PythonText} {once : String → Bool} {opts : PostMigrationFinalizeOptions}
variable {plan : TablePlan} {catalog : DeferredTableSchema} {schemaMap : SchemaMap}
variable {casts : List ColumnTypeCast}

theorem objectStatements_of_repeatable {resolver : SchemaMap} {object : DeferredObject}
    (h : repeatableObject py once opts catalog object)
    (hne : objectStatements py opts catalog resolver object ≠ []) :
    ∃ stmt, objectStatements py opts catalog resolver object = [stmt] ∧ once stmt = false := by
  cases object with
  | typeCast cast => exact ⟨_, rfl, h⟩
  | identity col => exact h.elim
  | index idx =>
      cases hddl : generateSecondaryIndex catalog.targetSchema catalog.tableName idx
          opts.createIndexesConcurrently with
      | none =>
          rw [objectStatements, hddl] at hne
          exact absurd rfl hne
      | some ddl =>
          rw [objectStatements, hddl]
          exact ⟨ddl, rfl, h ddl hddl⟩
  | foreignKey fk => exact h.elim
  | check chk => exact h.elim
  | default dflt =>
      cases hddl : generateColumnDefault py.unicode catalog.targetSchema catalog.tableName
          dflt with
      | none =>
          rw [objectStatements, hddl] at hne
          exact absurd rfl hne
      | some ddl =>
          rw [objectStatements, hddl]
          exact ⟨ddl, rfl, h ddl hddl⟩
  | trigger triggerName => exact absurd rfl hne

theorem executeStatements_singleton (exec : String → ServerState → Option String × ServerState)
    (stmt : String) (server : ServerState) :
    executeStatements exec [stmt] server = exec stmt server := by
  unfold executeStatements
  split
  · next heq => exact heq.symm
  · next heq => exact heq.symm

/-- What a table that can be repeated does with an object. -/
structure StepSpec (py : PythonText) (outage : Nat → Option String) (object : DeferredObject)
    (conn : Connection ServerState) (step : FinalizeObjectResult × Connection ServerState) :
    Prop where
  noEffect : step.1.status = .failed → step.2.db.taken = conn.db.taken
  asked : step.1.status = .applied ∨ step.1.status = .failed → applicable py object = true
  applied : outage conn.db.sent = none → applicable py object = true → step.1.status = .applied

theorem applyObject_of_repeatable {resolver : SchemaMap} {object : DeferredObject}
    (h : applicable py object = true → repeatableObject py once opts catalog object)
    (outage : Nat → Option String) (conn : Connection ServerState) :
    StepSpec py outage object conn
      (applyObject py (execOnce once outage) opts plan catalog resolver conn object) := by
  have hstep := applyObject_step py (execOnce once outage) opts plan catalog resolver object conn
  have happlicable : objectStatements py opts catalog resolver object ≠ [] ↔ _ :=
    objectStatements_ne_nil_iff object
  generalize applyObject py (execOnce once outage) opts plan catalog resolver conn object = out
    at hstep ⊢
  cases hstep with
  | passedOver hnil hnotApplied hnotFailed =>
      exact
        { noEffect := fun hfailed => absurd hfailed hnotFailed
          asked := fun hstatus => absurd hstatus (not_or.mpr ⟨hnotApplied, hnotFailed⟩)
          applied := fun _ hasked => absurd hnil (happlicable.mpr hasked) }
  | executed hasked hne =>
      rw [hasked] at happlicable
      have hsent : objectStatements py opts catalog resolver object ≠ [] := hasked ▸ hne
      obtain ⟨stmt, hstmt, honce⟩ := objectStatements_of_repeatable (h (happlicable.mp hne)) hsent
      obtain rfl := hasked.symm.trans hstmt
      refine ⟨fun hfailed => ?_, fun _ => happlicable.mp hne, fun hup _ => ?_⟩
      · rw [applyStatements_status, executeStatements_singleton] at hfailed
        rw [applyStatements_db, executeStatements_singleton]
        cases hup : outage conn.db.sent with
        | some error => rw [execOnce_outage hup]
        | none =>
            rw [execOnce_accepted hup (Or.inl honce)] at hfailed
            cases hfailed
      · rw [applyStatements_status, executeStatements_singleton,
          execOnce_accepted hup (Or.inl honce)]
        rfl

theorem rel_getElem?_of_forall₂ {α β : Type} {P : α → β → Prop} {xs : List α} {ys : List β}
    (h : List.Forall₂ P xs ys) (i : Nat) : Option.Rel P xs[i]? ys[i]? := by
  induction h generalizing i with
  | nil => exact .none
  | cons hhead htail ih =>
      cases i with
      | zero => exact .some hhead
      | succ i => exact ih i

/-- What an object's result says of the object, position by position. -/
theorem rel_statusAt {P : DeferredObject → FinalizeObjectStatus → Prop}
    {outage : Nat → Option String}
    (hstep : ∀ object ∈ tableObjects opts catalog casts, ∀ conn : Connection ServerState,
      P object (applyObject py (execOnce once outage) opts plan catalog
        (tableResolver py schemaMap) conn object).1.status)
    (server : ServerState) (i : Nat) :
    Option.Rel P (tableObjects opts catalog casts)[i]?
      (statusAt (runTable py once opts plan catalog schemaMap casts outage server) i) := by
  have hresults := forall₂_applyObjects (P := fun object result => P object result.status) hstep
    ⟨server, []⟩
  rw [statusAt, ← List.getElem?_map]
  exact rel_getElem?_of_forall₂ (List.forall₂_map_right_iff.mpr hresults) i

variable (honly : OnlyRepeatable py once opts catalog casts)

include honly

/-- An object that the first run asks the server for is applied by the second. -/
theorem applied_of_asked {outage : Nat → Option String} {i : Nat}
    {status : FinalizeObjectStatus} (hstatus : status = .applied ∨ status = .failed)
    (h : statusAt (firstRun py once opts plan catalog schemaMap casts outage) i = some status) :
    statusAt (secondRun py once opts plan catalog schemaMap casts outage) i = some .applied := by
  have hfirst : Option.Rel
      (fun object status => status = .applied ∨ status = .failed → applicable py object = true)
      (tableObjects opts catalog casts)[i]?
      (statusAt (firstRun py once opts plan catalog schemaMap casts outage) i) :=
    rel_statusAt (fun object hobject conn =>
      (applyObject_of_repeatable (honly object hobject) outage conn).asked) ⟨0, []⟩ i
  have hsecond : Option.Rel (fun object status => applicable py object = true → status = .applied)
      (tableObjects opts catalog casts)[i]?
      (statusAt (secondRun py once opts plan catalog schemaMap casts outage) i) :=
    rel_statusAt (fun object hobject conn =>
      (applyObject_of_repeatable (honly object hobject) (fun _ => none) conn).applied rfl) _ i
  rw [h] at hfirst
  generalize (tableObjects opts catalog casts)[i]? = found at hfirst hsecond
  generalize statusAt (secondRun py once opts plan catalog schemaMap casts outage) i = second
    at hsecond ⊢
  cases hfirst with
  | some hasked =>
      cases hsecond with
      | some happlied => rw [happlied (hasked hstatus)]

theorem repeatable_of_onlyRepeatable :
    Repeatable py once opts plan catalog schemaMap casts where
  appliedAgain _ _ h := applied_of_asked honly (Or.inl rfl) h
  restApplied _ _ h := applied_of_asked honly (Or.inr rfl) h
  noPartialEffect outage before object after hsplit := by
    have hobject : object ∈ tableObjects opts catalog casts :=
      hsplit ▸ List.mem_append_right _ List.mem_cons_self
    exact (applyObject_of_repeatable (honly object hobject) outage _).noEffect

end Sufficient

section Necessary

variable {py : PythonText} {once : String → Bool} {opts : PostMigrationFinalizeOptions}
variable {plan : TablePlan} {catalog : DeferredTableSchema} {schemaMap : SchemaMap}
variable {casts : List ColumnTypeCast} {resolver : SchemaMap}

theorem executeStatements_outage {outage : Nat → Option String} {server : ServerState}
    {error : String} (h : outage server.sent = some error) {statements : List String}
    (hne : statements ≠ []) :
    executeStatements (execOnce once outage) statements server =
      (some error, { server with sent := server.sent + 1 }) := by
  cases statements with
  | nil => exact absurd rfl hne
  | cons stmt stmts => rw [executeStatements, execOnce_outage h]

/-- A server that is in order for one statement only. -/
def onlyAt (k n : Nat) : Option String := if n = k then none else some "unreachable"

theorem onlyAt_self (k : Nat) : onlyAt k k = none := if_pos rfl

theorem onlyAt_ne {k n : Nat} (h : n ≠ k) : onlyAt k n = some "unreachable" := if_neg h

/-- Before that statement every object costs its first statement and changes nothing. -/
theorem applyObjects_onlyAt {k : Nat} (objects : List DeferredObject)
    {conn : Connection ServerState}
    (hk : conn.db.sent + objects.countP (applicable py) ≤ k) :
    (applyObjects py (execOnce once (onlyAt k)) opts plan catalog resolver conn objects).2.db =
      ⟨conn.db.sent + objects.countP (applicable py), conn.db.taken⟩ := by
  induction objects generalizing conn with
  | nil => rfl
  | cons object objects ih =>
      simp only [applyObjects]
      cases happlicable : applicable py object with
      | false =>
          rw [applyObject_passedOver happlicable,
            List.countP_cons_of_neg (by rw [happlicable]; exact Bool.false_ne_true)]
          refine ih ?_
          rwa [List.countP_cons_of_neg (by rw [happlicable]; exact Bool.false_ne_true)] at hk
      | true =>
          rw [List.countP_cons_of_pos happlicable] at hk ⊢
          have hdb : (applyObject py (execOnce once (onlyAt k)) opts plan catalog resolver conn
              object).2.db = _ := (applyObject_executed happlicable conn).2
          rw [executeStatements_outage (onlyAt_ne (by omega))
            ((objectStatements_ne_nil_iff object).mpr happlicable)] at hdb
          rw [ih (by rw [hdb]; dsimp only; omega), hdb]
          dsimp only
          rw [Nat.add_assoc, Nat.add_comm 1]

variable (once) in
/-- And that statement takes effect, whatever the object asks for besides. -/
theorem executeStatements_onlyAt (k : Nat) (stmt : String) (stmts : List String) :
    let run := executeStatements (execOnce once (onlyAt k)) (stmt :: stmts) ⟨k, []⟩
    run.2.taken = [stmt] ∧ (run.1 = none ↔ stmts = []) := by
  have hfirst : execOnce once (onlyAt k) stmt ⟨k, []⟩ = (none, ⟨k + 1, [stmt]⟩) :=
    execOnce_accepted (onlyAt_self k) (Or.inr List.not_mem_nil)
  rw [executeStatements, hfirst]
  cases stmts with
  | nil => exact ⟨rfl, iff_of_true rfl rfl⟩
  | cons stmt' stmts =>
      dsimp only
      rw [executeStatements_outage (onlyAt_ne (Nat.succ_ne_self k)) (List.cons_ne_nil _ _)]
      exact ⟨rfl, iff_of_false nofun nofun⟩

theorem reached_onlyAt (before : List DeferredObject) :
    (reached py once opts plan catalog schemaMap (onlyAt (before.countP (applicable py)))
      before).db = ⟨before.countP (applicable py), []⟩ :=
  (applyObjects_onlyAt before (Nat.zero_add _).le).trans (by rw [Nat.zero_add])

variable (once plan) in
/-- What becomes of an object whose first statement is the only one that the server takes. -/
theorem applyObject_onlyAt (before : List DeferredObject) {object : DeferredObject}
    (happlicable : applicable py object = true) {stmt : String} {stmts : List String}
    (hstmts : objectStatements py opts catalog (tableResolver py schemaMap) object =
      stmt :: stmts) :
    let outage := onlyAt (before.countP (applicable py))
    let step := applyObject py (execOnce once outage) opts plan catalog
      (tableResolver py schemaMap) (reached py once opts plan catalog schemaMap outage before)
      object
    step.1.status = (if stmts = [] then .applied else .failed) ∧ step.2.db.taken = [stmt] := by
  have hobject : _ ∧ (applyObject py (execOnce once (onlyAt (before.countP (applicable py)))) opts
      plan catalog (tableResolver py schemaMap) (reached py once opts plan catalog schemaMap
        (onlyAt (before.countP (applicable py))) before) object).2.db = _ :=
    applyObject_executed happlicable _
  rw [reached_onlyAt, hstmts] at hobject
  obtain ⟨htaken, hnone⟩ := executeStatements_onlyAt once
    (before.countP (applicable py)) stmt stmts
  exact ⟨hobject.1.trans (if_congr hnone rfl rfl),
    (congrArg ServerState.taken hobject.2).trans htaken⟩

theorem taken_subset_applyObjects (outage : Nat → Option String) (objects : List DeferredObject)
    (conn : Connection ServerState) :
    conn.db.taken ⊆ (applyObjects py (execOnce once outage) opts plan catalog resolver conn
      objects).2.db.taken := by
  refine applyObjects_preserves (P := fun later : Connection ServerState =>
    conn.db.taken ⊆ later.db.taken) ?_ plan catalog resolver objects (List.Subset.refl _)
  intro plan object key objectType statements message failedDdl later hlater
  rw [applyStatements_db]
  exact List.Subset.trans hlater (taken_subset_executeStatements statements later.db)

theorem statusAt_split {before after : List DeferredObject} {object : DeferredObject}
    (hsplit : tableObjects opts catalog casts = before ++ object :: after)
    (outage : Nat → Option String) (server : ServerState) :
    statusAt (runTable py once opts plan catalog schemaMap casts outage server) before.length =
      some (applyObject py (execOnce once outage) opts plan catalog (tableResolver py schemaMap)
        (applyObjects py (execOnce once outage) opts plan catalog (tableResolver py schemaMap)
          ⟨server, []⟩ before).2 object).1.status := by
  have hobjects : (runTable py once opts plan catalog schemaMap casts outage server).1.objects =
      (applyObjects py (execOnce once outage) opts plan catalog (tableResolver py schemaMap)
        ⟨server, []⟩ (tableObjects opts catalog casts)).1 := rfl
  rw [statusAt, hobjects, hsplit, getElem?_applyObjects]
  rfl

/-- What the first run leaves behind an object stays. -/
theorem taken_subset_firstRun {before after : List DeferredObject} {object : DeferredObject}
    (hsplit : tableObjects opts catalog casts = before ++ object :: after)
    (outage : Nat → Option String) :
    (applyObject py (execOnce once outage) opts plan catalog (tableResolver py schemaMap)
      (reached py once opts plan catalog schemaMap outage before) object).2.db.taken ⊆
        (firstRun py once opts plan catalog schemaMap casts outage).2.db.taken := by
  have hconn : (firstRun py once opts plan catalog schemaMap casts outage).2 =
      (applyObjects py (execOnce once outage) opts plan catalog (tableResolver py schemaMap)
        ⟨⟨0, []⟩, []⟩ (tableObjects opts catalog casts)).2 := rfl
  rw [hconn, hsplit, applyObjects_append]
  exact taken_subset_applyObjects outage after _

variable {before after : List DeferredObject} {object : DeferredObject}
variable (hrepeatable : Repeatable py once opts plan catalog schemaMap casts)
variable (hsplit : tableObjects opts catalog casts = before ++ object :: after)
variable (happlicable : applicable py object = true)

include hrepeatable hsplit happlicable

/-- An object with a second statement can be left half applied. -/
theorem singleton_of_repeatable :
    ∃ stmt, objectStatements py opts catalog (tableResolver py schemaMap) object = [stmt] := by
  cases hstmts : objectStatements py opts catalog (tableResolver py schemaMap) object with
  | nil => exact absurd hstmts ((objectStatements_ne_nil_iff object).mpr happlicable)
  | cons stmt stmts =>
      obtain ⟨hstatus, htaken⟩ := applyObject_onlyAt once plan before
        happlicable hstmts
      refine ⟨stmt, ?_⟩
      by_contra hmore
      rw [if_neg (fun hnil => hmore (by rw [hnil]))] at hstatus
      have hkept := hrepeatable.noPartialEffect _ before object after hsplit hstatus
      rw [htaken, reached_onlyAt] at hkept
      cases hkept

/-- A statement that has taken effect in the first run is refused in the second. -/
theorem not_once_of_repeatable {stmt : String}
    (hstmt : objectStatements py opts catalog (tableResolver py schemaMap) object = [stmt]) :
    once stmt = false := by
  by_contra honce
  obtain ⟨hstatus, htaken⟩ := applyObject_onlyAt once plan before
    happlicable hstmt
  have hfirst : statusAt (firstRun py once opts plan catalog schemaMap casts
      (onlyAt (before.countP (applicable py)))) before.length = some _ :=
    statusAt_split hsplit _ _
  have hmem : stmt ∈ (firstRun py once opts plan catalog schemaMap casts
      (onlyAt (before.countP (applicable py)))).2.db.taken := by
    refine taken_subset_firstRun hsplit _ ?_
    rw [htaken]
    exact List.mem_singleton_self stmt
  have hsecond := hrepeatable.appliedAgain _ _ (hfirst.trans (congrArg some hstatus))
  rw [secondRun, statusAt_split hsplit, (applyObject_executed happlicable _).1, hstmt,
    executeStatements_singleton] at hsecond
  refine absurd (Option.some.inj hsecond) ?_
  rw [if_neg]
  · exact nofun
  · exact execOnce_refused (Bool.eq_true_of_not_eq_false honce)
      (taken_subset_applyObjects _ _ _ hmem)

end Necessary

section Exactness

variable {py : PythonText} {once : String → Bool} {opts : PostMigrationFinalizeOptions}
variable {catalog : DeferredTableSchema} {resolver : SchemaMap}

theorem repeatableObject_of_singleton {object : DeferredObject} {stmt : String}
    (hstmt : objectStatements py opts catalog resolver object = [stmt])
    (honce : once stmt = false) : repeatableObject py once opts catalog object := by
  cases object with
  | typeCast cast =>
      obtain rfl := (List.cons.inj hstmt).1
      exact honce
  | identity col => cases (List.cons.inj hstmt).2
  | index idx =>
      intro ddl hddl
      rw [objectStatements, hddl] at hstmt
      obtain rfl := (List.cons.inj hstmt).1
      exact honce
  | foreignKey fk =>
      rw [objectStatements, generateForeignKey] at hstmt
      split at hstmt
      · cases hstmt
      · cases (List.cons.inj hstmt).2
  | check chk =>
      simp only [objectStatements, generateCheckConstraint] at hstmt
      split at hstmt
      · cases hstmt
      · cases (List.cons.inj hstmt).2
  | default dflt =>
      intro ddl hddl
      rw [objectStatements, hddl] at hstmt
      obtain rfl := (List.cons.inj hstmt).1
      exact honce
  | trigger triggerName => trivial

theorem repeatable_iff (py : PythonText) (once : String → Bool)
    (opts : PostMigrationFinalizeOptions) (plan : TablePlan) (catalog : DeferredTableSchema)
    (schemaMap : SchemaMap) (casts : List ColumnTypeCast) :
    Repeatable py once opts plan catalog schemaMap casts ↔
      OnlyRepeatable py once opts catalog casts := by
  constructor
  · intro hrepeatable object hobject happlicable
    obtain ⟨before, after, hsplit⟩ := List.append_of_mem hobject
    obtain ⟨stmt, hstmt⟩ := singleton_of_repeatable hrepeatable hsplit happlicable
    exact repeatableObject_of_singleton hstmt
      (not_once_of_repeatable hrepeatable hsplit happlicable hstmt)
  · exact repeatable_of_onlyRepeatable

/-- PostgreSQL creates an index and adds a constraint or an identity only once. -/
def createsOrAdds (stmt : String) : Bool :=
  decide ("CREATE ".toList <+: stmt.toList) || decide (" ADD ".toList <:+: stmt.toList)

def plainText : PythonText := ⟨asciiTables, id, fun _ => rfl⟩

theorem orders_ne_empty : "Orders" ≠ "" := by decide

theorem customer_ne_empty : "Customer" ≠ "" := by decide

theorem customerId_ne_empty : "CustomerId" ≠ "" := by decide

theorem id_ne_empty : "Id" ≠ "" := by decide

theorem fkOrdersCustomer_ne_empty : "FK_Orders_Customer" ≠ "" := by decide

def ordersKey : DeferredForeignKey where
  constraintName := ⟨"FK_Orders_Customer", fkOrdersCustomer_ne_empty⟩
  columns := [⟨"CustomerId", customerId_ne_empty⟩]
  referencedTable := some ⟨"Customer", customer_ne_empty⟩
  referencedColumns := [⟨"Id", id_ne_empty⟩]

def ordersCatalog : DeferredTableSchema where
  sourceSchema := "dbo"
  tableName := ⟨"Orders", orders_ne_empty⟩
  targetSchema := publicSchema
  foreignKeys := [ordersKey]

def ordersPlan : TablePlan where
  migrationTablePlanId := 1
  schemaName := some "dbo"
  tableName := ⟨"Orders", orders_ne_empty⟩
  targetSchema := some "public"
  status := "completed"
  deferredSchema := some ordersCatalog
  columnTypeCasts := []

/-- The constraint is added and its validation fails; it is reported as failed and is there. -/
theorem orders_key_half_applied :
    ¬ Repeatable plainText createsOrAdds {} ordersPlan ordersCatalog [] [] := by
  intro hrepeatable
  have hsplit : tableObjects {} ordersCatalog [] = [] ++ .foreignKey ordersKey :: [] := rfl
  obtain ⟨stmt, hstmt⟩ := singleton_of_repeatable hrepeatable hsplit rfl
  cases (List.cons.inj hstmt).2

end Exactness

end SqlOptima.FinalizeRepeat
