import SqlOptima.ProceduralMigration

namespace SqlOptima.ProceduralTruth

open InsertionDict (assign lookup_assign)
open ProceduralMigration
open TransitionSystem (along_foldl_iff)

section Conditions

/-- Every step for the object succeeds. -/
def applies (schemaName : String) (sel : ProceduralObjectSelection) (env : ObjectEnv) : Bool :=
  (invalidName sel.name).isNone &&
    match env.definition, env.converted, env.deployed, env.logged with
    | .ok (some definition), .ok result, .ok deploy, .ok () =>
        definition ≠ "" && conversionReady (convertDefinition definition sel schemaName result) &&
          deploy.targetValidated
    | _, _, _, _ => false

/-- A step for the object raises. -/
def raises (schemaName : String) (sel : ProceduralObjectSelection) (env : ObjectEnv) : Bool :=
  (invalidName sel.name).isSome ||
    match env.definition with
    | .error _ => true
    | .ok none => false
    | .ok (some definition) =>
    if definition = "" then false else
    match env.converted with
    | .error _ => true
    | .ok result =>
    match env.deployed, env.logged with
    | _, .error _ => true
    | .error _, .ok () => conversionReady (convertDefinition definition sel schemaName result)
    | .ok _, .ok () => false

/-- The loop goes on after the object. -/
def GoesOn (schemaName : String) (sel : ProceduralObjectSelection) (env : ObjectEnv) : Prop :=
  env.ends = false ∧ (raises schemaName sel env = true → env.failureLogged = true)

/-- The call reaches its last write. -/
structure Completes (s : ProceduralMigrationState) (env : CallEnv) : Prop where
  startLogged : env.startLogged = true
  opened : env.opened = true
  schemaEnsured : env.schemaEnsured = true
  objects : ∀ i sel, s.selectedObjects[i]? = some sel → GoesOn s.sourceSchema sel (env.object i)
  disconnected : env.disconnected = true
  saved : env.saved = true

/-- A call that sets the phase to IN_PROGRESS reaches its last write, and where all objects are
applied no name is selected both as a procedure and as a function. -/
def Meets (s : ProceduralMigrationState) (call : Call) : Prop :=
  starts s call.force = true → call.env.connectionsFound = true → call.env.committed = true →
    Completes s call.env ∧
      ((∀ i sel, s.selectedObjects[i]? = some sel →
          applies s.sourceSchema sel (call.env.object i) = true) →
        ∀ name ∈ s.selectedProcedures, name ∉ s.selectedFunctions)

/-- The results hold one of the object's own that is applied. -/
def OwnResult (objects : List (String × ProceduralObjectResult)) (schemaName : String)
    (sel : ProceduralObjectSelection) : Prop :=
  ∃ r, objects.lookup (objectKey schemaName sel.name) = some r ∧ r.name = sel.name ∧
    r.objectType = sel.objectType ∧ r.status = .applied

structure Truthful (s : ProceduralMigrationState) : Prop where
  idle : s.status ≠ .inProgress
  restartable : s.hasSelection = true → s.status ≠ .completed → starts s false = true
  applied : s.status = .completed → ∀ sel ∈ s.selectedObjects,
    OwnResult s.objects s.sourceSchema sel

end Conditions

section Objects

variable {rewriteQualifiers : String → String} {schemaName : String}
  {sel : ProceduralObjectSelection} {env : ObjectEnv} {t t' : Tally}

theorem objectKey_injective : Function.Injective (objectKey schemaName) := by
  intro a b h
  have hlist := congrArg String.toList h
  simp only [objectKey, String.toList_append] at hlist
  exact String.toList_injective (List.append_cancel_left hlist)

theorem restartable_of_idle {s : ProceduralMigrationState} (h : s.status ≠ .inProgress)
    (hselection : s.hasSelection = true) (hopen : s.status ≠ .completed) :
    starts s false = true := by
  unfold starts
  cases hs : s.status <;> simp_all

theorem convertDefinition_name (sql : String) (result : Conversion) :
    (convertDefinition sql sel schemaName result).name = sel.name := by
  unfold convertDefinition
  simp only
  split_ifs <;> rfl

theorem convertDefinition_objectType (sql : String) (result : Conversion) :
    (convertDefinition sql sel schemaName result).objectType = sel.objectType := by
  unfold convertDefinition
  simp only
  split_ifs <;> rfl

/-- What the guarded part comes to: the object is applied, a failure is stored, or a step raises. -/
inductive Attempted (rewriteQualifiers : String → String) (schemaName : String)
    (sel : ProceduralObjectSelection) (env : ObjectEnv) (t : Tally) : Prop where
  | applied (r : ProceduralObjectResult) (happlies : applies schemaName sel env = true)
      (hraises : raises schemaName sel env = false) (hname : r.name = sel.name)
      (htype : r.objectType = sel.objectType) (hstatus : r.status = .applied)
      (heq : attempt rewriteQualifiers schemaName sel env t =
        (t.store (objectKey schemaName sel.name) r 0, none))
  | failed (r : ProceduralObjectResult) (happlies : applies schemaName sel env = false)
      (hraises : raises schemaName sel env = false)
      (heq : attempt rewriteQualifiers schemaName sel env t =
        (t.store (objectKey schemaName sel.name) r 1, none))
  | raised (u : Tally) (error : String) (happlies : applies schemaName sel env = false)
      (hraises : raises schemaName sel env = true) (hle : t.failures ≤ u.failures)
      (heq : attempt rewriteQualifiers schemaName sel env t = (u, some error))

theorem attempted_of_definition {definition : String} (hname : invalidName sel.name = none)
    (hdef : env.definition = .ok (some definition)) (hread : definition ≠ "") :
    Attempted rewriteQualifiers schemaName sel env t := by
  cases hconv : env.converted with
  | error error =>
      exact .raised t error (by simp [applies, hname, hdef, hconv])
        (by simp [raises, hname, hdef, hread, hconv]) le_rfl
        (by simp [attempt, hname, hdef, hread, hconv])
  | ok result =>
      cases hready : conversionReady (convertDefinition definition sel schemaName result) with
      | false =>
          cases hlog : env.logged with
          | ok _ =>
              refine .failed _ ?_ ?_
                (by simp [attempt, hname, hdef, hread, hconv, hready, hlog]
                    rfl)
              · cases hdep : env.deployed <;> simp [applies, hname, hdef, hconv, hready, hlog, hdep]
              · cases hdep : env.deployed <;>
                  simp [raises, hname, hdef, hread, hconv, hready, hlog, hdep]
          | error error =>
              refine .raised (t.store _ _ 1) error ?_ ?_ ?_
                (by simp [attempt, hname, hdef, hread, hconv, hready, hlog]; rfl)
              · cases hdep : env.deployed <;> simp [applies, hname, hdef, hconv, hlog, hdep]
              · cases hdep : env.deployed <;> simp [raises, hname, hdef, hread, hconv, hlog, hdep]
              · exact Nat.le_add_right _ _
      | true =>
          cases hdep : env.deployed with
          | error error =>
              refine .raised t error (by simp [applies, hname, hdef, hconv, hdep]) ?_ le_rfl
                (by simp [attempt, hname, hdef, hread, hconv, hready, hdep])
              cases hlog : env.logged <;>
                simp [raises, hname, hdef, hread, hconv, hready, hdep, hlog]
          | ok deploy =>
              cases hvalid : deploy.targetValidated with
              | false =>
                  cases hlog : env.logged with
                  | ok _ =>
                      exact .failed _ (by simp [applies, hname, hdef, hconv, hdep, hlog, hvalid])
                        (by simp [raises, hname, hdef, hread, hconv, hdep, hlog])
                        (by simp [attempt, hname, hdef, hread, hconv, hready, hdep, hvalid, hlog]
                            rfl)
                  | error error =>
                      exact .raised (t.store _ _ 1) error
                        (by simp [applies, hname, hdef, hconv, hdep, hlog])
                        (by simp [raises, hname, hdef, hread, hconv, hdep, hlog])
                        (Nat.le_add_right _ _)
                        (by simp [attempt, hname, hdef, hread, hconv, hready, hdep, hvalid, hlog]
                            rfl)
              | true =>
                  cases hlog : env.logged with
                  | ok _ =>
                      refine .applied _
                        (by simp [applies, hname, hdef, hread, hconv, hready, hdep, hlog, hvalid])
                        (by simp [raises, hname, hdef, hread, hconv, hdep, hlog])
                        ?_ ?_ ?_
                        (by simp [attempt, hname, hdef, hread, hconv, hready, hdep, hvalid, hlog]
                            rfl)
                      · exact convertDefinition_name definition result
                      · exact convertDefinition_objectType definition result
                      · rfl
                  | error error =>
                      exact .raised (t.store _ _ 0) error
                        (by simp [applies, hname, hdef, hconv, hdep, hlog])
                        (by simp [raises, hname, hdef, hread, hconv, hdep, hlog])
                        (Nat.le_add_right _ _)
                        (by simp [attempt, hname, hdef, hread, hconv, hready, hdep, hvalid, hlog]
                            rfl)

theorem attempted : Attempted rewriteQualifiers schemaName sel env t := by
  cases hname : invalidName sel.name with
  | some error =>
      exact .raised t error (by simp [applies, hname]) (by simp [raises, hname]) le_rfl
        (by simp [attempt, hname])
  | none =>
      cases hdef : env.definition with
      | error error =>
          exact .raised t error (by simp [applies, hname, hdef])
            (by simp [raises, hname, hdef]) le_rfl (by simp [attempt, hname, hdef])
      | ok definition =>
          cases definition with
          | none =>
              exact .failed _ (by simp [applies, hname, hdef]) (by simp [raises, hname, hdef])
                (by simp [attempt, hname, hdef]; rfl)
          | some definition =>
              by_cases hempty : definition = ""
              · refine .failed _ ?_ (by simp [raises, hname, hdef, hempty])
                  (by simp [attempt, hname, hdef, hempty]; rfl)
                cases hconv : env.converted <;> cases hdep : env.deployed <;>
                  cases hlog : env.logged <;>
                    simp [applies, hname, hdef, hempty, hconv, hdep, hlog]
              · exact attempted_of_definition hname hdef hempty

/-- The loop goes on, and counts no failure exactly when the object is applied. -/
theorem runObject_spec :
    (GoesOn schemaName sel env ↔ (runObject rewriteQualifiers schemaName sel env t).isSome) ∧
      ∀ t', runObject rewriteQualifiers schemaName sel env t = some t' →
        t.failures ≤ t'.failures ∧
          (applies schemaName sel env = false → t.failures < t'.failures) ∧
          (applies schemaName sel env = true → ∃ r : ProceduralObjectResult,
            r.name = sel.name ∧ r.objectType = sel.objectType ∧ r.status = .applied ∧
            t' = t.store (objectKey schemaName sel.name) r 0) := by
  unfold GoesOn runObject
  cases hends : env.ends with
  | true => simp
  | false =>
      rcases (attempted : Attempted rewriteQualifiers schemaName sel env t) with
        ⟨r, happlies, hraises, hname, htype, hstatus, heq⟩ | ⟨r, happlies, hraises, heq⟩ |
        ⟨u, error, happlies, hraises, hle, heq⟩
      · rw [heq]
        refine ⟨by simp [hraises], fun t' ht' => ?_⟩
        obtain rfl : t.store _ r 0 = t' := by simpa using ht'
        exact ⟨le_rfl, fun h => absurd happlies (by simp [h]),
          fun _ => ⟨r, hname, htype, hstatus, rfl⟩⟩
      · rw [heq]
        refine ⟨by simp [hraises], fun t' ht' => ?_⟩
        obtain rfl : t.store _ r 1 = t' := by simpa using ht'
        exact ⟨Nat.le_succ _, fun _ => Nat.lt_succ_self _, fun h => absurd h (by simp [happlies])⟩
      · rw [heq]
        cases hlogged : env.failureLogged with
        | false => simp [hraises]
        | true =>
            refine ⟨by simp, fun t' ht' => ?_⟩
            obtain rfl : u.store _ (failedResult schemaName sel error) 1 = t' := by
              simpa using ht'
            exact ⟨le_trans hle (Nat.le_succ _), fun _ => Nat.lt_succ_of_le hle,
              fun h => absurd h (by simp [happlies])⟩

end Objects

section Loop

variable {rewriteQualifiers : String → String} {schemaName : String} {env : Nat → ObjectEnv}
  {i : Nat} {sel : ProceduralObjectSelection} {sels : List ProceduralObjectSelection}
  {t t' : Tally}

theorem runObjects_cons (h : runObjects rewriteQualifiers schemaName env i (sel :: sels) t =
    some t') :
    ∃ u, runObject rewriteQualifiers schemaName sel (env i) t = some u ∧
      runObjects rewriteQualifiers schemaName env (i + 1) sels u = some t' :=
  Option.bind_eq_some_iff.mp h

/-- A property of all objects of a list, each with its place. -/
theorem forall_cons_iff {P : ProceduralObjectSelection → ObjectEnv → Prop} :
    (∀ k sel', (sel :: sels)[k]? = some sel' → P sel' (env (i + k))) ↔
      P sel (env i) ∧ ∀ k sel', sels[k]? = some sel' → P sel' (env (i + 1 + k)) := by
  constructor
  · intro h
    refine ⟨h 0 sel rfl, fun k sel' hk => ?_⟩
    have hnext := h (k + 1) sel' hk
    rwa [← Nat.add_assoc, Nat.add_right_comm] at hnext
  · rintro ⟨hhead, htail⟩ k sel' hk
    cases k with
    | zero =>
        obtain rfl : sel = sel' := Option.some.inj hk
        exact hhead
    | succ k =>
        rw [← Nat.add_assoc, Nat.add_right_comm]
        exact htail k sel' hk

theorem runObjects_isSome_iff :
    (runObjects rewriteQualifiers schemaName env i sels t).isSome ↔
      ∀ k sel, sels[k]? = some sel → GoesOn schemaName sel (env (i + k)) := by
  induction sels generalizing i t with
  | nil => simp [runObjects]
  | cons sel sels ih =>
      have hgoes : GoesOn schemaName sel (env i) ↔
        (runObject rewriteQualifiers schemaName sel (env i) t).isSome := runObject_spec.1
      rw [forall_cons_iff, hgoes, runObjects]
      cases runObject rewriteQualifiers schemaName sel (env i) t with
      | none => simp
      | some u =>
          rw [Option.bind_some, ih]
          simp

theorem failures_runObjects
    (h : runObjects rewriteQualifiers schemaName env i sels t = some t') :
    t.failures ≤ t'.failures ∧
      (t'.failures = t.failures ↔
        ∀ k sel, sels[k]? = some sel → applies schemaName sel (env (i + k)) = true) := by
  induction sels generalizing i t with
  | nil =>
      cases h
      simp
  | cons sel sels ih =>
      obtain ⟨u, hu, hrest⟩ := runObjects_cons h
      obtain ⟨hle, hfails, happlied⟩ := runObject_spec.2 u hu
      obtain ⟨hle', hiff⟩ := ih hrest
      refine ⟨hle.trans hle', ?_⟩
      rw [forall_cons_iff (P := fun sel' env' => applies schemaName sel' env' = true), ← hiff]
      cases happlies : applies schemaName sel (env i) with
      | false =>
          have hlt := hfails happlies
          simp only [Bool.false_eq_true, false_and, iff_false]
          omega
      | true =>
          obtain ⟨r, -, -, -, rfl⟩ := happlied happlies
          simp [Tally.store]

theorem runObjects_append (rest : List ProceduralObjectSelection) :
    runObjects rewriteQualifiers schemaName env i (sels ++ rest) t =
      (runObjects rewriteQualifiers schemaName env i sels t).bind
        (runObjects rewriteQualifiers schemaName env (i + sels.length) rest) := by
  induction sels generalizing i t with
  | nil => rfl
  | cons sel sels ih =>
      rw [List.cons_append, runObjects, runObjects, Option.bind_assoc]
      congr 1
      funext u
      rw [ih, List.length_cons, Nat.add_assoc, Nat.add_comm 1]

/-- Objects of other names leave a result as it is. -/
theorem lookup_runObjects {name : String}
    (happlies : ∀ k sel, sels[k]? = some sel → applies schemaName sel (env (i + k)) = true)
    (h : runObjects rewriteQualifiers schemaName env i sels t = some t')
    (hname : ∀ sel ∈ sels, sel.name ≠ name) :
    t'.objects.lookup (objectKey schemaName name) =
      t.objects.lookup (objectKey schemaName name) := by
  induction sels generalizing i t with
  | nil =>
      cases h
      rfl
  | cons sel sels ih =>
      obtain ⟨u, hu, hrest⟩ := runObjects_cons h
      obtain ⟨hhead, htail⟩ := (forall_cons_iff
        (P := fun sel' env' => applies schemaName sel' env' = true)).mp happlies
      obtain ⟨r, -, -, -, rfl⟩ := (runObject_spec.2 u hu).2.2 hhead
      rw [ih htail hrest fun sel' h' => hname sel' (List.mem_cons_of_mem _ h')]
      have hne : objectKey schemaName name ≠ objectKey schemaName sel.name := fun heq =>
        hname sel List.mem_cons_self (objectKey_injective heq).symm
      rw [Tally.store, lookup_assign, if_neg hne]

/-- When all are applied, the result under a name belongs to one of the objects of that name. -/
theorem exists_ownResult {name : String}
    (happlies : ∀ k sel, sels[k]? = some sel → applies schemaName sel (env (i + k)) = true)
    (h : runObjects rewriteQualifiers schemaName env i sels t = some t')
    (hname : ∃ sel ∈ sels, sel.name = name) :
    ∃ sel ∈ sels, sel.name = name ∧ OwnResult t'.objects schemaName sel := by
  induction sels generalizing i t with
  | nil => simp at hname
  | cons sel sels ih =>
      obtain ⟨u, hu, hrest⟩ := runObjects_cons h
      obtain ⟨hhead, htail⟩ := (forall_cons_iff
        (P := fun sel' env' => applies schemaName sel' env' = true)).mp happlies
      by_cases hlater : ∃ sel' ∈ sels, sel'.name = name
      · obtain ⟨sel', hsel', heq, hown⟩ := ih htail hrest hlater
        exact ⟨sel', List.mem_cons_of_mem _ hsel', heq, hown⟩
      · have hlast : ∀ sel' ∈ sels, sel'.name ≠ name := by
          intro sel' hsel' heq
          exact hlater ⟨sel', hsel', heq⟩
        obtain ⟨sel', hsel', heq⟩ := hname
        obtain rfl | hsel' := List.mem_cons.mp hsel'
        · obtain ⟨r, hr, htype, hstatus, rfl⟩ := (runObject_spec.2 u hu).2.2 hhead
          refine ⟨sel', List.mem_cons_self, heq, r, ?_, hr, htype, hstatus⟩
          rw [heq, lookup_runObjects htail hrest hlast, ← heq, Tally.store, lookup_assign,
            if_pos rfl]
        · exact absurd heq (hlast sel' hsel')

end Loop

section Phase

variable {rewriteQualifiers : String → String → String → String} {s : ProceduralMigrationState}
  {call : Call} {t : Tally}

theorem mem_selectedObjects {sel : ProceduralObjectSelection} :
    sel ∈ s.selectedObjects ↔
      (sel.objectType = .procedure ∧ sel.name ∈ s.selectedProcedures) ∨
        (sel.objectType = .function ∧ sel.name ∈ s.selectedFunctions) := by
  obtain ⟨name, type⟩ := sel
  cases type <;> simp [ProceduralMigrationState.selectedObjects]

/-- When all are applied, each object has its own result exactly when no name is selected twice,
as a procedure and as a function. -/
theorem ownResults_iff {env : Nat → ObjectEnv} {start : Tally}
    (happlies : ∀ i sel, s.selectedObjects[i]? = some sel →
      applies s.sourceSchema sel (env i) = true)
    (h : runObjects (rewriteQualifiers s.sourceSchema s.targetSchema) s.sourceSchema env 0
      s.selectedObjects start = some t) :
    (∀ sel ∈ s.selectedObjects, OwnResult t.objects s.sourceSchema sel) ↔
      ∀ name ∈ s.selectedProcedures, name ∉ s.selectedFunctions := by
  have happlies' : ∀ i sel, s.selectedObjects[i]? = some sel →
      applies s.sourceSchema sel (env (0 + i)) = true := by simpa using happlies
  constructor
  · intro hown name hproc hfunc
    have hmem : (⟨name, .procedure⟩ : ProceduralObjectSelection) ∈ s.selectedObjects :=
      mem_selectedObjects.mpr (.inl ⟨rfl, hproc⟩)
    obtain ⟨r, hr, -, htype, -⟩ := hown _ hmem
    rw [ProceduralMigrationState.selectedObjects, runObjects_append] at h
    obtain ⟨u, -, hlater⟩ := Option.bind_eq_some_iff.mp h
    -- the functions come last, so that the name's result is a function's
    obtain ⟨sel, hsel, hname, r', hr', -, htype', -⟩ := exists_ownResult
      (fun k sel hk => by
        have hplace := happlies' ((s.selectedProcedures.map
          (⟨·, .procedure⟩ : String → ProceduralObjectSelection)).length + k) sel (by
            rw [ProceduralMigrationState.selectedObjects,
              List.getElem?_append_right (Nat.le_add_right _ _), Nat.add_sub_cancel_left]
            exact hk)
        rwa [← Nat.add_assoc] at hplace) hlater
      ⟨⟨name, .function⟩, List.mem_map.mpr ⟨name, hfunc, rfl⟩, rfl⟩
    obtain ⟨name', -, rfl⟩ := List.mem_map.mp hsel
    obtain rfl : name' = name := hname
    rw [hr, Option.some.injEq] at hr'
    subst hr'
    simp [htype] at htype'
  · intro hdistinct sel hsel
    obtain ⟨sel', hsel', hname, hown⟩ := exists_ownResult happlies' h ⟨sel, hsel, rfl⟩
    have htype : sel'.objectType = sel.objectType := by
      rcases mem_selectedObjects.mp hsel with ⟨ht, hm⟩ | ⟨ht, hm⟩ <;>
        rcases mem_selectedObjects.mp hsel' with ⟨ht', hm'⟩ | ⟨ht', hm'⟩
      · rw [ht, ht']
      · exact absurd (hname ▸ hm') (hdistinct _ hm)
      · exact absurd hm (hdistinct _ (hname ▸ hm'))
      · rw [ht, ht']
    obtain rfl : sel' = sel := by
      cases sel
      cases sel'
      simp_all
    exact hown

theorem truthful_of_open (hidle : s.status ≠ .inProgress) (hopen : s.status ≠ .completed) :
    Truthful s :=
  ⟨hidle, restartable_of_idle hidle, fun h => absurd h hopen⟩

theorem not_truthful_inProgress (lastError : Option String) :
    ¬ Truthful { s with status := .inProgress, lastError := lastError } :=
  fun h => h.idle rfl

/-- The last write of a call that starts from `s`. -/
theorem truthful_conclude_iff {env : Nat → ObjectEnv} {lastError : Option String}
    (h : runObjects (rewriteQualifiers s.sourceSchema s.targetSchema) s.sourceSchema env 0
      s.selectedObjects ⟨s.objects, 0⟩ = some t) :
    Truthful (conclude { s with status := .inProgress, lastError := lastError } t) ↔
      ((∀ i sel, s.selectedObjects[i]? = some sel →
          applies s.sourceSchema sel (env i) = true) →
        ∀ name ∈ s.selectedProcedures, name ∉ s.selectedFunctions) := by
  obtain ⟨-, hzero⟩ := failures_runObjects h
  simp only [Nat.zero_add] at hzero
  unfold conclude
  by_cases hfailures : t.failures = 0
  · have happlies := hzero.mp hfailures
    rw [if_pos hfailures]
    constructor
    · intro htruth _
      exact (ownResults_iff happlies h).mp (htruth.applied rfl)
    · intro hdistinct
      have hown := (ownResults_iff happlies h).mpr (hdistinct happlies)
      exact ⟨by simp, fun _ hopen => absurd rfl hopen, fun _ => hown⟩
  · rw [if_neg hfailures]
    constructor
    · intro _ happlies
      exact absurd (hzero.mpr happlies) hfailures
    · intro _
      apply truthful_of_open
      · simp only
        split_ifs <;> simp
      · simp only
        split_ifs <;> simp

theorem migrate_of_not_start (h : starts s call.force = false ∨
    call.env.connectionsFound = false ∨ call.env.committed = false)
    (hselection : s.hasSelection = true) : migrate rewriteQualifiers s call = s := by
  rcases h with h | h | h <;> simp [migrate, hselection, h]

theorem truthful_skipped (h : Truthful s) (hselection : s.hasSelection = false) :
    Truthful (migrate rewriteQualifiers s call) := by
  cases hcommitted : call.env.committed with
  | true =>
      have hskipped : migrate rewriteQualifiers s call = { s with status := .skipped } := by
        simp [migrate, hselection, hcommitted]
      rw [hskipped]
      exact truthful_of_open (by simp) (by simp)
  | false =>
      have hkept : migrate rewriteQualifiers s call = s := by
        simp [migrate, hselection, hcommitted]
      rwa [hkept]

/-- A call that sets the phase to IN_PROGRESS. -/
theorem truthful_started_iff (hselection : s.hasSelection = true)
    (hstarts : starts s call.force = true) (hfound : call.env.connectionsFound = true)
    (hcommitted : call.env.committed = true) :
    Truthful (migrate rewriteQualifiers s call) ↔
      Completes s call.env ∧
        ((∀ i sel, s.selectedObjects[i]? = some sel →
            applies s.sourceSchema sel (call.env.object i) = true) →
          ∀ name ∈ s.selectedProcedures, name ∉ s.selectedFunctions) := by
  have hobjects : (runObjects (rewriteQualifiers s.sourceSchema s.targetSchema) s.sourceSchema
      call.env.object 0 s.selectedObjects ⟨s.objects, 0⟩).isSome ↔
        ∀ k sel, s.selectedObjects[k]? = some sel →
          GoesOn s.sourceSchema sel (call.env.object (0 + k)) := runObjects_isSome_iff
  simp only [Nat.zero_add] at hobjects
  simp only [migrate, hselection, hstarts, hfound, hcommitted, Bool.not_true, Bool.or_self,
    Bool.false_eq_true, if_false]
  cases hready : call.env.startLogged && call.env.opened && call.env.schemaEnsured with
  | false =>
      refine iff_of_false (not_truthful_inProgress _) fun h => ?_
      simp [h.1.startLogged, h.1.opened, h.1.schemaEnsured] at hready
  | true =>
      cases hrun : runObjects (rewriteQualifiers s.sourceSchema s.targetSchema) s.sourceSchema
          call.env.object 0 s.selectedObjects ⟨s.objects, 0⟩ with
      | none =>
          refine iff_of_false (not_truthful_inProgress _) fun h => ?_
          have hsome := hobjects.mpr h.1.objects
          simp [hrun] at hsome
      | some t =>
          have hgoes := hobjects.mp (by rw [hrun]; rfl)
          cases hsaved : call.env.disconnected && call.env.saved with
          | false =>
              refine iff_of_false (not_truthful_inProgress _) fun h => ?_
              simp [h.1.disconnected, h.1.saved] at hsaved
          | true =>
              simp only [Bool.and_eq_true] at hready hsaved
              have hcompletes : Completes s call.env :=
                ⟨hready.1.1, hready.1.2, hready.2, hgoes, hsaved.1, hsaved.2⟩
              exact (truthful_conclude_iff hrun).trans (and_iff_right hcompletes).symm

theorem truthful_migrate_iff (h : Truthful s) :
    Truthful (migrate rewriteQualifiers s call) ↔ Meets s call := by
  unfold Meets
  cases hselection : s.hasSelection with
  | false =>
      refine iff_of_true (truthful_skipped h hselection) fun hstarts => ?_
      simp [starts, hselection] at hstarts
  | true =>
      by_cases hgoes : starts s call.force = true ∧ call.env.connectionsFound = true ∧
          call.env.committed = true
      · obtain ⟨hstarts, hfound, hcommitted⟩ := hgoes
        rw [truthful_started_iff hselection hstarts hfound hcommitted]
        simp only [hstarts, hfound, hcommitted, forall_true_left]
      · rw [migrate_of_not_start ?_ hselection]
        · refine iff_of_true h fun hstarts hfound hcommitted => ?_
          exact absurd ⟨hstarts, hfound, hcommitted⟩ hgoes
        · simp only [← Bool.not_eq_true]
          tauto

/-- The stored phase is truthful after every call of a sequence exactly when each call that starts
reaches its last write, and none applies all objects while a name is selected twice. -/
theorem truthful_along_iff (hinit : Truthful s) (calls : List Call) :
    (∀ pre, pre <+: calls → Truthful (pre.foldl (migrate rewriteQualifiers) s)) ↔
      ∀ pre call, pre ++ [call] <+: calls →
        Meets (pre.foldl (migrate rewriteQualifiers) s) call :=
  along_foldl_iff hinit (fun _ h => h) (fun _ _ h hmeets => (truthful_migrate_iff h).mpr hmeets)
    (fun _ _ h htruth => (truthful_migrate_iff h).mp htruth) calls

def orders : ProceduralMigrationState where
  sourceSchema := "dbo"
  targetSchema := "public"
  selectedProcedures := ["Load"]
  selectedFunctions := ["Total"]

def sound : ObjectEnv where
  definition := .ok (some "CREATE")
  converted := .ok { success := true, convertedSql := "CREATE" }
  deployed := .ok { targetValidated := true }

theorem truthful_orders : Truthful orders :=
  truthful_of_open (by decide) (by decide)

theorem truthful_along_orders :
    Truthful ([Call.mk false { object := fun _ => sound }].foldl (migrate fun _ _ sql => sql)
      orders) := by
  refine (truthful_along_iff truthful_orders _).mpr (fun pre call hpre _ _ _ => ?_) _
    (List.prefix_refl _)
  obtain ⟨rfl, rfl⟩ : pre = [] ∧ call = ⟨false, { object := fun _ => sound }⟩ := by
    obtain ⟨rest, hrest⟩ := hpre
    cases pre with
    | nil => exact ⟨rfl, (List.cons.inj hrest).1⟩
    | cons _ _ => simp at hrest
  refine ⟨⟨rfl, rfl, rfl, fun i sel _ => ⟨rfl, fun _ => rfl⟩, rfl, rfl⟩, fun _ => ?_⟩
  decide

/-- A source that cannot be opened leaves the phase in progress, and the next call does nothing;
a procedure and a function of one name share the function's result. -/
theorem procedural_state_untruthful :
    (let stored := migrate (fun _ _ sql => sql) orders
        ⟨false, { opened := false, object := fun _ => sound }⟩
     stored.status = .inProgress ∧
       migrate (fun _ _ sql => sql) stored ⟨false, { object := fun _ => sound }⟩ = stored) ∧
    (let stored := migrate (fun _ _ sql => sql) { orders with selectedFunctions := ["Load"] }
        ⟨false, { object := fun _ => sound }⟩
     stored.status = .completed ∧ ¬ OwnResult stored.objects "dbo" ⟨"Load", .procedure⟩) := by
  refine ⟨⟨rfl, rfl⟩, by decide +kernel, ?_⟩
  rintro ⟨r, hr, -, htype, -⟩
  have hfunction : r.objectType = .function := by
    obtain rfl := Option.some.inj hr
    decide +kernel
  rw [hfunction] at htype
  cases htype

end Phase

end SqlOptima.ProceduralTruth
