import SqlOptima.InsertionDict
import SqlOptima.PythonText
import SqlOptima.TransitionSystem

namespace SqlOptima.ProceduralMigration

open InsertionDict (assign lookup_assign)
open TransitionSystem (along_foldl_iff)

inductive ProceduralObjectKind where
  | procedure
  | function
  deriving DecidableEq, Repr

inductive ProceduralMigrateStatus where
  | pending
  | inProgress
  | applied
  | failed
  | skipped
  deriving DecidableEq, Repr

inductive ProceduralMigrationPhaseStatus where
  | pending
  | inProgress
  | completed
  | partlyDone
  | failed
  | skipped
  deriving DecidableEq, Repr

structure ProceduralObjectSelection where
  name : String
  objectType : ProceduralObjectKind
  deriving DecidableEq, Repr

structure RuntimeSmoke where
  executed : Bool := false
  passed : Bool := false
  skipped : Bool := false
  message : String := ""
  deriving DecidableEq, Repr

structure ProceduralObjectResult where
  name : String
  schemaName : String
  objectType : ProceduralObjectKind
  status : ProceduralMigrateStatus := .pending
  success : Bool := false
  warnings : List String := []
  errors : List String := []
  manualReviewRequired : Bool := false
  postgresSyntaxValid : Bool := true
  targetValidated : Bool := false
  runtimeSmoke : RuntimeSmoke := {}
  convertedSql : String := ""
  deriving DecidableEq, Repr

/-- `config["procedural_migration"]` of a job. -/
structure ProceduralMigrationState where
  sourceSchema : String
  targetSchema : String
  selectedProcedures : List String
  selectedFunctions : List String
  status : ProceduralMigrationPhaseStatus := .pending
  lastError : Option String := none
  objects : List (String × ProceduralObjectResult) := []
  deriving DecidableEq, Repr

/-- What the conversion service answers. -/
structure Conversion where
  success : Bool
  warnings : List String := []
  errors : List String := []
  manualReviewRequired : Bool := false
  postgresSyntaxValid : Bool := true
  convertedSql : String
  deriving DecidableEq, Repr

structure RoutineDeployResult where
  targetValidated : Bool
  errors : List String := []
  runtimeSmoke : RuntimeSmoke := {}
  deriving DecidableEq, Repr

/-- What the steps for one object come to: an error is the text of what they raise. -/
structure ObjectEnv where
  ends : Bool := false
  definition : Except String (Option String)
  converted : Except String Conversion
  deployed : Except String RoutineDeployResult
  logged : Except String Unit := .ok ()
  failureLogged : Bool := true

/-- What the steps of a call come to: false where they raise or the process ends. -/
structure CallEnv where
  connectionsFound : Bool := true
  committed : Bool := true
  startLogged : Bool := true
  opened : Bool := true
  schemaEnsured : Bool := true
  object : Nat → ObjectEnv
  disconnected : Bool := true
  saved : Bool := true

structure Call where
  force : Bool
  env : CallEnv

section Objects

def isBlank (sql : String) : Bool := sql.toList.all PythonText.isSpace

/-- `validate_sql_identifier(name, "object_name")` of `ddl_identifier.py`, with the text that it
raises. -/
def invalidName (name : String) : Option String :=
  if name = "" then some "Identifier 'object_name' must not be empty"
  else if name.length > 63 then
    some ("Identifier 'object_name' is " ++ toString name.length ++
      " characters, exceeding the PostgreSQL maximum of 63")
  else none

def ProceduralMigrationState.selectedObjects (s : ProceduralMigrationState) :
    List ProceduralObjectSelection :=
  s.selectedProcedures.map (⟨·, .procedure⟩) ++ s.selectedFunctions.map (⟨·, .function⟩)

def ProceduralMigrationState.hasSelection (s : ProceduralMigrationState) : Bool :=
  !s.selectedProcedures.isEmpty || !s.selectedFunctions.isEmpty

def objectKey (schemaName name : String) : String := schemaName ++ "." ++ name

/-- What `_convert_definition` makes of the service's answer. -/
def convertDefinition (sql : String) (sel : ProceduralObjectSelection) (schemaName : String)
    (result : Conversion) : ProceduralObjectResult :=
  let obj : ProceduralObjectResult :=
    { name := sel.name
      schemaName := schemaName
      objectType := sel.objectType
      success := result.success && result.convertedSql != ""
      warnings := result.warnings
      errors := result.errors
      manualReviewRequired := result.manualReviewRequired
      postgresSyntaxValid := result.postgresSyntaxValid
      convertedSql := result.convertedSql }
  if isBlank sql then
    { obj with
      success := false
      errors := obj.errors ++ ["Source definition is empty"]
      status := .failed }
  else if isBlank obj.convertedSql then
    { obj with
      success := false
      errors := if obj.errors = [] then ["Conversion produced empty SQL"] else obj.errors
      status := .failed }
  else if !result.postgresSyntaxValid then
    { obj with
      success := false
      manualReviewRequired := true
      status := .failed
      errors :=
        if obj.errors.any ("PostgreSQL syntax:".isPrefixOf ·) then obj.errors
        else obj.errors ++ ["PostgreSQL syntax validation failed (pgparse)"] }
  else
    { obj with
      success := result.success
      status := if result.success then .pending else .failed }

def conversionReady (obj : ProceduralObjectResult) : Bool :=
  obj.success && obj.postgresSyntaxValid && !isBlank obj.convertedSql && obj.errors = []

/-- The results so far and the count of failures. -/
structure Tally where
  objects : List (String × ProceduralObjectResult)
  failures : Nat
  deriving DecidableEq, Repr

/-- A result is stored under its key, and counted if it is a failure. -/
def Tally.store (t : Tally) (key : String) (obj : ProceduralObjectResult) (failures : Nat) :
    Tally :=
  ⟨assign t.objects key obj, t.failures + failures⟩

def failedResult (schemaName : String) (sel : ProceduralObjectSelection) (error : String) :
    ProceduralObjectResult where
  name := sel.name
  schemaName := schemaName
  objectType := sel.objectType
  status := .failed
  errors := [error]
  manualReviewRequired := true

variable (rewriteQualifiers : String → String)

/-- The guarded part for one object: the tally when it ends or raises, and the text of what it
raises. -/
def attempt (schemaName : String) (sel : ProceduralObjectSelection) (env : ObjectEnv)
    (t : Tally) : Tally × Option String :=
  let key := objectKey schemaName sel.name
  let unread := t.store key (failedResult schemaName sel "Could not read source definition") 1
  match invalidName sel.name with
  | some error => (t, some error)
  | none =>
  match env.definition with
  | .error error => (t, some error)
  | .ok none => (unread, none)
  | .ok (some definition) =>
  if definition = "" then (unread, none) else
  match env.converted with
  | .error error => (t, some error)
  | .ok result =>
  let converted := convertDefinition definition sel schemaName result
  let raised : Option String :=
    match env.logged with
    | .ok () => none
    | .error error => some error
  if !conversionReady converted then
    (t.store key { converted with status := .failed } 1, raised)
  else
  let converted := { converted with convertedSql := rewriteQualifiers converted.convertedSql }
  match env.deployed with
  | .error error => (t, some error)
  | .ok deploy =>
  if !deploy.targetValidated then
    (t.store key
      { converted with
        status := .failed
        success := false
        errors := converted.errors ++ deploy.errors
        manualReviewRequired := true } 1, raised)
  else
    (t.store key
      { converted with
        status := .applied
        success := true
        targetValidated := true
        runtimeSmoke := deploy.runtimeSmoke
        warnings :=
          if deploy.runtimeSmoke.skipped && deploy.runtimeSmoke.message != "" then
            converted.warnings ++ [deploy.runtimeSmoke.message]
          else converted.warnings } 0, raised)

/-- The body of the loop: nothing when the process ends or the handler raises. -/
def runObject (schemaName : String) (sel : ProceduralObjectSelection) (env : ObjectEnv)
    (t : Tally) : Option Tally :=
  if env.ends then none
  else
    match attempt rewriteQualifiers schemaName sel env t with
    | (t', none) => some t'
    | (t', some error) =>
        if env.failureLogged then
          some (t'.store (objectKey schemaName sel.name) (failedResult schemaName sel error) 1)
        else none

def runObjects (schemaName : String) (env : Nat → ObjectEnv) :
    Nat → List ProceduralObjectSelection → Tally → Option Tally
  | _, [], t => some t
  | i, sel :: rest, t =>
      (runObject rewriteQualifiers schemaName sel (env i) t).bind
        (runObjects schemaName env (i + 1) rest)

end Objects

section Phase

def failureDetail (key : String) (obj : ProceduralObjectResult) : String :=
  let detail := if obj.errors = [] then "manual review required" else "; ".intercalate obj.errors
  let detail := if obj.errors = [] then obj.warnings.getLast?.getD detail else detail
  key ++ ": " ++ detail

def summarizeProceduralFailures (objects : List (String × ProceduralObjectResult)) :
    Option String :=
  match (objects.filter (·.2.status = .failed)).map fun p => failureDetail p.1 p.2 with
  | [] => none
  | [text] => some text
  | texts =>
      some (toString texts.length ++ " routine(s) failed — " ++ " | ".intercalate (texts.take 3))

/-- The phase's end, from the tally over the selected objects. -/
def conclude (state : ProceduralMigrationState) (t : Tally) : ProceduralMigrationState :=
  if t.failures = 0 then
    { state with status := .completed, lastError := none, objects := t.objects }
  else
    { state with
      status := if t.failures = state.selectedObjects.length then .failed else .partlyDone
      lastError := some ((summarizeProceduralFailures t.objects).getD
        (toString t.failures ++ " object(s) failed"))
      objects := t.objects }

/-- Whether a call goes on to the work. -/
def starts (s : ProceduralMigrationState) (force : Bool) : Bool :=
  s.hasSelection && (force || !(s.status = .completed || s.status = .inProgress))

variable (rewriteQualifiers : String → String → String → String)

/-- What is stored when a call has ended, in whatever way. -/
def migrate (s : ProceduralMigrationState) (call : Call) : ProceduralMigrationState :=
  let env := call.env
  if !s.hasSelection then
    if env.committed then { s with status := .skipped } else s
  else if !starts s call.force || !env.connectionsFound || !env.committed then s
  else
    let state := { s with status := .inProgress, lastError := none }
    if env.startLogged && env.opened && env.schemaEnsured then
      match runObjects (rewriteQualifiers s.sourceSchema s.targetSchema) s.sourceSchema env.object
          0 s.selectedObjects ⟨s.objects, 0⟩ with
      | some t => if env.disconnected && env.saved then conclude state t else state
      | none => state
    else state

end Phase

end SqlOptima.ProceduralMigration
