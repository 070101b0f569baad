import SqlOptima.JobDispatch
import SqlOptima.PythonTransforms

namespace SqlOptima.JobStatus

open JobDispatch (MigrationStatus terminalStatuses)
open PythonTransforms (lower)

def statusValue : MigrationStatus → String
  | .pending => "pending"
  | .queued => "queued"
  | .running => "running"
  | .completed => "completed"
  | .partialRun => "partial"
  | .failed => "failed"
  | .stopped => "stopped"
  | .paused => "paused"
  | .resumed => "resumed"

/-- `MigrationStatus(value)`, with `none` for the `ValueError`. -/
def ofValue : String → Option MigrationStatus
  | "pending" => some .pending
  | "queued" => some .queued
  | "running" => some .running
  | "completed" => some .completed
  | "partial" => some .partialRun
  | "failed" => some .failed
  | "stopped" => some .stopped
  | "paused" => some .paused
  | "resumed" => some .resumed
  | _ => none

def terminalDbStatuses : List String := ["completed", "partial", "failed", "stopped"]
def completedTableStatuses : List String := ["completed", "done"]
def finishedTableStatuses : List String := ["completed", "done", "failed", "skipped"]

/-- The row of a job and the statuses of its table plans, as far as the two
classifications read or write them. -/
structure JobRecord where
  status : Option String
  executor : String
  tablesTotal : Option Int
  tablePlans : List (Option String)
  completedAt : Option Int
  updatedAt : Int

/-- The copy of a job in memory: its status and the statuses of its own tables. -/
structure Job where
  status : MigrationStatus
  tables : List (Option String)

/-- `(status or "").lower()` -/
def statusText (status : Option String) : String := lower (status.getD "")

def JobRecord.tableStatuses (record : JobRecord) : List String :=
  record.tablePlans.map statusText

def Job.tableStatuses (job : Job) : List String := job.tables.map statusText

/-- `int(record.tables_total or len(record.table_plans))` -/
def JobRecord.total (record : JobRecord) : Int :=
  if record.tablesTotal.getD 0 = 0 then record.tablePlans.length
  else record.tablesTotal.getD 0

def goJobDataComplete (record : JobRecord) : Bool :=
  !record.tablePlans.isEmpty &&
    record.tableStatuses.all (· ∈ finishedTableStatuses) &&
      (0 < record.total && record.total ≤ record.tableStatuses.length)

/-- What is written to a job whose tables all came to an end. -/
def finishedStatus (statuses : List String) : MigrationStatus :=
  if statuses.any (· == "failed") then
    if statuses.any (· ∈ completedTableStatuses) then .partialRun else .failed
  else .completed

/-- The record after the call and whether it was changed. `now` is read twice. -/
def reconcileGoJobCompletion (finishedNow updatedNow : Int) (record : JobRecord) :
    Bool × JobRecord :=
  if record.executor ≠ "go" then (false, record)
  else if statusText record.status ∈ terminalDbStatuses then (false, record)
  else if goJobDataComplete record = false then (false, record)
  else
    (true, { record with
      status := some (statusValue (finishedStatus record.tableStatuses))
      completedAt := some (record.completedAt.getD finishedNow)
      updatedAt := updatedNow })

def activeStatuses : List MigrationStatus := [.running, .paused, .queued, .resumed]

def JobRecord.dbStatus (record : JobRecord) : Option MigrationStatus :=
  ofValue (statusText record.status)

/-- The answer a durable status gives by itself. -/
def recordVerdict (record : JobRecord) : Option MigrationStatus :=
  record.dbStatus.bind fun dbStatus =>
    if dbStatus ∈ terminalStatuses then some dbStatus
    else if dbStatus ∈ activeStatuses then
      some (if goJobDataComplete record then .completed else dbStatus)
    else none

def pendingTableStatuses : List String :=
  ["migrating", "running", "in_progress", "pending", "queued", ""]

def movingTableStatuses : List String := ["migrating", "running", "in_progress"]

/-- The answer the tables of the job in memory give. -/
def tablesVerdict (statuses : List String) : Option MigrationStatus :=
  if statuses.any (· ∈ pendingTableStatuses) = false ∧ 0 < statuses.countP (· == "failed") then
    some (if 0 < statuses.countP (· ∈ completedTableStatuses) then .partialRun else .failed)
  else if statuses ≠ [] ∧ statuses.all (· ∈ completedTableStatuses) then some .completed
  else if statuses.any (· ∈ movingTableStatuses) then some .running
  else none

def deriveJobStatus (job : Job) (record : Option JobRecord) : MigrationStatus :=
  match record.bind recordVerdict with
  | some status => status
  | none =>
      if job.status ∈ terminalStatuses then job.status
      else if job.tables = [] then job.status
      else
        match tablesVerdict job.tableStatuses with
        | some status => status
        | none => (record.bind JobRecord.dbStatus).getD job.status

@[simp] theorem ofValue_statusValue (status : MigrationStatus) :
    ofValue (statusValue status) = some status := by
  cases status <;> rfl

@[simp] theorem statusText_statusValue (status : MigrationStatus) :
    statusText (some (statusValue status)) = statusValue status := by
  cases status <;> decide

theorem mem_terminalDbStatuses_iff (text : String) :
    text ∈ terminalDbStatuses ↔ ∃ status ∈ terminalStatuses, ofValue text = some status := by
  constructor
  · intro h
    simp only [terminalDbStatuses, List.mem_cons, List.not_mem_nil, or_false] at h
    rcases h with rfl | rfl | rfl | rfl
    · exact ⟨.completed, by decide, rfl⟩
    · exact ⟨.partialRun, by decide, rfl⟩
    · exact ⟨.failed, by decide, rfl⟩
    · exact ⟨.stopped, by decide, rfl⟩
  · rintro ⟨status, hterminal, htext⟩
    unfold ofValue at htext
    split at htext <;> cases htext <;> revert hterminal <;> decide

theorem recordVerdict_of_terminal {record : JobRecord} {status : MigrationStatus}
    (hdb : record.dbStatus = some status) (hterminal : status ∈ terminalStatuses) :
    recordVerdict record = some status := by
  simp [recordVerdict, hdb, hterminal]

theorem recordVerdict_of_active {record : JobRecord} {status : MigrationStatus}
    (hdb : record.dbStatus = some status) (hactive : status ∈ activeStatuses) :
    recordVerdict record =
      some (if goJobDataComplete record then .completed else status) := by
  have hdisjoint : ∀ s ∈ activeStatuses, s ∉ terminalStatuses := by decide
  have hterminal := hdisjoint status hactive
  simp [recordVerdict, hdb, hterminal, hactive]

/-- A durable status that says nothing by itself: `pending` or no status at all. -/
def Undecided (record : JobRecord) : Prop :=
  ∀ status ∈ terminalStatuses ++ activeStatuses, record.dbStatus ≠ some status

instance (record : JobRecord) : Decidable (Undecided record) :=
  inferInstanceAs (Decidable (∀ status ∈ terminalStatuses ++ activeStatuses,
    record.dbStatus ≠ some status))

theorem recordVerdict_eq_none_iff (record : JobRecord) :
    recordVerdict record = none ↔ Undecided record := by
  simp only [recordVerdict, Undecided, List.mem_append]
  cases record.dbStatus with
  | none => simp
  | some status =>
      simp only [Option.bind_some, Option.some.injEq, ne_eq]
      split
      · next h => simp [h]
      · next h =>
          split
          · next h' => simp [h']
          · next h' =>
              refine iff_of_true rfl ?_
              rintro _ (hmem | hmem) rfl
              · exact h hmem
              · exact h' hmem

/-- How the statuses of a list of tables show a finished job. -/
def Shows (statuses : List String) : MigrationStatus → Prop
  | .completed => statuses ≠ [] ∧ ∀ s ∈ statuses, s ∈ completedTableStatuses
  | .partialRun =>
      (∀ s ∈ statuses, s ∉ pendingTableStatuses) ∧ "failed" ∈ statuses ∧
        ∃ s ∈ statuses, s ∈ completedTableStatuses
  | .failed =>
      (∀ s ∈ statuses, s ∉ pendingTableStatuses) ∧ "failed" ∈ statuses ∧
        ∀ s ∈ statuses, s ∉ completedTableStatuses
  | _ => False

theorem tablesVerdict_eq_some_iff (statuses : List String) {status : MigrationStatus}
    (h : status ∈ [.completed, .partialRun, .failed]) :
    tablesVerdict statuses = some status ↔ Shows statuses status := by
  have hpending : statuses.any (· ∈ pendingTableStatuses) = false ↔
      ∀ s ∈ statuses, s ∉ pendingTableStatuses := by simp
  have hfailed : 0 < statuses.countP (· == "failed") ↔ "failed" ∈ statuses := by
    simp [List.countP_pos_iff]
  have hcompleted : 0 < statuses.countP (· ∈ completedTableStatuses) ↔
      ∃ s ∈ statuses, s ∈ completedTableStatuses := by
    simp [List.countP_pos_iff]
  have hall : statuses.all (· ∈ completedTableStatuses) = true ↔
      ∀ s ∈ statuses, s ∈ completedTableStatuses := by simp
  -- a failed table is not a completed one, so the first two answers exclude each other
  have hexclude : "failed" ∈ statuses → ¬ ∀ s ∈ statuses, s ∈ completedTableStatuses :=
    fun hmem hforall => absurd (hforall _ hmem) (by decide)
  simp only [tablesVerdict, hpending, hfailed, hcompleted, hall]
  simp only [List.mem_cons, List.not_mem_nil, or_false] at h
  rcases h with rfl | rfl | rfl
  · simp only [Shows]
    split
    · next h => split <;> simp [hexclude h.2]
    · split
      · next h => exact iff_of_true rfl h
      · next h => split <;> simp [h]
  · simp only [Shows]
    split
    · next h => split <;> simp_all
    · next h =>
        refine iff_of_false ?_ fun hshows => h ⟨hshows.1, hshows.2.1⟩
        split
        · simp
        · split <;> simp
  · simp only [Shows]
    split
    · next h =>
        split
        · next hc =>
            obtain ⟨s, hs, hdone⟩ := hc
            exact iff_of_false (by simp) fun hshows => hshows.2.2 s hs hdone
        · next hc => exact iff_of_true rfl ⟨h.1, h.2, by simpa using hc⟩
    · next h =>
        refine iff_of_false ?_ fun hshows => h ⟨hshows.1, hshows.2.1⟩
        split
        · simp
        · split <;> simp

/-- The copy in memory stands for the status: it holds it, or its tables show it. -/
def SettlesAs (job : Job) (status : MigrationStatus) : Prop :=
  job.status = status ∨
    job.status ∉ terminalStatuses ∧ job.tables ≠ [] ∧ Shows job.tableStatuses status

theorem deriveJobStatus_of_verdict {job : Job} {record : JobRecord} {status : MigrationStatus}
    (h : recordVerdict record = some status) : deriveJobStatus job (some record) = status := by
  simp [deriveJobStatus, h]

theorem dbStatus_of_undecided {record : JobRecord} {status : MigrationStatus}
    (h : Undecided record) (hdb : record.dbStatus = some status) : status = .pending := by
  cases status with
  | pending => rfl
  | _ => exact absurd hdb (h _ (by decide))

theorem deriveJobStatus_eq_iff_of_undecided {job : Job} {record : JobRecord}
    {status : MigrationStatus} (h : Undecided record)
    (hstatus : status ∈ [.completed, .partialRun, .failed]) :
    deriveJobStatus job (some record) = status ↔ SettlesAs job status := by
  have hterminal : status ∈ terminalStatuses := by
    have hsub : ∀ s ∈ [MigrationStatus.completed, .partialRun, .failed],
        s ∈ terminalStatuses := by decide
    exact hsub status hstatus
  have hlast : job.status ∉ terminalStatuses →
      (record.dbStatus).getD job.status ≠ status := by
    intro hjob heq
    subst heq
    cases hdb : record.dbStatus with
    | none => exact hjob (by simpa [hdb] using hterminal)
    | some s =>
        have hpending : MigrationStatus.pending ∈ terminalStatuses := by
          simpa [hdb, dbStatus_of_undecided h hdb] using hterminal
        exact absurd hpending (by decide)
  simp only [deriveJobStatus, Option.bind_some, (recordVerdict_eq_none_iff record).2 h,
    SettlesAs]
  split
  · next hjob => simp [hjob]
  · next hjob =>
      have hne : job.status ≠ status := fun heq => hjob (heq ▸ hterminal)
      split
      · next hnil => simp [hne, hnil]
      · next hnil =>
          rw [← tablesVerdict_eq_some_iff _ hstatus]
          split
          · next s hs => simp [hs, hne, hjob, hnil]
          · next hs => simp [hs, hne, hlast hjob]

theorem reconcile_of_terminal {record : JobRecord} {status : MigrationStatus}
    (finishedNow updatedNow : Int) (hdb : record.dbStatus = some status)
    (hterminal : status ∈ terminalStatuses) :
    (reconcileGoJobCompletion finishedNow updatedNow record).2 = record := by
  have htext : statusText record.status ∈ terminalDbStatuses :=
    (mem_terminalDbStatuses_iff _).2 ⟨status, hterminal, hdb⟩
  simp only [reconcileGoJobCompletion, htext, if_true]
  split <;> rfl

theorem reconcile_of_not_complete {record : JobRecord} (finishedNow updatedNow : Int)
    (h : record.executor = "go" → goJobDataComplete record = false) :
    (reconcileGoJobCompletion finishedNow updatedNow record).2 = record := by
  unfold reconcileGoJobCompletion
  split
  · rfl
  · next hgo =>
      simp only [h (not_not.mp hgo), if_true]
      split <;> rfl

theorem derive_reconcile_of_complete {job : Job} {record : JobRecord}
    (finishedNow updatedNow : Int) (hgo : record.executor = "go")
    (hopen : ∀ status ∈ terminalStatuses, record.dbStatus ≠ some status)
    (hcomplete : goJobDataComplete record = true) :
    deriveJobStatus job (some (reconcileGoJobCompletion finishedNow updatedNow record).2) =
      finishedStatus record.tableStatuses := by
  have htext : statusText record.status ∉ terminalDbStatuses := by
    rw [mem_terminalDbStatuses_iff]
    rintro ⟨status, hterminal, hdb⟩
    exact hopen status hterminal hdb
  have hterminal : finishedStatus record.tableStatuses ∈ terminalStatuses := by
    unfold finishedStatus
    split
    · split <;> decide
    · decide
  apply deriveJobStatus_of_verdict
  refine recordVerdict_of_terminal ?_ hterminal
  simp [reconcileGoJobCompletion, hgo, htext, hcomplete, JobRecord.dbStatus]

def AllFinished (record : JobRecord) : Prop :=
  ∀ status ∈ record.tableStatuses, status ∈ finishedTableStatuses

def SomeFailed (record : JobRecord) : Prop := "failed" ∈ record.tableStatuses

def SomeCompleted (record : JobRecord) : Prop :=
  ∃ status ∈ record.tableStatuses, status ∈ completedTableStatuses

theorem finishedStatus_of_not_failed {record : JobRecord} (h : ¬ SomeFailed record) :
    finishedStatus record.tableStatuses = .completed := by
  have hany : ¬ (record.tableStatuses.any (· == "failed")) = true := by
    simpa [SomeFailed] using h
  rw [finishedStatus, if_neg hany]

theorem finishedStatus_of_failed {record : JobRecord} (h : SomeFailed record) :
    finishedStatus record.tableStatuses =
      if record.tableStatuses.any (· ∈ completedTableStatuses) then .partialRun
      else .failed := by
  have hany : record.tableStatuses.any (· == "failed") = true := by
    simpa [SomeFailed] using h
  rw [finishedStatus, if_pos hany]

theorem allFinished_of_complete {record : JobRecord} (h : goJobDataComplete record = true) :
    AllFinished record := by
  simp only [goJobDataComplete, Bool.and_eq_true] at h
  simpa [AllFinished] using h.1.2

/-- The two classifications give one answer, and a job whose tables came to an end
and did not all succeed is not reported as completed. -/
def StatusesAgree (job : Job) (record : JobRecord) (finishedNow updatedNow : Int) : Prop :=
  deriveJobStatus job (some record) =
      deriveJobStatus job
        (some (reconcileGoJobCompletion finishedNow updatedNow record).2) ∧
    (AllFinished record → SomeFailed record →
      deriveJobStatus job (some record) ≠ .completed)

/-- The copy in memory stands for what the finished plans of the record show. -/
def SettlesLikePlans (job : Job) (record : JobRecord) : Prop :=
  (¬ SomeFailed record → SettlesAs job .completed) ∧
    (SomeFailed record → SomeCompleted record → SettlesAs job .partialRun) ∧
    (SomeFailed record → ¬ SomeCompleted record → SettlesAs job .failed)

/-- No failed table behind a durable `completed`, none behind an active status of a
finished job, and a copy in memory that settles a record without a status as its
plans do. -/
def Unambiguous (job : Job) (record : JobRecord) : Prop :=
  (record.dbStatus = some .completed → AllFinished record → ¬ SomeFailed record) ∧
    (∀ status ∈ activeStatuses, record.dbStatus = some status →
      goJobDataComplete record = true → ¬ SomeFailed record) ∧
    (Undecided record →
      (record.executor = "go" → goJobDataComplete record = true →
        SettlesLikePlans job record) ∧
      (AllFinished record → SomeFailed record → ¬ SettlesAs job .completed))

theorem derive_eq_finished_iff {job : Job} {record : JobRecord} (h : Undecided record) :
    deriveJobStatus job (some record) = finishedStatus record.tableStatuses ↔
      SettlesLikePlans job record := by
  by_cases hfailed : SomeFailed record
  · rw [finishedStatus_of_failed hfailed]
    by_cases hcompleted : SomeCompleted record
    · have hany : record.tableStatuses.any (· ∈ completedTableStatuses) = true := by
        simpa [SomeCompleted] using hcompleted
      rw [if_pos hany, deriveJobStatus_eq_iff_of_undecided h (by decide)]
      simp [SettlesLikePlans, hfailed, hcompleted]
    · have hany : ¬ record.tableStatuses.any (· ∈ completedTableStatuses) = true := by
        simpa [SomeCompleted] using hcompleted
      rw [if_neg hany, deriveJobStatus_eq_iff_of_undecided h (by decide)]
      simp [SettlesLikePlans, hfailed, hcompleted]
  · rw [finishedStatus_of_not_failed hfailed,
      deriveJobStatus_eq_iff_of_undecided h (by decide)]
    simp [SettlesLikePlans, hfailed]

theorem not_undecided {record : JobRecord} {status : MigrationStatus}
    (hdb : record.dbStatus = some status)
    (hmem : status ∈ terminalStatuses ++ activeStatuses) : ¬ Undecided record :=
  fun h => h status hmem hdb

theorem agree_iff_of_terminal {job : Job} {record : JobRecord} {status : MigrationStatus}
    (finishedNow updatedNow : Int) (hdb : record.dbStatus = some status)
    (hterminal : status ∈ terminalStatuses) :
    StatusesAgree job record finishedNow updatedNow ↔ Unambiguous job record := by
  have hnot : ¬ Undecided record := not_undecided hdb (List.mem_append_left _ hterminal)
  have hdisjoint : ∀ s ∈ terminalStatuses, s ∉ activeStatuses := by decide
  simp only [StatusesAgree, Unambiguous,
    reconcile_of_terminal finishedNow updatedNow hdb hterminal,
    deriveJobStatus_of_verdict (recordVerdict_of_terminal hdb hterminal), true_and]
  constructor
  · intro h
    refine ⟨fun hcompleted hfin hfailed => ?_, fun s hs hdb' => ?_, fun h' => absurd h' hnot⟩
    · exact h hfin hfailed (Option.some.inj (hdb.symm.trans hcompleted))
    · have heq : s = status := Option.some.inj (hdb'.symm.trans hdb)
      exact absurd hs (heq ▸ hdisjoint status hterminal)
  · rintro ⟨h, -, -⟩ hfin hfailed rfl
    exact h hdb hfin hfailed

theorem agree_iff_of_active {job : Job} {record : JobRecord} {status : MigrationStatus}
    (finishedNow updatedNow : Int) (hdb : record.dbStatus = some status)
    (hactive : status ∈ activeStatuses) :
    StatusesAgree job record finishedNow updatedNow ↔ Unambiguous job record := by
  have hnot : ¬ Undecided record := not_undecided hdb (List.mem_append_right _ hactive)
  have hdisjoint : ∀ s ∈ activeStatuses, s ∉ terminalStatuses := by decide
  have hopen : ∀ s ∈ terminalStatuses, record.dbStatus ≠ some s := by
    intro s hs hdb'
    have heq : s = status := Option.some.inj (hdb'.symm.trans hdb)
    exact hdisjoint status hactive (heq ▸ hs)
  have hderive : deriveJobStatus job (some record) =
      if goJobDataComplete record then .completed else status :=
    deriveJobStatus_of_verdict (recordVerdict_of_active hdb hactive)
  constructor
  · rintro ⟨-, hnever⟩
    refine ⟨fun hcompleted => absurd hcompleted (hopen _ (by decide)), ?_,
      fun h' => absurd h' hnot⟩
    intro _ _ _ hcomplete hfailed
    apply hnever (allFinished_of_complete hcomplete) hfailed
    rw [hderive, if_pos hcomplete]
  · rintro ⟨-, hclean, -⟩
    have hclean' := hclean status hactive hdb
    by_cases hcomplete : goJobDataComplete record = true
    · refine ⟨?_, fun _ hfailed => absurd hfailed (hclean' hcomplete)⟩
      rw [hderive, if_pos hcomplete]
      by_cases hgo : record.executor = "go"
      · rw [derive_reconcile_of_complete finishedNow updatedNow hgo hopen hcomplete,
          finishedStatus_of_not_failed (hclean' hcomplete)]
      · rw [reconcile_of_not_complete finishedNow updatedNow fun h => absurd h hgo,
          hderive, if_pos hcomplete]
    · have hincomplete : goJobDataComplete record = false := by simpa using hcomplete
      rw [StatusesAgree,
        reconcile_of_not_complete finishedNow updatedNow fun _ => hincomplete]
      refine ⟨rfl, fun _ _ heq => ?_⟩
      rw [hderive, if_neg hcomplete] at heq
      exact hdisjoint status hactive (heq ▸ by decide)

theorem agree_iff_of_undecided {job : Job} {record : JobRecord}
    (finishedNow updatedNow : Int) (hundecided : Undecided record) :
    StatusesAgree job record finishedNow updatedNow ↔ Unambiguous job record := by
  have hopen : ∀ s ∈ terminalStatuses, record.dbStatus ≠ some s :=
    fun s hs => hundecided s (List.mem_append_left _ hs)
  have hidle : ∀ s ∈ activeStatuses, record.dbStatus ≠ some s :=
    fun s hs => hundecided s (List.mem_append_right _ hs)
  have hnever : deriveJobStatus job (some record) ≠ .completed ↔
      ¬ SettlesAs job .completed :=
    not_congr (deriveJobStatus_eq_iff_of_undecided hundecided (by decide))
  have hequal : deriveJobStatus job (some record) = deriveJobStatus job
      (some (reconcileGoJobCompletion finishedNow updatedNow record).2) ↔
      (record.executor = "go" → goJobDataComplete record = true →
        SettlesLikePlans job record) := by
    by_cases h : record.executor = "go" ∧ goJobDataComplete record = true
    · rw [derive_reconcile_of_complete finishedNow updatedNow h.1 hopen h.2,
        derive_eq_finished_iff hundecided]
      simp [h.1, h.2]
    · rw [reconcile_of_not_complete finishedNow updatedNow fun hgo => by simpa [hgo] using h]
      simpa using fun hgo hcomplete => absurd ⟨hgo, hcomplete⟩ h
  rw [StatusesAgree, Unambiguous, hequal, hnever]
  constructor
  · intro h
    exact ⟨fun hdb => absurd hdb (hopen _ (by decide)),
      fun s hs hdb => absurd hdb (hidle s hs), fun _ => h⟩
  · rintro ⟨-, -, h⟩
    exact h hundecided

theorem statusesAgree_iff (job : Job) (record : JobRecord) (finishedNow updatedNow : Int) :
    StatusesAgree job record finishedNow updatedNow ↔ Unambiguous job record := by
  by_cases hundecided : Undecided record
  · exact agree_iff_of_undecided finishedNow updatedNow hundecided
  · simp only [Undecided, not_forall, not_not] at hundecided
    obtain ⟨status, hmem, hdb⟩ := hundecided
    rcases List.mem_append.mp hmem with hterminal | hactive
    · exact agree_iff_of_terminal finishedNow updatedNow hdb hterminal
    · exact agree_iff_of_active finishedNow updatedNow hdb hactive

/-- A running Go job with one copied and one failed table. -/
def halfFailedRecord : JobRecord where
  status := some "running"
  executor := "go"
  tablesTotal := some 2
  tablePlans := [some "completed", some "failed"]
  completedAt := none
  updatedAt := 0

def halfFailedJob : Job where
  status := .running
  tables := [some "completed", some "failed"]

theorem half_failed_job_derived_completed :
    ¬ StatusesAgree halfFailedJob halfFailedRecord 1 2 ∧
      deriveJobStatus halfFailedJob (some halfFailedRecord) = .completed ∧
      deriveJobStatus halfFailedJob
        (some (reconcileGoJobCompletion 1 2 halfFailedRecord).2) = .partialRun := by
  have hbefore : deriveJobStatus halfFailedJob (some halfFailedRecord) = .completed := by
    decide
  have hafter : deriveJobStatus halfFailedJob
      (some (reconcileGoJobCompletion 1 2 halfFailedRecord).2) = .partialRun := by
    decide
  refine ⟨fun h => ?_, hbefore, hafter⟩
  have heq := h.1
  rw [hbefore, hafter] at heq
  cases heq

end SqlOptima.JobStatus
