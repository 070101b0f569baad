import SqlOptima.JobCache

namespace SqlOptima.WorkflowBridge

open TransitionSystem
open JobCache (written)

inductive TemporalJobStatus where
  | running | completed | failed | cancelled | terminated | timedOut | unknown
  deriving DecidableEq, Repr

def TemporalJobStatus.ofValue : String → Option TemporalJobStatus
  | "RUNNING" => some .running
  | "COMPLETED" => some .completed
  | "FAILED" => some .failed
  | "CANCELLED" => some .cancelled
  | "TERMINATED" => some .terminated
  | "TIMED_OUT" => some .timedOut
  | "UNKNOWN" => some .unknown
  | _ => none

def temporalStatusToJobStatus : TemporalJobStatus → String
  | .running => "RUNNING"
  | .completed => "COMPLETED"
  | .failed => "FAILED"
  | .cancelled => "STOPPED"
  | .terminated => "STOPPED"
  | .timedOut => "FAILED"
  | .unknown => "RUNNING"

/-- `str.upper`, as far as a lookup among ASCII names can tell. -/
def upperChar : Char → List Char
  | '\u00df' => ['S', 'S']
  | '\u0131' => ['I']
  | '\u017f' => ['S']
  | '\ufb00' => ['F', 'F']
  | '\ufb01' => ['F', 'I']
  | '\ufb02' => ['F', 'L']
  | '\ufb03' => ['F', 'F', 'I']
  | '\ufb04' => ['F', 'F', 'L']
  | '\ufb05' => ['S', 'T']
  | '\ufb06' => ['S', 'T']
  | c => [c.toUpper]

def upper (s : String) : String := String.ofList (s.toList.flatMap upperChar)

/-- What the Temporal server answers to a describe call. -/
inductive Description where
  | raised
  | withoutStatus
  | named (name : String)

/-- The name of the status as it is looked up. -/
def Description.raw : Description → Option String
  | .raised => none
  | .withoutStatus => some "UNKNOWN"
  | .named name => some (upper name)

def describeWorkflow (description : Description) : TemporalJobStatus :=
  (description.raw.bind TemporalJobStatus.ofValue).getD .unknown

structure JobRow where
  status : String
  workflowHandleId : Option String
  completedAt : Option Int
  deriving DecidableEq

def endStatuses : List String := ["COMPLETED", "FAILED", "STOPPED"]

/-- The row as `sync_status` leaves it in its session. -/
def syncedRow (job : JobRow) (description : Description) (now : Int) : JobRow :=
  let newStatus := temporalStatusToJobStatus (describeWorkflow description)
  { job with
    status := newStatus
    completedAt :=
      if newStatus ∈ endStatuses ∧ job.completedAt = none then some now else job.completedAt }

/-- The row as `cancel_workflow` leaves it in its session, whatever the server answered. -/
def cancelledRow (job : JobRow) (now : Int) : JobRow :=
  { job with status := "STOPPED", completedAt := some now }

def flush (loaded wanted current : JobRow) : JobRow :=
  { current with
    status := written loaded.status wanted.status current.status
    completedAt := written loaded.completedAt wanted.completedAt current.completedAt }

def controlled (job : JobRow) : Bool := job.workflowHandleId.getD "" ≠ ""

/-- The row of a job and, of every call of `sync_status` and `cancel_workflow` under
way, the row it has loaded. -/
structure State (S C : Type) where
  row : JobRow
  syncs : S → Option JobRow
  cancels : C → Option JobRow

inductive Label (S C : Type) where
  | syncGet (i : S)
  | syncCommit (i : S) (description : Description) (now : Int)
  | syncFail (i : S)
  | cancelGet (c : C)
  | cancelCommit (c : C) (now : Int)
  | cancelFail (c : C)

section Steps

variable {S C : Type} [DecidableEq S] [DecidableEq C]

def step (s : State S C) : Label S C → Option (State S C)
  | .syncGet i =>
      match s.syncs i with
      | some _ => none
      | none =>
          if controlled s.row then
            some { s with syncs := Function.update s.syncs i (some s.row) }
          else some s
  | .syncCommit i description now =>
      (s.syncs i).map fun loaded =>
        { s with
          row := flush loaded (syncedRow loaded description now) s.row
          syncs := Function.update s.syncs i none }
  | .syncFail i => some { s with syncs := Function.update s.syncs i none }
  | .cancelGet c =>
      match s.cancels c with
      | some _ => none
      | none =>
          if controlled s.row then
            some { s with cancels := Function.update s.cancels c (some s.row) }
          else some s
  | .cancelCommit c now =>
      (s.cancels c).map fun loaded =>
        { s with
          row := flush loaded (cancelledRow loaded now) s.row
          cancels := Function.update s.cancels c none }
  | .cancelFail c => some { s with cancels := Function.update s.cancels c none }

end Steps

/-- The server named an end of the workflow, in a spelling that is known. -/
def TellsEnd (description : Description) : Prop :=
  ∃ name ∈ ["COMPLETED", "FAILED", "CANCELLED", "TERMINATED", "TIMED_OUT"],
    description.raw = some name

theorem jobStatus_mem_endStatuses_iff (description : Description) :
    temporalStatusToJobStatus (describeWorkflow description) ∈ endStatuses ↔
      TellsEnd description := by
  unfold describeWorkflow TellsEnd
  cases description.raw with
  | none => simp [temporalStatusToJobStatus, endStatuses]
  | some raw =>
      simp only [Option.bind_some, Option.some.injEq, exists_eq_right']
      unfold TemporalJobStatus.ofValue
      split <;> simp_all [temporalStatusToJobStatus, endStatuses]

theorem jobStatus_mem (description : Description) :
    temporalStatusToJobStatus (describeWorkflow description) ∈ "RUNNING" :: endStatuses := by
  cases describeWorkflow description <;> decide

section Runs

variable {S C : Type}

/-- A job that came to an end is not put back to running by the step. -/
def StaysEnded (s t : State S C) : Prop :=
  s.row.status ∈ endStatuses → t.row.status ≠ "RUNNING"

/-- A sync that commits to an ended job has heard of an end, or it loaded the job while
that was running and so has nothing to write. -/
def Heeds (s : State S C) : Label S C → Prop
  | .syncCommit i description _ =>
      s.row.status ∈ endStatuses →
        TellsEnd description ∨ ∀ loaded, s.syncs i = some loaded → loaded.status = "RUNNING"
  | _ => True

variable [DecidableEq S] [DecidableEq C] {s t : State S C} {l : Label S C}

/-- What a step does to the status: a sync writes what it heard, a cancel writes
`STOPPED`, both only if they had loaded another status. -/
inductive StatusChange (s t : State S C) : Label S C → Prop where
  | same {l : Label S C} (h : t.row.status = s.row.status)
      (hl : ∀ i description now, l ≠ .syncCommit i description now) : StatusChange s t l
  | synced {i : S} {description : Description} {now : Int} {loaded : JobRow}
      (hloaded : s.syncs i = some loaded)
      (h : t.row.status = written loaded.status
        (temporalStatusToJobStatus (describeWorkflow description)) s.row.status) :
      StatusChange s t (.syncCommit i description now)
  | cancelled {c : C} {now : Int} {loaded : JobRow}
      (h : t.row.status = written loaded.status "STOPPED" s.row.status) :
      StatusChange s t (.cancelCommit c now)

theorem statusChange_of_step (h : step s l = some t) : StatusChange s t l := by
  cases l with
  | syncGet i =>
      simp only [step] at h
      split at h
      · cases h
      · split at h <;> cases h <;> exact .same rfl (by simp)
  | syncCommit i description now =>
      obtain ⟨loaded, hloaded, rfl⟩ := Option.map_eq_some_iff.mp h
      exact .synced hloaded rfl
  | syncFail i =>
      cases h
      exact .same rfl (by simp)
  | cancelGet c =>
      simp only [step] at h
      split at h
      · cases h
      · split at h <;> cases h <;> exact .same rfl (by simp)
  | cancelCommit c now =>
      obtain ⟨loaded, hloaded, rfl⟩ := Option.map_eq_some_iff.mp h
      exact .cancelled rfl
  | cancelFail c =>
      cases h
      exact .same rfl (by simp)

theorem staysEnded_iff (h : step s l = some t) : StaysEnded s t ↔ Heeds s l := by
  have hrunning : ∀ status ∈ endStatuses, status ≠ "RUNNING" := by decide
  cases statusChange_of_step h with
  | same hsame hl =>
      have hheeds : Heeds s l := by
        cases l with
        | syncCommit i description now => exact absurd rfl (hl i description now)
        | _ => trivial
      refine iff_of_true (fun hs => ?_) hheeds
      rw [hsame]
      exact hrunning _ hs
  | cancelled hwrite =>
      refine iff_of_true (fun hs => ?_) trivial
      rw [hwrite, written]
      split
      · exact hrunning _ hs
      · decide
  | @synced i description now loaded hloaded hwrite =>
      apply imp_congr_right
      intro hs
      simp only [hloaded, Option.some.injEq, forall_eq', ← jobStatus_mem_endStatuses_iff]
      rw [hwrite, written]
      rcases List.mem_cons.mp (jobStatus_mem description) with hnew | hnew
      · rw [hnew]
        by_cases hl : loaded.status = "RUNNING"
        · simpa [hl] using hrunning _ hs
        · rw [if_neg (Ne.symm hl)]
          simp [hl, endStatuses]
      · refine iff_of_true ?_ (.inl hnew)
        split
        · exact hrunning _ hs
        · exact hrunning _ hnew

theorem status_mem_endStatuses_of_step (h : step s l = some t) (hs : s.row.status ∈ endStatuses)
    (ht : t.row.status ≠ "RUNNING") : t.row.status ∈ endStatuses := by
  cases statusChange_of_step h with
  | same hsame => exact hsame ▸ hs
  | cancelled hwrite =>
      rw [hwrite, written]
      split
      · exact hs
      · decide
  | @synced i description now loaded hloaded hwrite =>
      rw [hwrite, written] at ht ⊢
      split at ht
      · next hsame =>
          rw [if_pos hsame]
          exact hs
      · next hsame =>
          rw [if_neg hsame]
          exact (List.mem_cons.mp (jobStatus_mem description)).resolve_left ht

/-- Along every run, a job that has come to an end is never running again, if and only if
every sync that commits to an ended job heeds it. -/
theorem ended_absorbing_along_run_iff {ls : List (Label S C)}
    (hrun : (runSteps step s ls).isSome) :
    (∀ pre post a b, pre ++ post <+: ls → runSteps step s pre = some a →
      runSteps step s (pre ++ post) = some b → a.row.status ∈ endStatuses →
        b.row.status ≠ "RUNNING") ↔
      ∀ pre l a, pre ++ [l] <+: ls → runSteps step s pre = some a → Heeds a l := by
  have hsteps : (∀ pre l a b, pre ++ [l] <+: ls → runSteps step s pre = some a →
      step a l = some b → StaysEnded a b) ↔
        ∀ pre l a, pre ++ [l] <+: ls → runSteps step s pre = some a → Heeds a l := by
    refine along_steps_iff (J := fun _ => True) (Q := fun a _ b => StaysEnded a b) trivial
      ?_ ?_ hrun
    · intro a l b _ _ _
      trivial
    · intro a l b _ hb
      exact staysEnded_iff hb
  rw [← hsteps]
  constructor
  · intro h pre l a b hpre ha hb hend
    refine h pre [l] a b hpre ha ?_ hend
    rw [runSteps_append, ha]
    simp [runSteps, hb]
  · intro h pre post a b hpre ha hb hend
    have hb' : b.row.status ∈ endStatuses :=
      persists_along (P := fun c => c.row.status ∈ endStatuses)
        (fun pre l c d hpre hc hd hs =>
          status_mem_endStatuses_of_step hd hs (h pre l c d hpre hc hd hs)) hpre ha hb hend
    intro hrunning
    rw [hrunning] at hb'
    exact absurd hb' (by decide)

end Runs

section Examples

def runningWorkflow : State Unit Unit where
  row := { status := "RUNNING", workflowHandleId := some "migration-1", completedAt := none }
  syncs := fun _ => none
  cancels := fun _ => none

/-- The workflow is cancelled; a later sync hears of that in Temporal's own spelling. -/
def cancelThenSync : List (Label Unit Unit) :=
  [.cancelGet (), .cancelCommit () 1, .syncGet (), .syncCommit () (.named "CANCELED") 2]

theorem ended_absorbing_cancelThenSync_iff :
    (runSteps step runningWorkflow cancelThenSync).isSome ∧
      ((∀ pre post a b, pre ++ post <+: cancelThenSync →
        runSteps step runningWorkflow pre = some a →
        runSteps step runningWorkflow (pre ++ post) = some b → a.row.status ∈ endStatuses →
          b.row.status ≠ "RUNNING") ↔
      ∀ pre l a, pre ++ [l] <+: cancelThenSync → runSteps step runningWorkflow pre = some a →
        Heeds a l) :=
  ⟨by decide, ended_absorbing_along_run_iff (by decide)⟩

theorem cancelled_job_runs_again :
    (∃ a, runSteps step runningWorkflow (cancelThenSync.take 2) = some a ∧
      a.row.status = "STOPPED") ∧
      ∃ b, runSteps step runningWorkflow cancelThenSync = some b ∧ b.row.status = "RUNNING" := by
  have hstatus : ∀ ls : List (Label Unit Unit), ∀ status,
      (runSteps step runningWorkflow ls).map (fun s => s.row.status) = some status →
        ∃ a, runSteps step runningWorkflow ls = some a ∧ a.row.status = status :=
    fun ls status h => Option.map_eq_some_iff.mp h
  exact ⟨hstatus _ _ (by decide), hstatus _ _ (by decide)⟩

end Examples

end SqlOptima.WorkflowBridge
