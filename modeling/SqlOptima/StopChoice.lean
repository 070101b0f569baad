import SqlOptima.TransferLifecycle
import SqlOptima.TransferStop

namespace SqlOptima.StopChoice

open TransferCommands TransferKeys TransferCopier TransferJob TransferStop
open TransferLifecycle (TransferStatus terminalStatuses)
open ConstraintPlan ConstraintRestore

section Record

/-- The parts of a job's row that `stop_job` reads or writes, and the copy of the plan in the
configuration that the worker loads. -/
structure TransferRecord where
  status : TransferStatus
  constraintPlan : TransferConstraintPlan
  configPlan : TransferConstraintPlan

def createJob (plan : TransferConstraintPlan) : TransferRecord := ⟨.queued, plan, plan⟩

def stopJob (restore : Bool) (record : TransferRecord) : TransferRecord :=
  if terminalStatuses.contains record.status then record
  else
    { record with
      status := .stopped
      constraintPlan :=
        { record.constraintPlan with
          onStop := if restore then "restore_now" else "leave_disabled" } }

/-- What happens to the row before the worker loads the configuration. -/
inductive RecordStep where
  | setStatus (status : TransferStatus)
  | stop (restore : Bool)
  deriving DecidableEq, Repr

def RecordStep.apply (record : TransferRecord) : RecordStep → TransferRecord
  | .setStatus status => { record with status := status }
  | .stop restore => stopJob restore record

theorem configPlan_apply (record : TransferRecord) (e : RecordStep) :
    (e.apply record).configPlan = record.configPlan := by
  cases e with
  | setStatus status => rfl
  | stop restore =>
      change (stopJob restore record).configPlan = _
      unfold stopJob
      split
      · rfl
      · rfl

/-- The configuration keeps the plan that the job was created with. -/
theorem configPlan_of_steps (plan : TransferConstraintPlan) (es : List RecordStep) :
    (es.foldl RecordStep.apply (createJob plan)).configPlan = plan := by
  induction es using List.reverseRecOn with
  | nil => rfl
  | append_singleton es e ih =>
      rw [List.foldl_append]
      exact (configPlan_apply _ e).trans ih

end Record

section Stops

variable {Row : Type} {log log' : List (Event Row)} {site : Site} {stops : Bool}

/-- A stop was read outside of the loop of `copyBCP`. -/
def StopsOutside (log : List (Event Row)) : Prop :=
  ∃ site recorded, site ≠ .bulkCopy ∧ .stop site recorded ∈ log

theorem stopsOutside_append :
    StopsOutside (log ++ log') ↔ StopsOutside log ∨ StopsOutside log' := by
  constructor
  · rintro ⟨site, recorded, hsite, hmem⟩
    rcases List.mem_append.mp hmem with h | h
    · exact Or.inl ⟨site, recorded, hsite, h⟩
    · exact Or.inr ⟨site, recorded, hsite, h⟩
  · rintro (⟨site, recorded, hsite, h⟩ | ⟨site, recorded, hsite, h⟩)
    · exact ⟨site, recorded, hsite, List.mem_append_left _ h⟩
    · exact ⟨site, recorded, hsite, List.mem_append_right _ h⟩

theorem not_stopsOutside_of_noStop (h : NoStop log) : ¬ StopsOutside log :=
  fun ⟨site, recorded, _, hmem⟩ => h site recorded hmem

theorem stopsOutside_iff_of_ending (hsite : site ≠ .bulkCopy) (h : Ending site log stops) :
    StopsOutside log ↔ stops = true := by
  cases h with
  | @stopped before recorded hbefore hstatus =>
      exact iff_of_true ⟨site, recorded, hsite, by simp⟩ rfl
  | running hlog => exact iff_of_false (not_stopsOutside_of_noStop hlog) Bool.false_ne_true

theorem not_stopsOutside_of_bulkCopy (h : Ending .bulkCopy log stops) : ¬ StopsOutside log := by
  cases h with
  | @stopped before recorded hbefore hstatus =>
      rw [stopsOutside_append]
      rintro (h | ⟨site, recorded', hsite, hmem⟩)
      · exact not_stopsOutside_of_noStop hbefore h
      · rw [List.mem_singleton] at hmem
        cases hmem
        exact hsite rfl
  | running hlog => exact not_stopsOutside_of_noStop hlog

end Stops

section Copy

variable {Row : Type} {sql : SqlOrder} {sprint : Option DriverValue → List UInt8}
  {t : Tables Row sql} {r : CopyRequest} {chunk : Int64}

/-- The copy returns the stop exactly when it was read outside of the bulk copy. -/
def StopReturned (o : Outcome Row) : Prop := StopsOutside o.log ↔ o.error = some .stopped

theorem stopReturned_of_ending {o : Outcome Row}
    (h : Ending .stream o.log (o.error == some .stopped)) : StopReturned o :=
  (stopsOutside_iff_of_ending (by decide) h).trans beq_iff_eq

theorem stopReturned_copyStream (target : List Row) :
    StopReturned (copyStream sprint t r target chunk) :=
  stopReturned_of_ending ending_copyStream

theorem stopReturned_copyBCPOrStream : StopReturned (copyBCPOrStream sprint t r chunk) := by
  have hbulk : ¬ StopsOutside (copyBCP t r t.target chunk).log :=
    not_stopsOutside_of_bulkCopy ending_copyBCP
  unfold StopReturned copyBCPOrStream
  cases herror : (copyBCP t r t.target chunk).error with
  | none =>
      simp only [herror]
      exact iff_of_false hbulk (Option.some_ne_none _).symm
  | some e =>
      simp only [herror]
      rw [Outcome.after, stopsOutside_append]
      exact (or_iff_right hbulk).trans (stopReturned_copyStream _)

theorem stopReturned_copyByMode (mode : TransferRange.CopyMode) :
    StopReturned (copyByMode sprint t r mode chunk) := by
  cases mode with
  | streamBulk => exact stopReturned_copyStream _
  | bcpNative => exact stopReturned_copyBCPOrStream
  | insertSelect =>
      change StopReturned (copyInsertSelect sprint t r t.target chunk)
      unfold copyInsertSelect
      cases t.order with
      | integer => exact stopReturned_of_ending ending_streamInteger
      | heap => exact stopReturned_copyStream _
      | keyset => exact stopReturned_copyStream _

theorem stopReturned_move (m : Move Row) : StopReturned (move sprint m) := by
  cases m with
  | whole landed ok =>
      refine iff_of_false (not_stopsOutside_of_noStop (noStop_rows noStop_nil landed)) ?_
      cases ok <;> simp [move]
  | unsupported => exact iff_of_false (not_stopsOutside_of_noStop noStop_nil) (by simp [move])
  | sqlServer sql t r =>
      change StopReturned (copySQLServerToSQLServer sprint t r)
      rcases copy_cases sprint t r with ⟨e, he, heq⟩ | ⟨mode, heq⟩
      · rw [heq]
        exact iff_of_false (not_stopsOutside_of_noStop noStop_nil) he
      · rw [heq]
        exact stopReturned_copyByMode mode

end Copy

section Job

variable {Row : Type} {sprint : Option DriverValue → List UInt8} {j : JobRequest Row}
  {outcome : CopyOutcome}

theorem ending_after (res : JobResult Row) (log : List (Event Row)) :
    (res.after log).ending = res.ending :=
  rfl

theorem stopsOutside_after (res : JobResult Row) (log : List (Event Row)) :
    StopsOutside (res.after log).log ↔ StopsOutside log ∨ StopsOutside res.log :=
  stopsOutside_append

theorem stopsOutside_check {polls : List Poll} :
    StopsOutside (checkEvents .handler (checkBeforeChunk polls) : List (Event Row)) ↔
      (checkBeforeChunk polls).result = .stopped :=
  (stopsOutside_iff_of_ending (by decide) (ending_checkEvents .handler _)).trans beq_iff_eq

theorem not_stopsOutside_setStatus (s : JobStatus) : ¬ StopsOutside (setStatus j s) :=
  not_stopsOutside_of_noStop (noStop_setStatus s)

/-- The tables end with a stop exactly when one was read outside of the bulk copy. -/
theorem runTables_stopped_iff (tables : List (TableStep Row)) :
    (runTables sprint j tables).ending = .copied .stopped ↔
      StopsOutside (runTables sprint j tables).log := by
  induction tables with
  | nil =>
      rw [runTables]
      split
      · exact iff_of_false (by simp) (not_stopsOutside_setStatus _)
      · exact iff_of_false (by simp) (not_stopsOutside_setStatus _)
      · exact iff_of_false (by simp [failJob]) (not_stopsOutside_setStatus _)
      · exact iff_of_false (by simp [failJob]) (not_stopsOutside_setStatus _)
  | cons table rest ih =>
      have hcheck : StopsOutside (checkEvents .handler (checkBeforeChunk table.polls) :
        List (Event Row)) ↔ _ := stopsOutside_check
      have hmove : StopsOutside (move sprint table.move).log ↔ _ := stopReturned_move table.move
      rw [runTables]
      simp only
      rw [ending_after, stopsOutside_after, hcheck]
      cases hresult : (checkBeforeChunk table.polls).result with
      | stopped => simp
      | failed =>
          refine iff_of_false (by simp [failJob]) ?_
          rintro (h | h)
          · cases h
          · exact not_stopsOutside_setStatus _ h
      | proceed =>
          simp only
          rw [ending_after, stopsOutside_after, hmove, or_iff_right (by simp)]
          cases herror : (move sprint table.move).error with
          | none => simpa using ih
          | some e =>
              cases e with
              | stopped => simp
              | failed =>
                  refine iff_of_false (by simp [failJob]) ?_
                  rintro (h | h)
                  · cases h
                  · exact not_stopsOutside_setStatus _ h

/-- A stage that the job got past. -/
theorem runStage_of_copied {stage : Stage} {failed : JobEnd} {next : JobResult Row}
    (hfailed : failed ≠ .copied outcome)
    (h : (runStage j stage failed next).ending = .copied outcome) :
    stage ≠ .refused ∧ stage ≠ .ran false ∧
      ∃ events, ¬ StopsOutside events ∧ runStage j stage failed next = next.after events := by
  cases stage with
  | skipped =>
      exact ⟨by decide, by decide, [], not_stopsOutside_of_noStop noStop_nil, rfl⟩
  | refused => cases h
  | ran ok =>
      cases ok with
      | true => exact ⟨by decide, by decide, _, not_stopsOutside_setStatus _, rfl⟩
      | false => exact absurd h hfailed

/-- A job that came to the copy went through its checks, and through the constraint stage. -/
theorem handleJob_of_copied (h : (handleJob sprint j).ending = .copied outcome) :
    constraintStage j ≠ .refused ∧ constraintStage j ≠ .ran false ∧
      (runTables sprint j j.tables).ending = .copied outcome ∧
      (StopsOutside (handleJob sprint j).log ↔
        StopsOutside (runTables sprint j j.tables).log) := by
  have hcheck : StopsOutside (checkEvents .handler (checkBeforeChunk j.polls) :
    List (Event Row)) ↔ _ := stopsOutside_check
  unfold handleJob at h ⊢
  split at h
  · cases h
  · next hpath =>
      rw [if_neg hpath]
      rw [ending_after] at h
      simp only
      rw [stopsOutside_after, hcheck]
      cases hresult : (checkBeforeChunk j.polls).result with
      | stopped =>
          simp only [hresult] at h
          cases h
      | failed =>
          simp only [hresult] at h
          cases h
      | proceed =>
          simp only [hresult] at h ⊢
          split at h
          · cases h
          · next hconnected =>
              rw [if_neg hconnected]
              obtain ⟨-, -, before, hbefore, hpre⟩ := runStage_of_copied (by simp) h
              rw [hpre, ending_after] at h
              obtain ⟨hrefused, hfalse, events, hevents, hstage⟩ :=
                runStage_of_copied (by simp) h
              rw [hpre, hstage, stopsOutside_after, stopsOutside_after, stopsOutside_after]
              rw [hstage] at h
              refine ⟨hrefused, hfalse, h, ?_⟩
              rw [or_iff_right (by simp), or_iff_right hbefore, or_iff_right hevents,
                or_iff_right (not_stopsOutside_setStatus _)]

/-- What the operator's choice asks of the end of the job: every disabled constraint has had its turn
in the restore, or the destination is as `Apply` left it. -/
def Honoured (j : JobRequest Row) (restore : Bool) (run : JobRun) : Prop :=
  let items := disableConstraintItems (parseTransferConstraintPlan j.constraintPlan)
  if restore then
    run.tried = (restoreItems j.target run.dropped items).tried ∧
      run.missing = (restoreItems j.target run.dropped items).missing
  else run.tried = [] ∧ run.missing = run.dropped

theorem restore_tries_something {t : ConstraintRestore.Target} (gone : List TransferConstraintItem)
    {items : List TransferConstraintItem} (h : items ≠ []) :
    (restoreItems t gone items).tried ≠ [] := by
  unfold restoreItems
  cases horder : orderedConstraintItems items true with
  | nil =>
      obtain ⟨item, hitem⟩ := List.exists_mem_of_ne_nil _ h
      have hmem : item ∈ orderedConstraintItems items true := mem_orderedConstraintItems.mpr hitem
      rw [horder] at hmem
      cases hmem
  | cons item rest =>
      rw [applyOrRestore]
      split
      · simp
      · simp

/-- Past the constraint stage the plan is applied. -/
theorem applied_of_stage
    (hdisabled : disableConstraintItems (parseTransferConstraintPlan j.constraintPlan) ≠ [])
    (hrefused : constraintStage j ≠ .refused) (hfalse : constraintStage j ≠ .ran false) :
    let plan := parseTransferConstraintPlan j.constraintPlan
    reachesApply plan j.hasApplier = true ∧
      (applyItems j.target (disableConstraintItems plan)).error.isNone = true := by
  unfold constraintStage at hrefused hfalse
  simp only [if_neg hdisabled] at hrefused hfalse
  split at hrefused
  · exact absurd rfl hrefused
  · next hreviewed =>
      rw [if_neg hreviewed] at hfalse
      rw [Bool.or_eq_true, not_or] at hreviewed
      refine ⟨by simpa [reachesApply, hdisabled] using hreviewed, ?_⟩
      by_contra hnone
      rw [Bool.not_eq_true] at hnone
      exact hfalse (by rw [hnone])

theorem honoured_iff {restore : Bool}
    (hdisabled : disableConstraintItems (parseTransferConstraintPlan j.constraintPlan) ≠ [])
    (hrefused : constraintStage j ≠ .refused) (hfalse : constraintStage j ≠ .ran false) :
    Honoured j restore (constraintsAfter j (.copied outcome)) ↔
      restoreNow (parseTransferConstraintPlan j.constraintPlan) outcome = restore := by
  obtain ⟨hreach, herror⟩ := applied_of_stage hdisabled hrefused hfalse
  have hruns : restoreRuns j.target (parseTransferConstraintPlan j.constraintPlan) j.hasApplier
      outcome = restoreNow (parseTransferConstraintPlan j.constraintPlan) outcome := by
    rw [restoreRuns, hreach, Bool.true_and, ← Option.not_isNone, herror]
    rfl
  have htries := restore_tries_something (t := j.target)
    (dropped j.target (parseTransferConstraintPlan j.constraintPlan) j.hasApplier) hdisabled
  unfold Honoured constraintsAfter runConstraints
  simp only [hruns]
  cases restoreNow (parseTransferConstraintPlan j.constraintPlan) outcome with
  | true =>
      cases restore with
      | true => simp
      | false => simp [htries]
  | false =>
      cases restore with
      | true => simp [Ne.symm htries]
      | false => simp

/-- A stop that was read while constraints were disabled: the operator's choice is honoured exactly
when it is what the plan of the configuration says, or what the copy that went on after a stop in
the bulk copy made of it. -/
theorem choice_honoured_iff (plan : TransferConstraintPlan) (es : List RecordStep) (restore : Bool)
    (hplan : j.constraintPlan =
      some (es.foldl RecordStep.apply (createJob plan)).configPlan)
    (hdisabled : disableConstraintItems (parseTransferConstraintPlan j.constraintPlan) ≠ [])
    (hcopied : (handleJob sprint j).ending = .copied outcome) :
    Honoured j restore (constraintsAfter j (handleJob sprint j).ending) ↔
      (restore = true ↔ plan.onStop ≠ "leave_disabled" ∨
        ¬ StopsOutside (handleJob sprint j).log ∧ outcome ≠ .moveFailed) := by
  obtain ⟨hrefused, hfalse, hending, hstops⟩ := handleJob_of_copied hcopied
  have hstopped : outcome = .stopped ↔ StopsOutside (handleJob sprint j).log := by
    rw [hstops, ← runTables_stopped_iff, hending]
    simp
  have hleave : leaveDisabled (parseTransferConstraintPlan j.constraintPlan) = true ↔
      plan.onStop = "leave_disabled" := by
    rw [hplan, configPlan_of_steps, leaveDisabled, beq_iff_eq, parseTransferConstraintPlan]
    split
    · next hempty => simp [hempty]
    · exact Iff.rfl
  rw [hcopied, honoured_iff hdisabled hrefused hfalse, ← hstopped]
  have hnow : restoreNow (parseTransferConstraintPlan j.constraintPlan) outcome = true ↔
      plan.onStop ≠ "leave_disabled" ∨ ¬ outcome = .stopped ∧ outcome ≠ .moveFailed := by
    rw [ne_eq, ← hleave, Bool.not_eq_true]
    cases outcome with
    | completed => simp [restoreNow]
    | checkFailed => simp [restoreNow]
    | stopped => simp [restoreNow]
    | moveFailed => simp [restoreNow]
    | cloneFailed => simp [restoreNow]
  rw [← hnow, ← Bool.coe_iff_coe]
  exact Iff.comm

end Job

section Sample

def customerPlan (onStop : String) : TransferConstraintPlan := ⟨true, onStop, [customerKey]⟩

/-- The worker claims the job, then the operator stops it. -/
def stopAfterClaim (restore : Bool) : List RecordStep := [.setStatus .running, .stop restore]

def stoppedJob (onStop : String) (restore : Bool) : JobRequest Int64 :=
  { oneTableJob [1, 15] (by decide) stoppedStream with
    target := plainTarget
    constraintPlan := some
      ((stopAfterClaim restore).foldl RecordStep.apply (createJob (customerPlan onStop))).configPlan }

/-- The job was created to restore on a stop, and the operator asks for that. -/
theorem restoring_stop_honoured :
    Honoured (stoppedJob "restore_now" true) true
      (constraintsAfter (stoppedJob "restore_now" true)
        (handleJob (fun _ => []) (stoppedJob "restore_now" true)).ending) := by
  have hcopied : (handleJob (fun _ => []) (stoppedJob "restore_now" true)).ending =
      .copied .stopped := by
    decide +kernel
  apply (choice_honoured_iff (customerPlan "restore_now") (stopAfterClaim true) true rfl
    (by decide) hcopied).mpr
  exact iff_of_true rfl (Or.inl (by decide))

/-- The operator asks to leave the constraint disabled, in a job that was created to restore it, and
to restore it, in a job that was created to leave it disabled. -/
theorem choice_at_stop_ignored :
    let kept := stoppedJob "restore_now" false
    let left := stoppedJob "leave_disabled" true
    (handleJob (fun _ => []) kept).ending = .copied .stopped ∧
      constraintsAfter kept (.copied .stopped) = ⟨[customerKey], [customerKey], []⟩ ∧
      ¬ Honoured kept false (constraintsAfter kept (.copied .stopped)) ∧
      (handleJob (fun _ => []) left).ending = .copied .stopped ∧
      constraintsAfter left (.copied .stopped) = ⟨[customerKey], [], [customerKey]⟩ ∧
      ¬ Honoured left true (constraintsAfter left (.copied .stopped)) := by
  have hkept : constraintsAfter (stoppedJob "restore_now" false) (.copied .stopped) =
      ⟨[customerKey], [customerKey], []⟩ := by
    decide +kernel
  have hleft : constraintsAfter (stoppedJob "leave_disabled" true) (.copied .stopped) =
      ⟨[customerKey], [], [customerKey]⟩ := by
    decide +kernel
  refine ⟨by decide +kernel, hkept, ?_, by decide +kernel, hleft, ?_⟩
  · rw [hkept]
    intro h
    cases h.1
  · rw [hleft]
    intro h
    exact restore_tries_something _ (List.cons_ne_nil _ _) h.1.symm

end Sample

end SqlOptima.StopChoice
