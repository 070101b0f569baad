import SqlOptima.ConstraintRestore
import SqlOptima.TransferCopier

namespace SqlOptima.TransferJob

open TransferCommands TransferKeys TransferCopier
open ConstraintPlan (parseTransferConstraintPlan TransferConstraintPlan disableConstraintItems)
open ConstraintRestore (CopyOutcome JobRun applyItems runConstraints)

/-- One table, as the mover copies it. The copies into PostgreSQL send the whole table at once and
never check for commands. -/
inductive Move (Row : Type) where
  | whole (landed : List Row) (ok : Bool)
  | sqlServer (sql : SqlOrder) (t : Tables Row sql) (r : CopyRequest)
  | unsupported

structure TableStep (Row : Type) where
  polls : List Poll
  move : Move Row

/-- A part of the preparation: nothing to do, refused before it starts, or run. -/
inductive Stage where
  | skipped
  | refused
  | ran (ok : Bool)
  deriving DecidableEq, Repr

/-- A claimed job, with the answers that it gets. `lands` says which of the handler's own status
writes succeed; their errors are dropped. -/
structure JobRequest (Row : Type) where
  pathSupported : Bool
  polls : List Poll
  connected : Bool
  preClone : Stage
  target : ConstraintRestore.Target
  constraintPlan : Option TransferConstraintPlan
  hasApplier : Bool
  tables : List (TableStep Row)
  postClone : Stage
  lands : JobStatus → Bool

/-- How far the handler came: it returned before `Apply`, with the error of `Apply`, or after it. -/
inductive JobEnd where
  | unprepared
  | applyFailed
  | copied (outcome : CopyOutcome)
  deriving DecidableEq, Repr

structure JobResult (Row : Type) where
  log : List (Event Row)
  ending : JobEnd

section Handler

variable {Row : Type} (sprint : Option DriverValue → List UInt8) (j : JobRequest Row)

def JobResult.after (res : JobResult Row) (log : List (Event Row)) : JobResult Row :=
  { res with log := log ++ res.log }

def setStatus (s : JobStatus) : List (Event Row) :=
  if j.lands s then [.status s] else []

def failJob (ending : JobEnd) : JobResult Row := ⟨setStatus j .failed, ending⟩

def move : Move Row → Outcome Row
  | .whole landed ok => ⟨[.rows landed], if ok then none else some .failed, 0⟩
  | .sqlServer _ t r => copySQLServerToSQLServer sprint t r
  | .unsupported => ⟨[], some .failed, 0⟩

/-- The loop over the tables, then the post-copy clone. -/
def runTables : List (TableStep Row) → JobResult Row
  | [] =>
      match j.postClone with
      | .skipped | .ran true => ⟨setStatus j .completed, .copied .completed⟩
      | .refused | .ran false => failJob j (.copied .cloneFailed)
  | table :: rest =>
      let check := checkBeforeChunk table.polls
      JobResult.after
        (match check.result with
        | .stopped => ⟨[], .copied .stopped⟩
        | .failed => failJob j (.copied .checkFailed)
        | .proceed =>
            let moved := move sprint table.move
            JobResult.after
              (match moved.error with
              | some .stopped => ⟨[], .copied .stopped⟩
              | some .failed => failJob j (.copied .moveFailed)
              | none => runTables rest)
              moved.log)
        (checkEvents .handler check)

def constraintStage : Stage :=
  let plan := parseTransferConstraintPlan j.constraintPlan
  let disabled := disableConstraintItems plan
  if disabled = [] then .skipped
  else if !plan.operatorReviewed || !j.hasApplier then .refused
  else .ran (applyItems j.target disabled).error.isNone

/-- A stage writes its status once it starts. -/
def runStage (stage : Stage) (failed : JobEnd) (next : JobResult Row) : JobResult Row :=
  match stage with
  | .skipped => next
  | .refused => failJob j .unprepared
  | .ran ok => (if ok then next else failJob j failed).after (setStatus j .preparing)

def handleJob : JobResult Row :=
  if !j.pathSupported then failJob j .unprepared
  else
    let check := checkBeforeChunk j.polls
    JobResult.after
      (match check.result with
      | .stopped => ⟨[], .unprepared⟩
      | .failed => failJob j .unprepared
      | .proceed =>
          if !j.connected then failJob j .unprepared
          else
            runStage j j.preClone .unprepared
              (runStage j (constraintStage j) .applyFailed
                ((runTables sprint j j.tables).after (setStatus j .running))))
      (checkEvents .handler check)

/-- The deferred function of the handler, for the way that the job ended. After a failed `Apply`
every outcome restores. -/
def constraintsAfter : JobEnd → JobRun
  | .unprepared => ⟨[], [], []⟩
  | .applyFailed => runConstraints j.target j.constraintPlan j.hasApplier .completed
  | .copied outcome => runConstraints j.target j.constraintPlan j.hasApplier outcome

end Handler

end SqlOptima.TransferJob

namespace SqlOptima.TransferStop

open TransferCommands TransferKeys TransferRange TransferCopier TransferJob

section Ending

variable {Row S : Type} {site : Site} {log log' : List (Event Row)} {stops : Bool}

def lastStatus (log : List (Event Row)) : Option JobStatus :=
  (log.filterMap fun
    | .status s => some s
    | .stop _ _ | .rows _ => none).getLast?

def NoStop (log : List (Event Row)) : Prop := ∀ site recorded, .stop site recorded ∉ log

/-- No stop was read in the loop of `copyBCP`. -/
def NoBulkStop (log : List (Event Row)) : Prop := ∀ recorded, .stop .bulkCopy recorded ∉ log

/-- The log of a function: with a stop, which is its last step and stands in the job's status if its
write landed, or without one. -/
inductive Ending (site : Site) : List (Event Row) → Bool → Prop where
  | stopped {before : List (Event Row)} {recorded : Bool} (hbefore : NoStop before)
      (hstatus : recorded = true → lastStatus before = some .stopped) :
      Ending site (before ++ [Event.stop site recorded]) true
  | running {log : List (Event Row)} (hlog : NoStop log) : Ending site log false

theorem noStop_nil : NoStop ([] : List (Event Row)) := fun _ _ h => by cases h

theorem noStop_append (h : NoStop log) (h' : NoStop log') : NoStop (log ++ log') := by
  intro site recorded hmem
  rcases List.mem_append.mp hmem with hmem | hmem
  · exact h site recorded hmem
  · exact h' site recorded hmem

theorem noStop_rows (h : NoStop log) (rs : List Row) : NoStop (log ++ [Event.rows rs]) :=
  noStop_append h fun _ _ hmem => by simp at hmem

theorem noStop_status (ss : List JobStatus) :
    NoStop (ss.map Event.status : List (Event Row)) := by
  intro site recorded hmem
  simp at hmem

theorem lastStatus_append {s : JobStatus} (h : lastStatus log' = some s) :
    lastStatus (log ++ log') = some s := by
  unfold lastStatus at h ⊢
  rw [List.filterMap_append, List.getLast?_append, h, Option.some_or]

theorem lastStatus_status (ss : List JobStatus) :
    lastStatus (ss.map Event.status : List (Event Row)) = ss.getLast? := by
  unfold lastStatus
  rw [List.filterMap_map]
  exact congrArg List.getLast? List.filterMap_some

theorem ending_append (h : NoStop log) (h' : Ending site log' stops) :
    Ending site (log ++ log') stops := by
  cases h' with
  | stopped hbefore hstatus =>
      rw [← List.append_assoc]
      exact .stopped (noStop_append h hbefore) fun hrec => lastStatus_append (hstatus hrec)
  | running hlog => exact .running (noStop_append h hlog)

theorem ending_checkEvents (site : Site) (c : Check) :
    Ending site (checkEvents site c : List (Event Row)) (c.result == .stopped) := by
  unfold checkEvents
  cases c.result with
  | stopped =>
      refine .stopped (noStop_status _) fun hrec => ?_
      rw [lastStatus_status]
      exact eq_of_beq hrec
  | proceed => exact .running (noStop_append (noStop_status _) noStop_nil)
  | failed => exact .running (noStop_append (noStop_status _) noStop_nil)

theorem noStop_of_ending (h : Ending site log false) : NoStop log := by
  cases h with
  | running hlog => exact hlog

theorem exists_stop_of_ending (h : Ending site log true) :
    ∃ recorded, .stop site recorded ∈ log := by
  cases h with
  | @stopped _ recorded => exact ⟨recorded, by simp⟩

/-- The iteration's log, and the loop goes on only without a stop. -/
def StepEnding (site : Site) : Step Row S → Prop
  | .finish log error _ => Ending site log (error == some .stopped)
  | .next log _ => NoStop log

theorem stepEnding_guarded {chunk : Int64} {a : ChunkAnswer}
    {rest : List (Event Row) → Step Row S}
    (hrest : ∀ events, NoStop events → StepEnding site (rest events)) :
    StepEnding site (guardedStep site chunk a rest) := by
  have hending : Ending site (checkEvents site (checkBeforeChunk a.polls) : List (Event Row)) _ :=
    ending_checkEvents site _
  unfold guardedStep
  cases hresult : (checkBeforeChunk a.polls).result with
  | stopped =>
      rw [hresult] at hending
      simp only [hresult]
      exact hending
  | failed =>
      rw [hresult] at hending
      simp only [hresult]
      exact hending
  | proceed =>
      rw [hresult] at hending
      simp only [hresult]
      exact hrest _ (noStop_of_ending hending)

theorem ending_loop {chunkOf : S → Int64} {step : S → ChunkAnswer → Step Row S}
    (hstep : ∀ s a, StepEnding site (step s a)) (n : Nat) (s : S) (answers : List ChunkAnswer) :
    Ending site (loop chunkOf step n s answers).log
      ((loop chunkOf step n s answers).error == some .stopped) := by
  induction n generalizing s answers with
  | zero => exact .running noStop_nil
  | succ n ih =>
      cases answers with
      | nil => exact .running noStop_nil
      | cons a answers =>
          have h := hstep s a
          rw [loop]
          cases hs : step s a with
          | finish log error chunk =>
              rw [hs] at h
              exact h
          | next log s' =>
              rw [hs] at h
              exact ending_append h (ih s' answers)

theorem stepEnding_range (load : Loader Row) (rowsIn : Int64 → Int64 → List Row) (max : Int64)
    (s : RangeState) (a : ChunkAnswer) : StepEnding site (rangeStep load rowsIn site max s a) := by
  refine stepEnding_guarded fun events hevents => ?_
  split
  · exact .running hevents
  · split
    · exact .running hevents
    · have hlog := fun rs : List Row => noStop_rows hevents rs
      simp only
      split
      · exact .running (hlog _)
      · split
        · exact .running (hlog _)
        · exact hlog _
      · split
        · exact .running (hlog _)
        · split
          · exact .running (hlog _)
          · split
            · exact .running (hlog _)
            · exact hlog _

theorem stepEnding_keyset (sprint : Option DriverValue → List UInt8)
    (key : Row → Option DriverValue) (rowsAfter : Option (Option DriverValue) → List Row)
    (s : KeysetState) (a : ChunkAnswer) :
    StepEnding .stream (keysetStep sprint key rowsAfter s a) := by
  refine stepEnding_guarded fun events hevents => ?_
  split
  · exact .running hevents
  · simp only
    split
    · exact .running hevents
    · split
      · exact .running hevents
      · split
        · exact .running (noStop_rows hevents _)
        · split
          · exact .running (noStop_rows hevents _)
          · exact noStop_rows hevents _

end Ending

section Copy

variable {Row : Type} {sql : SqlOrder} {sprint : Option DriverValue → List UInt8}
  {t : Tables Row sql} {r : CopyRequest} {target : List Row} {chunk : Int64}

theorem ending_finished {site : Site} {e : Option CopyError} (he : e ≠ some .stopped) :
    Ending site (finished chunk e : Outcome Row).log
      ((finished chunk e : Outcome Row).error == some .stopped) := by
  change Ending site [] (e == some .stopped)
  rw [beq_false_of_ne he]
  exact .running noStop_nil

theorem ending_rangeLoop (load : Loader Row) (site : Site) (start max : Int64)
    (answers : List ChunkAnswer) :
    Ending site (rangeLoop t r load site start max chunk answers).log
      ((rangeLoop t r load site start max chunk answers).error == some .stopped) :=
  ending_loop (stepEnding_range load t.rowsIn max) _ _ _

theorem ending_streamKeyset :
    Ending .stream (streamKeyset sprint t r target chunk).log
      ((streamKeyset sprint t r target chunk).error == some .stopped) := by
  unfold streamKeyset
  split
  · exact ending_finished (by decide)
  · exact ending_loop (stepEnding_keyset sprint t.key t.rowsAfter) _ _ _

theorem ending_streamInteger :
    Ending .stream (streamInteger sprint t r target chunk).log
      ((streamInteger sprint t r target chunk).error == some .stopped) := by
  unfold streamInteger
  split
  · exact ending_finished (by decide)
  · split
    · exact ending_finished (by decide)
    · exact ending_streamKeyset
    · exact ending_rangeLoop _ _ _ _ _

theorem ending_streamHeap :
    Ending .stream (streamHeap t r chunk).log
      ((streamHeap t r chunk).error == some .stopped) := by
  unfold streamHeap
  cases r.stream.chunks with
  | nil => exact ending_finished (by decide)
  | cons a answers =>
      have hending : Ending .stream (checkEvents .stream (checkBeforeChunk a.polls) :
        List (Event Row)) _ := ending_checkEvents .stream _
      simp only
      cases hresult : (checkBeforeChunk a.polls).result with
      | stopped =>
          rw [hresult] at hending
          exact hending
      | failed =>
          rw [hresult] at hending
          exact hending
      | proceed =>
          rw [hresult] at hending
          have hevents := noStop_of_ending hending
          simp only
          split
          · exact .running hevents
          · cases a.progressSaved with
            | true => exact .running (noStop_rows hevents _)
            | false => exact .running (noStop_rows hevents _)

theorem ending_copyStream :
    Ending .stream (copyStream sprint t r target chunk).log
      ((copyStream sprint t r target chunk).error == some .stopped) := by
  unfold copyStream
  cases t.order with
  | heap => exact ending_streamHeap
  | integer => exact ending_streamInteger
  | keyset => exact ending_streamKeyset

theorem ending_copyBCP :
    Ending .bulkCopy (copyBCP t r target chunk).log
      ((copyBCP t r target chunk).error == some .stopped) := by
  unfold copyBCP
  cases t.order with
  | heap => exact ending_finished (by decide)
  | keyset => exact ending_finished (by decide)
  | integer =>
      simp only
      split
      · exact ending_finished (by decide)
      · split
        · exact ending_finished (by decide)
        · exact ending_finished (by decide)
        · split
          · exact ending_finished (by decide)
          · exact ending_rangeLoop _ _ _ _ _

/-- The fallback of the bulk copy reads the stops itself, unless the bulk copy has read one. -/
theorem ending_copyBCPOrStream
    (h : NoBulkStop (copyBCPOrStream sprint t r chunk).log) :
    Ending .stream (copyBCPOrStream sprint t r chunk).log
      ((copyBCPOrStream sprint t r chunk).error == some .stopped) := by
  have hbulk : Ending .bulkCopy (copyBCP t r t.target chunk).log _ := ending_copyBCP
  unfold copyBCPOrStream at h ⊢
  cases herror : (copyBCP t r t.target chunk).error with
  | none =>
      rw [herror] at hbulk
      simp only [herror]
      exact .running (noStop_of_ending hbulk)
  | some e =>
      simp only [herror] at h ⊢
      refine ending_append ?_ ending_copyStream
      rw [herror] at hbulk
      cases e with
      | failed => exact noStop_of_ending hbulk
      | stopped =>
          obtain ⟨recorded, hmem⟩ := exists_stop_of_ending hbulk
          exact absurd (List.mem_append_left _ hmem) (h recorded)

theorem copy_cases (sprint : Option DriverValue → List UInt8) (t : Tables Row sql)
    (r : CopyRequest) :
    (∃ e, e ≠ some .stopped ∧
        copySQLServerToSQLServer sprint t r = finished (startChunkSize r) e) ∨
      ∃ mode, copySQLServerToSQLServer sprint t r =
        copyByMode sprint t r mode (startChunkSize r) := by
  unfold copySQLServerToSQLServer copy
  split
  · exact Or.inl ⟨_, by decide, rfl⟩
  · split
    · exact Or.inl ⟨_, by decide, rfl⟩
    · split
      · exact Or.inl ⟨_, by decide, rfl⟩
      · split
        · exact Or.inl ⟨_, by decide, rfl⟩
        · split
          · exact Or.inl ⟨_, by decide, rfl⟩
          · split
            · exact Or.inl ⟨_, by decide, rfl⟩
            · split
              · exact Or.inl ⟨_, by decide, rfl⟩
              · exact Or.inr ⟨_, rfl⟩

theorem ending_copySQLServerToSQLServer
    (h : NoBulkStop (copySQLServerToSQLServer sprint t r).log) :
    Ending .stream (copySQLServerToSQLServer sprint t r).log
      ((copySQLServerToSQLServer sprint t r).error == some .stopped) := by
  rcases copy_cases sprint t r with ⟨e, he, heq⟩ | ⟨mode, heq⟩
  · rw [heq]
    exact ending_finished he
  · rw [heq] at h ⊢
    cases mode with
    | streamBulk => exact ending_copyStream
    | bcpNative => exact ending_copyBCPOrStream h
    | insertSelect =>
        change Ending .stream (copyInsertSelect sprint t r t.target _).log
          ((copyInsertSelect sprint t r t.target _).error == some .stopped)
        unfold copyInsertSelect
        cases t.order with
        | integer => exact ending_streamInteger
        | heap => exact ending_copyStream
        | keyset => exact ending_copyStream

end Copy

section Job

variable {Row : Type} {sprint : Option DriverValue → List UInt8} {j : JobRequest Row}

/-- After a stop no rows land, and the job's status is stopped at the end. -/
def StopIsFinal (log : List (Event Row)) : Prop :=
  ∀ before site recorded after, log = before ++ Event.stop site recorded :: after →
    (∀ rs, Event.rows rs ∉ after) ∧ lastStatus log = some .stopped

def Ends (log : List (Event Row)) : Prop := ∃ site stops, Ending site log stops

theorem stopIsFinal_of_ends {log : List (Event Row)} (h : Ends log)
    (hrecorded : ∀ site recorded, .stop site recorded ∈ log → recorded = true) :
    StopIsFinal log := by
  intro before site recorded after heq
  obtain ⟨site', stops, hending⟩ := h
  cases hending with
  | running hlog =>
      refine absurd ?_ (hlog site recorded)
      rw [heq]
      simp
  | @stopped front recorded' hfront hstatus =>
      have hafter : after = [] := by
        rcases List.eq_nil_or_concat after with h | ⟨init, last, h⟩
        · exact h
        · rw [h, List.concat_eq_append, ← List.cons_append, ← List.append_assoc] at heq
          have hmem : .stop site recorded ∈ front := by
            rw [(List.append_inj' heq rfl).1]
            simp
          exact absurd hmem (hfront site recorded)
      subst hafter
      refine ⟨fun rs hmem => (by cases hmem), ?_⟩
      have hrec := hrecorded site' recorded' (by simp)
      have hbefore := hstatus hrec
      unfold lastStatus at hbefore ⊢
      rw [List.filterMap_append]
      simpa using hbefore

theorem ends_append {log log' : List (Event Row)} (h : NoStop log) (h' : Ends log') :
    Ends (log ++ log') := by
  obtain ⟨site, stops, hending⟩ := h'
  exact ⟨site, stops, ending_append h hending⟩

theorem noStop_setStatus (s : JobStatus) : NoStop (setStatus j s) := by
  unfold setStatus
  split
  · exact noStop_status [s]
  · exact noStop_nil

theorem ends_of_noStop {log : List (Event Row)} (h : NoStop log) : Ends log :=
  ⟨.handler, false, .running h⟩

theorem ending_move {m : Move Row} (h : NoBulkStop (move sprint m).log) :
    Ending .stream (move sprint m).log ((move sprint m).error == some .stopped) := by
  cases m with
  | whole landed ok =>
      cases ok with
      | true => exact .running (noStop_rows noStop_nil landed)
      | false => exact .running (noStop_rows noStop_nil landed)
  | sqlServer sql t r => exact ending_copySQLServerToSQLServer h
  | unsupported => exact .running noStop_nil

theorem ends_check {polls : List Poll} {res : JobResult Row}
    (hstop : (checkBeforeChunk polls).result = .stopped → res.log = [])
    (hres : (checkBeforeChunk polls).result ≠ .stopped → Ends res.log) :
    Ends (res.after (checkEvents .handler (checkBeforeChunk polls))).log := by
  have hending : Ending .handler (checkEvents .handler (checkBeforeChunk polls) :
    List (Event Row)) _ := ending_checkEvents .handler _
  change Ends (_ ++ res.log)
  by_cases h : (checkBeforeChunk polls).result = .stopped
  · rw [hstop h, List.append_nil]
    exact ⟨.handler, _, hending⟩
  · rw [beq_false_of_ne h] at hending
    exact ends_append (noStop_of_ending hending) (hres h)

theorem ends_runTables (tables : List (TableStep Row))
    (h : NoBulkStop (runTables sprint j tables).log) :
    Ends (runTables sprint j tables).log := by
  induction tables with
  | nil =>
      rw [runTables]
      split
      · exact ends_of_noStop (noStop_setStatus _)
      · exact ends_of_noStop (noStop_setStatus _)
      · exact ends_of_noStop (noStop_setStatus _)
      · exact ends_of_noStop (noStop_setStatus _)
  | cons table rest ih =>
      rw [runTables] at h ⊢
      refine ends_check (fun hstop => ?_) fun hgo => ?_
      · simp only [hstop]
      · cases hresult : (checkBeforeChunk table.polls).result with
        | stopped => exact absurd hresult hgo
        | failed => exact ends_of_noStop (noStop_setStatus _)
        | proceed =>
            simp only [hresult] at h ⊢
            have hmove : NoBulkStop (move sprint table.move).log :=
              fun recorded hmem =>
                h recorded (List.mem_append_right _ (List.mem_append_left _ hmem))
            have hending := ending_move hmove
            cases herror : (move sprint table.move).error with
            | none =>
                simp only [herror] at h hending ⊢
                refine ends_append (noStop_of_ending hending) (ih fun recorded hmem => ?_)
                exact h recorded (List.mem_append_right _ (List.mem_append_right _ hmem))
            | some e =>
                rw [herror] at hending
                cases e with
                | stopped =>
                    change Ends ((move sprint table.move).log ++ [])
                    rw [List.append_nil]
                    exact ⟨.stream, _, hending⟩
                | failed =>
                    exact ends_append (noStop_of_ending hending)
                      (ends_of_noStop (noStop_setStatus _))

theorem ends_runStage {stage : Stage} {failed : JobEnd} {next : JobResult Row}
    (hnext : NoBulkStop next.log → Ends next.log)
    (h : NoBulkStop (runStage j stage failed next).log) :
    Ends (runStage j stage failed next).log := by
  cases stage with
  | skipped => exact hnext h
  | refused => exact ends_of_noStop (noStop_setStatus _)
  | ran ok =>
      refine ends_append (noStop_setStatus _) ?_
      cases ok with
      | true => exact hnext fun recorded hmem => h recorded (List.mem_append_right _ hmem)
      | false => exact ends_of_noStop (noStop_setStatus _)

theorem ends_handleJob (h : NoBulkStop (handleJob sprint j).log) :
    Ends (handleJob sprint j).log := by
  unfold handleJob at h ⊢
  split
  · exact ends_of_noStop (noStop_setStatus _)
  · next hpath =>
      rw [if_neg hpath] at h
      refine ends_check (fun hstop => ?_) fun hgo => ?_
      · simp only [hstop]
      · cases hresult : (checkBeforeChunk j.polls).result with
        | stopped => exact absurd hresult hgo
        | failed => exact ends_of_noStop (noStop_setStatus _)
        | proceed =>
            simp only [hresult] at h ⊢
            split
            · exact ends_of_noStop (noStop_setStatus _)
            · next hconnected =>
                rw [if_neg hconnected] at h
                refine ends_runStage (ends_runStage fun hrun => ?_)
                  fun recorded hmem => h recorded (List.mem_append_right _ hmem)
                refine ends_append (noStop_setStatus _) (ends_runTables _ fun recorded hmem => ?_)
                exact hrun recorded (List.mem_append_right _ hmem)

/-- In every run whose stops are read outside of the bulk copy and reach the job's row, no rows land
after a stop and the job ends stopped. -/
theorem stopIsFinal_of_steps (j : JobRequest Row)
    (hsteps : ∀ site recorded, .stop site recorded ∈ (handleJob sprint j).log →
      site ≠ .bulkCopy ∧ recorded = true) :
    StopIsFinal (handleJob sprint j).log :=
  stopIsFinal_of_ends
    (ends_handleJob fun recorded hmem => (hsteps .bulkCopy recorded hmem).1 rfl)
    fun site recorded hmem => (hsteps site recorded hmem).2

/-- A job of one table, in which all status writes land. -/
def oneTableJob (source : List Int64) (h : source.Pairwise fun a b => a.toInt ≤ b.toInt)
    (r : CopyRequest) : JobRequest Int64 where
  pathSupported := true
  polls := [.idle]
  connected := true
  preClone := .skipped
  target := ⟨.sqlserver, fun _ _ => .ok ()⟩
  constraintPlan := none
  hasApplier := true
  tables := [⟨[.idle], .sqlServer numericOrder (idTables source [] h) r⟩]
  postClone := .skipped
  lands _ := true

def stopChunk : ChunkAnswer := { quietChunk with polls := [.command .stop true] }

/-- The stop comes before the second range of a stream. -/
def stoppedStream : CopyRequest :=
  { quietRequest 1 with stream := ⟨true, true, [quietChunk, stopChunk]⟩ }

theorem stoppedStream_isFinal :
    StopIsFinal (handleJob (fun _ => []) (oneTableJob [1, 15] (by decide) stoppedStream)).log := by
  apply stopIsFinal_of_steps
  have hlog : (handleJob (fun _ => []) (oneTableJob [1, 15] (by decide) stoppedStream)).log =
      [.status .running, .rows [1], .status .stopped, .stop .stream true] := by
    decide +kernel
  rw [hlog]
  simp

/-- The stop comes before the first range of a bulk copy. -/
def stoppedBulkCopy : CopyRequest :=
  { quietRequest 1 with
    sameServer := false
    offload := ⟨true, 2⟩
    bcp := ⟨true, true, [stopChunk]⟩ }

theorem stop_in_bulk_copy_not_final :
    let log := (handleJob (fun _ => []) (oneTableJob [1, 2] (by decide) stoppedBulkCopy)).log
    log = [.status .running, .status .stopped, .stop .bulkCopy true, .rows [1, 2],
      .status .completed] ∧ ¬ StopIsFinal log := by
  have hlog : (handleJob (fun _ => []) (oneTableJob [1, 2] (by decide) stoppedBulkCopy)).log =
      [.status .running, .status .stopped, .stop .bulkCopy true, .rows [1, 2],
        .status .completed] := by
    decide +kernel
  refine ⟨hlog, fun h => ?_⟩
  rw [hlog] at h
  have hafter := (h [.status .running, .status .stopped] .bulkCopy true _ rfl).1
  exact hafter [1, 2] List.mem_cons_self

end Job

end SqlOptima.TransferStop
