import SqlOptima.ChunkPipelineLoad

namespace SqlOptima.ChunkRetry

open SqlOptima.TransitionSystem
open SqlOptima.KeyedTable
open SqlOptima.ChunkPipeline
open SqlOptima.ChunkPipelineLoad

variable {Cells Tuple Key : Type}

/-- The seconds to wait before a retry. -/
def chunkRetryDelays : List Nat := [0, 30, 120]

def maxChunkAttempts : Nat := 3

def retryDelay (attempt : Nat) : Nat :=
  if attempt > 0 then
    chunkRetryDelays.getD (min (attempt - 1) (chunkRetryDelays.length - 1)) 0
  else 0

inductive RetryError
  | ctxErr
  | quarantined (cause : RunError)
  deriving DecidableEq

/-- `runChunkWithRetry` before an attempt, in one, or returned. -/
inductive RetryState (Cells Tuple : Type)
  | waiting (attempt : Nat) (ctxDone : Bool) (target : List Tuple)
  | running (attempt : Nat) (run : RunState Cells Tuple)
  | returned (result : Except RetryError Nat) (target : List Tuple)

inductive RetryAction
  | cancel
  | stopWaiting
  | start
  | run (a : Action)
  | settle
  deriving DecidableEq

variable [DecidableEq Key]

def retryStep (job : ChunkJob Cells Tuple Key) :
    RetryState Cells Tuple → RetryAction → Option (RetryState Cells Tuple)
  | .waiting attempt false target, .cancel => some (.waiting attempt true target)
  | .waiting attempt true target, .stopWaiting =>
      if retryDelay attempt > 0 then some (.returned (.error .ctxErr) target) else none
  | .waiting attempt ctxDone target, .start =>
      some (.running attempt (initial job ctxDone target))
  | .running attempt run, .run a => (step job run a).map (.running attempt)
  | .running attempt run, .settle =>
      match run.returned with
      | none => none
      | some (.ok rows) => some (.returned (.ok rows) run.target)
      | some (.error e) =>
          if attempt + 1 < maxChunkAttempts then
            some (.waiting (attempt + 1) run.ctxDone run.target)
          else
            some (.returned (.error (.quarantined e)) run.target)
  | _, _ => none

def RetriesCleanly (job : ChunkJob Cells Tuple Key) :
    RetryState Cells Tuple → RetryAction → Prop
  | .running _ run, .run a => FailsCleanly job run a
  | _, _ => True

instance [DecidableEq Tuple] (job : ChunkJob Cells Tuple Key) :
    ∀ (s : RetryState Cells Tuple) (a : RetryAction), Decidable (RetriesCleanly job s a)
  | .running _ run, .run a => inferInstanceAs (Decidable (FailsCleanly job run a))
  | .running _ _, .cancel | .running _ _, .stopWaiting | .running _ _, .start
  | .running _ _, .settle | .waiting _ _ _, _ | .returned _ _, _ => inferInstanceAs (Decidable True)

/-- The table holds each row of the chunk exactly once, beside what was in the
target before. With conflict columns, a row stands in place of the row that had
its key. -/
def HoldsOnce (job : ChunkJob Cells Tuple Key) (before table : List Tuple) : Prop :=
  ∃ tuples, job.rows.map job.copyRow = tuples.map some ∧
    match job.conflictKey with
    | none => table = before ++ tuples
    | some key =>
        (∀ row ∈ tuples, key row ≠ none → rowsAt key (key row) table = [row]) ∧
        rowsAt key none table = rowsAt key none before ++ rowsAt key none tuples ∧
        ∀ k, (∀ row ∈ tuples, key row ≠ k) → rowsAt key k table = rowsAt key k before

/-- No trace of a failed attempt: the target is unchanged whenever an attempt
has returned an error, and holds the chunk once when an attempt has
succeeded. -/
def NoTrace (job : ChunkJob Cells Tuple Key) (before : List Tuple) :
    RetryState Cells Tuple → Prop
  | .waiting _ _ target => target = before
  | .running _ run =>
      (∀ e, run.returned = some (.error e) → run.target = before) ∧
      ∀ n, run.returned = some (.ok n) → HoldsOnce job before run.target ∧ n = job.rows.length
  | .returned (.ok n) target => HoldsOnce job before target ∧ n = job.rows.length
  | .returned (.error _) target => target = before

variable {job : ChunkJob Cells Tuple Key} {before : List Tuple} {s t : RetryState Cells Tuple}
  {a : RetryAction}

theorem holdsOnce_of_loadRows {table : List Tuple}
    (h : loadRows job before job.rows = some table) : HoldsOnce job before table := by
  obtain ⟨tuples, hrows, hcommit⟩ := Option.bind_eq_some_iff.mp h
  refine ⟨tuples, mapM_eq_some_iff.mp hrows, ?_⟩
  cases hk : job.conflictKey with
  | none =>
      simp only [commitRows, hk, Option.some.injEq] at hcommit
      exact hcommit.symm
  | some key =>
      simp only [commitRows, hk] at hcommit
      refine ⟨?_, rowsAt_merge_null hcommit, ?_⟩
      · intro row hrow hsome
        exact rowsAt_merge_of_mem hcommit hrow (Option.isSome_iff_ne_none.mpr hsome)
      · intro k hfree
        exact rowsAt_merge_of_not_mem hcommit hfree

def Retrying (job : ChunkJob Cells Tuple Key) (before : List Tuple) :
    RetryState Cells Tuple → Prop
  | .running _ run => Loading job before run
  | s => NoTrace job before s

theorem noTrace_of_retrying (h : Retrying job before s) : NoTrace job before s := by
  cases s with
  | waiting attempt ctxDone target => exact h
  | running attempt run =>
      refine ⟨fun e hr => target_of_error h hr, ?_⟩
      intro n hr
      obtain ⟨hload, hn⟩ := loadRows_of_ok h hr
      exact ⟨holdsOnce_of_loadRows hload, hn⟩
  | returned result target => cases result <;> exact h

theorem retrying_settle {attempt : Nat} {run : RunState Cells Tuple} (h : Loading job before run)
    (hstep : retryStep job (.running attempt run) .settle = some t) : Retrying job before t := by
  simp only [retryStep] at hstep
  split at hstep
  · cases hstep
  · rename_i rows hr
    cases hstep
    obtain ⟨hload, hn⟩ := loadRows_of_ok h hr
    exact ⟨holdsOnce_of_loadRows hload, hn⟩
  · rename_i e hr
    split at hstep
    · cases hstep
      exact target_of_error h hr
    · cases hstep
      exact target_of_error h hr

theorem retrying_step (h : Retrying job before s) (hok : RetriesCleanly job s a)
    (hstep : retryStep job s a = some t) : Retrying job before t := by
  cases s with
  | waiting attempt ctxDone target =>
      obtain rfl : target = before := h
      cases a with
      | cancel =>
          cases ctxDone with
          | false =>
              cases hstep
              rfl
          | true => cases hstep
      | stopWaiting =>
          cases ctxDone with
          | false => cases hstep
          | true =>
              simp only [retryStep] at hstep
              split at hstep
              · cases hstep
                rfl
              · cases hstep
      | start =>
          obtain rfl : RetryState.running attempt (initial job ctxDone target) = t := by
            cases ctxDone <;> exact Option.some.inj hstep
          exact loading_initial job ctxDone target
      | run a => cases ctxDone <;> cases hstep
      | settle => cases ctxDone <;> cases hstep
  | running attempt run =>
      cases a with
      | run a =>
          obtain ⟨next, hnext, rfl⟩ := Option.map_eq_some_iff.mp hstep
          exact loading_of_transition h hok (transition_of_step hnext)
      | settle => exact retrying_settle h hstep
      | cancel => cases hstep
      | stopWaiting => cases hstep
      | start => cases hstep
  | returned result target => cases hstep

/-- Whatever the scheduling and the faults of every attempt: as long as the
extractor fails cleanly, no failed attempt leaves a trace in the target, and
the chunk is in it once when an attempt succeeds. -/
theorem noTrace_of_cleanly (job : ChunkJob Cells Tuple Key) (ctxDone : Bool)
    (before : List Tuple) (h : ReachesBy (retryStep job) (RetriesCleanly job)
      (.waiting 0 ctxDone before) s) : NoTrace job before s := by
  apply noTrace_of_retrying
  refine h.invariant (P := Retrying job before) rfl ?_
  intro u b v hu hok hstep
  exact retrying_step hu hok hstep

def twoRows : ChunkJob Nat Nat Nat := ⟨[1, 2], id, some, none⟩

def loadOneRow : List Action :=
  [.receive, .push, .report, .connect, .transfer, .encodeRow, .transfer, .encodeEnd, .transfer,
    .endCopy, .join, .receiveErr]

def loadTwoRows : List Action :=
  [.extract, .receive, .push, .extract, .receive, .push, .finishExtract, .report, .connect,
    .transfer, .encodeRow, .transfer, .encodeRow, .transfer, .encodeEnd, .transfer, .endCopy,
    .join, .receiveErr]

theorem retriedChunk_noTrace :
    ∃ s, ReachesBy (retryStep twoRows) (RetriesCleanly twoRows) (.waiting 0 false []) s ∧
      s = .returned (.ok 2) [1, 2] ∧ NoTrace twoRows [] s := by
  have hrun : runSteps (guarded (fun s a => decide (RetriesCleanly twoRows s a))
      (retryStep twoRows)) (.waiting 0 false [])
      (.start :: [.failExtract, .report, .connectFail, .receiveErr].map RetryAction.run ++
        [RetryAction.settle, .start] ++ loadTwoRows.map RetryAction.run ++
          [RetryAction.settle]) =
      some (.returned (.ok 2) [1, 2]) := by
    rfl
  have hreach := reachesBy_of_guarded (reaches_of_runSteps hrun)
  simp only [decide_eq_true_eq] at hreach
  exact ⟨_, hreach, rfl, noTrace_of_cleanly twoRows false [] hreach⟩

/-- The extractor fails after its first row: the attempt returns an error but
leaves that row in the target, and the retry loads it again. -/
theorem partialChunk_not_noTrace :
    (∃ s, Reaches (retryStep twoRows) (.waiting 0 false []) s ∧
      s = .waiting 1 false [1] ∧ ¬ NoTrace twoRows [] s) ∧
    ∃ s, Reaches (retryStep twoRows) (.waiting 0 false []) s ∧
      s = .returned (.ok 2) [1, 1, 2] ∧ ¬ NoTrace twoRows [] s := by
  have hfirst : runSteps (retryStep twoRows) (.waiting 0 false [])
      (.start :: (.extract :: .failExtract :: loadOneRow).map RetryAction.run ++
        [RetryAction.settle]) =
      some (.waiting 1 false [1]) := by
    rfl
  have hsecond : runSteps (retryStep twoRows) (.waiting 1 false [1])
      (.start :: loadTwoRows.map RetryAction.run ++ [RetryAction.settle]) =
      some (.returned (.ok 2) [1, 1, 2]) := by
    rfl
  have hreach := reaches_of_runSteps hfirst
  refine ⟨⟨_, hreach, rfl, by simp [NoTrace]⟩,
    _, hreach.trans (reaches_of_runSteps hsecond), rfl, ?_⟩
  rintro ⟨⟨tuples, hrows, htable⟩, -⟩
  have hlen := congrArg List.length hrows
  have hlen' := congrArg List.length htable
  simp [twoRows] at hlen hlen'
  omega

end SqlOptima.ChunkRetry
