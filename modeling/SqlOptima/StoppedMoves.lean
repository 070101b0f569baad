import SqlOptima.PlanBooking

namespace SqlOptima.StoppedMoves

open PlanProgress PlanOwnership PlanBooking

/-!
# What is recorded of a table whose move is stopped

The loops over the chunks record that the table is stopped, and return the error that tells `Move`
so, which records a failure for every error.
-/

section Group

inductive WorkerPhase
  | atChunk
  | loaded
  | ended
  deriving DecidableEq

/-- What a worker of the group does next. -/
inductive WorkerAction
  /-- `executeChunk` loads a chunk, and its rows are added to the total. -/
  | load (rows : Nat)
  /-- The total is reported, under the mutex. -/
  | report
  /-- `CheckBeforeChunk` reads a stop. -/
  | stop
  /-- A check, a claim, a chunk, the context or a delay fails. -/
  | fail
  /-- There is no chunk left. -/
  | finish
  deriving DecidableEq

/-- What the error of a group is about: the workers return it, and the first one is kept. -/
inductive GroupError
  | stopped
  | failed
  deriving DecidableEq

def WorkerAction.error : WorkerAction → Option GroupError
  | .stop => some .stopped
  | .fail => some .failed
  | .load _ => none
  | .report => none
  | .finish => none

/-- The group of workers: the rows of the loaded chunks in the order in which they are added, and
for each report how many of them are added when it is made. -/
structure Group where
  workers : List WorkerPhase
  chunkRows : List Nat
  reports : List Nat
  err : Option GroupError
  deriving DecidableEq

namespace Group

def start (workers : Nat) : Group := ⟨List.replicate workers .atChunk, [], [], none⟩

def step (g : Group) (i : Nat) (a : WorkerAction) : Option Group :=
  match g.workers[i]?, a with
  | some .atChunk, .load rows =>
      some { g with workers := g.workers.set i .loaded, chunkRows := g.chunkRows ++ [rows] }
  | some .loaded, .report =>
      some { g with
        workers := g.workers.set i .atChunk, reports := g.reports ++ [g.chunkRows.length] }
  | some .atChunk, .stop =>
      some { g with workers := g.workers.set i .ended, err := g.err.or (some .stopped) }
  | some .atChunk, .fail =>
      some { g with workers := g.workers.set i .ended, err := g.err.or (some .failed) }
  | some .atChunk, .finish => some { g with workers := g.workers.set i .ended }
  | _, _ => none

def run (g : Group) : List (Nat × WorkerAction) → Option Group
  | [] => some g
  | (i, a) :: actions => (g.step i a).bind fun g => g.run actions

def ending (g : Group) : ParallelEnd :=
  match g.err with
  | none => .finished
  | some .stopped => .stopped
  | some .failed => .failed

end Group

/-- The workers in any order of their steps, up to the end of the last one. -/
structure ParallelRun where
  workers : Nat
  actions : List (Nat × WorkerAction)
  final : Group
  runs : (Group.start workers).run actions = some final
  ended : ∀ phase ∈ final.workers, phase = .ended

/-- The rows of the chunks that are loaded. -/
def loadedRows (actions : List (Nat × WorkerAction)) : List Nat :=
  actions.filterMap fun ia =>
    match ia.2 with
    | .load rows => some rows
    | _ => none

def firstError (actions : List (Nat × WorkerAction)) : Option GroupError :=
  actions.findSome? fun ia => ia.2.error

variable {g g' : Group} {i : Nat} {a : WorkerAction} {actions : List (Nat × WorkerAction)}

theorem step_spec (h : g.step i a = some g') :
    g'.chunkRows = g.chunkRows ++ loadedRows [(i, a)] ∧ g'.err = g.err.or a.error := by
  unfold Group.step at h
  split at h <;> cases h
  · exact ⟨rfl, (Option.or_none).symm⟩
  · exact ⟨(List.append_nil _).symm, (Option.or_none).symm⟩
  · exact ⟨(List.append_nil _).symm, rfl⟩
  · exact ⟨(List.append_nil _).symm, rfl⟩
  · exact ⟨(List.append_nil _).symm, (Option.or_none).symm⟩

/-- The group's total is the sum of the chunks that are loaded, its error the first one. -/
theorem run_spec (h : g.run actions = some g') :
    g'.chunkRows = g.chunkRows ++ loadedRows actions ∧
      g'.err = g.err.or (firstError actions) := by
  induction actions generalizing g with
  | nil =>
      cases h
      exact ⟨(List.append_nil _).symm, (Option.or_none).symm⟩
  | cons ia actions ih =>
      obtain ⟨i, a⟩ := ia
      obtain ⟨g₁, hstep, hrun⟩ := Option.bind_eq_some_iff.mp h
      obtain ⟨hrows, herr⟩ := step_spec hstep
      obtain ⟨hrows', herr'⟩ := ih hrun
      constructor
      · rw [hrows', hrows, List.append_assoc, loadedRows, loadedRows, loadedRows,
          ← List.filterMap_append, List.singleton_append]
      · rw [herr', herr, Option.or_assoc, firstError, firstError, List.findSome?_cons]
        cases a.error with
        | none => rfl
        | some e => rfl

end Group

section Moves

/-- A run of `Move` behind its planning, with its chunks one by one or in a group. -/
inductive MoveRun
  | sequential (chunks : List ChunkOutcome) (ending : SequentialEnd)
  | parallel (run : ParallelRun)

def MoveRun.outcome : MoveRun → MoveOutcome
  | .sequential chunks ending => .sequential chunks ending
  | .parallel run => .parallel run.final.chunkRows run.final.reports run.final.ending

/-- A check of the run reads the user's stop. -/
def MoveRun.StopRead : MoveRun → Prop
  | .sequential _ ending => ending = .stopped
  | .parallel run => ∃ i, (i, .stop) ∈ run.actions

/-- The stop is the error that the loops return. -/
def MoveRun.StopEnds : MoveRun → Prop
  | .sequential _ ending => ending = .stopped
  | .parallel run => firstError run.actions = some .stopped

/-- The rows of the chunks that are loaded in the run. -/
def MoveRun.loaded : MoveRun → Nat
  | .sequential chunks _ => (chunks.map ChunkOutcome.rows).sum
  | .parallel run => (loadedRows run.actions).sum

/-- The writes that the database takes; the errors of the others are ignored. -/
def taken (lands : Nat → Bool) (ws : List Write) : List Write :=
  (ws.zipIdx.filter fun wi => lands wi.2).map Prod.fst

/-- The writes of a run, in their order. -/
def MoveRun.writes (table : MigrationTable) (jobBase : JobTotals) (run : MoveRun) : List Write :=
  (move table jobBase run.outcome).1

/-- The table's row at the end of the run. -/
def MoveRun.finalRow (jobId : String) (table : MigrationTable) (jobBase : JobTotals)
    (lands : Nat → Bool) (run : MoveRun) : TablePlan :=
  bookAll jobId (createdRow jobId (table.sourceSchema, table.tableName))
    (taken lands (run.writes table jobBase))

/-- A write that does not say that a table is stopped. -/
def Quiet (w : Write) : Prop := ∀ n rows, w ≠ .updateTableProgress n .stopped rows

variable {jobId : String} {table : MigrationTable} {jobBase : JobTotals} {lands : Nat → Bool}
  {ws : List Write} {w : Write} {p : TablePlan} {run : MoveRun}

theorem taken_append_singleton :
    taken lands (ws ++ [w]) = taken lands ws ++ if lands ws.length then [w] else [] := by
  rw [taken, List.zipIdx_append, List.filter_append, List.map_append, Nat.zero_add]
  change taken lands ws ++ _ = _
  congr 1
  cases hland : lands ws.length <;> simp [hland]

theorem mem_of_mem_taken (h : w ∈ taken lands ws) : w ∈ ws := by
  obtain ⟨⟨w', i⟩, hmem, rfl⟩ := List.mem_map.mp h
  exact List.mem_of_getElem? (List.mem_zipIdx_iff_getElem?.mp (List.mem_filter.mp hmem).1)

theorem status_setPlan_ne (hquiet : Quiet w) (hp : p.status ≠ .stopped) :
    (w.setPlan jobId p).status ≠ .stopped := by
  rw [Write.setPlan]
  split
  · cases w with
    | updateTableProgress n status rows =>
        intro hstatus
        exact hquiet n rows (congrArg (Write.updateTableProgress n · rows) hstatus)
    | setTableError sourceSchema sourceTable message =>
        exact fun hstatus => PlanStatus.noConfusion hstatus
    | updateJobTotals rows tablesDone => exact hp
  · exact hp

theorem status_bookAll_ne (hquiet : ∀ w ∈ ws, Quiet w) (hp : p.status ≠ .stopped) :
    (bookAll jobId p ws).status ≠ .stopped := by
  induction ws generalizing p with
  | nil => exact hp
  | cons w ws ih =>
      rw [List.forall_mem_cons] at hquiet
      exact ih hquiet.2 (status_setPlan_ne hquiet.1 hp)

theorem quiet_migrating (rows : Nat) : ∀ w ∈ migrating table jobBase rows, Quiet w := by
  intro w hw n r heq
  rw [migrating, List.mem_cons, List.mem_singleton] at hw
  obtain rfl | rfl := hw
  · cases heq
  · cases heq

theorem quiet_failed (rows : Nat) :
    Quiet (.updateTableProgress table.tableName .failed rows) := by
  intro n r heq
  cases heq

theorem quiet_first : Quiet (.updateTableProgress table.tableName .migrating 0) := by
  intro n r heq
  cases heq

theorem quiet_flatMap_migrating (f : Nat → Nat) (reports : List Nat) :
    ∀ w ∈ reports.flatMap fun r => migrating table jobBase (f r), Quiet w := by
  intro w hw
  obtain ⟨r, -, hmem⟩ := List.mem_flatMap.mp hw
  exact quiet_migrating (f r) w hmem

/-- A stopped loop says so in its last write, with the rows of the loaded chunks. -/
theorem moveSequential_stopped (chunks : List ChunkOutcome) (rows : Nat) :
    ∃ earlier, moveSequential table jobBase .stopped rows chunks = earlier ++
        [.updateTableProgress table.tableName .stopped
          (rows + (chunks.map ChunkOutcome.rows).sum)] ∧
      ∀ w ∈ earlier, Quiet w := by
  induction chunks generalizing rows with
  | nil => exact ⟨[], rfl, fun w hw => absurd hw List.not_mem_nil⟩
  | cons chunk rest ih =>
      obtain ⟨earlier, heq, hquiet⟩ := ih (rows + chunk.rows)
      refine ⟨chunkReports table jobBase rows chunk.reports ++
        migrating table jobBase (rows + chunk.rows) ++ earlier, ?_, ?_⟩
      · rw [moveSequential, heq, List.map_cons, List.sum_cons, Nat.add_assoc]
        simp only [List.append_assoc]
      · refine List.forall_mem_append.mpr ⟨List.forall_mem_append.mpr ⟨?_, ?_⟩, hquiet⟩
        · exact quiet_flatMap_migrating (rows + ·) chunk.reports
        · exact quiet_migrating _

theorem ParallelRun.chunkRows_eq (run : ParallelRun) :
    run.final.chunkRows = loadedRows run.actions :=
  (run_spec run.runs).1.trans (List.nil_append _)

theorem ParallelRun.err_eq (run : ParallelRun) : run.final.err = firstError run.actions :=
  (run_spec run.runs).2.trans (Option.none_or)

theorem firstError_ne_none {actions : List (Nat × WorkerAction)} {i : Nat}
    (h : (i, WorkerAction.stop) ∈ actions) : firstError actions ≠ none := by
  intro hnone
  exact Option.some_ne_none _ (List.findSome?_eq_none_iff.mp hnone _ h)

/-- Where the stop ends the loops, `Move` records it, and behind it a failure. -/
theorem writes_of_stopEnds (h : run.StopEnds) :
    ∃ earlier rows, run.writes table jobBase = earlier ++
        [.updateTableProgress table.tableName .stopped run.loaded] ++
        [.updateTableProgress table.tableName .failed rows] ∧
      ∀ w ∈ earlier, Quiet w := by
  cases run with
  | sequential chunks ending =>
      obtain rfl : ending = .stopped := h
      obtain ⟨earlier, heq, hquiet⟩ := moveSequential_stopped chunks 0
      refine ⟨.updateTableProgress table.tableName .migrating 0 :: earlier,
        (chunks.map ChunkOutcome.rows).sum, ?_, List.forall_mem_cons.mpr ⟨quiet_first, hquiet⟩⟩
      rw [Nat.zero_add] at heq
      exact congrArg (fun ws => _ :: (ws ++ markFailed table _)) heq
  | parallel run =>
      have hending : run.final.ending = .stopped := by
        rw [Group.ending, run.err_eq, h]
      refine ⟨.updateTableProgress table.tableName .migrating 0 ::
        run.final.reports.flatMap fun added =>
          migrating table jobBase (run.final.chunkRows.take added).sum, 0, ?_,
        List.forall_mem_cons.mpr ⟨quiet_first, quiet_flatMap_migrating _ _⟩⟩
      rw [MoveRun.loaded, ← run.chunkRows_eq, MoveRun.writes, MoveRun.outcome, hending]
      rfl

/-- Where another error does, nothing is recorded of the stop. -/
theorem quiet_writes (h : run.StopRead) (hends : ¬ run.StopEnds) :
    ∀ w ∈ run.writes table jobBase, Quiet w := by
  cases run with
  | sequential chunks ending => exact absurd h hends
  | parallel run =>
      obtain ⟨i, hstop⟩ := h
      have hending : run.final.ending = .failed := by
        rw [Group.ending, run.err_eq]
        cases herr : firstError run.actions with
        | none => exact absurd herr (firstError_ne_none hstop)
        | some e =>
            cases e with
            | stopped => exact absurd herr hends
            | failed => rfl
      rw [MoveRun.writes, MoveRun.outcome, hending]
      change ∀ w ∈ Write.updateTableProgress table.tableName .migrating 0 ::
        (((run.final.reports.flatMap fun added =>
          migrating table jobBase (run.final.chunkRows.take added).sum) ++
          [.updateTableProgress table.tableName .failed run.final.chunkRows.sum]) ++
          [.updateTableProgress table.tableName .failed 0]), Quiet w
      refine List.forall_mem_cons.mpr ⟨quiet_first, ?_⟩
      refine List.forall_mem_append.mpr ⟨List.forall_mem_append.mpr
        ⟨quiet_flatMap_migrating _ _, ?_⟩, ?_⟩
      · exact List.forall_mem_singleton.mpr (quiet_failed _)
      · exact List.forall_mem_singleton.mpr (quiet_failed _)

/-- The write of the stop lands and the one behind it, the last of the run, does not. -/
def LosesFailure (lands : Nat → Bool) (ws : List Write) : Prop :=
  lands (ws.length - 2) = true ∧ lands (ws.length - 1) = false

/-- A table whose move is stopped is recorded so, with the rows of the loaded chunks, if and only
if the stop is what ends its loops and the database does not take the failure behind it. -/
theorem stopped_recorded_iff (jobId : String) (table : MigrationTable) (jobBase : JobTotals)
    (lands : Nat → Bool) (run : MoveRun) (h : run.StopRead) :
    account (run.finalRow jobId table jobBase lands) = (.stopped, run.loaded) ↔
      run.StopEnds ∧ LosesFailure lands (run.writes table jobBase) := by
  have hrow (ws : List Write) (status : PlanStatus) (rows : Nat) :
      account (bookAll jobId (createdRow jobId (table.sourceSchema, table.tableName))
        (ws ++ [.updateTableProgress table.tableName status rows])) = (status, rows) := by
    refine account_append_progress ?_ ?_ ws status rows
    · rfl
    · rfl
  have hpending : (createdRow jobId (table.sourceSchema, table.tableName)).status ≠ .stopped :=
    fun heq => PlanStatus.noConfusion heq
  by_cases hends : run.StopEnds
  · obtain ⟨earlier, rows, hwrites, hquiet⟩ :=
      @writes_of_stopEnds table jobBase run hends
    rw [and_iff_right hends, LosesFailure, MoveRun.finalRow, hwrites, List.length_append,
      List.length_append, List.length_singleton, List.length_singleton, Nat.add_sub_cancel,
      taken_append_singleton, List.length_append, List.length_singleton]
    change _ ↔ lands earlier.length = true ∧ _
    cases hfailure : lands (earlier.length + 1) with
    | true =>
        rw [if_pos rfl, hrow]
        exact iff_of_false (fun heq => by cases heq) fun hboth => by cases hboth.2
    | false =>
        rw [if_neg Bool.false_ne_true, List.append_nil, taken_append_singleton]
        cases hstop : lands earlier.length with
        | true =>
            rw [if_pos rfl, hrow]
            exact iff_of_true rfl ⟨rfl, rfl⟩
        | false =>
            rw [if_neg Bool.false_ne_true, List.append_nil]
            refine iff_of_false (fun heq => ?_) fun hboth => by cases hboth.1
            exact status_bookAll_ne (fun w hw => hquiet w (mem_of_mem_taken hw)) hpending
              (congrArg Prod.fst heq)
  · refine iff_of_false (fun heq => ?_) fun hboth => hends hboth.1
    exact status_bookAll_ne (fun w hw => quiet_writes h hends w (mem_of_mem_taken hw)) hpending
      (congrArg Prod.fst heq)

def ordersTable : MigrationTable where
  sourceSchema := "dbo"
  tableName := "Orders"

/-- Two chunks are loaded before the stop. -/
def stoppedRun : MoveRun := .sequential [⟨[], 500⟩, ⟨[], 300⟩] .stopped

theorem stoppedRun_recorded :
    account (stoppedRun.finalRow "job" ordersTable {} fun k => k ≠ 6) = (.stopped, 800) ↔
      stoppedRun.StopEnds ∧
        LosesFailure (fun k => k ≠ 6) (stoppedRun.writes ordersTable {}) :=
  stopped_recorded_iff "job" ordersTable {} (fun k => k ≠ 6) stoppedRun rfl

/-- With all writes taken, a stopped table has failed. -/
theorem stopped_table_failed :
    stoppedRun.StopRead ∧ account (stoppedRun.finalRow "job" ordersTable {} fun _ => true) ≠
      (.stopped, stoppedRun.loaded) := by
  have hfailed : account (stoppedRun.finalRow "job" ordersTable {} fun _ => true) =
      (.failed, 800) := by decide
  rw [hfailed]
  exact ⟨rfl, by decide⟩

end Moves

end SqlOptima.StoppedMoves
