import Mathlib.Logic.Function.Basic
import SqlOptima.CommandRow

namespace SqlOptima.JobDispatch

open CommandRow (Command Row ackCommand getCommand writeCommand)

inductive MigrationStatus where
  | pending | queued | running | completed | partialRun | failed | stopped | paused | resumed
  deriving DecidableEq, Repr

def terminalStatuses : List MigrationStatus := [.completed, .partialRun, .failed, .stopped]

/-- The durable status, unless the job has only been registered and its copy in
memory already came to an end. -/
def deriveJobStatus (memory durable : MigrationStatus) : MigrationStatus :=
  if durable ∈ terminalStatuses then durable
  else if durable ∈ [.running, .paused, .queued, .resumed] then durable
  else if memory ∈ terminalStatuses then memory
  else durable

/-- What the preparation of a dispatch resolves: the configuration, the options
the second transaction adds to it, and the rows of the table plans. -/
structure Prepared (C P : Type) where
  config : C
  addOptions : C → C
  plans : List P

/-- Where `dispatch` stands between two statements of its sessions. -/
inductive DispatchPos (C P : Type) where
  | waiting
  | prepared (d : Prepared C P)
  | loaded (d : Prepared C P) (status : MigrationStatus)
  | saved (d : Prepared C P)
  | planned (d : Prepared C P)
  | merged (d : Prepared C P) (row : Option Row)
  | started (d : Prepared C P)
  | finished (d : Prepared C P)
  | raised
  | aborted

/-- Where a call of `stop_job` stands. -/
inductive StopPos where
  | idle
  | allowed
  | merged (row : Option Row)
  | issued
  | loaded (status : MigrationStatus)
  | persisted
  | returned
  | failed
  deriving DecidableEq, Repr

/-- Where a Go worker stands with the job. -/
inductive WorkerPos where
  | idle
  | ready
  | read (c : Command)
  | stopping
  deriving DecidableEq, Repr

inductive Outcome where
  | completed | partialRun | failed
  deriving DecidableEq, Repr

def Outcome.status : Outcome → MigrationStatus
  | .completed => .completed
  | .partialRun => .partialRun
  | .failed => .failed

/-- The durable rows of a job, its copy in memory, everybody who works on it and,
as a record of the run, what was prepared and what was committed of the commands
and of the stop. -/
structure State (C P S W : Type) where
  status : MigrationStatus
  config : Option C
  plans : List P
  row : Option Row
  issued : Nat
  memory : MigrationStatus
  dispatch : DispatchPos C P
  stop : S → StopPos
  worker : W → WorkerPos
  prepared : Option (Prepared C P)
  startCommitted : Bool
  stopPersisted : Bool
  stopReplaced : Bool
  claimedAfterStop : Bool

inductive Action (C P S W : Type) where
  | abort
  | prepare (d : Prepared C P)
  | loadRecord
  | saveConfig
  | rewritePlans
  | mergeStart
  | issueStart
  | finish
  | raise
  | stopEnter (i : S)
  | stopMerge (i : S)
  | stopIssue (i : S)
  | stopLoad (i : S)
  | stopPersist (i : S)
  | stopReturn (i : S)
  | stopFail (i : S)
  | claim (w : W)
  | poll (w : W)
  | act (w : W)
  | halt (w : W)
  | done (w : W) (o : Outcome)

section Writes

/-- A flush writes a column only where it differs from what was loaded. -/
def writeStatus (loaded new current : MigrationStatus) : MigrationStatus :=
  if loaded = new then current else new

end Writes

section Steps

variable {C P S W : Type}

/-- A job as `start_migration` registers it, with the plans of its tables. -/
def registered (plans : List P) : State C P S W where
  status := .pending
  config := none
  plans := plans
  row := none
  issued := 0
  memory := .pending
  dispatch := .waiting
  stop _ := .idle
  worker _ := .idle
  prepared := none
  startCommitted := false
  stopPersisted := false
  stopReplaced := false
  claimedAfterStop := false

namespace State

def dispatchAt (s : State C P S W) (p : DispatchPos C P) : State C P S W :=
  { s with dispatch := p }

variable [DecidableEq S] [DecidableEq W]

def stopAt (s : State C P S W) (i : S) (p : StopPos) : State C P S W :=
  { s with stop := Function.update s.stop i p }

def workerAt (s : State C P S W) (w : W) (p : WorkerPos) : State C P S W :=
  { s with worker := Function.update s.worker w p }

end State

/-- An exception leaves its mark on the copy in memory only. -/
def raiseDispatch (s : State C P S W) : State C P S W :=
  { s with dispatch := .raised, memory := .failed }

def saveDispatchConfig (s : State C P S W) (d : Prepared C P) (loaded : MigrationStatus) :
    State C P S W :=
  { s with
    status := writeStatus loaded .queued s.status
    config := some d.config
    dispatch := .saved d }

def rewriteTablePlans (s : State C P S W) (d : Prepared C P) : State C P S W :=
  { s with
    config := some (d.addOptions d.config)
    plans := d.plans
    dispatch := .planned d }

def replacesStop (old new : Option Row) : Bool :=
  old.any (fun r => r.command = .stop) && new.any (fun r => r.command = .start)

def issueStart (s : State C P S W) (d : Prepared C P) (row : Row) : State C P S W :=
  { s with
    row := some row
    issued := s.issued + 1
    startCommitted := true
    stopReplaced := s.stopReplaced || s.stopPersisted && replacesStop s.row (some row)
    dispatch := .started d }

def finishDispatch (s : State C P S W) (d : Prepared C P) : State C P S W :=
  { s with memory := .queued, dispatch := .finished d }

variable [DecidableEq S] [DecidableEq W]

def enterStop (s : State C P S W) (i : S) : State C P S W :=
  let status := deriveJobStatus s.memory s.status
  let next : StopPos := if status ∈ terminalStatuses then .returned else .allowed
  { s with memory := status }.stopAt i next

def issueStop (s : State C P S W) (i : S) (row : Row) : State C P S W :=
  { s with row := some row, issued := s.issued + 1 }.stopAt i .issued

def persistStopped (s : State C P S W) (i : S) (loaded : MigrationStatus) : State C P S W :=
  let status := writeStatus loaded .stopped s.status
  let persisted : Bool := status = .stopped
  { s with status := status, stopPersisted := s.stopPersisted || persisted }.stopAt i .persisted

def returnStop (s : State C P S W) (i : S) : State C P S W :=
  { s with memory := .stopped }.stopAt i .returned

/-- `UPDATE … SET status = 'running' … WHERE status = 'queued'`. -/
def claimQueuedJob (s : State C P S W) (w : W) : State C P S W :=
  if s.status = .queued then
    { s with
      status := .running
      claimedAfterStop := s.claimedAfterStop || s.stopPersisted }.workerAt w .ready
  else s

def actOn (s : State C P S W) (w : W) (c : Command) : State C P S W :=
  let next : WorkerPos := if c = .stop ∨ c = .cancel then .stopping else .ready
  { s with row := ackCommand s.row }.workerAt w next

def setJobStatus (s : State C P S W) (w : W) (status : MigrationStatus) : State C P S W :=
  { s with status := status }.workerAt w .idle

def step (s : State C P S W) : Action C P S W → Option (State C P S W)
  | .abort =>
      match s.dispatch with
      | .waiting => some { s with dispatch := .aborted, memory := .failed }
      | _ => none
  | .prepare d =>
      match s.dispatch with
      | .waiting => some { s with dispatch := .prepared d, prepared := some d }
      | _ => none
  | .loadRecord =>
      match s.dispatch with
      | .prepared d => some (s.dispatchAt (.loaded d s.status))
      | _ => none
  | .saveConfig =>
      match s.dispatch with
      | .loaded d loaded => some (saveDispatchConfig s d loaded)
      | _ => none
  | .rewritePlans =>
      match s.dispatch with
      | .saved d => some (rewriteTablePlans s d)
      | _ => none
  | .mergeStart =>
      match s.dispatch with
      | .planned d => some (s.dispatchAt (.merged d s.row))
      | _ => none
  | .issueStart =>
      match s.dispatch with
      | .merged d loaded =>
          (writeCommand loaded s.row .start s.issued).map fun row => issueStart s d row
      | _ => none
  | .finish =>
      match s.dispatch with
      | .started d => some (finishDispatch s d)
      | _ => none
  | .raise =>
      match s.dispatch with
      | .finished _ | .raised | .aborted => none
      | _ => some (raiseDispatch s)
  | .stopEnter i =>
      match s.stop i with
      | .idle => some (enterStop s i)
      | _ => none
  | .stopMerge i =>
      match s.stop i with
      | .allowed => some (s.stopAt i (.merged s.row))
      | _ => none
  | .stopIssue i =>
      match s.stop i with
      | .merged loaded =>
          (writeCommand loaded s.row .stop s.issued).map fun row => issueStop s i row
      | _ => none
  | .stopLoad i =>
      match s.stop i with
      | .issued => some (s.stopAt i (.loaded s.status))
      | _ => none
  | .stopPersist i =>
      match s.stop i with
      | .loaded loaded => some (persistStopped s i loaded)
      | _ => none
  | .stopReturn i =>
      match s.stop i with
      | .persisted => some (returnStop s i)
      | _ => none
  | .stopFail i =>
      match s.stop i with
      | .idle | .returned | .failed => none
      | _ => some (s.stopAt i .failed)
  | .claim w =>
      match s.worker w with
      | .idle => some (claimQueuedJob s w)
      | _ => none
  | .poll w =>
      match s.worker w, getCommand s.row true with
      | .ready, none => some s
      | .ready, some (c, _) => some (s.workerAt w (.read c))
      | _, _ => none
  | .act w =>
      match s.worker w with
      | .read c => some (actOn s w c)
      | _ => none
  | .halt w =>
      match s.worker w with
      | .stopping => some (setJobStatus s w .stopped)
      | _ => none
  | .done w o =>
      match s.worker w with
      | .ready => some (setJobStatus s w o.status)
      | _ => none

end Steps

section Transitions

variable {C P S W : Type} [DecidableEq S] [DecidableEq W]

inductive Transition (s : State C P S W) : Action C P S W → State C P S W → Prop where
  | abort (h : s.dispatch = .waiting) :
      Transition s .abort { s with dispatch := .aborted, memory := .failed }
  | prepare (d : Prepared C P) (h : s.dispatch = .waiting) :
      Transition s (.prepare d) { s with dispatch := .prepared d, prepared := some d }
  | loadRecord {d : Prepared C P} (h : s.dispatch = .prepared d) :
      Transition s .loadRecord (s.dispatchAt (.loaded d s.status))
  | saveConfig {d : Prepared C P} {loaded : MigrationStatus} (h : s.dispatch = .loaded d loaded) :
      Transition s .saveConfig (saveDispatchConfig s d loaded)
  | rewritePlans {d : Prepared C P} (h : s.dispatch = .saved d) :
      Transition s .rewritePlans (rewriteTablePlans s d)
  | mergeStart {d : Prepared C P} (h : s.dispatch = .planned d) :
      Transition s .mergeStart (s.dispatchAt (.merged d s.row))
  | issueStart {d : Prepared C P} {loaded : Option Row} {row : Row}
      (h : s.dispatch = .merged d loaded)
      (hrow : writeCommand loaded s.row .start s.issued = some row) :
      Transition s .issueStart (issueStart s d row)
  | finish {d : Prepared C P} (h : s.dispatch = .started d) :
      Transition s .finish (finishDispatch s d)
  | raise (h : (∀ d, s.dispatch ≠ .finished d) ∧ s.dispatch ≠ .raised ∧ s.dispatch ≠ .aborted) :
      Transition s .raise (raiseDispatch s)
  | stopEnter {i : S} (h : s.stop i = .idle) : Transition s (.stopEnter i) (enterStop s i)
  | stopMerge {i : S} (h : s.stop i = .allowed) :
      Transition s (.stopMerge i) (s.stopAt i (.merged s.row))
  | stopIssue {i : S} {loaded : Option Row} {row : Row} (h : s.stop i = .merged loaded)
      (hrow : writeCommand loaded s.row .stop s.issued = some row) :
      Transition s (.stopIssue i) (issueStop s i row)
  | stopLoad {i : S} (h : s.stop i = .issued) :
      Transition s (.stopLoad i) (s.stopAt i (.loaded s.status))
  | stopPersist {i : S} {loaded : MigrationStatus} (h : s.stop i = .loaded loaded) :
      Transition s (.stopPersist i) (persistStopped s i loaded)
  | stopReturn {i : S} (h : s.stop i = .persisted) : Transition s (.stopReturn i) (returnStop s i)
  | stopFail (i : S) : Transition s (.stopFail i) (s.stopAt i .failed)
  | claim {w : W} (h : s.worker w = .idle) : Transition s (.claim w) (claimQueuedJob s w)
  | pollNone {w : W} (h : s.worker w = .ready) : Transition s (.poll w) s
  | poll {w : W} {c : Command} (h : s.worker w = .ready) :
      Transition s (.poll w) (s.workerAt w (.read c))
  | act {w : W} {c : Command} (h : s.worker w = .read c) : Transition s (.act w) (actOn s w c)
  | halt {w : W} (h : s.worker w = .stopping) : Transition s (.halt w) (setJobStatus s w .stopped)
  | done {w : W} (o : Outcome) (h : s.worker w = .ready) :
      Transition s (.done w o) (setJobStatus s w o.status)

theorem transition_of_step {s t : State C P S W} {a : Action C P S W} (h : step s a = some t) :
    Transition s a t := by
  cases a with
  | abort =>
      cases hpos : s.dispatch with
      | waiting =>
          simp only [step, hpos, Option.some_inj] at h
          exact h ▸ .abort hpos
      | _ => simp [step, hpos] at h
  | prepare d =>
      cases hpos : s.dispatch with
      | waiting =>
          simp only [step, hpos, Option.some_inj] at h
          exact h ▸ .prepare d hpos
      | _ => simp [step, hpos] at h
  | loadRecord =>
      cases hpos : s.dispatch with
      | prepared d =>
          simp only [step, hpos, Option.some_inj] at h
          exact h ▸ .loadRecord hpos
      | _ => simp [step, hpos] at h
  | saveConfig =>
      cases hpos : s.dispatch with
      | loaded d loaded =>
          simp only [step, hpos, Option.some_inj] at h
          exact h ▸ .saveConfig hpos
      | _ => simp [step, hpos] at h
  | rewritePlans =>
      cases hpos : s.dispatch with
      | saved d =>
          simp only [step, hpos, Option.some_inj] at h
          exact h ▸ .rewritePlans hpos
      | _ => simp [step, hpos] at h
  | mergeStart =>
      cases hpos : s.dispatch with
      | planned d =>
          simp only [step, hpos, Option.some_inj] at h
          exact h ▸ .mergeStart hpos
      | _ => simp [step, hpos] at h
  | issueStart =>
      cases hpos : s.dispatch with
      | merged d loaded =>
          simp only [step, hpos] at h
          obtain ⟨row, hrow, rfl⟩ := Option.map_eq_some_iff.mp h
          exact .issueStart hpos hrow
      | _ => simp [step, hpos] at h
  | finish =>
      cases hpos : s.dispatch with
      | started d =>
          simp only [step, hpos, Option.some_inj] at h
          exact h ▸ .finish hpos
      | _ => simp [step, hpos] at h
  | raise =>
      simp only [step] at h
      split at h
      · cases h
      · cases h
      · cases h
      · next hfinished hraised haborted =>
          cases h
          exact .raise ⟨hfinished, hraised, haborted⟩
  | stopEnter i =>
      cases hpos : s.stop i with
      | idle =>
          simp only [step, hpos, Option.some_inj] at h
          exact h ▸ .stopEnter hpos
      | _ => simp [step, hpos] at h
  | stopMerge i =>
      cases hpos : s.stop i with
      | allowed =>
          simp only [step, hpos, Option.some_inj] at h
          exact h ▸ .stopMerge hpos
      | _ => simp [step, hpos] at h
  | stopIssue i =>
      cases hpos : s.stop i with
      | merged loaded =>
          simp only [step, hpos] at h
          obtain ⟨row, hrow, rfl⟩ := Option.map_eq_some_iff.mp h
          exact .stopIssue hpos hrow
      | _ => simp [step, hpos] at h
  | stopLoad i =>
      cases hpos : s.stop i with
      | issued =>
          simp only [step, hpos, Option.some_inj] at h
          exact h ▸ .stopLoad hpos
      | _ => simp [step, hpos] at h
  | stopPersist i =>
      cases hpos : s.stop i with
      | loaded loaded =>
          simp only [step, hpos, Option.some_inj] at h
          exact h ▸ .stopPersist hpos
      | _ => simp [step, hpos] at h
  | stopReturn i =>
      cases hpos : s.stop i with
      | persisted =>
          simp only [step, hpos, Option.some_inj] at h
          exact h ▸ .stopReturn hpos
      | _ => simp [step, hpos] at h
  | stopFail i =>
      simp only [step] at h
      split at h
      · cases h
      · cases h
      · cases h
      · cases h
        exact .stopFail i
  | claim w =>
      cases hpos : s.worker w with
      | idle =>
          simp only [step, hpos, Option.some_inj] at h
          exact h ▸ .claim hpos
      | _ => simp [step, hpos] at h
  | poll w =>
      cases hpos : s.worker w with
      | ready =>
          cases hget : getCommand s.row true with
          | none =>
              simp only [step, hpos, hget, Option.some_inj] at h
              exact h ▸ .pollNone hpos
          | some command =>
              simp only [step, hpos, hget, Option.some_inj] at h
              exact h ▸ .poll hpos
      | _ => simp [step, hpos] at h
  | act w =>
      cases hpos : s.worker w with
      | read c =>
          simp only [step, hpos, Option.some_inj] at h
          exact h ▸ .act hpos
      | _ => simp [step, hpos] at h
  | halt w =>
      cases hpos : s.worker w with
      | stopping =>
          simp only [step, hpos, Option.some_inj] at h
          exact h ▸ .halt hpos
      | _ => simp [step, hpos] at h
  | done w o =>
      cases hpos : s.worker w with
      | ready =>
          simp only [step, hpos, Option.some_inj] at h
          exact h ▸ .done o hpos
      | _ => simp [step, hpos] at h

end Transitions

end SqlOptima.JobDispatch
