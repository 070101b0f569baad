import Mathlib.Data.List.Sort
import SqlOptima.SourceLog
import SqlOptima.TransitionSystem

namespace SqlOptima.CdcPoll

open SqlOptima.Lsn
open SqlOptima.ChangeLog
open SqlOptima.SourceLog

inductive CDCOperation
  | delete
  | insert
  | updateBefore
  | updateAfter
  deriving DecidableEq

def operationFromCode (code : Int) : Except String CDCOperation :=
  if code = 1 then .ok .delete
  else if code = 2 then .ok .insert
  else if code = 3 then .ok .updateBefore
  else if code = 4 then .ok .updateAfter
  else .error ("unknown CDC operation code " ++ toString code)

def CDCOperation.isApplicable (op : CDCOperation) : Bool :=
  op ≠ .updateBefore

inductive CDCState
  | idle
  | starting
  | snapshotting
  | cdcCatchup
  | cdcStreaming
  | paused
  | stopping
  | failed
  | completed
  deriving DecidableEq

def CDCState.canTransitionTo : CDCState → CDCState → Bool
  | .idle, next => next = .starting
  | .starting, next => next = .snapshotting ∨ next = .failed
  | .snapshotting, next => next = .cdcCatchup ∨ next = .failed ∨ next = .stopping
  | .cdcCatchup, next => next = .cdcStreaming ∨ next = .failed ∨ next = .stopping
  | .cdcStreaming, next =>
      next = .paused ∨ next = .stopping ∨ next = .failed ∨ next = .completed
  | .paused, next => next = .cdcStreaming ∨ next = .stopping
  | .stopping, next => next = .completed ∨ next = .failed
  | .failed, next => next = .cdcCatchup ∨ next = .stopping
  | .completed, _ => false

/-- The state after a transition whose error the caller throws away. -/
def CDCState.transitionTo (state next : CDCState) : CDCState :=
  if state.canTransitionTo next then next else state

structure CDCEvent (Value : Type) where
  startLSN : LSN
  commitLSN : LSN
  seqVal : LSN
  operation : CDCOperation
  schema : String
  table : String
  columns : List (String × Value)
  deriving DecidableEq

variable {Value : Type}

def CDCEvent.isApplicable (e : CDCEvent Value) : Bool := e.operation.isApplicable

def rowToEvent (schema table : String) (row : CtRow Value) : Except String (CDCEvent Value) :=
  match operationFromCode row.operation with
  | .error e => .error e
  | .ok op =>
      .ok ⟨row.startLSN, row.startLSN, row.seqval, op, schema, table,
        row.columns.filter fun c => !("__$".toList.isPrefixOf c.1.toList)⟩

def eventLess (a b : CDCEvent Value) : Bool :=
  if a.commitLSN ≠ b.commitLSN then a.commitLSN < b.commitLSN else a.seqVal.less b.seqVal

def orderForApply (events : List (CDCEvent Value)) : List (CDCEvent Value) :=
  events.insertionSort fun a b => eventLess b a = false

def readLimit (limit : Int) : Nat :=
  if limit ≤ 0 then 1000 else limit.toNat

def readAfter (schema table : String) (ct : CaptureTable Value) (after : LSN) (limit : Int) :
    Except String (List (CDCEvent Value)) :=
  match (read CtRow.startLSN ct.rows after (readLimit limit)).mapM (rowToEvent schema table) with
  | .error e => .error e
  | .ok events => .ok (orderForApply events)

structure PollLoopConfig where
  schema : String
  table : String
  batchSize : Int

def PollLoopConfig.effectiveBatchSize (cfg : PollLoopConfig) : Int :=
  if cfg.batchSize ≤ 0 then 1000 else cfg.batchSize

/-- What the inner loop over one batch gives: the events handed to the applier,
the checkpoint, the number applied, and whether it got through. -/
structure BatchResult (Value : Type) where
  handed : List (CDCEvent Value)
  checkpoint : LSN
  applied : Nat
  ok : Bool

/-- `accepts i` is the result of the `i`-th call of the applier. -/
def applyEvents (accepts : Nat → Bool) : Nat → LSN → List (CDCEvent Value) → BatchResult Value
  | applied, checkpoint, [] => ⟨[], checkpoint, applied, true⟩
  | applied, checkpoint, ev :: events =>
      if ev.isApplicable then
        if accepts applied then
          let r := applyEvents accepts (applied + 1) ev.commitLSN events
          { r with handed := ev :: r.handed }
        else ⟨[ev], checkpoint, applied, false⟩
      else applyEvents accepts applied ev.commitLSN events

inductive LoopPhase
  | notStarted
  | polling (first : Bool)
  | returned
  deriving DecidableEq

/-- One poll loop over a capture table. `saved` is what the checkpoint callback
stored last, and `handed` all events given to the applier so far. -/
structure PollState (Value : Type) where
  table : CaptureTable Value
  phase : LoopPhase
  sm : CDCState
  checkpoint : LSN
  saved : LSN
  handed : List (CDCEvent Value)

inductive PollAction (Value : Type)
  | commit (rows : List (CtRow Value))
  | start
  | poll (readFails : Bool) (accepts : Nat → Bool) (saves : Bool)
  | stop

/-- The batch a poll reads and how far the inner loop gets; `none` when the
read fails. -/
def pollBatch (cfg : PollLoopConfig) (s : PollState Value) (readFails : Bool)
    (accepts : Nat → Bool) : Option (BatchResult Value) :=
  if readFails then none
  else
    match readAfter cfg.schema cfg.table s.table s.checkpoint cfg.effectiveBatchSize with
    | .error _ => none
    | .ok events => some (applyEvents accepts 0 s.checkpoint events)

/-- A poll that neither read, nor apply, nor checkpoint callback cuts short. -/
def pollCompletes (cfg : PollLoopConfig) (s : PollState Value) (readFails : Bool)
    (accepts : Nat → Bool) (saves : Bool) : Bool :=
  match pollBatch cfg s readFails accepts with
  | none => false
  | some r => r.ok && (r.checkpoint.isZero || saves)

def PollState.fail (s : PollState Value) : PollState Value :=
  { s with phase := .returned, sm := s.sm.transitionTo .failed }

def step (cfg : PollLoopConfig) (s : PollState Value) :
    PollAction Value → Option (PollState Value)
  | .commit rows =>
      if h : Commits s.table rows then some { s with table := s.table.append rows h } else none
  | .start =>
      if s.phase = .notStarted then
        -- the three transitions succeed only from IDLE
        if s.sm = .idle then some { s with phase := .polling true, sm := .cdcCatchup }
        else some { s with phase := .returned }
      else none
  | .poll readFails accepts saves =>
      match s.phase with
      | .polling _ =>
          match pollBatch cfg s readFails accepts with
          | none => some s.fail
          | some r =>
              let s := { s with handed := s.handed ++ r.handed, checkpoint := r.checkpoint }
              if r.ok && (r.checkpoint.isZero || saves) then
                some { s with
                  saved := if r.checkpoint.isZero then s.saved else r.checkpoint
                  sm := if s.sm = .cdcCatchup ∧ (r.applied : Int) < cfg.effectiveBatchSize then
                    s.sm.transitionTo .cdcStreaming else s.sm
                  phase := .polling false }
              else some s.fail
      | _ => none
  | .stop =>
      if s.phase = .polling false then
        some { s with
          phase := .returned, sm := (s.sm.transitionTo .stopping).transitionTo .completed }
      else none

def initial (ct : CaptureTable Value) : PollState Value :=
  ⟨ct, .notStarted, .idle, .zero, .zero, []⟩

end SqlOptima.CdcPoll
