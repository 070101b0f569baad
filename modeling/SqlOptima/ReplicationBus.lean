import SqlOptima.DedupRows
import SqlOptima.TransitionSystem

namespace SqlOptima.ReplicationBus

open SqlOptima.Lsn
open SqlOptima.SourceLog
open SqlOptima.CdcCapture
open SqlOptima.ChangeApply
open SqlOptima.DedupRows

/-- What the consumer of a stream is built with. `lower` is the lower-casing of
table names. -/
structure ConsumerConfig where
  targetSchema : String
  targetNames : List (String × String)
  lower : String → String

/-- The target name of a table; a later entry of the map replaces an earlier
one, and an empty name counts as none. -/
def ConsumerConfig.targetName (cfg : ConsumerConfig) (name : String) : String :=
  match cfg.targetNames.reverse.find? fun p => cfg.lower p.1 = cfg.lower name with
  | some (_, mapped) => if mapped ≠ "" then mapped else cfg.lower name
  | none => cfg.lower name

variable {Value : Type}

def ConsumerConfig.retarget (cfg : ConsumerConfig) (e : ChangeEvent Value) : ChangeEvent Value :=
  { e with tableSchema := cfg.targetSchema, tableName := cfg.targetName e.tableName }

/-- An event on its way over the bus: a change row of the log, or a row of the
initial snapshot, which has no LSN. -/
inductive Captured (Value : Type)
  | change (r : LogRow Value) (e : ChangeEvent Value) (h : r.event = some e)
  | snapshot (e : ChangeEvent Value) (h : e.lsn = none)

namespace Captured

def event : Captured Value → ChangeEvent Value
  | .change _ e _ => e
  | .snapshot e _ => e

def row : Captured Value → Option (LogRow Value)
  | .change r _ _ => some r
  | .snapshot _ _ => none

end Captured

structure Message (Value : Type) where
  captured : Captured Value
  raises : Bool

inductive Stage
  | idle
  | executing
  | recording
  | saving
  deriving DecidableEq

/-- One life of the bus: how many messages were published and taken, the
applier, and the log rows executed on the target. -/
structure BusState (Value : Type) where
  published : Nat
  taken : Nat
  stage : Stage
  applier : ApplierState Value
  appliedRows : List (LogRow Value)
  crashed : Bool

inductive BusAction
  | publish
  | take
  | execute
  | record
  | save
  | interrupt
  | expire (expired : List Char → Bool)
  | crash

section Step

variable (digest : ChangeEvent Value → List Char) (cfg : ConsumerConfig) (queueSize : Nat)
  (messages : List (Message Value))

def current (s : BusState Value) : Option (Message Value) := messages[s.taken - 1]?

def step (s : BusState Value) : BusAction → Option (BusState Value)
  | .publish =>
      -- a queue of size zero is unbounded
      if s.crashed = false ∧ s.published < messages.length ∧
          (queueSize = 0 ∨ s.published - s.taken < queueSize) then
        some { s with published := s.published + 1 }
      else none
  | .take =>
      if s.crashed = false ∧ s.stage = .idle ∧ s.taken < s.published then
        match messages[s.taken]? with
        | none => none
        | some m =>
            some { s with
              taken := s.taken + 1
              stage :=
                if isDuplicate digest s.applier (cfg.retarget m.captured.event) then .idle
                else .executing }
      else none
  | .execute =>
      if s.crashed = false ∧ s.stage = .executing then
        match current messages s with
        | none => none
        | some m =>
            -- the bus logs what the handler raises and goes on
            if m.raises then some { s with stage := .idle }
            else some { s with
              stage := .recording
              applier := executeEvent s.applier (cfg.retarget m.captured.event)
              appliedRows := m.captured.row.toList ++ s.appliedRows }
      else none
  | .record =>
      if s.crashed = false ∧ s.stage = .recording then
        match current messages s with
        | none => none
        | some m =>
            some { s with
              stage := .saving
              applier := recordEvent digest s.applier (cfg.retarget m.captured.event) }
      else none
  | .save =>
      if s.crashed = false ∧ s.stage = .saving then
        match current messages s with
        | none => none
        | some m =>
            some { s with
              stage := .idle
              applier :=
                (saveEvent s.applier (cfg.retarget m.captured.event)).getD s.applier }
      else none
  | .interrupt =>
      -- recording the key or saving the checkpoint raises
      if s.crashed = false ∧ (s.stage = .recording ∨ s.stage = .saving) then
        some { s with stage := .idle }
      else none
  | .expire expired =>
      some { s with applier := { s.applier with dedup := s.applier.dedup.expire expired } }
  | .crash => some { s with crashed := true }

def initial (backend : Backend) (checkpoints : Checkpoints) : BusState Value :=
  ⟨0, 0, .idle, ⟨[], ⟨backend, []⟩, checkpoints⟩, [], false⟩

end Step

def checkpointTable (cfg : ConsumerConfig) (r : LogRow Value) : String × String :=
  (cfg.targetSchema, cfg.targetName r.table.tableName)

/-- No stored checkpoint has reached a published change that is not applied. -/
def NothingPassed (cfg : ConsumerConfig) (messages : List (Message Value))
    (s : BusState Value) : Prop :=
  ∀ i m r, i < s.published → messages[i]? = some m → m.captured.row = some r →
    r ∉ s.appliedRows → ∀ c, s.applier.checkpoints (checkpointTable cfg r) = some c →
      c < r.row.startLSN

end SqlOptima.ReplicationBus
