import SqlOptima.StrandedTransfers
import SqlOptima.TransferDispatch
import Mathlib.Data.Fintype.Basic

namespace SqlOptima.TransferOverlap

open TransferDispatch (tableKey)
open TransferLifecycle (Action Effect Request TransferStatus)
open TransferPreflight (PythonText)
open TransitionSystem (ReachesBy guarded reachesBy_of_guarded reaches_of_runSteps runSteps)

/-- The target side of a table mapping. -/
structure Target where
  schema : String
  table : String
  deriving DecidableEq, Repr

/-- What a call of `create_job` asks for, its connections by their ids. -/
structure JobRequest (K : Type) where
  source : K
  target : K
  tables : List Target
  deriving DecidableEq, Repr

/-- The tables that a worker is done with, and whether it is moving the next. -/
structure Progress where
  done : Nat
  moving : Bool
  deriving DecidableEq, Repr

/-- The jobs with their plans, the calls of `create_job` between the overlap check and the insert,
and the loops of the workers. -/
structure State (J W C K : Type) where
  jobs : TransferLifecycle.State J W C
  plans : List (J × JobRequest K)
  checked : C → Option (JobRequest K)
  progress : W → Progress

/-- `preflight` is the overlap check of a call of `create_job`, `insert` its transaction that writes
the job, `abandon` any error between them. -/
inductive Step (J W C K : Type) where
  | preflight (c : C) (r : JobRequest K)
  | abandon (c : C)
  | insert (c : C) (j : J)
  | begin (w : W)
  | moved (w : W)
  | job (a : Action J W C)
  deriving DecidableEq, Repr

def activeStatuses : List TransferStatus := [.queued, .preparing, .running, .paused, .restoring]

section Steps

variable {J W C K T : Type} [DecidableEq J] [DecidableEq W] [DecidableEq C] [DecidableEq K]

def initial : State J W C K where
  jobs := TransferLifecycle.initial
  plans := []
  checked _ := none
  progress _ := ⟨0, false⟩

variable (py : PythonText)

def targetKeys (r : JobRequest K) : List String :=
  r.tables.map fun m => tableKey py m.schema m.table

namespace State

variable (s : State J W C K)

def isActive (j : J) : Bool := (s.jobs.status j).any activeStatuses.contains

/-- The rows are those of the target connection already, the loop passes over none of them. -/
def findOverlapping (r : JobRequest K) : List (J × JobRequest K) :=
  s.plans.filter fun p =>
    s.isActive p.1 && p.2.target == r.target &&
      !(p.2.source != r.source && p.2.target != r.target) &&
      p.2.tables.any fun m => (targetKeys py r).contains (tableKey py m.schema m.table)

/-- A call identity that is not in use. -/
def isFree (c : C) : Bool := (s.jobs.call c).isNone && (s.checked c).isNone

def plan (w : W) : Option (JobRequest K) := (s.jobs.atWork w).bind fun j => s.plans.lookup j

/-- The table that a worker moves rows into. -/
def copies (w : W) : Option (K × Target) :=
  if (s.progress w).moving then
    (s.plan w).bind fun r => (r.tables[(s.progress w).done]?).map fun m => (r.target, m)
  else none

/-- A worker that is not at work on a job stands outside the loop. -/
def withJobs (jobs : TransferLifecycle.State J W C) : State J W C K :=
  { s with
    jobs := jobs
    progress := fun w => if (jobs.atWork w).isSome then s.progress w else ⟨0, false⟩ }

end State

def step (s : State J W C K) : Step J W C K → Option (State J W C K)
  | .preflight c r =>
      if s.isFree c then
        some (if r.tables ≠ [] ∧ s.findOverlapping py r = []
          then { s with checked := Function.update s.checked c (some r) } else s)
      else none
  | .abandon c => some { s with checked := Function.update s.checked c none }
  | .insert c j =>
      match s.checked c with
      | some r =>
          (TransferLifecycle.step s.jobs (.create c j)).map fun jobs =>
            { s.withJobs jobs with
              plans := (j, r) :: s.plans
              checked := Function.update s.checked c none }
      | none => none
  | .begin w =>
      match s.jobs.worker w, s.plan w with
      | .working _, some r =>
          if !(s.progress w).moving && (s.progress w).done < r.tables.length then
            some { s with
              progress := Function.update s.progress w ⟨(s.progress w).done, true⟩ }
          else none
      | _, _ => none
  | .moved w =>
      match s.jobs.worker w with
      | .working _ =>
          if (s.progress w).moving then
            some { s with
              progress := Function.update s.progress w ⟨(s.progress w).done + 1, false⟩ }
          else none
      | _ => none
  | .job (.create _ _) => none
  | .job (.request c r j) =>
      if s.isFree c then (TransferLifecycle.step s.jobs (.request c r j)).map s.withJobs else none
  | .job a => (TransferLifecycle.step s.jobs a).map s.withJobs

end Steps

section Conditions

variable {J W C K T : Type}

/-- The job whose stop the step records: the operator's call does, and the worker that reads the
command. -/
def stopRecorded (s : TransferLifecycle.State J W C) : Action J W C → Option J
  | .settle c =>
      match s.call c with
      | some (.issued .stop j) => some j
      | _ => none
  | .act w _ lands _ =>
      match s.worker w with
      | .reading j .stop | .reading j .cancel | .pausedReading j .stop | .pausedReading j .cancel =>
          if lands then some j else none
      | _ => none
  | _ => none

/-- No stop is recorded while a worker has the job. -/
def StopsFree (s : TransferLifecycle.State J W C) (a : Action J W C) : Prop :=
  ∀ j ∈ stopRecorded s a, ∀ w, s.holder w ≠ some j

variable [DecidableEq J] [DecidableEq W] [DecidableEq C] [DecidableEq K] (py : PythonText)
  (denotes : K → Target → T)

/-- The overlap check of the request would pass now, and it can see the jobs that share a table:
they have the request's connection entry and the same key for the table. -/
def Excluded (s : State J W C K) (r : JobRequest K) : Prop :=
  s.findOverlapping py r = [] ∧
    ∀ p ∈ s.plans, s.isActive p.1 → ∀ m ∈ p.2.tables, ∀ n ∈ r.tables,
      denotes p.2.target m = denotes r.target n →
        p.2.target = r.target ∧ tableKey py m.schema m.table = tableKey py n.schema n.table

def Meets (s : State J W C K) : Step J W C K → Prop
  | .insert c _ => ∀ r ∈ s.checked c, Excluded py denotes s r
  | .job a => StopsFree s.jobs a
  | _ => True

/-- No two workers move rows into one table. -/
def OneWriter (s : State J W C K) : Prop :=
  ∀ w v, w ≠ v → ∀ p q, s.copies w = some p → s.copies v = some q →
    denotes p.1 p.2 ≠ denotes q.1 q.2

/-- A job that a worker is at work on is among those that the overlap check looks at, and a job
that a worker has not left does not read as stopped. -/
structure Counted (s : TransferLifecycle.State J W C) : Prop where
  active : ∀ w j, s.atWork w = some j → ∃ status ∈ activeStatuses, s.status j = some status
  not_stopped : ∀ w j, s.holder w = some j → s.status j ≠ some .stopped

section Decide

variable [Fintype W] [DecidableEq T]

instance (s : TransferLifecycle.State J W C) (a : Action J W C) : Decidable (StopsFree s a) :=
  inferInstanceAs (Decidable (∀ j ∈ stopRecorded s a, ∀ w, s.holder w ≠ some j))

instance (s : State J W C K) (r : JobRequest K) : Decidable (Excluded py denotes s r) :=
  inferInstanceAs (Decidable (_ ∧ _))

instance (s : State J W C K) (a : Step J W C K) : Decidable (Meets py denotes s a) :=
  match a with
  | .insert c _ => inferInstanceAs (Decidable (∀ r ∈ s.checked c, Excluded py denotes s r))
  | .job a => inferInstanceAs (Decidable (StopsFree s.jobs a))
  | .preflight .. | .abandon _ | .begin _ | .moved _ => inferInstanceAs (Decidable True)

end Decide

end Conditions

end SqlOptima.TransferOverlap
