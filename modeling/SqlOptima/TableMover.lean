import Mathlib.Data.Fintype.Basic
import SqlOptima.Queue
import SqlOptima.TransitionSystem

namespace SqlOptima.TableMover

open SqlOptima.CoreTypes
open SqlOptima.ChunkKeys
open SqlOptima.Queue

structure TableJob (Uuid : Type) where
  jobID : Uuid
  sourceSchema : String
  tableName : String
  strategy : String
  parallelWorkers : Int
  workerID : String

def isParallelChunkedStrategy (strategy : String) : Bool :=
  strategy = "parallel_chunked"

def maxParallelWorkers : Nat := 32

def effectiveParallelWorkers (workers : Int) : Nat :=
  if workers < 1 then 1
  else if (maxParallelWorkers : Int) < workers then maxParallelWorkers
  else workers.toNat

variable {Uuid : Type}

def useParallel (job : TableJob Uuid) : Bool :=
  isParallelChunkedStrategy job.strategy &&
    decide (1 < effectiveParallelWorkers job.parallelWorkers)

def numWorkers (job : TableJob Uuid) : Nat :=
  if useParallel job then effectiveParallelWorkers job.parallelWorkers else 1

theorem numWorkers_pos (job : TableJob Uuid) : 0 < numWorkers job := by
  simp only [numWorkers, useParallel, Bool.and_eq_true, decide_eq_true_eq]
  split <;> omega

inductive MoveError (Uuid : Type)
  | contextDone
  | jobStopped
  | commandPoll
  | claim (e : QueueError Uuid)
  | chunk (chunkIndex : UInt32)
  deriving DecidableEq

/-- Where one worker loop stands. The transactions of the queue are separate
states, so that other workers, or a crash, can come between them. -/
inductive WorkerState (Uuid : Type)
  | top
  | listing
  | claiming (candidate : ChunkPlan Uuid)
  | pausing (chunk : ChunkPlan Uuid)
  | executing (chunk : ChunkPlan Uuid)
  | succeeded (chunk : ChunkPlan Uuid)
  | recorded (chunk : ChunkPlan Uuid)
  | failing (chunk : ChunkPlan Uuid)
  | resting
  | exited (err : Option (MoveError Uuid))
  deriving DecidableEq

structure Worker (Uuid : Type) where
  pc : WorkerState Uuid
  chunksRun : Nat
  deriving DecidableEq

inductive CommandOutcome
  | proceed
  | stop
  | pollError
  | contextDone
  deriving DecidableEq

inductive WorkerAction
  | checkCommand (outcome : CommandOutcome)
  | list
  | claim (now : Int)
  | endPause (interrupted : Bool)
  | execute (succeeds : Bool)
  | recordStatus
  | recordCheckpoint
  | handleFailure
  deriving DecidableEq

inductive Phase (Uuid : Type) (n : Nat)
  | idle
  | enqueuing (plan rest : List (ChunkPlan Uuid))
  | moving (plan : List (ChunkPlan Uuid)) (workers : Fin n → Worker Uuid)
      (ctxDone : Bool) (firstErr : Option (MoveError Uuid))
  | returned (plan : List (ChunkPlan Uuid)) (err : Option (MoveError Uuid))
  deriving DecidableEq

/-- The engine process over one durable queue. The last five fields are
history: the queue when the running call began and when its workers were
started, the chunks handed to an execution so far, and whether the running
call was stopped or had a chunk fail. -/
structure MoverState (Uuid : Type) (n : Nat) where
  queue : ChunkQueue Uuid
  phase : Phase Uuid n
  startQueue : ChunkQueue Uuid
  baseQueue : ChunkQueue Uuid
  executed : List Uuid
  stopped : Bool
  chunkFailed : Bool

inductive MoveAction (Uuid : Type) (n : Nat)
  | move (plan : List (ChunkPlan Uuid))
  | enqueueNext
  | enqueued
  | cancel
  | worker (i : Fin n) (a : WorkerAction)
  | wait
  | crash

def chunkMatchesTable (chunk : ChunkPlan Uuid) (schema table : String) : Bool :=
  decide (chunk.tableSchema = schema ∧ chunk.tableName = table)

def allStatuses : List ChunkStatus :=
  [.pending, .claimed, .extracting, .extracted, .loading, .loaded, .failed, .retrying]

section Step

variable (U : UuidCodec Uuid) (job : TableJob Uuid)

def matchesJobTable (chunk : ChunkPlan Uuid) : Bool :=
  chunkMatchesTable chunk job.sourceSchema job.tableName

def hasQueuedTableChunks (q : ChunkQueue Uuid) : Bool :=
  allStatuses.any fun status =>
    (listChunksByStatus U q job.jobID status).any (matchesJobTable job)

def prepareChunk (chunk : ChunkPlan Uuid) : ChunkPlan Uuid :=
  { chunk with jobID := job.jobID, status := .pending }

def nextCandidate (q : ChunkQueue Uuid) : Option (ChunkPlan Uuid) :=
  (listChunksByStatus U q job.jobID .pending).find? (matchesJobTable job)

def updateIgnoringError (q : ChunkQueue Uuid) (chunkID : Uuid)
    (old new : ChunkStatus) : ChunkQueue Uuid :=
  match updateStatus U q job.jobID chunkID old new with
  | .ok (q', _) => q'
  | .error _ => q

/-- One step of a worker loop: the queue, the worker, and the chunk whose
execution starts here, if one does. -/
def workerStep (ctxDone : Bool) (q : ChunkQueue Uuid) (w : Worker Uuid) :
    WorkerAction → Option (ChunkQueue Uuid × Worker Uuid × Option Uuid)
  | .checkCommand outcome =>
      match w.pc, outcome with
      | .top, .proceed => some (q, { w with pc := .listing }, none)
      | .top, .stop => some (q, { w with pc := .exited (some .jobStopped) }, none)
      | .top, .pollError => some (q, { w with pc := .exited (some .commandPoll) }, none)
      | .top, .contextDone =>
          if ctxDone then some (q, { w with pc := .exited (some .contextDone) }, none)
          else none
      | _, _ => none
  | .list =>
      match w.pc with
      | .listing =>
          match nextCandidate U job q with
          | none => some (q, { w with pc := .exited none }, none)
          | some c => some (q, { w with pc := .claiming c }, none)
      | _ => none
  | .claim now =>
      match w.pc with
      | .claiming c =>
          match claimChunk U q job.jobID c.id job.workerID now with
          | .error e => some (q, { w with pc := .exited (some (.claim e)) }, none)
          | .ok (q', p) =>
              if useParallel job = false ∧ 0 < w.chunksRun then
                some (q', { w with pc := .pausing p }, none)
              else
                some (q', { w with pc := .executing p }, some p.id)
      | _ => none
  | .endPause interrupted =>
      match w.pc with
      | .pausing p =>
          if interrupted then
            if ctxDone then some (q, { w with pc := .exited (some .contextDone) }, none)
            else none
          else some (q, { w with pc := .executing p }, some p.id)
      | .resting =>
          if interrupted then
            if ctxDone then some (q, { w with pc := .exited (some .contextDone) }, none)
            else none
          else some (q, { w with pc := .top }, none)
      | _ => none
  | .execute succeeds =>
      match w.pc with
      | .executing p =>
          some (q, { w with pc := if succeeds then .succeeded p else .failing p }, none)
      | _ => none
  | .recordStatus =>
      match w.pc with
      | .succeeded p =>
          some (updateIgnoringError U job q p.id .claimed .loaded, { w with pc := .recorded p },
            none)
      | _ => none
  | .recordCheckpoint =>
      match w.pc with
      | .recorded p =>
          some (setCheckpoint U q job.jobID (job.sourceSchema ++ "." ++ job.tableName) p.id,
            { pc := if useParallel job then .resting else .top, chunksRun := w.chunksRun + 1 },
            none)
      | _ => none
  | .handleFailure =>
      match w.pc with
      | .failing p =>
          some (updateIgnoringError U job q p.id .claimed .failed,
            { w with pc := .exited (some (.chunk p.chunkIndex)) }, none)
      | _ => none

def exitError (w : Worker Uuid) : Option (MoveError Uuid) :=
  match w.pc with
  | .exited err => err
  | _ => none

def hasExited (w : Worker Uuid) : Bool :=
  match w.pc with
  | .exited _ => true
  | _ => false

/-- A planner's chunks belong to the table, and their identifiers are fresh. -/
def freshPlan [DecidableEq Uuid] (q : ChunkQueue Uuid) (plan : List (ChunkPlan Uuid)) : Bool :=
  decide ((plan.map ChunkPlan.id).Nodup) &&
    plan.all fun c => matchesJobTable job c && (getChunk U q job.jobID c.id).isNone

def startWorkers (plan : List (ChunkPlan Uuid)) : Phase Uuid (numWorkers job) :=
  if plan.isEmpty then .returned plan none
  else .moving plan (fun _ => ⟨.top, 0⟩) false none

variable [DecidableEq Uuid]

def step (s : MoverState Uuid (numWorkers job)) :
    MoveAction Uuid (numWorkers job) → Option (MoverState Uuid (numWorkers job))
  | .move plan =>
      match s.phase with
      | .enqueuing _ _ => none
      | .moving _ _ _ _ => none
      | _ =>
          if freshPlan U job s.queue plan then
            some { s with
              phase := if hasQueuedTableChunks U job s.queue then startWorkers job plan
                else .enqueuing plan plan
              startQueue := s.queue
              baseQueue := s.queue
              stopped := false
              chunkFailed := false }
          else none
  | .enqueueNext =>
      match s.phase with
      | .enqueuing plan (c :: rest) =>
          some { s with
            queue := enqueue U s.queue (prepareChunk job c)
            phase := .enqueuing plan rest }
      | _ => none
  | .enqueued =>
      match s.phase with
      | .enqueuing plan [] =>
          some { s with phase := startWorkers job plan, baseQueue := s.queue }
      | _ => none
  | .cancel =>
      match s.phase with
      | .moving plan ws _ err => some { s with phase := .moving plan ws true err, stopped := true }
      | _ => none
  | .worker i a =>
      match s.phase with
      | .moving plan ws ctxDone err =>
          match workerStep U job ctxDone s.queue (ws i) a with
          | none => none
          | some (q, w, started) =>
              some { s with
                queue := q
                phase := .moving plan (Function.update ws i w)
                  (ctxDone || (exitError w).isSome) (err.or (exitError w))
                executed := started.toList ++ s.executed
                stopped := s.stopped || decide (exitError w = some .jobStopped)
                chunkFailed := s.chunkFailed || decide (a = .execute false) }
      | _ => none
  | .wait =>
      match s.phase with
      | .moving plan ws _ err =>
          if ∀ i, hasExited (ws i) then some { s with phase := .returned plan err } else none
      | _ => none
  | .crash => some { s with phase := .idle }

end Step

def initial {n : Nat} (q : ChunkQueue Uuid) : MoverState Uuid n :=
  ⟨q, .idle, q, q, [], false, false⟩

def tableChunks [DecidableEq Uuid] (job : TableJob Uuid) (q : ChunkQueue Uuid) :
    List (ChunkPlan Uuid) :=
  (q.chunks.entries.map Prod.snd).filter fun p =>
    decide (p.jobID = job.jobID) && matchesJobTable job p

end SqlOptima.TableMover
