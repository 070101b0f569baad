import Mathlib.Data.Char
import SqlOptima.ChunkKeys
import SqlOptima.OrderedBucket

namespace SqlOptima.Queue

open SqlOptima.CoreTypes
open SqlOptima.ChunkKeys
open SqlOptima.OrderedBucket

/-- The durable chunk store. A failed call rolls its transaction back, so the
operations below give a new store only when they succeed. -/
structure ChunkQueue (Uuid : Type) where
  chunks : Bucket (List Char) (ChunkPlan Uuid)
  statusIdx : Bucket (List Char) Unit
  checkpoints : Bucket (List Char) (List Char)

inductive QueueError (Uuid : Type)
  | chunkNotFound (id : Uuid)
  | stateTransition (msg : String)
  | key (e : KeyError)
  deriving DecidableEq

variable {Uuid : Type} (U : UuidCodec Uuid)

def openQueue : ChunkQueue Uuid := ⟨.empty, .empty, .empty⟩

def enqueue (q : ChunkQueue Uuid) (chunk : ChunkPlan Uuid) : ChunkQueue Uuid :=
  { q with
    chunks := q.chunks.put (chunkKey U chunk.jobID chunk.id) chunk
    statusIdx := q.statusIdx.put (statusKey U chunk.jobID chunk.status chunk.id) () }

def getChunk (q : ChunkQueue Uuid) (jobID chunkID : Uuid) : Option (ChunkPlan Uuid) :=
  q.chunks.get (chunkKey U jobID chunkID)

/-- The write half that every status transition ends with: the index entry of
`oldStatus` goes, the record is stored, and the entry of its status comes. -/
def swapStatus (q : ChunkQueue Uuid) (jobID chunkID : Uuid) (oldStatus : ChunkStatus)
    (plan : ChunkPlan Uuid) : ChunkQueue Uuid :=
  { q with
    chunks := q.chunks.put (chunkKey U jobID chunkID) plan
    statusIdx := (q.statusIdx.delete (statusKey U jobID oldStatus chunkID)).put
      (statusKey U jobID plan.status chunkID) () }

def updateStatus (q : ChunkQueue Uuid) (jobID chunkID : Uuid)
    (oldStatus newStatus : ChunkStatus) :
    Except (QueueError Uuid) (ChunkQueue Uuid × ChunkPlan Uuid) :=
  match getChunk U q jobID chunkID with
  | none => .error (.chunkNotFound chunkID)
  | some plan =>
      let updated := { plan with status := newStatus }
      .ok (swapStatus U q jobID chunkID oldStatus updated, updated)

def claimedBy (plan : ChunkPlan Uuid) (workerID : String) (now : Int) : ChunkPlan Uuid :=
  { plan with status := .claimed, claimedBy := some workerID, claimedAt := some now }

def cannotClaim (chunkID : Uuid) (status : ChunkStatus) : String :=
  "cannot claim chunk " ++ String.ofList (U.text chunkID) ++ " in status " ++
    String.ofList status.text

def claimChunk (q : ChunkQueue Uuid) (jobID chunkID : Uuid) (workerID : String)
    (now : Int) : Except (QueueError Uuid) (ChunkQueue Uuid × ChunkPlan Uuid) :=
  match getChunk U q jobID chunkID with
  | none => .error (.chunkNotFound chunkID)
  | some plan =>
      if plan.status ≠ .pending then
        .error (.stateTransition (cannotClaim U chunkID plan.status))
      else
        let claimed := claimedBy plan workerID now
        .ok (swapStatus U q jobID chunkID .pending claimed, claimed)

def firstPendingKey (q : ChunkQueue Uuid) (jobID : Uuid) : Option (List Char) :=
  match q.statusIdx.seek (statusPrefix U jobID .pending) with
  | [] => none
  | (k, _) :: _ => if statusPrefix U jobID .pending <+: k then some k else none

def claimNextPending (q : ChunkQueue Uuid) (jobID : Uuid) (workerID : String) (now : Int) :
    Except (QueueError Uuid) (ChunkQueue Uuid × Option (ChunkPlan Uuid)) :=
  match firstPendingKey U q jobID with
  | none => .ok (q, none)
  | some k =>
      match parseChunkIDFromStatusKey U k with
      | .error e => .error (.key e)
      | .ok chunkID =>
          match getChunk U q jobID chunkID with
          | none => .error (.chunkNotFound chunkID)
          | some plan =>
              if plan.status ≠ .pending then
                .ok (q, none)
              else
                let claimed := claimedBy plan workerID now
                .ok (swapStatus U q jobID chunkID .pending claimed, some claimed)

/-- The chunks the index files under one status. The stored record is
returned as it is, whatever its own status says. -/
def listChunksByStatus (q : ChunkQueue Uuid) (jobID : Uuid) (status : ChunkStatus) :
    List (ChunkPlan Uuid) :=
  (prefixScan q.statusIdx (statusPrefix U jobID status)).filterMap fun e =>
    match parseChunkIDFromStatusKey U e.1 with
    | .error _ => none
    | .ok chunkID => getChunk U q jobID chunkID

def setCheckpoint (q : ChunkQueue Uuid) (jobID : Uuid) (tableQualified : String)
    (lastChunkID : Uuid) : ChunkQueue Uuid :=
  { q with
    checkpoints :=
      q.checkpoints.put (checkpointKey U jobID tableQualified) (U.text lastChunkID) }

inductive QueueOp (Uuid : Type)
  | enqueue (chunk : ChunkPlan Uuid)
  | updateStatus (jobID chunkID : Uuid) (oldStatus newStatus : ChunkStatus)
  | claimChunk (jobID chunkID : Uuid) (workerID : String) (now : Int)
  | claimNextPending (jobID : Uuid) (workerID : String) (now : Int)

def exec (q : ChunkQueue Uuid) : QueueOp Uuid → ChunkQueue Uuid
  | .enqueue chunk => enqueue U q chunk
  | .updateStatus j c old new =>
      match updateStatus U q j c old new with
      | .ok (q', _) => q'
      | .error _ => q
  | .claimChunk j c w now =>
      match claimChunk U q j c w now with
      | .ok (q', _) => q'
      | .error _ => q
  | .claimNextPending j w now =>
      match claimNextPending U q j w now with
      | .ok (q', _) => q'
      | .error _ => q

def execAll (q : ChunkQueue Uuid) (ops : List (QueueOp Uuid)) : ChunkQueue Uuid :=
  ops.foldl (exec U) q

end SqlOptima.Queue
