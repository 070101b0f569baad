import Mathlib.Data.List.Basic

namespace SqlOptima.CoreTypes

/-- A status is any text; the engine itself writes the eight below. -/
structure ChunkStatus where
  text : List Char
  deriving DecidableEq, Repr

namespace ChunkStatus

def pending : ChunkStatus := ⟨['P', 'E', 'N', 'D', 'I', 'N', 'G']⟩

def claimed : ChunkStatus := ⟨['C', 'L', 'A', 'I', 'M', 'E', 'D']⟩

def extracting : ChunkStatus := ⟨['E', 'X', 'T', 'R', 'A', 'C', 'T', 'I', 'N', 'G']⟩

def extracted : ChunkStatus := ⟨['E', 'X', 'T', 'R', 'A', 'C', 'T', 'E', 'D']⟩

def loading : ChunkStatus := ⟨['L', 'O', 'A', 'D', 'I', 'N', 'G']⟩

def loaded : ChunkStatus := ⟨['L', 'O', 'A', 'D', 'E', 'D']⟩

def failed : ChunkStatus := ⟨['F', 'A', 'I', 'L', 'E', 'D']⟩

def retrying : ChunkStatus := ⟨['R', 'E', 'T', 'R', 'Y', 'I', 'N', 'G']⟩

theorem text_injective : Function.Injective ChunkStatus.text := by
  rintro ⟨s⟩ ⟨t⟩ h
  cases h
  rfl

@[simp] theorem claimed_ne_pending : claimed ≠ pending := by decide

@[simp] theorem loaded_ne_pending : loaded ≠ pending := by decide

@[simp] theorem failed_ne_pending : failed ≠ pending := by decide

/-- The text can stand between two separators of an index key. -/
def Plain (s : ChunkStatus) : Prop := '/' ∉ s.text

instance (s : ChunkStatus) : Decidable s.Plain := inferInstanceAs (Decidable (_ ∉ _))

theorem plain_pending : pending.Plain := by decide

theorem plain_claimed : claimed.Plain := by decide

theorem plain_loaded : loaded.Plain := by decide

theorem plain_failed : failed.Plain := by decide

end ChunkStatus

/-- One data chunk to be extracted and loaded. The two keys are inclusive and
kept as text; instants are nanoseconds since the Unix epoch. -/
structure ChunkPlan (Uuid : Type) where
  id : Uuid
  jobID : Uuid
  tableSchema : String
  tableName : String
  chunkIndex : UInt32
  startKey : Option String
  endKey : Option String
  pkColumn : String
  status : ChunkStatus
  rowsMigrated : Int
  retryCount : UInt32
  error : Option String
  claimedBy : Option String
  claimedAt : Option Int
  extractedAt : Option Int
  loadedAt : Option Int
  createdAt : Int
  deriving DecidableEq

variable {Uuid : Type}

/-- A new pending chunk. The fresh identifier and the clock reading are
arguments here. -/
def newChunkPlan (id : Uuid) (createdAt : Int) (jobID : Uuid) (schema table : String)
    (index : UInt32) (pkCol : String) (start stop : Option String) : ChunkPlan Uuid where
  id := id
  jobID := jobID
  tableSchema := schema
  tableName := table
  chunkIndex := index
  startKey := start
  endKey := stop
  pkColumn := pkCol
  status := .pending
  rowsMigrated := 0
  retryCount := 0
  error := none
  claimedBy := none
  claimedAt := none
  extractedAt := none
  loadedAt := none
  createdAt := createdAt

def ChunkPlan.range (c : ChunkPlan Uuid) : String × Option String × Option String :=
  (c.pkColumn, c.startKey, c.endKey)

end SqlOptima.CoreTypes
