import SqlOptima.CoreTypes

namespace SqlOptima.ChunkPartition

open CoreTypes

/-!
# The groups of chunks that the workers of a table get
-/

variable {Uuid : Type}

/-- The loop of `PartitionChunks` from the chunk at `i` on. -/
def partitionFrom (chunks : List (ChunkPlan Uuid)) (chunksPerPartition i : Nat) :
    List (List (ChunkPlan Uuid)) :=
  if i < chunks.length ∧ 0 < chunksPerPartition then
    let stop :=
      if chunks.length < i + chunksPerPartition then chunks.length else i + chunksPerPartition
    chunks.extract i stop :: partitionFrom chunks chunksPerPartition (i + chunksPerPartition)
  else []
termination_by chunks.length - i

def chunksPerPartition (count numWorkers : Nat) : Nat :=
  if count / numWorkers < 1 then 1 else count / numWorkers

def partitionChunks (chunks : List (ChunkPlan Uuid)) (numWorkers : Nat) :
    List (List (ChunkPlan Uuid)) :=
  if chunks.length = 0 then []
  else if numWorkers ≤ 1 then [chunks]
  else partitionFrom chunks (chunksPerPartition chunks.length numWorkers) 0

/-- At most one group for each worker, none of them empty, and every chunk in its place. -/
structure Respects (groups : List (List (ChunkPlan Uuid))) (chunks : List (ChunkPlan Uuid))
    (numWorkers : Nat) : Prop where
  atMost : groups.length ≤ numWorkers
  nonempty : ∀ group ∈ groups, group ≠ []
  inOrder : groups.flatten = chunks

section Loop

variable {chunks : List (ChunkPlan Uuid)} {size : Nat}

theorem chunksPerPartition_pos (count numWorkers : Nat) :
    0 < chunksPerPartition count numWorkers := by
  rw [chunksPerPartition]
  split
  · exact Nat.one_pos
  · omega

theorem partitionFrom_of_lt {i : Nat} (hsize : 0 < size) (hi : i < chunks.length) :
    partitionFrom chunks size i =
      (chunks.drop i).take size :: partitionFrom chunks size (i + size) := by
  rw [partitionFrom, if_pos ⟨hi, hsize⟩]
  dsimp only
  split
  · rw [List.extract_eq_take_drop, List.take_of_length_le (Nat.le_of_eq List.length_drop),
      List.take_of_length_le (by rw [List.length_drop]; omega)]
  · rw [List.extract_eq_take_drop, Nat.add_sub_cancel_left]

theorem partitionFrom_of_le {i : Nat} (hi : chunks.length ≤ i) :
    partitionFrom chunks size i = [] := by
  rw [partitionFrom, if_neg fun h => absurd h.1 (Nat.not_lt.mpr hi)]

/-- What the loop is at position `i` follows from what it is a group further on. -/
theorem partitionFrom_induction {P : Nat → List (List (ChunkPlan Uuid)) → Prop} (hsize : 0 < size)
    (hdone : ∀ i, chunks.length ≤ i → P i [])
    (hnext : ∀ i groups, i < chunks.length → P (i + size) groups →
      P i ((chunks.drop i).take size :: groups)) (i : Nat) :
    P i (partitionFrom chunks size i) := by
  induction hrest : chunks.length - i using Nat.strongRecOn generalizing i with
  | ind rest ih =>
      obtain hi | hi := Nat.lt_or_ge i chunks.length
      · rw [partitionFrom_of_lt hsize hi]
        exact hnext i _ hi (ih _ (by omega) (i + size) rfl)
      · rw [partitionFrom_of_le hi]
        exact hdone i hi

theorem partitionFrom_flatten (hsize : 0 < size) (i : Nat) :
    (partitionFrom chunks size i).flatten = chunks.drop i := by
  refine partitionFrom_induction (P := fun i groups => groups.flatten = chunks.drop i) hsize ?_ ?_ i
  · intro i hi
    rw [List.drop_of_length_le hi]
    rfl
  · intro i groups _ hgroups
    rw [List.flatten_cons, hgroups, ← List.drop_drop, List.take_append_drop]

theorem partitionFrom_nonempty (hsize : 0 < size) (i : Nat) :
    ∀ group ∈ partitionFrom chunks size i, group ≠ [] := by
  refine partitionFrom_induction (P := fun _ groups => ∀ group ∈ groups, group ≠ []) hsize ?_ ?_ i
  · intro i _ group hgroup
    exact absurd hgroup List.not_mem_nil
  · intro i groups hi hgroups group hgroup
    obtain rfl | hrest := List.mem_cons.mp hgroup
    · intro hnil
      have hlength := congrArg List.length hnil
      rw [List.length_take, List.length_drop, List.length_nil] at hlength
      omega
    · exact hgroups group hrest

/-- There are as many groups as it takes to reach the end. -/
theorem length_partitionFrom_le_iff (hsize : 0 < size) (i n : Nat) :
    (partitionFrom chunks size i).length ≤ n ↔ chunks.length ≤ i + n * size := by
  refine partitionFrom_induction
    (P := fun i groups => ∀ n, groups.length ≤ n ↔ chunks.length ≤ i + n * size) hsize ?_ ?_ i n
  · intro i hi n
    exact iff_of_true (Nat.zero_le n) (by omega)
  · intro i groups hi hgroups n
    rw [List.length_cons]
    cases n with
    | zero => exact iff_of_false (by omega) (by omega)
    | succ n =>
        rw [Nat.succ_le_succ_iff, hgroups n, Nat.succ_mul]
        omega

end Loop

theorem le_mul_chunksPerPartition_iff {count numWorkers : Nat} (h : 1 ≤ numWorkers) :
    count ≤ numWorkers * chunksPerPartition count numWorkers ↔
      count ≤ numWorkers ∨ numWorkers ∣ count := by
  rw [chunksPerPartition]
  split
  · rename_i hsmall
    have hlt : count < numWorkers := (Nat.div_lt_one_iff h).mp hsmall
    exact iff_of_true (by omega) (.inl (Nat.le_of_lt hlt))
  · rename_i hlarge
    have hle : numWorkers ≤ count := by
      by_contra hlt
      exact hlarge ((Nat.div_lt_one_iff h).mpr (Nat.not_le.mp hlt))
    constructor
    · intro hcover
      exact .inr ⟨_, Nat.le_antisymm hcover (Nat.mul_div_le count numWorkers)⟩
    · rintro (hfew | hdvd)
      · obtain rfl := Nat.le_antisymm hfew hle
        exact Nat.le_of_eq (by rw [Nat.div_self h, Nat.mul_one])
      · exact Nat.le_of_eq (Nat.mul_div_cancel' hdvd).symm

/-- The workers get a group each at most when the chunks are no more than the workers or can be
dealt out evenly. -/
theorem partitionChunks_respects_iff (chunks : List (ChunkPlan Uuid)) {numWorkers : Nat}
    (h : 1 ≤ numWorkers) :
    Respects (partitionChunks chunks numWorkers) chunks numWorkers ↔
      chunks.length ≤ numWorkers ∨ numWorkers ∣ chunks.length := by
  rw [partitionChunks]
  split
  · rename_i hzero
    obtain rfl := List.length_eq_zero_iff.mp hzero
    exact iff_of_true ⟨Nat.zero_le _, fun _ hgroup => absurd hgroup List.not_mem_nil, rfl⟩
      (.inl (Nat.zero_le _))
  · rename_i hsome
    split
    · rename_i hone
      refine iff_of_true ⟨h, ?_, List.append_nil chunks⟩ (.inr ?_)
      · intro group hgroup
        rw [List.mem_singleton.mp hgroup]
        exact fun hnil => hsome (hnil ▸ rfl)
      · rw [Nat.le_antisymm hone h]
        exact Nat.one_dvd _
    · have hsize := chunksPerPartition_pos chunks.length numWorkers
      have hcount : _ ↔ chunks.length ≤ _ := length_partitionFrom_le_iff hsize 0 numWorkers
      rw [Nat.zero_add] at hcount
      rw [← le_mul_chunksPerPartition_iff h, ← hcount]
      exact ⟨Respects.atMost, fun hle =>
        ⟨hle, partitionFrom_nonempty hsize 0, partitionFrom_flatten hsize 0⟩⟩

section Cases

def ordersChunk (index : UInt32) : ChunkPlan Nat :=
  newChunkPlan index.toNat 0 0 "dbo" "Orders" index "id" none none

def threeChunks : List (ChunkPlan Nat) := [ordersChunk 0, ordersChunk 1, ordersChunk 2]

theorem four_chunks_two_workers :
    1 ≤ 2 ∧ Respects (partitionChunks (ordersChunk 3 :: threeChunks) 2)
      (ordersChunk 3 :: threeChunks) 2 :=
  ⟨by decide, (partitionChunks_respects_iff _ (by decide)).mpr (.inr (by decide))⟩

/-- Three chunks for two workers become three groups. -/
theorem third_group_for_two_workers :
    ¬ Respects (partitionChunks threeChunks 2) threeChunks 2 := by
  intro h
  have hle := h.atMost
  rw [partitionChunks, if_neg (by decide), if_neg (by decide),
    length_partitionFrom_le_iff (chunksPerPartition_pos _ _)] at hle
  exact absurd hle (by decide)

end Cases

end SqlOptima.ChunkPartition
