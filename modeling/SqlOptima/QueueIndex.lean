import SqlOptima.Queue
import SqlOptima.TransitionSystem

namespace SqlOptima.QueueIndex

open SqlOptima.CoreTypes
open SqlOptima.ChunkKeys
open SqlOptima.OrderedBucket
open SqlOptima.Queue
open SqlOptima.TransitionSystem (along_foldl_iff)

variable {Uuid : Type} (U : UuidCodec Uuid)

def Indexed (q : ChunkQueue Uuid) (jobID : Uuid) (status : ChunkStatus)
    (chunkID : Uuid) : Prop :=
  q.statusIdx.get (statusKey U jobID status chunkID) = some ()

def IndexExact (q : ChunkQueue Uuid) : Prop :=
  ∀ j c p, getChunk U q j c = some p → ∀ s, Indexed U q j s c ↔ s = p.status

structure Consistent (q : ChunkQueue Uuid) : Prop where
  keyed : ∀ k p, (k, p) ∈ q.chunks.entries → k = chunkKey U p.jobID p.id
  plain : ∀ k p, (k, p) ∈ q.chunks.entries → p.status.Plain
  idxKey : ∀ e ∈ q.statusIdx.entries, ∃ j s c, s.Plain ∧ e.1 = statusKey U j s c
  indexed : ∀ j s c, Indexed U q j s c ↔ ∃ p, getChunk U q j c = some p ∧ p.status = s

theorem consistent_openQueue : Consistent U (openQueue : ChunkQueue Uuid) where
  keyed := by
    intro k p h
    simp [openQueue, Bucket.empty] at h
  plain := by
    intro k p h
    simp [openQueue, Bucket.empty] at h
  idxKey := by
    intro e h
    simp [openQueue, Bucket.empty] at h
  indexed := by
    intro j s c
    simp [Indexed, getChunk, openQueue]

theorem getChunk_own {q : ChunkQueue Uuid} (hq : Consistent U q) {j c : Uuid}
    {p : ChunkPlan Uuid} (h : getChunk U q j c = some p) : p.jobID = j ∧ p.id = c := by
  have hkey := hq.keyed _ _ (Bucket.get_eq_some_iff.mp h)
  obtain ⟨hj, hc⟩ := (chunkKey_inj U).mp hkey
  exact ⟨hj.symm, hc.symm⟩

theorem getChunk_plain {q : ChunkQueue Uuid} (hq : Consistent U q) {j c : Uuid}
    {p : ChunkPlan Uuid} (h : getChunk U q j c = some p) : p.status.Plain :=
  hq.plain _ _ (Bucket.get_eq_some_iff.mp h)

theorem indexExact_of_consistent {q : ChunkQueue Uuid} (hq : Consistent U q) :
    IndexExact U q := by
  intro j c p hp s
  rw [hq.indexed]
  constructor
  · rintro ⟨p', hp', rfl⟩
    rw [hp] at hp'
    exact congrArg ChunkPlan.status (Option.some.inj hp').symm
  · rintro rfl
    exact ⟨p, hp, rfl⟩

section Writes

variable [DecidableEq Uuid]

theorem getChunk_put (q : ChunkQueue Uuid) (j c j' c' : Uuid) (p : ChunkPlan Uuid)
    (idx : Bucket (List Char) Unit) :
    getChunk U { q with chunks := q.chunks.put (chunkKey U j c) p, statusIdx := idx } j' c' =
      if j' = j ∧ c' = c then some p else getChunk U q j' c' := by
  rw [getChunk]
  split
  · rename_i h
    rw [h.1, h.2, Bucket.get_put_self]
  · rename_i h
    rw [Bucket.get_put_of_ne _ _ (fun hk => h ((chunkKey_inj U).mp hk))]
    rfl

theorem getChunk_enqueue (q : ChunkQueue Uuid) (chunk : ChunkPlan Uuid) (j c : Uuid) :
    getChunk U (enqueue U q chunk) j c =
      if j = chunk.jobID ∧ c = chunk.id then some chunk else getChunk U q j c :=
  getChunk_put U q _ _ j c chunk _

theorem getChunk_swapStatus (q : ChunkQueue Uuid) (j c j' c' : Uuid)
    (old : ChunkStatus) (p : ChunkPlan Uuid) :
    getChunk U (swapStatus U q j c old p) j' c' =
      if j' = j ∧ c' = c then some p else getChunk U q j' c' :=
  getChunk_put U q j c j' c' p _

theorem indexed_enqueue (q : ChunkQueue Uuid) (chunk : ChunkPlan Uuid) (j c : Uuid)
    (s : ChunkStatus) :
    Indexed U (enqueue U q chunk) j s c ↔
      (j = chunk.jobID ∧ s = chunk.status ∧ c = chunk.id) ∨ Indexed U q j s c := by
  rw [Indexed, Indexed, Bucket.get_eq_some_iff, Bucket.get_eq_some_iff]
  simp only [enqueue, Bucket.mem_put, ne_eq, statusKey_inj, and_true]
  tauto

theorem indexed_swapStatus (q : ChunkQueue Uuid) (j c j' c' : Uuid)
    (old s : ChunkStatus) (p : ChunkPlan Uuid) :
    Indexed U (swapStatus U q j c old p) j' s c' ↔
      (j' = j ∧ s = p.status ∧ c' = c) ∨
        (¬(j' = j ∧ s = old ∧ c' = c) ∧ Indexed U q j' s c') := by
  rw [Indexed, Indexed, Bucket.get_eq_some_iff, Bucket.get_eq_some_iff]
  simp only [swapStatus, Bucket.mem_put, Bucket.mem_delete, ne_eq, statusKey_inj, and_true]
  tauto

theorem consistent_enqueue {q : ChunkQueue Uuid} (hq : Consistent U q)
    (chunk : ChunkPlan Uuid) (hplain : chunk.status.Plain)
    (hsame : ∀ p, getChunk U q chunk.jobID chunk.id = some p → p.status = chunk.status) :
    Consistent U (enqueue U q chunk) where
  keyed := by
    intro k p h
    rcases Bucket.mem_put.mp h with ⟨rfl, rfl⟩ | ⟨-, hmem⟩
    · rfl
    · exact hq.keyed k p hmem
  plain := by
    intro k p h
    rcases Bucket.mem_put.mp h with ⟨-, rfl⟩ | ⟨-, hmem⟩
    · exact hplain
    · exact hq.plain k p hmem
  idxKey := by
    intro e h
    rcases Bucket.mem_put.mp h with ⟨he, -⟩ | ⟨-, hmem⟩
    · exact ⟨_, _, _, hplain, he⟩
    · exact hq.idxKey e hmem
  indexed := by
    intro j s c
    rw [indexed_enqueue, getChunk_enqueue, hq.indexed]
    split
    · rename_i h
      obtain ⟨rfl, rfl⟩ := h
      constructor
      · rintro (⟨-, rfl, -⟩ | ⟨p, hp, rfl⟩)
        · exact ⟨chunk, rfl, rfl⟩
        · exact ⟨chunk, rfl, (hsame p hp).symm⟩
      · rintro ⟨p, hp, rfl⟩
        obtain rfl := Option.some.inj hp
        exact Or.inl ⟨rfl, rfl, rfl⟩
    · rename_i h
      constructor
      · rintro (⟨hj, -, hc⟩ | hp)
        · exact absurd ⟨hj, hc⟩ h
        · exact hp
      · exact Or.inr

theorem consistent_swapStatus {q : ChunkQueue Uuid} (hq : Consistent U q) {j c : Uuid}
    {old : ChunkStatus} {p₀ p : ChunkPlan Uuid} (hstored : getChunk U q j c = some p₀)
    (hj : p.jobID = j) (hc : p.id = c) (hplain : p.status.Plain)
    (hold : old = p₀.status ∨ p.status = p₀.status) :
    Consistent U (swapStatus U q j c old p) where
  keyed := by
    intro k p' h
    rcases Bucket.mem_put.mp h with ⟨rfl, rfl⟩ | ⟨-, hmem⟩
    · rw [hj, hc]
    · exact hq.keyed k p' hmem
  plain := by
    intro k p' h
    rcases Bucket.mem_put.mp h with ⟨-, rfl⟩ | ⟨-, hmem⟩
    · exact hplain
    · exact hq.plain k p' hmem
  idxKey := by
    intro e h
    rcases Bucket.mem_put.mp h with ⟨he, -⟩ | ⟨-, hmem⟩
    · exact ⟨_, _, _, hplain, he⟩
    · exact hq.idxKey e (Bucket.mem_delete.mp hmem).2
  indexed := by
    intro j' s c'
    rw [indexed_swapStatus, getChunk_swapStatus]
    split
    · rename_i h
      obtain ⟨rfl, rfl⟩ := h
      have hidx := indexExact_of_consistent U hq _ _ p₀ hstored s
      rw [hidx]
      constructor
      · rintro (⟨-, rfl, -⟩ | ⟨hne, rfl⟩)
        · exact ⟨p, rfl, rfl⟩
        · rcases hold with rfl | hst
          · exact absurd ⟨rfl, rfl, rfl⟩ hne
          · exact ⟨p, rfl, hst⟩
      · rintro ⟨p', hp', rfl⟩
        obtain rfl := Option.some.inj hp'
        exact Or.inl ⟨rfl, rfl, rfl⟩
    · rename_i h
      rw [hq.indexed]
      constructor
      · rintro (⟨hj', -, hc'⟩ | ⟨-, hp⟩)
        · exact absurd ⟨hj', hc'⟩ h
        · exact hp
      · exact fun hp => Or.inr ⟨fun hcur => h ⟨hcur.1, hcur.2.2⟩, hp⟩

end Writes

/-! ### The four operations -/

theorem updateStatus_eq_ok {q q' : ChunkQueue Uuid} {j c : Uuid} {old new : ChunkStatus}
    {p : ChunkPlan Uuid} (h : updateStatus U q j c old new = .ok (q', p)) :
    ∃ p₀, getChunk U q j c = some p₀ ∧ p = { p₀ with status := new } ∧
      q' = swapStatus U q j c old p := by
  rw [updateStatus] at h
  split at h
  · cases h
  · rename_i p₀ hp₀
    obtain ⟨rfl, rfl⟩ := Prod.mk.inj (Except.ok.inj h)
    exact ⟨p₀, hp₀, rfl, rfl⟩

theorem claimChunk_eq_ok {q q' : ChunkQueue Uuid} {j c : Uuid} {w : String} {now : Int}
    {p : ChunkPlan Uuid} (h : claimChunk U q j c w now = .ok (q', p)) :
    ∃ p₀, getChunk U q j c = some p₀ ∧ p₀.status = .pending ∧ p = claimedBy p₀ w now ∧
      q' = swapStatus U q j c .pending p := by
  rw [claimChunk] at h
  split at h
  · cases h
  · rename_i p₀ hp₀
    split at h
    · cases h
    · rename_i hst
      obtain ⟨rfl, rfl⟩ := Prod.mk.inj (Except.ok.inj h)
      exact ⟨p₀, hp₀, not_not.mp hst, rfl, rfl⟩

theorem claimNextPending_eq_ok {q q' : ChunkQueue Uuid} {j : Uuid} {w : String} {now : Int}
    {r : Option (ChunkPlan Uuid)} (h : claimNextPending U q j w now = .ok (q', r)) :
    (q' = q ∧ r = none) ∨
      ∃ c p₀, getChunk U q j c = some p₀ ∧ p₀.status = .pending ∧
        r = some (claimedBy p₀ w now) ∧
        q' = swapStatus U q j c .pending (claimedBy p₀ w now) := by
  rw [claimNextPending] at h
  split at h
  · obtain ⟨rfl, rfl⟩ := Prod.mk.inj (Except.ok.inj h)
    exact Or.inl ⟨rfl, rfl⟩
  · split at h
    · cases h
    · rename_i c _
      split at h
      · cases h
      · rename_i p₀ hp₀
        split at h
        · obtain ⟨rfl, rfl⟩ := Prod.mk.inj (Except.ok.inj h)
          exact Or.inl ⟨rfl, rfl⟩
        · rename_i hst
          obtain ⟨rfl, rfl⟩ := Prod.mk.inj (Except.ok.inj h)
          exact Or.inr ⟨c, p₀, hp₀, not_not.mp hst, rfl, rfl⟩

/-- The condition under which a call keeps the index right: no status holds the
separator of the keys, a re-enqueued chunk keeps its status, and a status update
is given the status the chunk has (or gives it the one it has). -/
def KeepsIndex (q : ChunkQueue Uuid) : QueueOp Uuid → Prop
  | .enqueue chunk =>
      chunk.status.Plain ∧
        ∀ p, getChunk U q chunk.jobID chunk.id = some p → p.status = chunk.status
  | .updateStatus j c old new =>
      ∀ p, getChunk U q j c = some p → new.Plain ∧ (old = p.status ∨ new = p.status)
  | .claimChunk _ _ _ _ => True
  | .claimNextPending _ _ _ => True

theorem consistent_exec [DecidableEq Uuid] {q : ChunkQueue Uuid} (hq : Consistent U q)
    {op : QueueOp Uuid} (hop : KeepsIndex U q op) : Consistent U (exec U q op) := by
  cases op with
  | enqueue chunk => exact consistent_enqueue U hq chunk hop.1 hop.2
  | updateStatus j c old new =>
      rw [exec]
      split
      · rename_i q' p h
        obtain ⟨p₀, hp₀, rfl, rfl⟩ := updateStatus_eq_ok U h
        obtain ⟨hj, hc⟩ := getChunk_own U hq hp₀
        obtain ⟨hplain, hold⟩ := hop p₀ hp₀
        exact consistent_swapStatus U hq hp₀ hj hc hplain hold
      · exact hq
  | claimChunk j c w now =>
      rw [exec]
      split
      · rename_i q' p h
        obtain ⟨p₀, hp₀, hst, rfl, rfl⟩ := claimChunk_eq_ok U h
        obtain ⟨hj, hc⟩ := getChunk_own U hq hp₀
        exact consistent_swapStatus U hq hp₀ hj hc ChunkStatus.plain_claimed (Or.inl hst.symm)
      · exact hq
  | claimNextPending j w now =>
      rw [exec]
      split
      · rename_i q' r h
        rcases claimNextPending_eq_ok U h with ⟨rfl, -⟩ | ⟨c, p₀, hp₀, hst, -, rfl⟩
        · exact hq
        · obtain ⟨hj, hc⟩ := getChunk_own U hq hp₀
          exact consistent_swapStatus U hq hp₀ hj hc ChunkStatus.plain_claimed
            (Or.inl hst.symm)
      · exact hq

theorem mem_listChunksByStatus {q : ChunkQueue Uuid} (hq : Consistent U q) {j : Uuid}
    {s : ChunkStatus} {p : ChunkPlan Uuid} :
    p ∈ listChunksByStatus U q j s ↔ getChunk U q j p.id = some p ∧ p.status = s := by
  rw [listChunksByStatus, List.mem_filterMap]
  constructor
  · rintro ⟨e, he, hp⟩
    obtain ⟨hmem, hpre⟩ := mem_prefixScan.mp he
    obtain ⟨j', s', c, hplain, hkey⟩ := hq.idxKey e hmem
    rw [hkey] at hpre hp
    obtain ⟨rfl, rfl⟩ := (statusPrefix_prefix_iff U hplain).mp hpre
    rw [parseChunkIDFromStatusKey_statusKey U j hplain] at hp
    obtain ⟨-, rfl⟩ := getChunk_own U hq hp
    have hidx : Indexed U q j s p.id := by
      rw [Indexed, Bucket.get_eq_some_iff, ← hkey]
      exact hmem
    exact ⟨hp, ((indexExact_of_consistent U hq _ _ p hp s).mp hidx).symm⟩
  · rintro ⟨hp, rfl⟩
    have hidx : Indexed U q j p.status p.id := (hq.indexed _ _ _).mpr ⟨p, hp, rfl⟩
    have hplain := getChunk_plain U hq hp
    refine ⟨(statusKey U j p.status p.id, ()), ?_, ?_⟩
    · exact mem_prefixScan.mpr
        ⟨Bucket.get_eq_some_iff.mp hidx, (statusPrefix_prefix_iff U hplain).mpr ⟨rfl, rfl⟩⟩
    · rw [parseChunkIDFromStatusKey_statusKey U j hplain]
      exact hp

theorem nodup_listChunksByStatus {q : ChunkQueue Uuid} (hq : Consistent U q) (j : Uuid)
    (s : ChunkStatus) : (listChunksByStatus U q j s).Nodup := by
  rw [listChunksByStatus, List.nodup_iff_pairwise_ne, List.pairwise_filterMap]
  refine (prefixScan_sorted _ _).imp_of_mem fun {e f} he hf hlt p hp p' hp' heq => ?_
  obtain ⟨hemem, hepre⟩ := mem_prefixScan.mp he
  obtain ⟨hfmem, hfpre⟩ := mem_prefixScan.mp hf
  obtain ⟨j₁, s₁, c₁, hplain₁, hkey₁⟩ := hq.idxKey e hemem
  obtain ⟨j₂, s₂, c₂, hplain₂, hkey₂⟩ := hq.idxKey f hfmem
  rw [hkey₁] at hepre hp
  rw [hkey₂] at hfpre hp'
  obtain ⟨rfl, rfl⟩ := (statusPrefix_prefix_iff U hplain₁).mp hepre
  obtain ⟨rfl, rfl⟩ := (statusPrefix_prefix_iff U hplain₂).mp hfpre
  rw [parseChunkIDFromStatusKey_statusKey U j hplain₁] at hp
  rw [parseChunkIDFromStatusKey_statusKey U j hplain₁] at hp'
  obtain ⟨-, rfl⟩ := getChunk_own U hq hp
  obtain ⟨-, rfl⟩ := getChunk_own U hq hp'
  rw [hkey₁, hkey₂, heq] at hlt
  exact lt_irrefl _ hlt

theorem firstPendingKey_eq_head (q : ChunkQueue Uuid) (j : Uuid) :
    firstPendingKey U q j =
      (prefixScan q.statusIdx (statusPrefix U j .pending)).head?.map Prod.fst := by
  rw [firstPendingKey, prefixScan]
  cases q.statusIdx.seek (statusPrefix U j .pending) with
  | nil => rfl
  | cons e es =>
      simp only [List.takeWhile_cons, decide_eq_true_eq]
      split <;> rfl

theorem claimNextPending_of_pending {q : ChunkQueue Uuid} (hq : Consistent U q) {j c : Uuid}
    {p : ChunkPlan Uuid} (hp : getChunk U q j c = some p) (hst : p.status = .pending)
    (w : String) (now : Int) :
    ∃ c' p', getChunk U q j c' = some p' ∧ p'.status = .pending ∧
      claimNextPending U q j w now =
        .ok (swapStatus U q j c' .pending (claimedBy p' w now), some (claimedBy p' w now)) := by
  have hidx : Indexed U q j .pending c := (hq.indexed _ _ _).mpr ⟨p, hp, hst⟩
  have hscan : (statusKey U j .pending c, ()) ∈
      prefixScan q.statusIdx (statusPrefix U j .pending) :=
    mem_prefixScan.mpr
      ⟨Bucket.get_eq_some_iff.mp hidx,
        (statusPrefix_prefix_iff U ChunkStatus.plain_pending).mpr ⟨rfl, rfl⟩⟩
  obtain ⟨e, he⟩ : ∃ e, (prefixScan q.statusIdx (statusPrefix U j .pending)).head? = some e := by
    rw [← Option.isSome_iff_exists, List.isSome_head?]
    exact List.ne_nil_of_mem hscan
  have hfirst : firstPendingKey U q j = some e.1 := by
    rw [firstPendingKey_eq_head, he]
    rfl
  obtain ⟨hemem, hepre⟩ := mem_prefixScan.mp (List.mem_of_head? he)
  obtain ⟨j', s', c', hplain, hkey⟩ := hq.idxKey e hemem
  rw [hkey] at hepre hfirst
  obtain ⟨rfl, rfl⟩ := (statusPrefix_prefix_iff U hplain).mp hepre
  have hidx' : Indexed U q j .pending c' := by
    rw [Indexed, Bucket.get_eq_some_iff, ← hkey]
    exact hemem
  obtain ⟨p', hp', hst'⟩ := (hq.indexed _ _ _).mp hidx'
  refine ⟨c', p', hp', hst', ?_⟩
  simp only [claimNextPending, hfirst, parseChunkIDFromStatusKey_statusKey U j hplain, hp', hst',
    ne_eq, not_true_eq_false, if_false]

/-- What the status index is for: it files every stored chunk under its own
status and nowhere else, a listing by status gives exactly the chunks that
have it, and claiming the next pending chunk succeeds while there is one. -/
structure QueueExact (q : ChunkQueue Uuid) : Prop where
  index : IndexExact U q
  lists : ∀ j s p,
    p ∈ listChunksByStatus U q j s ↔ getChunk U q j p.id = some p ∧ p.status = s
  listedOnce : ∀ j s, (listChunksByStatus U q j s).Nodup
  claims : ∀ j c p w now, getChunk U q j c = some p → p.status = .pending →
    ∃ q' c' p', getChunk U q j c' = some p' ∧ p'.status = .pending ∧
      claimNextPending U q j w now = .ok (q', some (claimedBy p' w now))

theorem queueExact_of_consistent {q : ChunkQueue Uuid} (hq : Consistent U q) :
    QueueExact U q where
  index := indexExact_of_consistent U hq
  lists := fun _ _ _ => mem_listChunksByStatus U hq
  listedOnce := nodup_listChunksByStatus U hq
  claims := by
    intro j c p w now hp hst
    obtain ⟨c', p', hp', hst', hclaim⟩ := claimNextPending_of_pending U hq hp hst w now
    exact ⟨_, c', p', hp', hst', hclaim⟩

/-- A listing by a status that holds the separator is empty. -/
theorem plain_of_queueExact {q : ChunkQueue Uuid} (hq : QueueExact U q) {j c : Uuid}
    {p : ChunkPlan Uuid} (hp : getChunk U q j c = some p) (hid : p.id = c) :
    p.status.Plain := by
  by_contra hslash
  have hmem := (hq.lists j p.status p).mpr ⟨hid ▸ hp, rfl⟩
  obtain ⟨e, he, hread⟩ := List.mem_filterMap.mp hmem
  rw [parseChunkIDFromStatusKey_of_not_plain U hslash (mem_prefixScan.mp he).2] at hread
  cases hread

theorem keepsIndex_of_queueExact [DecidableEq Uuid] {q : ChunkQueue Uuid}
    (hq : Consistent U q) {op : QueueOp Uuid} (hexact : QueueExact U (exec U q op)) :
    KeepsIndex U q op := by
  cases op with
  | enqueue chunk =>
      have hstored : getChunk U (exec U q (.enqueue chunk)) chunk.jobID chunk.id = some chunk := by
        rw [exec, getChunk_enqueue, if_pos ⟨rfl, rfl⟩]
      refine ⟨plain_of_queueExact U hexact hstored rfl, ?_⟩
      intro p hp
      have hidx : Indexed U q chunk.jobID p.status chunk.id :=
        (hq.indexed _ _ _).mpr ⟨p, hp, rfl⟩
      refine (hexact.index _ _ _ hstored p.status).mp ?_
      rw [exec, indexed_enqueue]
      exact Or.inr hidx
  | updateStatus j c old new =>
      intro p hp
      have hidx : Indexed U q j p.status c := (hq.indexed _ _ _).mpr ⟨p, hp, rfl⟩
      have hexec : exec U q (.updateStatus j c old new) =
          swapStatus U q j c old { p with status := new } := by
        simp [exec, updateStatus, hp]
      rw [hexec] at hexact
      have hstored : getChunk U (swapStatus U q j c old { p with status := new }) j c =
          some { p with status := new } := by
        rw [getChunk_swapStatus, if_pos ⟨rfl, rfl⟩]
      refine ⟨plain_of_queueExact U hexact hstored (getChunk_own U hq hp).2, ?_⟩
      by_cases hold : old = p.status
      · exact Or.inl hold
      · refine Or.inr ((hexact.index _ _ _ hstored p.status).mp ?_).symm
        rw [indexed_swapStatus]
        exact Or.inr ⟨fun h => hold h.2.1.symm, hidx⟩
  | claimChunk j c w now => trivial
  | claimNextPending j w now => trivial

/-- Along every sequence of calls on a new store, the index stays exact after
each call if and only if each call keeps it in the store before it. -/
theorem queueExact_along_calls_iff [DecidableEq Uuid] (ops : List (QueueOp Uuid)) :
    (∀ pre, pre <+: ops → QueueExact U (execAll U openQueue pre)) ↔
      ∀ pre op, pre ++ [op] <+: ops → KeepsIndex U (execAll U openQueue pre) op := by
  refine along_foldl_iff (consistent_openQueue U) (fun q => queueExact_of_consistent U) ?_ ?_ ops
  · intro q op hq hkeeps
    exact consistent_exec U hq hkeeps
  · intro q op hq hnext
    exact keepsIndex_of_queueExact U hq hnext

def ordersChunk (n : Fin 16) : ChunkPlan HexUuid :=
  newChunkPlan (.ofDigit n) 0 (.ofDigit 0) "dbo" "orders" 0 "id" (some "0") (some "1000")

def mistakenUpdate : List (QueueOp HexUuid) :=
  [.enqueue (ordersChunk 1), .enqueue (ordersChunk 2),
    .updateStatus (.ofDigit 0) (.ofDigit 1) .claimed .loaded]

theorem mistakenUpdate_not_queueExact :
    ¬ QueueExact hexUuidCodec (execAll hexUuidCodec openQueue mistakenUpdate) := by
  intro hexact
  obtain ⟨q', c', p', -, -, hclaim⟩ :=
    hexact.claims (.ofDigit 0) (.ofDigit 2) (ordersChunk 2) "w" 0 (by decide +kernel) rfl
  have hnone : (claimNextPending hexUuidCodec
      (execAll hexUuidCodec openQueue mistakenUpdate) (.ofDigit 0) "w" 0).toOption.map
        Prod.snd = some none := by
    decide +kernel
  rw [hclaim] at hnone
  simp [Except.toOption] at hnone

end SqlOptima.QueueIndex
