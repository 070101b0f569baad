import Mathlib.Tactic.Tauto
import SqlOptima.QueueIndex
import SqlOptima.TableMover

namespace SqlOptima.TableMoverInvariant

open SqlOptima.CoreTypes
open SqlOptima.ChunkKeys
open SqlOptima.Queue
open SqlOptima.QueueIndex
open SqlOptima.TableMover

variable {Uuid : Type} (U : UuidCodec Uuid) (job : TableJob Uuid)

def view (q : ChunkQueue Uuid) (id : Uuid) : Option (ChunkPlan Uuid) :=
  getChunk U q job.jobID id

/-- What a status transition never changes. -/
def tag (p : ChunkPlan Uuid) : String × String × String × Option String × Option String :=
  (p.tableSchema, p.tableName, p.range)

def held (w : Worker Uuid) : Option Uuid :=
  match w.pc with
  | .pausing p => some p.id
  | .executing p => some p.id
  | .succeeded p => some p.id
  | .failing p => some p.id
  | _ => none

theorem matchesJobTable_of_tag {p p' : ChunkPlan Uuid} (h : tag p = tag p') :
    matchesJobTable job p = matchesJobTable job p' := by
  simp only [tag, Prod.mk.injEq] at h
  simp [matchesJobTable, chunkMatchesTable, h.1, h.2.1]

theorem range_of_tag {p p' : ChunkPlan Uuid} (h : tag p = tag p') : p.range = p'.range := by
  simp only [tag, Prod.mk.injEq] at h
  exact h.2.2

theorem mem_tableChunks [DecidableEq Uuid] {q : ChunkQueue Uuid} (hq : Consistent U q) {p : ChunkPlan Uuid} :
    p ∈ tableChunks job q ↔
      view U job q p.id = some p ∧ matchesJobTable job p = true := by
  simp only [tableChunks, List.mem_filter, List.mem_map, Prod.exists, Bool.and_eq_true,
    decide_eq_true_eq, view, getChunk, OrderedBucket.Bucket.get_eq_some_iff]
  constructor
  · rintro ⟨⟨k, p', hmem, rfl⟩, hj, hmatch⟩
    have hk := hq.keyed k p' hmem
    rw [hj] at hk
    exact ⟨hk ▸ hmem, hmatch⟩
  · rintro ⟨hmem, hmatch⟩
    have hk := hq.keyed _ _ hmem
    exact ⟨⟨_, p, hmem, rfl⟩, ((chunkKey_inj U).mp hk).1.symm, hmatch⟩

theorem hasQueuedTableChunks_iff [DecidableEq Uuid] {q : ChunkQueue Uuid} (hq : Consistent U q) :
    hasQueuedTableChunks U job q = true ↔ ∃ p ∈ tableChunks job q, p.status ∈ allStatuses := by
  simp only [hasQueuedTableChunks, List.any_eq_true, mem_listChunksByStatus U hq,
    mem_tableChunks U job hq]
  constructor
  · rintro ⟨s, hs, p, ⟨hp, rfl⟩, hmatch⟩
    exact ⟨p, ⟨hp, hmatch⟩, hs⟩
  · rintro ⟨p, ⟨hp, hmatch⟩, hs⟩
    exact ⟨p.status, hs, p, ⟨hp, rfl⟩, hmatch⟩

/-- The queue holds nothing of the table under a status of the engine. -/
def NothingQueued [DecidableEq Uuid] (q : ChunkQueue Uuid) : Prop :=
  ∀ p ∈ tableChunks job q, p.status ∉ allStatuses

def AllLoaded [DecidableEq Uuid] (plan : List (ChunkPlan Uuid)) (q : ChunkQueue Uuid) : Prop :=
  ∀ c ∈ plan, ∃ p ∈ tableChunks job q, p.range = c.range ∧ p.status = .loaded

/-- The queue a call may start on: it holds nothing of the table that the mover
would see, or every planned key range is there and waiting or done. -/
def ReadyAtStart [DecidableEq Uuid] (plan : List (ChunkPlan Uuid)) (q : ChunkQueue Uuid) : Prop :=
  NothingQueued job q ∨
    ∀ c ∈ plan, ∃ p ∈ tableChunks job q,
      p.range = c.range ∧ (p.status = .pending ∨ p.status = .loaded)

def BaseOf [DecidableEq Uuid] (plan : List (ChunkPlan Uuid)) (start base : ChunkQueue Uuid) : Prop :=
  (base = start ∧ ¬ NothingQueued job start) ∨
    (NothingQueued job start ∧
      ∀ c ∈ plan, ∃ p ∈ tableChunks job base, p.range = c.range ∧ p.status = .pending)

/-- While the workers run: no record appears or goes, a record changes its
status only from PENDING on through the one worker that holds it, and a worker
that left its loop for want of work left nothing pending. -/
structure Moving {n : Nat} (base q : ChunkQueue Uuid) (ws : Fin n → Worker Uuid)
    (err : Option (MoveError Uuid)) : Prop where
  consistent : Consistent U q
  tagged : ∀ id, (view U job q id).map tag = (view U job base id).map tag
  progress : ∀ id p₀ p, view U job base id = some p₀ → view U job q id = some p →
    p.status = p₀.status ∨
      (p₀.status = .pending ∧
        (p.status = .loaded ∨ (p.status = .claimed ∧ ∃ i, held (ws i) = some id) ∨ err ≠ none))
  heldClaimed : ∀ i id, held (ws i) = some id →
    ∃ p₀ p, view U job base id = some p₀ ∧ p₀.status = .pending ∧
      view U job q id = some p ∧ p.status = .claimed
  heldOnce : ∀ i j id, held (ws i) = some id → held (ws j) = some id → i = j
  exhausted : ∀ i, (ws i).pc = .exited none → ∀ id p, view U job q id = some p →
    matchesJobTable job p = true → p.status ≠ .pending
  noErr : err = none → ∀ i e, (ws i).pc ≠ .exited (some e)

theorem moving_start {n : Nat} {q : ChunkQueue Uuid} (hq : Consistent U q) :
    Moving U job q q (fun _ : Fin n => (⟨.top, 0⟩ : Worker Uuid)) none where
  consistent := hq
  tagged := fun _ => rfl
  progress := by
    intro id p₀ p hp₀ hp
    rw [hp₀] at hp
    exact Or.inl (congrArg ChunkPlan.status (Option.some.inj hp).symm)
  heldClaimed := by
    intro i id h
    simp [held] at h
  heldOnce := by
    intro i j id h
    simp [held] at h
  exhausted := by
    intro i h
    simp at h
  noErr := by
    intro _ i e h
    simp at h

theorem moving_quiet {n : Nat} {base q q' : ChunkQueue Uuid} {ws : Fin n → Worker Uuid}
    {err : Option (MoveError Uuid)} (h : Moving U job base q ws err) {i : Fin n}
    {w : Worker Uuid} (hq' : Consistent U q')
    (hview : ∀ id, view U job q' id = view U job q id)
    (hheld : held w = held (ws i) ∨ (held w = none ∧ exitError w ≠ none))
    (hexh : w.pc = .exited none → ∀ id p, view U job q id = some p →
      matchesJobTable job p = true → p.status ≠ .pending) :
    Moving U job base q' (Function.update ws i w) (err.or (exitError w)) where
  consistent := hq'
  tagged := by
    intro id
    rw [hview, h.tagged]
  progress := by
    intro id p₀ p hp₀ hp
    rw [hview] at hp
    rcases h.progress id p₀ p hp₀ hp with hsame | ⟨hpend, hload | ⟨hcl, j, hj⟩ | herr⟩
    · exact Or.inl hsame
    · exact Or.inr ⟨hpend, Or.inl hload⟩
    · refine Or.inr ⟨hpend, Or.inr ?_⟩
      rcases hheld with hheld | ⟨-, hexit⟩
      · refine Or.inl ⟨hcl, j, ?_⟩
        rw [Function.update_apply]
        split
        · rename_i hji
          rw [hheld, ← hji, hj]
        · exact hj
      · exact Or.inr fun hor => hexit (Option.or_eq_none_iff.mp hor).2
    · exact Or.inr ⟨hpend, Or.inr (Or.inr fun hor => herr (Option.or_eq_none_iff.mp hor).1)⟩
  heldClaimed := by
    intro j id hj
    simp only [hview]
    rw [Function.update_apply] at hj
    split at hj
    · rcases hheld with hheld | ⟨hnone, -⟩
      · exact h.heldClaimed i id (hheld ▸ hj)
      · rw [hnone] at hj
        cases hj
    · exact h.heldClaimed j id hj
  heldOnce := by
    have hback : ∀ k id, held (Function.update ws i w k) = some id → held (ws k) = some id := by
      intro k id hk
      rw [Function.update_apply] at hk
      split at hk
      · rename_i hki
        rcases hheld with hheld | ⟨hnone, -⟩
        · rw [hki, ← hheld, hk]
        · rw [hnone] at hk
          cases hk
      · exact hk
    intro j k id hj hk
    exact h.heldOnce j k id (hback j id hj) (hback k id hk)
  exhausted := by
    intro j hj id p hp
    rw [hview] at hp
    rw [Function.update_apply] at hj
    split at hj
    · exact hexh hj id p hp
    · exact h.exhausted j hj id p hp
  noErr := by
    intro hor j e hj
    obtain ⟨herr, hexit⟩ := Option.or_eq_none_iff.mp hor
    rw [Function.update_apply] at hj
    split at hj
    · rw [exitError, hj] at hexit
      cases hexit
    · exact h.noErr herr j e hj

theorem moving_claim [DecidableEq Uuid] {n : Nat} {base q q' : ChunkQueue Uuid}
    {ws : Fin n → Worker Uuid} {err : Option (MoveError Uuid)}
    (h : Moving U job base q ws err) {i : Fin n} {w : Worker Uuid} {id : Uuid}
    {p p' : ChunkPlan Uuid} (hq' : Consistent U q')
    (hview : ∀ id', view U job q' id' = if id' = id then some p' else view U job q id')
    (hp : view U job q id = some p) (hpend : p.status = .pending)
    (htag : tag p' = tag p) (hclaimed : p'.status = .claimed)
    (hfree : held (ws i) = none) (hheld : held w = some id) (hexit : exitError w = none) :
    Moving U job base q' (Function.update ws i w) (err.or (exitError w)) := by
  have hother : ∀ j id', held (ws j) = some id' → j ≠ i ∧ id' ≠ id := by
    intro j id' hj
    constructor
    · rintro rfl
      rw [hfree] at hj
      cases hj
    · rintro rfl
      obtain ⟨-, p₁, -, -, hp₁, hcl⟩ := h.heldClaimed j _ hj
      rw [hp] at hp₁
      rw [← Option.some.inj hp₁, hpend] at hcl
      cases hcl
  obtain ⟨p₀, hp₀⟩ : ∃ p₀, view U job base id = some p₀ := by
    have ht := h.tagged id
    rw [hp] at ht
    exact Option.isSome_iff_exists.mp (by simpa using congrArg Option.isSome ht.symm)
  have hpend₀ : p₀.status = .pending := by
    rcases h.progress id p₀ p hp₀ hp with hsame | ⟨hpend₀, -⟩
    · rw [← hsame, hpend]
    · exact hpend₀
  rw [hexit, Option.or_none]
  refine ⟨hq', ?_, ?_, ?_, ?_, ?_, ?_⟩
  · intro id'
    rw [hview, ← h.tagged]
    split
    · rename_i hid
      rw [hid, hp]
      simp [htag]
    · rfl
  · intro id' p₁ p₂ hp₁ hp₂
    rw [hview] at hp₂
    split at hp₂
    · rename_i hid
      subst hid
      rw [hp₀] at hp₁
      obtain rfl := Option.some.inj hp₁
      obtain rfl := Option.some.inj hp₂
      exact Or.inr ⟨hpend₀, Or.inr (Or.inl ⟨hclaimed, i, by simpa using hheld⟩)⟩
    · rcases h.progress id' p₁ p₂ hp₁ hp₂ with hsame | ⟨hpn, hl | ⟨hcl, j, hj⟩ | herr⟩
      · exact Or.inl hsame
      · exact Or.inr ⟨hpn, Or.inl hl⟩
      · refine Or.inr ⟨hpn, Or.inr (Or.inl ⟨hcl, j, ?_⟩)⟩
        rwa [Function.update_of_ne (hother j id' hj).1]
      · exact Or.inr ⟨hpn, Or.inr (Or.inr herr)⟩
  · intro j id' hj
    rw [Function.update_apply] at hj
    split at hj
    · rw [hheld] at hj
      obtain rfl := Option.some.inj hj
      exact ⟨p₀, p', hp₀, hpend₀, by simp [hview], hclaimed⟩
    · obtain ⟨p₁, p₂, hp₁, hpn, hp₂, hcl⟩ := h.heldClaimed j id' hj
      exact ⟨p₁, p₂, hp₁, hpn, by rw [hview, if_neg (hother j id' hj).2, hp₂], hcl⟩
  · intro j k id' hj hk
    rw [Function.update_apply] at hj hk
    split at hj <;> split at hk
    · simp_all
    · rw [hheld] at hj
      exact absurd (Option.some.inj hj).symm (hother k id' hk).2
    · rw [hheld] at hk
      exact absurd (Option.some.inj hk).symm (hother j id' hj).2
    · exact h.heldOnce j k id' hj hk
  · intro j hj id' p₂ hp₂ hmatch
    rw [hview] at hp₂
    rw [Function.update_apply] at hj
    split at hj
    · rw [held, hj] at hheld
      cases hheld
    · split at hp₂
      · obtain rfl := Option.some.inj hp₂
        rw [hclaimed]
        decide
      · exact h.exhausted j hj id' p₂ hp₂ hmatch
  · intro herr j e hj
    rw [Function.update_apply] at hj
    split at hj
    · rw [held, hj] at hheld
      cases hheld
    · exact h.noErr herr j e hj

theorem moving_finish [DecidableEq Uuid] {n : Nat} {base q q' : ChunkQueue Uuid}
    {ws : Fin n → Worker Uuid} {err : Option (MoveError Uuid)}
    (h : Moving U job base q ws err) {i : Fin n} {w : Worker Uuid} {id : Uuid}
    {p p' : ChunkPlan Uuid} (hq' : Consistent U q')
    (hview : ∀ id', view U job q' id' = if id' = id then some p' else view U job q id')
    (hp : view U job q id = some p) (htag : tag p' = tag p)
    (hholds : held (ws i) = some id) (hfree : held w = none) (hpc : w.pc ≠ .exited none)
    (hdone : p'.status = .loaded ∨ (p'.status = .failed ∧ exitError w ≠ none)) :
    Moving U job base q' (Function.update ws i w) (err.or (exitError w)) := by
  obtain ⟨p₀, -, hp₀, hpend₀, -, -⟩ := h.heldClaimed i id hholds
  have hother : ∀ j id', j ≠ i → held (ws j) = some id' → id' ≠ id := by
    rintro j id' hji hj rfl
    exact hji (h.heldOnce j i _ hj hholds)
  have hback : ∀ j id', held (Function.update ws i w j) = some id' →
      j ≠ i ∧ held (ws j) = some id' := by
    intro j id' hj
    rw [Function.update_apply] at hj
    split at hj
    · rw [hfree] at hj
      cases hj
    · rename_i hji
      exact ⟨hji, hj⟩
  refine ⟨hq', ?_, ?_, ?_, ?_, ?_, ?_⟩
  · intro id'
    rw [hview, ← h.tagged]
    split
    · rename_i hid
      rw [hid, hp]
      simp [htag]
    · rfl
  · intro id' p₁ p₂ hp₁ hp₂
    rw [hview] at hp₂
    split at hp₂
    · rename_i hid
      subst hid
      rw [hp₀] at hp₁
      obtain rfl := Option.some.inj hp₁
      obtain rfl := Option.some.inj hp₂
      rcases hdone with hl | ⟨-, hexit⟩
      · exact Or.inr ⟨hpend₀, Or.inl hl⟩
      · exact Or.inr ⟨hpend₀, Or.inr (Or.inr fun hor =>
          hexit (Option.or_eq_none_iff.mp hor).2)⟩
    · rename_i hid
      rcases h.progress id' p₁ p₂ hp₁ hp₂ with hsame | ⟨hpn, hl | ⟨hcl, j, hj⟩ | herr⟩
      · exact Or.inl hsame
      · exact Or.inr ⟨hpn, Or.inl hl⟩
      · have hji : j ≠ i := by
          rintro rfl
          rw [hholds] at hj
          exact hid (Option.some.inj hj).symm
        refine Or.inr ⟨hpn, Or.inr (Or.inl ⟨hcl, j, ?_⟩)⟩
        rwa [Function.update_of_ne hji]
      · exact Or.inr ⟨hpn, Or.inr (Or.inr fun hor => herr (Option.or_eq_none_iff.mp hor).1)⟩
  · intro j id' hj
    obtain ⟨hji, hj⟩ := hback j id' hj
    obtain ⟨p₁, p₂, hp₁, hpn, hp₂, hcl⟩ := h.heldClaimed j id' hj
    exact ⟨p₁, p₂, hp₁, hpn, by rw [hview, if_neg (hother j id' hji hj), hp₂], hcl⟩
  · intro j k id' hj hk
    exact h.heldOnce j k id' (hback j id' hj).2 (hback k id' hk).2
  · intro j hj id' p₂ hp₂ hmatch
    rw [hview] at hp₂
    rw [Function.update_apply] at hj
    split at hj
    · exact absurd hj hpc
    · split at hp₂
      · obtain rfl := Option.some.inj hp₂
        rcases hdone with hl | ⟨hf, -⟩
        · rw [hl]
          decide
        · rw [hf]
          decide
      · exact h.exhausted j hj id' p₂ hp₂ hmatch
  · intro hor j e hj
    obtain ⟨herr, hexit⟩ := Option.or_eq_none_iff.mp hor
    rw [Function.update_apply] at hj
    split at hj
    · rw [exitError, hj] at hexit
      cases hexit
    · exact h.noErr herr j e hj

inductive WorkerEffect (ctxDone : Bool) (q : ChunkQueue Uuid) (w : Worker Uuid)
    (a : WorkerAction) : ChunkQueue Uuid → Worker Uuid → Option Uuid → Prop
  | quiet (w' : Worker Uuid) (hheld : held w' = held w)
      (hpc : ∀ err, w'.pc ≠ .exited err) (hpause : ∀ p, w'.pc ≠ .pausing p)
      (hfail : ∀ p, w'.pc = .failing p → a = .execute false) :
      WorkerEffect ctxDone q w a q w' none
  | checkpoint (p : ChunkPlan Uuid) (w' : Worker Uuid) (hpc : w.pc = .recorded p)
      (hpc' : w'.pc = .resting ∨ w'.pc = .top) :
      WorkerEffect ctxDone q w a
        (setCheckpoint U q job.jobID (job.sourceSchema ++ "." ++ job.tableName) p.id) w' none
  | exhausted (hpc : w.pc = .listing) (hnone : nextCandidate U job q = none) :
      WorkerEffect ctxDone q w a q { w with pc := .exited none } none
  | gaveUp (e : MoveError Uuid)
      (hcause : e = .jobStopped ∨ a = .checkCommand .pollError ∨ ctxDone = true ∨
        ∃ c now e', a = .claim now ∧ w.pc = .claiming c ∧
          claimChunk U q job.jobID c.id job.workerID now = .error e') :
      WorkerEffect ctxDone q w a q { w with pc := .exited (some e) } none
  | claimed (c p : ChunkPlan Uuid) (now : Int) (q' : ChunkQueue Uuid) (hpc : w.pc = .claiming c)
      (hclaim : claimChunk U q job.jobID c.id job.workerID now = .ok (q', p)) :
      WorkerEffect ctxDone q w a q' { w with pc := .executing p } (some p.id)
  | claimedPausing (c p : ChunkPlan Uuid) (now : Int) (q' : ChunkQueue Uuid)
      (hpc : w.pc = .claiming c)
      (hclaim : claimChunk U q job.jobID c.id job.workerID now = .ok (q', p)) :
      WorkerEffect ctxDone q w a q' { w with pc := .pausing p } none
  | resumed (p : ChunkPlan Uuid) (hpc : w.pc = .pausing p) :
      WorkerEffect ctxDone q w a q { w with pc := .executing p } (some p.id)
  | recorded (p : ChunkPlan Uuid) (hpc : w.pc = .succeeded p) :
      WorkerEffect ctxDone q w a (updateIgnoringError U job q p.id .claimed .loaded)
        { w with pc := .recorded p } none
  | failed (p : ChunkPlan Uuid) (hpc : w.pc = .failing p) :
      WorkerEffect ctxDone q w a (updateIgnoringError U job q p.id .claimed .failed)
        { w with pc := .exited (some (.chunk p.chunkIndex)) } none

theorem workerEffect_of_step {ctxDone : Bool} {q q' : ChunkQueue Uuid} {w w' : Worker Uuid}
    {a : WorkerAction} {started : Option Uuid}
    (h : workerStep U job ctxDone q w a = some (q', w', started)) :
    WorkerEffect U job ctxDone q w a q' w' started := by
  obtain ⟨pc, run⟩ := w
  cases a with
  | checkCommand outcome =>
      cases pc <;> cases outcome <;> simp only [workerStep] at h
      all_goals try split at h
      all_goals cases h
      · exact .quiet _ rfl (by simp) (by simp) (by simp)
      · exact .gaveUp _ (Or.inl rfl)
      · exact .gaveUp _ (Or.inr (Or.inl rfl))
      · rename_i hdone
        exact .gaveUp _ (Or.inr (Or.inr (Or.inl hdone)))
  | list =>
      cases pc <;> simp only [workerStep] at h
      all_goals try cases h
      split at h
      · rename_i hnone
        cases h
        exact .exhausted rfl hnone
      · cases h
        exact .quiet _ rfl (by simp) (by simp) (by simp)
  | claim now =>
      cases pc <;> simp only [workerStep] at h
      all_goals try cases h
      split at h
      · rename_i e herr
        cases h
        exact .gaveUp _ (Or.inr (Or.inr (Or.inr ⟨_, now, e, rfl, rfl, herr⟩)))
      · rename_i q₁ p hclaim
        split at h
        · cases h
          exact .claimedPausing _ p now _ rfl hclaim
        · cases h
          exact .claimed _ p now _ rfl hclaim
  | endPause interrupted =>
      cases pc <;> cases interrupted <;> simp only [workerStep] at h
      all_goals try cases ctxDone
      all_goals cases h
      · exact .resumed _ rfl
      · exact .resumed _ rfl
      · exact .gaveUp _ (Or.inr (Or.inr (Or.inl rfl)))
      · exact .quiet _ rfl (by simp) (by simp) (by simp)
      · exact .quiet _ rfl (by simp) (by simp) (by simp)
      · exact .gaveUp _ (Or.inr (Or.inr (Or.inl rfl)))
  | execute succeeds =>
      cases pc <;> simp only [workerStep] at h
      all_goals try cases h
      cases succeeds <;> exact .quiet _ rfl (by simp) (by simp) (by simp)
  | recordStatus =>
      cases pc <;> simp only [workerStep] at h
      all_goals try cases h
      exact .recorded _ rfl
  | recordCheckpoint =>
      cases pc <;> simp only [workerStep] at h
      all_goals try cases h
      refine .checkpoint _ _ rfl ?_
      cases useParallel job <;> simp
  | handleFailure =>
      cases pc <;> simp only [workerStep] at h
      all_goals try cases h
      exact .failed _ rfl

theorem consistent_setCheckpoint {q : ChunkQueue Uuid} (hq : Consistent U q) (jobID : Uuid)
    (table : String) (id : Uuid) : Consistent U (setCheckpoint U q jobID table id) :=
  ⟨hq.keyed, hq.plain, hq.idxKey, hq.indexed⟩

theorem nextCandidate_eq_none {q : ChunkQueue Uuid} (hq : Consistent U q)
    (h : nextCandidate U job q = none) {id : Uuid} {p : ChunkPlan Uuid}
    (hp : view U job q id = some p) (hmatch : matchesJobTable job p = true) :
    p.status ≠ .pending := by
  intro hpend
  obtain ⟨-, rfl⟩ := getChunk_own U hq hp
  have hmem := (mem_listChunksByStatus U hq).mpr ⟨hp, hpend⟩
  exact List.find?_eq_none.mp h p hmem hmatch

theorem updateIgnoringError_of_view {q : ChunkQueue Uuid} {id : Uuid} {p : ChunkPlan Uuid}
    (hp : view U job q id = some p) (old new : ChunkStatus) :
    updateIgnoringError U job q id old new =
      swapStatus U q job.jobID id old { p with status := new } := by
  rw [view] at hp
  simp [updateIgnoringError, updateStatus, hp]

section Records

variable [DecidableEq Uuid]

theorem view_swapStatus (q : ChunkQueue Uuid) (id : Uuid) (old : ChunkStatus)
    (p : ChunkPlan Uuid) (id' : Uuid) :
    view U job (swapStatus U q job.jobID id old p) id' =
      if id' = id then some p else view U job q id' := by
  simp [view, getChunk_swapStatus]

theorem moving_claimChunk {n : Nat} {base q q' : ChunkQueue Uuid} {ws : Fin n → Worker Uuid}
    {err : Option (MoveError Uuid)} (h : Moving U job base q ws err) {i : Fin n}
    {w : Worker Uuid} {c p : ChunkPlan Uuid} {now : Int} (hpc : (ws i).pc = .claiming c)
    (hclaim : claimChunk U q job.jobID c.id job.workerID now = .ok (q', p))
    (hheld : held w = some p.id) (hexit : exitError w = none) :
    Moving U job base q' (Function.update ws i w) (err.or (exitError w)) := by
  obtain ⟨p₀, hp₀, hpend, rfl, rfl⟩ := claimChunk_eq_ok U hclaim
  obtain ⟨hj, hid⟩ := getChunk_own U h.consistent hp₀
  refine moving_claim U job h ?_ (view_swapStatus U job q c.id _ _) hp₀ hpend rfl rfl ?_ ?_ hexit
  · exact consistent_swapStatus U h.consistent hp₀ hj hid ChunkStatus.plain_claimed
      (Or.inl hpend.symm)
  · rw [held, hpc]
  · rw [hheld, ← hid]
    rfl

theorem moving_updateStatus {n : Nat} {base q : ChunkQueue Uuid} {ws : Fin n → Worker Uuid}
    {err : Option (MoveError Uuid)} (h : Moving U job base q ws err) {i : Fin n}
    {w : Worker Uuid} {id : Uuid} {new : ChunkStatus} (hholds : held (ws i) = some id)
    (hfree : held w = none) (hpc : w.pc ≠ .exited none)
    (hdone : new = .loaded ∨ (new = .failed ∧ exitError w ≠ none)) :
    Moving U job base (updateIgnoringError U job q id .claimed new)
      (Function.update ws i w) (err.or (exitError w)) := by
  obtain ⟨-, p, -, -, hp, hcl⟩ := h.heldClaimed i id hholds
  obtain ⟨hj, hid⟩ := getChunk_own U h.consistent hp
  rw [updateIgnoringError_of_view U job hp]
  refine moving_finish U job h ?_ (view_swapStatus U job q id _ _) hp rfl hholds hfree hpc hdone
  have hplain : new.Plain := by
    rcases hdone with rfl | ⟨rfl, -⟩
    · exact ChunkStatus.plain_loaded
    · exact ChunkStatus.plain_failed
  exact consistent_swapStatus U h.consistent hp hj hid hplain (Or.inl hcl.symm)

theorem moving_workerEffect {n : Nat} {base q q' : ChunkQueue Uuid} {ws : Fin n → Worker Uuid}
    {err : Option (MoveError Uuid)} (h : Moving U job base q ws err) {i : Fin n}
    {ctxDone : Bool} {a : WorkerAction} {w : Worker Uuid} {started : Option Uuid}
    (heff : WorkerEffect U job ctxDone q (ws i) a q' w started) :
    Moving U job base q' (Function.update ws i w) (err.or (exitError w)) := by
  cases heff with
  | quiet _ hheld hpc _ _ =>
      exact moving_quiet U job h h.consistent (fun _ => rfl) (Or.inl hheld)
        fun hex => absurd hex (hpc _)
  | checkpoint p _ hpc hpc' =>
      refine moving_quiet U job h (consistent_setCheckpoint U h.consistent _ _ _) (fun _ => rfl)
        (Or.inl ?_) ?_
      · rw [held, held, hpc]
        rcases hpc' with hpc' | hpc' <;> rw [hpc']
      · rcases hpc' with hpc' | hpc' <;> simp [hpc']
  | exhausted hpc hnone =>
      refine moving_quiet U job h h.consistent (fun _ => rfl) (Or.inl ?_) ?_
      · rw [held, held, hpc]
      · intro _ id p hp hmatch
        exact nextCandidate_eq_none U job h.consistent hnone hp hmatch
  | gaveUp e _ =>
      exact moving_quiet U job h h.consistent (fun _ => rfl) (Or.inr ⟨rfl, by simp [exitError]⟩)
        (by simp)
  | claimed c p now _ hpc hclaim => exact moving_claimChunk U job h hpc hclaim rfl rfl
  | claimedPausing c p now _ hpc hclaim => exact moving_claimChunk U job h hpc hclaim rfl rfl
  | resumed p hpc =>
      refine moving_quiet U job h h.consistent (fun _ => rfl) (Or.inl ?_) (by simp)
      rw [held, held, hpc]
  | recorded p hpc =>
      exact moving_updateStatus U job h (by rw [held, hpc]) rfl (by simp) (Or.inl rfl)
  | failed p hpc =>
      exact moving_updateStatus U job h (by rw [held, hpc]) rfl (by simp)
        (Or.inr ⟨rfl, by simp [exitError]⟩)

end Records

end SqlOptima.TableMoverInvariant
