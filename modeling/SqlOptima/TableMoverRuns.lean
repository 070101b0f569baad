import SqlOptima.TableMoverInvariant

namespace SqlOptima.TableMoverRuns

open SqlOptima.CoreTypes
open SqlOptima.ChunkKeys
open SqlOptima.Queue
open SqlOptima.QueueIndex
open SqlOptima.TableMover
open SqlOptima.TableMoverInvariant
open SqlOptima.TransitionSystem

variable {Uuid : Type} (U : UuidCodec Uuid) (job : TableJob Uuid) [DecidableEq Uuid]

inductive MoveStep (s : MoverState Uuid (numWorkers job)) :
    MoveAction Uuid (numWorkers job) → MoverState Uuid (numWorkers job) → Prop
  | resumed (plan : List (ChunkPlan Uuid)) (hqueued : hasQueuedTableChunks U job s.queue = true) :
      MoveStep s (.move plan) ⟨s.queue, startWorkers job plan, s.queue, s.queue, s.executed,
        false, false⟩
  | planned (plan : List (ChunkPlan Uuid)) (hfresh : freshPlan U job s.queue plan = true)
      (hqueued : hasQueuedTableChunks U job s.queue = false) :
      MoveStep s (.move plan) ⟨s.queue, .enqueuing plan plan, s.queue, s.queue, s.executed,
        false, false⟩
  | enqueuedOne (plan rest : List (ChunkPlan Uuid)) (c : ChunkPlan Uuid)
      (hphase : s.phase = .enqueuing plan (c :: rest)) :
      MoveStep s .enqueueNext { s with
        queue := enqueue U s.queue (prepareChunk job c)
        phase := .enqueuing plan rest }
  | enqueuedAll (plan : List (ChunkPlan Uuid)) (hphase : s.phase = .enqueuing plan []) :
      MoveStep s .enqueued { s with phase := startWorkers job plan, baseQueue := s.queue }
  | cancelled (plan : List (ChunkPlan Uuid)) (ws : Fin (numWorkers job) → Worker Uuid)
      (ctxDone : Bool) (err : Option (MoveError Uuid))
      (hphase : s.phase = .moving plan ws ctxDone err) :
      MoveStep s .cancel { s with phase := .moving plan ws true err, stopped := true }
  | worked (plan : List (ChunkPlan Uuid)) (ws : Fin (numWorkers job) → Worker Uuid)
      (ctxDone : Bool) (err : Option (MoveError Uuid)) (i : Fin (numWorkers job))
      (a : WorkerAction) (q : ChunkQueue Uuid) (w : Worker Uuid) (started : Option Uuid)
      (hphase : s.phase = .moving plan ws ctxDone err)
      (heff : WorkerEffect U job ctxDone s.queue (ws i) a q w started) :
      MoveStep s (.worker i a) { s with
        queue := q
        phase := .moving plan (Function.update ws i w)
          (ctxDone || (exitError w).isSome) (err.or (exitError w))
        executed := started.toList ++ s.executed
        stopped := s.stopped || decide (exitError w = some .jobStopped)
        chunkFailed := s.chunkFailed || decide (a = .execute false) }
  | waited (plan : List (ChunkPlan Uuid)) (ws : Fin (numWorkers job) → Worker Uuid)
      (ctxDone : Bool) (err : Option (MoveError Uuid))
      (hphase : s.phase = .moving plan ws ctxDone err)
      (hall : ∀ i, hasExited (ws i) = true) :
      MoveStep s .wait { s with phase := .returned plan err }
  | crashed : MoveStep s .crash { s with phase := .idle }

theorem moveStep_of_step {s t : MoverState Uuid (numWorkers job)}
    {a : MoveAction Uuid (numWorkers job)} (h : step U job s a = some t) :
    MoveStep U job s a t := by
  cases a with
  | move plan =>
      have hplan : freshPlan U job s.queue plan = true ∧ t = { s with
          phase := if hasQueuedTableChunks U job s.queue then startWorkers job plan
            else .enqueuing plan plan
          startQueue := s.queue
          baseQueue := s.queue
          stopped := false
          chunkFailed := false } := by
        rw [step] at h
        split at h
        · cases h
        · cases h
        · split at h
          · rename_i hfresh
            exact ⟨hfresh, (Option.some.inj h).symm⟩
          · cases h
      obtain ⟨hfresh, rfl⟩ := hplan
      cases hqueued : hasQueuedTableChunks U job s.queue
      · exact .planned plan hfresh hqueued
      · exact .resumed plan hqueued
  | enqueueNext =>
      rw [step] at h
      split at h
      · rename_i plan c rest hphase
        cases h
        exact .enqueuedOne plan rest c hphase
      · cases h
  | enqueued =>
      rw [step] at h
      split at h
      · rename_i plan hphase
        cases h
        exact .enqueuedAll plan hphase
      · cases h
  | cancel =>
      rw [step] at h
      split at h
      · rename_i plan ws ctxDone err hphase
        cases h
        exact .cancelled plan ws ctxDone err hphase
      · cases h
  | worker i a =>
      rw [step] at h
      split at h
      · rename_i plan ws ctxDone err hphase
        split at h
        · cases h
        · rename_i q w started hstep
          cases h
          exact .worked plan ws ctxDone err i a q w started hphase
            (workerEffect_of_step U job hstep)
      · cases h
  | wait =>
      rw [step] at h
      split at h
      · rename_i plan ws ctxDone err hphase
        split at h
        · rename_i hall
          cases h
          exact .waited plan ws ctxDone err hphase hall
        · cases h
      · cases h
  | crash =>
      cases h
      exact .crashed

/-- What holds of the running call in each of its phases. -/
def PhaseInv (start base q : ChunkQueue Uuid) : Phase Uuid (numWorkers job) → Prop
  | .idle => True
  | .enqueuing plan rest =>
      NothingQueued job start ∧ (plan.map ChunkPlan.id).Nodup ∧
        (∀ c ∈ plan, matchesJobTable job c = true) ∧
        (∀ c ∈ rest, view U job q c.id = none) ∧
        ∃ done, plan = done ++ rest ∧
          ∀ c ∈ done, view U job q c.id = some (prepareChunk job c)
  | .moving plan ws _ err =>
      Consistent U base ∧ BaseOf job plan start base ∧ Moving U job base q ws err
  | .returned plan err =>
      err = none → (AllLoaded job plan q ↔ ReadyAtStart job plan start)

structure Inv (s : MoverState Uuid (numWorkers job)) : Prop where
  consistent : Consistent U s.queue
  phase : PhaseInv U job s.startQueue s.baseQueue s.queue s.phase
  executedOnce : s.executed.Nodup
  executedStored : ∀ id ∈ s.executed, ∃ p, view U job s.queue id = some p ∧ p.status ≠ .pending
  pausingFresh : ∀ plan ws ctxDone err, s.phase = .moving plan ws ctxDone err →
    ∀ i p, (ws i).pc = .pausing p → p.id ∉ s.executed

theorem inv_initial {q : ChunkQueue Uuid} (hq : Consistent U q) : Inv U job (initial q) where
  consistent := hq
  phase := trivial
  executedOnce := List.nodup_nil
  executedStored := by
    intro id hid
    cases hid
  pausingFresh := by
    intro plan ws ctxDone err h
    cases h

theorem nothingQueued_iff {q : ChunkQueue Uuid} (hq : Consistent U q) :
    NothingQueued job q ↔ hasQueuedTableChunks U job q = false := by
  rw [← Bool.not_eq_true, hasQueuedTableChunks_iff U job hq]
  simp only [NothingQueued, not_exists, not_and]

theorem phaseInv_startWorkers {start base : ChunkQueue Uuid} {plan : List (ChunkPlan Uuid)}
    (hbase : Consistent U base) (h : BaseOf job plan start base) :
    PhaseInv U job start base base (startWorkers job plan) := by
  rw [startWorkers]
  split
  · rename_i hempty
    rw [List.isEmpty_iff] at hempty
    subst hempty
    intro _
    simp [AllLoaded, ReadyAtStart]
  · exact ⟨hbase, h, moving_start U job hbase⟩

theorem view_enqueue (q : ChunkQueue Uuid) (c : ChunkPlan Uuid) (id : Uuid) :
    view U job (enqueue U q (prepareChunk job c)) id =
      if id = c.id then some (prepareChunk job c) else view U job q id := by
  simp [view, getChunk_enqueue, prepareChunk]

theorem freshPlan_iff {q : ChunkQueue Uuid} {plan : List (ChunkPlan Uuid)} :
    freshPlan U job q plan = true ↔
      (plan.map ChunkPlan.id).Nodup ∧
        ∀ c ∈ plan, matchesJobTable job c = true ∧ view U job q c.id = none := by
  simp [freshPlan, view]

theorem baseOf_enqueued {start q : ChunkQueue Uuid} {plan : List (ChunkPlan Uuid)}
    (hq : Consistent U q) (hstart : NothingQueued job start)
    (hmatch : ∀ c ∈ plan, matchesJobTable job c = true)
    (hstored : ∀ c ∈ plan, view U job q c.id = some (prepareChunk job c)) :
    BaseOf job plan start q := by
  refine Or.inr ⟨hstart, fun c hc => ⟨prepareChunk job c, ?_, rfl, rfl⟩⟩
  exact (mem_tableChunks U job hq).mpr ⟨hstored c hc, hmatch c hc⟩

omit [DecidableEq Uuid] in
theorem moving_finished {base q : ChunkQueue Uuid} {ws : Fin (numWorkers job) → Worker Uuid}
    (h : Moving U job base q ws none) (hall : ∀ i, hasExited (ws i) = true) {id : Uuid}
    {p₀ p : ChunkPlan Uuid} (hp₀ : view U job base id = some p₀)
    (hp : view U job q id = some p) (hmatch : matchesJobTable job p = true) :
    p.status = .loaded ↔ (p₀.status = .pending ∨ p₀.status = .loaded) := by
  have hexited : ∀ i, (ws i).pc = .exited none := by
    intro i
    have hi := hall i
    rw [hasExited] at hi
    split at hi
    · rename_i err hpc
      cases err with
      | none => exact hpc
      | some e => exact absurd hpc (h.noErr rfl i e)
    · cases hi
  have hnotPending := h.exhausted ⟨0, numWorkers_pos job⟩ (hexited _) id p hp hmatch
  rcases h.progress id p₀ p hp₀ hp with hsame | ⟨hpend, hl | ⟨-, i, hi⟩ | herr⟩
  · rw [← hsame]
    exact ⟨Or.inr, fun hor => hor.resolve_left hnotPending⟩
  · exact iff_of_true hl (Or.inl hpend)
  · rw [held, hexited i] at hi
    cases hi
  · exact absurd rfl herr

theorem loaded_range_iff {base q : ChunkQueue Uuid} {ws : Fin (numWorkers job) → Worker Uuid}
    (hbase : Consistent U base) (h : Moving U job base q ws none)
    (hall : ∀ i, hasExited (ws i) = true) (r : String × Option String × Option String) :
    (∃ p ∈ tableChunks job q, p.range = r ∧ p.status = .loaded) ↔
      ∃ p₀ ∈ tableChunks job base,
        p₀.range = r ∧ (p₀.status = .pending ∨ p₀.status = .loaded) := by
  constructor
  · rintro ⟨p, hp, hr, hl⟩
    obtain ⟨hview, hmatch⟩ := (mem_tableChunks U job h.consistent).mp hp
    obtain ⟨p₀, hp₀, htag⟩ : ∃ p₀, view U job base p.id = some p₀ ∧ tag p₀ = tag p := by
      have ht := h.tagged p.id
      rw [hview] at ht
      simpa using ht.symm
    have hid := (getChunk_own U hbase hp₀).2
    refine ⟨p₀, (mem_tableChunks U job hbase).mpr ⟨by rw [hid, hp₀], ?_⟩, ?_, ?_⟩
    · rw [matchesJobTable_of_tag job htag, hmatch]
    · rw [range_of_tag htag, hr]
    · exact (moving_finished U job h hall hp₀ hview hmatch).mp hl
  · rintro ⟨p₀, hp, hr, hst⟩
    obtain ⟨hview₀, hmatch₀⟩ := (mem_tableChunks U job hbase).mp hp
    obtain ⟨p, hp, htag⟩ : ∃ p, view U job q p₀.id = some p ∧ tag p = tag p₀ := by
      have ht := h.tagged p₀.id
      rw [hview₀] at ht
      simpa using ht
    have hid := (getChunk_own U h.consistent hp).2
    have hmatch : matchesJobTable job p = true := by
      rw [matchesJobTable_of_tag job htag, hmatch₀]
    refine ⟨p, (mem_tableChunks U job h.consistent).mpr ⟨by rw [hid, hp], hmatch⟩, ?_, ?_⟩
    · rw [range_of_tag htag, hr]
    · exact (moving_finished U job h hall hview₀ hp hmatch).mpr hst

theorem allLoaded_iff_readyAtStart {start base q : ChunkQueue Uuid}
    {plan : List (ChunkPlan Uuid)} {ws : Fin (numWorkers job) → Worker Uuid}
    (hbase : Consistent U base) (hof : BaseOf job plan start base)
    (h : Moving U job base q ws none) (hall : ∀ i, hasExited (ws i) = true) :
    AllLoaded job plan q ↔ ReadyAtStart job plan start := by
  simp only [AllLoaded, ReadyAtStart, loaded_range_iff U job hbase h hall]
  rcases hof with ⟨rfl, hne⟩ | ⟨hnil, hpend⟩
  · exact ⟨Or.inr, fun hor => hor.resolve_left hne⟩
  · refine iff_of_true ?_ (Or.inl hnil)
    intro c hc
    obtain ⟨p, hp, hr, hst⟩ := hpend c hc
    exact ⟨p, hp, hr, Or.inl hst⟩

theorem inv_enqueueNext {s : MoverState Uuid (numWorkers job)} (h : Inv U job s)
    {plan rest : List (ChunkPlan Uuid)} {c : ChunkPlan Uuid}
    (hphase : s.phase = .enqueuing plan (c :: rest)) :
    Inv U job { s with
      queue := enqueue U s.queue (prepareChunk job c), phase := .enqueuing plan rest } := by
  have hp := h.phase
  rw [hphase] at hp
  obtain ⟨hnil, hnodup, hmatch, hfresh, done, hplan, hdone⟩ := hp
  have hnone : view U job s.queue c.id = none := hfresh c (List.mem_cons_self ..)
  have hne : ∀ id p, view U job s.queue id = some p → id ≠ c.id := by
    rintro id p hid rfl
    rw [hnone] at hid
    cases hid
  refine ⟨?_, ⟨hnil, hnodup, hmatch, ?_, done ++ [c], ?_, ?_⟩, h.executedOnce, ?_, ?_⟩
  · refine consistent_enqueue U h.consistent _ ChunkStatus.plain_pending fun p hget => ?_
    exact absurd rfl (hne _ p hget)
  · intro c' hc'
    rw [view_enqueue, if_neg, hfresh c' (List.mem_cons_of_mem _ hc')]
    intro heq
    rw [hplan, List.map_append, List.map_cons] at hnodup
    have htail := (List.nodup_append.mp hnodup).2.1
    exact (List.nodup_cons.mp htail).1 (heq ▸ List.mem_map_of_mem hc')
  · rw [hplan, List.append_assoc]
    rfl
  · intro c' hc'
    rw [view_enqueue]
    rcases List.mem_append.mp hc' with hc' | hc'
    · rw [if_neg (hne _ _ (hdone c' hc')), hdone c' hc']
    · rw [List.mem_singleton.mp hc', if_pos rfl]
  · intro id hid
    obtain ⟨p, hp, hst⟩ := h.executedStored id hid
    exact ⟨p, by rw [view_enqueue, if_neg (hne id p hp), hp], hst⟩
  · intro plan' ws ctxDone err hmoving
    cases hmoving

theorem view_updateIgnoringError (q : ChunkQueue Uuid) (id : Uuid) (old new : ChunkStatus)
    (id' : Uuid) :
    view U job (updateIgnoringError U job q id old new) id' = view U job q id' ∨
      ∃ p, view U job (updateIgnoringError U job q id old new) id' = some p ∧ p.status = new := by
  cases hp : view U job q id with
  | none =>
      refine Or.inl ?_
      rw [view] at hp
      simp [updateIgnoringError, updateStatus, hp]
  | some p =>
      rw [updateIgnoringError_of_view U job hp, view_swapStatus]
      split
      · exact Or.inr ⟨_, rfl, rfl⟩
      · exact Or.inl rfl

theorem view_workerEffect {ctxDone : Bool} {q q' : ChunkQueue Uuid} {w w' : Worker Uuid}
    {a : WorkerAction} {started : Option Uuid}
    (heff : WorkerEffect U job ctxDone q w a q' w' started) (id : Uuid) :
    view U job q' id = view U job q id ∨
      ∃ p, view U job q' id = some p ∧ p.status ≠ .pending := by
  have hclaimChunk : ∀ c now p, claimChunk U q job.jobID c job.workerID now = .ok (q', p) →
      view U job q' id = view U job q id ∨
        ∃ p, view U job q' id = some p ∧ p.status ≠ .pending := by
    intro c now p hclaim
    obtain ⟨p₀, -, -, rfl, rfl⟩ := claimChunk_eq_ok U hclaim
    rw [view_swapStatus]
    split
    · exact Or.inr ⟨_, rfl, by simp [claimedBy]⟩
    · exact Or.inl rfl
  cases heff with
  | quiet | checkpoint | exhausted | gaveUp | resumed => exact Or.inl rfl
  | claimed c p now _ _ hclaim => exact hclaimChunk c.id now p hclaim
  | claimedPausing c p now _ _ hclaim => exact hclaimChunk c.id now p hclaim
  | recorded p _ =>
      refine (view_updateIgnoringError U job q p.id .claimed .loaded id).imp_right ?_
      rintro ⟨p', hp', hst⟩
      exact ⟨p', hp', by simp [hst]⟩
  | failed p _ =>
      refine (view_updateIgnoringError U job q p.id .claimed .failed id).imp_right ?_
      rintro ⟨p', hp', hst⟩
      exact ⟨p', hp', by simp [hst]⟩

section Executions

variable {n : Nat} {base q q' : ChunkQueue Uuid} {ws : Fin n → Worker Uuid}
  {err : Option (MoveError Uuid)} {i : Fin n} {ctxDone : Bool} {a : WorkerAction}
  {w : Worker Uuid} {started : Option Uuid} {executed : List Uuid}

theorem claim_fresh (h : Moving U job base q ws err)
    (hstored : ∀ id ∈ executed, ∃ p, view U job q id = some p ∧ p.status ≠ .pending)
    {c : Uuid} {now : Int} {p : ChunkPlan Uuid}
    (hclaim : claimChunk U q job.jobID c job.workerID now = .ok (q', p)) :
    p.id ∉ executed ∧ (∀ j, held (ws j) ≠ some p.id) ∧
      ∃ p', view U job q' p.id = some p' ∧ p'.status ≠ .pending := by
  obtain ⟨p₀, hp₀, hpend, rfl, rfl⟩ := claimChunk_eq_ok U hclaim
  have hid : (claimedBy p₀ job.workerID now).id = c := (getChunk_own U h.consistent hp₀).2
  rw [hid]
  refine ⟨?_, ?_, claimedBy p₀ job.workerID now, ?_, by simp [claimedBy]⟩
  · intro hmem
    obtain ⟨p', hp', hst⟩ := hstored c hmem
    rw [view, hp₀] at hp'
    exact hst (Option.some.inj hp' ▸ hpend)
  · intro j hj
    obtain ⟨-, p', -, -, hp', hst⟩ := h.heldClaimed j c hj
    rw [view, hp₀] at hp'
    rw [← Option.some.inj hp', hpend] at hst
    cases hst
  · rw [view_swapStatus, if_pos rfl]

theorem started_fresh (h : Moving U job base q ws err)
    (hstored : ∀ id ∈ executed, ∃ p, view U job q id = some p ∧ p.status ≠ .pending)
    (hpausing : ∀ j p, (ws j).pc = .pausing p → p.id ∉ executed)
    (heff : WorkerEffect U job ctxDone q (ws i) a q' w started) {id : Uuid}
    (hid : started = some id) :
    id ∉ executed ∧ (∀ j, j ≠ i → held (ws j) ≠ some id) ∧
      ∃ p, view U job q' id = some p ∧ p.status ≠ .pending := by
  cases heff with
  | quiet | checkpoint | exhausted | gaveUp | claimedPausing | recorded | failed => cases hid
  | claimed c p now _ hpc hclaim =>
      cases hid
      obtain ⟨hnot, hfree, hst⟩ := claim_fresh U job h hstored hclaim
      exact ⟨hnot, fun j _ => hfree j, hst⟩
  | resumed p hpc =>
      cases hid
      have hholds : held (ws i) = some p.id := by rw [held, hpc]
      obtain ⟨-, p', -, -, hp', hst⟩ := h.heldClaimed i p.id hholds
      refine ⟨hpausing i p hpc, ?_, p', hp', by simp [hst]⟩
      intro j hji hj
      exact hji (h.heldOnce j i p.id hj hholds)

theorem pausing_fresh (h : Moving U job base q ws err)
    (hstored : ∀ id ∈ executed, ∃ p, view U job q id = some p ∧ p.status ≠ .pending)
    (heff : WorkerEffect U job ctxDone q (ws i) a q' w started) {p : ChunkPlan Uuid}
    (hpc : w.pc = .pausing p) : started = none ∧ p.id ∉ executed := by
  cases heff with
  | quiet _ _ _ hpause => exact absurd hpc (hpause p)
  | checkpoint _ _ _ hpc' => simp [hpc] at hpc'
  | exhausted | gaveUp | claimed | resumed | recorded | failed => cases hpc
  | claimedPausing c p' now _ _ hclaim =>
      cases hpc
      exact ⟨rfl, (claim_fresh U job h hstored hclaim).1⟩

end Executions

theorem inv_worked {s : MoverState Uuid (numWorkers job)} (h : Inv U job s)
    {plan : List (ChunkPlan Uuid)} {ws : Fin (numWorkers job) → Worker Uuid} {ctxDone : Bool}
    {err : Option (MoveError Uuid)} {i : Fin (numWorkers job)} {a : WorkerAction}
    {q : ChunkQueue Uuid} {w : Worker Uuid} {started : Option Uuid}
    (hphase : s.phase = .moving plan ws ctxDone err)
    (heff : WorkerEffect U job ctxDone s.queue (ws i) a q w started)
    (ctxDone' stopped chunkFailed : Bool) :
    Inv U job ⟨q, .moving plan (Function.update ws i w) ctxDone' (err.or (exitError w)),
      s.startQueue, s.baseQueue, started.toList ++ s.executed, stopped, chunkFailed⟩ := by
  have hp := h.phase
  rw [hphase] at hp
  obtain ⟨hbase, hof, hmoving⟩ := hp
  have hpausing := h.pausingFresh plan ws ctxDone err hphase
  have hfresh := fun id (hid : started = some id) =>
    started_fresh U job hmoving h.executedStored hpausing heff hid
  have hmoving' := moving_workerEffect U job hmoving heff
  refine ⟨hmoving'.consistent, ⟨hbase, hof, hmoving'⟩, ?_, ?_, ?_⟩
  · cases started with
    | none => exact h.executedOnce
    | some id => exact List.nodup_cons.mpr ⟨(hfresh id rfl).1, h.executedOnce⟩
  · intro id hid
    rcases List.mem_append.mp hid with hid | hid
    · exact (hfresh id (Option.mem_toList.mp hid)).2.2
    · obtain ⟨p, hp, hst⟩ := h.executedStored id hid
      rcases view_workerEffect U job heff id with hsame | hnew
      · exact ⟨p, hsame.trans hp, hst⟩
      · exact hnew
  · intro plan' ws' ctxDone₁ err' hphase' j p hpc hmem
    cases hphase'
    rw [Function.update_apply] at hpc
    split at hpc
    · obtain ⟨rfl, hnot⟩ := pausing_fresh U job hmoving h.executedStored heff hpc
      exact hnot hmem
    · rename_i hji
      rcases List.mem_append.mp hmem with hmem | hmem
      · refine (hfresh p.id (Option.mem_toList.mp hmem)).2.1 j hji ?_
        rw [held, hpc]
      · exact hpausing j p hpc hmem

theorem inv_of_quiet {s t : MoverState Uuid (numWorkers job)} (h : Inv U job s)
    (hqueue : t.queue = s.queue) (hexec : t.executed = s.executed)
    (hphase : PhaseInv U job t.startQueue t.baseQueue t.queue t.phase)
    (hpausing : ∀ plan ws ctxDone err, t.phase = .moving plan ws ctxDone err →
      ∀ i p, (ws i).pc = .pausing p → p.id ∉ s.executed) : Inv U job t where
  consistent := hqueue ▸ h.consistent
  phase := hphase
  executedOnce := hexec ▸ h.executedOnce
  executedStored := by
    rw [hexec, hqueue]
    exact h.executedStored
  pausingFresh := by
    rw [hexec]
    exact hpausing

omit [DecidableEq Uuid] in
theorem startWorkers_not_pausing {plan plan' : List (ChunkPlan Uuid)}
    {ws : Fin (numWorkers job) → Worker Uuid} {ctxDone : Bool} {err : Option (MoveError Uuid)}
    (h : startWorkers job plan = .moving plan' ws ctxDone err) (i : Fin (numWorkers job)) :
    (ws i).pc = .top := by
  rw [startWorkers] at h
  split at h
  · cases h
  · cases h
    rfl

theorem inv_step {s t : MoverState Uuid (numWorkers job)}
    {a : MoveAction Uuid (numWorkers job)} (h : Inv U job s) (hstep : step U job s a = some t) :
    Inv U job t := by
  have hp := h.phase
  cases moveStep_of_step U job hstep with
  | resumed plan hqueued =>
      have hne : ¬ NothingQueued job s.queue := by
        rw [nothingQueued_iff U job h.consistent, hqueued]
        decide
      refine inv_of_quiet U job h rfl rfl
        (phaseInv_startWorkers U job h.consistent (Or.inl ⟨rfl, hne⟩)) ?_
      intro plan' ws ctxDone err hphase i p hpc
      rw [startWorkers_not_pausing job hphase i] at hpc
      cases hpc
  | planned plan hfresh hqueued =>
      obtain ⟨hnodup, hplan⟩ := (freshPlan_iff U job).mp hfresh
      have hnil := (nothingQueued_iff U job h.consistent).mpr hqueued
      refine inv_of_quiet U job h rfl rfl
        ⟨hnil, hnodup, fun c hc => (hplan c hc).1, fun c hc => (hplan c hc).2, [], rfl, ?_⟩ ?_
      · intro c hc
        cases hc
      · intro plan' ws ctxDone err hphase
        cases hphase
  | enqueuedOne plan rest c hphase => exact inv_enqueueNext U job h hphase
  | enqueuedAll plan hphase =>
      rw [hphase] at hp
      obtain ⟨hnil, -, hmatch, -, done, rfl, hdone⟩ := hp
      rw [List.append_nil] at hmatch ⊢
      have hof := baseOf_enqueued U job h.consistent hnil hmatch hdone
      refine inv_of_quiet U job h rfl rfl (phaseInv_startWorkers U job h.consistent hof) ?_
      intro plan' ws ctxDone err hphase i p hpc
      rw [startWorkers_not_pausing job hphase i] at hpc
      cases hpc
  | cancelled plan ws ctxDone err hphase =>
      rw [hphase] at hp
      refine inv_of_quiet U job h rfl rfl hp ?_
      intro plan' ws' ctxDone' err' hphase'
      cases hphase'
      exact h.pausingFresh plan ws ctxDone err hphase
  | worked plan ws ctxDone err i a q w started hphase heff =>
      exact inv_worked U job h hphase heff _ _ _
  | waited plan ws ctxDone err hphase hall =>
      rw [hphase] at hp
      obtain ⟨hbase, hof, hmoving⟩ := hp
      refine inv_of_quiet U job h rfl rfl ?_ ?_
      · rintro rfl
        exact allLoaded_iff_readyAtStart U job hbase hof hmoving hall
      · intro plan' ws' ctxDone' err' hphase'
        cases hphase'
  | crashed =>
      refine inv_of_quiet U job h rfl rfl trivial ?_
      intro plan' ws' ctxDone' err' hphase'
      cases hphase'

theorem inv_of_reaches {q₀ : ChunkQueue Uuid} (hq₀ : Consistent U q₀)
    {s : MoverState Uuid (numWorkers job)} (hs : Reaches (step U job) (initial q₀) s) :
    Inv U job s :=
  hs.invariant (inv_initial U job hq₀) fun _ _ _ => inv_step U job

/-- Over every run, with crashes and restarts anywhere: a call that returns
without error left all of its plan LOADED if and only if, when it started, the
queue held nothing of the table or held every planned key range PENDING or
LOADED. -/
theorem completed_allLoaded_iff {q₀ : ChunkQueue Uuid} (hq₀ : Consistent U q₀)
    {s : MoverState Uuid (numWorkers job)} (hs : Reaches (step U job) (initial q₀) s)
    {plan : List (ChunkPlan Uuid)} (hret : s.phase = .returned plan none) :
    AllLoaded job plan s.queue ↔ ReadyAtStart job plan s.startQueue := by
  have hp := (inv_of_reaches U job hq₀ hs).phase
  rw [hret] at hp
  exact hp rfl

instance (plan : List (ChunkPlan Uuid)) (q : ChunkQueue Uuid) : Decidable (AllLoaded job plan q) :=
  inferInstanceAs (Decidable (∀ c ∈ plan, ∃ p ∈ tableChunks job q, _))

def ordersJob (workers : Int) : TableJob HexUuid :=
  ⟨.ofDigit 0, "dbo", "orders", "parallel_chunked", workers, "w"⟩

def ordersPlan (id₁ id₂ : Fin 16) : List (ChunkPlan HexUuid) :=
  [newChunkPlan (.ofDigit id₁) 0 (.ofDigit 0) "dbo" "orders" 0 "id" (some "0") (some "999"),
    newChunkPlan (.ofDigit id₂) 0 (.ofDigit 0) "dbo" "orders" 1 "id" (some "1000") (some "1999")]

def loadOne {n : Nat} (i : Fin n) : List (MoveAction HexUuid n) :=
  [.worker i (.checkCommand .proceed), .worker i .list, .worker i (.claim 0),
    .worker i (.execute true), .worker i .recordStatus, .worker i .recordCheckpoint]

def findNothing {n : Nat} (i : Fin n) : List (MoveAction HexUuid n) :=
  [.worker i (.checkCommand .proceed), .worker i .list]

def crashWhileEnqueuing : List (MoveAction HexUuid (numWorkers (ordersJob 1))) :=
  [MoveAction.move (ordersPlan 1 2), .enqueueNext, .crash, .move (ordersPlan 3 4)] ++
    loadOne ⟨0, by decide⟩ ++ findNothing ⟨0, by decide⟩ ++ [MoveAction.wait]

theorem crashWhileEnqueuing_not_allLoaded :
    ∃ s, Reaches (step hexUuidCodec (ordersJob 1)) (initial openQueue) s ∧
      s.phase = .returned (ordersPlan 3 4) none ∧
      ¬ AllLoaded (ordersJob 1) (ordersPlan 3 4) s.queue := by
  have hrun : (runSteps (step hexUuidCodec (ordersJob 1)) (initial openQueue)
      crashWhileEnqueuing).any (fun s => decide (s.phase = .returned (ordersPlan 3 4) none ∧
        ¬ AllLoaded (ordersJob 1) (ordersPlan 3 4) s.queue)) = true := by
    decide +kernel
  obtain ⟨s, hs, hend⟩ := (Option.any_eq_true _ _).mp hrun
  exact ⟨s, reaches_of_runSteps hs, of_decide_eq_true hend⟩

def uninterrupted : List (MoveAction HexUuid (numWorkers (ordersJob 1))) :=
  let i : Fin (numWorkers (ordersJob 1)) := ⟨0, by decide⟩
  [MoveAction.move (ordersPlan 1 2), .enqueueNext, .enqueueNext, .enqueued] ++ loadOne i ++
    [MoveAction.worker i (.checkCommand .proceed), .worker i .list, .worker i (.claim 0),
      .worker i (.endPause false), .worker i (.execute true), .worker i .recordStatus,
      .worker i .recordCheckpoint] ++ findNothing i ++ [MoveAction.wait]

theorem uninterrupted_allLoaded :
    ∃ s, Reaches (step hexUuidCodec (ordersJob 1)) (initial openQueue) s ∧
      s.phase = .returned (ordersPlan 1 2) none ∧
      AllLoaded (ordersJob 1) (ordersPlan 1 2) s.queue := by
  have hrun : (runSteps (step hexUuidCodec (ordersJob 1)) (initial openQueue)
      uninterrupted).any (fun s => decide (s.phase = .returned (ordersPlan 1 2) none ∧
        (tableChunks (ordersJob 1) s.startQueue).isEmpty)) = true := by
    decide +kernel
  obtain ⟨s, hs, hend⟩ := (Option.any_eq_true _ _).mp hrun
  obtain ⟨hret, hempty⟩ := of_decide_eq_true hend
  have hreach := reaches_of_runSteps hs
  have hiff := completed_allLoaded_iff hexUuidCodec (ordersJob 1)
    (consistent_openQueue hexUuidCodec) hreach hret
  refine ⟨s, hreach, hret, hiff.mpr (Or.inl ?_)⟩
  rw [NothingQueued, List.isEmpty_iff.mp hempty]
  exact fun p hp => absurd hp List.not_mem_nil

end SqlOptima.TableMoverRuns
