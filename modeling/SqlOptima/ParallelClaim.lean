import SqlOptima.TableMoverRuns

namespace SqlOptima.ParallelClaim

open SqlOptima.CoreTypes
open SqlOptima.ChunkKeys
open SqlOptima.Queue
open SqlOptima.QueueIndex
open SqlOptima.TableMover
open SqlOptima.TableMoverInvariant
open SqlOptima.TableMoverRuns
open SqlOptima.TransitionSystem

variable {Uuid : Type} (U : UuidCodec Uuid) (job : TableJob Uuid)

/-- The steps of a run in which every claim finds its candidate still PENDING
and no poll for commands fails. -/
def uncontested (s : MoverState Uuid (numWorkers job)) :
    MoveAction Uuid (numWorkers job) → Bool
  | .worker _ (.checkCommand .pollError) => false
  | .worker i (.claim _) =>
      match s.phase with
      | .moving _ ws _ _ =>
          match (ws i).pc with
          | .claiming c => (view U job s.queue c.id).any fun p => p.status = .pending
          | _ => true
      | _ => true
  | _ => true

def Blamed (s : MoverState Uuid (numWorkers job)) : Prop :=
  s.stopped = true ∨ s.chunkFailed = true

def ErrorInv (s : MoverState Uuid (numWorkers job)) : Prop :=
  match s.phase with
  | .moving _ ws ctxDone err =>
      (ctxDone = true ∨ err ≠ none → Blamed job s) ∧
        ∀ i p, (ws i).pc = .failing p → s.chunkFailed = true
  | .returned _ err => err ≠ none → Blamed job s
  | _ => True

theorem claimChunk_of_pending {q : ChunkQueue Uuid} {id : Uuid} {p : ChunkPlan Uuid}
    (hp : view U job q id = some p) (hpend : p.status = .pending) (now : Int)
    (e : QueueError Uuid) : claimChunk U q job.jobID id job.workerID now ≠ .error e := by
  rw [view] at hp
  simp [claimChunk, hp, hpend]

theorem exitError_blamed {ctxDone : Bool} {q q' : ChunkQueue Uuid} {w w' : Worker Uuid}
    {a : WorkerAction} {started : Option Uuid}
    (heff : WorkerEffect U job ctxDone q w a q' w' started)
    (hpoll : a ≠ .checkCommand .pollError)
    (hclaim : ∀ c now, a = .claim now → w.pc = .claiming c →
      ∃ p, view U job q c.id = some p ∧ p.status = .pending)
    (herr : exitError w' ≠ none) :
    exitError w' = some .jobStopped ∨ ctxDone = true ∨ ∃ p, w.pc = .failing p := by
  cases heff with
  | quiet _ _ hpc _ _ =>
      refine absurd ?_ herr
      rw [exitError]
      split
      · rename_i e hexit
        exact absurd hexit (hpc e)
      · rfl
  | checkpoint _ _ _ hpc' =>
      refine absurd ?_ herr
      rcases hpc' with hpc' | hpc' <;> rw [exitError, hpc']
  | exhausted | claimed | claimedPausing | resumed | recorded => exact absurd rfl herr
  | gaveUp e hcause =>
      rcases hcause with rfl | hp | hdone | ⟨c, now, e', ha, hpc, hfails⟩
      · exact Or.inl rfl
      · exact absurd hp hpoll
      · exact Or.inr (Or.inl hdone)
      · obtain ⟨p, hp, hpend⟩ := hclaim c now ha hpc
        exact absurd hfails (claimChunk_of_pending U job hp hpend now e')
  | failed p hpc => exact Or.inr (Or.inr ⟨p, hpc⟩)

theorem uncontested_worker {s : MoverState Uuid (numWorkers job)}
    {plan : List (ChunkPlan Uuid)} {ws : Fin (numWorkers job) → Worker Uuid} {ctxDone : Bool}
    {err : Option (MoveError Uuid)} {i : Fin (numWorkers job)} {a : WorkerAction}
    (hphase : s.phase = .moving plan ws ctxDone err)
    (hok : uncontested U job s (.worker i a) = true) :
    a ≠ .checkCommand .pollError ∧ ∀ c now, a = .claim now → (ws i).pc = .claiming c →
      ∃ p, view U job s.queue c.id = some p ∧ p.status = .pending := by
  constructor
  · rintro rfl
    cases hok
  · rintro c now rfl hpc
    rw [uncontested, hphase] at hok
    simp only [hpc, Option.any_eq_true, decide_eq_true_eq] at hok
    exact hok

theorem failing_of_workerEffect {ctxDone : Bool} {q q' : ChunkQueue Uuid} {w w' : Worker Uuid}
    {a : WorkerAction} {started : Option Uuid}
    (heff : WorkerEffect U job ctxDone q w a q' w' started) {p : ChunkPlan Uuid}
    (hpc : w'.pc = .failing p) : a = .execute false := by
  cases heff with
  | quiet _ _ _ _ hfail => exact hfail p hpc
  | checkpoint _ _ _ hpc' => simp [hpc] at hpc'
  | exhausted | gaveUp | claimed | claimedPausing | resumed | recorded | failed => cases hpc

theorem errorInv_startWorkers (q start base : ChunkQueue Uuid) (executed : List Uuid)
    (stopped chunkFailed : Bool) (plan : List (ChunkPlan Uuid)) :
    ErrorInv job ⟨q, startWorkers job plan, start, base, executed, stopped, chunkFailed⟩ := by
  rw [startWorkers]
  split <;> simp [ErrorInv]

variable [DecidableEq Uuid]

theorem errorInv_step {s t : MoverState Uuid (numWorkers job)}
    {a : MoveAction Uuid (numWorkers job)} (h : ErrorInv job s) (hok : uncontested U job s a = true)
    (hstep : step U job s a = some t) : ErrorInv job t := by
  cases moveStep_of_step U job hstep with
  | resumed plan _ => exact errorInv_startWorkers job _ _ _ _ _ _ plan
  | planned | enqueuedOne | crashed => trivial
  | enqueuedAll plan _ => exact errorInv_startWorkers job _ _ _ _ _ _ plan
  | cancelled plan ws ctxDone err hphase =>
      rw [ErrorInv, hphase] at h
      exact ⟨fun _ => Or.inl rfl, h.2⟩
  | worked plan ws ctxDone err i a q w started hphase heff =>
      rw [ErrorInv, hphase] at h
      obtain ⟨hblamed, hfailing⟩ := h
      obtain ⟨hpoll, hclaim⟩ := uncontested_worker U job hphase hok
      have hexit := exitError_blamed U job heff hpoll hclaim
      refine ⟨?_, ?_⟩
      · intro hor
        by_cases herr : exitError w = none
        · have hold : Blamed job s := hblamed (by simpa [herr] using hor)
          exact hold.imp (fun hs => by simp [hs]) fun hf => by simp [hf]
        · rcases hexit herr with hstop | hdone | ⟨p, hp⟩
          · exact Or.inl (by simp [hstop])
          · exact (hblamed (Or.inl hdone)).imp (fun hs => by simp [hs]) fun hf => by simp [hf]
          · exact Or.inr (by simp [hfailing i p hp])
      · intro j p hp
        rw [Function.update_apply] at hp
        split at hp
        · simp [failing_of_workerEffect U job heff hp]
        · simp [hfailing j p hp]
  | waited plan ws ctxDone err hphase hall =>
      rw [ErrorInv, hphase] at h
      exact fun herr => h.1 (Or.inr herr)

/-- Over every interleaving of the workers, and over restarts, no chunk is
handed to an execution twice; and as long as every claim finds its candidate
still PENDING and no poll fails, a call returns an error only when it was
stopped or a chunk's execution failed. -/
theorem executed_once_and_error_blamed {q₀ : ChunkQueue Uuid} (hq₀ : Consistent U q₀) :
    (∀ s, Reaches (step U job) (initial q₀) s → s.executed.Nodup) ∧
      ∀ s plan e, ReachesBy (step U job) (fun s a => uncontested U job s a = true) (initial q₀) s →
        s.phase = .returned plan (some e) → s.stopped = true ∨ s.chunkFailed = true := by
  refine ⟨fun s hs => (inv_of_reaches U job hq₀ hs).executedOnce, ?_⟩
  intro s plan e hs hret
  have hinv : ErrorInv job s :=
    hs.invariant (P := ErrorInv job) trivial fun _ _ _ => errorInv_step U job
  rw [ErrorInv, hret] at hinv
  exact hinv (by simp)

def lostRace : List (MoveAction HexUuid (numWorkers (ordersJob 2))) :=
  let i : Fin (numWorkers (ordersJob 2)) := ⟨0, by decide⟩
  let j : Fin (numWorkers (ordersJob 2)) := ⟨1, by decide⟩
  [.move (ordersPlan 1 2), .enqueueNext, .enqueueNext, .enqueued,
    .worker i (.checkCommand .proceed), .worker j (.checkCommand .proceed),
    .worker i .list, .worker j .list, .worker i (.claim 0), .worker j (.claim 0),
    .worker i (.execute true), .worker i .recordStatus, .worker i .recordCheckpoint,
    .worker i (.endPause true), .wait]

theorem lostRace_fails :
    ∃ s e, Reaches (step hexUuidCodec (ordersJob 2)) (initial openQueue) s ∧
      s.phase = .returned (ordersPlan 1 2) (some e) ∧
      ¬ (s.stopped = true ∨ s.chunkFailed = true) := by
  have hrun : (runSteps (step hexUuidCodec (ordersJob 2)) (initial openQueue) lostRace).any
      (fun s => decide (s.phase = .returned (ordersPlan 1 2) (some (.claim (.stateTransition
        (cannotClaim hexUuidCodec (.ofDigit 1) .claimed)))) ∧
        ¬ (s.stopped = true ∨ s.chunkFailed = true))) = true := by
    decide +kernel
  obtain ⟨s, hs, hend⟩ := (Option.any_eq_true _ _).mp hrun
  obtain ⟨hret, hnot⟩ := of_decide_eq_true hend
  exact ⟨s, _, reaches_of_runSteps hs, hret, hnot⟩

def failedChunk : List (MoveAction HexUuid (numWorkers (ordersJob 2))) :=
  let i : Fin (numWorkers (ordersJob 2)) := ⟨0, by decide⟩
  let j : Fin (numWorkers (ordersJob 2)) := ⟨1, by decide⟩
  [.move (ordersPlan 1 2), .enqueueNext, .enqueueNext, .enqueued,
    .worker i (.checkCommand .proceed), .worker i .list, .worker i (.claim 0),
    .worker i (.execute false), .worker i .handleFailure,
    .worker j (.checkCommand .contextDone), .wait]

theorem failedChunk_blamed :
    ∃ s e, s.executed.Nodup ∧
      ReachesBy (step hexUuidCodec (ordersJob 2))
        (fun s a => uncontested hexUuidCodec (ordersJob 2) s a = true) (initial openQueue) s ∧
      s.phase = .returned (ordersPlan 1 2) (some e) ∧
      (s.stopped = true ∨ s.chunkFailed = true) := by
  have hrun : (runSteps (guarded (uncontested hexUuidCodec (ordersJob 2))
      (step hexUuidCodec (ordersJob 2))) (initial openQueue) failedChunk).any
      (fun s => decide (s.phase = .returned (ordersPlan 1 2) (some (.chunk 0)))) = true := by
    decide +kernel
  obtain ⟨s, hs, hend⟩ := (Option.any_eq_true _ _).mp hrun
  have hret := of_decide_eq_true hend
  have hreach := reachesBy_of_guarded (reaches_of_runSteps hs)
  obtain ⟨honce, hblamed⟩ := executed_once_and_error_blamed hexUuidCodec (ordersJob 2)
    (consistent_openQueue hexUuidCodec)
  exact ⟨s, _, honce s hreach.reaches, hreach, hret, hblamed s _ _ hreach hret⟩

end SqlOptima.ParallelClaim
