import SqlOptima.JobDispatch

namespace SqlOptima.DispatchOutcome

open TransitionSystem
open JobDispatch

section Invariant

variable {C P S W : Type}

/-- A queued job has everything its dispatch prepared and its START, and a
dispatch that raised leaves the job failed. -/
structure AllOrNothing (s : State C P S W) : Prop where
  complete : s.status = .queued → s.startCommitted = true ∧
    ∃ d, s.prepared = some d ∧ s.config = some (d.addOptions d.config) ∧ s.plans = d.plans
  failed : s.dispatch = .raised → s.status = .failed

/-- The dispatch has not written anything yet. -/
def hasNotWritten : DispatchPos C P → Bool
  | .waiting => true
  | .prepared _ => true
  | .loaded _ _ => true
  | .aborted => true
  | _ => false

structure Inv (s : State C P S W) : Prop where
  dispatch : hasNotWritten s.dispatch = true
  status : s.status = .pending ∨ s.status = .stopped
  loaded : ∀ d loaded, s.dispatch = .loaded d loaded → loaded ≠ .queued
  workers : ∀ w, s.worker w = .idle
  start : s.startCommitted = false

theorem inv_registered (plans : List P) : Inv (registered plans : State C P S W) where
  dispatch := rfl
  status := .inl rfl
  loaded _ _ := nofun
  workers _ := rfl
  start := rfl

variable {s t : State C P S W}

theorem Inv.not_queued (h : Inv s) : s.status ≠ .queued := by
  rcases h.status with hstatus | hstatus
  · rw [hstatus]
    decide
  · rw [hstatus]
    decide

theorem allOrNothing_of_inv (h : Inv s) : AllOrNothing s where
  complete hqueued := absurd hqueued h.not_queued
  failed hraised := by
    have hdispatch := h.dispatch
    rw [hraised] at hdispatch
    exact absurd hdispatch Bool.false_ne_true

/-- What keeps the rows of the job and its workers keeps the invariant. -/
theorem Inv.of_rows (h : Inv s) (hstatus : t.status = s.status) (hworker : t.worker = s.worker)
    (hstart : t.startCommitted = s.startCommitted) (hdispatch : t.dispatch = s.dispatch) :
    Inv t where
  dispatch := hdispatch ▸ h.dispatch
  status := hstatus ▸ h.status
  loaded d loaded hpos := h.loaded d loaded (hdispatch ▸ hpos)
  workers w := hworker ▸ h.workers w
  start := hstart.trans h.start

/-- The dispatch commits its configuration or raises. -/
def Ends (a : Action C P S W) : Prop := a = .saveConfig ∨ a = .raise

variable [DecidableEq S]

theorem inv_persistStopped (h : Inv s) (i : S) (loaded : MigrationStatus) :
    Inv (persistStopped s i loaded) where
  dispatch := h.dispatch
  status := by
    change writeStatus loaded .stopped s.status = .pending ∨
      writeStatus loaded .stopped s.status = .stopped
    rw [writeStatus]
    split
    · exact h.status
    · exact .inr rfl
  loaded := h.loaded
  workers := h.workers
  start := h.start

variable [DecidableEq W] {a : Action C P S W}

theorem inv_of_step (h : Inv s) (hok : ¬ Ends a) (hstep : step s a = some t) : Inv t := by
  have hpos_of : ∀ p, s.dispatch = p → hasNotWritten p = true := fun p hp => hp ▸ h.dispatch
  cases transition_of_step hstep with
  | abort hpos => exact ⟨rfl, h.status, nofun, h.workers, h.start⟩
  | prepare d hpos => exact ⟨rfl, h.status, nofun, h.workers, h.start⟩
  | loadRecord hpos =>
      refine ⟨rfl, h.status, ?_, h.workers, h.start⟩
      intro d loaded hd
      cases hd
      exact h.not_queued
  | saveConfig hpos => exact absurd (.inl rfl) hok
  | rewritePlans hpos => exact absurd (hpos_of _ hpos) Bool.false_ne_true
  | mergeStart hpos => exact absurd (hpos_of _ hpos) Bool.false_ne_true
  | issueStart hpos hrow => exact absurd (hpos_of _ hpos) Bool.false_ne_true
  | finish hpos => exact absurd (hpos_of _ hpos) Bool.false_ne_true
  | raise hpos => exact absurd (.inr rfl) hok
  | stopPersist hpos => exact inv_persistStopped h _ _
  | claim hpos =>
      rw [claimQueuedJob, if_neg h.not_queued]
      exact h
  | pollNone hpos => exact h
  | poll hpos => exact nomatch (h.workers _).symm.trans hpos
  | act hpos => exact nomatch (h.workers _).symm.trans hpos
  | halt hpos => exact nomatch (h.workers _).symm.trans hpos
  | done o hpos => exact nomatch (h.workers _).symm.trans hpos
  | _ => exact h.of_rows rfl rfl rfl rfl

/-- The first commit queues the job before its plans and its START are there, and
an exception leaves the durable status as it is. -/
theorem not_ends_of_allOrNothing (h : Inv s) (hstep : step s a = some t) (ht : AllOrNothing t) :
    ¬ Ends a := by
  rintro (rfl | rfl)
  · cases transition_of_step hstep with
    | saveConfig hpos =>
        have hstart := (ht.complete (if_neg (h.loaded _ _ hpos))).1
        exact absurd (h.start.symm.trans hstart) Bool.false_ne_true
  · cases transition_of_step hstep with
    | raise hpos =>
        have hfailed : s.status = .failed := ht.failed rfl
        rcases h.status with hstatus | hstatus
        · exact nomatch hstatus.symm.trans hfailed
        · exact nomatch hstatus.symm.trans hfailed

end Invariant

section Runs

variable {C P S W : Type} [DecidableEq S] [DecidableEq W]

/-- Along a run a dispatch is all or nothing exactly as long as it neither
commits its configuration nor raises. -/
theorem allOrNothing_along_run_iff (plans : List P) (as : List (Action C P S W))
    (hrun : (runSteps step (registered plans) as).isSome) :
    (∀ pre s, pre <+: as → runSteps step (registered plans) pre = some s → AllOrNothing s) ↔
      .saveConfig ∉ as ∧ .raise ∉ as := by
  refine (along_run_iff (inv_registered plans) (fun _ => allOrNothing_of_inv)
    (fun _ _ _ h hok hstep => inv_of_step h hok hstep)
    (fun _ _ _ h hstep ht => not_ends_of_allOrNothing h hstep ht) hrun).trans
      ((along_labels_iff hrun).trans ?_)
  constructor
  · intro h
    exact ⟨fun hmem => h _ hmem (.inl rfl), fun hmem => h _ hmem (.inr rfl)⟩
  · rintro ⟨hsave, hraise⟩ a ha (rfl | rfl)
    · exact hsave ha
    · exact hraise ha

def twoTables : Prepared String String :=
  ⟨"config", fun config => config ++ " finalize", ["orders", "customers"]⟩

/-- The dispatch is still at work while a stop comes and goes. -/
def stillPreparing : List (Action String String Unit Unit) :=
  [.prepare twoTables, .loadRecord, .stopEnter (), .stopMerge (), .stopIssue (), .claim ()]

theorem stillPreparing_run_iff :
    (∀ pre s, pre <+: stillPreparing →
        runSteps step (registered ["orders", "customers"]) pre = some s → AllOrNothing s) ↔
      .saveConfig ∉ stillPreparing ∧ .raise ∉ stillPreparing :=
  allOrNothing_along_run_iff ["orders", "customers"] stillPreparing (by decide)

/-- The rewrite of the plans fails after the first commit. -/
def failsAfterSave : List (Action String String Unit Unit) :=
  [.prepare twoTables, .loadRecord, .saveConfig, .raise]

/-- The provisioning of the target fails. -/
def failsBeforeSave : List (Action String String Unit Unit) := [.raise]

theorem half_dispatched_job_is_claimable :
    (∃ s, runSteps step (registered ["orders"]) failsAfterSave = some s ∧ ¬ AllOrNothing s ∧
        s.dispatch = .raised ∧ s.status = .queued ∧ s.startCommitted = false ∧
          s.plans = ["orders"]) ∧
      ∃ s, runSteps step (registered ["orders"]) failsBeforeSave = some s ∧ ¬ AllOrNothing s ∧
        s.dispatch = .raised ∧ s.status = .pending := by
  refine ⟨⟨_, rfl, ?_, rfl, rfl, rfl, rfl⟩, ⟨_, rfl, ?_, rfl, rfl⟩⟩
  · intro h
    exact nomatch h.failed rfl
  · intro h
    exact nomatch h.failed rfl

end Runs

end SqlOptima.DispatchOutcome
