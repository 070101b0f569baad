import SqlOptima.JobDispatch

namespace SqlOptima.StoppedJob

open TransitionSystem
open CommandRow (Command Row ackCommand getCommand writeCommand)
open JobDispatch

section Effects

variable {C P S W : Type} {s t : State C P S W}

/-- The dispatch has not committed its configuration yet. -/
def isUnsaved : DispatchPos C P → Bool
  | .waiting => true
  | .prepared _ => true
  | .loaded _ _ => true
  | _ => false

/-- The dispatch has not committed its START yet. -/
def isUnstarted : DispatchPos C P → Bool
  | .saved _ => true
  | .planned _ => true
  | .merged _ _ => true
  | p => isUnsaved p

/-- What a step does to the durable status. -/
inductive StatusChange (s t : State C P S W) : Prop where
  | same (h : t.status = s.status)
  | ended (h : t.status ∈ terminalStatuses)
  | queued {d : Prepared C P} {loaded : MigrationStatus} (hpos : s.dispatch = .loaded d loaded)
      (hnext : t.dispatch = .saved d) (h : t.status = writeStatus loaded .queued s.status)
  | claimed (hqueued : s.status = .queued) (h : t.status = .running)

def command (s : State C P S W) : Option Command := s.row.map Row.command

theorem command_writeCommand {loaded row : Option Row} {c : Command} {serial : Nat} {r : Row}
    (h : writeCommand loaded row c serial = some r) :
    r.command = c ∨
      (∃ l, loaded = some l ∧ l.command = c) ∧ row.map Row.command = some r.command := by
  cases loaded with
  | none =>
      cases row with
      | none =>
          cases h
          exact .inl rfl
      | some r' => cases h
  | some l =>
      cases row with
      | none => cases h
      | some r' =>
          cases h
          by_cases hl : l.command = c
          · refine .inr ⟨⟨l, rfl, hl⟩, ?_⟩
            simp [hl]
          · exact .inl (if_neg hl)

/-- What a step does to the command in the job's row. -/
inductive CommandChange (s t : State C P S W) : Prop where
  | same (h : command t = command s)
  | stop (h : command t = some .stop)
  | start {d : Prepared C P} {loaded : Option Row} {row : Row} (hpos : s.dispatch = .merged d loaded)
      (hrow : writeCommand loaded s.row .start s.issued = some row) (h : t = issueStart s d row)

/-- Where a step takes the dispatch. -/
structure DispatchChange (s t : State C P S W) : Prop where
  unsaved_of : isUnsaved t.dispatch = true → isUnsaved s.dispatch = true
  unstarted_of : isUnstarted t.dispatch = true → isUnstarted s.dispatch = true
  loaded_of : ∀ d loaded, t.dispatch = .loaded d loaded →
    s.dispatch = .loaded d loaded ∨ isUnsaved s.dispatch = true ∧ loaded = s.status
  merged_of : ∀ d loaded, t.dispatch = .merged d loaded →
    s.dispatch = .merged d loaded ∨ isUnstarted s.dispatch = true ∧ loaded = s.row

theorem dispatchChange_of_eq (h : t.dispatch = s.dispatch) : DispatchChange s t where
  unsaved_of hu := h ▸ hu
  unstarted_of hu := h ▸ hu
  loaded_of _ _ hd := .inl (h ▸ hd)
  merged_of _ _ hd := .inl (h ▸ hd)

theorem outcome_status_mem (o : Outcome) : o.status ∈ terminalStatuses := by
  cases o with
  | completed => decide
  | partialRun => decide
  | failed => decide

variable [DecidableEq S] [DecidableEq W] {a : Action C P S W}

theorem statusChange_of_step (h : step s a = some t) : StatusChange s t := by
  cases transition_of_step h with
  | saveConfig hpos => exact .queued hpos rfl rfl
  | stopPersist hpos =>
      rename_i i loaded
      by_cases hloaded : loaded = .stopped
      · exact .same (if_pos hloaded)
      · apply StatusChange.ended
        change (if loaded = .stopped then s.status else .stopped) ∈ terminalStatuses
        rw [if_neg hloaded]
        decide
  | claim hpos =>
      rename_i w
      by_cases hqueued : s.status = .queued
      · refine .claimed hqueued ?_
        rw [claimQueuedJob, if_pos hqueued]
        rfl
      · apply StatusChange.same
        rw [claimQueuedJob, if_neg hqueued]
  | halt hpos => exact .ended (by simp [setJobStatus, State.workerAt, terminalStatuses])
  | done o hpos => exact .ended (outcome_status_mem o)
  | _ => exact .same rfl

theorem commandChange_of_step (h : step s a = some t) : CommandChange s t := by
  cases transition_of_step h with
  | issueStart hpos hrow => exact .start hpos hrow rfl
  | stopIssue hpos hrow =>
      rcases command_writeCommand hrow with hcommand | ⟨-, hcommand⟩
      · exact .stop (congrArg some hcommand)
      · exact .same hcommand.symm
  | claim hpos =>
      apply CommandChange.same
      rw [claimQueuedJob]
      split
      · rfl
      · rfl
  | act hpos =>
      apply CommandChange.same
      change (ackCommand s.row).map Row.command = s.row.map Row.command
      rw [ackCommand, Option.map_map]
      rfl
  | _ => exact .same rfl

theorem dispatchChange_of_step (h : step s a = some t) : DispatchChange s t := by
  cases transition_of_step h with
  | abort hpos => exact ⟨nofun, nofun, nofun, nofun⟩
  | prepare d hpos => exact ⟨fun _ => by rw [hpos]; rfl, fun _ => by rw [hpos]; rfl, nofun, nofun⟩
  | loadRecord hpos =>
      refine ⟨fun _ => by rw [hpos]; rfl, fun _ => by rw [hpos]; rfl, ?_, nofun⟩
      intro d loaded hd
      cases hd
      exact .inr ⟨by rw [hpos]; rfl, rfl⟩
  | saveConfig hpos => exact ⟨nofun, fun _ => by rw [hpos]; rfl, nofun, nofun⟩
  | rewritePlans hpos => exact ⟨nofun, fun _ => by rw [hpos]; rfl, nofun, nofun⟩
  | mergeStart hpos =>
      refine ⟨nofun, fun _ => by rw [hpos]; rfl, nofun, ?_⟩
      intro d loaded hd
      cases hd
      exact .inr ⟨by rw [hpos]; rfl, rfl⟩
  | issueStart hpos hrow => exact ⟨nofun, nofun, nofun, nofun⟩
  | finish hpos => exact ⟨nofun, nofun, nofun, nofun⟩
  | raise hpos => exact ⟨nofun, nofun, nofun, nofun⟩
  | claim hpos =>
      apply dispatchChange_of_eq
      rw [claimQueuedJob]
      split
      · rfl
      · rfl
  | _ => exact dispatchChange_of_eq rfl

end Effects

section Invariant

variable {C P S W : Type}

/-- Once a stop has been persisted the job is neither queued nor running, no
START took the place of its STOP, and no worker claimed it. -/
structure StoppedNeverRuns (s : State C P S W) : Prop where
  not_queued : s.stopPersisted = true → s.status ≠ .queued
  not_running : s.stopPersisted = true → s.status ≠ .running
  not_replaced : s.stopReplaced = false
  not_claimed : s.claimedAfterStop = false

/-- The stop has written its STOP. -/
def stopIssued : StopPos → Bool
  | .issued => true
  | .loaded _ => true
  | .persisted => true
  | _ => false

structure Inv (s : State C P S W) : Prop where
  safe : StoppedNeverRuns s
  unsaved : isUnsaved s.dispatch = true → s.status ≠ .queued
  loaded : ∀ d loaded, s.dispatch = .loaded d loaded → loaded ≠ .queued
  unstarted : isUnstarted s.dispatch = true → ∀ c, command s = some c → c = .stop
  merged : ∀ d l, s.dispatch = .merged d (some l) → l.command = .stop
  issued : ∀ i, stopIssued (s.stop i) = true → (command s).isSome
  persisted : s.stopPersisted = true → (command s).isSome

theorem inv_registered (plans : List P) : Inv (registered plans : State C P S W) where
  safe := ⟨nofun, nofun, rfl, rfl⟩
  unsaved _ := nofun
  loaded _ _ := nofun
  unstarted _ _ := nofun
  merged _ _ := nofun
  issued _ := nofun
  persisted := nofun

/-- The two commits of the dispatch that a persisted stop has to keep back. -/
def Overtakes (s : State C P S W) (a : Action C P S W) : Prop :=
  s.stopPersisted = true ∧ (a = .saveConfig ∨ a = .issueStart)

variable {s t : State C P S W}

theorem safe_of_ended (h : StoppedNeverRuns s) (hended : t.status ∈ terminalStatuses)
    (hreplaced : t.stopReplaced = s.stopReplaced)
    (hclaimed : t.claimedAfterStop = s.claimedAfterStop) : StoppedNeverRuns t where
  not_queued _ hqueued := by
    rw [hqueued] at hended
    exact absurd hended (by decide)
  not_running _ hrunning := by
    rw [hrunning] at hended
    exact absurd hended (by decide)
  not_replaced := hreplaced.trans h.not_replaced
  not_claimed := hclaimed.trans h.not_claimed

theorem safe_of_not_persisted (hpersisted : t.stopPersisted = false)
    (hreplaced : t.stopReplaced = false) (hclaimed : t.claimedAfterStop = false) :
    StoppedNeverRuns t where
  not_queued h := absurd (hpersisted.symm.trans h) Bool.false_ne_true
  not_running h := absurd (hpersisted.symm.trans h) Bool.false_ne_true
  not_replaced := hreplaced
  not_claimed := hclaimed

variable [DecidableEq S]

theorem issued_of_update (p : StopPos) {i : S} (heq : t.stop = Function.update s.stop i p)
    (hp : stopIssued p = true → stopIssued (s.stop i) = true) (j : S)
    (hissued : stopIssued (t.stop j) = true) : stopIssued (s.stop j) = true := by
  rw [heq, Function.update_apply] at hissued
  split at hissued
  · next hj =>
      rw [hj]
      exact hp hissued
  · exact hissued

theorem safe_persistStopped (h : StoppedNeverRuns s) (i : S) (loaded : MigrationStatus) :
    StoppedNeverRuns (persistStopped s i loaded) := by
  by_cases hloaded : loaded = .stopped
  · have hstatus : (persistStopped s i loaded).status = s.status := if_pos hloaded
    by_cases hstopped : s.status = .stopped
    · refine safe_of_ended h ?_ rfl rfl
      rw [hstatus, hstopped]
      decide
    · have hpersisted : (persistStopped s i loaded).stopPersisted = s.stopPersisted := by
        change (s.stopPersisted || decide ((persistStopped s i loaded).status = .stopped)) = _
        rw [hstatus, decide_eq_false hstopped, Bool.or_false]
      refine ⟨?_, ?_, h.not_replaced, h.not_claimed⟩
      · rw [hpersisted, hstatus]
        exact h.not_queued
      · rw [hpersisted, hstatus]
        exact h.not_running
  · have hstatus : (persistStopped s i loaded).status = .stopped := if_neg hloaded
    refine safe_of_ended h ?_ rfl rfl
    rw [hstatus]
    decide

variable [DecidableEq W] {a : Action C P S W}

theorem unsaved_of_step (h : Inv s) (hstep : step s a = some t)
    (hunsaved : isUnsaved t.dispatch = true) : t.status ≠ .queued := by
  have hbefore := h.unsaved ((dispatchChange_of_step hstep).unsaved_of hunsaved)
  cases statusChange_of_step hstep with
  | same heq => rwa [heq]
  | ended hmem =>
      intro hqueued
      rw [hqueued] at hmem
      exact absurd hmem (by decide)
  | queued hpos hnext heq =>
      rw [hnext] at hunsaved
      exact absurd hunsaved Bool.false_ne_true
  | claimed hqueued heq => exact absurd hqueued hbefore

theorem loaded_of_step (h : Inv s) (hstep : step s a = some t) (d : Prepared C P)
    (loaded : MigrationStatus) (hpos : t.dispatch = .loaded d loaded) : loaded ≠ .queued := by
  rcases (dispatchChange_of_step hstep).loaded_of d loaded hpos with hpos | ⟨hunsaved, rfl⟩
  · exact h.loaded d loaded hpos
  · exact h.unsaved hunsaved

theorem unstarted_of_step (h : Inv s) (hstep : step s a = some t)
    (hunstarted : isUnstarted t.dispatch = true) (c : Command) (hc : command t = some c) :
    c = .stop := by
  have hbefore := h.unstarted ((dispatchChange_of_step hstep).unstarted_of hunstarted)
  cases commandChange_of_step hstep with
  | same heq => exact hbefore c (heq ▸ hc)
  | stop heq =>
      rw [heq, Option.some_inj] at hc
      exact hc.symm
  | start hpos hrow heq =>
      rw [heq] at hunstarted
      exact absurd hunstarted Bool.false_ne_true

theorem merged_of_step (h : Inv s) (hstep : step s a = some t) (d : Prepared C P) (l : Row)
    (hpos : t.dispatch = .merged d (some l)) : l.command = .stop := by
  rcases (dispatchChange_of_step hstep).merged_of d (some l) hpos with hpos | ⟨hunstarted, hrow⟩
  · exact h.merged d l hpos
  · apply h.unstarted hunstarted
    rw [command, ← hrow]
    rfl

theorem isSome_command_of_step (hstep : step s a = some t) (h : (command s).isSome) :
    (command t).isSome := by
  cases commandChange_of_step hstep with
  | same heq => rwa [heq]
  | stop heq => rw [heq]; rfl
  | start hpos hrow heq =>
      rw [heq]
      rfl

theorem issued_of_step (hstep : step s a = some t) (j : S) (hissued : stopIssued (t.stop j) = true) :
    stopIssued (s.stop j) = true ∨ (command t).isSome := by
  cases transition_of_step hstep with
  | stopEnter hpos =>
      refine .inl (issued_of_update _ rfl (fun hp => absurd hp ?_) j hissued)
      split
      · decide
      · decide
  | stopMerge hpos => exact .inl (issued_of_update (.merged s.row) rfl nofun j hissued)
  | stopIssue hpos hrow => exact .inr rfl
  | stopLoad hpos => exact .inl (issued_of_update _ rfl (fun _ => by rw [hpos]; rfl) j hissued)
  | stopPersist hpos => exact .inl (issued_of_update _ rfl (fun _ => by rw [hpos]; rfl) j hissued)
  | stopReturn hpos => exact .inl (issued_of_update .returned rfl nofun j hissued)
  | stopFail i => exact .inl (issued_of_update .failed rfl nofun j hissued)
  | claim hpos =>
      rw [claimQueuedJob] at hissued
      split at hissued
      · exact .inl hissued
      · exact .inl hissued
  | _ => exact .inl hissued

/-- A stop is persisted only by one that has written its STOP. -/
theorem persisted_of_step (hstep : step s a = some t) (hpersisted : t.stopPersisted = true) :
    s.stopPersisted = true ∨ ∃ i, stopIssued (s.stop i) = true := by
  cases transition_of_step hstep with
  | stopPersist hpos => exact .inr ⟨_, by rw [hpos]; rfl⟩
  | claim hpos =>
      rw [claimQueuedJob] at hpersisted
      split at hpersisted
      · exact .inl hpersisted
      · exact .inl hpersisted
  | _ => exact .inl hpersisted

theorem safe_of_step (h : Inv s) (hok : ¬ Overtakes s a) (hstep : step s a = some t) :
    StoppedNeverRuns t := by
  have hnot : a = .saveConfig ∨ a = .issueStart → s.stopPersisted = false := by
    intro ha
    rw [← Bool.not_eq_true]
    exact fun hp => hok ⟨hp, ha⟩
  have hsafe := h.safe
  cases transition_of_step hstep with
  | saveConfig hpos =>
      exact safe_of_not_persisted (hnot (.inl rfl)) hsafe.not_replaced hsafe.not_claimed
  | issueStart hpos hrow =>
      refine safe_of_not_persisted (hnot (.inr rfl)) ?_ hsafe.not_claimed
      change (s.stopReplaced || s.stopPersisted && _) = false
      rw [hnot (.inr rfl), hsafe.not_replaced]
      rfl
  | stopPersist hpos => exact safe_persistStopped hsafe _ _
  | claim hpos =>
      rw [claimQueuedJob]
      split
      · next hqueued =>
          have hp : s.stopPersisted = false := by
            rw [← Bool.not_eq_true]
            exact fun hp => hsafe.not_queued hp hqueued
          refine safe_of_not_persisted hp hsafe.not_replaced ?_
          change (s.claimedAfterStop || s.stopPersisted) = false
          rw [hsafe.not_claimed, hp]
          rfl
      · exact hsafe
  | halt hpos =>
      exact safe_of_ended hsafe (show MigrationStatus.stopped ∈ terminalStatuses by decide) rfl rfl
  | done o hpos => exact safe_of_ended hsafe (outcome_status_mem o) rfl rfl
  | _ => exact ⟨hsafe.not_queued, hsafe.not_running, hsafe.not_replaced, hsafe.not_claimed⟩

theorem inv_of_step (h : Inv s) (hok : ¬ Overtakes s a) (hstep : step s a = some t) : Inv t where
  safe := safe_of_step h hok hstep
  unsaved := unsaved_of_step h hstep
  loaded := loaded_of_step h hstep
  unstarted := unstarted_of_step h hstep
  merged := merged_of_step h hstep
  issued i hissued := by
    rcases issued_of_step hstep i hissued with hbefore | hsome
    · exact isSome_command_of_step hstep (h.issued i hbefore)
    · exact hsome
  persisted hpersisted := by
    rcases persisted_of_step hstep hpersisted with hbefore | ⟨i, hissued⟩
    · exact isSome_command_of_step hstep (h.persisted hbefore)
    · exact isSome_command_of_step hstep (h.issued i hissued)

/-- Each of the two commits undoes a persisted stop: the first queues the job
again, the second writes START over the STOP the stop has written before. -/
theorem not_overtakes_of_safe (h : Inv s) (hstep : step s a = some t) (hsafe : StoppedNeverRuns t) :
    ¬ Overtakes s a := by
  rintro ⟨hpersisted, ha⟩
  cases transition_of_step hstep with
  | saveConfig hpos => exact hsafe.not_queued hpersisted (if_neg (h.loaded _ _ hpos))
  | issueStart hpos hrow =>
      rename_i d loaded row
      obtain ⟨c, hc⟩ := Option.isSome_iff_exists.mp (h.persisted hpersisted)
      have hstop : c = .stop := h.unstarted (by rw [hpos]; rfl) c hc
      obtain ⟨r, hr, hcommand⟩ := Option.map_eq_some_iff.mp hc
      have hstart : row.command = .start := by
        rcases command_writeCommand hrow with hstart | ⟨⟨l, rfl, hl⟩, -⟩
        · exact hstart
        · rw [h.merged d l hpos] at hl
          cases hl
      have hreplaced : (issueStart s d row).stopReplaced = true := by
        change (s.stopReplaced || s.stopPersisted && replacesStop s.row (some row)) = true
        rw [hpersisted, hr, replacesStop]
        simp [hcommand, hstop, hstart]
      exact absurd (hsafe.not_replaced.symm.trans hreplaced) Bool.false_ne_true
  | _ => simp at ha

end Invariant

section Runs

variable {C P S W : Type} [DecidableEq S] [DecidableEq W]

/-- Along a run of one dispatch, any number of stops and any number of workers,
a stopped job never runs exactly when the dispatch commits neither its
configuration nor its START once a stop has been persisted. -/
theorem stoppedNeverRuns_along_run_iff (plans : List P) (as : List (Action C P S W))
    (hrun : (runSteps step (registered plans) as).isSome) :
    (∀ pre s, pre <+: as → runSteps step (registered plans) pre = some s → StoppedNeverRuns s) ↔
      ∀ pre a s, pre ++ [a] <+: as → runSteps step (registered plans) pre = some s →
        ¬ Overtakes s a :=
  along_run_iff (inv_registered plans) (fun _ h => h.safe)
    (fun _ _ _ h hok hstep => inv_of_step h hok hstep)
    (fun _ _ _ h hstep hsafe => not_overtakes_of_safe h hstep hsafe) hrun

def ordersTable : Prepared String String := ⟨"config", id, ["orders"]⟩

/-- The stop comes after the dispatch, and a worker finds nothing to claim. -/
def stopAfterDispatch : List (Action String String Unit Unit) :=
  [.prepare ordersTable, .loadRecord, .saveConfig, .rewritePlans, .mergeStart, .issueStart, .finish,
    .stopEnter (), .stopMerge (), .stopIssue (), .stopLoad (), .stopPersist (), .stopReturn (),
    .claim ()]

theorem stopAfterDispatch_run_iff :
    (∀ pre s, pre <+: stopAfterDispatch →
        runSteps step (registered ["orders"]) pre = some s → StoppedNeverRuns s) ↔
      ∀ pre a s, pre ++ [a] <+: stopAfterDispatch →
        runSteps step (registered ["orders"]) pre = some s → ¬ Overtakes s a :=
  stoppedNeverRuns_along_run_iff ["orders"] stopAfterDispatch (by decide)

/-- The stop lands between the read and the commit of the configuration. -/
def stopWithinDispatch : List (Action String String Unit Unit) :=
  [.prepare ordersTable, .loadRecord, .stopEnter (), .stopMerge (), .stopIssue (), .stopLoad (),
    .stopPersist (), .stopReturn (), .saveConfig, .rewritePlans, .mergeStart, .issueStart, .finish,
    .claim ()]

theorem stopped_job_is_claimed :
    ∃ s, runSteps step (registered ["orders"]) stopWithinDispatch = some s ∧
      ¬ StoppedNeverRuns s ∧ s.stopPersisted = true ∧ s.status = .running ∧
        command s = some .start ∧ s.stopReplaced = true ∧ s.claimedAfterStop = true := by
  have hrun : (runSteps step (registered ["orders"]) stopWithinDispatch).any (fun s =>
      s.stopPersisted && decide (s.status = .running) && decide (command s = some .start) &&
        s.stopReplaced && s.claimedAfterStop) = true := by
    decide
  obtain ⟨s, hs, hfacts⟩ := (Option.any_eq_true _ _).mp hrun
  simp only [Bool.and_eq_true, decide_eq_true_eq] at hfacts
  obtain ⟨⟨⟨⟨hpersisted, hstatus⟩, hcommand⟩, hreplaced⟩, hclaimed⟩ := hfacts
  exact ⟨s, hs, fun h => h.not_running hpersisted hstatus, hpersisted, hstatus, hcommand, hreplaced,
    hclaimed⟩

end Runs

end SqlOptima.StoppedJob
