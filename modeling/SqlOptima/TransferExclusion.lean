import SqlOptima.TransferOverlap

namespace SqlOptima.TransferExclusion

open CommandRow (Command)
open StrandedTransfers (Owned nextStatus_ne_queued owned_of_effect)
open TransferDispatch (tableKey)
open TransferLifecycle (Action Effect Position TransferStatus effect_of_step status_ackCommand
  status_issueCommand status_setJobStatus status_write)
open TransferOverlap
open TransferPreflight (PythonText)
open TransitionSystem (ReachesBy guarded reachesBy_of_guarded reaches_of_runSteps runSteps)

section Counting

variable {J W C : Type} {s t u : TransferLifecycle.State J W C} {w : W} {j : J}

/-- No worker gets a job. -/
structure KeepsJobs (s t : TransferLifecycle.State J W C) : Prop where
  holder : ∀ v k, t.holder v = some k → s.holder v = some k
  atWork : ∀ v k, t.atWork v = some k → s.atWork v = some k

/-- After a step the jobs count still, and who is at work was so before or has claimed its job. -/
structure Follows (s t : TransferLifecycle.State J W C) : Prop where
  counted : Counted t
  begun : ∀ v k, t.atWork v = some k → s.atWork v = some k ∨ s.status k = some .queued

theorem holder_of_atWork (h : s.atWork w = some j) : s.holder w = some j := by
  unfold TransferLifecycle.State.atWork at h
  unfold TransferLifecycle.State.holder
  cases hw : s.worker w with
  | idle => rw [hw] at h; cases h
  | listed jobs => rw [hw] at h; cases h
  | leaving k => rw [hw] at h; cases h
  | loading k => rwa [hw] at h
  | working k => rwa [hw] at h
  | reading k c => rwa [hw] at h
  | paused k => rwa [hw] at h
  | pausedReading k c => rwa [hw] at h

theorem keepsJobs_of_worker (h : t.worker = s.worker) : KeepsJobs s t := by
  constructor
  · intro v k hv
    rwa [TransferLifecycle.State.holder, h] at hv
  · intro v k hv
    rwa [TransferLifecycle.State.atWork, h] at hv

theorem follows_of_same (hstatus : t.status = s.status) (hkeep : KeepsJobs s t)
    (h : Counted s) : Follows s t := by
  refine ⟨⟨fun v k hv => ?_, fun v k hv => ?_⟩, fun v k hv => .inl (hkeep.atWork v k hv)⟩
  · rw [hstatus]
    exact h.active v k (hkeep.atWork v k hv)
  · rw [hstatus]
    exact h.not_stopped v k (hkeep.holder v k hv)

theorem keepsJobs_move [DecidableEq W] (hworker : u.worker = s.worker) {p : Position J}
    (hjob : ∀ k, p.job = some k → s.holder w = some k)
    (hwork : ∀ k, p.atWork = some k → s.atWork w = some k) : KeepsJobs s (u.move w p) := by
  have hmove : (u.move w p).worker = Function.update s.worker w p := by
    rw [← hworker]
    rfl
  constructor
  · intro v k hv
    rw [TransferLifecycle.State.holder, hmove] at hv
    by_cases hvw : v = w
    · rw [hvw, Function.update_self] at hv
      exact hvw ▸ hjob k hv
    · rwa [Function.update_of_ne hvw] at hv
  · intro v k hv
    rw [TransferLifecycle.State.atWork, hmove] at hv
    by_cases hvw : v = w
    · rw [hvw, Function.update_self] at hv
      exact hvw ▸ hwork k hv
    · rwa [Function.update_of_ne hvw] at hv

theorem keepsJobs_at_work [DecidableEq W] (hworker : u.worker = s.worker)
    (hw : s.atWork w = some j) {p : Position J} (hp : p.job = some j)
    (hp' : p.atWork = some j) : KeepsJobs s (u.move w p) := by
  refine keepsJobs_move hworker ?_ ?_
  · rw [hp]
    rintro k ⟨⟩
    exact holder_of_atWork hw
  · rw [hp']
    rintro k ⟨⟩
    exact hw

theorem lands_of_stopsFree {lands : Bool} (hw : s.holder w = some j)
    (h : ∀ k ∈ (if lands then some j else none), ∀ w, s.holder w ≠ some k) : lands = false := by
  cases lands with
  | false => rfl
  | true => exact absurd hw (h j rfl w)

/-- A worker moves on with the job it has, or without one. -/
theorem follows_of_move [DecidableEq W] {p : Position J}
    (hjob : ∀ k, p.job = some k → s.holder w = some k)
    (hwork : ∀ k, p.atWork = some k → s.atWork w = some k) (h : Counted s) :
    Follows s (s.move w p) :=
  follows_of_same rfl (keepsJobs_move rfl hjob hwork) h

section Statuses

variable [DecidableEq J]

theorem worker_write (u : TransferLifecycle.State J W C) (j : J) (status : TransferStatus)
    (lands : Bool) : (u.write j status lands).worker = u.worker := by
  cases lands <;> rfl

/-- A status that counts is written. -/
theorem follows_of_write {status : TransferStatus}
    (hstatus : t.status = Function.update s.status j ((s.status j).map fun _ => status))
    (hactive : status ∈ activeStatuses) (hkeep : KeepsJobs s t) (h : Counted s) :
    Follows s t := by
  refine ⟨⟨fun v k hv => ?_, fun v k hv => ?_⟩, fun v k hv => .inl (hkeep.atWork v k hv)⟩
  · obtain ⟨old, hold, hk⟩ := h.active v k (hkeep.atWork v k hv)
    rw [hstatus]
    by_cases hkj : k = j
    · subst hkj
      exact ⟨status, hactive, by rw [Function.update_self, hk]; rfl⟩
    · exact ⟨old, hold, by rw [Function.update_of_ne hkj, hk]⟩
  · rw [hstatus]
    by_cases hkj : k = j
    · rw [hkj, Function.update_self]
      intro hstopped
      obtain ⟨-, -, rfl⟩ := Option.map_eq_some_iff.mp hstopped
      exact absurd hactive (by decide)
    · rw [Function.update_of_ne hkj]
      exact h.not_stopped v k (hkeep.holder v k hv)

/-- Any status is written to a job that no worker has. -/
theorem follows_of_free {status : Option TransferStatus}
    (hstatus : t.status = Function.update s.status j status) (hfree : ¬ s.Held j)
    (hkeep : KeepsJobs s t) (h : Counted s) : Follows s t := by
  have hne : ∀ v k, t.holder v = some k → k ≠ j := fun v k hv hkj =>
    hfree ⟨v, hkj ▸ hkeep.holder v k hv⟩
  refine ⟨⟨fun v k hv => ?_, fun v k hv => ?_⟩, fun v k hv => .inl (hkeep.atWork v k hv)⟩
  · rw [hstatus, Function.update_of_ne (hne v k (holder_of_atWork hv))]
    exact h.active v k (hkeep.atWork v k hv)
  · rw [hstatus, Function.update_of_ne (hne v k hv)]
    exact h.not_stopped v k (hkeep.holder v k hv)

variable [DecidableEq W]

/-- A worker at work writes a status that counts. -/
theorem follows_of_keep (hstatus : u.status = s.status) (hworker : u.worker = s.worker)
    (hw : s.atWork w = some j) {status : TransferStatus} {lands : Bool}
    (hactive : lands = true → status ∈ activeStatuses) {p : Position J} (hp : p.job = some j)
    (hp' : ∀ k, p.atWork = some k → k = j) (h : Counted s) :
    Follows s ((u.write j status lands).move w p) := by
  have hkeep : KeepsJobs s ((u.write j status lands).move w p) := by
    refine keepsJobs_move ((worker_write u j status lands).trans hworker) ?_ ?_
    · rw [hp]
      rintro k ⟨⟩
      exact holder_of_atWork hw
    · intro k hk
      rw [hp' k hk, hw]
  have hwrite : ((u.write j status lands).move w p).status = _ := status_write u j status lands
  rw [hstatus] at hwrite
  cases lands with
  | true => exact follows_of_write hwrite (hactive rfl) hkeep h
  | false => exact follows_of_same hwrite hkeep h

/-- A worker writes the last status and only restores the constraints from there on. -/
theorem follows_of_last (howned : Owned s) (hw : s.holder w = some j) {status : TransferStatus}
    {lands : Bool} (hne : status ≠ .stopped) (h : Counted s) :
    Follows s ((s.write j status lands).move w (.leaving j)) := by
  have hkeep : KeepsJobs s ((s.write j status lands).move w (.leaving j)) := by
    refine keepsJobs_move (worker_write s j status lands) ?_ ?_
    · rintro k ⟨⟩
      exact hw
    · rintro k ⟨⟩
  have hwrite : ((s.write j status lands).move w (.leaving j)).status = _ :=
    status_write s j status lands
  cases lands with
  | false => exact follows_of_same hwrite hkeep h
  | true =>
      rw [if_pos rfl] at hwrite
      refine ⟨⟨fun v k hv => ?_, fun v k hv => ?_⟩, fun v k hv => .inl (hkeep.atWork v k hv)⟩
      · have hkj : k ≠ j := by
          rintro rfl
          have hvw := howned.unique v w k (holder_of_atWork (hkeep.atWork v k hv)) hw
          have hidle : ((s.write k status true).move w (.leaving k)).atWork w = none := by
            simp [TransferLifecycle.State.atWork, TransferLifecycle.State.move, Position.atWork]
          rw [hvw, hidle] at hv
          cases hv
        rw [hwrite, Function.update_of_ne hkj]
        exact h.active v k (hkeep.atWork v k hv)
      · rw [hwrite]
        by_cases hkj : k = j
        · rw [hkj, Function.update_self]
          intro hstopped
          obtain ⟨-, -, heq⟩ := Option.map_eq_some_iff.mp hstopped
          exact hne heq
        · rw [Function.update_of_ne hkj]
          exact h.not_stopped v k (hkeep.holder v k hv)

/-- A worker that reads a stop cannot record it, since it has the job. -/
theorem follows_of_stop (hstatus : u.status = s.status) (hworker : u.worker = s.worker)
    (hw : s.atWork w = some j) {lands ends : Bool} (hstop : lands = false) (h : Counted s) :
    Follows s ((u.write j .stopped lands).move w (if ends then .leaving j else .working j)) := by
  refine follows_of_keep hstatus hworker hw (fun hl => absurd (hstop.symm.trans hl) (by decide))
    ?_ ?_ h
  · cases ends <;> rfl
  · cases ends with
    | true => rintro k ⟨⟩
    | false =>
        rintro k ⟨⟩
        rfl

theorem follows_handle (h : Counted s) {c : Command} {acked lands ends : Bool}
    (hw : s.worker w = .reading j c) (hstop : StopsFree s (.act w acked lands ends)) :
    Follows s ((s.ackCommand j acked).handle w j c lands ends) := by
  have hstatus := status_ackCommand s j acked
  have hwork : s.atWork w = some j := by rw [TransferLifecycle.State.atWork, hw, Position.atWork]
  have hheld := holder_of_atWork hwork
  simp only [StopsFree, stopRecorded, hw] at hstop
  cases c with
  | stop => exact follows_of_stop hstatus rfl hwork (lands_of_stopsFree hheld hstop) h
  | cancel => exact follows_of_stop hstatus rfl hwork (lands_of_stopsFree hheld hstop) h
  | pause =>
      exact follows_of_keep hstatus rfl hwork (fun _ => by decide) rfl (by rintro k ⟨⟩; rfl) h
  | resume =>
      exact follows_of_keep hstatus rfl hwork (fun _ => by decide) rfl (by rintro k ⟨⟩; rfl) h
  | start =>
      have hworking : KeepsJobs s ((s.ackCommand j acked).move w (.working j)) :=
        keepsJobs_at_work (s := s) (u := s.ackCommand j acked) rfl hwork rfl rfl
      exact follows_of_same hstatus hworking h

theorem follows_handlePaused (h : Counted s) {c : Command} {acked lands ends : Bool}
    (hw : s.worker w = .pausedReading j c) (hstop : StopsFree s (.act w acked lands ends)) :
    Follows s ((s.ackCommand j acked).handlePaused w j c lands ends) := by
  have hstatus := status_ackCommand s j acked
  have hwork : s.atWork w = some j := by rw [TransferLifecycle.State.atWork, hw, Position.atWork]
  have hheld := holder_of_atWork hwork
  have hpaused : KeepsJobs s ((s.ackCommand j acked).move w (.paused j)) :=
    keepsJobs_at_work (s := s) (u := s.ackCommand j acked) rfl hwork rfl rfl
  simp only [StopsFree, stopRecorded, hw] at hstop
  cases c with
  | stop => exact follows_of_stop hstatus rfl hwork (lands_of_stopsFree hheld hstop) h
  | cancel => exact follows_of_stop hstatus rfl hwork (lands_of_stopsFree hheld hstop) h
  | resume =>
      exact follows_of_keep hstatus rfl hwork (fun _ => by decide) rfl (by rintro k ⟨⟩; rfl) h
  | pause => exact follows_of_same hstatus hpaused h
  | start => exact follows_of_same hstatus hpaused h

theorem follows_of_claim (hqueued : s.status j = some .queued) (h : Counted s) :
    Follows s ((s.setJobStatus j .running).move w (.loading j)) := by
  have hstatus := status_setJobStatus s j .running
  rw [hqueued] at hstatus
  have hworker : ((s.setJobStatus j .running).move w (.loading j)).worker =
      Function.update s.worker w (.loading j) := rfl
  have hrunning : ∀ k, ((s.setJobStatus j .running).move w (.loading j)).status k =
      if k = j then some .running else s.status k := by
    intro k
    change (s.setJobStatus j .running).status k = _
    rw [hstatus, Function.update_apply]
    rfl
  refine ⟨⟨fun v k hv => ?_, fun v k hv => ?_⟩, fun v k hv => ?_⟩
  · rw [hrunning]
    split
    · exact ⟨.running, by decide, rfl⟩
    · next hkj =>
        rw [TransferLifecycle.State.atWork, hworker] at hv
        by_cases hvw : v = w
        · rw [hvw, Function.update_self] at hv
          exact absurd (Option.some.inj hv).symm hkj
        · rw [Function.update_of_ne hvw] at hv
          exact h.active v k hv
  · rw [hrunning]
    split
    · exact fun heq => absurd heq (by decide)
    · next hkj =>
        rw [TransferLifecycle.State.holder, hworker] at hv
        by_cases hvw : v = w
        · rw [hvw, Function.update_self] at hv
          exact absurd (Option.some.inj hv).symm hkj
        · rw [Function.update_of_ne hvw] at hv
          exact h.not_stopped v k hv
  · rw [TransferLifecycle.State.atWork, hworker] at hv
    by_cases hvw : v = w
    · rw [hvw, Function.update_self] at hv
      exact .inr (Option.some.inj hv ▸ hqueued)
    · rw [Function.update_of_ne hvw] at hv
      exact .inl hv

end Statuses

section Steps

variable [DecidableEq J] [DecidableEq W] [DecidableEq C]

theorem follows_of_step (howned : Owned s) (h : Counted s) {a : Action J W C}
    (hstop : StopsFree s a) (hstep : TransferLifecycle.step s a = some t) : Follows s t := by
  cases a with
  | create c j =>
      simp only [TransferLifecycle.step] at hstep
      split at hstep
      · next hcall hjob =>
          obtain rfl := Option.some.inj hstep
          have hfree : ¬ s.Held j := by
            rintro ⟨w, hw⟩
            have hsome := (howned.claimed w j hw).1
            rw [TransferLifecycle.State.status, hjob] at hsome
            cases hsome
          refine follows_of_free (?_ : _ = Function.update s.status j (some .queued)) hfree
            (keepsJobs_of_worker rfl) h
          funext k
          unfold TransferLifecycle.State.status TransferLifecycle.State.setCall
          by_cases hk : k = j
          · subst hk
            simp
          · simp [hk]
      · cases hstep
  | request c r j =>
      simp only [TransferLifecycle.step] at hstep
      split at hstep
      · next job hcall hjob =>
          obtain rfl := Option.some.inj hstep
          split
          · exact follows_of_same rfl (keepsJobs_of_worker rfl) h
          · exact follows_of_same rfl (keepsJobs_of_worker rfl) h
      · cases hstep
  | merge c =>
      simp only [TransferLifecycle.step] at hstep
      split at hstep
      · next r j hcall =>
          obtain rfl := Option.some.inj hstep
          exact follows_of_same rfl (keepsJobs_of_worker rfl) h
      · cases hstep
  | issue c =>
      simp only [TransferLifecycle.step] at hstep
      split at hstep
      · next r j loaded hcall =>
          obtain rfl := Option.some.inj hstep
          cases s.flushed j (TransferLifecycle.commandOf r) loaded with
          | none => exact follows_of_same rfl (keepsJobs_of_worker rfl) h
          | some row =>
              exact follows_of_same (status_issueCommand s j row) (keepsJobs_of_worker rfl) h
      · cases hstep
  | settle c =>
      simp only [TransferLifecycle.step] at hstep
      split at hstep
      · next r j hcall =>
          obtain rfl := Option.some.inj hstep
          have hstatus := status_setJobStatus s j r.nextStatus
          cases r with
          | stop =>
              have hfree : ¬ s.Held j := by
                rintro ⟨w, hw⟩
                exact hstop j (by rw [stopRecorded, hcall]; rfl) w hw
              exact follows_of_free hstatus hfree (keepsJobs_of_worker rfl) h
          | pause => exact follows_of_write hstatus (by decide) (keepsJobs_of_worker rfl) h
          | resume => exact follows_of_write hstatus (by decide) (keepsJobs_of_worker rfl) h
      · cases hstep
  | list w =>
      simp only [TransferLifecycle.step] at hstep
      split at hstep
      · next hw =>
          obtain rfl := Option.some.inj hstep
          exact follows_of_move (by rintro k ⟨⟩) (by rintro k ⟨⟩) h
      · cases hstep
  | claim w =>
      simp only [TransferLifecycle.step] at hstep
      split at hstep
      · next hw =>
          obtain rfl := Option.some.inj hstep
          exact follows_of_move (by rintro k ⟨⟩) (by rintro k ⟨⟩) h
      · next j rest hw =>
          obtain rfl := Option.some.inj hstep
          split
          · next hqueued => exact follows_of_claim hqueued h
          · exact follows_of_move (by rintro k ⟨⟩) (by rintro k ⟨⟩) h
      · cases hstep
  | giveUp w =>
      simp only [TransferLifecycle.step] at hstep
      split at hstep
      · next rest hw =>
          obtain rfl := Option.some.inj hstep
          exact follows_of_move (by rintro k ⟨⟩) (by rintro k ⟨⟩) h
      · cases hstep
  | load w ok =>
      simp only [TransferLifecycle.step] at hstep
      split at hstep
      · next j hw =>
          obtain rfl := Option.some.inj hstep
          have hwork : s.atWork w = some j := by
            rw [TransferLifecycle.State.atWork, hw, Position.atWork]
          refine follows_of_move ?_ ?_ h
          · cases ok with
            | true => rintro k ⟨⟩; exact holder_of_atWork hwork
            | false => rintro k ⟨⟩; exact holder_of_atWork hwork
          · cases ok with
            | true => rintro k ⟨⟩; exact hwork
            | false => rintro k ⟨⟩
      · cases hstep
  | check w =>
      have hmove : ∀ {j : J} {p : Position J}, s.atWork w = some j → p.job = some j →
          p.atWork = some j → Follows s (s.move w p) := by
        intro j p hwork hp hp'
        exact follows_of_same rfl (keepsJobs_at_work rfl hwork hp hp') h
      simp only [TransferLifecycle.step] at hstep
      split at hstep
      · next j hw =>
          obtain rfl := Option.some.inj hstep
          have hwork : s.atWork w = some j := by
            rw [TransferLifecycle.State.atWork, hw, Position.atWork]
          cases s.getCommand j with
          | none => exact follows_of_same rfl (keepsJobs_of_worker rfl) h
          | some c => exact hmove hwork rfl rfl
      · next j hw =>
          obtain rfl := Option.some.inj hstep
          have hwork : s.atWork w = some j := by
            rw [TransferLifecycle.State.atWork, hw, Position.atWork]
          cases s.getCommand j with
          | none => exact follows_of_same rfl (keepsJobs_of_worker rfl) h
          | some c => exact hmove hwork rfl rfl
      · cases hstep
  | act w acked lands ends =>
      simp only [TransferLifecycle.step] at hstep
      split at hstep
      · next j c hw =>
          obtain rfl := Option.some.inj hstep
          exact follows_handle h hw hstop
      · next j c hw =>
          obtain rfl := Option.some.inj hstep
          exact follows_handlePaused h hw hstop
      · cases hstep
  | setStatus w preparing lands =>
      simp only [TransferLifecycle.step] at hstep
      split at hstep
      · next j hw =>
          obtain rfl := Option.some.inj hstep
          have hwork : s.atWork w = some j := by
            rw [TransferLifecycle.State.atWork, hw, Position.atWork]
          have hactive : (if preparing then TransferStatus.preparing else .running) ∈
              activeStatuses := by
            cases preparing <;> decide
          exact follows_of_keep rfl rfl hwork (fun _ => hactive) rfl (by rintro k ⟨⟩; rfl) h
      · cases hstep
  | finish w completed lands =>
      simp only [TransferLifecycle.step] at hstep
      split at hstep
      · next j hw =>
          obtain rfl := Option.some.inj hstep
          refine follows_of_last howned ?_ ?_ h
          · rw [TransferLifecycle.State.holder, hw, Position.job]
          · cases completed <;> decide
      · next j hw =>
          obtain rfl := Option.some.inj hstep
          refine follows_of_last howned ?_ (by decide) h
          rw [TransferLifecycle.State.holder, hw, Position.job]
      · cases hstep
  | leave w =>
      simp only [TransferLifecycle.step] at hstep
      split at hstep
      · next j hw =>
          obtain rfl := Option.some.inj hstep
          exact follows_of_move (by rintro k ⟨⟩) (by rintro k ⟨⟩) h
      · cases hstep

end Steps

end Counting

section Claims

variable {J W C : Type} [DecidableEq J] [DecidableEq W] {s t : TransferLifecycle.State J W C}
  {recorded left : Option J} {j : J}

/-- A job that a worker is at work on or will claim. -/
def Live (s : TransferLifecycle.State J W C) (j : J) : Prop :=
  s.status j = some .queued ∨ ∃ w, s.atWork w = some j

theorem isSome_update {old : J → Option TransferStatus} (k : J) (status : TransferStatus)
    (h : (old j).isSome) :
    (Function.update old k ((old k).map fun _ => status) j).isSome := by
  by_cases hk : j = k
  · subst hk
    simpa using h
  · simpa [hk] using h

theorem isSome_of_effect (h : (s.status j).isSome) (he : Effect s t recorded left) :
    (t.status j).isSome := by
  cases he with
  | same hstatus hholder => rwa [hstatus]
  | @created k hnew hstatus hholder =>
      rw [hstatus]
      by_cases hk : j = k
      · simp [hk]
      · rwa [Function.update_of_ne hk]
  | worked hw hne hstatus hholder =>
      rw [hstatus]
      exact isSome_update _ _ h
  | settled hstatus hholder =>
      rw [hstatus]
      exact isSome_update _ _ h
  | @claimed w k hqueued hw hstatus hholder =>
      rw [hstatus]
      by_cases hk : j = k
      · simp [hk]
      · rwa [Function.update_of_ne hk]
  | released hw hstatus hholder => rwa [hstatus]

/-- A status other than queued is written, or none. -/
theorem queued_of_update {old : J → Option TransferStatus} {k : J} {status : TransferStatus}
    (hne : status ≠ .queued)
    (h : Function.update old k ((old k).map fun _ => status) j = some .queued) :
    old j = some .queued := by
  by_cases hk : j = k
  · subst hk
    rw [Function.update_self, Option.map_eq_some_iff] at h
    obtain ⟨-, -, hq⟩ := h
    exact absurd hq hne
  · rwa [Function.update_of_ne hk] at h

/-- No step but its creation brings a job into the queue. -/
theorem queued_of_effect (hsome : (s.status j).isSome) (he : Effect s t recorded left)
    (h : t.status j = some .queued) : s.status j = some .queued := by
  cases he with
  | same hstatus hholder => rwa [hstatus] at h
  | @created k hnew hstatus hholder =>
      have hk : j ≠ k := fun hk => by
        rw [hk, hnew] at hsome
        cases hsome
      rwa [hstatus, Function.update_of_ne hk] at h
  | worked hw hne hstatus hholder =>
      rw [hstatus] at h
      exact queued_of_update hne h
  | @settled r k hstatus hholder =>
      rw [hstatus] at h
      exact queued_of_update (nextStatus_ne_queued r) h
  | @claimed w k hqueued hw hstatus hholder =>
      rw [hstatus] at h
      by_cases hk : j = k
      · rw [hk, Function.update_self] at h
        cases h
      · rwa [Function.update_of_ne hk] at h
  | released hw hstatus hholder => rwa [hstatus] at h

/-- Nor into play. -/
theorem live_of_step (hsome : (s.status j).isSome) (he : Effect s t recorded left)
    (hf : Follows s t) (h : Live t j) : Live s j := by
  rcases h with h | ⟨w, hw⟩
  · exact .inl (queued_of_effect hsome he h)
  · exact (hf.begun w j hw).symm.imp id fun hw => ⟨w, hw⟩

end Claims

section Runs

variable {J W C K T : Type}

section Requests

variable (denotes : K → Target → T)

/-- Two requests name no common table. -/
def Apart (r r' : JobRequest K) : Prop :=
  ∀ m ∈ r.tables, ∀ n ∈ r'.tables, denotes r.target m ≠ denotes r'.target n

structure Inv (jobs : TransferLifecycle.State J W C) (plans : List (J × JobRequest K)) :
    Prop where
  owned : Owned jobs
  counted : Counted jobs
  recorded : ∀ p ∈ plans, (jobs.status p.1).isSome
  apart : ∀ p ∈ plans, ∀ q ∈ plans, p.1 ≠ q.1 → Live jobs p.1 → Live jobs q.1 →
    Apart denotes p.2 q.2

end Requests

variable {denotes : K → Target → T} {s t : State J W C K}

theorem Apart.symm {r r' : JobRequest K} (h : Apart denotes r r') : Apart denotes r' r :=
  fun m hm n hn heq => h n hn m hm heq.symm

theorem inv_initial : Inv denotes (initial : State J W C K).jobs [] where
  owned :=
    { unique := fun w _ j hw => by cases hw
      claimed := fun w j hw => by cases hw }
  counted :=
    { active := fun w j hw => by cases hw
      not_stopped := fun w j hw => by cases hw }
  recorded p hp := by cases hp
  apart p hp := by cases hp

theorem isActive_of_live (h : Inv denotes s.jobs s.plans) {j : J} (hlive : Live s.jobs j) :
    s.isActive j = true := by
  unfold State.isActive
  rcases hlive with hqueued | ⟨w, hw⟩
  · rw [hqueued]
    rfl
  · obtain ⟨status, hmem, hstatus⟩ := h.counted.active w j hw
    rw [hstatus]
    simpa using hmem

section Owners

variable [DecidableEq J]

theorem mem_plans_of_plan {w : W} {r : JobRequest K} (h : s.plan w = some r) :
    ∃ j, s.jobs.atWork w = some j ∧ (j, r) ∈ s.plans := by
  obtain ⟨j, hj, hr⟩ := Option.bind_eq_some_iff.mp h
  obtain ⟨before, after, hlist, -⟩ := List.lookup_eq_some_iff.mp hr
  exact ⟨j, hj, by rw [hlist]; simp⟩

theorem copies_eq_some {w : W} {p : K × Target} (h : s.copies w = some p) :
    ∃ r, s.plan w = some r ∧ p.1 = r.target ∧ p.2 ∈ r.tables := by
  unfold State.copies at h
  split at h
  · obtain ⟨r, hr, htable⟩ := Option.bind_eq_some_iff.mp h
    obtain ⟨m, hm, rfl⟩ := Option.map_eq_some_iff.mp htable
    exact ⟨r, hr, rfl, List.mem_of_getElem? hm⟩
  · cases h

theorem oneWriter_of_inv (h : Inv denotes s.jobs s.plans) : OneWriter denotes s := by
  intro w v hne p q hp hq
  obtain ⟨r, hr, hp1, hp2⟩ := copies_eq_some hp
  obtain ⟨r', hr', hq1, hq2⟩ := copies_eq_some hq
  obtain ⟨j, hj, hmem⟩ := mem_plans_of_plan hr
  obtain ⟨k, hk, hmem'⟩ := mem_plans_of_plan hr'
  have hjk : j ≠ k := by
    rintro rfl
    exact hne (h.owned.unique w v j (holder_of_atWork hj) (holder_of_atWork hk))
  rw [hp1, hq1]
  exact h.apart _ hmem _ hmem' hjk (Or.inr ⟨w, hj⟩) (Or.inr ⟨v, hk⟩) p.2 hp2 q.2 hq2

end Owners

section Check

variable [DecidableEq K] {py : PythonText}

/-- The overlap check sees every job in play that has a table of the request. -/
theorem apart_of_excluded {r : JobRequest K} (hex : Excluded py denotes s r)
    {p : J × JobRequest K} (hp : p ∈ s.plans) (hactive : s.isActive p.1 = true) :
    Apart denotes p.2 r := by
  intro m hm n hn hsame
  obtain ⟨htarget, hkey⟩ := hex.2 p hp hactive m hm n hn hsame
  have hmem : p ∈ s.findOverlapping py r := by
    refine List.mem_filter.mpr ⟨hp, ?_⟩
    have hkeys : tableKey py m.schema m.table ∈ targetKeys py r := by
      rw [hkey]
      exact List.mem_map_of_mem hn
    simp only [hactive, htarget, Bool.and_eq_true, List.any_eq_true]
    exact ⟨by simp, m, hm, by simpa using hkeys⟩
  rw [hex.1] at hmem
  cases hmem

end Check

variable [DecidableEq J] [DecidableEq W] [DecidableEq C]

theorem status_create {jobs jobs' : TransferLifecycle.State J W C} {c : C} {j : J}
    (h : TransferLifecycle.step jobs (.create c j) = some jobs') : jobs.status j = none := by
  simp only [TransferLifecycle.step] at h
  split at h
  · next hcall hjob => rw [TransferLifecycle.State.status, hjob]; rfl
  · cases h

theorem inv_of_step {plans : List (J × JobRequest K)} {jobs jobs' : TransferLifecycle.State J W C}
    (h : Inv denotes jobs plans) {a : Action J W C} (hstop : StopsFree jobs a)
    (hstep : TransferLifecycle.step jobs a = some jobs') : Inv denotes jobs' plans := by
  have he := effect_of_step hstep
  have hf := follows_of_step h.owned h.counted hstop hstep
  refine ⟨owned_of_effect h.owned he, hf.counted, ?_, ?_⟩
  · intro p hp
    exact isSome_of_effect (h.recorded p hp) he
  · intro p hp q hq hne hlive hlive'
    exact h.apart p hp q hq hne (live_of_step (h.recorded p hp) he hf hlive)
      (live_of_step (h.recorded q hq) he hf hlive')

variable [DecidableEq K] {py : PythonText}

theorem inv_insert (h : Inv denotes s.jobs s.plans) {c : C} {j : J} {r : JobRequest K}
    (hex : Excluded py denotes s r) {jobs : TransferLifecycle.State J W C}
    (hstep : TransferLifecycle.step s.jobs (.create c j) = some jobs) :
    Inv denotes jobs ((j, r) :: s.plans) := by
  have hfree : StopsFree s.jobs (.create c j) := by rintro k ⟨⟩
  have hbase := inv_of_step h hfree hstep
  have hnew := status_create hstep
  have hother : ∀ p ∈ s.plans, Live jobs p.1 → Apart denotes p.2 r := by
    intro p hp hlive
    have hold := live_of_step (h.recorded p hp) (effect_of_step hstep)
      (follows_of_step h.owned h.counted hfree hstep) hlive
    exact apart_of_excluded hex hp (isActive_of_live h hold)
  refine ⟨hbase.owned, hbase.counted, ?_, ?_⟩
  · intro p hp
    rcases List.mem_cons.mp hp with rfl | hp
    · simp only [TransferLifecycle.step] at hstep
      split at hstep
      · obtain rfl := Option.some.inj hstep
        simp [TransferLifecycle.State.status, TransferLifecycle.State.setCall]
      · cases hstep
    · exact hbase.recorded p hp
  · intro p hp q hq hne hlive hlive'
    rcases List.mem_cons.mp hp with rfl | hp
    · rcases List.mem_cons.mp hq with rfl | hq
      · exact absurd rfl hne
      · exact (hother q hq hlive').symm
    · rcases List.mem_cons.mp hq with rfl | hq
      · exact hother p hp hlive
      · exact hbase.apart p hp q hq hne hlive hlive'

theorem exists_of_job {a : Action J W C} (h : step py s (.job a) = some t) :
    ∃ jobs, TransferLifecycle.step s.jobs a = some jobs ∧ s.withJobs jobs = t := by
  cases a with
  | create c j => cases h
  | request c r j =>
      simp only [step] at h
      split at h
      · exact Option.map_eq_some_iff.mp h
      · cases h
  | _ => exact Option.map_eq_some_iff.mp h

theorem inv_step (h : Inv denotes s.jobs s.plans) {a : Step J W C K}
    (hmeets : Meets py denotes s a) (hstep : step py s a = some t) :
    Inv denotes t.jobs t.plans := by
  cases a with
  | preflight c r =>
      simp only [step] at hstep
      split at hstep
      · obtain rfl := Option.some.inj hstep
        split
        · exact h
        · exact h
      · cases hstep
  | abandon c =>
      obtain rfl := Option.some.inj hstep
      exact h
  | insert c j =>
      simp only [step] at hstep
      split at hstep
      · next r hr =>
          obtain ⟨jobs, hjobs, rfl⟩ := Option.map_eq_some_iff.mp hstep
          exact inv_insert h (hmeets r hr) hjobs
      · cases hstep
  | begin w =>
      simp only [step] at hstep
      split at hstep
      · split at hstep
        · obtain rfl := Option.some.inj hstep
          exact h
        · cases hstep
      · cases hstep
  | moved w =>
      simp only [step] at hstep
      split at hstep
      · split at hstep
        · obtain rfl := Option.some.inj hstep
          exact h
        · cases hstep
      · cases hstep
  | job a =>
      obtain ⟨jobs, hjobs, rfl⟩ := exists_of_job hstep
      exact inv_of_step h hmeets hjobs

/-- In every run whose steps meet the condition, no two workers move rows into one table, every job
that a worker is at work on counts as active, and none reads as stopped before its worker has left
it. -/
theorem one_writer_a_table
    (hrun : ReachesBy (step py) (Meets py denotes) initial s) :
    OneWriter denotes s ∧ Counted s.jobs := by
  have hinv : Inv denotes s.jobs s.plans :=
    hrun.invariant (P := fun s => Inv denotes s.jobs s.plans) inv_initial
      fun _ _ _ h hmeets hstep => inv_step h hmeets hstep
  exact ⟨oneWriter_of_inv hinv, hinv.counted⟩

end Runs

section Samples

/-- Names in lower case stay as they are. -/
def plainText : PythonText where
  lower text := text
  strip text := text

/-- Both connection entries, 1 and 2, lead to one database. -/
def sameServer (_ : Nat) (m : Target) : Target := m

def moveInto (connection : Nat) (table : String) : JobRequest Nat :=
  ⟨0, connection, [⟨"dbo", table⟩]⟩

/-- A worker claims the next job and begins with its table. -/
def takeUp (w : Bool) : List (Step Bool Bool Bool Nat) :=
  [.job (.list w), .job (.claim w), .job (.load w true), .begin w]

/-- Two jobs with different tables, the second created while the first is at work. -/
def separateTables : List (Step Bool Bool Bool Nat) :=
  [.preflight false (moveInto 1 "orders"), .insert false false] ++ takeUp false ++
    [.preflight true (moveInto 1 "items"), .insert true true] ++ takeUp true

theorem separateTables_one_writer :
    ∃ s : State Bool Bool Bool Nat,
      ReachesBy (step plainText) (Meets plainText sameServer) initial s ∧
        (s.copies false).isSome = true ∧ (s.copies true).isSome = true ∧
        OneWriter sameServer s ∧ Counted s.jobs := by
  have hrun : (runSteps (guarded (fun s a => decide (Meets plainText sameServer s a))
      (step plainText)) initial separateTables).any (fun s : State Bool Bool Bool Nat =>
        (s.copies false).isSome && (s.copies true).isSome) = true := by
    decide +kernel
  obtain ⟨s, hs, hcopies⟩ := (Option.any_eq_true _ _).mp hrun
  have hreach := reachesBy_of_guarded (reaches_of_runSteps hs)
  simp only [decide_eq_true_eq] at hreach
  obtain ⟨hfirst, hsecond⟩ := Bool.and_eq_true_iff.mp hcopies
  exact ⟨s, hreach, hfirst, hsecond, one_writer_a_table hreach⟩

/-- Both calls make their check before either writes its job. -/
def checkedTwice : List (Step Bool Bool Bool Nat) :=
  [.preflight false (moveInto 1 "orders"), .preflight true (moveInto 1 "orders"),
    .insert false false, .insert true true] ++ takeUp false ++ takeUp true

/-- The second call comes through another entry for the same database. -/
def otherEntry : List (Step Bool Bool Bool Nat) :=
  [.preflight false (moveInto 1 "orders"), .insert false false] ++ takeUp false ++
    [.preflight true (moveInto 2 "orders"), .insert true true] ++ takeUp true

/-- The first job is stopped, and the second created before the worker reads the stop. -/
def stoppedAtWork : List (Step Bool Bool Bool Nat) :=
  [.preflight false (moveInto 1 "orders"), .insert false false, .job (.merge false),
      .job (.issue false)] ++ takeUp false ++
    [.job (.request false .stop false), .job (.merge false), .job (.issue false),
      .job (.settle false), .preflight true (moveInto 1 "orders"), .insert true true] ++ takeUp true

/-- The worker has read the stop and recorded it, and still has the constraints of its table to
restore when the second job begins. -/
def stoppedNotLeft : List (Step Bool Bool Bool Nat) :=
  [.preflight false (moveInto 1 "orders"), .insert false false, .job (.merge false),
      .job (.issue false)] ++ takeUp false ++
    [.job (.request false .stop false), .job (.merge false), .job (.issue false),
      .job (.check false), .job (.act false true true true),
      .preflight true (moveInto 1 "orders"), .insert true true] ++ takeUp true

def TwoWriters (run : List (Step Bool Bool Bool Nat)) : Prop :=
  ∃ s : State Bool Bool Bool Nat, runSteps (step plainText) initial run = some s ∧
    ¬ OneWriter sameServer s

theorem twoWriters_of_copies {run : List (Step Bool Bool Bool Nat)}
    (h : (runSteps (step plainText) initial run).any (fun s : State Bool Bool Bool Nat =>
      (s.copies false).map Prod.snd == some ⟨"dbo", "orders"⟩ &&
        (s.copies true).map Prod.snd == some ⟨"dbo", "orders"⟩) = true) : TwoWriters run := by
  obtain ⟨s, hs, hcopies⟩ := (Option.any_eq_true _ _).mp h
  simp only [Bool.and_eq_true, beq_iff_eq, Option.map_eq_some_iff] at hcopies
  obtain ⟨⟨p, hp, hpt⟩, ⟨q, hq, hqt⟩⟩ := hcopies
  exact ⟨s, hs, fun h => h false true (by decide) p q hp hq (hpt.trans hqt.symm)⟩

/-- Another worker moves rows into the table of a stopped job that its worker has not left. -/
def StoppedNotLeft (run : List (Step Bool Bool Bool Nat)) : Prop :=
  ∃ s : State Bool Bool Bool Nat, runSteps (step plainText) initial run = some s ∧
    s.jobs.holder false = some false ∧ s.jobs.status false = some .stopped ∧
    (s.copies true).map Prod.snd = some ⟨"dbo", "orders"⟩

theorem stoppedNotLeft_run : StoppedNotLeft stoppedNotLeft := by
  have hrun : (runSteps (step plainText) initial stoppedNotLeft).any
      (fun s : State Bool Bool Bool Nat => s.jobs.holder false == some false &&
        s.jobs.status false == some .stopped &&
        (s.copies true).map Prod.snd == some ⟨"dbo", "orders"⟩) = true := by
    decide +kernel
  obtain ⟨s, hs, hfacts⟩ := (Option.any_eq_true _ _).mp hrun
  simp only [Bool.and_eq_true, beq_iff_eq] at hfacts
  obtain ⟨⟨hholder, hstatus⟩, hcopies⟩ := hfacts
  exact ⟨s, hs, hholder, hstatus, hcopies⟩

theorem two_writers_in_one_table :
    TwoWriters checkedTwice ∧ TwoWriters otherEntry ∧ TwoWriters stoppedAtWork ∧
      StoppedNotLeft stoppedNotLeft :=
  ⟨twoWriters_of_copies (by decide +kernel), twoWriters_of_copies (by decide +kernel),
    twoWriters_of_copies (by decide +kernel), stoppedNotLeft_run⟩

end Samples

end SqlOptima.TransferExclusion
