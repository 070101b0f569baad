import SqlOptima.TransferLifecycle

namespace SqlOptima.StrandedTransfers

open TransitionSystem (runSteps along_run_iff)
open TransferLifecycle

variable {J W C : Type} {s t : State J W C}

/-- A job whose durable status says that it runs or is paused is with a worker that has claimed
it. -/
def NotStranded (s : State J W C) : Prop := ∀ j, s.Active j → s.Held j

/-- A pause or a resume is recorded while a worker has the job, and no worker leaves a job that
reads as running or paused. -/
structure Meets (s : State J W C) (a : Action J W C) : Prop where
  recorded_held : ∀ j, settlesFor s a = some j → (s.status j).isSome → s.Held j
  left_written : ∀ j, leaves s a = some j → ¬ s.Active j

/-- A job has one worker at most, and none before it is claimed. -/
structure Owned (s : State J W C) : Prop where
  unique : ∀ w w' j, s.holder w = some j → s.holder w' = some j → w = w'
  claimed : ∀ w j, s.holder w = some j → (s.status j).isSome ∧ s.status j ≠ some .queued

section Effects

variable {recorded left : Option J}

theorem held_of_holder_eq (h : t.holder = s.holder) {j : J} : t.Held j ↔ s.Held j := by
  unfold State.Held
  rw [h]

theorem active_of_status_eq (h : t.status = s.status) {j : J} : t.Active j ↔ s.Active j := by
  unfold State.Active
  rw [h]

section Holders

variable [DecidableEq W]

theorem held_update_of_ne {w : W} {k : J} {held : Option J}
    (h : t.holder = Function.update s.holder w held) (hw : s.holder w ≠ some k)
    (hk : s.Held k) : t.Held k := by
  obtain ⟨v, hv⟩ := hk
  have hvw : v ≠ w := fun hvw => hw (hvw ▸ hv)
  exact ⟨v, by rw [h, Function.update_of_ne hvw, hv]⟩

/-- The job that a worker leaves has no other. -/
theorem not_held_of_released (howned : Owned s) {w : W} {j : J} (hw : s.holder w = some j)
    (h : t.holder = Function.update s.holder w none) : ¬ t.Held j := by
  rintro ⟨v, hv⟩
  rw [h] at hv
  by_cases hvw : v = w
  · rw [hvw, Function.update_self] at hv
    cases hv
  · rw [Function.update_of_ne hvw] at hv
    exact hvw (howned.unique v w j hv hw)

end Holders

theorem nextStatus_ne_queued (r : Request) : r.nextStatus ≠ .queued := by
  cases r <;> decide

variable [DecidableEq J]

/-- A status that is written over another. -/
theorem map_const_ne_queued {status : TransferStatus} (hne : status ≠ .queued) {j : J}
    (h : (s.status j).isSome ∧ s.status j ≠ some .queued) (k : J) :
    let updated := Function.update s.status k ((s.status k).map fun _ => status)
    (updated j).isSome ∧ updated j ≠ some .queued := by
  by_cases hk : j = k
  · subst hk
    obtain ⟨old, hold⟩ := Option.isSome_iff_exists.mp h.1
    simp [hold, hne]
  · simpa [hk] using h

theorem active_update_of_ne {j k : J} {status : Option TransferStatus} (hk : k ≠ j)
    (h : t.status = Function.update s.status j status) : t.Active k ↔ s.Active k := by
  unfold State.Active
  rw [h, Function.update_of_ne hk]

theorem active_update_self {j : J} {status : Option TransferStatus}
    (h : t.status = Function.update s.status j status) :
    t.Active j ↔ status = some .running ∨ status = some .paused := by
  unfold State.Active
  rw [h, Function.update_self]

variable [DecidableEq W]

theorem owned_of_effect (h : Owned s) (he : Effect s t recorded left) : Owned t := by
  cases he with
  | same hstatus hholder =>
      refine ⟨?_, ?_⟩
      · rw [hholder]
        exact h.unique
      · rw [hstatus, hholder]
        exact h.claimed
  | @created j hnew hstatus hholder =>
      refine ⟨?_, fun w k hw => ?_⟩
      · rw [hholder]
        exact h.unique
      · rw [hholder] at hw
        have hold := h.claimed w k hw
        have hk : k ≠ j := fun hkj => by rw [hkj, hnew] at hold; exact absurd hold.1 (by simp)
        rw [hstatus, Function.update_of_ne hk]
        exact hold
  | worked hw hne hstatus hholder =>
      refine ⟨?_, fun v k hv => ?_⟩
      · rw [hholder]
        exact h.unique
      · rw [hholder] at hv
        rw [hstatus]
        exact map_const_ne_queued hne (h.claimed v k hv) _
  | @settled r j hstatus hholder =>
      refine ⟨?_, fun v k hv => ?_⟩
      · rw [hholder]
        exact h.unique
      · rw [hholder] at hv
        rw [hstatus]
        exact map_const_ne_queued (nextStatus_ne_queued r) (h.claimed v k hv) _
  | @claimed w j hqueued hw hstatus hholder =>
      have hfree : ∀ v, s.holder v ≠ some j := fun v hv => (h.claimed v j hv).2 hqueued
      refine ⟨fun v v' k hv hv' => ?_, fun v k hv => ?_⟩
      · rw [hholder] at hv hv'
        by_cases hvw : v = w
        · by_cases hvw' : v' = w
          · rw [hvw, hvw']
          · rw [hvw, Function.update_self] at hv
            rw [Function.update_of_ne hvw'] at hv'
            exact absurd (hv'.trans hv.symm) (hfree v')
        · rw [Function.update_of_ne hvw] at hv
          by_cases hvw' : v' = w
          · rw [hvw', Function.update_self] at hv'
            exact absurd (hv.trans hv'.symm) (hfree v)
          · rw [Function.update_of_ne hvw'] at hv'
            exact h.unique v v' k hv hv'
      · rw [hholder] at hv
        rw [hstatus]
        by_cases hk : k = j
        · simp [hk]
        · rw [Function.update_of_ne hk]
          by_cases hvw : v = w
          · rw [hvw, Function.update_self] at hv
            exact absurd (Option.some.inj hv).symm hk
          · rw [Function.update_of_ne hvw] at hv
            exact h.claimed v k hv
  | @released w j hw hstatus hholder =>
      have hkeep : ∀ v k, t.holder v = some k → s.holder v = some k := by
        intro v k hv
        rw [hholder] at hv
        by_cases hvw : v = w
        · rw [hvw, Function.update_self] at hv
          cases hv
        · rwa [Function.update_of_ne hvw] at hv
      refine ⟨fun v v' k hv hv' => h.unique v v' k (hkeep v k hv) (hkeep v' k hv'), fun v k hv => ?_⟩
      rw [hstatus]
      exact h.claimed v k (hkeep v k hv)

/-- After a step from a state without stranded jobs there are none exactly when the step meets the
condition. -/
theorem notStranded_iff_of_effect (howned : Owned s) (hs : NotStranded s)
    (he : Effect s t recorded left) :
    NotStranded t ↔ (∀ j, recorded = some j → (s.status j).isSome → s.Held j) ∧
      ∀ j, left = some j → ¬ s.Active j := by
  cases he with
  | same hstatus hholder =>
      refine iff_of_true (fun k hk => ?_) (by simp)
      exact (held_of_holder_eq hholder).mpr (hs k ((active_of_status_eq hstatus).mp hk))
  | @created j hnew hstatus hholder =>
      refine iff_of_true (fun k hk => (held_of_holder_eq hholder).mpr ?_) (by simp)
      by_cases hkj : k = j
      · rw [hkj, active_update_self hstatus] at hk
        simp at hk
      · exact hs k ((active_update_of_ne hkj hstatus).mp hk)
  | @worked w j status hw hne hstatus hholder =>
      refine iff_of_true (fun k hk => (held_of_holder_eq hholder).mpr ?_) (by simp)
      by_cases hkj : k = j
      · exact ⟨w, hkj ▸ hw⟩
      · exact hs k ((active_update_of_ne hkj hstatus).mp hk)
  | @settled r j hstatus hholder =>
      have hother : ∀ k, k ≠ j → t.Active k → s.Held k := fun k hkj hk =>
        hs k ((active_update_of_ne hkj hstatus).mp hk)
      have hself := active_update_self hstatus
      have hheld : ∀ k, t.Held k ↔ s.Held k := fun k => held_of_holder_eq hholder
      constructor
      · intro ht
        refine ⟨fun k hrecorded hsome => ?_, by simp⟩
        split at hrecorded
        · cases hrecorded
        · next hr =>
            obtain rfl := Option.some.inj hrecorded
            obtain ⟨old, hold⟩ := Option.isSome_iff_exists.mp hsome
            refine (hheld _).mp (ht _ (hself.mpr ?_))
            cases r with
            | pause => exact Or.inr (by rw [hold]; rfl)
            | resume => exact Or.inl (by rw [hold]; rfl)
            | stop => exact absurd rfl hr
      · rintro ⟨hrecorded, -⟩ k hk
        rw [hheld]
        by_cases hkj : k = j
        · subst hkj
          rw [hself] at hk
          have hr : r ≠ .stop := by
            rintro rfl
            cases hold : s.status k <;> simp [hold, Request.nextStatus] at hk
          refine hrecorded k (if_neg hr) ?_
          cases hold : s.status k with
          | none => simp [hold] at hk
          | some old => rfl
        · exact hother k hkj hk
  | @claimed w j hqueued hw hstatus hholder =>
      refine iff_of_true (fun k hk => ?_) (by simp)
      by_cases hkj : k = j
      · exact ⟨w, by rw [hholder, Function.update_self, hkj]⟩
      · refine held_update_of_ne hholder (by rw [hw]; exact (Option.some_ne_none k).symm) ?_
        exact hs k ((active_update_of_ne hkj hstatus).mp hk)
  | @released w j hw hstatus hholder =>
      have hother : ∀ k, k ≠ j → s.Active k → t.Held k := fun k hkj hk =>
        held_update_of_ne hholder (by rw [hw]; simpa using Ne.symm hkj) (hs k hk)
      have hactive : ∀ k, t.Active k ↔ s.Active k := fun k => active_of_status_eq hstatus
      constructor
      · intro ht
        refine ⟨by simp, fun k hk hactive' => ?_⟩
        obtain rfl := Option.some.inj hk
        exact not_held_of_released howned hw hholder (ht _ ((hactive _).mpr hactive'))
      · rintro ⟨-, hleft⟩ k hk
        rw [hactive] at hk
        by_cases hkj : k = j
        · subst hkj
          exact absurd hk (hleft k rfl)
        · exact hother k hkj hk

end Effects

section Runs

structure Inv (s : State J W C) : Prop where
  owned : Owned s
  notStranded : NotStranded s

theorem inv_initial : Inv (initial : State J W C) where
  owned := {
    unique := fun _ _ _ h => by cases h
    claimed := fun _ _ h => by cases h }
  notStranded j h := by
    rcases h with h | h
    · cases h
    · cases h

variable [DecidableEq J] [DecidableEq W]

/-- A job that has left the queue unclaimed. -/
def OutOfReach (s : State J W C) (j : J) : Prop :=
  (s.status j).isSome ∧ s.status j ≠ some .queued ∧ ¬ s.Held j

theorem outOfReach_of_effect {recorded left : Option J} {j : J} (h : OutOfReach s j)
    (he : Effect s t recorded left) : OutOfReach t j := by
  obtain ⟨hsome, hqueued, hheld⟩ := h
  cases he with
  | same hstatus hholder =>
      unfold OutOfReach
      rw [hstatus, held_of_holder_eq hholder]
      exact ⟨hsome, hqueued, hheld⟩
  | @created k hnew hstatus hholder =>
      have hk : j ≠ k := fun hjk => by rw [hjk, hnew] at hsome; cases hsome
      unfold OutOfReach
      rw [hstatus, held_of_holder_eq hholder, Function.update_of_ne hk]
      exact ⟨hsome, hqueued, hheld⟩
  | worked hw hne hstatus hholder =>
      unfold OutOfReach
      rw [hstatus, held_of_holder_eq hholder, ← and_assoc]
      exact ⟨map_const_ne_queued hne ⟨hsome, hqueued⟩ _, hheld⟩
  | @settled r k hstatus hholder =>
      unfold OutOfReach
      rw [hstatus, held_of_holder_eq hholder, ← and_assoc]
      exact ⟨map_const_ne_queued (nextStatus_ne_queued r) ⟨hsome, hqueued⟩ _, hheld⟩
  | @claimed w k hk hw hstatus hholder =>
      have hne : j ≠ k := fun hjk => hqueued (hjk ▸ hk)
      refine ⟨?_, ?_, ?_⟩
      · rwa [hstatus, Function.update_of_ne hne]
      · rwa [hstatus, Function.update_of_ne hne]
      · rintro ⟨v, hv⟩
        rw [hholder] at hv
        by_cases hvw : v = w
        · rw [hvw, Function.update_self] at hv
          exact hne (Option.some.inj hv).symm
        · rw [Function.update_of_ne hvw] at hv
          exact hheld ⟨v, hv⟩
  | @released w k hw hstatus hholder =>
      have hfree : ¬ t.Held j := by
        rintro ⟨v, hv⟩
        rw [hholder] at hv
        by_cases hvw : v = w
        · rw [hvw, Function.update_self] at hv
          cases hv
        · rw [Function.update_of_ne hvw] at hv
          exact hheld ⟨v, hv⟩
      unfold OutOfReach
      rw [hstatus]
      exact ⟨hsome, hqueued, hfree⟩

variable [DecidableEq C]

theorem notStranded_iff_meets (h : Inv s) {a : Action J W C} (hstep : step s a = some t) :
    NotStranded t ↔ Meets s a :=
  (notStranded_iff_of_effect h.owned h.notStranded (effect_of_step hstep)).trans
    ⟨fun h => ⟨h.1, h.2⟩, fun h => ⟨h.recorded_held, h.left_written⟩⟩

/-- Along a run of any calls and workers, no job is stranded in any state exactly when every step
meets the condition. -/
theorem notStranded_along_run_iff (as : List (Action J W C))
    (hrun : (runSteps step initial as).isSome) :
    (∀ pre s, pre <+: as → runSteps step initial pre = some s → NotStranded s) ↔
      ∀ pre a s, pre ++ [a] <+: as → runSteps step initial pre = some s → Meets s a :=
  along_run_iff inv_initial (fun _ h => h.notStranded)
    (fun _ _ _ h hmeets hstep =>
      ⟨owned_of_effect h.owned (effect_of_step hstep), (notStranded_iff_meets h hstep).mpr hmeets⟩)
    (fun _ _ _ h hstep ht => (notStranded_iff_meets h hstep).mp ht) hrun

/-- No run brings such a job to a worker. -/
theorem outOfReach_of_run {j : J} (h : OutOfReach s j) {as : List (Action J W C)}
    (hrun : runSteps step s as = some t) : OutOfReach t j := by
  induction as generalizing s with
  | nil =>
      cases hrun
      exact h
  | cons a as ih =>
      obtain ⟨u, hu, hrest⟩ := Option.bind_eq_some_iff.mp hrun
      exact ih (outOfReach_of_effect h (effect_of_step hu)) hrest

end Runs

section Samples

/-- A job is created, claimed, paused and resumed at work, and completed. -/
def pausedAtWork : List (Action Unit Unit Unit) :=
  [.create () (), .merge (), .issue (), .list (), .claim (), .load () true, .check (),
    .act () true true true, .request () .pause (), .merge (), .issue (), .settle (), .check (),
    .act () true true true, .request () .resume (), .merge (), .issue (), .settle (), .check (),
    .act () true true true, .finish () true true, .leave ()]

theorem pausedAtWork_notStranded_iff :
    (∀ pre s, pre <+: pausedAtWork → runSteps step initial pre = some s → NotStranded s) ↔
      ∀ pre a s, pre ++ [a] <+: pausedAtWork → runSteps step initial pre = some s → Meets s a :=
  notStranded_along_run_iff pausedAtWork (by decide)

/-- A job is paused and resumed before any worker lists the queue. -/
def pausedInQueue : List (Action Unit Unit Unit) :=
  [.create () (), .merge (), .issue (), .request () .pause (), .merge (), .issue (), .settle (),
    .request () .resume (), .merge (), .issue (), .settle ()]

/-- The job reads as running, no worker has it and none ever will. -/
theorem resumed_job_stranded :
    ∃ s : State Unit Unit Unit, runSteps step initial pausedInQueue = some s ∧
      s.status () = some .running ∧ ¬ NotStranded s ∧
      ∀ as t, runSteps step s as = some t → ¬ t.Held () := by
  have hrun : (runSteps step initial pausedInQueue).any (fun s : State Unit Unit Unit =>
      s.status () == some .running && (s.holder ()).isNone) = true := by
    decide
  obtain ⟨s, hs, hfacts⟩ := (Option.any_eq_true _ _).mp hrun
  rw [Bool.and_eq_true, beq_iff_eq, Option.isNone_iff_eq_none] at hfacts
  obtain ⟨hstatus, hholder⟩ := hfacts
  have hfree : ¬ s.Held () := by
    rintro ⟨w, hw⟩
    rw [hholder] at hw
    cases hw
  have hout : OutOfReach s () := ⟨by rw [hstatus]; rfl, by rw [hstatus]; decide, hfree⟩
  exact ⟨s, hs, hstatus, fun h => hfree (h () (Or.inl hstatus)),
    fun as t ht => (outOfReach_of_run hout ht).2.2⟩

end Samples

end SqlOptima.StrandedTransfers
