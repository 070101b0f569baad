import SqlOptima.CutoverWorkflow

namespace SqlOptima.CutoverCheckpoint

open TransitionSystem
open CutoverWorkflow

/-- The checkpoint that `mark_committed` or the rollback of the run works on. -/
def usedCheckpoint (s : State) : Label → Option Checkpoint
  | .committed _ pick _ => getLatestCheckpoint s.records pick
  | .rolledBack _ _ pick _ => getLatestCheckpoint s.records pick
  | _ => none

def Uses : Label → Prop
  | .committed _ _ _ => True
  | .rolledBack _ _ _ _ => True
  | _ => False

/-- The checkpoint has the data that the freeze and the snapshot gate of the run returned. -/
structure CarriesSafetyData (s : State) (r : Checkpoint) : Prop where
  freeze : ∃ freeze, s.freeze = some freeze ∧ r.writesFrozenAt = some freeze.frozenAt ∧
    r.sourceRowCounts = some freeze.sourceRowCounts
  snapshot : ∃ snap, s.snapshot = some snap ∧ r.snapshotRef = snap.snapshotRef

/-- The phases before the checkpoint of the run. -/
def beforeCheckpoint : Phase → Bool
  | .verifying => true
  | .freezing _ _ => true
  | _ => false

/-- The phases after the checkpoint of the run. -/
def afterSaving : Phase → Bool
  | .waiting _ => true
  | .validating _ _ => true
  | .switching _ => true
  | .committing _ => true
  | .rollingBack _ => true
  | _ => false

/-- There is no checkpoint for the freeze to be recorded on, and none that is saved later
has one. -/
structure Unfrozen (s : State) : Prop where
  none_before : beforeCheckpoint s.phase = true → s.records = []
  some_after : afterSaving s.phase = true → s.records ≠ []
  unfrozen : ∀ r ∈ s.records, r.writesFrozenAt = none

theorem unfrozen_updateRecord {records : List Checkpoint} {id : Nat}
    {f : Checkpoint → Checkpoint} (hf : ∀ r, (f r).writesFrozenAt = r.writesFrozenAt)
    (h : ∀ r ∈ records, r.writesFrozenAt = none) :
    ∀ r ∈ updateRecord records id f, r.writesFrozenAt = none := by
  intro r hr
  obtain ⟨r', hr', rfl⟩ := List.mem_map.mp hr
  split
  · exact (hf r').trans (h r' hr')
  · exact h r' hr'

theorem updateRecord_eq_nil_iff {records : List Checkpoint} {id : Nat}
    {f : Checkpoint → Checkpoint} : updateRecord records id f = [] ↔ records = [] :=
  List.map_eq_nil_iff

/-- An update of the checkpoints that neither adds one nor freezes one. -/
structure KeepsUnfrozen (records records' : List Checkpoint) : Prop where
  nil_iff : records' = [] ↔ records = []
  unfrozen : (∀ r ∈ records, r.writesFrozenAt = none) →
    ∀ r ∈ records', r.writesFrozenAt = none

theorem keepsUnfrozen_refl (records : List Checkpoint) : KeepsUnfrozen records records :=
  ⟨Iff.rfl, id⟩

theorem keepsUnfrozen_updateRecord (records : List Checkpoint) (id : Nat)
    {f : Checkpoint → Checkpoint} (hf : ∀ r, (f r).writesFrozenAt = r.writesFrozenAt) :
    KeepsUnfrozen records (updateRecord records id f) :=
  ⟨updateRecord_eq_nil_iff, unfrozen_updateRecord hf⟩

theorem keepsUnfrozen_storeConnectionSwitch (records : List Checkpoint) (pick : Nat)
    (manifest : String) :
    KeepsUnfrozen records (storeConnectionSwitch records pick manifest) := by
  unfold storeConnectionSwitch
  split
  · exact keepsUnfrozen_refl records
  · exact keepsUnfrozen_updateRecord records _ fun r => rfl

theorem keepsUnfrozen_markCommitted (records : List Checkpoint) (pick : Nat) (now : Int) :
    KeepsUnfrozen records (markCommitted records pick now) := by
  unfold markCommitted
  split
  · exact keepsUnfrozen_refl records
  · exact keepsUnfrozen_updateRecord records _ fun r => rfl

theorem keepsUnfrozen_recordRollback (records : List Checkpoint) (pick : Nat) (now : Int) :
    KeepsUnfrozen records (recordRollback records pick now) := by
  unfold recordRollback
  split
  · exact keepsUnfrozen_refl records
  · split
    · exact keepsUnfrozen_refl records
    · exact keepsUnfrozen_updateRecord records _ fun r => rfl

/-- With no checkpoint to find, `record_write_freeze` does nothing. -/
theorem recordWriteFreeze_nil (pick : Nat) (freeze : FreezeState) :
    recordWriteFreeze [] pick freeze = [] := by
  simp [recordWriteFreeze, getLatestCheckpoint]

theorem Unfrozen.of_keeps {s t : State} (h : Unfrozen s)
    (hrecords : KeepsUnfrozen s.records t.records)
    (hbefore : beforeCheckpoint t.phase = true → beforeCheckpoint s.phase = true)
    (hafter : afterSaving t.phase = true → afterSaving s.phase = true) : Unfrozen t where
  none_before ht := hrecords.nil_iff.mpr (h.none_before (hbefore ht))
  some_after ht := fun hnil => h.some_after (hafter ht) (hrecords.nil_iff.mp hnil)
  unfrozen := hrecords.unfrozen h.unfrozen

@[simp] theorem beforeCheckpoint_startCommit (inp : CutoverInput) (validated : Nat) :
    beforeCheckpoint (startCommit inp validated) = false := by
  unfold startCommit
  split <;> rfl

@[simp] theorem beforeCheckpoint_validateTables (inp : CutoverInput) (rest : List String)
    (validated : Nat) : beforeCheckpoint (validateTables inp rest validated) = false := by
  cases rest with
  | cons table rest => rfl
  | nil =>
      simp only [validateTables, decideCutover]
      split
      · split <;> rfl
      · exact beforeCheckpoint_startCommit inp validated

@[simp] theorem beforeCheckpoint_afterCheckpoint (inp : CutoverInput) :
    beforeCheckpoint (afterCheckpoint inp) = false := by
  unfold afterCheckpoint
  split
  · rfl
  · exact beforeCheckpoint_validateTables inp inp.tables 0

@[simp] theorem beforeCheckpoint_syncTables (rest : List String) :
    beforeCheckpoint (syncTables rest) = false := by
  cases rest <;> rfl

@[simp] theorem afterSaving_syncTables (rest : List String) :
    afterSaving (syncTables rest) = false := by
  cases rest <;> rfl

theorem beforeCheckpoint_restart (inp : CutoverInput) (phase : Phase) :
    beforeCheckpoint (restart inp phase) = beforeCheckpoint phase := by
  cases phase with
  | committing validated => exact beforeCheckpoint_startCommit inp validated
  | _ => rfl

theorem afterSaving_of_restart {inp : CutoverInput} {phase : Phase}
    (h : afterSaving (restart inp phase) = true) : afterSaving phase = true := by
  cases phase with
  | committing validated => rfl
  | _ => exact h

theorem unfrozen_of_step {inp : CutoverInput} {s t : State} {l : Label} (hs : Unfrozen s)
    (h : step inp s l = some t) : Unfrozen t := by
  cases l with
  | approve =>
      cases h
      exact hs.of_keeps (keepsUnfrozen_refl _) id id
  | reject =>
      cases h
      exact hs.of_keeps (keepsUnfrozen_refl _) id id
  | sourceRows table count =>
      cases h
      exact hs.of_keeps (keepsUnfrozen_refl _) id id
  | activityFailed message =>
      simp only [step] at h
      split at h <;> cases h
      exact hs.of_keeps (keepsUnfrozen_refl _) (by simp [beforeCheckpoint]) (by simp [afterSaving])
  | activityRetried =>
      simp only [step] at h
      split at h <;> cases h
      exact hs.of_keeps (keepsUnfrozen_refl _)
        (fun ht => (beforeCheckpoint_restart inp s.phase).symm.trans ht) afterSaving_of_restart
  | snapshotChecked facts =>
      simp only [step] at h
      split at h <;> cases h
      next hphase =>
        refine hs.of_keeps (keepsUnfrozen_refl _) (fun _ => by rw [hphase]; rfl) ?_
        dsimp only
        split <;> simp [afterSaving]
  | tableCounted =>
      simp only [step] at h
      split at h <;> cases h
      next hphase =>
        exact hs.of_keeps (keepsUnfrozen_refl _) (fun _ => by rw [hphase]; rfl)
          (by simp [afterSaving])
  | freezeRecorded now pick returned =>
      simp only [step] at h
      split at h <;> cases h
      next counts hphase =>
        have hnil : s.records = [] := hs.none_before (by rw [hphase]; rfl)
        have hkeeps : KeepsUnfrozen s.records
            (recordWriteFreeze s.records pick ⟨now, counts⟩) := by
          rw [hnil, recordWriteFreeze_nil]
          exact keepsUnfrozen_refl []
        refine hs.of_keeps hkeeps (fun _ => by rw [hphase]; rfl) ?_
        dsimp only
        split
        · simp
        · exact fun ht => absurd ht Bool.false_ne_true
  | tableMigrated =>
      simp only [step] at h
      split at h <;> cases h
      exact hs.of_keeps (keepsUnfrozen_refl _) (by simp) (by simp)
  | checkpointSaved id now returned =>
      simp only [step] at h
      split at h
      · split at h <;> cases h
        refine ⟨?_, by simp, ?_⟩
        · dsimp only
          split
          · simp
          · exact fun ht => absurd ht Bool.false_ne_true
        · intro r hr
          rcases List.mem_append.mp hr with hr | hr
          · exact hs.unfrozen r hr
          · rw [List.mem_singleton.mp hr]
            rfl
      · cases h
  | polled =>
      simp only [step] at h
      split at h <;> cases h
      next polls hphase =>
        refine hs.of_keeps ?_ ?_ (fun _ => by rw [hphase]; rfl)
        · unfold poll
          split
          · exact keepsUnfrozen_refl _
          · split <;> exact keepsUnfrozen_refl _
        · unfold poll
          split
          · dsimp only
            split
            · simp
            · exact fun ht => absurd ht Bool.false_ne_true
          · split <;> exact fun ht => absurd ht Bool.false_ne_true
  | tableValidated status =>
      simp only [step] at h
      split at h <;> cases h
      next hphase =>
        exact hs.of_keeps (keepsUnfrozen_refl _) (by simp) (fun _ => by rw [hphase]; rfl)
  | switchStored manifest pick =>
      simp only [step] at h
      split at h <;> cases h
      next hphase =>
        exact hs.of_keeps (keepsUnfrozen_storeConnectionSwitch _ _ _) (by simp [beforeCheckpoint])
          (fun _ => by rw [hphase]; rfl)
  | committed now pick returned =>
      simp only [step] at h
      split at h <;> cases h
      next hphase =>
        refine hs.of_keeps (keepsUnfrozen_markCommitted _ _ _) ?_ (fun _ => by rw [hphase]; rfl)
        dsimp only
        split
        · exact fun ht => absurd ht Bool.false_ne_true
        · simp
  | rolledBack execute now pick returned =>
      simp only [step] at h
      split at h <;> cases h
      next hphase =>
        refine hs.of_keeps (keepsUnfrozen_recordRollback _ _ _) ?_ (fun _ => by rw [hphase]; rfl)
        dsimp only
        split <;> exact fun ht => absurd ht Bool.false_ne_true
  | manualRollback target now pick =>
      cases h
      exact hs.of_keeps (keepsUnfrozen_recordRollback _ _ _) id id

theorem unfrozen_atStart {s : State} (h : AtStart s) : Unfrozen s where
  none_before _ := h.records
  some_after hafter := by
    rw [h.phase] at hafter
    cases hafter
  unfrozen r hr := by
    rw [h.records] at hr
    cases hr

/-- Wherever a run commits or rolls back, it works on a checkpoint of its job, and this
has not got the data of the freeze. -/
theorem safety_data_never_carried {inp : CutoverInput} {s a b : State} {ls : List Label}
    {l : Label} (hstart : AtStart s) (hrun : runSteps (step inp) s ls = some a)
    (hstep : step inp a l = some b) (huse : Uses l) :
    ∃ r, usedCheckpoint a l = some r ∧ ¬ CarriesSafetyData a r := by
  have ha : Unfrozen a := (reaches_of_runSteps hrun).invariant (unfrozen_atStart hstart)
    fun _ _ _ hs hstep => unfrozen_of_step hs hstep
  have hcarries : ∀ pick r, getLatestCheckpoint a.records pick = some r →
      ¬ CarriesSafetyData a r := by
    rintro pick r hr ⟨⟨freeze, -, hfrozen, -⟩, -⟩
    rw [ha.unfrozen r (mem_of_getLatestCheckpoint hr)] at hfrozen
    cases hfrozen
  have hphase : afterSaving a.phase = true := by
    cases l with
    | committed now pick returned =>
        simp only [step] at hstep
        split at hstep
        · next hphase =>
            rw [hphase]
            rfl
        · cases hstep
    | rolledBack execute now pick returned =>
        simp only [step] at hstep
        split at hstep
        · next hphase =>
            rw [hphase]
            rfl
        · cases hstep
    | _ => exact huse.elim
  have hsome := fun pick => getLatestCheckpoint_isSome (ha.some_after hphase) pick
  cases l with
  | committed now pick returned =>
      obtain ⟨r, hr⟩ := Option.isSome_iff_exists.mp (hsome pick)
      exact ⟨r, hr, hcarries pick r hr⟩
  | rolledBack execute now pick returned =>
      obtain ⟨r, hr⟩ := Option.isSome_iff_exists.mp (hsome pick)
      exact ⟨r, hr, hcarries pick r hr⟩
  | _ => exact huse.elim

theorem orders_cutover_lacks_freeze :
    ∃ b, step ordersInput (ordersState 10) (.committed 3 0 true) = some b ∧
      ∃ r, usedCheckpoint (ordersState 10) (.committed 3 0 true) = some r ∧
        ¬ CarriesSafetyData (ordersState 10) r :=
  ⟨_, rfl, safety_data_never_carried atStart_ordersStart (runSteps_ordersRun 10) rfl trivial⟩

/-- The checkpoint that is marked committed has neither the time nor the counts of the
freeze that the run has captured. -/
theorem committed_checkpoint_has_no_freeze :
    runSteps (step ordersInput) ordersStart (ordersRun 10) = some (ordersState 10) ∧
      (ordersState 10).freeze.map FreezeState.frozenAt = some 1 ∧
      (∃ r, usedCheckpoint (ordersState 10) (.committed 3 0 true) = some r ∧
        r.writesFrozenAt = none ∧ ¬ CarriesSafetyData (ordersState 10) r) ∧
      (step ordersInput (ordersState 10) (.committed 3 0 true)).map
        (fun b => b.records.map Checkpoint.committed) = some [true] := by
  refine ⟨runSteps_ordersRun 10, rfl, ⟨_, rfl, rfl, ?_⟩, by decide⟩
  rintro ⟨⟨freeze, -, hfrozen, -⟩, -⟩
  cases hfrozen

end SqlOptima.CutoverCheckpoint
