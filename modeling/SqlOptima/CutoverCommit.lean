import SqlOptima.CutoverWorkflow

namespace SqlOptima.CutoverCommit

open TransitionSystem
open DoubleRounding
open CutoverWorkflow

/-- The statements by which `commit_cutover` takes effect. -/
def TakesEffect : Label → Prop
  | .switchStored _ _ => True
  | .committed _ _ _ => True
  | _ => False

def passedTables (s : State) : Nat := s.statuses.count "passed"

/-- The percentage of tables that passed, without rounding. -/
def passedPct (passed total : Nat) : ℚ := if total = 0 then 100 else passed / total * 100

/-- The freeze of the run has counted every table. -/
def HasBaseline (inp : CutoverInput) (s : State) : Prop :=
  ∃ freeze, s.freeze = some freeze ∧
    ∀ table ∈ inp.tables, (freeze.sourceRowCounts.lookup table).isSome

/-- No table that the freeze has counted has more rows now. -/
def NotGrown (inp : CutoverInput) (s : State) : Prop :=
  ∀ freeze, s.freeze = some freeze → ∀ table ∈ inp.tables, ∀ base,
    freeze.sourceRowCounts.lookup table = some base → s.source table ≤ base

def Approved (inp : CutoverInput) (s : State) : Prop :=
  inp.requireHumanApproval = true → s.decidedOn = some (some true)

/-- The source is approved, validated and still frozen. -/
structure CommitsSafely (inp : CutoverInput) (s : State) : Prop where
  approved : Approved inp s
  allValidated : s.statuses.length = inp.tables.length
  threshold : inp.validationThresholdPct ≤ passedPct (passedTables s) inp.tables.length
  hasBaseline : HasBaseline inp s
  notGrown : NotGrown inp s

/-- A rollback that reports success has truncated every table of its checkpoint. -/
def TruncatesAll (target : Option (String → Option String)) (record : Option Checkpoint) : Prop :=
  (rollback target record).success = true →
    ∀ r, record = some r → ∀ table ∈ r.tables,
      table ∈ (rollback target record).tablesTruncated

def RollbackTruncates (s : State) : Label → Prop
  | .rolledBack execute _ pick _ =>
      TruncatesAll (some execute) (getLatestCheckpoint s.records pick)
  | .manualRollback target _ pick => TruncatesAll target (getLatestCheckpoint s.records pick)
  | _ => True

/-- The threshold does not lie above the exact percentage and yet not above the double that
the percentage is rounded to. -/
def RoundsFairly (inp : CutoverInput) (s : State) : Prop :=
  let passed := passedTables s
  let total := inp.tables.length
  inp.tables ≠ [] →
    inp.validationThresholdPct ≤ roundDouble (roundDouble (passed / total) * 100) →
      inp.validationThresholdPct ≤ passed / total * 100

/-- The rollback has a connector, or an open checkpoint that names no table. -/
def Connected (s : State) : Label → Prop
  | .manualRollback none _ pick =>
      ∀ r, getLatestCheckpoint s.records pick = some r → r.committed = false → r.tables = []
  | _ => True

/-- What the environment has to grant to the next step. -/
def Granted (inp : CutoverInput) (s : State) (l : Label) : Prop :=
  (TakesEffect l → NotGrown inp s ∧ RoundsFairly inp s) ∧ Connected s l

/-- What is known in a phase. -/
def PhaseOk (inp : CutoverInput) (s : State) : Phase → Prop
  | .verifying => s.statuses = []
  | .freezing counts rest =>
      s.statuses = [] ∧ ∀ table ∈ inp.tables, table ∈ rest ∨ (counts.lookup table).isSome
  | .syncing _ => s.statuses = [] ∧ HasBaseline inp s
  | .saving => s.statuses = [] ∧ HasBaseline inp s
  | .waiting _ => s.statuses = [] ∧ HasBaseline inp s
  | .validating rest validated =>
      HasBaseline inp s ∧ Approved inp s ∧ validated = passedTables s ∧
        s.statuses.length + rest.length = inp.tables.length
  | .switching validated | .committing validated =>
      HasBaseline inp s ∧ Approved inp s ∧ validated = passedTables s ∧
        s.statuses.length = inp.tables.length ∧
          inp.validationThresholdPct ≤ validationPct validated inp.tables.length
  | .rollingBack _ => True
  | .ended _ => True

/-- The invariant of a run: the fields of the signals are about the last one, and the phase
has been earned. -/
structure Guards (inp : CutoverInput) (s : State) : Prop where
  approved : s.approved = true → s.lastSignal = some true
  phase : PhaseOk inp s s.phase

theorem phaseOk_startCommit {inp : CutoverInput} {s : State} {validated : Nat}
    (hbase : HasBaseline inp s) (happroved : Approved inp s)
    (hcount : validated = passedTables s) (hall : s.statuses.length = inp.tables.length)
    (hpct : inp.validationThresholdPct ≤ validationPct validated inp.tables.length) :
    PhaseOk inp s (startCommit inp validated) := by
  unfold startCommit
  split <;> exact ⟨hbase, happroved, hcount, hall, hpct⟩

theorem phaseOk_validateTables {inp : CutoverInput} {s : State} {rest : List String}
    {validated : Nat} (hbase : HasBaseline inp s) (happroved : Approved inp s)
    (hcount : validated = passedTables s)
    (hall : s.statuses.length + rest.length = inp.tables.length) :
    PhaseOk inp s (validateTables inp rest validated) := by
  cases rest with
  | cons table rest => exact ⟨hbase, happroved, hcount, hall⟩
  | nil =>
      simp only [validateTables, decideCutover]
      split
      · split <;> trivial
      · next hpct =>
          exact phaseOk_startCommit hbase happroved hcount hall (not_lt.mp hpct)

theorem phaseOk_syncTables {inp : CutoverInput} {s : State} (rest : List String)
    (hstatuses : s.statuses = []) (hbase : HasBaseline inp s) :
    PhaseOk inp s (syncTables rest) := by
  cases rest <;> exact ⟨hstatuses, hbase⟩

theorem phaseOk_freezing {inp : CutoverInput} {s : State} (hstatuses : s.statuses = []) :
    PhaseOk inp s (.freezing ∅ inp.tables) :=
  ⟨hstatuses, fun _ htable => .inl htable⟩

theorem phaseOk_restart {inp : CutoverInput} {s : State} {phase : Phase}
    (h : PhaseOk inp s phase) : PhaseOk inp s (restart inp phase) := by
  cases phase with
  | freezing counts rest => exact phaseOk_freezing h.1
  | committing validated => exact phaseOk_startCommit h.1 h.2.1 h.2.2.1 h.2.2.2.1 h.2.2.2.2
  | _ => exact h

theorem phaseOk_congr {inp : CutoverInput} {s t : State} {phase : Phase}
    (hstatuses : t.statuses = s.statuses) (hfreeze : t.freeze = s.freeze)
    (hdecided : t.decidedOn = s.decidedOn) (h : PhaseOk inp s phase) :
    PhaseOk inp t phase := by
  have hbase : HasBaseline inp s → HasBaseline inp t := by
    rw [HasBaseline, HasBaseline, hfreeze]
    exact id
  have happroved : Approved inp s → Approved inp t := by
    rw [Approved, Approved, hdecided]
    exact id
  have hpassed : passedTables t = passedTables s := by rw [passedTables, passedTables, hstatuses]
  cases phase with
  | verifying => exact hstatuses.trans h
  | freezing counts rest => exact ⟨hstatuses.trans h.1, h.2⟩
  | syncing rest => exact ⟨hstatuses.trans h.1, hbase h.2⟩
  | saving => exact ⟨hstatuses.trans h.1, hbase h.2⟩
  | waiting polls => exact ⟨hstatuses.trans h.1, hbase h.2⟩
  | validating rest validated =>
      obtain ⟨h₁, h₂, h₃, h₄⟩ := h
      exact ⟨hbase h₁, happroved h₂, h₃.trans hpassed.symm, by rw [hstatuses]; exact h₄⟩
  | switching validated =>
      obtain ⟨h₁, h₂, h₃, h₄, h₅⟩ := h
      exact ⟨hbase h₁, happroved h₂, h₃.trans hpassed.symm, by rw [hstatuses]; exact h₄, h₅⟩
  | committing validated =>
      obtain ⟨h₁, h₂, h₃, h₄, h₅⟩ := h
      exact ⟨hbase h₁, happroved h₂, h₃.trans hpassed.symm, by rw [hstatuses]; exact h₄, h₅⟩
  | rollingBack validated => trivial
  | ended result => trivial

theorem guards_poll {inp : CutoverInput} {s : State} {polls : Nat} (hs : Guards inp s)
    (hphase : s.phase = .waiting polls) : Guards inp (poll inp s polls) := by
  obtain ⟨hstatuses, hbase⟩ : s.statuses = [] ∧ HasBaseline inp s := by
    have h := hs.phase
    rw [hphase] at h
    exact h
  unfold poll
  split
  · refine ⟨hs.approved, ?_⟩
    dsimp only
    split
    · next happroved =>
        refine phaseOk_validateTables hbase ?_ ?_ ?_
        · intro _
          exact congrArg some (hs.approved happroved)
        · simp [passedTables, hstatuses]
        · simp [hstatuses]
    · trivial
  · split
    · refine ⟨hs.approved, ?_⟩
      exact ⟨hstatuses, hbase⟩
    · exact ⟨hs.approved, trivial⟩

theorem guards_of_step {inp : CutoverInput} {s t : State} {l : Label} (hs : Guards inp s)
    (h : step inp s l = some t) : Guards inp t := by
  have hok := hs.phase
  cases l with
  | approve =>
      cases h
      exact ⟨fun _ => rfl, phaseOk_congr rfl rfl rfl hok⟩
  | reject =>
      cases h
      exact ⟨(fun h => nomatch h), phaseOk_congr rfl rfl rfl hok⟩
  | sourceRows table count =>
      cases h
      exact ⟨hs.approved, phaseOk_congr rfl rfl rfl hok⟩
  | activityFailed message =>
      simp only [step] at h
      split at h <;> cases h
      exact ⟨hs.approved, trivial⟩
  | activityRetried =>
      simp only [step] at h
      split at h <;> cases h
      exact ⟨hs.approved, phaseOk_congr rfl rfl rfl (phaseOk_restart hok)⟩
  | snapshotChecked facts =>
      simp only [step] at h
      split at h <;> cases h
      next hphase =>
        rw [hphase] at hok
        refine ⟨hs.approved, ?_⟩
        dsimp only
        split
        · exact phaseOk_freezing hok
        · trivial
  | tableCounted =>
      simp only [step] at h
      split at h <;> cases h
      next counts table rest hphase =>
        rw [hphase] at hok
        refine ⟨hs.approved, hok.1, fun name hname => ?_⟩
        by_cases heq : name = table
        · subst heq
          exact .inr (by simp)
        · rw [Finmap.lookup_insert_of_ne counts heq]
          rcases hok.2 name hname with hmem | hmem
          · exact .inl ((List.mem_cons.mp hmem).resolve_left heq)
          · exact .inr hmem
  | freezeRecorded now pick returned =>
      simp only [step] at h
      split at h <;> cases h
      next counts hphase =>
        rw [hphase] at hok
        refine ⟨hs.approved, ?_⟩
        cases returned with
        | false => exact phaseOk_freezing hok.1
        | true =>
            refine phaseOk_syncTables _ hok.1 ⟨_, rfl, fun table htable => ?_⟩
            exact (hok.2 table htable).resolve_left List.not_mem_nil
  | tableMigrated =>
      simp only [step] at h
      split at h <;> cases h
      next table rest hphase =>
        rw [hphase] at hok
        exact ⟨hs.approved, phaseOk_syncTables rest hok.1 hok.2⟩
  | checkpointSaved id now returned =>
      simp only [step] at h
      split at h
      · next hphase =>
          split at h <;> cases h
          rw [hphase] at hok
          refine ⟨hs.approved, ?_⟩
          cases returned with
          | false => exact hok
          | true =>
              simp only [if_true, afterCheckpoint]
              split
              · exact hok
              · next happroval =>
                  refine phaseOk_validateTables hok.2 (fun h => absurd h happroval) ?_ ?_
                  · simp [passedTables, hok.1]
                  · simp [hok.1]
      · cases h
  | polled =>
      simp only [step] at h
      split at h <;> cases h
      next polls hphase => exact guards_poll hs hphase
  | tableValidated status =>
      simp only [step] at h
      split at h <;> cases h
      next table rest validated hphase =>
        rw [hphase] at hok
        obtain ⟨hbase, happroved, hcount, hall⟩ := hok
        refine ⟨hs.approved, phaseOk_validateTables hbase happroved ?_ ?_⟩
        · simp only [passedTables, List.count_append, List.count_singleton] at hcount ⊢
          split <;> simp_all
        · simp only [List.length_append, List.length_cons, List.length_nil] at hall ⊢
          omega
  | switchStored manifest pick =>
      simp only [step] at h
      split at h <;> cases h
      next hphase =>
        rw [hphase] at hok
        exact ⟨hs.approved, hok⟩
  | committed now pick returned =>
      simp only [step] at h
      split at h <;> cases h
      next validated hphase =>
        rw [hphase] at hok
        refine ⟨hs.approved, ?_⟩
        cases returned with
        | false => exact phaseOk_startCommit hok.1 hok.2.1 hok.2.2.1 hok.2.2.2.1 hok.2.2.2.2
        | true => trivial
  | rolledBack execute now pick returned =>
      simp only [step] at h
      split at h <;> cases h
      refine ⟨hs.approved, ?_⟩
      cases returned <;> trivial
  | manualRollback target now pick =>
      cases h
      exact ⟨hs.approved, phaseOk_congr rfl rfl rfl hok⟩

theorem guards_atStart {inp : CutoverInput} {s : State} (h : AtStart s) : Guards inp s where
  approved happroved := by
    rw [h.approved] at happroved
    cases happroved
  phase := by
    rw [h.phase]
    exact h.statuses

/-- With a connector every table whose TRUNCATE did not fail is in the list, and success
means that none failed. -/
theorem truncatesAll_of_connector (execute : String → Option String)
    (record : Option Checkpoint) : TruncatesAll (some execute) record := by
  rintro hsuccess r rfl table htable
  by_cases hcommitted : r.committed = true
  · simp [rollback, hcommitted] at hsuccess
  · simp only [rollback, hcommitted, Option.elim_some, List.isEmpty_iff,
      List.filterMap_eq_nil_iff, Option.map_eq_none_iff, Bool.false_eq_true, if_false] at hsuccess ⊢
    simp [htable, hsuccess table htable]

theorem truncatesAll_none_iff (record : Option Checkpoint) :
    TruncatesAll none record ↔
      ∀ r, record = some r → r.committed = false → r.tables = [] := by
  cases record with
  | none => simp [TruncatesAll]
  | some r =>
      by_cases hcommitted : r.committed = true
      · simp [TruncatesAll, rollback, hcommitted]
      · simp [TruncatesAll, rollback, hcommitted, List.eq_nil_iff_forall_not_mem]

theorem rollbackTruncates_iff (s : State) (l : Label) : RollbackTruncates s l ↔ Connected s l := by
  cases l with
  | rolledBack execute now pick returned =>
      exact iff_of_true (truncatesAll_of_connector execute _) trivial
  | manualRollback target now pick =>
      cases target with
      | none => exact truncatesAll_none_iff _
      | some execute => exact iff_of_true (truncatesAll_of_connector execute _) trivial
  | _ => exact Iff.rfl

theorem roundsFairly_iff {inp : CutoverInput} {s : State}
    (h : inp.validationThresholdPct ≤ validationPct (passedTables s) inp.tables.length) :
    RoundsFairly inp s ↔
      inp.validationThresholdPct ≤ passedPct (passedTables s) inp.tables.length := by
  unfold RoundsFairly
  by_cases hnil : inp.tables = []
  · simpa [hnil, passedPct, validationPct] using h
  · have hlength : inp.tables.length ≠ 0 := fun h0 => hnil (List.length_eq_zero_iff.mp h0)
    rw [validationPct, if_neg hlength] at h
    simp [hnil, passedPct, h]

theorem commitsSafely_iff {inp : CutoverInput} {s t : State} {l : Label} (hs : Guards inp s)
    (h : step inp s l = some t) (heffect : TakesEffect l) :
    CommitsSafely inp s ↔ NotGrown inp s ∧ RoundsFairly inp s := by
  have hknown : HasBaseline inp s ∧ Approved inp s ∧
      s.statuses.length = inp.tables.length ∧
        inp.validationThresholdPct ≤ validationPct (passedTables s) inp.tables.length := by
    have hok := hs.phase
    cases l with
    | switchStored manifest pick =>
        simp only [step] at h
        split at h
        · next validated hphase =>
            rw [hphase] at hok
            obtain ⟨hbase, happroved, hcount, hall, hpct⟩ := hok
            exact ⟨hbase, happroved, hall, hcount ▸ hpct⟩
        · cases h
    | committed now pick returned =>
        simp only [step] at h
        split at h
        · next validated hphase =>
            rw [hphase] at hok
            obtain ⟨hbase, happroved, hcount, hall, hpct⟩ := hok
            exact ⟨hbase, happroved, hall, hcount ▸ hpct⟩
        · cases h
    | _ => exact heffect.elim
  obtain ⟨hbase, happroved, hall, hpct⟩ := hknown
  rw [roundsFairly_iff hpct]
  constructor
  · intro hsafe
    exact ⟨hsafe.notGrown, hsafe.threshold⟩
  · rintro ⟨hgrown, hthreshold⟩
    exact ⟨happroved, hall, hthreshold, hbase, hgrown⟩

/-- Along every run, what takes effect of the commit is approved, validated and still
frozen, and a rollback that reports success has truncated the tables of its checkpoint,
if and only if the environment grants it to every step. -/
theorem cutover_guarded_along_run_iff {inp : CutoverInput} {s : State} (hstart : AtStart s)
    {ls : List Label} (hrun : (runSteps (step inp) s ls).isSome) :
    (∀ pre l a b, pre ++ [l] <+: ls → runSteps (step inp) s pre = some a →
      step inp a l = some b →
        (TakesEffect l → CommitsSafely inp a) ∧ RollbackTruncates a l) ↔
      ∀ pre l a, pre ++ [l] <+: ls → runSteps (step inp) s pre = some a → Granted inp a l := by
  refine along_steps_iff (J := Guards inp)
    (Q := fun a l _ => (TakesEffect l → CommitsSafely inp a) ∧ RollbackTruncates a l)
    (guards_atStart hstart) ?_ ?_ hrun
  · intro a l b ha _ hb
    exact guards_of_step ha hb
  · intro a l b ha hb
    exact and_congr (imp_congr_right fun heffect => commitsSafely_iff ha hb heffect)
      (rollbackTruncates_iff a l)

theorem orders_cutover_guarded_iff :
    (∀ pre l a b, pre ++ [l] <+: ordersRun 10 →
      runSteps (step ordersInput) ordersStart pre = some a → step ordersInput a l = some b →
        (TakesEffect l → CommitsSafely ordersInput a) ∧ RollbackTruncates a l) ↔
      ∀ pre l a, pre ++ [l] <+: ordersRun 10 →
        runSteps (step ordersInput) ordersStart pre = some a → Granted ordersInput a l :=
  cutover_guarded_along_run_iff atStart_ordersStart (by rw [runSteps_ordersRun]; rfl)

/-- The source table has grown from 10 to 12 rows since the freeze, and the cutover of it
is marked committed. -/
theorem grown_source_is_committed :
    runSteps (step ordersInput) ordersStart (ordersRun 12) = some (ordersState 12) ∧
      (step ordersInput (ordersState 12) (.committed 3 0 true)).map
        (fun b => b.records.map Checkpoint.committed) = some [true] ∧
      ¬ CommitsSafely ordersInput (ordersState 12) := by
  refine ⟨runSteps_ordersRun 12, by decide, fun h => ?_⟩
  have hle := h.notGrown _ rfl "orders" (by simp [ordersInput]) 10 (by simp)
  simp [ordersState] at hle

end SqlOptima.CutoverCommit
