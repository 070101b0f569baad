import Mathlib.Data.Finmap
import SqlOptima.JobStatus
import SqlOptima.TransitionSystem

namespace SqlOptima.JobCache

open TransitionSystem
open JobDispatch (MigrationStatus)
open JobStatus (statusValue ofValue)

/-- A configuration document by its top-level keys. -/
abbrev Config (V : Type) := Finmap (fun _ : String => V)

def finalizeKey : String := "post_migration_finalize"

/-- The durable row of a job with the rows of its table plans. -/
structure JobRecord (V P : Type) where
  status : String
  tablesTotal : Int
  tablesDone : Int
  rowsTotal : Int
  rowsMigrated : Int
  sourceConnection : String
  targetConnection : String
  error : Option String
  projectId : Option String
  config : Option (Config V)
  plans : List P

/-- A job of the registry. An option is `none` when the attribute is missing or
empty; `originated` records the keys that a dispatch by this process put into
`dispatch_config`. -/
structure CachedJob (V P : Type) where
  status : MigrationStatus
  sourceConnection : String
  targetConnection : String
  errorMessage : Option String
  projectId : Option String
  dispatchConfig : Option (Config V)
  finalizeOptions : Option V
  proceduralMigration : Option V
  tables : List P
  originated : Finset String

section Columns

variable {V P : Type} [DecidableEq V]

def JobRecord.configDict (record : JobRecord V P) : Config V := record.config.getD ∅

def setOption (key : String) (value : Option V) (config : Config V) : Config V :=
  match value with
  | none => config
  | some v => config.insert key v

/-- `config` updated from `dispatch_config` and the two options of the job. -/
def overlay (job : CachedJob V P) (config : Config V) : Config V :=
  setOption "procedural_migration" job.proceduralMigration
    (setOption "finalize_options" job.finalizeOptions (job.dispatchConfig.getD ∅ ∪ config))

/-- What the job in memory has to say about each key. -/
def cachedConfig (job : CachedJob V P) : Config V := overlay job ∅

/-- The attributes set on a row that `save_jobs_async` found. -/
def updatedRow (job : CachedJob V P) (existing : JobRecord V P) : JobRecord V P :=
  let mergedConfig := overlay job existing.configDict
  { existing with
    sourceConnection := job.sourceConnection
    targetConnection := job.targetConnection
    error := if job.errorMessage.isSome then job.errorMessage else existing.error
    projectId := if job.projectId.getD "" = "" then existing.projectId else job.projectId
    config := if mergedConfig = ∅ then existing.config else some mergedConfig }

/-- `job_config or None` -/
def jobConfig (job : CachedJob V P) : Option (Config V) :=
  if cachedConfig job = ∅ then none else some (cachedConfig job)

/-- The attributes `session.merge` copies onto a row. -/
def mergedRow (job : CachedJob V P) (loaded : JobRecord V P) : JobRecord V P :=
  { loaded with
    status := statusValue job.status
    sourceConnection := job.sourceConnection
    targetConnection := job.targetConnection
    error := job.errorMessage
    projectId := job.projectId
    config := jobConfig job }

/-- The row inserted for a job that has none, with the defaults of its columns. -/
def createdRow (job : CachedJob V P) : JobRecord V P where
  status := statusValue job.status
  tablesTotal := 0
  tablesDone := 0
  rowsTotal := 0
  rowsMigrated := 0
  sourceConnection := job.sourceConnection
  targetConnection := job.targetConnection
  error := job.errorMessage
  projectId := job.projectId
  config := jobConfig job
  plans := job.tables

/-- A flush writes a column only when it differs from what was loaded. -/
def written {A : Type} [DecidableEq A] (loaded wanted current : A) : A :=
  if wanted = loaded then current else wanted

def flush (loaded wanted current : JobRecord V P) : JobRecord V P :=
  { current with
    status := written loaded.status wanted.status current.status
    sourceConnection :=
      written loaded.sourceConnection wanted.sourceConnection current.sourceConnection
    targetConnection :=
      written loaded.targetConnection wanted.targetConnection current.targetConnection
    error := written loaded.error wanted.error current.error
    projectId := written loaded.projectId wanted.projectId current.projectId
    config := written loaded.config wanted.config current.config }

/-- A job rebuilt from its row: the whole document becomes its `dispatch_config`. -/
def cachedFromRecord (record : JobRecord V P) (truthy : V → Bool) (status : MigrationStatus) :
    CachedJob V P where
  status := status
  sourceConnection := record.sourceConnection
  targetConnection := record.targetConnection
  errorMessage := record.error
  projectId := record.projectId
  dispatchConfig := record.config
  finalizeOptions := (record.configDict.lookup "finalize_options").filter truthy
  proceduralMigration := (record.configDict.lookup "procedural_migration").filter truthy
  tables := record.plans
  originated := ∅

/-- The job `load_jobs` puts into the registry, unless the status is no status. -/
def loadedJob (record : JobRecord V P) (truthy : V → Bool) : Option (CachedJob V P) :=
  (if record.status = "" then some MigrationStatus.pending else ofValue record.status).map
    (cachedFromRecord record truthy)

/-- `_merge_record_into_job`; the status and the tables it derives are arguments. -/
def mergeRecordIntoJob (job : CachedJob V P) (record : JobRecord V P) (truthy : V → Bool)
    (status : MigrationStatus) (tables : List P) : CachedJob V P :=
  { job with
    status := status
    errorMessage := record.error
    finalizeOptions :=
      ((record.configDict.lookup "finalize_options").filter truthy).or job.finalizeOptions
    proceduralMigration :=
      ((record.configDict.lookup "procedural_migration").filter truthy).or
        job.proceduralMigration
    tables := tables }

end Columns

/-- Where a call of `save_jobs_async` stands with the job. -/
inductive SavePos (V P : Type) where
  | idle
  | updating (job : CachedJob V P) (loaded : JobRecord V P)
  | creating (job : CachedJob V P)
  | merging (job : CachedJob V P) (loaded : Option (JobRecord V P))

/-- Where a call of `finalize_migration_job` stands. -/
inductive FinalizePos (V : Type) where
  | idle
  | opening (options : V) (loaded : Option (Config V))
  | opened (options : V)
  | applying (options : V) (loaded : Option (Config V))

/-- What a Go worker writes to the rows of a job. -/
inductive WorkerUpdate (P : Type) where
  | status (value : String)
  | progress (rowsMigrated tablesDone : Int)
  | error (message : Option String)
  | plans (plans : List P)

/-- The durable row, the job in the registry, the calls under way and, as a record of
the run, the finalize state that was written last. -/
structure State (V P S F : Type) where
  record : Option (JobRecord V P)
  memory : Option (CachedJob V P)
  saves : S → SavePos V P
  finalizers : F → FinalizePos V
  finalizeWritten : Option V

inductive Label (V P S F : Type) where
  | loadJobs
  | start (job : CachedJob V P)
  | dispatched (config : Config V)
  | fetched (status : MigrationStatus) (tables : List P)
  | worker (update : WorkerUpdate P)
  | saveGet (i : S)
  | saveMerge (i : S)
  | saveCommit (i : S)
  | saveFail (i : S)
  | finalizeGet (f : F) (options : V)
  | finalizeStart (f : F) (state : V)
  | finalizeReload (f : F)
  | finalizeNoTarget (f : F) (state : V)
  | finalizeEnd (f : F) (state : V)
  | finalizeFail (f : F)

section Steps

variable {V P S F : Type} [DecidableEq V] [DecidableEq S] [DecidableEq F]

def applyWorker (record : JobRecord V P) : WorkerUpdate P → JobRecord V P
  | .status value => { record with status := value }
  | .progress rowsMigrated tablesDone =>
      { record with rowsMigrated := rowsMigrated, tablesDone := tablesDone }
  | .error message => { record with error := message }
  | .plans plans => { record with plans := plans }

/-- The durable row after the commit of a save. -/
def commitSave (pos : SavePos V P) (record : Option (JobRecord V P)) :
    Option (JobRecord V P) :=
  match pos, record with
  | .updating job loaded, some r => some (flush loaded (updatedRow job loaded) r)
  | .merging job (some loaded), some r =>
      some { flush loaded (mergedRow job loaded) r with plans := job.tables }
  | .merging job none, none => some (createdRow job)
  -- an insert that meets a row is rolled back, an update that meets none too
  | _, record => record

def finalizeConfig (loaded : Option (Config V)) (state : V) (options : Option V) : Config V :=
  setOption "finalize_options" options ((loaded.getD ∅).insert finalizeKey state)

/-- A commit of the finalizer: its own keys over the document it has loaded. It raises
when the row is gone. -/
def commitFinalize (s : State V P S F) (f : F) (pos : FinalizePos V)
    (loaded : Option (Config V)) (state : V) (options : Option V) : State V P S F :=
  let config := some (finalizeConfig loaded state options)
  match s.record with
  | none => { s with finalizers := Function.update s.finalizers f .idle }
  | some r =>
      { s with
        record := some { r with config := written loaded config r.config }
        finalizers := Function.update s.finalizers f pos
        finalizeWritten := if config = loaded then s.finalizeWritten else some state }

def step (truthy : V → Bool) (s : State V P S F) : Label V P S F → Option (State V P S F)
  | .loadJobs =>
      s.record.map fun r => { s with memory := (loadedJob r truthy).or s.memory }
  | .start job =>
      some { s with memory := some { job with dispatchConfig := none, originated := ∅ } }
  | .dispatched config =>
      s.memory.map fun job =>
        { s with
          memory := some { job with
            status := .queued
            dispatchConfig := some config
            originated := config.keys } }
  | .fetched status tables =>
      match s.record, s.memory with
      | some r, some job =>
          some { s with memory := some (mergeRecordIntoJob job r truthy status tables) }
      | some r, none =>
          some { s with
            memory := some { cachedFromRecord r truthy status with tables := tables } }
      | none, _ => none
  | .worker update =>
      s.record.map fun r => { s with record := some (applyWorker r update) }
  | .saveGet i =>
      match s.saves i, s.memory with
      | .idle, some job =>
          some { s with
            saves := Function.update s.saves i
              (match s.record with
                | some r => .updating job r
                | none => .creating job) }
      | _, _ => none
  | .saveMerge i =>
      match s.saves i with
      | .creating job =>
          some { s with saves := Function.update s.saves i (.merging job s.record) }
      | _ => none
  | .saveCommit i =>
      match s.saves i with
      | .idle => none
      | .creating _ => none
      | pos =>
          some { s with
            record := commitSave pos s.record
            saves := Function.update s.saves i .idle }
  | .saveFail i => some { s with saves := Function.update s.saves i .idle }
  | .finalizeGet f options =>
      match s.finalizers f, s.record with
      | .idle, some r =>
          some { s with
            finalizers := Function.update s.finalizers f (.opening options r.config) }
      | _, _ => none
  | .finalizeStart f state =>
      match s.finalizers f with
      | .opening options loaded =>
          some (commitFinalize s f (.opened options) loaded state (some options))
      | _ => none
  | .finalizeReload f =>
      match s.finalizers f, s.record with
      | .opened options, some r =>
          some { s with
            finalizers := Function.update s.finalizers f (.applying options r.config) }
      | _, _ => none
  | .finalizeNoTarget f state =>
      match s.finalizers f with
      | .applying _ loaded => some (commitFinalize s f .idle loaded state none)
      | _ => none
  | .finalizeEnd f state =>
      match s.finalizers f with
      | .applying options loaded =>
          some (commitFinalize s f .idle loaded state (some options))
      | _ => none
  | .finalizeFail f =>
      some { s with finalizers := Function.update s.finalizers f .idle }

end Steps

section Lookups

variable {V P : Type}

theorem lookup_setOption (key k : String) (value : Option V) (config : Config V) :
    (setOption key value config).lookup k =
      if k = key then value.or (config.lookup k) else config.lookup k := by
  cases value with
  | none => simp [setOption]
  | some v =>
      by_cases hk : k = key
      · subst hk
        simp [setOption]
      · simp [setOption, hk, Finmap.lookup_insert_of_ne]

theorem lookup_finalizeConfig (loaded : Option (Config V)) (state : V) (options : Option V) :
    (finalizeConfig loaded state options).lookup finalizeKey = some state := by
  rw [finalizeConfig, lookup_setOption, if_neg (by decide), Finmap.lookup_insert]

theorem lookup_union (a b : Config V) (k : String) :
    (a ∪ b).lookup k = (a.lookup k).or (b.lookup k) := by
  by_cases hk : k ∈ a
  · rw [Finmap.lookup_union_left hk]
    obtain ⟨v, hv⟩ := Finmap.mem_iff.mp hk
    simp [hv]
  · rw [Finmap.lookup_union_right hk, Finmap.lookup_eq_none.mpr hk, Option.none_or]

theorem lookup_overlay (job : CachedJob V P) (config : Config V) (k : String) :
    (overlay job config).lookup k = ((cachedConfig job).lookup k).or (config.lookup k) := by
  simp only [cachedConfig, overlay, lookup_setOption, lookup_union, Finmap.lookup_empty,
    Option.or_none]
  split
  · next hk =>
      subst hk
      rw [if_neg (by decide), if_neg (by decide), Option.or_assoc]
  · split <;> simp [Option.or_assoc]

/-- Every key the job in memory carries has the loaded value. -/
def NothingNew (job : CachedJob V P) (loaded : JobRecord V P) : Prop :=
  ∀ k v, (cachedConfig job).lookup k = some v → loaded.configDict.lookup k = some v

theorem overlay_eq_of_nothingNew {job : CachedJob V P} {loaded : JobRecord V P}
    (h : NothingNew job loaded) : overlay job loaded.configDict = loaded.configDict := by
  apply Finmap.ext_lookup
  intro k
  rw [lookup_overlay]
  cases hk : (cachedConfig job).lookup k with
  | none => rfl
  | some v => simp [h k v hk]

variable [DecidableEq V]

theorem updatedRow_config_eq_iff (job : CachedJob V P) (loaded : JobRecord V P) :
    (updatedRow job loaded).config = loaded.config ↔ NothingNew job loaded := by
  simp only [updatedRow]
  constructor
  · intro h k v hk
    have hlookup := lookup_overlay job loaded.configDict k
    rw [hk, Option.some_or] at hlookup
    split at h
    · next hempty => simp [hempty] at hlookup
    · have hdict : loaded.configDict = overlay job loaded.configDict := by
        conv_lhs => rw [JobRecord.configDict, ← h, Option.getD_some]
      rw [hdict, hlookup]
  · intro h
    rw [overlay_eq_of_nothingNew h]
    cases hc : loaded.config with
    | none => simp [JobRecord.configDict, hc]
    | some c =>
        split
        · rfl
        · simp [JobRecord.configDict, hc]

theorem updatedRow_config_of_new {job : CachedJob V P} {loaded : JobRecord V P}
    (h : ¬ NothingNew job loaded) :
    (updatedRow job loaded).config = some (overlay job loaded.configDict) := by
  have hne := (updatedRow_config_eq_iff job loaded).not.mpr h
  simp only [updatedRow] at hne ⊢
  split at hne
  · exact absurd rfl hne
  · next hempty => rw [if_neg hempty]

end Lookups

/-- What a save must leave alone in the document: the finalize state, and every key that
the job in memory did not put there itself. -/
def Protected {V P : Type} (job : CachedJob V P) (k : String) : Prop :=
  k = finalizeKey ∨ k ∉ job.originated

/-- The columns that others own are the same in both rows. -/
structure OthersKept {V P : Type} (job : CachedJob V P) (r r' : JobRecord V P) : Prop where
  status : r'.status = r.status
  tablesTotal : r'.tablesTotal = r.tablesTotal
  tablesDone : r'.tablesDone = r.tablesDone
  rowsTotal : r'.rowsTotal = r.rowsTotal
  rowsMigrated : r'.rowsMigrated = r.rowsMigrated
  plans : r'.plans = r.plans
  config : ∀ k, Protected job k → r'.configDict.lookup k = r.configDict.lookup k

def SavePos.job? {V P : Type} : SavePos V P → Option (CachedJob V P)
  | .idle => none
  | .updating job _ => some job
  | .creating job => some job
  | .merging job _ => some job

section Commit

variable {V P : Type}

/-- What a protected key has in memory is what the row has, and a key that memory does
not carry has not changed since the row was loaded. -/
def UpToDate (job : CachedJob V P) (loaded r : JobRecord V P) : Prop :=
  ∀ k, Protected job k →
    (∀ v, (cachedConfig job).lookup k = some v → r.configDict.lookup k = some v) ∧
      ((cachedConfig job).lookup k = none →
        r.configDict.lookup k = loaded.configDict.lookup k)

/-- The row that a save would insert agrees with the row that has appeared meanwhile. -/
def CreatesTheSame [DecidableEq V] (job : CachedJob V P) (loaded r : JobRecord V P) : Prop :=
  job.tables = r.plans ∧
    (statusValue job.status = loaded.status ∨ statusValue job.status = r.status) ∧
    (jobConfig job = loaded.config ∨
      ∀ k, Protected job k → (cachedConfig job).lookup k = r.configDict.lookup k)

/-- When the commit of a save finds the row `r`. -/
def CommitsFresh [DecidableEq V] (pos : SavePos V P) (r : JobRecord V P) : Prop :=
  match pos with
  | .updating job loaded => NothingNew job loaded ∨ UpToDate job loaded r
  | .merging job (some loaded) => CreatesTheSame job loaded r
  | _ => True

theorem upToDate_iff (job : CachedJob V P) (loaded r : JobRecord V P) :
    UpToDate job loaded r ↔
      ∀ k, Protected job k →
        (overlay job loaded.configDict).lookup k = r.configDict.lookup k := by
  unfold UpToDate
  apply forall_congr'
  intro k
  apply imp_congr_right
  intro _
  rw [lookup_overlay]
  cases (cachedConfig job).lookup k with
  | none => simp [eq_comm]
  | some v => simp [eq_comm]

variable [DecidableEq V]

theorem othersKept_update_iff (job : CachedJob V P) (loaded r : JobRecord V P) :
    OthersKept job r (flush loaded (updatedRow job loaded) r) ↔
      NothingNew job loaded ∨ UpToDate job loaded r := by
  have hconfig : (∀ k, Protected job k →
      (flush loaded (updatedRow job loaded) r).configDict.lookup k = r.configDict.lookup k) ↔
        NothingNew job loaded ∨ UpToDate job loaded r := by
    by_cases hnew : NothingNew job loaded
    · have heq : (flush loaded (updatedRow job loaded) r).configDict = r.configDict := by
        simp only [flush, JobRecord.configDict, written,
          (updatedRow_config_eq_iff job loaded).mpr hnew, if_true]
      simp [hnew, heq]
    · have heq : (flush loaded (updatedRow job loaded) r).configDict =
          overlay job loaded.configDict := by
        have hne := (updatedRow_config_eq_iff job loaded).not.mpr hnew
        have hcolumn : (flush loaded (updatedRow job loaded) r).config =
            some (overlay job loaded.configDict) := by
          simp only [flush, written]
          rw [if_neg hne, updatedRow_config_of_new hnew]
        rw [JobRecord.configDict, hcolumn, Option.getD_some]
      rw [heq, upToDate_iff, or_iff_right hnew]
  constructor
  · intro h
    exact hconfig.mp h.config
  · intro h
    have hstatus : (updatedRow job loaded).status = loaded.status := rfl
    exact ⟨by simp [flush, written, hstatus], rfl, rfl, rfl, rfl, rfl, hconfig.mpr h⟩

theorem jobConfig_getD (job : CachedJob V P) : (jobConfig job).getD ∅ = cachedConfig job := by
  unfold jobConfig
  split
  · next h => exact h.symm
  · rfl

theorem othersKept_merge_iff (job : CachedJob V P) (loaded r : JobRecord V P) :
    OthersKept job r { flush loaded (mergedRow job loaded) r with plans := job.tables } ↔
      CreatesTheSame job loaded r := by
  have hstatus : (flush loaded (mergedRow job loaded) r).status = r.status ↔
      statusValue job.status = loaded.status ∨ statusValue job.status = r.status := by
    by_cases h : statusValue job.status = loaded.status
    · simp [flush, mergedRow, written, h]
    · simp [flush, mergedRow, written, h]
  have hconfig : (∀ k, Protected job k →
      (flush loaded (mergedRow job loaded) r).configDict.lookup k = r.configDict.lookup k) ↔
        jobConfig job = loaded.config ∨
          ∀ k, Protected job k → (cachedConfig job).lookup k = r.configDict.lookup k := by
    have hrow : (mergedRow job loaded).config = jobConfig job := rfl
    by_cases hsame : jobConfig job = loaded.config
    · simp [flush, JobRecord.configDict, written, hrow, hsame]
    · have heq : (flush loaded (mergedRow job loaded) r).configDict = cachedConfig job := by
        simp only [flush, JobRecord.configDict, written, hrow, if_neg hsame, jobConfig_getD]
      rw [heq, or_iff_right hsame]
  constructor
  · intro h
    exact ⟨h.plans, hstatus.mp h.status, hconfig.mp h.config⟩
  · rintro ⟨hplans, hst, hcfg⟩
    exact ⟨hstatus.mpr hst, rfl, rfl, rfl, rfl, hplans, hconfig.mpr hcfg⟩

/-- The commit of a save keeps what others own in the row it finds exactly when it is
up to date. -/
theorem commitSave_keeps_iff {pos : SavePos V P} {job : CachedJob V P} (r : JobRecord V P)
    (hjob : pos.job? = some job) :
    (∃ r', commitSave pos (some r) = some r' ∧ OthersKept job r r') ↔ CommitsFresh pos r := by
  have hself : OthersKept job r r := ⟨rfl, rfl, rfl, rfl, rfl, rfl, fun _ _ => rfl⟩
  cases pos with
  | idle => cases hjob
  | creating job' => simpa [commitSave, CommitsFresh] using hself
  | updating job' loaded =>
      cases hjob
      simpa [commitSave, CommitsFresh] using othersKept_update_iff job loaded r
  | merging job' loaded =>
      cases hjob
      cases loaded with
      | none => simpa [commitSave, CommitsFresh] using hself
      | some loaded =>
          simpa [commitSave, CommitsFresh] using othersKept_merge_iff job loaded r

end Commit

section Runs

variable {V P S F : Type}

/-- A commit of a save keeps what others own. -/
def SaveKeeps (s : State V P S F) (l : Label V P S F) (t : State V P S F) : Prop :=
  ∀ i, l = .saveCommit i → ∀ job r, (s.saves i).job? = some job → s.record = some r →
    ∃ r', t.record = some r' ∧ OthersKept job r r'

/-- The row holds the finalize state that was written last. -/
def FinalizeCurrent (s : State V P S F) : Prop :=
  ∀ state, s.finalizeWritten = some state →
    ∃ r, s.record = some r ∧ r.configDict.lookup finalizeKey = some state

/-- A commit of a save that is up to date with the row it finds. -/
def FreshSave [DecidableEq V] (s : State V P S F) (l : Label V P S F) : Prop :=
  ∀ i, l = .saveCommit i → ∀ r, s.record = some r → CommitsFresh (s.saves i) r

variable [DecidableEq V] [DecidableEq F] {s t : State V P S F}

theorem finalizeCurrent_commitFinalize (hs : FinalizeCurrent s) (f : F) (pos : FinalizePos V)
    (loaded : Option (Config V)) (state : V) (options : Option V) :
    FinalizeCurrent (commitFinalize s f pos loaded state options) := by
  unfold commitFinalize
  cases hr : s.record with
  | none =>
      intro v hv
      obtain ⟨r, hr', -⟩ := hs v hv
      rw [hr] at hr'
      cases hr'
  | some r =>
      intro v hv
      refine ⟨_, rfl, ?_⟩
      dsimp only at hv ⊢
      by_cases hsame : some (finalizeConfig loaded state options) = loaded
      · rw [if_pos hsame] at hv
        obtain ⟨r', hr', hlookup⟩ := hs v hv
        obtain rfl : r = r' := Option.some.inj (hr.symm.trans hr')
        rw [JobRecord.configDict, written, if_pos hsame]
        exact hlookup
      · rw [if_neg hsame] at hv
        cases hv
        rw [JobRecord.configDict, written, if_neg hsame, Option.getD_some,
          lookup_finalizeConfig]

variable [DecidableEq S] {truthy : V → Bool} {l : Label V P S F}

theorem saveCommit_effect {i : S} (h : step truthy s (.saveCommit i) = some t) :
    (∃ job, (s.saves i).job? = some job) ∧ t.record = commitSave (s.saves i) s.record ∧
      t.finalizeWritten = s.finalizeWritten := by
  simp only [step] at h
  split at h
  · cases h
  · cases h
  · next pos hidle hcreating =>
      cases h
      refine ⟨?_, rfl, rfl⟩
      cases hpos : s.saves i with
      | idle => exact absurd hpos hidle
      | creating job => exact absurd hpos (hcreating job)
      | updating job loaded => exact ⟨job, rfl⟩
      | merging job loaded => exact ⟨job, rfl⟩

theorem saveKeeps_iff (h : step truthy s l = some t) : SaveKeeps s l t ↔ FreshSave s l := by
  unfold SaveKeeps FreshSave
  apply forall_congr'
  intro i
  apply imp_congr_right
  rintro rfl
  obtain ⟨⟨job, hjob⟩, hrecord, -⟩ := saveCommit_effect h
  constructor
  · intro hkeeps r hr
    rw [← commitSave_keeps_iff r hjob, ← hr, ← hrecord]
    exact hkeeps job r hjob hr
  · intro hfresh job' r hjob' hr
    obtain rfl : job = job' := Option.some.inj (hjob.symm.trans hjob')
    rw [hrecord, hr]
    exact (commitSave_keeps_iff r hjob).mpr (hfresh r hr)

/-- What a step does to the document and to the record of finalize states. -/
inductive DocumentChange (s t : State V P S F) : Prop where
  | same (hwritten : t.finalizeWritten = s.finalizeWritten)
      (hrecord : ∀ r, s.record = some r → ∃ r', t.record = some r' ∧ r'.config = r.config)
  | finalized (loaded : Option (Config V)) (state : V) (options : Option V) (f : F)
      (pos : FinalizePos V) (h : t = commitFinalize s f pos loaded state options)

theorem documentChange_of_step (h : step truthy s l = some t)
    (hsave : ∀ i, l ≠ .saveCommit i) : DocumentChange s t := by
  cases l with
  | saveCommit i => exact absurd rfl (hsave i)
  | loadJobs =>
      obtain ⟨r, hr, rfl⟩ := Option.map_eq_some_iff.mp h
      exact .same rfl fun r hr => ⟨r, hr, rfl⟩
  | start job =>
      cases h
      exact .same rfl fun r hr => ⟨r, hr, rfl⟩
  | dispatched config =>
      obtain ⟨job, hjob, rfl⟩ := Option.map_eq_some_iff.mp h
      exact .same rfl fun r hr => ⟨r, hr, rfl⟩
  | fetched status tables =>
      simp only [step] at h
      split at h <;> cases h <;> exact .same rfl fun r hr => ⟨r, hr, rfl⟩
  | worker update =>
      obtain ⟨r, hr, rfl⟩ := Option.map_eq_some_iff.mp h
      refine .same rfl fun r' hr' => ⟨applyWorker r update, rfl, ?_⟩
      obtain rfl : r = r' := Option.some.inj (hr.symm.trans hr')
      cases update <;> rfl
  | saveGet i =>
      simp only [step] at h
      split at h <;> cases h
      exact .same rfl fun r hr => ⟨r, hr, rfl⟩
  | saveMerge i =>
      simp only [step] at h
      split at h <;> cases h
      exact .same rfl fun r hr => ⟨r, hr, rfl⟩
  | saveFail i =>
      cases h
      exact .same rfl fun r hr => ⟨r, hr, rfl⟩
  | finalizeGet f options =>
      simp only [step] at h
      split at h <;> cases h
      exact .same rfl fun r hr => ⟨r, hr, rfl⟩
  | finalizeStart f state =>
      simp only [step] at h
      split at h <;> cases h
      exact .finalized _ _ _ _ _ rfl
  | finalizeReload f =>
      simp only [step] at h
      split at h <;> cases h
      exact .same rfl fun r hr => ⟨r, hr, rfl⟩
  | finalizeNoTarget f state =>
      simp only [step] at h
      split at h <;> cases h
      exact .finalized _ _ _ _ _ rfl
  | finalizeEnd f state =>
      simp only [step] at h
      split at h <;> cases h
      exact .finalized _ _ _ _ _ rfl
  | finalizeFail f =>
      cases h
      exact .same rfl fun r hr => ⟨r, hr, rfl⟩

theorem finalizeCurrent_of_step (hs : FinalizeCurrent s) (h : step truthy s l = some t)
    (hkeeps : SaveKeeps s l t) : FinalizeCurrent t := by
  by_cases hsave : ∃ i, l = .saveCommit i
  · obtain ⟨i, rfl⟩ := hsave
    obtain ⟨⟨job, hjob⟩, -, hwritten⟩ := saveCommit_effect h
    intro v hv
    obtain ⟨r, hr, hlookup⟩ := hs v (hwritten ▸ hv)
    obtain ⟨r', hr', hkept⟩ := hkeeps i rfl job r hjob hr
    exact ⟨r', hr', (hkept.config finalizeKey (.inl rfl)).trans hlookup⟩
  · rcases documentChange_of_step h fun i hi => hsave ⟨i, hi⟩ with
      ⟨hwritten, hrecord⟩ | ⟨loaded, state, options, f, pos, rfl⟩
    · intro v hv
      obtain ⟨r, hr, hlookup⟩ := hs v (hwritten ▸ hv)
      obtain ⟨r', hr', hconfig⟩ := hrecord r hr
      refine ⟨r', hr', ?_⟩
      rw [JobRecord.configDict, hconfig]
      exact hlookup
    · exact finalizeCurrent_commitFinalize hs f pos loaded state options

/-- Along every run, the commits of saves keep what others own, and no state but the
last one the finalizer has written is in the row, if and only if every such commit is
up to date with the row it finds. -/
theorem saves_keep_along_run_iff (hinit : FinalizeCurrent s) {ls : List (Label V P S F)}
    (hrun : (runSteps (step truthy) s ls).isSome) :
    (∀ pre l a b, pre ++ [l] <+: ls → runSteps (step truthy) s pre = some a →
      step truthy a l = some b → SaveKeeps a l b ∧ FinalizeCurrent b) ↔
      ∀ pre l a, pre ++ [l] <+: ls → runSteps (step truthy) s pre = some a →
        FreshSave a l := by
  refine along_steps_iff (J := FinalizeCurrent) hinit ?_ ?_ hrun
  · intro a l b ha hfresh hb
    exact finalizeCurrent_of_step ha hb ((saveKeeps_iff hb).mpr hfresh)
  · intro a l b ha hb
    constructor
    · rintro ⟨hkeeps, -⟩
      exact (saveKeeps_iff hb).mp hkeeps
    · intro hfresh
      have hkeeps := (saveKeeps_iff hb).mpr hfresh
      exact ⟨hkeeps, finalizeCurrent_of_step ha hb hkeeps⟩

end Runs

section Examples

def storedJob (config : Config String) : JobRecord String Unit where
  status := "completed"
  tablesTotal := 1
  tablesDone := 1
  rowsTotal := 5
  rowsMigrated := 5
  sourceConnection := "source"
  targetConnection := "target"
  error := none
  projectId := none
  config := some config
  plans := [()]

/-- A job whose finalization ended with failures, before a restart of the service. -/
def afterPartialFinalize : State String Unit Unit Unit where
  record := some (storedJob ((∅ : Config String).insert finalizeKey "partial"))
  memory := none
  saves := fun _ => .idle
  finalizers := fun _ => .idle
  finalizeWritten := some "partial"

/-- The job is loaded, its finalization is repeated and succeeds, then it is saved. -/
def finalizeAgain : List (Label String Unit Unit Unit) :=
  [.loadJobs, .finalizeGet () "options", .finalizeStart () "in_progress", .finalizeReload (),
    .finalizeEnd () "completed", .saveGet (), .saveCommit ()]

theorem finalizeCurrent_afterPartialFinalize : FinalizeCurrent afterPartialFinalize := by
  rintro state hstate
  cases hstate
  exact ⟨_, rfl, by decide⟩

def finalizeStateAfter (ls : List (Label String Unit Unit Unit)) : Option String :=
  (runSteps (step fun _ => true) afterPartialFinalize ls).bind fun s =>
    s.record.bind fun r => r.configDict.lookup finalizeKey

theorem save_reverts_finalize_state :
    finalizeStateAfter (finalizeAgain.take 6) = some "completed" ∧
      finalizeStateAfter finalizeAgain = some "partial" ∧
      ¬ ∀ pre l a b, pre ++ [l] <+: finalizeAgain →
        runSteps (step fun _ => true) afterPartialFinalize pre = some a →
        step (fun _ => true) a l = some b → SaveKeeps a l b ∧ FinalizeCurrent b := by
  have hlast : finalizeStateAfter finalizeAgain = some "partial" := by decide
  refine ⟨by decide, hlast, fun h => ?_⟩
  have hrun : (runSteps (step fun _ => true) afterPartialFinalize finalizeAgain).isSome := by
    decide
  have hpre : finalizeAgain.take 6 ++ [.saveCommit ()] <+: finalizeAgain := ⟨[], rfl⟩
  obtain ⟨a, ha⟩ : ∃ a, runSteps (step fun _ => true) afterPartialFinalize
      (finalizeAgain.take 6) = some a := Option.isSome_iff_exists.mp (by decide)
  obtain ⟨b, hb, hend⟩ := exists_step_of_prefix hrun hpre ha
  have hwritten : (runSteps (step fun _ => true) afterPartialFinalize finalizeAgain).bind
      State.finalizeWritten = some "completed" := by decide
  rw [show finalizeAgain = finalizeAgain.take 6 ++ [.saveCommit ()] from rfl, hend] at hwritten
  obtain ⟨r, hr, hlookup⟩ := (h _ _ a b hpre ha hb).2 "completed" hwritten
  rw [finalizeStateAfter, show finalizeAgain = finalizeAgain.take 6 ++ [.saveCommit ()] from rfl,
    hend, Option.bind_some, hr, Option.bind_some, hlookup] at hlast
  exact absurd hlast (by decide)

theorem saves_keep_finalizeAgain_iff :
    (runSteps (step fun _ => true) afterPartialFinalize finalizeAgain).isSome ∧
      ((∀ pre l a b, pre ++ [l] <+: finalizeAgain →
        runSteps (step fun _ => true) afterPartialFinalize pre = some a →
        step (fun _ => true) a l = some b → SaveKeeps a l b ∧ FinalizeCurrent b) ↔
      ∀ pre l a, pre ++ [l] <+: finalizeAgain →
        runSteps (step fun _ => true) afterPartialFinalize pre = some a → FreshSave a l) :=
  ⟨by decide, saves_keep_along_run_iff finalizeCurrent_afterPartialFinalize (by decide)⟩

end Examples

end SqlOptima.JobCache
