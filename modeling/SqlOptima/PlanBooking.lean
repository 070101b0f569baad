import Mathlib.Data.List.Induction
import SqlOptima.PlanOwnership

namespace SqlOptima.PlanBooking

open PlanProgress PlanOwnership

variable {jobId : String}

section Jobs

/-- What a plan row says of its table. -/
def account (p : TablePlan) : PlanStatus × Nat := (p.status, p.rows)

def jobPlans (jobId : String) (m : Metadata) : List TablePlan :=
  m.plans.filter (·.jobId = jobId)

/-- Progress is booked to the right table in a job that makes these writes: each write changes only
the row of the table that is moved, at the end every row holds the status and the rows of its own
table, and the total is the sum over the rows. -/
structure Booked (jobId : String) (others : List TablePlan) (tables : List (String × String))
    (blocks : List (List Write)) (accounts : List (PlanStatus × Nat)) : Prop where
  owned : Owned jobId others.length ⟨others ++ created jobId tables, {}⟩ blocks
  rows : (jobPlans jobId (Metadata.execAll jobId ⟨others ++ created jobId tables, {}⟩
    blocks.flatten)).map account = accounts
  totals : let final := Metadata.execAll jobId ⟨others ++ created jobId tables, {}⟩ blocks.flatten
    final.totals.rows = ((jobPlans jobId final).map TablePlan.rows).sum

/-- The totals after writes. -/
def totalsAfter (totals : JobTotals) (ws : List Write) : JobTotals :=
  ws.foldl (fun totals w => w.setTotals totals) totals

variable {others rows : List TablePlan} {tables : List (String × String)}
  {blocks : List (List Write)} {accounts : List (PlanStatus × Nat)} {totals : JobTotals}
  {ws : List Write} {n : String} {p : TablePlan}

theorem totals_execAll (m : Metadata) (ws : List Write) :
    (m.execAll jobId ws).totals = totalsAfter m.totals ws := by
  induction ws generalizing m with
  | nil => rfl
  | cons w ws ih => exact ih (m.exec jobId w)

theorem totalsAfter_append (ws' : List Write) :
    totalsAfter totals (ws ++ ws') = totalsAfter (totalsAfter totals ws) ws' :=
  List.foldl_append

theorem booked_jobId (hrows : ∀ p ∈ rows, p.jobId = jobId) :
    ∀ p ∈ booked jobId rows blocks, p.jobId = jobId := by
  induction rows generalizing blocks with
  | nil =>
      cases blocks with
      | nil => exact hrows
      | cons block blocks => simp [booked]
  | cons row rows ih =>
      cases blocks with
      | nil => exact hrows
      | cons block blocks =>
          obtain ⟨hrow, hrest⟩ := List.forall_mem_cons.mp hrows
          exact List.forall_mem_cons.mpr ⟨bookAll_jobId.trans hrow, ih hrest⟩

theorem created_jobId : ∀ p ∈ created jobId tables, p.jobId = jobId := by
  intro p hp
  obtain ⟨t, -, rfl⟩ := List.mem_map.mp hp
  rfl

theorem booked_iff (hothers : ∀ p ∈ others, p.jobId ≠ jobId)
    (hblocks : Blocks (tables.map Prod.snd) blocks) :
    Booked jobId others tables blocks accounts ↔
      Separate (tables.map Prod.snd) blocks.length ∧
        (booked jobId (created jobId tables) blocks).map account = accounts ∧
        (totalsAfter {} blocks.flatten).rows = (accounts.map Prod.snd).sum := by
  have hapart : Apart jobId others (tables.map Prod.snd) :=
    fun p hp hjob => absurd hjob (hothers p hp)
  have howned : Owned jobId others.length ⟨others ++ created jobId tables, {}⟩ blocks ↔
      Separate (tables.map Prod.snd) blocks.length := owned_iff hblocks rfl hapart
  have hfinal (hseparate : Separate (tables.map Prod.snd) blocks.length) :
      jobPlans jobId (Metadata.execAll jobId ⟨others ++ created jobId tables, {}⟩
        blocks.flatten) = booked jobId (created jobId tables) blocks := by
    rw [jobPlans, plans_execAll_blocks hblocks rfl hapart hseparate, List.filter_append,
      List.filter_eq_nil_iff.mpr (by simpa using hothers), List.nil_append,
      List.filter_eq_self.mpr (by simpa using booked_jobId created_jobId)]
  have hsum (rows : List TablePlan) :
      (rows.map TablePlan.rows).sum = ((rows.map account).map Prod.snd).sum := by
    rw [List.map_map]
    rfl
  constructor
  · rintro ⟨hown, hrows, htotals⟩
    have hseparate := howned.mp hown
    rw [hfinal hseparate] at hrows
    refine ⟨hseparate, hrows, ?_⟩
    simpa only [hfinal hseparate, hsum, hrows, totals_execAll] using htotals
  · rintro ⟨hseparate, hrows, htotals⟩
    refine ⟨howned.mpr hseparate, ?_, ?_⟩
    · rw [hfinal hseparate, hrows]
    · simpa only [hfinal hseparate, hsum, hrows, totals_execAll] using htotals

/-- A row's account after the last of the writes that set its progress. -/
theorem account_progress (hjob : p.jobId = jobId) (hname : p.tableName = n)
    (status : PlanStatus) (rows : Nat) :
    account ((Write.updateTableProgress n status rows).setPlan jobId p) = (status, rows) := by
  simp [Write.setPlan, Write.selects, Write.set, account, hjob, hname]

theorem account_append_progress (hjob : p.jobId = jobId) (hname : p.tableName = n)
    (ws : List Write) (status : PlanStatus) (rows : Nat) :
    account (bookAll jobId p (ws ++ [.updateTableProgress n status rows])) = (status, rows) := by
  rw [bookAll_append, bookAll_cons, bookAll_nil]
  exact account_progress (bookAll_jobId.trans hjob) (bookAll_tableName.trans hname) status rows

theorem setPlan_totals (rows tablesDone : Nat) :
    (Write.updateJobTotals rows tablesDone).setPlan jobId p = p := rfl

theorem account_append_totals (rows tablesDone : Nat) :
    account (bookAll jobId p (ws ++ [.updateJobTotals rows tablesDone])) =
      account (bookAll jobId p ws) := by
  rw [bookAll_append, bookAll_cons, bookAll_nil, setPlan_totals]

end Jobs

section Transfer

/-- The tables whose move begins. -/
def transferReached :
    List (TransferTable × TransferOutcome) → List (TransferTable × TransferOutcome)
  | [] => []
  | t :: rest =>
      if t.2.check ≠ .goOn then []
      else
        match t.2.result with
        | .copied _ => t :: transferReached rest
        | .stopped => [t]
        | .failed _ => [t]

/-- The rows that are copied when the move ends early, as far as they are reported. -/
def copiedSoFar (reports : List Nat) : Nat := reports.getLastD 0

def transferAccount (outcome : TransferOutcome) : PlanStatus × Nat :=
  match outcome.result with
  | .copied rows => (.completed, rows)
  | .stopped => (.stopped, copiedSoFar outcome.reports)
  | .failed _ => (.failed, copiedSoFar outcome.reports)

def transferTable (t : TransferTable × TransferOutcome) : String × String :=
  (t.1.sourceSchema, t.1.sourceTable)

/-- Each table's own account; one that is not reached stays pending. -/
def transferAccounts (run : List (TransferTable × TransferOutcome)) : List (PlanStatus × Nat) :=
  (transferReached run).map (fun t => transferAccount t.2) ++
    List.replicate (run.length - (transferReached run).length) (.pending, 0)

structure TransferMeets (run : List (TransferTable × TransferOutcome)) : Prop where
  separate : Separate (run.map fun t => t.1.sourceTable) (transferReached run).length
  notStopped : ∀ t ∈ transferReached run, t.2.result ≠ .stopped
  failedEmpty : ∀ t ∈ transferReached run, ∀ message, t.2.result = .failed message →
    copiedSoFar t.2.reports = 0

variable {run : List (TransferTable × TransferOutcome)} {t : TransferTable × TransferOutcome}
  {totals : JobTotals} {p : TablePlan} {n : String}

attribute [local simp] transferReached in
theorem about_transferProgress (table : TransferTable) (reports : List Nat) :
    ∀ w ∈ reports.map (Write.updateTableProgress table.sourceTable .running),
      About table.sourceTable w := by
  intro w hw
  obtain ⟨r, -, rfl⟩ := List.mem_map.mp hw
  rfl

theorem transfer_blocks (run : List (TransferTable × TransferOutcome)) (totals : JobTotals) :
    Blocks ((run.map transferTable).map Prod.snd) (transferTables totals run) := by
  induction run generalizing totals with
  | nil => exact .closed _ _
  | cons t rest ih =>
      obtain ⟨table, check, reports, result⟩ := t
      have habout := about_transferProgress table reports
      cases check with
      | stopped => exact .ended _
      | failed => exact .ended _
      | goOn =>
          cases result with
          | stopped => exact .table (by decide) habout (.ended _)
          | failed message =>
              refine .table (by decide) ?_ (.ended _)
              exact List.forall_mem_append.mpr ⟨habout, by simp [About, transferTable]⟩
          | copied rows =>
              refine .table (by decide) ?_ (ih _)
              exact List.forall_mem_append.mpr ⟨habout, by simp [About, transferTable]⟩

theorem separate_transfer (run : List (TransferTable × TransferOutcome)) (totals : JobTotals)
    (names : List String) (h : names.length = run.length) :
    Separate names (transferTables totals run).length ↔
      Separate names (transferReached run).length := by
  induction run generalizing totals names with
  | nil =>
      obtain rfl := List.length_eq_zero_iff.mp h
      exact iff_of_true separate_nil separate_nil
  | cons t rest ih =>
      obtain ⟨table, check, reports, result⟩ := t
      obtain ⟨n, names, rfl⟩ := List.exists_cons_of_length_eq_add_one h
      cases check with
      | stopped => exact Iff.rfl
      | failed => exact Iff.rfl
      | goOn =>
          cases result with
          | stopped => exact Iff.rfl
          | failed message => exact Iff.rfl
          | copied rows =>
              simp only [transferTables, transferReached, ne_eq, not_true, if_false,
                List.length_cons]
              rw [separate_cons, separate_cons, ih _ names (Nat.succ.inj h)]

theorem account_transferProgress (table : TransferTable) (reports : List Nat)
    (hjob : p.jobId = jobId) (hname : p.tableName = table.sourceTable) :
    account (bookAll jobId p (transferProgress table reports)) =
      (.running, copiedSoFar reports) := by
  unfold transferProgress copiedSoFar
  induction reports using List.reverseRecOn with
  | nil => exact account_progress hjob hname _ _
  | append_singleton reports r _ =>
      rw [List.map_append, List.map_singleton, ← List.cons_append,
        account_append_progress hjob hname]
      simp

theorem transferAccounts_copied {rest : List (TransferTable × TransferOutcome)}
    {table : TransferTable} {reports : List Nat} {rows : Nat} :
    transferAccounts ((table, ⟨.goOn, reports, .copied rows⟩) :: rest) =
      (.completed, rows) :: transferAccounts rest := by
  simp [transferAccounts, transferReached, transferAccount]

theorem account_created (tables : List (String × String)) :
    (created jobId tables).map account = List.replicate tables.length (.pending, 0) := by
  induction tables with
  | nil => rfl
  | cons t tables ih =>
      rw [created_cons, List.map_cons, ih, List.length_cons, List.replicate_succ]
      rfl

theorem account_completed (ws : List Write) (rows tablesDone : Nat) (total : Nat)
    (hjob : p.jobId = jobId) (hname : p.tableName = n) :
    account (bookAll jobId p
      (ws ++ [.updateTableProgress n .completed rows, .updateJobTotals total tablesDone])) =
        (.completed, rows) := by
  rw [List.append_cons, account_append_totals]
  exact account_append_progress hjob hname ws _ _

theorem account_error (table : TransferTable) (reports : List Nat) (message : String) :
    account (bookAll jobId (createdRow jobId (table.sourceSchema, table.sourceTable))
      (transferProgress table reports ++
        [.setTableError table.sourceSchema table.sourceTable message])) =
        (.failed, copiedSoFar reports) := by
  have hrow : account (bookAll jobId (createdRow jobId (table.sourceSchema, table.sourceTable))
      (transferProgress table reports)) = (.running, copiedSoFar reports) :=
    account_transferProgress table reports rfl rfl
  have hrows := congrArg Prod.snd hrow
  rw [bookAll_append, bookAll_cons, bookAll_nil]
  simpa [account, Write.setPlan, Write.selects, Write.set, createdRow] using hrows

/-- The rows of a transfer hold their tables' accounts unless a table is stopped in its move. -/
theorem rows_transfer (run : List (TransferTable × TransferOutcome)) (totals : JobTotals) :
    (booked jobId (created jobId (run.map transferTable))
        (transferTables totals run)).map account = transferAccounts run ↔
      ∀ t ∈ transferReached run, t.2.result ≠ .stopped := by
  induction run generalizing totals with
  | nil => simp [created, booked, transferTables, transferAccounts, transferReached]
  | cons t rest ih =>
      obtain ⟨table, check, reports, result⟩ := t
      have hrow : account (bookAll jobId
          (createdRow jobId (table.sourceSchema, table.sourceTable))
          (transferProgress table reports)) = (.running, copiedSoFar reports) :=
        account_transferProgress table reports rfl rfl
      rw [List.map_cons, transferTable, created_cons]
      cases check with
      | stopped =>
          refine iff_of_true ?_ (by simp [transferReached])
          rw [transferTables, booked, ← created_cons, account_created]
          simp [transferAccounts, transferReached]
      | failed =>
          refine iff_of_true ?_ (by simp [transferReached])
          rw [transferTables, booked, ← created_cons, account_created]
          simp [transferAccounts, transferReached]
      | goOn =>
          cases result with
          | stopped =>
              refine iff_of_false (fun h => ?_) (by simp [transferReached])
              simp [transferTables, booked, transferAccounts, transferReached, transferAccount,
                hrow] at h
          | failed message =>
              refine iff_of_true ?_ (by simp [transferReached])
              simp [transferTables, booked, transferAccounts, transferReached, transferAccount,
                account_error, account_created]
          | copied rows =>
              rw [transferAccounts_copied]
              simp only [transferTables, booked, List.map_cons, transferReached, ne_eq, not_true,
                if_false, List.forall_mem_cons, List.cons.injEq]
              have hcompleted : account (bookAll jobId
                  (createdRow jobId (table.sourceSchema, table.sourceTable))
                  (transferProgress table reports ++
                    [.updateTableProgress table.sourceTable .completed rows,
                     .updateJobTotals (totals.rows + rows) (totals.tablesDone + 1)])) =
                  (.completed, rows) := account_completed _ _ _ _ rfl rfl
              rw [ih, hcompleted]
              simp

/-- The rows of a table that the totals leave out. -/
def unbooked (outcome : TransferOutcome) : Nat :=
  match outcome.result with
  | .copied _ => 0
  | .stopped => copiedSoFar outcome.reports
  | .failed _ => copiedSoFar outcome.reports

theorem totalsAfter_transferProgress (table : TransferTable) (reports : List Nat)
    (ws : List Write) :
    totalsAfter totals (transferProgress table reports ++ ws) = totalsAfter totals ws := by
  rw [totalsAfter_append]
  congr 1
  unfold transferProgress
  induction reports with
  | nil => rfl
  | cons r reports ih => exact ih

theorem totals_transfer (run : List (TransferTable × TransferOutcome)) (totals : JobTotals) :
    (totalsAfter totals (transferTables totals run).flatten).rows +
        ((transferReached run).map fun t => unbooked t.2).sum =
      totals.rows + ((transferAccounts run).map Prod.snd).sum := by
  induction run generalizing totals with
  | nil => rfl
  | cons t rest ih =>
      obtain ⟨table, check, reports, result⟩ := t
      cases check with
      | stopped => simp [transferTables, transferReached, transferAccounts, totalsAfter]
      | failed => simp [transferTables, transferReached, transferAccounts, totalsAfter]
      | goOn =>
          cases result with
          | stopped =>
              have htotals : totalsAfter totals (transferProgress table reports) = totals := by
                rw [← List.append_nil (transferProgress table reports),
                  totalsAfter_transferProgress]
                rfl
              simp [transferTables, transferReached, transferAccounts, htotals, unbooked,
                transferAccount]
          | failed message =>
              simp [transferTables, transferReached, transferAccounts, unbooked,
                transferAccount, totalsAfter_transferProgress]
              rfl
          | copied rows =>
              have hrest := ih ⟨totals.rows + rows, totals.tablesDone + 1⟩
              rw [transferAccounts_copied]
              simp only [transferTables, transferReached, ne_eq, not_true, if_false,
                List.flatten_cons, List.append_assoc, totalsAfter_transferProgress,
                List.map_cons, List.sum_cons]
              have hbooked : totalsAfter totals ([.updateTableProgress table.sourceTable .completed
                  rows, .updateJobTotals (totals.rows + rows) (totals.tablesDone + 1)] ++
                    (transferTables ⟨totals.rows + rows, totals.tablesDone + 1⟩ rest).flatten) =
                  totalsAfter ⟨totals.rows + rows, totals.tablesDone + 1⟩
                    (transferTables ⟨totals.rows + rows, totals.tablesDone + 1⟩ rest).flatten :=
                rfl
              have hnone : unbooked ⟨.goOn, reports, .copied rows⟩ = 0 := rfl
              rw [hbooked, hnone]
              simp only at hrest
              omega

theorem booked_transfer_iff {others : List TablePlan}
    (hothers : ∀ p ∈ others, p.jobId ≠ jobId)
    (run : List (TransferTable × TransferOutcome)) :
    Booked jobId others (run.map transferTable) (transferTables {} run)
      (transferAccounts run) ↔ TransferMeets run := by
  have hnames : (run.map transferTable).map Prod.snd = run.map fun t => t.1.sourceTable := by
    rw [List.map_map]
    rfl
  have htotals := totals_transfer run {}
  have hempty : ((transferReached run).map fun t => unbooked t.2).sum = 0 ↔
      ∀ t ∈ transferReached run, unbooked t.2 = 0 := by
    rw [List.sum_eq_zero_iff_forall_eq_nat, List.forall_mem_map]
  rw [booked_iff hothers (transfer_blocks run {}), rows_transfer,
    separate_transfer run {} _ (by simp), hnames]
  constructor
  · rintro ⟨hseparate, hstopped, hsum⟩
    refine ⟨hseparate, hstopped, fun t ht message hfailed => ?_⟩
    have hzero := hempty.mp (by rw [hsum] at htotals; simp at htotals; omega) t ht
    simpa [unbooked, hfailed] using hzero
  · rintro ⟨hseparate, hstopped, hfailed⟩
    refine ⟨hseparate, hstopped, ?_⟩
    have hzero := hempty.mpr fun t ht => ?_
    · rw [hzero] at htotals
      simpa using htotals
    · cases hresult : t.2.result with
      | copied rows => simp [unbooked, hresult]
      | stopped => exact absurd hresult (hstopped t ht)
      | failed message => simpa [unbooked, hresult] using hfailed t ht message hresult

end Transfer

section Migration

/-- The rows of the chunks that are loaded. -/
def loadedRows : MoveOutcome → Nat
  | .unplanned => 0
  | .empty => 0
  | .sequential chunks _ => (chunks.map ChunkOutcome.rows).sum
  | .parallel chunkRows _ _ => chunkRows.sum

def moveResult : MoveOutcome → MoveResult
  | .unplanned => .failed
  | .empty => .migrated 0
  | .sequential chunks .finished => .migrated (chunks.map ChunkOutcome.rows).sum
  | .sequential _ .stopped => .stopped
  | .sequential _ .interrupted => .failed
  | .sequential _ (.chunkFailed _) => .failed
  | .parallel chunkRows _ .finished => .migrated chunkRows.sum
  | .parallel _ _ .stopped => .stopped
  | .parallel _ _ .failed => .failed

/-- The rows of the table in the last of the totals that its move writes, if it writes any and does
not end well. -/
def lastBooked : MoveOutcome → Option Nat
  | .unplanned => none
  | .empty => none
  | .sequential chunks ending =>
      let rows := (chunks.map ChunkOutcome.rows).sum
      let whole := if chunks = [] then none else some rows
      match ending with
      | .chunkFailed reports => (reports.getLast?.map (rows + ·)).or whole
      | _ => whole
  | .parallel chunkRows reports _ => reports.getLast?.map fun added => (chunkRows.take added).sum

/-- What the move of a table comes to: one that is not to be loaded counts as an empty one. -/
def moveOf (t : MigrationTable × MigrationOutcome) : MoveOutcome :=
  if t.1.skipDataLoad then .empty else t.2.move

/-- The moves that begin. -/
def movesReached : List (MigrationTable × MigrationOutcome) → List MoveOutcome
  | [] => []
  | t :: rest =>
      if t.2.check ≠ .goOn then []
      else if moveResult (moveOf t) = .stopped then [moveOf t]
      else moveOf t :: movesReached rest

def moveAccount (outcome : MoveOutcome) : PlanStatus × Nat :=
  match moveResult outcome with
  | .migrated rows => (.completed, rows)
  | .stopped => (.stopped, loadedRows outcome)
  | .failed => (.failed, loadedRows outcome)

def migrationAccounts (run : List (MigrationTable × MigrationOutcome)) :
    List (PlanStatus × Nat) :=
  (movesReached run).map moveAccount ++
    List.replicate (run.length - (movesReached run).length) (.pending, 0)

def failedRows (outcome : MoveOutcome) : Nat :=
  if moveResult outcome = .failed then loadedRows outcome else 0

/-- What the last totals of these moves count beyond the tables that are migrated. -/
def carried : Nat → List MoveOutcome → Nat
  | beyond, [] => beyond
  | beyond, outcome :: rest =>
      match moveResult outcome with
      | .migrated _ => carried (if outcome = .empty then beyond else 0) rest
      | .stopped => carried ((lastBooked outcome).getD beyond) rest
      | .failed => carried ((lastBooked outcome).getD beyond) rest

structure MigrationMeets (run : List (MigrationTable × MigrationOutcome)) : Prop where
  separate : Separate (run.map fun t => t.1.tableName) (movesReached run).length
  notStopped : ∀ outcome ∈ movesReached run, moveResult outcome ≠ .stopped
  parallelEmpty : ∀ outcome ∈ movesReached run, ∀ chunkRows reports,
    outcome = .parallel chunkRows reports .failed → chunkRows.sum = 0
  failedCarried : ((movesReached run).map failedRows).sum =
    if (movesReached run).length = run.length then 0 else carried 0 (movesReached run)

def migrationTable (t : MigrationTable × MigrationOutcome) : String × String :=
  (t.1.sourceSchema, t.1.tableName)

variable {run : List (MigrationTable × MigrationOutcome)} {table : MigrationTable}
  {jobBase totals : JobTotals} {p : TablePlan}

attribute [local simp] movesReached in
theorem move_snd (outcome : MoveOutcome) :
    (move table jobBase outcome).2 = moveResult outcome := by
  cases outcome with
  | unplanned => rfl
  | empty => rfl
  | sequential chunks ending => cases ending <;> rfl
  | parallel chunkRows reports ending => cases ending <;> rfl

theorem about_migrating (rows : Nat) :
    ∀ w ∈ migrating table jobBase rows, About table.tableName w := by
  simp [migrating, About]

theorem about_chunkReports (rowsMigrated : Nat) (reports : List Nat) :
    ∀ w ∈ chunkReports table jobBase rowsMigrated reports, About table.tableName w := by
  intro w hw
  obtain ⟨r, -, hw⟩ := List.mem_flatMap.mp hw
  exact about_migrating _ w hw

theorem about_moveSequential (ending : SequentialEnd) (rowsMigrated : Nat)
    (chunks : List ChunkOutcome) :
    ∀ w ∈ moveSequential table jobBase ending rowsMigrated chunks,
      About table.tableName w := by
  induction chunks generalizing rowsMigrated with
  | nil =>
      cases ending with
      | finished => simp [moveSequential]
      | interrupted => simp [moveSequential]
      | stopped => simp [moveSequential, About]
      | chunkFailed reports =>
          exact List.forall_mem_append.mpr
            ⟨about_chunkReports rowsMigrated reports, by simp [About]⟩
  | cons chunk rest ih =>
      exact List.forall_mem_append.mpr ⟨List.forall_mem_append.mpr
        ⟨about_chunkReports _ _, about_migrating _⟩, ih _⟩

theorem about_moveParallel (chunkRows reports : List Nat) (ending : ParallelEnd) :
    ∀ w ∈ moveParallel table jobBase chunkRows reports ending, About table.tableName w := by
  refine List.forall_mem_append.mpr ⟨fun w hw => ?_, ?_⟩
  · obtain ⟨added, -, hw⟩ := List.mem_flatMap.mp hw
    exact about_migrating _ w hw
  · cases ending <;> simp [About]

theorem about_moveChunks (outcome : MoveOutcome) :
    ∀ w ∈ (moveChunks table jobBase outcome).1, About table.tableName w := by
  cases outcome with
  | unplanned => simp [moveChunks, markFailed, About]
  | empty => simp [moveChunks, About]
  | sequential chunks ending =>
      have hchunks : ∀ w ∈ moveSequential table jobBase ending 0 chunks,
          About table.tableName w := about_moveSequential ending 0 chunks
      cases ending <;>
        exact List.forall_mem_append.mpr ⟨hchunks, by simp [markFailed, markCompleted, About]⟩
  | parallel chunkRows reports ending =>
      have hchunks : ∀ w ∈ moveParallel table jobBase chunkRows reports ending,
          About table.tableName w := about_moveParallel chunkRows reports ending
      cases ending <;>
        exact List.forall_mem_append.mpr ⟨hchunks, by simp [markFailed, markCompleted, About]⟩

/-- The writes for a table that is reached. -/
def blockOf (totals : JobTotals) (t : MigrationTable × MigrationOutcome) : List Write :=
  if t.1.skipDataLoad then [.updateTableProgress t.1.tableName .completed 0]
  else (move t.1 totals t.2.move).1

def continueWith (totals : JobTotals) (rest : List (MigrationTable × MigrationOutcome)) :
    MoveResult → List (List Write)
  | .stopped => []
  | .failed => migrationTables totals rest
  | .migrated rows => migrationTables ⟨totals.rows + rows, totals.tablesDone + 1⟩ rest

variable {t : MigrationTable × MigrationOutcome}
  {rest : List (MigrationTable × MigrationOutcome)}

theorem migrationTables_goOn (hcheck : t.2.check = .goOn) :
    migrationTables totals (t :: rest) =
      blockOf totals t :: continueWith totals rest (moveResult (moveOf t)) := by
  obtain ⟨table, check, outcome⟩ := t
  obtain rfl : check = .goOn := hcheck
  cases hskip : table.skipDataLoad with
  | true => simp [migrationTables, blockOf, moveOf, hskip, moveResult, continueWith]
  | false =>
      have hresult : (move table totals outcome).2 = moveResult outcome := move_snd outcome
      simp only [migrationTables, blockOf, moveOf, hskip, Bool.false_eq_true, if_false]
      cases hmove : move table totals outcome with
      | mk writes result =>
          rw [hmove] at hresult
          simp only at hresult
          subst hresult
          cases moveResult outcome <;> rfl

theorem migrationTables_of_check (hcheck : t.2.check ≠ .goOn) :
    migrationTables totals (t :: rest) = [] := by
  unfold migrationTables
  cases h : t.2.check with
  | goOn => exact absurd h hcheck
  | stopped => rfl
  | failed => rfl

theorem movesReached_cons (hcheck : t.2.check = .goOn) :
    movesReached (t :: rest) = moveOf t ::
      if moveResult (moveOf t) = .stopped then [] else movesReached rest := by
  rw [movesReached, if_neg (not_not.mpr hcheck)]
  split_ifs <;> rfl

theorem blockOf_eq (totals : JobTotals) (t : MigrationTable × MigrationOutcome) :
    ∃ status ws, status ≠ .pending ∧ (∀ w ∈ ws, About t.1.tableName w) ∧
      blockOf totals t = .updateTableProgress t.1.tableName status 0 :: ws := by
  unfold blockOf
  cases t.1.skipDataLoad with
  | true => exact ⟨.completed, [], by decide, by simp, rfl⟩
  | false => exact ⟨.migrating, _, by decide, about_moveChunks t.2.move, rfl⟩

theorem migration_blocks (run : List (MigrationTable × MigrationOutcome)) (totals : JobTotals) :
    Blocks ((run.map migrationTable).map Prod.snd) (migrationTables totals run) := by
  induction run generalizing totals with
  | nil => exact .closed _ _
  | cons t rest ih =>
      by_cases hcheck : t.2.check = .goOn
      · obtain ⟨status, ws, hstatus, hws, hblock⟩ := blockOf_eq totals t
        rw [migrationTables_goOn hcheck, hblock]
        refine .table hstatus hws ?_
        cases moveResult (moveOf t) with
        | stopped => exact .ended _
        | failed => exact ih _
        | migrated rows => exact ih _
      · rw [migrationTables_of_check hcheck]
        exact .ended _

theorem separate_migration (run : List (MigrationTable × MigrationOutcome)) (totals : JobTotals)
    (names : List String) (h : names.length = run.length) :
    Separate names (migrationTables totals run).length ↔
      Separate names (movesReached run).length := by
  induction run generalizing totals names with
  | nil =>
      obtain rfl := List.length_eq_zero_iff.mp h
      exact iff_of_true separate_nil separate_nil
  | cons t rest ih =>
      obtain ⟨n, names, rfl⟩ := List.exists_cons_of_length_eq_add_one h
      by_cases hcheck : t.2.check = .goOn
      · rw [migrationTables_goOn hcheck, movesReached_cons hcheck, List.length_cons,
          List.length_cons, separate_cons, separate_cons]
        cases moveResult (moveOf t) with
        | stopped => exact Iff.rfl
        | failed => exact and_congr_right fun _ => ih _ names (Nat.succ.inj h)
        | migrated rows => exact and_congr_right fun _ => ih _ names (Nat.succ.inj h)
      · rw [migrationTables_of_check hcheck, movesReached, if_pos hcheck]
        exact Iff.rfl

/-- What the row of a table holds when its move has ended. -/
def bookedAccount (outcome : MoveOutcome) : PlanStatus × Nat :=
  match moveResult outcome, outcome with
  | .migrated rows, _ => (.completed, rows)
  | _, .sequential chunks _ => (.failed, (chunks.map ChunkOutcome.rows).sum)
  | _, _ => (.failed, 0)

theorem bookedAccount_eq_iff (outcome : MoveOutcome) :
    bookedAccount outcome = moveAccount outcome ↔
      moveResult outcome ≠ .stopped ∧
        ∀ chunkRows reports, outcome = .parallel chunkRows reports .failed →
          chunkRows.sum = 0 := by
  cases outcome with
  | unplanned => simp [bookedAccount, moveAccount, moveResult, loadedRows]
  | empty => simp [bookedAccount, moveAccount, moveResult]
  | sequential chunks ending =>
      cases ending <;> simp [bookedAccount, moveAccount, moveResult, loadedRows]
  | parallel chunkRows reports ending =>
      cases ending <;> simp [bookedAccount, moveAccount, moveResult, loadedRows, eq_comm]

theorem account_markFailed (hjob : p.jobId = jobId) (hname : p.tableName = table.tableName)
    (ws : List Write) (rows : Nat) :
    account (bookAll jobId p
      (.updateTableProgress table.tableName .migrating 0 :: (ws ++ markFailed table rows))) =
        (.failed, rows) :=
  account_append_progress hjob hname (.updateTableProgress table.tableName .migrating 0 :: ws) _ _

theorem account_markCompleted (hjob : p.jobId = jobId) (hname : p.tableName = table.tableName)
    (ws : List Write) (rows : Nat) :
    account (bookAll jobId p
      (.updateTableProgress table.tableName .migrating 0 ::
        (ws ++ markCompleted table jobBase rows))) = (.completed, rows) :=
  account_completed (.updateTableProgress table.tableName .migrating 0 :: ws) _ _ _ hjob hname

theorem account_blockOf (totals : JobTotals) (t : MigrationTable × MigrationOutcome)
    (hjob : p.jobId = jobId) (hname : p.tableName = t.1.tableName) :
    account (bookAll jobId p (blockOf totals t)) = bookedAccount (moveOf t) := by
  unfold blockOf moveOf
  cases t.1.skipDataLoad with
  | true => exact account_progress hjob hname _ _
  | false =>
      simp only [Bool.false_eq_true, if_false]
      cases t.2.move with
      | unplanned => exact account_markFailed hjob hname [] 0
      | empty =>
          exact account_append_progress hjob hname
            [.updateTableProgress t.1.tableName .migrating 0] _ _
      | sequential chunks ending =>
          cases ending with
          | finished => exact account_markCompleted hjob hname _ _
          | interrupted => exact account_markFailed hjob hname _ _
          | stopped => exact account_markFailed hjob hname _ _
          | chunkFailed reports => exact account_markFailed hjob hname _ _
      | parallel chunkRows reports ending =>
          cases ending with
          | finished => exact account_markCompleted hjob hname _ _
          | stopped => exact account_markFailed hjob hname _ _
          | failed => exact account_markFailed hjob hname _ _

theorem migrationAccounts_goOn (hcheck : t.2.check = .goOn) :
    migrationAccounts (t :: rest) = moveAccount (moveOf t) ::
      if moveResult (moveOf t) = .stopped then List.replicate rest.length (.pending, 0)
      else migrationAccounts rest := by
  rw [migrationAccounts, movesReached_cons hcheck]
  split_ifs <;> simp [migrationAccounts]

theorem migrationAccounts_of_check (hcheck : t.2.check ≠ .goOn) :
    migrationAccounts (t :: rest) = List.replicate (rest.length + 1) (.pending, 0) := by
  rw [migrationAccounts, movesReached, if_pos hcheck]
  rfl

/-- The rows of a migration hold their tables' accounts unless a table is stopped in its move, or
fails with parallel workers after rows of it are loaded. -/
theorem rows_migration (run : List (MigrationTable × MigrationOutcome)) (totals : JobTotals) :
    (booked jobId (created jobId (run.map migrationTable))
        (migrationTables totals run)).map account = migrationAccounts run ↔
      ∀ outcome ∈ movesReached run, moveResult outcome ≠ .stopped ∧
        ∀ chunkRows reports, outcome = .parallel chunkRows reports .failed →
          chunkRows.sum = 0 := by
  induction run generalizing totals with
  | nil => simp [created, booked, migrationTables, migrationAccounts, movesReached]
  | cons t rest ih =>
      by_cases hcheck : t.2.check = .goOn
      · have hrow : account (bookAll jobId (createdRow jobId (migrationTable t))
            (blockOf totals t)) = bookedAccount (moveOf t) := account_blockOf totals t rfl rfl
        rw [migrationTables_goOn hcheck, migrationAccounts_goOn hcheck, movesReached_cons hcheck,
          List.map_cons, created_cons, booked, List.map_cons, hrow, List.cons.injEq,
          bookedAccount_eq_iff, List.forall_mem_cons]
        refine and_congr_right fun hends => ?_
        rw [if_neg hends.1, if_neg hends.1]
        cases hresult : moveResult (moveOf t) with
        | stopped => exact absurd hresult hends.1
        | failed => exact ih _
        | migrated rows => exact ih _
      · rw [migrationTables_of_check hcheck, migrationAccounts_of_check hcheck, movesReached,
          if_pos hcheck, booked, account_created]
        simp

theorem totalsAfter_migrating {α : Type} (f : α → Nat) (xs : List α) {beyond : Nat}
    (htotals : totals.rows = jobBase.rows + beyond) :
    (totalsAfter totals (xs.flatMap fun x => migrating table jobBase (f x))).rows =
      jobBase.rows + (xs.getLast?.map f).getD beyond := by
  induction xs using List.reverseRecOn with
  | nil => exact htotals
  | append_singleton xs x _ =>
      rw [List.flatMap_append, totalsAfter_append, List.getLast?_append]
      rfl

theorem totalsAfter_progress (ws : List Write) (n : String) (status : PlanStatus) (rows : Nat) :
    totalsAfter totals (ws ++ [.updateTableProgress n status rows]) = totalsAfter totals ws := by
  rw [totalsAfter_append]
  rfl

/-- The last rows that the loop over the chunks books, from a count so far. -/
def lastChunk (ending : SequentialEnd) (rows : Nat) : Option Nat :=
  match ending with
  | .chunkFailed reports => reports.getLast?.map (rows + ·)
  | _ => none

theorem totalsAfter_moveSequential (ending : SequentialEnd) (rowsMigrated : Nat)
    (chunks : List ChunkOutcome) {beyond : Nat} (htotals : totals.rows = jobBase.rows + beyond) :
    (totalsAfter totals (moveSequential table jobBase ending rowsMigrated chunks)).rows =
      jobBase.rows + ((lastChunk ending (rowsMigrated + (chunks.map ChunkOutcome.rows).sum)).or
        (if chunks = [] then none
          else some (rowsMigrated + (chunks.map ChunkOutcome.rows).sum))).getD beyond := by
  induction chunks generalizing rowsMigrated totals beyond with
  | nil =>
      cases ending with
      | finished => exact htotals
      | interrupted => exact htotals
      | stopped => exact htotals
      | chunkFailed reports =>
          rw [moveSequential, totalsAfter_progress]
          have hreports : (totalsAfter totals (reports.flatMap fun chunkRows =>
              migrating table jobBase (rowsMigrated + chunkRows))).rows =
              jobBase.rows + (reports.getLast?.map (rowsMigrated + ·)).getD beyond :=
            totalsAfter_migrating _ reports htotals
          simpa [lastChunk, chunkReports] using hreports
  | cons chunk rest ih =>
      have hchunk : (totalsAfter (totalsAfter totals
          (chunkReports table jobBase rowsMigrated chunk.reports))
            (migrating table jobBase (rowsMigrated + chunk.rows))).rows =
          jobBase.rows + (rowsMigrated + chunk.rows) := rfl
      rw [moveSequential, totalsAfter_append, totalsAfter_append, ih _ hchunk]
      simp only [List.map_cons, List.sum_cons, ← Nat.add_assoc, reduceCtorEq, if_false]
      cases lastChunk ending
          (rowsMigrated + chunk.rows + (rest.map ChunkOutcome.rows).sum) with
      | some rows => rfl
      | none =>
          cases rest with
          | nil => simp
          | cons next rest => simp

theorem totalsAfter_moveParallel (chunkRows reports : List Nat) (ending : ParallelEnd)
    {beyond : Nat} (htotals : totals.rows = jobBase.rows + beyond) :
    (totalsAfter totals (moveParallel table jobBase chunkRows reports ending)).rows =
      jobBase.rows +
        (reports.getLast?.map fun added => (chunkRows.take added).sum).getD beyond := by
  have hreports : (totalsAfter totals (reports.flatMap fun added =>
      migrating table jobBase (chunkRows.take added).sum)).rows =
      jobBase.rows + (reports.getLast?.map fun added => (chunkRows.take added).sum).getD beyond :=
    totalsAfter_migrating _ reports htotals
  unfold moveParallel
  rw [totalsAfter_append]
  cases ending <;> exact hreports

theorem totalsAfter_completed (ws : List Write) (rows : Nat) :
    (totalsAfter totals (ws ++ markCompleted table jobBase rows)).rows = jobBase.rows + rows := by
  rw [totalsAfter_append]
  rfl

theorem totalsAfter_markFailed (ws : List Write) (rows : Nat) :
    totalsAfter totals (.updateTableProgress table.tableName .migrating 0 ::
      (ws ++ markFailed table rows)) = totalsAfter totals ws :=
  totalsAfter_progress (.updateTableProgress table.tableName .migrating 0 :: ws) _ _ _

theorem totals_blockOf (t : MigrationTable × MigrationOutcome) {booked : JobTotals}
    {beyond : Nat} (htotals : booked.rows = totals.rows + beyond) :
    (totalsAfter booked (blockOf totals t)).rows =
      match moveResult (moveOf t) with
      | .migrated rows => totals.rows + rows + (if moveOf t = .empty then beyond else 0)
      | _ => totals.rows + (lastBooked (moveOf t)).getD beyond := by
  unfold blockOf moveOf
  cases t.1.skipDataLoad with
  | true => simpa [totalsAfter, Write.setTotals, moveResult] using htotals
  | false =>
      simp only [Bool.false_eq_true, if_false]
      cases t.2.move with
      | unplanned => exact htotals
      | empty => exact htotals
      | sequential chunks ending =>
          have hchunks : (totalsAfter booked
              (moveSequential t.1 totals ending 0 chunks)).rows = _ :=
            totalsAfter_moveSequential ending 0 chunks htotals
          rw [Nat.zero_add] at hchunks
          cases ending with
          | finished => exact totalsAfter_completed (_ :: _) _
          | interrupted =>
              exact (congrArg JobTotals.rows (totalsAfter_markFailed _ _)).trans hchunks
          | stopped =>
              exact (congrArg JobTotals.rows (totalsAfter_markFailed _ _)).trans hchunks
          | chunkFailed reports =>
              exact (congrArg JobTotals.rows (totalsAfter_markFailed _ _)).trans hchunks
      | parallel chunkRows reports ending =>
          have hchunks : (totalsAfter booked
              (moveParallel t.1 totals chunkRows reports ending)).rows = _ :=
            totalsAfter_moveParallel chunkRows reports ending htotals
          cases ending with
          | finished => exact totalsAfter_completed (_ :: _) _
          | stopped =>
              exact (congrArg JobTotals.rows (totalsAfter_markFailed _ _)).trans hchunks
          | failed =>
              exact (congrArg JobTotals.rows (totalsAfter_markFailed _ _)).trans hchunks

theorem totals_migration (run : List (MigrationTable × MigrationOutcome))
    (totals booked : JobTotals) {beyond : Nat} (htotals : booked.rows = totals.rows + beyond)
    (hstop : ∀ outcome ∈ movesReached run, moveResult outcome ≠ .stopped) :
    (totalsAfter booked (migrationTables totals run).flatten).rows +
        ((movesReached run).map failedRows).sum =
      totals.rows + ((migrationAccounts run).map Prod.snd).sum +
        (if (movesReached run).length = run.length then 0
          else carried beyond (movesReached run)) := by
  induction run generalizing totals booked beyond with
  | nil => rfl
  | cons t rest ih =>
      by_cases hcheck : t.2.check = .goOn
      · have hblock := totals_blockOf t htotals
        rw [movesReached_cons hcheck, List.forall_mem_cons] at hstop
        obtain ⟨hthis, hlater⟩ := hstop
        rw [if_neg hthis] at hlater
        rw [migrationTables_goOn hcheck, migrationAccounts_goOn hcheck, movesReached_cons hcheck,
          if_neg hthis, if_neg hthis, List.flatten_cons, totalsAfter_append, carried]
        cases hresult : moveResult (moveOf t) with
        | stopped => exact absurd hresult hthis
        | failed =>
            have hrest := ih totals _ (by simpa [hresult] using hblock) hlater
            simp only [continueWith, List.map_cons, List.sum_cons, List.length_cons, failedRows,
              hresult, moveAccount, if_true, Nat.add_left_inj]
            omega
        | migrated rows =>
            have hrest := ih ⟨totals.rows + rows, totals.tablesDone + 1⟩ _
              (by simpa [hresult] using hblock) hlater
            simp only [continueWith, List.map_cons, List.sum_cons, List.length_cons, failedRows,
              hresult, moveAccount, reduceCtorEq, if_false, Nat.add_left_inj] at hrest ⊢
            omega
      · rw [migrationTables_of_check hcheck, migrationAccounts_of_check hcheck, movesReached,
          if_pos hcheck]
        simpa [totalsAfter, carried] using htotals

theorem booked_migration_iff {others : List TablePlan}
    (hothers : ∀ p ∈ others, p.jobId ≠ jobId)
    (run : List (MigrationTable × MigrationOutcome)) :
    Booked jobId others (run.map migrationTable) (migrationTables {} run)
      (migrationAccounts run) ↔ MigrationMeets run := by
  have hnames : (run.map migrationTable).map Prod.snd = run.map fun t => t.1.tableName := by
    rw [List.map_map]
    rfl
  rw [booked_iff hothers (migration_blocks run {}), rows_migration,
    separate_migration run {} _ (by simp), hnames]
  constructor
  · rintro ⟨hseparate, hends, hsum⟩
    have hstop := fun outcome hmem => (hends outcome hmem).1
    have htotals := totals_migration run {} {} (Nat.add_zero 0).symm hstop
    rw [hsum] at htotals
    exact ⟨hseparate, hstop, fun outcome hmem => (hends outcome hmem).2, by simpa using htotals⟩
  · rintro ⟨hseparate, hstop, hparallel, hcarried⟩
    have htotals := totals_migration run {} {} (Nat.add_zero 0).symm hstop
    rw [hcarried] at htotals
    exact ⟨hseparate, fun outcome hmem => ⟨hstop outcome hmem, hparallel outcome hmem⟩,
      by simpa using htotals⟩

end Migration

section Jobs

/-- A job books its progress to the right tables exactly when its run meets the condition, for a
transfer and for a migration. -/
theorem progress_booked_iff {others : List TablePlan} (hothers : ∀ p ∈ others, p.jobId ≠ jobId) :
    (∀ run, Booked jobId others (run.map transferTable) (transferTables {} run)
      (transferAccounts run) ↔ TransferMeets run) ∧
    (∀ run, Booked jobId others (run.map migrationTable) (migrationTables {} run)
      (migrationAccounts run) ↔ MigrationMeets run) :=
  ⟨booked_transfer_iff hothers, booked_migration_iff hothers⟩

def copies (schema table : String) (reports : List Nat) (result : CopyResult) :
    TransferTable × TransferOutcome :=
  (⟨schema, table⟩, ⟨.goOn, reports, result⟩)

def migrates (schema table : String) (move : MoveOutcome) : MigrationTable × MigrationOutcome :=
  ({ sourceSchema := schema, tableName := table }, ⟨.goOn, move⟩)

/-- A transfer whose second table fails at once, beside a row of an earlier job. -/
theorem progress_booked_orders :
    Booked "2" [createdRow "1" ("dbo", "orders")]
      ([copies "dbo" "orders" [4] (.copied 6), copies "hr" "staff" [] (.failed "denied")].map
        transferTable)
      (transferTables {}
        [copies "dbo" "orders" [4] (.copied 6), copies "hr" "staff" [] (.failed "denied")])
      [(.completed, 6), (.failed, 0)] := by
  have hothers : ∀ p ∈ [createdRow "1" ("dbo", "orders")], p.jobId ≠ "2" := by
    rw [List.forall_mem_singleton]
    decide
  refine ((progress_booked_iff hothers).1 _).mpr ⟨?_, ?_, ?_⟩
  · exact separate_cons.mpr ⟨by decide, separate_cons.mpr ⟨by decide, separate_zero⟩⟩
  · simp [transferReached, copies]
  · simp [transferReached, copies, copiedSoFar]

/-- Two tables of one name end with the second one's rows; a table that fails after its first chunk
keeps rows that the total leaves out. -/
theorem progress_misbooked :
    ¬ Booked "2" [] [("sales", "orders"), ("hr", "orders")]
      (transferTables {}
        [copies "sales" "orders" [] (.copied 5), copies "hr" "orders" [] (.copied 3)])
      [(.completed, 5), (.completed, 3)] ∧
    ¬ Booked "2" [] [("dbo", "orders")]
      (migrationTables {} [migrates "dbo" "orders" (.sequential [⟨[], 5⟩] (.chunkFailed []))])
      [(.failed, 5)] := by
  refine ⟨fun h => ?_, fun h => ?_⟩
  · exact absurd h.rows (by decide)
  · exact absurd h.totals (by decide)

end Jobs

end SqlOptima.PlanBooking
