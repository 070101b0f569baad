import Mathlib.Logic.Function.Basic
import SqlOptima.ChunkLease

namespace SqlOptima.ChunkedMigration

open SqlOptima.ChunkLease
open SqlOptima.TransitionSystem

inductive MigrationStatus
  | pending | queued | running | completed | partialDone | failed | stopped | paused | resumed
  deriving DecidableEq, Repr

structure PlannedChunk where
  chunkId : String
  startBoundary : String
  deriving DecidableEq, Repr

/-- What the chunk planner returns for a table. -/
structure TablePlan where
  schema : String
  table : String
  chunks : List PlannedChunk
  deriving DecidableEq, Repr

def TablePlan.rows (t : TablePlan) : List ChunkRow :=
  t.chunks.map fun c =>
    { chunkId := c.chunkId
      tableSchema := t.schema
      tableName := t.table
      startBoundary := c.startBoundary
      status := .pending
      retryCount := 0
      maxRetries := 3
      error := none
      startedAt := none
      completedAt := none
      leaseHolder := none
      leaseExpiresAt := none }

/-- Where a call of `migrate_table` stands between two suspensions. `direct` is
the loop of a migration without a chunk store. -/
inductive CallState
  | idle
  | planned (t : TablePlan)
  | saving (t : TablePlan) (rest : List ChunkRow)
  | expiring (t : TablePlan)
  | claiming (t : TablePlan)
  | working (t : TablePlan) (chunk : ChunkRow)
  | marking (t : TablePlan) (chunk : ChunkRow)
  | storing (t : TablePlan) (chunk : ChunkRow)
  | releasing (t : TablePlan) (chunk : ChunkRow)
  | failing (t : TablePlan) (chunk : ChunkRow) (error : Option String)
  | dropping (t : TablePlan) (chunk : ChunkRow)
  | direct (t : TablePlan) (finished rest : List ChunkRow)

inductive CallAction
  | begin (plan : Option TablePlan) (hasStore : Bool)
  | checkPending
  | saveNext
  | expire
  | stop
  | claim (locked : List String)
  | renew
  | attempts (outcome : Nat → Except String Nat)
  | mark
  | store
  | release
  | finish
  | raise
  | crash

/-- The status a call returns, with the chunks its planner returned and the
chunk records of the table at that moment. -/
structure Report where
  status : MigrationStatus
  planned : List ChunkRow
  chunks : List ChunkRow

structure Outcome where
  store : Store
  call : CallState
  report : Option Report

def tableRows (store : Store) (t : TablePlan) : List ChunkRow :=
  store.rows.filter fun r => r.tableSchema == t.schema && r.tableName == t.table

def pendingChunks (store : Store) (t : TablePlan) : List ChunkRow :=
  (tableRows store t).filter fun r =>
    r.status == .pending || r.status == .failed || r.status == .retrying

/-- Up to `n` attempts at a chunk: the rows loaded, or the last error. -/
def attemptChunk (outcome : Nat → Except String Nat) :
    Nat → Nat → Option String → Except (Option String) Nat
  | 0, _, error => .error error
  | n + 1, i, _ =>
      match outcome i with
      | .ok rows => .ok rows
      | .error e => attemptChunk outcome n (i + 1) (some e)

def runAttempts (chunk : ChunkRow) (outcome : Nat → Except String Nat) :
    Except (Option String) Nat :=
  attemptChunk outcome (chunk.maxRetries + 1).toNat 0 none

def failedStatus (chunk : ChunkRow) : ChunkStatus :=
  if chunk.retryCount ≥ chunk.maxRetries - 1 then .quarantined else .failed

def returns (store : Store) (status : MigrationStatus) (planned chunks : List ChunkRow) :
    Outcome :=
  ⟨store, .idle, some ⟨status, planned, chunks⟩⟩

def goesOn (store : Store) (call : CallState) : Outcome := ⟨store, call, none⟩

section Step

variable (chunkHash : String → String) (collate : String → String → Bool) (leaseDuration : Nat)

/-- Saving a new chunk violates the unique hash of a stored one. -/
def hashTaken (store : Store) (chunk : ChunkRow) : Bool :=
  store.rows.any fun r =>
    r.chunkId != chunk.chunkId && chunkHash r.chunkId == chunkHash chunk.chunkId

/-- What an exception makes of a call: before the loop it leaves `migrate_table`. -/
def raised (store : Store) : CallState → Option Outcome
  | .idle => none
  | .planned _ | .saving _ _ | .expiring _ => some (goesOn store .idle)
  | .claiming t | .working t _ | .marking t _ | .storing t _ | .releasing t _
  | .failing t _ _ | .dropping t _ => some (returns store .failed t.rows (tableRows store t))
  | .direct t finished rest => some (returns store .failed t.rows (finished ++ rest))

def callStep (worker : String) (store : Store) : CallState → CallAction → Option Outcome
  | .idle, .begin none _ => some (returns store .failed [] [])
  | .idle, .begin (some t) hasStore =>
      if t.chunks = [] then
        some (returns store .completed [] (if hasStore then tableRows store t else []))
      else some (goesOn store (if hasStore then .planned t else .direct t [] t.rows))
  | .planned t, .checkPending =>
      some (goesOn store (if (pendingChunks store t).isEmpty then .saving t t.rows else .expiring t))
  | .saving t [], .saveNext => some (goesOn store (.expiring t))
  | .saving t (c :: rest), .saveNext =>
      if hashTaken chunkHash store c then raised store (.saving t (c :: rest))
      else some (goesOn (store.saveChunk worker c) (.saving t rest))
  | .expiring t, .expire =>
      some (goesOn (exec collate leaseDuration store .expireStaleLeases) (.claiming t))
  | .claiming t, .stop => some (returns store .stopped t.rows (tableRows store t))
  | .claiming t, .claim locked =>
      match nextClaim collate store.clock t.schema t.table locked store.rows with
      | none => some (returns store .completed t.rows (tableRows store t))
      | some r =>
          some (goesOn
            (exec collate leaseDuration store (.claimChunk worker t.schema t.table locked))
            (.working t (claimRow worker store.clock (store.clock + leaseDuration) r)))
  | .working t chunk, .renew =>
      some (goesOn (exec collate leaseDuration store (.renewLease worker chunk.chunkId))
        (.working t chunk))
  | .working t chunk, .attempts outcome =>
      match runAttempts chunk outcome with
      | .ok _ => some (goesOn store (.marking t { chunk with status := .completed }))
      | .error e => some (goesOn store (.failing t chunk e))
  | .marking t chunk, .mark =>
      some (goesOn
        (exec collate leaseDuration store (.updateStatus worker chunk.chunkId .completed none))
        (.storing t chunk))
  | .storing t chunk, .store =>
      some (goesOn (store.saveChunk worker chunk) (.releasing t chunk))
  | .releasing t chunk, .release =>
      some (goesOn (exec collate leaseDuration store (.releaseChunk worker chunk.chunkId))
        (.claiming t))
  | .failing t chunk e, .mark =>
      some (goesOn
        (exec collate leaseDuration store
          (.updateStatus worker chunk.chunkId (failedStatus chunk) e))
        (.dropping t chunk))
  | .dropping t chunk, .release =>
      let store := exec collate leaseDuration store (.releaseChunk worker chunk.chunkId)
      some (returns store .failed t.rows (tableRows store t))
  | .direct t finished rest, .stop => some (returns store .stopped t.rows (finished ++ rest))
  | .direct t finished [], .finish => some (returns store .completed t.rows finished)
  | .direct t finished (chunk :: rest), .attempts outcome =>
      match runAttempts chunk outcome with
      | .ok _ =>
          some (goesOn store
            (.direct t (finished ++ [{ chunk with status := .completed }]) rest))
      | .error e =>
          some (returns store .failed t.rows
            (finished ++ { chunk with status := failedStatus chunk, error := e } :: rest))
  | call, .raise => raised store call
  | _, .crash => some (goesOn store .idle)
  | _, _ => none

/-- Any number of calls over one store, and the reports they returned. -/
structure State where
  store : Store
  calls : Nat → CallState
  reports : List Report

/-- A step of a call, or of anything else that uses the store, time included. -/
inductive Action
  | call (i : Nat) (a : CallAction)
  | other (c : Call)

variable (workerId : Nat → String)

def step (s : State) : Action → Option State
  | .call i a =>
      (callStep chunkHash collate leaseDuration (workerId i) s.store (s.calls i) a).map fun o =>
        ⟨o.store, Function.update s.calls i o.call, o.report.toList ++ s.reports⟩
  | .other c => some { s with store := exec collate leaseDuration s.store c }

def initial (store : Store) : State := ⟨store, fun _ => .idle, []⟩

end Step

section Properties

variable (chunkHash : String → String) (collate : String → String → Bool)

/-- A call reports the table as completed only when every chunk it planned is on
record, under its hash, and every record of the table is completed. -/
def Report.Right (r : Report) : Prop :=
  r.status = .completed →
    (∀ c ∈ r.planned, ∃ d ∈ r.chunks, chunkHash d.chunkId = chunkHash c.chunkId) ∧
      ∀ d ∈ r.chunks, d.status = .completed

/-- What a claim must find when it finds nothing to claim: every planned chunk
stored, and no chunk of the table quarantined, under a lease that has not expired
or locked by another transaction. -/
structure Settled (store : Store) (t : TablePlan) (locked : List String) : Prop where
  stored : ∀ c ∈ t.rows, ∃ d ∈ tableRows store t, chunkHash d.chunkId = chunkHash c.chunkId
  notQuarantined : ∀ d ∈ tableRows store t, d.status ≠ .quarantined
  notLeased : ∀ d ∈ tableRows store t, d.status = .running → expired store.clock d = true
  notLocked : ∀ d ∈ tableRows store t, claimable store.clock d = true → d.chunkId ∉ locked

def CallOk (store : Store) : CallState → CallAction → Prop
  | .idle, .begin (some t) true =>
      t.chunks = [] → ∀ d ∈ tableRows store t, d.status = .completed
  | .claiming t, .claim locked =>
      nextClaim collate store.clock t.schema t.table locked store.rows = none →
        Settled chunkHash store t locked
  | _, _ => True

def StepOk (s : State) : Action → Prop
  | .call i a => CallOk chunkHash collate s.store (s.calls i) a
  | .other _ => True

/-- The loop without a store has completed every chunk it has left behind. -/
def CallState.Inv : CallState → Prop
  | .direct t finished rest =>
      (∀ c ∈ finished, c.status = .completed) ∧
        (finished ++ rest).map ChunkRow.chunkId = t.rows.map ChunkRow.chunkId
  | _ => True

end Properties

section Calls

variable {chunkHash : String → String} {collate : String → String → Bool} {leaseDuration : Nat}
  {worker : String} {store : Store} {t : TablePlan} {locked : List String}

theorem nextClaim_eq_none_iff {now : Nat} {schema table : String} {rows : List ChunkRow} :
    nextClaim collate now schema table locked rows = none ↔
      ∀ r ∈ rows, r.tableSchema = schema → r.tableName = table → claimable now r = true →
        r.chunkId ∈ locked := by
  rw [nextClaim, Option.map_eq_none_iff, List.head?_eq_none_iff, List.filter_eq_nil_iff]
  apply forall₂_congr
  intro r hr
  simp only [Bool.and_eq_true, beq_iff_eq, Bool.not_eq_true', List.contains_eq_mem,
    decide_eq_false_iff_not]
  tauto

theorem mem_tableRows {r : ChunkRow} :
    r ∈ tableRows store t ↔ r ∈ store.rows ∧ r.tableSchema = t.schema ∧ r.tableName = t.table := by
  rw [tableRows, List.mem_filter, Bool.and_eq_true, beq_iff_eq, beq_iff_eq]

/-- A chunk that is neither claimable, nor quarantined, nor leased is completed. -/
theorem completed_of_not_claimable {now : Nat} {r : ChunkRow} (hclaim : claimable now r = false)
    (hquarantine : r.status ≠ .quarantined) (hlease : r.status = .running → expired now r = true) :
    r.status = .completed := by
  cases hstatus : r.status with
  | completed => rfl
  | quarantined => exact absurd hstatus hquarantine
  | running => simp [claimable, hstatus, hlease hstatus] at hclaim
  | pending => simp [claimable, hstatus] at hclaim
  | failed => simp [claimable, hstatus] at hclaim
  | retrying => simp [claimable, hstatus] at hclaim

theorem claimable_of_completed {now : Nat} {r : ChunkRow} (h : r.status = .completed) :
    claimable now r = false := by
  simp [claimable, h]

/-- A claim that finds nothing ends a call rightly exactly when the table is
settled. -/
theorem right_iff_settled
    (hnone : nextClaim collate store.clock t.schema t.table locked store.rows = none) :
    Report.Right chunkHash ⟨.completed, t.rows, tableRows store t⟩ ↔
      Settled chunkHash store t locked := by
  rw [nextClaim_eq_none_iff] at hnone
  constructor
  · intro h
    obtain ⟨hstored, hcompleted⟩ := h rfl
    refine ⟨hstored, ?_, ?_, ?_⟩
    · intro d hd
      rw [hcompleted d hd]
      decide
    · intro d hd hrunning
      exact absurd ((hcompleted d hd).symm.trans hrunning) (by decide)
    · intro d hd hclaim
      rw [claimable_of_completed (hcompleted d hd)] at hclaim
      exact absurd hclaim (by decide)
  · intro h _
    refine ⟨h.stored, ?_⟩
    intro d hd
    obtain ⟨hmem, hschema, htable⟩ := mem_tableRows.mp hd
    have hclaim : claimable store.clock d = false := by
      rw [← Bool.not_eq_true]
      intro hclaim
      exact h.notLocked d hd hclaim (hnone d hmem hschema htable hclaim)
    exact completed_of_not_claimable hclaim (h.notQuarantined d hd) (h.notLeased d hd)

theorem right_of_ne {r : Report} (h : r.status ≠ .completed) : r.Right chunkHash :=
  fun hc => absurd hc h

/-- What a step of a call must establish: the loop without a store keeps its
invariant, and what the step reports is right exactly when it meets the
condition. -/
structure Judged (chunkHash : String → String) (o : Outcome) (ok : Prop) : Prop where
  inv : o.call.Inv
  right : (∀ r ∈ o.report, r.Right chunkHash) ↔ ok

theorem judged_goesOn {call : CallState} (h : call.Inv) :
    Judged chunkHash (goesOn store call) True :=
  ⟨h, iff_of_true (fun _ hr => absurd hr (by simp [goesOn])) trivial⟩

theorem judged_returns {status : MigrationStatus} {planned chunks : List ChunkRow} {ok : Prop}
    (h : Report.Right chunkHash ⟨status, planned, chunks⟩ ↔ ok) :
    Judged chunkHash (returns store status planned chunks) ok := by
  refine ⟨trivial, ?_⟩
  rw [← h]
  simp [returns]

theorem judged_returns_other {status : MigrationStatus} {planned chunks : List ChunkRow}
    (h : status ≠ .completed) : Judged chunkHash (returns store status planned chunks) True :=
  judged_returns (iff_of_true (right_of_ne h) trivial)

theorem judged_raised {call : CallState} {o : Outcome} (h : raised store call = some o) :
    Judged chunkHash o True := by
  unfold raised at h
  split at h <;> cases h
  all_goals first
    | exact judged_goesOn trivial
    | exact judged_returns_other (by decide)

/-- An exception and a crash need nothing. -/
theorem callOk_of_ends {call : CallState} {a : CallAction} (h : a = .raise ∨ a = .crash) :
    CallOk chunkHash collate store call a ↔ True := by
  rcases h with rfl | rfl
  · cases call <;> exact Iff.rfl
  · cases call <;> exact Iff.rfl

theorem judged_begin (leaseDuration : Nat) (worker : String) {hasStore : Bool} {o : Outcome}
    (h : callStep chunkHash collate leaseDuration worker store .idle (.begin (some t) hasStore) =
      some o) :
    Judged chunkHash o (CallOk chunkHash collate store .idle (.begin (some t) hasStore)) := by
  rw [callStep] at h
  by_cases hempty : t.chunks = []
  · rw [if_pos hempty] at h
    obtain rfl := Option.some.inj h
    apply judged_returns
    cases hasStore with
    | false => exact iff_of_true (fun _ => ⟨by simp, by simp⟩) trivial
    | true =>
        constructor
        · intro hright _
          exact (hright rfl).2
        · intro hdone _
          exact ⟨by simp, hdone hempty⟩
  · rw [if_neg hempty] at h
    obtain rfl := Option.some.inj h
    cases hasStore with
    | false => exact judged_goesOn ⟨by simp, by simp⟩
    | true =>
        refine ⟨trivial, iff_of_true (by simp [goesOn]) ?_⟩
        exact fun h => absurd h hempty

theorem judged_claim (leaseDuration : Nat) (worker : String) {o : Outcome}
    (h : callStep chunkHash collate leaseDuration worker store (.claiming t) (.claim locked) =
      some o) :
    Judged chunkHash o (CallOk chunkHash collate store (.claiming t) (.claim locked)) := by
  rw [callStep] at h
  cases hnext : nextClaim collate store.clock t.schema t.table locked store.rows with
  | none =>
      rw [hnext] at h
      obtain rfl := Option.some.inj h
      apply judged_returns
      rw [right_iff_settled hnext]
      exact ⟨fun hs _ => hs, fun hs => hs hnext⟩
  | some r =>
      rw [hnext] at h
      obtain rfl := Option.some.inj h
      refine ⟨trivial, iff_of_true (by simp [goesOn]) ?_⟩
      intro hnone
      exact absurd (hnone.symm.trans hnext) (by simp)

/-- Completing a chunk keeps the invariant of the loop without a store. -/
theorem inv_direct_next {finished rest : List ChunkRow} {chunk : ChunkRow}
    (h : (CallState.direct t finished (chunk :: rest)).Inv) :
    (CallState.direct t (finished ++ [{ chunk with status := .completed }]) rest).Inv := by
  refine ⟨?_, ?_⟩
  · intro c hc
    rcases List.mem_append.mp hc with hc | hc
    · exact h.1 c hc
    · rw [List.mem_singleton.mp hc]
  · rw [← h.2]
    simp

theorem right_direct {finished : List ChunkRow} (h : (CallState.direct t finished []).Inv) :
    Report.Right chunkHash ⟨.completed, t.rows, finished⟩ := by
  intro _
  refine ⟨?_, h.1⟩
  intro c hc
  have hids : finished.map ChunkRow.chunkId = t.rows.map ChunkRow.chunkId := by
    simpa using h.2
  have hid : c.chunkId ∈ finished.map ChunkRow.chunkId := hids ▸ List.mem_map_of_mem hc
  obtain ⟨d, hd, hdc⟩ := List.mem_map.mp hid
  exact ⟨d, hd, by rw [hdc]⟩

theorem judged_callStep {call : CallState} {a : CallAction} {o : Outcome} (hinv : call.Inv)
    (h : callStep chunkHash collate leaseDuration worker store call a = some o) :
    Judged chunkHash o (CallOk chunkHash collate store call a) := by
  unfold callStep at h
  split at h
  -- in the order of the step's cases: up to the loop
  · cases h
    exact judged_returns_other (by decide)
  · exact judged_begin leaseDuration worker h
  · next t =>
      cases h
      split
      · exact judged_goesOn trivial
      · exact judged_goesOn trivial
  · cases h
    exact judged_goesOn trivial
  · split at h
    · exact judged_raised h
    · cases h
      exact judged_goesOn trivial
  · cases h
    exact judged_goesOn trivial
  -- the loop over a chunk store
  · cases h
    exact judged_returns_other (by decide)
  · exact judged_claim leaseDuration worker h
  · cases h
    exact judged_goesOn trivial
  · split at h
    · cases h
      exact judged_goesOn trivial
    · cases h
      exact judged_goesOn trivial
  · cases h
    exact judged_goesOn trivial
  · cases h
    exact judged_goesOn trivial
  · cases h
    exact judged_goesOn trivial
  · cases h
    exact judged_goesOn trivial
  · cases h
    exact judged_returns_other (by decide)
  -- the loop without one
  · cases h
    exact judged_returns_other (by decide)
  · cases h
    exact judged_returns (iff_of_true (right_direct hinv) trivial)
  · split at h
    · cases h
      exact judged_goesOn (inv_direct_next hinv)
    · cases h
      exact judged_returns_other (by decide)
  · rw [callOk_of_ends (.inl rfl)]
    exact judged_raised h
  · cases h
    rw [callOk_of_ends (.inr rfl)]
    exact judged_goesOn trivial
  · cases h

end Calls

section Runs

variable {chunkHash : String → String} {collate : String → String → Bool} {leaseDuration : Nat}
  {workerId : Nat → String} {s t : State}

variable (chunkHash) in
def AllRight (s : State) : Prop := ∀ r ∈ s.reports, r.Right chunkHash

variable (chunkHash) in
structure RunInv (s : State) : Prop where
  right : AllRight chunkHash s
  calls : ∀ i, (s.calls i).Inv

theorem runInv_initial (store : Store) : RunInv chunkHash (initial store) :=
  ⟨by simp [AllRight, initial], fun _ => trivial⟩

theorem step_call {i : Nat} {a : CallAction}
    (h : step chunkHash collate leaseDuration workerId s (.call i a) = some t) :
    ∃ o, callStep chunkHash collate leaseDuration (workerId i) s.store (s.calls i) a = some o ∧
      t = ⟨o.store, Function.update s.calls i o.call, o.report.toList ++ s.reports⟩ := by
  obtain ⟨o, ho, rfl⟩ := Option.map_eq_some_iff.mp h
  exact ⟨o, ho, rfl⟩

theorem allRight_iff {o : Outcome} {calls : Nat → CallState} (h : AllRight chunkHash s) :
    AllRight chunkHash ⟨o.store, calls, o.report.toList ++ s.reports⟩ ↔
      ∀ r ∈ o.report, r.Right chunkHash := by
  constructor
  · intro hall r hr
    exact hall r (List.mem_append_left _ (Option.mem_toList.mpr hr))
  · intro hreport r hr
    rcases List.mem_append.mp hr with hr | hr
    · exact hreport r (Option.mem_toList.mp hr)
    · exact h r hr

theorem runInv_step {a : Action} (h : RunInv chunkHash s) (hok : StepOk chunkHash collate s a)
    (hstep : step chunkHash collate leaseDuration workerId s a = some t) :
    RunInv chunkHash t := by
  cases a with
  | other c =>
      cases hstep
      exact ⟨h.right, h.calls⟩
  | call i a =>
      obtain ⟨o, ho, rfl⟩ := step_call hstep
      have hjudged := judged_callStep (h.calls i) ho
      refine ⟨(allRight_iff h.right).mpr (hjudged.right.mpr hok), ?_⟩
      intro j
      by_cases hj : j = i
      · subst hj
        dsimp only
        rw [Function.update_self]
        exact hjudged.inv
      · dsimp only
        rw [Function.update_of_ne hj]
        exact h.calls j

theorem stepOk_of_allRight {a : Action} (h : RunInv chunkHash s)
    (hstep : step chunkHash collate leaseDuration workerId s a = some t)
    (hright : AllRight chunkHash t) : StepOk chunkHash collate s a := by
  cases a with
  | other c => exact trivial
  | call i a =>
      obtain ⟨o, ho, rfl⟩ := step_call hstep
      exact (judged_callStep (h.calls i) ho).right.mp ((allRight_iff h.right).mp hright)

/-- Along every run, every report of a completed table is right exactly when
every claim that finds nothing finds the table settled, and every empty plan the
table's stored chunks completed. -/
theorem completed_reports_right_iff (chunkHash : String → String)
    (collate : String → String → Bool) (leaseDuration : Nat) (workerId : Nat → String)
    (store : Store) {as : List Action}
    (hrun : (runSteps (step chunkHash collate leaseDuration workerId) (initial store) as).isSome) :
    (∀ pre s, pre <+: as →
        runSteps (step chunkHash collate leaseDuration workerId) (initial store) pre = some s →
          AllRight chunkHash s) ↔
      ∀ pre a s, pre ++ [a] <+: as →
        runSteps (step chunkHash collate leaseDuration workerId) (initial store) pre = some s →
          StepOk chunkHash collate s a :=
  along_run_iff (runInv_initial store) (fun _ h => h.right)
    (fun _ _ _ h hok hstep => runInv_step h hok hstep)
    (fun _ _ _ h hstep hright => stepOk_of_allRight h hstep hright) hrun

end Runs

section Leased

def ordersPlan (suffix : String) : TablePlan :=
  ⟨"dbo", "orders", [⟨"a" ++ suffix, "1"⟩, ⟨"b" ++ suffix, "2"⟩]⟩

def ordersHash (chunkId : String) : String := (chunkId.take 1).toString

def before (a b : String) : Bool := decide (a < b)

def twoWorkers (i : Nat) : String := if i = 0 then "worker-0" else "worker-1"

/-- The first call stores the plan and claims a chunk; the second finds a chunk
pending, completes it, and finds nothing more to claim. -/
def leasedElsewhere : List Action :=
  ([.begin (some (ordersPlan "0")) true, .checkPending, .saveNext, .saveNext, .saveNext, .expire,
      .claim []] : List CallAction).map (.call 0) ++
    ([.begin (some (ordersPlan "1")) true, .checkPending, .expire, .claim [],
      .attempts fun _ => .ok 10, .mark, .store, .release, .claim []] : List CallAction).map
        (.call 1)

def emptyStore : Store := ⟨[], 0, [], false, []⟩

def afterLeased : Option State :=
  runSteps (step ordersHash before 300 twoWorkers) (initial emptyStore) leasedElsewhere

theorem leased_reports :
    afterLeased.map (fun s => s.reports.map fun r =>
        (r.status, r.chunks.map fun c => (c.chunkId, c.status))) =
      some [(.completed, [("a0", .running), ("b0", .completed)])] := by
  decide

/-- The table is reported completed while a chunk is running under the lease of
the other worker. -/
theorem leased_chunk_reported_completed :
    ∃ s, runSteps (step ordersHash before 300 twoWorkers) (initial emptyStore) leasedElsewhere =
      some s ∧ ¬ AllRight ordersHash s := by
  obtain ⟨s, hs, hreports⟩ := Option.map_eq_some_iff.mp leased_reports
  refine ⟨s, hs, ?_⟩
  intro hall
  obtain ⟨r, hr, heq⟩ : ∃ r ∈ s.reports,
      (r.status, r.chunks.map fun c => (c.chunkId, c.status)) =
        (MigrationStatus.completed, [("a0", ChunkStatus.running), ("b0", .completed)]) := by
    rw [← List.mem_map, hreports]
    exact List.mem_singleton_self _
  obtain ⟨hstatus, hchunks⟩ := Prod.mk.inj heq
  obtain ⟨c, hc, hrunning⟩ : ∃ c ∈ r.chunks, (c.chunkId, c.status) = ("a0", .running) := by
    rw [← List.mem_map, hchunks]
    exact List.mem_cons_self
  have hcompleted := (hall r hr hstatus).2 c hc
  exact absurd ((Prod.mk.inj hrunning).2.symm.trans hcompleted) (by decide)

theorem leased_run_right_iff :
    (∀ pre s, pre <+: leasedElsewhere →
        runSteps (step ordersHash before 300 twoWorkers) (initial emptyStore) pre = some s →
          AllRight ordersHash s) ↔
      ∀ pre a s, pre ++ [a] <+: leasedElsewhere →
        runSteps (step ordersHash before 300 twoWorkers) (initial emptyStore) pre = some s →
          StepOk ordersHash before s a :=
  completed_reports_right_iff ordersHash before 300 twoWorkers emptyStore (by decide)

end Leased

end SqlOptima.ChunkedMigration
