import SqlOptima.TransitionSystem

namespace SqlOptima.ChunkLease

open TransitionSystem (along_foldl_iff)

inductive ChunkStatus where
  | pending | running | completed | failed | retrying | quarantined
  deriving DecidableEq, Repr

/-- A row of `_migration_chunks`, as far as claims, leases and retries read or write it. -/
structure ChunkRow where
  chunkId : String
  tableSchema : String
  tableName : String
  startBoundary : String
  status : ChunkStatus
  retryCount : Int
  maxRetries : Int
  error : Option String
  startedAt : Option Nat
  completedAt : Option Nat
  leaseHolder : Option String
  leaseExpiresAt : Option Nat
  deriving DecidableEq, Repr

/-- The fields a lease protects. -/
def ChunkRow.guarded (r : ChunkRow) : ChunkStatus × Option String × Int :=
  (r.status, r.leaseHolder, r.retryCount)

def expired (now : Nat) (r : ChunkRow) : Bool :=
  r.leaseExpiresAt.any (· < now)

def claimable (now : Nat) (r : ChunkRow) : Bool :=
  r.status == .pending || r.status == .failed || r.status == .retrying ||
    (r.status == .running && expired now r)

section Rows

def claimRow (worker : String) (now expiresAt : Nat) (r : ChunkRow) : ChunkRow :=
  { r with
    status := .running
    startedAt := some now
    leaseHolder := some worker
    leaseExpiresAt := some expiresAt
    retryCount := if r.status = .retrying then r.retryCount + 1 else r.retryCount }

def releaseRow (worker : String) (r : ChunkRow) : ChunkRow :=
  if r.leaseHolder = some worker then { r with leaseHolder := none, leaseExpiresAt := none } else r

def renewRow (worker : String) (expiresAt : Nat) (r : ChunkRow) : ChunkRow :=
  if r.leaseHolder = some worker then { r with leaseExpiresAt := some expiresAt } else r

def expireRow (now : Nat) (r : ChunkRow) : ChunkRow :=
  if r.status = .running ∧ expired now r = true then
    { r with status := .pending, leaseHolder := none, leaseExpiresAt := none }
  else r

def updateStatusRow (status : ChunkStatus) (error : Option String) (now : Nat) (r : ChunkRow) :
    ChunkRow :=
  match status with
  | .running => { r with status, startedAt := some now }
  | .completed | .failed | .quarantined =>
      { r with status, completedAt := some now, error, leaseHolder := none, leaseExpiresAt := none }
  | .pending | .retrying => { r with status }

def incrementRetryRow (r : ChunkRow) : ChunkRow :=
  { r with
    retryCount := r.retryCount + 1
    status := if r.retryCount + 1 ≥ r.maxRetries then .quarantined else .retrying
    leaseHolder := none
    leaseExpiresAt := none }

/-- The `ON CONFLICT` part of `save_chunk`: what the caller's copy says replaces the row, its lease
included. -/
def saveRow (plan r : ChunkRow) : ChunkRow :=
  { r with
    status := plan.status
    retryCount := plan.retryCount
    error := plan.error
    startedAt := plan.startedAt
    completedAt := plan.completedAt
    leaseHolder := plan.leaseHolder
    leaseExpiresAt := plan.leaseExpiresAt }

end Rows

/-- The store and the clock, the claims with the copies of the chunks that they returned, the last
one first, and a record of the run: whether a worker that does not hold a chunk any more changed it,
and who completed which chunk under whose lease. -/
structure Store where
  rows : List ChunkRow
  clock : Nat
  claims : List (String × ChunkRow)
  intruded : Bool
  completions : List (String × Option String)
  deriving DecidableEq, Repr

inductive Call where
  | tick (seconds : Nat)
  | claimChunk (worker schema table : String) (locked : List String)
  | releaseChunk (worker chunkId : String)
  | renewLease (worker chunkId : String)
  | expireStaleLeases
  | updateStatus (worker chunkId : String) (status : ChunkStatus) (error : Option String)
  | incrementRetry (worker chunkId : String)
  | savePlanned (plan : ChunkRow)
  | saveCompleted (worker chunkId : String)
  deriving DecidableEq, Repr

section Exec

variable (collate : String → String → Bool) (leaseDuration : Nat)

/-- `ORDER BY start_boundary LIMIT 1` over the rows that no other transaction has locked. -/
def nextClaim (now : Nat) (schema table : String) (locked : List String) (rows : List ChunkRow) :
    Option ChunkRow :=
  let candidates := rows.filter fun r =>
    r.tableSchema == schema && r.tableName == table && claimable now r && !locked.contains r.chunkId
  candidates.head?.map fun r =>
    candidates.foldl (fun best r => if collate r.startBoundary best.startBoundary then r else best) r

def updateWhere (chunkId : String) (f : ChunkRow → ChunkRow) (rows : List ChunkRow) : List ChunkRow :=
  rows.map fun r => if r.chunkId = chunkId then f r else r

/-- The lease on the row is another worker's. -/
def foreign (worker : String) (r : ChunkRow) : Bool :=
  r.leaseHolder.any (· != worker)

/-- The copy of the chunk that the worker's last claim returned. -/
def Store.copy (s : Store) (worker chunkId : String) : Option ChunkRow :=
  (s.claims.find? fun c => c.1 == worker && c.2.chunkId == chunkId).map Prod.snd

/-- The worker has claimed the chunk, and another one has after it. -/
def Store.lost (s : Store) (worker chunkId : String) : Bool :=
  (s.copy worker chunkId).isSome &&
    (s.claims.find? fun c => c.2.chunkId == chunkId).any fun c => c.1 != worker

/-- The lease is another worker's, or it was, and nobody has it now. -/
def Store.ousted (s : Store) (worker : String) (r : ChunkRow) : Bool :=
  foreign worker r || r.leaseHolder.isNone && s.lost worker r.chunkId

/-- A worker's write to one chunk. -/
def Store.write (s : Store) (worker chunkId : String) (f : ChunkRow → ChunkRow) : Store :=
  { s with
    rows := updateWhere chunkId f s.rows
    intruded := s.intruded || s.rows.any fun r =>
      decide (r.chunkId = chunkId) && s.ousted worker r && decide ((f r).guarded ≠ r.guarded)
    completions := s.completions ++ (s.rows.filter fun r =>
      decide (r.chunkId = chunkId) && decide ((f r).status = .completed) &&
        decide (r.status ≠ .completed)).map fun r => (worker, r.leaseHolder) }

def Store.saveChunk (s : Store) (worker : String) (plan : ChunkRow) : Store :=
  if s.rows.any fun r => r.chunkId = plan.chunkId then
    s.write worker plan.chunkId (saveRow plan)
  else { s with rows := s.rows ++ [plan] }

def exec (s : Store) : Call → Store
  | .tick seconds => { s with clock := s.clock + seconds }
  | .claimChunk worker schema table locked =>
      match nextClaim collate s.clock schema table locked s.rows with
      | none => s
      | some r => { s with
          rows := updateWhere r.chunkId (claimRow worker s.clock (s.clock + leaseDuration)) s.rows
          claims := (worker, claimRow worker s.clock (s.clock + leaseDuration) r) :: s.claims }
  | .releaseChunk worker chunkId => s.write worker chunkId (releaseRow worker)
  | .renewLease worker chunkId =>
      s.write worker chunkId (renewRow worker (s.clock + leaseDuration))
  | .expireStaleLeases => { s with rows := s.rows.map (expireRow s.clock) }
  | .updateStatus worker chunkId status error =>
      s.write worker chunkId (updateStatusRow status error s.clock)
  | .incrementRetry worker chunkId => s.write worker chunkId incrementRetryRow
  | .savePlanned plan =>
      -- the identifier of a planned chunk is a new one
      if s.rows.any fun r => r.chunkId = plan.chunkId then s
      else { s with rows := s.rows ++ [plan] }
  | .saveCompleted worker chunkId =>
      match s.copy worker chunkId with
      | none => s
      | some copy => s.saveChunk worker { copy with status := .completed }

end Exec

section Safety

/-- No worker changed the status, holder or retry count of a chunk that it does not hold any more or
that another one holds, and each chunk was completed by the holder of its lease, if it had one. -/
structure LeaseSafe (s : Store) : Prop where
  no_intrusion : s.intruded = false
  own_completions : ∀ c ∈ s.completions, c.2 = none ∨ c.2 = some c.1

def ChunkStatus.keepsLease : ChunkStatus → Bool
  | .pending | .running | .retrying => true
  | .completed | .failed | .quarantined => false

/-- A worker that is out of the lease does not count a retry or save its copy, and it only says the
status again that the row has, and none that would free another one's lease. -/
def CallFits (s : Store) : Call → Prop
  | .updateStatus worker chunkId status _ =>
      ∀ r ∈ s.rows, r.chunkId = chunkId → s.ousted worker r = true →
        status = r.status ∧ (status.keepsLease = true ∨ r.leaseHolder = none)
  | .incrementRetry worker chunkId =>
      ∀ r ∈ s.rows, r.chunkId = chunkId → s.ousted worker r = false
  | .saveCompleted worker chunkId =>
      (s.copy worker chunkId).isSome →
        ∀ r ∈ s.rows, r.chunkId = chunkId → s.ousted worker r = false
  | _ => True

theorem not_holder_of_ousted {s : Store} {worker : String} {r : ChunkRow}
    (h : s.ousted worker r = true) : r.leaseHolder ≠ some worker := by
  intro hholder
  rw [Store.ousted, foreign, hholder] at h
  simp at h

theorem holder_of_not_foreign {worker : String} {r : ChunkRow} (h : foreign worker r = false) :
    r.leaseHolder = none ∨ r.leaseHolder = some worker := by
  cases hholder : r.leaseHolder with
  | none => exact .inl rfl
  | some holder =>
      rw [foreign, hholder] at h
      exact .inr (by simpa using h)

theorem guarded_updateStatusRow_iff (r : ChunkRow) (status : ChunkStatus) (error : Option String)
    (now : Nat) :
    (updateStatusRow status error now r).guarded = r.guarded ↔
      status = r.status ∧ (status.keepsLease = true ∨ r.leaseHolder = none) := by
  cases status <;>
    simp [updateStatusRow, ChunkRow.guarded, ChunkStatus.keepsLease, eq_comm]

theorem guarded_incrementRetryRow (r : ChunkRow) : (incrementRetryRow r).guarded ≠ r.guarded := by
  intro h
  have hcount : r.retryCount + 1 = r.retryCount := congrArg (fun g => g.2.2) h
  omega

/-- The copy of a worker says that it holds the lease. -/
def HoldsCopies (s : Store) : Prop := ∀ c ∈ s.claims, c.2.leaseHolder = some c.1

theorem copy_eq_some {s : Store} (h : HoldsCopies s) {worker chunkId : String} {copy : ChunkRow}
    (hcopy : s.copy worker chunkId = some copy) :
    copy.chunkId = chunkId ∧ copy.leaseHolder = some worker := by
  obtain ⟨c, hfind, rfl⟩ := Option.map_eq_some_iff.mp hcopy
  have hown := List.find?_some hfind
  rw [Bool.and_eq_true, beq_iff_eq, beq_iff_eq] at hown
  exact ⟨hown.2, by rw [h c (List.mem_of_find?_eq_some hfind), hown.1]⟩

theorem guarded_saveRow {s : Store} {worker : String} {copy r : ChunkRow}
    (hcopy : copy.leaseHolder = some worker) (h : s.ousted worker r = true) :
    (saveRow { copy with status := .completed } r).guarded ≠ r.guarded := by
  intro hsame
  have hholder : copy.leaseHolder = r.leaseHolder := congrArg (fun g => g.2.1) hsame
  exact not_holder_of_ousted h (hholder.symm.trans hcopy)

/-- The write leaves a chunk that its worker is out of as it is. -/
def Respects (s : Store) (worker chunkId : String) (f : ChunkRow → ChunkRow) : Prop :=
  ∀ r ∈ s.rows, r.chunkId = chunkId → s.ousted worker r = true → (f r).guarded = r.guarded

theorem intruded_write_iff {s : Store} {worker chunkId : String} {f : ChunkRow → ChunkRow}
    (h : s.intruded = false) :
    (s.write worker chunkId f).intruded = false ↔ Respects s worker chunkId f := by
  simp only [Store.write, h, Bool.false_or, List.any_eq_false, Bool.and_eq_true, decide_eq_true_eq,
    not_and, not_not, Respects]
  constructor
  · intro hall r hr hid housted
    exact hall r hr ⟨hid, housted⟩
  · rintro hall r hr ⟨hid, housted⟩
    exact hall r hr hid housted

theorem leaseSafe_write {s : Store} {worker chunkId : String} {f : ChunkRow → ChunkRow}
    (h : LeaseSafe s) (hf : Respects s worker chunkId f) : LeaseSafe (s.write worker chunkId f) where
  no_intrusion := (intruded_write_iff h.no_intrusion).mpr hf
  own_completions c hc := by
    simp only [Store.write, List.mem_append, List.mem_map, List.mem_filter, Bool.and_eq_true,
      decide_eq_true_eq] at hc
    rcases hc with hc | ⟨r, ⟨hr, ⟨hid, hcompleted⟩, hnot⟩, rfl⟩
    · exact h.own_completions c hc
    · apply holder_of_not_foreign
      by_contra hforeign
      have housted : s.ousted worker r = true := by
        rw [Store.ousted, Bool.or_eq_true]
        exact .inl (Bool.not_eq_false _ ▸ hforeign)
      have hsame := hf r hr hid housted
      rw [ChunkRow.guarded, ChunkRow.guarded, hcompleted, Prod.mk.injEq] at hsame
      exact hnot hsame.1.symm

/-- A row that is not stored yet is nobody's. -/
theorem leaseSafe_append {s : Store} (h : LeaseSafe s) (plan : ChunkRow) :
    LeaseSafe { s with rows := s.rows ++ [plan] } :=
  ⟨h.no_intrusion, h.own_completions⟩

theorem leaseSafe_saveChunk_iff {s : Store} {worker : String} {plan : ChunkRow}
    (h : LeaseSafe s) :
    LeaseSafe (s.saveChunk worker plan) ↔ Respects s worker plan.chunkId (saveRow plan) := by
  rw [Store.saveChunk]
  split
  · exact ⟨fun hsafe => (intruded_write_iff h.no_intrusion).mp hsafe.no_intrusion,
      leaseSafe_write h⟩
  · next habsent =>
      refine iff_of_true (leaseSafe_append h plan) ?_
      intro r hr hid
      exact absurd (List.any_eq_true.mpr ⟨r, hr, decide_eq_true hid⟩) habsent

theorem claims_saveChunk (s : Store) (worker : String) (plan : ChunkRow) :
    (s.saveChunk worker plan).claims = s.claims := by
  rw [Store.saveChunk]
  split
  · rfl
  · rfl

variable {collate : String → String → Bool} {leaseDuration : Nat}

theorem respects_release (s : Store) (worker chunkId : String) :
    Respects s worker chunkId (releaseRow worker) := by
  intro r _ _ housted
  rw [releaseRow, if_neg (not_holder_of_ousted housted)]

theorem respects_renew (s : Store) (worker chunkId : String) (expiresAt : Nat) :
    Respects s worker chunkId (renewRow worker expiresAt) := by
  intro r _ _ housted
  rw [renewRow, if_neg (not_holder_of_ousted housted)]

theorem callFits_updateStatus_iff {s : Store} {worker chunkId : String} {status : ChunkStatus}
    {error : Option String} :
    CallFits s (.updateStatus worker chunkId status error) ↔
      Respects s worker chunkId (updateStatusRow status error s.clock) := by
  apply forall₄_congr
  intro r hr hid housted
  exact (guarded_updateStatusRow_iff r status error s.clock).symm

/-- A write that changes whatever it touches respects the lease only where the worker is in it. -/
theorem respects_iff_of_changes {s : Store} {worker chunkId : String} {f : ChunkRow → ChunkRow}
    (hf : ∀ r, s.ousted worker r = true → (f r).guarded ≠ r.guarded) :
    (∀ r ∈ s.rows, r.chunkId = chunkId → s.ousted worker r = false) ↔
      Respects s worker chunkId f := by
  apply forall₃_congr
  intro r hr hid
  rw [← Bool.not_eq_true]
  exact forall_congr' fun housted => (iff_false_intro (hf r housted)).symm

theorem callFits_incrementRetry_iff {s : Store} {worker chunkId : String} :
    CallFits s (.incrementRetry worker chunkId) ↔ Respects s worker chunkId incrementRetryRow :=
  respects_iff_of_changes fun r _ => guarded_incrementRetryRow r

theorem respects_saveRow_iff {s : Store} {worker chunkId : String} {copy : ChunkRow}
    (hcopy : copy.leaseHolder = some worker) :
    (∀ r ∈ s.rows, r.chunkId = chunkId → s.ousted worker r = false) ↔
      Respects s worker chunkId (saveRow { copy with status := .completed }) :=
  respects_iff_of_changes fun _ housted => guarded_saveRow hcopy housted

/-- What holds along a run: the leases are safe, and the copies are those of claims. -/
structure Inv (s : Store) : Prop where
  safe : LeaseSafe s
  copies : HoldsCopies s

theorem inv_exec {s : Store} {call : Call} (h : Inv s) (hfits : CallFits s call) :
    Inv (exec collate leaseDuration s call) := by
  obtain ⟨h, hcopies⟩ := h
  cases call with
  | tick seconds => exact ⟨⟨h.no_intrusion, h.own_completions⟩, hcopies⟩
  | claimChunk worker schema table locked =>
      rw [exec]
      split
      · exact ⟨h, hcopies⟩
      · exact ⟨⟨h.no_intrusion, h.own_completions⟩, List.forall_mem_cons.mpr ⟨rfl, hcopies⟩⟩
  | releaseChunk worker chunkId =>
      exact ⟨leaseSafe_write h (respects_release s worker chunkId), hcopies⟩
  | renewLease worker chunkId =>
      exact ⟨leaseSafe_write h (respects_renew s worker chunkId _), hcopies⟩
  | expireStaleLeases => exact ⟨⟨h.no_intrusion, h.own_completions⟩, hcopies⟩
  | updateStatus worker chunkId status error =>
      exact ⟨leaseSafe_write h (callFits_updateStatus_iff.mp hfits), hcopies⟩
  | incrementRetry worker chunkId =>
      exact ⟨leaseSafe_write h (callFits_incrementRetry_iff.mp hfits), hcopies⟩
  | savePlanned plan =>
      rw [exec]
      split
      · exact ⟨h, hcopies⟩
      · exact ⟨leaseSafe_append h plan, hcopies⟩
  | saveCompleted worker chunkId =>
      rw [exec]
      split
      · exact ⟨h, hcopies⟩
      · next copy hcopy =>
          obtain ⟨rfl, hholder⟩ := copy_eq_some hcopies hcopy
          have hheld := hfits (by rw [hcopy]; rfl)
          refine ⟨(leaseSafe_saveChunk_iff h).mpr ((respects_saveRow_iff hholder).mp hheld), ?_⟩
          rw [HoldsCopies, claims_saveChunk]
          exact hcopies

theorem callFits_of_leaseSafe {s : Store} {call : Call} (h : Inv s)
    (hnext : LeaseSafe (exec collate leaseDuration s call)) : CallFits s call := by
  have hrespects : ∀ {worker chunkId f}, LeaseSafe (s.write worker chunkId f) →
      Respects s worker chunkId f :=
    fun hsafe => (intruded_write_iff h.safe.no_intrusion).mp hsafe.no_intrusion
  cases call with
  | updateStatus worker chunkId status error =>
      exact callFits_updateStatus_iff.mpr (hrespects hnext)
  | incrementRetry worker chunkId => exact callFits_incrementRetry_iff.mpr (hrespects hnext)
  | saveCompleted worker chunkId =>
      intro hsome
      obtain ⟨copy, hcopy⟩ := Option.isSome_iff_exists.mp hsome
      obtain ⟨rfl, hholder⟩ := copy_eq_some h.copies hcopy
      rw [exec, hcopy] at hnext
      exact (respects_saveRow_iff hholder).mpr ((leaseSafe_saveChunk_iff h.safe).mp hnext)
  | _ => trivial

/-- Before the first call, whatever rows an earlier run has left. -/
def opened (rows : List ChunkRow) (clock : Nat) : Store :=
  ⟨rows, clock, [], false, []⟩

/-- Along every interleaving of the workers' calls, the leases are safe in every state exactly when
every unguarded call fits the lease it finds. -/
theorem leaseSafe_along_calls_iff (rows : List ChunkRow) (clock : Nat) (calls : List Call) :
    (∀ pre, pre <+: calls → LeaseSafe (pre.foldl (exec collate leaseDuration) (opened rows clock))) ↔
      ∀ pre call, pre ++ [call] <+: calls →
        CallFits (pre.foldl (exec collate leaseDuration) (opened rows clock)) call :=
  along_foldl_iff (J := Inv) ⟨⟨rfl, fun _ hc => by cases hc⟩, fun _ hc => by cases hc⟩
    (fun _ h => h.safe) (fun _ _ h hfits => inv_exec h hfits)
    (fun _ _ h hnext => callFits_of_leaseSafe h hnext) calls

def ordersChunk : ChunkRow :=
  ⟨"c1", "dbo", "orders", "0", .pending, 0, 3, none, none, none, none, none⟩

/-- The first worker's lease runs out, the second claims the chunk, and the first reports a failed
attempt. -/
def lateFailure : List Call :=
  [.claimChunk "w1" "dbo" "orders" [], .tick 301, .claimChunk "w2" "dbo" "orders" [],
    .updateStatus "w1" "c1" .failed (some "timeout")]

/-- The same after the second worker has completed the chunk and given the lease back. -/
def failureAfterCompletion : List Call :=
  [.claimChunk "w1" "dbo" "orders" [], .tick 301, .claimChunk "w2" "dbo" "orders" [],
    .updateStatus "w2" "c1" .completed none, .saveCompleted "w2" "c1", .releaseChunk "w2" "c1",
    .updateStatus "w1" "c1" .failed (some "timeout")]

/-- The late call of the first worker makes the chunk a failed one. -/
def FailsLate (calls : List Call) : Prop :=
  ¬ LeaseSafe (calls.foldl (exec (fun a b => decide (a < b)) 300) (opened [ordersChunk] 0)) ∧
    (calls.foldl (exec (fun a b => decide (a < b)) 300) (opened [ordersChunk] 0)).rows.map
      ChunkRow.guarded = [(.failed, none, 0)]

theorem failsLate_of_intruded {calls : List Call}
    (hintruded : (calls.foldl (exec (fun a b => decide (a < b)) 300)
      (opened [ordersChunk] 0)).intruded = true)
    (hrows : (calls.foldl (exec (fun a b => decide (a < b)) 300)
      (opened [ordersChunk] 0)).rows.map ChunkRow.guarded = [(.failed, none, 0)]) :
    FailsLate calls :=
  ⟨fun h => absurd (h.no_intrusion.symm.trans hintruded) (by decide), hrows⟩

theorem late_failure_frees_the_lease : FailsLate lateFailure ∧ FailsLate failureAfterCompletion :=
  ⟨failsLate_of_intruded (by decide +kernel) (by decide +kernel),
    failsLate_of_intruded (by decide +kernel) (by decide +kernel)⟩

end Safety

end SqlOptima.ChunkLease
