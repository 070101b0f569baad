import SqlOptima.ChunkedMigration

namespace SqlOptima.RetryAccounting

open ChunkLease ChunkedMigration TransitionSystem

/-!
# Failed attempts and retry counts
-/

section Accounting

/-- What happens to the chunks: steps of the calls of `migrate_table`, and time. -/
inductive Event
  | call (i : Nat) (a : CallAction)
  | tick (seconds : Nat)

def Event.action : Event → Action
  | .call i a => .call i a
  | .tick seconds => .other (.tick seconds)

variable (chunkHash : String → String) (collate : String → String → Bool) (leaseDuration : Nat)
variable (workerId : Nat → String)

def drive (s : State) (ev : Event) : Option State :=
  step chunkHash collate leaseDuration workerId s ev.action

/-- A row of the planner: never attempted, and it may be. -/
structure FreshRow (r : ChunkRow) : Prop where
  uncounted : r.retryCount = 0
  allowed : 1 ≤ r.maxRetries
  notRetrying : r.status ≠ .retrying

/-- The failure of a claimed chunk is about to be stored. -/
def FailureAt (s : State) (ev : Event) (chunk : ChunkRow) : Prop :=
  ∃ i t error, ev = .call i .mark ∧ s.calls i = .failing t chunk error

/-- The chunk is about to be claimed. -/
def ClaimAt (s : State) (ev : Event) (r : ChunkRow) : Prop :=
  ∃ i t locked, ev = .call i (.claim locked) ∧ s.calls i = .claiming t ∧
    nextClaim collate s.store.clock t.schema t.table locked s.store.rows = some r

/-- A failed attempt counts as one more, and quarantines the chunk when it was the last one allowed;
a chunk that has used up its attempts is not claimed. -/
structure Accounted (s : State) (ev : Event) (t : State) : Prop where
  counted : ∀ chunk, FailureAt s ev chunk → ∀ r ∈ s.store.rows, r.chunkId = chunk.chunkId →
    ∀ r' ∈ t.store.rows, r'.chunkId = chunk.chunkId →
      r'.retryCount = r.retryCount + 1 ∧
        (r'.status = .quarantined ↔ r.maxRetries ≤ r.retryCount + 1)
  claimed : ∀ r, ClaimAt collate s ev r → r.retryCount < r.maxRetries

end Accounting

section Rows

variable (collate : String → String → Bool) (leaseDuration : Nat)
variable {store store' : Store} {worker : String}

/-- The rows of the store are fresh, and none is lost. -/
structure Kept (store store' : Store) : Prop where
  fresh : ∀ r ∈ store'.rows, FreshRow r
  stored : ∀ r ∈ store.rows, ∃ r' ∈ store'.rows, r'.chunkId = r.chunkId

theorem Kept.refl (h : ∀ r ∈ store.rows, FreshRow r) : Kept store store :=
  ⟨h, fun r hr => ⟨r, hr, rfl⟩⟩

theorem kept_of_map {g : ChunkRow → ChunkRow} (h : ∀ r ∈ store.rows, FreshRow r)
    (hrows : store'.rows = store.rows.map g) (hfresh : ∀ r, FreshRow r → FreshRow (g r))
    (hid : ∀ r, (g r).chunkId = r.chunkId) : Kept store store' := by
  constructor
  · intro r hr
    rw [hrows] at hr
    obtain ⟨old, hold, rfl⟩ := List.mem_map.mp hr
    exact hfresh old (h old hold)
  · intro r hr
    refine ⟨g r, ?_, hid r⟩
    rw [hrows]
    exact List.mem_map_of_mem hr

theorem kept_of_updateWhere {chunkId : String} {f : ChunkRow → ChunkRow}
    (h : ∀ r ∈ store.rows, FreshRow r) (hrows : store'.rows = updateWhere chunkId f store.rows)
    (hfresh : ∀ r, FreshRow r → FreshRow (f r)) (hid : ∀ r, (f r).chunkId = r.chunkId) :
    Kept store store' := by
  refine kept_of_map h hrows (fun r hr => ?_) fun r => ?_
  · split
    · exact hfresh r hr
    · exact hr
  · split
    · exact hid r
    · rfl

theorem freshRow_claimRow {now expiresAt : Nat} {r : ChunkRow} (h : FreshRow r) :
    FreshRow (claimRow worker now expiresAt r) :=
  ⟨(if_neg h.notRetrying).trans h.uncounted, h.allowed, ChunkStatus.noConfusion⟩

theorem kept_claim (h : ∀ r ∈ store.rows, FreshRow r) (worker schema table : String)
    (locked : List String) :
    Kept store (exec collate leaseDuration store (.claimChunk worker schema table locked)) := by
  rw [exec]
  split
  · exact Kept.refl h
  · exact kept_of_updateWhere h rfl (fun _ hr => freshRow_claimRow hr) fun _ => rfl

theorem kept_release (h : ∀ r ∈ store.rows, FreshRow r) (worker chunkId : String) :
    Kept store (exec collate leaseDuration store (.releaseChunk worker chunkId)) := by
  refine kept_of_updateWhere h rfl (fun r hr => ?_) fun r => ?_
  · rw [releaseRow]
    split
    · exact ⟨hr.uncounted, hr.allowed, hr.notRetrying⟩
    · exact hr
  · rw [releaseRow]
    split
    · rfl
    · rfl

theorem kept_renew (h : ∀ r ∈ store.rows, FreshRow r) (worker chunkId : String) :
    Kept store (exec collate leaseDuration store (.renewLease worker chunkId)) := by
  refine kept_of_updateWhere h rfl (fun r hr => ?_) fun r => ?_
  · rw [renewRow]
    split
    · exact ⟨hr.uncounted, hr.allowed, hr.notRetrying⟩
    · exact hr
  · rw [renewRow]
    split
    · rfl
    · rfl

theorem kept_expire (h : ∀ r ∈ store.rows, FreshRow r) :
    Kept store (exec collate leaseDuration store .expireStaleLeases) := by
  refine kept_of_map h rfl (fun r hr => ?_) fun r => ?_
  · rw [expireRow]
    split
    · exact ⟨hr.uncounted, hr.allowed, ChunkStatus.noConfusion⟩
    · exact hr
  · rw [expireRow]
    split
    · rfl
    · rfl

/-- Storing that a chunk ended leaves its count as it is. -/
theorem kept_updateStatus (h : ∀ r ∈ store.rows, FreshRow r) {status : ChunkStatus}
    (hstatus : status.keepsLease = false) (worker chunkId : String) (error : Option String) :
    Kept store
      (exec collate leaseDuration store (.updateStatus worker chunkId status error)) := by
  refine kept_of_updateWhere h rfl (fun r hr => ?_) fun r => ?_
  · cases status with
    | pending => cases hstatus
    | running => cases hstatus
    | retrying => cases hstatus
    | completed => exact ⟨hr.uncounted, hr.allowed, ChunkStatus.noConfusion⟩
    | failed => exact ⟨hr.uncounted, hr.allowed, ChunkStatus.noConfusion⟩
    | quarantined => exact ⟨hr.uncounted, hr.allowed, ChunkStatus.noConfusion⟩
  · cases status with
    | _ => rfl

theorem kept_save (h : ∀ r ∈ store.rows, FreshRow r) (worker : String) {plan : ChunkRow}
    (hplan : FreshRow plan) :
    Kept store (store.saveChunk worker plan) := by
  rw [Store.saveChunk]
  split
  · exact kept_of_updateWhere h rfl
      (fun r hr => ⟨hplan.uncounted, hr.allowed, hplan.notRetrying⟩) fun _ => rfl
  · constructor
    · intro r hr
      rcases List.mem_append.mp hr with hr | hr
      · exact h r hr
      · rw [List.mem_singleton.mp hr]
        exact hplan
    · exact fun r hr => ⟨r, List.mem_append_left _ hr, rfl⟩

end Rows

section Calls

variable {chunkHash : String → String} {collate : String → String → Bool} {leaseDuration : Nat}
variable {store store' : Store} {worker : String} {call : CallState} {a : CallAction} {o : Outcome}

/-- The copy of a chunk that a call works on is fresh, and the chunk is stored. -/
def Held (store : Store) (chunk : ChunkRow) : Prop :=
  FreshRow chunk ∧ ∃ r ∈ store.rows, r.chunkId = chunk.chunkId

def HoldsFresh (store : Store) : CallState → Prop
  | .saving _ rest => ∀ chunk ∈ rest, FreshRow chunk
  | .working _ chunk | .marking _ chunk | .storing _ chunk | .releasing _ chunk
  | .failing _ chunk _ | .dropping _ chunk => Held store chunk
  | .idle | .planned _ | .expiring _ | .claiming _ | .direct _ _ _ => True

theorem Held.kept {chunk : ChunkRow} (h : Held store chunk) (hkept : Kept store store') :
    Held store' chunk := by
  obtain ⟨hfresh, r, hr, hid⟩ := h
  obtain ⟨r', hr', hid'⟩ := hkept.stored r hr
  exact ⟨hfresh, r', hr', hid'.trans hid⟩

theorem Held.and_kept {chunk : ChunkRow} (h : Held store chunk) (hkept : Kept store store') :
    Kept store store' ∧ Held store' chunk :=
  ⟨hkept, h.kept hkept⟩

theorem holdsFresh_of_kept (h : HoldsFresh store call) (hkept : Kept store store') :
    HoldsFresh store' call := by
  cases call with
  | working | marking | storing | releasing | failing | dropping => exact Held.kept h hkept
  | saving | idle | planned | expiring | claiming | direct => exact h

/-- What a step of a call leaves behind. -/
def Good (store : Store) (o : Outcome) : Prop := Kept store o.store ∧ HoldsFresh o.store o.call

theorem freshRow_of_plan {t : TablePlan} : ∀ chunk ∈ t.rows, FreshRow chunk := by
  intro chunk hchunk
  obtain ⟨planned, -, rfl⟩ := List.mem_map.mp hchunk
  exact ⟨rfl, (by decide : (1 : Int) ≤ 3), ChunkStatus.noConfusion⟩

theorem foldl_best_mem (better : ChunkRow → ChunkRow → Bool) (best : ChunkRow)
    (rows : List ChunkRow) :
    rows.foldl (fun best r => if better r best then r else best) best ∈ best :: rows := by
  induction rows generalizing best with
  | nil => exact List.mem_singleton_self best
  | cons r rows ih =>
      rw [List.foldl_cons]
      have hmem := ih (if better r best then r else best)
      rcases List.mem_cons.mp hmem with heq | hrest
      · rw [heq]
        split
        · exact List.mem_cons_of_mem _ List.mem_cons_self
        · exact List.mem_cons_self
      · exact List.mem_cons_of_mem _ (List.mem_cons_of_mem _ hrest)

theorem mem_of_nextClaim {now : Nat} {schema table : String} {locked : List String}
    {rows : List ChunkRow} {r : ChunkRow}
    (h : nextClaim collate now schema table locked rows = some r) : r ∈ rows := by
  obtain ⟨first, hfirst, rfl⟩ := Option.map_eq_some_iff.mp h
  rcases List.mem_cons.mp (foldl_best_mem _ first _) with heq | hmem
  · rw [heq]
    exact (List.mem_filter.mp (List.mem_of_mem_head? hfirst)).1
  · exact (List.mem_filter.mp hmem).1

theorem good_raised (hrows : ∀ r ∈ store.rows, FreshRow r) (h : raised store call = some o) :
    Good store o := by
  unfold raised at h
  split at h
  · cases h
  all_goals
    cases h
    exact ⟨Kept.refl hrows, trivial⟩

theorem good_claim (chunkHash : String → String) (hrows : ∀ r ∈ store.rows, FreshRow r)
    {t : TablePlan} {locked : List String}
    (h : callStep chunkHash collate leaseDuration worker store (.claiming t) (.claim locked) =
      some o) : Good store o := by
  rw [callStep] at h
  cases hnext : nextClaim collate store.clock t.schema t.table locked store.rows with
  | none =>
      rw [hnext] at h
      cases h
      exact ⟨Kept.refl hrows, trivial⟩
  | some r =>
      rw [hnext] at h
      cases h
      have hmem := mem_of_nextClaim hnext
      have hkept := kept_claim collate leaseDuration hrows worker t.schema t.table locked
      exact ⟨hkept, freshRow_claimRow (hrows r hmem), hkept.stored r hmem⟩

theorem keepsLease_failedStatus (chunk : ChunkRow) : (failedStatus chunk).keepsLease = false := by
  rw [failedStatus]
  split
  · rfl
  · rfl

theorem good_callStep (hrows : ∀ r ∈ store.rows, FreshRow r) (hcall : HoldsFresh store call)
    (h : callStep chunkHash collate leaseDuration worker store call a = some o) :
    Good store o := by
  have hsame := Kept.refl hrows
  unfold callStep at h
  split at h
  -- in the order of the step's cases: up to the loop
  · cases h
    exact ⟨hsame, trivial⟩
  · next t hasStore =>
      split at h
      · cases h
        exact ⟨hsame, trivial⟩
      · cases h
        cases hasStore with
        | false => exact ⟨hsame, trivial⟩
        | true => exact ⟨hsame, trivial⟩
  · next t =>
      cases h
      refine ⟨hsame, ?_⟩
      rw [goesOn]
      split
      · exact freshRow_of_plan
      · exact trivial
  · cases h
    exact ⟨hsame, trivial⟩
  · split at h
    · exact good_raised hrows h
    · cases h
      obtain ⟨hchunk, hrest⟩ := List.forall_mem_cons.mp hcall
      exact ⟨kept_save hrows worker hchunk, hrest⟩
  · cases h
    exact ⟨kept_expire collate leaseDuration hrows, trivial⟩
  -- the loop over a chunk store
  · cases h
    exact ⟨hsame, trivial⟩
  · exact good_claim chunkHash hrows h
  · cases h
    exact hcall.and_kept (kept_renew collate leaseDuration hrows worker _)
  · split at h
    · cases h
      exact ⟨hsame, ⟨hcall.1.uncounted, hcall.1.allowed, ChunkStatus.noConfusion⟩, hcall.2⟩
    · cases h
      exact ⟨hsame, hcall⟩
  · cases h
    exact hcall.and_kept (kept_updateStatus collate leaseDuration hrows rfl worker _ _)
  · cases h
    exact hcall.and_kept (kept_save hrows worker hcall.1)
  · cases h
    exact ⟨kept_release collate leaseDuration hrows worker _, trivial⟩
  · cases h
    exact hcall.and_kept
      (kept_updateStatus collate leaseDuration hrows (keepsLease_failedStatus _) worker _ _)
  · cases h
    exact ⟨kept_release collate leaseDuration hrows worker _, trivial⟩
  -- the loop without one
  · cases h
    exact ⟨hsame, trivial⟩
  · cases h
    exact ⟨hsame, trivial⟩
  · split at h
    · cases h
      exact ⟨hsame, trivial⟩
    · cases h
      exact ⟨hsame, trivial⟩
  · exact good_raised hrows h
  · cases h
    exact ⟨hsame, trivial⟩
  · cases h

end Calls

section Runs

variable {chunkHash : String → String} {collate : String → String → Bool} {leaseDuration : Nat}
variable {workerId : Nat → String} {s t : State} {ev : Event}

/-- No row has been counted up. -/
structure Uncounted (s : State) : Prop where
  rows : ∀ r ∈ s.store.rows, FreshRow r
  calls : ∀ i, HoldsFresh s.store (s.calls i)

theorem uncounted_initial {store : Store} (h : ∀ r ∈ store.rows, FreshRow r) :
    Uncounted (initial store) :=
  ⟨h, fun _ => trivial⟩

theorem uncounted_drive (h : Uncounted s)
    (hstep : drive chunkHash collate leaseDuration workerId s ev = some t) : Uncounted t := by
  cases ev with
  | tick seconds =>
      cases hstep
      exact ⟨h.rows, fun i => holdsFresh_of_kept (h.calls i) ⟨h.rows, fun r hr => ⟨r, hr, rfl⟩⟩⟩
  | call i a =>
      obtain ⟨o, ho, rfl⟩ := step_call hstep
      obtain ⟨hkept, hholds⟩ := good_callStep h.rows (h.calls i) ho
      refine ⟨hkept.fresh, fun j => ?_⟩
      by_cases hj : j = i
      · rw [hj]
        dsimp only
        rw [Function.update_self]
        exact hholds
      · dsimp only
        rw [Function.update_of_ne hj]
        exact holdsFresh_of_kept (h.calls j) hkept

theorem updateStatusRow_chunkId (status : ChunkStatus) (error : Option String) (now : Nat)
    (r : ChunkRow) : (updateStatusRow status error now r).chunkId = r.chunkId := by
  cases status with
  | _ => rfl

/-- A step is accounted for exactly when it does not store a failure. -/
theorem accounted_iff (h : Uncounted s)
    (hstep : drive chunkHash collate leaseDuration workerId s ev = some t) :
    Accounted collate s ev t ↔ ∀ chunk, ¬ FailureAt s ev chunk := by
  constructor
  · intro haccounted chunk hfailure
    have hcounted := haccounted.counted chunk hfailure
    obtain ⟨i, plan, error, rfl, hcall⟩ := hfailure
    have hheld := h.calls i
    rw [hcall] at hheld
    obtain ⟨-, r, hr, hid⟩ := hheld
    obtain ⟨o, ho, rfl⟩ := step_call hstep
    rw [hcall] at ho
    cases ho
    have hstored : updateStatusRow (failedStatus chunk) error s.store.clock r ∈
        updateWhere chunk.chunkId (updateStatusRow (failedStatus chunk) error s.store.clock)
          s.store.rows := List.mem_map.mpr ⟨r, hr, if_pos hid⟩
    have hkeeps : ∀ status, (updateStatusRow status error s.store.clock r).retryCount =
        r.retryCount := by
      intro status
      cases status with
      | _ => rfl
    have hcount := (hcounted r hr hid _ hstored (by rw [updateStatusRow_chunkId, hid])).1
    rw [hkeeps] at hcount
    omega
  · intro hnone
    refine ⟨fun chunk hfailure => absurd hfailure (hnone chunk), ?_⟩
    rintro r ⟨i, plan, locked, -, -, hnext⟩
    have hfresh := h.rows r (mem_of_nextClaim hnext)
    rw [hfresh.uncounted]
    exact Int.lt_of_lt_of_le Int.zero_lt_one hfresh.allowed

/-- Along every run over fresh chunks, attempts are accounted for exactly when none fails. -/
theorem accounted_along_iff (chunkHash : String → String) (collate : String → String → Bool)
    (leaseDuration : Nat) (workerId : Nat → String) {store : Store}
    (hfresh : ∀ r ∈ store.rows, FreshRow r) {evs : List Event}
    (hrun : (runSteps (drive chunkHash collate leaseDuration workerId) (initial store)
      evs).isSome) :
    (∀ pre ev s t, pre ++ [ev] <+: evs →
        runSteps (drive chunkHash collate leaseDuration workerId) (initial store) pre = some s →
          drive chunkHash collate leaseDuration workerId s ev = some t →
            Accounted collate s ev t) ↔
      ∀ pre ev s, pre ++ [ev] <+: evs →
        runSteps (drive chunkHash collate leaseDuration workerId) (initial store) pre = some s →
          ∀ chunk, ¬ FailureAt s ev chunk := by
  refine along_steps_iff (J := Uncounted) (uncounted_initial hfresh) ?_ ?_ hrun
  · exact fun _ _ _ h _ hstep => uncounted_drive h hstep
  · exact fun _ _ _ h hstep => accounted_iff h hstep

end Runs

section Example

/-- A plan of one chunk is stored, and the chunk claimed. -/
def claimed : List Event :=
  ([.begin (some ⟨"dbo", "orders", [⟨"a", "1"⟩]⟩) true, .checkPending, .saveNext, .saveNext,
    .expire, .claim []] : List CallAction).map (.call 0)

def failing : List Event := claimed ++ [.call 0 (.attempts fun _ => .error "timeout")]

abbrev driveOrders : State → Event → Option State := drive ordersHash before 300 twoWorkers

theorem claimed_accounted_iff :
    (∀ pre ev s t, pre ++ [ev] <+: claimed →
        runSteps driveOrders (initial emptyStore) pre = some s → driveOrders s ev = some t →
          Accounted before s ev t) ↔
      ∀ pre ev s, pre ++ [ev] <+: claimed →
        runSteps driveOrders (initial emptyStore) pre = some s → ∀ chunk, ¬ FailureAt s ev chunk :=
  accounted_along_iff ordersHash before 300 twoWorkers (fun _ hr => absurd hr List.not_mem_nil)
    (by decide)

/-- The chunk fails, and its retry count stays zero. -/
theorem failure_not_counted : ∃ s t, runSteps driveOrders (initial emptyStore) failing = some s ∧
    driveOrders s (.call 0 .mark) = some t ∧ ¬ Accounted before s (.call 0 .mark) t := by
  refine ⟨_, _, rfl, rfl, fun h => ?_⟩
  have hcount := (h.counted _ ⟨0, _, _, rfl, rfl⟩ _ List.mem_cons_self rfl _ List.mem_cons_self
    rfl).1
  exact absurd hcount (by decide)

end Example

end SqlOptima.RetryAccounting
