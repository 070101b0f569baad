import SqlOptima.ConstraintPlan

namespace SqlOptima.ConstraintRestore

open ConstraintPlan

/-- How the target answers a statement, given the items of the plan that are dropped or disabled
in it at that time. -/
structure Target where
  engine : Engine
  exec : List TransferConstraintItem → String → Except String Unit

/-- What a call of `Apply` or `Restore` leaves: the items whose turn came, those that are missing
from the target afterwards, and the error. -/
structure Progress where
  tried : List TransferConstraintItem
  missing : List TransferConstraintItem
  error : Option String

def execItem (t : Target) (missing : List TransferConstraintItem) (item : TransferConstraintItem)
    (query : String) : Except String Unit :=
  (t.exec missing query).mapError fun e => item.kind ++ " " ++ item.objectId ++ ": " ++ e

def disableItem (t : Target) (missing : List TransferConstraintItem)
    (item : TransferConstraintItem) : Except String (List TransferConstraintItem) :=
  ((constraintDisableSQL t.engine item).bind (execItem t missing item)).map fun _ =>
    item :: missing

def restoreItem (t : Target) (missing : List TransferConstraintItem)
    (item : TransferConstraintItem) : Except String (List TransferConstraintItem) :=
  ((constraintRestoreSQL t.engine item).bind (execItem t missing item)).map fun _ =>
    missing.filter (· ≠ item)

/-- The loop over the ordered items, which returns at the first error. -/
def applyOrRestore (t : Target) (restore : Bool) (missing : List TransferConstraintItem) :
    List TransferConstraintItem → Progress
  | [] => ⟨[], missing, none⟩
  | item :: rest =>
      match (if restore then restoreItem else disableItem) t missing item with
      | .error e => ⟨[item], missing, some e⟩
      | .ok missing' =>
          let p := applyOrRestore t restore missing' rest
          { p with tried := item :: p.tried }

def applyItems (t : Target) (items : List TransferConstraintItem) : Progress :=
  applyOrRestore t false [] (orderedConstraintItems items false)

def restoreItems (t : Target) (missing items : List TransferConstraintItem) : Progress :=
  applyOrRestore t true missing (orderedConstraintItems items true)

/-- How the handler leaves the copy once `Apply` has succeeded. -/
inductive CopyOutcome where
  | completed
  | checkFailed
  | stopped
  | moveFailed
  | cloneFailed
  deriving DecidableEq, Repr

def leaveDisabled (plan : TransferConstraintPlan) : Bool := plan.onStop == "leave_disabled"

def restoreNow (plan : TransferConstraintPlan) : CopyOutcome → Bool
  | .stopped | .moveFailed => !leaveDisabled plan
  | .completed | .checkFailed | .cloneFailed => true

/-- The items that `Apply` changed in the target, the items that the deferred restore tried, and
those missing from the target when the job is over. -/
structure JobRun where
  dropped : List TransferConstraintItem
  tried : List TransferConstraintItem
  missing : List TransferConstraintItem
  deriving DecidableEq

/-- The handler goes past its checks, to `Apply`; `hasApplier` is false for a handler built without
a constraint applier. -/
def reachesApply (plan : TransferConstraintPlan) (hasApplier : Bool) : Bool :=
  disableConstraintItems plan ≠ [] && plan.operatorReviewed && hasApplier

/-- What `Apply` dropped or disabled before it was through or failed. -/
def dropped (t : Target) (plan : TransferConstraintPlan) (hasApplier : Bool) :
    List TransferConstraintItem :=
  if reachesApply plan hasApplier then (applyItems t (disableConstraintItems plan)).missing else []

/-- The deferred function: a failed `Apply` leaves `restoreNow` as it was set at first. -/
def restoreRuns (t : Target) (plan : TransferConstraintPlan) (hasApplier : Bool)
    (outcome : CopyOutcome) : Bool :=
  reachesApply plan hasApplier &&
    ((applyItems t (disableConstraintItems plan)).error.isSome || restoreNow plan outcome)

/-- The part of the handler around the copy. -/
def runConstraints (t : Target) (constraintPlan : Option TransferConstraintPlan)
    (hasApplier : Bool) (outcome : CopyOutcome) : JobRun :=
  let plan := parseTransferConstraintPlan constraintPlan
  let gone := dropped t plan hasApplier
  if restoreRuns t plan hasApplier outcome then
    let restored := restoreItems t gone (disableConstraintItems plan)
    ⟨gone, restored.tried, restored.missing⟩
  else
    ⟨gone, [], gone⟩

/-- The statement that restores the item goes through whenever the item is missing. -/
def Recreates (t : Target) (item : TransferConstraintItem) : Prop :=
  ∀ missing, item ∈ missing → (restoreItem t missing item).isOk

structure ConstraintsRestored (t : Target) (run : JobRun) : Prop where
  all_tried : ∀ d ∈ run.dropped, d ∈ run.tried
  none_missing : (∀ d ∈ run.dropped, Recreates t d) → run.missing = []

section RestoreLoop

variable {t : Target} {missing : List TransferConstraintItem} {item : TransferConstraintItem}

theorem restoreItem_eq_ok_iff {missing' : List TransferConstraintItem} :
    restoreItem t missing item = .ok missing' ↔
      (restoreItem t missing item).isOk ∧ missing' = missing.filter (· ≠ item) := by
  unfold restoreItem
  cases (constraintRestoreSQL t.engine item).bind (execItem t missing item) with
  | error e => simp [Except.map, Except.isOk, Except.toBool]
  | ok u =>
      simp only [Except.map, Except.isOk, Except.toBool, Except.ok.injEq, true_and]
      exact eq_comm

theorem restore_cons_of_ok {rest : List TransferConstraintItem}
    (h : (restoreItem t missing item).isOk) :
    applyOrRestore t true missing (item :: rest) =
      { applyOrRestore t true (missing.filter (· ≠ item)) rest with
        tried := item :: (applyOrRestore t true (missing.filter (· ≠ item)) rest).tried } := by
  rw [applyOrRestore, if_pos rfl, restoreItem_eq_ok_iff.mpr ⟨h, rfl⟩]

theorem restore_cons_of_error (rest : List TransferConstraintItem)
    (h : ¬ (restoreItem t missing item).isOk) :
    (applyOrRestore t true missing (item :: rest)).tried = [item] ∧
      (applyOrRestore t true missing (item :: rest)).missing = missing := by
  rw [applyOrRestore, if_pos rfl]
  cases hr : restoreItem t missing item with
  | error e => exact ⟨rfl, rfl⟩
  | ok m => exact absurd (by rw [hr]; rfl) h

/-- What the restore leaves missing was missing before it, and was not tried or cannot be
re-created. -/
theorem missing_of_restore (order : List TransferConstraintItem) {d : TransferConstraintItem}
    (hd : d ∈ (applyOrRestore t true missing order).missing) :
    d ∈ missing ∧ (d ∈ (applyOrRestore t true missing order).tried → ¬ Recreates t d) := by
  induction order generalizing missing with
  | nil => exact ⟨hd, fun htried => by cases htried⟩
  | cons item rest ih =>
      by_cases hok : (restoreItem t missing item).isOk
      · rw [restore_cons_of_ok hok] at hd ⊢
        obtain ⟨hmem, htried⟩ := ih hd
        obtain ⟨hmem, hne⟩ := List.mem_filter.mp hmem
        refine ⟨hmem, fun h => ?_⟩
        rcases List.mem_cons.mp h with rfl | h
        · simp at hne
        · exact htried h
      · obtain ⟨htried, hmissing⟩ := restore_cons_of_error rest hok
        rw [hmissing] at hd
        rw [htried]
        refine ⟨hd, fun h hrec => hok ?_⟩
        rw [List.mem_singleton] at h
        subst h
        exact hrec _ hd

/-- No item whose restore fails comes before a dropped item that has not had its turn. Up to it, all
turns have succeeded and their items are back. -/
def FailuresComeLast (t : Target) (missing dropped order : List TransferConstraintItem) : Prop :=
  ∀ before item after, order = before ++ item :: after →
    ¬ (restoreItem t (missing.filter (· ∉ before)) item).isOk →
      ∀ d ∈ dropped, d ∈ before ∨ d = item

theorem failuresComeLast_cons_of_error {dropped rest : List TransferConstraintItem}
    (h : ¬ (restoreItem t missing item).isOk) :
    FailuresComeLast t missing dropped (item :: rest) ↔ ∀ d ∈ dropped, d = item := by
  constructor
  · intro hlast d hd
    have hfails : ¬ (restoreItem t (missing.filter (· ∉ [])) item).isOk := by simpa using h
    simpa using hlast [] item rest rfl hfails d hd
  · intro hall before x after heq _ d hd
    cases before with
    | nil =>
        obtain ⟨rfl, -⟩ := List.cons.inj heq
        exact Or.inr (hall d hd)
    | cons y before =>
        obtain ⟨rfl, -⟩ := List.cons.inj heq
        exact Or.inl (by simp [hall d hd])

theorem failuresComeLast_cons_of_ok {dropped rest : List TransferConstraintItem}
    (h : (restoreItem t missing item).isOk) :
    FailuresComeLast t missing dropped (item :: rest) ↔
      FailuresComeLast t (missing.filter (· ≠ item)) (dropped.filter (· ≠ item)) rest := by
  have hfilter : ∀ before : List TransferConstraintItem,
      (missing.filter (· ≠ item)).filter (· ∉ before) = missing.filter (· ∉ item :: before) := by
    intro before
    rw [List.filter_filter]
    congr 1
    funext x
    simp [Bool.and_comm]
  constructor
  · intro hlast before x after heq hfails d hd
    obtain ⟨hd, hne⟩ := List.mem_filter.mp hd
    rw [hfilter] at hfails
    rcases hlast (item :: before) x after (by rw [heq]; rfl) hfails d hd with hmem | rfl
    · rcases List.mem_cons.mp hmem with rfl | hmem
      · simp at hne
      · exact Or.inl hmem
    · exact Or.inr rfl
  · intro hlast before x after heq hfails d hd
    cases before with
    | nil =>
        obtain ⟨rfl, -⟩ := List.cons.inj heq
        exact absurd h (by simpa using hfails)
    | cons y before =>
        obtain ⟨rfl, hrest⟩ := List.cons.inj heq
        by_cases hd' : d = item
        · exact Or.inl (by simp [hd'])
        · rw [← hfilter] at hfails
          rcases hlast before x after hrest hfails d (by simp [hd, hd']) with hmem | rfl
          · exact Or.inl (List.mem_cons_of_mem _ hmem)
          · exact Or.inr rfl

/-- The restore tries every dropped item of its list exactly when no failure comes before one. -/
theorem restore_tries_all_iff (missing order : List TransferConstraintItem)
    {dropped : List TransferConstraintItem} (hsub : ∀ d ∈ dropped, d ∈ order) :
    (∀ d ∈ dropped, d ∈ (applyOrRestore t true missing order).tried) ↔
      FailuresComeLast t missing dropped order := by
  induction order generalizing missing dropped with
  | nil =>
      constructor
      · intro _ before item after heq
        simp at heq
      · intro _ d hd
        exact absurd (hsub d hd) List.not_mem_nil
  | cons item rest ih =>
      by_cases hok : (restoreItem t missing item).isOk
      · have hsub' : ∀ d ∈ dropped.filter (· ≠ item), d ∈ rest := by
          intro d hd
          obtain ⟨hd, hne⟩ := List.mem_filter.mp hd
          exact (List.mem_cons.mp (hsub d hd)).resolve_left (by simpa using hne)
        rw [failuresComeLast_cons_of_ok hok, ← ih _ hsub', restore_cons_of_ok hok]
        constructor
        · intro h d hd
          obtain ⟨hd, hne⟩ := List.mem_filter.mp hd
          exact (List.mem_cons.mp (h d hd)).resolve_left (by simpa using hne)
        · intro h d hd
          by_cases hd' : d = item
          · exact List.mem_cons.mpr (Or.inl hd')
          · exact List.mem_cons_of_mem _ (h d (by simp [hd, hd']))
      · rw [failuresComeLast_cons_of_error hok, (restore_cons_of_error rest hok).1]
        simp

end RestoreLoop

section Job

variable {t : Target}

theorem mem_of_apply (order : List TransferConstraintItem) {missing : List TransferConstraintItem}
    {d : TransferConstraintItem} (hd : d ∈ (applyOrRestore t false missing order).missing) :
    d ∈ missing ∨ d ∈ order := by
  induction order generalizing missing with
  | nil => exact Or.inl hd
  | cons item rest ih =>
      rw [applyOrRestore, if_neg Bool.false_ne_true, disableItem] at hd
      cases hrun : (constraintDisableSQL t.engine item).bind (execItem t missing item) with
      | error e =>
          rw [hrun] at hd
          exact Or.inl hd
      | ok u =>
          rw [hrun] at hd
          rcases ih hd with h | h
          · rcases List.mem_cons.mp h with rfl | h
            · exact Or.inr List.mem_cons_self
            · exact Or.inl h
          · exact Or.inr (List.mem_cons_of_mem _ h)

theorem mem_plan_of_dropped {plan : TransferConstraintPlan} {hasApplier : Bool}
    {d : TransferConstraintItem} (hd : d ∈ dropped t plan hasApplier) :
    d ∈ disableConstraintItems plan := by
  unfold dropped at hd
  split at hd
  · rcases mem_of_apply _ hd with h | h
    · cases h
    · exact mem_orderedConstraintItems.mp h
  · cases hd

theorem constraintsRestored_of_skipped {gone : List TransferConstraintItem} :
    ConstraintsRestored t ⟨gone, [], gone⟩ ↔ gone = [] := by
  constructor
  · intro h
    exact List.eq_nil_iff_forall_not_mem.mpr fun d hd => by cases h.all_tried d hd
  · rintro rfl
    exact ⟨fun d hd => hd, fun _ => rfl⟩

theorem constraintsRestored_of_restored {gone items : List TransferConstraintItem}
    (hsub : ∀ d ∈ gone, d ∈ items) :
    ConstraintsRestored t
        ⟨gone, (restoreItems t gone items).tried, (restoreItems t gone items).missing⟩ ↔
      FailuresComeLast t gone gone (orderedConstraintItems items true) := by
  have htries := restore_tries_all_iff (t := t) gone (orderedConstraintItems items true)
    (fun d hd => mem_orderedConstraintItems.mpr (hsub d hd))
  constructor
  · intro h
    exact htries.mp h.all_tried
  · intro h
    refine ⟨htries.mpr h, fun hrec => List.eq_nil_iff_forall_not_mem.mpr fun d hd => ?_⟩
    obtain ⟨hgone, hnot⟩ := missing_of_restore _ hd
    exact hnot (htries.mpr h d hgone) (hrec d hgone)

/-- Every constraint that the job dropped is tried by the restore, and none that can be re-created
stays missing, exactly when nothing was dropped, or the restore runs and no failing statement of it
comes before a dropped item. -/
theorem constraintsRestored_iff (constraintPlan : Option TransferConstraintPlan)
    (hasApplier : Bool) (outcome : CopyOutcome)
    (hpolicy : outcome = .stopped →
      leaveDisabled (parseTransferConstraintPlan constraintPlan) = false) :
    let plan := parseTransferConstraintPlan constraintPlan
    let gone := dropped t plan hasApplier
    ConstraintsRestored t (runConstraints t constraintPlan hasApplier outcome) ↔
      gone = [] ∨
        ((applyItems t (disableConstraintItems plan)).error.isSome ∨
            ¬ (outcome = .moveFailed ∧ leaveDisabled plan = true)) ∧
          FailuresComeLast t gone gone
            (orderedConstraintItems (disableConstraintItems plan) true) := by
  intro plan gone
  have hnow : restoreNow plan outcome = true ↔
      ¬ (outcome = .moveFailed ∧ leaveDisabled plan = true) := by
    cases outcome with
    | stopped => simpa [restoreNow] using hpolicy rfl
    | _ => simp [restoreNow]
  have hruns : restoreRuns t plan hasApplier outcome = true ↔ reachesApply plan hasApplier = true ∧
      ((applyItems t (disableConstraintItems plan)).error.isSome ∨
        ¬ (outcome = .moveFailed ∧ leaveDisabled plan = true)) := by
    rw [← hnow]
    simp [restoreRuns]
  rw [runConstraints]
  split
  · next hrun =>
      rw [constraintsRestored_of_restored fun d hd => mem_plan_of_dropped hd]
      constructor
      · exact fun h => Or.inr ⟨(hruns.mp hrun).2, h⟩
      · rintro (hnil | ⟨-, h⟩)
        · change FailuresComeLast t gone gone _
          rw [hnil]
          exact fun _ _ _ _ _ d hd => by cases hd
        · exact h
  · next hrun =>
      rw [constraintsRestored_of_skipped]
      constructor
      · exact Or.inl
      · rintro (hnil | ⟨hrest, -⟩)
        · exact hnil
        · by_cases hreach : reachesApply plan hasApplier = true
          · exact absurd (hruns.mpr ⟨hreach, hrest⟩) hrun
          · exact if_neg hreach

/-- A foreign key and a unique constraint of one table. -/
def customerKey : TransferConstraintItem :=
  ⟨"k1", "fk_c", "foreign_key", "s", "o", "disable", "FOREIGN KEY (c) REFERENCES p"⟩

def numberUnique : TransferConstraintItem :=
  ⟨"k2", "uq_n", "unique", "s", "o", "disable", "UNIQUE (n)"⟩

def ordersPlan : TransferConstraintPlan := ⟨true, "restore_now", [customerKey, numberUnique]⟩

/-- A server that adds a constraint only when it has none of that name. -/
def plainTarget : Target where
  engine := .postgres
  exec missing query :=
    if numberUnique ∉ missing ∧ constraintRestoreSQL .postgres numberUnique = .ok query then
      .error "relation already exists"
    else .ok ()

/-- The same server, where another table still refers to the unique constraint. -/
def referencedTarget : Target where
  engine := .postgres
  exec missing query :=
    if constraintDisableSQL .postgres numberUnique = .ok query then
      .error "other objects depend on it"
    else plainTarget.exec missing query

theorem ordersPlan_restored :
    ConstraintsRestored plainTarget (runConstraints plainTarget (some ordersPlan) true .completed) := by
  apply (constraintsRestored_iff (some ordersPlan) true .completed (fun h => by cases h)).mpr
  refine Or.inr ⟨Or.inr (fun h => by cases h.1), ?_⟩
  apply (restore_tries_all_iff _ _ _).mp
  · decide +kernel
  · decide +kernel

theorem recreates_customerKey : Recreates referencedTarget customerKey := by
  intro missing _
  have hdisable : ∀ query, constraintRestoreSQL .postgres customerKey = .ok query →
      constraintDisableSQL .postgres numberUnique ≠ .ok query := by
    intro query h h'
    exact absurd (h.trans h'.symm) (by decide +kernel)
  have hrestore : ∀ query, constraintRestoreSQL .postgres customerKey = .ok query →
      constraintRestoreSQL .postgres numberUnique ≠ .ok query := by
    intro query h h'
    exact absurd (h.trans h'.symm) (by decide +kernel)
  have hok : (constraintRestoreSQL .postgres customerKey).isOk = true := by
    decide +kernel
  cases hquery : constraintRestoreSQL .postgres customerKey with
  | error e =>
      rw [hquery] at hok
      cases hok
  | ok query =>
      have hexec : referencedTarget.exec missing query = .ok () := by
        simp [referencedTarget, plainTarget, hdisable query hquery, hrestore query hquery]
      rw [restoreItem, show referencedTarget.engine = .postgres from rfl, hquery]
      rw [Except.bind, execItem, hexec]
      rfl

/-- The drop of the unique constraint fails, so `Restore` begins with one that is still there, and
leaves the foreign key dropped. -/
theorem customerKey_stays_missing :
    let run := runConstraints referencedTarget (some ordersPlan) true .completed
    run = ⟨[customerKey], [numberUnique], [customerKey]⟩ ∧
      Recreates referencedTarget customerKey ∧ ¬ ConstraintsRestored referencedTarget run := by
  have hrun : runConstraints referencedTarget (some ordersPlan) true .completed =
      ⟨[customerKey], [numberUnique], [customerKey]⟩ := by
    decide +kernel
  refine ⟨hrun, recreates_customerKey, ?_⟩
  intro h
  rw [hrun] at h
  exact absurd (h.all_tried customerKey (List.mem_singleton_self _)) (by decide)

end Job

end SqlOptima.ConstraintRestore
