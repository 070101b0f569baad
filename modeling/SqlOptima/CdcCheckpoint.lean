import SqlOptima.CdcStatements

namespace SqlOptima.CdcCheckpoint

open Lsn CdcPoll CdcStatements

/-!
# What a checkpoint of the poll loop covers
-/

variable {V : Type}

section Loop

/-- The inner loop over a batch. `advances` lists the events whose commit LSN the checkpoint took,
each with what was run for it. -/
structure BatchRun (V : Type) where
  advances : List (CDCEvent (Option V) × Option (Execution V))
  checkpoint : LSN
  applied : Nat
  error : Option ApplyError

def BatchRun.cons (ev : CDCEvent (Option V)) (execution : Option (Execution V))
    (run : BatchRun V) : BatchRun V :=
  { run with advances := (ev, execution) :: run.advances }

/-- `executes i` says whether the target does what the `i`-th call of the writer asks. -/
def applyBatch (cfg : ApplyConfig) (executes : Nat → Bool) :
    Nat → LSN → List (CDCEvent (Option V)) → BatchRun V
  | applied, checkpoint, [] => ⟨[], checkpoint, applied, none⟩
  | applied, checkpoint, ev :: events =>
      if ev.isApplicable then
        match apply cfg (executes applied) ev with
        | .error e => ⟨[], checkpoint, applied, some e⟩
        | .ok execution =>
            (applyBatch cfg executes (applied + 1) ev.commitLSN events).cons ev execution
      else (applyBatch cfg executes applied ev.commitLSN events).cons ev none

end Loop

section Property

/-- The checkpoint passes no change that the target was not given: what it advances over was run or
is a before-image, and a batch that gets through without an error was run whole. -/
structure PassesNothing (events : List (CDCEvent (Option V))) (run : BatchRun V) : Prop where
  advanced : ∀ a ∈ run.advances, a.1.operation = .updateBefore ∨ a.2.isSome
  reported : run.error = none →
    ∀ ev ∈ events, ev.isApplicable → ∃ execution, (ev, some execution) ∈ run.advances

/-- Every change that the loop comes to has a statement; it stops at a delete without its key. -/
def ChangesHaveStatements (cfg : ApplyConfig) (events : List (CDCEvent (Option V))) : Prop :=
  ∀ before ev after, events = before ++ ev :: after → (∀ e ∈ before, HasKey cfg e) →
    ev.isApplicable → HasStatement cfg ev

end Property

section Advances

variable {cfg : ApplyConfig} {executes : Nat → Bool} {applied : Nat} {checkpoint : LSN}
variable {ev : CDCEvent (Option V)} {events : List (CDCEvent (Option V))}

attribute [local simp] applyBatch in
theorem advances_of_error_none
    (h : (applyBatch cfg executes applied checkpoint events).error = none) :
    (applyBatch cfg executes applied checkpoint events).advances.map Prod.fst = events := by
  induction events generalizing applied checkpoint with
  | nil => rfl
  | cons ev events ih =>
      rw [applyBatch] at h ⊢
      split at h
      · next happ =>
          rw [if_pos happ]
          split at h
          · cases h
          · exact congrArg (ev :: ·) (ih h)
      · next happ =>
          rw [if_neg happ]
          exact congrArg (ev :: ·) (ih h)

theorem updateBefore_of_not_isApplicable (h : ¬ ev.isApplicable = true) :
    ev.operation = .updateBefore := by
  rw [CDCEvent.isApplicable, CDCOperation.isApplicable, decide_eq_true_eq, not_not] at h
  exact h

theorem advanced_of_statements (h : ChangesHaveStatements cfg events) :
    ∀ a ∈ (applyBatch cfg executes applied checkpoint events).advances,
      a.1.operation = .updateBefore ∨ a.2.isSome := by
  induction events generalizing applied checkpoint with
  | nil => exact fun a ha => absurd ha List.not_mem_nil
  | cons ev events ih =>
      have hrest : HasKey cfg ev → ChangesHaveStatements cfg events :=
        fun hkey before e after heq hbefore =>
          h (ev :: before) e after (by rw [heq, List.cons_append])
            (List.forall_mem_cons.mpr ⟨hkey, hbefore⟩)
      rw [applyBatch]
      split
      · next happ =>
          cases hev : apply cfg (executes applied) ev with
          | error e => exact fun a ha => absurd ha List.not_mem_nil
          | ok execution =>
              refine List.forall_mem_cons.mpr ⟨Or.inr ?_, ih (hrest (hasKey_of_apply hev))⟩
              exact isSome_of_apply hev happ
                (h [] ev events rfl (fun _ he => absurd he List.not_mem_nil) happ)
      · next happ =>
          have hbefore := updateBefore_of_not_isApplicable happ
          refine List.forall_mem_cons.mpr ⟨Or.inl hbefore, ih (hrest fun hdelete => ?_)⟩
          rw [hbefore] at hdelete
          cases hdelete

/-- A target that does everything it is asked lets the loop pass a change without a statement. -/
theorem mem_advances_of_no_statement {before after : List (CDCEvent (Option V))}
    (hbefore : ∀ e ∈ before, HasKey cfg e) (happ : ev.isApplicable = true)
    (hnone : ¬ HasStatement cfg ev) :
    (ev, none) ∈
      (applyBatch cfg (fun _ => true) applied checkpoint (before ++ ev :: after)).advances := by
  induction before generalizing applied checkpoint with
  | nil =>
      rw [List.nil_append, applyBatch, if_pos happ, apply_of_no_statement hnone]
      exact List.mem_cons_self
  | cons e before ih =>
      obtain ⟨hkey, hrest⟩ := List.forall_mem_cons.mp hbefore
      rw [List.cons_append, applyBatch]
      split
      · obtain ⟨execution, hok⟩ := exists_apply_of_hasKey hkey
        rw [hok]
        exact List.mem_cons_of_mem _ (ih hrest)
      · exact List.mem_cons_of_mem _ (ih hrest)

/-- Whatever the target answers, the loop passes nothing over exactly when the changes of the batch
have statements. -/
theorem passesNothing_iff (cfg : ApplyConfig) (applied : Nat) (checkpoint : LSN)
    (events : List (CDCEvent (Option V))) :
    (∀ executes, PassesNothing events (applyBatch cfg executes applied checkpoint events)) ↔
      ChangesHaveStatements cfg events := by
  constructor
  · rintro hpasses before ev after rfl hbefore happ
    by_contra hnone
    have hadvanced := (hpasses fun _ => true).advanced (ev, none)
      (mem_advances_of_no_statement hbefore happ hnone)
    rcases hadvanced with hop | hsome
    · rw [CDCEvent.isApplicable, hop] at happ
      cases happ
    · cases hsome
  · intro h executes
    have hadvanced :
        ∀ a ∈ (applyBatch cfg executes applied checkpoint events).advances,
          a.1.operation = .updateBefore ∨ a.2.isSome := advanced_of_statements h
    refine ⟨hadvanced, fun herror ev hev happ => ?_⟩
    rw [← advances_of_error_none herror] at hev
    obtain ⟨⟨ev, execution⟩, hmem, rfl⟩ := List.mem_map.mp hev
    rcases hadvanced _ hmem with hop | hsome
    · rw [CDCEvent.isApplicable, hop] at happ
      cases happ
    · obtain ⟨execution, rfl⟩ := Option.isSome_iff_exists.mp hsome
      exact ⟨execution, hmem⟩

end Advances

section Example

/-- The columns of the environment's configuration are not set. -/
def keyOnly : ApplyConfig := ⟨"public", "orders", [], ["id"]⟩

def insertedOrder : CDCEvent (Option Nat) :=
  ⟨LSN.ofByte 1, LSN.ofByte 1, LSN.ofByte 1, .insert, "dbo", "orders", []⟩

/-- The insert is passed over: the checkpoint takes its commit LSN and nothing was run. -/
theorem insert_passed_over :
    ¬ PassesNothing [insertedOrder]
      (applyBatch keyOnly (fun _ => true) 0 .zero [insertedOrder]) := by
  intro h
  rcases h.advanced (insertedOrder, none) List.mem_cons_self with hop | hsome
  · cases hop
  · cases hsome

end Example

end SqlOptima.CdcCheckpoint
