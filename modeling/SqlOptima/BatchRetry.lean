import SqlOptima.ChangeApply

namespace SqlOptima.BatchRetry

open Lsn CdcCapture ChangeApply

/-!
# Retry of a failed batch
-/

variable {Value : Type}

section Batch

/-- Where applying an event raises: asking the deduplicator, executing the statement, recording the
event, saving its checkpoint. -/
inductive Fault
  | lookup
  | execute
  | record
  | save
  deriving DecidableEq

variable (digest : ChangeEvent Value → List Char)

/-- `apply` with all that may raise in it. -/
def applyFaulty (fault : Option Fault) (s : ApplierState Value) (e : ChangeEvent Value) :
    ApplierState Value × ApplyResult :=
  if fault = some .lookup then (s, .raised)
  else if isDuplicate digest s e then (s, .duplicate)
  else if fault = some .execute then (s, .raised)
  else if fault = some .record then (executeEvent s e, .raised)
  else
    let s := recordEvent digest (executeEvent s e) e
    if e.lsn.isSome ∧ fault = some .save then (s, .raised)
    else
      match saveEvent s e with
      | none => (s, .raised)
      | some s => (s, .applied)

/-- The loop of `apply_batch`, to its end or to the first event that raises. -/
def applyEvents (faults : Nat → Option Fault) (n : Nat) (s : ApplierState Value) :
    List (ChangeEvent Value) → ApplierState Value × Bool
  | [] => (s, true)
  | e :: events =>
      let r := applyFaulty digest (faults n) s e
      if r.2 = .raised then (r.1, false) else applyEvents faults (n + 1) r.1 events

/-- `apply_batch`. The checkpoints are kept in the database of the target, so its transaction rolls
them back as well. -/
def applyBatch (faults : Nat → Option Fault) (s : ApplierState Value)
    (events : List (ChangeEvent Value)) : ApplierState Value × Bool :=
  let r := applyEvents digest faults 0 s events
  if r.2 then r else ({ r.1 with target := s.target, checkpoints := s.checkpoints }, false)

/-- The events whose statements the target ran for the batch. -/
def executed (faults : Nat → Option Fault) (s : ApplierState Value)
    (events : List (ChangeEvent Value)) : List (ChangeEvent Value) :=
  (applyEvents digest faults 0 s events).1.target.drop s.target.length

/-- A batch that was rolled back may come again: none of its events counts as applied, unless it
was applied before the batch. -/
structure Retryable (faults : Nat → Option Fault) (s : ApplierState Value)
    (events : List (ChangeEvent Value)) : Prop where
  forgotten : ∀ e ∈ executed digest faults s events,
    isDuplicate digest (applyBatch digest faults s events).1 e = false
  remembered : ∀ e ∈ events, isDuplicate digest (applyBatch digest faults s events).1 e = true →
    isDuplicate digest s e = true
  checkpoints : (applyBatch digest faults s events).1.checkpoints = s.checkpoints

/-- Applying the event raises, and before the event is recorded. -/
def RaisesUnrecorded (fault : Option Fault) (s : ApplierState Value) (e : ChangeEvent Value) :
    Prop :=
  fault = some .lookup ∨
    isDuplicate digest s e = false ∧ (fault = some .execute ∨ fault = some .record)

/-- The batch fails at its first event that was not applied before, and before that event is
recorded. -/
def FailsFirst (faults : Nat → Option Fault) (n : Nat) (s : ApplierState Value)
    (events : List (ChangeEvent Value)) : Prop :=
  ∃ before e after, events = before ++ e :: after ∧
    (∀ b ∈ before, isDuplicate digest s b = true) ∧
      RaisesUnrecorded digest (faults (n + before.length)) s e

/-- An in-memory cache of size zero. -/
def KeepsNothing (d : Deduplicator) : Prop := d.backend = .memory 0 ∧ d.keys = []

end Batch

section Step

variable {digest : ChangeEvent Value → List Char} {fault : Option Fault} {s : ApplierState Value}
variable {e : ChangeEvent Value}

def keyOf (digest : ChangeEvent Value → List Char) (e : ChangeEvent Value) : List Char :=
  makeKey (DedupKey.forEvent digest e).value (qualifiedTable e.tableSchema e.tableName)

attribute [local simp] applyEvents in
theorem isDuplicate_eq_true_iff : isDuplicate digest s e = true ↔ keyOf digest e ∈ s.dedup.keys :=
  decide_eq_true_iff

theorem isDuplicate_congr {s' : ApplierState Value} (h : s'.dedup = s.dedup) :
    isDuplicate digest s' e = isDuplicate digest s e := by
  rw [isDuplicate, isDuplicate, h]

/-- What one event does. -/
inductive Outcome (digest : ChangeEvent Value → List Char) (fault : Option Fault)
    (s : ApplierState Value) (e : ChangeEvent Value) (r : ApplierState Value × ApplyResult) : Prop
  | duplicate (hraises : ¬ RaisesUnrecorded digest fault s e)
      (hdup : isDuplicate digest s e = true) (heq : r = (s, .duplicate))
  | unrecorded (hraises : RaisesUnrecorded digest fault s e) (hraised : r.2 = .raised)
      (hdedup : r.1.dedup = s.dedup)
      (htarget : r.1.target = s.target ∨
        isDuplicate digest s e = false ∧ r.1.target = s.target ++ [e])
  | recorded (hraises : ¬ RaisesUnrecorded digest fault s e)
      (hnew : isDuplicate digest s e = false)
      (hdedup : r.1.dedup = (recordEvent digest s e).dedup) (htarget : r.1.target = s.target ++ [e])

theorem applyFaulty_outcome (digest : ChangeEvent Value → List Char) (fault : Option Fault)
    (s : ApplierState Value) (e : ChangeEvent Value) :
    Outcome digest fault s e (applyFaulty digest fault s e) := by
  rw [applyFaulty]
  split
  · next hlookup => exact .unrecorded (Or.inl hlookup) rfl rfl (Or.inl rfl)
  · next hlookup =>
      split
      · next hdup =>
          refine .duplicate ?_ hdup rfl
          rintro (hfault | ⟨hnew, -⟩)
          · exact hlookup hfault
          · exact ne_true_of_eq_false hnew hdup
      · next hdup =>
          have hnew := eq_false_of_ne_true hdup
          split
          · next hexecute =>
              exact .unrecorded (Or.inr ⟨hnew, Or.inl hexecute⟩) rfl rfl (Or.inl rfl)
          · next hexecute =>
              split
              · next hrecord =>
                  exact .unrecorded (Or.inr ⟨hnew, Or.inr hrecord⟩) rfl rfl (Or.inr ⟨hnew, rfl⟩)
              · next hrecord =>
                  have hraises : ¬ RaisesUnrecorded digest fault s e := by
                    rintro (hfault | ⟨-, hfault | hfault⟩)
                    · exact hlookup hfault
                    · exact hexecute hfault
                    · exact hrecord hfault
                  dsimp only
                  split
                  · exact .recorded hraises hnew rfl rfl
                  · rw [saveEvent]
                    cases e.lsn with
                    | none => exact .recorded hraises hnew rfl rfl
                    | some l =>
                        dsimp only
                        cases l.serialize with
                        | none => exact .recorded hraises hnew rfl rfl
                        | some b => exact .recorded hraises hnew rfl rfl

theorem recordEvent_keys (hnew : isDuplicate digest s e = false) :
    (recordEvent digest s e).dedup =
      match s.dedup.backend with
      | .memory maxSize => { s.dedup with
          keys :=
            if maxSize < s.dedup.keys.length + 1 then (s.dedup.keys ++ [keyOf digest e]).drop 1
            else s.dedup.keys ++ [keyOf digest e] }
      | .redis => { s.dedup with keys := s.dedup.keys ++ [keyOf digest e] } := by
  have hfilter : s.dedup.keys.filter (· ≠ keyOf digest e) = s.dedup.keys :=
    List.filter_eq_self.mpr fun k hk => decide_eq_true fun heq =>
      ne_true_of_eq_false hnew (isDuplicate_eq_true_iff.mpr (heq ▸ hk))
  simp only [recordEvent, Deduplicator.record]
  rewrite [← keyOf, hfilter, List.length_append, List.length_singleton]
  rfl

/-- A new event is remembered once it is recorded. -/
theorem isDuplicate_recordEvent (hnew : isDuplicate digest s e = false)
    (hkeeps : ¬ KeepsNothing s.dedup) : isDuplicate digest (recordEvent digest s e) e = true := by
  rw [isDuplicate_eq_true_iff, recordEvent_keys hnew]
  split
  · next maxSize hbackend =>
      dsimp only
      split
      · next hfull =>
          cases hkeys : s.dedup.keys with
          | nil =>
              rw [hkeys] at hfull
              obtain rfl : maxSize = 0 := by simpa using hfull
              exact absurd ⟨hbackend, hkeys⟩ hkeeps
          | cons k keys => exact List.mem_append_right _ (List.mem_singleton_self _)
      · exact List.mem_append_right _ (List.mem_singleton_self _)
  · exact List.mem_append_right _ (List.mem_singleton_self _)

theorem recordEvent_of_keepsNothing (h : KeepsNothing s.dedup) :
    (recordEvent digest s e).dedup = s.dedup := by
  have hnew : isDuplicate digest s e = false :=
    eq_false_of_ne_true fun hdup => by
      rw [isDuplicate_eq_true_iff, h.2] at hdup
      exact absurd hdup List.not_mem_nil
  rw [recordEvent_keys hnew, h.1, h.2]
  exact Deduplicator.ext rfl h.2.symm

end Step

section Loop

variable {digest : ChangeEvent Value → List Char} {faults : Nat → Option Fault} {n : Nat}
variable {s : ApplierState Value} {events : List (ChangeEvent Value)}

theorem failsFirst_cons {e : ChangeEvent Value} (hdup : isDuplicate digest s e = true)
    (h : FailsFirst digest faults (n + 1) s events) :
    FailsFirst digest faults n s (e :: events) := by
  obtain ⟨before, e', after, rfl, hbefore, hraises⟩ := h
  refine ⟨e :: before, e', after, rfl, List.forall_mem_cons.mpr ⟨hdup, hbefore⟩, ?_⟩
  rwa [List.length_cons, Nat.add_comm before.length, ← Nat.add_assoc]

/-- Where the batch fails first, the deduplicator is as it was and knows no event that was run. -/
theorem applyEvents_of_failsFirst (h : FailsFirst digest faults n s events) :
    (applyEvents digest faults n s events).1.dedup = s.dedup ∧
      ∀ e ∈ (applyEvents digest faults n s events).1.target.drop s.target.length,
        isDuplicate digest s e = false := by
  obtain ⟨before, e, after, rfl, hbefore, hraises⟩ := h
  induction before generalizing n with
  | nil =>
      rw [List.nil_append, applyEvents]
      cases applyFaulty_outcome digest (faults n) s e with
      | duplicate hnot hdup heq => exact absurd hraises hnot
      | unrecorded hraises hraised hdedup htarget =>
          rw [if_pos hraised]
          refine ⟨hdedup, fun e' he' => ?_⟩
          rcases htarget with htarget | ⟨hnew, htarget⟩
          · rw [htarget, List.drop_length] at he'
            exact absurd he' List.not_mem_nil
          · rw [htarget, List.drop_left, List.mem_singleton] at he'
            rwa [he']
      | recorded hnot hnew hdedup htarget => exact absurd hraises hnot
  | cons b before ih =>
      obtain ⟨hb, hrest⟩ := List.forall_mem_cons.mp hbefore
      rw [List.length_cons, Nat.add_comm before.length, ← Nat.add_assoc] at hraises
      rw [List.cons_append, applyEvents]
      cases applyFaulty_outcome digest (faults n) s b with
      | duplicate hnot hdup heq =>
          rw [heq, if_neg ApplyResult.noConfusion]
          exact ih hrest hraises
      | unrecorded hraises hraised hdedup htarget =>
          rw [if_pos hraised]
          refine ⟨hdedup, fun e' he' => ?_⟩
          rcases htarget with htarget | ⟨hnew, htarget⟩
          · rw [htarget, List.drop_length] at he'
            exact absurd he' List.not_mem_nil
          · exact absurd hb (ne_true_of_eq_false hnew)
      | recorded hnot hnew hdedup htarget => exact absurd hb (ne_true_of_eq_false hnew)

/-- A cache of size zero stays as it is. -/
theorem applyEvents_of_keepsNothing (h : KeepsNothing s.dedup) :
    (applyEvents digest faults n s events).1.dedup = s.dedup := by
  induction events generalizing n s with
  | nil => rfl
  | cons e events ih =>
      have hstep : (applyFaulty digest (faults n) s e).1.dedup = s.dedup := by
        cases applyFaulty_outcome digest (faults n) s e with
        | duplicate _ _ heq => rw [heq]
        | unrecorded _ _ hdedup _ => exact hdedup
        | recorded _ _ hdedup _ => exact hdedup.trans (recordEvent_of_keepsNothing h)
      rw [applyEvents]
      split
      · exact hstep
      · exact (ih (by rw [hstep]; exact h)).trans hstep

/-- Some event that was run from the given place on counts as applied. -/
def RunRemembered (digest : ChangeEvent Value → List Char) (k : Nat) (s : ApplierState Value) :
    Prop :=
  k ≤ s.target.length ∧ ¬ KeepsNothing s.dedup ∧
    ∃ e ∈ s.target.drop k, isDuplicate digest s e = true

theorem runRemembered_recordEvent {k : Nat} {e : ChangeEvent Value} {s' : ApplierState Value}
    (hk : k ≤ s.target.length) (hkeeps : ¬ KeepsNothing s.dedup)
    (hnew : isDuplicate digest s e = false)
    (hdedup : s'.dedup = (recordEvent digest s e).dedup) (htarget : s'.target = s.target ++ [e]) :
    RunRemembered digest k s' := by
  have hdup : isDuplicate digest s' e = true :=
    (isDuplicate_congr hdedup).trans (isDuplicate_recordEvent hnew hkeeps)
  refine ⟨?_, fun hnothing => ?_, e, ?_, hdup⟩
  · rw [htarget, List.length_append]
    exact Nat.le_add_right_of_le hk
  · rw [isDuplicate_eq_true_iff, hnothing.2] at hdup
    exact List.not_mem_nil hdup
  · rw [htarget, List.drop_append_of_le_length hk]
    exact List.mem_append_right _ (List.mem_singleton_self e)

theorem runRemembered_applyEvents {k : Nat} (h : RunRemembered digest k s) :
    RunRemembered digest k (applyEvents digest faults n s events).1 := by
  induction events generalizing n s with
  | nil => exact h
  | cons e events ih =>
      have hstep : RunRemembered digest k (applyFaulty digest (faults n) s e).1 := by
        obtain ⟨hk, hkeeps, e', he', hdup⟩ := h
        cases applyFaulty_outcome digest (faults n) s e with
        | duplicate _ _ heq =>
            rw [heq]
            exact ⟨hk, hkeeps, e', he', hdup⟩
        | unrecorded _ _ hdedup htarget =>
            have hgrows : ∃ more, (applyFaulty digest (faults n) s e).1.target =
                s.target ++ more := by
              rcases htarget with htarget | ⟨-, htarget⟩
              · exact ⟨[], htarget.trans (List.append_nil _).symm⟩
              · exact ⟨[e], htarget⟩
            obtain ⟨more, hmore⟩ := hgrows
            refine ⟨?_, by rwa [hdedup], e', ?_, (isDuplicate_congr hdedup).trans hdup⟩
            · rw [hmore, List.length_append]
              exact Nat.le_add_right_of_le hk
            · rw [hmore, List.drop_append_of_le_length hk]
              exact List.mem_append_left _ he'
        | recorded _ hnew hdedup htarget =>
            exact runRemembered_recordEvent hk hkeeps hnew hdedup htarget
      rw [applyEvents]
      split
      · exact hstep
      · exact ih hstep

/-- A batch that fails later leaves an event behind that counts as applied. -/
theorem runRemembered_of_fails (hfails : (applyEvents digest faults n s events).2 = false)
    (hkeeps : ¬ KeepsNothing s.dedup) (hlater : ¬ FailsFirst digest faults n s events) :
    RunRemembered digest s.target.length (applyEvents digest faults n s events).1 := by
  induction events generalizing n with
  | nil => cases hfails
  | cons e events ih =>
      rw [applyEvents] at hfails ⊢
      cases applyFaulty_outcome digest (faults n) s e with
      | duplicate hnot hdup heq =>
          rw [heq, if_neg ApplyResult.noConfusion] at hfails ⊢
          exact ih hfails fun hfirst => hlater (failsFirst_cons hdup hfirst)
      | unrecorded hraises _ _ _ =>
          exact absurd ⟨[], e, events, rfl, fun _ hb => absurd hb List.not_mem_nil, hraises⟩ hlater
      | recorded _ hnew hdedup htarget =>
          have hstep := runRemembered_recordEvent le_rfl hkeeps hnew hdedup htarget
          split
          · exact hstep
          · exact runRemembered_applyEvents hstep

/-- A failed batch may come again exactly when it failed at its first new event, before that event
was recorded, or when the deduplicator keeps nothing. -/
theorem retryable_iff (hfails : (applyBatch digest faults s events).2 = false) :
    Retryable digest faults s events ↔
      KeepsNothing s.dedup ∨ FailsFirst digest faults 0 s events := by
  have hloop : (applyEvents digest faults 0 s events).2 = false := by
    by_contra hok
    rw [applyBatch, if_pos (eq_true_of_ne_false hok)] at hfails
    exact hok hfails
  have hbatch : (applyBatch digest faults s events).1 =
      ⟨s.target, (applyEvents digest faults 0 s events).1.dedup, s.checkpoints⟩ := by
    rw [applyBatch, if_neg (ne_true_of_eq_false hloop)]
  have hdedup : (applyBatch digest faults s events).1.dedup =
      (applyEvents digest faults 0 s events).1.dedup := by
    rw [hbatch]
  constructor
  · intro hretry
    by_contra hnot
    obtain ⟨hkeeps, hlater⟩ := not_or.mp hnot
    obtain ⟨-, -, e, he, hdup⟩ := runRemembered_of_fails hloop hkeeps hlater
    rw [← isDuplicate_congr hdedup, hretry.forgotten e he] at hdup
    cases hdup
  · intro h
    have hsame : (applyBatch digest faults s events).1.dedup = s.dedup := by
      rw [hdedup]
      rcases h with hnothing | hfirst
      · exact applyEvents_of_keepsNothing hnothing
      · exact (applyEvents_of_failsFirst hfirst).1
    refine ⟨fun e he => ?_, fun e _ hdup => ?_, by rw [hbatch]⟩
    · rw [isDuplicate_congr hsame]
      rcases h with hnothing | hfirst
      · refine eq_false_of_ne_true fun hdup => ?_
        rw [isDuplicate_eq_true_iff, hnothing.2] at hdup
        exact List.not_mem_nil hdup
      · exact (applyEvents_of_failsFirst hfirst).2 e he
    · rwa [isDuplicate_congr hsame] at hdup

end Loop

section Example

/-- An insert without an LSN. -/
def insertOrder (id : Nat) : ChangeEvent Nat :=
  ⟨"public", "orders", .insert, some [("id", id)], none, none⟩

def contentDigest (e : ChangeEvent Nat) : List Char :=
  (e.afterValues.getD []).map fun v => Char.ofNat v.2

def orders : List (ChangeEvent Nat) := [insertOrder 1, insertOrder 2]

def emptyState : ApplierState Nat := ⟨[], ⟨.memory 5000, []⟩, fun _ => none⟩

/-- The event at this place cannot be executed. -/
def failsAt (k : Nat) : Nat → Option Fault := fun n => if n = k then some .execute else none

theorem orders_retryable_first : Retryable contentDigest (failsAt 0) emptyState orders :=
  (retryable_iff rfl).mpr (Or.inr
    ⟨[], insertOrder 1, [insertOrder 2], rfl, fun _ hb => absurd hb List.not_mem_nil,
      Or.inr ⟨rfl, Or.inl rfl⟩⟩)

/-- The second event fails, and the first one counts as applied. -/
theorem orders_not_retryable_second :
    ¬ Retryable contentDigest (failsAt 1) emptyState orders := by
  intro h
  have hrun : insertOrder 1 ∈ executed contentDigest (failsAt 1) emptyState orders := by decide
  have hforgotten := h.forgotten (insertOrder 1) hrun
  have hdup : isDuplicate contentDigest
    (applyBatch contentDigest (failsAt 1) emptyState orders).1 (insertOrder 1) = true := by decide
  rw [hdup] at hforgotten
  cases hforgotten

end Example

end SqlOptima.BatchRetry
