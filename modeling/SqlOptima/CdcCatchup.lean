import SqlOptima.CdcPollDelivery

namespace SqlOptima.CdcCatchup

open Lsn ChangeLog CdcPoll CdcPollDelivery TransitionSystem

/-!
# The end of catch-up

The poll loop over any reader and any applier.
-/

variable {Value : Type}

section Loop

/-- What the ports answer in one round of the loop. -/
structure Round (Value : Type) where
  read : Except String (List (CDCEvent Value))
  accepts : Nat → Bool
  saves : Bool

structure LoopState where
  sm : CDCState
  checkpoint : LSN
  returned : Bool
  deriving DecidableEq

/-- The loop after its three transitions. -/
def started : LoopState := ⟨.cdcCatchup, .zero, false⟩

def afterBatch (cfg : PollLoopConfig) (s : LoopState) (saves : Bool) (batch : BatchResult Value) :
    LoopState :=
  if batch.ok && (batch.checkpoint.isZero || saves) then
    { sm := if s.sm = .cdcCatchup ∧ (batch.applied : Int) < cfg.effectiveBatchSize then
        s.sm.transitionTo .cdcStreaming else s.sm
      checkpoint := batch.checkpoint
      returned := false }
  else { sm := s.sm.transitionTo .failed, checkpoint := batch.checkpoint, returned := true }

def round (cfg : PollLoopConfig) (s : LoopState) (r : Round Value) : Option LoopState :=
  if s.returned then none
  else
    match r.read with
    | .error _ => some { s with sm := s.sm.transitionTo .failed, returned := true }
    | .ok events => some (afterBatch cfg s r.saves (applyEvents r.accepts 0 s.checkpoint events))

/-- What the reader of a capture table returns to the loop. -/
def captureRead (cfg : PollLoopConfig) (s : PollState Value) (readFails : Bool) :
    Except String (List (CDCEvent Value)) :=
  if readFails then .error "cdc capture read"
  else readAfter cfg.schema cfg.table s.table s.checkpoint cfg.effectiveBatchSize

/-- What the loop keeps of a poller's state. -/
def loopState (s : PollState Value) : LoopState :=
  ⟨s.sm, s.checkpoint, decide (s.phase = .returned)⟩

/-- A poll of a capture table is a round of the loop. -/
theorem round_eq_step (cfg : PollLoopConfig) {s : PollState Value} {first : Bool}
    (hphase : s.phase = .polling first) (readFails : Bool) (accepts : Nat → Bool) (saves : Bool) :
    round cfg (loopState s) ⟨captureRead cfg s readFails, accepts, saves⟩ =
      (step cfg s (.poll readFails accepts saves)).map loopState := by
  have hreturned : (loopState s).returned = false := by
    rw [loopState, hphase]
    rfl
  rw [round, hreturned, if_neg Bool.false_ne_true, step, hphase, captureRead, pollBatch]
  cases readFails with
  | true => rfl
  | false =>
      simp only [Bool.false_eq_true, if_false]
      cases readAfter cfg.schema cfg.table s.table s.checkpoint cfg.effectiveBatchSize with
      | error e => rfl
      | ok events =>
          dsimp only
          have hcheckpoint : (loopState s).checkpoint = s.checkpoint := rfl
          rw [hcheckpoint, afterBatch]
          by_cases hok : ((applyEvents accepts 0 s.checkpoint events).ok &&
              ((applyEvents accepts 0 s.checkpoint events).checkpoint.isZero || saves)) = true
          · rw [if_pos hok, if_pos hok]
            rfl
          · rw [if_neg hok, if_neg hok]
            rfl

end Loop

section Catchup

variable {cfg : PollLoopConfig} {s t : LoopState} {r : Round Value}
variable {events : List (CDCEvent Value)}

/-- A step out of catch-up follows a read that drained the log. -/
def DrainedFirst (cfg : PollLoopConfig) (s : LoopState) (r : Round Value) (t : LoopState) : Prop :=
  s.sm = .cdcCatchup → t.sm = .cdcStreaming →
    ∃ events, r.read = .ok events ∧ (events.length : Int) < cfg.effectiveBatchSize

def applicable (events : List (CDCEvent Value)) : List (CDCEvent Value) :=
  events.filter CDCEvent.isApplicable

/-- The applier takes every event it is given, and the checkpoint is saved. -/
def Succeeds (s : LoopState) (r : Round Value) (events : List (CDCEvent Value)) : Prop :=
  (∀ k < (applicable events).length, r.accepts k = true) ∧
    ((lastPos CDCEvent.commitLSN s.checkpoint events).isZero = true ∨ r.saves = true)

/-- In catch-up, a full batch that gets through has as many events to apply as the batch size. -/
def FullOfChanges (cfg : PollLoopConfig) (s : LoopState) (r : Round Value) : Prop :=
  s.sm = .cdcCatchup → ∀ events, r.read = .ok events → Succeeds s r events →
    cfg.effectiveBatchSize ≤ events.length → cfg.effectiveBatchSize ≤ (applicable events).length

theorem applyEvents_ok_iff {accepts : Nat → Bool} {applied : Nat} {p : LSN} :
    (applyEvents accepts applied p events).ok = true ↔
      ∀ k < (applicable events).length, accepts (applied + k) = true := by
  induction events generalizing applied p with
  | nil => exact iff_of_true rfl fun k hk => absurd hk (Nat.not_lt_zero k)
  | cons ev events ih =>
      rw [applyEvents, applicable]
      split
      · next happ =>
          rw [List.filter_cons_of_pos happ]
          split
          · next hacc =>
              rw [ih]
              constructor
              · intro h k hk
                cases k with
                | zero => exact hacc
                | succ k =>
                    rw [Nat.add_succ, ← Nat.succ_add]
                    exact h k (Nat.lt_of_succ_lt_succ hk)
              · intro h k hk
                have hnext := h (k + 1) (Nat.succ_lt_succ hk)
                rwa [Nat.add_succ, ← Nat.succ_add] at hnext
          · next hacc =>
              refine iff_of_false Bool.false_ne_true fun h => hacc ?_
              exact h 0 (Nat.succ_pos _)
      · next happ =>
          rw [List.filter_cons_of_neg happ]
          exact ih

theorem applyEvents_applied {accepts : Nat → Bool} {applied : Nat} {p : LSN}
    (h : (applyEvents accepts applied p events).ok = true) :
    (applyEvents accepts applied p events).applied = applied + (applicable events).length := by
  induction events generalizing applied p with
  | nil => rfl
  | cons ev events ih =>
      rw [applyEvents] at h ⊢
      rw [applicable]
      split at h
      · next happ =>
          rw [if_pos happ, List.filter_cons_of_pos happ]
          split at h
          · next hacc =>
              rw [if_pos hacc, List.length_cons]
              exact (ih h).trans (Nat.succ_add_eq_add_succ _ _)
          · cases h
      · next happ =>
          rw [if_neg happ, List.filter_cons_of_neg happ]
          exact ih h

theorem succeeds_iff :
    ((applyEvents r.accepts 0 s.checkpoint events).ok &&
      ((applyEvents r.accepts 0 s.checkpoint events).checkpoint.isZero || r.saves)) = true ↔
        Succeeds s r events := by
  rw [Bool.and_eq_true, Bool.or_eq_true, Succeeds]
  constructor
  · rintro ⟨hok, hsaved⟩
    rw [(applyEvents_ok hok).2] at hsaved
    refine ⟨fun k hk => ?_, hsaved⟩
    simpa using applyEvents_ok_iff.mp hok k hk
  · rintro ⟨haccepts, hsaved⟩
    have hok : (applyEvents r.accepts 0 s.checkpoint events).ok = true :=
      applyEvents_ok_iff.mpr fun k hk => by simpa using haccepts k hk
    exact ⟨hok, by rwa [(applyEvents_ok hok).2]⟩

theorem ends_catchup_iff (hcatchup : s.sm = .cdcCatchup) (hread : r.read = .ok events)
    (hround : round cfg s r = some t) :
    t.sm = .cdcStreaming ↔
      Succeeds s r events ∧ ((applicable events).length : Int) < cfg.effectiveBatchSize := by
  rw [round] at hround
  split at hround
  · cases hround
  · rw [hread] at hround
    cases hround
    rw [afterBatch]
    split
    · next hok =>
        have happlied := applyEvents_applied (Bool.and_eq_true _ _ ▸ hok).1
        rw [Nat.zero_add] at happlied
        rw [happlied, hcatchup, and_iff_right (succeeds_iff.mp hok)]
        simp only [true_and]
        split
        · next hlt => exact iff_of_true rfl hlt
        · next hlt => exact iff_of_false (fun h => by cases h) hlt
    · next hok =>
        rw [hcatchup]
        exact iff_of_false (fun h => by cases h) fun h => hok (succeeds_iff.mpr h.1)

/-- What one round does. -/
theorem drainedFirst_iff (hround : round cfg s r = some t) :
    DrainedFirst cfg s r t ↔ FullOfChanges cfg s r := by
  constructor
  · intro hdrained hcatchup events hread hsucceeds hfull
    by_contra hfew
    have hends := (ends_catchup_iff hcatchup hread hround).mpr ⟨hsucceeds, not_le.mp hfew⟩
    obtain ⟨events', hread', hshort⟩ := hdrained hcatchup hends
    rw [hread] at hread'
    cases hread'
    exact absurd hfull (not_le.mpr hshort)
  · intro hfullOf hcatchup hstreams
    cases hread : r.read with
    | error e =>
        rw [round, hread] at hround
        split at hround
        · cases hround
        · cases hround
          rw [hcatchup] at hstreams
          cases hstreams
    | ok events =>
        refine ⟨events, rfl, ?_⟩
        obtain ⟨hsucceeds, hfew⟩ := (ends_catchup_iff hcatchup hread hround).mp hstreams
        by_contra hfull
        exact absurd (hfullOf hcatchup events hread hsucceeds (not_lt.mp hfull)) (not_le.mpr hfew)

/-- Whatever the reader returns, all along a run catch-up ends only after a drained read exactly
when the full batches of the catch-up hold no before-images beyond the batch size. -/
theorem catchup_ends_drained_iff {rounds : List (Round Value)}
    (hrun : (runSteps (round cfg) started rounds).isSome) :
    (∀ pre r s t, pre ++ [r] <+: rounds → runSteps (round cfg) started pre = some s →
      round cfg s r = some t → DrainedFirst cfg s r t) ↔
      ∀ pre r s, pre ++ [r] <+: rounds → runSteps (round cfg) started pre = some s →
        FullOfChanges cfg s r := by
  refine along_steps_iff (J := fun _ => True) trivial (fun _ _ _ _ _ _ => trivial) ?_ hrun
  exact fun s r t _ hround => drainedFirst_iff hround

end Catchup

section Example

def batchOfTwo : PollLoopConfig := ⟨"dbo", "orders", 2⟩

def change (operation : CDCOperation) : CDCEvent Nat :=
  ⟨.ofByte 1, .ofByte 1, .ofByte 1, operation, "dbo", "orders", [("id", 1)]⟩

def fullBatch (first : CDCOperation) : Round Nat :=
  ⟨.ok [change first, change .updateAfter], fun _ => true, true⟩

theorem insert_run_iff :
    (∀ pre r s t, pre ++ [r] <+: [fullBatch .insert] →
        runSteps (round batchOfTwo) started pre = some s → round batchOfTwo s r = some t →
          DrainedFirst batchOfTwo s r t) ↔
      ∀ pre r s, pre ++ [r] <+: [fullBatch .insert] →
        runSteps (round batchOfTwo) started pre = some s → FullOfChanges batchOfTwo s r :=
  catchup_ends_drained_iff (by decide)

/-- A full batch of one update ends catch-up. -/
theorem update_ends_catchup :
    ¬ ∀ pre r s t, pre ++ [r] <+: [fullBatch .updateBefore] →
      runSteps (round batchOfTwo) started pre = some s → round batchOfTwo s r = some t →
        DrainedFirst batchOfTwo s r t := by
  intro h
  have hround : round batchOfTwo started (fullBatch .updateBefore) =
      some ⟨.cdcStreaming, .ofByte 1, false⟩ := by decide
  obtain ⟨events, hread, hshort⟩ := h [] _ started _ List.prefix_rfl rfl hround rfl rfl
  cases hread
  exact absurd hshort (by decide)

end Example

end SqlOptima.CdcCatchup
