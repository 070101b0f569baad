import SqlOptima.ChunkPipeline

namespace SqlOptima.ChunkPipelineProgress

open SqlOptima.TransitionSystem
open SqlOptima.ChunkPipeline

variable {Cells Tuple Key : Type}

@[simp]
def rowsLeft : Extractor Cells → Nat
  | .extracting rest => rest.length
  | .exited _ => 0

@[simp]
def rowsHeld : Transformer Cells → Nat
  | .holding _ => 1
  | _ => 0

/-- The rows the encoder has not taken yet. -/
def outstanding (s : RunState Cells Tuple) : Nat :=
  rowsLeft s.extractor + s.raw.length + rowsHeld s.transformer + s.pipe.length

@[simp]
def encoderClosed : Encoder Tuple → Bool
  | .closed _ => true
  | _ => false

@[simp]
def stoppedReading : Loader Tuple → Bool
  | .connecting => false
  | .streaming encoder _ => encoderClosed encoder
  | .merging => true
  | .finished _ => true

/-- What keeps the pipeline moving: the transformer does not leave through
`ctx.Done`, and when the loader fails, the rows it leaves behind fit into the
row channel. -/
def keepsMoving (job : ChunkJob Cells Tuple Key) (s : RunState Cells Tuple) : Action → Bool
  | .giveUp => false
  | .connectFail | .writeFail => outstanding s ≤ rowChannelCap
  | .encodeRow =>
      match s.pipe with
      | cells :: _ => (job.cellsToCopyRow cells).isSome || outstanding s ≤ rowChannelCap + 1
      | [] => true
  | _ => true

variable [DecidableEq Key] {job : ChunkJob Cells Tuple Key} {s t : RunState Cells Tuple}
  {a : Action}

theorem outstanding_le_of_transition (h : Transition job s a t) :
    outstanding t ≤ outstanding s := by
  cases h <;> simp_all [outstanding] <;> omega

structure Live (job : ChunkJob Cells Tuple Key) (s : RunState Cells Tuple) : Prop where
  sequenced : Sequenced s
  sends : s.transformer ≠ .gaveUp
  room : stoppedReading s.loader = true → outstanding s ≤ rowChannelCap
  staged : s.loader = .merging → job.conflictKey.isSome

omit [DecidableEq Key] in
theorem live_initial (job : ChunkJob Cells Tuple Key) (ctxDone : Bool) (target : List Tuple) :
    Live job (initial job ctxDone target) := by
  constructor
  · exact sequenced_initial job ctxDone target
  · simp [initial]
  · simp [initial]
  · simp [initial]

theorem outstanding_eq_zero (hs : Sequenced s) (ht : s.transformer ≠ .gaveUp)
    (hl : s.loader.sawEnd = true) : outstanding s = 0 := by
  obtain ⟨hclosed, hpipe⟩ := hs.ended hl
  cases hsent : s.transformer with
  | sent failed =>
      obtain ⟨hx, hraw⟩ := hs.sent failed hsent
      simp [outstanding, hx, hraw, hpipe, hsent]
  | gaveUp => exact absurd hsent ht
  | receiving => simp [hsent] at hclosed
  | holding cells => simp [hsent] at hclosed

theorem live_of_transition (hs : Live job s) (hok : keepsMoving job s a = true)
    (h : Transition job s a t) : Live job t := by
  have hseq := sequenced_of_transition hs.sequenced h
  have hle := outstanding_le_of_transition h
  have hsends : t.transformer ≠ .gaveUp := by
    have := hs.sends
    cases h <;> simp_all [keepsMoving]
  have hstaged : t.loader = .merging → job.conflictKey.isSome := by
    have := hs.staged
    cases h <;> simp_all
  refine ⟨hseq, hsends, ?_, hstaged⟩
  intro hstop
  -- The loader had stopped before, stops at the end of the rows, or fails here.
  by_cases hold : stoppedReading s.loader = true
  · exact Nat.le_trans hle (hs.room hold)
  by_cases hend : t.loader.sawEnd = true
  · rw [outstanding_eq_zero hseq hsends hend]
    exact Nat.zero_le _
  cases h with
  | connectFail hl =>
      have hroom : outstanding s ≤ rowChannelCap := by simpa [keepsMoving] using hok
      exact Nat.le_trans hle hroom
  | writeFail hl hw =>
      have hroom : outstanding s ≤ rowChannelCap := by simpa [keepsMoving] using hok
      exact Nat.le_trans hle hroom
  | encodeReject hl hp hrow =>
      simp [keepsMoving, hp, hrow] at hok
      simp [outstanding, hp] at hok ⊢
      omega
  | _ => simp_all

theorem feeds_of_room (job : ChunkJob Cells Tuple Key) (ht : s.transformer.closedPipe = false)
    (hroom : rowsHeld s.transformer + s.pipe.length ≤ rowChannelCap) :
    ∃ a ∈ processActions, a ≠ .giveUp ∧ (step job s a).isSome := by
  cases htr : s.transformer with
  | receiving =>
      cases hraw : s.raw with
      | nil =>
          cases hx : s.extractor with
          | extracting rest =>
              cases rest with
              | nil => exact ⟨.finishExtract, by decide, by decide, by simp [step, hx]⟩
              | cons cells rest =>
                  refine ⟨.extract, by decide, by decide, ?_⟩
                  simp [step, hx, hraw, rowChannelCap]
          | exited failed =>
              exact ⟨.report, by decide, by decide, by simp [step, htr, hraw, hx]⟩
      | cons cells raw => exact ⟨.receive, by decide, by decide, by simp [step, htr, hraw]⟩
  | holding cells =>
      refine ⟨.push, by decide, by decide, ?_⟩
      have hlt : s.pipe.length < rowChannelCap := by
        simp [htr] at hroom
        omega
      simp [step, htr, hlt]
  | sent failed => simp [htr] at ht
  | gaveUp => simp [htr] at ht

theorem enabled_of_live (hs : Live job s) (hret : s.returned = none) :
    ∃ a ∈ processActions, a ≠ .giveUp ∧ (step job s a).isSome := by
  cases hl : s.loader with
  | connecting => exact ⟨.connect, by decide, by decide, by simp [step, hl]⟩
  | streaming encoder copy =>
      cases hw : encoder.inWrite with
      | true =>
          cases copy with
          | reading =>
              refine ⟨.transfer, by decide, by decide, ?_⟩
              cases encoder <;> simp_all [step]
          | ended ok =>
              refine ⟨.writeFail, by decide, by decide, ?_⟩
              simp only [step, hl, hw, if_true, Option.isSome_some]
      | false =>
          cases encoder with
          | receiving =>
              cases hp : s.pipe with
              | nil =>
                  cases ht : s.transformer.closedPipe with
                  | true =>
                      refine ⟨.encodeEnd, by decide, by decide, ?_⟩
                      simp only [step, hl, hp, ht, if_true, Option.isSome_some]
                  | false =>
                      apply feeds_of_room job ht
                      cases s.transformer <;> simp [hp, rowChannelCap]
              | cons cells pipe =>
                  refine ⟨.encodeRow, by decide, by decide, ?_⟩
                  cases hrow : job.cellsToCopyRow cells <;> simp [step, hl, hp, hrow]
          | closed ok =>
              cases copy with
              | reading =>
                  refine ⟨.endCopy, by decide, by decide, ?_⟩
                  cases ok <;> simp [step, hl]
              | ended copyOk =>
                  refine ⟨.join, by decide, by decide, ?_⟩
                  cases hk : job.conflictKey <;> cases ok <;> cases copyOk <;> simp [step, hl, hk]
          | header => simp at hw
          | writing row => simp at hw
          | trailer => simp at hw
  | merging =>
      obtain ⟨key, hk⟩ := Option.isSome_iff_exists.mp (hs.staged hl)
      refine ⟨.merge, by decide, by decide, ?_⟩
      cases hm : KeyedTable.merge key s.target s.copied <;> simp [step, hl, hk, hm]
  | finished ok =>
      cases ht : s.transformer.closedPipe with
      | true =>
          cases htr : s.transformer with
          | sent failed =>
              exact ⟨.receiveErr, by decide, by decide, by simp [step, hl, htr, hret]⟩
          | gaveUp => exact absurd htr hs.sends
          | receiving => simp [htr] at ht
          | holding cells => simp [htr] at ht
      | false =>
          have hroom := hs.room (by simp [hl])
          refine feeds_of_room job ht ?_
          rw [outstanding] at hroom
          omega

@[simp]
def encoderWork : Encoder Tuple → Nat
  | .header => 3
  | .receiving => 2
  | .writing _ => 3
  | .trailer => 1
  | .closed _ => 0

@[simp]
def copyWork : Copy → Nat
  | .reading => 1
  | .ended _ => 0

@[simp]
def loaderWork : Loader Tuple → Nat
  | .connecting => 7
  | .streaming encoder copy => 2 + encoderWork encoder + copyWork copy
  | .merging => 1
  | .finished _ => 0

@[simp]
def extractorWork : Extractor Cells → Nat
  | .extracting rest => 5 * rest.length + 1
  | .exited _ => 0

@[simp]
def transformerWork : Transformer Cells → Nat
  | .receiving => 1
  | .holding _ => 4
  | .sent _ => 0
  | .gaveUp => 0

/-- A bound on the steps still to come: a row is handed on up to five times. -/
def work (s : RunState Cells Tuple) : Nat :=
  extractorWork s.extractor + 4 * s.raw.length + transformerWork s.transformer +
    2 * s.pipe.length + loaderWork s.loader + (if s.ctxDone then 0 else 1) +
    if s.returned.isSome then 0 else 1

theorem work_lt_of_transition (h : Transition job s a t) : work t < work s := by
  cases h with
  | writeFail hl hw =>
      rename_i encoder ok
      cases encoder <;> simp_all [work]
  | _ => simp_all [work] <;> omega

/-- Whatever the scheduling, the faults and the moment of the cancellation: as
long as every step keeps the pipeline moving, a run that has not returned can
take a step, the transformer has not left without sending, and the run is over
after at most `work` more steps. -/
theorem run_finishes (job : ChunkJob Cells Tuple Key) (ctxDone : Bool) (target : List Tuple)
    (h : ReachesBy (step job) (fun s a => keepsMoving job s a = true)
      (initial job ctxDone target) s) :
    (s.returned = none → ∃ a ∈ processActions, a ≠ .giveUp ∧ (step job s a).isSome) ∧
      s.transformer ≠ .gaveUp ∧
      ∀ acts t, runSteps (step job) s acts = some t → acts.length ≤ work s := by
  have hlive : Live job s := by
    refine h.invariant (live_initial job ctxDone target) ?_
    intro u b v hu hok hstep
    exact live_of_transition hu hok (transition_of_step hstep)
  refine ⟨enabled_of_live hlive, hlive.sends, ?_⟩
  intro acts t hrun
  have hle := length_le_of_decreasing
    (fun u b v hstep => work_lt_of_transition (transition_of_step hstep)) hrun
  omega

def unitJob (n : Nat) : ChunkJob Unit Unit Unit :=
  ⟨List.replicate n (), id, some, none⟩

theorem lostConnection_finishes :
    ∃ s, ReachesBy (step (unitJob 2)) (fun s a => keepsMoving (unitJob 2) s a = true)
        (initial (unitJob 2) false []) s ∧
      (s.returned = none ∧ s.transformer = .holding ()) ∧
      (∃ a ∈ processActions, a ≠ .giveUp ∧ (step (unitJob 2) s a).isSome) := by
  have hrun : (runSteps (guarded (keepsMoving (unitJob 2)) (step (unitJob 2)))
      (initial (unitJob 2) false []) [.connectFail, .extract, .receive, .push, .cancel, .extract,
        .receive]).any
      (fun s => s.returned.isNone && decide (s.transformer = .holding ())) = true := by
    decide +kernel
  obtain ⟨s, hs, hstate⟩ := (Option.any_eq_true _ _).mp hrun
  have hreach := reachesBy_of_guarded (reaches_of_runSteps hs)
  obtain ⟨hret, htr⟩ : s.returned = none ∧ s.transformer = .holding () := by
    simpa using hstate
  exact ⟨s, hreach, ⟨hret, htr⟩, (run_finishes (unitJob 2) false [] hreach).1 hret⟩

def Deadlocked (job : ChunkJob Cells Tuple Key) (s : RunState Cells Tuple) : Prop :=
  s.returned = none ∧ ∀ a ∈ processActions, step job s a = none

theorem deadlock_of_run (job : ChunkJob Cells Tuple Key) (s : RunState Cells Tuple)
    (acts : List Action) (p : RunState Cells Tuple → Bool)
    (h : (runSteps (step job) s acts).any (fun t => t.returned.isNone &&
      processActions.all (fun a => (step job t a).isNone) && p t) = true) :
    ∃ t, Reaches (step job) s t ∧ Deadlocked job t ∧ p t = true := by
  obtain ⟨t, ht, hstate⟩ := (Option.any_eq_true _ _).mp h
  rw [Bool.and_eq_true, Bool.and_eq_true, Option.isNone_iff_eq_none, List.all_eq_true] at hstate
  refine ⟨t, reaches_of_runSteps ht, ⟨hstate.1.1, ?_⟩, hstate.2⟩
  intro a ha
  exact Option.isNone_iff_eq_none.mp (hstate.1.2 a ha)

/-- Two ways to wait forever: the connection to the target fails before a chunk
of 33 rows, one more than the row channel holds; or a chunk of one row is
cancelled while the transformer hands the row on. -/
theorem pipeline_deadlocks :
    (∃ s, Reaches (step (unitJob 33)) (initial (unitJob 33) false []) s ∧
      Deadlocked (unitJob 33) s ∧ s.ctxDone = false) ∧
    ∃ s, Reaches (step (unitJob 1)) (initial (unitJob 1) false []) s ∧
      Deadlocked (unitJob 1) s ∧ s.transformer = .gaveUp := by
  constructor
  · have hrun := deadlock_of_run (unitJob 33) (initial (unitJob 33) false [])
      (Action.connectFail :: (List.replicate 32 [Action.extract, .receive, .push]).flatten ++
        [Action.extract, .receive, .finishExtract]) (fun s => !s.ctxDone) (by decide +kernel)
    simpa using hrun
  · have hrun := deadlock_of_run (unitJob 1) (initial (unitJob 1) false [])
      [.extract, .receive, .cancel, .giveUp, .finishExtract, .connect, .transfer, .encodeEnd,
        .transfer, .endCopy, .join]
      (fun s => decide (s.transformer = .gaveUp)) (by decide +kernel)
    simpa using hrun

end SqlOptima.ChunkPipelineProgress
