import SqlOptima.ReplicationBus

namespace SqlOptima.ReplicationCheckpoint

open SqlOptima.Lsn
open SqlOptima.SourceLog
open SqlOptima.CdcCapture (ChangeEvent rowToChange_eq_some)
open SqlOptima.ChangeApply
open SqlOptima.DedupRows
open SqlOptima.ReplicationBus
open SqlOptima.TransitionSystem

variable {Value : Type}

def rowAt (messages : List (Message Value)) (i : Nat) : Option (LogRow Value × Bool) :=
  messages[i]?.bind fun m => m.captured.row.map fun r => (r, m.raises)

/-- The captured messages a stream handles safely: every change lies beyond the
checkpoint the stream started with, and before a change that does not raise, the
other captured changes of its target table up to its LSN were delivered without
raising. -/
structure SafeMessages (cfg : ConsumerConfig) (checkpoints : Checkpoints)
    (messages : List (Message Value)) : Prop where
  beyond : ∀ i r b, rowAt messages i = some (r, b) →
    ∀ c, checkpoints (checkpointTable cfg r) = some c → c < r.row.startLSN
  ordered : ∀ j r, rowAt messages j = some (r, false) → ∀ i r' b, rowAt messages i = some (r', b) →
    r' ≠ r → checkpointTable cfg r' = checkpointTable cfg r →
      r'.row.startLSN ≤ r.row.startLSN → ∃ k < j, rowAt messages k = some (r', false)

def done (s : BusState Value) : Nat := if s.stage = .idle then s.taken else s.taken - 1

def targetKey (cfg : ConsumerConfig) (r : LogRow Value) : List Char :=
  makeKey (lsnToString (unpack r.row.startLSN))
    (qualifiedTable cfg.targetSchema (cfg.targetName r.table.tableName))

def IsSynthetic (k : List Char) : Prop := ∃ t q, k = makeKey ("syn:".toList ++ t) q

structure BusInv (cfg : ConsumerConfig) (checkpoints : Checkpoints)
    (messages : List (Message Value)) (s : BusState Value) : Prop where
  active : s.stage ≠ .idle → 0 < s.taken
  appliedFrom : ∀ r ∈ s.appliedRows, ∃ k < s.taken, rowAt messages k = some (r, false)
  finished : ∀ k < done s, ∀ r, rowAt messages k = some (r, false) → r ∈ s.appliedRows
  currentApplied : s.stage = .recording ∨ s.stage = .saving →
    ∀ r b, rowAt messages (s.taken - 1) = some (r, b) → r ∈ s.appliedRows
  keys : ∀ k ∈ s.applier.dedup.keys, (∃ r ∈ s.appliedRows, k = targetKey cfg r) ∨ IsSynthetic k
  saved : ∀ tbl c, s.applier.checkpoints tbl = some c →
    checkpoints tbl = some c ∨
      ∃ r ∈ s.appliedRows, checkpointTable cfg r = tbl ∧ r.row.startLSN = c

section Keys

variable {cfg : ConsumerConfig} {digest : ChangeEvent Value → List Char}

theorem rowAt_of_change {messages : List (Message Value)} {i : Nat} {m : Message Value}
    (hm : messages[i]? = some m) {r : LogRow Value} (hr : m.captured.row = some r) :
    rowAt messages i = some (r, m.raises) := by
  simp [rowAt, hm, hr]

theorem row_of_rowAt {messages : List (Message Value)} {i : Nat} {m : Message Value}
    (hm : messages[i]? = some m) {r : LogRow Value} {b : Bool}
    (h : rowAt messages i = some (r, b)) : m.captured.row = some r ∧ m.raises = b := by
  rw [rowAt, hm, Option.bind_some, Option.map_eq_some_iff] at h
  obtain ⟨r', hr', heq⟩ := h
  obtain ⟨rfl, hb⟩ := Prod.mk.inj heq
  exact ⟨hr', hb⟩

theorem event_of_row {c : Captured Value} {r : LogRow Value} (h : c.row = some r) :
    r.event = some c.event := by
  cases c with
  | change r' e he =>
      cases h
      exact he
  | snapshot e he => cases h

theorem lsn_of_no_row {c : Captured Value} (h : c.row = none) : c.event.lsn = none := by
  cases c with
  | change r e he => cases h
  | snapshot e he => exact he

theorem key_of_change {c : Captured Value} {r : LogRow Value} (h : c.row = some r) :
    makeKey (DedupKey.forEvent digest (cfg.retarget c.event)).value
      (qualifiedTable (cfg.retarget c.event).tableSchema (cfg.retarget c.event).tableName) =
      targetKey cfg r := by
  obtain ⟨hlsn, -, htable⟩ := rowToChange_eq_some (event_of_row h)
  have hlsn' : (cfg.retarget c.event).lsn = some (unpack r.row.startLSN) := hlsn
  rw [DedupKey.forEvent, hlsn', targetKey, ← htable]
  rfl

theorem key_of_snapshot {c : Captured Value} (h : c.row = none) (q : List Char) :
    IsSynthetic (makeKey (DedupKey.forEvent digest (cfg.retarget c.event)).value q) := by
  have hlsn : (cfg.retarget c.event).lsn = none := lsn_of_no_row h
  rw [DedupKey.forEvent, hlsn]
  exact ⟨_, q, rfl⟩

theorem targetKey_not_synthetic (r : LogRow Value) : ¬ IsSynthetic (targetKey cfg r) := by
  rintro ⟨t, q, h⟩
  rw [targetKey, makeKey_eq, makeKey_eq, List.append_right_inj] at h
  have hhead := congrArg List.head? h
  simp [lsnToString] at hhead

theorem targetKey_eq_iff {r r' : LogRow Value} :
    targetKey cfg r = targetKey cfg r' ↔
      r.row.startLSN = r'.row.startLSN ∧ checkpointTable cfg r = checkpointTable cfg r' := by
  rw [targetKey, targetKey, makeKey_lsn_inj, unpack_injective.eq_iff, qualifiedTable,
    qualifiedTable, List.append_right_inj, List.cons_inj_right, String.toList_inj,
    checkpointTable, checkpointTable]
  simp

end Keys

section Steps

variable {digest : ChangeEvent Value → List Char} {cfg : ConsumerConfig} {queueSize : Nat}
  {messages : List (Message Value)} {checkpoints : Checkpoints} {s t : BusState Value}

theorem applied_of_duplicate (hsafe : SafeMessages cfg checkpoints messages)
    (h : BusInv cfg checkpoints messages s) (hidle : s.stage = .idle) {r : LogRow Value} {b : Bool}
    (hr : rowAt messages s.taken = some (r, b))
    (hkey : targetKey cfg r ∈ s.applier.dedup.keys) : r ∈ s.appliedRows := by
  rcases h.keys _ hkey with ⟨r', hr', heq⟩ | hsyn
  · by_cases hsame : r = r'
    · exact hsame ▸ hr'
    · obtain ⟨hlsn, htable⟩ := targetKey_eq_iff.mp heq
      obtain ⟨k', hk', hrow'⟩ := h.appliedFrom r' hr'
      obtain ⟨k, hk, hrow⟩ := hsafe.ordered k' r' hrow' s.taken r b hr hsame htable hlsn.le
      refine h.finished k ?_ r hrow
      rw [done, if_pos hidle]
      exact hk.trans hk'
  · exact absurd hsyn (targetKey_not_synthetic r)

theorem busInv_take (hsafe : SafeMessages cfg checkpoints messages)
    (h : BusInv cfg checkpoints messages s) (hidle : s.stage = .idle) {m : Message Value}
    (hm : messages[s.taken]? = some m) :
    BusInv cfg checkpoints messages { s with
      taken := s.taken + 1
      stage := if isDuplicate digest s.applier (cfg.retarget m.captured.event) then .idle
        else .executing } := by
  have hdone : done s = s.taken := if_pos hidle
  refine ⟨fun _ => Nat.succ_pos _, ?_, ?_, ?_, h.keys, h.saved⟩
  · intro r hr
    obtain ⟨k, hk, hrow⟩ := h.appliedFrom r hr
    exact ⟨k, Nat.lt_succ_of_lt hk, hrow⟩
  · intro k hk r hrow
    cases hdup : isDuplicate digest s.applier (cfg.retarget m.captured.event) with
    | false =>
        simp only [done, hdup, Bool.false_eq_true, if_false, Nat.add_sub_cancel] at hk
        exact h.finished k (hdone ▸ hk) r hrow
    | true =>
        simp only [done, hdup, if_true] at hk
        rcases Nat.lt_succ_iff_lt_or_eq.mp hk with hlt | rfl
        · exact h.finished k (hdone ▸ hlt) r hrow
        · have hmrow := (row_of_rowAt hm hrow).1
          refine applied_of_duplicate hsafe h hidle hrow ?_
          rw [isDuplicate, Deduplicator.alreadyApplied, decide_eq_true_eq] at hdup
          exact key_of_change hmrow ▸ hdup
  · intro hstage
    dsimp only at hstage
    split at hstage <;> simp at hstage

theorem busInv_idle (h : BusInv cfg checkpoints messages s) (hactive : s.stage ≠ .idle)
    (hlast : ∀ r, rowAt messages (s.taken - 1) = some (r, false) → r ∈ s.appliedRows)
    {a : ApplierState Value} (hdedup : a.dedup = s.applier.dedup)
    (hsaved : ∀ tbl c, a.checkpoints tbl = some c →
      checkpoints tbl = some c ∨
        ∃ r ∈ s.appliedRows, checkpointTable cfg r = tbl ∧ r.row.startLSN = c) :
    BusInv cfg checkpoints messages { s with stage := .idle, applier := a } := by
  have hpos := h.active hactive
  refine ⟨by simp, h.appliedFrom, ?_, by simp, ?_, hsaved⟩
  · intro k hk r hrow
    have hdone : done s = s.taken - 1 := if_neg hactive
    simp only [done, if_true] at hk
    by_cases hlt : k < s.taken - 1
    · exact h.finished k (hdone ▸ hlt) r hrow
    · have hk' : k = s.taken - 1 := by omega
      exact hlast r (hk' ▸ hrow)
  · rw [hdedup]
    exact h.keys

theorem busInv_execute (h : BusInv cfg checkpoints messages s) (hstage : s.stage = .executing)
    {m : Message Value} (hm : current messages s = some m) :
    BusInv cfg checkpoints messages
      (if m.raises then { s with stage := .idle }
        else { s with
          stage := .recording
          applier := executeEvent s.applier (cfg.retarget m.captured.event)
          appliedRows := m.captured.row.toList ++ s.appliedRows }) := by
  have hactive : s.stage ≠ .idle := by simp [hstage]
  have hpos := h.active hactive
  have hdone : done s = s.taken - 1 := if_neg hactive
  cases hraises : m.raises with
  | true =>
      refine busInv_idle h hactive ?_ rfl h.saved
      intro r hrow
      rw [(row_of_rowAt hm hrow).2] at hraises
      cases hraises
  | false =>
      have hgrow : ∀ r ∈ s.appliedRows, r ∈ m.captured.row.toList ++ s.appliedRows :=
        fun r hr => List.mem_append_right _ hr
      rw [if_neg Bool.false_ne_true]
      refine ⟨fun _ => hpos, ?_, ?_, ?_, ?_, ?_⟩
      · intro r hr
        rcases List.mem_append.mp hr with hr | hr
        · refine ⟨s.taken - 1, Nat.sub_lt hpos one_pos, ?_⟩
          rw [rowAt_of_change hm (Option.mem_toList.mp hr), hraises]
        · exact h.appliedFrom r hr
      · intro k hk r hrow
        have hk' : k < s.taken - 1 := by simpa [done] using hk
        exact hgrow r (h.finished k (hdone ▸ hk') r hrow)
      · intro _ r b hrow
        exact List.mem_append_left _ (Option.mem_toList.mpr (row_of_rowAt hm hrow).1)
      · intro k hk
        refine (h.keys k hk).imp_left ?_
        rintro ⟨r, hr, heq⟩
        exact ⟨r, hgrow r hr, heq⟩
      · intro tbl c hc
        refine (h.saved tbl c hc).imp_right ?_
        rintro ⟨r, hr, heq⟩
        exact ⟨r, hgrow r hr, heq⟩

theorem busInv_record (h : BusInv cfg checkpoints messages s) (hstage : s.stage = .recording)
    {m : Message Value} (hm : current messages s = some m) :
    BusInv cfg checkpoints messages { s with
      stage := .saving
      applier := recordEvent digest s.applier (cfg.retarget m.captured.event) } := by
  have hactive : s.stage ≠ .idle := by simp [hstage]
  have hdone : done s = s.taken - 1 := if_neg hactive
  have happlied := h.currentApplied (Or.inl hstage)
  refine ⟨fun _ => h.active hactive, h.appliedFrom, ?_, fun _ => happlied, ?_, h.saved⟩
  · intro k hk r hrow
    have hk' : k < s.taken - 1 := by simpa [done] using hk
    exact h.finished k (hdone ▸ hk') r hrow
  · intro k hk
    rcases mem_record hk with rfl | hold
    · cases hrow : m.captured.row with
      | none => exact Or.inr (key_of_snapshot hrow _)
      | some r =>
          exact Or.inl ⟨r, happlied r _ (rowAt_of_change hm hrow), key_of_change hrow⟩
    · exact h.keys k hold

theorem saved_saveEvent (h : BusInv cfg checkpoints messages s) (hstage : s.stage = .saving)
    {m : Message Value} (hm : current messages s = some m) :
    ((saveEvent s.applier (cfg.retarget m.captured.event)).getD s.applier).dedup =
        s.applier.dedup ∧
      ∀ tbl c, ((saveEvent s.applier (cfg.retarget m.captured.event)).getD
          s.applier).checkpoints tbl = some c →
        checkpoints tbl = some c ∨
          ∃ r ∈ s.appliedRows, checkpointTable cfg r = tbl ∧ r.row.startLSN = c := by
  cases hrow : m.captured.row with
  | none =>
      have hlsn : (cfg.retarget m.captured.event).lsn = none := lsn_of_no_row hrow
      rw [saveEvent, hlsn]
      exact ⟨rfl, h.saved⟩
  | some r =>
      obtain ⟨hlsn, -, htable⟩ := rowToChange_eq_some (event_of_row hrow)
      have happlied := h.currentApplied (Or.inr hstage) r _ (rowAt_of_change hm hrow)
      have hkey : ((cfg.retarget m.captured.event).tableSchema,
          (cfg.retarget m.captured.event).tableName) = checkpointTable cfg r := by
        rw [checkpointTable, ← htable]
        rfl
      rw [saveEvent_unpack s.applier (e := cfg.retarget m.captured.event) hlsn, Option.getD_some,
        saveCheckpoint, hkey]
      refine ⟨rfl, ?_⟩
      intro tbl c hc
      dsimp only at hc
      rw [Function.update_apply] at hc
      split at hc
      · rename_i htbl
        exact Or.inr ⟨r, happlied, htbl.symm, Option.some.inj hc⟩
      · exact h.saved tbl c hc

theorem busInv_step {a : BusAction} (hsafe : SafeMessages cfg checkpoints messages)
    (h : BusInv cfg checkpoints messages s)
    (hstep : step digest cfg queueSize messages s a = some t) :
    BusInv cfg checkpoints messages t := by
  cases a with
  | publish =>
      rw [step] at hstep
      split at hstep
      · cases hstep
        exact ⟨h.active, h.appliedFrom, h.finished, h.currentApplied, h.keys, h.saved⟩
      · cases hstep
  | take =>
      rw [step] at hstep
      split at hstep
      · rename_i hen
        split at hstep
        · cases hstep
        · rename_i m hm
          cases hstep
          exact busInv_take hsafe h hen.2.1 hm
      · cases hstep
  | execute =>
      rw [step] at hstep
      split at hstep
      · rename_i hen
        split at hstep
        · cases hstep
        · rename_i m hm
          have hnew := busInv_execute h hen.2 hm
          split at hstep
          · rename_i hraises
            cases hstep
            rwa [if_pos hraises] at hnew
          · rename_i hraises
            cases hstep
            rwa [if_neg hraises] at hnew
      · cases hstep
  | record =>
      rw [step] at hstep
      split at hstep
      · rename_i hen
        split at hstep
        · cases hstep
        · rename_i m hm
          cases hstep
          exact busInv_record h hen.2 hm
      · cases hstep
  | save =>
      rw [step] at hstep
      split at hstep
      · rename_i hen
        split at hstep
        · cases hstep
        · rename_i m hm
          cases hstep
          obtain ⟨hdedup, hsaved⟩ := saved_saveEvent h hen.2 hm
          refine busInv_idle h (by simp [hen.2]) ?_ hdedup hsaved
          exact fun r hr => h.currentApplied (Or.inr hen.2) r false hr
      · cases hstep
  | interrupt =>
      rw [step] at hstep
      split at hstep
      · rename_i hen
        cases hstep
        refine busInv_idle h ?_ (fun r hr => h.currentApplied hen.2 r false hr) rfl h.saved
        rcases hen.2 with hst | hst <;> simp [hst]
      · cases hstep
  | expire expired =>
      cases hstep
      exact ⟨h.active, h.appliedFrom, h.finished, h.currentApplied,
        fun k hk => h.keys k (mem_expire hk), h.saved⟩
  | crash =>
      cases hstep
      exact ⟨h.active, h.appliedFrom, h.finished, h.currentApplied, h.keys, h.saved⟩

theorem busInv_initial (backend : Backend) :
    BusInv cfg checkpoints messages (initial backend checkpoints) where
  active := by simp [initial]
  appliedFrom := by simp [initial]
  finished := by
    intro k hk
    cases hk
  currentApplied := by simp [initial]
  keys := by simp [initial]
  saved := fun _ _ hc => Or.inl hc

theorem nothingPassed_of_inv (hsafe : SafeMessages cfg checkpoints messages)
    (h : BusInv cfg checkpoints messages s) : NothingPassed cfg messages s := by
  intro i m r hi hm hrow hnot c hc
  have hr := rowAt_of_change hm hrow
  rcases h.saved _ c hc with hold | ⟨r', hr', htable, rfl⟩
  · exact hsafe.beyond i r _ hr c hold
  · by_contra hle
    obtain ⟨j, hj, hrow'⟩ := h.appliedFrom r' hr'
    have hne : r ≠ r' := by
      rintro rfl
      exact hnot hr'
    obtain ⟨k, hk, hkr⟩ :=
      hsafe.ordered j r' hrow' i r _ hr hne htable.symm (not_lt.mp hle)
    refine hnot (h.finished k ?_ r hkr)
    rw [done]
    split <;> omega

end Steps

/-- In every reachable state, whatever the interleaving of publishing and
applying and wherever the process dies, no checkpoint has reached an unapplied
change, when the captured messages are safe. -/
theorem nothingPassed_of_safe {digest : ChangeEvent Value → List Char} {cfg : ConsumerConfig}
    {queueSize : Nat} {messages : List (Message Value)} {checkpoints : Checkpoints}
    (hsafe : SafeMessages cfg checkpoints messages) (backend : Backend) {s : BusState Value}
    (hs : Reaches (step digest cfg queueSize messages) (initial backend checkpoints) s) :
    NothingPassed cfg messages s :=
  nothingPassed_of_inv hsafe <|
    hs.invariant (busInv_initial backend) fun _ _ _ h hstep => busInv_step hsafe h hstep

def publicConsumer : ConsumerConfig := ⟨"public", [], id⟩

def orderRow (lsn : Fin 256) : LogRow Nat :=
  ⟨⟨"dbo", "orders"⟩, ⟨.ofByte lsn, .ofByte 1, 2, [("id", lsn)]⟩⟩

def orderMessage (lsn : Fin 256) (raises : Bool) : Message Nat :=
  ⟨.change (orderRow lsn) _ rfl, raises⟩

def applyMessage : List BusAction := [.take, .execute, .record, .save]

def storedOrders : Checkpoints := fun tbl =>
  if tbl = ("public", "orders") then some (.ofByte 1) else none

/-- Two changes of one table, in the order of the log and above its stored checkpoint. -/
def twoOrders : List (Message Nat) := [orderMessage 2 false, orderMessage 3 false]

theorem rowAt_twoOrders {i : Nat} {r : LogRow Nat} {b : Bool} (h : rowAt twoOrders i = some (r, b)) :
    (i = 0 ∧ r = orderRow 2 ∧ b = false) ∨ (i = 1 ∧ r = orderRow 3 ∧ b = false) := by
  rcases i with _ | _ | i
  · cases h
    exact Or.inl ⟨rfl, rfl, rfl⟩
  · cases h
    exact Or.inr ⟨rfl, rfl, rfl⟩
  · cases h

theorem safeMessages_twoOrders : SafeMessages publicConsumer storedOrders twoOrders := by
  constructor
  · intro i r b hr c hc
    rcases rowAt_twoOrders hr with ⟨-, rfl, -⟩ | ⟨-, rfl, -⟩
    all_goals
      cases hc
      decide
  · intro j r hj i r' b hi hne htable hle
    rcases rowAt_twoOrders hj with ⟨rfl, rfl, -⟩ | ⟨rfl, rfl, -⟩
    · rcases rowAt_twoOrders hi with ⟨-, rfl, -⟩ | ⟨-, rfl, -⟩
      · exact absurd rfl hne
      · exact absurd hle (by decide)
    · rcases rowAt_twoOrders hi with ⟨-, rfl, -⟩ | ⟨-, rfl, -⟩
      · exact ⟨0, one_pos, rfl⟩
      · exact absurd rfl hne

theorem applyMessage_nothingPassed :
    ∃ s, Reaches (step (fun _ => []) publicConsumer 2000 twoOrders)
        (initial (.memory 5000) storedOrders) s ∧
      s.applier.checkpoints ("public", "orders") = some (.ofByte 2) ∧
      orderRow 3 ∉ s.appliedRows ∧ NothingPassed publicConsumer twoOrders s := by
  have hrun : (runSteps (step (fun _ => []) publicConsumer 2000 twoOrders)
      (initial (.memory 5000) storedOrders) ([BusAction.publish, .publish] ++ applyMessage)).any
      (fun s => decide (s.applier.checkpoints ("public", "orders") = some (.ofByte 2) ∧
        orderRow 3 ∉ s.appliedRows)) = true := by
    decide +kernel
  obtain ⟨s, hs, hend⟩ := (Option.any_eq_true _ _).mp hrun
  obtain ⟨hcp, hnot⟩ := of_decide_eq_true hend
  have hreach := reaches_of_runSteps hs
  exact ⟨s, hreach, hcp, hnot,
    nothingPassed_of_safe safeMessages_twoOrders (.memory 5000) hreach⟩

theorem raised_change_passed :
    ∃ s, Reaches (step (fun _ => []) publicConsumer 2000 [orderMessage 1 true, orderMessage 2 false])
        (initial (.memory 5000) fun _ => none) s ∧
      ¬ NothingPassed publicConsumer [orderMessage 1 true, orderMessage 2 false] s := by
  have hrun : (runSteps
      (step (fun _ => []) publicConsumer 2000 [orderMessage 1 true, orderMessage 2 false])
      (initial (.memory 5000) fun _ => none)
      ([BusAction.publish, .publish, .take, .execute] ++ applyMessage)).any
      (fun s => decide (0 < s.published ∧ orderRow 1 ∉ s.appliedRows ∧
        s.applier.checkpoints ("public", "orders") = some (.ofByte 2))) = true := by
    decide +kernel
  obtain ⟨s, hs, hend⟩ := (Option.any_eq_true _ _).mp hrun
  obtain ⟨hpub, hnot, hcp⟩ := of_decide_eq_true hend
  refine ⟨s, reaches_of_runSteps hs, fun hpassed => ?_⟩
  have hlt := hpassed 0 (orderMessage 1 true) (orderRow 1) hpub rfl rfl hnot _ hcp
  exact absurd hlt (by decide)

end SqlOptima.ReplicationCheckpoint
