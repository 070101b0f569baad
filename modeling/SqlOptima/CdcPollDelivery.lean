import Mathlib.Data.List.Forall2
import SqlOptima.CdcPoll
import SqlOptima.ExceptRules

namespace SqlOptima.CdcPollDelivery

open SqlOptima.Lsn
open SqlOptima.ChangeLog
open SqlOptima.SourceLog
open SqlOptima.CdcPoll
open SqlOptima.TransitionSystem

variable {Value : Type}

def applicableEvent (cfg : PollLoopConfig) (row : CtRow Value) : Option (CDCEvent Value) :=
  match rowToEvent cfg.schema cfg.table row with
  | .error _ => none
  | .ok ev => if ev.isApplicable then some ev else none

def batchLimit (cfg : PollLoopConfig) : Nat := readLimit cfg.effectiveBatchSize

def InOrder (a b : CDCEvent Value) : Prop := eventLess b a = false

/-- Up to the saved checkpoint the applier was given exactly the applicable
rows after the zero LSN, and all it was given came in order. -/
structure Delivered (cfg : PollLoopConfig) (s : PollState Value) : Prop where
  exact : s.handed.filter (fun e => e.commitLSN ≤ s.saved) =
    (window CtRow.startLSN s.table.rows .zero s.saved).filterMap (applicableEvent cfg)
  inOrder : s.handed.Pairwise InOrder

section Events

theorem commitLSN_of_rowToEvent {schema table : String} {row : CtRow Value} {ev : CDCEvent Value}
    (h : rowToEvent schema table row = .ok ev) :
    ev.commitLSN = row.startLSN ∧ ev.seqVal = row.seqval := by
  rw [rowToEvent] at h
  split at h
  · cases h
  · cases h
    exact ⟨rfl, rfl⟩

theorem inOrder_of_lt {a b : CDCEvent Value} (h : a.commitLSN < b.commitLSN) : InOrder a b := by
  rw [InOrder, eventLess, if_pos h.ne', decide_eq_false_iff_not]
  exact h.asymm

theorem inOrder_of_row_le {schema table : String} {r r' : CtRow Value} {e e' : CDCEvent Value}
    (he : rowToEvent schema table r = .ok e) (he' : rowToEvent schema table r' = .ok e')
    (h : r.le r') : InOrder e e' := by
  obtain ⟨hlsn, hseq⟩ := commitLSN_of_rowToEvent he
  obtain ⟨hlsn', hseq'⟩ := commitLSN_of_rowToEvent he'
  rcases h with hlt | ⟨heq, hle⟩
  · exact inOrder_of_lt (by rwa [hlsn, hlsn'])
  · rw [InOrder, eventLess, if_neg (by simp [hlsn, hlsn', heq]), LSN.less,
      decide_eq_false_iff_not, hseq, hseq']
    exact hle.not_gt

variable {schema table : String} {rows : List (CtRow Value)} {events : List (CDCEvent Value)}

theorem exists_row_of_mem {α β : Type} {R : α → β → Prop} {as : List α} {bs : List β}
    (h : List.Forall₂ R as bs) {b : β} (hb : b ∈ bs) : ∃ a ∈ as, R a b := by
  induction h with
  | nil => cases hb
  | cons hab _ ih =>
      rcases List.mem_cons.mp hb with rfl | hb
      · exact ⟨_, List.mem_cons_self .., hab⟩
      · obtain ⟨a, ha, hR⟩ := ih hb
        exact ⟨a, List.mem_cons_of_mem _ ha, hR⟩

theorem pairwise_inOrder
    (h : List.Forall₂ (fun r e => rowToEvent schema table r = .ok e) rows events)
    (hrows : rows.Pairwise CtRow.le) : events.Pairwise InOrder := by
  induction h with
  | nil => exact List.Pairwise.nil
  | cons he hes ih =>
      obtain ⟨hhead, htail⟩ := List.pairwise_cons.mp hrows
      refine List.pairwise_cons.mpr ⟨?_, ih htail⟩
      intro e' he'
      obtain ⟨r', hr', hre⟩ := exists_row_of_mem hes he'
      exact inOrder_of_row_le he hre (hhead r' hr')

theorem filter_isApplicable {cfg : PollLoopConfig}
    (h : List.Forall₂ (fun r e => rowToEvent cfg.schema cfg.table r = .ok e) rows events) :
    events.filter CDCEvent.isApplicable = rows.filterMap (applicableEvent cfg) := by
  induction h with
  | nil => rfl
  | @cons r e rows events he hes ih =>
      have happ : applicableEvent cfg r = if e.isApplicable then some e else none := by
        rw [applicableEvent, he]
      rw [List.filter_cons, List.filterMap_cons, happ]
      split
      · rw [ih]
      · exact ih

theorem applicableEvent_lsn {cfg : PollLoopConfig} {row : CtRow Value} {e : CDCEvent Value}
    (h : applicableEvent cfg row = some e) : e.commitLSN = row.startLSN := by
  rw [applicableEvent] at h
  split at h
  · cases h
  · rename_i ev hev
    split at h
    · cases h
      exact (commitLSN_of_rowToEvent hev).1
    · cases h

theorem lastPos_events
    (h : List.Forall₂ (fun r e => rowToEvent schema table r = .ok e) rows events) (p : LSN) :
    lastPos CDCEvent.commitLSN p events = lastPos CtRow.startLSN p rows := by
  induction h generalizing p with
  | nil => rfl
  | cons he _ ih =>
      rw [lastPos, lastPos, (commitLSN_of_rowToEvent he).1]
      exact ih _

theorem orderForApply_of_inOrder (h : events.Pairwise InOrder) : orderForApply events = events :=
  List.Pairwise.insertionSort_eq h

end Events

section Batch

variable {cfg : PollLoopConfig} {s : PollState Value}

theorem applyEvents_handed (accepts : Nat → Bool) (applied : Nat) (p : LSN)
    (events : List (CDCEvent Value)) :
    (applyEvents accepts applied p events).handed.Sublist
      (events.filter CDCEvent.isApplicable) := by
  induction events generalizing applied p with
  | nil => exact List.Sublist.refl _
  | cons ev events ih =>
      rw [applyEvents]
      split
      · rename_i happ
        rw [List.filter_cons_of_pos happ]
        split
        · exact (ih _ _).cons_cons _
        · exact (List.nil_sublist _).cons_cons _
      · rename_i happ
        rw [List.filter_cons_of_neg happ]
        exact ih _ _

theorem applyEvents_ok {accepts : Nat → Bool} {applied : Nat} {p : LSN}
    {events : List (CDCEvent Value)} (h : (applyEvents accepts applied p events).ok = true) :
    (applyEvents accepts applied p events).handed = events.filter CDCEvent.isApplicable ∧
      (applyEvents accepts applied p events).checkpoint = lastPos CDCEvent.commitLSN p events := by
  induction events generalizing applied p with
  | nil => exact ⟨rfl, rfl⟩
  | cons ev events ih =>
      rw [applyEvents] at h ⊢
      split at h
      · rename_i happ
        rw [if_pos happ, List.filter_cons_of_pos happ]
        split at h
        · rename_i hacc
          obtain ⟨hhanded, hcp⟩ := ih h
          rw [if_pos hacc]
          exact ⟨congrArg _ hhanded, hcp⟩
        · cases h
      · rename_i happ
        rw [if_neg happ, List.filter_cons_of_neg happ]
        exact ih h

def batchRows (cfg : PollLoopConfig) (s : PollState Value) : List (CtRow Value) :=
  read CtRow.startLSN s.table.rows s.checkpoint (batchLimit cfg)

theorem pollBatch_spec {readFails : Bool} {accepts : Nat → Bool} {r : BatchResult Value}
    (h : pollBatch cfg s readFails accepts = some r) :
    (∀ e ∈ r.handed, s.checkpoint < e.commitLSN) ∧ r.handed.Pairwise InOrder ∧
      (r.ok = true → r.handed = (batchRows cfg s).filterMap (applicableEvent cfg) ∧
        r.checkpoint = lastPos CtRow.startLSN s.checkpoint (batchRows cfg s)) := by
  rw [pollBatch] at h
  split at h
  · cases h
  · split at h
    · cases h
    · rename_i events hread
      cases h
      rw [readAfter] at hread
      split at hread
      · cases hread
      · rename_i evs hmap
        have hrel := ExceptRules.forall₂_of_mapM hmap
        have hsorted : evs.Pairwise InOrder :=
          pairwise_inOrder hrel
            ((s.table.ordered.sublist List.filter_sublist).sublist (List.take_sublist _ _))
        rw [orderForApply_of_inOrder hsorted] at hread
        obtain rfl : evs = events := Except.ok.inj hread
        have hsub := (applyEvents_handed accepts 0 s.checkpoint evs).trans List.filter_sublist
        refine ⟨?_, hsorted.sublist hsub, ?_⟩
        · intro e he
          obtain ⟨row, hrow, hre⟩ := exists_row_of_mem hrel (hsub.subset he)
          rw [(commitLSN_of_rowToEvent hre).1]
          exact (mem_read hrow).2
        · intro hok
          obtain ⟨hhanded, hcp⟩ := applyEvents_ok hok
          exact ⟨hhanded.trans (filter_isApplicable hrel), hcp.trans (lastPos_events hrel _)⟩

end Batch

structure PollInv (cfg : PollLoopConfig) (s : PollState Value) : Prop where
  savedAtRow : s.saved = .zero ∨ ∃ r ∈ s.table.rows, r.startLSN = s.saved
  delivered : Delivered cfg s
  live : s.phase ≠ .returned →
    s.checkpoint = s.saved ∧ ∀ e ∈ s.handed, e.commitLSN ≤ s.saved

/-- A poll that gets through leaves no applicable row behind its cut that
shares the last read row's LSN. -/
def CutsClean (cfg : PollLoopConfig) (s : PollState Value) : PollAction Value → Prop
  | .poll readFails accepts saves =>
      pollCompletes cfg s readFails accepts saves = true →
        CleanCut CtRow.startLSN (fun r => (applicableEvent cfg r).isSome) s.table.rows
          s.checkpoint (batchLimit cfg)
  | _ => True

section Steps

variable {cfg : PollLoopConfig} {s t : PollState Value}

theorem pollInv_initial (ct : CaptureTable Value) : PollInv cfg (initial ct) where
  savedAtRow := Or.inl rfl
  delivered := ⟨by simp [initial, window_eq_nil_of_le], List.Pairwise.nil⟩
  live := fun _ => ⟨rfl, by simp [initial]⟩

theorem pollInv_commit (h : PollInv cfg s) {rows : List (CtRow Value)}
    (hc : Commits s.table rows) : PollInv cfg { s with table := s.table.append rows hc } := by
  refine ⟨?_, ⟨?_, h.delivered.inOrder⟩, h.live⟩
  · refine h.savedAtRow.imp_right ?_
    rintro ⟨r, hr, heq⟩
    exact ⟨r, List.mem_append_left _ hr, heq⟩
  · rw [h.delivered.exact]
    congr 1
    refine (window_append_of_lt ?_).symm
    intro r' hr' hpos
    rcases h.savedAtRow with hzero | ⟨r, hr, heq⟩
    · rwa [hzero]
    · rw [← heq]
      exact hc.2 r hr r' hr'

theorem delivered_append {new : List (CDCEvent Value)} (h : PollInv cfg s)
    (hlive : s.phase ≠ .returned) (hnew : ∀ e ∈ new, s.checkpoint < e.commitLSN)
    (hsorted : new.Pairwise InOrder) (ht : t.handed = s.handed ++ new)
    (htable : t.table = s.table) (hsaved : t.saved = s.saved) : Delivered cfg t := by
  obtain ⟨hcp, hle⟩ := h.live hlive
  constructor
  · rw [ht, htable, hsaved, List.filter_append, h.delivered.exact, List.append_right_eq_self,
      List.filter_eq_nil_iff]
    intro e he
    rw [decide_eq_true_eq, not_le, ← hcp]
    exact hnew e he
  · rw [ht, List.pairwise_append]
    refine ⟨h.delivered.inOrder, hsorted, ?_⟩
    intro e he e' he'
    exact inOrder_of_lt ((hcp ▸ hle e he).trans_lt (hnew e' he'))

theorem delivered_completed_iff (h : PollInv cfg s) (hlive : s.phase ≠ .returned)
    (ht : t.handed = s.handed ++ (batchRows cfg s).filterMap (applicableEvent cfg))
    (htable : t.table = s.table) (hsorted : t.handed.Pairwise InOrder)
    (hsaved : t.saved = lastPos CtRow.startLSN s.checkpoint (batchRows cfg s))
    (hle : ∀ e ∈ t.handed, e.commitLSN ≤ t.saved) :
    Delivered cfg t ↔
      CleanCut CtRow.startLSN (fun r => (applicableEvent cfg r).isSome) s.table.rows
        s.checkpoint (batchLimit cfg) := by
  obtain ⟨hcp, hold⟩ := h.live hlive
  have hwindow : window CtRow.startLSN t.table.rows .zero t.saved =
      window CtRow.startLSN s.table.rows .zero s.checkpoint ++
        window CtRow.startLSN s.table.rows s.checkpoint t.saved := by
    rw [htable]
    refine (window_append_window (ordered_rows s.table) ?_ ?_).symm
    · rcases h.savedAtRow with hzero | ⟨r, hr, heq⟩
      · rw [hcp, hzero]
      · exact LSN.zero_le _
    · rw [hsaved]
      exact le_lastPos_read _ _ _
  have hprev : s.handed =
      (window CtRow.startLSN s.table.rows .zero s.checkpoint).filterMap (applicableEvent cfg) := by
    have hall : s.handed.filter (fun e => e.commitLSN ≤ s.saved) = s.handed := by
      rw [List.filter_eq_self]
      intro e he
      exact decide_eq_true (hold e he)
    rw [hcp, ← h.delivered.exact, hall]
  have hall : t.handed.filter (fun e => e.commitLSN ≤ t.saved) = t.handed := by
    rw [List.filter_eq_self]
    intro e he
    exact decide_eq_true (hle e he)
  have hexact : (t.handed.filter (fun e => e.commitLSN ≤ t.saved) =
      (window CtRow.startLSN t.table.rows .zero t.saved).filterMap (applicableEvent cfg)) ↔
      (window CtRow.startLSN s.table.rows s.checkpoint t.saved).filterMap (applicableEvent cfg) =
        (batchRows cfg s).filterMap (applicableEvent cfg) := by
    rw [hall, hwindow, List.filterMap_append, ← hprev, ht, List.append_cancel_left_eq, eq_comm]
  have hcut := filterMap_window_read_iff (ordered_rows s.table) (applicableEvent cfg)
    s.checkpoint (batchLimit cfg)
  rw [← batchRows, ← hsaved] at hcut
  rw [← hcut]
  constructor
  · intro hd
    exact hexact.mp hd.exact
  · intro hw
    exact ⟨hexact.mpr hw, hsorted⟩

theorem poll_cases {readFails : Bool} {accepts : Nat → Bool} {saves : Bool}
    (hstep : step cfg s (.poll readFails accepts saves) = some t) :
    s.phase ≠ .returned ∧ t.table = s.table ∧
      ∃ new, t.handed = s.handed ++ new ∧ (∀ e ∈ new, s.checkpoint < e.commitLSN) ∧
        new.Pairwise InOrder ∧
        ((pollCompletes cfg s readFails accepts saves = false ∧ t.phase = .returned ∧
            t.saved = s.saved) ∨
          (pollCompletes cfg s readFails accepts saves = true ∧
            new = (batchRows cfg s).filterMap (applicableEvent cfg) ∧
            t.checkpoint = lastPos CtRow.startLSN s.checkpoint (batchRows cfg s) ∧
            t.saved = if t.checkpoint.isZero then s.saved else t.checkpoint)) := by
  rw [step] at hstep
  split at hstep
  · rename_i first hphase
    refine ⟨by simp [hphase], ?_⟩
    cases hbatch : pollBatch cfg s readFails accepts with
    | none =>
        simp only [hbatch] at hstep
        cases hstep
        refine ⟨rfl, [], (List.append_nil _).symm, ?_, List.Pairwise.nil, Or.inl ⟨?_, rfl, rfl⟩⟩
        · intro e he
          cases he
        · rw [pollCompletes, hbatch]
    | some r =>
        obtain ⟨hnew, hsorted, hok⟩ := pollBatch_spec hbatch
        have hcompletes : pollCompletes cfg s readFails accepts saves =
            (r.ok && (r.checkpoint.isZero || saves)) := by
          rw [pollCompletes, hbatch]
        simp only [hbatch] at hstep
        split at hstep
        · rename_i htrue
          obtain ⟨hhanded, hcp⟩ := hok ((Bool.and_eq_true _ _).mp htrue).1
          cases hstep
          exact ⟨rfl, r.handed, rfl, hnew, hsorted,
            Or.inr ⟨hcompletes.trans htrue, hhanded, hcp, rfl⟩⟩
        · rename_i hfalse
          cases hstep
          exact ⟨rfl, r.handed, rfl, hnew, hsorted,
            Or.inl ⟨hcompletes.trans (Bool.eq_false_iff.mpr hfalse), rfl, rfl⟩⟩
  · cases hstep

theorem poll_completed (h : PollInv cfg s) (hlive : s.phase ≠ .returned)
    {new : List (CDCEvent Value)} (hhanded : t.handed = s.handed ++ new)
    (htable : t.table = s.table) (hnew : ∀ e ∈ new, s.checkpoint < e.commitLSN)
    (hsorted : new.Pairwise InOrder)
    (hall : new = (batchRows cfg s).filterMap (applicableEvent cfg))
    (hcp : t.checkpoint = lastPos CtRow.startLSN s.checkpoint (batchRows cfg s))
    (hsaved : t.saved = if t.checkpoint.isZero then s.saved else t.checkpoint) :
    t.checkpoint = t.saved ∧ (∀ e ∈ t.handed, e.commitLSN ≤ t.saved) ∧
      (Delivered cfg t ↔ CleanCut CtRow.startLSN (fun r => (applicableEvent cfg r).isSome)
        s.table.rows s.checkpoint (batchLimit cfg)) := by
  obtain ⟨hcur, hold⟩ := h.live hlive
  have hmono : s.checkpoint ≤ t.checkpoint := hcp ▸ le_lastPos_read _ _ _
  have heq : t.checkpoint = t.saved := by
    rw [hsaved]
    split
    · rename_i hzero
      have hz : t.checkpoint = .zero := of_decide_eq_true hzero
      rw [← hcur, hz]
      exact ((LSN.zero_le _).antisymm (hz ▸ hmono))
    · rfl
  have hle : ∀ e ∈ t.handed, e.commitLSN ≤ t.saved := by
    intro e he
    rw [← heq]
    rw [hhanded] at he
    rcases List.mem_append.mp he with he | he
    · exact (hcur ▸ hold e he).trans hmono
    · rw [hall, List.mem_filterMap] at he
      obtain ⟨row, hrow, he⟩ := he
      rw [applicableEvent_lsn he, hcp]
      exact mem_le_lastPos (ordered_read (ordered_rows s.table) _ _) hrow
  refine ⟨heq, hle, ?_⟩
  have horder : t.handed.Pairwise InOrder := by
    rw [hhanded, List.pairwise_append]
    refine ⟨h.delivered.inOrder, hsorted, ?_⟩
    intro e he e' he'
    exact inOrder_of_lt ((hcur ▸ hold e he).trans_lt (hnew e' he'))
  exact delivered_completed_iff h hlive (hall ▸ hhanded) htable horder (heq ▸ hcp) hle

theorem pollInv_step {a : PollAction Value} (h : PollInv cfg s) (hok : CutsClean cfg s a)
    (hstep : step cfg s a = some t) : PollInv cfg t := by
  cases a with
  | commit rows =>
      rw [step] at hstep
      split at hstep
      · rename_i hc
        cases hstep
        exact pollInv_commit h hc
      · cases hstep
  | start =>
      rw [step] at hstep
      split at hstep
      · rename_i hphase
        split at hstep
        · cases hstep
          exact ⟨h.savedAtRow, ⟨h.delivered.exact, h.delivered.inOrder⟩,
            fun _ => h.live (by simp [hphase])⟩
        · cases hstep
          exact ⟨h.savedAtRow, ⟨h.delivered.exact, h.delivered.inOrder⟩, fun hr => absurd rfl hr⟩
      · cases hstep
  | poll readFails accepts saves =>
      obtain ⟨hlive, htable, new, hhanded, hnew, hsorted, hfail | hdone⟩ := poll_cases hstep
      · obtain ⟨-, hret, hsaved⟩ := hfail
        refine ⟨?_, delivered_append h hlive hnew hsorted hhanded htable hsaved,
          fun hr => absurd hret hr⟩
        rw [hsaved, htable]
        exact h.savedAtRow
      · obtain ⟨hcomp, hall, hcp, hsaved⟩ := hdone
        obtain ⟨heq, hle, hiff⟩ :=
          poll_completed h hlive hhanded htable hnew hsorted hall hcp hsaved
        refine ⟨?_, hiff.mpr (hok hcomp), fun _ => ⟨heq, hle⟩⟩
        rw [← heq, hcp, htable]
        rcases lastPos_eq _ s.checkpoint (batchRows cfg s) with hsame | ⟨r, hr, hlast⟩
        · rw [hsame, (h.live hlive).1]
          exact h.savedAtRow
        · exact Or.inr ⟨r, (mem_read hr).1, hlast.symm⟩
  | stop =>
      rw [step] at hstep
      split at hstep
      · cases hstep
        exact ⟨h.savedAtRow, ⟨h.delivered.exact, h.delivered.inOrder⟩, fun hr => absurd rfl hr⟩
      · cases hstep

theorem cutsClean_of_delivered {a : PollAction Value} (h : PollInv cfg s)
    (hstep : step cfg s a = some t) (hd : Delivered cfg t) : CutsClean cfg s a := by
  cases a with
  | poll readFails accepts saves =>
      intro hcompletes
      obtain ⟨hlive, htable, new, hhanded, hnew, hsorted, hfail | hdone⟩ := poll_cases hstep
      · rw [hfail.1] at hcompletes
        cases hcompletes
      · obtain ⟨-, hall, hcp, hsaved⟩ := hdone
        exact (poll_completed h hlive hhanded htable hnew hsorted hall hcp hsaved).2.2.mp hd
  | commit | start | stop => trivial

end Steps

/-- Along every run of the poll loop, with commits between the polls and polls
that fail anywhere: the applier got exactly the applicable rows up to the saved
checkpoint, in order, in every state if and only if no completed poll was cut
between applicable rows of one commit LSN. -/
theorem delivered_along_run_iff (cfg : PollLoopConfig) (ct : CaptureTable Value)
    {acts : List (PollAction Value)} (hrun : (runSteps (step cfg) (initial ct) acts).isSome) :
    (∀ pre s, pre <+: acts → runSteps (step cfg) (initial ct) pre = some s →
        Delivered cfg s) ↔
      ∀ pre a s, pre ++ [a] <+: acts → runSteps (step cfg) (initial ct) pre = some s →
        CutsClean cfg s a :=
  along_run_iff (pollInv_initial ct) (fun _ h => h.delivered)
    (fun _ _ _ h hok hstep => pollInv_step h hok hstep)
    (fun _ _ _ h hstep hd => cutsClean_of_delivered h hstep hd) hrun

theorem pairwise_twoInserts :
    [(⟨.ofByte 1, .ofByte 1, 2, [("id", 1)]⟩ : CtRow Nat),
      ⟨.ofByte 1, .ofByte 2, 2, [("id", 2)]⟩].Pairwise CtRow.le := by
  decide

def twoInserts : CaptureTable Nat where
  rows := [⟨.ofByte 1, .ofByte 1, 2, [("id", 1)]⟩, ⟨.ofByte 1, .ofByte 2, 2, [("id", 2)]⟩]
  ordered := pairwise_twoInserts

def ordersLoop (batchSize : Int) : PollLoopConfig := ⟨"dbo", "orders", batchSize⟩

def twoPolls : List (PollAction Nat) :=
  [.start, .poll false (fun _ => true) true, .poll false (fun _ => true) true]

theorem twoInserts_run_iff :
    (∀ pre s, pre <+: twoPolls →
        runSteps (step (ordersLoop 2)) (initial twoInserts) pre = some s →
        Delivered (ordersLoop 2) s) ↔
      ∀ pre a s, pre ++ [a] <+: twoPolls →
        runSteps (step (ordersLoop 2)) (initial twoInserts) pre = some s →
        CutsClean (ordersLoop 2) s a :=
  delivered_along_run_iff (ordersLoop 2) twoInserts (by decide +kernel)

theorem twoInserts_cut_not_delivered :
    ∃ s, runSteps (step (ordersLoop 1)) (initial twoInserts) twoPolls = some s ∧
      ¬ Delivered (ordersLoop 1) s := by
  have hrun : (runSteps (step (ordersLoop 1)) (initial twoInserts) twoPolls).any (fun s =>
      decide (s.handed.filter (fun e => e.commitLSN ≤ s.saved) ≠
        (window CtRow.startLSN s.table.rows .zero s.saved).filterMap
          (applicableEvent (ordersLoop 1)))) = true := by
    decide +kernel
  obtain ⟨s, hs, hne⟩ := (Option.any_eq_true _ _).mp hrun
  exact ⟨s, hs, fun hd => of_decide_eq_true hne hd.exact⟩

end SqlOptima.CdcPollDelivery
