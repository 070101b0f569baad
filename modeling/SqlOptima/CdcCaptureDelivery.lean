import SqlOptima.CdcCapture

namespace SqlOptima.CdcCaptureDelivery

open SqlOptima.Lsn
open SqlOptima.ChangeLog
open SqlOptima.SourceLog
open SqlOptima.CdcCapture
open SqlOptima.TransitionSystem

variable {Value : Type}

def rowPos (r : CtRow Value) : WithBot LSN := r.startLSN

def eventPos (e : ChangeEvent Value) : WithBot LSN := e.lsn.bind LsnPosition.serialize

/-- The returned events that lie after `start`, up to the current position, are
the change rows there, each once and in log order. -/
def CapturedExactly (cfg : CaptureConfig) (start : WithBot LSN) (s : CaptureState Value) : Prop :=
  s.events.filter (fun e => start < eventPos e ∧ eventPos e ≤ s.position) =
    (window rowPos s.source.table.rows start s.position).filterMap (rowToChange cfg.table)

instance [DecidableEq Value] (cfg : CaptureConfig) (start : WithBot LSN) (s : CaptureState Value) :
    Decidable (CapturedExactly cfg start s) :=
  inferInstanceAs (Decidable (_ = _))

/-- The steps that lose and repeat nothing: the maximum LSN is not NULL once a
change was captured, the minimum is not NULL while change rows wait, and no
batch is cut between change rows of one LSN. -/
def Harmless (cfg : CaptureConfig) (start : WithBot LSN) (s : CaptureState Value) :
    CaptureAction Value → Prop
  | .fetchBounds minNull maxNull =>
      (maxNull = true →
        (window rowPos s.source.table.rows start s.position).filterMap (rowToChange cfg.table) =
          []) ∧
        (minNull = true → maxNull = false →
          (window rowPos s.source.table.rows s.position s.source.maxLsn).filterMap
            (rowToChange cfg.table) = [])
  | .fetchRows =>
      CleanCut rowPos (fun r => (rowToChange cfg.table r).isSome) s.source.table.rows s.position
        cfg.batchSize
  | _ => True

instance [DecidableEq Value] (cfg : CaptureConfig) (start : WithBot LSN) (s : CaptureState Value)
    (a : CaptureAction Value) : Decidable (Harmless cfg start s a) :=
  match a with
  | .fetchBounds _ _ => inferInstanceAs (Decidable ((_ → _) ∧ (_ → _ → _)))
  | .fetchRows => inferInstanceAs (Decidable (CleanCut ..))
  | .commit _ _ => inferInstanceAs (Decidable True)
  | .abort => inferInstanceAs (Decidable True)

theorem ordered_rowPos (ct : CaptureTable Value) : Ordered rowPos ct.rows :=
  (ordered_rows ct).imp fun h => WithBot.coe_le_coe.mpr h

theorem eventPos_of_rowToChange {table : TableInfo} {r : CtRow Value} {e : ChangeEvent Value}
    (h : rowToChange table r = some e) : eventPos e = rowPos r := by
  rw [eventPos, (rowToChange_eq_some h).1, Option.bind_some, serialize_unpack]
  rfl

theorem filterMap_filter_after (table : TableInfo) (start : WithBot LSN)
    (rows : List (CtRow Value)) :
    (rows.filter fun r => start < rowPos r).filterMap (rowToChange table) =
      (rows.filterMap (rowToChange table)).filter fun e => start < eventPos e := by
  induction rows with
  | nil => rfl
  | cons r rows ih =>
      cases he : rowToChange table r with
      | none =>
          rw [List.filterMap_cons_none he, ← ih, List.filter_cons]
          split
          · rw [List.filterMap_cons_none he]
          · rfl
      | some e =>
          rw [List.filterMap_cons_some he, List.filter_cons, List.filter_cons,
            eventPos_of_rowToChange he]
          split
          · rw [List.filterMap_cons_some he, ih]
          · exact ih

theorem captured_move {table : TableInfo} {ct : CaptureTable Value} {start p q : WithBot LSN}
    (hpq : p ≤ q) {new : List (ChangeEvent Value)}
    (hnew : (window rowPos ct.rows p q).filterMap (rowToChange table) = new) :
    (window rowPos ct.rows start q).filterMap (rowToChange table) =
      (window rowPos ct.rows start p).filterMap (rowToChange table) ++
        new.filter fun e => start < eventPos e := by
  rw [window_move (ordered_rowPos ct) hpq, List.filterMap_append, filterMap_filter_after, hnew]

@[simp]
theorem advance_unpack (position : WithBot LSN) (l : LSN) : advance position (unpack l) = l := by
  rw [advance, serialize_unpack]

theorem advance_zero (position : WithBot LSN) : advance position ⟨0, 0, 0⟩ = LSN.zero := by
  have hzero : unpack .zero = ⟨0, 0, 0⟩ := by decide
  rw [← hzero, advance_unpack]

def QueryFor (s : CaptureState Value) (fromLsn : LSN) (inclusive : Bool) : Prop :=
  (inclusive = false ∧ s.position = fromLsn) ∨
    (inclusive = true ∧ fromLsn = s.source.minLsn ∧ s.position < fromLsn)

theorem queryRows_eq_read {s : CaptureState Value} {fromLsn : LSN} {inclusive : Bool}
    (h : QueryFor s fromLsn inclusive) (n : Nat) :
    queryRows s.source.table.rows fromLsn inclusive n =
      ChangeLog.read rowPos s.source.table.rows s.position n := by
  rw [queryRows, ChangeLog.read, after]
  congr 1
  refine List.filter_congr fun r hr => ?_
  rcases h with ⟨rfl, hpos⟩ | ⟨rfl, hmin, hpos⟩
  · simp [hpos, rowPos]
  · have hle : fromLsn ≤ r.startLSN := hmin ▸ (s.source.bounded r hr).2.1
    have hlt : s.position < rowPos r := hpos.trans_le (WithBot.coe_le_coe.mpr hle)
    simp [hle, hlt]

structure CaptureInv (cfg : CaptureConfig) (start : WithBot LSN) (s : CaptureState Value) :
    Prop where
  captured : s.events.filter (fun e => start < eventPos e) =
    (window rowPos s.source.table.rows start s.position).filterMap (rowToChange cfg.table)
  bounded : s.position ≤ s.source.maxLsn ∨ s.position = start
  pending : ∀ fromLsn inclusive mx, s.pending = some (fromLsn, inclusive, mx) →
    QueryFor s fromLsn inclusive ∧ s.position ≤ mx ∧ mx ≤ s.source.maxLsn

section Steps

variable {cfg : CaptureConfig} {start : WithBot LSN} {s t : CaptureState Value}

theorem capturedExactly_of_inv (h : CaptureInv cfg start s) : CapturedExactly cfg start s := by
  have hsplit : s.events.filter (fun e => decide (start < eventPos e ∧ eventPos e ≤ s.position)) =
      (s.events.filter fun e => start < eventPos e).filter fun e => eventPos e ≤ s.position := by
    rw [List.filter_filter]
    refine List.filter_congr fun e _ => ?_
    rw [Bool.decide_and, Bool.and_comm]
  rw [CapturedExactly, hsplit, h.captured, List.filter_eq_self]
  intro e he
  obtain ⟨r, hr, hre⟩ := List.mem_filterMap.mp he
  rw [eventPos_of_rowToChange hre]
  exact decide_eq_true (mem_window.mp hr).2.2

theorem captureInv_initial (source : Source Value) :
    CaptureInv cfg start (initial source start) where
  captured := by simp [initial, window_eq_nil_of_le]
  bounded := Or.inr rfl
  pending := by
    intro fromLsn inclusive mx h
    cases h

theorem captureInv_commit (h : CaptureInv cfg start s) {rows : List (CtRow Value)} {maxLsn : LSN}
    (hg : s.source.Grows rows maxLsn) :
    CaptureInv cfg start { s with source := s.source.grow rows maxLsn hg } := by
  have hmax : (s.source.maxLsn : WithBot LSN) ≤ maxLsn := WithBot.coe_le_coe.mpr hg.2.1
  refine ⟨?_, h.bounded.imp_left fun hle => hle.trans hmax, ?_⟩
  · rw [h.captured]
    congr 1
    refine (window_append_of_lt ?_).symm
    intro r hr hstart
    rcases h.bounded with hle | heq
    · exact hle.trans_lt (WithBot.coe_lt_coe.mpr (hg.2.2 r hr).2.2.1)
    · rwa [heq]
  · intro fromLsn inclusive mx hpend
    obtain ⟨hq, hle, hmx⟩ := h.pending fromLsn inclusive mx hpend
    exact ⟨hq, hle, hmx.trans hg.2.1⟩

theorem captureInv_skip (h : CaptureInv cfg start s) {mx : LSN}
    (hmx : mx ≤ s.source.maxLsn)
    (hquiet : (window rowPos s.source.table.rows s.position mx).filterMap
      (rowToChange cfg.table) = [])
    (hback : (mx : WithBot LSN) < s.position → s.position = start) :
    CaptureInv cfg start { s with position := mx, pending := none } := by
  refine ⟨?_, Or.inl (WithBot.coe_le_coe.mpr hmx), ?_⟩
  · rw [h.captured]
    rcases le_or_gt s.position mx with hle | hlt
    · rw [captured_move hle hquiet]
      simp
    · have hstart := hback hlt
      have hbefore : (mx : WithBot LSN) ≤ start := hstart ▸ hlt.le
      rw [window_eq_nil_of_le _ hstart.le, window_eq_nil_of_le _ hbefore]
  · intro fromLsn inclusive m hm
    cases hm

theorem normalize_position (p : WithBot LSN) :
    normalizeLsnBytes (Option.map LSN.bytes p) = p := by
  cases p with
  | bot => rfl
  | coe l => exact normalizeLsnBytes_bytes l

theorem captureStart_queryFor (s : CaptureState Value) :
    QueryFor s (captureStart s.position s.source.minLsn).1
      (captureStart s.position s.source.minLsn).2 := by
  rw [QueryFor]
  cases hpos : s.position with
  | bot => exact Or.inr ⟨rfl, rfl, WithBot.bot_lt_coe _⟩
  | coe last =>
      by_cases hlt : last < s.source.minLsn
      · have hc : captureStart (last : WithBot LSN) s.source.minLsn = (s.source.minLsn, true) :=
          if_pos hlt
        rw [hc]
        exact Or.inr ⟨rfl, rfl, WithBot.coe_lt_coe.mpr hlt⟩
      · have hc : captureStart (last : WithBot LSN) s.source.minLsn = (last, false) :=
          if_neg hlt
        rw [hc]
        exact Or.inl ⟨rfl, rfl⟩

theorem planCapture_cases (s : CaptureState Value) (minNull maxNull : Bool) {plan : CapturePlan}
    (hplan : planCapture (Option.map LSN.bytes s.position)
      (if minNull then none else some s.source.minLsn.bytes)
      (if maxNull then none else some s.source.maxLsn.bytes) = plan) :
    (maxNull = true ∧ plan = .skip ⟨0, 0, 0⟩) ∨
      (maxNull = false ∧ plan = .skip (unpack s.source.maxLsn) ∧
        (minNull = true ∨ s.source.maxLsn < s.source.minLsn ∨
          (s.source.maxLsn : WithBot LSN) ≤ s.position)) ∨
      ∃ fromLsn inclusive, plan = .query fromLsn inclusive s.source.maxLsn ∧
        QueryFor s fromLsn inclusive ∧ s.position ≤ s.source.maxLsn := by
  have hstart := captureStart_queryFor s
  cases maxNull with
  | true => exact Or.inl ⟨rfl, hplan.symm⟩
  | false =>
      refine Or.inr ?_
      cases minNull with
      | true =>
          refine Or.inl ⟨rfl, ?_, Or.inl rfl⟩
          rw [← hplan, planCapture, if_neg Bool.false_ne_true, normalizeLsnBytes_bytes, if_pos rfl]
          rfl
      | false =>
          rw [planCapture, if_neg Bool.false_ne_true, if_neg Bool.false_ne_true,
            normalizeLsnBytes_bytes, normalizeLsnBytes_bytes, normalize_position] at hplan
          dsimp only at hplan
          split at hplan
          · rename_i hskip
            refine Or.inl ⟨rfl, hplan.symm, Or.inr (hskip.imp_right ?_)⟩
            rintro ⟨hexcl, hle⟩
            rcases hstart with ⟨-, hpos⟩ | ⟨hincl, -⟩
            · rw [hpos]
              exact WithBot.coe_le_coe.mpr hle
            · rw [hexcl] at hincl
              cases hincl
          · rename_i hquery
            rw [not_or, not_and, not_lt, not_le] at hquery
            refine Or.inr ⟨_, _, hplan.symm, hstart, ?_⟩
            rcases hstart with ⟨hexcl, hpos⟩ | ⟨-, hmin, hpos⟩
            · rw [hpos]
              exact WithBot.coe_le_coe.mpr (hquery.2 hexcl).le
            · rw [hmin] at hpos
              exact hpos.le.trans (WithBot.coe_le_coe.mpr hquery.1)

theorem captureInv_fetchBounds (h : CaptureInv cfg start s) {minNull maxNull : Bool}
    (hok : Harmless cfg start s (.fetchBounds minNull maxNull))
    (hstep : step cfg s (.fetchBounds minNull maxNull) = some t) : CaptureInv cfg start t := by
  rw [step] at hstep
  cases hpend : s.pending with
  | some q => simp [hpend] at hstep
  | none =>
      simp only [hpend] at hstep
      have hrows := s.source.bounded
      have hback : (s.source.maxLsn : WithBot LSN) < s.position → s.position = start :=
        fun hlt => h.bounded.resolve_left hlt.not_ge
      rcases planCapture_cases s minNull maxNull rfl with
        ⟨hmax, hplan⟩ | ⟨hmax, hplan, hwhy⟩ | ⟨fromLsn, inclusive, hplan, hquery, hle⟩
      · rw [hplan] at hstep
        cases hstep
        rw [advance_zero]
        refine ⟨?_, Or.inl (WithBot.coe_le_coe.mpr (LSN.zero_le _)), ?_⟩
        · have hnone : window rowPos s.source.table.rows start LSN.zero = [] := by
            rw [List.eq_nil_iff_forall_not_mem]
            intro r hr
            obtain ⟨hmem, -, hle⟩ := mem_window.mp hr
            exact absurd (WithBot.coe_le_coe.mp hle) (hrows r hmem).1.not_ge
          rw [h.captured, hok.1 hmax, hnone]
          rfl
        · intro fromLsn inclusive mx hmx
          cases hmx
      · rw [hplan] at hstep
        cases hstep
        rw [advance_unpack]
        refine captureInv_skip h le_rfl ?_ hback
        rcases hwhy with hmin | hempty | hbehind
        · exact hok.2 hmin hmax
        · have hnil : s.source.table.rows = [] := by
            rw [List.eq_nil_iff_forall_not_mem]
            intro r hr
            obtain ⟨-, hmin, hmx⟩ := hrows r hr
            exact absurd (hmin.trans hmx) hempty.not_ge
          rw [hnil]
          rfl
        · rw [window_eq_nil_of_le _ hbehind]
          rfl
      · rw [hplan] at hstep
        cases hstep
        refine ⟨h.captured, h.bounded, ?_⟩
        intro f i m hm
        cases hm
        exact ⟨hquery, hle, le_rfl⟩

theorem captureInv_fetchRows (h : CaptureInv cfg start s) (hok : Harmless cfg start s .fetchRows)
    (hstep : step cfg s .fetchRows = some t) : CaptureInv cfg start t := by
  rw [step] at hstep
  cases hpend : s.pending with
  | none => simp [hpend] at hstep
  | some query =>
      obtain ⟨fromLsn, inclusive, mx⟩ := query
      obtain ⟨hquery, hle, hmx⟩ := h.pending fromLsn inclusive mx hpend
      simp only [hpend, collectBatch, parseLsn_bytes, advance_unpack,
        queryRows_eq_read hquery] at hstep
      cases hstep
      by_cases hnil : ChangeLog.read rowPos s.source.table.rows s.position cfg.batchSize = []
      · -- nothing was read, so nothing lies after the position
        rw [hnil]
        have hafter : after rowPos s.source.table.rows s.position = [] :=
          (List.take_eq_nil_iff.mp hnil).resolve_left cfg.batchPos.ne'
        have hquiet : (window rowPos s.source.table.rows s.position mx).filterMap
            (rowToChange cfg.table) = [] := by
          rw [window_eq_filter_after, hafter]
          rfl
        refine ⟨?_, Or.inl (WithBot.coe_le_coe.mpr hmx), by simp⟩
        simpa [lastPos] using h.captured.trans (by rw [captured_move hle hquiet]; simp)
      · have hlast : ((lastPos CtRow.startLSN mx (ChangeLog.read rowPos s.source.table.rows
            s.position cfg.batchSize) : LSN) : WithBot LSN) =
            lastPos rowPos s.position (ChangeLog.read rowPos s.source.table.rows s.position
              cfg.batchSize) := by
          rw [lastPos_of_ne_nil hnil s.position mx]
          exact (lastPos_comp (fun l : LSN => (l : WithBot LSN)) mx _).symm
        have hread := (filterMap_window_read_iff (ordered_rowPos s.source.table)
          (rowToChange cfg.table) s.position cfg.batchSize).mpr hok
        refine ⟨?_, Or.inl ?_, by simp⟩
        · simp only [hlast]
          rw [List.filter_append, h.captured,
            captured_move (le_lastPos_read _ _ _) hread]
        · simp only [hlast]
          rcases lastPos_eq rowPos s.position (ChangeLog.read rowPos s.source.table.rows
            s.position cfg.batchSize) with hsame | ⟨r, hr, heq⟩
          · rw [hsame]
            exact hle.trans (WithBot.coe_le_coe.mpr hmx)
          · rw [heq]
            exact WithBot.coe_le_coe.mpr (s.source.bounded r (mem_read hr).1).2.2

theorem captureInv_step {a : CaptureAction Value} (h : CaptureInv cfg start s)
    (hok : Harmless cfg start s a) (hstep : step cfg s a = some t) : CaptureInv cfg start t := by
  cases a with
  | commit rows maxLsn =>
      rw [step] at hstep
      split at hstep
      · rename_i hg
        cases hstep
        exact captureInv_commit h hg
      · cases hstep
  | fetchBounds minNull maxNull => exact captureInv_fetchBounds h hok hstep
  | fetchRows => exact captureInv_fetchRows h hok hstep
  | abort =>
      cases hstep
      refine ⟨h.captured, h.bounded, ?_⟩
      intro fromLsn inclusive mx hmx
      cases hmx

end Steps

/-- In every run whose steps are harmless, the events returned so far are
exactly the change rows between the starting position and the current one. -/
theorem capturedExactly_of_harmless (cfg : CaptureConfig) (source : Source Value)
    (start : WithBot LSN) {s : CaptureState Value}
    (hs : ReachesBy (step cfg) (Harmless cfg start) (initial source start) s) :
    CapturedExactly cfg start s :=
  capturedExactly_of_inv <|
    hs.invariant (captureInv_initial source) fun _ _ _ h hok hstep => captureInv_step h hok hstep

def twoInsertsSource : Source Nat where
  table := ⟨[⟨.ofByte 1, .ofByte 1, 2, [("id", 1)]⟩, ⟨.ofByte 1, .ofByte 2, 2, [("id", 2)]⟩],
    by decide⟩
  minLsn := .ofByte 1
  maxLsn := .ofByte 1
  bounded := by decide

def ordersCapture (batchSize : Nat) (h : 0 < batchSize) : CaptureConfig :=
  ⟨⟨"dbo", "orders"⟩, batchSize, h⟩

def twoIterations : List (CaptureAction Nat) :=
  [.fetchBounds false false, .fetchRows, .fetchBounds false false]

theorem twoIterations_capturedExactly :
    ∃ s, s.events.length = 2 ∧
      ReachesBy (step (ordersCapture 2 (by decide))) (Harmless (ordersCapture 2 (by decide)) ⊥)
        (initial twoInsertsSource ⊥) s ∧
      CapturedExactly (ordersCapture 2 (by decide)) ⊥ s := by
  have hrun : (runSteps (guarded
      (fun s a => decide (Harmless (ordersCapture 2 (by decide)) ⊥ s a))
      (step (ordersCapture 2 (by decide)))) (initial twoInsertsSource ⊥) twoIterations).any
      (fun s => decide (s.events.length = 2)) = true := by
    decide +kernel
  obtain ⟨s, hs, hlen⟩ := (Option.any_eq_true _ _).mp hrun
  have hreach := reachesBy_of_guarded (reaches_of_runSteps hs)
  simp only [decide_eq_true_eq] at hreach
  exact ⟨s, of_decide_eq_true hlen, hreach, capturedExactly_of_harmless _ _ _ hreach⟩

theorem twoIterations_cut_not_capturedExactly :
    ∃ s, Reaches (step (ordersCapture 1 (by decide))) (initial twoInsertsSource ⊥) s ∧
      ¬ CapturedExactly (ordersCapture 1 (by decide)) ⊥ s := by
  have hrun : (runSteps (step (ordersCapture 1 (by decide))) (initial twoInsertsSource ⊥)
      twoIterations).any (fun s =>
        decide (¬ CapturedExactly (ordersCapture 1 (by decide)) ⊥ s)) = true := by
    decide +kernel
  obtain ⟨s, hs, hne⟩ := (Option.any_eq_true _ _).mp hrun
  exact ⟨s, reaches_of_runSteps hs, of_decide_eq_true hne⟩

end SqlOptima.CdcCaptureDelivery
