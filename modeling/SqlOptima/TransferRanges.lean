import Mathlib.Algebra.Order.BigOperators.Group.List
import Mathlib.Data.List.Perm.Basic
import SqlOptima.TransferCopier

namespace SqlOptima.TransferRanges

open TransferCommands TransferKeys TransferRange TransferCopier

section Iteration

variable {Row : Type}

/-- What an iteration of the range loops does. -/
inductive Iteration (load : Loader Row) (rowsIn : Int64 → Int64 → List Row) (max : Int64)
    (s : RangeState) (a : ChunkAnswer) : Step Row RangeState → Prop where
  | refused {log : List (Event Row)} {e : CopyError} (hlog : rowsOf log = []) :
      Iteration load rowsIn max s a (.finish log (some e) s.chunk)
  | ended {log : List (Event Row)} {c : Int64} (hlog : rowsOf log = [])
      (hreload : reloadChunkSize s.chunk a.reload = some c)
      (hnext : nextIntegerRange s.current max c = none) :
      Iteration load rowsIn max s a (.finish log none c)
  | failed {log : List (Event Row)} {lo hi c : Int64}
      (hreload : reloadChunkSize s.chunk a.reload = some c)
      (hnext : nextIntegerRange s.current max c = some (lo, hi))
      (hlog : rowsOf log = (load a.load (rowsIn lo hi)).1) :
      Iteration load rowsIn max s a (.finish log (some .failed) c)
  | last {log : List (Event Row)} {lo hi c : Int64}
      (hreload : reloadChunkSize s.chunk a.reload = some c)
      (hnext : nextIntegerRange s.current max c = some (lo, hi))
      (hlog : rowsOf log = (load a.load (rowsIn lo hi)).1)
      (hload : (load a.load (rowsIn lo hi)).2 ≠ .fail)
      (hmax : max ≤ hi ∨ ¬ max ≤ hi ∧ hi + 1 ≤ lo) :
      Iteration load rowsIn max s a (.finish log none c)
  | next {log : List (Event Row)} {lo hi c : Int64}
      (hreload : reloadChunkSize s.chunk a.reload = some c)
      (hnext : nextIntegerRange s.current max c = some (lo, hi))
      (hlog : rowsOf log = (load a.load (rowsIn lo hi)).1)
      (hload : (load a.load (rowsIn lo hi)).2 ≠ .fail) (hmax : ¬ max ≤ hi) :
      Iteration load rowsIn max s a (.next log ⟨hi + 1, c⟩)

theorem iteration_rangeStep (load : Loader Row) (rowsIn : Int64 → Int64 → List Row) (site : Site)
    (max : Int64) (s : RangeState) (a : ChunkAnswer) :
    Iteration load rowsIn max s a (rangeStep load rowsIn site max s a) := by
  have hcheck : rowsOf (checkEvents site (checkBeforeChunk a.polls) : List (Event Row)) = [] :=
    rowsOf_checkEvents site _
  have hlog : ∀ rs : List Row, rowsOf
      (checkEvents site (checkBeforeChunk a.polls) ++ [Event.rows rs]) = rs := by
    intro rs
    rw [rowsOf_append, hcheck, rowsOf_rows, List.nil_append]
  simp only [rangeStep, guardedStep]
  split
  · exact .refused hcheck
  · exact .refused hcheck
  · split
    · exact .refused hcheck
    · next c hreload =>
        split
        · next hnext => exact .ended hcheck hreload hnext
        · next lo hi hnext =>
            split
            · exact .failed hreload hnext (hlog _)
            · next hload =>
                have hne : (load a.load (rowsIn lo hi)).2 ≠ .fail := by simp [hload]
                split
                · next hmax => exact .last hreload hnext (hlog _) hne (Or.inl hmax)
                · next hmax => exact .next hreload hnext (hlog _) hne hmax
            · next hload =>
                have hne : (load a.load (rowsIn lo hi)).2 ≠ .fail := by simp [hload]
                split
                · exact .failed hreload hnext (hlog _)
                · split
                  · next hmax => exact .last hreload hnext (hlog _) hne (Or.inl hmax)
                  · next hmax =>
                      split
                      · next hwrap => exact .last hreload hnext (hlog _) hne (Or.inr ⟨hmax, hwrap⟩)
                      · exact .next hreload hnext (hlog _) hne hmax

end Iteration

section Reach

/-- Some number of the chunks, laid side by side from `start`, passes `max`, and the chunk that does
so ends within the 64-bit integers. -/
def ReachesWithin (start max : Int) (sizes : List Int) : Prop :=
  ∃ k < sizes.length, start + (sizes.take k).sum ≤ max ∧
    max < start + (sizes.take (k + 1)).sum ∧ start + (sizes.take (k + 1)).sum ≤ 2 ^ 63

theorem not_reachesWithin_nil (start max : Int) : ¬ ReachesWithin start max [] := by
  rintro ⟨k, hk, -⟩
  simp at hk

theorem sum_take_nonneg {sizes : List Int} (hpos : ∀ c ∈ sizes, 1 ≤ c) (k : Nat) :
    0 ≤ (sizes.take k).sum :=
  List.sum_nonneg fun c hc => (by have := hpos c (List.mem_of_mem_take hc); omega)

theorem reachesWithin_cons {start max c : Int} {sizes : List Int} (hstart : start ≤ max)
    (hpos : ∀ c ∈ sizes, 1 ≤ c) :
    ReachesWithin start max (c :: sizes) ↔
      start + c ≤ 2 ^ 63 ∧ (max < start + c ∨ ReachesWithin (start + c) max sizes) := by
  constructor
  · rintro ⟨k, hk, hle, hlt, hend⟩
    cases k with
    | zero =>
        simp only [Nat.zero_add, List.take_succ_cons, List.take_zero, List.sum_cons,
          List.sum_nil] at hlt hend
        exact ⟨by omega, Or.inl (by omega)⟩
    | succ k =>
        simp only [List.take_succ_cons, List.sum_cons] at hle hlt hend
        have hnonneg := sum_take_nonneg hpos (k + 1)
        refine ⟨by omega, Or.inr ⟨k, by simpa using hk, by omega, by omega, by omega⟩⟩
  · rintro ⟨hend, hlt | ⟨k, hk, hle, hlt, hend'⟩⟩
    · refine ⟨0, by simp, by simpa using hstart, ?_, ?_⟩
      · simpa using hlt
      · simpa using hend
    · refine ⟨k + 1, by simpa using hk, ?_, ?_, ?_⟩
      all_goals
        simp only [List.take_succ_cons, List.sum_cons]
        omega

/-- The chunk size that each iteration works with, and the end of its load. -/
def iterations (chunk : Int64) : List ChunkAnswer → List (Int × Load)
  | [] => []
  | a :: answers =>
      let c := (reloadChunkSize chunk a.reload).getD chunk
      (c.toInt, a.load) :: iterations c answers

theorem one_le_of_reload {chunk c : Int64} {reload : Option Int64} (hchunk : 1 ≤ chunk)
    (h : reloadChunkSize chunk reload = some c) : 1 ≤ c := by
  cases reload with
  | none => cases h
  | some size =>
      obtain rfl := Option.some.inj h
      split
      · exact hchunk
      · next hsize => exact Int64.not_lt.mp hsize

theorem iterations_cons {chunk c : Int64} {a : ChunkAnswer} {answers : List ChunkAnswer}
    (h : reloadChunkSize chunk a.reload = some c) :
    iterations chunk (a :: answers) = (c.toInt, a.load) :: iterations c answers := by
  rw [iterations, h, Option.getD_some]

theorem iterations_pos {chunk : Int64} (hchunk : 1 ≤ chunk) (answers : List ChunkAnswer) :
    ∀ p ∈ iterations chunk answers, 1 ≤ p.1 := by
  induction answers generalizing chunk with
  | nil => intro p hp; cases hp
  | cons a answers ih =>
      have hc : 1 ≤ (reloadChunkSize chunk a.reload).getD chunk := by
        cases h : reloadChunkSize chunk a.reload with
        | none => exact hchunk
        | some c => exact one_le_of_reload hchunk h
      intro p hp
      rcases List.mem_cons.mp hp with rfl | hp
      · exact Int64.le_iff_toInt_le.mp hc
      · exact ih hc p hp

end Reach

section Files

variable {Row : Type} {sql : SqlOrder} {t : Tables Row sql}

def keyBetween (t : Tables Row sql) (lo hi : Int) (row : Row) : Prop :=
  ∃ v : Int64, t.key row = some (.int v) ∧ lo ≤ v.toInt ∧ v.toInt ≤ hi

/-- No range whose data file was lost holds a row. -/
def FilesKept (t : Tables Row sql) (lost : Load → Bool) : Int → List (Int × Load) → Prop
  | _, [] => True
  | start, (c, load) :: rest =>
      (lost load = true → ∀ row ∈ t.source, ¬ keyBetween t start (start + c - 1) row) ∧
        FilesKept t lost (start + c) rest

theorem filesKept_of_beyond {lost : Load → Bool} {start : Int} {plan : List (Int × Load)}
    (hpos : ∀ p ∈ plan, 1 ≤ p.1)
    (hbeyond : ∀ row ∈ t.source, ∀ v : Int64, t.key row = some (.int v) → v.toInt < start) :
    FilesKept t lost start plan := by
  induction plan generalizing start with
  | nil => trivial
  | cons p plan ih =>
      have hp := hpos p List.mem_cons_self
      refine ⟨fun _ row hrow ⟨v, hv, hlo, _⟩ => ?_,
        ih (fun q hq => hpos q (List.mem_cons_of_mem _ hq)) ?_⟩
      · exact absurd (hbeyond row hrow v hv) (by omega)
      · intro row hrow v hv
        have := hbeyond row hrow v hv
        omega

end Files

section Landed

variable {Row : Type} {sql : SqlOrder} {t : Tables Row sql} {lo hi next max : Int64} {row : Row}

theorem inRange_iff (hint : t.order = .integer) (hrow : row ∈ t.source) :
    (t.key row).any (fun k => sql.le (.int lo) k && sql.le k (.int hi)) = true ↔
      keyBetween t lo.toInt hi.toInt row := by
  cases hkey : t.key row with
  | none => simp [keyBetween, hkey]
  | some k =>
      obtain ⟨v, rfl⟩ := t.integers hint row (List.mem_append_left _ hrow) k hkey
      simp [keyBetween, hkey, sql.int_le]

theorem mem_rowsIn (hint : t.order = .integer) :
    row ∈ t.rowsIn lo hi ↔ row ∈ t.source ∧ keyBetween t lo.toInt hi.toInt row := by
  rw [Tables.rowsIn, List.mem_filter]
  exact and_congr_right fun hrow => inRange_iff hint hrow

theorem rowsIn_append_perm (hint : t.order = .integer) (hnext : next.toInt = hi.toInt + 1)
    (hlo : lo.toInt ≤ next.toInt) (hmax : hi.toInt ≤ max.toInt) :
    (t.rowsIn lo hi ++ t.rowsIn next max).Perm (t.rowsIn lo max) := by
  classical
  have hlow : t.rowsIn lo hi =
      (t.rowsIn lo max).filter fun row => keyBetween t lo.toInt hi.toInt row := by
    rw [Tables.rowsIn, Tables.rowsIn, List.filter_filter]
    refine List.filter_congr fun row hrow => ?_
    rw [Bool.eq_iff_iff, Bool.and_eq_true, inRange_iff hint hrow, inRange_iff hint hrow,
      decide_eq_true_eq]
    constructor
    · intro h
      obtain ⟨v, hv, hv1, hv2⟩ := h
      exact ⟨⟨v, hv, hv1, hv2⟩, v, hv, hv1, by omega⟩
    · exact And.left
  have hhigh : t.rowsIn next max =
      (t.rowsIn lo max).filter fun row => !decide (keyBetween t lo.toInt hi.toInt row) := by
    rw [Tables.rowsIn, Tables.rowsIn, List.filter_filter]
    refine List.filter_congr fun row hrow => ?_
    rw [Bool.eq_iff_iff, Bool.and_eq_true, inRange_iff hint hrow, inRange_iff hint hrow,
      Bool.not_eq_true', decide_eq_false_iff_not]
    constructor
    · rintro ⟨v, hv, hv1, hv2⟩
      refine ⟨?_, v, hv, by omega, hv2⟩
      rintro ⟨w, hw, _, hw2⟩
      obtain rfl : v = w := by simpa using hv.symm.trans hw
      omega
    · rintro ⟨hnot, v, hv, hv1, hv2⟩
      refine ⟨v, hv, ?_, hv2⟩
      by_contra hlt
      exact hnot ⟨v, hv, hv1, by omega⟩
  rw [hlow, hhigh]
  exact List.filter_append_perm _ _

/-- A load that does not fail lands the whole range, or nothing where its file is lost. -/
structure Loads (load : Loader Row) (lost : Load → Bool) : Prop where
  sub : ∀ l rows, ∀ row ∈ (load l rows).1, row ∈ rows
  landed : ∀ l rows, (load l rows).2 ≠ .fail → (load l rows).1 = if lost l then [] else rows

theorem loads_stream : Loads (streamLoad : Loader Row) fun _ => false where
  sub := by
    intro l rows row hrow
    cases l with
    | done => exact hrow
    | _ => cases hrow
  landed := by
    intro l rows h
    cases l with
    | done => rfl
    | _ => exact absurd rfl h

theorem loads_bcp : Loads (bcpLoad : Loader Row) fun l => l == .fileLost where
  sub := by
    intro l rows row hrow
    cases l with
    | done => cases rows <;> exact hrow
    | failed landed => exact List.mem_of_mem_take hrow
    | fileLost => cases hrow
  landed := by
    intro l rows h
    cases l with
    | done => cases rows <;> rfl
    | failed landed => exact absurd rfl h
    | fileLost => rfl

end Landed

section RangeLoop

variable {Row : Type} {sql : SqlOrder} {t : Tables Row sql} {load : Loader Row}
  {lost : Load → Bool} {site : Site} {max : Int64}

/-- The bounds of one iteration's range. -/
theorem range_of_iteration {s : RangeState} {a : ChunkAnswer} {lo hi c : Int64}
    (hchunk : 1 ≤ s.chunk) (hreload : reloadChunkSize s.chunk a.reload = some c)
    (hnext : nextIntegerRange s.current max c = some (lo, hi)) :
    lo = s.current ∧ 1 ≤ c ∧ s.current.toInt ≤ max.toInt ∧ s.current.toInt + c.toInt ≤ 2 ^ 63 ∧
      hi.toInt = min (s.current.toInt + c.toInt - 1) max.toInt := by
  have hc := one_le_of_reload hchunk hreload
  obtain ⟨hlo, hle, hend, hhi⟩ := nextIntegerRange_eq_some hc hnext
  exact ⟨hlo, hc, hle, by omega, hhi⟩

/-- The rows of a range loop come from where it stands upwards. -/
theorem landed_rangeLoop_ge (hint : t.order = .integer) (hload : Loads load lost) {n : Nat}
    (s : RangeState) (hchunk : 1 ≤ s.chunk) (answers : List ChunkAnswer) :
    ∀ row ∈ (loop RangeState.chunk (rangeStep load t.rowsIn site max) n s answers).landed,
      row ∈ t.source ∧ keyBetween t s.current.toInt max.toInt row := by
  refine forall_landed_loop
    (I := fun s' => 1 ≤ s'.chunk ∧ s.current.toInt ≤ s'.current.toInt) ?_ ?_ n
    ⟨hchunk, Int.le_refl _⟩ answers
  · intro s' a hs row hrow
    have hiter := iteration_rangeStep load t.rowsIn site max s' a
    have hrange : ∀ {lo hi c : Int64}, reloadChunkSize s'.chunk a.reload = some c →
        nextIntegerRange s'.current max c = some (lo, hi) →
          row ∈ (load a.load (t.rowsIn lo hi)).1 →
            row ∈ t.source ∧ keyBetween t s.current.toInt max.toInt row := by
      intro lo hi c hreload hnext hrow
      obtain ⟨rfl, hc, hle, hend, hhi⟩ := range_of_iteration hs.1 hreload hnext
      obtain ⟨hsource, v, hv, hv1, hv2⟩ := (mem_rowsIn hint).mp (hload.sub _ _ row hrow)
      have := hs.2
      exact ⟨hsource, v, hv, by omega, by omega⟩
    cases hstep : rangeStep load t.rowsIn site max s' a with
    | finish log error c =>
        rw [hstep] at hiter hrow
        cases hiter with
        | refused hlog => rw [Step.log, hlog] at hrow; cases hrow
        | ended hlog => rw [Step.log, hlog] at hrow; cases hrow
        | failed hreload hnext hlog => exact hrange hreload hnext (hlog ▸ hrow)
        | last hreload hnext hlog => exact hrange hreload hnext (hlog ▸ hrow)
    | next log s'' =>
        rw [hstep] at hiter hrow
        cases hiter with
        | next hreload hnext hlog => exact hrange hreload hnext (hlog ▸ hrow)
  · intro s' a log s'' hs hstep
    have hiter := iteration_rangeStep load t.rowsIn site max s' a
    rw [hstep] at hiter
    cases hiter with
    | @next _ lo hi c hreload hnext hlog hload hmax =>
        obtain ⟨rfl, hc, hle, hend, hhi⟩ := range_of_iteration hs.1 hreload hnext
        rw [Int64.le_iff_toInt_le] at hmax
        have hsucc := toInt_succ (Int.not_le.mp hmax)
        have hcInt := Int64.le_iff_toInt_le.mp hc
        have hone : (1 : Int64).toInt = 1 := rfl
        have := hs.2
        refine ⟨hc, ?_⟩
        change s.current.toInt ≤ (hi + 1).toInt
        omega

theorem one_le_chunkSize_loop (n : Nat) (s : RangeState) (hchunk : 1 ≤ s.chunk)
    (answers : List ChunkAnswer) :
    1 ≤ (loop RangeState.chunk (rangeStep load t.rowsIn site max) n s answers).chunkSize := by
  induction n generalizing s answers with
  | zero => exact hchunk
  | succ n ih =>
      cases answers with
      | nil => exact hchunk
      | cons a answers =>
          have hiter := iteration_rangeStep load t.rowsIn site max s a
          rw [loop]
          cases hstep : rangeStep load t.rowsIn site max s a with
          | finish log error c =>
              rw [hstep] at hiter
              cases hiter with
              | refused => exact hchunk
              | ended _ hreload => exact one_le_of_reload hchunk hreload
              | failed hreload => exact one_le_of_reload hchunk hreload
              | last hreload => exact one_le_of_reload hchunk hreload
          | next log s' =>
              rw [hstep] at hiter
              cases hiter with
              | next hreload => exact ih _ (one_le_of_reload hchunk hreload) answers

theorem hi_eq_max {current c hi : Int64} (hc : 1 ≤ c)
    (hhi : hi.toInt = min (current.toInt + c.toInt - 1) max.toInt)
    (h : max ≤ hi ∨ ¬ max ≤ hi ∧ hi + 1 ≤ current) : hi = max := by
  have hcInt := Int64.le_iff_toInt_le.mp hc
  have hone : (1 : Int64).toInt = 1 := rfl
  rcases h with h | ⟨h, hwrap⟩
  · rw [Int64.le_iff_toInt_le] at h
    exact Int64.toInt_inj.mp (by omega)
  · rw [Int64.le_iff_toInt_le, Int.not_le] at h
    rw [Int64.le_iff_toInt_le, toInt_succ h] at hwrap
    omega

theorem not_nil_perm_rowsIn {lo : Int64} (hint : t.order = .integer)
    (hmem : ∃ row ∈ t.source, t.key row = some (.int max)) (hlo : lo.toInt ≤ max.toInt) :
    ¬ [].Perm (t.rowsIn lo max) := by
  intro hperm
  obtain ⟨row, hrow, hkey⟩ := hmem
  have hin : row ∈ t.rowsIn lo max := (mem_rowsIn hint).mpr ⟨hrow, max, hkey, hlo, Int.le_refl _⟩
  rw [hperm.nil_eq.symm] at hin
  cases hin

theorem rowsIn_eq_nil {lo hi : Int64} {bound : Int} (hint : t.order = .integer)
    (hbound : hi.toInt ≤ bound) (h : ∀ row ∈ t.source, ¬ keyBetween t lo.toInt bound row) :
    t.rowsIn lo hi = [] := by
  refine List.eq_nil_iff_forall_not_mem.mpr fun row hrow => ?_
  obtain ⟨hsource, v, hv, hv1, hv2⟩ := (mem_rowsIn hint).mp hrow
  exact h row hsource ⟨v, hv, hv1, by omega⟩

/-- The range that ends at the last key. -/
theorem last_range_perm_iff {current : Int64} {c : Int} {l : Load} {plan : List (Int × Load)}
    (hint : t.order = .integer) (hmem : ∃ row ∈ t.source, t.key row = some (.int max))
    (hupper : ∀ row ∈ t.source, ∀ v : Int64, t.key row = some (.int v) → v.toInt ≤ max.toInt)
    (hpos : ∀ p ∈ plan, 1 ≤ p.1) (hcurrent : current.toInt ≤ max.toInt)
    (hmax : max.toInt < current.toInt + c) (hend : current.toInt + c ≤ 2 ^ 63) :
    (if lost l then [] else t.rowsIn current max).Perm (t.rowsIn current max) ↔
      ReachesWithin current.toInt max.toInt (c :: plan.map Prod.fst) ∧
        FilesKept t lost current.toInt ((c, l) :: plan) := by
  rw [reachesWithin_cons hcurrent (List.forall_mem_map.mpr hpos)]
  cases hlost : lost l with
  | true =>
      refine iff_of_false (not_nil_perm_rowsIn hint hmem hcurrent) fun h => ?_
      obtain ⟨row, hrow, hkey⟩ := hmem
      exact h.2.1 hlost row hrow ⟨max, hkey, hcurrent, by omega⟩
  | false =>
      refine iff_of_true (List.Perm.refl _) ⟨⟨hend, Or.inl hmax⟩, ?_, ?_⟩
      · exact fun h => absurd (hlost.symm.trans h) Bool.false_ne_true
      · refine filesKept_of_beyond hpos fun row hrow v hv => ?_
        have := hupper row hrow v hv
        omega

/-- A range below the last key, and what the iterations after it land. -/
theorem range_append_perm_iff {current hi next : Int64} {c : Int} {l : Load}
    {plan : List (Int × Load)} {landed : List Row} (hint : t.order = .integer)
    (hpos : ∀ p ∈ plan, 1 ≤ p.1) (hc : 1 ≤ c) (hhi : hi.toInt + 1 = current.toInt + c)
    (hnext : next.toInt = current.toInt + c) (hmax : next.toInt ≤ max.toInt)
    (hlanded : ∀ row ∈ landed, row ∈ t.source ∧ keyBetween t next.toInt max.toInt row)
    (htail : landed.Perm (t.rowsIn next max) ↔
      ReachesWithin next.toInt max.toInt (plan.map Prod.fst) ∧ FilesKept t lost next.toInt plan) :
    ((if lost l then [] else t.rowsIn current hi) ++ landed).Perm (t.rowsIn current max) ↔
      ReachesWithin current.toInt max.toInt (c :: plan.map Prod.fst) ∧
        FilesKept t lost current.toInt ((c, l) :: plan) := by
  have hsplit : (t.rowsIn current hi ++ t.rowsIn next max).Perm (t.rowsIn current max) :=
    rowsIn_append_perm hint (by omega) (by omega) (by omega)
  have hbound := next.toInt_lt
  rw [reachesWithin_cons (by omega) (List.forall_mem_map.mpr hpos)]
  rw [hnext] at htail
  cases hlost : lost l with
  | true =>
      rw [if_pos rfl, List.nil_append]
      constructor
      · intro hperm
        have hfirst : ∀ row ∈ t.source,
            ¬ keyBetween t current.toInt (current.toInt + c - 1) row := by
          rintro row hrow ⟨v, hv, hv1, hv2⟩
          have hin : row ∈ t.rowsIn current max :=
            (mem_rowsIn hint).mpr ⟨hrow, v, hv, hv1, by omega⟩
          obtain ⟨-, w, hw, hw1, -⟩ := hlanded row (hperm.mem_iff.mpr hin)
          obtain rfl : v = w := by simpa using hv.symm.trans hw
          omega
        rw [rowsIn_eq_nil hint (by omega) hfirst, List.nil_append] at hsplit
        obtain ⟨hreach, hfiles⟩ := htail.mp (hperm.trans hsplit.symm)
        exact ⟨⟨by omega, Or.inr hreach⟩, fun _ => hfirst, hfiles⟩
      · rintro ⟨⟨-, hreach⟩, hfirst, hfiles⟩
        rw [rowsIn_eq_nil hint (by omega) (hfirst hlost), List.nil_append] at hsplit
        exact (htail.mpr ⟨hreach.resolve_left (by omega), hfiles⟩).trans hsplit
  | false =>
      rw [if_neg Bool.false_ne_true]
      have hperm : (t.rowsIn current hi ++ landed).Perm (t.rowsIn current max) ↔
          landed.Perm (t.rowsIn next max) :=
        ⟨fun h => (List.perm_append_left_iff _).mp (h.trans hsplit.symm),
          fun h => ((List.perm_append_left_iff _).mpr h).trans hsplit⟩
      rw [hperm, htail]
      constructor
      · rintro ⟨hreach, hfiles⟩
        exact ⟨⟨by omega, Or.inr hreach⟩,
          fun h => absurd (hlost.symm.trans h) Bool.false_ne_true, hfiles⟩
      · rintro ⟨⟨-, hreach⟩, -, hfiles⟩
        exact ⟨hreach.resolve_left (by omega), hfiles⟩

/-- The loop has landed the whole span exactly when its chunks reach the last key and no lost file
held a row. -/
theorem landed_rangeLoop_perm_iff (hint : t.order = .integer) (hload : Loads load lost)
    (hmem : ∃ row ∈ t.source, t.key row = some (.int max))
    (hupper : ∀ row ∈ t.source, ∀ v : Int64, t.key row = some (.int v) → v.toInt ≤ max.toInt)
    (n : Nat) (s : RangeState) (hchunk : 1 ≤ s.chunk) (hcurrent : s.current.toInt ≤ max.toInt)
    (answers : List ChunkAnswer)
    (hok : (loop RangeState.chunk (rangeStep load t.rowsIn site max) n s answers).error = none) :
    (loop RangeState.chunk (rangeStep load t.rowsIn site max) n s answers).landed.Perm
        (t.rowsIn s.current max) ↔
      ReachesWithin s.current.toInt max.toInt
          (((iterations s.chunk answers).take n).map Prod.fst) ∧
        FilesKept t lost s.current.toInt ((iterations s.chunk answers).take n) := by
  have hpos : ∀ {n : Nat} {c : Int64}, 1 ≤ c → ∀ (answers : List ChunkAnswer),
      ∀ p ∈ (iterations c answers).take n, 1 ≤ p.1 :=
    fun hc answers p hp => iterations_pos hc answers p (List.mem_of_mem_take hp)
  induction n generalizing s answers with
  | zero =>
      refine iff_of_false (not_nil_perm_rowsIn hint hmem hcurrent) fun h => ?_
      exact not_reachesWithin_nil _ _ h.1
  | succ n ih =>
      cases answers with
      | nil => cases hok
      | cons a answers =>
          rw [loop] at hok ⊢
          have hiter := iteration_rangeStep load t.rowsIn site max s a
          cases hstep : rangeStep load t.rowsIn site max s a with
          | finish log error c =>
              rw [hstep] at hiter hok
              change error = none at hok
              subst hok
              change (rowsOf log).Perm _ ↔ _
              cases hiter with
              | ended hlog hreload hnext =>
                  have hc := one_le_of_reload hchunk hreload
                  rw [nextIntegerRange_eq_none_iff hc] at hnext
                  refine iff_of_false (hlog ▸ not_nil_perm_rowsIn hint hmem hcurrent) fun h => ?_
                  rw [iterations_cons hreload, List.take_succ_cons, List.map_cons,
                    reachesWithin_cons hcurrent (List.forall_mem_map.mpr (hpos hc answers))] at h
                  omega
              | @last _ lo hi _ hreload hnext hlog hloaded hmax =>
                  obtain ⟨rfl, hc, -, hend, hhi⟩ := range_of_iteration hchunk hreload hnext
                  obtain rfl : hi = max := hi_eq_max hc hhi hmax
                  rw [hlog, hload.landed _ _ hloaded, iterations_cons hreload, List.take_succ_cons,
                    List.map_cons]
                  exact last_range_perm_iff hint hmem hupper (hpos hc answers) hcurrent
                    (by omega) hend
          | next log s' =>
              rw [hstep] at hiter hok
              change (Outcome.after _ log).landed.Perm _ ↔ _
              change (loop _ _ n s' answers).error = none at hok
              rw [landed_after]
              cases hiter with
              | @next _ lo hi c hreload hnext hlog hloaded hmax =>
                  obtain ⟨rfl, hc, -, hend, hhi⟩ := range_of_iteration hchunk hreload hnext
                  rw [Int64.le_iff_toInt_le, Int.not_le] at hmax
                  have hsucc := toInt_succ hmax
                  have hcInt := Int64.le_iff_toInt_le.mp hc
                  rw [show (1 : Int64).toInt = 1 from rfl] at hcInt
                  have hstart : (hi + 1).toInt = s.current.toInt + c.toInt := by omega
                  have hle : (hi + 1).toInt ≤ max.toInt := by omega
                  have htail := ih ⟨hi + 1, c⟩ hc hle answers hok
                  have hlanded : ∀ row ∈ (loop RangeState.chunk (rangeStep load t.rowsIn site max) n
                      ⟨hi + 1, c⟩ answers).landed,
                      row ∈ t.source ∧ keyBetween t (hi + 1).toInt max.toInt row :=
                    landed_rangeLoop_ge hint hload ⟨hi + 1, c⟩ hc answers
                  rw [hlog, hload.landed _ _ hloaded, iterations_cons hreload, List.take_succ_cons,
                    List.map_cons]
                  exact range_append_perm_iff hint (hpos hc answers) hcInt (by omega) hstart hle
                    hlanded htail

end RangeLoop

end SqlOptima.TransferRanges
