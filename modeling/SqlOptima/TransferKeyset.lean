import SqlOptima.TransferRanges

namespace SqlOptima.TransferKeyset

open TransferCommands TransferKeys TransferRange TransferCopier
open TransferRanges (iterations iterations_cons one_le_of_reload)

section Iteration

variable {Row : Type} {sprint : Option DriverValue → List UInt8} {key : Row → Option DriverValue}

/-- The guard on a batch's last key: it compares above the key before it. -/
def Advances (sprint : Option DriverValue → List UInt8) (last : Option (Option DriverValue))
    (k : Option DriverValue) : Prop :=
  ∀ l, last = some l → anyGreater sprint k l = true

/-- What an iteration of the keyset loop does, with the batch that it reads. -/
inductive Iteration (sprint : Option DriverValue → List UInt8) (key : Row → Option DriverValue)
    (batch : Int64 → List Row) (s : KeysetState) (a : ChunkAnswer) :
    Step Row KeysetState → Prop where
  | refused {log : List (Event Row)} {e : CopyError} {c : Int64} (hlog : rowsOf log = []) :
      Iteration sprint key batch s a (.finish log (some e) c)
  | failed {log : List (Event Row)} {c : Int64} (hlog : rowsOf log = batch c) :
      Iteration sprint key batch s a (.finish log (some .failed) c)
  | ended {log : List (Event Row)} {c : Int64} (hlog : rowsOf log = [])
      (hreload : reloadChunkSize s.chunk a.reload = some c) (hbatch : batch c = []) :
      Iteration sprint key batch s a (.finish log none c)
  | stuck {log : List (Event Row)} {c : Int64} {row : Row} (hlog : rowsOf log = batch c)
      (hreload : reloadChunkSize s.chunk a.reload = some c) (hrow : (batch c).getLast? = some row)
      (hstuck : ¬ Advances sprint s.last (key row)) :
      Iteration sprint key batch s a (.finish log none c)
  | next {log : List (Event Row)} {c : Int64} {row : Row} (hlog : rowsOf log = batch c)
      (hreload : reloadChunkSize s.chunk a.reload = some c) (hrow : (batch c).getLast? = some row)
      (hadvances : Advances sprint s.last (key row)) :
      Iteration sprint key batch s a (.next log ⟨some (key row), c⟩)

theorem iteration_keysetStep (sprint : Option DriverValue → List UInt8)
    (key : Row → Option DriverValue) (rowsAfter : Option (Option DriverValue) → List Row)
    (s : KeysetState) (a : ChunkAnswer) :
    Iteration sprint key (fun c => (rowsAfter s.last).take c.toInt.toNat) s a
      (keysetStep sprint key rowsAfter s a) := by
  have hcheck : rowsOf (checkEvents .stream (checkBeforeChunk a.polls) : List (Event Row)) = [] :=
    rowsOf_checkEvents .stream _
  have hlog : ∀ rs : List Row, rowsOf
      (checkEvents .stream (checkBeforeChunk a.polls) ++ [Event.rows rs]) = rs := by
    intro rs
    rw [rowsOf_append, hcheck, rowsOf_rows, List.nil_append]
  simp only [keysetStep, guardedStep]
  split
  · exact .refused hcheck
  · exact .refused hcheck
  · split
    · exact .refused hcheck
    · next c hreload =>
        split
        · exact .refused hcheck
        · split
          · next hbatch => exact .ended hcheck hreload (List.getLast?_eq_none_iff.mp hbatch)
          · next row hrow =>
              split
              · exact .failed (hlog _)
              · split
                · next hstuck =>
                    refine .stuck (hlog _) hreload hrow fun hadvances => ?_
                    obtain ⟨l, hl, hnot⟩ := (Option.any_eq_true _ _).mp hstuck
                    rw [hadvances l hl] at hnot
                    exact absurd hnot (by decide)
                · next hadvances =>
                    refine .next (hlog _) hreload hrow fun l hl => ?_
                    by_contra hnot
                    apply hadvances
                    rw [hl, Option.any_some, Bool.not_eq_true']
                    exact Bool.eq_false_of_not_eq_true hnot

end Iteration

section Reach

variable {Row : Type} {sql : SqlOrder} {t : Tables Row sql}
  {sprint : Option DriverValue → List UInt8}

def keyBelow (t : Tables Row sql) (a b : Row) : Prop :=
  ∃ k k', t.key a = some k ∧ t.key b = some k' ∧ sql.lt k k' = true

/-- The batches, of the given sizes, come to the end of the rows: each that leaves rows behind ends
at a key strictly below the next row's, and above the last batch's key for the worker. -/
def BatchesReach (sprint : Option DriverValue → List UInt8) (t : Tables Row sql) :
    List Int → Option (Option DriverValue) → List Row → Prop
  | [], _, rows => rows = []
  | c :: sizes, last, rows =>
      rows.drop c.toNat = [] ∨
        ∃ final next, (rows.take c.toNat).getLast? = some final ∧
          (rows.drop c.toNat).head? = some next ∧ keyBelow t final next ∧
          Advances sprint last (t.key final) ∧
          BatchesReach sprint t sizes (some (t.key final)) (rows.drop c.toNat)

def above (t : Tables Row sql) (last : Option DriverValue) (row : Row) : Bool :=
  (t.key row).any fun k => last.any fun l => sql.lt l k

theorem above_iff {last : Option DriverValue} {row : Row} :
    above t last row = true ↔ ∃ l k, last = some l ∧ t.key row = some k ∧ sql.lt l k = true := by
  unfold above
  cases last with
  | none => cases t.key row <;> simp
  | some l => cases t.key row <;> simp

theorem mem_rowsAfter_some {last : Option DriverValue} {row : Row} :
    row ∈ t.rowsAfter (some last) ↔ row ∈ t.source ∧ above t last row = true :=
  List.mem_filter

theorem ordered_rowsAfter (last : Option (Option DriverValue)) :
    (t.rowsAfter last).Pairwise fun a b => sql.leKey (t.key a) (t.key b) = true := by
  cases last with
  | none => exact t.ordered
  | some last => exact t.ordered.filter _

/-- No row of a batch is above its last row. -/
theorem not_above_final {batch : List Row} {final row : Row}
    (hordered : batch.Pairwise fun a b => sql.leKey (t.key a) (t.key b) = true)
    (hfinal : batch.getLast? = some final) (hrow : row ∈ batch) :
    ¬ above t (t.key final) row = true := by
  intro h
  obtain ⟨l, k, hl, hk, hlt⟩ := above_iff.mp h
  obtain ⟨front, rfl⟩ := List.getLast?_eq_some_iff.mp hfinal
  rcases List.mem_append.mp hrow with hmem | hmem
  · have hle := (List.pairwise_append.mp hordered).2.2 row hmem final (List.mem_singleton_self _)
    rw [hk, hl] at hle
    exact SqlOrder.lt_irrefl_of_le hle hlt
  · obtain rfl := List.mem_singleton.mp hmem
    obtain rfl : l = k := by simpa using hl.symm.trans hk
    exact SqlOrder.lt_irrefl_of_le ((sql.total l l).elim id id) hlt

/-- Past the last key of a batch lie the rows behind the batch whose key is above it. -/
theorem rowsAfter_batch {last : Option (Option DriverValue)} {n : Nat} {final : Row}
    (hfinal : ((t.rowsAfter last).take n).getLast? = some final) :
    t.rowsAfter (some (t.key final)) =
      ((t.rowsAfter last).drop n).filter (above t (t.key final)) := by
  have hmem : final ∈ t.rowsAfter last :=
    List.mem_of_mem_take (List.mem_of_getLast? hfinal)
  have hrows : t.rowsAfter (some (t.key final)) =
      (t.rowsAfter last).filter (above t (t.key final)) := by
    cases last with
    | none => rfl
    | some last =>
        obtain ⟨l', l, hl', hl, hlt'⟩ := above_iff.mp (mem_rowsAfter_some.mp hmem).2
        change t.source.filter _ = (t.source.filter (above t last)).filter _
        rw [List.filter_filter]
        refine List.filter_congr fun row _ => ?_
        rw [Bool.eq_iff_iff, Bool.and_eq_true]
        refine ⟨fun h => ⟨h, ?_⟩, And.left⟩
        obtain ⟨l₂, k, hl₂, hk, hlt⟩ := above_iff.mp h
        obtain rfl : l = l₂ := by simpa using hl.symm.trans hl₂
        exact above_iff.mpr
          ⟨l', k, hl', hk, SqlOrder.lt_of_lt_of_le hlt' (SqlOrder.le_of_lt hlt)⟩
  have hbatch : ((t.rowsAfter last).take n).filter (above t (t.key final)) = [] := by
    rw [List.filter_eq_nil_iff]
    exact fun row hrow =>
      not_above_final ((ordered_rowsAfter last).sublist (List.take_sublist _ _)) hfinal hrow
  rw [hrows]
  conv_lhs => rw [← List.take_append_drop n (t.rowsAfter last)]
  rw [List.filter_append, hbatch, List.nil_append]

theorem filter_above_of_keyBelow {rest : List Row} {final next : Row}
    (hordered : rest.Pairwise fun a b => sql.leKey (t.key a) (t.key b) = true)
    (hnext : rest.head? = some next) (hbelow : keyBelow t final next) :
    rest.filter (above t (t.key final)) = rest := by
  obtain ⟨tail, rfl⟩ := List.head?_eq_some_iff.mp hnext
  obtain ⟨l, k, hl, hk, hlt⟩ := hbelow
  refine List.filter_eq_self.mpr fun row hrow => above_iff.mpr ?_
  rcases List.mem_cons.mp hrow with rfl | hmem
  · exact ⟨l, k, hl, hk, hlt⟩
  · have hle := List.rel_of_pairwise_cons hordered hmem
    rw [hk] at hle
    cases hrowKey : t.key row with
    | none => rw [hrowKey] at hle; cases hle
    | some k' =>
        rw [hrowKey] at hle
        exact ⟨l, k', hl, rfl, SqlOrder.lt_of_lt_of_le hlt hle⟩

end Reach

section KeysetLoop

variable {Row : Type} {sql : SqlOrder} {t : Tables Row sql}
  {sprint : Option DriverValue → List UInt8}

theorem landed_keysetLoop_mem (n : Nat) (s : KeysetState) (answers : List ChunkAnswer) :
    ∀ row ∈ (loop KeysetState.chunk (keysetStep sprint t.key t.rowsAfter) n s answers).landed,
      row ∈ t.rowsAfter s.last := by
  refine forall_landed_loop
    (I := fun s' => ∀ row ∈ t.rowsAfter s'.last, row ∈ t.rowsAfter s.last) ?_ ?_ n
    (fun _ h => h) answers
  · intro s' a hs row hrow
    have hiter := iteration_keysetStep sprint t.key t.rowsAfter s' a
    cases hstep : keysetStep sprint t.key t.rowsAfter s' a with
    | finish log error c =>
        rw [hstep] at hiter hrow
        cases hiter with
        | refused hlog => rw [Step.log, hlog] at hrow; cases hrow
        | ended hlog => rw [Step.log, hlog] at hrow; cases hrow
        | failed hlog => rw [Step.log, hlog] at hrow; exact hs row (List.mem_of_mem_take hrow)
        | stuck hlog => rw [Step.log, hlog] at hrow; exact hs row (List.mem_of_mem_take hrow)
    | next log s'' =>
        rw [hstep] at hiter hrow
        cases hiter with
        | next hlog => rw [Step.log, hlog] at hrow; exact hs row (List.mem_of_mem_take hrow)
  · intro s' a log s'' hs hstep
    have hiter := iteration_keysetStep sprint t.key t.rowsAfter s' a
    rw [hstep] at hiter
    cases hiter with
    | next hlog hreload hrow hadvances =>
        intro row hmem
        change row ∈ t.rowsAfter (some _) at hmem
        rw [rowsAfter_batch hrow] at hmem
        exact hs row (List.mem_of_mem_drop (List.mem_filter.mp hmem).1)

theorem perm_take_iff {rows : List Row} {k : Nat} :
    (rows.take k).Perm rows ↔ rows.drop k = [] := by
  constructor
  · intro h
    have hlength := h.length_eq
    rw [List.length_take] at hlength
    exact List.drop_eq_nil_iff.mpr (by omega)
  · intro h
    rw [List.take_of_length_le (List.drop_eq_nil_iff.mp h)]

theorem batch_append_perm_iff {last : Option (Option DriverValue)} {c : Int} {sizes : List Int}
    {row : Row} {landed : List Row}
    (hrow : ((t.rowsAfter last).take c.toNat).getLast? = some row)
    (hadvances : Advances sprint last (t.key row))
    (hsub : ∀ r ∈ landed, r ∈ t.rowsAfter (some (t.key row)))
    (htail : landed.Perm (t.rowsAfter (some (t.key row))) ↔
      BatchesReach sprint t sizes (some (t.key row)) (t.rowsAfter (some (t.key row)))) :
    ((t.rowsAfter last).take c.toNat ++ landed).Perm (t.rowsAfter last) ↔
      BatchesReach sprint t (c :: sizes) last (t.rowsAfter last) := by
  have hordered : ((t.rowsAfter last).drop c.toNat).Pairwise
      fun a b => sql.leKey (t.key a) (t.key b) = true :=
    (ordered_rowsAfter last).sublist (List.drop_sublist _ _)
  rw [rowsAfter_batch hrow] at hsub htail
  have hperm : ((t.rowsAfter last).take c.toNat ++ landed).Perm (t.rowsAfter last) ↔
      landed.Perm ((t.rowsAfter last).drop c.toNat) := by
    have h : ((t.rowsAfter last).take c.toNat ++ landed).Perm
        ((t.rowsAfter last).take c.toNat ++ (t.rowsAfter last).drop c.toNat) ↔
          landed.Perm ((t.rowsAfter last).drop c.toNat) :=
      List.perm_append_left_iff _
    rwa [List.take_append_drop] at h
  rw [hperm, BatchesReach]
  cases hrest : (t.rowsAfter last).drop c.toNat with
  | nil =>
      rw [hrest] at hsub
      refine iff_of_true ?_ (Or.inl rfl)
      rw [List.eq_nil_iff_forall_not_mem.mpr fun r hr => List.not_mem_nil (hsub r hr)]
  | cons next tail =>
      rw [hrest] at hsub htail hordered
      by_cases hbelow : keyBelow t row next
      · rw [filter_above_of_keyBelow hordered rfl hbelow] at htail
        rw [htail]
        constructor
        · exact fun h => Or.inr ⟨row, next, hrow, rfl, hbelow, hadvances, h⟩
        · rintro (h | ⟨final, next', hfinal, -, -, -, h⟩)
          · cases h
          · obtain rfl : row = final := Option.some.inj (hrow.symm.trans hfinal)
            exact h
      · refine iff_of_false (fun h => hbelow ?_) ?_
        · have hmem := hsub next (h.mem_iff.mpr List.mem_cons_self)
          exact above_iff.mp (List.mem_filter.mp hmem).2
        · rintro (h | ⟨final, next', hfinal, hnext, hbelow', -⟩)
          · cases h
          · obtain rfl : row = final := Option.some.inj (hrow.symm.trans hfinal)
            obtain rfl : next = next' := Option.some.inj hnext
            exact hbelow hbelow'

/-- The loop has landed the rows past its key exactly when its batches reach their end. -/
theorem landed_keysetLoop_perm_iff (n : Nat) (s : KeysetState) (hchunk : 1 ≤ s.chunk)
    (answers : List ChunkAnswer)
    (hok : (loop KeysetState.chunk (keysetStep sprint t.key t.rowsAfter) n s answers).error =
      none) :
    (loop KeysetState.chunk (keysetStep sprint t.key t.rowsAfter) n s answers).landed.Perm
        (t.rowsAfter s.last) ↔
      BatchesReach sprint t (((iterations s.chunk answers).take n).map Prod.fst) s.last
        (t.rowsAfter s.last) := by
  induction n generalizing s answers with
  | zero => exact List.nil_perm
  | succ n ih =>
      cases answers with
      | nil => cases hok
      | cons a answers =>
          rw [loop] at hok ⊢
          have hiter := iteration_keysetStep sprint t.key t.rowsAfter s a
          cases hstep : keysetStep sprint t.key t.rowsAfter s a with
          | finish log error c =>
              rw [hstep] at hiter hok
              change error = none at hok
              subst hok
              change (rowsOf log).Perm _ ↔ _
              cases hiter with
              | ended hlog hreload hbatch =>
                  have hc := Int64.le_iff_toInt_le.mp (one_le_of_reload hchunk hreload)
                  have hone : (1 : Int64).toInt = 1 := rfl
                  have hnil : t.rowsAfter s.last = [] := by
                    rcases List.take_eq_nil_iff.mp hbatch with h | h
                    · omega
                    · exact h
                  rw [hlog, iterations_cons hreload, hnil]
                  exact iff_of_true (List.Perm.refl _) (Or.inl List.drop_nil)
              | @stuck _ c row hlog hreload hrow hstuck =>
                  rw [hlog, iterations_cons hreload, perm_take_iff]
                  refine ⟨Or.inl, fun h => h.resolve_right ?_⟩
                  rintro ⟨final, next, hfinal, -, -, hadvances, -⟩
                  obtain rfl : row = final := Option.some.inj (hrow.symm.trans hfinal)
                  exact hstuck hadvances
          | next log s' =>
              rw [hstep] at hiter hok
              change (Outcome.after _ log).landed.Perm _ ↔ _
              change (loop _ _ n s' answers).error = none at hok
              rw [landed_after]
              cases hiter with
              | @next _ c row hlog hreload hrow hadvances =>
                  rw [hlog, iterations_cons hreload]
                  exact batch_append_perm_iff hrow hadvances (landed_keysetLoop_mem n _ answers)
                    (ih _ (one_le_of_reload hchunk hreload) answers hok)

end KeysetLoop

end SqlOptima.TransferKeyset
