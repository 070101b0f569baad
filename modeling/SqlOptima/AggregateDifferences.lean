import SqlOptima.TableValidators

namespace SqlOptima.AggregateDifferences

open DoubleRounding ValidationEngine TableValidators

/-!
# What a passed aggregate or chunk validation says
-/

section Comparison

variable {V : Type}

/-- An aggregate on both sides, with the test for two values of it. -/
structure Comparison (V : Type) where
  source : Option V
  target : Option V
  close : V → V → Bool

namespace Comparison

variable (c : Comparison V)

/-- Both are null, or both are values within the tolerance. -/
def Agree : Prop :=
  (c.source = none ∧ c.target = none) ∨
    ∃ s t, c.source = some s ∧ c.target = some t ∧ c.close s t = true

def NullDifference : Prop := c.source.isNone ≠ c.target.isNone

def ValueDifference : Prop :=
  ∃ s t, c.source = some s ∧ c.target = some t ∧ c.close s t = false

variable {c}

theorem agree_iff : c.Agree ↔ ¬ c.NullDifference ∧ ¬ c.ValueDifference := by
  obtain ⟨source, target, close⟩ := c
  cases source with
  | none =>
      cases target with
      | none => simp [Agree, NullDifference, ValueDifference]
      | some t => simp [Agree, NullDifference, ValueDifference]
  | some s =>
      cases target with
      | none => simp [Agree, NullDifference, ValueDifference]
      | some t => simp [Agree, NullDifference, ValueDifference]

end Comparison

end Comparison

section Aggregate

variable {V : Type} [DecidableEq V] (py : Conversions V) (answers : AggregateAnswers V)
variable (tableName schema targetSchema : String) (aggregateColumns : Option (List String))

def aggregateComparison (src tgt : AggregateRow V) (key : AggregateKey) : Comparison V :=
  ⟨src.get key, tgt.get key, aggregateValuesMatch py key⟩

/-- The aggregates of a column, where both queries give a row. -/
def Rows (col : String × Nat) (src tgt : AggregateRow V) : Prop :=
  firstRow (answers.source col.2) = some src ∧
    getAggregatesTarget answers targetSchema tableName col.1 col.2 = some tgt

/-- The columns with their places in the list. -/
def checked : List (String × Nat) :=
  (aggregateColumns.getD (detectNumericColumns answers)).zipIdx

/-- Only what agrees is reported as passed. -/
def AggregateSound : Prop :=
  (validateAggregates py answers tableName schema targetSchema aggregateColumns).status = .passed →
    ∀ col ∈ checked answers aggregateColumns, ∃ src tgt,
      Rows answers tableName targetSchema col src tgt ∧
        ∀ key, (aggregateComparison py src tgt key).Agree

/-- An aggregate that is null on one side only does not stand alone: a query of some column failed,
or two values differ. -/
def AggregateGuarded : Prop :=
  (∃ col ∈ checked answers aggregateColumns, ∃ src tgt,
      Rows answers tableName targetSchema col src tgt ∧
        ∃ key, (aggregateComparison py src tgt key).NullDifference) →
    ∃ col ∈ checked answers aggregateColumns, ∀ src tgt,
      Rows answers tableName targetSchema col src tgt →
        ∃ key, (aggregateComparison py src tgt key).ValueDifference

variable {py answers tableName schema targetSchema aggregateColumns}

omit [DecidableEq V] in
theorem Rows.unique {col : String × Nat} {src tgt src' tgt' : AggregateRow V}
    (h : Rows answers tableName targetSchema col src tgt)
    (h' : Rows answers tableName targetSchema col src' tgt') : src = src' ∧ tgt = tgt' :=
  ⟨Option.some.inj (h.1.symm.trans h'.1), Option.some.inj (h.2.symm.trans h'.2)⟩

theorem aggregateMismatch_eq_none {src tgt : AggregateRow V} {key : AggregateKey} :
    aggregateMismatch py src tgt key = none ↔
      ¬ (aggregateComparison py src tgt key).ValueDifference := by
  rw [aggregateMismatch, aggregateComparison]
  split
  · next s t hs ht =>
      rw [Comparison.ValueDifference, hs, ht]
      cases hclose : aggregateValuesMatch py key s t with
      | false => simp [hclose]
      | true => simp [hclose]
  · next hnone =>
      refine iff_of_true rfl ?_
      rintro ⟨s, t, hs, ht, -⟩
      exact hnone s t hs ht

theorem mismatches_eq_nil {src tgt : AggregateRow V} :
    [AggregateKey.min, .max, .sum, .avg].filterMap (aggregateMismatch py src tgt) = [] ↔
      ∀ key, ¬ (aggregateComparison py src tgt key).ValueDifference := by
  rw [List.filterMap_eq_nil_iff]
  constructor
  · intro h key
    refine aggregateMismatch_eq_none.mp (h key ?_)
    cases key with
    | min => decide
    | max => decide
    | sum => decide
    | avg => decide
  · exact fun h key _ => aggregateMismatch_eq_none.mpr (h key)

theorem columnResult_passed {col : String × Nat} :
    (columnResult py answers tableName schema targetSchema col.1 col.2).1 = .passed ↔
      ∃ src tgt, Rows answers tableName targetSchema col src tgt ∧
        ∀ key, ¬ (aggregateComparison py src tgt key).ValueDifference := by
  rw [columnResult]
  split
  · next src tgt hsrc htgt =>
      have hrows : (∃ src' tgt', Rows answers tableName targetSchema col src' tgt' ∧
          ∀ key, ¬ (aggregateComparison py src' tgt' key).ValueDifference) ↔
          ∀ key, ¬ (aggregateComparison py src tgt key).ValueDifference := by
        refine ⟨?_, fun h => ⟨src, tgt, ⟨hsrc, htgt⟩, h⟩⟩
        rintro ⟨src', tgt', hrows, h⟩
        obtain ⟨rfl, rfl⟩ := Rows.unique ⟨hsrc, htgt⟩ hrows
        exact h
      rw [hrows, ← mismatches_eq_nil]
      split
      · next hnil => exact iff_of_true rfl hnil
      · next hne => exact iff_of_false nofun hne
  · next hnone =>
      refine iff_of_false nofun ?_
      rintro ⟨src, tgt, ⟨hsrc, htgt⟩, -⟩
      exact hnone src tgt hsrc htgt

theorem columnResult_issues {col : String × Nat}
    (h : (columnResult py answers tableName schema targetSchema col.1 col.2).1 = .passed) :
    (columnResult py answers tableName schema targetSchema col.1 col.2).2 = [] := by
  obtain ⟨src, tgt, ⟨hsrc, htgt⟩, hnone⟩ := columnResult_passed.mp h
  rw [columnResult, hsrc, htgt]
  dsimp only
  rw [mismatches_eq_nil.mpr hnone]

theorem validateAggregates_passed :
    (validateAggregates py answers tableName schema targetSchema aggregateColumns).status =
        .passed ↔
      checked answers aggregateColumns ≠ [] ∧
        ∀ col ∈ checked answers aggregateColumns,
          (columnResult py answers tableName schema targetSchema col.1 col.2).1 = .passed := by
  rw [checked, validateAggregates]
  dsimp only
  split
  · next hnil => exact iff_of_false nofun fun h => h.1 (by rw [hnil]; rfl)
  · next hne =>
      have hne' : (aggregateColumns.getD (detectNumericColumns answers)).zipIdx ≠ [] :=
        fun hzip => hne (List.zipIdx_eq_nil_iff.mp hzip)
      rw [and_iff_right hne']
      constructor
      · intro hpassed col hcol
        split at hpassed
        · cases hpassed
        · next hany =>
            rw [List.any_map, List.any_eq_true] at hany
            cases hstatus :
              (columnResult py answers tableName schema targetSchema col.1 col.2).1 with
            | passed => rfl
            | failed => exact absurd ⟨col, hcol, by simp [hstatus]⟩ hany
            | error => exact absurd ⟨col, hcol, by simp [hstatus]⟩ hany
      · intro hall
        rw [if_neg, if_pos]
        · rw [List.flatMap_eq_nil_iff]
          intro result hresult
          obtain ⟨col, hcol, rfl⟩ := List.mem_map.mp hresult
          exact columnResult_issues (hall col hcol)
        · rw [List.any_map, List.any_eq_true]
          rintro ⟨col, hcol, hbad⟩
          simp [hall col hcol] at hbad

/-- Passed is right exactly when no aggregate is null on one side alone, or something else is
found. -/
theorem aggregateSound_iff :
    AggregateSound py answers tableName schema targetSchema aggregateColumns ↔
      AggregateGuarded py answers tableName targetSchema aggregateColumns := by
  rw [AggregateSound, AggregateGuarded, validateAggregates_passed]
  simp only [columnResult_passed]
  constructor
  · rintro hsound ⟨col, hcol, src, tgt, hrows, key, hnull⟩
    by_contra hnone
    push Not at hnone
    obtain ⟨src', tgt', hrows', hagree⟩ := hsound ⟨List.ne_nil_of_mem hcol, hnone⟩ col hcol
    obtain ⟨rfl, rfl⟩ := hrows.unique hrows'
    exact (Comparison.agree_iff.mp (hagree key)).1 hnull
  · rintro hguarded ⟨-, hall⟩ col hcol
    obtain ⟨src, tgt, hrows, hvalues⟩ := hall col hcol
    refine ⟨src, tgt, hrows, fun key => Comparison.agree_iff.mpr ⟨fun hnull => ?_, hvalues key⟩⟩
    obtain ⟨col', hcol', hdiffers⟩ := hguarded ⟨col, hcol, src, tgt, hrows, key, hnull⟩
    obtain ⟨src', tgt', hrows', hvalues'⟩ := hall col' hcol'
    obtain ⟨key', hdiffer⟩ := hdiffers src' tgt' hrows'
    exact hvalues' key' hdiffer

end Aggregate

section Chunk

variable {V : Type} (py : Conversions V) (answers : ChunkAnswers V) (request : ChunkRequest V)

/-- The aggregates of a chunk beside its count; the ones of the key for a single key column. -/
def chunkComparisons (src tgt : ChunkRow V) : List (Comparison V) :=
  (if request.pkColumns.length = 1 then
    [⟨src.minPk, tgt.minPk, fun sv tv => py.str sv = py.str tv⟩,
      ⟨src.maxPk, tgt.maxPk, fun sv tv => py.str sv = py.str tv⟩]
    else []) ++
  request.numericColumns.map fun col =>
    ⟨(src.sums.lookup col).join, (tgt.sums.lookup col).join, sumsMatch py⟩

def ChunkRows (src tgt : ChunkRow V) : Prop :=
  querySource answers request = some src ∧ queryTarget answers request = .ok (some tgt)

def ChunkSound : Prop :=
  ∀ result, validateChunk py answers request = .ok result → result.status = .passed →
    ∃ src tgt, ChunkRows answers request src tgt ∧ src.cnt = tgt.cnt ∧
      ∀ c ∈ chunkComparisons py request src tgt, c.Agree

def ChunkGuarded : Prop :=
  ∀ src tgt, ChunkRows answers request src tgt →
    (∃ c ∈ chunkComparisons py request src tgt, c.NullDifference) →
      src.cnt ≠ tgt.cnt ∨ ∃ c ∈ chunkComparisons py request src tgt, c.ValueDifference

variable {py answers request}

theorem ChunkRows.unique {src tgt src' tgt' : ChunkRow V} (h : ChunkRows answers request src tgt)
    (h' : ChunkRows answers request src' tgt') : src = src' ∧ tgt = tgt' :=
  ⟨Option.some.inj (h.1.symm.trans h'.1), Option.some.inj (Except.ok.inj (h.2.symm.trans h'.2))⟩

theorem boundMismatch_eq_nil {agg : String} {sv tv : Option V} :
    boundMismatch py agg sv tv = [] ↔
      ¬ (⟨sv, tv, fun s t => py.str s = py.str t⟩ : Comparison V).ValueDifference := by
  unfold boundMismatch
  rw [Comparison.ValueDifference]
  split
  · next s t =>
      by_cases hstr : py.str s = py.str t
      · simp [hstr]
      · simp [hstr]
  · next hnone =>
      refine iff_of_true rfl ?_
      rintro ⟨s, t, hs, ht, -⟩
      exact hnone s t hs ht

theorem sumMismatch_eq_nil {src tgt : ChunkRow V} {col : String} :
    sumMismatch py src tgt col = [] ↔
      ¬ (⟨(src.sums.lookup col).join, (tgt.sums.lookup col).join, sumsMatch py⟩ :
        Comparison V).ValueDifference := by
  rw [sumMismatch, Comparison.ValueDifference]
  split
  · next s t hs ht =>
      rw [hs, ht]
      cases hclose : sumsMatch py s t with
      | false => simp [hclose]
      | true => simp [hclose]
  · next hnone =>
      refine iff_of_true rfl ?_
      rintro ⟨s, t, hs, ht, -⟩
      exact hnone s t hs ht

theorem chunkMismatches_eq_nil {src tgt : ChunkRow V} :
    chunkMismatches py request src tgt = [] ↔
      src.cnt = tgt.cnt ∧ ∀ c ∈ chunkComparisons py request src tgt, ¬ c.ValueDifference := by
  rw [chunkMismatches, chunkComparisons, List.append_eq_nil_iff, List.append_eq_nil_iff,
    List.forall_mem_append, List.forall_mem_map, List.flatMap_eq_nil_iff, and_assoc]
  refine and_congr ?_ (and_congr ?_ ?_)
  · split
    · next heq => exact iff_of_true rfl heq
    · next hne => exact iff_of_false nofun hne
  · split
    · rw [List.append_eq_nil_iff, boundMismatch_eq_nil, boundMismatch_eq_nil,
        List.forall_mem_cons, List.forall_mem_singleton]
    · exact iff_of_true rfl nofun
  · exact forall₂_congr fun col _ => sumMismatch_eq_nil

theorem validateChunk_passed :
    (∃ result, validateChunk py answers request = .ok result ∧ result.status = .passed) ↔
      ∃ src tgt, ChunkRows answers request src tgt ∧ chunkMismatches py request src tgt = [] := by
  unfold validateChunk ChunkRows
  cases htgt : queryTarget answers request with
  | error e =>
      refine iff_of_false ?_ ?_
      · rintro ⟨result, hresult, -⟩
        cases hresult
      · rintro ⟨src, tgt, ⟨-, htgt'⟩, -⟩
        cases htgt'
  | ok row =>
      cases hsrc : querySource answers request with
      | none =>
          refine iff_of_false ?_ ?_
          · rintro ⟨result, hresult, hpassed⟩
            cases hresult
            cases hpassed
          · rintro ⟨src, tgt, ⟨hsrc', -⟩, -⟩
            cases hsrc'
      | some src =>
          cases row with
          | none =>
              refine iff_of_false ?_ ?_
              · rintro ⟨result, hresult, hpassed⟩
                cases hresult
                cases hpassed
              · rintro ⟨src', tgt, ⟨-, htgt'⟩, -⟩
                cases htgt'
          | some tgt =>
              constructor
              · rintro ⟨result, hresult, hpassed⟩
                obtain rfl := Except.ok.inj hresult
                refine ⟨src, tgt, ⟨rfl, rfl⟩, ?_⟩
                by_contra hne
                dsimp only at hpassed
                rw [if_neg hne] at hpassed
                cases hpassed
              · rintro ⟨src', tgt', ⟨hsrc', htgt'⟩, hnil⟩
                obtain rfl := Option.some.inj hsrc'
                obtain rfl := Option.some.inj (Except.ok.inj htgt')
                exact ⟨_, rfl, if_pos hnil⟩

/-- The same for a chunk. -/
theorem chunkSound_iff : ChunkSound py answers request ↔ ChunkGuarded py answers request := by
  constructor
  · intro hsound src tgt hrows hnull
    by_contra hnone
    push Not at hnone
    obtain ⟨result, hresult, hpassed⟩ := validateChunk_passed.mpr
      ⟨src, tgt, hrows, chunkMismatches_eq_nil.mpr hnone⟩
    obtain ⟨src', tgt', hrows', -, hagree⟩ := hsound result hresult hpassed
    obtain ⟨rfl, rfl⟩ := hrows.unique hrows'
    obtain ⟨c, hc, hdifference⟩ := hnull
    exact (Comparison.agree_iff.mp (hagree c hc)).1 hdifference
  · intro hguarded result hresult hpassed
    obtain ⟨src, tgt, hrows, hnil⟩ := validateChunk_passed.mp ⟨result, hresult, hpassed⟩
    obtain ⟨hcount, hvalues⟩ := chunkMismatches_eq_nil.mp hnil
    refine ⟨src, tgt, hrows, hcount, fun c hc => Comparison.agree_iff.mpr ⟨?_, hvalues c hc⟩⟩
    intro hnull
    rcases hguarded src tgt hrows ⟨c, hc, hnull⟩ with hcount' | ⟨c', hc', hdiffer⟩
    · exact hcount' hcount
    · exact hvalues c' hc' hdiffer

end Chunk

section Examples

def wholeNumbers : Conversions Int where
  float n := some (.finite n)
  str n := toString n

/-- Two orders, and a target where the amount is null in both. -/
def lostAmounts : AggregateAnswers Int where
  columns := .ok [("Amount", "int")]
  source _ := .ok [⟨some 10, some 20, some 30, some 15⟩]
  target _ := .ok [⟨none, none, none, none⟩]

def lostAmountsChunk : ChunkAnswers Int where
  source := .ok [⟨2, some 1, some 2, [("Amount", some 30)]⟩]
  target := .ok [⟨2, some 1, some 2, [("Amount", none)]⟩]

def orderChunk : ChunkRequest Int where
  tableName := "Orders"
  pkColumns := ["Id"]
  pkStart := some 1
  pkEnd := some 2
  schema := "dbo"
  targetSchema := "public"
  numericColumns := ["Amount"]

theorem lostAmounts_rows : Rows lostAmounts "Orders" "public" ("Amount", 0)
    ⟨some 10, some 20, some 30, some 15⟩ ⟨none, none, none, none⟩ := ⟨rfl, rfl⟩

theorem lostAmountsChunk_rows : ChunkRows lostAmountsChunk orderChunk
    ⟨2, some 1, some 2, [("Amount", some 30)]⟩ ⟨2, some 1, some 2, [("Amount", none)]⟩ := ⟨rfl, rfl⟩

end Examples

end SqlOptima.AggregateDifferences
