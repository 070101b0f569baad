import Mathlib.Algebra.Order.Field.Rat
import Mathlib.Data.Rat.Floor
import Mathlib.Tactic.Linarith
import SqlOptima.ParallelMigration
import SqlOptima.TransitionSystem

namespace SqlOptima.ChunkSplitting

open ParallelMigration (ChunkBoundary)
open TransitionSystem (runSteps guarded length_le_of_decreasing)

/-!
# Splitting skewed chunks

A chunk that took too long is split at the midpoint of the keys it holds, as the server finds it.
-/

section Source

inductive ChunkColumnType
  | identityPk
  | bigintPk
  | datetimePk
  | rowversion
  | uuidPk
  | synthetic
  deriving DecidableEq

structure ChunkPlan where
  tableSchema : String
  tableName : String
  boundary : Option ChunkBoundary
  columnName : String
  columnType : ChunkColumnType
  chunkHash : String
  deriving DecidableEq

/-- The keys of a table, under a type of `_NUMERIC_TYPES`: a column of integers, or a `numeric` or
`decimal` one, of at most thirty digits, so that the server halves without rounding. -/
inductive KeyColumn
  | integers (keys : List Int)
  | decimals (keys : List ℚ)
  deriving DecidableEq

/-- What the midpoint query meets: the keys of the table, if the query runs at all. -/
structure KeySource where
  column : KeyColumn
  fails : Bool
  deriving DecidableEq

def Has (range : ChunkBoundary) (key : Int) : Prop := range.start ≤ key ∧ key ≤ range.stop

instance instDecidableHas (range : ChunkBoundary) (key : Int) : Decidable (Has range key) :=
  inferInstanceAs (Decidable (_ ∧ _))

/-- `BETWEEN` for the keys of a decimal column. -/
def Between (range : ChunkBoundary) (key : ℚ) : Prop := range.start ≤ key ∧ key ≤ range.stop

instance instDecidableBetween (range : ChunkBoundary) (key : ℚ) : Decidable (Between range key) :=
  inferInstanceAs (Decidable (_ ∧ _))

def extremes {α : Type} [Min α] [Max α] (keys : List α) : Option (α × α) :=
  keys.min?.bind fun least => keys.max?.map (least, ·)

/-- `MIN + (MAX - MIN) / 2` of the keys in the range; the division truncates on integers only. -/
def queryMidpoint (range : ChunkBoundary) : KeyColumn → Option ℚ
  | .integers keys => (extremes (keys.filter fun key => Has range key)).map fun ends =>
      ((ends.1 + (ends.2 - ends.1).tdiv 2 : Int) : ℚ)
  | .decimals keys => (extremes (keys.filter fun key => Between range key)).map fun ends =>
      ends.1 + (ends.2 - ends.1) / 2

/-- Without an answer the midpoint of the range itself, `//` rounding down. -/
def getMidpoint (source : KeySource) (range : ChunkBoundary) : ℚ :=
  (if source.fails then none else queryMidpoint range source.column).getD
    ((range.start + range.stop) / 2 : Int)

/-- `int()` drops the fraction. -/
def toInt (q : ℚ) : Int := if 0 ≤ q then ⌊q⌋ else ⌈q⌉

variable (sha256 : String → String)

def splitSkewedChunk (source : KeySource) (chunk : ChunkPlan) (schema table : String) :
    List ChunkPlan :=
  match chunk.boundary with
  | none => [chunk]
  | some range =>
      let mid := toInt (getMidpoint source range)
      let part := fun start stop : Int =>
        { chunk with
          tableSchema := schema
          tableName := table
          boundary := some ⟨start, stop⟩
          chunkHash := sha256 (schema ++ "." ++ table ++ ":" ++ toString start ++ ":" ++
            toString stop) }
      [part range.start mid, part (mid + 1) range.stop]

end Source

section Splitting

/-- Non-empty ranges that share no key and have the keys of the whole between them. -/
structure Partition (range : ChunkBoundary) (parts : List ChunkBoundary) : Prop where
  nonempty : ∀ part ∈ parts, part.start ≤ part.stop
  disjoint : parts.Pairwise fun part part' => ∀ key, ¬ (Has part key ∧ Has part' key)
  union : ∀ key, (∃ part ∈ parts, Has part key) ↔ Has range key

/-- The keys found leave nothing above the midpoint: the upper bound is the only one, or the bound is
not positive and the midpoint of decimal keys is less than one below it. -/
def AtTheEnd (range : ChunkBoundary) : KeyColumn → Prop
  | .integers keys => range.stop ∈ keys ∧ ∀ key ∈ keys, Has range key → key = range.stop
  | .decimals keys => ∃ least ∈ keys, ∃ greatest ∈ keys,
      (Between range least ∧ Between range greatest ∧
        ∀ key ∈ keys, Between range key → least ≤ key ∧ key ≤ greatest) ∧
      if 0 < range.stop then least = range.stop else 2 * (range.stop - 1) < least + greatest

instance instDecidableAtTheEnd (range : ChunkBoundary) : (column : KeyColumn) →
    Decidable (AtTheEnd range column)
  | .integers _ => inferInstanceAs (Decidable (_ ∧ _))
  | .decimals keys => inferInstanceAs (Decidable (∃ least ∈ keys, ∃ greatest ∈ keys,
      (Between range least ∧ Between range greatest ∧
        ∀ key ∈ keys, Between range key → least ≤ key ∧ key ≤ greatest) ∧
      if 0 < range.stop then least = range.stop else 2 * (range.stop - 1) < least + greatest))

/-- More than one key, and not all that the query finds at the upper bound. -/
def Divisible (source : KeySource) (range : ChunkBoundary) : Prop :=
  range.start < range.stop ∧ ¬ (source.fails = false ∧ AtTheEnd range source.column)

instance instDecidableDivisible (source : KeySource) (range : ChunkBoundary) :
    Decidable (Divisible source range) :=
  inferInstanceAs (Decidable (_ ∧ _))

def midKey (source : KeySource) (range : ChunkBoundary) : Int := toInt (getMidpoint source range)

def halves (source : KeySource) (range : ChunkBoundary) : List ChunkBoundary :=
  [⟨range.start, midKey source range⟩, ⟨midKey source range + 1, range.stop⟩]

/-- One of the chunks is split, as long as it has more than one key. -/
def splitStep : List ChunkBoundary → Nat × KeySource → Option (List ChunkBoundary)
  | [], _ => none
  | range :: ranges, (0, source) =>
      if range.start < range.stop then some (halves source range ++ ranges) else none
  | range :: ranges, (i + 1, source) => (splitStep ranges (i, source)).map (range :: ·)

/-- The chunk that a step splits. -/
def divides (ranges : List ChunkBoundary) (label : Nat × KeySource) : Bool :=
  ranges[label.1]?.any fun range => Divisible label.2 range

end Splitting

section Midpoint

variable {source : KeySource} {range : ChunkBoundary}

theorem extremes_eq_some_iff {α : Type} [LinearOrder α] {keys : List α} {least greatest : α} :
    extremes keys = some (least, greatest) ↔
      (least ∈ keys ∧ greatest ∈ keys) ∧ ∀ key ∈ keys, least ≤ key ∧ key ≤ greatest := by
  rw [extremes]
  simp only [Option.bind_eq_some_iff, Option.map_eq_some_iff, List.min?_eq_some_iff,
    List.max?_eq_some_iff, Prod.mk.injEq]
  constructor
  · rintro ⟨_, ⟨hleast, hmin⟩, _, ⟨hgreatest, hmax⟩, rfl, rfl⟩
    exact ⟨⟨hleast, hgreatest⟩, fun key hkey => ⟨hmin key hkey, hmax key hkey⟩⟩
  · rintro ⟨⟨hleast, hgreatest⟩, hall⟩
    exact ⟨least, ⟨hleast, fun key hkey => (hall key hkey).1⟩, greatest,
      ⟨hgreatest, fun key hkey => (hall key hkey).2⟩, rfl, rfl⟩

theorem extremes_eq_none_iff {α : Type} [LinearOrder α] {keys : List α} :
    extremes keys = none ↔ keys = [] := by
  cases keys with
  | nil => exact iff_of_true rfl rfl
  | cons key keys =>
      refine iff_of_false (fun h => ?_) (List.cons_ne_nil _ _)
      obtain ⟨least, hleast⟩ := Option.isSome_iff_exists.mp
        (List.isSome_min?_of_mem (List.mem_cons_self (a := key) (l := keys)))
      obtain ⟨greatest, hgreatest⟩ := Option.isSome_iff_exists.mp
        (List.isSome_max?_of_mem (List.mem_cons_self (a := key) (l := keys)))
      rw [extremes, hleast, hgreatest] at h
      exact Option.some_ne_none _ h

theorem toInt_intCast (n : Int) : toInt n = n := by
  rw [toInt, Int.floor_intCast, Int.ceil_intCast, ite_self]

theorem le_toInt {n : Int} {q : ℚ} (h : (n : ℚ) ≤ q) : n ≤ toInt q := by
  rw [toInt]
  split
  · exact Int.le_floor.mpr h
  · exact Int.cast_le.mp (h.trans (Int.le_ceil q))

theorem toInt_le {n : Int} {q : ℚ} (h : q ≤ n) : toInt q ≤ n := by
  rw [toInt]
  split
  · exact Int.cast_le.mp ((Int.floor_le q).trans h)
  · exact Int.ceil_le.mpr h

/-- Below zero the fraction is dropped upwards. -/
theorem toInt_lt_iff {n : Int} {q : ℚ} :
    toInt q < n ↔ if 0 < n then q < n else q ≤ (n : ℚ) - 1 := by
  rw [toInt]
  by_cases hq : 0 ≤ q
  · rw [if_pos hq, Int.floor_lt]
    split
    · exact Iff.rfl
    · rename_i hn
      have hn' : (n : ℚ) ≤ 0 := Int.cast_nonpos.mpr (not_lt.mp hn)
      exact iff_of_false (not_lt.mpr (hn'.trans hq)) (by linarith)
  · rw [if_neg hq, ← Int.le_sub_one_iff, Int.ceil_le, Int.cast_sub, Int.cast_one]
    split
    · rename_i hn
      have hn' : (1 : ℚ) ≤ n := by exact_mod_cast hn
      exact iff_of_true (by linarith) (by linarith)
    · exact Iff.rfl

/-- The midpoint of the range itself, for want of an answer. -/
theorem fallback_spec (hle : range.start ≤ range.stop)
    (hnone : ¬ (source.fails = false ∧ AtTheEnd range source.column))
    (hmid : getMidpoint source range = ((range.start + range.stop) / 2 : Int)) :
    range.start ≤ midKey source range ∧ midKey source range ≤ range.stop ∧
      (midKey source range < range.stop ↔ Divisible source range) := by
  rw [Divisible, and_iff_left hnone, midKey, hmid, toInt_intCast]
  omega

theorem midKey_spec_of_integers {keys : List Int} {least greatest : Int}
    (hcolumn : source.column = .integers keys) (hfails : source.fails = false)
    (h : extremes (keys.filter fun key => Has range key) = some (least, greatest)) :
    range.start ≤ midKey source range ∧ midKey source range ≤ range.stop ∧
      (midKey source range < range.stop ↔ Divisible source range) := by
  have hmid : midKey source range = least + (greatest - least).tdiv 2 := by
    rw [midKey, getMidpoint, hfails, if_neg Bool.false_ne_true, hcolumn, queryMidpoint, h]
    exact toInt_intCast _
  simp only [extremes_eq_some_iff, List.mem_filter, decide_eq_true_eq] at h
  obtain ⟨⟨⟨hleast, hhas⟩, hgreatest, hhas'⟩, hall⟩ := h
  have horder := (hall greatest ⟨hgreatest, hhas'⟩).1
  rw [Int.tdiv_eq_ediv_of_nonneg (Int.sub_nonneg_of_le horder)] at hmid
  have hbelow : midKey source range < range.stop ↔ least < range.stop := by
    have := hhas'.2
    omega
  refine ⟨?_, ?_, ?_⟩
  · have := hhas.1
    omega
  · have := hhas'.2
    omega
  rw [hbelow, Divisible, hcolumn, AtTheEnd]
  constructor
  · intro hlt
    exact ⟨lt_of_le_of_lt hhas.1 hlt, fun h => hlt.ne (h.2.2 least hleast hhas)⟩
  · rintro ⟨-, hnot⟩
    by_contra hge
    have heq : least = range.stop := le_antisymm hhas.2 (not_lt.mp hge)
    refine hnot ⟨hfails, heq ▸ hleast, fun key hkey hkeyHas => ?_⟩
    exact le_antisymm hkeyHas.2 (heq ▸ (hall key ⟨hkey, hkeyHas⟩).1)

theorem midKey_spec_of_decimals {keys : List ℚ} {least greatest : ℚ}
    (hcolumn : source.column = .decimals keys) (hfails : source.fails = false)
    (h : extremes (keys.filter fun key => Between range key) = some (least, greatest)) :
    range.start ≤ midKey source range ∧ midKey source range ≤ range.stop ∧
      (midKey source range < range.stop ↔ Divisible source range) := by
  have hmid : midKey source range = toInt (least + (greatest - least) / 2) := by
    rw [midKey, getMidpoint, hfails, if_neg Bool.false_ne_true, hcolumn, queryMidpoint, h]
    rfl
  simp only [extremes_eq_some_iff, List.mem_filter, decide_eq_true_eq] at h
  obtain ⟨⟨⟨hleast, hhas⟩, hgreatest, hhas'⟩, hall⟩ := h
  have horder := (hall greatest ⟨hgreatest, hhas'⟩).1
  obtain ⟨hstart, hstop⟩ := hhas
  obtain ⟨hstart', hstop'⟩ := hhas'
  rw [hmid]
  refine ⟨le_toInt (by linarith), toInt_le (by linarith), ?_⟩
  rw [toInt_lt_iff, Divisible, hcolumn, AtTheEnd]
  constructor
  · intro hlt
    have hbelow : least + (greatest - least) / 2 < range.stop := by
      split at hlt
      · exact hlt
      · linarith
    have hlower : (range.start : ℚ) < range.stop := by linarith
    refine ⟨Int.cast_lt.mp hlower, ?_⟩
    rintro ⟨-, least', hleast', greatest', hgreatest', ⟨hin, hin', hall'⟩, hend⟩
    have heq : least' = least := le_antisymm (hall' least hleast ⟨hstart, hstop⟩).1
      (hall least' ⟨hleast', hin⟩).1
    have heq' : greatest' = greatest := le_antisymm (hall greatest' ⟨hgreatest', hin'⟩).2
      (hall' greatest hgreatest ⟨hstart', hstop'⟩).2
    rw [heq, heq'] at hend
    split at hend
    · linarith
    · rename_i hn
      rw [if_neg hn] at hlt
      linarith
  · rintro ⟨-, hnot⟩
    by_contra hge
    refine hnot ⟨hfails, least, hleast, greatest, hgreatest, ⟨⟨hstart, hstop⟩,
      ⟨hstart', hstop'⟩, fun key hkey hin => hall key ⟨hkey, hin⟩⟩, ?_⟩
    split
    · rename_i hn
      rw [if_pos hn] at hge
      linarith
    · rename_i hn
      rw [if_neg hn] at hge
      linarith

/-- The midpoint lies in the range, and below its upper bound wherever there is a key below it. -/
theorem midKey_spec (source : KeySource) (hle : range.start ≤ range.stop) :
    range.start ≤ midKey source range ∧ midKey source range ≤ range.stop ∧
      (midKey source range < range.stop ↔ Divisible source range) := by
  cases hfails : source.fails with
  | true =>
      refine fallback_spec hle (fun h => Bool.false_ne_true (h.1.symm.trans hfails)) ?_
      rw [getMidpoint, if_pos hfails, Option.getD_none]
  | false =>
      have hanswer : getMidpoint source range = (queryMidpoint range source.column).getD
          ((range.start + range.stop) / 2 : Int) := by
        rw [getMidpoint, if_neg (by rw [hfails]; exact Bool.false_ne_true)]
      cases hcolumn : source.column with
      | integers keys =>
          cases hends : extremes (keys.filter fun key => Has range key) with
          | some ends => exact midKey_spec_of_integers hcolumn hfails hends
          | none =>
              have hempty := List.filter_eq_nil_iff.mp (extremes_eq_none_iff.mp hends)
              refine fallback_spec hle ?_ ?_
              · rw [hcolumn, AtTheEnd]
                exact fun h => hempty _ h.2.1 (decide_eq_true ⟨hle, le_refl _⟩)
              · rw [hanswer, hcolumn, queryMidpoint, hends]
                rfl
      | decimals keys =>
          cases hends : extremes (keys.filter fun key => Between range key) with
          | some ends => exact midKey_spec_of_decimals hcolumn hfails hends
          | none =>
              have hempty := List.filter_eq_nil_iff.mp (extremes_eq_none_iff.mp hends)
              refine fallback_spec hle ?_ ?_
              · rw [hcolumn, AtTheEnd]
                rintro ⟨-, least, hleast, -, -, ⟨hin, -⟩, -⟩
                exact hempty least hleast (decide_eq_true hin)
              · rw [hanswer, hcolumn, queryMidpoint, hends]
                rfl

end Midpoint

section Halves

variable {source : KeySource} {range : ChunkBoundary}

theorem partition_halves_iff (hle : range.start ≤ range.stop) :
    Partition range (halves source range) ↔ Divisible source range := by
  obtain ⟨hstart, -, hstop⟩ := midKey_spec source hle
  rw [← hstop, halves]
  constructor
  · intro h
    exact h.nonempty ⟨midKey source range + 1, range.stop⟩
      (List.mem_cons_of_mem _ (List.mem_singleton_self _))
  · intro hlt
    refine ⟨?_, ?_, fun key => ?_⟩
    · intro part hpart
      obtain rfl | hpart := List.mem_cons.mp hpart
      · exact hstart
      · rw [List.mem_singleton.mp hpart]
        exact hlt
    · rw [List.pairwise_pair]
      rintro key ⟨hleft, hright⟩
      exact absurd (hright.1.trans hleft.2) (not_le.mpr (Int.lt_succ _))
    · simp only [List.exists_mem_cons_iff, List.not_mem_nil, false_and, exists_false, or_false, Has]
      omega

theorem boundaries_splitSkewedChunk (sha256 : String → String) (source : KeySource)
    {chunk : ChunkPlan} (schema table : String) (h : chunk.boundary = some range) :
    (splitSkewedChunk sha256 source chunk schema table).filterMap ChunkPlan.boundary =
      halves source range := by
  rw [splitSkewedChunk, h]
  rfl

end Halves

section Repeated

/-- How many splits the chunks leave room for. -/
def room (ranges : List ChunkBoundary) : Nat :=
  (ranges.map fun range => (range.stop - range.start).toNat).sum

theorem room_splitStep (ranges : List ChunkBoundary) :
    ∀ {label : Nat × KeySource} {ranges' : List ChunkBoundary}, divides ranges label = true →
      splitStep ranges label = some ranges' → room ranges' < room ranges := by
  induction ranges with
  | nil =>
      intro label ranges' _ h
      exact absurd h.symm (Option.some_ne_none _)
  | cons range ranges ih =>
      rintro ⟨i, source⟩ ranges' hdivides h
      cases i with
      | zero =>
          have hdivisible : Divisible source range := by
            simpa [divides] using hdivides
          obtain ⟨hstart, -, hstop⟩ := midKey_spec source hdivisible.1.le
          have hlt := hstop.mpr hdivisible
          rw [splitStep, if_pos hdivisible.1, Option.some.injEq] at h
          rw [← h, halves, room, room]
          simp only [List.cons_append, List.nil_append, List.map_cons, List.sum_cons]
          omega
      | succ i =>
          rw [splitStep, Option.map_eq_some_iff] at h
          obtain ⟨rest, hrest, rfl⟩ := h
          have hlt := @ih (i, source) _ hdivides hrest
          rw [room, room, List.map_cons, List.map_cons, List.sum_cons, List.sum_cons]
          exact Nat.add_lt_add_left hlt _

/-- A range whose upper bound is its only key comes back as its own lower half. -/
theorem splitStep_of_not_divisible {source : KeySource} {range : ChunkBoundary}
    (hlt : range.start < range.stop) (hnot : ¬ Divisible source range)
    (ranges : List ChunkBoundary) :
    splitStep (range :: ranges) (0, source) =
      some (range :: ⟨range.stop + 1, range.stop⟩ :: ranges) := by
  obtain ⟨-, hle, hstop⟩ := midKey_spec source hlt.le
  have hmid : midKey source range = range.stop :=
    le_antisymm hle (not_lt.mp fun h => hnot (hstop.mp h))
  rw [splitStep, if_pos hlt, halves, hmid]
  rfl

theorem runSteps_of_not_divisible {source : KeySource} {range : ChunkBoundary}
    (hlt : range.start < range.stop) (hnot : ¬ Divisible source range) (n : Nat)
    (ranges : List ChunkBoundary) :
    (runSteps splitStep (range :: ranges) (List.replicate n (0, source))).isSome = true := by
  induction n generalizing ranges with
  | zero => rfl
  | succ n ih =>
      rw [List.replicate_succ, runSteps, splitStep_of_not_divisible hlt hnot, Option.bind_some]
      exact ih _

theorem length_le_room {ranges ranges' : List ChunkBoundary} {labels : List (Nat × KeySource)}
    (h : runSteps (guarded divides splitStep) ranges labels = some ranges') :
    labels.length ≤ room ranges := by
  have hdec : ∀ a l b, guarded divides splitStep a l = some b → room b < room a := by
    intro a l b hstep
    rw [guarded] at hstep
    split at hstep
    · rename_i hdivides
      exact room_splitStep a hdivides hstep
    · exact absurd hstep.symm (Option.some_ne_none b)
  exact (Nat.le_add_right _ _).trans (length_le_of_decreasing hdec h)

end Repeated

section Splits

def ordersChunk (start stop : Int) : ChunkPlan where
  tableSchema := "dbo"
  tableName := "orders"
  boundary := some ⟨start, stop⟩
  columnName := "id"
  columnType := .identityPk
  chunkHash := ""

def fewKeys : KeySource := ⟨.integers [-3, 0, 4], false⟩

end Splits

end SqlOptima.ChunkSplitting
