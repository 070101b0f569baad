import SqlOptima.PlanProgress
import SqlOptima.UuidChunker

namespace SqlOptima.StringChunker

open CoreTypes LexicalBands
open PlanProgress (MoveOutcome)
open PrimaryKeyChunker (PlanContext)
open UuidChunker (compareLt)

/-!
# The chunk of a text key

The server compares keys by the collation of the column, the planner compares their bytes.
-/

structure StringBounds where
  min : String
  max : String

def StringBounds.isEmpty (b : StringBounds) : Bool :=
  b.min == "" && b.max == "" || compareLt b.max b.min

variable {Uuid : Type}

def plan (ctx : PlanContext Uuid) (bounds : StringBounds) : List (ChunkPlan Uuid) :=
  if bounds.isEmpty then []
  else
    [newChunkPlan (ctx.fresh 0) (ctx.now 0) ctx.jobID ctx.schema ctx.table 0 ctx.pkCol
      (some bounds.min) (some bounds.max)]

/-- `MIN` and `MAX` as they are scanned, none where they are `NULL`. -/
def readString : Option (String × String) → StringBounds
  | none => ⟨"", ""⟩
  | some (lo, hi) => ⟨lo, hi⟩

/-- `Move` once it has its chunks; `moved` is what becomes of them. -/
def moveOutcome (chunks : List (ChunkPlan Uuid)) (moved : MoveOutcome) : MoveOutcome :=
  if chunks.isEmpty then .empty else moved

/-! ## The table at the server -/

structure Collation where
  le : String → String → Bool
  total : ∀ s t, le s t = true ∨ le t s = true
  trans : ∀ s t u, le s t = true → le t u = true → le s u = true

/-- A table that has rows. `key` is the chunk column cast to text; of the least keys and of the
greatest ones `MIN` and `MAX` return any. -/
structure StringKeyTable (Row : Type) (c : Collation) where
  rows : List Row
  key : Row → Option String
  whereClause : Option (Row → Bool)
  bounds : Option (String × String)
  hasRows : rows ≠ []
  bounds_none : bounds = none → ∀ row ∈ rows, key row = none
  bounds_mem : ∀ lo hi, bounds = some (lo, hi) →
    (∃ row ∈ rows, key row = some lo) ∧ ∃ row ∈ rows, key row = some hi
  bounds_le : ∀ lo hi, bounds = some (lo, hi) → ∀ row ∈ rows, ∀ k, key row = some k →
    c.le lo k = true ∧ c.le k hi = true

variable {Row : Type} {c : Collation}

namespace StringKeyTable

variable (t : StringKeyTable Row c)

/-- The rows that the migration of the table is about. -/
def isKept (row : Row) : Bool := t.whereClause.all fun keep => keep row

/-- `key >= @P1 AND key <= @P2 AND (where)` -/
def selects (row : Row) (chunk : ChunkPlan Uuid) : Bool :=
  (t.key row).any (fun k => chunk.startKey.any (c.le · k) && chunk.endKey.any (c.le k ·)) &&
    t.isKept row

/-- The table is planned, its chunks select its rows, and `Move` has chunks to move. -/
structure PlannedWhole (ctx : PlanContext Uuid) : Prop where
  planned : plan ctx (readString t.bounds) ≠ []
  selected : ∀ row ∈ t.rows, t.isKept row = true →
    ∃ chunk ∈ plan ctx (readString t.bounds), t.selects row chunk = true
  moved : ∀ moved ≠ .empty, moveOutcome (plan ctx (readString t.bounds)) moved ≠ .empty

/-- No row has `NULL` for its key, and the bytes of the bounds are in order, not both empty. -/
def KeysInByteOrder : Prop :=
  (∀ row ∈ t.rows, t.isKept row = true → (t.key row).isSome = true) ∧
    ∃ lo hi, t.bounds = some (lo, hi) ∧ ¬ (lo = "" ∧ hi = "") ∧ compareLt hi lo = false

end StringKeyTable

theorem isEmpty_eq_false {b : StringBounds} :
    b.isEmpty = false ↔ ¬ (b.min = "" ∧ b.max = "") ∧ compareLt b.max b.min = false := by
  rw [StringBounds.isEmpty, Bool.or_eq_false_iff, ← Bool.not_eq_true, Bool.and_eq_true, beq_iff_eq,
    beq_iff_eq]

theorem plan_ne_nil_iff {ctx : PlanContext Uuid} {b : StringBounds} :
    plan ctx b ≠ [] ↔ b.isEmpty = false := by
  rw [plan]
  cases b.isEmpty with
  | false => exact ⟨fun _ => rfl, fun _ => List.cons_ne_nil _ _⟩
  | true => exact ⟨fun h => absurd rfl h, fun h => by cases h⟩

theorem moveOutcome_ne_empty {chunks : List (ChunkPlan Uuid)} {moved : MoveOutcome}
    (hchunks : chunks ≠ []) (hmoved : moved ≠ .empty) : moveOutcome chunks moved ≠ .empty := by
  cases chunks with
  | nil => exact absurd rfl hchunks
  | cons chunk chunks => exact hmoved

section Bounds

variable {t : StringKeyTable Row c} {ctx : PlanContext Uuid}

/-- The chunk of the bounds holds every key, whatever the collation. -/
theorem selects_of_mem {lo hi k : String} {row : Row} {chunk : ChunkPlan Uuid}
    (hbounds : t.bounds = some (lo, hi)) (hrow : row ∈ t.rows) (hkept : t.isKept row = true)
    (hk : t.key row = some k) (hchunk : chunk ∈ plan ctx ⟨lo, hi⟩) :
    t.selects row chunk = true := by
  rw [plan] at hchunk
  split at hchunk
  · cases hchunk
  · obtain rfl := List.mem_singleton.mp hchunk
    obtain ⟨hlo, hhi⟩ := t.bounds_le lo hi hbounds row hrow k hk
    rw [StringKeyTable.selects, hk, hkept, Bool.and_true]
    show (c.le lo k && c.le k hi) = true
    rw [hlo, hhi]
    rfl

theorem key_isSome_of_selects {row : Row} {chunk : ChunkPlan Uuid}
    (h : t.selects row chunk = true) : (t.key row).isSome = true := by
  rw [StringKeyTable.selects, Bool.and_eq_true] at h
  cases hk : t.key row with
  | none =>
      rw [hk] at h
      cases h.1
  | some k => rfl

end Bounds

open StringKeyTable in
theorem plannedWhole_iff (t : StringKeyTable Row c) (ctx : PlanContext Uuid) :
    t.PlannedWhole ctx ↔ t.KeysInByteOrder := by
  constructor
  · rintro ⟨hplanned, hselected, -⟩
    refine ⟨fun row hrow hkept => ?_, ?_⟩
    · obtain ⟨chunk, -, hchunk⟩ := hselected row hrow hkept
      exact key_isSome_of_selects hchunk
    · rw [plan_ne_nil_iff, isEmpty_eq_false] at hplanned
      cases hbounds : t.bounds with
      | none =>
          rw [hbounds] at hplanned
          exact absurd ⟨rfl, rfl⟩ hplanned.1
      | some bounds =>
          rw [hbounds] at hplanned
          exact ⟨bounds.1, bounds.2, rfl, hplanned⟩
  · rintro ⟨hkeys, lo, hi, hbounds, horder⟩
    have hplan : plan ctx (readString t.bounds) ≠ [] := by
      rw [plan_ne_nil_iff, isEmpty_eq_false, hbounds]
      exact horder
    refine ⟨hplan, fun row hrow hkept => ?_, fun moved => moveOutcome_ne_empty hplan⟩
    obtain ⟨k, hk⟩ := Option.isSome_iff_exists.mp (hkeys row hrow hkept)
    obtain ⟨chunk, hchunk⟩ := List.exists_mem_of_ne_nil _ hplan
    refine ⟨chunk, hchunk, ?_⟩
    rw [hbounds] at hchunk
    exact selects_of_mem hbounds hrow hkept hk hchunk

section Collations

theorem le_refl (s : String) : c.le s s = true := (c.total s s).elim id id

theorem bounds_of_pair {a b lo hi : String} (hbounds : some (a, b) = some (lo, hi)) :
    lo = a ∧ hi = b := by
  cases hbounds
  exact ⟨rfl, rfl⟩

theorem pair_bounds_mem {a b lo hi : String} (hbounds : some (a, b) = some (lo, hi)) :
    (∃ row ∈ [a, b], some row = some lo) ∧ ∃ row ∈ [a, b], some row = some hi := by
  obtain ⟨rfl, rfl⟩ := bounds_of_pair hbounds
  exact ⟨⟨lo, List.mem_cons_self, rfl⟩, hi, List.mem_cons_of_mem _ List.mem_cons_self, rfl⟩

theorem pair_bounds_le {a b lo hi row k : String} (hle : c.le a b = true)
    (hbounds : some (a, b) = some (lo, hi)) (hrow : row ∈ [a, b]) (hk : some row = some k) :
    c.le lo k = true ∧ c.le k hi = true := by
  obtain ⟨rfl, rfl⟩ := bounds_of_pair hbounds
  cases hk
  rcases List.mem_cons.mp hrow with rfl | hrow
  · exact ⟨le_refl row, hle⟩
  · obtain rfl := List.mem_singleton.mp hrow
    exact ⟨hle, le_refl row⟩

/-- A table of two keys. -/
def pairTable (a b : String) (hle : c.le a b = true) : StringKeyTable String c where
  rows := [a, b]
  key := some
  whereClause := none
  bounds := some (a, b)
  hasRows := List.cons_ne_nil _ _
  bounds_none hnone := absurd hnone (Option.some_ne_none _)
  bounds_mem _ _ := pair_bounds_mem
  bounds_le _ _ hbounds _ hrow _ := pair_bounds_le hle hbounds hrow

open StringKeyTable in
theorem pairTable_planned_iff {a b : String} (hle : c.le a b = true) (ctx : PlanContext Uuid) :
    (pairTable a b hle).PlannedWhole ctx ↔ ¬ (a = "" ∧ b = "") ∧ compareLt b a = false := by
  rw [plannedWhole_iff]
  constructor
  · rintro ⟨-, lo, hi, hbounds, horder⟩
    obtain ⟨rfl, rfl⟩ := bounds_of_pair hbounds
    exact horder
  · intro horder
    exact ⟨fun row hrow hkept => rfl, a, b, rfl, horder⟩

end Collations

section Examples

def caselessLe (s t : String) : Bool :=
  lexLe (s.toList.map Char.toLower) (t.toList.map Char.toLower)

/-- A collation that does not tell upper case from lower case. -/
def caseless : Collation where
  le := caselessLe
  total _ _ := lexLe_total _ _
  trans _ _ _ := lexLe_trans

def unitContext : PlanContext Unit where
  jobID := ()
  schema := "Sales"
  table := "CountryRegionCurrency"
  pkCol := "CountryRegionCode"
  fresh _ := ()
  now _ := 0

theorem ae_before_ZW : caseless.le "ae" "ZW" = true := by decide

theorem mixed_case_not_planned :
    ¬ (pairTable "ae" "ZW" ae_before_ZW).PlannedWhole unitContext := by
  intro h
  have hplanned := (pairTable_planned_iff ae_before_ZW unitContext).mp h
  exact absurd hplanned.2 (by decide)

end Examples

end SqlOptima.StringChunker
