import Mathlib.Data.Rat.Floor
import Mathlib.Data.List.Basic

namespace SqlOptima.TransferKeys

/-- A value of the order column as the driver scans it, after `normalizeDriverValue`: character,
decimal and binary columns are strings of bytes. -/
inductive DriverValue where
  | int (v : Int64)
  | float (v : ℚ)
  | time (ticks : Int)
  | text (bytes : List UInt8)
  | bit (b : Bool)
  deriving DecidableEq

/-- The conversion of a `float64`; out of range it gives the least integer. -/
def truncInt64 (q : ℚ) : Int64 :=
  let t := if 0 ≤ q then ⌊q⌋ else ⌈q⌉
  if -2 ^ 63 ≤ t ∧ t < 2 ^ 63 then Int64.ofInt t else Int64.minValue

def asInt64 : DriverValue → Option Int64
  | .int v => some v
  | .float v => some (truncInt64 v)
  | .time _ | .text _ | .bit _ => none

def compareBytes (a b : List UInt8) : Ordering :=
  if a < b then .lt else if a = b then .eq else .gt

/-- `sprint` is `fmt.Sprint`, `none` the nil value. -/
def compareAny (sprint : Option DriverValue → List UInt8) (a b : Option DriverValue) : Ordering :=
  match a.bind asInt64, b.bind asInt64 with
  | some x, some y => compare x.toInt y.toInt
  | _, _ =>
      match a, b with
      | some (.time x), some (.time y) => compare x y
      | _, _ => compareBytes (sprint a) (sprint b)

def anyGreater (sprint : Option DriverValue → List UInt8) (next prev : Option DriverValue) :
    Bool :=
  next.isSome && prev.isNone || compareAny sprint next prev == .gt

section Extreme

variable {α : Type} {le : α → α → Bool}

/-- An element that every other one is below, in the order `le`. -/
def extreme (le : α → α → Bool) : List α → Option α
  | [] => none
  | v :: vs =>
      match extreme le vs with
      | none => some v
      | some m => if le v m then some m else some v

theorem extreme_eq_none_iff {vs : List α} : extreme le vs = none ↔ vs = [] := by
  cases vs with
  | nil => exact ⟨fun _ => rfl, fun _ => rfl⟩
  | cons v vs =>
      rw [extreme]
      cases extreme le vs with
      | none => simp
      | some m => by_cases h : le v m <;> simp [h]

theorem extreme_spec (total : ∀ a b, le a b = true ∨ le b a = true)
    (trans : ∀ a b c, le a b = true → le b c = true → le a c = true) {vs : List α} {m : α}
    (h : extreme le vs = some m) : m ∈ vs ∧ ∀ v ∈ vs, le v m = true := by
  have hrefl : ∀ a, le a a = true := fun a => (total a a).elim id id
  induction vs generalizing m with
  | nil => cases h
  | cons v vs ih =>
      rw [extreme] at h
      cases hm : extreme le vs with
      | none =>
          rw [hm] at h
          obtain rfl : v = m := Option.some.inj h
          rw [extreme_eq_none_iff] at hm
          subst hm
          simp [hrefl]
      | some m' =>
          obtain ⟨hmem, hle⟩ := ih hm
          rw [hm] at h
          change (if le v m' then some m' else some v) = some m at h
          split at h
          · next hv =>
              obtain rfl : m' = m := Option.some.inj h
              refine ⟨List.mem_cons_of_mem _ hmem, fun w hw => ?_⟩
              rcases List.mem_cons.mp hw with rfl | hw
              · exact hv
              · exact hle w hw
          · next hv =>
              obtain rfl : v = m := Option.some.inj h
              refine ⟨List.mem_cons_self, fun w hw => ?_⟩
              rcases List.mem_cons.mp hw with rfl | hw
              · exact hrefl _
              · exact trans _ _ _ (hle w hw) ((total _ _).resolve_left hv)

end Extreme

/-- The order by which the server sorts and compares the values of the column: its collation, for
text. -/
structure SqlOrder where
  le : DriverValue → DriverValue → Bool
  total : ∀ a b, le a b = true ∨ le b a = true
  trans : ∀ a b c, le a b = true → le b c = true → le a c = true
  int_le : ∀ a b : Int64, le (.int a) (.int b) = decide (a.toInt ≤ b.toInt)

namespace SqlOrder

variable (sql : SqlOrder)

def lt (a b : DriverValue) : Bool := !sql.le b a

/-- `ORDER BY` lists the nulls first. -/
def leKey : Option DriverValue → Option DriverValue → Bool
  | none, _ => true
  | some _, none => false
  | some a, some b => sql.le a b

def maxKey : List DriverValue → Option DriverValue := extreme sql.le

def minKey : List DriverValue → Option DriverValue := extreme fun a b => sql.le b a

variable {sql}

theorem lt_int {a b : Int64} : sql.lt (.int a) (.int b) = true ↔ a.toInt < b.toInt := by
  rw [lt, sql.int_le, Bool.not_eq_true', decide_eq_false_iff_not, Int.not_le]

theorem le_of_lt {a b : DriverValue} (h : sql.lt a b = true) : sql.le a b = true := by
  rw [lt, Bool.not_eq_true'] at h
  rcases sql.total a b with hab | hba
  · exact hab
  · exact absurd hba (by rw [h]; exact Bool.false_ne_true)

theorem lt_of_lt_of_le {a b c : DriverValue} (h : sql.lt a b = true) (h' : sql.le b c = true) :
    sql.lt a c = true := by
  rw [lt, Bool.not_eq_true'] at h ⊢
  by_contra hca
  rw [Bool.not_eq_false] at hca
  exact absurd (sql.trans _ _ _ h' hca) (by rw [h]; exact Bool.false_ne_true)

theorem lt_of_le_of_lt {a b c : DriverValue} (h : sql.le a b = true) (h' : sql.lt b c = true) :
    sql.lt a c = true := by
  rw [lt, Bool.not_eq_true'] at h' ⊢
  by_contra hca
  rw [Bool.not_eq_false] at hca
  exact absurd (sql.trans _ _ _ hca h) (by rw [h']; exact Bool.false_ne_true)

theorem lt_irrefl_of_le {a b : DriverValue} (h : sql.le b a = true) : ¬ sql.lt a b = true := by
  rw [lt, h]
  exact Bool.false_ne_true

theorem maxKey_eq_none_iff {vs : List DriverValue} : sql.maxKey vs = none ↔ vs = [] :=
  extreme_eq_none_iff

theorem maxKey_spec {vs : List DriverValue} {m : DriverValue} (h : sql.maxKey vs = some m) :
    m ∈ vs ∧ ∀ v ∈ vs, sql.le v m = true :=
  extreme_spec sql.total sql.trans h

theorem minKey_spec {vs : List DriverValue} {m : DriverValue} (h : sql.minKey vs = some m) :
    m ∈ vs ∧ ∀ v ∈ vs, sql.le m v = true :=
  extreme_spec (fun a b => sql.total b a) (fun a b c hab hbc => sql.trans c b a hbc hab) h

theorem minKey_isSome_iff {vs : List DriverValue} :
    (sql.minKey vs).isSome ↔ (sql.maxKey vs).isSome := by
  simp only [Option.isSome_iff_ne_none, ne_eq, minKey, maxKey, extreme_eq_none_iff]

end SqlOrder

/-- An order of the values by a number; integers by their own. -/
def weight : DriverValue → Int
  | .int v => v.toInt
  | .float v => ⌊v⌋
  | .time ticks => ticks
  | .text _ | .bit _ => 0

def numericOrder : SqlOrder where
  le a b := weight a ≤ weight b
  total a b := by simpa using Int.le_total _ _
  trans a b c hab hbc := by
    rw [decide_eq_true_eq] at hab hbc ⊢
    exact Int.le_trans hab hbc
  int_le _ _ := rfl

end SqlOptima.TransferKeys
