import Mathlib.Data.List.Basic

namespace SqlOptima.ConnectiveChains

/-!
# Chains of connectives

What a chain of operands says where AND binds tighter than OR, and what it says read with
parentheses from the right.
-/

inductive Connective
  | and
  | or
  deriving DecidableEq

def Connective.apply : Connective → Bool → Bool → Bool
  | .and, a, b => a && b
  | .or, a, b => a || b

inductive Chain (α : Type)
  | one (p : α)
  | join (p : α) (c : Connective) (rest : Chain α)

namespace Chain

variable {α β : Type}

def map (f : α → β) : Chain α → Chain β
  | one p => one (f p)
  | join p c rest => join (f p) c (rest.map f)

def items : Chain α → List α
  | one p => [p]
  | join p _ rest => p :: rest.items

def connectives : Chain α → List Connective
  | one _ => []
  | join _ c rest => c :: rest.connectives

/-- The conjunction up to the first OR, and the disjunction after it. -/
def split : Chain Bool → Bool × Bool
  | one b => (b, false)
  | join b .and rest => (b && rest.split.1, rest.split.2)
  | join b .or rest => (b, rest.split.1 || rest.split.2)

/-- AND binds tighter than OR. -/
def value (chain : Chain Bool) : Bool := chain.split.1 || chain.split.2

/-- A parenthesis is open from every connective to the end. -/
def nested : Chain Bool → Bool
  | one b => b
  | join b c rest => c.apply b rest.nested

end Chain

/-- No OR comes after an AND. -/
def Ordered : List Connective → Prop
  | [] => True
  | .or :: cs => Ordered cs
  | .and :: cs => Connective.or ∉ cs

instance decidableOrdered : (cs : List Connective) → Decidable (Ordered cs)
  | [] => isTrue trivial
  | .or :: cs => decidableOrdered cs
  | .and :: cs => inferInstanceAs (Decidable (Connective.or ∉ cs))

variable {α β : Type}

namespace Chain

attribute [local simp] map in
attribute [local simp] split in
theorem connectives_map (f : α → β) (chain : Chain α) :
    (chain.map f).connectives = chain.connectives := by
  induction chain with
  | one p => rfl
  | join p c rest ih => rw [map, connectives, ih, connectives]

theorem split_of_noOr {chain : Chain Bool} (h : Connective.or ∉ chain.connectives) :
    chain.split = (chain.nested, false) := by
  induction chain with
  | one b => rfl
  | join b c rest ih =>
      cases c with
      | and =>
          rw [split, ih fun hmem => h (List.mem_cons_of_mem _ hmem)]
          rfl
      | or => exact absurd List.mem_cons_self h

theorem value_eq_nested {chain : Chain Bool} (h : Ordered chain.connectives) :
    chain.value = chain.nested := by
  induction chain with
  | one b => exact Bool.or_false b
  | join b c rest ih =>
      cases c with
      | and =>
          have hrest : Connective.or ∉ rest.connectives := h
          rw [value, split, split_of_noOr hrest, Bool.or_false]
          rfl
      | or => exact congrArg (b || ·) (ih h)

section Differ

variable (f : α → Bool)

theorem split_of_true {chain : Chain α} (h : ∀ p ∈ chain.items, f p = true) :
    (chain.map f).split.1 = true := by
  induction chain with
  | one p => exact h p List.mem_cons_self
  | join p c rest ih =>
      obtain ⟨hp, hrest⟩ := List.forall_mem_cons.mp h
      cases c with
      | and => rw [map, split, hp, ih hrest, Bool.and_self]
      | or => exact hp

theorem value_of_true {chain : Chain α} (h : ∀ p ∈ chain.items, f p = true) :
    (chain.map f).value = true := by
  rw [value, split_of_true f h, Bool.true_or]

theorem split_of_false {chain : Chain α} (h : ∀ p ∈ chain.items, f p = false) :
    (chain.map f).split = (false, false) := by
  induction chain with
  | one p => exact Prod.ext (h p List.mem_cons_self) rfl
  | join p c rest ih =>
      obtain ⟨hp, hrest⟩ := List.forall_mem_cons.mp h
      cases c with
      | and => rw [map, split, hp, ih hrest, Bool.and_self]
      | or => rw [map, split, hp, ih hrest, Bool.or_self]

theorem value_of_false {chain : Chain α} (h : ∀ p ∈ chain.items, f p = false) :
    (chain.map f).value = false := by
  rw [value, split_of_false f h, Bool.or_self]

/-- What comes after an OR is true with its operands. -/
theorem split_snd_of_true {chain : Chain α} (h : ∀ p ∈ chain.items, f p = true)
    (hor : Connective.or ∈ chain.connectives) : (chain.map f).split.2 = true := by
  induction chain with
  | one p => cases hor
  | join p c rest ih =>
      have hrest := (List.forall_mem_cons.mp h).2
      cases c with
      | and => exact ih hrest ((List.mem_cons.mp hor).resolve_left Connective.noConfusion)
      | or => rw [map, split, split_of_true f hrest, Bool.true_or]

/-- Where an OR comes after an AND, the two readings differ: the operands up to the AND are false,
the others true. -/
theorem exists_differ {chain : Chain α} (h : ¬ Ordered chain.connectives) :
    ∃ front back, chain.items = front ++ back ∧
      ∀ f : α → Bool, (∀ p ∈ front, f p = false) → (∀ p ∈ back, f p = true) →
        (chain.map f).value = true ∧ (chain.map f).nested = false := by
  induction chain with
  | one p => exact absurd trivial h
  | join p c rest ih =>
      cases c with
      | and =>
          have hor : Connective.or ∈ rest.connectives := not_not.mp h
          refine ⟨[p], rest.items, rfl, fun f hp hf => ?_⟩
          have hfalse := hp p List.mem_cons_self
          rw [map, value, split, nested, split_snd_of_true f hf hor, hfalse]
          exact ⟨Bool.or_true _, rfl⟩
      | or =>
          obtain ⟨front, back, hitems, hdiffer⟩ := ih h
          refine ⟨p :: front, back, by rw [items, hitems, List.cons_append], fun f hp hf => ?_⟩
          obtain ⟨hfalse, hfront⟩ := List.forall_mem_cons.mp hp
          obtain ⟨hvalue, hnested⟩ := hdiffer f hfront hf
          have hrest : (join p .or rest |>.map f).value = (f p || (rest.map f).value) := rfl
          rw [hrest, hvalue, map, nested, hnested, hfalse]
          exact ⟨Bool.or_true _, rfl⟩

end Differ

end Chain

end SqlOptima.ConnectiveChains
