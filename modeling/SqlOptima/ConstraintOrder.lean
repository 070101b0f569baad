import SqlOptima.ConstraintPlan
import SqlOptima.ExchangeSelection

namespace SqlOptima.ConstraintOrder

open SqlOptima.ConstraintPlan
open ExchangeSelection

/-!
# The order in which constraints are dropped and restored

The sort of the plan reads a kind as it is spelled, the statements read it in lower case.
-/

section ExchangeSort

variable {α : Type} {lt : α → α → Bool}

theorem exchange_append (front middle rest : List α) (x y : α) :
    exchange lt (front ++ x :: (middle ++ y :: rest)).toArray front.length
        (front.length + 1 + middle.length) =
      (if lt y x then front ++ y :: (middle ++ x :: rest)
        else front ++ x :: (middle ++ y :: rest)).toArray := by
  have hi : front.length < (front ++ x :: (middle ++ y :: rest)).toArray.size := by simp
  have hj : front.length + 1 + middle.length <
      (front ++ x :: (middle ++ y :: rest)).toArray.size := by
    simp
    omega
  have hbehind : front.length + 1 + middle.length - front.length = middle.length + 1 := by omega
  have hx : (front ++ x :: (middle ++ y :: rest)).toArray[front.length] = x := by simp
  have hy : (front ++ x :: (middle ++ y :: rest)).toArray[front.length + 1 + middle.length] =
      y := by
    refine Option.some.inj ?_
    rw [List.getElem_toArray, ← List.getElem?_eq_getElem, List.getElem?_append_right (by omega),
      hbehind, List.getElem?_cons_succ, List.getElem?_append_right le_rfl, Nat.sub_self,
      List.getElem?_cons_zero]
  rw [exchange, dif_pos ⟨hi, hj⟩, hx, hy]
  split
  · rw [List.swap_toArray, ← List.getElem_toArray hi, ← List.getElem_toArray hj, hx, hy,
      List.set_append_right _ _ le_rfl, Nat.sub_self, List.set_cons_zero,
      List.set_append_right _ _ (by omega), hbehind, List.set_cons_succ,
      List.set_append_right _ _ le_rfl, Nat.sub_self, List.set_cons_zero]
  · rfl

/-- A pass of the inner loop sweeps over what follows. -/
theorem pass_append (front middle rest : List α) (x : α) :
    (List.range' (front.length + 1 + middle.length) rest.length).foldl
        (fun out j => exchange lt out front.length j) (front ++ x :: (middle ++ rest)).toArray =
      (front ++ (sweep lt x rest).1 :: (middle ++ (sweep lt x rest).2)).toArray := by
  induction rest generalizing middle x with
  | nil => rfl
  | cons y rest ih =>
      rw [List.length_cons, List.range'_succ, List.foldl_cons, exchange_append, sweep]
      split
      · have hnext := ih (middle ++ [x]) y
        simp only [List.length_append, List.length_singleton, List.append_assoc,
          List.singleton_append] at hnext
        exact hnext
      · have hnext := ih (middle ++ [y]) x
        simp only [List.length_append, List.length_singleton, List.append_assoc,
          List.singleton_append] at hnext
        exact hnext

theorem exchangeSort_eq (items : List α) : exchangeSort lt items = selected lt items := by
  have hpasses : ∀ rest front : List α, front.length + rest.length = items.length →
      (List.range' front.length rest.length).foldl (fun out i =>
        (List.range' (i + 1) (items.length - (i + 1))).foldl (fun out j => exchange lt out i j) out)
          (front ++ rest).toArray = (front ++ selected lt rest).toArray := by
    intro rest
    induction rest using selected.induct lt with
    | case1 =>
        intro front _
        rw [selected]
        rfl
    | case2 x xs ih =>
        intro front hlength
        rw [List.length_cons] at hlength
        have hpass := @pass_append α lt front [] xs x
        simp only [List.length_nil, Nat.add_zero, List.nil_append] at hpass
        have hrest : items.length - (front.length + 1) = xs.length := by omega
        rw [List.length_cons, List.range'_succ, List.foldl_cons, hrest, hpass, selected]
        have hnext := ih (front ++ [(sweep lt x xs).1]) (by
          rw [List.length_append, List.length_singleton, length_sweep]
          omega)
        rw [List.length_append, List.length_singleton, length_sweep, List.append_assoc,
          List.append_assoc, List.singleton_append, List.singleton_append] at hnext
        exact hnext
  have hall := hpasses items [] (Nat.zero_add _)
  rw [List.nil_append, List.length_nil, ← List.range_eq_range', List.nil_append] at hall
  rw [exchangeSort]
  exact congrArg Array.toList hall

end ExchangeSort

section Comparison

variable {restore : Bool} {a b c : TransferConstraintItem}

/-- What the comparison of the sort reads. -/
def sortKey (item : TransferConstraintItem) : Nat × String := (rank item.kind, item.objectId)

theorem less_iff : less restore a b = true ↔
    (if restore then rank b.kind < rank a.kind else rank a.kind < rank b.kind) ∨
      rank a.kind = rank b.kind ∧ a.objectId < b.objectId := by
  rw [less]
  split
  · rename_i hne
    rw [or_iff_left fun h => hne h.1]
    split <;> exact decide_eq_true_iff
  · rename_i heq
    rw [not_not] at heq
    rw [decide_eq_true_iff, heq, or_iff_right, and_iff_right rfl]
    split <;> exact Nat.lt_irrefl _

theorem less_asymm (h : less restore a b = true) : less restore b a = false := by
  rw [less_iff] at h
  rw [← Bool.not_eq_true, less_iff]
  rintro (hrank | ⟨heq, hlt⟩)
  · obtain hrank' | ⟨heq, -⟩ := h
    · cases restore
      · exact Nat.lt_asymm hrank hrank'
      · exact Nat.lt_asymm hrank hrank'
    · rw [heq] at hrank
      exact absurd hrank (by split <;> exact Nat.lt_irrefl _)
  · obtain hrank' | ⟨-, hlt'⟩ := h
    · rw [heq] at hrank'
      exact absurd hrank' (by split <;> exact Nat.lt_irrefl _)
    · exact String.lt_asymm hlt hlt'

theorem less_between (h : less restore a c = true) :
    less restore a b = true ∨ less restore b c = true := by
  rw [less_iff] at h
  rw [less_iff, less_iff]
  have hids : a.objectId < c.objectId → a.objectId < b.objectId ∨ b.objectId < c.objectId := by
    intro hac
    by_contra hneither
    rw [not_or, String.not_lt, String.not_lt] at hneither
    exact String.not_lt.mpr (String.le_trans hneither.2 hneither.1) hac
  cases restore with
  | true =>
      simp only [if_true] at h ⊢
      obtain h | ⟨heq, hlt⟩ := h
      · omega
      · obtain hlt | hlt := hids hlt
        · simp only [hlt, and_true]
          omega
        · simp only [hlt, and_true]
          omega
  | false =>
      simp only [Bool.false_eq_true, if_false] at h ⊢
      obtain h | ⟨heq, hlt⟩ := h
      · omega
      · obtain hlt | hlt := hids hlt
        · simp only [hlt, and_true]
          omega
        · simp only [hlt, and_true]
          omega

/-- Two items that the sort cannot tell apart. -/
theorem tied_iff_sortKey : tied (less restore) a b = true ↔ sortKey b = sortKey a := by
  rw [tied_iff]
  constructor
  · rintro ⟨hba, hab⟩
    rw [← Bool.not_eq_true, less_iff, not_or] at hab hba
    have hrank : rank b.kind = rank a.kind := by
      cases restore
      · exact Nat.le_antisymm (Nat.not_lt.mp hab.1) (Nat.not_lt.mp hba.1)
      · exact Nat.le_antisymm (Nat.not_lt.mp hba.1) (Nat.not_lt.mp hab.1)
    have hid : b.objectId = a.objectId :=
      String.le_antisymm (fun h => hab.2 ⟨hrank.symm, h⟩) fun h => hba.2 ⟨hrank, h⟩
    exact Prod.ext hrank hid
  · intro h
    obtain ⟨hrank, hid⟩ := Prod.mk.inj h
    have hirrefl : less restore a a = false := by
      cases hless : less restore a a with
      | false => rfl
      | true => exact hless.symm.trans (less_asymm hless)
    rw [less] at hirrefl
    rw [less, less, hrank, hid]
    exact ⟨hirrefl, hirrefl⟩

theorem ordered_pairwise (items : List TransferConstraintItem) (restore : Bool) :
    (orderedConstraintItems items restore).Pairwise fun a b => less restore b a = false := by
  rw [orderedConstraintItems, exchangeSort_eq]
  exact selected_pairwise (fun a b => @less_asymm restore a b)
    (fun a b c => @less_between restore a b c) items

/-- The items that the sort cannot tell from `k` come out in their turns. -/
theorem filter_ordered (k : TransferConstraintItem) (items : List TransferConstraintItem)
    (restore : Bool) :
    (orderedConstraintItems items restore).filter (tied (less restore) k) =
      turns (less restore) k [] items := by
  rw [orderedConstraintItems, exchangeSort_eq]
  exact filter_selected (fun a b => @less_asymm restore a b)
    (fun a b c => @less_between restore a b c) k items

end Comparison

section Dependencies

/-- The kinds for which there are statements. -/
def acceptedKinds : List String :=
  ["foreign_key", "check", "unique", "index", "secondary", "trigger"]

def Accepted (item : TransferConstraintItem) : Prop := toLower item.kind ∈ acceptedKinds

def IsForeignKey (item : TransferConstraintItem) : Prop := toLower item.kind = "foreign_key"

def IsKeyOrIndex (item : TransferConstraintItem) : Prop :=
  toLower item.kind ∈ ["unique", "index", "secondary"]

/-- The rank of the kind that the statements are built for. -/
def dependencyRank (item : TransferConstraintItem) : Nat := rank (toLower item.kind)

/-- The one is to be dropped, or restored, before the other. -/
def DependsBefore (restore : Bool) (a b : TransferConstraintItem) : Prop :=
  if restore then dependencyRank b < dependencyRank a else dependencyRank a < dependencyRank b

/-- A plan in the order that the dependencies of its items ask for. -/
structure InDependencyOrder (restore : Bool) (plan ordered : List TransferConstraintItem) :
    Prop where
  perm : ordered.Perm plan
  sorted : ordered.Pairwise fun a b => Accepted a → Accepted b → ¬ DependsBefore restore b a
  keys : ordered.Pairwise fun a b =>
    if restore then ¬ (IsForeignKey a ∧ IsKeyOrIndex b) else ¬ (IsKeyOrIndex a ∧ IsForeignKey b)

theorem accepted_of_isForeignKey {item : TransferConstraintItem} (h : IsForeignKey item) :
    Accepted item ∧ dependencyRank item = 0 := by
  rw [Accepted, dependencyRank, h]
  exact ⟨by decide, rfl⟩

theorem accepted_of_isKeyOrIndex {item : TransferConstraintItem} (h : IsKeyOrIndex item) :
    Accepted item ∧ 0 < dependencyRank item := by
  rw [Accepted, dependencyRank]
  rw [IsKeyOrIndex, List.mem_cons, List.mem_cons, List.mem_singleton] at h
  obtain h | h | h := h
  · rw [h]
    exact ⟨by decide, by decide⟩
  · rw [h]
    exact ⟨by decide, by decide⟩
  · rw [h]
    exact ⟨by decide, by decide⟩

/-- The dependency ranks keep foreign keys and the keys they need in order. -/
theorem keys_of_sorted {restore : Bool} {a b : TransferConstraintItem}
    (h : Accepted a → Accepted b → ¬ DependsBefore restore b a) :
    if restore then ¬ (IsForeignKey a ∧ IsKeyOrIndex b)
    else ¬ (IsKeyOrIndex a ∧ IsForeignKey b) := by
  cases restore with
  | true =>
      rintro ⟨hfk, hkey⟩
      obtain ⟨ha, hzero⟩ := accepted_of_isForeignKey hfk
      obtain ⟨hb, hpos⟩ := accepted_of_isKeyOrIndex hkey
      exact h ha hb (hzero.trans_lt hpos)
  | false =>
      rintro ⟨hkey, hfk⟩
      obtain ⟨ha, hpos⟩ := accepted_of_isKeyOrIndex hkey
      obtain ⟨hb, hzero⟩ := accepted_of_isForeignKey hfk
      exact h ha hb (hzero.trans_lt hpos)

variable {restore : Bool} {items : List TransferConstraintItem}

theorem inDependencyOrder_iff : InDependencyOrder restore items
      (orderedConstraintItems items restore) ↔
    (orderedConstraintItems items restore).Pairwise fun a b =>
      Accepted a → Accepted b → ¬ DependsBefore restore b a :=
  ⟨fun h => h.sorted, fun h => ⟨exchangeSort_perm _ items, h, h.imp keys_of_sorted⟩⟩

/-- The dependencies that the sort sees: it tells the two apart in their order, or it takes them
for the same and their turns are in that order. -/
structure SeesDependencies (restore : Bool) (items : List TransferConstraintItem) : Prop where
  apart : ∀ a ∈ items, ∀ b ∈ items, Accepted a → Accepted b → DependsBefore restore a b →
    less restore a b = true ∨ sortKey a = sortKey b
  inTurn : ∀ k ∈ items, (turns (less restore) k [] items).Pairwise fun a b =>
    Accepted a → Accepted b → ¬ DependsBefore restore b a

theorem inDependencyOrder_of_sees (h : SeesDependencies restore items) :
    InDependencyOrder restore items (orderedConstraintItems items restore) := by
  refine inDependencyOrder_iff.mpr (List.pairwise_iff_forall_sublist.mpr ?_)
  intro a b hab hacca haccb hdep
  have hmem : ∀ {x}, x ∈ [a, b] → x ∈ items := fun hx =>
    mem_orderedConstraintItems.mp (hab.subset hx)
  have ha : a ∈ items := hmem List.mem_cons_self
  have hb : b ∈ items := hmem (List.mem_cons_of_mem a List.mem_cons_self)
  have hless := List.pairwise_iff_forall_sublist.mp (ordered_pairwise items restore) hab
  obtain hbefore | htie := h.apart b hb a ha haccb hacca hdep
  · rw [hless] at hbefore
    cases hbefore
  · -- both are among those that cannot be told from the first
    have htied : ∀ x ∈ [a, b], tied (less restore) a x = true := by
      refine List.forall_mem_cons.mpr ⟨tied_iff_sortKey.mpr rfl, ?_⟩
      exact List.forall_mem_cons.mpr ⟨tied_iff_sortKey.mpr htie, List.forall_mem_nil _⟩
    have hfilter := hab.filter (tied (less restore) a)
    rw [List.filter_eq_self.mpr htied, filter_ordered] at hfilter
    exact List.pairwise_iff_forall_sublist.mp (h.inTurn a ha) hfilter hacca haccb hdep

theorem sees_of_inDependencyOrder
    (h : InDependencyOrder restore items (orderedConstraintItems items restore)) :
    SeesDependencies restore items := by
  constructor
  · intro a ha b hb hacca haccb hdep
    have hne : b ≠ a := by
      rintro rfl
      cases restore <;> exact absurd hdep (Nat.lt_irrefl _)
    obtain ⟨front, back, heq⟩ := List.append_of_mem (mem_orderedConstraintItems.mpr ha)
    have hmem : b ∈ orderedConstraintItems items restore := mem_orderedConstraintItems.mpr hb
    rw [heq] at hmem
    have hsorted := h.sorted
    have hless := ordered_pairwise items restore
    rw [heq] at hsorted hless
    obtain hfront | hback := List.mem_append.mp hmem
    · exact absurd hdep ((List.pairwise_append.mp hsorted).2.2 b hfront a List.mem_cons_self
        haccb hacca)
    · have hba : less restore b a = false :=
        List.rel_of_pairwise_cons (List.pairwise_append.mp hless).2.1
          (List.mem_of_ne_of_mem hne hback)
      cases hab : less restore a b with
      | true => exact .inl rfl
      | false => exact .inr (tied_iff_sortKey.mp (tied_iff.mpr ⟨hab, hba⟩))
  · intro k _
    rw [← filter_ordered]
    exact h.sorted.sublist List.filter_sublist

/-- A plan comes out in the order of its dependencies if and only if the kinds as they are spelled,
the names where both read the same rank, and the turns where both read the same name, follow
them. -/
theorem orderedConstraintItems_iff (items : List TransferConstraintItem) (restore : Bool) :
    InDependencyOrder restore items (orderedConstraintItems items restore) ↔
      SeesDependencies restore items :=
  ⟨sees_of_inDependencyOrder, inDependencyOrder_of_sees⟩

def customerKey : TransferConstraintItem :=
  ⟨"k1", "fk_customer", "foreign_key", "dbo", "Orders", "disable",
    "FOREIGN KEY (customer) REFERENCES Customers (number)"⟩

def numberUnique : TransferConstraintItem :=
  ⟨"k2", "uq_number", "UNIQUE", "dbo", "Customers", "disable", "UNIQUE (number)"⟩

/-- A unique constraint in capitals has the rank of a foreign key, and is restored behind it. -/
theorem unique_in_capitals_comes_late :
    ¬ InDependencyOrder true [customerKey, numberUnique]
      (orderedConstraintItems [customerKey, numberUnique] true) := by
  intro h
  have hlist : orderedConstraintItems [customerKey, numberUnique] true =
      [customerKey, numberUnique] := by
    have hnot : less true numberUnique customerKey = false := by decide
    rw [orderedConstraintItems, exchangeSort_eq]
    simp [selected, sweep, hnot]
  have hkeys := h.keys
  rw [hlist] at hkeys
  have hunique : IsKeyOrIndex numberUnique := by
    rw [IsKeyOrIndex]
    decide
  exact List.rel_of_pairwise_cons hkeys List.mem_cons_self ⟨rfl, hunique⟩

end Dependencies

end SqlOptima.ConstraintOrder
