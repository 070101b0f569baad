import Mathlib.Data.List.Rotate

namespace SqlOptima.ExchangeSelection

/-!
# Sorting by exchange

What stands in front is compared with all that follows, and changes places with whatever is less.
Elements that the comparison does not tell apart do not keep their order.
-/

variable {α : Type}

section Selection

variable (lt : α → α → Bool)

/-- The least of `x` and of what follows, and what is left in its place. -/
def sweep : α → List α → α × List α
  | x, [] => (x, [])
  | x, y :: ys =>
      if lt y x then ((sweep y ys).1, x :: (sweep y ys).2)
      else ((sweep x ys).1, y :: (sweep x ys).2)

attribute [local simp] sweep in
theorem length_sweep (x : α) (xs : List α) : (sweep lt x xs).2.length = xs.length := by
  induction xs generalizing x with
  | nil => rfl
  | cons y ys ih =>
      rw [sweep]
      split
      · exact congrArg Nat.succ (ih y)
      · exact congrArg Nat.succ (ih x)

def selected : List α → List α
  | [] => []
  | x :: xs => (sweep lt x xs).1 :: selected (sweep lt x xs).2
termination_by items => items.length
decreasing_by exact Nat.lt_succ_of_le (length_sweep lt x xs).le

/-- The elements that are not told apart from `k` take turns: each one goes to the end of the
queue, and with each element that is less than `k` the first one goes to the end again. -/
def turns (k : α) : List α → List α → List α
  | queue, [] => queue
  | queue, x :: xs =>
      if lt x k then turns k (queue.rotate 1) xs
      else if lt k x then turns k queue xs
      else turns k (queue ++ [x]) xs

def tied (k x : α) : Bool := !lt x k && !lt k x

end Selection

section Order

variable {lt : α → α → Bool} {k x : α}

attribute [local simp] turns in
theorem tied_iff : tied lt k x = true ↔ lt x k = false ∧ lt k x = false := by
  rw [tied, Bool.and_eq_true, Bool.not_eq_true', Bool.not_eq_true']

variable (hasymm : ∀ a b, lt a b = true → lt b a = false)
  (hbetween : ∀ a b c, lt a c = true → lt a b = true ∨ lt b c = true)
include hasymm hbetween

theorem lt_trans {a b c : α} (hab : lt a b = true) (hbc : lt b c = true) : lt a c = true := by
  obtain h | h := hbetween a c b hab
  · exact h
  · exact absurd ((hasymm b c hbc).symm.trans h) Bool.noConfusion

attribute [local simp] selected in
theorem sweep_least (x : α) (xs : List α) :
    lt x (sweep lt x xs).1 = false ∧
      ∀ y ∈ (sweep lt x xs).2, lt y (sweep lt x xs).1 = false := by
  induction xs generalizing x with
  | nil =>
      rw [sweep]
      refine ⟨?_, List.forall_mem_nil _⟩
      cases h : lt x x with
      | false => rfl
      | true => exact h.symm.trans (hasymm x x h)
  | cons y ys ih =>
      rw [sweep]
      split
      · next hyx =>
          obtain ⟨hy, hys⟩ := ih y
          have hx : lt x (sweep lt y ys).1 = false := by
            by_contra h
            have hless := lt_trans hasymm hbetween hyx (Bool.not_eq_false _ ▸ h)
            exact absurd (hy.symm.trans hless) Bool.noConfusion
          exact ⟨hx, List.forall_mem_cons.mpr ⟨hx, hys⟩⟩
      · next hyx =>
          obtain ⟨hx, hys⟩ := ih x
          refine ⟨hx, List.forall_mem_cons.mpr ⟨?_, hys⟩⟩
          by_contra h
          obtain hless | hless := hbetween y x _ (Bool.not_eq_false _ ▸ h)
          · exact hyx hless
          · exact absurd (hx.symm.trans hless) Bool.noConfusion

omit hasymm hbetween in
theorem sweep_perm (x : α) (xs : List α) :
    ((sweep lt x xs).1 :: (sweep lt x xs).2).Perm (x :: xs) := by
  induction xs generalizing x with
  | nil => exact List.Perm.refl _
  | cons y ys ih =>
      rw [sweep]
      split
      · exact (List.Perm.swap x _ _).trans ((ih y).cons x)
      · exact (List.Perm.swap y _ _).trans (((ih x).cons y).trans (List.Perm.swap x y ys))

omit hasymm hbetween in
theorem selected_perm (items : List α) : (selected lt items).Perm items := by
  induction items using selected.induct lt with
  | case1 => rw [selected]
  | case2 x xs ih =>
      rw [selected]
      exact (ih.cons _).trans (sweep_perm x xs)

theorem selected_pairwise (items : List α) :
    (selected lt items).Pairwise fun a b => lt b a = false := by
  induction items using selected.induct lt with
  | case1 =>
      rw [selected]
      exact List.Pairwise.nil
  | case2 x xs ih =>
      rw [selected]
      refine List.pairwise_cons.mpr ⟨fun y hy => ?_, ih⟩
      exact (sweep_least hasymm hbetween x xs).2 y ((selected_perm _).mem_iff.mp hy)

end Order

section Turns

variable {lt : α → α → Bool} (hasymm : ∀ a b, lt a b = true → lt b a = false)
  (hbetween : ∀ a b c, lt a c = true → lt a b = true ∨ lt b c = true) {k x : α}
include hasymm hbetween

/-- A sweep from what is less than `k` leaves the turns of what follows as they are. -/
theorem turns_sweep_of_lt (h : lt x k = true) (queue xs : List α) :
    lt (sweep lt x xs).1 k = true ∧
      turns lt k queue (sweep lt x xs).2 = turns lt k queue xs := by
  induction xs generalizing x queue with
  | nil => exact ⟨h, rfl⟩
  | cons y ys ih =>
      rw [sweep]
      split
      · next hyx =>
          have hy := lt_trans hasymm hbetween hyx h
          obtain ⟨hleast, -⟩ := ih hy queue
          refine ⟨hleast, ?_⟩
          rw [turns, if_pos h, turns, if_pos hy, (ih hy _).2]
      · obtain ⟨hleast, -⟩ := ih h queue
        refine ⟨hleast, ?_⟩
        rw [turns, turns, (ih h _).2, (ih h _).2, (ih h _).2]

/-- A sweep from what is tied with `k`: it comes out, or it waits where the first that is less
than `k` stood. -/
theorem turns_sweep_of_tied (h : tied lt k x = true) (queue xs : List α) :
    turns lt k (x :: queue) xs =
      [(sweep lt x xs).1].filter (tied lt k) ++ turns lt k queue (sweep lt x xs).2 := by
  obtain ⟨hxk, hkx⟩ := tied_iff.mp h
  induction xs generalizing queue with
  | nil => rw [sweep, List.filter_cons_of_pos h, turns, turns]; rfl
  | cons y ys ih =>
      rw [sweep]
      split
      · next hyx =>
          have hy : lt y k = true := by
            obtain hy | hy := hbetween y k x hyx
            · exact hy
            · exact absurd (hkx.symm.trans hy) Bool.noConfusion
          obtain ⟨hleast, hturns⟩ := turns_sweep_of_lt hasymm hbetween hy (queue ++ [x]) ys
          have hnot : ¬ tied lt k (sweep lt y ys).1 = true := fun heq =>
            absurd ((tied_iff.mp heq).1.symm.trans hleast) Bool.noConfusion
          rw [List.filter_cons_of_neg hnot, List.filter_nil, List.nil_append, turns, if_pos hy,
            turns, if_neg (by rw [hxk]; exact Bool.noConfusion),
            if_neg (by rw [hkx]; exact Bool.noConfusion), hturns, List.rotate_cons_succ,
            List.rotate_zero]
      · next hyx =>
          have hy : ¬ lt y k = true := fun hy => by
            obtain hless | hless := hbetween y x k hy
            · exact hyx hless
            · exact absurd (hxk.symm.trans hless) Bool.noConfusion
          rw [turns, if_neg hy, turns, if_neg hy, List.cons_append, ih, ih]
          split <;> rfl

theorem turns_sweep_of_gt (h : lt k x = true) (xs : List α) :
    turns lt k [] xs =
      [(sweep lt x xs).1].filter (tied lt k) ++ turns lt k [] (sweep lt x xs).2 := by
  have hskip : ∀ {x : α}, lt k x = true → ∀ xs, turns lt k [] (x :: xs) = turns lt k [] xs := by
    intro x hx xs
    rw [turns, if_neg (by rw [hasymm k x hx]; exact Bool.noConfusion), if_pos hx]
  induction xs generalizing x with
  | nil =>
      have hnot : ¬ tied lt k x = true := fun heq =>
        absurd ((tied_iff.mp heq).2.symm.trans h) Bool.noConfusion
      rw [sweep, List.filter_cons_of_neg hnot]
      rfl
  | cons y ys ih =>
      rw [sweep]
      split
      · next hyx =>
          rw [hskip h]
          cases hy : lt k y with
          | true => rw [hskip hy, ih hy]
          | false =>
              cases hy' : lt y k with
              | true =>
                  obtain ⟨hleast, hturns⟩ := turns_sweep_of_lt hasymm hbetween hy' [] ys
                  have hnot : ¬ tied lt k (sweep lt y ys).1 = true := fun heq =>
                    absurd ((tied_iff.mp heq).1.symm.trans hleast) Bool.noConfusion
                  rw [turns, if_pos hy', List.rotate_nil, List.filter_cons_of_neg hnot, hturns]
                  rfl
              | false =>
                  rw [turns, if_neg (by rw [hy']; exact Bool.noConfusion),
                    if_neg (by rw [hy]; exact Bool.noConfusion), List.nil_append,
                    turns_sweep_of_tied hasymm hbetween (tied_iff.mpr ⟨hy', hy⟩)]
      · next hyx =>
          have hy : lt k y = true := by
            obtain hy | hy := hbetween k y x h
            · exact hy
            · exact absurd hy hyx
          rw [hskip hy, hskip hy, ih h]

/-- The elements that are tied come out in their turns. -/
theorem filter_selected (k : α) (items : List α) :
    (selected lt items).filter (tied lt k) = turns lt k [] items := by
  induction items using selected.induct lt with
  | case1 => rw [selected, List.filter_nil, turns]
  | case2 x xs ih =>
      rw [selected, ← List.singleton_append, List.filter_append, ih, turns]
      split
      · next hx =>
          obtain ⟨hleast, hturns⟩ := turns_sweep_of_lt hasymm hbetween hx [] xs
          have hnot : ¬ tied lt k (sweep lt x xs).1 = true := fun heq =>
            absurd ((tied_iff.mp heq).1.symm.trans hleast) Bool.noConfusion
          rw [List.filter_cons_of_neg hnot, List.rotate_nil, hturns]
          rfl
      · next hx =>
          split
          · next hkx => exact (turns_sweep_of_gt hasymm hbetween hkx xs).symm
          · next hkx =>
              have htied : tied lt k x = true :=
                tied_iff.mpr ⟨Bool.eq_false_iff.mpr hx, Bool.eq_false_iff.mpr hkx⟩
              exact (turns_sweep_of_tied hasymm hbetween htied [] xs).symm

end Turns

end SqlOptima.ExchangeSelection
