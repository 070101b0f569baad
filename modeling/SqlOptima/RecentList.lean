import Mathlib.Data.List.Dedup
import Mathlib.Data.List.DropRight

namespace SqlOptima.RecentList

/-!
# Lists ordered by when their entries were last used

Entries move to the end when they are used, and the first one goes when there are too many.
-/

variable {α : Type*} [DecidableEq α]

/-- The entry moved or put to the end. -/
def touch (entries : List α) (a : α) : List α := entries.filter (· ≠ a) ++ [a]

/-- Without the first entry where there are more than `size`. -/
def evict (size : Nat) (entries : List α) : List α :=
  if size < entries.length then entries.drop 1 else entries

section Dedup

/-- The last use of an entry is its place. -/
theorem dedup_concat (uses : List α) (a : α) : (uses ++ [a]).dedup = touch uses.dedup a := by
  induction uses with
  | nil => rfl
  | cons b uses ih =>
      rw [List.cons_append]
      by_cases hb : b ∈ uses
      · rw [List.dedup_cons_of_mem (List.mem_append_left _ hb), List.dedup_cons_of_mem hb, ih]
      · rw [List.dedup_cons_of_notMem hb]
        by_cases hba : b = a
        · subst hba
          rw [List.dedup_cons_of_mem (List.mem_append_right _ (List.mem_singleton_self b)), ih,
            touch, touch, List.filter_cons_of_neg (by simp)]
        · have hnot : b ∉ uses ++ [a] := by
            rw [List.mem_append, List.mem_singleton, not_or]
            exact ⟨hb, hba⟩
          rw [List.dedup_cons_of_notMem hnot, ih, touch, touch,
            List.filter_cons_of_pos (by simpa using hba), List.cons_append]

theorem dedup_suffix (earlier uses : List α) : uses.dedup <:+ (earlier ++ uses).dedup := by
  rw [List.dedup_append]
  exact List.suffix_union_right earlier uses.dedup

omit [DecidableEq α] in
/-- Everything used has a last use. -/
theorem exists_last_use {uses : List α} {a : α} (h : a ∈ uses) :
    ∃ before after, uses = before ++ a :: after ∧ a ∉ after := by
  obtain ⟨after, before, heq, hnot⟩ :=
    List.eq_append_cons_of_mem (List.mem_reverse.mpr h)
  refine ⟨before.reverse, after.reverse, ?_, fun hmem => hnot (List.mem_reverse.mp hmem)⟩
  rw [← List.reverse_reverse uses, heq, List.reverse_append, List.reverse_cons, List.append_assoc,
    List.singleton_append]

end Dedup

section Recent

variable {size : Nat}

/-- The entries of the last uses, at most `size` of them. -/
def recent (size : Nat) (uses : List α) : List α := uses.dedup.rtake size

theorem length_recent_le (size : Nat) (uses : List α) : (recent size uses).length ≤ size := by
  rw [recent, List.rtake, List.length_drop]
  omega

theorem nodup_recent (size : Nat) (uses : List α) : (recent size uses).Nodup :=
  (List.nodup_dedup uses).sublist (List.drop_sublist _ _)

omit [DecidableEq α] in
/-- What is cut from the front of a list with enough behind does not show at its end. -/
theorem rtake_append {front back : List α} (h : front = [] ∨ size ≤ back.length) :
    (front ++ back).rtake size = back.drop (back.length - size) := by
  rw [List.rtake, List.length_append]
  obtain rfl | hback := h
  · rw [List.nil_append, List.length_nil, Nat.zero_add]
  · rw [Nat.add_sub_assoc hback, List.drop_append, List.drop_of_length_le (by omega),
      List.nil_append, Nat.add_sub_cancel_left]

omit [DecidableEq α] in
theorem evict_eq_drop {entries : List α} (h : entries.length ≤ size + 1) :
    evict size entries = entries.drop (entries.length - size) := by
  rw [evict]
  split
  · rename_i hlt
    rw [show entries.length - size = 1 by omega]
  · rw [show entries.length - size = 0 by omega, List.drop_zero]

theorem le_length_touch {entries : List α} (h : entries.Nodup) (a : α) :
    entries.length ≤ (touch entries a).length := by
  rw [touch, List.length_append, List.length_singleton]
  by_cases hmem : a ∈ entries
  · have hfilter : entries.filter (· ≠ a) = entries.erase a := by
      rw [h.erase_eq_filter]
      exact List.filter_congr fun b _ => by rw [Bool.eq_iff_iff]; simp
    rw [hfilter, List.length_erase_of_mem hmem]
    omega
  · have hfilter : entries.filter (· ≠ a) = entries :=
      List.filter_eq_self.mpr fun b hb => decide_eq_true fun heq => hmem (heq ▸ hb)
    rw [hfilter]
    exact Nat.le_succ _

theorem length_touch_le (entries : List α) (a : α) :
    (touch entries a).length ≤ entries.length + 1 := by
  rw [touch, List.length_append, List.length_singleton]
  exact Nat.add_le_add_right (List.length_filter_le _ _) 1

/-- Using one more entry: either it is among the recent ones, and only changes its place, or
everything older was cut away already. -/
theorem recent_concat (uses : List α) (a : α) :
    recent size (uses ++ [a]) = evict size (touch (recent size uses) a) := by
  have hsplit : uses.dedup.take (uses.dedup.length - size) ++ recent size uses = uses.dedup :=
    List.take_append_drop _ _
  have hfull : uses.dedup.take (uses.dedup.length - size) = [] ∨
      size ≤ (recent size uses).length := by
    rw [recent, List.rtake, List.length_drop, ← List.length_eq_zero_iff, List.length_take]
    omega
  have hle := le_length_touch (nodup_recent size uses) a
  have hge := (length_touch_le (recent size uses) a).trans
    (Nat.add_le_add_right (length_recent_le size uses) 1)
  rw [evict_eq_drop hge, recent, dedup_concat, touch, ← hsplit, List.filter_append,
    List.append_assoc]
  refine rtake_append ?_
  obtain hnil | hsize := hfull
  · exact .inl (by rw [hnil, List.filter_nil])
  · exact .inr (hsize.trans hle)

theorem foldl_recent (size : Nat) (uses : List α) :
    uses.foldl (fun entries a => evict size (touch entries a)) [] = recent size uses := by
  induction uses using List.reverseRecOn with
  | nil => rw [recent, List.dedup_nil, List.rtake_nil, List.foldl_nil]
  | append_singleton uses a ih =>
      rw [List.foldl_append, ih, recent_concat, List.foldl_cons, List.foldl_nil]

/-- An entry stays for as long as fewer than `size` others have been used since. -/
theorem mem_recent_iff {uses : List α} {a : α} :
    a ∈ recent size uses ↔
      ∃ before after, uses = before ++ a :: after ∧ (a :: after).dedup.length ≤ size := by
  constructor
  · intro h
    have hmem : a ∈ uses := List.mem_dedup.mp (List.mem_of_mem_drop h)
    obtain ⟨before, after, rfl, hafter⟩ := exists_last_use hmem
    refine ⟨before, after, rfl, ?_⟩
    obtain ⟨front, hfront⟩ := dedup_suffix before (a :: after)
    by_contra hmany
    rw [List.dedup_cons_of_notMem hafter] at hfront hmany
    rw [recent, ← hfront, List.append_cons, rtake_append (.inr ?_)] at h
    · exact hafter (List.mem_dedup.mp (List.mem_of_mem_drop h))
    · rw [List.length_cons] at hmany
      omega
  · rintro ⟨before, after, rfl, hfew⟩
    obtain ⟨front, hfront⟩ := dedup_suffix before (a :: after)
    have hmem : a ∈ (a :: after).dedup := List.mem_dedup.mpr List.mem_cons_self
    rw [recent, List.rtake, ← hfront, List.drop_append]
    refine List.mem_append_right _ ?_
    rw [List.length_append, show front.length + (a :: after).dedup.length - size - front.length = 0
      by omega]
    exact hmem

end Recent

end SqlOptima.RecentList
