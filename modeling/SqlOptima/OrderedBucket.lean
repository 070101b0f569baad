import Mathlib.Data.List.Infix
import Mathlib.Data.List.Lex
import Mathlib.Data.List.Pairwise
import Mathlib.Order.Lattice

namespace SqlOptima.OrderedBucket

section DownwardClosed

variable {α : Type*} {P : α → Bool}

/-- Along a list on which `P` never comes back once it has failed, cutting at
the first failure is filtering. -/
theorem takeWhile_eq_filter {l : List α}
    (hmono : l.Pairwise fun x y => P y = true → P x = true) :
    l.takeWhile P = l.filter P := by
  induction l with
  | nil => rfl
  | cons a l ih =>
      obtain ⟨hhead, htail⟩ := List.pairwise_cons.mp hmono
      by_cases ha : P a = true
      · rw [List.takeWhile_cons_of_pos ha, List.filter_cons_of_pos ha, ih htail]
      · rw [List.takeWhile_cons_of_neg ha, List.filter_cons_of_neg ha]
        symm
        rw [List.filter_eq_nil_iff]
        exact fun b hb hPb => ha (hhead b hb hPb)

theorem dropWhile_eq_filter_not {l : List α}
    (hmono : l.Pairwise fun x y => P y = true → P x = true) :
    l.dropWhile P = l.filter fun a => !P a := by
  induction l with
  | nil => rfl
  | cons a l ih =>
      obtain ⟨hhead, htail⟩ := List.pairwise_cons.mp hmono
      by_cases ha : P a = true
      · rw [List.dropWhile_cons_of_pos ha, List.filter_cons_of_neg (by simp [ha]), ih htail]
      · rw [List.dropWhile_cons_of_neg ha, List.filter_cons_of_pos (by simp [ha])]
        congr 1
        symm
        rw [List.filter_eq_self]
        intro b hb
        simpa using fun hPb => ha (hhead b hb hPb)

end DownwardClosed

/-- A key-value bucket, held the way its cursor walks over it: in strictly
increasing key order. -/
structure Bucket (K V : Type*) [LinearOrder K] where
  entries : List (K × V)
  sorted : entries.Pairwise fun a b => a.1 < b.1

namespace Bucket

variable {K V : Type*} [LinearOrder K]

def empty : Bucket K V := ⟨[], List.Pairwise.nil⟩

def get (b : Bucket K V) (k : K) : Option V :=
  (b.entries.find? fun e => decide (e.1 = k)).map Prod.snd

def put (b : Bucket K V) (k : K) (v : V) : Bucket K V where
  entries := (b.entries.filter fun e => decide (e.1 < k)) ++
    (k, v) :: b.entries.filter fun e => decide (k < e.1)
  sorted := by
    rw [List.pairwise_append, List.pairwise_cons]
    refine ⟨b.sorted.filter _, ⟨?_, b.sorted.filter _⟩, ?_⟩
    · intro e he
      simpa using (List.mem_filter.mp he).2
    · intro a ha e he
      have hak : a.1 < k := by simpa using (List.mem_filter.mp ha).2
      rcases List.mem_cons.mp he with rfl | he
      · exact hak
      · exact hak.trans (by simpa using (List.mem_filter.mp he).2)

def delete (b : Bucket K V) (k : K) : Bucket K V where
  entries := b.entries.filter fun e => decide (e.1 ≠ k)
  sorted := b.sorted.filter _

def seek (b : Bucket K V) (k : K) : List (K × V) :=
  b.entries.dropWhile fun e => decide (e.1 < k)

theorem eq_of_mem_of_key_eq {b : Bucket K V} {e f : K × V}
    (he : e ∈ b.entries) (hf : f ∈ b.entries) (hkey : e.1 = f.1) : e = f := by
  by_contra hne
  let DiffKey : K × V → K × V → Prop := fun a c => a.1 ≠ c.1
  have : Std.Symm DiffKey := ⟨fun _ _ h => Ne.symm h⟩
  have hdiff : b.entries.Pairwise DiffKey := b.sorted.imp ne_of_lt
  exact hdiff.forall he hf hne hkey

theorem get_eq_some_iff {b : Bucket K V} {k : K} {v : V} :
    b.get k = some v ↔ (k, v) ∈ b.entries := by
  rw [get, Option.map_eq_some_iff]
  constructor
  · rintro ⟨⟨k', v'⟩, hfind, rfl⟩
    have hkey : k' = k := by simpa using List.find?_some hfind
    exact hkey ▸ List.mem_of_find?_eq_some hfind
  · intro hmem
    obtain ⟨e, he⟩ : ∃ e, b.entries.find? (fun e => decide (e.1 = k)) = some e := by
      rw [← Option.isSome_iff_exists, List.find?_isSome]
      exact ⟨(k, v), hmem, by simp⟩
    have hkey : e.1 = k := by simpa using List.find?_some he
    have heq : e = (k, v) := eq_of_mem_of_key_eq (List.mem_of_find?_eq_some he) hmem hkey
    exact ⟨e, he, congrArg Prod.snd heq⟩

@[simp] theorem get_empty (k : K) : (empty : Bucket K V).get k = none := rfl

theorem mem_put {b : Bucket K V} {k k' : K} {v v' : V} :
    (k', v') ∈ (b.put k v).entries ↔
      (k' = k ∧ v' = v) ∨ (k' ≠ k ∧ (k', v') ∈ b.entries) := by
  simp only [put, List.mem_append, List.mem_cons, List.mem_filter, decide_eq_true_eq,
    Prod.mk.injEq, ne_eq]
  constructor
  · rintro (⟨hmem, hlt⟩ | h | ⟨hmem, hlt⟩)
    · exact Or.inr ⟨hlt.ne, hmem⟩
    · exact Or.inl h
    · exact Or.inr ⟨hlt.ne', hmem⟩
  · rintro (h | ⟨hne, hmem⟩)
    · exact Or.inr (Or.inl h)
    · rcases lt_or_gt_of_ne hne with hlt | hgt
      · exact Or.inl ⟨hmem, hlt⟩
      · exact Or.inr (Or.inr ⟨hmem, hgt⟩)

theorem mem_delete {b : Bucket K V} {k k' : K} {v' : V} :
    (k', v') ∈ (b.delete k).entries ↔ k' ≠ k ∧ (k', v') ∈ b.entries := by
  simp [delete, List.mem_filter, and_comm]

@[simp] theorem get_put_self (b : Bucket K V) (k : K) (v : V) :
    (b.put k v).get k = some v := by
  rw [get_eq_some_iff, mem_put]
  exact Or.inl ⟨rfl, rfl⟩

theorem get_put_of_ne (b : Bucket K V) {k k' : K} (v : V) (hne : k' ≠ k) :
    (b.put k v).get k' = b.get k' := by
  apply Option.ext
  intro w
  rw [get_eq_some_iff, get_eq_some_iff, mem_put]
  simp [hne]

theorem mem_seek {b : Bucket K V} {k : K} {e : K × V} :
    e ∈ b.seek k ↔ e ∈ b.entries ∧ k ≤ e.1 := by
  have hmono : b.entries.Pairwise fun x y =>
      decide (y.1 < k) = true → decide (x.1 < k) = true := by
    refine b.sorted.imp fun {x y} hxy hy => ?_
    simp only [decide_eq_true_eq] at hy ⊢
    exact hxy.trans hy
  rw [seek, dropWhile_eq_filter_not hmono, List.mem_filter]
  simp

theorem seek_sorted (b : Bucket K V) (k : K) :
    (b.seek k).Pairwise fun a c => a.1 < c.1 :=
  b.sorted.sublist (List.dropWhile_sublist _)

end Bucket

section PrefixScan

variable {α V : Type*} [LinearOrder α]

theorem prefix_of_le_of_le : ∀ {p k k' : List α},
    p ≤ k → k ≤ k' → p <+: k' → p <+: k
  | [], k, _, _, _, _ => List.nil_prefix
  | c :: p, k, [], _, _, hpre => by simp at hpre
  | c :: p, [], _ :: _, hle, _, _ => by
      exact absurd hle (not_le.mpr (List.nil_lt_cons c p))
  | c :: p, d :: k, c' :: k', hle, hle', hpre => by
      obtain ⟨rfl, hpre'⟩ := List.cons_prefix_cons.mp hpre
      rw [← not_lt, List.cons_lt_cons_iff, not_or, not_lt] at hle hle'
      obtain rfl : c = d := le_antisymm hle.1 hle'.1
      have hpk : p ≤ k := not_lt.mp fun h => hle.2 ⟨rfl, h⟩
      have hkk : k ≤ k' := not_lt.mp fun h => hle'.2 ⟨rfl, h⟩
      exact List.cons_prefix_cons.mpr ⟨rfl, prefix_of_le_of_le hpk hkk hpre'⟩

theorem prefix_le : ∀ {p k : List α}, p <+: k → p ≤ k
  | [], k, _ => by
      cases k with
      | nil => exact le_refl _
      | cons c k => exact (List.nil_lt_cons c k).le
  | c :: p, k, hpre => by
      obtain ⟨t, rfl⟩ := hpre
      exact List.cons_le_cons c (prefix_le (List.prefix_append p t))

/-- A range scan over the keys that start with `p`: the cursor is placed at
`p` and moved on while its key still starts with `p`. -/
def prefixScan (b : Bucket (List α) V) (p : List α) : List (List α × V) :=
  (b.seek p).takeWhile fun e => decide (p <+: e.1)

theorem mem_prefixScan {b : Bucket (List α) V} {p : List α} {e : List α × V} :
    e ∈ prefixScan b p ↔ e ∈ b.entries ∧ p <+: e.1 := by
  have hge : ∀ f ∈ b.seek p, p ≤ f.1 := fun f hf => (Bucket.mem_seek.mp hf).2
  have hmono : (b.seek p).Pairwise fun x y =>
      decide (p <+: y.1) = true → decide (p <+: x.1) = true := by
    refine (b.seek_sorted p).imp_of_mem fun {x y} hx _ hxy hy => ?_
    simp only [decide_eq_true_eq] at hy ⊢
    exact prefix_of_le_of_le (hge x hx) hxy.le hy
  rw [prefixScan, takeWhile_eq_filter hmono, List.mem_filter, Bucket.mem_seek]
  simp only [decide_eq_true_eq]
  constructor
  · rintro ⟨⟨hmem, -⟩, hpre⟩
    exact ⟨hmem, hpre⟩
  · rintro ⟨hmem, hpre⟩
    exact ⟨⟨hmem, prefix_le hpre⟩, hpre⟩

theorem prefixScan_sorted (b : Bucket (List α) V) (p : List α) :
    (prefixScan b p).Pairwise fun a c => a.1 < c.1 :=
  (b.seek_sorted p).sublist (List.takeWhile_sublist _)

end PrefixScan

end SqlOptima.OrderedBucket
