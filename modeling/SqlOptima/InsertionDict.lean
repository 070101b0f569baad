import Mathlib.Data.List.Induction
import Mathlib.Data.List.Nodup

namespace SqlOptima.InsertionDict

/-!
# Dictionaries in the order of insertion

A dictionary as the list of its entries: a key that is assigned again keeps its
place and takes the new value.
-/

variable {K V : Type*} [DecidableEq K]

def assign (d : List (K × V)) (k : K) (v : V) : List (K × V) :=
  if k ∈ d.map Prod.fst then d.map fun e => if e.1 = k then (k, v) else e
  else d ++ [(k, v)]

def fromPairs (ps : List (K × V)) : List (K × V) :=
  ps.foldl (fun d p => assign d p.1 p.2) []

variable {d ps : List (K × V)} {k k' : K} {v : V}

theorem keys_replace (d : List (K × V)) (k : K) (v : V) :
    (d.map fun e => if e.1 = k then (k, v) else e).map Prod.fst = d.map Prod.fst := by
  rw [List.map_map]
  refine List.map_congr_left fun e _ => ?_
  by_cases h : e.1 = k <;> simp [h]

theorem nodup_keys_assign (h : (d.map Prod.fst).Nodup) (k : K) (v : V) :
    ((assign d k v).map Prod.fst).Nodup := by
  unfold assign
  split
  · rwa [keys_replace]
  · next hk =>
      rw [List.map_append, List.map_singleton, ← List.concat_eq_append]
      exact h.concat hk

theorem lookup_eq_none_of_notMem (h : k ∉ d.map Prod.fst) : d.lookup k = none := by
  rw [List.lookup_eq_none_iff]
  intro e he
  exact bne_iff_ne.mpr fun heq => h (List.mem_map.mpr ⟨e, he, heq.symm⟩)

theorem exists_lookup (h : k ∈ d.map Prod.fst) : ∃ v, d.lookup k = some v ∧ (k, v) ∈ d := by
  induction d with
  | nil => cases h
  | cons e d ih =>
      rw [List.lookup_cons]
      by_cases hk : k = e.1
      · rw [hk, beq_self_eq_true]
        exact ⟨e.2, rfl, List.mem_cons_self⟩
      · rw [beq_eq_false_iff_ne.mpr hk]
        obtain ⟨v, hlookup, hmem⟩ := ih (List.mem_of_ne_of_mem hk h)
        exact ⟨v, hlookup, List.mem_cons_of_mem e hmem⟩

theorem assign_of_notMem (h : k ∉ d.map Prod.fst) (v : V) : assign d k v = d ++ [(k, v)] :=
  if_neg h

theorem lookup_replace_self (h : k ∈ d.map Prod.fst) (v : V) :
    (d.map fun e => if e.1 = k then (k, v) else e).lookup k = some v := by
  induction d with
  | nil => cases h
  | cons e d ih =>
      rw [List.map_cons, List.lookup_cons]
      by_cases he : e.1 = k
      · simp [he]
      · have hne : k ≠ e.1 := fun heq => he heq.symm
        rw [if_neg he, beq_eq_false_iff_ne.mpr hne]
        exact ih (List.mem_of_ne_of_mem hne h)

theorem lookup_replace_ne (h : k' ≠ k) (d : List (K × V)) (v : V) :
    (d.map fun e => if e.1 = k then (k, v) else e).lookup k' = d.lookup k' := by
  induction d with
  | nil => rfl
  | cons e d ih =>
      rw [List.map_cons, List.lookup_cons, List.lookup_cons, ih]
      by_cases he : e.1 = k
      · rw [if_pos he, he, beq_eq_false_iff_ne.mpr h]
      · rw [if_neg he]

theorem lookup_assign (d : List (K × V)) (k k' : K) (v : V) :
    (assign d k v).lookup k' = if k' = k then some v else d.lookup k' := by
  unfold assign
  split
  · next hk =>
      by_cases h : k' = k
      · rw [if_pos h, h, lookup_replace_self hk]
      · rw [if_neg h, lookup_replace_ne h]
  · next hk =>
      have hnone := lookup_eq_none_of_notMem hk
      rw [List.lookup_append, List.lookup_cons, List.lookup_nil]
      by_cases h : k' = k
      · subst h
        simp [hnone]
      · simp [h, beq_eq_false_iff_ne.mpr h]

theorem nodup_keys_fromPairs (ps : List (K × V)) : ((fromPairs ps).map Prod.fst).Nodup := by
  unfold fromPairs
  induction ps using List.reverseRecOn with
  | nil => exact List.nodup_nil
  | append_singleton ps p ih =>
      rw [List.foldl_append]
      exact nodup_keys_assign ih p.1 p.2

/-- The last assignment of a key counts. -/
theorem lookup_foldl_assign {W : Type*} (f : W → V) (es : List (K × W)) (d : List (K × V)) (k : K) :
    (es.foldl (fun d e => assign d e.1 (f e.2)) d).lookup k =
      ((es.reverse.lookup k).map f).or (d.lookup k) := by
  induction es using List.reverseRecOn with
  | nil => rfl
  | append_singleton es e ih =>
      rw [List.foldl_append, List.reverse_append, List.reverse_singleton]
      change (assign _ e.1 (f e.2)).lookup k = ((List.lookup k (e :: es.reverse)).map f).or _
      rw [lookup_assign, ih, List.lookup_cons]
      by_cases h : k = e.1
      · simp [h]
      · simp [h, beq_eq_false_iff_ne.mpr h]

theorem lookup_fromPairs (ps : List (K × V)) (k : K) :
    (fromPairs ps).lookup k = ps.reverse.lookup k :=
  (lookup_foldl_assign id ps [] k).trans (by simp)

theorem mem_iff_lookup (h : (d.map Prod.fst).Nodup) : (k, v) ∈ d ↔ d.lookup k = some v := by
  induction d with
  | nil => simp
  | cons e d ih =>
      rw [List.map_cons, List.nodup_cons] at h
      rw [List.mem_cons, List.lookup_cons, ih h.2]
      by_cases hk : k = e.1
      · subst hk
        rw [lookup_eq_none_of_notMem h.1, beq_self_eq_true]
        simp [Prod.ext_iff, eq_comm]
      · rw [beq_eq_false_iff_ne.mpr hk]
        simp [Prod.ext_iff, hk]

/-- The order of the entries does not matter to a lookup. -/
theorem lookup_eq_of_perm {d' : List (K × V)} (hperm : d.Perm d') (h : (d.map Prod.fst).Nodup)
    (k : K) : d.lookup k = d'.lookup k := by
  refine Option.ext fun v => ?_
  rw [← mem_iff_lookup h, ← mem_iff_lookup ((hperm.map Prod.fst).nodup_iff.mp h), hperm.mem_iff]

/-- A dictionary that is read off another one, entry by entry, on top of a third. -/
theorem lookup_assignAll {W : Type*} {es : List (K × W)} (h : (es.map Prod.fst).Nodup) (f : W → V)
    (d : List (K × V)) (k : K) :
    (es.foldl (fun d e => assign d e.1 (f e.2)) d).lookup k =
      ((es.lookup k).map f).or (d.lookup k) := by
  rw [lookup_foldl_assign, lookup_eq_of_perm es.reverse_perm.symm h]

theorem lookup_fromPairs_map {W : Type*} {es : List (K × W)} (h : (es.map Prod.fst).Nodup)
    (f : W → V) (k : K) :
    (fromPairs (es.map fun e => (e.1, f e.2))).lookup k = (es.lookup k).map f := by
  rw [fromPairs, List.foldl_map, lookup_assignAll h, List.lookup_nil, Option.or_none]

/-- A dictionary whose values depend on the keys alone. -/
theorem lookup_fromPairs_filterMap (g : K → Option V) {ks : List K} (h : k ∈ ks) :
    (fromPairs (ks.filterMap fun k => (g k).map (Prod.mk k))).lookup k = g k := by
  rw [lookup_fromPairs, ← List.filterMap_reverse]
  have hrev := List.mem_reverse.mpr h
  generalize ks.reverse = ks' at hrev
  induction ks' with
  | nil => cases hrev
  | cons k' ks' ih =>
      by_cases hk : k = k'
      · subst hk
        cases hg : g k with
        | none =>
            rw [List.filterMap_cons_none (by rw [hg]; rfl)]
            by_cases hmem : k ∈ ks'
            · exact (ih hmem).trans hg
            · refine lookup_eq_none_of_notMem fun hkey => hmem ?_
              obtain ⟨e, he, rfl⟩ := List.mem_map.mp hkey
              obtain ⟨k'', hk'', heq⟩ := List.mem_filterMap.mp he
              obtain ⟨v, -, rfl⟩ := Option.map_eq_some_iff.mp heq
              exact hk''
        | some v =>
            rw [List.filterMap_cons_some (by rw [hg]; rfl), List.lookup_cons, beq_self_eq_true]
      · have htail := ih ((List.mem_cons.mp hrev).resolve_left hk)
        cases hg : g k' with
        | none => rw [List.filterMap_cons_none (by rw [hg]; rfl), htail]
        | some v =>
            rw [List.filterMap_cons_some (by rw [hg]; rfl), List.lookup_cons,
              beq_eq_false_iff_ne.mpr hk, htail]

theorem lookup_fromPairs_append {d' : List (K × V)} (h : (d.map Prod.fst).Nodup)
    (h' : (d'.map Prod.fst).Nodup) (k : K) :
    (fromPairs (d ++ d')).lookup k = (d'.lookup k).or (d.lookup k) := by
  rw [lookup_fromPairs, List.reverse_append, List.lookup_append,
    lookup_eq_of_perm d'.reverse_perm.symm h', lookup_eq_of_perm d.reverse_perm.symm h]

theorem mem_fromPairs : (k, v) ∈ fromPairs ps ↔ ps.reverse.lookup k = some v := by
  rw [mem_iff_lookup (nodup_keys_fromPairs ps), lookup_fromPairs]

theorem mem_of_mem_fromPairs (h : (k, v) ∈ fromPairs ps) : (k, v) ∈ ps := by
  rw [mem_fromPairs] at h
  obtain ⟨before, after, hrev, -⟩ := List.lookup_eq_some_iff.mp h
  rw [← List.mem_reverse, hrev]
  exact List.mem_append_right _ List.mem_cons_self

theorem mem_keys_fromPairs : k ∈ (fromPairs ps).map Prod.fst ↔ k ∈ ps.map Prod.fst := by
  constructor
  · intro h
    obtain ⟨e, he, rfl⟩ := List.mem_map.mp h
    exact List.mem_map_of_mem (mem_of_mem_fromPairs he)
  · intro h
    obtain ⟨e, he, rfl⟩ := List.mem_map.mp h
    by_contra hno
    have hnone := lookup_eq_none_of_notMem hno
    rw [lookup_fromPairs, List.lookup_eq_none_iff] at hnone
    exact bne_iff_ne.mp (hnone e (List.mem_reverse.mpr he)) rfl

end SqlOptima.InsertionDict
