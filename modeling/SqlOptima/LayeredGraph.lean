import Mathlib.Data.List.Nodup
import Mathlib.Data.List.Perm.Basic
import Mathlib.Logic.Relation

namespace SqlOptima.LayeredGraph

open Relation (TransGen ReflTransGen)

/-!
# Levels of a directed graph

A finite directed graph, its cycles, and the level of a node as the length of the longest walk that
ends there.
-/

structure DiGraph (V : Type*) where
  nodes : List V
  edges : List (V × V)
  nodup : nodes.Nodup
  endpoints : ∀ e ∈ edges, e.1 ∈ nodes ∧ e.2 ∈ nodes

namespace DiGraph

variable {V : Type*} (g : DiGraph V)

def Edge (a b : V) : Prop := (a, b) ∈ g.edges

def Acyclic : Prop := ∀ a, ¬ TransGen g.Edge a a

/-- The two nodes lie on a common cycle, or are one node. -/
def Mutual (a b : V) : Prop := ReflTransGen g.Edge a b ∧ ReflTransGen g.Edge b a

/-- A walk of so many edges that ends at the node. -/
inductive Walk : Nat → V → Prop
  | start {a : V} (h : a ∈ g.nodes) : Walk 0 a
  | step {n : Nat} {a b : V} (h : Walk n a) (hedge : g.Edge a b) : Walk (n + 1) b

structure Longest (b : V) (n : Nat) : Prop where
  walk : g.Walk n b
  bound : ∀ m, g.Walk m b → m ≤ n

/-- Every node of the list has its predecessors before it. -/
def Forward (order : List V) : Prop :=
  ∀ done b rest, order = done ++ b :: rest → ∀ a, g.Edge a b → a ∈ done

variable {g}

theorem acyclic_iff :
    g.Acyclic ↔ (∀ a, ¬ g.Edge a a) ∧ ∀ a b, g.Mutual a b → a = b := by
  constructor
  · intro h
    refine ⟨fun a hloop => h a (.single hloop), fun a b hab => ?_⟩
    by_contra hne
    obtain ⟨c, hac, hcb⟩ := (ReflTransGen.cases_head hab.1).resolve_left hne
    exact h a (.head' hac (hcb.trans hab.2))
  · rintro ⟨hloop, hmutual⟩ a hcycle
    obtain ⟨b, hab, hba⟩ := TransGen.head'_iff.mp hcycle
    obtain rfl := hmutual a b ⟨.single hab, hba⟩
    exact hloop a hab

section Order

variable {order : List V}

theorem Forward.before (h : g.Forward order) {a b : V} (hab : TransGen g.Edge a b) :
    ∀ done rest, order = done ++ b :: rest → a ∈ done := by
  induction hab with
  | single hedge => exact fun done rest horder => h done _ rest horder _ hedge
  | @tail c b _ hedge ih =>
      intro done rest horder
      obtain ⟨before, between, rfl⟩ := List.append_of_mem (h done b rest horder c hedge)
      rw [List.append_assoc] at horder
      exact List.mem_append_left _ (ih before _ horder)

theorem Forward.acyclic (h : g.Forward order) (hperm : order.Perm g.nodes) : g.Acyclic := by
  intro a hcycle
  have hmem : a ∈ g.nodes := by
    obtain ⟨b, hab, -⟩ := TransGen.head'_iff.mp hcycle
    exact (g.endpoints _ hab).1
  obtain ⟨done, rest, horder⟩ := List.append_of_mem (hperm.mem_iff.mpr hmem)
  have hnodup := hperm.nodup_iff.mpr g.nodup
  rw [horder, List.nodup_append] at hnodup
  exact hnodup.2.2 a (h.before hcycle done rest horder) a List.mem_cons_self rfl

theorem forward_of_idxOf [DecidableEq V]
    (h : ∀ e ∈ g.edges, order.idxOf e.1 < order.idxOf e.2) : g.Forward order := by
  rintro done b rest rfl a hedge
  have hlt := h _ hedge
  have hb : (done ++ b :: rest).idxOf b ≤ done.length := by
    rw [List.idxOf_append]
    split
    · exact Nat.le_of_lt (List.idxOf_lt_length_of_mem ‹_›)
    · have hzero : (b :: rest).idxOf b = 0 := List.idxOf_cons_self
      omega
  by_contra ha
  change (done ++ b :: rest).idxOf a < (done ++ b :: rest).idxOf b at hlt
  rw [List.idxOf_append_of_notMem ha] at hlt
  omega

end Order

theorem longest_zero {b : V} (hb : b ∈ g.nodes) (hno : ∀ a, ¬ g.Edge a b) : g.Longest b 0 where
  walk := .start hb
  bound m hm := by
    cases hm with
    | start _ => exact Nat.le_refl _
    | step _ hedge => exact absurd hedge (hno _)

/-- The level of a node is one more than the greatest level before it. -/
theorem longest_succ {b : V} {n : Nat} {level : V → Nat}
    (hlevel : ∀ a, g.Edge a b → g.Longest a (level a)) (hmax : ∃ a, g.Edge a b ∧ level a = n)
    (hbound : ∀ a, g.Edge a b → level a ≤ n) : g.Longest b (n + 1) where
  walk := by
    obtain ⟨a, hedge, rfl⟩ := hmax
    exact .step (hlevel a hedge).walk hedge
  bound m hm := by
    cases hm with
    | start _ => exact Nat.zero_le _
    | step hwalk hedge =>
        have hle := (hlevel _ hedge).bound _ hwalk
        have hn := hbound _ hedge
        omega

end DiGraph

section Groups

variable {α : Type*} (f : α → Nat)

/-- The classes of a list by a number make up the list. -/
theorem flatMap_filter_perm (xs : List α) (n : Nat) :
    ((List.range n).flatMap fun i => xs.filter fun x => f x == i).Perm
      (xs.filter fun x => f x < n) := by
  induction n with
  | zero =>
      rw [List.filter_eq_nil_iff.mpr (fun x _ => by simp)]
      exact .refl _
  | succ n ih =>
      rw [List.range_succ, List.flatMap_append, List.flatMap_singleton]
      refine (ih.append_right _).trans ?_
      have hsplit := List.filter_append_perm (fun x => decide (f x < n))
        (xs.filter fun x => f x < n + 1)
      rw [List.filter_filter, List.filter_filter] at hsplit
      refine List.Perm.trans (.of_eq ?_) hsplit
      congr 1
      · refine List.filter_congr fun x _ => ?_
        rw [Bool.eq_iff_iff]
        simp only [Bool.and_eq_true, decide_eq_true_eq]
        omega
      · refine List.filter_congr fun x _ => ?_
        rw [Bool.eq_iff_iff]
        simp only [Bool.and_eq_true, Bool.not_eq_true', decide_eq_false_iff_not, beq_iff_eq,
          decide_eq_true_eq]
        omega

end Groups

end SqlOptima.LayeredGraph
