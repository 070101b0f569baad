import SqlOptima.InsertionDict
import SqlOptima.LayeredGraph

namespace SqlOptima.DependencyGraphEngine

open LayeredGraph InsertionDict

/-!
# The dependency graph of database objects
-/

structure DatabaseObject (Id : Type) where
  id : Id
  fullyQualifiedName : String

structure CircularDependency (Id : Type) where
  objectIds : List Id
  pathDescription : String

inductive GraphError
  | valueError (message : String)

variable {Id : Type}

/-- The library's graph algorithms; `none` is `NetworkXUnfeasible`. -/
structure Networkx (Id : Type) where
  topologicalSort : DiGraph Id → Option (List Id)
  stronglyConnectedComponents : DiGraph Id → List (List Id)

/-- What the two algorithms promise for a graph. -/
structure Networkx.Correct (nx : Networkx Id) (g : DiGraph Id) : Prop where
  sorted : ∀ order, nx.topologicalSort g = some order → order.Perm g.nodes ∧ g.Forward order
  unfeasible : nx.topologicalSort g = none → ¬ g.Acyclic
  covered : ∀ a ∈ g.nodes, ∃ scc ∈ nx.stronglyConnectedComponents g, a ∈ scc
  nodup : ∀ scc ∈ nx.stronglyConnectedComponents g, scc.Nodup
  strong : ∀ scc ∈ nx.stronglyConnectedComponents g, ∀ a ∈ scc, ∀ b ∈ scc, g.Mutual a b
  maximal : ∀ scc ∈ nx.stronglyConnectedComponents g, ∀ a ∈ scc, ∀ b, g.Mutual a b → b ∈ scc

variable [DecidableEq Id]

structure DependencyGraphEngine (Id : Type) where
  graph : DiGraph Id
  objectMap : List (Id × DatabaseObject Id)

omit [DecidableEq Id] in
theorem nodup_addNode {g : DiGraph Id} {id : Id} (h : id ∉ g.nodes) : (g.nodes ++ [id]).Nodup :=
  List.concat_eq_append ▸ g.nodup.concat h

omit [DecidableEq Id] in
theorem endpoints_addNode (g : DiGraph Id) (id : Id) :
    ∀ e ∈ g.edges, e.1 ∈ g.nodes ++ [id] ∧ e.2 ∈ g.nodes ++ [id] :=
  fun e he => (g.endpoints e he).imp (List.mem_append_left _) (List.mem_append_left _)

def addNode (g : DiGraph Id) (id : Id) : DiGraph Id :=
  if h : id ∈ g.nodes then g
  else ⟨g.nodes ++ [id], g.edges, nodup_addNode h, endpoints_addNode g id⟩

omit [DecidableEq Id] in
theorem endpoints_addEdge {g : DiGraph Id} {source target : Id}
    (h : source ∈ g.nodes ∧ target ∈ g.nodes) :
    ∀ e ∈ g.edges ++ [(source, target)], e.1 ∈ g.nodes ∧ e.2 ∈ g.nodes := by
  intro e he
  rcases List.mem_append.mp he with hold | hnew
  · exact g.endpoints e hold
  · rw [List.mem_singleton.mp hnew]
    exact h

def addEdge (g : DiGraph Id) (source target : Id) (h : source ∈ g.nodes ∧ target ∈ g.nodes) :
    DiGraph Id :=
  if (source, target) ∈ g.edges then g
  else ⟨g.nodes, g.edges ++ [(source, target)], g.nodup, endpoints_addEdge h⟩

def addObject (e : DependencyGraphEngine Id) (obj : DatabaseObject Id) :
    DependencyGraphEngine Id where
  graph := addNode e.graph obj.id
  objectMap := assign e.objectMap obj.id obj

def addDependency (e : DependencyGraphEngine Id) (source target : Id) :
    Except GraphError (DependencyGraphEngine Id) :=
  if h : source ∈ e.graph.nodes ∧ target ∈ e.graph.nodes then
    .ok { e with graph := addEdge e.graph source target h }
  else .error (.valueError "Both source and target must be added as objects first.")

def addEdgesFromDependencies (e : DependencyGraphEngine Id) (dependencies : List (Id × Id)) :
    Except GraphError (DependencyGraphEngine Id) :=
  dependencies.foldlM (fun e dep => addDependency e dep.1 dep.2) e

def topologicalSort (nx : Networkx Id) (e : DependencyGraphEngine Id) : List Id :=
  (nx.topologicalSort e.graph).getD []

/-- `str` is Python's, of an identifier. -/
def getCircularDependencies (nx : Networkx Id) (str : Id → String)
    (e : DependencyGraphEngine Id) : List (CircularDependency Id) :=
  ((nx.stronglyConnectedComponents e.graph).filter fun scc => 1 < scc.length).map fun scc =>
    { objectIds := scc
      pathDescription := " -> ".intercalate (scc.map fun id =>
        ((e.objectMap.lookup id).map (·.fullyQualifiedName)).getD (str id)) }

def maximum : List Nat → Nat
  | [] => 0
  | n :: ns => if maximum ns ≤ n then n else maximum ns

def predecessors (g : DiGraph Id) (id : Id) : List Id :=
  (g.edges.filter fun edge => edge.2 = id).map Prod.fst

def assignLevel (g : DiGraph Id) (levels : List (Id × Nat)) (id : Id) : List (Id × Nat) :=
  assign levels id <|
    match predecessors g id with
    | [] => 0
    | preds => maximum (preds.map fun p => (levels.lookup p).getD 0) + 1

def addToGroup (groups : List (Nat × List Id)) (entry : Id × Nat) : List (Nat × List Id) :=
  assign groups entry.2 ((groups.lookup entry.2).getD [] ++ [entry.1])

def getDependencyOrderGroups (nx : Networkx Id) (e : DependencyGraphEngine Id) : List (List Id) :=
  match topologicalSort nx e with
  | [] => []
  | topological =>
      let levels := topological.foldl (assignLevel e.graph) []
      let groups := levels.foldl addToGroup []
      (List.range (maximum (groups.map Prod.fst) + 1)).map fun i => (groups.lookup i).getD []

section Maximum

theorem le_maximum {ns : List Nat} {n : Nat} (h : n ∈ ns) : n ≤ maximum ns := by
  induction ns with
  | nil => cases h
  | cons m ns ih =>
      rw [maximum]
      rcases List.mem_cons.mp h with rfl | hmem
      · split
        · exact Nat.le_refl _
        · next hlt => exact Nat.le_of_not_le hlt
      · split
        · next hle => exact Nat.le_trans (ih hmem) hle
        · exact ih hmem

theorem maximum_mem {ns : List Nat} (h : ns ≠ []) : maximum ns ∈ ns := by
  induction ns with
  | nil => exact absurd rfl h
  | cons m ns ih =>
      rw [maximum]
      split
      · exact List.mem_cons_self
      · next hlt =>
          refine List.mem_cons_of_mem _ (ih ?_)
          rintro rfl
          exact hlt (Nat.zero_le _)

end Maximum

section Levels

variable {g : DiGraph Id} {levels : List (Id × Nat)} {done rest : List Id} {id : Id}

theorem mem_predecessors {a b : Id} : a ∈ predecessors g b ↔ g.Edge a b := by
  rw [predecessors, List.mem_map]
  constructor
  · rintro ⟨⟨a, c⟩, hmem, rfl⟩
    obtain ⟨hedge, hc⟩ := List.mem_filter.mp hmem
    obtain rfl := of_decide_eq_true hc
    exact hedge
  · intro hedge
    exact ⟨(a, b), List.mem_filter.mpr ⟨hedge, decide_eq_true rfl⟩, rfl⟩

/-- The levels of the nodes that are done. -/
structure LevelsOf (g : DiGraph Id) (done : List Id) (levels : List (Id × Nat)) : Prop where
  keys : levels.map Prod.fst = done
  longest : ∀ entry ∈ levels, g.Longest entry.1 entry.2

theorem LevelsOf.longest_lookup (h : LevelsOf g done levels) (hmem : id ∈ done) :
    g.Longest id ((levels.lookup id).getD 0) := by
  rw [← h.keys] at hmem
  obtain ⟨level, hlookup, hentry⟩ := exists_lookup hmem
  rw [hlookup]
  exact h.longest _ hentry

/-- The level that a node takes when the ones of its predecessors are there. -/
theorem LevelsOf.longest_assigned (h : LevelsOf g done levels) (hid : id ∈ g.nodes)
    (hpreds : ∀ a, g.Edge a id → a ∈ done) :
    g.Longest id (match predecessors g id with
      | [] => 0
      | preds => maximum (preds.map fun p => (levels.lookup p).getD 0) + 1) := by
  split
  · next hnil =>
      refine DiGraph.longest_zero hid fun a hedge => ?_
      rw [← mem_predecessors, hnil] at hedge
      cases hedge
  · next preds hcons =>
      apply @DiGraph.longest_succ _ g _ _ fun p => (levels.lookup p).getD 0
      · exact fun a hedge => h.longest_lookup (hpreds a hedge)
      · have hne : (predecessors g id).map (fun p => (levels.lookup p).getD 0) ≠ [] :=
          fun hnil => hcons (List.map_eq_nil_iff.mp hnil)
        obtain ⟨a, ha, hmax⟩ := List.mem_map.mp (maximum_mem hne)
        exact ⟨a, mem_predecessors.mp ha, hmax⟩
      · exact fun a hedge => le_maximum (List.mem_map.mpr ⟨a, mem_predecessors.mpr hedge, rfl⟩)

/-- One node after its predecessors. -/
theorem LevelsOf.assign (h : LevelsOf g done levels) (hid : id ∈ g.nodes) (hnew : id ∉ done)
    (hpreds : ∀ a, g.Edge a id → a ∈ done) :
    LevelsOf g (done ++ [id]) (assignLevel g levels id) := by
  have hlevel := h.longest_assigned hid hpreds
  rw [assignLevel, assign_of_notMem (h.keys ▸ hnew)]
  constructor
  · rw [List.map_append, h.keys]
    rfl
  · intro entry hentry
    rcases List.mem_append.mp hentry with hold | hlast
    · exact h.longest entry hold
    · rw [List.mem_singleton.mp hlast]
      exact hlevel

theorem levelsOf_foldl (hnodes : ∀ a ∈ done ++ rest, a ∈ g.nodes) (hnodup : (done ++ rest).Nodup)
    (hforward : g.Forward (done ++ rest)) (h : LevelsOf g done levels) :
    LevelsOf g (done ++ rest) (rest.foldl (assignLevel g) levels) := by
  induction rest generalizing done levels with
  | nil => rwa [List.append_nil]
  | cons id rest ih =>
      have hnew : id ∉ done := fun hmem =>
        (List.nodup_append.mp hnodup).2.2 id hmem id List.mem_cons_self rfl
      have hnext := h.assign (hnodes id (List.mem_append_right _ List.mem_cons_self)) hnew
        (hforward done id rest rfl)
      rw [List.append_cons] at hnodes hnodup hforward ⊢
      exact ih hnodes hnodup hforward hnext

end Levels

section Groups

variable {levels : List (Id × Nat)}

omit [DecidableEq Id] in
theorem lookup_groups (levels : List (Id × Nat)) (i : Nat) :
    ((levels.foldl addToGroup []).lookup i).getD [] =
      (levels.filter fun entry => entry.2 == i).map Prod.fst := by
  induction levels using List.reverseRecOn with
  | nil => rfl
  | append_singleton levels entry ih =>
      rw [List.foldl_append, List.filter_append, List.map_append, ← ih]
      change ((assign _ entry.2 _).lookup i).getD [] = _
      rw [lookup_assign]
      by_cases hi : i = entry.2
      · rw [if_pos hi, hi]
        simp
      · rw [if_neg hi, List.filter_cons_of_neg (by simpa using Ne.symm hi), List.filter_nil,
          List.map_nil, List.append_nil]

omit [DecidableEq Id] in
theorem level_le {entry : Id × Nat} (h : entry ∈ levels) :
    entry.2 ≤ maximum ((levels.foldl addToGroup []).map Prod.fst) := by
  refine le_maximum ?_
  by_contra hkey
  have hgroup := lookup_groups levels entry.2
  rw [lookup_eq_none_of_notMem hkey] at hgroup
  have hmem : entry.1 ∈ (levels.filter fun e => e.2 == entry.2).map Prod.fst :=
    List.mem_map.mpr ⟨entry, List.mem_filter.mpr ⟨h, beq_self_eq_true _⟩, rfl⟩
  rw [← hgroup] at hmem
  cases hmem

end Groups

/-! ## What the order groups and the cycles say -/

/-- The groups are the levels of the graph. -/
structure Levelled (g : DiGraph Id) (groups : List (List Id)) : Prop where
  partition : groups.flatten.Perm g.nodes
  upward : ∀ a b, g.Edge a b → ∀ i j, a ∈ groups.getD i [] → b ∈ groups.getD j [] → i < j
  longest : ∀ i, ∀ b ∈ groups.getD i [], g.Longest b i

/-- A cycle is what keeps the objects from being ordered. -/
def CyclesReported (nx : Networkx Id) (str : Id → String) (e : DependencyGraphEngine Id) : Prop :=
  e.graph.nodes ≠ [] → (topologicalSort nx e = [] ↔ getCircularDependencies nx str e ≠ [])

def DependencyOrdering (nx : Networkx Id) (str : Id → String) (e : DependencyGraphEngine Id) :
    Prop :=
  (e.graph.Acyclic → Levelled e.graph (getDependencyOrderGroups nx e)) ∧ CyclesReported nx str e

section Levelled

variable {nx : Networkx Id} {e : DependencyGraphEngine Id}

omit [DecidableEq Id] in
theorem mem_of_mem_getD_map {f : Nat → List Id} {n i : Nat} {a : Id}
    (h : a ∈ ((List.range n).map f).getD i []) : a ∈ f i := by
  rw [List.getD_eq_getElem?_getD, List.getElem?_map] at h
  by_cases hi : i < n
  · rwa [List.getElem?_range hi] at h
  · rw [List.getElem?_eq_none (by rw [List.length_range]; omega)] at h
    cases h

omit [DecidableEq Id] in
theorem levelled_of_levels {g : DiGraph Id} {order : List Id} {levels : List (Id × Nat)}
    (hperm : order.Perm g.nodes) (h : LevelsOf g order levels) :
    Levelled g ((List.range (maximum ((levels.foldl addToGroup []).map Prod.fst) + 1)).map
      fun i => ((levels.foldl addToGroup []).lookup i).getD []) := by
  have hlongest : ∀ i, ∀ b ∈ ((List.range (maximum ((levels.foldl addToGroup []).map Prod.fst) +
      1)).map fun i => ((levels.foldl addToGroup []).lookup i).getD []).getD i [],
      g.Longest b i := by
    intro i b hb
    have hgroup := mem_of_mem_getD_map hb
    rw [lookup_groups] at hgroup
    obtain ⟨entry, hentry, rfl⟩ := List.mem_map.mp hgroup
    obtain ⟨hmem, hlevel⟩ := List.mem_filter.mp hentry
    rw [← beq_iff_eq.mp hlevel]
    exact h.longest entry hmem
  refine ⟨?_, fun a b hedge i j ha hb => ?_, hlongest⟩
  · have hall : levels.filter (fun entry =>
        entry.2 < maximum ((levels.foldl addToGroup []).map Prod.fst) + 1) = levels :=
      List.filter_eq_self.mpr fun entry hentry =>
        decide_eq_true (Nat.lt_succ_of_le (level_le hentry))
    have hclasses := (flatMap_filter_perm Prod.snd levels
      (maximum ((levels.foldl addToGroup []).map Prod.fst) + 1)).map Prod.fst
    rw [hall, h.keys, List.map_flatMap] at hclasses
    rw [← List.flatMap_def]
    simp only [lookup_groups]
    exact hclasses.trans hperm
  · exact (hlongest j b hb).bound _ (.step (hlongest i a ha).walk hedge)

/-- A sorted graph is put into its levels. -/
theorem levelled_of_sorted {order : List Id} (hsort : nx.topologicalSort e.graph = some order)
    (hperm : order.Perm e.graph.nodes) (hforward : e.graph.Forward order) :
    Levelled e.graph (getDependencyOrderGroups nx e) := by
  have horder : topologicalSort nx e = order := by
    rw [topologicalSort, hsort]
    rfl
  rw [getDependencyOrderGroups, horder]
  split
  · refine ⟨hperm, fun a b _ i j ha _ => ?_, fun i b hb => ?_⟩
    · cases ha
    · cases hb
  · exact levelled_of_levels hperm (@levelsOf_foldl _ _ _ [] [] _
      (fun a ha => hperm.mem_iff.mp ha) (hperm.nodup_iff.mpr e.graph.nodup) hforward
      ⟨rfl, nofun⟩)

end Levelled

section Cycles

variable {nx : Networkx Id} {e : DependencyGraphEngine Id}

omit [DecidableEq Id] in
theorem one_lt_length_iff {scc : List Id} (h : scc.Nodup) :
    1 < scc.length ↔ ∃ a ∈ scc, ∃ b ∈ scc, a ≠ b := by
  constructor
  · intro hlen
    refine ⟨scc[0], List.getElem_mem _, scc[1], List.getElem_mem _, fun heq => ?_⟩
    exact absurd ((h.getElem_inj_iff).mp heq) (by decide)
  · rintro ⟨a, ha, b, hb, hne⟩
    cases scc with
    | nil => cases ha
    | cons c rest =>
        cases rest with
        | nil => exact absurd ((List.mem_singleton.mp ha).trans (List.mem_singleton.mp hb).symm) hne
        | cons d rest => exact Nat.succ_lt_succ (Nat.succ_pos _)

omit [DecidableEq Id] in
theorem topologicalSort_eq_nil (h : nx.Correct e.graph) (hne : e.graph.nodes ≠ []) :
    topologicalSort nx e = [] ↔ ¬ e.graph.Acyclic := by
  rw [topologicalSort]
  cases hsort : nx.topologicalSort e.graph with
  | none => exact iff_of_true rfl (h.unfeasible hsort)
  | some order =>
      obtain ⟨hperm, hforward⟩ := h.sorted order hsort
      refine iff_of_false (fun hnil => hne ?_) (not_not.mpr (hforward.acyclic hperm))
      rw [Option.getD_some] at hnil
      rw [hnil] at hperm
      exact hperm.nil_eq.symm

/-- Cycles through two different objects are what is reported. -/
theorem getCircularDependencies_ne_nil (h : nx.Correct e.graph) (str : Id → String) :
    getCircularDependencies nx str e ≠ [] ↔ ∃ a b, a ≠ b ∧ e.graph.Mutual a b := by
  rw [getCircularDependencies, ne_eq, List.map_eq_nil_iff, List.filter_eq_nil_iff]
  constructor
  · intro hsome
    push Not at hsome
    obtain ⟨scc, hscc, hlen⟩ := hsome
    obtain ⟨a, ha, b, hb, hne⟩ := (one_lt_length_iff (h.nodup scc hscc)).mp (of_decide_eq_true hlen)
    exact ⟨a, b, hne, h.strong scc hscc a ha b hb⟩
  · rintro ⟨a, b, hne, hab⟩ hnone
    have ha : a ∈ e.graph.nodes := by
      obtain ⟨c, hac, -⟩ := (Relation.ReflTransGen.cases_head hab.1).resolve_left hne
      exact (e.graph.endpoints _ hac).1
    obtain ⟨scc, hscc, hmem⟩ := h.covered a ha
    have hb := h.maximal scc hscc a hmem b hab
    exact hnone scc hscc
      (decide_eq_true ((one_lt_length_iff (h.nodup scc hscc)).mpr ⟨a, hmem, b, hb, hne⟩))

/-- The ordering is right, and its cycles are the ones that are reported, unless the only cycles
are objects that refer to themselves. -/
theorem dependencyOrdering_iff (h : nx.Correct e.graph) (str : Id → String) :
    DependencyOrdering nx str e ↔
      ((∃ a, e.graph.Edge a a) → ∃ a b, a ≠ b ∧ e.graph.Mutual a b) := by
  have hlevels : e.graph.Acyclic → Levelled e.graph (getDependencyOrderGroups nx e) := by
    intro hacyclic
    cases hsort : nx.topologicalSort e.graph with
    | none => exact absurd hacyclic (h.unfeasible hsort)
    | some order =>
        obtain ⟨hperm, hforward⟩ := h.sorted order hsort
        exact levelled_of_sorted hsort hperm hforward
  rw [DependencyOrdering, and_iff_right hlevels, CyclesReported]
  constructor
  · rintro hreported ⟨a, hloop⟩
    have hne := List.ne_nil_of_mem (e.graph.endpoints _ hloop).1
    rw [topologicalSort_eq_nil h hne, getCircularDependencies_ne_nil h] at hreported
    exact (hreported hne).mp fun hacyclic => (DiGraph.acyclic_iff.mp hacyclic).1 a hloop
  · intro hloops hne
    rw [topologicalSort_eq_nil h hne, getCircularDependencies_ne_nil h, DiGraph.acyclic_iff]
    constructor
    · intro hcycle
      by_contra hnone
      push Not at hnone
      refine hcycle ⟨fun a hloop => ?_, fun a b hab => ?_⟩
      · obtain ⟨b, c, hne', hbc⟩ := hloops ⟨a, hloop⟩
        exact hnone b c hne' hbc
      · by_contra hne'
        exact hnone a b hne' hab
    · rintro ⟨a, b, hne', hab⟩ hacyclic
      exact hne' (hacyclic.2 a b hab)

end Cycles

section Examples

/-- Kahn's algorithm. -/
def kahn (g : DiGraph Nat) : Nat → List Nat → List Nat
  | 0, done => done
  | n + 1, done =>
      match g.nodes.find? fun a => !done.contains a && (predecessors g a).all done.contains with
      | none => done
      | some a => kahn g n (done ++ [a])

def reached (g : DiGraph Nat) : Nat → List Nat → List Nat
  | 0, found => found
  | n + 1, found =>
      reached g n (found ++ (g.edges.filter fun edge => found.contains edge.1).map Prod.snd)

def networkx : Networkx Nat where
  topologicalSort g :=
    let order := kahn g g.nodes.length []
    if order.length = g.nodes.length then some order else none
  stronglyConnectedComponents g :=
    let reaches (a : Nat) := reached g g.nodes.length [a]
    g.nodes.foldr (fun a sccs =>
      if sccs.any fun scc => scc.contains a then sccs
      else sccs ++ [g.nodes.filter fun b => (reaches a).contains b && (reaches b).contains a]) []

theorem reporting_endpoints :
    ∀ e ∈ [(0, 1), (1, 2)], e.1 ∈ [0, 1, 2] ∧ e.2 ∈ [0, 1, 2] := by decide

theorem reporting_nodup : [0, 1, 2].Nodup := by decide

/-- A table, a view of it and a procedure over the view. -/
def reporting : DependencyGraphEngine Nat where
  graph := ⟨[0, 1, 2], [(0, 1), (1, 2)], reporting_nodup, reporting_endpoints⟩
  objectMap := [(0, ⟨0, "db.dbo.Orders"⟩), (1, ⟨1, "db.dbo.OrderView"⟩), (2, ⟨2, "db.dbo.Report"⟩)]

theorem reporting_forward : reporting.graph.Forward [0, 1, 2] :=
  DiGraph.forward_of_idxOf (by decide)

theorem reporting_correct : networkx.Correct reporting.graph where
  sorted order h := by
    have horder : networkx.topologicalSort reporting.graph = some [0, 1, 2] := by decide
    obtain rfl := Option.some.inj (horder.symm.trans h)
    exact ⟨.refl _, reporting_forward⟩
  unfeasible h := by
    cases h
  covered := by decide
  nodup := by decide
  strong scc hscc a ha b hb := by
    have hsingle : ∀ scc ∈ networkx.stronglyConnectedComponents reporting.graph, ∀ a ∈ scc,
        ∀ b ∈ scc, a = b := by decide
    obtain rfl := hsingle scc hscc a ha b hb
    exact ⟨.refl, .refl⟩
  maximal scc hscc a ha b hab := by
    have hacyclic := reporting_forward.acyclic (.refl _)
    rwa [← (DiGraph.acyclic_iff.mp hacyclic).2 a b hab]

theorem reporting_ordered : DependencyOrdering networkx Nat.repr reporting :=
  (dependencyOrdering_iff reporting_correct Nat.repr).mpr fun ⟨a, hloop⟩ => by
    have hacyclic := reporting_forward.acyclic (.refl _)
    exact absurd hloop ((DiGraph.acyclic_iff.mp hacyclic).1 a)

theorem employees_endpoints : ∀ e ∈ [(0, 0)], e.1 ∈ [0] ∧ e.2 ∈ [0] := by decide

/-- A table that refers to itself. -/
def employees : DependencyGraphEngine Nat where
  graph := ⟨[0], [(0, 0)], List.nodup_singleton 0, employees_endpoints⟩
  objectMap := [(0, ⟨0, "db.dbo.Employees"⟩)]

/-- It has no order, and no cycle is reported. -/
theorem employees_notOrdered : ¬ DependencyOrdering networkx Nat.repr employees := by
  intro h
  have hreported := (h.2 (by decide)).mp (by decide)
  exact hreported rfl

end Examples

end SqlOptima.DependencyGraphEngine
