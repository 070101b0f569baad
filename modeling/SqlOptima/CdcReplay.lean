import SqlOptima.CdcPollDelivery
import SqlOptima.CdcStatements

namespace SqlOptima.CdcReplay

open CdcPoll CdcPollDelivery CdcStatements

/-!
# Replay of a change log
-/

section Writes

/-! Writes to a map, of which the last one to a key counts. -/

variable {K R : Type} [DecidableEq K]

def writeAll (map : K → Option R) (writes : List (K × Option R)) : K → Option R :=
  writes.foldl (fun map w => Function.update map w.1 w.2) map

theorem writeAll_apply (map : K → Option R) (writes : List (K × Option R)) (k : K) :
    writeAll map writes k = (writes.reverse.lookup k).getD (map k) := by
  induction writes using List.reverseRecOn with
  | nil => rfl
  | append_singleton writes w ih =>
      rw [writeAll, List.foldl_append, List.foldl_cons, List.foldl_nil, List.reverse_append,
        List.reverse_singleton, List.singleton_append, ← writeAll]
      obtain ⟨key, value⟩ := w
      by_cases hk : k = key
      · rw [hk, Function.update_self, List.lookup_cons_self, Option.getD_some]
      · rw [Function.update_of_ne hk, List.lookup_cons, beq_false_of_ne hk, ih]

theorem writeAll_append (map : K → Option R) (writes writes' : List (K × Option R)) :
    writeAll map (writes ++ writes') = writeAll (writeAll map writes) writes' :=
  List.foldl_append

/-- The last writes, made once more, change nothing. -/
theorem writeAll_again (map : K → Option R) (writes writes' : List (K × Option R)) :
    writeAll (writeAll map (writes ++ writes')) writes' = writeAll map (writes ++ writes') := by
  funext k
  rw [writeAll_append, writeAll_apply _ writes', writeAll_apply _ writes']
  cases writes'.reverse.lookup k with
  | none => rfl
  | some value => rfl

end Writes

section Target

variable {V : Type}

/-- A row; `none` is a null. -/
abbrev Row (V : Type) := String → Option V

abbrev Key (V : Type) := List (Option V)

/-- A table with a primary key: at most one row a key. -/
abbrev Table (V : Type) := Key V → Option (Row V)

def Table.empty : Table V := fun _ => none

def keyOf (pkColumns : List String) (row : Row V) : Key V := pkColumns.map row

def insertedRow (columns : List String) (args : List (Option V)) : Row V :=
  fun c => ((columns.zip args).lookup c).join

def overwrite (columns : List String) (old new : Row V) : Row V :=
  fun c => if c ∈ columns then new c else old c

variable [DecidableEq V]

/-- What the target does with a statement. -/
def run (table : Table V) : Execution V → Table V
  | ⟨.delete _ _ _, args⟩ => Function.update table args none
  | ⟨.upsert _ _ columns pkColumns, args⟩ =>
      let row := insertedRow columns args
      match table (keyOf pkColumns row) with
      | none => Function.update table (keyOf pkColumns row) (some row)
      | some old =>
          if updatedColumns columns pkColumns = [] then table
          else Function.update table (keyOf pkColumns row)
            (some (overwrite (updatedColumns columns pkColumns) old row))

def replayEvent (cfg : ApplyConfig) (table : Table V) (ev : CDCEvent (Option V)) :
    Except ApplyError (Table V) :=
  if ev.isApplicable then
    match prepare cfg ev with
    | .error e => .error e
    | .ok none => .ok table
    | .ok (some execution) => .ok (run table execution)
  else .ok table

def replay (cfg : ApplyConfig) : Table V → List (CDCEvent (Option V)) →
    Except ApplyError (Table V)
  | table, [] => .ok table
  | table, ev :: events =>
      match replayEvent cfg table ev with
      | .error e => .error e
      | .ok table' => replay cfg table' events

def replayLog (cfg : ApplyConfig) (table : Table V) (events : List (CDCEvent (Option V))) :
    Except ApplyError (Table V) :=
  replay cfg table (orderForApply events)

end Target

section Source

variable {V : Type} (cfg : ApplyConfig)

def eventRow (ev : CDCEvent (Option V)) : Row V :=
  fun c => if c ∈ cfg.columns then columnValue ev c else none

def eventKey (ev : CDCEvent (Option V)) : Key V := cfg.pkColumns.map (columnValue ev)

/-- What the source has under the key of an event: a before-image is of a row that goes. -/
def sourceValue (ev : CDCEvent (Option V)) : Option (Row V) :=
  match ev.operation with
  | .insert | .updateAfter => some (eventRow cfg ev)
  | .delete | .updateBefore => none

def sourceWrite (ev : CDCEvent (Option V)) : Key V × Option (Row V) :=
  (eventKey cfg ev, sourceValue cfg ev)

variable [DecidableEq V]

def sourceTable (events : List (CDCEvent (Option V))) : Table V :=
  writeAll Table.empty (events.map (sourceWrite cfg))

/-- The history of a source table with a primary key, in commit order. -/
structure History (events : List (CDCEvent (Option V))) : Prop where
  keyed : cfg.pkColumns ≠ []
  key_mem : ∀ c ∈ cfg.pkColumns, c ∈ cfg.columns
  complete : ∀ ev ∈ events, ∀ c ∈ cfg.columns, (ev.columns.lookup c).isSome
  keys : ∀ ev ∈ events, ∀ c ∈ cfg.pkColumns, columnValue ev c ≠ none
  ordered : events.Pairwise InOrder
  /-- A before-image is of a row that is there. -/
  images : ∀ before ev after, events = before ++ ev :: after → ev.operation = .updateBefore →
    sourceTable cfg before (eventKey cfg ev) ≠ none

/-- The log leads from the empty table to the table of the source, and no suffix of it leads away
from there. -/
def ReplaysSource (events : List (CDCEvent (Option V))) : Prop :=
  ∃ table, replayLog cfg Table.empty events = .ok table ∧ table = sourceTable cfg events ∧
    ∀ suffix, suffix <:+ events → replayLog cfg table suffix = .ok table

def lastEvent (events : List (CDCEvent (Option V))) (k : Key V) : Option (CDCEvent (Option V)) :=
  (events.filter fun ev => eventKey cfg ev = k).getLast?

/-- No key is left by an update that moves its row to another key, unless a later event is about
it. -/
def NoKeyAbandoned (events : List (CDCEvent (Option V))) : Prop :=
  ∀ k ev, lastEvent cfg events k = some ev → ev.operation ≠ .updateBefore

end Source

section Rows

variable {V : Type} {cfg : ApplyConfig} {events : List (CDCEvent (Option V))}
variable {ev : CDCEvent (Option V)} {table : Table V}

/-- What the loop writes for an event. -/
def appliedWrite (cfg : ApplyConfig) (ev : CDCEvent (Option V)) :
    Option (Key V × Option (Row V)) :=
  if ev.isApplicable then some (sourceWrite cfg ev) else none

/-- The rows of a replayed table. -/
structure Replayed (cfg : ApplyConfig) (table : Table V) : Prop where
  key : ∀ k row, table k = some row → keyOf cfg.pkColumns row = k
  columns : ∀ k row, table k = some row → ∀ c ∉ cfg.columns, row c = none

theorem lookup_zip_map {columns : List String} {f : String → Option V} (c : String) :
    (columns.zip (columns.map f)).lookup c = if c ∈ columns then some (f c) else none := by
  induction columns with
  | nil => rfl
  | cons d columns ih =>
      rw [List.map_cons, List.zip_cons_cons, List.lookup_cons, ih]
      by_cases hc : c = d
      · simp [hc]
      · simp [hc, beq_false_of_ne hc]

theorem insertedRow_eq : insertedRow cfg.columns (cfg.columns.map (columnValue ev)) =
    eventRow cfg ev := by
  funext c
  rw [insertedRow, lookup_zip_map, eventRow]
  split
  · rfl
  · rfl

theorem keyOf_eventRow (hmem : ∀ c ∈ cfg.pkColumns, c ∈ cfg.columns) :
    keyOf cfg.pkColumns (eventRow cfg ev) = eventKey cfg ev :=
  List.map_congr_left fun c hc => if_pos (hmem c hc)

theorem overwrite_eq {old new : Row V} (hkey : keyOf cfg.pkColumns old = keyOf cfg.pkColumns new)
    (hold : ∀ c ∉ cfg.columns, old c = none) (hnew : ∀ c ∉ cfg.columns, new c = none) :
    overwrite (updatedColumns cfg.columns cfg.pkColumns) old new = new := by
  funext c
  rw [overwrite]
  split
  · rfl
  · next hkept =>
      by_cases hcol : c ∈ cfg.columns
      · have hpk : c ∈ cfg.pkColumns := by
          by_contra hpk
          exact hkept (List.mem_filter.mpr ⟨hcol, decide_eq_true hpk⟩)
        exact List.map_inj_left.mp hkey c hpk
      · rw [hold c hcol, hnew c hcol]

theorem eventRow_of_notMem (ev : CDCEvent (Option V)) {c : String} (hc : c ∉ cfg.columns) :
    eventRow cfg ev c = none :=
  if_neg hc

theorem bindKey_eq {cs : List String} (hcomplete : ∀ c ∈ cs, (ev.columns.lookup c).isSome) :
    bindKey ev cs = .ok (cs.map (columnValue ev)) := by
  induction cs with
  | nil => rfl
  | cons c cs ih =>
      obtain ⟨hc, hcs⟩ := List.forall_mem_cons.mp hcomplete
      obtain ⟨v, hv⟩ := Option.isSome_iff_exists.mp hc
      rw [bindKey, hv, ih hcs, List.map_cons, columnValue, hv]
      rfl

theorem eventRow_of_sourceValue {row : Row V} (h : sourceValue cfg ev = some row) :
    row = eventRow cfg ev := by
  rw [sourceValue] at h
  split at h
  · exact (Option.some.inj h).symm
  · exact (Option.some.inj h).symm
  · cases h
  · cases h

theorem replayed_empty : Replayed cfg (Table.empty (V := V)) where
  key _ _ h := by cases h
  columns _ _ h := by cases h

end Rows

section Replay

variable {V : Type} [DecidableEq V] {cfg : ApplyConfig} {events : List (CDCEvent (Option V))}
variable {ev : CDCEvent (Option V)} {table : Table V}

theorem run_upsert (ev : CDCEvent (Option V)) (h : Replayed cfg table)
    (hmem : ∀ c ∈ cfg.pkColumns, c ∈ cfg.columns) :
    run table ⟨.upsert cfg.targetSchema cfg.targetTable cfg.columns cfg.pkColumns,
      cfg.columns.map (columnValue ev)⟩ =
        Function.update table (eventKey cfg ev) (some (eventRow cfg ev)) := by
  rw [run, insertedRow_eq, keyOf_eventRow hmem]
  cases hold : table (eventKey cfg ev) with
  | none => rfl
  | some old =>
      have hsame := overwrite_eq ((h.key _ old hold).trans (keyOf_eventRow hmem).symm)
        (h.columns _ old hold) fun c hc => eventRow_of_notMem ev hc
      dsimp only
      split
      · next hnone =>
          rw [hnone] at hsame
          have heq : old = eventRow cfg ev := by
            rw [← hsame]
            funext c
            exact (if_neg List.not_mem_nil).symm
          rw [← heq, ← hold, Function.update_eq_self]
      · rw [hsame]

/-- One event of a history writes what it says, before-images apart. -/
theorem replayEvent_eq (hhistory : History cfg events) (hev : ev ∈ events)
    (h : Replayed cfg table) :
    replayEvent cfg table ev = .ok (writeAll table (appliedWrite cfg ev).toList) := by
  have hkey : ∀ c ∈ cfg.pkColumns, (ev.columns.lookup c).isSome := fun c hc =>
    hhistory.complete ev hev c (hhistory.key_mem c hc)
  have hcolumns : cfg.columns ≠ [] := by
    obtain ⟨c, hc⟩ := List.exists_mem_of_ne_nil _ hhistory.keyed
    exact List.ne_nil_of_mem (hhistory.key_mem c hc)
  have hupsert := run_upsert ev h hhistory.key_mem
  have hstatement : ¬ (cfg.columns = [] ∨ cfg.pkColumns = []) :=
    not_or.mpr ⟨hcolumns, hhistory.keyed⟩
  rw [replayEvent, appliedWrite, sourceWrite, sourceValue, prepare, statementFor, bindArgs,
    CDCEvent.isApplicable, CDCOperation.isApplicable]
  cases ev.operation with
  | delete =>
      simp only [buildApplyStatement]
      rw [bindKey_eq hkey, if_neg hhistory.keyed]
      rfl
  | insert =>
      simp only [buildApplyStatement]
      rw [if_neg hstatement]
      exact congrArg Except.ok hupsert
  | updateBefore => rfl
  | updateAfter =>
      simp only [buildApplyStatement]
      rw [if_neg hstatement]
      exact congrArg Except.ok hupsert

theorem replayed_write (ev : CDCEvent (Option V)) (hmem : ∀ c ∈ cfg.pkColumns, c ∈ cfg.columns)
    (h : Replayed cfg table) :
    Replayed cfg (writeAll table (appliedWrite cfg ev).toList) := by
  rw [appliedWrite]
  split
  · change Replayed cfg (Function.update table (eventKey cfg ev) (sourceValue cfg ev))
    have hwrite : ∀ k row,
        Function.update table (eventKey cfg ev) (sourceValue cfg ev) k = some row →
          table k = some row ∨ k = eventKey cfg ev ∧ row = eventRow cfg ev := by
      intro k row hrow
      by_cases hk : k = eventKey cfg ev
      · rw [hk, Function.update_self] at hrow
        exact Or.inr ⟨hk, eventRow_of_sourceValue hrow⟩
      · rw [Function.update_of_ne hk] at hrow
        exact Or.inl hrow
    constructor
    · intro k row hrow
      rcases hwrite k row hrow with hold | ⟨rfl, rfl⟩
      · exact h.key k row hold
      · exact keyOf_eventRow hmem
    · intro k row hrow c hc
      rcases hwrite k row hrow with hold | ⟨rfl, rfl⟩
      · exact h.columns k row hold c hc
      · exact eventRow_of_notMem ev hc
  · exact h

theorem replay_eq (hhistory : History cfg events) {log : List (CDCEvent (Option V))}
    (hlog : ∀ ev ∈ log, ev ∈ events) (h : Replayed cfg table) :
    replay cfg table log = .ok (writeAll table (log.filterMap (appliedWrite cfg))) ∧
      Replayed cfg (writeAll table (log.filterMap (appliedWrite cfg))) := by
  induction log generalizing table with
  | nil => exact ⟨rfl, h⟩
  | cons ev log ih =>
      obtain ⟨hev, hrest⟩ := List.forall_mem_cons.mp hlog
      have hnext := ih hrest (replayed_write ev hhistory.key_mem h)
      have hwrites : (ev :: log).filterMap (appliedWrite cfg) =
          (appliedWrite cfg ev).toList ++ log.filterMap (appliedWrite cfg) := by
        rw [List.filterMap_cons]
        cases appliedWrite cfg ev with
        | none => rfl
        | some w => rfl
      rw [hwrites, writeAll_append, replay, replayEvent_eq hhistory hev h]
      exact hnext

theorem replayLog_eq (hhistory : History cfg events) {log : List (CDCEvent (Option V))}
    (hlog : log <:+ events) (h : Replayed cfg table) :
    replayLog cfg table log = .ok (writeAll table (log.filterMap (appliedWrite cfg))) := by
  rw [replayLog, orderForApply_of_inOrder (hhistory.ordered.sublist hlog.sublist)]
  exact (replay_eq hhistory (fun ev hev => hlog.mem hev) h).1

end Replay

section Agreement

variable {V : Type} [DecidableEq V] {cfg : ApplyConfig} {events : List (CDCEvent (Option V))}

theorem lastEvent_append (ev : CDCEvent (Option V)) (k : Key V) :
    lastEvent cfg (events ++ [ev]) k =
      if eventKey cfg ev = k then some ev else lastEvent cfg events k := by
  rw [lastEvent, List.filter_append]
  split
  · next hk =>
      rw [List.filter_cons, if_pos (decide_eq_true hk), List.filter_nil, List.getLast?_concat]
  · next hk =>
      rw [List.filter_cons, if_neg (by simpa using hk), List.filter_nil, List.append_nil, lastEvent]

theorem writeAll_snoc {K R : Type} [DecidableEq K] (map : K → Option R)
    (writes : List (K × Option R)) (w : K × Option R) (k : K) :
    writeAll map (writes ++ [w]) k = if w.1 = k then w.2 else writeAll map writes k := by
  rw [writeAll_append]
  change Function.update (writeAll map writes) w.1 w.2 k = _
  rw [Function.update_apply]
  exact if_congr eq_comm rfl rfl

theorem sourceTable_append (ev : CDCEvent (Option V)) (k : Key V) :
    sourceTable cfg (events ++ [ev]) k =
      if eventKey cfg ev = k then sourceValue cfg ev else sourceTable cfg events k := by
  rw [sourceTable, List.map_append, List.map_singleton, writeAll_snoc]
  rfl

theorem sourceTable_eq (events : List (CDCEvent (Option V))) (k : Key V) :
    sourceTable cfg events k = (lastEvent cfg events k).bind (sourceValue cfg) := by
  induction events using List.reverseRecOn with
  | nil => rfl
  | append_singleton events ev ih =>
      rw [sourceTable_append, lastEvent_append]
      split
      · rfl
      · exact ih

def replayedTable (cfg : ApplyConfig) (events : List (CDCEvent (Option V))) : Table V :=
  writeAll Table.empty (events.filterMap (appliedWrite cfg))

theorem replayedTable_append (ev : CDCEvent (Option V)) (k : Key V) :
    replayedTable cfg (events ++ [ev]) k =
      if eventKey cfg ev = k ∧ ev.operation ≠ .updateBefore then sourceValue cfg ev
      else replayedTable cfg events k := by
  rw [replayedTable, List.filterMap_append]
  by_cases hop : ev.operation = .updateBefore
  · have hskipped : appliedWrite cfg ev = none := by
      rw [appliedWrite, CDCEvent.isApplicable, hop]
      rfl
    rw [if_neg fun h => h.2 hop, List.filterMap_cons_none hskipped, List.filterMap_nil,
      List.append_nil, replayedTable]
  · have happlied : appliedWrite cfg ev = some (sourceWrite cfg ev) :=
      if_pos (decide_eq_true hop)
    rw [List.filterMap_cons_some happlied, List.filterMap_nil, writeAll_snoc]
    exact if_congr (and_iff_left hop).symm rfl rfl

/-- Under a key the replayed table is right unless the last event of the key is a before-image. -/
theorem replayedTable_eq_iff
    (himages : ∀ before ev after, events = before ++ ev :: after →
      ev.operation = .updateBefore → sourceTable cfg before (eventKey cfg ev) ≠ none)
    (k : Key V) :
    replayedTable cfg events k = sourceTable cfg events k ↔
      ∀ ev, lastEvent cfg events k = some ev → ev.operation ≠ .updateBefore := by
  induction events using List.reverseRecOn with
  | nil => exact iff_of_true rfl fun ev hev => by cases hev
  | append_singleton events ev ih =>
      have ih := ih fun before e after heq => himages before e (after ++ [ev]) (by simp [heq])
      rw [replayedTable_append, sourceTable_append, lastEvent_append]
      by_cases hk : eventKey cfg ev = k
      · rw [if_pos hk, if_pos hk]
        by_cases hop : ev.operation = .updateBefore
        · have hgone : sourceValue cfg ev = none := by rw [sourceValue, hop]
          have hthere := himages events ev [] rfl hop
          rw [hk, sourceTable_eq] at hthere
          have hright := ih.mpr fun last hlast hbefore => hthere (by
            rw [hlast, Option.bind_some, sourceValue, hbefore])
          rw [if_neg fun h => h.2 hop, hgone, hright, sourceTable_eq]
          exact iff_of_false hthere fun h => h ev rfl hop
        · rw [if_pos ⟨hk, hop⟩]
          refine iff_of_true rfl fun last hlast => ?_
          cases hlast
          exact hop
      · rw [if_neg fun h => hk h.1, if_neg hk, if_neg hk]
        exact ih

/-- Replay gives the source's table, and gives it again from any place of the log, exactly when no
update abandons a key. -/
theorem replaysSource_iff (h : History cfg events) :
    ReplaysSource cfg events ↔ NoKeyAbandoned cfg events := by
  have hreplay : replayLog cfg Table.empty events = .ok (replayedTable cfg events) :=
    replayLog_eq h List.suffix_rfl replayed_empty
  have hkept : Replayed cfg (replayedTable cfg events) :=
    (replay_eq h (fun _ hev => hev) replayed_empty).2
  constructor
  · rintro ⟨table, htable, rfl, -⟩ k
    rw [hreplay] at htable
    exact (replayedTable_eq_iff h.images k).mp (congrFun (Except.ok.inj htable) k)
  · intro hkeys
    refine ⟨_, hreplay, ?_, ?_⟩
    · funext k
      exact (replayedTable_eq_iff h.images k).mpr (hkeys k)
    · rintro suffix ⟨before, rfl⟩
      rw [replayLog_eq h ⟨before, rfl⟩ hkept, replayedTable, List.filterMap_append]
      exact congrArg Except.ok (writeAll_again _ _ _)

end Agreement

section Example

def ordersTarget : ApplyConfig := ⟨"public", "orders", ["id", "name"], ["id"]⟩

def orderEvent (operation : CDCOperation) (id name : Nat) : CDCEvent (Option Nat) :=
  ⟨.zero, .zero, .zero, operation, "dbo", "orders", [("id", some id), ("name", some name)]⟩

def renamed (id : Nat) : List (CDCEvent (Option Nat)) :=
  [orderEvent .insert 1 7, orderEvent .updateBefore 1 7, orderEvent .updateAfter id 8]

theorem images_renamed {id : Nat} {before after : List (CDCEvent (Option Nat))}
    {ev : CDCEvent (Option Nat)} (heq : renamed id = before ++ ev :: after)
    (hop : ev.operation = .updateBefore) : before = [orderEvent .insert 1 7] ∧
      ev = orderEvent .updateBefore 1 7 := by
  rcases before with _ | ⟨first, _ | ⟨second, before⟩⟩
  · cases heq
    cases hop
  · cases heq
    exact ⟨rfl, rfl⟩
  · obtain ⟨-, -, hlast⟩ : orderEvent .insert 1 7 = first ∧
        orderEvent .updateBefore 1 7 = second ∧
        [orderEvent .updateAfter id 8] = before ++ ev :: after := by
      simpa [renamed] using heq
    have hev : ev ∈ [orderEvent .updateAfter id 8] := by simp [hlast]
    rw [List.mem_singleton.mp hev] at hop
    cases hop

theorem history_renamed : History ordersTarget (renamed 1) where
  keyed := by decide
  key_mem := by decide
  complete := by decide
  keys := by decide
  ordered := by
    have hinOrder : ∀ a ∈ renamed 1, ∀ b ∈ renamed 1, eventLess b a = false := by decide
    exact List.Pairwise.imp_of_mem (fun ha hb _ => hinOrder _ ha _ hb)
      (List.pairwise_of_forall fun _ _ => trivial)
  images before ev after heq hop := by
    obtain ⟨rfl, rfl⟩ := images_renamed heq hop
    exact Option.isSome_iff_ne_none.mp rfl

theorem renamed_replays : ReplaysSource ordersTarget (renamed 1) := by
  refine (replaysSource_iff history_renamed).mpr fun k ev hlast => ?_
  by_cases hk : [some 1] = k
  · subst hk
    have hafter : some (orderEvent .updateAfter 1 8) = some ev := hlast
    cases hafter
    exact CDCOperation.noConfusion
  · have hmem : ev ∈ (renamed 1).filter fun ev => eventKey ordersTarget ev = k :=
      List.mem_of_getLast? hlast
    obtain ⟨hev, hkey⟩ := List.mem_filter.mp hmem
    have hkeys : ∀ ev ∈ renamed 1, eventKey ordersTarget ev = [some 1] := by decide
    exact absurd ((hkeys ev hev).symm.trans (of_decide_eq_true hkey)) hk

/-- An update of the key leaves the row under the old key in the target. -/
theorem moved_key_stays : ¬ ReplaysSource ordersTarget (renamed 2) := by
  rintro ⟨table, htable, hsource, -⟩
  have hthere : ∃ table, replayLog ordersTarget Table.empty (renamed 2) = .ok table ∧
      (table [some 1]).isSome := ⟨_, rfl, by decide⟩
  have hgone : (sourceTable ordersTarget (renamed 2) [some 1]).isSome = false := by decide
  obtain ⟨table', htable', hrow⟩ := hthere
  rw [htable] at htable'
  cases htable'
  rw [hsource, hgone] at hrow
  cases hrow

end Example

end SqlOptima.CdcReplay
