import SqlOptima.ApplyStatements
import SqlOptima.InsertionDict
import SqlOptima.ReplicationBus

namespace SqlOptima.ReplicationKeys

open CdcCapture ApplyStatements InsertionDict ReplicationBus

/-!
# The keys that changes are applied by
-/

section Consumer

structure StreamTableConfig where
  name : String
  pkColumns : List String
  targetTableName : Option String

/-- `t.target_table_name or t.name`, where an empty name counts as none. -/
def StreamTableConfig.targetName (t : StreamTableConfig) : String :=
  match t.targetTableName with
  | none => t.name
  | some n => if n = "" then t.name else n

/-- What the runtime builds the consumer of a stream from. `lower` is the lower-casing of names. -/
structure StreamConfig where
  targetSchema : String
  tables : List StreamTableConfig
  lower : String → String

namespace StreamConfig

variable (cfg : StreamConfig)

/-- The map under the lower-case names of its entries; a later one replaces an earlier one. -/
def lowerKeys {R : Type} (map : List (String × R)) : List (String × R) :=
  fromPairs (map.map fun entry => (cfg.lower entry.1, entry.2))

def tablePkMap : List (String × List String) :=
  cfg.lowerKeys (fromPairs (cfg.tables.map fun t => (t.name, t.pkColumns)))

def consumer : ConsumerConfig where
  targetSchema := cfg.targetSchema
  targetNames := cfg.lowerKeys (fromPairs (cfg.tables.map fun t => (t.name, t.targetName)))
  lower := cfg.lower

/-- The map has source names; it is asked for the target name. -/
def pkColumns (sourceName : String) : Option (List String) :=
  cfg.tablePkMap.lookup (cfg.lower (cfg.consumer.targetName sourceName))

end StreamConfig

variable {V : Type} (cfg : StreamConfig)

/-- What `handle` gives `apply` as primary key; the empty list stands for none. -/
def givenKey (e : ChangeEvent (Option V)) : List String := (cfg.pkColumns e.tableName).getD []

/-- The key columns of the statement for an event. -/
def usedKey (e : ChangeEvent (Option V)) : List String :=
  match e.operation with
  | .delete => deleteKey (givenKey cfg e) (cfg.consumer.retarget e)
  | .insert | .update | .updateMerge => upsertKey (givenKey cfg e) (cfg.consumer.retarget e)

variable [DecidableEq V]

/-- `handle`, of an event that is not a duplicate. -/
def handle (e : ChangeEvent (Option V)) (db : List (TargetRow V)) : List (TargetRow V) :=
  execute (givenKey cfg e) (cfg.consumer.retarget e) db

/-- The values an event names its row by: those from before a delete, those from after a write. -/
def keyValues (e : ChangeEvent (Option V)) : List (String × Option V) :=
  match e.operation with
  | .delete => e.beforeValues.getD []
  | .insert | .update | .updateMerge => e.afterValues.getD []

/-- The row of the target has the key of the event. -/
def hasKey (t : StreamTableConfig) (e : ChangeEvent (Option V)) (row : TargetRow V) : Bool :=
  agrees (cfg.consumer.retarget e) t.pkColumns (keyValues e) row

def IsOf (t : StreamTableConfig) (e : ChangeEvent (Option V)) : Prop :=
  cfg.lower e.tableName = cfg.lower t.name

/-- The events of the table are applied by its configured key: a delete takes away the rows with the
key of the event, a write overwrites them, and all other rows stay as they are. -/
structure AppliedByKey (V : Type) [DecidableEq V] (t : StreamTableConfig) : Prop where
  used : ∀ e : ChangeEvent (Option V), IsOf cfg t e → usedKey cfg e = t.pkColumns
  others : ∀ e : ChangeEvent (Option V), IsOf cfg t e → ∀ db,
    (handle cfg e db).filter (fun row => !hasKey cfg t e row) =
      db.filter fun row => !hasKey cfg t e row
  deleted : ∀ e : ChangeEvent (Option V), IsOf cfg t e → e.operation = .delete → ∀ db,
    ∀ row ∈ handle cfg e db, hasKey cfg t e row = false
  written : ∀ e : ChangeEvent (Option V), IsOf cfg t e → e.operation ≠ .delete → ∀ db,
    ∀ row ∈ handle cfg e db, hasKey cfg t e row = true →
      ∀ c v, (keyValues e).lookup c = some v → row.value c = v

end Consumer

section Frame

variable {V : Type} [DecidableEq V] {pkColumns : List String} {e : ChangeEvent (Option V)}

theorem filter_delete (db : List (TargetRow V)) :
    (delete pkColumns e db).filter (fun row => !deletes pkColumns e row) =
      db.filter fun row => !deletes pkColumns e row := by
  rw [delete]
  split
  · rfl
  · rw [List.filter_filter]
    simp only [Bool.and_self]

theorem filter_overwrite (db : List (TargetRow V)) :
    (db.map fun row => if conflicts pkColumns e row then overwrite (e.afterValues.getD []) row
      else row).filter (fun row => !conflicts pkColumns e row) =
      db.filter fun row => !conflicts pkColumns e row := by
  induction db with
  | nil => rfl
  | cons row db ih =>
      rw [List.map_cons]
      split
      · next hconflict =>
          rw [List.filter_cons, List.filter_cons, conflicts_overwrite hconflict, hconflict]
          exact ih
      · rw [List.filter_cons, List.filter_cons, ih]

/-- An upsert leaves the rows with another key as they are. -/
theorem filter_upsert (db : List (TargetRow V)) :
    (upsert pkColumns e db).filter (fun row => !conflicts pkColumns e row) =
      db.filter fun row => !conflicts pkColumns e row := by
  rw [upsert]
  split
  · rfl
  · next hwrites =>
      split
      · exact filter_overwrite db
      · have hnew := conflicts_new (not_or.mp hwrites).2
        rw [List.filter_append, List.filter_cons, hnew]
        exact List.append_nil _

theorem written_upsert {db : List (TargetRow V)} {row : TargetRow V}
    (hrow : row ∈ upsert pkColumns e db)
    (hconflict : conflicts pkColumns e row = true) {c : String} {v : Option V}
    (hv : (e.afterValues.getD []).lookup c = some v) : row.value c = v := by
  have hsettled : UpsertSettled pkColumns e (upsert pkColumns e db) := upsertSettled_upsert
  rcases hsettled with hvalues | hnull | ⟨-, hrows⟩
  · rw [hvalues] at hv
    cases hv
  · obtain ⟨c', hc', hnone⟩ := List.any_eq_true.mp hnull
    rw [conflicts, agrees, Bool.and_eq_true, List.all_eq_true] at hconflict
    have hcolumn := hconflict.2 c' hc'
    rw [Bool.and_eq_true, decide_eq_true_eq] at hcolumn
    rw [Option.isNone_iff_eq_none] at hnone
    rw [hcolumn.2, hnone] at hcolumn
    cases hcolumn.1
  · exact hrows row hrow hconflict c v hv

end Frame

section Keys

variable {V : Type} {cfg : StreamConfig} {t : StreamTableConfig} {e : ChangeEvent (Option V)}

theorem targetName_congr {name name' : String} (h : cfg.lower name = cfg.lower name') :
    cfg.consumer.targetName name = cfg.consumer.targetName name' := by
  have hlower : cfg.consumer.lower name = cfg.consumer.lower name' := h
  rw [ConsumerConfig.targetName, ConsumerConfig.targetName, hlower]

theorem givenKey_of_isOf (h : IsOf cfg t e) :
    givenKey cfg e = (cfg.pkColumns t.name).getD [] := by
  rw [givenKey, StreamConfig.pkColumns, StreamConfig.pkColumns, targetName_congr h]

/-- The configured key of the table stands under its target name. -/
def KeyFound (cfg : StreamConfig) (t : StreamTableConfig) : Prop :=
  t.pkColumns ≠ [] ∧ cfg.pkColumns t.name = some t.pkColumns

theorem usedKey_of_keyFound (hkey : KeyFound cfg t) (h : IsOf cfg t e) :
    givenKey cfg e = t.pkColumns ∧ usedKey cfg e = t.pkColumns := by
  have hgiven : givenKey cfg e = t.pkColumns := by rw [givenKey_of_isOf h, hkey.2, Option.getD_some]
  refine ⟨hgiven, ?_⟩
  rw [usedKey, hgiven]
  cases e.operation with
  | delete => exact if_neg hkey.1
  | insert => exact if_neg hkey.1
  | update => exact if_neg hkey.1
  | updateMerge => exact if_neg hkey.1

/-- Columns of events without a key to find: the first column that is written is taken. -/
theorem not_used_without_key (hgiven : (cfg.pkColumns t.name).getD [] = []) :
    ¬ ∀ e : ChangeEvent (Option V), IsOf cfg t e → usedKey cfg e = t.pkColumns := by
  intro hused
  have hof : ∀ e : ChangeEvent (Option V), e.tableName = t.name → IsOf cfg t e :=
    fun e hname => congrArg cfg.lower hname
  have hfallback : ∀ c : String, t.pkColumns = [c] := by
    intro c
    let e : ChangeEvent (Option V) := ⟨"", t.name, .insert, some [(c, none)], none, none⟩
    have hkey : givenKey cfg e = [] := (givenKey_of_isOf (hof e rfl)).trans hgiven
    rw [← hused e (hof e rfl), usedKey, hkey]
    rfl
  have hone := (hfallback "id").symm.trans (hfallback "modified")
  exact absurd hone (by decide)

end Keys

section Applied

variable {V : Type} [DecidableEq V] {cfg : StreamConfig} {t : StreamTableConfig}
variable {e : ChangeEvent (Option V)}

theorem hasKey_eq_deletes (h : KeyFound cfg t) (hof : IsOf cfg t e) (hop : e.operation = .delete) :
    hasKey cfg t e = deletes (givenKey cfg e) (cfg.consumer.retarget e) := by
  have hused := (usedKey_of_keyFound h hof).2
  rw [usedKey, hop] at hused
  funext row
  rw [hasKey, keyValues, hop, deletes]
  exact congrArg (fun key => agrees _ key _ row) hused.symm

theorem hasKey_eq_conflicts (h : KeyFound cfg t) (hof : IsOf cfg t e)
    (hop : e.operation ≠ .delete) :
    hasKey cfg t e = conflicts (givenKey cfg e) (cfg.consumer.retarget e) := by
  have hused := (usedKey_of_keyFound h hof).2
  rw [usedKey] at hused
  funext row
  rw [hasKey, keyValues, conflicts]
  cases hop' : e.operation with
  | delete => exact absurd hop' hop
  | _ =>
      rw [hop'] at hused
      exact congrArg (fun key => agrees _ key _ row) hused.symm

theorem handle_delete (hop : e.operation = .delete) (db : List (TargetRow V)) :
    handle cfg e db = delete (givenKey cfg e) (cfg.consumer.retarget e) db := by
  have hretarget : (cfg.consumer.retarget e).operation = .delete := hop
  rw [handle, execute, hretarget]

theorem handle_upsert (hop : e.operation ≠ .delete) (db : List (TargetRow V)) :
    handle cfg e db = upsert (givenKey cfg e) (cfg.consumer.retarget e) db := by
  have hretarget : (cfg.consumer.retarget e).operation = e.operation := rfl
  rw [handle, execute, hretarget]
  cases hop' : e.operation with
  | delete => exact absurd hop' hop
  | _ => rfl

theorem appliedByKey_of_keyFound (h : KeyFound cfg t) : AppliedByKey cfg V t where
  used _ hof := (usedKey_of_keyFound h hof).2
  others e hof db := by
    by_cases hop : e.operation = .delete
    · rw [hasKey_eq_deletes h hof hop, handle_delete hop]
      exact filter_delete db
    · rw [hasKey_eq_conflicts h hof hop, handle_upsert hop]
      exact filter_upsert db
  deleted e hof hop db row hrow := by
    have hsettled : DeleteSettled (givenKey cfg e) (cfg.consumer.retarget e) (handle cfg e db) := by
      rw [handle_delete hop]
      exact deleteSettled_delete
    rw [hasKey_eq_deletes h hof hop]
    rcases hsettled with hnone | hgone
    · have hused := (usedKey_of_keyFound h hof).2
      rw [usedKey, hop] at hused
      exact absurd (hused.symm.trans hnone) h.1
    · exact eq_false_of_ne_true (hgone row hrow)
  written e hof hop db row hrow hkey c v hv := by
    rw [hasKey_eq_conflicts h hof hop] at hkey
    rw [handle_upsert hop] at hrow
    refine written_upsert hrow hkey ?_
    rw [keyValues] at hv
    cases hop' : e.operation with
    | delete => exact absurd hop' hop
    | _ =>
        rw [hop'] at hv
        exact hv

/-- The changes of a stream are applied by the configured keys exactly when the key of every table
stands under its target name. -/
theorem appliedByKey_iff (V : Type) [DecidableEq V] (cfg : StreamConfig) :
    (∀ t ∈ cfg.tables, AppliedByKey cfg V t) ↔ ∀ t ∈ cfg.tables, KeyFound cfg t := by
  refine forall₂_congr fun t _ => ⟨fun h => ?_, appliedByKey_of_keyFound⟩
  by_cases hgiven : (cfg.pkColumns t.name).getD [] = []
  · exact absurd h.used (not_used_without_key hgiven)
  · let e : ChangeEvent (Option V) := ⟨"", t.name, .delete, none, none, none⟩
    have hof : IsOf cfg t e := rfl
    have hused := h.used e hof
    rw [usedKey, givenKey_of_isOf hof] at hused
    have hkey : (cfg.pkColumns t.name).getD [] = t.pkColumns := by
      rw [← hused]
      exact (if_neg hgiven).symm
    refine ⟨fun hnone => hgiven (hkey.trans hnone), ?_⟩
    rw [← hkey]
    cases hfound : cfg.pkColumns t.name with
    | none =>
        rw [hfound] at hgiven
        exact absurd rfl hgiven
    | some key => rfl

end Applied

section Example

def lowerLetters (s : String) : String := String.ofList (s.toList.map Char.toLower)

/-- A table whose target has another name. -/
def renamedStream : StreamConfig where
  targetSchema := "public"
  tables := [⟨"Orders", ["order_id"], some "sales_orders"⟩]
  lower := lowerLetters

def deletedOrder : ChangeEvent (Option Nat) :=
  ⟨"dbo", "Orders", .delete, none, some [("order_id", some 7), ("note", none)], none⟩

def storedOrder : TargetRow Nat :=
  ⟨"public", "sales_orders", fun c => if c = "order_id" then some 7 else none⟩

/-- The key is not found under the target name, so all columns are compared: the note of the order
is null, and the order stays. -/
theorem deleted_order_stays : ¬ ∀ t ∈ renamedStream.tables, AppliedByKey renamedStream Nat t := by
  intro h
  have hrows : handle renamedStream deletedOrder [storedOrder] = [storedOrder] := rfl
  have hgone := (h _ (List.mem_singleton_self _)).deleted deletedOrder rfl rfl [storedOrder]
    storedOrder (by rw [hrows]; exact List.mem_singleton_self _)
  cases hgone

end Example

end SqlOptima.ReplicationKeys
