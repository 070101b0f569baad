import SqlOptima.ChangeApply

namespace SqlOptima.ApplyStatements

open SqlOptima.CdcCapture

variable {V : Type}

/-- A row of the target; `none` is a null. -/
structure TargetRow (V : Type) where
  schema : String
  table : String
  value : String → Option V

/-- `a or b or {}`, where an empty dictionary counts as false. -/
def firstNonEmpty (a b : Option (List (String × Option V))) : List (String × Option V) :=
  if a.getD [] = [] then b.getD [] else a.getD []

/-- Python's dictionary `get`. -/
def getValue (values : List (String × Option V)) (c : String) : Option V :=
  (values.lookup c).join

def detectPk (e : ChangeEvent (Option V)) : List String :=
  match firstNonEmpty e.afterValues e.beforeValues with
  | [] => ["id"]
  | (c, _) :: _ => [c]

/-- The conflict columns; `pkColumns` is empty where the caller gives none. -/
def upsertKey (pkColumns : List String) (e : ChangeEvent (Option V)) : List String :=
  if pkColumns = [] then detectPk e else pkColumns

def deleteKey (pkColumns : List String) (e : ChangeEvent (Option V)) : List String :=
  if pkColumns = [] then (e.beforeValues.getD []).map Prod.fst else pkColumns

def overwrite (values : List (String × Option V)) (row : TargetRow V) : TargetRow V :=
  { row with value := fun c => (values.lookup c).getD (row.value c) }

section Statements

variable [DecidableEq V] (pkColumns : List String) (e : ChangeEvent (Option V))

/-- The row is of the event's table and has these values in the columns, none of them null. -/
def agrees (columns : List String) (values : List (String × Option V)) (row : TargetRow V) : Bool :=
  row.schema = e.tableSchema && row.table = e.tableName && columns.all fun c =>
    (row.value c).isSome && row.value c = getValue values c

def nullKey : Bool :=
  (upsertKey pkColumns e).any fun c => (getValue (e.afterValues.getD []) c).isNone

def conflicts : TargetRow V → Bool :=
  agrees e (upsertKey pkColumns e) (e.afterValues.getD [])

/-- `INSERT … ON CONFLICT (key) DO UPDATE SET …`, where the conflict columns are the table's primary
key: a null in it is refused. Without values the statement is empty. -/
def upsert (db : List (TargetRow V)) : List (TargetRow V) :=
  let values := e.afterValues.getD []
  if values = [] ∨ nullKey pkColumns e then db
  else if db.any (conflicts pkColumns e) then
    db.map fun row => if conflicts pkColumns e row then overwrite values row else row
  else db ++ [⟨e.tableSchema, e.tableName, getValue values⟩]

def deletes : TargetRow V → Bool :=
  agrees e (deleteKey pkColumns e) (e.beforeValues.getD [])

/-- `DELETE … WHERE …`; a delete without columns is no statement. -/
def delete (db : List (TargetRow V)) : List (TargetRow V) :=
  if deleteKey pkColumns e = [] then db else db.filter fun row => !deletes pkColumns e row

def execute (db : List (TargetRow V)) : List (TargetRow V) :=
  match e.operation with
  | .delete => delete pkColumns e db
  | .insert | .update | .updateMerge => upsert pkColumns e db

/-- A row with the event's key stands in the target, with the values that the event writes. -/
def UpsertSettled (db : List (TargetRow V)) : Prop :=
  e.afterValues.getD [] = [] ∨ nullKey pkColumns e = true ∨
    (∃ row ∈ db, conflicts pkColumns e row = true) ∧
      ∀ row ∈ db, conflicts pkColumns e row = true →
        ∀ c v, (e.afterValues.getD []).lookup c = some v → row.value c = v

/-- The row that the event deletes is not there. -/
def DeleteSettled (db : List (TargetRow V)) : Prop :=
  deleteKey pkColumns e = [] ∨ ∀ row ∈ db, ¬ deletes pkColumns e row = true

def Settled (db : List (TargetRow V)) : Prop :=
  match e.operation with
  | .delete => DeleteSettled pkColumns e db
  | .insert | .update | .updateMerge => UpsertSettled pkColumns e db

end Statements

section Effect

theorem overwrite_eq_self_iff {values : List (String × Option V)} {row : TargetRow V} :
    overwrite values row = row ↔ ∀ c v, values.lookup c = some v → row.value c = v := by
  obtain ⟨schema, table, value⟩ := row
  simp only [overwrite, TargetRow.mk.injEq, true_and]
  constructor
  · intro h c v hv
    have hc := congrFun h c
    rw [hv, Option.getD_some] at hc
    exact hc.symm
  · intro h
    funext c
    cases hv : values.lookup c with
    | none => rfl
    | some v => exact (h c v hv).symm

variable [DecidableEq V] {pkColumns : List String} {e : ChangeEvent (Option V)}
  {db : List (TargetRow V)}

theorem delete_eq_self_iff : delete pkColumns e db = db ↔ DeleteSettled pkColumns e db := by
  unfold delete DeleteSettled
  split
  · next h => exact iff_of_true rfl (Or.inl h)
  · next h =>
      rw [List.filter_eq_self]
      simp only [Bool.not_eq_true', Bool.not_eq_true, h, false_or]

theorem upsert_eq_self_iff : upsert pkColumns e db = db ↔ UpsertSettled pkColumns e db := by
  unfold upsert UpsertSettled
  simp only
  split
  · next h => exact iff_of_true rfl (h.elim Or.inl fun h => Or.inr (Or.inl h))
  · next h =>
      rw [not_or] at h
      simp only [h, Bool.false_eq_true, false_or]
      split
      · next hany =>
          have hmap : (db.map fun row => if conflicts pkColumns e row then
              overwrite (e.afterValues.getD []) row else row) = db ↔
              ∀ row ∈ db, conflicts pkColumns e row = true →
                overwrite (e.afterValues.getD []) row = row := by
            constructor
            · intro heq row hrow hconflict
              have := List.map_inj_left.mp (heq.trans (List.map_id db).symm) row hrow
              simpa [hconflict] using this
            · intro hall
              refine (List.map_congr_left fun row hrow => ?_).trans (List.map_id db)
              split
              · next hconflict => exact hall row hrow hconflict
              · rfl
          rw [hmap]
          simp only [overwrite_eq_self_iff]
          exact (and_iff_right (List.any_eq_true.mp hany)).symm
      · next hnone =>
          refine iff_of_false (fun heq => ?_) fun hsettled => ?_
          · have := congrArg List.length heq
            simp at this
          · exact hnone (List.any_eq_true.mpr hsettled.1)

theorem execute_eq_self_iff : execute pkColumns e db = db ↔ Settled pkColumns e db := by
  unfold execute Settled
  cases e.operation with
  | delete => exact delete_eq_self_iff
  | _ => exact upsert_eq_self_iff

end Effect

section Idempotence

variable [DecidableEq V] {pkColumns : List String} {e : ChangeEvent (Option V)}
  {db : List (TargetRow V)}

theorem conflicts_overwrite {row : TargetRow V} (h : conflicts pkColumns e row = true) :
    conflicts pkColumns e (overwrite (e.afterValues.getD []) row) = true := by
  simp only [conflicts, agrees, Bool.and_eq_true, List.all_eq_true, decide_eq_true_eq] at h ⊢
  refine ⟨h.1, fun c hc => ?_⟩
  obtain ⟨hsome, heq⟩ := h.2 c hc
  cases hlookup : (e.afterValues.getD []).lookup c with
  | none => simp [getValue, hlookup, heq] at hsome
  | some v =>
      simp only [getValue, hlookup, Option.join_some] at heq
      simp only [overwrite, getValue, hlookup, Option.getD_some, Option.join_some, and_true]
      rwa [heq] at hsome

theorem conflicts_new (h : ¬ nullKey pkColumns e = true) :
    conflicts pkColumns e
      ⟨e.tableSchema, e.tableName, getValue (e.afterValues.getD [])⟩ = true := by
  simp only [nullKey, List.any_eq_true, not_exists, not_and] at h
  simp only [conflicts, agrees, decide_true, Bool.true_and, Bool.and_true, List.all_eq_true]
  intro c hc
  exact Option.isSome_iff_ne_none.mpr fun hnone => h c hc (by rw [hnone]; rfl)

theorem upsertSettled_upsert : UpsertSettled pkColumns e (upsert pkColumns e db) := by
  unfold upsert
  simp only
  split
  · next h => exact h.elim Or.inl fun h => Or.inr (Or.inl h)
  · next h =>
      rw [not_or] at h
      refine Or.inr (Or.inr ?_)
      split
      · next hany =>
          obtain ⟨row, hrow, hconflict⟩ := List.any_eq_true.mp hany
          refine ⟨⟨_, List.mem_map.mpr ⟨row, hrow, if_pos hconflict⟩,
            conflicts_overwrite hconflict⟩, ?_⟩
          intro row' hrow' hconflict' c v hv
          obtain ⟨old, -, rfl⟩ := List.mem_map.mp hrow'
          by_cases hold : conflicts pkColumns e old = true
          · rw [if_pos hold]
            simp [overwrite, hv]
          · rw [if_neg hold] at hconflict'
            exact absurd hconflict' hold
      · next hnone =>
          refine ⟨⟨_, List.mem_append_right _ (List.mem_singleton_self _),
            conflicts_new h.2⟩, ?_⟩
          intro row hrow hconflict c v hv
          rcases List.mem_append.mp hrow with hmem | hmem
          · exact absurd (List.any_eq_true.mpr ⟨row, hmem, hconflict⟩) hnone
          · obtain rfl := List.mem_singleton.mp hmem
            simp [getValue, hv]

theorem deleteSettled_delete : DeleteSettled pkColumns e (delete pkColumns e db) := by
  unfold delete
  split
  · next h => exact Or.inl h
  · refine Or.inr fun row hrow hdeletes => ?_
    have hkept := (List.mem_filter.mp hrow).2
    rw [hdeletes] at hkept
    cases hkept

theorem settled_execute : Settled pkColumns e (execute pkColumns e db) := by
  unfold execute Settled
  cases e.operation with
  | delete => exact deleteSettled_delete
  | _ => exact upsertSettled_upsert

/-- An event that is applied twice in a row has the effect of one. -/
theorem execute_execute :
    execute pkColumns e (execute pkColumns e db) = execute pkColumns e db :=
  execute_eq_self_iff.mpr settled_execute

end Idempotence

end SqlOptima.ApplyStatements
