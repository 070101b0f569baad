import Mathlib.Data.List.Nodup

namespace SqlOptima.KeyedTable

variable {Row Key : Type*} [DecidableEq Key]

/-- The rows of a table with a given key. Rows without a key (a NULL among the
key columns) never conflict. -/
def rowsAt (key : Row → Option Key) (k : Option Key) (table : List Row) : List Row :=
  table.filter fun r => key r = k

def upsert (key : Row → Option Key) (table : List Row) (row : Row) : List Row :=
  if (key row).isSome ∧ ∃ r ∈ table, key r = key row then
    table.map fun r => if key r = key row then row else r
  else
    table ++ [row]

/-- Upsert many rows in one command, which needs unique keys in the table and
refuses to touch a row twice. -/
def merge (key : Row → Option Key) (table rows : List Row) : Option (List Row) :=
  if (table.filterMap key).Nodup ∧ (rows.filterMap key).Nodup then
    some (rows.foldl (upsert key) table)
  else
    none

variable {key : Row → Option Key} {table rows : List Row} {row : Row} {k : Option Key}

theorem rowsAt_append (table rows : List Row) :
    rowsAt key k (table ++ rows) = rowsAt key k table ++ rowsAt key k rows :=
  List.filter_append ..

theorem rowsAt_cons (row : Row) (rows : List Row) :
    rowsAt key k (row :: rows) =
      if key row = k then row :: rowsAt key k rows else rowsAt key k rows := by
  by_cases hk : key row = k <;> simp [rowsAt, hk]

theorem rowsAt_eq_nil_iff : rowsAt key k table = [] ↔ ∀ r ∈ table, key r ≠ k := by
  simp [rowsAt, List.filter_eq_nil_iff]

theorem length_rowsAt_le_one {c : Key} (hn : (table.filterMap key).Nodup) :
    (rowsAt key (some c) table).length ≤ 1 := by
  have hcount : (rowsAt key (some c) table).length = (table.filterMap key).count c := by
    rw [List.count_filterMap, rowsAt, List.countP_eq_length_filter]
    congr 1
    apply List.filter_congr
    intro r _
    exact (beq_eq_decide _ _).symm
  rw [hcount]
  exact List.nodup_iff_count_le_one.mp hn c

theorem rowsAt_replace_self (row : Row) (table : List Row) :
    rowsAt key (key row) (table.map fun r => if key r = key row then row else r) =
      (rowsAt key (key row) table).map fun _ => row := by
  induction table with
  | nil => rfl
  | cons r table ih =>
      simp only [rowsAt, List.map_cons, List.filter_cons] at ih ⊢
      split <;> simp_all

theorem rowsAt_replace_ne (hne : key row ≠ k) (table : List Row) :
    rowsAt key k (table.map fun r => if key r = key row then row else r) =
      rowsAt key k table := by
  induction table with
  | nil => rfl
  | cons r table ih =>
      simp only [rowsAt, List.map_cons, List.filter_cons] at ih ⊢
      split <;> simp_all

theorem rowsAt_upsert_ne (hne : key row ≠ k) :
    rowsAt key k (upsert key table row) = rowsAt key k table := by
  rw [upsert]
  split
  · exact rowsAt_replace_ne hne table
  · simp [rowsAt, hne]

theorem rowsAt_upsert_null (hk : key row = none) :
    rowsAt key none (upsert key table row) = rowsAt key none table ++ [row] := by
  simp [upsert, rowsAt, hk]

theorem rowsAt_upsert_self {c : Key} (hn : (table.filterMap key).Nodup) (hk : key row = some c) :
    rowsAt key (some c) (upsert key table row) = [row] := by
  have hle := length_rowsAt_le_one (c := c) hn
  rw [← hk] at hle ⊢
  rw [upsert]
  split
  · rename_i hmem
    have hne : rowsAt key (key row) table ≠ [] := by
      rw [Ne, rowsAt_eq_nil_iff]
      push Not
      exact hmem.2
    have hone : (rowsAt key (key row) table).length = 1 :=
      Nat.le_antisymm hle (List.length_pos_of_ne_nil hne)
    rw [rowsAt_replace_self, List.map_const', hone, List.replicate_one]
  · rename_i hnone
    have hnil : rowsAt key (key row) table = [] := by
      rw [rowsAt_eq_nil_iff]
      intro r hr hkr
      exact hnone ⟨by simp [hk], r, hr, hkr⟩
    rw [rowsAt_append, hnil, rowsAt_cons, if_pos rfl]
    rfl

theorem nodup_upsert (hn : (table.filterMap key).Nodup) (row : Row) :
    ((upsert key table row).filterMap key).Nodup := by
  rw [upsert]
  split
  · have hkeys : (table.map fun r => if key r = key row then row else r).filterMap key =
        table.filterMap key := by
      rw [List.filterMap_map]
      congr 1
      funext r
      by_cases hr : key r = key row <;> simp [hr]
    rwa [hkeys]
  · rename_i hnone
    rw [List.filterMap_append]
    cases hk : key row with
    | none => simpa [hk] using hn
    | some c =>
        simp only [List.filterMap_cons, hk, List.filterMap_nil]
        rw [List.nodup_append]
        refine ⟨hn, by simp, ?_⟩
        intro d hd e he
        cases List.mem_singleton.mp he
        rintro rfl
        obtain ⟨r, hr, hkr⟩ := List.mem_filterMap.mp hd
        exact hnone ⟨by simp [hk], r, hr, hkr.trans hk.symm⟩

theorem rowsAt_foldl_upsert (hn : (table.filterMap key).Nodup) (hr : (rows.filterMap key).Nodup)
    (k : Option Key) :
    rowsAt key k (rows.foldl (upsert key) table) =
      if k.isSome ∧ ∃ r ∈ rows, key r = k then rowsAt key k rows
      else rowsAt key k table ++ rowsAt key k rows := by
  induction rows generalizing table with
  | nil => simp [rowsAt]
  | cons row rows ih =>
      have htail : (rows.filterMap key).Nodup := by
        cases hk : key row <;> simp_all
      rw [List.foldl_cons, ih (nodup_upsert hn row) htail]
      by_cases hk : key row = k
      · cases k with
        | none => simp [rowsAt_upsert_null hk, rowsAt_cons, hk]
        | some c =>
            have hfresh : rowsAt key (some c) rows = [] := by
              rw [rowsAt_eq_nil_iff]
              intro r hmem hkr
              simp only [List.filterMap_cons, hk, List.nodup_cons, List.mem_filterMap] at hr
              exact hr.1 ⟨r, hmem, hkr⟩
            have hnot := rowsAt_eq_nil_iff.mp hfresh
            rw [if_neg (by rintro ⟨-, r, hmem, hkr⟩; exact hnot r hmem hkr),
              if_pos ⟨rfl, row, List.mem_cons_self, hk⟩, rowsAt_upsert_self hn hk, rowsAt_cons,
              if_pos hk, hfresh]
            rfl
      · rw [rowsAt_upsert_ne hk, rowsAt_cons, if_neg hk]
        simp [hk]

theorem merge_eq_some_iff {merged : List Row} : merge key table rows = some merged ↔
    (table.filterMap key).Nodup ∧ (rows.filterMap key).Nodup ∧
      rows.foldl (upsert key) table = merged := by
  rw [merge]
  split
  · rename_i h
    simp [h.1, h.2]
  · rename_i h
    simp only [reduceCtorEq, false_iff]
    rintro ⟨hn, hr, -⟩
    exact h ⟨hn, hr⟩

theorem rowsAt_merge_of_mem {merged : List Row} (h : merge key table rows = some merged)
    (hrow : row ∈ rows) (hk : (key row).isSome) : rowsAt key (key row) merged = [row] := by
  obtain ⟨hn, hr, rfl⟩ := merge_eq_some_iff.mp h
  obtain ⟨c, hc⟩ := Option.isSome_iff_exists.mp hk
  rw [rowsAt_foldl_upsert hn hr, if_pos ⟨hk, row, hrow, rfl⟩]
  have hle := length_rowsAt_le_one (c := c) hr
  rw [← hc] at hle
  have hmem : row ∈ rowsAt key (key row) rows := by simp [rowsAt, hrow]
  match hrows : rowsAt key (key row) rows with
  | [] => simp [hrows] at hmem
  | [r] =>
      rw [hrows] at hmem
      rw [List.mem_singleton.mp hmem]
  | _ :: _ :: _ => simp [hrows] at hle

theorem rowsAt_merge_of_not_mem {merged : List Row} (h : merge key table rows = some merged)
    (hk : ∀ r ∈ rows, key r ≠ k) : rowsAt key k merged = rowsAt key k table := by
  obtain ⟨hn, hr, rfl⟩ := merge_eq_some_iff.mp h
  rw [rowsAt_foldl_upsert hn hr, if_neg (by rintro ⟨-, r, hmem, hkr⟩; exact hk r hmem hkr),
    rowsAt_eq_nil_iff.mpr hk, List.append_nil]

theorem rowsAt_merge_null {merged : List Row} (h : merge key table rows = some merged) :
    rowsAt key none merged = rowsAt key none table ++ rowsAt key none rows := by
  obtain ⟨hn, hr, rfl⟩ := merge_eq_some_iff.mp h
  rw [rowsAt_foldl_upsert hn hr, if_neg (by simp)]

end SqlOptima.KeyedTable
