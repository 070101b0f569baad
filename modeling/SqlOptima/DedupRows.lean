import Mathlib.Data.Set.Basic
import SqlOptima.ChangeApply

namespace SqlOptima.DedupRows

open SqlOptima.Lsn
open SqlOptima.SourceLog
open SqlOptima.CdcCapture
open SqlOptima.ChangeApply

structure LogRow (Value : Type) where
  table : TableInfo
  row : CtRow Value
  deriving DecidableEq

variable {Value : Type}

namespace LogRow

def event (r : LogRow Value) : Option (ChangeEvent Value) := rowToChange r.table r.row

def qualified (r : LogRow Value) : List Char :=
  qualifiedTable r.table.schemaName r.table.tableName

end LogRow

/-- What can happen to the applier: a row is delivered, for the first time or
again, or keys expire. -/
inductive Delivery (Value : Type)
  | row (r : LogRow Value) (raises : Bool)
  | expire (expired : List Char → Bool)

structure DeliveryState (Value : Type) where
  applier : ApplierState Value
  applied : List (LogRow Value)

section Deliver

variable (digest : ChangeEvent Value → List Char)

def deliver (s : DeliveryState Value) : Delivery Value → DeliveryState Value
  | .row r raises =>
      match r.event with
      | none => s
      | some e =>
          match apply digest raises s.applier e with
          | (a, .applied) => ⟨a, r :: s.applied⟩
          | (a, _) => ⟨a, s.applied⟩
  | .expire expired =>
      { s with applier := { s.applier with dedup := s.applier.dedup.expire expired } }

def fresh (backend : Backend) : DeliveryState Value :=
  ⟨⟨[], ⟨backend, []⟩, fun _ => none⟩, []⟩

def deliverAll (backend : Backend) (ds : List (Delivery Value)) : DeliveryState Value :=
  ds.foldl (deliver digest) (fresh backend)

/-- Whatever is delivered of a stream, and however often, an event is taken for
a duplicate only when its own log row was applied. -/
def SkipsOnlyApplied (backend : Backend) (stream : Set (LogRow Value)) : Prop :=
  ∀ ds : List (Delivery Value), (∀ r raises, .row r raises ∈ ds → r ∈ stream) →
    ∀ r ∈ stream, ∀ e, r.event = some e →
      isDuplicate digest (deliverAll digest backend ds).applier e = true →
        r ∈ (deliverAll digest backend ds).applied

/-- No two change rows of the stream share their start LSN and their table. -/
def RowsSeparate (stream : Set (LogRow Value)) : Prop :=
  ∀ r ∈ stream, ∀ r' ∈ stream, r.event.isSome → r'.event.isSome →
    r.row.startLSN = r'.row.startLSN → r.qualified = r'.qualified → r = r'

def rowKey (r : LogRow Value) : List Char :=
  makeKey (lsnToString (unpack r.row.startLSN)) r.qualified

theorem rowKey_eq_iff {r r' : LogRow Value} :
    rowKey r = rowKey r' ↔ r.row.startLSN = r'.row.startLSN ∧ r.qualified = r'.qualified := by
  rw [rowKey, rowKey, makeKey_lsn_inj, unpack_injective.eq_iff]

theorem key_of_event {r : LogRow Value} {e : ChangeEvent Value} (h : r.event = some e) :
    makeKey (DedupKey.forEvent digest e).value (qualifiedTable e.tableSchema e.tableName) =
      rowKey r := by
  obtain ⟨hlsn, hschema, htable⟩ := rowToChange_eq_some h
  rw [DedupKey.forEvent, hlsn, hschema, htable]
  rfl

variable {digest}

theorem isDuplicate_iff {s : ApplierState Value} {r : LogRow Value} {e : ChangeEvent Value}
    (h : r.event = some e) : isDuplicate digest s e = true ↔ rowKey r ∈ s.dedup.keys := by
  rw [isDuplicate, Deduplicator.alreadyApplied, key_of_event digest h, decide_eq_true_eq]

theorem deliver_applied {s : DeliveryState Value} {r : LogRow Value} {e : ChangeEvent Value}
    (he : r.event = some e) (hdup : isDuplicate digest s.applier e = false) :
    (deliver digest s (.row r false)).applied = r :: s.applied ∧
      (deliver digest s (.row r false)).applier.dedup =
        s.applier.dedup.record (DedupKey.forEvent digest e).value
          (qualifiedTable e.tableSchema e.tableName) := by
  have hsave := saveEvent_unpack (recordEvent digest (executeEvent s.applier e) e)
    (rowToChange_eq_some he).1
  simp only [deliver, he, apply, hdup, hsave, Bool.false_eq_true, if_false]
  exact ⟨trivial, rfl⟩

theorem backend_expire (d : Deduplicator) (expired : List Char → Bool) :
    (d.expire expired).backend = d.backend := by
  rw [Deduplicator.expire]
  split <;> rfl

theorem deliver_cases (s : DeliveryState Value) (d : Delivery Value) :
    ((∀ k ∈ (deliver digest s d).applier.dedup.keys, k ∈ s.applier.dedup.keys) ∧
        (deliver digest s d).applier.dedup.backend = s.applier.dedup.backend ∧
        (deliver digest s d).applied = s.applied) ∨
      ∃ r e, d = .row r false ∧ r.event = some e ∧
        (deliver digest s d).applied = r :: s.applied ∧
        (deliver digest s d).applier.dedup =
          s.applier.dedup.record (DedupKey.forEvent digest e).value
            (qualifiedTable e.tableSchema e.tableName) := by
  cases d with
  | expire expired =>
      exact Or.inl ⟨fun k hk => mem_expire hk, backend_expire _ _, rfl⟩
  | row r raises =>
      cases he : r.event with
      | none => exact Or.inl (by simp [deliver, he])
      | some e =>
          cases hdup : isDuplicate digest s.applier e with
          | true => exact Or.inl (by simp [deliver, he, apply, hdup])
          | false =>
              cases raises with
              | true => exact Or.inl (by simp [deliver, he, apply, hdup])
              | false => exact Or.inr ⟨r, e, rfl, he, deliver_applied he hdup⟩

def KeysApplied (stream : Set (LogRow Value)) (s : DeliveryState Value) : Prop :=
  ∀ k ∈ s.applier.dedup.keys, ∃ r ∈ s.applied, r ∈ stream ∧ r.event.isSome ∧ k = rowKey r

theorem keysApplied_deliver {stream : Set (LogRow Value)} {s : DeliveryState Value}
    {d : Delivery Value} (hd : ∀ r raises, d = .row r raises → r ∈ stream)
    (h : KeysApplied stream s) : KeysApplied stream (deliver digest s d) := by
  intro k hk
  rcases deliver_cases s d with ⟨hkeys, -, happlied⟩ | ⟨r, e, hrow, he, happlied, hdedup⟩
  · rw [happlied]
    exact h k (hkeys k hk)
  · rw [happlied]
    rw [hdedup] at hk
    rcases mem_record hk with rfl | hold
    · exact ⟨r, List.mem_cons_self .., hd r false hrow, by simp [he], key_of_event _ he⟩
    · obtain ⟨r', hr', hin⟩ := h k hold
      exact ⟨r', List.mem_cons_of_mem _ hr', hin⟩

theorem keysApplied_deliverAll {stream : Set (LogRow Value)} {backend : Backend}
    {ds : List (Delivery Value)} (hds : ∀ r raises, .row r raises ∈ ds → r ∈ stream) :
    KeysApplied stream (deliverAll digest backend ds) := by
  rw [deliverAll]
  refine List.foldlRecOn ds (deliver digest) (motive := KeysApplied stream) ?_ ?_
  · intro k hk
    cases hk
  · intro s hs d hmem
    refine keysApplied_deliver ?_ hs
    rintro r raises rfl
    exact hds r raises hmem

theorem dedup_of_size_zero (ds : List (Delivery Value)) :
    (deliverAll digest (.memory 0) ds).applier.dedup = ⟨.memory 0, []⟩ := by
  rw [deliverAll]
  refine List.foldlRecOn ds (deliver digest)
    (motive := fun s : DeliveryState Value => s.applier.dedup = ⟨.memory 0, []⟩) rfl ?_
  intro s hs d _
  rcases deliver_cases s d with ⟨hkeys, hbackend, -⟩ | ⟨r, e, -, -, -, hdedup⟩
  · rw [hs] at hkeys hbackend
    have hnil : (deliver digest s d).applier.dedup.keys = [] :=
      List.eq_nil_iff_forall_not_mem.mpr fun k hk => absurd (hkeys k hk) List.not_mem_nil
    exact Deduplicator.ext hbackend hnil
  · rw [hdedup, hs]
    rfl

theorem mem_record_self {backend : Backend} (hsize : backend ≠ .memory 0)
    (identity qualified : List Char) :
    makeKey identity qualified ∈
      ((⟨backend, []⟩ : Deduplicator).record identity qualified).keys := by
  cases backend with
  | redis => simp [Deduplicator.record]
  | memory maxSize =>
      cases maxSize with
      | zero => exact absurd rfl hsize
      | succ n => simp [Deduplicator.record]

/-- An event is taken for a duplicate only when its own log row was applied,
whatever is delivered of the stream, if and only if the deduplicator keeps no
key at all or no two change rows of the stream share their LSN and table. -/
theorem skipsOnlyApplied_iff (digest : ChangeEvent Value → List Char) (backend : Backend)
    (stream : Set (LogRow Value)) :
    SkipsOnlyApplied digest backend stream ↔ backend = .memory 0 ∨ RowsSeparate stream := by
  constructor
  · intro h
    by_cases hsize : backend = .memory 0
    · exact Or.inl hsize
    · right
      intro r hr r' hr' hcap hcap' hlsn htable
      obtain ⟨e, he⟩ := Option.isSome_iff_exists.mp hcap
      obtain ⟨e', he'⟩ := Option.isSome_iff_exists.mp hcap'
      have hfresh : isDuplicate digest (fresh backend : DeliveryState Value).applier e' = false := by
        rw [← Bool.not_eq_true, isDuplicate_iff he']
        exact List.not_mem_nil
      obtain ⟨happlied, hdedup⟩ := deliver_applied he' hfresh
      have hds : ∀ x raises, Delivery.row x raises ∈ [Delivery.row r' false] → x ∈ stream := by
        intro x raises hx
        cases List.mem_singleton.mp hx
        exact hr'
      have hkey : rowKey r = rowKey r' := rowKey_eq_iff.mpr ⟨hlsn, htable⟩
      have hdup : isDuplicate digest
          (deliverAll digest backend [Delivery.row r' false]).applier e = true := by
        rw [isDuplicate_iff he, hkey, ← key_of_event digest he']
        exact hdedup ▸ mem_record_self hsize _ _
      have hmem := h _ hds r hr e he hdup
      exact List.mem_singleton.mp (happlied ▸ hmem)
  · rintro hcond ds hds r hr e he hdup
    rw [isDuplicate_iff he] at hdup
    rcases hcond with rfl | hsep
    · rw [dedup_of_size_zero] at hdup
      exact absurd hdup List.not_mem_nil
    · obtain ⟨r', happlied, hr', hcap', hkey⟩ := keysApplied_deliverAll hds _ hdup
      obtain ⟨hlsn, htable⟩ := rowKey_eq_iff.mp hkey
      have heq := hsep r hr r' hr' (by simp [he]) hcap' hlsn htable
      exact heq ▸ happlied

end Deliver

def insertedRow (id : Fin 256) : LogRow Nat :=
  ⟨⟨"dbo", "orders"⟩, ⟨.ofByte 1, .ofByte id, 2, [("id", id)]⟩⟩

theorem insertedRow_skipped_unapplied :
    ¬ SkipsOnlyApplied (fun _ => []) (.memory 5000) {insertedRow 1, insertedRow 2} := by
  intro h
  have hmem := h [.row (insertedRow 1) false] (by simp) (insertedRow 2) (by simp) _ rfl
    (by decide +kernel)
  exact absurd hmem (by decide +kernel)

end SqlOptima.DedupRows
