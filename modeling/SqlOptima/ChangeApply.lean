import SqlOptima.CdcCapture
import SqlOptima.TextKeys

namespace SqlOptima.ChangeApply

open SqlOptima.Lsn
open SqlOptima.SourceLog
open SqlOptima.CdcCapture
open SqlOptima.TextKeys

def lsnToString (p : LsnPosition) : List Char :=
  "0x".toList ++ (formatHex 8 p.segment1 ++ ':' ::
    (formatHex 8 p.segment2 ++ ':' :: formatHex 4 p.segment3))

structure DedupKey where
  value : List Char
  isSynthetic : Bool
  deriving DecidableEq

variable {Value : Type}

/-- `digest` stands for the SHA-256 hex digest of an event's content. -/
def DedupKey.forEvent (digest : ChangeEvent Value → List Char) (e : ChangeEvent Value) :
    DedupKey :=
  match e.lsn with
  | some l => ⟨lsnToString l, false⟩
  | none => ⟨"syn:".toList ++ digest e, true⟩

def qualifiedTable (schema table : String) : List Char :=
  schema.toList ++ '.' :: table.toList

def makeKey (identity qualified : List Char) : List Char :=
  "dedup:".toList ++ (identity ++ ':' :: qualified)

/-- Where applied keys are kept: an in-memory cache of bounded size, or Redis. -/
inductive Backend
  | memory (maxSize : Nat)
  | redis
  deriving DecidableEq

@[ext]
structure Deduplicator where
  backend : Backend
  keys : List (List Char)
  deriving DecidableEq

namespace Deduplicator

def alreadyApplied (d : Deduplicator) (identity qualified : List Char) : Bool :=
  decide (makeKey identity qualified ∈ d.keys)

def record (d : Deduplicator) (identity qualified : List Char) : Deduplicator :=
  let key := makeKey identity qualified
  let keys := d.keys.filter (· ≠ key) ++ [key]
  match d.backend with
  | .memory maxSize => { d with keys := if maxSize < keys.length then keys.drop 1 else keys }
  | .redis => { d with keys := keys }

def expire (d : Deduplicator) (expired : List Char → Bool) : Deduplicator :=
  match d.backend with
  | .memory _ => d
  | .redis => { d with keys := d.keys.filter fun k => !expired k }

end Deduplicator

abbrev Checkpoints := String × String → Option LSN

/-- An upsert: the stored LSN is overwritten whatever it was. -/
def saveCheckpoint (cps : Checkpoints) (schema table : String) (lsn : LSN) : Checkpoints :=
  Function.update cps (schema, table) (some lsn)

structure ApplierState (Value : Type) where
  target : List (ChangeEvent Value)
  dedup : Deduplicator
  checkpoints : Checkpoints

inductive ApplyResult
  | duplicate
  | applied
  | raised
  deriving DecidableEq

section Apply

variable (digest : ChangeEvent Value → List Char)

def isDuplicate (s : ApplierState Value) (e : ChangeEvent Value) : Bool :=
  s.dedup.alreadyApplied (DedupKey.forEvent digest e).value
    (qualifiedTable e.tableSchema e.tableName)

def executeEvent (s : ApplierState Value) (e : ChangeEvent Value) : ApplierState Value :=
  { s with target := s.target ++ [e] }

def recordEvent (s : ApplierState Value) (e : ChangeEvent Value) : ApplierState Value :=
  { s with
    dedup := s.dedup.record (DedupKey.forEvent digest e).value
      (qualifiedTable e.tableSchema e.tableName) }

/-- Packing the LSN for the checkpoint row fails when it is out of range. -/
def saveEvent (s : ApplierState Value) (e : ChangeEvent Value) : Option (ApplierState Value) :=
  match e.lsn with
  | none => some s
  | some l =>
      match l.serialize with
      | none => none
      | some b => some { s with
          checkpoints := saveCheckpoint s.checkpoints e.tableSchema e.tableName b }

/-- `raises` says whether executing the statement fails. -/
def apply (raises : Bool) (s : ApplierState Value) (e : ChangeEvent Value) :
    ApplierState Value × ApplyResult :=
  if isDuplicate digest s e then (s, .duplicate)
  else if raises then (s, .raised)
  else
    let s := recordEvent digest (executeEvent s e) e
    match saveEvent s e with
    | none => (s, .raised)
    | some s => (s, .applied)

end Apply

theorem saveEvent_unpack (s : ApplierState Value) {e : ChangeEvent Value} {l : LSN}
    (h : e.lsn = some (unpack l)) :
    saveEvent s e = some { s with
      checkpoints := saveCheckpoint s.checkpoints e.tableSchema e.tableName l } := by
  simp only [saveEvent, h, serialize_unpack]

section Keys

theorem colon_notMem_lsnToString_parts (p : LsnPosition) :
    ':' ∉ formatHex 8 p.segment1 ∧ ':' ∉ formatHex 8 p.segment2 ∧
      ':' ∉ formatHex 4 p.segment3 :=
  ⟨colon_notMem_formatHex _ _, colon_notMem_formatHex _ _, colon_notMem_formatHex _ _⟩

-- The equation Lean derives for `makeKey` evaluates the text literal.
theorem makeKey_eq (identity qualified : List Char) :
    makeKey identity qualified = "dedup:".toList ++ (identity ++ ':' :: qualified) :=
  rfl

theorem makeKey_lsn_inj {p p' : LsnPosition} {q q' : List Char} :
    makeKey (lsnToString p) q = makeKey (lsnToString p') q' ↔ p = p' ∧ q = q' := by
  obtain ⟨h1, h2, h3⟩ := colon_notMem_lsnToString_parts p
  obtain ⟨h1', h2', h3'⟩ := colon_notMem_lsnToString_parts p'
  obtain ⟨a, b, c⟩ := p
  obtain ⟨a', b', c'⟩ := p'
  simp only [makeKey_eq, lsnToString, List.append_assoc, List.cons_append, List.append_right_inj,
    append_sep_inj h1 h1', append_sep_inj h2 h2', append_sep_inj h3 h3', formatHex_inj,
    LsnPosition.mk.injEq, and_assoc]

theorem mem_record {d : Deduplicator} {identity qualified k : List Char}
    (h : k ∈ (d.record identity qualified).keys) :
    k = makeKey identity qualified ∨ k ∈ d.keys := by
  have hkeys : k ∈ d.keys.filter (· ≠ makeKey identity qualified) ++
      [makeKey identity qualified] := by
    rw [Deduplicator.record] at h
    split at h
    · dsimp only at h
      split at h
      · exact List.mem_of_mem_drop h
      · exact h
    · exact h
  rcases List.mem_append.mp hkeys with hk | hk
  · exact Or.inr (List.mem_filter.mp hk).1
  · exact Or.inl (List.mem_singleton.mp hk)

theorem mem_expire {d : Deduplicator} {expired : List Char → Bool} {k : List Char}
    (h : k ∈ (d.expire expired).keys) : k ∈ d.keys := by
  rw [Deduplicator.expire] at h
  split at h
  · exact h
  · exact (List.mem_filter.mp h).1

end Keys

end SqlOptima.ChangeApply
