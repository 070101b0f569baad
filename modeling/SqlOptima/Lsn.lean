import Mathlib.Algebra.Group.Nat.Defs
import Mathlib.Algebra.GroupWithZero.Nat
import Mathlib.Data.List.Induction
import Mathlib.Data.List.Lex
import Mathlib.Data.Prod.Lex
import Mathlib.Order.Fin.Basic

namespace SqlOptima.Lsn

abbrev Byte := Fin 256

instance neZero_byte : NeZero 256 := ⟨by decide⟩

section BigEndian

def ofBytes (bs : List Byte) : Nat :=
  bs.foldl (fun n b => n * 256 + b) 0

def toBytes : Nat → Nat → List Byte
  | 0, _ => []
  | k + 1, n => toBytes k (n / 256) ++ [⟨n % 256, Nat.mod_lt n (by decide)⟩]

@[simp]
theorem length_toBytes (k n : Nat) : (toBytes k n).length = k := by
  induction k generalizing n with
  | zero => rfl
  | succ k ih => simp [toBytes, ih]

theorem ofBytes_append (bs : List Byte) (b : Byte) :
    ofBytes (bs ++ [b]) = ofBytes bs * 256 + b := by
  simp [ofBytes]

theorem ofBytes_lt (bs : List Byte) : ofBytes bs < 256 ^ bs.length := by
  induction bs using List.reverseRecOn with
  | nil => decide
  | append_singleton bs b ih =>
      have hb := b.isLt
      rw [ofBytes_append, List.length_append, List.length_singleton, Nat.pow_succ]
      omega

theorem toBytes_ofBytes (bs : List Byte) : toBytes bs.length (ofBytes bs) = bs := by
  induction bs using List.reverseRecOn with
  | nil => rfl
  | append_singleton bs b ih =>
      have hb := b.isLt
      have hdiv : (ofBytes bs * 256 + b) / 256 = ofBytes bs := by omega
      have hmod : (ofBytes bs * 256 + b) % 256 = b := by omega
      rw [ofBytes_append, List.length_append, List.length_singleton, toBytes]
      simp only [hdiv, hmod, ih]

end BigEndian

/-- A log sequence number: ten bytes, compared from the first one on. -/
structure LSN where
  bytes : List Byte
  len : bytes.length = 10
  deriving DecidableEq

namespace LSN

theorem bytes_injective : Function.Injective bytes := by
  rintro ⟨b, hb⟩ ⟨c, hc⟩ h
  cases h
  rfl

instance : LinearOrder LSN :=
  LinearOrder.lift' bytes bytes_injective

def zero : LSN := ⟨List.replicate 10 0, rfl⟩

theorem replicate_zero_le (bs : List Byte) : List.replicate bs.length 0 ≤ bs := by
  induction bs with
  | nil => exact le_rfl
  | cons b bs ih =>
      apply not_lt.mp
      rw [List.length_cons, List.replicate_succ, List.cons_lt_cons_iff]
      rintro (hlt | ⟨-, hlt⟩)
      · exact absurd hlt (Fin.zero_le b).not_gt
      · exact absurd hlt ih.not_gt

theorem zero_le (l : LSN) : zero ≤ l := by
  have h := replicate_zero_le l.bytes
  rwa [l.len] at h

def isZero (l : LSN) : Bool := l = zero

def less (l other : LSN) : Bool := l < other

def ofByte (b : Byte) : LSN := ⟨List.replicate 9 0 ++ [b], rfl⟩

end LSN

structure LsnPosition where
  segment1 : Nat
  segment2 : Nat
  segment3 : Nat
  deriving DecidableEq

namespace LsnPosition

def segments (p : LsnPosition) : Nat ×ₗ Nat ×ₗ Nat :=
  toLex (p.segment1, toLex (p.segment2, p.segment3))

theorem segments_injective : Function.Injective segments := by
  rintro ⟨a, b, c⟩ ⟨a', b', c'⟩ h
  cases h
  rfl

instance : LinearOrder LsnPosition :=
  LinearOrder.lift' segments segments_injective

/-- Packing as `>IIH` fails for a segment that does not fit its field. -/
def serialize (p : LsnPosition) : Option LSN :=
  if p.segment1 < 256 ^ 4 ∧ p.segment2 < 256 ^ 4 ∧ p.segment3 < 256 ^ 2 then
    some ⟨toBytes 4 p.segment1 ++ toBytes 4 p.segment2 ++ toBytes 2 p.segment3, by simp⟩
  else none

end LsnPosition

/-- A driver's byte string as ten bytes: `none` when it is absent or empty. -/
def normalizeLsnBytes (raw : Option (List Byte)) : Option LSN :=
  match raw with
  | none => none
  | some [] => none
  | some (b :: bs) =>
      if h : (b :: bs).length < 10 then
        some ⟨(b :: bs) ++ List.replicate (10 - (b :: bs).length) 0, by simp at h ⊢; omega⟩
      else some ⟨(b :: bs).take 10, by simp at h ⊢; omega⟩

def unpack (l : LSN) : LsnPosition :=
  ⟨ofBytes (l.bytes.take 4), ofBytes ((l.bytes.drop 4).take 4), ofBytes (l.bytes.drop 8)⟩

def parseLsn (raw : Option (List Byte)) : LsnPosition :=
  match normalizeLsnBytes raw with
  | none => ⟨0, 0, 0⟩
  | some l => unpack l

@[simp]
theorem normalizeLsnBytes_bytes (l : LSN) : normalizeLsnBytes (some l.bytes) = some l := by
  obtain ⟨bs, hlen⟩ := l
  cases bs with
  | nil => cases hlen
  | cons b bs =>
      have hnot : ¬ (b :: bs).length < 10 := by omega
      rw [normalizeLsnBytes, dif_neg hnot]
      congr 2
      exact List.take_of_length_le hlen.le

@[simp]
theorem parseLsn_bytes (l : LSN) : parseLsn (some l.bytes) = unpack l := by
  rw [parseLsn, normalizeLsnBytes_bytes]

theorem serialize_unpack (l : LSN) : (unpack l).serialize = some l := by
  obtain ⟨bs, hlen⟩ := l
  have hbounds : (unpack ⟨bs, hlen⟩).segment1 < 256 ^ 4 ∧
      (unpack ⟨bs, hlen⟩).segment2 < 256 ^ 4 ∧ (unpack ⟨bs, hlen⟩).segment3 < 256 ^ 2 := by
    refine ⟨?_, ?_, ?_⟩
    · simpa [unpack, hlen] using ofBytes_lt (bs.take 4)
    · simpa [unpack, hlen] using ofBytes_lt ((bs.drop 4).take 4)
    · simpa [unpack, hlen] using ofBytes_lt (bs.drop 8)
  rw [LsnPosition.serialize, if_pos hbounds, Option.some.injEq]
  apply LSN.bytes_injective
  have h1 : toBytes 4 (ofBytes (bs.take 4)) = bs.take 4 := by
    simpa [hlen] using toBytes_ofBytes (bs.take 4)
  have h2 : toBytes 4 (ofBytes ((bs.drop 4).take 4)) = (bs.drop 4).take 4 := by
    simpa [hlen] using toBytes_ofBytes ((bs.drop 4).take 4)
  have h3 : toBytes 2 (ofBytes (bs.drop 8)) = bs.drop 8 := by
    simpa [hlen] using toBytes_ofBytes (bs.drop 8)
  calc toBytes 4 (ofBytes (bs.take 4)) ++ toBytes 4 (ofBytes ((bs.drop 4).take 4)) ++
        toBytes 2 (ofBytes (bs.drop 8))
      = bs.take 4 ++ (bs.drop 4).take 4 ++ bs.drop 8 := by rw [h1, h2, h3]
    _ = bs.take 8 ++ bs.drop 8 := by rw [← List.take_add]
    _ = bs := List.take_append_drop 8 bs

theorem unpack_injective : Function.Injective unpack := by
  intro l l' h
  have hs := congrArg LsnPosition.serialize h
  rw [serialize_unpack, serialize_unpack] at hs
  exact Option.some.inj hs

end SqlOptima.Lsn
