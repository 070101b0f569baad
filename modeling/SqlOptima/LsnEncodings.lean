import SqlOptima.PythonValues

namespace SqlOptima.LsnEncodings

open SqlOptima.Lsn
open SqlOptima.PythonValues

/-!
# The encodings of a log position

A position is a text of hex digits, ten bytes, or three numbers. Packing and writing keep it and
its order; the loader in Go and the capture in Python fill up a driver's short byte string on
different sides.
-/

section ByteOrder

theorem append_lt_append_iff {bs cs xs ys : List Byte} (h : bs.length = cs.length) :
    bs ++ xs < cs ++ ys ↔ bs < cs ∨ bs = cs ∧ xs < ys := by
  induction bs generalizing cs with
  | nil =>
      obtain rfl := List.eq_nil_of_length_eq_zero h.symm
      simp
  | cons b bs ih =>
      cases cs with
      | nil => cases h
      | cons c cs =>
          have hlen : bs.length = cs.length := Nat.succ.inj h
          rw [List.cons_append, List.cons_append, List.cons_lt_cons_iff, List.cons_lt_cons_iff,
            ih hlen, List.cons.injEq]
          tauto

theorem ofBytes_injective {bs cs : List Byte} (hlen : bs.length = cs.length)
    (h : ofBytes bs = ofBytes cs) : bs = cs := by
  rw [← toBytes_ofBytes bs, ← toBytes_ofBytes cs, hlen, h]

/-- Bytes of the same number compare as the numbers that they spell. -/
theorem lt_iff_ofBytes_lt {bs cs : List Byte} (h : bs.length = cs.length) :
    bs < cs ↔ ofBytes bs < ofBytes cs := by
  induction bs using List.reverseRecOn generalizing cs with
  | nil =>
      obtain rfl := List.eq_nil_of_length_eq_zero h.symm
      exact iff_of_false (lt_irrefl _) (lt_irrefl _)
  | append_singleton bs b ih =>
      induction cs using List.reverseRecOn with
      | nil => simp at h
      | append_singleton cs c _ =>
          have hlen : bs.length = cs.length := by simpa using h
          have hb := b.isLt
          have hc := c.isLt
          have hsingle : [b] < [c] ↔ b.val < c.val := by
            rw [List.cons_lt_cons_iff, or_iff_left fun hnil => lt_irrefl _ hnil.2]
            exact Fin.lt_def
          rw [append_lt_append_iff hlen, ih hlen, hsingle, ofBytes_append, ofBytes_append]
          constructor
          · rintro (hlt | ⟨rfl, hlt⟩)
            · omega
            · omega
          · intro hlt
            by_cases heq : ofBytes bs = ofBytes cs
            · exact Or.inr ⟨ofBytes_injective hlen heq, by omega⟩
            · exact Or.inl (by omega)

theorem ofBytes_toBytes {k n : Nat} (h : n < 256 ^ k) : ofBytes (toBytes k n) = n := by
  induction k generalizing n with
  | zero => exact (Nat.lt_one_iff.mp h).symm
  | succ k ih =>
      rw [Nat.pow_succ] at h
      rw [toBytes, ofBytes_append, ih (Nat.div_lt_of_lt_mul (by omega))]
      exact Nat.div_add_mod' n 256

end ByteOrder

section Packing

/-- Every segment has room in its field of `>IIH`. -/
def Fits (p : LsnPosition) : Prop :=
  p.segment1 < 256 ^ 4 ∧ p.segment2 < 256 ^ 4 ∧ p.segment3 < 256 ^ 2

instance instDecidableFits (p : LsnPosition) : Decidable (Fits p) :=
  inferInstanceAs (Decidable (_ ∧ _))

theorem exists_serialize_iff {p : LsnPosition} : (∃ l, p.serialize = some l) ↔ Fits p := by
  rw [LsnPosition.serialize]
  split
  · rename_i h
    exact iff_of_true ⟨_, rfl⟩ h
  · rename_i h
    refine iff_of_false ?_ h
    rintro ⟨_, hl⟩
    exact Option.some_ne_none _ hl.symm

theorem unpack_of_serialize {p : LsnPosition} {l : LSN} (h : p.serialize = some l) :
    unpack l = p := by
  have hfits : Fits p := exists_serialize_iff.mp ⟨l, h⟩
  rw [LsnPosition.serialize, if_pos ⟨hfits.1, hfits.2.1, hfits.2.2⟩] at h
  obtain rfl := Option.some.inj h
  have h4 : (toBytes 4 p.segment1 ++ toBytes 4 p.segment2 ++ toBytes 2 p.segment3).drop 4 =
      toBytes 4 p.segment2 ++ toBytes 2 p.segment3 := by
    rw [List.append_assoc]
    exact List.drop_left' (length_toBytes 4 _)
  have h8 : (toBytes 4 p.segment1 ++ toBytes 4 p.segment2 ++ toBytes 2 p.segment3).drop 8 =
      toBytes 2 p.segment3 := by
    refine List.drop_left' ?_
    rw [List.length_append, length_toBytes, length_toBytes]
  have h1 : (toBytes 4 p.segment1 ++ toBytes 4 p.segment2 ++ toBytes 2 p.segment3).take 4 =
      toBytes 4 p.segment1 := by
    rw [List.append_assoc]
    exact List.take_left' (length_toBytes 4 _)
  have h2 : (toBytes 4 p.segment2 ++ toBytes 2 p.segment3).take 4 = toBytes 4 p.segment2 :=
    List.take_left' (length_toBytes 4 _)
  rw [unpack, h1, h4, h2, h8, ofBytes_toBytes hfits.1, ofBytes_toBytes hfits.2.1,
    ofBytes_toBytes hfits.2.2]

theorem bytes_eq_append (l : LSN) :
    l.bytes = l.bytes.take 4 ++ ((l.bytes.drop 4).take 4 ++ l.bytes.drop 8) := by
  have hdrop : l.bytes.drop 8 = (l.bytes.drop 4).drop 4 := by rw [List.drop_drop]
  rw [hdrop, List.take_append_drop, List.take_append_drop]

/-- Positions are in the order of their ten bytes. -/
theorem unpack_lt_unpack_iff (l l' : LSN) : unpack l < unpack l' ↔ l < l' := by
  have hlen : l.bytes.length = l'.bytes.length := l.len.trans l'.len.symm
  have h1 : (l.bytes.take 4).length = (l'.bytes.take 4).length := by simp [hlen]
  have h2 : ((l.bytes.drop 4).take 4).length = ((l'.bytes.drop 4).take 4).length := by
    simp [hlen]
  have h3 : (l.bytes.drop 8).length = (l'.bytes.drop 8).length := by simp [hlen]
  have hbytes : l < l' ↔ l.bytes < l'.bytes := Iff.rfl
  have heq1 : l.bytes.take 4 = l'.bytes.take 4 ↔
      ofBytes (l.bytes.take 4) = ofBytes (l'.bytes.take 4) :=
    ⟨congrArg ofBytes, ofBytes_injective h1⟩
  have heq2 : (l.bytes.drop 4).take 4 = (l'.bytes.drop 4).take 4 ↔
      ofBytes ((l.bytes.drop 4).take 4) = ofBytes ((l'.bytes.drop 4).take 4) :=
    ⟨congrArg ofBytes, ofBytes_injective h2⟩
  rw [hbytes, bytes_eq_append l, bytes_eq_append l', append_lt_append_iff h1,
    append_lt_append_iff h2, lt_iff_ofBytes_lt h1, lt_iff_ofBytes_lt h2, lt_iff_ofBytes_lt h3,
    heq1, heq2]
  change (unpack l).segments < (unpack l').segments ↔ _
  rw [LsnPosition.segments, LsnPosition.segments, Prod.Lex.toLex_lt_toLex,
    Prod.Lex.toLex_lt_toLex]
  rfl

theorem lt_iff_of_serialize {x y : LsnPosition} {l l' : LSN} (hx : x.serialize = some l)
    (hy : y.serialize = some l') : x < y ↔ l < l' := by
  rw [← unpack_of_serialize hx, ← unpack_of_serialize hy]
  exact unpack_lt_unpack_iff l l'

end Packing

section Drivers

/-- The ten bytes that `bytesToLSN` copies a driver's bytes into, at the end of them. -/
def copiedBytes (raw : List Byte) : List Byte :=
  if raw.length < 10 then List.replicate (10 - raw.length) 0 ++ raw else raw.take 10

theorem length_copiedBytes (raw : List Byte) : (copiedBytes raw).length = 10 := by
  rw [copiedBytes]
  split
  · rw [List.length_append, List.length_replicate]
    omega
  · rw [List.length_take]
    omega

def bytesToLSN (raw : List Byte) : LSN :=
  if raw = [] then LSN.zero else ⟨copiedBytes raw, length_copiedBytes raw⟩

theorem forall_eq_of_replicate_append {α : Type} {a : α} {k : Nat} {as : List α} (hk : 0 < k)
    (h : List.replicate k a ++ as = as ++ List.replicate k a) : ∀ b ∈ as, b = a := by
  obtain ⟨k, rfl⟩ := Nat.exists_eq_add_of_lt hk
  induction as with
  | nil => exact fun b hb => absurd hb List.not_mem_nil
  | cons b as ih =>
      rw [List.replicate_succ, List.cons_append, List.cons_append] at h
      obtain ⟨rfl, htail⟩ := List.cons.inj h
      rw [List.append_cons, ← List.replicate_succ'] at htail
      exact List.forall_mem_cons.mpr ⟨rfl, ih htail⟩

/-- Zeros in front are as good as zeros behind only where all bytes are zero. -/
theorem unpack_bytesToLSN_eq_iff (raw : List Byte) :
    unpack (bytesToLSN raw) = parseLsn (some raw) ↔ 10 ≤ raw.length ∨ ∀ b ∈ raw, b = 0 := by
  cases raw with
  | nil => exact iff_of_true rfl (Or.inr fun b hb => absurd hb List.not_mem_nil)
  | cons b bs =>
      rw [bytesToLSN, if_neg (List.cons_ne_nil b bs), parseLsn, normalizeLsnBytes]
      by_cases hlen : (b :: bs).length < 10
      · rw [dif_pos hlen, or_iff_right (by omega)]
        refine unpack_injective.eq_iff.trans ?_
        rw [LSN.mk.injEq, copiedBytes, if_pos hlen]
        constructor
        · exact forall_eq_of_replicate_append (by omega)
        · intro hzero
          rw [List.eq_replicate_of_mem hzero, List.length_replicate, ← List.replicate_add,
            ← List.replicate_add, Nat.add_comm]
      · rw [dif_neg hlen]
        refine iff_of_true ?_ (Or.inl (by omega))
        refine congrArg unpack (LSN.bytes_injective ?_)
        exact if_neg hlen

end Drivers

section Agreement

/-- What the encodings promise of a position, of another that it is compared with, and of the
bytes that a driver returns. -/
structure EncodingsAgree (x y : LsnPosition) (raw : List Byte) : Prop where
  text : lsnFromString (lsnToString x) = some x
  packed : ∃ l, x.serialize = some l ∧ parseLsn (some l.bytes) = x
  ordered : ∃ l l', x.serialize = some l ∧ y.serialize = some l' ∧ (x < y ↔ l < l')
  driver : unpack (bytesToLSN raw) = parseLsn (some raw)

/-- A driver that leaves out bytes is read in two ways, unless there are only zeros. -/
theorem encodingsAgree_iff (x y : LsnPosition) (raw : List Byte) :
    EncodingsAgree x y raw ↔
      Fits x ∧ Fits y ∧ (10 ≤ raw.length ∨ ∀ b ∈ raw, b = 0) := by
  rw [← unpack_bytesToLSN_eq_iff]
  constructor
  · rintro ⟨-, -, ⟨l, l', hx, hy, -⟩, hdriver⟩
    exact ⟨exists_serialize_iff.mp ⟨l, hx⟩, exists_serialize_iff.mp ⟨l', hy⟩, hdriver⟩
  · rintro ⟨hfitsX, hfitsY, hdriver⟩
    obtain ⟨l, hx⟩ := exists_serialize_iff.mpr hfitsX
    obtain ⟨l', hy⟩ := exists_serialize_iff.mpr hfitsY
    refine ⟨lsnFromString_lsnToString x, ⟨l, hx, ?_⟩, ⟨l, l', hx, hy, ?_⟩, hdriver⟩
    · rw [parseLsn_bytes, unpack_of_serialize hx]
    · exact lt_iff_of_serialize hx hy

/-- The one byte of a short string is the last one for the loader, the first for the capture. -/
theorem one_byte_read_twice : ¬ EncodingsAgree ⟨0, 0, 0⟩ ⟨0, 0, 1⟩ [1] := by
  rintro ⟨-, -, -, hdriver⟩
  exact absurd hdriver (by decide)

end Agreement

end SqlOptima.LsnEncodings
