import SqlOptima.NumberText
import SqlOptima.TransferKeyset

namespace SqlOptima.KeyComparison

open TransferCopier TransferKeys TransferRange
open TransferKeyset (Advances)

/-!
# The comparison of keys and the order of the server
-/

/-- ASCII text as the driver's bytes. -/
def ascii (cs : List Char) : List UInt8 := cs.map fun c => UInt8.ofNat c.toNat

/-- `fmt.Sprint`; `print` is what it makes of numbers and times. -/
def sprint (print : DriverValue → List UInt8) : Option DriverValue → List UInt8
  | none => ascii ['<', 'n', 'i', 'l', '>']
  | some (.text bytes) => bytes
  | some (.bit b) => ascii (if b then ['t', 'r', 'u', 'e'] else ['f', 'a', 'l', 's', 'e'])
  | some v => print v

/-- The values of a key column, how the driver scans them, and how the server orders them. -/
structure KeyColumn where
  Value : Type
  scan : Value → DriverValue
  le : Value → Value → Bool
  total : ∀ a b, le a b = true ∨ le b a = true
  trans : ∀ a b c, le a b = true → le b c = true → le a c = true

def KeyColumn.orderBy (col : KeyColumn) (a b : col.Value) : Ordering :=
  if col.le a b then if col.le b a then .eq else .lt else .gt

/-- The tables of a transfer whose keys, where they are not null, are values of the column. -/
structure KeyColumn.Keys {Row : Type} {sql : SqlOrder} (col : KeyColumn) (t : Tables Row sql) :
    Prop where
  sorts : ∀ a b, sql.le (col.scan a) (col.scan b) = col.le a b
  scanned : ∀ row ∈ t.source ++ t.target, ∀ v, t.key row = some v → ∃ a, v = col.scan a

/-- The comparison is the server's order and a total one; the delta test skips a table only when no
source key is above the target's, and the rows behind a key advance past it. -/
structure ComparesAsServer (sprint : Option DriverValue → List UInt8) (col : KeyColumn) : Prop where
  order : ∀ a b, compareAny sprint (some (col.scan a)) (some (col.scan b)) = col.orderBy a b
  greater : ∀ a b, anyGreater sprint (some (col.scan a)) (some (col.scan b)) = !col.le a b
  null : ∀ a, anyGreater sprint (some (col.scan a)) none = true
  total : ∀ a b, compareAny sprint (some (col.scan a)) (some (col.scan b)) ≠ .gt ∨
    compareAny sprint (some (col.scan b)) (some (col.scan a)) ≠ .gt
  trans : ∀ a b c, compareAny sprint (some (col.scan a)) (some (col.scan b)) ≠ .gt →
    compareAny sprint (some (col.scan b)) (some (col.scan c)) ≠ .gt →
    compareAny sprint (some (col.scan a)) (some (col.scan c)) ≠ .gt
  skips : ∀ {Row : Type} {sql : SqlOrder} (t : Tables Row sql), col.Keys t →
    deltaSkip sprint t = true →
    ∃ m, t.targetMax t.target = some m ∧ ∀ k ∈ t.sourceKeys, sql.le k m = true
  advances : ∀ {Row : Type} {sql : SqlOrder} (t : Tables Row sql), col.Keys t →
    ∀ last, (∀ l, last = some (some l) → ∃ a, l = col.scan a) →
    ∀ row ∈ t.rowsAfter last, Advances sprint last (t.key row)

/-! ## The types of a key column -/

/-- The numbers of `bits` binary digits and an exponent. -/
structure Binary (bits : Nat) (lo hi : Int) where
  mantissa : Int
  exponent : Int
  fits : mantissa.natAbs < 2 ^ bits
  lo_le : lo ≤ exponent
  le_hi : exponent ≤ hi

def Binary.value {bits : Nat} {lo hi : Int} (x : Binary bits lo hi) : ℚ :=
  if 0 ≤ x.exponent then ((x.mantissa * 2 ^ x.exponent.toNat : Int) : ℚ)
  else mkRat x.mantissa (2 ^ (-x.exponent).toNat)

/-- `n` of the units that `scale` decimals leave. -/
def decimalText (scale : Nat) (n : Int) : List Char :=
  (if n < 0 then ['-'] else []) ++ Nat.toDigits 10 (n.natAbs / 10 ^ scale) ++
    if scale = 0 then [] else '.' :: NumberText.padded scale 10 (n.natAbs % 10 ^ scale)

/-- The places of a `uniqueidentifier`, in the order in which the server compares them. -/
def guidPlaces : List Nat := [10, 11, 12, 13, 14, 15, 8, 9, 6, 7, 4, 5, 0, 1, 2, 3]

def guidKey (bytes : List UInt8) : List UInt8 := guidPlaces.map fun i => bytes.getD i 0

/-- What a character or binary column can hold, in the order of its collation. -/
structure StringDomain where
  holds : List UInt8 → Prop
  le : List UInt8 → List UInt8 → Bool
  total : ∀ s t, le s t = true ∨ le t s = true
  trans : ∀ s t u, le s t = true → le t u = true → le s u = true

/-- A `decimal` holds up to `bound` units, as does `money`; `time` is any date or time. -/
inductive KeyType where
  | integer
  | bit
  | time
  | real
  | float
  | decimal (scale bound : Nat) (two_le : 2 ≤ bound)
  | string (domain : StringDomain)
  | uniqueIdentifier

/-! ## From the order of two keys to the copy -/

section Order

variable {col : KeyColumn} {print : Option DriverValue → List UInt8}

theorem orderBy_eq_gt_iff {a b : col.Value} : col.orderBy a b = .gt ↔ col.le a b = false := by
  rw [KeyColumn.orderBy]
  cases col.le a b with
  | false => simp
  | true => by_cases hba : col.le b a = true <;> simp [hba]

theorem orderBy_ne_gt_iff {a b : col.Value} : col.orderBy a b ≠ .gt ↔ col.le a b = true := by
  rw [ne_eq, orderBy_eq_gt_iff, Bool.not_eq_false]

theorem le_of_orderBy_isGE {a b : col.Value} (h : (col.orderBy a b).isGE = true) :
    col.le b a = true := by
  rcases col.total b a with hle | hle
  · exact hle
  · rw [KeyColumn.orderBy, hle, if_pos rfl] at h
    cases hba : col.le b a with
    | true => rfl
    | false =>
        rw [hba] at h
        cases h

section Tables

variable {Row : Type} {sql : SqlOrder} {t : Tables Row sql} (hkeys : col.Keys t)

include hkeys

theorem scanned_source {k : DriverValue} (h : k ∈ t.sourceKeys) : ∃ a, k = col.scan a := by
  obtain ⟨row, hrow, hk⟩ := List.mem_filterMap.mp h
  exact hkeys.scanned row (List.mem_append_left _ hrow) k hk

theorem scanned_target {k : DriverValue} (h : t.targetMax t.target = some k) :
    ∃ a, k = col.scan a := by
  obtain ⟨row, hrow, hk⟩ := List.mem_filterMap.mp (SqlOrder.maxKey_spec h).1
  exact hkeys.scanned row (List.mem_append_right _ hrow) k hk

theorem target_covers_source_of_deltaSkip
    (horder : ∀ a b, compareAny print (some (col.scan a)) (some (col.scan b)) = col.orderBy a b)
    (hskip : deltaSkip print t = true) :
    ∃ m, t.targetMax t.target = some m ∧ ∀ k ∈ t.sourceKeys, sql.le k m = true := by
  rw [deltaSkip] at hskip
  cases hsource : sql.maxKey t.sourceKeys with
  | none =>
      rw [hsource] at hskip
      cases hskip
  | some srcMax =>
      cases htarget : t.targetMax t.target with
      | none =>
          rw [hsource, htarget] at hskip
          cases hskip
      | some tgtMax =>
          rw [hsource, htarget] at hskip
          obtain ⟨hmem, hle⟩ := SqlOrder.maxKey_spec hsource
          obtain ⟨a, rfl⟩ := scanned_source hkeys hmem
          obtain ⟨b, rfl⟩ := scanned_target hkeys htarget
          change (compareAny print (some (col.scan b)) (some (col.scan a))).isGE = true at hskip
          rw [horder] at hskip
          refine ⟨_, rfl, fun k hk => sql.trans _ _ _ (hle k hk) ?_⟩
          rw [hkeys.sorts]
          exact le_of_orderBy_isGE hskip

theorem advances_of_mem_rowsAfter
    (hgreater : ∀ a b,
      anyGreater print (some (col.scan a)) (some (col.scan b)) = !col.le a b)
    {last : Option (Option DriverValue)}
    (hlast : ∀ l, last = some (some l) → ∃ a, l = col.scan a) {row : Row}
    (hrow : row ∈ t.rowsAfter last) : Advances print last (t.key row) := by
  rintro l rfl
  obtain ⟨hsource, habove⟩ := TransferKeyset.mem_rowsAfter_some.mp hrow
  obtain ⟨l', k, rfl, hk, hlt⟩ := TransferKeyset.above_iff.mp habove
  obtain ⟨a, rfl⟩ := hlast l' rfl
  obtain ⟨b, rfl⟩ := hkeys.scanned row (List.mem_append_left _ hsource) k hk
  rw [hk, hgreater, ← hkeys.sorts]
  exact hlt

end Tables

/-- All of it follows from the order of two keys. -/
theorem comparesAsServer_of_order
    (horder : ∀ a b, compareAny print (some (col.scan a)) (some (col.scan b)) = col.orderBy a b) :
    ComparesAsServer print col := by
  have hgreater : ∀ a b,
      anyGreater print (some (col.scan a)) (some (col.scan b)) = !col.le a b := by
    intro a b
    rw [anyGreater, horder, Bool.eq_iff_iff, Bool.not_eq_true', ← orderBy_eq_gt_iff]
    simp
  have hle : ∀ a b, compareAny print (some (col.scan a)) (some (col.scan b)) ≠ .gt ↔
      col.le a b = true := fun a b => by rw [horder, orderBy_ne_gt_iff]
  constructor
  · exact horder
  · exact hgreater
  · exact fun a => rfl
  · intro a b
    rw [hle, hle]
    exact col.total a b
  · intro a b c
    rw [hle, hle, hle]
    exact col.trans a b c
  · exact fun t hkeys => target_covers_source_of_deltaSkip hkeys horder
  · exact fun t hkeys last hlast row => advances_of_mem_rowsAfter hkeys hgreater hlast

end Order

section Bytes

variable {a b c : List UInt8}

theorem compareBytes_ne_gt_iff : compareBytes a b ≠ .gt ↔ ¬ b < a := by
  rw [compareBytes]
  split
  · next h => exact ⟨fun _ => List.not_lt.mpr (List.le_of_lt h), fun _ h' => by cases h'⟩
  · next h =>
      split
      · next heq =>
          subst heq
          exact ⟨fun _ => h, fun _ h' => by cases h'⟩
      · next hne =>
          refine ⟨fun h' => absurd rfl h', fun h' => absurd ?_ hne⟩
          exact List.le_antisymm (List.not_lt.mp h') (List.not_lt.mp h)

theorem compareBytes_total (a b : List UInt8) :
    compareBytes a b ≠ .gt ∨ compareBytes b a ≠ .gt := by
  rw [compareBytes_ne_gt_iff, compareBytes_ne_gt_iff, List.not_lt, List.not_lt]
  exact List.le_total a b

theorem compareBytes_trans (hab : compareBytes a b ≠ .gt) (hbc : compareBytes b c ≠ .gt) :
    compareBytes a c ≠ .gt := by
  rw [compareBytes_ne_gt_iff, List.not_lt] at *
  exact List.le_trans hab hbc

theorem compareBytes_self (a : List UInt8) : compareBytes a a = .eq := by
  rw [compareBytes, if_neg (List.lt_irrefl a), if_pos rfl]

/-- The comparison of texts is the one by their order. -/
theorem compareBytes_eq_ite {le : List UInt8 → List UInt8 → Bool}
    (hab : le a b = true ↔ compareBytes a b ≠ .gt) (hba : le b a = true ↔ compareBytes b a ≠ .gt) :
    compareBytes a b = if le a b then if le b a then .eq else .lt else .gt := by
  by_cases hle : le a b = true
  · rw [if_pos hle]
    have hlt := compareBytes_ne_gt_iff.mp (hab.mp hle)
    by_cases hge : le b a = true
    · rw [if_pos hge]
      have hgt := compareBytes_ne_gt_iff.mp (hba.mp hge)
      rw [List.le_antisymm (List.not_lt.mp hlt) (List.not_lt.mp hgt), compareBytes_self]
    · rw [if_neg hge, compareBytes, if_pos]
      rw [hba, compareBytes_ne_gt_iff, not_not] at hge
      exact hge
  · rw [if_neg hle]
    rw [hab, not_not] at hle
    exact hle

theorem compareBytes_append (p s t : List UInt8) :
    compareBytes (p ++ s) (p ++ t) = compareBytes s t := by
  induction p with
  | nil => rfl
  | cons x p ih =>
      rw [← ih, compareBytes, compareBytes]
      simp only [List.cons_append, List.cons_lt_cons_iff, List.cons.injEq, true_and,
        UInt8.lt_irrefl, false_or]

end Bytes

section Columns

theorem decide_trans {x y z : Int} (hxy : decide (x ≤ y) = true) (hyz : decide (y ≤ z) = true) :
    decide (x ≤ z) = true :=
  decide_eq_true (Int.le_trans (of_decide_eq_true hxy) (of_decide_eq_true hyz))

theorem decide_total (x y : Int) : decide (x ≤ y) = true ∨ decide (y ≤ x) = true :=
  (Int.le_total x y).imp decide_eq_true decide_eq_true

theorem binary_trans {x y z : ℚ} (hxy : decide (x ≤ y) = true) (hyz : decide (y ≤ z) = true) :
    decide (x ≤ z) = true :=
  decide_eq_true (Rat.le_trans (of_decide_eq_true hxy) (of_decide_eq_true hyz))

theorem binary_total (x y : ℚ) : decide (x ≤ y) = true ∨ decide (y ≤ x) = true :=
  Rat.le_total.imp decide_eq_true decide_eq_true

theorem guid_trans {a b c : List UInt8}
    (hab : decide (compareBytes (guidKey a) (guidKey b) ≠ .gt) = true)
    (hbc : decide (compareBytes (guidKey b) (guidKey c) ≠ .gt) = true) :
    decide (compareBytes (guidKey a) (guidKey c) ≠ .gt) = true :=
  decide_eq_true (compareBytes_trans (of_decide_eq_true hab) (of_decide_eq_true hbc))

theorem guid_total (a b : List UInt8) :
    decide (compareBytes (guidKey a) (guidKey b) ≠ .gt) = true ∨
      decide (compareBytes (guidKey b) (guidKey a) ≠ .gt) = true :=
  (compareBytes_total _ _).imp decide_eq_true decide_eq_true

def integerColumn : KeyColumn where
  Value := Int64
  scan := .int
  le a b := a.toInt ≤ b.toInt
  total a b := decide_total a.toInt b.toInt
  trans _ _ _ := decide_trans

def timeColumn : KeyColumn where
  Value := Int
  scan := .time
  le a b := a ≤ b
  total := decide_total
  trans _ _ _ := decide_trans

def bitLe (a b : Bool) : Bool := !a || b

theorem bit_total : ∀ a b, bitLe a b = true ∨ bitLe b a = true := by decide

theorem bit_trans : ∀ a b c, bitLe a b = true → bitLe b c = true → bitLe a c = true := by decide

def bitColumn : KeyColumn where
  Value := Bool
  scan := .bit
  le := bitLe
  total := bit_total
  trans := bit_trans

def binaryColumn (bits : Nat) (lo hi : Int) : KeyColumn where
  Value := Binary bits lo hi
  scan x := .float x.value
  le x y := x.value ≤ y.value
  total x y := binary_total x.value y.value
  trans _ _ _ := binary_trans

def decimalColumn (scale bound : Nat) : KeyColumn where
  Value := { n : Int // n.natAbs ≤ bound }
  scan n := .text (ascii (decimalText scale n.val))
  le a b := a.val ≤ b.val
  total a b := decide_total a.val b.val
  trans _ _ _ := decide_trans

def stringColumn (domain : StringDomain) : KeyColumn where
  Value := { s : List UInt8 // domain.holds s }
  scan s := .text s.val
  le s t := domain.le s.val t.val
  total s t := domain.total s.val t.val
  trans s t u := domain.trans s.val t.val u.val

def uniqueIdentifierColumn : KeyColumn where
  Value := { b : List UInt8 // b.length = 16 }
  scan b := .text b.val
  le a b := compareBytes (guidKey a.val) (guidKey b.val) ≠ .gt
  total a b := guid_total a.val b.val
  trans _ _ _ := guid_trans

def KeyType.column : KeyType → KeyColumn
  | .integer => integerColumn
  | .bit => bitColumn
  | .time => timeColumn
  | .real => binaryColumn 24 (-149) 104
  | .float => binaryColumn 53 (-1074) 971
  | .decimal scale bound _ => decimalColumn scale bound
  | .string domain => stringColumn domain
  | .uniqueIdentifier => uniqueIdentifierColumn

/-- The server orders the column as `compareAny` compares what the driver makes of it. -/
def KeyType.OrderedAsScanned : KeyType → Prop
  | .integer | .bit | .time => True
  | .real | .float | .decimal .. | .uniqueIdentifier => False
  | .string domain => ∀ s t, domain.holds s → domain.holds t →
      (domain.le s t = true ↔ compareBytes s t ≠ .gt)

end Columns

section Agreement

variable (print : DriverValue → List UInt8)

theorem compare_eq_ite (x y : Int) :
    compare x y = if decide (x ≤ y) then if decide (y ≤ x) then .eq else .lt else .gt := by
  rcases Int.lt_trichotomy x y with h | h | h
  · rw [compare_lt_iff_lt.mpr h, if_pos (decide_eq_true (by omega)), if_neg]
    rw [decide_eq_true_eq]
    omega
  · subst h
    rw [compare_eq_iff_eq.mpr rfl, if_pos (decide_eq_true (Int.le_refl x)),
      if_pos (decide_eq_true (Int.le_refl x))]
  · rw [compare_gt_iff_gt.mpr h, if_neg]
    rw [decide_eq_true_eq]
    omega

/-- What `compareAny` is to give for the values of a column. -/
def Ordered (col : KeyColumn) : Prop :=
  ∀ a b, compareAny (sprint print) (some (col.scan a)) (some (col.scan b)) = col.orderBy a b

theorem ordered_integer : Ordered print integerColumn := fun a b => compare_eq_ite a.toInt b.toInt

theorem ordered_time : Ordered print timeColumn := fun a b => compare_eq_ite a b

theorem ordered_bit : Ordered print bitColumn := by
  have hbits : ∀ a b : Bool,
      compareBytes (ascii (if a then ['t', 'r', 'u', 'e'] else ['f', 'a', 'l', 's', 'e']))
        (ascii (if b then ['t', 'r', 'u', 'e'] else ['f', 'a', 'l', 's', 'e'])) =
        if bitLe a b then if bitLe b a then .eq else .lt else .gt := by decide
  exact hbits

/-- Strings are compared by their bytes. -/
theorem ordered_string_iff (domain : StringDomain) :
    Ordered print (stringColumn domain) ↔ ∀ s t, domain.holds s → domain.holds t →
      (domain.le s t = true ↔ compareBytes s t ≠ .gt) := by
  constructor
  · intro h s t hs ht
    have hst := h ⟨s, hs⟩ ⟨t, ht⟩
    change compareBytes s t = _ at hst
    rw [hst]
    exact (@orderBy_ne_gt_iff (stringColumn domain) ⟨s, hs⟩ ⟨t, ht⟩).symm
  · rintro h ⟨s, hs⟩ ⟨t, ht⟩
    exact compareBytes_eq_ite (h s t hs ht) (h t s ht hs)

/-- A quarter and three quarters are truncated to one number. -/
theorem not_ordered_binary {bits : Nat} {lo hi : Int} (hbits : 2 ≤ bits) (hlo : lo ≤ -2)
    (hhi : -2 ≤ hi) : ¬ Ordered print (binaryColumn bits lo hi) := by
  intro h
  have hfits : 4 ≤ 2 ^ bits := Nat.pow_le_pow_right (n := 2) (by decide) hbits
  let x : Binary bits lo hi := ⟨3, -2, Nat.lt_of_lt_of_le (by decide) hfits, hlo, hhi⟩
  let y : Binary bits lo hi := ⟨1, -2, Nat.lt_of_lt_of_le (by decide) hfits, hlo, hhi⟩
  have hneg : ¬ (0 : Int) ≤ -2 := by decide
  have hx : x.value = mkRat 3 4 := if_neg hneg
  have hy : y.value = mkRat 1 4 := if_neg hneg
  have hcompare : compare (truncInt64 x.value).toInt (truncInt64 y.value).toInt =
      (binaryColumn bits lo hi).orderBy x y := h x y
  have hle : (binaryColumn bits lo hi).le x y = false := by
    change decide (x.value ≤ y.value) = false
    rw [hx, hy]
    decide
  rw [orderBy_eq_gt_iff.mpr hle, hx, hy] at hcompare
  exact absurd hcompare (by decide)

/-- The negative texts with one last digit differ in it alone. -/
theorem decimalText_neg_digit (scale : Nat) :
    ∃ p, ∀ n : Nat, 1 ≤ n → n < 10 → decimalText scale (-n) = p ++ [n.digitChar] := by
  cases scale with
  | zero =>
      refine ⟨['-'], fun n hpos hlt => ?_⟩
      rw [decimalText, if_pos (by omega), if_pos rfl, List.append_nil, Int.natAbs_neg,
        Int.natAbs_natCast, Nat.pow_zero, Nat.div_one, Nat.toDigits_of_lt_base hlt]
  | succ scale =>
      refine ⟨['-', '0', '.'] ++ List.replicate scale '0', fun n hpos hlt => ?_⟩
      have hbelow : n < 10 ^ (scale + 1) := by
        have hpow : 10 ≤ 10 ^ (scale + 1) := Nat.le_self_pow (by omega) 10
        omega
      rw [decimalText, if_pos (by omega), if_neg (by omega), Int.natAbs_neg, Int.natAbs_natCast,
        Nat.div_eq_of_lt hbelow, Nat.mod_eq_of_lt hbelow, NumberText.padded,
        Nat.toDigits_of_lt_base hlt]
      simp [Nat.toDigits_of_lt_base]

theorem not_ordered_decimal {scale bound : Nat} (hbound : 2 ≤ bound) :
    ¬ Ordered print (decimalColumn scale bound) := by
  intro h
  obtain ⟨p, hp⟩ := decimalText_neg_digit scale
  have hcompare : compareBytes (ascii (decimalText scale (-1))) (ascii (decimalText scale (-2))) =
      .gt := h ⟨-1, by omega⟩ ⟨-2, by omega⟩
  rw [show decimalText scale (-1) = _ from hp 1 (by decide) (by decide),
    show decimalText scale (-2) = _ from hp 2 (by decide) (by decide), ascii, ascii,
    List.map_append, List.map_append, compareBytes_append] at hcompare
  exact absurd hcompare (by decide)

/-- The server compares the last bytes first. -/
theorem not_ordered_uniqueIdentifier : ¬ Ordered print uniqueIdentifierColumn := by
  intro h
  have hcompare := h ⟨1 :: List.replicate 15 0, rfl⟩ ⟨List.replicate 15 0 ++ [1], rfl⟩
  have hfacts : compareBytes (1 :: List.replicate 15 0) (List.replicate 15 0 ++ [1]) = .gt := by
    decide
  have hserver : compareBytes (guidKey (1 :: List.replicate 15 0))
      (guidKey (List.replicate 15 0 ++ [1])) ≠ .gt := by decide
  exact orderBy_ne_gt_iff.mpr (decide_eq_true hserver) (hcompare.symm.trans hfacts)

end Agreement

theorem comparesAsServer_iff (print : DriverValue → List UInt8) (type : KeyType) :
    ComparesAsServer (sprint print) type.column ↔ type.OrderedAsScanned := by
  constructor
  · rintro ⟨horder, -⟩
    cases type with
    | integer => trivial
    | bit => trivial
    | time => trivial
    | real => exact not_ordered_binary print (by decide) (by decide) (by decide) horder
    | float => exact not_ordered_binary print (by decide) (by decide) (by decide) horder
    | decimal scale bound two_le => exact not_ordered_decimal print two_le horder
    | string domain => exact (ordered_string_iff print domain).mp horder
    | uniqueIdentifier => exact not_ordered_uniqueIdentifier print horder
  · intro h
    apply comparesAsServer_of_order
    cases type with
    | integer => exact ordered_integer print
    | bit => exact ordered_bit print
    | time => exact ordered_time print
    | real => exact h.elim
    | float => exact h.elim
    | decimal scale bound two_le => exact h.elim
    | string domain => exact (ordered_string_iff print domain).mpr h
    | uniqueIdentifier => exact h.elim

/-- `numeric(5, 2)` puts 9.00 before 10.00, its texts stand the other way round. -/
theorem numeric_compared_as_text :
    ¬ ComparesAsServer (sprint fun _ => []) (KeyType.decimal 2 99999 (by decide)).column := by
  intro h
  have hcompare : compareBytes (ascii (decimalText 2 900)) (ascii (decimalText 2 1000)) = .lt :=
    h.order ⟨900, by decide⟩ ⟨1000, by decide⟩
  exact absurd hcompare (by decide)

end SqlOptima.KeyComparison
