import SqlOptima.CopyValues

namespace SqlOptima.CopyFidelity

open CellValues ColumnTransforms WireFormat CopyValues

/-- A value as the server holds it; dates and timestamps count from the Unix epoch. -/
inductive PgValue (Numeric : Type) where
  | null
  | bool (v : Bool)
  | int (v : Int)
  | float4 (bits : UInt32)
  | float8 (bits : UInt64)
  | numeric (v : Numeric)
  | text (v : Text)
  | bytea (v : List UInt8)
  | date (days : Int)
  | timestamp (micros : Int)
  | infinite (positive : Bool)
  | time (micros : Int)
  | uuid (v : UUID)

/-- What the server brings to the format: the check of its text encoding, the binary form of a
numeric and the number a decimal text stands for. -/
structure Server (Numeric : Type) where
  textOk : Text → Bool
  numericRecv : List UInt8 → Option Numeric
  numericOf : Text → Numeric

/-- The numeric package writes the number its text stands for and takes no text that starts with a
brace. -/
structure NumericCodec {Numeric : Type} (rt : Runtime) (pg : Server Numeric) : Prop where
  recv_encode : ∀ s b, rt.encodeNumericBinaryString s = some b → pg.numericRecv b = some (pg.numericOf s)
  brace : ∀ s, rt.encodeNumericBinaryString (inBraces s) = none

section Receive

variable {Numeric : Type} (pg : Server Numeric)

def recvWord (k : Nat) (bs : List UInt8) : Option Nat :=
  if bs.length = k then some (beNat bs) else none

def minDate : Int := -2451545

def endDate : Int := 2145031949

def minTimestamp : Int := -211813488000000000

def endTimestamp : Int := 9223371331200000000

def usecsPerDay : Int := 86400000000

/-- A date or a timestamp off the wire: its two extreme values stand for the infinities, the others
are finite and checked against the range of the type. -/
def recvInstant (width : Nat) (low high shift : Int) (make : Int → PgValue Numeric) (w : Int) :
    Option (PgValue Numeric) :=
  if w = -2 ^ (width - 1) then some (.infinite false)
  else if w = 2 ^ (width - 1) - 1 then some (.infinite true)
  else if low ≤ w ∧ w < high then some (make (w + shift))
  else none

/-- The receive function of the column's type. -/
def receive (lt : LogicalType) : Option (List UInt8) → Option (PgValue Numeric)
  | none => some .null
  | some bs =>
      match lt with
      | .bool => (recvWord 1 bs).map fun n => .bool (n != 0)
      | .int16 => (recvWord 2 bs).map fun n => .int (Int16.ofNat n).toInt
      | .int32 => (recvWord 4 bs).map fun n => .int (Int32.ofNat n).toInt
      | .int64 => (recvWord 8 bs).map fun n => .int (Int64.ofNat n).toInt
      | .float32 => (recvWord 4 bs).map fun n => .float4 (UInt32.ofNat n)
      | .float64 => (recvWord 8 bs).map fun n => .float8 (UInt64.ofNat n)
      | .decimal => (pg.numericRecv bs).map .numeric
      | .utf8 | .largeUtf8 | .unsupported => if pg.textOk bs then some (.text bs) else none
      | .binary | .largeBinary => some (.bytea bs)
      | .date => (recvWord 4 bs).bind fun n =>
          recvInstant 32 minDate endDate 10957 .date (Int32.ofNat n).toInt
      | .timestamp | .timestampTz => (recvWord 8 bs).bind fun n =>
          recvInstant 64 minTimestamp endTimestamp 946684800000000 .timestamp (Int64.ofNat n).toInt
      | .time => (recvWord 8 bs).bind fun n =>
          let micros := (Int64.ofNat n).toInt
          if 0 ≤ micros ∧ micros ≤ usecsPerDay then some (.time micros) else none
      | .uuid => (UUID.ofBytes? bs).map .uuid

/-- The value of a cell; in a decimal column texts and floats stand for numbers. -/
def cellMeaning (rt : Runtime) (lt : LogicalType) : CellValue → PgValue Numeric
  | .null => .null
  | .bool v => .bool v
  | .i16 v => .int v.toInt
  | .i32 v => .int v.toInt
  | .i64 v => .int v.toInt
  | .f32 v => .float4 v
  | .f64 v => if lt = .decimal then .numeric (pg.numericOf (rt.formatG64 v)) else .float8 v
  | .str v => if lt = .decimal then .numeric (pg.numericOf v) else .text v
  | .bin v => v.elim .null .bytea
  | .date v => .date v.toInt
  | .timestampMicros v => .timestamp v.toInt
  | .timeMicros v => .time v.toInt
  | .uuid v => .uuid v

end Receive

/-- The kinds of cell that a column of the type can take. -/
def fitsKind : LogicalType → CellKind → Bool
  | _, .null => true
  | .bool, .bool => true
  | .int16, .i16 => true
  | .int32, .i32 => true
  | .int64, .i64 => true
  | .float32, .f32 => true
  | .float64, .f64 => true
  | .decimal, .str => true
  | .decimal, .f64 => true
  | .utf8, .str => true
  | .largeUtf8, .str => true
  | .unsupported, .str => true
  | .binary, .bin => true
  | .largeBinary, .bin => true
  | .date, .date => true
  | .timestamp, .timestampMicros => true
  | .timestampTz, .timestampMicros => true
  | .time, .timeMicros => true
  | .uuid, .uuid => true
  | _, _ => false

section Words

theorem recvWord_beBytes {k n : Nat} (h : n < 256 ^ k) : recvWord k (beBytes k n) = some n := by
  rw [recvWord, length_beBytes, if_pos rfl, beNat_beBytes, Nat.mod_eq_of_lt h]

theorem recvWord_int16Bytes (v : Int16) :
    (recvWord 2 (int16Bytes v)).map Int16.ofNat = some v := by
  rw [int16Bytes, recvWord_beBytes v.toUInt16.toNat_lt, ← Int16.toNat_toBitVec, Option.map_some,
    Int16.ofNat_bitVecToNat, Int16.ofBitVec_toBitVec]

theorem recvWord_int32Bytes (v : Int32) :
    (recvWord 4 (int32Bytes v)).map Int32.ofNat = some v := by
  rw [int32Bytes, recvWord_beBytes v.toUInt32.toNat_lt, ← Int32.toNat_toBitVec, Option.map_some,
    Int32.ofNat_bitVecToNat, Int32.ofBitVec_toBitVec]

theorem recvWord_int64Bytes (v : Int64) :
    (recvWord 8 (int64Bytes v)).map Int64.ofNat = some v := by
  rw [int64Bytes, recvWord_beBytes v.toUInt64.toNat_lt, ← Int64.toNat_toBitVec, Option.map_some,
    Int64.ofNat_bitVecToNat, Int64.ofBitVec_toBitVec]

end Words

section Instants

variable {Numeric : Type}

theorem recvInstant_iff {width : Nat} {low high shift w x : Int} {make : Int → PgValue Numeric}
    (hmake : ∀ y, make y = make x → y = x) (hfinite : ∀ b, .infinite b ≠ make x)
    (hlow : -2 ^ (width - 1) < low) (hhigh : high ≤ 2 ^ (width - 1) - 1)
    (hw : w = x - shift ∨ w = x - shift + 2 ^ width ∧ x - shift < -2 ^ (width - 1)) :
    recvInstant width low high shift make w = some (make x) ↔ low ≤ x - shift ∧ x - shift < high := by
  have hpos : (0 : Int) < 2 ^ width := Int.pow_pos (by decide)
  rw [recvInstant]
  generalize (2 : Int) ^ (width - 1) = half at *
  generalize (2 : Int) ^ width = whole at *
  split
  · next hneg =>
      constructor
      · intro h
        exact absurd (Option.some_inj.mp h) (hfinite false)
      · omega
  · split
    · next hmax =>
        constructor
        · intro h
          exact absurd (Option.some_inj.mp h) (hfinite true)
        · omega
    · split
      · rw [Option.some_inj]
        constructor
        · intro h
          have := hmake _ h
          omega
        · intro h
          have hx : w + shift = x := by omega
          rw [hx]
      · constructor
        · intro h
          cases h
        · omega

theorem toInt_sub_pgEpochDays (v : Int32) :
    (v - pgEpochDays).toInt = v.toInt - 10957 ∨
      (v - pgEpochDays).toInt = v.toInt - 10957 + 2 ^ 32 ∧ v.toInt - 10957 < -2 ^ 31 := by
  have hsub : (v - pgEpochDays).toInt = (v.toInt - 10957).bmod (2 ^ 32) := Int32.toInt_sub v pgEpochDays
  have hlow := v.le_toInt
  have hhigh := v.toInt_lt
  rw [hsub, Int.bmod]
  omega

theorem toInt_sub_pgEpochMicros (v : Int64) :
    (v - pgEpochMicros).toInt = v.toInt - 946684800000000 ∨
      (v - pgEpochMicros).toInt = v.toInt - 946684800000000 + 2 ^ 64 ∧
        v.toInt - 946684800000000 < -2 ^ 63 := by
  have hsub : (v - pgEpochMicros).toInt = (v.toInt - 946684800000000).bmod (2 ^ 64) :=
    Int64.toInt_sub v pgEpochMicros
  have hlow := v.le_toInt
  have hhigh := v.toInt_lt
  rw [hsub, Int.bmod]
  omega

end Instants

section Fields

variable {Numeric : Type} (pg : Server Numeric) (rt : Runtime)

/-- The cells the server can hold: a text in its encoding, a date or time within the type's range. -/
def InRange : CellValue → Prop
  | .str v => pg.textOk v = true
  | .date v => minDate ≤ v.toInt - 10957 ∧ v.toInt - 10957 < endDate
  | .timestampMicros v =>
      minTimestamp ≤ v.toInt - 946684800000000 ∧ v.toInt - 946684800000000 < endTimestamp
  | .timeMicros v => 0 ≤ v.toInt ∧ v.toInt ≤ usecsPerDay
  | _ => True

def Decodes (lt : LogicalType) (c : CellValue) (v : CopyValue) : Prop :=
  receive pg lt (v.copyDataBytes rt) = some (cellMeaning pg rt lt c)

variable {pg rt}

theorem decodes_date_iff (v : Int32) :
    Decodes pg rt .date (.date v) (toCopyValue (.date v)) ↔ InRange pg (.date v) := by
  have hword := recvWord_int32Bytes (v - pgEpochDays)
  rw [Option.map_eq_some_iff] at hword
  obtain ⟨n, hn, hofNat⟩ := hword
  simp only [Decodes, toCopyValue, CopyValue.copyDataBytes, receive, cellMeaning, hn, hofNat,
    Option.bind_some]
  exact recvInstant_iff (fun y h => PgValue.date.inj h) (fun b h => by cases h) (by decide) (by decide)
    (toInt_sub_pgEpochDays v)

theorem decodes_timestamp_iff {lt : LogicalType} (hlt : lt = .timestamp ∨ lt = .timestampTz) (v : Int64) :
    Decodes pg rt lt (.timestampMicros v) (toCopyValue (.timestampMicros v)) ↔
      InRange pg (.timestampMicros v) := by
  have hword := recvWord_int64Bytes (v - pgEpochMicros)
  rw [Option.map_eq_some_iff] at hword
  obtain ⟨n, hn, hofNat⟩ := hword
  have hrecv : receive pg lt (some (int64Bytes (v - pgEpochMicros))) =
      recvInstant 64 minTimestamp endTimestamp 946684800000000 .timestamp (v - pgEpochMicros).toInt := by
    rcases hlt with rfl | rfl <;> simp only [receive, hn, hofNat, Option.bind_some]
  simp only [Decodes, toCopyValue, CopyValue.copyDataBytes, hrecv, cellMeaning]
  exact recvInstant_iff (fun y h => PgValue.timestamp.inj h) (fun b h => by cases h) (by decide)
    (by decide) (toInt_sub_pgEpochMicros v)

theorem decodes_time_iff (v : Int64) :
    Decodes pg rt .time (.timeMicros v) (toCopyValue (.timeMicros v)) ↔ InRange pg (.timeMicros v) := by
  have hword := recvWord_int64Bytes v
  rw [Option.map_eq_some_iff] at hword
  obtain ⟨n, hn, hofNat⟩ := hword
  simp only [Decodes, toCopyValue, CopyValue.copyDataBytes, receive, cellMeaning, InRange, hn, hofNat,
    Option.bind_some]
  split
  · next h => simp [h]
  · next h => simp [h]

theorem decodes_text_iff {lt : LogicalType} (hlt : lt = .utf8 ∨ lt = .largeUtf8 ∨ lt = .unsupported)
    (v : Text) : Decodes pg rt lt (.str v) (toCopyValue (.str v)) ↔ InRange pg (.str v) := by
  have hrecv : receive pg lt (some v) = if pg.textOk v then some (.text v) else none := by
    rcases hlt with rfl | rfl | rfl <;> rfl
  have hmeaning : cellMeaning pg rt lt (.str v) = .text v := by
    rcases hlt with rfl | rfl | rfl <;> rfl
  simp only [Decodes, toCopyValue, CopyValue.copyDataBytes, hrecv, hmeaning, InRange]
  split
  · next h => simp [h]
  · next h => simp [h]

theorem decodes_int16 (v : Int16) : Decodes pg rt .int16 (.i16 v) (toCopyValue (.i16 v)) := by
  have hword := recvWord_int16Bytes v
  rw [Option.map_eq_some_iff] at hword
  obtain ⟨n, hn, hofNat⟩ := hword
  simp only [Decodes, toCopyValue, CopyValue.copyDataBytes, receive, cellMeaning, hn, hofNat,
    Option.map_some]

theorem decodes_int32 (v : Int32) : Decodes pg rt .int32 (.i32 v) (toCopyValue (.i32 v)) := by
  have hword := recvWord_int32Bytes v
  rw [Option.map_eq_some_iff] at hword
  obtain ⟨n, hn, hofNat⟩ := hword
  simp only [Decodes, toCopyValue, CopyValue.copyDataBytes, receive, cellMeaning, hn, hofNat,
    Option.map_some]

theorem decodes_int64 (v : Int64) : Decodes pg rt .int64 (.i64 v) (toCopyValue (.i64 v)) := by
  have hword := recvWord_int64Bytes v
  rw [Option.map_eq_some_iff] at hword
  obtain ⟨n, hn, hofNat⟩ := hword
  simp only [Decodes, toCopyValue, CopyValue.copyDataBytes, receive, cellMeaning, hn, hofNat,
    Option.map_some]

theorem decodes_float32 (v : UInt32) : Decodes pg rt .float32 (.f32 v) (toCopyValue (.f32 v)) := by
  have hword : recvWord 4 (beBytes 4 v.toNat) = some v.toNat := recvWord_beBytes v.toNat_lt
  simp only [Decodes, toCopyValue, CopyValue.copyDataBytes, receive, cellMeaning, hword,
    Option.map_some, UInt32.ofNat_toNat]

theorem decodes_float64 (v : UInt64) : Decodes pg rt .float64 (.f64 v) (toCopyValue (.f64 v)) := by
  have hword : recvWord 8 (beBytes 8 v.toNat) = some v.toNat := recvWord_beBytes v.toNat_lt
  simp only [Decodes, toCopyValue, CopyValue.copyDataBytes, receive, hword, Option.map_some,
    UInt64.ofNat_toNat]
  rfl

theorem decodes_bool (v : Bool) : Decodes pg rt .bool (.bool v) (toCopyValue (.bool v)) := by
  cases v <;> rfl

theorem decodes_bin {lt : LogicalType} (hlt : lt = .binary ∨ lt = .largeBinary)
    (v : Option (List UInt8)) : Decodes pg rt lt (.bin v) (toCopyValue (.bin v)) := by
  rcases hlt with rfl | rfl <;> cases v <;> rfl

theorem decodes_uuid (v : UUID) : Decodes pg rt .uuid (.uuid v) (toCopyValue (.uuid v)) := by
  simp only [Decodes, toCopyValue, CopyValue.copyDataBytes, receive, cellMeaning, UUID.ofBytes?, v.len,
    dite_true, Option.map_some]

theorem columns_of_str {lt : LogicalType} (h : fitsKind lt .str = true) :
    lt = .decimal ∨ lt = .utf8 ∨ lt = .largeUtf8 ∨ lt = .unsupported := by
  cases lt <;> revert h <;> decide

theorem columns_of_bin {lt : LogicalType} (h : fitsKind lt .bin = true) :
    lt = .binary ∨ lt = .largeBinary := by
  cases lt <;> revert h <;> decide

theorem columns_of_timestampMicros {lt : LogicalType} (h : fitsKind lt .timestampMicros = true) :
    lt = .timestamp ∨ lt = .timestampTz := by
  cases lt <;> revert h <;> decide

/-- Outside the decimal columns, a cell of the column's kind decodes to itself within the range of
the type and nowhere else. -/
theorem decodes_iff_inRange {lt : LogicalType} {c : CellValue} (hlt : lt ≠ .decimal)
    (hfits : fitsKind lt c.kind = true) : Decodes pg rt lt c (toCopyValue c) ↔ InRange pg c := by
  cases c with
  | null => exact iff_of_true rfl trivial
  | bool v =>
      obtain rfl : lt = .bool := by cases lt <;> first | rfl | cases hfits
      exact iff_of_true (decodes_bool v) trivial
  | i16 v =>
      obtain rfl : lt = .int16 := by cases lt <;> first | rfl | cases hfits
      exact iff_of_true (decodes_int16 v) trivial
  | i32 v =>
      obtain rfl : lt = .int32 := by cases lt <;> first | rfl | cases hfits
      exact iff_of_true (decodes_int32 v) trivial
  | i64 v =>
      obtain rfl : lt = .int64 := by cases lt <;> first | rfl | cases hfits
      exact iff_of_true (decodes_int64 v) trivial
  | f32 v =>
      obtain rfl : lt = .float32 := by cases lt <;> first | rfl | cases hfits
      exact iff_of_true (decodes_float32 v) trivial
  | f64 v =>
      obtain rfl : lt = .float64 := by
        cases lt <;> first | rfl | exact absurd rfl hlt | cases hfits
      exact iff_of_true (decodes_float64 v) trivial
  | str v => exact decodes_text_iff ((columns_of_str hfits).resolve_left hlt) v
  | bin v => exact iff_of_true (decodes_bin (columns_of_bin hfits) v) trivial
  | date v =>
      obtain rfl : lt = .date := by cases lt <;> first | rfl | cases hfits
      exact decodes_date_iff v
  | timestampMicros v => exact decodes_timestamp_iff (columns_of_timestampMicros hfits) v
  | timeMicros v =>
      obtain rfl : lt = .time := by cases lt <;> first | rfl | cases hfits
      exact decodes_time_iff v
  | uuid v =>
      obtain rfl : lt = .uuid := by cases lt <;> first | rfl | cases hfits
      exact iff_of_true (decodes_uuid v) trivial

end Fields

section Decimals

variable {Numeric : Type} {pg : Server Numeric} {rt : Runtime}

/-- A decimal column takes nothing but NULL and what the numeric package can read. -/
theorem decimal_of_not_rejected (codec : NumericCodec rt pg) {col : ExtractionColumn} {c : CellValue}
    (hcol : col.logicalType = .decimal) (h : numericRejected rt col c ≠ true) :
    fitsKind .decimal c.kind = true ∧ Decodes pg rt .decimal c (toCopyValueForColumn rt c .decimal) := by
  have hencode : c ≠ .null → ∃ b, rt.encodeNumericBinaryString (decimalStringFromCell rt c) = some b := by
    intro hnull
    rw [← Option.ne_none_iff_exists']
    simpa [numericRejected, hcol, hnull] using h
  have hbraces : ∀ s, c ≠ .null → decimalStringFromCell rt c ≠ inBraces s := by
    intro s hnull heq
    obtain ⟨b, hb⟩ := hencode hnull
    rw [heq, codec.brace] at hb
    cases hb
  cases c with
  | null => exact ⟨rfl, rfl⟩
  | str v =>
      obtain ⟨b, hb⟩ := hencode (by simp)
      have hrecv := codec.recv_encode _ _ hb
      refine ⟨rfl, ?_⟩
      simp only [decimalStringFromCell] at hb hrecv
      simp [Decodes, toCopyValueForColumn, CopyValue.copyDataBytes, hb, receive, hrecv, cellMeaning]
  | f64 v =>
      obtain ⟨b, hb⟩ := hencode (by simp)
      have hrecv := codec.recv_encode _ _ hb
      refine ⟨rfl, ?_⟩
      simp only [decimalStringFromCell] at hb hrecv
      simp [Decodes, toCopyValueForColumn, CopyValue.copyDataBytes, hb, receive, hrecv, cellMeaning]
  | bool v => exact absurd rfl (hbraces _ (by simp))
  | i16 v => exact absurd rfl (hbraces _ (by simp))
  | i32 v => exact absurd rfl (hbraces _ (by simp))
  | i64 v => exact absurd rfl (hbraces _ (by simp))
  | f32 v => exact absurd rfl (hbraces _ (by simp))
  | bin v => exact absurd rfl (hbraces _ (by simp))
  | date v => exact absurd rfl (hbraces _ (by simp))
  | timestampMicros v => exact absurd rfl (hbraces _ (by simp))
  | timeMicros v => exact absurd rfl (hbraces _ (by simp))
  | uuid v => exact absurd rfl (hbraces _ (by simp))

end Decimals

section Rows

variable {Numeric : Type} (pg : Server Numeric) (rt : Runtime)

/-- A row that is taken decodes field by field to the cells, and a cell of a foreign kind is an
error. -/
def RowFaithful (schema : ExtractionSchema) (cells : List CellValue) : Prop :=
  (∀ row, cellsToCopyRow rt schema cells = .ok row →
    List.Forall₂ (fun p v => Decodes pg rt p.1.logicalType p.2 v) (schema.zip cells) row) ∧
  ∀ p ∈ schema.zip cells, fitsKind p.1.logicalType p.2.kind = false →
    ∃ e, cellsToCopyRow rt schema cells = .error e

def CellFits (lt : LogicalType) (c : CellValue) : Prop :=
  lt ≠ .decimal → fitsKind lt c.kind = true ∧ InRange pg c

variable {pg rt}

theorem toCopyValueForColumn_of_ne {lt : LogicalType} (h : lt ≠ .decimal) (c : CellValue) :
    toCopyValueForColumn rt c lt = toCopyValue c :=
  if_neg h

theorem rowFaithful_of_rejected {schema : ExtractionSchema} {cells : List CellValue}
    (h : RowRejected rt schema cells) : RowFaithful pg rt schema cells := by
  obtain ⟨e, he⟩ := cellsToCopyRow_of_rejected h
  refine ⟨?_, fun _ _ _ => ⟨e, he⟩⟩
  intro row hrow
  rw [he] at hrow
  cases hrow

theorem rowFaithful_iff_cells (codec : NumericCodec rt pg) {schema : ExtractionSchema}
    {cells : List CellValue} (h : ¬ RowRejected rt schema cells) :
    RowFaithful pg rt schema cells ↔ ∀ p ∈ schema.zip cells, CellFits pg p.1.logicalType p.2 := by
  have hrow := cellsToCopyRow_of_accepted h
  have hnumeric : ∀ p ∈ schema.zip cells, numericRejected rt p.1 p.2 ≠ true := by
    intro p hp hrej
    exact h (.inr ⟨p, hp, hrej⟩)
  constructor
  · rintro ⟨hdecodes, hkinds⟩ p hp hlt
    have hfits : fitsKind p.1.logicalType p.2.kind = true := by
      by_contra hkind
      obtain ⟨e, he⟩ := hkinds p hp (Bool.not_eq_true _ ▸ hkind)
      rw [hrow] at he
      cases he
    have hall := hdecodes _ hrow
    rw [List.forall₂_map_right_iff, List.forall₂_same] at hall
    have hp' := hall p hp
    rw [toCopyValueForColumn_of_ne hlt] at hp'
    exact ⟨hfits, (decodes_iff_inRange hlt hfits).mp hp'⟩
  · intro hfits
    constructor
    · intro row hok
      rw [hrow] at hok
      cases hok
      rw [List.forall₂_map_right_iff, List.forall₂_same]
      intro p hp
      by_cases hlt : p.1.logicalType = .decimal
      · have := (decimal_of_not_rejected codec hlt (hnumeric p hp)).2
        rwa [← hlt] at this
      · obtain ⟨hkind, hrange⟩ := hfits p hp hlt
        rw [toCopyValueForColumn_of_ne hlt]
        exact (decodes_iff_inRange hlt hkind).mpr hrange
    · intro p hp hkind
      exfalso
      by_cases hlt : p.1.logicalType = .decimal
      · have := (decimal_of_not_rejected codec hlt (hnumeric p hp)).1
        rw [← hlt, hkind] at this
        cases this
      · rw [(hfits p hp hlt).1] at hkind
        cases hkind

end Rows

section Kinds

def textKind : CellKind → CellKind
  | .null => .null
  | _ => .str

/-- What a transform makes of the kinds of cells. -/
def transformKind : Transform → CellKind → CellKind
  | .bitToBool, .i16 => .bool
  | .bitToBool, .i32 => .bool
  | .bitToBool, .i64 => .bool
  | .bitToBool, k => k
  | .datetimeToUTC, k => k
  | .stripTrailingNulls, k => k
  | .identity, k => k
  | .maskNullify, _ => .null
  | _, k => textKind k

def chainKind (chain : List Transform) (k : CellKind) : CellKind :=
  chain.foldl (fun k t => transformKind t k) k

variable (rt : Runtime)

/-- The kind a driver value takes in a column: the column's own for the type the driver is known to
use there, text for any other. -/
def driverKind : DriverValue → LogicalType → CellKind
  | .nil, _ => .null
  | .bool _, .bool => .bool
  | .int64 _, .int16 => .i16
  | .int32 _, .int16 => .i16
  | .int64 _, .int32 => .i32
  | .int32 _, .int32 => .i32
  | .int _, .int32 => .i32
  | .int64 _, .int64 => .i64
  | .float64 _, .float32 => .f32
  | .float64 _, .float64 => .f64
  | .float64 _, .decimal => .f64
  | .bytes _, .binary => .bin
  | .bytes _, .largeBinary => .bin
  | .time _, .date => .date
  | .time _, .timestamp => .timestampMicros
  | .time _, .timestampTz => .timestampMicros
  | .time _, .time => .timeMicros
  | .bytes b, .uuid => if (b.getD []).length = 16 then .uuid else .str
  | .string s, .uuid => if (rt.parseUUID s).isSome then .uuid else .str
  | _, _ => .str

variable {rt}

theorem kind_apply (t : Transform) (c : CellValue) :
    (t.apply rt c).kind = transformKind t c.kind := by
  cases t <;> cases c <;> rfl

theorem kind_runChain (chain : List Transform) (c : CellValue) :
    (runChain rt chain c).kind = chainKind chain c.kind := by
  induction chain generalizing c with
  | nil => rfl
  | cons t chain ih =>
      have h := ih (t.apply rt c)
      rw [kind_apply] at h
      exact h

theorem kind_convertCell (v : DriverValue) (lt : LogicalType) :
    (convertCell rt v lt).kind = driverKind rt v lt := by
  cases v with
  | bytes b =>
      cases lt <;> try rfl
      change (((UUID.ofBytes? (b.getD [])).map CellValue.uuid).getD _).kind = if _ then _ else _
      rw [UUID.ofBytes?]
      split
      · rfl
      · rfl
  | string s =>
      cases lt <;> try rfl
      change (((rt.parseUUID s).map CellValue.uuid).getD _).kind = if _ then _ else _
      cases rt.parseUUID s with
      | none => rfl
      | some u => rfl
  | _ => cases lt <;> rfl

end Kinds

section Emitted

variable {Numeric : Type} {pg : Server Numeric} {rt : Runtime}

theorem mem_zip_emitted_iff {schema : ExtractionSchema} {raw : List DriverValue} {p : Pipeline}
    {col : ExtractionColumn} {c : CellValue} :
    (col, c) ∈ schema.zip (p.apply rt (scanRow rt raw schema)) ↔
      ∃ i v, schema[i]? = some col ∧ raw[i]? = some v ∧
        c = runChain rt (p.chain i) (convertCell rt v col.logicalType) := by
  have hcell : ∀ {i : Nat} {v : DriverValue}, schema[i]? = some col → raw[i]? = some v →
      (p.apply rt (scanRow rt raw schema))[i]? =
        some (runChain rt (p.chain i) (convertCell rt v col.logicalType)) := by
    intro i v hcol hv
    rw [getElem?_apply, scanRow, List.getElem?_zipWith, hv, hcol]
    rfl
  rw [List.mem_iff_getElem?]
  simp only [List.getElem?_zip_eq_some]
  constructor
  · rintro ⟨i, hcol, hc⟩
    have hlt : (p.apply rt (scanRow rt raw schema))[i]? ≠ none := by simp [hc]
    cases hv : raw[i]? with
    | none =>
        rw [getElem?_apply, scanRow, List.getElem?_zipWith, hv] at hlt
        exact absurd rfl hlt
    | some v =>
        rw [hcell hcol hv] at hc
        exact ⟨i, v, hcol, hv, (Option.some_inj.mp hc).symm⟩
  · rintro ⟨i, v, hcol, hv, rfl⟩
    exact ⟨i, hcol, hcell hcol hv⟩

/-- Every way a row can come from the driver through the transforms to the encoder. -/
theorem rowFaithful_emitted_iff (codec : NumericCodec rt pg) (schema : ExtractionSchema)
    (raw : List DriverValue) (p : Pipeline) :
    RowFaithful pg rt schema (p.apply rt (scanRow rt raw schema)) ↔
      RowRejected rt schema (p.apply rt (scanRow rt raw schema)) ∨
      ∀ (i : Nat) col v, schema[i]? = some col → raw[i]? = some v → col.logicalType ≠ .decimal →
        fitsKind col.logicalType (chainKind (p.chain i) (driverKind rt v col.logicalType)) = true ∧
          InRange pg (runChain rt (p.chain i) (convertCell rt v col.logicalType)) := by
  by_cases hrej : RowRejected rt schema (p.apply rt (scanRow rt raw schema))
  · exact iff_of_true (rowFaithful_of_rejected hrej) (.inl hrej)
  · rw [rowFaithful_iff_cells codec hrej, or_iff_right hrej]
    constructor
    · intro h i col v hcol hv hlt
      have hfits := h (col, _) (mem_zip_emitted_iff.mpr ⟨i, v, hcol, hv, rfl⟩) hlt
      rw [kind_runChain, kind_convertCell] at hfits
      exact hfits
    · rintro h ⟨col, c⟩ hmem hlt
      obtain ⟨i, v, hcol, hv, rfl⟩ := mem_zip_emitted_iff.mp hmem
      rw [kind_runChain, kind_convertCell]
      exact h i col v hcol hv hlt

/-- PostgreSQL's binary numeric 7: one digit, weight, sign and scale zero. -/
def numericSeven : List UInt8 := [0, 1, 0, 0, 0, 0, 0, 0, 0, 7]

def sevenServer : Server Nat where
  textOk _ := true
  numericRecv b := if b = numericSeven then some 7 else none
  numericOf s := if s = ascii "7" then 7 else 0

def sevenRuntime : Runtime where
  formatG32 _ := []
  formatG64 _ := []
  toFloat32 _ := 0
  timeString _ := []
  sha256 _ _ := 0
  parseUUID _ := none
  encodeNumericBinaryString s := if s = ascii "7" then some numericSeven else none

theorem numericCodec_seven : NumericCodec sevenRuntime sevenServer where
  recv_encode s b h := by
    simp only [sevenRuntime] at h
    split at h
    · next hs =>
        cases h
        simp [sevenServer, hs]
    · cases h
  brace s := by
    have hne : inBraces s ≠ ascii "7" := by
      simp [inBraces, ascii]
    simp [sevenRuntime, hne]

theorem rowFaithful_int_and_numeric :
    RowFaithful sevenServer sevenRuntime [⟨"id", .int32⟩, ⟨"price", .decimal⟩]
      (Pipeline.apply sevenRuntime (some [[.identity], [.moneyToDecimal]])
        (scanRow sevenRuntime [.int64 5, .string (ascii "7")]
          [⟨"id", .int32⟩, ⟨"price", .decimal⟩])) := by
  refine (rowFaithful_emitted_iff numericCodec_seven _ _ _).mpr (.inr ?_)
  intro i col v hcol hv hlt
  match i with
  | 0 =>
      cases hcol
      cases hv
      exact ⟨rfl, trivial⟩
  | 1 =>
      cases hcol
      exact absurd rfl hlt
  | i + 2 => cases hcol

/-- A four digit number in an integer column under `mask_last_four`: the mask's text is four bytes
long and the server takes them for another number. -/
theorem masked_pin_written_as_integer :
    let cells := Pipeline.apply sevenRuntime (some [[.maskLastFour]])
      (scanRow sevenRuntime [.int64 1234] [⟨"pin", .int32⟩])
    cellsToCopyRow sevenRuntime [⟨"pin", .int32⟩] cells = .ok [.text (ascii "****")] ∧
      receive sevenServer .int32 (some (ascii "****")) = some (.int 707406378) ∧
      ¬ RowFaithful sevenServer sevenRuntime [⟨"pin", .int32⟩] cells := by
  have hcells : Pipeline.apply sevenRuntime (some [[.maskLastFour]])
      (scanRow sevenRuntime [.int64 1234] [⟨"pin", .int32⟩]) = [.str (ascii "****")] := rfl
  have hrow : cellsToCopyRow sevenRuntime [⟨"pin", .int32⟩] [.str (ascii "****")] =
      .ok [.text (ascii "****")] := rfl
  rw [hcells]
  refine ⟨hrow, rfl, ?_⟩
  intro h
  obtain ⟨e, he⟩ := h.2 (⟨"pin", .int32⟩, .str (ascii "****")) List.mem_cons_self rfl
  rw [hrow] at he
  cases he

end Emitted

end SqlOptima.CopyFidelity
