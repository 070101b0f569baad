import SqlOptima.CopyValues
import SqlOptima.ExceptRules

namespace SqlOptima.CopyFraming

open CellValues WireFormat CopyValues

def pgCopySignature : List UInt8 := [80, 71, 67, 79, 80, 89, 10, 0xFF, 13, 10, 0]

def appendInt16BE (b : List UInt8) (v : Int16) : List UInt8 := b ++ int16Bytes v

def appendInt32BE (b : List UInt8) (v : Int32) : List UInt8 := b ++ int32Bytes v

structure ArityMismatch where
  expected : Nat
  got : Nat
  deriving DecidableEq, Repr

section Encoder

variable (rt : Runtime)

structure BinaryCopyEncoder where
  buf : List UInt8
  fieldCount : Nat
  rowsWritten : Nat

def newBinaryCopyEncoder (fieldCount : Nat) : BinaryCopyEncoder where
  buf := appendInt32BE (appendInt32BE ([] ++ pgCopySignature) 0) 0
  fieldCount := fieldCount
  rowsWritten := 0

namespace BinaryCopyEncoder

def appendField (buf : List UInt8) (v : CopyValue) : List UInt8 :=
  match v.copyDataBytes rt with
  | none => appendInt32BE buf (-1)
  | some data => appendInt32BE buf (Int32.ofNat data.length) ++ data

def writeRow (e : BinaryCopyEncoder) (values : List CopyValue) :
    Except ArityMismatch BinaryCopyEncoder :=
  if values.length ≠ e.fieldCount then .error ⟨e.fieldCount, values.length⟩
  else .ok { e with
    buf := values.foldl (appendField rt) (appendInt16BE e.buf (Int16.ofNat e.fieldCount))
    rowsWritten := e.rowsWritten + 1 }

def writeRows (e : BinaryCopyEncoder) : List (List CopyValue) → Except ArityMismatch BinaryCopyEncoder
  | [] => .ok e
  | values :: rows => do
      let e ← e.writeRow rt values
      e.writeRows rows

def finish (e : BinaryCopyEncoder) : List UInt8 := appendInt16BE e.buf (-1)

end BinaryCopyEncoder

/-- The payload built in memory: a new encoder, every row, `Finish`. -/
def encodeInMemory (fieldCount : Nat) (rows : List (List CopyValue)) :
    Except ArityMismatch (List UInt8) := do
  let e ← (newBinaryCopyEncoder fieldCount).writeRows rt rows
  return e.finish

end Encoder

section Writer

variable (rt : Runtime)

def writeBinaryCopyHeader (w : List UInt8) : List UInt8 :=
  w ++ appendInt32BE (appendInt32BE ([] ++ pgCopySignature) 0) 0

def appendRowField (rowBuf : List UInt8) (v : CopyValue) : List UInt8 :=
  match v.copyDataBytes rt with
  | none => appendInt32BE rowBuf (-1)
  | some data => appendInt32BE rowBuf (Int32.ofNat data.length) ++ data

/-- The row goes through a buffer of its own and is written at once. -/
def writeBinaryCopyRow (w : List UInt8) (fieldCount : Nat) (values : List CopyValue) :
    Except ArityMismatch (List UInt8) :=
  if values.length ≠ fieldCount then .error ⟨fieldCount, values.length⟩
  else .ok (w ++ values.foldl (appendRowField rt) (appendInt16BE [] (Int16.ofNat fieldCount)))

def writeBinaryCopyTrailer (w : List UInt8) : List UInt8 :=
  w ++ appendInt16BE [] (-1)

inductive EncodeError where
  | encodeRow (e : CopyRowError)
  | writeRow (e : ArityMismatch)
  deriving DecidableEq, Repr

/-- What `encodeBinaryCopyToWriter` leaves behind: the bytes written, the rows counted and the
error it returns. -/
structure WriterResult where
  written : List UInt8
  rows : Nat
  err : Option EncodeError
  deriving DecidableEq

def encodeLoop (fieldCount : Nat) (schema : ExtractionSchema) :
    List (List CellValue) → List UInt8 → Nat → WriterResult
  | [], w, rows => ⟨writeBinaryCopyTrailer w, rows, none⟩
  | cells :: batch, w, rows =>
      match cellsToCopyRow rt schema cells with
      | .error e => ⟨w, rows, some (.encodeRow e)⟩
      | .ok row =>
          match writeBinaryCopyRow rt w fieldCount row with
          | .error e => ⟨w, rows, some (.writeRow e)⟩
          | .ok w => encodeLoop fieldCount schema batch w (rows + 1)

def encodeBinaryCopyToWriter (fieldCount : Nat) (schema : ExtractionSchema)
    (batch : List (List CellValue)) : WriterResult :=
  encodeLoop rt fieldCount schema batch (writeBinaryCopyHeader []) 0

/-- The writer's part alone, on rows that are converted already. -/
def writeCopyRows (fieldCount : Nat) (w : List UInt8) :
    List (List CopyValue) → Except ArityMismatch (List UInt8)
  | [] => .ok (writeBinaryCopyTrailer w)
  | row :: rows => do
      let w ← writeBinaryCopyRow rt w fieldCount row
      writeCopyRows fieldCount w rows

def encodeToWriter (fieldCount : Nat) (rows : List (List CopyValue)) :
    Except ArityMismatch (List UInt8) :=
  writeCopyRows rt fieldCount (writeBinaryCopyHeader []) rows

end Writer

section Decoder

def readInt16 : Reader Int := fun bs =>
  (readWord 2 bs).map fun p => ((Int16.ofNat p.1).toInt, p.2)

def readInt32 : Reader Int := fun bs =>
  (readWord 4 bs).map fun p => ((Int32.ofNat p.1).toInt, p.2)

def readField : Reader (Option (List UInt8)) := fun bs => do
  let (size, rest) ← readInt32 bs
  if size = -1 then return (none, rest)
  else if size < 0 then none
  else
    let (data, rest) ← readBytes size.toNat rest
    return (some data, rest)

/-- Tuples up to the trailer, after which nothing may follow. -/
def readTuples : Nat → List UInt8 → Option (List (List (Option (List UInt8))))
  | 0, _ => none
  | fuel + 1, bs => do
      let (count, rest) ← readInt16 bs
      if count = -1 then
        if rest = [] then return [] else none
      else if count < 0 then none
      else
        let (fields, rest) ← readMany readField count.toNat rest
        let tuples ← readTuples fuel rest
        return fields :: tuples

/-- PostgreSQL's side of the format. A tuple takes at least two bytes, so the length of the stream
is fuel enough. -/
def decodeBinaryCopy (bs : List UInt8) : Option (List (List (Option (List UInt8)))) := do
  let (signature, rest) ← readBytes 11 bs
  if signature ≠ pgCopySignature then none
  else
    let (flags, rest) ← readWord 4 rest
    if 2 ^ 16 ≤ flags then none
    else
      let (extension, rest) ← readInt32 rest
      if extension < 0 then none
      else
        let (_, rest) ← readBytes extension.toNat rest
        readTuples rest.length rest

end Decoder

section Layout

variable (rt : Runtime)

def fieldBytes : Option (List UInt8) → List UInt8
  | none => int32Bytes (-1)
  | some data => int32Bytes (Int32.ofNat data.length) ++ data

def fields (row : List CopyValue) : List (Option (List UInt8)) :=
  row.map fun v => v.copyDataBytes rt

def tupleBytes (row : List (Option (List UInt8))) : List UInt8 :=
  int16Bytes (Int16.ofNat row.length) ++ row.flatMap fieldBytes

def headerBytes : List UInt8 := pgCopySignature ++ int32Bytes 0 ++ int32Bytes 0

/-- The stream both encoders lay out. -/
def streamBytes (rows : List (List (Option (List UInt8)))) : List UInt8 :=
  headerBytes ++ (rows.flatMap tupleBytes ++ int16Bytes (-1))

variable {rt}

theorem appendField_eq (buf : List UInt8) (v : CopyValue) :
    BinaryCopyEncoder.appendField rt buf v = buf ++ fieldBytes (v.copyDataBytes rt) := by
  rw [BinaryCopyEncoder.appendField]
  cases v.copyDataBytes rt with
  | none => rfl
  | some data => simp [appendInt32BE, fieldBytes]

theorem foldl_appendField (values : List CopyValue) (buf : List UInt8) :
    values.foldl (BinaryCopyEncoder.appendField rt) buf =
      buf ++ (fields rt values).flatMap fieldBytes := by
  induction values generalizing buf with
  | nil => simp [fields]
  | cons v values ih =>
      rw [List.foldl_cons, ih, appendField_eq]
      simp [fields]

theorem writeRow_eq {e : BinaryCopyEncoder} {values : List CopyValue}
    (h : values.length = e.fieldCount) :
    e.writeRow rt values = .ok { e with
      buf := e.buf ++ tupleBytes (fields rt values)
      rowsWritten := e.rowsWritten + 1 } := by
  rw [BinaryCopyEncoder.writeRow, if_neg (by simpa using h), foldl_appendField]
  simp [appendInt16BE, tupleBytes, fields, h]

theorem writeRows_eq {e : BinaryCopyEncoder} {rows : List (List CopyValue)}
    (h : ∀ row ∈ rows, row.length = e.fieldCount) :
    e.writeRows rt rows = .ok { e with
      buf := e.buf ++ (rows.map (fields rt)).flatMap tupleBytes
      rowsWritten := e.rowsWritten + rows.length } := by
  induction rows generalizing e with
  | nil => simp [BinaryCopyEncoder.writeRows]
  | cons row rows ih =>
      rw [BinaryCopyEncoder.writeRows, writeRow_eq (h row List.mem_cons_self)]
      simp only [Except.bind, bind]
      have hrest := ih (e := { e with
        buf := e.buf ++ tupleBytes (fields rt row)
        rowsWritten := e.rowsWritten + 1 }) fun row hrow => h row (List.mem_cons_of_mem _ hrow)
      rw [hrest]
      simp [Nat.add_assoc, Nat.add_comm 1]

theorem encodeInMemory_eq {fieldCount : Nat} {rows : List (List CopyValue)}
    (h : ∀ row ∈ rows, row.length = fieldCount) :
    encodeInMemory rt fieldCount rows = .ok (streamBytes (rows.map (fields rt))) := by
  rw [encodeInMemory, writeRows_eq h]
  simp [bind, Except.bind, pure, Except.pure, BinaryCopyEncoder.finish, newBinaryCopyEncoder,
    appendInt32BE, appendInt16BE, streamBytes, headerBytes]

theorem writeBinaryCopyRow_eq {fieldCount : Nat} {values : List CopyValue} (w : List UInt8)
    (h : values.length = fieldCount) :
    writeBinaryCopyRow rt w fieldCount values = .ok (w ++ tupleBytes (fields rt values)) := by
  have hstep : appendRowField rt = BinaryCopyEncoder.appendField rt := rfl
  rw [writeBinaryCopyRow, if_neg (by simpa using h), hstep, foldl_appendField]
  simp [appendInt16BE, tupleBytes, fields, h]

theorem writeCopyRows_eq {fieldCount : Nat} {rows : List (List CopyValue)}
    (h : ∀ row ∈ rows, row.length = fieldCount) (w : List UInt8) :
    writeCopyRows rt fieldCount w rows =
      .ok (w ++ ((rows.map (fields rt)).flatMap tupleBytes ++ int16Bytes (-1))) := by
  induction rows generalizing w with
  | nil => simp [writeCopyRows, writeBinaryCopyTrailer, appendInt16BE]
  | cons row rows ih =>
      rw [writeCopyRows, writeBinaryCopyRow_eq w (h row List.mem_cons_self)]
      refine (ih (fun row hrow => h row (List.mem_cons_of_mem _ hrow)) _).trans ?_
      simp

theorem encodeToWriter_eq {fieldCount : Nat} {rows : List (List CopyValue)}
    (h : ∀ row ∈ rows, row.length = fieldCount) :
    encodeToWriter rt fieldCount rows = .ok (streamBytes (rows.map (fields rt))) := by
  rw [encodeToWriter, writeCopyRows_eq h]
  simp [writeBinaryCopyHeader, appendInt32BE, streamBytes, headerBytes]

/-- The loop over the channel is the writer's part on the converted rows. -/
theorem encodeLoop_eq {fieldCount : Nat} {schema : ExtractionSchema} {batch : List (List CellValue)}
    {rows : List (List CopyValue)}
    (h : List.Forall₂ (fun cells row => cellsToCopyRow rt schema cells = .ok row) batch rows)
    (harity : ∀ row ∈ rows, row.length = fieldCount) (w : List UInt8) (n : Nat) :
    encodeLoop rt fieldCount schema batch w n =
      ⟨w ++ ((rows.map (fields rt)).flatMap tupleBytes ++ int16Bytes (-1)), n + rows.length, none⟩ := by
  induction h generalizing w n with
  | nil => simp [encodeLoop, writeBinaryCopyTrailer, appendInt16BE]
  | cons hcells hrest ih =>
      simp only [encodeLoop, hcells]
      rw [writeBinaryCopyRow_eq w (harity _ List.mem_cons_self)]
      refine (ih (fun row hrow => harity row (List.mem_cons_of_mem _ hrow)) _ _).trans ?_
      simp [Nat.add_assoc, Nat.add_comm 1]

end Layout

section ReadBack

theorem readInt16_int16Bytes (v : Int16) (rest : List UInt8) :
    readInt16 (int16Bytes v ++ rest) = some (v.toInt, rest) := by
  have hlt : v.toUInt16.toNat < 256 ^ 2 := v.toUInt16.toNat_lt
  rw [readInt16, int16Bytes, readWord_beBytes, Nat.mod_eq_of_lt hlt, ← Int16.toNat_toBitVec,
    Option.map_some, Int16.ofNat_bitVecToNat, Int16.ofBitVec_toBitVec]

theorem readInt32_int32Bytes (v : Int32) (rest : List UInt8) :
    readInt32 (int32Bytes v ++ rest) = some (v.toInt, rest) := by
  have hlt : v.toUInt32.toNat < 256 ^ 4 := v.toUInt32.toNat_lt
  rw [readInt32, int32Bytes, readWord_beBytes, Nat.mod_eq_of_lt hlt, ← Int32.toNat_toBitVec,
    Option.map_some, Int32.ofNat_bitVecToNat, Int32.ofBitVec_toBitVec]

/-- The lengths an Int32 can name. -/
def Short (data : Option (List UInt8)) : Prop :=
  ∀ d, data = some d → d.length < 2 ^ 31

theorem readField_null (rest : List UInt8) :
    readField (fieldBytes none ++ rest) = some (none, rest) := by
  rw [readField, fieldBytes, readInt32_int32Bytes]
  rfl

theorem readField_some (d rest : List UInt8) :
    readField (fieldBytes (some d) ++ rest) =
      if (Int32.ofNat d.length).toInt = -1 then some (none, d ++ rest)
      else if (Int32.ofNat d.length).toInt < 0 then none
      else (readBytes (Int32.ofNat d.length).toInt.toNat (d ++ rest)).map fun p => (some p.1, p.2) := by
  rw [readField, fieldBytes, List.append_assoc, readInt32_int32Bytes]
  simp only [Option.bind_eq_bind, Option.bind_some]
  split
  · rfl
  · split
    · rfl
    · cases readBytes (Int32.ofNat d.length).toInt.toNat (d ++ rest) with
      | none => rfl
      | some p => rfl

theorem readField_short (data : Option (List UInt8)) (rest : List UInt8) (h : Short data) :
    readField (fieldBytes data ++ rest) = some (data, rest) := by
  cases data with
  | none => exact readField_null rest
  | some d =>
      have hlen : (Int32.ofNat d.length).toInt = d.length := Int32.toInt_ofNat_of_lt (h d rfl)
      rw [readField_some, hlen, if_neg (by omega), if_neg (by omega), Int.toNat_natCast,
        readBytes_append]
      rfl

/-- A length that wraps reads as NULL, as an error or as fewer bytes, never as the data. -/
theorem readField_long (data : Option (List UInt8)) (rest : List UInt8) (out : Option (List UInt8))
    (tail : List UInt8) (h : ¬ Short data)
    (hread : readField (fieldBytes data ++ rest) = some (out, tail)) : out ≠ data := by
  cases data with
  | none => exact absurd (fun d hd => by cases hd) h
  | some d =>
      have hlong : 2 ^ 31 ≤ d.length := by
        by_contra hlt
        apply h
        intro d' hd'
        cases hd'
        omega
      rintro rfl
      rw [readField_some] at hread
      split at hread
      · cases hread
      · split at hread
        · cases hread
        · rw [Option.map_eq_some_iff] at hread
          obtain ⟨⟨data, rest'⟩, hbytes, heq⟩ := hread
          simp only [Prod.mk.injEq, Option.some_inj] at heq
          obtain ⟨rfl, rfl⟩ := heq
          have hlen := readBytes_length hbytes
          have hmax := (Int32.ofNat data.length).toInt_lt
          omega

theorem readFields_iff (row : List (Option (List UInt8))) (rest : List UInt8) :
    (∃ tail, readMany readField row.length (row.flatMap fieldBytes ++ rest) = some (row, tail)) ↔
      ∀ data ∈ row, Short data :=
  readMany_flatMap_iff readField_short readField_long rest

theorem readTuples_tupleBytes {row : List (Option (List UInt8))} (hrow : row.length < 2 ^ 15)
    (fuel : Nat) (rest : List UInt8) :
    readTuples (fuel + 1) (tupleBytes row ++ rest) =
      (readMany readField row.length (row.flatMap fieldBytes ++ rest)).bind fun p =>
        (readTuples fuel p.2).map fun tuples => p.1 :: tuples := by
  have hcount : (Int16.ofNat row.length).toInt = row.length := Int16.toInt_ofNat_of_lt hrow
  rw [readTuples, tupleBytes, List.append_assoc, readInt16_int16Bytes, hcount]
  simp only [Option.bind_eq_bind, Option.bind_some]
  rw [if_neg (by omega), if_neg (by omega), Int.toNat_natCast]
  cases readMany readField row.length (row.flatMap fieldBytes ++ rest) with
  | none => rfl
  | some p =>
      obtain ⟨fields, rest⟩ := p
      simp only [Option.bind_some]
      cases readTuples fuel rest with
      | none => rfl
      | some tuples => rfl

theorem readTuples_iff {rows : List (List (Option (List UInt8)))} {fuel : Nat}
    (harity : ∀ row ∈ rows, row.length < 2 ^ 15) (hfuel : rows.length < fuel) :
    readTuples fuel (rows.flatMap tupleBytes ++ int16Bytes (-1)) = some rows ↔
      ∀ row ∈ rows, ∀ data ∈ row, Short data := by
  induction rows generalizing fuel with
  | nil =>
      obtain ⟨fuel, rfl⟩ := Nat.exists_eq_succ_of_ne_zero (Nat.ne_of_gt hfuel)
      have h := readInt16_int16Bytes (-1) []
      rw [List.append_nil] at h
      rw [List.flatMap_nil, List.nil_append, readTuples, h]
      simp
  | cons row rows ih =>
      obtain ⟨fuel, rfl⟩ := Nat.exists_eq_succ_of_ne_zero (Nat.ne_zero_of_lt hfuel)
      have hrest := ih (fun row hrow => harity row (List.mem_cons_of_mem _ hrow))
        (Nat.lt_of_succ_lt_succ hfuel)
      rw [List.flatMap_cons, List.append_assoc,
        readTuples_tupleBytes (harity row List.mem_cons_self), List.forall_mem_cons, ← hrest]
      by_cases hrow : ∀ data ∈ row, Short data
      · rw [readMany_flatMap readField_short hrow, and_iff_right hrow]
        simp
      · simp only [hrow, false_and, iff_false]
        intro h
        rw [Option.bind_eq_some_iff] at h
        obtain ⟨⟨out, tail⟩, hread, htuples⟩ := h
        rw [Option.map_eq_some_iff] at htuples
        obtain ⟨tuples, -, heq⟩ := htuples
        cases heq
        exact hrow ((readFields_iff _ _).mp ⟨tail, hread⟩)

theorem length_le_flatMap_tupleBytes (rows : List (List (Option (List UInt8)))) :
    rows.length ≤ (rows.flatMap tupleBytes).length := by
  induction rows with
  | nil => exact Nat.le_refl 0
  | cons row rows ih =>
      rw [List.flatMap_cons, List.length_append, List.length_cons, tupleBytes, List.length_append,
        int16Bytes, length_beBytes]
      omega

theorem decodeBinaryCopy_iff {rows : List (List (Option (List UInt8)))}
    (harity : ∀ row ∈ rows, row.length < 2 ^ 15) :
    decodeBinaryCopy (streamBytes rows) = some rows ↔ ∀ row ∈ rows, ∀ data ∈ row, Short data := by
  have hsignature : ∀ rest, readBytes 11 (pgCopySignature ++ rest) = some (pgCopySignature, rest) :=
    readBytes_append pgCopySignature
  have hflags : ∀ rest, readWord 4 (int32Bytes 0 ++ rest) = some (0, rest) := readWord_beBytes 4 0
  have hextension : ∀ rest, readInt32 (int32Bytes 0 ++ rest) = some (0, rest) := readInt32_int32Bytes 0
  have hskip : ∀ rest, readBytes 0 rest = some ([], rest) := fun rest => readBytes_append [] rest
  have hfuel : rows.length < (rows.flatMap tupleBytes ++ int16Bytes (-1)).length := by
    have hlength := length_le_flatMap_tupleBytes rows
    rw [List.length_append, int16Bytes, length_beBytes]
    omega
  rw [← readTuples_iff harity hfuel, decodeBinaryCopy, streamBytes, headerBytes, List.append_assoc,
    List.append_assoc, hsignature]
  simp only [Option.bind_eq_bind, Option.bind_some, ne_eq, not_true_eq_false, if_false]
  simp [hflags, hextension, hskip]

end ReadBack

section Framing

variable (rt : Runtime)

/-- Both encoders accept the rows and write the same bytes, and these decode to the rows' data. -/
def FramingHolds (fieldCount : Nat) (rows : List (List CopyValue)) : Prop :=
  ∃ payload, encodeInMemory rt fieldCount rows = .ok payload ∧
    encodeToWriter rt fieldCount rows = .ok payload ∧
    (∀ schema batch, batch.mapM (cellsToCopyRow rt schema) = .ok rows →
      encodeBinaryCopyToWriter rt fieldCount schema batch = ⟨payload, rows.length, none⟩) ∧
    decodeBinaryCopy payload = some (rows.map (fields rt))

variable {rt}

theorem encodeBinaryCopyToWriter_eq {fieldCount : Nat} {schema : ExtractionSchema}
    {batch : List (List CellValue)} {rows : List (List CopyValue)}
    (h : batch.mapM (cellsToCopyRow rt schema) = .ok rows)
    (harity : ∀ row ∈ rows, row.length = fieldCount) :
    encodeBinaryCopyToWriter rt fieldCount schema batch =
      ⟨streamBytes (rows.map (fields rt)), rows.length, none⟩ := by
  rw [encodeBinaryCopyToWriter, encodeLoop_eq (ExceptRules.forall₂_of_mapM h) harity]
  simp [writeBinaryCopyHeader, appendInt32BE, streamBytes, headerBytes]

theorem framingHolds_iff_short {fieldCount : Nat} (hcount : fieldCount < 32768)
    {rows : List (List CopyValue)} (harity : ∀ row ∈ rows, row.length = fieldCount) :
    FramingHolds rt fieldCount rows ↔ ∀ row ∈ rows, ∀ v ∈ row, Short (v.copyDataBytes rt) := by
  have hdecode : decodeBinaryCopy (streamBytes (rows.map (fields rt))) = some (rows.map (fields rt)) ↔
      ∀ row ∈ rows, ∀ v ∈ row, Short (v.copyDataBytes rt) := by
    rw [decodeBinaryCopy_iff]
    · simp [fields]
    · intro row hrow
      obtain ⟨values, hvalues, rfl⟩ := List.mem_map.mp hrow
      rw [fields, List.length_map, harity values hvalues]
      exact hcount
  rw [← hdecode, FramingHolds]
  constructor
  · rintro ⟨payload, hmemory, -, -, hread⟩
    rw [encodeInMemory_eq harity] at hmemory
    cases hmemory
    exact hread
  · intro hread
    exact ⟨_, encodeInMemory_eq harity, encodeToWriter_eq harity,
      fun schema batch hbatch => encodeBinaryCopyToWriter_eq hbatch harity, hread⟩

theorem framingHolds_iff {fieldCount : Nat} (hcount : fieldCount < 32768)
    {rows : List (List CopyValue)} (harity : ∀ row ∈ rows, row.length = fieldCount) :
    FramingHolds rt fieldCount rows ↔
      ∀ row ∈ rows, ∀ v ∈ row, ∀ data, v.copyDataBytes rt = some data → data.length < 2 ^ 31 :=
  framingHolds_iff_short hcount harity

/-- A runtime for values that are not formatted, hashed or encoded. -/
def idleRuntime : Runtime where
  formatG32 _ := []
  formatG64 _ := []
  toFloat32 _ := 0
  timeString _ := []
  sha256 _ _ := 0
  parseUUID _ := none
  encodeNumericBinaryString _ := none

theorem framingHolds_null_and_empty :
    FramingHolds idleRuntime 2 [[.null, .text []], [.text [255, 255], .bool true]] := by
  rw [framingHolds_iff (by decide) (by decide)]
  simp [CopyValue.copyDataBytes]

theorem not_framingHolds_of_long {data : List UInt8} (h : 2 ^ 31 ≤ data.length) :
    ¬ FramingHolds rt 1 [[.bytes (some data)]] := by
  intro hframing
  rw [framingHolds_iff_short (by decide) (by simp)] at hframing
  have hlen := hframing _ List.mem_cons_self _ List.mem_cons_self data rfl
  omega

/-- A byte slice of 2³¹ bytes: its length wraps to a negative one. -/
theorem framing_breaks_long_field :
    ¬ ∃ rt, FramingHolds rt 1 [[.bytes (some (List.replicate (2 ^ 31) 0))]] := by
  rintro ⟨rt, h⟩
  refine not_framingHolds_of_long ?_ h
  exact Nat.le_of_eq List.length_replicate.symm

end Framing

end SqlOptima.CopyFraming
