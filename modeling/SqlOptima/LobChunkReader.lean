import SqlOptima.CellValues
import SqlOptima.Utf16Pieces
import SqlOptima.Utf8Text

namespace SqlOptima.LobChunkReader

open CellValues
open Utf16Pieces
open Utf8Text (utf8 utf8_injective)

/-!
# Reading a large value in chunks

A reader asks for one substring after the other until one is empty, and joins them.
-/

section Source

/-- A character as `SUBSTRING` counts them: a code unit, or a surrogate pair where the collation
knows supplementary characters. -/
inductive SqlChar
  | unit (u : UInt16)
  | pair (high low : UInt16)
  deriving DecidableEq

def SqlChar.units : SqlChar → List UInt16
  | .unit u => [u]
  | .pair high low => [high, low]

/-- The value of a large column; `none` is NULL. -/
inductive LobValue
  | text (chars : Option (List SqlChar))
  | binary (bytes : Option (List UInt8))
  | xml (document : Option Text)
  deriving DecidableEq

/-- The text of a value, or of a part of it, as the driver decodes what is sent. -/
def sentText (chars : List SqlChar) : Text := utf8 (decode (chars.flatMap SqlChar.units))

/-- The value as the driver hands it out when it is selected in one piece. -/
def LobValue.driverValue : LobValue → DriverValue
  | .text none => .nil
  | .text (some chars) => .string (sentText chars)
  | .binary none => .nil
  | .binary (some bytes) => .bytes (some bytes)
  | .xml none => .nil
  | .xml (some document) => .string document

inductive QueryResult
  | noRows
  | failed (message : String)
  | row (chunk : DriverValue)

/-- `SELECT SUBSTRING(col, offset, size)` of the row; it takes no xml. -/
def LobValue.substring (size : Nat) : LobValue → Nat → QueryResult
  | .text none, _ => .row .nil
  | .text (some chars), offset => .row (.string (sentText ((chars.drop (offset - 1)).take size)))
  | .binary none, _ => .row .nil
  | .binary (some bytes), offset => .row (.bytes (some ((bytes.drop (offset - 1)).take size)))
  | .xml _, _ => .failed "Argument data type xml is invalid for argument 1 of substring function."

/-- What the server finds under the key of the query: the error of comparing it with the key column,
no row, or the column of the first row. -/
abbrev Found := Except String (Option LobValue)

def Found.substring (size : Nat) : Found → Nat → QueryResult
  | .error message, _ => .failed message
  | .ok none, _ => .noRows
  | .ok (some v), offset => v.substring size offset

end Source

section Reader

def defaultLOBChunkSizeBytes : Nat := 1024 * 1024

/-- A size that is not positive is replaced by the default. -/
def chunkSize (chunkSizeBytes : Int) : Nat :=
  if chunkSizeBytes < 1 then defaultLOBChunkSizeBytes else chunkSizeBytes.toNat

structure Chunks where
  chunksBin : List (List UInt8)
  chunksText : List Text
  isBinary : Option Bool

namespace Chunks

def empty : Chunks := ⟨[], [], none⟩

def addBin (p : Chunks) (v : List UInt8) : Chunks :=
  { p with chunksBin := p.chunksBin ++ [v], isBinary := p.isBinary <|> some true }

def addText (p : Chunks) (v : Text) : Chunks :=
  { p with chunksText := p.chunksText ++ [v], isBinary := p.isBinary <|> some false }

/-- What is returned at `done`. -/
def assemble (p : Chunks) : DriverValue :=
  match p.isBinary with
  | none => .nil
  | some true => .bytes (some p.chunksBin.flatten)
  | some false => .string p.chunksText.flatten

end Chunks

inductive ChunkStep
  | done (result : Except String DriverValue)
  | more (chunks : Chunks)

variable (typeName : DriverValue → String) (table : String)

/-- One round of the loop, with the result of its query; `typeName` is `%T`. -/
def chunkStep (sqlOffset : Nat) (p : Chunks) : QueryResult → ChunkStep
  | .noRows => .done (.ok p.assemble)
  | .failed message => .done (.error ("read LOB chunk for " ++ table ++ ": " ++ message))
  | .row .nil => .done (.ok (if sqlOffset = 1 then .nil else p.assemble))
  | .row (.bytes v) =>
      if v.getD [] = [] then .done (.ok (if p.isBinary = none then .nil else p.assemble))
      else .more (p.addBin (v.getD []))
  | .row (.string v) =>
      if v = [] then .done (.ok (if p.isBinary = none then .nil else p.assemble))
      else .more (p.addText v)
  | .row v => .done (.error ("unexpected LOB chunk type " ++ typeName v))

/-- The loop for so many rounds at most. -/
def readChunks (query : Nat → QueryResult) (size : Nat) :
    Nat → Nat → Chunks → Option (Except String DriverValue)
  | 0, _, _ => none
  | fuel + 1, sqlOffset, p =>
      match chunkStep typeName table sqlOffset p (query sqlOffset) with
      | .done result => some result
      | .more p => readChunks query size fuel (sqlOffset + size) p

/-- `ReadLOB`: every round runs its query again. -/
def readLOB (chunkSizeBytes : Int) (fuel : Nat) (found : Found) :
    Option (Except String DriverValue) :=
  let size := chunkSize chunkSizeBytes
  readChunks typeName table (Found.substring size found) size fuel 1 .empty

end Reader

section Assembly

variable {typeName : DriverValue → String} {table : String}

theorem chunkSize_pos (chunkSizeBytes : Int) : 0 < chunkSize chunkSizeBytes := by
  rw [chunkSize]
  split
  · decide
  · omega

theorem assemble_of_isBinary_eq_none (p : Chunks) :
    (if p.isBinary = none then DriverValue.nil else p.assemble) = p.assemble := by
  split
  · rename_i h
    rw [Chunks.assemble, h]
  · rfl

theorem chunkStep_empty_text {offset : Nat} (p : Chunks) :
    chunkStep typeName table offset p (.row (.string [])) = .done (.ok p.assemble) := by
  rw [chunkStep, if_pos rfl, assemble_of_isBinary_eq_none]

theorem chunkStep_empty_binary {offset : Nat} (p : Chunks) :
    chunkStep typeName table offset p (.row (.bytes (some []))) = .done (.ok p.assemble) := by
  rw [chunkStep, Option.getD_some, if_pos rfl, assemble_of_isBinary_eq_none]

theorem sentText_ne_nil {chars : List SqlChar} (h : chars ≠ []) : sentText chars ≠ [] := by
  intro heq
  have hdecode : decode (chars.flatMap SqlChar.units) = [] := utf8_injective heq
  cases chars with
  | nil => exact h rfl
  | cons c chars =>
      have hunits : (c :: chars).flatMap SqlChar.units ≠ [] := by
        cases c <;> exact List.cons_ne_nil _ _
      exact decode_ne_nil hunits hdecode

/-- The rounds that read a value whose substrings are sent as `f` says. -/
theorem readChunks_eq {α : Type} (f : List α → DriverValue) (add : Chunks → List α → Chunks)
    {query : Nat → QueryResult} {size : Nat} {xs : List α} (hsize : 0 < size)
    (hquery : ∀ offset, query offset = .row (f ((xs.drop (offset - 1)).take size)))
    (hdone : ∀ offset p, chunkStep typeName table offset p (.row (f [])) = .done (.ok p.assemble))
    (hmore : ∀ offset p ys, ys ≠ [] →
      chunkStep typeName table offset p (.row (f ys)) = .more (add p ys))
    {fuel : Nat} : ∀ (start : Nat) (p : Chunks), (xs.drop start).length < fuel →
      readChunks typeName table query size fuel (start + 1) p =
        some (.ok ((pieces size (xs.drop start)).foldl add p).assemble) := by
  induction fuel with
  | zero => exact fun start p h => absurd h (Nat.not_lt_zero _)
  | succ fuel ih =>
      intro start p hfuel
      rw [readChunks, hquery, Nat.add_sub_cancel]
      by_cases hne : xs.drop start = []
      · rw [hne, List.take_nil, hdone, pieces_nil]
        rfl
      · have htake : (xs.drop start).take size ≠ [] := by
          rw [Ne, List.take_eq_nil_iff, not_or]
          exact ⟨hsize.ne', hne⟩
        have hpos := List.length_pos_iff.mpr hne
        rw [List.length_drop] at hfuel hpos
        rw [hmore _ _ _ htake, pieces_of_ne_nil hsize hne, List.foldl_cons, List.drop_drop]
        have hih := ih (start + size) (add p ((xs.drop start).take size)) (by
          rw [List.length_drop]
          omega)
        rwa [Nat.add_right_comm] at hih

end Assembly

section Values

variable {typeName : DriverValue → String} {table : String} {chunkSizeBytes : Int}

theorem assemble_foldl_addText {α : Type} (g : List α → Text) (yss : List (List α)) (p : Chunks)
    (h : p.isBinary = some false) :
    (yss.foldl (fun p ys => p.addText (g ys)) p).assemble =
      .string (p.chunksText.flatten ++ yss.flatMap g) := by
  induction yss generalizing p with
  | nil =>
      rw [List.foldl_nil, Chunks.assemble, h, List.flatMap_nil, List.append_nil]
  | cons ys yss ih =>
      have hkind : (p.addText (g ys)).isBinary = some false := by
        rw [Chunks.addText, h]
        rfl
      rw [List.foldl_cons, ih _ hkind, Chunks.addText, List.flatten_append, List.flatten_singleton,
        List.append_assoc, List.flatMap_cons]

theorem assemble_foldl_addBin (bss : List (List UInt8)) (p : Chunks)
    (h : p.isBinary = some true) :
    (bss.foldl (fun p bs => p.addBin bs) p).assemble =
      .bytes (some (p.chunksBin.flatten ++ bss.flatten)) := by
  induction bss generalizing p with
  | nil =>
      rw [List.foldl_nil, Chunks.assemble, h, List.flatten_nil, List.append_nil]
  | cons bs bss ih =>
      have hkind : (p.addBin bs).isBinary = some true := by
        rw [Chunks.addBin, h]
        rfl
      rw [List.foldl_cons, ih _ hkind, Chunks.addBin, List.flatten_append, List.flatten_singleton,
        List.append_assoc, List.flatten_cons]

/-- What becomes of a value that is read in pieces. -/
def LobValue.reassembled (table : String) (size : Nat) : LobValue → Except String DriverValue
  | .text none => .ok .nil
  | .text (some chars) =>
      .ok (if chars = [] then .nil else .string ((pieces size chars).flatMap sentText))
  | .binary none => .ok .nil
  | .binary (some bytes) => .ok (if bytes = [] then .nil else .bytes (some bytes))
  | .xml _ => .error ("read LOB chunk for " ++ table ++ ": " ++
      "Argument data type xml is invalid for argument 1 of substring function.")

/-- The rounds that suffice. -/
def LobValue.rounds : LobValue → Nat
  | .text chars => (chars.getD []).length + 1
  | .binary bytes => (bytes.getD []).length + 1
  | .xml _ => 1

def Found.reassembled (table : String) (size : Nat) : Found → Except String DriverValue
  | .error message => .error ("read LOB chunk for " ++ table ++ ": " ++ message)
  | .ok none => .ok .nil
  | .ok (some v) => v.reassembled table size

def Found.rounds : Found → Nat
  | .ok (some v) => v.rounds
  | _ => 1

theorem readChunks_text (chars : List SqlChar) {size fuel : Nat} (hsize : 0 < size)
    (hfuel : chars.length < fuel) :
    readChunks typeName table ((LobValue.text (some chars)).substring size) size fuel 1 .empty =
      some (.ok (if chars = [] then .nil else .string ((pieces size chars).flatMap sentText))) := by
  have hread : readChunks typeName table ((LobValue.text (some chars)).substring size) size fuel 1
      .empty = some (.ok ((pieces size chars).foldl (fun (p : Chunks) ys => p.addText (sentText ys))
        Chunks.empty).assemble) := by
    refine readChunks_eq (fun ys => .string (sentText ys)) (fun p ys => p.addText (sentText ys))
      hsize (fun _ => rfl) (fun _ p => ?_) (fun _ p ys hne => ?_) 0 .empty hfuel
    · exact chunkStep_empty_text p
    · exact if_neg (sentText_ne_nil hne)
  rw [hread]
  split
  · rename_i hnil
    rw [hnil]
    rfl
  · rename_i hne
    have hfirst : (Chunks.empty.addText (sentText (chars.take size))).chunksText.flatten =
        sentText (chars.take size) := List.flatten_singleton
    rw [pieces_of_ne_nil hsize hne, List.foldl_cons, assemble_foldl_addText sentText _ _ rfl,
      List.flatMap_cons, hfirst]

theorem readChunks_binary (bytes : List UInt8) {size fuel : Nat} (hsize : 0 < size)
    (hfuel : bytes.length < fuel) :
    readChunks typeName table ((LobValue.binary (some bytes)).substring size) size fuel 1 .empty =
      some (.ok (if bytes = [] then .nil else .bytes (some bytes))) := by
  have hread : readChunks typeName table ((LobValue.binary (some bytes)).substring size) size fuel
      1 .empty = some (.ok ((pieces size bytes).foldl (fun (p : Chunks) bs => p.addBin bs)
        Chunks.empty).assemble) := by
    refine readChunks_eq (fun bs => .bytes (some bs)) (fun p bs => p.addBin bs)
      hsize (fun _ => rfl) (fun _ p => ?_) (fun _ p bs hne => ?_) 0 .empty hfuel
    · exact chunkStep_empty_binary p
    · exact if_neg hne
  rw [hread]
  split
  · rename_i hnil
    rw [hnil]
    rfl
  · rename_i hne
    have hflat := flatten_pieces hsize bytes
    have hfirst : (Chunks.empty.addBin (bytes.take size)).chunksBin.flatten =
        bytes.take size := List.flatten_singleton
    rw [pieces_of_ne_nil hsize hne, List.flatten_cons] at hflat
    rw [pieces_of_ne_nil hsize hne, List.foldl_cons, assemble_foldl_addBin _ _ rfl, hfirst, hflat]

/-- The loop ends, with the value in pieces. -/
theorem readLOB_value {fuel : Nat} {v : LobValue} (h : v.rounds ≤ fuel) :
    readLOB typeName table chunkSizeBytes fuel (.ok (some v)) =
      some (v.reassembled table (chunkSize chunkSizeBytes)) := by
  obtain ⟨fuel, rfl⟩ : ∃ n, fuel = n + 1 := by
    refine Nat.exists_eq_succ_of_ne_zero ?_
    rintro rfl
    cases v <;> exact absurd h (Nat.not_succ_le_zero _)
  have hsize := chunkSize_pos chunkSizeBytes
  rw [readLOB]
  cases v with
  | text chars =>
      cases chars with
      | none => rfl
      | some chars => exact readChunks_text chars hsize h
  | binary bytes =>
      cases bytes with
      | none => rfl
      | some bytes => exact readChunks_binary bytes hsize h
  | xml document => rfl

theorem readLOB_eq {fuel : Nat} {found : Found} (h : found.rounds ≤ fuel) :
    readLOB typeName table chunkSizeBytes fuel found =
      some (found.reassembled table (chunkSize chunkSizeBytes)) := by
  cases found with
  | error message =>
      obtain ⟨fuel, rfl⟩ := Nat.exists_eq_add_of_le h
      rw [Nat.add_comm]
      rfl
  | ok v =>
      cases v with
      | none =>
          obtain ⟨fuel, rfl⟩ := Nat.exists_eq_add_of_le h
          rw [Nat.add_comm]
          rfl
      | some v => exact readLOB_value h

/-- No chunk ends between the halves of a surrogate pair. -/
def KeepsPairs (size : Nat) (chars : List SqlChar) : Prop :=
  Whole ((pieces size chars).map fun ys => ys.flatMap SqlChar.units)

theorem flatMap_sentText_eq_iff {size : Nat} (hsize : 0 < size) (chars : List SqlChar) :
    (pieces size chars).flatMap sentText = sentText chars ↔ KeepsPairs size chars := by
  have hpieces : (pieces size chars).flatMap sentText =
      utf8 (((pieces size chars).map fun ys => ys.flatMap SqlChar.units).flatMap decode) := by
    rw [utf8, List.flatMap_assoc, List.flatMap_map]
    rfl
  have hwhole : chars.flatMap SqlChar.units =
      ((pieces size chars).map fun ys => ys.flatMap SqlChar.units).flatten := by
    rw [← List.flatMap_def]
    calc chars.flatMap SqlChar.units
        = ((pieces size chars).flatMap id).flatMap SqlChar.units := by
          rw [List.flatMap_id, flatten_pieces hsize]
      _ = (pieces size chars).flatMap fun ys => ys.flatMap SqlChar.units := List.flatMap_assoc
  rw [hpieces, sentText, utf8_injective.eq_iff, hwhole, flatMap_decode_eq_iff, KeepsPairs]

/-- A value that is read as it is: text of which no pair is cut, and bytes, neither of them
empty. -/
def Intact (size : Nat) : LobValue → Prop
  | .text none => True
  | .text (some chars) => chars ≠ [] ∧ KeepsPairs size chars
  | .binary none => True
  | .binary (some bytes) => bytes ≠ []
  | .xml _ => False

theorem reassembled_eq_iff {size : Nat} (hsize : 0 < size) (v : LobValue) :
    v.reassembled table size = .ok v.driverValue ↔ Intact size v := by
  cases v with
  | text chars =>
      cases chars with
      | none => exact iff_of_true rfl trivial
      | some chars =>
          rw [LobValue.reassembled, LobValue.driverValue, Intact, Except.ok.injEq]
          split
          · rename_i hnil
            exact iff_of_false DriverValue.noConfusion fun h => h.1 hnil
          · rename_i hne
            rw [DriverValue.string.injEq, flatMap_sentText_eq_iff hsize, and_iff_right hne]
  | binary bytes =>
      cases bytes with
      | none => exact iff_of_true rfl trivial
      | some bytes =>
          rw [LobValue.reassembled, LobValue.driverValue, Intact, Except.ok.injEq]
          split
          · rename_i hnil
            exact iff_of_false DriverValue.noConfusion fun h => h hnil
          · rename_i hne
            exact iff_of_true rfl hne
  | xml document =>
      refine iff_of_false (fun h => ?_) id
      cases h

end Values

end SqlOptima.LobChunkReader
