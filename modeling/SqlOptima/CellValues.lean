import SqlOptima.WireFormat

namespace SqlOptima.CellValues

/-- A Go string: the bytes it holds, valid UTF-8 or not. -/
abbrev Text := List UInt8

def ascii (s : String) : Text :=
  s.toList.map fun c => UInt8.ofNat c.toNat

def formatInt (n : Int) : Text :=
  ascii (toString n)

inductive LogicalType where
  | bool | int16 | int32 | int64 | float32 | float64 | decimal
  | utf8 | largeUtf8 | binary | largeBinary
  | date | time | timestamp | timestampTz | uuid | unsupported
  deriving DecidableEq, Repr

structure UUID where
  bytes : List UInt8
  len : bytes.length = 16
  deriving DecidableEq

def UUID.ofBytes? (bs : List UInt8) : Option UUID :=
  if h : bs.length = 16 then some ⟨bs, h⟩ else none

/-- A `time.Time`: seconds and nanoseconds since the Unix epoch and the offset of its zone, which
only the wall clock fields read. -/
structure GoTime where
  unixSec : Int64
  nsec : Fin 1000000000
  zoneOffset : Int
  deriving DecidableEq

namespace GoTime

def unixMicro (t : GoTime) : Int64 :=
  Int64.ofInt (t.unixSec.toInt * 1000000 + t.nsec / 1000)

def unixDays (t : GoTime) : Int32 :=
  Int32.ofInt (t.unixSec.toInt.tdiv 86400)

def secondOfDay (t : GoTime) : Nat :=
  ((t.unixSec.toInt + t.zoneOffset) % 86400).toNat

def hour (t : GoTime) : Nat := t.secondOfDay / 3600

def minute (t : GoTime) : Nat := t.secondOfDay % 3600 / 60

def second (t : GoTime) : Nat := t.secondOfDay % 60

def microOfDay (t : GoTime) : Nat :=
  t.hour * 3600000000 + t.minute * 60000000 + t.second * 1000000 + t.nsec / 1000

end GoTime

/-- What the driver hands to `Scan`, by its dynamic type. Floats are their IEEE 754 bits; a byte
slice is `none` when it is nil; `other` is any further type, with its `%v` text. -/
inductive DriverValue where
  | nil
  | bool (b : Bool)
  | int64 (n : Int64)
  | int32 (n : Int32)
  | int (n : Int64)
  | float64 (bits : UInt64)
  | string (s : Text)
  | bytes (b : Option (List UInt8))
  | time (t : GoTime)
  | other (text : Text)
  deriving DecidableEq

inductive CellValue where
  | null
  | bool (v : Bool)
  | i16 (v : Int16)
  | i32 (v : Int32)
  | i64 (v : Int64)
  | f32 (v : UInt32)
  | f64 (v : UInt64)
  | str (v : Text)
  | bin (v : Option (List UInt8))
  | date (v : Int32)
  | timestampMicros (v : Int64)
  | timeMicros (v : Int64)
  | uuid (v : UUID)
  deriving DecidableEq

inductive CellKind where
  | null | bool | i16 | i32 | i64 | f32 | f64 | str | bin | date | timestampMicros | timeMicros | uuid
  deriving DecidableEq, Repr

def CellValue.kind : CellValue → CellKind
  | .null => .null
  | .bool _ => .bool
  | .i16 _ => .i16
  | .i32 _ => .i32
  | .i64 _ => .i64
  | .f32 _ => .f32
  | .f64 _ => .f64
  | .str _ => .str
  | .bin _ => .bin
  | .date _ => .date
  | .timestampMicros _ => .timestampMicros
  | .timeMicros _ => .timeMicros
  | .uuid _ => .uuid

/-- What the cells pass to code outside the repository: `%g`, the narrowing to float32, the text of
a time, SHA-256, and the uuid and numeric packages. -/
structure Runtime where
  formatG32 : UInt32 → Text
  formatG64 : UInt64 → Text
  toFloat32 : UInt64 → UInt32
  timeString : GoTime → Text
  sha256 : Text → Fin 32 → UInt8
  parseUUID : Text → Option UUID
  encodeNumericBinaryString : Text → Option (List UInt8)

instance neZero_digest : NeZero 32 := ⟨by decide⟩

variable (rt : Runtime)

/-- The `%v` text of a byte array or slice: its bytes in decimal, in brackets. -/
def formatBytes (bs : List UInt8) : Text :=
  ascii "[" ++ List.intercalate (ascii " ") (bs.map fun b => formatInt b.toNat) ++ ascii "]"

/-- The `%v` text of a struct with one field. -/
def inBraces (s : Text) : Text := 123 :: s ++ [125]

def formatBool (b : Bool) : Text :=
  if b then ascii "true" else ascii "false"

def DriverValue.format : DriverValue → Text
  | .nil => ascii "<nil>"
  | .bool b => formatBool b
  | .int64 n => formatInt n.toInt
  | .int32 n => formatInt n.toInt
  | .int n => formatInt n.toInt
  | .float64 bits => rt.formatG64 bits
  | .string s => s
  | .bytes b => formatBytes (b.getD [])
  | .time t => rt.timeString t
  | .other text => text

/-- The branch of `convertCell` that the column's type selects; `none` is a value the branch does
not know, which falls through to the text. -/
def convertTyped : DriverValue → LogicalType → Option CellValue
  | .bool b, .bool => some (.bool b)
  | .int64 n, .int16 => some (.i16 (Int16.ofInt n.toInt))
  | .int32 n, .int16 => some (.i16 (Int16.ofInt n.toInt))
  | .int64 n, .int32 => some (.i32 (Int32.ofInt n.toInt))
  | .int32 n, .int32 => some (.i32 n)
  | .int n, .int32 => some (.i32 (Int32.ofInt n.toInt))
  | .int64 n, .int64 => some (.i64 n)
  | .float64 f, .float32 => some (.f32 (rt.toFloat32 f))
  | .float64 f, .float64 => some (.f64 f)
  | .float64 f, .decimal => some (.f64 f)
  | .string s, .decimal => some (.str s)
  | .bytes b, .decimal => some (.str (b.getD []))
  | .string s, .utf8 => some (.str s)
  | .string s, .largeUtf8 => some (.str s)
  | .bytes b, .binary => some (.bin b)
  | .bytes b, .largeBinary => some (.bin b)
  | .time t, .date => some (.date t.unixDays)
  | .time t, .timestamp => some (.timestampMicros t.unixMicro)
  | .time t, .timestampTz => some (.timestampMicros t.unixMicro)
  | .time t, .time => some (.timeMicros (Int64.ofNat t.microOfDay))
  | .bytes b, .uuid => (UUID.ofBytes? (b.getD [])).map .uuid
  | .string s, .uuid => (rt.parseUUID s).map .uuid
  | _, _ => none

def convertCell (v : DriverValue) (lt : LogicalType) : CellValue :=
  if v = .nil then .null else (convertTyped rt v lt).getD (.str (v.format rt))

structure ExtractionColumn where
  name : String
  logicalType : LogicalType
  deriving DecidableEq

abbrev ExtractionSchema := List ExtractionColumn

def scanRow (raw : List DriverValue) (schema : ExtractionSchema) : List CellValue :=
  List.zipWith (fun v col => convertCell rt v col.logicalType) raw schema

end SqlOptima.CellValues
