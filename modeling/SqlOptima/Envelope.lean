import SqlOptima.CdcCapture
import SqlOptima.PythonValues

namespace SqlOptima.Envelope

open SqlOptima.Lsn
open SqlOptima.JsonText
open SqlOptima.JsonValue
open SqlOptima.PythonValues
open SqlOptima.CdcCapture (ChangeOperation)

/-- The values of a captured row. -/
inductive Cell (R : Type)
  | none
  | bool (b : Bool)
  | int (n : Int)
  | float (x : PyFloat R)
  | str (s : Str)
  | decimal (d : Decimal)
  | bytes (bs : List UInt8)
  | date (d : Date)
  | datetime (d : DateTime)
  | uuid (u : UUID)
  deriving DecidableEq

variable {R : Type}

/-- What an envelope holds: cells, and dictionaries of them. -/
inductive PyObj (R : Type)
  | cell (c : Cell R)
  | dict (members : List (Str × PyObj R))

/-- A row as a dictionary from column names to values. -/
structure Row (R : Type) where
  cells : List (Str × Cell R)
  nodup : (cells.map Prod.fst).Nodup

structure ChangeEvent (R : Type) where
  tableSchema : Str
  tableName : Str
  operation : ChangeOperation
  afterValues : Option (Row R)
  beforeValues : Option (Row R)
  eventId : UUID
  lsn : Option LsnPosition
  sourceTimestamp : Option DateTime
  sourceHost : Str
  sourceDatabase : Str
  transactionId : Str

def lit (s : String) : Str := ofText s.toList

def text (s : Str) : List Char := s.map fun c => Char.ofNat c.val

def operationValue : ChangeOperation → String
  | .insert => "INSERT"
  | .update => "UPDATE"
  | .delete => "DELETE"
  | .updateMerge => "UPDATEMERGE"

section Encode

def PyObj.str (s : Str) : PyObj R := .cell (.str s)

def rowObj : Option (Row R) → PyObj R
  | none => .cell .none
  | some row => .dict (row.cells.map fun p => (p.1, .cell p.2))

/-- The standard envelope with its parts filled in. -/
def envelopeOf (id timestamp host database lsn txnId schema name operation : Str)
    (before after : PyObj R) : PyObj R :=
  .dict [
    (lit "id", .str id),
    (lit "timestamp", .str timestamp),
    (lit "source", .dict [
      (lit "type", .str (lit "mssql")),
      (lit "host", .str host),
      (lit "database", .str database),
      (lit "lsn", .str lsn),
      (lit "txn_id", .str txnId)]),
    (lit "table", .dict [(lit "schema", .str schema), (lit "name", .str name)]),
    (lit "operation", .str operation),
    (lit "before", before),
    (lit "after", after),
    (lit "headers", .dict [
      (lit "schema_version", .cell (.int 1)),
      (lit "content_type", .str (lit "application/json")),
      (lit "message_type", .str (lit "change"))])]

def timestampField : Option DateTime → Str
  | none => []
  | some t => ofText (t.isoformat 'T')

def lsnField : Option LsnPosition → Str
  | none => []
  | some p => ofText (lsnToString p)

def eventToEnvelope (event : ChangeEvent R) : PyObj R :=
  envelopeOf (ofText event.eventId.str) (timestampField event.sourceTimestamp)
    event.sourceHost event.sourceDatabase (lsnField event.lsn) event.transactionId
    event.tableSchema event.tableName
    (lit (operationValue event.operation)) (rowObj event.beforeValues) (rowObj event.afterValues)

/-- What the encoder makes of a value: those JSON does not know become their
`str`. -/
def encodeCell : Cell R → Json R
  | .none => .null
  | .bool b => .bool b
  | .int n => .int n
  | .float x => .float x
  | .str s => .str s
  | .decimal d => .str (ofText d.str)
  | .bytes bs => .str (ofText (bytesStr bs))
  | .date d => .str (ofText d.isoformat)
  | .datetime d => .str (ofText (d.isoformat ' '))
  | .uuid u => .str (ofText u.str)

mutual

def encode : PyObj R → Json R
  | .cell c => encodeCell c
  | .dict ms => .obj (encodeMembers ms)

def encodeMembers : List (Str × PyObj R) → List (Str × Json R)
  | [] => []
  | (k, v) :: ms => (k, encode v) :: encodeMembers ms

end

end Encode

section Decode

mutual

def decode : Json R → PyObj R
  | .null => .cell .none
  | .bool b => .cell (.bool b)
  | .int n => .cell (.int n)
  | .float x => .cell (.float x)
  | .str s => .cell (.str s)
  | .obj ms => .dict (decodeMembers ms)

def decodeMembers : List (Str × Json R) → List (Str × PyObj R)
  | [] => []
  | (k, v) :: ms => (k, decode v) :: decodeMembers ms

end

def get (ms : List (Str × PyObj R)) (k : String) : Option (PyObj R) :=
  (ms.find? fun p => p.1 = lit k).map Prod.snd

/-- `ms.get(k) or {}`. -/
def getDict (ms : List (Str × PyObj R)) (k : String) : Option (List (Str × PyObj R)) :=
  match get ms k with
  | some (.dict d) => some d
  | none | some (.cell .none) => some []
  | some (.cell _) => none

/-- `str(ms.get(k, default))` where a string stands under the key. -/
def getStr (ms : List (Str × PyObj R)) (k : String) (default : Str) : Option Str :=
  match get ms k with
  | none => some default
  | some (.cell (.str s)) => some s
  | some _ => none

/-- `ms.get(k) or ""`. -/
def getOrEmpty (ms : List (Str × PyObj R)) (k : String) : Option Str :=
  match get ms k with
  | none | some (.cell .none) => some []
  | some (.cell (.str s)) => some s
  | some _ => none

def cellsOf : List (Str × PyObj R) → Option (List (Str × Cell R))
  | [] => some []
  | (k, .cell c) :: ms => (cellsOf ms).map ((k, c) :: ·)
  | (_, .dict _) :: _ => none

def rowOf : PyObj R → Option (Option (Row R))
  | .cell .none => some none
  | .cell _ => none
  | .dict d =>
      match cellsOf d with
      | none => none
      | some cells => if h : (cells.map Prod.fst).Nodup then some (some ⟨cells, h⟩) else none

/-- `ms.get(k)` as a row. -/
def getRow (ms : List (Str × PyObj R)) (k : String) : Option (Option (Row R)) :=
  match get ms k with
  | none => some none
  | some o => rowOf o

def parseOperation (s : Str) : Option ChangeOperation :=
  if s = lit "INSERT" then some .insert
  else if s = lit "UPDATE" then some .update
  else if s = lit "DELETE" then some .delete
  else if s = lit "UPDATEMERGE" then some .updateMerge
  else none

def parseLsnText (s : Str) : Option (Option LsnPosition) :=
  if s = [] then some none else (lsnFromString (text s)).map some

def parseTimestamp (s : Str) (now : DateTime) : Option DateTime :=
  if s = [] then some now else DateTime.fromisoformat (text s)

def parseEventId (s : Str) (fresh : UUID) : Option UUID :=
  if s = [] then some fresh else UUID.parse (text s)

/-- The event of an envelope. `now` and `fresh` are the clock and the identifier
generator, read where the envelope has no time stamp or no identifier. -/
def eventFromEnvelope (targetSchema : Option Str) (now : DateTime) (fresh : UUID) :
    PyObj R → Option (ChangeEvent R)
  | .cell _ => none
  | .dict payload => do
      let table ← getDict payload "table"
      let source ← getDict payload "source"
      let lsn ← parseLsnText (← getOrEmpty source "lsn")
      let ts ← parseTimestamp (← getOrEmpty payload "timestamp") now
      let eventId ← parseEventId (← getOrEmpty payload "id") fresh
      let schema ← getStr table "schema" (lit "dbo")
      let name ← getStr table "name" []
      let operation ← parseOperation (← getStr payload "operation" (lit "INSERT"))
      let before ← getRow payload "before"
      let after ← getRow payload "after"
      let host ← getStr source "host" []
      let database ← getStr source "database" []
      let txnId ← getStr source "txn_id" []
      some {
        tableSchema := if targetSchema.getD [] = [] then schema else targetSchema.getD []
        tableName := name
        operation := operation
        beforeValues := before
        afterValues := after
        eventId := eventId
        lsn := lsn
        sourceTimestamp := some ts
        sourceHost := host
        sourceDatabase := database
        transactionId := txnId }

end Decode

section Transport

variable (floats : FloatText R)

def receive (targetSchema : Option Str) (now : DateTime) (fresh : UUID) (body : List Char) :
    Option (ChangeEvent R) :=
  (loads floats body).bind fun v => eventFromEnvelope targetSchema now fresh (decode v)

end Transport

section FromEnvelope

theorem eventFromEnvelope_envelopeOf (target : Option Str) (now : DateTime) (fresh : UUID)
    (id stamp host database lsn txnId schema name operation : Str) (before after : PyObj R) :
    eventFromEnvelope target now fresh
        (envelopeOf id stamp host database lsn txnId schema name operation before after) =
      (parseLsnText lsn).bind fun l => (parseTimestamp stamp now).bind fun t =>
        (parseEventId id fresh).bind fun u => (parseOperation operation).bind fun o =>
          (rowOf before).bind fun b => (rowOf after).bind fun a =>
            some ⟨if target.getD [] = [] then schema else target.getD [], name, o, a, b, u, l,
              some t, host, database, txnId⟩ := by
  rfl

theorem text_ofText (cs : List Char) : text (ofText cs) = cs := by
  rw [text, ofText, List.map_map]
  conv_rhs => rw [← List.map_id cs]
  apply List.map_congr_left
  intro c _
  rw [Function.comp_apply, val_ofChar, Char.ofNat_toNat, id]

theorem ofText_ne_nil {cs : List Char} (h : cs ≠ []) : ofText cs ≠ [] := by
  simpa [ofText] using h

theorem parseLsnText_lsnField (l : Option LsnPosition) : parseLsnText (lsnField l) = some l := by
  cases l with
  | none => rfl
  | some p =>
      rw [lsnField, parseLsnText, if_neg (ofText_ne_nil (by simp [lsnToString])), text_ofText,
        lsnFromString_lsnToString]
      rfl

theorem isoformat_ne_nil (sep : Char) (d : DateTime) : d.isoformat sep ≠ [] := by
  simp [DateTime.isoformat]

theorem parseTimestamp_timestampField (t : Option DateTime) (now : DateTime) :
    parseTimestamp (timestampField t) now = some (t.getD now) := by
  cases t with
  | none => rfl
  | some d =>
      rw [timestampField, parseTimestamp, if_neg (ofText_ne_nil (isoformat_ne_nil _ d)),
        text_ofText, fromisoformat_isoformat]
      rfl

theorem parseEventId_str (u fresh : UUID) : parseEventId (ofText u.str) fresh = some u := by
  rw [parseEventId, if_neg (ofText_ne_nil (by simp [UUID.str])), text_ofText, UUID.parse_str]

theorem parseOperation_value (o : ChangeOperation) :
    parseOperation (lit (operationValue o)) = some o := by
  cases o
  all_goals decide

theorem cellsOf_map (cells : List (Str × Cell R)) :
    cellsOf (cells.map fun p => (p.1, .cell p.2)) = some cells := by
  induction cells with
  | nil => rfl
  | cons p cells ih => simp [cellsOf, ih]

theorem rowOf_rowObj (r : Option (Row R)) : rowOf (rowObj r) = some r := by
  cases r with
  | none => rfl
  | some row => simp [rowObj, rowOf, cellsOf_map, row.nodup]

/-- What the in-memory bus hands on: the event itself, stamped if it was not. -/
theorem eventFromEnvelope_eventToEnvelope (now : DateTime) (fresh : UUID)
    (e : ChangeEvent R) :
    eventFromEnvelope none now fresh (eventToEnvelope e) =
      some { e with sourceTimestamp := some (e.sourceTimestamp.getD now) } := by
  rw [eventToEnvelope, eventFromEnvelope_envelopeOf, parseLsnText_lsnField,
    parseTimestamp_timestampField, parseEventId_str, parseOperation_value, rowOf_rowObj,
    rowOf_rowObj]
  rfl

end FromEnvelope

section Received

/-- A value as the broker delivers it. -/
def decodedCell : Cell R → Cell R
  | .none => .none
  | .bool b => .bool b
  | .int n => .int n
  | .float x => .float x
  | .str s => .str (joinPairs s)
  | .decimal d => .str (ofText d.str)
  | .bytes bs => .str (ofText (bytesStr bs))
  | .date d => .str (ofText d.isoformat)
  | .datetime d => .str (ofText (d.isoformat ' '))
  | .uuid u => .str (ofText u.str)

def decodedCells (cells : List (Str × Cell R)) : List (Str × Cell R) :=
  dictOf (cells.map fun p => (joinPairs p.1, decodedCell p.2))

def decodedRow (row : Row R) : Row R := ⟨decodedCells row.cells, (keys_dictOf _).1⟩

theorem decode_encodeCell (c : Cell R) :
    decode (joined (encodeCell c)) = .cell (decodedCell c) := by
  cases c
  all_goals simp [encodeCell, joined, decode, decodedCell, joinPairs_ofText]

theorem decodeMembers_eq_map (ms : List (Str × Json R)) :
    decodeMembers ms = ms.map fun p => (p.1, decode p.2) := by
  induction ms with
  | nil => rw [decodeMembers, List.map_nil]
  | cons p ms ih => rw [decodeMembers, ih, List.map_cons]

theorem joinedMembers_eq_map (ms : List (Str × Json R)) :
    joinedMembers ms = ms.map fun p => (joinPairs p.1, joined p.2) := by
  induction ms with
  | nil => rw [joinedMembers, List.map_nil]
  | cons p ms ih => rw [joinedMembers, ih, List.map_cons]

theorem encodeMembers_eq_map (ms : List (Str × PyObj R)) :
    encodeMembers ms = ms.map fun p => (p.1, encode p.2) := by
  induction ms with
  | nil => rw [encodeMembers, List.map_nil]
  | cons p ms ih => rw [encodeMembers, ih, List.map_cons]

theorem map_dictOf {α β : Type} (f : α → β) (ps : List (Str × α)) :
    (dictOf ps).map (fun p => (p.1, f p.2)) = dictOf (ps.map fun p => (p.1, f p.2)) := by
  induction ps using List.reverseRecOn with
  | nil => rfl
  | append_singleton ps p ih =>
      have hstep : ∀ d : List (Str × α), (insertPair d p).map (fun p => (p.1, f p.2)) =
          insertPair (d.map fun p => (p.1, f p.2)) (p.1, f p.2) := by
        intro d
        have hkeys : (d.map fun p => (p.1, f p.2)).map Prod.fst = d.map Prod.fst := by
          simp [Function.comp_def]
        simp only [insertPair, hkeys]
        split_ifs
        · simp only [List.map_map]
          apply List.map_congr_left
          intro q _
          simp only [Function.comp_apply]
          split_ifs
          · rfl
          · rfl
        · simp
      rw [List.map_append, dictOf, dictOf, List.foldl_append, List.foldl_append]
      change (insertPair (dictOf ps) p).map _ = insertPair (dictOf _) (p.1, f p.2)
      rw [hstep, ih]

/-- A dictionary is received member by member. -/
theorem decode_encode_dict (ms : List (Str × PyObj R)) :
    decode (joined (encode (.dict ms))) =
      .dict (dictOf (ms.map fun p => (joinPairs p.1, decode (joined (encode p.2))))) := by
  rw [encode, joined, decode, decodeMembers_eq_map, joinedMembers_eq_map, encodeMembers_eq_map,
    map_dictOf, List.map_map, List.map_map]
  rfl

theorem decode_encode_rowObj (r : Option (Row R)) :
    decode (joined (encode (rowObj r))) = rowObj (r.map decodedRow) := by
  cases r with
  | none => exact decode_encodeCell .none
  | some row =>
      change _ = PyObj.dict ((decodedCells row.cells).map fun p => (p.1, .cell p.2))
      rw [rowObj, decode_encode_dict, decodedCells, map_dictOf, List.map_map, List.map_map]
      congr 2
      apply List.map_congr_left
      intro p _
      simp only [Function.comp_apply, encode, decode_encodeCell]

theorem decode_encode_str (s : Str) :
    decode (joined (encode (PyObj.str s))) = (PyObj.str (joinPairs s) : PyObj R) := by
  simp [PyObj.str, encode, encodeCell, joined, decode]

theorem joinPairs_lsnField (l : Option LsnPosition) : joinPairs (lsnField l) = lsnField l := by
  cases l with
  | none => rfl
  | some p => exact joinPairs_ofText _

theorem joinPairs_timestampField (t : Option DateTime) :
    joinPairs (timestampField t) = timestampField t := by
  cases t with
  | none => rfl
  | some d => exact joinPairs_ofText _

theorem joinPairs_lit (s : String) : joinPairs (lit s) = lit s := joinPairs_ofText s.toList

theorem decode_encode_envelopeOf
    (id stamp host database lsn txnId schema name operation : Str) (before after : PyObj R) :
    decode (joined (encode
        (envelopeOf id stamp host database lsn txnId schema name operation before after))) =
      envelopeOf (joinPairs id) (joinPairs stamp) (joinPairs host) (joinPairs database)
        (joinPairs lsn) (joinPairs txnId) (joinPairs schema) (joinPairs name)
        (joinPairs operation) (decode (joined (encode before)))
        (decode (joined (encode after))) := by
  have hint : decode (joined (encode (.cell (.int 1)))) = (.cell (.int 1) : PyObj R) := by
    rw [encode, decode_encodeCell]
    rfl
  rw [envelopeOf, decode_encode_dict]
  simp only [List.map_cons, List.map_nil, decode_encode_dict, decode_encode_str, joinPairs_lit,
    hint]
  rw [dictOf_eq_self, dictOf_eq_self, dictOf_eq_self, dictOf_eq_self]
  · rfl
  all_goals
    simp only [List.map_cons, List.map_nil]
    decide

end Received

end SqlOptima.Envelope
