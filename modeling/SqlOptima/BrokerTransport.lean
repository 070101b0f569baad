import SqlOptima.Envelope

namespace SqlOptima.BrokerTransport

open SqlOptima.Lsn
open SqlOptima.JsonText
open SqlOptima.JsonValue
open SqlOptima.PythonValues
open SqlOptima.Envelope

variable {R : Type}

section Equality

/-- Equality of two values of one type: a NaN is not equal to itself. A number
is never received as a number of another type. -/
def SameCell (c c' : Cell R) : Prop := c = c' ∧ c ≠ .float .nan

/-- Equality of dictionaries, whatever the order of their keys. -/
def SameRow : Option (Row R) → Option (Row R) → Prop
  | none, none => True
  | some r, some r' =>
      r.cells.length = r'.cells.length ∧
        ∀ p ∈ r.cells, ∃ q ∈ r'.cells, q.1 = p.1 ∧ SameCell p.2 q.2
  | _, _ => False

structure SameEvent (e e' : ChangeEvent R) : Prop where
  schema : e.tableSchema = e'.tableSchema
  name : e.tableName = e'.tableName
  operation : e.operation = e'.operation
  after : SameRow e.afterValues e'.afterValues
  before : SameRow e.beforeValues e'.beforeValues
  eventId : e.eventId = e'.eventId
  lsn : e.lsn = e'.lsn
  stamp : e.sourceTimestamp = e'.sourceTimestamp
  host : e.sourceHost = e'.sourceHost
  database : e.sourceDatabase = e'.sourceDatabase
  txnId : e.transactionId = e'.transactionId

end Equality

section Paths

/-- The consumer of a stream: where it sends the changes of a table. -/
structure Consumer where
  targetSchema : Str
  targetName : Str → Str

def Consumer.handle (consumer : Consumer) (e : ChangeEvent R) : ChangeEvent R :=
  { e with tableSchema := consumer.targetSchema, tableName := consumer.targetName e.tableName }

def publishedBody (floats : FloatText R) (e : ChangeEvent R) : Option (List Char) :=
  dumps floats (encode (eventToEnvelope e))

/-- What the applier gets over the in-memory bus. -/
def memoryPath (consumer : Consumer) (now : DateTime) (fresh : UUID) (e : ChangeEvent R) :
    Option (ChangeEvent R) :=
  (eventFromEnvelope none now fresh (eventToEnvelope e)).map consumer.handle

/-- What the applier gets over RabbitMQ. -/
def rabbitPath (floats : FloatText R) (consumer : Consumer) (now : DateTime) (fresh : UUID)
    (e : ChangeEvent R) : Option (ChangeEvent R) :=
  ((publishedBody floats e).bind (receive floats (some consumer.targetSchema) now fresh)).map
    consumer.handle

def RoundTrips (floats : FloatText R) (now : DateTime) (fresh : UUID) (e : ChangeEvent R) : Prop :=
  ∃ e', (publishedBody floats e).bind (receive floats none now fresh) = some e' ∧ SameEvent e e'

def SamePaths (floats : FloatText R) (consumer : Consumer) (now now' : DateTime)
    (fresh fresh' : UUID) (e : ChangeEvent R) : Prop :=
  ∃ a b, memoryPath consumer now fresh e = some a ∧
    rabbitPath floats consumer now' fresh' e = some b ∧ SameEvent a b

end Paths

section Condition

/-- The values that JSON gives back as they are. -/
def Plain : Cell R → Prop
  | .none => True
  | .bool _ => True
  | .int n => Short n
  | .float x => x ≠ .nan
  | .str s => Unpaired s
  | _ => False

def PlainRow (r : Option (Row R)) : Prop :=
  ∀ row ∈ r, ∀ p ∈ row.cells, Unpaired p.1 ∧ Plain p.2

/-- The event is stamped, and its texts and values are among those JSON gives
back. -/
structure Transportable (e : ChangeEvent R) : Prop where
  stamped : e.sourceTimestamp ≠ none
  schema : Unpaired e.tableSchema
  name : Unpaired e.tableName
  host : Unpaired e.sourceHost
  database : Unpaired e.sourceDatabase
  txnId : Unpaired e.transactionId
  before : PlainRow e.beforeValues
  after : PlainRow e.afterValues

end Condition

section Printing

def ShortRow (r : Option (Row R)) : Prop :=
  ∀ row ∈ r, ∀ p ∈ row.cells, ∀ n, p.2 = .int n → Short n

theorem printableMembers_iff (ms : List (Str × Json R)) :
    printableMembers ms = true ↔ ∀ p ∈ ms, printable p.2 = true := by
  induction ms with
  | nil => simp [printableMembers]
  | cons p ms ih => simp [printableMembers, ih]

theorem printable_encodeCell (c : Cell R) :
    printable (encodeCell c) = true ↔ ∀ n, c = .int n → Short n := by
  cases c
  all_goals simp [encodeCell, printable]

theorem printable_rowObj (r : Option (Row R)) :
    printable (encode (rowObj r)) = true ↔ ShortRow r := by
  cases r with
  | none => simp [rowObj, encode, encodeCell, printable, ShortRow]
  | some row =>
      simp only [rowObj, encode, printable, printableMembers_iff, encodeMembers_eq_map,
        List.map_map, List.forall_mem_map, Function.comp_apply, printable_encodeCell, ShortRow,
        Option.mem_some_iff, forall_eq']

theorem printable_eventToEnvelope (e : ChangeEvent R) :
    printable (encode (eventToEnvelope e)) = true ↔
      ShortRow e.beforeValues ∧ ShortRow e.afterValues := by
  have hone : Short 1 := by decide
  rw [← printable_rowObj, ← printable_rowObj]
  simp [eventToEnvelope, envelopeOf, encode, encodeMembers, encodeCell, PyObj.str, printable,
    printableMembers, hone]

end Printing

section Received

def decodedEvent (target : Option Str) (now : DateTime) (e : ChangeEvent R) : ChangeEvent R :=
  { e with
    tableSchema := if target.getD [] = [] then joinPairs e.tableSchema else target.getD []
    tableName := joinPairs e.tableName
    afterValues := e.afterValues.map decodedRow
    beforeValues := e.beforeValues.map decodedRow
    sourceTimestamp := some (e.sourceTimestamp.getD now)
    sourceHost := joinPairs e.sourceHost
    sourceDatabase := joinPairs e.sourceDatabase
    transactionId := joinPairs e.transactionId }

theorem eventFromEnvelope_decoded (target : Option Str) (now : DateTime) (fresh : UUID)
    (e : ChangeEvent R) :
    eventFromEnvelope target now fresh (decode (joined (encode (eventToEnvelope e)))) =
      some (decodedEvent target now e) := by
  rw [eventToEnvelope, decode_encode_envelopeOf, eventFromEnvelope_envelopeOf,
    joinPairs_lsnField, joinPairs_timestampField, joinPairs_ofText, joinPairs_lit,
    parseLsnText_lsnField, parseTimestamp_timestampField, parseEventId_str, parseOperation_value,
    decode_encode_rowObj, decode_encode_rowObj, rowOf_rowObj, rowOf_rowObj]
  rfl

/-- What a consumer reads from the broker: an event whose integers can all be
written, with its values decoded. -/
theorem received_eq_some_iff (floats : FloatText R) (target : Option Str) (now : DateTime)
    (fresh : UUID) (e e' : ChangeEvent R) :
    (publishedBody floats e).bind (receive floats target now fresh) = some e' ↔
      (ShortRow e.beforeValues ∧ ShortRow e.afterValues) ∧ decodedEvent target now e = e' := by
  rw [← printable_eventToEnvelope, publishedBody, dumps]
  by_cases h : printable (encode (eventToEnvelope e)) = true
  · rw [if_pos h, Option.bind_some, receive, loads_render floats h, Option.bind_some,
      eventFromEnvelope_decoded, Option.some.injEq]
    exact ⟨fun heq => ⟨h, heq⟩, fun heq => heq.2⟩
  · rw [if_neg h, Option.bind_none]
    constructor
    · intro heq
      cases heq
    · intro heq
      exact absurd heq.1 h

end Received

section Rows

theorem sameCell_decodedCell_iff (c : Cell R) :
    (SameCell c (decodedCell c) ∧ ∀ n, c = .int n → Short n) ↔ Plain c := by
  cases c with
  | str s =>
      simp only [SameCell, decodedCell, Plain, Cell.str.injEq, reduceCtorEq, ne_eq,
        not_false_eq_true, and_true, false_implies, implies_true]
      rw [eq_comm]
      exact joinPairs_eq_self_iff s
  | _ => simp [SameCell, decodedCell, Plain]

theorem decodedCells_of_unpaired {row : Row R} (h : ∀ p ∈ row.cells, Unpaired p.1) :
    decodedCells row.cells = row.cells.map fun p => (p.1, decodedCell p.2) := by
  have hmap : (row.cells.map fun p => (joinPairs p.1, decodedCell p.2)) =
      row.cells.map fun p => (p.1, decodedCell p.2) := by
    apply List.map_congr_left
    intro p hp
    rw [(joinPairs_eq_self_iff p.1).mpr (h p hp)]
  rw [decodedCells, hmap]
  apply dictOf_eq_self
  simpa [Function.comp_def] using row.nodup

/-- A row survives the broker exactly when its names and values do. -/
theorem sameRow_decodedRow_iff (r : Option (Row R)) :
    (SameRow r (r.map decodedRow) ∧ ShortRow r) ↔ PlainRow r := by
  cases r with
  | none => simp [SameRow, ShortRow, PlainRow]
  | some row =>
      simp only [Option.map_some, SameRow, ShortRow, PlainRow, decodedRow, Option.mem_some_iff,
        forall_eq']
      constructor
      · rintro ⟨⟨hlen, hsame⟩, hshort⟩
        -- every received name has its surrogates joined
        have hkeys : ∀ p ∈ row.cells, Unpaired p.1 := by
          intro p hp
          obtain ⟨q, hq, hqp, -⟩ := hsame p hp
          have hmem := (keys_dictOf _).2 q.1 (List.mem_map_of_mem hq)
          rw [List.map_map] at hmem
          obtain ⟨p', -, hp'⟩ := List.mem_map.mp hmem
          rw [← hqp, ← hp']
          exact unpaired_joinPairs p'.1
        intro p hp
        refine ⟨hkeys p hp, (sameCell_decodedCell_iff p.2).mp ⟨?_, hshort p hp⟩⟩
        obtain ⟨q, hq, hqp, hcell⟩ := hsame p hp
        rw [decodedCells_of_unpaired hkeys] at hq
        obtain ⟨p', hp', rfl⟩ := List.mem_map.mp hq
        have heq : p' = p := List.inj_on_of_nodup_map row.nodup hp' hp hqp
        rwa [heq] at hcell
      · intro h
        rw [decodedCells_of_unpaired fun p hp => (h p hp).1]
        refine ⟨⟨(List.length_map _).symm, fun p hp => ?_⟩, fun p hp => ?_⟩
        · exact ⟨_, List.mem_map_of_mem hp, rfl, ((sameCell_decodedCell_iff p.2).mpr (h p hp).2).1⟩
        · exact ((sameCell_decodedCell_iff p.2).mpr (h p hp).2).2

end Rows

theorem roundTrips_iff (floats : FloatText R) (now : DateTime) (fresh : UUID)
    (e : ChangeEvent R) : RoundTrips floats now fresh e ↔ Transportable e := by
  constructor
  · rintro ⟨e', hreceived, hsame⟩
    obtain ⟨⟨hbefore, hafter⟩, rfl⟩ := (received_eq_some_iff ..).mp hreceived
    exact {
      stamped := by
        rw [hsame.stamp]
        simp [decodedEvent]
      schema := (joinPairs_eq_self_iff _).mp hsame.schema.symm
      name := (joinPairs_eq_self_iff _).mp hsame.name.symm
      host := (joinPairs_eq_self_iff _).mp hsame.host.symm
      database := (joinPairs_eq_self_iff _).mp hsame.database.symm
      txnId := (joinPairs_eq_self_iff _).mp hsame.txnId.symm
      before := (sameRow_decodedRow_iff _).mp ⟨hsame.before, hbefore⟩
      after := (sameRow_decodedRow_iff _).mp ⟨hsame.after, hafter⟩ }
  · intro h
    have hbefore := (sameRow_decodedRow_iff _).mpr h.before
    have hafter := (sameRow_decodedRow_iff _).mpr h.after
    refine ⟨_, (received_eq_some_iff ..).mpr ⟨⟨hbefore.2, hafter.2⟩, rfl⟩, ?_⟩
    obtain ⟨t, ht⟩ := Option.ne_none_iff_exists'.mp h.stamped
    exact {
      schema := ((joinPairs_eq_self_iff _).mpr h.schema).symm
      name := ((joinPairs_eq_self_iff _).mpr h.name).symm
      operation := rfl
      after := hafter.1
      before := hbefore.1
      eventId := rfl
      lsn := rfl
      stamp := by simp [decodedEvent, ht]
      host := ((joinPairs_eq_self_iff _).mpr h.host).symm
      database := ((joinPairs_eq_self_iff _).mpr h.database).symm
      txnId := ((joinPairs_eq_self_iff _).mpr h.txnId).symm }

theorem samePaths_of_transportable (floats : FloatText R) (consumer : Consumer)
    (now now' : DateTime) (fresh fresh' : UUID) {e : ChangeEvent R} (h : Transportable e) :
    SamePaths floats consumer now now' fresh fresh' e := by
  have hbefore := (sameRow_decodedRow_iff _).mpr h.before
  have hafter := (sameRow_decodedRow_iff _).mpr h.after
  have hreceived := (received_eq_some_iff floats (some consumer.targetSchema) now' fresh' e _).mpr
    ⟨⟨hbefore.2, hafter.2⟩, rfl⟩
  obtain ⟨t, ht⟩ := Option.ne_none_iff_exists'.mp h.stamped
  refine ⟨_, _, by rw [memoryPath, eventFromEnvelope_eventToEnvelope]; rfl,
    by rw [rabbitPath, hreceived]; rfl, ?_⟩
  exact {
    schema := rfl
    name := congrArg consumer.targetName ((joinPairs_eq_self_iff _).mpr h.name).symm
    operation := rfl
    after := hafter.1
    before := hbefore.1
    eventId := rfl
    lsn := rfl
    stamp := by simp [Consumer.handle, decodedEvent, ht]
    host := ((joinPairs_eq_self_iff _).mpr h.host).symm
    database := ((joinPairs_eq_self_iff _).mpr h.database).symm
    txnId := ((joinPairs_eq_self_iff _).mpr h.txnId).symm }

/-- The broker gives an event back, and delivers what the in-memory bus
delivers, if and only if the event is stamped and every value in it is one JSON
has. -/
theorem broker_transparent_iff (floats : FloatText R) (consumer : Consumer)
    (now now' : DateTime) (fresh fresh' : UUID) (e : ChangeEvent R) :
    (RoundTrips floats now fresh e ∧ SamePaths floats consumer now now' fresh fresh' e) ↔
      Transportable e :=
  ⟨fun h => (roundTrips_iff floats now fresh e).mp h.1,
    fun h => ⟨(roundTrips_iff floats now fresh e).mpr h,
      samePaths_of_transportable floats consumer now now' fresh fresh' h⟩⟩

section DecimalColumn

/-- The floats from 0.0 to 9.0. -/
def digitFloats : FloatText (Fin 10) where
  literal d := ⟨false, [d.val.digitChar], ['0'], []⟩
  read t :=
    match NumberText.readDigits 10 t.whole with
    | some n => .finite (Fin.ofNat 10 n)
    | none => .nan
  wellFormed := by
    intro d
    refine ⟨by simp, ?_, by simp, ?_, by simp⟩
    · simp [NumberToken.Digits, Nat.isDigit_digitChar]
    · simp [NumberToken.Digits]
  notInt := by simp [NumberToken.isInt]
  read_literal := by decide

def noon : DateTime := ⟨⟨2026, 5, 22, by decide⟩, ⟨12, 0, 0, 0, by decide⟩, none⟩

/-- An insert of a row whose price is the decimal 10.50. -/
def priceInsert : ChangeEvent (Fin 10) where
  tableSchema := lit "dbo"
  tableName := lit "orders"
  operation := .insert
  afterValues := some ⟨[(lit "price", .decimal (.finite false 1050 (-2)))], by decide⟩
  beforeValues := none
  eventId := ⟨7, by decide⟩
  lsn := some ⟨1, 2, 3⟩
  sourceTimestamp := some noon
  sourceHost := []
  sourceDatabase := []
  transactionId := []

theorem decimal_received_as_text :
    (((publishedBody digitFloats priceInsert).bind
        (receive digitFloats none noon ⟨0, by decide⟩)).bind ChangeEvent.afterValues).map
          Row.cells = some [(lit "price", .str (lit "10.50"))] ∧
      ¬ RoundTrips digitFloats noon ⟨0, by decide⟩ priceInsert := by
  have hreceived := (received_eq_some_iff digitFloats none noon ⟨0, by decide⟩ priceInsert _).mpr
    ⟨⟨by simp [ShortRow, priceInsert], by simp [ShortRow, priceInsert]⟩, rfl⟩
  refine ⟨?_, fun h => ?_⟩
  · rw [hreceived]
    decide
  · have hplain := ((roundTrips_iff ..).mp h).after _ rfl _ (List.mem_singleton.mpr rfl)
    exact hplain.2

end DecimalColumn

end SqlOptima.BrokerTransport
