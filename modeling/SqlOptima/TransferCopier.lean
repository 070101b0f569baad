import SqlOptima.CommandRow
import SqlOptima.TransferKeys
import SqlOptima.TransferRange

namespace SqlOptima.TransferCommands

open CommandRow (Command)

inductive JobStatus where
  | preparing | running | paused | stopped | completed | failed
  deriving DecidableEq, Repr

/-- One answer of `GetTransferCommand`; with a command, whether the status write that handles it
lands, whose error is dropped. -/
inductive Poll where
  | failed
  | idle
  | command (c : Command) (lands : Bool)
  deriving DecidableEq, Repr

inductive CheckResult where
  | proceed | stopped | failed
  deriving DecidableEq, Repr

/-- A call of `CheckBeforeChunk`: the status writes that landed, and what it returned. -/
structure Check where
  writes : List JobStatus
  result : CheckResult
  deriving DecidableEq, Repr

def Check.write (s : JobStatus) (lands : Bool) (c : Check) : Check :=
  { c with writes := (if lands then [s] else []) ++ c.writes }

/-- The two poll loops, over the answers they get: `CheckBeforeChunk`, and `waitWhilePaused` when
`paused` holds. With the last answer the context is done, and the next poll fails. -/
def checkCommands (paused : Bool) : List Poll → Check
  | [] => ⟨[], .failed⟩
  | .failed :: _ => ⟨[], .failed⟩
  | .idle :: rest => if paused then checkCommands true rest else ⟨[], .proceed⟩
  | .command c lands :: rest =>
      match c with
      | .stop | .cancel => Check.write .stopped lands ⟨[], .stopped⟩
      | .resume =>
          -- after the wait the loop of `CheckBeforeChunk` polls once more
          Check.write .running lands
            (if paused then checkCommands false rest else ⟨[], .proceed⟩)
      | .pause =>
          if paused then checkCommands true rest
          else Check.write .paused lands (checkCommands true rest)
      | .start => if paused then checkCommands true rest else ⟨[], .proceed⟩

def checkBeforeChunk : List Poll → Check := checkCommands false

@[simp]
theorem result_write (s : JobStatus) (lands : Bool) (c : Check) :
    (c.write s lands).result = c.result :=
  rfl

end SqlOptima.TransferCommands

namespace SqlOptima.TransferCopier

open TransferCommands TransferKeys TransferRange

/-- Which code calls `CheckBeforeChunk`. -/
inductive Site where
  | handler
  | bulkCopy
  | stream
  deriving DecidableEq, Repr

/-- The steps of a transfer that matter outside it: a job status is stored, a stop is read, rows
land in the target. -/
inductive Event (Row : Type) where
  | status (s : JobStatus)
  | stop (site : Site) (recorded : Bool)
  | rows (rs : List Row)
  deriving DecidableEq

inductive CopyError where
  | stopped
  | failed
  deriving DecidableEq, Repr

/-- What a copy function leaves: its steps, its error, and the runtime's chunk size. -/
structure Outcome (Row : Type) where
  log : List (Event Row)
  error : Option CopyError
  chunkSize : Int64

/-- How the statements that move one range end. A bulk load that fails keeps the batches that it had
committed; `fileLost` is a data file that cannot be read back. -/
inductive Load where
  | done
  | failed (landed : Nat)
  | fileLost
  deriving DecidableEq, Repr

/-- The answers that one iteration of a copy loop gets. -/
structure ChunkAnswer where
  polls : List Poll
  reload : Option Int64
  load : Load
  progressSaved : Bool
  deriving DecidableEq, Repr

section Loops

variable {Row S : Type}

/-- The rows that landed in the target, over all. -/
def rowsOf (log : List (Event Row)) : List Row :=
  log.flatMap fun
    | .rows rs => rs
    | .status _ | .stop _ _ => []

def Outcome.landed (o : Outcome Row) : List Row := rowsOf o.log

def Outcome.after (o : Outcome Row) (log : List (Event Row)) : Outcome Row :=
  { o with log := log ++ o.log }

def checkEvents (site : Site) (c : Check) : List (Event Row) :=
  c.writes.map Event.status ++
    match c.result with
    | .stopped => [Event.stop site (c.writes.getLast? == some .stopped)]
    | .proceed | .failed => []

/-- One iteration ends the loop, with an error or none, or leads to the next state. -/
inductive Step (Row S : Type) where
  | finish (log : List (Event Row)) (error : Option CopyError) (chunkSize : Int64)
  | next (log : List (Event Row)) (s : S)

/-- `beforeChunk`, then the rest of the iteration. -/
def guardedStep (site : Site) (chunk : Int64) (a : ChunkAnswer)
    (rest : List (Event Row) → Step Row S) : Step Row S :=
  let check := checkBeforeChunk a.polls
  match check.result with
  | .stopped => .finish (checkEvents site check) (some .stopped) chunk
  | .failed => .finish (checkEvents site check) (some .failed) chunk
  | .proceed => rest (checkEvents site check)

/-- A size below one is ignored. -/
def reloadChunkSize (chunk : Int64) : Option Int64 → Option Int64
  | none => none
  | some size => some (if size < 1 then chunk else size)

/-- The bounded loop of the copy functions; it has no answer left once the context is done. -/
def loop (chunkOf : S → Int64) (step : S → ChunkAnswer → Step Row S) :
    Nat → S → List ChunkAnswer → Outcome Row
  | 0, s, _ => ⟨[], none, chunkOf s⟩
  | _ + 1, s, [] => ⟨[], some .failed, chunkOf s⟩
  | n + 1, s, a :: answers =>
      match step s a with
      | .finish log error chunk => ⟨log, error, chunk⟩
      | .next log s' => (loop chunkOf step n s' answers).after log

structure RangeState where
  current : Int64
  chunk : Int64

inductive Landing where
  | fail
  | skip
  | proceed
  deriving DecidableEq, Repr

/-- The rows of a range that land, and how the iteration goes on. -/
abbrev Loader (Row : Type) := Load → List Row → List Row × Landing

/-- One transaction, or one `INSERT … SELECT`. -/
def streamLoad : Loader Row
  | .done, rows => (rows, .proceed)
  | _, _ => ([], .fail)

/-- `QueryOut`, `os.Stat` and `BulkIn`: an empty or unreadable file skips the load. -/
def bcpLoad : Loader Row
  | .done, [] => ([], .skip)
  | .done, rows => (rows, .proceed)
  | .fileLost, _ => ([], .skip)
  | .failed landed, rows => (rows.take landed, .fail)

/-- The iteration of `copyInsertSelectInteger`, `streamInteger` and `copyBCP`. -/
def rangeStep (load : Loader Row) (rowsIn : Int64 → Int64 → List Row) (site : Site) (max : Int64)
    (s : RangeState) (a : ChunkAnswer) : Step Row RangeState :=
  guardedStep site s.chunk a fun events =>
    match reloadChunkSize s.chunk a.reload with
    | none => .finish events (some .failed) s.chunk
    | some chunk =>
        match nextIntegerRange s.current max chunk with
        | none => .finish events none chunk
        | some (lo, hi) =>
            let landed := load a.load (rowsIn lo hi)
            let log := events ++ [.rows landed.1]
            match landed.2 with
            | .fail => .finish log (some .failed) chunk
            | .skip =>
                if max ≤ hi then .finish log none chunk else .next log ⟨hi + 1, chunk⟩
            | .proceed =>
                if !a.progressSaved then .finish log (some .failed) chunk
                else if max ≤ hi then .finish log none chunk
                else if hi + 1 ≤ lo then .finish log none chunk
                else .next log ⟨hi + 1, chunk⟩

/-- `last` is `none` until a key is known, from the target or from a batch. -/
structure KeysetState where
  last : Option (Option DriverValue)
  chunk : Int64

/-- The iteration of `streamKeyset`. -/
def keysetStep (sprint : Option DriverValue → List UInt8) (key : Row → Option DriverValue)
    (rowsAfter : Option (Option DriverValue) → List Row) (s : KeysetState) (a : ChunkAnswer) :
    Step Row KeysetState :=
  guardedStep .stream s.chunk a fun events =>
    match reloadChunkSize s.chunk a.reload with
    | none => .finish events (some .failed) s.chunk
    | some chunk =>
        let batch := (rowsAfter s.last).take chunk.toInt.toNat
        if a.load ≠ .done then .finish events (some .failed) chunk
        else
          match batch.getLast? with
          | none => .finish events none chunk
          | some row =>
              let log := events ++ [.rows batch]
              if !a.progressSaved then .finish log (some .failed) chunk
              else if s.last.any fun last => !anyGreater sprint (key row) last then
                .finish log none chunk
              else .next log ⟨some (key row), chunk⟩

section LoopLemmas

theorem rowsOf_append (log log' : List (Event Row)) :
    rowsOf (log ++ log') = rowsOf log ++ rowsOf log' :=
  List.flatMap_append

theorem rowsOf_rows (rs : List Row) : rowsOf [Event.rows rs] = rs := by
  simp [rowsOf]

theorem landed_after (o : Outcome Row) (log : List (Event Row)) :
    (o.after log).landed = rowsOf log ++ o.landed :=
  rowsOf_append log o.log

theorem rowsOf_checkEvents (site : Site) (c : Check) :
    rowsOf (checkEvents site c : List (Event Row)) = [] := by
  rw [checkEvents, rowsOf_append]
  have hwrites : rowsOf (c.writes.map Event.status : List (Event Row)) = [] := by
    simp [rowsOf]
  rw [hwrites]
  cases c.result <;> rfl

def Step.log : Step Row S → List (Event Row)
  | .finish log _ _ => log
  | .next log _ => log

variable {chunkOf : S → Int64} {step : S → ChunkAnswer → Step Row S}

/-- What holds of the rows of every iteration, from states that the loop can be in, holds of the
rows of the loop. -/
theorem forall_landed_loop {P : Row → Prop} {I : S → Prop}
    (hrows : ∀ s a, I s → ∀ row ∈ rowsOf (step s a).log, P row)
    (hnext : ∀ s a log s', I s → step s a = .next log s' → I s') (n : Nat) {s : S} (hs : I s)
    (answers : List ChunkAnswer) : ∀ row ∈ (loop chunkOf step n s answers).landed, P row := by
  induction n generalizing s answers with
  | zero => intro row hrow; cases hrow
  | succ n ih =>
      intro row hrow
      cases answers with
      | nil => cases hrow
      | cons a answers =>
          have hfirst := hrows s a hs
          rw [loop] at hrow
          cases hstep : step s a with
          | finish log error chunk =>
              rw [hstep] at hrow hfirst
              exact hfirst row hrow
          | next log s' =>
              rw [hstep] at hrow hfirst
              change row ∈ (Outcome.after _ log).landed at hrow
              rw [landed_after] at hrow
              rcases List.mem_append.mp hrow with h | h
              · exact hfirst row h
              · exact ih (hnext s a log s' hs hstep) answers row h

end LoopLemmas

end Loops

inductive OrderColumn where
  | heap | integer | keyset
  deriving DecidableEq, Repr

/-- The two tables of one transfer. The source's rows are listed as `ORDER BY` lists them; an integer
column scans to integers. -/
structure Tables (Row : Type) (sql : SqlOrder) where
  key : Row → Option DriverValue
  source : List Row
  target : List Row
  order : OrderColumn
  ordered : source.Pairwise fun a b => sql.leKey (key a) (key b) = true
  integers : order = .integer → ∀ row ∈ source ++ target, ∀ v, key row = some v → ∃ n, v = .int n

/-- The answers that one phase gets: its bounds queries, the staging directory, its iterations. -/
structure PhaseAnswers where
  bounds : Bool
  staging : Bool
  chunks : List ChunkAnswer
  deriving DecidableEq, Repr

/-- The table's payload, the runtime settings, and the answers of the two servers. -/
structure CopyRequest where
  hasColumns : Bool
  orderListed : Bool
  chunkSize : Int64
  rowCountEstimate : Int64
  sameServer : Bool
  offload : TransferFileOffloadSettings
  bcpOnPath : Bool
  opens : Bool
  estimate : Option Int64
  orderResolved : Bool
  identityResolved : Bool
  deltaBounds : Bool
  bcp : PhaseAnswers
  stream : PhaseAnswers

inductive Span where
  | nothing
  | notIntegers
  | range (start max : Int64)
  deriving DecidableEq, Repr

section Copy

variable {Row : Type} {sql : SqlOrder} (sprint : Option DriverValue → List UInt8)
  (t : Tables Row sql) (r : CopyRequest)

namespace Tables

def sourceKeys : List DriverValue := t.source.filterMap t.key

def targetMax (target : List Row) : Option DriverValue := sql.maxKey (target.filterMap t.key)

/-- `WHERE key >= lo AND key <= hi`. -/
def rowsIn (lo hi : Int64) : List Row :=
  t.source.filter fun row =>
    (t.key row).any fun k => sql.le (.int lo) k && sql.le k (.int hi)

/-- The keyset select: without a key, all rows; with the null key, none. -/
def rowsAfter : Option (Option DriverValue) → List Row
  | none => t.source
  | some last => t.source.filter fun row => (t.key row).any fun k => last.any fun l => sql.lt l k

/-- What the bounds queries say of the source and of the target as it is: nothing to copy, keys that
are not integers, or the range to copy. -/
def integerSpan (target : List Row) : Span :=
  match sql.minKey t.sourceKeys, sql.maxKey t.sourceKeys with
  | some lo, some hi =>
      match asInt64 lo, asInt64 hi with
      | some minV, some maxV =>
          match (t.targetMax target).bind asInt64 with
          | none => .range minV maxV
          | some tm => if maxV ≤ tm then .nothing else .range (tm + 1) maxV
      | _, _ => .notIntegers
  | _, _ => .nothing

end Tables

def finished (chunk : Int64) (error : Option CopyError) : Outcome Row := ⟨[], error, chunk⟩

def rangeLoop (load : Loader Row) (site : Site) (start max chunk : Int64)
    (answers : List ChunkAnswer) : Outcome Row :=
  loop RangeState.chunk (rangeStep load t.rowsIn site max)
    (maxCopyIters r.rowCountEstimate chunk) ⟨start, chunk⟩ answers

def streamKeyset (target : List Row) (chunk : Int64) : Outcome Row :=
  if !r.stream.bounds || !r.orderListed then finished chunk (some .failed)
  else
    loop KeysetState.chunk (keysetStep sprint t.key t.rowsAfter)
      (maxCopyIters r.rowCountEstimate chunk) ⟨(t.targetMax target).map some, chunk⟩ r.stream.chunks

def streamInteger (target : List Row) (chunk : Int64) : Outcome Row :=
  if !r.stream.bounds then finished chunk (some .failed)
  else
    match t.integerSpan target with
    | .nothing => finished chunk none
    | .notIntegers => streamKeyset sprint t r target chunk
    | .range start max => rangeLoop t r streamLoad .stream start max chunk r.stream.chunks

/-- The one-shot copy of a table without an order column. -/
def streamHeap (chunk : Int64) : Outcome Row :=
  match r.stream.chunks with
  | [] => finished chunk (some .failed)
  | a :: _ =>
      let check := checkBeforeChunk a.polls
      let events := checkEvents .stream check
      match check.result with
      | .stopped => ⟨events, some .stopped, chunk⟩
      | .failed => ⟨events, some .failed, chunk⟩
      | .proceed =>
          if a.load ≠ .done then ⟨events, some .failed, chunk⟩
          else ⟨events ++ [.rows t.source], if a.progressSaved then none else some .failed, chunk⟩

def copyStream (target : List Row) (chunk : Int64) : Outcome Row :=
  match t.order with
  | .heap => streamHeap t r chunk
  | .integer => streamInteger sprint t r target chunk
  | .keyset => streamKeyset sprint t r target chunk

/-- `copyInsertSelectInteger` runs the same loop as `streamInteger`, with one statement a range. -/
def copyInsertSelect (target : List Row) (chunk : Int64) : Outcome Row :=
  match t.order with
  | .integer => streamInteger sprint t r target chunk
  | .heap | .keyset => copyStream sprint t r target chunk

def copyBCP (target : List Row) (chunk : Int64) : Outcome Row :=
  match t.order with
  | .heap | .keyset => finished chunk (some .failed)
  | .integer =>
      if !r.bcp.bounds then finished chunk (some .failed)
      else
        match t.integerSpan target with
        | .nothing => finished chunk none
        | .notIntegers => finished chunk (some .failed)
        | .range start max =>
            if !r.bcp.staging then finished chunk (some .failed)
            else rangeLoop t r bcpLoad .bulkCopy start max chunk r.bcp.chunks

/-- The error of `copyBCP`, whichever it is, leads to the stream; the target has what landed. -/
def copyBCPOrStream (chunk : Int64) : Outcome Row :=
  let bulk := copyBCP t r t.target chunk
  match bulk.error with
  | none => bulk
  | some _ => (copyStream sprint t r (t.target ++ bulk.landed) bulk.chunkSize).after bulk.log

def deltaSkip : Bool :=
  match sql.maxKey t.sourceKeys, t.targetMax t.target with
  | some srcMax, some tgtMax =>
      shouldSkipInsertOnlyDelta true true (compareAny sprint (some tgtMax) (some srcMax))
  | _, _ => false

def rowEstimate (estimate : Int64) : Int64 :=
  if estimate = 0 then r.rowCountEstimate else estimate

def copyMode (estimate : Int64) : CopyMode :=
  match selectMSSQLCopyMode r.sameServer r.offload (rowEstimate r estimate) with
  | .bcpNative => if r.bcpOnPath then .bcpNative else .streamBulk
  | mode => mode

def copyByMode (mode : CopyMode) (chunk : Int64) : Outcome Row :=
  match mode with
  | .insertSelect => copyInsertSelect sprint t r t.target chunk
  | .bcpNative => copyBCPOrStream sprint t r chunk
  | .streamBulk => copyStream sprint t r t.target chunk

def copy (chunk : Int64) : Outcome Row :=
  match r.estimate with
  | none => finished chunk (some .failed)
  | some estimate =>
      if !r.orderResolved then finished chunk (some .failed)
      else if t.order = .heap ∧ heapCopyPolicyRefuses (rowEstimate r estimate) chunk then
        finished chunk (some .failed)
      else if !r.identityResolved then finished chunk (some .failed)
      else if t.order ≠ .heap ∧ !r.deltaBounds then finished chunk (some .failed)
      else if t.order ≠ .heap ∧ deltaSkip sprint t then finished chunk none
      else copyByMode sprint t r (copyMode r estimate) chunk

def startChunkSize : Int64 := if r.chunkSize < 1 then 10000 else r.chunkSize

def copySQLServerToSQLServer : Outcome Row :=
  if !r.hasColumns || !r.opens then finished (startChunkSize r) (some .failed)
  else copy sprint t r (startChunkSize r)

end Copy

section Samples

/-- Tables whose rows are their own keys. -/
def idTables (source target : List Int64)
    (h : source.Pairwise fun a b => a.toInt ≤ b.toInt) : Tables Int64 numericOrder where
  key row := some (.int row)
  source := source
  target := target
  order := .integer
  ordered := h.imp fun hab => decide_eq_true hab
  integers _ row _ _ hv := ⟨row, (Option.some.inj hv).symm⟩

def quietChunk : ChunkAnswer := ⟨[.idle], some 10, .done, true⟩

/-- A transfer on one server, with chunks of ten keys, where every query succeeds. -/
def quietRequest (chunks : Nat) : CopyRequest where
  hasColumns := true
  orderListed := true
  chunkSize := 10
  rowCountEstimate := 2
  sameServer := true
  offload := ⟨true, 2000000⟩
  bcpOnPath := true
  opens := true
  estimate := some 2
  orderResolved := true
  identityResolved := true
  deltaBounds := true
  bcp := ⟨true, true, []⟩
  stream := ⟨true, true, List.replicate chunks quietChunk⟩

end Samples

end SqlOptima.TransferCopier
