import SqlOptima.KeyedTable
import SqlOptima.TransitionSystem

namespace SqlOptima.ChunkPipeline

open SqlOptima.KeyedTable (merge)

variable {Cells Tuple Key : Type}

/-- One chunk as `Run` gets it: the rows of its extraction query, the column
transforms, the encoding of a row for COPY, and the value of the conflict
columns when the load is idempotent. A row with a NULL among them has no
conflict key. -/
structure ChunkJob (Cells Tuple Key : Type) where
  rows : List Cells
  applyTransforms : Cells → Cells
  cellsToCopyRow : Cells → Option Tuple
  conflictKey : Option (Tuple → Option Key)

def ChunkJob.copyRow (job : ChunkJob Cells Tuple Key) (cells : Cells) : Option Tuple :=
  job.cellsToCopyRow (job.applyTransforms cells)

def rowChannelCap : Nat := 32

inductive Extractor (Cells : Type)
  | extracting (rest : List Cells)
  | exited (failed : Bool)

/-- The goroutine between the two channels. `sent` has passed the extractor's
error on, `gaveUp` has left through `ctx.Done` and sent nothing. -/
inductive Transformer (Cells : Type)
  | receiving
  | holding (cells : Cells)
  | sent (failed : Bool)
  | gaveUp
  deriving DecidableEq

@[simp]
def Transformer.closedPipe : Transformer Cells → Bool
  | .sent _ | .gaveUp => true
  | .receiving | .holding _ => false

inductive Encoder (Tuple : Type)
  | header
  | receiving
  | writing (row : Tuple)
  | trailer
  | closed (ok : Bool)

/-- The encoder is inside a write, which returns when the reader takes the bytes
or is closed. -/
@[simp]
def Encoder.inWrite : Encoder Tuple → Bool
  | .header | .writing _ | .trailer => true
  | .receiving | .closed _ => false

@[simp]
def Encoder.sawEnd : Encoder Tuple → Bool
  | .header | .receiving | .writing _ => false
  | .trailer => true
  | .closed ok => ok

inductive Copy
  | reading
  | ended (ok : Bool)

inductive Loader (Tuple : Type)
  | connecting
  | streaming (encoder : Encoder Tuple) (copy : Copy)
  | merging
  | finished (ok : Bool)

@[simp]
def Loader.sawEnd : Loader Tuple → Bool
  | .connecting => false
  | .streaming encoder _ => encoder.sawEnd
  | .merging => true
  | .finished ok => ok

inductive RunError
  | extractChunk
  | loadChunk
  deriving DecidableEq

/-- One run of the pipeline. `extracted` and `copied` are the rows handed over
by the extractor and read by the COPY so far. -/
structure RunState (Cells Tuple : Type) where
  extractor : Extractor Cells
  raw : List Cells
  transformer : Transformer Cells
  pipe : List Cells
  loader : Loader Tuple
  extracted : List Cells
  copied : List Tuple
  target : List Tuple
  ctxDone : Bool
  returned : Option (Except RunError Nat)

inductive Action
  | extract
  | finishExtract
  | failExtract
  | abortExtract
  | receive
  | push
  | giveUp
  | report
  | connect
  | connectFail
  | encodeRow
  | encodeEnd
  | transfer
  | writeFail
  | endCopy
  | failCopy
  | join
  | merge
  | mergeFail
  | receiveErr
  | cancel
  deriving DecidableEq

/-- The steps the processes of the pipeline take by themselves: neither the
faults of a database or a connection nor the cancellation. -/
def processActions : List Action :=
  [.extract, .finishExtract, .abortExtract, .receive, .push, .giveUp, .report, .connect,
    .encodeRow, .encodeEnd, .transfer, .writeFail, .endCopy, .join, .merge, .receiveErr]

/-- What a committed COPY adds to the target: the rows themselves, unless they
went into the staging table. -/
def ChunkJob.commitCopy (job : ChunkJob Cells Tuple Key) (table copied : List Tuple) :
    List Tuple :=
  match job.conflictKey with
  | none => table ++ copied
  | some _ => table

def initial (job : ChunkJob Cells Tuple Key) (ctxDone : Bool) (target : List Tuple) :
    RunState Cells Tuple where
  extractor := .extracting job.rows
  raw := []
  transformer := .receiving
  pipe := []
  loader := .connecting
  extracted := []
  copied := []
  target := target
  ctxDone := ctxDone
  returned := none

def runResult (extractFailed loadOk : Bool) (rows : Nat) : Except RunError Nat :=
  if extractFailed then .error .extractChunk
  else if loadOk then .ok rows
  else .error .loadChunk

/-- The order the channels impose: the extractor's error is passed on only after
its last row, and the stream ends only after the row channel is closed and
drained. -/
structure Sequenced (s : RunState Cells Tuple) : Prop where
  sent : ∀ failed, s.transformer = .sent failed → s.extractor = .exited failed ∧ s.raw = []
  ended : s.loader.sawEnd = true → s.transformer.closedPipe = true ∧ s.pipe = []

theorem sequenced_initial (job : ChunkJob Cells Tuple Key) (ctxDone : Bool)
    (target : List Tuple) : Sequenced (initial job ctxDone target) := by
  constructor <;> simp [initial]

section Step

variable [DecidableEq Key]

def step (job : ChunkJob Cells Tuple Key) (s : RunState Cells Tuple) :
    Action → Option (RunState Cells Tuple)
  | .extract =>
      match s.extractor with
      | .extracting (cells :: rest) =>
          if s.raw.length < rowChannelCap then
            some { s with extractor := .extracting rest, raw := s.raw ++ [cells],
                          extracted := s.extracted ++ [cells] }
          else none
      | _ => none
  | .finishExtract =>
      match s.extractor with
      | .extracting [] => some { s with extractor := .exited false }
      | _ => none
  -- The query, a scan, a LOB read or `rows.Err` fails.
  | .failExtract =>
      match s.extractor with
      | .extracting _ => some { s with extractor := .exited true }
      | _ => none
  -- The select on `ctx.Done`, or the driver closing the rows of a done context.
  | .abortExtract =>
      match s.extractor with
      | .extracting _ =>
          if s.ctxDone then some { s with extractor := .exited true } else none
      | _ => none
  | .receive =>
      match s.transformer, s.raw with
      | .receiving, cells :: raw =>
          some { s with transformer := .holding (job.applyTransforms cells), raw := raw }
      | _, _ => none
  | .push =>
      match s.transformer with
      | .holding cells =>
          if s.pipe.length < rowChannelCap then
            some { s with transformer := .receiving, pipe := s.pipe ++ [cells] }
          else none
      | _ => none
  | .giveUp =>
      match s.transformer with
      | .holding _ => if s.ctxDone then some { s with transformer := .gaveUp } else none
      | _ => none
  -- The range over `raw` ends, and `errCh <- <-extractErr` finds the error there.
  | .report =>
      match s.transformer, s.raw, s.extractor with
      | .receiving, [], .exited failed => some { s with transformer := .sent failed }
      | _, _, _ => none
  | .connect =>
      match s.loader with
      | .connecting => some { s with loader := .streaming .header .reading }
      | _ => none
  -- With conflict columns, also beginning the transaction or creating the staging table.
  | .connectFail =>
      match s.loader with
      | .connecting => some { s with loader := .finished false }
      | _ => none
  | .encodeRow =>
      match s.loader, s.pipe with
      | .streaming .receiving copy, cells :: pipe =>
          match job.cellsToCopyRow cells with
          | some row => some { s with loader := .streaming (.writing row) copy, pipe := pipe }
          | none => some { s with loader := .streaming (.closed false) copy, pipe := pipe }
      | _, _ => none
  | .encodeEnd =>
      match s.loader, s.pipe with
      | .streaming .receiving copy, [] =>
          if s.transformer.closedPipe then some { s with loader := .streaming .trailer copy }
          else none
      | _, _ => none
  | .transfer =>
      match s.loader with
      | .streaming .header .reading => some { s with loader := .streaming .receiving .reading }
      | .streaming (.writing row) .reading =>
          some { s with loader := .streaming .receiving .reading, copied := s.copied ++ [row] }
      | .streaming .trailer .reading =>
          some { s with loader := .streaming (.closed true) .reading }
      | _ => none
  -- `pr.Close` has run, so the write returns an error.
  | .writeFail =>
      match s.loader with
      | .streaming encoder (.ended ok) =>
          if encoder.inWrite then some { s with loader := .streaming (.closed false) (.ended ok) }
          else none
      | _ => none
  | .endCopy =>
      match s.loader with
      | .streaming (.closed true) .reading =>
          some { s with loader := .streaming (.closed true) (.ended true),
                        target := job.commitCopy s.target s.copied }
      | .streaming (.closed false) .reading =>
          some { s with loader := .streaming (.closed false) (.ended false) }
      | _ => none
  -- The server or the connection ends the COPY, which is then rolled back.
  | .failCopy =>
      match s.loader with
      | .streaming encoder .reading =>
          some { s with loader := .streaming encoder (.ended false) }
      | _ => none
  | .join =>
      match s.loader with
      | .streaming (.closed encodeOk) (.ended copyOk) =>
          if copyOk && encodeOk then
            match job.conflictKey with
            | none => some { s with loader := .finished true }
            | some _ => some { s with loader := .merging }
          else some { s with loader := .finished false }
      | _ => none
  | .merge =>
      match s.loader, job.conflictKey with
      | .merging, some key =>
          match merge key s.target s.copied with
          | some table => some { s with loader := .finished true, target := table }
          | none => some { s with loader := .finished false }
      | _, _ => none
  | .mergeFail =>
      match s.loader with
      | .merging => some { s with loader := .finished false }
      | _ => none
  | .receiveErr =>
      match s.loader, s.transformer, s.returned with
      | .finished ok, .sent failed, none =>
          some { s with returned := some (runResult failed ok s.copied.length) }
      | _, _, _ => none
  | .cancel => if s.ctxDone then none else some { s with ctxDone := true }

inductive Transition (job : ChunkJob Cells Tuple Key) (s : RunState Cells Tuple) :
    Action → RunState Cells Tuple → Prop
  | extract {cells rest} (hx : s.extractor = .extracting (cells :: rest))
      (hroom : s.raw.length < rowChannelCap) :
      Transition job s .extract
        { s with extractor := .extracting rest, raw := s.raw ++ [cells],
                 extracted := s.extracted ++ [cells] }
  | finishExtract (hx : s.extractor = .extracting []) :
      Transition job s .finishExtract { s with extractor := .exited false }
  | failExtract {rest} (hx : s.extractor = .extracting rest) :
      Transition job s .failExtract { s with extractor := .exited true }
  | abortExtract {rest} (hx : s.extractor = .extracting rest) (hc : s.ctxDone = true) :
      Transition job s .abortExtract { s with extractor := .exited true }
  | receive {cells raw} (ht : s.transformer = .receiving) (hr : s.raw = cells :: raw) :
      Transition job s .receive
        { s with transformer := .holding (job.applyTransforms cells), raw := raw }
  | push {cells} (ht : s.transformer = .holding cells) (hroom : s.pipe.length < rowChannelCap) :
      Transition job s .push { s with transformer := .receiving, pipe := s.pipe ++ [cells] }
  | giveUp {cells} (ht : s.transformer = .holding cells) (hc : s.ctxDone = true) :
      Transition job s .giveUp { s with transformer := .gaveUp }
  | report {failed} (ht : s.transformer = .receiving) (hr : s.raw = [])
      (hx : s.extractor = .exited failed) :
      Transition job s .report { s with transformer := .sent failed }
  | connect (hl : s.loader = .connecting) :
      Transition job s .connect { s with loader := .streaming .header .reading }
  | connectFail (hl : s.loader = .connecting) :
      Transition job s .connectFail { s with loader := .finished false }
  | encodeRow {copy cells pipe row} (hl : s.loader = .streaming .receiving copy)
      (hp : s.pipe = cells :: pipe) (hrow : job.cellsToCopyRow cells = some row) :
      Transition job s .encodeRow
        { s with loader := .streaming (.writing row) copy, pipe := pipe }
  | encodeReject {copy cells pipe} (hl : s.loader = .streaming .receiving copy)
      (hp : s.pipe = cells :: pipe) (hrow : job.cellsToCopyRow cells = none) :
      Transition job s .encodeRow
        { s with loader := .streaming (.closed false) copy, pipe := pipe }
  | encodeEnd {copy} (hl : s.loader = .streaming .receiving copy) (hp : s.pipe = [])
      (ht : s.transformer.closedPipe = true) :
      Transition job s .encodeEnd { s with loader := .streaming .trailer copy }
  | sendHeader (hl : s.loader = .streaming .header .reading) :
      Transition job s .transfer { s with loader := .streaming .receiving .reading }
  | sendRow {row} (hl : s.loader = .streaming (.writing row) .reading) :
      Transition job s .transfer
        { s with loader := .streaming .receiving .reading, copied := s.copied ++ [row] }
  | sendTrailer (hl : s.loader = .streaming .trailer .reading) :
      Transition job s .transfer { s with loader := .streaming (.closed true) .reading }
  | writeFail {encoder ok} (hl : s.loader = .streaming encoder (.ended ok))
      (hw : encoder.inWrite = true) :
      Transition job s .writeFail { s with loader := .streaming (.closed false) (.ended ok) }
  | commitCopy (hl : s.loader = .streaming (.closed true) .reading) :
      Transition job s .endCopy
        { s with loader := .streaming (.closed true) (.ended true),
                 target := job.commitCopy s.target s.copied }
  | rollBackCopy (hl : s.loader = .streaming (.closed false) .reading) :
      Transition job s .endCopy
        { s with loader := .streaming (.closed false) (.ended false) }
  | failCopy {encoder} (hl : s.loader = .streaming encoder .reading) :
      Transition job s .failCopy { s with loader := .streaming encoder (.ended false) }
  | joinAppend (hl : s.loader = .streaming (.closed true) (.ended true))
      (hk : job.conflictKey = none) :
      Transition job s .join { s with loader := .finished true }
  | joinStaging {key} (hl : s.loader = .streaming (.closed true) (.ended true))
      (hk : job.conflictKey = some key) :
      Transition job s .join { s with loader := .merging }
  | joinFailed {encodeOk copyOk} (hl : s.loader = .streaming (.closed encodeOk) (.ended copyOk))
      (hok : (copyOk && encodeOk) = false) :
      Transition job s .join { s with loader := .finished false }
  | merge {key table} (hl : s.loader = .merging) (hk : job.conflictKey = some key)
      (hm : merge key s.target s.copied = some table) :
      Transition job s .merge { s with loader := .finished true, target := table }
  | mergeReject {key} (hl : s.loader = .merging) (hk : job.conflictKey = some key)
      (hm : merge key s.target s.copied = none) :
      Transition job s .merge { s with loader := .finished false }
  | mergeFail (hl : s.loader = .merging) :
      Transition job s .mergeFail { s with loader := .finished false }
  | receiveErr {ok failed} (hl : s.loader = .finished ok) (ht : s.transformer = .sent failed)
      (hr : s.returned = none) :
      Transition job s .receiveErr
        { s with returned := some (runResult failed ok s.copied.length) }
  | cancel (hc : s.ctxDone = false) : Transition job s .cancel { s with ctxDone := true }

variable {job : ChunkJob Cells Tuple Key} {s t : RunState Cells Tuple} {a : Action}

theorem transition_of_step (h : step job s a = some t) : Transition job s a t := by
  cases a with
  | extract =>
      simp only [step] at h
      split at h
      · rename_i hx
        split at h
        · rename_i hroom
          cases h
          exact .extract hx hroom
        · cases h
      · cases h
  | finishExtract =>
      simp only [step] at h
      split at h
      · rename_i hx
        cases h
        exact .finishExtract hx
      · cases h
  | failExtract =>
      simp only [step] at h
      split at h
      · rename_i hx
        cases h
        exact .failExtract hx
      · cases h
  | abortExtract =>
      simp only [step] at h
      split at h
      · rename_i hx
        split at h
        · rename_i hc
          cases h
          exact .abortExtract hx hc
        · cases h
      · cases h
  | receive =>
      simp only [step] at h
      split at h
      · rename_i ht hr
        cases h
        exact .receive ht hr
      · cases h
  | push =>
      simp only [step] at h
      split at h
      · rename_i ht
        split at h
        · rename_i hroom
          cases h
          exact .push ht hroom
        · cases h
      · cases h
  | giveUp =>
      simp only [step] at h
      split at h
      · rename_i ht
        split at h
        · rename_i hc
          cases h
          exact .giveUp ht hc
        · cases h
      · cases h
  | report =>
      simp only [step] at h
      split at h
      · rename_i ht hr hx
        cases h
        exact .report ht hr hx
      · cases h
  | connect =>
      simp only [step] at h
      split at h
      · rename_i hl
        cases h
        exact .connect hl
      · cases h
  | connectFail =>
      simp only [step] at h
      split at h
      · rename_i hl
        cases h
        exact .connectFail hl
      · cases h
  | encodeRow =>
      simp only [step] at h
      split at h
      · rename_i hl hp
        split at h
        · rename_i hrow
          cases h
          exact .encodeRow hl hp hrow
        · rename_i hrow
          cases h
          exact .encodeReject hl hp hrow
      · cases h
  | encodeEnd =>
      simp only [step] at h
      split at h
      · rename_i hl hp
        split at h
        · rename_i ht
          cases h
          exact .encodeEnd hl hp ht
        · cases h
      · cases h
  | transfer =>
      simp only [step] at h
      split at h
      · rename_i hl
        cases h
        exact .sendHeader hl
      · rename_i hl
        cases h
        exact .sendRow hl
      · rename_i hl
        cases h
        exact .sendTrailer hl
      · cases h
  | writeFail =>
      simp only [step] at h
      split at h
      · rename_i hl
        split at h
        · rename_i hw
          cases h
          exact .writeFail hl hw
        · cases h
      · cases h
  | endCopy =>
      simp only [step] at h
      split at h
      · rename_i hl
        cases h
        exact .commitCopy hl
      · rename_i hl
        cases h
        exact .rollBackCopy hl
      · cases h
  | failCopy =>
      simp only [step] at h
      split at h
      · rename_i hl
        cases h
        exact .failCopy hl
      · cases h
  | join =>
      simp only [step] at h
      split at h
      · rename_i encodeOk copyOk hl
        split at h
        · rename_i hok
          obtain ⟨rfl, rfl⟩ : copyOk = true ∧ encodeOk = true := by simpa using hok
          split at h
          · rename_i hk
            cases h
            exact .joinAppend hl hk
          · rename_i hk
            cases h
            exact .joinStaging hl hk
        · rename_i hok
          cases h
          exact .joinFailed hl (by simpa using hok)
      · cases h
  | merge =>
      simp only [step] at h
      split at h
      · rename_i hl hk
        split at h
        · rename_i hm
          cases h
          exact .merge hl hk hm
        · rename_i hm
          cases h
          exact .mergeReject hl hk hm
      · cases h
  | mergeFail =>
      simp only [step] at h
      split at h
      · rename_i hl
        cases h
        exact .mergeFail hl
      · cases h
  | receiveErr =>
      simp only [step] at h
      split at h
      · rename_i hl ht hr
        cases h
        exact .receiveErr hl ht hr
      · cases h
  | cancel =>
      simp only [step] at h
      split at h
      · cases h
      · rename_i hc
        cases h
        exact .cancel (by simpa using hc)

theorem sequenced_of_transition (hs : Sequenced s) (h : Transition job s a t) :
    Sequenced t := by
  obtain ⟨hsent, hended⟩ := hs
  constructor
  · cases h <;> simp_all
  · cases h <;> simp_all

end Step

end SqlOptima.ChunkPipeline
