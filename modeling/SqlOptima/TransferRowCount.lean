import SqlOptima.TransferCopier

namespace SqlOptima.TransferRowCount

open TransferCommands TransferKeys TransferRange TransferCopier

/-!
# The row count of a transfer

Beside the rows that land, the copy functions return a count. A stream adds up the rows of its
batches, a bulk copy the widths of its key ranges.
-/

section Counts

variable {Row S : Type}

/-- The total of a copy loop, which adds `added` in an iteration. -/
def countLoop (step : S → ChunkAnswer → Step Row S) (added : S → ChunkAnswer → Int64) :
    Nat → S → List ChunkAnswer → Int64
  | 0, _, _ => 0
  | _ + 1, _, [] => 0
  | n + 1, s, a :: answers =>
      match step s a with
      | .finish _ _ _ => added s a
      | .next _ s' => added s a + countLoop step added n s' answers

/-- The range whose statements an iteration reaches. -/
def rangeOf (max : Int64) (s : RangeState) (a : ChunkAnswer) : Option (Int64 × Int64) :=
  match (checkBeforeChunk a.polls).result with
  | .stopped => none
  | .failed => none
  | .proceed => (reloadChunkSize s.chunk a.reload).bind fun chunk =>
      nextIntegerRange s.current max chunk

/-- The range that an iteration moves to the target, whether or not its progress is saved. -/
def movedRange (load : Loader Row) (rowsIn : Int64 → Int64 → List Row) (max : Int64)
    (s : RangeState) (a : ChunkAnswer) : Option (Int64 × Int64) :=
  (rangeOf max s a).filter fun lh => (load a.load (rowsIn lh.1 lh.2)).2 = .proceed

def rowCount (rows : List Row) : Int64 := Int64.ofNat rows.length

/-- `total += n`, with the rows of the batch. -/
def streamAdded (rowsIn : Int64 → Int64 → List Row) (max : Int64) (s : RangeState)
    (a : ChunkAnswer) : Int64 :=
  match movedRange streamLoad rowsIn max s a with
  | none => 0
  | some lh => rowCount (rowsIn lh.1 lh.2)

def width (lh : Int64 × Int64) : Int64 := lh.2 - lh.1 + 1

/-- `total += hi - lo + 1`. -/
def bcpAdded (rowsIn : Int64 → Int64 → List Row) (max : Int64) (s : RangeState)
    (a : ChunkAnswer) : Int64 :=
  match movedRange bcpLoad rowsIn max s a with
  | none => 0
  | some lh => width lh

/-- What a batch of `streamKeyset` adds. -/
def keysetAdded (rowsAfter : Option (Option DriverValue) → List Row) (s : KeysetState)
    (a : ChunkAnswer) : Int64 :=
  match (checkBeforeChunk a.polls).result with
  | .stopped => 0
  | .failed => 0
  | .proceed =>
      match reloadChunkSize s.chunk a.reload with
      | none => 0
      | some chunk =>
          if a.load ≠ .done then 0 else rowCount ((rowsAfter s.last).take chunk.toInt.toNat)

/-- The rows that `streamQuery` has sent when it returns; on an error its transaction is rolled
back. -/
def sent (rows : List Row) : Load → Int64
  | .done => rowCount rows
  | .failed landed => rowCount (rows.take landed)
  | .fileLost => 0

end Counts

section Copy

variable {Row : Type} {sql : SqlOrder} (sprint : Option DriverValue → List UInt8)
  (t : Tables Row sql) (r : CopyRequest)

def streamKeysetCount (target : List Row) (chunk : Int64) : Int64 :=
  if !r.stream.bounds || !r.orderListed then 0
  else
    countLoop (keysetStep sprint t.key t.rowsAfter) (keysetAdded t.rowsAfter)
      (maxCopyIters r.rowCountEstimate chunk) ⟨(t.targetMax target).map some, chunk⟩ r.stream.chunks

def streamIntegerCount (target : List Row) (chunk : Int64) : Int64 :=
  if !r.stream.bounds then 0
  else
    match t.integerSpan target with
    | .nothing => 0
    | .notIntegers => streamKeysetCount sprint t r target chunk
    | .range start max =>
        countLoop (rangeStep streamLoad t.rowsIn .stream max) (streamAdded t.rowsIn max)
          (maxCopyIters r.rowCountEstimate chunk) ⟨start, chunk⟩ r.stream.chunks

def streamHeapCount : Int64 :=
  match r.stream.chunks with
  | [] => 0
  | a :: _ =>
      match (checkBeforeChunk a.polls).result with
      | .stopped => 0
      | .failed => 0
      | .proceed => sent t.source a.load

def copyStreamCount (target : List Row) (chunk : Int64) : Int64 :=
  match t.order with
  | .heap => streamHeapCount t r
  | .integer => streamIntegerCount sprint t r target chunk
  | .keyset => streamKeysetCount sprint t r target chunk

/-- `RowsAffected` of each statement is the number of its rows. -/
def copyInsertSelectCount (target : List Row) (chunk : Int64) : Int64 :=
  match t.order with
  | .integer => streamIntegerCount sprint t r target chunk
  | .heap | .keyset => copyStreamCount sprint t r target chunk

def copyBCPCount (target : List Row) (chunk : Int64) : Int64 :=
  match t.order with
  | .heap | .keyset => 0
  | .integer =>
      if !r.bcp.bounds then 0
      else
        match t.integerSpan target with
        | .nothing => 0
        | .notIntegers => 0
        | .range start max =>
            if !r.bcp.staging then 0
            else
              countLoop (rangeStep bcpLoad t.rowsIn .bulkCopy max) (bcpAdded t.rowsIn max)
                (maxCopyIters r.rowCountEstimate chunk) ⟨start, chunk⟩ r.bcp.chunks

/-- On an error of the bulk copy its count is dropped, and that of the stream is returned. -/
def copyBCPOrStreamCount (chunk : Int64) : Int64 :=
  let bulk := copyBCP t r t.target chunk
  match bulk.error with
  | none => copyBCPCount t r t.target chunk
  | some _ => copyStreamCount sprint t r (t.target ++ bulk.landed) bulk.chunkSize

def copyByModeCount (mode : CopyMode) (chunk : Int64) : Int64 :=
  match mode with
  | .insertSelect => copyInsertSelectCount sprint t r t.target chunk
  | .bcpNative => copyBCPOrStreamCount sprint t r chunk
  | .streamBulk => copyStreamCount sprint t r t.target chunk

def copyCount (chunk : Int64) : Int64 :=
  match r.estimate with
  | none => 0
  | some estimate =>
      if !r.orderResolved then 0
      else if t.order = .heap ∧ heapCopyPolicyRefuses (rowEstimate r estimate) chunk then 0
      else if !r.identityResolved then 0
      else if t.order ≠ .heap ∧ !r.deltaBounds then 0
      else if t.order ≠ .heap ∧ deltaSkip sprint t then 0
      else copyByModeCount sprint t r (copyMode r estimate) chunk

/-- The first value that `CopySQLServerToSQLServer` returns. -/
def copySQLServerToSQLServerCount : Int64 :=
  if !r.hasColumns || !r.opens then 0 else copyCount sprint t r (startChunkSize r)

end Copy

section Loops

variable {Row S : Type} {chunkOf : S → Int64} {step : S → ChunkAnswer → Step Row S}

attribute [local simp] countLoop in
theorem rowCount_append (rows rows' : List Row) :
    rowCount (rows ++ rows') = rowCount rows + rowCount rows' := by
  rw [rowCount, List.length_append, Int64.ofNat_add]
  rfl

/-- A loop that adds the rows of each iteration returns the number of the rows that land. -/
theorem countLoop_eq_landed {added : S → ChunkAnswer → Int64}
    (hadded : ∀ s a, added s a = rowCount (rowsOf (step s a).log)) (n : Nat) (s : S)
    (answers : List ChunkAnswer) :
    countLoop step added n s answers = rowCount (loop chunkOf step n s answers).landed := by
  induction n generalizing s answers with
  | zero => rfl
  | succ n ih =>
      cases answers with
      | nil => rfl
      | cons a answers =>
          have hstep := hadded s a
          rw [countLoop, loop]
          cases h : step s a with
          | finish log error chunk =>
              rw [h] at hstep
              exact hstep
          | next log s' =>
              rw [h] at hstep
              change added s a + _ = rowCount (Outcome.after _ log).landed
              rw [landed_after, rowCount_append, hstep, ih]
              rfl

/-- The ranges that a loop moves to the target, in their order. -/
def movedRanges (step : S → ChunkAnswer → Step Row S)
    (moved : S → ChunkAnswer → Option (Int64 × Int64)) :
    Nat → S → List ChunkAnswer → List (Int64 × Int64)
  | 0, _, _ => []
  | _ + 1, _, [] => []
  | n + 1, s, a :: answers =>
      match step s a with
      | .finish _ _ _ => (moved s a).toList
      | .next _ s' => (moved s a).toList ++ movedRanges step moved n s' answers

def stepError : Step Row S → Option CopyError
  | .finish _ error _ => error
  | .next _ _ => none

attribute [local simp] movedRanges in
theorem countLoop_eq_sum {added : S → ChunkAnswer → Int64}
    {moved : S → ChunkAnswer → Option (Int64 × Int64)}
    (hadded : ∀ s a, added s a = ((moved s a).toList.map width).sum) (n : Nat) (s : S)
    (answers : List ChunkAnswer) :
    countLoop step added n s answers = ((movedRanges step moved n s answers).map width).sum := by
  induction n generalizing s answers with
  | zero => rfl
  | succ n ih =>
      cases answers with
      | nil => rfl
      | cons a answers =>
          rw [countLoop, movedRanges]
          cases step s a with
          | finish log error chunk => exact hadded s a
          | next log s' =>
              change added s a + _ = _
              rw [hadded, ih, List.map_append]
              cases moved s a with
              | none => exact Int64.zero_add _
              | some lh =>
                  change width lh + 0 + _ = width lh + _
                  rw [Int64.add_zero]
                  rfl

/-- A loop that ends without an error lands the rows of the ranges that it moves. -/
theorem landed_eq_flatMap {moved : S → ChunkAnswer → Option (Int64 × Int64)}
    {rowsIn : Int64 → Int64 → List Row}
    (hrows : ∀ s a, stepError (step s a) = none → rowsOf (step s a).log =
      (moved s a).toList.flatMap fun lh => rowsIn lh.1 lh.2) (n : Nat) (s : S)
    (answers : List ChunkAnswer) (hok : (loop chunkOf step n s answers).error = none) :
    (loop chunkOf step n s answers).landed =
      (movedRanges step moved n s answers).flatMap fun lh => rowsIn lh.1 lh.2 := by
  induction n generalizing s answers with
  | zero => rfl
  | succ n ih =>
      cases answers with
      | nil => cases hok
      | cons a answers =>
          have hstep := hrows s a
          rw [loop] at hok ⊢
          rw [movedRanges]
          cases h : step s a with
          | finish log error chunk =>
              rw [h] at hok hstep
              exact hstep hok
          | next log s' =>
              rw [h] at hok hstep
              change (Outcome.after _ log).landed = _
              rw [landed_after, List.flatMap_append, ← ih s' answers hok, ← hstep rfl]
              rfl

end Loops

section Steps

variable {Row : Type} {rowsIn : Int64 → Int64 → List Row} {max : Int64}

/-- The rows that an iteration lands are those that its load leaves of its range. -/
theorem rowsOf_rangeStep (load : Loader Row) (site : Site) (s : RangeState) (a : ChunkAnswer) :
    rowsOf (rangeStep load rowsIn site max s a).log =
      (rangeOf max s a).toList.flatMap fun lh => (load a.load (rowsIn lh.1 lh.2)).1 := by
  have hcheck : rowsOf (checkEvents site (checkBeforeChunk a.polls) : List (Event Row)) = [] :=
    rowsOf_checkEvents site _
  rw [rangeOf, rangeStep, guardedStep]
  cases hresult : (checkBeforeChunk a.polls).result with
  | stopped => exact hcheck
  | failed => exact hcheck
  | proceed =>
      dsimp only
      cases hreload : reloadChunkSize s.chunk a.reload with
      | none => exact hcheck
      | some chunk =>
          rw [Option.bind_some]
          dsimp only
          cases hrange : nextIntegerRange s.current max chunk with
          | none => exact hcheck
          | some lh =>
              have hlog : rowsOf (checkEvents site (checkBeforeChunk a.polls) ++
                  [.rows (load a.load (rowsIn lh.1 lh.2)).1]) =
                    (some lh).toList.flatMap fun lh => (load a.load (rowsIn lh.1 lh.2)).1 := by
                rw [rowsOf_append, hcheck, rowsOf_rows, List.nil_append]
                exact (List.append_nil _).symm
              dsimp only
              split
              · exact hlog
              · split <;> exact hlog
              · split_ifs <;> exact hlog

/-- An iteration without an error has moved its range or skipped it. -/
theorem landing_of_rangeStep {load : Loader Row} {site : Site} {s : RangeState} {a : ChunkAnswer}
    (hok : stepError (rangeStep load rowsIn site max s a) = none) {lh : Int64 × Int64}
    (hrange : rangeOf max s a = some lh) : (load a.load (rowsIn lh.1 lh.2)).2 ≠ .fail := by
  intro hfail
  rw [rangeStep, guardedStep] at hok
  rw [rangeOf] at hrange
  cases hresult : (checkBeforeChunk a.polls).result with
  | stopped =>
      rw [hresult] at hrange
      cases hrange
  | failed =>
      rw [hresult] at hrange
      cases hrange
  | proceed =>
      rw [hresult] at hrange hok
      dsimp only at hrange hok
      obtain ⟨chunk, hreload, hnext⟩ := Option.bind_eq_some_iff.mp hrange
      rw [hreload] at hok
      dsimp only at hok
      rw [hnext] at hok
      dsimp only at hok
      rw [hfail] at hok
      cases hok

theorem streamAdded_eq (s : RangeState) (a : ChunkAnswer) :
    streamAdded rowsIn max s a =
      rowCount (rowsOf (rangeStep streamLoad rowsIn .stream max s a).log) := by
  rw [rowsOf_rangeStep, streamAdded, movedRange]
  cases rangeOf max s a with
  | none => rfl
  | some lh =>
      cases hload : a.load with
      | done =>
          change rowCount (rowsIn lh.1 lh.2) = rowCount (rowsIn lh.1 lh.2 ++ [])
          rw [List.append_nil]
      | failed landed => rfl
      | fileLost => rfl

theorem keysetAdded_eq {sprint : Option DriverValue → List UInt8}
    {key : Row → Option DriverValue} {rowsAfter : Option (Option DriverValue) → List Row}
    (s : KeysetState) (a : ChunkAnswer) :
    keysetAdded rowsAfter s a =
      rowCount (rowsOf (keysetStep sprint key rowsAfter s a).log) := by
  have hcheck : rowsOf (checkEvents .stream (checkBeforeChunk a.polls) : List (Event Row)) = [] :=
    rowsOf_checkEvents .stream _
  have hnone : (0 : Int64) =
      rowCount (rowsOf (checkEvents .stream (checkBeforeChunk a.polls) : List (Event Row))) := by
    rw [hcheck]
    rfl
  rw [keysetAdded, keysetStep, guardedStep]
  cases hresult : (checkBeforeChunk a.polls).result with
  | stopped => exact hnone
  | failed => exact hnone
  | proceed =>
      dsimp only
      cases hreload : reloadChunkSize s.chunk a.reload with
      | none => exact hnone
      | some chunk =>
          dsimp only
          split
          · exact hnone
          · cases hlast : ((rowsAfter s.last).take chunk.toInt.toNat).getLast? with
            | none =>
                rw [List.getLast?_eq_none_iff.mp hlast]
                exact hnone
            | some row =>
                have hlog : rowCount ((rowsAfter s.last).take chunk.toInt.toNat) =
                    rowCount (rowsOf (checkEvents .stream (checkBeforeChunk a.polls) ++
                      [Event.rows ((rowsAfter s.last).take chunk.toInt.toNat)])) := by
                  rw [rowsOf_append, hcheck, rowsOf_rows, List.nil_append]
                dsimp only
                split_ifs <;> exact hlog

theorem bcpAdded_eq (s : RangeState) (a : ChunkAnswer) :
    bcpAdded rowsIn max s a =
      ((movedRange bcpLoad rowsIn max s a).toList.map width).sum := by
  rw [bcpAdded]
  cases movedRange bcpLoad rowsIn max s a with
  | none => rfl
  | some lh => exact (Int64.add_zero _).symm

theorem bcp_rows_eq (s : RangeState) (a : ChunkAnswer)
    (hok : stepError (rangeStep bcpLoad rowsIn .bulkCopy max s a) = none) :
    rowsOf (rangeStep bcpLoad rowsIn .bulkCopy max s a).log =
      (movedRange bcpLoad rowsIn max s a).toList.flatMap fun lh => rowsIn lh.1 lh.2 := by
  rw [rowsOf_rangeStep, movedRange]
  cases hrange : rangeOf max s a with
  | none => rfl
  | some lh =>
      have hland := landing_of_rangeStep hok hrange
      cases hload : a.load with
      | failed landed =>
          rw [hload] at hland
          exact absurd rfl hland
      | fileLost => rfl
      | done =>
          cases hrows : rowsIn lh.1 lh.2 with
          | nil => simp [Option.filter, hrows, bcpLoad]
          | cons row rows => simp [Option.filter, hrows, bcpLoad]

end Steps

section Accounting

variable {Row : Type} {sql : SqlOrder} {sprint : Option DriverValue → List UInt8}
  {t : Tables Row sql} {r : CopyRequest} {target : List Row} {chunk : Int64}

theorem streamKeysetCount_eq :
    streamKeysetCount sprint t r target chunk =
      rowCount (streamKeyset sprint t r target chunk).landed := by
  rw [streamKeysetCount, streamKeyset]
  split
  · rfl
  · exact countLoop_eq_landed keysetAdded_eq _ _ _

theorem streamIntegerCount_eq :
    streamIntegerCount sprint t r target chunk =
      rowCount (streamInteger sprint t r target chunk).landed := by
  rw [streamIntegerCount, streamInteger]
  split
  · rfl
  · cases t.integerSpan target with
    | nothing => rfl
    | notIntegers => exact streamKeysetCount_eq
    | range start max => exact countLoop_eq_landed streamAdded_eq _ _ _

/-- A one-shot copy does not fail with rows sent. -/
def HeapSends (t : Tables Row sql) (r : CopyRequest) : Prop :=
  ∀ a ∈ r.stream.chunks.head?, (checkBeforeChunk a.polls).result = .proceed →
    a.load = .done ∨ sent t.source a.load = 0

theorem streamHeapCount_eq_iff :
    streamHeapCount t r = rowCount (streamHeap t r chunk).landed ↔ HeapSends t r := by
  rw [streamHeapCount, streamHeap, HeapSends]
  cases r.stream.chunks with
  | nil => exact iff_of_true rfl fun a ha => by cases ha
  | cons a answers =>
      have hcheck : rowCount (rowsOf (checkEvents .stream (checkBeforeChunk a.polls) :
          List (Event Row))) = 0 := by
        rw [rowsOf_checkEvents]
        rfl
      simp only [List.head?_cons, Option.mem_some_iff, forall_eq']
      cases hresult : (checkBeforeChunk a.polls).result with
      | stopped => exact iff_of_true hcheck.symm fun h => by cases h
      | failed => exact iff_of_true hcheck.symm fun h => by cases h
      | proceed =>
          simp only [forall_const]
          cases hload : a.load with
          | done =>
              refine iff_of_true ?_ (Or.inl rfl)
              change rowCount t.source = rowCount (rowsOf (_ ++ [Event.rows t.source]))
              rw [rowsOf_append, rowsOf_rows, rowsOf_checkEvents, List.nil_append]
          | failed landed =>
              have hne : Load.failed landed ≠ Load.done := fun h => by cases h
              rw [if_pos hne, or_iff_right hne]
              change sent t.source (.failed landed) = rowCount (rowsOf _) ↔ _
              rw [hcheck]
          | fileLost => exact iff_of_true hcheck.symm (Or.inr rfl)

/-- A stream returns what it lands, a one-shot copy of a heap if it does not fail with rows sent. -/
def StreamCounts (t : Tables Row sql) (r : CopyRequest) : Prop := t.order = .heap → HeapSends t r

theorem copyStreamCount_eq_iff :
    copyStreamCount sprint t r target chunk =
      rowCount (copyStream sprint t r target chunk).landed ↔ StreamCounts t r := by
  rw [copyStreamCount, copyStream, StreamCounts]
  cases horder : t.order with
  | heap =>
      rw [streamHeapCount_eq_iff]
      exact ⟨fun h _ => h, fun h => h rfl⟩
  | integer => exact iff_of_true streamIntegerCount_eq fun h => by cases h
  | keyset => exact iff_of_true streamKeysetCount_eq fun h => by cases h

theorem copyInsertSelectCount_eq_iff :
    copyInsertSelectCount sprint t r target chunk =
      rowCount (copyInsertSelect sprint t r target chunk).landed ↔ StreamCounts t r := by
  rw [copyInsertSelectCount, copyInsertSelect]
  cases horder : t.order with
  | heap => exact copyStreamCount_eq_iff
  | integer =>
      refine iff_of_true streamIntegerCount_eq fun h => ?_
      rw [horder] at h
      cases h
  | keyset => exact copyStreamCount_eq_iff

/-- The ranges that the bulk copy loads. -/
def bulkRanges (t : Tables Row sql) (r : CopyRequest) (chunk : Int64) : List (Int64 × Int64) :=
  match t.order, t.integerSpan t.target with
  | .integer, .range start max =>
      if !r.bcp.bounds || !r.bcp.staging then []
      else
        movedRanges (rangeStep bcpLoad t.rowsIn .bulkCopy max) (movedRange bcpLoad t.rowsIn max)
          (maxCopyIters r.rowCountEstimate chunk) ⟨start, chunk⟩ r.bcp.chunks
  | _, _ => []

theorem copyBCPCount_eq : copyBCPCount t r t.target chunk =
    ((bulkRanges t r chunk).map width).sum := by
  rw [copyBCPCount, bulkRanges]
  cases t.order with
  | heap => rfl
  | keyset => rfl
  | integer =>
      dsimp only
      cases t.integerSpan t.target with
      | nothing => split <;> rfl
      | notIntegers => split <;> rfl
      | range start max =>
          dsimp only
          cases r.bcp.bounds with
          | false => rfl
          | true =>
              cases r.bcp.staging with
              | false => rfl
              | true =>
                  simp only [Bool.not_true, Bool.or_false, Bool.false_eq_true, if_false]
                  exact countLoop_eq_sum bcpAdded_eq _ _ _

theorem landed_copyBCP (hok : (copyBCP t r t.target chunk).error = none) :
    (copyBCP t r t.target chunk).landed =
      (bulkRanges t r chunk).flatMap fun lh => t.rowsIn lh.1 lh.2 := by
  rw [copyBCP] at hok ⊢
  rw [bulkRanges]
  cases horder : t.order with
  | heap => rfl
  | keyset => rfl
  | integer =>
      rw [horder] at hok
      dsimp only at hok ⊢
      cases hspan : t.integerSpan t.target with
      | nothing => split <;> rfl
      | notIntegers => split <;> rfl
      | range start max =>
          rw [hspan] at hok
          dsimp only at hok ⊢
          cases hbounds : r.bcp.bounds with
          | false => rfl
          | true =>
              cases hstaging : r.bcp.staging with
              | false => rfl
              | true =>
                  rw [hbounds, hstaging] at hok
                  simp only [Bool.not_true, Bool.or_false, Bool.false_eq_true, if_false] at hok ⊢
                  rw [rangeLoop] at hok ⊢
                  exact landed_eq_flatMap bcp_rows_eq _ _ _ hok

/-- A bulk copy that ends without an error has counted the rows of its ranges; one that fails has
landed none, and the stream after it counts its own. -/
def BulkCounts (t : Tables Row sql) (r : CopyRequest) (chunk : Int64) : Prop :=
  match (copyBCP t r t.target chunk).error with
  | none => ((bulkRanges t r chunk).map width).sum =
      rowCount ((bulkRanges t r chunk).flatMap fun lh => t.rowsIn lh.1 lh.2)
  | some _ => rowCount (copyBCP t r t.target chunk).landed = 0 ∧ StreamCounts t r

/-- Without an integer column the bulk copy refuses before it moves a row. -/
theorem landed_copyBCP_of_ne (horder : t.order ≠ .integer) :
    (copyBCP t r t.target chunk).landed = [] := by
  rw [copyBCP]
  cases h : t.order with
  | heap => rfl
  | keyset => rfl
  | integer => exact absurd h horder

theorem fallback_counts_iff {log : List (Event Row)}
    (hlog : t.order ≠ .integer → rowsOf log = []) :
    copyStreamCount sprint t r target chunk =
        rowCount ((copyStream sprint t r target chunk).after log).landed ↔
      rowCount (rowsOf log) = 0 ∧ StreamCounts t r := by
  rw [landed_after, rowCount_append]
  by_cases horder : t.order = .integer
  · have hstream : StreamCounts t r := fun h => by
      rw [horder] at h
      cases h
    have hcount : copyStreamCount sprint t r target chunk =
        rowCount (copyStream sprint t r target chunk).landed := by
      rw [copyStreamCount_eq_iff]
      exact hstream
    rw [hcount]
    refine ⟨fun h => ⟨?_, hstream⟩, fun h => ?_⟩
    · exact (Int64.add_left_inj _).mp (h.symm.trans (Int64.zero_add _).symm)
    · rw [h.1, Int64.zero_add]
  · have hzero : rowCount (rowsOf log) = 0 := by
      rw [hlog horder]
      rfl
    rw [hzero, Int64.zero_add, copyStreamCount_eq_iff]
    exact (and_iff_right rfl).symm

theorem copyBCPOrStreamCount_eq_iff :
    copyBCPOrStreamCount sprint t r chunk =
      rowCount (copyBCPOrStream sprint t r chunk).landed ↔ BulkCounts t r chunk := by
  rw [copyBCPOrStreamCount, copyBCPOrStream, BulkCounts]
  cases herror : (copyBCP t r t.target chunk).error with
  | none =>
      dsimp only
      rw [copyBCPCount_eq, landed_copyBCP herror]
  | some error => exact fallback_counts_iff landed_copyBCP_of_ne

/-- When a copy in a mode returns the number of rows that it lands. -/
def ModeCounts (t : Tables Row sql) (r : CopyRequest) (chunk : Int64) : CopyMode → Prop
  | .insertSelect => StreamCounts t r
  | .bcpNative => BulkCounts t r chunk
  | .streamBulk => StreamCounts t r

theorem copyByModeCount_eq_iff (mode : CopyMode) :
    copyByModeCount sprint t r mode chunk =
      rowCount (copyByMode sprint t r mode chunk).landed ↔ ModeCounts t r chunk mode := by
  cases mode with
  | insertSelect => exact copyInsertSelectCount_eq_iff
  | bcpNative => exact copyBCPOrStreamCount_eq_iff
  | streamBulk => exact copyStreamCount_eq_iff

/-- The mode of a transfer that comes to move rows. -/
def modeReached (sprint : Option DriverValue → List UInt8) (t : Tables Row sql) (r : CopyRequest)
    (chunk : Int64) : Option CopyMode :=
  if !r.hasColumns || !r.opens then none
  else
    match r.estimate with
    | none => none
    | some estimate =>
        if !r.orderResolved then none
        else if t.order = .heap ∧ heapCopyPolicyRefuses (rowEstimate r estimate) chunk then none
        else if !r.identityResolved then none
        else if t.order ≠ .heap ∧ !r.deltaBounds then none
        else if t.order ≠ .heap ∧ deltaSkip sprint t then none
        else some (copyMode r estimate)

/-- The count that a transfer returns is that of the rows that it lands if and only if this is so of
the mode that it comes to. -/
theorem copySQLServerToSQLServerCount_eq_iff (sprint : Option DriverValue → List UInt8)
    (t : Tables Row sql) (r : CopyRequest) :
    copySQLServerToSQLServerCount sprint t r =
        rowCount (copySQLServerToSQLServer sprint t r).landed ↔
      ∀ mode ∈ modeReached sprint t r (startChunkSize r),
        ModeCounts t r (startChunkSize r) mode := by
  have hearly : (0 : Int64) = rowCount (finished (startChunkSize r) none : Outcome Row).landed ↔
      ∀ mode ∈ (none : Option CopyMode), ModeCounts t r (startChunkSize r) mode :=
    iff_of_true rfl fun mode hmode => by cases hmode
  rw [copySQLServerToSQLServerCount, copySQLServerToSQLServer, modeReached]
  cases hopens : !r.hasColumns || !r.opens with
  | true => exact hearly
  | false =>
      simp only [Bool.false_eq_true, if_false]
      rw [copyCount, copy]
      cases r.estimate with
      | none => exact hearly
      | some estimate =>
          dsimp only
          split_ifs
          · exact hearly
          · exact hearly
          · exact hearly
          · exact hearly
          · exact hearly
          · rw [copyByModeCount_eq_iff]
            simp only [Option.mem_some_iff, forall_eq']

end Accounting

section Samples

def wideChunk (load : Load) : ChunkAnswer := ⟨[.idle], some 100, load, true⟩

/-- A transfer between two servers, through `bcp`, whose one range has a hundred keys. -/
def bulkRequest (bulk : List ChunkAnswer) : CopyRequest :=
  { quietRequest 1 with sameServer := false, offload := ⟨true, 2⟩, bcp := ⟨true, true, bulk⟩ }

/-- Two rows with the keys 1 and 100 are counted as a hundred; and if the load fails with both in
the target, as none. -/
theorem sparse_keys_miscounted :
    let t := idTables [1, 100] [] (by decide)
    let loaded := bulkRequest [wideChunk .done]
    let failed := bulkRequest [wideChunk (.failed 2)]
    copySQLServerToSQLServerCount (fun _ => []) t loaded = 100 ∧
      (copySQLServerToSQLServer (fun _ => []) t loaded).landed = [1, 100] ∧
      copySQLServerToSQLServerCount (fun _ => []) t failed = 0 ∧
      (copySQLServerToSQLServer (fun _ => []) t failed).landed = [1, 100] := by
  decide +kernel

end Samples

end SqlOptima.TransferRowCount
