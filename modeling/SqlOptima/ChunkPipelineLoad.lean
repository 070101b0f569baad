import SqlOptima.ChunkPipeline

namespace SqlOptima.ChunkPipelineLoad

open SqlOptima.TransitionSystem
open SqlOptima.KeyedTable
open SqlOptima.ChunkPipeline

variable {Cells Tuple Key : Type} [DecidableEq Key]

def commitRows (job : ChunkJob Cells Tuple Key) (table tuples : List Tuple) :
    Option (List Tuple) :=
  match job.conflictKey with
  | none => some (table ++ tuples)
  | some key => merge key table tuples

/-- What loading some rows of the chunk in one transaction makes of the target:
nothing when one of them cannot be encoded or the target refuses them. -/
def loadRows (job : ChunkJob Cells Tuple Key) (table : List Tuple) (rows : List Cells) :
    Option (List Tuple) :=
  (rows.mapM job.copyRow).bind (commitRows job table)

/-- Loading the rows handed over so far would fail or change nothing. -/
def LeavesNothing (job : ChunkJob Cells Tuple Key) (s : RunState Cells Tuple) : Prop :=
  ∀ table ∈ loadRows job s.target s.extracted, table = s.target

/-- When the extractor fails, the rows it has already handed over leave nothing
in the target. -/
def FailsCleanly (job : ChunkJob Cells Tuple Key) (s : RunState Cells Tuple) (a : Action) : Prop :=
  a = .failExtract ∨ a = .abortExtract → LeavesNothing job s

instance [DecidableEq Tuple] (job : ChunkJob Cells Tuple Key) (s : RunState Cells Tuple) :
    Decidable (LeavesNothing job s) :=
  inferInstanceAs (Decidable (∀ table ∈ loadRows job s.target s.extracted, table = s.target))

instance [DecidableEq Tuple] (job : ChunkJob Cells Tuple Key) (s : RunState Cells Tuple)
    (a : Action) : Decidable (FailsCleanly job s a) :=
  inferInstanceAs (Decidable (_ → _))

@[simp]
def encoderHeld : Encoder Tuple → List (Option Tuple)
  | .writing row => [some row]
  | _ => []

@[simp]
def loaderHeld : Loader Tuple → List (Option Tuple)
  | .streaming encoder _ => encoderHeld encoder
  | _ => []

@[simp]
def transformerHeld (job : ChunkJob Cells Tuple Key) : Transformer Cells → List (Option Tuple)
  | .holding cells => [job.cellsToCopyRow cells]
  | _ => []

/-- The rows between the extractor and the target, oldest first, as the encoder
has encoded or will encode them. -/
def inFlight (job : ChunkJob Cells Tuple Key) (s : RunState Cells Tuple) :
    List (Option Tuple) :=
  s.copied.map some ++ loaderHeld s.loader ++ s.pipe.map job.cellsToCopyRow ++
    transformerHeld job s.transformer ++ s.raw.map job.copyRow

@[simp]
def encoderIntact : Encoder Tuple → Bool
  | .closed ok => ok
  | _ => true

@[simp]
def intact : Loader Tuple → Bool
  | .connecting => true
  | .streaming encoder _ => encoderIntact encoder
  | .merging => true
  | .finished ok => ok

@[simp]
def copyLanded : Copy → Bool
  | .reading => false
  | .ended ok => ok

@[simp]
def landed (job : ChunkJob Cells Tuple Key) : Loader Tuple → Bool
  | .connecting => false
  | .streaming _ copy => copyLanded copy && job.conflictKey.isNone
  | .merging => false
  | .finished ok => ok

/-- What a run keeps true until it returns; `table` is the target before it. -/
structure Loading (job : ChunkJob Cells Tuple Key) (table : List Tuple)
    (s : RunState Cells Tuple) : Prop where
  sequenced : Sequenced s
  stream : s.transformer ≠ .gaveUp → intact s.loader = true →
    inFlight job s = s.extracted.map job.copyRow
  extracting : ∀ rest, s.extractor = .extracting rest → s.extracted ++ rest = job.rows
  exited : s.extractor = .exited false → s.extracted = job.rows
  failed : s.transformer ≠ .gaveUp → s.extractor = .exited true →
    ∀ t ∈ loadRows job table s.extracted, t = table
  endedOk : ∀ encoder, s.loader = .streaming encoder (.ended true) → encoder = .closed true
  untouched : landed job s.loader = false → s.target = table
  committed : landed job s.loader = true → commitRows job table s.copied = some s.target
  result : ∀ r ∈ s.returned, ∃ ok failed, s.loader = .finished ok ∧ s.transformer = .sent failed ∧
    r = runResult failed ok s.copied.length

variable {job : ChunkJob Cells Tuple Key} {table : List Tuple} {s t : RunState Cells Tuple}
  {a : Action}

theorem loading_initial (job : ChunkJob Cells Tuple Key) (ctxDone : Bool) (target : List Tuple) :
    Loading job target (initial job ctxDone target) where
  sequenced := sequenced_initial job ctxDone target
  stream := by simp [initial, inFlight]
  extracting := by simp [initial]
  exited := by simp [initial]
  failed := by simp [initial]
  endedOk := by simp [initial]
  untouched := by simp [initial]
  committed := by simp [initial]
  result := by simp [initial]

omit [DecidableEq Key] in
theorem inFlight_extract (job : ChunkJob Cells Tuple Key) (s : RunState Cells Tuple)
    (cells : Cells) (rest : List Cells) :
    inFlight job { s with extractor := .extracting rest, raw := s.raw ++ [cells],
                          extracted := s.extracted ++ [cells] } =
      inFlight job s ++ [job.copyRow cells] := by
  simp [inFlight]

/-- A step of the loader that neither takes a row nor passes one on. -/
theorem stream_of_loader {loader : Loader Tuple} {target : List Tuple} (hs : Loading job table s)
    (hheld : loaderHeld loader = loaderHeld s.loader)
    (hintact : intact loader = true → intact s.loader = true) (ht : s.transformer ≠ .gaveUp)
    (hl : intact loader = true) :
    inFlight job { s with loader := loader, target := target } = s.extracted.map job.copyRow := by
  rw [← hs.stream ht (hintact hl)]
  simp only [inFlight, hheld]

theorem stream_of_transition (hs : Loading job table s) (h : Transition job s a t)
    (ht : t.transformer ≠ .gaveUp) (hl : intact t.loader = true) :
    inFlight job t = t.extracted.map job.copyRow := by
  have hstream := hs.stream
  cases h with
  | extract hx hroom => rw [inFlight_extract, hstream ht hl, List.map_append, List.map_singleton]
  | finishExtract | failExtract | abortExtract | receiveErr | cancel => exact hstream ht hl
  | giveUp => exact absurd rfl ht
  | receive ht' hr =>
      rw [← hstream (by simp [ht']) hl]
      simp [inFlight, ht', hr, ChunkJob.copyRow]
  | push ht' hroom =>
      rw [← hstream (by simp [ht']) hl]
      simp [inFlight, ht']
  | report ht' hr hx =>
      rw [← hstream (by simp [ht']) hl]
      simp [inFlight, ht']
  | encodeRow hl' hp hrow =>
      rw [← hstream ht (by simp [hl'])]
      simp [inFlight, hl', hp, hrow]
  | sendRow hl' =>
      rw [← hstream ht (by simp [hl'])]
      simp [inFlight, hl']
  | connectFail | encodeReject | writeFail | rollBackCopy | joinFailed | mergeReject | mergeFail =>
      cases hl
  | connect hl' | encodeEnd hl' | sendHeader hl' | sendTrailer hl' | commitCopy hl' | failCopy hl'
  | joinAppend hl' | joinStaging hl' | merge hl' =>
      exact stream_of_loader hs (by simp [hl']) (by simp [hl']) ht hl

theorem endedOk_of_transition (hs : Loading job table s) (h : Transition job s a t) :
    ∀ encoder, t.loader = .streaming encoder (.ended true) → encoder = .closed true := by
  have hended := hs.endedOk
  cases h with
  | writeFail hl hw =>
      rename_i encoder ok
      intro closed hclosed
      cases ok with
      | false => simp at hclosed
      | true =>
          rw [hended encoder hl] at hw
          cases hw
  | _ => simp_all

theorem sawEnd_of_landed (hs : Loading job table s) (h : landed job s.loader = true) :
    s.loader.sawEnd = true := by
  cases hl : s.loader with
  | streaming encoder copy =>
      cases copy with
      | reading => simp [hl] at h
      | ended ok =>
          simp only [hl, landed, Bool.and_eq_true] at h
          cases h.1
          simp [hs.endedOk encoder hl]
  | connecting => simp [hl] at h
  | merging => rfl
  | finished ok => simpa [hl] using h

theorem target_of_extracting {rest : List Cells} (hs : Loading job table s)
    (ht : s.transformer ≠ .gaveUp) (hx : s.extractor = .extracting rest) : s.target = table := by
  apply hs.untouched
  by_contra hland
  have hend := hs.sequenced.ended (sawEnd_of_landed hs (by simpa using hland))
  cases htr : s.transformer with
  | sent failed =>
      have hexited := (hs.sequenced.sent failed htr).1
      rw [hx] at hexited
      cases hexited
  | gaveUp => exact ht htr
  | receiving => simp [htr] at hend
  | holding cells => simp [htr] at hend

theorem failed_of_transition (hs : Loading job table s) (hok : FailsCleanly job s a)
    (h : Transition job s a t) (ht : t.transformer ≠ .gaveUp) (hx : t.extractor = .exited true) :
    ∀ u ∈ loadRows job table t.extracted, u = table := by
  have hfailed := hs.failed
  cases h with
  | failExtract hx' =>
      rw [← target_of_extracting hs ht hx']
      exact hok (.inl rfl)
  | abortExtract hx' hc =>
      rw [← target_of_extracting hs ht hx']
      exact hok (.inr rfl)
  | extract | finishExtract => cases hx
  | giveUp => exact absurd rfl ht
  | receive ht' | push ht' | report ht' => exact hfailed (by simp [ht']) hx
  | _ => exact hfailed ht hx

omit [DecidableEq Key] in
theorem commitCopy_of_isSome (h : job.conflictKey.isSome = true) (target copied : List Tuple) :
    job.commitCopy target copied = target := by
  obtain ⟨key, hk⟩ := Option.isSome_iff_exists.mp h
  simp [ChunkJob.commitCopy, hk]

theorem untouched_of_transition (hs : Loading job table s) (h : Transition job s a t)
    (hl : landed job t.loader = false) : t.target = table := by
  have huntouched := hs.untouched
  have hended := hs.endedOk
  cases h with
  | commitCopy hl' =>
      have hstaged : job.conflictKey.isSome = true := by simpa using hl
      rw [commitCopy_of_isSome hstaged]
      exact huntouched (by simp [hl'])
  | _ => simp_all

theorem committed_of_transition (hs : Loading job table s) (h : Transition job s a t)
    (hl : landed job t.loader = true) : commitRows job table t.copied = some t.target := by
  have huntouched := hs.untouched
  have hcommitted := hs.committed
  cases h with
  | commitCopy hl' =>
      have happend : job.conflictKey = none := by simpa using hl
      rw [huntouched (by simp [hl'])]
      simp [commitRows, ChunkJob.commitCopy, happend]
  | merge hl' hk hm =>
      rw [huntouched (by simp [hl'])] at hm
      simp [commitRows, hk, hm]
  | joinAppend hl' hk => exact hcommitted (by simp [hl', hk])
  | encodeRow hl' | encodeReject hl' | encodeEnd hl' | writeFail hl' =>
      exact hcommitted (by simpa [hl'] using hl)
  | connect | connectFail | sendHeader | sendRow | sendTrailer | rollBackCopy | failCopy
  | joinStaging | joinFailed | mergeReject | mergeFail => cases hl
  | _ => exact hcommitted hl

theorem result_of_transition (hs : Loading job table s) (h : Transition job s a t) :
    ∀ r ∈ t.returned, ∃ ok failed, t.loader = .finished ok ∧ t.transformer = .sent failed ∧
      r = runResult failed ok t.copied.length := by
  have hresult := hs.result
  cases h <;> simp_all

theorem loading_of_transition (hs : Loading job table s) (hok : FailsCleanly job s a)
    (h : Transition job s a t) : Loading job table t where
  sequenced := sequenced_of_transition hs.sequenced h
  stream := stream_of_transition hs h
  extracting := by
    have hextracting := hs.extracting
    cases h <;> simp_all
  exited := by
    have hextracting := hs.extracting
    have hexited := hs.exited
    cases h <;> simp_all
  failed := failed_of_transition hs hok h
  endedOk := endedOk_of_transition hs h
  untouched := untouched_of_transition hs h
  committed := committed_of_transition hs h
  result := result_of_transition hs h

theorem mapM_eq_some_iff {α β : Type} {f : α → Option β} {as : List α} {bs : List β} :
    as.mapM f = some bs ↔ as.map f = bs.map some := by
  induction as generalizing bs with
  | nil => cases bs <;> simp
  | cons a as ih =>
      cases bs with
      | nil => simp [List.mapM_cons, Option.bind_eq_some_iff]
      | cons b bs => simp [List.mapM_cons, Option.bind_eq_some_iff, ← ih]

theorem loadRows_of_finished {failed : Bool} (hs : Loading job table s)
    (hl : s.loader = .finished true) (ht : s.transformer = .sent failed) :
    loadRows job table s.extracted = some s.target ∧ s.copied.length = s.extracted.length := by
  have hpipe := (hs.sequenced.ended (by simp [hl])).2
  have hraw := (hs.sequenced.sent failed ht).2
  have hstream := hs.stream (by simp [ht]) (by simp [hl])
  simp only [inFlight, hl, hpipe, ht, hraw, loaderHeld, transformerHeld, List.map_nil,
    List.append_nil] at hstream
  constructor
  · rw [loadRows, mapM_eq_some_iff.mpr hstream.symm]
    exact hs.committed (by simp [hl])
  · simpa using congrArg List.length hstream

theorem target_of_error {e : RunError} (hs : Loading job table s)
    (hr : s.returned = some (.error e)) : s.target = table := by
  obtain ⟨ok, failed, hl, ht, hres⟩ := hs.result _ hr
  cases ok with
  | false => exact hs.untouched (by simp [hl])
  | true =>
      -- The load was committed, so the error is the extractor's.
      cases failed with
      | false => simp [runResult] at hres
      | true =>
          have hx := (hs.sequenced.sent true ht).1
          exact hs.failed (by simp [ht]) hx _ (loadRows_of_finished hs hl ht).1

theorem loadRows_of_ok {n : Nat} (hs : Loading job table s) (hr : s.returned = some (.ok n)) :
    loadRows job table job.rows = some s.target ∧ n = job.rows.length := by
  obtain ⟨ok, failed, hl, ht, hres⟩ := hs.result _ hr
  cases failed with
  | true => simp [runResult] at hres
  | false =>
      cases ok with
      | false => simp [runResult] at hres
      | true =>
          have hx := (hs.sequenced.sent false ht).1
          obtain ⟨hload, hlen⟩ := loadRows_of_finished hs hl ht
          rw [hs.exited hx] at hload hlen
          have hn : n = s.copied.length := by simpa [runResult] using hres
          exact ⟨hload, hn.trans hlen⟩

end SqlOptima.ChunkPipelineLoad
