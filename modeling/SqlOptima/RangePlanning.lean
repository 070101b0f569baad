import SqlOptima.CivilDate
import SqlOptima.KeyTiling
import SqlOptima.PythonValues
import SqlOptima.TemporalExtraction

namespace SqlOptima.RangePlanning

open KeyTiling (Tiles inRange)
open PythonValues (readTime)

/-!
# Ranges of integer and datetime keys
-/

section Datetimes

/-! A datetime is a number of microseconds from 0001-01-01. -/

def dayMicros : Int := 86400000000

/-- `datetime.max` -/
def maxDatetime : Int := (CivilDate.lastDay + 1) * dayMicros - 1

theorem time_valid (t : Int) :
    (t % dayMicros).toNat / 3600000000 < 24 ∧ (t % dayMicros).toNat / 60000000 % 60 < 60 ∧
      (t % dayMicros).toNat / 1000000 % 60 < 60 ∧ (t % dayMicros).toNat % 1000000 < 1000000 := by
  rw [dayMicros]
  omega

def timeOf (t : Int) : PythonValues.Time where
  hour := (t % dayMicros).toNat / 3600000000
  minute := (t % dayMicros).toNat / 60000000 % 60
  second := (t % dayMicros).toNat / 1000000 % 60
  microsecond := (t % dayMicros).toNat % 1000000
  valid := time_valid t

def timeMicros (time : PythonValues.Time) : Int :=
  ((time.hour * 60 + time.minute) * 60 + time.second) * 1000000 + time.microsecond

def isoformat (t : Int) : String :=
  String.ofList (CivilDate.format (CivilDate.ofDay (t / dayMicros)) ++ 'T' :: (timeOf t).isoformat)

/-- The forms without an offset from UTC that have a date with hyphens, and seconds where there is a
time. -/
def fromIsoformat (s : String) : Option Int :=
  match CivilDate.parse (s.toList.take 10) with
  | none => none
  | some day =>
      if 0 ≤ day ∧ day ≤ CivilDate.lastDay then
        match s.toList.drop 10 with
        | [] => some (day * dayMicros)
        | _ :: cs =>
            match readTime cs with
            | some (time, []) => some (day * dayMicros + timeMicros time)
            | _ => none
      else none

inductive PlanError
  | overflow
  | invalidIsoformat
  | uncomparable
  deriving DecidableEq

/-- `t + timedelta(days=days)` -/
def addDays (t days : Int) : Except PlanError Int :=
  if t + days * dayMicros ≤ maxDatetime then .ok (t + days * dayMicros) else .error .overflow

theorem addDays_eq_ok_iff {t days sum : Int} :
    addDays t days = .ok sum ↔ t + days * dayMicros ≤ maxDatetime ∧ sum = t + days * dayMicros := by
  rw [addDays]
  split
  · next h =>
      constructor
      · intro heq
        exact ⟨h, (Except.ok.inj heq).symm⟩
      · rintro ⟨-, rfl⟩
        rfl
  · next h => exact iff_of_false (fun h => by cases h) fun heq => h heq.1

end Datetimes

section Columns

/-! A datetime column holds instants in units of 100 ns from 0001-01-01. -/

/-- `_DATETIME_TYPES` -/
inductive DatetimeType
  | datetime
  | datetime2 (scale : Fin 8)
  | smalldatetime
  deriving DecidableEq

/-- `datetime2` at its greatest scale. -/
def lastInstant : Int := 10 * (maxDatetime + 1) - 1

def minuteUnits : Int := 600000000

/-- The instants that a column of the type can hold. -/
def DatetimeType.Holds : DatetimeType → Int → Prop
  | .datetime, v => 10000 ∣ v ∧ (v / 10000 % 10 = 0 ∨ v / 10000 % 10 = 3 ∨ v / 10000 % 10 = 7)
  | .datetime2 scale, v => 10 ^ (7 - scale.val) ∣ v
  | .smalldatetime, v => minuteUnits ∣ v

/-- The driver's datetime: what is below a microsecond is cut off. -/
def fetched (v : Int) : Int := v / 10

def roundTo (unit v : Int) : Int := (v + unit / 2) / unit * unit

/-- What a column makes of a text that names the instant `t`, with no fraction of a second or with
six digits of one: `datetime` and `smalldatetime` refuse the six digits. -/
def DatetimeType.read : DatetimeType → Int → Option Int
  | .datetime, t => if t % 1000000 = 0 then some (10 * t) else none
  | .datetime2 scale, t => some (roundTo (10 ^ (7 - scale.val)) (10 * t))
  | .smalldatetime, t => if t % 1000000 = 0 then some (roundTo minuteUnits (10 * t)) else none

def DatetimeType.convert (type : DatetimeType) (text : String) : Option Int :=
  (fromIsoformat text).bind type.read

/-- A `datetime` column reads the texts of whole seconds only. -/
def DatetimeType.Readable (type : DatetimeType) (t : Int) : Prop :=
  type = .datetime → t % 1000000 = 0

end Columns

section Planner

/-- The least and the greatest key of a datetime column. -/
structure DatetimeKeys where
  type : DatetimeType
  lo : Int
  hi : Int
  nonneg : 0 ≤ lo
  ordered : lo ≤ hi
  bounded : hi ≤ lastInstant
  loHeld : type.Holds lo
  hiHeld : type.Holds hi

/-- The least and the greatest key, as the query for them returns them: numbers, datetimes, or the
texts of datetimes. -/
inductive KeyRange
  | integers (lo hi : Int) (ordered : lo ≤ hi)
  | datetimes (keys : DatetimeKeys)
  | texts (keys : DatetimeKeys) (loText hiText : String)
      (loRead : fromIsoformat loText = some (fetched keys.lo))
      (hiRead : fromIsoformat hiText = some (fetched keys.hi))

def KeyRange.lo : KeyRange → Int
  | .integers lo _ _ => lo
  | .datetimes keys => keys.lo
  | .texts keys _ _ _ _ => keys.lo

def KeyRange.hi : KeyRange → Int
  | .integers _ hi _ => hi
  | .datetimes keys => keys.hi
  | .texts keys _ _ _ _ => keys.hi

/-- The type of a datetime column; none of an integer column. -/
def KeyRange.type : KeyRange → Option DatetimeType
  | .integers _ _ _ => none
  | .datetimes keys => some keys.type
  | .texts keys _ _ _ _ => some keys.type

inductive ChunkBoundary
  | ints (start stop : Int)
  | texts (start stop : String)
  deriving DecidableEq

variable (chunkSize : Int)

def stepDays : Int := max 1 (chunkSize / 1000)

/-- One pass of the loop over datetimes: the chunk, and where the next one starts. -/
def datetimeChunk (endDt current : Int) : Except PlanError ((Int × Int) × Int) :=
  match addDays current (stepDays chunkSize) with
  | .error e => .error e
  | .ok stop =>
      let chunkEnd := if stop > endDt then endDt else stop
      match addDays chunkEnd 1 with
      | .error e => .error e
      | .ok next => .ok ((current, chunkEnd), next)

theorem datetimeChunk_eq_ok_iff {endDt current next : Int} {chunk : Int × Int} :
    datetimeChunk chunkSize endDt current = .ok (chunk, next) ↔
      chunk = (current, min (current + stepDays chunkSize * dayMicros) endDt) ∧
        next = chunk.2 + dayMicros ∧
          current + stepDays chunkSize * dayMicros ≤ maxDatetime ∧ next ≤ maxDatetime := by
  have hend : ∀ stop, (if stop > endDt then endDt else stop) = min stop endDt := by
    intro stop
    split
    · next hgt => exact (min_eq_right (le_of_lt hgt)).symm
    · next hle => exact (min_eq_left (not_lt.mp hle)).symm
  rw [datetimeChunk]
  cases hstop : addDays current (stepDays chunkSize) with
  | error e =>
      refine iff_of_false (fun h => by cases h) fun h => ?_
      rw [addDays, if_pos h.2.2.1] at hstop
      cases hstop
  | ok stop =>
      obtain ⟨hmax, rfl⟩ := addDays_eq_ok_iff.mp hstop
      dsimp only
      rw [hend]
      cases hnext : addDays (min (current + stepDays chunkSize * dayMicros) endDt) 1 with
      | error e =>
          refine iff_of_false (fun h => by cases h) ?_
          rintro ⟨rfl, rfl, -, hlast⟩
          rw [addDays, one_mul, if_pos hlast] at hnext
          cases hnext
      | ok next' =>
          obtain ⟨hlast, rfl⟩ := addDays_eq_ok_iff.mp hnext
          rw [one_mul] at hlast ⊢
          constructor
          · intro h
            cases h
            exact ⟨rfl, rfl, hmax, hlast⟩
          · rintro ⟨rfl, rfl, -, -⟩
            rfl

theorem lt_next_of_datetimeChunk {endDt current next : Int} {chunk : Int × Int}
    (h : datetimeChunk chunkSize endDt current = .ok (chunk, next)) (hle : current ≤ endDt) :
    current < next := by
  obtain ⟨rfl, rfl, -, -⟩ := (datetimeChunk_eq_ok_iff chunkSize).mp h
  have hstep : 1 ≤ stepDays chunkSize := le_max_left _ _
  rw [dayMicros]
  dsimp only
  omega

def datetimeLoop (endDt current : Int) : Except PlanError (List (Int × Int)) :=
  if current ≤ endDt then
    match _hchunk : datetimeChunk chunkSize endDt current with
    | .error e => .error e
    | .ok (chunk, next) =>
        if next > endDt then .ok [chunk]
        else
          match datetimeLoop endDt next with
          | .error e => .error e
          | .ok chunks => .ok (chunk :: chunks)
  else .ok []
termination_by (endDt + 1 - current).toNat
decreasing_by
  have hlt := lt_next_of_datetimeChunk chunkSize ‹_› ‹current ≤ endDt›
  omega

/-- From texts the second pass of the loop would compare a datetime with a text. -/
def textLoop (loText hiText : String) : Except PlanError (List (Int × Int)) :=
  if loText ≤ hiText then
    match fromIsoformat loText, fromIsoformat hiText with
    | some current, some endDt =>
        match datetimeChunk chunkSize endDt current with
        | .error e => .error e
        | .ok (chunk, next) => if next > endDt then .ok [chunk] else .error .uncomparable
    | _, _ => .error .invalidIsoformat
  else .ok []

def datetimeBoundary (chunk : Int × Int) : ChunkBoundary :=
  .texts (isoformat chunk.1) (isoformat chunk.2)

/-- `_generate_ranges` for the key types that are cut into ranges of a step. -/
def generateRanges : KeyRange → Except PlanError (List ChunkBoundary)
  | .integers lo hi _ =>
      .ok (((TemporalExtraction.planner chunkSize).generateRanges lo hi).map fun b =>
        .ints b.start b.stop)
  | .datetimes keys =>
      (datetimeLoop chunkSize (fetched keys.hi) (fetched keys.lo)).map (List.map datetimeBoundary)
  | .texts _ loText hiText _ _ =>
      (textLoop chunkSize loText hiText).map (List.map datetimeBoundary)

end Planner

section Extraction

/-- `WHERE [column] >= ? AND [column] <= ?`; a datetime column converts the texts. -/
def selects (type : Option DatetimeType) (key : Int) : ChunkBoundary → Bool
  | .ints start stop => inRange key (start, stop)
  | .texts start stop =>
      match type.bind (·.convert start), type.bind (·.convert stop) with
      | some lo, some hi => inRange key (lo, hi)
      | _, _ => false

variable (chunkSize : Int)

/-- There is a plan, and every key that the column can hold from the least to the greatest is in
exactly one of its chunks. -/
def Covers (range : KeyRange) : Prop :=
  ∃ chunks, generateRanges chunkSize range = .ok chunks ∧
    ∀ key, (∀ type ∈ range.type, type.Holds key) → range.lo ≤ key → key ≤ range.hi →
      chunks.countP (selects range.type key) = 1

/-- The datetimes fit in one step, and no sum of the planner is later than `datetime.max`. -/
def OneStep (lo hi : Int) : Prop :=
  hi - lo ≤ stepDays chunkSize * dayMicros ∧
    lo + stepDays chunkSize * dayMicros ≤ maxDatetime ∧ hi + dayMicros ≤ maxDatetime

/-- The keys fit in one step, nothing is cut off the greatest one, and the column reads the texts of
both. -/
def FitsColumn (keys : DatetimeKeys) : Prop :=
  OneStep chunkSize (fetched keys.lo) (fetched keys.hi) ∧ 10 ∣ keys.hi ∧
    keys.type.Readable (fetched keys.lo) ∧ keys.type.Readable (fetched keys.hi)

def FitsPlanner : KeyRange → Prop
  | .integers _ _ _ => True
  | .datetimes keys => FitsColumn chunkSize keys
  | .texts keys loText hiText _ _ => loText ≤ hiText ∧ FitsColumn chunkSize keys

end Extraction

section Integers

open ParallelMigration in
theorem tiles_generateRanges (p : ParallelPlan) {current endVal : Int} (h : current ≤ endVal) :
    Tiles p.step endVal current
      ((p.generateRanges current endVal).map fun b => (b.start, b.stop)) := by
  have hstep : 1 ≤ p.step := Nat.le_max_left _ _
  fun_induction ParallelPlan.generateRanges p current endVal with
  | case1 current hle chunkEnd ih =>
      rw [List.map_cons]
      by_cases hlast : chunkEnd + 1 ≤ endVal
      · exact .cons (show current ≤ chunkEnd by omega) (show chunkEnd - current < p.step by omega)
          (show chunkEnd < endVal by omega) (ih hlast)
      · have hend : chunkEnd = endVal := by omega
        have hnil : p.generateRanges (chunkEnd + 1) endVal = [] := by
          rw [ParallelPlan.generateRanges, if_neg hlast]
        rw [hnil, List.map_nil, hend]
        exact .last hle (by omega)
  | case2 current hgt => exact absurd h hgt

/-- Integer keys are covered whatever the chunk size. -/
theorem covers_integers (chunkSize : Int) {lo hi : Int} (h : lo ≤ hi) :
    Covers chunkSize (.integers lo hi h) := by
  refine ⟨_, rfl, fun key _ hlo hhi => ?_⟩
  have hone := (tiles_generateRanges (TemporalExtraction.planner chunkSize) h).countP_inRange
    hlo hhi
  rw [List.countP_map] at hone ⊢
  exact hone

end Integers

section Loop

variable {chunkSize endDt current : Int} {chunks : List (Int × Int)}

theorem datetimeLoop_eq_ok (hle : current ≤ endDt)
    (h : datetimeLoop chunkSize endDt current = .ok chunks) :
    ∃ chunk next rest, datetimeChunk chunkSize endDt current = .ok (chunk, next) ∧
      chunks = chunk :: rest ∧
        (rest = [] ∨ next ≤ endDt ∧ datetimeLoop chunkSize endDt next = .ok rest) := by
  rw [datetimeLoop, if_pos hle] at h
  split at h
  · cases h
  · next chunk next hchunk =>
      split at h
      · cases h
        exact ⟨chunk, next, [], hchunk, rfl, Or.inl rfl⟩
      · next hnext =>
          split at h
          · cases h
          · next rest hrest =>
              cases h
              exact ⟨chunk, next, rest, hchunk, rfl, Or.inr ⟨not_lt.mp hnext, hrest⟩⟩

theorem datetimeChunk_bounds {P : Int → Prop} (hdays : ∀ t n, P t → P (t + n * dayMicros))
    (hend : P endDt) (hcurrent : P current) (hle : current ≤ endDt) {chunk : Int × Int}
    {next : Int} (h : datetimeChunk chunkSize endDt current = .ok (chunk, next)) :
    (current ≤ chunk.1 ∧ chunk.1 ≤ chunk.2 ∧ chunk.2 ≤ endDt ∧ P chunk.1 ∧ P chunk.2) ∧
      P next := by
  obtain ⟨rfl, rfl, -, -⟩ := (datetimeChunk_eq_ok_iff chunkSize).mp h
  have hstep : 1 ≤ stepDays chunkSize := le_max_left _ _
  have hstop : P (min (current + stepDays chunkSize * dayMicros) endDt) := by
    rcases min_choice (current + stepDays chunkSize * dayMicros) endDt with hmin | hmin
    · rw [hmin]
      exact hdays _ _ hcurrent
    · rwa [hmin]
  refine ⟨⟨le_rfl, ?_, min_le_right _ _, hcurrent, hstop⟩, ?_⟩
  · rw [dayMicros]
    dsimp only
    omega
  · have hnext := hdays _ 1 hstop
    rwa [one_mul] at hnext

/-- The chunks lie between the ends of the loop, whole days after the start or at the end. -/
theorem datetimeLoop_bounds {P : Int → Prop} (hdays : ∀ t n, P t → P (t + n * dayMicros))
    (hend : P endDt) (hcurrent : P current) (hle : current ≤ endDt)
    (h : datetimeLoop chunkSize endDt current = .ok chunks) :
    ∀ c ∈ chunks, current ≤ c.1 ∧ c.1 ≤ c.2 ∧ c.2 ≤ endDt ∧ P c.1 ∧ P c.2 := by
  induction chunks generalizing current with
  | nil => exact fun c hc => absurd hc List.not_mem_nil
  | cons first chunks ih =>
      obtain ⟨chunk, next, rest, hchunk, heq, hrest⟩ := datetimeLoop_eq_ok hle h
      cases heq
      have hlt := lt_next_of_datetimeChunk chunkSize hchunk hle
      have hbounds := datetimeChunk_bounds hdays hend hcurrent hle hchunk
      refine List.forall_mem_cons.mpr ⟨hbounds.1, ?_⟩
      rcases hrest with rfl | ⟨hnext, hloop⟩
      · exact fun c hc => absurd hc List.not_mem_nil
      · intro c hc
        obtain ⟨hstart, hrest⟩ := ih hbounds.2 hnext hloop c hc
        exact ⟨le_of_lt (lt_of_lt_of_le hlt hstart), hrest⟩

theorem oneStep_iff {lo hi : Int} :
    OneStep chunkSize lo hi ↔
      datetimeChunk chunkSize hi lo = .ok ((lo, hi), hi + dayMicros) := by
  rw [datetimeChunk_eq_ok_iff, OneStep]
  constructor
  · rintro ⟨hspan, hmax, hlast⟩
    exact ⟨Prod.ext rfl (min_eq_right (by omega)).symm, rfl, hmax, hlast⟩
  · rintro ⟨hchunk, -, hmax, hlast⟩
    have hhi : hi = min (lo + stepDays chunkSize * dayMicros) hi := congrArg Prod.snd hchunk
    have hspan := hhi.trans_le (min_le_left _ _)
    exact ⟨by omega, hmax, hlast⟩

theorem datetimeLoop_of_oneStep {lo hi : Int} (hle : lo ≤ hi) (hstep : OneStep chunkSize lo hi) :
    datetimeLoop chunkSize hi lo = .ok [(lo, hi)] := by
  have hafter : hi + dayMicros > hi := by
    rw [dayMicros]
    omega
  rw [datetimeLoop, if_pos hle]
  split
  · next e he =>
      rw [oneStep_iff.mp hstep] at he
      cases he
  · next chunk next hchunk =>
      rw [oneStep_iff.mp hstep] at hchunk
      cases hchunk
      rw [if_pos hafter]

end Loop

section Reading

theorem timeMicros_timeOf (t : Int) : timeMicros (timeOf t) = t % dayMicros := by
  have hfields : ∀ m : Int, 0 ≤ m → (((m.toNat / 3600000000 : Nat) * 60 +
      (m.toNat / 60000000 % 60 : Nat)) * 60 + (m.toNat / 1000000 % 60 : Nat)) * 1000000 +
        (m.toNat % 1000000 : Nat) = m := by
    intro m hm
    omega
  exact hfields _ (Int.emod_nonneg t (by decide))

theorem length_format {day : Int} (h : 0 ≤ day) (h' : day ≤ CivilDate.lastDay) :
    (CivilDate.format (CivilDate.ofDay day)).length = 10 := by
  obtain ⟨⟨hy, hy'⟩, ⟨hm, hm'⟩, hd, hd'⟩ := CivilDate.ofDay_bounds h h'
  rw [CivilDate.format, List.length_append, List.length_cons, List.length_append, List.length_cons,
    CivilDate.length_appendInt (by decide) hy (by omega),
    CivilDate.length_appendInt (by decide) (by omega) (by omega),
    CivilDate.length_appendInt (by decide) (by omega) (by omega)]

theorem fromIsoformat_isoformat {t : Int} (h : 0 ≤ t) (h' : t ≤ maxDatetime) :
    fromIsoformat (isoformat t) = some t := by
  have hday : 0 ≤ t / dayMicros ∧ t / dayMicros ≤ CivilDate.lastDay := by
    rw [maxDatetime, CivilDate.lastDay, dayMicros] at h'
    rw [CivilDate.lastDay, dayMicros]
    omega
  have hlength := length_format hday.1 hday.2
  have htime : readTime ((timeOf t).isoformat ++ []) = some (timeOf t, []) :=
    PythonValues.readTime_isoformat (timeOf t) (by simp)
  rw [List.append_nil] at htime
  rw [fromIsoformat, isoformat, String.toList_ofList, List.take_left' hlength,
    List.drop_left' hlength, CivilDate.parse_format hday.1 hday.2]
  dsimp only
  rw [if_pos hday, htime]
  dsimp only
  rw [timeMicros_timeOf, Int.ediv_mul_add_emod]

end Reading

section Columns

variable {type : DatetimeType} {t : Int}

theorem roundTo_of_dvd {unit v : Int} (hunit : 0 < unit) (h : unit ∣ v) : roundTo unit v = v := by
  obtain ⟨q, rfl⟩ := h
  have hhalf : unit / 2 / unit = 0 := Int.ediv_eq_zero_of_lt (by omega) (by omega)
  rw [roundTo, Int.mul_add_ediv_left _ _ (ne_of_gt hunit), hhalf, add_zero, mul_comm]

/-- A column reads the text of an instant that it can hold exactly, or not at all. -/
theorem read_eq_some_iff (h : type.Holds (10 * t)) {v : Int} :
    type.read t = some v ↔ type.Readable t ∧ v = 10 * t := by
  cases type with
  | datetime =>
      have hreads : DatetimeType.datetime.Readable t ↔ t % 1000000 = 0 := forall_prop_of_true rfl
      rw [DatetimeType.read, Option.ite_none_right_eq_some, Option.some_inj, hreads,
        @eq_comm _ v]
  | datetime2 scale =>
      rw [DatetimeType.read, roundTo_of_dvd (by positivity) h, Option.some_inj, eq_comm]
      exact (and_iff_right DatetimeType.noConfusion).symm
  | smalldatetime =>
      have hseconds : t % 1000000 = 0 := by
        rw [DatetimeType.Holds, minuteUnits] at h
        omega
      rw [DatetimeType.read, if_pos hseconds, roundTo_of_dvd (by decide) h, Option.some_inj,
        eq_comm]
      exact (and_iff_right DatetimeType.noConfusion).symm

theorem Holds.addMinutes {v : Int} (h : type.Holds v) (n : Int) :
    type.Holds (v + n * minuteUnits) := by
  cases type with
  | datetime =>
      rw [DatetimeType.Holds, minuteUnits] at *
      omega
  | datetime2 scale =>
      have hunit : (10 : Int) ^ (7 - scale.val) ∣ minuteUnits :=
        (pow_dvd_pow 10 (Nat.sub_le 7 scale.val)).trans (by decide)
      exact dvd_add h (hunit.mul_left n)
  | smalldatetime => exact dvd_add h (dvd_mul_left minuteUnits n)

/-- What the driver hands over is an instant of the column too. -/
theorem Holds.fetched {v : Int} (h : type.Holds v) : type.Holds (10 * fetched v) := by
  rw [RangePlanning.fetched]
  cases type with
  | datetime =>
      rw [DatetimeType.Holds] at *
      omega
  | datetime2 scale =>
      rw [DatetimeType.Holds] at *
      by_cases hscale : scale.val = 7
      · rw [hscale]
        exact one_dvd _
      · have hten : (10 : Int) ∣ v := (dvd_pow_self 10 (by omega)).trans h
        rwa [Int.mul_ediv_cancel' hten]
  | smalldatetime =>
      rw [DatetimeType.Holds, minuteUnits] at *
      omega

/-- A datetime that the planner may write for a column of the type. -/
def Writable (type : DatetimeType) (t : Int) : Prop :=
  0 ≤ t ∧ t ≤ maxDatetime ∧ type.Holds (10 * t)

theorem convert_isoformat_eq_some_iff (h : Writable type t) {v : Int} :
    type.convert (isoformat t) = some v ↔ type.Readable t ∧ v = 10 * t := by
  rw [DatetimeType.convert, fromIsoformat_isoformat h.1 h.2.1, Option.bind_some,
    read_eq_some_iff h.2.2]

theorem selects_datetimeBoundary {key : Int} {chunk : Int × Int} (hstart : Writable type chunk.1)
    (hstop : Writable type chunk.2) :
    selects (some type) key (datetimeBoundary chunk) = true ↔
      (type.Readable chunk.1 ∧ type.Readable chunk.2) ∧
        10 * chunk.1 ≤ key ∧ key ≤ 10 * chunk.2 := by
  rw [datetimeBoundary, selects, Option.bind_some, Option.bind_some]
  constructor
  · intro h
    split at h
    · next lo hi hlo hhi =>
        obtain ⟨hreads, rfl⟩ := (convert_isoformat_eq_some_iff hstart).mp hlo
        obtain ⟨hreads', rfl⟩ := (convert_isoformat_eq_some_iff hstop).mp hhi
        exact ⟨⟨hreads, hreads'⟩, KeyTiling.inRange_eq_true.mp h⟩
    · cases h
  · rintro ⟨⟨hreads, hreads'⟩, hin⟩
    rw [(convert_isoformat_eq_some_iff hstart).mpr ⟨hreads, rfl⟩,
      (convert_isoformat_eq_some_iff hstop).mpr ⟨hreads', rfl⟩]
    exact KeyTiling.inRange_eq_true.mpr hin

end Columns

section Coverage

variable {chunkSize : Int} {keys : DatetimeKeys}

theorem DatetimeKeys.fetched_bounds (keys : DatetimeKeys) :
    0 ≤ fetched keys.lo ∧ fetched keys.lo ≤ fetched keys.hi ∧ fetched keys.hi ≤ maxDatetime := by
  have hnonneg := keys.nonneg
  have hordered := keys.ordered
  have hbounded := keys.bounded
  rw [lastInstant] at hbounded
  rw [fetched, fetched]
  omega

theorem Holds.addDays {type : DatetimeType} {t : Int} (h : type.Holds (10 * t)) (n : Int) :
    type.Holds (10 * (t + n * dayMicros)) := by
  have hdays := Holds.addMinutes h (n * 1440)
  rw [minuteUnits] at hdays
  rw [dayMicros]
  convert hdays using 1
  ring

/-- A chunk between the least and the greatest key whose ends the column can hold. -/
def Planned (keys : DatetimeKeys) (c : Int × Int) : Prop :=
  fetched keys.lo ≤ c.1 ∧ c.1 ≤ c.2 ∧ c.2 ≤ fetched keys.hi ∧
    keys.type.Holds (10 * c.1) ∧ keys.type.Holds (10 * c.2)

theorem Planned.writable {c : Int × Int} (h : Planned keys c) :
    Writable keys.type c.1 ∧ Writable keys.type c.2 := by
  obtain ⟨hlo, hmid, hhi, hstart, hstop⟩ := h
  obtain ⟨hnonneg, -, hmax⟩ := keys.fetched_bounds
  exact ⟨⟨by omega, by omega, hstart⟩, by omega, by omega, hstop⟩

/-- Every key is in exactly one of the chunks. -/
def CoveredBy (keys : DatetimeKeys) (chunks : List (Int × Int)) : Prop :=
  ∀ key, keys.type.Holds key → keys.lo ≤ key → key ≤ keys.hi →
    (chunks.map datetimeBoundary).countP (selects (some keys.type) key) = 1

theorem CoveredBy.exists_chunk {chunks : List (Int × Int)} (h : CoveredBy keys chunks)
    (hplanned : ∀ c ∈ chunks, Planned keys c) {key : Int} (hheld : keys.type.Holds key)
    (hlo : keys.lo ≤ key) (hhi : key ≤ keys.hi) :
    ∃ c ∈ chunks, (keys.type.Readable c.1 ∧ keys.type.Readable c.2) ∧
      10 * c.1 ≤ key ∧ key ≤ 10 * c.2 := by
  have hpos : 0 < (chunks.map datetimeBoundary).countP (selects (some keys.type) key) := by
    rw [h key hheld hlo hhi]
    exact Nat.one_pos
  obtain ⟨boundary, hmem, hselects⟩ := List.countP_pos_iff.mp hpos
  obtain ⟨c, hc, rfl⟩ := List.mem_map.mp hmem
  obtain ⟨hstart, hstop⟩ := (hplanned c hc).writable
  exact ⟨c, hc, (selects_datetimeBoundary hstart hstop).mp hselects⟩

theorem planned_whole (keys : DatetimeKeys) :
    Planned keys (fetched keys.lo, fetched keys.hi) :=
  ⟨le_rfl, keys.fetched_bounds.2.1, le_rfl, Holds.fetched keys.loHeld, Holds.fetched keys.hiHeld⟩

/-- One chunk from end to end holds every key exactly when the column reads both ends and nothing is
cut off the greatest key. -/
theorem coveredBy_single_iff :
    CoveredBy keys [(fetched keys.lo, fetched keys.hi)] ↔
      10 ∣ keys.hi ∧ keys.type.Readable (fetched keys.lo) ∧
        keys.type.Readable (fetched keys.hi) := by
  have hplanned := planned_whole keys
  constructor
  · intro h
    obtain ⟨c, hc, hreads, -, hhi⟩ := h.exists_chunk (List.forall_mem_singleton.mpr hplanned)
      keys.hiHeld keys.ordered le_rfl
    obtain rfl := List.mem_singleton.mp hc
    refine ⟨?_, hreads⟩
    have hcut : keys.hi ≤ 10 * (keys.hi / 10) := hhi
    omega
  · rintro ⟨hten, hreads⟩ key hheld hlo hhi
    have hbounds : 10 * fetched keys.lo ≤ key ∧ key ≤ 10 * fetched keys.hi := by
      rw [fetched, fetched]
      omega
    have hselects := (selects_datetimeBoundary hplanned.writable.1 hplanned.writable.2).mpr
      ⟨hreads, hbounds⟩
    rw [List.map_singleton, List.countP_singleton, if_pos hselects]

variable {chunk : Int × Int} {next : Int} {rest : List (Int × Int)}

/-- A chunk that is not the last leaves keys out: the greatest one, or one a minute later. -/
theorem not_coveredBy_of_stop {stop : Int} (hstop : stop < fetched keys.hi)
    (hplanned : ∀ c ∈ (fetched keys.lo, stop) :: rest, Planned keys c)
    (hrest : rest = [] ∨ stop + dayMicros ≤ fetched keys.hi ∧ ∀ c ∈ rest, stop + dayMicros ≤ c.1)
    (h : CoveredBy keys ((fetched keys.lo, stop) :: rest)) (hlo : keys.lo ≤ 10 * stop) :
    False := by
  have hhi : 10 * fetched keys.hi ≤ keys.hi := by
    rw [fetched]
    omega
  rcases hrest with rfl | ⟨hnext, hafter⟩
  · obtain ⟨c, hc, -, -, hle⟩ := h.exists_chunk hplanned keys.hiHeld keys.ordered le_rfl
    obtain rfl := List.mem_singleton.mp hc
    dsimp only at hle
    omega
  · have hheld := Holds.addMinutes (hplanned _ List.mem_cons_self).2.2.2.2 1
    rw [dayMicros] at hnext
    rw [one_mul, minuteUnits] at hheld
    dsimp only at hheld
    obtain ⟨c, hc, -, hstart, hle⟩ := h.exists_chunk hplanned hheld (by omega) (by omega)
    rcases List.mem_cons.mp hc with rfl | hc
    · dsimp only at hle
      omega
    · have hlater := hafter c hc
      rw [dayMicros] at hlater
      omega

theorem oneStep_of_coveredBy
    (hchunk : datetimeChunk chunkSize (fetched keys.hi) (fetched keys.lo) = .ok (chunk, next))
    (hplanned : ∀ c ∈ chunk :: rest, Planned keys c)
    (hrest : rest = [] ∨ next ≤ fetched keys.hi ∧ ∀ c ∈ rest, next ≤ c.1)
    (h : CoveredBy keys (chunk :: rest)) :
    OneStep chunkSize (fetched keys.lo) (fetched keys.hi) := by
  obtain ⟨-, hordered, -⟩ := keys.fetched_bounds
  obtain ⟨rfl, rfl, hmax, hlast⟩ := (datetimeChunk_eq_ok_iff chunkSize).mp hchunk
  dsimp only at hlast hrest
  by_cases hspan : fetched keys.hi - fetched keys.lo ≤ stepDays chunkSize * dayMicros
  · rw [min_eq_right (by omega)] at hlast
    exact ⟨hspan, hmax, hlast⟩
  · have hstep : 1 ≤ stepDays chunkSize := le_max_left _ _
    rw [min_eq_left (by omega)] at h hplanned hrest
    refine (not_coveredBy_of_stop (by omega) hplanned hrest h ?_).elim
    rw [fetched, dayMicros]
    omega

theorem coveredBy_iff
    (hchunk : datetimeChunk chunkSize (fetched keys.hi) (fetched keys.lo) = .ok (chunk, next))
    (hplanned : ∀ c ∈ chunk :: rest, Planned keys c)
    (hrest : rest = [] ∨ next ≤ fetched keys.hi ∧ ∀ c ∈ rest, next ≤ c.1) :
    CoveredBy keys (chunk :: rest) ↔ FitsColumn chunkSize keys := by
  have hsingle : OneStep chunkSize (fetched keys.lo) (fetched keys.hi) →
      chunk :: rest = [(fetched keys.lo, fetched keys.hi)] := by
    intro hstep
    rw [oneStep_iff.mp hstep] at hchunk
    cases hchunk
    rcases hrest with rfl | ⟨hnext, -⟩
    · rfl
    · rw [dayMicros] at hnext
      omega
  constructor
  · intro h
    have hstep := oneStep_of_coveredBy hchunk hplanned hrest h
    rw [hsingle hstep] at h
    exact ⟨hstep, coveredBy_single_iff.mp h⟩
  · rintro ⟨hstep, hfits⟩
    rw [hsingle hstep]
    exact coveredBy_single_iff.mpr hfits

theorem datetimeLoop_iff :
    (∃ chunks, datetimeLoop chunkSize (fetched keys.hi) (fetched keys.lo) = .ok chunks ∧
        CoveredBy keys chunks) ↔
      FitsColumn chunkSize keys := by
  have hdays : ∀ t n, keys.type.Holds (10 * t) → keys.type.Holds (10 * (t + n * dayMicros)) :=
    fun t n h => Holds.addDays h n
  have hend := Holds.fetched keys.hiHeld
  have hordered := keys.fetched_bounds.2.1
  constructor
  · rintro ⟨chunks, hloop, hone⟩
    have hplanned := datetimeLoop_bounds hdays hend (Holds.fetched keys.loHeld) hordered hloop
    obtain ⟨chunk, next, rest, hchunk, rfl, hrest⟩ := datetimeLoop_eq_ok hordered hloop
    refine (coveredBy_iff hchunk hplanned (hrest.imp_right ?_)).mp hone
    rintro ⟨hnext, hloop⟩
    have hheld := (datetimeChunk_bounds (P := fun t => keys.type.Holds (10 * t)) hdays hend
      (Holds.fetched keys.loHeld) hordered hchunk).2
    exact ⟨hnext, fun c hc => (datetimeLoop_bounds hdays hend hheld hnext hloop c hc).1⟩
  · rintro ⟨hstep, hfits⟩
    exact ⟨_, datetimeLoop_of_oneStep hordered hstep, coveredBy_single_iff.mpr hfits⟩

theorem textLoop_iff {loText hiText : String}
    (hlo : fromIsoformat loText = some (fetched keys.lo))
    (hhi : fromIsoformat hiText = some (fetched keys.hi)) :
    (∃ chunks, textLoop chunkSize loText hiText = .ok chunks ∧ CoveredBy keys chunks) ↔
      loText ≤ hiText ∧ FitsColumn chunkSize keys := by
  rw [textLoop, hlo, hhi]
  dsimp only
  constructor
  · rintro ⟨chunks, hloop, hone⟩
    split at hloop
    · next htexts =>
        refine ⟨htexts, ?_⟩
        split at hloop
        · cases hloop
        · next chunk next hchunk =>
            split at hloop
            · cases hloop
              refine (coveredBy_iff hchunk (List.forall_mem_singleton.mpr ?_) (Or.inl rfl)).mp hone
              exact (datetimeChunk_bounds (P := fun t => keys.type.Holds (10 * t))
                (fun t n h => Holds.addDays h n) (Holds.fetched keys.hiHeld)
                (Holds.fetched keys.loHeld) keys.fetched_bounds.2.1 hchunk).1
            · cases hloop
    · cases hloop
      cases hone keys.lo keys.loHeld le_rfl keys.ordered
  · rintro ⟨htexts, hstep, hfits⟩
    have hafter : fetched keys.hi + dayMicros > fetched keys.hi := by
      rw [dayMicros]
      omega
    rw [if_pos htexts, oneStep_iff.mp hstep]
    exact ⟨_, if_pos hafter, coveredBy_single_iff.mpr hfits⟩

/-- The chunks of a plan of datetimes, before they are written as texts. -/
theorem covers_iff_coveredBy {range : KeyRange} {plan : Except PlanError (List (Int × Int))}
    (htype : range.type = some keys.type) (hlo : range.lo = keys.lo) (hhi : range.hi = keys.hi)
    (hplan : generateRanges chunkSize range = plan.map (List.map datetimeBoundary)) :
    Covers chunkSize range ↔ ∃ chunks, plan = .ok chunks ∧ CoveredBy keys chunks := by
  rw [Covers, hplan, htype, hlo, hhi]
  constructor
  · rintro ⟨chunks, heq, hone⟩
    cases plan with
    | error e => cases heq
    | ok ranges =>
        cases heq
        refine ⟨ranges, rfl, fun key hheld => hone key ?_⟩
        intro type htype
        cases htype
        exact hheld
  · rintro ⟨ranges, rfl, hone⟩
    exact ⟨_, rfl, fun key hheld => hone key (hheld keys.type rfl)⟩

/-- Every key of the range is in exactly one chunk exactly when the keys are integers, or datetimes
that fit in one step and whose ends the column reads as they are. -/
theorem covers_iff (chunkSize : Int) (range : KeyRange) :
    Covers chunkSize range ↔ FitsPlanner chunkSize range := by
  cases range with
  | integers lo hi hle => exact iff_of_true (covers_integers chunkSize hle) trivial
  | datetimes keys => exact (covers_iff_coveredBy rfl rfl rfl rfl).trans datetimeLoop_iff
  | texts keys loText hiText hlo hhi =>
      exact (covers_iff_coveredBy rfl rfl rfl rfl).trans (textLoop_iff hlo hhi)

/-- Two days of a `datetime2(6)`: the keys of the second day but its first instant are in no
chunk. -/
def twoDays : DatetimeKeys where
  type := .datetime2 6
  lo := 0
  hi := 10 * (2 * dayMicros)
  nonneg := le_rfl
  ordered := by decide
  bounded := by decide
  loHeld := dvd_zero _
  hiHeld := ⟨2 * dayMicros, rfl⟩

theorem two_days_not_covered : ¬ Covers 1000 (.datetimes twoDays) := by
  intro h
  obtain ⟨hstep, -⟩ := datetimeLoop_iff.mp ((covers_iff_coveredBy rfl rfl rfl rfl).mp h)
  exact absurd hstep.1 (by decide)

end Coverage

end SqlOptima.RangePlanning
