import SqlOptima.BoundaryCount
import SqlOptima.DateArithmetic

namespace SqlOptima.DatediffCounts

open CivilMonth PostgresTime BoundaryCount DateArithmetic

section Units

theorem toUpper_toLower (s : String) : s.toLower.toUpper = s.toUpper := by
  apply String.ext
  simp [String.toUpper, String.toLower, String.toList_map]

theorem toLower_toUpper (s : String) : s.toUpper.toLower = s.toLower := by
  apply String.ext
  simp [String.toUpper, String.toLower, String.toList_map]

/-- The names as the converters that look up capitals see them. -/
def capitalNames : List (String × DatePart) :=
  [("YEAR", .year), ("YY", .year), ("YYYY", .year),
    ("QUARTER", .quarter), ("QQ", .quarter), ("Q", .quarter),
    ("MONTH", .month), ("MM", .month), ("M", .month),
    ("DAYOFYEAR", .dayofyear), ("DY", .dayofyear),
    ("DAY", .day), ("DD", .day), ("D", .day),
    ("WEEK", .week), ("WK", .week), ("WW", .week),
    ("WEEKDAY", .weekday), ("DW", .weekday),
    ("HOUR", .hour), ("HH", .hour),
    ("MINUTE", .minute), ("MI", .minute), ("N", .minute),
    ("SECOND", .second), ("SS", .second), ("S", .second),
    ("MILLISECOND", .millisecond), ("MS", .millisecond),
    ("MICROSECOND", .microsecond), ("MCS", .microsecond)]

/-- What the maps hold for the names of a part. -/
def dpEntry : DatePart → Option String
  | .year => some "YEAR"
  | .quarter => some "QUARTER"
  | .month => some "MONTH"
  | .dayofyear => some "DOY"
  | .day => some "DAY"
  | .week => some "WEEK"
  | .weekday => some "DOW"
  | .hour => some "HOUR"
  | .minute => some "MINUTE"
  | .second => some "SECOND"
  | .millisecond => some "MILLISECONDS"
  | .microsecond => none

def unitEntry : DatePart → Option String
  | .year => some "year"
  | .month => some "month"
  | .day => some "day"
  | .week => some "week"
  | .hour => some "hour"
  | .minute => some "minute"
  | .second => some "second"
  | .quarter | .dayofyear | .weekday | .millisecond | .microsecond => none

def dateaddEntry : DatePart → Option String
  | .quarter => some "quarter"
  | .millisecond => some "millisecond"
  | part => unitEntry part

def intervalEntry : DatePart → Option String
  | .year => some "YEAR"
  | .quarter | .month => some "MONTH"
  | .day => some "DAY"
  | .week => some "WEEK"
  | .hour => some "HOUR"
  | .minute => some "MINUTE"
  | .second => some "SECOND"
  | .millisecond => some "MILLISECONDS"
  | .microsecond => some "MICROSECONDS"
  | .dayofyear | .weekday => none

/-- The names of a part in capitals. -/
def capitalsOf : DatePart → List String
  | .year => ["YEAR", "YY", "YYYY"]
  | .quarter => ["QUARTER", "QQ", "Q"]
  | .month => ["MONTH", "MM", "M"]
  | .dayofyear => ["DAYOFYEAR", "DY"]
  | .day => ["DAY", "DD", "D"]
  | .week => ["WEEK", "WK", "WW"]
  | .weekday => ["WEEKDAY", "DW"]
  | .hour => ["HOUR", "HH"]
  | .minute => ["MINUTE", "MI", "N"]
  | .second => ["SECOND", "SS", "S"]
  | .millisecond => ["MILLISECOND", "MS"]
  | .microsecond => ["MICROSECOND", "MCS"]

/-- The tables of names against each other. -/
structure NameTables : Prop where
  capitals : datePartNames.map (fun p => (p.1.toUpper, p.2)) = capitalNames
  nodup : (capitalNames.map Prod.fst).Nodup
  capitalsOf (q : DatePart) : capitalsOf q = (capitalNames.filter (·.2 = q)).map Prod.fst
  bodyPart : ∀ p ∈ datePartNames, dpMap.lookup p.1 = dpEntry p.2
  bodyUnit : ∀ p ∈ datePartNames, unitMap.lookup p.1 = unitEntry p.2
  converterUnit : ∀ p ∈ capitalNames, dateaddUnitMap.lookup p.1 = dateaddEntry p.2
  interval : ∀ p ∈ capitalNames, intervalMap.lookup p.1 = intervalEntry p.2

theorem nameTables : NameTables where
  capitals := by decide +kernel
  nodup := by decide +kernel
  capitalsOf q := by cases q <;> rfl
  bodyPart := by decide +kernel
  bodyUnit := by decide +kernel
  converterUnit := by decide +kernel
  interval := by decide +kernel

def capitalName : DatePart → String
  | .year => "YEAR"
  | .quarter => "QUARTER"
  | .month => "MONTH"
  | .dayofyear => "DAYOFYEAR"
  | .day => "DAY"
  | .week => "WEEK"
  | .weekday => "WEEKDAY"
  | .hour => "HOUR"
  | .minute => "MINUTE"
  | .second => "SECOND"
  | .millisecond => "MILLISECOND"
  | .microsecond => "MICROSECOND"

/-- What the server reads of the fields that the converters extract. -/
structure FieldNames : Prop where
  year : unitOf "YEAR" = some .year
  quarter : unitOf "QUARTER" = some .quarter
  month : unitOf "MONTH" = some .month
  week : unitOf "WEEK" = some .week
  hour : unitOf "HOUR" = some .hour
  minute : unitOf "MINUTE" = some .minute
  second : unitOf "SECOND" = some .second
  millisecond : unitOf "MILLISECOND" = some .millisecond
  milliseconds : unitOf "MILLISECONDS" = some .millisecond
  dayofyear : unitOf "DOY" = none
  weekday : unitOf "DOW" = none
  microsecond : unitOf "microsecond".toUpper = some .microsecond
  mcs : unitOf "mcs".toUpper = none
  unread : ∀ p ∈ datePartNames, p.2 = .dayofyear ∨ p.2 = .weekday → unitOf p.1.toUpper = none
  notEpoch : ∀ p ∈ datePartNames, p.1.toUpper.toList.map Char.toLower ≠ "epoch".toList
  notMapped : ∀ p ∈ datePartNames, p.2 = .microsecond →
    p.1.toUpper ∉ ["SECOND", "MINUTE", "HOUR", "DAY", "YEAR", "MONTH"]
  upper : ∀ part ∈ capitalNames.map Prod.snd, (dateaddEntry part).all fun n =>
    n.toUpper = capitalName part

theorem fieldNames : FieldNames := by
  constructor <;> decide +kernel

variable {unit : String} {part : DatePart}

theorem mem_datePartNames (h : datePartOf unit = some part) :
    (unit.toLower, part) ∈ datePartNames := by
  obtain ⟨before, after, hlist, -⟩ := List.lookup_eq_some_iff.mp h
  rw [hlist]
  exact List.mem_append_right _ List.mem_cons_self

theorem mem_capitalNames (h : datePartOf unit = some part) :
    (unit.toUpper, part) ∈ capitalNames := by
  rw [← NameTables.capitals nameTables, ← toUpper_toLower]
  exact List.mem_map_of_mem (mem_datePartNames h)

theorem bodyPart_eq (h : datePartOf unit = some part) :
    bodyPart unit = (dpEntry part).getD unit.toLower.toUpper := by
  rw [bodyPart, NameTables.bodyPart nameTables _ (mem_datePartNames h)]

theorem bodyUnit_eq (h : datePartOf unit = some part) :
    bodyUnit unit = (unitEntry part).getD unit.toLower := by
  rw [bodyUnit, NameTables.bodyUnit nameTables _ (mem_datePartNames h)]

theorem converterUnit_eq (h : datePartOf unit = some part) :
    converterUnit unit = (dateaddEntry part).getD unit.toLower := by
  rw [converterUnit, NameTables.converterUnit nameTables _ (mem_capitalNames h), toLower_toUpper]

theorem datepartToInterval_eq (h : datePartOf unit = some part) :
    datepartToInterval unit = (intervalEntry part).getD unit.toUpper := by
  rw [datepartToInterval, NameTables.interval nameTables _ (mem_capitalNames h)]

end Units

section Differences

variable {session : Session} {start stop : String} {s t r : Int} {e : Expr} {v : Value}

def EvaluatesTo (session : Session) (e : Expr) (n : Int) : Prop :=
  ∃ v, eval session e = .ok v ∧ v.isInt n

theorem evaluatesTo_iff (h : eval session e = .ok v) : EvaluatesTo session e r ↔ v.isInt r := by
  constructor
  · rintro ⟨w, hw, hr⟩
    rw [h] at hw
    cases hw
    exact hr
  · intro hr
    exact ⟨v, h, hr⟩

theorem not_evaluatesTo {error : PgError} (h : eval session e = .error error) :
    ¬ EvaluatesTo session e r := by
  rintro ⟨w, hw, -⟩
  rw [h] at hw
  cases hw

theorem eval_difference (hs : session.columns start = .timestamp s)
    (ht : session.columns stop = .timestamp t) :
    eval session (.sub (.column stop) (.column start)) = .ok (.interval (difference t s)) := by
  simp [eval, hs, ht, Except.bind, Value.sub]

theorem eval_zoned (hs : session.columns start = .timestamp s)
    (ht : session.columns stop = .timestamp t) :
    eval session (.sub (.cast .timestamptz (.column stop)) (.cast .timestamptz (.column start))) =
      .ok (.interval (difference (session.toUtc t) (session.toUtc s))) := by
  simp [eval, hs, ht, Except.bind, Value.cast, Value.sub]

theorem epoch_difference : epoch (difference t s) = (t - s : Int) / 1000000 := by
  have hsplit := Int.tmod_add_mul_tdiv (t - s) 86400000000
  have hcast : (((t - s).tmod 86400000000 : Int) : ℚ) +
      86400000000 * ((t - s).tdiv 86400000000 : Int) = (t - s : Int) := by
    exact_mod_cast hsplit
  unfold epoch difference usecsPerDay
  simp only
  rw [← hcast]
  simp
  ring

theorem intervalPart_epoch (i : Interval) : intervalPart "EPOCH" i = .ok (epoch i) :=
  if_pos (by decide)

theorem intervalPart_of_unit {f : String} {u : IntervalUnit} (i : Interval)
    (hfield : f.toList.map Char.toLower ≠ "epoch".toList) (hu : unitOf f = some u) :
    intervalPart f i = unitPart i u := by
  rw [intervalPart, if_neg hfield, hu]

theorem intervalPart_of_none {f : String} (i : Interval)
    (hfield : f.toList.map Char.toLower ≠ "epoch".toList) (hu : unitOf f = none) :
    intervalPart f i = .error .unsupportedField := by
  rw [intervalPart, if_neg hfield, hu]

theorem eval_extract {f : String} {i : Interval} (he : eval session e = .ok (.interval i)) :
    eval session (.extract f e) = (intervalPart f i).map .numeric := by
  simp [eval, he, Except.bind, Value.extract]

theorem eval_div {q : ℚ} {k : Int} (hk : k ≠ 0) (he : eval session e = .ok (.numeric q)) :
    eval session (.div e (.integer k)) = .ok (.numeric (q / k)) := by
  simp [eval, he, Except.bind, Value.div, hk]

/-- A number of seconds or more, cast to an integer. -/
theorem evaluatesTo_rounded {u d : Int} (hu : 0 < u)
    (he : eval session e = .ok (.numeric ((d : ℚ) / u))) (hr : inInt32 r = true) :
    EvaluatesTo session (.cast .bigint e) r ↔ RoundsTo u d r := by
  have hcast : eval session (.cast .bigint e) =
      if inInt64 (roundHalfAway ((d : ℚ) / u)) then
        .ok (.integer (roundHalfAway ((d : ℚ) / u))) else .error .outOfRange := by
    simp [eval, he, Except.bind, Value.cast]
  rw [← roundHalfAway_eq_iff hu]
  constructor
  · rintro ⟨v, hv, hint⟩
    rw [hcast] at hv
    split at hv
    · cases hv
      exact hint
    · cases hv
  · intro hround
    have hrange : inInt64 r = true := by
      simp only [inInt32, inInt64, Bool.and_eq_true, decide_eq_true_eq] at hr ⊢
      omega
    refine ⟨.integer r, ?_, rfl⟩
    rw [hcast, hround, if_pos hrange]

end Differences

section Conditions

variable (session : Session) (s t : Int)

/-- How much further the stop is in its unit than the start, by the clock of the session's zone. -/
def lead (u : Int) : Int :=
  t % u - s % u + ((session.toUtc t - t) - (session.toUtc s - s))

/-- The two times stand less than half a unit apart in their units, or half a unit apart with the
later one behind. -/
def LeadUnderHalf (u : Int) : Prop :=
  2 * |lead session s t u| < u ∨
    2 * lead session s t u = u ∧ session.toUtc t < session.toUtc s ∨
      2 * lead session s t u = -u ∧ session.toUtc s < session.toUtc t

theorem roundsTo_crossed_iff (u : Int) :
    RoundsTo u (session.toUtc t - session.toUtc s) (crossed u s t) ↔
      LeadUnderHalf session s t u := by
  have hsub := sub_eq_crossed u s t
  have hlead : session.toUtc t - session.toUtc s - crossed u s t * u = lead session s t u := by
    unfold lead
    omega
  unfold RoundsTo LeadUnderHalf
  rw [hlead, sub_neg, sub_pos]

/-- When the expression that a converter emits for `DATEDIFF` counts the boundaries. -/
def CountsBoundaries (unit : String) : Converter → DatePart → Prop
  | .bodyTransform, .year => LaterAhead sinceYear s t
  | .bodyTransform, .month => LaterAhead sinceMonth s t
  | .bodyTransform, .day => LeadUnderHalf session s t usecsPerDay
  | .bodyTransform, .hour => LeadUnderHalf session s t usecsPerHour
  | .bodyTransform, .minute => LeadUnderHalf session s t usecsPerMinute
  | .bodyTransform, .second => LeadUnderHalf session s t usecsPerSec
  | .dateAddConverter, .year => monthOf (dayNumber s) / 12 = monthOf (dayNumber t) / 12
  | .dateAddConverter, .month => monthOf (dayNumber s) = monthOf (dayNumber t)
  | .dateAddConverter, .day => True
  | .dateAddConverter, .hour => |t - s| < usecsPerDay ∧ LaterAhead (· % usecsPerHour) s t
  | .dateAddConverter, .minute => |t - s| < usecsPerHour ∧ LaterAhead (· % usecsPerMinute) s t
  | .dateAddConverter, .second => |t - s| < usecsPerMinute ∧ s % usecsPerSec = t % usecsPerSec
  | .bodyTransform, .quarter | .dateAddConverter, .quarter =>
      monthOf (dayNumber t) / 3 = monthOf (dayNumber s) / 3 + 1
  | .bodyTransform, .millisecond | .dateAddConverter, .millisecond =>
      |t - s| < usecsPerMinute ∧ s % 1000 = t % 1000
  | .bodyTransform, .microsecond | .dateAddConverter, .microsecond =>
      unit.toLower = "microsecond" ∧ |t - s| < usecsPerMinute
  | .bodyTransform, .dayofyear | .bodyTransform, .week | .bodyTransform, .weekday => False
  | .dateAddConverter, .dayofyear | .dateAddConverter, .week | .dateAddConverter, .weekday => False
  | .tsqlExpressionConverter, .year | .tsqlExpressionConverter, .month => True
  | .tsqlExpressionConverter, .day => True
  | .tsqlExpressionConverter, .week =>
      LaterAhead (· % 7) (dayNumber s + 1) (dayNumber t + 1)
  | .tsqlExpressionConverter, .hour => s % usecsPerHour = t % usecsPerHour
  | .tsqlExpressionConverter, .minute => s % usecsPerMinute = t % usecsPerMinute
  | .tsqlExpressionConverter, .second => s % usecsPerSec = t % usecsPerSec
  | .tsqlExpressionConverter, .millisecond => s % 1000 = t % 1000
  | .tsqlExpressionConverter, .quarter | .tsqlExpressionConverter, .dayofyear => False
  | .tsqlExpressionConverter, .weekday | .tsqlExpressionConverter, .microsecond => False

end Conditions

section Datediff

variable {session : Session} {unit start stop : String} {part : DatePart} {s t r : Int}

theorem microsecond_names (h : datePartOf unit = some .microsecond) :
    unit.toLower = "microsecond" ∨ unit.toLower = "mcs" := by
  have hmem := mem_datePartNames h
  simpa [datePartNames] using hmem

theorem evaluatesTo_extract {f : String} {u : IntervalUnit} {q : ℚ}
    (hs : session.columns start = .timestamp s) (ht : session.columns stop = .timestamp t)
    (hfield : f.toList.map Char.toLower ≠ "epoch".toList) (hu : unitOf f = some u)
    (hq : unitPart (difference t s) u = .ok q) :
    EvaluatesTo session (.extract f (.sub (.column stop) (.column start))) r ↔ q = r := by
  have heval := eval_extract (f := f) (eval_difference hs ht)
  rw [intervalPart_of_unit _ hfield hu, hq] at heval
  exact evaluatesTo_iff heval

theorem not_evaluatesTo_extract {f : String}
    (hs : session.columns start = .timestamp s) (ht : session.columns stop = .timestamp t)
    {error : PgError} (herror : intervalPart f (difference t s) = .error error) :
    ¬ EvaluatesTo session (.extract f (.sub (.column stop) (.column start))) r := by
  have heval := eval_extract (f := f) (eval_difference hs ht)
  rw [herror] at heval
  exact not_evaluatesTo heval

/-- The quarter of an interval without months is 1. -/
theorem quarter_iff (hs : session.columns start = .timestamp s)
    (ht : session.columns stop = .timestamp t) :
    EvaluatesTo session (.extract "QUARTER" (.sub (.column stop) (.column start))) r ↔ r = 1 := by
  rw [evaluatesTo_extract hs ht (u := .quarter) (by decide) (FieldNames.quarter fieldNames) rfl]
  simp only [difference, Int.zero_tmod, Int.zero_tdiv, Int.zero_add]
  constructor
  · intro h
    exact_mod_cast h.symm
  · rintro rfl
    rfl

/-- The part of an elapsed time below a minute, counted in units of it. -/
theorem below_minute_iff {u : Int} (hu : 0 < u) (hminute : u ≤ usecsPerMinute) :
    (((difference t s).usecs.tmod usecsPerMinute : Int) : ℚ) / u = (crossed u s t : Int) ↔
      |t - s| < usecsPerMinute ∧ s % u = t % u := by
  have hu' : (u : ℚ) ≠ 0 := by exact_mod_cast hu.ne'
  have hmod : (difference t s).usecs.tmod usecsPerMinute = (t - s).tmod usecsPerMinute :=
    Int.tmod_tmod_of_dvd _ (by decide)
  rw [hmod, div_eq_iff hu', ← tmod_eq_crossed_iff hu hminute]
  exact_mod_cast Iff.rfl

theorem millisecond_iff {f : String} (hs : session.columns start = .timestamp s)
    (ht : session.columns stop = .timestamp t)
    (hfield : f.toList.map Char.toLower ≠ "epoch".toList)
    (hu : unitOf f = some .millisecond) :
    EvaluatesTo session (.extract f (.sub (.column stop) (.column start)))
        (crossed 1000 s t) ↔ |t - s| < usecsPerMinute ∧ s % 1000 = t % 1000 := by
  rw [evaluatesTo_extract hs ht hfield hu rfl]
  exact below_minute_iff (by decide) (by decide)

theorem microsecond_iff (hs : session.columns start = .timestamp s)
    (ht : session.columns stop = .timestamp t) (hunit : datePartOf unit = some .microsecond) :
    EvaluatesTo session (.extract unit.toLower.toUpper (.sub (.column stop) (.column start)))
        (t - s) ↔ unit.toLower = "microsecond" ∧ |t - s| < usecsPerMinute := by
  rcases microsecond_names hunit with hname | hname
  · have hepoch := FieldNames.notEpoch fieldNames _ (mem_datePartNames hunit)
    simp only [hname] at hepoch
    rw [hname, evaluatesTo_extract hs ht hepoch (FieldNames.microsecond fieldNames) rfl]
    have hbelow := below_minute_iff (s := s) (t := t) (u := 1) (by decide) (by decide)
    simp only [crossed, Int.ediv_one, Int.emod_one, Int.cast_one, div_one, and_true] at hbelow
    rw [hbelow]
    simp
  · have hepoch := FieldNames.notEpoch fieldNames _ (mem_datePartNames hunit)
    simp only [hname] at hepoch
    rw [hname]
    have herror : intervalPart "mcs".toUpper (difference t s) = .error .unsupportedField :=
      intervalPart_of_none _ hepoch (FieldNames.mcs fieldNames)
    exact iff_of_false (not_evaluatesTo_extract hs ht herror) (fun h => absurd h.1 (by decide))

theorem numeric_isInt (q : ℚ) (n : Int) : (Value.numeric q).isInt n ↔ q = n := Iff.rfl

theorem eval_age (hs : session.columns start = .timestamp s)
    (ht : session.columns stop = .timestamp t) :
    eval session (.age (.column stop) (.column start)) = .ok (.interval (age t s)) := by
  simp [eval, hs, ht, Except.bind, Value.age]

theorem intervalPart_year (i : Interval) :
    intervalPart "YEAR" i = .ok (i.months.tdiv 12 : Int) :=
  intervalPart_of_unit (u := .year) i (by decide) (FieldNames.year fieldNames)

theorem intervalPart_month (i : Interval) :
    intervalPart "MONTH" i = .ok (i.months.tmod 12 : Int) :=
  intervalPart_of_unit (u := .month) i (by decide) (FieldNames.month fieldNames)

theorem age_year_counts (hs : session.columns start = .timestamp s)
    (ht : session.columns stop = .timestamp t) :
    EvaluatesTo session (.extract "YEAR" (.age (.column stop) (.column start)))
        (monthOf (dayNumber t) / 12 - monthOf (dayNumber s) / 12) ↔ LaterAhead sinceYear s t := by
  have heval := eval_extract (f := "YEAR") (eval_age hs ht)
  rw [intervalPart_year] at heval
  rw [evaluatesTo_iff heval, numeric_isInt, Int.cast_inj, age_years_iff]

theorem age_month_counts (hs : session.columns start = .timestamp s)
    (ht : session.columns stop = .timestamp t) :
    EvaluatesTo session
        (.add (.mul (.extract "YEAR" (.age (.column stop) (.column start))) (.integer 12))
          (.extract "MONTH" (.age (.column stop) (.column start))))
        (monthOf (dayNumber t) - monthOf (dayNumber s)) ↔ LaterAhead sinceMonth s t := by
  have heval : eval session
      (.add (.mul (.extract "YEAR" (.age (.column stop) (.column start))) (.integer 12))
        (.extract "MONTH" (.age (.column stop) (.column start)))) =
      .ok (.numeric ((age t s).months : Int)) := by
    have hsplit := Int.tmod_add_mul_tdiv (age t s).months 12
    have hcast : (((age t s).months.tdiv 12 : Int) : ℚ) * 12 + ((age t s).months.tmod 12 : Int) =
        (age t s).months := by
      rw [add_comm, mul_comm]
      exact_mod_cast hsplit
    simp [eval, hs, ht, Except.bind, Except.map, Value.age, Value.extract, Value.add, Value.mul,
      intervalPart_year, intervalPart_month, hcast]
  rw [evaluatesTo_iff heval, numeric_isInt, Int.cast_inj, age_months_iff]

theorem div_seconds (d k : Int) : (d : ℚ) / 1000000 / k = d / (k * usecsPerSec : Int) := by
  rw [div_div]
  unfold usecsPerSec
  push_cast
  rw [mul_comm]

/-- The rounded length, in units of `k` seconds. -/
theorem rounded_counts {k : Int} (hk : 0 < k) (hs : session.columns start = .timestamp s)
    (ht : session.columns stop = .timestamp t)
    (hr : inInt32 (crossed (k * usecsPerSec) s t) = true) :
    EvaluatesTo session
        (.cast .bigint (.div (.extract "EPOCH"
          (.sub (.cast .timestamptz (.column stop)) (.cast .timestamptz (.column start))))
          (.integer k)))
        (crossed (k * usecsPerSec) s t) ↔ LeadUnderHalf session s t (k * usecsPerSec) := by
  have hextract := eval_extract (f := "EPOCH") (eval_zoned hs ht)
  rw [intervalPart_epoch, epoch_difference] at hextract
  have heval := eval_div hk.ne' hextract
  rw [div_seconds] at heval
  rw [evaluatesTo_rounded (mul_pos hk (by decide)) heval hr, roundsTo_crossed_iff]

/-- Seconds are not divided. -/
theorem rounded_seconds_count (hs : session.columns start = .timestamp s)
    (ht : session.columns stop = .timestamp t)
    (hr : inInt32 (crossed usecsPerSec s t) = true) :
    EvaluatesTo session
        (.cast .bigint (.extract "EPOCH"
          (.sub (.cast .timestamptz (.column stop)) (.cast .timestamptz (.column start)))))
        (crossed usecsPerSec s t) ↔ LeadUnderHalf session s t usecsPerSec := by
  have hextract := eval_extract (f := "EPOCH") (eval_zoned hs ht)
  rw [intervalPart_epoch, epoch_difference] at hextract
  rw [evaluatesTo_rounded (u := usecsPerSec) (by decide) hextract hr, roundsTo_crossed_iff]

theorem bodyDatediff_extract {f : String} (hpart : bodyPart unit = f)
    (hfield : f ∉ ["SECOND", "MINUTE", "HOUR", "DAY", "YEAR", "MONTH"]) :
    bodyDatediff unit start stop = .extract f (.sub (.column stop) (.column start)) := by
  simp only [List.mem_cons, not_or] at hfield
  obtain ⟨hsecond, hminute, hhour, hday, hyear, hmonth, -⟩ := hfield
  unfold bodyDatediff
  rw [hpart]
  simp only [hsecond, hminute, hhour, hday, hyear, hmonth, if_false]

/-- The server cannot extract a week, a day of the year or of the week from an interval. -/
theorem not_bodyDatediff {f : String} {error : PgError} (hpart : bodyPart unit = f)
    (hfield : f ∉ ["SECOND", "MINUTE", "HOUR", "DAY", "YEAR", "MONTH"])
    (hs : session.columns start = .timestamp s) (ht : session.columns stop = .timestamp t)
    (herror : ∀ i, intervalPart f i = .error error) :
    ¬ EvaluatesTo session (bodyDatediff unit start stop) r := by
  rw [bodyDatediff_extract hpart hfield]
  exact not_evaluatesTo_extract hs ht (herror _)

theorem bodyDatediff_counts (hunit : datePartOf unit = some part)
    (hs : session.columns start = .timestamp s) (ht : session.columns stop = .timestamp t)
    (hr : inInt32 (boundary part t - boundary part s) = true) :
    EvaluatesTo session (bodyDatediff unit start stop) (boundary part t - boundary part s) ↔
      CountsBoundaries session s t unit .bodyTransform part := by
  have hpart := bodyPart_eq hunit
  cases part with
  | year =>
      simp only [bodyDatediff, hpart, dpEntry, Option.getD_some, String.reduceEq, reduceIte]
      exact age_year_counts hs ht
  | quarter =>
      rw [bodyDatediff_extract (f := "QUARTER") hpart (by decide), quarter_iff hs ht]
      simp only [boundary, CountsBoundaries]
      omega
  | month =>
      simp only [bodyDatediff, hpart, dpEntry, Option.getD_some, String.reduceEq, reduceIte]
      exact age_month_counts hs ht
  | dayofyear =>
      exact iff_of_false (not_bodyDatediff (f := "DOY") hpart (by decide) hs ht fun i =>
        intervalPart_of_none i (by decide) (FieldNames.dayofyear fieldNames)) id
  | day =>
      simp only [bodyDatediff, hpart, dpEntry, Option.getD_some, String.reduceEq, reduceIte]
      exact rounded_counts (k := 86400) (by decide) hs ht hr
  | week =>
      exact iff_of_false (not_bodyDatediff (f := "WEEK") hpart (by decide) hs ht fun i =>
        intervalPart_of_unit (u := .week) i (by decide) (FieldNames.week fieldNames)) id
  | weekday =>
      exact iff_of_false (not_bodyDatediff (f := "DOW") hpart (by decide) hs ht fun i =>
        intervalPart_of_none i (by decide) (FieldNames.weekday fieldNames)) id
  | hour =>
      simp only [bodyDatediff, hpart, dpEntry, Option.getD_some, String.reduceEq, reduceIte]
      exact rounded_counts (k := 3600) (by decide) hs ht hr
  | minute =>
      simp only [bodyDatediff, hpart, dpEntry, Option.getD_some, String.reduceEq, reduceIte]
      exact rounded_counts (k := 60) (by decide) hs ht hr
  | second =>
      simp only [bodyDatediff, hpart, dpEntry, Option.getD_some, String.reduceEq, reduceIte]
      exact rounded_seconds_count hs ht hr
  | millisecond =>
      rw [bodyDatediff_extract (f := "MILLISECONDS") hpart (by decide)]
      exact millisecond_iff hs ht (by decide) (FieldNames.milliseconds fieldNames)
  | microsecond =>
      have hfield : unit.toLower.toUpper ∉
          ["SECOND", "MINUTE", "HOUR", "DAY", "YEAR", "MONTH"] :=
        FieldNames.notMapped fieldNames _ (mem_datePartNames hunit) rfl
      rw [bodyDatediff_extract hpart hfield]
      exact microsecond_iff hs ht hunit

theorem capital_mem_iff (h : datePartOf unit = some part) (q : DatePart) :
    unit.toUpper ∈ capitalsOf q ↔ part = q := by
  have hmem := mem_capitalNames h
  rw [NameTables.capitalsOf nameTables, List.mem_map]
  constructor
  · rintro ⟨p, hp, hfst⟩
    obtain ⟨hp, hq⟩ := List.mem_filter.mp hp
    have hsame := List.inj_on_of_nodup_map (NameTables.nodup nameTables) hp hmem hfst
    simpa [hsame] using hq
  · rintro rfl
    exact ⟨_, List.mem_filter.mpr ⟨hmem, by simp⟩, rfl⟩

theorem eval_dates (hs : session.columns start = .timestamp s)
    (ht : session.columns stop = .timestamp t) :
    eval session (.sub (.cast .date (.column stop)) (.cast .date (.column start))) =
      .ok (.integer (dayNumber t - dayNumber s)) := by
  simp [eval, hs, ht, Except.bind, Value.cast, Value.sub]

theorem convertDatediff_extract {f : String} (hunit : datePartOf unit = some part)
    (hday : part ≠ .day) (hf : (converterUnit unit).toUpper = f) :
    convertDatediff unit start stop = .extract f (.sub (.column stop) (.column start)) := by
  have hmem : unit.toUpper ∈ ["DAY", "DD", "D"] ↔ part = .day :=
    capital_mem_iff hunit .day
  rw [convertDatediff, if_neg (hmem.not.mpr hday), hf]

theorem not_convertDatediff {f : String} {error : PgError} (hunit : datePartOf unit = some part)
    (hday : part ≠ .day) (hf : (converterUnit unit).toUpper = f)
    (hs : session.columns start = .timestamp s) (ht : session.columns stop = .timestamp t)
    (herror : ∀ i, intervalPart f i = .error error) :
    ¬ EvaluatesTo session (convertDatediff unit start stop) r := by
  rw [convertDatediff_extract hunit hday hf]
  exact not_evaluatesTo_extract hs ht (herror _)

theorem converterField {n : String} (hunit : datePartOf unit = some part)
    (hn : dateaddEntry part = some n) : (converterUnit unit).toUpper = capitalName part := by
  have hupper := FieldNames.upper fieldNames part (List.mem_map_of_mem (mem_capitalNames hunit))
  rw [hn, Option.all_some, decide_eq_true_eq] at hupper
  rw [converterUnit_eq hunit, hn, Option.getD_some, hupper]

theorem converterField_none (hunit : datePartOf unit = some part)
    (hn : dateaddEntry part = none) : (converterUnit unit).toUpper = unit.toLower.toUpper := by
  rw [converterUnit_eq hunit, hn, Option.getD_none]

theorem convertDatediff_counts (hunit : datePartOf unit = some part)
    (hs : session.columns start = .timestamp s) (ht : session.columns stop = .timestamp t) :
    EvaluatesTo session (convertDatediff unit start stop) (boundary part t - boundary part s) ↔
      CountsBoundaries session s t unit .dateAddConverter part := by
  cases part with
  | year =>
      have hf : (converterUnit unit).toUpper = "YEAR" :=
        converterField (n := "year") hunit rfl
      rw [convertDatediff_extract hunit (by decide) hf,
        evaluatesTo_extract hs ht (u := .year) (by decide) (FieldNames.year fieldNames) rfl,
        Int.cast_inj]
      simp only [boundary, difference, Int.zero_tdiv, CountsBoundaries]
      omega
  | quarter =>
      have hf : (converterUnit unit).toUpper = "QUARTER" :=
        converterField (n := "quarter") hunit rfl
      rw [convertDatediff_extract hunit (by decide) hf, quarter_iff hs ht]
      simp only [boundary, CountsBoundaries]
      omega
  | month =>
      have hf : (converterUnit unit).toUpper = "MONTH" :=
        converterField (n := "month") hunit rfl
      rw [convertDatediff_extract hunit (by decide) hf,
        evaluatesTo_extract hs ht (u := .month) (by decide) (FieldNames.month fieldNames) rfl,
        Int.cast_inj]
      simp only [boundary, difference, Int.zero_tmod, CountsBoundaries]
      omega
  | day =>
      have hmem : unit.toUpper ∈ ["DAY", "DD", "D"] ↔ DatePart.day = .day :=
        capital_mem_iff hunit .day
      rw [convertDatediff, if_pos (hmem.mpr rfl), evaluatesTo_iff (eval_dates hs ht)]
      exact iff_of_true rfl trivial
  | week =>
      have hf : (converterUnit unit).toUpper = "WEEK" :=
        converterField (n := "week") hunit rfl
      exact iff_of_false (not_convertDatediff hunit (by decide) hf hs ht fun i =>
        intervalPart_of_unit (u := .week) i (by decide) (FieldNames.week fieldNames)) id
  | hour =>
      have hf : (converterUnit unit).toUpper = "HOUR" :=
        converterField (n := "hour") hunit rfl
      rw [convertDatediff_extract hunit (by decide) hf,
        evaluatesTo_extract hs ht (u := .hour) (by decide) (FieldNames.hour fieldNames) rfl,
        Int.cast_inj]
      exact tdiv_tmod_eq_crossed_iff (by decide) (by decide)
  | minute =>
      have hf : (converterUnit unit).toUpper = "MINUTE" :=
        converterField (n := "minute") hunit rfl
      have hmod : (difference t s).usecs.tmod usecsPerHour = (t - s).tmod usecsPerHour :=
        Int.tmod_tmod_of_dvd _ (by decide)
      rw [convertDatediff_extract hunit (by decide) hf,
        evaluatesTo_extract hs ht (u := .minute) (by decide) (FieldNames.minute fieldNames) rfl,
        Int.cast_inj, hmod]
      exact tdiv_tmod_eq_crossed_iff (by decide) (by decide)
  | second =>
      have hf : (converterUnit unit).toUpper = "SECOND" :=
        converterField (n := "second") hunit rfl
      rw [convertDatediff_extract hunit (by decide) hf,
        evaluatesTo_extract hs ht (u := .second) (by decide) (FieldNames.second fieldNames) rfl]
      exact below_minute_iff (u := usecsPerSec) (by decide) (by decide)
  | millisecond =>
      have hf : (converterUnit unit).toUpper = "MILLISECOND" :=
        converterField (n := "millisecond") hunit rfl
      rw [convertDatediff_extract hunit (by decide) hf]
      exact millisecond_iff hs ht (by decide) (FieldNames.millisecond fieldNames)
  | microsecond =>
      have hf := converterField_none hunit rfl
      rw [convertDatediff_extract hunit (by decide) hf]
      exact microsecond_iff hs ht hunit
  | dayofyear =>
      have hf := converterField_none hunit rfl
      have hmem := mem_datePartNames hunit
      have hepoch := FieldNames.notEpoch fieldNames _ hmem
      have hread := FieldNames.unread fieldNames _ hmem (Or.inl rfl)
      exact iff_of_false (not_convertDatediff hunit (by decide) hf hs ht fun i =>
        intervalPart_of_none i hepoch hread) id
  | weekday =>
      have hf := converterField_none hunit rfl
      have hmem := mem_datePartNames hunit
      have hepoch := FieldNames.notEpoch fieldNames _ hmem
      have hread := FieldNames.unread fieldNames _ hmem (Or.inr rfl)
      exact iff_of_false (not_convertDatediff hunit (by decide) hf hs ht fun i =>
        intervalPart_of_none i hepoch hread) id

/-- The cases of the expression converter, by the part that the unit names. -/
theorem expressionDatediff_eq (hunit : datePartOf unit = some part) :
    let days := Expr.sub (.cast .date (.column stop)) (.cast .date (.column start))
    let elapsed := Expr.sub (.column stop) (.column start)
    let years :=
      Expr.sub (.extractDate .year (.column stop)) (.extractDate .year (.column start))
    let months :=
      Expr.sub (.extractDate .month (.column stop)) (.extractDate .month (.column start))
    expressionDatediff unit start stop =
      if part = .day then days
      else if part = .hour then .div (.extract "EPOCH" elapsed) (.integer 3600)
      else if part = .minute then .div (.extract "EPOCH" elapsed) (.integer 60)
      else if part = .second then .extract "EPOCH" elapsed
      else if part = .millisecond then .mul (.extract "EPOCH" elapsed) (.integer 1000)
      else if part = .year then years
      else if part = .month then .add (.mul years (.integer 12)) months
      else if part = .week then .div days (.integer 7)
      else elapsed := by
  have hday : unit.toUpper ∈ ["DAY", "DD", "D"] ↔ part = .day :=
    capital_mem_iff hunit .day
  have hhour : unit.toUpper ∈ ["HOUR", "HH"] ↔ part = .hour :=
    capital_mem_iff hunit .hour
  have hminute : unit.toUpper ∈ ["MINUTE", "MI", "N"] ↔ part = .minute :=
    capital_mem_iff hunit .minute
  have hsecond : unit.toUpper ∈ ["SECOND", "SS", "S"] ↔ part = .second :=
    capital_mem_iff hunit .second
  have hmilli : unit.toUpper ∈ ["MILLISECOND", "MS"] ↔ part = .millisecond :=
    capital_mem_iff hunit .millisecond
  have hyear : unit.toUpper ∈ ["YEAR", "YY", "YYYY"] ↔ part = .year :=
    capital_mem_iff hunit .year
  have hmonth : unit.toUpper ∈ ["MONTH", "MM", "M"] ↔ part = .month :=
    capital_mem_iff hunit .month
  have hweek : unit.toUpper ∈ ["WEEK", "WK", "WW"] ↔ part = .week :=
    capital_mem_iff hunit .week
  simp only [expressionDatediff, hday, hhour, hminute, hsecond, hmilli, hyear, hmonth, hweek]

theorem eval_epoch (hs : session.columns start = .timestamp s)
    (ht : session.columns stop = .timestamp t) :
    eval session (.extract "EPOCH" (.sub (.column stop) (.column start))) =
      .ok (.numeric ((t - s : Int) / 1000000)) := by
  rw [eval_extract (eval_difference hs ht), intervalPart_epoch, epoch_difference]
  rfl

/-- An exact quotient. -/
theorem quotient_counts {u : Int} (hu : 0 < u) :
    (((t - s : Int) : ℚ) / u = (crossed u s t : Int)) ↔ s % u = t % u := by
  have hu' : (u : ℚ) ≠ 0 := by exact_mod_cast hu.ne'
  have hsub := sub_eq_crossed u s t
  rw [div_eq_iff hu']
  constructor
  · intro h
    have heq : t - s = crossed u s t * u := by exact_mod_cast h
    omega
  · intro h
    have heq : t - s = crossed u s t * u := by omega
    exact_mod_cast heq

theorem expressionDatediff_counts (hunit : datePartOf unit = some part)
    (hs : session.columns start = .timestamp s) (ht : session.columns stop = .timestamp t) :
    EvaluatesTo session (expressionDatediff unit start stop)
        (boundary part t - boundary part s) ↔
      CountsBoundaries session s t unit .tsqlExpressionConverter part := by
  have hepoch := eval_epoch hs ht
  rw [expressionDatediff_eq hunit]
  cases part with
  | day =>
      rw [if_pos rfl, evaluatesTo_iff (eval_dates hs ht)]
      exact iff_of_true rfl trivial
  | hour =>
      simp only [reduceCtorEq, if_false, if_true]
      rw [evaluatesTo_iff (eval_div (by decide) hepoch), numeric_isInt, div_seconds]
      exact quotient_counts (u := 3600 * usecsPerSec) (by decide)
  | minute =>
      simp only [reduceCtorEq, if_false, if_true]
      rw [evaluatesTo_iff (eval_div (by decide) hepoch), numeric_isInt, div_seconds]
      exact quotient_counts (u := 60 * usecsPerSec) (by decide)
  | second =>
      simp only [reduceCtorEq, if_false, if_true]
      rw [evaluatesTo_iff hepoch, numeric_isInt]
      exact quotient_counts (u := usecsPerSec) (by decide)
  | millisecond =>
      have hmul : eval session (.mul (.extract "EPOCH" (.sub (.column stop) (.column start)))
          (.integer 1000)) = .ok (.numeric ((t - s : Int) / (1000 : Int))) := by
        rw [eval, hepoch]
        simp only [eval, Except.bind, Value.mul]
        congr 2
        push_cast
        ring
      simp only [reduceCtorEq, if_false, if_true]
      rw [evaluatesTo_iff hmul, numeric_isInt]
      exact quotient_counts (u := 1000) (by decide)
  | year =>
      have hyears : eval session (.sub (.extractDate .year (.column stop))
          (.extractDate .year (.column start))) = .ok (.numeric
            ((monthOf (dayNumber t) / 12 : Int) - (monthOf (dayNumber s) / 12 : Int))) := by
        simp [eval, hs, ht, Except.bind, Value.extractDate, Value.sub]
      simp only [reduceCtorEq, if_false, if_true]
      rw [evaluatesTo_iff hyears, numeric_isInt]
      exact iff_of_true (Int.cast_sub _ _).symm trivial
  | month =>
      have hmonths : eval session (.add
          (.mul (.sub (.extractDate .year (.column stop)) (.extractDate .year (.column start)))
            (.integer 12))
          (.sub (.extractDate .month (.column stop)) (.extractDate .month (.column start)))) =
          .ok (.numeric ((monthOf (dayNumber t) - monthOf (dayNumber s) : Int) : ℚ)) := by
        have hmonth : (monthOf (dayNumber t) / 12 - monthOf (dayNumber s) / 12) * 12 +
            ((monthOf (dayNumber t) % 12 + 1) - (monthOf (dayNumber s) % 12 + 1)) =
              monthOf (dayNumber t) - monthOf (dayNumber s) := by
          omega
        rw [← hmonth]
        simp [eval, hs, ht, Except.bind, Value.extractDate, Value.sub, Value.mul, Value.add]
      simp only [reduceCtorEq, if_false, if_true]
      rw [evaluatesTo_iff hmonths, numeric_isInt]
      exact iff_of_true rfl trivial
  | week =>
      have hweeks : eval session (.div
          (.sub (.cast .date (.column stop)) (.cast .date (.column start))) (.integer 7)) =
          .ok (.integer ((dayNumber t - dayNumber s).tdiv 7)) := by
        rw [eval, eval_dates hs ht]
        rfl
      have hcount := tdiv_eq_crossed_iff (u := 7) (a := dayNumber s + 1) (b := dayNumber t + 1)
        (by decide)
      rw [Int.add_sub_add_right] at hcount
      simp only [reduceCtorEq, if_false, if_true]
      rw [evaluatesTo_iff hweeks]
      exact hcount
  | quarter =>
      simp only [reduceCtorEq, if_false]
      rw [evaluatesTo_iff (eval_difference hs ht)]
      exact Iff.rfl
  | dayofyear =>
      simp only [reduceCtorEq, if_false]
      rw [evaluatesTo_iff (eval_difference hs ht)]
      exact Iff.rfl
  | weekday =>
      simp only [reduceCtorEq, if_false]
      rw [evaluatesTo_iff (eval_difference hs ht)]
      exact Iff.rfl
  | microsecond =>
      simp only [reduceCtorEq, if_false]
      rw [evaluatesTo_iff (eval_difference hs ht)]
      exact Iff.rfl

end Datediff

end SqlOptima.DatediffCounts
