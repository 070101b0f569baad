import SqlOptima.DatediffCounts

namespace SqlOptima.DatePreservation

open CivilDate (lastDay)
open CivilMonth PostgresTime BoundaryCount DateArithmetic DatediffCounts

section Shift

variable {part : DatePart} {u : IntervalUnit} {n r : Int} {d : Timestamp}

/-- The unit of an interval that shifts a time as a date part does. -/
def partUnit : DatePart → Option IntervalUnit
  | .year => some .year
  | .month => some .month
  | .week => some .week
  | .day => some .day
  | .hour => some .hour
  | .minute => some .minute
  | .second => some .second
  | .millisecond => some .millisecond
  | .microsecond => some .microsecond
  | .quarter | .dayofyear | .weekday => none

theorem dateadd_eq_some (h : dateadd part n d = some r) :
    inInt32 n = true ∧ shift part n d.usecs = r ∧ 0 ≤ r ∧ r ≤ 315537897599999999 := by
  unfold dateadd at h
  simp only at h
  split at h
  · rename_i hrange
    cases h
    exact ⟨hrange.1, rfl, hrange.2⟩
  · cases h

theorem monthOf_bounds {k : Int} (h : 0 ≤ k) (h' : k ≤ lastDay) :
    12 ≤ monthOf k ∧ monthOf k ≤ 119999 := by
  have hfirst : monthOf 0 = 12 := by decide
  have hlast : monthOf lastDay = 119999 := by decide
  exact ⟨hfirst ▸ monthOf_mono h, hlast ▸ monthOf_mono h'⟩

theorem dayNumber_bounds {t : Int} (h : 0 ≤ t) (h' : t ≤ 315537897599999999) :
    0 ≤ dayNumber t ∧ dayNumber t ≤ lastDay := by
  unfold dayNumber usecsPerDay lastDay
  omega

theorem dayNumber_plusMonths (k t : Int) :
    dayNumber (plusMonths k t) = addMonths k (dayNumber t) := by
  unfold plusMonths dayNumber timeOfDay usecsPerDay
  omega

/-- A shift by months stays within the calendar's months. -/
theorem months_of_plusMonths {k : Int} (hr : plusMonths k d.usecs = r) (h : 0 ≤ r)
    (h' : r ≤ 315537897599999999) : |k| < 120000 := by
  obtain ⟨hday, hday'⟩ := dayNumber_bounds d.lower d.upper
  obtain ⟨hmonth, hmonth'⟩ := monthOf_bounds hday hday'
  obtain ⟨hend, hend'⟩ := dayNumber_bounds h h'
  rw [← hr, dayNumber_plusMonths] at hend hend'
  obtain ⟨htarget, htarget'⟩ := monthOf_bounds hend hend'
  rw [monthOf_addMonths] at htarget htarget'
  rw [abs_lt]
  omega

theorem days_of_shift {k : Int} (hr : d.usecs + k * usecsPerDay = r) (h : 0 ≤ r)
    (h' : r ≤ 315537897599999999) : |k| < 2147483648 := by
  have hd := d.lower
  have hd' := d.upper
  rw [abs_lt]
  unfold usecsPerDay at hr
  omega

theorem plusInterval_months (k t : Int) : plusInterval t ⟨k, 0, 0⟩ = plusMonths k t := by
  unfold plusInterval plusMonths
  simp only [Int.zero_mul, Int.add_zero]

theorem plusInterval_days (k t : Int) : plusInterval t ⟨0, k, 0⟩ = t + k * usecsPerDay := by
  unfold plusInterval
  simp only
  rw [addMonths_zero]
  unfold dayNumber timeOfDay usecsPerDay
  omega

theorem plusInterval_usecs (k t : Int) : plusInterval t ⟨0, 0, k⟩ = t + k := by
  unfold plusInterval
  simp only
  rw [addMonths_zero]
  unfold dayNumber timeOfDay usecsPerDay
  omega

/-- What the server needs to know of an interval, to shift a time by it or by its negation. -/
structure Shifts (u : IntervalUnit) (n t r : Int) (i : Interval) : Prop where
  fields : fieldsOf n u = some i
  fields_neg : fieldsOf (-n) u = some i.neg
  checked : i.checked = .ok i
  checked_neg : i.neg.checked = .ok i.neg
  plus : plusInterval t i = r

theorem checked_of_bounds {i : Interval} (hmonths : |i.months| < 2147483648)
    (hdays : |i.days| < 2147483648) (husecs : |i.usecs| < 9223372036854775808) :
    i.checked = .ok i := by
  rw [abs_lt] at hmonths hdays husecs
  unfold Interval.checked inInt32 inInt64
  rw [if_pos]
  simp only [Bool.and_eq_true, decide_eq_true_eq]
  omega

theorem shifts_of_bounds {i : Interval} {t : Int} (hmonths : |i.months| < 2147483648)
    (hdays : |i.days| < 2147483648) (husecs : |i.usecs| < 9223372036854775808)
    (hfields : fieldsOf n u = some i) (hneg : fieldsOf (-n) u = some i.neg)
    (hplus : plusInterval t i = r) : Shifts u n t r i where
  fields := hfields
  fields_neg := hneg
  checked := checked_of_bounds hmonths hdays husecs
  checked_neg := by
    apply checked_of_bounds
    · rwa [Interval.neg, abs_neg]
    · rwa [Interval.neg, abs_neg]
    · rwa [Interval.neg, abs_neg]
  plus := hplus

theorem shifts_months {k t : Int} (hfields : fieldsOf n u = some ⟨k, 0, 0⟩)
    (hneg : fieldsOf (-n) u = some ⟨-k, 0, 0⟩) (hr : plusMonths k t = r) (hk : |k| < 120000) :
    Shifts u n t r ⟨k, 0, 0⟩ :=
  shifts_of_bounds (by simp only; omega) (by simp) (by simp) hfields hneg
    ((plusInterval_months k t).trans hr)

theorem shifts_days {k t : Int} (hfields : fieldsOf n u = some ⟨0, k, 0⟩)
    (hneg : fieldsOf (-n) u = some ⟨0, -k, 0⟩) (hr : t + k * usecsPerDay = r)
    (hk : |k| < 2147483648) : Shifts u n t r ⟨0, k, 0⟩ :=
  shifts_of_bounds (by simp) hk (by simp) hfields hneg ((plusInterval_days k t).trans hr)

theorem shifts_usecs {k t : Int} (hfields : fieldsOf n u = some ⟨0, 0, k⟩)
    (hneg : fieldsOf (-n) u = some ⟨0, 0, -k⟩) (hr : t + k = r)
    (hk : |k| < 9223372036854775808) : Shifts u n t r ⟨0, 0, k⟩ :=
  shifts_of_bounds (by simp) (by simp) hk hfields hneg ((plusInterval_usecs k t).trans hr)

theorem shifts_of_dateadd (hu : partUnit part = some u) (h : dateadd part n d = some r) :
    ∃ i, Shifts u n d.usecs r i := by
  obtain ⟨hn, hr, hlow, hhigh⟩ := dateadd_eq_some h
  simp only [inInt32, Bool.and_eq_true, decide_eq_true_eq] at hn
  cases part with
  | year =>
      cases hu
      have hk := months_of_plusMonths hr hlow hhigh
      exact ⟨_, shifts_months rfl (by simp [fieldsOf]) hr hk⟩
  | month =>
      cases hu
      have hk := months_of_plusMonths hr hlow hhigh
      exact ⟨_, shifts_months rfl rfl hr hk⟩
  | week =>
      cases hu
      exact ⟨_, shifts_days rfl (by simp [fieldsOf]) hr (days_of_shift hr hlow hhigh)⟩
  | day =>
      cases hu
      exact ⟨_, shifts_days rfl rfl hr (days_of_shift hr hlow hhigh)⟩
  | hour =>
      cases hu
      have hk : |n * usecsPerHour| < 9223372036854775808 := by
        rw [abs_lt]
        unfold usecsPerHour
        omega
      exact ⟨_, shifts_usecs rfl (by simp [fieldsOf]) hr hk⟩
  | minute =>
      cases hu
      have hk : |n * usecsPerMinute| < 9223372036854775808 := by
        rw [abs_lt]
        unfold usecsPerMinute
        omega
      exact ⟨_, shifts_usecs rfl (by simp [fieldsOf]) hr hk⟩
  | second =>
      cases hu
      have hk : |n * usecsPerSec| < 9223372036854775808 := by
        rw [abs_lt]
        unfold usecsPerSec
        omega
      exact ⟨_, shifts_usecs rfl (by simp [fieldsOf]) hr hk⟩
  | millisecond =>
      cases hu
      have hk : |n * 1000| < 9223372036854775808 := by
        rw [abs_lt]
        omega
      exact ⟨_, shifts_usecs rfl (by simp [fieldsOf]) hr hk⟩
  | microsecond =>
      cases hu
      have hk : |n| < 9223372036854775808 := by
        rw [abs_lt]
        omega
      exact ⟨_, shifts_usecs rfl rfl hr hk⟩
  | quarter => cases hu
  | dayofyear => cases hu
  | weekday => cases hu

end Shift

section Dateadd

variable {session : Session} {unit date name : String} {part : DatePart} {u : IntervalUnit}
  {n r t : Int} {d : Timestamp} {i : Interval}

theorem readInterval_literal (hname : unitOf name = some u) (hfields : fieldsOf n u = some i) :
    readInterval session (.literal n) name = i.checked := by
  simp [readInterval, hname, intervalOf, hfields]

theorem addInterval_of_shifts (h : Shifts u n t r i) (hvalid : isValidTimestamp r = true) :
    addInterval t i = .ok r := by
  rw [addInterval, h.plus, if_pos hvalid]

theorem eval_add (hdate : session.columns date = .timestamp t) (hname : unitOf name = some u)
    (h : Shifts u n t r i) (hvalid : isValidTimestamp r = true) :
    eval session (.add (.column date) (.interval (.literal n) name)) = .ok (.timestamp r) := by
  simp [eval, hdate, readInterval_literal hname h.fields, h.checked, Except.bind, Except.map,
    Value.add, addInterval_of_shifts h hvalid]

theorem eval_sub (hdate : session.columns date = .timestamp t) (hname : unitOf name = some u)
    (h : Shifts u n t r i) (hvalid : isValidTimestamp r = true) :
    eval session (.sub (.column date) (.interval (.literal (-n)) name)) = .ok (.timestamp r) := by
  have hneg : i.neg.neg = i := by
    simp [Interval.neg]
  simp [eval, hdate, readInterval_literal hname h.fields_neg, h.checked_neg, Except.bind,
    Except.map, Value.sub, hneg, addInterval_of_shifts h hvalid]

/-- The sign of the number is written as the operator. -/
theorem eval_signed (hdate : session.columns date = .timestamp t) (hname : unitOf name = some u)
    (h : Shifts u n t r i) (hvalid : isValidTimestamp r = true) :
    eval session (if 0 ≤ n then .add (.column date) (.interval (.literal |n|) name)
      else .sub (.column date) (.interval (.literal |n|) name)) = .ok (.timestamp r) := by
  by_cases hn : 0 ≤ n
  · rw [if_pos hn, abs_of_nonneg hn]
    exact eval_add hdate hname h hvalid
  · rw [if_neg hn, abs_of_neg (not_le.mp hn)]
    exact eval_sub hdate hname h hvalid

theorem readInterval_error (hname : unitOf name = none ∨ unitOf name = some .quarter) :
    readInterval session (.literal n) name = .error .invalidInput := by
  rcases hname with hname | hname
  · simp [readInterval, hname]
  · simp [readInterval, hname, intervalOf, fieldsOf]

theorem eval_unread (hname : unitOf name = none ∨ unitOf name = some .quarter) (m : Int) :
    eval session (.add (.column date) (.interval (.literal m) name)) = .error .invalidInput ∧
      eval session (.sub (.column date) (.interval (.literal m) name)) = .error .invalidInput := by
  simp [eval, readInterval_error hname, Except.bind, Except.map]

theorem signed_unread (hname : unitOf name = none ∨ unitOf name = some .quarter) {v : Value} :
    eval session (if 0 ≤ n then .add (.column date) (.interval (.literal |n|) name)
      else .sub (.column date) (.interval (.literal |n|) name)) ≠ .ok v := by
  split
  · rw [(eval_unread hname |n|).1]
    simp
  · rw [(eval_unread hname |n|).2]
    simp

/-- When the expression that a converter emits for `DATEADD` of a literal number shifts the time as
SQL Server does. -/
def ShiftsAlike (unit : String) (n : Int) : Converter → DatePart → Prop
  | .tsqlExpressionConverter, .quarter => n = 0
  | .bodyTransform, .quarter | .dateAddConverter, .quarter => False
  | _, .dayofyear | _, .weekday => False
  | .bodyTransform, .millisecond => unit.toLower = "millisecond"
  | .bodyTransform, .microsecond | .dateAddConverter, .microsecond =>
      unit.toLower = "microsecond"
  | _, _ => True

/-- What the server reads of the units that the converters put after a number. -/
structure UnitNames : Prop where
  body : ∀ part f, unitEntry part = some f → unitOf (f ++ "s") = partUnit part
  converter : ∀ part f, dateaddEntry part = some f → part ≠ .quarter → unitOf f = partUnit part
  quarter : unitOf "quarter" = some .quarter
  interval : ∀ part f, intervalEntry part = some f → part ≠ .quarter → unitOf f = partUnit part
  month : unitOf "MONTH" = some .month
  milliseconds : unitOf ("millisecond" ++ "s") = some .millisecond
  millisecond_short : unitOf ("ms" ++ "s") = none
  microseconds : unitOf ("microsecond" ++ "s") = some .microsecond
  microsecond_short : unitOf ("mcs" ++ "s") = none
  microsecond : unitOf "microsecond" = some .microsecond
  mcs : unitOf "mcs" = none
  unread : ∀ p ∈ datePartNames, p.2 = .quarter ∨ p.2 = .dayofyear ∨ p.2 = .weekday →
    unitOf (p.1 ++ "s") = none
  unmapped : ∀ p ∈ datePartNames, p.2 = .dayofyear ∨ p.2 = .weekday → unitOf p.1 = none
  unmapped_capital : ∀ p ∈ capitalNames, p.2 = .dayofyear ∨ p.2 = .weekday → unitOf p.1 = none

theorem unitNames : UnitNames where
  body part f h := by cases part <;> cases h <;> decide +kernel
  converter part f h hne := by
    cases part <;> cases h <;> first | exact absurd rfl hne | decide +kernel
  quarter := by decide +kernel
  interval part f h hne := by
    cases part <;> cases h <;> first | exact absurd rfl hne | decide +kernel
  month := by decide +kernel
  milliseconds := by decide +kernel
  millisecond_short := by decide +kernel
  microseconds := by decide +kernel
  microsecond_short := by decide +kernel
  microsecond := by decide +kernel
  mcs := by decide +kernel
  unread := by decide +kernel
  unmapped := by decide +kernel
  unmapped_capital := by decide +kernel

/-- A unit that the server reads as the date part, or not at all. -/
def ReadAs (name : String) (part : DatePart) (alike : Prop) : Prop :=
  (alike → unitOf name = partUnit part ∧ (partUnit part).isSome) ∧
    (¬ alike → unitOf name = none ∨ unitOf name = some .quarter)

theorem readAs_always {f : String} (hf : name = f) (hread : unitOf f = some u)
    (hu : partUnit part = some u) : ReadAs name part True := by
  rw [hf]
  exact ⟨fun _ => ⟨hread.trans hu.symm, Option.isSome_iff_exists.mpr ⟨u, hu⟩⟩,
    fun h => absurd trivial h⟩

theorem readAs_never (hread : unitOf name = none ∨ unitOf name = some .quarter) :
    ReadAs name part False :=
  ⟨False.elim, fun _ => hread⟩

/-- A part with two names, of which the server reads the first. -/
theorem readAs_if {long short f g : String} (hunit : unit.toLower = long ∨ unit.toLower = short)
    (hne : short ≠ long) (hlong : unit.toLower = long → name = f)
    (hshort : unit.toLower = short → name = g) (hread : unitOf f = some u)
    (hu : partUnit part = some u) (hunread : unitOf g = none) :
    ReadAs name part (unit.toLower = long) := by
  rcases hunit with h | h
  · have hread := readAs_always (hlong h) hread hu
    exact ⟨fun _ => hread.1 trivial, fun hnot => absurd h hnot⟩
  · rw [hshort h]
    exact ⟨fun hlong => absurd (h.symm.trans hlong) hne, fun _ => Or.inl hunread⟩

theorem millisecond_names (h : datePartOf unit = some .millisecond) :
    unit.toLower = "millisecond" ∨ unit.toLower = "ms" := by
  have hmem := mem_datePartNames h
  simpa [datePartNames] using hmem

theorem bodyUnit_some {f : String} (hunit : datePartOf unit = some part)
    (hentry : unitEntry part = some f) : bodyUnit unit ++ "s" = f ++ "s" := by
  rw [bodyUnit_eq hunit, hentry, Option.getD_some]

theorem bodyUnit_none {f : String} (hunit : datePartOf unit = some part)
    (hentry : unitEntry part = none) (hname : unit.toLower = f) :
    bodyUnit unit ++ "s" = f ++ "s" := by
  rw [bodyUnit_eq hunit, hentry, Option.getD_none, hname]

theorem bodyUnit_unread (hunit : datePartOf unit = some part) (hentry : unitEntry part = none)
    (hpart : part = .quarter ∨ part = .dayofyear ∨ part = .weekday) :
    ReadAs (bodyUnit unit ++ "s") part False := by
  rw [bodyUnit_none hunit hentry rfl]
  have hread := UnitNames.unread unitNames (unit.toLower, part) (mem_datePartNames hunit) hpart
  exact readAs_never (Or.inl hread)

theorem bodyUnit_always {f : String} (hunit : datePartOf unit = some part)
    (hentry : unitEntry part = some f) (hu : partUnit part = some u) :
    ReadAs (bodyUnit unit ++ "s") part True :=
  readAs_always (bodyUnit_some hunit hentry) ((UnitNames.body unitNames part f hentry).trans hu) hu

theorem bodyUnit_read (hunit : datePartOf unit = some part) :
    ReadAs (bodyUnit unit ++ "s") part (ShiftsAlike unit n .bodyTransform part) := by
  cases part with
  | year => exact bodyUnit_always hunit rfl rfl
  | quarter => exact bodyUnit_unread hunit rfl (by decide)
  | month => exact bodyUnit_always hunit rfl rfl
  | dayofyear => exact bodyUnit_unread hunit rfl (by decide)
  | day => exact bodyUnit_always hunit rfl rfl
  | week => exact bodyUnit_always hunit rfl rfl
  | weekday => exact bodyUnit_unread hunit rfl (by decide)
  | hour => exact bodyUnit_always hunit rfl rfl
  | minute => exact bodyUnit_always hunit rfl rfl
  | second => exact bodyUnit_always hunit rfl rfl
  | millisecond =>
      exact readAs_if (millisecond_names hunit) (by simp) (bodyUnit_none hunit rfl)
        (bodyUnit_none hunit rfl) (UnitNames.milliseconds unitNames) rfl
        (UnitNames.millisecond_short unitNames)
  | microsecond =>
      exact readAs_if (microsecond_names hunit) (by simp) (bodyUnit_none hunit rfl)
        (bodyUnit_none hunit rfl) (UnitNames.microseconds unitNames) rfl
        (UnitNames.microsecond_short unitNames)

theorem converterUnit_some {f : String} (hunit : datePartOf unit = some part)
    (hentry : dateaddEntry part = some f) : converterUnit unit = f := by
  rw [converterUnit_eq hunit, hentry, Option.getD_some]

theorem converterUnit_none {f : String} (hunit : datePartOf unit = some part)
    (hentry : dateaddEntry part = none) (hname : unit.toLower = f) : converterUnit unit = f := by
  rw [converterUnit_eq hunit, hentry, Option.getD_none, hname]

theorem converterUnit_unread (hunit : datePartOf unit = some part)
    (hentry : dateaddEntry part = none) (hpart : part = .dayofyear ∨ part = .weekday) :
    ReadAs (converterUnit unit) part False := by
  rw [converterUnit_none hunit hentry rfl]
  have hread := UnitNames.unmapped unitNames (unit.toLower, part) (mem_datePartNames hunit) hpart
  exact readAs_never (Or.inl hread)

theorem converterUnit_always {f : String} (hunit : datePartOf unit = some part)
    (hentry : dateaddEntry part = some f) (hne : part ≠ .quarter) (hu : partUnit part = some u) :
    ReadAs (converterUnit unit) part True :=
  readAs_always (converterUnit_some hunit hentry)
    ((UnitNames.converter unitNames part f hentry hne).trans hu) hu

theorem converterUnit_read (hunit : datePartOf unit = some part) :
    ReadAs (converterUnit unit) part (ShiftsAlike unit n .dateAddConverter part) := by
  cases part with
  | year => exact converterUnit_always hunit rfl (by decide) rfl
  | quarter =>
      rw [converterUnit_some hunit rfl]
      exact readAs_never (Or.inr (UnitNames.quarter unitNames))
  | month => exact converterUnit_always hunit rfl (by decide) rfl
  | dayofyear => exact converterUnit_unread hunit rfl (by decide)
  | day => exact converterUnit_always hunit rfl (by decide) rfl
  | week => exact converterUnit_always hunit rfl (by decide) rfl
  | weekday => exact converterUnit_unread hunit rfl (by decide)
  | hour => exact converterUnit_always hunit rfl (by decide) rfl
  | minute => exact converterUnit_always hunit rfl (by decide) rfl
  | second => exact converterUnit_always hunit rfl (by decide) rfl
  | millisecond => exact converterUnit_always hunit rfl (by decide) rfl
  | microsecond =>
      exact readAs_if (microsecond_names hunit) (by simp) (converterUnit_none hunit rfl)
        (converterUnit_none hunit rfl) (UnitNames.microsecond unitNames) rfl
        (UnitNames.mcs unitNames)

theorem isValidTimestamp_of_dateadd (h : dateadd part n d = some r) :
    isValidTimestamp r = true := by
  obtain ⟨-, -, hlow, hhigh⟩ := dateadd_eq_some h
  unfold isValidTimestamp
  simp only [Bool.and_eq_true, decide_eq_true_eq]
  omega

theorem signed_iff {alike : Prop} (hdate : session.columns date = .timestamp d.usecs)
    (h : dateadd part n d = some r) (hread : ReadAs name part alike) :
    eval session (if 0 ≤ n then .add (.column date) (.interval (.literal |n|) name)
      else .sub (.column date) (.interval (.literal |n|) name)) = .ok (.timestamp r) ↔ alike := by
  constructor
  · intro heval
    by_contra hnot
    exact signed_unread (hread.2 hnot) heval
  · intro halike
    obtain ⟨hname, hsome⟩ := hread.1 halike
    obtain ⟨u, hu⟩ := Option.isSome_iff_exists.mp hsome
    obtain ⟨i, hi⟩ := shifts_of_dateadd hu h
    exact eval_signed hdate (hname.trans hu) hi (isValidTimestamp_of_dateadd h)

theorem bodyDateadd_iff (hunit : datePartOf unit = some part)
    (hdate : session.columns date = .timestamp d.usecs) (h : dateadd part n d = some r) :
    eval session (bodyDateadd unit (.literal n) date) = .ok (.timestamp r) ↔
      ShiftsAlike unit n .bodyTransform part :=
  signed_iff hdate h (bodyUnit_read hunit)

theorem convertDateadd_iff (hunit : datePartOf unit = some part)
    (hdate : session.columns date = .timestamp d.usecs) (h : dateadd part n d = some r) :
    eval session (convertDateadd unit (.literal n) date) = .ok (.timestamp r) ↔
      ShiftsAlike unit n .dateAddConverter part := by
  rw [← signed_iff hdate h (converterUnit_read hunit), convertDateadd]
  simp only [← not_le, ite_not]

theorem datepartToInterval_some {f : String} (hunit : datePartOf unit = some part)
    (hentry : intervalEntry part = some f) : datepartToInterval unit = f := by
  rw [datepartToInterval_eq hunit, hentry, Option.getD_some]

theorem expression_always {f : String} (hunit : datePartOf unit = some part)
    (hdate : session.columns date = .timestamp d.usecs) (h : dateadd part n d = some r)
    (hentry : intervalEntry part = some f) (hne : part ≠ .quarter)
    (hu : partUnit part = some u) :
    eval session (expressionDateadd unit (.literal n) date) = .ok (.timestamp r) := by
  obtain ⟨i, hi⟩ := shifts_of_dateadd hu h
  unfold expressionDateadd
  simp only
  rw [datepartToInterval_some hunit hentry]
  exact eval_add hdate ((UnitNames.interval unitNames part f hentry hne).trans hu) hi
    (isValidTimestamp_of_dateadd h)

theorem expression_never (hunit : datePartOf unit = some part)
    (hentry : intervalEntry part = none) (hpart : part = .dayofyear ∨ part = .weekday)
    {v : Value} :
    eval session (expressionDateadd unit (.literal n) date) ≠ .ok v := by
  have hread :=
    UnitNames.unmapped_capital unitNames (unit.toUpper, part) (mem_capitalNames hunit) hpart
  unfold expressionDateadd
  simp only
  rw [datepartToInterval_eq hunit, hentry, Option.getD_none,
    (eval_unread (Or.inl hread) n).1]
  simp

/-- A quarter is added as one month. -/
theorem expression_quarter (hunit : datePartOf unit = some .quarter)
    (hdate : session.columns date = .timestamp d.usecs) (h : dateadd .quarter n d = some r) :
    eval session (expressionDateadd unit (.literal n) date) = .ok (.timestamp r) ↔ n = 0 := by
  obtain ⟨hn, hr, hlow, hhigh⟩ := dateadd_eq_some h
  have hchecked : (Interval.mk n 0 0).checked = .ok ⟨n, 0, 0⟩ := by
    rw [Interval.checked, hn]
    rfl
  have heval : eval session (expressionDateadd unit (.literal n) date) =
      (addInterval d.usecs ⟨n, 0, 0⟩).map .timestamp := by
    unfold expressionDateadd
    simp only
    rw [datepartToInterval_some hunit rfl]
    simp [eval, hdate, readInterval_literal (UnitNames.month unitNames) rfl, hchecked,
      Except.bind, Except.map,
      Value.add]
  rw [heval, addInterval, plusInterval_months]
  constructor
  · intro hok
    split at hok
    · cases hok
      have hmonths := congrArg (fun t => monthOf (dayNumber t)) hr
      simp only [shift, dayNumber_plusMonths, monthOf_addMonths] at hmonths
      omega
    · cases hok
  · rintro rfl
    have hsame : plusMonths 0 d.usecs = r := hr
    rw [hsame, if_pos (isValidTimestamp_of_dateadd h)]
    rfl

theorem expressionDateadd_iff (hunit : datePartOf unit = some part)
    (hdate : session.columns date = .timestamp d.usecs) (h : dateadd part n d = some r) :
    eval session (expressionDateadd unit (.literal n) date) = .ok (.timestamp r) ↔
      ShiftsAlike unit n .tsqlExpressionConverter part := by
  cases part with
  | year =>
      exact iff_of_true (expression_always hunit hdate h rfl (by decide) rfl) trivial
  | quarter => exact expression_quarter hunit hdate h
  | month =>
      exact iff_of_true (expression_always hunit hdate h rfl (by decide) rfl) trivial
  | dayofyear => exact iff_of_false (expression_never hunit rfl (by decide)) id
  | day =>
      exact iff_of_true (expression_always hunit hdate h rfl (by decide) rfl) trivial
  | week =>
      exact iff_of_true (expression_always hunit hdate h rfl (by decide) rfl) trivial
  | weekday => exact iff_of_false (expression_never hunit rfl (by decide)) id
  | hour =>
      exact iff_of_true (expression_always hunit hdate h rfl (by decide) rfl) trivial
  | minute =>
      exact iff_of_true (expression_always hunit hdate h rfl (by decide) rfl) trivial
  | second =>
      exact iff_of_true (expression_always hunit hdate h rfl (by decide) rfl) trivial
  | millisecond =>
      exact iff_of_true (expression_always hunit hdate h rfl (by decide) rfl) trivial
  | microsecond =>
      exact iff_of_true (expression_always hunit hdate h rfl (by decide) rfl) trivial

end Dateadd

section Claim

variable {session : Session} {unit start stop date : String} {part : DatePart}
  {s t d : Timestamp} {n : Int}

/-- Where SQL Server has a result, the emitted expressions have it under these conditions. -/
theorem date_arithmetic_preserved_iff (c : Converter) (hunit : datePartOf unit = some part)
    (hstart : session.columns start = .timestamp s.usecs)
    (hstop : session.columns stop = .timestamp t.usecs)
    (hdate : session.columns date = .timestamp d.usecs) :
    (∀ r, datediff part s t = some r →
      (EvaluatesTo session (c.datediff unit start stop) r ↔
        CountsBoundaries session s.usecs t.usecs unit c part)) ∧
    ∀ r, dateadd part n d = some r →
      (eval session (c.dateadd unit (.literal n) date) = .ok (.timestamp r) ↔
        ShiftsAlike unit n c part) := by
  constructor
  · intro r h
    have hr : inInt32 (boundary part t.usecs - boundary part s.usecs) = true := by
      by_contra hnot
      rw [datediff, if_neg hnot] at h
      cases h
    rw [datediff, if_pos hr] at h
    cases h
    cases c with
    | bodyTransform => exact bodyDatediff_counts hunit hstart hstop hr
    | dateAddConverter => exact convertDatediff_counts hunit hstart hstop
    | tsqlExpressionConverter => exact expressionDatediff_counts hunit hstart hstop
  · intro r h
    cases c with
    | bodyTransform => exact bodyDateadd_iff hunit hdate h
    | dateAddConverter => exact convertDateadd_iff hunit hdate h
    | tsqlExpressionConverter => exact expressionDateadd_iff hunit hdate h

end Claim

section Sample

/-- One minute before, and one minute after, eleven o'clock on 2026-03-02. -/
def beforeEleven : Timestamp := ⟨63908045940000000, by decide, by decide⟩

def afterEleven : Timestamp := ⟨63908046060000000, by decide, by decide⟩

def utcSession : Session where
  columns name := .timestamp (if name = "a" then beforeEleven.usecs else afterEleven.usecs)
  toUtc t := t
  readInterval _ := .error .invalidInput

theorem two_minutes_preserved :
    EvaluatesTo utcSession (bodyDatediff "SECOND" "a" "b") 120 ∧
      eval utcSession (bodyDateadd "SECOND" (.literal 120) "a") =
        .ok (.timestamp afterEleven.usecs) := by
  have hunit : datePartOf "SECOND" = some .second := by decide +kernel
  have hstart : utcSession.columns "a" = .timestamp beforeEleven.usecs := rfl
  have hstop : utcSession.columns "b" = .timestamp afterEleven.usecs := rfl
  have h := date_arithmetic_preserved_iff (n := 120) .bodyTransform hunit hstart hstop hstart
  have hlead : LeadUnderHalf utcSession beforeEleven.usecs afterEleven.usecs usecsPerSec :=
    Or.inl (by decide)
  exact ⟨(h.1 120 (by decide)).mpr hlead, (h.2 _ (by decide)).mpr trivial⟩

/-- One boundary of an hour is crossed, and no converter counts it; nor does one add a quarter. -/
theorem hour_and_quarter_lost :
    datediff .hour beforeEleven afterEleven = some 1 ∧
      (∀ c : Converter, ¬ EvaluatesTo utcSession (c.datediff "HOUR" "a" "b") 1) ∧
      (dateadd .quarter 1 beforeEleven).isSome = true ∧
      ∀ c : Converter, ∀ r, dateadd .quarter 1 beforeEleven = some r →
        eval utcSession (c.dateadd "QUARTER" (.literal 1) "a") ≠ .ok (.timestamp r) := by
  refine ⟨by decide, ?_, by decide, ?_⟩
  · intro c
    cases c with
    | bodyTransform =>
        have heval : eval utcSession (bodyDatediff "HOUR" "a" "b") = .ok (.integer 0) := by
          decide +kernel
        exact (evaluatesTo_iff heval).not.mpr (by norm_num [Value.isInt])
    | dateAddConverter =>
        have heval : eval utcSession (convertDatediff "HOUR" "a" "b") = .ok (.numeric 0) := by
          decide +kernel
        exact (evaluatesTo_iff heval).not.mpr (by norm_num [Value.isInt])
    | tsqlExpressionConverter =>
        have heval : eval utcSession (expressionDatediff "HOUR" "a" "b") =
            .ok (.numeric (1 / 30)) := by
          decide +kernel
        exact (evaluatesTo_iff heval).not.mpr (by norm_num [Value.isInt])
  · intro c r h
    have hunit : datePartOf "QUARTER" = some .quarter := by decide +kernel
    cases c with
    | bodyTransform =>
        have heval : eval utcSession (bodyDateadd "QUARTER" (.literal 1) "a") =
            .error .invalidInput := by
          decide +kernel
        simp [Converter.dateadd, heval]
    | dateAddConverter =>
        have heval : eval utcSession (convertDateadd "QUARTER" (.literal 1) "a") =
            .error .invalidInput := by
          decide +kernel
        simp [Converter.dateadd, heval]
    | tsqlExpressionConverter =>
        exact (expression_quarter hunit rfl h).not.mpr (by decide)

end Sample

end SqlOptima.DatePreservation
