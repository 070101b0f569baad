import SqlOptima.CivilMonth
import Mathlib.Data.Rat.Floor
import Mathlib.Tactic.Linarith
import Mathlib.Tactic.FieldSimp

namespace SqlOptima.PostgresTime

open CivilMonth

/-- Times are microseconds, counted from the start of 0001-01-01. -/
def usecsPerDay : Int := 86400000000

def usecsPerHour : Int := 3600000000

def usecsPerMinute : Int := 60000000

def usecsPerSec : Int := 1000000

def dayNumber (t : Int) : Int := t / usecsPerDay

def timeOfDay (t : Int) : Int := t % usecsPerDay

structure Interval where
  months : Int
  days : Int
  usecs : Int
  deriving DecidableEq, Repr

inductive PgError where
  | invalidInput
  | outOfRange
  | unsupportedField
  | undefinedOperator
  | divisionByZero
  deriving DecidableEq, Repr

section Intervals

def inInt32 (n : Int) : Bool := -2147483648 ≤ n && n ≤ 2147483647

def inInt64 (n : Int) : Bool := -9223372036854775808 ≤ n && n ≤ 9223372036854775807

def Interval.checked (i : Interval) : Except PgError Interval :=
  if inInt32 i.months && inInt32 i.days && inInt64 i.usecs then .ok i else .error .outOfRange

def Interval.neg (i : Interval) : Interval := ⟨-i.months, -i.days, -i.usecs⟩

def Interval.scale (n : Int) (i : Interval) : Except PgError Interval :=
  Interval.checked ⟨n * i.months, n * i.days, n * i.usecs⟩

inductive IntervalUnit where
  | year
  | quarter
  | month
  | week
  | day
  | hour
  | minute
  | second
  | millisecond
  | microsecond
  deriving DecidableEq, Repr

/-- The names of these units, cut to ten letters. -/
def unitTable : List (String × IntervalUnit) :=
  [("y", .year), ("year", .year), ("years", .year), ("yr", .year), ("yrs", .year),
    ("qtr", .quarter), ("quarter", .quarter),
    ("mon", .month), ("mons", .month), ("month", .month), ("months", .month),
    ("w", .week), ("week", .week), ("weeks", .week),
    ("d", .day), ("day", .day), ("days", .day),
    ("h", .hour), ("hour", .hour), ("hours", .hour), ("hr", .hour), ("hrs", .hour),
    ("m", .minute), ("min", .minute), ("mins", .minute), ("minute", .minute),
    ("minutes", .minute),
    ("s", .second), ("sec", .second), ("secs", .second), ("second", .second),
    ("seconds", .second),
    ("ms", .millisecond), ("msec", .millisecond), ("msecond", .millisecond),
    ("mseconds", .millisecond), ("msecs", .millisecond), ("millisecon", .millisecond),
    ("us", .microsecond), ("usec", .microsecond), ("usecond", .microsecond),
    ("useconds", .microsecond), ("usecs", .microsecond), ("microsecon", .microsecond)]

def unitOf (token : String) : Option IntervalUnit :=
  unitTable.lookup (String.ofList ((token.toList.take 10).map Char.toLower))

/-- The fields that a number of units fills; the input of an interval has no quarters. -/
def fieldsOf (n : Int) : IntervalUnit → Option Interval
  | .year => some ⟨12 * n, 0, 0⟩
  | .quarter => none
  | .month => some ⟨n, 0, 0⟩
  | .week => some ⟨0, 7 * n, 0⟩
  | .day => some ⟨0, n, 0⟩
  | .hour => some ⟨0, 0, n * usecsPerHour⟩
  | .minute => some ⟨0, 0, n * usecsPerMinute⟩
  | .second => some ⟨0, 0, n * usecsPerSec⟩
  | .millisecond => some ⟨0, 0, n * 1000⟩
  | .microsecond => some ⟨0, 0, n⟩

def intervalOf (n : Int) (u : IntervalUnit) : Except PgError Interval :=
  match fieldsOf n u with
  | some i => i.checked
  | none => .error .invalidInput

def unitPart (i : Interval) : IntervalUnit → Except PgError ℚ
  | .year => .ok (i.months.tdiv 12 : Int)
  | .quarter => .ok ((i.months.tmod 12).tdiv 3 + 1 : Int)
  | .month => .ok (i.months.tmod 12 : Int)
  | .week => .error .unsupportedField
  | .day => .ok i.days
  | .hour => .ok (i.usecs.tdiv usecsPerHour : Int)
  | .minute => .ok ((i.usecs.tmod usecsPerHour).tdiv usecsPerMinute : Int)
  | .second => .ok ((i.usecs.tmod usecsPerMinute : Int) / 1000000)
  | .millisecond => .ok ((i.usecs.tmod usecsPerMinute : Int) / 1000)
  | .microsecond => .ok (i.usecs.tmod usecsPerMinute : Int)

/-- The length of an interval in seconds, a year being 365.25 days and a month 30. -/
def epoch (i : Interval) : ℚ :=
  i.months.tdiv 12 * 31557600 + i.months.tmod 12 * 2592000 + i.days * 86400 + i.usecs / 1000000

def intervalPart (field : String) (i : Interval) : Except PgError ℚ :=
  if field.toList.map Char.toLower = "epoch".toList then .ok (epoch i)
  else
    match unitOf field with
    | some u => unitPart i u
    | none => .error .unsupportedField

end Intervals

section Timestamps

/-- The times that the server can store. -/
def isValidTimestamp (t : Int) : Bool :=
  -148731206400000000 ≤ t && t < 9286453612800000000

def difference (t s : Int) : Interval :=
  ⟨0, (t - s).tdiv usecsPerDay, (t - s).tmod usecsPerDay⟩

def plusInterval (t : Int) (i : Interval) : Int :=
  addMonths i.months (dayNumber t) * usecsPerDay + timeOfDay t + i.days * usecsPerDay + i.usecs

def addInterval (t : Int) (i : Interval) : Except PgError Int :=
  if isValidTimestamp (plusInterval t i) then .ok (plusInterval t i) else .error .outOfRange

/-- The time since the month of a time began. -/
def sinceMonth (t : Int) : Int := (dayOf (dayNumber t) - 1) * usecsPerDay + timeOfDay t

/-- From the earlier to the later time, field by field: a negative time of day borrows a day, and
negative days borrow the month of the earlier time. -/
def ageFields (later earlier : Int) : Interval :=
  let time := timeOfDay later - timeOfDay earlier
  let days := dayOf (dayNumber later) - dayOf (dayNumber earlier) - if time < 0 then 1 else 0
  let months := monthOf (dayNumber later) - monthOf (dayNumber earlier)
  ⟨if days < 0 then months - 1 else months,
    if days < 0 then days + monthLength (monthOf (dayNumber earlier)) else days,
    if time < 0 then time + usecsPerDay else time⟩

def age (t s : Int) : Interval :=
  if t < s then (ageFields s t).neg else ageFields t s

/-- A numeric is rounded to the nearest integer, and away from zero halfway. -/
def roundHalfAway (q : ℚ) : Int :=
  if 0 ≤ q then ⌊q + 1 / 2⌋ else -⌊-q + 1 / 2⌋

end Timestamps

section Expressions

inductive Value where
  | timestamp (t : Int)
  | timestamptz (t : Int)
  | date (n : Int)
  | interval (i : Interval)
  | integer (n : Int)
  | numeric (q : ℚ)
  deriving DecidableEq

inductive CastType where
  | timestamptz
  | date
  | bigint
  deriving DecidableEq, Repr

inductive DateField where
  | year
  | month
  deriving DecidableEq, Repr

/-- What stands before the unit in an interval literal. -/
inductive Amount where
  | literal (n : Int)
  | text (s : String)
  deriving DecidableEq, Repr

inductive Expr where
  | column (name : String)
  | integer (n : Int)
  | interval (amount : Amount) (unit : String)
  | cast (type : CastType) (e : Expr)
  | add (e f : Expr)
  | sub (e f : Expr)
  | mul (e f : Expr)
  | div (e f : Expr)
  | extract (field : String) (e : Expr)
  | extractDate (field : DateField) (e : Expr)
  | age (e f : Expr)
  deriving DecidableEq, Repr

/-- `toUtc` is the time zone of the session, and `readInterval` reads an interval whose amount is
not a plain number. -/
structure Session where
  columns : String → Value
  toUtc : Int → Int
  readInterval : String → Except PgError Interval

def Value.add : Value → Value → Except PgError Value
  | .timestamp t, .interval i => (addInterval t i).map .timestamp
  | .numeric p, .numeric q => .ok (.numeric (p + q))
  | _, _ => .error .undefinedOperator

def Value.sub : Value → Value → Except PgError Value
  | .timestamp t, .timestamp s => .ok (.interval (difference t s))
  | .timestamptz t, .timestamptz s => .ok (.interval (difference t s))
  | .timestamp t, .interval i => (addInterval t i.neg).map .timestamp
  | .date n, .date m => .ok (.integer (n - m))
  | .numeric p, .numeric q => .ok (.numeric (p - q))
  | _, _ => .error .undefinedOperator

def Value.mul : Value → Value → Except PgError Value
  | .integer n, .interval i => (i.scale n).map .interval
  | .numeric q, .integer n => .ok (.numeric (q * n))
  | _, _ => .error .undefinedOperator

def Value.div : Value → Value → Except PgError Value
  | .integer n, .integer m =>
      if m = 0 then .error .divisionByZero else .ok (.integer (n.tdiv m))
  | .numeric q, .integer m =>
      if m = 0 then .error .divisionByZero else .ok (.numeric (q / m))
  | _, _ => .error .undefinedOperator

def Value.cast (session : Session) : CastType → Value → Except PgError Value
  | .timestamptz, .timestamp t => .ok (.timestamptz (session.toUtc t))
  | .date, .timestamp t => .ok (.date (dayNumber t))
  | .bigint, .numeric q =>
      if inInt64 (roundHalfAway q) then .ok (.integer (roundHalfAway q)) else .error .outOfRange
  | _, _ => .error .undefinedOperator

def Value.extract (field : String) : Value → Except PgError Value
  | .interval i => (intervalPart field i).map .numeric
  | _ => .error .undefinedOperator

def Value.extractDate : DateField → Value → Except PgError Value
  | .year, .timestamp t => .ok (.numeric (monthOf (dayNumber t) / 12 : Int))
  | .month, .timestamp t => .ok (.numeric (monthOf (dayNumber t) % 12 + 1 : Int))
  | _, _ => .error .undefinedOperator

def Value.age : Value → Value → Except PgError Value
  | .timestamp t, .timestamp s => .ok (.interval (PostgresTime.age t s))
  | _, _ => .error .undefinedOperator

def readInterval (session : Session) (amount : Amount) (unit : String) : Except PgError Interval :=
  match amount with
  | .literal n =>
      match unitOf unit with
      | some u => intervalOf n u
      | none => .error .invalidInput
  | .text s => session.readInterval (s ++ " " ++ unit)

def eval (session : Session) : Expr → Except PgError Value
  | .column name => .ok (session.columns name)
  | .integer n => .ok (.integer n)
  | .interval amount unit => (readInterval session amount unit).map .interval
  | .cast type e => (eval session e).bind (Value.cast session type)
  | .add e f => (eval session e).bind fun v => (eval session f).bind v.add
  | .sub e f => (eval session e).bind fun v => (eval session f).bind v.sub
  | .mul e f => (eval session e).bind fun v => (eval session f).bind v.mul
  | .div e f => (eval session e).bind fun v => (eval session f).bind v.div
  | .extract field e => (eval session e).bind (Value.extract field)
  | .extractDate field e => (eval session e).bind (Value.extractDate field)
  | .age e f => (eval session e).bind fun v => (eval session f).bind v.age

/-- A value that compares equal to an integer. -/
def Value.isInt (n : Int) : Value → Prop
  | .integer m => m = n
  | .numeric q => q = n
  | _ => False

end Expressions

end SqlOptima.PostgresTime
