import SqlOptima.PostgresTime
import Mathlib

namespace SqlOptima.DateArithmetic

open CivilMonth PostgresTime

section SqlServer

inductive DatePart where
  | year
  | quarter
  | month
  | dayofyear
  | day
  | week
  | weekday
  | hour
  | minute
  | second
  | millisecond
  | microsecond
  deriving DecidableEq, Repr

/-- The date parts of the unit maps, with their abbreviations. -/
def datePartNames : List (String × DatePart) :=
  [("year", .year), ("yy", .year), ("yyyy", .year),
    ("quarter", .quarter), ("qq", .quarter), ("q", .quarter),
    ("month", .month), ("mm", .month), ("m", .month),
    ("dayofyear", .dayofyear), ("dy", .dayofyear),
    ("day", .day), ("dd", .day), ("d", .day),
    ("week", .week), ("wk", .week), ("ww", .week),
    ("weekday", .weekday), ("dw", .weekday),
    ("hour", .hour), ("hh", .hour),
    ("minute", .minute), ("mi", .minute), ("n", .minute),
    ("second", .second), ("ss", .second), ("s", .second),
    ("millisecond", .millisecond), ("ms", .millisecond),
    ("microsecond", .microsecond), ("mcs", .microsecond)]

def datePartOf (unit : String) : Option DatePart := datePartNames.lookup unit.toLower

/-- The times from year 1 to year 9999. -/
structure Timestamp where
  usecs : Int
  lower : 0 ≤ usecs
  upper : usecs ≤ 315537897599999999

/-- The number of the unit that a time lies in. A week begins on Sunday; 0001-01-01 is a Monday. -/
def boundary (part : DatePart) (t : Int) : Int :=
  match part with
  | .year => monthOf (dayNumber t) / 12
  | .quarter => monthOf (dayNumber t) / 3
  | .month => monthOf (dayNumber t)
  | .dayofyear | .day | .weekday => dayNumber t
  | .week => (dayNumber t + 1) / 7
  | .hour => t / usecsPerHour
  | .minute => t / usecsPerMinute
  | .second => t / usecsPerSec
  | .millisecond => t / 1000
  | .microsecond => t

/-- The unit boundaries crossed, in 32 bits. -/
def datediff (part : DatePart) (start stop : Timestamp) : Option Int :=
  let crossed := boundary part stop.usecs - boundary part start.usecs
  if inInt32 crossed then some crossed else none

def plusMonths (k t : Int) : Int := addMonths k (dayNumber t) * usecsPerDay + timeOfDay t

def shift (part : DatePart) (n t : Int) : Int :=
  match part with
  | .year => plusMonths (12 * n) t
  | .quarter => plusMonths (3 * n) t
  | .month => plusMonths n t
  | .dayofyear | .day | .weekday => t + n * usecsPerDay
  | .week => t + 7 * n * usecsPerDay
  | .hour => t + n * usecsPerHour
  | .minute => t + n * usecsPerMinute
  | .second => t + n * usecsPerSec
  | .millisecond => t + n * 1000
  | .microsecond => t + n

def dateadd (part : DatePart) (n : Int) (d : Timestamp) : Option Int :=
  let t := shift part n d.usecs
  if inInt32 n ∧ 0 ≤ t ∧ t ≤ 315537897599999999 then some t else none

end SqlServer

section BodyTransform

def dpMap : List (String × String) :=
  [("yy", "YEAR"), ("yyyy", "YEAR"), ("year", "YEAR"),
    ("mm", "MONTH"), ("m", "MONTH"), ("month", "MONTH"),
    ("dd", "DAY"), ("d", "DAY"), ("day", "DAY"),
    ("hh", "HOUR"), ("hour", "HOUR"),
    ("mi", "MINUTE"), ("n", "MINUTE"), ("minute", "MINUTE"),
    ("ss", "SECOND"), ("s", "SECOND"), ("second", "SECOND"),
    ("ms", "MILLISECONDS"), ("millisecond", "MILLISECONDS"),
    ("wk", "WEEK"), ("ww", "WEEK"), ("week", "WEEK"),
    ("q", "QUARTER"), ("qq", "QUARTER"), ("quarter", "QUARTER"),
    ("dy", "DOY"), ("dayofyear", "DOY"),
    ("dw", "DOW"), ("weekday", "DOW")]

def unitMap : List (String × String) :=
  [("year", "year"), ("yy", "year"), ("yyyy", "year"),
    ("month", "month"), ("mm", "month"), ("m", "month"),
    ("day", "day"), ("dd", "day"), ("d", "day"),
    ("week", "week"), ("wk", "week"), ("ww", "week"),
    ("hour", "hour"), ("hh", "hour"),
    ("minute", "minute"), ("mi", "minute"), ("n", "minute"),
    ("second", "second"), ("ss", "second"), ("s", "second")]

def bodyPart (unit : String) : String :=
  (dpMap.lookup unit.toLower).getD unit.toLower.toUpper

def bodyUnit (unit : String) : String := (unitMap.lookup unit.toLower).getD unit.toLower

/-- `_dd_repl` -/
def bodyDatediff (unit start stop : String) : Expr :=
  let pgPart := bodyPart unit
  let epoch := Expr.extract "EPOCH"
    (.sub (.cast .timestamptz (.column stop)) (.cast .timestamptz (.column start)))
  let age := Expr.age (.column stop) (.column start)
  if pgPart = "SECOND" then .cast .bigint epoch
  else if pgPart = "MINUTE" then .cast .bigint (.div epoch (.integer 60))
  else if pgPart = "HOUR" then .cast .bigint (.div epoch (.integer 3600))
  else if pgPart = "DAY" then .cast .bigint (.div epoch (.integer 86400))
  else if pgPart = "YEAR" then .extract "YEAR" age
  else if pgPart = "MONTH" then
    .add (.mul (.extract "YEAR" age) (.integer 12)) (.extract "MONTH" age)
  else .extract pgPart (.sub (.column stop) (.column start))

/-- The number of a `DATEADD`: an integer literal, or the name of a variable. -/
inductive Offset where
  | literal (n : Int)
  | variable (name : String)
  deriving DecidableEq, Repr

/-- `_da_repl` -/
def bodyDateadd (unit : String) (offset : Offset) (date : String) : Expr :=
  match offset with
  | .literal n =>
      let interval := Expr.interval (.literal |n|) (bodyUnit unit ++ "s")
      if 0 ≤ n then .add (.column date) interval else .sub (.column date) interval
  | .variable name =>
      .add (.column date) (.mul (.column name) (.interval (.literal 1) (bodyUnit unit)))

end BodyTransform

section DateAddConverter

def dateaddUnitMap : List (String × String) :=
  [("YEAR", "year"), ("YYYY", "year"), ("YY", "year"),
    ("QUARTER", "quarter"), ("QQ", "quarter"), ("Q", "quarter"),
    ("MONTH", "month"), ("MM", "month"), ("M", "month"),
    ("WEEK", "week"), ("WK", "week"), ("WW", "week"),
    ("DAY", "day"), ("DD", "day"), ("D", "day"),
    ("HOUR", "hour"), ("HH", "hour"),
    ("MINUTE", "minute"), ("MI", "minute"), ("N", "minute"),
    ("SECOND", "second"), ("SS", "second"), ("S", "second"),
    ("MILLISECOND", "millisecond"), ("MS", "millisecond")]

def converterUnit (unit : String) : String :=
  (dateaddUnitMap.lookup unit.toUpper).getD unit.toUpper.toLower

def convertDateadd (unit : String) (offset : Offset) (date : String) : Expr :=
  match offset with
  | .literal n =>
      let interval := Expr.interval (.literal |n|) (converterUnit unit)
      if n < 0 then .sub (.column date) interval else .add (.column date) interval
  | .variable name => .add (.column date) (.interval (.text name) (converterUnit unit))

def convertDatediff (unit start stop : String) : Expr :=
  if unit.toUpper ∈ ["DAY", "DD", "D"] then
    .sub (.cast .date (.column stop)) (.cast .date (.column start))
  else .extract (converterUnit unit).toUpper (.sub (.column stop) (.column start))

end DateAddConverter

section TsqlExpressionConverter

def intervalMap : List (String × String) :=
  [("YEAR", "YEAR"), ("YY", "YEAR"), ("YYYY", "YEAR"),
    ("MONTH", "MONTH"), ("MM", "MONTH"), ("M", "MONTH"),
    ("DAY", "DAY"), ("DD", "DAY"), ("D", "DAY"),
    ("HOUR", "HOUR"), ("HH", "HOUR"),
    ("MINUTE", "MINUTE"), ("MI", "MINUTE"), ("N", "MINUTE"),
    ("SECOND", "SECOND"), ("SS", "SECOND"), ("S", "SECOND"),
    ("WEEK", "WEEK"), ("WK", "WEEK"), ("WW", "WEEK"),
    ("QUARTER", "MONTH"), ("QQ", "MONTH"), ("Q", "MONTH"),
    ("MILLISECOND", "MILLISECONDS"), ("MS", "MILLISECONDS"),
    ("MICROSECOND", "MICROSECONDS"), ("MCS", "MICROSECONDS")]

def datepartToInterval (unit : String) : String :=
  (intervalMap.lookup unit.toUpper).getD unit.toUpper

def expressionDateadd (unit : String) (offset : Offset) (date : String) : Expr :=
  let amount :=
    match offset with
    | .literal n => Amount.literal n
    | .variable name => Amount.text name
  .add (.column date) (.interval amount (datepartToInterval unit))

/-- `_convert_datediff` -/
def expressionDatediff (unit start stop : String) : Expr :=
  let partUpper := unit.toUpper
  let days := Expr.sub (.cast .date (.column stop)) (.cast .date (.column start))
  let elapsed := Expr.sub (.column stop) (.column start)
  let years :=
    Expr.sub (.extractDate .year (.column stop)) (.extractDate .year (.column start))
  let months :=
    Expr.sub (.extractDate .month (.column stop)) (.extractDate .month (.column start))
  if partUpper ∈ ["DAY", "DD", "D"] then days
  else if partUpper ∈ ["HOUR", "HH"] then .div (.extract "EPOCH" elapsed) (.integer 3600)
  else if partUpper ∈ ["MINUTE", "MI", "N"] then .div (.extract "EPOCH" elapsed) (.integer 60)
  else if partUpper ∈ ["SECOND", "SS", "S"] then .extract "EPOCH" elapsed
  else if partUpper ∈ ["MILLISECOND", "MS"] then
    .mul (.extract "EPOCH" elapsed) (.integer 1000)
  else if partUpper ∈ ["YEAR", "YY", "YYYY"] then years
  else if partUpper ∈ ["MONTH", "MM", "M"] then .add (.mul years (.integer 12)) months
  else if partUpper ∈ ["WEEK", "WK", "WW"] then .div days (.integer 7)
  else elapsed

end TsqlExpressionConverter

inductive Converter where
  | bodyTransform
  | dateAddConverter
  | tsqlExpressionConverter
  deriving DecidableEq, Repr

def Converter.datediff : Converter → String → String → String → Expr
  | .bodyTransform => bodyDatediff
  | .dateAddConverter => convertDatediff
  | .tsqlExpressionConverter => expressionDatediff

def Converter.dateadd : Converter → String → Offset → String → Expr
  | .bodyTransform => bodyDateadd
  | .dateAddConverter => convertDateadd
  | .tsqlExpressionConverter => expressionDateadd

end SqlOptima.DateArithmetic
