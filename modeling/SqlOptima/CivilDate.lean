import Mathlib.Algebra.Group.Int.Defs
import Mathlib.Algebra.Group.Nat.Defs
import Mathlib.Data.Int.Basic

namespace SqlOptima.CivilDate

structure Date where
  year : Int
  month : Int
  day : Int
  deriving DecidableEq

/-- Days from the first of March of year 0 to the first of March of a year. -/
def yearStart (y : Int) : Int := 365 * y + y / 4 - y / 100 + y / 400

/-- Days from the first of March to the first of a month, counted from March. -/
def monthStart (m : Int) : Int := (153 * m + 2) / 5

/-- The number of days from 0001-01-01 to a date. -/
def toDay (date : Date) : Int :=
  if date.month ≤ 2 then
    yearStart (date.year - 1) + monthStart (date.month + 9) + date.day - 307
  else
    yearStart date.year + monthStart (date.month - 3) + date.day - 307

/-- The year that begins in March and the day in it, of a day counted from the
first of March of year 0: cycles of 400, 100 and 4 years, the last year of a
cycle being the longer one. -/
def yearAndDay (z : Int) : Int × Int :=
  let cycle := z % 146097
  let century := min (cycle / 36524) 3
  let inCentury := cycle - 36524 * century
  let inFour := inCentury % 1461
  let year := min (inFour / 365) 3
  (400 * (z / 146097) + 100 * century + 4 * (inCentury / 1461) + year, inFour - 365 * year)

/-- The date of a day counted from 0001-01-01. -/
def ofDay (n : Int) : Date :=
  let (year, day) := yearAndDay (n + 306)
  let month := (5 * day + 2) / 153
  if month < 10 then ⟨year, month + 3, day - monthStart month + 1⟩
  else ⟨year + 1, month - 9, day - monthStart month + 1⟩

theorem yearStart_cycles {era century four year : Int} (hc : 0 ≤ century) (hc' : century ≤ 3)
    (hf : 0 ≤ four) (hf' : four ≤ 24) (hy : 0 ≤ year) (hy' : year ≤ 3) :
    yearStart (400 * era + 100 * century + 4 * four + year) =
      146097 * era + 36524 * century + 1461 * four + 365 * year := by
  have h4 : (400 * era + 100 * century + 4 * four + year) / 4 =
      100 * era + 25 * century + four := by omega
  have h100 : (400 * era + 100 * century + 4 * four + year) / 100 = 4 * era + century := by omega
  have h400 : (400 * era + 100 * century + 4 * four + year) / 400 = era := by omega
  rw [yearStart, h4, h100, h400]
  omega

theorem yearAndDay_spec (z : Int) :
    yearStart (yearAndDay z).1 + (yearAndDay z).2 = z ∧
      0 ≤ (yearAndDay z).2 ∧ (yearAndDay z).2 ≤ 365 := by
  simp only [yearAndDay]
  generalize hcentury : min (z % 146097 / 36524) 3 = century
  generalize hin : z % 146097 - 36524 * century = inCentury
  generalize hyear : min (inCentury % 1461 / 365) 3 = year
  have hin' : 0 ≤ inCentury ∧ inCentury ≤ 36524 := by omega
  have hday : 0 ≤ inCentury % 1461 - 365 * year ∧ inCentury % 1461 - 365 * year ≤ 365 := by omega
  rw [yearStart_cycles (by omega) (by omega) (by omega) (by omega) (by omega) (by omega)]
  exact ⟨by omega, hday⟩

theorem month_spec {day : Int} (h : 0 ≤ day) (h' : day ≤ 365) :
    0 ≤ (5 * day + 2) / 153 ∧ (5 * day + 2) / 153 ≤ 11 ∧
      1 ≤ day - monthStart ((5 * day + 2) / 153) + 1 ∧
      day - monthStart ((5 * day + 2) / 153) + 1 ≤ 31 := by
  rw [monthStart]
  omega

theorem toDay_ofDay (n : Int) : toDay (ofDay n) = n := by
  obtain ⟨hz, hd, hd'⟩ := yearAndDay_spec (n + 306)
  obtain ⟨hm, hm', -, -⟩ := month_spec hd hd'
  simp only [ofDay]
  split
  · rename_i hlt
    rw [toDay, if_neg (by dsimp only; omega)]
    dsimp only
    rw [show (5 * (yearAndDay (n + 306)).2 + 2) / 153 + 3 - 3 =
      (5 * (yearAndDay (n + 306)).2 + 2) / 153 by omega]
    omega
  · rename_i hge
    rw [toDay, if_pos (by dsimp only; omega)]
    dsimp only
    rw [show (5 * (yearAndDay (n + 306)).2 + 2) / 153 - 9 + 9 =
      (5 * (yearAndDay (n + 306)).2 + 2) / 153 by omega, Int.add_sub_cancel]
    omega

/-- The last day of year 9999. -/
def lastDay : Int := 3652058

theorem ofDay_bounds {n : Int} (h : 0 ≤ n) (h' : n ≤ lastDay) :
    (0 ≤ (ofDay n).year ∧ (ofDay n).year ≤ 9999) ∧ (1 ≤ (ofDay n).month ∧ (ofDay n).month ≤ 12) ∧
      1 ≤ (ofDay n).day ∧ (ofDay n).day ≤ 31 := by
  obtain ⟨hz, hd, hd'⟩ := yearAndDay_spec (n + 306)
  obtain ⟨hm, hm', hday, hday'⟩ := month_spec hd hd'
  rw [lastDay] at h'
  have hstart := hz
  rw [yearStart] at hstart
  simp only [ofDay]
  split
  · refine ⟨?_, ?_, hday, hday'⟩ <;> dsimp only <;> omega
  · refine ⟨?_, ?_, hday, hday'⟩ <;> dsimp only <;> omega

def appendInt (x : Int) (width : Nat) : List Char :=
  (if x < 0 then ['-'] else []) ++ (Nat.toDigits 10 x.natAbs).leftpad width '0'

def format (date : Date) : List Char :=
  appendInt date.year 4 ++ '-' :: (appendInt date.month 2 ++ '-' :: appendInt date.day 2)

def parseDigits (cs : List Char) : Option Int :=
  if cs.all Char.isDigit then some (Nat.ofDigitChars 10 cs 0 : Nat) else none

def parse (text : List Char) : Option Int :=
  if text.length = 10 ∧ text[4]? = some '-' ∧ text[7]? = some '-' then
    (parseDigits (text.take 4)).bind fun year =>
      (parseDigits ((text.drop 5).take 2)).bind fun month =>
        (parseDigits (text.drop 8)).bind fun day =>
          let date : Date := ⟨year, month, day⟩
          if ofDay (toDay date) = date then some (toDay date) else none
  else none

theorem length_appendInt {x : Int} {width : Nat} (hw : 0 < width) (h : 0 ≤ x)
    (h' : x < 10 ^ width) : (appendInt x width).length = width := by
  have hlt : x.natAbs < 10 ^ width := by
    have hx : (x.natAbs : Int) = x := Int.natAbs_of_nonneg h
    exact_mod_cast hx ▸ h'
  have hlen := (Nat.length_toDigits_le_iff (by decide) hw).mpr hlt
  rw [appendInt, if_neg (by omega), List.nil_append, List.length_leftpad]
  omega

theorem parseDigits_appendInt {x : Int} (h : 0 ≤ x) (width : Nat) :
    parseDigits (appendInt x width) = some x := by
  have hdigits : (appendInt x width).all Char.isDigit = true := by
    rw [appendInt, if_neg (by omega), List.nil_append, List.leftpad, List.all_append,
      Bool.and_eq_true]
    constructor
    · rw [List.all_eq_true]
      intro c hc
      rw [List.eq_of_mem_replicate hc]
      rfl
    · rw [List.all_eq_true]
      intro c hc
      exact Nat.isDigit_of_mem_toDigits (by decide) (by decide) hc
  rw [parseDigits, if_pos hdigits, appendInt, if_neg (by omega), List.nil_append, List.leftpad,
    Nat.ofDigitChars_append, Nat.ofDigitChars_replicate_zero, Nat.mul_zero,
    Nat.ofDigitChars_ten_toDigits, Int.natAbs_of_nonneg h]

theorem parse_fields {year month day : List Char} (hy : year.length = 4) (hm : month.length = 2)
    (hd : day.length = 2) : parse (year ++ '-' :: (month ++ '-' :: day)) =
      (parseDigits year).bind fun y => (parseDigits month).bind fun m =>
        (parseDigits day).bind fun d =>
          if ofDay (toDay ⟨y, m, d⟩) = ⟨y, m, d⟩ then some (toDay ⟨y, m, d⟩) else none := by
  match year, month, day, hy, hm, hd with
  | [_, _, _, _], [_, _], [_, _], _, _, _ => rfl

theorem parse_format {n : Int} (h : 0 ≤ n) (h' : n ≤ lastDay) :
    parse (format (ofDay n)) = some n := by
  obtain ⟨⟨hy, hy'⟩, ⟨hm, hm'⟩, hd, hd'⟩ := ofDay_bounds h h'
  have hyear : (appendInt (ofDay n).year 4).length = 4 :=
    length_appendInt (by decide) hy (by omega)
  have hmonth : (appendInt (ofDay n).month 2).length = 2 :=
    length_appendInt (by decide) (by omega) (by omega)
  have hday : (appendInt (ofDay n).day 2).length = 2 :=
    length_appendInt (by decide) (by omega) (by omega)
  rw [format, parse_fields hyear hmonth hday, parseDigits_appendInt hy,
    parseDigits_appendInt (by omega), parseDigits_appendInt (by omega)]
  change (if ofDay (toDay (ofDay n)) = ofDay n then some (toDay (ofDay n)) else none) = some n
  rw [toDay_ofDay, if_pos rfl]

example : format (ofDay 739616) = ['2', '0', '2', '6', '-', '0', '1', '-', '0', '1'] := by
  decide +kernel

end SqlOptima.CivilDate
