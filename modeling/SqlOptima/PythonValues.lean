import Mathlib.Data.List.Basic
import SqlOptima.JsonValue
import SqlOptima.Lsn

namespace SqlOptima.PythonValues

open SqlOptima.Lsn
open SqlOptima.NumberText
open SqlOptima.JsonText
open SqlOptima.JsonValue

section Decimal

/-- A coefficient with an exponent, or one of the special values. -/
inductive Decimal
  | finite (sign : Bool) (coefficient : Nat) (exponent : Int)
  | infinity (sign : Bool)
  | nan (sign signaling : Bool) (payload : Nat)
  deriving DecidableEq

def signText (sign : Bool) : List Char := if sign then ['-'] else []

def Decimal.str : Decimal → List Char
  | .infinity sign => signText sign ++ "Infinity".toList
  | .nan sign signaling payload =>
      signText sign ++ (if signaling then "sNaN".toList else "NaN".toList) ++
        (if payload = 0 then [] else Nat.toDigits 10 payload)
  | .finite sign coefficient exponent =>
      let digits := Nat.toDigits 10 coefficient
      let leftdigits := exponent + digits.length
      let dotplace := if exponent ≤ 0 ∧ -6 < leftdigits then leftdigits else 1
      let parts :=
        if dotplace ≤ 0 then (['0'], '.' :: (List.replicate (-dotplace).toNat '0' ++ digits))
        else if (digits.length : Int) ≤ dotplace then
          (digits ++ List.replicate (dotplace - digits.length).toNat '0', [])
        else (digits.take dotplace.toNat, '.' :: digits.drop dotplace.toNat)
      let power := leftdigits - dotplace
      let suffix :=
        if power = 0 then []
        else 'E' :: (if power < 0 then '-' else '+') :: Nat.toDigits 10 power.natAbs
      signText sign ++ parts.1 ++ parts.2 ++ suffix

end Decimal

section Bytes

def byteText (quote : Char) (b : UInt8) : List Char :=
  if b.toNat = quote.toNat ∨ b.toNat = 0x5C then ['\\', Char.ofNat b.toNat]
  else if b.toNat = 0x09 then ['\\', 't']
  else if b.toNat = 0x0A then ['\\', 'n']
  else if b.toNat = 0x0D then ['\\', 'r']
  else if b.toNat < 0x20 ∨ 0x7F ≤ b.toNat then '\\' :: 'x' :: padded 2 16 b.toNat
  else [Char.ofNat b.toNat]

/-- A byte string as a literal, in single quotes unless these alone occur in
it. -/
def bytesStr (bs : List UInt8) : List Char :=
  let quote := if 0x27 ∈ bs ∧ 0x22 ∉ bs then '"' else Char.ofNat 0x27
  'b' :: quote :: (bs.flatMap (byteText quote) ++ [quote])

end Bytes

section Dates

def isLeap (year : Nat) : Bool := year % 4 = 0 ∧ (year % 100 ≠ 0 ∨ year % 400 = 0)

def daysInMonth (year month : Nat) : Nat :=
  if month = 2 then if isLeap year then 29 else 28
  else if month = 4 ∨ month = 6 ∨ month = 9 ∨ month = 11 then 30
  else 31

structure Date where
  year : Nat
  month : Nat
  day : Nat
  valid : 1 ≤ year ∧ year ≤ 9999 ∧ 1 ≤ month ∧ month ≤ 12 ∧ 1 ≤ day ∧ day ≤ daysInMonth year month
  deriving DecidableEq

structure Time where
  hour : Nat
  minute : Nat
  second : Nat
  microsecond : Nat
  valid : hour < 24 ∧ minute < 60 ∧ second < 60 ∧ microsecond < 1000000
  deriving DecidableEq

/-- A distance from UTC in microseconds, less than a day either way. -/
structure UtcOffset where
  micros : Int
  valid : micros.natAbs < 86400000000
  deriving DecidableEq

structure DateTime where
  date : Date
  time : Time
  offset : Option UtcOffset
  deriving DecidableEq

def Date.isoformat (d : Date) : List Char :=
  padded 4 10 d.year ++ '-' :: (padded 2 10 d.month ++ '-' :: padded 2 10 d.day)

/-- The microseconds, when there are any. -/
def microText (micros : Nat) : List Char :=
  if micros = 0 then [] else '.' :: padded 6 10 micros

def Time.isoformat (t : Time) : List Char :=
  padded 2 10 t.hour ++ ':' :: (padded 2 10 t.minute ++ ':' :: (padded 2 10 t.second ++
    microText t.microsecond))

/-- The seconds of an offset, when it has any. -/
def secondText (second micros : Nat) : List Char :=
  if second = 0 ∧ micros = 0 then [] else ':' :: (padded 2 10 second ++ microText micros)

def UtcOffset.isoformat (o : UtcOffset) : List Char :=
  (if o.micros < 0 then '-' else '+') ::
    (padded 2 10 (o.micros.natAbs / 3600000000) ++
      ':' :: (padded 2 10 (o.micros.natAbs / 60000000 % 60) ++
        secondText (o.micros.natAbs / 1000000 % 60) (o.micros.natAbs % 1000000)))

def offsetText : Option UtcOffset → List Char
  | none => []
  | some o => o.isoformat

def DateTime.isoformat (sep : Char) (d : DateTime) : List Char :=
  d.date.isoformat ++ sep :: (d.time.isoformat ++ offsetText d.offset)

def skip (c : Char) : List Char → Option (List Char)
  | [] => none
  | d :: cs => if d = c then some cs else none

def readDate (cs : List Char) : Option (Date × List Char) := do
  let (year, cs) ← readFixed 4 10 cs
  let (month, cs) ← readFixed 2 10 (← skip '-' cs)
  let (day, cs) ← readFixed 2 10 (← skip '-' cs)
  if h : _ then some (⟨year, month, day, h⟩, cs) else none

def readMicro (cs : List Char) : Option (Nat × List Char) :=
  match skip '.' cs with
  | none => some (0, cs)
  | some cs => readFixed 6 10 cs

def readTime (cs : List Char) : Option (Time × List Char) := do
  let (hour, cs) ← readFixed 2 10 cs
  let (minute, cs) ← readFixed 2 10 (← skip ':' cs)
  let (second, cs) ← readFixed 2 10 (← skip ':' cs)
  let (micro, cs) ← readMicro cs
  if h : _ then some (⟨hour, minute, second, micro, h⟩, cs) else none

def readSecond (cs : List Char) : Option (Nat × Nat × List Char) :=
  match skip ':' cs with
  | none => some (0, 0, cs)
  | some cs => do
      let (second, cs) ← readFixed 2 10 cs
      let (micro, cs) ← readMicro cs
      some (second, micro, cs)

def offsetOf (neg : Bool) (micros : Nat) : Option UtcOffset :=
  let signed : Int := if neg then -micros else micros
  if h : signed.natAbs < 86400000000 then some ⟨signed, h⟩ else none

def readOffset : List Char → Option (Option UtcOffset)
  | [] => some none
  | c :: cs =>
      if c = '+' ∨ c = '-' then do
        let (hour, cs) ← readFixed 2 10 cs
        let (minute, cs) ← readFixed 2 10 (← skip ':' cs)
        let (second, micro, cs) ← readSecond cs
        let offset ← offsetOf (c = '-') (((hour * 60 + minute) * 60 + second) * 1000000 + micro)
        if cs = [] then some (some offset) else none
      else none

/-- The extended forms that `isoformat` writes; the basic and the week forms of
the standard are left out. -/
def DateTime.fromisoformat (cs : List Char) : Option DateTime := do
  let (date, cs) ← readDate cs
  match cs with
  | [] => none
  | _ :: cs =>
      let (time, cs) ← readTime cs
      let offset ← readOffset cs
      some ⟨date, time, offset⟩

section ReadDates

theorem readFixed_two {n : Nat} (h : n < 100) (rest : List Char) :
    readFixed 2 10 (padded 2 10 n ++ rest) = some (n, rest) :=
  readFixed_padded (by decide) (by decide) (by decide) h rest

theorem skip_self (c : Char) (cs : List Char) : skip c (c :: cs) = some cs := by
  rw [skip, if_pos rfl]

theorem skip_ne {c : Char} {cs : List Char} (h : cs.head? ≠ some c) : skip c cs = none := by
  cases cs with
  | nil => rfl
  | cons d cs => exact if_neg fun hd => h (congrArg some hd)

theorem daysInMonth_le (year month : Nat) : daysInMonth year month ≤ 31 := by
  simp only [daysInMonth]
  split_ifs
  all_goals omega

theorem readDate_isoformat (d : Date) (rest : List Char) :
    readDate (d.isoformat ++ rest) = some (d, rest) := by
  obtain ⟨year, month, day, h⟩ := d
  have hdays := daysInMonth_le year month
  have hyear : readFixed 4 10 (padded 4 10 year ++ '-' :: (padded 2 10 month ++
      '-' :: (padded 2 10 day ++ rest))) = some (year, _) :=
    readFixed_padded (by decide) (by decide) (by decide) (by omega) _
  simp only [Date.isoformat, readDate, List.append_assoc, List.cons_append, hyear, skip_self,
    readFixed_two (show month < 100 by omega), readFixed_two (show day < 100 by omega),
    Option.bind_eq_bind, Option.bind_some, dif_pos h]

theorem readMicro_microText {micros : Nat} (h : micros < 1000000) {rest : List Char}
    (hrest : rest.head? ≠ some '.') :
    readMicro (microText micros ++ rest) = some (micros, rest) := by
  by_cases hzero : micros = 0
  · rw [microText, if_pos hzero, List.nil_append, readMicro, skip_ne hrest, hzero]
  · rw [microText, if_neg hzero, List.cons_append, readMicro, skip_self]
    exact readFixed_padded (by decide) (by decide) (by decide) h rest

theorem readTime_isoformat (t : Time) {rest : List Char} (hrest : rest.head? ≠ some '.') :
    readTime (t.isoformat ++ rest) = some (t, rest) := by
  obtain ⟨hour, minute, second, micro, h⟩ := t
  simp only [Time.isoformat, readTime, List.append_assoc, List.cons_append, skip_self,
    readFixed_two (show hour < 100 by omega), readFixed_two (show minute < 100 by omega),
    readFixed_two (show second < 100 by omega), readMicro_microText h.2.2.2 hrest,
    Option.bind_eq_bind, Option.bind_some, dif_pos h]

theorem readSecond_secondText {second micros : Nat} (hsecond : second < 100)
    (hmicros : micros < 1000000) :
    readSecond (secondText second micros) = some (second, micros, []) := by
  by_cases hzero : second = 0 ∧ micros = 0
  · rw [secondText, if_pos hzero, readSecond, hzero.1, hzero.2]
    rfl
  · have hmicro : readMicro (microText micros ++ []) = some (micros, []) :=
      readMicro_microText hmicros (by simp)
    rw [List.append_nil] at hmicro
    rw [secondText, if_neg hzero, readSecond, skip_self]
    simp only [readFixed_two hsecond, hmicro, Option.bind_eq_bind, Option.bind_some]

theorem offsetOf_natAbs (o : UtcOffset) :
    offsetOf (decide (o.micros < 0)) o.micros.natAbs = some o := by
  obtain ⟨micros, h⟩ := o
  have hsigned : (if decide (micros < 0) = true then -(micros.natAbs : Int)
      else micros.natAbs) = micros := by
    split_ifs with hneg
    · have := of_decide_eq_true hneg
      omega
    · have := of_decide_eq_false (Bool.eq_false_of_not_eq_true hneg)
      omega
  simp only [offsetOf, hsigned, dif_pos h]

theorem readOffset_offsetText (o : Option UtcOffset) : readOffset (offsetText o) = some o := by
  cases o with
  | none => rfl
  | some o =>
      have h := o.valid
      have hsecond : readSecond (secondText (o.micros.natAbs / 1000000 % 60)
          (o.micros.natAbs % 1000000)) = some (_, _, []) :=
        readSecond_secondText (by omega) (by omega)
      have hhour := readFixed_two (show o.micros.natAbs / 3600000000 < 100 by omega)
      have hminute := readFixed_two (show o.micros.natAbs / 60000000 % 60 < 100 by omega)
      have htotal : ((o.micros.natAbs / 3600000000 * 60 + o.micros.natAbs / 60000000 % 60) * 60 +
          o.micros.natAbs / 1000000 % 60) * 1000000 + o.micros.natAbs % 1000000 =
            o.micros.natAbs := by omega
      have hsign : (if o.micros < 0 then '-' else '+') = '+' ∨
          (if o.micros < 0 then '-' else '+') = '-' := by
        split_ifs
        · exact Or.inr rfl
        · exact Or.inl rfl
      have hneg : decide ((if o.micros < 0 then '-' else '+') = '-') = decide (o.micros < 0) := by
        split_ifs with hlt
        · simp [hlt]
        · simp [hlt]
      rw [offsetText, UtcOffset.isoformat, readOffset, if_pos hsign]
      simp only [hhour, hminute, hsecond, skip_self, htotal, hneg, offsetOf_natAbs,
        Option.bind_eq_bind, Option.bind_some, if_true]

theorem offsetText_head (o : Option UtcOffset) : (offsetText o).head? ≠ some '.' := by
  cases o with
  | none => simp [offsetText]
  | some o =>
      simp only [offsetText, UtcOffset.isoformat, List.head?_cons, ne_eq, Option.some.injEq]
      split_ifs
      · decide
      · decide

theorem fromisoformat_isoformat (sep : Char) (d : DateTime) :
    DateTime.fromisoformat (d.isoformat sep) = some d := by
  obtain ⟨date, time, offset⟩ := d
  simp only [DateTime.fromisoformat, DateTime.isoformat, readDate_isoformat,
    readTime_isoformat time (offsetText_head offset), readOffset_offsetText,
    Option.bind_eq_bind, Option.bind_some]

end ReadDates

end Dates

section Uuid

structure UUID where
  value : Nat
  valid : value < 16 ^ 32
  deriving DecidableEq

def UUID.str (u : UUID) : List Char :=
  let hex := padded 32 16 u.value
  hex.take 8 ++ '-' :: ((hex.drop 8).take 4 ++ '-' :: ((hex.drop 12).take 4 ++
    '-' :: ((hex.drop 16).take 4 ++ '-' :: hex.drop 20)))

def UUID.parse (cs : List Char) : Option UUID :=
  let hex := cs.filter (· ≠ '-')
  if hex.length = 32 then
    match readDigits 16 hex with
    | none => none
    | some n => if h : n < 16 ^ 32 then some ⟨n, h⟩ else none
  else none

theorem digitValue_of_readOnto {base n m : Nat} {cs : List Char}
    (h : readOnto base n cs = some m) : ∀ c ∈ cs, digitValue c ≠ none := by
  induction cs generalizing n with
  | nil => simp
  | cons c cs ih =>
      rw [readOnto] at h
      cases hd : digitValue c with
      | none => simp [hd] at h
      | some d =>
          simp only [hd] at h
          split_ifs at h
          intro e he
          rcases List.mem_cons.mp he with rfl | he
          · simp [hd]
          · exact ih h e he

theorem ne_of_mem_padded {width n : Nat} {c d : Char} (hc : c ∈ padded width 16 n)
    (hd : digitValue d = none) : c ≠ d := by
  rintro rfl
  have hread := readDigits_padded (show 1 < 16 by decide) (Nat.le_refl 16) width n
  rw [readDigits, if_neg (padded_ne_nil width 16 n)] at hread
  exact digitValue_of_readOnto hread c hc hd

theorem UUID.parse_str (u : UUID) : UUID.parse u.str = some u := by
  have hlen : (padded 32 16 u.value).length = 32 := length_padded (by decide) (by decide) u.valid
  have hfilter : ∀ cs : List Char, (∀ c ∈ cs, c ∈ padded 32 16 u.value) →
      cs.filter (· ≠ '-') = cs := by
    intro cs hcs
    apply List.filter_eq_self.mpr
    intro c hc
    simpa using ne_of_mem_padded (hcs c hc) (show digitValue '-' = none by decide)
  have htake : ∀ k l, ((padded 32 16 u.value).drop k |>.take l).filter (· ≠ '-') =
      ((padded 32 16 u.value).drop k).take l :=
    fun k l => hfilter _ fun c hc => List.mem_of_mem_drop (List.mem_of_mem_take hc)
  have hfirst : ((padded 32 16 u.value).take 8).filter (· ≠ '-') = (padded 32 16 u.value).take 8 :=
    hfilter _ fun c hc => List.mem_of_mem_take hc
  have hlast : ((padded 32 16 u.value).drop 20).filter (· ≠ '-') =
      (padded 32 16 u.value).drop 20 := hfilter _ fun c hc => List.mem_of_mem_drop hc
  have hjoin : u.str.filter (· ≠ '-') = padded 32 16 u.value := by
    simp only [UUID.str, List.filter_append, hfirst, List.filter_cons, htake, hlast, ne_eq,
      not_true_eq_false, decide_false, Bool.false_eq_true, if_false]
    rw [← List.append_assoc, ← List.append_assoc, ← List.append_assoc, ← List.take_add,
      ← List.take_add, ← List.take_add]
    exact List.take_append_drop 20 _
  simp only [UUID.parse, hjoin, hlen, if_true, readDigits_padded (show 1 < 16 by decide)
    (Nat.le_refl 16), dif_pos u.valid]

end Uuid

section LsnText

def lsnToString (p : LsnPosition) : List Char :=
  '0' :: 'x' :: [':'].intercalate
    [paddedUpper 8 16 p.segment1, paddedUpper 8 16 p.segment2, paddedUpper 4 16 p.segment3]

def lsnFromString (cs : List Char) : Option LsnPosition :=
  let clean := if ['0', 'x'].isPrefixOf cs then cs.drop 2 else cs
  match clean.splitOn ':' with
  | p1 :: p2 :: p3 :: _ => do
      let segment1 ← readDigits 16 p1
      let segment2 ← readDigits 16 p2
      let segment3 ← readDigits 16 p3
      some ⟨segment1, segment2, segment3⟩
  | _ => none

theorem readDigits_hex (width n : Nat) : readDigits 16 (paddedUpper width 16 n) = some n :=
  readDigits_paddedUpper (by decide) (Nat.le_refl 16) width n

theorem colon_notMem_paddedUpper (width n : Nat) : ':' ∉ paddedUpper width 16 n := by
  intro hc
  have hread := readDigits_hex width n
  rw [readDigits, if_neg (by simp [paddedUpper, padded_ne_nil])] at hread
  exact digitValue_of_readOnto hread ':' hc (by decide)

theorem lsnFromString_lsnToString (p : LsnPosition) :
    lsnFromString (lsnToString p) = some p := by
  have hsplit : ([':'].intercalate [paddedUpper 8 16 p.segment1, paddedUpper 8 16 p.segment2,
      paddedUpper 4 16 p.segment3]).splitOn ':' = [paddedUpper 8 16 p.segment1,
        paddedUpper 8 16 p.segment2, paddedUpper 4 16 p.segment3] := by
    apply List.splitOn_intercalate
    · simp [colon_notMem_paddedUpper]
    · simp
  have hfront : ∀ cs : List Char, ['0', 'x'].isPrefixOf ('0' :: 'x' :: cs) = true := fun _ => rfl
  simp only [lsnFromString, lsnToString, hfront, if_true, List.drop_succ_cons, List.drop_zero,
    hsplit, readDigits_hex, Option.bind_eq_bind, Option.bind_some]

end LsnText

end SqlOptima.PythonValues
