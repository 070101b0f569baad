import SqlOptima.TransformChains
import SqlOptima.TransformTexts

namespace SqlOptima.TransformAgreement

open SqlOptima.CellValues
open SqlOptima.ColumnTransforms
open SqlOptima.ColumnMasking
open SqlOptima.PythonTransforms (UnicodeTables PyValue PyError digitsOf lastFourOf isAsciiDigit
  asciiDigit nibble boolText decimalOf hexChar hexdigest token maskWith)
open SqlOptima.TransformChains
open SqlOptima.TransformTexts
open SqlOptima.Utf8Text

section Outputs

variable (u : UnicodeTables) (rt : Runtime)

/-- The text a value is written out as, `none` for NULL. -/
def pyText : PyValue → Option Text
  | .none => none
  | p => some (utf8 p.text)

def goText : CellValue → Option Text
  | .null => none
  | c => some (cellValueString rt c)

/-- Both run the chains they chose on a text and end with the same one. -/
def SameOutput (goChain pyChain : List Transform) (v : List Char) : Prop :=
  ∃ q, PythonTransforms.runChain u rt pyChain (.str v) = .ok q ∧
    pyText q = goText rt (runChain rt goChain (.str (utf8 v)))

/-- What Go makes of a text with one transform. -/
def goChars : Transform → List Char → Option (List Char)
  | .bitToBool, v => some v
  | .moneyToDecimal, v => some v
  | .datetimeToUTC, v => some v
  | .stripTrailingNulls, v => some (v.rdropWhile (· == '\x00'))
  | .identity, v => some v
  | .maskNullify, _ => none
  | .maskRedact, _ => some PythonTransforms.redacted
  | .maskHash, v => some (hexdigest rt v)
  | .maskTokenize, v => some (token rt v)
  | .maskPartialEmail, v => some (PythonTransforms.partialEmail v)
  | .maskLastFour, v => some (lastFourOf (asciiDigits v))
  | .maskFPENumeric, v => some (fpeText rt v)

def cellOf : Option (List Char) → CellValue
  | none => .null
  | some v => .str (utf8 v)

theorem apply_str (t : Transform) (v : List Char) :
    t.apply rt (.str (utf8 v)) = cellOf (goChars rt t v) := by
  cases t with
  | bitToBool => rfl
  | moneyToDecimal => rfl
  | datetimeToUTC => rfl
  | stripTrailingNulls =>
      exact congrArg CellValue.str (rdropWhile_utf8 (c := '\x00') (by decide) v)
  | identity => rfl
  | maskNullify => rfl
  | maskRedact => exact congrArg CellValue.str redacted_eq
  | maskHash => exact congrArg CellValue.str (hexSum_eq rt v)
  | maskTokenize => exact congrArg CellValue.str (token_eq rt v)
  | maskPartialEmail => exact congrArg CellValue.str (partialEmail_eq v)
  | maskLastFour => exact congrArg CellValue.str (lastFour_eq v)
  | maskFPENumeric => exact congrArg CellValue.str (fpeNumeric_eq rt v)

theorem goText_cellOf (w : Option (List Char)) : goText rt (cellOf w) = w.map utf8 := by
  cases w with
  | none => rfl
  | some w => rfl

theorem pyText_of_ne_none {p : PyValue} (h : p ≠ .none) : pyText p = some (utf8 p.text) := by
  cases p with
  | none => exact absurd rfl h
  | str w => rfl
  | bool b => rfl
  | decimal d => rfl

theorem maskWith_of_ne_none {p : PyValue} (h : p ≠ .none)
    (f : List Char → Except PyError (List Char)) : maskWith f p = (f p.text).map .str := by
  cases p with
  | none => exact absurd rfl h
  | str w => rfl
  | bool b => rfl
  | decimal d => rfl

end Outputs

section Email

/-- What is left of an address: the first character before the sign, and all
after it. -/
def emailParts (text : List Char) : Option (Option Char × List Char) :=
  if '@' ∈ text then
    some ((text.takeWhile (· != '@')).head?, (text.dropWhile (· != '@')).drop 1)
  else none

theorem masked_ne_redacted (front domain : List Char) :
    (match front with
      | [] => '*' :: '@' :: domain
      | c :: _ => c :: '*' :: '*' :: '*' :: '@' :: domain) ≠ PythonTransforms.redacted := by
  cases front with
  | nil => simp [PythonTransforms.redacted]
  | cons c _ => simp [PythonTransforms.redacted]

theorem partialEmail_eq_iff {w v : List Char} :
    PythonTransforms.partialEmail w = PythonTransforms.partialEmail v ↔
      emailParts w = emailParts v := by
  rw [PythonTransforms.partialEmail, PythonTransforms.partialEmail, emailParts, emailParts]
  dsimp only
  generalize (w.dropWhile (· != '@')).drop 1 = domain
  generalize (v.dropWhile (· != '@')).drop 1 = domain'
  by_cases hw : '@' ∈ w
  · by_cases hv : '@' ∈ v
    · rw [if_pos hw, if_pos hv, if_pos hw, if_pos hv, Option.some_inj, Prod.mk.injEq]
      cases w.takeWhile (· != '@') with
      | nil =>
          cases v.takeWhile (· != '@') with
          | nil => simp
          | cons d _ => simp
      | cons c _ =>
          cases v.takeWhile (· != '@') with
          | nil => simp
          | cons d _ => simp
    · rw [if_pos hw, if_neg hv, if_pos hw, if_neg hv]
      apply iff_of_false (masked_ne_redacted _ _)
      exact Option.some_ne_none _
  · by_cases hv : '@' ∈ v
    · rw [if_neg hw, if_pos hv, if_neg hw, if_pos hv]
      apply iff_of_false (masked_ne_redacted _ _).symm
      exact (Option.some_ne_none _).symm
    · rw [if_neg hw, if_neg hv, if_neg hw, if_neg hv]
      exact iff_of_true rfl rfl

end Email

section LastFour

/-- Both have at most four digits, or both more and the same last four. -/
def LastFourKept (digits digits' : List Char) : Prop :=
  digits.length ≤ 4 ∧ digits'.length ≤ 4 ∨
    4 < digits.length ∧ 4 < digits'.length ∧
      digits.drop (digits.length - 4) = digits'.drop (digits'.length - 4)

theorem lastFourOf_eq_iff {digits digits' : List Char} :
    lastFourOf digits = lastFourOf digits' ↔ LastFourKept digits digits' := by
  have hne : ∀ ds : List Char, ¬ ds.length ≤ 4 → ds.drop (ds.length - 4) ≠ [] := by
    intro ds hds hnil
    rw [List.drop_eq_nil_iff] at hnil
    omega
  rw [lastFourOf, lastFourOf, List.append_cancel_left_eq, LastFourKept]
  by_cases h : digits.length ≤ 4
  · by_cases h' : digits'.length ≤ 4
    · rw [if_pos h, if_pos h']
      exact iff_of_true rfl (.inl ⟨h, h'⟩)
    · rw [if_pos h, if_neg h']
      apply iff_of_false (hne digits' h').symm
      omega
  · by_cases h' : digits'.length ≤ 4
    · rw [if_neg h, if_pos h']
      apply iff_of_false (hne digits h)
      omega
    · rw [if_neg h, if_neg h']
      constructor
      · intro heq
        exact .inr ⟨by omega, by omega, heq⟩
      · rintro (⟨hle, -⟩ | ⟨-, -, heq⟩)
        · exact absurd hle h
        · exact heq

end LastFour

section Digest

variable (rt : Runtime)

def digest (text : List Char) : List UInt8 := List.ofFn (rt.sha256 (utf8 text))

def hexPair (b : UInt8) : List Char := [hexChar (b.toNat / 16), hexChar (b.toNat % 16)]

theorem hexChar_inj {m n : Nat} (hm : m < 16) (hn : n < 16) (h : hexChar m = hexChar n) :
    m = n := by
  have hall : ∀ m < 16, ∀ n < 16, hexChar m = hexChar n → m = n := by decide
  exact hall m hm n hn h

theorem hexPair_injective : Function.Injective hexPair := by
  intro b b' h
  have hb := UInt8.toNat_lt b
  have hb' := UInt8.toNat_lt b'
  rw [hexPair, hexPair, List.cons.injEq, List.cons.injEq] at h
  have hhigh := hexChar_inj (by omega) (by omega) h.1
  have hlow := hexChar_inj (by omega) (by omega) h.2.1
  rw [← UInt8.toNat_inj]
  omega

theorem flatMap_hexPair_injective : Function.Injective (List.flatMap hexPair) := by
  intro as bs h
  induction as generalizing bs with
  | nil =>
      cases bs with
      | nil => rfl
      | cons b bs => exact absurd h (by simp [hexPair])
  | cons a as ih =>
      cases bs with
      | nil => exact absurd h (by simp [hexPair])
      | cons b bs =>
          rw [List.flatMap_cons, List.flatMap_cons] at h
          obtain ⟨hhead, htail⟩ := List.append_inj h rfl
          rw [hexPair_injective hhead, ih htail]

theorem take_flatMap_hexPair (n : Nat) (bs : List UInt8) :
    (bs.flatMap hexPair).take (2 * n) = (bs.take n).flatMap hexPair := by
  induction n generalizing bs with
  | zero => simp
  | succ n ih =>
      cases bs with
      | nil => simp
      | cons b bs =>
          rw [List.flatMap_cons, List.take_succ_cons, List.flatMap_cons, ← ih]
          rfl

theorem hexdigest_eq_iff {w v : List Char} :
    hexdigest rt w = hexdigest rt v ↔ digest rt w = digest rt v :=
  flatMap_hexPair_injective.eq_iff

theorem token_eq_iff {w v : List Char} :
    token rt w = token rt v ↔ (digest rt w).take 6 = (digest rt v).take 6 := by
  rw [token, token, List.append_cancel_left_eq]
  change ((digest rt w).flatMap hexPair).take (2 * 6) =
    ((digest rt v).flatMap hexPair).take (2 * 6) ↔ _
  rw [take_flatMap_hexPair, take_flatMap_hexPair]
  exact flatMap_hexPair_injective.eq_iff

end Digest

section Numeric

variable (u : UnicodeTables) (rt : Runtime)

/-- The digits Python writes: one hexadecimal digit of the digest for each. -/
def pyMappedDigits (digits : List Char) : List Char :=
  (List.range digits.length).map fun i => digitChar (nibble rt digits i)

/-- What Python's digits and Go's have to share: at most sixty-four of them, none
that has no decimal value, the same places, and for each the same remainder of a
hexadecimal digit of Python's digest and of a byte of Go's. -/
structure SameDigits (w v : List Char) : Prop where
  length_le : (digitsOf u w).length ≤ 64
  decimal : ∀ c ∈ w, u.isDigit c → (u.digit c).isSome
  places : blank u.isDigit w = blank isAsciiDigit v
  remainders : ∀ i < (digitsOf u w).length, nibble rt (digitsOf u w) i % 10 =
    (rt.sha256 (utf8 (asciiDigits v)) (Fin.ofNat 32 i)).toNat % 10

def FPEKept (w v : List Char) : Prop :=
  digitsOf u w = [] ∧ asciiDigits v = [] ∨ digitsOf u w ≠ [] ∧ SameDigits u rt w v

variable {u rt}

theorem isDigit_of_isAsciiDigit {c : Char} (h : isAsciiDigit c) : u.isDigit c := by
  apply u.isDigit_of_digit
  rw [u.digit_ascii c (isAscii_of_isAsciiDigit h)]
  exact h

theorem digitsOf_sublist (w : List Char) : List.Sublist (digitsOf u w) (w.filter u.isDigit) := by
  apply List.monotone_filter_right
  intro c hc
  exact u.isDigit_of_digit c hc

theorem countP_isDigit_le_iff (w : List Char) :
    w.countP u.isDigit ≤ (digitsOf u w).length ↔ ∀ c ∈ w, u.isDigit c → (u.digit c).isSome := by
  rw [List.countP_eq_length_filter]
  constructor
  · intro hle c hc hdigit
    have heq := (digitsOf_sublist w).eq_of_length_le hle
    have hmem : c ∈ digitsOf u w := by
      rw [heq]
      exact List.mem_filter.mpr ⟨hc, hdigit⟩
    exact (List.mem_filter.mp hmem).2
  · intro hall
    apply Nat.le_of_eq
    rw [digitsOf]
    congr 1
    apply List.filter_congr
    intro c hc
    rw [Bool.eq_iff_iff]
    exact ⟨hall c hc, u.isDigit_of_digit c⟩

/-- The loop reads past its digits where the text has more than it found. -/
theorem pyReplaceDigits_eq (isDigit : Char → Bool) (text mapped : List Char) :
    PythonTransforms.replaceDigits isDigit text mapped =
      if text.countP isDigit ≤ mapped.length then .ok (fill isDigit text mapped)
      else .error .indexError := by
  induction text generalizing mapped with
  | nil => rfl
  | cons c text ih =>
      unfold PythonTransforms.replaceDigits
      by_cases hc : isDigit c = true
      · rw [if_pos hc, List.countP_cons_of_pos hc]
        cases mapped with
        | nil => rfl
        | cons d mapped =>
            dsimp only
            rw [ih, List.length_cons, fill, if_pos hc]
            split
            · next hle =>
                rw [if_pos (Nat.succ_le_succ hle)]
                rfl
            · next hlt =>
                rw [if_neg (fun h => hlt (Nat.le_of_succ_le_succ h))]
                rfl
      · rw [if_neg hc, List.countP_cons_of_neg hc, ih, fill, if_neg hc]
        split
        · rfl
        · rfl

theorem fills_pyMappedDigits (rt : Runtime) {w : List Char}
    (h : ∀ c ∈ w, u.isDigit c → (u.digit c).isSome) :
    Fills u.isDigit w (pyMappedDigits rt (digitsOf u w)) := by
  refine ⟨?_, ?_⟩
  · intro d hd
    obtain ⟨i, -, rfl⟩ := List.mem_map.mp hd
    exact isAsciiDigit_digitChar _
  · rw [pyMappedDigits, List.length_map, List.length_range]
    apply Nat.le_antisymm
    · rw [List.countP_eq_length_filter]
      exact (digitsOf_sublist w).length_le
    · exact (countP_isDigit_le_iff w).mpr h

theorem pyFPENumeric_eq (w : List Char) :
    PythonTransforms.fpeNumeric u rt w =
      if digitsOf u w = [] then .ok PythonTransforms.redacted
      else if (digitsOf u w).length > 64 then .error .indexError
      else if w.countP u.isDigit ≤ (digitsOf u w).length then
        .ok (fill u.isDigit w (pyMappedDigits rt (digitsOf u w)))
      else .error .indexError := by
  have hlength : (pyMappedDigits rt (digitsOf u w)).length = (digitsOf u w).length := by
    rw [pyMappedDigits, List.length_map, List.length_range]
  rw [PythonTransforms.fpeNumeric, ← hlength, ← pyReplaceDigits_eq, hlength]
  rfl

/-- The two lists of digits agree where the remainders do. -/
theorem mappedDigits_eq_iff {digits digits' : List Char} (h : digits.length = digits'.length) :
    pyMappedDigits rt digits = mappedDigits rt digits' ↔
      ∀ i < digits.length, nibble rt digits i % 10 =
        (rt.sha256 (utf8 digits') (Fin.ofNat 32 i)).toNat % 10 := by
  rw [pyMappedDigits, mappedDigits, ← h, List.map_inj_left]
  simp only [List.mem_range, digitChar_inj]

theorem length_eq_of_places (rt : Runtime) {w v : List Char}
    (hdecimal : ∀ c ∈ w, u.isDigit c → (u.digit c).isSome)
    (hplaces : blank u.isDigit w = blank isAsciiDigit v) :
    (digitsOf u w).length = (asciiDigits v).length := by
  have hlength := (fills_pyMappedDigits rt hdecimal).length_eq
  rw [pyMappedDigits, List.length_map, List.length_range] at hlength
  rw [hlength, length_asciiDigits, ← countP_blank (fun _ => isDigit_of_isAsciiDigit) w, hplaces,
    countP_blank (fun _ h => h)]

/-- Where Python fills its digits in, Go ends with the same text if they share
places and remainders. -/
theorem fill_eq_fpeText_iff {w v : List Char} (hw : digitsOf u w ≠ [])
    (hlength : (digitsOf u w).length ≤ 64)
    (hdecimal : ∀ c ∈ w, u.isDigit c → (u.digit c).isSome) :
    fill u.isDigit w (pyMappedDigits rt (digitsOf u w)) = fpeText rt v ↔ SameDigits u rt w v := by
  have hfills : Fills u.isDigit w (pyMappedDigits rt (digitsOf u w)) :=
    fills_pyMappedDigits rt hdecimal
  have hascii : ∀ c, isAsciiDigit c → u.isDigit c := fun _ => isDigit_of_isAsciiDigit
  rw [fpeText]
  by_cases hv : asciiDigits v = []
  · rw [if_pos hv]
    apply iff_of_false
    · apply fill_ne_redacted hascii hfills
      rw [pyMappedDigits, Ne, List.map_eq_nil_iff, List.range_eq_nil, List.length_eq_zero_iff]
      exact hw
    · intro hsame
      apply hw
      rw [← List.length_eq_zero_iff, length_eq_of_places rt hsame.decimal hsame.places, hv]
      rfl
  · rw [if_neg hv, fill_eq_iff hascii (fun _ h => h) hfills (fills_mappedDigits rt v)]
    constructor
    · rintro ⟨hplaces, hmapped⟩
      have hsame := length_eq_of_places rt hdecimal hplaces
      exact ⟨hlength, hdecimal, hplaces, (mappedDigits_eq_iff hsame).mp hmapped⟩
    · intro h
      have hsame := length_eq_of_places rt hdecimal h.places
      exact ⟨h.places, (mappedDigits_eq_iff hsame).mpr h.remainders⟩

theorem fpe_eq_iff {w v : List Char} :
    PythonTransforms.fpeNumeric u rt w = .ok (fpeText rt v) ↔ FPEKept u rt w v := by
  rw [pyFPENumeric_eq, FPEKept]
  by_cases hw : digitsOf u w = []
  · rw [if_pos hw, Except.ok.injEq, fpeText]
    by_cases hv : asciiDigits v = []
    · rw [if_pos hv]
      exact iff_of_true rfl (.inl ⟨hw, hv⟩)
    · rw [if_neg hv]
      apply iff_of_false
      · apply Ne.symm
        apply fill_ne_redacted (fun _ h => h) (fills_mappedDigits rt v)
        rw [mappedDigits, Ne, List.map_eq_nil_iff, List.range_eq_nil, List.length_eq_zero_iff]
        exact hv
      · rintro (⟨-, h⟩ | ⟨h, -⟩)
        · exact hv h
        · exact h hw
  · rw [if_neg hw]
    have hiff : digitsOf u w = [] ∧ asciiDigits v = [] ∨
        digitsOf u w ≠ [] ∧ SameDigits u rt w v ↔ SameDigits u rt w v := by
      simp [hw]
    rw [hiff]
    by_cases hlength : (digitsOf u w).length > 64
    · rw [if_pos hlength]
      exact iff_of_false (by simp) fun h => absurd h.length_le (Nat.not_le.mpr hlength)
    · rw [if_neg hlength]
      by_cases hdecimal : w.countP u.isDigit ≤ (digitsOf u w).length
      · rw [if_pos hdecimal, Except.ok.injEq]
        exact fill_eq_fpeText_iff hw (Nat.not_lt.mp hlength)
          ((countP_isDigit_le_iff w).mp hdecimal)
      · rw [if_neg hdecimal]
        exact iff_of_false (by simp) fun h => hdecimal ((countP_isDigit_le_iff w).mpr h.decimal)

end Numeric

section Steps

variable (u : UnicodeTables) (rt : Runtime)

/-- When a transform makes the same of Python's value as of Go's text. -/
def StepKept : Transform → PyValue → List Char → Prop
  | .bitToBool, p, v => boolText p.truth = v
  | .moneyToDecimal, p, v => ∃ d, decimalOf u p.text = some d ∧ d.str = v
  | .datetimeToUTC, p, v => p.text = v
  | .stripTrailingNulls, p, v =>
      (PythonTransforms.stripTrailingNulls p).text = v.rdropWhile (· == '\x00')
  | .identity, p, v => p.text = v
  | .maskNullify, _, _ => True
  | .maskRedact, _, _ => True
  | .maskHash, p, v => digest rt p.text = digest rt v
  | .maskTokenize, p, v => (digest rt p.text).take 6 = (digest rt v).take 6
  | .maskPartialEmail, p, v => emailParts p.text = emailParts v
  | .maskLastFour, p, v => LastFourKept (digitsOf u p.text) (asciiDigits v)
  | .maskFPENumeric, p, v => FPEKept u rt p.text v

variable {u rt}

theorem text_eq_iff {q : PyValue} (hq : q ≠ .none) {w : List Char} :
    pyText q = (some w).map utf8 ↔ q.text = w := by
  rw [pyText_of_ne_none hq, Option.map_some, Option.some_inj, utf8_injective.eq_iff]

theorem mask_iff {p : PyValue} (hp : p ≠ .none) {f : List Char → Except PyError (List Char)}
    {w : List Char} :
    (∃ q, maskWith f p = .ok q ∧ pyText q = (some w).map utf8) ↔ f p.text = .ok w := by
  rw [maskWith_of_ne_none hp]
  constructor
  · rintro ⟨q, hq, htext⟩
    cases hf : f p.text with
    | error e =>
        rw [hf] at hq
        cases hq
    | ok w' =>
        rw [hf] at hq
        cases hq
        exact congrArg Except.ok ((text_eq_iff (by simp)).mp htext)
  · intro hf
    rw [hf]
    exact ⟨.str w, rfl, rfl⟩

theorem ok_iff {q : PyValue} (hq : q ≠ .none) {w : List Char} :
    (∃ q', (Except.ok q : Except PyError PyValue) = .ok q' ∧ pyText q' = (some w).map utf8) ↔
      q.text = w := by
  constructor
  · rintro ⟨q', hok, htext⟩
    cases hok
    exact (text_eq_iff hq).mp htext
  · intro htext
    exact ⟨q, rfl, (text_eq_iff hq).mpr htext⟩

theorem mask_ok_iff {p : PyValue} (hp : p ≠ .none) (f : List Char → List Char) {w : List Char} :
    (∃ q, maskWith (fun text => .ok (f text)) p = .ok q ∧ pyText q = (some w).map utf8) ↔
      f p.text = w := by
  rw [mask_iff hp, Except.ok.injEq]

theorem moneyToDecimal_of_ne_none {p : PyValue} (hp : p ≠ .none) :
    PythonTransforms.moneyToDecimal u p =
      (decimalOf u p.text).elim (.error .invalidOperation) fun d => .ok (.decimal d) := by
  unfold PythonTransforms.moneyToDecimal
  split
  · exact absurd rfl hp
  · split
    · next h => rw [h, Option.elim_none]
    · next d h => rw [h, Option.elim_some]

theorem money_iff {p : PyValue} (hp : p ≠ .none) {w : List Char} :
    (∃ q, PythonTransforms.moneyToDecimal u p = .ok q ∧ pyText q = (some w).map utf8) ↔
      ∃ d, decimalOf u p.text = some d ∧ d.str = w := by
  rw [moneyToDecimal_of_ne_none hp]
  cases decimalOf u p.text with
  | none =>
      apply iff_of_false
      · rintro ⟨q, hq, -⟩
        cases hq
      · rintro ⟨d, hd, -⟩
        cases hd
  | some d =>
      rw [Option.elim_some, ok_iff (by simp)]
      constructor
      · intro htext
        exact ⟨d, rfl, htext⟩
      · rintro ⟨d', hd, htext⟩
        cases hd
        exact htext

/-- One transform keeps the texts together exactly where it is said to. -/
theorem step_iff (t : Transform) {p : PyValue} (hp : p ≠ .none) (v : List Char) :
    (∃ q, PythonTransforms.apply u rt t p = .ok q ∧
      pyText q = goText rt (t.apply rt (.str (utf8 v)))) ↔ StepKept u rt t p v := by
  rw [apply_str, goText_cellOf]
  cases t with
  | bitToBool =>
      have hbool : PythonTransforms.bitToBool p = .bool p.truth := by
        cases p with
        | none => exact absurd rfl hp
        | str v => rfl
        | bool b => rfl
        | decimal d => rfl
      rw [PythonTransforms.apply, hbool]
      exact ok_iff (by simp)
  | moneyToDecimal => exact money_iff hp
  | datetimeToUTC => exact ok_iff hp
  | stripTrailingNulls =>
      apply ok_iff
      cases p with
      | none => exact absurd rfl hp
      | str v => simp [PythonTransforms.stripTrailingNulls]
      | bool b => exact hp
      | decimal d => exact hp
  | identity => exact ok_iff hp
  | maskNullify => exact iff_of_true ⟨.none, rfl, rfl⟩ trivial
  | maskRedact => exact (mask_ok_iff hp fun _ => _).trans (iff_of_true rfl trivial)
  | maskHash => exact (mask_ok_iff hp (hexdigest rt)).trans (hexdigest_eq_iff rt)
  | maskTokenize => exact (mask_ok_iff hp (token rt)).trans (token_eq_iff rt)
  | maskPartialEmail =>
      exact (mask_ok_iff hp PythonTransforms.partialEmail).trans partialEmail_eq_iff
  | maskLastFour =>
      exact (mask_ok_iff hp fun text => lastFourOf (digitsOf u text)).trans lastFourOf_eq_iff
  | maskFPENumeric => exact (mask_iff hp).trans fpe_eq_iff

end Steps

section Chains

variable (u : UnicodeTables) (rt : Runtime)

/-- The transforms a declared type brings along. -/
inductive IsDefault : Transform → Prop
  | bit : IsDefault .bitToBool
  | money : IsDefault .moneyToDecimal
  | datetime : IsDefault .datetimeToUTC
  | char : IsDefault .stripTrailingNulls

/-- What Python holds and the text Go holds after the default of a type. -/
def afterDefault : Transform → List Char → Option (PyValue × List Char)
  | .bitToBool, v => some (.bool (v ≠ []), v)
  | .moneyToDecimal, v => (decimalOf u v).map fun d => (.decimal d, v)
  | .stripTrailingNulls, v =>
      some (.str (v.rdropWhile (· == '\x00')), v.rdropWhile (· == '\x00'))
  | _, v => some (.str v, v)

/-- When a chain makes the same of a text on both sides. -/
def OutputKept : List Transform → List Char → Prop
  | [], _ => True
  | [t], v => StepKept u rt t (.str v) v
  | s :: t :: _, v => ∃ p w, afterDefault u s v = some (p, w) ∧ StepKept u rt t p w

variable {u rt}

theorem apply_default {s : Transform} (hs : IsDefault s) (v : List Char) :
    PythonTransforms.apply u rt s (.str v) =
      (afterDefault u s v).elim (.error .invalidOperation) fun after => .ok after.1 := by
  cases hs with
  | bit => rfl
  | money =>
      change PythonTransforms.moneyToDecimal u (.str v) = _
      rw [moneyToDecimal_of_ne_none (by simp), afterDefault]
      change (decimalOf u v).elim _ _ = _
      cases decimalOf u v with
      | none => rfl
      | some d => rfl
  | datetime => rfl
  | char => rfl

theorem goText_default (rt : Runtime) {s : Transform} (hs : IsDefault s) {v w : List Char} {p : PyValue}
    (h : afterDefault u s v = some (p, w)) :
    p ≠ .none ∧ s.apply rt (.str (utf8 v)) = .str (utf8 w) := by
  rw [apply_str]
  cases hs with
  | bit =>
      cases h
      exact ⟨by simp, rfl⟩
  | money =>
      obtain ⟨d, -, hd⟩ := Option.map_eq_some_iff.mp h
      cases hd
      exact ⟨by simp, rfl⟩
  | datetime =>
      cases h
      exact ⟨by simp, rfl⟩
  | char =>
      cases h
      exact ⟨by simp, rfl⟩

theorem runChain_singleton (t : Transform) (p : PyValue) :
    PythonTransforms.runChain u rt [t] p = PythonTransforms.apply u rt t p := by
  change (PythonTransforms.apply u rt t p).bind .ok = _
  cases PythonTransforms.apply u rt t p with
  | error e => rfl
  | ok q => rfl

theorem runChain_pair (s t : Transform) (p : PyValue) :
    PythonTransforms.runChain u rt [s, t] p =
      (PythonTransforms.apply u rt s p).bind (PythonTransforms.apply u rt t) := by
  cases h : PythonTransforms.apply u rt s p with
  | error e =>
      rw [PythonTransforms.runChain, List.foldlM_cons, h]
      rfl
  | ok q =>
      rw [PythonTransforms.runChain, List.foldlM_cons, h]
      exact runChain_singleton t q

theorem sameOutput_pair {s : Transform} (hs : IsDefault s) (t : Transform) (v : List Char) :
    SameOutput u rt [s, t] [s, t] v ↔ OutputKept u rt [s, t] v := by
  rw [SameOutput, runChain_pair, apply_default hs, OutputKept]
  cases hafter : afterDefault u s v with
  | none =>
      apply iff_of_false
      · rintro ⟨q, hq, -⟩
        cases hq
      · rintro ⟨p, w, h, -⟩
        cases h
  | some after =>
      obtain ⟨p, w⟩ := after
      obtain ⟨hp, hgo⟩ := goText_default rt hs hafter
      have hrun : runChain rt [s, t] (.str (utf8 v)) = t.apply rt (.str (utf8 w)) :=
        congrArg (t.apply rt) hgo
      rw [hrun]
      refine (step_iff t hp w).trans ⟨fun h => ⟨p, w, rfl, h⟩, ?_⟩
      rintro ⟨p', w', heq, h⟩
      cases heq
      exact h

theorem sameOutput_singleton (t : Transform) (v : List Char) :
    SameOutput u rt [t] [t] v ↔ OutputKept u rt [t] v := by
  rw [SameOutput, runChain_singleton]
  exact step_iff t (by simp) v

theorem sameOutput_nil (v : List Char) : SameOutput u rt [] [] v ↔ OutputKept u rt [] v :=
  iff_of_true ⟨.str v, rfl, rfl⟩ trivial

variable {table : GoTableDispatchPayload} {col : String}

theorem typeChain_cases (table : GoTableDispatchPayload) (col : String) :
    typeChain table col = [] ∨ ∃ s, IsDefault s ∧ typeChain table col = [s] := by
  rw [typeChain]
  cases table.columnTypes.get? col with
  | none => exact .inl rfl
  | some sqlType =>
      rw [Option.elim_some, typeTransform]
      unfold typeDefaultTransforms
      split
      · exact .inr ⟨_, .bit, rfl⟩
      · exact .inr ⟨_, .money, rfl⟩
      · exact .inr ⟨_, .money, rfl⟩
      · exact .inr ⟨_, .datetime, rfl⟩
      · exact .inr ⟨_, .datetime, rfl⟩
      · exact .inr ⟨_, .datetime, rfl⟩
      · exact .inr ⟨_, .char, rfl⟩
      · exact .inr ⟨_, .char, rfl⟩
      · exact .inl rfl

theorem toList_cases {α : Type} (o : Option α) : o.toList = [] ∨ ∃ a, o.toList = [a] := by
  cases o with
  | none => exact .inl rfl
  | some a => exact .inr ⟨a, rfl⟩

theorem classChain_cases (table : GoTableDispatchPayload) (col : String) :
    classChain table col = [] ∨ ∃ t, classChain table col = [t] := by
  rw [classChain]
  cases table.columnSensitivity.get? col with
  | none => exact .inl rfl
  | some sensitivity =>
      rw [Option.elim_some, classTransform]
      split
      · exact .inl rfl
      · exact toList_cases _

/-- A chain is a default of the type, one other transform, or the one after the
other. -/
theorem columnChain_cases (table : GoTableDispatchPayload) (col : String) :
    columnChain table col = [] ∨ (∃ t, columnChain table col = [t]) ∨
      ∃ s t, IsDefault s ∧ columnChain table col = [s, t] := by
  rw [columnChain]
  obtain htype | ⟨s, hs, htype⟩ := typeChain_cases table col
  · rw [htype, List.nil_append, if_pos rfl]
    split
    · exact (classChain_cases table col).imp_right .inl
    · exact (toList_cases _).imp_right .inl
  · rw [htype]
    split
    · obtain hclass | ⟨t, hclass⟩ := classChain_cases table col
      · exact .inr (.inl ⟨s, by rw [hclass, List.append_nil]⟩)
      · exact .inr (.inr ⟨s, t, hs, by rw [hclass]; rfl⟩)
    · exact .inr (.inl ⟨s, if_neg (List.cons_ne_nil _ _)⟩)

theorem sameOutput_columnChain (v : List Char) :
    SameOutput u rt (columnChain table col) (columnChain table col) v ↔
      OutputKept u rt (columnChain table col) v := by
  obtain h | ⟨t, h⟩ | ⟨s, t, hs, h⟩ := columnChain_cases table col
  · rw [h]
    exact sameOutput_nil v
  · rw [h]
    exact sameOutput_singleton t v
  · rw [h]
    exact sameOutput_pair hs t v

theorem chain_columnChain {i : Nat} (hcol : colIndex table.columns col = some i) :
    (buildColumnTransformPipeline table).chain i = columnChain table col := by
  rw [chain_buildColumnTransformPipeline, List.getD_eq_getElem?_getD, getElem?_buildChains hcol]
  rfl

variable (u rt)

/-- Both sides choose one chain for a column and make one text of it. -/
def TransformsAgree (table : GoTableDispatchPayload) (col : String) (i : Nat) (v : List Char) :
    Prop :=
  ∃ r, pyPipeline table = .ok r ∧
    (buildColumnTransformPipeline table).chain i = pyChain r col ∧
    SameOutput u rt ((buildColumnTransformPipeline table).chain i) (pyChain r col) v

variable {u rt}

/-- The two engines agree on a column exactly where its chain survives the
reading of its type and class, and each transform of it the reading of its
digits, its truth and its amount. -/
theorem transformsAgree_iff {i : Nat} (hnames : Registered table.columnTransforms)
    (hcol : colIndex table.columns col = some i) (v : List Char) :
    TransformsAgree u rt table col i v ↔
      ChainKept table col ∧ OutputKept u rt (columnChain table col) v := by
  obtain ⟨r, hr, hchain⟩ := pyPipeline_eq hnames
  rw [TransformsAgree, chain_columnChain hcol, ← columnChain_eq_iff hnames]
  constructor
  · rintro ⟨r', hr', hsame, hout⟩
    rw [hr, Except.ok.injEq] at hr'
    subst hr'
    rw [← hsame] at hout
    exact ⟨hsame.trans (hchain col), (sameOutput_columnChain v).mp hout⟩
  · rintro ⟨hsame, hout⟩
    refine ⟨r, hr, hsame.trans (hchain col).symm, ?_⟩
    rw [hchain col, ← hsame]
    exact (sameOutput_columnChain v).mpr hout

end Chains

section Differences

/-- The ASCII part of the tables. -/
def asciiTables : UnicodeTables where
  digit := asciiDigit
  isDigit := isAsciiDigit
  isSpace c := c ∈ [' ', '\t', '\n', '\x0b', '\x0c', '\r', '\x1c', '\x1d', '\x1e', '\x1f']
  digit_ascii _ _ := rfl
  isDigit_of_digit _ h := h
  isDigit_ascii _ _ h := h

/-- A runtime that knows one digest, the one of the text `1`. -/
def oneDigest : Runtime where
  formatG32 _ := []
  formatG64 _ := []
  toFloat32 _ := 0
  timeString _ := []
  sha256 _ i :=
    [0x6b, 0x86, 0xb2, 0x73, 0xff, 0x34, 0xfc, 0xe1, 0x9d, 0x6b, 0x80, 0x4e, 0xff, 0x5a, 0x3f,
      0x57, 0x47, 0xad, 0xa4, 0xea, 0xa2, 0x2f, 0x1d, 0x49, 0xc0, 0x1e, 0x52, 0xdd, 0xb7, 0x87,
      0x5b, 0x4b].getD i 0
  parseUUID _ := none
  encodeNumericBinaryString _ := none

def charTable : GoTableDispatchPayload where
  columns := ["code"]
  columnTransforms := noEntries
  columnSensitivity := noEntries
  columnTypes := oneEntry "code" "char(10)"

def cardTable : GoTableDispatchPayload where
  columns := ["card"]
  columnTransforms := oneEntry "card" "mask_fpe_numeric"
  columnSensitivity := noEntries
  columnTypes := noEntries

/-- A type with a length loses its default in Python, and a single digit is
masked by another one. -/
theorem length_suffix_and_digit_differ :
    ¬ TransformsAgree asciiTables oneDigest charTable "code" 0 ['a', '\x00'] ∧
      ¬ TransformsAgree asciiTables oneDigest cardTable "card" 0 ['1'] := by
  refine ⟨?_, ?_⟩
  · rintro ⟨r, hr, hchain, -⟩
    have hpy : pyPipeline charTable = .ok none := by decide
    have hgo : (buildColumnTransformPipeline charTable).chain 0 = [.stripTrailingNulls] := by decide
    rw [hpy, Except.ok.injEq] at hr
    subst hr
    rw [hgo] at hchain
    exact absurd hchain (by decide)
  · rintro ⟨r, hr, -, q, hq, htext⟩
    have hpy : pyPipeline cardTable = .ok (some [("card", [.maskFPENumeric])]) := by decide
    have hgo : (buildColumnTransformPipeline cardTable).chain 0 = [.maskFPENumeric] := by decide
    have hdigit : PythonTransforms.runChain asciiTables oneDigest [.maskFPENumeric] (.str ['1']) =
        .ok (.str ['6']) := by decide
    rw [hpy, Except.ok.injEq] at hr
    subst hr
    have hq' : Except.ok (.str ['6']) = Except.ok q := hdigit.symm.trans hq
    cases hq'
    rw [hgo] at htext
    exact absurd htext (by decide)

def mailTable : GoTableDispatchPayload where
  columns := ["mail"]
  columnTransforms := oneEntry "mail" "mask_partial_email"
  columnSensitivity := noEntries
  columnTypes := oneEntry "mail" "text"

/-- A masked address in a column of a plain type comes out the same. -/
theorem address_agrees :
    TransformsAgree asciiTables oneDigest mailTable "mail" 0 ['a', 'b', '@', 'c'] := by
  have hnames : Registered mailTable.columnTransforms := by
    intro e he
    rw [List.mem_singleton.mp he]
    decide
  have htype : TypeKept mailTable "mail" := by
    intro sqlType hget hsome
    have hget' : some "text" = some sqlType := hget
    cases hget'
    exact absurd hsome (by decide)
  have hclass : ClassKept mailTable "mail" := fun hget => absurd hget (by decide)
  exact (transformsAgree_iff hnames (by decide) _).mpr ⟨.inl ⟨htype, hclass⟩, rfl⟩

end Differences

end SqlOptima.TransformAgreement
