import SqlOptima.TransformAgreement

namespace SqlOptima.StoredBoundaries

open PythonTransforms (UnicodeTables isAsciiDigit readSign readExponent digitsNat)
open PythonValues (Date DateTime)
open TransformAgreement (asciiTables)
open TransformTexts (isAsciiDigit_iff isAscii_of_isAsciiDigit)
open Utf8Text (isAscii)

/-!
# Chunk boundaries stored as text
-/

section Numerals

/-- By name, so that the membership tests below stay short. -/
scoped instance instLawfulBEqChars : LawfulBEq (List Char) := inferInstance

variable (u : UnicodeTables)

/-- The text that `int` and `float` go on with: other blanks are spaces, other digits ASCII ones. -/
def toAscii (text : List Char) : Option (List Char) :=
  text.mapM fun c =>
    if isAscii c then some c
    else if u.isSpace c then some ' '
    else (u.digit c).map fun d => Char.ofNat (48 + d)

def asciiSpace (c : Char) : Bool := c ∈ [' ', '\t', '\n', '\x0b', '\x0c', '\r']

def trim (text : List Char) : List Char := (text.dropWhile asciiSpace).rdropWhile asciiSpace

/-- Each underscore stands between two digits. -/
def betweenDigits (prev : Char) : List Char → Bool
  | [] => prev ≠ '_'
  | c :: cs =>
      (if c = '_' then isAsciiDigit prev else prev ≠ '_' || isAsciiDigit c) && betweenDigits c cs

def plain (text : List Char) : List Char := text.filter (· ≠ '_')

/-- `int(text)`, `none` where it raises. -/
def readInt (text : List Char) : Option Int :=
  (toAscii u text).bind fun ascii =>
    let signed := readSign (trim ascii)
    let digits := plain signed.2
    if betweenDigits '\x00' signed.2 ∧ digits ≠ [] ∧ digits.all isAsciiDigit then
      some (if signed.1 then -digitsNat digits else digitsNat digits)
    else none

def isSpecial (text : List Char) : Bool :=
  text.map Char.toLower ∈
    [['i', 'n', 'f'], ['i', 'n', 'f', 'i', 'n', 'i', 't', 'y'], ['n', 'a', 'n']]

/-- Digits with a point anywhere among them, and an exponent. -/
def isDecimal (text : List Char) : Bool :=
  let integer := text.takeWhile isAsciiDigit
  let rest := text.dropWhile isAsciiDigit
  let fraction := if rest.head? = some '.' then (rest.drop 1).takeWhile isAsciiDigit else []
  let rest := if rest.head? = some '.' then (rest.drop 1).dropWhile isAsciiDigit else rest
  integer ++ fraction ≠ [] && (readExponent rest).isSome

/-- The number that `float(text)` reads, `none` where it raises. -/
def floatLiteral (text : List Char) : Option (List Char) :=
  (toAscii u text).bind fun ascii =>
    let number := plain (trim ascii)
    if betweenDigits '\x00' (trim ascii) ∧
        (isSpecial (readSign number).2 ∨ isDecimal (readSign number).2) then
      some number
    else none

def intText (n : Int) : List Char := (if n < 0 then ['-'] else []) ++ Nat.toDigits 10 n.natAbs

end Numerals

section Store

/-- What boundaries can be. `F` stands for the floats, `O` for the objects of all other classes. -/
inductive BoundaryValue (F O : Type)
  | none
  | int (n : Int)
  | float (x : F)
  | str (text : List Char)
  | date (d : Date)
  | datetime (d : DateTime)
  | object (o : O)

/-- What Python has for floats and for the other objects. -/
structure PythonTypes (u : UnicodeTables) (F O : Type) where
  repr : F → List Char
  valueOf : List Char → F
  text : O → List Char
  read_repr : ∀ x, (floatLiteral u (repr x)).map valueOf = some x
  repr_not_int : ∀ x, readInt u (repr x) = Option.none

structure ChunkBoundary (F O : Type) where
  start : BoundaryValue F O
  stop : BoundaryValue F O

variable {u : UnicodeTables} {F O : Type} (py : PythonTypes u F O)

/-- `str(value)` -/
def BoundaryValue.toText : BoundaryValue F O → List Char
  | .none => ['N', 'o', 'n', 'e']
  | .int n => intText n
  | .float x => py.repr x
  | .str text => text
  | .date d => d.isoformat
  | .datetime d => d.isoformat ' '
  | .object o => py.text o

def parseBoundary (value : List Char) : BoundaryValue F O :=
  if value = [] then .none
  else
    match readInt u value with
    | some n => .int n
    | none =>
        match floatLiteral u value with
        | some number => .float (py.valueOf number)
        | none => .str value

/-- The boundary columns of a row of `_migration_chunks`. -/
structure ChunkRow where
  startBoundary : List Char
  endBoundary : List Char

/-- `save_chunk` -/
def saveChunk (b : ChunkBoundary F O) : ChunkRow := ⟨b.start.toText py, b.stop.toText py⟩

/-- `_row_to_chunk` -/
def rowToChunk (row : ChunkRow) : ChunkBoundary F O :=
  ⟨parseBoundary py row.startBoundary, parseBoundary py row.endBoundary⟩

/-- Integers and floats, and the texts that are no numbers. -/
def Survives (u : UnicodeTables) : BoundaryValue F O → Prop
  | .int _ | .float _ => True
  | .str text => text ≠ [] ∧ floatLiteral u text = none
  | .none | .date _ | .datetime _ | .object _ => False

end Store

section Digits

variable {u : UnicodeTables} {text : List Char}

theorem toAscii_of_ascii (h : ∀ c ∈ text, isAscii c = true) : toAscii u text = some text := by
  induction text with
  | nil => rfl
  | cons c cs ih =>
      obtain ⟨hc, hcs⟩ := List.forall_mem_cons.mp h
      rw [toAscii, List.mapM_cons, if_pos hc, ← toAscii, ih hcs]
      rfl

theorem asciiSpace_of_digit {c : Char} (h : isAsciiDigit c = true) : asciiSpace c = false := by
  refine eq_false_of_ne_true fun hspace => ?_
  have hmem := of_decide_eq_true hspace
  simp only [List.mem_cons, List.not_mem_nil, or_false] at hmem
  rcases hmem with rfl | rfl | rfl | rfl | rfl | rfl <;> cases h

theorem ne_of_digit {c d : Char} (h : isAsciiDigit c = true) (hd : isAsciiDigit d = false) :
    c ≠ d := by
  rintro rfl
  rw [h] at hd
  cases hd

theorem isAsciiDigit_of_toDigits {n : Nat} {c : Char} (h : c ∈ Nat.toDigits 10 n) :
    isAsciiDigit c = true := by
  have hdigit := Nat.isDigit_of_mem_toDigits (by decide) (by decide) h
  rw [Char.isDigit, Bool.and_eq_true, decide_eq_true_eq, decide_eq_true_eq] at hdigit
  exact isAsciiDigit_iff.mpr ⟨hdigit.1, hdigit.2⟩

theorem plain_of_digits (h : ∀ c ∈ text, isAsciiDigit c = true) : plain text = text :=
  List.filter_eq_self.mpr fun c hc => decide_eq_true (ne_of_digit (h c hc) rfl)

theorem betweenDigits_of_digits {prev : Char} (hprev : prev ≠ '_')
    (h : ∀ c ∈ text, isAsciiDigit c = true) : betweenDigits prev text = true := by
  induction text generalizing prev with
  | nil => exact decide_eq_true hprev
  | cons c cs ih =>
      obtain ⟨hc, hcs⟩ := List.forall_mem_cons.mp h
      have hne : c ≠ '_' := ne_of_digit hc rfl
      rw [betweenDigits, if_neg hne, decide_eq_true hprev, Bool.true_or, Bool.true_and]
      exact ih hne hcs

theorem digitsNat_toDigits (n : Nat) : digitsNat (Nat.toDigits 10 n) = n := by
  have hvalue : Nat.ofDigitChars 10 (Nat.toDigits 10 n) 0 = n := Nat.ofDigitChars_ten_toDigits
  rw [Nat.ofDigitChars_eq_foldl] at hvalue
  exact hvalue

/-- A text without blanks at its ends. -/
theorem trim_eq_self (hfirst : ∀ c ∈ text.head?, asciiSpace c = false)
    (hlast : ∀ c ∈ text.getLast?, asciiSpace c = false) : trim text = text := by
  have hdrop : text.dropWhile asciiSpace = text := by
    cases text with
    | nil => rfl
    | cons c cs => rw [List.dropWhile_cons, hfirst c rfl, if_neg Bool.false_ne_true]
  rw [trim, hdrop, List.rdropWhile_eq_self_iff]
  intro hne
  rw [hlast _ (List.getLast?_eq_some_getLast hne)]
  exact Bool.false_ne_true

theorem readSign_cases (text : List Char) :
    (∃ cs, text = '-' :: cs) ∨ (∃ cs, text = '+' :: cs) ∨ readSign text = (false, text) := by
  cases text with
  | nil => exact Or.inr (Or.inr rfl)
  | cons c cs =>
      by_cases hminus : c = '-'
      · exact Or.inl ⟨cs, congrArg (· :: cs) hminus⟩
      · by_cases hplus : c = '+'
        · exact Or.inr (Or.inl ⟨cs, congrArg (· :: cs) hplus⟩)
        · refine Or.inr (Or.inr ?_)
          rw [readSign]
          · exact fun rest heq => hminus (List.cons.inj heq).1
          · exact fun rest heq => hplus (List.cons.inj heq).1

theorem readSign_of_digits (h : ∀ c ∈ text, isAsciiDigit c = true) :
    readSign text = (false, text) := by
  rcases readSign_cases text with ⟨cs, rfl⟩ | ⟨cs, rfl⟩ | hnone
  · exact absurd (h '-' List.mem_cons_self) (by decide)
  · exact absurd (h '+' List.mem_cons_self) (by decide)
  · exact hnone

theorem readInt_of_sign {digits : List Char} {negative : Bool}
    (hascii : ∀ c ∈ text, isAscii c = true) (htrim : trim text = text)
    (hsign : readSign text = (negative, digits)) (hne : digits ≠ [])
    (hdigits : ∀ c ∈ digits, isAsciiDigit c = true) :
    readInt u text =
      some (if negative then -(digitsNat digits : Int) else digitsNat digits) := by
  rw [readInt, toAscii_of_ascii hascii, Option.bind_some, htrim, hsign]
  dsimp only
  rw [plain_of_digits hdigits]
  exact if_pos ⟨betweenDigits_of_digits (by decide) hdigits, hne, List.all_eq_true.mpr hdigits⟩

theorem readInt_intText (n : Int) : readInt u (intText n) = some n := by
  have hdigits : ∀ c ∈ Nat.toDigits 10 n.natAbs, isAsciiDigit c = true :=
    fun c => isAsciiDigit_of_toDigits
  have hne : Nat.toDigits 10 n.natAbs ≠ [] := Nat.toDigits_ne_nil
  have hlast : ∀ c ∈ (Nat.toDigits 10 n.natAbs).getLast?, asciiSpace c = false :=
    fun c hc => asciiSpace_of_digit (hdigits c (List.mem_of_getLast? hc))
  rw [intText]
  split
  · next hneg =>
      rw [List.singleton_append]
      have htrim : trim ('-' :: Nat.toDigits 10 n.natAbs) = '-' :: Nat.toDigits 10 n.natAbs := by
        refine trim_eq_self (fun c hc => ?_) fun c hc => ?_
        · rw [← Option.mem_some.mp hc]
          rfl
        · rw [List.getLast?_cons_of_ne_nil hne] at hc
          exact hlast c hc
      have hascii : ∀ c ∈ '-' :: Nat.toDigits 10 n.natAbs, isAscii c = true :=
        List.forall_mem_cons.mpr ⟨rfl, fun c hc => isAscii_of_isAsciiDigit (hdigits c hc)⟩
      rw [readInt_of_sign hascii htrim rfl hne hdigits, if_pos rfl, digitsNat_toDigits]
      exact congrArg some (by omega)
  · next hneg =>
      rw [List.nil_append]
      have htrim : trim (Nat.toDigits 10 n.natAbs) = Nat.toDigits 10 n.natAbs :=
        trim_eq_self (fun c hc => asciiSpace_of_digit (hdigits c (List.mem_of_mem_head? hc))) hlast
      rw [readInt_of_sign (fun c hc => isAscii_of_isAsciiDigit (hdigits c hc)) htrim
        (readSign_of_digits hdigits) hne hdigits, if_neg Bool.false_ne_true, digitsNat_toDigits]
      exact congrArg some (by omega)

theorem betweenDigits_congr {prev prev' : Char} (h : prev ≠ '_') (h' : prev' ≠ '_')
    (hd : isAsciiDigit prev = false) (hd' : isAsciiDigit prev' = false) (text : List Char) :
    betweenDigits prev text = betweenDigits prev' text := by
  cases text with
  | nil => rw [betweenDigits, betweenDigits, decide_eq_true h, decide_eq_true h']
  | cons c cs =>
      rw [betweenDigits, betweenDigits, hd, hd', decide_eq_true h, decide_eq_true h']

theorem isDecimal_of_digits (hne : text ≠ []) (h : ∀ c ∈ text, isAsciiDigit c = true) :
    isDecimal text = true := by
  have htake : text.takeWhile isAsciiDigit = text := List.takeWhile_eq_self_iff.mpr h
  have hdrop : text.dropWhile isAsciiDigit = [] := List.dropWhile_eq_nil_iff.mpr h
  rw [isDecimal, htake, hdrop]
  simpa [readExponent] using hne

/-- A sign before digits is one before the number without its underscores. -/
theorem signed_of_digits (hbetween : betweenDigits '\x00' (readSign text).2 = true)
    (hdigits : ∀ c ∈ plain (readSign text).2, isAsciiDigit c = true) :
    betweenDigits '\x00' text = true ∧
      (readSign (plain text)).2 = plain (readSign text).2 := by
  have hsigned : ∀ (sign : Char) (cs : List Char), sign ≠ '_' → isAsciiDigit sign = false →
      betweenDigits '\x00' cs = true → betweenDigits '\x00' (sign :: cs) = true := by
    intro sign cs hne hdigit hcs
    rw [betweenDigits, if_neg hne, Bool.and_eq_true]
    exact ⟨rfl, (betweenDigits_congr hne (by decide) hdigit rfl cs).trans hcs⟩
  have hplain : ∀ (sign : Char) (cs : List Char), sign ≠ '_' →
      plain (sign :: cs) = sign :: plain cs :=
    fun sign cs hne => List.filter_cons_of_pos (decide_eq_true hne)
  rcases readSign_cases text with ⟨cs, rfl⟩ | ⟨cs, rfl⟩ | hnone
  · rw [hplain '-' cs (by decide)]
    exact ⟨hsigned '-' cs (by decide) rfl hbetween, rfl⟩
  · rw [hplain '+' cs (by decide)]
    exact ⟨hsigned '+' cs (by decide) rfl hbetween, rfl⟩
  · rw [hnone] at hbetween hdigits ⊢
    exact ⟨hbetween, congrArg Prod.snd (readSign_of_digits hdigits)⟩

/-- What `int` reads, `float` reads. -/
theorem floatLiteral_of_readInt {n : Int} (h : readInt u text = some n) :
    floatLiteral u text ≠ none := by
  rw [readInt, floatLiteral] at *
  cases hascii : toAscii u text with
  | none =>
      rw [hascii] at h
      cases h
  | some ascii =>
      rw [hascii, Option.bind_some] at h
      rw [Option.bind_some]
      dsimp only at h ⊢
      split at h
      · next hdigits =>
          obtain ⟨hbetween, hne, hall⟩ := hdigits
          rw [List.all_eq_true] at hall
          obtain ⟨hbetween, hsign⟩ := signed_of_digits hbetween hall
          have hdecimal := isDecimal_of_digits hne hall
          rw [← hsign] at hdecimal
          intro hnone
          rw [if_pos ⟨hbetween, Or.inr hdecimal⟩] at hnone
          cases hnone
      · cases h

end Digits

section RoundTrip

variable {u : UnicodeTables} {F O : Type} {py : PythonTypes u F O}

theorem parseBoundary_str_iff {text : List Char} :
    parseBoundary py text = .str text ↔ text ≠ [] ∧ floatLiteral u text = none := by
  rw [parseBoundary]
  split
  · next hempty => exact iff_of_false (fun h => by cases h) fun h => h.1 hempty
  · next hempty =>
      cases hint : readInt u text with
      | some n =>
          refine iff_of_false (fun h => by cases h) fun h => ?_
          exact floatLiteral_of_readInt hint h.2
      | none =>
          cases hfloat : floatLiteral u text with
          | some number => exact iff_of_false (fun h => by cases h) fun h => by cases h.2
          | none => exact iff_of_true rfl ⟨hempty, rfl⟩

/-- Values of the classes that the store knows. -/
def IsParsed : BoundaryValue F O → Prop
  | .none | .int _ | .float _ | .str _ => True
  | .date _ | .datetime _ | .object _ => False

theorem isParsed_parseBoundary (text : List Char) : IsParsed (parseBoundary py text) := by
  rw [parseBoundary]
  split
  · exact trivial
  · split
    · exact trivial
    · split
      · exact trivial
      · exact trivial

theorem parseBoundary_ne_none {text : List Char} (h : text ≠ []) :
    parseBoundary py text ≠ .none := by
  rw [parseBoundary, if_neg h]
  split
  · exact fun h => by cases h
  · split
    · exact fun h => by cases h
    · exact fun h => by cases h

theorem parseBoundary_toText_iff (v : BoundaryValue F O) :
    parseBoundary py (v.toText py) = v ↔ Survives u v := by
  have hunread : ∀ {text : List Char} {v : BoundaryValue F O}, ¬ IsParsed v →
      (parseBoundary py text = v ↔ False) := by
    intro text v hv
    refine iff_false_intro ?_
    rintro rfl
    exact hv (isParsed_parseBoundary text)
  cases v with
  | none => exact iff_of_false (parseBoundary_ne_none (List.cons_ne_nil _ _)) id
  | int n =>
      have htext : intText n ≠ [] := by
        rw [intText]
        exact List.append_ne_nil_of_right_ne_nil _ Nat.toDigits_ne_nil
      refine iff_of_true ?_ trivial
      change parseBoundary py (intText n) = _
      rw [parseBoundary, if_neg htext, readInt_intText]
  | float x =>
      obtain ⟨number, hnumber, hvalue⟩ := Option.map_eq_some_iff.mp (py.read_repr x)
      have htext : py.repr x ≠ [] := by
        intro hnil
        rw [hnil] at hnumber
        cases hnumber
      refine iff_of_true ?_ trivial
      change parseBoundary py (py.repr x) = _
      rw [parseBoundary, if_neg htext, py.repr_not_int, hnumber, ← hvalue]
  | str text => exact parseBoundary_str_iff
  | date d => exact hunread id
  | datetime d => exact hunread id
  | object o => exact hunread id

/-- A boundary comes back as it was exactly when both of its ends are integers, floats, or texts
that are no numbers. -/
theorem rowToChunk_saveChunk_iff (py : PythonTypes u F O) (b : ChunkBoundary F O) :
    rowToChunk py (saveChunk py b) = b ↔ Survives u b.start ∧ Survives u b.stop := by
  rw [← parseBoundary_toText_iff, ← parseBoundary_toText_iff]
  obtain ⟨start, stop⟩ := b
  rw [rowToChunk, saveChunk, ChunkBoundary.mk.injEq]

end RoundTrip

section Example

theorem zeroes_not_int : readInt asciiTables ['0', '.', '0'] = none := by decide

/-- The one float `0.0`, and no objects. -/
def zeroOnly : PythonTypes asciiTables Unit Empty where
  repr _ := ['0', '.', '0']
  valueOf _ := ()
  text := Empty.elim
  read_repr _ := rfl
  repr_not_int _ := zeroes_not_int

/-- Codes with leading zeros come back as numbers. -/
theorem codes_become_numbers :
    rowToChunk zeroOnly (saveChunk zeroOnly ⟨.str ['0', '0', '7'], .str ['0', '4', '2']⟩) ≠
      ⟨.str ['0', '0', '7'], .str ['0', '4', '2']⟩ := by
  have hread : rowToChunk zeroOnly
      (saveChunk zeroOnly ⟨.str ['0', '0', '7'], .str ['0', '4', '2']⟩) =
        ⟨.int 7, .int 42⟩ := rfl
  rw [hread]
  intro h
  cases h

end Example

end SqlOptima.StoredBoundaries
