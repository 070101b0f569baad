import Mathlib.Data.Bool.AllAny
import SqlOptima.CheckExpressions
import SqlOptima.ExpressionConverter

namespace SqlOptima.StoredDefaults

open PostMigrationDdl
open CheckExpressions QuotedText
open PythonTransforms (UnicodeTables asciiDigit)
open PythonText (Text leadingWord isWord Trimmed)
open scoped PythonText

/-!
# Literal defaults, as the server stores them

A number stands in two pairs of parentheses, a string in one. The generator of the deferred
objects takes one pair off; the converter of expressions takes off as many as there are.
-/

/-- No character of ASCII that can be seen is a blank. -/
structure TextTables extends UnicodeTables where
  isSpace_visible : ∀ c : Char, 33 ≤ c.toNat → c.toNat ≤ 126 → isSpace c = false

section Converter

structure DefaultValueResult where
  value : Text
  isUnsure : Bool := false
  warnings : List String := []
  deriving DecidableEq

variable (u : UnicodeTables) (rewriteCall : Text → Text) (columnType : Option String)

/-- The text that `$` ends; it also matches before a last line feed. -/
def line (text : Text) : Text := if text.getLast? = some '\n' then text.dropLast else text

/-- `\d+(?:\.\d+)?` -/
def leadingNumber (text : Text) : Text :=
  let whole := text.takeWhile fun c => (u.digit c).isSome
  let rest := text.dropWhile fun c => (u.digit c).isSome
  let digits := rest.tail.takeWhile fun c => (u.digit c).isSome
  if whole ≠ [] ∧ rest.head? = some '.' ∧ digits ≠ [] then whole ++ '.' :: digits else whole

/-- `(\d+(?:\.\d+)?)\)?$` -/
def closedNumber (text : Text) : Option Text :=
  let number := leadingNumber u text
  if number ≠ [] ∧ line (text.drop number.length) ∈ [[], [')']] then some number else none

/-- `^\(?(\d+(?:\.\d+)?)\)?$` -/
def numericLiteral (text : Text) : Option Text :=
  closedNumber u (if text.head? = some '(' then text.tail else text)

/-- `^`, the opening text, `(.*)`, the closing character and `$` -/
def between (opening : Text) (closing : Char) (text : Text) : Option Text :=
  let body := (line text).drop opening.length
  if opening <+: line text ∧ body.getLast? = some closing ∧ '\n' ∉ body.dropLast then
    some body.dropLast
  else none

def isBooleanType : Bool :=
  columnType.any fun type => upper type ∈ ["BIT".toList, "BOOLEAN".toList]

def numberDefault (num : Text) : DefaultValueResult :=
  if isBooleanType columnType then
    if num = ['0'] then { value := "false".toList }
    else if num = ['1'] then { value := "true".toList }
    else
      { value := num
        warnings := ["Boolean column default value '" ++ String.ofList num ++
          "' is not 0 or 1"] }
  else { value := num }

def quotedDefault (text : Text) : DefaultValueResult := { value := '\'' :: (text ++ ['\'']) }

/-- `convert_function_call`, with what its branches make of the calls they are for. -/
def convertCall (text : Text) : Text :=
  if PythonText.upper text ∈
      ["@@IDENTITY", "@@ROWCOUNT", "@@ERROR", "ROW_COUNT"].map String.toList then
    rewriteCall text
  else ExpressionConverter.convertFunctionCall rewriteCall text

def functionDefault (text : Text) : DefaultValueResult :=
  let converted := convertCall rewriteCall text
  if converted ≠ text then { value := converted, isUnsure := true }
  else { value := text, isUnsure := true }

/-- One call, of a text without blanks around it. -/
def convertStripped (again : Text → DefaultValueResult) (text : Text) : DefaultValueResult :=
  if PythonText.upper text = "NULL".toList then { value := "NULL".toList }
  else
    ((numericLiteral u text).map (numberDefault columnType) <|>
      (between ['N', '\''] '\'' text).map quotedDefault <|>
      (between ['\''] '\'' text).map quotedDefault <|>
      ((between ['('] ')' text).filter fun text => text ≠ []).map again).getD
        (functionDefault rewriteCall text)

/-- Each pair of parentheses taken off takes one from the number. -/
def convertWithin : Nat → Text → DefaultValueResult
  | 0, value => { value := value, isUnsure := true }
  | n + 1, value =>
      convertStripped u rewriteCall columnType (convertWithin n) (PythonTransforms.strip u value)

def convertDefaultValue (value : Text) : DefaultValueResult :=
  convertWithin u rewriteCall columnType (value.length + 1) value

end Converter

section Literals

structure Digits where
  first : Fin 10
  rest : List (Fin 10)
  deriving DecidableEq

def digitChar (d : Fin 10) : Char := Char.ofNat (48 + d)

def Digits.text (d : Digits) : Text := digitChar d.first :: d.rest.map digitChar

inductive Sign
  | none
  | plus
  | minus
  deriving DecidableEq

def Sign.text : Sign → Text
  | .none => []
  | .plus => ['+']
  | .minus => ['-']

structure Numeral where
  whole : Digits
  fraction : Option (List (Fin 10))
  exponent : Option (Sign × Digits)
  deriving DecidableEq

def Numeral.text (n : Numeral) : Text :=
  n.whole.text ++ (n.fraction.elim [] (fun digits => '.' :: digits.map digitChar) ++
    n.exponent.elim [] fun e => 'e' :: (e.1.text ++ e.2.text))

inductive Literal
  | number (sign : Sign) (numeral : Numeral)
  | string (national : Bool) (value : Text)
  deriving DecidableEq

/-- The literal, as both servers read it. -/
def Literal.text : Literal → Text
  | .number sign numeral => sign.text ++ numeral.text
  | .string true value => 'N' :: enclosed '\'' '\'' value
  | .string false value => enclosed '\'' '\'' value

/-- How SQL Server stores the literal as a default. -/
def Literal.stored : Literal → Text
  | .number sign numeral => '(' :: ('(' :: ((Literal.number sign numeral).text ++ [')']) ++ [')'])
  | .string national value => '(' :: ((Literal.string national value).text ++ [')'])

/-- The expressions of PostgreSQL that have the value of a literal in a column of a type. -/
inductive Denotes (columnType : Option String) (l : Literal) : Text → Prop
  | itself : Denotes columnType l l.text
  | unprefixed {value : Text} (h : l = .string true value) :
      Denotes columnType l (enclosed '\'' '\'' value)
  | zero (htype : isBooleanType columnType) (h : l.text = ['0']) :
      Denotes columnType l "false".toList
  | one (htype : isBooleanType columnType) (h : l.text = ['1']) : Denotes columnType l "true".toList
  | parens {text : Text} (h : Denotes columnType l text) :
      Denotes columnType l ('(' :: (text ++ [')']))

/-- Both functions return an expression with the value of the literal. -/
structure DefaultKept (u : UnicodeTables) (rewriteCall : Text → Text)
    (columnType : Option String) (l : Literal) : Prop where
  deferred : ∃ expr, transpileDefaultExpression u (String.ofList l.stored) = some expr ∧
    Denotes columnType l expr.toList
  converted : Denotes columnType l (convertDefaultValue u rewriteCall columnType l.stored).value

def Literal.IsPlainString (l : Literal) : Prop := ∃ value, l = .string false value

end Literals

section Blanks

def Visible (c : Char) : Prop := 33 ≤ c.toNat ∧ c.toNat ≤ 126

instance instDecidableVisible (c : Char) : Decidable (Visible c) :=
  inferInstanceAs (Decidable (_ ∧ _))

theorem isSpace_of_visible {c : Char} (h : Visible c) : PythonText.isSpace c = false := by
  rw [Bool.eq_false_iff]
  intro hspace
  simp only [PythonText.isSpace, Bool.or_eq_true, decide_eq_true_eq] at hspace
  obtain ((((((((rfl | rfl) | rfl) | rfl) | rfl) | rfl) | rfl) | rfl) | rfl) | rfl := hspace
  all_goals exact absurd h (by decide)

/-- A text with a visible character at each end. -/
structure Bounded (text : Text) : Prop where
  head : ∃ c ∈ text.head?, Visible c
  last : ∃ c ∈ text.getLast?, Visible c

variable {u : TextTables} {text : Text}

theorem Bounded.trimmed (h : Bounded text) : Trimmed text where
  head := h.head.imp fun _ hc => ⟨hc.1, isSpace_of_visible hc.2⟩
  last := h.last.imp fun _ hc => ⟨hc.1, isSpace_of_visible hc.2⟩

theorem Bounded.strip_eq (h : Bounded text) :
    PythonTransforms.strip u.toUnicodeTables text = text := by
  obtain ⟨c, hc, hhead⟩ := h.head
  obtain ⟨d, hd, hlast⟩ := h.last
  have hdrop : text.dropWhile u.isSpace = text := by
    rw [List.dropWhile_eq_self_iff]
    intro hpos
    have hne := List.ne_nil_of_length_pos hpos
    rw [List.head?_eq_some_head hne] at hc
    rw [← List.head_eq_getElem hne, Option.some.inj hc, u.isSpace_visible c hhead.1 hhead.2]
    exact Bool.false_ne_true
  rw [PythonTransforms.strip, hdrop, List.rdropWhile_eq_self_iff]
  intro hne
  rw [List.getLast?_eq_some_getLast hne] at hd
  rw [Option.some.inj hd, u.isSpace_visible d hlast.1 hlast.2]
  exact Bool.false_ne_true

theorem Bounded.of_ends {c d : Char} (hc : Visible c) (hd : Visible d) (text : Text) :
    Bounded (c :: (text ++ [d])) where
  head := ⟨c, rfl, hc⟩
  last := ⟨d, by rw [← List.cons_append, List.getLast?_concat]; rfl, hd⟩

end Blanks

section Matches

variable {u : UnicodeTables} {text : Text} {c d : Char}

theorem line_of_last (h : text.getLast? ≠ some '\n') : line text = text := if_neg h

theorem line_concat (h : d ≠ '\n') : line (text ++ [d]) = text ++ [d] := by
  apply line_of_last
  rw [List.getLast?_concat]
  exact fun heq => h (Option.some.inj heq)

theorem leadingNumber_prefix (text : Text) : leadingNumber u text <+: text := by
  have hwhole := List.takeWhile_append_dropWhile
    (p := fun c => (u.digit c).isSome) (l := text)
  rw [leadingNumber]
  split
  · rename_i h
    obtain ⟨-, hdot, -⟩ := h
    obtain ⟨rest, hrest⟩ := List.head?_eq_some_iff.mp hdot
    rw [hrest, List.tail_cons]
    have hdigits : '.' :: rest.takeWhile (fun c => (u.digit c).isSome) <+: '.' :: rest :=
      List.cons_prefix_cons.mpr ⟨rfl, List.takeWhile_prefix _⟩
    have hstarts := (List.prefix_append_right_inj
      (text.takeWhile fun c => (u.digit c).isSome)).mpr hdigits
    rwa [← hrest, hwhole] at hstarts
  · exact List.takeWhile_prefix _

theorem mem_leadingNumber (h : c ∈ leadingNumber u text) : (u.digit c).isSome ∨ c = '.' := by
  have hdigit : ∀ {t : Text}, c ∈ t.takeWhile (fun c => (u.digit c).isSome) →
      (u.digit c).isSome = true :=
    fun hmem => List.mem_takeWhile_imp (p := fun c => (u.digit c).isSome) hmem
  rw [leadingNumber] at h
  split at h
  · obtain hwhole | hrest := List.mem_append.mp h
    · exact .inl (hdigit hwhole)
    · obtain rfl | hdigits := List.mem_cons.mp hrest
      · exact .inr rfl
      · exact .inl (hdigit hdigits)
  · exact .inl (hdigit h)

theorem leadingNumber_eq_nil (h : ∀ c ∈ text.head?, u.digit c = none) :
    leadingNumber u text = [] := by
  have hwhole : text.takeWhile (fun c => (u.digit c).isSome) = [] := by
    cases text with
    | nil => rfl
    | cons c text => exact List.takeWhile_cons_of_neg (by rw [h c rfl]; exact Bool.false_ne_true)
  rw [leadingNumber, hwhole, if_neg fun h => h.1 rfl]

/-- The characters of literals that are no digits. -/
theorem digit_eq_none (h : c ∈ ['(', ')', '\'', 'N', '+', '-']) : u.digit c = none := by
  have hascii : ∀ c ∈ ['(', ')', '\'', 'N', '+', '-'],
      Utf8Text.isAscii c = true ∧ asciiDigit c = none :=
    List.all_iff_forall_prop.mp (by decide)
  rw [u.digit_ascii c (hascii c h).1, (hascii c h).2]

theorem numericLiteral_parens (text : Text) :
    numericLiteral u ('(' :: text) = closedNumber u text := rfl

theorem numericLiteral_of_head (h : text.head? ≠ some '(') :
    numericLiteral u text = closedNumber u text := by
  rw [numericLiteral, if_neg h]

theorem closedNumber_eq_none (h : ∀ c ∈ text.head?, u.digit c = none) :
    closedNumber u text = none := by
  rw [closedNumber, leadingNumber_eq_nil h, if_neg fun h => h.1 rfl]

theorem closedNumber_some {num : Text} (h : closedNumber u text = some num) :
    ∃ rest, text = num ++ rest ∧ line rest ∈ [[], [')']] ∧ ')' ∉ num := by
  rw [closedNumber] at h
  split at h
  · rename_i hrest
    obtain ⟨rest, heq⟩ := leadingNumber_prefix (u := u) text
    have hline := hrest.2
    nth_rewrite 2 [← heq] at hline
    rw [List.drop_left] at hline
    rw [← Option.some.inj h]
    refine ⟨rest, heq.symm, hline, fun hmem => ?_⟩
    obtain hdigit | hdot := mem_leadingNumber hmem
    · rw [digit_eq_none (by decide)] at hdigit
      exact Bool.false_ne_true hdigit
    · exact absurd hdot (by decide)
  · cases h

/-- A number at the start of a text without parentheses is all of it. -/
theorem eq_of_closedNumber {num : Text} (hclose : ')' ∉ text) (hfeed : '\n' ∉ text)
    (h : closedNumber u text = some num) : num = text := by
  obtain ⟨rest, rfl, hline, -⟩ := closedNumber_some h
  have hlast : rest.getLast? ≠ some '\n' := fun hlast =>
    hfeed (List.mem_append_right _ (List.mem_of_getLast? hlast))
  rw [line_of_last hlast] at hline
  obtain rfl | hrest := List.mem_cons.mp hline
  · exact (List.append_nil _).symm
  · rw [List.mem_singleton.mp hrest] at hclose
    exact absurd (List.mem_append_right _ (List.mem_singleton_self _)) hclose

theorem eq_of_closedNumber_paren {num : Text} (h : closedNumber u (text ++ [')']) = some num) :
    num = text := by
  obtain ⟨rest, heq, hline, hnum⟩ := closedNumber_some h
  obtain rfl | ⟨init, d, rfl⟩ := rest.eq_nil_or_concat'
  · rw [List.append_nil] at heq
    exact absurd (heq ▸ List.mem_append_right _ (List.mem_singleton_self _)) hnum
  · rw [← List.append_assoc] at heq
    obtain ⟨htext, hd⟩ := List.append_inj' heq rfl
    obtain rfl := (List.cons.inj hd).1
    rw [line_concat (by decide)] at hline
    obtain hrest | hrest := List.mem_cons.mp hline
    · exact absurd hrest (List.append_ne_nil_of_right_ne_nil _ (List.cons_ne_nil _ _))
    · have hinit : init = [] := by
        have hlength := congrArg List.length (List.mem_singleton.mp hrest)
        rw [List.length_append] at hlength
        exact List.length_eq_zero_iff.mp (Nat.succ.inj hlength)
      rw [htext, hinit, List.append_nil]

theorem between_of_unopened {opening : Text} (hfeed : text.getLast? ≠ some '\n')
    (h : ¬ opening <+: text) : between opening d text = none := by
  rw [between, line_of_last hfeed, if_neg fun hp => h hp.1]

theorem between_append {opening full : Text} (hd : d ≠ '\n')
    (hopening : opening ++ text ++ [d] = full) :
    between opening d full = if '\n' ∉ text then some text else none := by
  subst hopening
  rw [between, line_concat hd, List.append_assoc, List.drop_left, List.dropLast_concat,
    List.getLast?_concat]
  exact if_congr (by simp) rfl rfl

end Matches

section Calls

variable {rewriteCall : Text → Text} {text : Text}

/-- Whether a name of a function can begin with the character, in either case. -/
def beginsName (c : Char) : Bool := c.toUpper.isAlpha || c.toUpper = '@'

theorem exists_head_of_upper_mem {names : List Text}
    (hnames : ∀ name ∈ names, name.head?.any fun c => c.isAlpha || c = '@')
    (h : PythonText.upper text ∈ names) : ∃ c ∈ text.head?, beginsName c = true := by
  have hhead := hnames _ h
  cases text with
  | nil => exact absurd hhead Bool.false_ne_true
  | cons c text => exact ⟨c, rfl, hhead⟩

theorem head_ofList {s : String} {p : Char → Bool} {c : Char} {cs : List Char}
    (hs : s = String.ofList (c :: cs)) (hc : p c = true) : s.toList.head?.any p := by
  rw [hs, String.toList_ofList]
  exact hc

theorem knownFunctions_names : ∀ name ∈ ExpressionConverter.knownFunctions,
    name.head?.any fun c => c.isAlpha || c = '@' := by
  refine List.forall_mem_map.mpr ?_
  repeat refine List.forall_mem_cons.mpr ⟨head_ofList rfl rfl, ?_⟩
  exact List.forall_mem_nil _

theorem convertCall_eq (hbounded : Bounded text) (hhead : ∀ c ∈ text.head?, beginsName c = false) :
    convertCall rewriteCall text = text := by
  have hnone : ∀ {t : Text} {names : List Text}, t <+: text →
      (∀ name ∈ names, name.head?.any fun c => c.isAlpha || c = '@') →
      PythonText.upper t ∉ names := by
    intro t names hstarts hnames hmem
    obtain ⟨c, hc, hbegins⟩ := exists_head_of_upper_mem hnames hmem
    have hc' : c ∈ text.head? := by
      obtain ⟨rest, rfl⟩ := hstarts
      rw [List.head?_append, Option.mem_def.mp hc]
      rfl
    rw [hhead c hc'] at hbegins
    exact Bool.false_ne_true hbegins
  have hword : leadingWord text <+: text := List.takeWhile_prefix _
  rw [convertCall, if_neg (hnone List.prefix_rfl (by decide)),
    ExpressionConverter.convertFunctionCall, hbounded.trimmed.strip_eq,
    if_neg (hnone hword knownFunctions_names)]

theorem functionDefault_value :
    (functionDefault rewriteCall text).value = convertCall rewriteCall text := by
  rw [functionDefault]
  split
  · rfl
  · rename_i h
    exact (not_not.mp h).symm

end Calls

section Conversion

variable {u : TextTables} {rewriteCall : Text → Text} {columnType : Option String}
  {again : Text → DefaultValueResult} {text : Text}

theorem convertStripped_parens (h : text ≠ []) :
    convertStripped u.toUnicodeTables rewriteCall columnType again ('(' :: (text ++ [')'])) =
      ((closedNumber u.toUnicodeTables (text ++ [')'])).map (numberDefault columnType)).getD
        (if '\n' ∉ text then again text
          else functionDefault rewriteCall ('(' :: (text ++ [')']))) := by
  have hlast : ('(' :: (text ++ [')'])).getLast? ≠ some '\n' := by
    rw [← List.cons_append, List.getLast?_concat]
    decide
  have hnull : PythonText.upper ('(' :: (text ++ [')'])) ≠ "NULL".toList := fun heq =>
    absurd (List.cons.inj heq).1 (by decide)
  have hparens : between ['('] ')' ('(' :: (text ++ [')'])) =
      if '\n' ∉ text then some text else none := between_append (by decide) rfl
  rw [convertStripped, if_neg hnull, numericLiteral_parens, between_of_unopened hlast (by simp),
    between_of_unopened hlast (by simp), hparens]
  cases closedNumber u.toUnicodeTables (text ++ [')']) with
  | some num => rfl
  | none =>
      split
      · rw [Option.filter_some, if_pos (decide_eq_true h)]
        rfl
      · rfl

/-- A literal that nothing stands around; what quotes it has are at its ends. -/
theorem convertStripped_number (hnull : PythonText.upper text ≠ "NULL".toList)
    (hfeed : text.getLast? ≠ some '\n') (hhead : ∀ c ∈ text.head?, c ∉ ['(', '\'', 'N']) :
    convertStripped u.toUnicodeTables rewriteCall columnType again text =
      ((closedNumber u.toUnicodeTables text).map (numberDefault columnType)).getD
        (functionDefault rewriteCall text) := by
  have hnot : ∀ {c : Char} {opening : Text}, c ∈ ['(', '\'', 'N'] → ¬ c :: opening <+: text := by
    rintro c opening hc ⟨rest, rfl⟩
    exact hhead c rfl hc
  have hopen : text.head? ≠ some '(' := fun h => hhead '(' h (by decide)
  rw [convertStripped, if_neg hnull, numericLiteral_of_head hopen,
    between_of_unopened hfeed (hnot (by decide)), between_of_unopened hfeed (hnot (by decide)),
    between_of_unopened hfeed (hnot (by decide))]
  cases closedNumber u.toUnicodeTables text with
  | some num => rfl
  | none => rfl

end Conversion

section Numbers

variable {sign : Sign} {numeral : Numeral}

def numeralChars : List Char :=
  ['0', '1', '2', '3', '4', '5', '6', '7', '8', '9', '.', 'e', '+', '-']

theorem digitChar_mem (d : Fin 10) : digitChar d ∈ numeralChars.take 10 := by
  revert d
  decide

theorem mem_numeralChars_of_digits {digits : List (Fin 10)} {c : Char}
    (h : c ∈ digits.map digitChar) : c ∈ numeralChars := by
  obtain ⟨d, -, rfl⟩ := List.mem_map.mp h
  exact List.mem_of_mem_take (digitChar_mem d)

theorem mem_numeralChars_of_sign {c : Char} (h : c ∈ sign.text) : c ∈ numeralChars := by
  cases sign with
  | none => cases h
  | plus =>
      rw [List.mem_singleton.mp h]
      decide
  | minus =>
      rw [List.mem_singleton.mp h]
      decide

theorem Digits.text_eq (d : Digits) : d.text = (d.first :: d.rest).map digitChar := rfl

theorem mem_numeralChars {c : Char} (h : c ∈ (Literal.number sign numeral).text) :
    c ∈ numeralChars := by
  obtain hsign | h := List.mem_append.mp h
  · exact mem_numeralChars_of_sign hsign
  rw [Numeral.text, Digits.text_eq] at h
  obtain hwhole | h := List.mem_append.mp h
  · exact mem_numeralChars_of_digits hwhole
  obtain hfraction | hexponent := List.mem_append.mp h
  · cases hf : numeral.fraction with
    | none =>
        rw [hf] at hfraction
        cases hfraction
    | some digits =>
        rw [hf] at hfraction
        obtain rfl | hdigits := List.mem_cons.mp hfraction
        · decide
        · exact mem_numeralChars_of_digits hdigits
  · cases he : numeral.exponent with
    | none =>
        rw [he] at hexponent
        cases hexponent
    | some e =>
        rw [he] at hexponent
        obtain rfl | hdigits := List.mem_cons.mp hexponent
        · decide
        · rw [Digits.text_eq] at hdigits
          obtain hsign | hdigits := List.mem_append.mp hdigits
          · exact mem_numeralChars_of_sign hsign
          · exact mem_numeralChars_of_digits hdigits

/-- A number begins with a digit or its sign. -/
theorem exists_head_number : ∃ c ∈ (Literal.number sign numeral).text.head?,
    c ∈ ['0', '1', '2', '3', '4', '5', '6', '7', '8', '9', '+', '-'] := by
  cases sign with
  | none =>
      refine ⟨digitChar numeral.whole.first, rfl, ?_⟩
      exact List.mem_append_left ['+', '-'] (digitChar_mem _)
  | plus => exact ⟨'+', rfl, by decide⟩
  | minus => exact ⟨'-', rfl, by decide⟩

theorem bounded_number : Bounded (Literal.number sign numeral).text := by
  have hvisible : ∀ c ∈ numeralChars, Visible c := List.all_iff_forall_prop.mp (by decide)
  obtain ⟨c, hc, -⟩ := @exists_head_number sign numeral
  have hne : (Literal.number sign numeral).text ≠ [] := by
    intro hnil
    rw [hnil] at hc
    cases hc
  exact ⟨⟨c, hc, hvisible c (mem_numeralChars (List.mem_of_head? hc))⟩,
    ⟨_, List.getLast?_eq_some_getLast hne,
      hvisible _ (mem_numeralChars (List.getLast_mem hne))⟩⟩

theorem denotes_numberDefault (columnType : Option String) (l : Literal) :
    Denotes columnType l (numberDefault columnType l.text).value := by
  rw [numberDefault]
  split
  · rename_i htype
    split
    · rename_i hzero
      exact .zero htype hzero
    · split
      · rename_i hone
        exact .one htype hone
      · exact .itself
  · exact .itself

end Numbers

section Strings

variable {national : Bool} {value : Text}

/-- What a string begins with. -/
theorem exists_head_string :
    ∃ c ∈ (Literal.string national value).text.head?, c ∈ ['\'', 'N'] := by
  cases national with
  | false => exact ⟨'\'', rfl, by decide⟩
  | true => exact ⟨'N', rfl, by decide⟩

theorem getLast?_string : (Literal.string national value).text.getLast? = some '\'' := by
  cases national with
  | false => exact getLast?_enclosed _ _ _
  | true =>
      rw [Literal.text, List.getLast?_cons, getLast?_enclosed]
      rfl

theorem bounded_string : Bounded (Literal.string national value).text where
  head := by
    obtain ⟨c, hc, hmem⟩ := @exists_head_string national value
    refine ⟨c, hc, ?_⟩
    have hvisible : ∀ c ∈ ['\'', 'N'], Visible c := List.all_iff_forall_prop.mp (by decide)
    exact hvisible c hmem
  last := ⟨'\'', getLast?_string, by decide⟩

theorem upper_string_ne_null :
    PythonText.upper (Literal.string national value).text ≠ "NULL".toList := by
  intro h
  have hlast := congrArg List.getLast? h
  rw [PythonText.upper, List.getLast?_map, getLast?_string] at hlast
  exact absurd (Option.some.inj hlast) (by decide)

variable {u : TextTables} {rewriteCall : Text → Text} {columnType : Option String}
  {again : Text → DefaultValueResult}

theorem closedNumber_string (rest : Text) :
    closedNumber u.toUnicodeTables ((Literal.string national value).text ++ rest) = none := by
  obtain ⟨c, hc, hmem⟩ := @exists_head_string national value
  refine closedNumber_eq_none fun d hd => ?_
  rw [List.head?_append, Option.mem_def.mp hc] at hd
  obtain rfl := Option.some.inj hd
  have hnone : ∀ c ∈ ['\'', 'N'], c ∈ ['(', ')', '\'', 'N', '+', '-'] :=
    List.all_iff_forall_prop.mp (by decide)
  exact digit_eq_none (hnone c hmem)

/-- A string on one line comes out without its prefix. -/
theorem convertStripped_string (hfeed : '\n' ∉ (Literal.string national value).text) :
    convertStripped u.toUnicodeTables rewriteCall columnType again
      (Literal.string national value).text = { value := enclosed '\'' '\'' value } := by
  have hlast : (Literal.string national value).text.getLast? ≠ some '\n' := by
    rw [getLast?_string]
    decide
  have hopen : (Literal.string national value).text.head? ≠ some '(' := by
    obtain ⟨c, hc, hmem⟩ := @exists_head_string national value
    rw [Option.mem_def.mp hc]
    rintro heq
    obtain rfl := Option.some.inj heq
    exact absurd hmem (by decide)
  have hnumber := @closedNumber_string national value u []
  rw [List.append_nil] at hnumber
  rw [convertStripped, if_neg upper_string_ne_null, numericLiteral_of_head hopen, hnumber]
  have hdoubled : '\n' ∉ doubled '\'' value := by
    refine fun hmem => hfeed ?_
    cases national with
    | false => exact List.mem_cons_of_mem _ (List.mem_append_left _ hmem)
    | true => exact List.mem_cons_of_mem _ (List.mem_cons_of_mem _ (List.mem_append_left _ hmem))
  cases national with
  | true =>
      have hbetween : between ['N', '\''] '\'' (Literal.string true value).text =
          if '\n' ∉ doubled '\'' value then some (doubled '\'' value) else none :=
        between_append (by decide) rfl
      rw [hbetween, if_pos hdoubled]
      rfl
  | false =>
      have hbetween : between ['\''] '\'' (Literal.string false value).text =
          if '\n' ∉ doubled '\'' value then some (doubled '\'' value) else none :=
        between_append (by decide) rfl
      have hstarts : ¬ ['N', '\''] <+: (Literal.string false value).text := by
        rintro ⟨rest, hrest⟩
        exact absurd (List.cons.inj hrest).1 (by decide)
      rw [between_of_unopened hlast hstarts, hbetween, if_pos hdoubled]
      rfl

theorem denotes_enclosed :
    Denotes columnType (.string national value) (enclosed '\'' '\'' value) := by
  cases national with
  | false => exact .itself
  | true => exact .unprefixed rfl

end Strings

section Converted

variable (u : TextTables) (rewriteCall : Text → Text) (columnType : Option String)

theorem convertWithin_parens {text : Text} (h : text ≠ []) (n : Nat) :
    convertWithin u.toUnicodeTables rewriteCall columnType (n + 1) ('(' :: (text ++ [')'])) =
      ((closedNumber u.toUnicodeTables (text ++ [')'])).map (numberDefault columnType)).getD
        (if '\n' ∉ text then convertWithin u.toUnicodeTables rewriteCall columnType n text
          else functionDefault rewriteCall ('(' :: (text ++ [')']))) := by
  rw [convertWithin, (Bounded.of_ends (by decide) (by decide) text).strip_eq,
    convertStripped_parens h]

/-- The number in its inner parentheses, from whatever count of calls on. -/
theorem denotes_convertWithin_number (sign : Sign) (numeral : Numeral) (n : Nat) :
    Denotes columnType (.number sign numeral)
      (convertWithin u.toUnicodeTables rewriteCall columnType (n + 2)
        ('(' :: ((Literal.number sign numeral).text ++ [')']))).value := by
  have hbounded := @bounded_number sign numeral
  obtain ⟨c, hc, hmem⟩ := @exists_head_number sign numeral
  have hne : (Literal.number sign numeral).text ≠ [] := by
    intro hnil
    rw [hnil] at hc
    cases hc
  have hfeed : '\n' ∉ (Literal.number sign numeral).text := fun h =>
    absurd (mem_numeralChars h) (by decide)
  have hclose : ')' ∉ (Literal.number sign numeral).text := fun h =>
    absurd (mem_numeralChars h) (by decide)
  rw [convertWithin_parens u rewriteCall columnType hne, if_pos hfeed]
  cases hparen : closedNumber u.toUnicodeTables ((Literal.number sign numeral).text ++ [')']) with
  | some num =>
      rw [eq_of_closedNumber_paren hparen]
      exact denotes_numberDefault _ _
  | none =>
      have hplain : ∀ c ∈ ['0', '1', '2', '3', '4', '5', '6', '7', '8', '9', '+', '-'],
          c ∉ ['(', '\'', 'N'] ∧ beginsName c = false :=
        List.all_iff_forall_prop.mp (by decide)
      have hhead : ∀ d ∈ (Literal.number sign numeral).text.head?,
          d ∉ ['(', '\'', 'N'] ∧ beginsName d = false := by
        intro d hd
        rw [Option.mem_unique hd hc]
        exact hplain c hmem
      have hlast : (Literal.number sign numeral).text.getLast? ≠ some '\n' := fun h =>
        hfeed (List.mem_of_getLast? h)
      have hnull : PythonText.upper (Literal.number sign numeral).text ≠ "NULL".toList := by
        intro hnull
        obtain ⟨d, hd, hbegins⟩ :=
          @exists_head_of_upper_mem _ ["NULL".toList] (by decide) (List.mem_singleton.mpr hnull)
        rw [(hhead d hd).2] at hbegins
        exact Bool.false_ne_true hbegins
      change Denotes columnType _
        (convertWithin u.toUnicodeTables rewriteCall columnType (n + 1) _).value
      rw [convertWithin, hbounded.strip_eq,
        convertStripped_number hnull hlast fun d hd => (hhead d hd).1]
      cases hnumber : closedNumber u.toUnicodeTables (Literal.number sign numeral).text with
      | some num =>
          rw [eq_of_closedNumber hclose hfeed hnumber]
          exact denotes_numberDefault _ _
      | none =>
          change Denotes columnType _ (functionDefault rewriteCall _).value
          rw [functionDefault_value, convertCall_eq hbounded fun d hd => (hhead d hd).2]
          exact .itself

theorem denotes_convertWithin_string (national : Bool) (value : Text) (n : Nat) :
    Denotes columnType (.string national value)
      (convertWithin u.toUnicodeTables rewriteCall columnType (n + 2)
        (Literal.string national value).stored).value := by
  have hne : (Literal.string national value).text ≠ [] := by
    intro hnil
    have hlast := @getLast?_string national value
    rw [hnil] at hlast
    cases hlast
  rw [Literal.stored, convertWithin_parens u rewriteCall columnType hne, closedNumber_string]
  change Denotes columnType _ (if _ then _ else _ : DefaultValueResult).value
  split
  · rename_i hfeed
    rw [convertWithin, bounded_string.strip_eq, convertStripped_string hfeed]
    exact denotes_enclosed
  · rw [functionDefault_value, convertCall_eq (Bounded.of_ends (by decide) (by decide) _)]
    · exact .parens .itself
    · intro c hc
      obtain rfl := Option.some.inj hc
      decide

/-- The converter of expressions keeps every literal default. -/
theorem denotes_convertDefaultValue (l : Literal) :
    Denotes columnType l
      (convertDefaultValue u.toUnicodeTables rewriteCall columnType l.stored).value := by
  cases l with
  | number sign numeral =>
      have hfeed : '\n' ∉ '(' :: ((Literal.number sign numeral).text ++ [')']) := by
        intro h
        obtain h | h := List.mem_cons.mp h
        · exact absurd h (by decide)
        · obtain h | h := List.mem_append.mp h
          · exact absurd (mem_numeralChars h) (by decide)
          · exact absurd (List.mem_singleton.mp h) (by decide)
      have hnone : closedNumber u.toUnicodeTables
          ('(' :: ((Literal.number sign numeral).text ++ [')']) ++ [')']) = none := by
        refine closedNumber_eq_none fun c hc => ?_
        obtain rfl := Option.some.inj hc
        exact digit_eq_none (by decide)
      rw [convertDefaultValue, Literal.stored,
        convertWithin_parens u rewriteCall columnType (List.cons_ne_nil _ _), if_pos hfeed]
      rw [hnone]
      exact denotes_convertWithin_number u rewriteCall columnType sign numeral _
  | string national value =>
      exact denotes_convertWithin_string u rewriteCall columnType national value _

end Converted

section Deferred

variable {u : TextTables} {text : Text} {c : Char}

theorem dropParentheses_parens (text : Text) : dropParentheses ('(' :: (text ++ [')'])) = text := by
  have hlast : ('(' :: (text ++ [')'])).getLast? = some ')' := by
    rw [← List.cons_append, List.getLast?_concat]
  rw [dropParentheses, if_pos ⟨rfl, hlast⟩, List.tail_cons, List.dropLast_concat]

/-- A text with a character that lower case keeps and a call does not have is no such call. -/
theorem lower_notMem {calls : List String} (hlower : c ∈ PythonTransforms.lowerChar c)
    (hmem : c ∈ text) (hcalls : ∀ call ∈ calls, c ∉ call.toList) :
    PythonTransforms.lower (String.ofList text) ∉ calls := by
  intro h
  refine hcalls _ h ?_
  rw [PythonTransforms.lower, String.toList_ofList, String.toList_ofList]
  exact List.mem_flatMap.mpr ⟨c, hmem, hlower⟩

theorem isNumber_eq_false (hfeed : text.getLast? ≠ some '\n') (hmem : c ∈ text)
    (hdigit : u.digit c = none) (hdot : c ≠ '.') : isNumber u.toUnicodeTables text = false := by
  have hall : (text.all fun c => (u.digit c).isSome || c = '.') = false := by
    rw [List.all_eq_false]
    refine ⟨c, hmem, ?_⟩
    rw [hdigit, decide_eq_false hdot]
    exact Bool.false_ne_true
  rw [isNumber, if_neg hfeed, hall, Bool.and_false]

/-- The calls that the generator looks for. -/
def calls : List String :=
  ["getdate()", "sysdatetime()", "sysutcdatetime()", "newid()", "newsequentialid()"]

/-- What is left of a default that is neither a call nor digits. -/
theorem transpile_parens {d : Char} (hfeed : text.getLast? ≠ some '\n')
    (hlower : c ∈ PythonTransforms.lowerChar c) (hmem : c ∈ text)
    (hcalls : ∀ call ∈ calls, c ∉ call.toList) (hd : d ∈ text) (hdigit : u.digit d = none)
    (hdot : d ≠ '.') :
    transpileDefaultExpression u.toUnicodeTables (String.ofList ('(' :: (text ++ [')']))) =
      if text.head? = some '\'' ∧ text.getLast? = some '\'' then some (String.ofList text)
      else none := by
  have hbounded : Bounded ('(' :: (text ++ [')'])) :=
    Bounded.of_ends (by decide) (by decide) text
  have hclock : PythonTransforms.lower (String.ofList text) ∉
      ["getdate()", "sysdatetime()", "sysutcdatetime()"] :=
    lower_notMem hlower hmem fun call h =>
      hcalls call (List.mem_append_left ["newid()", "newsequentialid()"] h)
  have hid : PythonTransforms.lower (String.ofList text) ∉ ["newid()", "newsequentialid()"] :=
    lower_notMem hlower hmem fun call h =>
      hcalls call (List.mem_append_right ["getdate()", "sysdatetime()", "sysutcdatetime()"] h)
  rw [transpileDefaultExpression, String.toList_ofList, hbounded.strip_eq, dropParentheses_parens,
    isNumber_eq_false hfeed hd hdigit hdot, if_neg hclock, if_neg hid]
  rfl

theorem transpile_number (sign : Sign) (numeral : Numeral) :
    transpileDefaultExpression u.toUnicodeTables
      (String.ofList (Literal.number sign numeral).stored) = none := by
  have hfeed : ('(' :: ((Literal.number sign numeral).text ++ [')'])).getLast? ≠ some '\n' := by
    rw [← List.cons_append, List.getLast?_concat]
    decide
  have hdigits : ∀ d : Fin 10, digitChar d ∈ PythonTransforms.lowerChar (digitChar d) ∧
      ∀ call ∈ calls, digitChar d ∉ call.toList := by
    decide +kernel
  have hfirst : digitChar numeral.whole.first ∈
      '(' :: ((Literal.number sign numeral).text ++ [')']) := by
    refine List.mem_cons_of_mem _ (List.mem_append_left _ (List.mem_append_right _ ?_))
    exact List.mem_cons_self
  rw [Literal.stored, transpile_parens hfeed (hdigits _).1 hfirst (hdigits _).2 List.mem_cons_self
    (digit_eq_none (by decide)) (by decide)]
  exact if_neg fun h => absurd (Option.some.inj h.1) (by decide)

theorem transpile_string (national : Bool) (value : Text) :
    transpileDefaultExpression u.toUnicodeTables
      (String.ofList (Literal.string national value).stored) =
        if national then none else some (String.ofList (Literal.string national value).text) := by
  have hlast := @getLast?_string national value
  have hfeed : (Literal.string national value).text.getLast? ≠ some '\n' := by
    rw [hlast]
    decide
  have hquote := List.mem_of_getLast? hlast
  rw [Literal.stored, transpile_parens hfeed (by decide) hquote (by decide +kernel) hquote
    (digit_eq_none (by decide)) (by decide)]
  cases national with
  | false => exact if_pos ⟨rfl, hlast⟩
  | true => exact if_neg fun h => absurd (Option.some.inj h.1) (by decide)

theorem defaultKept_iff (rewriteCall : Text → Text) (columnType : Option String) (l : Literal) :
    DefaultKept u.toUnicodeTables rewriteCall columnType l ↔ l.IsPlainString := by
  have hconverted := denotes_convertDefaultValue u rewriteCall columnType l
  cases l with
  | number sign numeral =>
      refine iff_of_false ?_ ?_
      · rintro ⟨⟨expr, hexpr, -⟩, -⟩
        rw [transpile_number] at hexpr
        cases hexpr
      · rintro ⟨value, h⟩
        cases h
  | string national value =>
      cases national with
      | true =>
          refine iff_of_false ?_ ?_
          · rintro ⟨⟨expr, hexpr, -⟩, -⟩
            rw [transpile_string] at hexpr
            cases hexpr
          · rintro ⟨value, h⟩
            cases h
      | false =>
          refine iff_of_true ⟨⟨_, transpile_string false value, ?_⟩, hconverted⟩ ⟨value, rfl⟩
          rw [String.toList_ofList]
          exact .itself

end Deferred

/-- A check definition keeps its meaning if and only if it is safe, a literal default if and only
if it is a string without a prefix. -/
theorem expressions_kept_iff (u : TextTables) (d : CheckDefinition u.toUnicodeTables)
    (rewriteCall : Text → Text) (columnType : Option String) (l : Literal) :
    (CheckKept d ↔ CheckSafe d) ∧
      (DefaultKept u.toUnicodeTables rewriteCall columnType l ↔ l.IsPlainString) :=
  ⟨checkKept_iff d, defaultKept_iff rewriteCall columnType l⟩

section Samples

def isAsciiSpace (c : Char) : Bool :=
  c.toNat = 32 ∨ 9 ≤ c.toNat ∧ c.toNat ≤ 13 ∨ 28 ≤ c.toNat ∧ c.toNat ≤ 31

theorem isAsciiSpace_visible (c : Char) (h : 33 ≤ c.toNat) (_ : c.toNat ≤ 126) :
    isAsciiSpace c = false :=
  decide_eq_false (by omega)

theorem asciiDigit_self (c : Char) (_ : Utf8Text.isAscii c) : asciiDigit c = asciiDigit c :=
  rfl

theorem isAsciiDigit_of_digit (c : Char) (h : (asciiDigit c).isSome) :
    PythonTransforms.isAsciiDigit c := h

theorem isSome_of_isAsciiDigit (c : Char) (_ : Utf8Text.isAscii c)
    (h : PythonTransforms.isAsciiDigit c) : (asciiDigit c).isSome := h

/-- The ASCII part of the tables. -/
def asciiTexts : TextTables where
  digit := asciiDigit
  isDigit := PythonTransforms.isAsciiDigit
  isSpace := isAsciiSpace
  digit_ascii := asciiDigit_self
  isDigit_of_digit := isAsciiDigit_of_digit
  isDigit_ascii := isSome_of_isAsciiDigit
  isSpace_visible := isAsciiSpace_visible

def letterTokens : List Token :=
  [.openParen, .name "code".toList, .other " like ".toList, .literal "[A-Z]%".toList, .closeParen]

theorem letterTokens_wellFormed : ∀ t ∈ letterTokens, t.WellFormed := by
  simp [letterTokens, Token.WellFormed]

theorem letterTokens_noCalls : ¬ [.openParen, .closeParen] <:+: letterTokens := by decide

theorem letterTokens_trimmed :
    PythonTransforms.strip asciiTexts.toUnicodeTables (CheckExpressions.stored letterTokens) =
      CheckExpressions.stored letterTokens := by
  decide +kernel

/-- `([code] like '[A-Z]%')` -/
def letterCheck : CheckDefinition asciiTexts.toUnicodeTables where
  tokens := letterTokens
  wellFormed := letterTokens_wellFormed
  noCalls := letterTokens_noCalls
  balanced := rfl
  trimmed := letterTokens_trimmed

theorem transpile_letterCheck :
    transpileCheckExpression asciiTexts.toUnicodeTables letterCheck.text =
      "\"code\" like '\"A-Z\"%'" := by
  obtain ⟨mid, hfirst, hsecond⟩ := letterCheck.exists_replaced
  rw [hfirst.eq_of_infix_free (by decide +kernel)] at hsecond
  have hbrackets : brackets (CheckExpressions.stored letterCheck.kept) =
      "\"code\" like '\"A-Z\"%'".toList := by
    decide +kernel
  rw [← String.toList_inj, hsecond.eq_of_infix_free (by decide +kernel), hbrackets]

/-- The class of letters becomes a text in quotes, and the number is dropped. -/
theorem letter_class_and_number_lost :
    letterCheck.text = "([code] like '[A-Z]%')" ∧
      transpileCheckExpression asciiTexts.toUnicodeTables letterCheck.text =
        "\"code\" like '\"A-Z\"%'" ∧
      ¬ CheckKept letterCheck ∧
      transpileDefaultExpression asciiTexts.toUnicodeTables "((5))" = none := by
  refine ⟨by decide +kernel, transpile_letterCheck, fun h => ?_, by decide +kernel⟩
  have hnames := h.namesOnly
  rw [transpile_letterCheck] at hnames
  exact absurd hnames (by decide +kernel)

end Samples

end SqlOptima.StoredDefaults
