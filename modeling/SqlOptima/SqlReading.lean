import SqlOptima.NumberText
import SqlOptima.QuotedText

namespace SqlOptima.SqlReading

open NumberText QuotedText

/-!
# Reading statements from the left

A reader takes what it reads off the front of a text and gives what is left.
-/

section Words

def expect : List Char → List Char → Option (List Char)
  | [], text => some text
  | _ :: _, [] => none
  | w :: word, c :: text => if c = w then expect word text else none

attribute [local simp] expect in
@[simp] theorem expect_append (word text : List Char) : expect word (word ++ text) = some text := by
  induction word with
  | nil => rfl
  | cons w word ih => rw [List.cons_append, expect, if_pos rfl, ih]

@[simp] theorem expect_cons (c : Char) (word text : List Char) :
    expect (c :: word) (c :: text) = expect word text := if_pos rfl

@[simp] theorem expect_nil (text : List Char) : expect [] text = some text := rfl

theorem expect_of_head_ne {word text : List Char} {c d : Char} (hword : word.head? = some c)
    (htext : text.head? = some d) (h : d ≠ c) : expect word text = none := by
  cases word with
  | nil => cases hword
  | cons w word =>
      cases text with
      | nil => cases htext
      | cons e text =>
          obtain rfl := Option.some.inj hword
          obtain rfl := Option.some.inj htext
          exact if_neg h

theorem eq_append_of_expect {word text rest : List Char} (h : expect word text = some rest) :
    text = word ++ rest := by
  induction word generalizing text with
  | nil =>
      cases h
      rfl
  | cons w word ih =>
      cases text with
      | nil => cases h
      | cons c text =>
          rw [expect] at h
          split at h
          · next hc => rw [hc, ih h, List.cons_append]
          · cases h

end Words

section Literals

/-! The characters of a string literal, without its bytes being decoded. -/

variable {s s' : String} {l l' : List Char} {c : Char}

theorem toList_literal (h : s = String.ofList l) : s.toList = l := by
  rw [h, String.toList_ofList]

theorem head_literal (h : s = String.ofList (c :: l)) : s.toList.head? = some c := by
  rw [toList_literal h, List.head?_cons]

theorem notMem_literal (h : s = String.ofList l) (hc : c ∉ l) : c ∉ s.toList := by
  rwa [toList_literal h]

theorem head_cons_ne {c d : Char} (h : c ≠ d) (text : List Char) : (c :: text).head? ≠ some d :=
  fun heq => h (Option.some.inj heq)

theorem cons_literal (h' : s' = String.ofList l) (h : s = String.ofList (c :: l)) :
    s.toList = c :: s'.toList := by
  rw [toList_literal h, toList_literal h']

theorem append_literal (h' : s' = String.ofList l) (h : s = String.ofList (l ++ l')) :
    s.toList = s'.toList ++ l' := by
  rw [toList_literal h, toList_literal h']

end Literals

section Quotes

variable (q : Char)

/-- The text up to the quote that closes it, after the one that opens it. -/
def quotedFrom : List Char → Option (List Char × List Char)
  | [] => none
  | [c] => if c = q then some ([], []) else none
  | c :: d :: cs =>
      if c = q then
        if d = q then (quotedFrom cs).map fun r => (q :: r.1, r.2) else some ([], d :: cs)
      else (quotedFrom (d :: cs)).map fun r => (c :: r.1, r.2)

def quoted : List Char → Option (List Char × List Char)
  | [] => none
  | c :: cs => if c = q then quotedFrom q cs else none

variable {q} {s rest : List Char}

attribute [local simp] quotedFrom in
theorem quotedFrom_cons_of_ne {c : Char} (h : c ≠ q) {text : List Char} (hne : text ≠ []) :
    quotedFrom q (c :: text) = (quotedFrom q text).map fun r => (c :: r.1, r.2) := by
  cases text with
  | nil => exact absurd rfl hne
  | cons d text => rw [quotedFrom, if_neg h]

theorem quotedFrom_close (h : rest.head? ≠ some q) :
    quotedFrom q (q :: rest) = some ([], rest) := by
  cases rest with
  | nil => exact if_pos rfl
  | cons d rest =>
      rw [quotedFrom, if_pos rfl, if_neg]
      rintro rfl
      exact h rfl

theorem quotedFrom_double (h : rest.head? ≠ some q) (s : List Char) :
    quotedFrom q (doubled q s ++ q :: rest) = some (s, rest) := by
  induction s with
  | nil => exact quotedFrom_close h
  | cons c s ih =>
      rw [doubled_cons]
      split
      · next hc =>
          rw [List.append_assoc, List.cons_append, List.cons_append, List.nil_append, quotedFrom,
            if_pos rfl, if_pos rfl, ih, hc]
          rfl
      · next hc =>
          rw [List.append_assoc, List.singleton_append,
            quotedFrom_cons_of_ne hc (List.append_ne_nil_of_right_ne_nil _ (List.cons_ne_nil _ _)),
            ih]
          rfl

theorem quoted_double (h : rest.head? ≠ some q) (s : List Char) :
    quoted q (q :: (doubled q s ++ q :: rest)) = some (s, rest) :=
  (if_pos rfl).trans (quotedFrom_double h s)

/-- What is read is what stands there, its quotes doubled. -/
theorem eq_of_quotedFrom {text : List Char} (h : quotedFrom q text = some (s, rest)) :
    text = doubled q s ++ q :: rest ∧ rest.head? ≠ some q := by
  induction text using quotedFrom.induct q generalizing s with
  | case1 => cases h
  | case2 =>
      rw [quotedFrom, if_pos rfl] at h
      cases h
      exact ⟨rfl, nofun⟩
  | case3 c hc =>
      rw [quotedFrom, if_neg hc] at h
      cases h
  | case4 cs ih =>
      rw [quotedFrom, if_pos rfl, if_pos rfl] at h
      obtain ⟨⟨s', rest'⟩, hs, heq⟩ := Option.map_eq_some_iff.mp h
      cases heq
      obtain ⟨htext, hrest⟩ := ih hs
      exact ⟨by rw [htext, doubled_cons, if_pos rfl]; rfl, hrest⟩
  | case5 d cs hd =>
      rw [quotedFrom, if_pos rfl, if_neg hd] at h
      cases h
      exact ⟨rfl, fun heq => hd (Option.some.inj heq)⟩
  | case6 c d cs hc ih =>
      rw [quotedFrom, if_neg hc] at h
      obtain ⟨⟨s', rest'⟩, hs, heq⟩ := Option.map_eq_some_iff.mp h
      cases heq
      obtain ⟨htext, hrest⟩ := ih hs
      exact ⟨by rw [htext, doubled_cons, if_neg hc]; rfl, hrest⟩

theorem eq_of_quoted {text : List Char} (h : quoted q text = some (s, rest)) :
    text = q :: (doubled q s ++ q :: rest) ∧ rest.head? ≠ some q := by
  cases text with
  | nil => cases h
  | cons c text =>
      rw [quoted] at h
      split at h
      · next hc =>
          obtain ⟨htext, hrest⟩ := eq_of_quotedFrom h
          exact ⟨by rw [hc, htext], hrest⟩
      · cases h

end Quotes

section Within

variable (q a : Char)

/-- Where `inside` says whether a quote is open: each `a` stands between quotes, and no quote is
open at the end. -/
def Within : Bool → List Char → Prop
  | inside, [] => inside = false
  | inside, c :: cs =>
      if c = q then Within (!inside) cs else (c = a → inside = true) ∧ Within inside cs

variable {q a} {text rest : List Char} {inside : Bool}

attribute [local simp] Within in
theorem within_append (h : Within q a inside text) :
    Within q a inside (text ++ rest) ↔ Within q a false rest := by
  induction text generalizing inside with
  | nil =>
      obtain rfl : inside = false := h
      rfl
  | cons c text ih =>
      rw [Within] at h
      rw [List.cons_append, Within]
      split at h
      · next hc => rw [if_pos hc, ih h]
      · next hc => rw [if_neg hc, ih h.2, and_iff_right h.1]

theorem within_of_notMem (hq : q ∉ text) (ha : a ∉ text) : Within q a false text := by
  induction text with
  | nil => rfl
  | cons c text ih =>
      obtain ⟨hq, hqs⟩ := List.ne_and_not_mem_of_not_mem_cons hq
      obtain ⟨ha, has⟩ := List.ne_and_not_mem_of_not_mem_cons ha
      rw [Within, if_neg (Ne.symm hq)]
      exact ⟨fun heq => absurd heq.symm ha, ih hqs has⟩

theorem within_quoted (s : List Char) :
    Within q a true (doubled q s ++ q :: rest) ↔ Within q a false rest := by
  induction s with
  | nil => rw [doubled_nil, List.nil_append, Within, if_pos rfl, Bool.not_true]
  | cons c s ih =>
      rw [doubled_cons, List.append_assoc]
      by_cases hc : c = q
      · rw [if_pos hc, List.cons_append, Within, if_pos rfl, List.cons_append, Within, if_pos rfl]
        exact ih
      · rw [if_neg hc, List.cons_append, Within, if_neg hc, and_iff_right fun _ => rfl]
        exact ih

theorem within_doubled (hne : a ≠ q) (h : Within q a inside text) :
    Within q a inside (doubled a text) := by
  induction text generalizing inside with
  | nil => exact h
  | cons c text ih =>
      rw [Within] at h
      rw [doubled_cons]
      split at h
      · next hc =>
          rw [if_neg fun heq => hne (heq.symm.trans hc), List.cons_append, Within, if_pos hc]
          exact ih h
      · next hc =>
          obtain ⟨hinside, h⟩ := h
          by_cases ha : c = a
          · rw [if_pos ha, List.cons_append, Within, if_neg hne, List.cons_append, Within,
              if_neg hne]
            exact ⟨fun _ => hinside ha, fun _ => hinside ha, ih h⟩
          · rw [if_neg ha, List.cons_append, Within, if_neg hc]
            exact ⟨hinside, ih h⟩

/-- Behind an `a` a quote is open. -/
theorem within_behind (hne : a ≠ q) {before : List Char}
    (h : Within q a inside (before ++ a :: rest)) : Within q a true rest := by
  induction before generalizing inside with
  | nil =>
      rw [List.nil_append, Within, if_neg hne] at h
      obtain ⟨hinside, h⟩ := h
      rwa [hinside rfl] at h
  | cons c before ih =>
      rw [List.cons_append, Within] at h
      split at h
      · exact ih h
      · exact ih h.2

theorem not_within (h : Within q a inside text) : ¬ Within q a (!inside) text := by
  induction text generalizing inside with
  | nil =>
      obtain rfl : inside = false := h
      exact Bool.noConfusion
  | cons c text ih =>
      intro h'
      rw [Within] at h h'
      split at h
      · next hc =>
          rw [if_pos hc] at h'
          exact ih h h'
      · next hc =>
          rw [if_neg hc] at h'
          exact ih h.2 h'.2

end Within

section Numbers

def natural (text : List Char) : Option (Nat × List Char) :=
  (readDigits 10 (text.takeWhile Char.isDigit)).map fun n => (n, text.dropWhile Char.isDigit)

def integer (text : List Char) : Option (Int × List Char) :=
  match expect ['-'] text with
  | some rest => (natural rest).map fun r => (-(r.1 : Int), r.2)
  | none => (natural text).map fun r => ((r.1 : Int), r.2)

variable {rest : List Char}

/-- A number is read off the digits and the sign. -/
theorem eq_append_of_integer {text : List Char} {n : Int} (h : integer text = some (n, rest)) :
    ∃ digits, text = digits ++ rest ∧ ∀ c ∈ digits, c = '-' ∨ c.isDigit = true := by
  have hnatural : ∀ {text : List Char} {m : Nat}, natural text = some (m, rest) →
      text = text.takeWhile Char.isDigit ++ rest := by
    intro text m hm
    obtain ⟨_, -, heq⟩ := Option.map_eq_some_iff.mp hm
    cases heq
    exact List.takeWhile_append_dropWhile.symm
  rw [integer] at h
  split at h
  · next after hafter =>
      obtain ⟨⟨m, rest'⟩, hm, heq⟩ := Option.map_eq_some_iff.mp h
      cases heq
      refine ⟨'-' :: after.takeWhile Char.isDigit, ?_, List.forall_mem_cons.mpr ⟨.inl rfl, ?_⟩⟩
      · rw [eq_append_of_expect hafter, List.cons_append, List.cons_append, ← hnatural hm]
        rfl
      · exact fun c hc => .inr (List.all_eq_true.mp List.all_takeWhile c hc)
  · obtain ⟨⟨m, rest'⟩, hm, heq⟩ := Option.map_eq_some_iff.mp h
    cases heq
    exact ⟨_, hnatural hm, fun c hc => .inr (List.all_eq_true.mp List.all_takeWhile c hc)⟩

theorem natural_toDigits (h : ∀ c ∈ rest.head?, c.isDigit = false) (n : Nat) :
    natural (Nat.toDigits 10 n ++ rest) = some (n, rest) := by
  have hdigits : ∀ c ∈ Nat.toDigits 10 n, c.isDigit = true :=
    fun c hc => Nat.isDigit_of_mem_toDigits (by decide) (by decide) hc
  have hread : readDigits 10 (Nat.toDigits 10 n) = some n := by
    have hpadded : readDigits 10 (padded 0 10 n) = some n :=
      readDigits_padded (by decide) (by decide) 0 n
    rwa [padded, Nat.zero_sub, List.replicate_zero, List.nil_append] at hpadded
  have hstop : rest.takeWhile Char.isDigit = [] ∧ rest.dropWhile Char.isDigit = rest := by
    cases rest with
    | nil => exact ⟨rfl, rfl⟩
    | cons c rest =>
        have hc : ¬ c.isDigit = true := Bool.eq_false_iff.mp (h c rfl)
        exact ⟨List.takeWhile_cons_of_neg hc, List.dropWhile_cons_of_neg hc⟩
  rw [natural, List.takeWhile_append_of_pos hdigits, List.dropWhile_append_of_pos hdigits, hstop.1,
    hstop.2, List.append_nil, hread, Option.map_some]

theorem integer_toString (h : ∀ c ∈ rest.head?, c.isDigit = false) (n : Int) :
    integer ((toString n).toList ++ rest) = some (n, rest) := by
  cases n with
  | ofNat m =>
      have htext : (toString (Int.ofNat m)).toList = Nat.toDigits 10 m := Nat.toList_repr
      have hhead : expect ['-'] (Nat.toDigits 10 m ++ rest) = none := by
        cases hdigits : Nat.toDigits 10 m with
        | nil => exact absurd hdigits Nat.toDigits_ne_nil
        | cons c cs =>
            refine if_neg ?_
            rintro rfl
            have hminus : '-' ∈ Nat.toDigits 10 m := hdigits ▸ List.mem_cons_self
            exact absurd (Nat.isDigit_of_mem_toDigits (by decide) (by decide) hminus) (by decide)
      rw [htext, integer, hhead, natural_toDigits h]
      rfl
  | negSucc m =>
      have htext : (toString (Int.negSucc m)).toList = '-' :: Nat.toDigits 10 (m + 1) := by
        rw [← Nat.toList_repr]
        exact String.toList_append
      rw [htext, integer, List.cons_append, expect, if_pos rfl, expect]
      dsimp only
      rw [natural_toDigits h]
      rfl

end Numbers

end SqlOptima.SqlReading
