import SqlOptima.PythonTransforms

namespace SqlOptima.TransformTexts

open SqlOptima.CellValues
open SqlOptima.ColumnTransforms
open SqlOptima.Utf8Text

section Runes

variable {b₀ b₁ b₂ b₃ : UInt8} {rest : Text}

attribute [local simp] runeWidth secondOfThree secondOfFour in
theorem isContinuation_iff {b : UInt8} :
    isContinuation b = true ↔ 0x80 ≤ b.toNat ∧ b.toNat ≤ 0xBF := by
  rw [isContinuation, Bool.and_eq_true, decide_eq_true_eq, decide_eq_true_eq,
    UInt8.le_iff_toNat_le, UInt8.le_iff_toNat_le]
  rfl

theorem between_iff {lo hi b : UInt8} :
    (decide (lo ≤ b) && decide (b ≤ hi)) = true ↔ lo.toNat ≤ b.toNat ∧ b.toNat ≤ hi.toNat := by
  rw [Bool.and_eq_true, decide_eq_true_eq, decide_eq_true_eq, UInt8.le_iff_toNat_le,
    UInt8.le_iff_toNat_le]

theorem not_between {lo hi b : UInt8} (h : hi.toNat < b.toNat) :
    ¬ (decide (lo ≤ b) && decide (b ≤ hi)) = true :=
  fun hb => absurd (between_iff.mp hb).2 (Nat.not_le.mpr h)

theorem not_ascii (h : 0x80 ≤ b₀.toNat) : ¬ b₀ < 0x80 := by
  rw [UInt8.lt_iff_toNat_lt]
  exact Nat.not_lt.mpr h

theorem runeWidth_one (h : b₀.toNat < 0x80) : runeWidth (b₀ :: rest) = some 1 := by
  have hlt : b₀ < 0x80 := UInt8.lt_iff_toNat_lt.mpr h
  simp only [runeWidth, if_pos hlt]

theorem runeWidth_two (h₀ : 0xC2 ≤ b₀.toNat ∧ b₀.toNat ≤ 0xDF)
    (h₁ : 0x80 ≤ b₁.toNat ∧ b₁.toNat ≤ 0xBF) : runeWidth (b₀ :: b₁ :: rest) = some 2 := by
  have hlt : ¬ b₀ < 0x80 := not_ascii (by omega)
  have htwo : (decide (0xC2 ≤ b₀) && decide (b₀ ≤ 0xDF)) = true := between_iff.mpr h₀
  simp only [runeWidth, if_neg hlt, if_pos htwo, if_pos (isContinuation_iff.mpr h₁)]

theorem secondOfThree_of (h : 0x80 ≤ b₁.toNat ∧ b₁.toNat ≤ 0xBF)
    (hlow : b₀.toNat = 0xE0 → 0xA0 ≤ b₁.toNat) (hhigh : b₀.toNat = 0xED → b₁.toNat ≤ 0x9F) :
    secondOfThree b₀ b₁ = true := by
  unfold secondOfThree
  split
  · next hb =>
      subst hb
      exact between_iff.mpr ⟨hlow rfl, h.2⟩
  · split
    · next hb =>
        subst hb
        exact between_iff.mpr ⟨h.1, hhigh rfl⟩
    · exact isContinuation_iff.mpr h

theorem secondOfFour_of (h : 0x80 ≤ b₁.toNat ∧ b₁.toNat ≤ 0xBF)
    (hlow : b₀.toNat = 0xF0 → 0x90 ≤ b₁.toNat) (hhigh : b₀.toNat = 0xF4 → b₁.toNat ≤ 0x8F) :
    secondOfFour b₀ b₁ = true := by
  unfold secondOfFour
  split
  · next hb =>
      subst hb
      exact between_iff.mpr ⟨hlow rfl, h.2⟩
  · split
    · next hb =>
        subst hb
        exact between_iff.mpr ⟨h.1, hhigh rfl⟩
    · exact isContinuation_iff.mpr h

theorem runeWidth_three (h₀ : 0xE0 ≤ b₀.toNat ∧ b₀.toNat ≤ 0xEF)
    (h₁ : secondOfThree b₀ b₁ = true) (h₂ : 0x80 ≤ b₂.toNat ∧ b₂.toNat ≤ 0xBF) :
    runeWidth (b₀ :: b₁ :: b₂ :: rest) = some 3 := by
  have hlt : ¬ b₀ < 0x80 := not_ascii (by omega)
  have htwo : ¬ (decide (0xC2 ≤ b₀) && decide (b₀ ≤ 0xDF)) = true :=
    not_between (Nat.lt_of_lt_of_le (by decide) h₀.1)
  have hthree : (decide (0xE0 ≤ b₀) && decide (b₀ ≤ 0xEF)) = true := between_iff.mpr h₀
  simp only [runeWidth, if_neg hlt, if_neg htwo, if_pos hthree, h₁, isContinuation_iff.mpr h₂,
    Bool.and_self, if_true]

theorem runeWidth_four (h₀ : 0xF0 ≤ b₀.toNat ∧ b₀.toNat ≤ 0xF4)
    (h₁ : secondOfFour b₀ b₁ = true) (h₂ : 0x80 ≤ b₂.toNat ∧ b₂.toNat ≤ 0xBF)
    (h₃ : 0x80 ≤ b₃.toNat ∧ b₃.toNat ≤ 0xBF) :
    runeWidth (b₀ :: b₁ :: b₂ :: b₃ :: rest) = some 4 := by
  have hlt : ¬ b₀ < 0x80 := not_ascii (by omega)
  have htwo : ¬ (decide (0xC2 ≤ b₀) && decide (b₀ ≤ 0xDF)) = true :=
    not_between (Nat.lt_of_lt_of_le (by decide) h₀.1)
  have hthree : ¬ (decide (0xE0 ≤ b₀) && decide (b₀ ≤ 0xEF)) = true :=
    not_between (Nat.lt_of_lt_of_le (by decide) h₀.1)
  have hfour : (decide (0xF0 ≤ b₀) && decide (b₀ ≤ 0xF4)) = true := between_iff.mpr h₀
  simp only [runeWidth, if_neg hlt, if_neg htwo, if_neg hthree, if_pos hfour, h₁,
    isContinuation_iff.mpr h₂, isContinuation_iff.mpr h₃, Bool.and_self, if_true]

theorem toNat_valid (c : Char) :
    c.val.toNat < 0xD800 ∨ 0xDFFF < c.val.toNat ∧ c.val.toNat < 0x110000 :=
  c.valid

/-- The bytes of a character are read as one rune. -/
theorem runeWidth_utf8EncodeChar (c : Char) (rest : Text) :
    runeWidth (String.utf8EncodeChar c ++ rest) = some (String.utf8EncodeChar c).length := by
  have hvalid := toNat_valid c
  unfold String.utf8EncodeChar
  generalize c.val.toNat = v at hvalid
  dsimp only
  by_cases h₁ : v ≤ 0x7f
  · rw [if_pos h₁]
    apply runeWidth_one
    rw [UInt8.toNat_ofNat']
    omega
  · rw [if_neg h₁]
    by_cases h₂ : v ≤ 0x7ff
    · rw [if_pos h₂]
      apply runeWidth_two
      · rw [UInt8.toNat_ofNat']
        omega
      · rw [UInt8.toNat_ofNat']
        omega
    · rw [if_neg h₂]
      by_cases h₃ : v ≤ 0xffff
      · rw [if_pos h₃]
        apply runeWidth_three
        · rw [UInt8.toNat_ofNat']
          omega
        · apply secondOfThree_of
          all_goals
            simp only [UInt8.toNat_ofNat']
            omega
        · rw [UInt8.toNat_ofNat']
          omega
      · rw [if_neg h₃]
        apply runeWidth_four
        · rw [UInt8.toNat_ofNat']
          omega
        · apply secondOfFour_of
          all_goals
            simp only [UInt8.toNat_ofNat']
            omega
        · rw [UInt8.toNat_ofNat']
          omega
        · rw [UInt8.toNat_ofNat']
          omega

theorem decodeRune_utf8EncodeChar (c : Char) (rest : Text) :
    decodeRune (String.utf8EncodeChar c ++ rest) = (String.utf8EncodeChar c, rest) := by
  rw [decodeRune, runeWidth_utf8EncodeChar]
  simp only [List.take_left, List.drop_left]

theorem runesWithin_utf8 (text : List Char) {fuel : Nat} (h : (utf8 text).length ≤ fuel) :
    runesWithin fuel (utf8 text) = text.map String.utf8EncodeChar := by
  induction text generalizing fuel with
  | nil =>
      cases fuel with
      | zero => rfl
      | succ fuel => rfl
  | cons c text ih =>
      rw [utf8_cons, List.length_append] at h
      have hpos : 0 < (String.utf8EncodeChar c).length :=
        List.length_pos_of_ne_nil String.utf8EncodeChar_ne_nil
      obtain ⟨fuel, rfl⟩ := Nat.exists_eq_succ_of_ne_zero (by omega : fuel ≠ 0)
      obtain ⟨b, bs, hbytes⟩ := List.exists_cons_of_ne_nil (String.utf8EncodeChar_ne_nil (c := c))
      have hdecode := decodeRune_utf8EncodeChar c (utf8 text)
      rw [utf8_cons, List.map_cons]
      rw [hbytes, List.cons_append] at hdecode ⊢
      rw [runesWithin, hdecode, ih (by omega)]

/-- `range` goes through the characters of a text. -/
theorem runes_utf8 (text : List Char) : runes (utf8 text) = text.map String.utf8EncodeChar :=
  runesWithin_utf8 text (Nat.le_refl _)

end Runes

section Ascii

open SqlOptima.PythonTransforms (isAsciiDigit asciiDigit)

theorem isAsciiDigit_iff {c : Char} : isAsciiDigit c = true ↔ 48 ≤ c.toNat ∧ c.toNat ≤ 57 := by
  rw [isAsciiDigit, asciiDigit]
  split
  · next h => exact iff_of_true rfl h
  · next h => exact iff_of_false (by decide) h

theorem isAscii_of_isAsciiDigit {c : Char} (h : isAsciiDigit c) : isAscii c := by
  have := isAsciiDigit_iff.mp h
  exact decide_eq_true (by omega)

theorem isDigit_iff {b : UInt8} : isDigit b = true ↔ 48 ≤ b.toNat ∧ b.toNat ≤ 57 :=
  between_iff

theorem isDigit_of_le {b : UInt8} (h : 128 ≤ b.toNat) : isDigit b = false := by
  rw [← Bool.not_eq_true, isDigit_iff]
  omega

theorem isDigit_asciiByte {c : Char} (h : isAscii c) : isDigit (asciiByte c) = isAsciiDigit c := by
  rw [Bool.eq_iff_iff, isDigit_iff, isAsciiDigit_iff, toNat_asciiByte h]

theorem isAscii_and_isDigit (c : Char) :
    (isAscii c && isDigit (asciiByte c)) = isAsciiDigit c := by
  cases hc : isAscii c with
  | true => rw [Bool.true_and, isDigit_asciiByte hc]
  | false =>
      rw [Bool.false_and, eq_comm, ← Bool.not_eq_true]
      intro hdigit
      rw [isAscii_of_isAsciiDigit hdigit] at hc
      exact absurd hc (by decide)

/-- Only an ASCII digit is written as one byte that is a digit. -/
theorem isDigit_rune (c : Char) :
    ((String.utf8EncodeChar c).length = 1 ∧ (String.utf8EncodeChar c).all isDigit) ↔
      isAsciiDigit c := by
  cases hc : isAscii c with
  | true =>
      rw [utf8EncodeChar_ascii hc, List.all_cons, List.all_nil, Bool.and_true,
        isDigit_asciiByte hc]
      exact and_iff_right rfl
  | false =>
      rw [← isAscii_and_isDigit, hc, Bool.false_and]
      apply iff_of_false _ (by decide)
      rintro ⟨-, hall⟩
      obtain ⟨b, bs, hbytes⟩ := List.exists_cons_of_ne_nil (String.utf8EncodeChar_ne_nil (c := c))
      have hmem : b ∈ String.utf8EncodeChar c := by
        rw [hbytes]
        exact List.mem_cons_self
      have := List.all_eq_true.mp hall b hmem
      rw [isDigit_of_le (le_of_mem_utf8EncodeChar hc b hmem)] at this
      exact absurd this (by decide)

def asciiDigits (text : List Char) : List Char := text.filter isAsciiDigit

theorem filter_isDigit_utf8 (text : List Char) :
    (utf8 text).filter isDigit = utf8 (asciiDigits text) := by
  rw [filter_utf8 (fun _ => isDigit_of_le), asciiDigits]
  simp only [isAscii_and_isDigit]

theorem utf8_of_ascii {text : List Char} (h : ∀ c ∈ text, isAscii c) :
    utf8 text = text.map asciiByte := by
  rw [utf8, List.map_eq_flatMap]
  apply List.flatMap_congr
  intro c hc
  exact utf8EncodeChar_ascii (h c hc)

theorem isAscii_of_mem_asciiDigits {text : List Char} : ∀ c ∈ asciiDigits text, isAscii c := by
  intro c hc
  exact isAscii_of_isAsciiDigit (List.mem_filter.mp hc).2

end Ascii

section Masks

open SqlOptima.PythonTransforms (isAsciiDigit hexChar hexdigest token lastFourOf)

variable (rt : Runtime)

theorem redacted_eq : redacted = utf8 PythonTransforms.redacted := by decide

theorem hexDigit_eq {n : Nat} (h : n < 16) :
    isAscii (hexChar n) = true ∧ hexDigit n = asciiByte (hexChar n) := by
  revert n
  decide

theorem isAscii_of_mem_hexdigest (text : List Char) : ∀ c ∈ hexdigest rt text, isAscii c := by
  intro c hc
  obtain ⟨b, -, hmem⟩ := List.mem_flatMap.mp hc
  have hlt := UInt8.toNat_lt b
  rw [List.mem_cons, List.mem_singleton] at hmem
  rcases hmem with rfl | rfl
  · exact (hexDigit_eq (by omega)).1
  · exact (hexDigit_eq (by omega)).1

theorem hexSum_eq (text : List Char) : hexSum rt (utf8 text) = utf8 (hexdigest rt text) := by
  rw [utf8_of_ascii (isAscii_of_mem_hexdigest rt text), hexSum, hexdigest, List.map_flatMap]
  apply List.flatMap_congr
  intro b _
  have hlt := UInt8.toNat_lt b
  rw [(hexDigit_eq (by omega : b.toNat / 16 < 16)).2, (hexDigit_eq (by omega : b.toNat % 16 < 16)).2]
  rfl

theorem token_eq (text : List Char) :
    ascii "TOK_" ++ (hexSum rt (utf8 text)).take 12 = utf8 (token rt text) := by
  have hascii := isAscii_of_mem_hexdigest rt text
  rw [hexSum_eq, token, utf8_append, utf8_of_ascii hascii,
    utf8_of_ascii (fun c hc => hascii c (List.mem_of_mem_take hc)), List.map_take]
  rfl

theorem lastFour_eq (text : List Char) :
    lastFour (utf8 text) = utf8 (lastFourOf (asciiDigits text)) := by
  have hascii : ∀ c ∈ asciiDigits text, isAscii c := isAscii_of_mem_asciiDigits
  have hdrop : ∀ n, utf8 ((asciiDigits text).drop n) = (utf8 (asciiDigits text)).drop n := by
    intro n
    rw [utf8_of_ascii hascii, utf8_of_ascii (fun c hc => hascii c (List.mem_of_mem_drop hc)),
      List.map_drop]
  have hlength : (utf8 (asciiDigits text)).length = (asciiDigits text).length := by
    rw [utf8_of_ascii hascii, List.length_map]
  rw [lastFour, filter_isDigit_utf8, lastFourOf, utf8_append, hlength]
  split
  · rfl
  · rw [hdrop]
    rfl

theorem split_at (text : List Char) (h : '@' ∈ text) :
    text = text.takeWhile (· != '@') ++ '@' :: (text.dropWhile (· != '@')).drop 1 := by
  induction text with
  | nil => exact absurd h List.not_mem_nil
  | cons c text ih =>
      by_cases hc : c = '@'
      · subst hc
        rw [List.takeWhile_cons_of_neg (by decide), List.dropWhile_cons_of_neg (by decide)]
        rfl
      · rw [List.takeWhile_cons_of_pos (by simpa using hc),
          List.dropWhile_cons_of_pos (by simpa using hc), List.cons_append,
          ← ih ((List.mem_cons.mp h).resolve_left (Ne.symm hc))]

theorem idxOf?_of_notMem {a : Text} {b : UInt8} (h : b ∉ a) (rest : Text) :
    (a ++ b :: rest).idxOf? b = some a.length := by
  rw [List.idxOf?, List.findIdx?_append, List.findIdx?_eq_none_iff.mpr, List.findIdx?_cons]
  · simp
  · intro x hx
    rw [beq_eq_false_iff_ne]
    rintro rfl
    exact h hx

theorem idxOf?_at {front : List Char} (h : '@' ∉ front) (domain : List Char) :
    (utf8 (front ++ '@' :: domain)).idxOf? 64 = some (utf8 front).length := by
  have hnot : (64 : UInt8) ∉ utf8 front :=
    (asciiByte_mem_utf8_iff (c := '@') (by decide)).not.mpr h
  rw [utf8_append, utf8_cons]
  exact idxOf?_of_notMem hnot (utf8 domain)

theorem partialEmail_at_front (domain : List Char) :
    partialEmail (utf8 ('@' :: domain)) = utf8 ('*' :: '@' :: domain) := by
  have hidx : (utf8 ('@' :: domain)).idxOf? 64 = some 0 := idxOf?_at List.not_mem_nil domain
  rw [partialEmail, hidx]
  rfl

theorem partialEmail_at_later {c : Char} {front : List Char} (h : '@' ∉ c :: front)
    (domain : List Char) :
    partialEmail (utf8 (c :: front ++ '@' :: domain)) =
      utf8 (c :: '*' :: '*' :: '*' :: '@' :: domain) := by
  obtain ⟨n, hn⟩ : ∃ n, (utf8 (c :: front)).length = n + 1 := by
    apply Nat.exists_eq_succ_of_ne_zero
    rw [utf8_cons, List.length_append]
    have hpos : 0 < (String.utf8EncodeChar c).length :=
      List.length_pos_of_ne_nil String.utf8EncodeChar_ne_nil
    omega
  have hbytes : utf8 (c :: front ++ '@' :: domain) = utf8 (c :: front) ++ 64 :: utf8 domain :=
    utf8_append _ _
  have htake : (utf8 (c :: front ++ '@' :: domain)).take (n + 1) = utf8 (c :: front) := by
    rw [hbytes, List.take_left' hn]
  have hdrop : (utf8 (c :: front ++ '@' :: domain)).drop (n + 1 + 1) = utf8 domain := by
    rw [hbytes, ← hn, ← List.drop_drop, List.drop_left]
    rfl
  rw [partialEmail, idxOf?_at h domain, hn]
  change (decodeRune ((utf8 (c :: front ++ '@' :: domain)).take (n + 1))).1 ++ ascii "***@" ++
    (utf8 (c :: front ++ '@' :: domain)).drop (n + 1 + 1) = _
  rw [htake, hdrop, utf8_cons, decodeRune_utf8EncodeChar, utf8_cons, List.append_assoc]
  rfl

theorem partialEmail_eq (text : List Char) :
    partialEmail (utf8 text) = utf8 (PythonTransforms.partialEmail text) := by
  rw [PythonTransforms.partialEmail]
  split
  · next h =>
      have hsplit := split_at text h
      have hnot : '@' ∉ text.takeWhile (· != '@') := by
        intro hmem
        exact absurd (List.mem_takeWhile_imp hmem) (by decide)
      generalize (text.dropWhile (· != '@')).drop 1 = domain at hsplit
      dsimp only
      cases hfront : text.takeWhile (· != '@') with
      | nil =>
          rw [hfront, List.nil_append] at hsplit
          rw [hsplit]
          exact partialEmail_at_front domain
      | cons c front =>
          rw [hfront] at hsplit hnot
          rw [hsplit]
          exact partialEmail_at_later hnot domain
  · next h =>
      have hnone : (utf8 text).idxOf? 64 = none :=
        List.idxOf?_eq_none_iff.mpr ((asciiByte_mem_utf8_iff (c := '@') (by decide)).not.mpr h)
      rw [partialEmail, hnone, redacted_eq]

end Masks

section Digits

open SqlOptima.PythonTransforms (isAsciiDigit)

variable (isDigit : Char → Bool)

/-- Writes `mapped` over the digits of a text, as far as it goes. -/
def fill : List Char → List Char → List Char
  | [], _ => []
  | c :: text, mapped =>
      if isDigit c then mapped.headD c :: fill text mapped.tail else c :: fill text mapped

/-- A text with its digits blanked out. -/
def blank (text : List Char) : List Char := text.map fun c => if isDigit c then '0' else c

variable {isDigit}

/-- The texts that fill another are as long as it has digits, and digits themselves. -/
structure Fills (isDigit : Char → Bool) (text mapped : List Char) : Prop where
  digits : ∀ d ∈ mapped, isAsciiDigit d
  length_eq : mapped.length = text.countP isDigit

theorem fills_nil_iff {mapped : List Char} : Fills isDigit [] mapped ↔ mapped = [] := by
  constructor
  · intro h
    exact List.length_eq_zero_iff.mp h.length_eq
  · rintro rfl
    exact ⟨by simp, rfl⟩

theorem Fills.of_digit {c : Char} {text mapped : List Char} (hc : isDigit c = true)
    (h : Fills isDigit (c :: text) mapped) :
    ∃ d rest, mapped = d :: rest ∧ isAsciiDigit d = true ∧ Fills isDigit text rest := by
  have hlength := h.length_eq
  rw [List.countP_cons_of_pos hc] at hlength
  obtain ⟨d, rest, rfl⟩ := List.exists_cons_of_length_eq_add_one hlength
  refine ⟨d, rest, rfl, h.digits d List.mem_cons_self, ?_, Nat.succ_inj.mp hlength⟩
  exact fun e he => h.digits e (List.mem_cons_of_mem d he)

theorem Fills.of_not_digit {c : Char} {text mapped : List Char} (hc : ¬ isDigit c = true)
    (h : Fills isDigit (c :: text) mapped) : Fills isDigit text mapped :=
  ⟨h.digits, h.length_eq.trans (List.countP_cons_of_neg hc)⟩

section Filled

variable (h : ∀ c, isAsciiDigit c → isDigit c)

include h

theorem asciiDigits_fill (text : List Char) :
    ∀ {mapped : List Char}, Fills isDigit text mapped →
      asciiDigits (fill isDigit text mapped) = mapped := by
  induction text with
  | nil =>
      intro mapped hfills
      rw [fills_nil_iff.mp hfills]
      rfl
  | cons c text ih =>
      intro mapped hfills
      by_cases hc : isDigit c = true
      · obtain ⟨d, rest, rfl, hd, hrest⟩ := hfills.of_digit hc
        rw [fill, if_pos hc, asciiDigits, List.headD_cons, List.filter_cons_of_pos hd]
        exact congrArg (d :: ·) (ih hrest)
      · have hnot : ¬ isAsciiDigit c = true := fun hdigit => hc (h c hdigit)
        rw [fill, if_neg hc, asciiDigits, List.filter_cons_of_neg hnot]
        exact ih (hfills.of_not_digit hc)

theorem blank_fill (text : List Char) :
    ∀ {mapped : List Char}, Fills isDigit text mapped →
      blank isAsciiDigit (fill isDigit text mapped) = blank isDigit text := by
  induction text with
  | nil =>
      intro mapped _
      rfl
  | cons c text ih =>
      intro mapped hfills
      by_cases hc : isDigit c = true
      · obtain ⟨d, rest, rfl, hd, hrest⟩ := hfills.of_digit hc
        have htail := ih hrest
        rw [blank] at htail ⊢
        rw [fill, if_pos hc, List.headD_cons, List.map_cons, if_pos hd, List.tail_cons, htail,
          blank, blank, List.map_cons, if_pos hc]
      · have hnot : ¬ isAsciiDigit c = true := fun hdigit => hc (h c hdigit)
        have htail := ih (hfills.of_not_digit hc)
        rw [blank] at htail ⊢
        rw [fill, if_neg hc, List.map_cons, if_neg hnot, htail, blank, blank, List.map_cons,
          if_neg hc]

theorem fill_blank (text : List Char) :
    ∀ {mapped : List Char}, Fills isDigit text mapped →
      fill isAsciiDigit (blank isDigit text) mapped = fill isDigit text mapped := by
  induction text with
  | nil =>
      intro mapped _
      rfl
  | cons c text ih =>
      intro mapped hfills
      by_cases hc : isDigit c = true
      · obtain ⟨d, rest, rfl, -, hrest⟩ := hfills.of_digit hc
        rw [blank, List.map_cons, if_pos hc, fill, if_pos (by decide), fill, if_pos hc]
        exact congrArg (d :: ·) (ih hrest)
      · have hnot : ¬ isAsciiDigit c = true := fun hdigit => hc (h c hdigit)
        rw [blank, List.map_cons, if_neg hc, fill, if_neg hnot, fill, if_neg hc]
        exact congrArg (c :: ·) (ih (hfills.of_not_digit hc))

theorem countP_blank (text : List Char) :
    (blank isDigit text).countP isAsciiDigit = text.countP isDigit := by
  rw [blank, List.countP_map]
  apply List.countP_congr
  intro c _
  rw [Function.comp_apply]
  by_cases hc : isDigit c = true
  · rw [if_pos hc]
    exact iff_of_true (by decide) hc
  · rw [if_neg hc]
    exact iff_of_false (fun hdigit => hc (h c hdigit)) hc

end Filled

/-- Two filled texts are the same where they are, blanked out, and with the same
digits. -/
theorem fill_eq_iff {isDigit' : Char → Bool} {a b mapped mapped' : List Char}
    (h : ∀ c, isAsciiDigit c → isDigit c) (h' : ∀ c, isAsciiDigit c → isDigit' c)
    (ha : Fills isDigit a mapped) (hb : Fills isDigit' b mapped') :
    fill isDigit a mapped = fill isDigit' b mapped' ↔
      blank isDigit a = blank isDigit' b ∧ mapped = mapped' := by
  constructor
  · intro heq
    refine ⟨?_, ?_⟩
    · rw [← blank_fill h a ha, ← blank_fill h' b hb, heq]
    · rw [← asciiDigits_fill h a ha, ← asciiDigits_fill h' b hb, heq]
  · rintro ⟨hblank, rfl⟩
    rw [← fill_blank h a ha, ← fill_blank h' b hb, hblank]

/-- A text with a digit filled in is none of the fixed ones. -/
theorem fill_ne_redacted {text mapped : List Char} (h : ∀ c, isAsciiDigit c → isDigit c)
    (hfills : Fills isDigit text mapped) (hne : mapped ≠ []) :
    fill isDigit text mapped ≠ PythonTransforms.redacted := by
  intro heq
  apply hne
  rw [← asciiDigits_fill h text hfills, heq]
  decide

end Digits

section Numeric

open SqlOptima.PythonTransforms (isAsciiDigit)

variable (rt : Runtime)

def digitChar (n : Nat) : Char := Char.ofNat (48 + n % 10)

theorem toNat_digitChar (n : Nat) : (digitChar n).toNat = 48 + n % 10 := by
  have hlt : n % 10 < 10 := Nat.mod_lt n (by decide)
  rw [digitChar]
  generalize n % 10 = m at hlt
  revert m
  decide

theorem isAsciiDigit_digitChar (n : Nat) : isAsciiDigit (digitChar n) = true := by
  rw [isAsciiDigit_iff, toNat_digitChar]
  omega

theorem digitChar_inj {m n : Nat} : digitChar m = digitChar n ↔ m % 10 = n % 10 := by
  rw [← Char.toNat_inj, toNat_digitChar, toNat_digitChar]
  omega

/-- The digits Go writes: one byte of the digest for each. -/
def mappedDigits (digits : List Char) : List Char :=
  (List.range digits.length).map fun i =>
    digitChar (rt.sha256 (utf8 digits) (Fin.ofNat 32 i)).toNat

theorem length_asciiDigits (text : List Char) :
    (asciiDigits text).length = text.countP isAsciiDigit :=
  List.countP_eq_length_filter.symm

theorem fills_mappedDigits (text : List Char) :
    Fills isAsciiDigit text (mappedDigits rt (asciiDigits text)) := by
  refine ⟨?_, ?_⟩
  · intro d hd
    obtain ⟨i, -, rfl⟩ := List.mem_map.mp hd
    exact isAsciiDigit_digitChar _
  · rw [mappedDigits, List.length_map, List.length_range, length_asciiDigits]

/-- The characters of Go's `transformMaskFPENumeric`. -/
def fpeText (text : List Char) : List Char :=
  if asciiDigits text = [] then PythonTransforms.redacted
  else fill isAsciiDigit text (mappedDigits rt (asciiDigits text))

theorem replaceDigits_of_not_digit {r : Text} (h : ¬ (r.length = 1 ∧ r.all isDigit))
    (rs : List Text) (ds : List UInt8) : replaceDigits (r :: rs) ds = r ++ replaceDigits rs ds := by
  match r, ds with
  | [], _ => rw [replaceDigits]; simp
  | [b], [] => rw [replaceDigits]; simp
  | [b], d :: ds =>
      have hb : ¬ isDigit b = true := by simpa using h
      rw [replaceDigits, if_neg hb]
      rfl
  | b :: b' :: r, ds => rw [replaceDigits]; simp

theorem replaceDigits_eq (text : List Char) :
    ∀ {mapped : List Char}, Fills isAsciiDigit text mapped →
      replaceDigits (text.map String.utf8EncodeChar) (mapped.map asciiByte) =
        utf8 (fill isAsciiDigit text mapped) := by
  induction text with
  | nil =>
      intro mapped _
      rfl
  | cons c text ih =>
      intro mapped hfills
      by_cases hc : isAsciiDigit c = true
      · obtain ⟨d, rest, rfl, hd, hrest⟩ := hfills.of_digit hc
        have hascii := isAscii_of_isAsciiDigit hc
        rw [List.map_cons, List.map_cons, utf8EncodeChar_ascii hascii, replaceDigits,
          isDigit_asciiByte hascii, if_pos hc, ih hrest, fill, if_pos hc, List.headD_cons,
          List.tail_cons, utf8_cons, utf8EncodeChar_ascii (isAscii_of_isAsciiDigit hd)]
        rfl
      · have hrest := ih (hfills.of_not_digit hc)
        rw [fill, if_neg hc, utf8_cons, List.map_cons, ← hrest]
        exact replaceDigits_of_not_digit (fun hrune => hc ((isDigit_rune c).mp hrune)) _ _

theorem digStr_eq (text : List Char) :
    ((runes (utf8 text)).filter fun r => r.length = 1 ∧ r.all isDigit).flatten =
      utf8 (asciiDigits text) := by
  rw [runes_utf8, List.filter_map, ← List.flatMap_def, asciiDigits, utf8]
  congr 2
  funext c
  rw [Function.comp_apply, Bool.eq_iff_iff, decide_eq_true_eq]
  exact isDigit_rune c

theorem mapped_eq (digits : List Char) :
    (List.range digits.length).map
        (fun i => 48 + rt.sha256 (utf8 digits) (Fin.ofNat 32 i) % 10) =
      (mappedDigits rt digits).map asciiByte := by
  rw [mappedDigits, List.map_map]
  apply List.map_congr_left
  intro i _
  rw [Function.comp_apply, asciiByte, toNat_digitChar, ← UInt8.toNat_inj, UInt8.toNat_ofNat']
  generalize rt.sha256 (utf8 digits) (Fin.ofNat 32 i) = b
  rw [UInt8.toNat_add, UInt8.toNat_mod]
  rfl

theorem fpeNumeric_eq (text : List Char) : fpeNumeric rt (utf8 text) = utf8 (fpeText rt text) := by
  have hlength : (utf8 (asciiDigits text)).length = (asciiDigits text).length := by
    rw [utf8_of_ascii isAscii_of_mem_asciiDigits, List.length_map]
  have hnil : utf8 (asciiDigits text) = [] ↔ asciiDigits text = [] := by
    rw [← List.length_eq_zero_iff, hlength, List.length_eq_zero_iff]
  rw [fpeNumeric, digStr_eq, fpeText]
  by_cases hdigits : asciiDigits text = []
  · rw [if_pos (hnil.mpr hdigits), if_pos hdigits, redacted_eq]
  · rw [if_neg (hnil.not.mpr hdigits), if_neg hdigits, hlength]
    dsimp only
    rw [mapped_eq, runes_utf8]
    exact replaceDigits_eq text (fills_mappedDigits rt text)

end Numeric

end SqlOptima.TransformTexts
