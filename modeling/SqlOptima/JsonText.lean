import Mathlib.Data.List.Chain
import SqlOptima.NumberText

namespace SqlOptima.JsonText

open SqlOptima.NumberText

abbrev CodePoint := Fin 0x110000

/-- A string as its code points, in which a surrogate may stand alone. -/
abbrev Str := List CodePoint

def ofChar (c : Char) : CodePoint := Fin.ofNat 0x110000 c.toNat

def ofText (cs : List Char) : Str := cs.map ofChar

section Strings

def isHigh (c : CodePoint) : Prop := 0xD800 ≤ c.val ∧ c.val ≤ 0xDBFF

instance (c : CodePoint) : Decidable (isHigh c) := inferInstanceAs (Decidable (_ ∧ _))

def isLow (c : CodePoint) : Prop := 0xDC00 ≤ c.val ∧ c.val ≤ 0xDFFF

instance (c : CodePoint) : Decidable (isLow c) := inferInstanceAs (Decidable (_ ∧ _))

def escapeUnit (n : Nat) : List Char := '\\' :: 'u' :: padded 4 16 n

/-- A code point in a JSON string of ASCII characters only. -/
def escape (c : CodePoint) : List Char :=
  if c.val = 0x22 then ['\\', '"']
  else if c.val = 0x5C then ['\\', '\\']
  else if c.val = 0x08 then ['\\', 'b']
  else if c.val = 0x0C then ['\\', 'f']
  else if c.val = 0x0A then ['\\', 'n']
  else if c.val = 0x0D then ['\\', 'r']
  else if c.val = 0x09 then ['\\', 't']
  else if 0x20 ≤ c.val ∧ c.val ≤ 0x7E then [Char.ofNat c.val]
  else if c.val < 0x10000 then escapeUnit c.val
  else
    escapeUnit (0xD800 + (c.val - 0x10000) / 0x400) ++
      escapeUnit (0xDC00 + (c.val - 0x10000) % 0x400)

def renderString (s : Str) : List Char := '"' :: (s.flatMap escape ++ ['"'])

def simpleEscape (c : Char) : Option CodePoint :=
  if c = '"' then some 0x22
  else if c = '\\' then some 0x5C
  else if c = '/' then some 0x2F
  else if c = 'b' then some 0x08
  else if c = 'f' then some 0x0C
  else if c = 'n' then some 0x0A
  else if c = 'r' then some 0x0D
  else if c = 't' then some 0x09
  else none

/-- Where a scanner stands inside a string: between characters, after a
backslash, or among the four digits of an escape. -/
inductive Place
  | plain
  | escaped
  | hex (digits : List Char)

/-- The units of a string up to its closing quote, one for each character and
each escape sequence. -/
def scanUnits : Place → List Char → Option (Str × List Char)
  | _, [] => none
  | .plain, c :: cs =>
      if c = '"' then some ([], cs)
      else if c = '\\' then scanUnits .escaped cs
      else if c.toNat < 0x20 then none
      else (scanUnits .plain cs).map fun p => (ofChar c :: p.1, p.2)
  | .escaped, c :: cs =>
      if c = 'u' then scanUnits (.hex []) cs
      else
        match simpleEscape c with
        | none => none
        | some u => (scanUnits .plain cs).map fun p => (u :: p.1, p.2)
  | .hex digits, c :: cs =>
      if digits.length < 3 then scanUnits (.hex (digits ++ [c])) cs
      else
        match readDigits 16 (digits ++ [c]) with
        | none => none
        | some n => (scanUnits .plain cs).map fun p => (Fin.ofNat 0x110000 n :: p.1, p.2)

/-- An escaped high surrogate and the escaped low one after it are one code
point. -/
def joinPairs : Str → Str
  | [] => []
  | [c] => [c]
  | c :: d :: cs =>
      if isHigh c ∧ isLow d then
        Fin.ofNat 0x110000 (0x10000 + (c.val - 0xD800) * 0x400 + (d.val - 0xDC00)) ::
          joinPairs cs
      else c :: joinPairs (d :: cs)

def scanString (cs : List Char) : Option (Str × List Char) :=
  (scanUnits .plain cs).map fun p => (joinPairs p.1, p.2)

/-- No high surrogate stands directly before a low one. -/
def Unpaired (s : Str) : Prop := s.IsChain fun c d => ¬ (isHigh c ∧ isLow d)

instance (s : Str) : Decidable (Unpaired s) := inferInstanceAs (Decidable (List.IsChain _ s))

def units (c : CodePoint) : Str :=
  if c.val < 0x10000 then [c]
  else
    [Fin.ofNat 0x110000 (0xD800 + (c.val - 0x10000) / 0x400),
      Fin.ofNat 0x110000 (0xDC00 + (c.val - 0x10000) % 0x400)]

attribute [local simp] scanUnits in
theorem scanUnits_escapeUnit {n : Nat} (h : n < 0x10000) (rest : List Char) :
    scanUnits .plain (escapeUnit n ++ rest) =
      (scanUnits .plain rest).map fun p => (Fin.ofNat 0x110000 n :: p.1, p.2) := by
  have hlen : (padded 4 16 n).length = 4 := length_padded (by decide) (by decide) h
  have hread : readDigits 16 (padded 4 16 n) = some n :=
    readDigits_padded (by decide) (by decide) 4 n
  obtain ⟨x, y, z, w, hx⟩ : ∃ x y z w, padded 4 16 n = [x, y, z, w] := by
    match hp : padded 4 16 n, hlen with
    | [x, y, z, w], _ => exact ⟨x, y, z, w, rfl⟩
  rw [hx] at hread
  rw [escapeUnit, hx]
  simp [scanUnits, hread]

theorem scanUnits_simple {e : Char} {u : CodePoint} (he : e ≠ 'u')
    (hu : simpleEscape e = some u) (rest : List Char) :
    scanUnits .plain ('\\' :: e :: rest) =
      (scanUnits .plain rest).map fun p => (u :: p.1, p.2) := by
  rw [scanUnits, if_neg (by decide), if_pos rfl, scanUnits, if_neg he, hu]

theorem toNat_ofNat_ascii {n : Nat} (h : n ≤ 0x7E) : (Char.ofNat n).toNat = n := by
  have hvalid : n.isValidChar := Or.inl (by omega)
  rw [Char.ofNat, dif_pos hvalid]
  rfl

theorem scanUnits_printable {c : CodePoint} (hquote : c.val ≠ 0x22) (hslash : c.val ≠ 0x5C)
    (hlow : 0x20 ≤ c.val) (hhigh : c.val ≤ 0x7E) (rest : List Char) :
    scanUnits .plain (Char.ofNat c.val :: rest) =
      (scanUnits .plain rest).map fun p => (c :: p.1, p.2) := by
  have hnat := toNat_ofNat_ascii hhigh
  have hne : ∀ d : Char, d.toNat ≠ c.val → Char.ofNat c.val ≠ d := by
    rintro d hd rfl
    exact hd hnat
  have hof : ofChar (Char.ofNat c.val) = c := by
    rw [ofChar, hnat]
    exact Fin.ofNat_val_eq_self c
  rw [scanUnits, if_neg (hne '"' hquote.symm), if_neg (hne '\\' hslash.symm), hnat,
    if_neg (by omega), hof]

theorem scanUnits_escape (c : CodePoint) (rest : List Char) :
    scanUnits .plain (escape c ++ rest) =
      (scanUnits .plain rest).map fun p => (units c ++ p.1, p.2) := by
  have hlt := c.isLt
  have hself : ∀ n, c.val = n → n < 0x10000 → units c = [Fin.ofNat 0x110000 n] := by
    intro n hn hlt'
    subst hn
    rw [units, if_pos hlt', Fin.ofNat_val_eq_self]
  by_cases h1 : c.val = 0x22
  · rw [escape, if_pos h1, hself _ h1 (by decide)]
    exact scanUnits_simple (by decide) rfl rest
  by_cases h2 : c.val = 0x5C
  · rw [escape, if_neg h1, if_pos h2, hself _ h2 (by decide)]
    exact scanUnits_simple (by decide) rfl rest
  by_cases h3 : c.val = 0x08
  · rw [escape, if_neg h1, if_neg h2, if_pos h3, hself _ h3 (by decide)]
    exact scanUnits_simple (by decide) rfl rest
  by_cases h4 : c.val = 0x0C
  · rw [escape, if_neg h1, if_neg h2, if_neg h3, if_pos h4, hself _ h4 (by decide)]
    exact scanUnits_simple (by decide) rfl rest
  by_cases h5 : c.val = 0x0A
  · rw [escape, if_neg h1, if_neg h2, if_neg h3, if_neg h4, if_pos h5, hself _ h5 (by decide)]
    exact scanUnits_simple (by decide) rfl rest
  by_cases h6 : c.val = 0x0D
  · rw [escape, if_neg h1, if_neg h2, if_neg h3, if_neg h4, if_neg h5, if_pos h6,
      hself _ h6 (by decide)]
    exact scanUnits_simple (by decide) rfl rest
  by_cases h7 : c.val = 0x09
  · rw [escape, if_neg h1, if_neg h2, if_neg h3, if_neg h4, if_neg h5, if_neg h6,
      if_pos h7, hself _ h7 (by decide)]
    exact scanUnits_simple (by decide) rfl rest
  rw [escape, if_neg h1, if_neg h2, if_neg h3, if_neg h4, if_neg h5, if_neg h6, if_neg h7]
  by_cases h8 : 0x20 ≤ c.val ∧ c.val ≤ 0x7E
  · rw [if_pos h8, units, if_pos (by omega)]
    exact scanUnits_printable h1 h2 h8.1 h8.2 rest
  by_cases h9 : c.val < 0x10000
  · rw [if_neg h8, if_pos h9, hself _ rfl h9]
    exact scanUnits_escapeUnit h9 rest
  · rw [if_neg h8, if_neg h9, units, if_neg h9, List.append_assoc,
      scanUnits_escapeUnit (by omega), scanUnits_escapeUnit (by omega), Option.map_map]
    rfl

theorem scanUnits_flatMap_escape (s : Str) (rest : List Char) :
    scanUnits .plain (s.flatMap escape ++ '"' :: rest) = some (s.flatMap units, rest) := by
  induction s with
  | nil => rfl
  | cons c s ih =>
      rw [List.flatMap_cons, List.append_assoc, scanUnits_escape, ih, List.flatMap_cons]
      rfl

attribute [local simp] joinPairs in
theorem joinPairs_cons {c : CodePoint} (h : ¬ isHigh c) (s : Str) :
    joinPairs (c :: s) = c :: joinPairs s := by
  cases s with
  | nil => rfl
  | cons d s => rw [joinPairs, if_neg fun hp => h hp.1]

theorem joinPairs_pair {c : CodePoint} (h : ¬ c.val < 0x10000) (s : Str) :
    joinPairs (units c ++ s) = c :: joinPairs s := by
  have hlt := c.isLt
  rw [units, if_neg h, List.cons_append, List.singleton_append, joinPairs, if_pos]
  · rw [List.cons.injEq]
    refine ⟨Fin.ext ?_, rfl⟩
    simp only [Fin.val_ofNat]
    omega
  · simp only [isHigh, isLow, Fin.val_ofNat]
    omega

/-- Splitting the large code points changes nothing once pairs are joined. -/
theorem joinPairs_flatMap_units (s : Str) : joinPairs (s.flatMap units) = joinPairs s := by
  induction s using joinPairs.induct with
  | case1 => rfl
  | case2 c =>
      by_cases hc : c.val < 0x10000
      · simp [units, hc]
      · simpa [joinPairs] using joinPairs_pair hc []
  | case3 c d s hcd ih =>
      have hc : c.val < 0x10000 := by
        have := hcd.1.2
        omega
      have hd : d.val < 0x10000 := by
        have := hcd.2.2
        omega
      simp only [List.flatMap_cons, units, if_pos hc, if_pos hd, List.cons_append,
        List.nil_append, joinPairs, if_pos hcd, ih]
  | case4 c d s hcd ih =>
      rw [joinPairs, if_neg hcd, List.flatMap_cons, ← ih]
      by_cases hc : c.val < 0x10000
      · rw [units, if_pos hc, List.singleton_append]
        by_cases hhigh : isHigh c
        · -- whatever stands first after a lone high surrogate is not a low one
          have hd : ¬ isLow d := fun hd => hcd ⟨hhigh, hd⟩
          rw [List.flatMap_cons, units]
          split_ifs with hsmall
          · rw [List.cons_append, joinPairs, if_neg fun h => hd h.2]
          · rw [List.cons_append, joinPairs, if_neg]
            rintro ⟨-, hlow⟩
            have hdlt := d.isLt
            simp only [isLow, Fin.val_ofNat] at hlow
            omega
        · exact joinPairs_cons hhigh _
      · exact joinPairs_pair hc _

theorem scanString_renderString (s : Str) (rest : List Char) :
    scanString (s.flatMap escape ++ '"' :: rest) = some (joinPairs s, rest) := by
  rw [scanString, scanUnits_flatMap_escape, Option.map_some, joinPairs_flatMap_units]

theorem length_joinPairs_le (s : Str) : (joinPairs s).length ≤ s.length := by
  induction s using joinPairs.induct with
  | case1 => exact Nat.le_refl 0
  | case2 c => exact Nat.le_refl 1
  | case3 c d s hcd ih =>
      rw [joinPairs, if_pos hcd]
      simp only [List.length_cons]
      omega
  | case4 c d s hcd ih =>
      rw [joinPairs, if_neg hcd]
      simpa using ih

theorem joinPairs_eq_self_iff (s : Str) : joinPairs s = s ↔ Unpaired s := by
  induction s using joinPairs.induct with
  | case1 => exact ⟨fun _ => List.IsChain.nil, fun _ => rfl⟩
  | case2 c => exact ⟨fun _ => List.IsChain.singleton c, fun _ => rfl⟩
  | case3 c d s hcd ih =>
      constructor
      · intro h
        have hlen := congrArg List.length h
        have hle := length_joinPairs_le s
        rw [joinPairs, if_pos hcd] at hlen
        simp only [List.length_cons] at hlen
        omega
      · intro h
        exact absurd hcd (List.isChain_cons_cons.mp h).1
  | case4 c d s hcd ih =>
      rw [joinPairs, if_neg hcd, List.cons.injEq, ih]
      exact ⟨fun h => List.isChain_cons_cons.mpr ⟨hcd, h.2⟩,
        fun h => ⟨rfl, (List.isChain_cons_cons.mp h).2⟩⟩

theorem not_isLow_head_joinPairs {d : CodePoint} (h : ¬ isLow d) (s : Str) :
    ∀ e ∈ (joinPairs (d :: s)).head?, ¬ isLow e := by
  intro e he
  cases s with
  | nil =>
      cases he
      exact h
  | cons c s =>
      rw [joinPairs] at he
      split_ifs at he with hdc
      · have hd := hdc.1
        have hc := hdc.2
        rw [List.head?_cons, Option.mem_some_iff] at he
        subst he
        simp only [isHigh, isLow, Fin.val_ofNat] at hd hc ⊢
        omega
      · cases he
        exact h

theorem unpaired_joinPairs (s : Str) : Unpaired (joinPairs s) := by
  induction s using joinPairs.induct with
  | case1 => exact List.IsChain.nil
  | case2 c => exact List.IsChain.singleton c
  | case3 c d s hcd ih =>
      rw [joinPairs, if_pos hcd]
      refine List.isChain_cons.mpr ⟨?_, ih⟩
      rintro e - ⟨hhigh, -⟩
      have hc := hcd.1
      have hd := hcd.2
      simp only [isHigh, isLow, Fin.val_ofNat] at hc hd hhigh
      omega
  | case4 c d s hcd ih =>
      rw [joinPairs, if_neg hcd]
      refine List.isChain_cons.mpr ⟨?_, ih⟩
      rintro e he ⟨hhigh, hlow⟩
      exact not_isLow_head_joinPairs (fun hd => hcd ⟨hhigh, hd⟩) s e he hlow

theorem val_ofChar (c : Char) : (ofChar c).val = c.toNat := by
  have hvalid := c.valid
  have hlt : c.toNat < 0x110000 := by
    rcases hvalid with h | h
    · exact Nat.lt_of_lt_of_le h (by decide)
    · exact h.2
  rw [ofChar, Fin.val_ofNat, Nat.mod_eq_of_lt hlt]

theorem joinPairs_ofText (cs : List Char) : joinPairs (ofText cs) = ofText cs := by
  rw [joinPairs_eq_self_iff, Unpaired]
  -- characters are never surrogates
  have hhigh : ∀ c : Char, ¬ isHigh (ofChar c) := by
    intro c hc
    rw [isHigh, val_ofChar] at hc
    rcases c.valid with h | h
    · have : c.toNat < 0xD800 := h
      omega
    · have : 0xDFFF < c.toNat := h.1
      omega
  induction cs with
  | nil => exact List.IsChain.nil
  | cons c cs ih => exact List.isChain_cons.mpr ⟨fun d _ h => hhigh c h.1, ih⟩

end Strings

section Numbers

/-- A number literal in its parts: sign, whole part, the digits after the point
and what follows the exponent sign. -/
structure NumberToken where
  neg : Bool
  whole : List Char
  frac : List Char
  exponent : List Char
  deriving DecidableEq

namespace NumberToken

def text (t : NumberToken) : List Char :=
  (if t.neg then ['-'] else []) ++ t.whole ++ (if t.frac = [] then [] else '.' :: t.frac) ++
    (if t.exponent = [] then [] else 'e' :: t.exponent)

def isInt (t : NumberToken) : Prop := t.frac = [] ∧ t.exponent = []

instance (t : NumberToken) : Decidable t.isInt := inferInstanceAs (Decidable (_ ∧ _))

def Digits (ds : List Char) : Prop := ∀ c ∈ ds, c.isDigit = true

def exponentSign : List Char → List Char × List Char
  | '+' :: cs => (['+'], cs)
  | '-' :: cs => (['-'], cs)
  | cs => ([], cs)

/-- The literals of JSON: no leading zero, and digits wherever there is a point
or an exponent. -/
def WellFormed (t : NumberToken) : Prop :=
  t.whole ≠ [] ∧ Digits t.whole ∧ (t.whole.head? = some '0' → t.whole = ['0']) ∧
    Digits t.frac ∧
    (t.exponent ≠ [] → (exponentSign t.exponent).2 ≠ [] ∧ Digits (exponentSign t.exponent).2)

end NumberToken

open NumberToken

def scanWhole : List Char → Option (List Char × List Char)
  | '0' :: cs => some (['0'], cs)
  | cs =>
      if cs.takeWhile Char.isDigit = [] then none
      else some (cs.takeWhile Char.isDigit, cs.dropWhile Char.isDigit)

def scanFrac : List Char → List Char × List Char
  | '.' :: cs =>
      if cs.takeWhile Char.isDigit = [] then ([], '.' :: cs)
      else (cs.takeWhile Char.isDigit, cs.dropWhile Char.isDigit)
  | cs => ([], cs)

def scanExponent : List Char → List Char × List Char
  | [] => ([], [])
  | c :: cs =>
      if c = 'e' ∨ c = 'E' then
        let (sign, body) := exponentSign cs
        if body.takeWhile Char.isDigit = [] then ([], c :: cs)
        else (sign ++ body.takeWhile Char.isDigit, body.dropWhile Char.isDigit)
      else ([], c :: cs)

def scanSign : List Char → Bool × List Char
  | '-' :: cs => (true, cs)
  | cs => (false, cs)

def scanNumber (cs : List Char) : Option (NumberToken × List Char) :=
  let (neg, body) := scanSign cs
  match scanWhole body with
  | none => none
  | some (whole, rest) =>
      let (frac, rest) := scanFrac rest
      let (exponent, rest) := scanExponent rest
      some (⟨neg, whole, frac, exponent⟩, rest)

/-- What can stand after a value: the end of the text, or what separates or
closes the members of an object. -/
def Follows (rest : List Char) : Prop := ∀ c ∈ rest.head?, c = ',' ∨ c = '}'

theorem takeWhile_digits {ds rest : List Char} (hds : Digits ds)
    (hrest : ∀ c ∈ rest.head?, c.isDigit = false) :
    (ds ++ rest).takeWhile Char.isDigit = ds ∧ (ds ++ rest).dropWhile Char.isDigit = rest := by
  have hhead : rest.takeWhile Char.isDigit = [] ∧ rest.dropWhile Char.isDigit = rest := by
    cases rest with
    | nil => exact ⟨rfl, rfl⟩
    | cons c rest =>
        have hc := hrest c rfl
        exact ⟨by simp [List.takeWhile, hc], by simp [List.dropWhile, hc]⟩
  rw [List.takeWhile_append_of_pos hds, List.dropWhile_append_of_pos hds, hhead.1, hhead.2,
    List.append_nil]
  exact ⟨rfl, rfl⟩

theorem scanWhole_append {ds rest : List Char} (hne : ds ≠ []) (hds : Digits ds)
    (hzero : ds.head? = some '0' → ds = ['0']) (hrest : ∀ c ∈ rest.head?, c.isDigit = false) :
    scanWhole (ds ++ rest) = some (ds, rest) := by
  obtain ⟨htake, hdrop⟩ := takeWhile_digits hds hrest
  by_cases h : ds = ['0']
  · subst h
    rfl
  · rw [scanWhole, htake, hdrop, if_neg hne]
    intro cs hcs
    cases ds with
    | nil => exact hne rfl
    | cons d ds =>
        cases hcs
        exact h (hzero rfl)

theorem scanFrac_append {frac rest : List Char} (hfrac : Digits frac)
    (hrest : ∀ c ∈ rest.head?, c.isDigit = false ∧ c ≠ '.') :
    scanFrac ((if frac = [] then [] else '.' :: frac) ++ rest) = (frac, rest) := by
  obtain ⟨htake, hdrop⟩ := takeWhile_digits hfrac fun c hc => (hrest c hc).1
  by_cases h : frac = []
  · subst h
    rw [if_pos rfl, List.nil_append, scanFrac]
    rintro cs rfl
    exact (hrest '.' rfl).2 rfl
  · rw [if_neg h, List.cons_append, scanFrac, htake, hdrop, if_neg h]

theorem exponentSign_append {ex : List Char} (h : (exponentSign ex).2 ≠ [])
    (rest : List Char) :
    exponentSign (ex ++ rest) = ((exponentSign ex).1, (exponentSign ex).2 ++ rest) ∧
      (exponentSign ex).1 ++ (exponentSign ex).2 = ex := by
  cases ex with
  | nil => exact absurd rfl h
  | cons c ex =>
      rw [List.cons_append]
      by_cases hp : c = '+'
      · subst hp
        exact ⟨rfl, rfl⟩
      · by_cases hm : c = '-'
        · subst hm
          exact ⟨rfl, rfl⟩
        · simp [exponentSign, hp, hm]

theorem scanExponent_append {ex rest : List Char}
    (hex : ex ≠ [] → (exponentSign ex).2 ≠ [] ∧ Digits (exponentSign ex).2)
    (hrest : Follows rest) :
    scanExponent ((if ex = [] then [] else 'e' :: ex) ++ rest) = (ex, rest) := by
  have hdigit : ∀ c ∈ rest.head?, c.isDigit = false := by
    intro c hc
    rcases hrest c hc with rfl | rfl
    · decide
    · decide
  by_cases h : ex = []
  · subst h
    rw [if_pos rfl, List.nil_append]
    cases rest with
    | nil => rfl
    | cons c rest =>
        have hc : ¬ (c = 'e' ∨ c = 'E') := by
          rcases hrest c rfl with rfl | rfl
          · decide
          · decide
        rw [scanExponent, if_neg hc]
  · obtain ⟨hne, hdigits⟩ := hex h
    obtain ⟨happ, hback⟩ := exponentSign_append hne rest
    obtain ⟨htake, hdrop⟩ := takeWhile_digits hdigits hdigit
    rw [if_neg h, List.cons_append, scanExponent, if_pos (Or.inl rfl), happ]
    simp only [htake, hdrop, if_neg hne, hback]

theorem scanSign_append {neg : Bool} {whole : List Char} (hne : whole ≠ [])
    (hwhole : Digits whole) (rest : List Char) :
    scanSign ((if neg then ['-'] else []) ++ (whole ++ rest)) = (neg, whole ++ rest) := by
  cases neg with
  | true => rfl
  | false =>
      cases whole with
      | nil => exact absurd rfl hne
      | cons c whole =>
          have hc := hwhole c List.mem_cons_self
          have hminus : c ≠ '-' := by
            rintro rfl
            exact absurd hc (by decide)
          simp [scanSign, hminus]

/-- A literal is scanned up to what follows it. -/
theorem scanNumber_text {t : NumberToken} (ht : t.WellFormed) {rest : List Char}
    (hrest : Follows rest) : scanNumber (t.text ++ rest) = some (t, rest) := by
  obtain ⟨hne, hwhole, hzero, hfrac, hexp⟩ := ht
  have hexpHead : ∀ c ∈ ((if t.exponent = [] then [] else 'e' :: t.exponent) ++ rest).head?,
      c.isDigit = false ∧ c ≠ '.' := by
    intro c hc
    split_ifs at hc
    · rcases hrest c hc with rfl | rfl
      · decide
      · decide
    · cases hc
      decide
  have hfracHead : ∀ c ∈ ((if t.frac = [] then [] else '.' :: t.frac) ++
      ((if t.exponent = [] then [] else 'e' :: t.exponent) ++ rest)).head?,
      c.isDigit = false := by
    intro c hc
    split at hc
    · exact (hexpHead c hc).1
    · cases hc
      decide
  rw [NumberToken.text, List.append_assoc, List.append_assoc, List.append_assoc, scanNumber,
    scanSign_append hne hwhole]
  simp only [scanWhole_append hne hwhole hzero hfracHead, scanFrac_append hfrac hexpHead,
    scanExponent_append hexp hrest]

end Numbers

end SqlOptima.JsonText
