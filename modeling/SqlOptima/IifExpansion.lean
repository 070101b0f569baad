import SqlOptima.ArgumentSplitting

namespace SqlOptima.IifExpansion

open PythonText
open ArgumentSplitting (splitTopLevel parenScanner commaJoin gather)
open SeparatorScan (Scanner)

/-!
# Calls of IIF as CASE
-/

/-! ## The loop -/

/-- `\bIIF\s*\(`; how many characters it takes. -/
def callStart (before : Option Char) (s : Text) : Option Nat :=
  if before.any isWord then none
  else ((keyword "IIF".toList s).bind fun rest => symbol '(' (lstrip rest)).map
    fun rest => s.length - rest.length

/-- How far the scan goes until the open parentheses are closed, or to the end. -/
def scanFrom : Nat → Text → Nat
  | 0, _ => 0
  | _ + 1, [] => 0
  | depth + 1, c :: rest =>
      1 + scanFrom (if c = '(' then depth + 2 else if c = ')' then depth else depth + 1) rest

def caseText (cond yes no : Text) : Text :=
  "CASE WHEN ".toList ++ (cond ++ (" THEN ".toList ++ (yes ++ (" ELSE ".toList ++
    (no ++ " END".toList)))))

/-- A call with three arguments is a CASE; any other one is kept and closed. -/
def rewriteCall (opening inner : Text) : Text :=
  match splitTopLevel inner with
  | [cond, yes, no] => caseText (strip cond) (strip yes) (strip no)
  | _ => opening ++ (inner ++ [')'])

def iifMatcher : Matcher := fun before s =>
  (callStart before s).map fun n =>
    (rewriteCall (s.take n) ((s.drop n).take (scanFrom 1 (s.drop n) - 1)),
      n + scanFrom 1 (s.drop n))

def convertIifSinglePass (sql : Text) : Text := substitute iifMatcher sql

/-- The passes until one changes nothing, if that comes soon enough. -/
def convertIif : Nat → Text → Option Text
  | 0, _ => none
  | fuel + 1, sql =>
      if convertIifSinglePass sql = sql then some sql
      else convertIif fuel (convertIifSinglePass sql)

/-! ## The loop ends -/

variable {s t u v rest : Text} {before : Option Char} {c : Char} {n : Nat}

/-- How often an `I` stands in the text: in every call twice, and never in what is written. -/
def iCount (s : Text) : Nat := (upper s).count 'I'

attribute [local simp] convertIif scanFrom in
theorem iCount_append (s t : Text) : iCount (s ++ t) = iCount s + iCount t := by
  rw [iCount, upper_append, List.count_append, iCount, iCount]

theorem iCount_strip_le (s : Text) : iCount (strip s) ≤ iCount s := by
  obtain ⟨w, w', -, -, hs⟩ := exists_blanks s
  have hall := congrArg iCount hs
  rw [iCount_append, iCount_append] at hall
  omega

theorem iCount_between {a b d e : Text} (ha : iCount a = 0) (hb : iCount b = 0)
    (hd : iCount d = 0) (he : iCount e = 0) (cond yes no : Text) :
    iCount (a ++ (cond ++ (b ++ (yes ++ (d ++ (no ++ e)))))) =
      iCount cond + iCount yes + iCount no := by
  simp only [iCount_append, ha, hb, hd, he, Nat.zero_add, Nat.add_zero, Nat.add_assoc]

theorem iCount_caseText (cond yes no : Text) :
    iCount (caseText cond yes no) = iCount cond + iCount yes + iCount no :=
  iCount_between (by decide) (by decide) (by decide) (by decide) cond yes no

def iTotal : List Text → Nat
  | [] => 0
  | p :: ps => iCount p + iTotal ps

attribute [local simp] iTotal in
theorem iTotal_gather_le (ps : List Text) : iTotal (gather id ps) ≤ iCount (commaJoin ps) := by
  induction ps with
  | nil => exact Nat.zero_le _
  | cons p ps ih =>
      cases ps with
      | nil =>
          rw [gather, ArgumentSplitting.commaJoin_singleton]
          split
          · exact Nat.zero_le _
          · exact Nat.le_refl _
      | cons q ps =>
          have hcomma : iCount (',' :: commaJoin (q :: ps)) = iCount (commaJoin (q :: ps)) := rfl
          rw [gather, iTotal, ArgumentSplitting.commaJoin_cons_cons, iCount_append, hcomma, id]
          omega

theorem iTotal_splitTopLevel_le (s : Text) : iTotal (splitTopLevel s) ≤ iCount s := by
  have hjoin : commaJoin (parenScanner.pieces s) = s := @Scanner.join_pieces _ _ parenScanner s
  have hle := iTotal_gather_le (parenScanner.pieces s)
  rwa [hjoin] at hle

theorem scanFrom_le (depth : Nat) (s : Text) : scanFrom depth s ≤ s.length := by
  induction s generalizing depth with
  | nil =>
      cases depth with
      | zero => exact Nat.le_refl _
      | succ depth => exact Nat.le_refl _
  | cons c s ih =>
      cases depth with
      | zero => exact Nat.zero_le _
      | succ depth =>
          have hrest := ih (if c = '(' then depth + 2 else if c = ')' then depth else depth + 1)
          rw [scanFrom, List.length_cons]
          omega

/-- The scan stops after a closing parenthesis or at the end. -/
theorem scanFrom_stops (depth : Nat) (s : Text) :
    scanFrom (depth + 1) s = s.length ∨
      s.take (scanFrom (depth + 1) s) = s.take (scanFrom (depth + 1) s - 1) ++ [')'] := by
  induction s generalizing depth with
  | nil => exact Or.inl rfl
  | cons c s ih =>
      have hlater : ∀ next, scanFrom (depth + 1) (c :: s) = 1 + scanFrom (next + 1) s →
          scanFrom (depth + 1) (c :: s) = (c :: s).length ∨
            (c :: s).take (scanFrom (depth + 1) (c :: s)) =
              (c :: s).take (scanFrom (depth + 1) (c :: s) - 1) ++ [')'] := by
        intro next hnext
        rw [hnext]
        rcases ih next with hend | hclose
        · rw [hend, List.length_cons, Nat.add_comm]
          exact Or.inl rfl
        · refine Or.inr ?_
          cases hscan : scanFrom (next + 1) s with
          | zero =>
              rw [hscan] at hclose
              cases hclose
          | succ k =>
              rw [hscan, Nat.add_sub_cancel] at hclose
              rw [Nat.add_comm 1, Nat.add_sub_cancel, List.take_succ_cons, List.take_succ_cons,
                hclose]
              rfl
      by_cases hopen : c = '('
      · exact hlater (depth + 1) (by rw [scanFrom, if_pos hopen])
      · by_cases hclose : c = ')'
        · cases depth with
          | zero =>
              right
              rw [scanFrom, if_neg hopen, if_pos hclose, scanFrom, hclose]
              rfl
          | succ depth => exact hlater depth (by rw [scanFrom, if_neg hopen, if_pos hclose])
        · exact hlater depth (by rw [scanFrom, if_neg hopen, if_neg hclose])

theorem symbol_some {c : Char} {s rest : Text} (h : symbol c s = some rest) : s = c :: rest := by
  cases s with
  | nil => cases h
  | cons d s =>
      rw [symbol] at h
      split at h
      · next hd => rw [hd, Option.some.inj h]
      · cases h

/-- The beginning of a call: its name, blanks and the parenthesis. -/
theorem callStart_some (h : callStart before s = some n) :
    ∃ name gap rest, s = name ++ (gap ++ '(' :: rest) ∧ upper name = "IIF".toList ∧ Blank gap ∧
      n = name.length + (gap.length + 1) := by
  rw [callStart] at h
  split at h
  · cases h
  · obtain ⟨rest, hrest, rfl⟩ := Option.map_eq_some_iff.mp h
    obtain ⟨after, hkeyword, hsymbol⟩ := Option.bind_eq_some_iff.mp hrest
    rw [keyword] at hkeyword
    split at hkeyword
    · next hupper =>
        obtain rfl := Option.some.inj hkeyword
        have hparen := symbol_some hsymbol
        have hgap : s.drop 3 = (s.drop 3).takeWhile isSpace ++ '(' :: rest := by
          rw [← hparen]
          exact List.takeWhile_append_dropWhile.symm
        have hs : s = s.take 3 ++ ((s.drop 3).takeWhile isSpace ++ '(' :: rest) := by
          rw [← hgap, List.take_append_drop]
        refine ⟨s.take 3, (s.drop 3).takeWhile isSpace, rest, hs, hupper,
          List.all_eq_true.mp List.all_takeWhile, ?_⟩
        have hlength := congrArg List.length hs
        rw [List.length_append, List.length_append, List.length_cons] at hlength
        omega
    · cases hkeyword

theorem callStart_append (hbefore : before.any isWord = false) {name gap : Text}
    (hname : upper name = "IIF".toList) (hgap : Blank gap) (rest : Text) :
    callStart before (name ++ (gap ++ '(' :: rest)) =
      some (name.length + (gap.length + 1)) := by
  have hthree : name.length = 3 := by
    have hlength := congrArg List.length hname
    rwa [upper, List.length_map] at hlength
  have hkeyword : keyword "IIF".toList (name ++ (gap ++ '(' :: rest)) =
      some (gap ++ '(' :: rest) := by
    have hlength : "IIF".toList.length = name.length := hthree.symm
    rw [keyword, hlength, List.take_left, List.drop_left, if_pos hname]
  have hsymbol : symbol '(' (lstrip (gap ++ '(' :: rest)) = some rest := by
    rw [lstrip_of_isSpace hgap]
    rfl
  rw [callStart, hbefore, if_neg Bool.false_ne_true, hkeyword, Option.bind_some, hsymbol,
    Option.map_some, List.length_append, List.length_append, List.length_cons]
  congr 1
  omega

theorem iCount_name {name : Text} (h : upper name = "IIF".toList) : iCount name = 2 := by
  rw [iCount, h]
  rfl

/-- A call that is kept loses nothing where it ends with a parenthesis; else its last character
gives way to one. A call that is rewritten has an `I` less. -/
theorem iifMatcher_some {replacement : Text} (h : iifMatcher before s = some (replacement, n)) :
    0 < n ∧ n ≤ s.length ∧
      (replacement = s.take n ∨ iCount replacement < iCount (s.take n) ∨
        (n = s.length ∧ iCount replacement ≤ iCount (s.take n) ∧
          replacement.getLast? = some ')' ∧ s.getLast? ≠ some ')')) := by
  obtain ⟨m, hm, heq⟩ := Option.map_eq_some_iff.mp h
  obtain ⟨name, gap, rest, rfl, hname, hgap, rfl⟩ := callStart_some hm
  have hopen : name ++ (gap ++ '(' :: rest) = (name ++ (gap ++ ['('])) ++ rest := by
    rw [List.append_assoc, List.append_assoc, List.singleton_append]
  have hlength : name.length + (gap.length + 1) = (name ++ (gap ++ ['('])).length := by
    rw [List.length_append, List.length_append, List.length_singleton]
  generalize hopening : name ++ (gap ++ ['(']) = opening at hopen hlength
  rw [hopen, hlength, List.take_left, List.drop_left] at heq
  obtain ⟨rfl, rfl⟩ := Prod.mk.inj heq
  have hle := scanFrom_le 1 rest
  have hcount : iCount opening = iCount name + iCount gap := by
    have hparen : iCount ['('] = 0 := by decide
    rw [← hopening, iCount_append, iCount_append, hparen, Nat.add_zero]
  have htake : (opening ++ rest).take (opening.length + scanFrom 1 rest) =
      opening ++ rest.take (scanFrom 1 rest) := List.take_length_add_append _
  have hinner : iCount (rest.take (scanFrom 1 rest - 1)) ≤
      iCount (rest.take (scanFrom 1 rest)) := by
    have hprefix := List.take_prefix_take_left (l := rest) (Nat.sub_le (scanFrom 1 rest) 1)
    obtain ⟨tail, htail⟩ := hprefix
    rw [← htail, iCount_append]
    exact Nat.le_add_right _ _
  rw [hopen, htake, List.length_append]
  refine ⟨by omega, by omega, ?_⟩
  rw [rewriteCall]
  split
  · next cond yes no hparts =>
      right; left
      have hsplit := iTotal_splitTopLevel_le (rest.take (scanFrom 1 rest - 1))
      rw [hparts, iTotal, iTotal, iTotal, iTotal] at hsplit
      have hcond := iCount_strip_le cond
      have hyes := iCount_strip_le yes
      have hno := iCount_strip_le no
      rw [iCount_caseText, iCount_append, hcount, iCount_name hname]
      omega
  · have hkept : opening ++ (rest.take (scanFrom 1 rest - 1) ++ [')']) =
        opening ++ rest.take (scanFrom 1 rest) ∨ scanFrom 1 rest = rest.length := by
      rcases scanFrom_stops 0 rest with hend | hclose
      · exact Or.inr hend
      · exact Or.inl (by rw [hclose])
    rcases hkept with hkept | hend
    · exact Or.inl hkept
    · have hparen : iCount [')'] = 0 := by decide
      rw [hend, List.take_length] at hinner ⊢
      by_cases hlast : (opening ++ rest).getLast? = some ')'
      · left
        rcases List.eq_nil_or_concat' rest with rfl | ⟨init, d, rfl⟩
        · rw [← hopening, List.append_nil, List.getLast?_append, List.getLast?_append,
            List.getLast?_singleton, Option.some_or, Option.some_or] at hlast
          exact absurd hlast (by decide)
        · rw [List.getLast?_append, List.getLast?_concat, Option.some_or] at hlast
          rw [Option.some.inj hlast, List.length_append, List.length_singleton,
            Nat.add_sub_cancel, List.take_left]
      · refine Or.inr (Or.inr ⟨rfl, ?_, ?_, hlast⟩)
        · rw [iCount_append, iCount_append, iCount_append, hparen]
          omega
        · rw [List.getLast?_append, List.getLast?_concat, Option.some_or]

theorem substituteFrom_all (m : Matcher) (before : Option Char) (s : Text) :
    substituteFrom m s.length before s = [] := by
  have hskip := substituteFrom_skip m before s []
  rwa [List.append_nil] at hskip

/-- A pass changes nothing, or leaves fewer `I`, or closes the last call. -/
theorem substituteFrom_cases (skip : Nat) (before : Option Char) (s : Text)
    (hskip : skip ≤ s.length) :
    substituteFrom iifMatcher skip before s = s.drop skip ∨
      iCount (substituteFrom iifMatcher skip before s) < iCount (s.drop skip) ∨
      (iCount (substituteFrom iifMatcher skip before s) ≤ iCount (s.drop skip) ∧
        (substituteFrom iifMatcher skip before s).getLast? = some ')' ∧
        (s.drop skip).getLast? ≠ some ')') := by
  induction s generalizing skip before with
  | nil =>
      obtain rfl := Nat.le_zero.mp hskip
      exact Or.inl rfl
  | cons c s ih =>
      cases skip with
      | succ skip => exact ih skip (some c) (Nat.le_of_succ_le_succ hskip)
      | zero =>
          -- a part of the text and what is made of it, before what the rest of the pass makes
          have hpart : ∀ (part replacement : Text) (k : Nat), k ≤ s.length →
              c :: s = part ++ s.drop k →
              replacement = part ∨ iCount replacement < iCount part →
              replacement ++ substituteFrom iifMatcher k (some c) s = c :: s ∨
                iCount (replacement ++ substituteFrom iifMatcher k (some c) s) <
                  iCount (c :: s) ∨
                (iCount (replacement ++ substituteFrom iifMatcher k (some c) s) ≤
                    iCount (c :: s) ∧
                  (replacement ++ substituteFrom iifMatcher k (some c) s).getLast? = some ')' ∧
                  (c :: s).getLast? ≠ some ')') := by
            intro part replacement k hk hsplit hreplacement
            have hcount := iCount_append replacement (substituteFrom iifMatcher k (some c) s)
            have hwhole := congrArg iCount hsplit
            rw [iCount_append] at hwhole
            rcases ih k (some c) hk with hsame | hless | ⟨hle, hlast, hopen⟩
            · rcases hreplacement with rfl | hlt
              · exact Or.inl (by rw [hsame, ← hsplit])
              · rw [hsame] at hcount ⊢
                exact Or.inr (Or.inl (by omega))
            · rcases hreplacement with rfl | hlt
              · exact Or.inr (Or.inl (by omega))
              · exact Or.inr (Or.inl (by omega))
            · rcases hreplacement with rfl | hlt
              · refine Or.inr (Or.inr ⟨by omega, ?_, ?_⟩)
                · rw [List.getLast?_append, hlast, Option.some_or]
                · intro hclosed
                  cases hrest : s.drop k with
                  | nil =>
                      have hall : s.length = k :=
                        Nat.le_antisymm (List.drop_eq_nil_iff.mp hrest) hk
                      rw [← hall, substituteFrom_all] at hlast
                      cases hlast
                  | cons d t =>
                      rw [hrest] at hopen hsplit
                      rw [hsplit, List.getLast?_append,
                        List.getLast?_eq_some_getLast (List.cons_ne_nil d t), Option.some_or,
                        ← List.getLast?_eq_some_getLast] at hclosed
                      exact hopen hclosed
              · exact Or.inr (Or.inl (by omega))
          rw [substituteFrom, List.drop_zero]
          cases hm : iifMatcher before (c :: s) with
          | none => exact hpart [c] [c] 0 (Nat.zero_le _) rfl (Or.inl rfl)
          | some found =>
              obtain ⟨replacement, n⟩ := found
              obtain ⟨hpos, hle, hcases⟩ := iifMatcher_some hm
              obtain ⟨n, rfl⟩ : ∃ k, n = k + 1 := ⟨n - 1, by omega⟩
              have hn : n ≤ s.length := Nat.le_of_succ_le_succ hle
              have hsplit : c :: s = (c :: s).take (n + 1) ++ s.drop n :=
                (List.take_append_drop (n + 1) (c :: s)).symm
              rcases hcases with hsame | hless | ⟨hend, hle, hlast, hopen⟩
              · exact hpart _ _ n hn hsplit (Or.inl hsame)
              · exact hpart _ _ n hn hsplit (Or.inr hless)
              · have hall : s.length = n := by
                  rw [List.length_cons] at hend
                  omega
                have hnone : substituteFrom iifMatcher n (some c) s = [] :=
                  hall ▸ substituteFrom_all iifMatcher (some c) s
                rw [hend, List.take_length] at hle
                refine Or.inr (Or.inr ?_)
                simp only [Nat.add_sub_cancel, hnone, List.append_nil]
                exact ⟨hle, hlast, hopen⟩

/-- The `I`s of the text, and whether its last call may still be open. -/
def measure (s : Text) : Nat := 2 * iCount s + if s.getLast? = some ')' then 0 else 1

theorem measure_pass_lt (h : convertIifSinglePass s ≠ s) :
    measure (convertIifSinglePass s) < measure s := by
  have hcases := substituteFrom_cases 0 none s (Nat.zero_le _)
  rw [List.drop_zero] at hcases
  rcases hcases with hsame | hless | ⟨hle, hlast, hopen⟩
  · exact absurd hsame h
  · have hless' : iCount (convertIifSinglePass s) < iCount s := hless
    rw [measure, measure]
    split
    · split
      · omega
      · omega
    · split
      · omega
      · omega
  · have hle' : iCount (convertIifSinglePass s) ≤ iCount s := hle
    have hlast' : (convertIifSinglePass s).getLast? = some ')' := hlast
    rw [measure, measure, if_pos hlast', if_neg hopen]
    omega

/-- The loop ends on every text, at a text that a pass leaves as it is. -/
theorem convertIif_terminates (s : Text) : ∃ r, convertIifSinglePass r = r ∧
    ∀ fuel, measure s < fuel → convertIif fuel s = some r := by
  induction hm : measure s using Nat.strongRecOn generalizing s with
  | ind m ih =>
      by_cases hsame : convertIifSinglePass s = s
      · refine ⟨s, hsame, fun fuel hfuel => ?_⟩
        obtain ⟨fuel, rfl⟩ : ∃ k, fuel = k + 1 := ⟨fuel - 1, by omega⟩
        rw [convertIif, if_pos hsame]
      · have hlt := measure_pass_lt hsame
        rw [hm] at hlt
        obtain ⟨r, hr, hrun⟩ := ih _ hlt (convertIifSinglePass s) rfl
        refine ⟨r, hr, fun fuel hfuel => ?_⟩
        obtain ⟨fuel, rfl⟩ : ∃ k, fuel = k + 1 := ⟨fuel - 1, by omega⟩
        rw [convertIif, if_neg hsame]
        exact hrun fuel (by omega)

/-! ## Expressions -/

/-- How a call is spelled: its name, the blanks after it and around the arguments. -/
structure Call where
  name : Text
  gap : Text
  condPad : Text × Text
  yesPad : Text × Text
  noPad : Text × Text

/-- A text with calls in it: words, other characters, literals (what stands between the quotes) and
what stands in parentheses. -/
inductive Expr
  | nil
  | word (w : Text) (rest : Expr)
  | mark (c : Char) (rest : Expr)
  | literal (content : Text) (rest : Expr)
  | group (inner rest : Expr)
  | iif (call : Call) (cond yes no rest : Expr)
  | case (cond yes no rest : Expr)

def pad (w : Text × Text) (t : Text) : Text := w.1 ++ (t ++ w.2)

/-- The arguments of a call as they are written. -/
def Call.args (call : Call) (cond yes no : Text) : Text :=
  pad call.condPad cond ++ ',' :: (pad call.yesPad yes ++ ',' :: pad call.noPad no)

namespace Expr

def text : Expr → Text
  | nil => []
  | word w rest => w ++ rest.text
  | mark c rest => c :: rest.text
  | literal content rest => '\'' :: (content ++ '\'' :: rest.text)
  | group inner rest => '(' :: (inner.text ++ ')' :: rest.text)
  | iif call cond yes no rest =>
      call.name ++ (call.gap ++ '(' :: (call.args cond.text yes.text no.text ++ ')' :: rest.text))
  | case cond yes no rest => caseText cond.text yes.text no.text ++ rest.text

/-- Every call as a CASE. -/
def expand : Expr → Expr
  | nil => nil
  | word w rest => word w rest.expand
  | mark c rest => mark c rest.expand
  | literal content rest => literal content rest.expand
  | group inner rest => group inner.expand rest.expand
  | iif _ cond yes no rest => case cond.expand yes.expand no.expand rest.expand
  | case cond yes no rest => case cond.expand yes.expand no.expand rest.expand

/-- The calls that are in no other call as a CASE. -/
def step : Expr → Expr
  | nil => nil
  | word w rest => word w rest.step
  | mark c rest => mark c rest.step
  | literal content rest => literal content rest.step
  | group inner rest => group inner.step rest.step
  | iif _ cond yes no rest => case cond yes no rest.step
  | case cond yes no rest => case cond.step yes.step no.step rest.step

def calls : Expr → Nat
  | nil => 0
  | word _ rest => rest.calls
  | mark _ rest => rest.calls
  | literal _ rest => rest.calls
  | group inner rest => inner.calls + rest.calls
  | iif _ cond yes no rest => cond.calls + yes.calls + no.calls + rest.calls + 1
  | case cond yes no rest => cond.calls + yes.calls + no.calls + rest.calls

def startsWord : Expr → Bool
  | word _ _ => true
  | iif _ _ _ _ _ => true
  | case _ _ _ _ => true
  | _ => false

/-- Blanks and a parenthesis. -/
def opensGroup : Expr → Bool
  | mark c rest => isSpace c && rest.opensGroup
  | group _ _ => true
  | _ => false

end Expr

/-- An argument without the blanks around it. -/
def Argument (e : Expr) : Prop := e.text ≠ [] ∧ strip e.text = e.text

structure Call.Formed (call : Call) (cond yes no : Expr) : Prop where
  name : upper call.name = "IIF".toList
  gap : Blank call.gap
  cond : Argument cond ∧ Blank call.condPad.1 ∧ Blank call.condPad.2
  yes : Argument yes ∧ Blank call.yesPad.1 ∧ Blank call.yesPad.2
  no : Argument no ∧ Blank call.noPad.1 ∧ Blank call.noPad.2

/-- The words are whole, and IIF with a parenthesis is a call; `inWord` says that a word ends
before the expression. -/
def Formed : Bool → Expr → Prop
  | _, .nil => True
  | _, .word w rest =>
      (w ≠ [] ∧ ∀ c ∈ w, isWord c = true) ∧ rest.startsWord = false ∧
        ¬(upper w = "IIF".toList ∧ rest.opensGroup = true) ∧ Formed true rest
  | _, .mark c rest => isWord c = false ∧ c ≠ '(' ∧ Formed false rest
  | _, .literal _ rest => Formed false rest
  | _, .group inner rest => Formed false inner ∧ Formed false rest
  | inWord, .iif call cond yes no rest =>
      inWord = false ∧ call.Formed cond yes no ∧ Formed false cond ∧ Formed false yes ∧
        Formed false no ∧ Formed false rest
  | _, .case cond yes no rest =>
      Formed false cond ∧ Formed false yes ∧ Formed false no ∧ Formed true rest

/-- No call begins in the text. -/
def Silent : Option Char → Text → Prop
  | _, [] => True
  | before, c :: rest => callStart before (c :: rest) = none ∧ Silent (some c) rest

/-- The parentheses close so many open ones and no more. -/
def balanced : Nat → Text → Bool
  | depth, [] => depth = 0
  | depth, c :: rest =>
      if c = '(' then balanced (depth + 1) rest
      else if c = ')' then 0 < depth && balanced (depth - 1) rest
      else balanced depth rest

/-- Those in literals counted too, the parentheses are balanced and hold all commas. -/
def Enclosed (arg : Text) : Prop := balanced 0 arg = true ∧ parenScanner.Uncut (0 : Int) arg

/-- What the scans, which know no literals, take for a parenthesis, a comma or a call does no
harm. -/
def Harmless : Expr → Prop
  | .nil => True
  | .word _ rest => Harmless rest
  | .mark _ rest => Harmless rest
  | .literal content rest => Silent (some '\'') content ∧ Harmless rest
  | .group inner rest => Harmless inner ∧ Harmless rest
  | .iif call cond yes no rest =>
      (Enclosed (pad call.condPad cond.text) ∧ Enclosed (pad call.yesPad yes.text) ∧
        Enclosed (pad call.noPad no.text)) ∧
        Harmless cond ∧ Harmless yes ∧ Harmless no ∧ Harmless rest
  | .case cond yes no rest => Harmless cond ∧ Harmless yes ∧ Harmless no ∧ Harmless rest

/-! ## A pass over an expression -/

/-- No word character, and no parenthesis after blanks: what may come after an expression. -/
def Stop (t : Text) : Prop :=
  (∀ c ∈ t.head?, isWord c = false) ∧ (lstrip t).head? ≠ some '('

attribute [local simp] Expr.calls Expr.expand Expr.opensGroup Expr.step Expr.text in
theorem callStart_of_before (h : before.any isWord = true) (s : Text) : callStart before s = none :=
  by rw [callStart, if_pos h]

theorem callStart_of_mark (hc : isWord c = false) (before : Option Char) (s : Text) :
    callStart before (c :: s) = none := by
  have hkeyword : keyword "IIF".toList (c :: s) = none := by
    rw [keyword, if_neg]
    intro hupper
    have hfirst : c.toUpper = 'I' := (List.cons.inj hupper).1
    have hword := isWord_toUpper hc
    rw [hfirst] at hword
    cases hword
  rw [callStart, hkeyword]
  split
  · rfl
  · rfl

theorem word_of_name {name : Text} (h : upper name = "IIF".toList) :
    ∀ c ∈ name, isWord c = true := by
  intro c hc
  cases hword : isWord c with
  | true => rfl
  | false =>
      have hall : "IIF".toList.all isWord = true := by decide
      have hupper := List.all_eq_true.mp hall c.toUpper (h ▸ List.mem_map_of_mem hc)
      rw [isWord_toUpper hword] at hupper
      cases hupper

theorem not_stop_open {gap : Text} (hgap : Blank gap) (rest : Text) :
    ¬Stop (gap ++ '(' :: rest) := by
  rintro ⟨-, hopen⟩
  rw [lstrip_of_isSpace hgap] at hopen
  exact hopen rfl

/-- A text that is no beginning of a call is none before a stop either. -/
theorem callStart_append_stop (hs : s ≠ []) (ht : Stop t) (h : callStart before s = none) :
    callStart before (s ++ t) = none := by
  cases hcall : callStart before (s ++ t) with
  | none => rfl
  | some n =>
      have hbefore : before.any isWord = false := by
        apply Bool.eq_false_iff.mpr
        intro hword
        rw [callStart_of_before hword] at hcall
        cases hcall
      obtain ⟨name, gap, rest, heq, hname, hgap, -⟩ := callStart_some hcall
      rcases List.append_eq_append_iff.mp heq with ⟨u, hu, hrest⟩ | ⟨u, rfl, hrest⟩
      · cases u with
        | nil =>
            rw [List.nil_append] at hrest
            exact absurd (hrest ▸ ht) (not_stop_open hgap rest)
        | cons d u =>
            have hd := word_of_name hname d (hu ▸ List.mem_append_right s List.mem_cons_self)
            rw [ht.1 d (hrest ▸ rfl)] at hd
            cases hd
      · rcases List.append_eq_append_iff.mp hrest with ⟨v, rfl, htail⟩ | ⟨v, rfl, htail⟩
        · cases v with
          | nil =>
              rw [List.nil_append] at htail
              exact absurd (htail ▸ ht) (@not_stop_open [] nofun rest)
          | cons d v =>
              obtain ⟨rfl, -⟩ := List.cons.inj htail
              rw [callStart_append hbefore hname hgap v] at h
              cases h
        · have hv : Blank v := fun c hc => hgap c (List.mem_append_right u hc)
          exact absurd (htail ▸ ht) (not_stop_open hv rest)

theorem substituteFrom_none (h : callStart before (c :: s) = none) :
    substituteFrom iifMatcher 0 before (c :: s) =
      c :: substituteFrom iifMatcher 0 (some c) s := by
  rw [substituteFrom, iifMatcher, h]
  rfl

/-- A stop does not see what stands before it. -/
theorem substituteFrom_stop (ht : Stop t) (before : Option Char) :
    substituteFrom iifMatcher 0 before t = substituteFrom iifMatcher 0 none t := by
  cases t with
  | nil => rfl
  | cons c t =>
      have hc := ht.1 c rfl
      rw [substituteFrom_none (callStart_of_mark hc before t),
        substituteFrom_none (callStart_of_mark hc none t)]

theorem substituteFrom_silent (h : Silent before s) (ht : Stop t) :
    substituteFrom iifMatcher 0 before (s ++ t) = s ++ substituteFrom iifMatcher 0 none t := by
  induction s generalizing before with
  | nil => exact substituteFrom_stop ht before
  | cons c s ih =>
      rw [List.cons_append, substituteFrom_none, ih h.2, List.cons_append]
      exact callStart_append_stop (List.cons_ne_nil c s) ht h.1

theorem head_lstrip_cons (hspace : isSpace c = false) (hopen : c ≠ '(') (t : Text) :
    (lstrip (c :: t)).head? ≠ some '(' := by
  rw [lstrip, List.dropWhile_cons_of_neg (Bool.eq_false_iff.mp hspace), List.head?_cons]
  exact fun heq => hopen (Option.some.inj heq)

theorem head_lstrip_word (hc : isWord c = true) (t : Text) :
    (lstrip (c :: t)).head? ≠ some '(' := by
  apply head_lstrip_cons
  · apply Bool.eq_false_iff.mpr
    intro hspace
    rw [isWord_of_isSpace hspace] at hc
    cases hc
  · rintro rfl
    cases hc

theorem stop_mark (hc : isWord c = false) (hspace : isSpace c = false) (hopen : c ≠ '(')
    (t : Text) : Stop (c :: t) :=
  ⟨fun _ hd => Option.some.inj hd ▸ hc, head_lstrip_cons hspace hopen t⟩

namespace Expr

variable {e : Expr} {inWord : Bool}

theorem head_lstrip_text (he : Formed inWord e) (hgroup : e.opensGroup = false) (ht : Stop t) :
    (lstrip (e.text ++ t)).head? ≠ some '(' := by
  induction e generalizing inWord with
  | nil => exact ht.2
  | word w rest _ =>
      obtain ⟨⟨hne, hw⟩, -⟩ := he
      obtain ⟨c, w, rfl⟩ := List.exists_cons_of_ne_nil hne
      exact head_lstrip_word (hw c List.mem_cons_self) _
  | mark c rest ih =>
      obtain ⟨-, hopen, hrest⟩ := he
      cases hspace : isSpace c with
      | false => exact head_lstrip_cons hspace hopen _
      | true =>
          rw [opensGroup, hspace, Bool.true_and] at hgroup
          rw [text, List.cons_append, lstrip, List.dropWhile_cons_of_pos hspace]
          exact ih hrest hgroup
  | literal content rest _ => exact head_lstrip_cons (by decide) (by decide) _
  | group inner rest _ _ => cases hgroup
  | iif call cond yes no rest _ _ _ _ =>
      have hname := he.2.1.name
      have hword := word_of_name hname
      cases hcall : call.name with
      | nil =>
          rw [hcall] at hname
          cases hname
      | cons c name =>
          rw [text, hcall]
          exact head_lstrip_word (hword c (hcall ▸ List.mem_cons_self)) _
  | case cond yes no rest _ _ _ _ => exact head_lstrip_word (by decide) _

/-- What comes after a word, when it is no word itself. -/
theorem head_text (he : Formed inWord e) (hword : e.startsWord = false) (ht : Stop t) :
    ∀ c ∈ (e.text ++ t).head?, isWord c = false := by
  cases e with
  | nil => exact ht.1
  | word w rest => cases hword
  | mark c rest => exact fun _ hd => Option.some.inj hd ▸ he.1
  | literal content rest => exact fun _ hd => Option.some.inj hd ▸ rfl
  | group inner rest => exact fun _ hd => Option.some.inj hd ▸ rfl
  | iif call cond yes no rest => cases hword
  | case cond yes no rest => cases hword

end Expr

theorem substituteFrom_inWord {d : Char} {w : Text} (hd : isWord d = true)
    (hw : ∀ c ∈ w, isWord c = true) (t : Text) :
    ∃ d', isWord d' = true ∧ substituteFrom iifMatcher 0 (some d) (w ++ t) =
      w ++ substituteFrom iifMatcher 0 (some d') t := by
  induction w generalizing d with
  | nil => exact ⟨d, hd, rfl⟩
  | cons c w ih =>
      obtain ⟨hc, hw⟩ := List.forall_mem_cons.mp hw
      obtain ⟨d', hd', heq⟩ := ih hc hw
      refine ⟨d', hd', ?_⟩
      have hcall := @callStart_of_before (some d) hd (c :: (w ++ t))
      rw [List.cons_append, substituteFrom_none hcall, heq, List.cons_append]

/-- A word that is not IIF before a parenthesis is no call. -/
theorem substituteFrom_word {w : Text} (hne : w ≠ []) (hw : ∀ c ∈ w, isWord c = true)
    (hhead : ∀ c ∈ t.head?, isWord c = false)
    (hopen : upper w = "IIF".toList → (lstrip t).head? ≠ some '(') (before : Option Char) :
    ∃ d, isWord d = true ∧ substituteFrom iifMatcher 0 before (w ++ t) =
      w ++ substituteFrom iifMatcher 0 (some d) t := by
  have hcall : callStart before (w ++ t) = none := by
    cases hcall : callStart before (w ++ t) with
    | none => rfl
    | some n =>
        obtain ⟨name, gap, rest, heq, hname, hgap, -⟩ := callStart_some hcall
        have hstop : ∀ c ∈ (gap ++ '(' :: rest).head?, isWord c = false := by
          cases gap with
          | nil => exact fun c hc => Option.some.inj hc ▸ rfl
          | cons d gap =>
              exact fun c hc => Option.some.inj hc ▸
                isWord_of_isSpace (hgap d List.mem_cons_self)
        have hwhile := congrArg (List.takeWhile isWord) heq
        rw [takeWhile_append_stop hhead, takeWhile_append_stop hstop,
          List.takeWhile_eq_self_iff.mpr hw,
          List.takeWhile_eq_self_iff.mpr (word_of_name hname)] at hwhile
        obtain rfl := hwhile
        have ht := List.append_cancel_left heq
        refine absurd ?_ (hopen hname)
        rw [ht, lstrip_of_isSpace hgap]
        rfl
  obtain ⟨c, w, rfl⟩ := List.exists_cons_of_ne_nil hne
  obtain ⟨hc, hw⟩ := List.forall_mem_cons.mp hw
  obtain ⟨d, hd, heq⟩ := substituteFrom_inWord hc hw t
  refine ⟨d, hd, ?_⟩
  rw [List.cons_append] at hcall
  rw [List.cons_append, substituteFrom_none hcall, heq, List.cons_append]

/-! ## A call whose scan is not misled -/

theorem scanFrom_balanced {depth k : Nat} {p : Text} (h : balanced depth p = true) (t : Text) :
    scanFrom (depth + (k + 1)) (p ++ t) = p.length + scanFrom (k + 1) t := by
  induction p generalizing depth with
  | nil =>
      obtain rfl : depth = 0 := of_decide_eq_true h
      rw [Nat.zero_add, List.nil_append, List.length_nil, Nat.zero_add]
  | cons c p ih =>
      rw [balanced] at h
      rw [List.cons_append, ← Nat.add_assoc, scanFrom, List.length_cons]
      split at h
      · next hopen =>
          rw [if_pos hopen]
          have hrest := ih h
          rw [show depth + k + 2 = depth + 1 + (k + 1) by omega, hrest]
          omega
      · next hopen =>
          rw [if_neg hopen]
          split at h
          · next hclose =>
              rw [if_pos hclose]
              obtain ⟨hdepth, h⟩ := Bool.and_eq_true_iff.mp h
              have hpos := of_decide_eq_true hdepth
              have hrest := ih h
              rw [show depth + k = depth - 1 + (k + 1) by omega, hrest]
              omega
          · next hclose =>
              rw [if_neg hclose]
              have hrest := ih h
              rw [show depth + k + 1 = depth + (k + 1) by omega, hrest]
              omega

theorem after_balanced {depth : Nat} {p : Text} (h : balanced depth p = true) :
    parenScanner.after (depth : Int) p = 0 := by
  induction p generalizing depth with
  | nil =>
      obtain rfl : depth = 0 := of_decide_eq_true h
      rfl
  | cons c p ih =>
      rw [balanced] at h
      rw [Scanner.after]
      split at h
      · next hopen =>
          have hstep : parenScanner.step (depth : Int) c p.head? = ((depth + 1 : Nat) : Int) := by
            change (if c = '(' then (depth : Int) + 1 else _) = _
            rw [if_pos hopen]
            rfl
          rw [hstep]
          exact ih h
      · next hopen =>
          split at h
          · next hclose =>
              obtain ⟨hdepth, h⟩ := Bool.and_eq_true_iff.mp h
              have hpos := of_decide_eq_true hdepth
              have hstep : parenScanner.step (depth : Int) c p.head? =
                  ((depth - 1 : Nat) : Int) := by
                change (if c = '(' then _ else if c = ')' then (depth : Int) - 1 else _) = _
                rw [if_neg hopen, if_pos hclose]
                omega
              rw [hstep]
              exact ih h
          · next hclose =>
              have hstep : parenScanner.step (depth : Int) c p.head? = (depth : Int) := by
                change (if c = '(' then _ else if c = ')' then _ else _) = _
                rw [if_neg hopen, if_neg hclose]
              rw [hstep]
              exact ih h

theorem Enclosed.closed {p : Text} (h : Enclosed p) : parenScanner.Closed p := by
  have hafter : parenScanner.after (0 : Int) p = 0 := after_balanced h.1
  have hstart : parenScanner.after parenScanner.start p = (0 : Int) := hafter
  rw [Scanner.Closed, hstart]
  rfl

theorem strip_pad {w : Text × Text} {e : Expr} (h : Argument e ∧ Blank w.1 ∧ Blank w.2) :
    strip (pad w e.text) = e.text := by
  obtain ⟨⟨-, he⟩, hleft, hright⟩ := h
  rw [pad, strip_blank_append hleft, strip_append_blank hright, he]

theorem pad_ne_nil {e : Expr} (h : Argument e) (w : Text × Text) : pad w e.text ≠ [] := by
  intro hnil
  rw [pad, List.append_eq_nil_iff, List.append_eq_nil_iff] at hnil
  exact h.1 hnil.2.1

theorem scanFrom_comma (t : Text) : scanFrom 1 (',' :: t) = 1 + scanFrom 1 t := by
  rw [scanFrom, if_neg (by decide), if_neg (by decide)]

theorem scanFrom_args {p q r : Text} (hp : Enclosed p) (hq : Enclosed q) (hr : Enclosed r)
    (t : Text) :
    scanFrom 1 (p ++ ',' :: (q ++ ',' :: (r ++ ')' :: t))) =
      (p ++ ',' :: (q ++ ',' :: r)).length + 1 := by
  have hfirst := scanFrom_balanced (k := 0) hp.1 (',' :: (q ++ ',' :: (r ++ ')' :: t)))
  have hsecond := scanFrom_balanced (k := 0) hq.1 (',' :: (r ++ ')' :: t))
  have hthird := scanFrom_balanced (k := 0) hr.1 (')' :: t)
  have hclose : scanFrom 1 (')' :: t) = 1 := by
    rw [scanFrom, if_neg (by decide), if_pos rfl, scanFrom]
  rw [Nat.zero_add, scanFrom_comma] at hfirst hsecond
  rw [Nat.zero_add, hclose] at hthird
  simp only [Nat.zero_add] at hfirst hsecond hthird
  rw [hfirst, hsecond, hthird]
  simp only [List.length_append, List.length_cons]
  omega

/-- A call of three enclosed arguments is taken as a whole. -/
theorem iifMatcher_call {call : Call} {cond yes no : Expr} (hcall : call.Formed cond yes no)
    (hcond : Enclosed (pad call.condPad cond.text)) (hyes : Enclosed (pad call.yesPad yes.text))
    (hno : Enclosed (pad call.noPad no.text)) (hbefore : before.any isWord = false) (t : Text) :
    iifMatcher before (call.name ++ (call.gap ++
        '(' :: (call.args cond.text yes.text no.text ++ ')' :: t))) =
      some (caseText cond.text yes.text no.text,
        call.name.length + (call.gap.length + 1) +
          ((call.args cond.text yes.text no.text).length + 1)) := by
  have hstart := callStart_append hbefore hcall.name hcall.gap
    (call.args cond.text yes.text no.text ++ ')' :: t)
  have hopen : call.name ++ (call.gap ++
      '(' :: (call.args cond.text yes.text no.text ++ ')' :: t)) =
        (call.name ++ (call.gap ++ ['('])) ++
          (call.args cond.text yes.text no.text ++ ')' :: t) := by
    simp only [List.append_assoc, List.singleton_append]
  have hlength : call.name.length + (call.gap.length + 1) =
      (call.name ++ (call.gap ++ ['('])).length := by
    rw [List.length_append, List.length_append, List.length_singleton]
  have hscan : scanFrom 1 (call.args cond.text yes.text no.text ++ ')' :: t) =
      (call.args cond.text yes.text no.text).length + 1 := by
    have hargs := scanFrom_args hcond hyes hno t
    rw [Call.args]
    simp only [List.append_assoc, List.cons_append]
    exact hargs
  have hsplit : splitTopLevel (call.args cond.text yes.text no.text) =
      [pad call.condPad cond.text, pad call.yesPad yes.text, pad call.noPad no.text] := by
    have hjoin : call.args cond.text yes.text no.text =
        commaJoin [pad call.condPad cond.text, pad call.yesPad yes.text,
          pad call.noPad no.text] := by
      rw [ArgumentSplitting.commaJoin_cons_cons, ArgumentSplitting.commaJoin_cons_cons,
        ArgumentSplitting.commaJoin_singleton, Call.args]
    rw [hjoin, ArgumentSplitting.splitTopLevel_iff]
    · constructor
      · simp only [List.forall_mem_cons]
        exact ⟨hcond.2, hyes.2, hno.2, nofun⟩
      · simp only [List.dropLast_cons_cons, List.forall_mem_cons]
        exact ⟨hcond.closed, hyes.closed, nofun⟩
    · simp only [List.forall_mem_cons]
      exact ⟨pad_ne_nil hcall.cond.1 _, pad_ne_nil hcall.yes.1 _, pad_ne_nil hcall.no.1 _, nofun⟩
  rw [iifMatcher, hstart, Option.map_some, hopen, hlength, List.take_left, List.drop_left, hscan,
    Nat.add_sub_cancel, List.take_left, rewriteCall, hsplit]
  simp only [strip_pad hcall.cond, strip_pad hcall.yes, strip_pad hcall.no]

theorem callStart_of_first (hc : c.toUpper ≠ 'I') (before : Option Char) (s : Text) :
    callStart before (c :: s) = none := by
  cases hcall : callStart before (c :: s) with
  | none => rfl
  | some n =>
      obtain ⟨name, gap, rest, heq, hname, -, -⟩ := callStart_some hcall
      cases name with
      | nil => cases hname
      | cons d name =>
          obtain ⟨rfl, -⟩ := List.cons.inj heq
          exact absurd (List.cons.inj hname).1 hc

/-- A text without an `I` is kept. -/
theorem substituteFrom_iCount {w : Text} (hw : iCount w = 0) (before : Option Char) (t : Text) :
    substituteFrom iifMatcher 0 before (w ++ t) =
      w ++ substituteFrom iifMatcher 0 (w.getLast?.or before) t := by
  induction w generalizing before with
  | nil => rfl
  | cons c w ih =>
      have hsplit := iCount_append [c] w
      rw [List.singleton_append, hw] at hsplit
      have hc : c.toUpper ≠ 'I' := by
        intro heq
        have hone : iCount [c] = 1 := by
          rw [iCount, upper, List.map_singleton, heq]
          rfl
        omega
      rw [List.cons_append, substituteFrom_none (callStart_of_first hc before _),
        ih (by omega), List.getLast?_cons]
      cases w.getLast? with
      | none => rfl
      | some d => rfl

theorem stop_blank_word (hc : isWord c = true) (t : Text) : Stop (' ' :: c :: t) := by
  refine ⟨fun _ hd => Option.some.inj hd ▸ rfl, ?_⟩
  rw [lstrip, List.dropWhile_cons_of_pos (by decide)]
  exact head_lstrip_word hc t

/-- The words of a CASE are kept, and what stands between them is read by itself. -/
theorem substituteFrom_between {a b d k cond cond' yes yes' no no' : Text}
    (ha : iCount a = 0 ∧ a.getLast? = some ' ')
    (hb : iCount b = 0 ∧ b.getLast? = some ' ' ∧ ∀ u, Stop (b ++ u))
    (hd : iCount d = 0 ∧ d.getLast? = some ' ' ∧ ∀ u, Stop (d ++ u))
    (hk : iCount k = 0 ∧ k.getLast? = some 'D' ∧ ∀ u, Stop (k ++ u))
    (hcond : ∀ u, Stop u → substituteFrom iifMatcher 0 (some ' ') (cond ++ u) =
      cond' ++ substituteFrom iifMatcher 0 none u)
    (hyes : ∀ u, Stop u → substituteFrom iifMatcher 0 (some ' ') (yes ++ u) =
      yes' ++ substituteFrom iifMatcher 0 none u)
    (hno : ∀ u, Stop u → substituteFrom iifMatcher 0 (some ' ') (no ++ u) =
      no' ++ substituteFrom iifMatcher 0 none u)
    (before : Option Char) (t : Text) :
    substituteFrom iifMatcher 0 before (a ++ (cond ++ (b ++ (yes ++ (d ++ (no ++ k))))) ++ t) =
      a ++ (cond' ++ (b ++ (yes' ++ (d ++ (no' ++ k))))) ++
        substituteFrom iifMatcher 0 (some 'D') t := by
  simp only [List.append_assoc]
  rw [substituteFrom_iCount ha.1, ha.2, Option.some_or, hcond _ (hb.2.2 _),
    substituteFrom_iCount hb.1, hb.2.1, Option.some_or, hyes _ (hd.2.2 _),
    substituteFrom_iCount hd.1, hd.2.1, Option.some_or, hno _ (hk.2.2 _),
    substituteFrom_iCount hk.1, hk.2.1, Option.some_or]

/-- One pass turns into a CASE every call that is in no other one. -/
theorem substituteFrom_text {e : Expr} {inWord : Bool} (he : Formed inWord e) (hh : Harmless e)
    (hbefore : before.any isWord = inWord) (ht : Stop t) :
    substituteFrom iifMatcher 0 before (e.text ++ t) =
      e.step.text ++ substituteFrom iifMatcher 0 none t := by
  induction e generalizing inWord before t with
  | nil => exact substituteFrom_stop ht before
  | word w rest ih =>
      obtain ⟨⟨hne, hw⟩, hword, hiif, hrest⟩ := he
      have hhead := Expr.head_text hrest hword ht
      have hopen : upper w = "IIF".toList → (lstrip (rest.text ++ t)).head? ≠ some '(' :=
        fun hname => Expr.head_lstrip_text hrest
          (Bool.eq_false_iff.mpr fun hgroup => hiif ⟨hname, hgroup⟩) ht
      obtain ⟨d, hd, hpass⟩ := substituteFrom_word hne hw hhead hopen before
      have hafter : (some d).any isWord = true := hd
      rw [Expr.text, List.append_assoc, hpass, ih hrest hh hafter ht, Expr.step, Expr.text,
        List.append_assoc]
  | mark c rest ih =>
      obtain ⟨hc, -, hrest⟩ := he
      have hafter : (some c).any isWord = false := hc
      rw [Expr.text, List.cons_append, substituteFrom_none (callStart_of_mark hc before _),
        ih hrest hh hafter ht, Expr.step, Expr.text, List.cons_append]
  | literal content rest ih =>
      have hquote : Stop ('\'' :: (rest.text ++ t)) :=
        stop_mark (by decide) (by decide) (by decide) _
      have hmark : ∀ b u, callStart b ('\'' :: u) = none := callStart_of_mark (by decide)
      rw [Expr.text, List.cons_append, substituteFrom_none (hmark before _), List.append_assoc,
        List.cons_append, substituteFrom_silent hh.1 hquote, substituteFrom_none (hmark none _),
        ih he hh.2 rfl ht, Expr.step, Expr.text, List.cons_append, List.append_assoc,
        List.cons_append]
  | group inner rest ihInner ihRest =>
      have hclose : Stop (')' :: (rest.text ++ t)) :=
        stop_mark (by decide) (by decide) (by decide) _
      have hmark : ∀ b u, callStart b ('(' :: u) = none := callStart_of_mark (by decide)
      have hmark' : ∀ b u, callStart b (')' :: u) = none := callStart_of_mark (by decide)
      rw [Expr.text, List.cons_append, substituteFrom_none (hmark before _), List.append_assoc,
        List.cons_append, ihInner he.1 hh.1 rfl hclose, substituteFrom_none (hmark' none _),
        ihRest he.2 hh.2 rfl ht, Expr.step, Expr.text, List.cons_append, List.append_assoc,
        List.cons_append]
  | iif call cond yes no rest _ _ _ ihRest =>
      obtain ⟨rfl, hcall, -, -, -, hrest⟩ := he
      obtain ⟨⟨hcond, hyes, hno⟩, -, -, -, hharmless⟩ := hh
      have hmatch := iifMatcher_call hcall hcond hyes hno hbefore (rest.text ++ t)
      generalize hargs : call.args cond.text yes.text no.text = args at hmatch
      generalize hwhole : call.name ++ (call.gap ++ '(' :: (args ++ [')'])) = whole
      have hlength : call.name.length + (call.gap.length + 1) + (args.length + 1) =
          whole.length := by
        rw [← hwhole]
        simp only [List.length_append, List.length_cons, List.length_nil]
        omega
      have hsplit : ∀ u, call.name ++ (call.gap ++ '(' :: (args ++ ')' :: u)) = whole ++ u := by
        intro u
        rw [← hwhole]
        simp only [List.append_assoc, List.cons_append, List.nil_append]
      have hne : whole ≠ [] := by
        intro hnil
        rw [hnil, List.length_nil] at hlength
        omega
      have hlast : (whole.getLast?.or before).any isWord = false := by
        rw [← hwhole]
        simp only [List.getLast?_append, List.getLast?_cons, Option.some_or, Option.getD_some]
        rfl
      rw [hsplit, hlength] at hmatch
      rw [Expr.text, hargs, hsplit, List.append_assoc, substituteFrom_match hne _ hmatch,
        ihRest hrest hharmless hlast ht, Expr.step, Expr.text, List.append_assoc]
  | case cond yes no rest ihCond ihYes ihNo ihRest =>
      obtain ⟨hcond, hyes, hno, hrest⟩ := he
      obtain ⟨hcond', hyes', hno', hrest'⟩ := hh
      rw [Expr.text, Expr.step, Expr.text, List.append_assoc, List.append_assoc,
        ← @ihRest t (some 'D') true hrest hrest' rfl ht]
      exact substituteFrom_between ⟨by decide, by decide⟩
        ⟨by decide, by decide, fun _ => stop_blank_word rfl _⟩
        ⟨by decide, by decide, fun _ => stop_blank_word rfl _⟩
        ⟨by decide, by decide, fun _ => stop_blank_word rfl _⟩
        (fun _ hu => ihCond hcond hcond' rfl hu) (fun _ hu => ihYes hyes hyes' rfl hu)
        (fun _ hu => ihNo hno hno' rfl hu) before _

theorem pass_text {e : Expr} (he : Formed false e) (hh : Harmless e) :
    convertIifSinglePass e.text = e.step.text := by
  have hpass := @substituteFrom_text [] none e false he hh rfl ⟨nofun, nofun⟩
  rwa [List.append_nil, substituteFrom, List.append_nil] at hpass

/-! ## All passes -/

namespace Expr

variable {e : Expr} {inWord : Bool}

theorem startsWord_step (e : Expr) : e.step.startsWord = e.startsWord := by
  cases e <;> rfl

theorem opensGroup_step (e : Expr) : e.step.opensGroup = e.opensGroup := by
  induction e with
  | mark c rest ih => rw [step, opensGroup, opensGroup, ih]
  | nil => rfl
  | word w rest => rfl
  | literal content rest => rfl
  | group inner rest => rfl
  | iif call cond yes no rest => rfl
  | case cond yes no rest => rfl

/-- After a pass no call is left where a word could stand before it. -/
theorem formed_step (he : Formed inWord e) (inWord' : Bool) : Formed inWord' e.step := by
  induction e generalizing inWord inWord' with
  | nil => trivial
  | word w rest ih =>
      obtain ⟨hw, hword, hiif, hrest⟩ := he
      refine ⟨hw, ?_, ?_, ih hrest true⟩
      · rw [startsWord_step, hword]
      · rw [opensGroup_step]
        exact hiif
  | mark c rest ih => exact ⟨he.1, he.2.1, ih he.2.2 false⟩
  | literal content rest ih => exact ih he false
  | group inner rest ihInner ihRest => exact ⟨ihInner he.1 false, ihRest he.2 false⟩
  | iif call cond yes no rest _ _ _ ihRest =>
      obtain ⟨-, -, hcond, hyes, hno, hrest⟩ := he
      exact ⟨hcond, hyes, hno, ihRest hrest true⟩
  | case cond yes no rest ihCond ihYes ihNo ihRest =>
      obtain ⟨hcond, hyes, hno, hrest⟩ := he
      exact ⟨ihCond hcond false, ihYes hyes false, ihNo hno false, ihRest hrest true⟩

theorem harmless_step (hh : Harmless e) : Harmless e.step := by
  induction e with
  | nil => trivial
  | word w rest ih => exact ih hh
  | mark c rest ih => exact ih hh
  | literal content rest ih => exact ⟨hh.1, ih hh.2⟩
  | group inner rest ihInner ihRest => exact ⟨ihInner hh.1, ihRest hh.2⟩
  | iif call cond yes no rest _ _ _ ihRest =>
      obtain ⟨-, hcond, hyes, hno, hrest⟩ := hh
      exact ⟨hcond, hyes, hno, ihRest hrest⟩
  | case cond yes no rest ihCond ihYes ihNo ihRest =>
      obtain ⟨hcond, hyes, hno, hrest⟩ := hh
      exact ⟨ihCond hcond, ihYes hyes, ihNo hno, ihRest hrest⟩

theorem expand_step (e : Expr) : e.step.expand = e.expand := by
  induction e with
  | nil => rfl
  | word w rest ih => rw [step, expand, expand, ih]
  | mark c rest ih => rw [step, expand, expand, ih]
  | literal content rest ih => rw [step, expand, expand, ih]
  | group inner rest ihInner ihRest => rw [step, expand, expand, ihInner, ihRest]
  | iif call cond yes no rest _ _ _ ihRest => rw [step, expand, expand, ihRest]
  | case cond yes no rest ihCond ihYes ihNo ihRest =>
      rw [step, expand, expand, ihCond, ihYes, ihNo, ihRest]

theorem calls_step_le (e : Expr) : e.step.calls ≤ e.calls := by
  induction e with
  | nil => exact Nat.le_refl _
  | word w rest ih => exact ih
  | mark c rest ih => exact ih
  | literal content rest ih => exact ih
  | group inner rest ihInner ihRest => exact Nat.add_le_add ihInner ihRest
  | iif call cond yes no rest _ _ _ ihRest =>
      rw [step, calls, calls]
      omega
  | case cond yes no rest ihCond ihYes ihNo ihRest =>
      rw [step, calls, calls]
      omega

/-- A pass leaves fewer calls while there are any. -/
theorem calls_step_lt (h : 0 < e.calls) : e.step.calls < e.calls := by
  induction e with
  | nil => cases h
  | word w rest ih => exact ih h
  | mark c rest ih => exact ih h
  | literal content rest ih => exact ih h
  | group inner rest ihInner ihRest =>
      have hinner := calls_step_le inner
      have hrest := calls_step_le rest
      rw [calls] at h
      rw [step, calls, calls]
      rcases Nat.eq_zero_or_pos inner.calls with hzero | hpos
      · have hlt := ihRest (by omega)
        omega
      · have hlt := ihInner hpos
        omega
  | iif call cond yes no rest _ _ _ _ =>
      have hrest := calls_step_le rest
      rw [step, calls, calls]
      omega
  | case cond yes no rest ihCond ihYes ihNo ihRest =>
      have hcond := calls_step_le cond
      have hyes := calls_step_le yes
      have hno := calls_step_le no
      have hrest := calls_step_le rest
      rw [calls] at h
      rw [step, calls, calls]
      rcases Nat.eq_zero_or_pos cond.calls with hzero | hpos
      · rcases Nat.eq_zero_or_pos yes.calls with hzero' | hpos
        · rcases Nat.eq_zero_or_pos no.calls with hzero'' | hpos
          · have hlt := ihRest (by omega)
            omega
          · have hlt := ihNo hpos
            omega
        · have hlt := ihYes hpos
          omega
      · have hlt := ihCond hpos
        omega

theorem unchanged_of_calls (h : e.calls = 0) : e.step = e ∧ e.expand = e := by
  induction e with
  | nil => exact ⟨rfl, rfl⟩
  | word w rest ih =>
      obtain ⟨hstep, hexpand⟩ := ih h
      exact ⟨by rw [step, hstep], by rw [expand, hexpand]⟩
  | mark c rest ih =>
      obtain ⟨hstep, hexpand⟩ := ih h
      exact ⟨by rw [step, hstep], by rw [expand, hexpand]⟩
  | literal content rest ih =>
      obtain ⟨hstep, hexpand⟩ := ih h
      exact ⟨by rw [step, hstep], by rw [expand, hexpand]⟩
  | group inner rest ihInner ihRest =>
      obtain ⟨hinner, hrest⟩ := Nat.add_eq_zero_iff.mp h
      obtain ⟨hstep, hexpand⟩ := ihInner hinner
      obtain ⟨hstep', hexpand'⟩ := ihRest hrest
      exact ⟨by rw [step, hstep, hstep'], by rw [expand, hexpand, hexpand']⟩
  | iif call cond yes no rest _ _ _ _ => cases h
  | case cond yes no rest ihCond ihYes ihNo ihRest =>
      obtain ⟨hfirst, hrest⟩ := Nat.add_eq_zero_iff.mp h
      obtain ⟨hfirst, hno⟩ := Nat.add_eq_zero_iff.mp hfirst
      obtain ⟨hcond, hyes⟩ := Nat.add_eq_zero_iff.mp hfirst
      constructor
      · rw [step, (ihCond hcond).1, (ihYes hyes).1, (ihNo hno).1, (ihRest hrest).1]
      · rw [expand, (ihCond hcond).2, (ihYes hyes).2, (ihNo hno).2, (ihRest hrest).2]

end Expr

/-- The loop gives the expression with every call as a CASE, after at most one pass more than it
has calls. -/
theorem convertIif_text {e : Expr} (he : Formed false e) (hh : Harmless e) {fuel : Nat}
    (hfuel : e.calls < fuel) : convertIif fuel e.text = some e.expand.text := by
  induction hn : e.calls using Nat.strongRecOn generalizing e fuel with
  | ind n ih =>
      obtain ⟨fuel, rfl⟩ : ∃ k, fuel = k + 1 := ⟨fuel - 1, by omega⟩
      have hpass := pass_text he hh
      rw [convertIif]
      rcases Nat.eq_zero_or_pos e.calls with hzero | hpos
      · obtain ⟨hsame, hexpand⟩ := Expr.unchanged_of_calls hzero
        rw [hsame] at hpass
        rw [if_pos hpass, hexpand]
      · have hlt := Expr.calls_step_lt hpos
        have hrest : ∀ k, e.step.calls < k → convertIif k e.step.text = some e.expand.text := by
          intro k hk
          rw [← Expr.expand_step]
          exact ih e.step.calls (hn ▸ hlt) (Expr.formed_step he false) (Expr.harmless_step hh) hk
            rfl
        split
        · next hsame =>
            -- the loop that starts after the pass stops at the same text
            have hlater := hrest (e.step.calls + 1) (Nat.lt_succ_self _)
            rw [← hpass, hsame, convertIif, if_pos hsame] at hlater
            exact hlater
        · rw [hpass]
          exact hrest fuel (by omega)

/-! ## A call that is not closed -/

/-- So many parentheses are open, and some stay open to the end. -/
def unclosed : Nat → Text → Bool
  | depth, [] => 0 < depth
  | depth, c :: rest =>
      0 < depth &&
        unclosed (if c = '(' then depth + 1 else if c = ')' then depth - 1 else depth) rest

theorem scanFrom_unclosed {depth : Nat} (h : unclosed depth s = true) :
    scanFrom depth s = s.length := by
  induction s generalizing depth with
  | nil =>
      cases depth with
      | zero => rfl
      | succ depth => rfl
  | cons c s ih =>
      obtain ⟨hpos, hrest⟩ := Bool.and_eq_true_iff.mp h
      obtain ⟨depth, rfl⟩ : ∃ k, depth = k + 1 :=
        ⟨depth - 1, by have := of_decide_eq_true hpos; omega⟩
      rw [scanFrom, List.length_cons, Nat.add_comm, ← ih hrest]
      rfl

/-- A text that ends in no word is no beginning of a call before a word either. -/
theorem callStart_append_word (hlast : s.getLast?.any isWord = false) (hs : s ≠ [])
    (ht : ∃ c ∈ t.head?, isWord c = true) (h : callStart before s = none) :
    callStart before (s ++ t) = none := by
  obtain ⟨d, hd, hword⟩ := ht
  have hgap : ∀ {gap rest : Text}, Blank gap → t ≠ gap ++ '(' :: rest := by
    intro gap rest hgap heq
    rw [heq] at hd
    cases gap with
    | nil =>
        rw [← Option.some.inj hd] at hword
        cases hword
    | cons c gap =>
        rw [← Option.some.inj hd, isWord_of_isSpace (hgap c List.mem_cons_self)] at hword
        cases hword
  cases hcall : callStart before (s ++ t) with
  | none => rfl
  | some n =>
      have hbefore : before.any isWord = false := by
        apply Bool.eq_false_iff.mpr
        intro hin
        rw [callStart_of_before hin] at hcall
        cases hcall
      obtain ⟨name, gap, rest, heq, hname, hblank, -⟩ := callStart_some hcall
      rcases List.append_eq_append_iff.mp heq with ⟨u, hu, hrest⟩ | ⟨u, rfl, hrest⟩
      · have hmem : s.getLast hs ∈ name := hu ▸ List.mem_append_left u (List.getLast_mem hs)
        rw [List.getLast?_eq_some_getLast hs, Option.any_some, word_of_name hname _ hmem] at hlast
        cases hlast
      · rcases List.append_eq_append_iff.mp hrest with ⟨v, rfl, htail⟩ | ⟨v, rfl, htail⟩
        · cases v with
          | nil =>
              rw [List.nil_append] at htail
              exact absurd htail.symm (@hgap [] rest nofun)
          | cons d v =>
              obtain ⟨rfl, -⟩ := List.cons.inj htail
              rw [callStart_append hbefore hname hblank v] at h
              cases h
        · exact absurd htail (hgap fun c hc => hblank c (List.mem_append_right u hc))

theorem substituteFrom_silent_word (h : Silent before s)
    (hlast : (s.getLast?.or before).any isWord = false) (ht : ∃ c ∈ t.head?, isWord c = true) :
    substituteFrom iifMatcher 0 before (s ++ t) =
      s ++ substituteFrom iifMatcher 0 (s.getLast?.or before) t := by
  induction s generalizing before with
  | nil => rfl
  | cons c s ih =>
      have hafter : ((c :: s).getLast?.or before) = s.getLast?.or (some c) := by
        rw [List.getLast?_cons]
        cases s.getLast? with
        | none => rfl
        | some d => rfl
      have hin : (c :: s).getLast?.any isWord = false := by
        rw [List.getLast?_eq_some_getLast (List.cons_ne_nil c s), Option.some_or] at hlast
        rwa [List.getLast?_eq_some_getLast (List.cons_ne_nil c s)]
      have hcall := callStart_append_word hin (List.cons_ne_nil c s) ht h.1
      rw [hafter] at hlast ⊢
      rw [List.cons_append] at hcall
      rw [List.cons_append, substituteFrom_none hcall, ih h.2 hlast, List.cons_append]

theorem caseText_ne {opening : Text} {name gap rest : Text} {cond yes no : Text}
    (hname : upper name = "IIF".toList) (heq : opening ++ t = name ++ (gap ++ rest)) :
    caseText cond yes no ≠ opening ++ t := by
  intro hcase
  rw [heq] at hcase
  cases name with
  | nil => cases hname
  | cons c name =>
      obtain rfl : 'C' = c := (List.cons.inj hcase).1
      exact absurd (List.cons.inj hname).1 (by decide)

/-- The first call of a text, when it is not closed, is kept as it is just when the text ends with a
parenthesis and has not three parts before it; else its last character is lost. -/
theorem unclosed_kept_iff {opening : Text} (hs : Silent none s)
    (hcall : callStart s.getLast? (opening ++ t) = some opening.length)
    (hunclosed : unclosed 1 t = true) :
    convertIifSinglePass (s ++ (opening ++ t)) = s ++ (opening ++ t) ↔
      t.getLast? = some ')' ∧ (splitTopLevel t.dropLast).length ≠ 3 := by
  have hbefore : s.getLast?.any isWord = false := by
    apply Bool.eq_false_iff.mpr
    intro hin
    rw [callStart_of_before hin] at hcall
    cases hcall
  obtain ⟨name, gap, rest, heq, hname, -, -⟩ := callStart_some hcall
  have hhead : ∃ c ∈ (opening ++ t).head?, isWord c = true := by
    cases name with
    | nil => cases hname
    | cons c name =>
        rw [heq]
        exact ⟨c, rfl, word_of_name hname c List.mem_cons_self⟩
  have hmatch : iifMatcher s.getLast? (opening ++ t) =
      some (rewriteCall opening t.dropLast, (opening ++ t).length) := by
    rw [iifMatcher, hcall, Option.map_some, List.take_left, List.drop_left,
      scanFrom_unclosed hunclosed, ← List.dropLast_eq_take, List.length_append]
  have hne : opening ++ t ≠ [] := by
    intro hnil
    rw [hnil] at hhead
    obtain ⟨c, hc, -⟩ := hhead
    cases hc
  have hwhole := substituteFrom_match hne [] (by rw [List.append_nil]; exact hmatch)
  rw [List.append_nil, substituteFrom, List.append_nil] at hwhole
  have hpass := substituteFrom_silent_word hs (by rw [Option.or_none]; exact hbefore) hhead
  rw [Option.or_none, hwhole] at hpass
  rw [convertIifSinglePass, substitute, hpass, List.append_right_inj, rewriteCall]
  split
  · next hthree =>
      rw [hthree]
      exact iff_of_false (caseText_ne hname heq) fun h => h.2 rfl
  · next hparts =>
      rw [List.append_right_inj]
      constructor
      · intro hkept
        refine ⟨?_, fun hlength => ?_⟩
        · rw [← hkept, List.getLast?_concat]
        · obtain ⟨cond, yes, no, hthree⟩ := List.length_eq_three.mp hlength
          exact hparts cond yes no hthree
      · exact fun hlast => List.dropLast_append_getLast? ')' hlast.1

def sampleCall : Call := ⟨"Iif".toList, [' '], ([], []), ([' '], []), ([' '], [' '])⟩

/-- `x=Iif (a, f(b), 'c' )` -/
def sampleExpr : Expr :=
  .word ['x'] (.mark '=' (.iif sampleCall (.word ['a'] .nil)
    (.word ['f'] (.group (.word ['b'] .nil) .nil)) (.literal ['c'] .nil) .nil))

theorem word_singleton (hc : isWord c = true) : ∀ d ∈ [c], isWord d = true :=
  fun _ hd => List.mem_singleton.mp hd ▸ hc

theorem sampleExpr_formed : Formed false sampleExpr := by
  have hblank : ∀ w : Text, w.all isSpace = true → Blank w := fun _ h => List.all_eq_true.mp h
  refine ⟨⟨by decide, word_singleton rfl⟩, rfl, by decide, rfl, by decide, rfl,
    ⟨by decide, hblank _ rfl, ⟨⟨by decide, by decide⟩, hblank _ rfl, hblank _ rfl⟩,
      ⟨⟨by decide, by decide⟩, hblank _ rfl, hblank _ rfl⟩,
      ⟨⟨by decide, by decide⟩, hblank _ rfl, hblank _ rfl⟩⟩, ?_, ?_, trivial, trivial⟩
  · exact ⟨⟨by decide, word_singleton rfl⟩, rfl, by decide, trivial⟩
  · exact ⟨⟨by decide, word_singleton rfl⟩, rfl, by decide,
      ⟨⟨by decide, word_singleton rfl⟩, rfl, by decide, trivial⟩, trivial⟩

theorem sampleExpr_harmless : Harmless sampleExpr :=
  ⟨⟨⟨by decide, by decide⟩, ⟨by decide, by decide⟩, ⟨by decide, by decide⟩⟩, trivial,
    ⟨trivial, trivial⟩, ⟨⟨by decide, trivial⟩, trivial⟩, trivial⟩

/-- `IIF(a,'b,c',d)` -/
def commaExpr : Expr :=
  .iif ⟨"IIF".toList, [], ([], []), ([], []), ([], [])⟩ (.word ['a'] .nil)
    (.literal "b,c".toList .nil) (.word ['d'] .nil) .nil

theorem commaExpr_formed : Formed false commaExpr :=
  ⟨rfl, ⟨rfl, nofun, ⟨⟨by decide, by decide⟩, nofun, nofun⟩, ⟨⟨by decide, by decide⟩, nofun, nofun⟩,
      ⟨⟨by decide, by decide⟩, nofun, nofun⟩⟩,
    ⟨⟨by decide, word_singleton rfl⟩, rfl, by decide, trivial⟩, trivial,
    ⟨⟨by decide, word_singleton rfl⟩, rfl, by decide, trivial⟩, trivial⟩

end SqlOptima.IifExpansion
