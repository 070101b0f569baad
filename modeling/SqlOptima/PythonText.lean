import Mathlib.Data.List.Basic
import Mathlib.Data.List.TakeWhile

namespace SqlOptima.PythonText

abbrev Text := List Char

/-- The texts on which the functions of this file are those of Python: what counts as a blank or as
a letter, and how it is capitalised, is not told here for other characters. -/
def Ascii (s : Text) : Prop := ∀ c ∈ s, c.toNat < 128

instance (s : Text) : Decidable (Ascii s) :=
  List.decidableBAll (fun c : Char => c.toNat < 128) s

/-- By name, so that the membership tests of the definitions below stay short. -/
scoped instance instLawfulBEqText : LawfulBEq Text := inferInstance

/-- A blank of `str.strip` and of `\s`, among the ASCII characters. -/
def isSpace (c : Char) : Bool :=
  c = ' ' || c = '\t' || c = '\n' || c = '\r' || c = '\x0b' || c = '\x0c' ||
    c = '\x1c' || c = '\x1d' || c = '\x1e' || c = '\x1f'

/-- A character of a word, in a text of ASCII characters. -/
def isWord (c : Char) : Bool := c.isAlphanum || c = '_'

def upper (s : Text) : Text := s.map Char.toUpper

def lstrip (s : Text) : Text := s.dropWhile isSpace

def rstrip (s : Text) : Text := (s.reverse.dropWhile isSpace).reverse

def strip (s : Text) : Text := rstrip (lstrip s)

def leadingWord (s : Text) : Text := s.takeWhile isWord

def trailingWord (s : Text) : Text := (s.reverse.takeWhile isWord).reverse

/-- The words of a text; a word boundary is where one begins or ends. -/
def hasWord (w s : Text) : Bool := (s.splitOnP fun c => !isWord c).contains w

/-- The parts of a text between its blanks. -/
def blankSplit (s : Text) : List Text := (s.splitOnP isSpace).filter (· ≠ [])

def lines (s : Text) : List Text := s.splitOn '\n'

def unlines (ls : List Text) : Text := ['\n'].intercalate ls

section Substitute

/-- What a match at some position puts in the place of how many characters, by the character before
it and the text from there on. -/
abbrev Matcher := Option Char → Text → Option (Text × Nat)

/-- The matches of a pattern are replaced from left to right; `skip` characters of the last match
are still to be passed over. -/
def substituteFrom (m : Matcher) : Nat → Option Char → Text → Text
  | _, _, [] => []
  | skip + 1, _, c :: cs => substituteFrom m skip (some c) cs
  | 0, before, c :: cs =>
      match m before (c :: cs) with
      | some (replacement, n) => replacement ++ substituteFrom m (n - 1) (some c) cs
      | none => c :: substituteFrom m 0 (some c) cs

def substitute (m : Matcher) (s : Text) : Text := substituteFrom m 0 none s

/-- `str.replace`. -/
def replace (old new s : Text) : Text :=
  substitute (fun _ rest => if old.isPrefixOf rest then some (new, old.length) else none) s

/-- A word in any case; the text after it. -/
def keyword (w s : Text) : Option Text :=
  if upper (s.take w.length) = w then some (s.drop w.length) else none

def symbol (c : Char) : Text → Option Text
  | [] => none
  | d :: rest => if d = c then some rest else none

/-- `\s+` -/
def blanks (s : Text) : Option Text := if s.head?.any isSpace then some (lstrip s) else none

/-- The end of a match is passed over. -/
theorem substituteFrom_skip (m : Matcher) (before : Option Char) (word rest : Text) :
    substituteFrom m word.length before (word ++ rest) =
      substituteFrom m 0 (word.getLast?.or before) rest := by
  induction word generalizing before with
  | nil => rfl
  | cons c word ih =>
      rw [List.length_cons, List.cons_append, substituteFrom, ih, List.getLast?_cons]
      cases word.getLast? with
      | none => rfl
      | some d => rfl

theorem substituteFrom_match {m : Matcher} {before : Option Char} {u replacement : Text}
    (hu : u ≠ []) (rest : Text) (h : m before (u ++ rest) = some (replacement, u.length)) :
    substituteFrom m 0 before (u ++ rest) =
      replacement ++ substituteFrom m 0 (u.getLast?.or before) rest := by
  obtain ⟨c, u, rfl⟩ := List.exists_cons_of_ne_nil hu
  have hskip := substituteFrom_skip m before (c :: u) rest
  rw [List.length_cons, List.cons_append, substituteFrom] at hskip
  rw [List.cons_append] at h
  rw [List.cons_append, substituteFrom, h, ← hskip]
  rfl

/-- Where no match sees what comes after a part of a text, the part can be read alone. -/
theorem substituteFrom_append {m : Matcher} (rest : Text)
    (hbound : ∀ before s r n, m before s = some (r, n) → n ≤ s.length) (p : Text) :
    ∀ (skip : Nat) (before : Option Char), skip ≤ p.length →
      (∀ a b, p = a ++ b → b ≠ [] →
        m (a.getLast?.or before) (b ++ rest) = m (a.getLast?.or before) b) →
      substituteFrom m skip before (p ++ rest) =
        substituteFrom m skip before p ++ substituteFrom m 0 (p.getLast?.or before) rest := by
  induction p with
  | nil =>
      intro skip before hskip _
      rw [Nat.le_zero.mp hskip]
      rfl
  | cons c p ih =>
      intro skip before hskip hlocal
      have hbefore : ∀ a : Text, (c :: a).getLast?.or before = a.getLast?.or (some c) := by
        intro a
        cases a with
        | nil => rfl
        | cons d a =>
            rw [List.getLast?_cons_cons, List.getLast?_eq_some_getLast (List.cons_ne_nil d a)]
            rfl
      have hlocal' : ∀ a b, p = a ++ b → b ≠ [] →
          m (a.getLast?.or (some c)) (b ++ rest) = m (a.getLast?.or (some c)) b := by
        intro a b hab hb
        have h := hlocal (c :: a) b (by rw [hab]; rfl) hb
        rwa [hbefore] at h
      rw [hbefore]
      cases skip with
      | succ skip =>
          exact ih skip (some c) (Nat.le_of_succ_le_succ hskip) hlocal'
      | zero =>
          have hhere := hlocal [] (c :: p) rfl (List.cons_ne_nil c p)
          simp only [List.getLast?_nil, Option.none_or, List.cons_append] at hhere
          rw [List.cons_append, substituteFrom, substituteFrom, hhere]
          cases hm : m before (c :: p) with
          | none =>
              change c :: substituteFrom m 0 (some c) (p ++ rest) = _
              rw [ih 0 (some c) (Nat.zero_le _) hlocal']
              rfl
          | some found =>
              have hn : found.2 - 1 ≤ p.length := by
                have h := hbound before (c :: p) found.1 found.2 hm
                rw [List.length_cons] at h
                omega
              change found.1 ++ substituteFrom m (found.2 - 1) (some c) (p ++ rest) = _
              rw [ih (found.2 - 1) (some c) hn hlocal', ← List.append_assoc]

end Substitute

section Strip

theorem lstrip_of_head {s : Text} (h : ∀ c ∈ s.head?, isSpace c = false) : lstrip s = s := by
  cases s with
  | nil => rfl
  | cons c cs => exact List.dropWhile_cons_of_neg (by simp [h c rfl])

theorem head_lstrip (s : Text) : ∀ c ∈ (lstrip s).head?, isSpace c = false := by
  intro c hc
  have hhead := List.head?_dropWhile_not isSpace s
  rw [show List.head? (List.dropWhile isSpace s) = some c from hc] at hhead
  simpa using hhead

theorem rstrip_of_last {s : Text} (h : ∀ c ∈ s.getLast?, isSpace c = false) : rstrip s = s := by
  have hhead : lstrip s.reverse = s.reverse := by
    apply lstrip_of_head
    intro c hc
    rw [List.head?_reverse] at hc
    exact h c hc
  unfold rstrip
  rw [show s.reverse.dropWhile isSpace = s.reverse from hhead, List.reverse_reverse]

def Blank (w : Text) : Prop := ∀ c ∈ w, isSpace c = true

instance (w : Text) : Decidable (Blank w) :=
  decidable_of_iff (w.all isSpace = true) List.all_eq_true

theorem lstrip_of_isSpace {w : Text} (h : Blank w) (s : Text) : lstrip (w ++ s) = lstrip s :=
  List.dropWhile_append_of_pos h

theorem rstrip_append_blank {w : Text} (h : Blank w) (s : Text) : rstrip (s ++ w) = rstrip s := by
  have hrev : Blank w.reverse := fun c hc => h c (List.mem_reverse.mp hc)
  rw [rstrip, List.reverse_append, List.dropWhile_append_of_pos hrev, rstrip]

theorem lstrip_blank {w : Text} (h : Blank w) : lstrip w = [] := List.dropWhile_eq_nil_iff.mpr h

theorem blank_of_lstrip {s : Text} (h : lstrip s = []) : Blank s := List.dropWhile_eq_nil_iff.mp h

theorem lstrip_append {s : Text} (hs : lstrip s ≠ []) (t : Text) :
    lstrip (s ++ t) = lstrip s ++ t := by
  rw [lstrip, List.dropWhile_append, if_neg (by rwa [List.isEmpty_iff])]
  rfl

theorem strip_append_blank {w : Text} (h : Blank w) (s : Text) : strip (s ++ w) = strip s := by
  by_cases hs : lstrip s = []
  · rw [strip, lstrip_of_isSpace (blank_of_lstrip hs), lstrip_blank h, strip, hs]
  · rw [strip, lstrip_append hs, rstrip_append_blank h, strip]

theorem strip_blank_append {w : Text} (h : Blank w) (s : Text) : strip (w ++ s) = strip s := by
  rw [strip, lstrip_of_isSpace h, strip]

theorem exists_blanks (s : Text) : ∃ w w', Blank w ∧ Blank w' ∧ s = w ++ strip s ++ w' := by
  refine ⟨s.takeWhile isSpace, ((lstrip s).reverse.takeWhile isSpace).reverse, ?_, ?_, ?_⟩
  · exact List.all_eq_true.mp List.all_takeWhile
  · exact fun c hc => List.all_eq_true.mp List.all_takeWhile c (List.mem_reverse.mp hc)
  · rw [List.append_assoc, strip, rstrip, ← List.reverse_append, List.takeWhile_append_dropWhile,
      List.reverse_reverse, lstrip, List.takeWhile_append_dropWhile]

/-- A text that begins and ends with something else than blanks. -/
structure Trimmed (s : Text) : Prop where
  head : ∃ c ∈ s.head?, isSpace c = false
  last : ∃ c ∈ s.getLast?, isSpace c = false

variable {s : Text}

theorem Trimmed.ne_nil (h : Trimmed s) : s ≠ [] := by
  rintro rfl
  obtain ⟨c, hc, -⟩ := h.head
  cases hc

theorem Trimmed.lstrip_eq (h : Trimmed s) : lstrip s = s := by
  obtain ⟨c, hc, hspace⟩ := h.head
  apply lstrip_of_head
  intro d hd
  rw [Option.mem_unique hd hc]
  exact hspace

theorem Trimmed.rstrip_eq (h : Trimmed s) : rstrip s = s := by
  obtain ⟨c, hc, hspace⟩ := h.last
  apply rstrip_of_last
  intro d hd
  rw [Option.mem_unique hd hc]
  exact hspace

theorem Trimmed.strip_eq (h : Trimmed s) : strip s = s := by
  rw [strip, h.lstrip_eq, h.rstrip_eq]

theorem Trimmed.indent_eq (h : Trimmed s) : s.takeWhile isSpace = [] := by
  obtain ⟨c, hc, hspace⟩ := h.head
  cases s with
  | nil => rfl
  | cons d s =>
      cases hc
      exact List.takeWhile_cons_of_neg (by simp [hspace])

/-- Text between a beginning and an end that are not blank. -/
theorem Trimmed.append {s t : Text} (hs : Trimmed s) (ht : Trimmed t) (between : Text) :
    Trimmed (s ++ between ++ t) := by
  obtain ⟨c, hc, hspace⟩ := hs.head
  obtain ⟨d, hd, hspace'⟩ := ht.last
  refine ⟨⟨c, ?_, hspace⟩, ⟨d, ?_, hspace'⟩⟩
  · rw [List.append_assoc, List.head?_append, hc]
    rfl
  · rw [List.getLast?_append, hd]
    rfl

theorem prefix_rstrip (s : Text) : rstrip s <+: s := by
  rw [rstrip, ← List.reverse_suffix, List.reverse_reverse]
  exact List.dropWhile_suffix _

theorem trimmed_strip (h : strip s ≠ []) : Trimmed (strip s) where
  head := by
    obtain ⟨c, t, hct⟩ := List.exists_cons_of_ne_nil h
    obtain ⟨rest, hrest⟩ := prefix_rstrip (lstrip s)
    refine ⟨c, by rw [hct]; rfl, head_lstrip s c ?_⟩
    rw [← hrest, show rstrip (lstrip s) = c :: t from hct]
    rfl
  last := by
    obtain ⟨c, hc⟩ : ∃ c, (strip s).getLast? = some c := ⟨_, List.getLast?_eq_some_getLast h⟩
    refine ⟨c, hc, head_lstrip (lstrip s).reverse c ?_⟩
    rw [strip, rstrip, List.getLast?_reverse] at hc
    exact hc

theorem strip_strip (s : Text) : strip (strip s) = strip s := by
  by_cases h : strip s = []
  · rw [h]
    rfl
  · exact (trimmed_strip h).strip_eq

end Strip

section Lines

theorem lines_eq (s : Text) : lines s = s.splitOnP (· == '\n') := List.splitOn_eq_splitOnP

theorem lines_cons_break (s : Text) : lines ('\n' :: s) = [] :: lines s := by
  rw [lines_eq, List.splitOnP_cons_eq_if_modifyHead, if_pos (beq_self_eq_true _), lines_eq]

theorem lines_cons {c : Char} (hc : c ≠ '\n') (s : Text) :
    lines (c :: s) = (lines s).modifyHead (List.cons c) := by
  rw [lines_eq, List.splitOnP_cons_eq_if_modifyHead, if_neg (by simpa using hc), lines_eq]

theorem lines_append_break (s t : Text) : lines (s ++ '\n' :: t) = lines s ++ lines t := by
  rw [lines_eq, lines_eq, lines_eq]
  exact List.splitOnP_append_cons s t (beq_self_eq_true '\n')

theorem lines_of_noBreak {s : Text} (h : '\n' ∉ s) : lines s = [s] := by
  rw [lines_eq]
  apply List.splitOnP_eq_singleton
  intro c hc
  rw [beq_eq_false_iff_ne]
  exact fun heq => h (heq ▸ hc)

theorem splitOn_pair {c : Char} {s t : Text} (hs : c ∉ s) (ht : c ∉ t) :
    (s ++ c :: t).splitOn c = [s, t] := by
  have hne : ∀ u : Text, c ∉ u → u.splitOnP (· == c) = [u] := by
    intro u hu
    apply List.splitOnP_eq_singleton
    intro d hd
    rw [beq_eq_false_iff_ne]
    exact fun heq => hu (heq ▸ hd)
  have hsplit : (s ++ c :: t).splitOnP (· == c) = s.splitOnP (· == c) ++ t.splitOnP (· == c) :=
    List.splitOnP_append_cons s t (beq_self_eq_true c)
  rw [List.splitOn_eq_splitOnP, hsplit, hne s hs, hne t ht]
  rfl

theorem unlines_lines (s : Text) : unlines (lines s) = s := List.intercalate_splitOn '\n'

theorem unlines_cons_cons (l l' : Text) (ls : List Text) :
    unlines (l :: l' :: ls) = l ++ '\n' :: unlines (l' :: ls) := by
  rw [unlines, List.intercalate_cons_cons, List.append_assoc]
  rfl

theorem lines_unlines {ls : List Text} (hne : ls ≠ []) (h : ∀ l ∈ ls, '\n' ∉ l) :
    lines (unlines ls) = ls := by
  induction ls with
  | nil => exact absurd rfl hne
  | cons l ls ih =>
      obtain ⟨hl, hls⟩ := List.forall_mem_cons.mp h
      cases ls with
      | nil => exact (congrArg lines List.intercalate_singleton).trans (lines_of_noBreak hl)
      | cons l' ls =>
          rw [unlines_cons_cons, lines_append_break, lines_of_noBreak hl,
            ih (List.cons_ne_nil l' ls) hls]
          rfl

end Lines

section Words

variable {s w : Text}

theorem upper_append (s t : Text) : upper (s ++ t) = upper s ++ upper t := List.map_append

theorem takeWhile_append_stop {p : Char → Bool} {v : Text} (hv : ∀ c ∈ v.head?, p c = false)
    (s : Text) : (s ++ v).takeWhile p = s.takeWhile p := by
  induction s with
  | nil =>
      cases v with
      | nil => rfl
      | cons c v => exact List.takeWhile_cons_of_neg (by simp [hv c rfl])
  | cons c s ih =>
      by_cases hc : p c = true
      · rw [List.cons_append, List.takeWhile_cons_of_pos hc, List.takeWhile_cons_of_pos hc, ih]
      · rw [List.cons_append, List.takeWhile_cons_of_neg hc, List.takeWhile_cons_of_neg hc]

/-- What stands before the first character of another kind is told by the whole text. -/
theorem append_stop_inj {p : Char → Bool} {u v s t : Text} {c d : Char} (hu : ∀ c ∈ u, p c = true)
    (hv : ∀ c ∈ v, p c = true) (hc : p c = false) (hd : p d = false)
    (h : u ++ c :: s = v ++ d :: t) : u = v ∧ c = d ∧ s = t := by
  have hwhile := congrArg (List.takeWhile p) h
  rw [List.takeWhile_append_of_pos hu, List.takeWhile_append_of_pos hv,
    List.takeWhile_cons_of_neg (Bool.eq_false_iff.mp hc),
    List.takeWhile_cons_of_neg (Bool.eq_false_iff.mp hd), List.append_nil,
    List.append_nil] at hwhile
  obtain rfl := hwhile
  exact ⟨rfl, List.cons.inj (List.append_cancel_left h)⟩

theorem isWord_toUpper {c : Char} (h : isWord c = false) : isWord c.toUpper = false := by
  have hlower : c.isLower = false := by
    have hparts : ((c.isUpper || c.isLower) || c.isDigit || decide (c = '_')) = false := h
    simp only [Bool.or_eq_false_iff] at hparts
    exact hparts.1.1.2
  have hsame : c.toUpper = c := by
    unfold Char.toUpper
    rw [dif_neg]
    intro hc
    have hparts : (decide (c ≥ 'a') && decide (c ≤ 'z')) = false := hlower
    rw [Bool.and_eq_false_iff, decide_eq_false_iff_not, decide_eq_false_iff_not] at hparts
    exact hparts.elim (fun h' => h' hc.1) fun h' => h' hc.2
  rwa [hsame]

theorem isSpace_of_toUpper {c : Char} (h : isSpace c.toUpper = false) : isSpace c = false := by
  by_contra hc
  simp only [isSpace, Bool.not_eq_false, Bool.or_eq_true, decide_eq_true_eq] at hc
  obtain ((((((((rfl | rfl) | rfl) | rfl) | rfl) | rfl) | rfl) | rfl) | rfl) | rfl := hc
  all_goals exact absurd h (by decide)

theorem isWord_of_isSpace {c : Char} (h : isSpace c = true) : isWord c = false := by
  simp only [isSpace, Bool.or_eq_true, decide_eq_true_eq] at h
  obtain ((((((((rfl | rfl) | rfl) | rfl) | rfl) | rfl) | rfl) | rfl) | rfl) | rfl := h
  all_goals decide

/-- A word ends where blanks begin. -/
theorem leadingWord_upper_append {v : Text} (hv : ∀ c ∈ v.head?, isSpace c = true) (s : Text) :
    leadingWord (upper (s ++ v)) = leadingWord (upper s) := by
  rw [upper_append]
  apply takeWhile_append_stop
  intro c hc
  rw [upper, List.head?_map] at hc
  obtain ⟨d, hd, rfl⟩ := Option.map_eq_some_iff.mp hc
  exact isWord_toUpper (isWord_of_isSpace (hv d hd))

/-- The capitals of a word after something else. -/
theorem trailingWord_upper_append {s w : Text} (hs : s.getLast?.any isWord = false)
    (hw : ∀ c ∈ upper w, isWord c = true) : trailingWord (upper (s ++ w)) = upper w := by
  have hrev : ∀ c ∈ (upper w).reverse, isWord c = true := fun c hc => hw c (List.mem_reverse.mp hc)
  have hstop : ∀ c ∈ (upper s).reverse.head?, isWord c = false := by
    intro c hc
    rw [List.head?_reverse, upper, List.getLast?_map] at hc
    obtain ⟨d, hd, rfl⟩ := Option.map_eq_some_iff.mp hc
    rw [hd] at hs
    exact isWord_toUpper hs
  rw [trailingWord, upper_append, List.reverse_append, takeWhile_append_stop hstop,
    List.takeWhile_eq_self_iff.mpr hrev, List.reverse_reverse]

theorem length_leadingWord (s : Text) : (leadingWord (upper s)).length ≤ s.length := by
  have h := (List.takeWhile_prefix isWord (l := upper s)).length_le
  rwa [upper, List.length_map] at h

theorem drop_takeWhile (s : Text) : s.drop (s.takeWhile isSpace).length = lstrip s := by
  have h : (s.takeWhile isSpace ++ lstrip s).drop (s.takeWhile isSpace).length = lstrip s :=
    List.drop_left
  rwa [lstrip, List.takeWhile_append_dropWhile] at h

theorem splitOnP_of_isWord (hw : ∀ c ∈ w, isWord c = true) :
    w.splitOnP (fun c => !isWord c) = [w] :=
  List.splitOnP_eq_singleton fun c hc => by rw [hw c hc]; rfl

theorem hasWord_trailingWord (s : Text) : hasWord (trailingWord s) s = true := by
  have hword : ∀ c ∈ trailingWord s, isWord c = true := by
    intro c hc
    exact List.all_eq_true.mp List.all_takeWhile c (List.mem_reverse.mp hc)
  have hsplit : s = (s.reverse.dropWhile isWord).reverse ++ trailingWord s := by
    rw [trailingWord, ← List.reverse_append, List.takeWhile_append_dropWhile, List.reverse_reverse]
  unfold hasWord
  rw [List.contains_iff_mem]
  cases hrest : s.reverse.dropWhile isWord with
  | nil =>
      have hmem : trailingWord s ∈ (trailingWord s).splitOnP (fun c => !isWord c) := by
        rw [splitOnP_of_isWord hword]
        exact List.mem_cons_self
      rw [hrest, List.reverse_nil, List.nil_append] at hsplit
      rwa [← hsplit] at hmem ⊢
  | cons c rest =>
      have hc : isWord c = false := by
        have hhead := List.head?_dropWhile_not isWord s.reverse
        rw [hrest] at hhead
        simpa using hhead
      have hmem : trailingWord s ∈ (rest.reverse ++ c :: trailingWord s).splitOnP
          (fun c => !isWord c) := by
        rw [List.splitOnP_append_cons _ _ (by simp [hc]), splitOnP_of_isWord hword]
        exact List.mem_append_right _ List.mem_cons_self
      rw [hrest, List.reverse_cons, List.append_assoc] at hsplit
      rwa [show rest.reverse ++ c :: trailingWord s = s from hsplit.symm] at hmem

end Words

end SqlOptima.PythonText
