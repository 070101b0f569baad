import SqlOptima.PythonText

namespace SqlOptima.ConnectiveScan

open PythonText

/-!
# Cutting a text at a word

A text is cut at the first of certain words that stands outside quotes and parentheses. A text
made of parts without such words is cut where its first part ends.
-/

/-- Which quotes a backslash keeps from closing, what a word is made of, and the words that cut. -/
structure Lexing where
  escapes : Bool
  wordChar : Char → Bool
  words : List Text
  nonempty : ∀ w ∈ words, w ≠ []
  heads : ∀ w ∈ words, ∀ w' ∈ words, w.head? = w'.head? → w = w'
  letters : ∀ w ∈ words, ∀ c : Char, c.toUpper ∈ w → wordChar c = true
  blank : ∀ c : Char, isSpace c = true → wordChar c = false
  paren : wordChar '(' = false

structure Place where
  quote : Option Char
  depth : Int
  last : Option Char

def start : Place := ⟨none, 0, none⟩

def isQuote (c : Char) : Bool := c = '\'' || c = '"'

def Place.step (escapes : Bool) (p : Place) (c : Char) : Place :=
  match p.quote with
  | some q =>
      ⟨if c = q && !(escapes && p.last = some '\\') then none else some q, p.depth, some c⟩
  | none =>
      ⟨if isQuote c then some c else none,
        if c = '(' then p.depth + 1 else if c = ')' then p.depth - 1 else p.depth, some c⟩

def Place.outside (p : Place) : Bool := p.quote.isNone && p.depth = 0

def walk (escapes : Bool) (p : Place) (s : Text) : Place := s.foldl (Place.step escapes) p

variable (x : Lexing)

/-- The word stands at the beginning of `s`, in any case. -/
def wordAt (w : Text) (last : Option Char) (s : Text) : Bool :=
  upper (s.take w.length) = w && !last.any x.wordChar && !(s.drop w.length).head?.any x.wordChar

/-- What stands before the first word that has something on both sides, and after it. -/
def cutFrom (before : Text) (p : Place) : Text → Option (Text × Text × Text)
  | [] => none
  | c :: cs =>
      match (if p.outside then x.words.find? fun w => wordAt x w p.last (c :: cs) &&
        strip before ≠ [] && strip ((c :: cs).drop w.length) ≠ [] else none) with
      | some w => some (strip before, w, strip ((c :: cs).drop w.length))
      | none => cutFrom (before ++ [c]) (p.step x.escapes c) cs

def cut (s : Text) : Option (Text × Text × Text) := cutFrom x [] start s

/-- No word that cuts stands outside quotes and parentheses. -/
def clearFrom (p : Place) : Text → Bool
  | [] => true
  | c :: cs =>
      !(p.outside && x.words.any fun w => wordAt x w p.last (c :: cs)) &&
        clearFrom (p.step x.escapes c) cs

def clear (s : Text) : Bool := clearFrom x start s

/-- No parenthesis closes that was not opened. -/
def staysFrom (escapes : Bool) (p : Place) : Text → Bool
  | [] => true
  | c :: cs => 0 ≤ (p.step escapes c).depth && staysFrom escapes (p.step escapes c) cs

/-- Quotes and parentheses close. -/
structure Closed (escapes : Bool) (s : Text) : Prop where
  quote : (walk escapes start s).quote = none
  depth : (walk escapes start s).depth = 0
  stays : staysFrom escapes start s = true

/-- A word of its own after `s` and before `t`. -/
structure Gap where
  before : Text
  word : Text
  after : Text

def Gap.text (g : Gap) : Text := g.before ++ (g.word ++ g.after)

/-- Parts with words between them. -/
inductive Parts
  | one (t : Text)
  | join (t : Text) (g : Gap) (rest : Parts)

namespace Parts

def write : Parts → Text
  | one t => t
  | join t g rest => t ++ (g.text ++ rest.write)

def append : Parts → Gap → Parts → Parts
  | one t, g, rest => join t g rest
  | join t g' r, g, rest => join t g' (r.append g rest)

/-- The parts and the words, without the blanks. -/
inductive Same : Parts → Parts → Prop
  | one (t : Text) : Same (one t) (one t)
  | join (t : Text) {g g' : Gap} (hword : upper g.word = upper g'.word) {r r' : Parts}
      (h : Same r r') : Same (join t g r) (join t g' r')

end Parts

/-- A part has no word that cuts. -/
structure Part (t : Text) : Prop where
  trimmed : Trimmed t
  closed : Closed x.escapes t
  clear : clear x t = true

structure Gap.Separates (g : Gap) (s t : Text) : Prop where
  word : upper g.word ∈ x.words
  before : Blank g.before
  after : Blank g.after
  left : (s ++ g.before).getLast?.any x.wordChar = false
  right : (g.after ++ t).head?.any x.wordChar = false

/-- Only the last character before a word matters, and only the first after it. -/
theorem Gap.separates_append_left {x : Lexing} {g : Gap} {s t : Text} (hne : s ≠ []) (u : Text) :
    g.Separates x (u ++ s) t ↔ g.Separates x s t := by
  have hlast : (u ++ s ++ g.before).getLast? = (s ++ g.before).getLast? := by
    rw [List.append_assoc]
    exact List.getLast?_append_of_ne_nil _ (List.append_ne_nil_of_left_ne_nil hne _)
  exact ⟨fun ⟨hw, hb, ha, hl, hr⟩ => ⟨hw, hb, ha, hlast ▸ hl, hr⟩,
    fun ⟨hw, hb, ha, hl, hr⟩ => ⟨hw, hb, ha, hlast ▸ hl, hr⟩⟩

theorem Gap.Separates.append_right {x : Lexing} {g : Gap} {s t : Text} (h : g.Separates x s t)
    (hne : t ≠ []) (u : Text) : g.Separates x s (t ++ u) where
  word := h.word
  before := h.before
  after := h.after
  left := h.left
  right := by
    rw [← List.append_assoc,
      List.head?_append_of_ne_nil _ (List.append_ne_nil_of_right_ne_nil _ hne)]
    exact h.right

def Parts.Sound : Parts → Prop
  | .one t => Part x t
  | .join t g rest => Part x t ∧ g.Separates x t rest.write ∧ rest.Sound

section Letters

theorem alphanum_of_toUpper {c : Char} (h : c.toUpper.isAlphanum = true) :
    c.isAlphanum = true := by
  by_contra hc
  by_cases hunderscore : c = '_'
  · rw [hunderscore] at h
    exact absurd h (by decide)
  · have hword : isWord c = false := by
      rw [isWord, Bool.eq_false_iff.mpr hc, decide_eq_false hunderscore]
      rfl
    have hupper := isWord_toUpper hword
    rw [isWord, h] at hupper
    cases hupper

theorem letters_of_alphanum {words : List Text} {wordChar : Char → Bool}
    (hwords : words.all (fun w => w.all Char.isAlphanum) = true)
    (h : ∀ c : Char, c.isAlphanum = true → wordChar c = true) :
    ∀ w ∈ words, ∀ c : Char, c.toUpper ∈ w → wordChar c = true := by
  intro w hw c hc
  exact h c (alphanum_of_toUpper
    (List.all_eq_true.mp (List.all_eq_true.mp hwords w hw) c.toUpper hc))

theorem not_alphanum_of_isSpace (c : Char) (h : isSpace c = true) : c.isAlphanum = false := by
  have hword := isWord_of_isSpace h
  rw [isWord, Bool.or_eq_false_iff] at hword
  exact hword.1

end Letters

section Walk

variable {e : Bool} {p : Place} {s t u v : Text} {c : Char} {k : Int}

theorem walk_append (e : Bool) (p : Place) (s t : Text) :
    walk e p (s ++ t) = walk e (walk e p s) t := List.foldl_append

theorem step_last (e : Bool) (p : Place) (c : Char) : (p.step e c).last = some c := by
  rw [Place.step]
  split
  · rfl
  · rfl

theorem walk_last (e : Bool) (p : Place) (s : Text) :
    (walk e p s).last = s.getLast?.or p.last := by
  induction s generalizing p with
  | nil => rfl
  | cons c s ih =>
      rw [walk, List.foldl_cons, ← walk, ih, step_last, List.getLast?_cons]
      cases s.getLast? with
      | none => rfl
      | some d => rfl

/-- The same place, deeper by `k`. -/
def Place.raise (k : Int) (p : Place) : Place := ⟨p.quote, p.depth + k, p.last⟩

theorem step_raise (e : Bool) (k : Int) (p : Place) (c : Char) :
    (p.raise k).step e c = (p.step e c).raise k := by
  obtain ⟨quote, depth, last⟩ := p
  cases quote with
  | some q => rfl
  | none =>
      simp only [Place.raise, Place.step]
      congr 1
      split
      · omega
      · split
        · omega
        · rfl

theorem walk_raise (e : Bool) (k : Int) (p : Place) (s : Text) :
    walk e (p.raise k) s = (walk e p s).raise k := by
  induction s generalizing p with
  | nil => rfl
  | cons c s ih =>
      rw [walk, List.foldl_cons, step_raise, ← walk, ih]
      rfl

/-- Outside quotes the character before is not looked at. -/
theorem step_of_code (hp : p.quote = none) (e : Bool) (c : Char) :
    p.step e c = (start.step e c).raise p.depth := by
  rw [← step_raise]
  obtain ⟨quote, depth, last⟩ := p
  obtain rfl : quote = none := hp
  simp only [Place.step, Place.raise, start, Int.zero_add]

theorem walk_of_code (hp : p.quote = none) (e : Bool) (c : Char) (s : Text) :
    walk e p (c :: s) = (walk e start (c :: s)).raise p.depth := by
  rw [walk, List.foldl_cons, step_of_code hp, ← walk, walk_raise]
  rfl

theorem walk_of_closed (h : Closed e s) (hp : p.quote = none) :
    walk e p s = ⟨none, p.depth, s.getLast?.or p.last⟩ := by
  cases s with
  | nil =>
      obtain ⟨quote, depth, last⟩ := p
      obtain rfl : quote = none := hp
      rfl
  | cons c s =>
      have hlast := walk_last e p (c :: s)
      rw [walk_of_code hp] at hlast ⊢
      rw [← hlast, Place.raise, h.quote, h.depth, Int.zero_add]

theorem staysFrom_append (e : Bool) (p : Place) (s t : Text) :
    staysFrom e p (s ++ t) = (staysFrom e p s && staysFrom e (walk e p s) t) := by
  induction s generalizing p with
  | nil => rfl
  | cons c s ih =>
      rw [List.cons_append, staysFrom, ih, staysFrom, Bool.and_assoc]
      rfl

theorem staysFrom_raise (hk : 0 ≤ k) (h : staysFrom e p s = true) :
    staysFrom e (p.raise k) s = true := by
  induction s generalizing p with
  | nil => rfl
  | cons c s ih =>
      rw [staysFrom, Bool.and_eq_true, decide_eq_true_eq] at h
      rw [staysFrom, step_raise, Bool.and_eq_true, decide_eq_true_eq]
      exact ⟨Int.add_nonneg h.1 hk, ih h.2⟩

theorem stays_of_closed (h : Closed e s) (hp : p.quote = none) (hdepth : 0 ≤ p.depth) :
    staysFrom e p s = true := by
  have hstays := h.stays
  cases s with
  | nil => rfl
  | cons c s =>
      rw [staysFrom, Bool.and_eq_true, decide_eq_true_eq] at hstays
      rw [staysFrom, step_of_code hp, Bool.and_eq_true, decide_eq_true_eq]
      exact ⟨Int.add_nonneg hstays.1 hdepth, staysFrom_raise hdepth hstays.2⟩

theorem Closed.append (hs : Closed e s) (ht : Closed e t) : Closed e (s ++ t) := by
  have hwalk : walk e start s = ⟨none, 0, s.getLast?.or none⟩ := walk_of_closed hs rfl
  have hwalk' : walk e start (s ++ t) = ⟨none, 0, t.getLast?.or (s.getLast?.or none)⟩ := by
    rw [walk_append, hwalk, walk_of_closed ht rfl]
  refine ⟨by rw [hwalk'], by rw [hwalk'], ?_⟩
  rw [staysFrom_append, hs.stays, hwalk, stays_of_closed ht rfl (Int.le_refl 0)]
  rfl

/-- No quote and no parenthesis. -/
theorem closed_of_plain (h : ∀ c ∈ s, isQuote c = false ∧ c ≠ '(' ∧ c ≠ ')') : Closed e s := by
  have hwalk : ∀ last, (walk e ⟨none, 0, last⟩ s).quote = none ∧
      (walk e ⟨none, 0, last⟩ s).depth = 0 ∧ staysFrom e ⟨none, 0, last⟩ s = true := by
    induction s with
    | nil => exact fun _ => ⟨rfl, rfl, rfl⟩
    | cons c s ih =>
        intro last
        obtain ⟨⟨hquote, hopen, hclose⟩, hs⟩ := List.forall_mem_cons.mp h
        have hstep : Place.step e ⟨none, 0, last⟩ c = ⟨none, 0, some c⟩ := by
          simp only [Place.step, hquote, if_neg hopen, if_neg hclose, Bool.false_eq_true,
            if_false]
        rw [walk, List.foldl_cons, hstep, staysFrom, hstep]
        exact ih hs (some c)
  obtain ⟨hquote, hdepth, hstays⟩ := hwalk none
  exact ⟨hquote, hdepth, hstays⟩

theorem closed_blank (h : Blank s) : Closed e s := by
  apply closed_of_plain
  intro c hc
  have hspace := h c hc
  refine ⟨?_, ?_, ?_⟩
  · by_contra hquote
    rw [Bool.not_eq_false, isQuote, Bool.or_eq_true, decide_eq_true_eq,
      decide_eq_true_eq] at hquote
    rcases hquote with rfl | rfl
    all_goals exact absurd hspace (by decide)
  all_goals
    rintro rfl
    exact absurd hspace (by decide)

def inParens (s : Text) : Text := '(' :: (s ++ [')'])

theorem walk_open (e : Bool) (s : Text) :
    walk e start ('(' :: s) = walk e ⟨none, 1, some '('⟩ s := rfl

theorem Closed.inParens (h : Closed e s) : Closed e (inParens s) := by
  have hwalk : walk e start ('(' :: s) = ⟨none, 1, s.getLast?.or (some '(')⟩ :=
    (walk_open e s).trans (walk_of_closed h rfl)
  have hend : walk e start (ConnectiveScan.inParens s) = ⟨none, 0, some ')'⟩ := by
    rw [ConnectiveScan.inParens, ← List.cons_append, walk_append, hwalk]
    rfl
  refine ⟨by rw [hend], by rw [hend], ?_⟩
  rw [ConnectiveScan.inParens, ← List.cons_append, staysFrom_append, hwalk, Bool.and_eq_true]
  have hstays : staysFrom e ⟨none, 1, some '('⟩ s = true :=
    stays_of_closed h rfl (by decide)
  exact ⟨hstays, rfl⟩

end Walk

section Cut

variable {x} {w t s rest before : Text} {p : Place} {last : Option Char} {c : Char} {g : Gap}

theorem head_of_wordAt (hw : w ∈ x.words) (h : wordAt x w last (c :: s) = true) :
    w.head? = some c.toUpper := by
  simp only [wordAt, Bool.and_eq_true, decide_eq_true_eq] at h
  obtain ⟨n, hn⟩ := Nat.exists_eq_succ_of_ne_zero (mt List.length_eq_zero_iff.mp (x.nonempty w hw))
  rw [hn, List.take_succ_cons] at h
  rw [← h.1.1]
  rfl

theorem wordChar_of_wordAt (hw : w ∈ x.words) (h : wordAt x w last (c :: s) = true) :
    x.wordChar c = true :=
  x.letters w hw c (List.mem_of_mem_head? (head_of_wordAt hw h))

/-- A word does not go from the end of one text into the next. -/
def Apart (x : Lexing) (s t : Text) : Prop :=
  s.getLast?.any x.wordChar = false ∨ t.head?.any x.wordChar = false

theorem Apart.tail (h : Apart x (c :: s) t) : Apart x s t := by
  cases s with
  | nil => exact Or.inl rfl
  | cons d s => exact h.imp_left fun h => by rwa [List.getLast?_cons_cons] at h

theorem wordAt_of_append (hw : w ∈ x.words) (hapart : Apart x (c :: s) rest)
    (h : wordAt x w last (c :: s ++ rest) = true) : wordAt x w last (c :: s) = true := by
  simp only [wordAt, Bool.and_eq_true, decide_eq_true_eq] at h ⊢
  obtain ⟨⟨htake, hlast⟩, hnext⟩ := h
  by_cases hle : w.length ≤ (c :: s).length
  · rw [List.take_append_of_le_length hle] at htake
    rw [List.drop_append_of_le_length hle] at hnext
    refine ⟨⟨htake, hlast⟩, ?_⟩
    cases hdrop : (c :: s).drop w.length with
    | nil => rfl
    | cons d tail =>
        rw [hdrop] at hnext
        exact hnext
  · -- the word would hold the last character of one text and the first of the other
    exfalso
    have hshort : (c :: s).length < w.length := Nat.lt_of_not_le hle
    rw [List.take_append, List.take_of_length_le (Nat.le_of_lt hshort), upper_append] at htake
    obtain ⟨n, hn⟩ : ∃ n, w.length - (c :: s).length = n + 1 :=
      Nat.exists_eq_succ_of_ne_zero (by omega)
    rw [hn] at htake
    rcases hapart with hend | hbegin
    · obtain ⟨d, hd⟩ : ∃ d, (c :: s).getLast? = some d :=
        ⟨_, List.getLast?_eq_some_getLast (List.cons_ne_nil c s)⟩
      have hmem : d.toUpper ∈ w := by
        rw [← htake]
        exact List.mem_append_left _ (List.mem_map_of_mem (List.mem_of_getLast? hd))
      rw [hd, Option.any_some, x.letters w hw d hmem] at hend
      cases hend
    · cases rest with
      | nil =>
          have hlength := congrArg List.length htake
          rw [List.take_nil, List.length_append, upper, List.length_map] at hlength
          exact Nat.lt_irrefl _ (hlength ▸ hshort)
      | cons d rest =>
          have hmem : d.toUpper ∈ w := by
            rw [← htake, List.take_succ_cons]
            exact List.mem_append_right _ List.mem_cons_self
          rw [List.head?_cons, Option.any_some, x.letters w hw d hmem] at hbegin
          cases hbegin

theorem clearFrom_cons (h : clearFrom x p (c :: s) = true) :
    (p.outside = true → ∀ w ∈ x.words, wordAt x w p.last (c :: s) = false) ∧
      clearFrom x (p.step x.escapes c) s = true := by
  rw [clearFrom, Bool.and_eq_true, Bool.not_eq_true', Bool.and_eq_false_iff] at h
  refine ⟨fun hout w hw => ?_, h.2⟩
  have hany := h.1.resolve_left (by rw [hout]; exact Bool.noConfusion)
  exact Bool.eq_false_iff.mpr (List.any_eq_false.mp hany w hw)

/-- A text without words that cut is passed over. -/
theorem cutFrom_append (h : clearFrom x p t = true) (hapart : Apart x t rest) (before : Text) :
    cutFrom x before p (t ++ rest) = cutFrom x (before ++ t) (walk x.escapes p t) rest := by
  induction t generalizing p before with
  | nil => rw [List.append_nil, List.nil_append, walk, List.foldl_nil]
  | cons c t ih =>
      obtain ⟨hword, hclear⟩ := clearFrom_cons h
      have hnone : (if p.outside then x.words.find? fun w => wordAt x w p.last (c :: (t ++ rest)) &&
          strip before ≠ [] && strip ((c :: (t ++ rest)).drop w.length) ≠ [] else none) = none := by
        split
        · next hout =>
            rw [List.find?_eq_none]
            intro w hw hfound
            rw [Bool.and_eq_true, Bool.and_eq_true] at hfound
            have hat := wordAt_of_append hw hapart hfound.1.1
            rw [hword hout w hw] at hat
            cases hat
        · rfl
      rw [List.cons_append, cutFrom, hnone]
      change cutFrom x (before ++ [c]) (p.step x.escapes c) (t ++ rest) = _
      rw [ih hclear hapart.tail, List.append_assoc, List.singleton_append]
      rfl

theorem clearFrom_blank (h : Blank s) (p : Place) : clearFrom x p s = true := by
  induction s generalizing p with
  | nil => rfl
  | cons c s ih =>
      obtain ⟨hc, hs⟩ := List.forall_mem_cons.mp h
      rw [clearFrom, ih hs, Bool.and_true, Bool.not_eq_true', Bool.and_eq_false_iff]
      refine Or.inr (List.any_eq_false.mpr fun w hw hat => ?_)
      have hchar := wordChar_of_wordAt hw hat
      rw [x.blank c hc] at hchar
      cases hchar

theorem cut_eq_none (h : Part x t) : cut x t = none := by
  have hpass := @cutFrom_append x t [] ConnectiveScan.start h.clear (Or.inr rfl) []
  rw [List.append_nil] at hpass
  exact hpass

theorem any_getLast_blank (h : Blank s) (hne : s ≠ []) :
    s.getLast?.any x.wordChar = false := by
  rw [List.getLast?_eq_some_getLast hne, Option.any_some]
  exact x.blank _ (h _ (List.getLast_mem hne))

theorem apart_before (hbefore : Blank before)
    (hleft : (s ++ before).getLast?.any x.wordChar = false) (t : Text) :
    Apart x s (before ++ t) := by
  cases before with
  | nil =>
      rw [List.append_nil] at hleft
      exact Or.inl hleft
  | cons c before => exact Or.inr (x.blank c (hbefore c List.mem_cons_self))

theorem apart_after {after : Text} (hafter : Blank after)
    (hright : (after ++ t).head?.any x.wordChar = false) (s : Text) :
    Apart x (s ++ after) t := by
  by_cases hnil : after = []
  · rw [hnil] at hright
    exact Or.inr hright
  · left
    rw [List.getLast?_append_of_ne_nil s hnil]
    exact any_getLast_blank hafter hnil

/-- The text is cut where its first part ends. -/
theorem cut_join (ht : Part x t) (hrest : Trimmed rest) (hg : g.Separates x t rest) :
    cut x (t ++ (g.text ++ rest)) = some (t, upper g.word, rest) := by
  obtain ⟨lead, word, trail⟩ := g
  obtain ⟨hword, hlead, htrail, hleft, hright⟩ := hg
  dsimp only at hword hlead htrail hleft hright
  have hwalk : walk x.escapes start t = ⟨none, 0, t.getLast?.or none⟩ :=
    walk_of_closed ht.closed rfl
  have hapart : Apart x t (lead ++ (word ++ (trail ++ rest))) := apart_before hlead hleft _
  have hapart' : Apart x lead (word ++ (trail ++ rest)) := by
    left
    by_cases hnil : lead = []
    · rw [hnil]
      rfl
    · exact any_getLast_blank hlead hnil
  have hlast : (lead.getLast?.or (t.getLast?.or none)).any x.wordChar = false := by
    rwa [Option.or_none, ← List.getLast?_append]
  have htext : Gap.text ⟨lead, word, trail⟩ ++ rest = lead ++ (word ++ (trail ++ rest)) := by
    rw [Gap.text, List.append_assoc, List.append_assoc]
  rw [htext, cut, cutFrom_append ht.clear hapart, hwalk,
    cutFrom_append (clearFrom_blank hlead _) hapart', walk_of_closed (closed_blank hlead) rfl]
  have hne : word ≠ [] := fun hnil => x.nonempty _ hword (by rw [hnil]; rfl)
  obtain ⟨c, word, rfl⟩ := List.exists_cons_of_ne_nil hne
  have hlength : (upper (c :: word)).length = (c :: word).length := List.length_map _
  have hstrip : strip ([] ++ t ++ lead) = t := by
    rw [strip_append_blank hlead, List.nil_append, ht.trimmed.strip_eq]
  have hstrip' : strip ((c :: word ++ (trail ++ rest)).drop (upper (c :: word)).length) = rest := by
    rw [hlength, List.drop_left, strip_blank_append htrail, hrest.strip_eq]
  have hat : wordAt x (upper (c :: word)) (lead.getLast?.or (t.getLast?.or none))
      (c :: word ++ (trail ++ rest)) = true := by
    rw [wordAt, hlength, List.take_left, List.drop_left, hlast, hright]
    simp
  have hfind : (x.words.find? fun w => wordAt x w (lead.getLast?.or (t.getLast?.or none))
      (c :: word ++ (trail ++ rest)) && strip ([] ++ t ++ lead) ≠ [] &&
        strip ((c :: word ++ (trail ++ rest)).drop w.length) ≠ []) =
        some (upper (c :: word)) := by
    have hfound : (x.words.find? fun w => wordAt x w (lead.getLast?.or (t.getLast?.or none))
        (c :: word ++ (trail ++ rest)) && strip ([] ++ t ++ lead) ≠ [] &&
          strip ((c :: word ++ (trail ++ rest)).drop w.length) ≠ []).isSome = true := by
      rw [List.find?_isSome]
      refine ⟨upper (c :: word), hword, ?_⟩
      rw [hat, hstrip, hstrip', decide_eq_true ht.trimmed.ne_nil, decide_eq_true hrest.ne_nil]
      rfl
    obtain ⟨w, hw⟩ := Option.isSome_iff_exists.mp hfound
    have hmem := List.mem_of_find?_eq_some hw
    have hpred := List.find?_some hw
    rw [Bool.and_eq_true, Bool.and_eq_true] at hpred
    rw [hw, x.heads w hmem _ hword ((head_of_wordAt hmem hpred.1.1).trans
      (head_of_wordAt hword hat).symm)]
  rw [List.cons_append] at hfind hstrip'
  rw [List.cons_append, cutFrom]
  have hout : Place.outside ⟨none, 0, lead.getLast?.or (t.getLast?.or none)⟩ = true := rfl
  rw [hout, if_pos rfl, hfind]
  dsimp only
  rw [hstrip, hstrip']

/-- A text without the first letter of a word that cuts. -/
theorem clearFrom_of_heads (h : ∀ c ∈ s, ∀ w ∈ x.words, w.head? ≠ some c.toUpper) (p : Place) :
    clearFrom x p s = true := by
  induction s generalizing p with
  | nil => rfl
  | cons c s ih =>
      obtain ⟨hc, hs⟩ := List.forall_mem_cons.mp h
      rw [clearFrom, ih hs, Bool.and_true, Bool.not_eq_true', Bool.and_eq_false_iff]
      exact Or.inr (List.any_eq_false.mpr fun w hw hat => hc w hw (head_of_wordAt hw hat))

theorem clearFrom_append (hs : clearFrom x p s = true)
    (ht : clearFrom x (walk x.escapes p s) t = true) (hapart : Apart x s t) :
    clearFrom x p (s ++ t) = true := by
  induction s generalizing p with
  | nil => exact ht
  | cons c s ih =>
      obtain ⟨hword, hclear⟩ := clearFrom_cons hs
      rw [List.cons_append, clearFrom, ih hclear ht hapart.tail, Bool.and_true,
        Bool.not_eq_true', Bool.and_eq_false_iff]
      by_cases hout : p.outside = true
      · right
        rw [List.any_eq_false]
        intro w hw hat
        have hfalse := hword hout w hw
        rw [wordAt_of_append hw hapart hat] at hfalse
        cases hfalse
      · exact Or.inl (Bool.eq_false_iff.mpr hout)

/-- What stands before a text does not make a word of it. -/
theorem clearFrom_of_clear (h : clear x s = true) (last : Option Char) :
    clearFrom x ⟨none, 0, last⟩ s = true := by
  cases s with
  | nil => rfl
  | cons c s =>
      obtain ⟨hword, hrest⟩ := clearFrom_cons h
      have hstep : Place.step x.escapes ⟨none, 0, last⟩ c = start.step x.escapes c := by
        rw [step_of_code rfl, Place.raise, Int.add_zero]
      rw [clearFrom, hstep, hrest, Bool.and_true, Bool.not_eq_true', Bool.and_eq_false_iff]
      right
      rw [List.any_eq_false]
      intro w hw hat
      have hfalse : wordAt x w none (c :: s) = false := hword rfl w hw
      simp only [wordAt, Bool.and_eq_true] at hat
      rw [wordAt, hat.1.1, hat.2] at hfalse
      cases hfalse

/-- Two parts with a word between them that does not cut. -/
theorem part_gap (hs : Part x s) (ht : Part x t) (hbefore : Blank g.before)
    (hafter : Blank g.after) (hclosed : Closed x.escapes g.word)
    (hword : ∀ c ∈ g.word, ∀ w ∈ x.words, w.head? ≠ some c.toUpper)
    (hleft : (s ++ g.before).getLast?.any x.wordChar = false)
    (hright : (g.after ++ t).head?.any x.wordChar = false) : Part x (s ++ (g.text ++ t)) where
  trimmed := by
    rw [← List.append_assoc]
    exact hs.trimmed.append ht.trimmed g.text
  closed := (hs.closed).append (((closed_blank hbefore).append
    (hclosed.append (closed_blank hafter))).append ht.closed)
  clear := by
    have hheads : ∀ c ∈ g.text, ∀ w ∈ x.words, w.head? ≠ some c.toUpper := by
      have hblank : ∀ b, Blank b → ∀ c ∈ b, ∀ w ∈ x.words, w.head? ≠ some c.toUpper := by
        intro b hb c hc w hw hhead
        have hchar := x.letters w hw c (List.mem_of_mem_head? hhead)
        rw [x.blank c (hb c hc)] at hchar
        cases hchar
      intro c hc
      rcases List.mem_append.mp hc with hc | hc
      · exact hblank g.before hbefore c hc
      · rcases List.mem_append.mp hc with hc | hc
        · exact hword c hc
        · exact hblank g.after hafter c hc
    have hgap : Closed x.escapes g.text :=
      (closed_blank hbefore).append (hclosed.append (closed_blank hafter))
    have hapart : Apart x s (g.text ++ t) := by
      rw [Gap.text, List.append_assoc]
      exact apart_before hbefore hleft _
    have hapart' : Apart x g.text t := by
      rw [Gap.text, ← List.append_assoc]
      exact apart_after hafter hright _
    apply clearFrom_append hs.clear _ hapart
    apply clearFrom_append (clearFrom_of_heads hheads _) _ hapart'
    rw [walk_of_closed hs.closed rfl, walk_of_closed hgap rfl]
    exact clearFrom_of_clear ht.clear _

/-- Within parentheses no word cuts. -/
theorem clearFrom_deep {k : Int} (hp : 0 ≤ p.depth) (hk : 0 < k)
    (h : staysFrom x.escapes p s = true) (c : Char) :
    clearFrom x (p.raise k) (s ++ [c]) = true := by
  have hdeep : ∀ q : Place, 0 ≤ q.depth → (q.raise k).outside = false := by
    intro q hq
    have hne : (q.raise k).depth ≠ 0 := by
      have hraise : (q.raise k).depth = q.depth + k := rfl
      omega
    rw [Place.outside, decide_eq_false hne, Bool.and_false]
  induction s generalizing p with
  | nil =>
      rw [List.nil_append, clearFrom, hdeep p hp]
      rfl
  | cons d s ih =>
      rw [staysFrom, Bool.and_eq_true, decide_eq_true_eq] at h
      rw [List.cons_append, clearFrom, hdeep p hp, step_raise, ih h.1 h.2]
      rfl

theorem trimmed_inParens (s : Text) : Trimmed (inParens s) := by
  refine ⟨⟨'(', rfl, by decide⟩, ⟨')', ?_, by decide⟩⟩
  rw [inParens, ← List.cons_append, List.getLast?_concat]
  rfl

theorem part_inParens (h : Closed x.escapes s) : Part x (inParens s) where
  trimmed := trimmed_inParens s
  closed := h.inParens
  clear := by
    have hword : ∀ w ∈ x.words, wordAt x w none ('(' :: (s ++ [')'])) = false := by
      intro w hw
      rw [← Bool.not_eq_true]
      intro hat
      have hchar := wordChar_of_wordAt hw hat
      rw [x.paren] at hchar
      cases hchar
    rw [clear, inParens, clearFrom, Bool.and_eq_true]
    refine ⟨?_, ?_⟩
    · rw [Bool.not_eq_true', Bool.and_eq_false_iff]
      right
      rw [List.any_eq_false]
      intro w hw
      rw [show start.last = none from rfl, hword w hw]
      exact Bool.false_ne_true
    · have hstays : staysFrom x.escapes ⟨none, 0, some '('⟩ s = true :=
        stays_of_closed h rfl (Int.le_refl 0)
      exact clearFrom_deep (Int.le_refl 0) Int.one_pos hstays ')'

end Cut

section Parts

variable {x} {r r' : Parts}

theorem Parts.write_append (r : Parts) (g : Gap) (rest : Parts) :
    (r.append g rest).write = r.write ++ (g.text ++ rest.write) := by
  induction r with
  | one t => rfl
  | join t g' r ih =>
      rw [append, write, ih, write, List.append_assoc, List.append_assoc]

theorem Parts.trimmed_write (h : r.Sound x) : Trimmed r.write := by
  induction r with
  | one t => exact h.trimmed
  | join t g r ih =>
      have hrest := ih h.2.2
      rw [write, ← List.append_assoc]
      exact h.1.trimmed.append hrest g.text

/-- The parts can be read from the text. -/
theorem Parts.same_of_write (hr : r.Sound x) (hr' : r'.Sound x) (h : r.write = r'.write) :
    Same r r' := by
  induction r generalizing r' with
  | one t =>
      cases r' with
      | one t' =>
          rw [show t = t' from h]
          exact Same.one t'
      | join t' g' rest' =>
          have hcut := cut_join hr'.1 (trimmed_write hr'.2.2) hr'.2.1
          rw [show t' ++ (g'.text ++ rest'.write) = t from h.symm, cut_eq_none hr] at hcut
          cases hcut
  | join t g rest ih =>
      have hcut := cut_join hr.1 (trimmed_write hr.2.2) hr.2.1
      cases r' with
      | one t' =>
          rw [show t ++ (g.text ++ rest.write) = t' from h, cut_eq_none hr'] at hcut
          cases hcut
      | join t' g' rest' =>
          have hcut' := cut_join hr'.1 (trimmed_write hr'.2.2) hr'.2.1
          rw [show t' ++ (g'.text ++ rest'.write) = t ++ (g.text ++ rest.write) from h.symm,
            hcut] at hcut'
          obtain ⟨rfl, hrest⟩ := Prod.mk.inj (Option.some.inj hcut')
          obtain ⟨hword, hrest⟩ := Prod.mk.inj hrest
          exact Same.join t hword (ih hr.2.2 hr'.2.2 hrest)

end Parts

end SqlOptima.ConnectiveScan
