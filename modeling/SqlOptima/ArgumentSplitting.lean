import SqlOptima.PythonText
import SqlOptima.QuotedText
import SqlOptima.SeparatorScan

namespace SqlOptima.ArgumentSplitting

open PythonText
open QuotedText (doubled doubled_cons enclosed)
open SeparatorScan (Scanner)

/-!
# Splitting a list of arguments at its commas
-/

/-! ## The three splitters -/

inductive ArgState
  | outside (depth : Int)
  | inString (quote : Char) (depth : Int) (previous : Char)
  deriving DecidableEq

/-- The `N` of a literal opens it, so that its quote closes it again. -/
def ArgState.step : ArgState → Char → Option Char → ArgState
  | .inString quote depth previous, c, _ =>
      if c = quote ∧ previous ≠ '\\' then .outside depth else .inString quote depth c
  | .outside depth, c, next =>
      if c = 'N' then
        if next = some '\'' then .inString '\'' depth c else .outside depth
      else if c = '\'' ∨ c = '"' then .inString c depth c
      else if c = '(' then .outside (depth + 1)
      else if c = ')' then .outside (depth - 1)
      else .outside depth

def argScanner : Scanner ArgState Char where
  separator := ','
  start := .outside 0
  step := ArgState.step
  cuts := fun s c => s = .outside 0 && c = ','
  separator_of_cuts := fun s c h => of_decide_eq_true (Bool.and_eq_true_iff.mp h).2
  step_of_cuts := by
    intro s c next h
    rw [Bool.and_eq_true, decide_eq_true_eq, decide_eq_true_eq] at h
    rw [h.1, h.2]
    rfl
  step_separator := by
    intro s c
    cases s with
    | outside depth => rfl
    | inString quote depth previous => rfl

/-- The depth in parentheses, also of those in literals. -/
def parenScanner : Scanner Int Char where
  separator := ','
  start := 0
  step := fun depth c _ => if c = '(' then depth + 1 else if c = ')' then depth - 1 else depth
  cuts := fun depth c => depth = 0 && c = ','
  separator_of_cuts := fun s c h => of_decide_eq_true (Bool.and_eq_true_iff.mp h).2
  step_of_cuts := by
    intro depth c next h
    rw [Bool.and_eq_true, decide_eq_true_eq, decide_eq_true_eq] at h
    rw [h.1, h.2]
    rfl
  step_separator := fun _ _ => rfl

/-- What is made of the pieces; the last one is dropped when nothing is left of it. -/
def gather (f : Text → Text) : List Text → List Text
  | [] => []
  | [p] => if f p = [] then [] else [f p]
  | p :: q :: ps => f p :: gather f (q :: ps)

def splitArgs (argsStr : Text) : List Text := gather strip (argScanner.pieces argsStr)

/-- `_split_top_level` at a comma. -/
def splitTopLevel (s : Text) : List Text := gather id (parenScanner.pieces s)

/-- `split("=", 1)`, when the text is not blank and there are two parts. -/
def pairOf (p : Text) : List (Text × Text) :=
  if strip p ≠ [] ∧ '=' ∈ p then
    [(strip (p.takeWhile (· ≠ '=')), strip ((p.dropWhile (· ≠ '=')).drop 1))]
  else []

def splitSetPairs (updateClause : Text) : List (Text × Text) :=
  (parenScanner.pieces updateClause).flatMap pairOf

/-! ## Arguments that come back -/

def commaJoin (args : List Text) : Text := [','].intercalate args

theorem commaJoin_cons_cons (a b : Text) (args : List Text) :
    commaJoin (a :: b :: args) = a ++ ',' :: commaJoin (b :: args) := by
  rw [commaJoin, List.intercalate_cons_cons, List.append_assoc, List.singleton_append, commaJoin]

theorem commaJoin_singleton (a : Text) : commaJoin [a] = a := List.intercalate_singleton

section Gathering

variable {f : Text → Text} {args ps : List Text}

theorem gather_self (h : ∀ a ∈ args, f a = a ∧ a ≠ []) : gather f args = args := by
  induction args with
  | nil => rfl
  | cons a args ih =>
      obtain ⟨⟨ha, hne⟩, hargs⟩ := List.forall_mem_cons.mp h
      cases args with
      | nil => rw [gather, ha, if_neg hne]
      | cons b args => rw [gather, ha, ih hargs]

/-- The pieces of a joined text are its arguments, when that is what is made of them. -/
theorem eq_of_gather (hne : ps ≠ []) (hlength : ∀ p, (f p).length ≤ p.length)
    (hsame : ∀ a ∈ args, ∀ p rest rest', f p = a → p ++ ',' :: rest = a ++ ',' :: rest' → p = a)
    (hjoin : commaJoin ps = commaJoin args) (h : gather f ps = args) (hargs : args ≠ []) :
    ps = args := by
  induction args generalizing ps with
  | nil => exact absurd rfl hargs
  | cons a args ih =>
      cases ps with
      | nil => exact absurd rfl hne
      | cons p ps =>
          cases ps with
          | nil =>
              rw [gather] at h
              split at h
              · cases h
              · obtain ⟨-, rfl⟩ := List.cons.inj h
                rw [commaJoin_singleton, commaJoin_singleton] at hjoin
                rw [hjoin]
          | cons q ps =>
              rw [gather] at h
              obtain ⟨hp, hrest⟩ := List.cons.inj h
              rw [commaJoin_cons_cons] at hjoin
              cases args with
              | nil =>
                  have hle := hlength p
                  rw [commaJoin_singleton] at hjoin
                  have hlen := congrArg List.length hjoin
                  rw [List.length_append, List.length_cons] at hlen
                  rw [hp] at hle
                  omega
              | cons b args =>
                  rw [commaJoin_cons_cons] at hjoin
                  obtain rfl := hsame a List.mem_cons_self p _ _ hp hjoin
                  have htail := (List.cons.inj (List.append_cancel_left hjoin)).2
                  rw [ih (List.cons_ne_nil q ps) (fun c hc => hsame c (List.mem_cons_of_mem _ hc))
                    htail hrest (List.cons_ne_nil b args)]

end Gathering

theorem length_strip_le (p : Text) : (strip p).length ≤ p.length := by
  obtain ⟨w, w', -, -, hp⟩ := exists_blanks p
  have hlength := congrArg List.length hp
  rw [List.length_append, List.length_append] at hlength
  omega

theorem eq_of_strip {a p rest rest' : Text} (ha : Trimmed a) (hstrip : strip p = a)
    (h : p ++ ',' :: rest = a ++ ',' :: rest') : p = a := by
  obtain ⟨w, w', hw, hw', hp⟩ := exists_blanks p
  rw [hstrip] at hp
  obtain ⟨c, hc, hspace⟩ := ha.head
  obtain ⟨a, rfl⟩ : ∃ t, a = c :: t := List.head?_eq_some_iff.mp hc
  have hnil : w = [] := by
    cases w with
    | nil => rfl
    | cons d w =>
        rw [hp] at h
        obtain rfl : d = c := (List.cons.inj h).1
        rw [hw d List.mem_cons_self] at hspace
        cases hspace
  have hnil' : w' = [] := by
    cases w' with
    | nil => rfl
    | cons d w' =>
        rw [hp, hnil, List.nil_append, List.append_assoc] at h
        obtain rfl : d = ',' := (List.cons.inj (List.append_cancel_left h)).1
        exact absurd (hw' _ List.mem_cons_self) (by decide)
  rw [hp, hnil, hnil', List.nil_append, List.append_nil]

theorem splitArgs_iff {args : List Text} (hargs : ∀ a ∈ args, Trimmed a) :
    splitArgs (commaJoin args) = args ↔ argScanner.Separable args := by
  by_cases hne : args = []
  · rw [hne]
    exact iff_of_true rfl ⟨nofun, nofun⟩
  · rw [← Scanner.pieces_join_iff hne]
    constructor
    · intro h
      exact eq_of_gather (Scanner.piecesFrom_ne_nil _ _ _) length_strip_le
        (fun a ha p _ _ => eq_of_strip (hargs a ha))
        (@Scanner.join_pieces _ _ argScanner (commaJoin args)) h hne
    · intro h
      have hpieces : argScanner.pieces (commaJoin args) = args := h
      rw [splitArgs, hpieces]
      exact gather_self fun a ha => ⟨(hargs a ha).strip_eq, (hargs a ha).ne_nil⟩

theorem splitTopLevel_iff {args : List Text} (hargs : ∀ a ∈ args, a ≠ []) :
    splitTopLevel (commaJoin args) = args ↔ parenScanner.Separable args := by
  by_cases hne : args = []
  · rw [hne]
    exact iff_of_true rfl ⟨nofun, nofun⟩
  · rw [← Scanner.pieces_join_iff hne]
    constructor
    · intro h
      exact eq_of_gather (Scanner.piecesFrom_ne_nil _ _ _) (fun _ => Nat.le_refl _)
        (fun _ _ _ _ _ hp _ => hp) (@Scanner.join_pieces _ _ parenScanner (commaJoin args)) h hne
    · intro h
      have hpieces : parenScanner.pieces (commaJoin args) = args := h
      rw [splitTopLevel, hpieces]
      exact gather_self fun a ha => ⟨rfl, hargs a ha⟩

/-! ## Assignments that come back -/

/-- What follows an argument in the joined text. -/
def tailOf : List Text → Text
  | [] => []
  | a :: args => ',' :: commaJoin (a :: args)

theorem commaJoin_cons (a : Text) (args : List Text) :
    commaJoin (a :: args) = a ++ tailOf args := by
  cases args with
  | nil => rw [commaJoin_singleton, tailOf, List.append_nil]
  | cons b args => exact commaJoin_cons_cons a b args

theorem count_strip (s : Text) : (strip s).count ',' = s.count ',' := by
  obtain ⟨w, w', hw, hw', hs⟩ := exists_blanks s
  have hcount : ∀ u : Text, Blank u → u.count ',' = 0 := by
    intro u hu
    exact List.count_eq_zero.mpr fun hmem => absurd (hu ',' hmem) (by decide)
  have hall := congrArg (List.count ',') hs
  rwa [List.count_append, List.count_append, hcount w hw, hcount w' hw', Nat.zero_add,
    Nat.add_zero, eq_comm] at hall

/-- A side of an assignment is told by its stripped text, between the same beginning and a comma. -/
theorem eq_of_strip_eq {v v' : Text} {args args' : List Text} (hstrip : strip v = strip v')
    (h : v ++ tailOf args = v' ++ tailOf args') : v = v' ∧ tailOf args = tailOf args' := by
  have hcount : v.count ',' = v'.count ',' := by rw [← count_strip, hstrip, count_strip]
  have hlonger : ∀ {u t : Text} {bs : List Text},
      tailOf bs = u ++ t → u.count ',' = 0 → u = [] := by
    intro u t bs htail hzero
    cases u with
    | nil => rfl
    | cons d u =>
        cases bs with
        | nil => cases htail
        | cons b bs =>
            obtain rfl := (List.cons.inj htail).1
            rw [List.count_cons_self] at hzero
            cases hzero
  rcases List.append_eq_append_iff.mp h with ⟨u, rfl, htail⟩ | ⟨u, rfl, htail⟩
  · rw [List.count_append] at hcount
    obtain rfl := hlonger htail (by omega)
    exact ⟨(List.append_nil v).symm, htail⟩
  · rw [List.count_append] at hcount
    obtain rfl := hlonger htail (by omega)
    exact ⟨List.append_nil v', htail.symm⟩

structure Assignment where
  column : Text
  value : Text

def Assignment.text (a : Assignment) : Text := a.column ++ '=' :: a.value

def Assignment.pair (a : Assignment) : Text × Text := (strip a.column, strip a.value)

theorem pairOf_text {a : Assignment} (h : '=' ∉ a.column) : pairOf a.text = [a.pair] := by
  have hkeep : ∀ c ∈ a.column, decide (c ≠ '=') = true :=
    fun c hc => decide_eq_true fun heq => h (heq ▸ hc)
  have hmem : '=' ∈ a.text := List.mem_append_right _ List.mem_cons_self
  have hblank : strip a.text ≠ [] := by
    obtain ⟨w, w', hw, hw', hs⟩ := exists_blanks a.text
    intro hnil
    rw [hnil, List.append_nil] at hs
    rw [hs] at hmem
    rcases List.mem_append.mp hmem with hmem | hmem
    · exact absurd (hw _ hmem) (by decide)
    · exact absurd (hw' _ hmem) (by decide)
  rw [pairOf, if_pos ⟨hblank, hmem⟩, Assignment.text, List.takeWhile_append_of_pos hkeep,
    List.dropWhile_append_of_pos hkeep, List.takeWhile_cons_of_neg (by simp),
    List.dropWhile_cons_of_neg (by simp), List.append_nil, List.drop_one, List.tail_cons,
    Assignment.pair]

/-- A piece that gives a pair is an assignment, and one that gives none has no equals sign. -/
theorem pairOf_cases (p : Text) :
    (pairOf p = [] ∧ '=' ∉ p) ∨
      ∃ a : Assignment, p = a.text ∧ '=' ∉ a.column ∧ pairOf p = [a.pair] := by
  by_cases hmem : '=' ∈ p
  · obtain ⟨column, value, rfl, hcolumn⟩ := List.eq_append_cons_of_mem hmem
    exact Or.inr ⟨⟨column, value⟩, rfl, hcolumn, pairOf_text (a := ⟨column, value⟩) hcolumn⟩
  · exact Or.inl ⟨if_neg fun h => hmem h.2, hmem⟩

theorem first_equals {u u' t t' : Text} (hu : '=' ∉ u) (hu' : '=' ∉ u')
    (h : u ++ '=' :: t = u' ++ '=' :: t') : u = u' ∧ t = t' := by
  have hother : ∀ {v : Text}, '=' ∉ v → ∀ c ∈ v, decide (c ≠ '=') = true :=
    fun hv c hc => decide_eq_true fun heq => hv (heq ▸ hc)
  obtain ⟨hleft, -, hright⟩ :=
    append_stop_inj (hother hu) (hother hu') (decide_eq_false (not_not_intro rfl))
      (decide_eq_false (not_not_intro rfl)) h
  exact ⟨hleft, hright⟩

/-- The first pair comes from the first piece with an equals sign. -/
theorem exists_first_pair {ps : List Text} {e : Text × Text} {es : List (Text × Text)}
    (h : ps.flatMap pairOf = e :: es) :
    ∃ (skipped : List Text) (a : Assignment) (later : List Text),
      ps = skipped ++ a.text :: later ∧ (∀ p ∈ skipped, '=' ∉ p) ∧ '=' ∉ a.column ∧
        a.pair = e ∧ later.flatMap pairOf = es := by
  induction ps with
  | nil => cases h
  | cons p ps ih =>
      rw [List.flatMap_cons] at h
      rcases pairOf_cases p with ⟨hnone, hp⟩ | ⟨a, rfl, ha, hpair⟩
      · rw [hnone, List.nil_append] at h
        obtain ⟨skipped, a, later, rfl, hskipped, ha, he, hes⟩ := ih h
        exact ⟨p :: skipped, a, later, rfl, List.forall_mem_cons.mpr ⟨hp, hskipped⟩, ha, he, hes⟩
      · rw [hpair] at h
        obtain ⟨he, hes⟩ := List.cons.inj h
        exact ⟨[], a, ps, rfl, nofun, ha, he, hes⟩

theorem commaJoin_append (skipped : List Text) (p : Text) (later : List Text) :
    commaJoin (skipped ++ p :: later) =
      skipped.flatMap (fun q => q ++ [',']) ++ (p ++ tailOf later) := by
  induction skipped with
  | nil => exact commaJoin_cons p later
  | cons q skipped ih =>
      obtain ⟨r, rs, hrs⟩ := List.exists_cons_of_ne_nil
        (List.append_ne_nil_of_right_ne_nil skipped (List.cons_ne_nil p later))
      rw [List.cons_append, commaJoin_cons, hrs, tailOf, ← hrs, ih, List.flatMap_cons,
        List.append_assoc, List.append_assoc, List.singleton_append]

/-- The pieces of joined assignments are the assignments, when their pairs come out of them. -/
theorem eq_of_pairs {ps : List Text} {as : List Assignment} (has : ∀ a ∈ as, '=' ∉ a.column)
    (hne : as ≠ []) (hjoin : commaJoin ps = commaJoin (as.map Assignment.text))
    (h : ps.flatMap pairOf = as.map Assignment.pair) : ps = as.map Assignment.text := by
  induction as generalizing ps with
  | nil => exact absurd rfl hne
  | cons a as ih =>
      obtain ⟨hcolumn, has⟩ := List.forall_mem_cons.mp has
      obtain ⟨skipped, b, later, rfl, hskipped, hb, hpair, hlater⟩ := exists_first_pair h
      obtain ⟨hcolumns, hvalues⟩ := Prod.mk.inj hpair
      rw [commaJoin_append, List.map_cons, commaJoin_cons, Assignment.text, Assignment.text,
        List.append_assoc, ← List.append_assoc, List.append_assoc a.column, List.cons_append,
        List.cons_append] at hjoin
      have hfront : '=' ∉ skipped.flatMap (fun q => q ++ [',']) ++ b.column := by
        rw [List.mem_append, not_or]
        refine ⟨fun hmem => ?_, hb⟩
        obtain ⟨q, hq, hmem⟩ := List.mem_flatMap.mp hmem
        rcases List.mem_append.mp hmem with hmem | hmem
        · exact hskipped q hq hmem
        · exact absurd (List.mem_singleton.mp hmem) (by decide)
      obtain ⟨hleft, hright⟩ := first_equals hfront hcolumn hjoin
      -- a skipped piece would leave its comma in the column
      have hnone : skipped = [] := by
        have hcount : b.column.count ',' = a.column.count ',' := by
          rw [← count_strip, hcolumns, count_strip]
        cases skipped with
        | nil => rfl
        | cons q skipped =>
            have hcommas := congrArg (List.count ',') hleft
            rw [List.flatMap_cons, List.count_append, List.count_append, List.count_append,
              List.count_singleton_self] at hcommas
            omega
      obtain rfl := hnone
      obtain ⟨hvalue, htail⟩ := eq_of_strip_eq hvalues hright
      have heq : b = a := by
        cases a
        cases b
        exact congrArg₂ Assignment.mk hleft hvalue
      rw [List.nil_append, List.map_cons, heq]
      cases as with
      | nil =>
          cases later with
          | nil => rfl
          | cons q later => cases htail
      | cons c as =>
          cases later with
          | nil => cases htail
          | cons q later =>
              exact congrArg (a.text :: ·)
                (ih has (List.cons_ne_nil c as) (List.cons.inj htail).2 hlater)

theorem splitSetPairs_iff {as : List Assignment} (has : ∀ a ∈ as, '=' ∉ a.column) :
    splitSetPairs (commaJoin (as.map Assignment.text)) = as.map Assignment.pair ↔
      parenScanner.Separable (as.map Assignment.text) := by
  by_cases hne : as = []
  · rw [hne]
    exact iff_of_true rfl ⟨nofun, nofun⟩
  · rw [← Scanner.pieces_join_iff (List.map_eq_nil_iff.not.mpr hne)]
    constructor
    · intro h
      exact eq_of_pairs has hne
        (@Scanner.join_pieces _ _ parenScanner (commaJoin (as.map Assignment.text))) h
    · intro h
      have hpieces : parenScanner.pieces (commaJoin (as.map Assignment.text)) =
          as.map Assignment.text := h
      rw [splitSetPairs, hpieces]
      clear h hpieces hne
      induction as with
      | nil => rfl
      | cons a as ih =>
          obtain ⟨ha, has⟩ := List.forall_mem_cons.mp has
          rw [List.map_cons, List.flatMap_cons, pairOf_text ha, ih has, List.map_cons,
            List.singleton_append]

/-! ## Arguments of SQL -/

/-- A text in quotes, by its value, or another character. -/
inductive Token
  | quoted (quote : Char) (value : Text)
  | mark (c : Char)
  deriving DecidableEq

def Token.text : Token → Text
  | .quoted quote value => enclosed quote quote value
  | .mark c => [c]

def textOf (tokens : List Token) : Text := tokens.flatMap Token.text

def IsQuote (c : Char) : Prop := c = '\'' ∨ c = '"'

instance (c : Char) : Decidable (IsQuote c) := inferInstanceAs (Decidable (_ ∨ _))

/-- Quotes stand around literals and quoted names only. -/
def Token.Valid : Token → Prop
  | .quoted quote _ => IsQuote quote
  | .mark c => ¬ IsQuote c

instance : (t : Token) → Decidable t.Valid
  | .quoted quote _ => inferInstanceAs (Decidable (IsQuote quote))
  | .mark c => inferInstanceAs (Decidable (¬ IsQuote c))

/-- The open parentheses after the tokens, unless one is closed that is not open, or a comma stands
in none. -/
def depthAfter : Nat → List Token → Option Nat
  | depth, [] => some depth
  | depth, .quoted _ _ :: tokens => depthAfter depth tokens
  | depth, .mark c :: tokens =>
      if c = '(' then depthAfter (depth + 1) tokens
      else if c = ')' then if depth = 0 then none else depthAfter (depth - 1) tokens
      else if c = ',' ∧ depth = 0 then none
      else depthAfter depth tokens

/-- An argument: complete literals, balanced parentheses, and commas only in them. -/
structure WellFormed (a : List Token) : Prop where
  valid : ∀ t ∈ a, t.Valid
  balanced : depthAfter 0 a = some 0
  trimmed : Trimmed (textOf a)

def opensLiteral : List Token → Bool
  | .quoted quote _ :: _ => quote = '\''
  | _ => false

/-- A literal comes directly after an `N`. -/
def prefixed : List Token → Bool
  | [] => false
  | t :: tokens => (t = .mark 'N' && opensLiteral tokens) || prefixed tokens

/-- No quote in the value, and not the closing one, comes directly after a backslash. -/
def Token.Unescaped : Token → Prop
  | .quoted quote value => ¬ ['\\', quote] <:+: value ++ [quote]
  | .mark _ => True

instance : (t : Token) → Decidable t.Unescaped
  | .quoted quote value => inferInstanceAs (Decidable (¬ ['\\', quote] <:+: value ++ [quote]))
  | .mark _ => isTrue trivial

/-- No literal has a prefix, and none a quote after a backslash. -/
structure Plain (a : List Token) : Prop where
  unprefixed : prefixed a = false
  unescaped : ∀ t ∈ a, t.Unescaped

/-- Nothing but the prefix of a literal can mislead: there are no backslashes and double quotes, and
no value has an `N` before a quote. -/
structure Ordinary (a : List Token) : Prop where
  noBackslash : '\\' ∉ textOf a
  noDoubleQuote : '"' ∉ textOf a
  noInnerN : ∀ value, .quoted '\'' value ∈ a → ¬ ['N', '\''] <:+: value ++ ['\'']

/-- With the parentheses in literals, every comma stands in unbalanced ones, and every argument but
the last is balanced. -/
structure Covered (args : List Text) : Prop where
  commas : ∀ a ∈ args, ∀ before later, a = before ++ ',' :: later →
    before.count '(' ≠ before.count ')'
  balanced : ∀ a ∈ args.dropLast, a.count '(' = a.count ')'

/-! ## The scan of plain arguments -/

section Tokens

variable {quote c : Char} {value rest : Text} {t : Token} {tokens : List Token} {depth : Int}

theorem textOf_cons (t : Token) (tokens : List Token) :
    textOf (t :: tokens) = t.text ++ textOf tokens := rfl

theorem head_textOf (h : ∀ t ∈ tokens, t.Valid) :
    (textOf tokens).head? = some '\'' ↔ opensLiteral tokens = true := by
  cases tokens with
  | nil => exact iff_of_false nofun Bool.false_ne_true
  | cons t tokens =>
      cases t with
      | quoted quote value => simp [textOf_cons, Token.text, enclosed, opensLiteral]
      | mark c =>
          have hc : ¬ IsQuote c := h _ List.mem_cons_self
          refine iff_of_false (fun hhead => hc (Or.inl ?_)) Bool.false_ne_true
          exact Option.some.inj hhead

theorem step_quote (h : IsQuote quote) (depth : Int) (next : Option Char) :
    argScanner.step (.outside depth) quote next = .inString quote depth quote := by
  rcases h with rfl | rfl
  · rfl
  · rfl

theorem cuts_quote (h : IsQuote quote) (s : ArgState) : argScanner.cuts s quote = false := by
  rcases h with rfl | rfl
  · exact Bool.and_false _
  · exact Bool.and_false _

theorem cuts_inString (quote : Char) (depth : Int) (previous c : Char) :
    argScanner.cuts (.inString quote depth previous) c = false := rfl

theorem step_inString_quote {previous : Char} (h : previous ≠ '\\') (quote : Char) (depth : Int)
    (next : Option Char) :
    argScanner.step (.inString quote depth previous) quote next = .outside depth :=
  if_pos ⟨rfl, h⟩

theorem step_inString (h : c ≠ quote) (depth : Int) (previous : Char) (next : Option Char) :
    argScanner.step (.inString quote depth previous) c next = .inString quote depth c :=
  if_neg fun hboth => h hboth.1

/-- A value without a quote after a backslash is read to its end. -/
theorem reaches_value (hquote : IsQuote quote) {previous : Char}
    (h : ¬ ['\\', quote] <:+: previous :: (value ++ [quote])) (depth : Int) (rest : Text) :
    argScanner.Reaches (.inString quote depth previous) (doubled quote value ++ quote :: rest)
      (.outside depth) rest := by
  induction value generalizing previous with
  | nil =>
      have hprevious : previous ≠ '\\' := by
        rintro rfl
        exact h (List.infix_refl _)
      have hstep := @Scanner.reaches_cons _ _ argScanner (.inString quote depth previous) quote
        (cuts_inString _ _ _ _) rest
      rwa [step_inString_quote hprevious] at hstep
  | cons c value ih =>
      have htail : ¬ ['\\', quote] <:+: c :: (value ++ [quote]) :=
        fun hin => h (hin.trans (List.suffix_cons _ _).isInfix)
      rw [doubled_cons, List.append_assoc]
      by_cases hc : c = quote
      · have hprevious : previous ≠ '\\' := by
          rintro rfl
          rw [hc] at h
          exact h ⟨[], value ++ [quote], rfl⟩
        rw [if_pos hc]
        have hclose := @Scanner.reaches_cons _ _ argScanner (.inString quote depth previous) quote
          (cuts_inString _ _ _ _) (quote :: (doubled quote value ++ quote :: rest))
        have hopen := @Scanner.reaches_cons _ _ argScanner (.outside depth) quote
          (cuts_quote hquote _) (doubled quote value ++ quote :: rest)
        rw [step_inString_quote hprevious] at hclose
        rw [step_quote hquote] at hopen
        rw [hc] at htail
        exact (hclose.trans hopen).trans (ih htail)
      · rw [if_neg hc]
        have hstep := @Scanner.reaches_cons _ _ argScanner (.inString quote depth previous) c
          (cuts_inString _ _ _ _) (doubled quote value ++ quote :: rest)
        rw [step_inString hc] at hstep
        exact hstep.trans (ih htail)

theorem reaches_quoted (hvalid : Token.Valid (.quoted quote value))
    (h : Token.Unescaped (.quoted quote value)) (depth : Int) (rest : Text) :
    argScanner.Reaches (.outside depth) (Token.text (.quoted quote value) ++ rest)
      (.outside depth) rest := by
  have hvalue : ¬ ['\\', quote] <:+: quote :: (value ++ [quote]) := by
    rw [List.infix_cons_iff]
    rintro (⟨tail, htail⟩ | hin)
    · obtain ⟨rfl, -⟩ := List.cons.inj htail
      have hquote : IsQuote '\\' := hvalid
      exact absurd hquote (by decide)
    · exact h hin
  have hopen := @Scanner.reaches_cons _ _ argScanner (.outside depth) quote (cuts_quote hvalid _)
    (doubled quote value ++ quote :: rest)
  rw [step_quote hvalid] at hopen
  have hread := hopen.trans (reaches_value hvalid hvalue depth rest)
  rwa [Token.text, enclosed, List.cons_append, List.append_assoc, List.singleton_append]

/-- What a character outside of quotes does to the depth. -/
def shift (depth : Int) (c : Char) : Int :=
  if c = '(' then depth + 1 else if c = ')' then depth - 1 else depth

theorem step_mark (hc : ¬ IsQuote c) {next : Option Char} (h : ¬ (c = 'N' ∧ next = some '\''))
    (depth : Int) : argScanner.step (.outside depth) c next = .outside (shift depth c) := by
  have hstep : argScanner.step = ArgState.step := rfl
  rw [hstep, ArgState.step, shift]
  by_cases hn : c = 'N'
  · rw [if_pos hn, if_neg fun hnext => h ⟨hn, hnext⟩, hn]
    rfl
  · rw [if_neg hn, if_neg (show ¬ (c = '\'' ∨ c = '"') from hc)]
    split
    · rfl
    · split
      · rfl
      · rfl

theorem cuts_outside {depth : Nat} (h : ¬ (c = ',' ∧ depth = 0)) :
    argScanner.cuts (.outside depth) c = false := by
  have hcuts : argScanner.cuts (.outside depth) c =
      (decide (ArgState.outside depth = .outside 0) && decide (c = ',')) := rfl
  rw [hcuts, Bool.and_eq_false_iff]
  by_cases hcomma : c = ','
  · refine Or.inl (decide_eq_false fun heq => h ⟨hcomma, ?_⟩)
    exact Int.ofNat_eq_zero.mp (ArgState.outside.inj heq)
  · exact Or.inr (decide_eq_false hcomma)

/-- A character of balanced tokens is no comma outside of parentheses, and shifts the depth. -/
theorem depthAfter_mark {depth depth' : Nat}
    (h : depthAfter depth (.mark c :: tokens) = some depth') :
    ¬ (c = ',' ∧ depth = 0) ∧
      ∃ next : Nat, (next : Int) = shift depth c ∧ depthAfter next tokens = some depth' := by
  rw [depthAfter] at h
  rw [shift]
  by_cases hopen : c = '('
  · rw [if_pos hopen] at h ⊢
    refine ⟨?_, depth + 1, rfl, h⟩
    rintro ⟨rfl, -⟩
    cases hopen
  · rw [if_neg hopen] at h ⊢
    by_cases hclose : c = ')'
    · rw [if_pos hclose] at h ⊢
      split at h
      · cases h
      · next hpos =>
          refine ⟨?_, depth - 1, by omega, h⟩
          rintro ⟨rfl, -⟩
          cases hclose
    · rw [if_neg hclose] at h ⊢
      split at h
      · cases h
      · next hcomma => exact ⟨hcomma, depth, rfl, h⟩

/-- The scan of a plain argument keeps to its tokens. -/
theorem scan_plain {depth depth' : Nat} (hvalid : ∀ t ∈ tokens, t.Valid) (hplain : Plain tokens)
    (h : depthAfter depth tokens = some depth') :
    argScanner.Reaches (.outside depth) (textOf tokens) (.outside depth') [] := by
  induction tokens generalizing depth with
  | nil =>
      obtain rfl := Option.some.inj h
      exact ⟨rfl, id⟩
  | cons t tokens ih =>
      obtain ⟨ht, hvalids⟩ := List.forall_mem_cons.mp hvalid
      obtain ⟨hunescaped, hrest⟩ := List.forall_mem_cons.mp hplain.unescaped
      have hunprefixed := Bool.or_eq_false_iff.mp hplain.unprefixed
      have htail : Plain tokens := ⟨hunprefixed.2, hrest⟩
      rw [textOf_cons]
      cases t with
      | quoted quote value =>
          exact (reaches_quoted ht hunescaped depth _).trans (ih hvalids htail h)
      | mark c =>
          have hnext : ¬ (c = 'N' ∧ (textOf tokens).head? = some '\'') := by
            rintro ⟨rfl, hhead⟩
            have hfirst := hunprefixed.1
            rw [(head_textOf hvalids).mp hhead] at hfirst
            exact absurd hfirst (by decide)
          obtain ⟨hcomma, next, hshift, hlater⟩ := depthAfter_mark h
          have hstep := Scanner.reaches_cons (cuts_outside hcomma) (textOf tokens)
          rw [step_mark ht hnext, ← hshift] at hstep
          exact Scanner.Reaches.trans hstep (ih hvalids htail hlater)

/-! ## The scan after a prefix -/

theorem mem_doubled (h : c ∈ value) (quote : Char) : c ∈ doubled quote value := by
  refine List.mem_flatMap.mpr ⟨c, h, ?_⟩
  split
  · next heq =>
      rw [heq]
      exact List.mem_cons_self
  · exact List.mem_cons_self

theorem mem_quoted_text (h : c ∈ value) (quote : Char) :
    c ∈ Token.text (.quoted quote value) :=
  List.mem_cons_of_mem _ (List.mem_append_left _ (mem_doubled h quote))

theorem Ordinary.tail (h : Ordinary (t :: tokens)) : Ordinary tokens where
  noBackslash := fun hmem => h.noBackslash (List.mem_append_right _ hmem)
  noDoubleQuote := fun hmem => h.noDoubleQuote (List.mem_append_right _ hmem)
  noInnerN := fun value hmem => h.noInnerN value (List.mem_cons_of_mem _ hmem)

theorem Ordinary.head (h : Ordinary (t :: tokens)) {d : Char} (hd : d ∈ t.text) :
    d ≠ '\\' ∧ d ≠ '"' := by
  refine ⟨?_, ?_⟩
  · rintro rfl
    exact h.noBackslash (List.mem_append_left _ hd)
  · rintro rfl
    exact h.noDoubleQuote (List.mem_append_left _ hd)

theorem Ordinary.quote_eq (h : Ordinary (.quoted quote value :: tokens))
    (hvalid : Token.Valid (.quoted quote value)) : quote = '\'' := by
  rcases hvalid with rfl | rfl
  · rfl
  · exact absurd rfl (h.head List.mem_cons_self).2

/-- Where the scan takes the opening quote for a closing one, it reads the value as code and takes
the closing quote for an opening one. -/
theorem after_value (hvalue : ∀ d ∈ value, d ≠ '"') (h : ¬ ['N', '\''] <:+: value ++ ['\''])
    (depth : Int) (rest : Text) : ∃ depth',
      argScanner.after (.outside depth) (doubled '\'' value ++ '\'' :: rest) =
        argScanner.after (.inString '\'' depth' '\'') rest := by
  induction value generalizing depth with
  | nil =>
      refine ⟨depth, ?_⟩
      rw [QuotedText.doubled_nil, List.nil_append, Scanner.after, step_quote (Or.inl rfl)]
  | cons c value ih =>
      obtain ⟨hc, hvalues⟩ := List.forall_mem_cons.mp hvalue
      have hnext := ih hvalues fun hin => h (hin.trans (List.suffix_cons c _).isInfix)
      rw [doubled_cons, List.append_assoc]
      by_cases hquote : c = '\''
      · rw [if_pos hquote, List.cons_append, List.singleton_append, Scanner.after,
          step_quote (Or.inl rfl), Scanner.after, step_inString_quote (by decide)]
        exact hnext depth
      · have hhead : ¬ (c = 'N' ∧ (doubled '\'' value ++ '\'' :: rest).head? = some '\'') := by
          rintro ⟨rfl, hhead⟩
          cases value with
          | nil => exact h (List.infix_refl _)
          | cons d value =>
              rw [doubled_cons] at hhead
              split at hhead
              · next hd => exact h ⟨[], value ++ ['\''], by rw [hd]; rfl⟩
              · next hd => exact hd (Option.some.inj hhead)
        have hmark : ¬ IsQuote c := fun hboth => hboth.elim hquote hc
        rw [if_neg hquote, List.singleton_append, Scanner.after, step_mark hmark hhead]
        exact hnext (shift depth c)

/-- Once out of step, the scan stays so: an argument ends in what it takes for a string. -/
theorem after_flipped (hvalid : ∀ t ∈ tokens, t.Valid) (hordinary : Ordinary tokens) (depth : Int)
    {previous : Char} (hprevious : previous ≠ '\\') : ∃ depth' previous',
      argScanner.after (.inString '\'' depth previous) (textOf tokens) =
        .inString '\'' depth' previous' := by
  induction tokens generalizing depth previous with
  | nil => exact ⟨depth, previous, rfl⟩
  | cons t tokens ih =>
      obtain ⟨ht, hvalids⟩ := List.forall_mem_cons.mp hvalid
      rw [textOf_cons]
      cases t with
      | quoted quote value =>
          obtain rfl := hordinary.quote_eq ht
          obtain ⟨depth', heq⟩ := after_value
            (fun d hd => (hordinary.head (mem_quoted_text hd _)).2)
            (hordinary.noInnerN value List.mem_cons_self) depth (textOf tokens)
          rw [Token.text, enclosed, List.cons_append, List.append_assoc, List.singleton_append,
            Scanner.after, step_inString_quote hprevious, heq]
          exact ih hvalids hordinary.tail depth' (by decide)
      | mark c =>
          have hc : ¬ IsQuote c := ht
          rw [Token.text, List.singleton_append, Scanner.after,
            step_inString fun heq => hc (Or.inl heq)]
          exact ih hvalids hordinary.tail depth (hordinary.head List.mem_cons_self).1

theorem after_prefixed (hvalid : ∀ t ∈ tokens, t.Valid) (hordinary : Ordinary tokens)
    (h : prefixed tokens = true) (depth : Int) : ∃ depth' previous',
      argScanner.after (.outside depth) (textOf tokens) = .inString '\'' depth' previous' := by
  induction tokens generalizing depth with
  | nil => cases h
  | cons t tokens ih =>
      obtain ⟨ht, hvalids⟩ := List.forall_mem_cons.mp hvalid
      rw [prefixed, Bool.or_eq_true, Bool.and_eq_true, decide_eq_true_eq] at h
      rw [textOf_cons]
      by_cases hfirst : t = .mark 'N' ∧ opensLiteral tokens = true
      · obtain ⟨rfl, hopens⟩ := hfirst
        rw [Token.text, List.singleton_append, Scanner.after, (head_textOf hvalids).mpr hopens]
        exact after_flipped hvalids hordinary.tail depth (by decide)
      · have hlater := h.resolve_left hfirst
        cases t with
        | quoted quote value =>
            have hunescaped : Token.Unescaped (.quoted quote value) := by
              rintro ⟨left, right, heq⟩
              have hmem : '\\' ∈ value ++ [quote] := by simp [← heq]
              rcases List.mem_append.mp hmem with hin | hin
              · exact (hordinary.head (mem_quoted_text hin quote)).1 rfl
              · have hquote : IsQuote quote := ht
                rw [← List.mem_singleton.mp hin] at hquote
                exact absurd hquote (by decide)
            rw [(reaches_quoted ht hunescaped depth _).after_eq]
            exact ih hvalids hordinary.tail hlater depth
        | mark c =>
            have hnext : ¬ (c = 'N' ∧ (textOf tokens).head? = some '\'') := by
              rintro ⟨rfl, hhead⟩
              exact hfirst ⟨rfl, (head_textOf hvalids).mp hhead⟩
            rw [Token.text, List.singleton_append, Scanner.after, step_mark ht hnext]
            exact ih hvalids hordinary.tail hlater _

end Tokens

theorem separable_of_plain {args : List (List Token)} (hargs : ∀ a ∈ args, WellFormed a)
    (hplain : ∀ a ∈ args, Plain a) : argScanner.Separable (args.map textOf) := by
  have hscan : ∀ p ∈ args.map textOf,
      argScanner.Uncut (.outside 0) p ∧ argScanner.after (.outside 0) p = .outside 0 := by
    intro p hp
    obtain ⟨a, ha, rfl⟩ := List.mem_map.mp hp
    have hreach := scan_plain (hargs a ha).valid (hplain a ha) (hargs a ha).balanced
    exact ⟨hreach.uncut trivial, hreach.after_eq⟩
  refine ⟨fun p hp => (hscan p hp).1, fun p hp => ?_⟩
  have hafter := (hscan p (List.dropLast_subset _ hp)).2
  change argScanner.cuts (argScanner.after (.outside 0) p) ',' = true
  rw [hafter]
  rfl

theorem unprefixed_of_separable {args : List (List Token)} (hargs : ∀ a ∈ args, WellFormed a)
    (hordinary : ∀ a ∈ args, Ordinary a) (h : argScanner.Separable (args.map textOf)) :
    ∀ a ∈ args.dropLast, prefixed a = false := by
  intro a ha
  have hmem := List.dropLast_subset _ ha
  rw [Bool.eq_false_iff]
  intro hprefixed
  obtain ⟨depth, previous, heq⟩ :=
    after_prefixed (hargs a hmem).valid (hordinary a hmem) hprefixed 0
  have hclosed := h.2 (textOf a) (List.map_dropLast ▸ List.mem_map_of_mem ha)
  have hcut : argScanner.cuts (argScanner.after (.outside 0) (textOf a)) ',' = true := hclosed
  rw [heq] at hcut
  cases hcut

/-! ## Splitters that count parentheses -/

theorem paren_after (depth : Int) (s : Text) :
    parenScanner.after depth s = depth + s.count '(' - s.count ')' := by
  induction s generalizing depth with
  | nil => simp [Scanner.after]
  | cons c s ih =>
      have hstep : parenScanner.step depth c s.head? = shift depth c := rfl
      rw [Scanner.after, hstep, ih, shift, List.count_cons, List.count_cons]
      by_cases hopen : c = '('
      · simp [hopen]
        omega
      · by_cases hclose : c = ')'
        · simp [hclose]
          omega
        · simp [hopen, hclose]

theorem paren_uncut_iff (depth : Int) (s : Text) :
    parenScanner.Uncut depth s ↔ ∀ before later, s = before ++ ',' :: later →
      depth + before.count '(' - before.count ')' ≠ 0 := by
  induction s generalizing depth with
  | nil => exact iff_of_true trivial fun before later heq => by simp at heq
  | cons c s ih =>
      have hstep : parenScanner.step depth c s.head? = shift depth c := rfl
      have hcount : ∀ before : Text, shift depth c + before.count '(' - before.count ')' =
          depth + (c :: before).count '(' - (c :: before).count ')' := by
        intro before
        have hall := paren_after depth (c :: before)
        rw [Scanner.after, paren_after] at hall
        exact hall
      rw [Scanner.Uncut, hstep, ih]
      constructor
      · rintro ⟨hcut, hrest⟩ before later heq
        cases before with
        | nil =>
            obtain ⟨rfl, -⟩ := List.cons.inj heq
            have hne : ¬ depth = 0 := by
              rintro rfl
              cases hcut
            simpa using hne
        | cons d before =>
            obtain ⟨rfl, htail⟩ := List.cons.inj heq
            rw [← hcount]
            exact hrest before later htail
      · intro h
        refine ⟨Bool.eq_false_iff.mpr fun hcut => ?_, fun before later heq => ?_⟩
        · obtain ⟨hdepth, hcomma⟩ := Bool.and_eq_true_iff.mp hcut
          have hzero := h [] s (congrArg (· :: s) (of_decide_eq_true hcomma))
          rw [of_decide_eq_true hdepth] at hzero
          exact hzero rfl
        · rw [hcount]
          exact h (c :: before) later (congrArg (c :: ·) heq)

theorem separable_iff_covered {args : List Text} :
    parenScanner.Separable args ↔ Covered args := by
  have hclosed : ∀ a, parenScanner.Closed a ↔ a.count '(' = a.count ')' := by
    intro a
    change (decide (parenScanner.after 0 a = 0) && true) = true ↔ _
    rw [Bool.and_true, decide_eq_true_eq, paren_after]
    omega
  have huncut : ∀ a, parenScanner.Uncut parenScanner.start a ↔
      ∀ before later, a = before ++ ',' :: later → before.count '(' ≠ before.count ')' := by
    intro a
    refine (paren_uncut_iff 0 a).trans (forall₃_congr fun before later _ => ?_)
    omega
  constructor
  · rintro ⟨hall, hlast⟩
    exact ⟨fun a ha => (huncut a).mp (hall a ha), fun a ha => (hclosed a).mp (hlast a ha)⟩
  · rintro ⟨hall, hlast⟩
    exact ⟨fun a ha => (huncut a).mpr (hall a ha), fun a ha => (hclosed a).mpr (hlast a ha)⟩

/-- Plain arguments come back from the splitter that knows literals, and a prefixed literal that is
not in the last one keeps them from coming back; from the two others those come back whose commas
and ends the parentheses cover, with those in literals. -/
theorem splitting_exact_iff {args : List (List Token)} {as : List Assignment}
    (hargs : ∀ a ∈ args, WellFormed a) (has : ∀ a ∈ as, '=' ∉ a.column)
    (_ : ∀ a ∈ args, Ascii (textOf a)) (_ : ∀ a ∈ as, Ascii a.text) :
    ((∀ a ∈ args, Plain a) → splitArgs (commaJoin (args.map textOf)) = args.map textOf) ∧
      ((∀ a ∈ args, Ordinary a) → splitArgs (commaJoin (args.map textOf)) = args.map textOf →
        ∀ a ∈ args.dropLast, prefixed a = false) ∧
      (splitTopLevel (commaJoin (args.map textOf)) = args.map textOf ↔
        Covered (args.map textOf)) ∧
      (splitSetPairs (commaJoin (as.map Assignment.text)) = as.map Assignment.pair ↔
        Covered (as.map Assignment.text)) := by
  have htrimmed : ∀ a ∈ args.map textOf, Trimmed a := by
    intro p hp
    obtain ⟨a, ha, rfl⟩ := List.mem_map.mp hp
    exact (hargs a ha).trimmed
  rw [splitArgs_iff htrimmed, splitTopLevel_iff fun a ha => (htrimmed a ha).ne_nil,
    splitSetPairs_iff has, separable_iff_covered, separable_iff_covered]
  exact ⟨separable_of_plain hargs, fun hordinary => unprefixed_of_separable hargs hordinary,
    Iff.rfl, Iff.rfl⟩

/-- `'it''s (a, b)'` and `f('c', d)` -/
def sampleArgs : List (List Token) :=
  [[.quoted '\'' "it's (a, b)".toList],
    [.mark 'f', .mark '(', .quoted '\'' "c".toList, .mark ',', .mark ' ', .mark 'd', .mark ')']]

def sampleAssignments : List Assignment :=
  [⟨"x".toList, "f(1, 2)".toList⟩, ⟨"y".toList, "'('".toList⟩]

theorem sampleArgs_wellFormed : ∀ a ∈ sampleArgs, WellFormed a := by
  intro a ha
  rcases List.mem_pair.mp ha with rfl | rfl
  · exact ⟨by decide, rfl, ⟨'\'', rfl, by decide⟩, ⟨'\'', rfl, by decide⟩⟩
  · exact ⟨by decide, rfl, ⟨'f', rfl, by decide⟩, ⟨')', rfl, by decide⟩⟩

theorem sampleArgs_plain : ∀ a ∈ sampleArgs, Plain a := by
  have hprefixed : ∀ a ∈ sampleArgs, prefixed a = false := by decide
  have hescaped : ∀ a ∈ sampleArgs, ∀ t ∈ a, t.Unescaped := by decide +kernel
  exact fun a ha => ⟨hprefixed a ha, hescaped a ha⟩

theorem sample_splitting :
    splitArgs (commaJoin (sampleArgs.map textOf)) = sampleArgs.map textOf ∧
      (splitSetPairs (commaJoin (sampleAssignments.map Assignment.text)) =
        sampleAssignments.map Assignment.pair ↔
          Covered (sampleAssignments.map Assignment.text)) := by
  have hcolumns : ∀ a ∈ sampleAssignments, '=' ∉ a.column := by decide
  have hargs : ∀ a ∈ sampleArgs, Ascii (textOf a) := by decide
  have hassignments : ∀ a ∈ sampleAssignments, Ascii a.text := by decide
  have hsample := splitting_exact_iff sampleArgs_wellFormed hcolumns hargs hassignments
  exact ⟨hsample.1 sampleArgs_plain, hsample.2.2.2⟩

/-- `N'a'` and `f('b', c)` -/
def prefixedArgs : List (List Token) :=
  [[.mark 'N', .quoted '\'' "a".toList],
    [.mark 'f', .mark '(', .quoted '\'' "b".toList, .mark ',', .mark ' ', .mark 'c', .mark ')']]

def commaLiteral : List Token := [.quoted '\'' "a,b".toList]

theorem commaLiteral_wellFormed : WellFormed commaLiteral :=
  ⟨by decide, rfl, ⟨'\'', rfl, by decide⟩, ⟨'\'', rfl, by decide⟩⟩

theorem prefixedArgs_wellFormed : ∀ a ∈ prefixedArgs, WellFormed a := by
  intro a ha
  rcases List.mem_pair.mp ha with rfl | rfl
  · exact ⟨by decide, rfl, ⟨'N', rfl, by decide⟩, ⟨'\'', rfl, by decide⟩⟩
  · exact ⟨by decide, rfl, ⟨'f', rfl, by decide⟩, ⟨')', rfl, by decide⟩⟩

/-- A literal with a prefix takes the next argument along; one with a comma is cut inside. -/
theorem literals_torn :
    (∀ a ∈ prefixedArgs, WellFormed a) ∧
      splitArgs (commaJoin (prefixedArgs.map textOf)) ≠ prefixedArgs.map textOf ∧
      WellFormed commaLiteral ∧
      splitTopLevel (commaJoin [textOf commaLiteral]) ≠ [textOf commaLiteral] ∧
      splitSetPairs (Assignment.text ⟨"x".toList, textOf commaLiteral⟩) ≠
        [Assignment.pair ⟨"x".toList, textOf commaLiteral⟩] :=
  ⟨prefixedArgs_wellFormed, by decide, commaLiteral_wellFormed, by decide, by decide⟩

end SqlOptima.ArgumentSplitting
