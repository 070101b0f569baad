import SqlOptima.PythonText

namespace SqlOptima.PostgresLexing

open PythonText

/-!
# Where a text is code

PostgreSQL's lexer over a text cut at the characters that are no word characters: literals, quoted
names and comments are told from code.
-/

/-- A run of word characters, or none, and the other character after it. -/
structure Segment where
  word : Text
  mark : Char

section Segments

variable (isWord : Char → Bool)

def segments (current : Text) : Text → List Segment × Text
  | [] => ([], current)
  | c :: rest =>
      if isWord c then segments (current ++ [c]) rest
      else (⟨current, c⟩ :: (segments [] rest).1, (segments [] rest).2)

def render : List Segment → Text → Text
  | [], last => last
  | g :: gs, last => g.word ++ g.mark :: render gs last

variable {isWord}

theorem render_segments (current sql : Text) :
    render (segments isWord current sql).1 (segments isWord current sql).2 =
      current ++ sql := by
  induction sql generalizing current with
  | nil => exact (List.append_nil current).symm
  | cons c rest ih =>
      rw [segments]
      split
      · rw [ih, List.append_assoc, List.singleton_append]
      · rw [render, ih, List.nil_append]

theorem segments_word {current : Text} (h : ∀ c ∈ current, isWord c = true) (sql : Text) :
    (∀ g ∈ (segments isWord current sql).1,
      (∀ c ∈ g.word, isWord c = true) ∧ isWord g.mark = false) ∧
      ∀ c ∈ (segments isWord current sql).2, isWord c = true := by
  induction sql generalizing current with
  | nil => exact ⟨nofun, h⟩
  | cons c rest ih =>
      rw [segments]
      split
      · next hc =>
          refine ih fun d hd => ?_
          rcases List.mem_append.mp hd with hd | hd
          · exact h d hd
          · rw [List.mem_singleton.mp hd]
            exact hc
      · next hc =>
          obtain ⟨hall, hlast⟩ := @ih [] nofun
          exact ⟨List.forall_mem_cons.mpr ⟨⟨h, Bool.eq_false_iff.mpr hc⟩, hall⟩, hlast⟩

end Segments

/-- Where PostgreSQL's lexer stands: `paired` and `escaped` within a literal, after a quote that
another follows and after a backslash; `opening` and `closing` within a sign of a comment. -/
inductive Place
  | code
  | literal (escapes : Bool)
  | paired (escapes : Bool)
  | escaped
  | quoted
  | line
  | opening (depth : Nat)
  | block (depth : Nat)
  | closing (depth : Nat)
  deriving DecidableEq

def literalStep (escapes : Bool) (c : Char) (next : Option Char) : Place :=
  if c = '\'' then
    if next = some '\'' then .paired escapes else .code
  else if escapes ∧ c = '\\' then .escaped
  else .literal escapes

/-- The place after a word, which may be empty, and another character. -/
def Place.step (word : Text) (c : Char) (next : Option Char) : Place → Place
  | .code =>
      if c = '\'' then .literal (word = ['E'] || word = ['e'])
      else if c = '"' then .quoted
      else if c = '-' ∧ next = some '-' then .line
      else if c = '/' ∧ next = some '*' then .opening 0
      else .code
  | .literal escapes => literalStep escapes c next
  | .paired escapes => .literal escapes
  | .escaped => if word = [] then .literal true else literalStep true c next
  | .quoted => if c = '"' then .code else .quoted
  | .line => if c = '\n' then .code else .line
  | .opening depth => .block depth
  | .block depth =>
      if c = '/' ∧ next = some '*' then .opening (depth + 1)
      else if c = '*' ∧ next = some '/' then .closing depth
      else .block depth
  | .closing depth => if depth = 0 then .code else .block (depth - 1)

/-- Which characters stand in code, a sign that ends it counted in. -/
def codeFrom : Place → List Segment → Text → List Bool
  | place, [], last => last.map fun _ => place = .code
  | place, g :: gs, last =>
      g.word.map (fun _ => decide (place = .code)) ++ decide (place = .code) ::
        codeFrom (place.step g.word g.mark (render gs last).head?) gs last

def inCode (sql : Text) : List Bool :=
  codeFrom .code (segments isWord [] sql).1 (segments isWord [] sql).2

def placeFrom : Place → List Segment → Text → Place
  | place, [], _ => place
  | place, g :: gs, last =>
      placeFrom (place.step g.word g.mark (render gs last).head?) gs last

/-- The place at the end of a text. -/
def endPlace (sql : Text) : Place :=
  placeFrom .code (segments isWord [] sql).1 (segments isWord [] sql).2

end SqlOptima.PostgresLexing
