import SqlOptima.PythonText

namespace SqlOptima.ControlFlow

open PythonText

section BodyStart

/-- `^(?:ELSIF|IF)\s+` on the capitals of a line: where the condition begins. -/
def headerLength (u : Text) : Option Nat :=
  let after (keyword : Text) : Option Nat :=
    let rest := u.drop keyword.length
    if keyword.isPrefixOf u && rest.head?.any isSpace then
      some (keyword.length + (rest.takeWhile isSpace).length)
    else none
  (after "ELSIF".toList).or (after "IF".toList)

def bodyKeywords : List Text :=
  ["INSERT INTO".toList, "UPDATE ".toList, "DELETE FROM".toList, "DELETE ".toList,
    "EXECUTE ".toList, "PERFORM ".toList, "RAISE ".toList, "RETURN ".toList]

/-- The start of the variable before a `:=` at `i`, when a condition stands before it. `seen` is the
text from `pos` to `i`, backwards. -/
def assignmentStart (pos i : Nat) (seen : Text) : Option Nat :=
  let name := seen.dropWhile fun c => c = ' ' || c = '\t'
  let blanks := seen.length - name.length
  let width := (name.takeWhile isWord).length
  let start := i - blanks - width
  let condition := strip ((name.drop width).reverse)
  if pos < start ∧ 0 < width ∧ condition ≠ [] then some start else none

/-- The scan of `_find_if_body_start` from `i` on; the last flag tells that the character there is
the second of an escaped quote. -/
def scanBody (pos : Nat) : Nat → Text → Int → Bool → Bool → Text → Option Nat
  | _, _, _, _, _, [] => none
  | i, seen, depth, inString, true, c :: cs =>
      scanBody pos (i + 1) (c :: seen) depth inString false cs
  | i, seen, depth, true, false, c :: cs =>
      if c = '\'' then
        if cs.head? = some '\'' then scanBody pos (i + 1) (c :: seen) depth true true cs
        else scanBody pos (i + 1) (c :: seen) depth false false cs
      else scanBody pos (i + 1) (c :: seen) depth true false cs
  | i, seen, depth, false, false, c :: cs =>
      if c = '\'' then scanBody pos (i + 1) (c :: seen) depth true false cs
      else
        let depth' := if c = '(' then depth + 1 else if c = ')' then depth - 1 else depth
        if depth' ≠ 0 then scanBody pos (i + 1) (c :: seen) depth' false false cs
        else
          let assignment :=
            if c = ':' ∧ cs.head? = some '=' then assignmentStart pos i seen else none
          let keyword :=
            if seen.head?.any (fun b => b = ' ' || b = '\t' || b = '\n') ∧
                bodyKeywords.any (fun w => w.isPrefixOf (upper (c :: cs))) then some i else none
          match assignment.or keyword with
          | some start => some start
          | none => scanBody pos (i + 1) (c :: seen) 0 false false cs

def findIfBodyStart (line : Text) : Option Nat :=
  (headerLength (upper line)).bind fun pos => scanBody pos pos [] 0 false false (line.drop pos)

end BodyStart

section Lines

/-- `\bELSE\s+IF\b`, in any case. -/
def elseIf : Matcher := fun before s =>
  let rest := s.drop 4
  let blanks := rest.takeWhile isSpace
  if !before.any isWord && leadingWord (upper s) = "ELSE".toList && !blanks.isEmpty &&
      leadingWord (upper (rest.drop blanks.length)) = "IF".toList then
    some ("ELSIF".toList, 4 + blanks.length + 2)
  else none

/-- The tests on the capitals of a stripped line. -/
def opensWith (keyword opening u : Text) : Bool :=
  leadingWord u = keyword && trailingWord u = opening

def opensWithout (keyword : Text) (openings : List Text) (u : Text) : Bool :=
  leadingWord u = keyword && !openings.any fun w => hasWord w u

def isElseBegin (u : Text) : Bool :=
  leadingWord u = "ELSE".toList && lstrip (u.drop 4) = "BEGIN".toList

def isBegin (u : Text) : Bool := u = "BEGIN".toList || u = "BEGIN;".toList

def isEnd (u : Text) : Bool :=
  let rest := lstrip (u.drop 3)
  leadingWord u = "END".toList && (rest = [] || rest = [';'])

/-- The next line that is not blank, stripped and in capitals. -/
def nextLine (rest : List Text) : Option Text :=
  (rest.map (upper ∘ strip)).find? fun u => u ≠ []

def isElse (u : Text) : Bool := leadingWord u ∈ ["ELSE".toList, "ELSIF".toList]

/-- The line without a semicolon at its end. -/
def conditionLine (stripped : Text) : Text :=
  if stripped.getLast? = some ';' then stripped.dropLast else stripped

def replaceBegin (stripped replacement : Text) : Text :=
  stripped.take (stripped.length - 5) ++ replacement

/-- A line of the result: the line that is read, or a text after its indentation. -/
inductive Emission where
  | same
  | indented (s : Text)
  deriving DecidableEq

def Emission.render (line : Text) : Emission → Text
  | .same => line
  | .indented s => line.takeWhile isSpace ++ s

/-- A condition and a statement on one line. -/
def inlineIf (line : Text) (start : Nat) : List Emission :=
  let body := strip (line.drop start)
  let statement := body ++ if body.getLast? = some ';' then [] else [';']
  [.indented (rstrip (line.take start) ++ " THEN".toList)] ++
    (if body = [] then [] else [.indented ("    ".toList ++ statement)]) ++
    [.indented "END IF;".toList]

end Lines

inductive BlockKind where
  | ifBlock
  | ifSingle
  | elseBlock
  | whileBlock
  | block
  deriving DecidableEq, Repr

def popIf : List BlockKind → List BlockKind
  | .ifBlock :: stack => stack
  | .ifSingle :: stack => stack
  | stack => stack

/-- What a line is replaced by, whether the blank lines after it and a `BEGIN` belong to it, and the
open blocks after it. -/
structure Step where
  out : List Emission
  absorb : Bool
  stack : List BlockKind

/-- An `IF` or `ELSIF` without `BEGIN` on its line; `opened` is what the stack is without the branch
before. -/
def convertCondition (opened stack : List BlockKind) (header : Text) (begins : Bool) : Step :=
  if begins then ⟨[.indented (header ++ " THEN".toList)], true, .ifBlock :: opened⟩
  else
    match findIfBodyStart header with
    | some start => ⟨inlineIf header start, false, stack⟩
    | none => ⟨[.indented (header ++ " THEN".toList)], false, .ifSingle :: opened⟩

def convertEnd : List BlockKind → Step
  | .ifBlock :: stack => ⟨[.indented "END IF;".toList], false, stack⟩
  | .ifSingle :: stack => ⟨[.indented "END IF;".toList], false, stack⟩
  | .elseBlock :: stack => ⟨[.indented "END IF;".toList], false, stack⟩
  | .whileBlock :: stack => ⟨[.indented "END LOOP;".toList], false, stack⟩
  | .block :: stack => ⟨[.same], false, stack⟩
  | [] => ⟨[.same], false, []⟩

/-- A statement closes an `IF` without `BEGIN`. -/
def convertStatement (stack : List BlockKind) (stripped : Text) (next : Option Text) : Step :=
  if stack.head? = some .ifSingle ∧ stripped ≠ [] ∧ leadingWord (upper stripped) ∉
      ["IF".toList, "ELSIF".toList, "ELSE".toList, "BEGIN".toList, "END".toList,
        "WHILE".toList] then
    ⟨.same :: if next.any isElse then [] else [.indented "END IF;".toList], false, stack.tail⟩
  else ⟨[.same], false, stack⟩

/-- One round of the loop; `next` is the next line that is not blank. -/
def convertLine (stack : List BlockKind) (stripped : Text) (next : Option Text) : Step :=
  let u := upper stripped
  let header := conditionLine stripped
  let begins : Bool := next = some "BEGIN".toList
  if opensWith "IF".toList "BEGIN".toList u then
    ⟨[.indented (replaceBegin stripped "THEN".toList)], false, .ifBlock :: stack⟩
  else if opensWithout "IF".toList ["THEN".toList, "BEGIN".toList] u then
    convertCondition stack stack header begins
  else if opensWith "ELSIF".toList "BEGIN".toList u then
    ⟨[.indented (replaceBegin stripped "THEN".toList)], false, .ifBlock :: popIf stack⟩
  else if opensWithout "ELSIF".toList ["THEN".toList, "BEGIN".toList] u then
    convertCondition (popIf stack) stack header begins
  else if isElseBegin u then ⟨[.indented "ELSE".toList], false, .elseBlock :: stack⟩
  else if isBegin u then
    if stack.head?.any (· ≠ .block) then ⟨[], false, stack⟩
    else ⟨[.same], false, .block :: stack⟩
  else if opensWith "WHILE".toList "BEGIN".toList u then
    ⟨[.indented (replaceBegin stripped "LOOP".toList)], false, .whileBlock :: stack⟩
  else if opensWithout "WHILE".toList ["LOOP".toList, "BEGIN".toList] u && begins then
    ⟨[.indented (header ++ " LOOP".toList)], true, .whileBlock :: stack⟩
  else if isEnd u then convertEnd stack
  else convertStatement stack stripped next

/-- The loop. An absorbed `BEGIN` comes after the blank lines. -/
def convertLines : Bool → List BlockKind → List Text → List Text
  | _, _, [] => []
  | true, stack, line :: rest => convertLines (strip line = []) stack rest
  | false, stack, line :: rest =>
      let step := convertLine stack (strip line) (nextLine rest)
      step.out.map (Emission.render line) ++ convertLines step.absorb step.stack rest

def convertControlFlow (sql : Text) : Text :=
  unlines (convertLines false [] (lines (substitute elseIf sql)))

end SqlOptima.ControlFlow
