import SqlOptima.MergeSemantics

namespace SqlOptima.MergeConverters

open PythonText MergeSemantics

section Tokens

def Token.text : Token → Text
  | .ref none c => c
  | .ref (some q) c => q ++ '.' :: c
  | .equals => ['=']
  | .other t => t

def render (ts : List Token) : Text := [' '].intercalate (ts.map Token.text)

def Conjunct.tokens (m : Merge) : Conjunct → List Token
  | .key true target source =>
      [.ref (some m.targetName) target, .equals, .ref (some m.sourceName) source]
  | .key false target source =>
      [.ref (some m.sourceName) source, .equals, .ref (some m.targetName) target]
  | .extra ts => ts

/-- The condition after `ON`. -/
def joinCondition (m : Merge) : List Token :=
  [.other "AND".toList].intercalate (m.on.map (Conjunct.tokens m))

/-- What is before an alias at the end of a qualifier. -/
def beforeAlias (name q : Text) : Option Text :=
  if name.isSuffixOf q then some (q.take (q.length - name.length)) else none

/-- `val.replace` of an alias and its dot by `EXCLUDED.`. -/
def toExcluded (name : Text) : Token → Token
  | .ref (some q) c =>
      .ref (some ((beforeAlias name q).elim q fun before => before ++ excludedName)) c
  | .ref none c => .ref none c
  | .equals => .equals
  | .other t => .other (replace (name ++ ['.']) (excludedName ++ ['.']) t)

/-- `ins_vals.replace` of an alias and its dot by nothing. -/
def withoutAlias (name : Text) : Token → Token
  | .ref (some q) c =>
      (beforeAlias name q).elim (.ref (some q) c) fun before => .ref none (before ++ c)
  | .ref none c => .ref none c
  | .equals => .equals
  | .other t => .other (replace (name ++ ['.']) [] t)

end Tokens

section MergeConverter

def Source.text : Source → Text
  | .table name => name
  | .query t => t

structure MergeStatement where
  targetTable : Text
  targetAlias : Text
  sourceTable : Text
  sourceAlias : Text
  joinCondition : List Token
  matchedUpdates : List Assignment
  notMatchedInserts : List Text
  notMatchedValues : List (List Token)

/-- The words after `USING`; the pattern takes the second for an alias, also where it is `ON`. -/
def usingWords (m : Merge) : List Text :=
  let source := Source.text m.source
  let named (a : Alias) : Text := (if a.writtenAs then " AS ".toList else [' ']) ++ a.name
  blankSplit (source ++ m.sourceAlias.elim [] named ++ " ON".toList)

def parseMerge (m : Merge) : MergeStatement where
  targetTable := m.target
  targetAlias := m.targetName
  sourceTable := (usingWords m).headD []
  sourceAlias :=
    match (usingWords m).tail with
    | first :: second :: _ => if upper first = "AS".toList then second else first
    | rest => rest.headD []
  joinCondition := joinCondition m
  matchedUpdates := m.updates
  notMatchedInserts := m.columns
  notMatchedValues := m.values

/-- The columns that stand after the alias and before an equality. -/
def keyColumns (name : Text) : List Token → List Text
  | .ref (some q) c :: .equals :: rest =>
      if (upper name).isSuffixOf (upper q) then c :: keyColumns name rest
      else keyColumns name rest
  | _ :: rest => keyColumns name rest
  | [] => []

def extractKeyColumns (condition : List Token) (name : Text) : List Text :=
  (keyColumns name condition).eraseDups

def Assignment.columnText (a : Assignment) : Text := Token.text (.ref a.qualifier a.column)

def convertToInsertOnConflict (stmt : MergeStatement) : Upsert where
  target := stmt.targetTable
  columns :=
    if stmt.notMatchedInserts = [] then stmt.matchedUpdates.map Assignment.columnText
    else stmt.notMatchedInserts
  rows :=
    if stmt.notMatchedValues = [] then
      .select (stmt.matchedUpdates.map fun a => [.ref a.qualifier a.column])
        (.table stmt.sourceTable)
    else .values stmt.notMatchedValues
  conflict :=
    let keys := extractKeyColumns stmt.joinCondition stmt.targetAlias
    if keys = [] then ["id".toList] else keys
  action := some (stmt.matchedUpdates.map fun a =>
    { a with value := a.value.map (toExcluded stmt.sourceAlias) })

/-- `MergeConverter.apply_all` on a `MERGE` without `DELETE`. -/
def applyAll (m : Merge) : Option Upsert := some (convertToInsertOnConflict (parseMerge m))

end MergeConverter

section PatternConverter

def updatesText (m : Merge) : Text :=
  ", ".toList.intercalate
    (m.updates.map fun a => render (.ref a.qualifier a.column :: .equals :: a.value))

/-- The part of a text after its last dot. -/
def lastComponent (s : Text) : Text := ((s.splitOn '.').getLast?).getD []

def stripBrackets (s : Text) : Text :=
  let bracket (c : Char) : Bool := c = '[' || c = ']'
  ((s.dropWhile bracket).reverse.dropWhile bracket).reverse

/-- The column before the only `=` of the condition. -/
def extractConflictCols (condition : Text) : Text :=
  match condition.splitOn '=' with
  | [left, _] => stripBrackets (lastComponent (strip left))
  | _ => []

/-- The last component of a qualified name. -/
def dotted : Token → Option Text
  | .ref (some _) c => some c
  | .ref none _ => none
  | .equals => none
  | .other t =>
      match t.splitOn '.' with
      | [q, c] => if q ≠ [] ∧ c ≠ [] ∧ q.all isWord ∧ c.all isWord then some c else none
      | _ => none

/-- `alias.col = alias.col` becomes `col = EXCLUDED.col`. -/
def stripPairs : List Token → List Token
  | a :: .equals :: b :: rest =>
      match dotted a, dotted b with
      | some c, some d => .ref none c :: .equals :: .ref (some excludedName) d :: stripPairs rest
      | _, _ => a :: stripPairs (.equals :: b :: rest)
  | a :: rest => a :: stripPairs rest
  | [] => []

def stripAliasPrefix (a : Assignment) : Assignment :=
  match stripPairs (.ref a.qualifier a.column :: .equals :: a.value) with
  | .ref q c :: .equals :: value => ⟨q, c, value⟩
  | _ => a

/-- What `_SIMPLE_MERGE_RE` matches; the assignments are read up to the next `W`. -/
def simpleMerge (m : Merge) : Bool :=
  (m.source = .table m.source.name) && m.targetAlias.all Alias.writtenAs &&
    m.sourceAlias.all Alias.writtenAs && m.matchedCondition.isNone && m.insertCondition.isNone &&
    !(updatesText m).any fun c => c = 'w' || c = 'W'

/-- `_convert_merge` of the pattern converter; what it does not convert gets a comment. -/
def convertMerge (m : Merge) : Option Upsert :=
  if simpleMerge m then
    let conflict := extractConflictCols (render (joinCondition m))
    some {
      target := m.target
      columns := m.columns
      rows := .select m.values (.table m.source.name)
      conflict := [if conflict = [] then "id".toList else conflict]
      action := some (m.updates.map stripAliasPrefix) }
  else none

end PatternConverter

section BodyTransform

/-- The word that a token ends with, before an equality. -/
def wordBefore : Token → Option Text
  | .ref _ c => some c
  | .equals => none
  | .other t => if trailingWord t = [] then none else some (trailingWord t)

def beginsWithWord : Token → Bool
  | .ref _ _ => true
  | .equals => false
  | .other t => leadingWord t ≠ []

/-- The words before the equalities that have a word after them. -/
def wordsBefore : List Token → List Text
  | a :: .equals :: b :: rest =>
      match wordBefore a with
      | some c =>
          if beginsWithWord b then c :: wordsBefore rest else wordsBefore (.equals :: b :: rest)
      | none => wordsBefore (.equals :: b :: rest)
  | _ :: rest => wordsBefore rest
  | [] => []

/-- `_try_convert_merge`; what it does not convert gets a comment. -/
def tryConvertMerge (m : Merge) : Option Upsert :=
  match m.sourceAlias with
  | some ⟨true, name⟩ =>
      if m.targetAlias.all Alias.writtenAs && m.insertCondition.isNone then
        some {
          target := m.target
          columns := m.columns
          rows :=
            match m.source with
            | .query t => .select (m.values.map (List.map (withoutAlias name))) (.derived t name)
            | .table table => .select m.values (.parenthesised table name)
          conflict := (wordsBefore (joinCondition m)).eraseDups
          action := if m.matchedCondition.isNone then some m.updates else none }
      else none
  | _ => none

end BodyTransform

inductive Converter where
  | mergeConverter
  | patternConverter
  | bodyTransform

def Converter.convert : Converter → Merge → Option Upsert
  | .mergeConverter => applyAll
  | .patternConverter => convertMerge
  | .bodyTransform => tryConvertMerge

section Reading

/-- The names of the two tables, as they are written before `ON`. -/
def headTexts (m : Merge) : List Text :=
  [m.target, m.targetName, Source.text m.source, m.sourceName]

def tokens (m : Merge) : List Token :=
  joinCondition m ++ m.matchedCondition.getD [] ++
    m.updates.flatMap (fun a => .ref a.qualifier a.column :: a.value) ++
    m.insertCondition.getD [] ++ m.values.flatten

def texts (m : Merge) : List Text := headTexts m ++ m.columns ++ (tokens m).map Token.text

/-- The patterns of the converter take the clauses of the statement for what they are: each of them
is read up to the first `WHEN`, a list up to the first closing parenthesis and the statement up to
the first semicolon. The first converter begins the condition after the first word that ends in
`ON` and ends the assignments before one that begins with `IF`, and the third looks for the first
alias with an `ON` behind it. -/
structure ReadWhole (c : Converter) (m : Merge) : Prop where
  ascii : ∀ t ∈ texts m, Ascii t
  statement : ∀ t ∈ texts m, ';' ∉ t
  clauses : ∀ t ∈ texts m, ¬ "WHEN".toList <:+: upper t
  lists : (∀ column ∈ m.columns, ')' ∉ column) ∧ ∀ v ∈ m.values, ∀ t ∈ v, ')' ∉ Token.text t
  join : c = .mergeConverter → ∀ t ∈ headTexts m, ∀ w ∈ blankSplit t, ¬ "ON".toList <:+ upper w
  assignments : c = .mergeConverter → ∀ a ∈ m.updates, ∀ t ∈ a.value,
    ∀ w ∈ blankSplit (Token.text t), ¬ "IF".toList <+: upper w
  source : c = .bodyTransform → ∀ name,
    ¬ ["AS".toList, name, "ON".toList] <:+: (blankSplit (Source.text m.source)).map upper

end Reading

end SqlOptima.MergeConverters
