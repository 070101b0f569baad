import SqlOptima.ControlFlow
import SqlOptima.PostgresLexing

namespace SqlOptima.ControlFlowSyntax

open PythonText ControlFlow
open PostgresLexing (endPlace)

section Statements

/-- Where the `BEGIN` of a block stands. -/
inductive Opening where
  | sameLine (gap begins : Text)
  | ownLine (begins : Text)

mutual

/-- T-SQL statements, each with the form that it is laid out in and the spelling of its keywords. A
header is a keyword and a condition. -/
inductive Stmt where
  | simple (t : Text)
  | whileLoop (header : Text) (body : Branch)
  | ifThen (header : Text) (body : Branch) (rest : Chain)

/-- A statement on the line of its header, a statement on lines of its own, or a block. -/
inductive Branch where
  | inline (gap t : Text)
  | single (s : Stmt)
  | block (opening : Opening) (ending : Text) (ss : Stmts)

inductive Chain where
  | endIf
  | elseIf (header : Text) (body : Branch) (rest : Chain)
  | otherwise (header : Text) (body : Branch)

inductive Stmts where
  | nil
  | cons (s : Stmt) (ss : Stmts)

end

end Statements

section Layout

def Opening.layout (header : Text) : Opening → List Text
  | .sameLine gap begins => [header ++ gap ++ begins]
  | .ownLine begins => [header, begins]

mutual

/-- The lines of a statement, with a way to write the headers of its `ELSE IF` branches. -/
def Stmt.layout (f : Text → Text) : Stmt → List Text
  | .simple t => [t]
  | .whileLoop header body => body.layout f header
  | .ifThen header body rest => body.layout f header ++ rest.layout f

def Branch.layout (f : Text → Text) (header : Text) : Branch → List Text
  | .inline gap t => [header ++ gap ++ t]
  | .single s => header :: s.layout f
  | .block opening ending ss => opening.layout header ++ ss.layout f ++ [ending]

def Chain.layout (f : Text → Text) : Chain → List Text
  | .endIf => []
  | .elseIf header body rest => body.layout f (f header) ++ rest.layout f
  | .otherwise header body => body.layout f header

def Stmts.layout (f : Text → Text) : Stmts → List Text
  | .nil => []
  | .cons s ss => s.layout f ++ ss.layout f

end

/-- The lines of the source. -/
def Stmts.source (p : Stmts) : List Text := p.layout id

/-- Its lines with `ELSIF`. -/
def Stmts.normalised (p : Stmts) : List Text := p.layout (substitute elseIf)

/-- A header and the keyword that opens its branch. -/
def Branch.opened (header keyword : Text) : Branch → Text
  | .block (.sameLine gap _) _ _ => header ++ gap ++ keyword
  | _ => header ++ ' ' :: keyword

mutual

/-- The block structure of PL/pgSQL with the same nesting. -/
def Stmt.nested : Stmt → List Text
  | .simple t => [t]
  | .whileLoop header body =>
      body.opened header "LOOP".toList :: body.nested ++ ["END LOOP;".toList]
  | .ifThen header body rest =>
      body.opened header "THEN".toList :: body.nested ++ rest.nested ++ ["END IF;".toList]

def Branch.nested : Branch → List Text
  | .inline _ t => [conditionLine t ++ [';']]
  | .single s => s.nested
  | .block _ _ ss => ss.nested

def Chain.nested : Chain → List Text
  | .endIf => []
  | .elseIf header body rest =>
      body.opened (substitute elseIf header) "THEN".toList :: body.nested ++ rest.nested
  | .otherwise _ body => "ELSE".toList :: body.nested

def Stmts.nested : Stmts → List Text
  | .nil => []
  | .cons s ss => s.nested ++ ss.nested

end

end Layout

section Forms

/-- A statement that is no control flow, complete on its line; it may begin as in
`BEGIN TRANSACTION`. -/
structure Statement (t : Text) : Prop where
  trimmed : Trimmed t
  noBreak : '\n' ∉ t
  leads : leadingWord (upper t) ∉ ["IF".toList, "ELSIF".toList, "ELSE".toList, "WHILE".toList]
  notBegin : isBegin (upper t) = false
  notEnd : isEnd (upper t) = false
  complete : endPlace t = .code ∨ endPlace t = .line

/-- A keyword and its condition, with no comment at its end. -/
structure Header (keyword header : Text) : Prop where
  leads : leadingWord (upper header) = keyword
  trimmed : Trimmed header
  noBreak : '\n' ∉ header
  noSemicolon : header.getLast? ≠ some ';'
  noComment : endPlace header = .code

/-- A header and a statement, split where the statement starts. -/
structure SplitOn (keyword header gap t : Text) : Prop where
  without : opensWithout keyword ["THEN".toList, "BEGIN".toList]
    (upper (header ++ gap ++ t)) = true
  split : ∃ start, findIfBodyStart (conditionLine (header ++ gap ++ t)) = some start ∧
    rstrip ((conditionLine (header ++ gap ++ t)).take start) = header ∧
    strip ((conditionLine (header ++ gap ++ t)).drop start) = conditionLine t
  nonempty : conditionLine t ≠ []
  noSemicolon : (conditionLine t).getLast? ≠ some ';'
  noComment : endPlace (conditionLine t) = .code

structure Ending (t : Text) : Prop where
  trimmed : Trimmed t
  noBreak : '\n' ∉ t
  isEnd : isEnd (upper t) = true

/-- How a header and `BEGIN` are told from other lines. -/
def Opening.Recognised (keyword : Text) (openings : List Text) (header : Text) : Opening → Prop
  | .sameLine gap begins =>
      upper begins = "BEGIN".toList ∧ '\n' ∉ gap ∧
        opensWith keyword "BEGIN".toList (upper (header ++ gap ++ begins)) = true
  | .ownLine begins =>
      upper begins = "BEGIN".toList ∧ opensWithout keyword openings (upper header) = true

def Opening.RecognisedElse (header : Text) : Opening → Prop
  | .sameLine gap begins =>
      upper begins = "BEGIN".toList ∧ '\n' ∉ gap ∧
        isElseBegin (upper (header ++ gap ++ begins)) = true
  | .ownLine begins => upper begins = "BEGIN".toList

mutual

/-- The forms that the conversion recognises. -/
def Stmt.Recognised : Stmt → Prop
  | .simple t => Statement t
  | .whileLoop header body =>
      Header "WHILE".toList header ∧
        body.Recognised "WHILE".toList ["LOOP".toList, "BEGIN".toList] header
  | .ifThen header body rest =>
      Header "IF".toList header ∧
        body.Recognised "IF".toList ["THEN".toList, "BEGIN".toList] header ∧ rest.Recognised

def Branch.Recognised (keyword : Text) (openings : List Text) (header : Text) : Branch → Prop
  | .inline gap t => Statement t ∧ '\n' ∉ gap ∧ SplitOn keyword header gap t
  | .single s =>
      s.Recognised ∧ opensWithout keyword openings (upper header) = true ∧
        findIfBodyStart header = none
  | .block opening ending ss =>
      ss.Recognised ∧ opening.Recognised keyword openings header ∧ Ending ending

/-- The branch of an `ELSE` has no condition. -/
def Branch.RecognisedElse (header : Text) : Branch → Prop
  | .inline gap t => Statement t ∧ '\n' ∉ gap
  | .single s => s.Recognised
  | .block opening ending ss => ss.Recognised ∧ opening.RecognisedElse header ∧ Ending ending

def Chain.Recognised : Chain → Prop
  | .endIf => True
  | .elseIf header body rest =>
      Header "ELSIF".toList (substitute elseIf header) ∧
        body.Recognised "ELSIF".toList ["THEN".toList, "BEGIN".toList]
          (substitute elseIf header) ∧ rest.Recognised
  | .otherwise header body => Header "ELSE".toList header ∧ body.RecognisedElse header

def Stmts.Recognised : Stmts → Prop
  | .nil => True
  | .cons s ss => s.Recognised ∧ ss.Recognised

end

/-- `ELSE IF` is read where it stands for the keyword and nowhere else. -/
structure Stmts.ReadsElseIf (p : Stmts) : Prop where
  inLines : p.source.map (substitute elseIf) = p.normalised
  acrossLines : p.source.IsChain fun line next =>
    trailingWord (upper line) = "ELSE".toList → leadingWord (upper next) ≠ "IF".toList

end Forms

section Clean

/-- A statement that closes an `IF` without `BEGIN`, and no comment. -/
structure Plain (t : Text) : Prop where
  leads : leadingWord (upper t) ∉ ["BEGIN".toList, "END".toList]
  noComment : ¬ "--".toList <+: t ∧ ¬ "/*".toList <+: t

def Branch.IsSimple : Branch → Prop
  | .single (.simple t) => Plain t
  | _ => False

def Branch.IsInline : Branch → Prop
  | .inline _ _ => True
  | _ => False

mutual

/-- Where the nesting is kept; `inIf` tells that the statement stands directly in the block of an
`IF` or `ELSE IF`. -/
def Stmt.Clean (inIf : Bool) : Stmt → Prop
  | .simple _ => True
  | .whileLoop _ body => body.CleanLoop
  | .ifThen _ body .endIf => body.CleanLast
  | .ifThen _ body rest => body.IsSimple ∧ rest.Clean inIf

/-- The last branch of an `IF` without `ELSE`. -/
def Branch.CleanLast : Branch → Prop
  | .inline _ _ => True
  | .single (.simple t) => Plain t
  | .single _ => False
  | .block _ _ ss => ss.Clean true

def Branch.CleanElse : Branch → Prop
  | .block (.sameLine _ _) _ ss => ss.Clean false
  | _ => False

def Branch.CleanLoop : Branch → Prop
  | .block _ _ ss => ss.Clean false
  | _ => False

def Chain.Clean (inIf : Bool) : Chain → Prop
  | .endIf => True
  | .elseIf _ body .endIf => body.CleanLast ∧ (inIf = true → body.IsInline)
  | .elseIf _ body rest => inIf = false ∧ body.IsSimple ∧ rest.Clean inIf
  | .otherwise _ body => body.CleanElse

def Stmts.Clean (inIf : Bool) : Stmts → Prop
  | .nil => True
  | .cons s ss => s.Clean inIf ∧ ss.Clean inIf

end

end Clean

end SqlOptima.ControlFlowSyntax
