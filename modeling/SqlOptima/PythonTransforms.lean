import SqlOptima.ColumnTransforms
import SqlOptima.PythonValues
import SqlOptima.Utf8Text

namespace SqlOptima.PythonTransforms

open SqlOptima.CellValues (Runtime)
open SqlOptima.ColumnTransforms (Transform StringMap)
open SqlOptima.PythonValues
open SqlOptima.Utf8Text

def asciiDigit (c : Char) : Option (Fin 10) :=
  if h : 48 ≤ c.toNat ∧ c.toNat ≤ 57 then some ⟨c.toNat - 48, by omega⟩ else none

/-- What Python reads of the Unicode tables: the value of a decimal digit, which
`\d` matches, `str.isdigit`, which takes further characters for digits, and the
blanks that `strip` cuts. -/
structure UnicodeTables where
  digit : Char → Option (Fin 10)
  isDigit : Char → Bool
  isSpace : Char → Bool
  digit_ascii : ∀ c, isAscii c → digit c = asciiDigit c
  isDigit_of_digit : ∀ c, (digit c).isSome → isDigit c
  isDigit_ascii : ∀ c, isAscii c → isDigit c → (digit c).isSome

/-- The values a text can become on its way through the transforms. -/
inductive PyValue
  | none
  | str (text : List Char)
  | bool (value : Bool)
  | decimal (value : Decimal)
  deriving DecidableEq

inductive PyError
  | invalidOperation
  | indexError
  | unknownTransform (name : String)
  deriving DecidableEq

section DecimalText

variable (u : UnicodeTables)

def strip (text : List Char) : List Char :=
  (text.dropWhile u.isSpace).rdropWhile u.isSpace

/-- The text `Decimal` reads: without blanks around it and without underscores,
its digits as ASCII ones. -/
def numericText (text : List Char) : Option (List Char) :=
  ((strip u text).filter (· != '_')).mapM fun c =>
    if isAscii c ∧ c.toNat ≠ 0 then some c
    else if u.isSpace c then some ' '
    else (u.digit c).map fun d => Char.ofNat (48 + d)

def isAsciiDigit (c : Char) : Bool := (asciiDigit c).isSome

def digitsNat (text : List Char) : Nat := text.foldl (fun n c => 10 * n + (c.toNat - 48)) 0

def readSign : List Char → Bool × List Char
  | '-' :: text => (true, text)
  | '+' :: text => (false, text)
  | text => (false, text)

def readExponent : List Char → Option Int
  | [] => some 0
  | e :: text =>
      let power := readSign text
      if (e = 'e' ∨ e = 'E') ∧ power.2 ≠ [] ∧ power.2.all isAsciiDigit then
        some (if power.1 then -digitsNat power.2 else digitsNat power.2)
      else none

def maxEmax : Int := 999999999999999999

def minEtiny : Int := -1999999999999999997

def readFinite (sign : Bool) (text : List Char) : Option Decimal :=
  let integer := text.takeWhile isAsciiDigit
  let rest := text.dropWhile isAsciiDigit
  let fraction := if rest.head? = some '.' then (rest.drop 1).takeWhile isAsciiDigit else []
  let rest := if rest.head? = some '.' then (rest.drop 1).dropWhile isAsciiDigit else rest
  if integer ++ fraction = [] then none
  else
    (readExponent rest).bind fun power =>
      let coefficient := digitsNat (integer ++ fraction)
      let exponent := power - fraction.length
      if minEtiny ≤ exponent ∧
          exponent + (Nat.toDigits 10 coefficient).length - 1 ≤ maxEmax then
        some (.finite sign coefficient exponent)
      else none

def readSpecial (sign : Bool) (text : List Char) : Option Decimal :=
  match text.map Char.toLower with
  | ['i', 'n', 'f'] => some (.infinity sign)
  | ['i', 'n', 'f', 'i', 'n', 'i', 't', 'y'] => some (.infinity sign)
  | 'n' :: 'a' :: 'n' :: payload =>
      if payload.all isAsciiDigit then some (.nan sign false (digitsNat payload)) else none
  | 's' :: 'n' :: 'a' :: 'n' :: payload =>
      if payload.all isAsciiDigit then some (.nan sign true (digitsNat payload)) else none
  | _ => none

/-- `Decimal(text)`, `none` where it raises. -/
def decimalOf (text : List Char) : Option Decimal :=
  (numericText u text).bind fun number =>
    let signed := readSign number
    (readSpecial signed.1 signed.2).or (readFinite signed.1 signed.2)

end DecimalText

section Functions

variable (u : UnicodeTables) (rt : Runtime)

def boolText (b : Bool) : List Char :=
  if b then ['T', 'r', 'u', 'e'] else ['F', 'a', 'l', 's', 'e']

def PyValue.text : PyValue → List Char
  | .none => ['N', 'o', 'n', 'e']
  | .str text => text
  | .bool b => boolText b
  | .decimal d => d.str

def PyValue.truth : PyValue → Bool
  | .none => false
  | .str text => text ≠ []
  | .bool b => b
  | .decimal (.finite _ coefficient _) => coefficient ≠ 0
  | .decimal _ => true

def bitToBool : PyValue → PyValue
  | .none => .none
  | v => .bool v.truth

def moneyToDecimal : PyValue → Except PyError PyValue
  | .none => .ok .none
  | v =>
      match decimalOf u v.text with
      | none => .error .invalidOperation
      | some d => .ok (.decimal d)

def stripTrailingNulls : PyValue → PyValue
  | .str text => .str (text.rdropWhile (· == '\x00'))
  | v => v

/-- The masks that rewrite the text of a value. -/
def maskWith (f : List Char → Except PyError (List Char)) : PyValue → Except PyError PyValue
  | .none => .ok .none
  | v => (f v.text).map .str

def redacted : List Char :=
  ['*', '*', '*', 'R', 'E', 'D', 'A', 'C', 'T', 'E', 'D', '*', '*', '*']

def hexChar (n : Nat) : Char := if n < 10 then Char.ofNat (48 + n) else Char.ofNat (87 + n)

def hexdigest (text : List Char) : List Char :=
  (List.ofFn (rt.sha256 (utf8 text))).flatMap fun b =>
    [hexChar (b.toNat / 16), hexChar (b.toNat % 16)]

def token (text : List Char) : List Char := ['T', 'O', 'K', '_'] ++ (hexdigest rt text).take 12

def partialEmail (text : List Char) : List Char :=
  if '@' ∈ text then
    let domain := (text.dropWhile (· != '@')).drop 1
    match text.takeWhile (· != '@') with
    | [] => '*' :: '@' :: domain
    | c :: _ => c :: '*' :: '*' :: '*' :: '@' :: domain
  else redacted

def lastFourOf (digits : List Char) : List Char :=
  ['*', '*', '*', '*'] ++ if digits.length ≤ 4 then [] else digits.drop (digits.length - 4)

def digitsOf (text : List Char) : List Char := text.filter fun c => (u.digit c).isSome

/-- Replaces what counts as a digit by the next of `mapped`. -/
def replaceDigits (isDigit : Char → Bool) : List Char → List Char → Except PyError (List Char)
  | [], _ => .ok []
  | c :: text, mapped =>
      if isDigit c then
        match mapped with
        | [] => .error .indexError
        | d :: mapped => (replaceDigits isDigit text mapped).map (d :: ·)
      else (replaceDigits isDigit text mapped).map (c :: ·)

/-- The hexadecimal digit of a digest at a position, as a number. -/
def nibble (text : List Char) (i : Nat) : Nat :=
  let b := (rt.sha256 (utf8 text) (Fin.ofNat 32 (i / 2))).toNat
  if i % 2 = 0 then b / 16 else b % 16

def fpeNumeric (raw : List Char) : Except PyError (List Char) :=
  let digits := digitsOf u raw
  if digits = [] then .ok redacted
  else if digits.length > 64 then .error .indexError
  else
    let mapped := (List.range digits.length).map fun i => Char.ofNat (48 + nibble rt digits i % 10)
    replaceDigits u.isDigit raw mapped

def apply : Transform → PyValue → Except PyError PyValue
  | .bitToBool, v => .ok (bitToBool v)
  | .moneyToDecimal, v => moneyToDecimal u v
  | .datetimeToUTC, v => .ok v
  | .stripTrailingNulls, v => .ok (stripTrailingNulls v)
  | .identity, v => .ok v
  | .maskNullify, _ => .ok .none
  | .maskRedact, v => maskWith (fun _ => .ok redacted) v
  | .maskHash, v => maskWith (fun text => .ok (hexdigest rt text)) v
  | .maskTokenize, v => maskWith (fun text => .ok (token rt text)) v
  | .maskPartialEmail, v => maskWith (fun text => .ok (partialEmail text)) v
  | .maskLastFour, v => maskWith (fun text => .ok (lastFourOf (digitsOf u text))) v
  | .maskFPENumeric, v => maskWith (fpeNumeric u rt) v

def runChain (chain : List Transform) (v : PyValue) : Except PyError PyValue :=
  chain.foldlM (fun v t => apply u rt t v) v

end Functions

section Pipeline

def builtInTransforms : String → Option Transform
  | "bit_to_bool" => some .bitToBool
  | "money_to_decimal" => some .moneyToDecimal
  | "datetime_to_utc" => some .datetimeToUTC
  | "strip_trailing_nulls" => some .stripTrailingNulls
  | "identity" => some .identity
  | "mask_nullify" => some .maskNullify
  | "mask_redact" => some .maskRedact
  | "mask_hash" => some .maskHash
  | "mask_tokenize" => some .maskTokenize
  | "mask_partial_email" => some .maskPartialEmail
  | "mask_last_four" => some .maskLastFour
  | "mask_fpe_numeric" => some .maskFPENumeric
  | _ => none

def sensitivityDefaultMask : String → Option String
  | "pii" => some "mask_hash"
  | "phi" => some "mask_nullify"
  | "pci" => some "mask_fpe_numeric"
  | "credential" => some "mask_nullify"
  | _ => none

def typeDefaults : String → Option String
  | "bit" => some "bit_to_bool"
  | "money" => some "money_to_decimal"
  | "smallmoney" => some "money_to_decimal"
  | "datetime2" => some "datetime_to_utc"
  | "datetime" => some "datetime_to_utc"
  | "smalldatetime" => some "datetime_to_utc"
  | "nchar" => some "strip_trailing_nulls"
  | "char" => some "strip_trailing_nulls"
  | _ => none

/-- `str.lower`, as far as a lookup among ASCII names can tell. -/
def lowerChar (c : Char) : List Char :=
  if c = '\u0130' then ['i', '\u0307'] else if c = '\u212a' then ['k'] else [c.toLower]

def lower (s : String) : String := String.ofList (s.toList.flatMap lowerChar)

abbrev Pipeline := List (String × List Transform)

namespace Pipeline

def transforms (p : Pipeline) (col : String) : List Transform := (p.lookup col).getD []

def registerFn (p : Pipeline) (col : String) (t : Transform) : Pipeline :=
  if col ∈ p.map Prod.fst then p.map fun e => if e.1 = col then (e.1, e.2 ++ [t]) else e
  else p ++ [(col, [t])]

def register (p : Pipeline) (col name : String) : Except PyError Pipeline :=
  match builtInTransforms name with
  | none => .error (.unknownTransform name)
  | some t => .ok (p.registerFn col t)

end Pipeline

def registerTypeDefault (p : Pipeline) (entry : String × String) : Except PyError Pipeline :=
  match typeDefaults (lower entry.2) with
  | none => .ok p
  | some name => p.register entry.1 name

/-- `overrides.get(col) or _SENSITIVITY_DEFAULT_MASK.get(sensitivity)`. -/
def sensitivityName (overrides : StringMap) (col sensitivity : String) : Option String :=
  match overrides.get? col with
  | none => sensitivityDefaultMask sensitivity
  | some name => if name ≠ "" then some name else sensitivityDefaultMask sensitivity

def registerSensitivity (overrides : StringMap) (p : Pipeline) (entry : String × String) :
    Except PyError Pipeline :=
  if entry.2 = "none" then .ok p
  else
    match sensitivityName overrides entry.1 entry.2 with
    | none => .ok p
    | some name => p.register entry.1 name

def fromSensitivityMap (sensitivity overrides : StringMap) : Except PyError Pipeline :=
  sensitivity.entries.foldlM (registerSensitivity overrides) []

def registerExplicit (p : Pipeline) (entry : String × String) : Except PyError Pipeline :=
  if entry.1 ∈ p.map Prod.fst then .ok p else p.register entry.1 entry.2

def mergeMasks (p masks : Pipeline) : Pipeline :=
  masks.foldl (fun p e => e.2.foldl (fun p t => p.registerFn e.1 t) p) p

/-- Classes, where there are any, else the explicit transforms. -/
def compose (transforms sensitivity : StringMap) (typed : Pipeline) : Except PyError Pipeline :=
  if sensitivity.entries ≠ [] then
    (fromSensitivityMap sensitivity transforms).map (mergeMasks typed)
  else transforms.entries.foldlM registerExplicit typed

def buildPipelineForPlan (transforms sensitivity types : StringMap) :
    Except PyError (Option Pipeline) :=
  if transforms.entries = [] ∧ sensitivity.entries = [] ∧ types.entries = [] then .ok none
  else
    (types.entries.foldlM registerTypeDefault []).bind fun typed =>
      (compose transforms sensitivity typed).map fun p => if p ≠ [] then some p else none

end Pipeline

end SqlOptima.PythonTransforms
