import Mathlib.Data.List.DropRight
import Mathlib.Data.List.Nodup
import Mathlib.Logic.Function.Basic
import SqlOptima.CellValues

namespace SqlOptima.ColumnTransforms

open CellValues

section Runes

def replacementRune : Text := [0xEF, 0xBF, 0xBD]

def isContinuation (b : UInt8) : Bool := 0x80 ≤ b && b ≤ 0xBF

def secondOfThree (b₀ b₁ : UInt8) : Bool :=
  if b₀ = 0xE0 then 0xA0 ≤ b₁ && b₁ ≤ 0xBF
  else if b₀ = 0xED then 0x80 ≤ b₁ && b₁ ≤ 0x9F
  else isContinuation b₁

def secondOfFour (b₀ b₁ : UInt8) : Bool :=
  if b₀ = 0xF0 then 0x90 ≤ b₁ && b₁ ≤ 0xBF
  else if b₀ = 0xF4 then 0x80 ≤ b₁ && b₁ ≤ 0x8F
  else isContinuation b₁

/-- The width of the rune in front, `none` where the bytes there are not UTF-8. -/
def runeWidth (s : Text) : Option Nat :=
  match s with
  | [] => none
  | b₀ :: rest =>
      if b₀ < 0x80 then some 1
      else if 0xC2 ≤ b₀ && b₀ ≤ 0xDF then
        match rest with
        | b₁ :: _ => if isContinuation b₁ then some 2 else none
        | _ => none
      else if 0xE0 ≤ b₀ && b₀ ≤ 0xEF then
        match rest with
        | b₁ :: b₂ :: _ => if secondOfThree b₀ b₁ && isContinuation b₂ then some 3 else none
        | _ => none
      else if 0xF0 ≤ b₀ && b₀ ≤ 0xF4 then
        match rest with
        | b₁ :: b₂ :: b₃ :: _ =>
            if secondOfFour b₀ b₁ && isContinuation b₂ && isContinuation b₃ then some 4 else none
        | _ => none
      else none

/-- The first rune, as it is written out again, and the rest of the text. -/
def decodeRune (s : Text) : Text × Text :=
  match runeWidth s with
  | some n => (s.take n, s.drop n)
  | none => (replacementRune, s.drop 1)

def runesWithin : Nat → Text → List Text
  | 0, _ => []
  | _ + 1, [] => []
  | fuel + 1, b :: s => (decodeRune (b :: s)).1 :: runesWithin fuel (decodeRune (b :: s)).2

/-- The runes `range` goes through; each of them takes at least one byte. -/
def runes (s : Text) : List Text := runesWithin s.length s

def isDigit (b : UInt8) : Bool := 48 ≤ b && b ≤ 57

end Runes

section Functions

variable (rt : Runtime)

def cellValueString : CellValue → Text
  | .null => []
  | .bool v => formatBool v
  | .str v => v
  | .i16 v => formatInt v.toInt
  | .i32 v => formatInt v.toInt
  | .i64 v => formatInt v.toInt
  | .f32 v => rt.formatG32 v
  | .f64 v => rt.formatG64 v
  | .bin v => v.getD []
  | .date v => inBraces (formatInt v.toInt)
  | .timestampMicros v => inBraces (formatInt v.toInt)
  | .timeMicros v => inBraces (formatInt v.toInt)
  | .uuid v => inBraces (formatBytes v.bytes)

def transformBitToBool : CellValue → CellValue
  | .i16 v => .bool (v != 0)
  | .i32 v => .bool (v != 0)
  | .i64 v => .bool (v != 0)
  | c => c

def transformMoneyToDecimal : CellValue → CellValue
  | .null => .null
  | c => .str (cellValueString rt c)

def transformDatetimeToUTC (c : CellValue) : CellValue := c

def transformStripTrailingNulls : CellValue → CellValue
  | .str v => .str (v.rdropWhile (· == 0))
  | c => c

def transformIdentity (c : CellValue) : CellValue := c

def transformMaskNullify (_ : CellValue) : CellValue := .null

/-- The masks that rewrite a value: NULL stays NULL, anything else becomes a text. -/
def maskText (f : Text → Text) : CellValue → CellValue
  | .null => .null
  | c => .str (f (cellValueString rt c))

def redacted : Text := ascii "***REDACTED***"

def transformMaskRedact : CellValue → CellValue :=
  maskText rt fun _ => redacted

def hexDigit (n : Nat) : UInt8 :=
  if n < 10 then UInt8.ofNat (48 + n) else UInt8.ofNat (87 + n)

def hexSum (s : Text) : Text :=
  (List.ofFn (rt.sha256 s)).flatMap fun b => [hexDigit (b.toNat / 16), hexDigit (b.toNat % 16)]

def transformMaskHash : CellValue → CellValue :=
  maskText rt (hexSum rt)

def transformMaskTokenize : CellValue → CellValue :=
  maskText rt fun s => ascii "TOK_" ++ (hexSum rt s).take 12

def partialEmail (text : Text) : Text :=
  match text.idxOf? 64 with
  | none => redacted
  | some 0 => ascii "*@" ++ text.drop 1
  | some n => (decodeRune (text.take n)).1 ++ ascii "***@" ++ text.drop (n + 1)

def transformMaskPartialEmail : CellValue → CellValue :=
  maskText rt partialEmail

def lastFour (text : Text) : Text :=
  let digits := text.filter isDigit
  if digits.length ≤ 4 then ascii "****" else ascii "****" ++ digits.drop (digits.length - 4)

def transformMaskLastFour : CellValue → CellValue :=
  maskText rt lastFour

/-- Replaces the digits of the text, in order, by those of `mapped`. -/
def replaceDigits : List Text → List UInt8 → Text
  | [], _ => []
  | [b] :: rs, d :: ds =>
      if isDigit b then d :: replaceDigits rs ds else b :: replaceDigits rs (d :: ds)
  | r :: rs, ds => r ++ replaceDigits rs ds

def fpeNumeric (raw : Text) : Text :=
  let digStr := ((runes raw).filter fun r => r.length = 1 ∧ r.all isDigit).flatten
  if digStr = [] then redacted
  else
    let h := rt.sha256 digStr
    let mapped := (List.range digStr.length).map fun i => 48 + h (Fin.ofNat 32 i) % 10
    replaceDigits (runes raw) mapped

def transformMaskFPENumeric : CellValue → CellValue :=
  maskText rt (fpeNumeric rt)

end Functions

/-- The entries of `builtInColumnTransforms`. -/
inductive Transform where
  | bitToBool | moneyToDecimal | datetimeToUTC | stripTrailingNulls | identity
  | maskNullify | maskRedact | maskHash | maskTokenize | maskPartialEmail | maskLastFour | maskFPENumeric
  deriving DecidableEq, Repr

namespace Transform

def apply (rt : Runtime) : Transform → CellValue → CellValue
  | .bitToBool => transformBitToBool
  | .moneyToDecimal => transformMoneyToDecimal rt
  | .datetimeToUTC => transformDatetimeToUTC
  | .stripTrailingNulls => transformStripTrailingNulls
  | .identity => transformIdentity
  | .maskNullify => transformMaskNullify
  | .maskRedact => transformMaskRedact rt
  | .maskHash => transformMaskHash rt
  | .maskTokenize => transformMaskTokenize rt
  | .maskPartialEmail => transformMaskPartialEmail rt
  | .maskLastFour => transformMaskLastFour rt
  | .maskFPENumeric => transformMaskFPENumeric rt

def isMask : Transform → Bool
  | .maskNullify | .maskRedact | .maskHash | .maskTokenize
  | .maskPartialEmail | .maskLastFour | .maskFPENumeric => true
  | _ => false

end Transform

def lookupTransform : String → Option Transform
  | "bit_to_bool" => some .bitToBool
  | "money_to_decimal" => some .moneyToDecimal
  | "datetime_to_utc" => some .datetimeToUTC
  | "strip_trailing_nulls" => some .stripTrailingNulls
  | "identity" => some .identity
  | "mask_nullify" => some .maskNullify
  | "mask_redact" => some .maskRedact
  | "mask_hash" => some .maskHash
  | "mask_tokenize" => some .maskTokenize
  | "mask_partial_email" => some .maskPartialEmail
  | "mask_last_four" => some .maskLastFour
  | "mask_fpe_numeric" => some .maskFPENumeric
  | _ => none

def typeDefaultTransforms : String → Option String
  | "bit" => some "bit_to_bool"
  | "money" => some "money_to_decimal"
  | "smallmoney" => some "money_to_decimal"
  | "datetime2" => some "datetime_to_utc"
  | "datetime" => some "datetime_to_utc"
  | "smalldatetime" => some "datetime_to_utc"
  | "nchar" => some "strip_trailing_nulls"
  | "char" => some "strip_trailing_nulls"
  | _ => none

/-- A class that is not in the map reads as the empty name. -/
def sensitivityDefaultMask : String → String
  | "pii" => "mask_hash"
  | "phi" => "mask_nullify"
  | "pci" => "mask_fpe_numeric"
  | "credential" => "mask_nullify"
  | _ => ""

section TypeNames

def isSpace (c : Char) : Bool :=
  c ∈ ['\t', '\n', '\x0b', '\x0c', '\r', ' ', '\u0085', '\u00a0', '\u1680', '\u2028', '\u2029',
    '\u202f', '\u205f', '\u3000'] || ('\u2000' ≤ c && c ≤ '\u200a')

def trimSpace (s : List Char) : List Char :=
  (s.dropWhile isSpace).rdropWhile isSpace

/-- Lower case, as far as a lookup among ASCII names can tell: two letters outside ASCII fall to
an ASCII one. -/
def toLowerChar (c : Char) : Char :=
  if c = '\u0130' then 'i' else if c = '\u212a' then 'k' else c.toLower

/-- The type's name without its `(..)` suffix, in lower case. -/
def typeBase (sqlType : String) : String :=
  let base := (trimSpace sqlType.toList).map toLowerChar
  String.ofList (if '(' ∈ base then trimSpace (base.takeWhile (· != '(')) else base)

end TypeNames

/-- A Go map from strings to strings, with the order in which `range` happens to go through it. -/
structure StringMap where
  entries : List (String × String)
  nodup : (entries.map Prod.fst).Nodup

namespace StringMap

def get? (m : StringMap) (key : String) : Option String :=
  m.entries.lookup key

def get (m : StringMap) (key : String) : String :=
  (m.get? key).getD ""

end StringMap

/-- The part of a table's dispatch payload that the transforms are built from. -/
structure GoTableDispatchPayload where
  columns : List String
  columnTransforms : StringMap
  columnSensitivity : StringMap
  columnTypes : StringMap

abbrev Chains := List (List Transform)

def colIndex (columns : List String) : String → Option Nat :=
  columns.zipIdx.foldl (fun index p => Function.update index p.1 (some p.2)) fun _ => none

section Build

variable (columns : List String)

def addTransform (chains : Chains) (col name : String) : Chains :=
  match colIndex columns col with
  | none => chains
  | some idx =>
      match lookupTransform name with
      | none => chains
      | some fn => chains.modify idx (· ++ [fn])

def addTypeDefault (chains : Chains) (entry : String × String) : Chains :=
  match typeDefaultTransforms (typeBase entry.2) with
  | some name => addTransform columns chains entry.1 name
  | none => chains

def sensitivityTransform (explicit sensitivity : String) : String :=
  if explicit = "" then sensitivityDefaultMask sensitivity else explicit

def addSensitivity (transforms : StringMap) (chains : Chains) (entry : String × String) : Chains :=
  if entry.2 = "none" ∨ entry.2 = "" then chains
  else
    let name := sensitivityTransform (transforms.get entry.1) entry.2
    if name ≠ "" then addTransform columns chains entry.1 name else chains

def addExplicit (chains : Chains) (entry : String × String) : Chains :=
  if (chains.getD ((colIndex columns entry.1).getD 0) []).length = 0 then
    addTransform columns chains entry.1 entry.2
  else chains

end Build

def buildChains (table : GoTableDispatchPayload) : Chains :=
  let typed := table.columnTypes.entries.foldl (addTypeDefault table.columns)
    (List.replicate table.columns.length [])
  if table.columnSensitivity.entries.length > 0 then
    table.columnSensitivity.entries.foldl (addSensitivity table.columns table.columnTransforms) typed
  else table.columnTransforms.entries.foldl (addExplicit table.columns) typed

abbrev Pipeline := Option Chains

def buildColumnTransformPipeline (table : GoTableDispatchPayload) : Pipeline :=
  if table.columnTransforms.entries.length = 0 ∧ table.columnSensitivity.entries.length = 0 ∧
      table.columnTypes.entries.length = 0 then none
  else if table.columns.length = 0 then none
  else if (buildChains table).any (fun chain => chain.length > 0) then some (buildChains table)
  else none

def runChain (rt : Runtime) (chain : List Transform) (c : CellValue) : CellValue :=
  chain.foldl (fun c fn => fn.apply rt c) c

def applyChains (rt : Runtime) : Chains → List CellValue → List CellValue
  | chain :: chains, c :: cells => runChain rt chain c :: applyChains rt chains cells
  | _, cells => cells

def Pipeline.apply (rt : Runtime) (p : Pipeline) (cells : List CellValue) : List CellValue :=
  match p with
  | none => cells
  | some chains => applyChains rt chains cells

def Pipeline.chain (p : Pipeline) (i : Nat) : List Transform :=
  p.elim [] fun chains => chains.getD i []

@[simp]
theorem runChain_nil (rt : Runtime) : runChain rt [] = id :=
  rfl

theorem getElem?_applyChains (rt : Runtime) (chains : Chains) (cells : List CellValue) (i : Nat) :
    (applyChains rt chains cells)[i]? = cells[i]?.map (runChain rt (chains.getD i [])) := by
  induction chains generalizing cells i with
  | nil => simp [applyChains]
  | cons chain chains ih =>
      cases cells with
      | nil => simp [applyChains]
      | cons c cells =>
          cases i with
          | zero => simp [applyChains]
          | succ i => simpa [applyChains] using ih cells i

theorem getElem?_apply (rt : Runtime) (p : Pipeline) (cells : List CellValue) (i : Nat) :
    (p.apply rt cells)[i]? = cells[i]?.map (runChain rt (p.chain i)) := by
  cases p with
  | none => simp [Pipeline.apply, Pipeline.chain]
  | some chains => exact getElem?_applyChains rt chains cells i

end SqlOptima.ColumnTransforms
