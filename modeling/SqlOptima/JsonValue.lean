import Mathlib.Data.List.Nodup
import Mathlib.Order.Fin.Basic
import SqlOptima.JsonText

namespace SqlOptima.JsonValue

open SqlOptima.NumberText
open SqlOptima.JsonText

inductive PyFloat (R : Type)
  | finite (x : R)
  | inf
  | negInf
  | nan
  deriving DecidableEq

/-- How finite floats are written and read: the shortest literal that reads
back as the same float, always with a point or an exponent. -/
structure FloatText (R : Type) where
  literal : R → NumberToken
  read : NumberToken → PyFloat R
  wellFormed : ∀ x, (literal x).WellFormed
  notInt : ∀ x, ¬ (literal x).isInt
  read_literal : ∀ x, read (literal x) = .finite x

/-- Values of JSON texts without arrays. -/
inductive Json (R : Type)
  | null
  | bool (b : Bool)
  | int (n : Int)
  | float (x : PyFloat R)
  | str (s : Str)
  | obj (members : List (Str × Json R))

variable {R : Type}

/-- Integers of more digits than this are neither written nor read. -/
def maxStrDigits : Nat := 4300

def intToken (n : Int) : NumberToken := ⟨decide (n < 0), Nat.toDigits 10 n.natAbs, [], []⟩

def Short (n : Int) : Prop := (Nat.toDigits 10 n.natAbs).length ≤ maxStrDigits

instance (n : Int) : Decidable (Short n) := inferInstanceAs (Decidable (_ ≤ _))

section Dumps

variable (floats : FloatText R)

def renderFloat : PyFloat R → List Char
  | .finite x => (floats.literal x).text
  | .inf => ['I', 'n', 'f', 'i', 'n', 'i', 't', 'y']
  | .negInf => ['-', 'I', 'n', 'f', 'i', 'n', 'i', 't', 'y']
  | .nan => ['N', 'a', 'N']

mutual

def render : Json R → List Char
  | .null => ['n', 'u', 'l', 'l']
  | .bool true => ['t', 'r', 'u', 'e']
  | .bool false => ['f', 'a', 'l', 's', 'e']
  | .int n => (intToken n).text
  | .float x => renderFloat floats x
  | .str s => renderString s
  | .obj [] => ['{', '}']
  | .obj ((k, v) :: ms) =>
      '{' :: (renderString k ++ ':' :: ' ' :: (render v ++ renderRest ms))

def renderRest : List (Str × Json R) → List Char
  | [] => ['}']
  | (k, v) :: ms =>
      ',' :: ' ' :: (renderString k ++ ':' :: ' ' :: (render v ++ renderRest ms))

end

mutual

def printable : Json R → Bool
  | .int n => decide (Short n)
  | .obj ms => printableMembers ms
  | _ => true

def printableMembers : List (Str × Json R) → Bool
  | [] => true
  | (_, v) :: ms => printable v && printableMembers ms

end

/-- The JSON text of a value; `none` when it has an integer that is not
written. -/
def dumps (v : Json R) : Option (List Char) :=
  if printable v then some (render floats v) else none

end Dumps

section Loads

variable (floats : FloatText R)

def isSpace (c : Char) : Bool := c = ' ' || c = '\t' || c = '\n' || c = '\r'

def skipSpace (cs : List Char) : List Char := cs.dropWhile isSpace

/-- A dictionary from pairs: a repeated key keeps its place and takes the later
value. -/
def insertPair {α : Type} (d : List (Str × α)) (p : Str × α) : List (Str × α) :=
  if p.1 ∈ d.map Prod.fst then d.map fun q => if q.1 = p.1 then (q.1, p.2) else q
  else d ++ [p]

def dictOf {α : Type} (ps : List (Str × α)) : List (Str × α) := ps.foldl insertPair []

def scanWord (word : List Char) (v : Json R) (cs : List Char) : Option (Json R × List Char) :=
  if word.isPrefixOf cs then some (v, cs.drop word.length) else none

def numberValue (t : NumberToken) : Option (Json R) :=
  if t.isInt then
    if t.whole.length ≤ maxStrDigits then
      (readDigits 10 t.whole).map fun n : Nat => .int (if t.neg then -(n : Int) else n)
    else none
  else some (.float (floats.read t))

def scanConstant (cs : List Char) : Option (Json R × List Char) :=
  scanWord ['N', 'a', 'N'] (.float .nan) cs <|>
    scanWord ['I', 'n', 'f', 'i', 'n', 'i', 't', 'y'] (.float .inf) cs <|>
    scanWord ['-', 'I', 'n', 'f', 'i', 'n', 'i', 't', 'y'] (.float .negInf) cs

def scanScalar (cs : List Char) : Option (Json R × List Char) :=
  scanWord ['n', 'u', 'l', 'l'] .null cs <|>
    scanWord ['t', 'r', 'u', 'e'] (.bool true) cs <|>
    scanWord ['f', 'a', 'l', 's', 'e'] (.bool false) cs <|>
    match scanNumber cs with
    | some (t, rest) => (numberValue floats t).map fun v => (v, rest)
    | none => scanConstant cs

mutual

def scanOnce : Nat → List Char → Option (Json R × List Char)
  | 0, _ => none
  | _ + 1, [] => none
  | fuel + 1, c :: cs =>
      if c = '"' then (scanString cs).map fun p => (.str p.1, p.2)
      else if c = '{' then
        match skipSpace cs with
        | '}' :: rest => some (.obj [], rest)
        | '"' :: rest => (scanMembers fuel rest).map fun p => (.obj (dictOf p.1), p.2)
        | _ => none
      else scanScalar floats (c :: cs)

/-- The members of an object from the inside of its next key on. -/
def scanMembers : Nat → List Char → Option (List (Str × Json R) × List Char)
  | 0, _ => none
  | fuel + 1, cs =>
      match scanString cs with
      | none => none
      | some (key, rest) =>
          match skipSpace rest with
          | ':' :: rest =>
              match scanOnce fuel (skipSpace rest) with
              | none => none
              | some (value, rest) =>
                  match skipSpace rest with
                  | '}' :: rest => some ([(key, value)], rest)
                  | ',' :: rest =>
                      match skipSpace rest with
                      | '"' :: rest =>
                          (scanMembers fuel rest).map fun p => ((key, value) :: p.1, p.2)
                      | _ => none
                  | _ => none
          | _ => none

end

def loads (cs : List Char) : Option (Json R) :=
  match scanOnce floats (cs.length + 1) (skipSpace cs) with
  | none => none
  | some (v, rest) => if skipSpace rest = [] then some v else none

end Loads

mutual

/-- A value as it is read back: with its surrogates joined, and its members in
a dictionary. -/
def joined : Json R → Json R
  | .str s => .str (joinPairs s)
  | .obj ms => .obj (dictOf (joinedMembers ms))
  | .null => .null
  | .bool b => .bool b
  | .int n => .int n
  | .float x => .float x

def joinedMembers : List (Str × Json R) → List (Str × Json R)
  | [] => []
  | (k, v) :: ms => (joinPairs k, joined v) :: joinedMembers ms

end

section Dict

variable {α : Type}

theorem keys_insertPair (d : List (Str × α)) (p : Str × α) :
    (insertPair d p).map Prod.fst =
      if p.1 ∈ d.map Prod.fst then d.map Prod.fst else d.map Prod.fst ++ [p.1] := by
  rw [insertPair]
  split_ifs with h
  · rw [List.map_map]
    apply List.map_congr_left
    intro q _
    simp only [Function.comp_apply]
    split_ifs <;> rfl
  · simp

theorem foldl_insertPair {d ps : List (Str × α)}
    (h : ((d ++ ps).map Prod.fst).Nodup) : ps.foldl insertPair d = d ++ ps := by
  induction ps generalizing d with
  | nil => simp
  | cons p ps ih =>
      have hp : p.1 ∉ d.map Prod.fst := by
        rw [List.map_append, List.map_cons, List.nodup_middle] at h
        intro hmem
        exact (List.nodup_cons.mp h).1 (List.mem_append_left _ hmem)
      rw [List.foldl_cons, insertPair, if_neg hp, ih]
      · simp
      · simpa using h

theorem dictOf_eq_self {ps : List (Str × α)} (h : (ps.map Prod.fst).Nodup) : dictOf ps = ps :=
  foldl_insertPair h

/-- A dictionary has no key twice, and none but those of its pairs. -/
theorem keys_dictOf (ps : List (Str × α)) :
    ((dictOf ps).map Prod.fst).Nodup ∧
      ∀ k ∈ (dictOf ps).map Prod.fst, k ∈ ps.map Prod.fst := by
  induction ps using List.reverseRecOn with
  | nil => simp [dictOf]
  | append_singleton ps p ih =>
      obtain ⟨hnodup, hmem⟩ := ih
      rw [dictOf, List.foldl_append, List.foldl_cons, List.foldl_nil]
      change ((insertPair (dictOf ps) p).map Prod.fst).Nodup ∧
        ∀ k ∈ (insertPair (dictOf ps) p).map Prod.fst, k ∈ (ps ++ [p]).map Prod.fst
      rw [keys_insertPair, List.map_append]
      split_ifs with hp
      · exact ⟨hnodup, fun k hk => List.mem_append_left _ (hmem k hk)⟩
      · refine ⟨?_, fun k hk => ?_⟩
        · rw [List.nodup_append]
          refine ⟨hnodup, List.nodup_singleton _, ?_⟩
          rintro a ha b hb rfl
          exact hp (List.mem_singleton.mp hb ▸ ha)
        · rcases List.mem_append.mp hk with hk | hk
          · exact List.mem_append_left _ (hmem k hk)
          · exact List.mem_append_right _ hk

end Dict

section RoundTrip

theorem digits_toDigits (n : Nat) : NumberToken.Digits (Nat.toDigits 10 n) :=
  fun _ hc => Nat.isDigit_of_mem_toDigits (by decide) (by decide) hc

theorem readOnto_decimal (n : Nat) : readOnto 10 0 (Nat.toDigits 10 n) = some n := by
  have h := readOnto_toDigits id (by decide : 1 < 10)
    (fun d hd => digitValue_digitChar (by omega)) n
  rwa [List.map_id] at h

theorem head_toDigits (n : Nat) :
    (Nat.toDigits 10 n).head? = some '0' → Nat.toDigits 10 n = ['0'] := by
  induction n using Nat.strong_induction_on with
  | _ n ih =>
      by_cases hn : n < 10
      · rw [Nat.toDigits_of_lt_base hn]
        simp
      · have hle : 10 ≤ n := Nat.le_of_not_lt hn
        rw [Nat.toDigits_of_base_le (by decide) hle]
        intro h
        have hhead : (Nat.toDigits 10 (n / 10)).head? = some '0' := by
          rwa [List.head?_append_of_ne_nil _ Nat.toDigits_ne_nil] at h
        have hzero := ih (n / 10) (by omega) hhead
        have hread := readOnto_decimal (n / 10)
        rw [hzero] at hread
        have hten : 0 = n / 10 := Option.some.inj hread
        omega

theorem wellFormed_intToken (n : Int) : (intToken n).WellFormed :=
  ⟨Nat.toDigits_ne_nil, digits_toDigits _, head_toDigits _,
    by simp [intToken, NumberToken.Digits], fun h => absurd rfl h⟩

variable {floats : FloatText R}

theorem numberValue_intToken {n : Int} (h : Short n) :
    numberValue floats (intToken n) = some (.int n) := by
  have hread := readOnto_decimal n.natAbs
  rw [numberValue, if_pos ⟨rfl, rfl⟩,
    if_pos (show (intToken n).whole.length ≤ maxStrDigits from h), readDigits,
    if_neg (show (intToken n).whole ≠ [] from Nat.toDigits_ne_nil)]
  rw [show readOnto 10 0 (intToken n).whole = some n.natAbs from hread, Option.map_some]
  by_cases hneg : n < 0
  · simp only [intToken, decide_eq_true hneg, if_true]
    congr 2
    omega
  · simp only [intToken, decide_eq_false hneg, Bool.false_eq_true, if_false]
    congr 2
    omega

theorem numberValue_literal (x : R) :
    numberValue floats (floats.literal x) = some (.float (.finite x)) := by
  rw [numberValue, if_neg (floats.notInt x), floats.read_literal]

theorem scanWord_ne {w c : Char} (h : w ≠ c) (word : List Char) (v : Json R)
    (cs : List Char) : scanWord (w :: word) v (c :: cs) = none := by
  have hnot : ¬ (w :: word).isPrefixOf (c :: cs) = true := by simp [List.isPrefixOf, h]
  rw [scanWord, if_neg hnot]

/-- The first character of a number: a sign or a digit. -/
theorem text_head {t : NumberToken} (ht : t.WellFormed) :
    ∃ c cs, t.text = c :: cs ∧ (c = '-' ∨ c.isDigit = true) := by
  obtain ⟨hne, hwhole, -, -, -⟩ := ht
  cases hneg : t.neg with
  | true => exact ⟨'-', _, by rw [NumberToken.text, hneg]; rfl, Or.inl rfl⟩
  | false =>
      cases hw : t.whole with
      | nil => exact absurd hw hne
      | cons c cs =>
          refine ⟨c, _, by rw [NumberToken.text, hneg, hw]; rfl, Or.inr ?_⟩
          exact hwhole c (hw ▸ List.mem_cons_self)

theorem number_head_ne {c d : Char} (hc : c = '-' ∨ c.isDigit = true)
    (hd : d ≠ '-' ∧ d.isDigit = false) : d ≠ c := by
  rintro rfl
  rcases hc with rfl | hc
  · exact hd.1 rfl
  · rw [hd.2] at hc
    cases hc

theorem scanScalar_number {t : NumberToken} (ht : t.WellFormed) {v : Json R}
    (hv : numberValue floats t = some v) {rest : List Char} (hrest : Follows rest) :
    scanScalar floats (t.text ++ rest) = some (v, rest) := by
  obtain ⟨c, cs, htext, hc⟩ := text_head ht
  have hword : ∀ (w : Char) (word : List Char) (u : Json R), w ≠ '-' ∧ w.isDigit = false →
      scanWord (w :: word) u (t.text ++ rest) = none := by
    intro w word u hw
    rw [htext]
    exact scanWord_ne (number_head_ne hc hw) word u _
  have hn : scanWord ['n', 'u', 'l', 'l'] .null (t.text ++ rest) = (none : Option (Json R × _)) :=
    hword 'n' _ _ (by decide)
  have ht : scanWord ['t', 'r', 'u', 'e'] (.bool true) (t.text ++ rest) =
      (none : Option (Json R × _)) := hword 't' _ _ (by decide)
  have hf : scanWord ['f', 'a', 'l', 's', 'e'] (.bool false) (t.text ++ rest) =
      (none : Option (Json R × _)) := hword 'f' _ _ (by decide)
  rw [scanScalar, hn, ht, hf, scanNumber_text ‹_› hrest]
  simp [hv]

/-- The values that are written as words. -/
def words : List (List Char × Json R) :=
  [(['n', 'u', 'l', 'l'], .null), (['t', 'r', 'u', 'e'], .bool true),
    (['f', 'a', 'l', 's', 'e'], .bool false), (['N', 'a', 'N'], .float .nan),
    (['I', 'n', 'f', 'i', 'n', 'i', 't', 'y'], .float .inf),
    (['-', 'I', 'n', 'f', 'i', 'n', 'i', 't', 'y'], .float .negInf)]

theorem scanOnce_word {w : List Char} {v : Json R} (h : (w, v) ∈ words)
    (rest : List Char) (fuel : Nat) :
    scanOnce floats (fuel + 1) (w ++ rest) = some (v, rest) := by
  simp only [words, List.mem_cons, Prod.mk.injEq, List.not_mem_nil, or_false] at h
  rcases h with ⟨rfl, rfl⟩ | ⟨rfl, rfl⟩ | ⟨rfl, rfl⟩ | ⟨rfl, rfl⟩ | ⟨rfl, rfl⟩ | ⟨rfl, rfl⟩
  all_goals
    simp [scanOnce, scanScalar, scanWord, scanConstant, scanNumber, scanSign, scanWhole]

theorem follows_renderRest (ms : List (Str × Json R)) (rest : List Char) :
    Follows (renderRest floats ms ++ rest) := by
  intro c hc
  cases ms with
  | nil =>
      cases hc
      exact Or.inr rfl
  | cons m ms =>
      cases hc
      exact Or.inl rfl

theorem skipSpace_cons {c : Char} (h : isSpace c = false) (cs : List Char) :
    skipSpace (c :: cs) = c :: cs := by
  rw [skipSpace, List.dropWhile_cons_of_neg (by simp [h])]

theorem skipSpace_space (cs : List Char) : skipSpace (' ' :: cs) = skipSpace cs := rfl

/-- A value starts with a character that is not white space. -/
theorem render_head (floats : FloatText R) (v : Json R) :
    ∃ c cs, render floats v = c :: cs ∧ isSpace c = false := by
  have hnumber : ∀ t : NumberToken, t.WellFormed →
      ∃ c cs, t.text = c :: cs ∧ isSpace c = false := by
    intro t ht
    obtain ⟨c, cs, htext, hc⟩ := text_head ht
    refine ⟨c, cs, htext, ?_⟩
    have hne : ∀ d : Char, d ≠ '-' ∧ d.isDigit = false → c ≠ d :=
      fun d hd => (number_head_ne hc hd).symm
    simp [isSpace, hne ' ' (by decide), hne '\t' (by decide), hne '\n' (by decide),
      hne '\r' (by decide)]
  cases v with
  | null => exact ⟨'n', _, by rw [render], rfl⟩
  | bool b =>
      cases b with
      | true => exact ⟨'t', _, by rw [render], rfl⟩
      | false => exact ⟨'f', _, by rw [render], rfl⟩
  | int n =>
      rw [render]
      exact hnumber _ (wellFormed_intToken n)
  | float x =>
      rw [render]
      cases x with
      | finite x => exact hnumber _ (floats.wellFormed x)
      | inf => exact ⟨'I', _, rfl, rfl⟩
      | negInf => exact ⟨'-', _, rfl, rfl⟩
      | nan => exact ⟨'N', _, rfl, rfl⟩
  | str s => exact ⟨'"', _, by rw [render]; rfl, rfl⟩
  | obj ms =>
      cases ms with
      | nil => exact ⟨'{', _, by rw [render], rfl⟩
      | cons m ms => exact ⟨'{', _, by rw [render], rfl⟩

theorem skipSpace_render (floats : FloatText R) (v : Json R) (rest : List Char) :
    skipSpace (render floats v ++ rest) = render floats v ++ rest := by
  obtain ⟨c, cs, hv, hc⟩ := render_head floats v
  rw [hv, List.cons_append]
  exact skipSpace_cons hc _

theorem scanOnce_number {t : NumberToken} (ht : t.WellFormed) {v : Json R}
    (hv : numberValue floats t = some v) {rest : List Char} (hrest : Follows rest)
    (fuel : Nat) : scanOnce floats (fuel + 1) (t.text ++ rest) = some (v, rest) := by
  obtain ⟨c, cs, htext, hc⟩ := text_head ht
  have hscalar := scanScalar_number ht hv hrest
  rw [htext, List.cons_append] at hscalar ⊢
  rw [scanOnce, if_neg (number_head_ne hc (by decide)).symm,
    if_neg (number_head_ne hc (by decide)).symm]
  exact hscalar

theorem scanOnce_float (x : PyFloat R) {rest : List Char} (hrest : Follows rest) (fuel : Nat) :
    scanOnce floats (fuel + 1) (renderFloat floats x ++ rest) = some (.float x, rest) := by
  cases x with
  | finite x => exact scanOnce_number (floats.wellFormed x) (numberValue_literal x) hrest fuel
  | inf => exact scanOnce_word (by simp [words, renderFloat]) rest fuel
  | negInf => exact scanOnce_word (by simp [words, renderFloat]) rest fuel
  | nan => exact scanOnce_word (by simp [words, renderFloat]) rest fuel

mutual

/-- The fuel a value needs. -/
def size : Json R → Nat
  | .obj ms => sizeMembers ms + 1
  | _ => 1

def sizeMembers : List (Str × Json R) → Nat
  | [] => 0
  | (_, v) :: ms => size v + sizeMembers ms + 1

end

mutual

/-- A rendered value is read up to what follows it, with its surrogates
joined. -/
theorem scanOnce_render (floats : FloatText R) (v : Json R) (fuel : Nat) (rest : List Char)
    (hprint : printable v = true) (hfuel : size v ≤ fuel) (hrest : Follows rest) :
    scanOnce floats fuel (render floats v ++ rest) = some (joined v, rest) := by
  match v, fuel, hfuel with
  | .null, fuel + 1, _ =>
      rw [render, joined]
      exact scanOnce_word (by simp [words]) rest fuel
  | .bool true, fuel + 1, _ =>
      rw [render, joined]
      exact scanOnce_word (by simp [words]) rest fuel
  | .bool false, fuel + 1, _ =>
      rw [render, joined]
      exact scanOnce_word (by simp [words]) rest fuel
  | .int n, fuel + 1, _ =>
      rw [render, joined]
      rw [printable] at hprint
      have hshort := of_decide_eq_true hprint
      exact scanOnce_number (wellFormed_intToken n) (numberValue_intToken hshort) hrest fuel
  | .float x, fuel + 1, _ =>
      rw [render, joined]
      exact scanOnce_float x hrest fuel
  | .str s, fuel + 1, _ =>
      rw [render, joined, renderString, List.cons_append, scanOnce, if_pos rfl,
        List.append_assoc, List.singleton_append, scanString_renderString]
      rfl
  | .obj [], fuel + 1, _ =>
      rw [render, joined, joinedMembers]
      rfl
  | .obj ((k, v) :: ms), fuel + 1, hfuel =>
      rw [printable] at hprint
      rw [size] at hfuel
      have hmembers := scanMembers_render floats k v ms fuel rest hprint (by omega)
      rw [render, joined, renderString, List.cons_append, scanOnce, if_neg (by decide),
        if_pos rfl, List.cons_append, List.cons_append, skipSpace_cons (by decide)]
      simp only [List.append_assoc, List.cons_append, List.nil_append] at hmembers ⊢
      rw [hmembers]
      rfl

theorem scanMembers_render (floats : FloatText R) (k : Str) (v : Json R)
    (ms : List (Str × Json R)) (fuel : Nat) (rest : List Char)
    (hprint : printableMembers ((k, v) :: ms) = true)
    (hfuel : sizeMembers ((k, v) :: ms) ≤ fuel) :
    scanMembers floats fuel (k.flatMap escape ++ '"' :: ':' :: ' ' ::
      (render floats v ++ renderRest floats ms ++ rest)) =
        some (joinedMembers ((k, v) :: ms), rest) := by
  match fuel, hfuel with
  | fuel + 1, hfuel =>
      rw [printableMembers, Bool.and_eq_true] at hprint
      rw [sizeMembers] at hfuel
      have hvalue := scanOnce_render floats v fuel (renderRest floats ms ++ rest) hprint.1
        (by omega) (follows_renderRest ms rest)
      rw [scanMembers, scanString_renderString]
      simp only [skipSpace_cons (show isSpace ':' = false from rfl), skipSpace_space,
        List.append_assoc, skipSpace_render, hvalue]
      match ms with
      | [] =>
          rw [renderRest, joinedMembers, joinedMembers]
          rfl
      | (k', v') :: ms =>
          have hmembers := scanMembers_render floats k' v' ms fuel rest hprint.2 (by omega)
          rw [renderRest, joinedMembers]
          simp only [List.cons_append, List.append_assoc, renderString, List.nil_append,
            skipSpace_cons (show isSpace ',' = false from rfl),
            skipSpace_cons (show isSpace '"' = false from rfl), skipSpace_space]
            at hmembers ⊢
          rw [hmembers]
          rfl

end

mutual

theorem size_le_length (floats : FloatText R) (v : Json R) :
    size v ≤ (render floats v).length := by
  obtain ⟨c, cs, hv, -⟩ := render_head floats v
  match v with
  | .obj [] => simp [size, sizeMembers, render]
  | .obj ((k, v) :: ms) =>
      have h := size_le_length floats v
      have h' := sizeMembers_le_length floats ms
      simp only [size, sizeMembers, render, List.length_cons, List.length_append]
      omega
  | .null => simp [size, hv]
  | .bool b => simp [size, hv]
  | .int n => simp [size, hv]
  | .float x => simp [size, hv]
  | .str s => simp [size, hv]

theorem sizeMembers_le_length (floats : FloatText R) (ms : List (Str × Json R)) :
    sizeMembers ms ≤ (renderRest floats ms).length := by
  match ms with
  | [] => simp [sizeMembers]
  | (k, v) :: ms =>
      have h := size_le_length floats v
      have h' := sizeMembers_le_length floats ms
      simp only [sizeMembers, renderRest, List.length_cons, List.length_append]
      omega

end

theorem loads_render (floats : FloatText R) {v : Json R} (hprint : printable v = true) :
    loads floats (render floats v) = some (joined v) := by
  have hsize := size_le_length floats v
  have hscan := scanOnce_render floats v ((render floats v).length + 1) [] hprint (by omega)
    (by simp [Follows])
  have hskip := skipSpace_render floats v []
  rw [List.append_nil] at hscan hskip
  rw [loads, hskip, hscan]
  rfl

end RoundTrip

end SqlOptima.JsonValue
