import Mathlib.Algebra.GroupWithZero.Nat
import Mathlib.Data.List.Basic
import SqlOptima.QuotedText

namespace SqlOptima.DelimitedIdentifiers

open QuotedText (doubled doubled_cons doubled_of_notMem)

/-!
# Delimited identifiers of PostgreSQL

A double quote opens an identifier, the next one that is not doubled closes it. It may not be
empty, and what is beyond the longest name a server keeps is cut off.
-/

section Scanner

inductive Token
  | symbol (c : Char)
  | identifier (name : List Char)
  deriving DecidableEq

/-- Where the scanner is; `atQuote` is behind a quote that closes the identifier if no other
quote follows. -/
inductive Mode
  | outside
  | inside (name : List Char)
  | atQuote (name : List Char)

/-- As many characters as fit into so many bytes. -/
def clip : Nat → List Char → List Char
  | _, [] => []
  | limit, c :: cs => if c.utf8Size ≤ limit then c :: clip (limit - c.utf8Size) cs else []

def scan (limit : Nat) : Mode → List Char → Option (List Token)
  | .outside, [] => some []
  | .inside _, [] => none
  | .atQuote name, [] => if name = [] then none else some [.identifier (clip limit name)]
  | .outside, c :: cs =>
      if c = '"' then scan limit (.inside []) cs
      else (scan limit .outside cs).map (.symbol c :: ·)
  | .inside name, c :: cs =>
      if c = '"' then scan limit (.atQuote name) cs else scan limit (.inside (name ++ [c])) cs
  | .atQuote name, c :: cs =>
      if c = '"' then scan limit (.inside (name ++ ['"'])) cs
      else if name = [] then none
      else (scan limit .outside cs).map fun ts =>
        .identifier (clip limit name) :: .symbol c :: ts

end Scanner

section Statements

/-- A statement is put together from fixed texts and names. -/
inductive Piece
  | plain (text : List Char)
  | name (ident : List Char)
  deriving DecidableEq

def Piece.render (quote : List Char → List Char) : Piece → List Char
  | .plain text => text
  | .name ident => quote ident

def Piece.tokens : Piece → List Token
  | .plain text => text.map .symbol
  | .name ident => [.identifier ident]

def render (quote : List Char → List Char) (ps : List Piece) : List Char :=
  ps.flatMap (Piece.render quote)

/-- The tokens the statement is meant to have. -/
def tokens (ps : List Piece) : List Token := ps.flatMap Piece.tokens

def names : List Piece → List (List Char)
  | [] => []
  | .plain _ :: ps => names ps
  | .name name :: ps => name :: names ps

/-- A name is followed by a text that is not empty, or by nothing. -/
def StartsPlain : List Piece → Prop
  | [] => True
  | .plain text :: _ => text ≠ []
  | .name _ :: _ => False

/-- The texts have no quotes, and they keep the names apart. -/
def Separated : List Piece → Prop
  | [] => True
  | .plain text :: ps => '"' ∉ text ∧ Separated ps
  | .name _ :: ps => StartsPlain ps ∧ Separated ps

/-- The names in quotes, with the quotes in them doubled. -/
def quoted (name : List Char) : List Char := '"' :: (doubled '"' name ++ ['"'])

/-- The names in quotes, as they are. -/
def enclosed (name : List Char) : List Char := '"' :: (name ++ ['"'])

/-- A name that a server keeps whole. -/
structure Fits (limit : Nat) (name : List Char) : Prop where
  nonempty : name ≠ []
  bytes : (name.map Char.utf8Size).sum ≤ limit

end Statements

section Scanning

variable {limit : Nat} {rest : List Char}

attribute [local simp] clip names scan in
theorem clip_eq_self_iff {limit : Nat} {name : List Char} :
    clip limit name = name ↔ (name.map Char.utf8Size).sum ≤ limit := by
  induction name generalizing limit with
  | nil => exact iff_of_true rfl (Nat.zero_le _)
  | cons c name ih =>
      rw [clip, List.map_cons, List.sum_cons]
      split
      · rw [List.cons.injEq, and_iff_right rfl, ih]
        omega
      · exact iff_of_false (List.cons_ne_nil c name).symm (by omega)

theorem count_clip_le (limit : Nat) (name : List Char) :
    (clip limit name).count '"' ≤ name.count '"' := by
  induction name generalizing limit with
  | nil => exact Nat.le_refl _
  | cons c name ih =>
      rw [clip]
      split
      · rw [List.count_cons, List.count_cons]
        exact Nat.add_le_add_right (ih _) _
      · exact Nat.zero_le _

theorem scan_plain {text : List Char} (h : '"' ∉ text) :
    scan limit .outside (text ++ rest) =
      (scan limit .outside rest).map (text.map Token.symbol ++ ·) := by
  induction text with
  | nil => exact Option.map_id'.symm
  | cons c text ih =>
      obtain ⟨hc, htext⟩ := List.ne_and_not_mem_of_not_mem_cons h
      rw [List.cons_append, scan, if_neg (Ne.symm hc), ih htext, Option.map_map]
      rfl

theorem scan_doubled (acc name : List Char) :
    scan limit (.inside acc) (doubled '"' name ++ '"' :: rest) =
      scan limit (.atQuote (acc ++ name)) rest := by
  induction name generalizing acc with
  | nil =>
      rw [List.append_nil]
      exact if_pos rfl
  | cons c name ih =>
      rw [List.append_cons acc c name, ← ih, doubled_cons]
      by_cases hc : c = '"'
      · rw [if_pos hc, hc]
        exact (if_pos rfl).trans (if_pos rfl)
      · rw [if_neg hc]
        exact if_neg hc

theorem scan_atQuote {name : List Char} (h : rest.head? ≠ some '"') :
    scan limit (.atQuote name) rest =
      if name = [] then none
      else (scan limit .outside rest).map (.identifier (clip limit name) :: ·) := by
  cases rest with
  | nil => rfl
  | cons c rest =>
      have hc : c ≠ '"' := fun heq => h (congrArg some heq)
      rw [scan, if_neg hc, scan, if_neg hc, Option.map_map]
      rfl

theorem scan_quoted {name : List Char} (h : rest.head? ≠ some '"') :
    scan limit .outside (quoted name ++ rest) =
      if name = [] then none
      else (scan limit .outside rest).map (.identifier (clip limit name) :: ·) := by
  rw [quoted, List.cons_append, List.append_assoc, List.singleton_append, scan, if_pos rfl,
    scan_doubled, List.nil_append, scan_atQuote h]

end Scanning

section Quotes

variable {limit : Nat}

/-- The quotes it takes at least to write a token. -/
def Token.quotes : Token → Nat
  | .symbol _ => 0
  | .identifier ident => 2 + 2 * ident.count '"'

def quotes (ts : List Token) : Nat := (ts.map Token.quotes).sum

/-- The quotes that the scanner has taken for the identifier it is in. -/
def Mode.quotes : Mode → Nat
  | .outside => 0
  | .inside ident => 1 + 2 * ident.count '"'
  | .atQuote ident => 2 + 2 * ident.count '"'

theorem quotes_identifier_cons (ident : List Char) (ts : List Token) :
    quotes (.identifier ident :: ts) = 2 + 2 * ident.count '"' + quotes ts := rfl

theorem quotes_symbol_cons (c : Char) (ts : List Token) : quotes (.symbol c :: ts) = quotes ts :=
  Nat.zero_add _

/-- Every identifier takes its quotes from the text. -/
theorem quotes_le_of_scan {text : List Char} :
    ∀ {mode : Mode} {ts : List Token}, scan limit mode text = some ts →
      quotes ts ≤ text.count '"' + mode.quotes := by
  induction text with
  | nil =>
      intro mode ts h
      cases mode with
      | outside =>
          obtain rfl := Option.some.inj h
          exact Nat.zero_le _
      | inside ident => exact absurd h.symm (Option.some_ne_none ts)
      | atQuote ident =>
          have hclip := count_clip_le limit ident
          rw [scan] at h
          split at h
          · exact absurd h.symm (Option.some_ne_none ts)
          · obtain rfl := Option.some.inj h
            rw [quotes_identifier_cons, Mode.quotes]
            change 2 + 2 * _ + 0 ≤ 0 + _
            omega
  | cons c text ih =>
      intro mode ts h
      rw [List.count_cons]
      cases mode with
      | outside =>
          rw [scan] at h
          split at h
          · rename_i hc
            have hle := ih h
            rw [Mode.quotes, List.count_nil] at hle
            rw [if_pos (by rw [hc]; rfl), Mode.quotes]
            omega
          · obtain ⟨rest, hrest, rfl⟩ := Option.map_eq_some_iff.mp h
            have hle := ih hrest
            rw [quotes_symbol_cons]
            omega
      | inside ident =>
          rw [scan] at h
          split at h
          · rename_i hc
            have hle := ih h
            rw [Mode.quotes] at hle
            rw [if_pos (by rw [hc]; rfl), Mode.quotes]
            omega
          · rename_i hc
            have hle := ih h
            rw [Mode.quotes, List.count_append, List.count_singleton,
              if_neg (by simpa using hc)] at hle
            rw [Mode.quotes]
            omega
      | atQuote ident =>
          rw [scan] at h
          split at h
          · rename_i hc
            have hle := ih h
            rw [Mode.quotes, List.count_append, List.count_singleton_self] at hle
            rw [if_pos (by rw [hc]; rfl), Mode.quotes]
            omega
          · split at h
            · exact absurd h.symm (Option.some_ne_none ts)
            · obtain ⟨rest, hrest, rfl⟩ := Option.map_eq_some_iff.mp h
              have hle := ih hrest
              have hclip := count_clip_le limit ident
              rw [Mode.quotes] at hle
              rw [quotes_identifier_cons, quotes_symbol_cons, Mode.quotes]
              omega

end Quotes

section Rendering

variable {limit : Nat} {ps : List Piece}

theorem head?_render {quote : List Char → List Char} (hplain : StartsPlain ps)
    (hsep : Separated ps) : (render quote ps).head? ≠ some '"' := by
  cases ps with
  | nil => exact (Option.some_ne_none _).symm
  | cons p ps =>
      cases p with
      | name ident => exact absurd hplain id
      | plain text =>
          intro hhead
          cases text with
          | nil => exact hplain rfl
          | cons c text => exact hsep.1 (Option.some.inj hhead ▸ List.mem_cons_self)

/-- Doubled quotes are right for every name that a server keeps whole. -/
theorem scan_render_quoted_iff (hsep : Separated ps) :
    scan limit .outside (render quoted ps) = some (tokens ps) ↔
      ∀ ident ∈ names ps, Fits limit ident := by
  induction ps with
  | nil => exact iff_of_true rfl fun ident h => absurd h List.not_mem_nil
  | cons p ps ih =>
      cases p with
      | plain text =>
          have htokens : tokens (.plain text :: ps) = text.map .symbol ++ tokens ps := rfl
          have hrender : render quoted (.plain text :: ps) = text ++ render quoted ps := rfl
          rw [hrender, htokens, scan_plain hsep.1, names, ← ih hsep.2, Option.map_eq_some_iff]
          constructor
          · rintro ⟨ts, hts, heq⟩
            rw [hts, List.append_cancel_left heq]
          · intro h
            exact ⟨_, h, rfl⟩
      | name ident =>
          have htokens : tokens (.name ident :: ps) = .identifier ident :: tokens ps := rfl
          have hrender : render quoted (.name ident :: ps) = quoted ident ++ render quoted ps :=
            rfl
          rw [hrender, htokens, scan_quoted (head?_render hsep.1 hsep.2), names,
            List.forall_mem_cons, ← ih hsep.2]
          split
          · rename_i hnil
            refine iff_of_false (Option.some_ne_none _).symm fun h => h.1.nonempty hnil
          · rename_i hne
            rw [Option.map_eq_some_iff]
            constructor
            · rintro ⟨ts, hts, heq⟩
              obtain ⟨hident, rfl⟩ := List.cons.inj heq
              exact ⟨⟨hne, clip_eq_self_iff.mp (Token.identifier.inj hident)⟩, hts⟩
            · rintro ⟨hfits, hts⟩
              exact ⟨_, hts, by rw [clip_eq_self_iff.mpr hfits.bytes]⟩

theorem quoted_eq_enclosed {ident : List Char} (h : '"' ∉ ident) :
    quoted ident = enclosed ident := by
  rw [quoted, enclosed, doubled_of_notMem h]

theorem render_congr (h : ∀ ident ∈ names ps, '"' ∉ ident) :
    render quoted ps = render enclosed ps := by
  induction ps with
  | nil => rfl
  | cons p ps ih =>
      cases p with
      | plain text => exact congrArg (text ++ ·) (ih h)
      | name ident =>
          rw [names, List.forall_mem_cons] at h
          exact congr_arg₂ (· ++ ·) (quoted_eq_enclosed h.1) (ih h.2)

/-- The names as they are bring too few quotes for those in the tokens. -/
theorem quotes_tokens (hsep : Separated ps) :
    quotes (tokens ps) = (render enclosed ps).count '"' + (names ps).flatten.count '"' := by
  induction ps with
  | nil => rfl
  | cons p ps ih =>
      cases p with
      | plain text =>
          have hzero : quotes (text.map .symbol ++ tokens ps) = quotes (tokens ps) := by
            induction text with
            | nil => rfl
            | cons c text ihText =>
                rw [List.map_cons, List.cons_append, quotes_symbol_cons,
                  ihText ⟨List.not_mem_of_not_mem_cons hsep.1, hsep.2⟩]
          have htext : text.count '"' = 0 := List.count_eq_zero.mpr hsep.1
          change quotes (text.map .symbol ++ tokens ps) =
            (text ++ render enclosed ps).count '"' + (names ps).flatten.count '"'
          rw [hzero, ih hsep.2, List.count_append, htext, Nat.zero_add]
      | name ident =>
          change quotes (.identifier ident :: tokens ps) =
            (enclosed ident ++ render enclosed ps).count '"' +
              (ident ++ (names ps).flatten).count '"'
          rw [quotes_identifier_cons, ih hsep.2, List.count_append, List.count_append, enclosed,
            List.count_cons_self, List.count_append, List.count_singleton_self]
          omega

/-- Quotes around a name as it is are right if and only if the name has no quote in it. -/
theorem scan_render_enclosed_iff (hsep : Separated ps) :
    scan limit .outside (render enclosed ps) = some (tokens ps) ↔
      ∀ ident ∈ names ps, Fits limit ident ∧ '"' ∉ ident := by
  constructor
  · intro h
    have hle := quotes_le_of_scan h
    rw [quotes_tokens hsep, Mode.quotes] at hle
    have hnone : ∀ ident ∈ names ps, '"' ∉ ident := by
      intro ident hident hmem
      have hpos := List.count_pos_iff.mpr (List.mem_flatten.mpr ⟨ident, hident, hmem⟩)
      omega
    rw [← render_congr hnone, scan_render_quoted_iff hsep] at h
    exact fun ident hident => ⟨h ident hident, hnone ident hident⟩
  · intro h
    rw [← render_congr fun ident hident => (h ident hident).2, scan_render_quoted_iff hsep]
    exact fun ident hident => (h ident hident).1

end Rendering

end SqlOptima.DelimitedIdentifiers
