import SqlOptima.PostMigrationDdl
import SqlOptima.QuotedText
import SqlOptima.StringReplace

namespace SqlOptima.CheckExpressions

open PostMigrationDdl QuotedText
open PythonTransforms (UnicodeTables)
open StringReplace (Replaced replaced_replace)

/-!
# Check definitions, as the server stores them

The generator of the deferred objects works on the text of a definition: it cuts the parentheses
around it by their position and replaces brackets wherever they stand.
-/

section Definitions

/-- The parts of a definition that calls no function. -/
inductive Token
  | literal (value : List Char)
  | name (value : List Char)
  | openParen
  | closeParen
  | other (text : List Char)
  deriving DecidableEq

/-- How SQL Server writes a token. -/
def Token.stored : Token → List Char
  | .literal value => enclosed '\'' '\'' value
  | .name value => enclosed '[' ']' value
  | .openParen => ['(']
  | .closeParen => [')']
  | .other text => text

/-- How PostgreSQL writes a token. -/
def Token.postgres : Token → List Char
  | .literal value => enclosed '\'' '\'' value
  | .name value => enclosed '"' '"' value
  | .openParen => ['(']
  | .closeParen => [')']
  | .other text => text

def stored (ts : List Token) : List Char := ts.flatMap Token.stored

def postgres (ts : List Token) : List Char := ts.flatMap Token.postgres

def Token.WellFormed : Token → Prop
  | .name value => value ≠ []
  | .other text => text ≠ [] ∧ ∀ c ∈ text, c ∉ ['[', ']', '"', '\'', '(', ')']
  | .literal _ | .openParen | .closeParen => True

/-- How many parentheses are open after the tokens; none once one is closed too many. -/
def depth : Nat → List Token → Option Nat
  | n, [] => some n
  | n, .openParen :: ts => depth (n + 1) ts
  | n, .closeParen :: ts => if n = 0 then none else depth (n - 1) ts
  | n, .literal _ :: ts | n, .name _ :: ts | n, .other _ :: ts => depth n ts

/-- Without the first and the last parenthesis, whether or not they belong together. -/
def inner (ts : List Token) : List Token :=
  if ts.head? = some .openParen ∧ ts.getLast? = some .closeParen then ts.tail.dropLast else ts

/-- A definition of comparisons, patterns, literals and names. -/
structure CheckDefinition (u : UnicodeTables) where
  tokens : List Token
  wellFormed : ∀ t ∈ tokens, t.WellFormed
  noCalls : ¬ [.openParen, .closeParen] <:+: tokens
  balanced : depth 0 tokens = some 0
  trimmed : PythonTransforms.strip u (stored tokens) = stored tokens

variable {u : UnicodeTables}

def CheckDefinition.text (d : CheckDefinition u) : String := String.ofList (stored d.tokens)

def CheckDefinition.kept (d : CheckDefinition u) : List Token := inner d.tokens

/-- Where in an expression of PostgreSQL a character stands. -/
inductive Region
  | outside
  | literal
  | name

/-- How many parentheses are open after a text; none once one is closed too many, and where a
literal or a name does not end. -/
def depthAfter : Region → Nat → List Char → Option Nat
  | .outside, n, [] => some n
  | .literal, _, [] => none
  | .name, _, [] => none
  | .outside, n, c :: cs =>
      if c = '(' then depthAfter .outside (n + 1) cs
      else if c = ')' then if n = 0 then none else depthAfter .outside (n - 1) cs
      else if c = '\'' then depthAfter .literal n cs
      else if c = '"' then depthAfter .name n cs
      else depthAfter .outside n cs
  | .literal, n, c :: cs => depthAfter (if c = '\'' then .outside else .literal) n cs
  | .name, n, c :: cs => depthAfter (if c = '"' then .outside else .name) n cs

/-- Only the brackets of names change, and the parentheses are balanced. -/
structure CheckKept (d : CheckDefinition u) : Prop where
  namesOnly : (transpileCheckExpression u d.text).toList = postgres d.kept
  balanced : depthAfter .outside 0 (transpileCheckExpression u d.text).toList = some 0

/-- Whether a bracket before a text begins a match of `\[([^\]]+)\]`. -/
def Opens (text : List Char) : Prop := text.head? ≠ some ']' ∧ ']' ∈ text

instance instDecidableOpens (text : List Char) : Decidable (Opens text) :=
  inferInstanceAs (Decidable (_ ∧ _))

/-- No bracket in a literal begins a match. -/
def LiteralsUntouched : List Token → Prop
  | [] => True
  | .literal value :: ts =>
      (∀ after, '[' :: after <:+ doubled '\'' value → ¬ Opens (after ++ '\'' :: stored ts)) ∧
        LiteralsUntouched ts
  | .name _ :: ts | .openParen :: ts | .closeParen :: ts | .other _ :: ts => LiteralsUntouched ts

def PlainNames (ts : List Token) : Prop :=
  ∀ value, .name value ∈ ts → ']' ∉ value ∧ '"' ∉ value

structure CheckSafe (d : CheckDefinition u) : Prop where
  balanced : depth 0 d.kept = some 0
  names : PlainNames d.kept
  literals : LiteralsUntouched d.kept
  noClock : ¬ "getdate()".toList <:+: stored d.kept ∧ ¬ "GETDATE()".toList <:+: stored d.kept

end Definitions

section Tokens

variable {t : Token} {ts : List Token}

attribute [local simp] depthAfter in
@[simp] theorem stored_nil : stored [] = [] := rfl

@[simp] theorem stored_cons (t : Token) (ts : List Token) :
    stored (t :: ts) = t.stored ++ stored ts := rfl

@[simp] theorem postgres_nil : postgres [] = [] := rfl

@[simp] theorem postgres_cons (t : Token) (ts : List Token) :
    postgres (t :: ts) = t.postgres ++ postgres ts := rfl

theorem stored_append (ts ts' : List Token) : stored (ts ++ ts') = stored ts ++ stored ts' :=
  List.flatMap_append

theorem stored_ne_nil (h : t.WellFormed) : t.stored ≠ [] := by
  cases t with
  | other text => exact h.1
  | literal value => exact List.cons_ne_nil _ _
  | name value => exact List.cons_ne_nil _ _
  | openParen => exact List.cons_ne_nil _ _
  | closeParen => exact List.cons_ne_nil _ _

theorem head?_token_iff (h : t.WellFormed) : t.stored.head? = some '(' ↔ t = .openParen := by
  cases t with
  | openParen => exact iff_of_true rfl rfl
  | other text =>
      refine iff_of_false (fun hhead => ?_) Token.noConfusion
      exact h.2 '(' (List.mem_of_head? hhead) (by decide)
  | literal value => exact iff_of_false (by simp [Token.stored, enclosed]) Token.noConfusion
  | name value => exact iff_of_false (by simp [Token.stored, enclosed]) Token.noConfusion
  | closeParen => exact iff_of_false (by simp [Token.stored]) Token.noConfusion

theorem getLast?_enclosed (opening closing : Char) (text : List Char) :
    (enclosed opening closing text).getLast? = some closing := by
  rw [enclosed, ← List.cons_append, List.getLast?_append]
  rfl

theorem getLast?_token_iff (h : t.WellFormed) :
    t.stored.getLast? = some ')' ↔ t = .closeParen := by
  cases t with
  | closeParen => exact iff_of_true rfl rfl
  | other text =>
      refine iff_of_false (fun hlast => ?_) Token.noConfusion
      exact h.2 ')' (List.mem_of_getLast? hlast) (by decide)
  | literal value =>
      exact iff_of_false (by simp [Token.stored, getLast?_enclosed]) Token.noConfusion
  | name value =>
      exact iff_of_false (by simp [Token.stored, getLast?_enclosed]) Token.noConfusion
  | openParen => exact iff_of_false (by simp [Token.stored]) Token.noConfusion

theorem head?_stored_iff (h : ∀ t ∈ ts, t.WellFormed) :
    (stored ts).head? = some '(' ↔ ts.head? = some .openParen := by
  cases ts with
  | nil => simp
  | cons t ts =>
      have ht := h t List.mem_cons_self
      rw [stored_cons, List.head?_append_of_ne_nil _ (stored_ne_nil ht), head?_token_iff ht,
        List.head?_cons, Option.some.injEq]

theorem getLast?_stored_iff (h : ∀ t ∈ ts, t.WellFormed) :
    (stored ts).getLast? = some ')' ↔ ts.getLast? = some .closeParen := by
  obtain rfl | ⟨init, t, rfl⟩ := ts.eq_nil_or_concat'
  · simp
  · have ht := h t (List.mem_append_right _ (List.mem_singleton_self t))
    rw [stored_append, stored_cons, stored_nil, List.append_nil,
      List.getLast?_append_of_ne_nil _ (stored_ne_nil ht), getLast?_token_iff ht,
      List.getLast?_concat, Option.some.injEq]

theorem dropParentheses_stored (h : ∀ t ∈ ts, t.WellFormed) :
    dropParentheses (stored ts) = stored (inner ts) := by
  have hiff := and_congr (head?_stored_iff h) (getLast?_stored_iff h)
  by_cases hends : ts.head? = some .openParen ∧ ts.getLast? = some .closeParen
  · rw [dropParentheses, if_pos (hiff.mpr hends), inner, if_pos hends]
    obtain ⟨hhead, hlast⟩ := hends
    obtain ⟨rest, rfl⟩ := List.head?_eq_some_iff.mp hhead
    obtain rfl | ⟨init, t, rfl⟩ := rest.eq_nil_or_concat'
    · exact absurd (Option.some.inj hlast) Token.noConfusion
    · rw [← List.cons_append, List.getLast?_concat, Option.some.injEq] at hlast
      subst hlast
      rw [stored_cons, stored_append, List.tail_cons, List.dropLast_concat]
      exact List.dropLast_concat
  · rw [dropParentheses, if_neg (mt hiff.mp hends), inner, if_neg hends]

theorem mem_of_mem_inner (h : t ∈ inner ts) : t ∈ ts := by
  rw [inner] at h
  split at h
  · exact List.mem_of_mem_tail (List.mem_of_mem_dropLast h)
  · exact h

end Tokens

section Brackets

variable {c : Char} {cs name rest text : List Char}

def brackets (text : List Char) : List Char := bracketsToQuotes text.length text

theorem opens_iff :
    Opens cs ↔ cs.takeWhile (· ≠ ']') ≠ [] ∧ cs.dropWhile (· ≠ ']') ≠ [] := by
  have hmem : ']' ∈ cs ↔ cs.dropWhile (· ≠ ']') ≠ [] := by
    rw [Ne, List.dropWhile_eq_nil_iff]
    constructor
    · intro h hall
      exact of_decide_eq_true (hall _ h) rfl
    · intro h
      by_contra hnot
      exact h fun x hx => decide_eq_true fun heq => hnot (heq ▸ hx)
  rw [Opens, hmem]
  refine and_congr_left fun hrest => ?_
  cases cs with
  | nil => exact absurd rfl hrest
  | cons c cs =>
      by_cases hc : c = ']'
      · simp [hc]
      · simp [hc]

theorem length_tail_dropWhile_le (p : Char → Bool) (cs : List Char) :
    (cs.dropWhile p).tail.length ≤ cs.length :=
  (((cs.dropWhile p).tail_suffix).trans (List.dropWhile_suffix p)).length_le

theorem bracketsToQuotes_congr (n : Nat) :
    ∀ {m : Nat} {cs : List Char}, cs.length ≤ n → cs.length ≤ m →
      bracketsToQuotes n cs = bracketsToQuotes m cs := by
  induction n with
  | zero =>
      intro m cs hn _
      obtain rfl := List.length_eq_zero_iff.mp (Nat.le_zero.mp hn)
      cases m with
      | zero => rfl
      | succ m => rfl
  | succ n ih =>
      intro m cs hn hm
      cases cs with
      | nil =>
          cases m with
          | zero => rfl
          | succ m => rfl
      | cons c cs =>
          cases m with
          | zero => exact absurd hm (Nat.not_succ_le_zero _)
          | succ m =>
              rw [List.length_cons] at hn hm
              have hle := length_tail_dropWhile_le (· ≠ ']') cs
              rw [bracketsToQuotes, bracketsToQuotes, @ih m cs (by omega) (by omega),
                @ih m (cs.dropWhile (· ≠ ']')).tail (by omega) (by omega)]

theorem brackets_cons (c : Char) (cs : List Char) :
    brackets (c :: cs) =
      if c = '[' ∧ Opens cs then
        '"' :: (cs.takeWhile (· ≠ ']') ++ '"' :: brackets (cs.dropWhile (· ≠ ']')).tail)
      else c :: brackets cs := by
  have hrest : bracketsToQuotes cs.length (cs.dropWhile (· ≠ ']')).tail =
      brackets (cs.dropWhile (· ≠ ']')).tail :=
    bracketsToQuotes_congr _ (length_tail_dropWhile_le _ cs) le_rfl
  rw [brackets, List.length_cons, bracketsToQuotes, hrest]
  exact if_congr (and_congr_right fun _ => opens_iff.symm) rfl rfl

theorem brackets_of_not (h : ¬ (c = '[' ∧ Opens cs)) : brackets (c :: cs) = c :: brackets cs := by
  rw [brackets_cons, if_neg h]

theorem brackets_of_ne (h : c ≠ '[') : brackets (c :: cs) = c :: brackets cs :=
  brackets_of_not fun hopens => h hopens.1

theorem brackets_append (h : '[' ∉ text) : brackets (text ++ rest) = text ++ brackets rest := by
  induction text with
  | nil => rfl
  | cons c text ih =>
      obtain ⟨hc, htext⟩ := List.ne_and_not_mem_of_not_mem_cons h
      rw [List.cons_append, brackets_of_ne (Ne.symm hc), ih htext, List.cons_append]

theorem brackets_name (hne : name ≠ []) (h : ']' ∉ name) :
    brackets ('[' :: (name ++ ']' :: rest)) = '"' :: (name ++ '"' :: brackets rest) := by
  have hall : ∀ x ∈ name, decide (x ≠ ']') = true :=
    fun x hx => decide_eq_true fun heq => h (heq ▸ hx)
  have htake : (name ++ ']' :: rest).takeWhile (· ≠ ']') = name := by
    rw [List.takeWhile_append_of_pos hall, List.takeWhile_cons_of_neg (by simp), List.append_nil]
  have hdrop : (name ++ ']' :: rest).dropWhile (· ≠ ']') = ']' :: rest := by
    rw [List.dropWhile_append_of_pos hall, List.dropWhile_cons_of_neg (by simp)]
  have hopens : Opens (name ++ ']' :: rest) := by
    rw [opens_iff, htake, hdrop]
    exact ⟨hne, List.cons_ne_nil _ _⟩
  rw [brackets_cons, if_pos ⟨rfl, hopens⟩, htake, hdrop, List.tail_cons]

/-- Every match takes one bracket of each kind for two quotes. -/
theorem exists_matches (n : Nat) (cs : List Char) :
    ∃ m, (bracketsToQuotes n cs).count '[' + m = cs.count '[' ∧
      (bracketsToQuotes n cs).count ']' + m = cs.count ']' ∧
      (bracketsToQuotes n cs).count '"' = cs.count '"' + 2 * m := by
  induction n generalizing cs with
  | zero => exact ⟨0, rfl, rfl, rfl⟩
  | succ n ih =>
      cases cs with
      | nil => exact ⟨0, rfl, rfl, rfl⟩
      | cons c cs =>
          by_cases hmatch : c = '[' ∧ cs.takeWhile (· ≠ ']') ≠ [] ∧ cs.dropWhile (· ≠ ']') ≠ []
          · obtain ⟨m, hopening, hclosing, hquotes⟩ := ih (cs.dropWhile (· ≠ ']')).tail
            have hhead := List.head_dropWhile_not (· ≠ ']') hmatch.2.2
            rw [decide_eq_false_iff_not, not_ne_iff] at hhead
            have hrest := List.cons_head_tail hmatch.2.2
            rw [hhead] at hrest
            have hcs : cs = cs.takeWhile (· ≠ ']') ++ ']' :: (cs.dropWhile (· ≠ ']')).tail := by
              rw [hrest, List.takeWhile_append_dropWhile]
            have hcount := fun x => congrArg (List.count x) hcs
            refine ⟨m + 1, ?_, ?_, ?_⟩
            · rw [bracketsToQuotes, if_pos hmatch, hmatch.1, List.count_cons_self, hcount]
              simp only [List.count_cons, List.count_append]
              simp only [Char.reduceBEq, Bool.false_eq_true, if_false]
              omega
            · rw [bracketsToQuotes, if_pos hmatch, hmatch.1, List.count_cons, hcount]
              simp only [List.count_cons, List.count_append]
              simp only [Char.reduceBEq, Bool.false_eq_true, if_false, if_true]
              omega
            · rw [bracketsToQuotes, if_pos hmatch, hmatch.1, List.count_cons, hcount]
              simp only [List.count_cons, List.count_append]
              simp only [Char.reduceBEq, Bool.false_eq_true, if_false, if_true]
              omega
          · obtain ⟨m, hopening, hclosing, hquotes⟩ := ih cs
            refine ⟨m, ?_, ?_, ?_⟩
            all_goals
              rw [bracketsToQuotes, if_neg hmatch, List.count_cons, List.count_cons]
              omega

end Brackets

section Counts

variable {ts : List Token}

def Token.isName : Token → Bool
  | .name _ => true
  | _ => false

/-- The characters of the names. -/
def nameChars : List Token → List Char
  | [] => []
  | .name value :: ts => value ++ nameChars ts
  | .literal _ :: ts | .openParen :: ts | .closeParen :: ts | .other _ :: ts => nameChars ts

theorem counts_stored (ts : List Token) :
    (stored ts).count '[' = (postgres ts).count '[' + ts.countP Token.isName ∧
      (stored ts).count ']' =
        (postgres ts).count ']' + ts.countP Token.isName + (nameChars ts).count ']' ∧
      (postgres ts).count '"' =
        (stored ts).count '"' + 2 * ts.countP Token.isName + (nameChars ts).count '"' := by
  induction ts with
  | nil => exact ⟨rfl, rfl, rfl⟩
  | cons t ts ih =>
      obtain ⟨hopening, hclosing, hquotes⟩ := ih
      simp only [stored_cons, postgres_cons, List.count_append, List.countP_cons]
      cases t with
      | name value =>
          simp only [Token.stored, Token.postgres, Token.isName, nameChars, List.count_append,
            count_enclosed, count_doubled_self,
            count_doubled_of_ne (show '[' ≠ ']' by decide),
            count_doubled_of_ne (show '[' ≠ '"' by decide),
            count_doubled_of_ne (show ']' ≠ '"' by decide),
            count_doubled_of_ne (show '"' ≠ ']' by decide),
            Char.reduceEq, if_true, if_false]
          omega
      | literal value =>
          simp only [Token.stored, Token.postgres, Token.isName, nameChars, Bool.false_eq_true,
            if_false]
          omega
      | openParen =>
          simp only [Token.stored, Token.postgres, Token.isName, nameChars, Bool.false_eq_true,
            if_false]
          omega
      | closeParen =>
          simp only [Token.stored, Token.postgres, Token.isName, nameChars, Bool.false_eq_true,
            if_false]
          omega
      | other text =>
          simp only [Token.stored, Token.postgres, Token.isName, nameChars, Bool.false_eq_true,
            if_false]
          omega

theorem subset_nameChars {value : List Char} (h : .name value ∈ ts) : value ⊆ nameChars ts := by
  induction ts with
  | nil => exact absurd h List.not_mem_nil
  | cons t ts ih =>
      obtain rfl | htail := List.mem_cons.mp h
      · exact List.subset_append_left _ _
      · cases t with
        | name value' => exact List.Subset.trans (ih htail) (List.subset_append_right _ _)
        | literal value' => exact ih htail
        | openParen => exact ih htail
        | closeParen => exact ih htail
        | other text => exact ih htail

end Counts

section Positions

variable {ts : List Token} {text rest rest' : List Char}

/-- The characters that a conversion of names is about. -/
def isMark (c : Char) : Bool := c = '[' || c = ']' || c = '"'

theorem brackets_literal (h : ∀ after, '[' :: after <:+ text → ¬ Opens (after ++ rest)) :
    brackets (text ++ rest) = text ++ brackets rest := by
  induction text with
  | nil => rfl
  | cons c text ih =>
      have hhere : ¬ (c = '[' ∧ Opens (text ++ rest)) := by
        rintro ⟨rfl, hopens⟩
        exact h text (List.suffix_refl _) hopens
      rw [List.cons_append, brackets_of_not hhere,
        ih fun after hafter => h after (hafter.trans (List.suffix_cons c text)), List.cons_append]

/-- The first bracket that begins a match becomes a quote. -/
theorem untouched_literal
    (h : (brackets (text ++ rest)).filter isMark = (text ++ rest').filter isMark) :
    (∀ after, '[' :: after <:+ text → ¬ Opens (after ++ rest)) ∧
      (brackets rest).filter isMark = rest'.filter isMark := by
  induction text with
  | nil => exact ⟨fun after hafter => absurd (List.suffix_nil.mp hafter) (List.cons_ne_nil _ _), h⟩
  | cons c text ih =>
      by_cases hhere : c = '[' ∧ Opens (text ++ rest)
      · rw [List.cons_append, brackets_cons, if_pos hhere, hhere.1, List.cons_append,
          List.filter_cons_of_pos (by decide), List.filter_cons_of_pos (by decide)] at h
        exact absurd (List.cons.inj h).1 (by decide)
      · rw [List.cons_append, brackets_of_not hhere, List.cons_append] at h
        have htext : (brackets (text ++ rest)).filter isMark =
            (text ++ rest').filter isMark := by
          cases hmark : isMark c with
          | true =>
              rw [List.filter_cons_of_pos hmark, List.filter_cons_of_pos hmark] at h
              exact (List.cons.inj h).2
          | false =>
              rwa [List.filter_cons_of_neg (by rw [hmark]; decide),
                List.filter_cons_of_neg (by rw [hmark]; decide)] at h
        obtain ⟨huntouched, hrest⟩ := ih htext
        refine ⟨fun after hafter => ?_, hrest⟩
        obtain heq | hsuffix := List.suffix_cons_iff.mp hafter
        · obtain ⟨rfl, rfl⟩ := List.cons.inj heq
          exact fun hopens => hhere ⟨rfl, hopens⟩
        · exact huntouched after hsuffix

theorem PlainNames.tail {t : Token} (h : PlainNames (t :: ts)) : PlainNames ts :=
  fun value hvalue => h value (List.mem_cons_of_mem t hvalue)

theorem enclosed_append (opening closing : Char) (text rest : List Char) :
    enclosed opening closing text ++ rest =
      opening :: (doubled closing text ++ closing :: rest) := by
  rw [enclosed, List.cons_append, List.append_assoc, List.singleton_append]

theorem brackets_stored_name {value : List Char} (hne : value ≠ []) (hclosing : ']' ∉ value)
    (hquote : '"' ∉ value) (rest : List Char) :
    brackets ((Token.name value).stored ++ rest) =
      (Token.name value).postgres ++ brackets rest := by
  rw [Token.stored, Token.postgres, enclosed_append, enclosed_append, doubled_of_notMem hclosing,
    doubled_of_notMem hquote, brackets_name hne hclosing]

/-- The tokens that are neither names nor literals. -/
theorem brackets_stored_other {t : Token} (h : t.WellFormed) (hname : t.isName = false)
    (hliteral : ∀ value, t ≠ .literal value) (rest : List Char) :
    brackets (t.stored ++ rest) = t.postgres ++ brackets rest := by
  cases t with
  | literal value => exact absurd rfl (hliteral value)
  | name value => exact absurd hname Bool.true_eq_false_eq_False
  | openParen => exact brackets_append (by decide)
  | closeParen => exact brackets_append (by decide)
  | other text => exact brackets_append fun hmem => h.2 '[' hmem (by decide)

theorem brackets_stored (h : ∀ t ∈ ts, t.WellFormed) (hnames : PlainNames ts)
    (hliterals : LiteralsUntouched ts) : brackets (stored ts) = postgres ts := by
  induction ts with
  | nil => rfl
  | cons t ts ih =>
      have ht := h t List.mem_cons_self
      have htail := ih (fun t ht => h t (List.mem_cons_of_mem _ ht)) hnames.tail
      rw [stored_cons, postgres_cons]
      cases t with
      | literal value =>
          rw [Token.stored, Token.postgres, enclosed_append, enclosed_append,
            brackets_of_ne (by decide), brackets_literal hliterals.1, brackets_of_ne (by decide),
            htail hliterals.2]
      | name value =>
          obtain ⟨hclosing, hquote⟩ := hnames value List.mem_cons_self
          rw [brackets_stored_name ht hclosing hquote, htail hliterals]
      | openParen => rw [brackets_stored_other ht rfl (fun _ => Token.noConfusion), htail hliterals]
      | closeParen =>
          rw [brackets_stored_other ht rfl (fun _ => Token.noConfusion), htail hliterals]
      | other text =>
          rw [brackets_stored_other ht rfl (fun _ => Token.noConfusion), htail hliterals]

theorem filter_tail {word : List Char}
    (h : (word ++ text).filter isMark = (word ++ rest).filter isMark) :
    text.filter isMark = rest.filter isMark := by
  rw [List.filter_append, List.filter_append] at h
  exact List.append_cancel_left h

/-- Where the brackets and quotes come out right, no literal is changed. -/
theorem untouched_of_filter (h : ∀ t ∈ ts, t.WellFormed) (hnames : PlainNames ts)
    (hmarks : (brackets (stored ts)).filter isMark = (postgres ts).filter isMark) :
    LiteralsUntouched ts := by
  induction ts with
  | nil => trivial
  | cons t ts ih =>
      have ht := h t List.mem_cons_self
      have htail := ih (fun t ht => h t (List.mem_cons_of_mem _ ht)) hnames.tail
      rw [stored_cons, postgres_cons] at hmarks
      cases t with
      | literal value =>
          rw [Token.stored, Token.postgres, enclosed_append, enclosed_append,
            brackets_of_ne (by decide), List.filter_cons_of_neg (by decide),
            List.filter_cons_of_neg (by decide)] at hmarks
          obtain ⟨huntouched, hrest⟩ := untouched_literal hmarks
          rw [brackets_of_ne (by decide), List.filter_cons_of_neg (by decide),
            List.filter_cons_of_neg (by decide)] at hrest
          exact ⟨huntouched, htail hrest⟩
      | name value =>
          obtain ⟨hclosing, hquote⟩ := hnames value List.mem_cons_self
          rw [brackets_stored_name ht hclosing hquote] at hmarks
          exact htail (filter_tail hmarks)
      | openParen =>
          rw [brackets_stored_other ht rfl (fun _ => Token.noConfusion)] at hmarks
          exact htail (filter_tail hmarks)
      | closeParen =>
          rw [brackets_stored_other ht rfl (fun _ => Token.noConfusion)] at hmarks
          exact htail (filter_tail hmarks)
      | other text =>
          rw [brackets_stored_other ht rfl (fun _ => Token.noConfusion)] at hmarks
          exact htail (filter_tail hmarks)

/-- A name with a bracket or a quote in it shows in how many of these there are. -/
theorem plainNames_of_filter
    (hmarks : (brackets (stored ts)).filter isMark = (postgres ts).filter isMark) :
    PlainNames ts := by
  have hcount : ∀ c, isMark c = true → (brackets (stored ts)).count c = (postgres ts).count c := by
    intro c hc
    rw [← List.count_filter hc, hmarks, List.count_filter hc]
  obtain ⟨m, hopening, hclosing, hquotes⟩ := exists_matches (stored ts).length (stored ts)
  obtain ⟨hopening', hclosing', hquotes'⟩ := counts_stored ts
  rw [← brackets, hcount _ (by decide)] at hopening hclosing hquotes
  have hnoClosing : (nameChars ts).count ']' = 0 := by omega
  have hnoQuote : (nameChars ts).count '"' = 0 := by omega
  intro value hvalue
  have hsubset := subset_nameChars hvalue
  exact ⟨fun h => List.count_eq_zero.mp hnoClosing (hsubset h),
    fun h => List.count_eq_zero.mp hnoQuote (hsubset h)⟩

end Positions

section Depth

theorem depthAfter_literal (n : Nat) (value rest : List Char) :
    depthAfter .literal n (doubled '\'' value ++ '\'' :: rest) = depthAfter .outside n rest := by
  induction value with
  | nil => simp [depthAfter]
  | cons c value ih =>
      by_cases hc : c = '\''
      · simp [doubled_cons, depthAfter, hc, ih]
      · simp [doubled_cons, depthAfter, hc, ih]

theorem depthAfter_name (n : Nat) (value rest : List Char) :
    depthAfter .name n (doubled '"' value ++ '"' :: rest) = depthAfter .outside n rest := by
  induction value with
  | nil => simp [depthAfter]
  | cons c value ih =>
      by_cases hc : c = '"'
      · simp [doubled_cons, depthAfter, hc, ih]
      · simp [doubled_cons, depthAfter, hc, ih]

theorem depthAfter_other {text : List Char}
    (h : ∀ c ∈ text, c ∉ ['[', ']', '"', '\'', '(', ')']) (n : Nat) (rest : List Char) :
    depthAfter .outside n (text ++ rest) = depthAfter .outside n rest := by
  induction text with
  | nil => rfl
  | cons c text ih =>
      have hc := h c List.mem_cons_self
      simp only [List.mem_cons, List.not_mem_nil, or_false, not_or] at hc
      obtain ⟨-, -, hname, hliteral, hopen, hclose⟩ := hc
      rw [List.cons_append, depthAfter, if_neg hopen, if_neg hclose, if_neg hliteral, if_neg hname,
        ih fun c hc => h c (List.mem_cons_of_mem _ hc)]

/-- PostgreSQL sees the parentheses of the tokens. -/
theorem depthAfter_postgres {ts : List Token} (h : ∀ t ∈ ts, t.WellFormed) (n : Nat) :
    depthAfter .outside n (postgres ts) = depth n ts := by
  induction ts generalizing n with
  | nil => rfl
  | cons t ts ih =>
      have htail := ih fun t ht => h t (List.mem_cons_of_mem _ ht)
      rw [postgres_cons]
      cases t with
      | literal value =>
          rw [Token.postgres, enclosed_append, depthAfter, depth]
          simp only [Char.reduceEq, if_false, if_true]
          rw [depthAfter_literal, htail]
      | name value =>
          rw [Token.postgres, enclosed_append, depthAfter, depth]
          simp only [Char.reduceEq, if_false, if_true]
          rw [depthAfter_name, htail]
      | openParen => exact htail (n + 1)
      | closeParen =>
          change (if n = 0 then none else depthAfter .outside (n - 1) (postgres ts)) = _
          rw [htail, depth]
      | other text => exact (depthAfter_other (h _ List.mem_cons_self).2 n _).trans (htail n)

end Depth

section Clock

variable {ts : List Token} {word text : List Char}

/-- The three marks as one. -/
def quoteMark (c : Char) : Char := if isMark c then '"' else c

theorem quoteMark_eq_iff {c d : Char} (hd : isMark d = false) : quoteMark c = d ↔ c = d := by
  rw [quoteMark]
  split
  · rename_i hc
    refine iff_of_false ?_ ?_
    · rintro rfl
      exact absurd hd (by decide)
    · rintro rfl
      exact Bool.false_ne_true (hd.symm.trans hc)
  · exact Iff.rfl

theorem eq_of_map_quoteMark (hword : ∀ c ∈ word, isMark c = false)
    (h : text.map quoteMark = word) : text = word := by
  subst h
  refine (List.map_id _).symm.trans (List.map_congr_left fun c hc => ?_)
  exact (quoteMark_eq_iff (hword _ (List.mem_map_of_mem hc))).mp rfl

theorem infix_map_iff (hword : ∀ c ∈ word, isMark c = false) :
    word <:+: text.map quoteMark ↔ word <:+: text := by
  constructor
  · rintro ⟨a, b, hab⟩
    obtain ⟨left, z, rfl, hleft, -⟩ := List.map_eq_append_iff.mp hab.symm
    obtain ⟨x, y, rfl, -, hy⟩ := List.map_eq_append_iff.mp hleft
    exact ⟨x, z, by rw [eq_of_map_quoteMark hword hy]⟩
  · intro h
    have hself : word.map quoteMark = word := by
      refine (List.map_congr_left fun c hc => ?_).trans (List.map_id _)
      exact (quoteMark_eq_iff (hword c hc)).mpr rfl
    rw [← hself]
    exact h.map quoteMark

theorem map_stored (h : PlainNames ts) :
    (stored ts).map quoteMark = (postgres ts).map quoteMark := by
  induction ts with
  | nil => rfl
  | cons t ts ih =>
      rw [stored_cons, postgres_cons, List.map_append, List.map_append, ih h.tail]
      cases t with
      | name value =>
          obtain ⟨hclosing, hquote⟩ := h value List.mem_cons_self
          rw [Token.stored, Token.postgres, enclosed, enclosed, doubled_of_notMem hclosing,
            doubled_of_notMem hquote]
          simp only [List.map_cons, List.map_append]
          rfl
      | literal value => rfl
      | openParen => rfl
      | closeParen => rfl
      | other text => rfl

theorem infix_postgres_iff (hnames : PlainNames ts) (hword : ∀ c ∈ word, isMark c = false) :
    word <:+: postgres ts ↔ word <:+: stored ts := by
  rw [← infix_map_iff hword, ← map_stored hnames, infix_map_iff hword]

end Clock

section Checks

variable {u : UnicodeTables}

theorem not_isMark_clock : (∀ c ∈ "getdate()".toList, isMark c = false) ∧
    (∀ c ∈ "GETDATE()".toList, isMark c = false) ∧
    ∀ c ∈ "CURRENT_TIMESTAMP".toList, isMark c = false := by
  refine ⟨?_, ?_, ?_⟩ <;> simp [isMark]

theorem CheckDefinition.kept_wellFormed (d : CheckDefinition u) : ∀ t ∈ d.kept, t.WellFormed :=
  fun t ht => d.wellFormed t (mem_of_mem_inner ht)

theorem CheckDefinition.exists_replaced (d : CheckDefinition u) :
    ∃ mid, Replaced "getdate()".toList "CURRENT_TIMESTAMP".toList (brackets (stored d.kept)) mid ∧
      Replaced "GETDATE()".toList "CURRENT_TIMESTAMP".toList mid
        (transpileCheckExpression u d.text).toList := by
  have hexpr : dropParentheses (PythonTransforms.strip u d.text.toList) = stored d.kept := by
    rw [CheckDefinition.text, String.toList_ofList, d.trimmed, dropParentheses_stored d.wellFormed]
    rfl
  have hfirst := replaced_replace (String.ofList (brackets (stored d.kept))) "getdate()"
    "CURRENT_TIMESTAMP" (by decide)
  rw [@String.toList_ofList (brackets (stored d.kept))] at hfirst
  refine ⟨_, hfirst, ?_⟩
  rw [transpileCheckExpression, hexpr]
  exact replaced_replace _ _ _ (by decide)

/-- The text comes out as it should when there is nothing in it to replace. -/
theorem CheckDefinition.namesOnly_iff (d : CheckDefinition u)
    (hbrackets : brackets (stored d.kept) = postgres d.kept) :
    (transpileCheckExpression u d.text).toList = postgres d.kept ↔
      ¬ "getdate()".toList <:+: postgres d.kept ∧ ¬ "GETDATE()".toList <:+: postgres d.kept := by
  obtain ⟨mid, hfirst, hsecond⟩ := d.exists_replaced
  rw [hbrackets] at hfirst
  exact hfirst.eq_iff_of_twice (by decide) (by decide) (by decide) (by decide) hsecond

theorem filter_of_kept {d : CheckDefinition u} (h : CheckKept d) :
    (brackets (stored d.kept)).filter isMark = (postgres d.kept).filter isMark := by
  obtain ⟨mid, hfirst, hsecond⟩ := d.exists_replaced
  obtain ⟨hlower, hupper, hnew⟩ := not_isMark_clock
  rw [← h.namesOnly, hsecond.filter_eq hupper hnew, hfirst.filter_eq hlower hnew]

theorem checkKept_iff (d : CheckDefinition u) : CheckKept d ↔ CheckSafe d := by
  obtain ⟨hlower, hupper, -⟩ := not_isMark_clock
  constructor
  · intro h
    have hmarks := filter_of_kept h
    have hnames := plainNames_of_filter hmarks
    have hliterals := untouched_of_filter d.kept_wellFormed hnames hmarks
    have hclock := (d.namesOnly_iff (brackets_stored d.kept_wellFormed hnames hliterals)).mp
      h.namesOnly
    rw [infix_postgres_iff hnames hlower, infix_postgres_iff hnames hupper] at hclock
    refine ⟨?_, hnames, hliterals, hclock⟩
    rw [← depthAfter_postgres d.kept_wellFormed, ← h.namesOnly]
    exact h.balanced
  · intro h
    have hbrackets := brackets_stored d.kept_wellFormed h.names h.literals
    have hnames : (transpileCheckExpression u d.text).toList = postgres d.kept := by
      rw [d.namesOnly_iff hbrackets, infix_postgres_iff h.names hlower,
        infix_postgres_iff h.names hupper]
      exact h.noClock
    refine ⟨hnames, ?_⟩
    rw [hnames, depthAfter_postgres d.kept_wellFormed]
    exact h.balanced

end Checks

end SqlOptima.CheckExpressions
