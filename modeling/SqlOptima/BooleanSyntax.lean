import SqlOptima.ConnectiveChains
import SqlOptima.ConnectiveScan

namespace SqlOptima.BooleanSyntax

open PythonText
open ConnectiveChains
open ConnectiveScan (Lexing Place Gap Parts Part Closed start clear cut inParens isQuote
  letters_of_alphanum)

/-!
# Boolean expressions as SQL reads them

Atoms combined with AND, OR, parentheses and BETWEEN, written for SQL Server or for PostgreSQL,
which differ in how they quote names.
-/

inductive Dialect
  | tsql
  | postgres

/-- A run of an atom, or a name in the quotes of the dialect. -/
inductive Piece
  | text (t : Text)
  | name (w : Text)

def Piece.write : Dialect → Piece → Text
  | _, .text t => t
  | .tsql, .name w => '[' :: (w ++ [']'])
  | .postgres, .name w => '"' :: (w ++ ['"'])

abbrev Atom := List Piece

def Atom.write (d : Dialect) (a : Atom) : Text := a.flatMap (Piece.write d)

def wordOf : Connective → Text
  | .and => "AND".toList
  | .or => "OR".toList

mutual

inductive Operand
  | atom (a : Atom)
  | between (a : Atom) (g : Gap) (low : Atom) (g' : Gap) (high : Atom)
  | group (before : Text) (e : Expr) (after : Text)

inductive Expr
  | one (p : Operand)
  | join (p : Operand) (c : Connective) (g : Gap) (rest : Expr)

end

mutual

/-- BETWEEN has its own AND. -/
def Operand.parts (d : Dialect) : Operand → Parts
  | .atom a => .one (a.write d)
  | .between a g low g' high =>
      .join (a.write d ++ (g.text ++ low.write d)) g' (.one (high.write d))
  | .group before e after => .one (inParens (before ++ ((e.parts d).write ++ after)))

def Expr.parts (d : Dialect) : Expr → Parts
  | .one p => p.parts d
  | .join p _ g rest => (p.parts d).append g (rest.parts d)

end

/-- Induction along a chain, not into parentheses. -/
@[elab_as_elim]
theorem Expr.chain_induction {motive : Expr → Prop} (one : ∀ p, motive (.one p))
    (join : ∀ p c g rest, motive rest → motive (.join p c g rest)) (e : Expr) : motive e :=
  @Expr.rec (fun _ => True) motive (fun _ => trivial) (fun _ _ _ _ _ => trivial)
    (fun _ _ _ _ => trivial) (fun p _ => one p) (fun p c g rest _ ih => join p c g rest ih) e

def Expr.write (d : Dialect) (e : Expr) : Text := (e.parts d).write

/-! ## What it means -/

/-- What the database decides: an atom, or whether a value lies between two others. -/
inductive Fact
  | holds (a : Text)
  | between (a low high : Text)
  deriving DecidableEq

mutual

def Operand.truth (v : Fact → Bool) : Operand → Bool
  | .atom a => v (.holds (a.write .postgres))
  | .between a _ low _ high =>
      v (.between (a.write .postgres) (low.write .postgres) (high.write .postgres))
  | .group _ e _ => (e.values v).value

def Expr.values (v : Fact → Bool) : Expr → Chain Bool
  | .one p => .one (p.truth v)
  | .join p c _ rest => .join (p.truth v) c (rest.values v)

end

def Expr.truth (v : Fact → Bool) (e : Expr) : Bool := (e.values v).value

def Expr.operands : Expr → Chain Operand
  | .one p => .one p
  | .join p c _ rest => .join p c rest.operands

mutual

def Operand.facts : Operand → List Fact
  | .atom a => [.holds (a.write .postgres)]
  | .between a _ low _ high =>
      [.between (a.write .postgres) (low.write .postgres) (high.write .postgres)]
  | .group _ e _ => e.facts

def Expr.facts : Expr → List Fact
  | .one p => p.facts
  | .join p _ _ rest => p.facts ++ rest.facts

end

/-! ## What is SQL -/

def isSqlWord (c : Char) : Bool := isWord c || c = '@' || c = '#' || c = '$'

theorem isSqlWord_of_alphanum (c : Char) (h : c.isAlphanum = true) : isSqlWord c = true := by
  rw [isSqlWord, isWord, h]
  rfl

theorem isSqlWord_of_isSpace (c : Char) (h : isSpace c = true) : isSqlWord c = false := by
  have hmark : ∀ d, isSpace d = false → (decide (c = d)) = false := by
    intro d hd
    rw [decide_eq_false_iff_not]
    rintro rfl
    rw [h] at hd
    cases hd
  rw [isSqlWord, isWord_of_isSpace h, hmark '@' rfl, hmark '#' rfl, hmark '$' rfl]
  rfl

theorem connectives_nonempty : ∀ w ∈ ["OR".toList, "AND".toList], w ≠ [] := by decide

theorem connectives_heads : ∀ w ∈ ["OR".toList, "AND".toList],
    ∀ w' ∈ ["OR".toList, "AND".toList], w.head? = w'.head? → w = w' := by decide

theorem between_nonempty : ∀ w ∈ ["BETWEEN".toList], w ≠ [] := by decide

theorem between_heads : ∀ w ∈ ["BETWEEN".toList],
    ∀ w' ∈ ["BETWEEN".toList], w.head? = w'.head? → w = w' := by decide

theorem case_nonempty : ∀ w ∈ ["CASE".toList, "WHEN".toList, "THEN".toList, "ELSE".toList],
    w ≠ [] := by decide

theorem case_heads : ∀ w ∈ ["CASE".toList, "WHEN".toList, "THEN".toList, "ELSE".toList],
    ∀ w' ∈ ["CASE".toList, "WHEN".toList, "THEN".toList, "ELSE".toList],
      w.head? = w'.head? → w = w' := by decide

def connectives : Lexing where
  escapes := false
  wordChar := isSqlWord
  words := ["OR".toList, "AND".toList]
  nonempty := connectives_nonempty
  heads := connectives_heads
  letters := letters_of_alphanum rfl isSqlWord_of_alphanum
  blank := isSqlWord_of_isSpace
  paren := rfl

def betweenWord : Lexing where
  escapes := false
  wordChar := isSqlWord
  words := ["BETWEEN".toList]
  nonempty := between_nonempty
  heads := between_heads
  letters := letters_of_alphanum rfl isSqlWord_of_alphanum
  blank := isSqlWord_of_isSpace
  paren := rfl

/-- The words of CASE, of which an OR or AND may stand between two. -/
def caseWords : Lexing where
  escapes := false
  wordChar := isSqlWord
  words := ["CASE".toList, "WHEN".toList, "THEN".toList, "ELSE".toList]
  nonempty := case_nonempty
  heads := case_heads
  letters := letters_of_alphanum rfl isSqlWord_of_alphanum
  blank := isSqlWord_of_isSpace
  paren := rfl

/-- No comment begins outside quotes. -/
def uncommentedFrom (p : Place) : Text → Bool
  | [] => true
  | c :: cs =>
      !(p.quote.isNone &&
          ((c = '-' && cs.head? = some '-') || (c = '/' && cs.head? = some '*'))) &&
        uncommentedFrom (p.step false c) cs

def uncommented (s : Text) : Bool := uncommentedFrom start s

/-- A text of values and comparisons: no connective, no BETWEEN and no CASE stands outside its
quotes and parentheses, and no comment outside its quotes. -/
structure Term (t : Text) : Prop where
  part : Part connectives t
  noBetween : clear betweenWord t = true
  noCase : clear caseWords t = true
  noComment : uncommented t = true

/-- A term that is not in one pair of parentheses. -/
structure Atomic (t : Text) : Prop extends Term t where
  bare : ∀ s, Closed false s → t ≠ inParens s

mutual

def Operand.Sql : Operand → Prop
  | .atom a => Atomic (a.write .postgres)
  | .between a g low g' high =>
      Term (a.write .postgres) ∧ Term (low.write .postgres) ∧ Term (high.write .postgres) ∧
        g.Separates betweenWord (a.write .postgres) (low.write .postgres) ∧
        g'.Separates connectives (low.write .postgres) (high.write .postgres) ∧
        upper g'.word = wordOf .and
  | .group before e after => Blank before ∧ e.Sql ∧ Blank after

def Expr.Sql : Expr → Prop
  | .one p => p.Sql
  | .join p c g rest =>
      p.Sql ∧ g.Separates connectives (p.parts .postgres).write (rest.parts .postgres).write ∧
        upper g.word = wordOf c ∧ rest.Sql

end

/-! ## What is read from a text -/

section Reading

variable {s t : Text} {a low high : Atom} {g g' : Gap} {p p' : Operand} {e e' : Expr}

theorem wordOf_mem (c : Connective) : wordOf c ∈ connectives.words := by
  cases c with
  | and => exact List.mem_cons_of_mem _ List.mem_cons_self
  | or => exact List.mem_cons_self

/-- A word has no quotes and no parentheses. -/
theorem closed_word {x : Lexing} (hx : x.wordChar = isSqlWord) {w : Text}
    (h : upper w ∈ x.words) (escapes : Bool) : Closed escapes w := by
  apply ConnectiveScan.closed_of_plain
  intro c hc
  have hchar := x.letters _ h c (List.mem_map_of_mem hc)
  rw [hx] at hchar
  refine ⟨?_, ?_, ?_⟩
  · rw [← Bool.not_eq_true]
    intro hquote
    rw [isQuote, Bool.or_eq_true, decide_eq_true_eq, decide_eq_true_eq] at hquote
    rcases hquote with rfl | rfl
    all_goals exact absurd hchar (by decide)
  all_goals
    rintro rfl
    exact absurd hchar (by decide)

theorem closed_gap {x : Lexing} (hx : x.wordChar = isSqlWord) (hg : g.Separates x s t)
    (escapes : Bool) : Closed escapes g.text :=
  (ConnectiveScan.closed_blank hg.before).append
    ((closed_word hx hg.word escapes).append (ConnectiveScan.closed_blank hg.after))

theorem closed_parts {r : Parts} (h : r.Sound connectives) : Closed false r.write := by
  induction r with
  | one t => exact h.closed
  | join t g rest ih => exact h.1.closed.append ((closed_gap rfl h.2.1 false).append (ih h.2.2))

theorem Term.between (h : Term t) : Part betweenWord t :=
  ⟨h.part.trimmed, h.part.closed, h.noBetween⟩

/-- The first part of a BETWEEN, for the connectives. -/
theorem part_between (ha : Term s) (hlow : Term t) (hg : g.Separates betweenWord s t) :
    Part connectives (s ++ (g.text ++ t)) := by
  apply ConnectiveScan.part_gap ha.part hlow.part hg.before hg.after
    (closed_word rfl hg.word false)
  · intro c hc w hw hhead
    have hupper : upper g.word = "BETWEEN".toList := List.mem_singleton.mp hg.word
    have hletter : c.toUpper ∈ "BETWEEN".toList := hupper ▸ List.mem_map_of_mem hc
    have hall : ("BETWEEN".toList.all fun d =>
        connectives.words.all fun w => decide (w.head? ≠ some d)) = true := by decide
    exact of_decide_eq_true (List.all_eq_true.mp (List.all_eq_true.mp hall _ hletter) w hw) hhead
  · exact hg.left
  · exact hg.right

theorem separates_between {u : Text} (hlow : Term t) (hg : g'.Separates connectives t u) :
    g'.Separates connectives (s ++ (g.text ++ t)) u := by
  have hne := hlow.part.trimmed.ne_nil
  rw [Gap.separates_append_left (List.append_ne_nil_of_right_ne_nil _ hne),
    Gap.separates_append_left hne]
  exact hg

theorem sound_append {r rest : Parts} (hr : r.Sound connectives) (hrest : rest.Sound connectives)
    (hg : g.Separates connectives r.write rest.write) : (r.append g rest).Sound connectives := by
  induction r with
  | one t => exact ⟨hr, hg, hrest⟩
  | join t g' r ih =>
      obtain ⟨ht, hg', hr⟩ := hr
      have hne := (Parts.trimmed_write hr).ne_nil
      rw [Parts.write, Gap.separates_append_left (List.append_ne_nil_of_right_ne_nil _ hne),
        Gap.separates_append_left hne] at hg
      refine ⟨ht, ?_, ih hr hg⟩
      rw [Parts.write_append]
      exact hg'.append_right hne _

theorem sound_expr : ∀ e : Expr, e.Sql → (e.parts .postgres).Sound connectives := by
  apply @Expr.rec (fun p => p.Sql → (p.parts .postgres).Sound connectives)
    (fun e => e.Sql → (e.parts .postgres).Sound connectives)
  · exact fun a h => h.part
  · exact fun a g low g' high h =>
      ⟨part_between h.1 h.2.1 h.2.2.2.1, separates_between h.2.1 h.2.2.2.2.1, h.2.2.1.part⟩
  · intro before e after ih h
    apply ConnectiveScan.part_inParens
    exact (ConnectiveScan.closed_blank h.1).append
      ((closed_parts (ih h.2.1)).append (ConnectiveScan.closed_blank h.2.2))
  · exact fun p ih h => ih h
  · exact fun p c g rest ihp ih h => sound_append (ihp h.1) (ih h.2.2.2) h.2.1

theorem closed_group {before after : Text} (hbefore : Blank before) (he : e.Sql)
    (hafter : Blank after) : Closed false (before ++ (e.write .postgres ++ after)) :=
  (ConnectiveScan.closed_blank hbefore).append
    ((closed_parts (sound_expr e he)).append (ConnectiveScan.closed_blank hafter))

theorem strip_group {before after : Text} (hbefore : Blank before) (he : e.Sql)
    (hafter : Blank after) :
    strip (before ++ (e.write .postgres ++ after)) = e.write .postgres := by
  rw [strip_blank_append hbefore, strip_append_blank hafter]
  exact (Parts.trimmed_write (sound_expr e he)).strip_eq

theorem cut_between {u : Text} (hs : Term s) (ht : Term t)
    (hg : g.Separates betweenWord s t) (hu : u = s ++ (g.text ++ t)) :
    cut betweenWord u = some (s, "BETWEEN".toList, t) := by
  rw [hu, ConnectiveScan.cut_join hs.between ht.part.trimmed hg, List.mem_singleton.mp hg.word]

theorem ne_between {u : Text} (hu : Part betweenWord u) (hs : Term s) (ht : Term t)
    (hg : g.Separates betweenWord s t) : u ≠ s ++ (g.text ++ t) := by
  intro heq
  have hcut := cut_between hs ht hg heq
  rw [ConnectiveScan.cut_eq_none hu] at hcut
  cases hcut

theorem inParens_ne_between {u : Text} (hu : Closed false u) (hs : Term s) (ht : Term t)
    (hg : g.Separates betweenWord s t) : inParens u ≠ s ++ (g.text ++ t) :=
  ne_between (ConnectiveScan.part_inParens hu) hs ht hg

/-- What may come after an operand. -/
def extend (r : Parts) : Option (Gap × Parts) → Parts
  | none => r
  | some (g, rest) => r.append g rest

inductive SameRest : Option (Gap × Parts) → Option (Gap × Parts) → Prop
  | none : SameRest none none
  | some {g g' : Gap} {r r' : Parts} (hword : upper g.word = upper g'.word)
      (h : Parts.Same r r') : SameRest (some (g, r)) (some (g', r'))

def first : Parts → Text
  | .one t => t
  | .join t _ _ => t

theorem first_extend (r : Parts) (k : Option (Gap × Parts)) : first (extend r k) = first r := by
  cases k with
  | none => rfl
  | some rest =>
      cases r with
      | one t => rfl
      | join t g r => rfl

theorem first_eq {k k' : Option (Gap × Parts)} {r r' : Parts}
    (h : Parts.Same (extend r k) (extend r' k')) : first r = first r' := by
  have hfirst : ∀ {r r'}, Parts.Same r r' → first r = first r' := by
    intro r r' h
    cases h with
    | one t => rfl
    | join t _ _ => rfl
  rw [← first_extend r k, hfirst h, first_extend]

theorem same_one {k k' : Option (Gap × Parts)}
    (h : Parts.Same (extend (.one s) k) (extend (.one t) k')) : s = t ∧ SameRest k k' := by
  cases k with
  | none =>
      cases k' with
      | none =>
          cases h
          exact ⟨rfl, SameRest.none⟩
      | some rest => cases h
  | some rest =>
      cases k' with
      | none => cases h
      | some rest' =>
          cases h with
          | join _ hword h => exact ⟨rfl, SameRest.some hword h⟩

theorem same_join {k k' : Option (Gap × Parts)} {r r' : Parts}
    (h : Parts.Same (extend (.join s g r) k) (extend (.join t g' r') k')) :
    s = t ∧ Parts.Same (extend r k) (extend r' k') := by
  cases k with
  | none =>
      cases k' with
      | none =>
          cases h with
          | join _ hword h => exact ⟨rfl, h⟩
      | some rest =>
          cases h with
          | join _ hword h => exact ⟨rfl, h⟩
  | some rest =>
      cases k' with
      | none =>
          cases h with
          | join _ hword h => exact ⟨rfl, h⟩
      | some rest' =>
          cases h with
          | join _ hword h => exact ⟨rfl, h⟩

variable (v : Fact → Bool)

/-- Two operands at the beginning of one text. -/
def OperandRead (p : Operand) : Prop :=
  ∀ (p' : Operand) (k k' : Option (Gap × Parts)), p.Sql → p'.Sql →
    Parts.Same (extend (p.parts .postgres) k) (extend (p'.parts .postgres) k') →
      p.truth v = p'.truth v ∧ SameRest k k'

def ExprRead (e : Expr) : Prop :=
  ∀ e' : Expr, e.Sql → e'.Sql → Parts.Same (e.parts .postgres) (e'.parts .postgres) →
    e.values v = e'.values v

theorem read_atom (a : Atom) : OperandRead v (.atom a) := by
  intro p' k k' hp hp' h
  have hfirst := first_eq h
  cases p' with
  | atom a' =>
      obtain ⟨htext, hrest⟩ := same_one h
      exact ⟨congrArg (fun t => v (.holds t)) htext, hrest⟩
  | between a' g low g' high =>
      exact absurd hfirst (ne_between hp.toTerm.between hp'.1 hp'.2.1 hp'.2.2.2.1)
  | group before e after =>
      exact absurd hfirst (hp.bare _ (closed_group hp'.1 hp'.2.1 hp'.2.2))

theorem read_between (a : Atom) (g : Gap) (low : Atom) (g' : Gap) (high : Atom) :
    OperandRead v (.between a g low g' high) := by
  intro p' k k' hp hp' h
  have hfirst := first_eq h
  obtain ⟨ha, hlow, -, hg, -⟩ := hp
  cases p' with
  | atom a' => exact absurd hfirst.symm (ne_between hp'.toTerm.between ha hlow hg)
  | between a' h' low' h'' high' =>
      obtain ⟨ha', hlow', -, hg', -⟩ := hp'
      obtain ⟨htext, hrest⟩ := same_join h
      obtain ⟨hhigh, hrest⟩ := same_one hrest
      have hcut := cut_between ha hlow hg rfl
      rw [htext, cut_between ha' hlow' hg' rfl] at hcut
      obtain ⟨hvalue, heq⟩ := Prod.mk.inj (Option.some.inj hcut)
      refine ⟨?_, hrest⟩
      rw [Operand.truth, Operand.truth, hvalue, (Prod.mk.inj heq).2, hhigh]
  | group before e after =>
      exact absurd hfirst.symm
        (inParens_ne_between (closed_group hp'.1 hp'.2.1 hp'.2.2) ha hlow hg)

theorem read_group (before : Text) (e : Expr) (after : Text) (ih : ExprRead v e) :
    OperandRead v (.group before e after) := by
  intro p' k k' hp hp' h
  have hfirst := first_eq h
  obtain ⟨hbefore, he, hafter⟩ := hp
  have hclosed := closed_group hbefore he hafter
  cases p' with
  | atom a' => exact absurd hfirst.symm (hp'.bare _ hclosed)
  | between a' g low g' high =>
      exact absurd hfirst (inParens_ne_between hclosed hp'.1 hp'.2.1 hp'.2.2.2.1)
  | group before' e' after' =>
      obtain ⟨hbefore', he', hafter'⟩ := hp'
      obtain ⟨htext, hrest⟩ := same_one h
      have hinner := congrArg strip (List.append_inj_left' (List.cons.inj htext).2 rfl)
      have hwrite : e.write .postgres = e'.write .postgres :=
        (strip_group hbefore he hafter).symm.trans
          (hinner.trans (strip_group hbefore' he' hafter'))
      have hsame := Parts.same_of_write (sound_expr e he) (sound_expr e' he') hwrite
      exact ⟨congrArg Chain.value (ih e' he he' hsame), hrest⟩

theorem wordOf_inj {c c' : Connective} (h : wordOf c = wordOf c') : c = c' := by
  cases c with
  | and =>
      cases c' with
      | and => rfl
      | or => exact absurd h (by decide)
  | or =>
      cases c' with
      | and => exact absurd h (by decide)
      | or => rfl

theorem read_expr : ∀ e : Expr, ExprRead v e := by
  apply @Expr.rec (OperandRead v) (ExprRead v)
  · exact read_atom v
  · exact read_between v
  · exact read_group v
  · intro p ih e' he he' h
    cases e' with
    | one p' => exact congrArg Chain.one (ih p' none none he he' h).1
    | join p' c g rest =>
        obtain ⟨-, hrest⟩ := ih p' none (some (g, rest.parts .postgres)) he he'.1 h
        cases hrest
  · intro p c g rest ihp ih e' he he' h
    obtain ⟨hp, -, hword, hrest⟩ := he
    cases e' with
    | one p' =>
        obtain ⟨-, hrest⟩ := ihp p' (some (g, rest.parts .postgres)) none hp he' h
        cases hrest
    | join p' c' g' rest' =>
        obtain ⟨hp', -, hword', hrest'⟩ := he'
        obtain ⟨htruth, hsame⟩ := ihp p' (some (g, rest.parts .postgres))
          (some (g', rest'.parts .postgres)) hp hp' h
        cases hsame with
        | some hwords hsame =>
            obtain rfl := wordOf_inj (hword.symm.trans (hwords.trans hword'))
            rw [Expr.values, Expr.values, htruth, ih rest' hrest hrest' hsame]

/-- A text says the same however it is read. -/
theorem values_of_write (he : e.Sql) (he' : e'.Sql) (h : e.write .postgres = e'.write .postgres) :
    e.values v = e'.values v :=
  read_expr v e e' he he' (Parts.same_of_write (sound_expr e he) (sound_expr e' he') h)

end Reading

end SqlOptima.BooleanSyntax
