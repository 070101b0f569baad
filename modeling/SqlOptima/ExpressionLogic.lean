import SqlOptima.BooleanSyntax
import SqlOptima.ExpressionConverter

namespace SqlOptima.ExpressionLogic

open PythonText
open ConnectiveChains
open ConnectiveScan (Gap Parts Part Closed clear inParens isQuote)
open BooleanSyntax
open ExpressionConverter

/-!
# What a converted expression says
-/

/-- No BETWEEN stands outside parentheses. -/
def noBetween : Expr → Bool
  | .one (.between _ _ _ _ _) => false
  | .one _ => true
  | .join (.between _ _ _ _ _) _ _ _ => false
  | .join _ _ _ rest => noBetween rest

/-- The expression with the parentheses of the converter. -/
def nest : Expr → Expr
  | .one p => .one p
  | .join p c _ rest =>
      .join (.group [] (.one p) []) c ⟨[' '], wordOf c, [' ']⟩ (.one (.group [] (nest rest) []))

section Nest

variable {p : Operand} {c : Connective} {g : Gap} {rest e : Expr}

theorem noBetween_join (h : noBetween (.join p c g rest) = true) :
    noBetween (.one p) = true ∧ noBetween rest = true := by
  cases p with
  | atom a => exact ⟨rfl, h⟩
  | between a g low g' high => cases h
  | group before e after => exact ⟨rfl, h⟩

theorem parts_one (h : noBetween (.one p) = true) :
    ∃ t, p.parts .postgres = .one t := by
  cases p with
  | atom a => exact ⟨_, rfl⟩
  | between a g low g' high => cases h
  | group before e after => exact ⟨_, rfl⟩

theorem upper_wordOf (c : Connective) : upper (wordOf c) = wordOf c := by
  cases c with
  | and => rfl
  | or => rfl

theorem separates_spaced (c : Connective) {s t : Text} :
    Gap.Separates connectives ⟨[' '], wordOf c, [' ']⟩ s t where
  word := by
    rw [upper_wordOf]
    exact wordOf_mem c
  before := List.all_eq_true.mp rfl
  after := List.all_eq_true.mp rfl
  left := by
    rw [List.getLast?_concat]
    rfl
  right := rfl

theorem nest_sql (he : e.Sql) : (nest e).Sql := by
  induction e using Expr.chain_induction with
  | one p => exact he
  | join p c g rest ih =>
      obtain ⟨hp, -, -, hrest⟩ := he
      exact ⟨⟨nofun, hp, nofun⟩, separates_spaced c, upper_wordOf c, nofun, ih hrest, nofun⟩

theorem nest_write (he : e.Sql) (hb : noBetween e = true) :
    (nest e).write .postgres = nested (e.parts .postgres) := by
  induction e using Expr.chain_induction with
  | one p =>
      obtain ⟨t, ht⟩ := parts_one hb
      rw [nest, Expr.write, Expr.parts, ht]
      rfl
  | join p c g rest ih =>
      obtain ⟨-, -, hword, hrest⟩ := he
      obtain ⟨hp, hbrest⟩ := noBetween_join hb
      obtain ⟨t, ht⟩ := parts_one hp
      have hinner := ih hrest hbrest
      rw [Expr.write] at hinner
      rw [nest, Expr.write, Expr.parts, Operand.parts, Expr.parts, Expr.parts, Operand.parts, ht,
        hinner, Expr.parts, ht, List.nil_append, List.append_nil, List.nil_append,
        List.append_nil, Parts.append, Parts.append, nested, hword]
      rfl

theorem nest_truth (v : Fact → Bool) (e : Expr) : (nest e).truth v = (e.values v).nested := by
  induction e using Expr.chain_induction with
  | one p => exact Bool.or_false _
  | join p c g rest ih =>
      have hvalue : ∀ b d : Bool, ∀ c : Connective,
          (Chain.join (Chain.one b).value c (.one d)).value = c.apply b d := by
        intro b d c
        cases c with
        | and => cases b with | true => exact Bool.or_false d | false => rfl
        | or => cases b with | true => rfl | false => exact Bool.or_false d
      rw [Expr.values, Chain.nested, ← ih]
      exact hvalue _ _ c

end Nest

section Output

variable {r : Parts} {t : Text} {e out : Expr}

def texts : Parts → List Text
  | .one t => [t]
  | .join t _ rest => t :: texts rest

def bracketParts (lhs : Text) (c : Connective) (rhs : Text) : Parts :=
  .join (inParens lhs) ⟨[' '], wordOf c, [' ']⟩ (.one (inParens rhs))

theorem sound_bracketParts {lhs rhs : Text} (hl : Closed false lhs) (hr : Closed false rhs)
    (c : Connective) : (bracketParts lhs c rhs).Sound connectives :=
  ⟨ConnectiveScan.part_inParens hl, separates_spaced c, ConnectiveScan.part_inParens hr⟩

theorem exists_wordOf {w : Text} (h : w ∈ connectives.words) : ∃ c, w = wordOf c := by
  rcases List.mem_cons.mp h with h | h
  · exact ⟨.or, h⟩
  · exact ⟨.and, List.mem_singleton.mp h⟩

theorem closed_nested (hr : r.Sound connectives) :
    Closed false (nested r) ∧ Trimmed (nested r) := by
  induction r with
  | one t => exact ⟨hr.closed, hr.trimmed⟩
  | join t g rest ih =>
      obtain ⟨c, hc⟩ := exists_wordOf hr.2.1.word
      have hsound := sound_bracketParts hr.1.closed (ih hr.2.2).1 c
      rw [nested, hc]
      exact ⟨closed_parts hsound, Parts.trimmed_write hsound⟩

theorem not_same_one_join {s t : Text} {g : Gap} : ¬ Parts.Same (.one s) (.join t g r) := nofun

theorem same_rest {s t : Text} {g g' : Gap} {r' : Parts}
    (h : Parts.Same (.join s g r) (.join t g' r')) : Parts.Same r r' := by
  cases h with
  | join _ _ h => exact h

theorem group_of_first {p : Operand} {u : Text} (hu : Closed false u) (hp : p.Sql)
    (h : first (p.parts .postgres) = inParens u) :
    ∃ b e a, p = .group b e a ∧ b ++ (e.write .postgres ++ a) = u := by
  cases p with
  | atom a => exact absurd h (hp.bare u hu)
  | between a g low g' high =>
      exact absurd h.symm (inParens_ne_between hu hp.1 hp.2.1 hp.2.2.2.1)
  | group b e a => exact ⟨b, e, a, rfl, List.append_inj_left' (List.cons.inj h).2 rfl⟩

/-- The operands of the output are what stands in its two pairs of parentheses. -/
theorem groups_of_bracketed {lhs rhs : Text} {c : Connective} (hl : Closed false lhs)
    (hr : Closed false rhs) (hout : out.Sql)
    (h : out.write .postgres = bracketed lhs (wordOf c) rhs) :
    ∃ b e a b' e' a' c' g, out = .join (.group b e a) c' g (.one (.group b' e' a')) ∧
      b ++ (e.write .postgres ++ a) = lhs ∧ b' ++ (e'.write .postgres ++ a') = rhs := by
  have hsame : Parts.Same (out.parts .postgres) (bracketParts lhs c rhs) :=
    Parts.same_of_write (sound_expr out hout) (sound_bracketParts hl hr c) h
  cases out with
  | one p =>
      obtain ⟨b, e, a, rfl, -⟩ := group_of_first hl hout (@first_eq none none _ _ hsame)
      exact absurd hsame not_same_one_join
  | join p c' g rest =>
      obtain ⟨hp, -, -, hrest⟩ := hout
      have hfirst : first (p.parts .postgres) = inParens lhs := by
        have hextend := first_extend (p.parts .postgres) (some (g, rest.parts .postgres))
        rw [← hextend]
        exact @first_eq none none _ _ hsame
      obtain ⟨b, e, a, rfl, hlhs⟩ := group_of_first hl hp hfirst
      have htail : Parts.Same (rest.parts .postgres) (.one (inParens rhs)) := same_rest hsame
      cases rest with
      | one p' =>
          obtain ⟨b', e', a', rfl, hrhs⟩ :=
            group_of_first hr hrest (@first_eq none none _ _ htail)
          exact ⟨b, e, a, b', e', a', c', g, rfl, hlhs, hrhs⟩
      | join p' c'' g' rest' =>
          cases p' with
          | atom a' => cases htail
          | between a' _ _ _ _ => cases htail
          | group b' e' a' => cases htail

/-- Where the output is SQL, no part of the text was a part of a BETWEEN. -/
theorem clear_of_nested (hr : r.Sound connectives) (hout : out.Sql)
    (h : out.write .postgres = nested r) : ∀ t ∈ texts r, clear betweenWord t = true := by
  have hone : ∀ {t : Text} {e : Expr}, Part connectives t → e.Sql → e.write .postgres = t →
      clear betweenWord t = true := by
    intro t e ht he hwrite
    have hsame : Parts.Same (e.parts .postgres) (.one t) :=
      @Parts.same_of_write _ _ (.one t) (sound_expr e he) ht hwrite
    cases e with
    | one p =>
        cases p with
        | atom a =>
            cases hsame
            exact he.noBetween
        | between a g low g' high => cases hsame
        | group b e a =>
            cases hsame
            exact (ConnectiveScan.part_inParens
              (x := betweenWord) (closed_group he.1 he.2.1 he.2.2)).clear
    | join p c g rest =>
        cases p with
        | atom a => cases hsame
        | between a _ _ _ _ => cases hsame
        | group b e a => cases hsame
  induction r generalizing out with
  | one t =>
      intro u hu
      rw [List.mem_singleton.mp hu]
      exact hone hr hout h
  | join t g rest ih =>
      obtain ⟨c, hc⟩ := exists_wordOf hr.2.1.word
      obtain ⟨hclosed, htrimmed⟩ := closed_nested hr.2.2
      rw [nested, hc] at h
      obtain ⟨b, e, a, b', e', a', c', g', rfl, hlhs, hrhs⟩ :=
        groups_of_bracketed hr.1.closed hclosed hout h
      obtain ⟨⟨hb, he, ha⟩, -, -, hb', he', ha'⟩ := hout
      have hfirst : e.write .postgres = t := by
        rw [← strip_group hb he ha, hlhs, hr.1.trimmed.strip_eq]
      have hsecond : e'.write .postgres = nested rest := by
        rw [← strip_group hb' he' ha', hrhs, htrimmed.strip_eq]
      exact List.forall_mem_cons.mpr ⟨hone hr.1 he hfirst, ih hr.2.2 he' hsecond⟩

theorem not_clear_between {s t : Text} {g : Gap} (hs : Term s) (ht : Term t)
    (hg : g.Separates betweenWord s t) : clear betweenWord (s ++ (g.text ++ t)) ≠ true := by
  intro hclear
  have hpart := part_between hs ht hg
  exact ne_between ⟨hpart.trimmed, hpart.closed, hclear⟩ hs ht hg rfl

theorem noBetween_of_clear (he : e.Sql)
    (h : ∀ t ∈ texts (e.parts .postgres), clear betweenWord t = true) : noBetween e = true := by
  induction e using Expr.chain_induction with
  | one p =>
      cases p with
      | atom a => rfl
      | between a g low g' high =>
          exact absurd (h _ List.mem_cons_self) (not_clear_between he.1 he.2.1 he.2.2.2.1)
      | group b e a => rfl
  | join p c g rest ih =>
      obtain ⟨hp, -, -, hrest⟩ := he
      cases p with
      | atom a => exact ih hrest (List.forall_mem_cons.mp h).2
      | between a g low g' high =>
          exact absurd (h _ List.mem_cons_self) (not_clear_between hp.1 hp.2.1 hp.2.2.2.1)
      | group b e a => exact ih hrest (List.forall_mem_cons.mp h).2

end Output

section Facts

variable {e : Expr} {v : Fact → Bool}

theorem values_eq_map (v : Fact → Bool) (e : Expr) :
    e.values v = e.operands.map (Operand.truth v) := by
  induction e using Expr.chain_induction with
  | one p => rfl
  | join p c g rest ih => rw [Expr.values, ih, Expr.operands, Chain.map]

theorem facts_eq_flatMap (e : Expr) : e.facts = e.operands.items.flatMap Operand.facts := by
  induction e using Expr.chain_induction with
  | one p => rw [Expr.facts, Expr.operands, Chain.items, List.flatMap_singleton]
  | join p c g rest ih =>
      rw [Expr.facts, ih, Expr.operands, Chain.items, List.flatMap_cons]

/-- An expression is true where everything it speaks of is, and false where nothing is. -/
theorem truth_of_facts : ∀ e : Expr,
    ((∀ f ∈ e.facts, v f = true) → ∀ p ∈ e.operands.items, p.truth v = true) ∧
      ((∀ f ∈ e.facts, v f = false) → ∀ p ∈ e.operands.items, p.truth v = false) := by
  apply @Expr.rec
    (fun p => ((∀ f ∈ p.facts, v f = true) → p.truth v = true) ∧
      ((∀ f ∈ p.facts, v f = false) → p.truth v = false))
    (fun e => ((∀ f ∈ e.facts, v f = true) → ∀ p ∈ e.operands.items, p.truth v = true) ∧
      ((∀ f ∈ e.facts, v f = false) → ∀ p ∈ e.operands.items, p.truth v = false))
  · exact fun a => ⟨fun h => h _ List.mem_cons_self, fun h => h _ List.mem_cons_self⟩
  · exact fun a _ low _ high => ⟨fun h => h _ List.mem_cons_self, fun h => h _ List.mem_cons_self⟩
  · intro before e after ih
    have hvalue : (Operand.group before e after).truth v =
        (e.operands.map (Operand.truth v)).value := by
      rw [Operand.truth, values_eq_map]
    rw [hvalue]
    exact ⟨fun h => Chain.value_of_true _ (ih.1 h), fun h => Chain.value_of_false _ (ih.2 h)⟩
  · exact fun p ih => ⟨fun h => List.forall_mem_singleton.mpr (ih.1 h),
      fun h => List.forall_mem_singleton.mpr (ih.2 h)⟩
  · intro p c g rest ihp ih
    refine ⟨fun h => ?_, fun h => ?_⟩
    · obtain ⟨hp, hrest⟩ := List.forall_mem_append.mp h
      exact List.forall_mem_cons.mpr ⟨ihp.1 hp, ih.1 hrest⟩
    · obtain ⟨hp, hrest⟩ := List.forall_mem_append.mp h
      exact List.forall_mem_cons.mpr ⟨ihp.2 hp, ih.2 hrest⟩

end Facts

/-! ## What the converter reads as SQL does -/

/-- No backslash stands before a quote. -/
def unescapedFrom : Option Char → Text → Bool
  | _, [] => true
  | last, c :: cs => !(last = some '\\' && isQuote c) && unescapedFrom (some c) cs

def unescaped (s : Text) : Bool := unescapedFrom none s

def Piece.Named : Piece → Prop
  | .text t => '[' ∉ t
  | .name w => w ≠ [] ∧ ∀ c ∈ w, isWord c = true

mutual

def OperandNamed : Operand → Prop
  | .atom a => ∀ q ∈ a, Piece.Named q
  | .between a _ low _ high =>
      (∀ q ∈ a, Piece.Named q) ∧ (∀ q ∈ low, Piece.Named q) ∧ ∀ q ∈ high, Piece.Named q
  | .group _ e _ => ExprNamed e

def ExprNamed : Expr → Prop
  | .one p => OperandNamed p
  | .join p _ _ rest => OperandNamed p ∧ ExprNamed rest

end

/-- The text is of ASCII characters, and the rules by which the converter reads it are those of SQL:
brackets are around names of word characters, no backslash stands before a quote, no plus sign beside
one, no call in a text, and every connective of an operand outside parentheses is one for SQL. -/
structure Plain (e : Expr) : Prop where
  ascii : Ascii (e.write .tsql)
  named : ExprNamed e
  unescaped : unescaped (e.write .postgres) = true
  unjoined : unjoined (e.write .postgres) = true
  callFree : callFree (e.write .tsql) = true
  clear : ∀ t ∈ texts (e.parts .postgres), clear logicalScan t = true

section Plain

variable {s t : Text} {p : ConnectiveScan.Place} {last : Option Char} {r : Parts}

theorem unescapedFrom_right (h : unescapedFrom last (s ++ t) = true) :
    unescaped t = true := by
  induction s generalizing last with
  | nil =>
      cases t with
      | nil => rfl
      | cons c t =>
          rw [List.nil_append, unescapedFrom, Bool.and_eq_true] at h
          rw [unescaped, unescapedFrom, h.2]
          rfl
  | cons c s ih =>
      rw [List.cons_append, unescapedFrom, Bool.and_eq_true] at h
      exact ih h.2

theorem unescapedFrom_left (h : unescapedFrom last (s ++ t) = true) :
    unescapedFrom last s = true := by
  induction s generalizing last with
  | nil => rfl
  | cons c s ih =>
      rw [List.cons_append, unescapedFrom, Bool.and_eq_true] at h
      rw [unescapedFrom, h.1, ih h.2]
      rfl

theorem step_unescaped {c : Char} (hquote : ∀ q ∈ p.quote, isQuote q = true)
    (h : (decide (p.last = some '\\') && isQuote c) = false) :
    p.step true c = p.step false c ∧ ∀ q ∈ (p.step false c).quote, isQuote q = true := by
  obtain ⟨quote, depth, last⟩ := p
  cases quote with
  | none =>
      refine ⟨rfl, fun q hq => ?_⟩
      rw [ConnectiveScan.Place.step] at hq
      dsimp only at hq
      split at hq
      · next hc => rwa [← Option.some.inj hq]
      · cases hq
  | some q =>
      have hq := hquote q rfl
      by_cases hc : c = q
      · subst hc
        rw [hq, Bool.and_true] at h
        simp [ConnectiveScan.Place.step, h]
      · simp [ConnectiveScan.Place.step, hc, hq]

theorem walk_unescaped (hquote : ∀ q ∈ p.quote, isQuote q = true)
    (h : unescapedFrom p.last s = true) :
    ConnectiveScan.walk true p s = ConnectiveScan.walk false p s ∧
      ConnectiveScan.staysFrom true p s = ConnectiveScan.staysFrom false p s := by
  induction s generalizing p with
  | nil => exact ⟨rfl, rfl⟩
  | cons c s ih =>
      rw [unescapedFrom, Bool.and_eq_true, Bool.not_eq_true'] at h
      obtain ⟨hstep, hnext⟩ := step_unescaped hquote h.1
      have hlast : (p.step false c).last = some c := ConnectiveScan.step_last false p c
      obtain ⟨hwalk, hstays⟩ := ih hnext (hlast ▸ h.2)
      rw [ConnectiveScan.walk, List.foldl_cons, hstep, ← ConnectiveScan.walk, hwalk,
        ConnectiveScan.staysFrom, hstep, hstays]
      exact ⟨rfl, rfl⟩

theorem closed_unescaped (h : Closed false s) (hs : unescaped s = true) : Closed true s := by
  obtain ⟨hwalk, hstays⟩ := @walk_unescaped s ConnectiveScan.start nofun hs
  exact ⟨hwalk ▸ h.quote, hwalk ▸ h.depth, hstays ▸ h.stays⟩

theorem any_alphanum {o : Option Char} (h : o.any isSqlWord = false) :
    o.any Char.isAlphanum = false := by
  cases o with
  | none => rfl
  | some c =>
      rw [Option.any_some] at h ⊢
      rw [← Bool.not_eq_true]
      intro hc
      rw [isSqlWord_of_alphanum c hc] at h
      cases h

theorem sound_logicalScan (hr : r.Sound connectives) (hs : unescaped r.write = true)
    (hclear : ∀ t ∈ texts r, clear logicalScan t = true) : r.Sound logicalScan := by
  have hpart : ∀ {t : Text}, Part connectives t → unescaped t = true →
      clear logicalScan t = true → Part logicalScan t :=
    fun ht hun hc => ⟨ht.trimmed, closed_unescaped ht.closed hun, hc⟩
  induction r with
  | one t => exact hpart hr hs (hclear t List.mem_cons_self)
  | join t g rest ih =>
      obtain ⟨ht, hg, hrest⟩ := hr
      obtain ⟨hfirst, hclear⟩ := List.forall_mem_cons.mp hclear
      refine ⟨hpart ht (unescapedFrom_left hs) hfirst, ?_,
        ih hrest (unescapedFrom_right (s := t ++ g.text) (by rwa [List.append_assoc])) hclear⟩
      exact ⟨hg.word, hg.before, hg.after, any_alphanum hg.left, any_alphanum hg.right⟩

end Plain

/-! ## The output -/

section Quoting

variable {e : Expr} {rewriteCall : Text → Text}

theorem quotes_atom {a : Atom} (h : ∀ q ∈ a, Piece.Named q) :
    Quotes (a.write .tsql) (a.write .postgres) := by
  induction a with
  | nil => exact quotes_of_noBracket List.not_mem_nil
  | cons q a ih =>
      obtain ⟨hq, ha⟩ := List.forall_mem_cons.mp h
      have hpiece : Quotes (q.write .tsql) (q.write .postgres) := by
        cases q with
        | text t => exact quotes_of_noBracket hq
        | name w => exact quotes_name hq.1 hq.2
      exact hpiece.append (ih ha)

theorem quotes_gap {x : ConnectiveScan.Lexing} (hx : x.wordChar = isSqlWord) {g : Gap}
    {s t : Text} (hg : g.Separates x s t) : Quotes g.text g.text := by
  apply quotes_of_noBracket
  have hblank : ∀ b, Blank b → '[' ∉ b := fun b hb hmem => absurd (hb _ hmem) (by decide)
  rw [Gap.text, List.mem_append, List.mem_append, not_or, not_or]
  refine ⟨hblank _ hg.before, fun hmem => ?_, hblank _ hg.after⟩
  have hchar := x.letters _ hg.word _ (List.mem_map_of_mem hmem)
  rw [hx] at hchar
  exact absurd hchar (by decide)

theorem quotes_write : ∀ e : Expr, e.Sql → ExprNamed e →
    Quotes (e.write .tsql) (e.write .postgres) := by
  apply @Expr.rec
    (fun p => p.Sql → OperandNamed p →
      Quotes (p.parts .tsql).write (p.parts .postgres).write)
    (fun e => e.Sql → ExprNamed e → Quotes (e.write .tsql) (e.write .postgres))
  · exact fun a _ h => quotes_atom h
  · rintro a g low g' high ⟨-, -, -, hg, hg', -⟩ ⟨ha, hlow, hhigh⟩
    exact ((quotes_atom ha).append ((quotes_gap rfl hg).append (quotes_atom hlow))).append
      ((quotes_gap rfl hg').append (quotes_atom hhigh))
  · rintro b e a ih ⟨hb, he, ha⟩ hnamed
    have hblank : ∀ b, Blank b → Quotes b b := fun b hb =>
      quotes_of_noBracket fun hmem => absurd (hb _ hmem) (by decide)
    have hparen : ∀ c, c ≠ '[' → Quotes [c] [c] := fun c hc =>
      quotes_of_noBracket fun hmem => hc (List.mem_singleton.mp hmem).symm
    exact (hparen '(' (by decide)).append
      (((hblank b hb).append ((ih he hnamed).append (hblank a ha))).append
        (hparen ')' (by decide)))
  · exact fun p ih => ih
  · rintro p c g rest ihp ih ⟨hp, hg, -, hrest⟩ ⟨hnamed, hnamed'⟩
    rw [Expr.write, Expr.parts, Parts.write_append, Expr.write, Expr.parts, Parts.write_append]
    exact (ihp hp hnamed).append ((quotes_gap rfl hg).append (ih hrest hnamed'))

/-- The converter first writes the names as PostgreSQL does. -/
theorem convertExpression_tsql (he : e.Sql) (hnamed : ExprNamed e) (fuel : Nat) :
    convertExpression rewriteCall fuel (e.write .tsql) =
      convertExpression rewriteCall fuel (e.write .postgres) := by
  have hquotes := quotes_write e he hnamed
  have hquote := quoteIdentifiers_of_quotes hquotes
  have htrimmed : Trimmed (e.write .postgres) := Parts.trimmed_write (sound_expr e he)
  have htrimmed' : Trimmed (e.write .tsql) := by
    apply trimmed_of_unmarked _ htrimmed
    rw [← hquote, unmarked_quoteIdentifiers]
  have hsame := quoteIdentifiers_of_quotes (quotes_of_noBracket hquotes.noBracket)
  cases fuel with
  | zero => rfl
  | succ fuel =>
      rw [convertExpression, convertExpression, htrimmed.strip_eq, htrimmed'.strip_eq,
        if_neg htrimmed.ne_nil, if_neg htrimmed'.ne_nil, hquote, hsame]

theorem converts_nested (he : e.Sql) (hplain : Plain e) {fuel : Nat}
    (hfuel : partCount (e.parts .postgres) ≤ fuel) :
    convertExpression rewriteCall fuel (e.write .tsql) = some (nested (e.parts .postgres)) := by
  have hquotes := quotes_write e he hplain.named
  have hfree := callFree_quoteIdentifiers hplain.callFree
  rw [quoteIdentifiers_of_quotes hquotes] at hfree
  rw [convertExpression_tsql he hplain.named]
  exact convertExpression_parts
    (sound_logicalScan (sound_expr e he) hplain.unescaped hplain.clear) hplain.unjoined hfree
    hquotes.noBracket hfuel

end Quoting

/-- The output is an expression that says the same. -/
def Preserved (rewriteCall : Text → Text) (e : Expr) : Prop :=
  ∃ out : Expr, out.Sql ∧ Converts rewriteCall (e.write .tsql) (out.write .postgres) ∧
    ∀ v, out.truth v = e.truth v

/-- Outside parentheses no BETWEEN stands, and no OR after an AND. -/
def Straight (e : Expr) : Prop := noBetween e = true ∧ Ordered e.operands.connectives

section Preserved

variable {e : Expr} {rewriteCall : Text → Text}

theorem preserved_of_straight (he : e.Sql) (hplain : Plain e) (h : Straight e) :
    Preserved rewriteCall e := by
  refine ⟨nest e, nest_sql he, ⟨partCount (e.parts .postgres), ?_⟩, fun v => ?_⟩
  · rw [nest_write he h.1]
    exact converts_nested he hplain (Nat.le_refl _)
  · have hordered : Ordered (e.operands.map (Operand.truth v)).connectives := by
      rw [Chain.connectives_map]
      exact h.2
    rw [nest_truth, Expr.truth, values_eq_map, Chain.value_eq_nested hordered]

theorem straight_of_preserved (he : e.Sql) (hplain : Plain e) (hdistinct : e.facts.Nodup)
    (h : Preserved rewriteCall e) : Straight e := by
  obtain ⟨out, hout, ⟨fuel, hfuel⟩, htruth⟩ := h
  have hsound := sound_expr e he
  have hwrite : out.write .postgres = nested (e.parts .postgres) := by
    have hnested := @converts_nested e rewriteCall he hplain _
      (Nat.le_max_left (partCount (e.parts .postgres)) fuel)
    rw [convertExpression_mono (Nat.le_max_right _ fuel) hfuel] at hnested
    exact Option.some.inj hnested
  have hbetween := noBetween_of_clear he (clear_of_nested hsound hout hwrite)
  refine ⟨hbetween, ?_⟩
  by_contra hordered
  obtain ⟨front, back, hitems, hdiffer⟩ := Chain.exists_differ hordered
  -- what the operands up to the AND speak of is false, everything else true
  have hfacts := hdistinct
  rw [facts_eq_flatMap, hitems, List.flatMap_append, List.nodup_append] at hfacts
  let v : Fact → Bool := fun f => decide (f ∉ front.flatMap Operand.facts)
  have hfalse : ∀ p ∈ front, p.truth v = false := by
    intro p hp
    apply (@truth_of_facts v (.one p)).2 _ p List.mem_cons_self
    intro f hf
    exact decide_eq_false (not_not.mpr (List.mem_flatMap.mpr ⟨p, hp, hf⟩))
  have htrue : ∀ p ∈ back, p.truth v = true := by
    intro p hp
    apply (@truth_of_facts v (.one p)).1 _ p List.mem_cons_self
    intro f hf
    exact decide_eq_true fun hmem =>
      hfacts.2.2 f hmem f (List.mem_flatMap.mpr ⟨p, hp, hf⟩) rfl
  obtain ⟨hvalue, hnested⟩ := hdiffer (Operand.truth v) hfalse htrue
  have hsame : out.values v = (nest e).values v :=
    values_of_write v hout (nest_sql he) (hwrite.trans (nest_write he hbetween).symm)
  have hout : out.truth v = (e.values v).nested := by
    rw [← nest_truth, Expr.truth, hsame, Expr.truth]
  rw [htruth, Expr.truth, values_eq_map, hvalue, hnested] at hout
  cases hout

end Preserved

/-- The conversion ends for every text without calls. What is read as SQL does says the same
afterwards where outside parentheses no BETWEEN stands and no OR after an AND, and nowhere else if
its facts are different ones. -/
theorem convertExpression_logic (rewriteCall : Text → Text) :
    (∀ s, Ascii s → callFree s = true → ∃ out, Converts rewriteCall s out) ∧
      ∀ e : Expr, e.Sql → Plain e →
        (Straight e → Preserved rewriteCall e) ∧
          (e.facts.Nodup → Preserved rewriteCall e → Straight e) := by
  refine ⟨fun s _ hs => ?_, fun e he hplain => ⟨preserved_of_straight he hplain,
    straight_of_preserved he hplain⟩⟩
  obtain ⟨out, hout⟩ := @convertExpression_total s rewriteCall hs _ (Nat.lt_succ_self s.length)
  exact ⟨out, _, hout⟩

section Samples

def comparison (c d : Char) : Operand := .atom [.text [c, ' ', '=', ' ', d]]

def spaced (w : String) : Gap := ⟨[' '], w.toList, [' ']⟩

/-- `a = 1 AND b = 2 OR c = 3` -/
def andOr : Expr :=
  .join (comparison 'a' '1') .and (spaced "AND")
    (.join (comparison 'b' '2') .or (spaced "or") (.one (comparison 'c' '3')))

/-- `a = 1 OR b = 2 AND (c = 3)` -/
def orAnd : Expr :=
  .join (comparison 'a' '1') .or (spaced "OR")
    (.join (comparison 'b' '2') .and (spaced "and")
      (.one (.group [] (.one (comparison 'c' '3')) [' '])))

theorem atomic_of_check {c : Char} {s : Text} (hc : isSpace c = false) (hopen : c ≠ '(')
    (hlast : ∃ d ∈ (c :: s).getLast?, isSpace d = false)
    (hquote : (ConnectiveScan.walk false ConnectiveScan.start (c :: s)).quote = none)
    (hdepth : (ConnectiveScan.walk false ConnectiveScan.start (c :: s)).depth = 0)
    (hstays : ConnectiveScan.staysFrom false ConnectiveScan.start (c :: s) = true)
    (hclear : clear connectives (c :: s) = true) (hbetween : clear betweenWord (c :: s) = true)
    (hcase : clear caseWords (c :: s) = true) (hcomment : uncommented (c :: s) = true) :
    Atomic (c :: s) where
  part := ⟨⟨⟨c, rfl, hc⟩, hlast⟩, ⟨hquote, hdepth, hstays⟩, hclear⟩
  noBetween := hbetween
  noCase := hcase
  noComment := hcomment
  bare := fun _ _ heq => hopen (List.cons.inj heq).1

theorem atomic_a : Atomic "a = 1".toList :=
  atomic_of_check rfl (by decide) ⟨'1', rfl, rfl⟩ rfl rfl rfl (by decide) (by decide)
    (by decide) (by decide)

theorem atomic_b : Atomic "b = 2".toList :=
  atomic_of_check rfl (by decide) ⟨'2', rfl, rfl⟩ rfl rfl rfl (by decide) (by decide)
    (by decide) (by decide)

theorem atomic_c : Atomic "c = 3".toList :=
  atomic_of_check rfl (by decide) ⟨'3', rfl, rfl⟩ rfl rfl rfl (by decide) (by decide)
    (by decide) (by decide)

theorem andOr_sql : andOr.Sql :=
  ⟨atomic_a, ⟨by decide, by decide, by decide, by decide, by decide⟩, by decide,
    atomic_b, ⟨by decide, by decide, by decide, by decide, by decide⟩, by decide, atomic_c⟩

theorem andOr_plain : Plain andOr where
  ascii := by decide
  named := by
    refine ⟨?_, ?_, ?_⟩
    all_goals exact List.forall_mem_singleton.mpr fun h => absurd h (by decide)
  unescaped := by decide
  unjoined := by decide
  callFree := by decide
  clear := by decide

theorem orAnd_sql : orAnd.Sql :=
  ⟨atomic_a, ⟨by decide, by decide, by decide, by decide, by decide⟩, by decide,
    atomic_b, ⟨by decide, by decide, by decide, by decide, by decide⟩, by decide,
    by decide, atomic_c, by decide⟩

theorem orAnd_plain : Plain orAnd where
  ascii := by decide +kernel
  named := by
    refine ⟨?_, ?_, ?_⟩
    all_goals exact List.forall_mem_singleton.mpr fun h => absurd h (by decide)
  unescaped := by decide +kernel
  unjoined := by decide +kernel
  callFree := by decide +kernel
  clear := by decide +kernel

theorem orAnd_kept : orAnd.write .tsql = "a = 1 OR b = 2 and (c = 3 )".toList ∧
    Preserved id orAnd :=
  ⟨rfl, ((convertExpression_logic id).2 orAnd orAnd_sql orAnd_plain).1 ⟨rfl, by decide⟩⟩

theorem andOr_changed : andOr.Sql ∧ callFree (andOr.write .tsql) = true ∧
    andOr.write .tsql = "a = 1 AND b = 2 or c = 3".toList ∧
    Converts id (andOr.write .tsql) "(a = 1) AND ((b = 2) OR (c = 3))".toList ∧
      ¬ Preserved id andOr := by
  refine ⟨andOr_sql, by decide, rfl, ⟨3, ?_⟩, fun h => ?_⟩
  · exact converts_nested andOr_sql andOr_plain (Nat.le_refl 3)
  · have hstraight := straight_of_preserved andOr_sql andOr_plain (by decide) h
    exact absurd hstraight.2 (by decide)

end Samples

end SqlOptima.ExpressionLogic
