import Mathlib.Data.List.Infix
import SqlOptima.PythonText

namespace SqlOptima.RowcountConverter

open PythonText

section Converter

def rowcount : Text := "@@ROWCOUNT".toList

def rowCountVariable : Text := "v_row_count".toList

def diagnostics : Text := "GET DIAGNOSTICS v_row_count = ROW_COUNT;".toList

def dmlWords : List Text := ["UPDATE".toList, "INSERT".toList, "DELETE".toList]

/-- `'@@ROWCOUNT' in content.upper()`. -/
def hasRowcount (content : Text) : Bool := (upper content).tails.any (rowcount.isPrefixOf ·)

/-- A match of `(UPDATE|INSERT|DELETE)\b.*?;` at the beginning of a text without line breaks; each
of the words has six letters. -/
def startsDml (rest : Text) : Bool :=
  dmlWords.any (·.isPrefixOf (upper rest)) && !(rest.drop 6).head?.any isWord &&
    (rest.drop 6).contains ';'

def isDmlLine (line : Text) : Bool := line.tails.any startsDml

/-- The line gets the diagnostics line after it. -/
def isFollowed (line : Text) (rest : List Text) : Bool :=
  isDmlLine line && (rest.take 9).any hasRowcount

def injectLines : List Text → List Text
  | [] => []
  | line :: rest =>
      if isFollowed line rest then line :: diagnostics :: injectLines rest
      else line :: injectLines rest

def injectGetDiagnostics (content : Text) : Text :=
  if hasRowcount content then unlines (injectLines (lines content)) else content

def rowcountMatch : Matcher := fun _ rest =>
  if rowcount.isPrefixOf (upper rest) then some (rowCountVariable, rowcount.length) else none

def replaceRowcountRefs (content : Text) : Text :=
  if hasRowcount content then substitute rowcountMatch content else content

def applyAll (content : Text) : Text := replaceRowcountRefs (injectGetDiagnostics content)

end Converter

section Programs

/-- An `INSERT`, an `UPDATE` or a `DELETE`; another statement that PostgreSQL counts rows of, such
as a query; or one without a count, such as an assignment. -/
inductive Kind where
  | dml
  | query
  | other
  deriving DecidableEq

/-- A statement on one or several lines; the gap separates it from the next statement on its last
line, and without a gap its last line ends with it. Its kind is not told by its first word, which a
comment or a `WITH` may stand before. -/
structure Statement where
  kind : Kind
  head : Text
  more : List Text
  gap : Option Text
  head_noBreak : '\n' ∉ head
  more_noBreak : ∀ line ∈ more, '\n' ∉ line
  gap_noBreak : ∀ blanks ∈ gap, '\n' ∉ blanks

def Statement.text (s : Statement) : Text := unlines (s.head :: s.more)

def Statement.reads (s : Statement) : Bool := hasRowcount s.text

def programText : List Statement → Text
  | [] => []
  | s :: rest => s.text ++ s.gap.getD ['\n'] ++ programText rest

/-- A line of a program: the statements that end on it, and whether one goes on in the next line. -/
structure Row where
  text : Text
  ends : List Statement
  inside : Bool

def place (s : Statement) (rest : List Row) : Text → List Text → List Row
  | line, [] =>
      match s.gap, rest with
      | none, rest => ⟨line, [s], false⟩ :: rest
      | some blanks, [] => [⟨line ++ blanks, [s], false⟩]
      | some blanks, row :: rest =>
          ⟨line ++ blanks ++ row.text, s :: row.ends, row.inside⟩ :: rest
  | line, next :: more => ⟨line, [], true⟩ :: place s rest next more

def layout : List Statement → List Row
  | [] => [⟨[], [], false⟩]
  | s :: rest => place s (layout rest) s.head s.more

/-- A line of the converted program. -/
inductive OutputLine where
  | source (row : Row)
  | diagnostics (inside : Bool)

def OutputLine.text : OutputLine → Text
  | .source row => replaceRowcountRefs row.text
  | .diagnostics _ => RowcountConverter.diagnostics

def output : List Row → List OutputLine
  | [] => []
  | row :: rest =>
      if isFollowed row.text (rest.map Row.text) then
        .source row :: .diagnostics row.inside :: output rest
      else .source row :: output rest

/-- The steps of the converted program when it runs. -/
inductive Step where
  | statement (s : Statement)
  | diagnostics

def OutputLine.steps : OutputLine → List Step
  | .source row => row.ends.map .statement
  | .diagnostics _ => [.diagnostics]

/-- Each reference to `v_row_count` has the number of rows of the DML statement executed last before
it. `last` is that number, `rowCount` what PostgreSQL has as `ROW_COUNT`, of the last statement that
has a count, and the `k`-th statement has the count `counts k`. -/
def ReadsRight (counts : Nat → Nat) :
    Nat → Option Nat → Option Nat → Option Nat → List Step → Prop
  | _, _, _, _, [] => True
  | k, last, rowCount, _, .diagnostics :: rest => ReadsRight counts k last rowCount rowCount rest
  | k, last, rowCount, value, .statement s :: rest =>
      (s.reads = true → last.isSome = true → value = last) ∧
        ReadsRight counts (k + 1) (if s.kind = .dml then some (counts k) else last)
          (if s.kind = .other then rowCount else some (counts k)) value rest

/-- No diagnostics stand inside a statement, and every reference reads the right count. -/
structure CountsRight (out : List OutputLine) : Prop where
  whole : ∀ inside, .diagnostics inside ∈ out → inside = false
  counts : ∀ counts, ReadsRight counts 0 none none none (out.flatMap OutputLine.steps)

end Programs

section Conditions

/-- No line that is followed by the diagnostics lies inside a statement. -/
def diagnosticsOutside : List Row → Bool
  | [] => true
  | row :: rest =>
      !(isFollowed row.text (rest.map Row.text) && row.inside) && diagnosticsOutside rest

/-- Whether a DML statement has been executed, and whether `ROW_COUNT` and the variable are of
another statement than the last one. -/
structure Known where
  seen : Bool
  behind : Bool
  stale : Bool

def Known.start : Known := ⟨false, false, false⟩

def Known.after (n : Known) (s : Statement) : Known :=
  match s.kind with
  | .dml => ⟨true, false, true⟩
  | .query => { n with behind := true }
  | .other => n

/-- The diagnostics are taken. -/
def Known.taken (n : Known) : Known := { n with stale := n.behind }

/-- No statement reads while the variable is of another statement than the last DML statement. -/
def readsFresh : Known → List Statement → Bool
  | _, [] => true
  | n, s :: rest => !(s.reads && (n.seen && n.stale)) && readsFresh (n.after s) rest

/-- Between a DML statement and the next one that reads, a line ends that the diagnostics follow,
and no query before it. -/
def noStaleRead : Known → List Row → Bool
  | _, [] => true
  | n, row :: rest =>
      readsFresh n row.ends &&
        noStaleRead (if isFollowed row.text (rest.map Row.text) then
          (row.ends.foldl Known.after n).taken else row.ends.foldl Known.after n) rest

end Conditions

end SqlOptima.RowcountConverter

namespace SqlOptima.RowcountReading

open PythonText RowcountConverter

section Lines

variable {s t : Text} {row : Row} {rows : List Row}

attribute [local simp] injectLines in
attribute [local simp] layout in
attribute [local simp] output in
attribute [local simp] place in
theorem isPrefixOf_append_stop {w : Text} {c : Char} (hw : c ∉ w) (s t : Text) :
    w.isPrefixOf (s ++ c :: t) = w.isPrefixOf s := by
  induction w generalizing s with
  | nil => simp
  | cons d w ih =>
      obtain ⟨hd, hw'⟩ : c ≠ d ∧ c ∉ w := by simpa using hw
      cases s with
      | nil => simp [List.isPrefixOf, Ne.symm hd]
      | cons e s => simp only [List.cons_append, List.isPrefixOf, ih hw' s]

theorem hasRowcount_iff : hasRowcount s = true ↔ rowcount <:+: upper s := by
  simp only [hasRowcount, List.any_eq_true, List.mem_tails, List.isPrefixOf_iff_prefix,
    List.infix_iff_prefix_suffix]
  exact ⟨fun ⟨t, hs, hp⟩ => ⟨t, hp, hs⟩, fun ⟨t, hp, hs⟩ => ⟨t, hs, hp⟩⟩

theorem hasRowcount_mono (h : s <:+: t) (hs : hasRowcount s = true) :
    hasRowcount t = true :=
  hasRowcount_iff.mpr ((hasRowcount_iff.mp hs).trans (h.map Char.toUpper))

theorem infix_unlines {ls : List Text} (h : s ∈ ls) : s <:+: unlines ls := by
  induction ls with
  | nil => cases h
  | cons l ls ih =>
      cases ls with
      | nil =>
          obtain rfl := List.mem_singleton.mp h
          rw [unlines, List.intercalate_singleton]
      | cons l' ls =>
          rw [unlines_cons_cons]
          rcases List.mem_cons.mp h with rfl | hrest
          · exact (List.prefix_append s _).isInfix
          · exact (ih hrest).trans ((List.suffix_cons '\n' _).isInfix.trans
              (List.suffix_append l _).isInfix)

theorem substituteFrom_of_none {m : Matcher} (before : Option Char)
    (h : ∀ before u, u <:+ s → m before u = none) : substituteFrom m 0 before s = s := by
  induction s generalizing before with
  | nil => rfl
  | cons c s ih =>
      rw [substituteFrom, h before (c :: s) (List.suffix_refl _)]
      change c :: substituteFrom m 0 (some c) s = c :: s
      rw [ih (some c) fun before u hu => h before u (hu.trans (List.suffix_cons c s))]

theorem replaceRowcountRefs_eq (s : Text) :
    replaceRowcountRefs s = substitute rowcountMatch s := by
  unfold replaceRowcountRefs
  cases hs : hasRowcount s with
  | true => rfl
  | false =>
      refine (substituteFrom_of_none none fun before u hu => if_neg fun hmatch => ?_).symm
      have hin : rowcount <:+: upper s :=
        (List.isPrefixOf_iff_prefix.mp hmatch).isInfix.trans (hu.isInfix.map Char.toUpper)
      rw [hasRowcount_iff.mpr hin] at hs
      cases hs

theorem substituteFrom_before (skip : Nat) (before before' : Option Char) (s : Text) :
    substituteFrom rowcountMatch skip before s =
      substituteFrom rowcountMatch skip before' s := by
  cases s with
  | nil => cases skip <;> rfl
  | cons c s => cases skip <;> rfl

theorem length_of_rowcountMatch (before : Option Char) (s r : Text) (n : Nat)
    (h : rowcountMatch before s = some (r, n)) : n ≤ s.length := by
  unfold rowcountMatch at h
  split_ifs at h with hmatch
  obtain ⟨-, rfl⟩ := Prod.mk.inj (Option.some.inj h)
  simpa [upper] using (List.isPrefixOf_iff_prefix.mp hmatch).length_le

theorem toUpper_break : Char.toUpper '\n' = '\n' := by decide

/-- No match goes over a line break. -/
theorem substitute_append_break (s t : Text) :
    substitute rowcountMatch (s ++ '\n' :: t) =
      substitute rowcountMatch s ++ '\n' :: substitute rowcountMatch t := by
  have hbreak : '\n' ∉ rowcount := by decide
  have hlocal (before : Option Char) (b : Text) :
      rowcountMatch before (b ++ '\n' :: t) = rowcountMatch before b := by
    unfold rowcountMatch
    rw [upper_append, upper, upper, List.map_cons, toUpper_break,
      isPrefixOf_append_stop hbreak]
  have hhere : rowcountMatch (s.getLast?.or none) ('\n' :: t) = none := by
    have hnil := hlocal (s.getLast?.or none) []
    rw [List.nil_append] at hnil
    rw [hnil]
    rfl
  rw [substitute, substituteFrom_append _ length_of_rowcountMatch s 0 none (Nat.zero_le _)
    fun a b _ _ => hlocal _ b, substituteFrom, hhere]
  change substituteFrom rowcountMatch 0 none s ++
    '\n' :: substituteFrom rowcountMatch 0 (some '\n') t = _
  rw [substituteFrom_before 0 (some '\n') none]
  rfl

theorem substitute_unlines (ls : List Text) :
    substitute rowcountMatch (unlines ls) = unlines (ls.map (substitute rowcountMatch)) := by
  induction ls with
  | nil => rfl
  | cons l ls ih =>
      cases ls with
      | nil => simp [unlines, List.intercalate_singleton]
      | cons l' ls =>
          rw [unlines_cons_cons, substitute_append_break, ih]
          exact (unlines_cons_cons _ _ _).symm

theorem place_break {s : Statement} (hgap : s.gap = none) (rest : List Row) (line : Text) :
    place s rest line [] = ⟨line, [s], false⟩ :: rest := by
  simp [place, hgap]

theorem place_gap {s : Statement} {blanks : Text} (hgap : s.gap = some blanks) (row : Row)
    (rest : List Row) (line : Text) :
    place s (row :: rest) line [] =
      ⟨line ++ blanks ++ row.text, s :: row.ends, row.inside⟩ :: rest := by
  simp [place, hgap]

theorem place_ne_nil (s : Statement) (hrows : rows ≠ []) (line : Text) (more : List Text) :
    place s rows line more ≠ [] := by
  cases more with
  | nil =>
      obtain ⟨row, rest, rfl⟩ := List.exists_cons_of_ne_nil hrows
      cases hgap : s.gap with
      | none => simp [place_break hgap]
      | some blanks => simp [place_gap hgap]
  | cons next more => exact List.cons_ne_nil _ _

theorem layout_ne_nil (p : List Statement) : layout p ≠ [] := by
  induction p with
  | nil => exact List.cons_ne_nil _ _
  | cons s rest ih => exact place_ne_nil s ih s.head s.more

theorem unlines_cons {l : Text} {ls : List Text} (h : ls ≠ []) :
    unlines (l :: ls) = l ++ '\n' :: unlines ls := by
  obtain ⟨l', ls, rfl⟩ := List.exists_cons_of_ne_nil h
  exact unlines_cons_cons l l' ls

theorem unlines_append_head (l t : Text) (ls : List Text) :
    unlines ((l ++ t) :: ls) = l ++ unlines (t :: ls) := by
  cases ls with
  | nil => simp [unlines, List.intercalate_singleton]
  | cons l' ls => rw [unlines_cons_cons, unlines_cons_cons, List.append_assoc]

theorem unlines_place (s : Statement) (hrows : rows ≠ []) (line : Text) (more : List Text) :
    unlines ((place s rows line more).map Row.text) =
      unlines (line :: more) ++ s.gap.getD ['\n'] ++ unlines (rows.map Row.text) := by
  obtain ⟨row, rest, rfl⟩ := List.exists_cons_of_ne_nil hrows
  induction more generalizing line with
  | nil =>
      have hline : unlines [line] = line := List.intercalate_singleton
      rw [hline]
      cases hgap : s.gap with
      | none =>
          rw [place_break hgap]
          exact (unlines_cons (List.cons_ne_nil _ _)).trans (List.append_cons line '\n' _)
      | some blanks =>
          rw [place_gap hgap, List.map_cons, unlines_append_head]
          rfl
  | cons next more ih =>
      rw [place, List.map_cons, unlines_cons (by simpa using place_ne_nil s hrows next more), ih,
        unlines_cons_cons, List.append_assoc, List.append_assoc, List.append_assoc,
        List.cons_append]

theorem unlines_layout (p : List Statement) :
    unlines ((layout p).map Row.text) = programText p := by
  induction p with
  | nil => rfl
  | cons s rest ih =>
      rw [layout, unlines_place s (layout_ne_nil rest), ih]
      rfl

theorem noBreak_place (s : Statement) (hne : rows ≠ [])
    (hrows : ∀ row ∈ rows, '\n' ∉ row.text) (line : Text) (more : List Text)
    (hline : '\n' ∉ line) (hmore : ∀ l ∈ more, '\n' ∉ l) :
    ∀ row ∈ place s rows line more, '\n' ∉ row.text := by
  obtain ⟨row, rest, rfl⟩ := List.exists_cons_of_ne_nil hne
  induction more generalizing line with
  | nil =>
      cases hgap : s.gap with
      | none =>
          rw [place_break hgap]
          exact List.forall_mem_cons.mpr ⟨hline, hrows⟩
      | some blanks =>
          have hblanks := s.gap_noBreak blanks hgap
          obtain ⟨hrow, hrest⟩ := List.forall_mem_cons.mp hrows
          rw [place_gap hgap]
          exact List.forall_mem_cons.mpr ⟨by simp [hline, hblanks, hrow], hrest⟩
  | cons next more ih =>
      obtain ⟨hnext, hmore'⟩ := List.forall_mem_cons.mp hmore
      exact List.forall_mem_cons.mpr ⟨hline, ih next hnext hmore'⟩

theorem noBreak_layout (p : List Statement) : ∀ row ∈ layout p, '\n' ∉ row.text := by
  induction p with
  | nil => simp [layout]
  | cons s rest ih =>
      exact noBreak_place s (layout_ne_nil rest) ih s.head s.more s.head_noBreak s.more_noBreak

theorem lines_programText (p : List Statement) :
    lines (programText p) = (layout p).map Row.text := by
  rw [← unlines_layout]
  refine lines_unlines (by simpa using layout_ne_nil p) fun l hl => ?_
  obtain ⟨row, hrow, rfl⟩ := List.mem_map.mp hl
  exact noBreak_layout p row hrow

def rawText : OutputLine → Text
  | .source row => row.text
  | .diagnostics _ => diagnostics

theorem injectLines_rows (rows : List Row) :
    injectLines (rows.map Row.text) = (output rows).map rawText := by
  induction rows with
  | nil => rfl
  | cons row rest ih =>
      rw [List.map_cons, injectLines, output]
      split_ifs with hfollowed
      · rw [ih]
        rfl
      · rw [ih]
        rfl

theorem injectLines_of_noRowcount {ls : List Text} (h : ∀ l ∈ ls, hasRowcount l = false) :
    injectLines ls = ls := by
  induction ls with
  | nil => rfl
  | cons l ls ih =>
      obtain ⟨-, hls⟩ := List.forall_mem_cons.mp h
      have hnone : (ls.take 9).any hasRowcount = false := by
        rw [List.any_eq_false]
        intro x hx
        rw [hls x (List.mem_of_mem_take hx)]
        exact Bool.false_ne_true
      rw [injectLines, isFollowed, hnone, Bool.and_false, if_neg Bool.false_ne_true, ih hls]

theorem substitute_diagnostics : substitute rowcountMatch diagnostics = diagnostics := by
  refine substituteFrom_of_none none fun before u hu => if_neg fun hmatch => ?_
  have hin : rowcount <:+: upper diagnostics :=
    (List.isPrefixOf_iff_prefix.mp hmatch).isInfix.trans (hu.isInfix.map Char.toUpper)
  have hsign : '@' ∉ upper diagnostics := by decide
  exact hsign (hin.subset List.mem_cons_self)

theorem text_eq (line : OutputLine) :
    line.text = substitute rowcountMatch (rawText line) := by
  cases line with
  | source row => exact replaceRowcountRefs_eq row.text
  | diagnostics inside =>
      rw [rawText, substitute_diagnostics]
      rfl

/-- The converted text. -/
theorem text_output (p : List Statement) :
    unlines ((output (layout p)).map OutputLine.text) = applyAll (programText p) := by
  have hraw : unlines ((output (layout p)).map rawText) =
      injectGetDiagnostics (programText p) := by
    rw [injectGetDiagnostics, lines_programText, injectLines_rows]
    cases h : hasRowcount (programText p) with
    | true => rfl
    | false =>
        have hnone : ∀ l ∈ (layout p).map Row.text, hasRowcount l = false := by
          intro l hl
          rw [← Bool.not_eq_true] at h ⊢
          refine fun hrow => h (hasRowcount_mono ?_ hrow)
          rw [← unlines_layout]
          exact infix_unlines hl
        rw [← injectLines_rows, injectLines_of_noRowcount hnone, unlines_layout]
        rfl
  rw [applyAll, replaceRowcountRefs_eq, ← hraw, substitute_unlines, List.map_map]
  congr 1
  exact List.map_congr_left fun line _ => text_eq line

end Lines

section Steps

variable {counts : Nat → Nat} {k : Nat} {last rowCount value : Option Nat} {n : Known}

/-- The same scan over the steps of the converted program. -/
def fresh : Known → List Step → Bool
  | _, [] => true
  | n, .diagnostics :: rest => fresh n.taken rest
  | n, .statement s :: rest => !(s.reads && (n.seen && n.stale)) && fresh (n.after s) rest

attribute [local simp] fresh in
theorem fresh_append (n : Known) (ends : List Statement) (steps : List Step) :
    fresh n (ends.map .statement ++ steps) =
      (readsFresh n ends && fresh (ends.foldl Known.after n) steps) := by
  induction ends generalizing n with
  | nil => rfl
  | cons s ends ih =>
      rw [List.map_cons, List.cons_append, fresh, ih, readsFresh, List.foldl_cons, Bool.and_assoc]

theorem fresh_output (n : Known) (rows : List Row) :
    fresh n ((output rows).flatMap OutputLine.steps) = noStaleRead n rows := by
  induction rows generalizing n with
  | nil => rfl
  | cons row rest ih =>
      rw [output, noStaleRead]
      cases hfollowed : isFollowed row.text (rest.map Row.text) with
      | true =>
          rw [if_pos rfl, List.flatMap_cons, List.flatMap_cons, OutputLine.steps, fresh_append]
          change (readsFresh n row.ends && fresh (row.ends.foldl Known.after n).taken
            ((output rest).flatMap OutputLine.steps)) = _
          rw [ih]
          rfl
      | false =>
          rw [if_neg Bool.false_ne_true, List.flatMap_cons, OutputLine.steps, fresh_append, ih]
          rfl

/-- What is known to be right is right. -/
structure Knows (n : Known) (last rowCount value : Option Nat) : Prop where
  seen : n.seen = last.isSome
  current : n.behind = false → rowCount = last
  right : n.stale = false → value = last

theorem Knows.after (h : Knows n last rowCount value) (s : Statement) (count : Nat) :
    Knows (n.after s) (if s.kind = .dml then some count else last)
      (if s.kind = .other then rowCount else some count) value := by
  rw [Known.after]
  cases s.kind with
  | dml => exact ⟨rfl, fun _ => rfl, fun hstale => Bool.noConfusion hstale⟩
  | query => exact ⟨h.seen, fun hbehind => Bool.noConfusion hbehind, h.right⟩
  | other => exact h

theorem readsRight_of_fresh (steps : List Step) (hknows : Knows n last rowCount value)
    (h : fresh n steps = true) : ReadsRight counts k last rowCount value steps := by
  induction steps generalizing n k last rowCount value with
  | nil => trivial
  | cons step rest ih =>
      cases step with
      | diagnostics =>
          have htaken : Knows n.taken last rowCount rowCount :=
            ⟨hknows.seen, hknows.current, hknows.current⟩
          exact ih htaken h
      | statement s =>
          rw [fresh, Bool.and_eq_true, Bool.not_eq_true', Bool.and_eq_false_iff] at h
          obtain ⟨hreads, hrest⟩ := h
          refine ⟨fun hs hlast => hknows.right ?_, ih (hknows.after s (counts k)) hrest⟩
          have hseen := hreads.resolve_left (by simp [hs])
          rw [hknows.seen, hlast, Bool.true_and] at hseen
          exact hseen

/-- Where the `k`-th statement has the count `k`, what is of another statement is another count. -/
structure Differs (k : Nat) (n : Known) (last rowCount value : Option Nat) : Prop where
  seen : n.seen = last.isSome
  below : (∀ m ∈ last, m < k) ∧ (∀ m ∈ rowCount, m < k) ∧ ∀ m ∈ value, m < k
  behind : n.behind = true → last.isSome = true → rowCount ≠ last
  stale : n.stale = true → last.isSome = true → value ≠ last

theorem Differs.after (h : Differs k n last rowCount value) (s : Statement) :
    Differs (k + 1) (n.after s) (if s.kind = .dml then some k else last)
      (if s.kind = .other then rowCount else some k) value := by
  obtain ⟨hlast, hrow, hvalue⟩ := h.below
  have hbelow : ∀ {o : Option Nat}, (∀ m ∈ o, m < k) → ∀ m ∈ o, m < k + 1 :=
    fun ho m hm => Nat.lt_succ_of_lt (ho m hm)
  have hnew : ∀ m ∈ some k, m < k + 1 := by simp
  have hne : ∀ {o : Option Nat}, (∀ m ∈ o, m < k) → o ≠ some k :=
    fun ho heq => Nat.lt_irrefl k (ho k heq)
  rw [Known.after]
  cases s.kind with
  | dml =>
      exact ⟨rfl, ⟨hnew, hnew, hbelow hvalue⟩, fun hbehind => Bool.noConfusion hbehind,
        fun _ _ => hne hvalue⟩
  | query =>
      exact ⟨h.seen, ⟨hbelow hlast, hnew, hbelow hvalue⟩, fun _ _ => (hne hlast).symm, h.stale⟩
  | other => exact ⟨h.seen, ⟨hbelow hlast, hbelow hrow, hbelow hvalue⟩, h.behind, h.stale⟩

theorem fresh_of_readsRight (steps : List Step) (hdiffers : Differs k n last rowCount value)
    (h : ReadsRight id k last rowCount value steps) : fresh n steps = true := by
  induction steps generalizing n k last rowCount value with
  | nil => rfl
  | cons step rest ih =>
      cases step with
      | diagnostics =>
          obtain ⟨hlast, hrow, -⟩ := hdiffers.below
          exact ih ⟨hdiffers.seen, ⟨hlast, hrow, hrow⟩, hdiffers.behind, hdiffers.behind⟩ h
      | statement s =>
          obtain ⟨hread, hrest⟩ := h
          rw [fresh, Bool.and_eq_true]
          refine ⟨?_, ih (hdiffers.after s) hrest⟩
          rw [Bool.not_eq_true', Bool.and_eq_false_iff, Bool.and_eq_false_iff]
          by_contra hstale
          simp only [not_or, Bool.not_eq_false] at hstale
          obtain ⟨hs, hseen, hstale⟩ := hstale
          rw [hdiffers.seen] at hseen
          exact hdiffers.stale hstale hseen (hread hs hseen)

theorem diagnosticsOutside_iff (rows : List Row) :
    (∀ inside, .diagnostics inside ∈ output rows → inside = false) ↔
      diagnosticsOutside rows = true := by
  induction rows with
  | nil => simp [output, diagnosticsOutside]
  | cons row rest ih =>
      rw [output, diagnosticsOutside, Bool.and_eq_true, ← ih]
      cases hfollowed : isFollowed row.text (rest.map Row.text) with
      | true => simp [or_imp, forall_and]
      | false => simp

theorem readsRight_iff (rows : List Row) :
    (∀ counts, ReadsRight counts 0 none none none ((output rows).flatMap OutputLine.steps)) ↔
      noStaleRead .start rows = true := by
  rw [← fresh_output]
  constructor
  · intro h
    exact fresh_of_readsRight _ ⟨rfl, ⟨by simp, by simp, by simp⟩, by simp [Known.start],
      by simp [Known.start]⟩ (h id)
  · intro h counts
    exact readsRight_of_fresh _ ⟨rfl, fun _ => rfl, fun _ => rfl⟩ h

end Steps

/-- The converted text, and when each of its references reads the count of the DML statement
executed last before it. -/
theorem rowcounts_right_iff (p : List Statement) (_ : Ascii (programText p)) :
    applyAll (programText p) = unlines ((output (layout p)).map OutputLine.text) ∧
      (CountsRight (output (layout p)) ↔
        diagnosticsOutside (layout p) = true ∧ noStaleRead .start (layout p) = true) := by
  refine ⟨(text_output p).symm, ?_⟩
  rw [← diagnosticsOutside_iff, ← readsRight_iff]
  exact ⟨fun h => ⟨h.whole, h.counts⟩, fun h => ⟨h.1, h.2⟩⟩

def onOneLine (kind : Kind) (line : Text) (h : '\n' ∉ line) : Statement :=
  ⟨kind, line, [], none, h, by simp, by simp⟩

def updateOnTwoLines : Statement :=
  ⟨.dml, "UPDATE t".toList, ["SET a = 1;".toList], none, by decide, by simp, by simp⟩

def readCount : Statement := onOneLine .other "SET @n = @@ROWCOUNT;".toList (by decide)

def update : Statement :=
  onOneLine .dml "/* reset */ UPDATE t SET a = 1;".toList (by decide)

theorem rowcount_of_update_read :
    Ascii (programText [update, readCount]) ∧ CountsRight (output (layout [update, readCount])) :=
  ⟨by decide +kernel, (rowcounts_right_iff [update, readCount] (by decide +kernel)).2.mpr
    (by decide +kernel)⟩

/-- The count of an update whose semicolon stands on a line of its own is never taken. -/
theorem rowcount_of_update_lost :
    ¬ CountsRight (output (layout [updateOnTwoLines, readCount])) := by
  intro h
  have hfresh := (readsRight_iff _).mp h.counts
  revert hfresh
  decide +kernel

end SqlOptima.RowcountReading
