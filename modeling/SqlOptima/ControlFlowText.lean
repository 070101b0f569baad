import SqlOptima.ControlFlowBalance
import SqlOptima.ElseIfReading

namespace SqlOptima.ControlFlowText

open PythonText ControlFlow ControlFlowSyntax ControlFlowNesting ControlFlowBalance ElseIfReading

section Lines

variable {s w l : Text} {ls : List Text}

theorem content_modifyHead {c : Char} (hc : isSpace c = true) (ls : List Text) :
    content (ls.modifyHead (List.cons c)) = content ls := by
  cases ls with
  | nil => rfl
  | cons l ls =>
      apply content_congr
      have hblank : Blank [c] := fun d hd => by rwa [List.mem_singleton.mp hd]
      exact strip_blank_append hblank l

theorem content_lines_blank (hw : Blank w) (s : Text) :
    content (lines (w ++ s)) = content (lines s) := by
  induction w with
  | nil => rfl
  | cons c w ih =>
      have hw' : Blank w := fun d hd => hw d (List.mem_cons_of_mem c hd)
      by_cases hc : c = '\n'
      · rw [hc, List.cons_append, lines_cons_break, content_cons_blank rfl, ih hw']
      · rw [List.cons_append, lines_cons hc, content_modifyHead (hw c List.mem_cons_self), ih hw']

theorem content_lines_append (hw : Blank w) {t : Text} (ht : '\n' ∉ t) :
    content (lines (t ++ w)) = content [t] := by
  induction w generalizing t with
  | nil => rw [List.append_nil, lines_of_noBreak ht]
  | cons c w ih =>
      have hw' : Blank w := fun d hd => hw d (List.mem_cons_of_mem c hd)
      by_cases hc : c = '\n'
      · have hrest : content (lines w) = [] := by
          have h := content_lines_blank hw' []
          rwa [List.append_nil] at h
        rw [hc, lines_append_break, content_append, hrest, List.append_nil, lines_of_noBreak ht]
      · have htc : '\n' ∉ t ++ [c] := by
          rw [List.mem_append, List.mem_singleton]
          rintro (hmem | rfl)
          · exact ht hmem
          · exact hc rfl
        have hblank : Blank [c] := fun d hd => by
          rw [List.mem_singleton.mp hd]
          exact hw c List.mem_cons_self
        rw [List.append_cons, ih hw' htc]
        exact content_congr (strip_append_blank hblank t) []

/-- Line breaks among the blanks around a line leave it one line with content. -/
theorem content_lines (h : '\n' ∉ strip s) : content (lines s) = content [s] := by
  obtain ⟨w, w', hw, hw', hs⟩ := exists_blanks s
  have hlines : content (lines (w ++ strip s ++ w')) = content [strip s] := by
    rw [List.append_assoc, content_lines_blank hw, content_lines_append hw' h]
  rw [← hs] at hlines
  rw [hlines]
  exact content_congr (strip_strip s) []

/-- What a text is made of, line by line. -/
theorem content_lines_unlines (h : ∀ l ∈ content ls, '\n' ∉ l) :
    content (lines (unlines ls)) = content ls := by
  induction ls with
  | nil => rfl
  | cons l ls ih =>
      have hl : '\n' ∉ strip l := by
        by_cases hnil : strip l = []
        · rw [hnil]
          exact List.not_mem_nil
        · exact h _ (by rw [content_cons hnil]; exact List.mem_cons_self)
      have hls : ∀ l' ∈ content ls, '\n' ∉ l' := by
        intro l' hl'
        apply h
        rw [← List.singleton_append, content_append]
        exact List.mem_append_right _ hl'
      cases ls with
      | nil =>
          change content (lines (l ++ [])) = _
          rw [List.append_nil, content_lines hl]
      | cons l' ls =>
          rw [unlines_cons_cons, lines_append_break, content_append, ih hls, content_lines hl,
            ← content_append]
          rfl

theorem head?_break (u : Text) : ∀ c ∈ ('\n' :: u).head?, isSpace c = true := by
  rintro c ⟨⟩
  rfl

theorem head?_blank (hw : Blank w) {v : Text} (hv : ∀ c ∈ v.head?, isSpace c = true) :
    ∀ c ∈ (w ++ v).head?, isSpace c = true := by
  cases w with
  | nil => exact hv
  | cons d w =>
      rintro c ⟨⟩
      exact hw _ List.mem_cons_self

theorem lstrip_blank_line (h : strip l = []) (v : Text) : lstrip (l ++ v) = lstrip v := by
  obtain ⟨w, w', hw, hw', hl⟩ := exists_blanks l
  rw [h, List.append_nil] at hl
  rw [hl, List.append_assoc, lstrip_of_isSpace hw, lstrip_of_isSpace hw']

theorem leadingWord_line (h : strip l ≠ []) {v : Text} (hv : ∀ c ∈ v.head?, isSpace c = true) :
    leadingWord (upper (lstrip (l ++ v))) = leadingWord (upper (strip l)) := by
  obtain ⟨w, w', hw, hw', hl⟩ := exists_blanks l
  have htrim := trimmed_strip h
  have hne : lstrip (strip l) ≠ [] := by
    rw [htrim.lstrip_eq]
    exact h
  have hsplit : lstrip (w ++ strip l ++ w' ++ v) = strip l ++ (w' ++ v) := by
    rw [List.append_assoc, List.append_assoc, lstrip_of_isSpace hw, lstrip_append hne,
      htrim.lstrip_eq]
  rw [← hl] at hsplit
  rw [hsplit, leadingWord_upper_append (head?_blank hw' hv)]

/-- What comes after the first line of a text. -/
structure After (ls : List Text) (v : Text) : Prop where
  blank : ∀ c ∈ v.head?, isSpace c = true
  lstrip : lstrip v = lstrip (unlines ls)
  content : ∀ l', content (lines (l' ++ substitute elseIf v)) =
    content (lines l') ++ content (lines (substitute elseIf (unlines ls)))

theorem exists_after (l : Text) (ls : List Text) :
    ∃ v, unlines (l :: ls) = l ++ v ∧ After ls v := by
  cases ls with
  | nil =>
      refine ⟨[], rfl, nofun, rfl, fun l' => ?_⟩
      change content (lines (l' ++ [])) = content (lines l') ++ []
      rw [List.append_nil, List.append_nil]
  | cons l₁ ls =>
      refine ⟨_, unlines_cons_cons l l₁ ls, head?_break _, rfl, fun l' => ?_⟩
      have hbreak : Blank ['\n'] := by decide
      have hsub := substitute_blank hbreak (unlines (l₁ :: ls))
      rw [List.singleton_append] at hsub
      rw [hsub, List.singleton_append, lines_append_break, content_append]

/-- The first word of a text is the first word of its first line that is not blank. -/
theorem leadingWord_unlines (ls : List Text) :
    leadingWord (upper (lstrip (unlines ls))) = leadingWord (upper ((content ls).headD [])) := by
  induction ls with
  | nil => rfl
  | cons l ls ih =>
      obtain ⟨v, hunlines, hv⟩ := exists_after l ls
      rw [hunlines]
      by_cases h : strip l = []
      · rw [lstrip_blank_line h, hv.lstrip, ih, content_cons_blank h]
      · rw [leadingWord_line h hv.blank, content_cons h]
        rfl

end Lines

section Normalisation

variable {l : Text} {ls : List Text}

theorem substitute_line {v : Text} (hv : ∀ c ∈ v.head?, isSpace c = true)
    (htrim : strip l ≠ [] → Trimmed (substitute elseIf (strip l)))
    (hseam : trailingWord (upper (strip l)) = "ELSE".toList →
      leadingWord (upper (lstrip v)) ≠ "IF".toList) :
    ∃ l', substitute elseIf (l ++ v) = l' ++ substitute elseIf v ∧
      strip l' = substitute elseIf (strip l) := by
  obtain ⟨w, w', hw, hw', hl⟩ := exists_blanks l
  by_cases h : strip l = []
  · rw [h, List.append_nil] at hl
    refine ⟨l, ?_, by rw [h]; rfl⟩
    rw [hl, List.append_assoc, substitute_blank hw, substitute_blank hw', List.append_assoc]
  · have hseam' : trailingWord (upper (strip l)) = "ELSE".toList →
        leadingWord (upper (lstrip (w' ++ v))) ≠ "IF".toList := by
      rwa [lstrip_of_isSpace hw']
    refine ⟨w ++ substitute elseIf (strip l) ++ w', ?_, ?_⟩
    · have hparts : substitute elseIf (w ++ strip l ++ w' ++ v) =
          w ++ substitute elseIf (strip l) ++ w' ++ substitute elseIf v := by
        rw [List.append_assoc, List.append_assoc, substitute_blank hw,
          substitute_append (trimmed_strip h) (head?_blank hw' hv) hseam', substitute_blank hw',
          List.append_assoc, List.append_assoc]
      rwa [← hl] at hparts
    · rw [strip_append_blank hw', strip_blank_append hw, (htrim h).strip_eq]

/-- `ELSE IF` is read line by line. -/
theorem content_substitute
    (hproper : ∀ t ∈ content ls, Trimmed (substitute elseIf t) ∧ '\n' ∉ substitute elseIf t)
    (hseam : (content ls).IsChain fun line next =>
      trailingWord (upper line) = "ELSE".toList → leadingWord (upper next) ≠ "IF".toList) :
    content (lines (substitute elseIf (unlines ls))) = (content ls).map (substitute elseIf) := by
  induction ls with
  | nil => rfl
  | cons l ls ih =>
      obtain ⟨v, hunlines, hv⟩ := exists_after l ls
      have hproper' : ∀ t ∈ content ls, Trimmed (substitute elseIf t) ∧
          '\n' ∉ substitute elseIf t := by
        intro t ht
        apply hproper
        rw [← List.singleton_append, content_append]
        exact List.mem_append_right _ ht
      by_cases h : strip l = []
      · rw [content_cons_blank h] at hseam ⊢
        have hnoElse : trailingWord (upper (strip l)) ≠ "ELSE".toList := by
          rw [h]
          decide
        obtain ⟨l', hl', hstrip⟩ := substitute_line hv.blank (fun hne => absurd h hne)
          fun helse => absurd helse hnoElse
        have hblank : strip l' = [] := by
          rw [hstrip, h]
          rfl
        have hempty : content (lines l') = [] := by
          rw [content_lines (by rw [hblank]; exact List.not_mem_nil), content_cons_blank hblank]
          rfl
        rw [hunlines, hl', hv.content, hempty, List.nil_append, ih hproper' hseam]
      · rw [content_cons h] at hproper hseam ⊢
        obtain ⟨htrim, hbreak⟩ := hproper _ List.mem_cons_self
        have hnext : trailingWord (upper (strip l)) = "ELSE".toList →
            leadingWord (upper (lstrip v)) ≠ "IF".toList := by
          rw [hv.lstrip, leadingWord_unlines]
          cases hcontent : content ls with
          | nil => exact fun _ => by decide
          | cons next rest =>
              rw [hcontent] at hseam
              exact hseam.rel
        obtain ⟨l', hl', hstrip⟩ := substitute_line hv.blank (fun _ => htrim) hnext
        have hne : strip l' ≠ [] := by
          rw [hstrip]
          exact htrim.ne_nil
        rw [hunlines, hl', hv.content, ih hproper' hseam.of_cons,
          content_lines (by rwa [hstrip]), content_cons hne, hstrip]
        rfl

end Normalisation

section Proper

variable {header t : Text} {b : Branch}

/-- A line of a text, without the blanks around it. -/
def Proper (t : Text) : Prop := Trimmed t ∧ '\n' ∉ t

theorem Proper.append {t u gap : Text} (ht : Proper t) (hgap : '\n' ∉ gap) (hu : Proper u) :
    Proper (t ++ gap ++ u) := by
  refine ⟨ht.1.append hu.1 gap, ?_⟩
  rw [List.mem_append, List.mem_append, not_or, not_or]
  exact ⟨⟨ht.2, hgap⟩, hu.2⟩

theorem proper_header {keyword : Text} (h : Header keyword header) : Proper header :=
  ⟨h.trimmed, h.noBreak⟩

theorem proper_begins (h : upper t = "BEGIN".toList) : Proper t := by
  refine ⟨trimmed_begins h, fun hmem => ?_⟩
  have hupper : '\n' ∈ upper t := List.mem_map.mpr ⟨'\n', hmem, by decide⟩
  rw [h] at hupper
  exact absurd hupper (by decide)

theorem proper_body (ht : Statement t) : Proper (conditionLine t ++ [';']) := by
  refine ⟨trimmed_body ht.trimmed, ?_⟩
  rw [List.mem_append, not_or]
  exact ⟨fun hmem => ht.noBreak ((prefix_conditionLine t).mem hmem), by decide⟩

theorem proper_opened {keyword kw : Text} {openings : List Text} (hh : Header keyword header)
    (hrec : b.Recognised keyword openings header) (hkw : Proper kw) :
    Proper (b.opened header kw) := by
  have hspace : Proper (header ++ ' ' :: kw) := by
    have h : Proper (header ++ [' '] ++ kw) := (proper_header hh).append (by decide) hkw
    rwa [List.append_assoc] at h
  cases b with
  | inline gap t => exact hspace
  | single s => exact hspace
  | block opening ending ss =>
      cases opening with
      | sameLine gap begins => exact (proper_header hh).append hrec.2.1.2.1 hkw
      | ownLine begins => exact hspace

def AllProper (ls : List Text) : Prop := ∀ t ∈ ls, Proper t

@[simp] theorem allProper_nil : AllProper [] := fun _ h => absurd h List.not_mem_nil

@[simp] theorem allProper_cons {ls : List Text} : AllProper (t :: ls) ↔ Proper t ∧ AllProper ls :=
  List.forall_mem_cons

@[simp] theorem allProper_append {ls ls' : List Text} :
    AllProper (ls ++ ls') ↔ AllProper ls ∧ AllProper ls' :=
  List.forall_mem_append

def StmtProper (s : Stmt) : Prop :=
  s.Recognised → AllProper (s.layout (substitute elseIf)) ∧ AllProper s.nested

def BranchProper (b : Branch) : Prop :=
  ∀ keyword header, Header keyword header →
    ((∃ openings, b.Recognised keyword openings header) ∨ b.RecognisedElse header) →
      AllProper (b.layout (substitute elseIf) header) ∧ AllProper b.nested

def ChainProper (chain : Chain) : Prop :=
  chain.Recognised → AllProper (chain.layout (substitute elseIf)) ∧ AllProper chain.nested

def StmtsProper (ss : Stmts) : Prop :=
  ss.Recognised → AllProper ss.normalised ∧ AllProper ss.nested

theorem proper_inline (gap t : Text) : BranchProper (.inline gap t) := by
  intro keyword header hh hrec
  have hrec' : Statement t ∧ '\n' ∉ gap := by
    rcases hrec with ⟨openings, ht, hgap, -⟩ | hrec
    · exact ⟨ht, hgap⟩
    · exact hrec
  have hline := (proper_header hh).append hrec'.2 ⟨hrec'.1.trimmed, hrec'.1.noBreak⟩
  exact ⟨allProper_cons.mpr ⟨hline, allProper_nil⟩,
    allProper_cons.mpr ⟨proper_body hrec'.1, allProper_nil⟩⟩

theorem proper_single (s : Stmt) (hs : StmtProper s) : BranchProper (.single s) := by
  intro keyword header hh hrec
  have hrec' : s.Recognised := by
    rcases hrec with ⟨openings, hs, -⟩ | hrec
    · exact hs
    · exact hrec
  obtain ⟨hlayout, hnested⟩ := hs hrec'
  exact ⟨allProper_cons.mpr ⟨proper_header hh, hlayout⟩, hnested⟩

theorem proper_block (opening : Opening) (ending : Text) (ss : Stmts) (hss : StmtsProper ss) :
    BranchProper (.block opening ending ss) := by
  intro keyword header hh hrec
  have hrec' : ss.Recognised ∧ AllProper (opening.layout header) ∧ Ending ending := by
    cases opening with
    | sameLine gap begins =>
        rcases hrec with ⟨openings, hss, ⟨hbegins, hgap, -⟩, hending⟩ |
          ⟨hss, ⟨hbegins, hgap, -⟩, hending⟩
        · exact ⟨hss, allProper_cons.mpr ⟨(proper_header hh).append hgap (proper_begins hbegins),
            allProper_nil⟩, hending⟩
        · exact ⟨hss, allProper_cons.mpr ⟨(proper_header hh).append hgap (proper_begins hbegins),
            allProper_nil⟩, hending⟩
    | ownLine begins =>
        rcases hrec with ⟨openings, hss, ⟨hbegins, -⟩, hending⟩ | ⟨hss, hbegins, hending⟩
        · exact ⟨hss, allProper_cons.mpr ⟨proper_header hh, allProper_cons.mpr
            ⟨proper_begins hbegins, allProper_nil⟩⟩, hending⟩
        · exact ⟨hss, allProper_cons.mpr ⟨proper_header hh, allProper_cons.mpr
            ⟨proper_begins hbegins, allProper_nil⟩⟩, hending⟩
  obtain ⟨hrecss, hopening, hending⟩ := hrec'
  obtain ⟨hlayout, hnested⟩ := hss hrecss
  refine ⟨?_, hnested⟩
  change AllProper (opening.layout header ++ ss.normalised ++ [ending])
  simp [hopening, hlayout, show Proper ending from ⟨hending.trimmed, hending.noBreak⟩]

theorem proper_while (header : Text) (body : Branch) (hb : BranchProper body) :
    StmtProper (.whileLoop header body) := by
  rintro ⟨hh, hrec⟩
  obtain ⟨hlayout, hnested⟩ := hb _ header hh (Or.inl ⟨_, hrec⟩)
  refine ⟨hlayout, ?_⟩
  have hopened := proper_opened hh hrec ⟨trimmed_loop, by decide⟩
  have hend : Proper "END LOOP;".toList := ⟨trimmed_endLoop, by decide⟩
  exact allProper_append.mpr ⟨allProper_cons.mpr ⟨hopened, hnested⟩,
    allProper_cons.mpr ⟨hend, allProper_nil⟩⟩

theorem proper_if (header : Text) (body : Branch) (chain : Chain) (hb : BranchProper body)
    (hchain : ChainProper chain) : StmtProper (.ifThen header body chain) := by
  rintro ⟨hh, hrec, hchainRec⟩
  obtain ⟨hlayout, hnested⟩ := hb _ header hh (Or.inl ⟨_, hrec⟩)
  obtain ⟨hlayout', hnested'⟩ := hchain hchainRec
  refine ⟨allProper_append.mpr ⟨hlayout, hlayout'⟩, ?_⟩
  have hopened := proper_opened hh hrec ⟨trimmed_then, by decide⟩
  have hend : Proper "END IF;".toList := ⟨trimmed_endIf, by decide⟩
  exact allProper_append.mpr ⟨allProper_append.mpr ⟨allProper_cons.mpr ⟨hopened, hnested⟩,
    hnested'⟩, allProper_cons.mpr ⟨hend, allProper_nil⟩⟩

theorem proper_elseIf (header : Text) (body : Branch) (chain : Chain) (hb : BranchProper body)
    (hchain : ChainProper chain) : ChainProper (.elseIf header body chain) := by
  rintro ⟨hh, hrec, hchainRec⟩
  obtain ⟨hlayout, hnested⟩ := hb _ _ hh (Or.inl ⟨_, hrec⟩)
  obtain ⟨hlayout', hnested'⟩ := hchain hchainRec
  refine ⟨allProper_append.mpr ⟨hlayout, hlayout'⟩, ?_⟩
  have hopened := proper_opened hh hrec ⟨trimmed_then, by decide⟩
  exact allProper_append.mpr ⟨allProper_cons.mpr ⟨hopened, hnested⟩, hnested'⟩

theorem proper_otherwise (header : Text) (body : Branch) (hb : BranchProper body) :
    ChainProper (.otherwise header body) := by
  rintro ⟨hh, hrec⟩
  obtain ⟨hlayout, hnested⟩ := hb _ header hh (Or.inr hrec)
  have helse : Proper "ELSE".toList := ⟨trimmed_else, by decide⟩
  exact ⟨hlayout, allProper_cons.mpr ⟨helse, hnested⟩⟩

theorem proper_cons (s : Stmt) (ss : Stmts) (hs : StmtProper s) (hss : StmtsProper ss) :
    StmtsProper (.cons s ss) := by
  rintro ⟨hrec, hrecss⟩
  obtain ⟨hlayout, hnested⟩ := hs hrec
  obtain ⟨hlayout', hnested'⟩ := hss hrecss
  exact ⟨allProper_append.mpr ⟨hlayout, hlayout'⟩, allProper_append.mpr ⟨hnested, hnested'⟩⟩

theorem stmts_proper (ss : Stmts) : StmtsProper ss := by
  apply @Stmts.rec StmtProper BranchProper ChainProper StmtsProper
  · intro t ht
    have hline := allProper_cons.mpr ⟨⟨ht.trimmed, ht.noBreak⟩, allProper_nil⟩
    exact ⟨hline, hline⟩
  · exact proper_while
  · exact proper_if
  · exact proper_inline
  · exact proper_single
  · exact proper_block
  · exact fun _ => ⟨allProper_nil, allProper_nil⟩
  · exact proper_elseIf
  · exact proper_otherwise
  · exact fun _ => ⟨allProper_nil, allProper_nil⟩
  · exact proper_cons

end Proper

section Nesting

def countingText : Text :=
  ("IF @a\n  SET @x = 1\nelse if @b\n  SET @x = 2\nELSE BEGIN\n  WHILE @c BEGIN\n" ++
    "    SET @x = 3\n  END\nEND").toList

def counting : Stmts :=
  .cons (.ifThen "IF @a".toList (.single (.simple "SET @x = 1".toList))
    (.elseIf "else if @b".toList (.single (.simple "SET @x = 2".toList))
      (.otherwise "ELSE".toList (.block (.sameLine [' '] "BEGIN".toList) "END".toList
        (.cons (.whileLoop "WHILE @c".toList (.block (.sameLine [' '] "BEGIN".toList) "END".toList
          (.cons (.simple "SET @x = 3".toList) .nil))) .nil))))) .nil

theorem statement_set (d : Char) (hd : d ∈ ['1', '2', '3']) :
    Statement ("SET @x = ".toList ++ [d]) ∧ Plain ("SET @x = ".toList ++ [d]) := by
  simp only [List.mem_cons, List.not_mem_nil, or_false] at hd
  obtain rfl | rfl | rfl := hd
  all_goals
    refine ⟨⟨⟨⟨'S', rfl, rfl⟩, ⟨_, rfl, rfl⟩⟩, by decide, by decide, by decide, by decide,
      by decide⟩, by decide, by decide⟩

theorem upper_begin : upper "BEGIN".toList = "BEGIN".toList := by decide

theorem ending_end : Ending "END".toList :=
  ⟨⟨⟨'E', rfl, rfl⟩, ⟨'D', rfl, rfl⟩⟩, by decide, by decide⟩

theorem header_if : Header "IF".toList "IF @a".toList :=
  ⟨by decide, ⟨⟨'I', rfl, rfl⟩, ⟨'a', rfl, rfl⟩⟩, by decide, by decide, by decide⟩

theorem header_else : Header "ELSE".toList "ELSE".toList :=
  ⟨by decide, ⟨⟨'E', rfl, rfl⟩, ⟨'E', rfl, rfl⟩⟩, by decide, by decide, by decide⟩

theorem counting_recognised : counting.Recognised := by
  have helsif : Header "ELSIF".toList "ELSIF @b".toList :=
    ⟨by decide, ⟨⟨'E', rfl, rfl⟩, ⟨'b', rfl, rfl⟩⟩, by decide, by decide, by decide⟩
  have hwhile : Header "WHILE".toList "WHILE @c".toList :=
    ⟨by decide, ⟨⟨'W', rfl, rfl⟩, ⟨'c', rfl, rfl⟩⟩, by decide, by decide, by decide⟩
  have hnormal : substitute elseIf "else if @b".toList = "ELSIF @b".toList := by decide
  refine ⟨⟨header_if, ⟨(statement_set '1' (by decide)).1, by decide, by decide⟩, ?_, ?_, ?_⟩,
    trivial⟩
  · rwa [hnormal]
  · rw [hnormal]
    exact ⟨(statement_set '2' (by decide)).1, by decide, by decide⟩
  · refine ⟨header_else, ⟨⟨hwhile, ?_⟩, trivial⟩, ⟨upper_begin, by decide, by decide⟩, ending_end⟩
    exact ⟨⟨(statement_set '3' (by decide)).1, trivial⟩, ⟨upper_begin, by decide, by decide⟩,
      ending_end⟩

theorem counting_clean : counting.Clean false :=
  ⟨⟨(statement_set '1' (by decide)).2, rfl, (statement_set '2' (by decide)).2,
    ⟨⟨trivial, trivial⟩, trivial⟩⟩, trivial⟩

def twoBlocksText : Text :=
  "IF @a BEGIN\n  SET @x = 1\nEND\nELSE BEGIN\n  SET @x = 2\nEND".toList

def twoBlocks : Stmts :=
  .cons (.ifThen "IF @a".toList
    (.block (.sameLine [' '] "BEGIN".toList) "END".toList
      (.cons (.simple "SET @x = 1".toList) .nil))
    (.otherwise "ELSE".toList (.block (.sameLine [' '] "BEGIN".toList) "END".toList
      (.cons (.simple "SET @x = 2".toList) .nil)))) .nil

end Nesting

end SqlOptima.ControlFlowText
