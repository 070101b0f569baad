import Mathlib.Data.List.Induction
import Mathlib.Data.List.Infix
import SqlOptima.PythonText

namespace SqlOptima.DuplicateRemoval

open PythonText

def stmtWords : List Text := ["UPDATE".toList, "DELETE".toList, "INSERT".toList, "RAISE".toList]

/-- `stmt_re`: blanks, and then one of the words. -/
def isStmt (line : Text) : Bool := stmtWords.contains (leadingWord (upper (lstrip line)))

structure Scan where
  result : List Text
  duplicates : Nat
  lastStmt : Option Text

def Scan.start : Scan := ⟨[], 0, none⟩

def Scan.step (s : Scan) (line : Text) : Scan :=
  let stripped := strip line
  if stripped ≠ [] ∧ isStmt line = true ∧ s.lastStmt = some stripped then
    { s with duplicates := s.duplicates + 1 }
  else
    { s with
      result := s.result ++ [line]
      lastStmt := if stripped ≠ [] ∧ isStmt line = true then some stripped else s.lastStmt }

def scan (ls : List Text) : Scan := ls.foldl Scan.step .start

def removeDuplicates (content : Text) : Text × Nat :=
  let s := scan (lines content)
  (unlines s.result, s.duplicates)

/-! ## What is dropped -/

/-- The line that comes after the lines `earlier` is not in the result. -/
def Dropped (earlier : List Text) (line : Text) : Prop :=
  (scan (earlier ++ [line])).result = (scan earlier).result

def lastStmtLine (ls : List Text) : Option Text := (ls.filter isStmt).getLast?

def sinceLastStmt (ls : List Text) : List Text := (ls.reverse.takeWhile fun l => !isStmt l).reverse

def Repeats (earlier : List Text) (line : Text) : Prop :=
  isStmt line = true ∧ (lastStmtLine earlier).map strip = some (strip line)

theorem isStmt_of_blank {line : Text} (h : strip line = []) : isStmt line = false := by
  obtain ⟨w, w', hw, hw', hline⟩ := exists_blanks line
  have hblank : Blank line := by
    rw [hline, h, List.append_nil]
    exact fun c hc => (List.mem_append.mp hc).elim (hw c) (hw' c)
  rw [isStmt, lstrip_blank hblank]
  decide

theorem strip_ne_nil_of_isStmt {line : Text} (h : isStmt line = true) : strip line ≠ [] := by
  intro hblank
  rw [isStmt_of_blank hblank] at h
  cases h

section Scanning

variable {earlier : List Text} {line : Text}

theorem lastStmtLine_concat (earlier : List Text) (line : Text) :
    lastStmtLine (earlier ++ [line]) =
      if isStmt line = true then some line else lastStmtLine earlier := by
  rw [lastStmtLine, List.filter_append, List.filter_cons, List.filter_nil]
  split
  · exact List.getLast?_concat
  · rw [List.append_nil, lastStmtLine]

theorem scan_concat (earlier : List Text) (line : Text) :
    scan (earlier ++ [line]) = (scan earlier).step line := by
  rw [scan, List.foldl_append, List.foldl_cons, List.foldl_nil, scan]

/-- The loop keeps the last statement line in mind, over whatever comes after it: a line that is
dropped is the same but for its blanks. -/
theorem scan_lastStmt (ls : List Text) : (scan ls).lastStmt = (lastStmtLine ls).map strip := by
  induction ls using List.reverseRecOn with
  | nil => rfl
  | append_singleton earlier line ih =>
      rw [scan_concat, lastStmtLine_concat, Scan.step]
      split
      · next h =>
          rw [if_pos h.2.1]
          exact h.2.2
      · split
        · next h =>
            rw [if_pos h.2]
            rfl
        · next h =>
            have hstmt : ¬isStmt line = true := fun hs => h ⟨strip_ne_nil_of_isStmt hs, hs⟩
            rw [if_neg hstmt]
            exact ih

theorem dropped_iff : Dropped earlier line ↔ Repeats earlier line := by
  rw [Dropped, scan_concat, Scan.step, Repeats, ← scan_lastStmt]
  split
  · next h => exact iff_of_true rfl h.2
  · next h =>
      refine iff_of_false (fun heq => ?_) fun hr => h ⟨strip_ne_nil_of_isStmt hr.1, hr.1, hr.2⟩
      exact absurd (congrArg List.length heq) (by simp)

end Scanning

/-! ## The texts on which only adjacent duplicates go -/

/-- A line of a text whose lines are grouped into statements. -/
structure Place (statements : List (List Text)) where
  before : List (List Text)
  pre : List Text
  line : Text
  post : List Text
  after : List (List Text)
  split : statements = before ++ (pre ++ line :: post) :: after

variable {statements : List (List Text)}

/-- The lines of the text before the place. -/
def Place.earlier (p : Place statements) : List Text := p.before.flatten ++ p.pre

/-- The statement line directly before the place has the same text. -/
def Place.Adjacent (p : Place statements) : Prop :=
  ∃ front twin gap, p.earlier = front ++ twin :: gap ∧ isStmt twin = true ∧
    strip twin = strip p.line ∧ ∀ l ∈ gap, strip l = []

/-- The statement has no other line. -/
def Place.Alone (p : Place statements) : Prop := ∀ l ∈ p.pre ++ p.post, strip l = []

def DropsOnlyAdjacent (statements : List (List Text)) : Prop :=
  ∀ p : Place statements, Dropped p.earlier p.line → p.Adjacent ∧ p.Alone

/-- Where a line repeats the last statement line, blank lines at most stand between the two, and
the line is a statement of its own. -/
def RepeatsDirectly (statements : List (List Text)) : Prop :=
  ∀ p : Place statements, Repeats p.earlier p.line →
    (∀ l ∈ sinceLastStmt p.earlier, strip l = []) ∧ p.Alone

theorem sinceLastStmt_append {front gap : List Text} {twin : Text} (htwin : isStmt twin = true)
    (hgap : ∀ l ∈ gap, isStmt l = false) : sinceLastStmt (front ++ twin :: gap) = gap := by
  rw [sinceLastStmt, List.reverse_append, List.reverse_cons, List.append_assoc,
    List.takeWhile_append_of_pos (by simpa using hgap), List.singleton_append,
    List.takeWhile_cons_of_neg (by simp [htwin]), List.append_nil, List.reverse_reverse]

/-- What comes before a line that repeats a statement line is cut at that line. -/
theorem split_of_repeats {earlier : List Text} {line : Text} (h : Repeats earlier line) :
    ∃ front twin gap, earlier = front ++ twin :: gap ∧ isStmt twin = true ∧
      strip twin = strip line ∧ ∀ l ∈ gap, isStmt l = false := by
  obtain ⟨-, h⟩ := h
  induction earlier using List.reverseRecOn with
  | nil => cases h
  | append_singleton earlier l ih =>
      rw [lastStmtLine_concat] at h
      split at h
      · next hl => exact ⟨earlier, l, [], rfl, hl, Option.some.inj h, nofun⟩
      · next hl =>
          obtain ⟨front, twin, gap, rfl, htwin, hsame, hgap⟩ := ih h
          refine ⟨front, twin, gap ++ [l], by simp, htwin, hsame, fun l' hl' => ?_⟩
          rcases List.mem_append.mp hl' with hl' | hl'
          · exact hgap l' hl'
          · rw [List.mem_singleton.mp hl']
            exact Bool.not_eq_true _ ▸ hl

theorem adjacent_iff (p : Place statements) (h : Repeats p.earlier p.line) :
    p.Adjacent ↔ ∀ l ∈ sinceLastStmt p.earlier, strip l = [] := by
  constructor
  · rintro ⟨front, twin, gap, heq, htwin, -, hgap⟩
    rwa [heq, sinceLastStmt_append htwin fun l hl => isStmt_of_blank (hgap l hl)]
  · intro hblank
    obtain ⟨front, twin, gap, heq, htwin, hsame, hgap⟩ := split_of_repeats h
    refine ⟨front, twin, gap, heq, htwin, hsame, ?_⟩
    rwa [heq, sinceLastStmt_append htwin hgap] at hblank

theorem dropsOnlyAdjacent_iff (statements : List (List Text)) :
    (∀ statement ∈ statements, ∀ line ∈ statement, Ascii line) →
      (DropsOnlyAdjacent statements ↔ RepeatsDirectly statements) := by
  intro _
  refine forall_congr' fun p => ?_
  rw [dropped_iff]
  exact forall_congr' fun h => and_congr_left' (adjacent_iff p h)

/-- A statement of one line, twice with a blank line in between. -/
def twoDeletes : List (List Text) :=
  [["DELETE FROM t;".toList], ["\t".toList], ["DELETE FROM t;".toList]]

theorem twoDeletes_adjacent :
    (∀ statement ∈ twoDeletes, ∀ line ∈ statement, Ascii line) ∧ RepeatsDirectly twoDeletes ∧
      DropsOnlyAdjacent twoDeletes := by
  have hascii : ∀ statement ∈ twoDeletes, ∀ line ∈ statement, Ascii line := by decide
  have hlines : ∀ statement ∈ twoDeletes, statement.length = 1 := by decide
  have hsince : ∀ earlier ∈ twoDeletes.flatten.inits, ∀ l ∈ sinceLastStmt earlier,
      strip l = [] ∨ isStmt l = true := by decide
  have hdirect : RepeatsDirectly twoDeletes := by
    intro p hrepeats
    have hlength := hlines _ (p.split ▸ List.mem_append_right _ List.mem_cons_self)
    rw [List.length_append, List.length_cons] at hlength
    have halone : p.pre ++ p.post = [] := by
      rw [← List.length_eq_zero_iff, List.length_append]
      omega
    have hprefix : p.earlier <+: twoDeletes.flatten := by
      refine ⟨p.line :: p.post ++ p.after.flatten, ?_⟩
      have hflatten := congrArg List.flatten p.split
      rw [hflatten, Place.earlier]
      simp
    refine ⟨fun l hl => ?_, fun l hl => absurd (halone ▸ hl) List.not_mem_nil⟩
    refine (hsince _ ((List.mem_inits _ _).mpr hprefix) l hl).resolve_right fun hstmt => ?_
    have hnot := List.mem_takeWhile_imp (List.mem_reverse.mp hl)
    rw [hstmt] at hnot
    exact Bool.false_ne_true hnot
  exact ⟨hascii, hdirect, (dropsOnlyAdjacent_iff twoDeletes hascii).mpr hdirect⟩

/-- Two statements that begin with the same line. -/
def twoUpdates : List (List Text) :=
  [["UPDATE t".toList, "SET a = 1;".toList], ["UPDATE t".toList, "SET b = 2;".toList]]

/-- The second statement loses its first line. -/
theorem twoUpdates_broken : ¬DropsOnlyAdjacent twoUpdates := by
  intro h
  have hdropped : Dropped ["UPDATE t".toList, "SET a = 1;".toList] "UPDATE t".toList := by
    rw [dropped_iff]
    exact ⟨by decide, by decide⟩
  obtain ⟨-, halone⟩ := h ⟨[["UPDATE t".toList, "SET a = 1;".toList]], [], "UPDATE t".toList,
    ["SET b = 2;".toList], [], rfl⟩ hdropped
  exact absurd (halone _ List.mem_cons_self) (by decide)

end SqlOptima.DuplicateRemoval
