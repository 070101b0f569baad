import SqlOptima.PostgresLexing

namespace SqlOptima.SelectLimits

open PythonText PostgresLexing

/-!
# Limits at the end of their SELECT
-/

/-! ## The patterns -/

/-- `RETURN\s+QUERY\s+`, if it is there. -/
def leadOf (s : Text) : Text :=
  match (((keyword "RETURN".toList s).bind blanks).bind (keyword "QUERY".toList)).bind blanks with
  | some rest => s.take (s.length - rest.length)
  | none => []

/-- `\s*/\*\s*LIMIT\s+(\d+)\s+GOES\s+TO\s+END\s*\*/` -/
def placeholder (s : Text) : Option (Text × Text) := do
  let s ← symbol '/' (lstrip s)
  let s ← symbol '*' s
  let s ← keyword "LIMIT".toList (lstrip s)
  let s ← blanks s
  let digits := s.takeWhile Char.isDigit
  if digits = [] then none
  else do
    let s ← blanks (s.drop digits.length)
    let s ← keyword "GOES".toList s
    let s ← blanks s
    let s ← keyword "TO".toList s
    let s ← blanks s
    let s ← keyword "END".toList s
    let s ← symbol '*' (lstrip s)
    let s ← symbol '/' s
    return (digits, s)

/-- `\s+TOP\s*\(\s*([^)]+?)\s*\)`, the group stripped. -/
def topExpr (s : Text) : Option (Text × Text) := do
  let s ← blanks s
  let s ← keyword "TOP".toList s
  let s ← symbol '(' (lstrip s)
  let inner := s.takeWhile (· ≠ ')')
  if inner = [] then none
  else do
    let s ← symbol ')' (s.drop inner.length)
    return (strip inner, s)

/-- What a pattern captures, and how many characters it takes. -/
structure Carrier where
  lead : Text
  limit : Text
  length : Nat

abbrev Pattern := Option Char → Text → Option Carrier

/-- `\b`, what may stand before SELECT, SELECT, the clause and `\s*`. -/
def selectWith (clause : Text → Option (Text × Text)) : Pattern := fun before s =>
  if before.any isWord then none
  else do
    let rest ← keyword "SELECT".toList (s.drop (leadOf s).length)
    let (limit, rest) ← clause rest
    return ⟨leadOf s, limit, s.length - (lstrip rest).length⟩

def placeholderPattern : Pattern := selectWith placeholder

def topPattern : Pattern := selectWith topExpr

/-! ## The two passes -/

structure Match where
  start : Nat
  stop : Nat
  lead : Text
  limit : Text
  deriving DecidableEq

/-- `finditer` from a position on; `skip` characters of the last match are still to be passed. -/
def findFrom (p : Pattern) : Nat → Nat → Option Char → Text → List Match
  | _, _, _, [] => []
  | pos, skip + 1, _, c :: cs => findFrom p (pos + 1) skip (some c) cs
  | pos, 0, before, c :: cs =>
      match p before (c :: cs) with
      | some k =>
          ⟨pos, pos + k.length, k.lead, k.limit⟩ ::
            findFrom p (pos + 1) (k.length - 1) (some c) cs
      | none => findFrom p (pos + 1) 0 (some c) cs

def finditer (p : Pattern) (sql : Text) : List Match := findFrom p 0 0 none sql

/-- Where the scan for the end stands; `paired` is between the two quotes of a doubled one. -/
inductive Scan
  | outside (depth : Nat)
  | single (depth : Nat)
  | paired (depth : Nat)
  | double (depth : Nat)

/-- How many characters come before the first `;` or `)` at depth zero. -/
def terminatorFrom : Scan → Text → Nat
  | _, [] => 0
  | .single depth, c :: rest =>
      if c = '\'' then
        if rest.head? = some '\'' then 1 + terminatorFrom (.paired depth) rest
        else 1 + terminatorFrom (.outside depth) rest
      else 1 + terminatorFrom (.single depth) rest
  | .paired depth, _ :: rest => 1 + terminatorFrom (.single depth) rest
  | .double depth, c :: rest =>
      if c = '"' then 1 + terminatorFrom (.outside depth) rest
      else 1 + terminatorFrom (.double depth) rest
  | .outside depth, c :: rest =>
      if c = '\'' then 1 + terminatorFrom (.single depth) rest
      else if c = '"' then 1 + terminatorFrom (.double depth) rest
      else if c = '(' then 1 + terminatorFrom (.outside (depth + 1)) rest
      else if c = ')' then
        if depth = 0 then 0 else 1 + terminatorFrom (.outside (depth - 1)) rest
      else if c = ';' ∧ depth = 0 then 0
      else 1 + terminatorFrom (.outside depth) rest

def findSelectTerminator (sql : Text) (start : Nat) : Nat :=
  start + terminatorFrom (.outside 0) (sql.drop start)

/-- `sql[first:last]` -/
def slice (sql : Text) (first last : Nat) : Text := (sql.take last).drop first

/-- The SELECT with its limit after it. -/
def Match.written (k : Match) (body : Text) : Text :=
  k.lead ++ ("SELECT ".toList ++ (strip body ++ (" LIMIT ".toList ++ k.limit)))

/-- The parts from a position on; a match before it starts over at the end of its own SELECT. -/
def partsFrom (sql : Text) : Nat → List Match → Text
  | last, [] => sql.drop last
  | last, k :: ks =>
      slice sql last k.start ++
        (k.written (slice sql k.stop (findSelectTerminator sql k.stop)) ++
          partsFrom sql (findSelectTerminator sql k.stop) ks)

def appendLimitToSelect (p : Pattern) (sql : Text) : Text := partsFrom sql 0 (finditer p sql)

def fixRemainingTop (sql : Text) : Text :=
  appendLimitToSelect topPattern (appendLimitToSelect placeholderPattern sql)

/-! ## Every limit at the end of its own SELECT -/

/-- The words that no SELECT goes on with outside of parentheses: set operators, the marks of a
block, and the first words of the next statement. -/
def endWords : List Text :=
  ["UNION", "EXCEPT", "INTERSECT", "LOOP", "SELECT", "INSERT", "UPDATE", "DELETE", "MERGE",
    "TRUNCATE", "DECLARE", "SET", "IF", "WHILE", "BEGIN", "RETURN", "RAISE", "RAISERROR", "THROW",
    "PRINT", "PERFORM", "EXEC", "EXECUTE", "CALL", "OPEN", "FETCH", "CLOSE", "DEALLOCATE", "CREATE",
    "ALTER", "DROP", "GOTO", "BREAK", "CONTINUE", "COMMIT", "ROLLBACK", "WAITFOR", "ELSIF", "GO",
    "USE", "GRANT", "REVOKE", "DENY", "SAVE", "KILL", "DBCC", "BACKUP", "RESTORE",
    "EXCEPTION"].map String.toList

/-- The words of a CASE, which end a SELECT when no CASE is open in it. -/
def caseWords : List Text := ["WHEN", "THEN", "ELSE", "END"].map String.toList

/-- The word of the code that a text begins with. -/
def firstWord (s : List (Char × Bool)) : Text :=
  upper ((s.takeWhile fun c => c.2 && isWord c.1).map Prod.fst)

def endsSelect (cases : Nat) (word : Text) : Bool :=
  word ∈ endWords || cases = 0 && word ∈ caseWords

def openCases (cases : Nat) (word : Text) : Nat :=
  if word = "CASE".toList then cases + 1
  else if word = "END".toList then cases - 1
  else cases

/-- How many characters come before what ends a SELECT in the code: a `;`, the `)` of the parentheses
around it, or the blanks before a word that it does not go on with. `inWord` says that the character
before is one of a word. -/
def selectEndFrom (depth cases : Nat) (inWord : Bool) : List (Char × Bool) → Nat
  | [] => 0
  | (c, code) :: rest =>
      if code = false then 1 + selectEndFrom depth cases false rest
      else if c = '(' then 1 + selectEndFrom (depth + 1) cases false rest
      else if c = ')' then if depth = 0 then 0 else 1 + selectEndFrom (depth - 1) cases false rest
      else if depth ≠ 0 then 1 + selectEndFrom depth cases (isWord c) rest
      else if c = ';' then 0
      else if isSpace c then
        if endsSelect cases (firstWord (rest.dropWhile fun c => c.2 && isSpace c.1)) then 0
        else 1 + selectEndFrom depth cases false rest
      else if inWord then 1 + selectEndFrom depth cases (isWord c) rest
      else if endsSelect cases (firstWord ((c, code) :: rest)) then 0
      else 1 + selectEndFrom depth (openCases cases (firstWord ((c, code) :: rest))) (isWord c) rest

def selectEnd (sql : Text) (start : Nat) : Nat :=
  start + selectEndFrom 0 0 false ((sql.zip (inCode sql)).drop start)

/-- How many characters come before the parenthesis of the code that closes the one before them. -/
def closeFrom : Nat → List (Char × Bool) → Nat
  | _, [] => 0
  | depth, (c, code) :: rest =>
      if code = false then 1 + closeFrom depth rest
      else if c = '(' then 1 + closeFrom (depth + 1) rest
      else if c = ')' then if depth = 0 then 0 else 1 + closeFrom (depth - 1) rest
      else 1 + closeFrom depth rest

/-- `TOP (expr)`, where the expression ends at the parenthesis that closes its own, or `TOP n`. -/
def topClause (s : Text) : Option (Text × Text) := do
  let s ← blanks s
  let s ← keyword "TOP".toList s
  match symbol '(' (lstrip s) with
  | some s =>
      let inner := s.take (closeFrom 0 (s.zip (inCode s)))
      if inner = [] then none
      else do
        let s ← symbol ')' (s.drop inner.length)
        return (strip inner, s)
  | none => do
      let s ← blanks s
      let digits := s.takeWhile Char.isDigit
      if digits = [] then none else return (digits, s.drop digits.length)

def topSelect : Pattern := selectWith topClause

/-- The SELECTs of the code that carry a limit. -/
def carriers (p : Pattern) (sql : Text) : List Match :=
  (finditer p sql).filter fun k => (inCode sql).getD k.start false

/-- The text between two positions, where every SELECT has its limit at its own end; those that
start before its end are read within it, the others after it. -/
def limitedFrom (sql : Text) (ends : Nat → Nat) : Nat → Nat → Nat → List Match → Text
  | n + 1, first, last, k :: ks =>
      slice sql first k.start ++
        (k.written (limitedFrom sql ends n k.stop (ends k.stop)
            (ks.takeWhile fun j => j.start < ends k.stop)) ++
          limitedFrom sql ends n (ends k.stop) last
            (ks.dropWhile fun j => j.start < ends k.stop))
  | _, first, last, _ => slice sql first last

def limited (p : Pattern) (sql : Text) : Text :=
  limitedFrom sql (selectEnd sql) (carriers p sql).length 0 sql.length (carriers p sql)

/-- The pattern finds just the SELECTs of the code with their limits, and the scan their ends, and
what comes after a SELECT stands in no comment of it. -/
def Found (p q : Pattern) (sql : Text) : Prop :=
  finditer p sql = carriers q sql ∧
    ∀ k ∈ finditer p sql, findSelectTerminator sql k.stop = selectEnd sql k.stop ∧
      endPlace (strip (slice sql k.stop (selectEnd sql k.stop))) = .code

instance (p q : Pattern) (sql : Text) : Decidable (Found p q sql) :=
  inferInstanceAs (Decidable (_ ∧ _))

/-- Every match comes after the end of the SELECT of the match before it. -/
def ApartFrom (ends : Nat → Nat) : Nat → List Match → Prop
  | _, [] => True
  | last, k :: ks => last ≤ k.start ∧ ApartFrom ends (ends k.stop) ks

def Apart (p : Pattern) (sql : Text) : Prop :=
  ApartFrom (findSelectTerminator sql) 0 (finditer p sql)

instance decidableApartFrom (ends : Nat → Nat) : (last : Nat) → (ks : List Match) →
    Decidable (ApartFrom ends last ks)
  | _, [] => isTrue trivial
  | last, k :: ks =>
      have := decidableApartFrom ends (ends k.stop) ks
      inferInstanceAs (Decidable (last ≤ k.start ∧ ApartFrom ends (ends k.stop) ks))

instance (p : Pattern) (sql : Text) : Decidable (Apart p sql) := decidableApartFrom _ _ _

/-- A SELECT that begins within another one ends no later. -/
def Nested (p : Pattern) (sql : Text) : Prop :=
  (finditer p sql).Pairwise fun k j =>
    j.start < findSelectTerminator sql k.stop →
      findSelectTerminator sql j.stop ≤ findSelectTerminator sql k.stop

/-! ## Apart -/

variable {p q : Pattern} {sql : Text} {ends : Nat → Nat} {ks : List Match} {first last n : Nat}

attribute [local simp] findFrom in
attribute [local simp] limitedFrom in
attribute [local simp] partsFrom in
theorem takeWhile_of_apart {stop : Nat} (h : ApartFrom ends stop ks) :
    (ks.takeWhile fun j => j.start < stop) = [] ∧ (ks.dropWhile fun j => j.start < stop) = ks := by
  cases ks with
  | nil => exact ⟨rfl, rfl⟩
  | cons j ks =>
      have hstart : ¬(decide (j.start < stop) = true) := by
        rw [decide_eq_true_eq]
        exact Nat.not_lt.mpr h.1
      exact ⟨List.takeWhile_cons_of_neg hstart, List.dropWhile_cons_of_neg hstart⟩

theorem limitedFrom_nil (n first last : Nat) :
    limitedFrom sql ends n first last [] = slice sql first last := by
  cases n with
  | zero => rfl
  | succ n => rfl

theorem slice_length (sql : Text) (first : Nat) : slice sql first sql.length = sql.drop first := by
  rw [slice, List.take_length]

theorem partsFrom_of_apart (hends : ∀ k ∈ ks, findSelectTerminator sql k.stop = ends k.stop)
    (h : ApartFrom ends last ks) (hn : ks.length ≤ n) :
    partsFrom sql last ks = limitedFrom sql ends n last sql.length ks := by
  induction ks generalizing last n with
  | nil => rw [partsFrom, limitedFrom_nil, slice_length]
  | cons k ks ih =>
      obtain ⟨hk, hends⟩ := List.forall_mem_cons.mp hends
      obtain ⟨n, rfl⟩ : ∃ m, n = m + 1 := ⟨n - 1, by rw [List.length_cons] at hn; omega⟩
      obtain ⟨hinner, houter⟩ := takeWhile_of_apart h.2
      rw [partsFrom, limitedFrom, hinner, houter, limitedFrom_nil, hk,
        ih hends h.2 (Nat.le_of_succ_le_succ hn)]

theorem apartFrom_congr {ends' : Nat → Nat} (h : ∀ k ∈ ks, ends k.stop = ends' k.stop)
    (hks : ApartFrom ends last ks) : ApartFrom ends' last ks := by
  induction ks generalizing last with
  | nil => trivial
  | cons k ks ih =>
      obtain ⟨hk, h⟩ := List.forall_mem_cons.mp h
      exact ⟨hks.1, ih h (hk ▸ hks.2)⟩

theorem append_of_apart (hfound : Found p q sql) (h : Apart p sql) :
    appendLimitToSelect p sql = limited q sql := by
  obtain ⟨hks, hends⟩ := hfound
  rw [appendLimitToSelect, limited, ← hks]
  exact partsFrom_of_apart (fun k hk => (hends k hk).1)
    (apartFrom_congr (fun k hk => (hends k hk).1) h) (Nat.le_refl _)

/-! ## What is written twice -/

/-- The characters that are no blanks. -/
def weight (s : Text) : Nat := s.countP fun c => !isSpace c

theorem weight_append (s t : Text) : weight (s ++ t) = weight s + weight t := List.countP_append

theorem weight_blank {s : Text} (h : Blank s) : weight s = 0 := by
  rw [weight, List.countP_eq_zero]
  intro c hc
  rw [h c hc]
  exact Bool.false_ne_true

theorem weight_strip (s : Text) : weight (strip s) = weight s := by
  obtain ⟨w, w', hw, hw', hs⟩ := exists_blanks s
  have hall := congrArg weight hs
  rw [weight_append, weight_append, weight_blank hw, weight_blank hw'] at hall
  omega

theorem weight_slice (sql : Text) (h : first ≤ last) :
    weight (sql.take first) + weight (slice sql first last) = weight (sql.take last) := by
  have hsplit : sql.take last = sql.take first ++ slice sql first last := by
    have htake := List.take_append_drop first (sql.take last)
    rw [List.take_take, Nat.min_eq_left h] at htake
    exact htake.symm
  rw [hsplit, weight_append]

theorem slice_of_le (h : last ≤ first) : slice sql first last = [] := by
  rw [slice, List.drop_eq_nil_iff, List.length_take]
  omega

/-- A character that is no blank counts between two positions around it. -/
theorem weight_take_lt (hstart : (sql.drop first).head?.any (fun c => !isSpace c) = true)
    (h : first < last) : weight (sql.take first) < weight (sql.take last) := by
  have hslice := weight_slice sql (Nat.le_of_lt h)
  have hpos : 0 < weight (slice sql first last) := by
    rw [slice, List.drop_take]
    cases hd : sql.drop first with
    | nil =>
        rw [hd] at hstart
        cases hstart
    | cons c rest =>
        rw [hd] at hstart
        obtain ⟨m, hm⟩ : ∃ m, last - first = m + 1 := ⟨last - first - 1, by omega⟩
        rw [hm, List.take_succ_cons, weight,
          List.countP_cons_of_pos (p := fun c => !isSpace c) hstart]
        exact Nat.succ_pos _
  omega

def total (f : Match → Nat) : List Match → Nat
  | [] => 0
  | k :: ks => f k + total f ks

attribute [local simp] total in
theorem total_append (f : Match → Nat) (ks ks' : List Match) :
    total f (ks ++ ks') = total f ks + total f ks' := by
  induction ks with
  | nil => exact (Nat.zero_add _).symm
  | cons k ks ih => rw [List.cons_append, total, total, ih, Nat.add_assoc]

/-- What a match takes out of the text. -/
def Match.cut (sql : Text) (k : Match) : Nat := weight (slice sql k.start k.stop)

/-- What it writes besides the body. -/
def Match.put (k : Match) : Nat := weight k.lead + 11 + weight k.limit

theorem weight_written (k : Match) (body : Text) :
    weight (k.written body) = k.put + weight body := by
  have hselect : weight "SELECT ".toList = 6 := by decide
  have hlimit : weight " LIMIT ".toList = 5 := by decide
  rw [Match.written, weight_append, weight_append, weight_append, weight_append, weight_strip,
    hselect, hlimit, Match.put]
  omega

/-- What lies between a match and an earlier end after it. -/
def againFrom (sql : Text) (ends : Nat → Nat) : Nat → List Match → Nat
  | _, [] => 0
  | last, k :: ks =>
      (weight (sql.take last) - weight (sql.take k.start)) + againFrom sql ends (ends k.stop) ks

/-- The matches of a region: each one within it, with its end after it. -/
def Within (ends : Nat → Nat) (first last : Nat) (ks : List Match) : Prop :=
  ∀ k ∈ ks, first ≤ k.start ∧ k.start ≤ k.stop ∧ k.stop ≤ ends k.stop ∧ ends k.stop ≤ last

attribute [local simp] againFrom in
theorem partsFrom_weight
    (hks : Within (findSelectTerminator sql) 0 sql.length ks) (hlast : last ≤ sql.length) :
    weight (sql.take last) + weight (partsFrom sql last ks) + total (Match.cut sql) ks =
      weight sql + total Match.put ks + againFrom sql (findSelectTerminator sql) last ks := by
  induction ks generalizing last with
  | nil =>
      rw [partsFrom, ← weight_append, List.take_append_drop]
      rfl
  | cons k ks ih =>
      obtain ⟨⟨-, hstart, hstop, hend⟩, hks⟩ := List.forall_mem_cons.mp hks
      have hrest := ih hks hend
      have hcut := weight_slice sql hstart
      have hbody := weight_slice sql hstop
      rw [partsFrom, total, total, againFrom, weight_append, weight_append, weight_written,
        Match.cut]
      rcases Nat.le_total last k.start with hle | hle
      · have hgap := weight_slice sql hle
        omega
      · have hback := weight_slice sql hle
        have hnone : weight (slice sql last k.start) = 0 := by
          rw [slice_of_le hle]
          rfl
        omega

theorem le_start_of_mem_dropWhile {stop : Nat} (hks : ks.Pairwise fun k j => k.start ≤ j.start) :
    ∀ j ∈ ks.dropWhile (fun j => j.start < stop), stop ≤ j.start := by
  induction ks with
  | nil => nofun
  | cons k ks ih =>
      obtain ⟨hfirst, hks⟩ := List.pairwise_cons.mp hks
      rw [List.dropWhile_cons]
      split
      · exact ih hks
      · next hk =>
          have hstop : stop ≤ k.start := Nat.not_lt.mp fun hlt => hk (decide_eq_true hlt)
          intro j hj
          rcases List.mem_cons.mp hj with rfl | hj
          · exact hstop
          · exact Nat.le_trans hstop (hfirst j hj)

/-- Matches one after another, where one that begins within a SELECT ends no later. -/
structure Laid (ends : Nat → Nat) (first last : Nat) (ks : List Match) : Prop where
  within : Within ends first last ks
  sorted : ks.Pairwise fun k j => k.stop ≤ j.start
  nested : ks.Pairwise fun k j => j.start < ends k.stop → ends j.stop ≤ ends k.stop

theorem Laid.inner {k : Match} (h : Laid ends first last (k :: ks)) :
    Laid ends k.stop (ends k.stop) (ks.takeWhile fun j => j.start < ends k.stop) where
  within := by
    intro j hj
    have hmem : j ∈ ks := List.takeWhile_subset _ hj
    have hstart : j.start < ends k.stop :=
      of_decide_eq_true (List.mem_takeWhile_imp (p := fun j : Match => j.start < ends k.stop) hj)
    obtain ⟨-, hj⟩ := h.within j (List.mem_cons_of_mem k hmem)
    exact ⟨(List.pairwise_cons.mp h.sorted).1 j hmem, hj.1, hj.2.1,
      (List.pairwise_cons.mp h.nested).1 j hmem hstart⟩
  sorted := (List.pairwise_cons.mp h.sorted).2.sublist (List.takeWhile_sublist _)
  nested := (List.pairwise_cons.mp h.nested).2.sublist (List.takeWhile_sublist _)

theorem Laid.outer {k : Match} (h : Laid ends first last (k :: ks)) :
    Laid ends (ends k.stop) last (ks.dropWhile fun j => j.start < ends k.stop) where
  within := by
    intro j hj
    have hmem : j ∈ ks := List.dropWhile_subset _ hj
    have hstarts : ks.Pairwise fun k j => k.start ≤ j.start := by
      refine (List.pairwise_cons.mp h.sorted).2.imp_of_mem fun hk _ hle => ?_
      exact Nat.le_trans (h.within _ (List.mem_cons_of_mem k hk)).2.1 hle
    obtain ⟨-, hj'⟩ := h.within j (List.mem_cons_of_mem k hmem)
    exact ⟨le_start_of_mem_dropWhile hstarts j hj, hj'⟩
  sorted := (List.pairwise_cons.mp h.sorted).2.sublist (List.dropWhile_sublist _)
  nested := (List.pairwise_cons.mp h.nested).2.sublist (List.dropWhile_sublist _)

theorem limitedFrom_weight (h : Laid ends first last ks) (hle : first ≤ last)
    (hn : ks.length ≤ n) :
    weight (limitedFrom sql ends n first last ks) + total (Match.cut sql) ks =
      weight (slice sql first last) + total Match.put ks := by
  induction n generalizing first last ks with
  | zero =>
      obtain rfl := List.eq_nil_of_length_eq_zero (Nat.le_zero.mp hn)
      rfl
  | succ n ih =>
      cases ks with
      | nil => rfl
      | cons k ks =>
          obtain ⟨hfirst, hstart, hstop, hend⟩ := h.within k List.mem_cons_self
          have hshort := Nat.le_of_succ_le_succ hn
          have hinner := ih h.inner hstop
            (Nat.le_trans (List.takeWhile_sublist _).length_le hshort)
          have houter := ih h.outer hend
            (Nat.le_trans (List.dropWhile_sublist _).length_le hshort)
          have hcuts := total_append (Match.cut sql)
            (ks.takeWhile fun j => j.start < ends k.stop)
            (ks.dropWhile fun j => j.start < ends k.stop)
          have hputs := total_append Match.put
            (ks.takeWhile fun j => j.start < ends k.stop)
            (ks.dropWhile fun j => j.start < ends k.stop)
          rw [List.takeWhile_append_dropWhile] at hcuts hputs
          have hgap := weight_slice sql hfirst
          have hcut := weight_slice sql hstart
          have hbody := weight_slice sql hstop
          have hrest := weight_slice sql hend
          have hwhole := weight_slice sql hle
          rw [limitedFrom, weight_append, weight_append, weight_written, total, total, Match.cut]
          omega

/-- Nothing lies between, when the matches are apart. -/
theorem apart_of_again (hks : Within ends 0 sql.length ks)
    (hsolid : ∀ k ∈ ks, (sql.drop k.start).head?.any (fun c => !isSpace c) = true)
    (h : againFrom sql ends last ks = 0) : ApartFrom ends last ks := by
  induction ks generalizing last with
  | nil => trivial
  | cons k ks ih =>
      obtain ⟨hk, hsolid⟩ := List.forall_mem_cons.mp hsolid
      obtain ⟨-, hks⟩ := List.forall_mem_cons.mp hks
      rw [againFrom] at h
      obtain ⟨hhere, hrest⟩ := Nat.add_eq_zero_iff.mp h
      refine ⟨?_, ih hks hsolid hrest⟩
      by_contra hlt
      have hweight := weight_take_lt hk (Nat.not_le.mp hlt)
      omega

/-! ## What the patterns take -/

/-- The rest comes after a part with so many characters that are no blanks. -/
def Takes (n : Nat) (s rest : Text) : Prop := ∃ u, s = u ++ rest ∧ weight u = n

theorem Takes.trans {m : Nat} {s t u : Text} (h : Takes m s t) (h' : Takes n t u) :
    Takes (m + n) s u := by
  obtain ⟨v, rfl, hv⟩ := h
  obtain ⟨w, rfl, hw⟩ := h'
  exact ⟨v ++ w, (List.append_assoc v w u).symm, by rw [weight_append, hv, hw]⟩

theorem takes_lstrip (s : Text) : Takes 0 s (lstrip s) :=
  ⟨s.takeWhile isSpace, List.takeWhile_append_dropWhile.symm,
    weight_blank (List.all_eq_true.mp List.all_takeWhile)⟩

theorem takes_blanks {s rest : Text} (h : blanks s = some rest) : Takes 0 s rest := by
  rw [blanks] at h
  split at h
  · obtain rfl := Option.some.inj h
    exact takes_lstrip s
  · cases h

theorem takes_symbol {c : Char} {s rest : Text} (hc : isSpace c = false)
    (h : symbol c s = some rest) : Takes 1 s rest := by
  cases s with
  | nil => cases h
  | cons d s =>
      rw [symbol] at h
      split at h
      · next hd =>
          obtain rfl := Option.some.inj h
          refine ⟨[d], rfl, ?_⟩
          rw [hd, weight, List.countP_singleton, hc]
          rfl
      · cases h

/-- No blank in a word. -/
def Solid (w : Text) : Prop := w.all (fun c => !isSpace c) = true

instance (w : Text) : Decidable (Solid w) := inferInstanceAs (Decidable (_ = _))

theorem Solid.isSpace_eq {w : Text} (h : Solid w) {c : Char} (hc : c ∈ w) :
    isSpace c = false := by
  have hnot : (!isSpace c) = true := List.all_eq_true.mp h c hc
  rwa [Bool.not_eq_true'] at hnot

theorem takes_keyword {w s rest : Text} (hw : Solid w)
    (h : keyword w s = some rest) : Takes w.length s rest := by
  rw [keyword] at h
  split at h
  · next hupper =>
      obtain rfl := Option.some.inj h
      refine ⟨s.take w.length, (List.take_append_drop _ _).symm, ?_⟩
      have hlength := congrArg List.length hupper
      rw [upper, List.length_map] at hlength
      have hall : weight (s.take w.length) = (s.take w.length).length := by
        rw [weight, List.countP_eq_length]
        intro c hc
        rw [isSpace_of_toUpper (hw.isSpace_eq (hupper ▸ List.mem_map_of_mem hc))]
        rfl
      rw [hall, hlength]
  · cases h

theorem topExpr_takes {s limit rest : Text} (h : topExpr s = some (limit, rest)) :
    Takes (5 + weight limit) s rest := by
  simp only [topExpr, Option.bind_eq_bind, Option.bind_eq_some_iff] at h
  obtain ⟨s₁, h₁, s₂, h₂, s₃, h₃, h⟩ := h
  split at h
  · cases h
  · obtain ⟨s₄, h₄, h⟩ := Option.bind_eq_some_iff.mp h
    obtain ⟨rfl, rfl⟩ := Prod.mk.inj (Option.some.inj h)
    have hinner : Takes (weight (s₃.takeWhile (· ≠ ')'))) s₃
        (s₃.drop (s₃.takeWhile (· ≠ ')')).length) := by
      exact ⟨_, (List.prefix_iff_eq_append.mp (List.takeWhile_prefix _)).symm, rfl⟩
    have hall := (takes_blanks h₁).trans ((takes_keyword (by decide) h₂).trans
      ((takes_lstrip s₂).trans ((takes_symbol (by decide) h₃).trans
        (hinner.trans (takes_symbol (by decide) h₄)))))
    rw [weight_strip]
    have hcount : 0 + ("TOP".toList.length + (0 + (1 + (weight (s₃.takeWhile (· ≠ ')')) + 1)))) =
        5 + weight (s₃.takeWhile (· ≠ ')')) := by
      have htop : "TOP".toList.length = 3 := rfl
      omega
    rwa [hcount] at hall

theorem placeholder_takes {s limit rest : Text} (h : placeholder s = some (limit, rest)) :
    ∃ n, Takes n s rest := by
  simp only [placeholder, Option.bind_eq_bind, Option.bind_eq_some_iff] at h
  obtain ⟨s₁, h₁, s₂, h₂, s₃, h₃, s₄, h₄, h⟩ := h
  split at h
  · cases h
  · simp only [Option.bind_eq_some_iff] at h
    obtain ⟨s₅, h₅, s₆, h₆, s₇, h₇, s₈, h₈, s₉, h₉, t₁, g₁, t₂, g₂, t₃, g₃, h⟩ := h
    obtain ⟨-, rfl⟩ := Prod.mk.inj (Option.some.inj h)
    have hdigits : Takes (weight (s₄.takeWhile Char.isDigit)) s₄
        (s₄.drop (s₄.takeWhile Char.isDigit).length) :=
      ⟨_, (List.prefix_iff_eq_append.mp (List.takeWhile_prefix _)).symm, rfl⟩
    have hopen := (takes_lstrip s).trans ((takes_symbol (by decide) h₁).trans
      ((takes_symbol (by decide) h₂).trans ((takes_lstrip s₂).trans
        ((takes_keyword (by decide) h₃).trans ((takes_blanks h₄).trans hdigits)))))
    have hclose := (takes_blanks h₅).trans ((takes_keyword (by decide) h₆).trans
      ((takes_blanks h₇).trans ((takes_keyword (by decide) h₈).trans
        ((takes_blanks h₉).trans ((takes_keyword (by decide) g₁).trans
          ((takes_lstrip t₁).trans ((takes_symbol (by decide) g₂).trans
            (takes_symbol (by decide) g₃))))))))
    exact ⟨_, hopen.trans hclose⟩

/-- A keyword begins with a character that is no blank. -/
theorem head_of_keyword {w s rest : Text} (hne : w ≠ []) (hw : Solid w)
    (h : keyword w s = some rest) : s.head?.any (fun c => !isSpace c) = true := by
  rw [keyword] at h
  split at h
  · next hupper =>
      obtain ⟨d, w, rfl⟩ := List.exists_cons_of_ne_nil hne
      cases s with
      | nil => cases hupper
      | cons c s =>
          have hc : c.toUpper = d := (List.cons.inj hupper).1
          have hspace := isSpace_of_toUpper (hc ▸ hw.isSpace_eq List.mem_cons_self)
          rw [List.head?_cons, Option.any_some, hspace]
          rfl
  · cases h

theorem leadOf_prefix (s : Text) : s = leadOf s ++ s.drop (leadOf s).length := by
  have hprefix : leadOf s <+: s := by
    rw [leadOf]
    split
    · exact List.take_prefix _ _
    · exact List.nil_prefix
  exact (List.prefix_iff_eq_append.mp hprefix).symm

theorem head_of_lead {s : Text} (h : leadOf s ≠ []) :
    s.head?.any (fun c => !isSpace c) = true := by
  rw [leadOf] at h
  split at h
  · next hlead =>
      obtain ⟨_, hlead, -⟩ := Option.bind_eq_some_iff.mp hlead
      obtain ⟨_, hlead, -⟩ := Option.bind_eq_some_iff.mp hlead
      obtain ⟨_, hlead, -⟩ := Option.bind_eq_some_iff.mp hlead
      exact head_of_keyword (by decide) (by decide) hlead
  · exact absurd rfl h

/-- What a pattern takes is there, and begins with a word. -/
def Proper (p : Pattern) : Prop :=
  ∀ before s k, p before s = some k →
    0 < k.length ∧ k.length ≤ s.length ∧ s.head?.any (fun c => !isSpace c) = true

/-- The lead, SELECT and the clause, up to the rest. -/
theorem selectWith_some {clause : Text → Option (Text × Text)} {before : Option Char} {s : Text}
    {k : Carrier} (h : selectWith clause before s = some k) :
    ∃ t rest, keyword "SELECT".toList (s.drop (leadOf s).length) = some t ∧
      clause t = some (k.limit, rest) ∧ k.lead = leadOf s ∧
        k.length = s.length - (lstrip rest).length := by
  rw [selectWith] at h
  split at h
  · cases h
  · obtain ⟨t, ht, h⟩ := Option.bind_eq_some_iff.mp h
    obtain ⟨⟨limit, rest⟩, hclause, h⟩ := Option.bind_eq_some_iff.mp h
    obtain rfl := Option.some.inj h
    exact ⟨t, rest, ht, hclause, rfl, rfl⟩

theorem takes_carrier {s t rest : Text}
    (ht : keyword "SELECT".toList (s.drop (leadOf s).length) = some t) (hrest : Takes n t rest) :
    Takes (weight (leadOf s) + 6 + n) s (lstrip rest) := by
  have hlead : Takes (weight (leadOf s)) s (s.drop (leadOf s).length) :=
    ⟨leadOf s, leadOf_prefix s, rfl⟩
  have hselect := takes_keyword (by decide) ht
  have hall := hlead.trans (hselect.trans (hrest.trans (takes_lstrip rest)))
  have hcount : weight (leadOf s) + ("SELECT".toList.length + (n + 0)) =
      weight (leadOf s) + 6 + n := by
    have hsix : "SELECT".toList.length = 6 := rfl
    omega
  rwa [hcount] at hall

theorem selectWith_proper {clause : Text → Option (Text × Text)}
    (hclause : ∀ s limit rest, clause s = some (limit, rest) → ∃ n, Takes n s rest) :
    Proper (selectWith clause) := by
  intro before s k h
  obtain ⟨t, rest, ht, hrest, -, hlength⟩ := selectWith_some h
  obtain ⟨n, hn⟩ := hclause t k.limit rest hrest
  obtain ⟨u, hu, hweight⟩ := takes_carrier ht hn
  have hpos : 0 < u.length := by
    apply List.length_pos_of_ne_nil
    rintro rfl
    rw [show weight [] = 0 from rfl] at hweight
    omega
  have hlengths := congrArg List.length hu
  rw [List.length_append] at hlengths
  refine ⟨by omega, by omega, ?_⟩
  by_cases hlead : leadOf s = []
  · rw [hlead, List.length_nil, List.drop_zero] at ht
    exact head_of_keyword (by decide) (by decide) ht
  · exact head_of_lead hlead

/-- The match of a TOP is as heavy as what is written for it. -/
theorem topPattern_weight {before : Option Char} {s : Text} {k : Carrier}
    (h : topPattern before s = some k) :
    weight (s.take k.length) = weight k.lead + 11 + weight k.limit := by
  obtain ⟨t, rest, ht, hrest, hlead, hlength⟩ := selectWith_some h
  obtain ⟨u, hu, hweight⟩ := takes_carrier ht (topExpr_takes hrest)
  have hlengths := congrArg List.length hu
  rw [List.length_append] at hlengths
  have htake : s.take k.length = u := by
    have huLength : k.length = u.length := by omega
    rw [huLength, hu, List.take_left]
  rw [htake, hweight, hlead]
  omega

/-! ## What is found -/

theorem mem_findFrom {pos skip : Nat} {before : Option Char} {s : Text} {k : Match}
    (h : k ∈ findFrom p pos skip before s) :
    ∃ i b c, k.start = pos + i ∧ skip ≤ i ∧ p b (s.drop i) = some c ∧
      k.stop = k.start + c.length ∧ k.lead = c.lead ∧ k.limit = c.limit := by
  induction s generalizing pos skip before with
  | nil =>
      cases skip with
      | zero => cases h
      | succ skip => cases h
  | cons d s ih =>
      have hlater : ∀ {skip' : Nat}, skip ≤ skip' + 1 →
          k ∈ findFrom p (pos + 1) skip' (some d) s →
          ∃ i b c, k.start = pos + i ∧ skip ≤ i ∧ p b ((d :: s).drop i) = some c ∧
            k.stop = k.start + c.length ∧ k.lead = c.lead ∧ k.limit = c.limit := by
        intro skip' hskip h
        obtain ⟨i, b, c, hstart, hi, hfound, hrest⟩ := ih h
        exact ⟨i + 1, b, c, by omega, by omega, hfound, hrest⟩
      cases skip with
      | succ skip => exact hlater (Nat.le_refl _) h
      | zero =>
          rw [findFrom] at h
          split at h
          · next c hc =>
              rcases List.mem_cons.mp h with rfl | h
              · exact ⟨0, before, c, rfl, Nat.le_refl 0, hc, rfl, rfl, rfl⟩
              · exact hlater (Nat.zero_le _) h
          · exact hlater (Nat.zero_le _) h

theorem findFrom_sorted (hp : Proper p) (pos skip : Nat) (before : Option Char) (s : Text) :
    (findFrom p pos skip before s).Pairwise fun k j => k.stop ≤ j.start := by
  induction s generalizing pos skip before with
  | nil =>
      cases skip with
      | zero => exact List.Pairwise.nil
      | succ skip => exact List.Pairwise.nil
  | cons d s ih =>
      cases skip with
      | succ skip => exact ih (pos + 1) skip (some d)
      | zero =>
          rw [findFrom]
          split
          · next c hc =>
              refine List.pairwise_cons.mpr ⟨fun j hj => ?_, ih (pos + 1) _ (some d)⟩
              obtain ⟨i, b, c', hstart, hi, -⟩ := mem_findFrom hj
              have hpos := (hp before (d :: s) c hc).1
              change pos + c.length ≤ j.start
              omega
          · exact ih (pos + 1) 0 (some d)

theorem terminatorFrom_le (scan : Scan) (s : Text) : terminatorFrom scan s ≤ s.length := by
  induction s generalizing scan with
  | nil =>
      rw [terminatorFrom]
      exact Nat.zero_le _
  | cons c rest ih =>
      have hstep : ∀ scan, 1 + terminatorFrom scan rest ≤ (c :: rest).length := by
        intro scan
        have hrest := ih scan
        rw [List.length_cons]
        omega
      cases scan with
      | single depth =>
          rw [terminatorFrom]
          split
          · split
            · exact hstep _
            · exact hstep _
          · exact hstep _
      | paired depth => exact hstep _
      | double depth =>
          rw [terminatorFrom]
          split
          · exact hstep _
          · exact hstep _
      | outside depth =>
          rw [terminatorFrom]
          split
          · exact hstep _
          · split
            · exact hstep _
            · split
              · exact hstep _
              · split
                · split
                  · exact Nat.zero_le _
                  · exact hstep _
                · split
                  · exact Nat.zero_le _
                  · exact hstep _

theorem within_finditer (hp : Proper p) (sql : Text) :
    Within (findSelectTerminator sql) 0 sql.length (finditer p sql) := by
  intro k hk
  obtain ⟨i, b, c, hstart, -, hc, hstop, -⟩ := mem_findFrom hk
  obtain ⟨hpos, hlength, -⟩ := hp b _ c hc
  have hend := terminatorFrom_le (.outside 0) (sql.drop k.stop)
  rw [List.length_drop] at hlength hend
  rw [findSelectTerminator]
  omega

theorem solid_finditer (hp : Proper p) (sql : Text) : ∀ k ∈ finditer p sql,
    (sql.drop k.start).head?.any (fun c => !isSpace c) = true := by
  intro k hk
  obtain ⟨i, b, c, hstart, -, hc, -⟩ := mem_findFrom hk
  rw [hstart, Nat.zero_add]
  exact (hp b _ c hc).2.2

theorem append_weight (hp : Proper p) (sql : Text) :
    weight (appendLimitToSelect p sql) + total (Match.cut sql) (finditer p sql) =
      weight sql + total Match.put (finditer p sql) +
        againFrom sql (findSelectTerminator sql) 0 (finditer p sql) := by
  have hparts := partsFrom_weight (within_finditer hp sql) (Nat.zero_le _)
  rw [List.take_zero, show weight [] = 0 from rfl, Nat.zero_add] at hparts
  exact hparts

theorem limitedFrom_congr {ends' : Nat → Nat} (h : ∀ k ∈ ks, ends k.stop = ends' k.stop) :
    limitedFrom sql ends n first last ks = limitedFrom sql ends' n first last ks := by
  induction n generalizing first last ks with
  | zero => rfl
  | succ n ih =>
      cases ks with
      | nil => rfl
      | cons k ks =>
          obtain ⟨hk, hks⟩ := List.forall_mem_cons.mp h
          rw [limitedFrom, limitedFrom, hk, ih fun j hj => hks j (List.takeWhile_subset _ hj),
            ih fun j hj => hks j (List.dropWhile_subset _ hj)]

theorem limited_weight (hp : Proper p) (hfound : Found p q sql) (hnested : Nested p sql) :
    weight (limited q sql) + total (Match.cut sql) (finditer p sql) =
      weight sql + total Match.put (finditer p sql) := by
  have hlaid : Laid (findSelectTerminator sql) 0 sql.length (finditer p sql) :=
    ⟨within_finditer hp sql, findFrom_sorted hp 0 0 none sql, hnested⟩
  have hweight := @limitedFrom_weight sql _ _ _ _ _ hlaid (Nat.zero_le _) (Nat.le_refl _)
  rw [slice_length, List.drop_zero] at hweight
  rw [limited, ← hfound.1, ← limitedFrom_congr fun k hk => (hfound.2 k hk).1]
  exact hweight

/-- Nothing is written twice just when the matches are apart. -/
theorem apart_of_weight (hp : Proper p) (hfound : Found p q sql) (hnested : Nested p sql)
    (h : weight (appendLimitToSelect p sql) ≤ weight (limited q sql)) : Apart p sql := by
  have hparts := append_weight hp sql
  have hlimited := limited_weight hp hfound hnested
  exact apart_of_again (within_finditer hp sql) (solid_finditer hp sql) (by omega)

theorem topPattern_proper : Proper topPattern :=
  selectWith_proper fun _ _ _ h => ⟨_, topExpr_takes h⟩

theorem placeholderPattern_proper : Proper placeholderPattern :=
  selectWith_proper fun _ _ _ h => placeholder_takes h

theorem top_total (sql : Text) :
    total (Match.cut sql) (finditer topPattern sql) =
      total Match.put (finditer topPattern sql) := by
  have heach : ∀ k ∈ finditer topPattern sql, k.cut sql = k.put := by
    intro k hk
    obtain ⟨i, b, c, hstart, -, hc, hstop, hlead, hlimit⟩ := mem_findFrom hk
    rw [Match.cut, Match.put, slice, hstop, List.drop_take, hstart, Nat.zero_add,
      Nat.add_sub_cancel_left, hlead, hlimit]
    exact topPattern_weight hc
  generalize finditer topPattern sql = ks at heach
  induction ks with
  | nil => rfl
  | cons k ks ih =>
      obtain ⟨hk, hks⟩ := List.forall_mem_cons.mp heach
      rw [total, total, hk, ih hks]

/-- Two SELECTs side by side. -/
def sideBySide : Text :=
  "SELECT a FROM (SELECT TOP (n) b FROM t) s, (SELECT TOP (m) c FROM u) v; d".toList

def nestedTops : Text := "SELECT TOP (m) a FROM (SELECT TOP (n) b FROM t) s; c".toList

end SqlOptima.SelectLimits
