import Mathlib.Data.List.Chain
import Mathlib.Data.List.Induction
import SqlOptima.PostgresLexing

namespace SqlOptima.ConversionRepair

open PythonText

/-!
# Repairing converted SQL until it is valid
-/

/-! ## What the pattern takes for a body -/

/-- Where the pattern finds a body, `start` and `stop` in characters from the beginning. -/
structure BodyMatch where
  start : Nat
  stop : Nat
  deriving DecidableEq

/-- `\$\1\s*;` at the beginning of the text. -/
def closes (tag s : Text) : Bool :=
  match s with
  | '$' :: rest =>
      upper (rest.take tag.length) = upper tag &&
        ((rest.drop tag.length).dropWhile isSpace).head? = some ';'
  | _ => false

/-- The length of the shortest body before a closing tag. -/
def bodyLength (tag : Text) : Text → Option Nat
  | [] => none
  | c :: s => if closes tag (c :: s) then some 0 else (bodyLength tag s).map (· + 1)

/-- `\bAS\s+\$([\w]*)\$` at the beginning of the text: the tag and the length of the match. -/
def opens (previous : Option Char) (s : Text) : Option (Text × Nat) :=
  let blanks := (s.drop 2).takeWhile isSpace
  let quoted := (s.drop 2).dropWhile isSpace
  let tag := (quoted.drop 1).takeWhile isWord
  if previous.any isWord = false ∧ upper (s.take 2) = "AS".toList ∧ blanks ≠ [] ∧
      quoted.head? = some '$' ∧ (quoted.drop (1 + tag.length)).head? = some '$' then
    some (tag, 2 + blanks.length + 1 + tag.length + 1)
  else none

def matchAt (previous : Option Char) (position : Nat) (s : Text) : Option BodyMatch :=
  (opens previous s).bind fun (tag, n) =>
    (bodyLength tag (s.drop n)).map fun k => ⟨position + n, position + n + k⟩

def searchFrom (previous : Option Char) (position : Nat) : Text → Option BodyMatch
  | [] => none
  | c :: s => (matchAt previous position (c :: s)).or (searchFrom (some c) (position + 1) s)

/-- `_DOLLAR_BODY_RE.search` -/
def searchBody (sql : Text) : Option BodyMatch := searchFrom none 0 sql

/-! ## The first dollar-quoted body -/

/-- `$tag$` at the beginning of the text. -/
def delimiterAt (previous : Option Char) (s : Text) : Option Text :=
  let tag := (s.drop 1).takeWhile isWord
  if previous.any (fun c => isWord c || c = '$') = false ∧ s.head? = some '$' ∧
      tag.head?.any Char.isDigit = false ∧ (s.drop (1 + tag.length)).head? = some '$' then
    some (s.take (tag.length + 2))
  else none

/-- How many characters come before the delimiter. -/
def lengthBefore (delimiter : Text) : Text → Option Nat
  | [] => none
  | c :: s =>
      if delimiter.isPrefixOf (c :: s) then some 0 else (lengthBefore delimiter s).map (· + 1)

def bodyAt (previous : Option Char) (position : Nat) (s : Text) : Option BodyMatch :=
  (delimiterAt previous s).bind fun delimiter =>
    (lengthBefore delimiter (s.drop delimiter.length)).map fun n =>
      ⟨position + delimiter.length, position + delimiter.length + n⟩

/-- A body is opened in code only. -/
def dollarBodyFrom (previous : Option Char) (position : Nat) : List Bool → Text → Option BodyMatch
  | code :: codes, c :: s =>
      (if code then bodyAt previous position (c :: s) else none).or
        (dollarBodyFrom (some c) (position + 1) codes s)
  | _, _ => none

/-- The first dollar-quoted body as PostgreSQL reads it: up to the next delimiter like the first. -/
def dollarBody (sql : Text) : Option BodyMatch :=
  dollarBodyFrom none 0 (PostgresLexing.inCode sql) sql

theorem lengthBefore_lt {delimiter s : Text} {n : Nat} (h : lengthBefore delimiter s = some n) :
    n < s.length := by
  induction s generalizing n with
  | nil => cases h
  | cons c s ih =>
      rw [lengthBefore] at h
      split at h
      · cases h
        exact Nat.zero_lt_succ _
      · obtain ⟨k, hk, rfl⟩ := Option.map_eq_some_iff.mp h
        exact Nat.succ_lt_succ (ih hk)

theorem dollarBodyFrom_bounds {previous : Option Char} {position : Nat} {codes : List Bool}
    {s : Text} {b : BodyMatch} (h : dollarBodyFrom previous position codes s = some b) :
    b.start ≤ b.stop ∧ b.stop ≤ position + s.length := by
  induction s generalizing previous position codes with
  | nil =>
      rw [dollarBodyFrom] at h
      · cases h
      · exact fun _ _ _ _ _ hcons => (List.cons_ne_nil _ _ hcons.symm).elim
  | cons c s ih =>
      cases codes with
      | nil => cases h
      | cons code codes =>
          rw [dollarBodyFrom, Option.or_eq_some_iff] at h
          rcases h with h | ⟨-, h⟩
          · cases code with
            | false => cases h
            | true =>
                obtain ⟨delimiter, -, hbody⟩ := Option.bind_eq_some_iff.mp h
                obtain ⟨n, hn, rfl⟩ := Option.map_eq_some_iff.mp hbody
                have hlt := lengthBefore_lt hn
                rw [List.length_drop] at hlt
                exact ⟨Nat.le_add_right _ _, by simp only; omega⟩
          · obtain ⟨hle, hlt⟩ := ih h
            exact ⟨hle, by rw [List.length_cons]; omega⟩

theorem dollarBody_bounds {sql : Text} {b : BodyMatch} (h : dollarBody sql = some b) :
    b.start ≤ b.stop ∧ b.stop ≤ sql.length := by
  have hbounds := dollarBodyFrom_bounds h
  rwa [Nat.zero_add] at hbounds

/-! ## The fixers and the loop -/

structure AppliedRepair where
  fixer : Text
  inBody : Bool
  changes : Nat

structure RepairResult where
  sql : Text
  repairs : List AppliedRepair
  repairExhausted : Bool

def RepairResult.fixesApplied (r : RepairResult) : Nat := r.repairs.length

/-- A validator, which gives the messages of its errors, and the fixers. -/
structure Toolkit where
  validate : Text → List Text
  fixerByName : Text → Option (Text → Text × Nat)
  proactiveFixers : List Text
  bodyOnlyFixers : List Text
  fixersForIssueMessage : Text → List Text

variable (kit : Toolkit)

namespace Toolkit

def isValid (sql : Text) : Bool := (kit.validate sql).isEmpty

def errorCount (sql : Text) : Nat := (kit.validate sql).length

def acceptFix (before after : Text) : Bool :=
  before ≠ after && (kit.isValid after || kit.errorCount after < kit.errorCount before)

/-- What the next fixer gives, when it changes something and is accepted. -/
def namedFix (current name : Text) : Option (Text × Nat) :=
  (kit.fixerByName name).bind fun fixer =>
    let (candidate, count) := fixer current
    if count ≠ 0 ∧ kit.acceptFix current candidate = true then some (candidate, count) else none

structure BodyState where
  body : Text
  sql : Text
  repairs : List AppliedRepair

/-- The text with the candidate at the place that the pattern found in the first text. -/
def splice (m : BodyMatch) (sql candidate : Text) : Text :=
  sql.take m.start ++ candidate ++ sql.drop m.stop

def bodyFix (m : BodyMatch) (s : BodyState) (name : Text) : Option (Text × Nat) :=
  (kit.fixerByName name).bind fun fixer =>
    let (candidate, count) := fixer s.body
    if count ≠ 0 ∧ kit.acceptFix s.sql (splice m s.sql candidate) = true then
      some (candidate, count)
    else none

def bodyStep (m : BodyMatch) (s : BodyState) (name : Text) : BodyState :=
  match kit.bodyFix m s name with
  | none => s
  | some (candidate, count) =>
      { body := candidate
        sql := splice m s.sql candidate
        repairs := s.repairs ++ [⟨name, true, count⟩] }

def bodyStart (sql : Text) (m : BodyMatch) : BodyState :=
  ⟨(sql.take m.stop).drop m.start, sql, []⟩

def bodyLoop (sql : Text) (m : BodyMatch) (names : List Text) : BodyState :=
  names.foldl (kit.bodyStep m) (bodyStart sql m)

def repairDollarBodies (sql : Text) (names : List Text) : Text × List AppliedRepair :=
  match searchBody sql with
  | none => (sql, [])
  | some m => let s := kit.bodyLoop sql m names; (s.sql, s.repairs)

def namedStep (s : Text × List AppliedRepair) (name : Text) : Text × List AppliedRepair :=
  match kit.namedFix s.1 name with
  | none => s
  | some (candidate, count) => (candidate, s.2 ++ [⟨name, false, count⟩])

def applyNamedFixers (sql : Text) (fixerNames : List Text) : Text × List AppliedRepair :=
  let names := if fixerNames = [] then kit.proactiveFixers ++ kit.bodyOnlyFixers else fixerNames
  let named := names.foldl kit.namedStep (sql, [])
  let inBodies := kit.repairDollarBodies named.1 names
  (inBodies.1, named.2 ++ inBodies.2)

def dedupeNames (names : List Text) : List Text :=
  names.foldl (fun ordered name => if name ∈ ordered then ordered else ordered ++ [name]) []

/-- The rounds that are left; the last one ends after its first pass. -/
def repairRounds : Nat → Text → List AppliedRepair → RepairResult
  | 0, current, repairs => ⟨current, repairs, true⟩
  | rounds + 1, current, repairs =>
      let first := kit.applyNamedFixers current []
      if kit.isValid first.1 then ⟨first.1, repairs ++ first.2, false⟩
      else if rounds = 0 then ⟨first.1, repairs ++ first.2, true⟩
      else
        let targeted := (kit.validate first.1).flatMap kit.fixersForIssueMessage
        if targeted = [] then ⟨first.1, repairs ++ first.2, true⟩
        else
          let second := kit.applyNamedFixers first.1 (dedupeNames targeted)
          if kit.isValid second.1 then ⟨second.1, repairs ++ first.2 ++ second.2, false⟩
          else repairRounds rounds second.1 (repairs ++ first.2 ++ second.2)

def maxRounds : Nat := 3

def repair (sql : Text) : RepairResult :=
  if strip sql = [] then ⟨sql, [], false⟩ else kit.repairRounds maxRounds sql []

end Toolkit

/-! ## What a repair keeps -/

variable {kit} {sql : Text} {m : BodyMatch}

/-- The accepted fixes lead from the first text to the last. -/
inductive FixRun (kit : Toolkit) (sql : Text) : List AppliedRepair → Text → Prop
  | start : FixRun kit sql [] sql
  | fix {repairs before after} (r : AppliedRepair) (h : FixRun kit sql repairs before)
      (haccept : kit.acceptFix before after = true) : FixRun kit sql (repairs ++ [r]) after

theorem FixRun.trans {middle last : Text} {first second : List AppliedRepair}
    (h : FixRun kit sql first middle) (h' : FixRun kit middle second last) :
    FixRun kit sql (first ++ second) last := by
  induction h' with
  | start => rwa [List.append_nil]
  | fix r _ haccept ih =>
      rw [← List.append_assoc]
      exact .fix r ih haccept

theorem errorCount_le_of_accept {before after : Text} (h : kit.acceptFix before after = true) :
    kit.errorCount after ≤ kit.errorCount before := by
  rw [Toolkit.acceptFix, Bool.and_eq_true, Bool.or_eq_true, decide_eq_true_eq,
    decide_eq_true_eq] at h
  rcases h.2 with hvalid | hlt
  · rw [Toolkit.errorCount, List.isEmpty_iff.mp hvalid]
    exact Nat.zero_le _
  · exact Nat.le_of_lt hlt

/-- Every fix is accepted on the text that the fix before it left, and none adds errors. -/
def Improves (kit : Toolkit) (sql : Text) (repairs : List AppliedRepair) (result : Text) : Prop :=
  ∃ texts : List Text, texts.length = repairs.length ∧
    List.IsChain (fun before after => kit.acceptFix before after = true ∧
      kit.errorCount after ≤ kit.errorCount before) (sql :: texts) ∧
    (sql :: texts).getLast? = some result

theorem FixRun.improves {repairs : List AppliedRepair} {result : Text}
    (h : FixRun kit sql repairs result) : Improves kit sql repairs result := by
  induction h with
  | start => exact ⟨[], rfl, .singleton _, rfl⟩
  | @fix repairs before after r _ haccept ih =>
      obtain ⟨texts, hlength, hchain, hlast⟩ := ih
      refine ⟨texts ++ [after], by simp [hlength], ?_, ?_⟩
      · rw [← List.cons_append]
        refine List.isChain_append.mpr ⟨hchain, .singleton _, fun x hx y hy => ?_⟩
        rw [hlast] at hx
        cases hx
        cases hy
        exact ⟨haccept, errorCount_le_of_accept haccept⟩
      · rw [← List.cons_append, List.getLast?_concat]

theorem accept_of_namedFix {current name candidate : Text} {count : Nat}
    (h : kit.namedFix current name = some (candidate, count)) :
    kit.acceptFix current candidate = true := by
  obtain ⟨fixer, -, h⟩ := Option.bind_eq_some_iff.mp h
  simp only at h
  split at h
  · next hfix =>
      cases h
      exact hfix.2
  · cases h

theorem accept_of_bodyFix {s : Toolkit.BodyState} {name candidate : Text} {count : Nat}
    (h : kit.bodyFix m s name = some (candidate, count)) :
    kit.acceptFix s.sql (Toolkit.splice m s.sql candidate) = true := by
  obtain ⟨fixer, -, h⟩ := Option.bind_eq_some_iff.mp h
  simp only at h
  split at h
  · next hfix =>
      cases h
      exact hfix.2
  · cases h

theorem fixRun_namedSteps (names : List Text) (sql : Text) :
    FixRun kit sql (names.foldl kit.namedStep (sql, [])).2
      (names.foldl kit.namedStep (sql, [])).1 := by
  induction names using List.reverseRecOn with
  | nil => exact .start
  | append_singleton names name ih =>
      rw [List.foldl_concat, Toolkit.namedStep]
      split
      · exact ih
      · next hfix => exact .fix _ ih (accept_of_namedFix hfix)

theorem bodyLoop_concat (sql : Text) (m : BodyMatch) (names : List Text) (name : Text) :
    kit.bodyLoop sql m (names ++ [name]) = kit.bodyStep m (kit.bodyLoop sql m names) name :=
  List.foldl_concat ..

theorem fixRun_bodyLoop (sql : Text) (m : BodyMatch) (names : List Text) :
    FixRun kit sql (kit.bodyLoop sql m names).repairs (kit.bodyLoop sql m names).sql := by
  induction names using List.reverseRecOn with
  | nil => exact .start
  | append_singleton names name ih =>
      rw [bodyLoop_concat, Toolkit.bodyStep]
      split
      · exact ih
      · next hfix => exact .fix _ ih (accept_of_bodyFix hfix)

theorem fixRun_repairDollarBodies (sql : Text) (names : List Text) :
    FixRun kit sql (kit.repairDollarBodies sql names).2 (kit.repairDollarBodies sql names).1 := by
  rw [Toolkit.repairDollarBodies]
  split
  · exact .start
  · exact fixRun_bodyLoop sql _ names

theorem fixRun_applyNamedFixers (sql : Text) (fixerNames : List Text) :
    FixRun kit sql (kit.applyNamedFixers sql fixerNames).2
      (kit.applyNamedFixers sql fixerNames).1 :=
  (fixRun_namedSteps _ sql).trans (fixRun_repairDollarBodies _ _)

theorem fixRun_repairRounds {rounds : Nat} {current : Text} {repairs : List AppliedRepair}
    (h : FixRun kit sql repairs current) :
    FixRun kit sql (kit.repairRounds rounds current repairs).repairs
      (kit.repairRounds rounds current repairs).sql := by
  induction rounds generalizing current repairs with
  | zero => exact h
  | succ rounds ih =>
      have hfirst := h.trans (fixRun_applyNamedFixers current [])
      simp only [Toolkit.repairRounds]
      split
      · exact hfirst
      · split
        · exact hfirst
        · split
          · exact hfirst
          · split
            · exact hfirst.trans (fixRun_applyNamedFixers _ _)
            · exact ih (hfirst.trans (fixRun_applyNamedFixers _ _))

/-- The loop leaves a round only with a valid text, or in its last round. -/
theorem exhausted_repairRounds (rounds : Nat) (current : Text) (repairs : List AppliedRepair) :
    (kit.repairRounds (rounds + 1) current repairs).repairExhausted =
      !kit.isValid (kit.repairRounds (rounds + 1) current repairs).sql := by
  induction rounds generalizing current repairs with
  | zero =>
      simp only [Toolkit.repairRounds]
      split
      · next h => rw [h, Bool.not_true]
      · next h => rw [if_pos trivial, Bool.eq_false_iff.mpr h, Bool.not_false]
  | succ rounds ih =>
      simp only [Toolkit.repairRounds]
      split
      · next h => rw [h, Bool.not_true]
      · next h =>
          rw [if_neg (Nat.succ_ne_zero rounds)]
          split
          · rw [Bool.eq_false_iff.mpr h, Bool.not_false]
          · split
            · next h' => rw [h', Bool.not_true]
            · exact ih _ _

/-! ## The text around the body -/

/-- The text around the body, and anything in its place. -/
def Around (sql : Text) (b : BodyMatch) (result : Text) : Prop :=
  ∃ inner, result = sql.take b.start ++ inner ++ sql.drop b.stop

/-- Outside the first dollar-quoted body, if there is one, the text is as before. -/
def Confined (sql result : Text) : Prop :=
  result = sql ∨ ∃ b, dollarBody sql = some b ∧ Around sql b result

theorem around_self {b : BodyMatch} (hb : b.start ≤ b.stop) : Around sql b sql := by
  refine ⟨(sql.take b.stop).drop b.start, ?_⟩
  have htake : (sql.take b.stop).take b.start = sql.take b.start := by
    rw [List.take_take, Nat.min_eq_left hb]
  rw [← htake, List.take_append_drop, List.take_append_drop]

/-- How much of the text behind the body the next splice takes away: the place is counted in the
first text, and the pattern may see the end of the body elsewhere than PostgreSQL does. -/
def taken (sql : Text) (m b : BodyMatch) (current : Text) : Nat :=
  m.stop + sql.length - (b.stop + current.length)

/-- A splice leaves the text around the body where the fixed body ends with what is taken away. -/
theorem around_splice_iff {b : BodyMatch} {current candidate : Text} (hstart : b.start = m.start)
    (hb : b.start ≤ b.stop ∧ b.stop ≤ sql.length) (h : Around sql b current) :
    Around sql b (Toolkit.splice m current candidate) ↔
      (sql.drop b.stop).take (taken sql m b current) <:+ candidate := by
  obtain ⟨inner, hcurrent⟩ := h
  have hfront : (sql.take b.start).length = b.start := by
    rw [List.length_take]
    omega
  have htake : current.take m.start = sql.take b.start := by
    rw [hcurrent, List.append_assoc, ← hstart]
    exact List.take_left' hfront
  have htaken : taken sql m b current = m.stop - (sql.take b.start ++ inner).length := by
    have hlength := congrArg List.length hcurrent
    rw [List.length_append, List.length_drop] at hlength
    rw [taken, hlength]
    omega
  have hrest : current.drop m.stop = (sql.take b.start ++ inner).drop m.stop ++
      (sql.drop b.stop).drop (taken sql m b current) := by
    rw [htaken]
    conv_lhs => rw [hcurrent]
    exact List.drop_append
  have hinner : (sql.drop b.stop).take (taken sql m b current) <:+ candidate ↔
      (sql.drop b.stop).take (taken sql m b current) <:+
        candidate ++ (sql.take b.start ++ inner).drop m.stop := by
    by_cases hzero : taken sql m b current = 0
    · rw [hzero, List.take_zero]
      exact iff_of_true (List.nil_suffix) (List.nil_suffix)
    · have hnil : (sql.take b.start ++ inner).drop m.stop = [] :=
        List.drop_eq_nil_of_le (by omega)
      rw [hnil, List.append_nil]
  rw [hinner, Toolkit.splice, htake, hrest]
  constructor
  · rintro ⟨inner', heq⟩
    refine ⟨inner', ?_⟩
    rw [List.append_assoc, List.append_assoc, List.append_cancel_left_eq] at heq
    rw [← List.take_append_drop (taken sql m b current) (sql.drop b.stop), ← List.append_assoc,
      ← List.append_assoc, List.take_append_drop] at heq
    exact (List.append_cancel_right heq).symm
  · rintro ⟨inner', heq⟩
    refine ⟨inner', ?_⟩
    rw [List.append_assoc, ← List.append_assoc candidate, ← heq, List.append_assoc inner',
      List.take_append_drop, List.append_assoc]

/-- Whenever a body fix is accepted, the pattern has opened the first dollar-quoted body, and the
fixed body ends with what the splice takes away behind it. -/
def FixesKeepEnd (kit : Toolkit) (sql : Text) (names : List Text) : Prop :=
  ∀ m, searchBody sql = some m → ∀ done name rest, names = done ++ name :: rest →
    ∀ candidate count,
      kit.bodyFix m (kit.bodyLoop sql m done) name = some (candidate, count) →
        ∃ b, dollarBody sql = some b ∧ b.start = m.start ∧
          (sql.drop b.stop).take (taken sql m b (kit.bodyLoop sql m done).sql) <:+ candidate

/-- The body that the pattern opens is the first dollar-quoted one. -/
def OpensFirst (sql : Text) : Prop :=
  ∀ m, searchBody sql = some m → ∃ b, dollarBody sql = some b ∧ b.start = m.start

structure ConfinedRepair (kit : Toolkit) (sql : Text) (names : List Text) : Prop where
  unmatched : searchBody sql = none → (kit.repairDollarBodies sql names).1 = sql
  confined : ∀ m, searchBody sql = some m → ∀ done rest, names = done ++ rest →
    Confined sql (kit.bodyLoop sql m done).sql
  improves : Improves kit sql (kit.repair sql).repairs (kit.repair sql).sql
  exhausted : (kit.repair sql).repairExhausted = false ↔ kit.validate (kit.repair sql).sql = []

theorem around_of_confined {b : BodyMatch} {result : Text} (hb : dollarBody sql = some b)
    (h : Confined sql result) : Around sql b result := by
  rcases h with rfl | ⟨b', hb', h⟩
  · exact around_self (dollarBody_bounds hb).1
  · rw [hb] at hb'
    cases hb'
    exact h

theorem bodyStep_sql (m : BodyMatch) (s : Toolkit.BodyState) (name : Text) :
    (kit.bodyStep m s name).sql =
      (kit.bodyFix m s name).elim s.sql fun fix => Toolkit.splice m s.sql fix.1 := by
  rw [Toolkit.bodyStep]
  cases kit.bodyFix m s name with
  | none => rfl
  | some fix => rfl

theorem confined_of_keepEnd (hm : searchBody sql = some m) {names : List Text}
    (h : FixesKeepEnd kit sql names) :
    ∀ done rest, names = done ++ rest → Confined sql (kit.bodyLoop sql m done).sql := by
  intro done
  induction done using List.reverseRecOn with
  | nil => exact fun _ _ => .inl rfl
  | append_singleton done name ih =>
      intro rest heq
      rw [List.append_assoc, List.singleton_append] at heq
      have hbefore := ih _ heq
      rw [bodyLoop_concat, bodyStep_sql]
      cases hfix : kit.bodyFix m (kit.bodyLoop sql m done) name with
      | none => exact hbefore
      | some fix =>
          obtain ⟨b, hb, hstart, hkept⟩ := h m hm done name rest heq fix.1 fix.2 hfix
          exact .inr ⟨b, hb, (around_splice_iff hstart (dollarBody_bounds hb)
            (around_of_confined hb hbefore)).mpr hkept⟩

theorem keepEnd_of_confined (hopens : OpensFirst sql) {names : List Text}
    (h : ∀ m, searchBody sql = some m → ∀ done rest, names = done ++ rest →
      Confined sql (kit.bodyLoop sql m done).sql) : FixesKeepEnd kit sql names := by
  intro m hm done name rest heq candidate count hfix
  obtain ⟨b, hb, hstart⟩ := hopens m hm
  have hnext := h m hm (done ++ [name]) rest (by rw [heq, List.append_assoc, List.singleton_append])
  rw [bodyLoop_concat, bodyStep_sql, hfix] at hnext
  exact ⟨b, hb, hstart, (around_splice_iff hstart (dollarBody_bounds hb)
    (around_of_confined hb (h m hm done _ heq))).mp (around_of_confined hb hnext)⟩

/-- The fixes stay within the first dollar-quoted body where each of them keeps what comes behind
it, and nowhere else if the body is the one that the pattern opens. -/
theorem confinedRepair_iff (_ : Ascii sql) (hsql : strip sql ≠ []) (names : List Text) :
    (FixesKeepEnd kit sql names → ConfinedRepair kit sql names) ∧
      (OpensFirst sql → ConfinedRepair kit sql names → FixesKeepEnd kit sql names) := by
  have hrepair : kit.repair sql = kit.repairRounds (2 + 1) sql [] := if_neg hsql
  refine ⟨fun h => ⟨fun hnone => ?_, fun m hm => confined_of_keepEnd hm h, ?_, ?_⟩,
    fun hopens h => keepEnd_of_confined hopens h.confined⟩
  · rw [Toolkit.repairDollarBodies, hnone]
  · rw [hrepair]
    exact (fixRun_repairRounds .start).improves
  · rw [hrepair, exhausted_repairRounds, Bool.not_eq_false', Toolkit.isValid, List.isEmpty_iff]

section Samples

/-- An error for each `x` in the text; each of two fixers takes out the first of them. -/
def sampleKit : Toolkit where
  validate := fun sql => (sql.filter (· = 'x')).map fun _ => "x".toList
  fixerByName := fun _ => some fun sql => (sql.erase 'x', 1)
  proactiveFixers := []
  bodyOnlyFixers := []
  fixersForIssueMessage := fun _ => []

def sampleSql : Text := "AS $$xx$$; END".toList

def sampleNames : List Text := ["first".toList, "second".toList]

theorem sampleSql_body : searchBody sampleSql = some ⟨5, 8⟩ ∧ dollarBody sampleSql = some ⟨5, 7⟩ := by
  decide

theorem sample_one_fix : ConfinedRepair sampleKit sampleSql ["first".toList] := by
  refine (confinedRepair_iff (by decide) (by decide) _).1
    fun m hm done name rest heq candidate count hfix => ?_
  have hdone : done = [] ∧ name = "first".toList := by
    cases done with
    | nil => exact ⟨rfl, (List.cons.inj heq).1.symm⟩
    | cons _ _ => simp at heq
  rw [sampleSql_body.1, Option.some.injEq] at hm
  rw [← hm, hdone.1, hdone.2] at hfix
  rw [← hm, hdone.1]
  have hfixed : sampleKit.bodyFix ⟨5, 8⟩ (sampleKit.bodyLoop sampleSql ⟨5, 8⟩ []) "first".toList =
      some ("x$".toList, 1) := by decide
  rw [hfixed, Option.some.injEq, Prod.mk.injEq] at hfix
  exact ⟨⟨5, 7⟩, sampleSql_body.2, rfl, hfix.1 ▸ by decide⟩

/-- An error for each `S`; the fixer writes an assignment. -/
def setKit : Toolkit where
  validate := fun sql => (sql.filter (· = 'S')).map fun _ => "S".toList
  fixerByName := fun _ => some fun body =>
    (if body = " SET v_a = 1$".toList then " v_a := 1$;".toList else body, 1)
  proactiveFixers := []
  bodyOnlyFixers := []
  fixersForIssueMessage := fun _ => []

def setSql : Text := "AS $$ SET v_a = 1$$;".toList

theorem setSql_body : searchBody setSql = some ⟨5, 18⟩ ∧ dollarBody setSql = some ⟨5, 17⟩ := by
  decide

/-- The second fix takes a character of the closing tag along, and a first one that does not end
with the dollar sign of the tag takes that one. -/
theorem sample_two_fixes : ¬ConfinedRepair sampleKit sampleSql sampleNames ∧
    ¬ConfinedRepair setKit setSql ["set_statements".toList] := by
  constructor
  · intro h
    obtain ⟨inner, heq⟩ := around_of_confined sampleSql_body.2
      (h.confined _ sampleSql_body.1 sampleNames [] rfl)
    have hsql : (sampleKit.bodyLoop sampleSql ⟨5, 8⟩ sampleNames).sql = "AS $$$; END".toList := by
      decide
    have hlength := congrArg List.length (hsql.symm.trans heq)
    have htext : "AS $$$; END".toList.length = 11 := by decide
    have htake : (sampleSql.take 5).length = 5 := by decide
    have hdrop : (sampleSql.drop 7).length = 7 := by decide
    rw [List.length_append, List.length_append, htext] at hlength
    simp only at hlength
    omega
  · intro h
    obtain ⟨inner, heq⟩ := around_of_confined setSql_body.2
      (h.confined _ setSql_body.1 ["set_statements".toList] [] rfl)
    have hsql : (setKit.bodyLoop setSql ⟨5, 18⟩ ["set_statements".toList]).sql =
        "AS $$ v_a := 1$;$;".toList := by decide
    have hsuffix : setSql.drop 17 <:+ "AS $$ v_a := 1$;$;".toList :=
      ⟨_, (hsql.symm.trans heq).symm⟩
    exact absurd hsuffix (by decide)

end Samples

end SqlOptima.ConversionRepair
