import Mathlib.Data.List.Infix

namespace SqlOptima.StringReplace

open String.Slice.Pattern (SearchStep)
open String.Slice.Pattern.Model

/-!
# Replacing the occurrences of a text

What `String.replace` does, told of lists of characters.
-/

/-- The occurrences of `old` are replaced from left to right. -/
inductive Replaced (old new : List Char) : List Char → List Char → Prop
  | done : Replaced old new [] []
  | keep {kept rest out : List Char}
      (hnone : ∀ a b, kept = a ++ b → b ≠ [] → ¬ old <+: b ++ rest)
      (h : Replaced old new rest out) : Replaced old new (kept ++ rest) (kept ++ out)
  | swap {rest out : List Char} (h : Replaced old new rest out) :
      Replaced old new (old ++ rest) (new ++ out)

section Search

variable {old new : String} {s : String.Slice}

/-- What the fold of `String.replace` does at a step of the search. -/
def applyStep (new : String) (sofar : String) : SearchStep s → String
  | .matched .. => sofar ++ String.ToSlice.toSlice new
  | .rejected start stop => sofar ++ s.slice! start stop

theorem applyStep_matched (sofar : String) (start stop : s.Pos) :
    applyStep new sofar (.matched start stop) = sofar ++ new := by
  rw [applyStep, String.appendSlice_eq]
  exact congrArg (sofar ++ ·) String.copy_toSlice

/-- `old` matches where the rest of the text begins with it. -/
theorem matchesAt_of_splits {p : s.Pos} {before after : String} (hp : p.Splits before after)
    (hstarts : old.toList <+: after.toList) : MatchesAt old p := by
  obtain ⟨rest, hrest⟩ := hstarts
  have hafter : after = old ++ String.ofList rest := by
    rw [← String.toList_inj, String.toList_append, String.toList_ofList, hrest]
  subst hafter
  exact ⟨_, ForwardStringSearcher.isLongestMatchAt_iff_splits.mpr
    ⟨before, _, hp, hp.splits_rotateRight⟩⟩

/-- In a stretch without matches no rest of the text begins with `old`. -/
theorem not_prefix_of_rejected {start stop : s.Pos} {before kept rest : String}
    (hstart : start.Splits before (kept ++ rest)) (hstop : stop.Splits (before ++ kept) rest)
    (hnone : ∀ pos, start ≤ pos → pos < stop → ¬ MatchesAt old pos) {a b : List Char}
    (hkept : kept.toList = a ++ b) (hb : b ≠ []) : ¬ old.toList <+: b ++ rest.toList := by
  intro hstarts
  obtain rfl : kept = String.ofList a ++ String.ofList b := by
    rw [← String.toList_inj, hkept, String.toList_append, String.toList_ofList,
      String.toList_ofList]
  rw [String.append_assoc] at hstart
  rw [← String.append_assoc] at hstop
  have hmid := hstart.splits_rotateRight
  have hne : String.ofList b ≠ "" := by
    intro h
    rw [← String.toList_inj, String.toList_ofList] at h
    exact hb h
  refine hnone hstart.rotateRight ?_ ?_ (matchesAt_of_splits hmid ?_)
  · exact (hstart.le_iff_exists_eq_append hmid).mpr ⟨_, rfl, rfl⟩
  · exact (hmid.lt_iff_exists_eq_append hstop).mpr ⟨_, hne, rfl, rfl⟩
  · rw [String.toList_append, String.toList_ofList]
    exact hstarts

theorem applyStep_rejected {start stop : s.Pos} {before kept rest : String}
    (hstart : start.Splits before (kept ++ rest)) (hstop : stop.Splits (before ++ kept) rest)
    (sofar : String) : applyStep new sofar (.rejected start stop) = sofar ++ kept := by
  obtain ⟨hle, hcopy⟩ := String.Slice.copy_slice_eq_iff_splits.mpr ⟨before, rest, hstart, hstop⟩
  rw [applyStep, String.appendSlice_eq, ← String.Slice.slice_eq_slice!, hcopy]
  exact hle

theorem replaced_of_search (new : String) {p : s.Pos} {steps : List (SearchStep s)}
    (h : IsValidSearchFrom old p steps) (before after sofar : String)
    (hp : p.Splits before after) :
    ∃ out, steps.foldl (applyStep new) sofar = sofar ++ out ∧
      Replaced old.toList new.toList after.toList out.toList := by
  induction h generalizing before after sofar with
  | endPos =>
      obtain rfl := hp.eq_endPos_iff.mp rfl
      exact ⟨"", by simp, .done⟩
  | matched hmatch hrest ih =>
      obtain ⟨u, v, hstart, hend⟩ := ForwardStringSearcher.isLongestMatchAt_iff_splits.mp hmatch
      obtain ⟨out, hout, hreplaced⟩ := ih (u ++ old) v (sofar ++ new) hend
      refine ⟨new ++ out, ?_, ?_⟩
      · rw [List.foldl_cons, applyStep_matched, hout, String.append_assoc]
      · rw [hp.eq_right hstart, String.toList_append, String.toList_append]
        exact .swap hreplaced
  | @mismatched l start stop hlt hnone hrest ih =>
      have hstop := stop.splits
      obtain ⟨kept, hkept, hbefore, hafter⟩ := (hp.lt_iff_exists_eq_append hstop).mp hlt
      rw [hbefore] at hstop
      rw [hafter] at hp
      obtain ⟨out, hout, hreplaced⟩ := ih _ _ (sofar ++ kept) hstop
      refine ⟨kept ++ out, ?_, ?_⟩
      · rw [List.foldl_cons, applyStep_rejected hp hstop, hout, String.append_assoc]
      · rw [hafter, String.toList_append, String.toList_append]
        exact .keep (fun a b hab hb => not_prefix_of_rejected hp hstop hnone hab hb) hreplaced

theorem replaced_replace (s old new : String) (hold : old ≠ "") :
    Replaced old.toList new.toList s.toList (s.replace old new).toList := by
  have hvalid := (ForwardStringSearcher.lawfulToForwardSearcherModel hold).isValidSearchFrom_toList
    s.toSlice
  have hsplits : s.toSlice.startPos.Splits "" s := String.Slice.splits_startPos_iff.mpr (by simp)
  obtain ⟨out, hout, hreplaced⟩ := replaced_of_search new hvalid "" s "" hsplits
  have hfold : s.replace old new = "" ++ out := by
    rw [← hout, Std.Iter.foldl_toList, String.replace, String.Slice.replace]
    refine congrArg (fun step => Std.Iter.fold step "" _) ?_
    funext sofar step
    cases step <;> rfl
  rwa [hfold, String.empty_append]

end Search

section Replaced

variable {old new text out : List Char}

/-- Characters that neither text has stay what and where they are among themselves. -/
theorem Replaced.filter_eq {p : Char → Bool} (hold : ∀ c ∈ old, p c = false)
    (hnew : ∀ c ∈ new, p c = false) (h : Replaced old new text out) :
    out.filter p = text.filter p := by
  have hnil : ∀ {word : List Char}, (∀ c ∈ word, p c = false) → word.filter p = [] := by
    intro word hword
    rw [List.filter_eq_nil_iff]
    intro c hc
    rw [hword c hc]
    exact Bool.false_ne_true
  induction h with
  | done => rfl
  | keep _ _ ih => rw [List.filter_append, List.filter_append, ih]
  | swap _ ih => rw [List.filter_append, List.filter_append, ih, hnil hold, hnil hnew]

theorem Replaced.eq_of_infix_free (h : Replaced old new text out) (hnone : ¬ old <:+: text) :
    out = text := by
  induction h with
  | done => rfl
  | @keep kept rest out _ _ ih =>
      rw [ih]
      exact fun hrest => hnone (hrest.trans (List.suffix_append kept rest).isInfix)
  | swap _ _ => exact absurd (List.prefix_append old _).isInfix hnone

/-- An occurrence lies in what comes first, at least in part, or in the rest. -/
theorem not_infix_append {kept rest : List Char}
    (hkept : ∀ a b, kept = a ++ b → b ≠ [] → ¬ old <+: b ++ rest) (hrest : ¬ old <:+: rest) :
    ¬ old <:+: kept ++ rest := by
  rintro ⟨a, b, hab⟩
  rw [List.append_assoc, List.append_eq_append_iff] at hab
  obtain ⟨c, hc, hrest'⟩ | ⟨c, ha, hrest'⟩ := hab
  · by_cases hnil : c = []
    · subst hnil
      exact hrest ⟨[], b, by rw [List.nil_append, hrest', List.nil_append]⟩
    · exact hkept a c hc hnil ⟨b, hrest'⟩
  · exact hrest ⟨c, b, by rw [hrest', List.append_assoc]⟩

/-- A longer text in the place of a shorter one shows in the length. -/
theorem Replaced.unchanged_or_longer (hold : old ≠ []) (hlt : old.length < new.length)
    (h : Replaced old new text out) :
    out = text ∧ ¬ old <:+: text ∨ text.length < out.length := by
  induction h with
  | done => exact .inl ⟨rfl, fun h => hold (List.infix_nil.mp h)⟩
  | keep hnone _ ih =>
      obtain ⟨rfl, hrest⟩ | hlonger := ih
      · exact .inl ⟨rfl, not_infix_append hnone hrest⟩
      · rw [List.length_append, List.length_append]
        exact .inr (Nat.add_lt_add_left hlonger _)
  | @swap rest out _ ih =>
      have hle : rest.length ≤ out.length := by
        obtain ⟨rfl, -⟩ | hlonger := ih
        · exact le_rfl
        · exact hlonger.le
      rw [List.length_append, List.length_append]
      exact .inr (Nat.add_lt_add_of_lt_of_le hlt hle)

/-- Two replacements that lengthen a text leave it as it is when there is nothing to replace. -/
theorem Replaced.eq_iff_of_twice {old' new' mid : List Char} (hold : old ≠ [])
    (hlt : old.length < new.length) (hold' : old' ≠ []) (hlt' : old'.length < new'.length)
    (h : Replaced old new text mid) (h' : Replaced old' new' mid out) :
    out = text ↔ ¬ old <:+: text ∧ ¬ old' <:+: text := by
  constructor
  · rintro rfl
    obtain ⟨rfl, hnone⟩ | hlonger := h.unchanged_or_longer hold hlt
    · obtain ⟨-, hnone'⟩ | hlonger' := h'.unchanged_or_longer hold' hlt'
      · exact ⟨hnone, hnone'⟩
      · exact absurd hlonger' (lt_irrefl _)
    · obtain ⟨rfl, -⟩ | hlonger' := h'.unchanged_or_longer hold' hlt'
      · exact absurd hlonger (lt_irrefl _)
      · exact absurd (hlonger.trans hlonger') (lt_irrefl _)
  · rintro ⟨hnone, hnone'⟩
    obtain rfl := h.eq_of_infix_free hnone
    exact h'.eq_of_infix_free hnone'

end Replaced

end SqlOptima.StringReplace
