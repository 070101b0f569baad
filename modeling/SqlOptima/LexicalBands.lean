import Mathlib.Data.List.Basic

namespace SqlOptima.LexicalBands

/-!
# Bands of texts

Inclusive ranges of texts in lexicographic order, and what is left of them between two bounds.
-/

def lexLe : List Char → List Char → Bool
  | [], _ => true
  | _ :: _, [] => false
  | a :: as, b :: bs => a.toNat < b.toNat || (a.toNat == b.toNat && lexLe as bs)

def lexLt (s t : List Char) : Bool := !lexLe t s

theorem lexLe_cons {a b : Char} {s t : List Char} :
    lexLe (a :: s) (b :: t) = true ↔
      a.toNat < b.toNat ∨ (a.toNat = b.toNat ∧ lexLe s t = true) := by
  rw [lexLe, Bool.or_eq_true, Bool.and_eq_true, decide_eq_true_eq, beq_iff_eq]

theorem lexLe_total (s t : List Char) : lexLe s t = true ∨ lexLe t s = true := by
  induction s generalizing t with
  | nil => exact .inl rfl
  | cons a s ih =>
      cases t with
      | nil => exact .inr rfl
      | cons b t =>
          rw [lexLe_cons, lexLe_cons]
          have htail := ih t
          grind

theorem lexLe_refl (s : List Char) : lexLe s s = true := (lexLe_total s s).elim id id

theorem lexLe_trans {s t u : List Char} (hst : lexLe s t = true) (htu : lexLe t u = true) :
    lexLe s u = true := by
  induction s generalizing t u with
  | nil => rfl
  | cons a s ih =>
      cases t with
      | nil => cases hst
      | cons b t =>
          cases u with
          | nil => cases htu
          | cons c u =>
              rw [lexLe_cons] at hst htu ⊢
              rcases hst with hab | ⟨hab, hst⟩
              · exact .inl (by omega)
              · rcases htu with hbc | ⟨hbc, htu⟩
                · exact .inl (by omega)
                · exact .inr ⟨hab.trans hbc, ih hst htu⟩

theorem lexLe_antisymm {s t : List Char} (hst : lexLe s t = true) (hts : lexLe t s = true) :
    s = t := by
  induction s generalizing t with
  | nil =>
      cases t with
      | nil => rfl
      | cons b t => cases hts
  | cons a s ih =>
      cases t with
      | nil => cases hst
      | cons b t =>
          rw [lexLe_cons] at hst hts
          rcases hst with hlt | ⟨hab, hst⟩
          · omega
          · rw [Char.toNat_inj.mp hab, ih hst (hts.resolve_left (by omega)).2]

theorem lexLe_of_lexLt {s t : List Char} (h : lexLt s t = true) : lexLe s t = true := by
  rw [lexLt, Bool.not_eq_true'] at h
  exact (lexLe_total s t).resolve_right (by rw [h]; exact Bool.false_ne_true)

theorem lexLt_of_le_of_lt {s t u : List Char} (h : lexLe s t = true) (h' : lexLt t u = true) :
    lexLt s u = true := by
  rw [lexLt, Bool.not_eq_true'] at h' ⊢
  by_contra hus
  rw [lexLe_trans (Bool.not_eq_false _ ▸ hus) h] at h'
  cases h'

theorem lexLt_of_lt_of_le {s t u : List Char} (h : lexLt s t = true) (h' : lexLe t u = true) :
    lexLt s u = true := by
  rw [lexLt, Bool.not_eq_true'] at h ⊢
  by_contra hus
  rw [lexLe_trans h' (Bool.not_eq_false _ ▸ hus)] at h
  cases h

/-- A text that is at each place at most the other one. -/
theorem lexLe_of_forall₂ {s t : List Char} (h : List.Forall₂ (fun a b => a.toNat ≤ b.toNat) s t) :
    lexLe s t = true := by
  induction h with
  | nil => rfl
  | cons hab _ ih =>
      rw [lexLe_cons]
      rcases Nat.lt_or_eq_of_le hab with hlt | heq
      · exact .inl hlt
      · exact .inr ⟨heq, ih⟩

abbrev Band := List Char × List Char

def inBand (u : List Char) (band : Band) : Bool := lexLe band.1 u && lexLe u band.2

theorem inBand_eq_true {u : List Char} {band : Band} :
    inBand u band = true ↔ lexLe band.1 u = true ∧ lexLe u band.2 = true := by
  rw [inBand, Bool.and_eq_true]

def later (s t : List Char) : List Char := if lexLt t s then s else t

def earlier (s t : List Char) : List Char := if lexLt s t then s else t

theorem later_le {s t u : List Char} :
    lexLe (later s t) u = true ↔ lexLe s u = true ∧ lexLe t u = true := by
  rw [later]
  split
  · next h => exact ⟨fun hu => ⟨hu, lexLe_trans (lexLe_of_lexLt h) hu⟩, And.left⟩
  · next h =>
      rw [lexLt, Bool.not_eq_true', Bool.not_eq_false] at h
      exact ⟨fun hu => ⟨lexLe_trans h hu, hu⟩, And.right⟩

theorem le_earlier {s t u : List Char} :
    lexLe u (earlier s t) = true ↔ lexLe u s = true ∧ lexLe u t = true := by
  rw [earlier]
  split
  · next h => exact ⟨fun hu => ⟨hu, lexLe_trans hu (lexLe_of_lexLt h)⟩, And.left⟩
  · next h =>
      rw [lexLt, Bool.not_eq_true', Bool.not_eq_false] at h
      exact ⟨fun hu => ⟨lexLe_trans hu h, hu⟩, And.right⟩

/-- What is left of a band between two bounds. -/
def clip (lo hi : List Char) (band : Band) : Option Band :=
  if lexLt (earlier hi band.2) (later lo band.1) then none
  else some (later lo band.1, earlier hi band.2)

variable {lo hi : List Char} {band cut : Band} {bands : List Band}

theorem clip_eq_some (h : clip lo hi band = some cut) :
    cut = (later lo band.1, earlier hi band.2) ∧ lexLe cut.1 cut.2 = true := by
  rw [clip] at h
  split at h
  · cases h
  · next hle =>
      rw [lexLt, Bool.not_eq_true', Bool.not_eq_false] at hle
      cases h
      exact ⟨rfl, hle⟩

theorem le_of_inBand_clip {u : List Char} (h : clip lo hi band = some cut)
    (hu : inBand u cut = true) : lexLe lo u = true := by
  obtain ⟨rfl, -⟩ := clip_eq_some h
  exact (later_le.mp (inBand_eq_true.mp hu).1).1

theorem any_clip {u : List Char} (hlo : lexLe lo u = true) (hhi : lexLe u hi = true) :
    (clip lo hi band).any (inBand u) = inBand u band := by
  have hcut : inBand u (later lo band.1, earlier hi band.2) = inBand u band := by
    rw [Bool.eq_iff_iff, inBand_eq_true, inBand_eq_true, later_le, le_earlier]
    exact ⟨fun h => ⟨h.1.2, h.2.2⟩, fun h => ⟨⟨hlo, h.1⟩, hhi, h.2⟩⟩
  rw [clip]
  split
  · next hlt =>
      rw [← hcut]
      refine (Bool.eq_false_iff.mpr fun hin => ?_).symm
      obtain ⟨hs, he⟩ := inBand_eq_true.mp hin
      rw [lexLt, lexLe_trans hs he] at hlt
      cases hlt
  · exact hcut

/-- Cutting the bands keeps how often a text between the bounds is in one of them. -/
theorem countP_clip {u : List Char} (hlo : lexLe lo u = true) (hhi : lexLe u hi = true) :
    (bands.filterMap (clip lo hi)).countP (inBand u) = bands.countP (inBand u) := by
  induction bands with
  | nil => rfl
  | cons band bands ih =>
      have hband := @any_clip lo hi band u hlo hhi
      rw [List.filterMap_cons, List.countP_cons, ← ih, ← hband]
      cases hclip : clip lo hi band with
      | none => rfl
      | some cut => exact List.countP_cons

/-- Ranges that follow one another. -/
def Increasing (bands : List Band) : Prop :=
  (∀ band ∈ bands, lexLe band.1 band.2 = true) ∧ bands.Pairwise fun a b => lexLt a.2 b.1 = true

theorem increasing_clip (h : bands.Pairwise fun a b => lexLt a.2 b.1 = true) :
    Increasing (bands.filterMap (clip lo hi)) := by
  refine ⟨fun cut hcut => ?_, List.pairwise_filterMap.mpr (h.imp fun hab => ?_)⟩
  · obtain ⟨band, -, hclip⟩ := List.mem_filterMap.mp hcut
    exact (clip_eq_some hclip).2
  · intro a ha b hb
    obtain ⟨rfl, -⟩ := clip_eq_some ha
    obtain ⟨rfl, -⟩ := clip_eq_some hb
    exact lexLt_of_le_of_lt (le_earlier.mp (lexLe_refl _)).2
      (lexLt_of_lt_of_le hab (later_le.mp (lexLe_refl _)).2)

end SqlOptima.LexicalBands
