import Mathlib.Data.List.Basic

namespace SqlOptima.Utf16Pieces

/-!
# Texts that are sent in pieces

A sequence is read piece by piece. The pieces of a text in UTF-16 decode to the whole of it unless
one ends between the two halves of a surrogate pair: each half alone is a replacement character.
-/

section Pieces

variable {α : Type}

def piecesWithin (n : Nat) : Nat → List α → List (List α)
  | 0, _ => []
  | fuel + 1, xs => if xs = [] then [] else xs.take n :: piecesWithin n fuel (xs.drop n)

/-- The pieces of length `n`; the last one may be shorter. -/
def pieces (n : Nat) (xs : List α) : List (List α) := piecesWithin n xs.length xs

@[simp]
theorem pieces_nil (n : Nat) : pieces n ([] : List α) = [] := rfl

theorem piecesWithin_eq {n : Nat} (hn : 0 < n) {fuel fuel' : Nat} {xs : List α}
    (h : xs.length ≤ fuel) (h' : xs.length ≤ fuel') :
    piecesWithin n fuel xs = piecesWithin n fuel' xs := by
  induction fuel generalizing fuel' xs with
  | zero =>
      obtain rfl := List.eq_nil_of_length_eq_zero (Nat.le_zero.mp h)
      cases fuel' with
      | zero => rfl
      | succ fuel' => exact (if_pos rfl).symm
  | succ fuel ih =>
      cases fuel' with
      | zero =>
          obtain rfl := List.eq_nil_of_length_eq_zero (Nat.le_zero.mp h')
          exact if_pos rfl
      | succ fuel' =>
          rw [piecesWithin, piecesWithin]
          split
          · rfl
          · rename_i hne
            have hpos := List.length_pos_iff.mpr hne
            have hdrop : (xs.drop n).length = xs.length - n := List.length_drop
            exact congrArg (xs.take n :: ·) (ih (by omega) (by omega))

theorem pieces_of_ne_nil {n : Nat} (hn : 0 < n) {xs : List α} (h : xs ≠ []) :
    pieces n xs = xs.take n :: pieces n (xs.drop n) := by
  cases xs with
  | nil => exact absurd rfl h
  | cons x xs =>
      rw [pieces, List.length_cons, piecesWithin, if_neg h, pieces]
      congr 1
      refine piecesWithin_eq hn ?_ (Nat.le_refl _)
      rw [List.length_drop, List.length_cons]
      omega

/-- Induction on a sequence that is cut into pieces. -/
theorem pieces_induction {n : Nat} (hn : 0 < n) {P : List α → Prop} (nil : P [])
    (step : ∀ xs, xs ≠ [] → P (xs.drop n) → P xs) (xs : List α) : P xs := by
  induction hlen : xs.length using Nat.strongRecOn generalizing xs with
  | _ len ih =>
      by_cases hne : xs = []
      · exact hne ▸ nil
      · have hpos := List.length_pos_iff.mpr hne
        refine step xs hne (ih (xs.drop n).length ?_ _ rfl)
        rw [List.length_drop]
        omega

theorem flatten_pieces {n : Nat} (hn : 0 < n) (xs : List α) : (pieces n xs).flatten = xs := by
  induction xs using pieces_induction hn with
  | nil => rfl
  | step xs hne ih => rw [pieces_of_ne_nil hn hne, List.flatten_cons, ih, List.take_append_drop]

end Pieces

section Utf16

def isHigh (u : UInt16) : Bool := 0xD800 ≤ u && u ≤ 0xDBFF

def isLow (u : UInt16) : Bool := 0xDC00 ≤ u && u ≤ 0xDFFF

theorem isLow_of_isHigh {u : UInt16} (h : isHigh u = true) : isLow u = false := by
  rw [isHigh, Bool.and_eq_true, decide_eq_true_iff, decide_eq_true_iff, UInt16.le_iff_toNat_le,
    UInt16.le_iff_toNat_le] at h
  rw [isLow, Bool.and_eq_false_iff, decide_eq_false_iff_not, UInt16.le_iff_toNat_le]
  refine Or.inl fun hle => ?_
  have hlow : (0xDC00 : UInt16).toNat = 0xDC00 := rfl
  have hhigh : (0xDBFF : UInt16).toNat = 0xDBFF := rfl
  omega

def loneChar (u : UInt16) : Char :=
  if isHigh u || isLow u then '\uFFFD' else Char.ofNat u.toNat

def pairChar (high low : UInt16) : Char :=
  Char.ofNat (0x10000 + (high.toNat - 0xD800) * 0x400 + (low.toNat - 0xDC00))

/-- What a decoder makes of code units, also of those that are not paired. -/
def decode : List UInt16 → List Char
  | [] => []
  | [u] => [loneChar u]
  | u :: v :: us =>
      if isHigh u && isLow v then pairChar u v :: decode us
      else loneChar u :: decode (v :: us)

/-- A pair has its halves on both sides. -/
def Cuts (us vs : List UInt16) : Prop :=
  us.getLast?.any isHigh = true ∧ vs.head?.any isLow = true

instance instDecidableCuts (us vs : List UInt16) : Decidable (Cuts us vs) :=
  inferInstanceAs (Decidable (_ ∧ _))

theorem decode_cons_of_not_pair {u : UInt16} {vs : List UInt16}
    (h : ¬ (isHigh u = true ∧ vs.head?.any isLow = true)) :
    decode (u :: vs) = loneChar u :: decode vs := by
  cases vs with
  | nil => rfl
  | cons v vs =>
      have hpair : ¬ (isHigh u && isLow v) = true := by
        rw [Bool.and_eq_true]
        exact h
      rw [decode, if_neg hpair]

theorem decode_cons_of_pair {u v : UInt16} {vs : List UInt16} (hu : isHigh u = true)
    (hv : isLow v = true) : decode (u :: v :: vs) = pairChar u v :: decode vs := by
  rw [decode, if_pos]
  rw [hu, hv]
  rfl

theorem decode_ne_nil {us : List UInt16} (h : us ≠ []) : decode us ≠ [] := by
  cases us with
  | nil => exact absurd rfl h
  | cons u us =>
      cases us with
      | nil => exact List.cons_ne_nil _ _
      | cons v us =>
          rw [decode]
          split <;> exact List.cons_ne_nil _ _

theorem cuts_cons_iff {u : UInt16} {us vs : List UInt16} (h : us ≠ []) :
    Cuts (u :: us) vs ↔ Cuts us vs := by
  rw [Cuts, Cuts, List.getLast?_cons_of_ne_nil h]

/-- A cut between the halves of a pair costs a character, any other one nothing. -/
theorem decode_append (us vs : List UInt16) :
    (Cuts us vs → (decode us ++ decode vs).length = (decode (us ++ vs)).length + 1) ∧
      (¬ Cuts us vs → decode us ++ decode vs = decode (us ++ vs)) := by
  induction us using decode.induct with
  | case1 => exact ⟨fun hcut => absurd hcut.1 Bool.false_ne_true, fun _ => rfl⟩
  | case2 u =>
      refine ⟨fun hcut => ?_, fun hcut => (decode_cons_of_not_pair hcut).symm⟩
      obtain ⟨hhigh, hlow⟩ := hcut
      cases vs with
      | nil => exact absurd hlow Bool.false_ne_true
      | cons v vs =>
          have hnot : ¬ (isHigh v = true ∧ vs.head?.any isLow = true) := fun h =>
            Bool.false_ne_true ((isLow_of_isHigh h.1).symm.trans hlow)
          have hpair : decode (u :: v :: vs) = pairChar u v :: decode vs :=
            decode_cons_of_pair hhigh hlow
          have hone : decode [u] = [loneChar u] := rfl
          rw [List.singleton_append, hpair, decode_cons_of_not_pair hnot, hone,
            List.singleton_append, List.length_cons, List.length_cons, List.length_cons]
  | case3 u v us hpair ih =>
      obtain ⟨hhigh, hlow⟩ := Bool.and_eq_true_iff.mp hpair
      have hcuts : Cuts (u :: v :: us) vs ↔ Cuts us vs := by
        rw [cuts_cons_iff (List.cons_ne_nil v us)]
        cases us with
        | nil =>
            refine iff_of_false (fun h => ?_) fun h => Bool.false_ne_true h.1
            exact Bool.false_ne_true ((isLow_of_isHigh h.1).symm.trans hlow)
        | cons w us => exact cuts_cons_iff (List.cons_ne_nil w us)
      rw [List.cons_append, List.cons_append, decode_cons_of_pair hhigh hlow,
        decode_cons_of_pair hhigh hlow, hcuts, List.cons_append, List.length_cons,
        List.length_cons]
      exact ⟨fun h => congrArg Nat.succ (ih.1 h), fun h => congrArg (pairChar u v :: ·) (ih.2 h)⟩
  | case4 u v us hpair ih =>
      have hnot : ¬ (isHigh u = true ∧ (v :: us).head?.any isLow = true) := by
        rw [Bool.and_eq_true] at hpair
        exact hpair
      have hnot' : ¬ (isHigh u = true ∧ (v :: us ++ vs).head?.any isLow = true) := hnot
      rw [List.cons_append, decode_cons_of_not_pair hnot, decode_cons_of_not_pair hnot',
        cuts_cons_iff (List.cons_ne_nil v us), List.cons_append, List.length_cons,
        List.length_cons]
      exact ⟨fun h => congrArg Nat.succ (ih.1 h), fun h => congrArg (loneChar u :: ·) (ih.2 h)⟩

/-- No piece ends within a pair. -/
def Whole : List (List UInt16) → Prop
  | [] => True
  | us :: rest => ¬ Cuts us rest.flatten ∧ Whole rest

theorem length_decode_flatten_le (uss : List (List UInt16)) :
    (decode uss.flatten).length ≤ (uss.flatMap decode).length := by
  induction uss with
  | nil => exact Nat.le_refl _
  | cons us uss ih =>
      obtain ⟨hcut, hwhole⟩ := decode_append us uss.flatten
      rw [List.flatten_cons, List.flatMap_cons, List.length_append]
      by_cases h : Cuts us uss.flatten
      · have hlen := hcut h
        rw [List.length_append] at hlen
        omega
      · have hlen := congrArg List.length (hwhole h)
        rw [List.length_append] at hlen
        omega

/-- The pieces decode to the whole if and only if none of them ends within a pair. -/
theorem flatMap_decode_eq_iff (uss : List (List UInt16)) :
    uss.flatMap decode = decode uss.flatten ↔ Whole uss := by
  induction uss with
  | nil => exact iff_of_true rfl trivial
  | cons us uss ih =>
      obtain ⟨hcut, hwhole⟩ := decode_append us uss.flatten
      rw [List.flatten_cons, List.flatMap_cons, Whole, ← ih]
      by_cases h : Cuts us uss.flatten
      · refine iff_of_false (fun heq => ?_) fun hboth => hboth.1 h
        have hlen := hcut h
        have hle := length_decode_flatten_le uss
        rw [← heq, List.length_append, List.length_append] at hlen
        omega
      · rw [← hwhole h, and_iff_right h]
        exact List.append_right_inj _

end Utf16

end SqlOptima.Utf16Pieces
