import Mathlib.Data.List.Basic

namespace SqlOptima.QuotedText

/-!
# Text in quotes

What stands between quotes has each closing quote written twice.
-/

def doubled (quote : Char) (text : List Char) : List Char :=
  text.flatMap fun c => if c = quote then [quote, quote] else [c]

def enclosed (opening closing : Char) (text : List Char) : List Char :=
  opening :: (doubled closing text ++ [closing])

variable {quote : Char} {text : List Char}

@[simp] theorem doubled_nil (quote : Char) : doubled quote [] = [] := rfl

theorem doubled_cons (quote c : Char) (text : List Char) :
    doubled quote (c :: text) =
      (if c = quote then [quote, quote] else [c]) ++ doubled quote text := rfl

theorem doubled_append (quote : Char) (text text' : List Char) :
    doubled quote (text ++ text') = doubled quote text ++ doubled quote text' :=
  List.flatMap_append

theorem doubled_of_notMem (h : quote ∉ text) : doubled quote text = text := by
  induction text with
  | nil => rfl
  | cons c text ih =>
      obtain ⟨hc, htext⟩ := List.ne_and_not_mem_of_not_mem_cons h
      rw [doubled_cons, if_neg (Ne.symm hc), ih htext, List.singleton_append]

theorem count_doubled_self (quote : Char) (text : List Char) :
    (doubled quote text).count quote = 2 * text.count quote := by
  induction text with
  | nil => rfl
  | cons c text ih =>
      rw [doubled_cons, List.count_append, ih, List.count_cons]
      by_cases hc : c = quote
      · subst hc
        simp
        omega
      · simp [hc]

theorem count_doubled_of_ne {c : Char} (h : c ≠ quote) (text : List Char) :
    (doubled quote text).count c = text.count c := by
  induction text with
  | nil => rfl
  | cons d text ih =>
      rw [doubled_cons, List.count_append, ih, List.count_cons, Nat.add_comm]
      by_cases hd : d = quote
      · subst hd
        simp [Ne.symm h]
      · simp [hd, List.count_singleton]

theorem count_enclosed (opening closing c : Char) (text : List Char) :
    (enclosed opening closing text).count c =
      (doubled closing text).count c + (if opening = c then 1 else 0) +
        (if closing = c then 1 else 0) := by
  rw [enclosed, List.count_cons, List.count_append, List.count_singleton]
  simp only [beq_iff_eq]
  omega

theorem doubled_injective (quote : Char) : Function.Injective (doubled quote) := by
  intro a b h
  induction a generalizing b with
  | nil =>
      cases b with
      | nil => rfl
      | cons d b =>
          rw [doubled_nil, doubled_cons] at h
          split at h <;> cases h
  | cons c a ih =>
      cases b with
      | nil =>
          rw [doubled_nil, doubled_cons] at h
          split at h <;> cases h
      | cons d b =>
          rw [doubled_cons, doubled_cons] at h
          by_cases hc : c = quote
          · by_cases hd : d = quote
            · rw [if_pos hc, if_pos hd] at h
              rw [hc, hd, ih (List.append_cancel_left h)]
            · rw [if_pos hc, if_neg hd] at h
              exact absurd (List.cons.inj h).1.symm hd
          · by_cases hd : d = quote
            · rw [if_neg hc, if_pos hd] at h
              exact absurd (List.cons.inj h).1 hc
            · rw [if_neg hc, if_neg hd] at h
              obtain ⟨hhead, htail⟩ := List.cons.inj h
              rw [hhead, ih htail]

end SqlOptima.QuotedText
