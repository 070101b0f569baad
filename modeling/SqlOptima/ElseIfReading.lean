import SqlOptima.ControlFlow

namespace SqlOptima.ElseIfReading

open PythonText ControlFlow

section Matcher

variable {before : Option Char} {s t v w : Text}

theorem elseIf_eq (before : Option Char) (s : Text) :
    elseIf before s =
      if before.any isWord = false ∧ leadingWord (upper s) = "ELSE".toList ∧
          (s.drop 4).takeWhile isSpace ≠ [] ∧
          leadingWord (upper (lstrip (s.drop 4))) = "IF".toList then
        some ("ELSIF".toList, 4 + ((s.drop 4).takeWhile isSpace).length + 2)
      else none := by
  unfold elseIf
  simp only [drop_takeWhile]
  congr 1
  simp [and_assoc]

theorem elseIf_word (h : before.any isWord = true) (s : Text) : elseIf before s = none := by
  rw [elseIf_eq, if_neg fun hs => by rw [h] at hs; exact absurd hs.1 (by decide)]

theorem elseIf_other (h : leadingWord (upper s) ≠ "ELSE".toList) : elseIf before s = none := by
  rw [elseIf_eq, if_neg fun hs => h hs.2.1]

theorem elseIf_bound (before : Option Char) (s r : Text) (n : Nat)
    (h : elseIf before s = some (r, n)) : n ≤ s.length := by
  rw [elseIf_eq] at h
  split_ifs at h with hs
  obtain ⟨-, helse, -, hif⟩ := hs
  cases h
  have hfour := length_leadingWord s
  have htwo := length_leadingWord (lstrip (s.drop 4))
  rw [helse] at hfour
  rw [hif] at htwo
  have hrest : ((s.drop 4).takeWhile isSpace).length + (lstrip (s.drop 4)).length =
      s.length - 4 := by
    rw [← List.length_append, lstrip, List.takeWhile_append_dropWhile, List.length_drop]
  change 4 ≤ s.length at hfour
  change 2 ≤ _ at htwo
  omega

theorem substituteFrom_nonword (h : before.any isWord = false) (s : Text) :
    substituteFrom elseIf 0 before s = substitute elseIf s := by
  cases s with
  | nil => rfl
  | cons c s =>
      have hhere : elseIf before (c :: s) = elseIf none (c :: s) := by
        rw [elseIf_eq, elseIf_eq, h]
        rfl
      rw [substitute, substituteFrom, substituteFrom, hhere]

theorem substituteFrom_blank (hw : Blank w) (before : Option Char) (s : Text) (hne : w ≠ []) :
    substituteFrom elseIf 0 before (w ++ s) = w ++ substitute elseIf s := by
  induction w generalizing before with
  | nil => exact absurd rfl hne
  | cons c w ih =>
      have hc := hw c List.mem_cons_self
      have hhere : elseIf before (c :: (w ++ s)) = none := by
        apply elseIf_other
        have hlead : leadingWord (upper (c :: (w ++ s))) = [] :=
          List.takeWhile_cons_of_neg (by simp [isWord_toUpper (isWord_of_isSpace hc)])
        rw [hlead]
        decide
      rw [List.cons_append, substituteFrom, hhere]
      by_cases hnil : w = []
      · subst hnil
        have hbefore : (some c).any isWord = false := isWord_of_isSpace hc
        exact congrArg (c :: ·) (substituteFrom_nonword hbefore s)
      · exact congrArg (c :: ·) (ih (fun d hd => hw d (List.mem_cons_of_mem c hd)) (some c) hnil)

theorem substitute_blank (hw : Blank w) (s : Text) :
    substitute elseIf (w ++ s) = w ++ substitute elseIf s := by
  by_cases h : w = []
  · rw [h]
    rfl
  · exact substituteFrom_blank hw none s h

theorem upper_of_leadingWord {b : Text} (h : (leadingWord (upper b)).length = b.length) :
    leadingWord (upper b) = upper b := by
  apply (List.takeWhile_prefix isWord).eq_of_length
  rw [upper, List.length_map]
  exact h

theorem trimmed_suffix {a b r : Text} (ht : Trimmed (a ++ (b ++ r))) (hr : lstrip r = []) :
    r = [] := by
  by_contra hne
  obtain ⟨c, hc, hspace⟩ := ht.last
  rw [← List.append_assoc, List.getLast?_append_of_ne_nil _ hne] at hc
  have hblank := blank_of_lstrip hr c (List.mem_of_getLast? hc)
  rw [hspace] at hblank
  cases hblank

theorem takeWhile_append_of_lstrip {r : Text} (hr : lstrip r ≠ []) (v : Text) :
    (r ++ v).takeWhile isSpace = r.takeWhile isSpace := by
  rw [List.takeWhile_append, if_neg]
  intro hlength
  have hall : r.takeWhile isSpace = r := (List.takeWhile_prefix isSpace).eq_of_length hlength
  exact hr (lstrip_blank (List.takeWhile_eq_self_iff.mp hall))

/-- The match at the end of a line looks at the next word of the text. -/
theorem elseIf_append {a b : Text} (ht : Trimmed (a ++ b))
    (hv : ∀ c ∈ v.head?, isSpace c = true)
    (hseam : trailingWord (upper (a ++ b)) = "ELSE".toList →
      leadingWord (upper (lstrip v)) ≠ "IF".toList) :
    elseIf a.getLast? (b ++ v) = elseIf a.getLast? b := by
  have hlead : leadingWord (upper (b ++ v)) = leadingWord (upper b) :=
    leadingWord_upper_append hv b
  by_cases hword : a.getLast?.any isWord = true
  · rw [elseIf_word hword, elseIf_word hword]
  by_cases helse : leadingWord (upper b) = "ELSE".toList
  · have hlength : 4 ≤ b.length := by
      have h := length_leadingWord b
      rwa [helse] at h
    have hdrop : (b ++ v).drop 4 = b.drop 4 ++ v := List.drop_append_of_le_length hlength
    by_cases hrest : lstrip (b.drop 4) = []
    · have hnil : b.drop 4 = [] := by
        rw [← List.take_append_drop 4 b] at ht
        exact trimmed_suffix ht hrest
      have hfour : b.length = 4 := by
        have h := List.drop_eq_nil_iff.mp hnil
        omega
      have hcapitals : upper b = "ELSE".toList := by
        rw [← helse, upper_of_leadingWord]
        rw [helse, hfour]
        rfl
      have htrail : trailingWord (upper (a ++ b)) = "ELSE".toList := by
        rw [trailingWord_upper_append (Bool.not_eq_true _ ▸ hword), hcapitals]
        rw [hcapitals]
        exact List.all_eq_true.mp (by decide)
      have hif := hseam htrail
      rw [elseIf_eq, elseIf_eq, hdrop, hnil, if_neg, if_neg]
      · exact fun h => h.2.2.1 rfl
      · exact fun h => hif h.2.2.2
    · have hblanks : (b.drop 4 ++ v).takeWhile isSpace = (b.drop 4).takeWhile isSpace :=
        takeWhile_append_of_lstrip hrest v
      rw [elseIf_eq, elseIf_eq, hdrop, hlead, hblanks, lstrip_append hrest,
        leadingWord_upper_append hv]
  · rw [elseIf_other helse, elseIf_other (by rwa [hlead])]

/-- A stripped line and what comes after it, when it does not end in the `ELSE` of an `ELSE IF`. -/
theorem substitute_append {t v : Text} (ht : Trimmed t) (hv : ∀ c ∈ v.head?, isSpace c = true)
    (hseam : trailingWord (upper t) = "ELSE".toList →
      leadingWord (upper (lstrip v)) ≠ "IF".toList) :
    substitute elseIf (t ++ v) = substitute elseIf t ++ substitute elseIf v := by
  have hparts : substitute elseIf (t ++ v) =
      substitute elseIf t ++ substituteFrom elseIf 0 (t.getLast?.or none) v := by
    apply substituteFrom_append v elseIf_bound t 0 none (Nat.zero_le _)
    rintro a b rfl _
    rw [Option.or_none]
    exact elseIf_append ht hv hseam
  rw [hparts]
  cases v with
  | nil => rfl
  | cons c v =>
      have hc : Blank [c] := by
        intro d hd
        rw [List.mem_singleton.mp hd]
        exact hv c rfl
      have hfrom := substituteFrom_blank hc (t.getLast?.or none) v (List.cons_ne_nil c [])
      have hblank := substitute_blank hc v
      exact congrArg (substitute elseIf t ++ ·) (hfrom.trans hblank.symm)

end Matcher

end SqlOptima.ElseIfReading
