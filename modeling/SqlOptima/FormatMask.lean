import SqlOptima.TransformAgreement

namespace SqlOptima.FormatMask

open CellValues
open ColumnTransforms
open TransformTexts (replaceDigits_of_not_digit between_iff runeWidth_one)
open TransformAgreement (oneDigest)

/-!
# The numeric mask keeps the format of a text

Told of the runes of any Go string, so also of one that is no UTF-8.
-/

section Format

def isDigitRune (r : Text) : Bool := r.length = 1 ∧ r.all isDigit

/-- What becomes of a rune: a digit is replaced by a digit, another rune stays. -/
def Kept (r r' : Text) : Prop := if isDigitRune r then isDigitRune r' = true else r' = r

structure FormatKept (raw out : Text) : Prop where
  sameLength : (runes out).length = (runes raw).length
  inPlace : List.Forall₂ Kept (runes raw) (runes out)

end Format

section Whole

/-- The bytes of a rune, as a decoder takes them off a text. -/
def Whole (r : Text) : Prop := ∀ rest, runeWidth (r ++ rest) = some r.length

/-- The width of a rune depends on the bytes of the rune alone. -/
theorem whole_take {s : Text} {n : Nat} (h : runeWidth s = some n) : Whole (s.take n) := by
  intro rest
  unfold runeWidth at h
  split at h
  · exact absurd h.symm (Option.some_ne_none n)
  · rename_i b₀ s
    split at h
    · rename_i hone
      obtain rfl := Option.some.inj h
      simp only [List.take_succ_cons, List.take_zero, List.cons_append, List.nil_append,
        List.length_cons, List.length_nil, runeWidth, if_pos hone]
    · rename_i hone
      split at h
      · rename_i htwo
        split at h
        · split at h
          · rename_i hcont
            obtain rfl := Option.some.inj h
            simp only [List.take_succ_cons, List.take_zero, List.cons_append, List.nil_append,
              List.length_cons, List.length_nil, runeWidth, if_neg hone, if_pos htwo,
              if_pos hcont]
          · exact absurd h.symm (Option.some_ne_none n)
        · exact absurd h.symm (Option.some_ne_none n)
      · rename_i htwo
        split at h
        · rename_i hthree
          split at h
          · split at h
            · rename_i hcont
              obtain rfl := Option.some.inj h
              simp only [List.take_succ_cons, List.take_zero, List.cons_append, List.nil_append,
                List.length_cons, List.length_nil, runeWidth, if_neg hone, if_neg htwo,
                if_pos hthree, if_pos hcont]
            · exact absurd h.symm (Option.some_ne_none n)
          · exact absurd h.symm (Option.some_ne_none n)
        · rename_i hthree
          split at h
          · rename_i hfour
            split at h
            · split at h
              · rename_i hcont
                obtain rfl := Option.some.inj h
                simp only [List.take_succ_cons, List.take_zero, List.cons_append, List.nil_append,
                  List.length_cons, List.length_nil, runeWidth, if_neg hone, if_neg htwo,
                  if_neg hthree, if_pos hfour, if_pos hcont]
              · exact absurd h.symm (Option.some_ne_none n)
            · exact absurd h.symm (Option.some_ne_none n)
          · exact absurd h.symm (Option.some_ne_none n)

theorem whole_replacementRune : Whole replacementRune := fun _ => rfl

theorem whole_decodeRune (s : Text) : Whole (decodeRune s).1 := by
  rw [decodeRune]
  cases h : runeWidth s with
  | none => exact whole_replacementRune
  | some n => exact whole_take h

theorem whole_of_mem_runesWithin (fuel : Nat) :
    ∀ {s r : Text}, r ∈ runesWithin fuel s → Whole r := by
  induction fuel with
  | zero =>
      intro s r h
      rw [runesWithin] at h
      exact absurd h List.not_mem_nil
  | succ fuel ih =>
      intro s r h
      cases s with
      | nil =>
          rw [runesWithin] at h
          exact absurd h List.not_mem_nil
      | cons b s =>
          rw [runesWithin] at h
          obtain rfl | hrest := List.mem_cons.mp h
          · exact whole_decodeRune _
          · exact ih hrest

theorem Whole.decodeRune {r : Text} (h : Whole r) (rest : Text) :
    decodeRune (r ++ rest) = (r, rest) := by
  rw [ColumnTransforms.decodeRune, h rest]
  simp only [List.take_left, List.drop_left]

theorem Whole.ne_nil {r : Text} (h : Whole r) : r ≠ [] := by
  rintro rfl
  exact Option.some_ne_none 0 (h []).symm

theorem runesWithin_flatten (rs : List Text) (hwhole : ∀ r ∈ rs, Whole r) {fuel : Nat}
    (h : rs.flatten.length ≤ fuel) : runesWithin fuel rs.flatten = rs := by
  induction rs generalizing fuel with
  | nil =>
      cases fuel with
      | zero => rfl
      | succ fuel => rfl
  | cons r rs ih =>
      have hr := hwhole r List.mem_cons_self
      have hpos := List.length_pos_of_ne_nil hr.ne_nil
      have hdecode := hr.decodeRune rs.flatten
      rw [List.flatten_cons, List.length_append] at h
      obtain ⟨fuel, rfl⟩ := Nat.exists_eq_succ_of_ne_zero (by omega : fuel ≠ 0)
      obtain ⟨b, bs, rfl⟩ := List.exists_cons_of_ne_nil hr.ne_nil
      rw [List.flatten_cons, List.cons_append]
      rw [List.cons_append] at hdecode
      rw [runesWithin, hdecode,
        ih (fun r hr => hwhole r (List.mem_cons_of_mem _ hr)) (by omega)]

theorem runes_flatten {rs : List Text} (h : ∀ r ∈ rs, Whole r) : runes rs.flatten = rs :=
  runesWithin_flatten rs h (Nat.le_refl _)

theorem isDigitRune_iff {r : Text} : isDigitRune r = true ↔ ∃ b, r = [b] ∧ isDigit b = true := by
  rw [isDigitRune, decide_eq_true_eq, List.length_eq_one_iff]
  constructor
  · rintro ⟨⟨b, rfl⟩, hb⟩
    exact ⟨b, rfl, by simpa using hb⟩
  · rintro ⟨b, rfl, hb⟩
    exact ⟨⟨b, rfl⟩, by simpa using hb⟩

theorem whole_of_isDigitRune {r : Text} (h : isDigitRune r = true) : Whole r := by
  obtain ⟨b, rfl, hb⟩ := isDigitRune_iff.mp h
  intro rest
  rw [isDigit, between_iff] at hb
  exact runeWidth_one (lt_of_le_of_lt hb.2 (by decide))

end Whole

section Mask

/-- The digits are dealt out to the places of the old ones. -/
theorem exists_replaced (rs : List Text) :
    ∀ {mapped : List UInt8}, mapped.length = rs.countP isDigitRune →
      (∀ d ∈ mapped, isDigit d = true) →
        ∃ rs', replaceDigits rs mapped = rs'.flatten ∧ List.Forall₂ Kept rs rs' := by
  induction rs with
  | nil =>
      intro mapped _ _
      exact ⟨[], by rw [replaceDigits]; rfl, .nil⟩
  | cons r rs ih =>
      intro mapped hlength hdigits
      cases hr : isDigitRune r with
      | true =>
          rw [List.countP_cons_of_pos hr] at hlength
          obtain ⟨d, ds, rfl⟩ := List.exists_cons_of_length_eq_add_one hlength
          obtain ⟨b, rfl, hb⟩ := isDigitRune_iff.mp hr
          obtain ⟨rs', hrs', hkept⟩ := ih (Nat.succ.inj hlength)
            fun d hd => hdigits d (List.mem_cons_of_mem _ hd)
          have hd := hdigits d List.mem_cons_self
          refine ⟨[d] :: rs', ?_, .cons ?_ hkept⟩
          · rw [replaceDigits, if_pos hb, hrs', List.flatten_cons, List.singleton_append]
          · rw [Kept, if_pos hr]
            exact isDigitRune_iff.mpr ⟨d, rfl, hd⟩
      | false =>
          rw [List.countP_cons_of_neg (by rw [hr]; exact Bool.false_ne_true)] at hlength
          obtain ⟨rs', hrs', hkept⟩ := ih hlength hdigits
          refine ⟨r :: rs', ?_, .cons ?_ hkept⟩
          · rw [replaceDigits_of_not_digit (fun h => ?_), hrs', List.flatten_cons]
            rw [isDigitRune, decide_eq_false_iff_not] at hr
            exact hr h
          · rw [Kept, if_neg (by rw [hr]; exact Bool.false_ne_true)]

theorem whole_of_kept {rs rs' : List Text} (h : List.Forall₂ Kept rs rs')
    (hwhole : ∀ r ∈ rs, Whole r) : ∀ r' ∈ rs', Whole r' := by
  induction h with
  | nil => exact fun r' hr' => absurd hr' List.not_mem_nil
  | @cons r r' rs rs' hkept _ ih =>
      intro s hs
      obtain rfl | hrest := List.mem_cons.mp hs
      · rw [Kept] at hkept
        split at hkept
        · exact whole_of_isDigitRune hkept
        · rw [hkept]
          exact hwhole r List.mem_cons_self
      · exact ih (fun r hr => hwhole r (List.mem_cons_of_mem _ hr)) s hrest

theorem isDigit_mapped (h : UInt8) : isDigit (48 + h % 10) = true := by
  rw [isDigit, between_iff, UInt8.toNat_add, UInt8.toNat_mod]
  change 48 ≤ (48 + h.toNat % 10) % 256 ∧ (48 + h.toNat % 10) % 256 ≤ 57
  omega

theorem length_digits (rs : List Text) :
    (rs.filter isDigitRune).flatten.length = rs.countP isDigitRune := by
  induction rs with
  | nil => rfl
  | cons r rs ih =>
      cases hr : isDigitRune r with
      | true =>
          obtain ⟨b, rfl, -⟩ := isDigitRune_iff.mp hr
          rw [List.filter_cons_of_pos hr, List.countP_cons_of_pos hr, List.flatten_cons,
            List.length_append, ih, List.length_singleton, Nat.add_comm]
      | false =>
          have hnot : ¬ isDigitRune r = true := by rw [hr]; exact Bool.false_ne_true
          rw [List.filter_cons_of_neg hnot, List.countP_cons_of_neg hnot, ih]

variable (rt : Runtime)

/-- The digits of the text. -/
def digitsOf (raw : Text) : Text := ((runes raw).filter isDigitRune).flatten

def mappedDigits (raw : Text) : List UInt8 :=
  (List.range (digitsOf raw).length).map fun i =>
    48 + rt.sha256 (digitsOf raw) (Fin.ofNat 32 i) % 10

theorem fpeNumeric_eq {raw : Text} (h : digitsOf raw ≠ []) :
    fpeNumeric rt raw = replaceDigits (runes raw) (mappedDigits rt raw) :=
  if_neg h

theorem length_mappedDigits (raw : Text) :
    (mappedDigits rt raw).length = (runes raw).countP isDigitRune := by
  rw [mappedDigits, List.length_map, List.length_range, digitsOf, length_digits]

theorem isDigit_of_mem_mappedDigits {raw : Text} :
    ∀ d ∈ mappedDigits rt raw, isDigit d = true := by
  intro d hd
  obtain ⟨i, -, rfl⟩ := List.mem_map.mp hd
  exact isDigit_mapped _

/-- The mask of a text with a digit has the text's runes, with other digits in the places of its
digits; however many there are, the digest serves them in turn. -/
theorem formatKept_of_digit {raw : Text} (hdigit : ∃ r ∈ runes raw, isDigitRune r = true) :
    ∃ out, transformMaskFPENumeric rt (.str raw) = .str out ∧ FormatKept raw out := by
  have hsome : digitsOf raw ≠ [] := by
    intro hnil
    have hzero := length_digits (runes raw)
    rw [← digitsOf, hnil, List.length_nil] at hzero
    obtain ⟨r, hr, hr'⟩ := hdigit
    exact List.countP_eq_zero.mp hzero.symm r hr hr'
  obtain ⟨rs, hrs, hkept⟩ :=
    exists_replaced (runes raw) (length_mappedDigits rt raw) (isDigit_of_mem_mappedDigits rt)
  have hwhole := whole_of_kept hkept fun r hr => whole_of_mem_runesWithin _ hr
  refine ⟨fpeNumeric rt raw, rfl, ?_, ?_⟩
  · rw [fpeNumeric_eq rt hsome, hrs, runes_flatten hwhole, hkept.length_eq]
  · rw [fpeNumeric_eq rt hsome, hrs, runes_flatten hwhole]
    exact hkept

/-- The bytes of `a1`. -/
def letterAndDigit : Text := [97, 49]

theorem letter_and_digit_kept :
    (∃ r ∈ runes letterAndDigit, isDigitRune r = true) ∧
      ∃ out, transformMaskFPENumeric oneDigest (.str letterAndDigit) = .str out ∧
        FormatKept letterAndDigit out :=
  ⟨⟨[49], by decide, by decide⟩, formatKept_of_digit oneDigest ⟨[49], by decide, by decide⟩⟩

/-- A text without digits is redacted. -/
theorem letter_redacted :
    ¬ ∃ out, transformMaskFPENumeric oneDigest (.str [97]) = .str out ∧ FormatKept [97] out := by
  rintro ⟨out, hout, hkept⟩
  obtain rfl := CellValue.str.inj hout
  exact absurd hkept.sameLength (by decide)

end Mask

end SqlOptima.FormatMask
