import Mathlib.Data.List.DropRight

namespace SqlOptima.Utf8Text

/-- A text as its bytes. -/
def utf8 (text : List Char) : List UInt8 := text.flatMap String.utf8EncodeChar

@[simp]
theorem utf8_nil : utf8 [] = [] := rfl

theorem utf8_cons (c : Char) (text : List Char) :
    utf8 (c :: text) = String.utf8EncodeChar c ++ utf8 text :=
  List.flatMap_cons

theorem utf8_append (a b : List Char) : utf8 (a ++ b) = utf8 a ++ utf8 b :=
  List.flatMap_append

theorem utf8_injective : Function.Injective utf8 := by
  intro a b h
  have hencode : a.utf8Encode = b.utf8Encode := congrArg List.toByteArray h
  rw [← String.toByteArray_ofList, ← String.toByteArray_ofList, String.toByteArray_inj] at hencode
  exact String.ofList_injective hencode

section Ascii

def isAscii (c : Char) : Bool := c.toNat < 128

def asciiByte (c : Char) : UInt8 := UInt8.ofNat c.toNat

theorem utf8EncodeChar_ascii {c : Char} (h : isAscii c) :
    String.utf8EncodeChar c = [asciiByte c] := by
  have hc : c.val.toNat ≤ 0x7f := Nat.lt_succ_iff.mp (of_decide_eq_true h)
  rw [String.utf8EncodeChar, if_pos hc]
  rfl

theorem le_of_mem_utf8EncodeChar {c : Char} (h : isAscii c = false) :
    ∀ b ∈ String.utf8EncodeChar c, 128 ≤ b.toNat := by
  have hc : ¬ c.val.toNat ≤ 0x7f := by
    have := of_decide_eq_false h
    change ¬ c.val.toNat < 128 at this
    omega
  intro b hb
  rw [String.utf8EncodeChar, if_neg hc] at hb
  split at hb
  · simp only [List.mem_cons, List.not_mem_nil, or_false] at hb
    rcases hb with rfl | rfl <;> rw [UInt8.toNat_ofNat'] <;> omega
  · split at hb
    · simp only [List.mem_cons, List.not_mem_nil, or_false] at hb
      rcases hb with rfl | rfl | rfl <;> rw [UInt8.toNat_ofNat'] <;> omega
    · simp only [List.mem_cons, List.not_mem_nil, or_false] at hb
      rcases hb with rfl | rfl | rfl | rfl <;> rw [UInt8.toNat_ofNat'] <;> omega

theorem toNat_asciiByte {c : Char} (h : isAscii c) : (asciiByte c).toNat = c.toNat := by
  have hc : c.toNat < 128 := of_decide_eq_true h
  rw [asciiByte, UInt8.toNat_ofNat', Nat.mod_eq_of_lt (by omega)]

/-- What selects bytes below 128 only selects the same characters. -/
theorem filter_utf8 {p : UInt8 → Bool} (hp : ∀ b, 128 ≤ b.toNat → p b = false)
    (text : List Char) :
    (utf8 text).filter p = utf8 (text.filter fun c => isAscii c && p (asciiByte c)) := by
  induction text with
  | nil => rfl
  | cons c text ih =>
      rw [utf8_cons, List.filter_append, ih, List.filter_cons]
      cases hc : isAscii c with
      | true =>
          rw [utf8EncodeChar_ascii hc, Bool.true_and, List.filter_singleton]
          cases hpc : p (asciiByte c) with
          | true => rw [if_pos rfl, utf8_cons, utf8EncodeChar_ascii hc]; rfl
          | false => rw [if_neg (by decide)]; rfl
      | false =>
          have hnone : (String.utf8EncodeChar c).filter p = [] := by
            rw [List.filter_eq_nil_iff]
            intro b hb
            rw [hp b (le_of_mem_utf8EncodeChar hc b hb)]
            decide
          rw [hnone, Bool.false_and, if_neg (by decide), List.nil_append]

/-- An ASCII character occurs among the bytes only where it occurs in the text. -/
theorem asciiByte_mem_utf8_iff {c : Char} (hc : isAscii c) {text : List Char} :
    asciiByte c ∈ utf8 text ↔ c ∈ text := by
  constructor
  · intro h
    obtain ⟨d, hd, hmem⟩ := List.mem_flatMap.mp h
    cases hascii : isAscii d with
    | true =>
        rw [utf8EncodeChar_ascii hascii, List.mem_singleton] at hmem
        have hnat := congrArg UInt8.toNat hmem
        rw [toNat_asciiByte hc, toNat_asciiByte hascii] at hnat
        rwa [Char.toNat_inj.mp hnat]
    | false =>
        have hle := le_of_mem_utf8EncodeChar hascii _ hmem
        rw [toNat_asciiByte hc] at hle
        exact absurd (of_decide_eq_true hc) (not_lt.mpr hle)
  · intro h
    refine List.mem_flatMap.mpr ⟨c, h, ?_⟩
    rw [utf8EncodeChar_ascii hc]
    exact List.mem_singleton_self _

theorem utf8EncodeChar_ne_of_ne {c d : Char} (hc : isAscii c) (h : d ≠ c) :
    asciiByte c ∉ String.utf8EncodeChar d := by
  have hiff : asciiByte c ∈ utf8 [d] ↔ c ∈ [d] := asciiByte_mem_utf8_iff hc
  rw [utf8_cons, utf8_nil, List.append_nil, List.mem_singleton] at hiff
  exact fun hmem => h (hiff.mp hmem).symm

/-- Cutting an ASCII character off the end of the bytes cuts it off the text. -/
theorem rdropWhile_utf8 {c : Char} (hc : isAscii c) (text : List Char) :
    (utf8 text).rdropWhile (· == asciiByte c) = utf8 (text.rdropWhile (· == c)) := by
  induction text using List.reverseRecOn with
  | nil => rfl
  | append_singleton text d ih =>
      rw [utf8_append, utf8_cons, utf8_nil, List.append_nil]
      by_cases hd : d = c
      · subst hd
        rw [utf8EncodeChar_ascii hc, List.rdropWhile_concat_pos _ _ _ (by simp), ih,
          List.rdropWhile_concat_pos _ _ _ (by simp)]
      · rw [List.rdropWhile_concat_neg _ _ _ (by simpa using hd), utf8_append, utf8_cons, utf8_nil,
          List.append_nil, List.rdropWhile_eq_self_iff]
        intro hne hlast
        rw [List.getLast_append_of_ne_nil hne String.utf8EncodeChar_ne_nil, beq_iff_eq] at hlast
        exact utf8EncodeChar_ne_of_ne hc hd (hlast ▸ List.getLast_mem _)

end Ascii

end SqlOptima.Utf8Text
