import Mathlib.Tactic.IntervalCases
import SqlOptima.Utf8Text

namespace SqlOptima.Base64

/-!
# URL-safe base64

The encoder with padding, a decoder that passes over what it does not know and stops at a full
padding, and a strict one.
-/

section Alphabet

def digit (n : Nat) : Char :=
  if n < 26 then Char.ofNat (65 + n)
  else if n < 52 then Char.ofNat (71 + n)
  else if n < 62 then Char.ofNat (n - 4)
  else if n = 62 then '-'
  else '_'

def value (c : Char) : Option Nat :=
  if 'A' ≤ c ∧ c ≤ 'Z' then some (c.toNat - 65)
  else if 'a' ≤ c ∧ c ≤ 'z' then some (c.toNat - 71)
  else if '0' ≤ c ∧ c ≤ '9' then some (c.toNat + 4)
  else if c = '-' then some 62
  else if c = '_' then some 63
  else none

/-- The digits 62 and 63 in either alphabet. -/
def lenientValue (c : Char) : Option Nat :=
  if c = '+' then some 62 else if c = '/' then some 63 else value c

theorem value_digit {n : Nat} (h : n < 64) : value (digit n) = some n := by
  interval_cases n <;> decide

theorem lenientValue_digit {n : Nat} (h : n < 64) : lenientValue (digit n) = some n := by
  interval_cases n <;> decide

/-- A digit stands for none of the characters that the decoders treat apart. -/
theorem digit_ne {n : Nat} (h : n < 64) {c : Char} (hc : value c = none) : digit n ≠ c := by
  intro heq
  rw [← heq, value_digit h] at hc
  cases hc

theorem isAscii_digit {n : Nat} (h : n < 64) : Utf8Text.isAscii (digit n) = true := by
  interval_cases n <;> decide

end Alphabet

section Encoder

def encode : List UInt8 → List Char
  | [] => []
  | [a] => [digit (a.toNat / 4), digit (a.toNat % 4 * 16), '=', '=']
  | [a, b] =>
      [digit (a.toNat / 4), digit (a.toNat % 4 * 16 + b.toNat / 16), digit (b.toNat % 16 * 4), '=']
  | a :: b :: c :: bytes =>
      digit (a.toNat / 4) :: digit (a.toNat % 4 * 16 + b.toNat / 16) ::
        digit (b.toNat % 16 * 4 + c.toNat / 64) :: digit (c.toNat % 64) :: encode bytes

/-- An encoded text consists of digits and padding. -/
theorem mem_encode {bytes : List UInt8} {c : Char} (h : c ∈ encode bytes) :
    c = '=' ∨ ∃ n < 64, c = digit n := by
  fun_induction encode bytes with
  | case1 => cases h
  | case2 a =>
      have := a.toNat_lt
      simp only [List.mem_cons, List.not_mem_nil, or_false] at h
      rcases h with rfl | rfl | rfl | rfl
      · exact Or.inr ⟨_, by omega, rfl⟩
      · exact Or.inr ⟨_, by omega, rfl⟩
      · exact Or.inl rfl
      · exact Or.inl rfl
  | case3 a b =>
      have := a.toNat_lt
      have := b.toNat_lt
      simp only [List.mem_cons, List.not_mem_nil, or_false] at h
      rcases h with rfl | rfl | rfl | rfl
      · exact Or.inr ⟨_, by omega, rfl⟩
      · exact Or.inr ⟨_, by omega, rfl⟩
      · exact Or.inr ⟨_, by omega, rfl⟩
      · exact Or.inl rfl
  | case4 a b d bytes ih =>
      have := a.toNat_lt
      have := b.toNat_lt
      have := d.toNat_lt
      simp only [List.mem_cons] at h
      rcases h with rfl | rfl | rfl | rfl | h
      · exact Or.inr ⟨_, by omega, rfl⟩
      · exact Or.inr ⟨_, by omega, rfl⟩
      · exact Or.inr ⟨_, by omega, rfl⟩
      · exact Or.inr ⟨_, by omega, rfl⟩
      · exact ih h

theorem notMem_encode {c : Char} (hpad : c ≠ '=') (hc : value c = none) (bytes : List UInt8) :
    c ∉ encode bytes := by
  intro h
  rcases mem_encode h with rfl | ⟨n, hn, rfl⟩
  · exact hpad rfl
  · rw [value_digit hn] at hc
    cases hc

theorem isAscii_encode (bytes : List UInt8) : (encode bytes).all Utf8Text.isAscii = true := by
  refine List.all_eq_true.mpr fun c hc => ?_
  rcases mem_encode hc with rfl | ⟨n, hn, rfl⟩
  · rfl
  · exact isAscii_digit hn

end Encoder

section Bytes

/-- Three bytes are put together from their four digits. -/
theorem first_byte (a b : UInt8) :
    UInt8.ofNat (a.toNat / 4 * 4 + (a.toNat % 4 * 16 + b.toNat / 16) / 16) = a := by
  have := a.toNat_lt
  have := b.toNat_lt
  rw [← UInt8.toNat_inj, UInt8.toNat_ofNat']
  omega

theorem first_byte_padded (a : UInt8) :
    UInt8.ofNat (a.toNat / 4 * 4 + a.toNat % 4 * 16 / 16) = a := by
  have := a.toNat_lt
  rw [← UInt8.toNat_inj, UInt8.toNat_ofNat']
  omega

theorem second_byte (a b c : UInt8) :
    UInt8.ofNat ((a.toNat % 4 * 16 + b.toNat / 16) % 16 * 16 +
      (b.toNat % 16 * 4 + c.toNat / 64) / 4) = b := by
  have := a.toNat_lt
  have := b.toNat_lt
  have := c.toNat_lt
  rw [← UInt8.toNat_inj, UInt8.toNat_ofNat']
  omega

theorem second_byte_padded (a b : UInt8) :
    UInt8.ofNat ((a.toNat % 4 * 16 + b.toNat / 16) % 16 * 16 + b.toNat % 16 * 4 / 4) = b := by
  have := a.toNat_lt
  have := b.toNat_lt
  rw [← UInt8.toNat_inj, UInt8.toNat_ofNat']
  omega

theorem third_byte (b c : UInt8) :
    UInt8.ofNat ((b.toNat % 16 * 4 + c.toNat / 64) % 4 * 64 + c.toNat % 64) = c := by
  have := b.toNat_lt
  have := c.toNat_lt
  rw [← UInt8.toNat_inj, UInt8.toNat_ofNat']
  omega

end Bytes

section Lenient

/-- The decoder after `quad` digits of a group of four, with the bits that are left over and the
paddings since the last digit. -/
def decodeLenient (quad left pads : Nat) : List Char → Option (List UInt8)
  | [] => if quad = 0 then some [] else none
  | c :: cs =>
      if c = '=' then
        if 2 ≤ quad ∧ 4 ≤ quad + (pads + 1) then some []
        else decodeLenient quad left (if 2 ≤ quad then pads + 1 else pads) cs
      else
        match lenientValue c with
        | none => decodeLenient quad left pads cs
        | some v =>
            match quad with
            | 0 => decodeLenient 1 v 0 cs
            | 1 => (decodeLenient 2 (v % 16) 0 cs).map (UInt8.ofNat (left * 4 + v / 16) :: ·)
            | 2 => (decodeLenient 3 (v % 4) 0 cs).map (UInt8.ofNat (left * 16 + v / 4) :: ·)
            | _ => (decodeLenient 0 0 0 cs).map (UInt8.ofNat (left * 64 + v) :: ·)

section Digits

variable {n : Nat} (h : n < 64) (left pads : Nat) (cs : List Char)

include h

attribute [local simp] decodeLenient in
theorem decodeLenient_first :
    decodeLenient 0 left pads (digit n :: cs) = decodeLenient 1 n 0 cs := by
  rw [decodeLenient, if_neg (digit_ne h (by decide)), lenientValue_digit h]
  rfl

theorem decodeLenient_second :
    decodeLenient 1 left pads (digit n :: cs) =
      (decodeLenient 2 (n % 16) 0 cs).map (UInt8.ofNat (left * 4 + n / 16) :: ·) := by
  rw [decodeLenient, if_neg (digit_ne h (by decide)), lenientValue_digit h]
  rfl

theorem decodeLenient_third :
    decodeLenient 2 left pads (digit n :: cs) =
      (decodeLenient 3 (n % 4) 0 cs).map (UInt8.ofNat (left * 16 + n / 4) :: ·) := by
  rw [decodeLenient, if_neg (digit_ne h (by decide)), lenientValue_digit h]
  rfl

theorem decodeLenient_fourth :
    decodeLenient 3 left pads (digit n :: cs) =
      (decodeLenient 0 0 0 cs).map (UInt8.ofNat (left * 64 + n) :: ·) := by
  rw [decodeLenient, if_neg (digit_ne h (by decide)), lenientValue_digit h]
  rfl

end Digits

theorem decodeLenient_encode (bytes : List UInt8) :
    decodeLenient 0 0 0 (encode bytes) = some bytes := by
  fun_induction encode bytes with
  | case1 => rfl
  | case2 a =>
      have := a.toNat_lt
      rw [decodeLenient_first (by omega), decodeLenient_second (by omega), first_byte_padded]
      rfl
  | case3 a b =>
      have := a.toNat_lt
      have := b.toNat_lt
      rw [decodeLenient_first (by omega), decodeLenient_second (by omega),
        decodeLenient_third (by omega), first_byte, second_byte_padded]
      rfl
  | case4 a b c bytes ih =>
      have := a.toNat_lt
      have := b.toNat_lt
      have := c.toNat_lt
      rw [decodeLenient_first (by omega), decodeLenient_second (by omega),
        decodeLenient_third (by omega), decodeLenient_fourth (by omega), ih, first_byte,
        second_byte, third_byte]
      rfl

end Lenient

section Strict

/-- Whole groups of four, of which only the last may be padded. -/
def decodeGroups : List Char → Option (List UInt8)
  | [] => some []
  | c₁ :: c₂ :: c₃ :: c₄ :: cs => do
      let v₁ ← value c₁
      let v₂ ← value c₂
      if c₃ = '=' then
        if c₄ = '=' ∧ cs = [] then some [UInt8.ofNat (v₁ * 4 + v₂ / 16)] else none
      else
        let v₃ ← value c₃
        if c₄ = '=' then
          if cs = [] then
            some [UInt8.ofNat (v₁ * 4 + v₂ / 16), UInt8.ofNat (v₂ % 16 * 16 + v₃ / 4)]
          else none
        else
          let v₄ ← value c₄
          let bytes ← decodeGroups cs
          some (UInt8.ofNat (v₁ * 4 + v₂ / 16) :: UInt8.ofNat (v₂ % 16 * 16 + v₃ / 4) ::
            UInt8.ofNat (v₃ % 4 * 64 + v₄) :: bytes)
  | _ => none

/-- Line ends are not part of the text. -/
def decodeStrict (text : List Char) : Option (List UInt8) :=
  decodeGroups (text.filter fun c => c != '\r' && c != '\n')

theorem decodeGroups_encode (bytes : List UInt8) : decodeGroups (encode bytes) = some bytes := by
  fun_induction encode bytes with
  | case1 => rfl
  | case2 a =>
      have := a.toNat_lt
      rw [decodeGroups, value_digit (by omega), value_digit (by omega)]
      exact congrArg (fun b => some [b]) (first_byte_padded a)
  | case3 a b =>
      have := a.toNat_lt
      have := b.toNat_lt
      have hdigit : digit (b.toNat % 16 * 4) ≠ '=' := digit_ne (by omega) (by decide)
      rw [decodeGroups, value_digit (by omega), value_digit (by omega)]
      refine (if_neg hdigit).trans ?_
      rw [value_digit (by omega), first_byte]
      exact congrArg (fun b => some [a, b]) (second_byte_padded a b)
  | case4 a b c bytes ih =>
      have := a.toNat_lt
      have := b.toNat_lt
      have := c.toNat_lt
      have hthird : digit (b.toNat % 16 * 4 + c.toNat / 64) ≠ '=' := digit_ne (by omega) (by decide)
      have hfourth : digit (c.toNat % 64) ≠ '=' := digit_ne (by omega) (by decide)
      rw [decodeGroups, value_digit (by omega), value_digit (by omega)]
      refine (if_neg hthird).trans ?_
      rw [value_digit (by omega)]
      refine (if_neg hfourth).trans ?_
      rw [value_digit (by omega), ih, first_byte, second_byte]
      exact congrArg (fun c => some (a :: b :: c :: bytes)) (third_byte b c)

/-- What is decoded consists of digits and padding. -/
theorem of_decodeGroups {text : List Char} {bytes : List UInt8}
    (h : decodeGroups text = some bytes) : ∀ c ∈ text, c = '=' ∨ (value c).isSome := by
  fun_induction decodeGroups text generalizing bytes with
  | case1 => exact List.forall_mem_nil _
  | case3 => cases h
  | case2 c₁ c₂ c₃ c₄ cs ih =>
      obtain ⟨v₁, h₁, h⟩ := Option.bind_eq_some_iff.mp h
      obtain ⟨v₂, h₂, h⟩ := Option.bind_eq_some_iff.mp h
      simp only [List.forall_mem_cons]
      refine ⟨Or.inr (Option.isSome_of_eq_some h₁), Or.inr (Option.isSome_of_eq_some h₂), ?_⟩
      split at h
      · next h₃ =>
          split at h
          · next h₄ =>
              rw [h₄.2]
              exact ⟨Or.inl h₃, Or.inl h₄.1, List.forall_mem_nil _⟩
          · cases h
      · obtain ⟨v₃, h₃, h⟩ := Option.bind_eq_some_iff.mp h
        refine ⟨Or.inr (Option.isSome_of_eq_some h₃), ?_⟩
        split at h
        · next h₄ =>
            split at h
            · next hnil =>
                rw [hnil]
                exact ⟨Or.inl h₄, List.forall_mem_nil _⟩
            · cases h
        · obtain ⟨v₄, h₄, h⟩ := Option.bind_eq_some_iff.mp h
          obtain ⟨rest, hrest, -⟩ := Option.bind_eq_some_iff.mp h
          exact ⟨Or.inr (Option.isSome_of_eq_some h₄), ih hrest⟩

/-- A character that is no digit, no padding and no line end spoils the text. -/
theorem decodeStrict_of_mem {c : Char} (hpad : c ≠ '=') (hc : value c = none)
    (hline : c ≠ '\r' ∧ c ≠ '\n') {text : List Char} (h : c ∈ text) :
    decodeStrict text = none := by
  rw [decodeStrict, Option.eq_none_iff_forall_ne_some]
  intro bytes hbytes
  have hmem : c ∈ text.filter fun c => c != '\r' && c != '\n' := by
    simpa [h] using hline
  cases of_decodeGroups hbytes c hmem with
  | inl heq => exact hpad heq
  | inr hsome =>
      rw [hc] at hsome
      cases hsome

theorem decodeStrict_encode (bytes : List UInt8) : decodeStrict (encode bytes) = some bytes := by
  have hkept : (encode bytes).filter (fun c => c != '\r' && c != '\n') = encode bytes := by
    refine List.filter_eq_self.mpr fun c hc => ?_
    rw [Bool.and_eq_true, bne_iff_ne, bne_iff_ne]
    refine ⟨?_, ?_⟩
    · rintro rfl
      exact notMem_encode (by decide) (by decide) bytes hc
    · rintro rfl
      exact notMem_encode (by decide) (by decide) bytes hc
  rw [decodeStrict, hkept, decodeGroups_encode]

end Strict

end SqlOptima.Base64
