import Mathlib.Data.List.Infix
import Mathlib.Data.Nat.Digits.Defs
import Mathlib.Tactic.IntervalCases

namespace SqlOptima.TextKeys

/-!
# Keys written as text

Fields joined by a separator that none of them contains can be told apart
again, and so can numbers written in hexadecimal with a minimal width.
-/

/-- Two texts that meet at their first separator meet everywhere. -/
theorem append_sep_inj {α : Type*} {sep : α} {a b x y : List α} (ha : sep ∉ a) (hb : sep ∉ b) :
    a ++ sep :: x = b ++ sep :: y ↔ a = b ∧ x = y := by
  constructor
  · intro h
    induction a generalizing b with
    | nil =>
        cases b with
        | nil => exact ⟨rfl, by simpa using h⟩
        | cons d b =>
            obtain ⟨rfl, -⟩ := List.cons.inj h
            exact absurd List.mem_cons_self hb
    | cons c a ih =>
        cases b with
        | nil =>
            obtain ⟨rfl, -⟩ := List.cons.inj h
            exact absurd List.mem_cons_self ha
        | cons d b =>
            obtain ⟨rfl, htail⟩ := List.cons.inj h
            obtain ⟨rfl, rfl⟩ := ih (fun hm => ha (List.mem_cons_of_mem _ hm))
              (fun hm => hb (List.mem_cons_of_mem _ hm)) htail
            exact ⟨rfl, rfl⟩
  · rintro ⟨rfl, rfl⟩
    rfl

/-- Two texts that meet at their last separator meet everywhere. -/
theorem append_sep_inj_last {α : Type*} {sep : α} {a b x y : List α} (hx : sep ∉ x)
    (hy : sep ∉ y) : a ++ sep :: x = b ++ sep :: y ↔ a = b ∧ x = y := by
  have hreverse := append_sep_inj (x := a.reverse) (y := b.reverse)
    (mt List.mem_reverse.mp hx) (mt List.mem_reverse.mp hy)
  rw [← List.reverse_inj, List.reverse_append, List.reverse_append, List.reverse_cons,
    List.reverse_cons, List.append_assoc, List.append_assoc, List.singleton_append,
    List.singleton_append, hreverse, List.reverse_inj, List.reverse_inj, and_comm]

section Hex

def upperHexDigit (d : Nat) : Char :=
  if d < 10 then Char.ofNat (48 + d) else Char.ofNat (55 + d)

def upperHexValue (c : Char) : Nat :=
  if c.toNat < 58 then c.toNat - 48 else c.toNat - 55

/-- A number in upper-case hexadecimal, zero-padded to a width. -/
def formatHex (width n : Nat) : List Char :=
  ((Nat.digits 16 n).reverse.map upperHexDigit).leftpad width '0'

theorem upperHexValue_upperHexDigit {d : Nat} (hd : d < 16) :
    upperHexValue (upperHexDigit d) = d := by
  interval_cases d <;> decide

theorem upperHexDigit_ne_colon {d : Nat} (hd : d < 16) : upperHexDigit d ≠ ':' := by
  interval_cases d <;> decide

theorem formatHex_injective (width : Nat) : Function.Injective (formatHex width) := by
  have hread : ∀ n, Nat.ofDigits 16 ((formatHex width n).map upperHexValue).reverse = n := by
    intro n
    have hdigits : ((Nat.digits 16 n).reverse.map upperHexDigit).map upperHexValue =
        (Nat.digits 16 n).reverse := by
      rw [List.map_map]
      conv_rhs => rw [← List.map_id (Nat.digits 16 n).reverse]
      refine List.map_congr_left fun d hd => ?_
      exact upperHexValue_upperHexDigit (Nat.digits_lt_base (by decide) (List.mem_reverse.mp hd))
    rw [formatHex, List.leftpad, List.map_append, hdigits, List.map_replicate,
      List.reverse_append, List.reverse_reverse, List.reverse_replicate]
    exact (Nat.ofDigits_append_replicate_zero _).trans (Nat.ofDigits_digits 16 n)
  intro m n h
  rw [← hread m, ← hread n, h]

theorem formatHex_inj {width n m : Nat} : formatHex width n = formatHex width m ↔ n = m :=
  (formatHex_injective width).eq_iff

theorem colon_notMem_formatHex (width n : Nat) : ':' ∉ formatHex width n := by
  intro h
  rw [formatHex, List.leftpad, List.mem_append] at h
  rcases h with h | h
  · exact absurd (List.eq_of_mem_replicate h) (by decide)
  · obtain ⟨d, hd, heq⟩ := List.mem_map.mp h
    exact upperHexDigit_ne_colon (Nat.digits_lt_base (by decide) (List.mem_reverse.mp hd)) heq

end Hex

end SqlOptima.TextKeys
