import Mathlib.Data.Nat.Digits.Defs

namespace SqlOptima.NumberText

/-- The value of a digit of a base up to sixteen, in either letter case. -/
def digitValue (c : Char) : Option Nat :=
  if '0' ≤ c ∧ c ≤ '9' then some (c.toNat - '0'.toNat)
  else if 'a' ≤ c ∧ c ≤ 'f' then some (c.toNat - 'a'.toNat + 10)
  else if 'A' ≤ c ∧ c ≤ 'F' then some (c.toNat - 'A'.toNat + 10)
  else none

def readOnto (base : Nat) : Nat → List Char → Option Nat
  | n, [] => some n
  | n, c :: cs =>
      match digitValue c with
      | none => none
      | some d => if d < base then readOnto base (n * base + d) cs else none

/-- A number from its digits, of which there is at least one. -/
def readDigits (base : Nat) (cs : List Char) : Option Nat :=
  if cs = [] then none else readOnto base 0 cs

/-- The digits of a number, filled up with zeros on the left. -/
def padded (width base n : Nat) : List Char :=
  List.replicate (width - (Nat.toDigits base n).length) '0' ++ Nat.toDigits base n

def paddedUpper (width base n : Nat) : List Char :=
  (padded width base n).map Char.toUpper

theorem digitValue_digitChar {d : Nat} (h : d < 16) : digitValue d.digitChar = some d := by
  revert h
  revert d
  decide

theorem digitValue_toUpper_digitChar {d : Nat} (h : d < 16) :
    digitValue d.digitChar.toUpper = some d := by
  revert h
  revert d
  decide

theorem readOnto_append (base n : Nat) (cs ds : List Char) :
    readOnto base n (cs ++ ds) = (readOnto base n cs).bind fun m => readOnto base m ds := by
  induction cs generalizing n with
  | nil => rfl
  | cons c cs ih =>
      simp only [List.cons_append, readOnto]
      cases digitValue c with
      | none => rfl
      | some d =>
          by_cases hd : d < base
          · simp only [hd, if_true]
            exact ih (n * base + d)
          · simp [hd]

section Digits

variable {base : Nat} (f : Char → Char)

/-- Digits are read back whatever a map does to them, as long as it keeps the
value of each one. -/
theorem readOnto_toDigits (hbase : 1 < base)
    (hf : ∀ d, d < base → digitValue (f d.digitChar) = some d) (n : Nat) :
    readOnto base 0 ((Nat.toDigits base n).map f) = some n := by
  induction n using Nat.strong_induction_on with
  | _ n ih =>
      by_cases hn : n < base
      · simp [Nat.toDigits_of_lt_base hn, readOnto, hf n hn, hn]
      · have hle : base ≤ n := Nat.le_of_not_lt hn
        have hmod : n % base < base := Nat.mod_lt n (by omega)
        have hdiv : n / base < n := Nat.div_lt_self (by omega) hbase
        rw [Nat.toDigits_of_base_le hbase hle, List.map_append, readOnto_append, ih _ hdiv]
        simp [readOnto, hf _ hmod, hmod, Nat.div_add_mod']

theorem readOnto_replicate_zero (hbase : 1 < base) (hzero : digitValue (f '0') = some 0)
    (k : Nat) (cs : List Char) :
    readOnto base 0 (List.replicate k (f '0') ++ cs) = readOnto base 0 cs := by
  induction k with
  | zero => rfl
  | succ k ih =>
      rw [List.replicate_succ, List.cons_append, readOnto, hzero]
      simpa [show 0 < base by omega] using ih

theorem padded_ne_nil (width base n : Nat) : padded width base n ≠ [] := by
  simp [padded, Nat.toDigits_ne_nil]

theorem readDigits_map_padded (hbase : 1 < base)
    (hf : ∀ d, d < base → digitValue (f d.digitChar) = some d) (width n : Nat) :
    readDigits base ((padded width base n).map f) = some n := by
  have hne : (padded width base n).map f ≠ [] := by simp [padded_ne_nil]
  have hzero : digitValue (f '0') = some 0 := hf 0 (by omega)
  rw [readDigits, if_neg hne, padded, List.map_append, List.map_replicate,
    readOnto_replicate_zero f hbase hzero]
  exact readOnto_toDigits f hbase hf n

theorem readDigits_padded (hbase : 1 < base) (hbase' : base ≤ 16) (width n : Nat) :
    readDigits base (padded width base n) = some n := by
  have h := readDigits_map_padded id hbase
    (fun d hd => digitValue_digitChar (Nat.lt_of_lt_of_le hd hbase')) width n
  rwa [List.map_id] at h

theorem readDigits_paddedUpper (hbase : 1 < base) (hbase' : base ≤ 16) (width n : Nat) :
    readDigits base (paddedUpper width base n) = some n :=
  readDigits_map_padded Char.toUpper hbase
    (fun _ hd => digitValue_toUpper_digitChar (Nat.lt_of_lt_of_le hd hbase')) width n

end Digits

theorem length_padded {width base n : Nat} (hbase : 1 < base) (hwidth : 0 < width)
    (h : n < base ^ width) : (padded width base n).length = width := by
  have hle := (Nat.length_toDigits_le_iff hbase hwidth).mpr h
  simp only [padded, List.length_append, List.length_replicate]
  omega

/-- A number of a fixed number of digits at the front of a text. -/
def readFixed (width base : Nat) (cs : List Char) : Option (Nat × List Char) :=
  if cs.length < width then none
  else (readDigits base (cs.take width)).map fun n => (n, cs.drop width)

theorem readFixed_padded {width base n : Nat} (hbase : 1 < base) (hbase' : base ≤ 16)
    (hwidth : 0 < width) (h : n < base ^ width) (rest : List Char) :
    readFixed width base (padded width base n ++ rest) = some (n, rest) := by
  have hlen := length_padded hbase hwidth h
  have hnot : ¬ (padded width base n ++ rest).length < width := by simp [hlen]
  have htake : (padded width base n ++ rest).take width = padded width base n :=
    List.take_left' hlen
  have hdrop : (padded width base n ++ rest).drop width = rest := List.drop_left' hlen
  rw [readFixed, if_neg hnot, htake, hdrop, readDigits_padded hbase hbase' width n]
  rfl

end SqlOptima.NumberText
