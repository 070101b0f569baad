import Mathlib.Algebra.Group.Int.Defs
import Mathlib.Algebra.Group.Nat.Defs
import Mathlib.Algebra.GroupWithZero.Nat
import Mathlib.Data.List.Basic

namespace SqlOptima.WireFormat

/-- A reader takes a value off the front of a byte string and hands back what is left. -/
abbrev Reader (α : Type) := List UInt8 → Option (α × List UInt8)

section BigEndian

def beBytes : Nat → Nat → List UInt8
  | 0, _ => []
  | k + 1, n => UInt8.ofNat (n / 256 ^ k) :: beBytes k n

def beNat (bs : List UInt8) : Nat :=
  bs.foldl (fun n b => 256 * n + b.toNat) 0

@[simp]
theorem length_beBytes (k n : Nat) : (beBytes k n).length = k := by
  induction k with
  | zero => rfl
  | succ k ih => simp [beBytes, ih]

theorem foldl_beBytes (k n m : Nat) :
    (beBytes k n).foldl (fun n b => 256 * n + b.toNat) m = 256 ^ k * m + n % 256 ^ k := by
  induction k generalizing m with
  | zero => simp [beBytes, Nat.mod_one]
  | succ k ih =>
      have hdigit : (UInt8.ofNat (n / 256 ^ k)).toNat = n / 256 ^ k % 256 := by
        simp [UInt8.toNat_ofNat']
      rw [beBytes, List.foldl_cons, ih, hdigit, Nat.pow_succ, Nat.mod_mul]
      rw [Nat.mul_add, Nat.mul_assoc, Nat.add_assoc]
      congr 1
      omega

theorem beNat_beBytes (k n : Nat) : beNat (beBytes k n) = n % 256 ^ k := by
  rw [beNat, foldl_beBytes, Nat.mul_zero, Nat.zero_add]

end BigEndian

section Readers

variable {α : Type}

def readBytes (n : Nat) : Reader (List UInt8) := fun bs =>
  if n ≤ bs.length then some (bs.take n, bs.drop n) else none

def readWord (k : Nat) : Reader Nat := fun bs =>
  (readBytes k bs).map fun p => (beNat p.1, p.2)

def readMany (r : Reader α) : Nat → Reader (List α)
  | 0, bs => some ([], bs)
  | n + 1, bs => do
      let (a, rest) ← r bs
      let (as, rest) ← readMany r n rest
      return (a :: as, rest)

theorem readBytes_append (bs rest : List UInt8) :
    readBytes bs.length (bs ++ rest) = some (bs, rest) := by
  simp [readBytes]

theorem readWord_beBytes (k n : Nat) (rest : List UInt8) :
    readWord k (beBytes k n ++ rest) = some (n % 256 ^ k, rest) := by
  have h := readBytes_append (beBytes k n) rest
  rw [length_beBytes] at h
  rw [readWord, h, Option.map_some, beNat_beBytes]

theorem readBytes_length {n : Nat} {bs out rest : List UInt8}
    (h : readBytes n bs = some (out, rest)) : out.length = n := by
  rw [readBytes] at h
  split at h
  · next hle =>
      cases h
      rw [List.length_take, Nat.min_eq_left hle]
  · cases h

theorem readMany_succ (r : Reader α) (n : Nat) (bs : List UInt8) :
    readMany r (n + 1) bs =
      (r bs).bind fun p => (readMany r n p.2).map fun q => (p.1 :: q.1, q.2) := by
  rw [readMany]
  cases r bs with
  | none => rfl
  | some p =>
      obtain ⟨a, rest⟩ := p
      simp only [Option.bind_eq_bind, Option.bind_some]
      cases readMany r n rest with
      | none => rfl
      | some q => rfl

variable {r : Reader α} {enc : α → List UInt8} {ok : α → Prop}

theorem readMany_flatMap (hok : ∀ a rest, ok a → r (enc a ++ rest) = some (a, rest)) {as : List α}
    (h : ∀ a ∈ as, ok a) (rest : List UInt8) :
    readMany r as.length (as.flatMap enc ++ rest) = some (as, rest) := by
  induction as with
  | nil => rfl
  | cons a as ih =>
      rw [List.length_cons, readMany_succ, List.flatMap_cons, List.append_assoc,
        hok a _ (h a List.mem_cons_self), Option.bind_some,
        ih fun b hb => h b (List.mem_cons_of_mem _ hb)]
      rfl

/-- A list is read back exactly when each of its values is: a value that is not spoils the list
whatever the reader makes of the rest. -/
theorem readMany_flatMap_iff (hok : ∀ a rest, ok a → r (enc a ++ rest) = some (a, rest))
    (hbad : ∀ a rest b tail, ¬ ok a → r (enc a ++ rest) = some (b, tail) → b ≠ a) {as : List α}
    (rest : List UInt8) :
    (∃ tail, readMany r as.length (as.flatMap enc ++ rest) = some (as, tail)) ↔ ∀ a ∈ as, ok a := by
  constructor
  · intro h
    induction as with
    | nil => simp
    | cons a as ih =>
        obtain ⟨tail, htail⟩ := h
        rw [List.length_cons, readMany_succ, List.flatMap_cons, List.append_assoc,
          Option.bind_eq_some_iff] at htail
        obtain ⟨⟨b, rest'⟩, hhead, htail⟩ := htail
        rw [Option.map_eq_some_iff] at htail
        obtain ⟨⟨bs, tail'⟩, hrest, heq⟩ := htail
        simp only [Prod.mk.injEq, List.cons.injEq] at heq
        obtain ⟨⟨rfl, rfl⟩, rfl⟩ := heq
        have ha : ok b := by
          by_contra ha
          exact hbad _ _ _ _ ha hhead rfl
        rw [hok b _ ha] at hhead
        cases hhead
        intro c hc
        rcases List.mem_cons.mp hc with rfl | hc
        · exact ha
        · exact ih ⟨tail', hrest⟩ c hc
  · intro h
    exact ⟨rest, readMany_flatMap hok h rest⟩

end Readers

end SqlOptima.WireFormat
