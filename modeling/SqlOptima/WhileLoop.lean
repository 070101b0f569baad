import Mathlib.Order.Basic

namespace SqlOptima.WhileLoop

/-!
# Loops that break

A turn of a loop ends it or hands a state to the next turn.
-/

inductive Turn (State : Type*) where
  | stop (s : State)
  | next (s : State)

variable {State : Type*} {turn : State → Turn State}

/-- At most `n` turns. -/
def run (turn : State → Turn State) : Nat → State → Option State
  | 0, _ => none
  | n + 1, s =>
      match turn s with
      | .stop t => some t
      | .next t => run turn n t

/-- The loop ends, in the given state. -/
def Finishes (turn : State → Turn State) (s t : State) : Prop := ∃ n, run turn n s = some t

theorem finishes_of_stop {s t : State} (h : turn s = .stop t) : Finishes turn s t :=
  ⟨1, by rw [run, h]⟩

theorem finishes_of_next {s t u : State} (h : turn s = .next t) (htu : Finishes turn t u) :
    Finishes turn s u := by
  obtain ⟨n, hn⟩ := htu
  exact ⟨n + 1, by rw [run, h, ← hn]⟩

theorem Finishes.unique {s t u : State} (ht : Finishes turn s t) (hu : Finishes turn s u) :
    t = u := by
  obtain ⟨n, hn⟩ := ht
  obtain ⟨m, hm⟩ := hu
  induction n generalizing s m with
  | zero => cases hn
  | succ n ih =>
      cases m with
      | zero => cases hm
      | succ m =>
          rw [run] at hn hm
          cases hturn : turn s with
          | stop v =>
              rw [hturn] at hn hm
              exact Option.some.inj (hn.symm.trans hm)
          | next v =>
              rw [hturn] at hn hm
              exact ih hn m hm

/-- A loop whose turns keep an invariant and lower a measure ends, and what a last turn makes
of the invariant holds at the end. -/
theorem exists_finishes {I Q : State → Prop} (measure : State → Nat)
    (hstop : ∀ s t, I s → turn s = .stop t → Q t)
    (hnext : ∀ s t, I s → turn s = .next t → I t ∧ measure t < measure s)
    {s : State} (hs : I s) : ∃ t, Finishes turn s t ∧ Q t := by
  induction hm : measure s using Nat.strongRecOn generalizing s with
  | ind m ih =>
      cases hturn : turn s with
      | stop t => exact ⟨t, finishes_of_stop hturn, hstop s t hs hturn⟩
      | next t =>
          obtain ⟨ht, hlt⟩ := hnext s t hs hturn
          obtain ⟨u, hu, hQ⟩ := ih (measure t) (hm ▸ hlt) ht rfl
          exact ⟨u, finishes_of_next hturn hu, hQ⟩

end SqlOptima.WhileLoop
