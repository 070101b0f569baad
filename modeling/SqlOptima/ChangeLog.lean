import Mathlib.Data.List.Basic
import Mathlib.Order.Basic
import Mathlib.Order.Lattice

set_option linter.dupNamespace false

namespace SqlOptima.ChangeLog

/-!
# Reading an ordered log by position

A reader keeps a position, reads the first rows after it, and moves to the
position of the last row read. Several rows may share one position, so a read
that is cut inside such a group leaves rows behind for good.
-/

variable {Row Pos : Type*} [LinearOrder Pos] (pos : Row → Pos)

def after (log : List Row) (p : Pos) : List Row :=
  log.filter fun r => p < pos r

/-- The rows after `p`, up to and including `q`. -/
def window (log : List Row) (p q : Pos) : List Row :=
  log.filter fun r => p < pos r ∧ pos r ≤ q

def read (log : List Row) (p : Pos) (n : Nat) : List Row :=
  (after pos log p).take n

/-- What a read of at most `n` rows leaves behind its cut. -/
def unread (log : List Row) (p : Pos) (n : Nat) : List Row :=
  (after pos log p).drop n

def lastPos (p : Pos) : List Row → Pos
  | [] => p
  | r :: rs => lastPos (pos r) rs

def Ordered (log : List Row) : Prop :=
  log.Pairwise fun r r' => pos r ≤ pos r'

section Windows

variable {pos}

theorem mem_after {log : List Row} {p : Pos} {r : Row} :
    r ∈ after pos log p ↔ r ∈ log ∧ p < pos r := by
  simp [after]

theorem mem_window {log : List Row} {p q : Pos} {r : Row} :
    r ∈ window pos log p q ↔ r ∈ log ∧ p < pos r ∧ pos r ≤ q := by
  simp [window]

theorem window_eq_filter_after (log : List Row) (p q : Pos) :
    window pos log p q = (after pos log p).filter fun r => pos r ≤ q := by
  rw [window, after, List.filter_filter]
  congr 1
  funext r
  rw [Bool.decide_and, Bool.and_comm]

theorem window_append_of_lt {log new : List Row} {p q : Pos}
    (hnew : ∀ r ∈ new, p < pos r → q < pos r) :
    window pos (log ++ new) p q = window pos log p q := by
  rw [window, List.filter_append]
  have hnil : new.filter (fun r => decide (p < pos r ∧ pos r ≤ q)) = [] := by
    rw [List.filter_eq_nil_iff]
    intro r hr
    simp only [decide_eq_true_eq, not_and, not_le]
    exact hnew r hr
  rw [hnil, List.append_nil, window]

theorem window_cons (x : Row) (xs : List Row) (p q : Pos) :
    window pos (x :: xs) p q =
      if p < pos x ∧ pos x ≤ q then x :: window pos xs p q else window pos xs p q := by
  simp only [window, List.filter_cons, decide_eq_true_eq]

theorem window_append_window {log : List Row} (hlog : Ordered pos log) {p q r : Pos}
    (hpq : p ≤ q) (hqr : q ≤ r) :
    window pos log p q ++ window pos log q r = window pos log p r := by
  induction log with
  | nil => rfl
  | cons x xs ih =>
      obtain ⟨hx, hxs⟩ := List.pairwise_cons.mp hlog
      specialize ih hxs
      rcases le_or_gt (pos x) q with hxq | hxq
      · rw [window_cons x xs q r, if_neg fun h => absurd h.1 (not_lt.mpr hxq)]
        by_cases hpx : p < pos x
        · rw [window_cons, if_pos ⟨hpx, hxq⟩, window_cons, if_pos ⟨hpx, hxq.trans hqr⟩,
            List.cons_append, ih]
        · rw [window_cons, if_neg fun h => hpx h.1, window_cons, if_neg fun h => hpx h.1, ih]
      · have hbeyond : ∀ y ∈ x :: xs, q < pos y := by
          intro y hy
          rcases List.mem_cons.mp hy with rfl | hy
          · exact hxq
          · exact hxq.trans_le (hx y hy)
        have hnil : window pos (x :: xs) p q = [] := by
          rw [List.eq_nil_iff_forall_not_mem]
          intro y hy
          obtain ⟨hmem, -, hle⟩ := mem_window.mp hy
          exact absurd hle (not_le.mpr (hbeyond y hmem))
        rw [hnil, List.nil_append]
        refine List.filter_congr fun y hy => ?_
        have hqy := hbeyond y hy
        simp [hqy, hpq.trans_lt hqy]

theorem window_eq_nil_of_le (log : List Row) {p q : Pos} (h : q ≤ p) : window pos log p q = [] := by
  rw [List.eq_nil_iff_forall_not_mem]
  intro r hr
  obtain ⟨-, hpr, hrq⟩ := mem_window.mp hr
  exact absurd (hpr.trans_le (hrq.trans h)) (lt_irrefl p)

theorem window_move {log : List Row} (hlog : Ordered pos log) {p q : Pos} (hpq : p ≤ q)
    (start : Pos) :
    window pos log start q =
      window pos log start p ++ (window pos log p q).filter fun r => start < pos r := by
  rcases le_total start p with hsp | hps
  · have hall : (window pos log p q).filter (fun r => start < pos r) = window pos log p q := by
      rw [List.filter_eq_self]
      intro r hr
      exact decide_eq_true (hsp.trans_lt (mem_window.mp hr).2.1)
    rw [hall, window_append_window hlog hsp hpq]
  · rw [window_eq_nil_of_le log hps, List.nil_append, window, window, List.filter_filter]
    refine List.filter_congr fun r _ => ?_
    by_cases hr : start < pos r
    · simp [hr, hps.trans_lt hr]
    · simp [hr]

end Windows

section LastPos

variable {pos}

omit [LinearOrder Pos] in
theorem lastPos_comp {Pos' : Type*} (g : Pos → Pos') (p : Pos) (rs : List Row) :
    lastPos (fun r => g (pos r)) (g p) rs = g (lastPos pos p rs) := by
  induction rs generalizing p with
  | nil => rfl
  | cons r rs ih => exact ih (pos r)

omit [LinearOrder Pos] in
theorem lastPos_of_ne_nil {rs : List Row} (h : rs ≠ []) (p q : Pos) :
    lastPos pos p rs = lastPos pos q rs := by
  cases rs with
  | nil => exact absurd rfl h
  | cons r rs => rfl

omit [LinearOrder Pos] in
theorem lastPos_eq (pos : Row → Pos) (p : Pos) (rs : List Row) :
    lastPos pos p rs = p ∨ ∃ r ∈ rs, lastPos pos p rs = pos r := by
  induction rs generalizing p with
  | nil => exact Or.inl rfl
  | cons r rs ih =>
      rcases ih (pos r) with h | ⟨r', hr', h⟩
      · exact Or.inr ⟨r, List.mem_cons_self .., h⟩
      · exact Or.inr ⟨r', List.mem_cons_of_mem _ hr', h⟩

theorem le_lastPos {p : Pos} {rs : List Row}
    (hp : ∀ r ∈ rs, p ≤ pos r) : p ≤ lastPos pos p rs := by
  rcases lastPos_eq pos p rs with h | ⟨r, hr, h⟩
  · exact h.ge
  · exact h ▸ hp r hr

theorem mem_le_lastPos {p : Pos} {rs : List Row} (hrs : Ordered pos rs) {r : Row}
    (hr : r ∈ rs) : pos r ≤ lastPos pos p rs := by
  induction rs generalizing p with
  | nil => cases hr
  | cons x xs ih =>
      obtain ⟨hx, hxs⟩ := List.pairwise_cons.mp hrs
      rcases List.mem_cons.mp hr with rfl | hr
      · exact le_lastPos hx
      · exact ih hxs hr

end LastPos

section Read

variable {pos}

theorem ordered_after {log : List Row} (hlog : Ordered pos log) (p : Pos) :
    Ordered pos (after pos log p) :=
  hlog.sublist List.filter_sublist

theorem ordered_read {log : List Row} (hlog : Ordered pos log) (p : Pos) (n : Nat) :
    Ordered pos (read pos log p n) :=
  (ordered_after hlog p).sublist (List.take_sublist _ _)

theorem mem_read {log : List Row} {p : Pos} {n : Nat} {r : Row} (h : r ∈ read pos log p n) :
    r ∈ log ∧ p < pos r :=
  mem_after.mp (List.mem_of_mem_take h)

theorem le_lastPos_read (log : List Row) (p : Pos) (n : Nat) :
    p ≤ lastPos pos p (read pos log p n) :=
  le_lastPos fun _ hr => (mem_read hr).2.le

theorem window_lastPos_read {log : List Row} (hlog : Ordered pos log) (p : Pos) (n : Nat) :
    window pos log p (lastPos pos p (read pos log p n)) =
      read pos log p n ++
        (unread pos log p n).filter fun r => pos r ≤ lastPos pos p (read pos log p n) := by
  have hsplit : after pos log p = read pos log p n ++ unread pos log p n :=
    (List.take_append_drop n _).symm
  rw [window_eq_filter_after]
  conv_lhs => rw [hsplit]
  rw [List.filter_append]
  congr 1
  rw [List.filter_eq_self]
  intro r hr
  exact decide_eq_true (mem_le_lastPos (ordered_read hlog p n) hr)

/-- A read loses none of the rows in `wanted`: those behind its cut lie beyond
the position it moves to. -/
def CleanCut (pos : Row → Pos) (wanted : Row → Bool) (log : List Row) (p : Pos) (n : Nat) : Prop :=
  ∀ r ∈ unread pos log p n, wanted r = true → lastPos pos p (read pos log p n) < pos r

instance (wanted : Row → Bool) (log : List Row) (p : Pos) (n : Nat) :
    Decidable (CleanCut pos wanted log p n) :=
  inferInstanceAs (Decidable (∀ r ∈ unread pos log p n, _ → _))

/-- The changes in the window a read moves over are those it read, if and only
if its cut is clean. -/
theorem filterMap_window_read_iff {log : List Row} (hlog : Ordered pos log) {Change : Type*}
    (change : Row → Option Change) (p : Pos) (n : Nat) :
    (window pos log p (lastPos pos p (read pos log p n))).filterMap change =
        (read pos log p n).filterMap change ↔
      CleanCut pos (fun r => (change r).isSome) log p n := by
  rw [window_lastPos_read hlog, List.filterMap_append, List.append_right_eq_self,
    List.filterMap_eq_nil_iff, CleanCut]
  constructor
  · intro h r hr hw
    by_contra hle
    have hnone : change r = none := by
      apply h
      rw [List.mem_filter]
      exact ⟨hr, decide_eq_true (not_lt.mp hle)⟩
    rw [hnone] at hw
    cases hw
  · intro h r hr
    obtain ⟨hr, hle⟩ := List.mem_filter.mp hr
    by_contra hne
    have hw : (change r).isSome = true := Option.isSome_iff_ne_none.mpr hne
    exact absurd (of_decide_eq_true hle) (not_le.mpr (h r hr hw))

end Read

end SqlOptima.ChangeLog
