import Mathlib.Data.List.Basic

namespace SqlOptima.SeparatorScan

/-!
# Splitting a text where a scan says so

A scanner reads a text from its start, with one character of lookahead, and cuts it at a separator
in some of its states. A cut puts it back to its first state, and a separator ahead is no other than
the end of the text.
-/

structure Scanner (σ α : Type*) where
  separator : α
  start : σ
  step : σ → α → Option α → σ
  cuts : σ → α → Bool
  separator_of_cuts : ∀ s c, cuts s c = true → c = separator
  step_of_cuts : ∀ s c next, cuts s c = true → step s c next = start
  step_separator : ∀ s c, step s c (some separator) = step s c none

variable {σ α : Type*} (scanner : Scanner σ α)

namespace Scanner

def piecesFrom : σ → List α → List α → List (List α)
  | _, current, [] => [current]
  | s, current, c :: rest =>
      if scanner.cuts s c then current :: piecesFrom (scanner.step s c rest.head?) [] rest
      else piecesFrom (scanner.step s c rest.head?) (current ++ [c]) rest

def pieces (text : List α) : List (List α) := scanner.piecesFrom scanner.start [] text

/-- The state after a part of the text, before a separator or the end. -/
def after (s : σ) : List α → σ
  | [] => s
  | c :: rest => after (scanner.step s c rest.head?) rest

/-- The scan does not cut within the part. -/
def Uncut (s : σ) : List α → Prop
  | [] => True
  | c :: rest => scanner.cuts s c = false ∧ Uncut (scanner.step s c rest.head?) rest

instance decidableUncut : (s : σ) → (part : List α) → Decidable (scanner.Uncut s part)
  | _, [] => isTrue trivial
  | s, c :: rest =>
      have : Decidable (scanner.Uncut (scanner.step s c rest.head?) rest) := decidableUncut _ rest
      inferInstanceAs (Decidable (_ ∧ _))

/-- The scan would cut at a separator after the part. -/
def Closed (part : List α) : Prop :=
  scanner.cuts (scanner.after scanner.start part) scanner.separator = true

def join (parts : List (List α)) : List α := [scanner.separator].intercalate parts

variable {scanner} {s : σ} {current part text rest : List α} {parts : List (List α)}

attribute [local simp] piecesFrom in
theorem join_cons_cons (p q : List α) (parts : List (List α)) :
    scanner.join (p :: q :: parts) = p ++ scanner.separator :: scanner.join (q :: parts) := by
  rw [join, List.intercalate_cons_cons, List.append_assoc, List.singleton_append, join]

theorem join_singleton (p : List α) : scanner.join [p] = p := by
  rw [join, List.intercalate_singleton]

theorem piecesFrom_ne_nil (s : σ) (current text : List α) :
    scanner.piecesFrom s current text ≠ [] := by
  induction text generalizing s current with
  | nil => exact List.cons_ne_nil _ _
  | cons c rest ih =>
      rw [piecesFrom]
      split
      · exact List.cons_ne_nil _ _
      · exact ih _ _

theorem step_head_append (c : α) (part rest : List α) :
    scanner.step s c (part ++ scanner.separator :: rest).head? = scanner.step s c part.head? := by
  cases part with
  | nil => exact scanner.step_separator s c
  | cons d part => rfl

/-- The scan of a part that it does not cut, up to the separator after it. -/
theorem piecesFrom_append (h : scanner.Uncut s part) (current rest : List α) :
    scanner.piecesFrom s current (part ++ scanner.separator :: rest) =
      scanner.piecesFrom (scanner.after s part) (current ++ part) (scanner.separator :: rest) := by
  induction part generalizing s current with
  | nil => rw [List.nil_append, List.append_nil, after]
  | cons c part ih =>
      obtain ⟨hcut, hrest⟩ := h
      rw [List.cons_append, piecesFrom, hcut, if_neg Bool.false_ne_true, step_head_append,
        ih hrest, List.append_assoc, List.singleton_append, after]

theorem piecesFrom_of_uncut (h : scanner.Uncut s part) (current : List α) :
    scanner.piecesFrom s current part = [current ++ part] := by
  induction part generalizing s current with
  | nil => rw [List.append_nil, piecesFrom]
  | cons c part ih =>
      rw [piecesFrom, h.1, if_neg Bool.false_ne_true, ih h.2, List.append_assoc,
        List.singleton_append]

/-- The first piece of a text: all of it, or what stands before the first cut. -/
theorem exists_first (s : σ) (current text : List α) :
    (scanner.Uncut s text ∧ scanner.piecesFrom s current text = [current ++ text]) ∨
      ∃ part rest, text = part ++ scanner.separator :: rest ∧ scanner.Uncut s part ∧
        scanner.cuts (scanner.after s part) scanner.separator = true ∧
        scanner.piecesFrom s current text = (current ++ part) :: scanner.pieces rest := by
  induction text generalizing s current with
  | nil => exact Or.inl ⟨trivial, by rw [piecesFrom, List.append_nil]⟩
  | cons c text ih =>
      rw [piecesFrom]
      cases hcut : scanner.cuts s c with
      | true =>
          obtain rfl := scanner.separator_of_cuts s c hcut
          refine Or.inr ⟨[], text, rfl, trivial, hcut, ?_⟩
          rw [if_pos rfl, List.append_nil, scanner.step_of_cuts s _ _ hcut, pieces]
      | false =>
          rw [if_neg Bool.false_ne_true]
          rcases ih (scanner.step s c text.head?) (current ++ [c]) with
            ⟨huncut, heq⟩ | ⟨part, rest, rfl, huncut, hclosed, heq⟩
          · refine Or.inl ⟨⟨hcut, huncut⟩, ?_⟩
            rw [heq, List.append_assoc, List.singleton_append]
          · rw [step_head_append] at huncut hclosed
            refine Or.inr ⟨c :: part, rest, rfl, ⟨hcut, huncut⟩, hclosed, ?_⟩
            rw [heq, List.append_assoc, List.singleton_append]

theorem join_pieces (text : List α) : scanner.join (scanner.pieces text) = text := by
  induction hn : text.length using Nat.strongRecOn generalizing text with
  | ind n ih =>
      rcases @exists_first _ _ scanner scanner.start [] text with
        ⟨-, heq⟩ | ⟨part, rest, rfl, -, -, heq⟩
      · rw [pieces, heq, join_singleton, List.nil_append]
      · obtain ⟨q, qs, hqs⟩ := List.exists_cons_of_ne_nil
          (@piecesFrom_ne_nil _ _ scanner scanner.start [] rest)
        have hlt : rest.length < n := by
          rw [← hn, List.length_append, List.length_cons]
          omega
        have hrest := ih rest.length hlt rest rfl
        rw [pieces, heq, List.nil_append]
        rw [pieces, hqs] at hrest ⊢
        rw [join_cons_cons, hrest]

/-- The scan of a text comes, without a cut, to a state before what is left of the text. -/
structure Reaches (scanner : Scanner σ α) (s : σ) (text : List α) (s' : σ) (rest : List α) :
    Prop where
  after_eq : scanner.after s text = scanner.after s' rest
  uncut : scanner.Uncut s' rest → scanner.Uncut s text

theorem Reaches.trans {s' s'' : σ} {rest' : List α} (h : scanner.Reaches s text s' rest)
    (h' : scanner.Reaches s' rest s'' rest') : scanner.Reaches s text s'' rest' where
  after_eq := h.after_eq.trans h'.after_eq
  uncut := h.uncut ∘ h'.uncut

theorem reaches_cons {c : α} (h : scanner.cuts s c = false) (rest : List α) :
    scanner.Reaches s (c :: rest) (scanner.step s c rest.head?) rest where
  after_eq := rfl
  uncut := fun hrest => ⟨h, hrest⟩

/-- The scan cuts no part, and closes every part that a separator comes after. -/
def Separable (scanner : Scanner σ α) (parts : List (List α)) : Prop :=
  (∀ p ∈ parts, scanner.Uncut scanner.start p) ∧ ∀ p ∈ parts.dropLast, scanner.Closed p

/-- Splitting a joined text gives the parts back exactly when the scan cuts none of them and closes
all but the last. -/
theorem pieces_join_iff (h : parts ≠ []) :
    scanner.pieces (scanner.join parts) = parts ↔ scanner.Separable parts := by
  unfold Separable
  induction parts with
  | nil => exact absurd rfl h
  | cons p parts ih =>
      cases parts with
      | nil =>
          rw [join_singleton]
          constructor
          · intro heq
            rcases @exists_first _ _ scanner scanner.start [] p with
              ⟨huncut, -⟩ | ⟨part, rest, -, -, -, hsplit⟩
            · exact ⟨fun q hq => List.mem_singleton.mp hq ▸ huncut, nofun⟩
            · rw [pieces, hsplit] at heq
              exact absurd (List.cons.inj heq).2 (piecesFrom_ne_nil _ _ _)
          · rintro ⟨huncut, -⟩
            rw [pieces, piecesFrom_of_uncut (huncut p List.mem_cons_self), List.nil_append]
      | cons q parts =>
          have hrest := ih (List.cons_ne_nil q parts)
          rw [join_cons_cons, List.dropLast_cons_cons]
          constructor
          · intro heq
            rcases @exists_first _ _ scanner scanner.start []
                (p ++ scanner.separator :: scanner.join (q :: parts)) with
              ⟨-, hwhole⟩ | ⟨part, rest, htext, huncut, hclosed, hsplit⟩
            · rw [pieces, hwhole] at heq
              cases (List.cons.inj heq).2
            · rw [pieces, hsplit, List.nil_append] at heq
              obtain ⟨rfl, hpieces⟩ := List.cons.inj heq
              obtain rfl := (List.cons.inj (List.append_cancel_left htext)).2
              obtain ⟨hall, hclosed'⟩ := hrest.mp hpieces
              exact ⟨List.forall_mem_cons.mpr ⟨huncut, hall⟩,
                List.forall_mem_cons.mpr ⟨hclosed, hclosed'⟩⟩
          · rintro ⟨huncuts, hcloseds⟩
            obtain ⟨huncut, hall⟩ := List.forall_mem_cons.mp huncuts
            obtain ⟨hclosed, hclosed'⟩ := List.forall_mem_cons.mp hcloseds
            have hcut : scanner.cuts (scanner.after scanner.start p) scanner.separator = true :=
              hclosed
            rw [pieces, piecesFrom_append huncut, piecesFrom, hcut, if_pos rfl,
              scanner.step_of_cuts _ _ _ hcut, List.nil_append]
            exact congrArg (p :: ·) (hrest.mpr ⟨hall, hclosed'⟩)

end Scanner

end SqlOptima.SeparatorScan
