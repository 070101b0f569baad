import Mathlib.Data.List.Induction
import Mathlib.Logic.Relation

namespace SqlOptima.TransitionSystem

variable {State Label : Type*}

/-- The state a list of labels leads to, when every one of its steps is
enabled. -/
def runSteps (step : State → Label → Option State) : State → List Label → Option State
  | s, [] => some s
  | s, l :: ls => (step s l).bind fun t => runSteps step t ls

/-- `t` is reached from `s` by enabled steps that all meet `ok` in the state
before the step. -/
def ReachesBy (step : State → Label → Option State) (ok : State → Label → Prop) :
    State → State → Prop :=
  Relation.ReflTransGen fun s t => ∃ l, ok s l ∧ step s l = some t

def Reaches (step : State → Label → Option State) : State → State → Prop :=
  ReachesBy step fun _ _ => True

variable {step : State → Label → Option State} {ok : State → Label → Prop}
  {s t u : State}

theorem ReachesBy.refl (s : State) : ReachesBy step ok s s :=
  Relation.ReflTransGen.refl

theorem ReachesBy.trans (hst : ReachesBy step ok s t) (htu : ReachesBy step ok t u) :
    ReachesBy step ok s u :=
  Relation.ReflTransGen.trans hst htu

theorem ReachesBy.reaches (h : ReachesBy step ok s t) : Reaches step s t := by
  apply Relation.ReflTransGen.mono (r := fun a b => ∃ l, ok a l ∧ step a l = some b) _ _ _ h
  rintro a b ⟨l, -, hl⟩
  exact ⟨l, trivial, hl⟩

/-- A predicate that holds at the start and is preserved by every step that
meets `ok` holds in every state such steps reach. -/
theorem ReachesBy.invariant {P : State → Prop} (hst : ReachesBy step ok s t)
    (hinit : P s)
    (hpres : ∀ a l b, P a → ok a l → step a l = some b → P b) : P t := by
  induction hst with
  | refl => exact hinit
  | tail _ hstep ih =>
      obtain ⟨l, hok, hl⟩ := hstep
      exact hpres _ l _ ih hok hl

theorem Reaches.invariant {P : State → Prop} (hst : Reaches step s t)
    (hinit : P s) (hpres : ∀ a l b, P a → step a l = some b → P b) : P t :=
  ReachesBy.invariant hst hinit fun a l b ha _ hl => hpres a l b ha hl

theorem reaches_of_runSteps {ls : List Label} (h : runSteps step s ls = some t) :
    Reaches step s t := by
  induction ls generalizing s with
  | nil =>
      have hst : s = t := by simpa [runSteps] using h
      subst hst
      exact ReachesBy.refl s
  | cons l ls ih =>
      obtain ⟨u, hu, hrest⟩ := Option.bind_eq_some_iff.mp h
      exact Relation.ReflTransGen.head ⟨l, trivial, hu⟩ (ih hrest)

theorem runSteps_append (s : State) (ls ls' : List Label) :
    runSteps step s (ls ++ ls') = (runSteps step s ls).bind fun t => runSteps step t ls' := by
  induction ls generalizing s with
  | nil => rfl
  | cons l ls ih =>
      rw [List.cons_append, runSteps, runSteps, Option.bind_assoc]
      congr 1
      funext t
      exact ih t

theorem length_le_of_decreasing {measure : State → Nat}
    (hdec : ∀ a l b, step a l = some b → measure b < measure a) {ls : List Label}
    (h : runSteps step s ls = some t) : ls.length + measure t ≤ measure s := by
  induction ls generalizing s with
  | nil =>
      cases h
      simp
  | cons l ls ih =>
      obtain ⟨u, hu, hrest⟩ := Option.bind_eq_some_iff.mp h
      have hlt := hdec s l u hu
      have hle := ih hrest
      rw [List.length_cons]
      omega

/-- Every label of an enabled run has a step of its own. -/
theorem exists_step_of_prefix {ls pre : List Label} {l : Label}
    (hrun : (runSteps step s ls).isSome) (hpre : pre ++ [l] <+: ls)
    (ht : runSteps step s pre = some t) :
    ∃ u, step t l = some u ∧ runSteps step s (pre ++ [l]) = some u := by
  obtain ⟨rest, rfl⟩ := hpre
  rw [List.append_assoc, runSteps_append, ht, Option.bind_some, List.singleton_append,
    runSteps, Option.isSome_bind] at hrun
  cases hu : step t l with
  | none => simp [hu] at hrun
  | some u => exact ⟨u, rfl, by simp [runSteps_append, ht, runSteps, hu]⟩

/-- An invariant of the steps that meet `ok` holds all along a run whose steps meet it
wherever the invariant held before. -/
theorem invariant_along {J : State → Prop} (hinit : J s)
    (hpres : ∀ a l b, J a → ok a l → step a l = some b → J b) {ls : List Label}
    (hok : ∀ pre l a, pre ++ [l] <+: ls → runSteps step s pre = some a → J a → ok a l) :
    ∀ pre t, pre <+: ls → runSteps step s pre = some t → J t := by
  intro pre
  induction pre using List.reverseRecOn with
  | nil =>
      intro t _ ht
      cases ht
      exact hinit
  | append_singleton pre l ih =>
      intro t hpre ht
      have hpre' := (List.prefix_append pre [l]).trans hpre
      rw [runSteps_append, Option.bind_eq_some_iff] at ht
      obtain ⟨u, hu, hstep⟩ := ht
      have hJu := ih u hpre' hu
      refine hpres u l t hJu (hok pre l u hpre hu hJu) ?_
      simpa [runSteps] using hstep

/-- Let `J` be kept by the steps that meet `ok`, imply `P`, and let a step from
`J` that leads to `P` meet `ok`. Then along a run `P` holds in every state if
and only if every step meets `ok`. -/
theorem along_run_iff {J P : State → Prop} (hinit : J s) (hJP : ∀ a, J a → P a)
    (hpres : ∀ a l b, J a → ok a l → step a l = some b → J b)
    (hback : ∀ a l b, J a → step a l = some b → P b → ok a l)
    {ls : List Label} (hrun : (runSteps step s ls).isSome) :
    (∀ pre t, pre <+: ls → runSteps step s pre = some t → P t) ↔
      ∀ pre l t, pre ++ [l] <+: ls → runSteps step s pre = some t → ok t l := by
  constructor
  · intro hP
    have hstep : ∀ pre l t, pre ++ [l] <+: ls → runSteps step s pre = some t → J t → ok t l := by
      intro pre l t hpre ht hJt
      obtain ⟨u, hu, hrun'⟩ := exists_step_of_prefix hrun hpre ht
      exact hback t l u hJt hu (hP _ u hpre hrun')
    intro pre l t hpre ht
    exact hstep pre l t hpre ht
      (invariant_along hinit hpres hstep pre t ((List.prefix_append pre [l]).trans hpre) ht)
  · intro hok pre t hpre ht
    exact hJP t
      (invariant_along hinit hpres (fun pre l t hpre ht _ => hok pre l t hpre ht) pre t hpre ht)

/-- The same for a property of the single steps that is `ok` wherever `J` holds. -/
theorem along_steps_iff {J : State → Prop} {Q : State → Label → State → Prop} (hinit : J s)
    (hpres : ∀ a l b, J a → ok a l → step a l = some b → J b)
    (hiff : ∀ a l b, J a → step a l = some b → (Q a l b ↔ ok a l))
    {ls : List Label} (hrun : (runSteps step s ls).isSome) :
    (∀ pre l a b, pre ++ [l] <+: ls → runSteps step s pre = some a → step a l = some b →
      Q a l b) ↔
      ∀ pre l a, pre ++ [l] <+: ls → runSteps step s pre = some a → ok a l := by
  constructor
  · intro hQ
    have hstep : ∀ pre l a, pre ++ [l] <+: ls → runSteps step s pre = some a → J a → ok a l := by
      intro pre l a hpre ha hJa
      obtain ⟨b, hb, -⟩ := exists_step_of_prefix hrun hpre ha
      exact (hiff a l b hJa hb).mp (hQ pre l a b hpre ha hb)
    intro pre l a hpre ha
    exact hstep pre l a hpre ha
      (invariant_along hinit hpres hstep pre a ((List.prefix_append pre [l]).trans hpre) ha)
  · intro hok pre l a b hpre ha hb
    have hJa := invariant_along hinit hpres (fun pre l t hpre ht _ => hok pre l t hpre ht) pre a
      ((List.prefix_append pre [l]).trans hpre) ha
    exact (hiff a l b hJa hb).mpr (hok pre l a hpre ha)

/-- What every step of a run keeps, later states of the run have too. -/
theorem persists_along {P : State → Prop} {ls : List Label}
    (hkeep : ∀ pre l a b, pre ++ [l] <+: ls → runSteps step s pre = some a →
      step a l = some b → P a → P b)
    {pre post : List Label} (hpre : pre ++ post <+: ls) {a b : State}
    (ha : runSteps step s pre = some a) (hb : runSteps step s (pre ++ post) = some b)
    (hP : P a) : P b := by
  induction post using List.reverseRecOn generalizing b with
  | nil =>
      rw [List.append_nil, ha] at hb
      cases hb
      exact hP
  | append_singleton post l ih =>
      rw [← List.append_assoc] at hpre hb
      have hpre' := (List.prefix_append (pre ++ post) [l]).trans hpre
      rw [runSteps_append, Option.bind_eq_some_iff] at hb
      obtain ⟨c, hc, hstep⟩ := hb
      refine hkeep (pre ++ post) l c b hpre hc ?_ (ih hpre' hc)
      simpa [runSteps] using hstep

/-- A condition on the labels alone is met along an enabled run when all of its
labels meet it. -/
theorem along_labels_iff {Q : Label → Prop} {ls : List Label}
    (hrun : (runSteps step s ls).isSome) :
    (∀ pre l t, pre ++ [l] <+: ls → runSteps step s pre = some t → Q l) ↔ ∀ l ∈ ls, Q l := by
  constructor
  · intro h l hl
    obtain ⟨pre, rest, rfl⟩ := List.append_of_mem hl
    rw [runSteps_append, Option.isSome_bind] at hrun
    obtain ⟨t, ht⟩ := Option.isSome_iff_exists.mp (Option.isSome_of_any hrun)
    exact h pre l t ⟨rest, (List.append_cons pre l rest).symm⟩ ht
  · intro h pre l t hpre _
    exact h l (hpre.subset (by simp))

theorem runSteps_total (f : State → Label → State) (s : State) (ls : List Label) :
    runSteps (fun s l => some (f s l)) s ls = some (ls.foldl f s) := by
  induction ls generalizing s with
  | nil => rfl
  | cons l ls ih => exact ih (f s l)

/-- The same for a step that is always enabled. -/
theorem along_foldl_iff {f : State → Label → State} {J P : State → Prop} (hinit : J s)
    (hJP : ∀ a, J a → P a) (hpres : ∀ a l, J a → ok a l → J (f a l))
    (hback : ∀ a l, J a → P (f a l) → ok a l) (ls : List Label) :
    (∀ pre, pre <+: ls → P (pre.foldl f s)) ↔
      ∀ pre l, pre ++ [l] <+: ls → ok (pre.foldl f s) l := by
  have hiff : (∀ pre t, pre <+: ls → runSteps (fun s l => some (f s l)) s pre = some t → P t) ↔
      ∀ pre l t, pre ++ [l] <+: ls → runSteps (fun s l => some (f s l)) s pre = some t →
        ok t l := by
    refine along_run_iff hinit hJP ?_ ?_ (by rw [runSteps_total]; rfl)
    · rintro a l b ha hok hb
      cases hb
      exact hpres a l ha hok
    · rintro a l b ha hb hP
      cases hb
      exact hback a l ha hP
  simp only [runSteps_total, Option.some.injEq] at hiff
  constructor
  · intro hP pre l hpre
    exact hiff.mp (fun pre t hpre ht => ht ▸ hP pre hpre) pre l _ hpre rfl
  · intro hok pre hpre
    exact hiff.mpr (fun pre l t hpre ht => ht ▸ hok pre l hpre) pre _ hpre rfl

def guarded (ok : State → Label → Bool) (step : State → Label → Option State) (s : State)
    (l : Label) : Option State :=
  if ok s l then step s l else none

theorem reachesBy_of_guarded {ok : State → Label → Bool}
    (h : Reaches (guarded ok step) s t) : ReachesBy step (fun s l => ok s l = true) s t := by
  apply Relation.ReflTransGen.mono
    (r := fun a b => ∃ l, True ∧ guarded ok step a l = some b) _ _ _ h
  rintro a b ⟨l, -, hl⟩
  rw [guarded] at hl
  split at hl
  · rename_i hok
    exact ⟨l, hok, hl⟩
  · cases hl

end SqlOptima.TransitionSystem
