import SqlOptima.ColumnMasking
import SqlOptima.PythonTransforms

namespace SqlOptima.TransformChains

open SqlOptima.ColumnTransforms
open SqlOptima.ColumnMasking
open SqlOptima.PythonTransforms (PyError builtInTransforms typeDefaults lower sensitivityName
  registerTypeDefault registerSensitivity registerExplicit fromSensitivityMap mergeMasks compose buildPipelineForPlan)

abbrev PyPipeline := PythonTransforms.Pipeline

section Tables

theorem builtInTransforms_eq : builtInTransforms = lookupTransform := rfl

theorem sensitivityDefaultMask_getD (sensitivity : String) :
    (PythonTransforms.sensitivityDefaultMask sensitivity).getD "" =
      sensitivityDefaultMask sensitivity := by
  unfold PythonTransforms.sensitivityDefaultMask sensitivityDefaultMask
  split
  · rfl
  · rfl
  · rfl
  · rfl
  · simp [*]

end Tables

section Register

variable {p : PyPipeline} {col c : String} {t : Transform}

/-- A pipeline has an entry for each column with a transform and no other. -/
structure Filled (p : PyPipeline) : Prop where
  nonempty : ∀ e ∈ p, e.2 ≠ []
  nodup : (p.map Prod.fst).Nodup

theorem filled_nil : Filled [] := ⟨by simp, List.nodup_nil⟩

theorem lookup_map_append (p : PyPipeline) (col c : String) (t : Transform) :
    (p.map fun e => if e.1 = col then (e.1, e.2 ++ [t]) else e).lookup c =
      (p.lookup c).map fun ts => if c = col then ts ++ [t] else ts := by
  induction p with
  | nil => rfl
  | cons e p ih =>
      obtain ⟨key, ts⟩ := e
      by_cases hc : c = key
      · subst hc
        by_cases hcol : c = col
        · simp only [List.map_cons, if_pos hcol, List.lookup_cons_self, Option.map_some]
        · simp only [List.map_cons, if_neg hcol, List.lookup_cons_self, Option.map_some]
      · have hbeq : (c == key) = false := beq_eq_false_iff_ne.mpr hc
        have hbeq' : (c == (if key = col then (key, ts ++ [t]) else (key, ts)).1) = false := by
          split
          · exact hbeq
          · exact hbeq
        rw [List.map_cons, List.lookup_cons, hbeq', List.lookup_cons, hbeq, ih]

theorem lookup_eq_none_iff_notMem : p.lookup col = none ↔ col ∉ p.map Prod.fst := by
  rw [List.lookup_eq_none_iff, List.mem_map]
  constructor
  · rintro h ⟨e, he, rfl⟩
    simpa using h e he
  · intro h e he
    rw [bne_iff_ne]
    rintro rfl
    exact h ⟨e, he, rfl⟩

theorem transforms_registerFn :
    (p.registerFn col t).transforms c =
      if c = col then p.transforms col ++ [t] else p.transforms c := by
  unfold PythonTransforms.Pipeline.registerFn PythonTransforms.Pipeline.transforms
  split
  · next hmem =>
      rw [lookup_map_append]
      by_cases hc : c = col
      · subst hc
        cases hlookup : List.lookup c p with
        | none => exact absurd hmem (lookup_eq_none_iff_notMem.mp hlookup)
        | some ts => simp
      · rw [if_neg hc]
        simp [hc]
  · next hmem =>
      have hnone := lookup_eq_none_iff_notMem.mpr hmem
      rw [List.lookup_append]
      by_cases hc : c = col
      · subst hc
        simp [hnone]
      · have hbeq : (c == col) = false := beq_eq_false_iff_ne.mpr hc
        rw [if_neg hc, List.lookup_cons, hbeq]
        simp

theorem filled_registerFn (h : Filled p) : Filled (p.registerFn col t) := by
  unfold PythonTransforms.Pipeline.registerFn
  split
  · constructor
    · intro e he
      obtain ⟨d, hd, rfl⟩ := List.mem_map.mp he
      split
      · simp
      · exact h.nonempty d hd
    · have hkeys : ((p.map fun e => if e.1 = col then (e.1, e.2 ++ [t]) else e).map Prod.fst) =
          p.map Prod.fst := by
        rw [List.map_map]
        apply List.map_congr_left
        intro e _
        rw [Function.comp_apply]
        split
        · rfl
        · rfl
      rw [hkeys]
      exact h.nodup
  · next hmem =>
      constructor
      · intro e he
        rcases List.mem_append.mp he with he | he
        · exact h.nonempty e he
        · rw [List.mem_singleton.mp he]
          simp
      · rw [List.map_append, List.map_singleton, List.nodup_append]
        refine ⟨h.nodup, List.nodup_singleton _, ?_⟩
        intro a ha b hb
        rw [List.mem_singleton.mp hb]
        rintro rfl
        exact hmem ha

theorem mem_keys_iff (h : Filled p) : col ∈ p.map Prod.fst ↔ p.transforms col ≠ [] := by
  rw [← not_iff_not, ← lookup_eq_none_iff_notMem, not_not, PythonTransforms.Pipeline.transforms]
  cases hlookup : p.lookup col with
  | none => simp
  | some ts =>
      have hmem : (col, ts) ∈ p := by
        obtain ⟨before, after, heq, -⟩ := List.lookup_eq_some_iff.mp hlookup
        rw [heq]
        simp
      simpa using h.nonempty _ hmem

end Register

section Passes

/-- A pass over a map that gives a column what `g` makes of its entry and of the
transforms it has. -/
def Rewrites (f : PyPipeline → String × String → Except PyError PyPipeline)
    (g : String → String → List Transform → List Transform) (entry : String × String) : Prop :=
  ∀ p, Filled p → ∃ q, f p entry = .ok q ∧ Filled q ∧
    ∀ c, q.transforms c = if c = entry.1 then g c entry.2 (p.transforms c) else p.transforms c

theorem foldlM_rewrites {f : PyPipeline → String × String → Except PyError PyPipeline}
    {g : String → String → List Transform → List Transform} {entries : List (String × String)}
    (hf : ∀ e ∈ entries, Rewrites f g e) (hnodup : (entries.map Prod.fst).Nodup) {p : PyPipeline}
    (hp : Filled p) :
    ∃ q, entries.foldlM f p = .ok q ∧ Filled q ∧
      ∀ c, q.transforms c =
        (entries.lookup c).elim (p.transforms c) fun v => g c v (p.transforms c) := by
  induction entries generalizing p with
  | nil => exact ⟨p, rfl, hp, fun _ => rfl⟩
  | cons e entries ih =>
      rw [List.map_cons, List.nodup_cons] at hnodup
      obtain ⟨r, hr, hfilled, hstep⟩ := hf e List.mem_cons_self p hp
      obtain ⟨q, hq, hfilled', hrest⟩ :=
        ih (fun e he => hf e (List.mem_cons_of_mem _ he)) hnodup.2 hfilled
      refine ⟨q, ?_, hfilled', ?_⟩
      · rw [List.foldlM_cons, hr]
        exact hq
      · intro c
        rw [hrest, hstep, List.lookup_cons]
        by_cases hc : c = e.1
        · have hnone : entries.lookup c = none := by
            rw [List.lookup_eq_none_iff]
            intro d hd
            rw [bne_iff_ne]
            rintro rfl
            exact hnodup.1 (hc ▸ List.mem_map_of_mem hd)
          rw [hnone, if_pos hc, beq_iff_eq.mpr hc]
          rfl
        · rw [if_neg hc, beq_eq_false_iff_ne.mpr hc]

/-- A pass that registers the transform a name stands for, where there is one. -/
theorem rewrites_register {f : PyPipeline → String × String → Except PyError PyPipeline}
    {g : String → String → List Transform → List Transform} {e : String × String}
    (name : Option String)
    (hf : ∀ p, f p e = match name with | none => .ok p | some n => p.register e.1 n)
    (hname : ∀ n ∈ name, (lookupTransform n).isSome)
    (hg : ∀ chain, g e.1 e.2 chain = chain ++ (name.bind lookupTransform).toList) :
    Rewrites f g e := by
  intro p hp
  rw [hf]
  cases name with
  | none =>
      refine ⟨p, rfl, hp, ?_⟩
      intro c
      split
      · next hc => rw [hc, hg, Option.bind_none, Option.toList_none, List.append_nil]
      · rfl
  | some n =>
      obtain ⟨t, ht⟩ := Option.isSome_iff_exists.mp (hname n rfl)
      refine ⟨p.registerFn e.1 t, ?_, filled_registerFn hp, ?_⟩
      · simp only [PythonTransforms.Pipeline.register, builtInTransforms_eq, ht]
      · intro c
        rw [transforms_registerFn]
        split
        · next hc => rw [hc, hg, Option.bind_some, ht, Option.toList_some]
        · rfl

theorem isSome_typeDefault {sqlType name : String} (h : typeDefaultTransforms sqlType = some name) :
    (lookupTransform name).isSome := by
  unfold typeDefaultTransforms at h
  split at h <;> cases h <;> rfl

theorem isSome_sensitivityDefault {sensitivity name : String}
    (h : PythonTransforms.sensitivityDefaultMask sensitivity = some name) :
    (lookupTransform name).isSome := by
  unfold PythonTransforms.sensitivityDefaultMask at h
  split at h <;> cases h <;> rfl

def pyTypeTransform (sqlType : String) : List Transform :=
  ((typeDefaultTransforms (lower sqlType)).bind lookupTransform).toList

theorem rewrites_registerTypeDefault (e : String × String) :
    Rewrites registerTypeDefault (fun _ sqlType chain => chain ++ pyTypeTransform sqlType) e := by
  apply rewrites_register (typeDefaultTransforms (lower e.2))
  · intro p
    rfl
  · intro n hn
    exact isSome_typeDefault hn
  · intro chain
    rfl

/-- Every explicit transform is one that both sides register. -/
def Registered (transforms : StringMap) : Prop :=
  ∀ e ∈ transforms.entries, (lookupTransform e.2).isSome

theorem Registered.get? {transforms : StringMap} (h : Registered transforms) {col name : String}
    (hname : transforms.get? col = some name) : (lookupTransform name).isSome := by
  obtain ⟨before, after, heq, -⟩ := List.lookup_eq_some_iff.mp hname
  apply h (col, name)
  rw [heq]
  simp

def pyClassTransform (overrides : StringMap) (col sensitivity : String) : List Transform :=
  if sensitivity = "none" then []
  else ((sensitivityName overrides col sensitivity).bind lookupTransform).toList

theorem isSome_sensitivityName {overrides : StringMap} (h : Registered overrides)
    {col sensitivity name : String} (hname : sensitivityName overrides col sensitivity = some name) :
    (lookupTransform name).isSome := by
  unfold sensitivityName at hname
  split at hname
  · exact isSome_sensitivityDefault hname
  · next explicit hexplicit =>
      split at hname
      · obtain rfl := Option.some.inj hname
        exact h.get? hexplicit
      · exact isSome_sensitivityDefault hname

theorem rewrites_registerSensitivity {overrides : StringMap} (h : Registered overrides)
    (e : String × String) :
    Rewrites (registerSensitivity overrides)
      (fun col sensitivity chain => chain ++ pyClassTransform overrides col sensitivity) e := by
  by_cases hnone : e.2 = "none"
  · apply rewrites_register none
    · intro p
      rw [registerSensitivity, if_pos hnone]
    · intro n hn
      exact absurd hn (by simp)
    · intro chain
      simp only [pyClassTransform, if_pos hnone, Option.bind_none, Option.toList_none]
  · apply rewrites_register (sensitivityName overrides e.1 e.2)
    · intro p
      exact if_neg hnone
    · intro n hn
      exact isSome_sensitivityName h hn
    · intro chain
      simp only [pyClassTransform, if_neg hnone]

theorem rewrites_registerExplicit {transforms : StringMap} (h : Registered transforms) :
    ∀ e ∈ transforms.entries, Rewrites registerExplicit
      (fun _ name chain => if chain = [] then (lookupTransform name).toList else chain) e := by
  intro e he p hp
  rw [registerExplicit]
  by_cases hkey : e.1 ∈ p.map Prod.fst
  · refine ⟨p, if_pos hkey, hp, ?_⟩
    intro c
    split
    · next hc =>
        dsimp only
        rw [hc, if_neg ((mem_keys_iff hp).mp hkey)]
    · rfl
  · obtain ⟨t, ht⟩ := Option.isSome_iff_exists.mp (h e he)
    refine ⟨p.registerFn e.1 t, ?_, filled_registerFn hp, ?_⟩
    · rw [if_neg hkey]
      simp only [PythonTransforms.Pipeline.register, builtInTransforms_eq, ht]
    · intro c
      rw [transforms_registerFn]
      split
      · next hc =>
          have hnil : p.transforms e.1 = [] := not_not.mp ((mem_keys_iff hp).not.mp hkey)
          dsimp only
          rw [hc, hnil, if_pos rfl, ht, List.nil_append, Option.toList_some]
      · rfl

theorem transforms_foldl_registerFn (ts : List Transform) {p : PyPipeline} (hp : Filled p)
    (col c : String) :
    Filled (ts.foldl (fun p t => p.registerFn col t) p) ∧
      (ts.foldl (fun p t => p.registerFn col t) p).transforms c =
        if c = col then p.transforms c ++ ts else p.transforms c := by
  induction ts generalizing p with
  | nil => exact ⟨hp, by simp⟩
  | cons t ts ih =>
      obtain ⟨hfilled, htransforms⟩ := ih (filled_registerFn hp : Filled (p.registerFn col t))
      refine ⟨hfilled, ?_⟩
      rw [List.foldl_cons, htransforms, transforms_registerFn]
      split
      · next hc => rw [hc, List.append_assoc, List.singleton_append]
      · rfl

/-- Merging one pipeline into another. -/
theorem transforms_merge (masks : PyPipeline) (hmasks : (masks.map Prod.fst).Nodup)
    {p : PyPipeline} (hp : Filled p) (c : String) :
    (mergeMasks p masks).transforms c = p.transforms c ++ masks.transforms c := by
  unfold mergeMasks
  induction masks generalizing p with
  | nil => simp [PythonTransforms.Pipeline.transforms]
  | cons e masks ih =>
      rw [List.map_cons, List.nodup_cons] at hmasks
      obtain ⟨hfilled, htransforms⟩ := transforms_foldl_registerFn e.2 hp e.1 c
      rw [List.foldl_cons, ih hmasks.2 hfilled, htransforms]
      have hcons : PythonTransforms.Pipeline.transforms (e :: masks) c =
          if c = e.1 then e.2 else PythonTransforms.Pipeline.transforms masks c := by
        obtain ⟨key, ts⟩ := e
        by_cases hc : c = key
        · simp [PythonTransforms.Pipeline.transforms, hc]
        · simp [PythonTransforms.Pipeline.transforms, List.lookup_cons, hc,
            beq_eq_false_iff_ne.mpr hc]
      rw [hcons]
      by_cases hc : c = e.1
      · have hnil : PythonTransforms.Pipeline.transforms masks c = [] := by
          rw [PythonTransforms.Pipeline.transforms,
            lookup_eq_none_iff_notMem.mpr (hc ▸ hmasks.1), Option.getD_none]
        rw [if_pos hc, if_pos hc, hnil, List.append_nil]
      · rw [if_neg hc, if_neg hc]

end Passes

section Chains

variable (table : GoTableDispatchPayload)

def pyTypeChain (col : String) : List Transform :=
  (table.columnTypes.get? col).elim [] pyTypeTransform

def pyClassChain (col : String) : List Transform :=
  (table.columnSensitivity.get? col).elim [] (pyClassTransform table.columnTransforms col)

/-- The chain Python ends with for a column. -/
def pyColumnChain (col : String) : List Transform :=
  if table.columnSensitivity.entries ≠ [] then pyTypeChain table col ++ pyClassChain table col
  else if pyTypeChain table col = [] then explicitChain table col
  else pyTypeChain table col

def pyPipeline : Except PyError (Option PyPipeline) :=
  buildPipelineForPlan table.columnTransforms table.columnSensitivity table.columnTypes

/-- The transforms a built pipeline applies to a column. -/
def pyChain (p : Option PyPipeline) (col : String) : List Transform :=
  PythonTransforms.Pipeline.transforms (p.getD []) col

variable {table}

theorem transforms_of_composed (p : PyPipeline) (col : String) :
    pyChain (if p ≠ [] then some p else none) col = p.transforms col := by
  split
  · rfl
  · next h =>
      rw [not_not.mp h]
      rfl

/-- With registered names nothing is raised, and each column has its chain. -/
theorem pyPipeline_eq (h : Registered table.columnTransforms) :
    ∃ r, pyPipeline table = .ok r ∧ ∀ col, pyChain r col = pyColumnChain table col := by
  rw [pyPipeline, buildPipelineForPlan]
  split
  · next hempty =>
      obtain ⟨htransforms, hsensitivity, htypes⟩ := hempty
      refine ⟨none, rfl, ?_⟩
      intro col
      simp [pyChain, PythonTransforms.Pipeline.transforms, pyColumnChain, hsensitivity, pyTypeChain,
        StringMap.get?, htypes, explicitChain, htransforms]
  · obtain ⟨typed, htyped, hfilled, htypes⟩ :=
      foldlM_rewrites (fun e _ => rewrites_registerTypeDefault e) table.columnTypes.nodup filled_nil
    have htypeChain : ∀ col, typed.transforms col = pyTypeChain table col := by
      intro col
      rw [htypes, pyTypeChain, StringMap.get?]
      cases table.columnTypes.entries.lookup col with
      | none => rfl
      | some sqlType => rfl
    obtain ⟨composed, hcomposed, hchain⟩ : ∃ p,
        compose table.columnTransforms table.columnSensitivity typed = .ok p ∧
          ∀ col, p.transforms col = pyColumnChain table col := by
      by_cases hsensitivity : table.columnSensitivity.entries ≠ []
      · obtain ⟨masks, hmasks, hmasksFilled, hclass⟩ :=
          foldlM_rewrites (fun e _ => rewrites_registerSensitivity h e)
            table.columnSensitivity.nodup filled_nil
        refine ⟨mergeMasks typed masks, ?_, ?_⟩
        · rw [compose, if_pos hsensitivity, fromSensitivityMap, hmasks]
          rfl
        · intro col
          rw [transforms_merge masks hmasksFilled.nodup hfilled, htypeChain, hclass, pyColumnChain,
            if_pos hsensitivity, pyClassChain, StringMap.get?]
          cases table.columnSensitivity.entries.lookup col with
          | none => rfl
          | some sensitivity => rfl
      · obtain ⟨composed, hcomposed, -, hexplicit⟩ :=
          foldlM_rewrites (rewrites_registerExplicit h) table.columnTransforms.nodup hfilled
        refine ⟨composed, ?_, ?_⟩
        · rw [compose, if_neg hsensitivity]
          exact hcomposed
        · intro col
          rw [hexplicit, htypeChain, pyColumnChain, if_neg hsensitivity, explicitChain,
            StringMap.get?]
          cases table.columnTransforms.entries.lookup col with
          | none =>
              split
              · next hnil => exact hnil
              · rfl
          | some name => rfl
    refine ⟨if composed ≠ [] then some composed else none, ?_, ?_⟩
    · rw [htyped, Except.bind, hcomposed]
      rfl
    · intro col
      rw [transforms_of_composed, hchain]

end Chains

section TypeNames

def isNameChar (c : Char) : Bool := ('a' ≤ c && c ≤ 'z') || c = '2'

theorem isNameChar_of_typeDefault {s name : String} (h : typeDefaultTransforms s = some name) :
    ∀ c ∈ s.toList, isNameChar c := by
  rw [← List.all_eq_true]
  unfold typeDefaultTransforms at h
  split at h
  all_goals first
    | rfl
    | cases h

theorem toLower_of_lt {c : Char} (h : '\u2000' ≤ c) : c.toLower = c := by
  apply dif_neg
  intro hupper
  have hle : c ≤ 'Z' := hupper.2
  exact absurd (Char.le_trans h hle) (by decide)

/-- A blank is no letter of a type's name, and does not become one. -/
theorem isNameChar_toLower_of_isSpace {c : Char} (h : isSpace c) :
    isNameChar c.toLower = false := by
  rw [isSpace, Bool.or_eq_true, Bool.and_eq_true, decide_eq_true_eq, decide_eq_true_eq,
    decide_eq_true_eq] at h
  rcases h with h | ⟨h, -⟩
  · have hall : ['\t', '\n', '\x0b', '\x0c', '\r', ' ', '\u0085', '\u00a0', '\u1680', '\u2028',
        '\u2029', '\u202f', '\u205f', '\u3000'].all (fun c => !isNameChar c.toLower) = true := rfl
    simpa using List.all_eq_true.mp hall c h
  · rw [toLower_of_lt h, isNameChar, Bool.or_eq_false_iff, Bool.and_eq_false_iff]
    refine ⟨.inr ?_, ?_⟩
    · rw [decide_eq_false_iff_not]
      intro hle
      exact absurd (Char.le_trans h hle) (by decide)
    · rw [decide_eq_false_iff_not]
      rintro rfl
      exact absurd h (by decide)

theorem lowerChar_eq {c : Char} (h : ∀ d ∈ PythonTransforms.lowerChar c, isNameChar d) :
    PythonTransforms.lowerChar c = [toLowerChar c] ∧ isSpace c = false ∧ toLowerChar c ≠ '(' := by
  unfold PythonTransforms.lowerChar at h ⊢
  unfold toLowerChar
  split
  · next hdot =>
      rw [if_pos hdot] at h
      exact absurd (h '\u0307' (by simp)) (by decide)
  · next hdot =>
      rw [if_neg hdot] at h
      split
      · next hkelvin =>
          subst hkelvin
          decide
      · next hkelvin =>
          rw [if_neg hkelvin] at h
          have hname := h c.toLower (List.mem_singleton_self _)
          refine ⟨rfl, ?_, ?_⟩
          · rw [← Bool.not_eq_true]
            intro hspace
            rw [isNameChar_toLower_of_isSpace hspace] at hname
            exact absurd hname (by decide)
          · intro hparen
            rw [hparen] at hname
            exact absurd hname (by decide)

theorem trimSpace_of_forall {s : List Char} (h : ∀ c ∈ s, isSpace c = false) :
    trimSpace s = s := by
  have hdrop : s.dropWhile isSpace = s := by
    cases s with
    | nil => rfl
    | cons c s => rw [List.dropWhile_cons_of_neg (by simp [h c List.mem_cons_self])]
  rw [trimSpace, hdrop, List.rdropWhile_eq_self_iff]
  intro hne
  simp [h _ (List.getLast_mem hne)]

/-- A text that Python reads as a name with lower-case letters only, Go reads as
the same name. -/
theorem typeBase_eq_lower {sqlType : String} (h : ∀ c ∈ (lower sqlType).toList, isNameChar c) :
    typeBase sqlType = lower sqlType := by
  rw [lower, String.toList_ofList] at h
  have hchars : ∀ c ∈ sqlType.toList, PythonTransforms.lowerChar c = [toLowerChar c] ∧
      isSpace c = false ∧ toLowerChar c ≠ '(' := by
    intro c hc
    apply lowerChar_eq
    intro d hd
    exact h d (List.mem_flatMap.mpr ⟨c, hc, hd⟩)
  have hflat : sqlType.toList.flatMap PythonTransforms.lowerChar =
      sqlType.toList.map toLowerChar := by
    rw [List.map_eq_flatMap]
    apply List.flatMap_congr
    intro c hc
    exact (hchars c hc).1
  rw [typeBase, trimSpace_of_forall fun c hc => (hchars c hc).2.1, lower, hflat, if_neg]
  intro hmem
  obtain ⟨c, hc, hparen⟩ := List.mem_map.mp hmem
  exact (hchars c hc).2.2 hparen

end TypeNames

section Agreement

variable (table : GoTableDispatchPayload) (col : String)

/-- A declared type that Go gives a default has one under its plain lower-case
spelling, without a length and without blanks around it. -/
def TypeKept : Prop :=
  ∀ sqlType, table.columnTypes.get? col = some sqlType →
    (typeDefaultTransforms (typeBase sqlType)).isSome →
      (typeDefaultTransforms (lower sqlType)).isSome

/-- A column with an explicit transform has no empty class. -/
def ClassKept : Prop :=
  table.columnSensitivity.get? col = some "" → table.columnTransforms.get? col = none

/-- The explicit transform is the one Go takes from the type, and no class
counts. -/
structure StandsIn : Prop where
  same : typeChain table col = explicitChain table col
  noClass : table.columnSensitivity.entries = [] ∨ table.columnSensitivity.get? col = some ""

def ChainKept : Prop :=
  TypeKept table col ∧ ClassKept table col ∨ ¬ TypeKept table col ∧ StandsIn table col

variable {table col}

theorem typeTransform_eq_nil_iff {sqlType : String} :
    typeTransform sqlType = [] ↔ typeDefaultTransforms (typeBase sqlType) = none := by
  rw [typeTransform]
  cases h : typeDefaultTransforms (typeBase sqlType) with
  | none => simp
  | some name =>
      obtain ⟨t, ht⟩ := Option.isSome_iff_exists.mp (isSome_typeDefault h)
      simp [ht]

theorem pyTypeChain_of_kept (h : TypeKept table col) :
    pyTypeChain table col = typeChain table col := by
  rw [pyTypeChain, typeChain]
  cases htype : table.columnTypes.get? col with
  | none => rw [Option.elim_none, Option.elim_none]
  | some sqlType =>
      rw [Option.elim_some, Option.elim_some, pyTypeTransform, typeTransform]
      cases hlower : typeDefaultTransforms (lower sqlType) with
      | none =>
          have hnone : typeDefaultTransforms (typeBase sqlType) = none := by
            rw [← Option.not_isSome_iff_eq_none]
            intro hsome
            have := h sqlType htype hsome
            rw [hlower] at this
            exact absurd this (by decide)
          rw [hnone]
      | some name =>
          rw [typeBase_eq_lower (isNameChar_of_typeDefault hlower), hlower]

theorem pyTypeChain_of_not_kept (h : ¬ TypeKept table col) :
    pyTypeChain table col = [] ∧ typeChain table col ≠ [] := by
  unfold TypeKept at h
  push Not at h
  obtain ⟨sqlType, htype, hsome, hnone⟩ := h
  rw [ne_eq, Option.not_isSome_iff_eq_none] at hnone
  rw [pyTypeChain, typeChain, htype, Option.elim_some, Option.elim_some, pyTypeTransform, hnone]
  refine ⟨rfl, ?_⟩
  rw [Ne, typeTransform_eq_nil_iff]
  intro hbase
  rw [hbase] at hsome
  exact absurd hsome (by decide)

/-- Both sides read the same name for a class that is not empty. -/
theorem sensitivityName_eq (overrides : StringMap) (col sensitivity : String) :
    (sensitivityName overrides col sensitivity).bind lookupTransform =
      lookupTransform (sensitivityTransform (overrides.get col) sensitivity) := by
  have hdefault : (PythonTransforms.sensitivityDefaultMask sensitivity).bind lookupTransform =
      lookupTransform (sensitivityDefaultMask sensitivity) := by
    rw [← sensitivityDefaultMask_getD]
    cases PythonTransforms.sensitivityDefaultMask sensitivity with
    | none => rfl
    | some name => rfl
  rw [sensitivityName, sensitivityTransform, StringMap.get]
  cases overrides.get? col with
  | none => exact hdefault
  | some name =>
      by_cases hname : name = ""
      · simp only [Option.getD_some, ne_eq, hname, not_true_eq_false, if_false]
        exact hdefault
      · simp only [Option.getD_some, ne_eq, hname, not_false_eq_true, if_true]
        rfl

theorem classTransform_eq {overrides : StringMap} {sensitivity : String} (h : sensitivity ≠ "") :
    classTransform (overrides.get col) sensitivity =
      pyClassTransform overrides col sensitivity := by
  rw [classTransform, pyClassTransform]
  by_cases hnone : sensitivity = "none"
  · rw [if_pos (.inl hnone), if_pos hnone]
  · rw [if_neg (by tauto), if_neg hnone, sensitivityName_eq]

theorem pyClassTransform_empty (overrides : StringMap) :
    pyClassTransform overrides col "" = ((overrides.get? col).bind lookupTransform).toList := by
  rw [pyClassTransform, if_neg (by decide), sensitivityName_eq, sensitivityTransform, StringMap.get]
  cases overrides.get? col with
  | none => rfl
  | some name =>
      rw [Option.getD_some, Option.bind_some]
      split
      · next hname =>
          rw [hname]
          rfl
      · rfl

theorem pyClassChain_of_kept (h : ClassKept table col) :
    pyClassChain table col = classChain table col := by
  rw [pyClassChain, classChain]
  cases hclass : table.columnSensitivity.get? col with
  | none => rfl
  | some sensitivity =>
      rw [Option.elim_some, Option.elim_some]
      by_cases hempty : sensitivity = ""
      · subst hempty
        rw [pyClassTransform_empty, h hclass, classTransform, if_pos (.inr rfl)]
        rfl
      · exact (classTransform_eq hempty).symm

theorem pyClassChain_of_not_kept (hnames : Registered table.columnTransforms)
    (h : ¬ ClassKept table col) :
    classChain table col = [] ∧ pyClassChain table col = explicitChain table col ∧
      explicitChain table col ≠ [] ∧ table.columnSensitivity.get? col = some "" := by
  unfold ClassKept at h
  push Not at h
  obtain ⟨hclass, hexplicit⟩ := h
  obtain ⟨name, hname⟩ := Option.ne_none_iff_exists'.mp hexplicit
  obtain ⟨t, ht⟩ := Option.isSome_iff_exists.mp (hnames.get? hname)
  refine ⟨?_, ?_, ?_, hclass⟩
  · rw [classChain, hclass, Option.elim_some, classTransform, if_pos (.inr rfl)]
  · rw [pyClassChain, hclass, Option.elim_some, pyClassTransform_empty, explicitChain]
  · simp [explicitChain, hname, ht]

theorem chains_eq_of_classes (hnames : Registered table.columnTransforms)
    (hclasses : table.columnSensitivity.entries ≠ []) :
    columnChain table col = pyColumnChain table col ↔ ChainKept table col := by
  rw [columnChain, if_pos (List.length_pos_iff.mpr hclasses), pyColumnChain, if_pos hclasses]
  by_cases htype : TypeKept table col
  · rw [pyTypeChain_of_kept htype, List.append_cancel_left_eq]
    by_cases hclass : ClassKept table col
    · exact iff_of_true (pyClassChain_of_kept hclass).symm (.inl ⟨htype, hclass⟩)
    · obtain ⟨hgo, hpy, hne, -⟩ := pyClassChain_of_not_kept hnames hclass
      rw [hgo, hpy]
      apply iff_of_false (fun h => hne h.symm)
      rintro (⟨-, h⟩ | ⟨h, -⟩)
      · exact hclass h
      · exact h htype
  · obtain ⟨hnil, hne⟩ := pyTypeChain_of_not_kept htype
    rw [hnil, List.nil_append]
    by_cases hclass : ClassKept table col
    · rw [pyClassChain_of_kept hclass, List.append_left_eq_self]
      apply iff_of_false hne
      rintro (⟨h, -⟩ | ⟨-, h⟩)
      · exact htype h
      · rcases h.noClass with hempty | hempty
        · exact hclasses hempty
        · apply hne
          rw [h.same, explicitChain, hclass hempty]
          rfl
    · obtain ⟨hgo, hpy, -, hempty⟩ := pyClassChain_of_not_kept hnames hclass
      rw [hgo, hpy, List.append_nil]
      constructor
      · intro h
        exact .inr ⟨htype, h, .inr hempty⟩
      · rintro (⟨h, -⟩ | ⟨-, h⟩)
        · exact absurd h htype
        · exact h.same

theorem chains_eq_of_no_classes (hclasses : table.columnSensitivity.entries = []) :
    columnChain table col = pyColumnChain table col ↔ ChainKept table col := by
  have hget : table.columnSensitivity.get? col = none := by
    rw [StringMap.get?, hclasses]
    rfl
  have hclass : ClassKept table col := fun h => absurd (hget.symm.trans h) (by simp)
  rw [columnChain, if_neg (by simp [hclasses]), pyColumnChain, if_neg (not_not.mpr hclasses)]
  by_cases htype : TypeKept table col
  · rw [pyTypeChain_of_kept htype]
    exact iff_of_true rfl (.inl ⟨htype, hclass⟩)
  · obtain ⟨hnil, hne⟩ := pyTypeChain_of_not_kept htype
    rw [hnil, if_neg hne, if_pos rfl]
    constructor
    · intro h
      exact .inr ⟨htype, h, .inl hclasses⟩
    · rintro (⟨h, -⟩ | ⟨-, h⟩)
      · exact absurd h htype
      · exact h.same

/-- The two sides choose one chain for a column. -/
theorem columnChain_eq_iff (hnames : Registered table.columnTransforms) :
    columnChain table col = pyColumnChain table col ↔ ChainKept table col := by
  by_cases hclasses : table.columnSensitivity.entries = []
  · exact chains_eq_of_no_classes hclasses
  · exact chains_eq_of_classes hnames hclasses

end Agreement

end SqlOptima.TransformChains
