import Mathlib.Data.List.Induction
import SqlOptima.ColumnTransforms

namespace SqlOptima.ColumnMasking

open CellValues ColumnTransforms

section ColumnIndex

theorem colIndex_append (columns : List String) (name : String) :
    colIndex (columns ++ [name]) = Function.update (colIndex columns) name (some columns.length) := by
  simp [colIndex, List.zipIdx_append]

/-- The loop that fills `colIndex` leaves the last position of a name. -/
theorem colIndex_eq_some_iff {columns : List String} {col : String} {i : Nat} :
    colIndex columns col = some i ↔ columns[i]? = some col ∧ ∀ j, i < j → columns[j]? ≠ some col := by
  induction columns using List.reverseRecOn with
  | nil => simp [colIndex]
  | append_singleton columns name ih =>
      have hlast : (columns ++ [name])[columns.length]? = some name := by simp
      have hbefore : ∀ {j}, j < columns.length → (columns ++ [name])[j]? = columns[j]? := by
        intro j hj
        rw [List.getElem?_append_left hj]
      have hafter : ∀ {j}, columns.length < j → (columns ++ [name])[j]? = none := by
        intro j hj
        apply List.getElem?_eq_none
        rw [List.length_append, List.length_singleton]
        exact hj
      rw [colIndex_append, Function.update_apply]
      by_cases hcol : col = name
      · subst hcol
        rw [if_pos rfl, Option.some_inj]
        constructor
        · intro hi
          subst hi
          refine ⟨hlast, ?_⟩
          intro j hj
          rw [hafter hj]
          exact fun h => by cases h
        · rintro ⟨hi, hlater⟩
          have hle : columns.length ≤ i := by
            by_contra hlt
            exact hlater _ (Nat.lt_of_not_le hlt) hlast
          by_contra hne
          rw [hafter (by omega)] at hi
          cases hi
      · rw [if_neg hcol, ih]
        have hnot : (columns ++ [name])[columns.length]? ≠ some col := by
          rw [hlast]
          exact fun h => hcol (Option.some_inj.mp h).symm
        constructor
        · rintro ⟨hi, hlater⟩
          have hlt := (List.getElem?_eq_some_iff.mp hi).1
          refine ⟨by rw [hbefore hlt]; exact hi, ?_⟩
          intro j hj
          rcases Nat.lt_trichotomy j columns.length with hj' | rfl | hj'
          · rw [hbefore hj']
            exact hlater j hj
          · exact hnot
          · rw [hafter hj']
            exact fun h => by cases h
        · rintro ⟨hi, hlater⟩
          rcases Nat.lt_trichotomy i columns.length with hlt | rfl | hlt
          · rw [hbefore hlt] at hi
            refine ⟨hi, ?_⟩
            intro j hj hj'
            have hjlt := (List.getElem?_eq_some_iff.mp hj').1
            exact hlater j hj (by rw [hbefore hjlt]; exact hj')
          · exact absurd hi hnot
          · rw [hafter hlt] at hi
            cases hi

theorem colIndex_injective {columns : List String} {col col' : String} {i : Nat}
    (h : colIndex columns col = some i) (h' : colIndex columns col' = some i) : col = col' := by
  have hc := (colIndex_eq_some_iff.mp h).1
  rw [(colIndex_eq_some_iff.mp h').1] at hc
  exact (Option.some_inj.mp hc).symm

end ColumnIndex

section Chains

variable (columns : List String)

/-- A pass of the builder: every entry of a map may rewrite the chain of its own column. -/
def rewriteColumn (f : String → String → List Transform → List Transform) (chains : Chains)
    (entry : String × String) : Chains :=
  match colIndex columns entry.1 with
  | none => chains
  | some idx => chains.modify idx (f entry.1 entry.2)

variable {columns} {f : String → String → List Transform → List Transform}

theorem getElem?_rewriteColumn_of_ne {entry : String × String} {i : Nat}
    (h : colIndex columns entry.1 ≠ some i) (chains : Chains) :
    (rewriteColumn columns f chains entry)[i]? = chains[i]? := by
  rw [rewriteColumn]
  cases hidx : colIndex columns entry.1 with
  | none => rfl
  | some idx =>
      have hne : idx ≠ i := by
        rintro rfl
        exact h hidx
      simp [hne]

theorem getElem?_rewriteColumn {entry : String × String} {i : Nat}
    (h : colIndex columns entry.1 = some i) (chains : Chains) :
    (rewriteColumn columns f chains entry)[i]? = chains[i]?.map (f entry.1 entry.2) := by
  simp [rewriteColumn, h]

theorem getElem?_foldl_rewriteColumn_of_ne {entries : List (String × String)} {i : Nat}
    (h : ∀ entry ∈ entries, colIndex columns entry.1 ≠ some i) (chains : Chains) :
    (entries.foldl (rewriteColumn columns f) chains)[i]? = chains[i]? := by
  induction entries generalizing chains with
  | nil => rfl
  | cons entry entries ih =>
      rw [List.foldl_cons, ih (fun e he => h e (List.mem_cons_of_mem _ he)),
        getElem?_rewriteColumn_of_ne (h entry List.mem_cons_self)]

theorem getElem?_foldl_rewriteColumn {entries : List (String × String)} {col : String} {i : Nat}
    (hnodup : (entries.map Prod.fst).Nodup) (hi : colIndex columns col = some i) (chains : Chains) :
    (entries.foldl (rewriteColumn columns f) chains)[i]? =
      chains[i]?.map ((entries.lookup col).elim id (f col)) := by
  induction entries generalizing chains with
  | nil => simp
  | cons entry entries ih =>
      obtain ⟨key, value⟩ := entry
      rw [List.map_cons, List.nodup_cons] at hnodup
      rw [List.foldl_cons, List.lookup_cons]
      by_cases hkey : col = key
      · subst hkey
        have hrest : ∀ e ∈ entries, colIndex columns e.1 ≠ some i := by
          intro e he hidx
          have heq := colIndex_injective hidx hi
          exact hnodup.1 (List.mem_map.mpr ⟨e, he, heq⟩)
        rw [getElem?_foldl_rewriteColumn_of_ne hrest, getElem?_rewriteColumn hi]
        simp
      · have hne : colIndex columns key ≠ some i := fun hidx => hkey (colIndex_injective hi hidx)
        rw [ih hnodup.2, getElem?_rewriteColumn_of_ne hne]
        have hbeq : (col == key) = false := by simpa using hkey
        rw [hbeq]

theorem length_foldl_rewriteColumn (entries : List (String × String)) (chains : Chains) :
    (entries.foldl (rewriteColumn columns f) chains).length = chains.length := by
  induction entries generalizing chains with
  | nil => rfl
  | cons entry entries ih =>
      rw [List.foldl_cons, ih, rewriteColumn]
      cases colIndex columns entry.1 with
      | none => rfl
      | some idx => exact List.length_modify ..

end Chains

section Passes

variable (columns : List String)

theorem modify_append_nil (chains : Chains) (idx : Nat) : chains.modify idx (· ++ []) = chains := by
  simp only [List.append_nil]
  exact List.modify_id idx chains

theorem addTransform_eq (chains : Chains) (col name : String) :
    addTransform columns chains col name =
      rewriteColumn columns (fun _ name chain => chain ++ (lookupTransform name).toList) chains
        (col, name) := by
  simp only [addTransform, rewriteColumn]
  cases colIndex columns col with
  | none => rfl
  | some idx =>
      cases lookupTransform name with
      | none => exact (modify_append_nil chains idx).symm
      | some fn => rfl

def typeTransform (sqlType : String) : List Transform :=
  ((typeDefaultTransforms (typeBase sqlType)).bind lookupTransform).toList

def classTransform (explicit sensitivity : String) : List Transform :=
  if sensitivity = "none" ∨ sensitivity = "" then []
  else (lookupTransform (sensitivityTransform explicit sensitivity)).toList

theorem rewriteColumn_nil (chains : Chains) (entry : String × String) :
    rewriteColumn columns (fun _ _ chain => chain ++ []) chains entry = chains := by
  rw [rewriteColumn]
  cases colIndex columns entry.1 with
  | none => rfl
  | some idx => exact modify_append_nil chains idx

theorem addTypeDefault_eq (chains : Chains) (entry : String × String) :
    addTypeDefault columns chains entry =
      rewriteColumn columns (fun _ sqlType chain => chain ++ typeTransform sqlType) chains entry := by
  rw [addTypeDefault]
  cases htype : typeDefaultTransforms (typeBase entry.2) with
  | none =>
      have hnil : typeTransform entry.2 = [] := by simp [typeTransform, htype]
      have h := rewriteColumn_nil columns chains entry
      simp only [rewriteColumn, hnil] at h ⊢
      exact h.symm
  | some name => simp [addTransform_eq, rewriteColumn, typeTransform, htype]

theorem addSensitivity_eq (transforms : StringMap) (chains : Chains) (entry : String × String) :
    addSensitivity columns transforms chains entry =
      rewriteColumn columns
        (fun col sensitivity chain => chain ++ classTransform (transforms.get col) sensitivity)
        chains entry := by
  rw [addSensitivity]
  split
  · next hnone =>
      have h := rewriteColumn_nil columns chains entry
      simp only [rewriteColumn, classTransform, if_pos hnone] at h ⊢
      exact h.symm
  · next hclass =>
      simp only
      split
      · simp [addTransform_eq, rewriteColumn, classTransform, if_neg hclass]
      · next hname =>
          have hempty : sensitivityTransform (transforms.get entry.1) entry.2 = "" :=
            not_not.mp hname
          have hlookup : (lookupTransform "").toList = [] := rfl
          have h := rewriteColumn_nil columns chains entry
          simp only [rewriteColumn, classTransform, if_neg hclass, hempty, hlookup] at h ⊢
          exact h.symm

theorem addExplicit_eq (chains : Chains) (entry : String × String) :
    addExplicit columns chains entry =
      rewriteColumn columns
        (fun _ name chain => if chain.length = 0 then chain ++ (lookupTransform name).toList else chain)
        chains entry := by
  rw [addExplicit, addTransform_eq]
  simp only [rewriteColumn]
  cases colIndex columns entry.1 with
  | none => simp
  | some idx =>
      simp only [Option.getD_some]
      apply List.ext_getElem?
      intro j
      by_cases hj : idx = j
      · subst hj
        cases hc : chains[idx]? with
        | none => split <;> simp [hc]
        | some chain =>
            have hget : chains.getD idx [] = chain := by simp [List.getD, hc]
            rw [hget]
            split <;> simp_all
      · split <;> simp [hj]

end Passes

section BuiltChains

variable (table : GoTableDispatchPayload)

def typeChain (col : String) : List Transform :=
  (table.columnTypes.get? col).elim [] typeTransform

def classChain (col : String) : List Transform :=
  (table.columnSensitivity.get? col).elim [] (classTransform (table.columnTransforms.get col))

def explicitChain (col : String) : List Transform :=
  ((table.columnTransforms.get? col).bind lookupTransform).toList

/-- The chain the builder ends with for a column. -/
def columnChain (col : String) : List Transform :=
  if table.columnSensitivity.entries.length > 0 then typeChain table col ++ classChain table col
  else if typeChain table col = [] then explicitChain table col
  else typeChain table col

variable {table}

theorem foldl_congr_step {step step' : Chains → String × String → Chains}
    (h : ∀ chains entry, step chains entry = step' chains entry) :
    step = step' :=
  funext fun chains => funext fun entry => h chains entry

theorem getElem?_buildChains {col : String} {i : Nat} (hi : colIndex table.columns col = some i) :
    (buildChains table)[i]? = some (columnChain table col) := by
  have hlt : i < table.columns.length :=
    (List.getElem?_eq_some_iff.mp (colIndex_eq_some_iff.mp hi).1).1
  have htyped : (table.columnTypes.entries.foldl (addTypeDefault table.columns)
      (List.replicate table.columns.length []))[i]? = some (typeChain table col) := by
    rw [foldl_congr_step (addTypeDefault_eq table.columns),
      getElem?_foldl_rewriteColumn table.columnTypes.nodup hi]
    rw [List.getElem?_replicate_of_lt hlt, Option.map_some, typeChain, StringMap.get?]
    cases table.columnTypes.entries.lookup col with
    | none => rfl
    | some sqlType => simp
  rw [buildChains, columnChain]
  split
  · rw [foldl_congr_step (addSensitivity_eq table.columns table.columnTransforms),
      getElem?_foldl_rewriteColumn table.columnSensitivity.nodup hi]
    rw [htyped, Option.map_some, classChain, StringMap.get?]
    cases table.columnSensitivity.entries.lookup col with
    | none => simp
    | some sensitivity => simp
  · rw [foldl_congr_step (addExplicit_eq table.columns),
      getElem?_foldl_rewriteColumn table.columnTransforms.nodup hi]
    rw [htyped, Option.map_some, explicitChain, StringMap.get?]
    cases table.columnTransforms.entries.lookup col with
    | none => by_cases h : typeChain table col = [] <;> simp [h]
    | some name => by_cases h : typeChain table col = [] <;> simp [h]

/-- A position whose name comes again later gets no transform at all. -/
theorem getElem?_buildChains_shadowed {i : Nat} (hlt : i < table.columns.length)
    (h : ∀ col, colIndex table.columns col ≠ some i) : (buildChains table)[i]? = some [] := by
  have hall : ∀ entries : List (String × String), ∀ entry ∈ entries,
      colIndex table.columns entry.1 ≠ some i := fun _ entry _ => h entry.1
  rw [buildChains, foldl_congr_step (addTypeDefault_eq table.columns),
    foldl_congr_step (addSensitivity_eq table.columns table.columnTransforms),
    foldl_congr_step (addExplicit_eq table.columns)]
  split
  · rw [getElem?_foldl_rewriteColumn_of_ne (hall _), getElem?_foldl_rewriteColumn_of_ne (hall _),
      List.getElem?_replicate_of_lt hlt]
  · rw [getElem?_foldl_rewriteColumn_of_ne (hall _), getElem?_foldl_rewriteColumn_of_ne (hall _),
      List.getElem?_replicate_of_lt hlt]

theorem length_buildChains (table : GoTableDispatchPayload) :
    (buildChains table).length = table.columns.length := by
  rw [buildChains, foldl_congr_step (addTypeDefault_eq table.columns),
    foldl_congr_step (addSensitivity_eq table.columns table.columnTransforms),
    foldl_congr_step (addExplicit_eq table.columns)]
  split
  · rw [length_foldl_rewriteColumn, length_foldl_rewriteColumn, List.length_replicate]
  · rw [length_foldl_rewriteColumn, length_foldl_rewriteColumn, List.length_replicate]

end BuiltChains

section Pipelines

/-- A missing pipeline is one whose chains are all empty. -/
theorem chain_buildColumnTransformPipeline (table : GoTableDispatchPayload) (i : Nat) :
    (buildColumnTransformPipeline table).chain i = (buildChains table).getD i [] := by
  rw [buildColumnTransformPipeline]
  split
  · next hempty =>
      obtain ⟨htransforms, hsensitivity, htypes⟩ := hempty
      rw [List.length_eq_zero_iff] at htransforms htypes
      rw [buildChains, htransforms, htypes, if_neg (by omega)]
      by_cases hi : i < table.columns.length
      · simp [Pipeline.chain, List.getD, List.getElem?_replicate_of_lt hi]
      · simp [Pipeline.chain, List.getD, hi]
  · split
    · next hcolumns =>
        have hnil : buildChains table = [] :=
          List.eq_nil_of_length_eq_zero ((length_buildChains table).trans hcolumns)
        rw [hnil]
        rfl
    · split
      · rfl
      · next hany =>
          have hall : (buildChains table).getD i [] = [] := by
            rw [List.getD]
            cases hc : (buildChains table)[i]? with
            | none => rfl
            | some chain =>
                by_contra hne
                apply hany
                rw [List.any_eq_true]
                refine ⟨chain, List.mem_of_getElem? hc, ?_⟩
                simpa [List.length_pos_iff] using hne
          rw [hall]
          rfl

end Pipelines

section Masking

variable (rt : Runtime) (table : GoTableDispatchPayload)

def classMask (col : String) : Option Transform :=
  (table.columnSensitivity.get? col).bind fun s => lookupTransform (sensitivityDefaultMask s)

/-- The mask a column asks for: the explicit one, else that of its sensitivity class. -/
def requiredMask (col : String) : Option Transform :=
  (((table.columnTransforms.get? col).bind lookupTransform).filter Transform.isMask).or
    (classMask table col)

/-- Position `i` of every emitted row has gone through the mask, between the other transforms of
its chain. -/
def Masked (p : Pipeline) (i : Nat) (m : Transform) : Prop :=
  ∃ before after, p.chain i = before ++ m :: after ∧
    ∀ cells c, cells[i]? = some c →
      (p.apply rt cells)[i]? = some (runChain rt after (m.apply rt (runChain rt before c)))

/-- `Move` takes what the builder returns, which has no way to refuse a table. -/
def moveTransforms : Except String Pipeline :=
  .ok (buildColumnTransformPipeline table)

def MaskingHolds : Prop :=
  (∀ (i : Nat) (col : String) (m : Transform), table.columns[i]? = some col → requiredMask table col = some m →
    Masked rt (buildColumnTransformPipeline table) i m) ∧
  ∀ col name, table.columnTransforms.get? col = some name → name ≠ "" → lookupTransform name = none →
    ∃ message, moveTransforms table = .error message

def explicitIsMask (col : String) : Prop :=
  ∃ m, lookupTransform (table.columnTransforms.get col) = some m ∧ m.isMask = true

/-- No name is unknown, and each column that asks for a mask is named once, and has either a class
of its own that no other transform overrides or, in a table without classes, no default of its
type. -/
def MaskingUnhindered : Prop :=
  (∀ col name, table.columnTransforms.get? col = some name → name ≠ "" →
    (lookupTransform name).isSome = true) ∧
  ∀ (i : Nat) (col : String), table.columns[i]? = some col → (requiredMask table col).isSome = true →
    (∀ j, i < j → table.columns[j]? ≠ some col) ∧
    if table.columnSensitivity.entries.length > 0 then
      table.columnSensitivity.get col ≠ "none" ∧ table.columnSensitivity.get col ≠ "" ∧
        (table.columnTransforms.get col = "" ∨ explicitIsMask table col)
    else typeChain table col = []

variable {rt table}

theorem masked_iff {p : Pipeline} {i : Nat} {m : Transform} : Masked rt p i m ↔ m ∈ p.chain i := by
  constructor
  · rintro ⟨before, after, hchain, -⟩
    rw [hchain]
    simp
  · intro hm
    obtain ⟨before, after, hchain⟩ := List.append_of_mem hm
    refine ⟨before, after, hchain, ?_⟩
    intro cells c hc
    rw [getElem?_apply, hc, hchain]
    simp [runChain]

theorem isMask_of_sensitivityDefaultMask {sensitivity : String} {m : Transform}
    (h : lookupTransform (sensitivityDefaultMask sensitivity) = some m) : m.isMask = true := by
  simp only [sensitivityDefaultMask] at h
  split at h <;> cases h <;> rfl

theorem isMask_of_requiredMask {col : String} {m : Transform}
    (h : requiredMask table col = some m) : m.isMask = true := by
  rw [requiredMask, Option.or_eq_some_iff] at h
  rcases h with h | ⟨-, h⟩
  · exact (Option.filter_eq_some_iff.mp h).2
  · rw [classMask, Option.bind_eq_some_iff] at h
    obtain ⟨s, -, hs⟩ := h
    exact isMask_of_sensitivityDefaultMask hs

theorem not_isMask_of_mem_typeChain {col : String} {m : Transform} (h : m ∈ typeChain table col) :
    m.isMask = false := by
  rw [typeChain] at h
  cases hty : table.columnTypes.get? col with
  | none => simp [hty] at h
  | some sqlType =>
      rw [hty, Option.elim_some, typeTransform, Option.mem_toList, Option.bind_eq_some_iff] at h
      obtain ⟨name, hname, hm⟩ := h
      simp only [typeDefaultTransforms] at hname
      split at hname <;> cases hname <;> cases hm <;> rfl

theorem not_isMask_empty : lookupTransform "" = none :=
  rfl

theorem requiredMask_of_explicit {col : String} {m : Transform}
    (h : lookupTransform (table.columnTransforms.get col) = some m) (hm : m.isMask = true) :
    requiredMask table col = some m := by
  rw [StringMap.get] at h
  rw [requiredMask, Option.or_eq_some_iff]
  left
  cases hcol : table.columnTransforms.get? col with
  | none =>
      rw [hcol, Option.getD_none, not_isMask_empty] at h
      cases h
  | some name =>
      rw [hcol, Option.getD_some] at h
      simp [h, hm]

theorem requiredMask_of_not_explicit {col : String} (h : ¬ explicitIsMask table col) :
    requiredMask table col = classMask table col := by
  rw [requiredMask]
  cases hcol : table.columnTransforms.get? col with
  | none => simp
  | some name =>
      cases hname : lookupTransform name with
      | none => simp [hname]
      | some t =>
          have ht : t.isMask ≠ true := by
            intro ht
            exact h ⟨t, by simp [StringMap.get, hcol, hname], ht⟩
          simp [hname, Option.filter, ht]

theorem explicitChain_of_requiredMask {col : String} {m : Transform}
    (h : requiredMask table col = some m) (hsens : ¬ table.columnSensitivity.entries.length > 0) :
    explicitChain table col = [m] := by
  have hclass : classMask table col = none := by
    have hnil : table.columnSensitivity.entries = [] :=
      List.eq_nil_of_length_eq_zero (by omega)
    simp [classMask, StringMap.get?, hnil]
  rw [requiredMask, hclass, Option.or_none] at h
  rw [explicitChain, (Option.filter_eq_some_iff.mp h).1]
  rfl

theorem mem_classChain_iff {col : String} {m : Transform} (h : requiredMask table col = some m) :
    m ∈ classChain table col ↔
      table.columnSensitivity.get col ≠ "none" ∧ table.columnSensitivity.get col ≠ "" ∧
        (table.columnTransforms.get col = "" ∨ explicitIsMask table col) := by
  have hm := isMask_of_requiredMask h
  cases hclass : table.columnSensitivity.get? col with
  | none => simp [classChain, StringMap.get, hclass]
  | some s =>
      have hget : table.columnSensitivity.get col = s := by simp [StringMap.get, hclass]
      rw [classChain, hclass, Option.elim_some, hget, classTransform]
      by_cases hnone : s = "none" ∨ s = ""
      · rw [if_pos hnone]
        rcases hnone with rfl | rfl <;> simp
      · rw [if_neg hnone]
        push Not at hnone
        simp only [ne_eq, hnone, not_false_eq_true, true_and, Option.mem_toList]
        by_cases hexplicit : explicitIsMask table col
        · obtain ⟨t, ht, htm⟩ := hexplicit
          have hmt : t = m := by
            have := requiredMask_of_explicit ht htm
            rw [h] at this
            exact (Option.some_inj.mp this).symm
          subst hmt
          have hne : table.columnTransforms.get col ≠ "" := by
            intro hempty
            rw [hempty, not_isMask_empty] at ht
            cases ht
          rw [sensitivityTransform, if_neg hne, ht]
          simp [explicitIsMask, ht, htm]
        · have hmask : lookupTransform (sensitivityDefaultMask s) = some m := by
            rw [requiredMask_of_not_explicit hexplicit, classMask, hclass] at h
            exact h
          by_cases hempty : table.columnTransforms.get col = ""
          · simp [sensitivityTransform, hempty, hmask]
          · rw [sensitivityTransform, if_neg hempty]
            simp only [hempty, hexplicit, or_self, iff_false]
            intro hlookup
            exact hexplicit ⟨m, hlookup, hm⟩

/-- The chain of a column holds the mask it asks for exactly when nothing stands in its way. -/
theorem mem_columnChain_iff {col : String} {m : Transform} (h : requiredMask table col = some m) :
    m ∈ columnChain table col ↔
      if table.columnSensitivity.entries.length > 0 then
        table.columnSensitivity.get col ≠ "none" ∧ table.columnSensitivity.get col ≠ "" ∧
          (table.columnTransforms.get col = "" ∨ explicitIsMask table col)
      else typeChain table col = [] := by
  have hm := isMask_of_requiredMask h
  have htype : m ∉ typeChain table col := by
    intro hmem
    rw [not_isMask_of_mem_typeChain hmem] at hm
    cases hm
  rw [columnChain]
  split
  · rw [List.mem_append, or_iff_right htype]
    exact mem_classChain_iff h
  · next hsens =>
      have hexplicit := explicitChain_of_requiredMask h hsens
      split
      · next hnil => simp [hnil, hexplicit]
      · next hnil => simp [hnil, htype]

theorem masked_build_iff {col : String} {i : Nat} {m : Transform}
    (hcol : table.columns[i]? = some col) :
    Masked rt (buildColumnTransformPipeline table) i m ↔
      (∀ j, i < j → table.columns[j]? ≠ some col) ∧ m ∈ columnChain table col := by
  rw [masked_iff, chain_buildColumnTransformPipeline, List.getD]
  by_cases hlast : ∀ j, i < j → table.columns[j]? ≠ some col
  · rw [getElem?_buildChains (colIndex_eq_some_iff.mpr ⟨hcol, hlast⟩)]
    exact (and_iff_right hlast).symm
  · have hshadow : ∀ col', colIndex table.columns col' ≠ some i := by
      intro col' hidx
      obtain ⟨hcol', hlater⟩ := colIndex_eq_some_iff.mp hidx
      rw [hcol, Option.some_inj] at hcol'
      subst hcol'
      exact hlast hlater
    rw [getElem?_buildChains_shadowed (List.getElem?_eq_some_iff.mp hcol).1 hshadow]
    simp [hlast]

theorem maskingHolds_iff : MaskingHolds rt table ↔ MaskingUnhindered table := by
  rw [MaskingHolds, MaskingUnhindered, and_comm]
  apply and_congr
  · apply forall₄_congr
    intro col name hget hname
    cases lookupTransform name with
    | none => simp [moveTransforms]
    | some t => simp
  · apply forall₂_congr
    intro i col
    constructor
    · intro hmasked hcol hsome
      obtain ⟨m, hm⟩ := Option.isSome_iff_exists.mp hsome
      obtain ⟨hlast, hmem⟩ := (masked_build_iff hcol).mp (hmasked m hcol hm)
      exact ⟨hlast, (mem_columnChain_iff hm).mp hmem⟩
    · intro hfree m hcol hm
      obtain ⟨hlast, hchain⟩ := hfree hcol (by rw [hm]; rfl)
      exact (masked_build_iff hcol).mpr ⟨hlast, (mem_columnChain_iff hm).mpr hchain⟩

/-- A table of the columns `id` and `ssn`; `ssn` asks for `mask_hash` by name. -/
def ssnTable (sensitivity types : StringMap) (name : String) : GoTableDispatchPayload where
  columns := ["id", "ssn"]
  columnTransforms := ⟨[("ssn", name)], by simp⟩
  columnSensitivity := sensitivity
  columnTypes := types

def noEntries : StringMap := ⟨[], by simp⟩

def oneEntry (key value : String) : StringMap := ⟨[(key, value)], by simp⟩

theorem not_maskingHolds_of_chain {i : Nat} {col : String} {m : Transform}
    (hcol : table.columns[i]? = some col) (hm : requiredMask table col = some m)
    (hchain : m ∉ columnChain table col) : ¬ MaskingHolds rt table := by
  intro h
  exact hchain ((masked_build_iff hcol).mp (h.1 i col m hcol hm)).2

/-- The mask of `ssn` is lost to the class of another column, and to a default of its own type; a
misspelt name goes unnoticed. -/
theorem masking_bypassed :
    (¬ ∃ rt, MaskingHolds rt (ssnTable (oneEntry "id" "pii") noEntries "mask_hash")) ∧
      (¬ ∃ rt, MaskingHolds rt (ssnTable noEntries (oneEntry "ssn" "char(11)") "mask_hash")) ∧
      ¬ ∃ rt, MaskingHolds rt (ssnTable noEntries noEntries "mask_hsah") := by
  refine ⟨?_, ?_, ?_⟩
  · rintro ⟨rt, h⟩
    exact not_maskingHolds_of_chain (i := 1) (m := .maskHash) rfl rfl (by decide +kernel) h
  · rintro ⟨rt, h⟩
    exact not_maskingHolds_of_chain (i := 1) (m := .maskHash) rfl rfl (by decide +kernel) h
  · rintro ⟨rt, h⟩
    obtain ⟨message, hmessage⟩ := h.2 "ssn" "mask_hsah" rfl (by decide) rfl
    cases hmessage

end Masking

end SqlOptima.ColumnMasking
