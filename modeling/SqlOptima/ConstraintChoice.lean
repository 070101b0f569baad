import SqlOptima.ExceptRules
import SqlOptima.InsertionDict
import SqlOptima.TextKeys

namespace SqlOptima.ConstraintChoice

open InsertionDict (assign fromPairs lookup_fromPairs)

/-!
# The operator's choices for the objects of the destination
-/

/-- An object as the engine names it. -/
structure ObjectName where
  schema : String
  table : String
  kind : String
  objectId : String
  deriving DecidableEq

/-- What the character database says of letters. -/
structure Letters where
  lower : Char → List Char
  cased : Char → Bool
  caseIgnorable : Char → Bool
  lower_ne_nil : ∀ c, lower c ≠ []
  lower_dot : lower '.' = ['.']
  lower_colon : lower ':' = [':']
  dot_of_lower : ∀ c, '.' ∈ lower c → c = '.'
  colon_of_lower : ∀ c, ':' ∈ lower c → c = ':'

variable (python : Letters)

/-- A sigma ends a word when a letter stands before it, and none after it. -/
def finalSigma (before after : List Char) : Bool :=
  (before.dropWhile python.caseIgnorable).head?.any python.cased &&
    !(after.dropWhile python.caseIgnorable).head?.any python.cased

/-- A text in lower case, by what stands before it (the last character first) and after it. -/
def lowerFrom (before : List Char) : List Char → List Char → List Char
  | [], _ => []
  | c :: rest, after =>
      (if c = 'Σ' ∧ finalSigma python before (rest ++ after) then ['ς'] else python.lower c) ++
        lowerFrom (c :: before) rest after

/-- `str.lower` -/
def lower (t : String) : String := String.ofList (lowerFrom python [] t.toList [])

def constraintItemKey (o : ObjectName) : String :=
  lower python (o.schema ++ "." ++ o.table ++ ":" ++ o.kind ++ ":" ++ o.objectId)

def disableable : List String :=
  ["check", "unique", "foreign_key", "index", "secondary",
    "trigger"]

def keepOnly : List String := ["primary_key", "primary"]

def keep : String := "keep"

def disable : String := "disable"

/-- An entry of a table's report; what the dictionary lacks is an empty text. -/
structure RawObject where
  id : String := ""
  objectId : String := ""
  kind : String
  recommendedAction : String := ""
  definition : String := ""
  reason : Option String := none
  referenced : Option String := none

structure TableReport where
  schema : String
  table : String
  constraints : List RawObject := []
  indexes : List RawObject := []
  foreignKeys : List RawObject := []
  triggers : List RawObject := []

structure CatalogItem where
  key : String
  object : ObjectName
  recommendedAction : String
  allowedActions : List String
  definition : String
  reason : Option String
  referenced : Option String
  deriving DecidableEq

def orElse (first second : String) : String := if first = "" then second else first

/-- `_catalog_item` -/
def catalogItem (schema table : String) (raw : RawObject) : Option CatalogItem :=
  let objectId := orElse raw.id raw.objectId
  if objectId = "" ∨ raw.kind = "" then none
  else
    let keeps := keepOnly.contains raw.kind
    let allowed := if keeps then [keep] else [keep, disable]
    let recommended := if keeps then keep else orElse raw.recommendedAction keep
    if !disableable.contains raw.kind && !keeps then none
    else some
      { key := constraintItemKey python ⟨schema, table, raw.kind, objectId⟩
        object := ⟨schema, table, raw.kind, objectId⟩
        recommendedAction := if allowed.contains recommended then recommended else keep
        allowedActions := allowed
        definition := raw.definition
        reason := raw.reason
        referenced := raw.referenced }

def buildTargetConstraintCatalog (tables : List TableReport) : List CatalogItem :=
  tables.flatMap fun t =>
    [t.constraints, t.indexes, t.foreignKeys, t.triggers].flatMap fun group =>
      group.filterMap (catalogItem python t.schema t.table)

/-- An item of the submitted plan, which gives its object by the key or by the names. -/
structure SubmittedItem where
  key : String := ""
  schema : String := ""
  table : String := ""
  kind : String := ""
  objectId : String := ""
  action : String := ""

def keyFromRaw (raw : SubmittedItem) : String :=
  orElse raw.key (constraintItemKey python ⟨raw.schema, raw.table, raw.kind, raw.objectId⟩)

structure SubmittedPlan where
  operatorReviewed : Bool
  onStop : String := ""
  items : List SubmittedItem := []

structure PlanItem where
  item : CatalogItem
  action : String

structure AcceptedPlan where
  onStop : String
  createIfMissing : Bool
  items : List PlanItem

inductive PlanError
  | reviewRequired
  | unknownObject (key : String)
  | notAllowed (action : String) (object : ObjectName)

/-- One submitted item: an item that stays as it is need not be known. -/
def choose (catalog : List CatalogItem) (chosen : List (String × String)) (raw : SubmittedItem) :
    Except PlanError (List (String × String)) :=
  let key := keyFromRaw python raw
  let action := orElse raw.action keep
  match catalog.find? fun item => item.key = key with
  | none => if action = disable then .error (.unknownObject key) else .ok chosen
  | some item =>
      if item.allowedActions.contains action then .ok (assign chosen key action)
      else .error (.notAllowed action item.object)

def acceptConstraintPlan (submitted : Option SubmittedPlan) (catalog : List CatalogItem)
    (onStop : String) (createIfMissing : Bool) : Except PlanError AcceptedPlan :=
  match submitted with
  | none => .error .reviewRequired
  | some plan =>
      if plan.operatorReviewed then
        (plan.items.foldlM (choose python catalog) []).map fun chosen =>
          { onStop := orElse plan.onStop (orElse onStop "restore_now")
            createIfMissing := createIfMissing
            items := catalog.map fun item => ⟨item, (chosen.lookup item.key).getD keep⟩ }
      else .error .reviewRequired

def disableItems (plan : AcceptedPlan) : List PlanItem :=
  plan.items.filter fun item => item.action = disable

/-- `DisableConstraintItems`, which compares the action without case. -/
def disableConstraintItems (equalFold : String → String → Bool) (plan : AcceptedPlan) :
    List PlanItem :=
  plan.items.filter fun item => equalFold item.action disable

/-! ## What the operator has chosen -/

/-- An object that the operator means, and the action for it. -/
structure Choice where
  object : ObjectName
  action : String

def SubmittedItem.entry (raw : SubmittedItem) : String × String := (keyFromRaw python raw, raw.action)

def Choice.entry (c : Choice) : String × String := (constraintItemKey python c.object, c.action)

/-- The items whose key the catalog has mean objects with these keys. -/
def Means (catalog : List CatalogItem) (items : List SubmittedItem) (choices : List Choice) : Prop :=
  (items.filter fun raw => catalog.any fun item => item.key = keyFromRaw python raw).map
    (SubmittedItem.entry python) = choices.map (Choice.entry python)

instance (catalog : List CatalogItem) (items : List SubmittedItem) (choices : List Choice) :
    Decidable (Means python catalog items choices) := inferInstanceAs (Decidable (_ = _))

/-- Four names of letters. -/
structure Names where
  schema : List Char
  table : List Char
  kind : List Char
  objectId : List Char
  deriving DecidableEq

def Names.joined (n : Names) : List Char :=
  n.schema ++ '.' :: (n.table ++ ':' :: (n.kind ++ ':' :: n.objectId))

/-- The names in lower case. What a sigma becomes at an end of one depends on the next one. -/
def ObjectName.lowered (o : ObjectName) : Names :=
  let schema := o.schema.toList
  let table := o.table.toList
  let kind := o.kind.toList
  let objectId := o.objectId.toList
  { schema := lowerFrom python [] schema ('.' :: (table ++ ':' :: (kind ++ ':' :: objectId)))
    table := lowerFrom python ('.' :: schema.reverse) table (':' :: (kind ++ ':' :: objectId))
    kind := lowerFrom python (':' :: (table.reverse ++ '.' :: schema.reverse)) kind
      (':' :: objectId)
    objectId := lowerFrom python
      (':' :: (kind.reverse ++ ':' :: (table.reverse ++ '.' :: schema.reverse))) objectId [] }

/-- What stands before and after each of the separators in a text. -/
def cutsAt (sep : Char) : List Char → List (List Char × List Char)
  | [] => []
  | c :: rest =>
      let later := (cutsAt sep rest).map fun cut => (c :: cut.1, cut.2)
      if c = sep then ([], rest) :: later else later

/-- The names that a text can be read as. -/
def readings (text : List Char) : List Names :=
  (cutsAt '.' text).flatMap fun schema =>
    (cutsAt ':' schema.2).flatMap fun table =>
      (cutsAt ':' table.2).map fun kind => ⟨schema.1, table.1, kind.1, kind.2⟩

/-- Without case, the names of the one object, written together, can be read as the other's. -/
def Alike (o o' : ObjectName) : Prop := o'.lowered python ∈ readings (o.lowered python).joined

instance (o o' : ObjectName) : Decidable (Alike python o o') :=
  inferInstanceAs (Decidable (_ ∈ _))

/-- The last choice for an object with such names. -/
def lastWord (choices : List Choice) (o : ObjectName) : Option Choice :=
  (choices.filter fun c => Alike python c.object o).getLast?

/-- The object is disabled by the last choice for it or for one like it just when there is such a
choice for the object itself, and a primary key is not. -/
structure LastWordOwn (choices : List Choice) (item : CatalogItem) : Prop where
  disabled : (lastWord python choices item.object).any (fun c => c.action = disable) = true ↔
    ∃ c ∈ choices, c.object = item.object ∧ c.action = disable
  primaryKept : item.object.kind ∈ keepOnly →
    (lastWord python choices item.object).any (fun c => c.action = disable) = false

instance (choices : List Choice) (item : CatalogItem) :
    Decidable (LastWordOwn python choices item) :=
  decidable_of_iff
    (((lastWord python choices item.object).any (fun c => c.action = disable) = true ↔
        ∃ c ∈ choices, c.object = item.object ∧ c.action = disable) ∧
      (item.object.kind ∈ keepOnly →
        (lastWord python choices item.object).any (fun c => c.action = disable) = false))
    ⟨fun h => ⟨h.1, h.2⟩, fun h => ⟨h.disabled, h.primaryKept⟩⟩

/-- No name holds the separator that comes after it. -/
structure ObjectName.Plain (o : ObjectName) : Prop where
  schema : '.' ∉ o.schema.toList
  table : ':' ∉ o.table.toList
  kind : ':' ∉ o.kind.toList

variable {python}

/-! ## Keys and names -/

attribute [local simp] lowerFrom in
theorem lowerFrom_append (before s t after : List Char) :
    lowerFrom python before (s ++ t) after =
      lowerFrom python before s (t ++ after) ++ lowerFrom python (s.reverse ++ before) t after := by
  induction s generalizing before with
  | nil => rfl
  | cons c s ih =>
      rw [List.cons_append, lowerFrom, lowerFrom, ih, List.reverse_cons, List.append_assoc,
        List.append_assoc, List.append_assoc, List.singleton_append]

theorem lowerFrom_dot (before rest after : List Char) :
    lowerFrom python before ('.' :: rest) after =
      '.' :: lowerFrom python ('.' :: before) rest after := by
  rw [lowerFrom, if_neg (by rintro ⟨h, -⟩; cases h), python.lower_dot, List.singleton_append]

theorem lowerFrom_colon (before rest after : List Char) :
    lowerFrom python before (':' :: rest) after =
      ':' :: lowerFrom python (':' :: before) rest after := by
  rw [lowerFrom, if_neg (by rintro ⟨h, -⟩; cases h), python.lower_colon, List.singleton_append]

/-- Only the separator itself becomes one. -/
theorem not_mem_lowerFrom {sep : Char} (hsep : sep ≠ 'ς')
    (hlower : ∀ c, sep ∈ python.lower c → c = sep) {s : List Char} (h : sep ∉ s)
    (before after : List Char) :
    sep ∉ lowerFrom python before s after := by
  induction s generalizing before with
  | nil => exact List.not_mem_nil
  | cons c s ih =>
      rw [lowerFrom, List.mem_append, not_or]
      refine ⟨?_, ih (List.not_mem_of_not_mem_cons h) _⟩
      split
      · exact fun hmem => hsep (List.mem_singleton.mp hmem)
      · exact fun hmem => h (hlower c hmem ▸ List.mem_cons_self)

theorem key_toList (o : ObjectName) :
    (constraintItemKey python o).toList = (o.lowered python).joined := by
  rw [constraintItemKey, lower, String.toList_ofList]
  simp only [String.toList_append, List.append_assoc]
  change lowerFrom python [] (o.schema.toList ++ '.' :: (o.table.toList ++ ':' ::
    (o.kind.toList ++ ':' :: o.objectId.toList))) [] = _
  rw [lowerFrom_append, lowerFrom_dot, lowerFrom_append, lowerFrom_colon, lowerFrom_append,
    lowerFrom_colon]
  simp only [Names.joined, ObjectName.lowered, List.append_nil]

theorem constraintItemKey_ne_empty (o : ObjectName) : constraintItemKey python o ≠ "" := by
  intro h
  have hnil := congrArg String.toList h
  rw [key_toList] at hnil
  exact List.append_ne_nil_of_right_ne_nil _ (List.cons_ne_nil _ _) hnil

theorem mem_cutsAt {sep : Char} {text left right : List Char} :
    (left, right) ∈ cutsAt sep text ↔ text = left ++ sep :: right := by
  induction text generalizing left with
  | nil => simp [cutsAt]
  | cons c text ih =>
      rw [cutsAt]
      have hlater : (left, right) ∈ (cutsAt sep text).map (fun cut => (c :: cut.1, cut.2)) ↔
          ∃ tail, left = c :: tail ∧ text = tail ++ sep :: right := by
        constructor
        · intro h
          obtain ⟨⟨tail, rest⟩, htail, heq⟩ := List.mem_map.mp h
          obtain ⟨rfl, rfl⟩ := Prod.mk.inj heq
          exact ⟨tail, rfl, ih.mp htail⟩
        · rintro ⟨tail, rfl, htext⟩
          exact List.mem_map.mpr ⟨(tail, right), ih.mpr htext, rfl⟩
      cases left with
      | nil =>
          split
          · next heq => simp [heq, eq_comm]
          · next hne => simp [hne]
      | cons d left =>
          have hcons : (∃ tail, d :: left = c :: tail ∧ text = tail ++ sep :: right) ↔
              c :: text = d :: left ++ sep :: right := by
            simp [eq_comm, and_assoc]
          rw [← hcons, ← hlater]
          split
          · simp
          · exact Iff.rfl

theorem mem_readings {text : List Char} {n : Names} : n ∈ readings text ↔ text = n.joined := by
  constructor
  · intro h
    obtain ⟨schema, hschema, h⟩ := List.mem_flatMap.mp h
    obtain ⟨table, htable, h⟩ := List.mem_flatMap.mp h
    obtain ⟨kind, hkind, rfl⟩ := List.mem_map.mp h
    rw [mem_cutsAt.mp hschema, mem_cutsAt.mp htable, mem_cutsAt.mp hkind]
    rfl
  · intro h
    exact List.mem_flatMap.mpr ⟨(n.schema, n.table ++ ':' :: (n.kind ++ ':' :: n.objectId)),
      mem_cutsAt.mpr h, List.mem_flatMap.mpr ⟨(n.table, n.kind ++ ':' :: n.objectId),
        mem_cutsAt.mpr rfl, List.mem_map.mpr ⟨(n.kind, n.objectId), mem_cutsAt.mpr rfl, rfl⟩⟩⟩

/-- The key does not tell apart just the objects whose names can be read as each other's. -/
theorem key_eq_iff {o o' : ObjectName} :
    constraintItemKey python o = constraintItemKey python o' ↔ Alike python o o' := by
  rw [← String.toList_inj, key_toList, key_toList, Alike, mem_readings]

/-- Names without the separators after them are told apart but for case. -/
theorem alike_iff_of_plain {o o' : ObjectName} (ho : o.Plain) (ho' : o'.Plain) :
    Alike python o o' ↔ o.lowered python = o'.lowered python := by
  have hdot : ∀ {s : List Char}, '.' ∉ s → ∀ before after, '.' ∉ lowerFrom python before s after :=
    not_mem_lowerFrom (by decide) python.dot_of_lower
  have hcolon : ∀ {s : List Char}, ':' ∉ s → ∀ before after,
      ':' ∉ lowerFrom python before s after :=
    not_mem_lowerFrom (by decide) python.colon_of_lower
  rw [Alike, mem_readings, Names.joined, Names.joined, ObjectName.lowered, ObjectName.lowered,
    Names.mk.injEq, TextKeys.append_sep_inj (hdot ho.schema _ _) (hdot ho'.schema _ _),
    TextKeys.append_sep_inj (hcolon ho.table _ _) (hcolon ho'.table _ _),
    TextKeys.append_sep_inj (hcolon ho.kind _ _) (hcolon ho'.kind _ _)]

/-! ## The accepted plan -/

theorem key_of_mem_catalog {tables : List TableReport} {item : CatalogItem}
    (h : item ∈ buildTargetConstraintCatalog python tables) :
    item.key = constraintItemKey python item.object := by
  obtain ⟨t, -, h⟩ := List.mem_flatMap.mp h
  obtain ⟨group, -, h⟩ := List.mem_flatMap.mp h
  obtain ⟨raw, -, h⟩ := List.mem_filterMap.mp h
  simp only [catalogItem] at h
  split at h
  · cases h
  · split at h
    · cases h
    · cases h
      rfl

variable {catalog : List CatalogItem} {choices : List Choice} {chosen : List (String × String)}

theorem choose_ok {raw : SubmittedItem} {chosen' : List (String × String)}
    (h : choose python catalog chosen raw = .ok chosen') {item : CatalogItem}
    (hitem : item ∈ catalog) :
    chosen'.lookup item.key =
      if keyFromRaw python raw = item.key then some (orElse raw.action keep)
      else chosen.lookup item.key := by
  simp only [choose] at h
  split at h
  · next hnone =>
      have hne : keyFromRaw python raw ≠ item.key := by
        intro heq
        have hnot := List.find?_eq_none.mp hnone item hitem
        exact hnot (decide_eq_true heq.symm)
      rw [if_neg hne]
      split at h
      · cases h
      · cases h
        rfl
  · split at h
    · cases h
      rw [InsertionDict.lookup_assign]
      by_cases heq : keyFromRaw python raw = item.key
      · rw [if_pos heq, if_pos heq.symm]
      · rw [if_neg heq, if_neg fun hsame => heq hsame.symm]
    · cases h

/-- After all items, a catalogued key has the action of the last item that gives it. -/
theorem chosen_lookup {raws : List SubmittedItem}
    (h : raws.foldlM (choose python catalog) [] = .ok chosen) {item : CatalogItem}
    (hitem : item ∈ catalog) :
    chosen.lookup item.key =
      (raws.filter fun raw => keyFromRaw python raw = item.key).getLast?.map fun raw =>
        orElse raw.action keep := by
  induction raws using List.reverseRecOn generalizing chosen with
  | nil =>
      cases h
      rfl
  | append_singleton raws raw ih =>
      rw [List.foldlM_append] at h
      cases hbefore : raws.foldlM (choose python catalog) [] with
      | error e =>
          rw [hbefore] at h
          cases h
      | ok before =>
          rw [hbefore] at h
          have hlast : choose python catalog before raw = .ok chosen := by
            rw [← h]
            exact (bind_pure _).symm
          rw [choose_ok hlast hitem, ih hbefore, List.filter_append, List.filter_cons,
            List.filter_nil]
          split
          · next heq => rw [if_pos (decide_eq_true heq), List.getLast?_concat, Option.map_some]
          · next hne => rw [if_neg (by simpa using hne), List.append_nil]

theorem lastWord_action {items : List SubmittedItem} (hitems : Means python catalog items choices)
    {item : CatalogItem} (hitem : item ∈ catalog)
    (hkey : item.key = constraintItemKey python item.object) :
    (items.filter fun raw => keyFromRaw python raw = item.key).getLast?.map
      (fun raw => orElse raw.action keep) =
        (lastWord python choices item.object).map fun c => orElse c.action keep := by
  have hknown : (items.filter fun raw => keyFromRaw python raw = item.key) =
      (items.filter fun raw => catalog.any fun other => other.key = keyFromRaw python raw).filter
        fun raw => keyFromRaw python raw = item.key := by
    rw [List.filter_filter]
    refine List.filter_congr fun raw _ => ?_
    by_cases heq : keyFromRaw python raw = item.key
    · have hany : catalog.any (fun other => other.key = keyFromRaw python raw) = true :=
        List.any_eq_true.mpr ⟨item, hitem, decide_eq_true heq.symm⟩
      rw [hany, Bool.and_true]
    · rw [decide_eq_false heq, Bool.false_and]
  have hentries : (items.filter fun raw => keyFromRaw python raw = item.key).map
      (SubmittedItem.entry python) =
        (choices.filter fun c => Alike python c.object item.object).map (Choice.entry python) := by
    have hfilter := congrArg (List.filter fun e => e.1 = item.key) hitems
    rw [List.filter_map, List.filter_map] at hfilter
    rw [hknown]
    refine hfilter.trans (congrArg (List.map (Choice.entry python)) ?_)
    refine List.filter_congr fun c _ => ?_
    rw [Function.comp_apply, decide_eq_decide, hkey]
    exact key_eq_iff
  have hlast := congrArg (fun entries => entries.getLast?.map fun e => orElse e.2 keep) hentries
  rw [List.getLast?_map, List.getLast?_map, Option.map_map, Option.map_map] at hlast
  exact hlast

/-- An object is disabled when the operator has chosen so for that very object, a primary key
never, and the plan has the catalog's items as they are. -/
structure OnlyChosen (choices : List Choice) (catalog : List CatalogItem) (plan : AcceptedPlan) :
    Prop where
  disabled : ∀ p ∈ plan.items, p.action = disable ↔
    ∃ c ∈ choices, c.object = p.item.object ∧ c.action = disable
  primaryKept : ∀ p ∈ plan.items, p.item.object.kind ∈ keepOnly → p.action ≠ disable
  complete : plan.items.map PlanItem.item = catalog

theorem orElse_keep_eq_disable {action : String} :
    orElse action keep = disable ↔ action = disable := by
  rw [orElse]
  split
  · next h =>
      rw [h]
      decide
  · exact Iff.rfl

theorem action_eq_disable_iff (last : Option Choice) :
    (last.map fun c => orElse c.action keep).getD keep = disable ↔
      last.any (fun c => c.action = disable) = true := by
  cases last with
  | none => decide
  | some c => exact orElse_keep_eq_disable.trans decide_eq_true_iff.symm

theorem onlyChosen_iff {tables : List TableReport} {plan : SubmittedPlan} {onStop : String}
    {createIfMissing : Bool} {accepted : AcceptedPlan}
    (hitems : Means python (buildTargetConstraintCatalog python tables) plan.items choices)
    (h : acceptConstraintPlan python (some plan) (buildTargetConstraintCatalog python tables) onStop
      createIfMissing = .ok accepted) :
    OnlyChosen choices (buildTargetConstraintCatalog python tables) accepted ↔
      ∀ item ∈ buildTargetConstraintCatalog python tables, LastWordOwn python choices item := by
  rw [acceptConstraintPlan] at h
  split at h
  · obtain ⟨chosen, hchosen, rfl⟩ := ExceptRules.exists_of_map_eq_ok h
    have haction : ∀ item ∈ buildTargetConstraintCatalog python tables,
        (chosen.lookup item.key).getD keep = disable ↔
          (lastWord python choices item.object).any (fun c => c.action = disable) = true := by
      intro item hitem
      rw [chosen_lookup hchosen hitem, lastWord_action hitems hitem (key_of_mem_catalog hitem)]
      exact action_eq_disable_iff _
    constructor
    · intro hplan item hitem
      have hmem := List.mem_map_of_mem (f := fun i =>
        PlanItem.mk i ((chosen.lookup i.key).getD keep)) hitem
      refine ⟨(haction item hitem).symm.trans (hplan.disabled _ hmem), fun hkind => ?_⟩
      exact Bool.eq_false_iff.mpr fun hany =>
        hplan.primaryKept _ hmem hkind ((haction item hitem).mpr hany)
    · intro hlast
      constructor
      · intro p hp
        obtain ⟨item, hitem, rfl⟩ := List.mem_map.mp hp
        exact (haction item hitem).trans (hlast item hitem).disabled
      · intro p hp hkind hdisable
        obtain ⟨item, hitem, rfl⟩ := List.mem_map.mp hp
        have hany := (haction item hitem).mp hdisable
        rw [(hlast item hitem).primaryKept hkind] at hany
        cases hany
      · rw [List.map_map]
        exact List.map_id _
  · cases h

/-- Where names differ in more than case and hold no separators, and the items submitted for an
object agree, each object has its own word. -/
theorem lastWordOwn_of_plain {item : CatalogItem} (hitem : item.object.Plain)
    (hplain : ∀ c ∈ choices, c.object.Plain)
    (hcase : ∀ c ∈ choices, c.object.lowered python = item.object.lowered python →
      c.object = item.object)
    (hagree : ∀ c ∈ choices, ∀ d ∈ choices, c.object = d.object → c.action = d.action)
    (hprimary : ∀ c ∈ choices, c.action = disable → c.object.kind ∉ keepOnly) :
    LastWordOwn python choices item := by
  have hlike : ∀ c ∈ choices, Alike python c.object item.object ↔ c.object = item.object := by
    intro c hc
    rw [alike_iff_of_plain (hplain c hc) hitem]
    exact ⟨hcase c hc, congrArg _⟩
  have hlast : ∀ c ∈ lastWord python choices item.object, c ∈ choices ∧ c.object = item.object := by
    intro c hc
    obtain ⟨hmem, halike⟩ := List.mem_filter.mp (List.mem_of_getLast? hc)
    exact ⟨hmem, (hlike c hmem).mp (of_decide_eq_true halike)⟩
  constructor
  · rw [Option.any_eq_true]
    constructor
    · rintro ⟨c, hc, hdisable⟩
      exact ⟨c, (hlast c hc).1, (hlast c hc).2, of_decide_eq_true hdisable⟩
    · rintro ⟨c, hc, hobject, hdisable⟩
      have hne : choices.filter (fun d => Alike python d.object item.object) ≠ [] :=
        List.ne_nil_of_mem (List.mem_filter.mpr ⟨hc, decide_eq_true ((hlike c hc).mpr hobject)⟩)
      obtain ⟨d, hd⟩ := List.getLast?_isSome.mpr hne |> Option.isSome_iff_exists.mp
      refine ⟨d, hd, decide_eq_true ?_⟩
      rw [← hdisable]
      exact hagree d (hlast d hd).1 c hc ((hlast d hd).2.trans hobject.symm)
  · intro hkind
    rw [Option.any_eq_false]
    intro c hc
    refine decide_eq_false fun hdisable => hprimary c (hlast c hc).1 hdisable ?_
    rw [(hlast c hc).2]
    exact hkind

section Samples

theorem toLower_of_mark {c mark : Char} (hmark : mark.toNat < 97) (h : c.toLower = mark) :
    c = mark := by
  unfold Char.toLower at h
  split at h
  · next hupper =>
      exfalso
      have hlow : 65 ≤ c.val.toNat := UInt32.le_iff_toNat_le.mp hupper.1
      have hhigh : c.val.toNat ≤ 90 := UInt32.le_iff_toNat_le.mp hupper.2
      have hsum : (c.val + ('a'.val - 'A'.val)).toNat = c.val.toNat + 32 := by
        have hdiff : ('a'.val - 'A'.val).toNat = 32 := by decide
        rw [UInt32.toNat_add, hdiff]
        omega
      rw [← h] at hmark
      change (c.val + ('a'.val - 'A'.val)).toNat < 97 at hmark
      omega
  · exact h

def ascii : Letters where
  lower := fun c => [c.toLower]
  cased := Char.isAlpha
  caseIgnorable := fun c => c = '.' ∨ c = ':' ∨ c = '\''
  lower_ne_nil := fun _ => List.cons_ne_nil _ _
  lower_dot := rfl
  lower_colon := rfl
  dot_of_lower := fun _ h => toLower_of_mark (by decide) (List.mem_singleton.mp h).symm
  colon_of_lower := fun _ h => toLower_of_mark (by decide) (List.mem_singleton.mp h).symm

/-- Two tables of a PostgreSQL schema, each with a check of the same name. -/
def sampleTables : List TableReport :=
  [{ schema := "public", table := "Orders", constraints := [{ id := "ck", kind := "check" }] },
    { schema := "public", table := "orders", constraints := [{ id := "ck", kind := "check" }] }]

def disableCheck (table : String) : Choice :=
  ⟨⟨"public", table, "check", "ck"⟩, disable⟩

/-- The items give their objects by the names. -/
def samplePlan (choices : List Choice) : SubmittedPlan :=
  { operatorReviewed := true
    items := choices.map fun c =>
      { schema := c.object.schema
        table := c.object.table
        kind := c.object.kind
        objectId := c.object.objectId
        action := c.action } }

def sampleAccepted (choices : List Choice) : Except PlanError AcceptedPlan :=
  acceptConstraintPlan ascii (some (samplePlan choices))
    (buildTargetConstraintCatalog ascii sampleTables) "" false

theorem exists_plan_of_outcome (choices : List Choice) (outcome : List (ObjectName × String))
    (h : ((sampleAccepted choices).toOption.map fun plan =>
      plan.items.map fun p => (p.item.object, p.action)) = some outcome) :
    ∃ plan, sampleAccepted choices = .ok plan ∧
      plan.items.map (fun p => (p.item.object, p.action)) = outcome := by
  obtain ⟨plan, hplan, houtcome⟩ := Option.map_eq_some_iff.mp h
  refine ⟨plan, ?_, houtcome⟩
  cases haccepted : sampleAccepted choices with
  | error e =>
      rw [haccepted] at hplan
      cases hplan
  | ok plan' =>
      rw [haccepted] at hplan
      cases hplan
      rfl

theorem both_disabled : ∃ plan, sampleAccepted [disableCheck "Orders", disableCheck "orders"] =
    .ok plan ∧ OnlyChosen [disableCheck "Orders", disableCheck "orders"]
      (buildTargetConstraintCatalog ascii sampleTables) plan := by
  obtain ⟨plan, hplan, -⟩ := exists_plan_of_outcome
    [disableCheck "Orders", disableCheck "orders"]
    [((disableCheck "Orders").object, disable), ((disableCheck "orders").object, disable)]
    (by decide +kernel)
  exact ⟨plan, hplan, (onlyChosen_iff (by decide +kernel) hplan).mpr (by decide +kernel)⟩

/-- One table's check is chosen, and the other table's is disabled with it. -/
theorem other_case_disabled : ∃ plan, sampleAccepted [disableCheck "Orders"] = .ok plan ∧
    ¬OnlyChosen [disableCheck "Orders"]
      (buildTargetConstraintCatalog ascii sampleTables) plan := by
  obtain ⟨plan, hplan, hitems⟩ := exists_plan_of_outcome [disableCheck "Orders"]
    [((disableCheck "Orders").object, disable), ((disableCheck "orders").object, disable)]
    (by decide +kernel)
  refine ⟨plan, hplan, fun h => ?_⟩
  have hmem : ((disableCheck "orders").object, disable) ∈
      plan.items.map fun p => (p.item.object, p.action) := by
    rw [hitems]
    exact List.mem_cons_of_mem _ List.mem_cons_self
  obtain ⟨p, hp, hpair⟩ := List.mem_map.mp hmem
  obtain ⟨hobject, haction⟩ := Prod.mk.inj hpair
  obtain ⟨c, hc, hsame, -⟩ := (h.disabled p hp).mp haction
  rw [List.mem_singleton.mp hc, hobject] at hsame
  exact absurd hsame (by decide +kernel)

end Samples

end SqlOptima.ConstraintChoice
