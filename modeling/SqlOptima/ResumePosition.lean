import Mathlib.Data.List.Nodup
import SqlOptima.CapturePosition
import SqlOptima.ReplicationBus

namespace SqlOptima.ResumePosition

open SqlOptima.Lsn
open SqlOptima.CdcCapture
open SqlOptima.ChangeApply
open SqlOptima.ReplicationBus
open SqlOptima.CapturePosition (qualifiedName AgentState)

section Validators

def isIdentifierStart (c : Char) : Bool := c.isAlpha || c = '_'

def isIdentifierChar (c : Char) : Bool := c.isAlphanum || c = '_'

def isIdentifier (s : String) : Bool :=
  match s.toList with
  | [] => false
  | c :: cs => isIdentifierStart c && cs.all isIdentifierChar

/-- `strip` cuts the blanks around a name. -/
def validateIdentifier (strip : String → String) (value : String) : Option String :=
  if isIdentifier (strip value) then some (strip value) else none

/-- The names in the letter case each was first given in. -/
def dedupNames (lower : String → String) : List String → List String → List String
  | _, [] => []
  | seen, name :: names =>
      if lower name ∈ seen then dedupNames lower seen names
      else name :: dedupNames lower (lower name :: seen) names

def validateTableList (lower strip : String → String) (tables : List String) :
    Option (List String) :=
  match tables.mapM (validateIdentifier strip) with
  | none => none
  | some names => if dedupNames lower [] names = [] then none else some (dedupNames lower [] names)

variable {lower strip : String → String}

theorem isIdentifier_of_validate {value name : String}
    (h : validateIdentifier strip value = some name) : isIdentifier name = true := by
  rw [validateIdentifier] at h
  split at h
  · next hvalid =>
      cases h
      exact hvalid
  · cases h

theorem isIdentifier_of_mapM {values names : List String}
    (h : values.mapM (validateIdentifier strip) = some names) :
    ∀ name ∈ names, isIdentifier name = true := by
  induction values generalizing names with
  | nil =>
      cases h
      nofun
  | cons value values ih =>
      rw [List.mapM_cons] at h
      obtain ⟨first, hfirst, h⟩ := Option.bind_eq_some_iff.mp h
      obtain ⟨later, hlater, h⟩ := Option.bind_eq_some_iff.mp h
      cases h
      exact List.forall_mem_cons.mpr ⟨isIdentifier_of_validate hfirst, ih hlater⟩

theorem mem_dedupNames {seen names : List String} {name : String}
    (h : name ∈ dedupNames lower seen names) : name ∈ names ∧ lower name ∉ seen := by
  induction names generalizing seen with
  | nil => cases h
  | cons first names ih =>
      rw [dedupNames] at h
      split at h
      · exact ⟨List.mem_cons_of_mem _ (ih h).1, (ih h).2⟩
      · next hnew =>
          rcases List.mem_cons.mp h with rfl | hlater
          · exact ⟨List.mem_cons_self, hnew⟩
          · exact ⟨List.mem_cons_of_mem _ (ih hlater).1,
              List.not_mem_of_not_mem_cons (ih hlater).2⟩

theorem nodup_dedupNames (seen names : List String) :
    ((dedupNames lower seen names).map lower).Nodup := by
  induction names generalizing seen with
  | nil => exact List.nodup_nil
  | cons first names ih =>
      rw [dedupNames]
      split
      · exact ih seen
      · rw [List.map_cons, List.nodup_cons]
        refine ⟨fun hmem => ?_, ih _⟩
        obtain ⟨name, hname, heq⟩ := List.mem_map.mp hmem
        exact (mem_dedupNames hname).2 (heq ▸ List.mem_cons_self)

theorem validateTableList_some {tables names : List String}
    (h : validateTableList lower strip tables = some names) :
    (∀ name ∈ names, isIdentifier name = true) ∧ (names.map lower).Nodup := by
  rw [validateTableList] at h
  split at h
  · cases h
  · next validated hvalidated =>
      split at h
      · cases h
      · cases h
        exact ⟨fun name hname => isIdentifier_of_mapM hvalidated name (mem_dedupNames hname).1,
          nodup_dedupNames [] validated⟩

end Validators

structure StreamTable where
  name : String
  targetTableName : Option String

def StreamTable.targetName (t : StreamTable) : String :=
  match t.targetTableName with
  | none => t.name
  | some n => if n ≠ "" then n else t.name

/-- A stored stream: its schema and table names have passed the validators. -/
structure StreamConfig (lower : String → String) where
  sourceSchema : String
  targetSchema : String
  tables : List StreamTable
  schemaValid : isIdentifier sourceSchema
  namesValid : ∀ t ∈ tables, isIdentifier t.name
  distinct : (tables.map fun t => lower t.name).Nodup

/-- Names that have passed the validators make a stream. -/
theorem exists_streamConfig {lower strip : String → String} {schema source target : String}
    {tables names : List String} (hschema : validateIdentifier strip schema = some source)
    (htables : validateTableList lower strip tables = some names) :
    ∃ cfg : StreamConfig lower, cfg.sourceSchema = source ∧ cfg.targetSchema = target ∧
      cfg.tables.map StreamTable.name = names := by
  obtain ⟨hnames, hdistinct⟩ := validateTableList_some htables
  have hmap : (names.map fun name => StreamTable.mk name none).map StreamTable.name = names := by
    rw [List.map_map]
    exact List.map_id names
  refine ⟨⟨source, target, names.map fun name => ⟨name, none⟩, isIdentifier_of_validate hschema,
    fun t ht => ?_, ?_⟩, rfl, rfl, hmap⟩
  · obtain ⟨name, hname, rfl⟩ := List.mem_map.mp ht
    exact hnames name hname
  · rw [List.map_map]
    exact hdistinct

structure CheckpointEntry where
  tableSchema : String
  tableName : String
  lsn : LSN

def CheckpointEntry.key (e : CheckpointEntry) : String × String := (e.tableSchema, e.tableName)

/-- The checkpoint table of the target, under its primary key. -/
structure CheckpointTable where
  rows : List CheckpointEntry
  primaryKey : (rows.map CheckpointEntry.key).Nodup

namespace CheckpointTable

def position (c : CheckpointTable) : Checkpoints := fun k =>
  (c.rows.find? fun e => e.key = k).map CheckpointEntry.lsn

def loadAll (c : CheckpointTable) (schema : String) : List CheckpointEntry :=
  c.rows.filter fun e => e.tableSchema = schema

end CheckpointTable

namespace StreamConfig

variable {lower : String → String} (cfg : StreamConfig lower)

def consumer : ConsumerConfig where
  targetSchema := cfg.targetSchema
  targetNames := cfg.tables.map fun t => (t.name, t.targetName)
  lower := lower

/-- The tables with a capture loop; without an allow-list, all of the schema. -/
def replicated (discovered : List TableInfo) : List TableInfo :=
  if cfg.tables = [] then discovered
  else discovered.filter fun d => lower d.tableName ∈ cfg.tables.map fun t => lower t.name

def targetCheckpointTableName (sourceTable : String) : String :=
  match cfg.tables.reverse.find? fun t => lower t.name = lower sourceTable with
  | some t => if t.targetName ≠ "" then t.targetName else lower sourceTable
  | none => lower sourceTable

def sourceKey (t : StreamTable) : String := cfg.sourceSchema ++ "." ++ t.name

/-- The row read for a table: the one of its target name, else the last one
whose name is the same in lower case. -/
def checkpointLsn (checkpoints : List CheckpointEntry) (t : StreamTable) : Option LSN :=
  let target := cfg.targetCheckpointTableName t.name
  match checkpoints.reverse.find? fun e => e.key = (cfg.targetSchema, target) with
  | some e => some e.lsn
  | none =>
      (checkpoints.reverse.find? fun e =>
        (e.tableSchema, lower e.tableName) = (cfg.targetSchema, lower target)).map
          CheckpointEntry.lsn

def sourcePositionsFromCheckpoints (checkpoints : List CheckpointEntry) (key : String) :
    Option LSN :=
  cfg.tables.reverse.findSome? fun t =>
    if cfg.sourceKey t = key then cfg.checkpointLsn checkpoints t else none

/-- The agent of a started stream, seeded from the checkpoints of the target. -/
def seededAgent {Value : Type} (checkpoints : CheckpointTable) : AgentState Value :=
  CapturePosition.initial
    (cfg.sourcePositionsFromCheckpoints (checkpoints.loadAll cfg.targetSchema))

/-- The position a table's loop takes its first batch from. -/
def startPosition (checkpoints : CheckpointTable) (d : TableInfo) : Option LSN :=
  ((cfg.seededAgent checkpoints : AgentState Unit).recorded (qualifiedName d)).head?

/-- The row the consumer of the stream writes for a table of the source. -/
def savedPosition (checkpoints : CheckpointTable) (d : TableInfo) : Option LSN :=
  checkpoints.position (cfg.targetSchema, cfg.consumer.targetName d.tableName)

/-- The stream names the table in the letter case the server reports. -/
def Spelled (d : TableInfo) : Prop :=
  cfg.sourceSchema = d.schemaName ∧ d.tableName ∈ cfg.tables.map StreamTable.name

/-- A table with a checkpoint is spelled as the server reports it, and no other
row of the target schema has its target name in another letter case while it has
none of its own. -/
structure Resumes (checkpoints : CheckpointTable) (d : TableInfo) : Prop where
  spelled : cfg.savedPosition checkpoints d ≠ none → cfg.Spelled d
  unshared : cfg.savedPosition checkpoints d = none → cfg.Spelled d →
    ∀ e ∈ checkpoints.rows, e.tableSchema = cfg.targetSchema →
      lower e.tableName ≠ lower (cfg.consumer.targetName d.tableName)

end StreamConfig

section Names

variable {lower : String → String}

theorem dot_notMem_of_isIdentifier {s : String} (h : isIdentifier s) : '.' ∉ s.toList := by
  unfold isIdentifier at h
  split at h
  · exact absurd h (by decide)
  · next c cs heq =>
      rw [Bool.and_eq_true, List.all_eq_true] at h
      rw [heq, List.mem_cons, not_or]
      constructor
      · rintro rfl
        exact absurd h.1 (by decide)
      · intro hmem
        exact absurd (h.2 _ hmem) (by decide)

theorem sourceKey_eq_qualifiedName_iff (cfg : StreamConfig lower) {t : StreamTable}
    (ht : t ∈ cfg.tables) (d : TableInfo) :
    cfg.sourceKey t = qualifiedName d ↔ cfg.sourceSchema = d.schemaName ∧ t.name = d.tableName := by
  have hschema := dot_notMem_of_isIdentifier cfg.schemaValid
  have hname := dot_notMem_of_isIdentifier (cfg.namesValid t ht)
  constructor
  · intro h
    have hlist := congrArg String.toList h
    simp only [StreamConfig.sourceKey, qualifiedName, String.toList_append, List.append_assoc]
      at hlist
    obtain ⟨hs, -, hn⟩ := (List.append_cons_inj_of_notMem hschema hname).mp hlist
    exact ⟨String.toList_inj.mp hs, String.toList_inj.mp hn⟩
  · rintro ⟨hs, hn⟩
    rw [StreamConfig.sourceKey, qualifiedName, hs, hn]

end Names

section Seeding

variable {lower : String → String} (cfg : StreamConfig lower)

/-- The consumer and the seeding resolve a name to one target. -/
theorem targetCheckpointTableName_eq (name : String) :
    cfg.targetCheckpointTableName name = cfg.consumer.targetName name := by
  have hfind : cfg.consumer.targetNames.reverse.find?
      (fun p => cfg.consumer.lower p.1 = cfg.consumer.lower name) =
      (cfg.tables.reverse.find? fun t => lower t.name = lower name).map
        fun t => (t.name, t.targetName) := by
    rw [StreamConfig.consumer, ← List.map_reverse, List.find?_map]
    rfl
  rw [StreamConfig.targetCheckpointTableName, ConsumerConfig.targetName, hfind]
  cases cfg.tables.reverse.find? fun t => lower t.name = lower name with
  | none => rfl
  | some t => rfl

theorem find?_key {rows : List CheckpointEntry} (hnodup : (rows.map CheckpointEntry.key).Nodup)
    {e : CheckpointEntry} (he : e ∈ rows) : (rows.find? fun r => r.key = e.key) = some e := by
  induction rows with
  | nil => exact absurd he List.not_mem_nil
  | cons r rows ih =>
      rw [List.map_cons, List.nodup_cons] at hnodup
      rcases List.mem_cons.mp he with rfl | he
      · exact List.find?_cons_of_pos (by simp)
      · rw [List.find?_cons_of_neg, ih hnodup.2 he]
        rw [decide_eq_true_eq]
        intro hkey
        exact hnodup.1 (hkey ▸ List.mem_map_of_mem he)

theorem position_eq_some_iff (c : CheckpointTable) (k : String × String) (l : LSN) :
    c.position k = some l ↔ ∃ e ∈ c.rows, e.key = k ∧ e.lsn = l := by
  rw [CheckpointTable.position, Option.map_eq_some_iff]
  constructor
  · rintro ⟨e, he, rfl⟩
    exact ⟨e, List.mem_of_find?_eq_some he, by simpa using List.find?_some he, rfl⟩
  · rintro ⟨e, he, rfl, rfl⟩
    exact ⟨e, find?_key c.primaryKey he, rfl⟩

/-- The seeding finds the row of a target name under the name itself. -/
theorem checkpointLsn_of_position {checkpoints : CheckpointTable} {t : StreamTable} {l : LSN}
    (h : checkpoints.position (cfg.targetSchema, cfg.consumer.targetName t.name) = some l) :
    cfg.checkpointLsn (checkpoints.loadAll cfg.targetSchema) t = some l := by
  obtain ⟨e, he, hkey, rfl⟩ := (position_eq_some_iff _ _ _).mp h
  have hmem : e ∈ (checkpoints.loadAll cfg.targetSchema).reverse := by
    rw [List.mem_reverse, CheckpointTable.loadAll, List.mem_filter]
    exact ⟨he, decide_eq_true (congrArg Prod.fst hkey)⟩
  have hnodup : ((checkpoints.loadAll cfg.targetSchema).reverse.map CheckpointEntry.key).Nodup := by
    rw [List.map_reverse]
    apply List.nodup_reverse.mpr
    exact checkpoints.primaryKey.sublist (List.filter_sublist.map _)
  have hfind := find?_key hnodup hmem
  rw [hkey] at hfind
  simp only [StreamConfig.checkpointLsn, targetCheckpointTableName_eq, hfind]

/-- Without that row it takes any row of the schema in another letter case. -/
theorem checkpointLsn_eq_none_iff {checkpoints : CheckpointTable} {t : StreamTable}
    (h : checkpoints.position (cfg.targetSchema, cfg.consumer.targetName t.name) = none) :
    cfg.checkpointLsn (checkpoints.loadAll cfg.targetSchema) t = none ↔
      ∀ e ∈ checkpoints.rows, e.tableSchema = cfg.targetSchema →
        lower e.tableName ≠ lower (cfg.consumer.targetName t.name) := by
  have hfind : (checkpoints.loadAll cfg.targetSchema).reverse.find?
      (fun e => e.key = (cfg.targetSchema, cfg.consumer.targetName t.name)) = none := by
    rw [List.find?_eq_none]
    intro e he hkey
    rw [List.mem_reverse, CheckpointTable.loadAll, List.mem_filter] at he
    have hsome := (position_eq_some_iff checkpoints _ _).mpr
      ⟨e, he.1, by simpa using hkey, rfl⟩
    exact absurd (h.symm.trans hsome) (by simp)
  simp only [StreamConfig.checkpointLsn, targetCheckpointTableName_eq, hfind]
  simp only [Option.map_eq_none_iff, List.find?_eq_none, List.mem_reverse,
    CheckpointTable.loadAll, List.mem_filter, decide_eq_true_eq, Prod.mk.injEq, not_and, and_imp]
  exact ⟨fun hall e he hs => hall e he hs hs, fun hall e he hs _ => hall e he hs⟩

theorem eq_of_name {t u : StreamTable} (ht : t ∈ cfg.tables) (hu : u ∈ cfg.tables)
    (h : t.name = u.name) : t = u :=
  List.inj_on_of_nodup_map cfg.distinct ht hu (congrArg lower h)

theorem findSome?_unique {α β : Type} {p : α → Prop} [DecidablePred p] {f : α → Option β}
    {l : List α} {a : α} (ha : a ∈ l) (hp : p a) (hunique : ∀ b ∈ l, p b → b = a) :
    (l.findSome? fun b => if p b then f b else none) = f a := by
  have hvalue : ∀ b ∈ l, ∀ v, (if p b then f b else none) = some v → f a = some v := by
    intro b hb v hv
    obtain ⟨hpb, hv⟩ := Option.ite_none_right_eq_some.mp hv
    rw [← hunique b hb hpb, hv]
  cases hfind : l.findSome? fun b => if p b then f b else none with
  | none =>
      have hnone := List.findSome?_eq_none_iff.mp hfind a ha
      rw [if_pos hp] at hnone
      exact hnone.symm
  | some v =>
      obtain ⟨b, hb, hv⟩ := List.exists_of_findSome?_eq_some hfind
      exact (hvalue b hb v hv).symm

theorem sourcePositions_of_spelled (checkpoints : List CheckpointEntry) {d : TableInfo}
    {t : StreamTable} (ht : t ∈ cfg.tables) (hschema : cfg.sourceSchema = d.schemaName)
    (hname : t.name = d.tableName) :
    cfg.sourcePositionsFromCheckpoints checkpoints (qualifiedName d) =
      cfg.checkpointLsn checkpoints t := by
  apply findSome?_unique (List.mem_reverse.mpr ht)
  · exact (sourceKey_eq_qualifiedName_iff cfg ht d).mpr ⟨hschema, hname⟩
  · intro u hu hkey
    rw [List.mem_reverse] at hu
    apply eq_of_name cfg hu ht
    rw [((sourceKey_eq_qualifiedName_iff cfg hu d).mp hkey).2, hname]

theorem sourcePositions_of_not_spelled (checkpoints : List CheckpointEntry) {d : TableInfo}
    (h : ¬ cfg.Spelled d) :
    cfg.sourcePositionsFromCheckpoints checkpoints (qualifiedName d) = none := by
  rw [StreamConfig.sourcePositionsFromCheckpoints, List.findSome?_eq_none_iff]
  intro t ht
  rw [List.mem_reverse] at ht
  apply if_neg
  intro hkey
  obtain ⟨hschema, hname⟩ := (sourceKey_eq_qualifiedName_iff cfg ht d).mp hkey
  exact h ⟨hschema, hname ▸ List.mem_map_of_mem ht⟩

theorem sourcePositions_eq_saved_iff (checkpoints : CheckpointTable) (d : TableInfo) :
    cfg.sourcePositionsFromCheckpoints (checkpoints.loadAll cfg.targetSchema) (qualifiedName d) =
        cfg.savedPosition checkpoints d ↔ cfg.Resumes checkpoints d := by
  by_cases hspelled : cfg.Spelled d
  · obtain ⟨hschema, hname⟩ := hspelled
    obtain ⟨t, ht, hname⟩ := List.mem_map.mp hname
    rw [sourcePositions_of_spelled cfg _ ht hschema hname]
    have hspelled : cfg.Spelled d := ⟨hschema, hname ▸ List.mem_map_of_mem ht⟩
    have hrow : checkpoints.position (cfg.targetSchema, cfg.consumer.targetName t.name) =
        cfg.savedPosition checkpoints d := by
      rw [hname, StreamConfig.savedPosition]
    cases hsaved : cfg.savedPosition checkpoints d with
    | none =>
        rw [checkpointLsn_eq_none_iff cfg (hrow.trans hsaved), hname]
        constructor
        · intro hunshared
          exact ⟨fun _ => hspelled, fun _ _ => hunshared⟩
        · intro h
          exact h.unshared hsaved hspelled
    | some l =>
        rw [checkpointLsn_of_position cfg (hrow.trans hsaved)]
        constructor
        · intro _
          refine ⟨fun _ => hspelled, ?_⟩
          intro hnone
          exact absurd (hsaved.symm.trans hnone) (by simp)
        · intro _
          rfl
  · rw [sourcePositions_of_not_spelled cfg _ hspelled]
    constructor
    · intro hnone
      exact ⟨fun h => absurd hnone.symm h, fun _ hs => absurd hs hspelled⟩
    · intro h
      by_contra hne
      exact hspelled (h.spelled fun hnone => hne hnone.symm)

end Seeding

section Resume

open SqlOptima.CapturePosition (step LoopState AgentAction)

variable {lower : String → String} {Value : Type}

theorem seededAgent_recorded (cfg : StreamConfig lower) (checkpoints : CheckpointTable)
    (d : TableInfo) :
    ((cfg.seededAgent checkpoints : AgentState Value).recorded (qualifiedName d)).head? =
      cfg.sourcePositionsFromCheckpoints (checkpoints.loadAll cfg.targetSchema)
        (qualifiedName d) := by
  simp [StreamConfig.seededAgent, CapturePosition.initial]

/-- Every table captured after a restart starts where the consumer last saved
it, exactly when its checkpoint can be found again. -/
theorem resume_at_saved_iff (cfg : StreamConfig lower) (checkpoints : CheckpointTable)
    (discovered : List TableInfo) :
    (∀ d ∈ cfg.replicated discovered,
        cfg.startPosition checkpoints d = cfg.savedPosition checkpoints d) ↔
      ∀ d ∈ cfg.replicated discovered, cfg.Resumes checkpoints d := by
  apply forall₂_congr
  intro d _
  rw [StreamConfig.startPosition, seededAgent_recorded]
  exact sourcePositions_eq_saved_iff cfg checkpoints d

section Misspelled

def lowerLetters (s : String) : String := String.ofList (s.toList.map Char.toLower)

def ordersStream : StreamConfig lowerLetters where
  sourceSchema := "dbo"
  targetSchema := "public"
  tables := [⟨"orders", none⟩]
  schemaValid := by decide
  namesValid := by decide
  distinct := by decide

def ordersLsn : LSN := ⟨[0, 0, 0, 5, 0, 0, 0, 1, 0, 1], rfl⟩

def ordersSaved : CheckpointTable where
  rows := [⟨"public", "orders", ordersLsn⟩]
  primaryKey := by decide

/-- The stream lists `orders`, the server reports `Orders`: the consumer's
checkpoint is not found and the table is captured from the start. -/
theorem respelled_table_restarts :
    ⟨"dbo", "Orders"⟩ ∈ ordersStream.replicated [⟨"dbo", "Orders"⟩] ∧
      ordersStream.startPosition ordersSaved ⟨"dbo", "Orders"⟩ = none ∧
      ordersStream.savedPosition ordersSaved ⟨"dbo", "Orders"⟩ = some ordersLsn := by
  refine ⟨by decide, by decide, by decide⟩

end Misspelled

end Resume

end SqlOptima.ResumePosition
