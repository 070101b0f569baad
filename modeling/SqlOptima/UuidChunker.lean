import Mathlib.Data.List.Nodup
import SqlOptima.LexicalBands
import SqlOptima.PrimaryKeyChunker

namespace SqlOptima.UuidChunker

open CoreTypes LexicalBands
open PrimaryKeyChunker (PlanContext Numbered numbered_nil)

/-!
# Chunks of a UUID key

Sixteen bands of the first hexadecimal digit. Go compares strings by their bytes, which is the
order of the code points.
-/

structure UUIDBounds where
  min : String
  max : String

def compareLt (a b : String) : Bool := lexLt a.toList b.toList

/-- `strings.ToLower` is `lower`. -/
def UUIDBounds.isEmpty (lower : String → String) (b : UUIDBounds) : Bool :=
  b.min == "" || b.max == "" || compareLt (lower b.max) (lower b.min)

def maxString (a b : String) : String := if compareLt b a then a else b

def minString (a b : String) : String := if compareLt a b then a else b

variable {Uuid : Type}

def uuidChunk (ctx : PlanContext Uuid) (idx : UInt32) (start stop : String) : ChunkPlan Uuid :=
  newChunkPlan (ctx.fresh idx) (ctx.now idx) ctx.jobID ctx.schema ctx.table idx ctx.pkCol
    (some start) (some stop)

def hexChars : List Char := "0123456789abcdef".toList

def bandStart (ch : Char) : String := ch.toString ++ "0000000-0000-0000-0000-000000000000"

def bandEnd (ch : Char) : String := ch.toString ++ "fffffff-ffff-ffff-ffff-ffffffffffff"

/-- The loop of `Plan` over the first digits. -/
def planBands (ctx : PlanContext Uuid) (minVal maxVal : String) :
    UInt32 → List Char → List (ChunkPlan Uuid)
  | _, [] => []
  | idx, ch :: chars =>
      let effectiveStart := maxString minVal (bandStart ch)
      let effectiveEnd := minString maxVal (bandEnd ch)
      if compareLt effectiveEnd effectiveStart then planBands ctx minVal maxVal idx chars
      else uuidChunk ctx idx effectiveStart effectiveEnd ::
        planBands ctx minVal maxVal (idx + 1) chars

def plan (ctx : PlanContext Uuid) (lower : String → String) (bounds : UUIDBounds) :
    List (ChunkPlan Uuid) :=
  if bounds.isEmpty lower then []
  else
    let minVal := lower bounds.min
    let maxVal := lower bounds.max
    match planBands ctx minVal maxVal 0 hexChars with
    | [] => [uuidChunk ctx 0 minVal maxVal]
    | plans => plans

/-- The ranges of the other planner; its bounds come as text. -/
def generateUuidRanges (lower : String → String) (minVal maxVal : String) :
    List (String × String) :=
  let chunks := hexChars.filterMap fun ch =>
    let effectiveStart := maxString (lower minVal) (bandStart ch)
    let effectiveEnd := minString (lower maxVal) (bandEnd ch)
    if compareLt effectiveEnd effectiveStart then none else some (effectiveStart, effectiveEnd)
  match chunks with
  | [] => [(minVal, maxVal)]
  | chunks => chunks

/-! ## The keys of a chunk -/

/-- The places of a canonical lower-case UUID: `-` for itself, the others for a digit. -/
def template : List Char := "xxxxxxxx-xxxx-xxxx-xxxx-xxxxxxxxxxxx".toList

def fits : List Char → List Char → Bool
  | [], [] => true
  | place :: places, c :: cs =>
      (if place = '-' then c == '-' else hexChars.contains c) && fits places cs
  | _, _ => false

def isCanonical (u : String) : Bool := fits template u.toList

def bandOf (chunk : ChunkPlan Uuid) : Option Band :=
  chunk.startKey.bind fun start => chunk.endKey.map fun stop => (start.toList, stop.toList)

/-- A chunk's predicate `key BETWEEN @start AND @end`. -/
def selects (u : String) (chunk : ChunkPlan Uuid) : Bool := (bandOf chunk).any (inBand u.toList)

/-- The chunks in index order, their ranges one after the other, every key in one of them. -/
structure Partition (lo hi : String) (plans : List (ChunkPlan Uuid)) : Prop where
  indexes : plans.map (fun chunk => chunk.chunkIndex.toNat) = List.range plans.length
  increasing : ∃ bands, plans.map bandOf = bands.map some ∧ Increasing bands
  once : ∀ u, isCanonical u = true → lexLe lo.toList u.toList = true →
    lexLe u.toList hi.toList = true → plans.countP (selects u) = 1

section Bands

def band (ch : Char) : Band := ((bandStart ch).toList, (bandEnd ch).toList)

attribute [local simp] planBands in
theorem toList_maxString (a b : String) : (maxString a b).toList = later a.toList b.toList :=
  apply_ite String.toList _ _ _

theorem toList_minString (a b : String) : (minString a b).toList = earlier a.toList b.toList :=
  apply_ite String.toList _ _ _

/-- What one digit adds to the chunks. -/
theorem clip_band (lo hi : String) (ch : Char) :
    clip lo.toList hi.toList (band ch) =
      if compareLt (minString hi (bandEnd ch)) (maxString lo (bandStart ch)) then none
      else some ((maxString lo (bandStart ch)).toList, (minString hi (bandEnd ch)).toList) := by
  rw [compareLt, toList_maxString, toList_minString]
  rfl

variable (ctx : PlanContext Uuid) (lo hi : String)

theorem map_bandOf_planBands (idx : UInt32) (chars : List Char) :
    (planBands ctx lo hi idx chars).map bandOf =
      ((chars.map band).filterMap (clip lo.toList hi.toList)).map some := by
  induction chars generalizing idx with
  | nil => rfl
  | cons ch chars ih =>
      rw [planBands, List.map_cons, List.filterMap_cons, clip_band]
      split
      · exact ih idx
      · rw [List.map_cons, ih (idx + 1)]
        rfl

theorem numbered_planBands (idx : UInt32) (chars : List Char) :
    Numbered idx (planBands ctx lo hi idx chars) := by
  induction chars generalizing idx with
  | nil => exact numbered_nil
  | cons ch chars ih =>
      rw [planBands]
      split
      · exact ih idx
      · exact .cons rfl (ih (idx + 1))

theorem length_planBands_le (idx : UInt32) (chars : List Char) :
    (planBands ctx lo hi idx chars).length ≤ chars.length := by
  induction chars generalizing idx with
  | nil => exact Nat.le_refl _
  | cons ch chars ih =>
      rw [planBands]
      split
      · exact Nat.le_succ_of_le (ih idx)
      · exact Nat.succ_le_succ (ih (idx + 1))

end Bands

section Canonical

def lowest (place : Char) : Char := if place = '-' then '-' else '0'

def highest (place : Char) : Char := if place = '-' then '-' else 'f'

theorem hexChars_bounds {c : Char} (h : hexChars.contains c = true) :
    '0'.toNat ≤ c.toNat ∧ c.toNat ≤ 'f'.toNat := by
  have hall : hexChars.all (fun c => '0'.toNat ≤ c.toNat && c.toNat ≤ 'f'.toNat) = true := rfl
  have hc := List.all_eq_true.mp hall c (List.contains_iff_mem.mp h)
  rwa [Bool.and_eq_true, decide_eq_true_eq, decide_eq_true_eq] at hc

theorem fits_bounds {places cs : List Char} (h : fits places cs = true) :
    List.Forall₂ (fun a b => a.toNat ≤ b.toNat) (places.map lowest) cs ∧
      List.Forall₂ (fun a b => a.toNat ≤ b.toNat) cs (places.map highest) := by
  induction places generalizing cs with
  | nil =>
      cases cs with
      | nil => exact ⟨.nil, .nil⟩
      | cons c cs => cases h
  | cons place places ih =>
      cases cs with
      | nil => cases h
      | cons c cs =>
          rw [fits, Bool.and_eq_true] at h
          obtain ⟨hc, hcs⟩ := h
          obtain ⟨hlow, hhigh⟩ := ih hcs
          have hplace : (lowest place).toNat ≤ c.toNat ∧ c.toNat ≤ (highest place).toNat := by
            rw [lowest, highest]
            split at hc
            · next hdash =>
                rw [if_pos hdash, if_pos hdash, beq_iff_eq.mp hc]
                exact ⟨Nat.le_refl _, Nat.le_refl _⟩
            · next hdigit =>
                rw [if_neg hdigit, if_neg hdigit]
                exact hexChars_bounds hc
          exact ⟨.cons hplace.1 hlow, .cons hplace.2 hhigh⟩

theorem template_eq : template = List.replicate 8 'x' ++ '-' :: (List.replicate 4 'x' ++ '-' ::
    (List.replicate 4 'x' ++ '-' :: (List.replicate 4 'x' ++ '-' :: List.replicate 12 'x'))) :=
  String.toList_ofList

theorem toList_bandStart (ch : Char) :
    (bandStart ch).toList = ch :: template.tail.map lowest := by
  have hrest : "0000000-0000-0000-0000-000000000000".toList =
      (List.replicate 7 'x' ++ '-' :: (List.replicate 4 'x' ++ '-' :: (List.replicate 4 'x' ++ '-' ::
        (List.replicate 4 'x' ++ '-' :: List.replicate 12 'x')))).map lowest :=
    String.toList_ofList
  rw [bandStart, String.toList_append, Char.toString, String.toList_singleton, hrest, template_eq]
  rfl

theorem toList_bandEnd (ch : Char) :
    (bandEnd ch).toList = ch :: template.tail.map highest := by
  have hrest : "fffffff-ffff-ffff-ffff-ffffffffffff".toList =
      (List.replicate 7 'x' ++ '-' :: (List.replicate 4 'x' ++ '-' :: (List.replicate 4 'x' ++ '-' ::
        (List.replicate 4 'x' ++ '-' :: List.replicate 12 'x')))).map highest :=
    String.toList_ofList
  rw [bandEnd, String.toList_append, Char.toString, String.toList_singleton, hrest, template_eq]
  rfl

/-- A canonical UUID is in the band of its first digit and in no other one. -/
theorem inBand_band {u : String} (h : isCanonical u = true) :
    ∃ c ∈ hexChars, ∀ ch, inBand u.toList (band ch) = (ch == c) := by
  rw [isCanonical] at h
  cases hu : u.toList with
  | nil =>
      rw [hu] at h
      cases h
  | cons c rest =>
      have hparts : hexChars.contains c = true ∧ fits template.tail rest = true := by
        rw [hu] at h
        exact Bool.and_eq_true_iff.mp h
      obtain ⟨hlow, hhigh⟩ := fits_bounds hparts.2
      refine ⟨c, List.contains_iff_mem.mp hparts.1, fun ch => ?_⟩
      rw [Bool.eq_iff_iff, inBand_eq_true, band, toList_bandStart, toList_bandEnd, lexLe_cons,
        lexLe_cons, lexLe_of_forall₂ hlow, lexLe_of_forall₂ hhigh, beq_iff_eq, ← Char.toNat_inj]
      simp only [and_true]
      omega

theorem countP_bands {u : String} (h : isCanonical u = true) :
    (hexChars.map band).countP (inBand u.toList) = 1 := by
  obtain ⟨c, hc, hband⟩ := inBand_band h
  rw [List.countP_map, List.countP_congr fun ch _ => by rw [Function.comp_apply, hband ch]]
  exact List.count_eq_one_of_mem (by decide) hc

theorem bandEnd_lt_bandStart {a b : Char} (h : a.toNat < b.toNat) :
    lexLt (band a).2 (band b).1 = true := by
  change (!lexLe (bandStart b).toList (bandEnd a).toList) = true
  rw [toList_bandEnd, toList_bandStart, Bool.not_eq_true', ← Bool.not_eq_true, lexLe_cons]
  omega

theorem bands_pairwise : (hexChars.map band).Pairwise fun a b => lexLt a.2 b.1 = true := by
  have hchars : hexChars.Pairwise fun a b => a.toNat < b.toNat := by decide
  exact List.pairwise_map.mpr (hchars.imp bandEnd_lt_bandStart)

end Canonical

section Plan

variable {ctx : PlanContext Uuid} {lo hi : String}

theorem countP_selects {plans : List (ChunkPlan Uuid)} {bands : List Band}
    (h : plans.map bandOf = bands.map some) (u : String) :
    plans.countP (selects u) = bands.countP (inBand u.toList) := by
  have hplans : plans.countP (selects u) =
      (plans.map bandOf).countP fun band => band.any (inBand u.toList) := by
    rw [List.countP_map]
    rfl
  rw [hplans, h, List.countP_map]
  rfl

theorem planBands_once {u : String} (hu : isCanonical u = true)
    (hlo : lexLe lo.toList u.toList = true) (hhi : lexLe u.toList hi.toList = true) :
    (planBands ctx lo hi 0 hexChars).countP (selects u) = 1 := by
  rw [countP_selects (map_bandOf_planBands ctx lo hi 0 hexChars), countP_clip hlo hhi,
    countP_bands hu]

theorem partition_planBands : Partition lo hi (planBands ctx lo hi 0 hexChars) where
  indexes := (numbered_planBands ctx lo hi 0 hexChars).indexes_iff.mpr
    (Nat.le_trans (length_planBands_le ctx lo hi 0 hexChars) (by decide))
  increasing := ⟨_, map_bandOf_planBands ctx lo hi 0 hexChars, increasing_clip bands_pairwise⟩
  once _ hu hlo hhi := planBands_once hu hlo hhi

/-- Bounds that no band meets have no canonical key between them. -/
theorem partition_fallback (hle : lexLe lo.toList hi.toList = true)
    (hnone : planBands ctx lo hi 0 hexChars = []) :
    Partition lo hi [uuidChunk ctx 0 lo hi] where
  indexes := rfl
  increasing := ⟨[(lo.toList, hi.toList)], rfl, List.forall_mem_singleton.mpr hle,
    List.pairwise_singleton _ _⟩
  once u hu hlo hhi := by
    have honce := @planBands_once _ ctx lo hi u hu hlo hhi
    rw [hnone] at honce
    cases honce

theorem partition_nil (hlt : compareLt hi lo = true) :
    Partition lo hi ([] : List (ChunkPlan Uuid)) where
  indexes := rfl
  increasing := ⟨[], rfl, nofun, .nil⟩
  once u _ hlo hhi := by
    rw [compareLt, lexLt, lexLe_trans hlo hhi] at hlt
    cases hlt

/-- Between the lower-cased bounds every canonical UUID is in one chunk. -/
theorem plan_partition (ctx : PlanContext Uuid) (lower : String → String) {bounds : UUIDBounds}
    (hmin : bounds.min ≠ "") (hmax : bounds.max ≠ "") :
    Partition (lower bounds.min) (lower bounds.max) (plan ctx lower bounds) := by
  have hempty : bounds.isEmpty lower = compareLt (lower bounds.max) (lower bounds.min) := by
    rw [UUIDBounds.isEmpty, beq_false_of_ne hmin, beq_false_of_ne hmax]
    rfl
  rw [plan, hempty]
  split
  · next hlt => exact partition_nil hlt
  · next hle =>
      rw [compareLt, lexLt, Bool.not_eq_true', Bool.not_eq_false] at hle
      dsimp only
      split
      · next hnone => exact partition_fallback hle hnone
      · exact partition_planBands

/-- No chunk has a key before the lower-cased minimum. -/
theorem le_of_selects {ctx : PlanContext Uuid} {lower : String → String} {bounds : UUIDBounds}
    {chunk : ChunkPlan Uuid} {u : String} (hchunk : chunk ∈ plan ctx lower bounds)
    (hu : selects u chunk = true) : lexLe (lower bounds.min).toList u.toList = true := by
  rw [plan] at hchunk
  split at hchunk
  · cases hchunk
  · dsimp only at hchunk
    split at hchunk
    · obtain rfl := List.mem_singleton.mp hchunk
      exact (inBand_eq_true.mp hu).1
    · have hband := List.mem_map_of_mem (f := bandOf) hchunk
      rw [map_bandOf_planBands, List.mem_map] at hband
      obtain ⟨cut, hcut, hchunkBand⟩ := hband
      obtain ⟨band, -, hclip⟩ := List.mem_filterMap.mp hcut
      rw [selects, ← hchunkBand] at hu
      exact le_of_inBand_clip hclip hu

def textBand (range : String × String) : Band := (range.1.toList, range.2.toList)

/-- Where the bounds meet a band, the two planners cut the same ranges. -/
theorem map_bandOf_plan (ctx : PlanContext Uuid) {lower : String → String} {bounds : UUIDBounds}
    (hbounds : bounds.isEmpty lower = false)
    (hmeet : planBands ctx (lower bounds.min) (lower bounds.max) 0 hexChars ≠ []) :
    (plan ctx lower bounds).map bandOf =
      (generateUuidRanges lower bounds.min bounds.max).map fun range => some (textBand range) := by
  have hbands := map_bandOf_planBands ctx (lower bounds.min) (lower bounds.max) 0 hexChars
  obtain ⟨chunk, chunks, hchunks⟩ := List.exists_cons_of_ne_nil hmeet
  rw [plan, hbounds, if_neg Bool.false_ne_true]
  dsimp only
  rw [hchunks] at hbands ⊢
  rw [generateUuidRanges]
  dsimp only
  have hranges : (hexChars.filterMap fun ch =>
      if compareLt (minString (lower bounds.max) (bandEnd ch))
          (maxString (lower bounds.min) (bandStart ch)) then none
      else some (maxString (lower bounds.min) (bandStart ch),
        minString (lower bounds.max) (bandEnd ch))).map textBand =
      (hexChars.map band).filterMap (clip (lower bounds.min).toList (lower bounds.max).toList) := by
    rw [List.map_filterMap, List.filterMap_map]
    refine List.filterMap_congr fun ch _ => ?_
    rw [Function.comp_apply, clip_band]
    split
    · rfl
    · rfl
  rw [hbands, ← hranges, List.map_map]
  split
  · next hnone =>
      rw [hnone] at hranges
      rw [← hranges] at hbands
      cases hbands
  · rfl

end Plan

section Examples

def asciiLower (text : String) : String := String.ofList (text.toList.map Char.toLower)

def eventsContext : PlanContext Unit where
  jobID := ()
  schema := "dbo"
  table := "events"
  pkCol := "event_id"
  fresh _ := ()
  now _ := 0

theorem events_partition :
    Partition "10000000-0000-0000-0000-000000000001" "3fffffff-ffff-ffff-ffff-ffffffffffff"
      (plan eventsContext asciiLower
        ⟨"10000000-0000-0000-0000-000000000001", "3FFFFFFF-FFFF-FFFF-FFFF-FFFFFFFFFFFF"⟩) :=
  @plan_partition _ eventsContext asciiLower
    ⟨"10000000-0000-0000-0000-000000000001", "3FFFFFFF-FFFF-FFFF-FFFF-FFFFFFFFFFFF"⟩
    (by decide) (by decide)

/-- An upper-case bound is before every lower-case key that starts with a letter. -/
theorem upperBound_notPartition :
    ¬ Partition "F0000000-0000-0000-0000-000000000000" "ffffffff-ffff-ffff-ffff-ffffffffffff"
      (plan eventsContext asciiLower
        ⟨"F0000000-0000-0000-0000-000000000000", "ffffffff-ffff-ffff-ffff-ffffffffffff"⟩) := by
  intro h
  have honce := h.once "a0000000-0000-0000-0000-000000000000" (by decide) (by decide) (by decide)
  obtain ⟨chunk, hchunk, hselects⟩ := List.countP_pos_iff.mp (honce ▸ Nat.one_pos)
  exact absurd (le_of_selects hchunk hselects) (by decide)

end Examples

end SqlOptima.UuidChunker
