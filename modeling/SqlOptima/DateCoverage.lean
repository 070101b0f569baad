import SqlOptima.CivilDate
import SqlOptima.CoreTypes

namespace SqlOptima.DateChunker

open SqlOptima.CoreTypes

/-- Nanoseconds of a day. Instants are nanoseconds since 0001-01-01 00:00 UTC,
the zone of the date types without offset. -/
def dayNanos : Int := 86400000000000

structure DateBounds where
  min : Int
  max : Int

def DateBounds.isEmpty (b : DateBounds) : Bool := b.max < b.min

def readDateTime (now : Int) (lo hi : Option Int) : DateBounds :=
  match lo, hi with
  | some lo, some hi => ⟨lo, hi⟩
  | _, _ => ⟨now, now - dayNanos⟩

def truncateToDay (t : Int) : Int := t / dayNanos * dayNanos

def formatDate (t : Int) : String :=
  String.ofList (CivilDate.format (CivilDate.ofDay (t / dayNanos)))

def wrapInt64 (x : Int) : Int := x.bmod (2 ^ 64)

def newDateChunker (daysPerChunk : Int) : Int :=
  if daysPerChunk < 1 then 1 else daysPerChunk

def chunkStep (daysPerChunk : Int) : Int :=
  wrapInt64 (wrapInt64 (wrapInt64 (daysPerChunk - 1) * 24) * 3600000000000)

variable {Uuid : Type}

/-- What the planner puts into every chunk, with the fresh identifiers and the
clock readings of the chunks. -/
structure PlanContext (Uuid : Type) where
  jobID : Uuid
  schema : String
  table : String
  dateCol : String
  fresh : UInt32 → Uuid
  now : UInt32 → Int

def dateChunk (ctx : PlanContext Uuid) (idx : UInt32) (start stop : Int) : ChunkPlan Uuid :=
  newChunkPlan (ctx.fresh idx) (ctx.now idx) ctx.jobID ctx.schema ctx.table idx ctx.dateCol
    (some (formatDate start)) (some (formatDate stop))

/-- The loop of `Plan`. No result means that it is still running when the fuel
is spent. -/
def planLoop (ctx : PlanContext Uuid) (step maxDay : Int) :
    Nat → UInt32 → Int → Option (List (ChunkPlan Uuid))
  | 0, _, _ => none
  | fuel + 1, idx, start =>
      if start > maxDay then
        some []
      else
        let stop := truncateToDay (if start + step > maxDay then maxDay else start + step)
        let next := stop + dayNanos
        if next > maxDay then
          some [dateChunk ctx idx start stop]
        else
          (planLoop ctx step maxDay fuel (idx + 1) next).map (dateChunk ctx idx start stop :: ·)

def plan (ctx : PlanContext Uuid) (daysPerChunk : Int) (bounds : DateBounds) (fuel : Nat) :
    Option (List (ChunkPlan Uuid)) :=
  if bounds.isEmpty then
    some []
  else
    planLoop ctx (chunkStep (newDateChunker daysPerChunk)) (truncateToDay bounds.max) fuel 0
      (truncateToDay bounds.min)

def daysPerChunk (tableChunkSize defaultChunkSize : Int) : Int :=
  let chunkSize := if tableChunkSize < 1 then defaultChunkSize else tableChunkSize
  let days := chunkSize.tdiv 1000
  if days < 1 then 1 else days

def resolveTableChunks (ctx : PlanContext Uuid) (tableChunkSize defaultChunkSize now : Int)
    (lo hi : Option Int) (fuel : Nat) : Option (List (ChunkPlan Uuid)) :=
  plan ctx (daysPerChunk tableChunkSize defaultChunkSize) (readDateTime now lo hi) fuel

/-- A date column of SQL Server, with the conversion of a text parameter to its
type: within the range of the type, `YYYY-MM-DD` is that day at midnight. -/
structure KeyColumn where
  firstDay : Int
  lastDay : Int
  convert : String → Option Int
  first_nonneg : 0 ≤ firstDay
  last_le : lastDay ≤ CivilDate.lastDay
  convert_date : ∀ key day, CivilDate.parse key.toList = some day →
    firstDay ≤ day → day ≤ lastDay → convert key = some (day * dayNanos)

/-- The extraction predicate `key >= @P1 AND key <= @P2` of a chunk. -/
def selects (col : KeyColumn) (chunk : ChunkPlan Uuid) (v : Int) : Bool :=
  match chunk.startKey.bind col.convert, chunk.endKey.bind col.convert with
  | some lo, some hi => lo ≤ v ∧ v ≤ hi
  | _, _ => false

section Column

variable (col : KeyColumn)

theorem convert_formatDate {day : Int} (h : col.firstDay ≤ day) (h' : day ≤ col.lastDay) :
    col.convert (formatDate (day * dayNanos)) = some (day * dayNanos) := by
  have hday : day * dayNanos / dayNanos = day := Int.mul_ediv_cancel day (by decide)
  apply col.convert_date _ _ _ h h'
  rw [formatDate, hday, String.toList_ofList]
  exact CivilDate.parse_format (Int.le_trans col.first_nonneg h) (Int.le_trans h' col.last_le)

theorem selects_dateChunk (ctx : PlanContext Uuid) (idx : UInt32) {start stop : Int}
    (hs : col.firstDay ≤ start) (hle : start ≤ stop) (he : stop ≤ col.lastDay) (v : Int) :
    selects col (dateChunk ctx idx (start * dayNanos) (stop * dayNanos)) v =
      decide (start * dayNanos ≤ v ∧ v ≤ stop * dayNanos) := by
  simp only [selects, dateChunk, newChunkPlan, Option.bind_some,
    convert_formatDate col hs (Int.le_trans hle he), convert_formatDate col (Int.le_trans hs hle) he]

end Column

end SqlOptima.DateChunker

namespace SqlOptima.DateCoverage

open SqlOptima.CoreTypes
open SqlOptima.DateChunker

variable {Uuid : Type} {ctx : PlanContext Uuid} {col : KeyColumn} {step first last : Int}

def stopDay (step last start : Int) : Int := min (start + step / dayNanos) last

theorem truncateToDay_stop (start : Int) :
    truncateToDay (if start * dayNanos + step > last * dayNanos then last * dayNanos
      else start * dayNanos + step) = stopDay step last start * dayNanos := by
  split
  · rename_i h
    simp only [truncateToDay, stopDay, dayNanos] at *
    omega
  · rename_i h
    simp only [truncateToDay, stopDay, dayNanos] at *
    omega

theorem planLoop_succ (ctx : PlanContext Uuid) (step last : Int) (fuel : Nat) (idx : UInt32)
    (start : Int) :
    planLoop ctx step (last * dayNanos) (fuel + 1) idx (start * dayNanos) =
      if last < start then some []
      else if last ≤ stopDay step last start then
        some [dateChunk ctx idx (start * dayNanos) (stopDay step last start * dayNanos)]
      else
        (planLoop ctx step (last * dayNanos) fuel (idx + 1)
            ((stopDay step last start + 1) * dayNanos)).map
          (dateChunk ctx idx (start * dayNanos) (stopDay step last start * dayNanos) :: ·) := by
  have hstart : start * dayNanos > last * dayNanos ↔ last < start := by
    simp only [dayNanos]
    omega
  have hnext : (stopDay step last start + 1) * dayNanos > last * dayNanos ↔
      last ≤ stopDay step last start := by
    simp only [dayNanos]
    omega
  have hsucc : stopDay step last start * dayNanos + dayNanos =
      (stopDay step last start + 1) * dayNanos := by
    rw [Int.add_mul, Int.one_mul]
  simp only [planLoop, truncateToDay_stop, hstart, hsucc, hnext]

theorem planLoop_of_neg (hstep : step < 0) (fuel : Nat) (idx : UInt32) {start : Int}
    (h : start ≤ last) :
    planLoop ctx step (last * dayNanos) fuel idx (start * dayNanos) = none := by
  induction fuel generalizing idx start with
  | zero => rfl
  | succ fuel ih =>
      have hstop : stopDay step last start < start := by
        simp only [stopDay, dayNanos]
        omega
      rw [planLoop_succ, if_neg (by omega), if_neg (by omega), ih (idx + 1) (by omega)]
      rfl

theorem stopDay_ge (hstep : 0 ≤ step) {start : Int} (h : start ≤ last) :
    start ≤ stopDay step last start := by
  simp only [stopDay, dayNanos]
  omega

theorem planLoop_isSome (hstep : 0 ≤ step) {fuel : Nat} (idx : UInt32) {start : Int}
    (h : start ≤ last) (hfuel : last - start < fuel) :
    (planLoop ctx step (last * dayNanos) fuel idx (start * dayNanos)).isSome := by
  induction fuel generalizing idx start with
  | zero => omega
  | succ fuel ih =>
      have hge := stopDay_ge hstep h
      rw [planLoop_succ, if_neg (by omega)]
      split
      · rfl
      · rw [Option.isSome_map]
        exact ih (idx + 1) (by omega) (by omega)

/-- A value that the chunk around it covers: it is at midnight, or on another
day than the last one of the chunk. -/
def CoveredDay (step first last v : Int) : Prop :=
  v % dayNanos = 0 ∨
    (v / dayNanos ≠ last ∧
      (v / dayNanos - first) % (step / dayNanos + 1) ≠ step / dayNanos)

instance (step first last v : Int) : Decidable (CoveredDay step first last v) :=
  inferInstanceAs (Decidable (_ ∨ _))

theorem coveredDay_next (start v : Int) :
    CoveredDay step (start + step / dayNanos + 1) last v ↔ CoveredDay step start last v := by
  have hshift : v / dayNanos - (start + step / dayNanos + 1) =
      v / dayNanos - start - (step / dayNanos + 1) := by omega
  rw [CoveredDay, CoveredDay, hshift, Int.sub_emod_right]

theorem coveredDay_first {start v : Int} (hle : v / dayNanos ≤ stopDay step last start) :
    (start * dayNanos ≤ v ∧ v / dayNanos ≤ last ∧ CoveredDay step start last v) ↔
      start * dayNanos ≤ v ∧ v ≤ stopDay step last start * dayNanos := by
  apply and_congr_right
  intro hv
  have hday : start ≤ v / dayNanos := by
    simp only [dayNanos] at hv ⊢
    omega
  have hstop : stopDay step last start ≤ start + step / dayNanos ∧
      stopDay step last start ≤ last := by
    rw [stopDay]
    omega
  have hmod : (v / dayNanos - start) % (step / dayNanos + 1) = v / dayNanos - start :=
    Int.emod_eq_of_lt (by omega) (by omega)
  rw [CoveredDay, hmod]
  simp only [stopDay, dayNanos] at *
  omega

theorem coveredDay_after {start v : Int} (h : start ≤ stopDay step last start)
    (hday : stopDay step last start < v / dayNanos) :
    (start * dayNanos ≤ v ∧ v / dayNanos ≤ last ∧ CoveredDay step start last v) ↔
      (stopDay step last start + 1) * dayNanos ≤ v ∧ v / dayNanos ≤ last ∧
        CoveredDay step (stopDay step last start + 1) last v := by
  have hv : start * dayNanos ≤ v ∧ (stopDay step last start + 1) * dayNanos ≤ v := by
    simp only [dayNanos] at hday ⊢
    omega
  rw [and_iff_right hv.1, and_iff_right hv.2]
  apply and_congr_right
  intro hlast
  have hstop : stopDay step last start = start + step / dayNanos := by
    rw [stopDay] at hday ⊢
    omega
  rw [hstop, coveredDay_next]

theorem countP_dateChunk_cons {idx : UInt32} {start : Int} {rest : List (ChunkPlan Uuid)} (v : Int)
    (hfirst : col.firstDay ≤ start) (hlast : last ≤ col.lastDay)
    (h : start ≤ stopDay step last start)
    (hrest : rest.countP (selects col · v) =
      if (stopDay step last start + 1) * dayNanos ≤ v ∧ v / dayNanos ≤ last ∧
        CoveredDay step (stopDay step last start + 1) last v then 1 else 0) :
    (dateChunk ctx idx (start * dayNanos) (stopDay step last start * dayNanos) :: rest).countP
        (selects col · v) =
      if start * dayNanos ≤ v ∧ v / dayNanos ≤ last ∧ CoveredDay step start last v then 1
      else 0 := by
  have hmax : stopDay step last start ≤ last := Int.min_le_right _ _
  rw [List.countP_cons, hrest, selects_dateChunk col ctx idx hfirst h (by omega)]
  simp only [decide_eq_true_eq]
  by_cases hday : v / dayNanos ≤ stopDay step last start
  · rw [if_congr (coveredDay_first hday) rfl rfl, if_neg, Nat.zero_add]
    rintro ⟨hv, -⟩
    simp only [dayNanos] at hday hv
    omega
  · rw [← if_congr (coveredDay_after h (Int.not_le.mp hday)) rfl rfl, Nat.add_eq_left, if_neg]
    rintro ⟨-, hv⟩
    simp only [dayNanos] at hday hv
    omega

theorem countP_planLoop (hstep : 0 ≤ step) {fuel : Nat} {idx : UInt32} {start : Int}
    {plans : List (ChunkPlan Uuid)} (v : Int) (hfirst : col.firstDay ≤ start)
    (hlast : last ≤ col.lastDay)
    (hrun : planLoop ctx step (last * dayNanos) fuel idx (start * dayNanos) = some plans) :
    plans.countP (selects col · v) =
      if start * dayNanos ≤ v ∧ v / dayNanos ≤ last ∧ CoveredDay step start last v then 1
      else 0 := by
  have hbeyond : ∀ first, last < first →
      ¬ (first * dayNanos ≤ v ∧ v / dayNanos ≤ last ∧ CoveredDay step first last v) := by
    rintro first hlt ⟨hv, hday, -⟩
    simp only [dayNanos] at hv hday
    omega
  -- The chunks after the first are the plan of the days after its last one.
  induction fuel generalizing idx start plans with
  | zero => cases hrun
  | succ fuel ih =>
      rw [planLoop_succ] at hrun
      split at hrun
      · rename_i hlt
        cases hrun
        rw [if_neg (hbeyond start hlt), List.countP_nil]
      · rename_i hle
        have hge := stopDay_ge hstep (Int.not_lt.mp hle)
        split at hrun
        · cases hrun
          apply countP_dateChunk_cons v hfirst hlast hge
          rw [if_neg (hbeyond _ (by omega)), List.countP_nil]
        · obtain ⟨rest, hrest, rfl⟩ := Option.map_eq_some_iff.mp hrun
          exact countP_dateChunk_cons v hfirst hlast hge (ih (by omega) hrest)

section Resolve

variable (ctx) (tableChunkSize defaultChunkSize now : Int) {lo hi : Int}

theorem newDateChunker_daysPerChunk :
    newDateChunker (daysPerChunk tableChunkSize defaultChunkSize) =
      daysPerChunk tableChunkSize defaultChunkSize := by
  have hpos : 1 ≤ daysPerChunk tableChunkSize defaultChunkSize := by
    simp only [daysPerChunk]
    split <;> omega
  rw [newDateChunker, if_neg (by omega)]

theorem resolveTableChunks_eq (h : lo ≤ hi) (fuel : Nat) :
    resolveTableChunks ctx tableChunkSize defaultChunkSize now (some lo) (some hi) fuel =
      planLoop ctx (chunkStep (daysPerChunk tableChunkSize defaultChunkSize))
        (hi / dayNanos * dayNanos) fuel 0 (lo / dayNanos * dayNanos) := by
  have hne : DateBounds.isEmpty ⟨lo, hi⟩ = false := by
    simpa [DateBounds.isEmpty] using h
  simp only [resolveTableChunks, readDateTime, plan, hne, newDateChunker_daysPerChunk,
    truncateToDay]
  rfl

theorem resolveTableChunks_returns_iff (h : lo ≤ hi) :
    (∃ fuel plans, resolveTableChunks ctx tableChunkSize defaultChunkSize now (some lo) (some hi)
        fuel = some plans) ↔
      0 ≤ chunkStep (daysPerChunk tableChunkSize defaultChunkSize) := by
  have hday : lo / dayNanos ≤ hi / dayNanos := Int.ediv_le_ediv (by decide) h
  constructor
  · rintro ⟨fuel, plans, hrun⟩
    by_contra hneg
    rw [resolveTableChunks_eq ctx _ _ _ h, planLoop_of_neg (Int.not_le.mp hneg) fuel 0 hday] at hrun
    cases hrun
  · intro hstep
    refine ⟨(hi / dayNanos - lo / dayNanos + 1).toNat, ?_⟩
    rw [resolveTableChunks_eq ctx _ _ _ h]
    exact Option.isSome_iff_exists.mp (planLoop_isSome hstep 0 hday (by omega))

variable {ctx tableChunkSize defaultChunkSize now}

theorem countP_resolveTableChunks {fuel : Nat} {plans : List (ChunkPlan Uuid)} {v : Int}
    (hlo : col.firstDay ≤ lo / dayNanos) (hhi : hi / dayNanos ≤ col.lastDay) (hmin : lo ≤ v)
    (hmax : v ≤ hi)
    (hrun : resolveTableChunks ctx tableChunkSize defaultChunkSize now (some lo) (some hi) fuel =
      some plans) :
    plans.countP (selects col · v) =
      if CoveredDay (chunkStep (daysPerChunk tableChunkSize defaultChunkSize)) (lo / dayNanos)
        (hi / dayNanos) v then 1 else 0 := by
  have hle : lo ≤ hi := Int.le_trans hmin hmax
  have hstep := (resolveTableChunks_returns_iff ctx _ _ _ hle).mp ⟨fuel, plans, hrun⟩
  rw [resolveTableChunks_eq ctx _ _ _ hle] at hrun
  have hv : lo / dayNanos * dayNanos ≤ v ∧ v / dayNanos ≤ hi / dayNanos := by
    simp only [dayNanos]
    omega
  rw [countP_planLoop hstep v hlo hhi hrun]
  simp only [hv.1, hv.2, true_and]

end Resolve

/-- Exactly one chunk of the plan selects a value between the least and the
greatest of its column, if and only if the step has not wrapped to a negative
duration and the value is at midnight or not on the last day of a chunk. -/
theorem selectedOnce_iff (col : KeyColumn) (ctx : PlanContext Uuid)
    (tableChunkSize defaultChunkSize now : Int) {lo hi v : Int}
    (hlo : col.firstDay ≤ lo / dayNanos) (hhi : hi / dayNanos ≤ col.lastDay) (hmin : lo ≤ v)
    (hmax : v ≤ hi) :
    (∃ fuel plans, resolveTableChunks ctx tableChunkSize defaultChunkSize now (some lo) (some hi)
        fuel = some plans ∧ plans.countP (selects col · v) = 1) ↔
      0 ≤ chunkStep (daysPerChunk tableChunkSize defaultChunkSize) ∧
        CoveredDay (chunkStep (daysPerChunk tableChunkSize defaultChunkSize)) (lo / dayNanos)
          (hi / dayNanos) v := by
  have hreturns := resolveTableChunks_returns_iff ctx tableChunkSize defaultChunkSize now
    (Int.le_trans hmin hmax)
  constructor
  · rintro ⟨fuel, plans, hrun, hcount⟩
    refine ⟨hreturns.mp ⟨fuel, plans, hrun⟩, ?_⟩
    by_contra hnot
    rw [countP_resolveTableChunks hlo hhi hmin hmax hrun, if_neg hnot] at hcount
    cases hcount
  · rintro ⟨hstep, hcovered⟩
    obtain ⟨fuel, plans, hrun⟩ := hreturns.mpr hstep
    refine ⟨fuel, plans, hrun, ?_⟩
    rw [countP_resolveTableChunks hlo hhi hmin hmax hrun, if_pos hcovered]

def datetime2 : KeyColumn where
  firstDay := 0
  lastDay := CivilDate.lastDay
  convert := fun key => (CivilDate.parse key.toList).map (· * dayNanos)
  first_nonneg := Int.le_refl 0
  last_le := Int.le_refl _
  convert_date := by
    intro key day h _ _
    rw [h, Option.map_some]

def january (day hour : Int) : Int :=
  CivilDate.toDay ⟨2026, 1, day⟩ * dayNanos + hour * 3600000000000

def eventsContext : PlanContext Nat := ⟨0, "dbo", "events", "created_at", fun _ => 0, fun _ => 0⟩

theorem thirdAtTen_selectedOnce :
    (january 1 0 ≤ january 3 10 ∧ january 3 10 ≤ january 14 0) ∧
      ∃ fuel plans, resolveTableChunks eventsContext 7000 0 0 (some (january 1 0))
          (some (january 14 0)) fuel = some plans ∧
        plans.countP (selects datetime2 · (january 3 10)) = 1 :=
  ⟨by decide, (selectedOnce_iff datetime2 eventsContext 7000 0 0 (by decide) (by decide)
    (by decide) (by decide)).mpr (by decide)⟩

/-- The 7th at ten, the last day of the first chunk, is selected by no chunk;
and a chunk size of 106753000 makes the planner run forever. -/
theorem seventhAtTen_not_selected :
    (january 1 0 ≤ january 7 10 ∧ january 7 10 ≤ january 14 0) ∧
      (¬ ∃ fuel plans, resolveTableChunks eventsContext 7000 0 0 (some (january 1 0))
          (some (january 14 0)) fuel = some plans ∧
        plans.countP (selects datetime2 · (january 7 10)) = 1) ∧
      ¬ ∃ fuel plans, resolveTableChunks eventsContext 106753000 0 0 (some (january 1 0))
          (some (january 14 0)) fuel = some plans := by
  refine ⟨by decide, ?_, ?_⟩
  · rintro ⟨fuel, plans, hrun, hcount⟩
    rw [countP_resolveTableChunks (by decide) (by decide) (by decide) (by decide) hrun,
      if_neg (by decide)] at hcount
    cases hcount
  · rw [resolveTableChunks_returns_iff eventsContext _ _ _ (by decide)]
    decide

end SqlOptima.DateCoverage
