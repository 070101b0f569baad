import Mathlib.Data.Char
import Mathlib.Data.List.Lex
import Mathlib.Data.List.Nodup
import SqlOptima.CdcCapture

namespace SqlOptima.WatermarkCapture

open SqlOptima.CdcCapture (ChangeOperation)
open SqlOptima.TransitionSystem

abbrev Text := List Char

/-- A source table as the poll sees it: its rows, the watermark of each, how the
driver's value of a watermark is written by `str`, and how the server compares
the column with a bound text. A text the server cannot convert makes the query
fail. -/
structure SourceTable (Row W : Type) where
  rows : List Row
  nodup : rows.Nodup
  watermark : Row → Option W
  softDeleted : Row → Bool
  str : W → Text
  accepts : Text → Bool
  gt : W → Text → Bool

variable {Row W : Type}

namespace SourceTable

variable (src : SourceTable Row W)

/-- `[watermark] > ?`, which is not true of NULL. -/
def above (last : Text) (r : Row) : Bool :=
  match src.watermark r with
  | none => false
  | some w => src.gt w last

def eligible (last : Text) : List Row := src.rows.filter (src.above last)

/-- An order in which the server may return the rows above a text: by
watermark, and in any order where watermarks are equal. -/
def IsOrder [LinearOrder W] (last : Text) (order : List Row) : Prop :=
  order.Perm (src.eligible last) ∧
    order.Pairwise fun r r' => ∀ w ∈ src.watermark r, ∀ w' ∈ src.watermark r', w ≤ w'

instance (o : Option W) (p : W → Prop) [DecidablePred p] : Decidable (∀ w ∈ o, p w) :=
  match o with
  | none => isTrue fun _ h => by cases h
  | some w => decidable_of_iff (p w) ⟨fun h _ hw => by cases hw; exact h, fun h => h w rfl⟩

instance [DecidableEq Row] [LinearOrder W] (last : Text) (order : List Row) :
    Decidable (src.IsOrder last order) :=
  inferInstanceAs (Decidable (_ ∧ _))

end SourceTable

/-- What the adapter's query comes to: its rows, or an exception, which the
adapter turns into no rows. -/
inductive Answer (Row : Type)
  | rows (order : List Row)
  | failed

section Poll

variable (src : SourceTable Row W)

def epoch : Text := "1970-01-01T00:00:00".toList

/-- No position and an empty one stand for the epoch. -/
def lastValue : Option Text → Text
  | none => epoch
  | some [] => epoch
  | some (c :: cs) => c :: cs

/-- The greatest watermark of a page, compared as texts. -/
def maxWatermark (page : List Row) : Option Text :=
  page.foldl (fun best r =>
    match src.watermark r with
    | none => best
    | some w =>
        match best with
        | none => some (src.str w)
        | some t => if t < src.str w then some (src.str w) else some t) none

def newPosition (lastPosition : Option Text) (page : List Row) : Option Text :=
  match maxWatermark src page with
  | some t => some t
  | none =>
      match lastPosition with
      | some p => some p
      | none => some (lastValue none)

def eventOf (r : Row) : ChangeOperation × Row :=
  (if src.softDeleted r then .delete else .insert, r)

structure PollState (Row : Type) where
  position : Option Text
  events : List (ChangeOperation × Row)

def poll [DecidableEq Row] [LinearOrder W] (batchSize : Nat) (s : PollState Row) :
    Answer Row → Option (PollState Row)
  | .failed => some ⟨newPosition src s.position [], s.events⟩
  | .rows order =>
      if src.accepts (lastValue s.position) = true ∧ src.IsOrder (lastValue s.position) order then
        let page := order.take batchSize
        some ⟨newPosition src s.position page, s.events ++ page.map (eventOf src)⟩
      else none

/-- Every row above the starting watermark that is not above the current one
was delivered. -/
def LosesNothing (start : Option Text) (s : PollState Row) : Prop :=
  ∀ r ∈ src.rows, src.above (lastValue start) r = true →
    src.above (lastValue s.position) r = false → r ∈ s.events.map Prod.snd

/-- The rows a page is cut off from, as far as they are above the starting
watermark and were not delivered before, are above the text of the page's
greatest watermark. -/
def CleanPoll (start : Option Text) (batchSize : Nat) (s : PollState Row) : Answer Row → Prop
  | .failed => True
  | .rows order =>
      ∀ t ∈ maxWatermark src (order.take batchSize), ∀ r ∈ order.drop batchSize,
        src.above (lastValue start) r = true → r ∉ s.events.map Prod.snd →
          src.above (lastValue (some t)) r = true

end Poll

section Snapshot

variable (src : SourceTable Row W)

structure SnapshotState (Row : Type) where
  lastValue : Text
  read : List Row
  completed : Bool

def snapshotBegin : SnapshotState Row := ⟨[], [], false⟩

def readPage (chunkSize : Nat) (s : SnapshotState Row) (page : List Row) : SnapshotState Row :=
  match page.getLast? with
  | none => { s with completed := true }
  | some r =>
      { lastValue :=
          match src.watermark r with
          | none => s.lastValue
          | some w => src.str w
        read := s.read ++ page
        completed := decide (page.length < chunkSize) }

def snapshotStep [DecidableEq Row] [LinearOrder W] (chunkSize : Nat) (s : SnapshotState Row) :
    Answer Row → Option (SnapshotState Row)
  | .failed => if s.completed then none else some (readPage src chunkSize s [])
  | .rows order =>
      if s.completed = false ∧ src.accepts s.lastValue = true ∧ src.IsOrder s.lastValue order then
        some (readPage src chunkSize s (order.take chunkSize))
      else none

/-- Once the loop has ended every row with a watermark was read. -/
def ReadAll (s : SnapshotState Row) : Prop :=
  s.completed = true → ∀ r ∈ src.rows, (src.watermark r).isSome → r ∈ s.read

/-- A read fails only when every row was read, and the rows a page is cut off
from are above the watermark of its last row. -/
def CleanPage (chunkSize : Nat) (s : SnapshotState Row) : Answer Row → Prop
  | .failed => ∀ r ∈ src.rows, (src.watermark r).isSome → r ∈ s.read
  | .rows order =>
      ∀ r ∈ order.drop chunkSize, r ∉ s.read →
        ∀ l ∈ (order.take chunkSize).getLast?, ∀ w ∈ src.watermark l,
          src.above (src.str w) r = true

end Snapshot

section PollRuns

variable {src : SourceTable Row W} {start : Option Text} {batchSize : Nat} {s t : PollState Row}

theorem lastValue_newPosition_nil (p : Option Text) :
    lastValue (newPosition src p []) = lastValue p := by
  cases p with
  | none => rfl
  | some t => rfl

theorem watermark_isSome_of_above {last : Text} {r : Row} (h : src.above last r = true) :
    ∃ w, src.watermark r = some w := by
  cases hw : src.watermark r with
  | none => simp [SourceTable.above, hw] at h
  | some w => exact ⟨w, rfl⟩

/-- A page of rows that all have a watermark has a greatest one, unless it is
empty. -/
theorem maxWatermark_isSome {page : List Row} (hne : page ≠ [])
    (h : ∀ r ∈ page, (src.watermark r).isSome) : (maxWatermark src page).isSome := by
  induction page using List.reverseRecOn with
  | nil => exact absurd rfl hne
  | append_singleton page r _ =>
      obtain ⟨w, hw⟩ := Option.isSome_iff_exists.mp (h r (by simp))
      rw [maxWatermark, List.foldl_append, List.foldl_cons, List.foldl_nil, hw]
      dsimp only
      split
      · rfl
      · split
        · rfl
        · rfl

theorem losesNothing_begin (start : Option Text) : LosesNothing src start ⟨start, []⟩ := by
  intro r _ habove hnot
  rw [habove] at hnot
  cases hnot

theorem mem_snd_map_eventOf (page : List Row) (r : Row) :
    r ∈ (page.map (eventOf src)).map Prod.snd ↔ r ∈ page := by
  simp [eventOf]

variable [LinearOrder W]

theorem mem_order {last : Text} {order : List Row} (h : src.IsOrder last order) {r : Row} :
    r ∈ order ↔ r ∈ src.rows ∧ src.above last r = true := by
  rw [h.1.mem_iff, SourceTable.eligible, List.mem_filter]

theorem position_of_page {order : List Row} {last : Text} (h : src.IsOrder last order)
    {r : Row} (hr : r ∈ order) (hbatch : 0 < batchSize) (p : Option Text) :
    ∃ t, maxWatermark src (order.take batchSize) = some t ∧
      newPosition src p (order.take batchSize) = some t := by
  have hne : order.take batchSize ≠ [] := by
    rw [ne_eq, List.take_eq_nil_iff, not_or]
    exact ⟨by omega, List.ne_nil_of_mem hr⟩
  have hsome : ∀ r ∈ order.take batchSize, (src.watermark r).isSome := by
    intro r hr
    obtain ⟨w, hw⟩ := watermark_isSome_of_above ((mem_order h).mp (List.mem_of_mem_take hr)).2
    simp [hw]
  obtain ⟨t, ht⟩ := Option.isSome_iff_exists.mp (maxWatermark_isSome hne hsome)
  exact ⟨t, ht, by simp [newPosition, ht]⟩

variable [DecidableEq Row]

theorem losesNothing_poll {a : Answer Row} (hbatch : 0 < batchSize)
    (h : LosesNothing src start s) (hok : CleanPoll src start batchSize s a)
    (hstep : poll src batchSize s a = some t) : LosesNothing src start t := by
  cases a with
  | failed =>
      cases hstep
      intro r hr hstart hnot
      rw [lastValue_newPosition_nil] at hnot
      exact h r hr hstart hnot
  | rows order =>
      obtain ⟨⟨-, horder⟩, hstep⟩ := Option.ite_none_right_eq_some.mp hstep
      cases hstep
      intro r hr hstart hnot
      rw [List.map_append, List.mem_append, mem_snd_map_eventOf]
      by_cases hold : src.above (lastValue s.position) r = true
      · -- the row was asked for: it is in the page, or the page was cut before it
        have hmem := (mem_order horder).mpr ⟨hr, hold⟩
        obtain ⟨t, ht, hpos⟩ := position_of_page horder hmem hbatch s.position
        by_contra hlost
        rw [not_or] at hlost
        have hdrop : r ∈ order.drop batchSize := by
          rw [← List.take_append_drop batchSize order, List.mem_append] at hmem
          exact hmem.resolve_left hlost.2
        have habove := hok t ht r hdrop hstart hlost.1
        rw [hpos, habove] at hnot
        cases hnot
      · exact Or.inl (h r hr hstart (Bool.eq_false_of_not_eq_true hold))

theorem cleanPoll_of_losesNothing {a : Answer Row}
    (hstep : poll src batchSize s a = some t) (h : LosesNothing src start t) :
    CleanPoll src start batchSize s a := by
  cases a with
  | failed => trivial
  | rows order =>
      obtain ⟨⟨-, horder⟩, hstep⟩ := Option.ite_none_right_eq_some.mp hstep
      cases hstep
      intro t ht r hdrop hstart hfresh
      by_contra hnot
      obtain ⟨hr, -⟩ := (mem_order horder).mp (List.mem_of_mem_drop hdrop)
      have hpos : newPosition src s.position (order.take batchSize) = some t := by
        rw [Option.mem_def] at ht
        simp [newPosition, ht]
      have hbelow : src.above (lastValue (newPosition src s.position (order.take batchSize))) r =
          false := by
        rw [hpos]
        exact Bool.eq_false_of_not_eq_true hnot
      have hmem := h r hr hstart hbelow
      rw [List.map_append, List.mem_append, mem_snd_map_eventOf] at hmem
      have hnodup : order.Nodup := horder.1.nodup_iff.mpr (src.nodup.filter _)
      rcases hmem with hmem | hmem
      · exact hfresh hmem
      · rw [← List.take_append_drop batchSize order] at hnodup
        exact (List.nodup_append.mp hnodup).2.2 r hmem r hdrop rfl

end PollRuns

section SnapshotRuns

variable {src : SourceTable Row W} {chunkSize : Nat} {s t : SnapshotState Row}

/-- A row with a watermark was read or is still above the cursor. -/
structure SnapshotInv (src : SourceTable Row W) (s : SnapshotState Row) : Prop where
  readAll : ReadAll src s
  waiting : s.completed = false → ∀ r ∈ src.rows, (src.watermark r).isSome →
    r ∈ s.read ∨ src.above s.lastValue r = true

theorem snapshotInv_begin (h : ∀ r ∈ src.rows, (src.watermark r).isSome → src.above [] r = true) :
    SnapshotInv src snapshotBegin where
  readAll hdone := by cases hdone
  waiting _ r hr hw := Or.inr (h r hr hw)

variable [DecidableEq Row] [LinearOrder W]

theorem snapshotInv_step {a : Answer Row} (hchunk : 0 < chunkSize) (h : SnapshotInv src s)
    (hok : CleanPage src chunkSize s a) (hstep : snapshotStep src chunkSize s a = some t) :
    SnapshotInv src t := by
  cases a with
  | failed =>
      simp only [snapshotStep] at hstep
      split at hstep
      · cases hstep
      · cases hstep
        exact ⟨fun _ => hok, fun hdone => by cases hdone⟩
  | rows order =>
      obtain ⟨⟨hrunning, -, horder⟩, hstep⟩ := Option.ite_none_right_eq_some.mp hstep
      cases hstep
      have hsplit : ∀ r ∈ src.rows, (src.watermark r).isSome →
          r ∈ s.read ∨ r ∈ order.take chunkSize ∨ r ∈ order.drop chunkSize := by
        intro r hr hw
        rcases h.waiting hrunning r hr hw with hread | habove
        · exact Or.inl hread
        · have hmem := (mem_order horder).mpr ⟨hr, habove⟩
          rw [← List.take_append_drop chunkSize order, List.mem_append] at hmem
          exact Or.inr hmem
      cases hlast : (order.take chunkSize).getLast? with
      | none =>
          -- an empty page: there was nothing left above the cursor
          have hnil : order = [] := by
            rw [List.getLast?_eq_none_iff, List.take_eq_nil_iff] at hlast
            exact hlast.resolve_left (by omega)
          simp only [readPage, hlast]
          refine ⟨fun _ r hr hw => ?_, fun hdone => by cases hdone⟩
          simpa [hnil] using hsplit r hr hw
      | some l =>
          simp only [readPage, hlast]
          refine ⟨fun hdone r hr hw => ?_, fun _ r hr hw => ?_⟩
          · have hshort : order.drop chunkSize = [] := by
              have hlt := of_decide_eq_true hdone
              rw [List.length_take] at hlt
              exact List.drop_eq_nil_of_le (by omega)
            rw [List.mem_append]
            simpa [hshort] using hsplit r hr hw
          · rw [List.mem_append]
            by_cases hread : r ∈ s.read ∨ r ∈ order.take chunkSize
            · exact Or.inl hread
            · rw [not_or] at hread
              have hdrop := ((hsplit r hr hw).resolve_left hread.1).resolve_left hread.2
              obtain ⟨w, hlw⟩ := watermark_isSome_of_above
                ((mem_order horder).mp (List.mem_of_mem_take (List.mem_of_getLast? hlast))).2
              right
              rw [hlw]
              exact hok r hdrop hread.1 l hlast w hlw

end SnapshotRuns

/-- Over any polls nothing is lost if and only if no poll is cut off from a row
it leaves below its new position; and a snapshot over clean pages has read every
row when it ends. -/
theorem watermark_capture_complete [DecidableEq Row] [LinearOrder W] (src : SourceTable Row W)
    {batchSize chunkSize : Nat} (hbatch : 0 < batchSize) (hchunk : 0 < chunkSize) :
    (∀ (start : Option Text) (polls : List (Answer Row)),
      (runSteps (poll src batchSize) ⟨start, []⟩ polls).isSome →
        ((∀ pre s, pre <+: polls → runSteps (poll src batchSize) ⟨start, []⟩ pre = some s →
            LosesNothing src start s) ↔
          ∀ pre a s, pre ++ [a] <+: polls →
            runSteps (poll src batchSize) ⟨start, []⟩ pre = some s →
              CleanPoll src start batchSize s a)) ∧
      ((∀ r ∈ src.rows, (src.watermark r).isSome → src.above [] r = true) →
        ∀ s, ReachesBy (snapshotStep src chunkSize) (CleanPage src chunkSize) snapshotBegin s →
          ReadAll src s) := by
  refine ⟨fun start polls hrun => ?_, fun hall s hreach => ?_⟩
  · exact along_run_iff (losesNothing_begin start) (fun _ h => h)
      (fun _ _ _ h hok hstep => losesNothing_poll hbatch h hok hstep)
      (fun _ _ _ _ hstep h => cleanPoll_of_losesNothing hstep h) hrun
  · exact (hreach.invariant (snapshotInv_begin hall)
      fun _ _ _ h hok hstep => snapshotInv_step hchunk h hok hstep).readAll

section SharedWatermark

def noonStamp : Text := "2026-05-22".toList

/-- Rows with a text column of time stamps as their watermark, all three with
the same one. -/
def threeStamped : SourceTable Nat Text where
  rows := [1, 2, 3]
  nodup := by decide
  watermark _ := some noonStamp
  softDeleted _ := false
  str := id
  accepts _ := true
  gt w t := decide (t < w)

theorem three_stamped_complete :
    ((runSteps (poll threeStamped 3) ⟨none, []⟩ [.rows [1, 2, 3], .rows []]).isSome ∧
      ((∀ pre s, pre <+: [Answer.rows [1, 2, 3], .rows []] →
          runSteps (poll threeStamped 3) ⟨none, []⟩ pre = some s →
            LosesNothing threeStamped none s) ↔
        ∀ pre a s, pre ++ [a] <+: [Answer.rows [1, 2, 3], .rows []] →
          runSteps (poll threeStamped 3) ⟨none, []⟩ pre = some s →
            CleanPoll threeStamped none 3 s a)) ∧
      ReachesBy (snapshotStep threeStamped 5) (CleanPage threeStamped 5) snapshotBegin
        ⟨noonStamp, [1, 2, 3], true⟩ ∧
      ReadAll threeStamped ⟨noonStamp, [1, 2, 3], true⟩ := by
  have hrun : (runSteps (poll threeStamped 3) ⟨none, []⟩ [.rows [1, 2, 3], .rows []]).isSome := by
    decide
  have hreach : ReachesBy (snapshotStep threeStamped 5) (CleanPage threeStamped 5) snapshotBegin
      ⟨noonStamp, [1, 2, 3], true⟩ := by
    refine Relation.ReflTransGen.single ⟨.rows [1, 2, 3], ?_, rfl⟩
    intro r hr
    cases hr
  have hall : ∀ r ∈ threeStamped.rows, (threeStamped.watermark r).isSome →
      threeStamped.above [] r = true := by decide
  have hcomplete := watermark_capture_complete threeStamped (by decide : 0 < 3) (by decide : 0 < 5)
  exact ⟨⟨hrun, hcomplete.1 none _ hrun⟩, hreach, hcomplete.2 hall _ hreach⟩

/-- A page cut inside a group of equal watermarks loses the rest of the group,
and a failed read ends the snapshot. -/
theorem shared_watermark_lost :
    (∃ s, runSteps (poll threeStamped 2) ⟨none, []⟩ [.rows [1, 2, 3]] = some s ∧
      ¬ LosesNothing threeStamped none s) ∧
      ∃ s, runSteps (snapshotStep threeStamped 2) snapshotBegin [.failed] = some s ∧
        ¬ ReadAll threeStamped s := by
  refine ⟨⟨_, rfl, fun h => ?_⟩, ⟨_, rfl, fun h => ?_⟩⟩
  · have hmem := h 3 (by decide) (by decide) (by decide)
    exact absurd hmem (by decide)
  · exact absurd (h rfl 1 (by decide) rfl) (by decide)

end SharedWatermark

end SqlOptima.WatermarkCapture
