import Mathlib.Logic.Function.Basic
import SqlOptima.CdcCapture

namespace SqlOptima.CapturePosition

open SqlOptima.Lsn
open SqlOptima.ChangeLog
open SqlOptima.SourceLog
open SqlOptima.CdcCapture
open SqlOptima.TransitionSystem

variable {Value : Type}

def qualifiedName (table : TableInfo) : String := table.schemaName ++ "." ++ table.tableName

/-- Where the loop of a table stands between two suspensions. `seen` are the
positions recorded for the table when the iteration read the last of them. -/
inductive LoopState (Value : Type)
  | idle
  | began (seen : List LSN)
  | querying (seen : List LSN) (fromLsn : LSN) (inclusive : Bool) (maxLsn : LSN)
  | publishing (seen : List LSN) (rows : List (CtRow Value)) (maxLsn : LSN)

/-- The capture agent: the positions recorded for each table name, the newest
first and the seeded one last, and its loops. Two capture instances of one table
have two loops that share its name. -/
structure AgentState (Value : Type) where
  recorded : String → List LSN
  loops : Nat → LoopState Value

inductive AgentAction (Value : Type)
  | begin (i : Nat)
  | bounds (i : Nat) (minLsn maxLsn : Option (List Byte))
  | rows (i : Nat) (table : CaptureTable Value) (batchSize : Nat)
  | finish (i : Nat)
  | abort (i : Nat)

namespace AgentState

def setLoop (s : AgentState Value) (i : Nat) (l : LoopState Value) : AgentState Value :=
  { s with loops := Function.update s.loops i l }

/-- Packing a position fails, and nothing is recorded, when a segment is out of
range. -/
def record (s : AgentState Value) (key : String) (p : LsnPosition) : AgentState Value :=
  match p.serialize with
  | none => s
  | some l => { s with recorded := Function.update s.recorded key (l :: s.recorded key) }

end AgentState

section Step

variable (tables : Nat → TableInfo)

def loopKey (i : Nat) : String := qualifiedName (tables i)

def step (s : AgentState Value) : AgentAction Value → Option (AgentState Value)
  | .begin i =>
      match s.loops i with
      | .idle => some (s.setLoop i (.began (s.recorded (loopKey tables i))))
      | _ => none
  | .bounds i minLsn maxLsn =>
      match s.loops i with
      | .began seen =>
          match planCapture (seen.head?.map LSN.bytes) minLsn maxLsn with
          | .skip newPosition => some ((s.record (loopKey tables i) newPosition).setLoop i .idle)
          | .query fromLsn inclusive mx => some (s.setLoop i (.querying seen fromLsn inclusive mx))
      | _ => none
  | .rows i table batchSize =>
      match s.loops i with
      | .querying seen fromLsn inclusive mx =>
          let rows := queryRows table.rows fromLsn inclusive batchSize
          let batch := collectBatch (tables i) mx rows
          -- a batch without changes is recorded at once
          if batch.changes.isEmpty then
            some ((s.record (loopKey tables i) batch.newPosition).setLoop i .idle)
          else some (s.setLoop i (.publishing seen rows mx))
      | _ => none
  | .finish i =>
      match s.loops i with
      | .publishing _ rows mx =>
          let batch := collectBatch (tables i) mx rows
          some ((s.record (loopKey tables i) batch.newPosition).setLoop i .idle)
      | _ => none
  | .abort i => some (s.setLoop i .idle)

def initial (seeds : String → Option LSN) : AgentState Value :=
  ⟨fun key => (seeds key).toList, fun _ => .idle⟩

end Step

section Properties

def Matches (fromLsn : LSN) (inclusive : Bool) (l : LSN) : Prop :=
  if inclusive then fromLsn ≤ l else fromLsn < l

/-- The positions recorded for a table never go back, and what a running query
asks for lies above every position that was recorded when it began. -/
structure NeverBack (s : AgentState Value) : Prop where
  sorted : ∀ key, (s.recorded key).Pairwise (· ≥ ·)
  unread : ∀ i seen fromLsn inclusive mx, s.loops i = .querying seen fromLsn inclusive mx →
    ∀ l, Matches fromLsn inclusive l → ∀ q ∈ seen, q < l

/-- The bounds leave nothing to query: no minimum, a minimum above the maximum,
or a position that has reached the maximum. -/
def Skips (last : Option LSN) (minLsn : Option (List Byte)) (mx : LSN) : Prop :=
  ∀ mn, normalizeLsnBytes minLsn = some mn → mx < mn ∨ ∃ l ∈ last, mn ≤ l ∧ mx ≤ l

/-- What a step must meet: a maximum LSN that is NULL only while the position is
absent or zero, and that is not below the position where there is nothing to
query; and, when another loop of the table has recorded a position since an
iteration began, one that is not above the LSN this iteration ends with. -/
def Forward (tables : Nat → TableInfo) (s : AgentState Value) : AgentAction Value → Prop
  | .bounds i minLsn maxLsn =>
      ∀ seen, s.loops i = .began seen → ∀ q ∈ (s.recorded (loopKey tables i)).head?,
        (normalizeLsnBytes maxLsn = none → q = .zero) ∧
          ∀ mx, normalizeLsnBytes maxLsn = some mx → Skips seen.head? minLsn mx → q ≤ mx
  | .rows i table batchSize =>
      ∀ seen fromLsn inclusive mx, s.loops i = .querying seen fromLsn inclusive mx →
        let rows := queryRows table.rows fromLsn inclusive batchSize
        (collectBatch (tables i) mx rows).changes = [] →
          s.recorded (loopKey tables i) ≠ seen →
            ∀ q ∈ (s.recorded (loopKey tables i)).head?, q ≤ lastPos CtRow.startLSN mx rows
  | .finish i =>
      ∀ seen rows mx, s.loops i = .publishing seen rows mx →
        s.recorded (loopKey tables i) ≠ seen →
          ∀ q ∈ (s.recorded (loopKey tables i)).head?, q ≤ lastPos CtRow.startLSN mx rows
  | _ => True

end Properties

section Plans

/-- A query that starts behind nothing it has read and reaches further. -/
def Ahead (last : Option LSN) (fromLsn : LSN) (inclusive : Bool) (mx : LSN) : Prop :=
  ∀ l ∈ last, l < mx ∧ ∀ r, Matches fromLsn inclusive r → l < r

theorem normalize_last (last : Option LSN) : normalizeLsnBytes (last.map LSN.bytes) = last := by
  cases last with
  | none => rfl
  | some l => exact normalizeLsnBytes_bytes l

variable {last : Option LSN} {minLsn maxLsn : Option (List Byte)} {mx : LSN}

theorem planCapture_null (h : normalizeLsnBytes maxLsn = none) :
    planCapture (last.map LSN.bytes) minLsn maxLsn = .skip (unpack .zero) := by
  have hzero : unpack .zero = ⟨0, 0, 0⟩ := by decide
  rw [planCapture, h, hzero]

theorem planCapture_skip (h : normalizeLsnBytes maxLsn = some mx) (hskip : Skips last minLsn mx) :
    planCapture (last.map LSN.bytes) minLsn maxLsn = .skip (unpack mx) := by
  rw [planCapture, h]
  cases hmin : normalizeLsnBytes minLsn with
  | none => rfl
  | some mn =>
      simp only [normalize_last]
      rw [if_pos]
      rcases hskip mn hmin with hlt | ⟨l, hl, hmn, hmx⟩
      · exact Or.inl hlt
      · rw [Option.mem_def] at hl
        subst hl
        simp only [captureStart, if_neg hmn.not_gt]
        exact Or.inr ⟨trivial, hmx⟩

theorem planCapture_query (h : normalizeLsnBytes maxLsn = some mx)
    (hskip : ¬ Skips last minLsn mx) :
    ∃ fromLsn inclusive,
      planCapture (last.map LSN.bytes) minLsn maxLsn = .query fromLsn inclusive mx ∧
        Ahead last fromLsn inclusive mx := by
  simp only [Skips, not_forall, not_or, not_exists, not_and, not_lt, not_le] at hskip
  obtain ⟨mn, hmin, hle, hlast⟩ := hskip
  rw [planCapture, h, hmin]
  simp only [normalize_last]
  cases last with
  | none =>
      refine ⟨mn, true, ?_, by simp [Ahead]⟩
      simp [captureStart, hle]
  | some l =>
      by_cases hlt : l < mn
      · refine ⟨mn, true, ?_, ?_⟩
        · simp [captureStart, hlt, hle]
        · rintro k hk
          cases hk
          exact ⟨hlt.trans_le hle, fun r hr => hlt.trans_le hr⟩
      · have hmx : l < mx := hlast l rfl (not_lt.mp hlt)
        refine ⟨l, false, ?_, ?_⟩
        · simp [captureStart, hlt, hle, hmx]
        · rintro k hk
          cases hk
          exact ⟨hmx, fun r hr => hr⟩

theorem lt_lastPos_of_ahead {fromLsn : LSN} {inclusive : Bool}
    (h : Ahead last fromLsn inclusive mx) (rows : List (CtRow Value)) (n : Nat) :
    ∀ l ∈ last, l < lastPos CtRow.startLSN mx (queryRows rows fromLsn inclusive n) := by
  intro l hl
  obtain ⟨hmx, hmatch⟩ := h l hl
  rcases lastPos_eq CtRow.startLSN mx (queryRows rows fromLsn inclusive n) with heq | ⟨r, hr, heq⟩
  · rwa [heq]
  · rw [heq]
    apply hmatch
    have hfilter := (List.mem_filter.mp (List.mem_of_mem_take hr)).2
    cases inclusive with
    | true => simpa [Matches] using hfilter
    | false => simpa [Matches] using hfilter

end Plans

section Runs

variable {tables : Nat → TableInfo} {s t : AgentState Value}

/-- What an iteration in flight knows, beside that no position went back. -/
structure Inv (s : AgentState Value) : Prop extends NeverBack s where
  began : ∀ i seen, s.loops i = .began seen → seen.Pairwise (· ≥ ·)
  ahead : ∀ i seen fromLsn inclusive mx, s.loops i = .querying seen fromLsn inclusive mx →
    Ahead seen.head? fromLsn inclusive mx
  publishing : ∀ i seen rows mx, s.loops i = .publishing seen rows mx →
    ∀ l ∈ seen.head?, l < lastPos CtRow.startLSN mx rows

theorem inv_initial (seeds : String → Option LSN) : Inv (initial seeds : AgentState Value) where
  sorted key := by
    cases h : seeds key with
    | none => simp [initial, h]
    | some l => simp [initial, h]
  unread _ _ _ _ _ h := by cases h
  began _ _ h := by cases h
  ahead _ _ _ _ _ h := by cases h
  publishing _ _ _ _ h := by cases h

theorem le_of_head {hist : List LSN} (hsorted : hist.Pairwise (· ≥ ·)) {l : LSN}
    (h : ∀ q ∈ hist.head?, q ≤ l) : ∀ q ∈ hist, q ≤ l := by
  intro q hq
  cases hist with
  | nil => cases hq
  | cons q' hist =>
      rcases List.mem_cons.mp hq with rfl | hq
      · exact h _ rfl
      · exact ((List.pairwise_cons.mp hsorted).1 q hq).trans (h _ rfl)

theorem record_unpack (s : AgentState Value) (key : String) (l : LSN) :
    s.record key (unpack l) =
      { s with recorded := Function.update s.recorded key (l :: s.recorded key) } := by
  rw [AgentState.record, serialize_unpack]

theorem setLoop_self (s : AgentState Value) (i : Nat) (l : LoopState Value) :
    (s.setLoop i l).loops i = l :=
  Function.update_self ..

theorem setLoop_ne (s : AgentState Value) {i j : Nat} (h : j ≠ i) (l : LoopState Value) :
    (s.setLoop i l).loops j = s.loops j :=
  Function.update_of_ne h ..

/-- A loop that moves on keeps the invariant when its new place has what that
place asks for. -/
theorem Inv.setLoop (h : Inv s) (i : Nat) {l : LoopState Value}
    (hbegan : ∀ seen, l = .began seen → seen.Pairwise (· ≥ ·))
    (hquery : ∀ seen fromLsn inclusive mx, l = .querying seen fromLsn inclusive mx →
      Ahead seen.head? fromLsn inclusive mx ∧ seen.Pairwise (· ≥ ·))
    (hpublish : ∀ seen rows mx, l = .publishing seen rows mx →
      ∀ k ∈ seen.head?, k < lastPos CtRow.startLSN mx rows) : Inv (s.setLoop i l) where
  sorted := h.sorted
  unread j seen fromLsn inclusive mx hj r hr := by
    by_cases hji : j = i
    · subst hji
      rw [setLoop_self] at hj
      obtain ⟨hahead, hsorted⟩ := hquery seen fromLsn inclusive mx hj
      intro q hq
      cases seen with
      | nil => cases hq
      | cons k seen =>
          have hk : q ≤ k := le_of_head hsorted (by simp) q hq
          exact hk.trans_lt ((hahead k rfl).2 r hr)
    · rw [setLoop_ne s hji] at hj
      exact h.unread j seen fromLsn inclusive mx hj r hr
  began j seen hj := by
    by_cases hji : j = i
    · subst hji
      rw [setLoop_self] at hj
      exact hbegan seen hj
    · rw [setLoop_ne s hji] at hj
      exact h.began j seen hj
  ahead j seen fromLsn inclusive mx hj := by
    by_cases hji : j = i
    · subst hji
      rw [setLoop_self] at hj
      exact (hquery seen fromLsn inclusive mx hj).1
    · rw [setLoop_ne s hji] at hj
      exact h.ahead j seen fromLsn inclusive mx hj
  publishing j seen rows mx hj := by
    by_cases hji : j = i
    · subst hji
      rw [setLoop_self] at hj
      exact hpublish seen rows mx hj
    · rw [setLoop_ne s hji] at hj
      exact h.publishing j seen rows mx hj

theorem Inv.idle (h : Inv s) (i : Nat) : Inv (s.setLoop i .idle) :=
  h.setLoop i (fun _ hl => by cases hl) (fun _ _ _ _ hl => by cases hl)
    (fun _ _ _ hl => by cases hl)

theorem Inv.record (h : Inv s) {key : String} {l : LSN}
    (hl : ∀ q ∈ (s.recorded key).head?, q ≤ l) : Inv (s.record key (unpack l)) := by
  rw [record_unpack]
  refine { h with sorted := fun key' => ?_ }
  dsimp only
  by_cases hkey : key' = key
  · subst hkey
    rw [Function.update_self]
    exact List.pairwise_cons.mpr ⟨le_of_head (h.sorted key') hl, h.sorted key'⟩
  · rw [Function.update_of_ne hkey]
    exact h.sorted key'

theorem head_le_of_neverBack {key : String} {l : LSN} {i : Nat} {p : LoopState Value}
    (h : NeverBack ((s.record key (unpack l)).setLoop i p)) :
    ∀ q ∈ (s.recorded key).head?, q ≤ l := by
  intro q hq
  have hsorted := h.sorted key
  rw [record_unpack] at hsorted
  change (Function.update s.recorded key (l :: s.recorded key) key).Pairwise (· ≥ ·) at hsorted
  rw [Function.update_self] at hsorted
  exact (List.pairwise_cons.mp hsorted).1 q (List.mem_of_mem_head? hq)

theorem newPosition_eq (table : TableInfo) (mx : LSN) (rows : List (CtRow Value)) :
    (collectBatch table mx rows).newPosition = unpack (lastPos CtRow.startLSN mx rows) :=
  parseLsn_bytes _

/-- The position an iteration ends with is not behind the one it read. -/
theorem head_le_ending {key : String} {seen : List LSN} {ends : LSN}
    (hseen : ∀ l ∈ seen.head?, l < ends)
    (hchanged : s.recorded key ≠ seen → ∀ q ∈ (s.recorded key).head?, q ≤ ends) :
    ∀ q ∈ (s.recorded key).head?, q ≤ ends := by
  by_cases h : s.recorded key = seen
  · intro q hq
    rw [h] at hq
    exact (hseen q hq).le
  · exact hchanged h

theorem Inv.bounds (h : Inv s) {i : Nat} {minLsn maxLsn : Option (List Byte)} {seen : List LSN}
    (hloop : s.loops i = .began seen) (hok : Forward tables s (.bounds i minLsn maxLsn))
    (hstep : step tables s (.bounds i minLsn maxLsn) = some t) : Inv t := by
  have hhead := hok seen hloop
  simp only [step, hloop] at hstep
  cases hmax : normalizeLsnBytes maxLsn with
  | none =>
      rw [planCapture_null hmax] at hstep
      cases hstep
      exact (h.record fun q hq => ((hhead q hq).1 hmax).le).idle i
  | some mx =>
      by_cases hskip : Skips seen.head? minLsn mx
      · rw [planCapture_skip hmax hskip] at hstep
        cases hstep
        exact (h.record fun q hq => (hhead q hq).2 mx hmax hskip).idle i
      · obtain ⟨fromLsn, inclusive, hplan, hahead⟩ := planCapture_query hmax hskip
        rw [hplan] at hstep
        cases hstep
        refine h.setLoop i (fun _ hl => by cases hl) ?_ (fun _ _ _ hl => by cases hl)
        rintro _ _ _ _ hl
        cases hl
        exact ⟨hahead, h.began i seen hloop⟩

theorem Inv.rows (h : Inv s) {i batchSize : Nat} {table : CaptureTable Value} {seen : List LSN}
    {fromLsn : LSN} {inclusive : Bool} {mx : LSN}
    (hloop : s.loops i = .querying seen fromLsn inclusive mx)
    (hok : Forward tables s (.rows i table batchSize))
    (hstep : step tables s (.rows i table batchSize) = some t) : Inv t := by
  have hends := lt_lastPos_of_ahead (h.ahead i seen fromLsn inclusive mx hloop) table.rows batchSize
  simp only [step, hloop] at hstep
  split at hstep
  · rename_i hempty
    cases hstep
    rw [newPosition_eq]
    refine (h.record ?_).idle i
    exact head_le_ending hends
      (hok seen fromLsn inclusive mx hloop (List.isEmpty_iff.mp hempty))
  · cases hstep
    refine h.setLoop i (fun _ hl => by cases hl) (fun _ _ _ _ hl => by cases hl) ?_
    rintro _ _ _ hl
    cases hl
    exact hends

/-- Every forward step keeps the invariant. -/
theorem Inv.step {a : AgentAction Value} (h : Inv s) (hok : Forward tables s a)
    (hstep : CapturePosition.step tables s a = some t) : Inv t := by
  cases a with
  | begin i =>
      cases hloop : s.loops i with
      | idle =>
          simp only [CapturePosition.step, hloop] at hstep
          cases hstep
          refine h.setLoop i ?_ (fun _ _ _ _ hl => by cases hl) (fun _ _ _ hl => by cases hl)
          rintro _ hl
          cases hl
          exact h.sorted _
      | began _ => simp [CapturePosition.step, hloop] at hstep
      | querying _ _ _ _ => simp [CapturePosition.step, hloop] at hstep
      | publishing _ _ _ => simp [CapturePosition.step, hloop] at hstep
  | bounds i minLsn maxLsn =>
      cases hloop : s.loops i with
      | idle => simp [CapturePosition.step, hloop] at hstep
      | began seen => exact h.bounds hloop hok hstep
      | querying _ _ _ _ => simp [CapturePosition.step, hloop] at hstep
      | publishing _ _ _ => simp [CapturePosition.step, hloop] at hstep
  | rows i table batchSize =>
      cases hloop : s.loops i with
      | idle => simp [CapturePosition.step, hloop] at hstep
      | began _ => simp [CapturePosition.step, hloop] at hstep
      | querying seen fromLsn inclusive mx => exact h.rows hloop hok hstep
      | publishing _ _ _ => simp [CapturePosition.step, hloop] at hstep
  | finish i =>
      cases hloop : s.loops i with
      | idle => simp [CapturePosition.step, hloop] at hstep
      | began _ => simp [CapturePosition.step, hloop] at hstep
      | querying _ _ _ _ => simp [CapturePosition.step, hloop] at hstep
      | publishing seen rows mx =>
          simp only [CapturePosition.step, hloop] at hstep
          cases hstep
          rw [newPosition_eq]
          refine (h.record ?_).idle i
          exact head_le_ending (h.publishing i seen rows mx hloop) (hok seen rows mx hloop)
  | abort i =>
      cases hstep
      exact h.idle i

/-- A step after which no position went back was a forward one. -/
theorem forward_of_neverBack {a : AgentAction Value}
    (hstep : step tables s a = some t) (hback : NeverBack t) : Forward tables s a := by
  cases a with
  | begin i => trivial
  | abort i => trivial
  | bounds i minLsn maxLsn =>
      intro seen hloop q hq
      simp only [step, hloop] at hstep
      refine ⟨fun hmax => ?_, fun mx hmax hskip => ?_⟩
      · rw [planCapture_null hmax] at hstep
        cases hstep
        exact le_antisymm (head_le_of_neverBack hback q hq) (LSN.zero_le q)
      · rw [planCapture_skip hmax hskip] at hstep
        cases hstep
        exact head_le_of_neverBack hback q hq
  | rows i table batchSize =>
      intro seen fromLsn inclusive mx hloop rows hempty _
      simp only [step, hloop] at hstep
      rw [if_pos (List.isEmpty_iff.mpr hempty)] at hstep
      cases hstep
      rw [newPosition_eq] at hback
      exact head_le_of_neverBack hback
  | finish i =>
      intro seen rows mx hloop _
      simp only [step, hloop] at hstep
      cases hstep
      rw [newPosition_eq] at hback
      exact head_le_of_neverBack hback

/-- Over a run of the agent no position goes back if and only if every step is
a forward one. -/
theorem position_never_back_iff (tables : Nat → TableInfo) (seeds : String → Option LSN)
    {actions : List (AgentAction Value)}
    (hrun : (runSteps (step tables) (initial seeds) actions).isSome) :
    (∀ pre t, pre <+: actions → runSteps (step tables) (initial seeds) pre = some t →
        NeverBack t) ↔
      ∀ pre a t, pre ++ [a] <+: actions →
        runSteps (step tables) (initial seeds) pre = some t → Forward tables t a :=
  along_run_iff (inv_initial seeds) (fun _ h => h.toNeverBack)
    (fun _ _ _ h hok hstep => h.step hok hstep)
    (fun _ _ _ _ hstep hback => forward_of_neverBack hstep hback) hrun

end Runs

section NullMaximum

def orders : Nat → TableInfo := fun _ => ⟨"dbo", "orders"⟩

/-- One insert, at LSN 5. -/
def oneInsert : CaptureTable Nat := ⟨[⟨.ofByte 5, .ofByte 1, 2, [("id", 1)]⟩], by simp⟩

/-- The insert is captured and its position recorded. -/
def captureInsert : List (AgentAction Nat) :=
  [.begin 0, .bounds 0 (some (LSN.ofByte 1).bytes) (some (LSN.ofByte 5).bytes),
    .rows 0 oneInsert 10, .finish 0]

theorem capture_insert_never_back_iff :
    (runSteps (step orders) (initial fun _ => none) captureInsert).isSome ∧
      ((∀ pre t, pre <+: captureInsert →
          runSteps (step orders) (initial fun _ => none) pre = some t → NeverBack t) ↔
        ∀ pre a t, pre ++ [a] <+: captureInsert →
          runSteps (step orders) (initial fun _ => none) pre = some t → Forward orders t a) :=
  ⟨rfl, position_never_back_iff orders _ rfl⟩

/-- Once the server has no maximum LSN the position is zero again. -/
theorem null_maximum_resets_position :
    ∃ t, runSteps (step orders) (initial fun _ => none)
        (captureInsert ++ [.begin 0, .bounds 0 (some (LSN.ofByte 1).bytes) none]) = some t ∧
      t.recorded "dbo.orders" = [.zero, .ofByte 5] ∧ ¬ NeverBack t := by
  refine ⟨_, rfl, rfl, fun h => ?_⟩
  have hle := (List.pairwise_cons.mp (h.sorted "dbo.orders")).1 (.ofByte 5)
    (List.mem_singleton.mpr rfl)
  exact absurd hle (by decide)

end NullMaximum

end SqlOptima.CapturePosition
