import Mathlib.Data.List.Forall2
import SqlOptima.StreamingComparator

namespace SqlOptima.StreamingExactness

open WhileLoop StreamingComparator

variable {V : Type} (str : V → List Char) (config : StreamingComparisonConfig)
variable (columns : List String) (keyColumn : String)

section Rows

/-- Rows with the same value in every compared column. -/
def SameRow (sRow tRow : Row V) : Prop := ∀ c ∈ columns, sRow.lookup c = tRow.lookup c

def SameTables (source target : List (Row V)) : Prop :=
  List.Forall₂ (SameRow columns) source target

/-- The joined texts of a pair of rows do not differ. -/
def SameText (pair : Row V × Row V) : Prop :=
  rowText str columns pair.1 = rowText str columns pair.2

theorem sameText_of_sameRow {sRow tRow : Row V} (h : SameRow columns sRow tRow) :
    SameText str columns (sRow, tRow) := by
  have hcells : (columns.map fun c => ((sRow.lookup c).map str).getD []) =
      columns.map fun c => ((tRow.lookup c).map str).getD [] :=
    List.map_congr_left fun c hc => by rw [h c hc]
  exact congrArg (List.intercalate ['|']) hcells

theorem sameText_of_sameTables {source target : List (Row V)}
    (h : SameTables columns source target) :
    ∀ pair ∈ source.zip target, SameText str columns pair := by
  intro pair hpair
  exact sameText_of_sameRow str columns (List.forall₂_zip h hpair)

end Rows

section Pairs

variable {pairs : List (Row V × Row V)} {st : LoopState V}

theorem comparePairs_offset (pairs : List (Row V × Row V)) (st : LoopState V) :
    (comparePairs str config columns keyColumn pairs st).offset = st.offset := by
  induction pairs generalizing st with
  | nil => rfl
  | cons pair pairs ih =>
      simp only [comparePairs]
      split
      · split
        · rfl
        · exact ih _
      · exact ih _

/-- Without aborting, a difference leaves the success as it was. -/
theorem comparePairs_success (habort : config.abortOnFirstMismatch = false)
    (pairs : List (Row V × Row V)) (st : LoopState V) :
    (comparePairs str config columns keyColumn pairs st).result.success = st.result.success := by
  induction pairs generalizing st with
  | nil => rfl
  | cons pair pairs ih =>
      simp only [comparePairs, habort]
      split
      · exact ih _
      · exact ih _

theorem comparePairs_of_sameText (st : LoopState V)
    (h : ∀ pair ∈ pairs, SameText str columns pair) :
    (comparePairs str config columns keyColumn pairs st).firstDiff = st.firstDiff ∧
      (comparePairs str config columns keyColumn pairs st).result = st.result := by
  induction pairs generalizing st with
  | nil => exact ⟨rfl, rfl⟩
  | cons pair pairs ih =>
      have hhead : rowText str columns pair.1 = rowText str columns pair.2 :=
        h pair List.mem_cons_self
      simp only [comparePairs, hhead, ne_eq, not_true_eq_false, false_and, if_false]
      exact ih _ fun p hp => h p (List.mem_cons_of_mem _ hp)

theorem comparePairs_of_difference (habort : config.abortOnFirstMismatch = true)
    (hfirst : st.firstDiff = none) (h : ∃ pair ∈ pairs, ¬ SameText str columns pair) :
    (comparePairs str config columns keyColumn pairs st).result.success = false ∧
      (comparePairs str config columns keyColumn pairs st).result.diffs ≠ [] := by
  induction pairs generalizing st with
  | nil =>
      obtain ⟨pair, hpair, -⟩ := h
      cases hpair
  | cons pair pairs ih =>
      simp only [comparePairs, habort, hfirst, Option.isNone_none, and_true, if_true]
      by_cases hhead : rowText str columns pair.1 = rowText str columns pair.2
      · rw [if_neg (not_not.mpr hhead)]
        obtain ⟨p, hp, hdiff⟩ := h
        cases hp with
        | head => exact absurd hhead hdiff
        | tail _ hp => exact ih rfl ⟨p, hp, hdiff⟩
      · rw [if_pos hhead]
        exact ⟨rfl, by simp⟩

end Pairs

section Turns

variable (source target : List (Row V))

/-- The pairs of rows that stand below an offset. -/
def comparedPairs (offset : Nat) : List (Row V × Row V) := (source.zip target).take offset

theorem zip_page (offset limit : Nat) :
    (page source offset limit).zip (page target offset limit) =
      ((source.zip target).drop offset).take limit := by
  unfold page List.zip
  rw [List.drop_zipWith, List.take_zipWith]

theorem comparedPairs_add (offset limit : Nat) :
    comparedPairs source target (offset + limit) =
      comparedPairs source target offset ++
        (page source offset limit).zip (page target offset limit) := by
  rw [zip_page, comparedPairs, comparedPairs, List.take_add]

theorem page_isEmpty_iff (rows : List (Row V)) (offset : Nat) :
    (page rows offset config.chunkSize).isEmpty = true ↔ rows.length ≤ offset := by
  have hpos := config.chunkSize_pos
  rw [List.isEmpty_iff_length_eq_zero, page, List.length_take, List.length_drop]
  omega

/-- The rows that are not yet read. -/
def remaining (st : LoopState V) : Nat := max source.length target.length - st.offset

/-- A turn without a limit on the rows: nothing is left, or a page is compared and ends the
loop or not. -/
theorem comparePages_cases (hlimit : config.maxRowsToCompare = none) (st : LoopState V) :
    (max source.length target.length ≤ st.offset ∧
        comparePages str config columns keyColumn source target st = .stop st) ∨
      (config.abortOnFirstMismatch = true ∧
        (compareRows str config columns keyColumn source target st).result.diffs ≠ [] ∧
        comparePages str config columns keyColumn source target st =
          .stop (compareRows str config columns keyColumn source target st)) ∨
      (st.offset < max source.length target.length ∧
        (config.abortOnFirstMismatch = true →
          (compareRows str config columns keyColumn source target st).result.diffs = []) ∧
        comparePages str config columns keyColumn source target st =
          .next { compareRows str config columns keyColumn source target st with
            offset := st.offset + config.chunkSize }) := by
  have hreached : limitReached config st = false := by
    rw [limitReached, hlimit]
  have hoffset : (compareRows str config columns keyColumn source target st).offset = st.offset :=
    comparePairs_offset str config columns keyColumn _ _
  unfold comparePages
  rw [hreached, if_neg Bool.false_ne_true]
  by_cases hempty : source.length ≤ st.offset ∧ target.length ≤ st.offset
  · refine Or.inl ⟨max_le hempty.1 hempty.2, ?_⟩
    rw [if_pos]
    rw [Bool.and_eq_true, page_isEmpty_iff, page_isEmpty_iff]
    exact hempty
  · have hleft : st.offset < max source.length target.length := by omega
    rw [if_neg (by rw [Bool.and_eq_true, page_isEmpty_iff, page_isEmpty_iff]; exact hempty)]
    by_cases hends : (config.abortOnFirstMismatch &&
        !(compareRows str config columns keyColumn source target st).result.diffs.isEmpty) = true
    · obtain ⟨habort, hdiffs⟩ := Bool.and_eq_true_iff.mp hends
      refine Or.inr (Or.inl ⟨habort, ?_, if_pos hends⟩)
      simpa using hdiffs
    · refine Or.inr (Or.inr ⟨hleft, ?_, ?_⟩)
      · intro habort
        simpa [habort] using hends
      · simp only [if_neg hends, hoffset]

end Turns

section Runs

variable (source target : List (Row V)) (hexdigest : List UInt8 → String)

theorem conclude_success {st : LoopState V} (h : st.result.success = true) :
    (conclude hexdigest st).success = true := by
  by_cases hdiffs : st.result.diffs.isEmpty = true
  · simp [conclude, hdiffs]
  · simp [conclude, hdiffs, h]

theorem conclude_failure {st : LoopState V} (h : st.result.success = false)
    (hdiffs : st.result.diffs ≠ []) : (conclude hexdigest st).success = false := by
  have hdiffs' : st.result.diffs.isEmpty = false := by simpa using hdiffs
  simp [conclude, hdiffs', h]

/-- The measure of a loop over pages. -/
theorem remaining_lt {st st' : LoopState V} (h : st.offset < max source.length target.length)
    (hoffset : st'.offset = st.offset + config.chunkSize) :
    remaining source target st' < remaining source target st := by
  have hpos := config.chunkSize_pos
  unfold remaining
  omega

theorem finishes_without_abort (hlimit : config.maxRowsToCompare = none)
    (habort : config.abortOnFirstMismatch = false) :
    ∃ st, Finishes (comparePages str config columns keyColumn source target) {} st ∧
      (conclude hexdigest st).success = true := by
  have hkept (st : LoopState V) :
      (compareRows str config columns keyColumn source target st).result.success =
        st.result.success :=
    comparePairs_success str config columns keyColumn habort _ _
  refine exists_finishes (I := fun st => st.result.success = true)
    (remaining source target) ?_ ?_ rfl
  · intro st st' hst hturn
    obtain ⟨-, hcase⟩ | ⟨habort', -, -⟩ | ⟨-, -, hcase⟩ :=
      comparePages_cases str config columns keyColumn source target hlimit st
    · rw [hcase] at hturn
      cases hturn
      exact conclude_success hexdigest hst
    · rw [habort] at habort'
      cases habort'
    · rw [hcase] at hturn
      cases hturn
  · intro st st' hst hturn
    obtain ⟨-, hcase⟩ | ⟨habort', -, -⟩ | ⟨hleft, -, hcase⟩ :=
      comparePages_cases str config columns keyColumn source target hlimit st
    · rw [hcase] at hturn
      cases hturn
    · rw [habort] at habort'
      cases habort'
    · rw [hcase] at hturn
      cases hturn
      exact ⟨(hkept st).trans hst, remaining_lt config source target hleft rfl⟩

/-- Before a turn of an aborting loop: no difference so far. -/
structure NoDifference (st : LoopState V) : Prop where
  firstDiff : st.firstDiff = none
  diffs : st.result.diffs = []
  success : st.result.success = true
  below : ∀ pair ∈ comparedPairs source target st.offset, SameText str columns pair

variable {source target}

theorem noDifference_next {st : LoopState V} (habort : config.abortOnFirstMismatch = true)
    (h : NoDifference str columns source target st)
    (hdiffs : (compareRows str config columns keyColumn source target st).result.diffs = []) :
    NoDifference str columns source target
      { compareRows str config columns keyColumn source target st with
        offset := st.offset + config.chunkSize } := by
  have hpage : ∀ pair ∈ (page source st.offset config.chunkSize).zip
      (page target st.offset config.chunkSize), SameText str columns pair := by
    by_contra hdiff
    push Not at hdiff
    have hfirst : (countRows config source target st).firstDiff = none := h.firstDiff
    exact (comparePairs_of_difference str config columns keyColumn habort hfirst hdiff).2 hdiffs
  obtain ⟨hfirst, hresult⟩ := comparePairs_of_sameText str config columns keyColumn
    (countRows config source target st) hpage
  refine ⟨hfirst.trans h.firstDiff, hdiffs, ?_, ?_⟩
  · exact (congrArg StreamingComparisonResult.success hresult).trans h.success
  · intro pair hpair
    rw [comparedPairs_add] at hpair
    cases List.mem_append.mp hpair with
    | inl hbelow => exact h.below pair hbelow
    | inr hmem => exact hpage pair hmem

theorem comparedPairs_subset (offset : Nat) {pair : Row V × Row V}
    (h : pair ∈ (page source offset config.chunkSize).zip (page target offset config.chunkSize)) :
    pair ∈ source.zip target := by
  rw [zip_page] at h
  exact List.mem_of_mem_drop (List.mem_of_mem_take h)

theorem difference_of_diffs {st : LoopState V} (h : NoDifference str columns source target st)
    (hdiffs : (compareRows str config columns keyColumn source target st).result.diffs ≠ []) :
    ∃ pair ∈ (page source st.offset config.chunkSize).zip
      (page target st.offset config.chunkSize), ¬ SameText str columns pair := by
  by_contra hsame
  push Not at hsame
  refine hdiffs ?_
  exact (congrArg StreamingComparisonResult.diffs
    (comparePairs_of_sameText str config columns keyColumn _ hsame).2).trans h.diffs

variable (source target) in
theorem finishes_aborting (hlimit : config.maxRowsToCompare = none)
    (habort : config.abortOnFirstMismatch = true) :
    ∃ st, Finishes (comparePages str config columns keyColumn source target) {} st ∧
      ((conclude hexdigest st).success = true ↔
        ∀ pair ∈ source.zip target, SameText str columns pair) := by
  refine exists_finishes (I := NoDifference str columns source target)
    (remaining source target) ?_ ?_ ⟨rfl, rfl, rfl, by simp [comparedPairs]⟩
  · intro st st' hst hturn
    obtain ⟨hread, hcase⟩ | ⟨-, hdiffs, hcase⟩ | ⟨-, -, hcase⟩ :=
      comparePages_cases str config columns keyColumn source target hlimit st
    · rw [hcase] at hturn
      cases hturn
      have hall : comparedPairs source target st.offset = source.zip target := by
        refine List.take_of_length_le ?_
        rw [List.length_zip]
        omega
      exact iff_of_true (conclude_success hexdigest hst.success) (hall ▸ hst.below)
    · rw [hcase] at hturn
      cases hturn
      obtain ⟨pair, hpair, hdiff⟩ := difference_of_diffs str config columns keyColumn hst hdiffs
      have hfirst : (countRows config source target st).firstDiff = none := hst.firstDiff
      have hfailure := comparePairs_of_difference str config columns keyColumn habort hfirst
        ⟨pair, hpair, hdiff⟩
      refine iff_of_false ?_ fun hsame => hdiff (hsame pair (comparedPairs_subset config _ hpair))
      have hfalse := conclude_failure hexdigest hfailure.1 hfailure.2
      exact fun htrue => Bool.false_ne_true (hfalse.symm.trans htrue)
    · rw [hcase] at hturn
      cases hturn
  · intro st st' hst hturn
    obtain ⟨-, hcase⟩ | ⟨-, -, hcase⟩ | ⟨hleft, hdiffs, hcase⟩ :=
      comparePages_cases str config columns keyColumn source target hlimit st
    · rw [hcase] at hturn
      cases hturn
    · rw [hcase] at hturn
      cases hturn
    · rw [hcase] at hturn
      cases hturn
      exact ⟨noDifference_next str config columns keyColumn habort hst (hdiffs habort),
        remaining_lt config source target hleft rfl⟩

variable (source target)

/-- The success says whether the tables are the same. -/
def ExactResult (result : StreamingComparisonResult V) : Prop :=
  result.success = true ↔ SameTables columns source target

/-- The tables are the same, or the comparison aborts at a pair of rows that both tables have
and whose joined texts differ. -/
def ExactWhen : Prop :=
  SameTables columns source target ∨
    config.abortOnFirstMismatch = true ∧
      ∃ pair ∈ source.zip target, ¬ SameText str columns pair

theorem compareTables_success_iff (hlimit : config.maxRowsToCompare = none) :
    ∃ result, CompareTables str config columns keyColumn source target hexdigest result ∧
      (result.success = true ↔
        (config.abortOnFirstMismatch = true →
          ∀ pair ∈ source.zip target, SameText str columns pair)) := by
  cases habort : config.abortOnFirstMismatch with
  | false =>
      obtain ⟨st, hfinishes, hsuccess⟩ := finishes_without_abort str config columns keyColumn
        source target hexdigest hlimit habort
      exact ⟨_, ⟨st, hfinishes, rfl⟩, by simp [hsuccess]⟩
  | true =>
      obtain ⟨st, hfinishes, hsuccess⟩ := finishes_aborting str config columns keyColumn source
        target hexdigest hlimit habort
      exact ⟨_, ⟨st, hfinishes, rfl⟩, by simp [hsuccess]⟩

theorem compareTables_unique {result result' : StreamingComparisonResult V}
    (h : CompareTables str config columns keyColumn source target hexdigest result)
    (h' : CompareTables str config columns keyColumn source target hexdigest result') :
    result = result' := by
  obtain ⟨st, hst, rfl⟩ := h
  obtain ⟨st', hst', rfl⟩ := h'
  rw [hst.unique hst']

theorem compareTables_exact_iff (hlimit : config.maxRowsToCompare = none) :
    (∃ result, CompareTables str config columns keyColumn source target hexdigest result) ∧
      ∀ result, CompareTables str config columns keyColumn source target hexdigest result →
        (ExactResult columns source target result ↔ ExactWhen str config columns source target) := by
  obtain ⟨result, hresult, hsuccess⟩ := compareTables_success_iff str config columns keyColumn
    source target hexdigest hlimit
  refine ⟨⟨result, hresult⟩, fun result' hresult' => ?_⟩
  rw [← compareTables_unique str config columns keyColumn source target hexdigest hresult hresult',
    ExactResult, hsuccess, ExactWhen]
  constructor
  · intro hexact
    by_cases hsame : SameTables columns source target
    · exact Or.inl hsame
    · have hfound := mt hexact.mp hsame
      push Not at hfound
      exact Or.inr hfound
  · intro hwhen
    cases hwhen with
    | inl hsame =>
        exact iff_of_true (fun _ => sameText_of_sameTables str columns hsame) hsame
    | inr hfound =>
        obtain ⟨habort, pair, hpair, hdiff⟩ := hfound
        refine iff_of_false (fun hall => hdiff (hall habort pair hpair)) fun hsame => ?_
        exact hdiff (sameText_of_sameTables str columns hsame pair hpair)

end Runs

section Orders

def ordersConfig : StreamingComparisonConfig where
  chunkSize_pos := by decide

def ordersSource : List (Row Int) := [[("id", 1)], [("id", 2)]]

def ordersTarget : List (Row Int) := [[("id", 1)]]

def intStr (n : Int) : List Char := (toString n).toList

/-- The second row is missing in the target. -/
theorem missing_row_is_success :
    ∃ result, CompareTables intStr ordersConfig ["id"] "id" ordersSource ordersTarget (fun _ => "")
      result ∧ result.success = true ∧ ¬ SameTables ["id"] ordersSource ordersTarget := by
  refine ⟨_, ⟨_, ⟨2, rfl⟩, rfl⟩, rfl, fun hsame => ?_⟩
  exact absurd hsame.length_eq (by decide)

theorem orders_exact_iff :
    (∃ result, CompareTables intStr ordersConfig ["id"] "id" ordersSource ordersTarget
      (fun _ => "") result) ∧
      ∀ result, CompareTables intStr ordersConfig ["id"] "id" ordersSource ordersTarget
          (fun _ => "") result →
        (ExactResult ["id"] ordersSource ordersTarget result ↔
          ExactWhen intStr ordersConfig ["id"] ordersSource ordersTarget) :=
  compareTables_exact_iff intStr ordersConfig ["id"] "id" ordersSource ordersTarget
    (fun _ => "") rfl

end Orders

end SqlOptima.StreamingExactness
