import SqlOptima.TransferKeyset

namespace SqlOptima.TransferCompleteness

open TransferCommands TransferKeys TransferRange TransferCopier TransferRanges TransferKeyset

variable {Row : Type} {sql : SqlOrder} {sprint : Option DriverValue → List UInt8}
  {t : Tables Row sql} {r : CopyRequest}

section Above

/-- The rows that a transfer owes the target: those above its maximum, or all of them where it has
none, or where the tables have no order column. -/
def isOwed (t : Tables Row sql) (target : List Row) (row : Row) : Bool :=
  t.order = .heap || match t.targetMax target with
    | none => true
    | some m => above t (some m) row

def rowsOwed (t : Tables Row sql) (target : List Row) : List Row :=
  t.source.filter (isOwed t target)

theorem rowsOwed_of_heap (hheap : t.order = .heap) (target : List Row) :
    rowsOwed t target = t.source :=
  List.filter_eq_self.mpr fun row _ => by simp [isOwed, hheap]

theorem rowsOwed_of_order (horder : t.order ≠ .heap) (target : List Row) :
    rowsOwed t target = t.rowsAfter ((t.targetMax target).map some) := by
  rw [rowsOwed]
  cases hmax : t.targetMax target with
  | none => exact List.filter_eq_self.mpr fun row _ => by simp [isOwed, hmax]
  | some m =>
      refine List.filter_congr fun row _ => ?_
      simp [isOwed, hmax, horder, above]

theorem maxKey_le_append {target : List Row} {m : DriverValue} (landed : List Row)
    (h : t.targetMax target = some m) :
    ∃ m', t.targetMax (target ++ landed) = some m' ∧ sql.le m m' = true := by
  have hmem := (SqlOrder.maxKey_spec h).1
  cases hmax : t.targetMax (target ++ landed) with
  | none =>
      rw [Tables.targetMax, SqlOrder.maxKey_eq_none_iff, List.filterMap_append] at hmax
      rw [(List.append_eq_nil_iff.mp hmax).1] at hmem
      cases hmem
  | some m' =>
      refine ⟨m', rfl, (SqlOrder.maxKey_spec hmax).2 m ?_⟩
      rw [List.filterMap_append]
      exact List.mem_append_left _ hmem

/-- Rows that are owed after some have landed were owed before. -/
theorem isOwed_of_append {target landed : List Row} {row : Row}
    (h : isOwed t (target ++ landed) row = true) : isOwed t target row = true := by
  unfold isOwed at h ⊢
  rw [Bool.or_eq_true] at h ⊢
  rcases h with h | h
  · exact Or.inl h
  · refine Or.inr ?_
    cases hmax : t.targetMax target with
    | none => rfl
    | some m =>
        obtain ⟨m', hmax', hle⟩ := maxKey_le_append landed hmax
        rw [hmax'] at h
        obtain ⟨l, k, hl, hk, hlt⟩ := above_iff.mp h
        obtain rfl := Option.some.inj hl
        exact above_iff.mpr ⟨m, k, rfl, hk, SqlOrder.lt_of_le_of_lt hle hlt⟩

/-- A row that has landed, with a key, is not owed any more. -/
theorem not_isOwed_of_landed (horder : t.order ≠ .heap) {target landed : List Row} {row : Row}
    (hrow : row ∈ landed) (hkey : (t.key row).isSome) :
    ¬ isOwed t (target ++ landed) row = true := by
  obtain ⟨k, hk⟩ := Option.isSome_iff_exists.mp hkey
  have hmem : k ∈ (target ++ landed).filterMap t.key :=
    List.mem_filterMap.mpr ⟨row, List.mem_append_right _ hrow, hk⟩
  intro h
  simp only [isOwed, horder, decide_false, Bool.false_or] at h
  cases hmax : t.targetMax (target ++ landed) with
  | none =>
      rw [Tables.targetMax, SqlOrder.maxKey_eq_none_iff] at hmax
      rw [hmax] at hmem
      cases hmem
  | some m =>
      rw [hmax] at h
      obtain ⟨l, k', hl, hk', hlt⟩ := above_iff.mp h
      obtain rfl := Option.some.inj hl
      obtain rfl := Option.some.inj (hk.symm.trans hk')
      exact SqlOrder.lt_irrefl_of_le ((SqlOrder.maxKey_spec hmax).2 k hmem) hlt

end Above

section IntegerPhase

/-- A null key is owed only to a target without a maximum, and no range of integers has it. -/
def NullsCovered (t : Tables Row sql) (target : List Row) : Prop :=
  t.targetMax target ≠ none ∨ ∀ row ∈ t.source, t.key row ≠ none

/-- What a range to copy is, in the source and in the target. -/
structure SpanSpec (t : Tables Row sql) (target : List Row) (start max : Int64) : Prop where
  max_mem : ∃ row ∈ t.source, t.key row = some (.int max)
  le_max : ∀ row ∈ t.source, ∀ v : Int64, t.key row = some (.int v) → v.toInt ≤ max.toInt
  start_le : start.toInt ≤ max.toInt
  start_spec : (t.targetMax target = none ∧
      ∀ row ∈ t.source, ∀ v : Int64, t.key row = some (.int v) → start.toInt ≤ v.toInt) ∨
    ∃ tm : Int64, t.targetMax target = some (.int tm) ∧ start.toInt = tm.toInt + 1

variable {target : List Row} {start max : Int64}

theorem int_of_mem (hint : t.order = .integer) {rows : List Row}
    (hrows : ∀ row ∈ rows, row ∈ t.source ++ t.target) {k : DriverValue}
    (hk : k ∈ rows.filterMap t.key) : ∃ v : Int64, k = .int v := by
  obtain ⟨row, hrow, hkey⟩ := List.mem_filterMap.mp hk
  exact t.integers hint row (hrows row hrow) k hkey

theorem int_of_targetMax (hint : t.order = .integer)
    (htarget : ∀ row ∈ target, row ∈ t.source ++ t.target) {m : DriverValue}
    (h : t.targetMax target = some m) : ∃ v : Int64, m = .int v :=
  int_of_mem hint htarget (SqlOrder.maxKey_spec h).1

/-- The three ways the bounds queries end. -/
theorem integerSpan_cases (hint : t.order = .integer)
    (htarget : ∀ row ∈ target, row ∈ t.source ++ t.target) :
    (t.integerSpan target = .nothing ∧ t.sourceKeys = []) ∨
    (t.integerSpan target = .nothing ∧ ∃ tm : Int64, t.targetMax target = some (.int tm) ∧
      ∀ row ∈ t.source, ∀ v : Int64, t.key row = some (.int v) → v.toInt ≤ tm.toInt) ∨
    ∃ start max, t.integerSpan target = .range start max ∧ SpanSpec t target start max := by
  have hsource : ∀ row ∈ t.source, row ∈ t.source ++ t.target :=
    fun row hrow => List.mem_append_left _ hrow
  have hkeys : ∀ row ∈ t.source, ∀ v : Int64, t.key row = some (.int v) →
      .int v ∈ t.sourceKeys :=
    fun row hrow v hv => List.mem_filterMap.mpr ⟨row, hrow, hv⟩
  unfold Tables.integerSpan
  cases hmax : sql.maxKey t.sourceKeys with
  | none =>
      rw [SqlOrder.maxKey_eq_none_iff] at hmax
      refine Or.inl ⟨?_, hmax⟩
      cases sql.minKey t.sourceKeys <;> rfl
  | some hi =>
      cases hmin : sql.minKey t.sourceKeys with
      | none =>
          have h : (sql.minKey t.sourceKeys).isSome :=
            SqlOrder.minKey_isSome_iff.mpr (by rw [hmax]; rfl)
          rw [hmin] at h
          cases h
      | some lo =>
          obtain ⟨hmaxMem, hmaxLe⟩ := SqlOrder.maxKey_spec hmax
          obtain ⟨hminMem, hminLe⟩ := SqlOrder.minKey_spec hmin
          obtain ⟨maxV, rfl⟩ := int_of_mem hint hsource hmaxMem
          obtain ⟨minV, rfl⟩ := int_of_mem hint hsource hminMem
          have hupper : ∀ row ∈ t.source, ∀ v : Int64, t.key row = some (.int v) →
              v.toInt ≤ maxV.toInt := by
            intro row hrow v hv
            simpa [sql.int_le] using hmaxLe _ (hkeys row hrow v hv)
          have hmem : ∃ row ∈ t.source, t.key row = some (.int maxV) :=
            List.mem_filterMap.mp hmaxMem
          refine Or.inr ?_
          cases htm : t.targetMax target with
          | none =>
              refine Or.inr ⟨minV, maxV, rfl, hmem, hupper, ?_, Or.inl ⟨htm, ?_⟩⟩
              · simpa [sql.int_le] using hmaxLe _ hminMem
              · intro row hrow v hv
                simpa [sql.int_le] using hminLe _ (hkeys row hrow v hv)
          | some m =>
              obtain ⟨tm, rfl⟩ := int_of_targetMax hint htarget htm
              by_cases hle : maxV ≤ tm
              · refine Or.inl ⟨if_pos hle, tm, rfl, fun row hrow v hv => ?_⟩
                have := hupper row hrow v hv
                rw [Int64.le_iff_toInt_le] at hle
                omega
              · have hlt := Int64.lt_iff_toInt_lt.mp (Int64.not_le.mp hle)
                have hsucc := toInt_succ hlt
                refine Or.inr ⟨tm + 1, maxV, if_neg hle, hmem, hupper, by omega,
                  Or.inr ⟨tm, htm, hsucc⟩⟩

theorem spanSpec_of_range (hint : t.order = .integer)
    (htarget : ∀ row ∈ target, row ∈ t.source ++ t.target)
    (hspan : t.integerSpan target = .range start max) : SpanSpec t target start max := by
  rcases integerSpan_cases hint htarget with ⟨h, -⟩ | ⟨h, -⟩ | ⟨start', max', h, hspec⟩
  · rw [hspan] at h
    cases h
  · rw [hspan] at h
    cases h
  · rw [hspan] at h
    cases h
    exact hspec

theorem nil_perm_rowsOwed_iff (hint : t.order = .integer)
    (htarget : ∀ row ∈ target, row ∈ t.source ++ t.target)
    (hspan : t.integerSpan target = .nothing) :
    [].Perm (rowsOwed t target) ↔ NullsCovered t target := by
  have horder : t.order ≠ .heap := by rw [hint]; decide
  rw [List.nil_perm, rowsOwed_of_order horder]
  rcases integerSpan_cases hint htarget with ⟨-, hkeys⟩ | ⟨-, tm, htm, hle⟩ | ⟨_, _, hrange, -⟩
  · have hnull : ∀ row ∈ t.source, t.key row = none := List.filterMap_eq_nil_iff.mp hkeys
    cases hmax : t.targetMax target with
    | none =>
        refine ⟨fun h => Or.inr fun row hrow => ?_, fun h => ?_⟩
        · rw [show t.source = [] from h] at hrow
          cases hrow
        · have hall := h.resolve_left (fun hne => hne hmax)
          exact List.eq_nil_iff_forall_not_mem.mpr fun row hrow =>
            hall row hrow (hnull row hrow)
    | some m =>
        refine iff_of_true ?_ (Or.inl (by rw [hmax]; exact Option.some_ne_none _))
        refine List.eq_nil_iff_forall_not_mem.mpr fun row hrow => ?_
        obtain ⟨hsource, habove⟩ := mem_rowsAfter_some.mp hrow
        obtain ⟨_, k, -, hk, -⟩ := above_iff.mp habove
        rw [hnull row hsource] at hk
        cases hk
  · refine iff_of_true ?_ (Or.inl (by rw [htm]; exact Option.some_ne_none _))
    rw [htm]
    refine List.eq_nil_iff_forall_not_mem.mpr fun row hrow => ?_
    obtain ⟨hsource, habove⟩ := mem_rowsAfter_some.mp hrow
    obtain ⟨_, k, hl, hk, hlt⟩ := above_iff.mp habove
    obtain rfl := Option.some.inj hl
    obtain ⟨v, rfl⟩ := t.integers hint row (List.mem_append_left _ hsource) k hk
    rw [SqlOrder.lt_int] at hlt
    have := hle row hsource v hk
    omega
  · rw [hspan] at hrange
    cases hrange

theorem rowsOwed_eq_rowsIn (hint : t.order = .integer) (hspec : SpanSpec t target start max)
    (hnulls : NullsCovered t target) : rowsOwed t target = t.rowsIn start max := by
  have horder : t.order ≠ .heap := by rw [hint]; decide
  rw [rowsOwed_of_order horder]
  rcases hspec.start_spec with ⟨hnone, hstart⟩ | ⟨tm, htm, hstart⟩
  · have hall := hnulls.resolve_left (fun hne => hne hnone)
    rw [hnone]
    refine (List.filter_eq_self.mpr fun row hrow => ?_).symm
    obtain ⟨k, hk⟩ := Option.ne_none_iff_exists'.mp (hall row hrow)
    obtain ⟨v, rfl⟩ := t.integers hint row (List.mem_append_left _ hrow) k hk
    exact (inRange_iff hint hrow).mpr ⟨v, hk, hstart row hrow v hk, hspec.le_max row hrow v hk⟩
  · rw [htm]
    refine List.filter_congr fun row hrow => ?_
    rw [Bool.eq_iff_iff, inRange_iff hint hrow]
    change above t (some (.int tm)) row = true ↔ _
    rw [above_iff]
    constructor
    · rintro ⟨l, k, hl, hk, hlt⟩
      obtain rfl := Option.some.inj hl
      obtain ⟨v, rfl⟩ := t.integers hint row (List.mem_append_left _ hrow) k hk
      rw [SqlOrder.lt_int] at hlt
      exact ⟨v, hk, by omega, hspec.le_max row hrow v hk⟩
    · rintro ⟨v, hv, hv1, -⟩
      exact ⟨.int tm, .int v, rfl, hv, SqlOrder.lt_int.mpr (by omega)⟩

theorem perm_rowsOwed_iff (hint : t.order = .integer) (hspec : SpanSpec t target start max)
    {landed : List Row} (hlanded : ∀ row ∈ landed, (t.key row).isSome) :
    landed.Perm (rowsOwed t target) ↔
      NullsCovered t target ∧ landed.Perm (t.rowsIn start max) := by
  have horder : t.order ≠ .heap := by rw [hint]; decide
  constructor
  · intro hperm
    have hnulls : NullsCovered t target := by
      rcases hspec.start_spec with ⟨hnone, -⟩ | ⟨tm, htm, -⟩
      · refine Or.inr fun row hrow hkey => ?_
        rw [rowsOwed_of_order horder, hnone] at hperm
        have hsome := hlanded row (hperm.mem_iff.mpr hrow)
        rw [hkey] at hsome
        cases hsome
      · exact Or.inl (by rw [htm]; exact Option.some_ne_none _)
    exact ⟨hnulls, rowsOwed_eq_rowsIn hint hspec hnulls ▸ hperm⟩
  · rintro ⟨hnulls, hperm⟩
    rwa [rowsOwed_eq_rowsIn hint hspec hnulls]

/-- A loop over integer ranges, from the target as it is, copies all it owes. -/
def IntegerCovers (t : Tables Row sql) (r : CopyRequest) (lost : Load → Bool) (target : List Row)
    (chunk : Int64) (answers : List ChunkAnswer) : Prop :=
  NullsCovered t target ∧ ∀ start max, t.integerSpan target = .range start max →
    let plan := (iterations chunk answers).take (maxCopyIters r.rowCountEstimate chunk)
    ReachesWithin start.toInt max.toInt (plan.map Prod.fst) ∧ FilesKept t lost start.toInt plan

theorem isSome_of_landed_range (hint : t.order = .integer) {load : Loader Row}
    {lost : Load → Bool} (hload : Loads load lost) {site : Site} {chunk : Int64}
    (hchunk : 1 ≤ chunk) {answers : List ChunkAnswer} :
    ∀ row ∈ (rangeLoop t r load site start max chunk answers).landed, (t.key row).isSome := by
  intro row hrow
  obtain ⟨-, v, hv, -⟩ := landed_rangeLoop_ge hint hload ⟨_, chunk⟩ hchunk answers row hrow
  rw [hv]
  rfl

theorem rangeLoop_perm_iff (hint : t.order = .integer)
    (htarget : ∀ row ∈ target, row ∈ t.source ++ t.target) {load : Loader Row}
    {lost : Load → Bool} (hload : Loads load lost) {site : Site} {chunk : Int64}
    (hchunk : 1 ≤ chunk) {answers : List ChunkAnswer}
    (hspan : t.integerSpan target = .range start max)
    (hok : (rangeLoop t r load site start max chunk answers).error = none) :
    (rangeLoop t r load site start max chunk answers).landed.Perm (rowsOwed t target) ↔
      IntegerCovers t r lost target chunk answers := by
  have hspec := spanSpec_of_range hint htarget hspan
  rw [perm_rowsOwed_iff hint hspec (isSome_of_landed_range hint hload hchunk)]
  refine and_congr_right fun _ => ?_
  rw [rangeLoop, landed_rangeLoop_perm_iff hint hload hspec.max_mem hspec.le_max _
    ⟨start, chunk⟩ hchunk hspec.start_le answers hok]
  constructor
  · intro h start' max' hspan'
    rw [hspan] at hspan'
    cases hspan'
    exact h
  · exact fun h => h start max hspan

theorem integerCovers_of_nothing (hspan : t.integerSpan target = .nothing) {lost : Load → Bool}
    {chunk : Int64} {answers : List ChunkAnswer} :
    IntegerCovers t r lost target chunk answers ↔ NullsCovered t target := by
  refine ⟨And.left, fun h => ⟨h, fun start max hrange => ?_⟩⟩
  rw [hspan] at hrange
  cases hrange

end IntegerPhase

section Phases

variable {target : List Row} {chunk : Int64}

/-- The streaming copy, from the target as it is, copies all it owes. -/
def StreamCovers (sprint : Option DriverValue → List UInt8) (t : Tables Row sql) (r : CopyRequest)
    (target : List Row) (chunk : Int64) : Prop :=
  match t.order with
  | .heap => True
  | .integer => IntegerCovers t r (fun _ => false) target chunk r.stream.chunks
  | .keyset =>
      let plan := (iterations chunk r.stream.chunks).take (maxCopyIters r.rowCountEstimate chunk)
      BatchesReach sprint t (plan.map Prod.fst) ((t.targetMax target).map some) (rowsOwed t target)

theorem streamInteger_perm_iff (hint : t.order = .integer)
    (htarget : ∀ row ∈ target, row ∈ t.source ++ t.target) (hchunk : 1 ≤ chunk)
    (hok : (streamInteger sprint t r target chunk).error = none) :
    (streamInteger sprint t r target chunk).landed.Perm (rowsOwed t target) ↔
      IntegerCovers t r (fun _ => false) target chunk r.stream.chunks := by
  unfold streamInteger at hok ⊢
  split at hok
  · cases hok
  · rw [if_neg ‹_›]
    rcases integerSpan_cases hint htarget with ⟨hspan, -⟩ | ⟨hspan, -⟩ | ⟨start, max, hspan, -⟩
    · rw [hspan, integerCovers_of_nothing hspan]
      exact nil_perm_rowsOwed_iff hint htarget hspan
    · rw [hspan, integerCovers_of_nothing hspan]
      exact nil_perm_rowsOwed_iff hint htarget hspan
    · rw [hspan] at hok ⊢
      exact rangeLoop_perm_iff hint htarget loads_stream hchunk hspan hok

theorem copyBCP_perm_iff (htarget : ∀ row ∈ target, row ∈ t.source ++ t.target)
    (hchunk : 1 ≤ chunk) (hok : (copyBCP t r target chunk).error = none) :
    (copyBCP t r target chunk).landed.Perm (rowsOwed t target) ↔
      IntegerCovers t r (fun l => l == .fileLost) target chunk r.bcp.chunks := by
  unfold copyBCP at hok ⊢
  cases hint : t.order with
  | heap => rw [hint] at hok; cases hok
  | keyset => rw [hint] at hok; cases hok
  | integer =>
      rw [hint] at hok
      simp only at hok ⊢
      split at hok
      · cases hok
      · rw [if_neg ‹_›]
        rcases integerSpan_cases hint htarget with
          ⟨hspan, -⟩ | ⟨hspan, -⟩ | ⟨start, max, hspan, -⟩
        · rw [hspan, integerCovers_of_nothing hspan]
          exact nil_perm_rowsOwed_iff hint htarget hspan
        · rw [hspan, integerCovers_of_nothing hspan]
          exact nil_perm_rowsOwed_iff hint htarget hspan
        · rw [hspan] at hok ⊢
          simp only at hok ⊢
          split at hok
          · cases hok
          · rw [if_neg ‹_›]
            exact rangeLoop_perm_iff hint htarget loads_bcp hchunk hspan hok

theorem streamKeyset_perm_iff (hkeyset : t.order = .keyset) (hchunk : 1 ≤ chunk)
    (hok : (streamKeyset sprint t r target chunk).error = none) :
    (streamKeyset sprint t r target chunk).landed.Perm (rowsOwed t target) ↔
      BatchesReach sprint t
        (((iterations chunk r.stream.chunks).take (maxCopyIters r.rowCountEstimate chunk)).map
          Prod.fst) ((t.targetMax target).map some) (rowsOwed t target) := by
  have horder : t.order ≠ .heap := by rw [hkeyset]; decide
  unfold streamKeyset at hok ⊢
  split at hok
  · cases hok
  · rw [if_neg ‹_›, rowsOwed_of_order horder]
    exact landed_keysetLoop_perm_iff _ ⟨_, chunk⟩ hchunk _ hok

theorem landed_streamHeap (t : Tables Row sql) (r : CopyRequest) (chunk : Int64) :
    ((streamHeap t r chunk).landed = [] ∧ (streamHeap t r chunk).error ≠ none) ∨
      (streamHeap t r chunk).landed = t.source := by
  have hfail : ∀ {check : Check} {e : CopyError},
      (⟨checkEvents .stream check, some e, chunk⟩ : Outcome Row).landed = [] ∧ some e ≠ none :=
    fun {_ _} => ⟨rowsOf_checkEvents _ _, Option.some_ne_none _⟩
  unfold streamHeap
  cases r.stream.chunks with
  | nil => exact Or.inl ⟨rfl, Option.some_ne_none _⟩
  | cons a answers =>
      simp only
      split
      · exact Or.inl hfail
      · exact Or.inl hfail
      · split
        · exact Or.inl hfail
        · refine Or.inr ?_
          change rowsOf (_ ++ [Event.rows t.source]) = _
          rw [rowsOf_append, rowsOf_checkEvents, rowsOf_rows, List.nil_append]

theorem copyStream_perm_iff (htarget : ∀ row ∈ target, row ∈ t.source ++ t.target)
    (hchunk : 1 ≤ chunk) (hok : (copyStream sprint t r target chunk).error = none) :
    (copyStream sprint t r target chunk).landed.Perm (rowsOwed t target) ↔
      StreamCovers sprint t r target chunk := by
  unfold copyStream at hok ⊢
  unfold StreamCovers
  cases horder : t.order with
  | heap =>
      rw [horder] at hok
      rw [rowsOwed_of_heap horder, (landed_streamHeap t r chunk).resolve_left fun h => h.2 hok]
      exact iff_of_true (List.Perm.refl _) trivial
  | integer =>
      rw [horder] at hok
      exact streamInteger_perm_iff horder htarget hchunk hok
  | keyset =>
      rw [horder] at hok
      exact streamKeyset_perm_iff horder hchunk hok

end Phases

section Fallback

variable {target : List Row} {chunk : Int64}

theorem rangeLoop_landed_owed (hint : t.order = .integer)
    (htarget : ∀ row ∈ target, row ∈ t.source ++ t.target) {load : Loader Row}
    {lost : Load → Bool} (hload : Loads load lost) {site : Site} (hchunk : 1 ≤ chunk)
    {answers : List ChunkAnswer} {start max : Int64}
    (hspan : t.integerSpan target = .range start max) {row : Row}
    (hrow : row ∈ (rangeLoop t r load site start max chunk answers).landed) :
    row ∈ rowsOwed t target := by
  have hspec := spanSpec_of_range hint htarget hspan
  have horder : t.order ≠ .heap := by rw [hint]; decide
  obtain ⟨hsource, v, hv, hv1, -⟩ :=
    landed_rangeLoop_ge hint hload ⟨_, chunk⟩ hchunk answers row hrow
  change start.toInt ≤ v.toInt at hv1
  rw [rowsOwed_of_order horder]
  rcases hspec.start_spec with ⟨hnone, -⟩ | ⟨tm, htm, hstart⟩
  · rwa [hnone]
  · rw [htm]
    exact mem_rowsAfter_some.mpr ⟨hsource, above_iff.mpr
      ⟨.int tm, .int v, rfl, hv, SqlOrder.lt_int.mpr (by omega)⟩⟩

theorem copyStream_landed_owed (htarget : ∀ row ∈ target, row ∈ t.source ++ t.target)
    (hchunk : 1 ≤ chunk) {row : Row} (hrow : row ∈ (copyStream sprint t r target chunk).landed) :
    row ∈ rowsOwed t target := by
  unfold copyStream at hrow
  cases horder : t.order with
  | heap =>
      rw [horder] at hrow
      rw [rowsOwed_of_heap horder]
      rcases landed_streamHeap t r chunk with ⟨h, -⟩ | h
      · rw [h] at hrow
        cases hrow
      · rwa [h] at hrow
  | integer =>
      rw [horder] at hrow
      simp only [streamInteger] at hrow
      split at hrow
      · cases hrow
      · rcases integerSpan_cases horder htarget with
          ⟨hspan, -⟩ | ⟨hspan, -⟩ | ⟨start, max, hspan, -⟩
        · rw [hspan] at hrow
          cases hrow
        · rw [hspan] at hrow
          cases hrow
        · rw [hspan] at hrow
          exact rangeLoop_landed_owed horder htarget loads_stream hchunk hspan hrow
  | keyset =>
      rw [horder] at hrow
      simp only [streamKeyset] at hrow
      split at hrow
      · cases hrow
      · rw [rowsOwed_of_order (by rw [horder]; decide)]
        exact landed_keysetLoop_mem _ _ _ row hrow

theorem copyBCP_landed (r : CopyRequest) (target : List Row) (hchunk : 1 ≤ chunk) :
    1 ≤ (copyBCP t r target chunk).chunkSize ∧
      ∀ row ∈ (copyBCP t r target chunk).landed,
        t.order ≠ .heap ∧ row ∈ t.source ∧ (t.key row).isSome := by
  unfold copyBCP
  cases hint : t.order with
  | heap => exact ⟨hchunk, fun row hrow => by cases hrow⟩
  | keyset => exact ⟨hchunk, fun row hrow => by cases hrow⟩
  | integer =>
      simp only
      split
      · exact ⟨hchunk, fun row hrow => by cases hrow⟩
      · split
        · exact ⟨hchunk, fun row hrow => by cases hrow⟩
        · exact ⟨hchunk, fun row hrow => by cases hrow⟩
        · split
          · exact ⟨hchunk, fun row hrow => by cases hrow⟩
          · refine ⟨one_le_chunkSize_loop _ ⟨_, chunk⟩ hchunk _, fun row hrow => ?_⟩
            obtain ⟨hsource, v, hv, -⟩ :=
              landed_rangeLoop_ge hint loads_bcp ⟨_, chunk⟩ hchunk _ row hrow
            exact ⟨by decide, hsource, by rw [hv]; rfl⟩

theorem append_perm_filter_iff {α : Type} {xs ys zs : List α} {p : α → Bool}
    (hxs : ∀ x ∈ xs, ¬ p x = true) (hys : ∀ y ∈ ys, p y = true) :
    (xs ++ ys).Perm zs ↔ xs.Perm (zs.filter fun z => !p z) ∧ ys.Perm (zs.filter p) := by
  have hxs' : xs.filter p = [] := List.filter_eq_nil_iff.mpr hxs
  have hys' : ys.filter p = ys := List.filter_eq_self.mpr hys
  have hxs'' : xs.filter (fun z => !p z) = xs :=
    List.filter_eq_self.mpr fun x hx => by simpa using hxs x hx
  have hys'' : ys.filter (fun z => !p z) = [] :=
    List.filter_eq_nil_iff.mpr fun y hy => by simp [hys y hy]
  constructor
  · intro h
    have hlow := h.filter fun z => !p z
    have hhigh := h.filter p
    rw [List.filter_append, hxs'', hys'', List.append_nil] at hlow
    rw [List.filter_append, hxs', hys', List.nil_append] at hhigh
    exact ⟨hlow, hhigh⟩
  · rintro ⟨hlow, hhigh⟩
    exact (hlow.append hhigh).trans
      (List.perm_append_comm.trans (List.filter_append_perm p zs))

/-- Of the rows it owed, the failed bulk copy has landed exactly those that are not owed to the
target it leaves: no row lies below the new maximum and was missed. -/
def BulkWhole (t : Tables Row sql) (landed : List Row) : Prop :=
  landed.Perm ((rowsOwed t t.target).filter fun row => !isOwed t (t.target ++ landed) row)

theorem rowsOwed_append (landed : List Row) :
    rowsOwed t (target ++ landed) =
      (rowsOwed t target).filter (isOwed t (target ++ landed)) := by
  rw [rowsOwed, rowsOwed, List.filter_filter]
  refine List.filter_congr fun row _ => ?_
  rw [Bool.eq_iff_iff, Bool.and_eq_true]
  exact ⟨fun h => ⟨h, isOwed_of_append h⟩, And.left⟩

theorem fallback_perm_iff (hchunk : 1 ≤ chunk) {e : CopyError}
    (herror : (copyBCP t r t.target chunk).error = some e)
    (hok : (copyBCPOrStream sprint t r chunk).error = none) :
    (copyBCPOrStream sprint t r chunk).landed.Perm (rowsOwed t t.target) ↔
      BulkWhole t (copyBCP t r t.target chunk).landed ∧
        StreamCovers sprint t r (t.target ++ (copyBCP t r t.target chunk).landed)
          (copyBCP t r t.target chunk).chunkSize := by
  have htarget : ∀ row ∈ t.target, row ∈ t.source ++ t.target :=
    fun row hrow => List.mem_append_right _ hrow
  obtain ⟨hchunk', hlanded⟩ := copyBCP_landed r t.target hchunk
  unfold copyBCPOrStream at hok ⊢
  simp only [herror] at hok ⊢
  generalize hbulk : copyBCP t r t.target chunk = bulk at *
  have htarget' : ∀ row ∈ t.target ++ bulk.landed, row ∈ t.source ++ t.target := by
    intro row hrow
    rcases List.mem_append.mp hrow with h | h
    · exact htarget row h
    · exact List.mem_append_left _ (hlanded row h).2.1
  change (copyStream sprint t r (t.target ++ bulk.landed) bulk.chunkSize).error = none at hok
  rw [landed_after, ← copyStream_perm_iff htarget' hchunk' hok, rowsOwed_append]
  refine append_perm_filter_iff (fun row hrow => ?_) (fun row hrow => ?_)
  · obtain ⟨horder, -, hkey⟩ := hlanded row hrow
    exact not_isOwed_of_landed horder hrow hkey
  · exact (List.mem_filter.mp (copyStream_landed_owed htarget' hchunk' hrow)).2

end Fallback

section Completeness

def ModeCovers (sprint : Option DriverValue → List UInt8) (t : Tables Row sql) (r : CopyRequest)
    (mode : CopyMode) (chunk : Int64) : Prop :=
  match mode with
  | .insertSelect | .streamBulk => StreamCovers sprint t r t.target chunk
  | .bcpNative =>
      let bulk := copyBCP t r t.target chunk
      match bulk.error with
      | none => IntegerCovers t r (fun l => l == .fileLost) t.target chunk r.bcp.chunks
      | some _ =>
          BulkWhole t bulk.landed ∧
            StreamCovers sprint t r (t.target ++ bulk.landed) bulk.chunkSize

/-- The copy covers what it owes, by the path that it takes. -/
def Covers (sprint : Option DriverValue → List UInt8) (t : Tables Row sql) (r : CopyRequest) :
    Prop :=
  if t.order ≠ .heap ∧ deltaSkip sprint t then rowsOwed t t.target = []
  else ModeCovers sprint t r (copyMode r (r.estimate.getD 0)) (startChunkSize r)

theorem one_le_startChunkSize : 1 ≤ startChunkSize r := by
  unfold startChunkSize
  split
  · decide
  · next h => exact Int64.not_lt.mp h

theorem copy_eq_of_ok (hok : (copySQLServerToSQLServer sprint t r).error = none) :
    copySQLServerToSQLServer sprint t r =
      if t.order ≠ .heap ∧ deltaSkip sprint t then finished (startChunkSize r) none
      else copyByMode sprint t r (copyMode r (r.estimate.getD 0)) (startChunkSize r) := by
  unfold copySQLServerToSQLServer copy at hok ⊢
  split at hok
  · cases hok
  · rw [if_neg ‹_›]
    cases hestimate : r.estimate with
    | none =>
        rw [hestimate] at hok
        cases hok
    | some estimate =>
        rw [hestimate] at hok
        simp only [Option.getD_some] at hok ⊢
        split at hok
        · cases hok
        · rw [if_neg ‹_›]
          split at hok
          · cases hok
          · rw [if_neg ‹_›]
            split at hok
            · cases hok
            · rw [if_neg ‹_›]
              split at hok
              · cases hok
              · rw [if_neg ‹_›]

theorem copyByMode_perm_iff {mode : CopyMode} {chunk : Int64} (hchunk : 1 ≤ chunk)
    (hok : (copyByMode sprint t r mode chunk).error = none) :
    (copyByMode sprint t r mode chunk).landed.Perm (rowsOwed t t.target) ↔
      ModeCovers sprint t r mode chunk := by
  have htarget : ∀ row ∈ t.target, row ∈ t.source ++ t.target :=
    fun row hrow => List.mem_append_right _ hrow
  cases mode with
  | streamBulk => exact copyStream_perm_iff htarget hchunk hok
  | insertSelect =>
      have heq : copyInsertSelect sprint t r t.target chunk =
          copyStream sprint t r t.target chunk := by
        unfold copyInsertSelect
        cases horder : t.order with
        | integer => rw [copyStream, horder]
        | _ => rfl
      rw [copyByMode, heq] at hok ⊢
      exact copyStream_perm_iff htarget hchunk hok
  | bcpNative =>
      rw [copyByMode] at hok ⊢
      rw [ModeCovers]
      cases herror : (copyBCP t r t.target chunk).error with
      | none =>
          have heq : copyBCPOrStream sprint t r chunk = copyBCP t r t.target chunk := by
            simp only [copyBCPOrStream, herror]
          rw [heq]
          exact copyBCP_perm_iff htarget hchunk herror
      | some e => exact fallback_perm_iff hchunk herror hok

/-- A copy that returns no error has landed the rows above the target's maximum, each once, exactly
when its path covers them. -/
theorem landed_perm_rowsOwed_iff (hok : (copySQLServerToSQLServer sprint t r).error = none) :
    (copySQLServerToSQLServer sprint t r).landed.Perm (rowsOwed t t.target) ↔
      Covers sprint t r := by
  have heq := copy_eq_of_ok hok
  rw [heq] at hok ⊢
  unfold Covers
  split
  · exact List.nil_perm
  · next hskip =>
      rw [if_neg hskip] at hok
      exact copyByMode_perm_iff one_le_startChunkSize hok

theorem twoChunks_covers :
    Covers (fun _ => []) (idTables [1, 2, 15] [1] (by decide)) (quietRequest 2) :=
  (landed_perm_rowsOwed_iff (by decide +kernel)).mp (by decide +kernel)

/-- Two rows a thousand keys apart: the 32 chunks that the estimate allows end before the second.
Two rows at the last integers: the first chunk would end past them. -/
theorem sparse_and_last_keys_not_copied :
    let sparse := copySQLServerToSQLServer (fun _ => []) (idTables [0, 1000] [] (by decide))
      (quietRequest 32)
    let atEnd := copySQLServerToSQLServer (fun _ => [])
      (idTables [9223372036854775800, 9223372036854775807] [] (by decide)) (quietRequest 1)
    (sparse.error = none ∧ sparse.landed = [0] ∧
      ¬ sparse.landed.Perm (rowsOwed (idTables [0, 1000] [] (by decide)) [])) ∧
    (atEnd.error = none ∧ atEnd.landed = [] ∧
      ¬ atEnd.landed.Perm (rowsOwed (idTables [9223372036854775800, 9223372036854775807] []
        (by decide)) [])) := by
  decide +kernel

end Completeness

end SqlOptima.TransferCompleteness
