import SqlOptima.PlanProgress

namespace SqlOptima.PlanOwnership

open PlanProgress

variable {jobId n : String} {w : Write} {ws : List Write} {m : Metadata}
  {row : TablePlan} {done later : List TablePlan} {totals : JobTotals}

section Rows

/-- A write that, of the rows of its job, reaches those of one table name only. -/
def About (n : String) : Write → Prop
  | .updateTableProgress tableName _ _ => tableName = n
  | .setTableError _ sourceTable _ => sourceTable = n
  | .updateJobTotals _ _ => True

@[simp] theorem set_jobId (w : Write) (p : TablePlan) : (w.set p).jobId = p.jobId := by
  cases w <;> rfl

@[simp] theorem set_tableName (w : Write) (p : TablePlan) :
    (w.set p).tableName = p.tableName := by
  cases w <;> rfl

@[simp] theorem set_schemaName (w : Write) (p : TablePlan) :
    (w.set p).schemaName = p.schemaName := by
  cases w <;> rfl

@[simp] theorem setPlan_jobId (w : Write) (p : TablePlan) :
    (w.setPlan jobId p).jobId = p.jobId := by
  unfold Write.setPlan
  split_ifs <;> simp

@[simp] theorem setPlan_tableName (w : Write) (p : TablePlan) :
    (w.setPlan jobId p).tableName = p.tableName := by
  unfold Write.setPlan
  split_ifs <;> simp

@[simp] theorem setPlan_schemaName (w : Write) (p : TablePlan) :
    (w.setPlan jobId p).schemaName = p.schemaName := by
  unfold Write.setPlan
  split_ifs <;> simp

theorem setPlan_of_other (hw : About n w) {p : TablePlan}
    (hp : p.jobId = jobId → p.tableName ≠ n) : w.setPlan jobId p = p := by
  have hskip : w.selects jobId p = false := by
    cases w with
    | updateTableProgress tableName status rows =>
        obtain rfl : tableName = n := hw
        simpa [Write.selects] using hp
    | setTableError sourceSchema sourceTable message =>
        obtain rfl : sourceTable = n := hw
        simp only [Write.selects, Bool.and_eq_false_iff, decide_eq_false_iff_not]
        by_cases hjob : p.jobId = jobId
        · exact .inr (hp hjob)
        · exact .inl (.inl hjob)
    | updateJobTotals rows tablesDone => rfl
  rw [Write.setPlan, hskip, if_neg Bool.false_ne_true]

theorem map_setPlan_of_other (hw : About n w) {ps : List TablePlan}
    (hps : ∀ p ∈ ps, p.jobId = jobId → p.tableName ≠ n) : ps.map (w.setPlan jobId) = ps :=
  (List.map_congr_left fun p hp => setPlan_of_other hw (hps p hp)).trans (List.map_id ps)

/-- A plan row after writes. -/
def bookAll (jobId : String) (row : TablePlan) (ws : List Write) : TablePlan :=
  ws.foldl (fun p w => w.setPlan jobId p) row

@[simp] theorem bookAll_nil : bookAll jobId row [] = row := rfl

@[simp] theorem bookAll_cons :
    bookAll jobId row (w :: ws) = bookAll jobId (w.setPlan jobId row) ws := rfl

theorem bookAll_append (ws' : List Write) :
    bookAll jobId row (ws ++ ws') = bookAll jobId (bookAll jobId row ws) ws' :=
  List.foldl_append

@[simp] theorem bookAll_jobId : (bookAll jobId row ws).jobId = row.jobId := by
  induction ws generalizing row with
  | nil => rfl
  | cons w ws ih => rw [bookAll_cons, ih, setPlan_jobId]

@[simp] theorem bookAll_tableName : (bookAll jobId row ws).tableName = row.tableName := by
  induction ws generalizing row with
  | nil => rfl
  | cons w ws ih => rw [bookAll_cons, ih, setPlan_tableName]

@[simp] theorem bookAll_schemaName : (bookAll jobId row ws).schemaName = row.schemaName := by
  induction ws generalizing row with
  | nil => rfl
  | cons w ws ih => rw [bookAll_cons, ih, setPlan_schemaName]

theorem execAll_append (ws ws' : List Write) :
    m.execAll jobId (ws ++ ws') = (m.execAll jobId ws).execAll jobId ws' :=
  List.foldl_append

theorem plans_exec_totals {rows tablesDone : Nat} :
    (m.exec jobId (.updateJobTotals rows tablesDone)).plans = m.plans :=
  List.map_id m.plans

/-- Writes about a table change the one row of its name. -/
theorem plans_execAll (hws : ∀ w ∈ ws, About n w)
    (hdone : ∀ p ∈ done, p.jobId = jobId → p.tableName ≠ n)
    (hlater : ∀ p ∈ later, p.jobId = jobId → p.tableName ≠ n) :
    (Metadata.execAll jobId ⟨done ++ row :: later, totals⟩ ws).plans =
      done ++ bookAll jobId row ws :: later := by
  induction ws generalizing row totals with
  | nil => rfl
  | cons w ws ih =>
      have hw := hws w List.mem_cons_self
      have hexec : Metadata.exec jobId ⟨done ++ row :: later, totals⟩ w =
          ⟨done ++ w.setPlan jobId row :: later, w.setTotals totals⟩ := by
        simp only [Metadata.exec, List.map_append, List.map_cons,
          map_setPlan_of_other hw hdone, map_setPlan_of_other hw hlater]
      rw [Metadata.execAll, List.foldl_cons, hexec, bookAll_cons]
      exact ih fun w' hw' => hws w' (List.mem_cons_of_mem _ hw')

end Rows

section Blocks

/-- The writes of a block change no plan row but the one at `k`. -/
def OwnedBlock (jobId : String) (k : Nat) (m : Metadata) (block : List Write) : Prop :=
  ∀ pre w, pre ++ [w] <+: block → ∀ j, j ≠ k →
    ((m.execAll jobId pre).exec jobId w).plans[j]? = (m.execAll jobId pre).plans[j]?

/-- Each write made while a table is moved changes no plan row but that table's; the plan rows of
the job begin at `first`. -/
def Owned (jobId : String) (first : Nat) (m : Metadata) (blocks : List (List Write)) : Prop :=
  ∀ i block, blocks[i]? = some block →
    OwnedBlock jobId (first + i) (m.execAll jobId (blocks.take i).flatten) block

/-- The tables up to the last that is reached have names that do not come again. -/
def Separate (names : List String) (reached : Nat) : Prop :=
  ∀ i j name, i < reached → i < j → names[i]? = some name → names[j]? ≠ some name

/-- The row that `create` inserts for a table of a job. -/
def createdRow (jobId : String) (t : String × String) : TablePlan :=
  { jobId, schemaName := t.1, tableName := t.2 }

def created (jobId : String) (tables : List (String × String)) : List TablePlan :=
  tables.map (createdRow jobId)

/-- Blocks of writes for the tables in turn: each begins with a status other than pending. -/
inductive Blocks : List String → List (List Write) → Prop where
  | ended (names : List String) : Blocks names []
  | closed (rows tablesDone : Nat) : Blocks [] [[.updateJobTotals rows tablesDone]]
  | table {n : String} {status : PlanStatus} {rows : Nat} {ws : List Write}
      {names : List String} {blocks : List (List Write)} (hstatus : status ≠ .pending)
      (hws : ∀ w ∈ ws, About n w) (hrest : Blocks names blocks) :
      Blocks (n :: names) ((.updateTableProgress n status rows :: ws) :: blocks)

variable {first reached : Nat} {block : List Write} {blocks : List (List Write)}
  {names : List String} {tables : List (String × String)}

theorem owned_cons : Owned jobId first m (block :: blocks) ↔
    OwnedBlock jobId first m block ∧ Owned jobId (first + 1) (m.execAll jobId block) blocks := by
  constructor
  · intro h
    refine ⟨h 0 block rfl, fun i next hi => ?_⟩
    have hnext := h (i + 1) next hi
    rwa [List.take_succ_cons, List.flatten_cons, execAll_append, ← Nat.add_assoc,
      Nat.add_right_comm] at hnext
  · rintro ⟨hblock, hrest⟩ i next hi
    cases i with
    | zero =>
        obtain rfl : block = next := Option.some.inj hi
        exact hblock
    | succ i =>
        rw [List.take_succ_cons, List.flatten_cons, execAll_append, ← Nat.add_assoc,
          Nat.add_right_comm]
        exact hrest i next hi

theorem separate_cons :
    Separate (n :: names) (reached + 1) ↔ n ∉ names ∧ Separate names reached := by
  constructor
  · intro h
    refine ⟨fun hmem => ?_, fun i j name hi hij hname => ?_⟩
    · obtain ⟨j, hj⟩ := List.mem_iff_getElem?.mp hmem
      exact h 0 (j + 1) n (Nat.succ_pos _) (Nat.succ_pos _) rfl hj
    · exact h (i + 1) (j + 1) name (Nat.succ_lt_succ hi) (Nat.succ_lt_succ hij) hname
  · rintro ⟨hmem, hrest⟩ i j name hi hij hname hj
    cases j with
    | zero => exact absurd hij (Nat.not_lt_zero i)
    | succ j =>
        cases i with
        | zero =>
            obtain rfl : n = name := Option.some.inj hname
            exact hmem (List.mem_of_getElem? hj)
        | succ i =>
            exact hrest i j name (Nat.lt_of_succ_lt_succ hi) (Nat.lt_of_succ_lt_succ hij) hname hj

theorem separate_zero : Separate names 0 :=
  fun _ _ _ hi => absurd hi (Nat.not_lt_zero _)

theorem separate_nil : Separate [] reached := by
  intro i j name _ _ hname
  simp at hname

theorem ownedBlock_of_about (hblock : ∀ w ∈ block, About n w)
    (hdone : ∀ p ∈ done, p.jobId = jobId → p.tableName ≠ n)
    (hlater : ∀ p ∈ later, p.jobId = jobId → p.tableName ≠ n) :
    OwnedBlock jobId done.length ⟨done ++ row :: later, totals⟩ block := by
  intro pre w hpre j hj
  have hmem : ∀ w' ∈ pre ++ [w], About n w' := fun w' hw' => hblock w' (hpre.subset hw')
  have hbefore : (Metadata.execAll jobId ⟨done ++ row :: later, totals⟩ pre).plans =
      done ++ bookAll jobId row pre :: later :=
    plans_execAll (fun w' hw' => hmem w' (List.mem_append_left _ hw')) hdone hlater
  have hafter : (Metadata.execAll jobId ⟨done ++ row :: later, totals⟩ (pre ++ [w])).plans =
      done ++ bookAll jobId row (pre ++ [w]) :: later :=
    plans_execAll hmem hdone hlater
  rw [execAll_append] at hafter
  change ((Metadata.execAll jobId ⟨done ++ row :: later, totals⟩ pre).exec jobId w).plans = _
    at hafter
  rw [hafter, hbefore]
  rcases Nat.lt_or_gt_of_ne hj with hlt | hgt
  · rw [List.getElem?_append_left hlt, List.getElem?_append_left hlt]
  · obtain ⟨d, rfl⟩ := Nat.exists_eq_add_of_lt hgt
    rw [List.getElem?_append_right (by omega), List.getElem?_append_right (by omega)]
    simp [Nat.add_assoc]

/-- The first write of a block also changes a later row that has its table's name. -/
theorem not_ownedBlock {status : PlanStatus} {rows : Nat} (hstatus : status ≠ .pending)
    (hname : n ∈ tables.map Prod.snd) :
    ¬ OwnedBlock jobId done.length ⟨done ++ row :: created jobId tables, totals⟩
      (.updateTableProgress n status rows :: ws) := by
  intro h
  obtain ⟨t, ht, rfl⟩ := List.mem_map.mp hname
  obtain ⟨j, hj⟩ := List.mem_iff_getElem?.mp ht
  have hrow : (done ++ row :: created jobId tables)[done.length + (j + 1)]? =
      some (createdRow jobId t) := by
    rw [List.getElem?_append_right (Nat.le_add_right _ _), Nat.add_sub_cancel_left,
      List.getElem?_cons_succ, created, List.getElem?_map, hj]
    rfl
  have hsame := h [] (.updateTableProgress t.2 status rows) (List.prefix_append [_] ws)
    (done.length + (j + 1)) (by omega)
  simp only [Metadata.execAll, Metadata.exec, List.foldl_nil, List.getElem?_map, hrow,
    Option.map_some, Option.some.injEq] at hsame
  simp [Write.setPlan, Write.selects, Write.set, createdRow, hstatus] at hsame

theorem createdRow_tableName (t : String × String) :
    (createdRow jobId t).tableName = t.2 := rfl

theorem created_cons (t : String × String) :
    created jobId (t :: tables) = createdRow jobId t :: created jobId tables := rfl

theorem created_names (hn : n ∉ tables.map Prod.snd) :
    ∀ p ∈ created jobId tables, p.jobId = jobId → p.tableName ≠ n := by
  rintro p hp - rfl
  obtain ⟨t, ht, rfl⟩ := List.mem_map.mp hp
  exact hn (List.mem_map_of_mem ht)

/-- The plan rows when all blocks are written. -/
def booked (jobId : String) : List TablePlan → List (List Write) → List TablePlan
  | rows, [] => rows
  | [], _ :: _ => []
  | row :: rows, block :: blocks => bookAll jobId row block :: booked jobId rows blocks

/-- The names of the rows before the tables to come. -/
def Apart (jobId : String) (done : List TablePlan) (names : List String) : Prop :=
  ∀ p ∈ done, p.jobId = jobId → p.tableName ∉ names

theorem apart_head (h : Apart jobId done (n :: names)) :
    ∀ p ∈ done, p.jobId = jobId → p.tableName ≠ n := by
  rintro p hp hjob rfl
  exact h p hp hjob List.mem_cons_self

theorem apart_append (h : Apart jobId done (n :: names)) (hrow : row.tableName = n)
    (hn : n ∉ names) : Apart jobId (done ++ [bookAll jobId row block]) names := by
  intro p hp hjob
  rcases List.mem_append.mp hp with hp | hp
  · exact fun hmem => h p hp hjob (List.mem_cons_of_mem _ hmem)
  · obtain rfl := List.mem_singleton.mp hp
    rwa [bookAll_tableName, hrow]

theorem execAll_mk (hplans : (m.execAll jobId block).plans = done ++ row :: later) :
    m.execAll jobId block = ⟨(done ++ [row]) ++ later, (m.execAll jobId block).totals⟩ := by
  rw [List.append_cons] at hplans
  rw [← hplans]

/-- The blocks book their own rows exactly when no reached table has the name of a later one. -/
theorem owned_iff (hblocks : Blocks names blocks) (hnames : tables.map Prod.snd = names)
    (hdone : Apart jobId done names) :
    Owned jobId done.length ⟨done ++ created jobId tables, totals⟩ blocks ↔
      Separate names blocks.length := by
  induction hblocks generalizing done tables totals with
  | ended names => exact iff_of_true (fun i block hi => by simp at hi) separate_zero
  | closed rows tablesDone =>
      refine iff_of_true ?_ separate_nil
      rw [owned_cons]
      refine ⟨fun pre w hpre j _ => ?_, fun i block hi => by simp at hi⟩
      obtain rfl : w = .updateJobTotals rows tablesDone := by
        simpa using hpre.subset (List.mem_append_right pre (List.mem_singleton_self w))
      rw [plans_exec_totals]
  | @table n status rows ws names blocks hstatus hws hrest ih =>
      cases tables with
      | nil => simp at hnames
      | cons t tables =>
          obtain ⟨rfl, rfl⟩ := List.cons.inj hnames
          rw [owned_cons, List.length_cons, separate_cons, created_cons]
          by_cases hn : t.2 ∈ tables.map Prod.snd
          · exact iff_of_false (fun h => not_ownedBlock hstatus hn h.1) fun h => h.1 hn
          · have hblock : ∀ w ∈ .updateTableProgress t.2 status rows :: ws, About t.2 w :=
              List.forall_mem_cons.mpr ⟨rfl, hws⟩
            rw [execAll_mk (plans_execAll hblock (apart_head hdone) (created_names hn)),
              and_iff_right (ownedBlock_of_about hblock (apart_head hdone) (created_names hn)),
              and_iff_right hn, ← ih rfl (apart_append hdone (createdRow_tableName t) hn),
              List.length_append, List.length_singleton]

theorem plans_execAll_blocks (hblocks : Blocks names blocks)
    (hnames : tables.map Prod.snd = names) (hdone : Apart jobId done names)
    (hseparate : Separate names blocks.length) :
    (Metadata.execAll jobId ⟨done ++ created jobId tables, totals⟩ blocks.flatten).plans =
      done ++ booked jobId (created jobId tables) blocks := by
  induction hblocks generalizing done tables totals with
  | ended names => cases tables <;> rfl
  | closed rows tablesDone =>
      obtain rfl : tables = [] := List.map_eq_nil_iff.mp hnames
      exact plans_exec_totals
  | @table n status rows ws names blocks hstatus hws hrest ih =>
      cases tables with
      | nil => simp at hnames
      | cons t tables =>
          obtain ⟨rfl, rfl⟩ := List.cons.inj hnames
          obtain ⟨hn, hlater⟩ := separate_cons.mp hseparate
          have hblock : ∀ w ∈ .updateTableProgress t.2 status rows :: ws, About t.2 w :=
            List.forall_mem_cons.mpr ⟨rfl, hws⟩
          rw [List.flatten_cons, execAll_append, created_cons,
            execAll_mk (plans_execAll hblock (apart_head hdone) (created_names hn)),
            ih rfl (apart_append hdone (createdRow_tableName t) hn) hlater, List.append_assoc]
          rfl

end Blocks

end SqlOptima.PlanOwnership
