import SqlOptima.MergeConverters

namespace SqlOptima.MergeEffect

open PythonText KeyedUpsert MergeSemantics MergeConverters

section Evaluation

variable {V : Type} {db : Database V} {m : Merge} {name : Text} {columns : List Text} {s : Row V}
  {v : List Token}

/-- A token whose references read one row, however they are qualified. -/
def readPiece (s : Row V) : Token → Piece V
  | .ref _ c => .value (s c)
  | .equals => .text ['=']
  | .other t => .text t

theorem resolves_some {q c : Text} (h : Resolves [(name, columns)] (.ref (some q) c) = true) :
    name = q ∧ c ∈ columns := by
  by_cases hq : name = q
  · refine ⟨hq, ?_⟩
    simpa [Resolves, hq] using h
  · rw [Resolves, List.find?_cons_of_neg (by simpa using hq)] at h
    cases h

theorem resolves_none {c : Text} :
    Resolves [(name, columns)] (.ref none c) = true ↔ c ∈ columns := by
  by_cases hc : c ∈ columns
  · simp [Resolves, hc]
  · simp [Resolves, hc]

theorem piece_single {t : Token} (null : V) (h : Resolves [(name, columns)] t = true) :
    piece null [⟨name, columns, s⟩] t = readPiece s t := by
  cases t with
  | equals => rfl
  | other t => rfl
  | ref q c =>
      cases q with
      | some q =>
          obtain ⟨rfl, -⟩ := resolves_some h
          simp [piece, look, readPiece]
      | none => simp [piece, look, readPiece, resolves_none.mp h]

theorem resolves_single {name' : Text} {t : Token} (h : Resolves [(name, columns)] t = true)
    (hname : ∀ q c, t = .ref (some q) c → name' = q) : Resolves [(name', columns)] t = true := by
  cases t with
  | equals => rfl
  | other t => rfl
  | ref q c =>
      cases q with
      | none => exact resolves_none.mpr (resolves_none.mp h)
      | some q =>
          obtain ⟨rfl, -⟩ := resolves_some h
          obtain rfl := hname name c rfl
          exact h

/-- A qualified reference to a column of the row under that name. -/
theorem look_first {null : V} {name : Text} {columns : List Text} {r : Row V}
    {rest : List (Entry V)} {c : Text} :
    look null (⟨name, columns, r⟩ :: rest) (some name) c = r c := by
  simp [look]

theorem look_second {null : V} {name name' : Text} {columns columns' : List Text} {r r' : Row V}
    {rest : List (Entry V)} {c : Text} (hne : name ≠ name') :
    look null (⟨name, columns, r⟩ :: ⟨name', columns', r'⟩ :: rest) (some name') c = r' c := by
  simp [look, hne]

theorem eval_single (h : ∀ t ∈ v, Resolves [(name, columns)] t = true) :
    db.engine.eval [⟨name, columns, s⟩] v = db.engine.value (v.map (readPiece s)) := by
  rw [Engine.eval]
  congr 1
  exact List.map_congr_left fun t ht => piece_single db.engine.null (h t ht)

theorem lookup_of_mem {l : List (Text × List Token)} (hnodup : (l.map Prod.fst).Nodup) {c : Text}
    (h : (c, v) ∈ l) : l.lookup c = some v := by
  obtain ⟨l₁, l₂, rfl⟩ := List.append_of_mem h
  refine List.lookup_eq_some_iff.mpr ⟨l₁, l₂, rfl, fun p hp => ?_⟩
  rw [List.map_append, List.map_cons, List.nodup_append] at hnodup
  rw [bne_iff_ne]
  exact (hnodup.2.2 p.1 (List.mem_map_of_mem hp) c List.mem_cons_self).symm

/-- The insert gives each key column the column of the source that it is joined to. -/
def SetsKeys (m : Merge) : Prop :=
  ∀ k ∈ m.keyPairs, ∃ q, (k.1, [Token.ref q k.2]) ∈ m.columns.zip m.values

theorem keys_zip (hvalid : m.Valid db) : (m.columns.zip m.values).map Prod.fst = m.columns :=
  List.map_fst_zip hvalid.lengths.symm.le

theorem proposed_of_mem (hvalid : m.Valid db) {c : Text} (h : (c, v) ∈ m.columns.zip m.values)
    (env : List (Entry V)) : db.proposed m.columns m.values env c = db.engine.eval env v := by
  have hnodup : ((m.columns.zip m.values).map Prod.fst).Nodup := by
    rw [keys_zip hvalid]
    exact hvalid.columnsNodup
  rw [Database.proposed, lookup_of_mem hnodup h]
  rfl

theorem mem_of_lookup {l : List (Text × List Token)} {c : Text} (h : l.lookup c = some v) :
    (c, v) ∈ l := by
  obtain ⟨l₁, l₂, rfl, -⟩ := List.lookup_eq_some_iff.mp h
  exact List.mem_append_right _ List.mem_cons_self

theorem lookup_zip_map (f : List Token → List Token) (cs : List Text) (vs : List (List Token))
    (c : Text) : (cs.zip (vs.map f)).lookup c = ((cs.zip vs).lookup c).map f := by
  induction cs generalizing vs with
  | nil => rfl
  | cons d cs ih =>
      cases vs with
      | nil => rfl
      | cons v vs =>
          rw [List.map_cons, List.zip_cons_cons, List.zip_cons_cons, List.lookup_cons,
            List.lookup_cons, ih]
          cases c == d with
          | true => rfl
          | false => rfl

/-- A row that is read from one table, whatever its name. -/
theorem proposed_single {cs : List Text} {vs : List (List Token)}
    (h : ∀ v ∈ vs, ∀ t ∈ v, Resolves [(name, columns)] t = true) :
    db.proposed cs vs [⟨name, columns, s⟩] = fun c =>
      ((cs.zip vs).lookup c).elim (db.defaults c) fun v =>
        db.engine.value (v.map (readPiece s)) := by
  funext c
  rw [Database.proposed]
  cases hv : (cs.zip vs).lookup c with
  | none => rfl
  | some v => exact eval_single (h v (List.of_mem_zip (mem_of_lookup hv)).2)

/-- Assignments that are written otherwise and come to the same. -/
theorem assign_map {as : List Assignment} {f : Assignment → Assignment} {env env' : List (Entry V)}
    (hcolumn : ∀ a ∈ as, (f a).column = a.column)
    (hvalue : ∀ a ∈ as, db.engine.eval env' (f a).value = db.engine.eval env a.value) (r : Row V) :
    db.assign (as.map f) env' r = db.assign as env r := by
  funext c
  have hfind : (as.map f).find? (fun a => a.column = c) =
      (as.find? fun a => a.column = c).map f := by
    rw [List.find?_map]
    congr 1
    refine List.find?_congr fun a ha => ?_
    change decide ((f a).column = c) = decide (a.column = c)
    rw [hcolumn a ha]
  rw [Database.assign, Database.assign, hfind]
  cases ha : as.find? fun a => a.column = c with
  | none => rfl
  | some a => exact hvalue a (List.mem_of_find?_eq_some ha)

/-- A column that is inserted from a column of the source. -/
theorem insertedRow_of_mem (hvalid : m.Valid db) {c d : Text} {q : Option Text}
    (h : (c, [Token.ref q d]) ∈ m.columns.zip m.values) : m.insertedRow db s c = s d := by
  have hresolves := hvalid.valuesResolve _ (List.of_mem_zip h).2
  rw [Merge.insertedRow, proposed_of_mem hvalid h, Merge.sourceEnv, eval_single hresolves]
  exact db.engine.value_lone (s d)

theorem insertedRow_key (hvalid : m.Valid db) (hkeys : SetsKeys m) {k : Text × Text}
    (hk : k ∈ m.keyPairs) : m.insertedRow db s k.1 = s k.2 := by
  obtain ⟨q, hq⟩ := hkeys k hk
  exact insertedRow_of_mem hvalid hq

theorem conflictAccepted_keys {u : Upsert} (hvalid : m.Valid db) (hsub : u.conflict ⊆ db.keys)
    (hsub' : db.keys ⊆ u.conflict) : u.conflictAccepted db = true := by
  unfold Upsert.conflictAccepted
  cases hconflict : u.conflict with
  | nil =>
      rw [hconflict, hvalid.keys] at hsub'
      exact absurd (List.map_eq_nil_iff.mp (List.subset_nil.mp hsub')) hvalid.keyed
  | cons c cs =>
      rw [hconflict] at hsub hsub'
      simp only [hsub, hsub', decide_true, Bool.and_self]

theorem upsert_accepted {u : Upsert} {as : List Assignment} {scope : Scope} (hvalid : m.Valid db)
    (htarget : u.target = m.target) (hcolumns : u.columns = m.columns)
    (hlength : u.rows.expressions.length = m.values.length) (hscope : u.rows.scope db = some scope)
    (hresolves : ∀ v ∈ u.rows.expressions, ∀ t ∈ v, Resolves scope t = true)
    (hsub : u.conflict ⊆ db.keys) (hsub' : db.keys ⊆ u.conflict)
    (haction : u.action = some as) (has : ∀ a ∈ as, Assignment.accepted db u a = true)
    (hnodup : (as.map Assignment.column).Nodup) : u.accepted db = true := by
  have hall : (u.rows.expressions.all fun v => v.all (Resolves scope)) = true := by
    rw [List.all_eq_true]
    exact fun v hv => List.all_eq_true.mpr (hresolves v hv)
  have hactions : as.all (Assignment.accepted db u) = true := List.all_eq_true.mpr has
  rw [Upsert.accepted, hscope, haction, htarget, hvalid.target, hcolumns, hlength, hvalid.lengths]
  simp only [hvalid.columnsNodup, hvalid.columns, hall, conflictAccepted_keys hvalid hsub hsub',
    hactions, hnodup, Option.any_some, Option.all_some, decide_true, Bool.and_self]

end Evaluation

section Joining

variable {V : Type} [DecidableEq V] {db : Database V} {m : Merge} {s s' t : Row V}

theorem equalOn_iff {null : V} {pairs : List (Text × Text)} {r r' : Row V} :
    equalOn null pairs r r' = true ↔ ∀ k ∈ pairs, r k.1 ≠ null ∧ r k.1 = r' k.2 := by
  simp [equalOn]

theorem sameKey_iff {r r' : Row V} :
    db.sameKey r r' = true ↔ ∀ c ∈ db.keys, r c ≠ db.engine.null ∧ r c = r' c := by
  simp [Database.sameKey, equalOn_iff]

theorem sameKey_key (db : Database V) : SameKey db.sameKey where
  symm := by
    intro a b h
    rw [sameKey_iff] at h ⊢
    intro c hc
    obtain ⟨hnull, heq⟩ := h c hc
    exact ⟨heq ▸ hnull, heq.symm⟩
  trans := by
    intro a b c hab hbc
    rw [sameKey_iff] at hab hbc ⊢
    intro k hk
    exact ⟨(hab k hk).1, (hab k hk).2.trans (hbc k hk).2⟩

/-- The condition of the join is the equality of the keys. -/
def OnlyKeys (m : Merge) : Prop := ∀ c ∈ m.on, c.keyPair.isSome

theorem joined_eq (hvalid : m.Valid db) (honly : OnlyKeys m) (hkeys : SetsKeys m) :
    m.joined db t s = db.sameKey t (m.insertedRow db s) := by
  rw [Bool.eq_iff_iff, sameKey_iff, Merge.joined, List.all_eq_true, hvalid.keys]
  constructor
  · intro h c hc
    obtain ⟨k, hk, rfl⟩ := List.mem_map.mp hc
    obtain ⟨conjunct, hmem, hpair⟩ := List.mem_filterMap.mp hk
    rw [insertedRow_key hvalid hkeys hk]
    cases conjunct with
    | key first target source =>
        cases hpair
        exact equalOn_iff.mp (h _ hmem) _ (List.mem_singleton.mpr rfl)
    | extra ts => cases hpair
  · intro h conjunct hmem
    cases conjunct with
    | key first target source =>
        have hk : (target, source) ∈ m.keyPairs := List.mem_filterMap.mpr ⟨_, hmem, rfl⟩
        have hkey := h target (List.mem_map_of_mem hk)
        rw [insertedRow_key hvalid hkeys hk] at hkey
        refine equalOn_iff.mpr fun k hmem' => ?_
        rw [List.mem_singleton.mp hmem']
        exact hkey
    | extra ts => exact absurd (honly _ hmem) Bool.false_ne_true

theorem sameKey_inserted (hvalid : m.Valid db) (hkeys : SetsKeys m) :
    db.sameKey (m.insertedRow db s) (m.insertedRow db s') =
      equalOn db.engine.null (m.keyPairs.map fun k => (k.2, k.2)) s s' := by
  rw [Bool.eq_iff_iff, sameKey_iff, equalOn_iff, hvalid.keys]
  constructor
  · intro h k hk
    obtain ⟨pair, hpair, rfl⟩ := List.mem_map.mp hk
    have hkey := h pair.1 (List.mem_map_of_mem hpair)
    rwa [insertedRow_key hvalid hkeys hpair, insertedRow_key hvalid hkeys hpair] at hkey
  · intro h c hc
    obtain ⟨pair, hpair, rfl⟩ := List.mem_map.mp hc
    rw [insertedRow_key hvalid hkeys hpair, insertedRow_key hvalid hkeys hpair]
    exact h _ (List.mem_map_of_mem hpair)

/-- An update that assigns no column of the index. -/
theorem keepsKey_assign {as : List Assignment} {env : Row V → Row V → List (Entry V)}
    (h : ∀ a ∈ as, a.column ∉ db.keys) :
    KeepsKey db.sameKey (some fun r proposed => db.assign as (env r proposed) r) := by
  intro held proposed x _
  have hsame : ∀ c ∈ db.keys, db.assign as (env held.1 proposed) held.1 c = held.1 c := by
    intro c hc
    have hnone : (as.find? fun a => a.column = c) = none := by
      rw [List.find?_eq_none]
      intro a ha heq
      rw [decide_eq_true_eq] at heq
      exact h a ha (heq ▸ hc)
    rw [Database.assign, hnone]
    rfl
  rw [Bool.eq_iff_iff, sameKey_iff, sameKey_iff]
  change (∀ c ∈ db.keys, db.assign as (env held.1 proposed) held.1 c ≠ _ ∧
    db.assign as (env held.1 proposed) held.1 c = x c) ↔ _
  constructor
  · intro hall c hc
    have hcol := hall c hc
    rwa [hsame c hc] at hcol
  · intro hall c hc
    rw [hsame c hc]
    exact hall c hc

/-- An upsert of the same rows with the same updates has the effect of the merge. -/
theorem sameTable_of_upsert {u : Upsert} {as : List Assignment} (hvalid : m.Valid db)
    (honly : OnlyKeys m) (hkeys : SetsKeys m) (hinsert : m.insertCondition = none)
    (haccepted : u.accepted db = true) (haction : u.action = some as)
    (hcolumns : ∀ a ∈ as, a.column ∉ db.keys)
    (hrows : ∀ source, u.rowsOf db source = source.map (m.insertedRow db))
    (hchange : ∀ t s, m.joined db t s = true →
      db.assign as (u.actionEnv db t (m.insertedRow db s)) t = m.change db t s)
    {target source : List (Row V)} (htarget : Unique db.sameKey target)
    (hsource : m.sourceUnique db source) :
    SameTable (u.exec db target source) (m.exec db target source) := by
  have hupdate : u.update db =
      some fun r proposed => db.assign as (u.actionEnv db r proposed) r := by
    rw [Upsert.update, haction]
    rfl
  have hproposed : Unique db.sameKey (source.map (m.insertedRow db)) := by
    refine List.pairwise_map.mpr (hsource.imp ?_)
    intro s s' h
    rw [sameKey_inserted hvalid hkeys]
    exact h
  have hwanted : ∀ s ∈ source, m.wanted db s = true := by
    intro s _
    rw [Merge.wanted, hinsert]
    rfl
  have hkeeps : KeepsKey db.sameKey (u.update db) := by
    rw [hupdate]
    exact keepsKey_assign hcolumns
  have hresolved : ∀ t ∈ target, ∀ s ∈ source, m.joined db t s = true →
      (resolve (u.update db) (t, false) (m.insertedRow db s)).1 = m.change db t s := by
    intro t _ s _ hjoined
    rw [hupdate]
    exact hchange t s hjoined
  have hwrite := writeAll_eq_mergeAll (sameKey_key db) hkeeps htarget hproposed
    (fun t _ s _ => joined_eq hvalid honly hkeys) hresolved hwanted
  have hunique : Unique db.sameKey (mergeAll (m.joined db) (m.change db) (m.wanted db)
      (m.insertedRow db) target source) := by
    obtain ⟨rows, hrows', hfst⟩ := Option.map_eq_some_iff.mp hwrite
    have htarget' : Unique db.sameKey ((target.map fun t => (t, false)).map Prod.fst) := by
      rw [List.map_map]
      exact (List.map_id target).symm ▸ htarget
    have h := unique_writeAll htarget' hrows'
    rwa [hfst] at h
  unfold SameTable
  rw [Upsert.exec, if_pos haccepted, hrows, hwrite, Merge.exec, if_pos hunique]

end Joining

section MergeConverter

variable {V : Type} [DecidableEq V] {db : Database V} {m : Merge}

theorem exec_empty (db : Database V) (m : Merge) : m.exec db [] [] = some [] := by
  rw [Merge.exec, if_pos]
  · rfl
  · exact List.Pairwise.nil

/-- The values stand in a `VALUES` list: a row is inserted where the source has none. -/
theorem applyAll_lost (hvalid : m.Valid db) : ¬ EffectKept db m (applyAll m) := by
  intro hkept
  have hvalues : m.values ≠ [] := by
    intro hnil
    have hlengths := hvalid.lengths
    rw [hnil] at hlengths
    exact hvalid.inserts (List.eq_nil_of_length_eq_zero hlengths.symm)
  have hrows : ∀ source, (convertToInsertOnConflict (parseMerge m)).rowsOf db source =
      [db.proposed (convertToInsertOnConflict (parseMerge m)).columns m.values []] := by
    intro source
    have hsource : (convertToInsertOnConflict (parseMerge m)).rows = .values m.values :=
      if_neg hvalues
    rw [Upsert.rowsOf, hsource]
  have hsame := hkept _ rfl [] [] List.Pairwise.nil List.Pairwise.nil
  rw [SameTable, exec_empty, Upsert.exec, hrows] at hsame
  split_ifs at hsame
  · rw [List.map_nil, writeAll_lone] at hsame
    simp at hsame
  · cases hsame

end MergeConverter

section PatternConverter

variable {V : Type} {db : Database V} {m : Merge}

theorem notMem_isName {name : Text} (h : IsName name) {c : Char} (hc : isWord c = false) :
    c ∉ name := by
  intro hmem
  rw [h.2 c hmem] at hc
  cases hc

theorem trimmed_name {name : Text} (h : IsName name) : Trimmed name := by
  have hspace : ∀ c ∈ name, isSpace c = false := by
    intro c hc
    by_contra hblank
    rw [Bool.not_eq_false] at hblank
    have hword := isWord_of_isSpace hblank
    rw [h.2 c hc] at hword
    cases hword
  refine ⟨⟨name.head h.1, List.head?_eq_some_head h.1, hspace _ (List.head_mem h.1)⟩,
    ⟨name.getLast h.1, List.getLast?_eq_some_getLast h.1, hspace _ (List.getLast_mem h.1)⟩⟩

theorem stripBrackets_name {name : Text} (h : IsName name) : stripBrackets name = name := by
  have hword : ∀ c ∈ name, (c = '[' || c = ']') = false := by
    intro c hc
    by_contra hbracket
    simp only [Bool.not_eq_false, Bool.or_eq_true, decide_eq_true_eq] at hbracket
    have hisWord := h.2 c hc
    rcases hbracket with rfl | rfl
    · exact absurd hisWord (by decide)
    · exact absurd hisWord (by decide)
  have hdrop : ∀ t : Text, (∀ c ∈ t, c ∈ name) →
      t.dropWhile (fun c => c = '[' || c = ']') = t := by
    intro t ht
    cases t with
    | nil => rfl
    | cons c t =>
        apply List.dropWhile_cons_of_neg
        rw [hword c (ht c List.mem_cons_self)]
        exact Bool.false_ne_true
  have hrev := hdrop name.reverse fun c hc => List.mem_reverse.mp hc
  simp only [stripBrackets, hdrop name fun c hc => hc, hrev, List.reverse_reverse]

/-- `q.c = q'.c'`. -/
theorem extractConflictCols_key {q c q' c' : Text} (hq : IsName q) (hc : IsName c)
    (hq' : IsName q') (hc' : IsName c') :
    extractConflictCols (render [.ref (some q) c, .equals, .ref (some q') c']) = c := by
  have hrender : render [.ref (some q) c, .equals, .ref (some q') c'] =
      (q ++ ['.'] ++ c ++ [' ']) ++ '=' :: (' ' :: (q' ++ ['.'] ++ c')) := by
    simp [render, Token.text, List.intercalate]
  have hleft : '=' ∉ q ++ ['.'] ++ c ++ [' '] := by
    simp [notMem_isName hq (c := '=') (by decide), notMem_isName hc (c := '=') (by decide)]
  have hright : '=' ∉ ' ' :: (q' ++ ['.'] ++ c') := by
    simp [notMem_isName hq' (c := '=') (by decide), notMem_isName hc' (c := '=') (by decide)]
  have hstrip : strip (q ++ ['.'] ++ c ++ [' ']) = q ++ ['.'] ++ c := by
    rw [strip_append_blank (by decide),
      ((trimmed_name hq).append (trimmed_name hc) ['.']).strip_eq]
  have hlast : lastComponent (q ++ ['.'] ++ c) = c := by
    have hdot : (q ++ ['.'] ++ c).splitOn '.' = [q, c] := by
      rw [List.append_assoc]
      exact splitOn_pair (notMem_isName hq (by decide)) (notMem_isName hc (by decide))
    rw [lastComponent, hdot]
    rfl
  rw [extractConflictCols, hrender, splitOn_pair hleft hright]
  change stripBrackets (lastComponent (strip (q ++ ['.'] ++ c ++ [' ']))) = c
  rw [hstrip, hlast, stripBrackets_name hc]

/-- A join on one key column, values that are read without an alias, and updates that read columns
of the source that are inserted. -/
structure SimpleUpsert (m : Merge) : Prop where
  oneKey : ∃ first target source, m.on = [.key first target source] ∧
    (first = true ∨ target = source)
  unaliased : m.sourceAlias = none ∨ ∀ v ∈ m.values, ∀ q c, Token.ref (some q) c ∉ v
  setsKeys : SetsKeys m
  reads : ∀ a ∈ m.updates, a.column ∉ m.keyPairs.map Prod.fst ∧ a.qualifier.isSome ∧
    ∃ d q, a.value = [.ref (some m.sourceName) d] ∧ (d, [Token.ref q d]) ∈ m.columns.zip m.values
  notExcluded : m.target ≠ excludedName

theorem simpleMerge_source (h : simpleMerge m = true) : m.source = .table m.source.name := by
  simp only [simpleMerge, Bool.and_eq_true, decide_eq_true_eq] at h
  exact h.1.1.1.1.1

theorem simpleMerge_conditions (h : simpleMerge m = true) :
    m.matchedCondition = none ∧ m.insertCondition = none := by
  simp only [simpleMerge, Bool.and_eq_true, Option.isNone_iff_eq_none] at h
  exact ⟨h.1.1.2, h.1.2⟩

theorem stripAliasPrefix_read {a : Assignment} (hq : a.qualifier.isSome) {q d : Text}
    (hvalue : a.value = [.ref (some q) d]) :
    stripAliasPrefix a = ⟨none, a.column, [.ref (some excludedName) d]⟩ := by
  obtain ⟨q', hq'⟩ := Option.isSome_iff_exists.mp hq
  rw [stripAliasPrefix, hvalue, hq']
  rfl

theorem valuesResolve_table (hvalid : m.Valid db) (hsimple : SimpleUpsert m) :
    ∀ v ∈ m.values, ∀ t ∈ v, Resolves [(m.source.name, db.sourceColumns)] t = true := by
  intro v hv t ht
  have h := hvalid.valuesResolve v hv t ht
  rcases hsimple.unaliased with hnone | hunqualified
  · rwa [Merge.sourceName, hnone] at h
  · apply resolves_single h
    rintro q c rfl
    exact absurd ht (hunqualified v hv q c)

/-- The statement of a simple upsert. -/
theorem convertMerge_eq (hvalid : m.Valid db) (hsimple : SimpleUpsert m)
    (hmatch : simpleMerge m = true) :
    convertMerge m = some {
      target := m.target
      columns := m.columns
      rows := .select m.values (.table m.source.name)
      conflict := db.keys
      action := some (m.updates.map stripAliasPrefix) } := by
  obtain ⟨first, target, source, hon, hfirst⟩ := hsimple.oneKey
  have hpairs : m.keyPairs = [(target, source)] := by
    rw [Merge.keyPairs, hon]
    rfl
  obtain ⟨htargetName, hsourceName, hnames⟩ := hvalid.identifiers
  obtain ⟨htarget, hsource⟩ := hnames (target, source) (hpairs ▸ List.mem_cons_self)
  have hcolumn : extractConflictCols (render (joinCondition m)) = target := by
    cases first with
    | true =>
        have hcondition : joinCondition m =
            [.ref (some m.targetName) target, .equals, .ref (some m.sourceName) source] := by
          rw [joinCondition, hon]
          rfl
        rw [hcondition, extractConflictCols_key htargetName htarget hsourceName hsource]
    | false =>
        have hcondition : joinCondition m =
            [.ref (some m.sourceName) source, .equals, .ref (some m.targetName) target] := by
          rw [joinCondition, hon]
          rfl
        rw [hcondition, extractConflictCols_key hsourceName hsource htargetName htarget]
        exact (hfirst.resolve_left Bool.false_ne_true).symm
  rw [convertMerge, if_pos hmatch, hcolumn, hvalid.keys, hpairs]
  have hne : target ≠ [] := htarget.1
  simp [hne]

theorem mem_columns_of_zip {c : Text} {v : List Token} (h : (c, v) ∈ m.columns.zip m.values) :
    c ∈ m.columns :=
  (List.of_mem_zip h).1

theorem convertMerge_kept [DecidableEq V] (hvalid : m.Valid db) (hsimple : SimpleUpsert m)
    (hmatch : simpleMerge m = true) : EffectKept db m (convertMerge m) := by
  obtain ⟨hmatched, hinsert⟩ := simpleMerge_conditions hmatch
  have hsource := simpleMerge_source hmatch
  have honly : OnlyKeys m := by
    obtain ⟨first, target, source, hon, -⟩ := hsimple.oneKey
    intro c hc
    rw [hon] at hc
    rw [List.mem_singleton.mp hc]
    rfl
  have hvalues := valuesResolve_table hvalid hsimple
  rw [convertMerge_eq hvalid hsimple hmatch]
  rintro u ⟨⟩ target source htarget hsourceUnique
  have hstripped : ∀ a ∈ m.updates, ∃ d q, stripAliasPrefix a =
      ⟨none, a.column, [.ref (some excludedName) d]⟩ ∧
        a.value = [.ref (some m.sourceName) d] ∧
          (d, [Token.ref q d]) ∈ m.columns.zip m.values := by
    intro a ha
    obtain ⟨-, hq, d, q, hvalue, hmem⟩ := hsimple.reads a ha
    exact ⟨d, q, stripAliasPrefix_read hq hvalue, hvalue, hmem⟩
  refine sameTable_of_upsert hvalid honly hsimple.setsKeys hinsert ?_ rfl ?_ ?_ ?_ htarget
    hsourceUnique
  · refine upsert_accepted hvalid rfl rfl rfl (if_pos (hvalid.source.symm.trans hsource)) hvalues
      (List.Subset.refl _) (List.Subset.refl _) rfl ?_ ?_
    · intro a ha
      obtain ⟨b, hb, rfl⟩ := List.mem_map.mp ha
      obtain ⟨d, q, hstrip, -, hmem⟩ := hstripped b hb
      have hd := hvalid.columns (mem_columns_of_zip hmem)
      rw [hstrip]
      simp [Assignment.accepted, Upsert.actionScope, Resolves, (hvalid.updated b hb).1, hd,
        hsimple.notExcluded]
    · have hcolumns : (m.updates.map stripAliasPrefix).map Assignment.column =
          m.updates.map Assignment.column := by
        rw [List.map_map]
        apply List.map_congr_left
        intro a ha
        obtain ⟨d, q, hstrip, -⟩ := hstripped a ha
        change (stripAliasPrefix a).column = a.column
        rw [hstrip]
      rw [hcolumns]
      exact hvalid.updatedNodup
  · intro a ha
    obtain ⟨b, hb, rfl⟩ := List.mem_map.mp ha
    obtain ⟨d, q, hstrip, -⟩ := hstripped b hb
    rw [hstrip, hvalid.keys]
    exact (hsimple.reads b hb).1
  · intro source
    apply List.map_congr_left
    intro s _
    rw [Merge.insertedRow, Merge.sourceEnv, proposed_single hvalues,
      proposed_single hvalid.valuesResolve]
  · intro t s _
    rw [Merge.change, hmatched, Option.all_none, if_pos rfl]
    apply assign_map
    · intro a ha
      obtain ⟨d, q, hstrip, -⟩ := hstripped a ha
      rw [hstrip]
    · intro a ha
      obtain ⟨d, q, hstrip, hvalue, hmem⟩ := hstripped a ha
      rw [hstrip, hvalue]
      change db.engine.value [.value (look _ [⟨m.target, _, t⟩,
        ⟨excludedName, _, m.insertedRow db s⟩] (some excludedName) d)] =
          db.engine.value [.value (look _ [⟨m.targetName, _, t⟩, ⟨m.sourceName, _, s⟩]
            (some m.sourceName) d)]
      rw [look_second hsimple.notExcluded, look_second hvalid.names, insertedRow_of_mem hvalid hmem]

end PatternConverter

section BodyTransform

variable {V : Type} {db : Database V} {m : Merge}

/-- A query as the source, a join on key columns, no condition on the joined rows, and updates that
read the target under its own name. -/
structure QueryUpsert (m : Merge) : Prop where
  query : ∃ t, m.source = .query t
  onKeys : ∀ c ∈ m.on, ∃ first target source, c = .key first target source ∧
    (first = true ∨ target = source)
  unconditional : m.matchedCondition = none
  setsKeys : SetsKeys m
  texts : ∀ v ∈ m.values, ∀ t, Token.other t ∈ v → replace (m.sourceName ++ ['.']) [] t = t
  reads : ∀ a ∈ m.updates, a.column ∉ m.keyPairs.map Prod.fst ∧ a.qualifier = none ∧
    ∀ q c, Token.ref q c ∈ a.value → q = some m.target ∧ m.targetName = m.target

/-- The columns before the equalities of a join on keys. -/
theorem wordsBefore_keys (m : Merge) {on : List Conjunct}
    (h : ∀ c ∈ on, ∃ first target source, c = .key first target source ∧
      (first = true ∨ target = source)) :
    wordsBefore ([.other "AND".toList].intercalate (on.map (Conjunct.tokens m))) =
      (on.filterMap Conjunct.keyPair).map Prod.fst := by
  have htokens : ∀ c ∈ on, ∃ q q' target source,
      Conjunct.tokens m c = [.ref q target, .equals, .ref q' source] ∧
        c.keyPair.map Prod.fst = some target := by
    intro c hc
    obtain ⟨first, target, source, rfl, hfirst⟩ := h c hc
    cases first with
    | true => exact ⟨_, _, target, source, rfl, rfl⟩
    | false =>
        obtain rfl := hfirst.resolve_left Bool.false_ne_true
        exact ⟨_, _, target, target, rfl, rfl⟩
  clear h
  induction on with
  | nil => rfl
  | cons c on ih =>
      obtain ⟨q, q', target, source, hc, hpair⟩ := htokens c List.mem_cons_self
      obtain ⟨pair, hkey, hfst⟩ := Option.map_eq_some_iff.mp hpair
      have htail := ih fun d hd => htokens d (List.mem_cons_of_mem c hd)
      rw [List.filterMap_cons_some hkey, List.map_cons, List.map_cons, hc, hfst]
      cases on with
      | nil => rfl
      | cons d on =>
          obtain ⟨p, p', target', source', hd, -⟩ := htokens d
            (List.mem_cons_of_mem c List.mem_cons_self)
          rw [← htail, List.map_cons, hd, List.intercalate_cons_cons]
          obtain ⟨rest, hrest⟩ : ∃ rest, [Token.other "AND".toList].intercalate
              ([.ref p target', .equals, .ref p' source'] :: on.map (Conjunct.tokens m)) =
                [.ref p target', .equals, .ref p' source'] ++ rest := by
            cases on.map (Conjunct.tokens m) with
            | nil => exact ⟨[], rfl⟩
            | cons ts l => exact ⟨_, List.intercalate_cons_cons⟩
          rw [hrest]
          rfl

theorem beforeAlias_self (name : Text) : beforeAlias name name = some [] := by
  have hsuffix : name.isSuffixOf name = true := List.isSuffixOf_iff_suffix.mpr (List.suffix_refl _)
  rw [beforeAlias, if_pos hsuffix, Nat.sub_self, List.take_zero]

theorem withoutAlias_ref (name : Text) (c : Text) :
    withoutAlias name (.ref (some name) c) = .ref none c := by
  rw [withoutAlias, beforeAlias_self]
  rfl

theorem resolves_withoutAlias {name : Text} {columns : List Text} {t : Token}
    (h : Resolves [(name, columns)] t = true) :
    Resolves [(name, columns)] (withoutAlias name t) = true := by
  cases t with
  | equals => rfl
  | other t => rfl
  | ref q c =>
      cases q with
      | none => exact h
      | some q =>
          obtain ⟨rfl, hc⟩ := resolves_some h
          rw [withoutAlias_ref]
          exact resolves_none.mpr hc

theorem readPiece_withoutAlias {name : Text} {columns : List Text} {t : Token} (s : Row V)
    (h : Resolves [(name, columns)] t = true)
    (htext : ∀ x, t = .other x → replace (name ++ ['.']) [] x = x) :
    readPiece s (withoutAlias name t) = readPiece s t := by
  cases t with
  | equals => rfl
  | other x =>
      rw [withoutAlias, htext x rfl]
  | ref q c =>
      cases q with
      | none => rfl
      | some q =>
          obtain ⟨rfl, -⟩ := resolves_some h
          rw [withoutAlias_ref]
          rfl

/-- The statement of an upsert from a query. -/
theorem tryConvertMerge_eq (hquery : QueryUpsert m) {query : Text}
    (hsource : m.source = .query query) {u : Upsert} (hu : tryConvertMerge m = some u) :
    m.insertCondition = none ∧ u = {
      target := m.target
      columns := m.columns
      rows := .select (m.values.map (List.map (withoutAlias m.sourceName)))
        (.derived query m.sourceName)
      conflict := (m.keyPairs.map Prod.fst).eraseDups
      action := some m.updates } := by
  unfold tryConvertMerge at hu
  cases halias : m.sourceAlias with
  | none =>
      rw [halias] at hu
      cases hu
  | some a =>
      obtain ⟨writtenAs, name⟩ := a
      have hname : m.sourceName = name := by
        rw [Merge.sourceName, halias]
        rfl
      rw [halias] at hu
      cases writtenAs with
      | false => cases hu
      | true =>
          simp only [hsource, hquery.unconditional, Option.isNone_none, if_true] at hu
          split_ifs at hu with hforms
          rw [Bool.and_eq_true, Option.isNone_iff_eq_none] at hforms
          cases hu
          have hwords : wordsBefore (joinCondition m) = m.keyPairs.map Prod.fst :=
            wordsBefore_keys m hquery.onKeys
          refine ⟨hforms.2, ?_⟩
          rw [hwords, hname]

theorem tryConvertMerge_kept [DecidableEq V] (hvalid : m.Valid db) (hquery : QueryUpsert m) :
    EffectKept db m (tryConvertMerge m) := by
  intro u hu target source htarget hsourceUnique
  obtain ⟨query, hsource⟩ := hquery.query
  obtain ⟨hinsert, rfl⟩ := tryConvertMerge_eq hquery hsource hu
  have honly : OnlyKeys m := by
    intro c hc
    obtain ⟨first, target, source, rfl, -⟩ := hquery.onKeys c hc
    rfl
  have hkeys : ∀ c, c ∈ (m.keyPairs.map Prod.fst).eraseDups ↔ c ∈ db.keys := by
    intro c
    rw [List.mem_eraseDups, hvalid.keys]
  have hvalues : ∀ v ∈ m.values.map (List.map (withoutAlias m.sourceName)), ∀ t ∈ v,
      Resolves [(m.sourceName, db.sourceColumns)] t = true := by
    intro v hv t ht
    obtain ⟨w, hw, rfl⟩ := List.mem_map.mp hv
    obtain ⟨t', ht', rfl⟩ := List.mem_map.mp ht
    exact resolves_withoutAlias (hvalid.valuesResolve w hw t' ht')
  refine sameTable_of_upsert hvalid honly hquery.setsKeys hinsert ?_ rfl ?_ ?_ ?_ htarget
    hsourceUnique
  · refine upsert_accepted hvalid rfl rfl (List.length_map _)
      (if_pos (hvalid.source.symm.trans hsource)) hvalues (fun c hc => (hkeys c).mp hc)
      (fun c hc => (hkeys c).mpr hc) rfl ?_ hvalid.updatedNodup
    intro a ha
    obtain ⟨-, hqualifier, hreads⟩ := hquery.reads a ha
    have hvalue : a.value.all (Resolves [(m.target, db.targetColumns),
        (excludedName, db.targetColumns)]) = true := by
      rw [List.all_eq_true]
      intro t ht
      have hresolves := hvalid.updatesResolve a ha t ht
      cases t with
      | equals => rfl
      | other t => rfl
      | ref q c =>
          obtain ⟨rfl, hname⟩ := hreads q c ht
          rw [hname] at hresolves
          simpa [Resolves] using hresolves
    have hcolumn := (hvalid.updated a ha).1
    simp [Assignment.accepted, Upsert.actionScope, hqualifier, hcolumn, hvalue]
  · intro a ha
    rw [hvalid.keys]
    exact (hquery.reads a ha).1
  · intro source
    apply List.map_congr_left
    intro s _
    rw [Merge.insertedRow, Merge.sourceEnv, proposed_single hvalues,
      proposed_single hvalid.valuesResolve]
    funext c
    rw [lookup_zip_map]
    cases hv : (m.columns.zip m.values).lookup c with
    | none => rfl
    | some v =>
        have hmem := (List.of_mem_zip (mem_of_lookup hv)).2
        change db.engine.value ((v.map (withoutAlias m.sourceName)).map (readPiece s)) =
          db.engine.value (v.map (readPiece s))
        rw [List.map_map]
        congr 1
        apply List.map_congr_left
        intro t ht
        apply readPiece_withoutAlias s (hvalid.valuesResolve v hmem t ht)
        rintro x rfl
        exact hquery.texts v hmem x ht
  · intro t s _
    rw [Merge.change, hquery.unconditional, Option.all_none, if_pos rfl]
    have hsame : db.assign (m.updates.map id) [⟨m.target, db.targetColumns, t⟩,
        ⟨excludedName, db.targetColumns, m.insertedRow db s⟩] t =
          db.assign m.updates (m.env db t s) t := by
      apply assign_map
      · exact fun _ _ => rfl
      · intro a ha
        obtain ⟨-, -, hreads⟩ := hquery.reads a ha
        rw [Engine.eval, Engine.eval]
        congr 1
        apply List.map_congr_left
        intro token htoken
        cases token with
        | equals => rfl
        | other x => rfl
        | ref q c =>
            obtain ⟨rfl, hname⟩ := hreads q c htoken
            have hleft : look db.engine.null [⟨m.target, db.targetColumns, t⟩,
                ⟨excludedName, db.targetColumns, m.insertedRow db s⟩] (some m.target) c = t c :=
              look_first
            have hright : look db.engine.null (m.env db t s) (some m.target) c = t c := by
              rw [Merge.env, hname]
              exact look_first
            exact congrArg Piece.value (hleft.trans hright.symm)
    rwa [List.map_id] at hsame

end BodyTransform

section Converters

variable {V : Type} [DecidableEq V] {db : Database V} {m : Merge}

/-- Where a converter is known to keep the effect: it leaves the statement, or it has a form that it
translates. -/
def Expressible (m : Merge) : Converter → Prop
  | .mergeConverter => False
  | .patternConverter => simpleMerge m = false ∨ SimpleUpsert m
  | .bodyTransform => tryConvertMerge m = none ∨ QueryUpsert m

theorem effectKept_none : EffectKept db m none := nofun

end Converters

section Examples

/-- Expressions that are a column; all others are null. -/
def columnEngine : Engine (Option Nat) where
  null := none
  value := fun pieces =>
    match pieces with
    | [.value v] => v
    | _ => none
  holds := fun _ => false
  value_lone := fun _ => rfl

def itemColumns : List Text := ["id".toList, "price".toList]

def itemDatabase : Database (Option Nat) where
  engine := columnEngine
  target := "items".toList
  targetColumns := itemColumns
  keys := ["id".toList]
  defaults := fun _ => none
  source := .table "staging".toList
  sourceColumns := itemColumns

/-- `MERGE INTO items AS t USING staging … ON t.id = …`, with an alias of the source or without. -/
def itemMerge (source : Option Text) : Merge where
  target := "items".toList
  targetAlias := some ⟨true, ['t']⟩
  source := .table "staging".toList
  sourceAlias := source.map (Alias.mk true)
  on := [.key true "id".toList "id".toList]
  matchedCondition := none
  updates := [⟨some ['t'], "price".toList,
    [.ref (some (source.getD "staging".toList)) "price".toList]⟩]
  insertCondition := none
  columns := itemColumns
  values := itemColumns.map fun c => [.ref (some (source.getD "staging".toList)) c]

theorem itemMerge_valid (source : Option Text) (h : source ∈ [none, some ['s']]) :
    (itemMerge source).Valid itemDatabase := by
  simp only [List.mem_cons, List.not_mem_nil, or_false] at h
  have hid : IsName "id".toList := ⟨by decide, List.all_eq_true.mp (by decide)⟩
  have ht : IsName ['t'] := ⟨by decide, List.all_eq_true.mp (by decide)⟩
  have hstaging : IsName "staging".toList := ⟨by decide, List.all_eq_true.mp (by decide)⟩
  have hs : IsName ['s'] := ⟨by decide, List.all_eq_true.mp (by decide)⟩
  obtain rfl | rfl := h
  · refine ⟨rfl, rfl, by decide, ⟨ht, hstaging, fun k hk => ?_⟩, rfl, by decide, by decide,
      by decide, by decide, by decide, by decide, rfl, by decide, by decide, ?_, by decide⟩
    · rw [List.mem_singleton.mp hk]
      exact ⟨hid, hid⟩
    · decide
  · refine ⟨rfl, rfl, by decide, ⟨ht, hs, fun k hk => ?_⟩, rfl, by decide, by decide, by decide,
      by decide, by decide, by decide, rfl, by decide, by decide, ?_, by decide⟩
    · rw [List.mem_singleton.mp hk]
      exact ⟨hid, hid⟩
    · decide

theorem itemMerge_simple : SimpleUpsert (itemMerge none) where
  oneKey := ⟨true, _, _, rfl, Or.inl rfl⟩
  unaliased := Or.inl rfl
  setsKeys := by
    intro k hk
    rw [List.mem_singleton.mp hk]
    exact ⟨_, List.mem_cons_self⟩
  reads := by
    intro a ha
    rw [List.mem_singleton.mp ha]
    exact ⟨by decide, rfl, _, _, rfl, List.mem_cons_of_mem _ List.mem_cons_self⟩
  notExcluded := by decide

theorem itemMerge_readWhole : ReadWhole .patternConverter (itemMerge none) where
  ascii := by decide +kernel
  statement := by decide +kernel
  clauses := by decide +kernel
  lists := by decide +kernel
  join := nofun
  assignments := nofun
  source := nofun

theorem effect_lost_of_rejected {V : Type} [DecidableEq V] {db : Database V} {m : Merge}
    {u : Upsert} (h : u.accepted db = false) : ¬ EffectKept db m (some u) := by
  intro hkept
  have hsame := hkept u rfl [] [] List.Pairwise.nil List.Pairwise.nil
  rw [SameTable, exec_empty, Upsert.exec, if_neg (by rw [h]; exact Bool.false_ne_true)] at hsame
  cases hsame

end Examples

end SqlOptima.MergeEffect
