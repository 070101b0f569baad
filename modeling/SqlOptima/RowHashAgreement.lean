import SqlOptima.RowHashExpressions

namespace SqlOptima.RowHashAgreement

open ExceptRules NumberText Utf8Text RowHashExpressions

section Bytes

/-- The separator has a second byte in UTF-16. -/
theorem zero_mem_utf16le {text : List Char} (h : '|' ∈ text) : 0 ∈ utf16le text :=
  List.mem_flatMap.mpr ⟨'|', h, by decide⟩

theorem zero_notMem_utf8 {text : List Char} (h : '\u0000' ∉ text) : 0 ∉ utf8 text := by
  have hzero : asciiByte '\u0000' ∈ utf8 text ↔ '\u0000' ∈ text :=
    asciiByte_mem_utf8_iff (by decide)
  exact fun hmem => h (hzero.mp hmem)

theorem length_paddedUpper_byte (b : UInt8) : (paddedUpper 2 16 b.toNat).length = 2 := by
  rw [paddedUpper, List.length_map]
  exact length_padded (by decide) (by decide) b.toNat_lt

theorem length_padded_byte (b : UInt8) : (padded 2 16 b.toNat).length = 2 :=
  length_padded (by decide) (by decide) b.toNat_lt

/-- Digits of either case are those of the same bytes only. -/
theorem eq_of_convertStyle2_eq_hexText {a b : List UInt8} (h : convertStyle2 a = hexText b) :
    a = b := by
  induction a generalizing b with
  | nil =>
      cases b with
      | nil => rfl
      | cons y b =>
          have hlength := congrArg List.length h
          simp [convertStyle2, hexText, length_padded_byte] at hlength
          omega
  | cons x a ih =>
      cases b with
      | nil =>
          have hlength := congrArg List.length h
          simp [convertStyle2, hexText, length_paddedUpper_byte] at hlength
      | cons y b =>
          simp only [convertStyle2, hexText, List.flatMap_cons] at h
          obtain ⟨hbyte, hrest⟩ := List.append_inj h
            ((length_paddedUpper_byte x).trans (length_padded_byte y).symm)
          have hx : readDigits 16 (paddedUpper 2 16 x.toNat) = some x.toNat :=
            readDigits_paddedUpper (by decide) (by decide) 2 x.toNat
          rw [hbyte, readDigits_padded (by decide) (by decide)] at hx
          rw [ih hrest, UInt8.toNat_inj.mp (Option.some.inj hx).symm]

end Bytes

variable {V : Type} (dbs : Databases V)

theorem mem_flatten_of_separator {args : List (Option (List Char))} (h : some ['|'] ∈ args) :
    '|' ∈ args.flatMap fun a => a.getD [] :=
  List.mem_flatMap.mpr ⟨some ['|'], h, List.mem_singleton_self _⟩

theorem separator_mem_sourceArguments {allCols : List String}
    (h : 2 ≤ (sourceArguments allCols).length) : .separator ∈ sourceArguments allCols := by
  cases allCols with
  | nil => cases h
  | cons c allCols =>
      cases allCols with
      | nil => simp [sourceArguments] at h
      | cons d allCols => simp [sourceArguments]

theorem zero_mem_sourceBytes {allCols : List String} {row : Row V} {bytes : List UInt8}
    (h : sourceBytes dbs allCols row = .ok bytes) : 0 ∈ bytes := by
  obtain ⟨args, hargs, h⟩ := exists_of_bind_eq_ok h
  obtain ⟨text, htext, h⟩ := exists_of_bind_eq_ok h
  cases h
  have hevals := forall₂_of_mapM hargs
  unfold concat at htext
  split at htext
  · next hlength =>
      cases htext
      rw [← hevals.length_eq] at hlength
      obtain ⟨arg, harg, heval⟩ :=
        exists_of_mem_left hevals (separator_mem_sourceArguments hlength.1)
      cases heval
      exact zero_mem_utf16le (mem_flatten_of_separator harg)
  · cases htext

theorem null_notMem_operand {row : Row V} {operand : TargetOperand} {text : List Char}
    (h : operand.eval dbs row = .ok text) : '\u0000' ∉ text := by
  cases operand with
  | separator =>
      cases h
      decide
  | coalesceColumn c =>
      cases hname : dbs.unquoted c with
      | none =>
          simp only [TargetOperand.eval, hname] at h
          cases h
      | some name =>
          simp only [TargetOperand.eval, hname] at h
          obtain ⟨cell, -, h⟩ := exists_of_map_eq_ok h
          cases h
          cases cell with
          | none => exact List.not_mem_nil
          | some v => exact (textOf dbs v).property

theorem zero_notMem_targetBytes {allCols : List String} {row : Row V} {bytes : List UInt8}
    (h : targetBytes dbs allCols row = .ok bytes) : 0 ∉ bytes := by
  unfold targetBytes at h
  split at h
  · cases h
  · obtain ⟨operands, hoperands, h⟩ := exists_of_map_eq_ok h
    cases h
    refine zero_notMem_utf8 fun hmem => ?_
    obtain ⟨text, htext, hzero⟩ := List.mem_flatten.mp hmem
    obtain ⟨operand, -, heval⟩ := exists_of_mem_right (forall₂_of_mapM hoperands) htext
    exact null_notMem_operand dbs heval hzero

section Collisions

/-- Two rows with the same key that differ in some column are hashed from the same bytes. -/
def HashesCollide (pkColumns dataColumns : List String) (row row' : Row V) : Prop :=
  (∀ c ∈ pkColumns, row.lookup c = row'.lookup c) ∧
    (∃ c ∈ dataColumns, row.lookup c ≠ row'.lookup c) ∧
      ∃ bytes, sourceBytes dbs (pkColumns ++ dataColumns) row = .ok bytes ∧
        sourceBytes dbs (pkColumns ++ dataColumns) row' = .ok bytes

/-- A row that has the given cells. -/
def rowOf (cells : String → Cell V) (allCols : List String) : Row V :=
  allCols.map fun c => (c, cells c)

theorem lookup_rowOf (cells : String → Cell V) {allCols : List String} {c : String}
    (h : c ∈ allCols) : (rowOf cells allCols).lookup c = some (cells c) := by
  induction allCols with
  | nil => cases h
  | cons d allCols ih =>
      rw [rowOf, List.map_cons, List.lookup_cons]
      by_cases heq : c = d
      · subst heq
        simp
      · rw [beq_eq_false_iff_ne.mpr heq]
        exact ih ((List.mem_cons.mp h).resolve_left heq)

def argumentValue (cells : String → Cell V) : SourceArgument → Option (List Char)
  | .castColumn c => (cells c).map (nvarcharOf dbs)
  | .separator => some ['|']

def argumentText (cells : String → Cell V) (a : SourceArgument) : List Char :=
  (argumentValue dbs cells a).getD []

theorem length_sourceArguments (allCols : List String) :
    (sourceArguments allCols).length = 2 * allCols.length - 1 := by
  rw [sourceArguments, List.length_intersperse, List.length_map]

theorem columns_of_mem_sourceArguments {allCols : List String} {c : String}
    (h : .castColumn c ∈ sourceArguments allCols) : c ∈ allCols := by
  induction allCols with
  | nil => cases h
  | cons d allCols ih =>
      cases allCols with
      | nil => simpa [sourceArguments] using h
      | cons e allCols =>
          simp only [sourceArguments, List.map_cons, List.intersperse_cons_cons,
            List.mem_cons, SourceArgument.castColumn.injEq, reduceCtorEq, false_or] at h ih ⊢
          cases h with
          | inl heq => exact Or.inl heq
          | inr hmem => exact Or.inr (ih hmem)

theorem sourceBytes_rowOf (cells : String → Cell V) {allCols : List String}
    (hleast : 2 ≤ allCols.length) (hmost : allCols.length ≤ 127) :
    sourceBytes dbs allCols (rowOf cells allCols) =
      .ok (utf16le ((sourceArguments allCols).flatMap (argumentText dbs cells))) := by
  have hargs : (sourceArguments allCols).mapM (SourceArgument.eval dbs (rowOf cells allCols)) =
      .ok ((sourceArguments allCols).map (argumentValue dbs cells)) := by
    refine mapM_of_forall₂ (List.forall₂_map_right_iff.mpr (List.forall₂_same.mpr ?_))
    intro a ha
    cases a with
    | separator => rfl
    | castColumn c =>
        simp only [SourceArgument.eval, columnCell,
          lookup_rowOf cells (columns_of_mem_sourceArguments ha)]
        rfl
  have hlength := length_sourceArguments allCols
  rw [sourceBytes, hargs]
  simp only [bind, Except.bind, concat, List.length_map]
  rw [if_pos (by omega), List.flatMap_map]
  rfl

/-- NULL and the empty text are hashed from the same bytes. -/
theorem exists_hashesCollide {pkColumns dataColumns : List String}
    (hdata : ∃ c ∈ dataColumns, c ∉ pkColumns) (hpk : pkColumns ≠ [])
    (hmost : (pkColumns ++ dataColumns).length ≤ 127) :
    ∃ row row' : Row V, HashesCollide dbs pkColumns dataColumns row row' := by
  obtain ⟨c, hc, hcpk⟩ := hdata
  have hleast : 2 ≤ (pkColumns ++ dataColumns).length := by
    have hpk' := List.length_pos_of_ne_nil hpk
    have hdata' := List.length_pos_of_mem hc
    rw [List.length_append]
    omega
  let blank : String → Cell V := fun _ => some (.text ⟨[], List.not_mem_nil⟩)
  let holed : String → Cell V := fun d => if d = c then none else blank d
  refine ⟨rowOf blank (pkColumns ++ dataColumns), rowOf holed (pkColumns ++ dataColumns), ?_, ?_,
    _, sourceBytes_rowOf dbs blank hleast hmost, ?_⟩
  · intro d hd
    rw [lookup_rowOf _ (List.mem_append_left _ hd), lookup_rowOf _ (List.mem_append_left _ hd)]
    have hne : d ≠ c := fun heq => hcpk (heq ▸ hd)
    simp only [holed, if_neg hne]
  · refine ⟨c, hc, ?_⟩
    rw [lookup_rowOf _ (List.mem_append_right _ hc), lookup_rowOf _ (List.mem_append_right _ hc)]
    simp [holed, blank]
  · rw [sourceBytes_rowOf dbs holed hleast hmost]
    refine congrArg (fun text => Except.ok (utf16le text)) (List.flatMap_congr fun a _ => ?_)
    cases a with
    | separator => rfl
    | castColumn d =>
        by_cases heq : d = c
        · simp [argumentText, argumentValue, holed, blank, heq, nvarcharOf]
        · simp only [argumentText, argumentValue, holed, if_neg heq]

end Collisions

section Agreement

variable (md5 : List UInt8 → List UInt8) (pkColumns dataColumns : List String)

/-- Both queries give the row a hash, and the same one. -/
def HashesAgree (source target : Row V) : Prop :=
  ∃ hash, sourceRowHash dbs md5 (pkColumns ++ dataColumns) source = .ok hash ∧
    targetRowHash dbs md5 (pkColumns ++ dataColumns) target = .ok hash

theorem not_hashesAgree (hmd5 : Function.Injective md5) (source target : Row V) :
    ¬ HashesAgree dbs md5 pkColumns dataColumns source target := by
  rintro ⟨hash, hsource, htarget⟩
  obtain ⟨sbytes, hsbytes, hshash⟩ := exists_of_map_eq_ok hsource
  obtain ⟨tbytes, htbytes, hthash⟩ := exists_of_map_eq_ok htarget
  have hbytes : sbytes = tbytes :=
    hmd5 (eq_of_convertStyle2_eq_hexText (hshash.trans hthash.symm))
  rw [hbytes] at hsbytes
  exact zero_notMem_targetBytes dbs htbytes (zero_mem_sourceBytes dbs hsbytes)

/-- No row ever has the same hash on both sides, and where a column beside the key is hashed
two different rows are hashed from the same bytes. -/
theorem rowHashes_disagree (hmd5 : Function.Injective md5) :
    (∀ source target : Row V, ¬ HashesAgree dbs md5 pkColumns dataColumns source target) ∧
      (pkColumns ≠ [] → (∃ c ∈ dataColumns, c ∉ pkColumns) →
        (pkColumns ++ dataColumns).length ≤ 127 →
          ∃ row row' : Row V, HashesCollide dbs pkColumns dataColumns row row') := by
  constructor
  · exact not_hashesAgree dbs md5 pkColumns dataColumns hmd5
  · exact fun hpk hdata hmost => exists_hashesCollide dbs hdata hpk hmost

/-- Integers as both databases write them. -/
def intDatabases : Databases Int where
  castNvarchar n := (toString n).toList
  castText n := ⟨(toString n).toList.filter (· ≠ '\u0000'), by simp⟩
  unquoted name := some (String.ofList (name.toList.map Char.toLower))

def customerRow : Row Int :=
  [("id", some (.other 1)), ("name", some (.text ⟨['\u00f6'], by decide⟩))]

theorem customer_hashes_disagree :
    ∃ a b, sourceRowHash intDatabases id ["id", "name"] customerRow = .ok a ∧
      targetRowHash intDatabases id ["id", "name"] customerRow = .ok b ∧ a ≠ b :=
  ⟨"31007C00F600".toList, "317cc3b6".toList, rfl, rfl, by decide⟩

theorem rowHashes_disagree_customers :
    (∀ source target : Row Int, ¬ HashesAgree intDatabases id ["id"] ["name"] source target) ∧
      ∃ row row' : Row Int, HashesCollide intDatabases ["id"] ["name"] row row' :=
  have h := rowHashes_disagree intDatabases id ["id"] ["name"] Function.injective_id
  ⟨h.1, h.2 (by decide) (by decide) (by decide)⟩

end Agreement

end SqlOptima.RowHashAgreement
