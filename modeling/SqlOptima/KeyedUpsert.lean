import Mathlib.Data.List.Find

namespace SqlOptima.KeyedUpsert

section Writing

variable {R : Type*}

/-- Rows with the same key; a row whose key is null is related to none, itself neither. -/
structure SameKey (same : R → R → Bool) : Prop where
  symm : ∀ {a b}, same a b = true → same b a = true
  trans : ∀ {a b c}, same a b = true → same b c = true → same a c = true

def Unique (same : R → R → Bool) (rows : List R) : Prop :=
  rows.Pairwise fun a b => same a b = false

instance (same : R → R → Bool) (rows : List R) : Decidable (Unique same rows) :=
  inferInstanceAs (Decidable (rows.Pairwise _))

/-- A row, and whether the running command has written it. -/
abbrev Held (R : Type*) := R × Bool

/-- What a conflict makes of the row that is there; nothing without an update. -/
def resolve (update : Option (R → R → R)) (held : Held R) (proposed : R) : Held R :=
  match update with
  | none => held
  | some f => (f held.1 proposed, true)

/-- A proposed row is inserted, or resolved with the row that has its key. A command does not update
a row that it has written itself. -/
def write (same : R → R → Bool) (update : Option (R → R → R)) :
    List (Held R) → R → Option (List (Held R))
  | [], proposed => some [(proposed, true)]
  | held :: rest, proposed =>
      if same held.1 proposed then
        if update.isSome && held.2 then none else some (resolve update held proposed :: rest)
      else (write same update rest proposed).map (held :: ·)

/-- The unique index is checked after each row. -/
def writeAll (same : R → R → Bool) (update : Option (R → R → R)) :
    List (Held R) → List R → Option (List (Held R))
  | rows, [] => some rows
  | rows, proposed :: rest =>
      (write same update rows proposed).bind fun rows' =>
        if Unique same (rows'.map Prod.fst) then writeAll same update rows' rest else none

variable {same : R → R → Bool} {update : Option (R → R → R)} {rows : List (Held R)}
  {proposed : R} {ps : List R}

/-- An update that leaves the key of a row as it is. -/
def KeepsKey (same : R → R → Bool) (update : Option (R → R → R)) : Prop :=
  ∀ held proposed x, same held.1 proposed = true →
    same (resolve update held proposed).1 x = same held.1 x

attribute [local simp] write in
attribute [local simp] writeAll in
theorem unique_cons {row : R} {rest : List R} :
    Unique same (row :: rest) ↔ (∀ x ∈ rest, same row x = false) ∧ Unique same rest :=
  List.pairwise_cons

theorem SameKey.symm_eq (h : SameKey same) (a b : R) : same a b = same b a := by
  rw [Bool.eq_iff_iff]
  exact ⟨h.symm, h.symm⟩

/-- What one proposed row makes of a table. -/
def written (same : R → R → Bool) (update : Option (R → R → R)) (rows : List (Held R))
    (proposed : R) : List (Held R) :=
  if rows.any fun held => same held.1 proposed then
    rows.map fun held => if same held.1 proposed then resolve update held proposed else held
  else rows ++ [(proposed, true)]

theorem write_eq (hkey : SameKey same) (hunique : Unique same (rows.map Prod.fst))
    (hfresh : ∀ held ∈ rows, held.2 = true → same held.1 proposed = false) :
    write same update rows proposed = some (written same update rows proposed) := by
  induction rows with
  | nil => rfl
  | cons held rest ih =>
      obtain ⟨hhead, htail⟩ := unique_cons.mp hunique
      by_cases h : same held.1 proposed = true
      · have hheld : held.2 = false := by
          by_contra hw
          rw [Bool.not_eq_false] at hw
          rw [hfresh held List.mem_cons_self hw] at h
          cases h
        have hrest : ∀ x ∈ rest, same x.1 proposed = false := by
          intro x hx
          by_contra hsame
          rw [Bool.not_eq_false] at hsame
          have hx' := hhead x.1 (List.mem_map_of_mem hx)
          rw [hkey.trans h (hkey.symm hsame)] at hx'
          cases hx'
        have hmap : (rest.map fun held =>
            if same held.1 proposed then resolve update held proposed else held) = rest := by
          rw [List.map_congr_left (g := id) fun x hx => by rw [hrest x hx]; rfl, List.map_id]
        rw [write, if_pos h, hheld, Bool.and_false, if_neg Bool.false_ne_true, written, if_pos,
          List.map_cons, if_pos h, hmap]
        rw [List.any_cons, h, Bool.true_or]
      · have hfresh' : ∀ x ∈ rest, x.2 = true → same x.1 proposed = false :=
          fun x hx => hfresh x (List.mem_cons_of_mem held hx)
        rw [write, if_neg h, ih htail hfresh', written, written, List.any_cons,
          (Bool.not_eq_true _).mp h, Bool.false_or]
        by_cases hany : (rest.any fun held => same held.1 proposed) = true
        · rw [if_pos hany, if_pos hany, List.map_cons, if_neg h]
          rfl
        · rw [if_neg hany, if_neg hany]
          rfl

/-- What all the proposed rows make of a table, each row of it met by at most one. -/
def updated (same : R → R → Bool) (update : Option (R → R → R)) (ps : List R) (held : Held R) :
    Held R :=
  (ps.find? (same held.1)).elim held (resolve update held)

def inserted (same : R → R → Bool) (rows : List (Held R)) (ps : List R) : List (Held R) :=
  (ps.filter fun p => !rows.any fun held => same held.1 p).map fun p => (p, true)

/-- No written row has the key of a row that is still to come. -/
def Fresh (same : R → R → Bool) (rows : List (Held R)) (ps : List R) : Prop :=
  ∀ held ∈ rows, held.2 = true → ∀ p ∈ ps, same held.1 p = false

/-- A row after a proposed one, where they have the same key. -/
def met (same : R → R → Bool) (update : Option (R → R → R)) (proposed : R) (held : Held R) :
    Held R :=
  if same held.1 proposed then resolve update held proposed else held

theorem same_met (hkeeps : KeepsKey same update) (held : Held R) (x : R) :
    same (met same update proposed held).1 x = same held.1 x := by
  unfold met
  split_ifs with h
  · exact hkeeps held proposed x h
  · rfl

theorem written_of_any (h : (rows.any fun held => same held.1 proposed) = true) :
    written same update rows proposed = rows.map (met same update proposed) := by
  rw [written, if_pos h]
  rfl

theorem written_of_not_any (h : (rows.any fun held => same held.1 proposed) = false) :
    written same update rows proposed = rows ++ [(proposed, true)] := by
  rw [written, if_neg (by rw [h]; exact Bool.false_ne_true)]

theorem unique_written (hkey : SameKey same) (hkeeps : KeepsKey same update)
    (hunique : Unique same (rows.map Prod.fst)) :
    Unique same ((written same update rows proposed).map Prod.fst) := by
  cases h : rows.any fun held => same held.1 proposed with
  | true =>
      rw [written_of_any h, List.map_map]
      have hpairs := List.pairwise_map.mp hunique
      refine List.pairwise_map.mpr (hpairs.imp ?_)
      intro a b hab
      change same (met same update proposed a).1 (met same update proposed b).1 = false
      rw [same_met hkeeps, hkey.symm_eq, same_met hkeeps, hkey.symm_eq, hab]
  | false =>
      rw [written_of_not_any h, List.map_append]
      refine List.pairwise_append.mpr ⟨hunique, List.pairwise_singleton _ _, ?_⟩
      intro a ha b hb
      obtain ⟨held, hheld, rfl⟩ := List.mem_map.mp ha
      rw [List.mem_singleton.mp hb]
      exact (Bool.not_eq_true _).mp (List.any_eq_false.mp h held hheld)

theorem fresh_written (hkey : SameKey same) (hkeeps : KeepsKey same update)
    (hfresh : Fresh same rows (proposed :: ps)) (hps : Unique same (proposed :: ps)) :
    Fresh same (written same update rows proposed) ps := by
  obtain ⟨hhead, -⟩ := unique_cons.mp hps
  intro held hheld hwritten q hq
  have hother : ∀ x : R, same x proposed = true → same x q = false := by
    intro x hx
    by_contra hxq
    rw [Bool.not_eq_false] at hxq
    have h := hhead q hq
    rw [hkey.trans (hkey.symm hx) hxq] at h
    cases h
  cases h : rows.any fun held => same held.1 proposed with
  | true =>
      rw [written_of_any h] at hheld
      obtain ⟨held', hheld', rfl⟩ := List.mem_map.mp hheld
      rw [same_met hkeeps]
      by_cases hsame : same held'.1 proposed = true
      · exact hother held'.1 hsame
      · rw [met, if_neg hsame] at hwritten
        exact hfresh held' hheld' hwritten q (List.mem_cons_of_mem proposed hq)
  | false =>
      rw [written_of_not_any h] at hheld
      rcases List.mem_append.mp hheld with hmem | hmem
      · exact hfresh held hmem hwritten q (List.mem_cons_of_mem proposed hq)
      · rw [List.mem_singleton.mp hmem]
        exact hhead q hq

theorem find?_none {x : R} (h : ∀ p ∈ ps, same x p = false) : ps.find? (same x) = none := by
  rw [List.find?_eq_none]
  intro p hp
  rw [h p hp]
  exact Bool.false_ne_true

theorem updated_cons (hkey : SameKey same) (hkeeps : KeepsKey same update)
    (hps : Unique same (proposed :: ps)) (held : Held R) :
    updated same update ps (met same update proposed held) =
      updated same update (proposed :: ps) held := by
  obtain ⟨hhead, -⟩ := unique_cons.mp hps
  by_cases hsame : same held.1 proposed = true
  · have hnone : ps.find? (same (met same update proposed held).1) = none := by
      apply find?_none
      intro p hp
      rw [same_met hkeeps]
      by_contra hp'
      rw [Bool.not_eq_false] at hp'
      have h := hhead p hp
      rw [hkey.trans (hkey.symm hsame) hp'] at h
      cases h
    rw [updated, hnone, updated, List.find?_cons_of_pos hsame, met, if_pos hsame]
    rfl
  · rw [updated, updated, List.find?_cons_of_neg hsame, met, if_neg hsame]

theorem inserted_congr {rows' : List (Held R)}
    (h : ∀ p ∈ ps, (rows.any fun held => same held.1 p) = rows'.any fun held => same held.1 p) :
    inserted same rows ps = inserted same rows' ps := by
  unfold inserted
  congr 1
  apply List.filter_congr
  intro p hp
  rw [h p hp]

theorem updated_of_ne (held : Held R) (h : same held.1 proposed = false) :
    updated same update (proposed :: ps) held = updated same update ps held := by
  rw [updated, updated, List.find?_cons_of_neg (by rw [h]; exact Bool.false_ne_true)]

theorem inserted_cons_of_any (h : (rows.any fun held => same held.1 proposed) = true) :
    inserted same rows (proposed :: ps) = inserted same rows ps := by
  rw [inserted, List.filter_cons_of_neg (by rw [h]; exact Bool.false_ne_true), inserted]

theorem inserted_cons_of_not_any (h : (rows.any fun held => same held.1 proposed) = false) :
    inserted same rows (proposed :: ps) = (proposed, true) :: inserted same rows ps := by
  rw [inserted, List.filter_cons_of_pos (by rw [h]; rfl), List.map_cons, inserted]

/-- The first proposed row does not change what the others make of the table. -/
theorem written_step (hkey : SameKey same) (hkeeps : KeepsKey same update)
    (hps : Unique same (proposed :: ps)) :
    (written same update rows proposed).map (updated same update ps) ++
        inserted same (written same update rows proposed) ps =
      rows.map (updated same update (proposed :: ps)) ++ inserted same rows (proposed :: ps) := by
  obtain ⟨hhead, -⟩ := unique_cons.mp hps
  cases h : rows.any fun held => same held.1 proposed with
  | true =>
      have hany : ∀ p ∈ ps, ((rows.map (met same update proposed)).any fun held =>
          same held.1 p) = rows.any fun held => same held.1 p := by
        intro p _
        rw [List.any_map]
        congr 1
        funext held
        exact same_met hkeeps held p
      rw [written_of_any h, List.map_map, inserted_congr hany, inserted_cons_of_any h]
      congr 1
      exact List.map_congr_left fun held _ => updated_cons hkey hkeeps hps held
  | false =>
      have hany : ∀ p ∈ ps, ((rows ++ [(proposed, true)]).any fun held => same held.1 p) =
          rows.any fun held => same held.1 p := by
        intro p hp
        rw [List.any_append, List.any_cons, hhead p hp]
        exact Bool.or_false _
      have hlast : updated same update ps (proposed, true) = (proposed, true) := by
        rw [updated, find?_none hhead]
        rfl
      have hmap : rows.map (updated same update ps) =
          rows.map (updated same update (proposed :: ps)) := by
        apply List.map_congr_left
        intro held hheld
        have hne := (Bool.not_eq_true _).mp (List.any_eq_false.mp h held hheld)
        exact (updated_of_ne held hne).symm
      rw [written_of_not_any h, List.map_append, inserted_congr hany, inserted_cons_of_not_any h,
        List.map_singleton, hlast, hmap, List.append_assoc]
      rfl

/-- Rows with different keys are written as if each were written alone. -/
theorem writeAll_eq (hkey : SameKey same) (hkeeps : KeepsKey same update)
    (hunique : Unique same (rows.map Prod.fst)) (hps : Unique same ps)
    (hfresh : Fresh same rows ps) :
    writeAll same update rows ps =
      some (rows.map (updated same update ps) ++ inserted same rows ps) := by
  induction ps generalizing rows with
  | nil =>
      have hmap : rows.map (updated same update []) = rows := List.map_id rows
      rw [hmap]
      exact congrArg some (List.append_nil rows).symm
  | cons p ps ih =>
      have hwrite : write same update rows p = some (written same update rows p) :=
        write_eq hkey hunique fun held hheld hw => hfresh held hheld hw p List.mem_cons_self
      have hunique' : Unique same ((written same update rows p).map Prod.fst) :=
        unique_written hkey hkeeps hunique
      have hfresh' := fresh_written hkey hkeeps hfresh hps
      rw [writeAll, hwrite, Option.bind_some, if_pos hunique', ih hunique' (unique_cons.mp hps).2
        hfresh', written_step hkey hkeeps hps]

theorem writeAll_lone (p : R) : writeAll same update [] [p] = some [(p, true)] := by
  rw [writeAll, write, Option.bind_some, if_pos]
  · rfl
  · exact List.pairwise_singleton _ _

theorem unique_writeAll {rows' : List (Held R)} (hunique : Unique same (rows.map Prod.fst))
    (h : writeAll same update rows ps = some rows') : Unique same (rows'.map Prod.fst) := by
  induction ps generalizing rows with
  | nil =>
      cases h
      exact hunique
  | cons p ps ih =>
      rw [writeAll, Option.bind_eq_some_iff] at h
      obtain ⟨next, -, hnext⟩ := h
      split_ifs at hnext with hu
      exact ih hu hnext

end Writing

section Merging

variable {R S : Type*} {same : R → R → Bool} {update : Option (R → R → R)}

/-- Rows of a source are joined to the rows of a table; the joined rows are updated, and a wanted
row of the source that is joined to none is inserted. -/
def mergeAll (joined : R → S → Bool) (change : R → S → R) (wanted : S → Bool) (propose : S → R)
    (target : List R) (source : List S) : List R :=
  (target.map fun t => (source.find? (joined t)).elim t (change t)) ++
    (source.filter fun s => !(target.any fun t => joined t s) && wanted s).map propose

/-- An upsert is a merge when the join is equality of keys and the resolution is the change. -/
theorem writeAll_eq_mergeAll {joined : R → S → Bool} {change : R → S → R} {wanted : S → Bool}
    {propose : S → R} {target : List R} {source : List S} (hkey : SameKey same)
    (hkeeps : KeepsKey same update)
    (htarget : Unique same target) (hsource : Unique same (source.map propose))
    (hjoined : ∀ t ∈ target, ∀ s ∈ source, joined t s = same t (propose s))
    (hchange : ∀ t ∈ target, ∀ s ∈ source, joined t s = true →
      (resolve update (t, false) (propose s)).1 = change t s)
    (hwanted : ∀ s ∈ source, wanted s = true) :
    (writeAll same update (target.map fun t => (t, false)) (source.map propose)).map
        (List.map Prod.fst) =
      some (mergeAll joined change wanted propose target source) := by
  have hrows : (target.map fun t => (t, false)).map Prod.fst = target := by
    rw [List.map_map]
    exact List.map_id target
  have hfresh : Fresh same (target.map fun t => (t, false)) (source.map propose) := by
    intro held hheld hw
    obtain ⟨t, -, rfl⟩ := List.mem_map.mp hheld
    cases hw
  have hupdated : ((target.map fun t => (t, false)).map
      (updated same update (source.map propose))).map Prod.fst =
        target.map fun t => (source.find? (joined t)).elim t (change t) := by
    rw [List.map_map, List.map_map]
    apply List.map_congr_left
    intro t ht
    have hfind : (source.map propose).find? (same t) = (source.find? (joined t)).map propose := by
      rw [List.find?_map]
      congr 1
      exact List.find?_congr fun s hs => (hjoined t ht s hs).symm
    change (updated same update (source.map propose) (t, false)).1 = _
    rw [updated, hfind]
    cases hs : source.find? (joined t) with
    | none => rfl
    | some s => exact hchange t ht s (List.mem_of_find?_eq_some hs) (List.find?_some hs)
  have hinserted : (inserted same (target.map fun t => (t, false)) (source.map propose)).map
      Prod.fst =
        (source.filter fun s => !(target.any fun t => joined t s) && wanted s).map propose := by
    rw [inserted, List.map_map, List.filter_map, List.map_map]
    congr 1
    apply List.filter_congr
    intro s hs
    change (!(target.map fun t => (t, false)).any fun held => same held.1 (propose s)) = _
    rw [hwanted s hs, Bool.and_true, List.any_map]
    congr 1
    rw [Bool.eq_iff_iff, List.any_eq_true, List.any_eq_true]
    constructor
    · rintro ⟨t, ht, h⟩
      exact ⟨t, ht, (hjoined t ht s hs).trans h⟩
    · rintro ⟨t, ht, h⟩
      exact ⟨t, ht, (hjoined t ht s hs).symm.trans h⟩
  rw [writeAll_eq hkey hkeeps (by rwa [hrows]) hsource hfresh, Option.map_some, List.map_append,
    hupdated, hinserted, mergeAll]

end Merging

end SqlOptima.KeyedUpsert
