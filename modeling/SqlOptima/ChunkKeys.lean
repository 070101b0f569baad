import SqlOptima.CoreTypes
import SqlOptima.TextKeys

namespace SqlOptima.ChunkKeys

open SqlOptima.CoreTypes
open SqlOptima.TextKeys

/-- The textual form of an identifier: what printing it gives, and what
parsing reads back. -/
structure UuidCodec (Uuid : Type) where
  text : Uuid → List Char
  parse : List Char → Option Uuid
  parse_text : ∀ u, parse (text u) = some u
  no_slash : ∀ u, '/' ∉ text u

variable {Uuid : Type} (U : UuidCodec Uuid)

theorem UuidCodec.text_injective : Function.Injective U.text := by
  intro u v h
  have hparse := congrArg U.parse h
  rw [U.parse_text, U.parse_text] at hparse
  exact Option.some.inj hparse

inductive KeyError
  | malformed (key : List Char)
  | invalidUuid (text : List Char)
  deriving DecidableEq

def chunkKey (jobID chunkID : Uuid) : List Char :=
  U.text jobID ++ '/' :: U.text chunkID

def statusKey (jobID : Uuid) (status : ChunkStatus) (chunkID : Uuid) : List Char :=
  ['/'].intercalate [U.text jobID, status.text, U.text chunkID]

def statusPrefix (jobID : Uuid) (status : ChunkStatus) : List Char :=
  U.text jobID ++ '/' :: (status.text ++ ['/'])

def checkpointKey (jobID : Uuid) (tableQualified : String) : List Char :=
  U.text jobID ++ '/' :: tableQualified.toList

def parseChunkIDFromStatusKey (key : List Char) : Except KeyError Uuid :=
  match key.splitOn '/' with
  | [_, _, id] =>
      match U.parse id with
      | some u => .ok u
      | none => .error (.invalidUuid id)
  | _ => .error (.malformed key)

theorem statusKey_eq (jobID : Uuid) (status : ChunkStatus) (chunkID : Uuid) :
    statusKey U jobID status chunkID =
      U.text jobID ++ '/' :: (status.text ++ '/' :: U.text chunkID) := by
  simp [statusKey, List.intercalate]

theorem parseChunkIDFromStatusKey_statusKey (jobID : Uuid) {status : ChunkStatus}
    (hplain : status.Plain) (chunkID : Uuid) :
    parseChunkIDFromStatusKey U (statusKey U jobID status chunkID) = .ok chunkID := by
  have hsplit : (statusKey U jobID status chunkID).splitOn '/' =
      [U.text jobID, status.text, U.text chunkID] := by
    apply List.splitOn_intercalate
    · intro l hl
      simp only [List.mem_cons, List.not_mem_nil, or_false] at hl
      rcases hl with rfl | rfl | rfl
      · exact U.no_slash jobID
      · exact hplain
      · exact U.no_slash chunkID
    · simp
  simp only [parseChunkIDFromStatusKey, hsplit, U.parse_text]

/-- A key under a status that holds a separator has a field too many. -/
theorem parseChunkIDFromStatusKey_of_not_plain {jobID : Uuid} {status : ChunkStatus}
    (hslash : ¬ status.Plain) {key : List Char} (hkey : statusPrefix U jobID status <+: key) :
    parseChunkIDFromStatusKey U key = .error (.malformed key) := by
  obtain ⟨rest, rfl⟩ := hkey
  obtain ⟨before, after, hstatus⟩ := List.append_of_mem (not_not.mp hslash)
  have hpos : ∀ l : List Char, 1 ≤ (l.splitOn '/').length := fun l =>
    List.length_pos_of_ne_nil (List.splitOn_ne_nil '/' l)
  have hlength : 4 ≤ ((statusPrefix U jobID status ++ rest).splitOn '/').length := by
    rw [statusPrefix, hstatus]
    simp only [List.append_assoc, List.cons_append, List.nil_append,
      List.splitOn_append_cons_self, List.length_append]
    have hjob := hpos (U.text jobID)
    have hbefore := hpos before
    have hafter := hpos after
    have hrest := hpos rest
    omega
  rw [parseChunkIDFromStatusKey]
  split
  · next hparts =>
      rw [hparts] at hlength
      simp at hlength
  · rfl

theorem chunkKey_inj {j j' c c' : Uuid} :
    chunkKey U j c = chunkKey U j' c' ↔ j = j' ∧ c = c' := by
  rw [chunkKey, chunkKey, append_sep_inj (U.no_slash j) (U.no_slash j')]
  simp [U.text_injective.eq_iff]

theorem statusKey_inj {j j' c c' : Uuid} {s s' : ChunkStatus} :
    statusKey U j s c = statusKey U j' s' c' ↔ j = j' ∧ s = s' ∧ c = c' := by
  rw [statusKey_eq, statusKey_eq, append_sep_inj (U.no_slash j) (U.no_slash j'),
    append_sep_inj_last (U.no_slash c) (U.no_slash c')]
  simp [U.text_injective.eq_iff, ChunkStatus.text_injective.eq_iff]

theorem statusPrefix_prefix_iff {j j' c' : Uuid} {s s' : ChunkStatus} (hplain : s'.Plain) :
    statusPrefix U j s <+: statusKey U j' s' c' ↔ j = j' ∧ s = s' := by
  rw [statusKey_eq, statusPrefix]
  constructor
  · rintro ⟨t, ht⟩
    rw [List.append_assoc, List.cons_append, List.append_assoc, List.singleton_append,
      append_sep_inj (U.no_slash j) (U.no_slash j')] at ht
    obtain ⟨hj, hrest⟩ := ht
    -- the rest of the key has one separator, so the status of the prefix has none
    have hcount := congrArg (List.count '/') hrest
    simp only [List.count_append, List.count_cons_self, List.count_eq_zero_of_not_mem hplain,
      List.count_eq_zero_of_not_mem (U.no_slash c')] at hcount
    have hnone : '/' ∉ s.text := List.count_eq_zero.mp (by omega)
    rw [append_sep_inj hnone hplain] at hrest
    exact ⟨U.text_injective hj, ChunkStatus.text_injective hrest.1⟩
  · rintro ⟨rfl, rfl⟩
    exact ⟨U.text c', by simp⟩

instance neZero_digit : NeZero 16 := ⟨by decide⟩

/-- The canonical identifiers: thirty-two hexadecimal digits, printed in five
dashed groups. -/
structure HexUuid where
  nibbles : List (Fin 16)
  length_eq : nibbles.length = 32
  deriving DecidableEq

def hexDigit (n : Fin 16) : Char :=
  if n.val < 10 then Char.ofNat (48 + n.val) else Char.ofNat (87 + n.val)

def hexValue (c : Char) : Option (Fin 16) :=
  (List.finRange 16).find? fun n => hexDigit n = c

def dashed (digits : List Char) : List Char :=
  ['-'].intercalate [digits.take 8, (digits.drop 8).take 4, (digits.drop 12).take 4,
    (digits.drop 16).take 4, digits.drop 20]

theorem hexValue_hexDigit (n : Fin 16) : hexValue (hexDigit n) = some n := by
  revert n
  decide

theorem mapM_hexValue (ns : List (Fin 16)) :
    (ns.map hexDigit).mapM hexValue = some ns := by
  induction ns with
  | nil => rfl
  | cons n ns ih => simp [List.mapM_cons, hexValue_hexDigit, ih]

theorem hexDigit_ne_dash (n : Fin 16) : hexDigit n ≠ '-' := by
  revert n
  decide

theorem dashed_regroup (digits : List Char) :
    digits.take 8 ++ ((digits.drop 8).take 4 ++ ((digits.drop 12).take 4 ++
      ((digits.drop 16).take 4 ++ digits.drop 20))) = digits := by
  have hstep : ∀ m k, (digits.drop m).take k ++ digits.drop (m + k) = digits.drop m := by
    intro m k
    rw [← List.drop_drop, List.take_append_drop]
  rw [hstep 16 4, hstep 12 4, hstep 8 4, List.take_append_drop]

theorem filter_dashed (ns : List (Fin 16)) :
    (dashed (ns.map hexDigit)).filter (fun c => c ≠ '-') = ns.map hexDigit := by
  have hkeep : ∀ l : List Char, l.Sublist (ns.map hexDigit) →
      l.filter (fun c => c ≠ '-') = l := by
    intro l hl
    rw [List.filter_eq_self]
    intro c hc
    obtain ⟨n, -, rfl⟩ := List.mem_map.mp (hl.subset hc)
    simpa using hexDigit_ne_dash n
  simp only [dashed, List.intercalate_cons_cons, List.intercalate_singleton,
    List.append_assoc, List.filter_append, List.cons_append, List.nil_append]
  rw [List.filter_cons_of_neg (by simp)]
  simp only [List.filter_append, List.filter_cons]
  rw [hkeep _ (List.take_sublist _ _),
    hkeep _ ((List.take_sublist _ _).trans (List.drop_sublist _ _)),
    hkeep _ ((List.take_sublist _ _).trans (List.drop_sublist _ _)),
    hkeep _ ((List.take_sublist _ _).trans (List.drop_sublist _ _)),
    hkeep _ (List.drop_sublist _ _)]
  exact dashed_regroup _

def HexUuid.text (u : HexUuid) : List Char := dashed (u.nibbles.map hexDigit)

def HexUuid.parse (cs : List Char) : Option HexUuid :=
  ((cs.filter fun c => c ≠ '-').mapM hexValue).bind fun ns =>
    if h : ns.length = 32 then
      if dashed (ns.map hexDigit) = cs then some ⟨ns, h⟩ else none
    else none

def hexUuidCodec : UuidCodec HexUuid where
  text := HexUuid.text
  parse := HexUuid.parse
  parse_text := by
    intro u
    rw [HexUuid.parse, HexUuid.text, filter_dashed, mapM_hexValue]
    simp [u.length_eq]
  no_slash := by
    intro u hmem
    have hdigits : '/' ∈ (u.text).filter fun c => c ≠ '-' :=
      List.mem_filter.mpr ⟨hmem, by decide⟩
    rw [HexUuid.text, filter_dashed, List.mem_map] at hdigits
    obtain ⟨n, -, hn⟩ := hdigits
    revert n
    decide

def HexUuid.ofDigit (n : Fin 16) : HexUuid := ⟨List.replicate 31 0 ++ [n], by simp⟩

end SqlOptima.ChunkKeys
