import SqlOptima.ChangeApply
import SqlOptima.RecentList

namespace SqlOptima.DeduplicatorCache

open ChangeApply
open RecentList (touch evict recent foldl_recent length_recent_le nodup_recent mem_recent_iff)

/-!
# The deduplicator in memory, over any sequence of calls
-/

inductive Operation
  | record (identity qualified : List Char)
  | lookup (identity qualified : List Char)
  deriving DecidableEq

/-- The deduplicator after a call; a lookup changes nothing. -/
def step (d : Deduplicator) : Operation → Deduplicator
  | .record identity qualified => d.record identity qualified
  | .lookup _ _ => d

def run (maxSize : Nat) (operations : List Operation) : Deduplicator :=
  operations.foldl step ⟨.memory maxSize, []⟩

/-- The keys that were recorded, the newest one last. -/
def recordedKeys (operations : List Operation) : List (List Char) :=
  operations.filterMap fun
    | .record identity qualified => some (makeKey identity qualified)
    | .lookup _ _ => none

/-- The answer of a lookup after the calls. -/
def answer (maxSize : Nat) (operations : List Operation) (identity qualified : List Char) : Bool :=
  (run maxSize operations).alreadyApplied identity qualified

/-- The cache is `touch`ed and then loses its first key where it has grown too long. -/
theorem record_memory (maxSize : Nat) (keys : List (List Char)) (identity qualified : List Char) :
    Deduplicator.record ⟨.memory maxSize, keys⟩ identity qualified =
      ⟨.memory maxSize, evict maxSize (touch keys (makeKey identity qualified))⟩ :=
  rfl

theorem foldl_step (maxSize : Nat) (operations : List Operation) (keys : List (List Char)) :
    operations.foldl step ⟨.memory maxSize, keys⟩ =
      ⟨.memory maxSize,
        (recordedKeys operations).foldl (fun keys key => evict maxSize (touch keys key)) keys⟩ := by
  induction operations generalizing keys with
  | nil => rfl
  | cons operation operations ih =>
      cases operation with
      | record identity qualified =>
          rw [List.foldl_cons, step, record_memory, ih]
          rfl
      | lookup identity qualified => exact ih keys

/-- The cache holds the keys recorded last, as many as it has room for. -/
theorem keys_run (maxSize : Nat) (operations : List Operation) :
    (run maxSize operations).keys = recent maxSize (recordedKeys operations) := by
  rw [run, foldl_step, foldl_recent]

/-- The cache never grows too large, repeats no key and keeps the latest ones, so that a lookup
finds a key for as long as fewer than `maxSize` others have been recorded since. -/
theorem cache_keeps_recent (maxSize : Nat) (operations : List Operation) :
    (run maxSize operations).keys.length ≤ maxSize ∧
      (run maxSize operations).keys.Nodup ∧
      (run maxSize operations).keys = (recordedKeys operations).dedup.rtake maxSize ∧
      ∀ identity qualified, answer maxSize operations identity qualified = true ↔
        ∃ before after,
          recordedKeys operations = before ++ makeKey identity qualified :: after ∧
          (makeKey identity qualified :: after).dedup.length ≤ maxSize := by
  have hkeys := keys_run maxSize operations
  refine ⟨?_, ?_, hkeys, fun identity qualified => ?_⟩
  · rw [hkeys]
    exact length_recent_le maxSize _
  · rw [hkeys]
    exact nodup_recent maxSize _
  · rw [answer, Deduplicator.alreadyApplied, decide_eq_true_iff, hkeys]
    exact mem_recent_iff

/-- A key recorded again outlives one recorded after it the first time. -/
example : (run 2 [.record ['a'] ['t'], .record ['b'] ['t'], .record ['a'] ['t'],
    .record ['c'] ['t']]).keys = [makeKey ['a'] ['t'], makeKey ['c'] ['t']] := by
  decide

end SqlOptima.DeduplicatorCache
