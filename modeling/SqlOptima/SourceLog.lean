import SqlOptima.ChangeLog
import SqlOptima.Lsn

namespace SqlOptima.SourceLog

open SqlOptima.Lsn
open SqlOptima.ChangeLog

structure CtRow (Value : Type) where
  startLSN : LSN
  seqval : LSN
  operation : Int
  columns : List (String × Value)
  deriving DecidableEq

variable {Value : Type}

/-- `__$start_lsn`, then `__$seqval`. -/
def CtRow.le (r r' : CtRow Value) : Prop :=
  r.startLSN < r'.startLSN ∨ (r.startLSN = r'.startLSN ∧ r.seqval ≤ r'.seqval)

instance (r r' : CtRow Value) : Decidable (r.le r') :=
  inferInstanceAs (Decidable (_ ∨ _))

/-- The content of a capture table, in the order its reads return. -/
structure CaptureTable (Value : Type) where
  rows : List (CtRow Value)
  ordered : rows.Pairwise CtRow.le

/-- Rows the capture process may add: whole transactions, in commit order. -/
def Commits (ct : CaptureTable Value) (rows : List (CtRow Value)) : Prop :=
  rows.Pairwise CtRow.le ∧ ∀ r ∈ ct.rows, ∀ r' ∈ rows, r.startLSN < r'.startLSN

instance (ct : CaptureTable Value) (rows : List (CtRow Value)) : Decidable (Commits ct rows) :=
  inferInstanceAs (Decidable (_ ∧ _))

def CaptureTable.append (ct : CaptureTable Value) (rows : List (CtRow Value))
    (h : Commits ct rows) : CaptureTable Value where
  rows := ct.rows ++ rows
  ordered := by
    rw [List.pairwise_append]
    exact ⟨ct.ordered, h.1, fun r hr r' hr' => Or.inl (h.2 r hr r' hr')⟩

theorem ordered_rows (ct : CaptureTable Value) : Ordered CtRow.startLSN ct.rows := by
  refine ct.ordered.imp fun {r r'} h => ?_
  rcases h with h | ⟨h, -⟩
  · exact h.le
  · exact h.le

end SqlOptima.SourceLog
