import SqlOptima.ApplyStatements

namespace SqlOptima.DedupMeaning

open SqlOptima.CdcCapture
open SqlOptima.ChangeApply
open SqlOptima.ApplyStatements
open SqlOptima.TransitionSystem (along_foldl_iff)

variable {V : Type}

/-- What a synthetic key is made of: the dictionary that is serialised with its keys sorted. -/
structure Content (V : Type) where
  operation : ChangeOperation
  schema : String
  table : String
  values : List (String × Option V)

def identifyingValues (e : ChangeEvent (Option V)) : List (String × Option V) :=
  if e.operation = .delete then e.beforeValues.getD []
  else firstNonEmpty e.afterValues e.beforeValues

def content (e : ChangeEvent (Option V)) : Content V :=
  ⟨e.operation, e.tableSchema, e.tableName,
    (identifyingValues e).mergeSort fun a b => a.1 ≤ b.1⟩

/-- What can happen to the applier: an event is applied, or keys expire in Redis. -/
inductive Call (V : Type) where
  | apply (e : ChangeEvent (Option V)) (raises : Bool)
  | expire (expired : List Char → Bool)

/-- The applier, and the events that were given to it and whose statement does not fail. -/
structure RunState (V : Type) where
  applier : ApplierState (Option V)
  delivered : List (ChangeEvent (Option V))

def fresh (backend : Backend) : RunState V :=
  ⟨⟨[], ⟨backend, []⟩, fun _ => none⟩, []⟩

/-- `hash` stands for the JSON text and its SHA-256 hex digest. -/
def exec (hash : Content V → List Char) (s : RunState V) : Call V → RunState V
  | .apply e raises =>
      ⟨(apply (fun e => hash (content e)) raises s.applier e).1,
        if raises then s.delivered else s.delivered ++ [e]⟩
  | .expire expired =>
      { s with applier := { s.applier with dedup := s.applier.dedup.expire expired } }

/-- The sequence with some immediate redeliveries left out. -/
inductive Thins : List (ChangeEvent (Option V)) → List (ChangeEvent (Option V)) → Prop where
  | nil : Thins [] []
  | keep {kept es : List (ChangeEvent (Option V))} (e : ChangeEvent (Option V))
      (h : Thins kept es) : Thins (kept ++ [e]) (es ++ [e])
  | skip {kept es : List (ChangeEvent (Option V))} (e : ChangeEvent (Option V))
      (h : Thins kept es) (hlast : es.getLast? = some e) : Thins kept (es ++ [e])

theorem thins_refl (es : List (ChangeEvent (Option V))) : Thins es es := by
  induction es using List.reverseRecOn with
  | nil => exact .nil
  | append_singleton es e ih => exact .keep e ih

section Meaning

variable [DecidableEq V] (pkColumns : String → String → List String)

def executeEvent (db : List (TargetRow V)) (e : ChangeEvent (Option V)) : List (TargetRow V) :=
  execute (pkColumns e.tableSchema e.tableName) e db

def replay (db : List (TargetRow V)) (es : List (ChangeEvent (Option V))) : List (TargetRow V) :=
  es.foldl (executeEvent pkColumns) db

/-- The target is as if all events had been applied in order, but for immediate redeliveries. -/
def KeepsMeaning (db : List (TargetRow V)) (s : RunState V) : Prop :=
  ∃ kept, Thins kept s.delivered ∧
    replay pkColumns db s.applier.target = replay pkColumns db kept

variable {pkColumns}

theorem replay_append (db : List (TargetRow V)) (es : List (ChangeEvent (Option V)))
    (e : ChangeEvent (Option V)) :
    replay pkColumns db (es ++ [e]) = executeEvent pkColumns (replay pkColumns db es) e :=
  List.foldl_append

theorem replay_redelivery (db : List (TargetRow V)) (es : List (ChangeEvent (Option V)))
    (e : ChangeEvent (Option V)) :
    replay pkColumns db (es ++ [e] ++ [e]) = replay pkColumns db (es ++ [e]) := by
  rw [replay_append db (es ++ [e]) e, replay_append, executeEvent, executeEvent, execute_execute]

theorem replay_of_thins {kept es : List (ChangeEvent (Option V))} (h : Thins kept es)
    (db : List (TargetRow V)) : replay pkColumns db kept = replay pkColumns db es := by
  induction h with
  | nil => rfl
  | keep e h ih => rw [replay_append, replay_append, ih]
  | skip e h hlast ih =>
      obtain ⟨front, rfl⟩ := List.getLast?_eq_some_iff.mp hlast
      rw [ih, replay_redelivery]

theorem keepsMeaning_iff {db : List (TargetRow V)} {s : RunState V} :
    KeepsMeaning pkColumns db s ↔
      replay pkColumns db s.applier.target = replay pkColumns db s.delivered := by
  constructor
  · rintro ⟨kept, hthins, heq⟩
    rw [heq, replay_of_thins hthins]
  · intro heq
    exact ⟨_, thins_refl _, heq⟩

end Meaning

theorem target_apply (digest : ChangeEvent (Option V) → List Char) (raises : Bool)
    (s : ApplierState (Option V)) (e : ChangeEvent (Option V)) :
    (apply digest raises s e).1.target =
      if isDuplicate digest s e || raises then s.target else s.target ++ [e] := by
  unfold apply
  by_cases hdup : isDuplicate digest s e = true
  · simp [hdup]
  · cases raises with
    | true => simp [hdup]
    | false =>
        simp only [hdup, Bool.false_eq_true, if_false, Bool.or_false]
        split
        · rfl
        · next hsave =>
            unfold saveEvent at hsave
            split at hsave
            · cases hsave
              rfl
            · split at hsave
              · cases hsave
              · cases hsave
                rfl

section Run

variable [DecidableEq V] (hash : Content V → List Char) (pkColumns : String → String → List String)
  (db : List (TargetRow V))

/-- An event whose key is in the cache would change nothing: its row stands in the target with the
values it writes, or the row it deletes is not there. -/
def SkipsSettled (s : RunState V) : Call V → Prop
  | .apply e false =>
      isDuplicate (fun e => hash (content e)) s.applier e = true →
        Settled (pkColumns e.tableSchema e.tableName) e (replay pkColumns db s.applier.target)
  | .apply _ true | .expire _ => True

variable {hash pkColumns db}

theorem keepsMeaning_exec_iff {s : RunState V} (h : KeepsMeaning pkColumns db s) (call : Call V) :
    KeepsMeaning pkColumns db (exec hash s call) ↔ SkipsSettled hash pkColumns db s call := by
  have heq := keepsMeaning_iff.mp h
  rw [keepsMeaning_iff]
  match call with
  | .expire expired => exact iff_of_true heq trivial
  | .apply e true =>
      refine iff_of_true ?_ trivial
      simp only [exec, target_apply, Bool.or_true, if_true]
      exact heq
  | .apply e false =>
      simp only [exec, target_apply, Bool.or_false, Bool.false_eq_true, if_false, SkipsSettled]
      rw [replay_append, ← heq]
      by_cases hdup : isDuplicate (fun e => hash (content e)) s.applier e = true
      · rw [if_pos hdup, forall_prop_of_true hdup, ← execute_eq_self_iff, eq_comm]
        rfl
      · rw [if_neg hdup, replay_append]
        exact iff_of_true rfl fun hdup' => absurd hdup' hdup

/-- Along every sequence of events, with or without LSN, the target has the meaning of all of them
exactly when every event that is skipped would have changed nothing. -/
theorem keepsMeaning_along_calls_iff (hash : Content V → List Char)
    (pkColumns : String → String → List String) (db : List (TargetRow V)) (backend : Backend)
    (calls : List (Call V)) :
    (∀ pre, pre <+: calls → KeepsMeaning pkColumns db (pre.foldl (exec hash) (fresh backend))) ↔
      ∀ pre call, pre ++ [call] <+: calls →
        SkipsSettled hash pkColumns db (pre.foldl (exec hash) (fresh backend)) call :=
  along_foldl_iff (keepsMeaning_iff.mpr rfl) (fun _ h => h)
    (fun _ call h hok => (keepsMeaning_exec_iff h call).mpr hok)
    (fun _ call h hnext => (keepsMeaning_exec_iff h call).mp hnext) calls

end Run

def orderEvent (operation : ChangeOperation) (after before : Option (List (String × Option Nat))) :
    ChangeEvent (Option Nat) :=
  ⟨"dbo", "orders", operation, after, before, none⟩

/-- The same row is inserted, deleted and inserted again, without an LSN. -/
def insertAgain : List (Call Nat) :=
  [.apply (orderEvent .insert (some [("id", some 1)]) none) false,
    .apply (orderEvent .delete none (some [("id", some 1)])) false,
    .apply (orderEvent .insert (some [("id", some 1)]) none) false]

theorem second_insert_is_lost :
    let s := insertAgain.foldl (exec fun c => if c.operation = .delete then ['d'] else ['u'])
      (fresh (.memory 100000))
    (replay (fun _ _ => ["id"]) [] s.applier.target).length = 0 ∧
      (replay (fun _ _ => ["id"]) [] s.delivered).length = 1 ∧
      ¬ KeepsMeaning (fun _ _ => ["id"]) [] s := by
  intro s
  have htarget : (replay (fun _ _ => ["id"]) [] s.applier.target).length = 0 := by decide +kernel
  have hdelivered : (replay (fun _ _ => ["id"]) [] s.delivered).length = 1 := by decide +kernel
  refine ⟨htarget, hdelivered, fun h => ?_⟩
  rw [keepsMeaning_iff.mp h, hdelivered] at htarget
  cases htarget

end SqlOptima.DedupMeaning
