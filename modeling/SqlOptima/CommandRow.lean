import SqlOptima.TransitionSystem

namespace SqlOptima.CommandRow

open TransitionSystem (runSteps along_run_iff)

inductive Command where
  | start | pause | resume | stop | cancel
  deriving DecidableEq, Repr

/-- The job's single row of `migration_commands`; `serial` tells one write from another, as
`issued_at` does. -/
structure Row where
  command : Command
  serial : Nat
  acked : Bool
  deriving DecidableEq, Repr

/-- `SELECT command … WHERE acked_at IS NULL`; a query that fails reads as no command. -/
def getCommand (row : Option Row) (ok : Bool) : Option (Command × Nat) :=
  (row.filter fun r => ok && !r.acked).map fun r => (r.command, r.serial)

/-- `UPDATE … SET acked_at = NOW()`, by the job's id alone. -/
def ackCommand (row : Option Row) : Option Row :=
  row.map fun r => { r with acked := true }

/-- The flush of a merged command: an insert where no row was loaded, which fails on a row that came
in between, else an update of the columns that differ from what was loaded. -/
def writeCommand (loaded row : Option Row) (c : Command) (serial : Nat) : Option Row :=
  match loaded, row with
  | none, none => some ⟨c, serial, false⟩
  | some l, some r => some ⟨if l.command = c then r.command else c, serial, !l.acked && r.acked⟩
  | _, _ => none

/-- Nobody has touched what the call has loaded and will not write. -/
def Unchanged (c : Command) (loaded row : Option Row) : Prop :=
  ∀ l ∈ loaded, ∀ r ∈ row, (l.command = c → r.command = c) ∧ (l.acked = false → r.acked = false)

instance (c : Command) (loaded row : Option Row) : Decidable (Unchanged c loaded row) :=
  inferInstanceAs (Decidable (∀ l ∈ loaded, ∀ r ∈ row, _ ∧ _))

theorem writeCommand_eq_iff {loaded row : Option Row} {c : Command} {serial : Nat} {r : Row}
    (h : writeCommand loaded row c serial = some r) :
    r = ⟨c, serial, false⟩ ↔ Unchanged c loaded row := by
  cases loaded with
  | none =>
      refine iff_of_true ?_ (by rintro l ⟨⟩)
      cases row with
      | none =>
          cases h
          rfl
      | some old => cases h
  | some l =>
      cases row with
      | none => cases h
      | some old =>
          cases h
          rw [Row.mk.injEq, Unchanged]
          simp only [Option.mem_def, Option.some.injEq, forall_eq', true_and]
          refine and_congr ?_ ?_
          · split
            · next heq => exact ⟨fun h _ => h, fun h => h heq⟩
            · next hne => exact iff_of_true rfl fun heq => absurd heq hne
          · cases l.acked with
            | true => simp
            | false => simp

/-- Where a worker stands in its loop: at work on a chunk, in `CheckBeforeChunk` or in
`waitWhilePaused`, before a poll or with a command that it has read and not acknowledged yet. -/
inductive Position where
  | working
  | checking
  | reading (c : Command) (serial : Nat)
  | paused
  | pausedReading (c : Command) (serial : Nat)
  | stopped
  | left
  deriving DecidableEq, Repr

inductive JobStatus where
  | running | paused | stopped
  deriving DecidableEq, Repr

/-- The rows, the calls of `issue` between their two statements with what they have loaded, the
workers and, as a record of the run, the last write, the writes that were acknowledged, those that a
worker acted on, and the standing of the last pause and resume. -/
structure State (W : Type) where
  row : Option Row
  issued : Nat
  merging : List (Command × Option Row)
  worker : W → Position
  jobStatus : JobStatus
  written : Option (Command × Nat)
  acks : List Nat
  acted : List Nat
  pauseAcked : Bool
  resumeAcked : Bool
  startedPaused : Bool

inductive Action (W : Type) where
  | merge (c : Command)
  | issue (k : Nat)
  | enter (w : W)
  | poll (w : W) (ok : Bool)
  | act (w : W) (ok : Bool)
  | leave (w : W)
  deriving DecidableEq, Repr

section Steps

variable {W : Type} [DecidableEq W]

def initial : State W where
  row := none
  issued := 0
  merging := []
  worker _ := .working
  jobStatus := .running
  written := none
  acks := []
  acted := []
  pauseAcked := false
  resumeAcked := false
  startedPaused := false

def State.move (s : State W) (w : W) (p : Position) : State W :=
  { s with worker := Function.update s.worker w p }

/-- The worker's check is over and its next chunk begins. -/
def State.begin (s : State W) (w : W) : State W :=
  { s.move w .working with startedPaused := s.startedPaused || s.pauseAcked }

/-- The row is written, and a pause or resume may stand acknowledged there as soon as it is. -/
def State.write (s : State W) (c : Command) (row : Row) : State W :=
  { s with
    row := some row
    issued := s.issued + 1
    written := some (c, s.issued)
    acks := if row.acked then s.issued :: s.acks else s.acks
    pauseAcked := s.pauseAcked && c != .resume || row.acked && row.command == .pause
    resumeAcked := s.resumeAcked && c != .pause || row.acked && row.command == .resume }

/-- The second statement of a call of `issue`; an insert that fails is an error of the call. -/
def State.issue (s : State W) (k : Nat) (call : Command × Option Row) : State W :=
  let left := { s with merging := s.merging.eraseIdx k }
  match writeCommand call.2 s.row call.1 s.issued with
  | some row => left.write call.1 row
  | none => left

/-- The worker acts on the command it has read; its acknowledgement may fail unnoticed. -/
def State.ack (s : State W) (serial : Nat) (ok : Bool) : State W :=
  let marked := if ok then s.row else none
  { s with
    row := if ok then ackCommand s.row else s.row
    acted := serial :: s.acted
    acks := (marked.map Row.serial).toList ++ s.acks
    pauseAcked := s.pauseAcked || marked.any fun r => r.command == .pause
    resumeAcked := s.resumeAcked || marked.any fun r => r.command == .resume }

/-- The switch of `CheckBeforeChunk`. -/
def State.handle (s : State W) (w : W) : Command → State W
  | .stop | .cancel => { s with jobStatus := .stopped }.move w .stopped
  | .pause => { s with jobStatus := .paused }.move w .paused
  | .resume => { s with jobStatus := .running }.begin w
  | .start => s.begin w

/-- The switch of `waitWhilePaused`; a resume leads back to the poll of `CheckBeforeChunk`. -/
def State.handlePaused (s : State W) (w : W) : Command → State W
  | .stop | .cancel => { s with jobStatus := .stopped }.move w .stopped
  | .resume => { s with jobStatus := .running }.move w .checking
  | .pause | .start => s.move w .paused

def step (s : State W) : Action W → Option (State W)
  | .merge c => some { s with merging := s.merging ++ [(c, s.row)] }
  | .issue k => (s.merging[k]?).map (s.issue k)
  | .enter w =>
      match s.worker w with
      | .working => some (s.move w .checking)
      | _ => none
  | .poll w ok =>
      match s.worker w, getCommand s.row ok with
      | .checking, none => some (s.begin w)
      | .checking, some (c, serial) => some (s.move w (.reading c serial))
      | .paused, none => some s
      | .paused, some (c, serial) => some (s.move w (.pausedReading c serial))
      | _, _ => none
  | .act w ok =>
      match s.worker w with
      | .reading c serial => some ((s.ack serial ok).handle w c)
      | .pausedReading c serial => some ((s.ack serial ok).handlePaused w c)
      | _ => none
  | .leave w => some (s.move w .left)

end Steps

section Transitions

variable {W : Type} [DecidableEq W]

inductive Transition (s : State W) : Action W → State W → Prop where
  | merge (c : Command) : Transition s (.merge c) { s with merging := s.merging ++ [(c, s.row)] }
  | issue {k : Nat} {call : Command × Option Row} {row : Row} (h : s.merging[k]? = some call)
      (hrow : writeCommand call.2 s.row call.1 s.issued = some row) :
      Transition s (.issue k)
        (State.write { s with merging := s.merging.eraseIdx k } call.1 row)
  | fail {k : Nat} {call : Command × Option Row} (h : s.merging[k]? = some call)
      (hrow : writeCommand call.2 s.row call.1 s.issued = none) :
      Transition s (.issue k) { s with merging := s.merging.eraseIdx k }
  | enter {w : W} (h : s.worker w = .working) : Transition s (.enter w) (s.move w .checking)
  | begin {w : W} {ok : Bool} (h : s.worker w = .checking) (hget : getCommand s.row ok = none) :
      Transition s (.poll w ok) (s.begin w)
  | read {w : W} {ok : Bool} {c : Command} {n : Nat} (h : s.worker w = .checking)
      (hget : getCommand s.row ok = some (c, n)) : Transition s (.poll w ok) (s.move w (.reading c n))
  | wait {w : W} {ok : Bool} (h : s.worker w = .paused) (hget : getCommand s.row ok = none) :
      Transition s (.poll w ok) s
  | readPaused {w : W} {ok : Bool} {c : Command} {n : Nat} (h : s.worker w = .paused)
      (hget : getCommand s.row ok = some (c, n)) :
      Transition s (.poll w ok) (s.move w (.pausedReading c n))
  | handle {w : W} {ok : Bool} {c : Command} {n : Nat} (h : s.worker w = .reading c n) :
      Transition s (.act w ok) ((s.ack n ok).handle w c)
  | handlePaused {w : W} {ok : Bool} {c : Command} {n : Nat} (h : s.worker w = .pausedReading c n) :
      Transition s (.act w ok) ((s.ack n ok).handlePaused w c)
  | leave (w : W) : Transition s (.leave w) (s.move w .left)

theorem transition_of_step {s t : State W} {a : Action W} (h : step s a = some t) :
    Transition s a t := by
  cases a with
  | merge c =>
      cases h
      exact .merge c
  | issue k =>
      obtain ⟨call, hcall, rfl⟩ := Option.map_eq_some_iff.mp h
      rw [State.issue]
      split
      · next row hrow => exact .issue hcall hrow
      · next hrow => exact .fail hcall hrow
  | enter w =>
      cases hw : s.worker w with
      | working =>
          simp only [step, hw, Option.some_inj] at h
          exact h ▸ .enter hw
      | _ => simp [step, hw] at h
  | poll w ok =>
      cases hw : s.worker w with
      | checking =>
          cases hget : getCommand s.row ok with
          | none =>
              simp only [step, hw, hget, Option.some_inj] at h
              exact h ▸ .begin hw hget
          | some p =>
              simp only [step, hw, hget, Option.some_inj] at h
              exact h ▸ .read hw hget
      | paused =>
          cases hget : getCommand s.row ok with
          | none =>
              simp only [step, hw, hget, Option.some_inj] at h
              exact h ▸ .wait hw hget
          | some p =>
              simp only [step, hw, hget, Option.some_inj] at h
              exact h ▸ .readPaused hw hget
      | _ => simp [step, hw] at h
  | act w ok =>
      cases hw : s.worker w with
      | reading c n =>
          simp only [step, hw, Option.some_inj] at h
          exact h ▸ .handle hw
      | pausedReading c n =>
          simp only [step, hw, Option.some_inj] at h
          exact h ▸ .handlePaused hw
      | _ => simp [step, hw] at h
  | leave w =>
      cases h
      exact .leave w

/-- The write that a worker has read and not acknowledged yet. -/
def Position.readSerial : Position → Option Nat
  | .reading _ n | .pausedReading _ n => some n
  | .working | .checking | .paused | .stopped | .left => none

/-- What the moves of a worker leave alone: the row and the record of the writes and of their
acknowledgements. What a worker has read it has read before, or it is in the row. -/
structure SameRow (s t : State W) : Prop where
  row : t.row = s.row
  issued : t.issued = s.issued
  written : t.written = s.written
  acks : t.acks = s.acks
  acted : t.acted = s.acted
  read : ∀ v n, (t.worker v).readSerial = some n →
    (s.worker v).readSerial = some n ∨ ∃ r, s.row = some r ∧ r.serial = n

theorem read_update {s t : State W} {w : W} {p : Position}
    (hworker : t.worker = Function.update s.worker w p)
    (hp : ∀ n, p.readSerial = some n → ∃ r, s.row = some r ∧ r.serial = n) (v : W) (n : Nat)
    (hn : (t.worker v).readSerial = some n) :
    (s.worker v).readSerial = some n ∨ ∃ r, s.row = some r ∧ r.serial = n := by
  rw [hworker, Function.update_apply] at hn
  split at hn
  · exact .inr (hp n hn)
  · exact .inl hn

theorem sameRow_move (s : State W) (w : W) {p : Position}
    (hp : ∀ n, p.readSerial = some n → ∃ r, s.row = some r ∧ r.serial = n) :
    SameRow s (s.move w p) :=
  ⟨rfl, rfl, rfl, rfl, rfl, read_update rfl hp⟩

theorem sameRow_begin (s : State W) (w : W) : SameRow s (s.begin w) :=
  ⟨rfl, rfl, rfl, rfl, rfl, read_update rfl (by rintro n ⟨⟩)⟩

theorem sameRow_handle (s : State W) (w : W) (c : Command) : SameRow s (s.handle w c) := by
  cases c <;> exact ⟨rfl, rfl, rfl, rfl, rfl, read_update rfl (by rintro n ⟨⟩)⟩

theorem sameRow_handlePaused (s : State W) (w : W) (c : Command) :
    SameRow s (s.handlePaused w c) := by
  cases c <;> exact ⟨rfl, rfl, rfl, rfl, rfl, read_update rfl (by rintro n ⟨⟩)⟩

end Transitions

section NoCommandLost

variable {W : Type}

/-- Whatever was acknowledged had been acted on, and until somebody has acted on it the command
written last is what the next `GetCommand` returns. -/
structure NoCommandLost (s : State W) : Prop where
  acked_acted : ∀ n ∈ s.acks, n ∈ s.acted
  pending : ∀ c n, s.written = some (c, n) → n ∉ s.acted → getCommand s.row true = some (c, n)

/-- An acknowledgement that takes effect finds in the row the command its worker has read, or one
that a worker has acted on already; a write finds the row as its call has loaded it. -/
def Undisturbed (s : State W) : Action W → Prop
  | .act w true => ∀ c n r, (s.worker w = .reading c n ∨ s.worker w = .pausedReading c n) →
      s.row = some r → r.serial = n ∨ r.serial ∈ s.acted
  | .issue k => ∀ call ∈ s.merging[k]?, Unchanged call.1 call.2 s.row
  | _ => True

structure AckInv (s : State W) : Prop where
  acked_acted : ∀ n ∈ s.acks, n ∈ s.acted
  row_acked : ∀ r, s.row = some r → r.acked = true → r.serial ∈ s.acks
  row_written : ∀ c n, s.written = some (c, n) → ∃ acked, s.row = some ⟨c, n, acked⟩
  old_row : ∀ r, s.row = some r → r.serial < s.issued
  old_read : ∀ w n, (s.worker w).readSerial = some n → n < s.issued
  old_acted : ∀ n ∈ s.acted, n < s.issued

theorem noCommandLost_of_ackInv {s : State W} (h : AckInv s) : NoCommandLost s := by
  refine ⟨h.acked_acted, ?_⟩
  intro c n hwritten hacted
  obtain ⟨acked, hrow⟩ := h.row_written c n hwritten
  have hpending : acked ≠ true := fun hacked =>
    hacted (h.acked_acted _ (h.row_acked _ hrow hacked))
  simp [getCommand, hrow, Option.filter, hpending]

theorem ackInv_initial : AckInv (initial : State W) where
  acked_acted _ hn := by cases hn
  row_acked _ hr := by cases hr
  row_written _ _ hn := by cases hn
  old_row _ hr := by cases hr
  old_read _ _ hn := by cases hn
  old_acted _ hn := by cases hn

theorem ackInv_of_sameRow {s t : State W} (h : AckInv s) (hst : SameRow s t) : AckInv t where
  acked_acted := by
    rw [hst.acks, hst.acted]
    exact h.acked_acted
  row_acked := by
    rw [hst.row, hst.acks]
    exact h.row_acked
  row_written := by
    rw [hst.row, hst.written]
    exact h.row_written
  old_row := by
    rw [hst.row, hst.issued]
    exact h.old_row
  old_read v n hn := by
    rw [hst.issued]
    obtain hold | ⟨r, hr, rfl⟩ := hst.read v n hn
    · exact h.old_read v n hold
    · exact h.old_row r hr
  old_acted := by
    rw [hst.acted, hst.issued]
    exact h.old_acted

theorem ackInv_merging {s : State W} (h : AckInv s) (merging : List (Command × Option Row)) :
    AckInv { s with merging := merging } :=
  ⟨h.acked_acted, h.row_acked, h.row_written, h.old_row, h.old_read, h.old_acted⟩

theorem ackInv_write {s : State W} (h : AckInv s) (c : Command) :
    AckInv (s.write c ⟨c, s.issued, false⟩) where
  acked_acted := h.acked_acted
  row_acked r hr hacked := by
    cases hr
    cases hacked
  row_written c' n hwritten := by
    cases hwritten
    exact ⟨false, rfl⟩
  old_row r hr := by
    cases hr
    exact Nat.lt_succ_self _
  old_read w n hn := Nat.lt_succ_of_lt (h.old_read w n hn)
  old_acted n hn := Nat.lt_succ_of_lt (h.old_acted n hn)

theorem ackInv_ack {s : State W} (h : AckInv s) {n : Nat} {ok : Bool} (hn : n < s.issued)
    (hown : ok = true → ∀ r, s.row = some r → r.serial = n ∨ r.serial ∈ s.acted) :
    AckInv (s.ack n ok) := by
  have hacted : ∀ m ∈ (s.ack n ok).acted, m < s.issued :=
    List.forall_mem_cons.mpr ⟨hn, h.old_acted⟩
  cases ok with
  | false =>
      refine ⟨?_, h.row_acked, h.row_written, h.old_row, h.old_read, hacted⟩
      intro m hm
      exact List.mem_cons_of_mem _ (h.acked_acted m hm)
  | true =>
      cases hrow : s.row with
      | none =>
          have hnone : (s.ack n true).row = none := by simp [State.ack, ackCommand, hrow]
          refine ⟨?_, ?_, ?_, ?_, h.old_read, hacted⟩
          · intro m hm
            simp only [State.ack, hrow] at hm
            exact List.mem_cons_of_mem _ (h.acked_acted m hm)
          · intro r hr
            rw [hnone] at hr
            cases hr
          · intro c m hwritten
            obtain ⟨_, hr⟩ := h.row_written c m hwritten
            rw [hrow] at hr
            cases hr
          · intro r hr
            rw [hnone] at hr
            cases hr
      | some r =>
          have hsome : (s.ack n true).row = some { r with acked := true } := by
            simp [State.ack, ackCommand, hrow]
          refine ⟨?_, ?_, ?_, ?_, h.old_read, hacted⟩
          · intro m hm
            simp only [State.ack, hrow, if_true, Option.map_some, Option.toList_some,
              List.singleton_append, List.mem_cons] at hm
            rcases hm with rfl | hm
            · rcases hown rfl r hrow with hserial | hacted
              · simp [State.ack, hserial]
              · exact List.mem_cons_of_mem _ hacted
            · exact List.mem_cons_of_mem _ (h.acked_acted m hm)
          · intro r' hr' _
            rw [hsome] at hr'
            cases hr'
            simp [State.ack, hrow]
          · intro c m hwritten
            obtain ⟨acked, hr⟩ := h.row_written c m hwritten
            rw [hrow] at hr
            cases hr
            exact ⟨true, hsome⟩
          · intro r' hr'
            rw [hsome] at hr'
            cases hr'
            exact h.old_row r hrow

theorem serial_of_get {s : State W} {ok : Bool} {c : Command} {n : Nat}
    (h : getCommand s.row ok = some (c, n)) : ∃ r, s.row = some r ∧ r.serial = n := by
  rw [getCommand, Option.map_eq_some_iff] at h
  obtain ⟨r, hr, heq⟩ := h
  cases heq
  exact ⟨r, (Option.filter_eq_some_iff.mp hr).1, rfl⟩

variable [DecidableEq W]

theorem ackInv_step {s t : State W} {a : Action W} (h : AckInv s) (hown : Undisturbed s a)
    (hstep : step s a = some t) : AckInv t := by
  have hnone : ∀ {p : Position}, p.readSerial = none → ∀ n, p.readSerial = some n →
      ∃ r, s.row = some r ∧ r.serial = n := by
    intro p hp n hn
    rw [hp] at hn
    cases hn
  cases transition_of_step hstep with
  | merge c => exact ackInv_merging h _
  | issue hcall hrow =>
      rw [(writeCommand_eq_iff hrow).mpr (hown _ hcall)]
      exact ackInv_write (ackInv_merging h _) _
  | fail hcall hrow => exact ackInv_merging h _
  | enter hw => exact ackInv_of_sameRow h (sameRow_move _ _ (hnone rfl))
  | begin hw hget => exact ackInv_of_sameRow h (sameRow_begin _ _)
  | read hw hget =>
      refine ackInv_of_sameRow h (sameRow_move _ _ ?_)
      rintro n ⟨⟩
      exact serial_of_get hget
  | wait hw hget => exact h
  | readPaused hw hget =>
      refine ackInv_of_sameRow h (sameRow_move _ _ ?_)
      rintro n ⟨⟩
      exact serial_of_get hget
  | handle hw =>
      refine ackInv_of_sameRow (ackInv_ack h ?_ ?_) (sameRow_handle _ _ _)
      · exact h.old_read _ _ (by rw [hw, Position.readSerial])
      · rintro rfl r hr
        exact hown _ _ r (.inl hw) hr
  | handlePaused hw =>
      refine ackInv_of_sameRow (ackInv_ack h ?_ ?_) (sameRow_handlePaused _ _ _)
      · exact h.old_read _ _ (by rw [hw, Position.readSerial])
      · rintro rfl r hr
        exact hown _ _ r (.inr hw) hr
  | leave w => exact ackInv_of_sameRow h (sameRow_move _ _ (hnone rfl))

/-- The acknowledgement of a row that nobody read shows in the record, and so does a write that
leaves another command or an acknowledgement in the row. -/
theorem undisturbed_of_noCommandLost {s t : State W} {a : Action W} (hinv : AckInv s)
    (hstep : step s a = some t) (h : NoCommandLost t) : Undisturbed s a := by
  cases a with
  | act w ok =>
      cases ok with
      | false => trivial
      | true =>
          intro c n r hw hr
          have hacks : ∀ u : State W, SameRow (s.ack n true) u → NoCommandLost u →
              r.serial = n ∨ r.serial ∈ s.acted := by
            intro u hu hlost
            have hmem : r.serial ∈ u.acks := by
              rw [hu.acks]
              simp [State.ack, hr]
            have hacted := hlost.acked_acted _ hmem
            rw [hu.acted] at hacted
            exact List.mem_cons.mp hacted
          rcases hw with hw | hw
          · simp only [step, hw, Option.some_inj] at hstep
            exact hacks t (hstep ▸ sameRow_handle _ _ _) h
          · simp only [step, hw, Option.some_inj] at hstep
            exact hacks t (hstep ▸ sameRow_handlePaused _ _ _) h
  | issue k =>
      intro call hcall
      obtain ⟨call', hcall', rfl⟩ := Option.map_eq_some_iff.mp hstep
      obtain rfl := Option.some.inj (hcall.symm.trans hcall')
      cases hrow : writeCommand call.2 s.row call.1 s.issued with
      | none =>
          intro l hl r hr
          rw [hl, hr, writeCommand] at hrow
          cases hrow
      | some row =>
          rw [State.issue, hrow] at h
          have hget := h.pending call.1 s.issued rfl fun hmem =>
            Nat.lt_irrefl _ (hinv.old_acted _ hmem)
          rw [← writeCommand_eq_iff hrow]
          rw [getCommand, Option.map_eq_some_iff] at hget
          obtain ⟨r, hr, heq⟩ := hget
          obtain ⟨hsome, hpending⟩ := Option.filter_eq_some_iff.mp hr
          cases hsome
          obtain ⟨hcommand, hserial⟩ := Prod.mk.inj heq
          have hacked : row.acked = false := by simpa using hpending
          cases row
          cases hcommand
          cases hserial
          cases hacked
          rfl
  | _ => trivial

/-- Along a run of any number of workers and any writes, no command is lost in any state exactly
when every acknowledgement is of the command its worker has read and every write finds the row as
it was loaded. -/
theorem noCommandLost_along_run_iff (as : List (Action W))
    (hrun : (runSteps step initial as).isSome) :
    (∀ pre s, pre <+: as → runSteps step initial pre = some s → NoCommandLost s) ↔
      ∀ pre a s, pre ++ [a] <+: as → runSteps step initial pre = some s → Undisturbed s a :=
  along_run_iff ackInv_initial (fun _ => noCommandLost_of_ackInv)
    (fun _ _ _ h hown hstep => ackInv_step h hown hstep)
    (fun _ _ _ h hstep ht => undisturbed_of_noCommandLost h hstep ht) hrun

/-- One worker pauses and resumes, a command at a time. -/
def pauseThenResume : List (Action Unit) :=
  [.merge .pause, .issue 0, .enter (), .poll () true, .act () true, .merge .resume, .issue 0,
    .poll () true, .act () true]

theorem pauseThenResume_run_iff :
    (∀ pre s, pre <+: pauseThenResume → runSteps step initial pre = some s → NoCommandLost s) ↔
      ∀ pre a s, pre ++ [a] <+: pauseThenResume → runSteps step initial pre = some s →
        Undisturbed s a :=
  noCommandLost_along_run_iff pauseThenResume (by decide)

/-- The control plane writes STOP while the worker stands between the read of PAUSE and its
acknowledgement. -/
def stopWhileReading : List (Action Unit) :=
  [.merge .pause, .issue 0, .enter (), .poll () true, .merge .stop, .issue 0, .act () true]

/-- The worker acknowledges PAUSE between the two statements that write STOP. -/
def stopAroundAck : List (Action Unit) :=
  [.merge .pause, .issue 0, .enter (), .poll () true, .merge .stop, .act () true, .issue 0]

/-- The STOP stands acknowledged in the row, which nobody has read and nobody will. -/
def StopLost (run : List (Action Unit)) : Prop :=
  ∃ s, runSteps step initial run = some s ∧ ¬ NoCommandLost s ∧
    s.row = some ⟨.stop, 1, true⟩ ∧ getCommand s.row true = none ∧ s.worker () = .paused

theorem stopLost_of_run {run : List (Action Unit)}
    (h : (runSteps step initial run).any (fun s =>
      decide (1 ∈ s.acks) && decide (1 ∉ s.acted) && decide (s.row = some ⟨.stop, 1, true⟩) &&
        decide (s.worker () = .paused)) = true) : StopLost run := by
  obtain ⟨s, hs, hfacts⟩ := (Option.any_eq_true _ _).mp h
  simp only [Bool.and_eq_true, decide_eq_true_eq] at hfacts
  obtain ⟨⟨⟨hack, hacted⟩, hrow⟩, hworker⟩ := hfacts
  refine ⟨s, hs, fun h => hacted (h.acked_acted 1 hack), hrow, ?_, hworker⟩
  rw [hrow]
  rfl

theorem stop_is_lost : StopLost stopWhileReading ∧ StopLost stopAroundAck :=
  ⟨stopLost_of_run (by decide), stopLost_of_run (by decide)⟩

end NoCommandLost

end SqlOptima.CommandRow
