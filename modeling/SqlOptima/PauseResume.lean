import SqlOptima.CommandRow

namespace SqlOptima.PauseResume

open TransitionSystem CommandRow

variable {W : Type}

/-- The command a worker has read and not acknowledged yet. -/
def readCommand : Position → Option Command
  | .reading c _ => some c
  | .pausedReading c _ => some c
  | _ => none

/-- The worker will not start a chunk without another command. -/
def held : Position → Bool
  | .working => false
  | .checking => false
  | _ => true

/-- A command is written while nobody stands between a read and its acknowledgement, and finds the
row as its call has loaded it; a pause is acknowledged once every other worker has read it, waits or
is gone, and a resume once no other worker waits without having read it. -/
def Orderly (s : State W) : Action W → Prop
  | .issue k => (∀ w, readCommand (s.worker w) = none) ∧
      ∀ call ∈ s.merging[k]?, Unchanged call.1 call.2 s.row
  | .act w true =>
      (readCommand (s.worker w) = some .pause → ∀ v, v ≠ w → held (s.worker v) = true) ∧
      (readCommand (s.worker w) = some .resume → ∀ v, v ≠ w → s.worker v ≠ .paused)
  | _ => True

section Invariant

def rowCommand (s : State W) : Option Command := s.row.map Row.command

def PauseOk (p : Position) : Prop :=
  held p = true ∧ ∀ c n, p = .reading c n → c = .pause

def ResumeOk (p : Position) : Prop :=
  p ≠ .paused ∧ ∀ c n, p = .pausedReading c n → c = .resume

/-- Every command in a worker's hands is the one in the row; an acknowledged pause holds all
workers, and after an acknowledged resume none waits. -/
structure Inv (s : State W) : Prop where
  current : ∀ w c, readCommand (s.worker w) = some c → rowCommand s = some c
  pause : s.pauseAcked = true → rowCommand s ≠ some .resume ∧ ∀ w, PauseOk (s.worker w)
  resume : s.resumeAcked = true → rowCommand s ≠ some .pause ∧ ∀ w, ResumeOk (s.worker w)
  no_start : s.startedPaused = false

theorem inv_initial : Inv (initial : State W) where
  current _ _ h := by cases h
  pause h := by cases h
  resume h := by cases h
  no_start := rfl

theorem inv_merging {s : State W} (h : Inv s) (merging : List (Command × Option Row)) :
    Inv { s with merging := merging } :=
  ⟨h.current, h.pause, h.resume, h.no_start⟩

theorem inv_write {s : State W} (h : Inv s) (hmid : ∀ w, readCommand (s.worker w) = none)
    (c : Command) : Inv (s.write c ⟨c, s.issued, false⟩) where
  current w d hd := by
    have hnone := hmid w
    rw [show s.worker w = (s.write c ⟨c, s.issued, false⟩).worker w from rfl, hd] at hnone
    cases hnone
  pause hack := by
    simp only [State.write, Bool.false_and, Bool.or_false, Bool.and_eq_true, bne_iff_ne,
      ne_eq] at hack
    exact ⟨fun heq => hack.2 (Option.some_inj.mp heq), (h.pause hack.1).2⟩
  resume hack := by
    simp only [State.write, Bool.false_and, Bool.or_false, Bool.and_eq_true, bne_iff_ne,
      ne_eq] at hack
    exact ⟨fun heq => hack.2 (Option.some_inj.mp heq), (h.resume hack.1).2⟩
  no_start := h.no_start

theorem pauseAcked_of_not_held {s : State W} (h : Inv s) {w : W} (hw : held (s.worker w) = false) :
    s.pauseAcked = false := by
  by_contra hack
  have hheld := ((h.pause (Bool.not_eq_false _ ▸ hack)).2 w).1
  rw [hw] at hheld
  cases hheld

theorem rowCommand_of_get {s : State W} {ok : Bool} {c : Command} {n : Nat}
    (h : getCommand s.row ok = some (c, n)) : rowCommand s = some c := by
  rw [getCommand, Option.map_eq_some_iff] at h
  obtain ⟨r, hr, heq⟩ := h
  cases heq
  rw [rowCommand, (Option.filter_eq_some_iff.mp hr).1]
  rfl

theorem rowCommand_ack (s : State W) (n : Nat) (ok : Bool) :
    rowCommand (s.ack n ok) = rowCommand s := by
  cases ok with
  | false => rfl
  | true => cases hrow : s.row <;> simp [rowCommand, State.ack, ackCommand, hrow]

theorem pauseAcked_ack {s : State W} {n : Nat} {ok : Bool} (h : (s.ack n ok).pauseAcked = true) :
    s.pauseAcked = true ∨ ok = true ∧ rowCommand s = some .pause := by
  simp only [State.ack, Bool.or_eq_true] at h
  rcases h with h | h
  · exact .inl h
  · cases ok with
    | false => cases h
    | true =>
        rw [if_pos rfl, Option.any_eq_true] at h
        obtain ⟨r, hr, hc⟩ := h
        exact .inr ⟨rfl, by rw [rowCommand, hr, Option.map_some, eq_of_beq hc]⟩

theorem resumeAcked_ack {s : State W} {n : Nat} {ok : Bool} (h : (s.ack n ok).resumeAcked = true) :
    s.resumeAcked = true ∨ ok = true ∧ rowCommand s = some .resume := by
  simp only [State.ack, Bool.or_eq_true] at h
  rcases h with h | h
  · exact .inl h
  · cases ok with
    | false => cases h
    | true =>
        rw [if_pos rfl, Option.any_eq_true] at h
        obtain ⟨r, hr, hc⟩ := h
        exact .inr ⟨rfl, by rw [rowCommand, hr, Option.map_some, eq_of_beq hc]⟩

/-- What an acknowledged pause says of the other workers. -/
theorem others_pauseOk {s : State W} {w : W} {n : Nat} {ok : Bool} (h : Inv s)
    (hheld : ok = true → rowCommand s = some .pause → ∀ v, v ≠ w → held (s.worker v) = true)
    (hack : (s.ack n ok).pauseAcked = true) :
    rowCommand s ≠ some .resume ∧ ∀ v, v ≠ w → PauseOk (s.worker v) := by
  rcases pauseAcked_ack hack with hack | ⟨hok, hrow⟩
  · exact ⟨(h.pause hack).1, fun v _ => (h.pause hack).2 v⟩
  · refine ⟨by simp [hrow], ?_⟩
    intro v hv
    refine ⟨hheld hok hrow v hv, ?_⟩
    intro c m hc
    have hcurrent := h.current v c (by simp [hc, readCommand])
    rw [hrow, Option.some_inj] at hcurrent
    exact hcurrent.symm

theorem others_resumeOk {s : State W} {w : W} {n : Nat} {ok : Bool} (h : Inv s)
    (hawake : ok = true → rowCommand s = some .resume → ∀ v, v ≠ w → s.worker v ≠ .paused)
    (hack : (s.ack n ok).resumeAcked = true) :
    rowCommand s ≠ some .pause ∧ ∀ v, v ≠ w → ResumeOk (s.worker v) := by
  rcases resumeAcked_ack hack with hack | ⟨hok, hrow⟩
  · exact ⟨(h.resume hack).1, fun v _ => (h.resume hack).2 v⟩
  · refine ⟨by simp [hrow], ?_⟩
    intro v hv
    refine ⟨hawake hok hrow v hv, ?_⟩
    intro c m hc
    have hcurrent := h.current v c (by simp [hc, readCommand])
    rw [hrow, Option.some_inj] at hcurrent
    exact hcurrent.symm

theorem pauseAcked_ack_of_reading {s : State W} {w : W} {c : Command} {n : Nat} {ok : Bool} (h : Inv s)
    (hw : s.worker w = .reading c n) (hc : c ≠ .pause) : (s.ack n ok).pauseAcked = false := by
  have hrow := h.current w c (by simp [hw, readCommand])
  by_contra hack
  rcases pauseAcked_ack (Bool.not_eq_false _ ▸ hack) with hack | ⟨-, hpause⟩
  · exact hc (((h.pause hack).2 w).2 c n hw)
  · rw [hrow, Option.some_inj] at hpause
    exact hc hpause

theorem resumeAcked_ack_of_pausedReading {s : State W} {w : W} {c : Command} {n : Nat} {ok : Bool}
    (h : Inv s) (hw : s.worker w = .pausedReading c n) (hc : c ≠ .resume) :
    (s.ack n ok).resumeAcked = false := by
  have hrow := h.current w c (by simp [hw, readCommand])
  by_contra hack
  rcases resumeAcked_ack (Bool.not_eq_false _ ▸ hack) with hack | ⟨-, hresume⟩
  · exact hc (((h.resume hack).2 w).2 c n hw)
  · rw [hrow, Option.some_inj] at hresume
    exact hc hresume

end Invariant

section Steps

variable [DecidableEq W]

/-- One worker moves: the others and the row's command stay, and the new position agrees with the
row and with the pause or resume in force. -/
theorem inv_update {s t : State W} {w : W} {p : Position} (h : Inv s)
    (hworker : t.worker = Function.update s.worker w p) (hrow : rowCommand t = rowCommand s)
    (hread : ∀ c, readCommand p = some c → rowCommand s = some c)
    (hpause : t.pauseAcked = true → rowCommand s ≠ some .resume ∧ PauseOk p ∧
      ∀ v, v ≠ w → PauseOk (s.worker v))
    (hresume : t.resumeAcked = true → rowCommand s ≠ some .pause ∧ ResumeOk p ∧
      ∀ v, v ≠ w → ResumeOk (s.worker v))
    (hstart : t.startedPaused = false) : Inv t where
  current v c hc := by
    rw [hrow]
    rw [hworker, Function.update_apply] at hc
    split at hc
    · exact hread c hc
    · exact h.current v c hc
  pause hack := by
    obtain ⟨hne, hp, hothers⟩ := hpause hack
    rw [hrow, hworker]
    refine ⟨hne, ?_⟩
    intro v
    rw [Function.update_apply]
    split
    · exact hp
    · next hv => exact hothers v hv
  resume hack := by
    obtain ⟨hne, hp, hothers⟩ := hresume hack
    rw [hrow, hworker]
    refine ⟨hne, ?_⟩
    intro v
    rw [Function.update_apply]
    split
    · exact hp
    · next hv => exact hothers v hv
  no_start := hstart

/-- The same for a worker that acts on the command it has read. -/
theorem inv_act {s t : State W} {w : W} {c : Command} (n : Nat) {ok : Bool} {p : Position} (h : Inv s)
    (hread : readCommand (s.worker w) = some c) (hord : Orderly s (.act w ok))
    (hworker : t.worker = Function.update s.worker w p) (hrow : t.row = (s.ack n ok).row)
    (hpauseAcked : t.pauseAcked = (s.ack n ok).pauseAcked)
    (hresumeAcked : t.resumeAcked = (s.ack n ok).resumeAcked) (hmid : readCommand p = none)
    (hpause : t.pauseAcked = true → PauseOk p) (hresume : t.resumeAcked = true → ResumeOk p)
    (hstart : t.startedPaused = false) : Inv t := by
  have hcommand := h.current w c hread
  have hheld : ok = true → rowCommand s = some .pause → ∀ v, v ≠ w → held (s.worker v) = true := by
    rintro rfl hc
    exact hord.1 (by rw [hread, ← hcommand, hc])
  have hawake : ok = true → rowCommand s = some .resume → ∀ v, v ≠ w → s.worker v ≠ .paused := by
    rintro rfl hc
    exact hord.2 (by rw [hread, ← hcommand, hc])
  have hsame : rowCommand t = rowCommand s := by
    rw [← rowCommand_ack s n ok, rowCommand, hrow]
    rfl
  apply inv_update h hworker hsame
  · intro d hd
    rw [hmid] at hd
    cases hd
  · intro hack
    obtain ⟨hne, hothers⟩ := others_pauseOk h hheld (hpauseAcked ▸ hack)
    exact ⟨hne, hpause hack, hothers⟩
  · intro hack
    obtain ⟨hne, hothers⟩ := others_resumeOk h hawake (hresumeAcked ▸ hack)
    exact ⟨hne, hresume hack, hothers⟩
  · exact hstart

theorem pauseOk_paused : PauseOk .paused := by
  simp [PauseOk, held]

theorem pauseOk_stopped : PauseOk .stopped := by
  simp [PauseOk, held]

theorem resumeOk_stopped : ResumeOk .stopped := by
  simp [ResumeOk]

theorem resumeOk_working : ResumeOk .working := by
  simp [ResumeOk]

theorem resumeOk_checking : ResumeOk .checking := by
  simp [ResumeOk]

theorem inv_handle {s : State W} {w : W} {c : Command} {n : Nat} {ok : Bool} (h : Inv s)
    (hw : s.worker w = .reading c n) (hord : Orderly s (.act w ok)) :
    Inv ((s.ack n ok).handle w c) := by
  have hread : readCommand (s.worker w) = some c := by rw [hw, readCommand]
  have hcommand := h.current w c hread
  have hbegin : c ≠ .pause → (s.startedPaused || (s.ack n ok).pauseAcked) = false := by
    intro hc
    rw [h.no_start, pauseAcked_ack_of_reading h hw hc]
    rfl
  cases c with
  | stop =>
      exact inv_act n h hread hord rfl rfl rfl rfl rfl (fun _ => pauseOk_stopped)
        (fun _ => resumeOk_stopped) h.no_start
  | cancel =>
      exact inv_act n h hread hord rfl rfl rfl rfl rfl (fun _ => pauseOk_stopped)
        (fun _ => resumeOk_stopped) h.no_start
  | pause =>
      refine inv_act n h hread hord rfl rfl rfl rfl rfl (fun _ => pauseOk_paused) ?_ h.no_start
      intro hack
      rcases resumeAcked_ack (n := n) hack with hack | ⟨-, hresume⟩
      · exact absurd hcommand (h.resume hack).1
      · rw [hcommand] at hresume
        cases hresume
  | resume =>
      refine inv_act n h hread hord rfl rfl rfl rfl rfl ?_ (fun _ => resumeOk_working)
        (hbegin (by decide))
      intro hack
      exact absurd hack (by rw [Bool.not_eq_true]; exact pauseAcked_ack_of_reading h hw (by decide))
  | start =>
      refine inv_act n h hread hord rfl rfl rfl rfl rfl ?_ (fun _ => resumeOk_working)
        (hbegin (by decide))
      intro hack
      exact absurd hack (by rw [Bool.not_eq_true]; exact pauseAcked_ack_of_reading h hw (by decide))

theorem inv_handlePaused {s : State W} {w : W} {c : Command} {n : Nat} {ok : Bool} (h : Inv s)
    (hw : s.worker w = .pausedReading c n) (hord : Orderly s (.act w ok)) :
    Inv ((s.ack n ok).handlePaused w c) := by
  have hread : readCommand (s.worker w) = some c := by rw [hw, readCommand]
  have hcommand := h.current w c hread
  have hawake : c ≠ .resume → (s.ack n ok).resumeAcked = true → ResumeOk .paused := by
    intro hc hack
    rw [resumeAcked_ack_of_pausedReading h hw hc] at hack
    cases hack
  cases c with
  | stop =>
      exact inv_act n h hread hord rfl rfl rfl rfl rfl (fun _ => pauseOk_stopped)
        (fun _ => resumeOk_stopped) h.no_start
  | cancel =>
      exact inv_act n h hread hord rfl rfl rfl rfl rfl (fun _ => pauseOk_stopped)
        (fun _ => resumeOk_stopped) h.no_start
  | pause =>
      exact inv_act n h hread hord rfl rfl rfl rfl rfl (fun _ => pauseOk_paused) (hawake (by decide))
        h.no_start
  | start =>
      exact inv_act n h hread hord rfl rfl rfl rfl rfl (fun _ => pauseOk_paused) (hawake (by decide))
        h.no_start
  | resume =>
      refine inv_act n h hread hord rfl rfl rfl rfl rfl ?_ (fun _ => resumeOk_checking) h.no_start
      intro hack
      rcases pauseAcked_ack (n := n) hack with hack | ⟨-, hpause⟩
      · exact absurd hcommand (h.pause hack).1
      · rw [hcommand] at hpause
        cases hpause

/-- A move that acknowledges nothing: the worker leaves an open position, or the new one agrees with
any pause and resume in force. -/
theorem inv_move {s : State W} {w : W} {p : Position} (h : Inv s)
    (hread : ∀ c, readCommand p = some c → rowCommand s = some c)
    (hpause : s.pauseAcked = true → PauseOk p) (hresume : s.resumeAcked = true → ResumeOk p) :
    Inv (s.move w p) :=
  inv_update h rfl rfl hread
    (fun hack => ⟨(h.pause hack).1, hpause hack, fun v _ => (h.pause hack).2 v⟩)
    (fun hack => ⟨(h.resume hack).1, hresume hack, fun v _ => (h.resume hack).2 v⟩) h.no_start

theorem inv_begin {s : State W} {w : W} (h : Inv s) (hw : s.worker w = .checking) :
    Inv (s.begin w) := by
  have hnot := pauseAcked_of_not_held h (show held (s.worker w) = false by rw [hw]; rfl)
  refine inv_update (t := s.begin w) (w := w) (p := .working) h rfl rfl ?_ ?_ ?_ ?_
  · intro c hc
    cases hc
  · intro hack
    exact absurd (hnot.symm.trans hack) (by decide)
  · intro hack
    exact ⟨(h.resume hack).1, resumeOk_working, fun v _ => (h.resume hack).2 v⟩
  · show (s.startedPaused || s.pauseAcked) = false
    rw [h.no_start, hnot]
    rfl

theorem inv_step {s t : State W} {a : Action W} (h : Inv s) (hord : Orderly s a)
    (hstep : step s a = some t) : Inv t := by
  cases transition_of_step hstep with
  | merge c => exact inv_merging h _
  | @issue k call row hcall hrow =>
      rw [(writeCommand_eq_iff hrow).mpr (hord.2 _ hcall)]
      exact inv_write (inv_merging h (s.merging.eraseIdx k)) hord.1 call.1
  | fail hcall hrow => exact inv_merging h _
  | enter hw =>
      have hnot := pauseAcked_of_not_held h (show held (s.worker _) = false by rw [hw]; rfl)
      apply inv_move h
      · intro c hc
        cases hc
      · intro hack
        exact absurd (hnot.symm.trans hack) (by decide)
      · intro _
        exact resumeOk_checking
  | begin hw hget => exact inv_begin h hw
  | read hw hget =>
      have hnot := pauseAcked_of_not_held h (show held (s.worker _) = false by rw [hw]; rfl)
      apply inv_move h
      · intro c hc
        cases hc
        exact rowCommand_of_get hget
      · intro hack
        exact absurd (hnot.symm.trans hack) (by decide)
      · intro _
        simp [ResumeOk]
  | wait hw hget => exact h
  | readPaused hw hget =>
      apply inv_move h
      · intro c hc
        cases hc
        exact rowCommand_of_get hget
      · intro _
        simp [PauseOk, held]
      · intro hack
        exact absurd hw ((h.resume hack).2 _).1
  | handle hw => exact inv_handle h hw hord
  | handlePaused hw => exact inv_handlePaused h hw hord
  | leave w =>
      apply inv_move h
      · intro c hc
        cases hc
      · intro _
        simp [PauseOk, held]
      · intro _
        simp [ResumeOk]

/-- No chunk was started between the acknowledgement of a pause and the next resume, and after the
acknowledgement of a resume the next poll of a waiting worker takes it out of the wait. -/
structure PauseResumeHold (s : State W) : Prop where
  no_start : s.startedPaused = false
  no_wait : s.resumeAcked = true → ∀ w t, s.worker w = .paused → step s (.poll w true) = some t →
    t.worker w ≠ .paused

theorem pauseResumeHold_of_orderly {s : State W} (h : ReachesBy step Orderly initial s) :
    PauseResumeHold s := by
  have hinv : Inv s := h.invariant inv_initial fun _ _ _ ha hord hstep => inv_step ha hord hstep
  refine ⟨hinv.no_start, ?_⟩
  intro hack w _ hw
  exact absurd hw ((hinv.resume hack).2 w).1

end Steps

section TwoWorkers

instance (s : State Bool) (a : Action Bool) : Decidable (Orderly s a) :=
  match a with
  | .issue k => inferInstanceAs (Decidable ((∀ w, readCommand (s.worker w) = none) ∧
      ∀ call ∈ s.merging[k]?, Unchanged call.1 call.2 s.row))
  | .merge _ => inferInstanceAs (Decidable True)
  | .act w true => inferInstanceAs (Decidable
      ((readCommand (s.worker w) = some .pause → ∀ v, v ≠ w → held (s.worker v) = true) ∧
        (readCommand (s.worker w) = some .resume → ∀ v, v ≠ w → s.worker v ≠ .paused)))
  | .act _ false => inferInstanceAs (Decidable True)
  | .enter _ => inferInstanceAs (Decidable True)
  | .poll _ _ => inferInstanceAs (Decidable True)
  | .leave _ => inferInstanceAs (Decidable True)

def bothRead : List (Action Bool) :=
  [.enter false, .enter true, .merge .pause, .issue 0, .poll false true, .poll true true,
    .act false true, .act true true, .merge .resume, .issue 0, .poll false true, .poll true true,
    .act false true, .act true true]

theorem bothRead_hold :
    ∃ s : State Bool, ReachesBy step Orderly initial s ∧ PauseResumeHold s ∧ s.resumeAcked = true ∧
      s.acks.length = 4 := by
  have hrun : (runSteps (guarded (fun s a => decide (Orderly s a)) step) initial bothRead).any
      (fun s => s.resumeAcked && decide (s.acks.length = 4)) = true := by
    decide +kernel
  obtain ⟨s, hs, hfacts⟩ := (Option.any_eq_true _ _).mp hrun
  simp only [Bool.and_eq_true, decide_eq_true_eq] at hfacts
  have hreach := reachesBy_of_guarded (reaches_of_runSteps hs)
  simp only [decide_eq_true_eq] at hreach
  exact ⟨s, hreach, pauseResumeHold_of_orderly hreach, hfacts⟩

/-- The first worker acknowledges PAUSE; the second polls, finds nothing and starts a chunk. -/
def secondStarts : List (Action Bool) :=
  [.merge .pause, .issue 0, .enter false, .enter true, .poll false true, .act false true,
    .poll true true]

/-- Both workers wait; the first acknowledges RESUME and the second never sees it. -/
def secondWaits : List (Action Bool) :=
  [.enter false, .enter true, .merge .pause, .issue 0, .poll false true, .poll true true,
    .act false true, .act true true, .merge .resume, .issue 0, .poll false true, .act false true]

theorem pause_and_resume_miss_a_worker :
    (∃ s, runSteps step initial secondStarts = some s ∧ ¬ PauseResumeHold s) ∧
      ∃ s, runSteps step initial secondWaits = some s ∧ ¬ PauseResumeHold s := by
  constructor
  · have hrun : (runSteps step initial secondStarts).any (fun s => s.startedPaused) = true := by
      decide +kernel
    obtain ⟨s, hs, hstarted⟩ := (Option.any_eq_true _ _).mp hrun
    refine ⟨s, hs, ?_⟩
    intro h
    exact absurd (h.no_start.symm.trans hstarted) (by decide)
  · have hrun : (runSteps step initial secondWaits).any (fun s =>
        s.resumeAcked && decide (s.worker true = .paused) &&
          (step s (.poll true true)).any fun t => decide (t.worker true = .paused)) = true := by
      decide +kernel
    obtain ⟨s, hs, hfacts⟩ := (Option.any_eq_true _ _).mp hrun
    simp only [Bool.and_eq_true, decide_eq_true_eq] at hfacts
    obtain ⟨⟨hack, hw⟩, hnext⟩ := hfacts
    obtain ⟨t, ht, hwaits⟩ := (Option.any_eq_true _ _).mp hnext
    refine ⟨s, hs, ?_⟩
    intro h
    exact h.no_wait hack true t hw ht (of_decide_eq_true hwaits)

end TwoWorkers

end SqlOptima.PauseResume
