import SqlOptima.ReplicationRuntime

namespace SqlOptima.RuntimeConsistency

open SqlOptima.TransitionSystem
open SqlOptima.ReplicationRuntime

section Properties

/-- The state machine and the agent of a runtime agree. A paused stream captures
nothing: no snapshot is being taken and no loop is inside an iteration. -/
structure Consistent (rt : Runtime) : Prop where
  streaming : rt.fsm.current = .cdcStreaming →
    ∃ a, rt.agent = some a ∧ a.running = true ∧ a.paused = false
  paused : rt.fsm.current = .paused →
    rt.phase ≠ .snapshotting ∧ ∀ a ∈ rt.agent, a.inFlight = 0
  failed : rt.fsm.current = .failed → rt.failure ≠ some (.refused .paused)

/-- Every runtime is consistent, and a start that raised is not registered. -/
def ManagerConsistent (s : Manager) : Prop :=
  (∀ i, Consistent (s.runtimes i)) ∧
    ∀ i, (s.runtimes i).phase = .raised → s.registered ≠ some i

def CanPause (st : ReplicationState) : Prop :=
  st = .snapshotting ∨ st = .cdcCatchup ∨ st = .cdcStreaming

instance (st : ReplicationState) : Decidable (CanPause st) :=
  inferInstanceAs (Decidable (_ ∨ _))

/-- Discovery answers without giving up control, and finds a table. -/
def Prompt (d : Discovery) : Prop := ∃ n, d = .found (n + 1)

/-- What a step must meet: a target connection; a start that raises only after
its stream was removed; tables that are discovered at once; a pause that comes
neither during the snapshot nor inside an iteration of a loop. -/
def Orderly (s : Manager) : Action → Prop
  | .start target => s.registered = none → target = true
  | .loaded i needSnapshot d =>
      ((s.runtimes i).fsm.current = .starting → needSnapshot = false → Prompt d) ∧
        ((s.runtimes i).fsm.current ≠ .starting → s.registered ≠ some i)
  | .loadFailed i => s.registered ≠ some i
  | .snapshotEnded i ok d =>
      (ok = true → (s.runtimes i).fsm.current = .snapshotting → Prompt d) ∧
        ((ok = false ∨ (s.runtimes i).fsm.current ≠ .snapshotting) → s.registered ≠ some i)
  | .pause =>
      ∀ i ∈ s.registered, CanPause (s.runtimes i).fsm.current →
        (s.runtimes i).phase ≠ .snapshotting ∧ ∀ a ∈ (s.runtimes i).agent, a.inFlight = 0
  | _ => True

end Properties

/-- What holds of a runtime in each state of its machine along an orderly
run. -/
def Inv (rt : Runtime) : Prop :=
  match rt.fsm.current with
  | .idle => rt = .unstarted
  | .starting => rt.phase = .loading ∨ rt.phase = .raised
  | .snapshotting =>
      rt.phase = .snapshotting ∧ ∃ a, rt.agent = some a ∧ a.running = false ∧ a.paused = false
  | .cdcCatchup => False
  | .cdcStreaming =>
      rt.phase = .returned ∧ ∃ a, rt.agent = some a ∧ a.running = true ∧ a.paused = false
  | .paused =>
      rt.phase = .returned ∧ rt.fsm.prePause = some .cdcStreaming ∧
        ∃ a, rt.agent = some a ∧ a.running = true ∧ a.paused = true ∧ a.inFlight = 0
  | .stopping => rt.phase ≠ .discovering
  | .completed => rt.phase ≠ .discovering
  | .failed => rt.phase = .raised ∧ rt.failure ≠ some (.refused .paused)

theorem Inv.consistent {rt : Runtime} (h : Inv rt) : Consistent rt := by
  obtain ⟨⟨cur, pre⟩, agent, phase, failure, stops⟩ := rt
  refine ⟨?_, ?_, ?_⟩
  · rintro rfl
    exact h.2
  · rintro rfl
    obtain ⟨rfl, -, a, rfl, -, -, hzero⟩ := h
    refine ⟨StartPhase.noConfusion, ?_⟩
    rintro b hb
    cases hb
    exact hzero
  · rintro rfl
    exact h.2

theorem Inv.notDiscovering {rt : Runtime} (h : Inv rt) : rt.phase ≠ .discovering := by
  obtain ⟨⟨cur, pre⟩, agent, phase, failure, stops⟩ := rt
  rintro rfl
  cases cur
  all_goals simp [Inv, Runtime.unstarted] at h

theorem suppressed_pause (sm : StateMachine) :
    sm.suppressed .pause = if CanPause sm.current then ⟨.paused, some sm.current⟩ else sm := by
  obtain ⟨cur, pre⟩ := sm
  cases cur
  all_goals rfl

section Commands

/-- The commands keep the invariant; a pause only while nothing is captured. -/
theorem Inv.pause {rt : Runtime} (h : Inv rt)
    (hidle : CanPause rt.fsm.current →
      rt.phase ≠ .snapshotting ∧ ∀ a ∈ rt.agent, a.inFlight = 0) :
    Inv rt.pause := by
  obtain ⟨⟨cur, pre⟩, agent, phase, failure, stops⟩ := rt
  cases cur with
  | idle =>
      cases h
      rfl
  | starting => exact h
  | snapshotting =>
      exact absurd h.1 (hidle (Or.inl rfl)).1
  | cdcCatchup => exact h.elim
  | cdcStreaming =>
      obtain ⟨hphase, a, rfl, hrun, -⟩ := h
      exact ⟨hphase, rfl, a.pause, rfl, hrun, rfl, (hidle (Or.inr (Or.inr rfl))).2 a rfl⟩
  | paused =>
      obtain ⟨hphase, hpre, a, rfl, hrun, -, hzero⟩ := h
      exact ⟨hphase, hpre, a.pause, rfl, hrun, rfl, hzero⟩
  | stopping => exact h
  | completed => exact h
  | failed => exact h

theorem Inv.resume {rt : Runtime} (h : Inv rt) : Inv rt.resume := by
  obtain ⟨⟨cur, pre⟩, agent, phase, failure, stops⟩ := rt
  cases cur with
  | idle =>
      cases h
      rfl
  | starting => exact h
  | snapshotting =>
      obtain ⟨hphase, a, rfl, hrun, -⟩ := h
      exact ⟨hphase, a.resume, rfl, hrun, rfl⟩
  | cdcCatchup => exact h.elim
  | cdcStreaming =>
      obtain ⟨hphase, a, rfl, hrun, -⟩ := h
      exact ⟨hphase, a.resume, rfl, hrun, rfl⟩
  | paused =>
      obtain ⟨hphase, hpre, a, rfl, hrun, -, -⟩ := h
      cases hpre
      exact ⟨hphase, a.resume, rfl, hrun, rfl⟩
  | stopping => exact h
  | completed => exact h
  | failed => exact h

theorem Inv.stopBegin {rt : Runtime} (h : Inv rt) (hstarted : rt.fsm.current ≠ .idle) :
    Inv rt.stopBegin := by
  have hphase := h.notDiscovering
  obtain ⟨⟨cur, pre⟩, agent, phase, failure, stops⟩ := rt
  cases cur with
  | idle => exact absurd rfl hstarted
  | starting => exact hphase
  | snapshotting => exact hphase
  | cdcCatchup => exact h.elim
  | cdcStreaming => exact hphase
  | paused => exact hphase
  | stopping => exact hphase
  | completed => exact hphase
  | failed => exact h

theorem Inv.stopEnd {rt : Runtime} (h : Inv rt) (hstarted : rt.fsm.current ≠ .idle) :
    Inv rt.stopEnd := by
  have hphase := h.notDiscovering
  obtain ⟨⟨cur, pre⟩, agent, phase, failure, stops⟩ := rt
  cases cur with
  | idle => exact absurd rfl hstarted
  | starting => exact h
  | snapshotting => exact h
  | cdcCatchup => exact h.elim
  | cdcStreaming => exact hphase
  | paused => exact h
  | stopping => exact hphase
  | completed => exact hphase
  | failed => exact h

end Commands

section Start

theorem Inv.of_loading {rt : Runtime} (h : Inv rt) (hphase : rt.phase = .loading) :
    rt.fsm.current = .starting ∨ rt.fsm.current = .stopping ∨ rt.fsm.current = .completed := by
  obtain ⟨⟨cur, pre⟩, agent, phase, failure, stops⟩ := rt
  subst hphase
  cases cur
  all_goals simp [Inv, Runtime.unstarted] at h ⊢

theorem Inv.of_snapshotting {rt : Runtime} (h : Inv rt) (hphase : rt.phase = .snapshotting) :
    rt.fsm.current = .snapshotting ∨ rt.fsm.current = .stopping ∨
      rt.fsm.current = .completed := by
  obtain ⟨⟨cur, pre⟩, agent, phase, failure, stops⟩ := rt
  subst hphase
  cases cur
  all_goals simp [Inv, Runtime.unstarted] at h ⊢

theorem loaded_starting {rt : Runtime} (hfsm : rt.fsm.current = .starting) {needSnapshot : Bool}
    {d : Discovery} (hd : needSnapshot = false → Prompt d) :
    Inv (rt.loaded needSnapshot d) ∧
      (rt.loaded needSnapshot d).phase = if needSnapshot then .snapshotting else .returned := by
  obtain ⟨⟨cur, pre⟩, agent, phase, failure, stops⟩ := rt
  subst hfsm
  cases needSnapshot with
  | true => exact ⟨⟨rfl, .fresh, rfl, rfl, rfl⟩, rfl⟩
  | false =>
      obtain ⟨n, rfl⟩ := hd rfl
      exact ⟨⟨rfl, _, rfl, rfl, rfl⟩, rfl⟩

/-- The machine streams from here on, whatever the discovery does. -/
theorem prompt_of_streaming (rt : Runtime) {d : Discovery}
    (hfsm : rt.fsm.current = .cdcStreaming) (hagent : ∀ a ∈ rt.agent, a.running = false)
    (h : Consistent (rt.discover d)) : Prompt d := by
  obtain ⟨⟨cur, pre⟩, agent, phase, failure, stops⟩ := rt
  have hrun := h.streaming
  cases d with
  | suspended =>
      obtain ⟨a, ha, hrunning, -⟩ := hrun hfsm
      rw [hagent a ha] at hrunning
      cases hrunning
  | raised =>
      obtain ⟨a, ha, hrunning, -⟩ := hrun hfsm
      rw [hagent a ha] at hrunning
      cases hrunning
  | found tables =>
      cases tables with
      | zero =>
          obtain ⟨a, ha, hrunning, -⟩ := hrun hfsm
          rw [hagent a ha] at hrunning
          cases hrunning
      | succ n => exact ⟨n, rfl⟩

theorem prompt_of_loaded {rt : Runtime} (hfsm : rt.fsm.current = .starting) {d : Discovery}
    (h : Consistent (rt.loaded false d)) : Prompt d := by
  obtain ⟨⟨cur, pre⟩, agent, phase, failure, stops⟩ := rt
  subst hfsm
  refine prompt_of_streaming ⟨⟨.cdcStreaming, pre⟩, some .fresh, phase, failure, stops⟩ rfl ?_ h
  rintro a ha
  cases ha
  rfl

theorem refused_ne {st : ReplicationState} (h : st ≠ .paused) :
    some (Failure.refused st) ≠ some (.refused .paused) := by
  simpa using h

theorem loaded_refused {rt : Runtime} (h : Inv rt) (hphase : rt.phase = .loading)
    (hfsm : rt.fsm.current ≠ .starting) (needSnapshot : Bool) (d : Discovery) :
    Inv (rt.loaded needSnapshot d) ∧ (rt.loaded needSnapshot d).phase = .raised := by
  have hcur := h.of_loading hphase
  obtain ⟨⟨cur, pre⟩, agent, phase, failure, stops⟩ := rt
  rcases hcur with rfl | rfl | rfl
  · exact absurd rfl hfsm
  · cases needSnapshot
    · exact ⟨⟨rfl, refused_ne ReplicationState.noConfusion⟩, rfl⟩
    · exact ⟨⟨rfl, refused_ne ReplicationState.noConfusion⟩, rfl⟩
  · cases needSnapshot
    · exact ⟨StartPhase.noConfusion, rfl⟩
    · exact ⟨StartPhase.noConfusion, rfl⟩

theorem snapshotEnded_snapshotting {rt : Runtime} (h : Inv rt)
    (hfsm : rt.fsm.current = .snapshotting) {d : Discovery} (hd : Prompt d) :
    Inv (rt.snapshotEnded true d) ∧ (rt.snapshotEnded true d).phase = .returned := by
  obtain ⟨⟨cur, pre⟩, agent, phase, failure, stops⟩ := rt
  subst hfsm
  obtain ⟨-, a, rfl, -, hpaused⟩ := h
  obtain ⟨n, rfl⟩ := hd
  exact ⟨⟨rfl, _, rfl, rfl, hpaused⟩, rfl⟩

theorem snapshotEnded_refused {rt : Runtime} (h : Inv rt) (hphase : rt.phase = .snapshotting)
    (hfsm : rt.fsm.current ≠ .snapshotting) (d : Discovery) :
    Inv (rt.snapshotEnded true d) ∧ (rt.snapshotEnded true d).phase = .raised := by
  have hcur := h.of_snapshotting hphase
  obtain ⟨⟨cur, pre⟩, agent, phase, failure, stops⟩ := rt
  rcases hcur with rfl | rfl | rfl
  · exact absurd rfl hfsm
  · exact ⟨⟨rfl, refused_ne ReplicationState.noConfusion⟩, rfl⟩
  · exact ⟨StartPhase.noConfusion, rfl⟩

theorem snapshotEnded_error {rt : Runtime} (h : Inv rt) (hphase : rt.phase = .snapshotting)
    (d : Discovery) :
    Inv (rt.snapshotEnded false d) ∧ (rt.snapshotEnded false d).phase = .raised := by
  have hcur := h.of_snapshotting hphase
  have herror : some Failure.error ≠ some (.refused .paused) := by decide
  obtain ⟨⟨cur, pre⟩, agent, phase, failure, stops⟩ := rt
  rcases hcur with rfl | rfl | rfl
  · exact ⟨⟨rfl, herror⟩, rfl⟩
  · exact ⟨⟨rfl, herror⟩, rfl⟩
  · exact ⟨StartPhase.noConfusion, rfl⟩

theorem raised_of_refused {rt : Runtime} (hphase : rt.phase = .snapshotting) (h : Inv rt)
    {ok : Bool} (hok : ok = false ∨ rt.fsm.current ≠ .snapshotting) (d : Discovery) :
    (rt.snapshotEnded ok d).phase = .raised := by
  cases ok with
  | false => exact (snapshotEnded_error h hphase d).2
  | true => exact (snapshotEnded_refused h hphase (hok.resolve_left Bool.noConfusion) d).2

theorem prompt_of_snapshotEnded {rt : Runtime} (h : Inv rt)
    (hfsm : rt.fsm.current = .snapshotting) {d : Discovery}
    (hc : Consistent (rt.snapshotEnded true d)) : Prompt d := by
  obtain ⟨⟨cur, pre⟩, agent, phase, failure, stops⟩ := rt
  subst hfsm
  obtain ⟨-, a, rfl, hrun, -⟩ := h
  refine prompt_of_streaming ⟨⟨.cdcStreaming, pre⟩, some a, phase, failure, stops⟩ rfl ?_ hc
  rintro b hb
  cases hb
  exact hrun

theorem loadFailed {rt : Runtime} (h : Inv rt) (hphase : rt.phase = .loading) :
    Inv { rt with phase := .raised } := by
  have hcur := h.of_loading hphase
  obtain ⟨⟨cur, pre⟩, agent, phase, failure, stops⟩ := rt
  rcases hcur with rfl | rfl | rfl
  · exact Or.inr rfl
  · exact StartPhase.noConfusion
  · exact StartPhase.noConfusion

end Start

theorem Inv.setAgent {rt : Runtime} {a a' : CaptureAgent} (h : Inv rt) (ha : rt.agent = some a)
    (hrun : a'.running = a.running) (hpaused : a'.paused = a.paused)
    (hflight : a.paused = true → a.inFlight = 0 → a'.inFlight = 0) :
    Inv { rt with agent := some a' } := by
  obtain ⟨⟨cur, pre⟩, agent, phase, failure, stops⟩ := rt
  subst ha
  cases cur with
  | idle => cases h
  | starting => exact h
  | snapshotting =>
      obtain ⟨hphase, b, hb, hrun', hpaused'⟩ := h
      cases hb
      exact ⟨hphase, a', rfl, hrun.trans hrun', hpaused.trans hpaused'⟩
  | cdcCatchup => exact h.elim
  | cdcStreaming =>
      obtain ⟨hphase, b, hb, hrun', hpaused'⟩ := h
      cases hb
      exact ⟨hphase, a', rfl, hrun.trans hrun', hpaused.trans hpaused'⟩
  | paused =>
      obtain ⟨hphase, hpre, b, hb, hrun', hpaused', hzero⟩ := h
      cases hb
      exact ⟨hphase, hpre, a', rfl, hrun.trans hrun', hpaused.trans hpaused',
        hflight hpaused' hzero⟩
  | stopping => exact h
  | completed => exact h
  | failed => exact h

section Manager

/-- What holds of the manager along an orderly run. -/
structure ManagerInv (s : Manager) : Prop where
  inv : ∀ i, Inv (s.runtimes i)
  fresh : ∀ i, s.next ≤ i → s.runtimes i = .unstarted
  unused : ∀ i, (s.runtimes i).phase = .unstarted → s.runtimes i = .unstarted
  started : ∀ i, s.registered = some i → (s.runtimes i).phase ≠ .unstarted
  raised : ∀ i, (s.runtimes i).phase = .raised → s.registered ≠ some i

theorem ManagerInv.consistent {s : Manager} (h : ManagerInv s) : ManagerConsistent s :=
  ⟨fun i => (h.inv i).consistent, h.raised⟩

theorem managerInv_initial : ManagerInv initial where
  inv _ := rfl
  fresh _ _ := rfl
  unused _ _ := rfl
  started i hi := by cases hi
  raised i hi := by cases hi

theorem Inv.started {rt : Runtime} (h : Inv rt) (hphase : rt.phase ≠ .unstarted) :
    rt.fsm.current ≠ .idle := by
  intro hidle
  rw [Inv, hidle] at h
  exact hphase (congrArg Runtime.phase h)

theorem modify_runtimes_self (s : Manager) (i : Nat) (f : Runtime → Runtime) :
    (s.modify i f).runtimes i = f (s.runtimes i) :=
  Function.update_self ..

theorem modify_runtimes_ne (s : Manager) {i j : Nat} (h : j ≠ i) (f : Runtime → Runtime) :
    (s.modify i f).runtimes j = s.runtimes j :=
  Function.update_of_ne h ..

theorem ManagerInv.modify {s : Manager} (h : ManagerInv s) {i : Nat} {f : Runtime → Runtime}
    (hi : (s.runtimes i).phase ≠ .unstarted) (hinv : Inv (f (s.runtimes i)))
    (hphase : (f (s.runtimes i)).phase ≠ .unstarted)
    (hraised : (f (s.runtimes i)).phase = .raised → s.registered ≠ some i) :
    ManagerInv (s.modify i f) where
  inv j := by
    by_cases hj : j = i
    · subst hj
      rwa [modify_runtimes_self]
    · rw [modify_runtimes_ne s hj]
      exact h.inv j
  fresh j hj := by
    have hne : j ≠ i := by
      rintro rfl
      exact hi (congrArg Runtime.phase (h.fresh j hj))
    rw [modify_runtimes_ne s hne]
    exact h.fresh j hj
  unused j hj := by
    by_cases hji : j = i
    · subst hji
      rw [modify_runtimes_self] at hj
      exact absurd hj hphase
    · rw [modify_runtimes_ne s hji] at hj ⊢
      exact h.unused j hj
  started j hj := by
    by_cases hji : j = i
    · subst hji
      rwa [modify_runtimes_self]
    · rw [modify_runtimes_ne s hji]
      exact h.started j hj
  raised j hj := by
    by_cases hji : j = i
    · subst hji
      rw [modify_runtimes_self] at hj
      exact hraised hj
    · rw [modify_runtimes_ne s hji] at hj
      exact h.raised j hj

theorem ManagerInv.unregister {s : Manager} (h : ManagerInv s) :
    ManagerInv { s with registered := none } where
  inv := h.inv
  fresh := h.fresh
  unused := h.unused
  started i hi := by cases hi
  raised i _ hi := by cases hi

/-- A step that keeps the phase of the start. -/
theorem ManagerInv.modify_of_phase {s : Manager} (h : ManagerInv s) {i : Nat}
    {f : Runtime → Runtime} (hi : (s.runtimes i).phase ≠ .unstarted)
    (hinv : Inv (f (s.runtimes i))) (hphase : (f (s.runtimes i)).phase = (s.runtimes i).phase) :
    ManagerInv (s.modify i f) :=
  h.modify hi hinv (by rwa [hphase]) fun hraised => h.raised i (hphase ▸ hraised)

theorem register_runtimes_self (s : Manager) (rt : Runtime) :
    (s.register rt).runtimes s.next = rt :=
  Function.update_self ..

theorem register_runtimes_ne (s : Manager) {j : Nat} (h : j ≠ s.next) (rt : Runtime) :
    (s.register rt).runtimes j = s.runtimes j :=
  Function.update_of_ne h ..

theorem ManagerInv.start {s : Manager} (h : ManagerInv s) : ManagerInv (s.register .begun) where
  inv j := by
    by_cases hj : j = s.next
    · subst hj
      rw [register_runtimes_self]
      exact Or.inl rfl
    · rw [register_runtimes_ne s hj]
      exact h.inv j
  fresh j hj := by
    have hlt : s.next + 1 ≤ j := hj
    rw [register_runtimes_ne s (by omega)]
    exact h.fresh j (by omega)
  unused j hj := by
    by_cases hji : j = s.next
    · subst hji
      rw [register_runtimes_self] at hj
      cases hj
    · rw [register_runtimes_ne s hji] at hj ⊢
      exact h.unused j hj
  started j hj := by
    cases hj
    rw [register_runtimes_self]
    exact StartPhase.noConfusion
  raised j hj hreg := by
    cases hreg
    rw [register_runtimes_self] at hj
    cases hj

/-- The coroutine of a start goes on or ends; it may raise only once its stream
is removed. -/
theorem ManagerInv.advance {s : Manager} (h : ManagerInv s) {i : Nat} {f : Runtime → Runtime}
    {p q : StartPhase} (hphase : (s.runtimes i).phase = p) (hp : p ≠ .unstarted)
    (hinv : Inv (f (s.runtimes i))) (hnext : (f (s.runtimes i)).phase = q)
    (hq : q ≠ .unstarted) (hraised : q = .raised → s.registered ≠ some i) :
    ManagerInv (s.modify i f) :=
  h.modify (hphase ▸ hp) hinv (hnext ▸ hq) fun hr => hraised (hnext ▸ hr)

theorem ManagerInv.snapshotEnded {s : Manager} (h : ManagerInv s) {i : Nat} {ok : Bool}
    {d : Discovery} (hphase : (s.runtimes i).phase = .snapshotting)
    (hok : Orderly s (.snapshotEnded i ok d)) : ManagerInv (s.modify i (.snapshotEnded ok d)) := by
  obtain ⟨hprompt, hraised⟩ := hok
  cases ok with
  | false =>
      obtain ⟨hinv, hnext⟩ := snapshotEnded_error (h.inv i) hphase d
      exact h.advance hphase StartPhase.noConfusion hinv hnext StartPhase.noConfusion
        fun _ => hraised (Or.inl rfl)
  | true =>
      by_cases hfsm : (s.runtimes i).fsm.current = .snapshotting
      · obtain ⟨hinv, hnext⟩ := snapshotEnded_snapshotting (h.inv i) hfsm (hprompt rfl hfsm)
        exact h.advance hphase StartPhase.noConfusion hinv hnext StartPhase.noConfusion
          StartPhase.noConfusion
      · obtain ⟨hinv, hnext⟩ := snapshotEnded_refused (h.inv i) hphase hfsm d
        exact h.advance hphase StartPhase.noConfusion hinv hnext StartPhase.noConfusion
          fun _ => hraised (Or.inr hfsm)

theorem ManagerInv.loaded {s : Manager} (h : ManagerInv s) {i : Nat} {needSnapshot : Bool}
    {d : Discovery} (hphase : (s.runtimes i).phase = .loading)
    (hok : Orderly s (.loaded i needSnapshot d)) :
    ManagerInv (s.modify i (.loaded needSnapshot d)) := by
  by_cases hfsm : (s.runtimes i).fsm.current = .starting
  · obtain ⟨hinv, hnext⟩ := loaded_starting hfsm (hok.1 hfsm)
    cases needSnapshot with
    | true =>
        exact h.advance hphase StartPhase.noConfusion hinv hnext StartPhase.noConfusion
          StartPhase.noConfusion
    | false =>
        exact h.advance hphase StartPhase.noConfusion hinv hnext StartPhase.noConfusion
          StartPhase.noConfusion
  · obtain ⟨hinv, hnext⟩ := loaded_refused (h.inv i) hphase hfsm needSnapshot d
    exact h.advance hphase StartPhase.noConfusion hinv hnext StartPhase.noConfusion
      fun _ => hok.2 hfsm

/-- A loop that begins, ends or leaves. -/
theorem ManagerInv.setAgent {s : Manager} (h : ManagerInv s) {i : Nat} {a a' : CaptureAgent}
    (ha : (s.runtimes i).agent = some a) (hrun : a'.running = a.running)
    (hpaused : a'.paused = a.paused)
    (hflight : a.paused = true → a.inFlight = 0 → a'.inFlight = 0) :
    ManagerInv (s.modify i fun rt => { rt with agent := some a' }) := by
  refine h.modify_of_phase ?_ ((h.inv i).setAgent ha hrun hpaused hflight) rfl
  intro hphase
  rw [h.unused i hphase] at ha
  cases ha

/-- Every orderly step keeps the invariant. -/
theorem ManagerInv.step {s t : Manager} {l : Action} (h : ManagerInv s) (hok : Orderly s l)
    (hstep : ReplicationRuntime.step s l = some t) : ManagerInv t := by
  cases l with
  | start target =>
      simp only [ReplicationRuntime.step] at hstep
      split at hstep
      · cases hstep
        exact h
      · rename_i hreg
        cases hstep
        rw [hok hreg]
        exact h.start
  | loaded i needSnapshot d =>
      obtain ⟨hphase, hstep⟩ := Option.ite_none_right_eq_some.mp hstep
      cases hstep
      exact h.loaded hphase hok
  | loadFailed i =>
      obtain ⟨hphase, hstep⟩ := Option.ite_none_right_eq_some.mp hstep
      cases hstep
      exact h.advance hphase StartPhase.noConfusion (loadFailed (h.inv i) hphase) rfl
        StartPhase.noConfusion fun _ => hok
  | snapshotEnded i ok d =>
      obtain ⟨hphase, hstep⟩ := Option.ite_none_right_eq_some.mp hstep
      cases hstep
      exact h.snapshotEnded hphase hok
  | discovered i d =>
      obtain ⟨hphase, -⟩ := Option.ite_none_right_eq_some.mp hstep
      exact absurd hphase.1 (h.inv i).notDiscovering
  | pause =>
      simp only [ReplicationRuntime.step] at hstep
      split at hstep
      · cases hstep
        exact h
      · rename_i i hreg
        cases hstep
        exact h.modify_of_phase (h.started i hreg) ((h.inv i).pause (hok i hreg)) rfl
  | resume =>
      simp only [ReplicationRuntime.step] at hstep
      split at hstep
      · cases hstep
        exact h
      · rename_i i hreg
        cases hstep
        exact h.modify_of_phase (h.started i hreg) (h.inv i).resume rfl
  | stopBegin =>
      simp only [ReplicationRuntime.step] at hstep
      split at hstep
      · cases hstep
        exact h
      · rename_i i hreg
        cases hstep
        have hi := h.started i hreg
        exact h.modify_of_phase hi ((h.inv i).stopBegin ((h.inv i).started hi)) rfl
  | stopEnd i =>
      obtain ⟨hstops, hstep⟩ := Option.ite_none_right_eq_some.mp hstep
      cases hstep
      have hi : (s.runtimes i).phase ≠ .unstarted := by
        intro hphase
        rw [h.unused i hphase] at hstops
        exact absurd hstops (Nat.lt_irrefl 0)
      exact (h.modify_of_phase hi ((h.inv i).stopEnd ((h.inv i).started hi)) rfl).unregister
  | pollBegin i =>
      simp only [ReplicationRuntime.step] at hstep
      split at hstep
      · cases hstep
      · rename_i a ha
        obtain ⟨⟨-, hpaused, -⟩, hstep⟩ := Option.ite_none_right_eq_some.mp hstep
        cases hstep
        exact h.setAgent ha rfl rfl fun hp => by rw [hpaused] at hp; cases hp
  | pollEnd i =>
      simp only [ReplicationRuntime.step] at hstep
      split at hstep
      · cases hstep
      · rename_i a ha
        obtain ⟨hflight, hstep⟩ := Option.ite_none_right_eq_some.mp hstep
        cases hstep
        exact h.setAgent ha rfl rfl fun _ hzero => by omega
  | loopExit i =>
      simp only [ReplicationRuntime.step] at hstep
      split at hstep
      · cases hstep
      · rename_i a ha
        obtain ⟨-, hstep⟩ := Option.ite_none_right_eq_some.mp hstep
        cases hstep
        exact h.setAgent ha rfl rfl fun _ hzero => hzero

/-- A step after which the manager is consistent was an orderly one. -/
theorem orderly_of_consistent {s t : Manager} {l : Action} (h : ManagerInv s)
    (hstep : ReplicationRuntime.step s l = some t) (hc : ManagerConsistent t) : Orderly s l := by
  cases l with
  | start target =>
      intro hreg
      simp only [ReplicationRuntime.step, hreg] at hstep
      cases hstep
      cases target with
      | true => rfl
      | false =>
          have hstream := (hc.1 s.next).streaming
          rw [register_runtimes_self] at hstream
          obtain ⟨a, ha, -⟩ := hstream rfl
          cases ha
  | loaded i needSnapshot d =>
      obtain ⟨hphase, hstep⟩ := Option.ite_none_right_eq_some.mp hstep
      cases hstep
      have hci := hc.1 i
      have hri := hc.2 i
      rw [modify_runtimes_self] at hci hri
      refine ⟨?_, ?_⟩
      · rintro hfsm rfl
        exact prompt_of_loaded hfsm hci
      · intro hfsm
        exact hri (loaded_refused (h.inv i) hphase hfsm needSnapshot d).2
  | loadFailed i =>
      obtain ⟨hphase, hstep⟩ := Option.ite_none_right_eq_some.mp hstep
      cases hstep
      have hri := hc.2 i
      rw [modify_runtimes_self] at hri
      exact hri rfl
  | snapshotEnded i ok d =>
      obtain ⟨hphase, hstep⟩ := Option.ite_none_right_eq_some.mp hstep
      cases hstep
      have hci := hc.1 i
      have hri := hc.2 i
      rw [modify_runtimes_self] at hci hri
      refine ⟨?_, ?_⟩
      · rintro rfl hfsm
        exact prompt_of_snapshotEnded (h.inv i) hfsm hci
      · intro hraised
        exact hri (raised_of_refused hphase (h.inv i) hraised d)
  | pause =>
      intro i hreg hcan
      rw [Option.mem_def] at hreg
      simp only [ReplicationRuntime.step, hreg] at hstep
      cases hstep
      have hpaused := (hc.1 i).paused
      rw [modify_runtimes_self] at hpaused
      obtain ⟨hphase, hzero⟩ := hpaused (by simp [Runtime.pause, suppressed_pause, hcan])
      refine ⟨hphase, ?_⟩
      intro a ha
      refine hzero a.pause ?_
      rw [Option.mem_def] at ha ⊢
      simp [Runtime.pause, ha]
  | discovered i d => trivial
  | resume => trivial
  | stopBegin => trivial
  | stopEnd i => trivial
  | pollBegin i => trivial
  | pollEnd i => trivial
  | loopExit i => trivial

/-- Along every interleaving of commands, progress of the starts and capture
loops, the state machines and the agents agree in every state if and only if
every step is orderly. -/
theorem runtime_consistent_iff {ls : List Action} (hrun : (runSteps step initial ls).isSome) :
    (∀ pre t, pre <+: ls → runSteps step initial pre = some t → ManagerConsistent t) ↔
      ∀ pre l t, pre ++ [l] <+: ls → runSteps step initial pre = some t → Orderly t l :=
  along_run_iff managerInv_initial (fun _ h => h.consistent)
    (fun _ _ _ h hok hstep => h.step hok hstep)
    (fun _ _ _ h hstep hc => orderly_of_consistent h hstep hc) hrun

/-- A whole life of a stream: snapshot, polling, pause, resume and stop. -/
def wholeLife : List Action :=
  [.start true, .loaded 0 true .suspended, .snapshotEnded 0 true (.found 1), .pollBegin 0,
    .pollEnd 0, .pause, .resume, .stopBegin, .stopEnd 0]

theorem whole_life_consistent_iff :
    (runSteps step initial wholeLife).isSome ∧
      ((∀ pre t, pre <+: wholeLife → runSteps step initial pre = some t → ManagerConsistent t) ↔
        ∀ pre l t, pre ++ [l] <+: wholeLife → runSteps step initial pre = some t → Orderly t l) :=
  ⟨rfl, runtime_consistent_iff rfl⟩

/-- A pause during the snapshot: the snapshot ends before the resume, the start
raises, the stream fails and stays registered. -/
theorem pause_during_snapshot_fails :
    ∃ t, runSteps step initial [.start true, .loaded 0 true .suspended, .pause,
        .snapshotEnded 0 true (.found 1), .resume] = some t ∧
      (t.runtimes 0).fsm.current = .failed ∧ (t.runtimes 0).phase = .raised ∧
      t.registered = some 0 ∧ ¬ ManagerConsistent t :=
  ⟨_, rfl, rfl, rfl, rfl, fun h => h.2 0 rfl rfl⟩

end Manager

end SqlOptima.RuntimeConsistency
