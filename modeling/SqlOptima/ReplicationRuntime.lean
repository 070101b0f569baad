import Mathlib.Logic.Function.Basic
import SqlOptima.TransitionSystem

namespace SqlOptima.ReplicationRuntime

inductive ReplicationState
  | idle
  | starting
  | snapshotting
  | cdcCatchup
  | cdcStreaming
  | paused
  | stopping
  | failed
  | completed
  deriving DecidableEq

inductive ReplicationEvent
  | start
  | snapshotBegin
  | snapshotDone
  | catchupDone
  | pause
  | resume
  | stop
  | fail
  | complete
  deriving DecidableEq

def transitions : ReplicationState → ReplicationEvent → Option ReplicationState
  | .idle, .start => some .starting
  | .starting, .snapshotBegin => some .snapshotting
  | .starting, .catchupDone => some .cdcStreaming
  | .starting, .fail => some .failed
  | .starting, .stop => some .stopping
  | .snapshotting, .snapshotDone => some .cdcCatchup
  | .snapshotting, .fail => some .failed
  | .snapshotting, .stop => some .stopping
  | .snapshotting, .pause => some .paused
  | .cdcCatchup, .catchupDone => some .cdcStreaming
  | .cdcCatchup, .fail => some .failed
  | .cdcCatchup, .stop => some .stopping
  | .cdcCatchup, .pause => some .paused
  | .cdcStreaming, .fail => some .failed
  | .cdcStreaming, .stop => some .stopping
  | .cdcStreaming, .pause => some .paused
  | .cdcStreaming, .complete => some .completed
  | .paused, .resume => some .cdcStreaming
  | .paused, .stop => some .stopping
  | .paused, .fail => some .failed
  | .stopping, .complete => some .completed
  | .stopping, .fail => some .failed
  | _, _ => none

structure StateMachine where
  current : ReplicationState
  prePause : Option ReplicationState
  deriving DecidableEq

/-- A transition; `none` when it raises. A resume goes back to the state before
the pause. -/
def StateMachine.transition (sm : StateMachine) (event : ReplicationEvent) :
    Option StateMachine :=
  match transitions sm.current event with
  | none => none
  | some next =>
      if event = .pause then some ⟨next, some sm.current⟩
      else if event = .resume then
        match sm.prePause with
        | some target => some ⟨target, none⟩
        | none => some ⟨next, none⟩
      else some ⟨next, sm.prePause⟩

/-- A transition whose `ValueError` is caught. -/
def StateMachine.suppressed (sm : StateMachine) (event : ReplicationEvent) : StateMachine :=
  (sm.transition event).getD sm

/-- The flags of the capture agent, its loops, and how many of them are inside
an iteration. -/
structure CaptureAgent where
  running : Bool
  paused : Bool
  loops : Nat
  inFlight : Nat
  deriving DecidableEq

namespace CaptureAgent

def fresh : CaptureAgent := ⟨false, false, 0, 0⟩

def pause (agent : CaptureAgent) : CaptureAgent := { agent with paused := true }

def resume (agent : CaptureAgent) : CaptureAgent := { agent with paused := false }

def stop (agent : CaptureAgent) : CaptureAgent := { agent with running := false, paused := false }

end CaptureAgent

/-- How far the coroutine of `start_stream` is: it waits for the checkpoints,
for the snapshot or for the discovery of the tables, or has ended. -/
inductive StartPhase
  | unstarted
  | loading
  | snapshotting
  | discovering
  | returned
  | raised
  deriving DecidableEq

/-- Why a start failed: the snapshot raised, or the state machine refused a
transition. -/
inductive Failure
  | error
  | refused (state : ReplicationState)
  deriving DecidableEq

structure Runtime where
  fsm : StateMachine
  agent : Option CaptureAgent
  phase : StartPhase
  failure : Option Failure
  stops : Nat
  deriving DecidableEq

/-- What `discover_tables` does when it is called. -/
inductive Discovery
  | suspended
  | raised
  | found (tables : Nat)
  deriving DecidableEq

namespace Runtime

def unstarted : Runtime := ⟨⟨.idle, none⟩, none, .unstarted, none, 0⟩

/-- `agent.start`: the loops run only when a table is found. -/
def discover (d : Discovery) (rt : Runtime) : Runtime :=
  match d with
  | .suspended => { rt with phase := .discovering }
  | .raised => { rt with phase := .raised }
  | .found 0 => { rt with phase := .returned }
  | .found (n + 1) =>
      { rt with
        phase := .returned
        agent := rt.agent.map fun a => { a with running := true, loops := a.loops + (n + 1) } }

def failStart (rt : Runtime) (failure : Failure) : Runtime :=
  { rt with fsm := rt.fsm.suppressed .fail, failure := some failure, phase := .raised }

/-- A transition inside the guarded part of a start. -/
def fire (rt : Runtime) (event : ReplicationEvent) (next : Runtime → Runtime) : Runtime :=
  match rt.fsm.transition event with
  | none => rt.failStart (.refused rt.fsm.current)
  | some fsm => next { rt with fsm := fsm }

def begun : Runtime :=
  { unstarted with fsm := unstarted.fsm.suppressed .start, phase := .loading }

/-- A start without a target connection registers the stream and returns. -/
def degraded : Runtime :=
  { unstarted with
    fsm := (unstarted.fsm.suppressed .start).suppressed .catchupDone
    phase := .returned }

def loaded (needSnapshot : Bool) (d : Discovery) (rt : Runtime) : Runtime :=
  let rt := { rt with agent := some .fresh }
  if needSnapshot then rt.fire .snapshotBegin fun rt => { rt with phase := .snapshotting }
  else rt.fire .catchupDone (discover d)

def snapshotEnded (ok : Bool) (d : Discovery) (rt : Runtime) : Runtime :=
  if ok then rt.fire .snapshotDone fun rt => rt.fire .catchupDone (discover d)
  else rt.failStart .error

def pause (rt : Runtime) : Runtime :=
  { rt with agent := rt.agent.map .pause, fsm := rt.fsm.suppressed .pause }

def resume (rt : Runtime) : Runtime :=
  { rt with agent := rt.agent.map .resume, fsm := rt.fsm.suppressed .resume }

def stopBegin (rt : Runtime) : Runtime :=
  { rt with
    fsm := rt.fsm.suppressed .stop
    agent := rt.agent.map .stop
    stops := rt.stops + 1 }

def stopEnd (rt : Runtime) : Runtime :=
  { rt with fsm := rt.fsm.suppressed .complete, stops := rt.stops - 1 }

end Runtime

/-- The manager's entry for one stream identifier, and every runtime a start
of it has made: an earlier one may still be in its coroutine. -/
structure Manager where
  registered : Option Nat
  next : Nat
  runtimes : Nat → Runtime

def Manager.modify (s : Manager) (i : Nat) (f : Runtime → Runtime) : Manager :=
  { s with runtimes := Function.update s.runtimes i (f (s.runtimes i)) }

def Manager.register (s : Manager) (rt : Runtime) : Manager :=
  ⟨some s.next, s.next + 1, Function.update s.runtimes s.next rt⟩

inductive Action
  | start (target : Bool)
  | loaded (i : Nat) (needSnapshot : Bool) (d : Discovery)
  | loadFailed (i : Nat)
  | snapshotEnded (i : Nat) (ok : Bool) (d : Discovery)
  | discovered (i : Nat) (d : Discovery)
  | pause
  | resume
  | stopBegin
  | stopEnd (i : Nat)
  | pollBegin (i : Nat)
  | pollEnd (i : Nat)
  | loopExit (i : Nat)

/-- One uninterrupted piece of a coroutine. A command on a stream that is not
there, or one that is refused, raises and changes nothing else. -/
def step (s : Manager) : Action → Option Manager
  | .start target =>
      match s.registered with
      | some _ => some s
      | none => some (s.register (if target then .begun else .degraded))
  | .loaded i needSnapshot d =>
      if (s.runtimes i).phase = .loading then some (s.modify i (.loaded needSnapshot d)) else none
  | .loadFailed i =>
      -- nothing catches what the checkpoint store raises
      if (s.runtimes i).phase = .loading then
        some (s.modify i fun rt => { rt with phase := .raised })
      else none
  | .snapshotEnded i ok d =>
      if (s.runtimes i).phase = .snapshotting then some (s.modify i (.snapshotEnded ok d))
      else none
  | .discovered i d =>
      if (s.runtimes i).phase = .discovering ∧ d ≠ .suspended then
        some (s.modify i (.discover d))
      else none
  | .pause =>
      match s.registered with
      | none => some s
      | some i => some (s.modify i .pause)
  | .resume =>
      match s.registered with
      | none => some s
      | some i => some (s.modify i .resume)
  | .stopBegin =>
      match s.registered with
      | none => some s
      | some i => some (s.modify i .stopBegin)
  | .stopEnd i =>
      -- the stream is removed by its identifier, whatever runtime has it now
      if 0 < (s.runtimes i).stops then some { s.modify i .stopEnd with registered := none }
      else none
  | .pollBegin i =>
      match (s.runtimes i).agent with
      | none => none
      | some a =>
          if a.running = true ∧ a.paused = false ∧ a.inFlight < a.loops then
            some (s.modify i fun rt =>
              { rt with agent := some { a with inFlight := a.inFlight + 1 } })
          else none
  | .pollEnd i =>
      match (s.runtimes i).agent with
      | none => none
      | some a =>
          if 0 < a.inFlight then
            some (s.modify i fun rt =>
              { rt with agent := some { a with inFlight := a.inFlight - 1 } })
          else none
  | .loopExit i =>
      match (s.runtimes i).agent with
      | none => none
      | some a =>
          if a.running = false ∧ a.inFlight < a.loops then
            some (s.modify i fun rt => { rt with agent := some { a with loops := a.loops - 1 } })
          else none

def initial : Manager := ⟨none, 0, fun _ => .unstarted⟩

end SqlOptima.ReplicationRuntime
