import SqlOptima.CommandRow

namespace SqlOptima.TransferLifecycle

open CommandRow (Command Row writeCommand)

inductive TransferStatus where
  | pending | queued | preparing | running | paused | restoring
  | completed | partlyDone | failed | stopped | restoreFailed
  deriving DecidableEq, Repr

def terminalStatuses : List TransferStatus := [.completed, .partlyDone, .failed, .stopped]

/-- The operator's calls on a job. -/
inductive Request where
  | pause | resume | stop
  deriving DecidableEq, Repr

def Request.command : Request → Command
  | .pause => .pause
  | .resume => .resume
  | .stop => .stop

def Request.nextStatus : Request → TransferStatus
  | .pause => .paused
  | .resume => .running
  | .stop => .stopped

/-- `stop_job` answers a terminal job without an error, and does nothing either. -/
def Request.allowed : Request → TransferStatus → Bool
  | .pause, status => [.running, .preparing, .queued].contains status
  | .resume, status => status == .paused
  | .stop, status => !terminalStatuses.contains status

/-- A call in flight, between its transactions: a job is created or the status is read and allowed,
the row of the command is loaded, the command is written. A call that creates a job starts it, which
is no request. -/
inductive Call (J : Type) where
  | accepted (r : Option Request) (j : J)
  | merging (r : Option Request) (j : J) (loaded : Option Row)
  | issued (r : Request) (j : J)
  deriving DecidableEq, Repr

def commandOf (r : Option Request) : Command := (r.map Request.command).getD .start

/-- A row of `transfer_jobs` and its row of `transfer_commands`. -/
structure Job where
  status : TransferStatus
  command : Option Row
  deriving DecidableEq, Repr

/-- Where a worker stands: between two polls of the queue, with the rest of a listing, with a job it
has claimed whose configuration it is loading, at work on it, in `CheckBeforeChunk` with a command
that it has read, in `waitWhilePaused`, or on its way out, when it has written the last status and
restores the constraints. -/
inductive Position (J : Type) where
  | idle
  | listed (jobs : List J)
  | loading (j : J)
  | working (j : J)
  | reading (j : J) (c : Command)
  | paused (j : J)
  | pausedReading (j : J) (c : Command)
  | leaving (j : J)
  deriving DecidableEq, Repr

def Position.job {J : Type} : Position J → Option J
  | .idle | .listed _ => none
  | .loading j | .working j | .reading j _ | .paused j | .pausedReading j _ | .leaving j => some j

/-- Not at work any more is a worker that only restores the constraints. -/
def Position.atWork {J : Type} : Position J → Option J
  | .idle | .listed _ | .leaving _ => none
  | .loading j | .working j | .reading j _ | .paused j | .pausedReading j _ => some j

/-- The metadata database, the workers and the calls; `created` lists the jobs by `created_at`. -/
structure State (J W C : Type) where
  job : J → Option Job
  issued : Nat
  created : List J
  worker : W → Position J
  call : C → Option (Call J)

/-- `acked` and `lands` say whether the acknowledgement and the status write of a worker go through,
whose errors it drops. A stop that `copyBCP` reads does not end the job: `ends` is false. -/
inductive Action (J W C : Type) where
  | create (c : C) (j : J)
  | request (c : C) (r : Request) (j : J)
  | merge (c : C)
  | issue (c : C)
  | settle (c : C)
  | list (w : W)
  | claim (w : W)
  | giveUp (w : W)
  | load (w : W) (ok : Bool)
  | check (w : W)
  | act (w : W) (acked lands ends : Bool)
  | setStatus (w : W) (preparing lands : Bool)
  | finish (w : W) (completed lands : Bool)
  | leave (w : W)
  deriving DecidableEq, Repr

section Steps

variable {J W C : Type} [DecidableEq J] [DecidableEq W] [DecidableEq C]

def initial : State J W C where
  job _ := none
  issued := 0
  created := []
  worker _ := .idle
  call _ := none

namespace State

variable (s : State J W C)

def update (j : J) (f : Job → Job) : State J W C :=
  { s with job := Function.update s.job j ((s.job j).map f) }

def setJobStatus (j : J) (status : TransferStatus) : State J W C :=
  s.update j fun job => { job with status := status }

/-- The worker's write of a status. -/
def write (j : J) (status : TransferStatus) (lands : Bool) : State J W C :=
  if lands then s.setJobStatus j status else s

/-- What a call writes to the row of the command. -/
def flushed (j : J) (c : Command) (loaded : Option Row) : Option Row :=
  writeCommand loaded ((s.job j).bind Job.command) c s.issued

def issueCommand (j : J) (row : Row) : State J W C :=
  { s.update j (fun job => { job with command := some row }) with issued := s.issued + 1 }

def ackCommand (j : J) (acked : Bool) : State J W C :=
  s.update j fun job =>
    { job with command := if acked then CommandRow.ackCommand job.command else job.command }

def move (w : W) (p : Position J) : State J W C :=
  { s with worker := Function.update s.worker w p }

def setCall (c : C) (call : Option (Call J)) : State J W C :=
  { s with call := Function.update s.call c call }

def status (j : J) : Option TransferStatus := (s.job j).map Job.status

/-- The command that is not acknowledged yet. -/
def getCommand (j : J) : Option Command :=
  (CommandRow.getCommand ((s.job j).bind Job.command) true).map Prod.fst

/-- `WHERE status = 'queued' ORDER BY created_at LIMIT 5`. -/
def queuedJobs : List J := (s.created.filter fun j => s.status j = some .queued).take 5

/-- The switch of `CheckBeforeChunk`. -/
def handle (w : W) (j : J) (c : Command) (lands ends : Bool) : State J W C :=
  match c with
  | .stop | .cancel =>
      (s.write j .stopped lands).move w (if ends then .leaving j else .working j)
  | .pause => (s.write j .paused lands).move w (.paused j)
  | .resume => (s.write j .running lands).move w (.working j)
  | .start => s.move w (.working j)

/-- The switch of `waitWhilePaused`. -/
def handlePaused (w : W) (j : J) (c : Command) (lands ends : Bool) : State J W C :=
  match c with
  | .stop | .cancel =>
      (s.write j .stopped lands).move w (if ends then .leaving j else .working j)
  | .resume => (s.write j .running lands).move w (.working j)
  | .pause | .start => s.move w (.paused j)

end State

def step (s : State J W C) : Action J W C → Option (State J W C)
  | .create c j =>
      match s.call c, s.job j with
      | none, none =>
          some ({ s with
            job := Function.update s.job j (some ⟨.queued, none⟩)
            created := s.created ++ [j] }.setCall c (some (.accepted none j)))
      | _, _ => none
  | .request c r j =>
      match s.call c, s.job j with
      | none, some job =>
          some (if r.allowed job.status then s.setCall c (some (.accepted (some r) j)) else s)
      | _, _ => none
  | .merge c =>
      match s.call c with
      | some (.accepted r j) =>
          some (s.setCall c (some (.merging r j ((s.job j).bind Job.command))))
      | _ => none
  | .issue c =>
      match s.call c with
      | some (.merging r j loaded) =>
          some (match s.flushed j (commandOf r) loaded with
            | some row => (s.issueCommand j row).setCall c (r.map fun r => .issued r j)
            | none => s.setCall c none)
      | _ => none
  | .settle c =>
      match s.call c with
      | some (.issued r j) => some ((s.setJobStatus j r.nextStatus).setCall c none)
      | _ => none
  | .list w =>
      match s.worker w with
      | .idle => some (s.move w (.listed s.queuedJobs))
      | _ => none
  | .claim w =>
      match s.worker w with
      | .listed [] => some (s.move w .idle)
      | .listed (j :: rest) =>
          some (if s.status j = some .queued then (s.setJobStatus j .running).move w (.loading j)
            else s.move w (.listed rest))
      | _ => none
  | .giveUp w =>
      match s.worker w with
      | .listed _ => some (s.move w .idle)
      | _ => none
  | .load w ok =>
      match s.worker w with
      | .loading j => some (s.move w (if ok then .working j else .leaving j))
      | _ => none
  | .check w =>
      match s.worker w with
      | .working j =>
          some (match s.getCommand j with
            | none => s
            | some c => s.move w (.reading j c))
      | .paused j =>
          some (match s.getCommand j with
            | none => s
            | some c => s.move w (.pausedReading j c))
      | _ => none
  | .act w acked lands ends =>
      match s.worker w with
      | .reading j c => some ((s.ackCommand j acked).handle w j c lands ends)
      | .pausedReading j c => some ((s.ackCommand j acked).handlePaused w j c lands ends)
      | _ => none
  | .setStatus w preparing lands =>
      match s.worker w with
      | .working j =>
          some ((s.write j (if preparing then .preparing else .running) lands).move w (.working j))
      | _ => none
  | .finish w completed lands =>
      match s.worker w with
      | .working j =>
          some ((s.write j (if completed then .completed else .failed) lands).move w (.leaving j))
      | .paused j => some ((s.write j .failed lands).move w (.leaving j))
      | _ => none
  | .leave w =>
      match s.worker w with
      | .leaving _ => some (s.move w .idle)
      | _ => none

end Steps

section Effects

variable {J W C : Type} {s t : State J W C}

namespace State

/-- The job that a worker has claimed and not left. -/
def holder (s : State J W C) (w : W) : Option J := (s.worker w).job

/-- The job whose rows the worker may still move. -/
def atWork (s : State J W C) (w : W) : Option J := (s.worker w).atWork

def Held (s : State J W C) (j : J) : Prop := ∃ w, s.holder w = some j

def Active (s : State J W C) (j : J) : Prop :=
  s.status j = some .running ∨ s.status j = some .paused

end State

/-- The job whose pause or resume the step records. -/
def settlesFor (s : State J W C) : Action J W C → Option J
  | .settle c =>
      match s.call c with
      | some (.issued .stop _) => none
      | some (.issued _ j) => some j
      | _ => none
  | _ => none

/-- The job that the step's worker leaves. -/
def leaves (s : State J W C) : Action J W C → Option J
  | .leave w => s.holder w
  | _ => none

/-- What a step does to the statuses of the jobs and to who holds them. -/
inductive Effect [DecidableEq J] [DecidableEq W] (s t : State J W C) : Option J → Option J → Prop where
  | same (hstatus : t.status = s.status) (hholder : t.holder = s.holder) : Effect s t none none
  | created {j : J} (hnew : s.status j = none)
      (hstatus : t.status = Function.update s.status j (some .queued))
      (hholder : t.holder = s.holder) : Effect s t none none
  | worked {w : W} {j : J} {status : TransferStatus} (hw : s.holder w = some j)
      (hne : status ≠ .queued)
      (hstatus : t.status = Function.update s.status j ((s.status j).map fun _ => status))
      (hholder : t.holder = s.holder) : Effect s t none none
  | settled {r : Request} {j : J}
      (hstatus : t.status = Function.update s.status j ((s.status j).map fun _ => r.nextStatus))
      (hholder : t.holder = s.holder) : Effect s t (if r = .stop then none else some j) none
  | claimed {w : W} {j : J} (hqueued : s.status j = some .queued) (hw : s.holder w = none)
      (hstatus : t.status = Function.update s.status j (some .running))
      (hholder : t.holder = Function.update s.holder w (some j)) : Effect s t none none
  | released {w : W} {j : J} (hw : s.holder w = some j) (hstatus : t.status = s.status)
      (hholder : t.holder = Function.update s.holder w none) : Effect s t none (some j)

section Status

variable [DecidableEq J]

theorem status_update (s : State J W C) (j : J) (f : Job → Job) :
    (s.update j f).status = Function.update s.status j ((s.job j).map fun job => (f job).status) := by
  funext k
  unfold State.status State.update
  by_cases h : k = j
  · subst h
    simp [Function.comp_def]
  · simp [h]

theorem status_setJobStatus (s : State J W C) (j : J) (status : TransferStatus) :
    (s.setJobStatus j status).status =
      Function.update s.status j ((s.status j).map fun _ => status) := by
  rw [State.setJobStatus, status_update]
  simp [State.status, Function.comp_def]

/-- An update that keeps the status. -/
theorem status_update_of_keep (s : State J W C) (j : J) {f : Job → Job}
    (hf : ∀ job, (f job).status = job.status) : (s.update j f).status = s.status := by
  rw [status_update]
  simp only [hf]
  exact Function.update_eq_self j s.status

theorem status_issueCommand (s : State J W C) (j : J) (row : Row) :
    (s.issueCommand j row).status = s.status :=
  status_update_of_keep s j fun job => (rfl : ({ job with command := some row } : Job).status = _)

theorem status_ackCommand (s : State J W C) (j : J) (acked : Bool) :
    (s.ackCommand j acked).status = s.status :=
  status_update_of_keep s j fun _ => rfl

theorem status_write (s : State J W C) (j : J) (status : TransferStatus) (lands : Bool) :
    (s.write j status lands).status =
      if lands then Function.update s.status j ((s.status j).map fun _ => status)
      else s.status := by
  unfold State.write
  cases lands with
  | true => exact status_setJobStatus s j status
  | false => rfl

theorem holder_write (s : State J W C) (j : J) (status : TransferStatus) (lands : Bool) :
    (s.write j status lands).holder = s.holder := by
  unfold State.write
  cases lands <;> rfl

end Status

section Holder

variable [DecidableEq W]

theorem holder_move (s : State J W C) (w : W) (p : Position J) :
    (s.move w p).holder = Function.update s.holder w p.job := by
  funext v
  unfold State.holder State.move
  by_cases h : v = w
  · subst h
    simp
  · simp [h]

/-- A worker that keeps its job. -/
theorem holder_move_of_keep {w : W} {p : Position J} (h : p.job = s.holder w) :
    (s.move w p).holder = s.holder := by
  rw [holder_move, h]
  exact Function.update_eq_self w s.holder

end Holder

section Steps

variable [DecidableEq J] [DecidableEq W] {u : State J W C} {w : W} {j : J}

theorem effect_move {p : Position J} (h : p.job = s.holder w) : Effect s (s.move w p) none none :=
  .same rfl (holder_move_of_keep h)

/-- A worker stays with its job, whose status it may write. -/
theorem effect_write (hstatus : u.status = s.status) (hholder : u.holder = s.holder)
    (hw : s.holder w = some j) {status : TransferStatus} (hne : status ≠ .queued) (lands : Bool)
    {p : Position J} (hp : p.job = some j) :
    Effect s ((u.write j status lands).move w p) none none := by
  have hkeep : ((u.write j status lands).move w p).holder = s.holder := by
    rw [holder_move_of_keep (by rw [hp, holder_write, hholder, hw]), holder_write, hholder]
  have hwrite : ((u.write j status lands).move w p).status = _ :=
    status_write u j status lands
  rw [hstatus] at hwrite
  cases lands with
  | true => exact .worked hw hne hwrite hkeep
  | false => exact .same hwrite hkeep

theorem effect_keep (hstatus : u.status = s.status) (hholder : u.holder = s.holder)
    (hw : s.holder w = some j) {p : Position J} (hp : p.job = some j) :
    Effect s (u.move w p) none none := by
  refine .same hstatus ?_
  rw [holder_move_of_keep (by rw [hp, hholder, hw]), hholder]

theorem effect_stop (hstatus : u.status = s.status) (hholder : u.holder = s.holder)
    (hw : s.holder w = some j) (lands ends : Bool) :
    Effect s ((u.write j .stopped lands).move w (if ends then .leaving j else .working j)) none
      none := by
  refine effect_write hstatus hholder hw (by decide) lands ?_
  cases ends <;> rfl

theorem effect_handle (acked lands ends : Bool) {c : Command} (hw : s.worker w = .reading j c) :
    Effect s ((s.ackCommand j acked).handle w j c lands ends) none none := by
  have hstatus := status_ackCommand s j acked
  have hheld : s.holder w = some j := by rw [State.holder, hw, Position.job]
  cases c with
  | stop => exact effect_stop hstatus rfl hheld lands ends
  | cancel => exact effect_stop hstatus rfl hheld lands ends
  | pause => exact effect_write hstatus rfl hheld (by decide) lands rfl
  | resume => exact effect_write hstatus rfl hheld (by decide) lands rfl
  | start => exact effect_keep hstatus rfl hheld rfl

theorem effect_handlePaused (acked lands ends : Bool) {c : Command}
    (hw : s.worker w = .pausedReading j c) :
    Effect s ((s.ackCommand j acked).handlePaused w j c lands ends) none none := by
  have hstatus := status_ackCommand s j acked
  have hheld : s.holder w = some j := by rw [State.holder, hw, Position.job]
  cases c with
  | stop => exact effect_stop hstatus rfl hheld lands ends
  | cancel => exact effect_stop hstatus rfl hheld lands ends
  | resume => exact effect_write hstatus rfl hheld (by decide) lands rfl
  | pause => exact effect_keep hstatus rfl hheld rfl
  | start => exact effect_keep hstatus rfl hheld rfl

variable [DecidableEq C]

theorem effect_of_step {a : Action J W C} (h : step s a = some t) :
    Effect s t (settlesFor s a) (leaves s a) := by
  cases a with
  | create c j =>
      simp only [step] at h
      split at h
      · next hcall hjob =>
          obtain rfl := Option.some.inj h
          refine .created (j := j) ?_ ?_ rfl
          · rw [State.status, hjob]
            rfl
          · funext k
            unfold State.status State.setCall
            by_cases hk : k = j
            · subst hk
              simp
            · simp [hk]
      · cases h
  | request c r j =>
      simp only [step] at h
      split at h
      · next job hcall hjob =>
          obtain rfl := Option.some.inj h
          split
          · exact .same rfl rfl
          · exact .same rfl rfl
      · cases h
  | merge c =>
      simp only [step] at h
      split at h
      · next r j hcall =>
          obtain rfl := Option.some.inj h
          exact .same rfl rfl
      · cases h
  | issue c =>
      simp only [step] at h
      split at h
      · next r j loaded hcall =>
          obtain rfl := Option.some.inj h
          cases s.flushed j (commandOf r) loaded with
          | none => exact .same rfl rfl
          | some row => exact .same (status_issueCommand s j row) rfl
      · cases h
  | settle c =>
      simp only [step] at h
      split at h
      · next r j hcall =>
          obtain rfl := Option.some.inj h
          have heffect : Effect s ((s.setJobStatus j r.nextStatus).setCall c none) _ none :=
            .settled (status_setJobStatus s j r.nextStatus) rfl
          cases r with
          | stop => simpa [settlesFor, leaves, hcall] using heffect
          | pause => simpa [settlesFor, leaves, hcall] using heffect
          | resume => simpa [settlesFor, leaves, hcall] using heffect
      · cases h
  | list w =>
      simp only [step] at h
      split at h
      · next hw =>
          obtain rfl := Option.some.inj h
          exact effect_move (by rw [State.holder, hw]; rfl)
      · cases h
  | claim w =>
      simp only [step] at h
      split at h
      · next hw =>
          obtain rfl := Option.some.inj h
          exact effect_move (by rw [State.holder, hw]; rfl)
      · next j rest hw =>
          obtain rfl := Option.some.inj h
          have hfree : s.holder w = none := by rw [State.holder, hw]; rfl
          split
          · next hqueued =>
              refine .claimed hqueued hfree ?_ (holder_move _ w (.loading j))
              have hrunning := status_setJobStatus s j .running
              rw [hqueued] at hrunning
              exact hrunning
          · exact effect_move (by rw [hfree]; rfl)
      · cases h
  | giveUp w =>
      simp only [step] at h
      split at h
      · next rest hw =>
          obtain rfl := Option.some.inj h
          exact effect_move (by rw [State.holder, hw]; rfl)
      · cases h
  | load w ok =>
      simp only [step] at h
      split at h
      · next j hw =>
          obtain rfl := Option.some.inj h
          have hheld : s.holder w = some j := by rw [State.holder, hw, Position.job]
          cases ok with
          | true => exact effect_move (by rw [hheld]; rfl)
          | false => exact effect_move (by rw [hheld]; rfl)
      · cases h
  | check w =>
      simp only [step] at h
      split at h
      · next j hw =>
          obtain rfl := Option.some.inj h
          have hheld : s.holder w = some j := by rw [State.holder, hw, Position.job]
          cases s.getCommand j with
          | none => exact .same rfl rfl
          | some c => exact effect_move (by rw [hheld]; rfl)
      · next j hw =>
          obtain rfl := Option.some.inj h
          have hheld : s.holder w = some j := by rw [State.holder, hw, Position.job]
          cases s.getCommand j with
          | none => exact .same rfl rfl
          | some c => exact effect_move (by rw [hheld]; rfl)
      · cases h
  | act w acked lands ends =>
      simp only [step] at h
      split at h
      · next j c hw =>
          obtain rfl := Option.some.inj h
          exact effect_handle acked lands ends hw
      · next j c hw =>
          obtain rfl := Option.some.inj h
          exact effect_handlePaused acked lands ends hw
      · cases h
  | setStatus w preparing lands =>
      simp only [step] at h
      split at h
      · next j hw =>
          obtain rfl := Option.some.inj h
          have hheld : s.holder w = some j := by rw [State.holder, hw, Position.job]
          have hne : (if preparing then TransferStatus.preparing else .running) ≠ .queued := by
            cases preparing <;> decide
          exact effect_write rfl rfl hheld hne lands rfl
      · cases h
  | finish w completed lands =>
      simp only [step] at h
      split at h
      · next j hw =>
          obtain rfl := Option.some.inj h
          have hheld : s.holder w = some j := by rw [State.holder, hw, Position.job]
          have hne : (if completed then TransferStatus.completed else .failed) ≠ .queued := by
            cases completed <;> decide
          exact effect_write rfl rfl hheld hne lands rfl
      · next j hw =>
          obtain rfl := Option.some.inj h
          have hheld : s.holder w = some j := by rw [State.holder, hw, Position.job]
          exact effect_write rfl rfl hheld (by decide) lands rfl
      · cases h
  | leave w =>
      simp only [step] at h
      split at h
      · next j hw =>
          obtain rfl := Option.some.inj h
          have hheld : s.holder w = some j := by rw [State.holder, hw, Position.job]
          rw [leaves, hheld]
          exact .released hheld rfl (holder_move s w .idle)
      · cases h

end Steps

end Effects

end SqlOptima.TransferLifecycle
