import SynapS3.Lib.Lts
import SynapS3.Lib.Table
import SynapS3.Pipeline.Copy
import SynapS3.Pull.Ledger

/-!
# `Pull.Machine` — the tasks of the copies, and the pulls they send

A copy has at most one active task, bound under its work generation. A task acts on its copy by the settlements of
the transfer tasks, each of them one transaction under the fence of generation and task, and any task may try to at
any time, bound or not. A pull runs beside all that in several steps: it is authorized once, loads or makes its
attempt, reserves it together with its checkpoint, and sends the request.

The leases of the task engine are left out, so a task here can do more than one that has to hold a lease. So are
the conditions on a copy that have nothing to do with tasks or attempts.
-/

namespace SynapS3.Pull
open Pipeline (CopyStatus TransferMethod)

/-! ## The state -/

/-- `model.StorageCopy`; `sealed` if it has a `commit_position`. -/
structure Copy where
  content : Nat
  dataSet : Nat
  status : CopyStatus := .pending
  method : TransferMethod
  sealed : Bool := false
  workGeneration : Nat := 0
  activeTask : Option Nat := none
  storeAttempt : Nat := 0
  bytesTransferred : Nat := 0
  deriving DecidableEq

/-- `pullCheckpoint`; the execution identity and the time of the next request are left out. -/
structure Checkpoint where
  attempt : Nat
  accepted : Bool := false
  deriving DecidableEq

/-- A transfer task of a copy. -/
structure CopyTask where
  copy : Nat
  generation : Nat
  retryOf : Option Nat := none
  checkpoint : Option Checkpoint := none
  deriving DecidableEq

inductive Phase where
  | authorized
  /-- An open attempt that the task has no checkpoint for. -/
  | found (a : Attempt)
  | loaded (a : Option Attempt)
  | prepared (a : Attempt)
  | sendable (a : Attempt)
  | sent (a : Attempt)
  deriving DecidableEq

/-- An execution of a pull: `mayPull` if it executes, and what it has read of its copy and its task. -/
structure Run where
  task : Nat
  content : Nat
  dataSet : Nat
  mayPull : Bool
  checkpoint : Option Checkpoint
  phase : Phase := .authorized
  deriving DecidableEq

inductive Event where
  | reserved (task attempt : Nat) (request : Request)
  | sent (task attempt : Nat) (request : Request)
  deriving DecidableEq

/-- Copies, their tasks and attempts, the pulls in progress, and what was reserved and sent. -/
structure State where
  copies : Table Copy := .empty
  tasks : Table CopyTask := .empty
  attempts : Ledger := []
  runs : Table Run := .empty
  log : List Event := []

/-- The fence `id = ? AND work_generation = ? AND active_task_id = ?` with the task's own input. -/
def State.fenced (s : State) (task : Nat) : Option (CopyTask × Copy) :=
  match s.tasks.row task with
  | none => none
  | some t =>
    match s.copies.row t.copy with
    | none => none
    | some c => if c.workGeneration = t.generation ∧ c.activeTask = some task then some (t, c) else none

def State.setCopy (s : State) (id : Nat) (f : Copy → Copy) : State := { s with copies := s.copies.modify id f }

/-! ## Binding -/

/-- A new task for a copy without one: `NextCopyWorkGeneration`, the task, and `BindCopyTask`. -/
def State.bindCopyTask (s : State) (id : Nat) : Option State :=
  match s.copies.row id with
  | none => none
  | some c =>
    if c.activeTask = none then
      some { s with
        tasks := s.tasks.insert { copy := id, generation := c.workGeneration + 1 }
        copies := s.copies.modify id fun c =>
          { c with workGeneration := c.workGeneration + 1, activeTask := some s.tasks.next } }
    else none

/-- `enqueueSuccessorCopyTask`: the next task and `ReplaceCopyTask`. -/
def State.replaceCopyTask (s : State) (task : Nat) : Option State :=
  match s.fenced task with
  | none => none
  | some (t, _) =>
    some { s with
      tasks := s.tasks.insert { copy := t.copy, generation := t.generation + 1 }
      copies := s.copies.modify t.copy fun c =>
        { c with workGeneration := t.generation + 1, activeTask := some s.tasks.next } }

/-- `pullRetryCheckpoint`, for a task that owns its copy: the checkpoint stays while its attempt is open, and a
    migration whose attempt was abandoned begins anew. -/
def State.retryCheckpoint (s : State) (t : CopyTask) (c : Copy) (migrating : Bool) : Option (Option Checkpoint) :=
  match t.checkpoint with
  | none => some none
  | some k =>
    match s.attempts.getFor k.attempt c.content c.dataSet with
    | none => none
    | some a =>
      if a.status = .attempted then some (some k)
      else if a.resolved && c.status == .pending && c.method == .peerPull && !c.sealed && migrating then some none
      else none

/-- The manual retry of a failed task that owns its copy: `TransferCopyTaskOwner` to the new task. -/
def State.retryTask (s : State) (task : Nat) (migrating : Bool) : Option State :=
  match s.fenced task with
  | none => none
  | some (t, c) =>
    match s.retryCheckpoint t c migrating with
    | none => none
    | some checkpoint =>
      some { s with
        tasks := s.tasks.insert { t with retryOf := some task, checkpoint := checkpoint }
        copies := s.copies.modify t.copy fun c => { c with activeTask := some s.tasks.next } }

def State.resumeFailedStoreCopy (s : State) (task : Nat) : Option State :=
  match s.tasks.row task with
  | none => none
  | some t =>
    match s.copies.row t.copy with
    | none => none
    | some c =>
      if c.workGeneration = t.generation ∧ c.activeTask = none ∧ c.status = .failed ∧ c.sealed = false ∧
          c.method.fromCache = true ∧ s.attempts.unresolved c.content c.dataSet = none then
        some { s with
          tasks := s.tasks.insert { copy := t.copy, generation := t.generation + 1, retryOf := some task }
          copies := s.copies.modify t.copy fun c =>
            { c with status := .pending, workGeneration := t.generation + 1, activeTask := some s.tasks.next } }
      else none

/-! ## The settlements of a task -/

def State.reservePullRequest (s : State) (task attempt : Nat) (request : Request) : Option State :=
  match s.fenced task with
  | none => none
  | some (_, c) =>
    (s.attempts.reserve attempt c.content c.dataSet request).map fun l =>
      { s with attempts := l, log := s.log ++ [.reserved task attempt request] }

inductive TaskOp where
  | beginProgress (attempt : Nat)
  | recordProgress (attempt bytes : Nat)
  | advance
  | complete
  /-- `finishPieceTransfer`, of a store or of the pull with that attempt. -/
  | finish (attempt : Option Nat)
  | fail (attempt : Option Nat)
  | release (attempt : Option Nat)
  /-- `SetCopyCacheRestore` and the store that follows. -/
  | restore (attempt : Option Nat)
  | abandon (attempt : Nat)
  deriving DecidableEq

def Ledger.onAttempt (l : Ledger) (attempt : Option Nat) (f : Nat → Option Ledger) : Option Ledger :=
  match attempt with
  | none => some l
  | some id => f id

def State.settled (s : State) (id : Nat) (l : Option Ledger) (f : Copy → Copy) : Option State :=
  l.map fun l => { s with attempts := l, copies := s.copies.modify id fun c => { f c with activeTask := none } }

def State.taskOp (s : State) (task : Nat) (op : TaskOp) : Option State :=
  match s.fenced task with
  | none => none
  | some (t, c) =>
    match op with
    | .beginProgress n =>
      if c.storeAttempt + 1 = n ∧ c.status = .pending ∧ c.method.fromCache = true then
        some (s.setCopy t.copy fun c => { c with storeAttempt := n, bytesTransferred := 0 })
      else none
    | .recordProgress n bytes =>
      if c.storeAttempt = n ∧ c.status = .pending ∧ c.method.fromCache = true then
        some (s.setCopy t.copy fun c => { c with bytesTransferred := max c.bytesTransferred bytes })
      else none
    | .advance => s.replaceCopyTask task
    | .complete => s.settled t.copy (some s.attempts) fun c => c
    | .finish a =>
      if c.status = .failed then none
      else s.settled t.copy (s.attempts.onAttempt a fun id => s.attempts.resolvePull id c.content c.dataSet) fun c =>
        if c.status = .pending then { c with status := if c.sealed then .committing else .pieceReady } else c
    | .fail a =>
      if c.sealed ∧ c.status ≠ .committed then none
      else s.settled t.copy (s.attempts.onAttempt a fun id => s.attempts.abandonPull id c.content c.dataSet) fun c =>
        if c.status = .committed then c else { c with status := .failed }
    | .release a =>
      if !c.sealed then none
      else s.settled t.copy (s.attempts.onAttempt a fun id => s.attempts.abandonPull id c.content c.dataSet) fun c => c
    | .restore a =>
      if c.status = .pending ∧ c.method = .peerPull then
        ((s.attempts.onAttempt a fun id => s.attempts.abandonOpen id c.content c.dataSet).bind fun l =>
          (s.setCopy t.copy fun c =>
            { c with method := .cacheRestore, storeAttempt := 0, bytesTransferred := 0 }).replaceCopyTask task
          |>.map ({ · with attempts := l }))
      else none
    | .abandon id =>
      if c.status = .pending ∧ c.method = .peerPull ∧ c.sealed = false then
        (s.attempts.abandonOpen id c.content c.dataSet).map ({ s with attempts := · })
      else none

/-! ## What others do to a copy -/

/-- The steps of plans, replacements, registrations and deletions. -/
inductive CopyOp where
  /-- `reopenFailedUploadCopy` with the method that was chosen. -/
  | reopen (method : TransferMethod)
  /-- `releaseReplacedCopy`, for a copy without a signature. -/
  | handOver
  | cancel
  | promote
  /-- A registration signs, settles or gives back the copy. -/
  | register (status : CopyStatus) (sealed : Bool)
  deriving DecidableEq

def State.copyOp (s : State) (id : Nat) (op : CopyOp) : Option State :=
  match s.copies.row id with
  | none => none
  | some c =>
    match op with
    | .reopen method =>
      if c.status = .failed ∧ c.activeTask = none ∧ c.sealed = false then
        some { s.setCopy id (fun c =>
            { c with status := .pending, method := method, storeAttempt := 0, bytesTransferred := 0 })
          with attempts := s.attempts.abandonAll c.content c.dataSet }
      else none
    | .handOver =>
      if c.status.live ∧ c.sealed = false ∧ s.attempts.unresolved c.content c.dataSet = none then
        some (s.setCopy id fun c =>
          { c with status := .failed, activeTask := none, workGeneration := c.workGeneration + 1 })
      else none
    | .cancel =>
      if c.status.live ∧ c.sealed = false ∧ s.attempts.unresolved c.content c.dataSet = none then
        some (s.setCopy id fun c => { c with status := .failed, activeTask := none })
      else none
    | .promote =>
      if c.status = .pending ∧ c.method = .peerPull ∧ !s.attempts.any (·.isFor c.content c.dataSet) then
        some (s.setCopy id fun c => { c with method := .ingress })
      else none
    | .register status sealed =>
      if c.status.live then some (s.setCopy id fun c => { c with status := status, sealed := sealed }) else none

/-- `CreateUploadCopiesForBindings`, one row; a copy of the same content and data set is left alone. -/
def State.createCopy (s : State) (content dataSet : Nat) (method : TransferMethod) : Option State :=
  if s.copies.any fun _ c => c.content == content && c.dataSet == dataSet then none
  else some { s with copies := s.copies.insert { content := content, dataSet := dataSet, method := method } }

/-! ## A pull -/

/-- `authorizeCopyTask`, and the checkpoint that the execution was claimed with. -/
def State.startPull (s : State) (task : Nat) (mayPull : Bool) : Option State :=
  match s.fenced task with
  | none => none
  | some (t, c) => some { s with runs := s.runs.insert ⟨task, c.content, c.dataSet, mayPull, t.checkpoint, .authorized⟩ }

def State.setRun (s : State) (id : Nat) (checkpoint : Option Checkpoint) (phase : Phase) : State :=
  { s with runs := s.runs.modify id fun r => { r with checkpoint := checkpoint, phase := phase } }

def State.writeCheckpoint (s : State) (task : Nat) (k : Checkpoint) : State :=
  { s with tasks := s.tasks.modify task fun t => { t with checkpoint := some k } }

/-- One step of `runPull`; `attempt` and `request` are what a fresh attempt would be. -/
def State.pullStep (s : State) (id : Nat) (attempt : Nat) (request : Request) : Option State :=
  match s.runs.row id with
  | none => none
  | some r =>
    match r.phase with
    | .authorized =>
      match r.checkpoint with
      | some k =>
        (s.attempts.getFor k.attempt r.content r.dataSet).map fun a => s.setRun id r.checkpoint (.loaded (some a))
      | none =>
        match s.attempts.unresolved r.content r.dataSet with
        | some a => some (s.setRun id none (.found a))
        | none => some (s.setRun id none (.loaded none))
    | .found a =>
      -- `WriteCheckpointWith`
      (s.reservePullRequest r.task a.id a.request).map fun s =>
        (s.writeCheckpoint r.task { attempt := a.id }).setRun id (some { attempt := a.id }) (.loaded (some a))
    | .loaded none =>
      if r.mayPull then
        some (s.setRun id (some { attempt := attempt })
          (.prepared ⟨attempt, r.content, r.dataSet, request, .attempted, false⟩))
      else none
    | .loaded (some a) =>
      if a.resolved then none
      else match r.checkpoint with
        | none => none
        | some k =>
          if k.accepted then some (s.setRun id r.checkpoint (.sendable a))
          else if r.mayPull then some (s.setRun id r.checkpoint (.prepared a))
          else none
    | .prepared a =>
      -- `WithCheckpointedEffect`
      (s.reservePullRequest r.task a.id a.request).map fun s =>
        (s.writeCheckpoint r.task { attempt := a.id }).setRun id (some { attempt := a.id }) (.sendable a)
    | .sendable a =>
      some { s.setRun id r.checkpoint (.sent a) with log := s.log ++ [.sent r.task a.id a.request] }
    | .sent a => some (s.writeCheckpoint r.task { attempt := a.id, accepted := true })

/-! ## The system -/

inductive Action where
  | create (content dataSet : Nat) (method : TransferMethod)
  | bind (copy : Nat)
  | retry (task : Nat) (migrating : Bool)
  | resume (task : Nat)
  | task (task : Nat) (op : TaskOp)
  | copy (copy : Nat) (op : CopyOp)
  | startPull (task : Nat) (mayPull : Bool)
  | pull (run : Nat) (attempt : Nat) (request : Request)
  deriving DecidableEq

def step (s : State) : Action → Option State
  | .create content dataSet method => s.createCopy content dataSet method
  | .bind copy => s.bindCopyTask copy
  | .retry task migrating => s.retryTask task migrating
  | .resume task => s.resumeFailedStoreCopy task
  | .task task op => s.taskOp task op
  | .copy copy op => s.copyOp copy op
  | .startPull task mayPull => s.startPull task mayPull
  | .pull run attempt request => s.pullStep run attempt request

def pullMachine : Lts State Action where
  init s := s = {}
  step := step

end SynapS3.Pull
