import SynapS3.Task.Model

/-!
# `Task.Repo` — the transactions of the task repository

Each method of the repository is a `TaskTx`. A clock read is a step of the transaction, taken where the
source takes it, so a method that reads the clock several times can see the lease run out between two of its
own statements. A row lock needs no statement of its own: a transaction is atomic here.

`SKIP LOCKED` makes a claim pass over rows that another open transaction holds; those rows are an argument
(`locked`) that the environment chooses.
-/

namespace SynapS3.Tasks

variable {ι κ : Type}

def readClock : TaskTx ι κ Int := do
  let s ← Tx.read
  let now := s.clock + s.ticks.headD 0
  Tx.write { s with clock := now, ticks := s.ticks.tail }
  pure now

/-- `GetByID` and `GetForUpdate`. -/
def getByID (id : Nat) : TaskTx ι κ (Option (Task ι κ)) := do
  let s ← Tx.read
  pure (s.tasks.row id)

def setTask (id : Nat) (f : Task ι κ → Task ι κ) : TaskTx ι κ Unit := do
  let s ← Tx.read
  Tx.write { s with tasks := s.tasks.modify id f }

def updateTasks (p : Nat → Task ι κ → Bool) (f : Task ι κ → Task ι κ) : TaskTx ι κ Unit := do
  let s ← Tx.read
  Tx.write { s with tasks := s.tasks.updateWhere p fun _ => f }

/-- The row of `SELECT … WHERE id = ? AND status = 'running' AND claim_generation = ? AND lease_until > ?`,
    or `err` where that selects nothing. -/
def heldRow (id generation : Nat) (now : Int) (err : RepoError) : TaskTx ι κ (Task ι κ) := do
  let row ← getByID id
  let row ← Tx.orFail row err
  Tx.require (row.heldBy generation now) err
  pure row

/-- An `UPDATE` under the same condition, which answers `err` unless it changes exactly one row. -/
def fencedUpdate (id generation : Nat) (now : Int) (err : RepoError) (f : Task ι κ → Task ι κ) :
    TaskTx ι κ Unit := do
  let _ ← heldRow id generation now err
  setTask id f

/-! ## Claiming -/

/-- The column a claim of rows in `status` orders and filters by: `lease_until` or `available_at`. -/
def dueAt (status : TaskStatus) (r : Task ι κ) : Option Int :=
  if status = .running then r.leaseUntil else some r.availableAt

def earliest (key : Nat → Int) : List Nat → Option Nat
  | [] => none
  | i :: is =>
    match earliest key is with
    | none => some i
    | some j => if key i ≤ key j then some i else some j

/-- The head of `ORDER BY due, id LIMIT 1` among the due, admitted and unlocked rows in `status`. -/
def claimCandidate (tasks : Table (Task ι κ)) (status : TaskStatus) (now : Int) (filter : TaskClaimFilter)
    (locked : List Nat) : Option Nat :=
  earliest (fun i => ((tasks.row i).bind (dueAt status)).getD 0) <| tasks.ids fun i r =>
    r.status == status && (dueAt status r).any (· ≤ now) && !filter.excludedTypes.contains r.type &&
      !filter.excludedTaskIDs.contains i && !locked.contains i

/-- The `SET` list of the claim statements. Only the claim of an expired round turns to recovery. -/
def claimRow (status : TaskStatus) (leaseUntil : Int) (r : Task ι κ) : Task ι κ :=
  { r with
    status := .running
    resumeMode := if status = .running then .recover else r.resumeMode
    claimGeneration := r.claimGeneration + 1
    leaseUntil := some leaseUntil
    finishedAt := none
    waitReason := none }

/-- `UPDATE tasks SET … WHERE id = candidate RETURNING *`. -/
def claimTask (id : Nat) (status : TaskStatus) (leaseUntil : Int) : TaskTx ι κ (Option (Nat × Task ι κ)) := do
  setTask id (claimRow status leaseUntil)
  let row ← getByID id
  pure (row.map fun r => (id, r))

def claimTaskWithSQL (status : TaskStatus) (now leaseUntil : Int) (filter : TaskClaimFilter)
    (locked : List Nat) : TaskTx ι κ (Option (Nat × Task ι κ)) := do
  let s ← Tx.read
  match claimCandidate s.tasks status now filter locked with
  | none => pure none
  | some id => claimTask id status leaseUntil

/-- `claimNextTask`: expired rounds first, then pending ones, at one clock read. -/
def claimNextTask (leaseDuration : Int) (filter : TaskClaimFilter) (locked : List Nat) :
    TaskTx ι κ (Option (Nat × Task ι κ)) := do
  let now ← readClock
  let leaseUntil := now + leaseDuration
  match ← claimTaskWithSQL .running now leaseUntil filter locked with
  | some task => pure (some task)
  | none => claimTaskWithSQL .pending now leaseUntil filter locked

/-- `claimFilteredTask`: the candidate is chosen at `selectionNow`, the lease runs from a later read. Heads
    that are locked or that changed since the selection are passed over, as `locked` rows are. The source selects
    candidates in a loop that leaves out those already tried; that its choice is `claimCandidate` is shown for
    `selectRounds` in `Task.Claim`. -/
def claimFilteredTask (leaseDuration : Int) (filter : TaskClaimFilter) (selectionNow : Int)
    (status : TaskStatus) (locked : List Nat) : TaskTx ι κ (Option (Nat × Task ι κ)) := do
  let s ← Tx.read
  match claimCandidate s.tasks status selectionNow filter locked with
  | none => pure none
  | some id =>
    let claimNow ← readClock
    claimTask id status (claimNow + leaseDuration)

def claimNext (leaseDuration : Int) (filter : TaskClaimFilter) (locked : List Nat) :
    TaskTx ι κ (Option (Nat × Task ι κ)) := do
  Tx.require (0 < leaseDuration) .invalidInput
  if filter.excludedTypes.isEmpty then
    claimNextTask leaseDuration filter locked
  else
    let selectionNow ← readClock
    match ← claimFilteredTask leaseDuration filter selectionNow .running locked with
    | some task => pure (some task)
    | none => claimFilteredTask leaseDuration filter selectionNow .pending locked

/-! ## Statements of a claim holder -/

/-- `MarkWorkStarted`: the first start is kept. -/
def markWorkStarted (id generation : Nat) (startedAt : Option Int) : TaskTx ι κ Unit := do
  Tx.require startedAt.isSome .invalidInput
  let now ← readClock
  fencedUpdate id generation now .taskLeaseLost fun r => { r with workStartedAt := r.workStartedAt.or startedAt }

def renewLease (id generation : Nat) (leaseDuration : Int) : TaskTx ι κ Int := do
  let now ← readClock
  fencedUpdate id generation now .taskLeaseLost fun r => { r with leaseUntil := some (now + leaseDuration) }
  pure (now + leaseDuration)

/-- `WriteCheckpoint`: from here on the round can only be recovered. -/
def writeCheckpoint (id generation : Nat) (checkpoint : κ) : TaskTx ι κ Unit := do
  let now ← readClock
  fencedUpdate id generation now .taskLeaseLost fun r => { r with checkpoint := some checkpoint, resumeMode := .recover }

/-- `ShortenLease`: shortening never extends a lease that already expires sooner. -/
def shortenLease (id generation : Nat) (duration : Int) : TaskTx ι κ Unit := do
  Tx.require (0 < duration) .invalidInput
  let now ← readClock
  fencedUpdate id generation now .taskLeaseLost fun r =>
    { r with resumeMode := .recover, leaseUntil := r.leaseUntil.map fun lease => min lease (now + duration) }

def validateClaim (id generation : Nat) : TaskTx ι κ Unit := do
  let now ← readClock
  let _ ← heldRow id generation now .taskLeaseLost
  pure ()

def validTaskTransition (transition : TaskTransition) : Bool :=
  (match transition.observation with
    | some (some state) => !blank state.key
    | _ => true) &&
  match transition.status with
  | .pending => transition.availableAt.isSome
  | .completed | .failed | .cancelled => true
  | .running => false

def settleRow (transition : TaskTransition) (now : Int) (r : Task ι κ) : Task ι κ :=
  { r with
    runtime := match transition.observation with
      | some state => { r.runtime with observation := state }
      | none => r.runtime
    status := transition.status
    waitReason := transition.waitReason
    failureReason := transition.failureReason
    leaseUntil := none
    workStartedAt :=
      if transition.clearWorkStartedAt then none else r.workStartedAt.or transition.workStartedAt
    retryCount := if transition.incrementRetry then r.retryCount + 1 else r.retryCount
    resumeMode := transition.resumeMode
    availableAt := if transition.status = .pending then transition.availableAt.getD r.availableAt
      else r.availableAt
    finishedAt := if transition.status = .pending then none else some now }

def settle (id generation : Nat) (transition : TaskTransition) : TaskTx ι κ Unit := do
  Tx.require (validTaskTransition transition) .invalidInput
  let now ← readClock
  fencedUpdate id generation now .taskLeaseLost (settleRow transition now)

/-- `updateOperation`: `fn` changes the open operation between two checks of the fence, and only the three
    operation fields of the stored runtime are replaced. -/
def updateOperation (id generation : Nat)
    (fn : Task ι κ → TaskRuntime → TaskTx ι κ TaskRuntime) : TaskTx ι κ Unit := do
  validateClaim id generation
  let row ← getByID id
  let row ← Tx.orFail row .taskLeaseLost
  let runtime ← fn row row.runtime
  let now ← readClock
  fencedUpdate id generation now .notFound fun r =>
    { r with runtime := { row.runtime with
        operationKey := runtime.operationKey
        operationStartedAt := runtime.operationStartedAt
        lastAdmittedAttempt := runtime.lastAdmittedAttempt } }

def observeRuntime (id generation : Nat) (key : String) (_row : Task ι κ) (runtime : TaskRuntime) :
    TaskTx ι κ TaskRuntime := do
  Tx.require (runtime.operationKey == "" || runtime.operationKey == key) .taskOperationUnresolved
  let now ← readClock
  let runtime := if runtime.operationKey = "" then
      { runtime with operationKey := key, operationStartedAt := some now, lastAdmittedAttempt := 0 }
    else runtime
  Tx.require runtime.operationStartedAt.isSome .invalidInput
  let startedAt ← readClock
  markWorkStarted id generation (some startedAt)
  pure runtime

def observeOperation (id generation : Nat) (key : String) : TaskTx ι κ Unit := do
  Tx.require (key != "") .invalidInput
  updateOperation id generation (observeRuntime id generation key)

/-- The closure of `AdmitEffect`: an attempt admits its operation once. -/
def admitRuntime (id generation : Nat) (key : String) (checkpoint : κ) (row : Task ι κ)
    (runtime : TaskRuntime) : TaskTx ι κ TaskRuntime := do
  Tx.require (runtime.operationKey == "" || runtime.operationKey == key) .taskOperationUnresolved
  let now ← readClock
  let runtime := if runtime.operationKey = "" then
      { runtime with operationKey := key, operationStartedAt := some now }
    else runtime
  Tx.require (runtime.lastAdmittedAttempt < row.retryCount + 1) .taskEffectAlreadyAdmitted
  writeCheckpoint id generation checkpoint
  let startedAt ← readClock
  markWorkStarted id generation (some startedAt)
  pure { runtime with lastAdmittedAttempt := row.retryCount + 1 }

def admitEffect (id generation : Nat) (key : String) (checkpoint : κ) : TaskTx ι κ Unit := do
  Tx.require (key != "") .invalidInput
  updateOperation id generation (admitRuntime id generation key checkpoint)

def resolveRuntime (key : String) (_row : Task ι κ) (runtime : TaskRuntime) : TaskTx ι κ TaskRuntime := do
  Tx.require (runtime.operationKey == key) .conflict
  pure { runtime with operationKey := "", operationStartedAt := none, lastAdmittedAttempt := 0 }

def resolveOperation (id generation : Nat) (key : String) : TaskTx ι κ Unit :=
  updateOperation id generation (resolveRuntime key)

/-! ## Statements without a claim -/

/-- The shared body of the `WakePending` family: only waiting rounds move, and only to the present. -/
def wakeWhere (p : Nat → Task ι κ → Bool) : TaskTx ι κ Unit := do
  let now ← readClock
  updateTasks
    (fun i r => p i r && r.status == .pending && r.waitReason.isSome && decide (now < r.availableAt))
    fun r => { r with availableAt := now }

def wakePending (ids : List Nat) : TaskTx ι κ Unit := do
  Tx.require (ids.all (0 < ·)) .invalidInput
  wakeWhere fun i _ => ids.contains i

def wakePendingOfTypes (ids : List Nat) (types : List TaskType) (skipWaitReasons : List String) :
    TaskTx ι κ Unit := do
  Tx.require (!types.isEmpty && ids.all (0 < ·)) .invalidInput
  wakeWhere fun i r => ids.contains i && types.contains r.type &&
    !r.waitReason.any skipWaitReasons.contains && !r.failureReason.any skipWaitReasons.contains

def getByIdentity (tasks : Table (Task ι κ)) (task : Task ι κ) : Option Nat :=
  (tasks.ids fun _ r => r.type == task.type && r.subjectType == task.subjectType &&
    r.subjectKey == task.subjectKey && r.generation == task.generation && r.supersededAt.isNone).head?

/-- The parent check of `Enqueue`: a successor needs a superseded terminal parent without a child. -/
def requireRetryParent (tasks : Table (Task ι κ)) : Option Nat → Bool
  | none => true
  | some parentID =>
    (tasks.row parentID).any (fun parent => parent.supersededAt.isSome && parent.status.terminal) &&
      !tasks.any fun _ r => r.retryOfTaskID == some parentID

/-- `Enqueue`: the current round of an identity is returned instead of creating another. The last two
    conditions are the row constraints on an unclaimed round. -/
def enqueue (task : Task ι κ) (availableAt : Option Int) : TaskTx ι κ (Nat × Bool) := do
  Tx.require (task.subjectType != "" && task.subjectKey != "" && task.generation.all (0 ≤ ·) &&
    decide (1 ≤ task.inputVersion) && task.status == .pending && task.supersededAt.isNone &&
    task.acknowledgedAt.isNone) .invalidInput
  let now ← readClock
  let s ← Tx.read
  match task.generation.bind fun _ => getByIdentity s.tasks task with
  | some existing => pure (existing, false)
  | none =>
    Tx.require (requireRetryParent s.tasks task.retryOfTaskID) .conflict
    Tx.require (task.leaseUntil.isNone && task.finishedAt.isNone) .invalidInput
    Tx.write { s with tasks := s.tasks.insert { task with availableAt := availableAt.getD now } }
    pure (s.tasks.next, true)

/-- `AcknowledgeFailed`. `held` says that a submitted commit request under attention or a removal request
    still belongs to the round. -/
def acknowledgeFailed (id : Nat) (held : Bool) : TaskTx ι κ Unit := do
  let row ← getByID id
  let row ← Tx.orFail row .notFound
  Tx.require (row.status == .failed) .notFound
  Tx.require (!held) .conflict
  let now ← readClock
  if row.acknowledgedAt.isSome then pure ()
  else setTask id fun r => { r with acknowledgedAt := some now }

/-- `acknowledgeQuery`: the live failures that `p` selects. -/
def acknowledgeQuery (p : Nat → Task ι κ → Bool) : TaskTx ι κ Unit := do
  let now ← readClock
  updateTasks
    (fun i r => p i r && r.status == .failed && r.acknowledgedAt.isNone && r.supersededAt.isNone)
    fun r => { r with acknowledgedAt := some now }

def supersedeTerminal (id : Nat) : TaskTx ι κ Unit := do
  let now ← readClock
  let row ← getByID id
  let row ← Tx.orFail row .conflict
  Tx.require (row.supersededAt.isNone && row.status.terminal) .conflict
  setTask id fun r => { r with supersededAt := some now }

end SynapS3.Tasks
