import SynapS3.Queue.Model

/-!
# `Queue.Service` — the transactions that create, retry, dispatch and settle rounds

The writing half of `worker.Service`, `worker.Scheduler` and the engine's settlement over the two tables,
statement by statement. An insert into `tasks` writes its index entries first, in the order in which the
database checks them; superseding a round takes its entry out of `uq_tasks_identity`.

Hooks of the task definitions read and write tables of their own, and a few of them this queue (`Op`). What they
decide is an argument here (the request, the checkpoint and the mode of a successor, and what is done with it in the
same transaction), and where one refuses, the statement after it may fail just as well.
-/

namespace SynapS3.Queue

open ReadCommitted Tasks

variable {ι κ : Type} [DecidableEq ι]

/-- `worker.EnqueueRequest`. -/
structure EnqueueRequest (ι : Type) where
  type : TaskType
  input : ι
  availableAt : Option Int := none

def getForUpdate (id : Nat) : QueueSql ι κ (Option (Task ι κ)) := Sql.lock (Row.task id)

def getScheduleForUpdate (key : String) : QueueSql ι κ (Option TaskSchedule) := Sql.lock (Row.schedule key)

/-! ## Creating rounds -/

def prepare (g : Registry ι κ) (request : EnqueueRequest ι) : QueueSql ι κ (Task ι κ) := do
  let canonical ← Sql.orRefuse (g.canonicalize request.type request.input) .unknownInput
  let (subjectType, subjectKey, generation) ← Sql.orRefuse (g.identity request.type canonical) .unknownInput
  let now ← Sql.now
  pure {
    type := request.type
    inputVersion := g.inputVersion request.type
    subjectType := subjectType
    subjectKey := subjectKey
    generation := generation
    retryOfTaskID := none
    input := canonical
    checkpoint := none
    runtime := {}
    status := .pending
    resumeMode := .execute
    availableAt := request.availableAt.getD now
    waitReason := none
    retryCount := 0
    failureReason := none
    claimGeneration := 0
    leaseUntil := none
    finishedAt := none
    workStartedAt := none
    acknowledgedAt := none
    supersededAt := none }

/-- The parent check of `Enqueue`: every successor is created under its parent's lock. -/
def requireParent : Option Nat → QueueSql ι κ Unit
  | none => pure ()
  | some parentID => do
    let parent ← getForUpdate parentID
    let parent ← Sql.orRefuse parent (.repo .conflict)
    Sql.demand (parent.supersededAt.isSome && parent.status.terminal) (.repo .conflict)
    let (rows, _) ← Sql.look
    Sql.demand (getDirectSuccessor rows parentID).isNone (.repo .conflict)

/-- The entry of a new task in `uq_tasks_retry_parent`; the row constraint that a parent is older is checked
    with it. -/
def insertRetryEntry (id : Nat) : Option Nat → QueueSql ι κ Unit
  | none => pure ()
  | some parentID => do
    let alone ← Sql.insert (Row.child parentID) id
    Sql.demand alone .uniqueViolation
    Sql.demand (decide (parentID < id)) (.repo .conflict)

def insertTask (id : Nat) (task : Task ι κ) : QueueSql ι κ (Nat × Task ι κ × Bool) := do
  insertRetryEntry id task.retryOfTaskID
  let fresh ← Sql.insert (Row.task id) task
  Sql.demand fresh .uniqueViolation
  pure (id, task, true)

/-- `Enqueue`: the current round of an identity is returned instead of creating another. -/
def enqueue (task : Task ι κ) : QueueSql ι κ (Nat × Task ι κ × Bool) := do
  Sql.demand (task.subjectType != "" && task.subjectKey != "" && task.generation.all (0 ≤ ·) &&
    decide (1 ≤ task.inputVersion) && task.status == .pending && task.supersededAt.isNone &&
    task.acknowledgedAt.isNone) (.repo .invalidInput)
  match identityOf task with
  | none =>
    requireParent task.retryOfTaskID
    let id ← Sql.nextval
    insertTask id task
  | some k =>
    let (rows, _) ← Sql.look
    match getByIdentity rows k with
    | some (id, existing) => pure (id, existing, false)
    | none =>
      requireParent task.retryOfTaskID
      let id ← Sql.nextval
      if ← Sql.insert (Row.identity k) id then
        insertTask id task
      else
        -- `ON CONFLICT DO NOTHING`: another transaction committed this identity first
        let (rows, _) ← Sql.look
        let (id, existing) ← Sql.orRefuse (getByIdentity rows k) (.repo .taskIdentityContended)
        pure (id, existing, false)

def enqueuePrepared (g : Registry ι κ) (task : Task ι κ) : QueueSql ι κ (Nat × Task ι κ × Bool) := do
  let (id, stored, created) ← enqueue task
  if created then pure (id, stored, true)
  else
    Sql.demand (stored.inputVersion == task.inputVersion) .inputConflict
    Sql.demand (g.canonicalize task.type stored.input == some task.input) .inputConflict
    pure (id, stored, false)

/-- `SupersedeTerminal`; the round leaves `uq_tasks_identity`. -/
def supersedeTerminal (id : Nat) : QueueSql ι κ Unit := do
  let now ← Sql.now
  let found ← Sql.update (Row.task id) fun t =>
    if t.supersededAt = none ∧ t.status.terminal = true then some (some { t with supersededAt := some now })
    else none
  Sql.demand found (.repo .conflict)
  let (rows, _) ← Sql.look
  match (rows (.task id)).bind identityOf with
  | none => pure ()
  | some k =>
    let _ ← Sql.update (Row.identity k) fun entry => if entry = id then some none else none
    pure ()

/-! ## Retrying -/

/-- `Service.InspectRetryWithRepositories`, without the domain's own inspection. -/
def inspectRetry (g : Registry ι κ) (id : Nat) (task : Task ι κ) : QueueSql ι κ Unit := do
  Sql.demand (task.status == .failed && task.supersededAt.isNone && g.manualRetryAllowed task) .retryUnsupported
  Sql.demand (task.inputVersion == g.inputVersion task.type) (.repo .conflict)
  Sql.demand (g.canonicalize task.type task.input).isSome (.repo .conflict)
  if isRecurringSystem task.type then
    let (rows, _) ← Sql.look
    Sql.demand (getByTaskID g rows id).isSome (.repo .conflict)
  else pure ()

/-- A successor takes the place of a stopped round: the round is superseded, and nothing else may hold its
    identity. -/
def succeed (g : Registry ι κ) (source : Nat) (prepared : Task ι κ) : QueueSql ι κ Nat := do
  supersedeTerminal source
  let (id, _, created) ← enqueuePrepared g { prepared with retryOfTaskID := some source }
  Sql.demand created (.repo .conflict)
  pure id

/-- `Scheduler.RetryInTransaction`. The scheduler is authorized for `types`. -/
def retryInTransaction (g : Registry ι κ) (types : List TaskType) (sourceID : Nat) (availableAt : Option Int)
    (checkpoint : Option κ) : QueueSql ι κ Nat := do
  let source ← getForUpdate sourceID
  let source ← Sql.orRefuse source (.repo .notFound)
  Sql.demand (types.contains source.type) (.repo .invalidInput)
  let (rows, _) ← Sql.look
  match getDirectSuccessor rows sourceID with
  | some (next, _) => pure next
  | none =>
    Sql.demand (source.status == .failed && source.supersededAt.isNone) (.repo .conflict)
    inspectRetry g sourceID source
    let prepared ← prepare g ⟨source.type, source.input, availableAt⟩
    succeed g sourceID { prepared with checkpoint := checkpoint, resumeMode := .recover }

def enqueueRecoveryInTransaction (g : Registry ι κ) (types : List TaskType) (sourceID : Nat)
    (request : EnqueueRequest ι) : QueueSql ι κ Nat := do
  Sql.demand (types.contains request.type) (.repo .invalidInput)
  let source ← getForUpdate sourceID
  let source ← Sql.orRefuse source (.repo .notFound)
  Sql.demand (types.contains source.type) (.repo .invalidInput)
  let (rows, _) ← Sql.look
  match getDirectSuccessor rows sourceID with
  | some (next, _) => pure next
  | none =>
    Sql.demand (source.status == .failed && source.supersededAt.isNone) (.repo .conflict)
    let prepared ← prepare g request
    succeed g sourceID prepared

def enqueueOrReplaceTerminalInTransaction (g : Registry ι κ) (request : EnqueueRequest ι) :
    QueueSql ι κ (Nat × Bool) := do
  Sql.demand (request.type == .uploadPlan) (.repo .invalidInput)
  let prepared ← prepare g request
  let (id, stored, created) ← enqueuePrepared g prepared
  if created then pure (id, true)
  else match stored.status with
    | .pending | .running => pure (id, false)
    | .failed | .cancelled => do
      supersedeTerminal id
      let (next, _, created) ← enqueuePrepared g { prepared with retryOfTaskID := some id }
      pure (next, created)
    | .completed => Sql.refuse (.repo .conflict)

/-! ## The other statements of a round -/

/-- The single-row updates of `tasks` that neither create, end nor supersede a round. -/
inductive RowUpdate (κ : Type) where
  /-- The claim of a pending round that is due, or of a running one whose lease is over. -/
  | claim (expired : Bool) (leaseDuration : Int)
  | renewLease (generation : Nat) (leaseDuration : Int)
  | shortenLease (generation : Nat) (duration : Int)
  | writeCheckpoint (generation : Nat) (checkpoint : κ)
  | markWorkStarted (generation : Nat) (startedAt : Int)
  | updateOperation (generation : Nat) (runtime : TaskRuntime)
  | wakePending
  | acknowledge

def RowUpdate.run (now : Int) (u : RowUpdate κ) (t : Task ι κ) : Option (Task ι κ) :=
  match u with
  | .claim expired leaseDuration =>
    let status : TaskStatus := if expired then .running else .pending
    if t.status = status ∧ (dueAt status t).any (· ≤ now) then some (claimRow status (now + leaseDuration) t)
    else none
  | .renewLease generation leaseDuration =>
    if t.heldBy generation now then some { t with leaseUntil := some (now + leaseDuration) } else none
  | .shortenLease generation duration =>
    if t.heldBy generation now then
      some { t with
        resumeMode := .recover
        leaseUntil := t.leaseUntil.map fun lease => min lease (now + duration) }
    else none
  | .writeCheckpoint generation checkpoint =>
    if t.heldBy generation now then some { t with checkpoint := some checkpoint, resumeMode := .recover }
    else none
  | .markWorkStarted generation startedAt =>
    if t.heldBy generation now then some { t with workStartedAt := t.workStartedAt.or (some startedAt) }
    else none
  | .updateOperation generation runtime =>
    if t.heldBy generation now then some { t with runtime := runtime } else none
  | .wakePending =>
    if t.status = .pending ∧ t.waitReason.isSome ∧ now < t.availableAt then some { t with availableAt := now }
    else none
  | .acknowledge =>
    if t.status = .failed ∧ t.acknowledgedAt = none then some { t with acknowledgedAt := some now } else none

def RowUpdate.fenced : RowUpdate κ → Bool
  | .claim _ _ | .wakePending | .acknowledge => false
  | _ => true

/-- What a transaction of the program does to the queue, apart from dispatching and settling. -/
inductive Op (ι κ : Type) where
  | enqueue (types : List TaskType) (request : EnqueueRequest ι)
  | retry (types : List TaskType) (sourceID : Nat) (availableAt : Option Int) (checkpoint : Option κ)
  | recover (types : List TaskType) (sourceID : Nat) (request : EnqueueRequest ι)
  | replaceTerminal (request : EnqueueRequest ι)
  | update (id : Nat) (u : RowUpdate κ)

def Op.run (g : Registry ι κ) : Op ι κ → QueueSql ι κ Unit
  | .enqueue types request => do
    Sql.demand (types.contains request.type) (.repo .invalidInput)
    let prepared ← prepare g request
    let _ ← enqueuePrepared g prepared
    pure ()
  | .retry types sourceID availableAt checkpoint => do
    let _ ← retryInTransaction g types sourceID availableAt checkpoint
    pure ()
  | .recover types sourceID request => do
    let _ ← enqueueRecoveryInTransaction g types sourceID request
    pure ()
  | .replaceTerminal request => do
    let _ ← enqueueOrReplaceTerminalInTransaction g request
    pure ()
  | .update id u => do
    let now ← Sql.now
    let found ← Sql.update (Row.task id) fun t => (u.run now t).map some
    Sql.demand (found || !u.fenced) (.repo .taskLeaseLost)

def runOps (g : Registry ι κ) : List (Op ι κ) → QueueSql ι κ Unit
  | [] => pure ()
  | op :: ops => do
    op.run g
    runOps g ops

/-! ## Schedules -/

/-- What `SetHead` requires of the round that the schedule leaves. -/
def requirePrevious (task : Task ι κ) (taskID : Nat) (sameGeneration : Bool) : Option Nat → QueueSql ι κ Unit
  | none => pure ()
  | some expected =>
    if expected = taskID then pure ()
    else do
      let (rows, _) ← Sql.look
      let previous ← Sql.orRefuse (rows (.task expected)) (.repo .conflict)
      Sql.demand (previous.type == task.type) (.repo .conflict)
      Sql.demand (!sameGeneration || task.retryOfTaskID == some expected) (.repo .conflict)

def setHead (key : String) (expectedGeneration generation : Int) (expectedTaskID : Option Nat) (taskID : Nat)
    (nextRunAt : Int) : QueueSql ι κ Unit := do
  Sql.demand (key != "" && decide (0 ≤ generation) && decide (expectedGeneration ≤ generation))
    (.repo .invalidInput)
  let task ← getForUpdate taskID
  let task ← Sql.orRefuse task (.repo .conflict)
  Sql.demand (isRecurringSystem task.type && task.supersededAt.isNone) (.repo .conflict)
  Sql.demand (task.generation == some generation) (.repo .conflict)
  Sql.demand (task.status == .pending || task.status == .running) (.repo .conflict)
  requirePrevious task taskID (generation == expectedGeneration) expectedTaskID
  let found ← Sql.update (Row.schedule key) fun s =>
    if s.generation = expectedGeneration ∧ s.latestTaskID = expectedTaskID then
      some (some { nextRunAt := nextRunAt, latestTaskID := some taskID, generation := generation })
    else none
  Sql.demand found (.repo .conflict)

/-- The transaction of `dispatchSchedules` for one schedule; it says whether a cycle was dispatched.
    `checkpoint` is what `NextCycleCheckpoint` hands on. -/
def dispatchSchedule (g : Registry ι κ) (d : ScheduleDefinition) (checkpoint : Option κ) : QueueSql ι κ Bool := do
  let schedule ← getScheduleForUpdate d.key
  let now ← Sql.now
  match schedule with
  | none => pure false
  | some s =>
    if now < s.nextRunAt then pure false
    else
      let (rows, _) ← Sql.look
      match s.latestTaskID.map fun l => rows (.task l) with
      | some none => Sql.refuse (.repo .conflict)
      | some (some previous) =>
        if previous.status = .pending ∨ previous.status = .running then pure false
        else dispatchCycle s checkpoint
      | none => dispatchCycle s none
where
  dispatchCycle (s : TaskSchedule) (checkpoint : Option κ) : QueueSql ι κ Bool := do
    let generation := s.generation + 1
    let task ← prepare g ⟨d.type, g.cycleInput generation, none⟩
    let (id, _, _) ← enqueuePrepared g { task with checkpoint := checkpoint }
    setHead d.key s.generation generation s.latestTaskID id s.nextRunAt
    pure true

/-- The rounds of one page that `settleSchedule` supersedes. -/
def supersedeBefore (claimed : Nat) : List Nat → QueueSql ι κ Unit
  | [] => pure ()
  | old :: rest =>
    if old < claimed then do
      supersedeTerminal old
      supersedeBefore claimed rest
    else supersedeBefore claimed rest

/-- The loop of `settleSchedule` over the earlier failures of the subject, page by page. There are no more
    pages than tasks. -/
def supersedeEarlier (claimed : Nat) (task : Task ι κ) : Nat → Nat → QueueSql ι κ Unit
  | 0, _ => pure ()
  | pages + 1, before => do
    let (rows, seq) ← Sql.look
    let (page, next) := listCurrentFailedForSubject rows seq task.subjectType task.subjectKey task.type before 100
    supersedeBefore claimed page
    if next = 0 then pure () else supersedeEarlier claimed task pages next

/-- `Engine.settleSchedule`. Its conflict branch leaves a note. -/
def settleSchedule (g : Registry ι κ) (claimed : Nat) (task : Task ι κ) (transition : TaskTransition) :
    QueueSql ι κ Unit :=
  if !isRecurringSystem task.type || transition.status == .pending then pure ()
  else match g.scheduleFor task.type with
    | none => pure ()
    | some d => do
      let schedule ← getScheduleForUpdate d.key
      if schedule.any fun s => s.latestTaskID == some claimed then do
        let now ← Sql.now
        let found ← Sql.update (Row.schedule d.key) fun s =>
          if s.latestTaskID = some claimed then some (some { s with nextRunAt := now + d.interval }) else none
        if found then
          if transition.status = .cancelled then pure ()
          else do
            let (_, seq) ← Sql.look
            supersedeEarlier claimed task (seq + 1) 0
        else conflict
      else conflict
where
  /-- The schedule does not point at the claimed round. -/
  conflict : QueueSql ι κ Unit := do
    Sql.note (Record.conflict claimed)
    Sql.refuse (.repo .conflict)

def settleTask (id generation : Nat) (transition : TaskTransition) : QueueSql ι κ Unit := do
  Sql.demand (validTaskTransition transition) (.repo .invalidInput)
  let row ← getForUpdate id
  let now ← Sql.now
  Sql.demand (row.any fun t => t.heldBy generation now) (.repo .taskLeaseLost)
  let found ← Sql.update (Row.task id) fun t =>
    if t.heldBy generation now then some (some (settleRow transition now t)) else none
  Sql.demand found (.repo .taskLeaseLost)

/-- The transaction in which the engine settles a claimed round: the domain's own writes are `ops`. -/
def settle (g : Registry ι κ) (id generation : Nat) (ops : List (Op ι κ)) (transition : TaskTransition) :
    QueueSql ι κ Unit := do
  let now ← Sql.now
  let row ← getForUpdate id
  let task ← Sql.orRefuse row (.repo .taskLeaseLost)
  Sql.demand (task.heldBy generation now) (.repo .taskLeaseLost)
  runOps g ops
  settleSchedule g id task transition
  settleTask id generation transition

/-! ## Requests -/

/-- The transaction of `Service.Retry`, which prepared the successor before; `bind` is what `preparation.Bind` does
    to the queue. -/
def retryTransaction (g : Registry ι κ) (id claimGeneration : Nat) (prepared : Task ι κ) (bind : List (Op ι κ)) :
    QueueSql ι κ Nat := do
  let current ← getForUpdate id
  let current ← Sql.orRefuse current (.repo .notFound)
  let (rows, _) ← Sql.look
  match getDirectSuccessor rows id with
  | some (next, _) => pure next
  | none =>
    Sql.demand (current.status == .failed && current.supersededAt.isNone && g.manualRetryAllowed current)
      (.repo .conflict)
    Sql.demand (current.claimGeneration == claimGeneration) (.repo .conflict)
    if isRecurringSystem current.type then
      let (rows, _) ← Sql.look
      let d ← Sql.orRefuse (getByTaskID g rows id) (.repo .conflict)
      let schedule ← getScheduleForUpdate d.key
      let s ← Sql.orRefuse schedule (.repo .conflict)
      Sql.demand (s.latestTaskID == some id) (.repo .conflict)
      let next ← succeed g id prepared
      runOps g bind
      let now ← Sql.now
      setHead d.key s.generation s.generation s.latestTaskID next now
      pure next
    else
      let next ← succeed g id prepared
      runOps g bind
      pure next

/-- `Service.retryReplay`: a concurrent request may have won. -/
def retryReplay (id : Nat) : QueueSql ι κ Unit := do
  let (rows, _) ← Sql.look
  match getDirectSuccessor rows id with
  | some (next, _) => Sql.note (Record.answer id next)
  | none => pure ()

def orElse {α β : Type} (m : QueueSql ι κ α) (ok : α → QueueSql ι κ β) (failed : QueueSql ι κ β) : QueueSql ι κ β :=
  Prog.bind m fun
    | .ok a => ok a
    | .error _ => failed

/-- `worker.RetryPreparation`: the request and the checkpoint of the successor, how it resumes (`none` leaves the mode
    of a new round), and what `Bind` does to the queue. A failed pull or store goes on as a plan of its copy, and a
    replacement retries its ensure task. -/
structure RetryPreparation (ι κ : Type) where
  request : EnqueueRequest ι
  checkpoint : Option κ := none
  resumeMode : Option TaskResumeMode := none
  bind : List (Op ι κ) := []

/-- The preparation where the definition has no `PrepareRetry`. -/
def RetryPreparation.ofSource (source : Task ι κ) : RetryPreparation ι κ where
  request := ⟨source.type, source.input, none⟩
  checkpoint := source.checkpoint
  resumeMode := some .recover

/-- The hooks of a task definition in a manual retry: whether they pass it, and the answer of `PrepareRetry`. -/
structure RetryHooks (ι κ : Type) where
  passed : Bool := true
  prepareRetry : Option (RetryPreparation ι κ) := none

/-- No recurring type has a `PrepareRetry`. -/
def RetryHooks.preparation (hooks : RetryHooks ι κ) (source : Task ι κ) : RetryPreparation ι κ :=
  if isRecurringSystem source.type then .ofSource source else hooks.prepareRetry.getD (.ofSource source)

def retry (g : Registry ι κ) (id : Nat) (hooks : RetryHooks ι κ) (tries : Nat) : QueueSql ι κ Unit := do
  let (rows, _) ← Sql.look
  let source ← Sql.orRefuse (rows (.task id)) (.repo .notFound)
  let (rows, _) ← Sql.look
  match getDirectSuccessor rows id with
  | some (next, _) => Sql.note (Record.answer id next)
  | none =>
    let inspection : QueueSql ι κ Unit := do
      inspectRetry g id source
      Sql.demand hooks.passed .retryUnsupported
    orElse inspection
      (fun _ => do
        let preparation := hooks.preparation source
        let prepared ← prepare g preparation.request
        let prepared := { prepared with
          checkpoint := preparation.checkpoint
          resumeMode := preparation.resumeMode.getD prepared.resumeMode }
        orElse
          (Sql.retrying contended (retryTransaction g id source.claimGeneration prepared preparation.bind)
            (fun _ r => r) tries)
          (fun next => Sql.note (Record.answer id next))
          (retryReplay id))
      (retryReplay id)

/-- The errors that `dispatchSchedules` goes on after. -/
def passedOver : Fault Refusal → Bool
  | .refused (.repo .conflict) => true
  | _ => false

/-- `dispatchSchedules` over the schedules that are due; a conflict is passed over. -/
def dispatchDue (g : Registry ι κ) (checkpoint : TaskType → Option κ) (tries : Nat) :
    List ScheduleDefinition → QueueSql ι κ Unit
  | [] => pure ()
  | d :: rest =>
    Prog.bind (Sql.retrying contended (dispatchSchedule g d (checkpoint d.type))
        (fun dispatched r => if dispatched then r.cycle d.key else r) tries) fun
      | .ok _ => dispatchDue g checkpoint tries rest
      | .error e =>
        match passedOver e with
        | true => dispatchDue g checkpoint tries rest
        | false => .ret (.error e)

def dispatchSchedules (g : Registry ι κ) (checkpoint : TaskType → Option κ) (tries : Nat) : QueueSql ι κ Unit := do
  let now ← Sql.now
  let (rows, _) ← Sql.look
  dispatchDue g checkpoint tries (listDue g rows now)

def ensure (d : ScheduleDefinition) : QueueSql ι κ Unit := do
  let now ← Sql.now
  let _ ← Sql.insert (Row.schedule d.key) { nextRunAt := now, latestTaskID := none, generation := 0 }
  pure ()

/-- What may be started. `tries` is how often a transaction is tried again at most. -/
inductive Request (ι κ : Type) where
  | transact (ops : List (Op ι κ)) (tries : Nat)
  | settle (id generation : Nat) (ops : List (Op ι κ)) (transition : TaskTransition) (tries : Nat)
  | retry (id : Nat) (hooks : RetryHooks ι κ) (tries : Nat)
  | ensure (d : ScheduleDefinition)
  | dispatch (checkpoint : TaskType → Option κ) (tries : Nat)

def program (g : Registry ι κ) (b : Request ι κ) : QueueSession ι κ Unit :=
  let sql : QueueSql ι κ Unit :=
    match b with
    | .transact ops tries => Sql.retrying contended (runOps g ops) (fun _ r => r) tries
    | .settle id generation ops transition tries =>
      Sql.retrying contended (settle g id generation ops transition) (fun _ r => r) tries
    | .retry id hooks tries => retry g id hooks tries
    | .ensure d => Sql.retrying contended (ensure d) (fun _ r => r) 0
    | .dispatch checkpoint tries => dispatchSchedules g checkpoint tries
  Prog.bind sql fun _ => .ret ()

/-- The types an operation may touch. The cache scheduler retries evictions only, so no caller passes a
    recurring type here. -/
def Op.ordinary : Op ι κ → Bool
  | .enqueue types _ | .retry types _ _ _ | .recover types _ _ => types.all fun type => !isRecurringSystem type
  | .replaceTerminal _ | .update _ _ => true

def RetryPreparation.ordinary (p : RetryPreparation ι κ) : Bool :=
  !isRecurringSystem p.request.type && p.bind.all Op.ordinary

/-- The requests the program makes: recurring rounds are created by their schedules alone, and only
    registered schedules are ensured. -/
def startable (g : Registry ι κ) (b : Request ι κ) : Bool :=
  match b with
  | .transact ops _ | .settle _ _ ops _ _ => ops.all Op.ordinary
  | .ensure d => g.periodic.contains d
  | .retry _ hooks _ => hooks.prepareRetry.all RetryPreparation.ordinary
  | .dispatch _ _ => true

end SynapS3.Queue
