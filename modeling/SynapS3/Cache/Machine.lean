import SynapS3.Cache.Model

/-!
# `Cache.Machine` — what happens to a content's cache file

A read section of the gate has several steps, since others run beside it. An exclusive section is one step: while
it lasts nobody else holds a permit, and what can happen beside it (binding, transferring, deleting a version)
touches nothing that it reads outside of its transactions. A database transaction whose commit fails has still
deleted the file it deleted, and the caller of one whose answer is lost does not know that it committed.

`WriteCheckpoint` and an expired lease both set the resume mode to `recover`, and only a result sets it back; here
the claim sets it, since an execution never reads it again.
-/

namespace SynapS3.Cache
open Tasks (TaskStatus TaskResumeMode)

/-! ## Eviction -/

/-- What an execution of an eviction meets. -/
structure Look where
  /-- Not the LRU policy, no reliable access records, or the usage is at its target. -/
  lruExit : Bool := false
  loadFails : Bool := false
  /-- The content was used after the eviction was planned; `flush` if the tracker's access is written, and how. -/
  accessed : Bool := false
  flush : Option Tx.Outcome := none
  unneeded : Bool := false
  /-- No unfinished replacement and no unfinished store of the content. -/
  eligible : Bool := true
  durable : Bool := true
  deleteFails : Bool := false
  outcome : Tx.Outcome := .ok
  checked : Bool := true
  deriving DecidableEq

inductive Refusal where
  | leaseLost
  | notFound
  | conflict
  | noLongerEligible
  | accessChanged
  | durabilityThreshold
  deriving DecidableEq

/-- `AuthorizeDeletion` after `ValidateClaim`, and the row that `RecordDeletion` leaves. -/
def authorizeDeletion (s : State) (valid : Bool) (task : Nat) (t : EvictTask) (x : Look) : Except Refusal Row :=
  if !valid then .error .leaseLost
  else match s.row with
    | none => .error .notFound
    | some r =>
      if r.operationGeneration ≠ t.generation ∨ r.activeTask ≠ some task then .error .conflict
      else if !r.inCache then .error .noLongerEligible
      else if t.lru && x.accessed then .error .accessChanged
      else if !s.alive || !x.eligible then .error .noLongerEligible
      else if !x.durable then .error .durabilityThreshold
      else .ok { r.cleared with activeTask := none }

def Refusal.result (e : Refusal) (lru : Bool) : Result :=
  match e with
  | .leaseLost => .retry
  | .durabilityThreshold => if lru then .cancel else .wait .execute
  | .notFound | .conflict | .noLongerEligible | .accessChanged => .cancel

def State.recorded (s : State) (generation : Nat) : Bool := s.row.any (·.deletionRecorded generation)

def deleteFile (s : State) (valid : Bool) (task : Nat) (t : EvictTask) (x : Look) : State × Result :=
  match authorizeDeletion s valid task t x with
  | .error e => if x.checked && s.recorded t.generation then (s.forget, .complete) else (s, e.result t.lru)
  | .ok r =>
    if x.deleteFails then (s, .retry)
    else match x.outcome with
      | .ok => ((State.setRow { s with file := none } r).forget, .complete)
      | .failed => ({ s with file := none }, .retry)
      | .lost =>
        let s' := State.setRow { s with file := none } r
        if x.checked then (s'.forget, .complete) else (s', .retry)

/-- `FlushWhileGuarded`: `none` if there is nothing to write. -/
def State.flushGuarded (s : State) (o : Option Tx.Outcome) : State :=
  match o with
  | some o => if s.commitRequired then s.persistCommit o else s
  | none => s

/-- `deleteAuthorizedCacheEntry` when the execution may delete. -/
def executeEviction (s : State) (valid : Bool) (task : Nat) (t : EvictTask) (x : Look) : State × Result :=
  if t.lru then
    if x.loadFails then (s, .retry)
    else if x.accessed then
      match x.flush with
      | some .failed => (s, .retry)
      | some .lost => (s.flushGuarded x.flush, .retry)
      | _ => (s.flushGuarded x.flush, .cancel)
    else if x.unneeded then (s, .cancel)
    else deleteFile s valid task t x
  else deleteFile s valid task t x

/-- `deleteAuthorizedCacheEntry` when the execution only observes. -/
def recoverEviction (s : State) (valid : Bool) (task : Nat) (t : EvictTask) (x : Look) : State × Result :=
  if x.loadFails then (s, .retry)
  else match s.row with
    | none => (s, .cancel)
    | some r =>
      if !s.alive then (s, .cancel)
      else if s.file.isSome then (s, .wait .execute)
      else if !valid then (s, .retry)
      else match r.recordDeletion t.generation task with
        | none => (s, .cancel)
        | some r' =>
          match x.outcome with
          | .ok => ((s.setRow r').forget, .complete)
          | .failed => (s, .retry)
          | .lost => (s.setRow r', .retry)

/-- The section of `runCacheEviction` under the gate. -/
def runCacheEviction (s : State) (valid : Bool) (task : Nat) (t : EvictTask) (mode : TaskResumeMode) (x : Look) :
    State × Result :=
  if t.lru && x.lruExit then (s, .cancel)
  else match mode with
    | .execute => executeEviction s valid task t x
    | .recover => recoverEviction s valid task t x

def State.bindNew (s : State) (r : Row) (lru : Bool) : Option State :=
  (r.bindEvictionTask (r.operationGeneration + 1) s.tasks.next).map fun r' =>
    { s with row := some r', tasks := s.tasks.insert { generation := r.operationGeneration + 1, lru := lru },
             log := s.log ++ [.bound s.tasks.next] }

/-- `enqueueEviction`: `PrepareEviction`, the task, and `BindEvictionTask`. -/
def State.enqueueEviction (s : State) (lru : Bool) : Option State :=
  match s.row with
  | none => none
  | some r =>
    match r.activeTask with
    | none => s.bindNew r lru
    | some owner =>
      match s.tasks.row owner with
      | none => none
      | some t =>
        if t.isOpen then if t.generation = r.operationGeneration then some s else none
        else s.bindNew { r with activeTask := none } lru

/-- A manual retry of a failed eviction, which hands its ownership on. -/
def State.retryEviction (s : State) (task : Nat) : Option State :=
  match s.tasks.row task, s.row with
  | some t, some r =>
    if t.status = .failed then
      (r.transferEvictionTaskOwner t.generation task s.tasks.next).map fun r' =>
        { s with row := some r', tasks := s.tasks.insert { t with status := .pending, mode := .recover, claim := 0 } }
    else none
  | _, _ => none

/-- Claim a task that is due, or whose lease has expired. -/
def State.claim (s : State) (task : Nat) : Option State :=
  match s.tasks.row task with
  | none => none
  | some t =>
    if t.status = .pending ∨ t.status = .running then
      some { s with
        tasks := s.tasks.modify task fun t => { t with status := .running, mode := .recover, claim := t.claim + 1 }
        runs := s.runs.insert ⟨task, t.claim + 1, if t.status = .running then .recover else t.mode, none⟩ }
    else none

def Run.valid (run : Run) (t : EvictTask) : Bool := t.status == .running && t.claim == run.claim

def State.runSection (s : State) (id : Nat) (x : Look) : Option State :=
  match s.runs.row id with
  | none => none
  | some run =>
    match s.tasks.row run.task with
    | none => none
    | some t =>
      if s.exclusive && run.result.isNone then
        let p := runCacheEviction s (run.valid t) run.task t run.mode x
        some { p.1 with runs := s.runs.modify id fun run => { run with result := some p.2 } }
      else none

def EvictTask.settled (t : EvictTask) (r : Result) (exhausted : Bool) : EvictTask :=
  match r with
  | .complete => { t with status := .completed }
  | .cancel => { t with status := .cancelled }
  | .wait mode => { t with status := .pending, mode := mode }
  | .retry => if exhausted then { t with status := .failed } else { t with status := .pending, mode := .recover }

/-- Settle an execution that still holds its task; a cancelled one releases the eviction. -/
def State.settle (s : State) (id : Nat) (exhausted : Bool) : Option State :=
  match s.runs.row id with
  | none => none
  | some run =>
    match s.tasks.row run.task, run.result with
    | some t, some r =>
      if run.valid t then
        some { s with
          tasks := s.tasks.modify run.task fun t => t.settled r exhausted
          row := if r = .cancel then s.row.map (·.releaseEviction t.generation run.task) else s.row }
      else none
    | _, _ => none

end SynapS3.Cache
