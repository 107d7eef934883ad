import SynapS3.Lib.Lts
import SynapS3.Task.Model

/-!
# `Cache.Model` — one content's cache file and what is recorded about it

Residency is per content: one file, one row of `object_cache`, one entry of the access tracker, one key of the
cache gate. Contents share nothing but figures (the usage of the cache, the room in a tracker shard), which are
inputs here, so the model is about one content.

Access times are left out; where the source compares them the answer is an input.
-/

namespace SynapS3.Cache
open Tasks (TaskStatus TaskResumeMode)

/-- What the cache file holds: the content's own bytes, or others. -/
inductive Bytes where
  | content
  | other
  deriving DecidableEq

/-- `model.ObjectCache`, a row of `object_cache`. -/
structure Row where
  inCache : Bool := false
  operationGeneration : Nat := 0
  presenceGeneration : Nat := 0
  activeTask : Option Nat := none
  deriving DecidableEq

/-! ## The methods of the repository, on the row -/

/-- `BindEvictionTask`; the repetition of a binding is accepted. -/
def Row.bindEvictionTask (r : Row) (generation task : Nat) : Option Row :=
  if r.operationGeneration + 1 = generation ∧ r.activeTask = none then
    some { r with operationGeneration := generation, activeTask := some task }
  else if r.operationGeneration = generation ∧ r.activeTask = some task then some r
  else none

def Row.transferEvictionTaskOwner (r : Row) (generation old new : Nat) : Option Row :=
  if r.operationGeneration = generation ∧ r.activeTask = some old then some { r with activeTask := some new } else none

def Row.deletionRecorded (r : Row) (generation : Nat) : Bool :=
  r.operationGeneration == generation && r.activeTask.isNone && !r.inCache

/-- The row without the file, as every deletion but that of `SetVersionCachePresence` records it. -/
def Row.cleared (r : Row) : Row := { r with inCache := false, presenceGeneration := r.presenceGeneration + 1 }

/-- `RecordDeletion`; a deletion that is already recorded is accepted. -/
def Row.recordDeletion (r : Row) (generation task : Nat) : Option Row :=
  if r.operationGeneration = generation ∧ r.activeTask = some task then some { r.cleared with activeTask := none }
  else if r.deletionRecorded generation then some r
  else none

/-- `ReleaseEviction`; a row of somebody else stays as it is. -/
def Row.releaseEviction (r : Row) (generation task : Nat) : Row :=
  if r.operationGeneration = generation ∧ r.activeTask = some task then { r with activeTask := none } else r

/-- A row as the local reconciler has listed it. -/
structure Observed where
  inCache : Bool
  referenced : Bool
  operationGeneration : Nat
  presenceGeneration : Nat
  deriving DecidableEq

def Row.restorable (r : Row) (o : Observed) : Bool :=
  !r.inCache && r.activeTask.isNone && r.operationGeneration == o.operationGeneration &&
    r.presenceGeneration == o.presenceGeneration

/-! ## Tasks and their runs -/

/-- A task of type `cache.evict` with its input; `lru` stands for a given `AccessedAt`. -/
structure EvictTask where
  generation : Nat
  lru : Bool
  status : TaskStatus := .pending
  mode : TaskResumeMode := .execute
  claim : Nat := 0
  deriving DecidableEq

def EvictTask.isOpen (t : EvictTask) : Bool :=
  match t.status with
  | .pending | .running | .failed => true
  | .completed | .cancelled => false

inductive Result where
  | complete
  | cancel
  | wait (mode : TaskResumeMode)
  | retry
  deriving DecidableEq

/-- An execution; its result is there once its section under the gate is over. -/
structure Run where
  task : Nat
  claim : Nat
  mode : TaskResumeMode
  result : Option Result := none
  deriving DecidableEq

/-! ## The state -/

inductive Section where
  /-- A write of an object, with its file in place and its transaction to come. -/
  | write
  /-- A rehydration, with its file in place and its record to come. -/
  | rehydrate
  | reader
  /-- The local reconciler, with a file that matches. The log had `seen` entries then. -/
  | examined (o : Observed) (seen : Nat)
  deriving DecidableEq

inductive Event where
  | bound (task : Nat)
  | residency (inCache : Bool)
  deriving DecidableEq

/-- A content's file, its row, the tracker's claim on it, and who works on them. -/
structure State where
  file : Option Bytes := none
  row : Option Row := none
  commitRequired : Bool := false
  alive : Bool := true
  versions : Nat := 0
  cleanup : Bool := false
  tasks : Table EvictTask := .empty
  runs : Table Run := .empty
  sections : Table Section := .empty
  /-- What the local reconciler has listed, before it asks for a permit. -/
  listed : Table Observed := .empty
  log : List Event := []

def State.exclusive (s : State) : Bool := !s.sections.any fun _ _ => true

def State.setRow (s : State) (r : Row) : State := { s with row := some r, log := s.log ++ [.residency r.inCache] }

def State.upsertPresence (s : State) (inCache : Bool) : State :=
  s.setRow { s.row.getD {} with inCache := inCache }

/-- `ClearContentCachePresence`, and the same update in `ReleaseContentCacheIfUnreferenced`. -/
def State.clearPresence (s : State) : State :=
  match s.row with
  | some r => s.setRow r.cleared
  | none => s

def State.forget (s : State) : State := { s with commitRequired := false }

def State.leave (s : State) (id : Nat) : State := { s with sections := s.sections.deleteWhere fun i _ => i == id }

/-- Persist a commit through the tracker: the write of `RecordContentCacheCommit` fails, or succeeds with or
    without its answer. It fails for content that is gone. -/
def State.persistCommit (s : State) (o : Tx.Outcome) : State :=
  if s.alive then
    match o with
    | .ok => { s.upsertPresence true with commitRequired := false }
    | .lost => s.upsertPresence true
    | .failed => s
  else s

/-- `Tracker.record`: `overflow` if the shard is full, `due` if an access would be persisted. An access alone
    writes no residency. -/
def State.record (s : State) (requireCommit overflow due : Bool) (o : Tx.Outcome) : State :=
  if overflow && !s.commitRequired then
    if requireCommit then s.persistCommit o else s
  else
    let s' := { s with commitRequired := s.commitRequired || requireCommit }
    if (requireCommit || due) && s'.commitRequired then s'.persistCommit o else s'

end SynapS3.Cache
