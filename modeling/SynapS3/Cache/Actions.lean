import SynapS3.Cache.Machine

/-!
# `Cache.Actions` — the whole system around a cache file

Writes, reads, rehydrations, the tracker's sweep, the local reconciler and the deletion of versions, next to the
evictions. A crash loses the permits, the executions and what the tracker had not written.
-/

namespace SynapS3.Cache
open Tasks (TaskStatus TaskResumeMode)

def State.enter (s : State) (sec : Section) : State := { s with sections := s.sections.insert sec }

/-! ## Writes and reads -/

/-- `CommitAs` of a write, under a read permit. -/
def State.writeFile (s : State) : Option State := some (State.enter { s with file := some .content } .write)

/-- The transaction of a write: the version and the residency. It is refused while the content is cleaned up. -/
def State.writeCommit (s : State) (id : Nat) (ok : Bool) : Option State :=
  if s.sections.row id = some .write then
    if ok then
      if s.alive && !s.cleanup then some ({ s.upsertPresence true with versions := s.versions + 1 }.leave id) else none
    else some (s.leave id)
  else none

/-- `streamAndRehydrate` up to the file: the version is still there, and the download ends with `bytes`. -/
def State.rehydrateFile (s : State) (bytes : Bytes) : Option State :=
  if 0 < s.versions then some (State.enter { s with file := some bytes } .rehydrate) else none

/-- … and its `RecordCommit`. -/
def State.rehydrateRecord (s : State) (id : Nat) (overflow : Bool) (o : Tx.Outcome) : Option State :=
  if s.sections.row id = some .rehydrate then some ((s.record true overflow true o).leave id) else none

/-- `openCached`: whether the version was read as resident decides between an access and a commit. -/
def State.openCached (s : State) (resident overflow due : Bool) (o : Tx.Outcome) : Option State :=
  if s.file.isSome then some ((s.record (!resident) overflow due o).enter .reader) else none

def State.close (s : State) (id : Nat) : Option State :=
  if s.sections.row id = some .reader then some (s.leave id) else none

/-- One entry of `Tracker.sweep`, under a read permit. -/
def State.sweep (s : State) (o : Tx.Outcome) : Option State :=
  if s.commitRequired then some (s.persistCommit o) else none

/-- `reconcileCacheMiss`: the version's residency is taken back without a new presence generation. -/
def State.reconcileMiss (s : State) : Option State :=
  if s.exclusive && s.file.isNone && s.alive then some (s.upsertPresence false) else none

/-! ## The local reconciler -/

def State.list (s : State) : Option State :=
  if s.alive then
    let r := s.row.getD {}
    some { s with
      listed := s.listed.insert ⟨r.inCache, decide (0 < s.versions), r.operationGeneration, r.presenceGeneration⟩ }
  else none

/-- `reconcileContent` up to a file that matches. -/
def State.examine (s : State) (id : Nat) : Option State :=
  match s.listed.row id with
  | none => none
  | some o =>
    if !o.inCache && o.referenced && s.file == some .content then some (s.enter (.examined o s.log.length)) else none

def State.restore (s : State) (id : Nat) (commits : Bool) : Option State :=
  match s.sections.row id, s.row with
  | some (.examined o _), some r =>
    if commits && decide (0 < s.versions) && r.restorable o then some ((s.setRow { r with inCache := true }).leave id)
    else some (s.leave id)
  | some (.examined _ _), none => some (s.leave id)
  | _, _ => none

/-- `clearPresence` under a transaction, and the tracker forgets once it is known to have committed. -/
def State.clearPresenceTx (s : State) (o : Tx.Outcome) : State :=
  match o with
  | .ok => s.clearPresence.forget
  | .lost => s.clearPresence
  | .failed => s

def State.quarantine (s : State) (o : Tx.Outcome) : Option State :=
  if s.exclusive && s.alive && s.file == some .other then some (State.clearPresenceTx { s with file := none } o) else none

/-- `reconcileQuarantined` where only the file put aside is left. -/
def State.clearMissing (s : State) (o : Tx.Outcome) : Option State :=
  if s.exclusive && s.file.isNone then some (s.clearPresenceTx o) else none

/-! ## Deletion -/

/-- A version goes; with the last one the cleanup of the content is reserved and bound. -/
def State.deleteVersion (s : State) : Option State :=
  if 0 < s.versions then some { s with versions := s.versions - 1, cleanup := s.cleanup || s.versions == 1 } else none

/-- `ReleaseContentCache`: the file of content that no version names, or that is gone. -/
def State.releaseCache (s : State) (o : Tx.Outcome) : Option State :=
  if s.exclusive && s.versions == 0 then
    if s.alive then some (State.clearPresenceTx { s with file := none } o)
    else some (State.forget { s with file := none })
  else none

/-- `DiscardOrphanedContent`: content that no version has ever named and that has no residency. -/
def State.discard (s : State) (o : Tx.Outcome) : Option State :=
  if s.exclusive && s.alive && s.versions == 0 && !s.cleanup && s.row.isNone then
    match o with
    | .ok => some { s with file := none, alive := false, commitRequired := false }
    | .lost => some { s with file := none, alive := false }
    | .failed => some { s with file := none }
  else none

def State.evictionIdle (s : State) (r : Row) : Bool :=
  (r.activeTask.bind s.tasks.row).all fun t => t.status != .pending && t.status != .running

/-- `FinalizeContent`, once nothing needs the content's rows. -/
def State.finalize (s : State) : Option State :=
  if s.alive && s.cleanup && s.versions == 0 && s.row.all fun r => !r.inCache && s.evictionIdle r then
    some { s with row := none, alive := false }
  else none

def State.crash (s : State) : State :=
  { s with commitRequired := false, runs := s.runs.deleteWhere fun _ _ => true
           sections := s.sections.deleteWhere fun _ _ => true, listed := s.listed.deleteWhere fun _ _ => true }

/-! ## The system -/

inductive Action where
  | writeFile
  | writeCommit (id : Nat) (ok : Bool)
  | rehydrateFile (bytes : Bytes)
  | rehydrateRecord (id : Nat) (overflow : Bool) (o : Tx.Outcome)
  | openCached (resident overflow due : Bool) (o : Tx.Outcome)
  | close (id : Nat)
  | sweep (o : Tx.Outcome)
  | reconcileMiss
  | list
  | examine (id : Nat)
  | restore (id : Nat) (commits : Bool)
  | quarantine (o : Tx.Outcome)
  | clearMissing (o : Tx.Outcome)
  | deleteVersion
  | releaseCache (o : Tx.Outcome)
  | discard (o : Tx.Outcome)
  | finalize
  | plan (lru : Bool)
  | retry (task : Nat)
  | claim (task : Nat)
  | evict (run : Nat) (x : Look)
  | settle (run : Nat) (exhausted : Bool)
  | crash
  deriving DecidableEq

def step (s : State) : Action → Option State
  | .writeFile => s.writeFile
  | .writeCommit id ok => s.writeCommit id ok
  | .rehydrateFile bytes => s.rehydrateFile bytes
  | .rehydrateRecord id overflow o => s.rehydrateRecord id overflow o
  | .openCached resident overflow due o => s.openCached resident overflow due o
  | .close id => s.close id
  | .sweep o => s.sweep o
  | .reconcileMiss => s.reconcileMiss
  | .list => s.list
  | .examine id => s.examine id
  | .restore id commits => s.restore id commits
  | .quarantine o => s.quarantine o
  | .clearMissing o => s.clearMissing o
  | .deleteVersion => s.deleteVersion
  | .releaseCache o => s.releaseCache o
  | .discard o => s.discard o
  | .finalize => s.finalize
  | .plan lru => s.enqueueEviction lru
  | .retry task => s.retryEviction task
  | .claim task => s.claim task
  | .evict run x => s.runSection run x
  | .settle run exhausted => s.settle run exhausted
  | .crash => some s.crash

/-- The life of a content's cache file, from a content that nothing is known about. -/
def cacheMachine : Lts State Action where
  init s := s = {}
  step := step

end SynapS3.Cache
