import Mathlib.Algebra.Order.Ring.Int
import SynapS3.Lib.Round
import SynapS3.Lib.Table
import SynapS3.Lib.Tx

/-!
# `Task.Model` — the `tasks` table

One row of `tasks` is one round of asynchronous work. The row holds the claim fence (`claimGeneration`,
`leaseUntil`), the resume mode that decides whether a claim may start an external effect, and the durable
engine state (`runtime`) that admits an effect at most once per attempt.

The input and the checkpoint are JSON objects whose shape belongs to the task's handler, so both are type
parameters here. Columns that no modelled statement reads (error texts, audit timestamps, the event log) are
left out. Instants are integers; Go's zero time, where it means "not given", is `none`.
-/

namespace SynapS3

inductive RepoError where
  | taskLeaseLost
  | invalidInput
  | notFound
  | conflict
  | taskEffectAlreadyAdmitted
  | taskOperationUnresolved
  | taskIdentityContended
  | effectForbidden
  | invalidResult
  | walletOperationConflict
  /-- The commit failed, or its answer did not arrive: the caller cannot tell which. -/
  | commitUncertain
  deriving DecidableEq

namespace Tasks

inductive TaskType where
  | bucketProvision
  | uploadPlan
  | storageDataSetEnsure
  | storageTransferPlan
  | storageStore
  | storagePull
  | storageCommit
  | providerReplacementCoordinate
  | cacheCapacityReconcile
  | cacheLocalReconcile
  | cacheEvict
  | cacheReconcileDurability
  | storageCleanup
  | storageRemoval
  | storageDataSetRetire
  | walletOperation
  | observabilityRefresh
  | approvedProviderRefresh
  | endorsedProviderRefresh
  | providerUploadSpeedTest
  deriving DecidableEq

inductive TaskStatus where
  | pending
  | running
  | completed
  | failed
  | cancelled
  deriving DecidableEq

def TaskStatus.terminal : TaskStatus → Bool
  | .completed | .failed | .cancelled => true
  | .pending | .running => false

/-- `model.TaskResumeMode`: whether a handler may initiate an external effect. -/
inductive TaskResumeMode where
  | execute
  | recover
  deriving DecidableEq

/-- `model.TaskObservation`. -/
structure TaskObservation where
  key : String
  startedAt : Int
  deriving DecidableEq

/-- `model.TaskRuntime`. The empty key means that no operation is open. `other` are the fields of the stored
    object that this version of the program does not know. -/
structure TaskRuntime where
  operationKey : String := ""
  operationStartedAt : Option Int := none
  lastAdmittedAttempt : Nat := 0
  observation : Option TaskObservation := none
  other : List (String × String) := []
  deriving DecidableEq

/-- `model.Task`, a row of `tasks`. -/
structure Task (ι κ : Type) where
  type : TaskType
  inputVersion : Nat
  subjectType : String
  subjectKey : String
  generation : Option Int
  retryOfTaskID : Option Nat
  input : ι
  checkpoint : Option κ
  runtime : TaskRuntime
  status : TaskStatus
  resumeMode : TaskResumeMode
  availableAt : Int
  waitReason : Option String
  retryCount : Nat
  failureReason : Option String
  claimGeneration : Nat
  leaseUntil : Option Int
  finishedAt : Option Int
  workStartedAt : Option Int
  acknowledgedAt : Option Int
  supersededAt : Option Int
  deriving DecidableEq

/-- The claim fence every statement of a claim holder repeats: the row is running under generation `g` and
    its lease ends after `now`. -/
def Task.heldBy {ι κ : Type} (r : Task ι κ) (g : Nat) (now : Int) : Bool :=
  r.status == .running && r.claimGeneration == g && r.leaseUntil.any (now < ·)

/-- Where the round stands, as a program that works in rounds sees it; an ended round says how and why. -/
def Task.phase {ι κ : Type} (r : Task ι κ) : Round.Phase (TaskStatus × Option String) :=
  match r.status with
  | .pending => .waiting
  | .running => .held
  | .completed | .failed | .cancelled => .ended (r.status, r.failureReason)

/-- The round of a row: its claim is the generation, its resume mode says whether it recovers. -/
def Task.round {ι κ : Type} (r : Task ι κ) : Round ι κ (TaskStatus × Option String) where
  input := r.input
  checkpoint := r.checkpoint
  token := r.claimGeneration
  phase := r.phase
  recovering := r.resumeMode == .recover
  retryOf := r.retryOfTaskID
  superseded := r.supersededAt.isSome

/-- `unicode.IsSpace`. -/
def isSpace (c : Char) : Bool :=
  let n := c.toNat
  (decide (9 ≤ n) && decide (n ≤ 13)) || (decide (0x2000 ≤ n) && decide (n ≤ 0x200a)) ||
    [0x20, 0x85, 0xa0, 0x1680, 0x2028, 0x2029, 0x202f, 0x205f, 0x3000].contains n

/-- `strings.TrimSpace` leaves nothing. -/
def blank (s : String) : Bool := s.toList.all isSpace

/-- `repository.TaskTransition`. An observation patch of `some none` clears the stored window. -/
structure TaskTransition where
  observation : Option (Option TaskObservation) := none
  workStartedAt : Option Int := none
  clearWorkStartedAt : Bool := false
  status : TaskStatus
  resumeMode : TaskResumeMode
  availableAt : Option Int := none
  waitReason : Option String := none
  failureReason : Option String := none
  incrementRetry : Bool := false
  deriving DecidableEq

/-- `repository.TaskClaimFilter`. -/
structure TaskClaimFilter where
  excludedTypes : List TaskType := []
  excludedTaskIDs : List Nat := []
  deriving DecidableEq

/-- The database as the task repository sees it. `clock` is the time of the latest clock read and `ticks`
    says how far the clock moves before each of the coming reads, so reads never go backwards. -/
structure TaskDb (ι κ : Type) where
  clock : Int
  ticks : List Nat
  tasks : Table (Task ι κ)

abbrev TaskTx (ι κ α : Type) := Tx RepoError (TaskDb ι κ) α

variable {ι κ : Type} {r : Task ι κ} {g : Nat} {now : Int}

theorem Task.heldBy_iff : r.heldBy g now = true ↔
      r.status = .running ∧ r.claimGeneration = g ∧ ∃ lease, r.leaseUntil = some lease ∧ now < lease := by
  simp [Task.heldBy, Option.any_eq_true, and_assoc]

theorem Task.holds_round (h : r.heldBy g now = true) : r.round.Holds g := by
  obtain ⟨hs, hg, -⟩ := Task.heldBy_iff.mp h
  refine ⟨?_, hg⟩
  show r.phase = .held
  simp [Task.phase, hs]

end Tasks
end SynapS3
