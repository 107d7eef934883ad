import SynapS3.Lib.Table
import SynapS3.Lib.Tx
import SynapS3.Removal.Chain

/-!
# `Removal.Model` — removal requests, their sends and the cleanup copies

A deleted content leaves one *cleanup copy* per committed piece. Cleanup copies of one data set are collected
into a *removal request*, which is sealed and then sent to the provider as one transaction; every send is
recorded, before it goes out, with the pieces it names and afterwards with what became of it.

An execution of the request's task (`Run`) reads the request and its members, then the sends, then the chain,
then the payment service, in this order and each at its own time.

Times are left out: a column that is only ever compared with `NULL` is a `Bool`.
-/

namespace SynapS3.Removal

inductive RequestStatus where
  | collecting
  | ready
  | submitted
  | queued
  | settled
  | abandoned
  deriving DecidableEq

def RequestStatus.terminal : RequestStatus → Bool
  | .settled | .abandoned => true
  | _ => false

inductive AttentionCode where
  | identityMismatch
  | payerUnderfunded
  | providerUnreachable
  | confirmationTimeout
  | transactionReverted
  | removalStalled
  | cleanupStalled
  deriving DecidableEq

def AttentionCode.isStop : AttentionCode → Bool
  | .identityMismatch | .payerUnderfunded | .providerUnreachable | .transactionReverted => true
  | .confirmationTimeout | .removalStalled | .cleanupStalled => false

/-- `storageremoval.Request`. -/
structure Request where
  dataSet : Nat
  status : RequestStatus := .collecting
  task : Option Nat
  queuedBlock : Option Nat := none
  attention : Option AttentionCode := none
  deriving DecidableEq

inductive CopyStatus where
  | pending
  | deleteScheduled
  | removed
  | failed
  | unsupported
  deriving DecidableEq

/-- `model.StorageCleanupCopy`. -/
structure CleanupCopy where
  content : Nat
  dataSet : Nat
  piece : Nat
  status : CopyStatus := .pending
  deleteTxHash : Option String := none
  request : Option Nat := none
  deriving DecidableEq

/-- `storageremoval.SendPiece`. -/
structure SendPiece where
  copy : Nat
  piece : Nat
  deriving DecidableEq

/-- `storageremoval.Send`. -/
structure Send where
  sendNo : Nat
  task : Nat
  txHash : Option String := none
  confirmedTxHash : Option String := none
  receiptStatus : Option Nat := none
  refused : Bool := false
  unsent : Bool := false
  pieces : List SendPiece
  deriving DecidableEq

def Send.exposed (s : Send) : Bool := !s.unsent

def Send.possiblyAccepted (s : Send) : Bool := !s.unsent && !s.refused

def Send.inFlight (s : Send) : Bool := s.possiblyAccepted && s.receiptStatus != some 0

def latestExposedSend (sends : List Send) : Option Send := sends.reverse.find? (·.exposed)

def latestPossiblyAcceptedSend (sends : List Send) : Option Send :=
  sends.reverse.find? (·.possiblyAccepted)

def maxEnqueuedRemovals : Nat := 2000

/-- `synapse.CleanupPiecesState`: the pieces of a data set at one block. -/
structure PiecesState where
  block : Nat
  queueLength : Nat
  pieces : Nat → PieceStatus

/-- `synapse.RemovalPreflight`. -/
structure Preflight where
  dataSetMissing : Bool
  ended : Bool
  payerUnderfunded : Bool
  deriving DecidableEq

/-- What an execution has read so far. -/
structure Run where
  id : Nat
  task : Nat
  request : Request
  members : List (Nat × CleanupCopy)
  sends : Option (List Send) := none
  state : Option PiecesState := none
  preflight : Option Preflight := none

/-- The claim of a content's cleanup: its generation and the task that carries it out. -/
structure ContentClaim where
  generation : Nat
  task : Option Nat
  deriving DecidableEq

/-- The tables, the chain and the executions. `seen` is a record that no program reads: the pieces of a data
    set that an execution saw to be gone. -/
structure State where
  contents : Nat → Option ContentClaim
  requests : Table Request
  copies : Table CleanupCopy
  sends : Nat → List Send
  nextTask : Nat
  chain : Chain
  runs : Table Run
  seen : List (Nat × Nat)

inductive RemovalError where
  | invalidInput
  | notFound
  | conflict
  | noRemovalRoom
  deriving DecidableEq

abbrev RemovalTx (α : Type) := Tx RemovalError State α

def State.members (s : State) (id : Nat) : List (Nat × CleanupCopy) :=
  (s.copies.ids fun _ c => c.request == some id).filterMap fun i => (s.copies.row i).map (i, ·)

theorem State.mem_members {s : State} {id i : Nat} {c : CleanupCopy} :
    (i, c) ∈ s.members id ↔ s.copies.row i = some c ∧ c.request = some id := by
  simp only [State.members, List.mem_filterMap, Table.mem_ids, Option.map_eq_some_iff, Prod.mk.injEq,
    beq_iff_eq]
  constructor
  · rintro ⟨j, ⟨c', hc', hr⟩, c'', hc'', rfl, rfl⟩
    rw [hc''] at hc'
    cases hc'
    exact ⟨hc'', hr⟩
  · rintro ⟨hc, hr⟩
    exact ⟨i, ⟨c, hc, hr⟩, c, hc, rfl, rfl⟩

theorem latestPossiblyAcceptedSend_isNone {sends : List Send} :
    (latestPossiblyAcceptedSend sends).isNone = true ↔ ∀ send ∈ sends, send.possiblyAccepted = false := by
  simp [latestPossiblyAcceptedSend]

end SynapS3.Removal
