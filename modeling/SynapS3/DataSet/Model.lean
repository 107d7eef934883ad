import SynapS3.Pipeline.Identity
import SynapS3.Task.Model

/-!
# `DataSet.Model` — bindings of a replica slot to a paid data set

A binding (a row of `storage_data_sets`) asks one provider for one data set. The create request carries a
*client data set ID*, by which the data set is found on chain afterwards, whoever lost which answer. The
checkpoint of the round that creates it repeats the ID, the signing identity and the evidence of the latest
request.

Texts that may be missing (transaction hashes, status URLs) are `""` where the source has `""` or `NULL`. The
zero client ID is none.
-/

namespace SynapS3.DataSet

open Pipeline (ExecutionIdentity)

inductive StorageDataSetStatus where
  | pending
  | creating
  | ready
  | draining
  | retired
  deriving DecidableEq

/-- `model.StorageDataSet`, a row of `storage_data_sets`. -/
structure StorageDataSet where
  bucketID : Nat
  providerID : Nat
  copyIndex : Nat
  isCurrent : Bool
  status : StorageDataSetStatus
  dataSetID : Option Nat
  clientDataSetID : Option Nat
  txHash : String
  confirmedTxHash : String
  createStatusURL : String
  ensureTaskID : Option Nat
  /-- A row of `storage_replacements` has this data set as its source. -/
  replaced : Bool
  deriving DecidableEq

/-- `dataSetCreationStoppedSQL`: a local replacement source keeps its slot but permanently gives up
    creation. -/
def StorageDataSet.creationStopped (row : StorageDataSet) : Bool :=
  row.status == .retired || (row.dataSetID.isNone && row.replaced)

def StorageDataSet.creationSent (row : StorageDataSet) : Bool :=
  row.clientDataSetID.any (· != 0) || row.txHash != ""

/-- A data set on chain, as a lookup by client ID finds it. -/
structure DataSetRef where
  providerID : Nat
  dataSetID : Nat
  clientDataSetID : Nat
  deriving DecidableEq

/-- `DataSetRefIDs`, for a row whose client ID is `client`: whether the reference can be this binding's. -/
def DataSetRef.belongs (ref : DataSetRef) (providerID : Nat) (client : Option Nat) : Bool :=
  ref.providerID == providerID && ref.dataSetID != 0 &&
    !(client.any fun c => c != 0 && ref.clientDataSetID != c)

/-- A confirmed creation. -/
structure CreateDataSetResult where
  transactionID : String
  confirmedTransactionID : String
  dataSet : DataSetRef
  deriving DecidableEq

/-- What a provider reports of a request that it has sent on. -/
structure CreateDataSetSubmission where
  transactionID : String := ""
  statusURL : String := ""
  deriving DecidableEq

/-- `dataSetCreationCheckpoint`. -/
structure Checkpoint where
  executionIdentity : ExecutionIdentity
  attemptedAt : Nat := 0
  txHash : String := ""
  confirmedTxHash : String := ""
  transactionRejected : Bool := false
  statusURL : String := ""
  clientDataSetID : Nat
  sends : Nat := 0
  nextResendAt : Option Nat := none
  deriving DecidableEq

namespace Checkpoint

/-- `recordSubmission`: evidence of a new transaction replaces that of the previous one. -/
def recordSubmission (c : Checkpoint) (txHash : String) : Checkpoint :=
  if txHash ≠ "" ∧ txHash ≠ c.txHash then
    { c with txHash := txHash, confirmedTxHash := "", statusURL := "", transactionRejected := false }
  else c

/-- `mergeEvidence`; `none` if the evidence conflicts. -/
def mergeEvidence (c : Checkpoint) (txHash confirmedTxHash statusURL : String) : Option Checkpoint :=
  if txHash ≠ "" ∧ c.txHash ≠ "" ∧ txHash ≠ c.txHash then none
  else if confirmedTxHash ≠ "" ∧ c.confirmedTxHash ≠ "" ∧ c.confirmedTxHash ≠ confirmedTxHash then none
  else
    let merged := if txHash ≠ "" then txHash else c.txHash
    some { c with
      confirmedTxHash := if confirmedTxHash ≠ "" then confirmedTxHash else c.confirmedTxHash
      txHash := merged
      statusURL := if statusURL ≠ "" ∧ (txHash ≠ "" ∨ merged = "") then statusURL else c.statusURL }

/-- Nothing is recorded of a sent request, or the transaction that is recorded was rejected. -/
def resendable (c : Checkpoint) : Bool :=
  c.transactionRejected || (c.txHash == "" && c.confirmedTxHash == "" && c.statusURL == "")

/-- Evidence of a request, and a rejection of it, stand with the hash of its transaction. -/
def Named (c : Checkpoint) : Prop := c.statusURL ≠ "" ∨ c.transactionRejected = true → c.txHash ≠ ""

/-- `requestIdentity` for a target that signs for `target`: the client ID, or the failure reason. -/
def requestIdentity (c : Checkpoint) (target : ContextIdentity) : Except String Nat :=
  match c.executionIdentity.identity with
  | none => .error "invalid_checkpoint"
  | some identity =>
    if c.clientDataSetID = 0 then .error "invalid_checkpoint"
    else if target ≠ identity then .error "dataset_identity_changed"
    else .ok c.clientDataSetID

def SameRequest (c c' : Checkpoint) : Prop :=
  c'.clientDataSetID = c.clientDataSetID ∧ c'.executionIdentity = c.executionIdentity

theorem SameRequest.refl (c : Checkpoint) : SameRequest c c := ⟨rfl, rfl⟩

variable {c : Checkpoint}

theorem SameRequest.trans {a b : Checkpoint} (h : SameRequest a b) (h' : SameRequest b c) : SameRequest a c :=
  ⟨h'.1.trans h.1, h'.2.trans h.2⟩

theorem recordSubmission_same (c : Checkpoint) (txHash : String) : SameRequest c (c.recordSubmission txHash) := by
  unfold recordSubmission
  split <;> exact ⟨rfl, rfl⟩

theorem mergeEvidence_same {c' : Checkpoint} {txHash confirmedTxHash statusURL : String}
    (h : c.mergeEvidence txHash confirmedTxHash statusURL = some c') : SameRequest c c' := by
  simp only [mergeEvidence] at h
  split at h
  · cases h
  split at h
  · cases h
  · cases h; exact ⟨rfl, rfl⟩

end Checkpoint

/-- `storagepipeline.DataSetInput`. -/
structure Input where
  executionIdentity : ExecutionIdentity
  dataSetID : Nat
  deriving DecidableEq

end SynapS3.DataSet
