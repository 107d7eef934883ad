import SynapS3.DataSet.Model
import SynapS3.Task.Handler

/-!
# `DataSet.Repo` — the transactions on bindings

Each method of the repository as the `UPDATE` it issues, with its `WHERE`. What other parts of the program do
to a binding is here too, as far as it matters to its creation: selection plans insert rows and mark bindings
ready that are ready already; replacement and retirement move a binding out of its slot and take the creation
away from its round (`revise`).
-/

namespace SynapS3.DataSet

open Tasks (End)

abbrev EnsureRound := Round Input Checkpoint End

/-- A create request that went out. -/
structure Send where
  claim : Nat × Nat
  clientDataSetID : Nat
  identity : ContextIdentity
  providerID : Nat
  deriving DecidableEq

/-- A data set on chain, under the identity and the client ID of the request that created it. `binding` is
    the binding whose request it was, if it was one of ours. -/
structure OnChain where
  identity : ContextIdentity
  clientDataSetID : Nat
  providerID : Nat
  dataSetID : Nat
  binding : Option Nat
  deriving DecidableEq

inductive Lookup where
  | error
  | conflict
  | notFound
  | found (ref : DataSetRef)
  deriving DecidableEq

/-- What was admitted, sent and looked up for a binding. No program reads it. -/
structure History where
  /-- The identity that the client ID was recorded under. -/
  identity : Option ContextIdentity := none
  /-- The claims that admitted a create request, in order. -/
  admitted : List (Nat × Nat) := []
  sends : List Send := []
  lookedUp : Nat × Nat → Option Lookup := fun _ => none
  /-- The evidence, as transaction hash and status URL, that a provider reported to be rejected. -/
  rejected : List (String × String) := []
  /-- A report of a create call gave a status URL and named no transaction. -/
  unnamed : Bool := false

/-- The tables, the chain, the references that selection plans hold, and the record per binding. -/
structure State where
  rows : Table StorageDataSet
  rounds : Table EnsureRound
  chain : List OnChain
  plans : List DataSetRef
  history : Nat → History

abbrev DataSetTx (α : Type) := Tx RepoError State α

def State.noted (s : State) (id : Nat) (f : History → History) : State :=
  { s with history := fun i => if i = id then f (s.history i) else s.history i }

def note (id : Nat) (f : History → History) : DataSetTx Unit := do
  let s ← Tx.read
  Tx.write (s.noted id f)

/-- `UPDATE storage_data_sets SET f WHERE id = … AND p`, refusing if no row matches. -/
def updateRow (id : Nat) (p : StorageDataSet → Bool) (f : StorageDataSet → StorageDataSet) : DataSetTx Unit := do
  let s ← Tx.read
  let row ← Tx.orFail (s.rows.row id) .notFound
  Tx.require (p row) .conflict
  Tx.write { s with rows := s.rows.modify id f }

/-! ## The creating round's statements -/

/-- `authorizeDataSetTask` for the ensure fence, on a row that was read. -/
def authorized (row : Option StorageDataSet) (taskID : Nat) : Option StorageDataSet :=
  row.filter fun r => r.ensureTaskID == some taskID && !r.creationStopped

def authorizeDataSetEnsureTask (id taskID : Nat) : DataSetTx Unit := do
  let s ← Tx.read
  let _ ← Tx.orFail (authorized (s.rows.row id) taskID) .conflict
  pure ()

def recordDataSetClientID (id taskID client : Nat) : DataSetTx Unit := do
  Tx.require (client != 0) .invalidInput
  updateRow id
    (fun r => r.ensureTaskID == some taskID && (r.status == .pending || r.status == .creating) &&
      !r.creationStopped && (r.clientDataSetID.isNone || r.clientDataSetID == some client))
    fun r => { r with clientDataSetID := some client }

def StorageDataSet.withEvidence (r : StorageDataSet) (txHash confirmedTxHash statusURL : String) : StorageDataSet :=
  if txHash ≠ "" then
    { r with
      txHash := txHash
      confirmedTxHash := if r.txHash ≠ txHash ∨ confirmedTxHash ≠ "" then confirmedTxHash else r.confirmedTxHash
      createStatusURL := if r.txHash ≠ txHash ∨ statusURL ≠ "" then statusURL else r.createStatusURL }
  else
    { r with
      createStatusURL := if statusURL ≠ "" then statusURL else r.createStatusURL
      confirmedTxHash := if confirmedTxHash ≠ "" then confirmedTxHash else r.confirmedTxHash }

def StorageDataSet.acceptsEvidence (r : StorageDataSet) (txHash confirmedTxHash : String) : Bool :=
  confirmedTxHash == "" || (txHash != "" && r.txHash != txHash) || r.confirmedTxHash == "" ||
    r.confirmedTxHash == confirmedTxHash

def markDataSetCreating (id : Nat) (c : Checkpoint) (client : Nat) : DataSetTx Unit :=
  updateRow id
    (fun r => (r.status == .pending || r.status == .creating || r.status == .draining) &&
      r.acceptsEvidence c.txHash c.confirmedTxHash)
    fun r => { r.withEvidence c.txHash c.confirmedTxHash c.statusURL with
      status := if r.status = .draining then .draining else .creating
      clientDataSetID := some client }

def markDataSetReady (id dataSetID client : Nat) (txHash confirmedTxHash : String) : DataSetTx Unit := do
  Tx.require (dataSetID != 0) .invalidInput
  let s ← Tx.read
  let row ← Tx.orFail (s.rows.row id) .notFound
  Tx.require (!s.rows.any fun other r =>
    other != id && r.providerID == row.providerID && r.dataSetID == some dataSetID) .conflict
  updateRow id
    (fun r => (r.status == .pending || r.status == .creating || r.status == .ready ||
        (r.status == .draining && (r.dataSetID.isNone || r.dataSetID == some dataSetID))) &&
      (r.clientDataSetID.isNone || r.clientDataSetID == some client) &&
      r.acceptsEvidence txHash confirmedTxHash)
    fun r => { r.withEvidence txHash confirmedTxHash "" with
      status := if r.status = .draining then .draining else .ready
      dataSetID := some dataSetID
      clientDataSetID := some client }

def completeDataSetEnsureTask (id taskID : Nat) : DataSetTx Unit :=
  updateRow id (fun r => r.ensureTaskID == some taskID) fun r => { r with ensureTaskID := none }

def finishDataSetEnsure (id taskID : Nat) : DataSetTx Unit := do
  completeDataSetEnsureTask id taskID
  let s ← Tx.read
  let row ← Tx.orFail (s.rows.row id) .conflict
  Tx.require (row.status == .ready && row.dataSetID.any (· != 0)) .conflict

/-! ## What the rest of the program does to a binding -/

def newBinding (bucketID providerID copyIndex : Nat) (isCurrent : Bool) : StorageDataSet where
  bucketID := bucketID
  providerID := providerID
  copyIndex := copyIndex
  isCurrent := isCurrent
  status := .pending
  dataSetID := none
  clientDataSetID := none
  txHash := ""
  confirmedTxHash := ""
  createStatusURL := ""
  ensureTaskID := none
  replaced := false

def ensureDataSetBinding (bucketID providerID copyIndex : Nat) : DataSetTx Nat := do
  let s ← Tx.read
  match (s.rows.ids fun _ r => r.bucketID == bucketID && r.providerID == providerID && r.status != .retired).head? with
  | some id =>
    let r ← Tx.orFail (s.rows.row id) .conflict
    Tx.require (r.isCurrent && r.copyIndex == copyIndex) .conflict
    pure id
  | none =>
    Tx.require (!s.rows.any fun _ r => r.bucketID == bucketID && r.copyIndex == copyIndex && r.isCurrent) .conflict
    Tx.write { s with rows := s.rows.insert (newBinding bucketID providerID copyIndex true) }
    pure s.rows.next

/-- One entry of a selection plan (`bucketprovision`, `uploadplan`): the binding, and a reference to its data
    set if the plan opened one. -/
def schedule (bucketID providerID copyIndex : Nat) (ref : Option DataSetRef) : DataSetTx Unit := do
  let id ← ensureDataSetBinding bucketID providerID copyIndex
  match ref with
  | none => pure ()
  | some ref =>
    let s ← Tx.read
    let row ← Tx.orFail (s.rows.row id) .notFound
    Tx.require (ref.belongs row.providerID row.clientDataSetID) .conflict
    markDataSetReady id ref.dataSetID ref.clientDataSetID "" ""

def insertTarget (bucketID providerID copyIndex : Nat) : DataSetTx Unit := do
  let s ← Tx.read
  Tx.write { s with rows := s.rows.insert (newBinding bucketID providerID copyIndex false) }

def currentRound (rounds : Table EnsureRound) (dataSetID : Nat) : Option Nat :=
  (rounds.ids fun _ r => r.input.dataSetID == dataSetID && !r.superseded).head?

/-- `validateDataSetTaskBinding` for the ensure task. -/
def validateDataSetTaskBinding (id taskID : Nat) : DataSetTx Unit := do
  let s ← Tx.read
  let r ← Tx.orFail (s.rounds.row taskID) .conflict
  Tx.require (r.isOpen && !r.superseded && r.input.dataSetID == id) .conflict

def bindDataSetEnsureTask (id taskID : Nat) : DataSetTx Unit := do
  validateDataSetTaskBinding id taskID
  updateRow id (fun r => r.ensureTaskID.isNone && !r.creationStopped)
    fun r => { r with ensureTaskID := some taskID }

/-- The receiver of `EnsureDataSet`: a round for the binding, and the binding is its. -/
def ensureDataSet (id : Nat) (identity : Pipeline.ExecutionIdentity) : DataSetTx Unit := do
  Tx.require identity.complete .invalidInput
  let s ← Tx.read
  let _ ← Tx.orFail (s.rows.row id) .notFound
  let taskID ← match currentRound s.rounds id with
    | some taskID => pure taskID
    | none => do
      Tx.write { s with rounds := s.rounds.insert (Round.new ⟨identity, id⟩ none false none) }
      pure s.rounds.next
  bindDataSetEnsureTask id taskID

def backfillClientDataSetID (id dataSetID client : Nat) : DataSetTx Unit :=
  updateRow id (fun r => r.dataSetID == some dataSetID && r.clientDataSetID.isNone)
    fun r => { r with clientDataSetID := some client }

/-- What replacement and retirement do to a binding. Taking its creation away from the ensure round stops creation for
    good. -/
structure Revision where
  status : StorageDataSetStatus
  isCurrent : Bool
  replaced : Bool
  release : Bool
  deriving DecidableEq

def Revision.apply (v : Revision) (r : StorageDataSet) : StorageDataSet :=
  { r with
    status := v.status
    isCurrent := v.isCurrent
    replaced := r.replaced || v.replaced
    ensureTaskID := if v.release then none else r.ensureTaskID }

/-- Whether a revision is one that those transactions make. -/
def Revision.allowed (v : Revision) (r : StorageDataSet) : Bool :=
  (v.status == r.status || v.status == .draining || v.status == .retired) &&
    !(r.status == .retired && v.status != .retired) &&
    (!v.release || (v.apply r).creationStopped || r.dataSetID.isSome)

/-- A revision of a binding by those transactions. -/
def revise (id : Nat) (v : Revision) : DataSetTx Unit := updateRow id v.allowed v.apply

/-! ## Manual retry -/

/-- The transaction of `Service.Retry` with `InspectRetry` and `BindSuccessor` of the ensure task. -/
def retry (sourceID : Nat) : DataSetTx Unit := do
  let s ← Tx.read
  let source ← Tx.orFail (s.rounds.row sourceID) .notFound
  Tx.require (!source.superseded && (match source.phase with
    | .ended (.failed, reason) => reason != some "dataset_correlation_conflict"
    | _ => false)) .conflict
  let row ← Tx.orFail (s.rows.row source.input.dataSetID) .conflict
  Tx.require (row.ensureTaskID == some sourceID) .conflict
  let nextID := s.rounds.next
  let superseded := s.rounds.modify sourceID fun r => { r with superseded := true }
  Tx.require ((currentRound superseded source.input.dataSetID).isNone &&
    !superseded.any fun _ r => r.retryOf == some sourceID) .conflict
  let next := Round.new source.input source.checkpoint true (some sourceID)
  Tx.write { s with rounds := superseded.insert next }
  validateDataSetTaskBinding source.input.dataSetID nextID
  updateRow source.input.dataSetID (fun r => r.ensureTaskID == some sourceID)
    fun r => { r with ensureTaskID := some nextID }

end SynapS3.DataSet
