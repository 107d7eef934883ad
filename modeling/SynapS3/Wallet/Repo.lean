import SynapS3.Task.Handler
import SynapS3.Wallet.Model

/-!
# `Wallet.Repo` — the transactions on wallet operations

Each method of the wallet operation repository, as the `UPDATE` it issues: the row is changed if the `WHERE`
holds, and a statement that finds no such row refuses. The rounds are those of the task table (see
`Task.round`); the methods that bind a round to an operation read them.
-/

namespace SynapS3.Wallet

open Tasks (End)

abbrev WalletRound := Round Input Checkpoint End

/-- What happened outside for an operation. No program reads it. -/
structure History where
  /-- The claim whose admission allowed the current attempt. -/
  signer : Option (Nat × Nat) := none
  /-- How often the client was told to pay in the current attempt. -/
  signings : Nat := 0
  sent : List TxHash := []
  approved : Bool := false
  receipts : List TxHash := []
  deriving DecidableEq

/-- The two tables, and the record of what happened outside. -/
structure State where
  ops : Table WalletOperation
  rounds : Table WalletRound
  history : Nat → History

abbrev WalletTx (α : Type) := Tx RepoError State α

/-- `UPDATE wallet_operations SET f WHERE id = … AND p`, refusing with `err` if no row matches. -/
def updateOperation (id : Nat) (err : RepoError) (p : WalletOperation → Bool)
    (f : WalletOperation → WalletOperation) : WalletTx Unit := do
  let s ← Tx.read
  let op ← Tx.orFail (s.ops.row id) err
  Tx.require (p op) err
  Tx.write { s with ops := s.ops.modify id f }

def note (id : Nat) (f : History → History) : WalletTx Unit := do
  let s ← Tx.read
  Tx.write { s with history := fun i => if i = id then f (s.history i) else s.history i }

/-! ## Requests -/

def getByTypeAndClientRequestID (ops : Table WalletOperation) (type : WalletOperationType)
    (clientRequestID : String) : Option Nat :=
  (ops.ids fun _ op => op.type == type && op.clientRequestID == clientRequestID).head?

def newOperation (type : WalletOperationType) (clientRequestID : String) (amount : Nat) : WalletOperation where
  type := type
  clientRequestID := clientRequestID
  amount := amount
  status := .pending
  txHash := none
  signedTransaction := none
  broadcastAttempted := false
  taskID := none

def createOrGet (type : WalletOperationType) (clientRequestID : String) (amount : Nat) : WalletTx (Nat × Bool) := do
  Tx.require (validTaskWalletAmount type amount) .invalidInput
  let s ← Tx.read
  match getByTypeAndClientRequestID s.ops type clientRequestID with
  | none =>
    Tx.write { s with ops := s.ops.insert (newOperation type clientRequestID amount) }
    pure (s.ops.next, true)
  | some id =>
    let op ← Tx.orFail (s.ops.row id) .conflict
    Tx.require (op.amount == amount) .walletOperationConflict
    pure (id, false)

def currentRound (rounds : Table WalletRound) (operationID : Nat) : Option Nat :=
  (rounds.ids fun _ r => r.input.operationID == operationID && !r.superseded).head?

def taskForBinding (id taskID : Nat) : WalletTx WalletRound := do
  let s ← Tx.read
  let r ← Tx.orFail (s.rounds.row taskID) .conflict
  Tx.require (r.isOpen && !r.superseded && r.input.operationID == id) .conflict
  pure r

def bindTask (id taskID : Nat) : WalletTx Unit := do
  let _ ← taskForBinding id taskID
  updateOperation id .notFound
    (fun op => op.status == .pending && (op.taskID.isNone || op.taskID == some taskID))
    fun op => { op with taskID := some taskID }

/-- The transaction of `handleAPIWalletOperation`: the operation of the request, and a round for it if it
    has none. -/
def handleAPIWalletOperation (type : WalletOperationType) (clientRequestID : String) (amount : Nat)
    (identity : ExecutionIdentity) : WalletTx Nat := do
  let (id, _) ← createOrGet type clientRequestID amount
  let s ← Tx.read
  let op ← Tx.orFail (s.ops.row id) .notFound
  if op.taskID.isSome ∨ op.status ≠ .pending then pure id
  else
    let taskID ← match currentRound s.rounds id with
      | some taskID => pure taskID
      | none => do
        Tx.write { s with rounds := s.rounds.insert (Round.new ⟨identity, id⟩ none false none) }
        pure s.rounds.next
    bindTask id taskID
    pure id

/-! ## The claim holder's statements -/

def markBroadcastAttempted (id taskID : Nat) : WalletTx Unit :=
  updateOperation id .notFound (fun op => op.taskID == some taskID && op.status == .pending)
    fun op => { op with broadcastAttempted := true }

def WalletOperation.withSubmission (op : WalletOperation) (txHash : TxHash)
    (signedTransaction : Option SignedTx) : WalletOperation :=
  { op with
    status := .submitted
    txHash := some txHash
    signedTransaction := op.signedTransaction.or signedTransaction }

/-- `RecordSubmission` only fills missing transaction evidence or repeats it unchanged. -/
def recordSubmission (id taskID : Nat) (txHash : TxHash) (signedTransaction : Option SignedTx) : WalletTx Unit :=
  updateOperation id .notFound
    (fun op => op.taskID == some taskID && (op.status == .pending || op.status == .submitted) &&
      (op.txHash.isNone || op.txHash == some txHash) &&
      (signedTransaction.isNone || op.broadcastAttempted) &&
      (signedTransaction.isNone || op.signedTransaction.isNone ||
        op.signedTransaction == signedTransaction))
    fun op => op.withSubmission txHash signedTransaction

def recordConfirmationError (id taskID : Nat) : WalletTx Unit :=
  updateOperation id .notFound (fun op => op.taskID == some taskID && op.status == .submitted) fun op => op

def markConfirmed (id taskID : Nat) (txHash : TxHash) : WalletTx Unit :=
  updateOperation id .notFound
    (fun op => op.taskID == some taskID && (op.status == .pending || op.status == .submitted) &&
      (op.txHash.isNone || op.txHash == some txHash))
    fun op => { op with status := .confirmed, txHash := some txHash, taskID := none }

def markConfirmedWithoutTransaction (id taskID : Nat) : WalletTx Unit :=
  updateOperation id .notFound (fun op => op.taskID == some taskID && op.status == .pending)
    fun op => { op with status := .confirmed, txHash := none, taskID := none }

def markFailed (id taskID : Nat) : WalletTx Unit :=
  updateOperation id .notFound
    (fun op => op.taskID == some taskID && (op.status == .submitted || op.status == .pending))
    fun op => { op with status := .failed, taskID := none }

def markUnknown (id taskID : Nat) : WalletTx Unit :=
  updateOperation id .notFound
    (fun op => op.taskID == some taskID && op.status == .pending && op.broadcastAttempted)
    fun op => { op with status := .unknown, taskID := none }

def markSubmissionUnknown (id taskID : Nat) : WalletTx Unit :=
  updateOperation id .notFound
    (fun op => op.taskID == some taskID && op.status == .submitted && op.broadcastAttempted)
    fun op => { op with status := .unknown, taskID := none }

/-! ## Manual retry -/

def validateTransferredTask (oldID newID : Nat) : WalletTx Unit := do
  let s ← Tx.read
  let next ← Tx.orFail (s.rounds.row newID) .conflict
  Tx.require ((s.rounds.row oldID).isSome && next.retryOf == some oldID) .conflict

def transferTaskOwner (id oldID newID : Nat) : WalletTx Unit := do
  validateTransferredTask oldID newID
  let _ ← taskForBinding id newID
  updateOperation id .conflict (fun op => op.taskID == some oldID) fun op => { op with taskID := some newID }

/-- `ReopenUnsentForRetry`. The record starts a new attempt. -/
def reopenUnsentForRetry (id oldID newID : Nat) : WalletTx Unit := do
  validateTransferredTask oldID newID
  let s ← Tx.read
  let previous ← Tx.orFail (s.rounds.row oldID) .conflict
  let next ← taskForBinding id newID
  let checkpoint ← Tx.orFail previous.checkpoint .conflict
  Tx.require ((match previous.phase with | .ended (.failed, _) => true | _ => false) &&
    previous.input.operationID == id && previous.input.executionIdentity.matches next.input.executionIdentity &&
    checkpoint.executionIdentity.matches previous.input.executionIdentity &&
    checkpoint.broadcastAttempted && checkpoint.broadcastNotSent && checkpoint.transactionHash.isNone) .conflict
  updateOperation id .conflict
    (fun op => op.status == .failed && op.taskID.isNone && op.broadcastAttempted && op.txHash.isNone &&
      op.signedTransaction.isNone && validTaskWalletAmount op.type op.amount)
    fun op => { op with status := .pending, taskID := some newID, broadcastAttempted := false }
  note id fun h => { h with signer := none, signings := 0 }

/-- `walletSubmission`: the transaction that the row and the checkpoint agree on. -/
def walletSubmission (op : WalletOperation) (checkpoint : Option Checkpoint) : Option WalletSubmission :=
  let saved := checkpoint.bind (·.transactionHash)
  if op.txHash.any (· == 0) then none
  else if saved.any (· == 0) || (saved.isSome && op.txHash.isSome && op.txHash != saved) then none
  else some { txHash := op.txHash.or saved, signedTransaction := op.signedTransaction }

def canManualRetry (reason : Option String) : Bool :=
  !reason.any ["invalid_checkpoint", "wallet_broadcast_unknown", "wallet_transaction_reverted",
    "wallet_permit_expired", "wallet_transaction_displaced"].contains

/-- `InspectRetry` on the source round and the operation's row. -/
def inspectRetry (sourceID : Nat) (source : WalletRound) (row : Option WalletOperation) : Bool :=
  match row with
  | none => false
  | some op =>
    if op.broadcastAttempted && source.checkpoint.isNone then false
    else if !source.checkpoint.all (·.executionIdentity.matches source.input.executionIdentity) then false
    else if source.checkpoint.any (·.broadcastNotSent) then
      source.checkpoint.any (fun c => c.broadcastAttempted && c.transactionHash.isNone) &&
        op.status == .failed && op.taskID.isNone && op.broadcastAttempted && op.txHash.isNone &&
        op.signedTransaction.isNone && validTaskWalletAmount op.type op.amount
    else if op.taskID != some sourceID || op.status == .unknown || op.status == .confirmed then false
    else match walletSubmission op source.checkpoint with
      | none => false
      | some submission => !op.broadcastAttempted || (validTaskWalletAmount op.type op.amount &&
          validateWalletSubmission source.input.executionIdentity op.type op.amount submission)

/-- The transaction of `Service.Retry`: the failed round is superseded by a successor, which inherits the
    checkpoint unless it proves that nothing was sent. -/
def retry (sourceID : Nat) : WalletTx Unit := do
  let s ← Tx.read
  let source ← Tx.orFail (s.rounds.row sourceID) .notFound
  Tx.require (!source.superseded && (match source.phase with
    | .ended (.failed, reason) => canManualRetry reason
    | _ => false)) .conflict
  Tx.require (inspectRetry sourceID source (s.ops.row source.input.operationID)) .conflict
  let unsent := source.checkpoint.any (·.broadcastNotSent)
  let nextID := s.rounds.next
  let superseded := s.rounds.modify sourceID fun r => { r with superseded := true }
  Tx.require ((currentRound superseded source.input.operationID).isNone &&
    !superseded.any fun _ r => r.retryOf == some sourceID) .conflict
  let next := Round.new source.input (if unsent then none else source.checkpoint) true (some sourceID)
  Tx.write { s with rounds := superseded.insert next }
  if unsent then reopenUnsentForRetry source.input.operationID sourceID nextID
  else transferTaskOwner source.input.operationID sourceID nextID

end SynapS3.Wallet
