import SynapS3.Wallet.Repo

/-!
# `Wallet.Handler` — the handler of wallet operations, and the system it runs in

`processWalletOperation` and `broadcastWalletOperation` are written as in the source: every database read,
every transaction and every call of the wallet client or the chain is one action, and anything may happen in
between.

The outside answers anything, with two limits (`answers`): a client that reports that nothing was sent has
sent nothing, and transaction evidence returned by a call is of the transaction that call put on the
network, if it put one there.
-/

namespace SynapS3.Wallet

open Tasks (Handled HandlerM TaskResumeMode outside withCheckpointedEffect)

/-! ## The outside -/

/-- The receipt of a transaction, if the chain has one. `status` is `none` if it is neither of the two that a
    receipt may carry. -/
inductive ReceiptReply where
  | unavailable
  | error
  | notFound
  | receipt (txHash : TxHash) (successful : Option Bool)
  deriving DecidableEq

inductive Lookup where
  | error
  | notFound
  | found (hash : Option TxHash)
  deriving DecidableEq

inductive Query where
  | walletIdentity
  /-- `FundUSDFC`, `WithdrawUSDFC` or `ApproveFWSS`: sign a payment and broadcast it. -/
  | pay (operationID : Nat) (type : WalletOperationType) (amount : Nat)
  | transactionReceipt (operationID : Nat) (hash : TxHash)
  | replayConfigured
  | chainID
  | replayReceipt (hash : TxHash)
  | transactionByHash (hash : TxHash)
  | finalizedHeader
  | finalizedNonce
  | latestNonce
  | pendingNonce
  | clock
  | sendTransaction (operationID : Nat) (tx : SignedTx)

/-- The answers; where it is an option, `none` is an error of the call. -/
abbrev Query.Reply : Query → Type
  | .walletIdentity => Option ExecutionIdentity
  | .pay .. => SdkReply
  | .transactionReceipt .. => ReceiptReply
  | .replayConfigured => Bool
  | .chainID => Option (Option Nat)
  | .replayReceipt _ | .transactionByHash _ => Lookup
  | .finalizedHeader => Option Nat
  | .finalizedNonce | .latestNonce | .pendingNonce => Option Nat
  | .clock => Nat
  | .sendTransaction .. => Bool

def State.noted (s : State) (id : Nat) (f : History → History) : State :=
  { s with history := fun i => if i = id then f (s.history i) else s.history i }

/-- Whether a reply of the client and what it put on the network go together. -/
def answers (type : WalletOperationType) (reply : SdkReply) (sent : Option TxHash) : Bool :=
  let submission := (broadcastResult type reply).1
  (!submission.notSent || sent.isNone) && sent.all fun hash => submission.txHash.all (· == hash)

/-- What a call does to the record. `sent` is the transaction that a payment put on the network. -/
def world (_ : Nat × Nat) : (q : Query) → q.Reply → Option TxHash → State → Option State
  | .pay id type _, reply, sent, s =>
    if answers type reply sent then
      some (s.noted id fun h => { h with
        signings := h.signings + 1
        sent := h.sent ++ sent.toList
        approved := h.approved || (broadcastResult type reply).2.1 })
    else none
  | .sendTransaction id tx, _, _, s => some (s.noted id fun h => { h with sent := h.sent ++ [tx.hash] })
  | .transactionReceipt id _, .receipt hash (some true), _, s =>
    some (s.noted id fun h => { h with receipts := h.receipts ++ [hash] })
  | _, _, _, s => some s

/-! ## The handler -/

abbrev WalletM (α : Type) := HandlerM State Query Query.Reply α

def rounds : Tasks.RoundsOf State Input Checkpoint where
  get := State.rounds
  put r s := { s with rounds := r }
  get_put _ _ := rfl
  put_get _ := rfl

abbrev Execution := Tasks.TaskExecution Input Checkpoint

/-- The outcomes of `RebroadcastSignedTransaction` that the handler tells apart. -/
inductive ReplayError where
  | invalidEvidence
  | skipped
  | broadcast
  | displaced
  | permitExpired
  | other
  deriving DecidableEq

/-- `RebroadcastSignedTransaction` after the checks of the saved submission: observe, and send the exact
    saved transaction if nothing says that it landed or never can. -/
def rebroadcast (id : Nat) (tx : SignedTx) : WalletM (Option ReplayError) := do
  let configured ← outside Query.replayConfigured
  if configured = false then return some .other
  let some chainID ← outside Query.chainID | return some .other
  if chainID ≠ some tx.chainID then return some .invalidEvidence
  let receipt ← outside (Query.replayReceipt tx.hash)
  match receipt with
  | .error => return some .other
  | .found hash => return some (if hash = some tx.hash then .skipped else .invalidEvidence)
  | .notFound =>
  let visible ← outside (Query.transactionByHash tx.hash)
  match visible with
  | .error => return some .other
  | .found hash => return some (if hash = some tx.hash then .skipped else .invalidEvidence)
  | .notFound =>
  let some finalized ← outside Query.finalizedHeader | return some .other
  let some settled ← outside Query.finalizedNonce | return some .other
  if tx.nonce < settled then return some .displaced
  let some latest ← outside Query.latestNonce | return some .other
  let some pending ← outside Query.pendingNonce | return some .other
  if tx.nonce < latest ∨ tx.nonce < pending then return some .skipped
  if tx.deadline.any (· ≤ finalized) then return some .permitExpired
  let now ← outside Query.clock
  if tx.deadline.any (· ≤ now) then return some .skipped
  let accepted ← outside (Query.sendTransaction id tx)
  return if accepted then none else some .broadcast

def rebroadcastSignedTransaction (identity : ExecutionIdentity) (id : Nat) (type : WalletOperationType)
    (amount : Nat) (submission : WalletSubmission) : WalletM (Option ReplayError) :=
  if !validateWalletSubmission identity type amount submission then pure (some .invalidEvidence)
  else match submission.signedTransaction with
    | none => pure (some .skipped)
    | some tx => rebroadcast id tx

def walletTerminalResult (op : Option WalletOperation) (taskID : Nat) : Option (Handled State) :=
  match op with
  | none => some (.fail "wallet_operation_missing" (pure ()))
  | some op =>
    if op.taskID = some taskID then none
    else match op.status with
      | .confirmed => some (.complete (pure ()))
      | .failed | .unknown => some (.fail "wallet_operation_terminal" (pure ()))
      | .pending | .submitted => some (.fail "wallet_task_superseded" (pure ()))

def unknownWalletOperation (x : Execution) (id : Nat) : Handled State :=
  .fail "wallet_broadcast_unknown" (markUnknown id x.id)

def walletObservation (x : Execution) (id : Nat) (submission : WalletSubmission)
    (settlement : WalletTx Unit) : Handled State :=
  { kind := .wait
    settlement := settlement
    timeoutRetryMode := some (if submission.signedTransaction.isSome then .execute else .recover)
    onExhausted := recordConfirmationError id x.id }

def walletRetry (x : Execution) (id : Nat) (status : WalletOperationStatus) (reason : String) : Handled State :=
  if status ≠ .submitted then .retryInMode reason .recover (pure ())
  else { kind := .retry, failureReason := some reason
         onRetry := recordConfirmationError id x.id, onExhausted := recordConfirmationError id x.id }

def afterBroadcast (x : Execution) (id : Nat) (op : WalletOperation) (reply : SdkReply) :
    WalletM (Handled State) := do
  let checkpoint : Checkpoint := { executionIdentity := x.input.executionIdentity, broadcastAttempted := true }
  let (submission, alreadyComplete, broadcastErr) := broadcastResult op.type reply
  if alreadyComplete then return .complete (markConfirmedWithoutTransaction id x.id)
  if broadcastErr = some .invalidEvidence then return .fail "wallet_evidence_conflict" (pure ())
  if submission.notSent then
    if broadcastErr = none ∨ submission.txHash.isSome ∨ submission.signedTransaction.isSome then
      return .fail "wallet_evidence_conflict" (pure ())
    return .fail "wallet_broadcast_not_sent" do
      Tasks.fenced rounds x.key (Round.save { checkpoint with broadcastNotSent := true })
      markFailed id x.id
  if submission.txHash.isNone ∧ submission.signedTransaction.isNone then
    return unknownWalletOperation x id
  if !validateWalletSubmission x.input.executionIdentity op.type op.amount submission then
    return .fail "wallet_evidence_conflict" (pure ())
  match submission.txHash with
  | none => return .fail "wallet_evidence_conflict" (pure ())
  | some hash =>
    let evidence := { checkpoint with transactionHash := some hash }
    let persist := recordSubmission id x.id hash submission.signedTransaction
    let recorded ← Prog.commit (Tasks.checkpointWith rounds x.key evidence persist)
    match recorded with
    | .ok () => return walletObservation x id submission (pure ())
    | .error _ =>
      return walletObservation x id submission do
        Tasks.fenced rounds x.key (Round.save evidence)
        persist

/-- `broadcastWalletOperation`: the payment call is admitted with its checkpoint, and made once. -/
def broadcastWalletOperation (x : Execution) (id : Nat) (op : WalletOperation) : WalletM (Handled State) := do
  let checkpoint : Checkpoint := { executionIdentity := x.input.executionIdentity, broadcastAttempted := true }
  let admission : WalletTx Unit := do
    markBroadcastAttempted id x.id
    note id fun h => { h with signer := some x.key }
  let attempt ← withCheckpointedEffect rounds x.key x.mode checkpoint admission
    (outside (Query.pay id op.type op.amount))
  match attempt with
  | .error .taskEffectAlreadyAdmitted => return .wait .recover (pure ())
  | .error _ => return .retryInMode "wallet_broadcast_not_started" .recover (pure ())
  | .ok reply => afterBroadcast x id op reply

/-- The rest of `processWalletOperation` once the transaction is recorded. -/
def confirmWalletOperation (x : Execution) (identity : ExecutionIdentity) (id : Nat) (op : WalletOperation)
    (submission : WalletSubmission) (hash : TxHash) (execute : Bool) : WalletM (Handled State) := do
  let receipt ← outside (Query.transactionReceipt id hash)
  match receipt with
  | .unavailable => return walletObservation x id submission (pure ())
  | .error => return walletRetry x id op.status "transaction_confirmation"
  | .receipt receiptHash successful =>
    if receiptHash ≠ hash then return .fail "wallet_evidence_conflict" (pure ())
    match successful with
    | none => return .fail "wallet_evidence_conflict" (pure ())
    | some true => return .complete (markConfirmed id x.id hash)
    | some false => return .fail "wallet_transaction_reverted" (markFailed id x.id)
  | .notFound =>
  if !execute ∨ submission.signedTransaction.isNone then return walletObservation x id submission (pure ())
  let checkpoint : Checkpoint :=
    { executionIdentity := x.input.executionIdentity, broadcastAttempted := true, transactionHash := some hash }
  let replay ← withCheckpointedEffect rounds x.key x.mode checkpoint (pure ())
    (rebroadcastSignedTransaction identity id op.type op.amount submission)
  match replay with
  | .error .taskEffectAlreadyAdmitted => return walletObservation x id submission (pure ())
  | .error _ => return walletRetry x id op.status "wallet_replay_failed"
  | .ok (some .permitExpired) => return .fail "wallet_permit_expired" (markFailed id x.id)
  | .ok (some .displaced) => return .fail "wallet_transaction_displaced" (markSubmissionUnknown id x.id)
  | .ok (some .invalidEvidence) => return .fail "wallet_evidence_conflict" (pure ())
  | .ok (some .other) => return walletRetry x id op.status "wallet_replay_failed"
  | .ok (some .broadcast) => return walletObservation x id submission (recordConfirmationError id x.id)
  | .ok (some .skipped) | .ok none => return walletObservation x id submission (pure ())

/-- `processWalletOperation` with the operation's row, from the amount check on. -/
def processOperation (x : Execution) (identity : ExecutionIdentity) (op : WalletOperation) (execute : Bool) :
    WalletM (Handled State) := do
  let id := x.input.operationID
  if !validTaskWalletAmount op.type op.amount then
    let untouched := op.status = .pending ∧ op.broadcastAttempted = false ∧ op.txHash = none ∧
      op.signedTransaction = none ∧ x.checkpoint = none
    return .fail "wallet_amount_invalid" (if untouched then markFailed id x.id else pure ())
  if x.checkpoint.isNone ∧ (op.broadcastAttempted ∨ op.txHash.isSome ∨ op.signedTransaction.isSome ∨
      op.status = .submitted) then
    return .fail "wallet_evidence_conflict" (pure ())
  if !x.checkpoint.all (·.executionIdentity.matches x.input.executionIdentity) then
    return .fail "wallet_identity_changed" (pure ())
  if !x.checkpoint.all (·.broadcastAttempted) then return .fail "wallet_evidence_conflict" (pure ())
  let some submission := walletSubmission op x.checkpoint | return .fail "wallet_evidence_conflict" (pure ())
  match submission.txHash with
  | none =>
    if x.checkpoint.isSome ∨ op.broadcastAttempted ∨ submission.signedTransaction.isSome ∨
        op.status = .submitted then
      if !op.broadcastAttempted then return .fail "wallet_evidence_conflict" (pure ())
      return unknownWalletOperation x id
    if !execute then return .wait .execute (pure ())
    broadcastWalletOperation x id op
  | some hash =>
    if !validateWalletSubmission x.input.executionIdentity op.type op.amount submission then
      return .fail "wallet_evidence_conflict" (pure ())
    if op.txHash.isNone ∨ op.status ≠ .submitted then
      if !op.broadcastAttempted then return .fail "wallet_evidence_conflict" (pure ())
      let checkpoint : Checkpoint :=
        { executionIdentity := x.input.executionIdentity, broadcastAttempted := true
          transactionHash := some hash }
      let recorded ← Prog.commit (Tasks.checkpointWith rounds x.key checkpoint
        (recordSubmission id x.id hash submission.signedTransaction))
      match recorded with
      | .error _ => return walletRetry x id op.status "wallet_record_submission_failed"
      | .ok () =>
        confirmWalletOperation x identity id { op with status := .submitted, txHash := some hash }
          submission hash execute
    else confirmWalletOperation x identity id op submission hash execute

/-- `processWalletOperation`, for one claim. -/
def processWalletOperation (x : Execution) (execute : Bool) : WalletM (Handled State) := do
  let some identity ← outside Query.walletIdentity | return .fail "dependency_unavailable" (pure ())
  if !x.input.executionIdentity.matches identity then return .fail "wallet_identity_changed" (pure ())
  let some s ← Prog.snapshot | return .retryInMode "wallet_load_failed" .recover (pure ())
  match walletTerminalResult (s.ops.row x.input.operationID) x.id, s.ops.row x.input.operationID with
  | some result, _ => return result
  | none, none => return .fail "wallet_operation_missing" (pure ())
  | none, some op => processOperation x identity op execute

/-- The handler: `executeWalletOperation` or `recoverWalletOperation`, by the mode of the claim. -/
def handler (x : Execution) : WalletM (Handled State) :=
  match x.mode with
  | .execute => processWalletOperation x true
  | .recover => processWalletOperation x false

end SynapS3.Wallet
