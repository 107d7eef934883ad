import SynapS3.Pipeline.Identity
import SynapS3.Task.Model

/-!
# `Wallet.Model` — wallet operations, signed transactions and what the client returns

A wallet operation moves money once: it is asked for under a client request ID, worked on by a round of
type `wallet_operation`, and paid with one signed transaction.

Signed bytes are represented by the transaction they encode (the code re-encodes what it decodes and
compares), and a transaction hash by its value: the texts the code stores are `Hash.Hex()`, so they are
well formed and equal as texts exactly when the hashes are. Whether an instant is set is kept, not when.
-/

namespace SynapS3.Wallet

abbrev TxHash := Nat

inductive WalletOperationType where
  | fund
  | withdraw
  | approve
  deriving DecidableEq

inductive WalletOperationStatus where
  | pending
  | submitted
  | confirmed
  | failed
  | unknown
  deriving DecidableEq

/-- `walletoperation.ExecutionIdentity`. -/
structure ExecutionIdentity where
  identity : Option ContextIdentity
  payments : Option Address
  usdfc : Option Address
  deriving DecidableEq

def ExecutionIdentity.complete (i : ExecutionIdentity) : Bool :=
  i.identity.any (·.complete) && i.payments.any (· != 0) && i.usdfc.any (· != 0)

def ExecutionIdentity.matches (i other : ExecutionIdentity) : Bool :=
  i.complete && other.complete && i == other

/-- `walletoperation.Input`. -/
structure Input where
  executionIdentity : ExecutionIdentity
  operationID : Nat
  deriving DecidableEq

/-- `walletoperation.Checkpoint`. -/
structure Checkpoint where
  executionIdentity : ExecutionIdentity
  broadcastAttempted : Bool
  broadcastNotSent : Bool := false
  transactionHash : Option TxHash := none
  deriving DecidableEq

/-- The payment methods that `walletPaymentABI` decodes, with the arguments that are checked. -/
inductive PaymentCall where
  | depositWithPermit (token to_ : Address) (amount deadline : Nat)
  | depositWithPermitAndApproveOperator (token to_ : Address) (amount deadline : Nat) (operator : Address)
  | setOperatorApproval (token operator : Address) (approved : Bool)
  | withdraw (token : Address) (amount : Nat)
  deriving DecidableEq

def PaymentCall.token : PaymentCall → Address
  | .depositWithPermit token .. | .depositWithPermitAndApproveOperator token .. | .setOperatorApproval token ..
  | .withdraw token _ => token

/-- A signed transaction (`types.Transaction`). `call` is `none` where the data is not the canonical
    encoding of one of the payment methods. -/
structure SignedTx where
  hash : TxHash
  /-- Legacy, access list or dynamic fee. -/
  paymentType : Bool
  chainID : Nat
  sender : Option Address
  to_ : Option Address
  value : Nat
  nonce : Nat
  call : Option PaymentCall
  deriving DecidableEq

/-- `synapse.WalletSubmission`. -/
structure WalletSubmission where
  txHash : Option TxHash := none
  signedTransaction : Option SignedTx := none
  notSent : Bool := false
  deriving DecidableEq

/-- `model.WalletOperation`. -/
structure WalletOperation where
  type : WalletOperationType
  clientRequestID : String
  amount : Nat
  status : WalletOperationStatus
  txHash : Option TxHash
  signedTransaction : Option SignedTx
  broadcastAttempted : Bool
  taskID : Option Nat
  deriving DecidableEq

/-- `validTaskWalletAmount`, and `validWalletOperationAmount` on a decimal text. -/
def validTaskWalletAmount (type : WalletOperationType) (amount : Nat) : Bool :=
  amount < 2 ^ 256 && (match type with
    | .approve => amount == 0
    | .fund | .withdraw => 0 < amount)

/-- The checks of `decodeWalletSubmission` on the signed transaction. -/
def SignedTx.pays (tx : SignedTx) (identity : ExecutionIdentity) (type : WalletOperationType) (amount : Nat)
    (hash : TxHash) : Bool :=
  match identity.identity, identity.payments, identity.usdfc, tx.call with
  | some context, some payments, some usdfc, some call =>
    tx.paymentType && tx.hash == hash && some tx.chainID == context.chainID &&
      tx.sender == some context.payer && tx.to_ == some payments && tx.value == 0 && call.token == usdfc &&
      (match call with
        | .depositWithPermit _ to_ paid _ => type == .fund && to_ == context.payer && paid == amount
        | .depositWithPermitAndApproveOperator _ to_ paid _ operator =>
          type == .fund && to_ == context.payer && paid == amount && operator == context.recordKeeper
        | .setOperatorApproval _ operator approved =>
          type == .approve && operator == context.recordKeeper && approved
        | .withdraw _ paid => type == .withdraw && paid == amount)
  | _, _, _, _ => false

def validateWalletSubmission (identity : ExecutionIdentity) (type : WalletOperationType) (amount : Nat)
    (submission : WalletSubmission) : Bool :=
  identity.complete && validTaskWalletAmount type amount &&
    (match submission.txHash with
      | none => false
      | some hash => hash != 0 &&
        (match submission.signedTransaction with
          | none => true
          | some tx => tx.pays identity type amount hash))

/-- The permit deadline that `decodeWalletSubmission` returns with the transaction. -/
def SignedTx.deadline (tx : SignedTx) : Option Nat :=
  match tx.call with
  | some (.depositWithPermit _ _ _ deadline) => some deadline
  | some (.depositWithPermitAndApproveOperator _ _ _ deadline _) => some deadline
  | _ => none

/-! ## What the SDK returns -/

inductive BroadcastTx where
  | missing
  | unencodable
  | signed (tx : SignedTx)
  deriving DecidableEq

/-- An error of an SDK write, as far as the code asks about it. -/
structure SdkError where
  nothingToFund : Bool := false
  broadcast : Option BroadcastTx := none
  deriving DecidableEq

/-- The two results of an SDK write: `res` is absent, carries no hash, or carries a hash. -/
structure SdkReply where
  res : Option (Option TxHash)
  err : Option SdkError
  deriving DecidableEq

/-- The error that comes back with a submission, as far as the handler asks about it. -/
inductive SubmissionError where
  | invalidEvidence
  | other
  deriving DecidableEq

def walletSubmissionFromWriteResult (reply : SdkReply) : WalletSubmission × Option SubmissionError :=
  let hash := reply.res.bind id
  match reply.err with
  | some err =>
    let submission : WalletSubmission :=
      { txHash := hash, notSent := reply.res.isNone && err.broadcast.isNone }
    match err.broadcast with
    | some (.signed tx) =>
      if hash.isSome && hash != some tx.hash then ({}, some .invalidEvidence)
      else ({ submission with txHash := some tx.hash, signedTransaction := some tx }, some .other)
    | _ => (submission, some .other)
  | none => ({ txHash := hash }, if hash.isNone then some .other else none)

/-- `broadcastWalletOperation`, the function: the submission, whether the approval was already in place, and
    the error. -/
def broadcastResult (type : WalletOperationType) (reply : SdkReply) :
    WalletSubmission × Bool × Option SubmissionError :=
  let (submission, err) := walletSubmissionFromWriteResult reply
  if type = .approve ∧ reply.err.any (·.nothingToFund) then ({}, true, none)
  else (submission, false, err)

theorem signedTx_hash {identity : ExecutionIdentity} {type : WalletOperationType} {amount : Nat}
    {submission : WalletSubmission} {tx : SignedTx}
    (h : validateWalletSubmission identity type amount submission = true)
    (htx : submission.signedTransaction = some tx) : submission.txHash = some tx.hash := by
  unfold validateWalletSubmission at h
  rw [htx] at h
  cases hh : submission.txHash with
  | none => simp [hh] at h
  | some hash =>
    simp only [hh, Bool.and_eq_true] at h
    have hpays := h.2.2
    unfold SignedTx.pays at hpays
    split at hpays
    · simp only [Bool.and_eq_true, beq_iff_eq] at hpays
      rw [hpays.1.1.1.1.1.1.2]
    · cases hpays

end SynapS3.Wallet
