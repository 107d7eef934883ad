import SynapS3.DataSet.Repo

/-!
# `DataSet.Handler` — the handler that creates data sets, and what the outside may answer

`runDataSetEnsure`, `sendDataSetCreation`, `recoverDataSetCreation` and `observeDataSetCreation` as in the
source: one action for every read, transaction and call, and anything may happen in between.

A provider answers anything, in any order: lost answers, other people's hashes, confirmations of nothing,
rejections of what it accepted. Only the chain is taken at its word (`agrees`): a lookup by client ID returns
what the chain holds at that moment.
-/

namespace SynapS3.DataSet

open Tasks (Handled HandlerM TaskResumeMode outside withCheckpointedEffect)
open Pipeline (ExecutionIdentity)

/-! ## The outside -/

/-- The answer to a create call: the submissions it reported on the way, and its result. -/
structure CreateReply where
  submissions : List CreateDataSetSubmission
  created : Option CreateDataSetResult
  deriving DecidableEq

/-- The answer of a status URL. -/
structure StatusReply where
  result : Option CreateDataSetResult
  rejected : Bool
  deriving DecidableEq

/-- The transaction that a status answer is about, where `txHash` is the recorded one. -/
def StatusReply.about (status : StatusReply) (txHash : String) : String :=
  status.result.elim txHash fun result => if result.transactionID ≠ "" then result.transactionID else txHash

/-- The checkpoint with the evidence of a status answer; `none` if it conflicts. -/
def StatusReply.evidence (status : StatusReply) (c : Checkpoint) : Option Checkpoint :=
  status.result.elim (some c) fun result => c.mergeEvidence result.transactionID result.confirmedTransactionID ""

/-- What the handler asks. The binding, and the hash that is recorded when a status is asked for, are there
    for the record only. -/
inductive Query where
  | storageIdentity
  | bucket (bucketID : Nat)
  | openProviderTarget (providerID : Nat)
  | newClientDataSetID
  | clock
  | resendAt (attemptedAt sends : Nat)
  | createDataSet (binding clientDataSetID : Nat) (target : ContextIdentity) (providerID : Nat)
  | findDataSetByClientDataSetID (binding clientDataSetID : Nat) (target : ContextIdentity)
  | observeOperation
  | waitForDataSetCreated (binding : Nat) (txHash statusURL : String)

/-- The answers; where it is an option, `none` is an error of the call. -/
abbrev Query.Reply : Query → Type
  | .storageIdentity => Option ExecutionIdentity
  | .bucket _ => Bool
  | .openProviderTarget _ => Option ContextIdentity
  | .newClientDataSetID => Option Nat
  | .clock => Nat
  | .resendAt .. => Option Nat
  | .createDataSet .. => CreateReply
  | .findDataSetByClientDataSetID .. => Lookup
  | .observeOperation => Option Nat
  | .waitForDataSetCreated .. => StatusReply

def OnChain.under (e : OnChain) (identity : ContextIdentity) (client : Nat) : Bool :=
  e.identity == identity && e.clientDataSetID == client

/-- Whether a lookup answers what is on the chain. -/
def agrees (chain : List OnChain) (identity : ContextIdentity) (client : Nat) : Lookup → Bool
  | .error | .conflict => true
  | .notFound => !chain.any (·.under identity client)
  | .found ref => chain.any fun e =>
    e.under identity client && ref == ⟨e.providerID, e.dataSetID, e.clientDataSetID⟩

def world (k : Nat × Nat) : (q : Query) → q.Reply → Unit → State → Option State
  | .newClientDataSetID, reply, _, s => if reply = some 0 then none else some s
  | .createDataSet binding client target providerID, reply, _, s =>
    some (s.noted binding fun h => { h with
      sends := h.sends ++ [⟨k, client, target, providerID⟩]
      unnamed := h.unnamed || reply.submissions.any fun sub => sub.statusURL != "" && sub.transactionID == "" })
  | .findDataSetByClientDataSetID binding client target, reply, _, s =>
    if agrees s.chain target client reply then
      some (s.noted binding fun h => { h with lookedUp := fun k' => if k' = k then some reply else h.lookedUp k' })
    else none
  | .waitForDataSetCreated binding txHash statusURL, reply, _, s =>
    some (s.noted binding fun h => { h with
      rejected := if reply.rejected then h.rejected ++ [(reply.about txHash, statusURL)] else h.rejected })
  | _, _, _, s => some s

/-! ## The handler -/

abbrev DataSetM (α : Type) := HandlerM State Query Query.Reply α

def rounds : Tasks.RoundsOf State Input Checkpoint where
  get := State.rounds
  put r s := { s with rounds := r }
  get_put _ _ := rfl
  put_get _ := rfl

abbrev Execution := Tasks.TaskExecution Input Checkpoint

def retryTask (reason : String) : Handled State := .retryInMode reason .recover (pure ())

def observationWindow : Nat := 30 * 60

/-- `dataSetCreationEvidenceSettlement`. The error text of the binding is not modelled. -/
def dataSetCreationEvidenceSettlement (x : Execution) (client : Nat) (c : Checkpoint) : DataSetTx Unit := do
  authorizeDataSetEnsureTask x.input.dataSetID x.id
  Tasks.fenced rounds x.key (Round.save c)
  markDataSetCreating x.input.dataSetID c client

def failWith (x : Execution) (reason : String) (client : Nat) (c : Checkpoint) : Handled State :=
  { kind := .fail, failureReason := some reason
    settlement := dataSetCreationEvidenceSettlement x client c
    contentionSettlement := dataSetCreationEvidenceSettlement x client c }

def retryWith (x : Execution) (reason : String) (client : Nat) (c : Checkpoint) : Handled State :=
  { kind := .retry, failureReason := some reason
    settlement := dataSetCreationEvidenceSettlement x client c
    contentionSettlement := dataSetCreationEvidenceSettlement x client c }

def completeDataSetEnsure (x : Execution) (dataSetID client : Nat) (txHash confirmedTxHash : String) :
    Handled State :=
  .complete do
    markDataSetReady x.input.dataSetID dataSetID client txHash confirmedTxHash
    finishDataSetEnsure x.input.dataSetID x.id

/-- `observeDataSetCreation`: a request with a known transaction is watched. -/
def observeDataSetCreation (x : Execution) (binding : StorageDataSet) (c : Checkpoint) (client : Nat) :
    DataSetM (Handled State) := do
  let some startedAt ← outside Query.observeOperation | return retryTask "dataset_observation_failed"
  let status ← outside (Query.waitForDataSetCreated x.input.dataSetID c.txHash c.statusURL)
  match status.evidence c with
  | none => return failWith x "dataset_identity_mismatch" client c
  | some merged =>
  if status.rejected then
    return retryWith x "provider_confirmation" client { merged with transactionRejected := true }
  if status.result.any (fun result => result.dataSet.dataSetID != 0 &&
      !result.dataSet.belongs binding.providerID binding.clientDataSetID) then
    return failWith x "dataset_identity_mismatch" client merged
  let settlement := if merged.txHash ≠ c.txHash ∨ merged.confirmedTxHash ≠ c.confirmedTxHash then
      dataSetCreationEvidenceSettlement x client merged
    else pure ()
  let now ← outside Query.clock
  if now - startedAt < observationWindow then return .wait .recover settlement
  return .retryInMode "provider_confirmation" .recover settlement

/-- What sends a request again, where that is allowed (`mayCreate`). -/
abbrev Create := Option (Checkpoint → DataSetM (Handled State))

def resendAt (c : Checkpoint) (due : Nat) (create : Create) : DataSetM (Handled State) := do
  let now ← outside Query.clock
  if now < due then return .wait .recover (pure ())
  match create with
  | none => return .wait .execute (pure ())
  | some create => create c

/-- `recoverDataSetCreation` once the chain holds nothing and nothing is under way. -/
def resendWhenDue (x : Execution) (c : Checkpoint) (create : Create) : DataSetM (Handled State) := do
  match c.nextResendAt with
  | some due => resendAt c due create
  | none =>
    let some due ← outside (Query.resendAt c.attemptedAt c.sends) | return .fail "invalid_checkpoint" (pure ())
    let recorded ← Prog.commit (Tasks.checkpointWith rounds x.key { c with nextResendAt := some due }
      (authorizeDataSetEnsureTask x.input.dataSetID x.id))
    match recorded with
    | .error _ => return retryTask "dataset_checkpoint_record_failed"
    | .ok () => resendAt { c with nextResendAt := some due } due create

/-- `recoverDataSetCreation` after a lookup that found nothing, or failed. A sent request that was not
    rejected is only observed. -/
def recoverUnfound (x : Execution) (binding : StorageDataSet) (c : Checkpoint) (client : Nat) (lookupFailed : Bool)
    (create : Create) : DataSetM (Handled State) := do
  if !c.transactionRejected ∧ c.statusURL ≠ "" then observeDataSetCreation x binding c client
  else if !c.transactionRejected ∧ (c.txHash ≠ "" ∨ c.confirmedTxHash ≠ "") then
    let some startedAt ← outside Query.observeOperation | return retryTask "dataset_observation_failed"
    let now ← outside Query.clock
    if now - startedAt < observationWindow then return .wait .recover (pure ())
    return retryTask "provider_confirmation"
  else if lookupFailed then return retryTask "dataset_observation_failed"
  else resendWhenDue x c create

/-- `recoverDataSetCreation`: a sent request is settled from the chain. -/
def recoverDataSetCreation (x : Execution) (binding : StorageDataSet) (target : ContextIdentity) (c : Checkpoint)
    (client : Nat) (create : Create) : DataSetM (Handled State) := do
  let found ← outside (Query.findDataSetByClientDataSetID x.input.dataSetID client target)
  match found with
  | .conflict => return .fail "dataset_correlation_conflict" (pure ())
  | .found ref =>
    if !ref.belongs binding.providerID binding.clientDataSetID then
      return .fail "dataset_identity_mismatch" (pure ())
    return completeDataSetEnsure x ref.dataSetID ref.clientDataSetID c.txHash c.confirmedTxHash
  | .error => recoverUnfound x binding c client true create
  | .notFound => recoverUnfound x binding c client false create

/-- What a create call has reported so far, and whether it could be saved. -/
structure Progress where
  checkpoint : Checkpoint
  submitted : Bool := false
  submission : CreateDataSetSubmission := {}
  evidenceFailed : Bool := false
  deriving DecidableEq

/-- The evidence of one report: the first transaction that is named replaces what was recorded before. -/
def Progress.submit (p : Progress) (transactionID : String) : Progress :=
  if !p.submitted ∧ transactionID ≠ "" then
    { p with checkpoint := p.checkpoint.recordSubmission transactionID, submitted := true }
  else p

def onSubmitted (x : Execution) (client : Nat) (p : Progress) (sub : CreateDataSetSubmission) :
    DataSetM Progress := do
  let p := { p.submit sub.transactionID with submission := sub }
  match p.checkpoint.mergeEvidence sub.transactionID "" sub.statusURL with
  | none => return { p with evidenceFailed := true }
  | some c =>
    let recorded ← Prog.commit (Tasks.checkpointWith rounds x.key c do
      authorizeDataSetEnsureTask x.input.dataSetID x.id
      markDataSetCreating x.input.dataSetID c client)
    return { p with checkpoint := c, evidenceFailed := !recorded.toBool }

def reports (x : Execution) (client : Nat) : List CreateDataSetSubmission → Progress → DataSetM Progress
  | [], p => pure p
  | sub :: rest, p => do
    let p ← onSubmitted x client p sub
    reports x client rest p

def afterCreate (x : Execution) (binding : StorageDataSet) (target : ContextIdentity) (client : Nat)
    (created : Option CreateDataSetResult) (p : Progress) : DataSetM (Handled State) := do
  match created with
  | some created =>
    let p := p.submit created.transactionID
    match p.checkpoint.mergeEvidence created.transactionID created.confirmedTransactionID p.submission.statusURL with
    | none => return failWith x "dataset_identity_mismatch" client p.checkpoint
    | some c =>
    if created.dataSet.dataSetID = 0 then return retryWith x "provider_confirmation" client c
    if !created.dataSet.belongs binding.providerID (some client) then
      return failWith x "dataset_identity_mismatch" client c
    let found ← outside (Query.findDataSetByClientDataSetID x.input.dataSetID client target)
    match found with
    | .conflict => return failWith x "dataset_correlation_conflict" client c
    | .found ref =>
      if !ref.belongs binding.providerID (some client) then return failWith x "dataset_identity_mismatch" client c
      return completeDataSetEnsure x ref.dataSetID ref.clientDataSetID created.transactionID
        created.confirmedTransactionID
    | .error | .notFound => return .wait .recover (dataSetCreationEvidenceSettlement x client c)
  | none =>
    if p.evidenceFailed then return retryWith x "dataset_submission_record_failed" client p.checkpoint
    if p.submission.statusURL ≠ "" then
      recoverDataSetCreation x { binding with clientDataSetID := some client } target p.checkpoint client none
    else return retryTask "provider_confirmation"

/-- `sendDataSetCreation`: the request is admitted with its checkpoint, and sent. -/
def sendDataSetCreation (x : Execution) (binding : StorageDataSet) (target : ContextIdentity) (client : Nat)
    (c : Checkpoint) : DataSetM (Handled State) := do
  let now ← outside Query.clock
  let some due ← outside (Query.resendAt now (c.sends + 1)) | return .fail "invalid_policy" (pure ())
  let c := { c with attemptedAt := now, sends := c.sends + 1, nextResendAt := some due }
  let admission : DataSetTx Unit := do
    recordDataSetClientID x.input.dataSetID x.id client
    note x.input.dataSetID fun h => { h with identity := some target, admitted := h.admitted ++ [x.key] }
  let attempt ← withCheckpointedEffect rounds x.key x.mode c admission do
    let reply ← outside (Query.createDataSet x.input.dataSetID client target binding.providerID)
    let p ← reports x client reply.submissions { checkpoint := c }
    pure (reply.created, p)
  match attempt with
  | .error .conflict | .error .notFound => return .cancel (pure ())
  | .error _ => return retryTask "dataset_creation_not_started"
  | .ok (created, p) => afterCreate x binding target client created p

/-- `runDataSetEnsure` once the provider is open. -/
def createOrRecover (x : Execution) (binding : StorageDataSet) (identity : ExecutionIdentity)
    (target : ContextIdentity) (mayCreate : Bool) : DataSetM (Handled State) := do
  match x.checkpoint with
  | some c =>
    match c.requestIdentity target with
    | .error reason => return .fail reason (pure ())
    | .ok client =>
      if binding.clientDataSetID.any (· != client) then return .fail "dataset_identity_mismatch" (pure ())
      recoverDataSetCreation x binding target c client
        (if mayCreate then some (sendDataSetCreation x binding target client) else none)
  | none =>
    if binding.creationSent then return .fail "invalid_checkpoint" (pure ())
    if !mayCreate then return .wait .execute (pure ())
    if identity.identity ≠ some target then return .fail "storage_identity_changed" (pure ())
    if !target.complete then return .fail "dependency_unavailable" (pure ())
    let some client ← outside Query.newClientDataSetID | return retryTask "dataset_creation_not_started"
    sendDataSetCreation x binding target client { executionIdentity := identity, clientDataSetID := client }

/-- The identity that a claim works under: that of the checkpoint, which has to match the input's. -/
def workIdentity (x : Execution) : Except String ExecutionIdentity :=
  match x.checkpoint with
  | none => .ok x.input.executionIdentity
  | some c =>
    if x.input.executionIdentity.present then
      match x.input.executionIdentity.mismatch c.executionIdentity with
      | some reason => .error reason
      | none => .ok c.executionIdentity
    else .ok c.executionIdentity

/-- `runDataSetEnsure`, for one claim of the ensure task. -/
def runDataSetEnsure (x : Execution) (mayCreate : Bool) : DataSetM (Handled State) := do
  let some s ← Prog.snapshot | return retryTask "dataset_authorization_failed"
  let some binding := authorized (s.rows.row x.input.dataSetID) x.id | return .cancel (pure ())
  let some current ← outside Query.storageIdentity | return retryTask "dependency_unavailable"
  if binding.status = .ready ∧ binding.dataSetID.any (· != 0) then
    return .complete (finishDataSetEnsure x.input.dataSetID x.id)
  let loaded ← outside (Query.bucket binding.bucketID)
  if loaded = false then return retryTask "dataset_bucket_load_failed"
  match workIdentity x with
  | .error reason => return .fail reason (pure ())
  | .ok identity =>
  match identity.mismatch current with
  | some reason => return .fail reason (pure ())
  | none =>
  let some target ← outside (Query.openProviderTarget binding.providerID) | return retryTask "provider_unavailable"
  createOrRecover x binding identity target mayCreate

/-- The handler: creation is allowed when the claim executes, not when it recovers. -/
def handler (x : Execution) : DataSetM (Handled State) :=
  match x.mode with
  | .execute => runDataSetEnsure x true
  | .recover => runDataSetEnsure x false

end SynapS3.DataSet
