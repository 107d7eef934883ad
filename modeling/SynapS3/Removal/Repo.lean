import SynapS3.Removal.Model

/-!
# `Removal.Repo` — the transactions on removal requests

All of them but the joining one go through `owned`, which locks the contents of the members, the data set
and the request before it reads anything it decides on; the joining one locks the same rows. A transaction
is therefore one step.

Which contents are still referenced is a question to other tables; the answer is an argument
(`referenced`). The identifiers of new tasks come from the queue.
-/

namespace SynapS3.Removal

/-! ## Rows -/

def State.setRequest (s : State) (id : Nat) (f : Request → Request) : State :=
  { s with requests := s.requests.modify id f }

/-- `UPDATE storage_cleanup_copies SET f WHERE id IN ids`. -/
def State.setCopies (s : State) (ids : List Nat) (f : CleanupCopy → CleanupCopy) : State :=
  { s with copies := s.copies.updateWhere (fun i _ => ids.contains i) fun _ => f }

def State.setSends (s : State) (id : Nat) (sends : List Send) : State :=
  { s with sends := fun i => if i = id then sends else s.sends i }

/-- The part of `owned` that decides: the request is the task's and has one of the statuses (any, if none is
    given). -/
def owned (id task : Nat) (statuses : List RequestStatus) :
    RemovalTx (State × Request × List (Nat × CleanupCopy)) := do
  let s ← Tx.read
  let request ← Tx.orFail (s.requests.row id) .notFound
  Tx.require (request.task == some task && (statuses.isEmpty || statuses.contains request.status)) .conflict
  pure (s, request, s.members id)

def selectMembers (members : List (Nat × CleanupCopy)) (ids : List Nat) : RemovalTx (List (Nat × CleanupCopy)) := do
  let selected := members.filter fun m => ids.contains m.1
  Tx.require (decide (selected.length = ids.dedup.length)) .conflict
  pure selected

/-! ## Collecting -/

/-- `repository.JoinRemovalInput`. -/
structure JoinInput where
  content : Nat
  generation : Nat
  contentTask : Nat
  dataSet : Nat
  copyIDs : List Nat
  deriving DecidableEq

def State.collecting (s : State) (dataSet : Nat) : Option Nat :=
  (s.requests.ids fun _ r => r.dataSet == dataSet && r.status == .collecting).head?

/-- Find the collecting request or create one, with a task of its own. -/
def collectingOrNew (dataSet : Nat) : RemovalTx Nat := do
  let s ← Tx.read
  match s.collecting dataSet with
  | some id => pure id
  | none => do
      Tx.write { s with
        requests := s.requests.insert { dataSet := dataSet, task := some s.nextTask }
        nextTask := s.nextTask + 1 }
      pure s.requests.next

def CleanupCopy.joins (c : CleanupCopy) (input : JoinInput) (id : Nat) : Bool :=
  c.content == input.content && c.dataSet == input.dataSet && c.status == .pending &&
    c.deleteTxHash.isNone && (c.request.isNone || c.request == some id)

def joinOrCreateCollecting (input : JoinInput) : RemovalTx Nat := do
  Tx.require (!input.copyIDs.isEmpty) .invalidInput
  let s ← Tx.read
  let claim ← Tx.orFail (s.contents input.content) .notFound
  Tx.require (claim.generation == input.generation && claim.task == some input.contentTask) .conflict
  let id ← collectingOrNew input.dataSet
  let s ← Tx.read
  Tx.require (input.copyIDs.all fun i => (s.copies.row i).any (·.joins input id)) .conflict
  Tx.write (s.setCopies input.copyIDs fun c => { c with request := some id })
  pure id

/-- The members that sealing drops: those still referenced and those beyond the batch. -/
def dropped (referenced : Nat → Bool) (maxPieces : Nat) : Nat → List (Nat × CleanupCopy) → List Nat
  | _, [] => []
  | kept, m :: ms =>
    if referenced m.2.content || decide (maxPieces ≤ kept) then m.1 :: dropped referenced maxPieces kept ms
    else dropped referenced maxPieces (kept + 1) ms

def State.detach (s : State) (ids : List Nat) : State := s.setCopies ids fun c => { c with request := none }

def sealRemovalRequest (id task maxPieces : Nat) (referenced : Nat → Bool) : RemovalTx Unit := do
  Tx.require (decide (0 < maxPieces)) .invalidInput
  let (s, _, members) ← owned id task [.collecting]
  let drop := dropped referenced maxPieces 0 members
  Tx.write ((s.detach drop).setRequest id fun r =>
    if drop.length = members.length then { r with status := .abandoned, task := none }
    else { r with status := .ready })

/-! ## Members -/

/-- `changeMembers`: give the selected members a status, and take them out of the request with `detach`. -/
def changeMembers (id task : Nat) (ids : List Nat) (status : Option CopyStatus) (detach : Bool) :
    RemovalTx Unit := do
  let (s, request, members) ← owned id task []
  Tx.require ((latestPossiblyAcceptedSend (s.sends id)).isNone || !(detach || status == some .failed)) .conflict
  Tx.require (!request.status.terminal) .conflict
  let selected ← selectMembers members ids
  let s' := s.setCopies (selected.map Prod.fst) fun c =>
    { c with
      status := status.getD c.status
      request := if detach then none else c.request }
  if detach && decide (selected.length = members.length) then do
    -- the schema lets no request be abandoned that was queued
    Tx.require (request.status != .queued) .conflict
    Tx.write (s'.setRequest id fun r => { r with status := .abandoned, task := none, attention := none })
  else
    Tx.write s'

def detachMembers (id task : Nat) (ids : List Nat) : RemovalTx Unit := changeMembers id task ids none true

def markMembersRemoved (id task : Nat) (ids : List Nat) (detach : Bool) : RemovalTx Unit :=
  changeMembers id task ids (some .removed) detach

def markMemberFailed (id task : Nat) (ids : List Nat) : RemovalTx Unit :=
  changeMembers id task ids (some .failed) true

/-! ## Sends -/

/-- `repository.AdmitRemovalSendInput`. -/
structure SendInput where
  request : Nat
  task : Nat
  sendNo : Nat
  copyIDs : List Nat
  queueLength : Nat
  snapshotBlock : Nat
  deriving DecidableEq

/-- The request holds sends that the snapshot does not show: it is submitted, or queued by a later block. -/
def Request.unseenBy (r : Request) (block : Nat) : Bool :=
  r.status == .submitted || (r.status == .queued && r.queuedBlock.any (block < ·))

/-- The copies of other requests of the data set that are in flight and that the snapshot does not show. -/
def State.inFlight (s : State) (dataSet request block : Nat) : List (Nat × Nat) :=
  ((s.requests.ids fun i r => r.dataSet == dataSet && i != request && r.unseenBy block).flatMap fun i =>
    ((s.sends i).filter (·.inFlight)).flatMap fun send => send.pieces.map fun p => (i, p.copy)).dedup

def latestSendNo (sends : List Send) : Nat := sends.foldl (fun n send => max n send.sendNo) 0

def admitRemovalSend (input : SendInput) (referenced : Nat → Bool) : RemovalTx Unit := do
  Tx.require (decide (0 < input.sendNo) && !input.copyIDs.isEmpty &&
    decide (input.queueLength ≤ maxEnqueuedRemovals)) .invalidInput
  let (s, request, members) ← owned input.request input.task [.ready, .submitted]
  let sends := s.sends input.request
  Tx.require (input.sendNo == latestSendNo sends + 1) .conflict
  let selected := members.filter fun m => input.copyIDs.contains m.1 && m.2.status != .removed
  Tx.require (decide (selected.length = input.copyIDs.dedup.length)) .conflict
  let pieces := selected.map fun m => (⟨m.1, m.2.piece⟩ : SendPiece)
  Tx.require ((latestExposedSend sends).all fun e => pieces.all fun p => e.pieces.contains p) .conflict
  Tx.require ((latestPossiblyAcceptedSend sends).isSome || !members.any fun m => referenced m.2.content) .conflict
  Tx.require (decide (input.queueLength +
    (s.inFlight request.dataSet input.request input.snapshotBlock).length + selected.length
      ≤ maxEnqueuedRemovals)) .noRemovalRoom
  Tx.write ((s.setSends input.request
      (sends ++ [{ sendNo := input.sendNo, task := input.task, pieces := pieces }])).setRequest input.request
    fun r => { r with status := .submitted, attention := none })

inductive Evidence where
  | submission (txHash : String)
  | refused
  | unsent
  | receipt (status : Nat) (confirmedTxHash : String)
  deriving DecidableEq

def Evidence.rejects : Evidence → Bool
  | .refused | .unsent => true
  | _ => false

def Evidence.valid (s : Send) : Evidence → Bool
  | .receipt status hash => (status == 0 || status == 1) && hash != "" && !s.refused && !s.unsent
  | _ => true

/-- The send with the evidence, unless it contradicts what is recorded. -/
def Send.record (s : Send) : Evidence → Option Send
  | .submission hash =>
    if hash ≠ "" ∧ s.unsent = false ∧ s.refused = false ∧ s.txHash.all (· == hash) then
      some { s with txHash := some hash }
    else none
  | .refused =>
    if s.txHash = none ∧ s.receiptStatus = none ∧ s.unsent = false then some { s with refused := true }
    else none
  | .unsent =>
    if s.txHash = none ∧ s.receiptStatus = none ∧ s.refused = false then some { s with unsent := true }
    else none
  | .receipt status hash =>
    if s.receiptStatus.all (· == status) ∧ s.confirmedTxHash.all (· == hash) then
      some { s with receiptStatus := some status, confirmedTxHash := some hash }
    else none

def sendEvidence (id task sendNo : Nat) (evidence : Evidence) : RemovalTx Unit := do
  let (s, _, _) ← owned id task [.submitted, .ready]
  let send ← Tx.orFail ((s.sends id).find? (·.sendNo == sendNo)) .notFound
  Tx.require (evidence.valid send) .invalidInput
  let recorded ← Tx.orFail (send.record evidence) .conflict
  let sends := (s.sends id).map fun x => if x.sendNo = sendNo then recorded else x
  Tx.write ((s.setSends id sends).setRequest id fun r =>
    if evidence.rejects && (latestPossiblyAcceptedSend sends).isNone then { r with status := .ready } else r)

/-! ## The rest of a request's life -/

def setRemovalAttention (id task : Nat) (code : AttentionCode) : RemovalTx Unit := do
  let (s, _, _) ← owned id task [.ready, .submitted, .queued]
  Tx.write (s.setRequest id fun r => { r with attention := some code })

def clearRemovalAttention (id task : Nat) : RemovalTx Unit := do
  let (s, _, _) ← owned id task []
  Tx.write (s.setRequest id fun r => { r with attention := none })

/-- `queued`, for `MarkRemovalQueued` and `MarkQueuedWithoutSend`. -/
def markQueued (id task block : Nat) (withoutSend : Bool) : RemovalTx Unit := do
  let (s, _, _) ← owned id task (if withoutSend then [.ready] else [.submitted])
  Tx.write (s.setRequest id fun r => { r with status := .queued, queuedBlock := some block, attention := none })

def settleRemovalRequest (id task : Nat) : RemovalTx Unit := do
  let (s, _, members) ← owned id task [.queued]
  Tx.require (members.all fun m => m.2.status == .removed) .conflict
  Tx.write (s.setRequest id fun r => { r with status := .settled, task := none, attention := none })

def abandonRemovalRequest (id task : Nat) : RemovalTx Unit := do
  let (s, _, members) ← owned id task [.collecting, .ready]
  Tx.require (latestPossiblyAcceptedSend (s.sends id)).isNone .conflict
  Tx.write ((s.detach (members.map Prod.fst)).setRequest id fun r =>
    { r with status := .abandoned, task := none, attention := none })

/-- `TransferRemovalTaskOwner`, to the successor that the retry created. -/
def transferRemovalTaskOwner (id old : Nat) : RemovalTx Unit := do
  let (s, _, _) ← owned id old []
  Tx.write (State.setRequest { s with nextTask := s.nextTask + 1 } id fun r =>
    { r with
      task := some s.nextTask
      attention := if r.attention.any (·.isStop) then none else r.attention })

/-! ## Cleanup copies outside a request -/

/-- Deleting a content leaves a cleanup copy for each committed piece. -/
def snapshotCopy (content dataSet piece : Nat) : RemovalTx Unit := do
  let s ← Tx.read
  Tx.write { s with copies := s.copies.insert { content := content, dataSet := dataSet, piece := piece } }

def reauthorizeFailedCopies (content generation task : Nat) : RemovalTx Unit := do
  let s ← Tx.read
  let claim ← Tx.orFail (s.contents content) .notFound
  Tx.require (claim.generation == generation && claim.task == some task) .conflict
  Tx.write { s with
    copies := s.copies.updateWhere
      (fun _ c => c.content == content && c.status == .failed && c.request.isNone)
      fun _ c => { c with status := .pending } }

/-- `MarkCopyUnsupported`; the schema refuses the status to a member of a request. -/
def markCopyUnsupported (id : Nat) : RemovalTx Unit := do
  let s ← Tx.read
  let c ← Tx.orFail (s.copies.row id) .notFound
  Tx.require c.request.isNone .conflict
  Tx.write (s.setCopies [id] fun c => { c with status := .unsupported })

end SynapS3.Removal
