import SynapS3.Lib.Lts
import SynapS3.Removal.Repo

/-!
# `Removal.Handler` — an execution of a removal task

`execute` is the handler's decision: from what an execution has read it names the one transaction that is run
with its result. What the outside contributes besides the reads (answers of the provider, receipts, clocks, the
state of the task) is the argument `Answer`.

`Action` is everything that happens to the removal tables and to the chain, and `removalMachine` the system
made of it. Executions are not fenced here: an execution may go on long after another one of the same request
was opened, and may act on what it read more than once. The task's lease only takes behaviours away.
-/

namespace SynapS3.Removal

/-! ## The decision -/

/-- A receipt that was looked up twice, with the class of a failed one. -/
inductive ReceiptAnswer where
  | notFound
  /-- The lookup failed or the two answers differ. -/
  | unusable
  | success (hash : String)
  /-- A failed receipt: `none` if it cannot be classified, else whether another transaction took a piece. -/
  | failed (hash : String) (collision : Option Bool)
  deriving DecidableEq

/-- What the rest of the outside answers an execution. -/
structure Answer where
  sealNow : Bool := false
  maxPieces : Nat := 100
  referenced : Nat → Bool := fun _ => false
  /-- The attention that a request deserves that has been queued for long. -/
  stalled : Option AttentionCode := none
  pieceLookup : Bool := false
  /-- The pieces that the provider knows and those it does not know. -/
  known : List Nat := []
  unknown : List Nat := []
  receipt : ReceiptAnswer := .notFound
  verifierSupported : Bool := true
  /-- The time for the next send has come. -/
  due : Bool := true
  /-- The request has been waiting for its confirmation for too long. -/
  overdue : Bool := false
  /-- The effect was admitted in this attempt already, or the task may not execute now. -/
  hold : Bool := false

/-- What an execution decides to commit. -/
inductive Call where
  | wait
  | sealUp (maxPieces : Nat)
  | markRemoved (ids : List Nat) (detach : Bool)
  | settle
  | markQueued (block : Nat) (withoutSend : Bool)
  | refusedMembers (failed detach : List Nat)
  | receipt (sendNo status : Nat) (hash : String) (reverted : Bool)
  | attention (code : AttentionCode)
  | clearAttention
  | admitSend (input : SendInput)
  deriving DecidableEq

def Run.newlyRemoved (r : Run) (state : PiecesState) : List Nat :=
  (r.members.filter fun m => m.2.status != .removed && state.pieces m.2.piece == .removed).map Prod.fst

def Run.allQueued (r : Run) (state : PiecesState) : Bool :=
  r.members.all fun m => m.2.status == .removed || state.pieces m.2.piece != .present

def Run.sendable (r : Run) (state : PiecesState) : List Nat :=
  (r.members.filter fun m => state.pieces m.2.piece == .present && m.2.status != .removed).map Prod.fst

def queuedCall (r : Run) (a : Answer) : Call :=
  if r.members.all fun m => m.2.status == .removed then .settle
  else match r.preflight, a.stalled with
    | none, _ => .wait
    | some _, some code => .attention code
    | some preflight, none =>
      if preflight.ended && r.request.attention == some .removalStalled then .clearAttention else .wait

/-- `refusedMembers`: what the provider does not know fails; if it knows none of the pieces, half of them are
    taken out. -/
def refusedCall (r : Run) (ids : List Nat) (a : Answer) : Call :=
  if a.known.isEmpty then .refusedMembers [] (if 1 < ids.length then ids.drop (ids.length / 2) else [])
  else .refusedMembers ((r.members.filter fun m => a.unknown.contains m.2.piece).map Prod.fst) []

/-- `checkReceipt`; `none` lets the execution go on. -/
def checkReceipt (accepted : Option Send) (a : Answer) : Option Call :=
  match accepted with
  | none => none
  | some send =>
    if send.txHash.isNone || send.receiptStatus.isSome then none
    else match a.receipt with
      | .notFound => none
      | .unusable => some .wait
      | .success hash => some (.receipt send.sendNo 1 hash false)
      | .failed _ none => some .wait
      | .failed hash (some collision) => some (.receipt send.sendNo 0 hash !collision)

def sendCall (r : Run) (sends : List Send) (state : PiecesState) : Call :=
  let ids := r.sendable state
  if ids.isEmpty then .markQueued state.block (r.request.status == .ready)
  else if (latestExposedSend sends).all fun e => ids.all fun i => (e.pieces.map SendPiece.copy).contains i then
    .admitSend ⟨r.id, r.task, sends.length + 1, ids, state.queueLength, state.block⟩
  else .wait

/-- The part of `execute` that follows the payment service's answer. -/
def preflightCall (r : Run) (sends : List Send) (state : PiecesState) (a : Answer) : Call :=
  match r.preflight with
  | none => .wait
  | some preflight =>
    if preflight.dataSetMissing then .wait
    else if preflight.ended then .markQueued state.block (r.request.status == .ready)
    else if preflight.payerUnderfunded then .attention .payerUnderfunded
    else if r.request.status == .submitted && !a.due then
      if a.overdue then .attention .confirmationTimeout else .wait
    else if a.hold then .wait
    else sendCall r sends state

/-- What an execution does with what it has read. -/
def execute (r : Run) (a : Answer) : Call :=
  if r.request.status == .collecting then
    if a.sealNow || r.members.isEmpty then .sealUp a.maxPieces else .wait
  else match r.sends, r.state with
    | some sends, some state =>
      let accepted := latestPossiblyAcceptedSend sends
      if !(r.newlyRemoved state).isEmpty then
        .markRemoved (r.newlyRemoved state) (accepted.isNone && r.request.status == .ready)
      else if r.request.status == .queued then queuedCall r a
      else if r.allQueued state then .markQueued state.block (r.request.status == .ready)
      else if r.request.status == .ready && accepted.isNone && a.pieceLookup then
        refusedCall r ((r.members.filter fun m => state.pieces m.2.piece == .present).map Prod.fst) a
      else match (if r.request.status == .submitted then checkReceipt accepted a else none) with
        | some call => call
        | none => if a.verifierSupported then preflightCall r sends state a else .wait
    | _, _ => .wait

def onlyIf (p : Bool) (x : RemovalTx Unit) : RemovalTx Unit := if p then x else pure ()

def Call.run (r : Run) (a : Answer) : Call → RemovalTx Unit
  | .wait => pure ()
  | .sealUp maxPieces => sealRemovalRequest r.id r.task maxPieces a.referenced
  | .markRemoved ids detach => markMembersRemoved r.id r.task ids detach
  | .settle => settleRemovalRequest r.id r.task
  | .markQueued block withoutSend => Removal.markQueued r.id r.task block withoutSend
  | .refusedMembers failed detach => do
      onlyIf (!failed.isEmpty) (markMemberFailed r.id r.task failed)
      onlyIf (!detach.isEmpty) (detachMembers r.id r.task detach)
  | .receipt sendNo status hash reverted => do
      sendEvidence r.id r.task sendNo (.receipt status hash)
      onlyIf reverted (setRemovalAttention r.id r.task .transactionReverted)
  | .attention code => setRemovalAttention r.id r.task code
  | .clearAttention => clearRemovalAttention r.id r.task
  | .admitSend input => admitRemovalSend input a.referenced

/-! ## Reading -/

/-- An execution reads its request and the members; `execute` goes on only with a request that is its own,
    open and not stopped. -/
def openRun (id task : Nat) : RemovalTx Unit := do
  let s ← Tx.read
  let request ← Tx.orFail (s.requests.row id) .notFound
  Tx.require (!request.status.terminal && request.task == some task &&
    !request.attention.any AttentionCode.isStop) .conflict
  Tx.write { s with
    runs := s.runs.insert { id := id, task := task, request := request, members := s.members id } }

def listSends (run : Nat) : RemovalTx Unit := do
  let s ← Tx.read
  let r ← Tx.orFail (s.runs.row run) .notFound
  Tx.require (r.request.status != .collecting && r.sends.isNone) .conflict
  Tx.write { s with runs := s.runs.modify run fun r => { r with sends := some (s.sends r.id) } }

/-- `DeletionStates` at a block of the node's choice. -/
def snapshotChain (run block : Nat) : RemovalTx Unit := do
  let s ← Tx.read
  let r ← Tx.orFail (s.runs.row run) .notFound
  Tx.require (r.sends.isSome && r.state.isNone && decide (block ≤ s.chain.height)) .conflict
  let d := r.request.dataSet
  let state : PiecesState :=
    ⟨block, (s.chain.queue d block).length, fun p => s.chain.status d p block⟩
  Tx.write { s with
    runs := s.runs.modify run fun r => { r with state := some state }
    seen := (r.members.filter fun m => state.pieces m.2.piece == .removed).map (fun m => (d, m.2.piece)) ++ s.seen }

/-- `Preflight`, with what the payment service says about the record and the payer. -/
def readPreflight (run : Nat) (missing underfunded : Bool) : RemovalTx Unit := do
  let s ← Tx.read
  let r ← Tx.orFail (s.runs.row run) .notFound
  Tx.require (r.state.isSome && r.preflight.isNone) .conflict
  Tx.write { s with
    runs := s.runs.modify run fun r =>
      { r with preflight := some ⟨missing, s.chain.ended r.request.dataSet, underfunded⟩ } }

/-! ## The system -/

/-- The transactions of the tables and the events of the chain. -/
inductive Action where
  /-- Deleting versions sets the claim of a content's cleanup and leaves cleanup copies. -/
  | claimContent (content : Nat) (claim : Option ContentClaim)
  | snapshotCopy (content dataSet piece : Nat)
  | join (input : JoinInput)
  | openRun (id task : Nat)
  | listSends (run : Nat)
  | snapshotChain (run block : Nat)
  | readPreflight (run : Nat) (missing underfunded : Bool)
  | act (run : Nat) (answer : Answer)
  | evidence (id task sendNo : Nat) (what : Evidence)
  /-- The provider did not find a piece of a send it refused. -/
  | refused (run : Nat) (ids : List Nat) (answer : Answer)
  /-- `stop`, and the attention that ends a series of sends. -/
  | attention (id task : Nat) (code : AttentionCode)
  | abandon (id task : Nat)
  | transfer (id old : Nat)
  | reauthorize (content generation task : Nat)
  | markUnsupported (copy : Nat)
  | land (id sendNo : Nat)
  | chain (event : Chain.Event)

def Action.tx : Action → RemovalTx Unit
  | .claimContent content claim => do
      let s ← Tx.read
      Tx.write { s with contents := fun i => if i = content then claim else s.contents i }
  | .snapshotCopy content dataSet piece => Removal.snapshotCopy content dataSet piece
  | .join input => do let _ ← joinOrCreateCollecting input
  | .openRun id task => Removal.openRun id task
  | .listSends run => Removal.listSends run
  | .snapshotChain run block => Removal.snapshotChain run block
  | .readPreflight run missing underfunded => Removal.readPreflight run missing underfunded
  | .act run answer => do
      let s ← Tx.read
      let r ← Tx.orFail (s.runs.row run) .notFound
      (execute r answer).run r answer
  | .evidence id task sendNo what => sendEvidence id task sendNo what
  | .refused run ids answer => do
      let s ← Tx.read
      let r ← Tx.orFail (s.runs.row run) .notFound
      (refusedCall r ids answer).run r answer
  | .attention id task code => setRemovalAttention id task code
  | .abandon id task => do
      let (_, request, _) ← owned id task []
      onlyIf (request.status == .collecting) (abandonRemovalRequest id task)
  | .transfer id old => transferRemovalTaskOwner id old
  | .reauthorize content generation task => reauthorizeFailedCopies content generation task
  | .markUnsupported copy => markCopyUnsupported copy
  | .land id sendNo => do
      let s ← Tx.read
      let request ← Tx.orFail (s.requests.row id) .notFound
      let send ← Tx.orFail ((s.sends id).find? (·.sendNo == sendNo)) .notFound
      let event := Chain.Event.land request.dataSet id sendNo (send.pieces.map fun p => (p.copy, p.piece))
      Tx.require (s.chain.enabled event) .conflict
      Tx.write { s with chain := s.chain.apply event }
  | .chain event => do
      let s ← Tx.read
      Tx.require (!(event matches .land ..) && s.chain.enabled event) .conflict
      Tx.write { s with chain := s.chain.apply event }

/-- No request and no cleanup copy yet. A data set may have removals in its queue already, as many as it has
    room for; they are older than any block that is looked at and belong to no request. -/
def State.Initial (s : State) : Prop :=
  s.requests = Table.empty ∧ s.copies = Table.empty ∧ s.runs = Table.empty ∧ (∀ i, s.sends i = []) ∧
    s.seen = [] ∧ s.chain.Sound ∧ (∀ e ∈ s.chain.scheduled, e.request = 0 ∧ e.block = 0) ∧
    ∀ d, (s.chain.queue d s.chain.height).length ≤ maxEnqueuedRemovals

def removalMachine : Lts State Action where
  init := State.Initial
  step s a := a.tx.after s

end SynapS3.Removal
