import Mathlib.Algebra.Group.Nat.Defs
import Mathlib.Data.List.Basic

/-!
# `StorageCommit.Advancer` — what a commit request needs next

`storagecommit.Advancer` looks at one signed add-pieces request and says what is to be done with it. The
provider answers with a `CommitStatus`, or with an error. The chain is read through the nonce of the request
(`Prove`), and through the data set's own state (`CheckWritable`).

Every read of the chain sees it at an instant of its own, or fails, and both are arguments of a call (`Reads`).
So are the answer of the provider, the clock and the context (`Surroundings`). What lies outside the
repository is a parameter: `nonceOf` is the decoding of `extra_data_hex` by `ExtraDataNonce`.
-/

namespace SynapS3.StorageCommit

/-- A data set of a provider. -/
structure DataSetRef where
  providerID : String
  dataSetID : Nat
  deriving DecidableEq

/-! ## The chain -/

/-- The chain at one instant, as far as it is read. -/
structure ChainState (C : Type) where
  /-- `clientNonces` of the payer: `(next piece ID << 128) | data set ID`, zero for an unused nonce. -/
  clientNonces : Nat → Nat
  /-- `getPieceCid`: what a data set holds at a piece identifier. -/
  pieceCid : Nat → Nat → Option C
  /-- Why a data set refuses writes, if it does. -/
  refusesWrites : Nat → Option String

/-- The states of the chain, in order. A consumed nonce stays consumed, with the record it got. -/
structure ChainHistory (C : Type) where
  state : Nat → ChainState C
  nonce_final : ∀ {i j n : Nat}, i ≤ j → (state i).clientNonces n ≠ 0 →
    (state j).clientNonces n = (state i).clientNonces n

/-- The reads of one call: the instant at which each of them sees the chain, or the error it fails with. -/
structure Reads where
  nonce : Except String Nat
  piece : Nat → Except String Nat
  writable : Except String Nat

/-- `synapse.ClientNonceState`. -/
structure ClientNonceState where
  consumed : Bool := false
  dataSetID : Nat := 0
  nextPieceID : Nat := 0
  deriving DecidableEq

def clientNonceState (raw : Nat) : ClientNonceState :=
  if raw = 0 then {} else { consumed := true, dataSetID := raw % 2 ^ 128, nextPieceID := raw / 2 ^ 128 }

/-- `ClientNonceState.PieceIDs`: the identifiers that end before the next one. -/
def ClientNonceState.pieceIDs (s : ClientNonceState) (count : Nat) : Option (List Nat) :=
  if s.consumed = false ∨ count = 0 then none
  else if s.nextPieceID < count then none
  else some ((List.range count).map fun i => s.nextPieceID - count + i)

/-! ## The request -/

/-- `storagecommit.Request`. -/
structure Request where
  requestID : String
  extraDataHex : Option String
  submittedAt : Option Int := none
  txHash : Option String := none
  statusURL : Option String := none
  attentionAt : Option Int := none
  deriving DecidableEq

/-- `storagecommit.Commit`: `dataSetRef` and `providerID` are those of its target. -/
structure Commit (C : Type) where
  request : Request
  pieces : List C
  dataSetRef : Option DataSetRef
  providerID : String
  deriving DecidableEq

/-- `storagecommit.Advancer`. `nonces` says whether it has a chain reader. -/
structure Advancer where
  nonces : Bool := true
  attentionAfter : Int := 0
  deriving DecidableEq

def defaultAttentionAfter : Int := 15 * 60

def Advancer.attentionThreshold (a : Advancer) : Int :=
  if 0 < a.attentionAfter then a.attentionAfter else defaultAttentionAfter

def Advancer.attentionDue (a : Advancer) (req : Request) (now : Int) : Bool :=
  req.submittedAt.any fun submittedAt => a.attentionThreshold ≤ now - submittedAt

section

variable {C : Type} [DecidableEq C] (nonceOf : String → Option Nat)

/-- `Commit.extraData` and `ExtraDataNonce`: the nonce that was signed. -/
def Commit.signedNonce (c : Commit C) : Option Nat :=
  match c.request.extraDataHex with
  | none => none
  | some extraData => if extraData = "" then none else nonceOf extraData

/-! ## `Prove` -/

inductive Proof where
  | unused
  | landed (firstPieceID : Nat)
  | conflict
  deriving DecidableEq

def readPiece (h : ChainHistory C) (reads : Reads) (dataSetID pieceID position : Nat) : Except String (Option C) :=
  match reads.piece position with
  | .error e => .error e
  | .ok i => .ok ((h.state i).pieceCid dataSetID pieceID)

def mismatch (h : ChainHistory C) (reads : Reads) (dataSetID pieceID position : Nat) (piece : C) : Bool :=
  match readPiece h reads dataSetID pieceID position with
  | .error _ => false
  | .ok cid => cid ≠ some piece

def readError (reads : Reads) (position : Nat) : Option String :=
  match reads.piece position with
  | .error e => some e
  | .ok _ => none

/-- The end of `Prove`: a position that differs decides before one that could not be read. The source reads the positions
    in parallel and reports the error of the goroutine that failed first; here it is that of the first position. -/
def checkPieces (h : ChainHistory C) (reads : Reads) (dataSetID first : Nat) (pieces : List C) :
    Except String Proof :=
  if pieces.zipIdx.any fun p => mismatch h reads dataSetID (first + p.2) p.2 p.1 then .ok .conflict
  else match (List.range pieces.length).findSome? (readError reads) with
    | some e => .error e
    | none => .ok (.landed first)

def Advancer.prove (a : Advancer) (h : ChainHistory C) (c : Commit C) (reads : Reads) : Except String Proof :=
  if a.nonces = false then .error "storage confirmation chain reader is unavailable"
  else match c.signedNonce nonceOf with
  | none => .ok .conflict
  | some nonce =>
    match reads.nonce with
    | .error e => .error e
    | .ok i =>
      let state := clientNonceState ((h.state i).clientNonces nonce)
      if state.consumed = false then .ok .unused
      else match c.dataSetRef with
      | none => .ok .conflict
      | some ref =>
        if state.dataSetID ≠ ref.dataSetID ∨ c.pieces = [] then .ok .conflict
        else match state.pieceIDs c.pieces.length with
        | some (first :: _) => checkPieces h reads state.dataSetID first c.pieces
        | _ => .ok .conflict

/-! ## `CheckWritable` -/

/-- An error of `CheckWritable`; `refuses` is the answer of `DataSetRefusesWrites` on it. -/
structure WritableError where
  refuses : Bool
  message : String
  deriving DecidableEq

omit [DecidableEq C] in
def checkWritable (h : ChainHistory C) (c : Commit C) (reads : Reads) : Option WritableError :=
  match c.dataSetRef with
  | none => some ⟨false, "data set target has no data set"⟩
  | some ref =>
    match reads.writable with
    | .error e => some ⟨false, e⟩
    | .ok i => ((h.state i).refusesWrites ref.dataSetID).map fun message => ⟨true, message⟩

/-! ## `Prepare` -/

inductive PrepareOutcome where
  | send
  | confirmed
  | conflict
  | abandon
  | retry
  deriving DecidableEq

/-- `storagecommit.Prepared`. -/
structure Prepared where
  outcome : PrepareOutcome
  proof : Option Proof := none
  cause : Option String := none
  deriving DecidableEq

def Advancer.prepare (a : Advancer) (h : ChainHistory C) (c : Commit C) (reads : Reads) : Prepared :=
  match a.prove nonceOf h c reads with
  | .error e => { outcome := .retry, cause := some e }
  | .ok (.landed first) => { outcome := .confirmed, proof := some (.landed first) }
  | .ok .conflict => { outcome := .conflict }
  | .ok .unused =>
    match checkWritable h c reads with
    | none => { outcome := .send }
    | some e => { outcome := if e.refuses then .abandon else .retry, cause := some e.message }

/-! ## `Observe` -/

inductive AttentionCode where
  | submissionMismatch
  | dataSetUnavailable
  | confirmationTimeout
  deriving DecidableEq

inductive ObserveKind where
  | pending
  | confirmed
  | resendDue
  | stop
  | abandon
  deriving DecidableEq

/-- `storagecommit.Confirmation`. -/
structure Confirmation where
  txHash : String := ""
  confirmedTxHash : String := ""
  firstPieceID : Nat
  deriving DecidableEq

/-- `storagecommit.Observation`; `diagnostic` has the joined errors. -/
structure Observation where
  kind : ObserveKind
  confirmation : Option Confirmation := none
  attention : Option AttentionCode := none
  dropEvidence : Bool := false
  cause : Option String := none
  diagnostic : List String := []
  deriving DecidableEq

inductive CommitKind where
  | addPieces
  | other
  deriving DecidableEq

inductive CommitState where
  | pending
  | confirmed
  | rejected
  | unknown
  deriving DecidableEq

/-- The provider's status of a commit. -/
structure CommitStatus where
  dataSet : Option DataSetRef
  kind : CommitKind
  transactionID : String
  state : CommitState
  pieceIDs : List Int := []
  confirmedTransactionID : String := ""
  deriving DecidableEq

/-- An error of `GetCommitStatus`. `invalid` says that it is `ErrInvalidArgument` or `ErrInvalidStatus`,
    `unavailable` that the data set is unavailable or its service ended. -/
structure StatusError where
  invalid : Bool
  unavailable : Bool
  message : String
  deriving DecidableEq

/-- What a call of `Observe` meets beside the chain. -/
structure Surroundings where
  /-- The answer of the provider: an error, no status, or a status. -/
  status : Except StatusError (Option CommitStatus)
  /-- The context was done when `Observe` started, and after a status that failed. -/
  cancelledAtStart : Bool := false
  cancelledAfterStatus : Bool := false
  /-- The clock, at the check of a pending status and where the observation is made. -/
  checkedAt : Int := 0
  now : Int := 0

def contiguous (ids : List Int) : Bool :=
  match ids with
  | [] => false
  | first :: _ => ids.zipIdx.all fun p => p.1 == first + p.2

def Advancer.pending (a : Advancer) (req : Request) (code : AttentionCode) (now : Int) : Observation where
  kind := .pending
  attention := if req.attentionAt = none ∧ a.attentionDue req now then some code else none

omit [DecidableEq C] in
def confirmedByNonce (c : Commit C) (first : Nat) : Observation where
  kind := .confirmed
  confirmation := some { txHash := c.request.txHash.getD "", firstPieceID := first }

def mismatchObservation : Observation where
  kind := .stop
  attention := some .submissionMismatch

def Advancer.unobserved (a : Advancer) (h : ChainHistory C) (c : Commit C) (reads : Reads) (now : Int)
    (dropEvidence : Bool) : Observation :=
  match a.prove nonceOf h c reads with
  | .error e => { kind := .pending, dropEvidence := dropEvidence, cause := some e }
  | .ok (.landed first) => confirmedByNonce c first
  | .ok .conflict => mismatchObservation
  | .ok .unused =>
    let writable := checkWritable h c reads
    if writable.any (·.refuses) then { kind := .abandon, cause := writable.map (·.message) }
    else
      { kind := .resendDue
        dropEvidence := dropEvidence
        diagnostic := (writable.map fun e => "could not query data set writability: " ++ e.message).toList
        attention :=
          if c.request.attentionAt = none ∧ a.attentionDue c.request now then some .confirmationTimeout
          else none }

/-- `Advancer.byProof`; every caller's fallback is an observation that is made already. -/
def Advancer.byProof (a : Advancer) (h : ChainHistory C) (c : Commit C) (reads : Reads)
    (fallback : Observation) : Observation :=
  match a.prove nonceOf h c reads with
  | .error e =>
    { fallback with diagnostic := fallback.diagnostic ++ ["could not prove commit on chain: " ++ e] }
  | .ok (.landed first) => confirmedByNonce c first
  | .ok .conflict => mismatchObservation
  | .ok .unused => fallback

/-- The status describes this request: its data set, its kind and its recorded transaction. -/
def CommitStatus.describes (status : CommitStatus) (c : Commit C) : Bool :=
  c.dataSetRef.isSome && status.dataSet == c.dataSetRef && status.kind == .addPieces &&
    c.request.txHash == some status.transactionID

/-- `Observe` on an error of `GetCommitStatus`. -/
def Advancer.observeError (a : Advancer) (h : ChainHistory C) (c : Commit C) (reads : Reads) (env : Surroundings)
    (e : StatusError) : Observation :=
  if env.cancelledAfterStatus then { kind := .pending }
  else if e.invalid then a.unobserved nonceOf h c reads env.now true
  else
    let code := if e.unavailable then AttentionCode.dataSetUnavailable else .confirmationTimeout
    -- a provider that still cannot answer once the request needs attention leaves no evidence at all
    if c.request.attentionAt.isSome then a.unobserved nonceOf h c reads env.now false
    else a.byProof nonceOf h c reads (a.pending c.request code env.now)

/-- `Observe` on a status. -/
def Advancer.observeStatus (a : Advancer) (h : ChainHistory C) (c : Commit C) (reads : Reads) (env : Surroundings)
    (status : CommitStatus) : Observation :=
  if status.describes c = false then a.unobserved nonceOf h c reads env.now true
  else match status.state with
  | .pending =>
    if c.request.attentionAt = none ∧ a.attentionDue c.request env.checkedAt = false then { kind := .pending }
    else a.byProof nonceOf h c reads (a.pending c.request .confirmationTimeout env.now)
  | .confirmed =>
    if status.pieceIDs.length ≠ c.pieces.length ∨ contiguous status.pieceIDs = false then
      a.unobserved nonceOf h c reads env.now true
    else match a.prove nonceOf h c reads with
      | .error e => { kind := .pending, cause := some e }
      | .ok (.landed first) =>
        { kind := .confirmed
          confirmation := some
            { txHash := status.transactionID
              confirmedTxHash := status.confirmedTransactionID
              firstPieceID := first } }
      | .ok .conflict => mismatchObservation
      -- the provider saw the transaction before the chain view this node reads
      | .ok .unused => a.pending c.request .confirmationTimeout env.now
  | .rejected | .unknown => a.unobserved nonceOf h c reads env.now true

/-- The deferred function of `Observe`: what is not confirmed carries the provider's error. -/
def Observation.withProviderError (o : Observation) (providerErr : List String) : Observation :=
  if o.kind = .confirmed then o else { o with diagnostic := providerErr ++ o.diagnostic }

omit [DecidableEq C] in
/-- The error that `Observe` reports for a status query that failed. -/
def providerError (c : Commit C) (e : StatusError) : String :=
  "could not query provider " ++ c.providerID ++ " commit status for request " ++ c.request.requestID ++ ": " ++
    e.message

def Advancer.observe (a : Advancer) (h : ChainHistory C) (c : Commit C) (reads : Reads) (env : Surroundings) :
    Observation :=
  if env.cancelledAtStart then { kind := .pending }
  else if c.request.statusURL.getD "" = "" then a.unobserved nonceOf h c reads env.now false
  else match env.status with
  | .error e => (a.observeError nonceOf h c reads env e).withProviderError [providerError c e]
  | .ok none => a.pending c.request .confirmationTimeout env.now
  | .ok (some status) => a.observeStatus nonceOf h c reads env status

end

end SynapS3.StorageCommit
