import SynapS3.Retirement.Model

/-!
# `Retirement.Repo` — admitting, recording and releasing attempts

The three methods of the replacement repository that write termination attempts, as functions of the
termination they work on, and the retirement task that calls them. An execution reads the termination's row and its
own checkpoint, merges the one into the other, observes provider and chain, and then decides what to commit
(`runDataSetRetirement`): a settlement with the evidence, the release of an attempt, or the admission of a paid one.

What an execution has read stays as it is until it commits: the row and the checkpoint are written only under the
claim of the task that owns the retirement. So a decision and its commit are one step.
-/

namespace SynapS3.Retirement

inductive RetirementError where
  | invalidInput
  | conflict
  deriving DecidableEq

/-- Who carries a retirement out, its termination, and the checkpoints of its tasks. -/
structure State where
  owner : Key → Option Authority
  terminations : Key → Option Termination
  /-- The checkpoint of a task that retires the data set of the key; a task retires one. -/
  checkpoints : Key → Nat → Checkpoint

abbrev RetirementTx (α : Type) := Tx RetirementError State α

def State.termination (s : State) (k : Key) : Termination := (s.terminations k).getD {}

def State.setTermination (s : State) (k : Key) (t : Termination) : State :=
  { s with terminations := fun i => if i = k then some t else s.terminations i }

def State.setCheckpoint (s : State) (k : Key) (task : Nat) (c : Checkpoint) : State :=
  { s with checkpoints := fun i j => if i = k ∧ j = task then c else s.checkpoints i j }

/-! ## The rows -/

/-- `UPDATE storage_data_set_termination_attempts SET f WHERE attempt_no = n`. -/
def Termination.update (t : Termination) (n : Nat) (f : Attempt → Attempt) : Termination :=
  { t with attempts := t.attempts.map fun a => if a.attemptNo = n then f a else a }

def Termination.insert (t : Termination) (a : Attempt) : Termination := { t with attempts := t.attempts ++ [a] }

/-- The unique index over termination and task lets the attempt `n` belong to the task. -/
def Termination.taskFree (t : Termination) (task n : Nat) : Bool :=
  t.attempts.all fun a => a.attemptNo == n || a.task != some task

/-- `BeginTerminationAttempt` on the locked termination; `none` is `ErrConflict`. -/
def Termination.begin (t : Termination) (task attemptNo previousAttemptNo : Nat) (resumeUnresolved : Bool) :
    Option Termination :=
  if t.epoch.isSome then none
  else match latestAttempt t.attempts with
    | none =>
      if attemptNo = 1 ∧ previousAttemptNo = 0 then some (t.insert { attemptNo := attemptNo, task := some task })
      else none
    | some previous =>
      if previous.attemptNo = attemptNo then
        if previous.unsent || (resumeUnresolved && previous.task != some task && !previous.evidence) then
          if t.taskFree task attemptNo then
            some (t.update attemptNo fun a => { a with task := some task, unsent := false })
          else none
        else if previous.task = some task then some t
        else none
      else if previousAttemptNo = previous.attemptNo ∧ attemptNo = previous.attemptNo + 1 ∧
          previous.receiptStatus = some 0 ∧ previous.task ≠ some task ∧ t.taskFree task attemptNo = true then
        some (t.insert { attemptNo := attemptNo, task := some task })
      else none

/-- `RecordTerminationEvidenceInput`, without the fields that authorize it. -/
structure EvidenceInput where
  attemptNo : Nat
  txHash : String := ""
  confirmedTxHash : String := ""
  receiptStatus : Option Nat := none
  epoch : Option Int := none
  deriving DecidableEq

def EvidenceInput.hasTransaction (i : EvidenceInput) : Bool :=
  i.txHash != "" || i.confirmedTxHash != "" || i.receiptStatus.isSome

/-- `mergeTerminationAttempt`, given the hashes of the other attempts; `none` is an error. -/
def Attempt.merge (a : Attempt) (i : EvidenceInput) (others : List String) : Option Attempt :=
  if clash a.txHash (given i.txHash) || clash a.confirmedTxHash (given i.confirmedTxHash) ||
      clash a.receiptStatus i.receiptStatus then none
  else if ((given i.txHash).toList ++ (given i.confirmedTxHash).toList).any others.contains then none
  else
    let merged := { a with
      txHash := a.txHash <|> given i.txHash
      confirmedTxHash := a.confirmedTxHash <|> given i.confirmedTxHash
      receiptStatus := a.receiptStatus <|> i.receiptStatus }
    if i.receiptStatus.isSome && merged.confirmedTxHash.isNone then none
    else if merged = a then some a
    else some { merged with unsent := false }

def Termination.otherHashes (t : Termination) (n : Nat) : List String :=
  (t.attempts.filter fun a => a.attemptNo != n).flatMap Attempt.hashes

/-- The part of `RecordTerminationEvidence` that is about the latest attempt. -/
def Termination.recordAttempt (t : Termination) (i : EvidenceInput) : Option Termination :=
  if i.hasTransaction then
    match latestAttempt t.attempts with
    | none => ((⟨1, none, none, none, none, false⟩ : Attempt).merge i []).map t.insert
    | some a => (a.merge i (t.otherHashes a.attemptNo)).map fun a' => t.update a.attemptNo fun _ => a'
  else some t

/-- `RecordTerminationEvidence` on the locked termination. -/
def Termination.record (t : Termination) (i : EvidenceInput) : Option Termination :=
  if clash t.epoch i.epoch then none
  else if 0 < i.attemptNo ∧ (latestAttempt t.attempts).map Attempt.attemptNo ≠ some i.attemptNo then none
  else (t.recordAttempt i).map fun t' => { t' with epoch := t'.epoch <|> i.epoch }

/-- `RecordTerminationUnsent` on the locked termination. -/
def Termination.release (t : Termination) (attemptNo : Nat) : Option Termination :=
  match latestAttempt t.attempts with
  | none => none
  | some a =>
    if t.epoch.isSome || a.attemptNo != attemptNo || a.task.isNone || a.evidence then none
    else some (t.update attemptNo fun a => { a with unsent := true })

/-! ## The transactions -/

/-- `authorizeTerminationEvidence`; a missing row is inserted. -/
def authorizeTerminationEvidence (k : Key) (auth : Authority) : RetirementTx Termination := do
  let s ← Tx.read
  Tx.require (s.owner k == some auth) .conflict
  pure (s.termination k)

def onTermination (k : Key) (auth : Authority) (f : Termination → Option Termination) : RetirementTx Unit := do
  let t ← authorizeTerminationEvidence k auth
  let t' ← Tx.orFail (f t) .conflict
  let s ← Tx.read
  Tx.write (s.setTermination k t')

def beginTerminationAttempt (k : Key) (auth : Authority) (attemptNo previousAttemptNo : Nat)
    (resumeUnresolved : Bool) : RetirementTx Unit := do
  Tx.require (decide (0 < attemptNo)) .invalidInput
  onTermination k auth fun t => t.begin auth.task attemptNo previousAttemptNo resumeUnresolved

def recordTerminationEvidence (k : Key) (auth : Authority) (i : EvidenceInput) : RetirementTx Unit := do
  Tx.require (!(i.attemptNo == 0 && !i.hasTransaction && i.epoch.isNone) && i.epoch.all (0 ≤ ·) &&
    i.receiptStatus.all (· ≤ 1)) .invalidInput
  onTermination k auth fun t => t.record i

def recordTerminationUnsent (k : Key) (auth : Authority) (i : EvidenceInput) : RetirementTx Unit := do
  Tx.require (decide (0 < i.attemptNo) && !i.hasTransaction && i.epoch.isNone) .invalidInput
  onTermination k auth fun t => t.release i.attemptNo

/-! ## The decision of the retirement task -/

/-- What `GetByID` projects of a termination: its epoch, and the evidence of its latest attempt. -/
def Termination.ledger (t : Termination) : TerminationResult :=
  match latestAttempt t.attempts with
  | none => { endEpoch := t.epoch }
  | some a => ⟨a.txHash.getD "", a.confirmedTxHash.getD "", a.receiptStatus, t.epoch⟩

def Termination.attemptNo (t : Termination) : Nat := ((latestAttempt t.attempts).map Attempt.attemptNo).getD 0

/-- The checkpoint with the number and the evidence of the ledger; `none` is `ErrTerminationEvidenceConflict`. -/
def Checkpoint.withLedger (c : Checkpoint) (t : Termination) : Option Checkpoint :=
  if c.attemptNo ≠ 0 ∧ t.attemptNo ≠ 0 ∧ c.attemptNo ≠ t.attemptNo then none
  else mergeRetirementEvidence { c with attemptNo := if c.attemptNo = 0 then t.attemptNo else c.attemptNo } t.ledger

/-- What an observation fails with. -/
inductive ObservationError where
  | requestAbsent
  | evidenceConflict
  | transactionFailed
  | paidByAnother
  | unavailable
  | retryAfter
  | other
  deriving DecidableEq

/-- What an execution meets outside: whether it is too early to observe, the answer of `ObserveTermination`, the end of
    its context, and whether the checks before a paid call pass. -/
structure Observation where
  early : Bool := false
  observed : TerminationResult := {}
  pending : Bool := false
  err : List ObservationError := []
  ctxDone : Bool := false
  payerVerified : Bool := true

/-- What an execution decides to commit. -/
inductive Decision where
  | nothing
  /-- `WriteCheckpoint`. -/
  | save (c : Checkpoint)
  /-- `retirementEvidenceSettlement`. -/
  | settle (c : Checkpoint)
  /-- `retirementReleaseSettlement`. -/
  | release (c : Checkpoint)
  /-- A termination request is admitted: under a new number, or for an unresolved relay. -/
  | admission (c : Checkpoint) (freshAttempt resumeRelay : Bool)
  deriving DecidableEq

/-- The part of `runDataSetRetirement` after the observation, with the evidence merged; `known` is what
    `attemptMayLand` said before. -/
def Checkpoint.afterObservation (c : Checkpoint) (o : Observation) (mayTerminate known : Bool) : Decision :=
  let absent := o.err.contains .requestAbsent
  let err := if absent then [] else o.err
  if err.contains .evidenceConflict then .nothing
  else if o.observed.endEpoch.isSome then .settle c
  else if err.contains .transactionFailed then
    -- the failed attempt stays in its ledger while another one is admitted
    if c.retryFailedTransaction && c.receiptStatus == some 0 && mayTerminate then
      if o.payerVerified then .admission c true false else .nothing
    else .settle c
  else if known && err.contains .paidByAnother then .settle c
  else if absent && c.attemptMayLand && c.relayOnly && c.txHash == "" && c.confirmedTxHash == "" then .release c
  else if c.attemptMayLand && c.retryUnresolvedRelay && c.relayUnresolved && !o.ctxDone then
    -- the payer wallet completes the attempt, which the relayed request may still land alongside
    if mayTerminate && o.payerVerified then .admission c false true else .nothing
  else if c.attemptMayLand then .settle c
  else if err.contains .retryAfter && !o.ctxDone then .save c
  else if err != [] && (o.ctxDone || !err.contains .unavailable) then .nothing
  else if !o.pending && mayTerminate && o.payerVerified then .admission c false false
  else .nothing

/-- `runDataSetRetirement`, from the checkpoint on; before it, an execution only ends without a commit. -/
def runDataSetRetirement (c : Checkpoint) (t : Termination) (o : Observation) (mayTerminate : Bool) : Decision :=
  match c.withLedger t with
  | none => .nothing
  | some c =>
    -- an ended service is only waited for
    if t.epoch.isSome then .nothing
    else match c.terminationEpoch with
      | some epoch => if epoch < 0 then .nothing else .settle c
      | none =>
        if o.early then if c.attemptMayLand then .settle c else .nothing
        else match mergeRetirementEvidence c o.observed with
          | none => .nothing
          | some c' => c'.afterObservation o mayTerminate c.attemptMayLand

/-! ## What an execution commits -/

def Checkpoint.input (c : Checkpoint) : EvidenceInput :=
  ⟨c.attemptNo, c.txHash, c.confirmedTxHash, c.receiptStatus, c.terminationEpoch⟩

def writeCheckpoint (k : Key) (task : Nat) (c : Checkpoint) : RetirementTx Unit := do
  let s ← Tx.read
  Tx.write (s.setCheckpoint k task c)

/-- `retirementEvidenceSettlement`; nothing is written if nothing is known. -/
def settleEvidence (k : Key) (auth : Authority) (c : Checkpoint) : RetirementTx Unit := do
  Tx.require (c.attemptNo != 0 || c.txHash != "" || c.confirmedTxHash != "" || c.terminationEpoch.isSome) .conflict
  writeCheckpoint k auth.task c
  recordTerminationEvidence k auth c.input

/-- `retirementReleaseSettlement`, with the checkpoint marked. -/
def settleRelease (k : Key) (auth : Authority) (c : Checkpoint) : RetirementTx Unit := do
  writeCheckpoint k auth.task { c with unsent := true }
  recordTerminationUnsent k auth c.input

def Checkpoint.nextAttempt (c : Checkpoint) (fresh : Bool) : Nat :=
  if c.attemptNo = 0 then 1 else if fresh then c.attemptNo + 1 else c.attemptNo

/-- The checkpoint under which the next termination request goes out. -/
def Checkpoint.next (c : Checkpoint) (fresh : Bool) : Checkpoint :=
  let resumeAuthorized := c.retryUnresolvedRelay && !fresh
  let direct := fresh || decide (1 < c.nextAttempt fresh) || resumeAuthorized
  { attemptNo := c.nextAttempt fresh, sends := c.sends + 1, relayOnly := !direct,
    retryUnresolvedRelay := resumeAuthorized }

def recordIf (p : Bool) (k : Key) (auth : Authority) (i : EvidenceInput) : RetirementTx Unit :=
  if p then recordTerminationEvidence k auth i else pure ()

/-- The admission of a termination request: after a failed receipt under a new number (`fresh`), otherwise
    under the number of the checkpoint. The failed attempt is recorded once more before. -/
def admitTermination (k : Key) (auth : Authority) (c : Checkpoint) (fresh resumeRelay : Bool) :
    RetirementTx Unit := do
  writeCheckpoint k auth.task (c.next fresh)
  recordIf fresh k auth c.input
  beginTerminationAttempt k auth (c.nextAttempt fresh) c.attemptNo resumeRelay

def Decision.commit (k : Key) (auth : Authority) : Decision → RetirementTx Unit
  | .nothing => pure ()
  | .save c => writeCheckpoint k auth.task c
  | .settle c => settleEvidence k auth c
  | .release c => settleRelease k auth c
  | .admission c fresh resumeRelay => admitTermination k auth c fresh resumeRelay

/-- `PrepareRetry`: the successor starts from the checkpoint of its source, with what the operator's retry
    authorizes. -/
def Checkpoint.retried (c : Checkpoint) (failedTransaction exhausted : Bool) : Checkpoint :=
  if failedTransaction then { c with retryFailedTransaction := true }
  else if exhausted && c.relayUnresolved then { c with retryUnresolvedRelay := true }
  else c

/-- The checkpoint when the admitted call has ended. `relayed` says that its error shows that the payer wallet sent
    nothing; a call that went to the wallet at once, under a later number or to complete a relay, does not say so. -/
def Checkpoint.ended (c : Checkpoint) (relayed : Bool) : Checkpoint :=
  { c with relayOnly := c.relayOnly || (relayed && !decide (1 < c.attemptNo) && !c.retryUnresolvedRelay) }

/-! ## The system -/

/-- Everything that happens to terminations. -/
inductive Action where
  /-- Binding or completing the retirement of a data set, or a change of the replacement's status. -/
  | setOwner (k : Key) (owner : Option Authority)
  /-- An operator retries the task; its successor takes the retirement over. -/
  | retry (k : Key) (auth : Authority) (next : Nat) (failedTransaction exhausted : Bool)
  | run (k : Key) (auth : Authority) (o : Observation) (mayTerminate : Bool)
  /-- `BeforeDirect` of an admitted call: from now on the payer wallet may send. -/
  | beforeDirect (k : Key) (auth : Authority)
  /-- An admitted call reveals a hash (`OnSubmitted`), or has ended in a result. -/
  | evidence (k : Key) (auth : Authority) (result : TerminationResult) (relayed : Bool)
  /-- An admitted call has ended without having sent anything. -/
  | notSent (k : Key) (auth : Authority) (relayed : Bool)

def Action.tx : Action → RetirementTx Unit
  | .setOwner k owner => do
      let s ← Tx.read
      Tx.write { s with owner := fun i => if i = k then owner else s.owner i }
  | .retry k auth next failedTransaction exhausted => do
      let s ← Tx.read
      -- the successor is a new task
      Tx.require (s.owner k == some auth && (s.termination k).attempts.all (·.task != some next)) .conflict
      Tx.write (State.setCheckpoint
        { s with owner := fun i => if i = k then some { auth with task := next } else s.owner i } k next
        ((s.checkpoints k auth.task).retried failedTransaction exhausted))
  | .run k auth o mayTerminate => do
      let s ← Tx.read
      Tx.require (s.owner k == some auth) .conflict
      (runDataSetRetirement (s.checkpoints k auth.task) (s.termination k) o mayTerminate).commit k auth
  | .beforeDirect k auth => do
      let s ← Tx.read
      writeCheckpoint k auth.task { s.checkpoints k auth.task with relayOnly := false }
  | .evidence k auth result relayed => do
      let s ← Tx.read
      let c ← Tx.orFail (mergeRetirementEvidence (s.checkpoints k auth.task) result) .conflict
      settleEvidence k auth (c.ended relayed)
  | .notSent k auth relayed => do
      let s ← Tx.read
      settleRelease k auth ((s.checkpoints k auth.task).ended relayed)

def retirementMachine : Lts State Action where
  init s := (∀ k, s.terminations k = none) ∧ ∀ k task, s.checkpoints k task = {}
  step s a := a.tx.after s

end SynapS3.Retirement
