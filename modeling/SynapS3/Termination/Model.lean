import Mathlib.Data.List.Basic

/-!
# `Termination.Model` — one call of `terminateService`

`terminateService` asks the provider of a data set to relay the end of its service, watches the request for a
while, and lets the payer wallet send the transaction itself only where the relay cannot land as well. The SDK,
the chain and the caller's hooks are what the call meets (`World`): each of their answers is an argument, and
the answers of the SDK carry what it promises about them. A stage `prepare` means that nothing was sent, a relay
that failed to connect sent nothing either, and a wait fails in the stage `wait` and in no other.

Transaction identifiers are what `submissionHash` makes of them; an empty or a zero one is `none`.
-/

namespace SynapS3.Termination

/-! ## What the SDK answers -/

inductive Stage where
  | prepare
  | submit
  | wait
  deriving DecidableEq

/-- `storage.TerminateServiceSubmission`. -/
structure Submission where
  transactionID : Option Nat := none
  confirmedTransactionID : Option Nat := none
  direct : Bool := false
  deriving DecidableEq

/-- `storage.TerminateServiceError`; `dial` says that its cause is a `net.OpError` of a dial. -/
structure TerminateServiceError where
  stage : Stage
  submission : Option Submission := none
  dial : Bool := false
  deriving DecidableEq

/-- What the code asks of an error of the SDK. -/
structure SdkError where
  terminate : Option TerminateServiceError := none
  notFound : Bool := false
  pending : Bool := false
  debt : Bool := false
  message : String := ""
  deriving DecidableEq

/-- A joined error, with its parts in the order in which `errors.As` visits them; no part is no error. -/
abbrev SdkErrors := List SdkError

/-- `errors.AsType[*storage.TerminateServiceError]`. -/
def terminateServiceError (err : SdkErrors) : Option TerminateServiceError := err.findSome? (·.terminate)

/-- What a wait returns. -/
structure Result where
  txHash : Option Nat := none
  confirmedTxHash : Option Nat := none
  endEpoch : Nat := 0
  deriving DecidableEq

def terminationPrepared (err : SdkErrors) : Bool := (terminateServiceError err).any (·.stage == .prepare)

def relayNeverConnected (err : SdkErrors) : Bool :=
  (terminateServiceError err).any fun failure =>
    failure.stage == .submit && failure.submission.any (!·.direct) && failure.dial

def terminationPending (err : SdkErrors) : Bool := err.any (·.pending)

def relayRequestAbsent (err : SdkErrors) : Bool := err.any (·.notFound) && !terminationPending err

/-- An answer of `SubmitTerminateService`: what it announced through `OnSubmitted` meanwhile, what it returned, and
    whether a request or a transaction left the process. -/
structure Submit where
  announced : List Submission := []
  sub : Option Submission := none
  err : SdkErrors := []
  left : Bool := true
  prepared_unsent : terminationPrepared err = true → left = false
  dial_unsent : relayNeverConnected err = true → left = false

/-- An answer of `WaitForTerminateService`. `sliceEnded` says that its own context ended and that of the call did
    not, `deadline` that no slice was left. -/
structure Wait where
  res : Option Result := none
  err : SdkErrors := []
  sliceEnded : Bool := false
  deadline : Bool := false
  stage_wait : ∀ failure, terminateServiceError err = some failure → failure.stage = .wait

/-- One submission and the waits that follow it; the last of them is at the deadline. -/
structure Attempt where
  submit : Submit
  waits : List Wait := []
  last : Wait

/-! ## What the chain and the hooks answer -/

/-- `warmstorage.DataSetInfo`. -/
structure DataSetInfo where
  payer : Nat
  pdpEndEpoch : Nat
  deriving DecidableEq

inductive Err where
  | notSent
  | transactionNotSent
  | conflict
  | paidByAnother
  | text (message : String)
  | hook (message : String)
  /-- `NormalizeProviderOperationError` of an error of the SDK. -/
  | operation (err : SdkErrors)
  | blocked (err : SdkErrors)
  | unavailable (err : SdkErrors)
  | wrap (context : String) (e : Err)
  | join (e e' : Err)
  deriving DecidableEq

def Err.is (target : Err) : Err → Bool
  | .wrap _ e => Err.is target e
  | .join e e' => Err.is target e || Err.is target e'
  | e => e == target

/-- What the call meets. -/
structure World where
  configured : Bool := true
  /-- `identity.Payer`; none for the zero address. -/
  payer : Option Nat := none
  /-- The answers of `GetDataSet`, in order: at the start, after a failed relay, after a failed direct attempt, at
      the end. -/
  firstRead : Except String (Option DataSetInfo)
  relayRead : Except String (Option DataSetInfo)
  directRead : Except String (Option DataSetInfo)
  lastRead : Except String (Option DataSetInfo)
  /-- The hooks, if they are set: their error on a hash, and their error before a direct attempt. -/
  onSubmitted : Option (Nat → Option String) := none
  beforeDirect : Option (Option String) := none
  relay : Attempt
  direct : Attempt
  /-- The context of the call was done when the relay had failed. -/
  ctxDone : Bool := false

/-! ## What the call does -/

inductive Event where
  /-- The chain was read; `running` says that it showed the service running. -/
  | read (running : Bool)
  | beforeDirect (ok : Bool)
  /-- A submission; `left` says that something left the process. -/
  | submit (direct left : Bool)
  | revealed (hash : Nat)
  | revealedConfirmed (hash : Nat)
  | relayFailed (err : SdkErrors)
  /-- A `send` ended, in this result and this error. -/
  | ended (res : Option Result) (err : SdkErrors)
  deriving DecidableEq

/-- What the call has found out about its transactions. -/
structure Evidence where
  txHash : Option Nat := none
  confirmedTxHash : Option Nat := none
  endEpoch : Option Nat := none
  receiptSuccessful : Bool := false
  deriving DecidableEq

/-- A call in progress, with the trace of what it did. -/
structure Run where
  evidence : Evidence := {}
  callbackErr : Option Err := none
  trace : List Event := []
  deriving DecidableEq

def Run.log (r : Run) (events : List Event) : Run := { r with trace := r.trace ++ events }

/-- What the call returns, with its trace. -/
structure Outcome where
  result : Option Evidence
  err : Option Err
  trace : List Event
  deriving DecidableEq

def Evidence.any (e : Evidence) : Bool := e.txHash.isSome || e.confirmedTxHash.isSome

/-- `callback`, for what `submissionHash` makes of a transaction identifier. -/
def Run.callback (w : World) (r : Run) (hash : Option Nat) : Run :=
  match hash with
  | none => r
  | some h =>
    let r := r.log [.revealed h]
    if r.evidence.txHash = some h then r
    else if r.evidence.txHash.isSome then { r with callbackErr := some .conflict }
    else
      { r with
        evidence := { r.evidence with txHash := some h }
        callbackErr := match w.onSubmitted with
          | none => r.callbackErr
          | some hook => (hook h).map .hook }

/-- The SDK tells of a submission: `callback` looks at its transaction identifier. -/
def Run.told (w : World) (r : Run) (sub : Submission) : Run :=
  (r.log (sub.confirmedTransactionID.map .revealedConfirmed).toList).callback w sub.transactionID

def Run.retained (w : World) (r : Run) (err : SdkErrors) : Run :=
  match (terminateServiceError err).bind (·.submission) with
  | none => r
  | some sub => r.told w sub

def Run.waited (w : World) (r : Run) (res : Option Result) : Run :=
  match res with
  | none => r
  | some res => (r.log (res.confirmedTxHash.map .revealedConfirmed).toList).callback w res.txHash

def Run.merge (r : Run) (res : Option Result) (directConfirmed : Bool) : Run :=
  match res with
  | none => r
  | some res =>
    if (r.evidence.txHash.isSome ∧ res.txHash.isSome ∧ r.evidence.txHash ≠ res.txHash) ∨
        (r.evidence.confirmedTxHash.isSome ∧ res.confirmedTxHash.isSome ∧
          r.evidence.confirmedTxHash ≠ res.confirmedTxHash) then
      { r with callbackErr := some .conflict }
    else
      let confirmed := directConfirmed && decide (0 < res.endEpoch) && res.confirmedTxHash.isSome
      { r with evidence :=
        { txHash := res.txHash.or r.evidence.txHash
          confirmedTxHash := res.confirmedTxHash.or r.evidence.confirmedTxHash
          endEpoch := if confirmed then some res.endEpoch else r.evidence.endEpoch
          receiptSuccessful := confirmed || r.evidence.receiptSuccessful } }

def failedSubmission (err : SdkErrors) : Option Result :=
  ((terminateServiceError err).bind (·.submission)).map fun sub =>
    { txHash := sub.transactionID, confirmedTxHash := sub.confirmedTransactionID }

/-! ## `send` -/

/-- The loop of `send`. A relay is watched in slices as long as no hash is known; one whose submission failed
    reports that error as well. -/
def waitLoop (w : World) (direct : Bool) (submitErr : SdkErrors) (last : Wait) :
    List Wait → Run → Run × Option Result × SdkErrors
  | [], r => ((r.retained w last.err).waited w last.res, last.res, if last.err = [] then [] else last.err ++ submitErr)
  | wait :: waits, r =>
    let final := direct || r.evidence.txHash.isSome || wait.deadline
    let r := (r.retained w wait.err).waited w wait.res
    if final || wait.err == [] || !wait.sliceEnded || r.callbackErr.isSome then
      (r, wait.res, if wait.err = [] then [] else wait.err ++ submitErr)
    else waitLoop w direct submitErr last waits r

/-- A failed submission is resumed only if it is a relayed one with an unknown outcome. -/
def resumable (direct : Bool) (err : SdkErrors) : Bool :=
  !direct && (terminateServiceError err).any (fun failure => failure.stage == .submit && failure.submission.isSome) &&
    !relayNeverConnected err

def Run.returned (w : World) (r : Run) (sub : Option Submission) : Run :=
  match sub with
  | none => r
  | some sub => r.told w sub

/-- `SubmitTerminateService`, and what the call hears of it. -/
def Run.submitted (w : World) (direct : Bool) (a : Submit) (r : Run) : Run :=
  Run.returned w ((a.announced.foldl (Run.told w) (r.log [.submit direct a.left])).retained w a.err) a.sub

def send (w : World) (direct : Bool) (attempt : Attempt) (r : Run) : Run × Option Result × SdkErrors :=
  let a := attempt.submit
  let r := r.submitted w direct a
  if r.callbackErr.isSome then (r, none, a.err)
  else if a.err ≠ [] then
    if resumable direct a.err then waitLoop w direct a.err attempt.last attempt.waits r else (r, none, a.err)
  else if a.sub = none then (r, none, [{ message := "data set termination returned no submission" }])
  else waitLoop w direct [] attempt.last attempt.waits r

/-! ## `terminateService` -/

/-- `recordedTermination`: the end that the chain records, or none while the service runs. -/
def recordedTermination (w : World) (read : Except String (Option DataSetInfo)) : Except Err (Option Nat) :=
  match read with
  | .error e => .error (.wrap "reading data set state" (.text e))
  | .ok none => .error (.text "reading data set state: no data set record")
  | .ok (some info) =>
    if w.payer.isSome ∧ w.payer ≠ some info.payer then .error (.wrap "reading storage service state" .paidByAnother)
    else if info.pdpEndEpoch = 0 then .ok none
    else .ok (some info.pdpEndEpoch)

def showsRunning (w : World) (read : Except String (Option DataSetInfo)) : Bool :=
  match recordedTermination w read with
  | .ok none => true
  | _ => false

def unsentTermination (e : Err) (unsent : Option Err) : Err :=
  match unsent with
  | none => e
  | some mark => .join mark e

def normalizeTerminationError (err : SdkErrors) : Err :=
  if err.any (·.debt) then .blocked err
  else if terminationPending err then .unavailable err
  else .operation err

/-- `errors.Join(callbackErr, normalizeTerminationError(ctx, err))`. -/
def callbackFailure (callbackErr : Err) (err : SdkErrors) : Err :=
  if err = [] then callbackErr else .join callbackErr (normalizeTerminationError err)

def hookError (w : World) : Option Err := (w.beforeDirect.getD none).map .hook

def Run.return (r : Run) (e : Option Err) : Outcome := ⟨some r.evidence, e, r.trace⟩

def finish (w : World) (r : Run) (res : Option Result) (usedDirect : Bool) : Outcome :=
  if res = none then r.return (some (.text "data set termination returned no result"))
  else if usedDirect then r.return none
  else
    let r := r.log [.read (showsRunning w w.lastRead)]
    match recordedTermination w w.lastRead with
    | .error e => r.return (some e)
    | .ok none => r.return none
    | .ok (some epoch) => Run.return { r with evidence := { r.evidence with endEpoch := some epoch } } none

def sendAndMerge (w : World) (direct : Bool) (attempt : Attempt) (r : Run) : Run × Option Result × SdkErrors :=
  let (r, res, err) := send w direct attempt r
  (((r.merge res (direct && err == [])).merge (failedSubmission err) false).log [.ended res err], res, err)

/-- The direct attempt after a relay that failed with `relayErr`. -/
def fallback (w : World) (relayErr : SdkErrors) (unsent : Option Err) (r : Run) : Outcome :=
  let (r, res, err) := sendAndMerge w true w.direct r
  match r.callbackErr with
  | some e => r.return (some (callbackFailure e err))
  | none =>
    if err = [] then finish w r res true
    else
      let failure := Err.wrap "direct termination failed after provider relay error"
        (.join (normalizeTerminationError relayErr) (.operation err))
      if r.evidence.any then r.return (some failure)
      else
        let r := r.log [.read (showsRunning w w.directRead)]
        match recordedTermination w w.directRead with
        | .ok (some epoch) => ⟨some { endEpoch := some epoch }, none, r.trace⟩
        | _ =>
          if terminationPrepared err then r.return (some (unsentTermination failure unsent))
          else r.return (some failure)

/-- What a failed first attempt proves was not sent. -/
def unsentMark (skipProvider : Bool) (evidence : Evidence) (err : SdkErrors) : Option Err :=
  if evidence.any then none
  else if terminationPrepared err || relayNeverConnected err then some .notSent
  else if skipProvider then none
  else some .transactionNotSent

def afterRelay (w : World) (err : SdkErrors) (unsent : Option Err) (r : Run) : Outcome :=
  let providerErr := normalizeTerminationError err
  let r := r.log [.relayFailed err, .read (showsRunning w w.relayRead)]
  match recordedTermination w w.relayRead with
  | .error e =>
    r.return (some (unsentTermination
      (.wrap "provider termination failed and service state is unknown" (.join providerErr e)) unsent))
  | .ok (some epoch) => ⟨some { endEpoch := some epoch }, none, r.trace⟩
  | .ok none =>
    -- the payer wallet transacts only when the relay cannot also land
    if !(terminationPrepared err || relayNeverConnected err) && !relayRequestAbsent err then
      r.return (some (unsentTermination providerErr unsent))
    else
      let r := r.log [.beforeDirect (hookError w).isNone]
      match hookError w with
      | some e => r.return (some (unsentTermination (.join e providerErr) unsent))
      | none => fallback w err unsent r

def attemptFirst (w : World) (skipProvider : Bool) (r : Run) : Outcome :=
  let (r, res, err) := sendAndMerge w skipProvider (if skipProvider then w.direct else w.relay) r
  match r.callbackErr with
  | some e => r.return (some (callbackFailure e err))
  | none =>
    if err = [] then finish w r res skipProvider
    else
      let unsent := unsentMark skipProvider r.evidence err
      if skipProvider || r.evidence.any || err.any (·.debt) || terminationPending err || w.ctxDone then
        r.return (some (unsentTermination (normalizeTerminationError err) unsent))
      else afterRelay w err unsent r

/-- `terminateService`. -/
def terminateService (w : World) (skipProvider : Bool) : Outcome :=
  if w.configured = false then
    ⟨none, some (.wrap "data set terminator is not configured" .notSent), []⟩
  else
    let r : Run := Run.log {} [.read (showsRunning w w.firstRead)]
    match recordedTermination w w.firstRead with
    | .error e => ⟨none, some (unsentTermination e (some .notSent)), r.trace⟩
    | .ok (some epoch) => ⟨some { endEpoch := some epoch }, none, r.trace⟩
    | .ok none =>
      if skipProvider then
        let r := r.log [.beforeDirect (hookError w).isNone]
        match hookError w with
        | some e => r.return (some (unsentTermination e (some .notSent)))
        | none => attemptFirst w skipProvider r
      else attemptFirst w skipProvider r

end SynapS3.Termination
