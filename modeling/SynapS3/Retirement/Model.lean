import SynapS3.Lib.Lts
import SynapS3.Lib.Tx

/-!
# `Retirement.Model` — terminations, their attempts and the task's checkpoint

Retiring a data set ends its service on chain, which costs a transaction. Each admission of such a transaction
is an *attempt* of the *termination* that a replacement has per role (its source, or its abandoned target). What
becomes known about a transaction is merged in two places: into the attempt's row, and into the checkpoint of
the task that carries the retirement out.

Every transaction here first locks the replacement and the data set (`authorizeTerminationEvidence`), so it is
one step. Times are left out; `unsent_at` is only compared with `NULL`.
-/

namespace SynapS3.Retirement

inductive Role where
  | source
  | abandonedTarget
  deriving DecidableEq

abbrev Key := Nat × Role

/-- `storagereplacement.TerminationAttempt`. -/
structure Attempt where
  attemptNo : Nat
  task : Option Nat := none
  txHash : Option String := none
  confirmedTxHash : Option String := none
  receiptStatus : Option Nat := none
  unsent : Bool := false
  deriving DecidableEq

def Attempt.evidence (a : Attempt) : Bool :=
  a.txHash.isSome || a.confirmedTxHash.isSome || a.receiptStatus.isSome

def Attempt.hashes (a : Attempt) : List String := a.txHash.toList ++ a.confirmedTxHash.toList

/-- `storagereplacement.Termination`, with its attempts. -/
structure Termination where
  epoch : Option Int := none
  attempts : List Attempt := []
  deriving DecidableEq

/-- `latestTerminationAttempt`: the attempt with the largest number. -/
def latestAttempt : List Attempt → Option Attempt
  | [] => none
  | a :: as =>
    match latestAttempt as with
    | none => some a
    | some b => if a.attemptNo < b.attemptNo then some b else some a

/-- Who may carry the retirement out: the data set of the role, the generation and the task of its retirement.
    There is nobody while the replacement's status does not allow it. -/
structure Authority where
  dataSet : Nat
  generation : Nat
  task : Nat
  deriving DecidableEq

/-- `synapse.TerminationResult`. -/
structure TerminationResult where
  txHash : String := ""
  confirmedTxHash : String := ""
  receiptStatus : Option Nat := none
  endEpoch : Option Int := none
  deriving DecidableEq

/-- `retirementCheckpoint`. -/
structure Checkpoint where
  terminationEpoch : Option Int := none
  txHash : String := ""
  confirmedTxHash : String := ""
  attemptNo : Nat := 0
  receiptStatus : Option Nat := none
  retryFailedTransaction : Bool := false
  retryUnresolvedRelay : Bool := false
  sends : Nat := 0
  unsent : Bool := false
  relayOnly : Bool := false
  deriving DecidableEq

def clash {α : Type} [DecidableEq α] (a b : Option α) : Bool :=
  match a, b with
  | some x, some y => x != y
  | _, _ => false

def given (s : String) : Option String := if s = "" then none else some s

/-- `mergeRetirementEvidence`; `none` is `ErrTerminationEvidenceConflict`. -/
def mergeRetirementEvidence (c : Checkpoint) (r : TerminationResult) : Option Checkpoint :=
  if clash (given c.txHash) (given r.txHash) || clash (given c.confirmedTxHash) (given r.confirmedTxHash) ||
      clash c.receiptStatus r.receiptStatus || clash c.terminationEpoch r.endEpoch then none
  else some
    { c with
      txHash := if r.txHash ≠ "" then r.txHash else c.txHash
      confirmedTxHash := if r.confirmedTxHash ≠ "" then r.confirmedTxHash else c.confirmedTxHash
      receiptStatus := r.receiptStatus <|> c.receiptStatus
      terminationEpoch := r.endEpoch <|> c.terminationEpoch }

def Checkpoint.attemptMayLand (c : Checkpoint) : Bool :=
  c.txHash != "" || c.confirmedTxHash != "" || (!c.unsent && (c.attemptNo != 0 || decide (0 < c.sends)))

def Checkpoint.relayUnresolved (c : Checkpoint) : Bool :=
  c.relayOnly && c.attemptMayLand && c.txHash == "" && c.confirmedTxHash == "" && c.receiptStatus.isNone

/-- Evidence in a checkpoint is not overwritten. -/
structure Checkpoint.Keeps (c c' : Checkpoint) : Prop where
  txHash : c.txHash ≠ "" → c'.txHash = c.txHash
  confirmedTxHash : c.confirmedTxHash ≠ "" → c'.confirmedTxHash = c.confirmedTxHash
  receiptStatus : ∀ x, c.receiptStatus = some x → c'.receiptStatus = some x
  terminationEpoch : ∀ x, c.terminationEpoch = some x → c'.terminationEpoch = some x

theorem orElse_of_not_clash {α : Type} [DecidableEq α] {a b : Option α} (h : clash a b = false) {x : α}
    (ha : a = some x) : (b <|> a) = some x := by
  subst ha
  cases b with
  | none => rfl
  | some y =>
    have : x = y := by simpa [clash] using h
    rw [this]
    rfl

theorem text_of_not_clash {s t : String} (h : clash (given s) (given t) = false) (hs : s ≠ "") :
    (if t ≠ "" then t else s) = s := by
  by_cases ht : t = ""
  · simp [ht]
  · have : s = t := by simpa [clash, given, hs, ht] using h
    simp [this]

variable {c c' : Checkpoint} {r : TerminationResult}

theorem mergeRetirementEvidence_keeps (h : mergeRetirementEvidence c r = some c') : c.Keeps c' := by
  unfold mergeRetirementEvidence at h
  split at h
  · cases h
  next hc =>
  simp only [Bool.or_eq_true, not_or, Bool.not_eq_true] at hc
  cases h
  exact ⟨text_of_not_clash hc.1.1.1, text_of_not_clash hc.1.1.2, fun x => orElse_of_not_clash hc.1.2,
    fun x => orElse_of_not_clash hc.2⟩

theorem mergeRetirementEvidence_result (h : mergeRetirementEvidence c r = some c') :
    (r.txHash ≠ "" → c'.txHash = r.txHash) ∧ (r.confirmedTxHash ≠ "" → c'.confirmedTxHash = r.confirmedTxHash) ∧
      (∀ x, r.receiptStatus = some x → c'.receiptStatus = some x) ∧
      ∀ x, r.endEpoch = some x → c'.terminationEpoch = some x := by
  unfold mergeRetirementEvidence at h
  split at h
  · cases h
  · cases h
    refine ⟨fun hne => if_pos hne, fun hne => if_pos hne, fun x hx => ?_, fun x hx => ?_⟩ <;> simp [hx]

end SynapS3.Retirement
