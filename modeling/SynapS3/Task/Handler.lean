import SynapS3.Lib.Worker
import SynapS3.Task.Engine

/-!
# `Task.Handler` — a handler as a program, and what the engine does around it

A handler works on one claim of one round: it reads the database, calls the outside, commits transactions
that check the claim first, and returns a result with closures (`Settlement`) that run in the settling
transaction. Here a handler is a `Prog.Worker`; the rounds it works on are a part of its state, reached
through a `RoundsOf`.

Whether a wait has lasted too long, an invocation ran out of time, attempts are left, or the database was
contended depends on clocks and counters that no handler reads. The engine's judgement on them is a
`Verdict`, chosen by the environment; `settleRow_round_eq` shows that whatever `commitResult` writes is
`Handled.settled` under some verdict.
-/

namespace SynapS3.Tasks

/-- How a round ended: its status and failure reason. -/
abbrev End := TaskStatus × Option String

/-- Where the rounds are in a state `σ`. -/
structure RoundsOf (σ ι κ : Type) where
  get : σ → Table (Round ι κ End)
  put : Table (Round ι κ End) → σ → σ
  get_put : ∀ rounds s, get (put rounds s) = rounds
  put_get : ∀ s, put (get s) s = s

/-- `worker.Execution`: one claim of a round, as its handler sees it. -/
structure TaskExecution (ι κ : Type) where
  id : Nat
  claimGeneration : Nat
  mode : TaskResumeMode
  input : ι
  checkpoint : Option κ
  deriving DecidableEq

def TaskExecution.key {ι κ : Type} (x : TaskExecution ι κ) : Nat × Nat := (x.id, x.claimGeneration)

def executionOf {ι κ : Type} (taskID : Nat) (r : Round ι κ End) : TaskExecution ι κ where
  id := taskID
  claimGeneration := r.token
  mode := if r.recovering then .recover else .execute
  input := r.input
  checkpoint := r.checkpoint

/-- The engine's judgement on clocks and counters that no handler reads. -/
structure Verdict where
  timedOut : Bool := false
  contended : Bool := false
  windowExpired : Bool := false
  attemptsLeft : Bool := true
  /-- How often the settlement is tried; none if the lease is not safe. -/
  tries : Nat := 1
  deriving DecidableEq

/-- `worker.Result` with its settlements. `timeoutRetryMode` is the observation window, where there is
    one. -/
structure Handled (σ : Type) where
  kind : ResultKind
  resumeMode : TaskResumeMode := .recover
  failureReason : Option String := none
  timeoutRetryMode : Option TaskResumeMode := none
  settlement : Tx RepoError σ Unit := pure ()
  onRetry : Tx RepoError σ Unit := pure ()
  onExhausted : Tx RepoError σ Unit := pure ()
  contentionSettlement : Tx RepoError σ Unit := pure ()

namespace Handled

variable {σ : Type}

def complete (settlement : Tx RepoError σ Unit) : Handled σ := { kind := .complete, settlement := settlement }

/-- `Wait`, `WaitUntil` and `WaitForObservation` without a window. -/
def wait (mode : TaskResumeMode) (settlement : Tx RepoError σ Unit) : Handled σ :=
  { kind := .wait, resumeMode := mode, settlement := settlement }

def retryInMode (reason : String) (mode : TaskResumeMode) (settlement : Tx RepoError σ Unit) : Handled σ :=
  { kind := .retry, resumeMode := mode, failureReason := some reason, settlement := settlement }

def fail (reason : String) (settlement : Tx RepoError σ Unit) : Handled σ :=
  { kind := .fail, failureReason := some reason, settlement := settlement }

def cancel (settlement : Tx RepoError σ Unit) : Handled σ := { kind := .cancel, settlement := settlement }

/-- `executeClaim`: a wait whose invocation ran out of time becomes a retry. -/
def afterTimeout (v : Verdict) (r : Handled σ) : Handled σ :=
  if v.timedOut && (r.kind == .wait || r.kind == .invalid) then
    { r with kind := .retry, resumeMode := .recover, failureReason := some "invocation_timeout"
             timeoutRetryMode := none }
  else r

/-- `executeClaim`: an error that is database contention defers the result. -/
def afterContention (v : Verdict) (r : Handled σ) : Handled σ :=
  if v.contended && (r.kind == .retry || r.kind == .fail) then
    { kind := .wait, settlement := r.contentionSettlement }
  else r

/-- `observationResult`: an expired window turns the wait into a retry. -/
def afterWindow (v : Verdict) (r : Handled σ) : Handled σ :=
  match r.kind, r.timeoutRetryMode with
  | .wait, some mode =>
    if v.windowExpired then
      { r with kind := .retry, resumeMode := mode, failureReason := some "observation_window_expired"
               timeoutRetryMode := none }
    else r
  | _, _ => r

def effective (r : Handled σ) (v : Verdict) : Handled σ := ((r.afterTimeout v).afterContention v).afterWindow v

def settled {ι κ : Type} (r : Handled σ) (v : Verdict) (round : Round ι κ End) : Round ι κ End :=
  match r.kind with
  | .complete => { round with phase := .ended (.completed, r.failureReason), recovering := true }
  | .wait => round.yield (r.resumeMode == .recover)
  | .retry => if v.attemptsLeft then round.yield (r.resumeMode == .recover)
    else { round with phase := .ended (.failed, some "attempts_exhausted"), recovering := true }
  | .fail => { round with phase := .ended (.failed, r.failureReason), recovering := true }
  | .cancel => { round with phase := .ended (.cancelled, r.failureReason), recovering := true }
  | .invalid => { round with phase := .ended (.failed, some "invalid_result"), recovering := true }

def closures (r : Handled σ) (v : Verdict) : Tx RepoError σ Unit :=
  match r.kind with
  | .retry => (if v.attemptsLeft then r.onRetry else r.onExhausted) >>= fun _ => r.settlement
  | .invalid => pure ()
  | _ => r.settlement

end Handled

/-! ## The engine's transition under a verdict -/

section Verdicts

variable {σ ι κ : Type} {policy : ExecutionPolicy} {result : Result} {r : Handled σ}

/-- What the engine sees of a handler's result. -/
structure Handled.Describes (r : Handled σ) (result : Result) : Prop where
  kind : r.kind = result.kind
  reason : r.failureReason = result.failureReason
  mode : result.resumeMode = some r.resumeMode ∨ (result.kind ≠ .wait ∧ result.kind ≠ .retry)
  window : r.timeoutRetryMode = result.observationWindow.map (·.timeoutRetryMode)

def verdictFor (policy : ExecutionPolicy) (current : Task ι κ) (result : Result) (observedAt : Int) : Verdict where
  windowExpired := result.observationWindow.any fun window =>
    decide ((observationState current window observedAt).startedAt + policy.observationWindow ≤ observedAt)
  attemptsLeft := !decide (policy.maxAttempts - 1 ≤ current.retryCount)

theorem validateResult_window (h : validateResult policy result = true) (hk : result.kind ≠ .wait) :
    result.observationWindow = none := by
  unfold validateResult at h
  simp only [Bool.and_eq_true] at h
  cases hw : result.observationWindow with
  | none => rfl
  | some window =>
    rw [hw] at h
    simp only [Bool.and_eq_true, beq_iff_eq] at h
    exact absurd h.1.2.1.1.1.1.1 hk

section

attribute [local simp] settlementTransition observationResult transitionFor settleRow Task.round Task.phase verdictFor
  Handled.effective Handled.afterTimeout Handled.afterContention Handled.afterWindow Handled.settled Round.yield

/-- **What `commitResult` writes is what the verdict says.** -/
theorem settleRow_round_eq (hv : validateResult policy result = true) (hd : r.Describes result)
    (row : Task ι κ) (pollInterval delay observedAt now : Int) :
    (settleRow (settlementTransition policy pollInterval delay row result observedAt now) now row).round =
      (r.effective (verdictFor policy row result observedAt)).settled
        (verdictFor policy row result observedAt) row.round := by
  obtain ⟨hkind, hreason, hmode, hwindow⟩ := hd
  have hresume : result.kind = .wait ∨ result.kind = .retry → result.resumeMode = some r.resumeMode := by
    rintro (hk | hk)
    · exact hmode.resolve_right fun h => h.1 hk
    · exact hmode.resolve_right fun h => h.2 hk
  cases hk : result.kind with
  | invalid => simp [validateResult, hk] at hv
  | complete | fail | cancel =>
    have hw := validateResult_window hv (by simp [hk])
    simp [hkind, hk, hw, hreason]
  | retry =>
    have hw := validateResult_window hv (by simp [hk])
    have hm := hresume (.inr hk)
    by_cases ha : policy.maxAttempts - 1 ≤ row.retryCount <;>
      simp [hkind, hk, hw, hm, ha]
  | wait =>
    have hm := hresume (.inl hk)
    cases hw : result.observationWindow with
    | none =>
      simp [hkind, hk, hw, hwindow, hm]
    | some window =>
      by_cases he : (observationState row window observedAt).startedAt + policy.observationWindow ≤ observedAt
      · -- the wait became a retry in the window's mode
        by_cases ha : policy.maxAttempts - 1 ≤ row.retryCount <;>
          simp [hkind, hk, hw, hwindow, he, ha]
      · simp [hkind, hk, hw, hwindow, hm, he]

end

/-- The last of three attempts asks for another one: the round fails. -/
theorem settleRow_round_eq_exhausted : let row : Task Unit Unit := { freshTask with retryCount := 2 }
    let result : Result := { kind := .retry, err := true, failureReason := some "x", resumeMode := some .execute }
    let r : Handled Unit := { kind := .retry, failureReason := some "x", resumeMode := .execute }
    (verdictFor ⟨3, 60, 5, 5⟩ row result 9).attemptsLeft = false ∧
      (settleRow (settlementTransition ⟨3, 60, 5, 5⟩ 5 5 row result 9 9) 9 row).round =
        (r.effective (verdictFor ⟨3, 60, 5, 5⟩ row result 9)).settled (verdictFor ⟨3, 60, 5, 5⟩ row result 9) row.round :=
  ⟨rfl, settleRow_round_eq rfl ⟨rfl, rfl, .inl rfl, rfl⟩ _ 5 5 9 9⟩

end Verdicts

section Transactions

variable {σ ι κ : Type} (L : RoundsOf σ ι κ)

/-- A write on the round of the claim `k`, provided `k` holds it. -/
def fenced (k : Nat × Nat) (f : Round ι κ End → Round ι κ End) : Tx RepoError σ Unit :=
  Tx.zoom L.get L.put (Round.fenced .taskLeaseLost k.1 k.2 f)

def holdClaim (k : Nat × Nat) : Tx RepoError σ Unit := fenced L k fun r => r

/-- The `checkpoint` closure: the claim is checked before and after the settlement. -/
def checkpointWith (k : Nat × Nat) (checkpoint : κ) (settlement : Tx RepoError σ Unit) : Tx RepoError σ Unit := do
  holdClaim L k
  settlement
  fenced L k (Round.save checkpoint)

/-- The `admit` closure: the claim is checked, and the checkpoint saved, before the settlement. -/
def admitWith (k : Nat × Nat) (checkpoint : κ) (settlement : Tx RepoError σ Unit) : Tx RepoError σ Unit := do
  fenced L k (Round.save checkpoint)
  settlement

def settleWith (k : Nat × Nat) (r : Handled σ) (v : Verdict) : Tx RepoError σ Unit := do
  holdClaim L k
  (r.effective v).closures v
  fenced L k ((r.effective v).settled v)

variable {L} {k : Nat × Nat} {s t : σ} {u : Unit} {r : Handled σ} {v : Verdict}

theorem fenced_ok {f : Round ι κ End → Round ι κ End} (h : (fenced L k f).Ok s u t) :
    ∃ r, (L.get s).row k.1 = some r ∧ r.Holds k.2 ∧ t = L.put ((L.get s).modify k.1 f) s := by
  unfold fenced at h
  rw [Tx.ok_zoom] at h
  obtain ⟨rounds, hf, rfl⟩ := h
  obtain ⟨r, hr, hh, rfl⟩ := Round.fenced_ok hf
  exact ⟨r, hr, hh, rfl⟩

def Handled.SameClosures (q r : Handled σ) : Prop :=
  q.settlement = r.settlement ∧ q.onRetry = r.onRetry ∧ q.onExhausted = r.onExhausted ∧
    q.contentionSettlement = r.contentionSettlement

theorem Handled.afterTimeout_same (v : Verdict) (r : Handled σ) : (r.afterTimeout v).SameClosures r := by
  unfold afterTimeout
  split <;> exact ⟨rfl, rfl, rfl, rfl⟩

theorem Handled.afterWindow_same (v : Verdict) (r : Handled σ) : (r.afterWindow v).SameClosures r := by
  unfold afterWindow
  split
  · split <;> exact ⟨rfl, rfl, rfl, rfl⟩
  · exact ⟨rfl, rfl, rfl, rfl⟩

/-- What ran in the settling transaction: nothing, the settlement, or the closure for the retry and then the
    settlement. -/
def Handled.Ran (r : Handled σ) (s t : σ) : Prop :=
  t = s ∨ r.settlement.Ok s () t ∨
    ∃ m, (r.onRetry.Ok s () m ∨ r.onExhausted.Ok s () m) ∧ r.settlement.Ok m () t

theorem Handled.closures_ran {q : Handled σ} (hq : q.SameClosures r) (h : (q.closures v).Ok s u t) : r.Ran s t := by
  obtain ⟨hset, hretry, hex, -⟩ := hq
  unfold closures at h
  split at h
  · rw [Tx.ok_bind] at h
    obtain ⟨_, m, hfirst, hlast⟩ := h
    rw [hset] at hlast
    refine .inr (.inr ⟨m, ?_, hlast⟩)
    split at hfirst
    · rw [← hretry]; exact .inl hfirst
    · rw [← hex]; exact .inr hfirst
  · rw [Tx.ok_pure] at h; exact .inl h.2
  · rw [hset] at h; exact .inr (.inl h)

theorem Handled.effective_closures (h : ((r.effective v).closures v).Ok s u t) :
    r.Ran s t ∨ r.contentionSettlement.Ok s () t := by
  obtain ⟨h₁, h₂, h₃, h₄⟩ := afterTimeout_same v r
  obtain ⟨w₁, w₂, w₃, w₄⟩ := afterWindow_same v ((r.afterTimeout v).afterContention v)
  have hran := closures_ran (r := (r.afterTimeout v).afterContention v) ⟨w₁, w₂, w₃, w₄⟩ h
  rcases hran with rfl | hran
  · exact .inl (.inl rfl)
  unfold afterContention at hran
  split at hran
  · -- the result was deferred: only the contention settlement ran
    right
    rw [← h₄]
    rcases hran with hran | ⟨m, hm, hran⟩
    · exact hran
    · have heq : m = s := by
        rcases hm with hm | hm <;> exact (Tx.ok_pure.mp hm).2
      rw [← heq]
      exact hran
  · left
    rcases hran with hran | ⟨m, hm, hran⟩
    · rw [h₁] at hran; exact .inr (.inl hran)
    · rw [h₁] at hran
      rw [h₂, h₃] at hm
      exact .inr (.inr ⟨m, hm, hran⟩)

/-- **Inversion of a settlement**: the claim held, the closures ran, and the round was let go of. -/
theorem settleWith_ok (h : (settleWith L k r v).Ok s u t) :
    ∃ m q, Round.Current (L.get s) k ∧ (r.Ran s m ∨ r.contentionSettlement.Ok s () m) ∧
      (L.get m).row k.1 = some q ∧ q.Holds k.2 ∧
      t = L.put ((L.get m).modify k.1 ((r.effective v).settled v)) m := by
  simp only [settleWith, holdClaim, Tx.ok_bind] at h
  obtain ⟨_, s', hhold, _, m, hclosures, hend⟩ := h
  obtain ⟨q₀, hq₀, hheld₀, rfl⟩ := fenced_ok hhold
  rw [Table.modify_self, L.put_get] at hclosures
  obtain ⟨q, hq, hheld, rfl⟩ := fenced_ok hend
  exact ⟨m, q, ⟨q₀, hq₀, hheld₀⟩, Handled.effective_closures hclosures, hq, hheld, rfl⟩

variable {c : κ} {x : Tx RepoError σ Unit}

theorem checkpointWith_ok (h : (checkpointWith L k c x).Ok s u t) :
    ∃ m q, Round.Current (L.get s) k ∧ x.Ok s () m ∧ (L.get m).row k.1 = some q ∧ q.Holds k.2 ∧
      t = L.put ((L.get m).modify k.1 (Round.save c)) m := by
  simp only [checkpointWith, holdClaim, Tx.ok_bind] at h
  obtain ⟨_, s', hhold, _, m, hset, hend⟩ := h
  obtain ⟨q₀, hq₀, hheld₀, rfl⟩ := fenced_ok hhold
  rw [Table.modify_self, L.put_get] at hset
  obtain ⟨q, hq, hheld, rfl⟩ := fenced_ok hend
  exact ⟨m, q, ⟨q₀, hq₀, hheld₀⟩, hset, hq, hheld, rfl⟩

theorem saved_ok (h : (fenced L k (Round.save c) >>= fun _ => x).Ok s u t) :
    ∃ q, (L.get s).row k.1 = some q ∧ q.Holds k.2 ∧
      x.Ok (L.put ((L.get s).modify k.1 (Round.save c)) s) () t := by
  rw [Tx.ok_bind] at h
  obtain ⟨_, m, hsave, hset⟩ := h
  obtain ⟨q, hq, hheld, rfl⟩ := fenced_ok hsave
  exact ⟨q, hq, hheld, hset⟩

theorem Handled.settled_not_holds (r : Handled σ) (v : Verdict) (round : Round ι κ End) (g : Nat) :
    ¬ (r.settled v round).Holds g := by
  unfold Handled.settled Round.Holds
  intro h
  have hphase := h.1
  split at hphase <;> try cases hphase
  split at hphase <;> cases hphase

/-- What a settlement leaves of a round: everything but its phase and its mode. -/
structure SameWork (r r' : Round ι κ End) : Prop where
  input : r'.input = r.input
  checkpoint : r'.checkpoint = r.checkpoint
  token : r'.token = r.token
  superseded : r'.superseded = r.superseded

theorem Handled.settled_sameWork (r : Handled σ) (v : Verdict) (round : Round ι κ End) :
    SameWork round (r.settled v round) := by
  unfold Handled.settled
  split
  all_goals first | exact ⟨rfl, rfl, rfl, rfl⟩ | (split <;> exact ⟨rfl, rfl, rfl, rfl⟩)

theorem settleWith_current (h : (settleWith L k r v).Ok s u t) :
    Round.Current (L.get s) k ∧ ¬ Round.Current (L.get t) k := by
  simp only [settleWith, holdClaim, Tx.ok_bind] at h
  obtain ⟨_, _, hhold, _, s', _, hend⟩ := h
  obtain ⟨q, hq, hheld, -⟩ := fenced_ok hhold
  obtain ⟨q', hq', -, rfl⟩ := fenced_ok hend
  refine ⟨⟨q, hq, hheld⟩, ?_⟩
  rintro ⟨w, hw, hwh⟩
  rw [L.get_put, Table.row_modify, if_pos rfl, hq'] at hw
  cases hw
  exact Handled.settled_not_holds _ _ _ _ hwh

end Transactions

/-! ## Programs -/

/-- What a handler's program asks: the engine's verdict, whether the attempt has admitted its effect
    before, or something outside. -/
inductive Ask (Q : Type) where
  | verdict
  | alreadyAdmitted
  | outside (q : Q)

def Ask.Reply {Q : Type} (R : Q → Type) : Ask Q → Type
  | .verdict => Verdict
  | .alreadyAdmitted => Bool
  | .outside q => R q

/-- The environment's side of one question: the answers, and what else happened outside. -/
structure Oracle (Q : Type) (R : Q → Type) (X : Type) where
  verdict : Verdict := {}
  alreadyAdmitted : Bool := false
  answer : (q : Q) → R q
  extra : X

abbrev HandlerM (σ Q : Type) (R : Q → Type) (α : Type) := Prog.Worker RepoError σ (Ask Q) (Ask.Reply R) α

section Programs

variable {σ ι κ Q X α β : Type} {R : Q → Type} (L : RoundsOf σ ι κ)

def outside (q : Q) : HandlerM σ Q R (R q) := Prog.ask (Ask.outside q)

def alreadyAdmitted : HandlerM σ Q R Bool := Prog.ask (Ask.alreadyAdmitted : Ask Q)

def verdict : HandlerM σ Q R Verdict := Prog.ask (Ask.verdict : Ask Q)

/-- `WithCheckpointedEffect`: nothing is called unless the admission was answered. -/
def withCheckpointedEffect (k : Nat × Nat) (mode : TaskResumeMode) (checkpoint : κ)
    (settlement : Tx RepoError σ Unit) (effect : HandlerM σ Q R α) : HandlerM σ Q R (Except RepoError α) :=
  if mode ≠ .execute then pure (.error .effectForbidden)
  else do
    let admitted ← alreadyAdmitted
    if admitted then pure (.error .taskEffectAlreadyAdmitted)
    else
      let answer ← Prog.commit (admitWith L k checkpoint settlement)
      match answer with
      | .error e => pure (.error e)
      | .ok () => do
        let a ← effect
        pure (.ok a)

def settleTimes (x : Tx RepoError σ Unit) : Nat → HandlerM σ Q R Unit
  | 0 => pure ()
  | n + 1 => do
    let answer ← Prog.commit x
    match answer with
    | .ok () => pure ()
    | .error _ => settleTimes x n

def executeClaim (k : Nat × Nat) (handler : HandlerM σ Q R (Handled σ)) : HandlerM σ Q R Unit := do
  let r ← handler
  let v ← verdict
  settleTimes (settleWith L k r v) v.tries

/-- What a question does: the engine's answers change nothing, `world` says what a call outside does. -/
def perform (world : Nat × Nat → (q : Q) → R q → X → σ → Option σ) (k : Nat × Nat) :
    (q : Ask Q) → Oracle Q R X → σ → Option (q.Reply R × σ)
  | .verdict, o, s => some (o.verdict, s)
  | .alreadyAdmitted, o, s => some (o.alreadyAdmitted, s)
  | .outside q, o, s => (world k q (o.answer q) o.extra s).map (o.answer q, ·)

def handlerMachine (start : σ → Prop) (world : Nat × Nat → (q : Q) → R q → X → σ → Option σ)
    (env : σ → β → Option (σ × Option ((Nat × Nat) × HandlerM σ Q R Unit))) :
    Prog.Machine σ (Nat × Nat) (Prog.Work RepoError σ (Ask Q)) (Prog.Work.Answer (Ask.Reply R))
      (Prog.Choice (Oracle Q R X)) β where
  start := start
  exec := Prog.Work.exec .commitUncertain (perform world)
  env := env

end Programs

/-! ## Endings -/

def Silent {σ : Type} (x : Tx RepoError σ Unit) : Prop := ∀ s t, x.Ok s () t → t = s

theorem silent_pure {σ : Type} : Silent (pure () : Tx RepoError σ Unit) := by
  intro s t h
  exact (Tx.ok_pure.mp h).2

section Endings

variable {σ ι κ : Type} (L : RoundsOf σ ι κ) (c : Prog.Contract σ (Nat × Nat)) (k : Nat × Nat)

/-- A closure keeps the contract, run in the settling transaction together with the write of the round. -/
def Settles (x : Tx RepoError σ Unit) (s : σ) : Prop :=
  ∀ t m q (g : Round ι κ End → Round ι κ End), c.rely k s t → c.inv t → Round.Current (L.get t) k →
    x.Ok t () m → (L.get m).row k.1 = some q → q.Holds k.2 → SameWork q (g q) →
    c.Keeps k t (L.put ((L.get m).modify k.1 g) m)

/-- What a handler owes when it returns: every settlement of its result keeps the contract. -/
def Ends (r : Handled σ) (s : σ) : Prop :=
  ∀ v t u, c.rely k s t → c.inv t → (settleWith L k r v).Ok t () u → c.Keeps k t u

variable {L c k} {s : σ} {r : Handled σ} {x : Tx RepoError σ Unit}

theorem Silent.settles (hquiet : Settles L c k (pure ()) s) (h : Silent x) : Settles L c k x s := by
  intro t m q g hr hi hc hx hq hh hg
  have heq := h t m hx
  subst heq
  exact hquiet _ _ q g hr hi hc (Tx.ok_pure.mpr ⟨rfl, rfl⟩) hq hh hg

/-- **The end of a handler**: its settlements have to be looked at. -/
theorem ends_of (hquiet : Settles L c k (pure ()) s) (hretry : Silent r.onRetry) (hex : Silent r.onExhausted)
    (hset : Settles L c k r.settlement s) (hcont : Settles L c k r.contentionSettlement s) : Ends L c k r s := by
  intro v t u hr hi h
  obtain ⟨m, q, hcur, hran, hq, hheld, rfl⟩ := settleWith_ok h
  have hwork := Handled.settled_sameWork (r.effective v) v q
  rcases hran with (heq | hran | ⟨w, hw, hran⟩) | hran
  · subst heq
    exact hquiet _ _ q _ hr hi hcur (Tx.ok_pure.mpr ⟨rfl, rfl⟩) hq hheld hwork
  · exact hset t m q _ hr hi hcur hran hq hheld hwork
  · have heq : w = t := by
      rcases hw with hw | hw
      · exact hretry t w hw
      · exact hex t w hw
    rw [heq] at hran
    exact hset t m q _ hr hi hcur hran hq hheld hwork
  · exact hcont t m q _ hr hi hcur hran hq hheld hwork

theorem ends_quiet (hquiet : Settles L c k (pure ()) s) (hretry : Silent r.onRetry) (hex : Silent r.onExhausted)
    (hset : Silent r.settlement) (hcont : Silent r.contentionSettlement) : Ends L c k r s :=
  ends_of hquiet hretry hex (hset.settles hquiet) (hcont.settles hquiet)

end Endings

section Rules

open Prog

variable {σ ι κ Q X α β γ : Type} {R : Q → Type} {L : RoundsOf σ ι κ} {start : σ → Prop}
  {world : Nat × Nat → (q : Q) → R q → X → σ → Option σ}
  {env : σ → β → Option (σ × Option ((Nat × Nat) × HandlerM σ Q R Unit))}
  {c : Contract σ (Nat × Nat)} {k : Nat × Nat} {P : α → σ → Prop} {s : σ}

theorem safe_outside {q : Q} {f : R q → HandlerM σ Q R α}
    (h : ∀ t, c.rely k s t → c.inv t → ∀ a x u, world k q a x t = some u →
      c.Keeps k t u ∧ (f a).Safe (handlerMachine start world env) c k P u) :
    (outside q >>= f).Safe (handlerMachine start world env) c k P s := by
  refine Safe.call fun t hr hi o a u hx => ?_
  obtain ⟨w, hw, heq⟩ := Option.map_eq_some_iff.mp hx
  cases heq
  exact h t hr hi (o.answer q) o.extra u hw

/-- A question that leaves the state alone. -/
theorem safe_look {q : Q} {f : R q → HandlerM σ Q R α} (hq : ∀ a x t, world k q a x t = some t)
    (h : ∀ t, c.rely k s t → c.inv t → ∀ a, (f a).Safe (handlerMachine start world env) c k P t) :
    (outside q >>= f).Safe (handlerMachine start world env) c k P s := by
  refine safe_outside fun t hr hi a x u hu => ?_
  rw [hq a x t] at hu
  cases hu
  exact ⟨.refl hi, h t hr hi a⟩

theorem safe_verdict {f : Verdict → HandlerM σ Q R α}
    (h : ∀ t, c.rely k s t → c.inv t → ∀ v, (f v).Safe (handlerMachine start world env) c k P t) :
    (verdict >>= f).Safe (handlerMachine start world env) c k P s := by
  refine Safe.call fun t hr hi o a u hx => ?_
  cases hx
  exact ⟨.refl hi, h t hr hi _⟩

theorem safe_withCheckpointedEffect {mode : TaskResumeMode} {checkpoint : κ}
    {settlement : Tx RepoError σ Unit} {effect : HandlerM σ Q R γ}
    {f : Except RepoError γ → HandlerM σ Q R α}
    (herr : ∀ t, c.rely k s t → c.inv t → ∀ e, (f (.error e)).Safe (handlerMachine start world env) c k P t)
    (hok : ∀ t u, mode = .execute → c.rely k s t → c.inv t → (admitWith L k checkpoint settlement).Ok t () u →
      c.Keeps k t u ∧ (∀ e, (f (.error e)).Safe (handlerMachine start world env) c k P u) ∧
      effect.Safe (handlerMachine start world env) c k
        (fun a w => (f (.ok a)).Safe (handlerMachine start world env) c k P w) u) (hs : c.inv s) :
    (withCheckpointedEffect L k mode checkpoint settlement effect >>= f).Safe
      (handlerMachine start world env) c k P s := by
  unfold withCheckpointedEffect
  split
  · exact herr s (c.rely_refl k s) hs _
  next hmode =>
  have hexec : mode = .execute := by simpa using hmode
  refine Safe.bind (Safe.call fun t hr hi o a u hx => ?_)
  cases hx
  refine ⟨.refl hi, ?_⟩
  split
  · exact herr t hr hi _
  refine Safe.tx fun t ht hit => ⟨fun e => ?_, fun w hw => ?_⟩
  · exact herr t (c.rely_trans k _ _ _ hr ht) hit e
  · obtain ⟨hk, hlost, heff⟩ := hok t w hexec (c.rely_trans k _ _ _ hr ht) hit hw
    refine ⟨hk, hlost _, ?_⟩
    exact Safe.bind (heff.mono fun a w' h => h)

/-- **The end of a handler.** A settlement that is tried again after an unanswered success finds its claim gone. -/
theorem safe_settles {r : Handled σ} {v : Verdict} {n : Nat}
    (hcur : ∀ s t, c.rely k s t → Round.Current (L.get t) k → Round.Current (L.get s) k)
    (h : ∀ t u, c.rely k s t → c.inv t → (settleWith L k r v).Ok t () u → c.Keeps k t u) :
    (settleTimes (settleWith L k r v) n).Safe (handlerMachine start world env) c k (fun _ _ => True) s := by
  induction n generalizing s with
  | zero => trivial
  | succ n ih =>
    refine Safe.tx fun t hr hi => ⟨fun e => ?_, fun u hu => ⟨h t u hr hi hu, ?_, trivial⟩⟩
    · exact ih fun t' u' hr' => h t' u' (c.rely_trans k _ _ _ hr hr')
    · refine ih fun t' u' hr' _ hu' => ?_
      exact absurd (hcur _ _ hr' (settleWith_current hu').1) (settleWith_current hu).2

theorem safe_executeClaim {handler : HandlerM σ Q R (Handled σ)}
    (hcur : ∀ s t, c.rely k s t → Round.Current (L.get t) k → Round.Current (L.get s) k)
    (h : handler.Safe (handlerMachine start world env) c k (Ends L c k) s) :
    (executeClaim L k handler).Safe (handlerMachine start world env) c k (fun _ _ => True) s := by
  refine Safe.bind (h.mono fun r s' hr => ?_)
  refine safe_verdict fun t ht hi v => ?_
  exact safe_settles hcur fun t' u' hr' hi' hu' => hr v t' u' (c.rely_trans k _ _ _ ht hr') hi' hu'

end Rules

end SynapS3.Tasks
