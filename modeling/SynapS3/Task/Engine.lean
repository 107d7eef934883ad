import SynapS3.Task.Fencing

/-!
# `Task.Engine` — executing claims

The engine turns a claim into an *execution*, lets the handler of the task's type run, and settles what the
handler returned. Handlers are arbitrary here: at any moment an execution may do anything the engine offers
it, in any order and with any arguments, and a settlement is any sequence of repository calls. The one thing
the engine does not leave to the handler is how an external effect starts — through
`WithCheckpointedEffect`, which first admits it.

A transaction can fail to commit, or commit without its answer arriving (`Tx.Outcome`); an execution can stop
at any point (`crash`).
-/

namespace SynapS3.Tasks

variable {ι κ : Type}

/-! ## Results and transitions -/

inductive ResultKind where
  | invalid
  | complete
  | wait
  | retry
  | fail
  | cancel
  deriving DecidableEq

/-- `worker.observationWindow`; whether the timeout error is given. -/
structure ObservationWindow where
  stageKey : String
  timeoutErr : Bool
  timeoutRetryMode : TaskResumeMode
  deriving DecidableEq

/-- `worker.Result` without its texts: `err` and `diagnostic` say whether an error is set, and the empty
    resume mode is `none`. The settlements are arguments of the transaction that runs them. -/
structure Result where
  kind : ResultKind := .invalid
  waitUntil : Option Int := none
  observationWait : Bool := false
  observationWindow : Option ObservationWindow := none
  resumeMode : Option TaskResumeMode := none
  waitReason : Option String := none
  failureReason : Option String := none
  err : Bool := false
  diagnostic : Bool := false
  workStartedAt : Option Int := none
  deriving DecidableEq

/-- `worker.ExecutionPolicy`. -/
structure ExecutionPolicy where
  maxAttempts : Nat
  observationWindow : Int
  observationInterval : Int
  waitInterval : Int
  deriving DecidableEq

def validateResult (policy : ExecutionPolicy) (result : Result) : Bool :=
  (!result.diagnostic || result.kind == .wait) &&
  (match result.observationWindow with
    | none => true
    | some window => result.kind == .wait && result.observationWait && result.waitUntil.isNone &&
        !blank window.stageKey && window.timeoutErr && decide (0 < policy.observationWindow)) &&
  match result.kind with
  | .complete | .cancel => true
  | .fail => result.err && result.failureReason.isSome
  | .wait => !result.err && result.resumeMode.isSome
  | .retry => result.err && result.failureReason.isSome && result.resumeMode.isSome
  | .invalid => false

/-- The stored observation of the stage, or a new one that starts now. -/
def observationState (current : Task ι κ) (window : ObservationWindow) (now : Int) : TaskObservation :=
  match current.runtime.observation with
  | some state => if state.key = window.stageKey then state else ⟨window.stageKey, now⟩
  | none => ⟨window.stageKey, now⟩

/-- `observationResult`: an expired window turns the wait into a retry in the mode the window names. -/
def observationResult (policy : ExecutionPolicy) (current : Task ι κ) (result : Result) (now : Int) :
    Result × Option TaskObservation :=
  match result.observationWindow with
  | none => (result, none)
  | some window =>
    let state := observationState current window now
    let deadline := state.startedAt + policy.observationWindow
    if deadline ≤ now then
      ({ result with
          kind := .retry, resumeMode := some window.timeoutRetryMode, err := true, diagnostic := false
          failureReason := some "observation_window_expired", waitReason := none
          observationWindow := none }, none)
    else
      ({ result with waitUntil := some (min deadline (now + policy.observationInterval)) }, some state)

/-- `transitionFor`. `delay` is the backoff before the next attempt. An invalid result has no status, which
    `Settle` refuses like the running one given here. -/
def transitionFor (policy : ExecutionPolicy) (pollInterval delay : Int) (claimed : Task ι κ)
    (result : Result) (now : Int) : TaskTransition :=
  let base : TaskTransition :=
    { workStartedAt := result.workStartedAt, status := .running, resumeMode := .recover
      waitReason := result.waitReason, failureReason := result.failureReason }
  match result.kind with
  | .complete => { base with status := .completed, observation := some none }
  | .wait =>
    let interval := if result.observationWait then policy.observationInterval
      else if 0 < policy.waitInterval then policy.waitInterval else pollInterval
    { base with
      status := .pending, resumeMode := result.resumeMode.getD .recover
      availableAt := some (match result.waitUntil with
        | some at_ => max at_ now
        | none => now + interval) }
  | .retry =>
    if policy.maxAttempts - 1 ≤ claimed.retryCount then
      { base with status := .failed, failureReason := some "attempts_exhausted", observation := some none }
    else
      { base with
        status := .pending, resumeMode := result.resumeMode.getD .recover, incrementRetry := true
        availableAt := some (now + delay), observation := some none }
  | .fail => { base with status := .failed, observation := some none }
  | .cancel => { base with status := .cancelled, observation := some none }
  | .invalid => base

/-! ## Transactions of an execution -/

def runCalls : List (Call ι κ) → TaskTx ι κ (List Event)
  | [] => pure []
  | c :: cs => do
    let ev ← c.run
    let evs ← runCalls cs
    pure (ev.toList ++ evs)

def checkpointCalls (id generation : Nat) (checkpoint : κ) (settlement : List (Call ι κ))
    (startWork : Option Int) : List (Call ι κ) :=
  .validateClaim id generation :: settlement ++ [.writeCheckpoint id generation checkpoint] ++
    (startWork.map fun at_ => .markWorkStarted id generation (some at_)).toList

def admitCalls (id generation : Nat) (key : String) (checkpoint : κ) (settlement : List (Call ι κ)) :
    List (Call ι κ) :=
  .admitEffect id generation key checkpoint :: settlement

def resolveCalls (id generation : Nat) (key : String) (checkpoint : κ) (settlement : List (Call ι κ)) :
    List (Call ι κ) :=
  .resolveOperation id generation key :: .writeCheckpoint id generation checkpoint :: settlement

/-- The transition a result settles to: `observationResult` at the first read, `transitionFor` at the second,
    and the observation window kept unless the transition already clears it. -/
def settlementTransition (policy : ExecutionPolicy) (pollInterval delay : Int) (current : Task ι κ)
    (result : Result) (observedAt now : Int) : TaskTransition :=
  let effective := observationResult policy current result observedAt
  let transition := transitionFor policy pollInterval delay current effective.1 now
  match effective.2, transition.observation with
  | some state, none => { transition with observation := some (some state) }
  | _, _ => transition

/-- One attempt of `commitResult`: the settlements run between the claim check and `Settle`. -/
def commitResult (policy : ExecutionPolicy) (pollInterval delay : Int) (id generation : Nat)
    (result : Result) (settlement : List (Call ι κ)) : TaskTx ι κ (List Event) := do
  validateClaim id generation
  let current ← getByID id
  let current ← Tx.orFail current .taskLeaseLost
  let observedAt ← readClock
  let now ← readClock
  let transition := settlementTransition policy pollInterval delay current result observedAt now
  let evs ← runCalls settlement
  settle id generation transition
  pure (evs ++ [.settled id generation transition])

/-! ## The engine as a system -/

open Tx (Outcome)

/-- An invocation of a handler: the claim it was given, and the keys of the effects whose admission has
    been answered and whose callback has not started yet. -/
structure Execution where
  id : Nat
  generation : Nat
  mode : TaskResumeMode
  admitted : List String := []
  deriving DecidableEq

/-- The database, the log, and the invocations in progress in all processes. -/
structure EngineState (ι κ : Type) where
  db : TaskDb ι κ
  log : List Event
  executions : List Execution

/-- What can happen next. `i` is the index of an execution. -/
inductive Act (ι κ : Type) where
  | claim (leaseDuration : Int) (filter : TaskClaimFilter) (locked : List Nat) (outcome : Outcome)
  /-- A call outside any claim: the service, the API, the scheduler. -/
  | background (c : Call ι κ)
  | renewLease (i : Nat) (leaseDuration : Int)
  | markWorkStarted (i : Nat) (startedAt : Int)
  | checkpoint (i : Nat) (checkpoint : κ) (settlement : List (Call ι κ)) (startWork : Option Int)
      (outcome : Outcome)
  | observe (i : Nat) (key : String) (outcome : Outcome)
  | resolve (i : Nat) (key : String) (checkpoint : κ) (settlement : List (Call ι κ)) (outcome : Outcome)
  /-- `WithCheckpointedEffect` up to the answer of the admission. -/
  | admission (i : Nat) (key : String) (checkpoint : κ) (settlement : List (Call ι κ)) (outcome : Outcome)
  /-- `WithCheckpointedEffect` calls the effect. -/
  | startEffect (i : Nat) (key : String)
  | commit (i : Nat) (policy : ExecutionPolicy) (pollInterval delay : Int) (result : Result)
      (settlement : List (Call ι κ)) (outcome : Outcome)
  /-- `abandonClaim`, now or later through the recovery queue. -/
  | abandon (i : Nat) (pollInterval : Int) (outcome : Outcome)
  | crash (i : Nat)

def EngineState.transact (s : EngineState ι κ) (ticks : List Nat) (tx : TaskTx ι κ (List Event)) :
    Option (EngineState ι κ) :=
  match tx { s.db with ticks := ticks } with
  | .ok (evs, db) => some { s with db := db, log := s.log ++ evs }
  | .error _ => none

/-- Commit `tx` as `outcome` says. A refusal and a failed commit change nothing; `done` is what the caller
    does with the answer of a commit that it heard of. -/
def EngineState.commitTx (s : EngineState ι κ) (ticks : List Nat) (outcome : Outcome)
    (tx : TaskTx ι κ (List Event)) (done : EngineState ι κ → EngineState ι κ) : EngineState ι κ :=
  match outcome with
  | .failed => s
  | .lost => (s.transact ticks tx).getD s
  | .ok => match s.transact ticks tx with
    | some s' => done s'
    | none => s

/-- `ClaimNext`, and the execution of what it claimed if the dispatcher heard of it. -/
def EngineState.claimNext (s : EngineState ι κ) (ticks : List Nat) (outcome : Outcome)
    (leaseDuration : Int) (filter : TaskClaimFilter) (locked : List Nat) : EngineState ι κ :=
  match outcome, Tasks.claimNext leaseDuration filter locked { s.db with ticks := ticks } with
  | .failed, _ | _, .error _ => s
  | _, .ok (none, db) => { s with db := db }
  | .lost, .ok (some (id, task), db) =>
    { s with db := db, log := s.log ++ [.claimed id task.claimGeneration task.resumeMode] }
  | .ok, .ok (some (id, task), db) =>
    { s with
      db := db
      log := s.log ++ [.claimed id task.claimGeneration task.resumeMode]
      executions := s.executions ++ [⟨id, task.claimGeneration, task.resumeMode, []⟩] }

def EngineState.step (s : EngineState ι κ) (ticks : List Nat) : Act ι κ → Option (EngineState ι κ)
  | .claim dur filter locked outcome => some (s.claimNext ticks outcome dur filter locked)
  | .background c =>
    match c with
    | .wake .. | .enqueue .. | .acknowledgeFailed .. | .acknowledgeQuery .. | .supersedeTerminal .. =>
      some (s.commitTx ticks .ok (runCalls [c]) fun s' => s')
    | _ => none
  | .renewLease i dur => do
    let e ← s.executions[i]?
    pure (s.commitTx ticks .ok (runCalls [.renewLease e.id e.generation dur]) fun s' => s')
  | .markWorkStarted i at_ => do
    let e ← s.executions[i]?
    pure (s.commitTx ticks .ok (runCalls [.markWorkStarted e.id e.generation (some at_)]) fun s' => s')
  | .checkpoint i checkpoint settlement startWork outcome => do
    let e ← s.executions[i]?
    pure (s.commitTx ticks outcome
      (runCalls (checkpointCalls e.id e.generation checkpoint settlement startWork)) fun s' => s')
  | .observe i key outcome => do
    let e ← s.executions[i]?
    pure (s.commitTx ticks outcome (runCalls [.observeOperation e.id e.generation key]) fun s' => s')
  | .resolve i key checkpoint settlement outcome => do
    let e ← s.executions[i]?
    pure (s.commitTx ticks outcome
      (runCalls (resolveCalls e.id e.generation key checkpoint settlement)) fun s' => s')
  | .admission i key checkpoint settlement outcome => do
    let e ← s.executions[i]?
    -- recovery answers `ErrEffectForbidden` before anything is written
    if e.mode = .recover then pure s
    else pure (s.commitTx ticks outcome
      (runCalls (admitCalls e.id e.generation key checkpoint settlement)) fun s' =>
        { s' with executions := s'.executions.set i { e with admitted := key :: e.admitted } })
  | .startEffect i key => do
    let e ← s.executions[i]?
    if e.admitted.contains key then
      pure { s with
        log := s.log ++ [.effectStarted e.id e.generation key]
        executions := s.executions.set i { e with admitted := e.admitted.erase key } }
    else none
  | .commit i policy pollInterval delay result settlement outcome => do
    let e ← s.executions[i]?
    if validateResult policy result then
      pure (s.commitTx ticks outcome
        (commitResult policy pollInterval delay e.id e.generation result settlement) fun s' =>
          { s' with executions := s'.executions.eraseIdx i })
    else none
  | .abandon i pollInterval outcome => do
    let e ← s.executions[i]?
    let rest := { s with executions := s.executions.eraseIdx i }
    pure (rest.commitTx ticks outcome (runCalls [.shortenLease e.id e.generation pollInterval]) fun s' => s')
  | .crash i => do
    let _ ← s.executions[i]?
    pure { s with executions := s.executions.eraseIdx i }

def engineLts (ι κ : Type) : Lts (EngineState ι κ) (Act ι κ × List Nat) where
  init s := s.db.tasks = Table.empty ∧ s.log = [] ∧ s.executions = []
  step s a := s.step a.2 a.1

/-! ## Recovery until a settlement says otherwise -/

/-- What an event says about the resume mode of `id`: an admission demands recovery, a settlement that
    names execute lifts the demand. -/
def Event.demand (id : Nat) (pending : Bool) : Event → Bool
  | .admitted id' _ _ => id' == id || pending
  | .settled id' _ tr => pending && !(id' == id && tr.resumeMode == .execute)
  | .claimed .. | .effectStarted .. => pending

/-- Whether, after `log`, an admitted effect of `id` is still unaccounted for. -/
def mustRecover (log : List Event) (id : Nat) : Bool := log.foldl (Event.demand id) false

theorem mustRecover_append (log evs : List Event) (id : Nat) :
    mustRecover (log ++ evs) id = evs.foldl (Event.demand id) (mustRecover log id) :=
  List.foldl_append

variable {id g : Nat} {log evs : List Event} {c : Call ι κ} {s' t : TaskDb ι κ} {pre : List Event}
  {key : String} {ev : Option Event} {db : TaskDb ι κ}

theorem mustRecover_of_admitted {mid : List Event}
    (hmid : ∀ g' tr, Event.settled id g' tr ∈ mid → tr.resumeMode ≠ .execute) :
    mustRecover (pre ++ .admitted id g key :: mid) id = true := by
  rw [mustRecover_append, List.foldl_cons]
  have hstart : Event.demand id (mustRecover pre id) (.admitted id g key) = true := by
    simp [Event.demand]
  rw [hstart]
  induction mid with
  | nil => rfl
  | cons e mid ih =>
    have he : Event.demand id true e = true := by
      cases e with
      | settled id' g' tr =>
        simp only [Event.demand, Bool.true_and, Bool.not_eq_true', Bool.and_eq_false_iff]
        by_cases hid : id' = id
        · subst hid
          exact .inr (beq_eq_false_iff_ne.mpr (hmid g' tr (List.mem_cons_self ..)))
        · exact .inl (beq_eq_false_iff_ne.mpr hid)
      | claimed => rfl
      | admitted => simp [Event.demand]
      | effectStarted => rfl
    rw [List.foldl_cons, he]
    exact ih fun g' tr hm => hmid g' tr (List.mem_cons_of_mem _ hm)

/-- While an admitted effect of a task is unaccounted for its row stays in recovery, and every claim logged
    in that time was a recovery. -/
structure ResumeInv (db : TaskDb ι κ) (log : List Event) : Prop where
  row : ∀ id, mustRecover log id = true → ∃ r, db.tasks.row id = some r ∧ r.resumeMode = .recover
  claims : ∀ pre post id g mode, log = pre ++ .claimed id g mode :: post → mustRecover pre id = true →
    mode = .recover

variable {post : List Event} {now : Int} {r : Task ι κ} {db' : TaskDb ι κ} {settlement : List (Call ι κ)}
  {ticks : List Nat} {i : Nat}

theorem split_snoc {ev e : Event} (h : log ++ [ev] = pre ++ e :: post) :
    (∃ post', log = pre ++ e :: post') ∨ (pre = log ∧ ev = e) := by
  rcases List.eq_nil_or_concat post with rfl | ⟨post', x, rfl⟩
  · right
    have := List.append_inj' h (by simp)
    exact ⟨this.1.symm, by simpa using this.2⟩
  · left
    rw [List.concat_eq_append, ← List.cons_append, ← List.append_assoc] at h
    exact ⟨post', (List.append_inj' h (by simp)).1⟩

theorem RowStep.recover {r' : Task ι κ} (h : RowStep c now id r r' ev) {pending : Bool}
    (hr : pending = true → r.resumeMode = .recover) (hd : ev.toList.foldl (Event.demand id) pending = true) :
    r'.resumeMode = .recover := by
  cases h with
  | claimed _ _ _ heq =>
    have hp : pending = true := hd
    subst heq
    simp only [claimRow, hr hp, ite_self]
  | fenced _ _ _ _ _ hmode hev =>
    rcases hev with rfl | ⟨key, rfl, hrec⟩
    · have hp : pending = true := hd
      rcases hmode with hm | hm
      · rw [hm, hr hp]
      · exact hm
    · exact hrec
  | @settled g tr _ _ _ heq =>
    subst heq
    have hd' : Event.demand id pending (.settled id g tr) = true := hd
    simp only [Event.demand, beq_self_eq_true, Bool.true_and, Bool.and_eq_true, Bool.not_eq_true',
      beq_eq_false_iff_ne] at hd'
    show tr.resumeMode = .recover
    cases hm : tr.resumeMode with
    | recover => rfl
    | execute => exact absurd hm hd'.2
  | kept _ hmode _ hev =>
    have hp : pending = true := by
      cases ev with
      | none => exact hd
      | some e =>
        have hne := hev e rfl
        cases e with
        | claimed => exact hd
        | effectStarted => exact hd
        | admitted id' g key =>
          have hid : id' ≠ id := hne
          simpa [Event.demand, hid] using hd
        | settled id' g tr =>
          simp only [Option.toList, List.foldl_cons, List.foldl_nil, Event.demand,
            Bool.and_eq_true] at hd
          exact hd.1
    rw [hmode, hr hp]

theorem Effect.row_of_event {s : TaskDb ι κ} {e : Event} (h : Effect c s (some e) s') :
    ∃ r, s.tasks.row e.taskID = some r := by
  cases h with
  | claimed _ _ hcl => exact ⟨_, hcl.row⟩
  | admitted _ hf => exact ⟨_, hf.row⟩
  | settled _ _ hf => exact ⟨_, hf.row⟩

theorem Effect.claimed_mode {s : TaskDb ι κ} {mode : TaskResumeMode}
    (h : Effect c s (some (.claimed id g mode)) s') (hrow : s.tasks.row id = some r)
    (hr : r.resumeMode = .recover) : mode = .recover := by
  cases h with
  | claimed _ _ hcl =>
    obtain rfl := Option.some.inj (hcl.row.symm.trans hrow)
    simp only [claimRow, hr, ite_self]

theorem resumeInv_effect (hi : ResumeInv db log) (h : Effect c db ev db') : ResumeInv db' (log ++ ev.toList) := by
  refine ⟨fun id hd => ?_, fun pre post id g mode hsplit hd => ?_⟩
  · rw [mustRecover_append] at hd
    cases hrow : db.tasks.row id with
    | some r =>
      obtain ⟨r', hr', hstep⟩ := h.row_step hrow
      refine ⟨r', hr', hstep.fence.recover (fun hp => ?_) hd⟩
      obtain ⟨q, hq, hm⟩ := hi.row id hp
      obtain rfl : q = r := Option.some.inj (hq.symm.trans hrow)
      exact hm
    | none =>
      -- a task without a row has no admission behind it, so the event would have to be its first
      have hp : mustRecover log id = false := by
        rw [← Bool.not_eq_true]
        intro hp
        obtain ⟨q, hq, -⟩ := hi.row id hp
        rw [hq] at hrow
        cases hrow
      rw [hp] at hd
      cases ev with
      | none => cases hd
      | some e =>
        obtain ⟨q, hq⟩ := h.row_of_event
        cases e with
        | admitted id' g key =>
          have hid : id' = id := by simpa [Event.demand] using hd
          subst hid
          cases hrow.symm.trans hq
        | claimed => cases hd
        | settled => simp [Event.demand] at hd
        | effectStarted => cases hd
  · cases ev with
    | none =>
      rw [Option.toList, List.append_nil] at hsplit
      exact hi.claims pre post id g mode hsplit hd
    | some e =>
      rcases split_snoc hsplit with ⟨post', hold⟩ | ⟨rfl, rfl⟩
      · exact hi.claims pre post' id g mode hold hd
      · obtain ⟨r, hr, hm⟩ := hi.row id hd
        exact h.claimed_mode hr hm

/-! ## Transactions as sequences of calls -/

/-- The effects of a sequence of calls. -/
inductive Moves : TaskDb ι κ → List Event → TaskDb ι κ → Prop
  | nil (s : TaskDb ι κ) : Moves s [] s
  | cons {c : Call ι κ} {s t u : TaskDb ι κ} {ev : Option Event} {evs : List Event} :
      Effect c s ev t → Moves t evs u → Moves s (ev.toList ++ evs) u

theorem Moves.trans {s u : TaskDb ι κ} {evs' : List Event} (h : Moves s evs t) (h' : Moves t evs' u) :
    Moves s (evs ++ evs') u := by
  induction h with
  | nil => exact h'
  | cons he _ ih => rw [List.append_assoc]; exact .cons he (ih h')

section

variable {s : TaskDb ι κ}

theorem Moves.single (h : Effect c s ev t) : Moves s ev.toList t := by
  simpa using Moves.cons h (.nil t)

theorem Moves.of_read (h : readClock.Ok s now t) : Moves s [] t := by
  obtain ⟨hle, rfl, htasks⟩ := readClock_ok h
  exact Moves.single (.background (c := .wake fun _ _ => false) rfl (Background.of_tasks htasks hle))

theorem validateClaim_moves {u : Unit} (h : (validateClaim id g).Ok s u s') : Moves s [] s' := by
  obtain ⟨-, r, hr⟩ := validateClaim_ok h
  exact Moves.single (.of_sameClaim (c := .validateClaim id g) rfl hr (SameClaim.refl r) (.inl rfl) (.inl rfl) rfl
    (.kept nofun rfl rfl))

theorem settle_moves {tr : TaskTransition} {u : Unit} (h : (settle id g tr).Ok s u s') :
    Moves s [.settled id g tr] s' := by
  obtain ⟨hvalid, r, hr⟩ := settle_ok h
  exact Moves.single
    (.settled (c := .settle id g tr) rfl (validTaskTransition_not_running hvalid) hr)

theorem runCalls_moves {cs : List (Call ι κ)} (h : (runCalls cs).Ok s evs s') :
    Moves s evs s' := by
  induction cs generalizing s evs with
  | nil =>
    simp only [runCalls, Tx.ok_pure] at h
    obtain ⟨rfl, rfl⟩ := h
    exact .nil _
  | cons c cs ih =>
    simp only [runCalls, Tx.ok_bind, Tx.ok_pure] at h
    obtain ⟨ev, t, hc, evs', u, hcs, rfl, rfl⟩ := h
    exact .cons (Call.run_effect hc) (ih hcs)

theorem commitResult_moves {policy : ExecutionPolicy} {poll delay : Int} {result : Result}
    (h : (commitResult policy poll delay id g result settlement).Ok s evs s') : Moves s evs s' := by
  simp only [commitResult, getByID, Tx.ok_bind, Tx.ok_read, Tx.ok_pure, Tx.ok_orFail] at h
  obtain ⟨_, t₁, hval, _, _, ⟨_, _, ⟨rfl, rfl⟩, rfl, rfl⟩, row, _, ⟨_, rfl⟩, now, t₂, hread₁, now', t₃,
    hread₂, evs', t₄, hrun, _, t₅, hsettle, rfl, rfl⟩ := h
  have hreads := (Moves.of_read hread₁).trans (Moves.of_read hread₂)
  exact ((validateClaim_moves hval).trans hreads).trans ((runCalls_moves hrun).trans (settle_moves hsettle))

theorem resumeInv_moves (hi : ResumeInv db log) (h : Moves db evs db') : ResumeInv db' (log ++ evs) := by
  induction h generalizing log with
  | nil => rwa [List.append_nil]
  | cons he _ ih => rw [← List.append_assoc]; exact ih (resumeInv_effect hi he)

theorem Moves.no_effectStarted (h : Moves s evs t) (id g : Nat) (key : String) :
    Event.effectStarted id g key ∉ evs := by
  induction h with
  | nil => exact List.not_mem_nil
  | cons he _ ih =>
    rw [List.mem_append, not_or]
    refine ⟨fun hm => ?_, ih⟩
    cases he <;> simp at hm

end

/-! ## Effects start after their admission -/

/-- An execution may start an effect only in execute mode, after its admission committed. -/
structure EngineInv (s : EngineState ι κ) : Prop where
  resume : ResumeInv s.db s.log
  claimed : ∀ e ∈ s.executions, Event.claimed e.id e.generation e.mode ∈ s.log
  admitted : ∀ e ∈ s.executions, ∀ key ∈ e.admitted,
    e.mode = .execute ∧ Event.admitted e.id e.generation key ∈ s.log
  effects : ∀ pre post id g key, s.log = pre ++ .effectStarted id g key :: post →
    Event.admitted id g key ∈ pre ∧ Event.claimed id g .execute ∈ pre

theorem split_append {e : Event} (h : log ++ evs = pre ++ e :: post) :
    (∃ post', log = pre ++ e :: post') ∨ e ∈ evs := by
  rcases List.append_eq_append_iff.mp h with ⟨mid, rfl, hevs⟩ | ⟨mid, rfl, hpost⟩
  · exact .inr (by rw [hevs]; simp)
  cases mid with
  | nil => exact .inr (by rw [List.nil_append] at hpost; rw [← hpost]; simp)
  | cons x mid =>
    rw [List.cons_append, List.cons.injEq] at hpost
    exact .inl ⟨mid, by rw [hpost.1]⟩

variable {s : EngineState ι κ}

theorem EngineInv.grow (hi : EngineInv s)
    (h : Moves { s.db with ticks := ticks } evs db) : EngineInv { s with db := db, log := s.log ++ evs } := by
  have hres : ResumeInv { s.db with ticks := ticks } s.log := ⟨hi.resume.row, hi.resume.claims⟩
  refine ⟨resumeInv_moves hres h, fun e he => ?_, fun e he key hk => ?_,
    fun pre post id g key hsplit => ?_⟩
  · exact List.mem_append_left _ (hi.claimed e he)
  · exact ⟨(hi.admitted e he key hk).1, List.mem_append_left _ (hi.admitted e he key hk).2⟩
  · rcases split_append hsplit with ⟨post', hold⟩ | hnew
    · exact hi.effects pre post' id g key hold
    · exact absurd hnew (h.no_effectStarted id g key)

theorem EngineInv.drop (hi : EngineInv s) {es : List Execution}
    (hes : ∀ e ∈ es, e ∈ s.executions) : EngineInv { s with executions := es } :=
  ⟨hi.resume, fun e he => hi.claimed e (hes e he), fun e he => hi.admitted e (hes e he), hi.effects⟩

theorem EngineInv.commitTx (hi : EngineInv s) {outcome : Outcome}
    {tx : TaskTx ι κ (List Event)} {done : EngineState ι κ → EngineState ι κ}
    (htx : ∀ d evs d', tx.Ok d evs d' → Moves d evs d')
    (hdone : ∀ evs db, tx.Ok { s.db with ticks := ticks } evs db →
      EngineInv { s with db := db, log := s.log ++ evs } → EngineInv (done { s with db := db, log := s.log ++ evs })) :
    EngineInv (s.commitTx ticks outcome tx done) := by
  cases hrun : tx { s.db with ticks := ticks } with
  | error e =>
    have htr : s.transact ticks tx = none := by simp [EngineState.transact, hrun]
    cases outcome <;> simp only [EngineState.commitTx, htr, Option.getD_none] <;> exact hi
  | ok p =>
    obtain ⟨evs, db⟩ := p
    have htr : s.transact ticks tx = some { s with db := db, log := s.log ++ evs } := by
      simp [EngineState.transact, hrun]
    have hgrown := hi.grow (htx _ _ _ hrun)
    cases outcome with
    | failed => exact hi
    | lost => simp only [EngineState.commitTx, htr, Option.getD_some]; exact hgrown
    | ok => simp only [EngineState.commitTx, htr]; exact hdone evs db hrun hgrown

theorem EngineInv.runCalls (hi : EngineInv s) (ticks : List Nat) (outcome : Outcome)
    (cs : List (Call ι κ)) : EngineInv (s.commitTx ticks outcome (runCalls cs) fun s' => s') :=
  hi.commitTx (fun _ _ _ => runCalls_moves) fun _ _ _ h => h

theorem EngineInv.claimNext (hi : EngineInv s) (ticks : List Nat)
    (outcome : Outcome) (dur : Int) (filter : TaskClaimFilter) (locked : List Nat) :
    EngineInv (s.claimNext ticks outcome dur filter locked) := by
  unfold EngineState.claimNext
  have hcall : ∀ a db, (Tasks.claimNext dur filter locked).Ok { s.db with ticks := ticks } a db →
      Moves { s.db with ticks := ticks }
        (a.map fun t => Event.claimed t.1 t.2.claimGeneration t.2.resumeMode).toList db := by
    intro a db h
    refine Moves.single (Call.run_effect (c := .claimNext dur filter locked) ?_)
    simp only [Call.run, Tx.ok_bind, Tx.ok_pure]
    exact ⟨a, db, h, rfl, rfl⟩
  split
  · exact hi
  · exact hi
  · next db _ hrun => simpa using hi.grow (hcall none db hrun)
  · next id task db hrun => exact hi.grow (hcall (some (id, task)) db hrun)
  · next id task db hrun =>
    have hgrown := hi.grow (hcall (some (id, task)) db hrun)
    refine ⟨hgrown.resume, fun e he => ?_, fun e he => ?_, hgrown.effects⟩
    · rcases List.mem_append.mp he with he | he
      · exact hgrown.claimed e he
      · obtain rfl := List.mem_singleton.mp he
        exact List.mem_concat_self
    · rcases List.mem_append.mp he with he | he
      · exact hgrown.admitted e he
      · obtain rfl := List.mem_singleton.mp he
        exact fun key hk => absurd hk List.not_mem_nil

theorem admitCalls_logged {checkpoint : κ} {s : TaskDb ι κ}
    (h : (runCalls (admitCalls id g key checkpoint settlement)).Ok s evs s') :
    Event.admitted id g key ∈ evs := by
  simp only [admitCalls, Tasks.runCalls, Call.run, Tx.ok_bind, Tx.ok_pure] at h
  obtain ⟨_, _, ⟨_, _, _, rfl, rfl⟩, _, _, _, rfl, rfl⟩ := h
  simp

theorem EngineInv.admission (hi : EngineInv s) {e : Execution}
    (he : s.executions[i]? = some e) (hmode : e.mode ≠ .recover) (ticks : List Nat) (outcome : Outcome)
    (key : String) (checkpoint : κ) (settlement : List (Call ι κ)) :
    EngineInv (s.commitTx ticks outcome
      (Tasks.runCalls (admitCalls e.id e.generation key checkpoint settlement)) fun s' =>
        { s' with executions := s'.executions.set i { e with admitted := key :: e.admitted } }) := by
  refine hi.commitTx (fun _ _ _ => runCalls_moves) fun evs db hrun hgrown => ?_
  have hmem : e ∈ s.executions := List.mem_of_getElem? he
  have hexec : e.mode = .execute := by
    cases hm : e.mode with
    | execute => rfl
    | recover => exact absurd hm hmode
  refine ⟨hgrown.resume, fun e' he' => ?_, fun e' he' key' hk' => ?_, hgrown.effects⟩
  · rcases List.mem_or_eq_of_mem_set he' with he' | rfl
    · exact hgrown.claimed e' he'
    · exact hgrown.claimed e hmem
  · rcases List.mem_or_eq_of_mem_set he' with he' | rfl
    · exact hgrown.admitted e' he' key' hk'
    · refine ⟨hexec, ?_⟩
      rcases List.mem_cons.mp hk' with rfl | hk'
      · exact List.mem_append_right _ (admitCalls_logged hrun)
      · exact (hgrown.admitted e hmem key' hk').2

theorem EngineInv.startEffect (hi : EngineInv s) {e : Execution}
    (he : s.executions[i]? = some e) (hk : key ∈ e.admitted) :
    EngineInv { s with
      log := s.log ++ [.effectStarted e.id e.generation key]
      executions := s.executions.set i { e with admitted := e.admitted.erase key } } := by
  have hmem : e ∈ s.executions := List.mem_of_getElem? he
  obtain ⟨hexec, hadm⟩ := hi.admitted e hmem key hk
  have hcl := hi.claimed e hmem
  rw [hexec] at hcl
  refine ⟨⟨fun id hd => hi.resume.row id ?_, fun pre post id g mode hsplit hd => ?_⟩,
    fun e' he' => ?_, fun e' he' key' hk' => ?_, fun pre post id g key' hsplit => ?_⟩
  · rwa [mustRecover_append] at hd
  · rcases split_snoc hsplit with ⟨post', hold⟩ | ⟨_, hbad⟩
    · exact hi.resume.claims pre post' id g mode hold hd
    · cases hbad
  · rcases List.mem_or_eq_of_mem_set he' with he' | rfl
    · exact List.mem_append_left _ (hi.claimed e' he')
    · exact List.mem_append_left _ (hi.claimed e hmem)
  · rcases List.mem_or_eq_of_mem_set he' with he' | rfl
    · exact ⟨(hi.admitted e' he' key' hk').1, List.mem_append_left _ (hi.admitted e' he' key' hk').2⟩
    · have hk'' := hi.admitted e hmem key' (List.mem_of_mem_erase hk')
      exact ⟨hk''.1, List.mem_append_left _ hk''.2⟩
  · rcases split_snoc hsplit with ⟨post', hold⟩ | ⟨rfl, heq⟩
    · exact hi.effects pre post' id g key' hold
    · cases heq
      exact ⟨hadm, hcl⟩

/-- **Every step of the engine keeps its invariant.** -/
theorem engineInv_step {s s' : EngineState ι κ} {a : Act ι κ × List Nat} (hi : EngineInv s)
    (h : (engineLts ι κ).step s a = some s') : EngineInv s' := by
  obtain ⟨act, ticks⟩ := a
  simp only [engineLts] at h
  cases act with
  | claim dur filter locked outcome =>
    cases h
    exact hi.claimNext ticks outcome dur filter locked
  | background c =>
    cases c <;> simp only [EngineState.step, Option.some.injEq, reduceCtorEq] at h <;> subst h <;>
      exact hi.runCalls ticks .ok _
  | renewLease i dur | markWorkStarted i at_ | checkpoint i checkpoint settlement startWork outcome
  | observe i key outcome | resolve i key checkpoint settlement outcome =>
    obtain ⟨e, he, h⟩ := Option.bind_eq_some_iff.mp h
    cases h
    exact hi.runCalls ticks _ _
  | admission i key checkpoint settlement outcome =>
    obtain ⟨e, he, h⟩ := Option.bind_eq_some_iff.mp h
    split at h
    · cases h; exact hi
    · next hmode => cases h; exact hi.admission he hmode ticks outcome key checkpoint settlement
  | startEffect i key =>
    obtain ⟨e, he, h⟩ := Option.bind_eq_some_iff.mp h
    split at h
    · next hk => cases h; exact hi.startEffect he (List.contains_iff_mem.mp hk)
    · cases h
  | commit i policy poll delay result settlement outcome =>
    obtain ⟨e, he, h⟩ := Option.bind_eq_some_iff.mp h
    split at h
    · cases h
      exact hi.commitTx (fun _ _ _ => commitResult_moves) fun _ _ _ hg =>
        hg.drop fun e he => List.mem_of_mem_eraseIdx he
    · cases h
  | abandon i poll outcome =>
    obtain ⟨e, he, h⟩ := Option.bind_eq_some_iff.mp h
    cases h
    exact EngineInv.runCalls (hi.drop fun e he => List.mem_of_mem_eraseIdx he) ticks outcome _
  | crash i =>
    obtain ⟨e, he, h⟩ := Option.bind_eq_some_iff.mp h
    cases h
    exact hi.drop fun e he => List.mem_of_mem_eraseIdx he

theorem engineInv_reachable (h : (engineLts ι κ).Reachable s) : EngineInv s := by
  refine h.invariant (fun s hinit => ?_) fun _ _ _ => engineInv_step
  obtain ⟨-, hlog, hexec⟩ := hinit
  refine ⟨⟨fun id hd => ?_, fun pre post id g mode hsplit => ?_⟩, fun e he => ?_, fun e he => ?_,
    fun pre post id g key hsplit => ?_⟩
  · rw [hlog] at hd; cases hd
  · rw [hlog] at hsplit; simp at hsplit
  · rw [hexec] at he; cases he
  · rw [hexec] at he; cases he
  · rw [hlog] at hsplit; simp at hsplit

/-- **No blind re-execution.** Between the admission of an effect of a task and the first committed settlement of that
    task that names execute, every claim of the task is a recovery. -/
theorem no_blind_reexecution {s : EngineState ι κ} (hs : (engineLts ι κ).Reachable s) :
    (∀ pre post id g key, s.log = pre ++ .effectStarted id g key :: post →
      Event.admitted id g key ∈ pre ∧ Event.claimed id g .execute ∈ pre) ∧
    (∀ pre mid post id g key g' mode,
      s.log = pre ++ .admitted id g key :: mid ++ .claimed id g' mode :: post →
      (∀ g'' tr, Event.settled id g'' tr ∈ mid → tr.resumeMode ≠ .execute) → mode = .recover) := by
  have hi := engineInv_reachable hs
  refine ⟨hi.effects, fun pre mid post id g key g' mode hlog hmid => ?_⟩
  exact hi.resume.claims _ post id g' mode hlog (mustRecover_of_admitted hmid)

/-- An effect is admitted and started, the process dies, and the expired claim is taken over. -/
def crashedRun : List (Act Unit Unit × List Nat) :=
  [(.background (.enqueue freshTask none), [1]), (.claim 10 {} [] .ok, [1]),
    (.admission 0 "ensure:1" () [] .ok, []), (.startEffect 0 "ensure:1", []), (.crash 0, []),
    (.claim 10 {} [] .ok, [20])]

def crashedState : EngineState Unit Unit :=
  ((engineLts Unit Unit).run ⟨⟨0, [], Table.empty⟩, [], []⟩ crashedRun).getD ⟨⟨0, [], Table.empty⟩, [], []⟩

theorem crashedState_reachable : (engineLts Unit Unit).Reachable crashedState := by
  have hinit : (engineLts Unit Unit).Reachable ⟨⟨0, [], Table.empty⟩, [], []⟩ := .of_init ⟨rfl, rfl, rfl⟩
  have hrun : (engineLts Unit Unit).run ⟨⟨0, [], Table.empty⟩, [], []⟩ crashedRun = some crashedState := rfl
  exact hinit.of_run hrun

/-- The takeover after the crash is a recovery, as it has to be. -/
theorem no_blind_reexecution_crashed : (engineLts Unit Unit).Reachable crashedState ∧
      crashedState.log = [.claimed 1 1 .execute, .admitted 1 1 "ensure:1", .effectStarted 1 1 "ensure:1",
        .claimed 1 2 .recover] ∧
      (Event.admitted 1 1 "ensure:1" ∈ [Event.claimed 1 1 .execute, .admitted 1 1 "ensure:1"] ∧
        Event.claimed 1 1 .execute ∈ [Event.claimed 1 1 .execute, .admitted 1 1 "ensure:1"]) ∧
      ∀ g mode, crashedState.log = [.claimed 1 1 .execute] ++ .admitted 1 1 "ensure:1" ::
        [.effectStarted 1 1 "ensure:1"] ++ .claimed 1 g mode :: [] → mode = .recover :=
  ⟨crashedState_reachable, rfl,
    (no_blind_reexecution crashedState_reachable).1 _ [.claimed 1 2 .recover] 1 1 "ensure:1" rfl,
    fun g mode hlog => (no_blind_reexecution crashedState_reachable).2 [.claimed 1 1 .execute]
      [.effectStarted 1 1 "ensure:1"] [] 1 1 "ensure:1" g mode hlog (by simp)⟩

end SynapS3.Tasks
