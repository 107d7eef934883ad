import SynapS3.Task.Budget

/-!
# `Task.Observation` — what a task's history does to its retry count and its observation window

An observation wait whose window has expired is settled as a retry, so a result is judged by what
`observationResult` makes of it.
-/

namespace SynapS3.Tasks

variable {ι κ : Type} {reg : Policies} {policy : ExecutionPolicy} {poll delay observedAt now : Int}
  {answer : Result} {id g : Nat} {r r' q : Task ι κ}

/-- The result that is settled in place of `answer`, and the observation it stores. -/
inductive Observed (policy : ExecutionPolicy) (r : Task ι κ) (answer : Result) (at_ : Int) :
    Result × Option TaskObservation → Prop
  | plain : answer.observationWindow = none → Observed policy r answer at_ (answer, none)
  | expired {w : ObservationWindow} {e : Result} : answer.observationWindow = some w → e.kind = .retry →
      (observationState r w at_).startedAt + policy.observationWindow ≤ at_ →
      Observed policy r answer at_ (e, none)
  | watching {w : ObservationWindow} {e : Result} {next : Int} : answer.observationWindow = some w →
      e.kind = answer.kind → e.waitUntil = some next →
      next ≤ (observationState r w at_).startedAt + policy.observationWindow →
      Observed policy r answer at_ (e, some (observationState r w at_))

theorem observationResult_observed (policy : ExecutionPolicy) (r : Task ι κ) (answer : Result) (at_ : Int) :
    Observed policy r answer at_ (observationResult policy r answer at_) := by
  cases hw : answer.observationWindow with
  | none => simpa [observationResult, hw] using Observed.plain hw
  | some w =>
    simp only [observationResult, hw]
    split
    · next hexpired => exact .expired hw rfl hexpired
    · exact .watching hw rfl rfl (min_le_left _ _)

/-- What the settlement of `answer` makes of the row `r`, for the kind that is settled. -/
structure SettledAs (policy : ExecutionPolicy) (answer : Result) (observedAt now : Int) (kind : ResultKind)
    (r r' : Task ι κ) : Prop where
  judged : kind = answer.kind ∨ kind = .retry ∧ ∃ w, answer.observationWindow = some w ∧
    (observationState r w observedAt).startedAt + policy.observationWindow ≤ observedAt
  retried : kind = .retry → r.retryCount + 1 < policy.maxAttempts →
    r'.status = .pending ∧ r'.retryCount = r.retryCount + 1
  exhausted : kind = .retry → policy.maxAttempts ≤ r.retryCount + 1 →
    r'.status = .failed ∧ r'.retryCount = r.retryCount
  uncounted : kind ≠ .retry → r'.retryCount = r.retryCount
  ended : kind ≠ .retry → kind ≠ .wait → r'.status ≠ .pending
  cleared : kind ≠ .wait → r'.runtime.observation = none
  unobserved : kind = .wait → answer.observationWindow = none → r'.runtime.observation = r.runtime.observation
  observed : kind = .wait → ∀ w, answer.observationWindow = some w → ∃ startedAt,
    r'.runtime.observation = some ⟨w.stageKey, startedAt⟩ ∧
    (∀ t, r.runtime.observation = some ⟨w.stageKey, t⟩ → startedAt = t) ∧
    ((∀ t, r.runtime.observation ≠ some ⟨w.stageKey, t⟩) → startedAt = observedAt) ∧
    r'.availableAt ≤ max (startedAt + policy.observationWindow) now

theorem observationState_key (r : Task ι κ) (w : ObservationWindow) (at_ : Int) :
    (observationState r w at_).key = w.stageKey := by
  simp only [observationState]
  split
  · split
    · assumption
    · rfl
  · rfl

theorem observationState_startedAt (r : Task ι κ) (w : ObservationWindow) (at_ : Int) :
    (∀ t, r.runtime.observation = some ⟨w.stageKey, t⟩ → (observationState r w at_).startedAt = t) ∧
      ((∀ t, r.runtime.observation ≠ some ⟨w.stageKey, t⟩) → (observationState r w at_).startedAt = at_) := by
  refine ⟨fun t ht => by simp [observationState, ht], fun hne => ?_⟩
  cases hobs : r.runtime.observation with
  | none => simp [observationState, hobs]
  | some state =>
    have hkey : state.key ≠ w.stageKey := fun hkey => hne state.startedAt (by rw [hobs, ← hkey])
    simp [observationState, hobs, hkey]

/-- **What one settlement does.** The row `q` is the one the decision was taken on, after the settlement's own
    calls. -/
theorem settlementTransition_settledAs {clock : Int} (hq : Steady r q)
    (hvalid : validTaskTransition (settlementTransition policy poll delay r answer observedAt now) = true) :
    SettledAs policy answer observedAt now (observationResult policy r answer observedAt).1.kind r
      (settleRow (settlementTransition policy poll delay r answer observedAt now) clock q) := by
  have hobs := observationResult_observed policy r answer observedAt
  simp only [settlementTransition] at hvalid ⊢
  generalize observationResult policy r answer observedAt = effective at hobs hvalid ⊢
  obtain ⟨e, state⟩ := effective
  have hkind : e.kind = answer.kind ∨ e.kind = .retry ∧ ∃ w, answer.observationWindow = some w ∧
      (observationState r w observedAt).startedAt + policy.observationWindow ≤ observedAt := by
    cases hobs with
    | plain => exact .inl rfl
    | expired hw hretry hle => exact .inr ⟨hretry, _, hw, hle⟩
    | watching _ hsame => exact .inl hsame
  have hcount := hq.retryCount
  cases hk : e.kind with
  | invalid => cases state <;> simp [transitionFor, hk, validTaskTransition] at hvalid
  | wait =>
    rw [hk] at hkind
    refine ⟨hkind, by simp, by simp, fun _ => ?_, by simp, by simp, fun _ hnone => ?_,
      fun _ w hw => ?_⟩
    · cases state <;> simp [transitionFor, hk, settleRow, hcount]
    · cases hobs with
      | plain => simp [transitionFor, hk, settleRow, hq.observation]
      | expired hw | watching hw => rw [hnone] at hw; cases hw
    · cases hobs with
      | plain hnone => rw [hnone] at hw; cases hw
      | expired _ hretry => rw [hk] at hretry; cases hretry
      | watching hw' _ hnext hle =>
        rw [hw] at hw'
        cases hw'
        obtain ⟨hkept, hnew⟩ := observationState_startedAt r w observedAt
        refine ⟨_, ?_, hkept, hnew, ?_⟩
        · simp [transitionFor, hk, settleRow, ← observationState_key r w observedAt]
        · simp only [transitionFor, hk, settleRow, hnext, if_true, Option.getD_some]
          exact max_le_max_right _ hle
  | retry =>
    rw [hk] at hkind
    by_cases hleft : policy.maxAttempts - 1 ≤ r.retryCount
    · refine ⟨hkind, fun _ hlt => by omega, fun _ _ => ?_, by simp, by simp, fun _ => ?_,
        by simp, by simp⟩
      · cases state <;> simp [transitionFor, hk, hleft, settleRow, hcount]
      · cases state <;> simp [transitionFor, hk, hleft, settleRow]
    · refine ⟨hkind, fun _ _ => ?_, fun _ hle => by omega, by simp, by simp, fun _ => ?_,
        by simp, by simp⟩
      · cases state <;> simp [transitionFor, hk, hleft, settleRow, hcount]
      · cases state <;> simp [transitionFor, hk, hleft, settleRow]
  | complete | fail | cancel =>
    rw [hk] at hkind
    refine ⟨hkind, by simp, by simp, fun _ => ?_, fun _ _ => ?_, fun _ => ?_, by simp, by simp⟩
    · cases state <;> simp [transitionFor, hk, settleRow, hcount]
    · cases state <;> simp [transitionFor, hk, settleRow]
    · cases state <;> simp [transitionFor, hk, settleRow]

variable {s s' : BudgetState ι κ} {a : Commit ι κ × List Nat}

/-- What a step makes of the attempts and the observations: only the settlement of a result of the task itself
    touches them, as `SettledAs` says, at two clock reads of the step. -/
def SettlesOnly (reg : Policies) (a : Commit ι κ) (s s' : BudgetState ι κ) : Prop :=
  ∀ id r, s.db.tasks.row id = some r → ∃ r', s'.db.tasks.row id = some r' ∧ r'.type = r.type ∧
    ((∀ poll delay g answer settlement, a ≠ .result poll delay id g answer settlement) → Steady r r') ∧
    ∀ poll delay g answer settlement, a = .result poll delay id g answer settlement →
      ∃ observedAt now kind, s.db.clock ≤ observedAt ∧ observedAt ≤ now ∧ now ≤ s'.db.clock ∧
        SettledAs (reg.policy r.type) answer observedAt now kind r r'

theorem recordCalls_clock {cs : List (Call ι κ)} {db db' : TaskDb ι κ} {ops : List Operation}
    (h : (recordCalls cs).Ok db ops db') : db.clock ≤ db'.clock := by
  induction cs generalizing db ops with
  | nil =>
    simp only [recordCalls, Tx.ok_pure] at h
    rw [h.2]
  | cons c cs ih =>
    obtain ⟨ev, t, rest, hc, hrest, rfl⟩ := recordCalls_cons h
    exact le_trans (Call.run_effect hc).clock_le (ih hrest)

theorem budgetLts_settles (h : (budgetLts ι κ reg).step s a = some s') : SettlesOnly reg a.1 s s' := by
  intro id r hr
  obtain ⟨ops, -, ⟨cs, ha, hcs, hrun⟩ | ⟨poll, delay, id', g, answer, settlement, ha, hs, hrun⟩⟩ :=
    budgetLts_step h
  · obtain ⟨r', hr', hsteady⟩ := recordCalls_steady hcs hrun hr
    exact ⟨r', hr', hsteady.type, fun _ => hsteady, fun _ _ _ _ _ hres => by rw [ha] at hres; cases hres⟩
  · obtain ⟨row, t, t', observedAt, hrow, htasks, hafter, hle, hcalls, hsettle⟩ := recordCommit_ok hrun
    obtain ⟨q, hq, hsteady⟩ := recordCalls_steady hs hcalls (by rw [htasks]; exact hr)
    obtain ⟨hvalid, w, hw⟩ := settle_ok hsettle
    by_cases hid : id = id'
    · subst hid
      obtain rfl : row = r := Option.some.inj (hrow.symm.trans hr)
      obtain rfl : q = w := Option.some.inj (hq.symm.trans hw.row)
      refine ⟨_, hw.row', hsteady.type, fun hne => absurd ha (hne _ _ _ _ _), ?_⟩
      intro _ _ _ _ _ hres
      rw [ha] at hres
      cases hres
      exact ⟨observedAt, t.clock, _, hafter, hle, le_trans (recordCalls_clock hcalls) hw.clock,
        settlementTransition_settledAs hsteady hvalid⟩
    · refine ⟨q, (hw.other id hid).trans hq, hsteady.type, fun _ => hsteady, ?_⟩
      intro _ _ _ _ _ hres
      rw [ha] at hres
      cases hres
      exact absurd rfl hid

/-- A step in which a result of the task, if one is settled, is settled as a wait: on the stage `key`, or
    without a window. -/
def WaitsOn (reg : Policies) (id : Nat) (key : String) (s s' : BudgetState ι κ) : Prop :=
  ∃ a, (budgetLts ι κ reg).step s a = some s' ∧ ∀ poll delay g answer settlement,
    a.1 = .result poll delay id g answer settlement →
      (∀ w, answer.observationWindow = some w → w.stageKey = key) ∧
      ∀ r r', s.db.tasks.row id = some r → s'.db.tasks.row id = some r' →
        r'.status = .pending ∧ r'.retryCount = r.retryCount

theorem SettledAs.isWait {kind : ResultKind} (h : SettledAs policy answer observedAt now kind r r')
    (hstatus : r'.status = .pending) (hcount : r'.retryCount = r.retryCount) : kind = .wait := by
  by_contra hwait
  by_cases hretry : kind = .retry
  · rcases Nat.lt_or_ge (r.retryCount + 1) policy.maxAttempts with hlt | hge
    · have := (h.retried hretry hlt).2
      omega
    · have hfailed := (h.exhausted hretry hge).1
      rw [hstatus] at hfailed
      cases hfailed
  · exact h.ended hretry hwait hstatus

theorem WaitsOn.keeps {key : String} {t : Int} (h : WaitsOn reg id key s s') (hr : s.db.tasks.row id = some r)
    (hobs : r.runtime.observation = some ⟨key, t⟩) :
    ∃ r', s'.db.tasks.row id = some r' ∧ r'.retryCount = r.retryCount ∧
      r'.runtime.observation = some ⟨key, t⟩ := by
  obtain ⟨a, hstep, hwaits⟩ := h
  obtain ⟨r', hr', -, hsteady, hsettled⟩ := budgetLts_settles hstep id r hr
  refine ⟨r', hr', ?_⟩
  by_cases hres : ∃ poll delay g answer settlement, a.1 = .result poll delay id g answer settlement
  · obtain ⟨poll, delay, g, answer, settlement, ha⟩ := hres
    obtain ⟨hstage, hpending⟩ := hwaits _ _ _ _ _ ha
    obtain ⟨hstatus, hcount⟩ := hpending r r' hr hr'
    obtain ⟨observedAt, now, kind, -, -, -, hset⟩ := hsettled _ _ _ _ _ ha
    have hkind := hset.isWait hstatus hcount
    cases hw : answer.observationWindow with
    | none => exact ⟨hcount, by rw [hset.unobserved hkind hw, hobs]⟩
    | some w =>
      obtain ⟨startedAt, hnew, hkept, -⟩ := hset.observed hkind w hw
      have hkey := hstage w hw
      refine ⟨hcount, ?_⟩
      rw [hnew, hkey, hkept t (by rw [hkey]; exact hobs)]
  · have h := hsteady fun _ _ _ _ _ ha => hres ⟨_, _, _, _, _, ha⟩
    exact ⟨h.retryCount, by rw [h.observation, hobs]⟩

/-- **The retry budget and the observation window.** No retry count exceeds `maxAttempts - 1`, and while the results
    of a task are settled as waits on one stage, the observation keeps the start time of the first of them. -/
theorem retry_budget_and_observation {reg : Policies} {s : BudgetState ι κ} (hs : (budgetLts ι κ reg).Reachable s) :
    (∀ id r, s.db.tasks.row id = some r → r.retryCount ≤ (reg.policy r.type).maxAttempts - 1) ∧
    (∀ a s', (budgetLts ι κ reg).step s a = some s' → SettlesOnly reg a.1 s s') ∧
    (∀ id key t r s', s.db.tasks.row id = some r → r.runtime.observation = some ⟨key, t⟩ →
      Relation.ReflTransGen (WaitsOn reg id key) s s' →
        ∃ r', s'.db.tasks.row id = some r' ∧ r'.retryCount = r.retryCount ∧
          r'.runtime.observation = some ⟨key, t⟩) := by
  refine ⟨fun id r hr => ?_, fun _ _ => budgetLts_settles, fun id key t r s' hr hobs hrun => ?_⟩
  · have := ((budgetInv_reachable hs).row id r hr).attempt
    omega
  · induction hrun with
    | refl => exact ⟨r, hr, rfl, hobs⟩
    | tail _ hstep ih =>
      obtain ⟨q, hq, hcount, hkept⟩ := ih
      obtain ⟨r', hr', hcount', hkept'⟩ := hstep.keeps hq hkept
      exact ⟨r', hr', hcount'.trans hcount, hkept'⟩

/-- Both attempts of the policy are spent, which is as high as the count can be. -/
theorem retry_budget_and_observation_retried : (budgetLts Unit Unit twoAttempts).Reachable retriedState ∧
      (retriedState.db.tasks.row 1).map (·.retryCount) = some 1 ∧
      ∀ r, retriedState.db.tasks.row 1 = some r → r.retryCount ≤ (twoAttempts.policy r.type).maxAttempts - 1 :=
  ⟨retriedState_reachable, by decide +kernel, (retry_budget_and_observation retriedState_reachable).1 1⟩

end SynapS3.Tasks
