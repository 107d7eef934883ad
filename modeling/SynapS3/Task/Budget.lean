import Mathlib.Data.List.Perm.Subperm
import SynapS3.Task.Engine

/-!
# `Task.Budget` — how often one operation may start its effect

An admission spends the attempt it commits in, and only a retry settlement opens another attempt.

The system takes one committed transaction at a time: any sequence of repository calls by anybody, or the
settlement of a handler's result. A transaction that fails, and a process that dies, leave nothing behind.
Rounds are settled through `commitResult` only, and a new round starts on its first attempt with an empty
runtime, as `Service.prepare` builds it.
-/

namespace SynapS3.Tasks

variable {ι κ : Type}

/-! ## What the history keeps -/

/-- What the history keeps of a committed change of a task's operation. -/
inductive Operation where
  | admitted (id : Nat) (key : String) (attempt : Nat)
  | resolved (id : Nat) (key : String)
  deriving DecidableEq

def Call.operation (tasks : Table (Task ι κ)) : Call ι κ → List Operation
  | .admitEffect id _ key _ => ((tasks.row id).map fun r => .admitted id key (r.retryCount + 1)).toList
  | .resolveOperation id _ key => [.resolved id key]
  | _ => []

/-- A round as `Service.prepare` builds it: first attempt, empty runtime. -/
def Task.prepared (r : Task ι κ) : Bool := r.retryCount == 0 && r.runtime == {}

/-- The calls a transaction of the program is made of. Rounds are settled by `commitResult` alone, and only
    prepared rounds are enqueued. -/
def Call.budgeted : Call ι κ → Bool
  | .settle .. => false
  | .enqueue task _ => task.prepared
  | _ => true

variable {c : Call ι κ} {id g max : Nat} {r r' : Task ι κ} {history : List Operation} {db db' : TaskDb ι κ}
  {ev : Option Event} {cs settlement : List (Call ι κ)} {poll delay : Int} {result : Result}
  {tasks : Table (Task ι κ)}

/-! ## The system -/

def recordCalls : List (Call ι κ) → TaskTx ι κ (List Operation)
  | [] => pure []
  | c :: cs => do
    let s ← Tx.read
    let _ ← c.run
    let rest ← recordCalls cs
    pure (c.operation s.tasks ++ rest)

/-- The registered execution policies. `Registry.Register` refuses a policy without an attempt. -/
structure Policies where
  policy : TaskType → ExecutionPolicy
  valid : ∀ type, 1 ≤ (policy type).maxAttempts

/-- `commitResult` under the policy of the task's type, answering what the history keeps. -/
def recordCommit (reg : Policies) (pollInterval delay : Int) (id generation : Nat) (result : Result)
    (settlement : List (Call ι κ)) : TaskTx ι κ (List Operation) := do
  validateClaim id generation
  let current ← getByID id
  let current ← Tx.orFail current .taskLeaseLost
  let observedAt ← readClock
  let now ← readClock
  let transition :=
    settlementTransition (reg.policy current.type) pollInterval delay current result observedAt now
  let ops ← recordCalls settlement
  settle id generation transition
  pure ops

inductive Commit (ι κ : Type) where
  | calls (cs : List (Call ι κ))
  | result (pollInterval delay : Int) (id generation : Nat) (answer : Result) (settlement : List (Call ι κ))

def Commit.run (reg : Policies) : Commit ι κ → Option (TaskTx ι κ (List Operation))
  | .calls cs => if cs.all Call.budgeted then some (recordCalls cs) else none
  | .result poll delay id g answer settlement =>
    if settlement.all Call.budgeted then some (recordCommit reg poll delay id g answer settlement) else none

/-- The tables, and what every operation was admitted for. -/
structure BudgetState (ι κ : Type) where
  db : TaskDb ι κ
  history : List Operation

/-- **Any transaction of the program, by anyone, at any later time.** -/
def budgetLts (ι κ : Type) (reg : Policies) : Lts (BudgetState ι κ) (Commit ι κ × List Nat) where
  init s := s.db.tasks = Table.empty ∧ s.history = []
  step s a := do
    let tx ← a.1.run reg
    match tx { s.db with ticks := a.2 } with
    | .ok (ops, db) => some ⟨db, s.history ++ ops⟩
    | .error _ => none

theorem recordCalls_cons {s s' : TaskDb ι κ} {ops : List Operation} (h : (recordCalls (c :: cs)).Ok s ops s') :
    ∃ ev t rest, c.run.Ok s ev t ∧ (recordCalls cs).Ok t rest s' ∧ ops = c.operation s.tasks ++ rest := by
  simp only [recordCalls, Tx.ok_bind, Tx.ok_read, Tx.ok_pure] at h
  obtain ⟨_, _, ⟨rfl, rfl⟩, ev, t, hc, rest, _, hrest, rfl, rfl⟩ := h
  exact ⟨ev, t, rest, hc, hrest, rfl⟩

theorem recordCalls_run {s s' : TaskDb ι κ} {ops : List Operation} (h : (recordCalls cs).Ok s ops s') :
    ∃ evs, (runCalls cs).Ok s evs s' := by
  induction cs generalizing s ops with
  | nil =>
    simp only [recordCalls, Tx.ok_pure] at h
    exact ⟨[], by simp [runCalls, h.2]⟩
  | cons c cs ih =>
    obtain ⟨ev, t, rest, hc, hcs, -⟩ := recordCalls_cons h
    obtain ⟨evs, hrun⟩ := ih hcs
    exact ⟨ev.toList ++ evs, by
      simp only [runCalls, Tx.ok_bind, Tx.ok_pure]; exact ⟨ev, t, hc, evs, _, hrun, rfl, rfl⟩⟩

variable {reg : Policies} {ops : List Operation}

/-- What a committed settlement did: it read the row and twice the clock, ran its own calls and settled the row by
    the transition chosen before them. -/
theorem recordCommit_ok
    (h : (recordCommit reg poll delay id g result settlement).Ok db ops db') :
    ∃ row t t' observedAt, db.tasks.row id = some row ∧ t.tasks = db.tasks ∧ db.clock ≤ observedAt ∧
      observedAt ≤ t.clock ∧ (recordCalls settlement).Ok t ops t' ∧ (settle id g
        (settlementTransition (reg.policy row.type) poll delay row result observedAt t.clock)).Ok t' () db' := by
  simp only [recordCommit, getByID, Tx.ok_bind, Tx.ok_read, Tx.ok_pure, Tx.ok_orFail] at h
  obtain ⟨_, t, hval, _, _, ⟨_, _, ⟨rfl, rfl⟩, rfl, rfl⟩, row, _, ⟨hrow, rfl⟩, at_, t₁, hread₁, now, t₂,
    hread₂, ops', t₃, hcalls, _, t₄, hsettle, rfl, rfl⟩ := h
  obtain ⟨hle₁, hat, htasks₁⟩ := readClock_ok hread₁
  obtain ⟨hle₂, rfl, htasks₂⟩ := readClock_ok hread₂
  obtain ⟨htasks, _, hval⟩ := validateClaim_ok hval
  exact ⟨row, t₂, t₃, at_, by rw [← htasks]; exact hrow, (htasks₂.trans htasks₁).trans htasks,
    le_trans hval.clock hle₁, hat ▸ hle₂, hcalls, hsettle⟩

/-- **Recording changes nothing**: `recordCommit` is `commitResult` under the policy of the task's type. -/
theorem recordCommit_run {s s' : TaskDb ι κ}
    (h : (recordCommit reg poll delay id g result settlement).Ok s ops s') :
    ∃ row evs, s.tasks.row id = some row ∧
      (commitResult (reg.policy row.type) poll delay id g result settlement).Ok s evs s' := by
  simp only [recordCommit, getByID, Tx.ok_bind, Tx.ok_read, Tx.ok_pure, Tx.ok_orFail] at h
  obtain ⟨_, t, hval, _, _, ⟨_, _, ⟨rfl, rfl⟩, rfl, rfl⟩, row, _, ⟨hrow, rfl⟩, at_, t₁, hread₁, now, t₂,
    hread₂, ops', t₃, hcalls, _, t₄, hsettle, rfl, rfl⟩ := h
  obtain ⟨evs, hrun⟩ := recordCalls_run hcalls
  refine ⟨row, evs ++ [.settled id g
    (settlementTransition (reg.policy row.type) poll delay row result at_ now)],
    by rw [← (validateClaim_ok hval).1]; exact hrow, ?_⟩
  simp only [commitResult, getByID, Tx.ok_bind, Tx.ok_read, Tx.ok_pure, Tx.ok_orFail]
  exact ⟨_, _, hval, _, _, ⟨_, _, ⟨rfl, rfl⟩, rfl, rfl⟩, row, _, ⟨hrow, rfl⟩, at_, t₁, hread₁, now, t₂,
    hread₂, evs, t₃, hrun, _, _, hsettle, rfl, rfl⟩

/-! ## Admissions since the last resolution -/

/-- The admissions of `id` that `op` adds to those since the last resolution. -/
def Operation.track (id : Nat) (acc : List (String × Nat)) : Operation → List (String × Nat)
  | .admitted id' key attempt => if id' = id then acc ++ [(key, attempt)] else acc
  | .resolved id' _ => if id' = id then [] else acc

/-- The admissions of `id`, as key and attempt, since its last resolution. -/
def openAdmissions (history : List Operation) (id : Nat) : List (String × Nat) :=
  history.foldl (Operation.track id) []

def admissionsOf (id : Nat) : List Operation → List (String × Nat)
  | [] => []
  | .admitted id' key attempt :: ops =>
    if id' = id then (key, attempt) :: admissionsOf id ops else admissionsOf id ops
  | .resolved .. :: ops => admissionsOf id ops

theorem openAdmissions_append (pre ops : List Operation) (id : Nat) :
    openAdmissions (pre ++ ops) id = ops.foldl (Operation.track id) (openAdmissions pre id) :=
  List.foldl_append

theorem openAdmissions_unresolved {pre mid : List Operation} (h : ∀ key, Operation.resolved id key ∉ mid) :
    openAdmissions (pre ++ mid) id = openAdmissions pre id ++ admissionsOf id mid := by
  rw [openAdmissions_append]
  generalize openAdmissions pre id = acc
  induction mid generalizing acc with
  | nil => simp [admissionsOf]
  | cons op mid ih =>
    have hmid : ∀ key, Operation.resolved id key ∉ mid := fun key hm =>
      h key (List.mem_cons_of_mem _ hm)
    cases op with
    | admitted id' key attempt =>
      by_cases hid : id' = id
      · simp [Operation.track, admissionsOf, hid, ih hmid]
      · simp [Operation.track, admissionsOf, hid, ih hmid]
    | resolved id' key =>
      have hid : id' ≠ id := fun heq => h key (by rw [heq]; exact List.mem_cons_self)
      simp [Operation.track, admissionsOf, hid, ih hmid]

/-- One key, and attempts that strictly increase up to `max`. -/
structure Spending (max : Nat) (ops : List (String × Nat)) : Prop where
  key : ∀ p ∈ ops, ∀ q ∈ ops, p.1 = q.1
  increasing : (ops.map Prod.snd).Pairwise (· < ·)
  bound : ∀ p ∈ ops, 1 ≤ p.2 ∧ p.2 ≤ max

theorem Spending.nil (max : Nat) : Spending max [] := ⟨by simp, by simp, by simp⟩

theorem Spending.sublist {ops ops' : List (String × Nat)} (h : Spending max ops) (hsub : ops'.Sublist ops) :
    Spending max ops' :=
  ⟨fun p hp q hq => h.key p (hsub.subset hp) q (hsub.subset hq), h.increasing.sublist (hsub.map _),
    fun p hp => h.bound p (hsub.subset hp)⟩

theorem Spending.length_le {ops : List (String × Nat)} (h : Spending max ops) : ops.length ≤ max := by
  have hnodup : (ops.map Prod.snd).Nodup := h.increasing.imp fun hlt => Nat.ne_of_lt hlt
  have hsub : ops.map Prod.snd ⊆ List.range' 1 max := by
    intro a ha
    obtain ⟨p, hp, rfl⟩ := List.mem_map.mp ha
    have := h.bound p hp
    rw [List.mem_range'_1]
    omega
  have hlen := (List.subperm_of_subset hnodup hsub).length_le
  simpa using hlen

/-! ## The invariant -/

/-- What the budget says of a row whose policy allows `max` attempts, given its admissions since the last
    resolution. -/
structure RowBudget (max : Nat) (r : Task ι κ) (ops : List (String × Nat)) : Prop where
  attempt : r.retryCount + 1 ≤ max
  spent : r.runtime.lastAdmittedAttempt ≤ r.retryCount + 1
  closed : r.runtime.operationKey = "" → r.runtime.lastAdmittedAttempt = 0
  spending : Spending max ops
  current : ∀ p ∈ ops, p.1 = r.runtime.operationKey ∧ p.2 ≤ r.runtime.lastAdmittedAttempt

theorem RowBudget.nil_of_closed {ops : List (String × Nat)} (h : RowBudget max r ops)
    (hkey : r.runtime.operationKey = "") : ops = [] := by
  rw [List.eq_nil_iff_forall_not_mem]
  intro p hp
  have hlow := (h.spending.bound p hp).1
  have hhigh := (h.current p hp).2
  rw [h.closed hkey] at hhigh
  omega

theorem RowBudget.admission {ops : List (String × Nat)} {key : String} (h : RowBudget max r ops)
    (hkey : key ≠ "") (hretry : r'.retryCount = r.retryCount)
    (hadm : AdmittedRuntime key (r.retryCount + 1) r.runtime r'.runtime) :
    RowBudget max r' (ops ++ [(key, r.retryCount + 1)]) := by
  obtain ⟨startedAt, -, hrt⟩ := hadm.spent
  have hold : ∀ p ∈ ops, p.1 = key ∧ p.2 < r.retryCount + 1 := by
    intro p hp
    obtain ⟨hp₁, hp₂⟩ := h.current p hp
    refine ⟨?_, Nat.lt_of_le_of_lt hp₂ hadm.unspent⟩
    rcases hadm.free with hempty | hopen
    · rw [h.nil_of_closed hempty] at hp; cases hp
    · exact hp₁.trans hopen
  have hall : ∀ p ∈ ops ++ [(key, r.retryCount + 1)], p.1 = key ∧ p.2 ≤ r.retryCount + 1 := by
    intro p hp
    rcases List.mem_append.mp hp with hp | hp
    · exact ⟨(hold p hp).1, Nat.le_of_lt (hold p hp).2⟩
    · obtain rfl := List.mem_singleton.mp hp
      exact ⟨rfl, le_refl _⟩
  refine ⟨by rw [hretry]; exact h.attempt, by rw [hrt, hretry], fun hempty => ?_,
    ⟨fun p hp q hq => (hall p hp).1.trans (hall q hq).1.symm, ?_, fun p hp => ⟨?_, ?_⟩⟩,
    fun p hp => by rw [hrt]; exact hall p hp⟩
  · rw [hrt] at hempty; exact absurd hempty hkey
  · rw [List.map_append, List.pairwise_append]
    refine ⟨h.spending.increasing, List.pairwise_singleton _ _, fun a ha b hb => ?_⟩
    obtain ⟨p, hp, rfl⟩ := List.mem_map.mp ha
    rw [List.map_singleton, List.mem_singleton] at hb
    rw [hb]
    exact (hold p hp).2
  · rcases List.mem_append.mp hp with hp | hp
    · exact (h.spending.bound p hp).1
    · obtain rfl := List.mem_singleton.mp hp
      exact Nat.le_add_left _ _
  · exact le_trans (hall p hp).2 h.attempt

theorem RowBudget.observe {ops : List (String × Nat)} {key : String} (h : RowBudget max r ops)
    (hretry : r'.retryCount = r.retryCount) (hobs : ObservedRuntime key r.runtime r'.runtime) :
    RowBudget max r' ops := by
  rcases hobs with ⟨hempty, now, hrt⟩ | ⟨-, hrt⟩
  · have hnil := h.nil_of_closed hempty
    refine ⟨by rw [hretry]; exact h.attempt, by rw [hrt]; exact Nat.zero_le _, fun _ => by rw [hrt],
      h.spending, fun p hp => ?_⟩
    rw [hnil] at hp
    cases hp
  · exact ⟨by rw [hretry]; exact h.attempt, by rw [hrt, hretry]; exact h.spent, by rw [hrt]; exact h.closed,
      h.spending, by rw [hrt]; exact h.current⟩

theorem RowBudget.settle {ops : List (String × Nat)} {tr : TaskTransition} {now : Int} (h : RowBudget max r ops)
    (htr : tr.incrementRetry = true → r.retryCount + 1 < max) : RowBudget max (settleRow tr now r) ops := by
  have hretry : r.retryCount ≤ (settleRow tr now r).retryCount ∧
      (settleRow tr now r).retryCount + 1 ≤ max := by
    have hattempt := h.attempt
    simp only [settleRow]
    split
    · next hinc => have := htr hinc; omega
    · omega
  have hrt : ∃ observation, (settleRow tr now r).runtime = { r.runtime with observation := observation } := by
    simp only [settleRow]
    split
    · exact ⟨_, rfl⟩
    · exact ⟨r.runtime.observation, rfl⟩
  obtain ⟨observation, hrt⟩ := hrt
  have hspent := h.spent
  exact ⟨hretry.2, by rw [hrt]; exact le_trans hspent (Nat.succ_le_succ hretry.1), by rw [hrt]; exact h.closed,
    h.spending, by rw [hrt]; exact h.current⟩

theorem Operation.track_other (h : c.subject ≠ some id) (acc : List (String × Nat)) :
    (c.operation tasks).foldl (Operation.track id) acc = acc := by
  cases c with
  | admitEffect id' g key checkpoint =>
    have hid : id' ≠ id := fun heq => h (by rw [heq]; rfl)
    cases hrow : tasks.row id' <;> simp [Call.operation, Operation.track, hrow, hid]
  | resolveOperation id' g key =>
    have hid : id' ≠ id := fun heq => h (by rw [heq]; rfl)
    simp [Call.operation, Operation.track, hid]
  | _ => rfl

theorem Change.budget {ops : List (String × Nat)} (h : Change c id r r') (hc : c.budgeted = true)
    (hrow : tasks.row id = some r) (hi : RowBudget max r ops) :
    RowBudget max r' ((c.operation tasks).foldl (Operation.track id) ops) := by
  cases h with
  | kept hother hretry hrt =>
    rw [Operation.track_other hother]
    exact ⟨by rw [hretry]; exact hi.attempt, by rw [hrt, hretry]; exact hi.spent,
      by rw [hrt]; exact hi.closed, hi.spending, by rw [hrt]; exact hi.current⟩
  | observed heq _ hretry hobs =>
    subst heq
    exact hi.observe hretry hobs
  | @admitted g key checkpoint heq hkey hretry hadm =>
    subst heq
    have hops : ((Call.admitEffect id g key checkpoint).operation tasks).foldl (Operation.track id) ops =
        ops ++ [(key, r.retryCount + 1)] := by
      simp [Call.operation, Operation.track, hrow]
    rw [hops]
    exact hi.admission hkey hretry hadm
  | resolved heq hretry hkey hrt =>
    subst heq
    simp only [Call.operation, List.foldl_cons, List.foldl_nil, Operation.track, if_true]
    exact ⟨by rw [hretry]; exact hi.attempt, by rw [hrt]; exact Nat.zero_le _, fun _ => by rw [hrt],
      .nil max, by simp⟩
  | settled heq _ => subst heq; cases hc

/-- The invariant: the budget of every row, and the spending at every point of the past. -/
structure BudgetInv (reg : Policies) (db : TaskDb ι κ) (history : List Operation) : Prop where
  row : ∀ id r, db.tasks.row id = some r →
    RowBudget (reg.policy r.type).maxAttempts r (openAdmissions history id)
  past : ∀ pre, pre <+: history → ∀ id r, db.tasks.row id = some r →
    Spending (reg.policy r.type).maxAttempts (openAdmissions pre id)
  absent : ∀ pre, pre <+: history → ∀ id, db.tasks.row id = none → openAdmissions pre id = []

/-- A call records at most one operation, so every point in the past of the longer history is one of the
    shorter or the end. -/
theorem Call.prefix_operation {pre : List Operation} (h : pre <+: history ++ c.operation tasks) :
    pre <+: history ∨ pre = history ++ c.operation tasks := by
  have hops : c.operation tasks = [] ∨ ∃ op, c.operation tasks = [op] := by
    cases c with
    | admitEffect id g key checkpoint =>
      cases hrow : tasks.row id <;> simp [Call.operation, hrow]
    | resolveOperation id g key => exact .inr ⟨_, rfl⟩
    | _ => exact .inl rfl
  rcases hops with hnil | ⟨op, hone⟩
  · rw [hnil, List.append_nil] at h
    exact .inl h
  · rw [hone] at h ⊢
    exact (List.prefix_concat_iff.mp h).symm

theorem budgetInv_call (hi : BudgetInv reg db history) (hc : c.budgeted = true) (h : c.run.Ok db ev db') :
    BudgetInv reg db' (history ++ c.operation db.tasks) := by
  have heff := Call.run_effect h
  have hback : ∀ id, db'.tasks.row id = none → db.tasks.row id = none := by
    intro id hn
    cases hrow : db.tasks.row id with
    | none => rfl
    | some r =>
      obtain ⟨r', hr', -⟩ := heff.row_step hrow
      rw [hn] at hr'
      cases hr'
  -- a call that adds or leaves out a row records nothing about it
  have hempty : ∀ id, db.tasks.row id = none → openAdmissions (history ++ c.operation db.tasks) id = [] := by
    intro id hn
    rw [openAdmissions_append, hi.absent history (List.prefix_refl _) id hn]
    cases c with
    | admitEffect id' g key checkpoint =>
      by_cases hid : id' = id
      · subst hid; simp [Call.operation, hn]
      · exact Operation.track_other (by simpa [Call.subject] using hid) []
    | resolveOperation id' g key =>
      by_cases hid : id' = id <;> simp [Call.operation, Operation.track, hid]
    | _ => rfl
  have hrow : ∀ id r', db'.tasks.row id = some r' →
      RowBudget (reg.policy r'.type).maxAttempts r' (openAdmissions (history ++ c.operation db.tasks) id) ∧
      ∀ pre, pre <+: history → Spending (reg.policy r'.type).maxAttempts (openAdmissions pre id) := by
    intro id r' hr'
    cases hr : db.tasks.row id with
    | some r =>
      obtain ⟨q, hq, hstep⟩ := heff.row_step hr
      obtain rfl : q = r' := Option.some.inj (hq.symm.trans hr')
      rw [hstep.type, openAdmissions_append]
      exact ⟨hstep.change.budget hc hr (hi.row id r hr), fun pre hpre => hi.past pre hpre id r hr⟩
    | none =>
      cases c with
      | enqueue task availableAt => ?_
      | _ => exact (heff.row_new hr' hr).2.2.elim
      obtain ⟨-, -, hrt, hretry⟩ := heff.row_new hr' hr
      simp only [Call.budgeted, Task.prepared, Bool.and_eq_true, beq_iff_eq] at hc
      rw [hempty id hr]
      refine ⟨⟨?_, by simp [hrt, hc.2], fun _ => by simp [hrt, hc.2], .nil _, by simp⟩, fun pre hpre => ?_⟩
      · rw [hretry, hc.1]; exact reg.valid _
      · rw [hi.absent pre hpre id hr]; exact .nil _
  refine ⟨fun id r' hr' => (hrow id r' hr').1, fun pre hpre id r' hr' => ?_, fun pre hpre id hn => ?_⟩
  · rcases Call.prefix_operation hpre with hpre | rfl
    · exact (hrow id r' hr').2 pre hpre
    · exact (hrow id r' hr').1.spending
  · rcases Call.prefix_operation hpre with hpre | rfl
    · exact hi.absent pre hpre id (hback id hn)
    · exact hempty id (hback id hn)

theorem budgetInv_calls (hi : BudgetInv reg db history)
    (hcs : cs.all Call.budgeted = true) (h : (recordCalls cs).Ok db ops db') :
    BudgetInv reg db' (history ++ ops) := by
  induction cs generalizing db history ops with
  | nil =>
    simp only [recordCalls, Tx.ok_pure] at h
    obtain ⟨rfl, rfl⟩ := h
    rw [List.append_nil]
    exact hi
  | cons c cs ih =>
    obtain ⟨ev, t, rest, hc, hrest, rfl⟩ := recordCalls_cons h
    rw [List.all_cons, Bool.and_eq_true] at hcs
    rw [← List.append_assoc]
    exact ih (budgetInv_call hi hcs.1 hc) hcs.2 hrest

/-- What no call of the program but the settlement of a result changes: the type, the attempt and the
    observation. -/
structure Steady (r r' : Task ι κ) : Prop where
  type : r'.type = r.type
  retryCount : r'.retryCount = r.retryCount
  observation : r'.runtime.observation = r.runtime.observation

theorem Change.steady (h : Change c id r r') (hc : c.budgeted = true) (htype : r'.type = r.type) : Steady r r' := by
  cases h with
  | kept _ hretry hrt => exact ⟨htype, hretry, by rw [hrt]⟩
  | observed _ _ hretry hobs =>
    rcases hobs with ⟨-, now, hrt⟩ | ⟨-, hrt⟩
    · exact ⟨htype, hretry, by rw [hrt]⟩
    · exact ⟨htype, hretry, by rw [hrt]⟩
  | admitted _ _ hretry hadm =>
    obtain ⟨startedAt, -, hrt⟩ := hadm.spent
    exact ⟨htype, hretry, by rw [hrt]⟩
  | resolved _ hretry _ hrt => exact ⟨htype, hretry, by rw [hrt]⟩
  | settled heq _ => subst heq; cases hc

theorem recordCalls_steady (hcs : cs.all Call.budgeted = true)
    (h : (recordCalls cs).Ok db ops db') (hr : db.tasks.row id = some r) :
    ∃ r', db'.tasks.row id = some r' ∧ Steady r r' := by
  induction cs generalizing db ops r with
  | nil =>
    simp only [recordCalls, Tx.ok_pure] at h
    exact ⟨r, by rw [h.2]; exact hr, rfl, rfl, rfl⟩
  | cons c cs ih =>
    obtain ⟨ev, t, rest, hc, hrest, rfl⟩ := recordCalls_cons h
    rw [List.all_cons, Bool.and_eq_true] at hcs
    obtain ⟨q, hq, hstep⟩ := (Call.run_effect hc).row_step hr
    have hsteady := hstep.change.steady hcs.1 hstep.type
    obtain ⟨r', hr', hsteady'⟩ := ih hcs.2 hrest hq
    exact ⟨r', hr', hsteady'.type.trans hstep.type, hsteady'.retryCount.trans hsteady.retryCount,
      hsteady'.observation.trans hsteady.observation⟩

/-- `transitionFor` opens another attempt only while the policy has one left. -/
theorem settlementTransition_increment {policy : ExecutionPolicy} {row : Task ι κ} {observedAt now : Int}
    (h : (settlementTransition policy poll delay row result observedAt now).incrementRetry = true) :
    row.retryCount + 1 < policy.maxAttempts := by
  have htr : (transitionFor policy poll delay row
      (observationResult policy row result observedAt).1 now).incrementRetry = true := by
    simp only [settlementTransition] at h
    split at h <;> exact h
  generalize (observationResult policy row result observedAt).1 = effective at htr
  unfold transitionFor at htr
  cases hk : effective.kind <;> simp only [hk] at htr
  case retry =>
    split at htr
    · cases htr
    · omega
  all_goals cases htr

theorem BudgetInv.of_tasks (hi : BudgetInv reg db history) (h : db'.tasks = db.tasks) : BudgetInv reg db' history :=
  ⟨by rw [h]; exact hi.row, by rw [h]; exact hi.past, by rw [h]; exact hi.absent⟩

theorem budgetInv_settle {tr : TaskTransition} {u : Unit} (hi : BudgetInv reg db history)
    (htr : ∀ r, db.tasks.row id = some r → tr.incrementRetry = true → r.retryCount + 1 < (reg.policy r.type).maxAttempts)
    (h : (settle id g tr).Ok db u db') : BudgetInv reg db' history := by
  obtain ⟨-, r, hr⟩ := settle_ok h
  refine ⟨fun j q hq => ?_, fun pre hpre j q hq => ?_, fun pre hpre j hn => ?_⟩
  · by_cases hj : j = id
    · subst hj
      obtain rfl := Option.some.inj (hq.symm.trans hr.row')
      exact (hi.row j r hr.row).settle (htr r hr.row)
    · rw [hr.other j hj] at hq; exact hi.row j q hq
  · by_cases hj : j = id
    · subst hj
      obtain rfl := Option.some.inj (hq.symm.trans hr.row')
      exact hi.past pre hpre j r hr.row
    · rw [hr.other j hj] at hq; exact hi.past pre hpre j q hq
  · by_cases hj : j = id
    · subst hj; rw [hr.row'] at hn; cases hn
    · rw [hr.other j hj] at hn; exact hi.absent pre hpre j hn

theorem budgetInv_commit (hi : BudgetInv reg db history)
    (hs : settlement.all Call.budgeted = true)
    (h : (recordCommit reg poll delay id g result settlement).Ok db ops db') :
    BudgetInv reg db' (history ++ ops) := by
  obtain ⟨row, t, t', observedAt, hrow, htasks, -, -, hcalls, hsettle⟩ := recordCommit_ok h
  refine budgetInv_settle (budgetInv_calls (hi.of_tasks htasks) hs hcalls) (fun r hr hinc => ?_) hsettle
  -- the transition was chosen from the row as it was before the settlement's own calls
  obtain ⟨q, hq, hsteady⟩ := recordCalls_steady hs hcalls (by rw [htasks]; exact hrow)
  obtain rfl : q = r := Option.some.inj (hq.symm.trans hr)
  rw [hsteady.type, hsteady.retryCount]
  exact settlementTransition_increment hinc

variable {a : Commit ι κ × List Nat}

theorem budgetLts_step {s s' : BudgetState ι κ} (h : (budgetLts ι κ reg).step s a = some s') :
    ∃ ops, s'.history = s.history ++ ops ∧
      ((∃ cs, a.1 = .calls cs ∧ cs.all Call.budgeted = true ∧
        (recordCalls cs).Ok { s.db with ticks := a.2 } ops s'.db) ∨
      ∃ poll delay id g answer settlement, a.1 = .result poll delay id g answer settlement ∧
        settlement.all Call.budgeted = true ∧
        (recordCommit reg poll delay id g answer settlement).Ok { s.db with ticks := a.2 } ops s'.db) := by
  obtain ⟨tx, htx, h⟩ := Option.bind_eq_some_iff.mp h
  split at h
  · next ops db hrun =>
    cases h
    refine ⟨ops, rfl, ?_⟩
    cases hcommit : a.1 with
    | calls cs =>
      rw [hcommit, Commit.run] at htx
      split at htx
      · next hcs => cases htx; exact .inl ⟨cs, rfl, hcs, hrun⟩
      · cases htx
    | result poll delay id g answer settlement =>
      rw [hcommit, Commit.run] at htx
      split at htx
      · next hs => cases htx; exact .inr ⟨poll, delay, id, g, answer, settlement, rfl, hs, hrun⟩
      · cases htx
  · cases h

theorem budgetInv_step {s s' : BudgetState ι κ} (hi : BudgetInv reg s.db s.history)
    (h : (budgetLts ι κ reg).step s a = some s') : BudgetInv reg s'.db s'.history := by
  have hi' : BudgetInv reg { s.db with ticks := a.2 } s.history := hi.of_tasks rfl
  obtain ⟨ops, hhist, ⟨cs, -, hcs, hrun⟩ | ⟨_, _, _, _, _, _, -, hs, hrun⟩⟩ := budgetLts_step h
  · rw [hhist]
    exact budgetInv_calls hi' hcs hrun
  · rw [hhist]
    exact budgetInv_commit hi' hs hrun

theorem budgetInv_reachable {s : BudgetState ι κ} (h : (budgetLts ι κ reg).Reachable s) :
    BudgetInv reg s.db s.history := by
  refine h.invariant (fun s hinit => ?_) fun _ _ _ => budgetInv_step
  obtain ⟨htasks, hhist⟩ := hinit
  have hnil : ∀ pre, pre <+: s.history → pre = [] := fun pre hpre => by
    rw [hhist] at hpre; exact List.prefix_nil.mp hpre
  refine ⟨fun id r hr => ?_, fun pre hpre id r hr => ?_, fun pre hpre id _ => ?_⟩
  · rw [htasks, Table.row_empty] at hr; cases hr
  · rw [htasks, Table.row_empty] at hr; cases hr
  · rw [hnil pre hpre]; rfl

/-! ## The bound -/

/-- What a call is there to make of the runtime of its subject. -/
def Call.Rewrites (r : Task ι κ) (rt : TaskRuntime) : Call ι κ → Prop
  | .admitEffect _ _ key _ => ∃ startedAt,
      (r.runtime.operationKey = key → startedAt = r.runtime.operationStartedAt) ∧
      rt = { r.runtime with
        operationKey := key, operationStartedAt := startedAt, lastAdmittedAttempt := r.retryCount + 1 }
  | .observeOperation _ _ key => ObservedRuntime key r.runtime rt
  | .resolveOperation _ _ _ => rt =
      { r.runtime with operationKey := "", operationStartedAt := none, lastAdmittedAttempt := 0 }
  | .settle _ _ tr => rt = { r.runtime with observation := tr.observation.getD r.runtime.observation }
  | _ => rt = r.runtime

theorem settleRow_runtime (tr : TaskTransition) (now : Int) (r : Task ι κ) : (settleRow tr now r).runtime =
      { r.runtime with observation := tr.observation.getD r.runtime.observation } := by
  cases h : tr.observation <;> simp [settleRow, h]

theorem Call.runtime_change {s s' : TaskDb ι κ} (h : c.run.Ok s ev s') (hr : s.tasks.row id = some r) :
    ∃ r', s'.tasks.row id = some r' ∧ (c.subject = some id → c.Rewrites r r'.runtime) ∧
      (c.subject ≠ some id → r'.runtime = r.runtime) := by
  obtain ⟨r', hr', hstep⟩ := (Call.run_effect h).row_step hr
  refine ⟨r', hr', fun hs => ?_, fun hs => ?_⟩
  · cases hstep.change with
    | kept hother _ _ => exact absurd hs hother
    | observed heq _ _ hobs => rw [heq]; exact hobs
    | admitted heq _ _ hadm => rw [heq]; exact hadm.spent
    | resolved heq _ _ hrt => rw [heq]; exact hrt
    | settled heq hrow => rw [heq, hrow]; exact settleRow_runtime _ _ _
  · cases hstep.change with
    | kept _ _ hrt => exact hrt
    | observed heq | admitted heq | resolved heq | settled heq => rw [heq] at hs; exact absurd rfl hs

theorem Change.key (h : Change c id r r') (hopen : r.runtime.operationKey ≠ "") (tasks : Table (Task ι κ)) :
    r'.runtime.operationKey = r.runtime.operationKey ∨
      Operation.resolved id r.runtime.operationKey ∈ c.operation tasks := by
  cases h with
  | kept _ _ hrt => exact .inl (by rw [hrt])
  | observed _ _ _ hobs =>
    rcases hobs with ⟨hempty, -⟩ | ⟨-, hrt⟩
    · exact absurd hempty hopen
    · exact .inl (by rw [hrt])
  | admitted _ _ _ hadm =>
    obtain ⟨startedAt, -, hrt⟩ := hadm.spent
    exact .inl (by rw [hrt]; exact (hadm.free.resolve_left hopen).symm)
  | resolved heq _ hkey _ => subst heq; exact .inr (by rw [hkey]; exact List.mem_singleton_self _)
  | settled _ hrow => exact .inl (by rw [hrow, settleRow_runtime])

theorem recordCalls_key {s s' : TaskDb ι κ} (h : (recordCalls cs).Ok s ops s')
    (hr : s.tasks.row id = some r) (hopen : r.runtime.operationKey ≠ "") :
    (∃ r', s'.tasks.row id = some r' ∧ r'.runtime.operationKey = r.runtime.operationKey) ∨
      Operation.resolved id r.runtime.operationKey ∈ ops := by
  induction cs generalizing s ops r with
  | nil =>
    simp only [recordCalls, Tx.ok_pure] at h
    exact .inl ⟨r, by rw [h.2]; exact hr, rfl⟩
  | cons c cs ih =>
    obtain ⟨ev, t, rest, hc, hrest, rfl⟩ := recordCalls_cons h
    obtain ⟨q, hq, hstep⟩ := (Call.run_effect hc).row_step hr
    rcases hstep.change.key hopen _ with hkey | hres
    · rcases ih hrest hq (by rw [hkey]; exact hopen) with ⟨r', hr', hkey'⟩ | hres
      · exact .inl ⟨r', hr', hkey'.trans hkey⟩
      · exact .inr (List.mem_append_right _ (by rw [← hkey]; exact hres))
    · exact .inr (List.mem_append_left _ hres)

theorem budgetLts_key {s s' : BudgetState ι κ} (h : (budgetLts ι κ reg).step s a = some s')
    (hr : s.db.tasks.row id = some r) (hopen : r.runtime.operationKey ≠ "") :
    (∃ r', s'.db.tasks.row id = some r' ∧ r'.runtime.operationKey = r.runtime.operationKey) ∨
      ∃ ops, s'.history = s.history ++ ops ∧ Operation.resolved id r.runtime.operationKey ∈ ops := by
  obtain ⟨ops, hhist, hstep⟩ := budgetLts_step h
  suffices hwhole : (∃ r', s'.db.tasks.row id = some r' ∧ r'.runtime.operationKey = r.runtime.operationKey) ∨
      Operation.resolved id r.runtime.operationKey ∈ ops from
    hwhole.imp_right fun hres => ⟨ops, hhist, hres⟩
  rcases hstep with ⟨cs, -, -, hrun⟩ | ⟨_, _, id', _, _, _, -, -, hrun⟩
  · exact recordCalls_key hrun hr hopen
  obtain ⟨row, t, t', _, hrow, htasks, -, -, hcalls, hsettle⟩ := recordCommit_ok hrun
  rcases recordCalls_key hcalls (by rw [htasks]; exact hr) hopen with ⟨q, hq, hkey⟩ | hres
  · obtain ⟨-, w, hw⟩ := settle_ok hsettle
    by_cases hid : id = id'
    · subst hid
      obtain rfl : q = w := Option.some.inj (hq.symm.trans hw.row)
      exact .inl ⟨_, hw.row', by rw [settleRow_runtime]; exact hkey⟩
    · exact .inl ⟨q, (hw.other id hid).trans hq, hkey⟩
  · exact .inr hres

theorem updateOperation_refused {fn : Task ι κ → TaskRuntime → TaskTx ι κ TaskRuntime} {s : TaskDb ι κ}
    {err : RepoError} (hr : s.tasks.row id = some r) (hfn : ∀ t, fn r r.runtime t = .error err) :
    updateOperation id g fn s =
      .error (if r.heldBy g (s.clock + s.ticks.headD 0) = true then err else .taskLeaseLost) := by
  simp only [List.headD_eq_head?_getD]
  by_cases hheld : r.heldBy g (s.clock + s.ticks.head?.getD 0) = true
  · simp [updateOperation, validateClaim, readClock, heldRow, getByID, Tx.orFail, Tx.require, Bind.bind,
      Tx.bind, Tx.read, Tx.write, Pure.pure, Tx.pure, hr, hheld, hfn]
  · simp [updateOperation, validateClaim, readClock, heldRow, getByID, Tx.orFail, Tx.require, Bind.bind,
      Tx.bind, Tx.read, Tx.write, Pure.pure, Tx.pure, Tx.fail, hr, hheld]

/-- **The effect budget.** Between two points of the history with no resolution of the task in between, its admissions
    have one key and strictly increasing attempts; and while an operation is open another one is refused. -/
theorem effect_budget {reg : Policies} {s : BudgetState ι κ} (hs : (budgetLts ι κ reg).Reachable s) :
    (∀ pre mid post id, s.history = pre ++ mid ++ post → (∀ key, Operation.resolved id key ∉ mid) →
      ∀ r, s.db.tasks.row id = some r →
        (∀ p ∈ admissionsOf id mid, ∀ q ∈ admissionsOf id mid, p.1 = q.1) ∧
        ((admissionsOf id mid).map Prod.snd).Pairwise (· < ·) ∧
        (admissionsOf id mid).length ≤ (reg.policy r.type).maxAttempts) ∧
    (∀ id r, s.db.tasks.row id = some r → r.runtime.operationKey ≠ "" →
      (∀ key, key ≠ "" → key ≠ r.runtime.operationKey → ∀ g (checkpoint : κ) ticks,
        let refusal : RepoError := if r.heldBy g (s.db.clock + ticks.headD 0) = true
          then .taskOperationUnresolved else .taskLeaseLost
        admitEffect id g key checkpoint { s.db with ticks := ticks } = .error refusal ∧
          observeOperation id g key { s.db with ticks := ticks } = .error refusal) ∧
      (∀ a s', (budgetLts ι κ reg).step s a = some s' →
        (∃ r', s'.db.tasks.row id = some r' ∧ r'.runtime.operationKey = r.runtime.operationKey) ∨
          ∃ ops, s'.history = s.history ++ ops ∧ Operation.resolved id r.runtime.operationKey ∈ ops)) ∧
    (∀ (c : Call ι κ) db ev db', c.run.Ok db ev db' → ∀ id r, db.tasks.row id = some r →
      ∃ r', db'.tasks.row id = some r' ∧ (c.subject = some id → c.Rewrites r r'.runtime) ∧
        (c.subject ≠ some id → r'.runtime = r.runtime)) := by
  have hi := budgetInv_reachable hs
  refine ⟨fun pre mid post id hhist hmid r hr => ?_, fun id r hr hopen => ⟨fun key hkey hne g cp ticks => ?_,
    fun a s' hstep => budgetLts_key hstep hr hopen⟩, fun c db ev db' hrun id r hr => Call.runtime_change hrun hr⟩
  · have hpast := hi.past (pre ++ mid) (by rw [hhist]; exact List.prefix_append _ _) id r hr
    rw [openAdmissions_unresolved hmid] at hpast
    have hspend := hpast.sublist (List.sublist_append_right _ _)
    exact ⟨hspend.key, hspend.increasing, hspend.length_le⟩
  · have hbusy : (r.runtime.operationKey == "" || r.runtime.operationKey == key) = false := by
      simp [hopen, Ne.symm hne]
    constructor
    · have hcall : ∀ t, admitRuntime id g key cp r r.runtime t = .error .taskOperationUnresolved := fun t => by
        simp [admitRuntime, Tx.require, hbusy, Bind.bind, Tx.bind, Tx.fail]
      have hrefused := updateOperation_refused (g := g) (s := { s.db with ticks := ticks }) hr hcall
      simpa [admitEffect, Tx.require, hkey, Bind.bind, Tx.bind, Pure.pure, Tx.pure] using hrefused
    · have hcall : ∀ t, observeRuntime id g key r r.runtime t = .error .taskOperationUnresolved := fun t => by
        simp [observeRuntime, Tx.require, hbusy, Bind.bind, Tx.bind, Tx.fail]
      have hrefused := updateOperation_refused (g := g) (s := { s.db with ticks := ticks }) hr hcall
      simpa [observeOperation, Tx.require, hkey, Bind.bind, Tx.bind, Pure.pure, Tx.pure] using hrefused

def twoAttempts : Policies := ⟨fun _ => ⟨2, 0, 0, 0⟩, fun _ => by decide⟩

/-- An effect is admitted, its attempt ends in a retry, and the next attempt admits it again. -/
def retriedRun : List (Commit Unit Unit × List Nat) :=
  [(.calls [.enqueue freshTask none], [1]), (.calls [.claimNext 10 {} []], [1]),
    (.calls [.admitEffect 1 1 "ensure:1" ()], []),
    (.result 0 0 1 1 { kind := .retry, resumeMode := some .execute, err := true
                       failureReason := some "unreachable" } [], []),
    (.calls [.claimNext 10 {} []], [1]), (.calls [.admitEffect 1 2 "ensure:1" ()], [])]

def retriedState : BudgetState Unit Unit :=
  ((budgetLts Unit Unit twoAttempts).run ⟨⟨0, [], Table.empty⟩, []⟩ retriedRun).getD ⟨⟨0, [], Table.empty⟩, []⟩

theorem retriedState_reachable : (budgetLts Unit Unit twoAttempts).Reachable retriedState := by
  have hinit : (budgetLts Unit Unit twoAttempts).Reachable ⟨⟨0, [], Table.empty⟩, []⟩ := .of_init ⟨rfl, rfl⟩
  exact hinit.of_run_isSome (by decide +kernel)

theorem retriedState_history : retriedState.history = [.admitted 1 "ensure:1" 1, .admitted 1 "ensure:1" 2] := by
  decide +kernel

/-- Both attempts of the policy are spent on one operation, which is as many as there can be. -/
theorem effect_budget_retried : (budgetLts Unit Unit twoAttempts).Reachable retriedState ∧
      admissionsOf 1 retriedState.history = [("ensure:1", 1), ("ensure:1", 2)] ∧
      ∀ r, retriedState.db.tasks.row 1 = some r →
        (admissionsOf 1 retriedState.history).length ≤ (twoAttempts.policy r.type).maxAttempts := by
  refine ⟨retriedState_reachable, by rw [retriedState_history]; rfl, fun r hr => ?_⟩
  have hresolved : ∀ key, Operation.resolved 1 key ∉ retriedState.history := by
    intro key hm
    rw [retriedState_history] at hm
    simp at hm
  have hwhole : retriedState.history = [] ++ retriedState.history ++ [] := by simp
  exact ((effect_budget retriedState_reachable).1 [] retriedState.history [] 1 hwhole hresolved r hr).2.2

end SynapS3.Tasks
