import SynapS3.Queue.Runs

/-!
# `Queue.Line` — the rounds of a subject form a line

In every reachable state an identity with a generation has at most one round that is not superseded, a round
has at most one direct successor, and it has ended and is superseded when it has one; the retries of a round
that succeed all answer with that successor (`retry_rounds_line`).

A round without a generation is left out of `uq_tasks_identity`. Speed tests of a provider are such rounds:
an earlier one stands next to a later one, and neither is superseded (`speed_tests_repeat`).
-/

namespace SynapS3.Queue

open ReadCommitted Tasks

/-- **Retry rounds form a line.** -/
theorem retry_rounds_line {ι κ : Type} [DecidableEq ι] {g : Registry ι κ}
    {cfg : Prog.Config (Db (Row.Value ι κ) Record) Nat (Stmt (Row.Value ι κ) Record) Stmt.Reply}
    (h : (queueMachine g).lts.Reachable cfg) :
    (∀ a b t u k, cfg.state.rows (.task a) = some t → cfg.state.rows (.task b) = some u →
      t.supersededAt = none → u.supersededAt = none → identityOf t = some k → identityOf u = some k → a = b) ∧
    (∀ p a b t u, cfg.state.rows (.task a) = some t → cfg.state.rows (.task b) = some u →
      t.retryOfTaskID = some p → u.retryOfTaskID = some p → a = b) ∧
    (∀ p c t, cfg.state.rows (.task c) = some t → t.retryOfTaskID = some p → p < c ∧
      ∃ u, cfg.state.rows (.task p) = some u ∧ u.status.terminal = true ∧ u.supersededAt.isSome = true) ∧
    ∀ id a b, (id, a) ∈ cfg.state.ghost.answers → (id, b) ∈ cfg.state.ghost.answers → a = b ∧
      ∃ t, cfg.state.rows (.task a) = some t ∧ t.retryOfTaskID = some id := by
  obtain ⟨hi, -⟩ := queue_inv h
  refine ⟨fun a b t u k ht hu hts hus htk huk => ?_, fun p a b t u ht hu htp hup => ?_, fun p c t ht hp => ?_,
    fun id a b ha hb => ?_⟩
  · -- both are the entry of the identity
    have hentry := hi.identities a t k ht hts htk
    rw [hi.identities b u k hu hus huk] at hentry
    exact (Option.some.inj hentry).symm
  · have hentry := (hi.parents a t p ht htp).2.1
    rw [(hi.parents b u p hu hup).2.1] at hentry
    exact (Option.some.inj hentry).symm
  · obtain ⟨hlt, -, u, hu, hs⟩ := hi.parents c t p ht hp
    exact ⟨hlt, u, hu, (hi.tasks p u hu).2 hs, hs⟩
  · obtain ⟨hchild, ht⟩ := hi.answers _ ha
    obtain ⟨hchild', -⟩ := hi.answers _ hb
    rw [hchild] at hchild'
    exact ⟨Option.some.inj hchild', ht⟩

/-! ## Runs -/

def capacitySchedule : ScheduleDefinition := ⟨"cache-capacity", .cacheCapacityReconcile, 60⟩

/-- Two schedules of the program, with the inputs of all tasks numbered: the number is the cycle of a recurring
    task, the provider of a speed test, and otherwise the generation of the one subject there is. -/
def smallRegistry : Registry Nat Unit where
  inputVersion _ := 1
  canonicalize _ input := some input
  identity type input :=
    if isRecurringSystem type then some ("system", "cycle", some input)
    else if type = .providerUploadSpeedTest then some ("provider", toString input, none)
    else some ("storage_content", "1", some input)
  manualRetryAllowed _ := true
  cycleInput cycle := cycle.toNat
  periodic := [capacitySchedule, ⟨"cache-local", .cacheLocalReconcile, 60⟩]
  keys := by decide
  types := by decide
  recurring := by decide
  named := by decide

abbrev SmallConfig := Prog.Config (Db (Row.Value Nat Unit) Record) Nat (Stmt (Row.Value Nat Unit) Record) Stmt.Reply

abbrev SmallLabel := Prog.Label Choice (Env (Request Nat Unit))

def emptyQueue : SmallConfig :=
  ⟨⟨⟨fun _ => none, 0, 1, {}⟩, fun _ => none, fun _ => [], fun _ _ => none, fun _ => false, 0⟩, []⟩

theorem emptyQueue_reachable : (queueMachine smallRegistry).lts.Reachable emptyQueue :=
  .of_init ⟨⟨⟨rfl, rfl⟩, fun _ => rfl, fun _ => rfl, fun _ => rfl, rfl⟩, rfl⟩

def play (i : Nat) (b : Request Nat Unit) (n : Nat) : List SmallLabel :=
  .env (.start b) :: List.replicate n (.act i (.go 0))

def measure : Request Nat Unit :=
  .transact [.enqueue [.providerUploadSpeedTest] ⟨.providerUploadSpeedTest, 7, none⟩] 0

def claimIt (id : Nat) : Request Nat Unit := .transact [.update id (.claim false 60)] 0

def endIt (id : Nat) (status : TaskStatus) : Request Nat Unit :=
  .settle id 1 [] { status := status, resumeMode := .execute } 0

def repeated : List SmallLabel :=
  play 0 measure 4 ++ play 1 (claimIt 1) 3 ++ play 2 (endIt 1 .completed) 6 ++ play 3 measure 4

def repeatedState : SmallConfig := ((queueMachine smallRegistry).lts.run emptyQueue repeated).getD emptyQueue

/-- **Two rounds of one provider, neither superseded.** -/
theorem speed_tests_repeat : (queueMachine smallRegistry).lts.Reachable repeatedState ∧
      ∃ t u, repeatedState.state.rows (.task 1) = some t ∧ repeatedState.state.rows (.task 2) = some u ∧
        t.supersededAt = none ∧ u.supersededAt = none ∧ t.type = u.type ∧ t.subjectType = u.subjectType ∧
        t.subjectKey = u.subjectKey ∧ t.generation = u.generation := by
  have hreach : (queueMachine smallRegistry).lts.Reachable repeatedState :=
    emptyQueue_reachable.of_run_isSome (by decide +kernel)
  have hone : (repeatedState.state.rows (.task 1)).map (fun t : Task Nat Unit =>
      (t.supersededAt, t.type, t.subjectType, t.subjectKey, t.generation)) =
      some (none, .providerUploadSpeedTest, "provider", "7", none) := by decide +kernel
  have htwo : (repeatedState.state.rows (.task 2)).map (fun t : Task Nat Unit =>
      (t.supersededAt, t.type, t.subjectType, t.subjectKey, t.generation)) =
      some (none, .providerUploadSpeedTest, "provider", "7", none) := by decide +kernel
  obtain ⟨t, ht, htc⟩ := Option.map_eq_some_iff.mp hone
  obtain ⟨u, hu, huc⟩ := Option.map_eq_some_iff.mp htwo
  simp only [Prod.mk.injEq] at htc huc
  obtain ⟨hts, htt, hty, htk, htg⟩ := htc
  obtain ⟨hus, hut, huy, huk, hug⟩ := huc
  exact ⟨hreach, t, u, ht, hu, hts, hus, htt.trans hut.symm, hty.trans huy.symm, htk.trans huk.symm,
    htg.trans hug.symm⟩

/-- A cycle of a schedule is dispatched, fails and is retried twice. -/
def retriedTwice : List SmallLabel :=
  play 0 (.ensure capacitySchedule) 3 ++ play 1 (.dispatch (fun _ => none) 0) 13 ++
    play 2 (claimIt 1) 3 ++ play 3 (endIt 1 .failed) 11 ++ play 4 (.retry 1 {} 0) 25 ++ play 5 (.retry 1 {} 0) 3

def retriedTwiceState : SmallConfig := ((queueMachine smallRegistry).lts.run emptyQueue retriedTwice).getD emptyQueue

theorem retriedTwice_reachable : (queueMachine smallRegistry).lts.Reachable retriedTwiceState :=
  emptyQueue_reachable.of_run_isSome (by decide +kernel)

/-- Both retries answer with the one successor. -/
theorem retry_rounds_line_twice : retriedTwiceState.state.ghost.answers = [(1, 2), (1, 2)] ∧
      ∃ t, retriedTwiceState.state.rows (.task 2) = some t ∧ t.retryOfTaskID = some 1 := by
  have hanswers : retriedTwiceState.state.ghost.answers = [(1, 2), (1, 2)] := by decide +kernel
  obtain ⟨-, -, -, hanswer⟩ := retry_rounds_line retriedTwice_reachable
  exact ⟨hanswers, (hanswer 1 2 2 (by rw [hanswers]; simp) (by rw [hanswers]; simp)).2⟩

/-- **Rounds are permanent**: in every run a round stays, with its type, subject, generation and the round it repeats;
    how it ended is final, and so are its supersession and its successor. -/
theorem rounds_permanent {ι κ : Type} [DecidableEq ι] {g : Registry ι κ}
    {cfg cfg' : Prog.Config (Db (Row.Value ι κ) Record) Nat (Stmt (Row.Value ι κ) Record) Stmt.Reply}
    (h : (queueMachine g).lts.Reachable cfg) (hrun : (queueMachine g).lts.Steps cfg cfg') :
    (∀ id t, cfg.state.rows (.task id) = some t → ∃ u, cfg'.state.rows (.task id) = some u ∧ Grow t u) ∧
    ∀ p c, cfg.state.rows (.child p) = some c → cfg'.state.rows (.child p) = some c := by
  have hguar := (hrun.lift (I := (queueMachine g).lts.Reachable) (R := fun a b => Guar a.state.toShared b.state.toShared)
    (fun _ => .refl _) (fun _ _ _ => .trans) (fun _ l _ hr hs => hr.steps (.single ⟨l, hs⟩))
    (fun _ l _ hr hs => (queue_inv hr).2 l _ hs) h).2
  exact ⟨hguar.tasks, hguar.children⟩

def failedCycleState : SmallConfig :=
  ((queueMachine smallRegistry).lts.run emptyQueue (retriedTwice.take 34)).getD emptyQueue

def retriedCycleState : SmallConfig :=
  ((queueMachine smallRegistry).lts.run failedCycleState (retriedTwice.drop 34)).getD emptyQueue

/-- The failed cycle is still there, as failed, after it was retried. -/
theorem rounds_permanent_retried :
    ∃ t u, failedCycleState.state.rows (.task 1) = some t ∧ t.status = .failed ∧ t.supersededAt = none ∧
      retriedCycleState.state.rows (.task 1) = some u ∧ Grow t u := by
  have hfailed : (failedCycleState.state.rows (.task 1)).map (fun t : Task Nat Unit => (t.status, t.supersededAt)) =
      some (.failed, none) := by decide +kernel
  have hreach : (queueMachine smallRegistry).lts.Reachable failedCycleState :=
    emptyQueue_reachable.of_run_isSome (by decide +kernel)
  have hrun : (queueMachine smallRegistry).lts.Steps failedCycleState retriedCycleState :=
    .of_run_isSome (by decide +kernel)
  obtain ⟨t, ht, hts⟩ := Option.map_eq_some_iff.mp hfailed
  obtain ⟨u, hu, hgrow⟩ := (rounds_permanent hreach hrun).1 1 t ht
  exact ⟨t, u, ht, congrArg Prod.fst hts, congrArg Prod.snd hts, hu, hgrow⟩

end SynapS3.Queue
