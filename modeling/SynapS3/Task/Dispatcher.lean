import Mathlib.Data.List.Perm.Basic
import SynapS3.Lib.Lts
import SynapS3.Task.Fencing

/-!
# `Task.Dispatcher` — how many executions one engine process runs

`Engine.runDispatcher` keeps two maps of the executions it admitted, `active` and `activeByType`, while the
executions themselves end on their own: one that has returned still has to put its task on the channel
`finished`, and the loop forgets it only when it receives it there. Nothing here depends on a lease, so an
execution whose lease has run out counts as long as it runs.

The state has the two maps next to what they are about — the executions that run, those that have returned
and not sent yet, and the channel.
-/

namespace SynapS3.Tasks

variable {ι κ : Type}

/-! ## The loop -/

/-- An execution, as the dispatcher knows it. -/
structure Invocation where
  id : Nat
  type : TaskType
  deriving DecidableEq

inductive Phase where
  | head
  /-- In the loop that empties `finished` without blocking. -/
  | draining
  | admitting
  | waiting
  | stopped
  deriving DecidableEq

/-- One engine process. `cancelled` says that its context is done. -/
structure Dispatcher (ι κ : Type) where
  db : TaskDb ι κ
  phase : Phase := .head
  cancelled : Bool := false
  active : List Invocation := []
  activeByType : TaskType → Nat := fun _ => 0
  running : List Invocation := []
  returned : List Nat := []
  finished : List Nat := []

/-- The engine's configuration. `maxConcurrency` is that of the registered definition of a type. -/
structure DispatcherConfig where
  concurrency : Nat
  leaseDuration : Int
  maxConcurrency : TaskType → Option Nat

def TaskType.all : List TaskType :=
  [.bucketProvision, .uploadPlan, .storageDataSetEnsure, .storageTransferPlan, .storageStore, .storagePull,
    .storageCommit, .providerReplacementCoordinate, .cacheCapacityReconcile, .cacheLocalReconcile, .cacheEvict,
    .cacheReconcileDurability, .storageCleanup, .storageRemoval, .storageDataSetRetire, .walletOperation,
    .observabilityRefresh, .approvedProviderRefresh, .endorsedProviderRefresh, .providerUploadSpeedTest]

theorem TaskType.mem_all (t : TaskType) : t ∈ TaskType.all := by
  cases t <;> decide

/-- The type has an active execution and as many as its definition allows. -/
def DispatcherConfig.saturated (cfg : DispatcherConfig) (activeByType : TaskType → Nat) (t : TaskType) : Bool :=
  0 < activeByType t && (cfg.maxConcurrency t).any fun max => 0 < max && max ≤ activeByType t

def Dispatcher.claimFilter (cfg : DispatcherConfig) (s : Dispatcher ι κ) : TaskClaimFilter where
  excludedTypes := TaskType.all.filter (cfg.saturated s.activeByType)
  excludedTaskIDs := s.active.map (·.id)

/-- `active[id] = type` and `activeByType[type]++`, and the execution starts. -/
def Dispatcher.start (s : Dispatcher ι κ) (id : Nat) (type : TaskType) : Dispatcher ι κ :=
  { s with
    active := ⟨id, type⟩ :: s.active.eraseP (·.id == id)
    activeByType := fun t => if t = type then s.activeByType t + 1 else s.activeByType t
    running := ⟨id, type⟩ :: s.running }

/-- `release`. An identifier that is not active is not sent (`Tracked`). -/
def Dispatcher.release (s : Dispatcher ι κ) (id : Nat) : Dispatcher ι κ :=
  match s.active.find? (·.id == id) with
  | none => s
  | some e =>
    { s with
      active := s.active.eraseP (·.id == id)
      activeByType := fun t => if t = e.type then s.activeByType t - 1 else s.activeByType t }

/-- `ClaimNext` under the filter. A claim that was answered starts an execution and the loop goes on; without
    an answer, or with an error, it goes to the `select`, and the claim may have been committed all the same. -/
def Dispatcher.claim (cfg : DispatcherConfig) (s : Dispatcher ι κ) (ticks : List Nat) (outcome : Tx.Outcome)
    (locked : List Nat) : Dispatcher ι κ :=
  match outcome, Tasks.claimNext cfg.leaseDuration (s.claimFilter cfg) locked { s.db with ticks := ticks } with
  | .failed, _ | _, .error _ => { s with phase := .waiting }
  | .lost, .ok (_, db) | .ok, .ok (none, db) => { s with db := db, phase := .waiting }
  | .ok, .ok (some (id, task), db) => Dispatcher.start { s with db := db } id task.type

inductive DispatcherAction (ι κ : Type) where
  | cancel
  | enter
  | receive
  | drained
  | claim (ticks : List Nat) (outcome : Tx.Outcome) (locked : List Nat)
  | full
  | tick
  | stop
  | finish (i : Nat)
  | send (i : Nat)
  /-- Any statement on the database: of an execution, of the recovery queue, of another process. -/
  | database (db : TaskDb ι κ)

def Dispatcher.step (cfg : DispatcherConfig) (s : Dispatcher ι κ) : DispatcherAction ι κ → Option (Dispatcher ι κ)
  | .cancel => some { s with cancelled := true }
  | .enter =>
    if s.phase = .head then some { s with phase := if s.cancelled then .stopped else .draining } else none
  | .receive =>
    match s.finished with
    | [] => none
    | id :: rest =>
      match s.phase with
      | .draining => some (Dispatcher.release { s with finished := rest } id)
      | .waiting => some (Dispatcher.release { s with finished := rest, phase := .head } id)
      | _ => none
  | .drained => if s.phase = .draining ∧ s.finished = [] then some { s with phase := .admitting } else none
  | .claim ticks outcome locked =>
    if s.phase = .admitting ∧ s.active.length < cfg.concurrency ∧ s.cancelled = false then
      some (s.claim cfg ticks outcome locked)
    else none
  | .full =>
    if s.phase = .admitting ∧ ¬(s.active.length < cfg.concurrency ∧ s.cancelled = false) then
      some { s with phase := .waiting }
    else none
  | .tick => if s.phase = .waiting then some { s with phase := .head } else none
  | .stop => if s.phase = .waiting ∧ s.cancelled = true then some { s with phase := .stopped } else none
  | .finish i => do
    let e ← s.running[i]?
    pure { s with running := s.running.eraseIdx i, returned := e.id :: s.returned }
  | .send i => do
    let id ← s.returned[i]?
    if s.finished.length < cfg.concurrency then
      pure { s with returned := s.returned.eraseIdx i, finished := s.finished ++ [id] }
    else none
  | .database db => some { s with db := db }

def dispatchMachine (ι κ : Type) (cfg : DispatcherConfig) : Lts (Dispatcher ι κ) (DispatcherAction ι κ) where
  init s := ∃ db, s = { db := db }
  step := Dispatcher.step cfg

/-! ## What a claim leaves out -/

theorem claimNext_excluded_row {dur : Int} {filter : TaskClaimFilter} {locked : List Nat} {id : Nat}
    {s s' : TaskDb ι κ} {a : Option (Nat × Task ι κ)} (h : (claimNext dur filter locked).Ok s a s')
    (hid : id ∈ filter.excludedTaskIDs) : s'.tasks.row id = s.tasks.row id := by
  obtain ⟨hclaim, hadmits⟩ := claimNext_ok h
  cases hclaim with
  | nothing htasks => rw [htasks]
  | claimed _ hclaimed =>
    refine hclaimed.other id fun he => ?_
    exact (hadmits _ rfl).1 (he ▸ hid)

/-! ## The maps are exact -/

/-- The maps of the dispatcher say what is running, and within the limits. -/
structure Tracked (cfg : DispatcherConfig) (s : Dispatcher ι κ) : Prop where
  /-- What is active runs, or has returned and has not been received yet. -/
  ids : (s.active.map (·.id)).Perm (s.running.map (·.id) ++ s.returned ++ s.finished)
  nodup : (s.active.map (·.id)).Nodup
  active : ∀ e ∈ s.running, e ∈ s.active
  counted : ∀ t, s.activeByType t = s.active.countP (·.type = t)
  bounded : s.active.length ≤ cfg.concurrency
  typeBounded : ∀ t max, cfg.maxConcurrency t = some max → 0 < max → s.activeByType t ≤ max

variable {cfg : DispatcherConfig} {id : Nat} {s : Dispatcher ι κ}

theorem Tracked.frame {s' : Dispatcher ι κ} (h : Tracked cfg s) (hactive : s'.active = s.active)
    (hcount : s'.activeByType = s.activeByType) (hrunning : s'.running = s.running)
    (hreturned : s'.returned = s.returned) (hfinished : s'.finished = s.finished) : Tracked cfg s' := by
  obtain ⟨hids, hnodup, hact, hcounted, hbounded, htype⟩ := h
  constructor
  · rw [hactive, hrunning, hreturned, hfinished]; exact hids
  · rw [hactive]; exact hnodup
  · rw [hactive, hrunning]; exact hact
  · rw [hactive, hcount]; exact hcounted
  · rw [hactive]; exact hbounded
  · rw [hcount]; exact htype

theorem Tracked.start (h : Tracked cfg s) {type : TaskType} (hroom : s.active.length < cfg.concurrency)
    (hid : id ∉ s.active.map (·.id)) (htype : cfg.saturated s.activeByType type = false) :
    Tracked cfg (s.start id type) := by
  have herase : s.active.eraseP (·.id == id) = s.active := by
    refine List.eraseP_of_forall_not fun e he => ?_
    simp only [beq_iff_eq]
    exact fun heq => hid (List.mem_map.mpr ⟨e, he, heq⟩)
  constructor
  · simp only [Dispatcher.start, herase, List.map_cons, List.cons_append]
    exact h.ids.cons id
  · simp only [Dispatcher.start, herase, List.map_cons, List.nodup_cons]
    exact ⟨hid, h.nodup⟩
  · intro e he
    simp only [Dispatcher.start, herase, List.mem_cons] at he ⊢
    exact he.imp_right (h.active e)
  · intro t
    simp only [Dispatcher.start, herase, List.countP_cons, h.counted t, decide_eq_true_eq]
    by_cases ht : t = type
    · simp [ht]
    · simp [ht, Ne.symm ht]
  · simp only [Dispatcher.start, herase, List.length_cons]
    omega
  · intro t max hmax hpos
    have hle := h.typeBounded t max hmax hpos
    simp only [Dispatcher.start]
    split
    · next ht =>
      -- the type was left out of the filter, so it has one execution less than it may have
      subst ht
      simp only [DispatcherConfig.saturated, hmax, Option.any_some, Bool.and_eq_false_iff,
        decide_eq_false_iff_not] at htype
      omega
    · exact hle

theorem Tracked.release {rest : List Nat} (h : Tracked cfg s) (hfinished : s.finished = id :: rest) :
    Tracked cfg (Dispatcher.release { s with finished := rest } id) := by
  have hperm : (s.active.map (·.id)).Perm (id :: (s.running.map (·.id) ++ s.returned ++ rest)) := by
    refine h.ids.trans ?_
    rw [hfinished]
    exact List.perm_middle
  have hmem : id ∈ s.active.map (·.id) := hperm.symm.subset (List.mem_cons_self ..)
  obtain ⟨e, he, hid⟩ := List.mem_map.mp hmem
  -- the entry that is deleted, and that it is the only one with its identifier
  have hfound : (s.active.find? (·.id == id)).isSome = true := List.find?_isSome.mpr ⟨e, he, by simp [hid]⟩
  obtain ⟨x, hx⟩ := Option.isSome_iff_exists.mp hfound
  obtain ⟨hxid, before, after, hsplit, hbefore⟩ := List.find?_eq_some_iff_append.mp hx
  have hxid : x.id = id := by simpa using hxid
  have herase : s.active.eraseP (·.id == id) = before ++ after := by
    rw [hsplit, List.eraseP_append_right, List.eraseP_cons_of_pos (by simpa using hxid)]
    intro b hb
    simpa using hbefore b hb
  have hcons : s.active.Perm (x :: (before ++ after)) := by
    rw [hsplit]
    exact List.perm_middle
  have hids : ((before ++ after).map (·.id)).Perm (s.running.map (·.id) ++ s.returned ++ rest) := by
    have := (hcons.map (·.id)).symm.trans hperm
    rw [List.map_cons, hxid] at this
    exact this.cons_inv
  have hnodup := (hcons.map (·.id)).nodup_iff.mp h.nodup
  rw [List.map_cons, List.nodup_cons] at hnodup
  have hcount : ∀ t, s.active.countP (·.type = t) = (x :: (before ++ after)).countP (·.type = t) :=
    fun t => hcons.countP_eq _
  simp only [Dispatcher.release, hx, herase]
  constructor
  · exact hids
  · exact hnodup.2
  · intro y hy
    have hmem := hcons.subset (h.active y hy)
    rcases List.mem_cons.mp hmem with rfl | hy'
    · -- the received execution does not run any more
      exfalso
      refine hnodup.1 (hids.symm.subset ?_)
      simp only [List.mem_append]
      exact .inl (.inl (List.mem_map.mpr ⟨y, hy, rfl⟩))
    · exact hy'
  · intro t
    have hc := hcount t
    have ht := h.counted t
    rw [List.countP_cons] at hc
    dsimp only
    split
    · next heq =>
      subst heq
      simp only [decide_true, if_true] at hc
      omega
    · next hne =>
      simp only [Ne.symm hne, decide_false, Bool.false_eq_true, if_false] at hc
      omega
  · have := hcons.length_eq
    have := h.bounded
    simp only [List.length_cons] at *
    omega
  · intro t max hmax hpos
    have hle := h.typeBounded t max hmax hpos
    dsimp only
    split <;> omega

variable {i : Nat}

theorem Tracked.finish {e : Invocation} (h : Tracked cfg s) (he : s.running[i]? = some e) :
    Tracked cfg { s with running := s.running.eraseIdx i, returned := e.id :: s.returned } := by
  obtain ⟨hi, rfl⟩ := List.getElem?_eq_some_iff.mp he
  refine { h with ids := ?_, active := fun x hx => h.active x (List.mem_of_mem_eraseIdx hx) }
  refine h.ids.trans (List.Perm.append_right _ ?_)
  have hrun := (List.getElem_cons_eraseIdx_perm hi).symm.map (·.id)
  exact (hrun.append_right _).trans List.perm_middle.symm

theorem Tracked.send (h : Tracked cfg s) (hid : s.returned[i]? = some id) :
    Tracked cfg { s with returned := s.returned.eraseIdx i, finished := s.finished ++ [id] } := by
  obtain ⟨hi, rfl⟩ := List.getElem?_eq_some_iff.mp hid
  refine { h with ids := h.ids.trans ?_ }
  have hret := (List.getElem_cons_eraseIdx_perm hi).symm
  simp only [List.append_assoc]
  refine List.Perm.append_left _ ?_
  refine (hret.append_right _).trans ?_
  rw [List.cons_append]
  exact (List.perm_append_singleton _ _).symm.trans (by rw [List.append_assoc])

theorem Tracked.claim (h : Tracked cfg s) (hroom : s.active.length < cfg.concurrency) (ticks : List Nat)
    (outcome : Tx.Outcome) (locked : List Nat) : Tracked cfg (s.claim cfg ticks outcome locked) := by
  unfold Dispatcher.claim
  split
  · exact h.frame rfl rfl rfl rfl rfl
  · exact h.frame rfl rfl rfl rfl rfl
  · exact h.frame rfl rfl rfl rfl rfl
  · exact h.frame rfl rfl rfl rfl rfl
  · next id task db hclaim =>
    obtain ⟨hid, htype⟩ := (claimNext_ok hclaim).2 _ rfl
    have hdb : Tracked cfg { s with db := db } := h.frame rfl rfl rfl rfl rfl
    refine hdb.start hroom hid ?_
    simp only [Dispatcher.claimFilter, List.mem_filter, TaskType.mem_all, true_and, Bool.not_eq_true] at htype
    exact htype

theorem Tracked.step {s' : Dispatcher ι κ} {a : DispatcherAction ι κ} (h : Tracked cfg s)
    (hs : Dispatcher.step cfg s a = some s') : Tracked cfg s' := by
  cases a with
  | cancel => cases hs; exact h.frame rfl rfl rfl rfl rfl
  | enter | drained | full | tick | stop =>
    simp only [Dispatcher.step, Option.ite_none_right_eq_some, Option.some.injEq] at hs
    obtain ⟨-, rfl⟩ := hs
    exact h.frame rfl rfl rfl rfl rfl
  | receive =>
    simp only [Dispatcher.step] at hs
    split at hs
    · cases hs
    next id rest hfinished =>
    split at hs
    · cases hs
      exact h.release hfinished
    · cases hs
      have hhead : Tracked cfg { s with phase := .head } := h.frame rfl rfl rfl rfl rfl
      exact hhead.release hfinished
    · cases hs
  | claim ticks outcome locked =>
    simp only [Dispatcher.step, Option.ite_none_right_eq_some, Option.some.injEq] at hs
    obtain ⟨⟨-, hroom, -⟩, rfl⟩ := hs
    exact h.claim hroom ticks outcome locked
  | finish i =>
    obtain ⟨e, he, hs⟩ := Option.bind_eq_some_iff.mp hs
    cases hs
    exact h.finish he
  | send i =>
    obtain ⟨id, hid, hs⟩ := Option.bind_eq_some_iff.mp hs
    obtain ⟨-, hs⟩ := Option.ite_none_right_eq_some.mp hs
    cases hs
    exact h.send hid
  | database db => cases hs; exact h.frame rfl rfl rfl rfl rfl

theorem Tracked.of_reachable (h : (dispatchMachine ι κ cfg).Reachable s) : Tracked cfg s := by
  refine h.invariant ?_ (fun _ _ _ hi hs => hi.step hs)
  rintro _ ⟨db, rfl⟩
  exact ⟨List.Perm.refl _, List.nodup_nil, nofun, fun _ => rfl, Nat.zero_le _, fun _ _ _ _ => Nat.zero_le _⟩

/-! ## The limits -/

theorem Tracked.running_subperm (h : Tracked cfg s) : s.running.Subperm s.active := by
  have hnodup := h.ids.nodup_iff.mp h.nodup
  rw [List.append_assoc, List.nodup_append] at hnodup
  exact List.subperm_of_subset (List.Nodup.of_map _ hnodup.1) h.active

/-- **The dispatcher keeps its limits**: on all executions, on those of a type, and of one per task; and a claim —
    answered or not — leaves the rows of all tasks that still run as they are. -/
theorem dispatcher_limits {s : Dispatcher ι κ} (h : (dispatchMachine ι κ cfg).Reachable s) :
    s.running.length ≤ cfg.concurrency ∧
    (∀ t max, cfg.maxConcurrency t = some max → 0 < max → s.running.countP (·.type = t) ≤ max) ∧
    (s.running.map (·.id)).Nodup ∧
    ∀ ticks outcome locked s', Dispatcher.step cfg s (.claim ticks outcome locked) = some s' →
      ∀ e ∈ s.running, s'.db.tasks.row e.id = s.db.tasks.row e.id := by
  have hinv := Tracked.of_reachable h
  refine ⟨?_, ?_, ?_, ?_⟩
  · exact le_trans hinv.running_subperm.length_le hinv.bounded
  · intro t max hmax hpos
    have hle := hinv.running_subperm.countP_le (p := fun e => decide (e.type = t))
    rw [← hinv.counted t] at hle
    exact le_trans hle (hinv.typeBounded t max hmax hpos)
  · have hnodup := hinv.ids.nodup_iff.mp hinv.nodup
    rw [List.append_assoc, List.nodup_append] at hnodup
    exact hnodup.1
  · intro ticks outcome locked s' hs e he
    have hexcluded : e.id ∈ (s.claimFilter cfg).excludedTaskIDs :=
      List.mem_map.mpr ⟨e, hinv.active e he, rfl⟩
    simp only [Dispatcher.step, Option.ite_none_right_eq_some, Option.some.injEq] at hs
    obtain ⟨-, rfl⟩ := hs
    unfold Dispatcher.claim
    split
    · rfl
    · rfl
    · next hclaim => exact (claimNext_excluded_row hclaim hexcluded :)
    · next hclaim => exact (claimNext_excluded_row hclaim hexcluded :)
    · next hclaim => exact (claimNext_excluded_row hclaim hexcluded :)

def twoOfAType : DispatcherConfig := ⟨3, 10, fun _ => some 2⟩

def twoRounds : Dispatcher Unit Unit where
  db := ⟨0, [], (Table.empty.insert freshTask).insert freshTask⟩

/-- Both rounds are claimed, the second long after the lease of the first ran out, and then nothing is. -/
def outlivedRun : List (DispatcherAction Unit Unit) :=
  [.enter, .drained, .claim [1] .ok [], .claim [100] .ok [], .claim [1] .ok []]

def outlivedState : Dispatcher Unit Unit :=
  ((dispatchMachine Unit Unit twoOfAType).run twoRounds outlivedRun).getD twoRounds

theorem outlivedState_reachable : (dispatchMachine Unit Unit twoOfAType).Reachable outlivedState := by
  have hinit : (dispatchMachine Unit Unit twoOfAType).Reachable twoRounds := .of_init ⟨_, rfl⟩
  exact hinit.of_run_isSome (by decide +kernel)

/-- An execution that outlived its lease is not claimed again by its own process. -/
theorem dispatcher_limits_outlived : (dispatchMachine Unit Unit twoOfAType).Reachable outlivedState ∧
      outlivedState.running.map (·.id) = [2, 1] ∧
      (outlivedState.db.tasks.row 1).map (·.claimGeneration) = some 1 ∧
      outlivedState.running.length ≤ twoOfAType.concurrency ∧ (outlivedState.running.map (·.id)).Nodup :=
  ⟨outlivedState_reachable, by decide +kernel, by decide +kernel, (dispatcher_limits outlivedState_reachable).1,
    (dispatcher_limits outlivedState_reachable).2.2.1⟩

/-- **No slot is lost**: what the maps count is what runs, has returned, or waits in the channel. So once all of that is
    received every slot is free again. -/
theorem dispatcher_slots_return {s : Dispatcher ι κ} (h : (dispatchMachine ι κ cfg).Reachable s) :
    (s.active.map (·.id)).Perm (s.running.map (·.id) ++ s.returned ++ s.finished) ∧
    (∀ t, s.activeByType t = s.active.countP (·.type = t)) ∧
    (s.running = [] → s.returned = [] → s.finished = [] → s.active = [] ∧ ∀ t, s.activeByType t = 0) := by
  have hinv := Tracked.of_reachable h
  refine ⟨hinv.ids, hinv.counted, fun hrun hret hfin => ?_⟩
  have hids := hinv.ids
  rw [hrun, hret, hfin] at hids
  have hactive : s.active = [] := List.map_eq_nil_iff.mp hids.eq_nil
  exact ⟨hactive, fun t => by rw [hinv.counted t, hactive]; rfl⟩

/-- Both executions end and are received, one at the last `select` and one in the draining loop. -/
def drainedState : Dispatcher Unit Unit :=
  ((dispatchMachine Unit Unit twoOfAType).run outlivedState
    [.finish 0, .finish 0, .send 0, .send 0, .receive, .enter, .receive]).getD twoRounds

theorem dispatcher_slots_return_drained : outlivedState.active.length = 2 ∧ drainedState.active = [] := by
  have hreach : (dispatchMachine Unit Unit twoOfAType).Reachable drainedState :=
    outlivedState_reachable.of_run_isSome (by decide +kernel)
  exact ⟨by decide +kernel, ((dispatcher_slots_return hreach).2.2 (by decide +kernel) (by decide +kernel)
    (by decide +kernel)).1⟩

end SynapS3.Tasks
