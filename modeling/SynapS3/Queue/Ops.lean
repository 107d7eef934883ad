import SynapS3.Queue.Enqueue

/-!
# `Queue.Ops` — the operations of the program's transactions

Every operation a transaction combines keeps the description of what the transaction has done, and none of
them moves a schedule: the rounds they create are of types that no schedule has (`body_runOps`).
-/

namespace SynapS3.Queue

open ReadCommitted Tasks

variable {ι κ : Type} [DecidableEq ι] {g : Registry ι κ} {o : Option (String × Nat)}
  {K : Known ι κ} {x y : QueueSnap ι κ}
  {allow : QueueShared ι κ → QueueShared ι κ → Bool}

/-! ## Creating -/

variable {request : EnqueueRequest ι} {task t : Task ι κ} {types : List TaskType}

omit [DecidableEq ι] in
theorem body_prepare {P : Task ι κ → QueueSnap ι κ → Prop}
    (hP : ∀ y now t, Later (contract g) x y → y.Coherent → t.type = request.type → P t { y with clock := now }) :
    Body (contract g) allow P (prepare g request) x := by
  refine Body.bind (Body.orRefuse fun canonical _ => Body.bind (Body.orRefuse fun subject _ => ?_))
  obtain ⟨subjectType, subjectKey, generation⟩ := subject
  exact Body.bind (Body.now fun y hy hc _ now _ => Body.pure (hP y now _ hy hc rfl))

omit [DecidableEq ι] in
theorem Work.body_prepare {P : Task ι κ → QueueSnap ι κ → Prop} (h : Work g o K x)
    (hP : ∀ y t, Work g o K y → t.type = request.type → P t y) :
    Body (contract g) allow P (prepare g request) x :=
  Queue.body_prepare fun _ _ t hy _ ht =>
    hP _ t ((h.later hy).congr rfl (fun _ _ => rfl) (fun _ _ => rfl) (le_refl _)) ht

theorem Work.body_enqueuePrepared (h : Work g none K x) :
    Body (contract g) allow (Enqueued g K task) (enqueuePrepared g task) x := by
  refine Body.bind (Body.mono h.body_enqueue fun r y hr => ?_)
  cases hr with
  | created id y work held view => exact Body.pure (.created id y work held view)
  | found id stored y work coherent view type =>
    exact Body.bind (Body.demand fun _ => Body.bind (Body.demand fun _ =>
      Body.pure (.found id stored y work coherent view type)))

omit [DecidableEq ι] in
theorem Enqueued.work {r : Nat × Task ι κ × Bool} (h : Enqueued g K task r y)
    (htype : isRecurringSystem task.type = false) : Work g none K y := by
  cases h with
  | created id y work => rw [openFor_of_ordinary htype] at work; exact work
  | found id stored y work => exact work

theorem Work.body_succeed {source : Nat} {prepared : Task ι κ} {P : Nat → QueueSnap ι κ → Prop}
    (h : Work g none K x)
    (hP : ∀ y id, Work g (openFor g prepared.type id) K y → y.held (.task id) = true →
      y.view (.task id) = some { prepared with retryOfTaskID := some source } → P id y) :
    Body (contract g) allow P (succeed g source prepared) x := by
  refine Body.bind (h.body_supersedeTerminal fun y hy => Body.bind (Body.mono hy.body_enqueuePrepared fun r z hr => ?_))
  cases hr with
  | created id z work held view => exact Body.bind (Body.demand fun _ => Body.pure (hP z id work held view))
  | found id stored z work => exact Body.bind (Body.demand nofun)

/-! ## Retrying -/

variable {id sourceID : Nat} {now : Int}

omit [DecidableEq ι] in
theorem Work.body_inspectRetry {P : Unit → QueueSnap ι κ → Prop} (h : Work g o K x)
    (hP : ∀ y, Work g o K y → P () y) : Body (contract g) allow P (inspectRetry g id task) x := by
  refine Body.bind (Body.demand fun _ => Body.bind (Body.demand fun _ => Body.bind (Body.demand fun _ => ?_)))
  split
  · exact Body.bind (Body.look fun y hy _ _ => Body.demand fun _ => hP y (h.later hy))
  · exact Body.pure (hP x h)

theorem ordinary_of_contains {type : TaskType} (h : (types.all fun type => !isRecurringSystem type) = true)
    (ht : types.contains type = true) : isRecurringSystem type = false := by
  have := List.all_eq_true.mp h type (List.contains_iff_mem.mp ht)
  simpa using this

theorem Work.body_retryInTransaction {availableAt : Option Int} {checkpoint : Option κ}
    {P : Nat → QueueSnap ι κ → Prop} (h : Work g none K x)
    (htypes : (types.all fun type => !isRecurringSystem type) = true) (hP : ∀ y id, Work g none K y → P id y) :
    Body (contract g) allow P (retryInTransaction g types sourceID availableAt checkpoint) x := by
  refine h.body_existing fun y t _ _ _ ht hw => Body.bind (Body.demand fun htype => ?_)
  refine Body.bind (Body.look fun z hz _ _ => ?_)
  dsimp only
  cases getDirectSuccessor z.view sourceID with
  | some r => exact Body.pure (hP z _ (hw.later hz))
  | none =>
    refine Body.bind (Body.demand fun _ => Body.bind ((hw.later hz).body_inspectRetry fun u hu => Body.bind
      (hu.body_prepare fun v prepared hv hprepared => ?_)))
    refine hv.body_succeed fun w id hw _ _ => hP w id ?_
    have hordinary : isRecurringSystem prepared.type = false := by
      rw [hprepared]; exact ordinary_of_contains htypes htype
    rw [openFor_of_ordinary hordinary] at hw
    exact hw

theorem Work.body_enqueueRecovery {P : Nat → QueueSnap ι κ → Prop} (h : Work g none K x)
    (htypes : (types.all fun type => !isRecurringSystem type) = true) (hP : ∀ y id, Work g none K y → P id y) :
    Body (contract g) allow P (enqueueRecoveryInTransaction g types sourceID request) x := by
  refine Body.bind (Body.demand fun htype => ?_)
  refine h.body_existing fun y t _ _ _ ht hw => Body.bind (Body.demand fun _ => Body.bind (Body.look fun z hz _ _ => ?_))
  dsimp only
  cases getDirectSuccessor z.view sourceID with
  | some r => exact Body.pure (hP z _ (hw.later hz))
  | none =>
    refine Body.bind (Body.demand fun _ => Body.bind ((hw.later hz).body_prepare fun v prepared hv hprepared => ?_))
    refine hv.body_succeed fun w id hw _ _ => hP w id ?_
    have hordinary : isRecurringSystem prepared.type = false := by
      rw [hprepared]; exact ordinary_of_contains htypes htype
    rw [openFor_of_ordinary hordinary] at hw
    exact hw

theorem Work.body_replaceTerminal {P : Nat × Bool → QueueSnap ι κ → Prop} (h : Work g none K x)
    (hP : ∀ y r, Work g none K y → P r y) :
    Body (contract g) allow P (enqueueOrReplaceTerminalInTransaction g request) x := by
  refine Body.bind (Body.demand fun htype => Body.bind (h.body_prepare fun y prepared hy hprepared => ?_))
  have hordinary : isRecurringSystem prepared.type = false := by
    rw [hprepared, eq_of_beq htype]; rfl
  refine Body.bind (Body.mono hy.body_enqueuePrepared fun r z hr => ?_)
  have hz := hr.work hordinary
  obtain ⟨id, stored, created⟩ := r
  dsimp only
  split
  · exact Body.pure (hP z _ hz)
  -- a stopped round is succeeded, an open one stands, a completed one is in the way
  cases stored.status with
  | pending | running => exact Body.pure (hP z _ hz)
  | failed | cancelled =>
    refine Body.bind (hz.body_supersedeTerminal fun u hu => Body.bind (Body.mono hu.body_enqueuePrepared fun r v hr => ?_))
    exact Body.pure (hP v _ (hr.work hordinary))
  | completed => exact Body.refuse

/-! ## The other updates of a round -/

omit [DecidableEq ι] in
theorem grow_of_columns {u : Task ι κ} (htype : u.type = t.type)
    (hsubject : (u.subjectType, u.subjectKey) = (t.subjectType, t.subjectKey))
    (hgen : u.generation = t.generation) (hretry : u.retryOfTaskID = t.retryOfTaskID)
    (hsuperseded : u.supersededAt = t.supersededAt) (hstatus : u.status = t.status) : Grow t u where
  type := htype
  subject := hsubject
  generation := hgen
  retryOf := hretry
  superseded ht := by rw [hsuperseded]; exact ht
  ended _ := hstatus
  stopped ht hu := by
    rw [hsuperseded] at hu
    rw [hstatus]
    exact ht hu

omit [DecidableEq ι] in
theorem grow_claimRow (hopen : t.status.terminal = false) (status : TaskStatus) (lease : Int) :
    Grow t (claimRow status lease t) where
  type := rfl
  subject := rfl
  generation := rfl
  retryOf := rfl
  superseded ht := ht
  ended ht := by rw [hopen] at ht; cases ht
  stopped ht hu := by
    have := ht hu
    rw [hopen] at this
    cases this

omit [DecidableEq ι] in
theorem RowUpdate.run_grow {u : RowUpdate κ} {t' : Task ι κ} (h : u.run now t = some t') :
    Grow t t' ∧ t'.supersededAt = t.supersededAt ∧ (t.status.terminal = false → t'.status.terminal = false) := by
  cases u with
  | claim expired leaseDuration =>
    have hstatus : (if expired then TaskStatus.running else .pending).terminal = false := by
      cases expired <;> rfl
    simp only [RowUpdate.run] at h
    generalize (if expired then TaskStatus.running else .pending) = status at h hstatus
    split at h
    case isFalse => cases h
    next hcond =>
    cases h
    have hopen : t.status.terminal = false := by rw [hcond.1]; exact hstatus
    exact ⟨grow_claimRow hopen _ _, rfl, fun _ => rfl⟩
  | renewLease _ _ | shortenLease _ _ | writeCheckpoint _ _ | markWorkStarted _ _ | updateOperation _ _
  | wakePending | acknowledge =>
    simp only [RowUpdate.run] at h
    split at h
    case isFalse => cases h
    cases h
    exact ⟨grow_of_columns rfl rfl rfl rfl rfl rfl, rfl, id⟩

omit [DecidableEq ι] in
theorem Work.body_update {u : RowUpdate κ} {P : Bool → QueueSnap ι κ → Prop} (h : Work g o K x)
    (hP : ∀ y b, Work g o K y → P b y) :
    Body (contract g) allow P (Sql.update (Row.task id) (fun t => (u.run now t).map some) : QueueSql ι κ Bool) x := by
  refine Body.update fun y hy hc _ => ⟨fun _ => hP y _ (h.later hy), fun w hw => ?_⟩
  obtain ⟨t, ht, hset⟩ := Option.bind_eq_some_iff.mp hw
  obtain ⟨t', ht', rfl⟩ := Option.map_eq_some_iff.mp hset
  obtain ⟨hgrow, hsuperseded, hopen⟩ := RowUpdate.run_grow ht'
  refine hP _ _ ((h.later hy).putTask hc ht hgrow fun hrows => ?_)
  have ha := (h.later hy).added hc ht hrows
  exact ⟨hsuperseded.trans ha.current, hopen ha.waiting⟩

/-! ## All of them -/

theorem Work.body_run {op : Op ι κ} (h : Work g none K x) (hop : op.ordinary = true) :
    Body (contract g) allow (fun _ y => Work g none K y) (op.run g) x := by
  cases op with
  | enqueue types request =>
    refine Body.bind (Body.demand fun htype => Body.bind (h.body_prepare fun y prepared hy hprepared => ?_))
    refine Body.bind (Body.mono hy.body_enqueuePrepared fun r z hr => Body.pure (hr.work ?_))
    rw [hprepared]
    exact ordinary_of_contains hop htype
  | retry types sourceID availableAt checkpoint =>
    exact Body.bind (h.body_retryInTransaction hop fun y _ hy => Body.pure hy)
  | recover types sourceID request =>
    exact Body.bind (h.body_enqueueRecovery hop fun y _ hy => Body.pure hy)
  | replaceTerminal request => exact Body.bind (h.body_replaceTerminal fun y _ hy => Body.pure hy)
  | update id u =>
    exact Body.bind (h.body_now fun y now _ hy => Body.bind (hy.body_update fun z _ hz => Body.demand fun _ => hz))

theorem Work.body_runOps {ops : List (Op ι κ)} (h : Work g none K x) (hops : ops.all Op.ordinary = true) :
    Body (contract g) allow (fun _ y => Work g none K y) (runOps g ops) x := by
  induction ops generalizing x with
  | nil => exact Body.pure h
  | cons op ops ih =>
    rw [List.all_cons, Bool.and_eq_true] at hops
    exact Body.bind (Body.mono (h.body_run hops.1) fun _ y hy => ih hy hops.2)

end SynapS3.Queue
