import SynapS3.Cache.Ownership

/-!
# `Cache.Exclusive` — eviction ownership is exclusive

What a step can add to the history, what an execution can do whose task does not own the eviction, and when the
local reconciler restores the residency.
-/

namespace SynapS3.Cache
open Tasks (TaskStatus TaskResumeMode)

variable {s s' : State}

/-! ## The history -/

/-- A step writes nothing, a residency, or the binding of a new eviction to a row without owner. -/
inductive LogStep (s s' : State) : Prop where
  | same (h : s'.log = s.log)
  | residency (b : Bool) (h : s'.log = s.log ++ [.residency b])
  | bound (r : Row) (hr : s.row = some r) (hnone : r.activeTask = none)
      (hrow : s'.row = some { r with operationGeneration := r.operationGeneration + 1, activeTask := some s.tasks.next })
      (h : s'.log = s.log ++ [.bound s.tasks.next])

theorem LogStep.persistCommit (s : State) (o : Tx.Outcome) : LogStep s (s.persistCommit o) := by
  rcases s.persistCommit_cases o with he | ⟨c, he, -⟩
  · rw [he]; exact .same rfl
  · rw [he]; exact .residency true rfl

theorem LogStep.record (s : State) (requireCommit overflow due : Bool) (o : Tx.Outcome) :
    LogStep s (s.record requireCommit overflow due o) := by
  rcases s.record_cases requireCommit overflow due o with ⟨c, -, he⟩ | ⟨⟨c, he, -⟩, -⟩
  · rw [he]; exact .same rfl
  · rw [he]; exact .residency true rfl

theorem LogStep.clearPresenceTx (s : State) (o : Tx.Outcome) : LogStep s (s.clearPresenceTx o) := by
  rcases s.clearPresenceTx_cases o with ⟨c, he⟩ | ⟨c, r, -, he⟩
  · rw [he]; exact .same rfl
  · rw [he]; exact .residency false rfl

theorem LogStep.frame {u u' : State} (h : LogStep u u') (hrow : u.row = s.row) (hlog : u.log = s.log)
    (htasks : u.tasks = s.tasks) (hrow' : s'.row = u'.row) (hlog' : s'.log = u'.log) : LogStep s s' := by
  cases h with
  | same h => exact .same (by rw [hlog', h, hlog])
  | residency b h => exact .residency b (by rw [hlog', h, hlog])
  | bound r hr hnone hr' h =>
    exact .bound r (hrow ▸ hr) hnone (by rw [hrow', hr', htasks]) (by rw [hlog', h, hlog, htasks])

variable {valid : Bool} {task : Nat} {t : EvictTask} {x : Look} {mode : TaskResumeMode} {result : Result}
  {id : Nat}

theorem LogStep.evictEffect (he : EvictEffect s valid task t mode x s' result) : LogStep s s' := by
  cases he with
  | idle hne hwhy => exact .same rfl
  | forgot hrec => exact .same rfl
  | flushed hc hmode hne => exact .persistCommit s _
  | unrecorded hv hr ho hmode hout => exact .same rfl
  | deleted hv hr ho hmode hc => exact .residency false rfl
  | observed hv hfile hr hrec => exact .residency _ rfl

theorem log_step {a : Action} (h : Owned s) (hs : step s a = some s') : LogStep s s' := by
  cases step_effect hs with
  | wrote | uncommitted | fetched | closed | listed | examined | unrestored | unnamed | orphaned | discarded
  | finalized | retried | claimed | settled | crashed => exact .same rfl
  | committed | restored => exact .residency true rfl
  | missed => exact .residency false rfl
  | @noted _ overflow o => exact (LogStep.record s true overflow true o).frame rfl rfl rfl rfl rfl
  | @opened resident overflow due o => exact (LogStep.record s (!resident) overflow due o).frame rfl rfl rfl rfl rfl
  | swept => exact .persistCommit s _
  | @quarantined o | @released o =>
    exact (LogStep.clearPresenceTx { s with file := none } o).frame rfl rfl rfl rfl rfl
  | cleared => exact .clearPresenceTx s _
  | planned hs =>
    rcases h.enqueueEviction_cases hs with rfl | ⟨r, hr, ha, hb⟩
    · exact .same rfl
    · rw [State.bindNew_some ha hb]
      exact .bound r hr ha rfl rfl
  | evicted _ _ _ _ he => exact (LogStep.evictEffect he).frame rfl rfl rfl rfl rfl

/-! ## Tasks that do not own the eviction -/

/-- No file is deleted, no deletion recorded and no owner released; a residency may only be asserted, by the
    tracker. -/
structure Untouched (s s' : State) : Prop where
  file : s'.file = s.file
  row : ∀ r, s.row = some r → ∃ r', s'.row = some r' ∧ r'.activeTask = r.activeTask ∧
    r'.operationGeneration = r.operationGeneration ∧ r'.presenceGeneration = r.presenceGeneration ∧
    (r.inCache = true → r'.inCache = true)

theorem authorizeDeletion_stale (hstale : ∀ r, s.row = some r → ¬ r.ownedBy task t) :
    ∃ e, authorizeDeletion s valid task t x = .error e := by
  cases ha : authorizeDeletion s valid task t x with
  | error e => exact ⟨e, rfl⟩
  | ok r =>
    obtain ⟨-, -, r₀, hr, ho, -⟩ := authorizeDeletion_ok ha
    exact absurd ho (hstale r₀ hr)

theorem Untouched.of_row (hfile : s'.file = s.file) (hrow : s'.row = s.row) : Untouched s s' :=
  ⟨hfile, fun r hr => ⟨r, hrow.trans hr, rfl, rfl, rfl, id⟩⟩

theorem Untouched.evictEffect (he : EvictEffect s valid task t mode x s' result)
    (hstale : ∀ r, s.row = some r → ¬ r.ownedBy task t) : Untouched s s' := by
  cases he with
  | idle hne hwhy => exact .of_row rfl rfl
  | forgot hrec => exact .of_row rfl rfl
  | flushed hc hmode hne =>
    rcases s.persistCommit_cases _ with he | ⟨c, he, -⟩
    · rw [he]; exact .of_row rfl rfl
    · rw [he]
      refine ⟨rfl, fun r hr => ⟨_, rfl, ?_, ?_, ?_, fun _ => rfl⟩⟩ <;> rw [hr] <;> rfl
  | unrecorded hv hr ho hmode hout | deleted hv hr ho hmode hc => exact absurd ho (hstale _ hr)
  | observed hv hfile hr hrec =>
    rcases (Row.recordDeletion_some hrec).2.2 with rfl | ho
    · exact .of_row rfl hr.symm
    · exact absurd ho (hstale _ hr)

theorem Untouched.run {run : Run} (hrun : s.runs.row id = some run) (ht : s.tasks.row run.task = some t)
    (hstale : ∀ r, s.row = some r → ¬ r.ownedBy run.task t)
    (hs : (∃ x, step s (.evict id x) = some s') ∨ ∃ exhausted, step s (.settle id exhausted) = some s') :
    Untouched s s' := by
  rcases hs with ⟨x, hs⟩ | ⟨exhausted, hs⟩
  · obtain ⟨run', t', u, result, hrun', ht', -, -, he, rfl⟩ := State.runSection_some hs
    rw [hrun] at hrun'
    cases hrun'
    rw [ht] at ht'
    cases ht'
    exact ⟨(Untouched.evictEffect he hstale).file, (Untouched.evictEffect he hstale).row⟩
  · obtain ⟨run', t', result, hrun', ht', -, -, rfl⟩ := State.settle_some hs
    rw [hrun] at hrun'
    cases hrun'
    rw [ht] at ht'
    cases ht'
    refine .of_row rfl ?_
    show (if result = .cancel then _ else _) = _
    split
    · cases hr : s.row with
      | none => rfl
      | some r =>
        have hno : ¬ (r.operationGeneration = t.generation ∧ r.activeTask = some run.task) := hstale r hr
        rw [Option.map_some, Row.releaseEviction, if_neg hno]
    · rfl

theorem Row.recordDeletion_again {r r' : Row} {generation : Nat}
    (h : r.recordDeletion generation task = some r') : r'.recordDeletion generation task = some r' := by
  unfold Row.recordDeletion at h
  split at h
  · next ho =>
    cases h
    rw [Row.recordDeletion, if_neg (by simp), if_pos]
    simp [Row.deletionRecorded, Row.cleared, ho.1]
  · next hno =>
    split at h
    · next hd =>
      cases h
      rw [Row.recordDeletion, if_neg hno, if_pos hd]
    · cases h

/-! ## Restoring the residency -/

/-- The local reconciler restores the residency only if nothing was bound or written since it examined the file. -/
theorem Owned.restore_fresh (h : Owned s) {seen : Nat} {o : Observed} {commits : Bool}
    (hsec : s.sections.row id = some (.examined o seen)) (hs : s.restore id commits = some s')
    (hne : s'.row ≠ s.row) : s.log.drop seen = [] := by
  have he := h.examined id o seen hsec
  unfold State.restore at hs
  cases hr : s.row with
  | none => rw [hsec, hr] at hs; cases hs; exact absurd rfl hne
  | some r =>
    simp only [hsec, hr] at hs
    split at hs
    · next hc =>
      simp only [Row.restorable, Bool.and_eq_true, Bool.not_eq_true', beq_iff_eq] at hc
      have hcount := h.bound r hr
      rw [← List.take_append_drop seen s.log, evictionsBound, List.countP_append] at hcount
      have hgen := he.generation
      have hzero : (s.log.drop seen).countP Event.isBound = 0 := by
        rw [← hc.2.1.2] at hgen
        unfold evictionsBound at hgen
        omega
      refine List.eq_nil_iff_forall_not_mem.mpr fun e hmem => ?_
      cases e with
      | bound task => exact absurd (List.countP_eq_zero.mp hzero _ hmem) (by simp [Event.isBound])
      | residency b =>
        obtain ⟨r₀, hr₀, hin⟩ := he.present b hmem
        rw [hr] at hr₀
        cases hr₀
        rw [hc.2.1.1.1] at hin
        cases hin
    · cases hs; exact absurd rfl hne

/-! ## The result -/

/-- Eviction ownership is exclusive: only the owner, an unsettled task of the current generation, touches anything,
    and the local reconciler restores the residency only of a file that nothing happened to since it was examined. -/
theorem eviction_ownership_exclusive (h : cacheMachine.Reachable s) :
    (∀ r task, s.row = some r → r.activeTask = some task →
      ∃ t, s.tasks.row task = some t ∧ t.isOpen = true ∧ t.generation = r.operationGeneration) ∧
    (∀ r, s.row = some r → r.operationGeneration = evictionsBound s.log) ∧
    (∀ a s', step s a = some s' → LogStep s s') ∧
    (∀ valid task t x, (∀ r, s.row = some r → ¬ r.ownedBy task t) →
      ∃ e, authorizeDeletion s valid task t x = .error e) ∧
    (∀ id run t s', s.runs.row id = some run → s.tasks.row run.task = some t →
      (∀ r, s.row = some r → ¬ r.ownedBy run.task t) →
      ((∃ x, step s (.evict id x) = some s') ∨ ∃ exhausted, step s (.settle id exhausted) = some s') →
      Untouched s s') ∧
    (∀ r r' generation task, s.row = some r → r.recordDeletion generation task = some r' →
      r'.recordDeletion generation task = some r') ∧
    (∀ id o seen commits s', s.sections.row id = some (.examined o seen) →
      step s (.restore id commits) = some s' → s'.row ≠ s.row → s.log.drop seen = []) := by
  have ho := cache_owned h
  exact ⟨ho.owner, ho.bound, fun a s' hs => log_step ho hs, fun valid task t x => authorizeDeletion_stale,
    fun id run t s' hrun ht hstale hs => .run hrun ht hstale hs,
    fun r r' generation task _ hrec => Row.recordDeletion_again hrec,
    fun id o seen commits s' hsec hs hne => ho.restore_fresh hsec hs hne⟩

def plannedEviction : List Action := [.writeFile, .writeCommit 1 true, .plan false]

def plannedState : State := (cacheMachine.run {} plannedEviction).getD {}

theorem eviction_ownership_exclusive_planned : plannedState.row = some ⟨true, 1, 0, some 1⟩ ∧
      ∃ t, plannedState.tasks.row 1 = some t ∧ t.isOpen = true ∧ t.generation = 1 := by
  have hr : cacheMachine.Reachable plannedState :=
    Lts.Reachable.of_run_isSome (.of_init rfl) (by decide +kernel)
  have hrow : plannedState.row = some ⟨true, 1, 0, some 1⟩ := by decide +kernel
  exact ⟨hrow, (eviction_ownership_exclusive hr).1 _ 1 hrow rfl⟩

end SynapS3.Cache
