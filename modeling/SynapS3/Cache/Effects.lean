import SynapS3.Cache.Actions

/-!
# `Cache.Effects` — what a step can do
-/

namespace SynapS3.Cache
open Tasks (TaskStatus TaskResumeMode)

variable {s s' : State} {id i : Nat} {sec : Section}

theorem State.sections_leave (h : (s.leave id).sections.row i = some sec) : s.sections.row i = some sec := by
  simp only [State.leave, Table.row_deleteWhere, Option.filter_eq_some_iff] at h
  exact h.1

theorem State.sections_enter {sec' : Section} (h : (s.enter sec).sections.row i = some sec') :
    s.sections.row i = some sec' ∨ sec' = sec := by
  rcases Table.row_insert_cases h with ⟨-, rfl⟩ | ⟨-, h⟩
  · exact .inr rfl
  · exact .inl h

theorem State.exclusive_iff : s.exclusive = true ↔ ∀ i, s.sections.row i = none := by
  unfold State.exclusive
  rw [Bool.not_eq_true', Table.any_eq_false]
  constructor
  · intro h i
    cases hr : s.sections.row i with
    | none => rfl
    | some sec => exact absurd (h i sec hr) (by simp)
  · intro h i sec hr
    rw [h i] at hr
    cases hr

theorem State.not_held (hex : s.exclusive = true) (h : s.sections.row i = some sec) : False := by
  rw [State.exclusive_iff.mp hex i] at h
  cases h

/-! ## Residency -/

def Persisted (s s' : State) : Prop := ∃ c, s' = { s.upsertPresence true with commitRequired := c } ∧ s.alive = true

theorem State.persistCommit_cases (s : State) (o : Tx.Outcome) :
    s.persistCommit o = s ∨ Persisted s (s.persistCommit o) := by
  unfold State.persistCommit
  cases ha : s.alive with
  | false => exact .inl rfl
  | true =>
    cases o with
    | ok => exact .inr ⟨false, rfl, ha⟩
    | failed => exact .inl rfl
    | lost => exact .inr ⟨s.commitRequired, rfl, ha⟩

theorem State.record_cases (s : State) (requireCommit overflow due : Bool) (o : Tx.Outcome) :
    (∃ c, (c = true → s.commitRequired = true ∨ requireCommit = true) ∧
      s.record requireCommit overflow due o = { s with commitRequired := c }) ∨
      (Persisted s (s.record requireCommit overflow due o) ∧ (s.commitRequired = true ∨ requireCommit = true)) := by
  unfold State.record
  split
  · split
    · next hreq =>
      rcases s.persistCommit_cases o with h | h
      · exact .inl ⟨s.commitRequired, .inl, h⟩
      · exact .inr ⟨h, .inr hreq⟩
    · exact .inl ⟨s.commitRequired, .inl, rfl⟩
  · have hor : (s.commitRequired || requireCommit) = true → s.commitRequired = true ∨ requireCommit = true := by
      simp
    dsimp only
    split
    · next hc =>
      simp only [Bool.and_eq_true] at hc
      rcases State.persistCommit_cases { s with commitRequired := s.commitRequired || requireCommit } o with h | ⟨c, h, ha⟩
      · exact .inl ⟨_, hor, h⟩
      · exact .inr ⟨⟨c, h, ha⟩, hor hc.2⟩
    · exact .inl ⟨_, hor, rfl⟩

theorem State.clearPresenceTx_cases (s : State) (o : Tx.Outcome) :
    (∃ c, s.clearPresenceTx o = { s with commitRequired := c && s.commitRequired }) ∨
      ∃ c r, s.row = some r ∧
        s.clearPresenceTx o = { s.setRow r.cleared with commitRequired := c && s.commitRequired } := by
  have hclear : s.clearPresence = s ∨ ∃ r, s.row = some r ∧ s.clearPresence = s.setRow r.cleared := by
    unfold State.clearPresence
    split
    · next r hr => exact .inr ⟨r, hr, rfl⟩
    · exact .inl rfl
  cases o with
  | failed => exact .inl ⟨true, rfl⟩
  | ok =>
    simp only [State.clearPresenceTx]
    rcases hclear with hc | ⟨r, hr, hc⟩
    · exact .inl ⟨false, by rw [hc]; rfl⟩
    · exact .inr ⟨false, r, hr, by rw [hc]; rfl⟩
  | lost =>
    simp only [State.clearPresenceTx]
    rcases hclear with hc | ⟨r, hr, hc⟩
    · exact .inl ⟨true, by rw [hc]; rfl⟩
    · exact .inr ⟨true, r, hr, by rw [hc]; rfl⟩

/-! ## Eviction -/

/-- The task holds the content's eviction under the row's generation. -/
def Row.ownedBy (r : Row) (task : Nat) (t : EvictTask) : Prop :=
  r.operationGeneration = t.generation ∧ r.activeTask = some task

/-- Why an execution that changes nothing can give the eviction up, or let it delete. -/
def MayGiveUp (s : State) (task : Nat) (t : EvictTask) (mode : TaskResumeMode) (x : Look) : Prop :=
  mode = .execute ∨ (t.lru = true ∧ x.lruExit = true) ∨ s.file.isSome = true ∨ s.row = none ∨ s.alive = false ∨
    ∀ r, s.row = some r → ¬ r.ownedBy task t

/-- What an execution of the eviction can do. -/
inductive EvictEffect (s : State) (valid : Bool) (task : Nat) (t : EvictTask) (mode : TaskResumeMode) (x : Look) :
    State → Result → Prop where
  | idle {result : Result} (hne : result ≠ .complete)
      (hwhy : result = .cancel ∨ result = .wait .execute → MayGiveUp s task t mode x) :
      EvictEffect s valid task t mode x s result
  | forgot (hrec : s.recorded t.generation = true) : EvictEffect s valid task t mode x s.forget .complete
  /-- The tracker's commit is written before the eviction is given up. -/
  | flushed {o : Tx.Outcome} {result : Result} (hc : s.commitRequired = true) (hmode : mode = .execute)
      (hne : result ≠ .complete) : EvictEffect s valid task t mode x (s.persistCommit o) result
  /-- The file is deleted, and the record of it does not commit. -/
  | unrecorded {r : Row} (hv : valid = true) (hr : s.row = some r) (ho : r.ownedBy task t) (hmode : mode = .execute)
      (hout : x.outcome ≠ .ok) (hel : x.eligible = true) :
      EvictEffect s valid task t mode x { s with file := none } .retry
  /-- The file is deleted and recorded; the tracker forgets if the answer arrives. -/
  | deleted {r : Row} {c : Bool} (hv : valid = true) (hr : s.row = some r) (ho : r.ownedBy task t)
      (hmode : mode = .execute) (hc : c = true → x.outcome ≠ .ok) (hel : x.eligible = true) :
      EvictEffect s valid task t mode x
        { State.setRow { s with file := none } { r.cleared with activeTask := none } with
          commitRequired := c && s.commitRequired } (if c then .retry else .complete)
  | observed {r r' : Row} {c : Bool} (hv : valid = true) (hfile : s.file = none) (hr : s.row = some r)
      (hrec : r.recordDeletion t.generation task = some r') :
      EvictEffect s valid task t mode x { s.setRow r' with commitRequired := c && s.commitRequired }
        (if c then .retry else .complete)

variable {valid : Bool} {task : Nat} {t : EvictTask} {mode : TaskResumeMode} {x : Look}

theorem EvictEffect.frame {result : Result} (he : EvictEffect s valid task t mode x s' result) :
    s'.tasks = s.tasks ∧ s'.runs = s.runs := by
  cases he with
  | flushed hc hmode hne =>
    rcases s.persistCommit_cases _ with he | ⟨c, he, -⟩ <;> rw [he] <;> exact ⟨rfl, rfl⟩
  | idle | forgot | unrecorded | deleted | observed => exact ⟨rfl, rfl⟩

variable {r : Row}

theorem authorizeDeletion_ok (h : authorizeDeletion s valid task t x = .ok r) :
    valid = true ∧ x.eligible = true ∧ ∃ r₀, s.row = some r₀ ∧ r₀.ownedBy task t ∧ r₀.inCache = true ∧
      r = { r₀.cleared with activeTask := none } := by
  unfold authorizeDeletion at h
  cases hv : valid with
  | false => simp [hv] at h
  | true =>
    rw [hv] at h
    cases hr : s.row with
    | none => simp [hr] at h
    | some r₀ =>
      simp only [hr, Bool.not_true, Bool.false_eq_true, ↓reduceIte] at h
      split at h
      · cases h
      next hown =>
      split at h
      · cases h
      next hin =>
      split at h
      · cases h
      split at h
      · cases h
      next hel =>
      split at h
      · cases h
      cases h
      simp only [not_or, not_not] at hown
      simp only [Bool.or_eq_true, Bool.not_eq_true', not_or, Bool.not_eq_false] at hel
      exact ⟨rfl, hel.2, r₀, rfl, hown, by simpa using hin, rfl⟩

theorem deleteFile_effect (s : State) (valid : Bool) (task : Nat) (t : EvictTask) (x : Look) :
    EvictEffect s valid task t .execute x (deleteFile s valid task t x).1 (deleteFile s valid task t x).2 := by
  unfold deleteFile
  cases ha : authorizeDeletion s valid task t x with
  | error e =>
    simp only
    split
    · next hrec =>
      simp only [Bool.and_eq_true] at hrec
      exact .forgot hrec.2
    · refine .idle ?_ fun _ => .inl rfl
      cases e <;> simp only [Refusal.result] <;> try split
      all_goals nofun
  | ok r =>
    obtain ⟨hv, hel, r₀, hr, ho, -, rfl⟩ := authorizeDeletion_ok ha
    simp only
    split
    · exact .idle nofun fun _ => .inl rfl
    cases hout : x.outcome with
    | ok => exact .deleted (c := false) hv hr ho rfl nofun hel
    | failed => exact .unrecorded hv hr ho rfl (by rw [hout]; nofun) hel
    | lost =>
      simp only
      split
      · exact .deleted (c := false) hv hr ho rfl nofun hel
      · refine .deleted (c := true) hv hr ho rfl (fun _ => ?_) hel
        rw [hout]; nofun

theorem executeEviction_effect (s : State) (valid : Bool) (task : Nat) (t : EvictTask) (x : Look) :
    EvictEffect s valid task t .execute x (executeEviction s valid task t x).1 (executeEviction s valid task t x).2 := by
  have hidle : ∀ result, result ≠ .complete → EvictEffect s valid task t .execute x s result :=
    fun result hne => .idle hne fun _ => .inl rfl
  have hflush : ∀ o result, result ≠ .complete →
      EvictEffect s valid task t .execute x (s.flushGuarded (some o)) result := by
    intro o result hne
    simp only [State.flushGuarded]
    split
    · next hc => exact .flushed hc rfl hne
    · exact hidle result hne
  unfold executeEviction
  split
  · split
    · exact hidle _ nofun
    · split
      · cases hx : x.flush with
        | none => exact hidle _ nofun
        | some o =>
          cases o with
          | failed => exact hidle _ nofun
          | lost => exact hflush _ _ nofun
          | ok => exact hflush _ _ nofun
      · split
        · exact hidle _ nofun
        · exact deleteFile_effect s valid task t x
  · exact deleteFile_effect s valid task t x

theorem Row.recordDeletion_none {generation : Nat} (h : r.recordDeletion generation task = none) :
    ¬ (r.operationGeneration = generation ∧ r.activeTask = some task) := by
  unfold Row.recordDeletion at h
  split at h
  · cases h
  · assumption

theorem recoverEviction_effect (s : State) (valid : Bool) (task : Nat) (t : EvictTask) (x : Look) :
    EvictEffect s valid task t .recover x (recoverEviction s valid task t x).1 (recoverEviction s valid task t x).2 := by
  unfold recoverEviction
  split
  · exact .idle nofun nofun
  cases hr : s.row with
  | none => exact .idle nofun fun _ => .inr (.inr (.inr (.inl hr)))
  | some r =>
    simp only
    split
    · next ha => exact .idle nofun fun _ => .inr (.inr (.inr (.inr (.inl (by simpa using ha)))))
    split
    · next hf => exact .idle nofun fun _ => .inr (.inr (.inl hf))
    next hf =>
    have hfile : s.file = none := by simpa using hf
    split
    · exact .idle nofun nofun
    next hv =>
    have hv' : valid = true := by simpa using hv
    cases hrec : r.recordDeletion t.generation task with
    | none =>
      refine .idle nofun fun _ => .inr (.inr (.inr (.inr (.inr ?_))))
      intro r₁ hr₁ ho
      rw [hr] at hr₁
      cases hr₁
      exact Row.recordDeletion_none hrec ho
    | some r' =>
      simp only
      cases x.outcome with
      | ok => exact .observed (c := false) hv' hfile hr hrec
      | failed => exact .idle nofun nofun
      | lost => exact .observed (c := true) hv' hfile hr hrec

theorem runCacheEviction_effect (s : State) (valid : Bool) (task : Nat) (t : EvictTask) (mode : TaskResumeMode)
    (x : Look) : EvictEffect s valid task t mode x (runCacheEviction s valid task t mode x).1
      (runCacheEviction s valid task t mode x).2 := by
  unfold runCacheEviction
  split
  · next h =>
    simp only [Bool.and_eq_true] at h
    exact .idle nofun fun _ => .inr (.inl h)
  · cases mode with
    | execute => exact executeEviction_effect s valid task t x
    | recover => exact recoverEviction_effect s valid task t x

/-! ## Every step -/

theorem State.runSection_some (hs : s.runSection id x = some s') :
    ∃ run t u result, s.runs.row id = some run ∧ s.tasks.row run.task = some t ∧ s.exclusive = true ∧
      run.result = none ∧ EvictEffect s (run.valid t) run.task t run.mode x u result ∧
      s' = { u with runs := s.runs.modify id fun run => { run with result := some result } } := by
  unfold State.runSection at hs
  cases hrun : s.runs.row id with
  | none => rw [hrun] at hs; cases hs
  | some run =>
    simp only [hrun] at hs
    cases ht : s.tasks.row run.task with
    | none => rw [ht] at hs; cases hs
    | some t =>
      simp only [ht] at hs
      split at hs
      · next hc =>
        simp only [Bool.and_eq_true, Option.isNone_iff_eq_none] at hc
        exact ⟨run, t, _, _, rfl, ht, hc.1, hc.2,
          runCacheEviction_effect s (run.valid t) run.task t run.mode x, (Option.some.inj hs).symm⟩
      · cases hs

/-- A settlement: the task's row changes, and a cancellation releases the eviction. -/
theorem State.settle_some {exhausted : Bool} (hs : s.settle id exhausted = some s') :
    ∃ run t result, s.runs.row id = some run ∧ s.tasks.row run.task = some t ∧ run.result = some result ∧
      run.valid t = true ∧ s' = { s with
        tasks := s.tasks.modify run.task fun t => t.settled result exhausted
        row := if result = .cancel then s.row.map (·.releaseEviction t.generation run.task) else s.row } := by
  unfold State.settle at hs
  cases hrun : s.runs.row id with
  | none => rw [hrun] at hs; cases hs
  | some run =>
    cases ht : s.tasks.row run.task with
    | none => simp only [hrun, ht] at hs; cases hs
    | some t =>
      cases hres : run.result with
      | none => simp only [hrun, ht, hres] at hs; cases hs
      | some result =>
        simp only [hrun, ht, hres] at hs
        split at hs
        · next hv => exact ⟨run, t, result, rfl, ht, hres, hv, (Option.some.inj hs).symm⟩
        · cases hs

/-- **What a step can do**; the invariants are read off it. -/
inductive Effect (s : State) : Action → State → Prop where
  | wrote : Effect s .writeFile (State.enter { s with file := some .content } .write)
  | committed {id : Nat} (hsec : s.sections.row id = some .write) (ha : s.alive = true) :
      Effect s (.writeCommit id true) ({ s.upsertPresence true with versions := s.versions + 1 }.leave id)
  | uncommitted {id : Nat} : Effect s (.writeCommit id false) (s.leave id)
  | fetched {bytes : Bytes} (hv : 0 < s.versions) :
      Effect s (.rehydrateFile bytes) (State.enter { s with file := some bytes } .rehydrate)
  | noted {id : Nat} {overflow : Bool} {o : Tx.Outcome} (hsec : s.sections.row id = some .rehydrate) :
      Effect s (.rehydrateRecord id overflow o) ((s.record true overflow true o).leave id)
  | opened {resident overflow due : Bool} {o : Tx.Outcome} (hf : s.file.isSome = true) :
      Effect s (.openCached resident overflow due o) ((s.record (!resident) overflow due o).enter .reader)
  | closed {id : Nat} : Effect s (.close id) (s.leave id)
  | swept {o : Tx.Outcome} (hc : s.commitRequired = true) : Effect s (.sweep o) (s.persistCommit o)
  | missed (hex : s.exclusive = true) (ha : s.alive = true) : Effect s .reconcileMiss (s.upsertPresence false)
  | listed (ha : s.alive = true) (o : Observed)
      (hg : o.operationGeneration = (s.row.getD {}).operationGeneration) :
      Effect s .list { s with listed := s.listed.insert o }
  | examined {id : Nat} {o : Observed} (hl : s.listed.row id = some o) (hf : s.file = some .content) :
      Effect s (.examine id) (s.enter (.examined o s.log.length))
  | restored {id seen : Nat} {commits : Bool} {o : Observed} {r : Row}
      (hsec : s.sections.row id = some (.examined o seen)) (hr : s.row = some r) :
      Effect s (.restore id commits) ((s.setRow { r with inCache := true }).leave id)
  | unrestored {id : Nat} {commits : Bool} : Effect s (.restore id commits) (s.leave id)
  | quarantined {o : Tx.Outcome} (hex : s.exclusive = true) (hf : s.file = some .other) :
      Effect s (.quarantine o) (State.clearPresenceTx { s with file := none } o)
  | cleared {o : Tx.Outcome} (hex : s.exclusive = true) : Effect s (.clearMissing o) (s.clearPresenceTx o)
  | unnamed {cleanup : Bool} (hv : 0 < s.versions) :
      Effect s .deleteVersion { s with versions := s.versions - 1, cleanup := cleanup }
  | released {o : Tx.Outcome} (hex : s.exclusive = true) (hv : s.versions = 0) :
      Effect s (.releaseCache o) (State.clearPresenceTx { s with file := none } o)
  | orphaned {o : Tx.Outcome} (hex : s.exclusive = true) (hv : s.versions = 0) :
      Effect s (.releaseCache o) { s with file := none, commitRequired := false }
  | discarded {o : Tx.Outcome} {alive c : Bool} (hex : s.exclusive = true) (hv : s.versions = 0)
      (ha : s.alive = true) : Effect s (.discard o) { s with file := none, alive := alive, commitRequired := c }
  | finalized (hv : s.versions = 0) (hr : ∀ r, s.row = some r → r.inCache = false) :
      Effect s .finalize { s with row := none, alive := false }
  | planned {lru : Bool} {s' : State} (hs : s.enqueueEviction lru = some s') : Effect s (.plan lru) s'
  | retried {task : Nat} {t : EvictTask} {r : Row} (ht : s.tasks.row task = some t) (hr : s.row = some r)
      (ho : r.ownedBy task t) :
      Effect s (.retry task) { s with
        row := some { r with activeTask := some s.tasks.next }
        tasks := s.tasks.insert { t with status := .pending, mode := .recover, claim := 0 } }
  | claimed {task : Nat} {t : EvictTask} (ht : s.tasks.row task = some t) :
      Effect s (.claim task) { s with
        tasks := s.tasks.modify task fun t => { t with status := .running, mode := .recover, claim := t.claim + 1 }
        runs := s.runs.insert ⟨task, t.claim + 1, if t.status = .running then .recover else t.mode, none⟩ }
  | evicted {id : Nat} {run : Run} {t : EvictTask} {x : Look} {u : State} {result : Result}
      (hrun : s.runs.row id = some run) (ht : s.tasks.row run.task = some t) (hex : s.exclusive = true)
      (hnone : run.result = none) (he : EvictEffect s (run.valid t) run.task t run.mode x u result) :
      Effect s (.evict id x) { u with runs := s.runs.modify id fun run => { run with result := some result } }
  | settled {id : Nat} {run : Run} {t : EvictTask} {result : Result} {exhausted : Bool}
      (hrun : s.runs.row id = some run) (ht : s.tasks.row run.task = some t) (hres : run.result = some result)
      (hv : run.valid t = true) :
      Effect s (.settle id exhausted) { s with
        tasks := s.tasks.modify run.task fun t => t.settled result exhausted
        row := if result = .cancel then s.row.map (·.releaseEviction t.generation run.task) else s.row }
  | crashed : Effect s .crash s.crash

theorem step_effect {a : Action} (hs : step s a = some s') : Effect s a s' := by
  cases a with
  | writeFile => cases hs; exact .wrote
  | writeCommit id ok =>
    simp only [step, State.writeCommit, Option.ite_none_right_eq_some] at hs
    obtain ⟨hsec, hs⟩ := hs
    cases ok with
    | false => cases hs; exact .uncommitted
    | true =>
      simp only [↓reduceIte, Option.ite_none_right_eq_some, Bool.and_eq_true, Option.some.injEq] at hs
      obtain ⟨hc, rfl⟩ := hs
      exact .committed hsec hc.1
  | rehydrateFile bytes =>
    obtain ⟨hv, hs⟩ := Option.ite_none_right_eq_some.mp hs
    cases hs; exact .fetched hv
  | rehydrateRecord id overflow o =>
    obtain ⟨hsec, hs⟩ := Option.ite_none_right_eq_some.mp hs
    cases hs; exact .noted hsec
  | openCached resident overflow due o =>
    obtain ⟨hf, hs⟩ := Option.ite_none_right_eq_some.mp hs
    cases hs; exact .opened hf
  | close id =>
    obtain ⟨-, hs⟩ := Option.ite_none_right_eq_some.mp hs
    cases hs; exact .closed
  | sweep o =>
    obtain ⟨hc, hs⟩ := Option.ite_none_right_eq_some.mp hs
    cases hs; exact .swept hc
  | reconcileMiss =>
    simp only [step, State.reconcileMiss, Option.ite_none_right_eq_some, Bool.and_eq_true] at hs
    obtain ⟨hc, hs⟩ := hs
    cases hs; exact .missed hc.1.1 hc.2
  | list =>
    obtain ⟨ha, hs⟩ := Option.ite_none_right_eq_some.mp hs
    cases hs; exact .listed ha _ rfl
  | examine id =>
    simp only [step, State.examine] at hs
    split at hs
    · cases hs
    · next o hl =>
      simp only [Option.ite_none_right_eq_some, Bool.and_eq_true, beq_iff_eq] at hs
      obtain ⟨hc, hs⟩ := hs
      cases hs; exact .examined hl hc.2
  | restore id commits =>
    simp only [step, State.restore] at hs
    split at hs
    · next hsec hr =>
      split at hs <;> cases hs
      · exact .restored hsec hr
      · exact .unrestored
    · cases hs; exact .unrestored
    · cases hs
  | quarantine o =>
    simp only [step, State.quarantine, Option.ite_none_right_eq_some, Bool.and_eq_true, beq_iff_eq] at hs
    obtain ⟨hc, hs⟩ := hs
    cases hs; exact .quarantined hc.1.1 hc.2
  | clearMissing o =>
    simp only [step, State.clearMissing, Option.ite_none_right_eq_some, Bool.and_eq_true] at hs
    obtain ⟨hc, hs⟩ := hs
    cases hs; exact .cleared hc.1
  | deleteVersion =>
    obtain ⟨hv, hs⟩ := Option.ite_none_right_eq_some.mp hs
    cases hs; exact .unnamed hv
  | releaseCache o =>
    simp only [step, State.releaseCache, Option.ite_none_right_eq_some, Bool.and_eq_true, beq_iff_eq] at hs
    obtain ⟨hc, hs⟩ := hs
    split at hs <;> cases hs
    · exact .released hc.1 hc.2
    · exact .orphaned hc.1 hc.2
  | discard o =>
    simp only [step, State.discard, Option.ite_none_right_eq_some, Bool.and_eq_true, beq_iff_eq] at hs
    obtain ⟨hc, hs⟩ := hs
    cases o <;> cases hs <;> exact .discarded hc.1.1.1.1 hc.1.1.2 hc.1.1.1.2
  | finalize =>
    simp only [step, State.finalize, Option.ite_none_right_eq_some, Bool.and_eq_true, beq_iff_eq,
      Option.all_eq_true, Bool.not_eq_true'] at hs
    obtain ⟨hc, hs⟩ := hs
    cases hs; exact .finalized hc.1.2 fun r hr => (hc.2 r hr).1
  | plan lru => exact .planned hs
  | retry task =>
    simp only [step, State.retryEviction] at hs
    split at hs
    · next t r ht hr =>
      obtain ⟨-, hs⟩ := Option.ite_none_right_eq_some.mp hs
      obtain ⟨r', hr', rfl⟩ := Option.map_eq_some_iff.mp hs
      obtain ⟨ho, hr'⟩ := Option.ite_none_right_eq_some.mp hr'
      cases hr'; exact .retried ht hr ho
    · cases hs
  | claim task =>
    simp only [step, State.claim] at hs
    split at hs
    · cases hs
    · next t ht =>
      obtain ⟨-, hs⟩ := Option.ite_none_right_eq_some.mp hs
      cases hs; exact .claimed ht
  | evict id x =>
    obtain ⟨run, t, u, result, hrun, ht, hex, hnone, he, rfl⟩ := State.runSection_some hs
    exact .evicted hrun ht hex hnone he
  | settle id exhausted =>
    obtain ⟨run, t, result, hrun, ht, hres, hv, rfl⟩ := State.settle_some hs
    exact .settled hrun ht hres hv
  | crash => cases hs; exact .crashed

end SynapS3.Cache
