import SynapS3.Cache.Effects

/-!
# `Cache.Ownership` — one owner per eviction, one generation per owner

`Owned` says that the owner of the content's eviction is an unsettled task of the row's generation, that the
generation counts the evictions bound so far, and what may have happened since the local reconciler examined the
file.
-/

namespace SynapS3.Cache
open Tasks (TaskStatus TaskResumeMode)

def Event.isBound : Event → Bool
  | .bound _ => true
  | .residency _ => false

def evictionsBound (log : List Event) : Nat := log.countP Event.isBound

/-- What holds while a file is being examined: it was listed under a generation that is not larger than the
    evictions bound until then, and if its residency was written since, it was written as present. -/
structure ExaminedOk (s : State) (o : Observed) (seen : Nat) : Prop where
  le : seen ≤ s.log.length
  generation : o.operationGeneration ≤ evictionsBound (s.log.take seen)
  present : ∀ b, Event.residency b ∈ s.log.drop seen → ∃ r, s.row = some r ∧ r.inCache = true

/-- An eviction is owned by an open task of the row's generation, until its result is complete. -/
structure Owned (s : State) : Prop where
  owner : ∀ r task, s.row = some r → r.activeTask = some task →
    ∃ t, s.tasks.row task = some t ∧ t.isOpen = true ∧ t.generation = r.operationGeneration
  done : ∀ id run r, s.runs.row id = some run → run.result = some .complete → s.row = some r →
    r.activeTask ≠ some run.task
  runTask : ∀ id run, s.runs.row id = some run → run.task < s.tasks.next
  bound : ∀ r, s.row = some r → r.operationGeneration = evictionsBound s.log
  unborn : s.row = none → s.alive = true → evictionsBound s.log = 0
  examined : ∀ id o seen, s.sections.row id = some (.examined o seen) → ExaminedOk s o seen
  listed : ∀ id o, s.listed.row id = some o → o.operationGeneration ≤ evictionsBound s.log

variable {s s' : State}

theorem Owned.init : Owned {} :=
  ⟨nofun, nofun, nofun, nofun, fun _ _ => rfl, nofun, nofun⟩

theorem Owned.generation (h : Owned s) (halive : s.alive = true ∨ s.row ≠ none) :
    (s.row.getD {}).operationGeneration = evictionsBound s.log := by
  cases hr : s.row with
  | some r => exact h.bound r hr
  | none => exact (h.unborn hr (halive.resolve_right (not_not.mpr hr))).symm

variable {o : Observed} {r : Row} {id task : Nat} {result : Result} {t : EvictTask} {lru : Bool}

theorem ExaminedOk.append {seen : Nat} (h : ExaminedOk s o seen) {l : List Event} (hlog : s'.log = s.log ++ l)
    (hpres : ∀ b, Event.residency b ∈ s.log.drop seen ∨ Event.residency b ∈ l → ∃ r, s'.row = some r ∧ r.inCache = true) :
    ExaminedOk s' o seen := by
  refine ⟨?_, ?_, fun b hb => ?_⟩
  · rw [hlog, List.length_append]
    exact Nat.le_trans h.le (Nat.le_add_right _ _)
  · rw [hlog, List.take_append_of_le_length h.le]
    exact h.generation
  · rw [hlog, List.drop_append_of_le_length h.le] at hb
    exact hpres b (List.mem_append.mp hb)

/-! ## The three kinds of steps -/

theorem Owned.quiet (h : Owned s) (hrow : s'.row = s.row) (hlog : s'.log = s.log) (htasks : s'.tasks = s.tasks)
    (hruns : s'.runs = s.runs) (halive : s'.alive = true → s.alive = true)
    (hsec : ∀ i o n, s'.sections.row i = some (.examined o n) → s.sections.row i = some (.examined o n))
    (hlist : ∀ i o, s'.listed.row i = some o → s.listed.row i = some o) : Owned s' := by
  refine ⟨?_, ?_, ?_, ?_, ?_, ?_, ?_⟩
  · rw [hrow, htasks]; exact h.owner
  · rw [hrow, hruns]; exact h.done
  · rw [hruns, htasks]; exact h.runTask
  · rw [hrow, hlog]; exact h.bound
  · rw [hrow, hlog]; exact fun hr ha => h.unborn hr (halive ha)
  · intro i o n hi
    refine (h.examined i o n (hsec i o n hi)).append (l := []) (by rw [hlog, List.append_nil]) fun b hb => ?_
    rw [hrow]
    exact (h.examined i o n (hsec i o n hi)).present b (hb.resolve_right List.not_mem_nil)
  · intro i o hi
    rw [hlog]
    exact h.listed i o (hlist i o hi)

theorem Owned.written (h : Owned s) (hrow : s'.row = some r) (hlog : s'.log = s.log ++ [.residency r.inCache])
    (hgen : r.operationGeneration = (s.row.getD {}).operationGeneration)
    (hown : r.activeTask = none ∨ r.activeTask = (s.row.getD {}).activeTask) (htasks : s'.tasks = s.tasks)
    (hruns : s'.runs = s.runs) (halive : s.alive = true ∨ s.row ≠ none)
    (hsec : ∀ i o n, s'.sections.row i = some (.examined o n) → s.sections.row i = some (.examined o n) ∧ r.inCache = true)
    (hlist : ∀ i o, s'.listed.row i = some o → s.listed.row i = some o) : Owned s' := by
  have hcount : evictionsBound s'.log = evictionsBound s.log := by
    rw [hlog]
    simp [evictionsBound, Event.isBound]
  -- whoever owns the eviction now owned it before
  have howner : ∀ task, r.activeTask = some task → ∃ r₀, s.row = some r₀ ∧ r₀.activeTask = some task ∧
      r₀.operationGeneration = r.operationGeneration := by
    intro task ht
    rcases hown with hn | he
    · rw [hn] at ht; cases ht
    cases hr : s.row with
    | none => rw [hr] at he; rw [he] at ht; cases ht
    | some r₀ =>
      rw [hr] at he hgen
      exact ⟨r₀, rfl, he ▸ ht, hgen.symm⟩
  refine ⟨?_, ?_, ?_, ?_, ?_, ?_, ?_⟩
  · intro r' task hr' ht
    rw [hrow] at hr'
    cases hr'
    obtain ⟨r₀, hr₀, ht₀, hg⟩ := howner task ht
    obtain ⟨t, hrt, ho, hgt⟩ := h.owner r₀ task hr₀ ht₀
    exact ⟨t, by rw [htasks]; exact hrt, ho, hgt.trans hg⟩
  · intro id run r' hrun hres hr' ht
    rw [hrow] at hr'
    cases hr'
    rw [hruns] at hrun
    obtain ⟨r₀, hr₀, ht₀, -⟩ := howner run.task ht
    exact h.done id run r₀ hrun hres hr₀ ht₀
  · rw [hruns, htasks]; exact h.runTask
  · intro r' hr'
    rw [hrow] at hr'
    cases hr'
    rw [hcount, hgen, h.generation halive]
  · intro hn
    rw [hrow] at hn
    cases hn
  · intro i o n hi
    obtain ⟨hi', hin⟩ := hsec i o n hi
    exact (h.examined i o n hi').append hlog fun b _ => ⟨r, hrow, hin⟩
  · intro i o hi
    rw [hcount]
    exact h.listed i o (hlist i o hi)

variable {run : Run} {mode : TaskResumeMode} {exhausted : Bool}

section

variable (h : Owned s)
include h

theorem Owned.setResult (hrun : s.runs.row id = some run)
    (hdone : result = .complete → ∀ r, s.row = some r → r.activeTask ≠ some run.task) :
    Owned { s with runs := s.runs.modify id fun run => { run with result := some result } } := by
  have hruns : ∀ i run', (s.runs.modify id fun run => { run with result := some result }).row i = some run' →
      s.runs.row i = some run' ∨ run' = { run with result := some result } := by
    intro i run' hi
    rw [Table.row_modify_of hrun] at hi
    split at hi
    · cases hi; exact .inr rfl
    · exact .inl hi
  refine ⟨h.owner, ?_, ?_, h.bound, h.unborn, fun i o n hi => ?_, h.listed⟩
  · intro i run' r hi hres hr
    rcases hruns i run' hi with hi | rfl
    · exact h.done i run' r hi hres hr
    · exact hdone (Option.some.inj hres) r hr
  · intro i run' hi
    rcases hruns i run' hi with hi | rfl
    · exact h.runTask i run' hi
    · exact h.runTask id run hrun
  · exact ⟨(h.examined i o n hi).le, (h.examined i o n hi).generation, (h.examined i o n hi).present⟩

theorem Owned.tasks (tasks : Table EvictTask) (runs : Table Run) (hnext : s.tasks.next ≤ tasks.next)
    (hopen : ∀ r task t, s.row = some r → r.activeTask = some task → s.tasks.row task = some t → t.isOpen = true →
      ∃ t', tasks.row task = some t' ∧ t'.isOpen = true ∧ t'.generation = t.generation)
    (hruns : ∀ i run, runs.row i = some run → s.runs.row i = some run ∨ (run.result = none ∧ run.task < tasks.next)) :
    Owned { s with tasks := tasks, runs := runs } := by
  refine ⟨?_, ?_, ?_, h.bound, h.unborn, fun i o n hi => ?_, h.listed⟩
  · intro r task hr ht
    obtain ⟨t, hrt, ho, hg⟩ := h.owner r task hr ht
    obtain ⟨t', hrt', ho', hg'⟩ := hopen r task t hr ht hrt ho
    exact ⟨t', hrt', ho', hg'.trans hg⟩
  · intro i run r hi hres hr
    rcases hruns i run hi with hi | ⟨hn, -⟩
    · exact h.done i run r hi hres hr
    · rw [hn] at hres; cases hres
  · intro i run hi
    rcases hruns i run hi with hi | ⟨-, hlt⟩
    · exact Nat.lt_of_lt_of_le (h.runTask i run hi) hnext
    · exact hlt
  · exact ⟨(h.examined i o n hi).le, (h.examined i o n hi).generation, (h.examined i o n hi).present⟩

/-! ## The steps -/

theorem Owned.leave (i : Nat) : Owned (s.leave i) :=
  h.quiet rfl rfl rfl rfl id (fun _ _ _ => State.sections_leave) fun _ _ => id

theorem Owned.enter {sec : Section} (hne : ∀ o n, Section.examined o n ≠ sec) : Owned (s.enter sec) :=
  h.quiet rfl rfl rfl rfl id
    (fun _ o n hi => (State.sections_enter hi).resolve_right (hne o n)) fun _ _ => id

theorem Owned.fields (file : Option Bytes) (commitRequired : Bool) (versions : Nat) (cleanup : Bool) :
    Owned { s with file := file, commitRequired := commitRequired, versions := versions, cleanup := cleanup } :=
  h.quiet rfl rfl rfl rfl id (fun _ _ _ => id) fun _ _ => id

theorem Owned.upsertPresence {b : Bool} (ha : s.alive = true) (hex : b = true ∨ s.exclusive = true) :
    Owned (s.upsertPresence b) := by
  refine h.written rfl rfl rfl (.inr rfl) rfl rfl (.inl ha) (fun i o n hi => ⟨hi, ?_⟩) fun _ _ => id
  rcases hex with hb | hex
  · exact hb
  · exact (State.not_held hex hi).elim

theorem Owned.persisted (hp : Persisted s s') : Owned s' := by
  obtain ⟨c, rfl, ha⟩ := hp
  exact (h.upsertPresence ha (.inl rfl)).fields _ c _ _

theorem Owned.persistCommit (o : Tx.Outcome) : Owned (s.persistCommit o) := by
  rcases s.persistCommit_cases o with he | hp
  · rw [he]; exact h
  · exact h.persisted hp

theorem Owned.record (requireCommit overflow due : Bool) (o : Tx.Outcome) :
    Owned (s.record requireCommit overflow due o) := by
  rcases s.record_cases requireCommit overflow due o with ⟨c, -, he⟩ | ⟨hp, -⟩
  · rw [he]; exact h.fields _ c _ _
  · exact h.persisted hp

theorem Owned.clearPresenceTx (o : Tx.Outcome) (hex : s.exclusive = true) : Owned (s.clearPresenceTx o) := by
  rcases s.clearPresenceTx_cases o with ⟨c, he⟩ | ⟨c, r, hr, he⟩
  · rw [he]; exact h.fields _ _ _ _
  rw [he]
  have hw : Owned (s.setRow r.cleared) := by
    refine h.written rfl rfl (by rw [hr]; rfl) (.inr (by rw [hr]; rfl)) rfl rfl (.inr (by rw [hr]; nofun)) ?_
      fun _ _ => id
    exact fun i o n hi => (State.not_held hex hi).elim
  exact hw.fields _ _ _ _

end

theorem Row.recordDeletion_some {r' : Row} {generation : Nat} (h : r.recordDeletion generation task = some r') :
    r'.operationGeneration = r.operationGeneration ∧ r'.activeTask = none ∧
      (r' = r ∨ (r.operationGeneration = generation ∧ r.activeTask = some task)) := by
  unfold Row.recordDeletion at h
  split at h
  · next ho => cases h; exact ⟨rfl, rfl, .inr ho⟩
  split at h
  · next hd =>
    cases h
    simp only [Row.deletionRecorded, Bool.and_eq_true, Option.isNone_iff_eq_none] at hd
    exact ⟨rfl, hd.1.2, .inl rfl⟩
  · cases h

theorem Owned.evictEffect (h : Owned s) (hex : s.exclusive = true) {valid : Bool} {x : Look}
    (he : EvictEffect s valid task t mode x s' result) :
    Owned s' ∧ s'.runs = s.runs ∧ (result = .complete → ∀ r, s'.row = some r → r.activeTask ≠ some task) := by
  cases he with
  | idle hne hwhy => exact ⟨h, rfl, fun hc => absurd hc hne⟩
  | forgot hrec =>
    refine ⟨h.fields _ _ _ _, rfl, fun _ r hr hact => ?_⟩
    rw [State.recorded, show s.row = some r from hr] at hrec
    simp [Row.deletionRecorded, hact] at hrec
  | flushed hc hmode hne =>
    refine ⟨h.persistCommit _, ?_, fun hc => absurd hc hne⟩
    rcases s.persistCommit_cases _ with he | ⟨c, he, -⟩
    · rw [he]
    · rw [he]; rfl
  | unrecorded hv hr ho hmode hout => exact ⟨h.fields _ _ _ _, rfl, nofun⟩
  | @deleted r c hv hr ho hmode hc =>
    have hw : Owned (State.setRow { s with file := none } { r.cleared with activeTask := none }) := by
      refine (h.fields none s.commitRequired s.versions s.cleanup).written rfl rfl ?_ (.inl rfl) rfl rfl
        (.inr (by show s.row ≠ none; rw [hr]; nofun)) (fun i o n hi => (State.not_held hex hi).elim) fun _ _ => id
      show r.operationGeneration = (s.row.getD {}).operationGeneration
      rw [hr]
      rfl
    refine ⟨hw.fields _ _ _ _, rfl, fun _ r' hr' => ?_⟩
    cases hr'
    nofun
  | @observed r r' c hv hfile hr hrec =>
    obtain ⟨hgen, hact, -⟩ := Row.recordDeletion_some hrec
    have hw : Owned (s.setRow r') := by
      refine h.written rfl rfl ?_ (.inl hact) rfl rfl (.inr (by rw [hr]; nofun))
        (fun i o n hi => (State.not_held hex hi).elim) fun _ _ => id
      rw [hr]
      exact hgen
    refine ⟨hw.fields _ _ _ _, rfl, fun _ r₁ hr₁ => ?_⟩
    cases hr₁
    rw [hact]
    nofun

theorem State.bindNew_some (hnone : r.activeTask = none) (hs : s.bindNew r lru = some s') : s' = { s with
      row := some { r with operationGeneration := r.operationGeneration + 1, activeTask := some s.tasks.next }
      tasks := s.tasks.insert { generation := r.operationGeneration + 1, lru := lru }
      log := s.log ++ [.bound s.tasks.next] } := by
  unfold State.bindNew Row.bindEvictionTask at hs
  rw [if_pos ⟨rfl, hnone⟩] at hs
  exact (Option.some.inj hs).symm

/-- `enqueueEviction` keeps a live owner, or binds a new task to a row without one. The branch for a settled owner
    is never taken. -/
theorem Owned.enqueueEviction_cases (h : Owned s) (hs : s.enqueueEviction lru = some s') :
    s' = s ∨ ∃ r, s.row = some r ∧ r.activeTask = none ∧ s.bindNew r lru = some s' := by
  unfold State.enqueueEviction at hs
  cases hr : s.row with
  | none => rw [hr] at hs; cases hs
  | some r =>
    simp only [hr] at hs
    cases ha : r.activeTask with
    | none =>
      rw [ha] at hs
      exact .inr ⟨r, rfl, ha, hs⟩
    | some owner =>
      obtain ⟨t, ht, ho, hg⟩ := h.owner r owner hr ha
      simp only [ha, ht, ho, ↓reduceIte, hg] at hs
      exact .inl (Option.some.inj hs).symm

theorem Owned.enqueueEviction (h : Owned s) (hs : s.enqueueEviction lru = some s') : Owned s' := by
  rcases h.enqueueEviction_cases hs with rfl | ⟨r, hr, ha, hb⟩
  · exact h
  rw [State.bindNew_some ha hb]
  have hcount : evictionsBound (s.log ++ [.bound s.tasks.next]) = r.operationGeneration + 1 := by
    rw [h.bound r hr]
    simp [evictionsBound, Event.isBound]
  refine ⟨?_, ?_, ?_, ?_, nofun, ?_, ?_⟩
  · intro r' task hr' ht
    cases hr'
    cases ht
    exact ⟨_, by rw [Table.row_insert, if_pos rfl], rfl, rfl⟩
  · intro id run r' hrun hres hr' ht
    cases hr'
    exact absurd (Option.some.inj ht) (Nat.ne_of_gt (h.runTask id run hrun))
  · exact fun id run hrun => Nat.lt_succ_of_lt (h.runTask id run hrun)
  · intro r' hr'
    cases hr'
    exact hcount.symm
  · intro i o n hi
    have he := h.examined i o n hi
    refine he.append rfl fun b hb => ?_
    obtain ⟨r₀, hr₀, hin⟩ := he.present b (hb.resolve_right (by simp))
    rw [hr] at hr₀
    cases hr₀
    exact ⟨_, rfl, hin⟩
  · intro i o hi
    refine Nat.le_trans (h.listed i o hi) ?_
    show _ ≤ evictionsBound (s.log ++ [.bound s.tasks.next])
    rw [hcount, ← h.bound r hr]
    exact Nat.le_succ _

theorem Owned.retried (h : Owned s) (hr : s.row = some r) (ho : r.ownedBy task t) : Owned { s with
      row := some { r with activeTask := some s.tasks.next }
      tasks := s.tasks.insert { t with status := .pending, mode := .recover, claim := 0 } } := by
  refine ⟨?_, ?_, ?_, ?_, nofun, ?_, h.listed⟩
  · intro r' new hr' hnew
    cases hr'
    cases hnew
    exact ⟨{ t with status := .pending, mode := .recover, claim := 0 }, if_pos rfl, rfl, ho.1.symm⟩
  · intro id run r' hrun hres hr' hnew
    cases hr'
    exact absurd (Option.some.inj hnew) (Nat.ne_of_gt (h.runTask id run hrun))
  · exact fun id run hrun => Nat.lt_succ_of_lt (h.runTask id run hrun)
  · intro r' hr'
    cases hr'
    exact h.bound r hr
  · intro i o n hi
    have he := h.examined i o n hi
    refine he.append (l := []) (List.append_nil _).symm fun b hb => ?_
    obtain ⟨r₀, hr₀, hin⟩ := he.present b (hb.resolve_right List.not_mem_nil)
    rw [hr] at hr₀
    cases hr₀
    exact ⟨_, rfl, hin⟩

theorem Owned.claimed (h : Owned s) {claim : Nat} (ht : s.tasks.row task = some t) : Owned { s with
      tasks := s.tasks.modify task fun t => { t with status := .running, mode := .recover, claim := t.claim + 1 }
      runs := s.runs.insert ⟨task, claim, mode, none⟩ } := by
  refine h.tasks _ _ (Nat.le_refl _) ?_ ?_
  · intro r owner t₀ _ _ ht₀ ho
    rw [Table.row_modify_some ht₀]
    split
    · exact ⟨_, rfl, rfl, rfl⟩
    · exact ⟨_, rfl, ho, rfl⟩
  · intro i run hi
    rcases Table.row_insert_cases hi with ⟨-, rfl⟩ | ⟨-, hi⟩
    · exact .inr ⟨rfl, (Table.lt_next ht : task < s.tasks.next)⟩
    · exact .inl hi

/-- A settled result other than a completion or a cancellation leaves the task open. -/
theorem EvictTask.settled_isOpen {r : Result} (hc : r ≠ .complete) (hx : r ≠ .cancel) :
    (t.settled r exhausted).isOpen = true := by
  cases r with
  | complete => exact absurd rfl hc
  | cancel => exact absurd rfl hx
  | wait mode => rfl
  | retry => cases exhausted <;> rfl

@[simp] theorem EvictTask.settled_generation (t : EvictTask) (r : Result) (exhausted : Bool) :
    (t.settled r exhausted).generation = t.generation := by
  cases r with
  | retry => cases exhausted <;> rfl
  | _ => rfl

theorem Row.releaseEviction_cases (r : Row) (generation task : Nat) : r.releaseEviction generation task = r ∨
      (r.operationGeneration = generation ∧ r.activeTask = some task ∧
        r.releaseEviction generation task = { r with activeTask := none }) := by
  unfold Row.releaseEviction
  split
  · next h => exact .inr ⟨h.1, h.2, rfl⟩
  · exact .inl rfl

theorem Owned.settled (h : Owned s) (hrun : s.runs.row id = some run) (ht : s.tasks.row run.task = some t)
    (hres : run.result = some result) :
    Owned { s with
      tasks := s.tasks.modify run.task fun t => t.settled result exhausted
      row := if result = .cancel then s.row.map (·.releaseEviction t.generation run.task) else s.row } := by
  -- the release first, the task's row after it
  have hrow : ∀ r', (if result = .cancel then s.row.map (·.releaseEviction t.generation run.task) else s.row) = some r' →
      ∃ r, s.row = some r ∧ r'.operationGeneration = r.operationGeneration ∧ r'.inCache = r.inCache ∧
        (∀ task, r'.activeTask = some task → r.activeTask = some task ∧ (result = .cancel → task ≠ run.task)) := by
    intro r' hr'
    split at hr'
    · next hc =>
      obtain ⟨r, hr, rfl⟩ := Option.map_eq_some_iff.mp hr'
      rcases r.releaseEviction_cases t.generation run.task with he | ⟨-, -, he⟩
      · refine ⟨r, hr, by rw [he], by rw [he], fun task hact => ?_⟩
        rw [he] at hact
        refine ⟨hact, fun _ => ?_⟩
        rintro rfl
        obtain ⟨t₀, ht₀, -, hg⟩ := h.owner r run.task hr hact
        rw [ht] at ht₀
        cases ht₀
        have : r.releaseEviction t.generation run.task = { r with activeTask := none } := if_pos ⟨hg.symm, hact⟩
        rw [he] at this
        rw [this] at hact
        cases hact
      · refine ⟨r, hr, by rw [he], by rw [he], fun task hact => ?_⟩
        rw [he] at hact
        cases hact
    · next hc => exact ⟨r', hr', rfl, rfl, fun task hact => ⟨hact, fun h => absurd h hc⟩⟩
  refine ⟨?_, ?_, ?_, ?_, ?_, ?_, h.listed⟩
  · intro r' task hr' hact
    obtain ⟨r, hr, hgen, -, hown⟩ := hrow r' hr'
    obtain ⟨hact, hnc⟩ := hown task hact
    obtain ⟨t₀, ht₀, ho, hg⟩ := h.owner r task hr hact
    rw [Table.row_modify_some ht₀]
    split
    · next htask =>
      subst htask
      refine ⟨_, rfl, EvictTask.settled_isOpen ?_ fun hc => hnc hc rfl, ?_⟩
      · rintro rfl
        exact h.done id run r hrun hres hr hact
      · rw [EvictTask.settled_generation, hg, hgen]
    · exact ⟨t₀, rfl, ho, hg.trans hgen.symm⟩
  · intro i run' r' hi hres' hr' hact
    obtain ⟨r, hr, -, -, hown⟩ := hrow r' hr'
    exact h.done i run' r hi hres' hr (hown _ hact).1
  · exact h.runTask
  · intro r' hr'
    obtain ⟨r, hr, hgen, -, -⟩ := hrow r' hr'
    rw [hgen]
    exact h.bound r hr
  · intro hn ha
    refine h.unborn ?_ ha
    by_contra hne
    obtain ⟨r, hr⟩ := Option.ne_none_iff_exists'.mp hne
    simp only [hr, Option.map_some] at hn
    split at hn <;> cases hn
  · intro i o n hi
    have he := h.examined i o n hi
    refine he.append (l := []) (List.append_nil _).symm fun b hb => ?_
    obtain ⟨r₀, hr₀, hin⟩ := he.present b (hb.resolve_right List.not_mem_nil)
    simp only [hr₀, Option.map_some]
    split
    · refine ⟨_, rfl, ?_⟩
      rcases r₀.releaseEviction_cases t.generation run.task with he | ⟨-, -, he⟩ <;> rw [he] <;> exact hin
    · exact ⟨r₀, rfl, hin⟩

theorem Owned.examine (h : Owned s) (hl : s.listed.row id = some o) :
    Owned (s.enter (.examined o s.log.length)) := by
  refine ⟨h.owner, h.done, h.runTask, h.bound, h.unborn, fun i o' n hi => ?_, h.listed⟩
  rcases State.sections_enter hi with hi | hi
  · exact ⟨(h.examined i o' n hi).le, (h.examined i o' n hi).generation, (h.examined i o' n hi).present⟩
  cases hi
  refine ⟨Nat.le_refl _, ?_, fun b hb => ?_⟩
  · show _ ≤ evictionsBound (s.log.take s.log.length)
    rw [List.take_length]
    exact h.listed id o hl
  · rw [show (s.enter (.examined o s.log.length)).log = s.log from rfl, List.drop_length] at hb
    cases hb

theorem Owned.list (h : Owned s) (ha : s.alive = true)
    (hg : o.operationGeneration = (s.row.getD {}).operationGeneration) :
    Owned { s with listed := s.listed.insert o } := by
  refine ⟨h.owner, h.done, h.runTask, h.bound, h.unborn, fun i o n hi => ?_, fun i o hi => ?_⟩
  · exact ⟨(h.examined i o n hi).le, (h.examined i o n hi).generation, (h.examined i o n hi).present⟩
  · rcases Table.row_insert_cases hi with ⟨-, rfl⟩ | ⟨-, hi⟩
    · exact Nat.le_of_eq (hg.trans (h.generation (.inl ha)))
    · exact h.listed i o hi

theorem Owned.finalize (h : Owned s) (hr : ∀ r, s.row = some r → r.inCache = false) :
    Owned { s with row := none, alive := false } := by
  refine ⟨nofun, nofun, h.runTask, nofun, nofun, fun i o n hi => ?_, h.listed⟩
  have he := h.examined i o n hi
  refine ⟨he.le, he.generation, fun b hb => ?_⟩
  obtain ⟨r, hrow, hin⟩ := he.present b hb
  rw [hr r hrow] at hin
  cases hin

theorem Owned.crash (h : Owned s) : Owned s.crash := by
  have hq : Owned { s with sections := s.sections.deleteWhere fun _ _ => true,
                           listed := s.listed.deleteWhere fun _ _ => true } :=
    h.quiet rfl rfl rfl rfl id (fun i o n hi => Table.cleared hi) fun i o hi => Table.cleared hi
  have ht := hq.tasks s.tasks (s.runs.deleteWhere fun _ _ => true) (Nat.le_refl _)
    (fun r task t _ _ ht ho => ⟨t, ht, ho, rfl⟩) fun i run hi => Table.cleared hi
  exact ht.fields s.file false s.versions s.cleanup

theorem Owned.step {a : Action} (h : Owned s) (hs : step s a = some s') : Owned s' := by
  have hfile : ∀ file, Owned { s with file := file } := fun file => h.fields file _ _ _
  cases step_effect hs with
  | wrote | fetched => exact (hfile _).enter nofun
  | committed _ ha => exact ((h.upsertPresence ha (.inl rfl)).fields _ _ (s.versions + 1) _).leave _
  | uncommitted | closed | unrestored => exact h.leave _
  | noted => exact (h.record ..).leave _
  | opened => exact (h.record ..).enter nofun
  | swept => exact h.persistCommit _
  | missed hex ha => exact h.upsertPresence ha (.inr hex)
  | listed ha o hg => exact h.list ha hg
  | examined hl => exact h.examine hl
  | restored _ hr =>
    refine Owned.leave ?_ _
    exact h.written rfl rfl (by rw [hr]; rfl) (.inr (by rw [hr]; rfl)) rfl rfl (.inr (by rw [hr]; nofun))
      (fun i o n hi => ⟨hi, rfl⟩) fun _ _ hi => hi
  | quarantined hex | released hex => exact (hfile none).clearPresenceTx _ hex
  | cleared hex => exact h.clearPresenceTx _ hex
  | unnamed | orphaned => exact h.fields _ _ _ _
  | discarded _ _ ha => exact h.quiet rfl rfl rfl rfl (fun _ => ha) (fun _ _ _ => id) fun _ _ => id
  | finalized _ hr => exact h.finalize hr
  | planned hs => exact h.enqueueEviction hs
  | retried _ hr ho => exact h.retried hr ho
  | claimed ht => exact h.claimed ht
  | evicted hrun _ hex _ he =>
    obtain ⟨ho, hruns, hdone⟩ := h.evictEffect hex he
    rw [← hruns]
    exact ho.setResult (by rw [hruns]; exact hrun) hdone
  | settled hrun ht hres => exact h.settled hrun ht hres
  | crashed => exact h.crash

theorem cache_owned (h : cacheMachine.Reachable s) : Owned s := by
  refine h.invariant (fun s hi => ?_) fun _ _ _ ho hs => ho.step hs
  rw [show s = {} from hi]
  exact .init

end SynapS3.Cache
