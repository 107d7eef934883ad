import SynapS3.Cache.Exclusive

/-!
# `Cache.Truthful` — when the recorded residency is true

An eviction deletes the file inside the transaction that records it. If the commit fails, the next execution of
the task has to record the missing file, and until then the task owns the eviction. Two things break this: a
recovering execution of an LRU eviction that ends at once because the usage is at its target, although it is the
deleted file that brought it there, and a commit that the tracker still has to write for the file. `honest` leaves
out these two, and downloads with other bytes.
-/

namespace SynapS3.Cache
open Tasks (TaskStatus TaskResumeMode)

/-- If a version names the content and it is recorded as resident, its file is there with its bytes, or the
    eviction's owner is a task that is not settled as completed or cancelled. -/
def Truthful (s : State) : Prop :=
  0 < s.versions → ∀ r, s.row = some r → r.inCache = true →
    s.file = some .content ∨ ∃ task t, r.activeTask = some task ∧ s.tasks.row task = some t ∧ t.isOpen = true

/-! ## An LRU eviction that loses its file -/

/-- The file is deleted, the commit fails, and the recovering execution finds the usage at its target. -/
def lostFile : List Action :=
  [.writeFile, .writeCommit 1 true, .plan true, .claim 1, .evict 1 { outcome := .failed }, .settle 1 false,
   .claim 1, .evict 2 { lruExit := true }, .settle 2 false]

def lostFileState : State := (cacheMachine.run {} lostFile).getD {}

/-- **The condition on runs**: none of the three things that break the record happens. -/
def honest (s : State) : Action → Bool
  | .rehydrateFile bytes => bytes == .content
  | .evict id x =>
    match s.runs.row id with
    | none => true
    | some run =>
      match s.tasks.row run.task with
      | none => true
      | some t =>
        match run.mode with
        | .recover => !(t.lru && x.lruExit && s.file.isNone)
        | .execute => x.outcome == .ok || !s.commitRequired
  | _ => true

def Sound (s : State) : Prop :=
  0 < s.versions → ∀ r, s.row = some r → r.inCache = true → s.file = some .content

def State.owner (s : State) : Option Nat := s.row.bind Row.activeTask

def Run.relies (run : Run) : Prop :=
  run.result = some .cancel ∨ run.result = some (.wait .execute) ∨ (run.result = none ∧ run.mode = .execute)

/-- The task executes next, or an execution of its current claim relies on the record. -/
def State.Relied (s : State) (task : Nat) (t : EvictTask) : Prop :=
  t.mode = .execute ∨ ∃ id run, s.runs.row id = some run ∧ run.task = task ∧ run.claim = t.claim ∧ run.relies

/-- The file is there wherever it is worked with, and the record of it is true whenever someone relies on it. -/
structure Kept (s : State) : Prop where
  bytes : s.file ≠ some .other
  dead : s.alive = false → s.versions = 0
  /-- The file of a section that works with it cannot go. -/
  held : ∀ id sec, s.sections.row id = some sec → sec ≠ .reader → s.file = some .content
  tracker : 0 < s.versions → s.commitRequired = true → s.file = some .content
  free : s.owner = none → Sound s
  /-- … also before the owner executes, and while an execution of it relies on that. -/
  ready : ∀ task t, s.owner = some task → s.tasks.row task = some t → s.Relied task t → Sound s
  running : ∀ task t, s.tasks.row task = some t → t.status = .running → t.mode = .recover
  claims : ∀ id run t, s.runs.row id = some run → s.tasks.row run.task = some t → run.claim ≤ t.claim
  unique : ∀ i j run run', s.runs.row i = some run → s.runs.row j = some run' → run.task = run'.task →
    run.claim = run'.claim → i = j

variable {s s' : State}

theorem Kept.init : Kept {} :=
  ⟨nofun, nofun, nofun, nofun, fun _ h => absurd h (by decide), nofun, nofun, nofun, nofun⟩

theorem Sound.of_file (h : s.file = some .content) : Sound s := fun _ _ _ _ => h

theorem Kept.content (h : Kept s) (hf : s.file.isSome = true) : s.file = some .content := by
  obtain ⟨b, hb⟩ := Option.isSome_iff_exists.mp hf
  cases b with
  | content => exact hb
  | other => exact absurd hb h.bytes

/-- A step beside the tasks: the record is true afterwards, or the owner is the same and it was true if it was
    before. -/
theorem Kept.frame (h : Kept s) (hbytes : s'.file ≠ some .other) (hdead : s'.alive = false → s'.versions = 0)
    (hheld : ∀ id sec, s'.sections.row id = some sec → sec ≠ .reader → s'.file = some .content)
    (htracker : 0 < s'.versions → s'.commitRequired = true → s'.file = some .content)
    (htasks : s'.tasks = s.tasks) (hruns : s'.runs = s.runs)
    (hsound : Sound s' ∨ (s'.owner = s.owner ∧ (Sound s → Sound s'))) : Kept s' := by
  refine ⟨hbytes, hdead, hheld, htracker, ?_, ?_, ?_, ?_, ?_⟩
  · intro ho
    rcases hsound with hs | ⟨he, hs⟩
    · exact hs
    · exact hs (h.free (he ▸ ho))
  · intro task t ho ht hrel
    rcases hsound with hs | ⟨he, hs⟩
    · exact hs
    · rw [htasks] at ht
      rw [State.Relied, hruns] at hrel
      exact hs (h.ready task t (he ▸ ho) ht hrel)
  · rw [htasks]; exact h.running
  · rw [htasks, hruns]; exact h.claims
  · rw [hruns]; exact h.unique

/-! ## The steps beside the tasks -/

variable {u : State} {task id : Nat} {run : Run} {t : EvictTask} {x : Look} {result : Result}

theorem Kept.asserted (h : Kept s) (hfile : s.file = some .content)
    (hu : (∃ c, u = { s with commitRequired := c }) ∨ Persisted s u) : Kept u := by
  have hu' : u.file = s.file ∧ u.alive = s.alive ∧ u.versions = s.versions ∧ u.sections = s.sections ∧
      u.tasks = s.tasks ∧ u.runs = s.runs := by
    rcases hu with ⟨c, rfl⟩ | ⟨c, rfl, -⟩ <;> exact ⟨rfl, rfl, rfl, rfl, rfl, rfl⟩
  obtain ⟨hf, ha, hv, hsec, ht, hr⟩ := hu'
  rw [hfile] at hf
  refine h.frame (by rw [hf]; nofun) ?_ (fun _ _ _ _ => hf) (fun _ _ => hf) ht hr (.inl (.of_file hf))
  rw [ha, hv]
  exact h.dead

theorem Kept.leave (h : Kept s) (id : Nat) : Kept (s.leave id) :=
  h.frame h.bytes h.dead (fun i sec hi hne => h.held i sec (State.sections_leave hi) hne) h.tracker rfl rfl
    (.inr ⟨rfl, fun hs => hs⟩)

theorem Kept.enter (h : Kept s) {sec : Section} (hfile : sec ≠ .reader → s.file = some .content) : Kept (s.enter sec) := by
  refine h.frame h.bytes h.dead (fun i sec' hi hne => ?_) h.tracker rfl rfl (.inr ⟨rfl, fun hs => hs⟩)
  rcases State.sections_enter hi with hi | rfl
  · exact h.held i sec' hi hne
  · exact hfile hne

theorem Kept.putFile (h : Kept s) : Kept { s with file := some .content } :=
  h.frame nofun h.dead (fun _ _ _ _ => rfl) (fun _ _ => rfl) rfl rfl (.inl (.of_file rfl))

theorem Kept.record (h : Kept s) (hfile : s.file = some .content) (requireCommit overflow due : Bool) (o : Tx.Outcome) :
    Kept (s.record requireCommit overflow due o) := by
  refine h.asserted hfile ?_
  rcases s.record_cases requireCommit overflow due o with ⟨c, -, he⟩ | ⟨hp, -⟩
  · exact .inl ⟨c, he⟩
  · exact .inr hp

/-- The tracker's commit is written: nobody can tell if no version names the content, and the file is there
    otherwise. -/
theorem Kept.persistCommit (h : Kept s) (hc : s.commitRequired = true) (o : Tx.Outcome) : Kept (s.persistCommit o) := by
  rcases s.persistCommit_cases o with he | ⟨c, he, ha⟩
  · rw [he]; exact h
  · rw [he]
    refine h.frame h.bytes h.dead h.held ?_ rfl rfl (.inl fun hv _ _ _ => h.tracker hv hc)
    exact fun hv _ => h.tracker hv hc

variable {r : Row}

theorem Kept.taken (h : Kept s) {c : Bool} (hin : r.inCache = false) :
    Kept { s.setRow r with commitRequired := c && s.commitRequired } := by
  refine h.frame h.bytes h.dead h.held ?_ rfl rfl (.inl fun _ r' hr' hin' => ?_)
  · intro hv hc
    simp only [Bool.and_eq_true] at hc
    exact h.tracker hv hc.2
  · cases hr'
    rw [hin] at hin'
    cases hin'

theorem Kept.clearPresenceTx (h : Kept s) (o : Tx.Outcome) : Kept (s.clearPresenceTx o) := by
  rcases s.clearPresenceTx_cases o with ⟨c, he⟩ | ⟨c, r, -, he⟩
  · rw [he]
    refine h.frame h.bytes h.dead h.held ?_ rfl rfl (.inr ⟨rfl, fun hs => hs⟩)
    intro hv hc
    simp only [Bool.and_eq_true] at hc
    exact h.tracker hv hc.2
  · rw [he]; exact h.taken rfl

theorem Kept.unnamed (h : Kept s) (hex : s.exclusive = true) (hv : s.versions = 0) (hfile : u.file = none)
    (hversions : u.versions = s.versions) (hsec : u.sections = s.sections) (htasks : u.tasks = s.tasks)
    (hruns : u.runs = s.runs) : Kept u := by
  refine h.frame (by rw [hfile]; nofun) (fun _ => hversions.trans hv) ?_ ?_ htasks hruns (.inl fun hpos => ?_)
  · intro i sec hi
    rw [hsec] at hi
    exact (State.not_held hex hi).elim
  · intro hpos
    rw [hversions, hv] at hpos
    cases hpos
  · rw [hversions, hv] at hpos
    cases hpos

/-! ## Evictions -/

theorem Row.recordDeletion_absent {r' : Row} {generation : Nat}
    (h : r.recordDeletion generation task = some r') : r'.inCache = false := by
  unfold Row.recordDeletion at h
  split at h
  · cases h; rfl
  split at h
  · next hd =>
    cases h
    simp only [Row.deletionRecorded, Bool.and_eq_true, Bool.not_eq_true'] at hd
    exact hd.2
  · cases h

/-- The section of an execution of `run`, before its result is noted. After a deletion that is not recorded the
    owner's only execution is the one at hand. -/
theorem Kept.evictEffect (h : Kept s) (hex : s.exclusive = true)
    (hout : run.mode = .execute → x.outcome = .ok ∨ s.commitRequired = false)
    (he : EvictEffect s (run.valid t) run.task t run.mode x s' result) :
    (Kept s' ∧ ((result = .cancel ∨ result = .wait .execute) →
        Sound s' ∨ (s' = s ∧ MayGiveUp s run.task t run.mode x))) ∨
      (s' = { s with file := none } ∧ result = .retry ∧ run.valid t = true ∧ s.owner = some run.task ∧
        s.commitRequired = false) := by
  cases he with
  | idle hne hwhy => exact .inl ⟨h, fun hres => .inr ⟨rfl, hwhy hres⟩⟩
  | forgot hrec =>
    refine .inl ⟨h.frame h.bytes h.dead h.held (fun _ hc => ?_) rfl rfl (.inr ⟨rfl, fun hs => hs⟩), nofun⟩
    cases hc
  | flushed hc hmode hne =>
    refine .inl ⟨h.persistCommit hc _, fun _ => .inl ?_⟩
    rcases s.persistCommit_cases _ with he | ⟨c, he, -⟩ <;> rw [he] <;> exact fun hv _ _ _ => h.tracker hv hc
  | unrecorded hv hr ho hmode hne =>
    refine .inr ⟨rfl, rfl, hv, ?_, (hout hmode).resolve_left hne⟩
    rw [State.owner, hr]
    exact ho.2
  | @deleted r c hv hr ho hmode hc =>
    have hcr : (c && s.commitRequired) = false := by
      cases c with
      | false => rfl
      | true => rw [Bool.true_and]; exact (hout hmode).resolve_left (hc rfl)
    refine .inl ⟨h.frame nofun h.dead (fun i sec hi => (State.not_held hex hi).elim) ?_ rfl rfl (.inl ?_), ?_⟩
    · intro _ hreq
      rw [show (c && s.commitRequired) = true from hreq] at hcr
      cases hcr
    · intro _ r' hr' hin
      cases hr'
      cases hin
    · intro hres
      cases c <;> simp at hres
  | @observed r r' c hv hfile hr hrec =>
    refine .inl ⟨h.taken (Row.recordDeletion_absent hrec), fun hres => ?_⟩
    cases c <;> simp at hres

theorem Kept.setResult (h : Kept s) (hrun : s.runs.row id = some run) (ht : s.tasks.row run.task = some t)
    (hrel : (result = .cancel ∨ result = .wait .execute) → s.owner = some run.task → run.claim = t.claim → Sound s) :
    Kept { s with runs := s.runs.modify id fun run => { run with result := some result } } := by
  -- a row of the new table comes from a row of the old one under the same identifier
  have hold : ∀ i run', (s.runs.modify id fun run => { run with result := some result }).row i = some run' →
      ∃ run₀, s.runs.row i = some run₀ ∧ run'.task = run₀.task ∧ run'.claim = run₀.claim := by
    intro i run' hi
    rcases Table.row_modify_read hrun hi with ⟨rfl, rfl⟩ | ⟨-, hi⟩
    · exact ⟨run, hrun, rfl, rfl⟩
    · exact ⟨run', hi, rfl, rfl⟩
  refine ⟨h.bytes, h.dead, h.held, h.tracker, h.free, ?_, h.running, ?_, ?_⟩
  · intro task t₀ ho ht₀ hready
    rcases hready with hm | ⟨i, run', hi, htask, hclaim, hr⟩
    · exact h.ready task t₀ ho ht₀ (.inl hm)
    rcases Table.row_modify_read hrun hi with ⟨rfl, rfl⟩ | ⟨-, hi⟩
    · cases htask
      rw [ht] at ht₀
      cases ht₀
      refine hrel ?_ ho hclaim
      rcases hr with hr | hr | ⟨hr, -⟩
      · exact .inl (Option.some.inj hr)
      · exact .inr (Option.some.inj hr)
      · cases hr
    · exact h.ready task t₀ ho ht₀ (.inr ⟨i, run', hi, htask, hclaim, hr⟩)
  · intro i run' t₀ hi ht₀
    obtain ⟨run₀, hi₀, htask, hclaim⟩ := hold i run' hi
    rw [hclaim]
    rw [htask] at ht₀
    exact h.claims i run₀ t₀ hi₀ ht₀
  · intro i j run₁ run₂ hi hj htask hclaim
    obtain ⟨r₁, hr₁, ht₁, hc₁⟩ := hold i run₁ hi
    obtain ⟨r₂, hr₂, ht₂, hc₂⟩ := hold j run₂ hj
    exact h.unique i j r₁ r₂ hr₁ hr₂ (by rw [← ht₁, ← ht₂, htask]) (by rw [← hc₁, ← hc₂, hclaim])

/-- A deletion that is not recorded: nothing relies on the record any more. -/
theorem Kept.unrecorded (h : Kept s) (hex : s.exclusive = true) (hc : s.commitRequired = false)
    (ho : s.owner = some task) (hno : ∀ t, s.tasks.row task = some t → ¬s.Relied task t) :
    Kept { s with file := none } := by
  refine ⟨nofun, h.dead, fun i sec hi => (State.not_held hex hi).elim, ?_, ?_, ?_, h.running, h.claims, h.unique⟩
  · intro _ hreq
    rw [show s.commitRequired = true from hreq] at hc
    cases hc
  · intro hn
    rw [show s.owner = none from hn] at ho
    cases ho
  · intro task' t ho' ht hready
    rw [show s.owner = some task' from ho'] at ho
    cases ho
    exact absurd hready (hno t ht)

/-- Whoever gives the eviction up relies on a true record, or there is nothing to rely on. -/
theorem Kept.sound_of_mayGiveUp (h : Kept s) (hown : Owned s) (hrun : s.runs.row id = some run)
    (hnone : run.result = none) (ht : s.tasks.row run.task = some t)
    (hexit : run.mode = .recover → t.lru = true → x.lruExit = true → s.file.isSome = true)
    (hwhy : MayGiveUp s run.task t run.mode x) (ho : s.owner = some run.task) (hclaim : run.claim = t.claim) :
    Sound s := by
  have hexec : run.mode = .execute → Sound s := fun hm =>
    h.ready run.task t ho ht (.inr ⟨id, run, hrun, rfl, hclaim, .inr (.inr ⟨hnone, hm⟩)⟩)
  rcases hwhy with hm | ⟨hlru, hx⟩ | hf | hn | hd | hno
  · exact hexec hm
  · cases hm : run.mode with
    | execute => exact hexec hm
    | recover => exact .of_file (h.content (hexit hm hlru hx))
  · exact .of_file (h.content hf)
  · rw [State.owner, hn] at ho
    cases ho
  · intro hv
    rw [h.dead hd] at hv
    cases hv
  · cases hr : s.row with
    | none => rw [State.owner, hr] at ho; cases ho
    | some r =>
      rw [State.owner, hr] at ho
      obtain ⟨t₀, ht₀, -, hg⟩ := hown.owner r run.task hr ho
      rw [ht] at ht₀
      cases ht₀
      exact absurd ⟨hg.symm, ho⟩ (hno r hr)

theorem Kept.evicted (h : Kept s) (hown : Owned s) (hh : honest s (.evict id x) = true)
    (hrun : s.runs.row id = some run) (ht : s.tasks.row run.task = some t) (hex : s.exclusive = true)
    (hnone : run.result = none) (he : EvictEffect s (run.valid t) run.task t run.mode x u result) :
    Kept { u with runs := s.runs.modify id fun run => { run with result := some result } } := by
  simp only [honest, hrun, ht] at hh
  have hout : run.mode = .execute → x.outcome = .ok ∨ s.commitRequired = false := by
    intro hm
    simpa [hm] using hh
  have hexit : run.mode = .recover → t.lru = true → x.lruExit = true → s.file.isSome = true := by
    intro hm hlru hx
    rw [hm] at hh
    simpa [hlru, hx, Option.isSome_iff_ne_none, Option.isNone_iff_eq_none] using hh
  obtain ⟨htasks, hruns⟩ := he.frame
  rcases h.evictEffect hex hout he with ⟨hk, hres⟩ | ⟨rfl, rfl, hv, ho, hc⟩
  · rw [← hruns]
    refine hk.setResult (by rw [hruns]; exact hrun) (by rw [htasks]; exact ht) fun hr ho hclaim => ?_
    rcases hres hr with hsound | ⟨rfl, hwhy⟩
    · exact hsound
    · exact h.sound_of_mayGiveUp hown hrun hnone ht hexit hwhy ho hclaim
  · have hk : Kept { s with runs := s.runs.modify id fun run => { run with result := some .retry } } :=
      h.setResult hrun ht (by simp)
    simp only [Run.valid, Bool.and_eq_true, beq_iff_eq] at hv
    refine hk.unrecorded hex hc ho fun t' ht' hready => ?_
    rw [show s.tasks.row run.task = some t' from ht'] at ht
    cases ht
    rcases hready with hm | ⟨i, run', hi, htask, hclaim, hrel⟩
    · rw [h.running run.task t ht' hv.1] at hm
      cases hm
    · rcases Table.row_modify_cases hi with ⟨-, run₀, -, rfl⟩ | ⟨hne, hi⟩
      · rcases hrel with hrel | hrel | ⟨hrel, -⟩ <;> cases hrel
      · exact hne (h.unique i id run' run hi hrun htask (hclaim.trans hv.2))

/-! ## The life of a task -/

theorem Kept.enqueueEviction (h : Kept s) (hown : Owned s) {lru : Bool} (hs : s.enqueueEviction lru = some s') :
    Kept s' := by
  rcases hown.enqueueEviction_cases hs with rfl | ⟨r, hr, ha, hb⟩
  · exact h
  rw [State.bindNew_some ha hb]
  have hsound : Sound s := h.free (by rw [State.owner, hr]; exact ha)
  have hsound' : ∀ tasks log, Sound { s with
      row := some { r with operationGeneration := r.operationGeneration + 1, activeTask := some s.tasks.next }
      tasks := tasks, log := log } := by
    intro tasks log hv r' hr' hin
    cases hr'
    exact hsound hv r hr hin
  refine ⟨h.bytes, h.dead, h.held, h.tracker, fun _ => hsound' _ _, fun _ _ _ _ _ => hsound' _ _, ?_, ?_, h.unique⟩
  · intro task t ht
    rcases Table.row_insert_cases ht with ⟨-, rfl⟩ | ⟨-, ht⟩
    · nofun
    · exact h.running task t ht
  · intro id run t hrun ht
    rcases Table.row_insert_cases ht with ⟨heq, -⟩ | ⟨-, ht⟩
    · exact absurd heq (Nat.ne_of_lt (hown.runTask id run hrun))
    · exact h.claims id run t hrun ht

theorem Kept.retried (h : Kept s) (hown : Owned s) (t : EvictTask) (r : Row) : Kept { s with
      row := some { r with activeTask := some s.tasks.next }
      tasks := s.tasks.insert { t with status := .pending, mode := .recover, claim := 0 } } := by
  refine ⟨h.bytes, h.dead, h.held, h.tracker, nofun, ?_, ?_, ?_, h.unique⟩
  · intro new t' ho ht' hready
    cases ho
    rcases Table.row_insert_cases ht' with ⟨-, rfl⟩ | ⟨hne, -⟩
    · rcases hready with hm | ⟨i, run, hi, hrt, -⟩
      · cases hm
      · exact absurd hrt (Nat.ne_of_lt (hown.runTask i run hi))
    · exact absurd rfl hne
  · intro task' t' ht'
    rcases Table.row_insert_cases ht' with ⟨-, rfl⟩ | ⟨-, ht'⟩
    · nofun
    · exact h.running task' t' ht'
  · intro id run t' hrun ht'
    rcases Table.row_insert_cases ht' with ⟨heq, -⟩ | ⟨-, ht'⟩
    · exact absurd heq (Nat.ne_of_lt (hown.runTask id run hrun))
    · exact h.claims id run t' hrun ht'

theorem Kept.claimed (h : Kept s) (ht : s.tasks.row task = some t) : Kept { s with
      tasks := s.tasks.modify task fun t => { t with status := .running, mode := .recover, claim := t.claim + 1 }
      runs := s.runs.insert ⟨task, t.claim + 1, if t.status = .running then .recover else t.mode, none⟩ } := by
  -- an old execution has an older claim than the new one
  have holder : ∀ {i : Nat} {run : Run}, s.runs.row i = some run → run.task = task → run.claim ≠ t.claim + 1 := by
    intro i run hi hrt hclaim
    have := h.claims i run t hi (by rw [hrt]; exact ht)
    omega
  refine ⟨h.bytes, h.dead, h.held, h.tracker, h.free, ?_, ?_, ?_, ?_⟩
  · intro task' t' ho ht' hready
    rcases Table.row_modify_read ht ht' with ⟨rfl, rfl⟩ | ⟨hne, ht'⟩
    · rcases hready with hm | ⟨i, run, hi, hrt, hclaim, hrel⟩
      · cases hm
      · rcases Table.row_insert_cases hi with ⟨-, rfl⟩ | ⟨-, hi⟩
        · refine h.ready task' t ho ht (.inl ?_)
          rcases hrel with hrel | hrel | ⟨-, hm⟩
          · cases hrel
          · cases hrel
          · dsimp only at hm
            split at hm
            · cases hm
            · exact hm
        · exact absurd hclaim (holder hi hrt)
    · refine h.ready task' t' ho ht' ?_
      rcases hready with hm | ⟨i, run, hi, hrt, hclaim, hrel⟩
      · exact .inl hm
      · rcases Table.row_insert_cases hi with ⟨-, rfl⟩ | ⟨-, hi⟩
        · exact absurd hrt.symm hne
        · exact .inr ⟨i, run, hi, hrt, hclaim, hrel⟩
  · intro task' t' ht' hrunning
    rcases Table.row_modify_read ht ht' with ⟨rfl, rfl⟩ | ⟨-, ht'⟩
    · rfl
    · exact h.running task' t' ht' hrunning
  · intro i run t' hi ht'
    rcases Table.row_insert_cases hi with ⟨-, rfl⟩ | ⟨-, hi⟩
    · rcases Table.row_modify_read ht ht' with ⟨-, rfl⟩ | ⟨hne, -⟩
      · exact Nat.le_refl _
      · exact absurd rfl hne
    · rcases Table.row_modify_read ht ht' with ⟨hrt, rfl⟩ | ⟨-, ht'⟩
      · exact Nat.le_succ_of_le (h.claims i run t hi (by rw [hrt]; exact ht))
      · exact h.claims i run t' hi ht'
  · intro i j run run' hi hj hrt hclaim
    rcases Table.row_insert_cases hi with ⟨rfl, rfl⟩ | ⟨-, hi⟩ <;>
      rcases Table.row_insert_cases hj with ⟨rfl, rfl⟩ | ⟨-, hj⟩
    · rfl
    · exact absurd hclaim.symm (holder hj hrt.symm)
    · exact absurd hclaim (holder hi hrt)
    · exact h.unique i j run run' hi hj hrt hclaim

theorem EvictTask.settled_cases (t : EvictTask) (r : Result) (exhausted : Bool) :
    (t.settled r exhausted).status ≠ .running ∧ (t.settled r exhausted).claim = t.claim ∧
      ((t.settled r exhausted).mode = .execute → r = .wait .execute ∨ t.mode = .execute) := by
  cases r with
  | complete => exact ⟨nofun, rfl, .inr⟩
  | cancel => exact ⟨nofun, rfl, .inr⟩
  | wait mode => exact ⟨nofun, rfl, fun hm => .inl (by rw [show mode = .execute from hm])⟩
  | retry =>
    cases exhausted with
    | true => exact ⟨nofun, rfl, .inr⟩
    | false => exact ⟨nofun, rfl, nofun⟩

theorem Kept.settled (h : Kept s) {exhausted : Bool} (hrun : s.runs.row id = some run)
    (ht : s.tasks.row run.task = some t) (hres : run.result = some result) (hv : run.valid t = true) :
    Kept { s with
      tasks := s.tasks.modify run.task fun t => t.settled result exhausted
      row := if result = .cancel then s.row.map (·.releaseEviction t.generation run.task) else s.row } := by
  simp only [Run.valid, Bool.and_eq_true, beq_iff_eq] at hv
  have hready : ∀ task t', s.owner = some task → s.tasks.row task = some t' → task = run.task →
      (result = .cancel ∨ result = .wait .execute) → Sound s := by
    rintro task t' ho ht' rfl hr
    rw [ht] at ht'
    cases ht'
    refine h.ready run.task t ho ht (.inr ⟨id, run, hrun, rfl, hv.2.symm, ?_⟩)
    rcases hr with rfl | rfl
    · exact .inl hres
    · exact .inr (.inl hres)
  -- releasing changes neither the residency nor the file
  have hrow : ∀ r', (if result = .cancel then s.row.map (·.releaseEviction t.generation run.task) else s.row) = some r' →
      ∃ r, s.row = some r ∧ r'.inCache = r.inCache ∧
        (r'.activeTask = r.activeTask ∨ (result = .cancel ∧ r.activeTask = some run.task ∧ r'.activeTask = none)) := by
    intro r' hr'
    split at hr'
    · next hc =>
      obtain ⟨r, hr, rfl⟩ := Option.map_eq_some_iff.mp hr'
      rcases r.releaseEviction_cases t.generation run.task with he | ⟨-, hact, he⟩
      · exact ⟨r, hr, by rw [he], .inl (by rw [he])⟩
      · exact ⟨r, hr, by rw [he], .inr ⟨hc, hact, by rw [he]⟩⟩
    · exact ⟨r', hr', rfl, .inl rfl⟩
  have hsound : ∀ tasks, Sound s → Sound { s with
      tasks := tasks
      row := if result = .cancel then s.row.map (·.releaseEviction t.generation run.task) else s.row } := by
    intro tasks hs hpos r' hr' hin
    obtain ⟨r, hr, hsame, -⟩ := hrow r' hr'
    exact hs hpos r hr (hsame ▸ hin)
  refine ⟨h.bytes, h.dead, h.held, h.tracker, ?_, ?_, ?_, ?_, h.unique⟩
  · intro hn
    refine hsound _ ?_
    cases ho : s.owner with
    | none => exact h.free ho
    | some task =>
      obtain ⟨r, hr, hact⟩ : ∃ r, s.row = some r ∧ r.activeTask = some task := by
        simpa [State.owner, Option.bind_eq_some_iff] using ho
      have hrel : result = .cancel ∧ task = run.task := by
        obtain ⟨r', hr'⟩ : ∃ r', (if result = .cancel then s.row.map (·.releaseEviction t.generation run.task)
            else s.row) = some r' := by
          rw [hr]
          split <;> exact ⟨_, rfl⟩
        obtain ⟨r₀, hr₀, -, hcase⟩ := hrow r' hr'
        rw [hr] at hr₀
        cases hr₀
        have hn' : r'.activeTask = none := by simpa [State.owner, hr'] using hn
        rcases hcase with hsame | ⟨hc, hact', -⟩
        · rw [hsame, hact] at hn'
          cases hn'
        · rw [hact] at hact'
          exact ⟨hc, Option.some.inj hact'⟩
      obtain ⟨hc, htk⟩ := hrel
      exact hready task t ho (by rw [htk]; exact ht) htk (.inl hc)
  · intro task t' ho' ht' hr
    refine hsound _ ?_
    have ho : s.owner = some task := by
      obtain ⟨r', hr', hact⟩ := Option.bind_eq_some_iff.mp ho'
      obtain ⟨r, hrr, -, hcase⟩ := hrow r' hr'
      rw [State.owner, hrr]
      rcases hcase with hsame | ⟨-, -, hnone⟩
      · exact hsame.symm.trans hact
      · rw [hnone] at hact
        cases hact
    rcases Table.row_modify_read ht ht' with ⟨htk, rfl⟩ | ⟨hne, ht'⟩
    · obtain ⟨-, hclaim, hmode⟩ := t.settled_cases result exhausted
      rcases hr with hm | ⟨i, run', hi, hrt, hcl, hrel⟩
      · rcases hmode hm with hw | hm
        · exact hready task t ho (by rw [htk]; exact ht) htk (.inr hw)
        · exact h.ready task t ho (by rw [htk]; exact ht) (.inl hm)
      · exact h.ready task t ho (by rw [htk]; exact ht) (.inr ⟨i, run', hi, hrt, hcl.trans hclaim, hrel⟩)
    · exact h.ready task t' ho ht' hr
  · intro task t' ht' hrunning
    rcases Table.row_modify_read ht ht' with ⟨-, rfl⟩ | ⟨-, ht'⟩
    · exact absurd hrunning (t.settled_cases result exhausted).1
    · exact h.running task t' ht' hrunning
  · intro i run' t' hi ht'
    rcases Table.row_modify_read ht ht' with ⟨hrt, rfl⟩ | ⟨-, ht'⟩
    · rw [(t.settled_cases result exhausted).2.1]
      exact h.claims i run' t hi (by rw [hrt]; exact ht)
    · exact h.claims i run' t' hi ht'

/-! ## All steps -/

theorem Kept.crash (h : Kept s) : Kept s.crash := by
  refine ⟨h.bytes, h.dead, fun i sec hi => Table.cleared hi, nofun, h.free, ?_, h.running,
    fun i run t hi => Table.cleared hi, fun i j run run' hi => Table.cleared hi⟩
  intro task t ho ht hready
  rcases hready with hm | ⟨i, run, hi, -⟩
  · exact h.ready task t ho ht (.inl hm)
  · exact Table.cleared hi

theorem Kept.step {a : Action} (h : Kept s) (hown : Owned s) (hh : honest s a = true) (hs : Cache.step s a = some s') :
    Kept s' := by
  cases step_effect hs with
  | wrote => exact h.putFile.enter fun _ => rfl
  | committed hsec ha =>
    have hfile := h.held _ _ hsec nofun
    refine Kept.leave (s := { s.upsertPresence true with versions := s.versions + 1 }) ?_ _
    refine h.frame h.bytes (fun hd => ?_) h.held (fun _ _ => hfile) rfl rfl (.inl (.of_file hfile))
    rw [show s.alive = false from hd] at ha
    cases ha
  | uncommitted | closed | unrestored => exact h.leave _
  | @fetched bytes hv =>
    have hb : bytes = .content := by simpa [honest] using hh
    subst hb
    exact h.putFile.enter fun _ => rfl
  | noted hsec => exact (h.record (h.held _ _ hsec nofun) ..).leave _
  | opened hf => exact (h.record (h.content hf) ..).enter fun hne => absurd rfl hne
  | swept hc => exact h.persistCommit hc _
  | missed => exact h.taken (c := true) rfl
  | listed => exact h.frame h.bytes h.dead h.held h.tracker rfl rfl (.inr ⟨rfl, fun hs => hs⟩)
  | examined _ hf => exact h.enter fun _ => hf
  | restored hsec hr =>
    refine Kept.leave ?_ _
    exact h.frame h.bytes h.dead h.held h.tracker rfl rfl (.inl (.of_file (h.held _ _ hsec nofun)))
  | quarantined _ hf => exact absurd hf h.bytes
  | cleared => exact h.clearPresenceTx _
  | unnamed hv =>
    refine h.frame h.bytes (fun hd => ?_) h.held (fun _ => h.tracker hv) rfl rfl (.inr ⟨rfl, fun hs _ => hs hv⟩)
    rw [show s.versions = 0 from h.dead hd]
  | released hex hv =>
    refine Kept.clearPresenceTx ?_ _
    exact h.unnamed hex hv rfl rfl rfl rfl rfl
  | orphaned hex hv | discarded hex hv => exact h.unnamed hex hv rfl rfl rfl rfl rfl
  | finalized hv => exact h.frame h.bytes (fun _ => hv) h.held h.tracker rfl rfl (.inl nofun)
  | planned hs => exact h.enqueueEviction hown hs
  | @retried _ t r => exact h.retried hown t r
  | claimed ht => exact h.claimed ht
  | evicted hrun ht hex hnone he => exact h.evicted hown hh hrun ht hex hnone he
  | settled hrun ht hres hv => exact h.settled hrun ht hres hv
  | crashed => exact h.crash

theorem honest_kept (h : (cacheMachine.restrict honest).Reachable s) : Owned s ∧ Kept s := by
  refine h.invariant (I := fun s => Owned s ∧ Kept s) (fun s hi => ?_) fun s a s' hk hs => ?_
  · rw [show s = {} from hi]
    exact ⟨.init, .init⟩
  · obtain ⟨hh, hs⟩ := Lts.restrict_step hs
    exact ⟨hk.1.step hs, hk.2.step hk.1 hh hs⟩

/-- A deletion whose commit fails is recorded by the recovering execution, and the content is fetched again. -/
def recoveredFile : List Action :=
  [.writeFile, .writeCommit 1 true, .plan true, .claim 1, .evict 1 { outcome := .failed }, .settle 1 false,
   .claim 1, .evict 2 {}, .settle 2 false, .rehydrateFile .content, .rehydrateRecord 2 false .ok]

def recoveredFileState : State := ((cacheMachine.restrict honest).run {} recoveredFile).getD {}

end SynapS3.Cache
