import SynapS3.Pull.Machine

/-!
# `Pull.Laws` — what every step keeps

Three laws about a step: how a copy's task can change, how the ledger can, and that a task keeps its input and the
task that it retries. A task that is not bound is refused by the fence before anything else.
-/

namespace SynapS3.Pull
open Pipeline (CopyStatus TransferMethod)

variable {s s' : State} {task id : Nat} {c : Copy} {f : Copy → Copy}

theorem State.fenced_some {t : CopyTask} (h : s.fenced task = some (t, c)) :
    s.tasks.row task = some t ∧ s.copies.row t.copy = some c ∧ c.workGeneration = t.generation ∧
      c.activeTask = some task := by
  unfold State.fenced at h
  split at h
  · cases h
  next t₀ ht =>
  split at h
  · cases h
  · next c₀ hc =>
    split at h
    · next hf => cases h; exact ⟨ht, hc, hf⟩
    · cases h

theorem State.reservePullRequest_some {attempt : Nat} {request : Request}
    (h : s.reservePullRequest task attempt request = some s') :
    ∃ t c l, s.fenced task = some (t, c) ∧ s.attempts.reserve attempt c.content c.dataSet request = some l ∧
      s' = { s with attempts := l, log := s.log ++ [.reserved task attempt request] } := by
  unfold State.reservePullRequest at h
  split at h
  · cases h
  · next t c hf =>
    obtain ⟨l, hl, rfl⟩ := Option.map_eq_some_iff.mp h
    exact ⟨t, c, l, hf, hl, rfl⟩

theorem State.replaceCopyTask_some (h : s.replaceCopyTask task = some s') :
    ∃ t c, s.fenced task = some (t, c) ∧ s' = { s with
      tasks := s.tasks.insert { copy := t.copy, generation := t.generation + 1 }
      copies := s.copies.modify t.copy fun c =>
        { c with workGeneration := t.generation + 1, activeTask := some s.tasks.next } } := by
  unfold State.replaceCopyTask at h
  split at h
  · cases h
  · next t c hf => cases h; exact ⟨t, c, hf, rfl⟩

/-! ## The task of a copy -/

/-- The copy's generation does not go back, and a task that is newly bound has a higher one, or takes over from the
    failed task that it retries. -/
structure Rebound (tasks : Table CopyTask) (c c' : Copy) : Prop where
  generation : c.workGeneration ≤ c'.workGeneration
  task : ∀ t, c'.activeTask = some t → c.activeTask = some t ∨ c.workGeneration < c'.workGeneration ∨
    (c'.workGeneration = c.workGeneration ∧
      ∃ old row, c.activeTask = some old ∧ tasks.row t = some row ∧ row.retryOf = some old)

variable {tasks : Table CopyTask} {c' : Copy}

theorem Rebound.of_same (hg : c'.workGeneration = c.workGeneration)
    (ht : c'.activeTask = c.activeTask ∨ c'.activeTask = none) : Rebound tasks c c' := by
  refine ⟨Nat.le_of_eq hg.symm, fun t h => ?_⟩
  rcases ht with he | he
  · exact .inl (he.symm.trans h)
  · rw [he] at h
    cases h

theorem Rebound.of_lt (h : c.workGeneration < c'.workGeneration) :
    Rebound tasks c c' := ⟨Nat.le_of_lt h, fun _ _ => .inr (.inl h)⟩

def CopyLaw (s s' : State) : Prop :=
  ∀ id c, s.copies.row id = some c → ∃ c', s'.copies.row id = some c' ∧ Rebound s'.tasks c c'

theorem CopyLaw.of_eq (h : s'.copies = s.copies) : CopyLaw s s' :=
  fun id c hc => ⟨c, by rw [h]; exact hc, .of_same rfl (.inl rfl)⟩

theorem CopyLaw.modify (h : s'.copies = s.copies.modify id f)
    (hf : ∀ c, s.copies.row id = some c → Rebound s'.tasks c (f c)) : CopyLaw s s' := by
  intro i c hc
  refine ⟨if i = id then f c else c, by rw [h]; exact Table.row_modify_some hc id f, ?_⟩
  split
  · next hi => subst hi; exact hf c hc
  · exact .of_same rfl (.inl rfl)

/-! ## The tasks -/

/-- A task keeps its row but for the checkpoint, and a new one has none or that of the task it retries. -/
structure TaskLaw (s s' : State) : Prop where
  old : ∀ t row, s.tasks.row t = some row → ∃ row', s'.tasks.row t = some row' ∧ row'.retryOf = row.retryOf
  checkpoint : ∀ t row k, s'.tasks.row t = some row → row.checkpoint = some k →
    (∃ row₀, s.tasks.row t = some row₀ ∧ row₀.checkpoint = some k) ∨
      ∃ old row₀, row.retryOf = some old ∧ s.tasks.row old = some row₀ ∧ row₀.checkpoint = some k

theorem TaskLaw.of_eq (h : s'.tasks = s.tasks) : TaskLaw s s' :=
  ⟨fun t row ht => ⟨row, by rw [h]; exact ht, rfl⟩, fun t row k ht hk => .inl ⟨row, by rw [← h]; exact ht, hk⟩⟩

theorem TaskLaw.insert {row : CopyTask} (h : s'.tasks = s.tasks.insert row) (hrow : ∀ k, row.checkpoint = some k →
      ∃ old row₀, row.retryOf = some old ∧ s.tasks.row old = some row₀ ∧ row₀.checkpoint = some k) : TaskLaw s s' := by
  refine ⟨fun t r ht => ⟨r, ?_, rfl⟩, fun t r k ht hk => ?_⟩
  · rw [h, Table.row_insert, if_neg (Nat.ne_of_lt (Table.lt_next ht))]
    exact ht
  · rw [h] at ht
    rcases Table.row_insert_cases ht with ⟨-, rfl⟩ | ⟨-, ht⟩
    · exact .inr (hrow k hk)
    · exact .inl ⟨r, ht, hk⟩

/-- A step that sends nothing. -/
structure Quiet (s s' : State) : Prop where
  copies : CopyLaw s s'
  ledger : s.attempts.Next s'.attempts
  tasks : TaskLaw s s'
  runs : s'.runs = s.runs
  log : s'.log = s.log

theorem Quiet.setCopy {l : Ledger} (hl : s.attempts.Next l)
    (hf : ∀ c, (f c).workGeneration = c.workGeneration ∧ ((f c).activeTask = c.activeTask ∨ (f c).activeTask = none)) :
    Quiet s { s with attempts := l, copies := s.copies.modify id f } :=
  ⟨.modify rfl fun c _ => .of_same (hf c).1 (hf c).2, hl, .of_eq rfl, rfl, rfl⟩

/-! ## Binding -/

theorem Quiet.bindCopyTask (h : s.bindCopyTask id = some s') : Quiet s s' := by
  unfold State.bindCopyTask at h
  split at h
  · cases h
  · split at h <;> cases h
    exact ⟨.modify rfl fun c _ => .of_lt (Nat.lt_succ_self _), .refl _, .insert rfl nofun, rfl, rfl⟩

theorem Quiet.replaceCopyTask (h : s.replaceCopyTask task = some s') : Quiet s s' := by
  obtain ⟨t, c, hf, rfl⟩ := State.replaceCopyTask_some h
  obtain ⟨-, hc, hg, -⟩ := State.fenced_some hf
  refine ⟨.modify rfl fun c' hc' => .of_lt ?_, .refl _, .insert rfl nofun, rfl, rfl⟩
  rw [hc] at hc'
  cases hc'
  exact hg ▸ Nat.lt_succ_self _

theorem Quiet.retryTask {migrating : Bool} (h : s.retryTask task migrating = some s') : Quiet s s' := by
  unfold State.retryTask at h
  split at h
  · cases h
  next t c hf =>
  obtain ⟨ht, hc, -, hact⟩ := State.fenced_some hf
  split at h
  · cases h
  next checkpoint hk =>
  cases h
  refine ⟨.modify rfl fun c' hc' => ⟨Nat.le_refl _, fun new hnew => .inr (.inr ⟨rfl, task, ?_⟩)⟩, .refl _,
    .insert rfl fun k hkk => ⟨task, t, rfl, ht, ?_⟩, rfl, rfl⟩
  · rw [hc] at hc'
    cases hc'
    cases hnew
    exact ⟨_, hact, by rw [Table.row_insert, if_pos rfl], rfl⟩
  · -- the checkpoint is the one of the failed task, or there is none
    cases (show checkpoint = some k from hkk)
    unfold State.retryCheckpoint at hk
    split at hk
    · cases hk
    next k' hk' =>
    split at hk
    · cases hk
    · split at hk
      · cases hk; exact hk'
      · split at hk <;> cases hk

theorem Quiet.resumeFailedStoreCopy (h : s.resumeFailedStoreCopy task = some s') : Quiet s s' := by
  unfold State.resumeFailedStoreCopy at h
  split at h
  · cases h
  next t ht =>
  split at h
  · cases h
  next c hc =>
  split at h
  · next hcond =>
    cases h
    refine ⟨.modify rfl fun c' hc' => .of_lt ?_, .refl _, .insert rfl nofun, rfl, rfl⟩
    rw [hc] at hc'
    cases hc'
    exact hcond.1 ▸ Nat.lt_succ_self _
  · cases h

/-! ## The settlements -/

/-- A quiet step that changes no copy but the one given. -/
def QuietOn (id : Nat) (s s' : State) : Prop := Quiet s s' ∧ ∃ f, s'.copies = s.copies.modify id f

theorem QuietOn.setCopy {l : Ledger} (hl : s.attempts.Next l)
    (hf : ∀ c, (f c).workGeneration = c.workGeneration ∧ ((f c).activeTask = c.activeTask ∨ (f c).activeTask = none)) :
    QuietOn id s { s with attempts := l, copies := s.copies.modify id f } :=
  ⟨.setCopy hl hf, f, rfl⟩

theorem QuietOn.settled {l : Option Ledger} (hg : ∀ c, (f c).workGeneration = c.workGeneration)
    (hl : ∀ l', l = some l' → s.attempts.Next l') (h : s.settled id l f = some s') : QuietOn id s s' := by
  obtain ⟨l', hl', rfl⟩ := Option.map_eq_some_iff.mp h
  exact .setCopy (hl l' hl') fun c => ⟨hg c, .inr rfl⟩

theorem Ledger.Next.onAttempt {l l' : Ledger} {attempt : Option Nat} {f : Nat → Option Ledger}
    (hf : ∀ id l', f id = some l' → l.Next l') (h : l.onAttempt attempt f = some l') : l.Next l' := by
  cases attempt with
  | none => cases h; exact .refl l
  | some id => exact hf id l' h

/-- A task changes no copy but its own, and that one only as its active task. -/
theorem Quiet.taskOp {op : TaskOp} (h : s.taskOp task op = some s') :
    ∃ t c, s.fenced task = some (t, c) ∧ QuietOn t.copy s s' := by
  unfold State.taskOp at h
  split at h
  · cases h
  next t c hf =>
  refine ⟨t, c, hf, ?_⟩
  cases op with
  | beginProgress n | recordProgress n bytes =>
    dsimp only at h
    split at h <;> cases h
    exact .setCopy (.refl _) fun _ => ⟨rfl, .inl rfl⟩
  | advance =>
    refine ⟨.replaceCopyTask h, ?_⟩
    obtain ⟨t', c', hf', rfl⟩ := State.replaceCopyTask_some h
    cases hf.symm.trans hf'
    exact ⟨_, rfl⟩
  | complete => exact .settled (fun _ => rfl) (fun l' hl' => by cases hl'; exact .refl _) h
  | finish a =>
    dsimp only at h
    split at h
    · cases h
    · refine .settled (fun c => ?_) (fun l' => .onAttempt fun _ _ => .resolvePull) h
      split <;> rfl
  | fail a =>
    dsimp only at h
    split at h
    · cases h
    · refine .settled (fun c => ?_) (fun l' => .onAttempt fun _ _ => .abandonPull) h
      split <;> rfl
  | release a =>
    dsimp only at h
    split at h
    · cases h
    · exact .settled (fun _ => rfl) (fun l' => .onAttempt fun _ _ => .abandonPull) h
  | restore a =>
    dsimp only at h
    split at h
    · obtain ⟨l, hl, h⟩ := Option.bind_eq_some_iff.mp h
      obtain ⟨u, hu, rfl⟩ := Option.map_eq_some_iff.mp h
      obtain ⟨t', c', hf', rfl⟩ := State.replaceCopyTask_some hu
      obtain ⟨ht, hc, hg, -⟩ := State.fenced_some hf
      have htt : t' = t := Option.some.inj ((State.fenced_some hf').1.symm.trans ht)
      subst htt
      refine ⟨⟨.modify (Table.modify_modify _ _ _ _) fun c₀ hc₀ => .of_lt ?_,
        .onAttempt (fun _ _ => .abandonOpen) hl, .insert rfl nofun, rfl, rfl⟩, _, Table.modify_modify _ _ _ _⟩
      rw [hc] at hc₀
      cases hc₀
      exact hg ▸ Nat.lt_succ_self _
    · cases h
  | abandon id =>
    dsimp only at h
    split at h
    · obtain ⟨l, hl, rfl⟩ := Option.map_eq_some_iff.mp h
      exact ⟨⟨.of_eq rfl, .abandonOpen hl, .of_eq rfl, rfl, rfl⟩, fun c => c, (Table.modify_self _ _).symm⟩
    · cases h

/-! ## What others do -/

theorem Quiet.copyOp {op : CopyOp} (h : s.copyOp id op = some s') : Quiet s s' := by
  unfold State.copyOp at h
  split at h
  · cases h
  cases op with
  | reopen method =>
    dsimp only at h
    split at h <;> cases h
    exact Quiet.setCopy (.abandonAll _ _ _) fun _ => ⟨rfl, .inl rfl⟩
  | handOver =>
    dsimp only at h
    split at h <;> cases h
    exact ⟨.modify rfl fun c _ => .of_lt (Nat.lt_succ_self _), .refl _, .of_eq rfl, rfl, rfl⟩
  | cancel =>
    dsimp only at h
    split at h <;> cases h
    exact Quiet.setCopy (.refl _) fun _ => ⟨rfl, .inr rfl⟩
  | promote | register status sealed =>
    dsimp only at h
    split at h <;> cases h
    exact Quiet.setCopy (.refl _) fun _ => ⟨rfl, .inl rfl⟩

theorem Quiet.createCopy {content dataSet : Nat} {method : TransferMethod}
    (h : s.createCopy content dataSet method = some s') : Quiet s s' := by
  unfold State.createCopy at h
  split at h <;> cases h
  refine ⟨fun id c hc => ⟨c, ?_, .of_same rfl (.inl rfl)⟩, .refl _, .of_eq rfl, rfl, rfl⟩
  show (s.copies.insert _).row id = some c
  rw [Table.row_insert, if_neg (Nat.ne_of_lt (Table.lt_next hc))]
  exact hc

/-- A step is quiet but for the beginning and the steps of a pull. -/
theorem step_cases {a : Action} (h : step s a = some s') : Quiet s s' ∨
    (∃ task mayPull, s.startPull task mayPull = some s') ∨
    ∃ run attempt request, a = .pull run attempt request ∧ s.pullStep run attempt request = some s' := by
  cases a with
  | create content dataSet method => exact .inl (.createCopy h)
  | bind copy => exact .inl (.bindCopyTask h)
  | retry task migrating => exact .inl (.retryTask h)
  | resume task => exact .inl (.resumeFailedStoreCopy h)
  | task task op =>
    obtain ⟨_, _, -, hq, -⟩ := Quiet.taskOp h
    exact .inl hq
  | copy copy op => exact .inl (.copyOp h)
  | startPull task mayPull => exact .inr (.inl ⟨task, mayPull, h⟩)
  | pull run attempt request => exact .inr (.inr ⟨run, attempt, request, rfl, h⟩)

end SynapS3.Pull
