import SynapS3.Pull.Sent

/-!
# `Pull.Fenced` — fenced work and single pulls

A retry keeps the generation of the failed task that it takes over from, and with it the reservation that the
failed task made: its request can go out without another one.
-/

namespace SynapS3.Pull
open Pipeline (CopyStatus TransferMethod)

variable {s s' : State}

/-! ## What a task can reach -/

def State.actor (s : State) : Action → Option Nat
  | .task task _ | .startPull task _ => some task
  | .pull run _ _ => (s.runs.row run).map Run.task
  | _ => none

/-- The task is the copy's active task under its current generation. -/
def State.Owns (s : State) (task copy : Nat) : Prop :=
  ∃ t c, s.tasks.row task = some t ∧ s.copies.row copy = some c ∧ t.copy = copy ∧ c.workGeneration = t.generation ∧
    c.activeTask = some task

variable {task copy : Nat} {t : CopyTask} {c : Copy} {a : Action}

theorem State.owns_of_fenced (h : s.fenced task = some (t, c)) : s.Owns task t.copy := by
  obtain ⟨ht, hc, hg, ha⟩ := State.fenced_some h
  exact ⟨t, c, ht, hc, rfl, hg, ha⟩

variable {attempt : Nat} {request : Request}

/-- A step of a pull changes no copy, and of the ledger what a reservation does. -/
theorem State.pullStep_frame {id : Nat} (hs : s.pullStep id attempt request = some s') :
    s'.copies = s.copies ∧ s.attempts.Next s'.attempts := by
  have hreserve : ∀ {task a : Nat} {q : Request} {u : State}, s.reservePullRequest task a q = some u →
      u.copies = s.copies ∧ s.attempts.Next u.attempts := by
    intro task a q u hu
    obtain ⟨t, c, l, -, hl, rfl⟩ := State.reservePullRequest_some hu
    exact ⟨rfl, .reserve hl⟩
  have hsame : s.copies = s.copies ∧ s.attempts.Next s.attempts := ⟨rfl, .refl _⟩
  unfold State.pullStep at hs
  split at hs
  · cases hs
  split at hs
  · split at hs
    · obtain ⟨a, -, rfl⟩ := Option.map_eq_some_iff.mp hs
      exact hsame
    · split at hs <;> cases hs <;> exact hsame
  · obtain ⟨u, hu, rfl⟩ := Option.map_eq_some_iff.mp hs
    have hframe := hreserve hu
    exact hframe
  · split at hs <;> cases hs
    exact hsame
  · split at hs
    · cases hs
    split at hs
    · cases hs
    split at hs
    · cases hs; exact hsame
    · split at hs <;> cases hs
      exact hsame
  · obtain ⟨u, hu, rfl⟩ := Option.map_eq_some_iff.mp hs
    have hframe := hreserve hu
    exact hframe
  · cases hs; exact hsame
  · cases hs; exact hsame

theorem State.startPull_frame {mayPull : Bool} (hs : s.startPull task mayPull = some s') :
    s'.copies = s.copies ∧ s'.attempts = s.attempts := by
  unfold State.startPull at hs
  split at hs <;> cases hs
  exact ⟨rfl, rfl⟩

theorem stale_task_inert (ha : s.actor a = some task) (ho : ¬ s.Owns task copy) (hs : step s a = some s') :
    s'.copies.row copy = s.copies.row copy := by
  cases a with
  | create | bind | retry | resume | copy => cases ha
  | task task' op =>
    cases ha
    obtain ⟨t, c, hf, -, f, hcopies⟩ := Quiet.taskOp hs
    have hne : copy ≠ t.copy := by
      rintro rfl
      exact ho (State.owns_of_fenced hf)
    rw [hcopies, Table.row_modify, if_neg hne]
  | startPull task' mayPull => rw [(State.startPull_frame hs).1]
  | pull run attempt request => rw [(State.pullStep_frame hs).1]

/-! ## One step -/

theorem Honored.step (h : Honored s) (hs : Pull.step s a = some s') : Honored s' := by
  obtain hq | ⟨_, _, hs⟩ | ⟨_, _, _, -, hs⟩ := step_cases hs
  · exact h.quiet hq
  · exact h.startPull hs
  · exact h.pullStep hs

theorem step_laws (hs : step s a = some s') : CopyLaw s s' ∧ s.attempts.Later s'.attempts := by
  obtain hq | ⟨_, _, hs⟩ | ⟨_, _, _, -, hs⟩ := step_cases hs
  · exact ⟨hq.copies, hq.ledger.later⟩
  · obtain ⟨hc, ha⟩ := State.startPull_frame hs
    exact ⟨.of_eq hc, ha ▸ .refl _⟩
  · obtain ⟨hc, hl⟩ := State.pullStep_frame hs
    exact ⟨.of_eq hc, hl.later⟩

theorem reserve_identical (hs : s.reservePullRequest task attempt request = some s') (hwf : s.attempts.Wf)
    {e : Attempt} (he : e ∈ s.attempts) (hid : e.id = attempt) :
    e.request = request ∧ e.resolved = false ∧ e.status = .attempted ∧ s'.attempts = s.attempts := by
  obtain ⟨t, c, l, -, hl, rfl⟩ := State.reservePullRequest_some hs
  rcases Ledger.reserve_cases hl with ⟨rfl, hmem⟩ | ⟨-, hnew, -⟩
  · rw [hwf.id e he _ hmem hid]
    exact ⟨rfl, rfl, rfl, rfl⟩
  · exact absurd hid (hnew e he)

/-! ## Runs -/

theorem pull_honored (h : pullMachine.Reachable s) : Honored s := by
  refine h.invariant (fun s hi => ?_) fun s a s' hk hs => hk.step hs
  rw [show s = {} from hi]
  exact .init

theorem resolved_kept (h : pullMachine.Steps s s') {a : Attempt} (ha : a ∈ s.attempts) (hr : a.resolved = true) :
    a ∈ s'.attempts := by
  have hlater : s.attempts.Later s'.attempts :=
    (h.lift (I := fun _ => True) (R := fun s s' => s.attempts.Later s'.attempts) (fun s => .refl _)
      (fun _ _ _ h h' => h.trans h') (fun _ _ _ _ _ => trivial) (fun _ _ _ _ hs => (step_laws hs).2) trivial).2
  obtain ⟨b, hb, hab⟩ := hlater a ha
  rw [hab.final hr] at hb
  exact hb

def someRequest : Request := ⟨1, 1, 1, 1, 1, 1⟩

/-- A pull is accepted, its task fails, and the retry asks the provider again. -/
def retriedPull : List Action :=
  [.create 1 1 .peerPull, .bind 1, .startPull 1 true, .pull 1 7 someRequest, .pull 1 7 someRequest, .pull 1 7 someRequest,
   .pull 1 7 someRequest, .pull 1 7 someRequest, .retry 1 false, .startPull 2 false, .pull 2 8 someRequest,
   .pull 2 8 someRequest, .pull 2 8 someRequest]

def retriedPullState : State := (pullMachine.run {} retriedPull).getD {}

/-- The retry restores the copy from the cache, which abandons the attempt. -/
def restoredPullState : State := (pullMachine.run retriedPullState [.task 2 (.restore (some 7))]).getD {}

end SynapS3.Pull
