import SynapS3.Lib.Lts
import SynapS3.Task.Spec

/-!
# `Task.Fencing` — the claim fence over every interleaving of workers

The system takes one repository call at a time, issued by anybody with any arguments: a worker whose lease
ran out long ago, two workers that believe they hold the same round, an operator. A transaction of several
calls is a run of them with nothing in between, so every interleaving of transactions is a run here.
-/

namespace SynapS3.Tasks

variable {ι κ : Type}

/-- The writing calls of the task repository. -/
inductive Call (ι κ : Type) where
  | claimNext (leaseDuration : Int) (filter : TaskClaimFilter) (locked : List Nat)
  | markWorkStarted (id generation : Nat) (startedAt : Option Int)
  | renewLease (id generation : Nat) (leaseDuration : Int)
  | writeCheckpoint (id generation : Nat) (checkpoint : κ)
  | shortenLease (id generation : Nat) (duration : Int)
  | validateClaim (id generation : Nat)
  | settle (id generation : Nat) (transition : TaskTransition)
  | observeOperation (id generation : Nat) (key : String)
  | admitEffect (id generation : Nat) (key : String) (checkpoint : κ)
  | resolveOperation (id generation : Nat) (key : String)
  | wake (p : Nat → Task ι κ → Bool)
  | enqueue (task : Task ι κ) (availableAt : Option Int)
  | acknowledgeFailed (id : Nat) (held : Bool)
  | acknowledgeQuery (p : Nat → Task ι κ → Bool)
  | supersedeTerminal (id : Nat)

inductive Event where
  | claimed (id generation : Nat) (mode : TaskResumeMode)
  | admitted (id generation : Nat) (key : String)
  | settled (id generation : Nat) (transition : TaskTransition)
  /-- The callback of an admitted effect started; no repository call logs this. -/
  | effectStarted (id generation : Nat) (key : String)
  deriving DecidableEq

def Event.taskID : Event → Nat
  | .claimed id _ _ | .admitted id _ _ | .settled id _ _ | .effectStarted id _ _ => id

def Call.claim : Call ι κ → Option (Nat × Nat)
  | .markWorkStarted id g _ | .renewLease id g _ | .writeCheckpoint id g _ | .shortenLease id g _
  | .validateClaim id g | .settle id g _ | .observeOperation id g _ | .admitEffect id g _ _
  | .resolveOperation id g _ => some (id, g)
  | .claimNext .. | .wake .. | .enqueue .. | .acknowledgeFailed .. | .acknowledgeQuery ..
  | .supersedeTerminal .. => none

def Call.run : Call ι κ → TaskTx ι κ (Option Event)
  | .claimNext dur filter locked => do
    let claimed ← Tasks.claimNext dur filter locked
    pure (claimed.map fun (id, task) => .claimed id task.claimGeneration task.resumeMode)
  | .markWorkStarted id g startedAt => do Tasks.markWorkStarted id g startedAt; pure none
  | .renewLease id g dur => do let _ ← Tasks.renewLease id g dur; pure none
  | .writeCheckpoint id g checkpoint => do Tasks.writeCheckpoint id g checkpoint; pure none
  | .shortenLease id g dur => do Tasks.shortenLease id g dur; pure none
  | .validateClaim id g => do Tasks.validateClaim id g; pure none
  | .settle id g transition => do Tasks.settle id g transition; pure (some (.settled id g transition))
  | .observeOperation id g key => do Tasks.observeOperation id g key; pure none
  | .admitEffect id g key checkpoint => do
    Tasks.admitEffect id g key checkpoint
    pure (some (.admitted id g key))
  | .resolveOperation id g key => do Tasks.resolveOperation id g key; pure none
  | .wake p => do wakeWhere p; pure none
  | .enqueue task availableAt => do let _ ← Tasks.enqueue task availableAt; pure none
  | .acknowledgeFailed id held => do Tasks.acknowledgeFailed id held; pure none
  | .acknowledgeQuery p => do Tasks.acknowledgeQuery p; pure none
  | .supersedeTerminal id => do Tasks.supersedeTerminal id; pure none

/-! ## The effect of one call -/

/-- What a call says of the row that it adds. -/
def Call.Adds (r : Task ι κ) : Call ι κ → Prop
  | .enqueue task _ => r.runtime = task.runtime ∧ r.retryCount = task.retryCount
  | _ => False

def Call.subject : Call ι κ → Option Nat
  | .admitEffect id _ _ _ | .observeOperation id _ _ | .resolveOperation id _ _ | .settle id _ _ => some id
  | _ => none

/-- How the attempt and the runtime of the row `id` moved in one committed call. -/
inductive Change (c : Call ι κ) (id : Nat) (r r' : Task ι κ) : Prop
  | kept : c.subject ≠ some id → r'.retryCount = r.retryCount → r'.runtime = r.runtime → Change c id r r'
  | observed {g : Nat} {key : String} : c = .observeOperation id g key → key ≠ "" →
      r'.retryCount = r.retryCount → ObservedRuntime key r.runtime r'.runtime → Change c id r r'
  | admitted {g : Nat} {key : String} {checkpoint : κ} : c = .admitEffect id g key checkpoint → key ≠ "" →
      r'.retryCount = r.retryCount → AdmittedRuntime key (r.retryCount + 1) r.runtime r'.runtime →
      Change c id r r'
  | resolved {g : Nat} {key : String} : c = .resolveOperation id g key → r'.retryCount = r.retryCount →
      r.runtime.operationKey = key → r'.runtime =
        { r.runtime with operationKey := "", operationStartedAt := none, lastAdmittedAttempt := 0 } →
      Change c id r r'
  | settled {g : Nat} {tr : TaskTransition} {now : Int} : c = .settle id g tr → r' = settleRow tr now r →
      Change c id r r'

/-- What one call can do; every invariant below is read off it. `ClaimNext` takes an expired or due row; a claim
    holder changes the row of its claim, the fence having held at every one of its clock reads, or ends the claim;
    a statement without a claim may add an unclaimed row, and the rows it changes keep status, generation, lease and
    resume mode. -/
inductive Effect (c : Call ι κ) (s : TaskDb ι κ) : Option Event → TaskDb ι κ → Prop
  | claimed {id : Nat} {status : TaskStatus} {lease : Int} {r : Task ι κ} {s' : TaskDb ι κ} :
      c.claim = none → (status = .running ∨ status = .pending) → Claimed id status lease s s' r →
      Effect c s (some (.claimed id (r.claimGeneration + 1) (claimRow status lease r).resumeMode)) s'
  | fenced {id g : Nat} {r r' : Task ι κ} {s' : TaskDb ι κ} :
      c.claim = some (id, g) → Fenced id g s s' r r' → r'.status = r.status →
      r'.claimGeneration = r.claimGeneration → r'.leaseUntil.isSome = true →
      (r'.resumeMode = r.resumeMode ∨ r'.resumeMode = .recover) → Round.Move (some g) r.round r'.round →
      r'.type = r.type → Change c id r r' → Effect c s none s'
  | admitted {id g : Nat} {key : String} {r r' : Task ι κ} {s' : TaskDb ι κ} :
      c.claim = some (id, g) → Fenced id g s s' r r' → SameClaim r r' → r'.resumeMode = .recover →
      Round.Move (some g) r.round r'.round → r'.type = r.type → Change c id r r' →
      Effect c s (some (.admitted id g key)) s'
  | settled {id g : Nat} {tr : TaskTransition} {r : Task ι κ} {s' : TaskDb ι κ} :
      c = .settle id g tr → tr.status ≠ .running → Fenced id g s s' r (settleRow tr s'.clock r) →
      Effect c s (some (.settled id g tr)) s'
  | background {s' : TaskDb ι κ} : c.claim = none → Background (fun r => c.Adds r) s s' → Effect c s none s'

variable {c : Call ι κ} {id : Nat} {s s' : TaskDb ι κ} {r : Task ι κ} {ev : Option Event} {g : Nat}
  {r' : Task ι κ} {tr : TaskTransition} {now : Int}

theorem Effect.of_sameClaim (hc : c.claim = some (id, g)) (h : Fenced id g s s' r r') (hsame : SameClaim r r')
    (hmode : r'.resumeMode = r.resumeMode ∨ r'.resumeMode = .recover)
    (hround : r'.round = r.round ∨ ∃ c, r'.round = r.round.save c) (htype : r'.type = r.type)
    (hch : Change c id r r') : Effect c s none s' := by
  obtain ⟨-, -, lease, hlease, -⟩ := Task.heldBy_iff.mp h.held
  have hmove : Round.Move (some g) r.round r'.round := by
    rcases hround with heq | ⟨c, heq⟩
    · rw [heq]; exact .same (Task.holds_round h.held)
    · rw [heq]; exact .save (Task.holds_round h.held) (.inr ⟨c, rfl⟩) (.inr rfl)
  exact .fenced hc h hsame.status hsame.generation (by rw [hsame.lease, hlease]; rfl) hmode hmove htype hch

theorem validTaskTransition_not_running (h : validTaskTransition tr = true) : tr.status ≠ .running := by
  intro hs
  simp [validTaskTransition, hs] at h

/-- **Everything a call can do.** -/
theorem Call.run_effect (h : c.run.Ok s ev s') : Effect c s ev s' := by
  cases c with
  | claimNext dur filter locked =>
    obtain ⟨a, ha, rfl⟩ := Tx.ok_bind_pure.mp h
    cases (claimNext_ok ha).1 with
    | nothing htasks hclock => exact .background rfl (Background.of_tasks htasks hclock)
    | claimed hst hc => exact .claimed rfl hst hc
  | markWorkStarted id g startedAt =>
    obtain ⟨_, hx, rfl⟩ := Tx.ok_bind_pure.mp h
    obtain ⟨r, hr⟩ := markWorkStarted_ok hx
    exact .of_sameClaim rfl hr ⟨rfl, rfl, rfl⟩ (.inl rfl) (.inl rfl) rfl (.kept nofun rfl rfl)
  | renewLease id g dur =>
    obtain ⟨_, hx, rfl⟩ := Tx.ok_bind_pure.mp h
    obtain ⟨r, hr⟩ := renewLease_ok hx
    exact .fenced rfl hr rfl rfl rfl (.inl rfl) (.same (Task.holds_round hr.held)) rfl (.kept nofun rfl rfl)
  | writeCheckpoint id g checkpoint =>
    obtain ⟨_, hx, rfl⟩ := Tx.ok_bind_pure.mp h
    obtain ⟨r, hr⟩ := writeCheckpoint_ok hx
    exact .of_sameClaim rfl hr ⟨rfl, rfl, rfl⟩ (.inr rfl) (.inr ⟨checkpoint, rfl⟩) rfl (.kept nofun rfl rfl)
  | shortenLease id g dur =>
    obtain ⟨_, hx, rfl⟩ := Tx.ok_bind_pure.mp h
    obtain ⟨r, hr⟩ := shortenLease_ok hx
    obtain ⟨-, -, lease, hlease, -⟩ := Task.heldBy_iff.mp hr.held
    exact .fenced rfl hr rfl rfl (by simp [hlease]) (.inr rfl)
      (.save (Task.holds_round hr.held) (.inl rfl) (.inr rfl)) rfl (.kept nofun rfl rfl)
  | validateClaim id g =>
    obtain ⟨_, hx, rfl⟩ := Tx.ok_bind_pure.mp h
    obtain ⟨-, r, hr⟩ := validateClaim_ok hx
    exact .of_sameClaim rfl hr (SameClaim.refl r) (.inl rfl) (.inl rfl) rfl (.kept nofun rfl rfl)
  | settle id g tr =>
    obtain ⟨_, hx, rfl⟩ := Tx.ok_bind_pure.mp h
    obtain ⟨hvalid, r, hr⟩ := settle_ok hx
    exact .settled rfl (validTaskTransition_not_running hvalid) hr
  | observeOperation id g key =>
    simp only [Call.run, Tasks.observeOperation, Tx.ok_bind, Tx.ok_pure, Tx.ok_require, bne_iff_ne] at h
    obtain ⟨_, _, ⟨_, _, ⟨hkey, rfl⟩, h⟩, rfl, rfl⟩ := h
    obtain ⟨r, q, rt, hr, hsame, hmode, hround, hobs⟩ :=
      updateOperation_ok (fun _ _ _ _ hrow hrun => observeRuntime_ok hrow hrun) h
    have hobs' : ObservedRuntime key r.runtime (r.runtime.withOperation rt) := by
      rcases hobs with ⟨hempty, now, rfl⟩ | ⟨hk, rfl⟩
      · exact .inl ⟨hempty, now, rfl⟩
      · exact .inr ⟨hk, rfl⟩
    exact .of_sameClaim rfl hr ⟨hsame.status, hsame.generation, hsame.lease⟩ (.inl hmode) (.inl hround) hsame.type
      (.observed rfl hkey hsame.retryCount hobs')
  | admitEffect id g key checkpoint =>
    simp only [Call.run, Tasks.admitEffect, Tx.ok_bind, Tx.ok_pure, Tx.ok_require, bne_iff_ne] at h
    obtain ⟨_, _, ⟨_, _, ⟨hkey, rfl⟩, h⟩, rfl, rfl⟩ := h
    obtain ⟨r, q, rt, hr, hsame, hmode, hround, hadm⟩ :=
      updateOperation_ok (fun _ _ _ _ hrow hrun => admitRuntime_ok hkey hrow hrun) h
    obtain ⟨startedAt, hstart, rfl⟩ := hadm.spent
    have hmove : Round.Move (some g) r.round q.round := by
      rw [hround]
      exact .save (Task.holds_round hr.held) (.inr ⟨checkpoint, rfl⟩) (.inr rfl)
    exact .admitted rfl hr ⟨hsame.status, hsame.generation, hsame.lease⟩ hmode hmove hsame.type
      (.admitted rfl hkey hsame.retryCount ⟨hadm.free, hadm.unspent, startedAt, hstart, rfl⟩)
  | resolveOperation id g key =>
    simp only [Call.run, Tasks.resolveOperation, Tx.ok_bind, Tx.ok_pure] at h
    obtain ⟨_, _, h, rfl, rfl⟩ := h
    obtain ⟨r, q, rt, hr, hsame, hmode, hround, hkey, rfl⟩ :=
      updateOperation_ok (fun _ _ _ _ hrow hrun => resolveRuntime_ok hrow hrun) h
    exact .of_sameClaim rfl hr ⟨hsame.status, hsame.generation, hsame.lease⟩ (.inl hmode) (.inl hround) hsame.type
      (.resolved rfl hsame.retryCount hkey rfl)
  | wake p =>
    obtain ⟨_, hx, rfl⟩ := Tx.ok_bind_pure.mp h
    exact .background rfl (wakeWhere_ok hx)
  | enqueue task availableAt =>
    obtain ⟨_, hx, rfl⟩ := Tx.ok_bind_pure.mp h
    exact .background rfl (enqueue_ok hx)
  | acknowledgeFailed id held =>
    obtain ⟨_, hx, rfl⟩ := Tx.ok_bind_pure.mp h
    exact .background rfl (acknowledgeFailed_ok hx)
  | acknowledgeQuery p =>
    obtain ⟨_, hx, rfl⟩ := Tx.ok_bind_pure.mp h
    exact .background rfl (acknowledgeQuery_ok hx)
  | supersedeTerminal id =>
    obtain ⟨_, hx, rfl⟩ := Tx.ok_bind_pure.mp h
    exact .background rfl (supersedeTerminal_ok hx)

/-! ## The system -/

/-- The database and the log of committed claims, admissions and settlements. -/
structure TaskState (ι κ : Type) where
  db : TaskDb ι κ
  log : List Event

/-- **Any call, by anyone, at any later time.** An action is a call and how far the clock moves before each
    of its reads; a call that refuses is no step. -/
def taskLts (ι κ : Type) : Lts (TaskState ι κ) (Call ι κ × List Nat) where
  init s := s.db.tasks = Table.empty ∧ s.log = []
  step s a :=
    match a.1.run { s.db with ticks := a.2 } with
    | .ok (ev, db) => some ⟨db, s.log ++ ev.toList⟩
    | .error _ => none

theorem step_effect {s s' : TaskState ι κ} {ticks : List Nat} (h : (taskLts ι κ).step s (c, ticks) = some s') :
    ∃ ev, s'.log = s.log ++ ev.toList ∧ Effect c { s.db with ticks := ticks } ev s'.db := by
  simp only [taskLts] at h
  split at h
  · next ev db hrun => cases h; exact ⟨ev, rfl, Call.run_effect hrun⟩
  · cases h

/-- What a call does to a row, and what it logs. -/
inductive RowStep (c : Call ι κ) (now : Int) (id : Nat) (r r' : Task ι κ) : Option Event → Prop
  | claimed {status : TaskStatus} {lease : Int} : c.claim = none →
      (status = .running ∨ status = .pending) → r.status = status → r' = claimRow status lease r →
      RowStep c now id r r' (some (.claimed id (r.claimGeneration + 1) r'.resumeMode))
  | fenced {g : Nat} {ev : Option Event} : c.claim = some (id, g) → r.heldBy g now = true →
      r'.status = r.status → r'.claimGeneration = r.claimGeneration → r'.leaseUntil.isSome = true →
      (r'.resumeMode = r.resumeMode ∨ r'.resumeMode = .recover) →
      (ev = none ∨ ∃ key, ev = some (.admitted id g key) ∧ r'.resumeMode = .recover) →
      RowStep c now id r r' ev
  | settled {g : Nat} {tr : TaskTransition} : c.claim = some (id, g) → r.heldBy g now = true →
      tr.status ≠ .running → r' = settleRow tr now r → RowStep c now id r r' (some (.settled id g tr))
  | kept {ev : Option Event} : SameClaim r r' → r'.resumeMode = r.resumeMode →
      (c.claim = none ∨ r' = r) →
      (∀ e ∈ ev, e.taskID ≠ id) →
      RowStep c now id r r' ev

theorem Effect.clock_le (h : Effect c s ev s') : s.clock ≤ s'.clock := by
  cases h with
  | claimed _ _ h => exact h.clock
  | fenced _ h | admitted _ h | settled _ _ h => exact h.clock
  | background _ h => exact h.clock

theorem Effect.row_new (h : Effect c s ev s') (hrow' : s'.tasks.row id = some r')
    (hrow : s.tasks.row id = none) : r'.status = .pending ∧ r'.leaseUntil = none ∧ c.Adds r' := by
  have hne : ∀ {id' : Nat} {q q' : Task ι κ}, OneRow id' s s' q q' → False := by
    intro id' q q' hone
    by_cases hid : id = id'
    · subst hid; rw [hone.row] at hrow; cases hrow
    · rw [hone.other id hid, hrow] at hrow'; cases hrow'
  cases h with
  | claimed _ _ hcl => exact (hne hcl.toOneRow).elim
  | fenced _ hf | admitted _ hf | settled _ _ hf => exact (hne hf.toOneRow).elim
  | background _ hb => exact hb.added id r' hrow' hrow

/-! ## Rounds

A program that works in rounds needs none of the columns that leases, wake-ups and attempts are kept in.
Every call moves the round of every row by a move of `Round`, and only the holder's call by a holder's
move, so what such a program proves about rounds holds of the table. -/

theorem claimRow_round {status : TaskStatus} (lease : Int) (hst : status = .running ∨ status = .pending)
    (hs : r.status = status) : r.round.isOpen = true ∧ (claimRow status lease r).round = r.round.claim := by
  subst hs
  rcases hst with h | h
  · simp [Task.round, Task.phase, claimRow, Round.claim, Round.isOpen, h]
  · cases hm : r.resumeMode <;> simp [Task.round, Task.phase, claimRow, Round.claim, Round.isOpen, h, hm]

theorem settleRow_round (hr : r.round.Holds g) (htr : tr.status ≠ .running) :
    Round.Move (some g) r.round (settleRow tr now r).round := by
  cases hs : tr.status with
  | running => exact absurd hs htr
  | pending =>
    have heq : (settleRow tr now r).round = r.round.yield (tr.resumeMode == .recover) := by
      simp [Task.round, Task.phase, settleRow, Round.yield, hs]
    rw [heq]
    exact .yield hr
  | completed | failed | cancelled =>
    have heq : (settleRow tr now r).round =
        { r.round.finish (tr.status, tr.failureReason) with recovering := tr.resumeMode == .recover } := by
      simp [Task.round, Task.phase, settleRow, Round.finish, hs]
    rw [heq]
    exact .finish hr

/-- What a committed call did to a row: to its claim, to its round, and to its attempt and runtime. -/
structure Stepped (c : Call ι κ) (now : Int) (id : Nat) (r r' : Task ι κ) (ev : Option Event) : Prop where
  fence : RowStep c now id r r' ev
  move : ∃ by_, Round.Move by_ r.round r'.round ∧ ∀ g, by_ = some g → c.claim = some (id, g)
  type : r'.type = r.type
  change : Change c id r r'

theorem Call.subject_ne (h : ∀ g, c.claim ≠ some (id, g)) : c.subject ≠ some id := by
  cases c <;> simp_all [Call.claim, Call.subject]

/-- **What a call does to every row.** The table of tasks refines the table of rounds: every round goes on by a
    `Round.Move`, and a holder's move is made by a call issued under that claim. -/
theorem Effect.row_step (h : Effect c s ev s') (hrow : s.tasks.row id = some r) :
    ∃ r', s'.tasks.row id = some r' ∧ Stepped c s'.clock id r r' ev := by
  have hkeep : s'.tasks.row id = some r → (∀ e ∈ ev, e.taskID ≠ id) → (∀ g, c.claim ≠ some (id, g)) →
      ∃ r', s'.tasks.row id = some r' ∧ Stepped c s'.clock id r r' ev := fun hr' hev hc =>
    ⟨r, hr', .kept (SameClaim.refl r) rfl (.inr rfl) hev, ⟨none, .keep, nofun⟩, rfl,
      .kept (Call.subject_ne hc) rfl rfl⟩
  cases h with
  | @claimed _ _ lease _ _ hc hst hcl =>
    have hnone : ∀ g, c.claim ≠ some (id, g) := by simp [hc]
    rcases hcl.toOneRow.split hrow with ⟨rfl, rfl, hr'⟩ | ⟨hid, hr'⟩
    · obtain ⟨hopen, heq⟩ := claimRow_round lease hst hcl.inStatus
      exact ⟨_, hr', .claimed hc hst hcl.inStatus rfl, ⟨none, by rw [heq]; exact .claim hopen, nofun⟩, rfl,
        .kept (Call.subject_ne hnone) rfl rfl⟩
    · exact hkeep hr' (by rintro _ ⟨⟩; exact Ne.symm hid) hnone
  | fenced hc hf hs hg hl hm hmove htype hch =>
    rcases hf.toOneRow.split hrow with ⟨rfl, rfl, hr'⟩ | ⟨hid, hr'⟩
    · exact ⟨_, hr', .fenced hc hf.held hs hg hl hm (.inl rfl), ⟨_, hmove, fun _ he => by cases he; exact hc⟩,
        htype, hch⟩
    · exact hkeep hr' (by simp) (by simp [hc, Ne.symm hid])
  | @admitted _ _ key _ _ _ hc hf hsame hm hmove htype hch =>
    rcases hf.toOneRow.split hrow with ⟨rfl, rfl, hr'⟩ | ⟨hid, hr'⟩
    · obtain ⟨-, -, lease, hlease, -⟩ := Task.heldBy_iff.mp hf.held
      exact ⟨_, hr', .fenced hc hf.held hsame.status hsame.generation (by rw [hsame.lease, hlease]; rfl) (.inr hm)
        (.inr ⟨key, rfl, hm⟩), ⟨_, hmove, fun _ he => by cases he; exact hc⟩, htype, hch⟩
    · exact hkeep hr' (by rintro _ ⟨⟩; exact Ne.symm hid) (by simp [hc, Ne.symm hid])
  | @settled id' g tr _ _ hc htr hf =>
    have hclaim : c.claim = some (id', g) := by rw [hc]; rfl
    rcases hf.toOneRow.split hrow with ⟨rfl, rfl, hr'⟩ | ⟨hid, hr'⟩
    · exact ⟨_, hr', .settled hclaim hf.held htr rfl, ⟨_, settleRow_round (Task.holds_round hf.held) htr,
        fun _ he => by cases he; exact hclaim⟩, rfl, .settled hc rfl⟩
    · exact hkeep hr' (by rintro _ ⟨⟩; exact Ne.symm hid) (by simp [hclaim, Ne.symm hid])
  | background hc hb =>
    obtain ⟨r', hr', hu⟩ := hb.kept id r hrow
    exact ⟨r', hr', .kept hu.toSameClaim hu.resumeMode (.inl hc) (by simp), ⟨none, hu.move, nofun⟩, hu.type,
      .kept (Call.subject_ne (by simp [hc])) hu.retryCount hu.runtime⟩

/-! ## Invariants -/

def Event.settles (id generation : Nat) : Event → Bool
  | .settled id' g _ => id' == id && g == generation
  | _ => false

def settlements (log : List Event) (id generation : Nat) : Nat := log.countP (Event.settles id generation)

/-- Generation `g` can no longer be held: a later one exists, or the current one is not running. -/
def Over (r : Task ι κ) (g : Nat) : Prop :=
  g < r.claimGeneration ∨ (g = r.claimGeneration ∧ r.status ≠ .running)

theorem Over.not_held (h : Over r g) : r.heldBy g now = false := by
  rw [← Bool.not_eq_true, Task.heldBy_iff]
  rintro ⟨hs, hg, -⟩
  rcases h with h | ⟨_, h⟩
  · omega
  · exact h hs

section RowFacts

variable {c : Call ι κ} {now : Int} {id : Nat} {r r' : Task ι κ} {ev : Option Event}

section

variable (h : RowStep c now id r r' ev)
include h

theorem RowStep.lease (hr : r.leaseUntil.isSome = true ↔ r.status = .running) :
    r'.leaseUntil.isSome = true ↔ r'.status = .running := by
  cases h with
  | claimed _ _ _ heq => subst heq; simp [claimRow]
  | fenced _ hheld hs _ hl =>
    have hrun := (Task.heldBy_iff.mp hheld).1
    simp [hl, hs, hrun]
  | settled _ _ htr heq => subst heq; simp [settleRow, htr]
  | kept hsame => rw [hsame.lease, hsame.status]; exact hr

theorem RowStep.ended (hg : Over r g) : Over r' g := by
  cases h with
  | claimed _ _ _ heq =>
    subst heq
    left
    show g < r.claimGeneration + 1
    rcases hg with hg | ⟨rfl, _⟩ <;> omega
  | fenced _ _ hs hgen => unfold Over at hg ⊢; rw [hs, hgen]; exact hg
  | settled _ _ htr heq =>
    subst heq
    rcases hg with hg | ⟨hg, _⟩
    · exact .inl hg
    · exact .inr ⟨hg, htr⟩
  | kept hsame => unfold Over at hg ⊢; rw [hsame.status, hsame.generation]; exact hg

theorem RowStep.generation : (∃ mode, ev = some (.claimed id (r.claimGeneration + 1) mode) ∧
        r'.claimGeneration = r.claimGeneration + 1 ∧ r'.resumeMode = mode) ∨
      ((∀ g mode, ev ≠ some (.claimed id g mode)) ∧ r'.claimGeneration = r.claimGeneration) := by
  cases h with
  | claimed _ _ _ heq => subst heq; exact .inl ⟨_, rfl, rfl, rfl⟩
  | fenced _ _ _ hgen _ _ hev =>
    refine .inr ⟨fun g mode he => ?_, hgen⟩
    rcases hev with rfl | ⟨key, rfl, _⟩ <;> cases he
  | settled _ _ _ heq => subst heq; exact .inr ⟨fun g mode he => (by cases he), rfl⟩
  | kept hsame _ _ hev =>
    refine .inr ⟨fun g mode he => ?_, hsame.generation⟩
    subst he
    exact hev _ rfl rfl

theorem RowStep.fence {id' : Nat} (hc : c.claim = some (id', g)) (hne : r' ≠ r) :
    id = id' ∧ r.heldBy g now = true := by
  cases h with
  | claimed hn => rw [hn] at hc; cases hc
  | fenced hc' hheld | settled hc' hheld => rw [hc'] at hc; cases hc; exact ⟨rfl, hheld⟩
  | kept _ _ hor =>
    rcases hor with hn | heq
    · rw [hn] at hc; cases hc
    · exact absurd heq hne

theorem RowStep.terminal (ht : r.status.terminal = true) :
    r'.status = r.status ∧ r'.claimGeneration = r.claimGeneration := by
  cases h with
  | claimed _ hst hs =>
    rcases hst with rfl | rfl <;> rw [hs] at ht <;> cases ht
  | fenced _ hheld hs hgen => exact ⟨hs, hgen⟩
  | settled _ hheld => rw [(Task.heldBy_iff.mp hheld).1] at ht; cases ht
  | kept hsame => exact ⟨hsame.status, hsame.generation⟩

end

end RowFacts

/-- Leases are set exactly on running rounds, and a settled generation is over. -/
structure FenceInv (s : TaskState ι κ) : Prop where
  lease : ∀ id r, s.db.tasks.row id = some r → (r.leaseUntil.isSome = true ↔ r.status = .running)
  ended : ∀ id g tr, Event.settled id g tr ∈ s.log → ∃ r, s.db.tasks.row id = some r ∧ Over r g
  once : ∀ id g, settlements s.log id g ≤ 1

theorem Effect.settled_held {tr : TaskTransition} (h : Effect c s (some (.settled id g tr)) s') :
    ∃ r, s.tasks.row id = some r ∧ r.heldBy g s'.clock = true ∧
      s'.tasks.row id = some (settleRow tr s'.clock r) ∧ tr.status ≠ .running := by
  cases h with
  | settled _ htr hf => exact ⟨_, hf.row, hf.held, hf.row', htr⟩

theorem settlements_append (log : List Event) (ev : Option Event) (id g : Nat) :
    settlements (log ++ ev.toList) id g = settlements log id g + settlements ev.toList id g := by
  simp [settlements]

variable {s : TaskState ι κ}

theorem FenceInv.none_settled (hi : FenceInv s) {now : Int} (hrow : s.db.tasks.row id = some r)
    (hheld : r.heldBy g now = true) : settlements s.log id g = 0 := by
  rw [settlements, List.countP_eq_zero]
  intro e he hse
  cases e with
  | settled id' g' tr =>
    simp only [Event.settles, Bool.and_eq_true, beq_iff_eq] at hse
    obtain ⟨rfl, rfl⟩ := hse
    obtain ⟨q, hq, hover⟩ := hi.ended id' g' tr he
    obtain rfl : q = r := Option.some.inj (hq.symm.trans hrow)
    rw [hover.not_held] at hheld
    cases hheld
  | claimed | admitted | effectStarted => simp [Event.settles] at hse

theorem fenceInv_init (h : (taskLts ι κ).init s) : FenceInv s := by
  obtain ⟨htasks, hlog⟩ := h
  refine ⟨fun id r hr => ?_, fun id g tr he => ?_, fun id g => ?_⟩
  · rw [htasks, Table.row_empty] at hr; cases hr
  · rw [hlog] at he; cases he
  · rw [hlog]; exact Nat.zero_le _

/-- **The fence is kept by every call.** -/
theorem fenceInv_step {s' : TaskState ι κ} {a : Call ι κ × List Nat} (hi : FenceInv s)
    (h : (taskLts ι κ).step s a = some s') : FenceInv s' := by
  obtain ⟨c, ticks⟩ := a
  obtain ⟨ev, hlog, heff⟩ := step_effect h
  have hmove : ∀ id r, s.db.tasks.row id = some r →
      ∃ r', s'.db.tasks.row id = some r' ∧ Stepped c s'.db.clock id r r' ev :=
    fun id r hr => heff.row_step hr
  refine ⟨fun id r' hr' => ?_, fun id g tr he => ?_, fun id g => ?_⟩
  · cases hold : s.db.tasks.row id with
    | some r =>
      obtain ⟨q, hq, hstep⟩ := hmove id r hold
      obtain rfl : q = r' := Option.some.inj (hq.symm.trans hr')
      exact hstep.fence.lease (hi.lease id r hold)
    | none =>
      obtain ⟨hs, hl, -⟩ := heff.row_new hr' hold
      simp [hs, hl]
  · -- an old settlement stays over; a new one has just ended the current generation
    rw [hlog, List.mem_append] at he
    rcases he with he | he
    · obtain ⟨r, hr, hover⟩ := hi.ended id g tr he
      obtain ⟨r', hr', hstep⟩ := hmove id r hr
      exact ⟨r', hr', hstep.fence.ended hover⟩
    cases ev with
    | none => cases he
    | some e =>
      obtain rfl : Event.settled id g tr = e := by simpa using he
      obtain ⟨r, hr, hheld, hr', htr⟩ := heff.settled_held
      exact ⟨_, hr', .inr ⟨(Task.heldBy_iff.mp hheld).2.1.symm, htr⟩⟩
  · rw [hlog, settlements_append]
    cases ev with
    | none => exact hi.once id g
    | some e =>
      by_cases hse : Event.settles id g e = true
      · cases e with
        | settled id' g' tr =>
          simp only [Event.settles, Bool.and_eq_true, beq_iff_eq] at hse
          obtain ⟨rfl, rfl⟩ := hse
          obtain ⟨r, hr, hheld, -, -⟩ := heff.settled_held
          rw [hi.none_settled hr hheld]
          simp [settlements, Event.settles]
        | claimed | admitted | effectStarted => simp [Event.settles] at hse
      · have hzero : settlements [e] id g = 0 := by simp [settlements, hse]
        have := hi.once id g
        simp only [Option.toList]
        omega

theorem fenceInv_reachable (h : (taskLts ι κ).Reachable s) : FenceInv s :=
  h.invariant (fun _ => fenceInv_init) fun _ _ _ => fenceInv_step

theorem terminal_stable {s' : TaskState ι κ} (h : (taskLts ι κ).Steps s s') (hrow : s.db.tasks.row id = some r)
    (ht : r.status.terminal = true) :
    ∃ r', s'.db.tasks.row id = some r' ∧ r'.status = r.status ∧
      r'.claimGeneration = r.claimGeneration := by
  induction h with
  | refl => exact ⟨r, hrow, rfl, rfl⟩
  | tail _ hst ih =>
    obtain ⟨q, hq, hs, hg⟩ := ih
    obtain ⟨⟨c, ticks⟩, ha⟩ := hst
    obtain ⟨ev, -, heff⟩ := step_effect ha
    obtain ⟨r', hr', hstep⟩ := heff.row_step hq
    obtain ⟨hs', hg'⟩ := hstep.fence.terminal (by rw [hs]; exact ht)
    exact ⟨r', hr', hs'.trans hs, hg'.trans hg⟩

/-- **Lease fencing.** The lease is set exactly while the round runs, and each generation was settled at most once; a
    call issued under a claim changes no row but the one it holds; and a round that ended keeps status and generation.
    -/
theorem lease_fencing {s : TaskState ι κ} (hs : (taskLts ι κ).Reachable s) :
    (∀ id r, s.db.tasks.row id = some r → (r.leaseUntil.isSome = true ↔ r.status = .running)) ∧
    (∀ id g, settlements s.log id g ≤ 1) ∧
    (∀ c ticks s', (taskLts ι κ).step s (c, ticks) = some s' → ∀ id r, s.db.tasks.row id = some r →
      ∃ r', s'.db.tasks.row id = some r' ∧
        ((∃ mode, s'.log = s.log ++ [.claimed id (r.claimGeneration + 1) mode] ∧
            r'.claimGeneration = r.claimGeneration + 1) ∨
          ((∀ g mode, s'.log ≠ s.log ++ [.claimed id g mode]) ∧
            r'.claimGeneration = r.claimGeneration)) ∧
        (∀ id' g, c.claim = some (id', g) → r' ≠ r →
          id = id' ∧ r.claimGeneration = g ∧ r.status = .running ∧
            ∃ lease, r.leaseUntil = some lease ∧ s'.db.clock < lease)) ∧
    (∀ s', (taskLts ι κ).Steps s s' → ∀ id r, s.db.tasks.row id = some r → r.status.terminal = true →
      ∃ r', s'.db.tasks.row id = some r' ∧ r'.status = r.status ∧
        r'.claimGeneration = r.claimGeneration) := by
  have hi := fenceInv_reachable hs
  refine ⟨hi.lease, hi.once, ?_, fun s' hsteps id r hr ht => terminal_stable hsteps hr ht⟩
  intro c ticks s' hstep id r hr
  obtain ⟨ev, hlog, heff⟩ := step_effect hstep
  obtain ⟨r', hr', ⟨hmove, -⟩⟩ := heff.row_step hr
  refine ⟨r', hr', ?_, fun id' g hc hne => ?_⟩
  · rcases hmove.generation with ⟨mode, hev, hgen, -⟩ | ⟨hev, hgen⟩
    · exact .inl ⟨mode, by rw [hlog, hev]; rfl, hgen⟩
    · refine .inr ⟨fun g mode heq => ?_, hgen⟩
      rw [hlog, List.append_right_inj] at heq
      cases ev with
      | none => cases heq
      | some e => exact hev g mode (by simpa using heq)
  · obtain ⟨hid, hheld⟩ := hmove.fence hc hne
    obtain ⟨hrun, hgen, hlease⟩ := Task.heldBy_iff.mp hheld
    exact ⟨hid, hgen, hrun, hlease⟩

def freshTask : Task Unit Unit where
  type := .storageDataSetEnsure
  inputVersion := 1
  subjectType := "storage_data_set"
  subjectKey := "1"
  generation := some 0
  retryOfTaskID := none
  input := ()
  checkpoint := none
  runtime := {}
  status := .pending
  resumeMode := .execute
  availableAt := 0
  waitReason := none
  retryCount := 0
  failureReason := none
  claimGeneration := 0
  leaseUntil := none
  finishedAt := none
  workStartedAt := none
  acknowledgedAt := none
  supersededAt := none

/-- Create a round, claim it, let the lease run out, claim it again and complete it. -/
def reclaimedRun : List (Call Unit Unit × List Nat) :=
  [(.enqueue freshTask none, [1]), (.claimNext 10 {} [], [1]), (.claimNext 10 {} [], [20]),
    (.settle 1 2 { status := .completed, resumeMode := .recover }, [1])]

def emptyState : TaskState Unit Unit := ⟨⟨0, [], Table.empty⟩, []⟩

def reclaimedState : TaskState Unit Unit :=
  ((taskLts Unit Unit).run emptyState reclaimedRun).getD emptyState

theorem reclaimedState_reachable : (taskLts Unit Unit).Reachable reclaimedState := by
  have hinit : (taskLts Unit Unit).Reachable emptyState := .of_init ⟨rfl, rfl⟩
  have hrun : (taskLts Unit Unit).run emptyState reclaimedRun = some reclaimedState := rfl
  exact hinit.of_run hrun

/-- A round that was claimed twice and settled under its second generation. -/
theorem lease_fencing_reclaimed : (taskLts Unit Unit).Reachable reclaimedState ∧
      (reclaimedState.db.tasks.row 1).map (·.claimGeneration) = some 2 ∧
      settlements reclaimedState.log 1 2 = 1 ∧ ∀ g, settlements reclaimedState.log 1 g ≤ 1 :=
  ⟨reclaimedState_reachable, by rfl, by rfl, (lease_fencing reclaimedState_reachable).2.1 1⟩

/-- **The tasks table refines the table of rounds**: in every run the round of a row goes on by moves of `Round`, and a
    step makes a holder's move only by a call that was issued under that claim. -/
theorem tasks_refine_rounds {ι κ : Type} (s : TaskState ι κ) :
    (∀ c ticks s', (taskLts ι κ).step s (c, ticks) = some s' → ∀ id r, s.db.tasks.row id = some r →
      ∃ r' by_, s'.db.tasks.row id = some r' ∧ Round.Move by_ r.round r'.round ∧
        ∀ g, by_ = some g → c.claim = some (id, g)) ∧
    ∀ s', (taskLts ι κ).Steps s s' → ∀ id r, s.db.tasks.row id = some r → ∃ r', s'.db.tasks.row id = some r' ∧
      Relation.ReflTransGen (fun q q' => ∃ by_, Round.Move by_ q q') r.round r'.round := by
  have hstep : ∀ s c ticks s', (taskLts ι κ).step s (c, ticks) = some s' → ∀ id r, s.db.tasks.row id = some r →
      ∃ r' by_, s'.db.tasks.row id = some r' ∧ Round.Move by_ r.round r'.round ∧
        ∀ g, by_ = some g → c.claim = some (id, g) := by
    intro s c ticks s' hs id r hr
    obtain ⟨ev, -, heff⟩ := step_effect hs
    obtain ⟨r', hr', hstep⟩ := heff.row_step hr
    obtain ⟨by_, hmove⟩ := hstep.move
    exact ⟨r', by_, hr', hmove⟩
  refine ⟨hstep s, fun s' hsteps id r hr => ?_⟩
  induction hsteps with
  | refl => exact ⟨r, hr, .refl⟩
  | tail _ ha ih =>
    obtain ⟨q, hq, hmoves⟩ := ih
    obtain ⟨⟨c, ticks⟩, ha⟩ := ha
    obtain ⟨r', by_, hr', hmove, -⟩ := hstep _ c ticks _ ha id q hq
    exact ⟨r', hr', hmoves.tail ⟨by_, hmove⟩⟩

def createdState : TaskState Unit Unit :=
  ((taskLts Unit Unit).run emptyState (reclaimedRun.take 1)).getD emptyState

theorem tasks_refine_rounds_reclaimed : (reclaimedState.db.tasks.row 1).map (·.round.token) = some 2 ∧
      ∃ r r', createdState.db.tasks.row 1 = some r ∧ reclaimedState.db.tasks.row 1 = some r' ∧
        Relation.ReflTransGen (fun q q' => ∃ by_, Round.Move by_ q q') r.round r'.round := by
  have hrun : (taskLts Unit Unit).run createdState (reclaimedRun.drop 1) = some reclaimedState := rfl
  obtain ⟨r', hr', hmoves⟩ := (tasks_refine_rounds createdState).2 _ (.of_run hrun) 1 _ rfl
  exact ⟨rfl, _, r', rfl, hr', hmoves⟩

end SynapS3.Tasks
