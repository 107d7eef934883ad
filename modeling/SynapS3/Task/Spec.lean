import SynapS3.Task.Repo

/-!
# `Task.Spec` — what one repository call can do to the `tasks` table

Every method is characterised once, by the row it starts from and the row it leaves, and nothing after this file
unfolds a method again.
-/

namespace SynapS3.Tasks

variable {ι κ : Type}

/-! ## Primitive steps -/

variable {s s' t : TaskDb ι κ} {now dur : Int} {id g : Nat} {r : Task ι κ} {f : Task ι κ → Task ι κ}
  {a : Option (Nat × Task ι κ)} {status : TaskStatus} {filter : TaskClaimFilter} {locked : List Nat}

theorem readClock_ok (h : readClock.Ok s now s') : s.clock ≤ now ∧ s'.clock = now ∧ s'.tasks = s.tasks := by
  simp only [readClock, Tx.ok_bind, Tx.ok_read, Tx.ok_write, Tx.ok_pure] at h
  obtain ⟨_, _, ⟨rfl, rfl⟩, _, _, rfl, rfl, rfl⟩ := h
  exact ⟨Int.le_add_of_nonneg_right (Int.natCast_nonneg _), rfl, rfl⟩

variable {err : RepoError} {u : Unit} {q w r' row : Task ι κ} {key : String} {t' : TaskDb ι κ}
  {rt : TaskRuntime} {p : Nat → Task ι κ → Bool}

theorem heldRow_ok (h : (heldRow id g now err).Ok s r s') :
    s' = s ∧ s.tasks.row id = some r ∧ r.heldBy g now = true := by
  simp only [heldRow, getByID, Tx.ok_bind, Tx.ok_read, Tx.ok_pure, Tx.ok_orFail, Tx.ok_require] at h
  obtain ⟨_, _, ⟨_, _, ⟨rfl, rfl⟩, rfl, rfl⟩, _, _, ⟨hrow, rfl⟩, _, _, ⟨hheld, rfl⟩, rfl, rfl⟩ := h
  exact ⟨rfl, hrow, hheld⟩

/-- The rows after a statement that changes only the row `id`, from `r` to `r'`. -/
structure OneRow (id : Nat) (s s' : TaskDb ι κ) (r r' : Task ι κ) : Prop where
  row : s.tasks.row id = some r
  row' : s'.tasks.row id = some r'
  other : ∀ j, j ≠ id → s'.tasks.row j = s.tasks.row j
  clock : s.clock ≤ s'.clock

theorem OneRow.trans {u : TaskDb ι κ} {q' : Task ι κ} (h : OneRow id s t r q) (h' : OneRow id t u q' w) :
    q' = q ∧ OneRow id s u r w := by
  have hq : q' = q := Option.some.inj (h'.row.symm.trans h.row')
  refine ⟨hq, h.row, h'.row', fun j hj => ?_, le_trans h.clock h'.clock⟩
  rw [h'.other j hj, h.other j hj]

theorem OneRow.split {id' : Nat} (h : OneRow id s t r q) (hrow : s.tasks.row id' = some w) :
    (id' = id ∧ w = r ∧ t.tasks.row id' = some q) ∨ id' ≠ id ∧ t.tasks.row id' = some w := by
  by_cases hid : id' = id
  · subst hid
    exact .inl ⟨rfl, Option.some.inj (hrow.symm.trans h.row), h.row'⟩
  · exact .inr ⟨hid, (h.other id' hid).trans hrow⟩

theorem OneRow.refl_of (hrow : s.tasks.row id = some r) (htasks : s'.tasks = s.tasks)
    (hclock : s.clock ≤ s'.clock) : OneRow id s s' r r :=
  ⟨hrow, by rw [htasks]; exact hrow, fun j _ => by rw [htasks], hclock⟩

theorem OneRow.after {u : TaskDb ι κ} (htasks : t.tasks = s.tasks) (hclock : s.clock ≤ t.clock)
    (h : OneRow id t u r r') : OneRow id s u r r' :=
  ⟨htasks ▸ h.row, h.row', fun j hj => by rw [h.other j hj, htasks], le_trans hclock h.clock⟩

theorem setTask_ok (h : (setTask id f).Ok s u s') (hrow : s.tasks.row id = some r) :
    s'.clock = s.clock ∧ OneRow id s s' r (f r) := by
  simp only [setTask, Tx.ok_bind, Tx.ok_read, Tx.ok_write] at h
  obtain ⟨_, _, ⟨rfl, rfl⟩, rfl⟩ := h
  refine ⟨rfl, hrow, by simp [hrow], fun j hj => by simp [hj], le_refl _⟩

theorem fencedUpdate_ok (h : (fencedUpdate id g now err f).Ok s u s') :
    ∃ r, r.heldBy g now = true ∧ s'.clock = s.clock ∧ OneRow id s s' r (f r) := by
  simp only [fencedUpdate, Tx.ok_bind] at h
  obtain ⟨r, t, hheld, hset⟩ := h
  obtain ⟨rfl, hrow, hh⟩ := heldRow_ok hheld
  exact ⟨r, hh, setTask_ok hset hrow⟩

/-! ## Statements under the fence -/

/-- A statement of the holder of `(id, g)`: it changes at most the row `id`, and at its last clock read the
    row it started from was still held. -/
structure Fenced (id g : Nat) (s s' : TaskDb ι κ) (r r' : Task ι κ) : Prop extends OneRow id s s' r r' where
  held : r.heldBy g s'.clock = true

/-- The columns that the fence and the resume rule read. -/
structure SameClaim (r r' : Task ι κ) : Prop where
  status : r'.status = r.status
  generation : r'.claimGeneration = r.claimGeneration
  lease : r'.leaseUntil = r.leaseUntil

theorem SameClaim.refl (r : Task ι κ) : SameClaim r r := ⟨rfl, rfl, rfl⟩

theorem SameClaim.heldBy (h : SameClaim r r') (g : Nat) (now : Int) : r'.heldBy g now = r.heldBy g now := by
  simp only [Task.heldBy, h.status, h.generation, h.lease]

theorem Fenced.trans {u : TaskDb ι κ} {q' : Task ι κ} (h : Fenced id g s t r q) (h' : Fenced id g t u q' w)
    (hsame : SameClaim r q) : q' = q ∧ Fenced id g s u r w := by
  obtain ⟨hq, hone⟩ := h.toOneRow.trans h'.toOneRow
  refine ⟨hq, hone, ?_⟩
  rw [← hsame.heldBy, ← hq]
  exact h'.held

theorem Fenced.after_read {u : TaskDb ι κ} (hread : readClock.Ok s now t) (h : Fenced id g t u r r') :
    Fenced id g s u r r' := by
  obtain ⟨hle, rfl, htasks⟩ := readClock_ok hread
  exact ⟨h.toOneRow.after htasks hle, h.held⟩

theorem readFenced_ok {f : Int → Task ι κ → Task ι κ}
    (h : (do let now ← readClock; fencedUpdate id g now err (f now)).Ok s u s') :
    ∃ r, Fenced id g s s' r (f s'.clock r) := by
  simp only [Tx.ok_bind] at h
  obtain ⟨now, t, hread, hupd⟩ := h
  obtain ⟨r, hheld, hclock, hone⟩ := fencedUpdate_ok hupd
  obtain ⟨_, hnow, _⟩ := readClock_ok hread
  have hs' : s'.clock = now := hclock.trans hnow
  subst hs'
  exact ⟨r, Fenced.after_read hread ⟨hone, hheld⟩⟩

theorem validateClaim_ok (h : (validateClaim id g).Ok s u s') : s'.tasks = s.tasks ∧ ∃ r, Fenced id g s s' r r := by
  simp only [validateClaim, Tx.ok_bind, Tx.ok_pure] at h
  obtain ⟨now, t, hread, r, _, hheld, _, rfl⟩ := h
  obtain ⟨rfl, hrow, hh⟩ := heldRow_ok hheld
  obtain ⟨hle, hnow, htasks⟩ := readClock_ok hread
  subst hnow
  refine ⟨htasks, r, OneRow.refl_of (by rw [← htasks]; exact hrow) htasks hle, hh⟩

theorem markWorkStarted_ok {at_ : Option Int} (h : (markWorkStarted id g at_).Ok s u s') :
    ∃ r, Fenced id g s s' r { r with workStartedAt := r.workStartedAt.or at_ } := by
  rw [markWorkStarted, Tx.ok_bind] at h
  obtain ⟨_, t, hreq, h⟩ := h
  rw [Tx.ok_require] at hreq
  rw [hreq.2] at h
  exact readFenced_ok h

theorem writeCheckpoint_ok {checkpoint : κ} (h : (writeCheckpoint id g checkpoint).Ok s u s') :
    ∃ r, Fenced id g s s' r { r with checkpoint := some checkpoint, resumeMode := .recover } :=
  readFenced_ok h

theorem renewLease_ok {a : Int} (h : (renewLease id g dur).Ok s a s') :
    ∃ r, Fenced id g s s' r { r with leaseUntil := some (s'.clock + dur) } := by
  have h' : (do let now ← readClock
                fencedUpdate id g now .taskLeaseLost fun r =>
                  { r with leaseUntil := some (now + dur) } : TaskTx ι κ Unit).Ok s () s' := by
    simp only [renewLease, Tx.ok_bind, Tx.ok_pure] at h ⊢
    obtain ⟨now, t, hread, _, t', hupd, _, rfl⟩ := h
    exact ⟨now, t, hread, hupd⟩
  exact readFenced_ok (f := fun now r => { r with leaseUntil := some (now + dur) }) h'

theorem shortenLease_ok (h : (shortenLease id g dur).Ok s u s') : ∃ r, Fenced id g s s' r
      { r with resumeMode := .recover
               leaseUntil := r.leaseUntil.map fun lease => min lease (s'.clock + dur) } := by
  rw [shortenLease, Tx.ok_bind] at h
  obtain ⟨_, t, hreq, h⟩ := h
  rw [Tx.ok_require] at hreq
  rw [hreq.2] at h
  exact readFenced_ok (f := fun now r => { r with
    resumeMode := .recover, leaseUntil := r.leaseUntil.map fun lease => min lease (now + dur) }) h

theorem settle_ok {tr : TaskTransition} (h : (settle id g tr).Ok s u s') :
    validTaskTransition tr = true ∧ ∃ r, Fenced id g s s' r (settleRow tr s'.clock r) := by
  rw [settle, Tx.ok_bind] at h
  obtain ⟨_, t, hreq, h⟩ := h
  rw [Tx.ok_require] at hreq
  rw [hreq.2] at h
  exact ⟨hreq.1, readFenced_ok (f := fun now r => settleRow tr now r) h⟩

/-! ## Operation changes -/

/-- The runtime `updateOperation` stores: the three operation fields of `rt` over the stored object. -/
def TaskRuntime.withOperation (stored rt : TaskRuntime) : TaskRuntime :=
  { stored with
    operationKey := rt.operationKey
    operationStartedAt := rt.operationStartedAt
    lastAdmittedAttempt := rt.lastAdmittedAttempt }

/-- What the closure of an operation change does to the row besides answering: it may start the work and
    write a checkpoint, nothing that the claim, the attempts or the runtime are kept in. -/
structure SameAttempt (r q : Task ι κ) : Prop extends SameClaim r q where
  type : q.type = r.type
  retryCount : q.retryCount = r.retryCount

/-- **`updateOperation` is one fenced statement**, with what the closure does in between (`P`). -/
theorem updateOperation_ok {fn : Task ι κ → TaskRuntime → TaskTx ι κ TaskRuntime}
    {P : Task ι κ → TaskRuntime → Task ι κ → Prop}
    (hfn : ∀ t t' row rt, t.tasks.row id = some row → (fn row row.runtime).Ok t rt t' →
      ∃ q, OneRow id t t' row q ∧ SameAttempt row q ∧ P row rt q)
    (h : (updateOperation id g fn).Ok s u s') :
    ∃ r q rt, Fenced id g s s' r { q with runtime := r.runtime.withOperation rt } ∧
      SameAttempt r q ∧ P r rt q := by
  simp only [updateOperation, getByID, Tx.ok_bind, Tx.ok_read, Tx.ok_pure, Tx.ok_orFail] at h
  obtain ⟨_, t, hval, _, _, ⟨_, _, ⟨rfl, rfl⟩, rfl, rfl⟩, row, _, ⟨hrow, rfl⟩, rt, t', hrun,
    now, t'', hread, hupd⟩ := h
  obtain ⟨-, r, hr⟩ := validateClaim_ok hval
  obtain rfl : row = r := Option.some.inj (hrow.symm.trans hr.row')
  obtain ⟨q, hone, hsame, hP⟩ := hfn _ _ _ _ hrow hrun
  obtain ⟨q', hheld, hclock, hlast⟩ := fencedUpdate_ok hupd
  obtain ⟨-, hnow, -⟩ := readClock_ok hread
  have hs' : s'.clock = now := hclock.trans hnow
  subst hs'
  have hlast' := (Fenced.after_read hread ⟨hlast, hheld⟩).toOneRow
  obtain ⟨-, hrest⟩ := hr.toOneRow.trans hone
  obtain ⟨hq, hall⟩ := hrest.trans hlast'
  subst hq
  exact ⟨row, q', rt, ⟨hall, by rw [← hsame.heldBy]; exact hheld⟩, hsame, hP⟩

/-- What `ObserveOperation` makes of the runtime: it opens the operation, or finds it open. -/
def ObservedRuntime (key : String) (rt rt' : TaskRuntime) : Prop :=
  (rt.operationKey = "" ∧ ∃ now, rt' =
      { rt with operationKey := key, operationStartedAt := some now, lastAdmittedAttempt := 0 }) ∨
    (rt.operationKey = key ∧ rt' = rt)

theorem observeRuntime_ok (hrow : t.tasks.row id = some row)
    (h : (observeRuntime id g key row row.runtime).Ok t rt t') :
    ∃ q, OneRow id t t' row q ∧ SameAttempt row q ∧
      (q.resumeMode = row.resumeMode ∧ q.round = row.round ∧ ObservedRuntime key row.runtime rt) := by
  simp only [observeRuntime, Tx.ok_bind, Tx.ok_require, Tx.ok_pure, Bool.or_eq_true, beq_iff_eq] at h
  obtain ⟨_, _, ⟨hkey, rfl⟩, now, t₁, hread₁, _, _, ⟨_, rfl⟩, at_, t₂, hread₂, _, t₃, hmark, rfl, rfl⟩ := h
  obtain ⟨r, hr⟩ := markWorkStarted_ok hmark
  have hall := (Fenced.after_read hread₁ (Fenced.after_read hread₂ hr)).toOneRow
  obtain rfl : r = row := Option.some.inj (hall.row.symm.trans hrow)
  refine ⟨_, hall, ⟨⟨rfl, rfl, rfl⟩, rfl, rfl⟩, rfl, rfl, ?_⟩
  by_cases hempty : r.runtime.operationKey = ""
  · exact .inl ⟨hempty, now, if_pos hempty⟩
  · exact .inr ⟨hkey.resolve_left hempty, if_neg hempty⟩

/-- What `AdmitEffect` makes of the runtime of a row on its attempt `attempt`: the operation is open under
    `key` and the attempt is spent. -/
structure AdmittedRuntime (key : String) (attempt : Nat) (rt rt' : TaskRuntime) : Prop where
  free : rt.operationKey = "" ∨ rt.operationKey = key
  unspent : rt.lastAdmittedAttempt < attempt
  spent : ∃ startedAt, (rt.operationKey = key → startedAt = rt.operationStartedAt) ∧
    rt' = { rt with operationKey := key, operationStartedAt := startedAt, lastAdmittedAttempt := attempt }

theorem admitRuntime_ok {checkpoint : κ} (hkey : key ≠ "") (hrow : t.tasks.row id = some row)
    (h : (admitRuntime id g key checkpoint row row.runtime).Ok t rt t') :
    ∃ q, OneRow id t t' row q ∧ SameAttempt row q ∧
      (q.resumeMode = .recover ∧ q.round = row.round.save checkpoint ∧
        AdmittedRuntime key (row.retryCount + 1) row.runtime rt) := by
  simp only [admitRuntime, Tx.ok_bind, Tx.ok_require, Tx.ok_pure, Bool.or_eq_true, beq_iff_eq,
    decide_eq_true_eq] at h
  obtain ⟨_, _, ⟨hopen, rfl⟩, now, t₁, hread₁, _, _, ⟨hunspent, rfl⟩, _, t₂, hwrite, at_, t₃, hread₂, _,
    t₄, hmark, rfl, rfl⟩ := h
  obtain ⟨r, hr⟩ := writeCheckpoint_ok hwrite
  obtain ⟨q, hq⟩ := markWorkStarted_ok hmark
  obtain ⟨rfl, hall⟩ := (Fenced.after_read hread₁ hr).trans (Fenced.after_read hread₂ hq) ⟨rfl, rfl, rfl⟩
  obtain rfl : r = row := Option.some.inj (hall.row.symm.trans hrow)
  refine ⟨_, hall.toOneRow, ⟨⟨rfl, rfl, rfl⟩, rfl, rfl⟩, rfl, rfl, hopen, ?_, ?_⟩
  · by_cases hempty : r.runtime.operationKey = "" <;> simpa [hempty] using hunspent
  · by_cases hempty : r.runtime.operationKey = ""
    · exact ⟨some now, fun hk => absurd (hk.symm.trans hempty) hkey, by simp [hempty]⟩
    · obtain rfl := hopen.resolve_left hempty
      exact ⟨r.runtime.operationStartedAt, fun _ => rfl, by simp [hempty]⟩

theorem resolveRuntime_ok (hrow : t.tasks.row id = some row) (h : (resolveRuntime key row row.runtime).Ok t rt t') :
    ∃ q, OneRow id t t' row q ∧ SameAttempt row q ∧
      (q.resumeMode = row.resumeMode ∧ q.round = row.round ∧ row.runtime.operationKey = key ∧
        rt = { row.runtime with operationKey := "", operationStartedAt := none, lastAdmittedAttempt := 0 }) := by
  simp only [resolveRuntime, Tx.ok_bind, Tx.ok_require, Tx.ok_pure, beq_iff_eq] at h
  obtain ⟨_, _, ⟨hkey, rfl⟩, rfl, rfl⟩ := h
  exact ⟨row, OneRow.refl_of hrow rfl (le_refl _), ⟨SameClaim.refl row, rfl, rfl⟩, rfl, rfl, hkey, rfl⟩

/-! ## Claims -/

section First

variable {key : Nat → Int} {i j k : Nat} {l : List Nat}

def Before (key : Nat → Int) (i j : Nat) : Prop := key i < key j ∨ (key i = key j ∧ i ≤ j)

theorem Before.trans (h : Before key i j) (h' : Before key j k) : Before key i k := by
  unfold Before at *
  omega

theorem earliest_eq_none : earliest key l = none ↔ l = [] := by
  cases l with
  | nil => simp [earliest]
  | cons i is =>
    simp only [earliest, reduceCtorEq, iff_false]
    split
    · nofun
    · split <;> nofun

theorem earliest_eq_some (hl : l.Pairwise (· ≤ ·)) : earliest key l = some i ↔ i ∈ l ∧ ∀ j ∈ l, Before key i j := by
  have hfirst : ∀ k, earliest key l = some k → k ∈ l ∧ ∀ j ∈ l, Before key k j := by
    induction l with
    | nil => simp [earliest]
    | cons a is ih =>
      obtain ⟨hle, hl⟩ := List.pairwise_cons.mp hl
      intro k hk
      simp only [List.mem_cons, forall_eq_or_imp]
      rw [earliest] at hk
      split at hk
      · next hnone =>
        cases hk
        rw [earliest_eq_none.mp hnone]
        exact ⟨.inl rfl, .inr ⟨rfl, le_refl _⟩, by simp⟩
      next b hb =>
      obtain ⟨hmem, hbefore⟩ := ih hl b hb
      split at hk
      · next hab =>
        cases hk
        refine ⟨.inl rfl, .inr ⟨rfl, le_refl _⟩, fun j hj => Before.trans ?_ (hbefore j hj)⟩
        exact (Int.lt_or_eq_of_le hab).imp_right fun heq => ⟨heq, hle b hmem⟩
      · next hab =>
        cases hk
        exact ⟨.inr hmem, .inl (Int.not_le.mp hab), hbefore⟩
  refine ⟨hfirst i, ?_⟩
  rintro ⟨hi, hbefore⟩
  cases hk : earliest key l with
  | none => rw [earliest_eq_none.mp hk] at hi; cases hi
  | some k =>
    obtain ⟨hmem, hle⟩ := hfirst k hk
    have hik := hbefore k hmem
    have hki := hle i hi
    unfold Before at hik hki
    have heq : k = i := by omega
    rw [heq]

end First

section Eligible

variable {tasks : Table (Task ι κ)} {types : List TaskType} {ids : List Nat}

def orderingTime (tasks : Table (Task ι κ)) (status : TaskStatus) (i : Nat) : Int :=
  ((tasks.row i).bind (dueAt status)).getD 0

theorem ids_sorted (tasks : Table (Task ι κ)) (p : Nat → Task ι κ → Bool) : (tasks.ids p).Pairwise (· ≤ ·) :=
  (List.pairwise_lt_range.imp Nat.le_of_lt).filter _

def eligible (tasks : Table (Task ι κ)) (status : TaskStatus) (now : Int) (types : List TaskType) (ids : List Nat) :
    List Nat :=
  tasks.ids fun i r => r.status == status && (dueAt status r).any (· ≤ now) && !types.contains r.type && !ids.contains i

theorem first_eligible : earliest (orderingTime tasks status) (eligible tasks status now types ids) = some i ↔
    i ∈ eligible tasks status now types ids ∧
      ∀ j ∈ eligible tasks status now types ids, Before (orderingTime tasks status) i j :=
  earliest_eq_some (ids_sorted tasks _)

theorem claimCandidate_eq : claimCandidate tasks status now filter locked =
    earliest (orderingTime tasks status)
      (eligible tasks status now filter.excludedTypes (filter.excludedTaskIDs ++ locked)) := by
  unfold claimCandidate eligible
  congr 2
  funext i r
  simp [Bool.and_assoc]

theorem claimCandidate_spec (h : claimCandidate tasks status now filter locked = some id) :
    ∃ r, tasks.row id = some r ∧ r.status = status ∧ (∃ due, dueAt status r = some due ∧ due ≤ now) ∧
      id ∉ filter.excludedTaskIDs ∧ r.type ∉ filter.excludedTypes := by
  rw [claimCandidate_eq, first_eligible] at h
  obtain ⟨r, hrow, hp⟩ := Table.mem_ids.mp h.1
  simp only [Bool.and_eq_true, beq_iff_eq, Option.any_eq_true, decide_eq_true_eq, Bool.not_eq_true',
    List.contains_eq_mem, decide_eq_false_iff_not, List.mem_append, not_or] at hp
  exact ⟨r, hrow, hp.1.1.1, hp.1.1.2, hp.2.1, hp.1.2⟩

end Eligible

/-- A row was claimed: it was due in `status`, and its generation went up by one. -/
structure Claimed (id : Nat) (status : TaskStatus) (lease : Int) (s s' : TaskDb ι κ) (r : Task ι κ) :
    Prop extends OneRow id s s' r (claimRow status lease r) where
  inStatus : r.status = status
  due : ∃ at_, dueAt status r = some at_ ∧ at_ ≤ s'.clock

/-- The answer of a claim: nothing and no change, or the claimed row. -/
inductive ClaimAnswer (s s' : TaskDb ι κ) : Option (Nat × Task ι κ) → Prop
  | nothing : s'.tasks = s.tasks → s.clock ≤ s'.clock → ClaimAnswer s s' none
  | claimed {id : Nat} {status : TaskStatus} {lease : Int} {r : Task ι κ} :
      (status = .running ∨ status = .pending) → Claimed id status lease s s' r →
      ClaimAnswer s s' (some (id, claimRow status lease r))

/-- A claimed task is of none of the excluded types and is none of the excluded tasks. -/
def TaskClaimFilter.Admits (filter : TaskClaimFilter) (a : Option (Nat × Task ι κ)) : Prop :=
  ∀ p ∈ a, p.1 ∉ filter.excludedTaskIDs ∧ p.2.type ∉ filter.excludedTypes

theorem TaskClaimFilter.admits_none (filter : TaskClaimFilter) :
    filter.Admits (none : Option (Nat × Task ι κ)) := by
  intro p hp
  cases hp

theorem ClaimAnswer.after {u : TaskDb ι κ} (htasks : t.tasks = s.tasks) (hclock : s.clock ≤ t.clock)
    (h : ClaimAnswer t u a) : ClaimAnswer s u a := by
  cases h with
  | nothing htasks' hclock' => exact .nothing (htasks'.trans htasks) (le_trans hclock hclock')
  | claimed hst hc => exact .claimed hst ⟨hc.toOneRow.after htasks hclock, hc.inStatus, hc.due⟩

section

variable (hst : status = .running ∨ status = .pending) (hnow : now ≤ s.clock)
include hst hnow

theorem claimTask_ok {lease : Int} (hid : claimCandidate s.tasks status now filter locked = some id)
    (h : (claimTask id status lease).Ok s a s') : ClaimAnswer s s' a ∧ filter.Admits a := by
  obtain ⟨r, hrow, hs, ⟨due, hdue, hle⟩, hadmit⟩ := claimCandidate_spec hid
  simp only [claimTask, getByID, Tx.ok_bind, Tx.ok_read, Tx.ok_pure] at h
  obtain ⟨_, t, hset, _, _, ⟨_, _, ⟨rfl, rfl⟩, rfl, rfl⟩, rfl, rfl⟩ := h
  obtain ⟨hclock, hone⟩ := setTask_ok hset hrow
  rw [hone.row']
  refine ⟨.claimed hst ⟨hone, hs, due, hdue, by omega⟩, fun p hp => ?_⟩
  cases hp
  exact hadmit

theorem claimTaskWithSQL_ok {lease : Int} (h : (claimTaskWithSQL status now lease filter locked).Ok s a s') :
    ClaimAnswer s s' a ∧ filter.Admits a := by
  rw [claimTaskWithSQL, Tx.ok_read_bind] at h
  split at h
  · rw [Tx.ok_pure] at h
    obtain ⟨rfl, rfl⟩ := h
    exact ⟨.nothing rfl (le_refl _), filter.admits_none⟩
  · next hid => exact claimTask_ok hst hnow hid h

theorem claimFilteredTask_ok (h : (claimFilteredTask dur filter now status locked).Ok s a s') :
    ClaimAnswer s s' a ∧ filter.Admits a := by
  rw [claimFilteredTask, Tx.ok_read_bind] at h
  split at h
  · rw [Tx.ok_pure] at h
    obtain ⟨rfl, rfl⟩ := h
    exact ⟨.nothing rfl (le_refl _), filter.admits_none⟩
  next hid =>
  obtain ⟨claimNow, t, hread, h⟩ := Tx.ok_bind.mp h
  obtain ⟨hle, rfl, htasks⟩ := readClock_ok hread
  rw [← htasks] at hid
  obtain ⟨hclaim, hadmits⟩ := claimTask_ok hst (le_trans hnow hle) hid h
  exact ⟨hclaim.after htasks hle, hadmits⟩

end

theorem claimTwice_ok {query : Int → TaskStatus → TaskTx ι κ (Option (Nat × Task ι κ))}
    (hquery : ∀ {now status s a s'}, status = .running ∨ status = .pending → now ≤ s.clock →
      (query now status).Ok s a s' → ClaimAnswer s s' a ∧ filter.Admits a)
    (h : (do let now ← readClock
             match ← query now .running with
             | some task => pure (some task)
             | none => query now .pending : TaskTx ι κ (Option (Nat × Task ι κ))).Ok s a s') :
    ClaimAnswer s s' a ∧ filter.Admits a := by
  simp only [Tx.ok_bind] at h
  obtain ⟨now, t, hread, b, t', hfirst, h⟩ := h
  obtain ⟨hle, rfl, htasks⟩ := readClock_ok hread
  obtain ⟨hclaim, hadmits⟩ := hquery (.inl rfl) (le_refl _) hfirst
  cases hclaim with
  | claimed hst hc =>
    simp only [Tx.ok_pure] at h
    obtain ⟨rfl, rfl⟩ := h
    exact ⟨(ClaimAnswer.claimed hst hc).after htasks hle, hadmits⟩
  | nothing htasks' hclock =>
    obtain ⟨hclaim', hadmits'⟩ := hquery (.inr rfl) hclock h
    exact ⟨(hclaim'.after htasks' hclock).after htasks hle, hadmits'⟩

/-- **A claim takes a due row or nothing, and keeps to its filter**, whichever form of the query it uses. -/
theorem claimNext_ok (h : (claimNext dur filter locked).Ok s a s') : ClaimAnswer s s' a ∧ filter.Admits a := by
  rw [claimNext, Tx.ok_require_bind] at h
  obtain ⟨-, h⟩ := h
  split at h
  · exact claimTwice_ok (fun hst hnow h => claimTaskWithSQL_ok hst hnow h) h
  · exact claimTwice_ok (fun hst hnow h => claimFilteredTask_ok hst hnow h) h

/-! ## Statements without a claim -/

/-- A row keeps its claim, its attempt and its runtime; its round may be superseded. -/
structure Undisturbed (r r' : Task ι κ) : Prop extends SameAttempt r r' where
  resumeMode : r'.resumeMode = r.resumeMode
  runtime : r'.runtime = r.runtime
  move : Round.Move none r.round r'.round

theorem Undisturbed.refl (r : Task ι κ) : Undisturbed r r := ⟨⟨SameClaim.refl r, rfl, rfl⟩, rfl, rfl, .keep⟩

/-- No row is disturbed; a new row is pending, unclaimed and as `N` says. -/
structure Background (N : Task ι κ → Prop) (s s' : TaskDb ι κ) : Prop where
  kept : ∀ j r, s.tasks.row j = some r → ∃ r', s'.tasks.row j = some r' ∧ Undisturbed r r'
  added : ∀ j r', s'.tasks.row j = some r' → s.tasks.row j = none →
    r'.status = .pending ∧ r'.leaseUntil = none ∧ N r'
  clock : s.clock ≤ s'.clock

variable {N : Task ι κ → Prop}

theorem Background.of_tasks (h : s'.tasks = s.tasks) (hc : s.clock ≤ s'.clock) : Background N s s' := by
  refine ⟨fun j r hr => ⟨r, by rw [h]; exact hr, .refl r⟩, fun j r' hr' hn => ?_, hc⟩
  rw [h, hn] at hr'
  cases hr'

theorem Background.after_read {u : TaskDb ι κ} (hread : readClock.Ok s now t) (h : Background N t u) :
    Background N s u := by
  obtain ⟨hle, rfl, htasks⟩ := readClock_ok hread
  exact ⟨by rw [← htasks]; exact h.kept, by rw [← htasks]; exact h.added, le_trans hle h.clock⟩

theorem updateTasks_ok (h : (updateTasks p f).Ok s u s') (hf : ∀ r, Undisturbed r (f r)) : Background N s s' := by
  simp only [updateTasks, Tx.ok_bind, Tx.ok_read, Tx.ok_write] at h
  obtain ⟨_, _, ⟨rfl, rfl⟩, rfl⟩ := h
  refine ⟨fun j r hr => ?_, fun j r' hr' hn => by simp [hn] at hr', le_refl _⟩
  by_cases hp : p j r = true
  · exact ⟨f r, by simp [hr, hp], hf r⟩
  · exact ⟨r, by simp [hr, hp], .refl r⟩

theorem Background.of_setTask (h : (setTask id f).Ok s u s')
    (hf : ∀ r, s.tasks.row id = some r → Undisturbed r (f r)) : Background N s s' := by
  simp only [setTask, Tx.ok_bind, Tx.ok_read, Tx.ok_write] at h
  obtain ⟨_, _, ⟨rfl, rfl⟩, rfl⟩ := h
  refine ⟨fun j r hr => ?_, fun j r' hr' hn => by simp [hn] at hr', le_refl _⟩
  by_cases hj : j = id
  · exact ⟨f r, by simp [hr, ← hj], hf r (hj ▸ hr)⟩
  · exact ⟨r, by simp [hr, hj], .refl r⟩

theorem wakeWhere_ok (h : (wakeWhere p).Ok s u s') : Background N s s' := by
  simp only [wakeWhere, Tx.ok_bind] at h
  obtain ⟨now, t, hread, h⟩ := h
  exact (updateTasks_ok h fun _ => ⟨⟨⟨rfl, rfl, rfl⟩, rfl, rfl⟩, rfl, rfl, .keep⟩).after_read hread

theorem acknowledgeQuery_ok (h : (acknowledgeQuery p).Ok s u s') : Background N s s' := by
  simp only [acknowledgeQuery, Tx.ok_bind] at h
  obtain ⟨now, t, hread, h⟩ := h
  exact (updateTasks_ok h fun _ => ⟨⟨⟨rfl, rfl, rfl⟩, rfl, rfl⟩, rfl, rfl, .keep⟩).after_read hread

theorem acknowledgeFailed_ok {held : Bool} (h : (acknowledgeFailed id held).Ok s u s') : Background N s s' := by
  simp only [acknowledgeFailed, getByID, Tx.ok_bind, Tx.ok_read, Tx.ok_pure, Tx.ok_orFail,
    Tx.ok_require] at h
  obtain ⟨_, _, ⟨_, _, ⟨rfl, rfl⟩, rfl, rfl⟩, row, _, ⟨hrow, rfl⟩, _, _, ⟨_, rfl⟩, _, _, ⟨_, rfl⟩,
    now, t, hread, h⟩ := h
  refine Background.after_read hread ?_
  split at h
  · rw [Tx.ok_pure] at h
    rw [h.2]
    exact Background.of_tasks rfl (le_refl _)
  · exact Background.of_setTask h fun _ _ => ⟨⟨⟨rfl, rfl, rfl⟩, rfl, rfl⟩, rfl, rfl, .keep⟩

theorem Task.round_closed (r : Task ι κ) (h : r.status.terminal = true) : r.round.isOpen = false := by
  cases hs : r.status <;> simp_all [Task.round, Task.phase, Round.isOpen, TaskStatus.terminal]

theorem supersedeTerminal_ok (h : (supersedeTerminal id).Ok s u s') : Background N s s' := by
  simp only [supersedeTerminal, getByID, Tx.ok_bind, Tx.ok_read, Tx.ok_pure, Tx.ok_orFail,
    Tx.ok_require] at h
  obtain ⟨now, t, hread, _, _, ⟨_, _, ⟨rfl, rfl⟩, rfl, rfl⟩, row, _, ⟨hrow, rfl⟩, _, _, ⟨hended, rfl⟩, h⟩ := h
  rw [Bool.and_eq_true, Option.isNone_iff_eq_none] at hended
  refine (Background.of_setTask h fun r hr => ⟨⟨⟨rfl, rfl, rfl⟩, rfl, rfl⟩, rfl, rfl, ?_⟩).after_read hread
  cases hrow.symm.trans hr
  exact .supersede (row.round_closed hended.2) (by simp [Task.round, hended.1])

theorem enqueue_ok {task : Task ι κ} {at_ : Option Int} {a : Nat × Bool} (h : (enqueue task at_).Ok s a s') :
    Background (fun r => r.runtime = task.runtime ∧ r.retryCount = task.retryCount) s s' := by
  simp only [enqueue, Tx.ok_bind, Tx.ok_read, Tx.ok_require, Bool.and_eq_true, beq_iff_eq] at h
  obtain ⟨_, _, ⟨hvalid, rfl⟩, now, t, hread, _, _, ⟨rfl, rfl⟩, h⟩ := h
  refine Background.after_read hread ?_
  split at h
  · rw [Tx.ok_pure] at h
    rw [h.2]
    exact Background.of_tasks rfl (le_refl _)
  simp only [Tx.ok_bind, Tx.ok_require, Tx.ok_write, Tx.ok_pure, Bool.and_eq_true,
    Option.isNone_iff_eq_none] at h
  obtain ⟨_, _, ⟨_, rfl⟩, _, _, ⟨hnew, rfl⟩, _, _, rfl, _, rfl⟩ := h
  refine ⟨fun j r hr => ?_, fun j r' hr' hn => ?_, le_refl _⟩
  · have hj := Nat.ne_of_lt (Table.lt_next hr)
    exact ⟨r, by rw [Table.row_insert, if_neg hj]; exact hr, .refl r⟩
  · rcases Table.row_insert_cases hr' with ⟨_, rfl⟩ | ⟨_, hold⟩
    · exact ⟨hvalid.1.1.2, hnew.1, rfl, rfl⟩
    · rw [hn] at hold; cases hold

end SynapS3.Tasks
