import SynapS3.Retirement.Attempts

/-!
# `Retirement.Runs` — terminations over whole runs

A step changes the termination of one replacement and role, in the name of its owner; all others stay.
Evidence that somebody else recorded reaches a decision through the ledger (`FromLedger`).
-/

namespace SynapS3.Retirement

variable {s s' : State} {c c' c₀ : Checkpoint} {t t' u : Termination}

/-! ## What a decision rests on -/

/-- The marks that a merge leaves alone. -/
structure Checkpoint.Same (c c' : Checkpoint) : Prop where
  unsent : c'.unsent = c.unsent
  retryUnresolvedRelay : c'.retryUnresolvedRelay = c.retryUnresolvedRelay
  relayOnly : c'.relayOnly = c.relayOnly
  attemptNo : c'.attemptNo = c.attemptNo

theorem mergeRetirementEvidence_same {r : TerminationResult} (h : mergeRetirementEvidence c r = some c') :
    c.Same c' := by
  unfold mergeRetirementEvidence at h
  split at h
  · cases h
  · cases h
    exact ⟨rfl, rfl, rfl, rfl⟩

/-- `c` is the checkpoint `c₀` of an execution that has read the ledger of `t`, and what it has observed since. -/
structure FromLedger (c₀ : Checkpoint) (t : Termination) (c : Checkpoint) : Prop where
  unsent : c.unsent = c₀.unsent
  retryUnresolvedRelay : c.retryUnresolvedRelay = c₀.retryUnresolvedRelay
  relayOnly : c.relayOnly = c₀.relayOnly
  attemptNo : t.attemptNo ≠ 0 → c.attemptNo = t.attemptNo
  txHash : t.ledger.txHash ≠ "" → c.txHash = t.ledger.txHash
  confirmedTxHash : t.ledger.confirmedTxHash ≠ "" → c.confirmedTxHash = t.ledger.confirmedTxHash

theorem FromLedger.of_withLedger (h : c₀.withLedger t = some c) : FromLedger c₀ t c := by
  unfold Checkpoint.withLedger at h
  split at h
  · cases h
  next hno =>
  have hsame := mergeRetirementEvidence_same h
  obtain ⟨htx, hconf, -⟩ := mergeRetirementEvidence_result h
  refine ⟨hsame.unsent, hsame.retryUnresolvedRelay, hsame.relayOnly, fun hne => ?_, htx, hconf⟩
  rw [hsame.attemptNo]
  show (if c₀.attemptNo = 0 then t.attemptNo else c₀.attemptNo) = t.attemptNo
  split
  · rfl
  · next hne' => exact Decidable.not_not.mp fun hdiff => hno ⟨hne', hne, hdiff⟩

theorem FromLedger.merge (h : FromLedger c₀ t c) {r : TerminationResult}
    (hm : mergeRetirementEvidence c r = some c') : FromLedger c₀ t c' := by
  have hsame := mergeRetirementEvidence_same hm
  have hkeeps := mergeRetirementEvidence_keeps hm
  refine ⟨hsame.unsent.trans h.unsent, hsame.retryUnresolvedRelay.trans h.retryUnresolvedRelay,
    hsame.relayOnly.trans h.relayOnly, fun hne => hsame.attemptNo.trans (h.attemptNo hne), fun hne => ?_, fun hne => ?_⟩
  · rw [hkeeps.txHash (by rw [h.txHash hne]; exact hne), h.txHash hne]
  · rw [hkeeps.confirmedTxHash (by rw [h.confirmedTxHash hne]; exact hne), h.confirmedTxHash hne]

/-- Why a termination request may be admitted. -/
inductive Admits (c : Checkpoint) : Bool → Bool → Prop
  | fresh : c.receiptStatus = some 0 → Admits c true false
  | resume : c.retryUnresolvedRelay = true → c.relayUnresolved = true → Admits c false true
  | again : c.attemptMayLand = false → Admits c false false

/-- What a decision of the checkpoint `c` may be. -/
inductive Decides (c : Checkpoint) : Decision → Prop
  | nothing : Decides c .nothing
  | save : Decides c (.save c)
  | settle : Decides c (.settle c)
  | release : Decides c (.release c)
  | admission {fresh resumeRelay : Bool} : Admits c fresh resumeRelay → Decides c (.admission c fresh resumeRelay)

theorem afterObservation_decides (c : Checkpoint) (o : Observation) (mayTerminate known : Bool) :
    Decides c (c.afterObservation o mayTerminate known) := by
  unfold Checkpoint.afterObservation
  dsimp only
  generalize (if o.err.contains .requestAbsent then [] else o.err) = err
  split
  · exact .nothing
  split
  · exact .settle
  split
  · split
    · next hfresh =>
      simp only [Bool.and_eq_true, beq_iff_eq] at hfresh
      split
      · exact .admission (.fresh hfresh.1.2)
      · exact .nothing
    · exact .settle
  split
  · exact .settle
  split
  · exact .release
  split
  · next hresume =>
    simp only [Bool.and_eq_true] at hresume
    split
    · exact .admission (.resume hresume.1.1.2 hresume.1.2)
    · exact .nothing
  split
  · exact .settle
  next hland =>
  split
  · exact .save
  split
  · exact .nothing
  split
  · exact .admission (.again (Bool.eq_false_iff.mpr hland))
  · exact .nothing

theorem runDataSetRetirement_decides (c₀ : Checkpoint) (t : Termination) (o : Observation) (mayTerminate : Bool) :
    runDataSetRetirement c₀ t o mayTerminate = .nothing ∨
      ∃ c, FromLedger c₀ t c ∧ Decides c (runDataSetRetirement c₀ t o mayTerminate) := by
  unfold runDataSetRetirement
  split
  · exact .inl rfl
  next c hc =>
  have hledger := FromLedger.of_withLedger hc
  split
  · exact .inl rfl
  split
  · split
    · exact .inl rfl
    · exact .inr ⟨c, hledger, .settle⟩
  split
  · split
    · exact .inr ⟨c, hledger, .settle⟩
    · exact .inl rfl
  split
  · exact .inl rfl
  · next c' hm => exact .inr ⟨c', hledger.merge hm, afterObservation_decides c' o mayTerminate _⟩

/-! ## The checkpoint fits the rows -/

/-- A task whose checkpoint says that its last admission was released has no other open attempt, and one that may
    complete an unresolved relay has admitted nothing. -/
structure Checkpoint.Fits (c : Checkpoint) (task : Nat) (t : Termination) : Prop where
  unsent : c.unsent = true → ∀ p ∈ t.attempts, p.task = some task → p.unsent = true ∨ p.evidence = true
  relay : c.retryUnresolvedRelay = true → c.relayOnly = true → ∀ p ∈ t.attempts, p.task ≠ some task

variable {task : Nat}

theorem Checkpoint.Fits.of_same (h : c.Fits task t) (hunsent : c'.unsent = c.unsent)
    (hretry : c'.retryUnresolvedRelay = c.retryUnresolvedRelay) (hrelay : c'.relayOnly = c.relayOnly) :
    c'.Fits task t :=
  ⟨by rw [hunsent]; exact h.unsent, by rw [hretry, hrelay]; exact h.relay⟩

theorem FromLedger.fits (h : FromLedger c₀ t c) (hf : c₀.Fits task t) : c.Fits task t :=
  hf.of_same h.unsent h.retryUnresolvedRelay h.relayOnly

theorem Checkpoint.Fits.ended (h : c.Fits task t) (relayed : Bool) : (c.ended relayed).Fits task t := by
  refine ⟨h.unsent, fun hretry hrelay => h.relay hretry ?_⟩
  have hretry' : c.retryUnresolvedRelay = true := hretry
  simpa [Checkpoint.ended, hretry'] using hrelay

theorem Checkpoint.Fits.retains (h : c.Fits task t) (hr : Retains t t') : c.Fits task t' := by
  refine ⟨fun hunsent p' hp' htask => ?_, fun hretry hrelay p' hp' htask => ?_⟩
  · rcases hr p' hp' with hnone | ⟨p, hp, hsame, heq | hev | hun⟩
    · rw [hnone] at htask; cases htask
    · subst heq; exact h.unsent hunsent p' hp htask
    · exact .inr hev
    · exact .inl hun
  · rcases hr p' hp' with hnone | ⟨p, hp, hsame, -⟩
    · rw [hnone] at htask; cases htask
    · exact h.relay hretry hrelay p hp (hsame.trans htask)

/-- After an admission by another task. -/
theorem Checkpoint.Fits.admitted {admitter : Nat} (h : c.Fits task t) (hne : task ≠ admitter)
    (hb : ∀ a' ∈ t'.attempts, a' ∈ t.attempts ∨ a'.task = some admitter) : c.Fits task t' := by
  have hold : ∀ p' ∈ t'.attempts, p'.task = some task → p' ∈ t.attempts := fun p' hp' htask =>
    (hb p' hp').resolve_right fun hother => hne (Option.some.inj (htask.symm.trans hother))
  exact ⟨fun hunsent p' hp' htask => h.unsent hunsent p' (hold p' hp' htask) htask,
    fun hretry hrelay p' hp' htask => h.relay hretry hrelay p' (hold p' hp' htask) htask⟩

theorem Checkpoint.next_fits (c : Checkpoint) (fresh : Bool) : (c.next fresh).Fits task t := by
  refine ⟨nofun, fun hretry hrelay => ?_⟩
  -- a direct call is not a relay
  simp only [Checkpoint.next] at hretry hrelay
  simp [hretry] at hrelay

/-- **What is admitted again has no evidence**: it was released, or another task admitted it. -/
theorem Admits.unsent {fresh resumeRelay : Bool} (h : Admits c fresh resumeRelay) (hl : AttemptLaws t)
    (hc : FromLedger c₀ t c) (hf : c.Fits task t) {p : Attempt} (hp : p ∈ t.attempts)
    (hno : p.attemptNo = c.nextAttempt fresh) :
    fresh = false ∧ p.evidence = false ∧ (p.unsent = true ∨ p.task ≠ some task) := by
  -- the ledger shows the latest attempt, so the checkpoint has its number
  obtain ⟨q, hq⟩ : ∃ q, latestAttempt t.attempts = some q := by
    rw [← Option.isSome_iff_exists, Option.isSome_iff_ne_none]
    intro hnone
    rw [hl.latest_none hnone] at hp
    cases hp
  obtain ⟨init, ht, hqno, hlt⟩ := hl.latest_some hq
  have hcno : c.attemptNo = q.attemptNo := by
    have hno : t.attemptNo = q.attemptNo := by simp [Termination.attemptNo, hq]
    rw [hc.attemptNo (by omega), hno]
  have hle : p.attemptNo ≤ q.attemptNo := by
    rw [ht] at hp
    rcases List.mem_append.mp hp with hp | hp
    · exact Nat.le_of_lt (hlt p hp)
    · exact Nat.le_of_eq (by rw [List.mem_singleton.mp hp])
  have hne : c.attemptNo ≠ 0 := by omega
  rw [Checkpoint.nextAttempt, if_neg hne] at hno
  cases fresh with
  | true => simp only [if_true] at hno; omega
  | false =>
  simp only [Bool.false_eq_true, if_false] at hno
  have hqmem : q ∈ t.attempts := by rw [ht]; exact List.mem_concat_self
  obtain rfl : p = q := hl.eq_of_no hp hqmem (hno.trans hcno)
  have hledger : t.ledger = ⟨p.txHash.getD "", p.confirmedTxHash.getD "", p.receiptStatus, t.epoch⟩ := by
    simp [Termination.ledger, hq]
  have hsound := hl.sound p hp
  -- a hash that was recorded would be in the checkpoint
  have hevidence : c.txHash = "" → c.confirmedTxHash = "" → p.evidence = false := by
    intro htx hconf
    have htx' : p.txHash = none := by
      by_contra hsome
      obtain ⟨x, hx⟩ := Option.ne_none_iff_exists'.mp hsome
      have hxne := hsound.texts x (by simp [Attempt.hashes, hx])
      have := hc.txHash (by simpa [hledger, hx] using hxne)
      simp [hledger, hx, htx, Ne.symm hxne] at this
    have hconf' : p.confirmedTxHash = none := by
      by_contra hsome
      obtain ⟨x, hx⟩ := Option.ne_none_iff_exists'.mp hsome
      have hxne := hsound.texts x (by simp [Attempt.hashes, hx])
      have := hc.confirmedTxHash (by simpa [hledger, hx] using hxne)
      simp [hledger, hx, hconf, Ne.symm hxne] at this
    have hrec : p.receiptStatus = none := by
      by_contra hsome
      have := hsound.receipt (Option.isSome_iff_ne_none.mpr hsome)
      rw [hconf'] at this
      cases this
    simp [Attempt.evidence, htx', hconf', hrec]
  cases h with
  | resume hretry hunresolved =>
    simp only [Checkpoint.relayUnresolved, Bool.and_eq_true, beq_iff_eq] at hunresolved
    exact ⟨rfl, hevidence hunresolved.1.1.2 hunresolved.1.2, .inr (hf.relay hretry hunresolved.1.1.1.1 p hp)⟩
  | again hland =>
    simp only [Checkpoint.attemptMayLand, Bool.or_eq_false_iff, bne_eq_false_iff_eq, Bool.and_eq_false_imp] at hland
    obtain ⟨⟨htx, hconf⟩, hopen⟩ := hland
    have hev := hevidence htx hconf
    refine ⟨rfl, hev, ?_⟩
    by_cases htask : p.task = some task
    · have hunsent : c.unsent = true := by
        by_contra hnot
        simp [Bool.eq_false_iff.mpr hnot, hne] at hopen
      exact (hf.unsent hunsent p hp htask).imp_right fun h => by rw [hev] at h; cases h
    · exact .inr htask

/-! ## One step -/

@[simp] theorem State.termination_setCheckpoint (s : State) (k i : Key) (task : Nat) (c : Checkpoint) :
    (s.setCheckpoint k task c).termination i = s.termination i := rfl

@[simp] theorem State.termination_setTermination (s : State) (k i : Key) (t : Termination) :
    (s.setTermination k t).termination i = if i = k then t else s.termination i := by
  unfold State.termination State.setTermination
  by_cases h : i = k <;> simp [h]

variable {k : Key} {auth : Authority} {a : Unit}

theorem ok_onTermination {f : Termination → Option Termination} : (onTermination k auth f).Ok s a s' ↔
      s.owner k = some auth ∧ ∃ t', f (s.termination k) = some t' ∧ s' = s.setTermination k t' := by
  unfold onTermination authorizeTerminationEvidence
  rw [Tx.ok_bind]
  simp only [Tx.ok_read_bind, Tx.ok_require_bind, Tx.ok_pure, Tx.ok_orFail_bind, Tx.ok_write, beq_iff_eq]
  constructor
  · rintro ⟨_, _, ⟨ho, rfl, rfl⟩, t', ht, rfl⟩
    exact ⟨ho, t', ht, rfl⟩
  · rintro ⟨ho, t', ht, rfl⟩
    exact ⟨_, _, ⟨ho, rfl, rfl⟩, t', ht, rfl⟩

theorem ok_writeCheckpoint_bind {f : Unit → RetirementTx Unit} :
    (writeCheckpoint k task c >>= f).Ok s a s' ↔ (f ()).Ok (s.setCheckpoint k task c) a s' := by
  unfold writeCheckpoint
  rw [Tx.ok_bind]
  simp only [Tx.ok_read_bind, Tx.ok_write]
  refine ⟨?_, fun hf => ⟨(), _, rfl, hf⟩⟩
  rintro ⟨_, _, rfl, hf⟩
  exact hf

/-- The laws of the attempts hold, and every checkpoint fits them. -/
structure Inv (s : State) : Prop where
  laws : ∀ k, AttemptLaws (s.termination k)
  fits : ∀ k task, (s.checkpoints k task).Fits task (s.termination k)

def LawfulStep (s s' : State) : Prop := ∀ k, StepLaws (s.owner k) (s.termination k) (s'.termination k)

theorem inv_of_init (h : retirementMachine.init s) : Inv s := by
  have hempty : ∀ k, s.termination k = {} := fun k => by rw [State.termination, h.1 k]; rfl
  refine ⟨fun k => ?_, fun k task => ?_⟩
  · rw [hempty k]
    exact ⟨rfl, nofun, nofun, List.Pairwise.nil⟩
  · rw [hempty k]
    exact ⟨fun _ => nofun, fun _ _ => nofun⟩

/-- A checkpoint is written that fits the rows. -/
theorem Inv.write (h : Inv s) (hc : c.Fits task (s.termination k)) :
    Inv (s.setCheckpoint k task c) ∧ LawfulStep s (s.setCheckpoint k task c) := by
  refine ⟨⟨h.laws, fun i j => ?_⟩, fun i => .refl (h.laws i) _⟩
  show (if i = k ∧ j = task then c else s.checkpoints i j).Fits j (s.termination i)
  split
  · next heq =>
    obtain ⟨rfl, rfl⟩ := heq
    exact hc
  · exact h.fits i j

/-- The owner's task writes its checkpoint and the termination. -/
theorem Inv.commit (h : Inv s) (ho : s.owner k = some auth) (hl : AttemptLaws t')
    (hst : StepLaws (some auth) (s.termination k) t') (hc : c.Fits auth.task t')
    (hother : ∀ j, j ≠ auth.task → (s.checkpoints k j).Fits j t') :
    Inv ((s.setCheckpoint k auth.task c).setTermination k t') ∧
      LawfulStep s ((s.setCheckpoint k auth.task c).setTermination k t') := by
  refine ⟨⟨fun i => ?_, fun i j => ?_⟩, fun i => ?_⟩
  · rw [State.termination_setTermination]
    split
    · exact hl
    · exact h.laws i
  · show (if i = k ∧ j = auth.task then c else s.checkpoints i j).Fits j _
    rw [State.termination_setTermination]
    by_cases hi : i = k
    · subst hi
      by_cases hj : j = auth.task
      · subst hj
        simpa using hc
      · simpa [hj] using hother j hj
    · simpa [hi] using h.fits i j
  · rw [State.termination_setTermination]
    split
    · next hi =>
      subst hi
      rw [ho]
      exact hst
    · exact .refl (h.laws i) _

theorem Inv.settleEvidence (h : Inv s) (hc : c.Fits auth.task (s.termination k))
    (hok : (settleEvidence k auth c).Ok s a s') : Inv s' ∧ LawfulStep s s' := by
  simp only [Retirement.settleEvidence, recordTerminationEvidence, Tx.ok_require_bind, ok_writeCheckpoint_bind,
    ok_onTermination] at hok
  obtain ⟨-, -, ho, t', ht, rfl⟩ := hok
  obtain ⟨hl, hst, hr, -⟩ := Termination.record_laws (h.laws k) ht
  exact h.commit ho hl hst (hc.retains hr) fun j _ => (h.fits k j).retains hr

theorem Inv.settleRelease (h : Inv s) (hc : c.Fits auth.task (s.termination k))
    (hok : (settleRelease k auth c).Ok s a s') : Inv s' ∧ LawfulStep s s' := by
  simp only [Retirement.settleRelease, recordTerminationUnsent, Tx.ok_require_bind, ok_writeCheckpoint_bind,
    ok_onTermination] at hok
  obtain ⟨-, ho, t', ht, rfl⟩ := hok
  obtain ⟨hl, hst, hr, hall⟩ := Termination.release_laws (h.laws k) ht
  exact h.commit ho hl hst ⟨fun _ p hp _ => hall p hp, (hc.retains hr).relay⟩ fun j _ => (h.fits k j).retains hr

theorem Inv.admitTermination {fresh resumeRelay : Bool} (h : Inv s) (hadmits : Admits c fresh resumeRelay)
    (hok : (admitTermination k auth c fresh resumeRelay).Ok s a s') : Inv s' ∧ LawfulStep s s' := by
  simp only [Retirement.admitTermination, ok_writeCheckpoint_bind] at hok
  obtain ⟨_, s₁, hrecord, hbegin⟩ := Tx.ok_bind.mp hok
  -- the rows before the admission, with the failed attempt recorded if there is one
  obtain ⟨howner, hset, hl, hst, hfits, hsame⟩ : s₁.owner = s.owner ∧
      (∀ t', s₁.setTermination k t' = (s.setCheckpoint k auth.task (c.next fresh)).setTermination k t') ∧
      AttemptLaws (s₁.termination k) ∧ StepLaws (some auth) (s.termination k) (s₁.termination k) ∧
      (∀ j, (s.checkpoints k j).Fits j (s₁.termination k)) ∧
      (s₁.termination k = s.termination k ∨
        ∀ p, latestAttempt (s₁.termination k).attempts = some p → p.evidence = true) := by
    cases hadmits with
    | fresh hfailed =>
      simp only [recordIf, if_true, recordTerminationEvidence, Tx.ok_require_bind, ok_onTermination] at hrecord
      obtain ⟨-, -, u, hu, rfl⟩ := hrecord
      obtain ⟨hl, hst, hr, hev⟩ := Termination.record_laws (h.laws k) hu
      rw [State.termination_setTermination, if_pos rfl]
      refine ⟨rfl, fun t' => ?_, hl, hst, fun j => (h.fits k j).retains hr, .inr (hev ?_)⟩
      · unfold State.setTermination
        congr 1
        funext i
        by_cases hi : i = k <;> simp [hi]
      · simp [Checkpoint.input, EvidenceInput.hasTransaction, hfailed]
    | resume | again =>
      simp only [recordIf, Bool.false_eq_true, if_false, Tx.ok_pure] at hrecord
      obtain ⟨-, rfl⟩ := hrecord
      exact ⟨rfl, fun _ => rfl, h.laws k, .refl (h.laws k) _, h.fits k, .inl rfl⟩
  simp only [beginTerminationAttempt, Tx.ok_require_bind, ok_onTermination] at hbegin
  obtain ⟨-, ho, t', ht, rfl⟩ := hbegin
  obtain ⟨hl', hst', hadmitted⟩ := Termination.begin_laws hl hst hsame ht
  rw [hset]
  exact h.commit (howner ▸ ho) hl' hst' (c.next_fits fresh) fun j hj => (hfits j).admitted hj hadmitted

theorem Inv.run {o : Observation} {mayTerminate : Bool} (h : Inv s)
    (hok : ((runDataSetRetirement (s.checkpoints k auth.task) (s.termination k) o mayTerminate).commit k auth).Ok
      s a s') : Inv s' ∧ LawfulStep s s' := by
  rcases runDataSetRetirement_decides (s.checkpoints k auth.task) (s.termination k) o mayTerminate with hd | ⟨c, hc, hd⟩
  · rw [hd] at hok
    obtain ⟨-, rfl⟩ := Tx.ok_pure.mp hok
    exact ⟨h, fun i => .refl (h.laws i) _⟩
  have hfits := hc.fits (h.fits k auth.task)
  generalize runDataSetRetirement (s.checkpoints k auth.task) (s.termination k) o mayTerminate = d at hok hd
  cases hd with
  | nothing =>
    obtain ⟨-, rfl⟩ := Tx.ok_pure.mp hok
    exact ⟨h, fun i => .refl (h.laws i) _⟩
  | save =>
    simp only [Decision.commit, writeCheckpoint, Tx.ok_read_bind, Tx.ok_write] at hok
    subst hok
    exact h.write hfits
  | settle => exact h.settleEvidence hfits hok
  | release => exact h.settleRelease hfits hok
  | admission hadmits => exact h.admitTermination hadmits hok

theorem Inv.step {a : Action} (h : Inv s) (hstep : retirementMachine.step s a = some s') :
    Inv s' ∧ LawfulStep s s' := by
  obtain ⟨u, hok⟩ := Tx.after_eq_some.mp hstep
  cases a with
  | setOwner k owner =>
    simp only [Action.tx, Tx.ok_read_bind, Tx.ok_write] at hok
    subst hok
    exact ⟨⟨h.laws, h.fits⟩, fun i => .refl (h.laws i) _⟩
  | retry k auth next failedTransaction exhausted =>
    simp only [Action.tx, Tx.ok_read_bind, Tx.ok_require_bind, Tx.ok_write, Bool.and_eq_true, List.all_eq_true,
      bne_iff_ne] at hok
    obtain ⟨⟨-, hnew⟩, rfl⟩ := hok
    have howner : Inv { s with owner := fun i => if i = k then some { auth with task := next } else s.owner i } :=
      ⟨h.laws, h.fits⟩
    -- the successor has no attempt yet
    have hfits : ((s.checkpoints k auth.task).retried failedTransaction exhausted).Fits next (s.termination k) :=
      ⟨fun _ p hp htask => absurd htask (hnew p hp), fun _ _ => hnew⟩
    exact ⟨(howner.write hfits).1, fun i => .refl (h.laws i) _⟩
  | run k auth o mayTerminate =>
    simp only [Action.tx, Tx.ok_read_bind, Tx.ok_require_bind] at hok
    exact h.run hok.2
  | beforeDirect k auth =>
    simp only [Action.tx, writeCheckpoint, Tx.ok_read_bind, Tx.ok_write] at hok
    subst hok
    exact h.write ⟨(h.fits k auth.task).unsent, by simp⟩
  | evidence k auth result relayed =>
    simp only [Action.tx, Tx.ok_read_bind, Tx.ok_orFail_bind] at hok
    obtain ⟨c, hm, hok⟩ := hok
    have hsame := mergeRetirementEvidence_same hm
    have hfits := (h.fits k auth.task).of_same hsame.unsent hsame.retryUnresolvedRelay hsame.relayOnly
    exact h.settleEvidence (hfits.ended relayed) hok
  | notSent k auth relayed =>
    simp only [Action.tx, Tx.ok_read_bind] at hok
    exact h.settleRelease ((h.fits k auth.task).ended relayed) hok

theorem retirement_inv (h : retirementMachine.Reachable s) : Inv s :=
  h.invariant (fun _ hi => inv_of_init hi) fun _ _ _ hl hst => (hl.step hst).1

theorem evidence_kept (h : Inv s) (hrun : retirementMachine.Steps s s') (k : Key) :
    EvidenceKept (s.termination k) (s'.termination k) :=
  (hrun.lift (I := Inv) (R := fun s s' => ∀ k, EvidenceKept (s.termination k) (s'.termination k))
    (fun _ _ => .refl _) (fun _ _ _ h h' k => (h k).trans (h' k)) (fun _ _ _ hl hst => (hl.step hst).1)
    (fun _ _ _ hl hst k => ((hl.step hst).2 k).kept) h).2 k

/-! ## The result -/

/-- **Attempts are linear and their evidence is permanent.** The laws of the attempts hold and every step keeps to the
    laws of steps; a task that decides to pay does so under a new number, or again for an attempt without transaction
    evidence that was released or that another task admitted; along a run no evidence is lost; and merging evidence
    into a checkpoint keeps what it had. -/
theorem termination_attempts_linear (h : retirementMachine.Reachable s) : (∀ k, AttemptLaws (s.termination k)) ∧
      (∀ a s', retirementMachine.step s a = some s' →
        ∀ k, StepLaws (s.owner k) (s.termination k) (s'.termination k)) ∧
      (∀ k (auth : Authority) o mayTerminate c fresh resumeRelay,
        runDataSetRetirement (s.checkpoints k auth.task) (s.termination k) o mayTerminate =
          .admission c fresh resumeRelay →
        ∀ p ∈ (s.termination k).attempts, p.attemptNo = c.nextAttempt fresh →
          fresh = false ∧ p.evidence = false ∧ (p.unsent = true ∨ p.task ≠ some auth.task)) ∧
      (∀ s', retirementMachine.Steps s s' → ∀ k, EvidenceKept (s.termination k) (s'.termination k)) ∧
      ∀ k task observed c, mergeRetirementEvidence (s.checkpoints k task) observed = some c →
        (s.checkpoints k task).Keeps c := by
  have hinv := retirement_inv h
  refine ⟨hinv.laws, fun a s' hst => (hinv.step hst).2, ?_, fun s' hrun k => evidence_kept hinv hrun k,
    fun k task observed c hm => mergeRetirementEvidence_keeps hm⟩
  intro k auth o mayTerminate c fresh resumeRelay hd p hp hno
  rcases runDataSetRetirement_decides (s.checkpoints k auth.task) (s.termination k) o mayTerminate with
    hnone | ⟨c', hc, hdec⟩
  · rw [hnone] at hd; cases hd
  · rw [hd] at hdec
    cases hdec with
    | admission hadmits => exact hadmits.unsent (hinv.laws k) hc (hc.fits (hinv.fits k auth.task)) hp hno

/-- Two tasks retire the source of replacement 1: the first one's request is not sent, then its transaction fails; the
    second one's is unknown. -/
def twoAttempts : List Action :=
  let k : Key := (1, .source)
  [.setOwner k (some ⟨5, 1, 10⟩), .run k ⟨5, 1, 10⟩ {} true, .notSent k ⟨5, 1, 10⟩ true,
   .run k ⟨5, 1, 10⟩ {} true, .evidence k ⟨5, 1, 10⟩ ⟨"0xa", "", none, none⟩ false,
   .run k ⟨5, 1, 10⟩ { observed := ⟨"0xa", "0xa", some 0, none⟩, err := [.transactionFailed] } true,
   .retry k ⟨5, 1, 10⟩ 11 true false, .run k ⟨5, 1, 11⟩ { err := [.transactionFailed] } true]

def noTermination : State := ⟨fun _ => none, fun _ => none, fun _ _ => {}⟩

def twoAttemptsState : State := (retirementMachine.run noTermination twoAttempts).getD noTermination

theorem termination_attempts_linear_two : (twoAttemptsState.termination (1, .source)).attempts =
        [⟨1, some 10, some "0xa", some "0xa", some 0, false⟩, ⟨2, some 11, none, none, none, false⟩] ∧
      AttemptLaws (twoAttemptsState.termination (1, .source)) := by
  have hr : retirementMachine.Reachable twoAttemptsState :=
    Lts.Reachable.of_run_isSome (.of_init ⟨fun _ => rfl, fun _ _ => rfl⟩) (by decide +kernel)
  exact ⟨by decide +kernel, (termination_attempts_linear hr).1 _⟩

end SynapS3.Retirement
