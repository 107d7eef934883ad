import SynapS3.DataSet.Invariant

/-!
# `DataSet.Bindings` — plans, replacements, claims and retries keep the contract

No other step gives a binding a client ID or a data set: a plan that marks a binding ready holds a reference
to the data set the binding has (`schedule_move`), because two bindings of one provider never share a data
set and a binding never loses the one it has. A round that takes a binding over finds it without an owner,
or takes it from a round that is over.
-/

namespace SynapS3.DataSet

/-! ## Inversion -/

section Inversion

variable {s t : State} {id taskID : Nat} {u : Unit}

theorem updateRow_ok {p : StorageDataSet → Bool} {f : StorageDataSet → StorageDataSet}
    (h : (updateRow id p f).Ok s u t) :
    ∃ row, s.rows.row id = some row ∧ p row = true ∧ t = { s with rows := s.rows.modify id f } := by
  simp only [updateRow, Tx.ok_bind, Tx.ok_read, Tx.ok_orFail, Tx.ok_require, Tx.ok_write] at h
  obtain ⟨_, _, ⟨rfl, rfl⟩, row, _, ⟨hrow, rfl⟩, _, _, ⟨hp, rfl⟩, rfl⟩ := h
  exact ⟨row, hrow, hp, rfl⟩

theorem authorize_ok (h : (authorizeDataSetEnsureTask id taskID).Ok s u t) :
    t = s ∧ ∃ row, s.rows.row id = some row ∧ row.ensureTaskID = some taskID ∧ row.creationStopped = false := by
  simp only [authorizeDataSetEnsureTask, Tx.ok_bind, Tx.ok_read, Tx.ok_orFail, Tx.ok_pure] at h
  obtain ⟨_, _, ⟨rfl, rfl⟩, row, _, ⟨hrow, rfl⟩, -, rfl⟩ := h
  obtain ⟨hrow, hp⟩ := Option.filter_eq_some_iff.mp hrow
  simp only [Bool.and_eq_true, beq_iff_eq, Bool.not_eq_true'] at hp
  exact ⟨rfl, row, hrow, hp.1, hp.2⟩

theorem markDataSetReady_ok {d client : Nat} {txHash confirmed : String}
    (h : (markDataSetReady id d client txHash confirmed).Ok s u t) :
    d ≠ 0 ∧ ∃ row, s.rows.row id = some row ∧
      (∀ other q, s.rows.row other = some q → q.providerID = row.providerID → q.dataSetID = some d → other = id) ∧
      (row.status = .draining → row.dataSetID = none ∨ row.dataSetID = some d) ∧
      (row.clientDataSetID = none ∨ row.clientDataSetID = some client) ∧
      t = { s with rows := s.rows.modify id fun r => { r.withEvidence txHash confirmed "" with
        status := if r.status = .draining then .draining else .ready
        dataSetID := some d
        clientDataSetID := some client } } := by
  simp only [markDataSetReady, Tx.ok_bind, Tx.ok_read, Tx.ok_orFail, Tx.ok_require] at h
  obtain ⟨_, _, ⟨hd, rfl⟩, _, _, ⟨rfl, rfl⟩, row, _, ⟨hrow, rfl⟩, _, _, ⟨hany, rfl⟩, hup⟩ := h
  obtain ⟨row', hrow', hp, rfl⟩ := updateRow_ok hup
  rw [hrow] at hrow'
  cases hrow'
  simp only [Bool.not_eq_true', Table.any_eq_false, Bool.and_eq_false_iff, beq_eq_false_iff_ne, bne_eq_false_iff_eq,
    bne_iff_ne] at hany hd
  simp only [Bool.and_eq_true, Bool.or_eq_true, beq_iff_eq, Option.isNone_iff_eq_none] at hp
  refine ⟨hd, row, hrow, fun other q hq hprov hds => ?_, fun hdrain => ?_, hp.1.2, rfl⟩
  · rcases hany other q hq with (heq | hne) | hne
    · exact heq
    · exact absurd hprov hne
    · exact absurd hds hne
  · rcases hp.1.1 with ((hst | hst) | hst) | ⟨-, hor⟩
    · rw [hst] at hdrain; cases hdrain
    · rw [hst] at hdrain; cases hdrain
    · rw [hst] at hdrain; cases hdrain
    · exact hor

theorem withEvidence_none (r : StorageDataSet) : r.withEvidence "" "" "" = r := by
  simp [StorageDataSet.withEvidence]

theorem ensureDataSetBinding_ok {bucketID providerID copyIndex b : Nat}
    (h : (ensureDataSetBinding bucketID providerID copyIndex).Ok s b t) :
    t = s ∨ (b = s.rows.next ∧ t = { s with rows := s.rows.insert (newBinding bucketID providerID copyIndex true) }) := by
  simp only [ensureDataSetBinding, Tx.ok_bind, Tx.ok_read] at h
  obtain ⟨_, _, ⟨rfl, rfl⟩, h⟩ := h
  split at h
  · simp only [Tx.ok_bind, Tx.ok_orFail, Tx.ok_require, Tx.ok_pure] at h
    obtain ⟨_, _, ⟨-, rfl⟩, _, _, ⟨-, rfl⟩, -, rfl⟩ := h
    exact .inl rfl
  · simp only [Tx.ok_bind, Tx.ok_require, Tx.ok_write, Tx.ok_pure] at h
    obtain ⟨_, _, ⟨-, rfl⟩, _, _, rfl, rfl, rfl⟩ := h
    exact .inr ⟨rfl, rfl⟩

end Inversion

/-! ## Moves of the environment -/

/-- What a step outside the handlers leaves of a binding. -/
structure SameBinding (row row' : StorageDataSet) : Prop where
  provider : row'.providerID = row.providerID
  client : row'.clientDataSetID = row.clientDataSetID
  dataSet : row'.dataSetID = row.dataSetID
  ready : row'.status = .ready → row.status = .ready ∨ row.dataSetID ≠ none

theorem SameBinding.refl (row : StorageDataSet) : SameBinding row row := ⟨rfl, rfl, rfl, .inl⟩

/-- What is owed for a step outside the handlers. -/
abbrev EnvKeeps (s t : State) : Prop := contract.EnvKeeps s t

/-- Rounds moved: none got a checkpoint that no round of the binding had, and the holder of a round that is
    still held does not notice. -/
structure RoundsMove (s t : Table EnsureRound) : Prop where
  saved : ∀ i r c, t.row i = some r → r.checkpoint = some c →
    ∃ j q, s.row j = some q ∧ q.checkpoint = some c ∧ q.input.dataSetID = r.input.dataSetID
  issued : ∀ k, Round.Issued s k → Round.Issued t k
  current : ∀ k, Round.Issued s k → Round.Current t k → Round.Current s k ∧ t.row k.1 = s.row k.1

/-- A step that leaves the chain and the record alone, and keeps every binding and every checkpoint. -/
structure EnvMove (s t : State) : Prop where
  history : t.history = s.history
  chain : t.chain = s.chain
  plans : t.plans = s.plans
  kept : ∀ id row, s.rows.row id = some row → ∃ row', t.rows.row id = some row' ∧ SameBinding row row'
  new : ∀ id row', t.rows.row id = some row' → s.rows.row id = none →
    row'.clientDataSetID = none ∧ row'.dataSetID = none ∧ row'.status ≠ .ready
  rounds : RoundsMove s.rounds t.rounds
  waiting : ∀ k id, Round.Issued s.rounds k → Round.Current t.rounds k → Waiting k s id → Waiting k t id

section Moves

variable {s t : State}

theorem EnvMove.grows (h : EnvMove s t) : Grows s t := by
  refine .of_history h.history (by rw [h.chain]; exact fun _ h => h) fun id row hrow => ?_
  obtain ⟨row', hrow', hs⟩ := h.kept id row hrow
  exact ⟨row', hrow', hs.provider, fun c hc => by rw [hs.client, hc], fun d hd => by rw [hs.dataSet, hd]⟩

variable {row : StorageDataSet} {rounds : Table EnsureRound}

theorem recorded_new {chain : List OnChain} {h : History} (hu : h.Untouched) (hc : row.clientDataSetID = none)
    (hd : row.dataSetID = none) (hs : row.status ≠ .ready) : Recorded chain row h := by
  obtain ⟨hi, hsends, hadm⟩ := hu
  refine ⟨by rw [hc]; simp, fun _ => ⟨hi, hsends, hadm⟩, fun h => absurd hc h, ?_, ?_, ?_, fun h => absurd h hs⟩
  · rw [hsends]; simp
  · intro k
    unfold History.calls
    rw [hsends]
    exact Nat.zero_le _
  · rw [hd]; simp

/-- **Such a step is within the contract of every handler.** -/
theorem EnvMove.keeps (hi : Inv s) (h : EnvMove s t) : EnvKeeps s t := by
  have hg := h.grows
  -- a binding of `t` is an old one, or a new one
  have hback : ∀ id row', t.rows.row id = some row' →
      (∃ row, s.rows.row id = some row ∧ SameBinding row row') ∨
      (s.rows.row id = none ∧ row'.clientDataSetID = none ∧ row'.dataSetID = none ∧ row'.status ≠ .ready) := by
    intro id row' hrow'
    cases hrow : s.rows.row id with
    | none => exact .inr ⟨rfl, h.new id row' hrow' hrow⟩
    | some row =>
      obtain ⟨row'', hrow'', hs⟩ := h.kept id row hrow
      rw [hrow'] at hrow''
      cases hrow''
      exact .inl ⟨row, rfl, hs⟩
  refine ⟨hi.step hg h.chain h.plans (fun id hid => ?_) (fun id row' hrow' => ?_)
      fun i r c hr hc => .inl (h.rounds.saved i r c hr hc), ⟨hg, ?_, fun id row row' d hrow hrow' hnone hd => ?_⟩,
    fun k hk => ⟨h.rounds.issued k hk, hg, ?_, fun hc => (h.rounds.current k hk hc).1,
      fun hc => (h.rounds.current k hk hc).2,
      fun hc id hw => h.waiting k id hk hc hw⟩⟩
  · rw [h.history]
    refine hi.fresh id ?_
    by_contra hne
    obtain ⟨row, hrow⟩ := Option.ne_none_iff_exists'.mp hne
    obtain ⟨row', hrow', -⟩ := h.kept id row hrow
    rw [hid] at hrow'
    cases hrow'
  · rw [h.history, h.chain]
    rcases hback id row' hrow' with ⟨row, hrow, hs⟩ | ⟨hnone, hc, hd, hst⟩
    · have hrec := hi.recorded id row hrow
      refine hrec.same hs.provider hs.client hs.dataSet fun hready => ?_
      rcases hs.ready hready with hready | hsome
      · exact hrec.ready hready
      · exact hsome
    · exact recorded_new (hi.fresh id hnone) hc hd hst
  · rw [h.history]; exact fun _ => .inl rfl
  · obtain ⟨row'', hrow'', hs⟩ := h.kept id row hrow
    rw [hrow'] at hrow''
    cases hrow''
    rw [hs.dataSet, hnone] at hd
    cases hd
  · rw [h.history]; exact fun _ => ⟨rfl, rfl, rfl⟩

theorem RoundsMove.refl (rounds : Table EnsureRound) : RoundsMove rounds rounds :=
  ⟨fun i r _ hr hc => ⟨i, r, hr, hc, rfl⟩, fun _ h => h, fun _ _ hc => ⟨hc, rfl⟩⟩

theorem EnvMove.of_rounds (h : RoundsMove s.rounds rounds) : EnvMove s { s with rounds := rounds } := by
  refine ⟨rfl, rfl, rfl, fun _ row hrow => ⟨row, hrow, .refl row⟩, fun _ _ hrow hnone => ?_, h,
    fun _ _ _ _ hw => hw⟩
  cases hrow.symm.trans hnone

theorem EnvMove.of_row {id : Nat} {f : StorageDataSet → StorageDataSet} (hrow : s.rows.row id = some row)
    (hs : SameBinding row (f row)) (hr : RoundsMove s.rounds rounds)
    (hwait : ∀ k : Nat × Nat, Round.Current s.rounds k → row.clientDataSetID = none →
      (row.ensureTaskID = some k.1 ∨ (row.creationStopped = true ∧ row.ensureTaskID = none)) →
      (f row).ensureTaskID = some k.1 ∨ ((f row).creationStopped = true ∧ (f row).ensureTaskID = none)) :
    EnvMove s { s with rows := s.rows.modify id f, rounds := rounds } := by
  refine ⟨rfl, rfl, rfl, fun j q hq => ?_, fun j q' hq' hnone => ?_, hr, fun k j hk hc hw => ?_⟩
  · by_cases hj : j = id
    · rw [hj] at hq ⊢
      rw [hrow] at hq
      cases hq
      exact ⟨f row, Table.row_modify_at hrow f, hs⟩
    · exact ⟨q, by rw [Table.row_modify, if_neg hj]; exact hq, .refl q⟩
  · rcases Table.row_modify_cases hq' with ⟨hj, q, hq, -⟩ | ⟨-, hq⟩
    · rw [hj, hq] at hnone; cases hnone
    · rw [hq] at hnone; cases hnone
  · obtain ⟨q, hq, hnone, how⟩ := hw
    by_cases hj : j = id
    · rw [hj] at hq ⊢
      rw [hrow] at hq
      cases hq
      exact ⟨f row, Table.row_modify_at hrow f, by rw [hs.client]; exact hnone,
        hwait k (hr.current k hk hc).1 hnone how⟩
    · exact ⟨q, by rw [Table.row_modify, if_neg hj]; exact hq, hnone, how⟩

theorem EnvMove.of_insert (bucketID providerID copyIndex : Nat) (isCurrent : Bool) :
    EnvMove s { s with rows := s.rows.insert (newBinding bucketID providerID copyIndex isCurrent) } := by
  have hold : ∀ id row, s.rows.row id = some row →
      (s.rows.insert (newBinding bucketID providerID copyIndex isCurrent)).row id = some row := by
    intro id row hrow
    rw [Table.row_insert, if_neg (Nat.ne_of_lt (Table.lt_next hrow))]
    exact hrow
  refine ⟨rfl, rfl, rfl, fun id row hrow => ⟨row, hold id row hrow, .refl row⟩, fun id row' hrow' hnone => ?_,
    .refl _, fun k id _ _ hw => ?_⟩
  · rcases Table.row_insert_cases hrow' with ⟨-, rfl⟩ | ⟨-, hrow⟩
    · exact ⟨rfl, rfl, by simp [newBinding]⟩
    · rw [hrow] at hnone; cases hnone
  · obtain ⟨row, hrow, hw⟩ := hw
    exact ⟨row, hold id row hrow, hw⟩

end Moves

/-! ## Plans, replacement and retirement -/

section Steps

variable {s t : State} {id : Nat} {u : Unit} {r : EnsureRound} {row : StorageDataSet}
  {rounds : Table EnsureRound} {taskID : Nat}

theorem Inv.no_data_set (hi : Inv s) (hrow : s.rows.row id = some row) (hnone : row.clientDataSetID = none) :
    row.dataSetID = none := by
  cases hd : row.dataSetID with
  | none => rfl
  | some d =>
    obtain ⟨e, -, -, -, hc, -⟩ := (hi.recorded id row hrow).found d hd
    rw [hnone] at hc
    cases hc

theorem revise_move (hi : Inv s) {v : Revision} (h : (revise id v).Ok s u t) : EnvMove s t := by
  obtain ⟨row, hrow, hp, rfl⟩ := updateRow_ok h
  simp only [Revision.allowed, Bool.and_eq_true, Bool.or_eq_true, beq_iff_eq, Bool.not_eq_true',
    Bool.and_eq_false_iff, beq_eq_false_iff_ne, bne_eq_false_iff_eq] at hp
  obtain ⟨⟨hstatus, hretired⟩, hrelease⟩ := hp
  refine .of_row hrow ⟨rfl, rfl, rfl, fun hready => .inl ?_⟩ (.refl _) fun k _ hnone how => ?_
  · have hv : v.status = .ready := hready
    rcases hstatus with (heq | heq) | heq
    · rw [← heq, hv]
    · rw [hv] at heq; cases heq
    · rw [hv] at heq; cases heq
  · have hds := hi.no_data_set hrow hnone
    -- creation stays stopped once it is
    have hkeep : row.creationStopped = true → (v.apply row).creationStopped = true := by
      intro hstop
      simp only [StorageDataSet.creationStopped, Bool.or_eq_true, beq_iff_eq, Bool.and_eq_true] at hstop
      simp only [StorageDataSet.creationStopped, Revision.apply, Bool.or_eq_true, beq_iff_eq, Bool.and_eq_true]
      rcases hstop with hstop | ⟨hd, hstop⟩
      · rcases hretired with hne | heq
        · exact absurd hstop hne
        · exact .inl heq
      · exact .inr ⟨hd, .inl hstop⟩
    by_cases hrel : v.release = true
    · right
      refine ⟨?_, by simp [Revision.apply, hrel]⟩
      rcases hrelease with (hno | hstop) | hsome
      · rw [hrel] at hno; cases hno
      · exact hstop
      · rw [hds] at hsome; cases hsome
    · rcases how with how | ⟨hstop, how⟩
      · left; simp [Revision.apply, hrel, how]
      · right; exact ⟨hkeep hstop, by simp [Revision.apply, how]⟩

variable {d bucketID providerID copyIndex i : Nat}

theorem backfill_refused (hi : Inv s) {client : Nat} : ¬ (backfillClientDataSetID id d client).Ok s u t := by
  intro h
  obtain ⟨row, hrow, hp, -⟩ := updateRow_ok h
  simp only [Bool.and_eq_true, beq_iff_eq, Option.isNone_iff_eq_none] at hp
  rw [hi.no_data_set hrow hp.2] at hp
  cases hp.1

theorem insertTarget_move (h : (insertTarget bucketID providerID copyIndex).Ok s u t) : EnvMove s t := by
  simp only [insertTarget, Tx.ok_bind, Tx.ok_read, Tx.ok_write] at h
  obtain ⟨_, _, ⟨rfl, rfl⟩, rfl⟩ := h
  exact .of_insert ..

/-- **A plan marks a binding ready with the data set it has.** -/
theorem schedule_move (hi : Inv s) {ref : Option DataSetRef} (hplan : ∀ r, ref = some r → r ∈ s.plans)
    (h : (schedule bucketID providerID copyIndex ref).Ok s u t) : EnvMove s t := by
  simp only [schedule, Tx.ok_bind] at h
  obtain ⟨id, m, hbind, h⟩ := h
  cases ref with
  | none =>
    rw [Tx.ok_pure] at h
    obtain ⟨-, rfl⟩ := h
    rcases ensureDataSetBinding_ok hbind with rfl | ⟨-, rfl⟩
    · exact .of_rounds (.refl _)
    · exact .of_insert ..
  | some ref =>
    simp only [Tx.ok_bind, Tx.ok_read, Tx.ok_orFail, Tx.ok_require] at h
    obtain ⟨_, _, ⟨rfl, rfl⟩, row, _, ⟨hrow, rfl⟩, _, _, ⟨hbelongs, rfl⟩, hmark⟩ := h
    obtain ⟨-, row', hrow', halone, -, -, rfl⟩ := markDataSetReady_ok hmark
    rw [hrow] at hrow'
    cases hrow'
    simp only [DataSetRef.belongs, Bool.and_eq_true, beq_iff_eq] at hbelongs
    obtain ⟨j, q, hq, hqp, hqd, hqc⟩ := hi.plans ref (hplan ref rfl)
    have hprov : q.providerID = row.providerID := hqp.trans hbelongs.1.1
    rcases ensureDataSetBinding_ok hbind with heq | ⟨hnext, heq⟩
    · subst heq
      -- the plan's binding is this one
      have hj := halone j q hq hprov hqd
      subst hj
      rw [hrow] at hq
      cases hq
      simp only [withEvidence_none]
      refine .of_row hrow ⟨rfl, hqc.symm, hqd.symm, fun _ => .inr (by rw [hqd]; simp)⟩ (.refl _)
        fun k _ hnone _ => ?_
      rw [hqc] at hnone
      cases hnone
    · -- a new binding would share the data set of the plan's
      subst heq
      have hne : j ≠ id := by
        rw [hnext]
        exact Nat.ne_of_lt (Table.lt_next hq)
      refine absurd (halone j q ?_ hprov hqd) hne
      show (s.rows.insert _).row j = some q
      rw [Table.row_insert, if_neg (Nat.ne_of_lt (Table.lt_next hq))]
      exact hq

/-! ## Rounds -/

theorem RoundsMove.of_moved {rounds' : Table EnsureRound} {r' : EnsureRound}
    (h : Round.Moved i rounds rounds' r r') (hc : r'.checkpoint = r.checkpoint) (htok : r.token ≤ r'.token)
    (hne : ∀ k, Round.Issued rounds k → Round.Current rounds' k → k.1 ≠ i) : RoundsMove rounds rounds' := by
  refine ⟨fun j q c hq hqc => ?_, fun k hk => h.issued htok hk, fun k hk hcur => h.elsewhere (hne k hk hcur) hcur⟩
  obtain ⟨q₀, hq₀, hin, -, heq⟩ := h.back hq
  rcases heq with rfl | ⟨rfl, rfl⟩
  · exact ⟨j, q, hq₀, hqc, rfl⟩
  · exact ⟨j, r, h.round, by rw [← hc]; exact hqc, by rw [h.input]⟩

theorem RoundsMove.of_insert (h : ∀ c, r.checkpoint = some c →
      ∃ j q, rounds.row j = some q ∧ q.checkpoint = some c ∧ q.input.dataSetID = r.input.dataSetID) :
    RoundsMove rounds (rounds.insert r) := by
  have hold : ∀ i q, rounds.row i = some q → (rounds.insert r).row i = some q := by
    intro i q hq
    rw [Table.row_insert, if_neg (Nat.ne_of_lt (Table.lt_next hq))]
    exact hq
  refine ⟨fun i q c hq hc => ?_, fun k ⟨q, hq, hle⟩ => ⟨q, hold k.1 q hq, hle⟩, fun k ⟨q, hq, _⟩ hcur => ?_⟩
  · rcases Table.row_insert_cases hq with ⟨-, rfl⟩ | ⟨-, hq⟩
    · exact h c hc
    · exact ⟨i, q, hq, hc, rfl⟩
  · obtain ⟨w, hw, hheld⟩ := hcur
    have hsame := hw.symm.trans (hold k.1 q hq)
    cases hsame
    exact ⟨⟨q, hq, hheld⟩, hw.trans hq.symm⟩

theorem RoundsMove.trans {a b c : Table EnsureRound} (h : RoundsMove a b) (h' : RoundsMove b c) :
    RoundsMove a c := by
  refine ⟨fun i r cp hr hc => ?_, fun k hk => h'.issued k (h.issued k hk), fun k hk hcur => ?_⟩
  · obtain ⟨j, q, hq, hqc, hin⟩ := h'.saved i r cp hr hc
    obtain ⟨j', q', hq', hqc', hin'⟩ := h.saved j q cp hq hqc
    exact ⟨j', q', hq', hqc', hin'.trans hin⟩
  · obtain ⟨hcur', hrow'⟩ := h'.current k (h.issued k hk) hcur
    obtain ⟨hcur'', hrow''⟩ := h.current k hk hcur'
    exact ⟨hcur'', hrow'.trans hrow''⟩

theorem claim_move (hr : s.rounds.row taskID = some r) :
    EnvMove s { s with rounds := s.rounds.modify taskID Round.claim } := by
  have hmoved : Round.Moved taskID s.rounds (s.rounds.modify taskID Round.claim) r r.claim :=
    ⟨hr, Table.row_modify_of hr _, rfl, rfl⟩
  exact .of_rounds (.of_moved hmoved rfl (Nat.le_succ _) fun k hk hc => hmoved.claimed rfl hk hc)

theorem failClaim_move {how : Tasks.End} (hr : s.rounds.row taskID = some r) :
    EnvMove s { s with rounds := s.rounds.modify taskID (Round.finish how) } := by
  have hmoved : Round.Moved taskID s.rounds (s.rounds.modify taskID (Round.finish how)) r (r.finish how) :=
    ⟨hr, Table.row_modify_of hr _, rfl, rfl⟩
  refine .of_rounds (.of_moved hmoved rfl (Nat.le_refl _) fun k _ hc => hmoved.let_go ?_ hc)
  intro hp
  cases hp

theorem bind_wait (hnone : row.ensureTaskID = none) (hstop : row.creationStopped = false) {k : Nat × Nat}
    (how : row.ensureTaskID = some k.1 ∨ (row.creationStopped = true ∧ row.ensureTaskID = none)) : False := by
  rw [hnone, hstop] at how
  rcases how with how | ⟨how, -⟩ <;> cases how

theorem bindDataSetEnsureTask_ok (h : (bindDataSetEnsureTask id taskID).Ok s u t) :
    ∃ row, s.rows.row id = some row ∧ row.ensureTaskID = none ∧ row.creationStopped = false ∧
      t = { s with rows := s.rows.modify id fun r => { r with ensureTaskID := some taskID } } := by
  simp only [bindDataSetEnsureTask, validateDataSetTaskBinding, Tx.ok_bind, Tx.ok_read, Tx.ok_orFail,
    Tx.ok_require] at h
  obtain ⟨_, _, ⟨_, _, ⟨rfl, rfl⟩, _, _, ⟨-, rfl⟩, -, rfl⟩, h⟩ := h
  obtain ⟨row, hrow, hp, rfl⟩ := updateRow_ok h
  simp only [Bool.and_eq_true, Option.isNone_iff_eq_none, Bool.not_eq_true'] at hp
  exact ⟨row, hrow, hp.1, hp.2, rfl⟩

theorem ensureDataSet_move {identity : Pipeline.ExecutionIdentity} (h : (ensureDataSet id identity).Ok s u t) :
    EnvMove s t := by
  simp only [ensureDataSet, Tx.ok_bind, Tx.ok_require, Tx.ok_read, Tx.ok_orFail] at h
  obtain ⟨_, _, ⟨-, rfl⟩, _, _, ⟨rfl, rfl⟩, _, _, ⟨-, rfl⟩, h⟩ := h
  split at h
  · rw [Tx.ok_bind] at h
    obtain ⟨taskID, _, htask, hbind⟩ := h
    obtain ⟨-, rfl⟩ := Tx.ok_pure.mp htask
    obtain ⟨row, hrow, hnone, hstop, rfl⟩ := bindDataSetEnsureTask_ok hbind
    exact .of_row hrow ⟨rfl, rfl, rfl, .inl⟩ (.refl _) fun k _ _ how => (bind_wait hnone hstop how).elim
  · simp only [Tx.ok_bind, Tx.ok_write, Tx.ok_pure] at h
    obtain ⟨_, _, rfl, taskID, _, ⟨-, rfl⟩, hbind⟩ := h
    obtain ⟨row, hrow, hnone, hstop, rfl⟩ := bindDataSetEnsureTask_ok hbind
    exact .of_row hrow ⟨rfl, rfl, rfl, .inl⟩ (.of_insert fun c hc => by cases hc)
      fun k _ _ how => (bind_wait hnone hstop how).elim

theorem RoundsMove.of_superseded (hr : rounds.row i = some r) (hp : r.phase ≠ .held) :
    RoundsMove rounds (rounds.modify i fun r => { r with superseded := true }) := by
  have hrow := Table.row_modify_of hr fun r => { r with superseded := true }
  refine ⟨fun j q c hq hc => ?_, fun k ⟨q, hq, hle⟩ => ?_, fun k _ ⟨q, hq, hheld⟩ => ?_⟩
  · rw [hrow] at hq
    split at hq
    · cases hq; exact ⟨i, r, hr, hc, rfl⟩
    · exact ⟨j, q, hq, hc, rfl⟩
  · by_cases hk : k.1 = i
    · rw [hk, hr] at hq
      cases hq
      exact ⟨{ r with superseded := true }, by rw [hrow, if_pos hk], hle⟩
    · exact ⟨q, by rw [hrow, if_neg hk]; exact hq, hle⟩
  · have hk : k.1 ≠ i := by
      intro hk
      rw [hrow, if_pos hk] at hq
      cases hq
      exact hp hheld.1
    rw [hrow, if_neg hk] at hq ⊢
    exact ⟨⟨q, hq, hheld⟩, rfl⟩

theorem retry_move {sourceID : Nat} (h : (retry sourceID).Ok s u t) : EnvMove s t := by
  simp only [retry, validateDataSetTaskBinding, Tx.ok_bind, Tx.ok_read, Tx.ok_orFail, Tx.ok_require,
    Tx.ok_write] at h
  obtain ⟨_, _, ⟨rfl, rfl⟩, source, _, ⟨hsource, rfl⟩, _, _, ⟨hp, rfl⟩, row, _, ⟨hrow, rfl⟩, _, _,
    ⟨howner, rfl⟩, _, _, ⟨-, rfl⟩, _, _, rfl, _, _, ⟨_, _, ⟨rfl, rfl⟩, _, _, ⟨-, rfl⟩, -, rfl⟩, hup⟩ := h
  obtain ⟨row', hrow', -, rfl⟩ := updateRow_ok hup
  cases hrow.symm.trans hrow'
  simp only [Bool.and_eq_true, Bool.not_eq_true', beq_iff_eq] at hp howner
  have hended : source.phase ≠ .held := by
    intro hheld
    rw [hheld] at hp
    exact absurd hp.2 (by simp)
  refine .of_row hrow ⟨rfl, rfl, rfl, .inl⟩ (.trans (.of_superseded hsource hended) (.of_insert fun c hc => ?_))
    fun k hcur _ how => ?_
  · exact ⟨sourceID, _, Table.row_modify_at hsource _, hc, rfl⟩
  · -- the owner is the source, which nobody holds
    rw [howner] at how
    rcases how with how | ⟨-, how⟩
    · obtain ⟨q, hq, hheld, -⟩ := hcur
      rw [← Option.some.inj how, hsource] at hq
      cases hq
      exact absurd hheld hended
    · cases how

/-! ## The chain -/

theorem openPlan_keeps (hi : Inv s) {c : Nat} (hrow : s.rows.row id = some row) (hd : row.dataSetID = some d)
    (hc : row.clientDataSetID = some c) : EnvKeeps s { s with plans := ⟨row.providerID, d, c⟩ :: s.plans } := by
  have hg : Grows s { s with plans := ⟨row.providerID, d, c⟩ :: s.plans } :=
    .of_history rfl (fun _ h => h) (Grows.refl s).rows
  refine ⟨⟨hi.fresh, hi.recorded, fun i r cp hr hcp => (hi.saved i r cp hr hcp).grows hg, fun ref href => ?_,
    hi.keys, hi.ours⟩, ⟨hg, fun _ => .inl rfl, (Guar.refl s).found⟩, fun k hk =>
      ⟨hk, hg, fun _ => ⟨rfl, rfl, rfl⟩, fun h => h, fun _ => rfl, fun _ _ h => h⟩⟩
  rcases List.mem_cons.mp href with rfl | href
  · exact ⟨id, row, hrow, rfl, hd, hc⟩
  · exact hi.plans ref href

/-- **The chain takes a request**, at most once under its identity and client ID. -/
theorem accept_keeps (hi : Inv s) {e : OnChain} (h : accept s e = some t)
    (hours : ∀ id, e.binding = some id → ∃ q ∈ (s.history id).sends,
      q.clientDataSetID = e.clientDataSetID ∧ q.identity = e.identity ∧ q.providerID = e.providerID) :
    EnvKeeps s t := by
  unfold accept at h
  split at h
  · cases h
  next hnone =>
  cases h
  have hg : Grows s { s with chain := s.chain ++ [e] } :=
    .of_history rfl (fun _ he => List.mem_append_left _ he) (Grows.refl s).rows
  refine ⟨⟨hi.fresh, fun id row hrow => (hi.recorded id row hrow).chain hg.chain,
    fun i r cp hr hcp => (hi.saved i r cp hr hcp).grows hg, hi.plans, ?_, fun e' he' id hid => ?_⟩,
    ⟨hg, fun _ => .inl rfl, (Guar.refl s).found⟩, fun k hk =>
      ⟨hk, hg, fun _ => ⟨rfl, rfl, rfl⟩, fun h => h, fun _ => rfl, fun _ _ h => h⟩⟩
  · refine List.pairwise_append.mpr ⟨hi.keys, List.pairwise_singleton _ _, fun a ha b hb hunder => hnone ?_⟩
    rw [List.mem_singleton] at hb
    subst hb
    simp only [OnChain.under, Bool.and_eq_true, beq_iff_eq] at hunder
    refine List.any_eq_true.mpr ⟨a, ha, ?_⟩
    simp [OnChain.under, hunder.1, hunder.2]
  · rcases List.mem_append.mp he' with he' | he'
    · exact hi.ours e' he' id hid
    · rw [List.mem_singleton] at he'
      subst he'
      exact hours id hid

end Steps

end SynapS3.DataSet
