import SynapS3.Wallet.Invariant

/-!
# `Wallet.Requests` — client requests, claims and manual retries keep the contract

The steps that no claim holder makes. A manual retry hands the operation from a failed round to its
successor; only a checkpoint that proves that nothing was sent starts a new attempt (`Handover`).
-/

namespace SynapS3.Wallet

/-! ## Requests -/

variable {type : WalletOperationType} {clientRequestID : String} {id : Nat} {s t : State}
  {ops : Table WalletOperation} {amount : Nat}

theorem getByTypeAndClientRequestID_some (h : getByTypeAndClientRequestID ops type clientRequestID = some id) :
    ∃ op, ops.row id = some op ∧ op.type = type ∧ op.clientRequestID = clientRequestID := by
  have hmem := List.mem_of_mem_head? h
  obtain ⟨op, hop, hp⟩ := Table.mem_ids.mp hmem
  simp only [Bool.and_eq_true, beq_iff_eq] at hp
  exact ⟨op, hop, hp.1, hp.2⟩

theorem getByTypeAndClientRequestID_none (h : getByTypeAndClientRequestID ops type clientRequestID = none)
    {op : WalletOperation} (hop : ops.row id = some op) :
    ¬ (op.type = type ∧ op.clientRequestID = clientRequestID) := by
  rintro ⟨hty, hid⟩
  have hmem : id ∈ ops.ids fun _ op => op.type == type && op.clientRequestID == clientRequestID :=
    Table.mem_ids.mpr ⟨op, hop, by simp [hty, hid]⟩
  rw [getByTypeAndClientRequestID, List.head?_eq_none_iff] at h
  rw [h] at hmem
  cases hmem

/-- What a request found or made: the operation it asked for before, or a new one under a fresh ID. -/
inductive CreateAnswer (type : WalletOperationType) (clientRequestID : String) (amount : Nat) (s t : State) :
    Nat × Bool → Prop
  | existing {id : Nat} {op : WalletOperation} : s.ops.row id = some op → op.type = type →
      op.clientRequestID = clientRequestID → op.amount = amount → t = s →
      CreateAnswer type clientRequestID amount s t (id, false)
  | created : getByTypeAndClientRequestID s.ops type clientRequestID = none →
      t = { s with ops := s.ops.insert (newOperation type clientRequestID amount) } →
      CreateAnswer type clientRequestID amount s t (s.ops.next, true)

theorem createOrGet_ok {a : Nat × Bool} (h : (createOrGet type clientRequestID amount).Ok s a t) :
    CreateAnswer type clientRequestID amount s t a := by
  simp only [createOrGet, Tx.ok_bind, Tx.ok_read, Tx.ok_require] at h
  obtain ⟨_, _, ⟨_, rfl⟩, _, _, ⟨rfl, rfl⟩, h⟩ := h
  split at h
  · next hnone =>
    simp only [Tx.ok_bind, Tx.ok_write, Tx.ok_pure] at h
    obtain ⟨_, _, rfl, rfl, rfl⟩ := h
    exact .created hnone rfl
  · next id hsome =>
    simp only [Tx.ok_bind, Tx.ok_orFail, Tx.ok_require, Tx.ok_pure, beq_iff_eq] at h
    obtain ⟨op, _, ⟨hop, rfl⟩, _, _, ⟨hamount, rfl⟩, rfl, rfl⟩ := h
    obtain ⟨op', hop', hty, hid⟩ := getByTypeAndClientRequestID_some hsome
    rw [hop] at hop'
    cases hop'
    exact .existing hop hty hid hamount rfl

variable {taskID : Nat}

theorem currentRound_some {rounds : Table WalletRound} (h : currentRound rounds id = some taskID) :
    ∃ r, rounds.row taskID = some r ∧ r.input.operationID = id := by
  have hmem := List.mem_of_mem_head? h
  obtain ⟨r, hr, hp⟩ := Table.mem_ids.mp hmem
  simp only [Bool.and_eq_true, beq_iff_eq] at hp
  exact ⟨r, hr, hp.1⟩

theorem taskForBinding_ok {r : WalletRound} (h : (taskForBinding id taskID).Ok s r t) :
    t = s ∧ s.rounds.row taskID = some r ∧ r.isOpen = true ∧ r.superseded = false ∧ r.input.operationID = id := by
  simp only [taskForBinding, Tx.ok_bind, Tx.ok_read, Tx.ok_orFail, Tx.ok_require, Tx.ok_pure, Bool.and_eq_true,
    Bool.not_eq_true', beq_iff_eq] at h
  obtain ⟨_, _, ⟨rfl, rfl⟩, _, _, ⟨hr, rfl⟩, _, _, ⟨⟨⟨hopen, hsup⟩, hin⟩, rfl⟩, rfl, rfl⟩ := h
  exact ⟨rfl, hr, hopen, hsup, hin⟩

theorem bindTask_ok {u : Unit} (h : (bindTask id taskID).Ok s u t) :
    t = { s with ops := s.ops.modify id fun op => { op with taskID := some taskID } } := by
  simp only [bindTask, Tx.ok_bind] at h
  obtain ⟨r, _, hbind, h⟩ := h
  obtain ⟨rfl, -⟩ := taskForBinding_ok hbind
  obtain ⟨op, -, -, rfl⟩ := updateOperation_ok h
  rfl

/-- A request added an operation and its first round. -/
structure Requested (s t : State) (op : WalletOperation) (r : WalletRound) : Prop where
  op_eq : op = { newOperation op.type op.clientRequestID op.amount with taskID := some s.rounds.next }
  round_eq : r = Round.new ⟨r.input.executionIdentity, s.ops.next⟩ none false none
  unique : ∀ id q, s.ops.row id = some q → ¬ (q.type = op.type ∧ q.clientRequestID = op.clientRequestID)
  ops : ∀ j, t.ops.row j = if j = s.ops.next then some op else s.ops.row j
  rounds : ∀ j, t.rounds.row j = if j = s.rounds.next then some r else s.rounds.row j
  history : t.history = s.history

theorem handleAPIWalletOperation_ok {identity : ExecutionIdentity} (hi : Inv s)
    (h : (handleAPIWalletOperation type clientRequestID amount identity).Ok s id t) :
    (∃ op, s.ops.row id = some op ∧ op.type = type ∧ op.clientRequestID = clientRequestID ∧ t = s) ∨
      (id = s.ops.next ∧ ∃ op r, op.type = type ∧ op.clientRequestID = clientRequestID ∧ Requested s t op r) := by
  simp only [handleAPIWalletOperation, Tx.ok_bind, Tx.ok_read, Tx.ok_orFail] at h
  obtain ⟨⟨id', created⟩, s', hcreate, _, _, ⟨rfl, rfl⟩, op, _, ⟨hop, rfl⟩, h⟩ := h
  cases createOrGet_ok hcreate with
  | @existing _ q hq hty hid hamount heq =>
    subst heq
    have hsame : q = op := Option.some.inj (hq.symm.trans hop)
    subst hsame
    -- a pending operation has a round, so nothing is left to do
    split at h
    · rw [Tx.ok_pure] at h
      obtain ⟨rfl, rfl⟩ := h
      exact .inl ⟨q, hop, hty, hid, rfl⟩
    next hcond =>
    exfalso
    push Not at hcond
    have hpend := (hi.shape _ q hop).pending hcond.2
    cases htask : q.taskID with
    | none => exact hpend.2.2 htask
    | some taskID => simp [htask] at hcond
  | created hnone heq =>
    subst heq
    simp only [Table.row_insert, if_pos] at hop
    cases hop
    have hround : currentRound s.rounds s.ops.next = none := by
      cases hc : currentRound s.rounds s.ops.next with
      | none => rfl
      | some taskID =>
        obtain ⟨r, hr, hin⟩ := currentRound_some hc
        obtain ⟨q, hq⟩ := hi.known taskID r hr
        rw [hin, s.ops.fresh _ (Nat.le_refl _)] at hq
        cases hq
    split at h
    · next hcond => simp [newOperation] at hcond
    simp only [hround, Tx.ok_bind, Tx.ok_write, Tx.ok_pure] at h
    obtain ⟨_, _, rfl, _, _, ⟨rfl, rfl⟩, _, _, hbind, rfl, rfl⟩ := h
    have ht := bindTask_ok hbind
    refine .inr ⟨rfl, { newOperation type clientRequestID amount with taskID := some s.rounds.next },
      Round.new ⟨identity, s.ops.next⟩ none false none, rfl, rfl, rfl, rfl, ?_, ?_, ?_, ?_⟩
    · intro j q hq
      exact getByTypeAndClientRequestID_none hnone hq
    · intro j
      rw [ht]
      by_cases hj : j = s.ops.next
      · simp [hj]
      · simp [hj]
    · intro j
      rw [ht]
      rfl
    · rw [ht]

/-- What is owed for a step outside the handlers. -/
abbrev EnvKeeps (s t : State) : Prop := contract.EnvKeeps s t

section Request

variable {s t : State} {op : WalletOperation} {r : WalletRound} {j : Nat}

theorem Requested.old_op (h : Requested s t op r) {q : WalletOperation} (hq : s.ops.row j = some q) :
    t.ops.row j = some q := by
  have hj := Nat.ne_of_lt (Table.lt_next hq)
  rw [h.ops, if_neg hj]
  exact hq

theorem Requested.old_round (h : Requested s t op r) {q : WalletRound} (hq : s.rounds.row j = some q) :
    t.rounds.row j = some q := by
  have hj := Nat.ne_of_lt (Table.lt_next hq)
  rw [h.rounds, if_neg hj]
  exact hq

theorem Requested.back (hi : Inv s) (h : Requested s t op r) {q : WalletRound} (hq : t.rounds.row j = some q) :
    (j = s.rounds.next ∧ q = r ∧ q.input.operationID = s.ops.next) ∨
      (s.rounds.row j = some q ∧ q.input.operationID ≠ s.ops.next ∧
        t.ops.row q.input.operationID = s.ops.row q.input.operationID) := by
  rw [h.rounds] at hq
  split at hq
  · next hj =>
    cases hq
    refine .inl ⟨hj, rfl, ?_⟩
    rw [h.round_eq]
    rfl
  · obtain ⟨w, hw⟩ := hi.known j q hq
    have hne := Nat.ne_of_lt (Table.lt_next hw)
    exact .inr ⟨hq, hne, by rw [h.ops, if_neg hne]⟩

theorem Requested.inv (hi : Inv s) (h : Requested s t op r) : Inv t := by
  have hnew : s.ops.row s.ops.next = none := s.ops.fresh _ (Nat.le_refl _)
  have hcheck : r.checkpoint = none := by rw [h.round_eq]; rfl
  have hcur : r.superseded = false := by rw [h.round_eq]; rfl
  have hback : ∀ j q, t.ops.row j = some q → (j = s.ops.next ∧ q = op) ∨ s.ops.row j = some q := by
    intro j q hq
    rw [h.ops] at hq
    split at hq
    · next hj => cases hq; exact .inl ⟨hj, rfl⟩
    · exact .inr hq
  refine ⟨?_, ?_, ?_, ?_, ?_, ?_, ?_, ?_, ?_, ?_, ?_⟩
  · intro j hj
    rw [h.ops] at hj
    split at hj
    · cases hj
    · rw [h.history]; exact hi.fresh j hj
  · rw [h.history]; exact hi.single
  · intro j q hq
    rcases hback j q hq with ⟨-, rfl⟩ | hq
    · rw [h.op_eq]
      refine ⟨fun _ => ⟨rfl, rfl, by simp⟩, ?_, ?_⟩
      · intro hs; cases hs
      · rintro (hs | hs | hs) <;> cases hs
    · exact hi.shape j q hq
  · intro j q hq
    rw [h.history]
    rcases hback j q hq with ⟨rfl, rfl⟩ | hq
    · rw [hi.fresh _ hnew, h.op_eq]
      refine ⟨fun _ => ⟨rfl, rfl⟩, ?_, ?_⟩
      · intro hash hh; cases hh
      · intro hs; cases hs
    · exact hi.recorded j q hq
  · intro j j' q q' hq hq' hty hid
    rcases hback j q hq with ⟨rfl, rfl⟩ | hq <;> rcases hback j' q' hq' with ⟨rfl, rfl⟩ | hq'
    · rfl
    · exact absurd ⟨hty.symm, hid.symm⟩ (h.unique j' q' hq')
    · exact absurd ⟨hty, hid⟩ (h.unique j q hq)
    · exact hi.request j j' q q' hq hq' hty hid
  · intro j q taskID hq ho
    rcases hback j q hq with ⟨rfl, rfl⟩ | hq
    · rw [h.op_eq] at ho
      cases ho
      exact ⟨r, by rw [h.rounds, if_pos rfl], by rw [h.round_eq]; rfl, hcur⟩
    · obtain ⟨w, hw, hin, hs⟩ := hi.owner j q taskID hq ho
      exact ⟨w, h.old_round hw, hin, hs⟩
  · intro j j' q q' hq hq' hs hs' heq
    rcases h.back hi hq with ⟨rfl, -, hin⟩ | ⟨hq, hne, -⟩ <;>
      rcases h.back hi hq' with ⟨rfl, -, hin'⟩ | ⟨hq', hne', -⟩
    · rfl
    · exact absurd (heq.symm.trans hin) hne'
    · exact absurd (heq.trans hin') hne
    · exact hi.head j j' q q' hq hq' hs hs' heq
  · intro j q hq
    rcases h.back hi hq with ⟨-, -, hin⟩ | ⟨hq, -, hrow⟩
    · exact ⟨op, by rw [hin, h.ops, if_pos rfl]⟩
    · obtain ⟨w, hw⟩ := hi.known j q hq
      exact ⟨w, by rw [hrow]; exact hw⟩
  · intro j q hq hs
    rcases h.back hi hq with ⟨-, rfl, -⟩ | ⟨hq, -, -⟩
    · rw [hcur] at hs; cases hs
    · exact hi.superseded j q hq hs
  · intro j q c hash w hq hc hh hw
    rcases h.back hi hq with ⟨-, rfl, -⟩ | ⟨hq, -, hrow⟩
    · rw [hcheck] at hc; cases hc
    · rw [hrow] at hw; exact hi.saved j q c hash w hq hc hh hw
  · intro j q c w hq hc hn hs hw
    rcases h.back hi hq with ⟨-, rfl, -⟩ | ⟨hq, -, hrow⟩
    · rw [hcheck] at hc; cases hc
    · rw [hrow] at hw
      rw [h.history]
      exact hi.unsent j q c w hq hc hn hs hw

theorem Requested.keeps (hi : Inv s) (h : Requested s t op r) : EnvKeeps s t := by
  refine ⟨h.inv hi, ⟨fun j q hq => ⟨q, h.old_op hq, .refl s t j q⟩, fun j hash hh => .inl ?_,
    fun j q hq _ => ⟨h.old_round hq, fun id w hw _ => h.old_op hw⟩, fun _ => .inl (by rw [h.history])⟩, fun k hk => ?_⟩
  · rw [← h.history]; exact hh
  · obtain ⟨q, hq, hle⟩ := hk
    have hsame : t.rounds.row k.1 = s.rounds.row k.1 := by rw [h.old_round hq, hq]
    refine ⟨⟨q, h.old_round hq, hle⟩, .of_rounds (fun j w hw => h.old_op hw) h.history ?_⟩
    rintro ⟨w, hw, hheld⟩
    exact ⟨⟨w, hsame.symm.trans hw, hheld⟩, hsame⟩

end Request

/-! ## Claims -/

variable {r : WalletRound}

theorem claim_keeps (hi : Inv s) (hr : s.rounds.row taskID = some r) (hopen : r.isOpen = true) :
    EnvKeeps s { s with rounds := s.rounds.modify taskID Round.claim } ∧
      ¬ Round.Issued s.rounds (taskID, r.token + 1) ∧
      Round.Issued (s.rounds.modify taskID Round.claim) (taskID, r.token + 1) := by
  have hmove : RoundMove taskID s { s with rounds := s.rounds.modify taskID Round.claim } r r.claim := by
    exact ⟨⟨hr, Table.row_modify_of hr _, rfl, rfl⟩, hi.open_current hr hopen⟩
  refine ⟨⟨hmove.inv_same hi rfl rfl rfl, .of_rounds hmove hopen rfl rfl, fun k hk =>
    ⟨hmove.issued (Nat.le_succ _) hk, ?_⟩⟩, ?_, ⟨r.claim, Table.row_modify_at hr _, Nat.le_refl _⟩⟩
  · -- an issued key is older than the new token
    exact .of_rounds (fun _ _ hop => hop) rfl fun hc => hmove.elsewhere (hmove.claimed rfl hk hc) hc
  · rintro ⟨q, hq, hle⟩
    rw [hr] at hq
    cases hq
    omega

theorem failClaim_keeps (hi : Inv s) {reason : String} (hr : s.rounds.row taskID = some r)
    (hheld : r.phase = .held) :
    EnvKeeps s { s with rounds := s.rounds.modify taskID (Round.finish (.failed, some reason)) } := by
  have hmove : RoundMove taskID s
      { s with rounds := s.rounds.modify taskID (Round.finish (.failed, some reason)) } r
      (r.finish (.failed, some reason)) := by
    exact ⟨⟨hr, Table.row_modify_of hr _, rfl, rfl⟩, hi.open_current hr (by rw [Round.isOpen, hheld])⟩
  refine ⟨hmove.inv_same hi rfl rfl rfl, .of_rounds hmove (by rw [Round.isOpen, hheld]) rfl rfl, fun k hk =>
    ⟨hmove.issued (Nat.le_refl _) hk, .of_rounds (fun _ _ hop => hop) rfl fun hc => ?_⟩⟩
  have hended : (r.finish (.failed, some reason)).phase ≠ .held := by
    intro hp
    cases hp
  exact hmove.elsewhere (hmove.let_go hended hc) hc

/-! ## Manual retries -/

/-- A failed round `i` that may be retried, and its successor. -/
structure Retried (s : State) (i : Nat) (r next : WalletRound) : Prop where
  source : s.rounds.row i = some r
  current : r.superseded = false
  ended : ∃ reason, r.phase = .ended (.failed, reason)
  inspected : inspectRetry i r (s.ops.row r.input.operationID) = true
  input : next.input = r.input
  fresh : next.superseded = false

/-- The successor takes over the operation of the round. -/
structure Handover (s t : State) (i : Nat) (r next : WalletRound) (op op' : WalletOperation) : Prop extends
    Retried s i r next, OpWrite s t r.input.operationID op op' where
  owner : op.taskID = some i ∨ op.taskID = none
  rounds : ∀ j, t.rounds.row j = if j = s.rounds.next then some next
    else if j = i then some { r with superseded := true } else s.rounds.row j
  taken : op'.taskID = some s.rounds.next
  permit : (s.history r.input.operationID).signings = 0 →
    (t.history r.input.operationID).signer = (s.history r.input.operationID).signer ∧
      (t.history r.input.operationID).signings = 0
  single : Single (t.history r.input.operationID)
  evolves : Evolves s t r.input.operationID op op'
  shape : Shape op'
  recorded : Recorded (t.history r.input.operationID) op'
  saved : ∀ c hash, next.checkpoint = some c → c.transactionHash = some hash → op'.txHash = some hash
  unsent : ∀ c, next.checkpoint = some c → c.broadcastNotSent = false
  restarts : (s.history r.input.operationID).signings ≤ (t.history r.input.operationID).signings ∨
    Disproved s r.input.operationID

section Handovers

variable {s t : State} {i : Nat} {r next : WalletRound} {op op' : WalletOperation} {j : Nat} {q : WalletRound}

theorem Handover.back (h : Handover s t i r next op op') (hq : t.rounds.row j = some q) :
    (j = s.rounds.next ∧ q = next) ∨ (j = i ∧ q = { r with superseded := true }) ∨
      (j ≠ i ∧ s.rounds.row j = some q) := by
  rw [h.rounds] at hq
  split at hq
  · next hj => cases hq; exact .inl ⟨hj, rfl⟩
  · split at hq
    · next hj => cases hq; exact .inr (.inl ⟨hj, rfl⟩)
    · next hj => exact .inr (.inr ⟨hj, hq⟩)

theorem Handover.old_round (h : Handover s t i r next op op') (hj : j ≠ i) (hq : s.rounds.row j = some q) :
    t.rounds.row j = some q := by
  rw [h.rounds, if_neg (Nat.ne_of_lt (Table.lt_next hq)), if_neg hj]
  exact hq

theorem Handover.back_current (hi : Inv s) (h : Handover s t i r next op op') (hq : t.rounds.row j = some q)
    (hs : q.superseded = false) :
    (j = s.rounds.next ∧ q = next) ∨
      (s.rounds.row j = some q ∧ j ≠ i ∧ q.input.operationID ≠ r.input.operationID) := by
  rcases h.back hq with hnew | ⟨-, rfl⟩ | ⟨hj, hq⟩
  · exact .inl hnew
  · cases hs
  · refine .inr ⟨hq, hj, fun heq => hj ?_⟩
    exact hi.head j i q r hq h.source hs h.current heq

theorem Handover.inv (hi : Inv s) (h : Handover s t i r next op op') : Inv t := by
  obtain ⟨hfresh, hops, hrequest⟩ := h.toOpWrite.operations hi h.evolves h.shape h.recorded
  refine ⟨hfresh, fun j => ?_, fun j q hq => (hops j q hq).1, fun j q hq => (hops j q hq).2, hrequest,
    ?_, ?_, ?_, ?_, ?_, ?_⟩
  · by_cases hj : j = r.input.operationID
    · rw [hj]; exact h.single
    · rw [h.others j hj]; exact hi.single j
  · intro j q taskID hq ho
    rcases h.toOpWrite.back hq with ⟨rfl, rfl⟩ | ⟨hj, hq⟩
    · rw [h.taken] at ho
      cases ho
      exact ⟨next, by rw [h.rounds, if_pos rfl], by rw [h.input], h.fresh⟩
    obtain ⟨w, hw, hin, hs⟩ := hi.owner j q taskID hq ho
    refine ⟨w, h.old_round (fun heq => ?_) hw, hin, hs⟩
    rw [heq, h.source] at hw
    cases hw
    exact hj hin.symm
  · intro j j' q q' hq hq' hs hs' heq
    rcases h.back_current hi hq hs with ⟨rfl, rfl⟩ | ⟨hq, -, hne⟩ <;>
      rcases h.back_current hi hq' hs' with ⟨rfl, rfl⟩ | ⟨hq', -, hne'⟩
    · rfl
    · exact absurd (by rw [← heq, h.input]) hne'
    · exact absurd (by rw [heq, h.input]) hne
    · exact hi.head j j' q q' hq hq' hs hs' heq
  · intro j q hq
    have hknown : ∃ w, s.ops.row q.input.operationID = some w := by
      rcases h.back hq with ⟨-, rfl⟩ | ⟨-, rfl⟩ | ⟨-, hq⟩
      · rw [h.input]; exact ⟨op, h.row⟩
      · exact ⟨op, h.row⟩
      · exact hi.known j q hq
    obtain ⟨w, hw⟩ := hknown
    obtain ⟨w', hw', -⟩ := h.toOpWrite.forth h.evolves hw
    exact ⟨w', hw'⟩
  · intro j q hq hs
    rcases h.back hq with ⟨-, rfl⟩ | ⟨-, rfl⟩ | ⟨-, hq⟩
    · rw [h.fresh] at hs; cases hs
    · obtain ⟨reason, hp⟩ := h.ended
      exact ⟨_, hp⟩
    · exact hi.superseded j q hq hs
  · intro j q c hash w hq hc hh hw
    -- the source and the old rounds save what was recorded before
    have hold : ∀ a q₀, s.rounds.row a = some q₀ → q₀.checkpoint = some c →
        q₀.input.operationID = q.input.operationID → w.txHash = some hash := by
      intro a q₀ hq₀ hc₀ hin
      rcases h.toOpWrite.back hw with ⟨hj, rfl⟩ | ⟨-, hw⟩
      · exact h.evolves.hash hash (hi.saved a q₀ c hash op hq₀ hc₀ hh (by rw [hin, hj]; exact h.row))
      · exact hi.saved a q₀ c hash w hq₀ hc₀ hh (by rw [hin]; exact hw)
    rcases h.back hq with ⟨-, rfl⟩ | ⟨-, rfl⟩ | ⟨-, hq⟩
    · rw [h.input, h.ops, if_pos rfl] at hw
      cases hw
      exact h.saved c hash hc hh
    · exact hold i r h.source hc rfl
    · exact hold j q hq hc rfl
  · intro j q c w hq hc hn hs hw
    rcases h.back_current hi hq hs with ⟨-, rfl⟩ | ⟨hq, -, hne⟩
    · rw [h.unsent c hc] at hn; cases hn
    · rw [h.ops, if_neg hne] at hw
      rw [h.others _ hne]
      exact hi.unsent j q c w hq hc hn hs hw

/-- What a handover means to a claim: the source is over and the successor has no claim yet. -/
theorem Handover.rely (h : Handover s t i r next op op') {k : Nat × Nat}
    (hk : Round.Issued s.rounds k) : Rely k s t := by
  obtain ⟨q, hq, -⟩ := hk
  have hcur : Round.Current t.rounds k → k.1 ≠ i ∧ t.rounds.row k.1 = s.rounds.row k.1 := by
    rintro ⟨w, hw, hheld⟩
    have hki : k.1 ≠ i := by
      intro heq
      have hne : i ≠ s.rounds.next := Nat.ne_of_lt (Table.lt_next h.source)
      rw [heq, h.rounds, if_neg hne, if_pos rfl] at hw
      cases hw
      obtain ⟨how, hp⟩ := h.ended
      have hhold := hheld.1
      simp only [hp] at hhold
      cases hhold
    exact ⟨hki, by rw [h.old_round hki hq, hq]⟩
  refine h.toOpWrite.rely h.evolves (fun hc => ⟨?_, (hcur hc).2⟩) (fun hc ho => ?_) fun hs hn => ?_
  · obtain ⟨w, hw, hheld⟩ := hc
    exact ⟨w, (hcur ⟨w, hw, hheld⟩).2.symm.trans hw, hheld⟩
  · rcases h.owner with howner | hnone
    · rw [howner] at ho; exact (hcur hc).1 (Option.some.inj ho).symm
    · rw [hnone] at ho; cases ho
  · obtain ⟨hsig, hzero⟩ := h.permit hn
    exact ⟨hsig.trans hs, hzero⟩

theorem Handover.keeps (hi : Inv s) (h : Handover s t i r next op op') : EnvKeeps s t := by
  refine ⟨h.inv hi, h.toOpWrite.guar h.evolves (fun j q hq hf => ?_) h.restarts, fun k hk => ⟨?_, h.rely hk⟩⟩
  · -- the source passed its inspection, so it was not frozen
    have hj : j ≠ i := by
      rintro rfl
      cases h.source.symm.trans hq
      exact Bool.false_ne_true (hf.2.symm.trans h.inspected)
    refine ⟨h.old_round hj hq, fun ho => ?_⟩
    rcases h.owner with howner | hnone
    · rw [howner] at ho; exact hj (Option.some.inj ho).symm
    · rw [hnone] at ho; cases ho
  · obtain ⟨q, hq, hle⟩ := hk
    by_cases hj : k.1 = i
    · rw [hj, h.source] at hq
      cases hq
      refine ⟨{ r with superseded := true }, ?_, hle⟩
      rw [hj, h.rounds, if_neg (Nat.ne_of_lt (Table.lt_next h.source)), if_pos rfl]
    · exact ⟨q, h.old_round hj hq, hle⟩

end Handovers

variable {s t : State} {u : Unit} {i : Nat} {oldID newID : Nat}

theorem transferTaskOwner_ok (h : (transferTaskOwner id oldID newID).Ok s u t) :
    ∃ op, s.ops.row id = some op ∧ op.taskID = some oldID ∧
      t = { s with ops := s.ops.modify id fun op => { op with taskID := some newID } } := by
  simp only [transferTaskOwner, validateTransferredTask, Tx.ok_bind, Tx.ok_read, Tx.ok_orFail,
    Tx.ok_require] at h
  obtain ⟨_, _, ⟨_, _, ⟨rfl, rfl⟩, _, _, ⟨_, rfl⟩, _, rfl⟩, r, _, hbind, h⟩ := h
  obtain ⟨rfl, -⟩ := taskForBinding_ok hbind
  obtain ⟨op, hop, hp, rfl⟩ := updateOperation_ok h
  exact ⟨op, hop, by simpa using hp, rfl⟩

theorem reopenUnsentForRetry_ok (h : (reopenUnsentForRetry id oldID newID).Ok s u t) :
    ∃ op, s.ops.row id = some op ∧ op.txHash = none ∧ op.signedTransaction = none ∧ t =
      State.noted { s with ops := s.ops.modify id fun op =>
        { op with status := .pending, taskID := some newID, broadcastAttempted := false } } id
        fun h => { h with signer := none, signings := 0 } := by
  simp only [reopenUnsentForRetry, validateTransferredTask, note, Tx.ok_bind, Tx.ok_read, Tx.ok_orFail,
    Tx.ok_require, Tx.ok_write] at h
  obtain ⟨_, _, ⟨_, _, ⟨rfl, rfl⟩, _, _, ⟨_, rfl⟩, _, rfl⟩, _, _, ⟨rfl, rfl⟩, _, _, ⟨_, rfl⟩, _, _, hbind,
    _, _, ⟨_, rfl⟩, _, _, ⟨_, rfl⟩, _, _, hupd, _, _, ⟨rfl, rfl⟩, rfl⟩ := h
  obtain ⟨rfl, -⟩ := taskForBinding_ok hbind
  obtain ⟨op, hop, hp, rfl⟩ := updateOperation_ok hupd
  simp only [Bool.and_eq_true, Option.isNone_iff_eq_none] at hp
  exact ⟨op, hop, hp.1.1.2, hp.1.2, rfl⟩

/-- The round is superseded and its successor inserted. -/
def State.handedOver (s : State) (i : Nat) (next : WalletRound) : State :=
  { s with rounds := (s.rounds.modify i fun r => { r with superseded := true }).insert next }

theorem retry_ok (h : (retry i).Ok s u t) : ∃ r next, Retried s i r next ∧
      ((r.checkpoint.any (·.broadcastNotSent) = true ∧ next.checkpoint = none ∧
          (reopenUnsentForRetry r.input.operationID i s.rounds.next).Ok (s.handedOver i next) () t) ∨
        (r.checkpoint.any (·.broadcastNotSent) = false ∧ next.checkpoint = r.checkpoint ∧
          (transferTaskOwner r.input.operationID i s.rounds.next).Ok (s.handedOver i next) () t)) := by
  simp only [retry, Tx.ok_bind, Tx.ok_read, Tx.ok_orFail, Tx.ok_require, Tx.ok_write] at h
  obtain ⟨_, _, ⟨rfl, rfl⟩, r, _, ⟨hr, rfl⟩, _, _, ⟨hfailed, rfl⟩, _, _, ⟨hins, rfl⟩, _, _, ⟨_, rfl⟩, _, _, rfl,
    h⟩ := h
  simp only [Bool.and_eq_true, Bool.not_eq_true'] at hfailed
  have hended : ∃ reason, r.phase = .ended (.failed, reason) := by
    cases hp : r.phase with
    | ended how =>
      obtain ⟨outcome, reason⟩ := how
      cases outcome with
      | failed => exact ⟨reason, rfl⟩
      | pending | running | completed | cancelled => simp [hp] at hfailed
    | waiting => simp [hp] at hfailed
    | held => simp [hp] at hfailed
  split at h
  · next hun =>
    exact ⟨r, Round.new r.input none true (some i), ⟨hr, hfailed.1, hended, hins, rfl, rfl⟩, .inl ⟨hun, rfl, h⟩⟩
  · next hun =>
    exact ⟨r, Round.new r.input r.checkpoint true (some i), ⟨hr, hfailed.1, hended, hins, rfl, rfl⟩,
      .inr ⟨by simpa using hun, rfl, h⟩⟩

variable {r next : WalletRound}

theorem retry_rounds (hr : s.rounds.row i = some r) (j : Nat) : (s.handedOver i next).rounds.row j =
      if j = s.rounds.next then some next
      else if j = i then some { r with superseded := true } else s.rounds.row j := by
  show (if j = s.rounds.next then _ else _) = _
  by_cases hj : j = s.rounds.next
  · rw [if_pos hj, if_pos hj]
  · rw [if_neg hj, if_neg hj, Table.row_modify]
    by_cases hji : j = i
    · rw [if_pos hji, if_pos hji, hji, hr]; rfl
    · rw [if_neg hji, if_neg hji]

theorem reopen_keeps (hi : Inv s) {c : Checkpoint} (hre : Retried s i r next) (hcheck : next.checkpoint = none)
    (hc : r.checkpoint = some c) (hn : c.broadcastNotSent = true)
    (h : (reopenUnsentForRetry r.input.operationID i s.rounds.next).Ok (s.handedOver i next) () t) :
    EnvKeeps s t := by
  obtain ⟨op, hrow, hhash, hbytes, ht⟩ := reopenUnsentForRetry_ok h
  have hun := hi.unsent i r c op hre.source hc hn hre.current hrow
  have hdis : Disproved s r.input.operationID := by
    obtain ⟨reason, hp⟩ := hre.ended
    exact ⟨i, r, c, reason, hre.source, rfl, hp, hc, hn, hun.sent⟩
  have hrec := hi.recorded _ op hrow
  have hother : ∀ j, j ≠ r.input.operationID → t.history j = s.history j := by
    intro j hj
    rw [ht]
    simp [State.noted, State.handedOver, hj]
  have hown : t.history r.input.operationID =
      { s.history r.input.operationID with signer := none, signings := 0 } := by
    rw [ht]
    simp [State.noted, State.handedOver]
  have hhand : Handover s t i r next op
      { op with status := .pending, taskID := some s.rounds.next, broadcastAttempted := false } := by
    refine ⟨hre, ⟨hrow, ?_, hother, by rw [hown], by rw [hown], by rw [hown]⟩, .inr hun.owner, ?_, rfl, ?_, ?_, ?_, ?_,
      ?_, ?_, ?_, .inr hdis⟩
    · rw [ht]; exact Table.row_modify_of hrow _
    · rw [ht]; exact retry_rounds hre.source
    · intro hzero
      rw [hun.called] at hzero
      cases hzero
    · rw [hown]
      exact ⟨Nat.zero_le _, fun _ => hun.sent, (hi.single _).same⟩
    · refine ⟨⟨rfl, rfl, rfl⟩, fun _ hh => hh, fun _ hh => hh, fun hfin => ?_, fun hpend _ => ?_,
        fun _ => .inr hdis⟩
      · rw [hun.status] at hfin
        rcases hfin with hfin | hfin <;> cases hfin
      · rw [hun.status] at hpend
        cases hpend
    · refine ⟨fun _ => ⟨hhash, hbytes, by simp⟩, fun hs => ?_, fun hs => ?_⟩
      · cases hs
      · rcases hs with hs | hs | hs <;> cases hs
    · rw [hown]
      refine ⟨fun _ => ⟨rfl, rfl⟩, fun hash hh => ?_, fun hs => ?_⟩
      · have hh' : op.txHash = some hash := hh
        rw [hhash] at hh'
        cases hh'
      · cases hs
    · intro c' hash hc'
      rw [hcheck] at hc'
      cases hc'
    · intro c' hc'
      rw [hcheck] at hc'
      cases hc'
  exact hhand.keeps hi

theorem transfer_keeps (hi : Inv s) (hre : Retried s i r next) (hcheck : next.checkpoint = r.checkpoint)
    (hun : r.checkpoint.any (·.broadcastNotSent) = false)
    (h : (transferTaskOwner r.input.operationID i s.rounds.next).Ok (s.handedOver i next) () t) : EnvKeeps s t := by
  obtain ⟨op, hrow, howner, ht⟩ := transferTaskOwner_ok h
  have hshape := hi.shape _ op hrow
  have hrec := hi.recorded _ op hrow
  have hhist : t.history = s.history := by rw [ht]; rfl
  -- an owned operation is not over
  have hopen : ¬ (op.status = .confirmed ∨ op.status = .failed ∨ op.status = .unknown) := by
    intro hfin
    have hnone := hshape.terminal hfin
    rw [howner] at hnone
    cases hnone
  have hhand : Handover s t i r next op { op with taskID := some s.rounds.next } := by
    refine ⟨hre, ⟨hrow, ?_, fun j _ => by rw [hhist], by rw [hhist], by rw [hhist], by rw [hhist]⟩, .inl howner, ?_, rfl,
      ?_, ?_, ?_, ?_, ?_, ?_, ?_, .inl (by rw [hhist])⟩
    · rw [ht]; exact Table.row_modify_of hrow _
    · rw [ht]; exact retry_rounds hre.source
    · intro hzero; rw [hhist]; exact ⟨rfl, hzero⟩
    · rw [hhist]; exact hi.single _
    · exact ⟨⟨rfl, rfl, rfl⟩, fun _ hh => hh, fun _ hh => hh, fun hfin => absurd (by tauto) hopen,
        fun hpend _ => .stays hpend, .inl⟩
    · exact ⟨fun hp => ⟨(hshape.pending hp).1, (hshape.pending hp).2.1, by simp⟩,
        fun hs => ⟨(hshape.submitted hs).1, by simp⟩, fun hfin => absurd hfin hopen⟩
    · rw [hhist]; exact ⟨hrec.idle, hrec.hash, hrec.confirmed⟩
    · intro c hash hc hh
      rw [hcheck] at hc
      exact hi.saved i r c hash op hre.source hc hh hrow
    · intro c hc
      rw [hcheck] at hc
      rw [hc] at hun
      simpa using hun
  exact hhand.keeps hi

theorem retry_keeps (hi : Inv s) (h : (retry i).Ok s u t) : EnvKeeps s t := by
  obtain ⟨r, next, hre, ⟨hun, hcheck, hop⟩ | ⟨hun, hcheck, hop⟩⟩ := retry_ok h
  · obtain ⟨c, hc, hn⟩ := (Option.any_eq_true ..).mp hun
    exact reopen_keeps hi hre hcheck hc hn hop
  · exact transfer_keeps hi hre hcheck hun hop

end SynapS3.Wallet
