import SynapS3.Wallet.Requests

/-!
# `Wallet.Settlements` — calls and settlements keep the contract

What a claim knows while it works is of two kinds. Facts about rows it owns hold as long as the claim does
(`Claimed`, `Called`), because every write of the operation names the owning round and checks its claim. Its
permission to make the payment call (`Permit`) and the recorded transaction (`Paid`) hold for good.
-/

namespace SynapS3.Wallet

open Tasks (Handled HandlerM executeClaim outside withCheckpointedEffect SameWork Silent silent_pure)

/-! ## Calls of the outside -/

section Calls

variable {k : Nat × Nat} {s : State} {id : Nat}

@[simp] theorem noted_ops (f : History → History) : (s.noted id f).ops = s.ops := rfl

theorem noted_history (f : History → History) : (s.noted id f).history id = f (s.history id) := by
  simp [State.noted]

theorem noted_other (f : History → History) {j : Nat} (hj : j ≠ id) : (s.noted id f).history j = s.history j := by
  simp [State.noted, hj]

/-- What a call may note in the record of an operation. -/
structure Notes (k : Nat × Nat) (op : WalletOperation) (h h' : History) : Prop where
  single : Single h'
  recorded : Recorded h' op
  unsent : Unsent h op → Unsent h' op
  receipts : ∀ hash ∈ h.receipts, hash ∈ h'.receipts
  approved : h.approved = true → h'.approved = true
  permit : ∀ k', k' ≠ k → h.signer = some k' → h.signings = 0 → h'.signer = some k' ∧ h'.signings = 0
  view : ∀ k', k' ≠ k → op.txHash = none → h.signer = some k' → h.signings = 1 →
    h'.signer = some k' ∧ h'.signings = 1 ∧ h'.sent = h.sent
  sent : ∀ hash ∈ h'.sent, hash ∈ h.sent ∨ (h.signer ≠ none ∧ h.signings = 0 ∧ h'.signings = 1) ∨
    op.txHash = some hash
  signings : h.signings ≤ h'.signings

variable {op : WalletOperation}

theorem noted_keeps (hi : Inv s) (hop : s.ops.row id = some op) {f : History → History}
    (h : Notes k op (s.history id) (f (s.history id))) : contract.Keeps k s (s.noted id f) := by
  have hrow : ∀ q, s.ops.row id = some q → q = op := fun q hq => Option.some.inj (hq.symm.trans hop)
  refine ⟨⟨?_, ?_, hi.shape, ?_, hi.request, hi.owner, hi.head, hi.known, hi.superseded, hi.saved, ?_⟩, ?_,
    fun _ hk => hk, fun k' hne _ => ?_⟩
  · intro j hj
    have hne : j ≠ id := by
      intro heq
      rw [heq, noted_ops, hop] at hj
      cases hj
    rw [noted_other f hne]
    exact hi.fresh j hj
  · intro j
    by_cases hj : j = id
    · rw [hj, noted_history]; exact h.single
    · rw [noted_other f hj]; exact hi.single j
  · intro j q hq
    by_cases hj : j = id
    · rw [hj] at hq ⊢
      rw [noted_history, hrow q hq]
      exact h.recorded
    · rw [noted_other f hj]; exact hi.recorded j q hq
  · intro t r c q hr hc hn hs hq
    have hold := hi.unsent t r c q hr hc hn hs hq
    by_cases hj : r.input.operationID = id
    · rw [hj] at hq hold ⊢
      rw [hrow q hq] at hold ⊢
      rw [noted_history]
      exact h.unsent hold
    · rw [noted_other f hj]; exact hold
  · refine ⟨fun j q hq => ⟨q, hq, .refl _ _ j q⟩, fun j hash hh => ?_, fun _ _ hr _ => ⟨hr, fun _ _ hop _ => hop⟩,
      fun j => .inl ?_⟩
    rotate_right
    · by_cases hj : j = id
      · rw [hj, noted_history]; exact h.signings
      · rw [noted_other f hj]
    by_cases hj : j = id
    · rw [hj] at hh ⊢
      rw [noted_history] at hh ⊢
      rcases h.sent hash hh with hold | hsign | hrec
      · exact .inl hold
      · exact .inr (.inl hsign)
      · exact .inr (.inr ⟨op, hop, hrec⟩)
    · rw [noted_other f hj] at hh; exact .inl hh
  · refine ⟨fun j q hq => ⟨q, hq, fun _ hh => hh⟩, fun j hash hh => ?_, fun j hh => ?_, fun j hs hn => ?_,
      fun hc => hc, fun _ => rfl, fun _ j q hq _ => hq, fun _ j q hq _ hnone hs hn => ?_⟩
    · by_cases hj : j = id
      · rw [hj] at hh ⊢; rw [noted_history]; exact h.receipts hash hh
      · rw [noted_other f hj]; exact hh
    · by_cases hj : j = id
      · rw [hj] at hh ⊢; rw [noted_history]; exact h.approved hh
      · rw [noted_other f hj]; exact hh
    · by_cases hj : j = id
      · rw [hj] at hs hn ⊢; rw [noted_history]; exact h.permit k' hne hs hn
      · rw [noted_other f hj]; exact ⟨hs, hn⟩
    · by_cases hj : j = id
      · rw [hj] at hq hs hn ⊢
        rw [noted_history]
        rw [hrow q hq] at hnone
        exact h.view k' hne hnone hs hn
      · rw [noted_other f hj]; exact ⟨hs, hn, rfl⟩

/-- The claim `k` may make the payment call, and has not made it. -/
def Permit (k : Nat × Nat) (id : Nat) (s : State) : Prop :=
  (s.history id).signer = some k ∧ (s.history id).signings = 0

theorem Permit.row (hi : Inv s) (h : Permit k id s) : ∃ op, s.ops.row id = some op := by
  cases hop : s.ops.row id with
  | some op => exact ⟨op, rfl⟩
  | none =>
    have hs := h.1
    rw [hi.fresh id hop] at hs
    cases hs

theorem pay_keeps (hi : Inv s) (h : Permit k id s) (sent : Option TxHash) (inPlace : Bool) :
    contract.Keeps k s (s.noted id fun h => { h with
      signings := h.signings + 1, sent := h.sent ++ sent.toList, approved := h.approved || inPlace }) := by
  obtain ⟨op, hop⟩ := h.row hi
  obtain ⟨hsigner, hzero⟩ := h
  have hnone : (s.history id).sent = [] := (hi.single id).unsigned hzero
  have hrec := hi.recorded id op hop
  have hhash : op.txHash = none := by
    cases hh : op.txHash with
    | none => rfl
    | some hash =>
      have hone := (hrec.hash hash hh).1
      rw [hzero] at hone
      cases hone
  refine noted_keeps hi hop ⟨⟨?_, ?_, ?_⟩, ⟨?_, ?_, ?_⟩, ?_, fun _ hh => hh, ?_, ?_, ?_, ?_, Nat.le_succ _⟩
  · show (s.history id).signings + 1 ≤ 1
    omega
  · intro hs
    exact absurd hs (Nat.succ_ne_zero _)
  · intro a ha b hb
    simp only [hnone, List.nil_append, Option.mem_toList] at ha hb
    exact Option.some.inj (ha.symm.trans hb)
  · intro hidle
    have hs := (hrec.idle hidle).1
    rw [hsigner] at hs
    cases hs
  · intro hash hh
    rw [hhash] at hh
    cases hh
  · intro hconf
    rcases hrec.confirmed hconf with ⟨hash, hh, -⟩ | ⟨hh, happ⟩
    · rw [hhash] at hh; cases hh
    · exact .inr ⟨hh, by simp [happ]⟩
  · intro hun
    have hone := hun.called
    rw [hzero] at hone
    cases hone
  · intro happ
    simp [happ]
  · intro k' hne hs
    rw [hsigner] at hs
    exact absurd (Option.some.inj hs).symm hne
  · intro k' hne _ hs
    rw [hsigner] at hs
    exact absurd (Option.some.inj hs).symm hne
  · intro hash _
    refine .inr (.inl ⟨by rw [hsigner]; simp, hzero, ?_⟩)
    show (s.history id).signings + 1 = 1
    omega

/-- The transaction of the operation is recorded. -/
def Paid (id : Nat) (hash : TxHash) (s : State) : Prop :=
  ∃ op, s.ops.row id = some op ∧ op.txHash = some hash

theorem send_keeps (hi : Inv s) {hash : TxHash} (h : Paid id hash s) :
    contract.Keeps k s (s.noted id fun h => { h with sent := h.sent ++ [hash] }) := by
  obtain ⟨op, hop, hhash⟩ := h
  have hrec := hi.recorded id op hop
  obtain ⟨hone, hsame⟩ := hrec.hash hash hhash
  have hall : ∀ a ∈ (s.history id).sent ++ [hash], a = hash := by
    intro a ha
    rcases List.mem_append.mp ha with ha | ha
    · exact hsame a ha
    · exact List.mem_singleton.mp ha
  refine noted_keeps hi hop ⟨⟨(hi.single id).once, ?_, ?_⟩, ⟨hrec.idle, ?_, hrec.confirmed⟩, ?_, fun _ hh => hh,
    fun hh => hh, ?_, ?_, ?_, Nat.le_refl _⟩
  · intro hs
    have hs' : (s.history id).signings = 0 := hs
    rw [hone] at hs'
    cases hs'
  · intro a ha b hb
    rw [hall a ha, hall b hb]
  · intro hash' hh
    rw [hhash] at hh
    cases hh
    exact ⟨hone, hall⟩
  · intro hun
    have hnone := hun.hash
    rw [hhash] at hnone
    cases hnone
  · intro k' _ hs hz
    rw [hone] at hz
    cases hz
  · intro k' _ hnone
    rw [hhash] at hnone
    cases hnone
  · intro a ha
    right; right
    rw [hall a ha]
    exact hhash

theorem receipt_keeps (hi : Inv s) (hop : s.ops.row id = some op) (hash : TxHash) :
    contract.Keeps k s (s.noted id fun h => { h with receipts := h.receipts ++ [hash] }) := by
  have hrec := hi.recorded id op hop
  have hs := hi.single id
  refine noted_keeps hi hop ⟨⟨hs.once, hs.unsigned, hs.same⟩, ⟨hrec.idle, hrec.hash, ?_⟩, ?_, ?_, fun hh => hh,
    fun _ _ hs hn => ⟨hs, hn⟩, fun _ _ _ hs hn => ⟨hs, hn, rfl⟩, fun _ hh => .inl hh, Nat.le_refl _⟩
  · intro hconf
    rcases hrec.confirmed hconf with ⟨hash', hh, hmem⟩ | hplace
    · exact .inl ⟨hash', hh, List.mem_append_left _ hmem⟩
    · exact .inr hplace
  · intro hun
    exact ⟨hun.status, hun.owner, hun.attempted, hun.hash, hun.called, hun.sent⟩
  · intro hash' hh
    exact List.mem_append_left _ hh

end Calls

/-! ## Settlements -/

section Settlements

variable {k : Nat × Nat} {s t u m : State} {id : Nat} {op op' : WalletOperation} {q q' : WalletRound}

theorem ownRound (hi : Inv t) (hq : t.rounds.row k.1 = some q) (hh : q.Holds k.2)
    (hrounds : ∀ j, u.rounds.row j = if j = k.1 then some q' else t.rounds.row j)
    (hin : q'.input = q.input) (htok : q'.token = q.token) (hsup : q'.superseded = q.superseded) :
    OwnRound k t u q q' :=
  ⟨⟨⟨hq, hrounds, hin, hsup⟩, hh, htok⟩, hi.open_current hq hh.isOpen⟩

theorem quiet_keeps (hi : Inv t) (hq : t.rounds.row k.1 = some q) (hh : q.Holds k.2)
    {f : WalletRound → WalletRound} (hf : SameWork q (f q)) :
    contract.Keeps k t { t with rounds := t.rounds.modify k.1 f } := by
  have hown : OwnRound k t { t with rounds := t.rounds.modify k.1 f } q (f q) :=
    ownRound hi hq hh (Table.row_modify_of hq f) hf.input hf.token hf.superseded
  refine hown.keeps hi rfl rfl (fun c hash w hc hhash hw => ?_) fun c w hc hn hw => ?_
  · exact hi.saved k.1 q c hash w hq (by rw [← hf.checkpoint]; exact hc) hhash hw
  · exact hi.unsent k.1 q c w hq (by rw [← hf.checkpoint]; exact hc) hn hown.current hw

theorem legal_same (hi : Inv t) (hq : t.rounds.row k.1 = some q)
    (hop : t.ops.row id = some op) (howner : op.taskID = some k.1) (hcheck : q'.checkpoint = q.checkpoint)
    (hev : Evolves t u id op op') (hshape : Shape op') (hrec : Recorded (u.history id) op')
    (hown : op'.taskID = op.taskID ∨ op'.taskID = none) : Legal t u id op op' q' := by
  obtain ⟨w, hw, hin, hcur⟩ := hi.owner id op k.1 hop howner
  rw [hq] at hw
  cases hw
  refine ⟨hev, hshape, hrec, hown, fun c hash hc hhash => ?_, fun c hc hn => ?_⟩
  · rw [hcheck] at hc
    exact hev.hash hash (hi.saved k.1 q c hash op hq hc hhash (by rw [hin]; exact hop))
  · -- the operation of an unsent attempt has no owner
    rw [hcheck] at hc
    have hun := hi.unsent k.1 q c op hq hc hn hcur (by rw [hin]; exact hop)
    rw [hun.owner] at howner
    cases howner

theorem ownWrite (h : OwnRound k t u q q') (hop : t.ops.row id = some op) (howner : op.taskID = some k.1)
    (hops : ∀ j, u.ops.row j = if j = id then some op' else t.ops.row j) (hhist : u.history = t.history) :
    OwnWrite k t u id op op' q q' :=
  ⟨h, ⟨hop, hops, fun j _ => by rw [hhist], by rw [hhist], by rw [hhist], by rw [hhist]⟩, howner, by rw [hhist],
    .inl (by rw [hhist])⟩

theorem closing_keeps (hi : Inv t) (hop : t.ops.row id = some op) (howner : op.taskID = some k.1)
    (hq : t.rounds.row k.1 = some q) (hh : q.Holds k.2) {g : WalletRound → WalletRound}
    (hg : SameWork q (g q)) {f : WalletOperation → WalletOperation}
    (hev : ∀ u, u.history = t.history → Evolves t u id op (f op))
    (hshape : Shape (f op)) (hrec : Recorded (t.history id) (f op))
    (hown : (f op).taskID = op.taskID ∨ (f op).taskID = none) :
    contract.Keeps k t { t with ops := t.ops.modify id f, rounds := t.rounds.modify k.1 g } := by
  have hround : OwnRound k t { t with ops := t.ops.modify id f, rounds := t.rounds.modify k.1 g } q (g q) :=
    ownRound hi hq hh (Table.row_modify_of hq g) hg.input hg.token hg.superseded
  have hwrite := ownWrite hround hop howner (Table.row_modify_of hop f) rfl
  exact hwrite.keeps hi (legal_same hi hq hop howner hg.checkpoint (hev _ rfl) hshape hrec hown)

end Settlements

/-- What the handler owes for a result, which is settled in one transaction. -/
abbrev Ends (x : Execution) (r : Handled State) (s : State) : Prop := Tasks.Ends rounds contract x.key r s

theorem silent_confirmationError (id taskID : Nat) : Silent (recordConfirmationError id taskID) := by
  intro s t h
  obtain ⟨op, -, -, rfl⟩ := updateOperation_ok h
  rw [Table.modify_self]

section Ends

variable {x : Execution} {s : State} {r : Handled State}

theorem settles_pure : Tasks.Settles rounds contract x.key (pure ()) s := by
  intro t m q g _ hi _ hx hq hh hg
  have heq := (Tx.ok_pure.mp hx).2
  subst heq
  exact quiet_keeps hi hq hh hg

section

variable (hretry : Silent r.onRetry) (hex : Silent r.onExhausted) (hcont : Silent r.contentionSettlement)
include hretry hex hcont

/-- **The end of a handler**: only the settlement of its result has to be looked at. -/
theorem ends_of
    (hset : ∀ t m q (g : WalletRound → WalletRound), Rely x.key s t → Inv t → Round.Current t.rounds x.key →
      r.settlement.Ok t () m → m.rounds.row x.id = some q → q.Holds x.claimGeneration → SameWork q (g q) →
      contract.Keeps x.key t { m with rounds := m.rounds.modify x.id g }) : Ends x r s :=
  Tasks.ends_of settles_pure hretry hex hset (hcont.settles settles_pure)

theorem ends_quiet (hset : Silent r.settlement) : Ends x r s :=
  Tasks.ends_quiet settles_pure hretry hex hset hcont

theorem ends_write {id : Nat} {p : WalletOperation → Bool} {f : WalletOperation → WalletOperation}
    (hset : r.settlement = updateOperation id .notFound p f)
    (hlegal : ∀ t op, Rely x.key s t → Inv t → Round.Current t.rounds x.key → t.ops.row id = some op →
      p op = true → op.taskID = some x.id ∧ (∀ u, u.history = t.history → Evolves t u id op (f op)) ∧ Shape (f op) ∧
        Recorded (t.history id) (f op) ∧ ((f op).taskID = op.taskID ∨ (f op).taskID = none)) : Ends x r s := by
  refine ends_of hretry hex hcont ?_
  intro t m q g hr hi hcur hran hq hheld hwork
  rw [hset] at hran
  obtain ⟨op, hop, hp, rfl⟩ := updateOperation_ok hran
  obtain ⟨howner, hev, hshape, hrec, hown⟩ := hlegal t op hr hi hcur hop hp
  exact closing_keeps hi hop howner hq hheld hwork hev hshape hrec hown

end

end Ends

/-! ## What a claim knows -/

section Knowledge

variable {x : Execution} {s t u : State} {id : Nat} {op : WalletOperation} {hash : TxHash}

theorem Paid.stable {k : Nat × Nat} (h : Paid id hash s) (hr : Rely k s t) : Paid id hash t := by
  obtain ⟨op, hop, hhash⟩ := h
  obtain ⟨op', hop', hkeep⟩ := hr.hash id op hop
  exact ⟨op', hop', hkeep hash hhash⟩

theorem Paid.not_pending (hi : Inv s) (h : Paid id hash s) (hop : s.ops.row id = some op) :
    op.txHash = some hash ∧ op.status ≠ .pending := by
  obtain ⟨op', hop', hhash⟩ := h
  rw [hop] at hop'
  cases hop'
  refine ⟨hhash, fun hp => ?_⟩
  rw [((hi.shape id op hop).pending hp).1] at hhash
  cases hhash

/-- While the claim holds, its row in the round table is the one it was started with. -/
def Claimed (x : Execution) (s : State) : Prop :=
  Round.Current s.rounds x.key → ∃ r, s.rounds.row x.id = some r ∧ r.input = x.input ∧ r.checkpoint = x.checkpoint

theorem Claimed.stable (h : Claimed x s) (hr : Rely x.key s t) : Claimed x t := by
  intro hc
  obtain ⟨r, hrow, hin, hcheck⟩ := h (hr.current hc)
  exact ⟨r, by rw [← hrow]; exact hr.round hc, hin, hcheck⟩

/-- While the claim holds, its round is for the operation it was started for. -/
def Bound (x : Execution) (s : State) : Prop :=
  Round.Current s.rounds x.key → ∃ r, s.rounds.row x.id = some r ∧ r.input = x.input

theorem Claimed.bound (h : Claimed x s) : Bound x s := by
  intro hc
  obtain ⟨r, hrow, hin, -⟩ := h hc
  exact ⟨r, hrow, hin⟩

theorem Bound.stable (h : Bound x s) (hr : Rely x.key s t) : Bound x t := by
  intro hc
  obtain ⟨r, hrow, hin⟩ := h (hr.current hc)
  exact ⟨r, by rw [← hrow]; exact hr.round hc, hin⟩

theorem Bound.save (h : Bound x s) {q : WalletRound} (hq : s.rounds.row x.id = some q)
    (hh : q.Holds x.claimGeneration) {c : Checkpoint} (ht : t.rounds = s.rounds.modify x.id (Round.save c)) :
    Bound x t := by
  intro _
  obtain ⟨r, hrow, hin⟩ := h ⟨q, hq, hh⟩
  exact ⟨r.save c, by rw [ht]; exact Table.row_modify_at hrow _, hin⟩

theorem Claimed.paid (hi : Inv t) (h : Claimed x t) (hc : Round.Current t.rounds x.key)
    (hhash : x.checkpoint.bind (·.transactionHash) = some hash) : Paid x.input.operationID hash t := by
  obtain ⟨r, hrow, hin, hcheck⟩ := h hc
  obtain ⟨c, hxc, hch⟩ := Option.bind_eq_some_iff.mp hhash
  obtain ⟨op, hop⟩ := hi.known x.id r hrow
  refine ⟨op, by rw [← hin]; exact hop, ?_⟩
  exact hi.saved x.id r c hash op hrow (by rw [hcheck]; exact hxc) hch hop

/-- What the claim knows after its payment call: while it holds, the operation is as it was admitted, and
    what was sent is what its call sent. -/
structure Called (x : Execution) (sent : Option TxHash) (s : State) (op : WalletOperation) : Prop where
  row : s.ops.row x.input.operationID = some op
  owner : op.taskID = some x.id
  status : op.status = .pending
  attempted : op.broadcastAttempted = true
  signer : (s.history x.input.operationID).signer = some x.key
  signings : (s.history x.input.operationID).signings = 1
  sent : (s.history x.input.operationID).sent = sent.toList

theorem Called.stable {sent : Option TxHash} (hi : Inv s) (h : Called x sent s op) (hr : Rely x.key s t)
    (hc : Round.Current t.rounds x.key) : Called x sent t op := by
  have hnone := ((hi.shape _ op h.row).pending h.status).1
  obtain ⟨hsigner, hsignings, hsent⟩ := hr.sent hc _ op h.row h.owner hnone h.signer h.signings
  exact ⟨hr.row hc _ op h.row h.owner, h.owner, h.status, h.attempted, hsigner, hsignings, by rw [hsent, h.sent]⟩

end Knowledge

/-! ## The settlements of the handler -/

section Cases

variable {x : Execution} {s : State} {id : Nat} {hash : TxHash}

theorem ends_nothing {r : Handled State} (hretry : Silent r.onRetry) (hex : Silent r.onExhausted)
    (hcont : r.contentionSettlement = pure ()) (hset : r.settlement = pure ()) : Ends x r s :=
  ends_quiet hretry hex (hcont ▸ silent_pure) (hset ▸ silent_pure)

theorem ends_fail (reason : String) : Ends x (.fail reason (pure ())) s :=
  ends_nothing silent_pure silent_pure rfl rfl

theorem ends_observation (submission : WalletSubmission) : Ends x (walletObservation x id submission (pure ())) s :=
  ends_nothing silent_pure (silent_confirmationError _ _) rfl rfl

theorem ends_retry (status : WalletOperationStatus) (reason : String) :
    Ends x (walletRetry x id status reason) s := by
  unfold walletRetry
  split
  · exact ends_nothing silent_pure silent_pure rfl rfl
  · exact ends_nothing (silent_confirmationError _ _) (silent_confirmationError _ _) rfl rfl

theorem shape_closed {op : WalletOperation} (hs : op.status = .confirmed ∨ op.status = .failed ∨ op.status = .unknown)
    (ho : op.taskID = none) : Shape op := by
  refine ⟨fun h => ?_, fun h => ?_, fun _ => ho⟩
  all_goals rw [h] at hs; simp at hs

variable {reason : String}

theorem ends_lost {status : WalletOperationStatus} (hopen : ¬(status = .confirmed ∨ status = .unknown)) :
    Ends x (.fail reason (updateOperation id .notFound
      (fun op => op.taskID == some x.id && op.status == status && op.broadcastAttempted)
      fun op => { op with status := .unknown, taskID := none })) s := by
  refine ends_write silent_pure silent_pure silent_pure rfl ?_
  intro t op _ hi _ hop hp
  simp only [Bool.and_eq_true, beq_iff_eq] at hp
  obtain ⟨⟨howner, hstatus⟩, -⟩ := hp
  have hrec := hi.recorded id op hop
  refine ⟨howner, fun u _ => ⟨⟨rfl, rfl, rfl⟩, fun _ h => h, fun _ h => h, fun hfinal => ?_, fun _ _ => .unknown rfl,
      .inl⟩,
    shape_closed (.inr (.inr rfl)) rfl, ⟨hrec.idle, hrec.hash, nofun⟩, .inr rfl⟩
  rw [hstatus] at hfinal
  exact absurd hfinal hopen

theorem ends_unknown : Ends x (unknownWalletOperation x id) s := ends_lost (by simp)

theorem ends_displaced (reason : String) : Ends x (.fail reason (markSubmissionUnknown id x.id)) s :=
  ends_lost (by simp)

theorem ends_failed
    (hsafe : ∀ t op, Rely x.key s t → Inv t → Round.Current t.rounds x.key → t.ops.row id = some op →
      op.status = .pending → op.broadcastAttempted = false) :
    Ends x (.fail reason (markFailed id x.id)) s := by
  refine ends_write silent_pure silent_pure silent_pure rfl ?_
  intro t op hr hi hc hop hp
  simp only [Bool.and_eq_true, Bool.or_eq_true, beq_iff_eq] at hp
  obtain ⟨howner, hopen⟩ := hp
  have hrec := hi.recorded id op hop
  refine ⟨howner, fun u _ => ⟨⟨rfl, rfl, rfl⟩, fun _ h => h, fun _ h => h, ?_, ?_, .inl⟩,
    shape_closed (.inr (.inl rfl)) rfl, ⟨hrec.idle, hrec.hash, ?_⟩, .inr rfl⟩
  · intro hfinal
    rcases hopen with h | h <;> rw [h] at hfinal <;> simp at hfinal
  · intro hpending hattempted
    rw [hsafe t op hr hi hc hop hpending] at hattempted
    cases hattempted
  · intro hconf
    cases hconf

theorem ends_failed_paid (h : Paid id hash s) : Ends x (.fail reason (markFailed id x.id)) s :=
  ends_failed fun _ _ hr hi _ hop hp => absurd hp ((h.stable hr).not_pending hi hop).2

theorem ends_confirmed (h : Paid id hash s) (hreceipt : hash ∈ (s.history id).receipts) :
    Ends x (.complete (markConfirmed id x.id hash)) s := by
  refine ends_write silent_pure silent_pure silent_pure rfl ?_
  intro t op hr hi _ hop hp
  simp only [Bool.and_eq_true, Bool.or_eq_true, beq_iff_eq] at hp
  obtain ⟨⟨howner, hopen⟩, -⟩ := hp
  obtain ⟨hhash, hpend⟩ := (h.stable hr).not_pending hi hop
  have hrec := hi.recorded id op hop
  refine ⟨howner, fun u _ => ⟨⟨rfl, rfl, rfl⟩, ?_, fun _ h => h, ?_, fun hp => absurd hp hpend, .inl⟩,
    shape_closed (.inl rfl) rfl, ⟨hrec.idle, ?_, fun _ => .inl ⟨hash, rfl, hr.receipts id hash hreceipt⟩⟩, .inr rfl⟩
  · intro hash' hh
    rw [hhash] at hh
    exact hh
  · intro hfinal
    rcases hopen with h | h <;> rw [h] at hfinal <;> simp at hfinal
  · intro hash' hh
    cases hh
    exact hrec.hash hash hhash

theorem ends_inPlace (happroved : (s.history id).approved = true) :
    Ends x (.complete (markConfirmedWithoutTransaction id x.id)) s := by
  refine ends_write silent_pure silent_pure silent_pure rfl ?_
  intro t op hr hi _ hop hp
  simp only [Bool.and_eq_true, beq_iff_eq] at hp
  obtain ⟨howner, hpending⟩ := hp
  obtain ⟨hnone, hbytes, -⟩ := (hi.shape id op hop).pending hpending
  have hrec := hi.recorded id op hop
  have happ := hr.approved id happroved
  refine ⟨howner, fun u hu => ⟨⟨rfl, rfl, rfl⟩, ?_, fun _ h => h, ?_,
      fun _ _ => .inPlace rfl rfl (by rw [hu]; exact happ), .inl⟩,
    shape_closed (.inl rfl) rfl, ⟨hrec.idle, ?_, fun _ => .inr ⟨rfl, happ⟩⟩, .inr rfl⟩
  · intro hash' hh
    rw [hnone] at hh
    cases hh
  · intro hfinal
    rw [hpending] at hfinal
    simp at hfinal
  · intro hash' hh
    cases hh

end Cases

/-! ## Recording the submission, and proving that nothing was sent -/

section Evidence

variable {x : Execution} {s t u : State} {op : WalletOperation} {hash : TxHash} {q : WalletRound}

/-- The transaction of operation `id` is known to be `hash`, and nothing else was sent. -/
def Known (id : Nat) (hash : TxHash) (s : State) : Prop :=
  (s.history id).signings = 1 ∧ ∀ sent ∈ (s.history id).sent, sent = hash

variable {id : Nat} {signed : Option SignedTx} {c : Checkpoint}

theorem Paid.known (hi : Inv s) (h : Paid id hash s) : Known id hash s := by
  obtain ⟨op, hop, hhash⟩ := h
  exact (hi.recorded id op hop).hash hash hhash

theorem Called.known {sent : Option TxHash} (h : Called x sent s op) (hsent : sent.all (· == hash) = true) :
    Known x.input.operationID hash s := by
  refine ⟨h.signings, fun a ha => ?_⟩
  rw [h.sent, Option.mem_toList] at ha
  simpa [ha] using hsent

theorem recordSubmission_ok {taskID : Nat} (h : (recordSubmission id taskID hash signed).Ok s () t) :
    ∃ op, s.ops.row id = some op ∧ op.taskID = some taskID ∧ (op.status = .pending ∨ op.status = .submitted) ∧
      (op.txHash = none ∨ op.txHash = some hash) ∧
      t = { s with ops := s.ops.modify id fun op => op.withSubmission hash signed } := by
  obtain ⟨op, hop, hp, rfl⟩ := updateOperation_ok h
  simp only [Bool.and_eq_true, Bool.or_eq_true, beq_iff_eq, Option.isNone_iff_eq_none] at hp
  exact ⟨op, hop, hp.1.1.1.1, hp.1.1.1.2, hp.1.1.2, rfl⟩

theorem record_keeps (hi : Inv t) (hknown : Known id hash t) (hop : t.ops.row id = some op)
    (howner : op.taskID = some x.id) (hopen : op.status = .pending ∨ op.status = .submitted)
    (hhash : op.txHash = none ∨ op.txHash = some hash) (hq : t.rounds.row x.id = some q)
    (hh : q.Holds x.claimGeneration) (hc : c.transactionHash = some hash) (hn : c.broadcastNotSent = false)
    {g : WalletRound → WalletRound} (hg : SameWork (q.save c) (g q)) :
    contract.Keeps x.key t { t with
      ops := t.ops.modify id fun op => op.withSubmission hash signed, rounds := t.rounds.modify x.id g } := by
  have hcheck : (g q).checkpoint = some c := hg.checkpoint
  refine OwnWrite.keeps hi (ownWrite (ownRound hi hq hh (Table.row_modify_of hq g) hg.input hg.token
    hg.superseded) hop howner (Table.row_modify_of hop _) rfl) ⟨⟨⟨rfl, rfl, rfl⟩, ?_, ?_, ?_,
      fun _ _ => .recorded rfl (by simp [WalletOperation.withSubmission]), .inl⟩, ⟨?_, ?_, ?_⟩,
      ⟨(hi.recorded id op hop).idle, ?_, ?_⟩, .inl rfl, ?_, ?_⟩
  · intro hash' hh'
    rcases hhash with hnone | hsome
    · rw [hnone] at hh'; cases hh'
    · rw [← hh', hsome]; rfl
  · intro tx htx
    simp [WalletOperation.withSubmission, htx]
  · intro hfinal
    rcases hopen with h | h <;> rw [h] at hfinal <;> simp at hfinal
  · intro h; cases h
  · intro _
    exact ⟨by simp [WalletOperation.withSubmission], by simp [WalletOperation.withSubmission, howner]⟩
  · intro h
    rcases h with h | h | h <;> cases h
  · intro hash' hh'
    cases hh'
    exact hknown
  · intro h; cases h
  · intro c' hash' hc' hh'
    rw [hcheck] at hc'
    cases hc'
    rw [hc] at hh'
    exact hh'
  · intro c' hc' hn'
    rw [hcheck] at hc'
    cases hc'
    rw [hn] at hn'
    cases hn'

theorem checkpoint_keeps (hi : Inv t) (hknown : Round.Current t.rounds x.key → Known id hash t)
    (hc : c.transactionHash = some hash) (hn : c.broadcastNotSent = false)
    (h : (Tasks.checkpointWith rounds x.key c (recordSubmission id x.id hash signed)).Ok t () u) :
    contract.Keeps x.key t u ∧ Paid id hash u ∧ (Bound x t → Bound x u) := by
  obtain ⟨m, q, hcur, hset, hq, hheld, rfl⟩ := Tasks.checkpointWith_ok h
  obtain ⟨op, hop, howner, hopen, hhash, rfl⟩ := recordSubmission_ok hset
  refine ⟨record_keeps hi (hknown hcur) hop howner hopen hhash hq hheld hc hn ⟨rfl, rfl, rfl, rfl⟩, ?_, ?_⟩
  · exact ⟨_, Table.row_modify_at hop _, rfl⟩
  · exact fun hbound => hbound.save hq hheld rfl

theorem ends_record {submission : WalletSubmission}
    (hknown : ∀ t, Rely x.key s t → Inv t → Round.Current t.rounds x.key → Known id hash t)
    (hc : c.transactionHash = some hash) (hn : c.broadcastNotSent = false) :
    Ends x (walletObservation x id submission do
      Tasks.fenced rounds x.key (Round.save c)
      recordSubmission id x.id hash signed) s := by
  refine ends_of silent_pure (silent_confirmationError _ _) silent_pure ?_
  intro t m w g hr hi hcur hran hw _ hwork
  obtain ⟨q, hq, hheld, hrec⟩ := Tasks.saved_ok hran
  obtain ⟨op, hop, howner, hopen, hhash, rfl⟩ := recordSubmission_ok hrec
  have hsaved : w = q.save c :=
    Option.some.inj (hw.symm.trans (Table.row_modify_at hq (Round.save c)))
  subst hsaved
  dsimp only [rounds, Tasks.TaskExecution.key]
  rw [Table.modify_modify]
  exact record_keeps hi (hknown t hr hi hcur) hop howner hopen hhash hq hheld hc hn hwork

theorem ends_unsent {reason : String}
    (hcalled : ∀ t, Rely x.key s t → Inv t → Round.Current t.rounds x.key → ∃ op, Called x none t op)
    (hhash : c.transactionHash = none) (hn : c.broadcastNotSent = true) :
    Ends x (.fail reason do
      Tasks.fenced rounds x.key (Round.save c)
      markFailed x.input.operationID x.id) s := by
  refine ends_of silent_pure silent_pure silent_pure ?_
  intro t m w g hr hi hcur hran hw _ hwork
  obtain ⟨q, hq, hheld, hfail⟩ := Tasks.saved_ok hran
  obtain ⟨op, hop, -, rfl⟩ := updateOperation_ok hfail
  have hsaved : w = q.save c :=
    Option.some.inj (hw.symm.trans (Table.row_modify_at hq (Round.save c)))
  subst hsaved
  dsimp only [rounds, Tasks.TaskExecution.key]
  rw [Table.modify_modify]
  obtain ⟨op', hc⟩ := hcalled t hr hi hcur
  have hsame : op' = op := Option.some.inj (hc.row.symm.trans hop)
  subst hsame
  have hnone := ((hi.shape _ op' hc.row).pending hc.status).1
  have hcheck : (g (q.save c)).checkpoint = some c := hwork.checkpoint
  have hround : ({ t with ops := t.ops.modify x.input.operationID fun op => { op with status := .failed, taskID := none }
                          rounds := t.rounds.modify x.id fun r => g (r.save c) } : State).rounds.row x.id =
      some (g (q.save c)) := Table.row_modify_at hq fun r => g (r.save c)
  refine OwnWrite.keeps hi (ownWrite (ownRound hi hq hheld (Table.row_modify_of hq _) hwork.input hwork.token
    hwork.superseded) hop hc.owner (Table.row_modify_of hop _) rfl) ⟨⟨⟨rfl, rfl, rfl⟩, fun _ h => h, fun _ h => h, ?_,
      fun _ _ => .notSent x.id _ c rfl hc.owner hround hcheck hn, .inl⟩, shape_closed (.inr (.inl rfl)) rfl,
      ⟨(hi.recorded _ op' hop).idle, (hi.recorded _ op' hop).hash, ?_⟩, .inr rfl, ?_, ?_⟩
  · intro hfinal
    rw [hc.status] at hfinal
    simp at hfinal
  · intro h; cases h
  · intro c' hash' hc' hh'
    rw [hcheck] at hc'
    cases hc'
    rw [hhash] at hh'
    cases hh'
  · intro c' hc' _
    exact ⟨rfl, rfl, hc.attempted, hnone, hc.signings, hc.sent⟩

end Evidence

end SynapS3.Wallet
