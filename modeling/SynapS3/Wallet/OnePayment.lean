import SynapS3.Wallet.Settlements

/-!
# `Wallet.OnePayment` — at most one payment transaction per operation

The handler, walked through action by action, keeps the contract of `Wallet.Invariant`; so does the
environment (`Wallet.Requests`).
-/

namespace SynapS3.Wallet

open Tasks (Handled HandlerM executeClaim outside withCheckpointedEffect safe_look safe_outside
  safe_withCheckpointedEffect executionOf silent_pure)

/-! ## The handler is safe -/

section Handler

variable {x : Execution} {s t u : State} {id : Nat} {op : WalletOperation} {hash : TxHash} {k : Nat × Nat}
  {identity : ExecutionIdentity} {submission : WalletSubmission} {execute : Bool} {reply : SdkReply}
  {sent : Option TxHash}

theorem safe_look_paid {α : Type} {P : α → State → Prop} {q : Query} {f : q.Reply → WalletM α}
    (hq : ∀ a e s, world k q a e s = some s) (hpaid : Paid id hash s)
    (h : ∀ t, Paid id hash t → ∀ a, (f a).Safe machine contract k P t) :
    (outside q >>= f).Safe machine contract k P s :=
  safe_look hq fun t hr _ a => h t (hpaid.stable hr) a

theorem rebroadcast_safe {tx : SignedTx} (h : Paid id tx.hash s) :
    (rebroadcast id tx).Safe machine contract k (fun _ t => Paid id tx.hash t) s := by
  unfold rebroadcast
  refine safe_look_paid (fun _ _ _ => rfl) h fun s h configured => ?_
  split
  · exact h
  refine safe_look_paid (fun _ _ _ => rfl) h fun s h chainID => ?_
  split
  rotate_left
  · exact h
  split
  · exact h
  refine safe_look_paid (fun _ _ _ => rfl) h fun s h receipt => ?_
  split
  · exact h
  · exact h
  refine safe_look_paid (fun _ _ _ => rfl) h fun s h visible => ?_
  split
  · exact h
  · exact h
  refine safe_look_paid (fun _ _ _ => rfl) h fun s h finalized => ?_
  split
  rotate_left
  · exact h
  refine safe_look_paid (fun _ _ _ => rfl) h fun s h settled => ?_
  split
  rotate_left
  · exact h
  split
  · exact h
  refine safe_look_paid (fun _ _ _ => rfl) h fun s h latest => ?_
  split
  rotate_left
  · exact h
  refine safe_look_paid (fun _ _ _ => rfl) h fun s h pending => ?_
  split
  rotate_left
  · exact h
  split
  · exact h
  split
  · exact h
  refine safe_look_paid (fun _ _ _ => rfl) h fun s h now => ?_
  split
  · exact h
  refine safe_outside fun s hr hi accepted e u hu => ?_
  replace h := h.stable hr
  cases hu
  exact ⟨send_keeps hi h, h⟩

theorem rebroadcastSignedTransaction_safe {type : WalletOperationType} {amount : Nat} (h : Paid id hash s)
    (hhash : submission.txHash = some hash) :
    (rebroadcastSignedTransaction identity id type amount submission).Safe machine contract k
      (fun _ t => Paid id hash t) s := by
  unfold rebroadcastSignedTransaction
  split
  · exact h
  next hv =>
  split
  · exact h
  next tx htx =>
  have hsame : tx.hash = hash := by
    have := signedTx_hash (by simpa using hv) htx
    rw [hhash] at this
    exact (Option.some.inj this).symm
  rw [← hsame] at h ⊢
  exact rebroadcast_safe h

theorem admit_paid_keeps {c : Checkpoint} (hi : Inv t) (hpaid : Paid x.input.operationID hash t)
    (hbound : Bound x t) (hc : c.transactionHash = some hash) (hn : c.broadcastNotSent = false)
    (h : (Tasks.admitWith rounds x.key c (pure ())).Ok t () u) :
    contract.Keeps x.key t u ∧ Paid x.input.operationID hash u := by
  obtain ⟨q, hq, hheld, hu⟩ := Tasks.saved_ok h
  have hsame := (Tx.ok_pure.mp hu).2
  subst hsame
  obtain ⟨r, hr, hin⟩ := hbound ⟨q, hq, hheld⟩
  cases hq.symm.trans hr
  refine ⟨OwnRound.keeps hi (ownRound hi hq hheld (Table.row_modify_of hq (Round.save c)) rfl rfl rfl) rfl rfl
    (fun c' hash' op hc' hh' hop => ?_) fun c' op hc' hn' _ => ?_, hpaid⟩
  · cases hc'
    rw [hc] at hh'
    cases hh'
    rw [hin] at hop
    exact (hpaid.not_pending hi hop).1
  · cases hc'
    rw [hn] at hn'
    cases hn'

theorem receipt_step {hash' : TxHash} (hi : Inv t) (hpaid : Paid id hash t) {receipt : ReceiptReply}
    {e : Option TxHash} (hu : world k (.transactionReceipt id hash') receipt e t = some u) :
    contract.Keeps k t u ∧ Paid id hash u ∧ (Bound x t → Bound x u) ∧
      ∀ h, receipt = .receipt h (some true) → h ∈ (u.history id).receipts := by
  have hsame : u = t → contract.Keeps k t u ∧ Paid id hash u ∧ (Bound x t → Bound x u) := by
    rintro rfl
    exact ⟨.refl hi, hpaid, fun h => h⟩
  rcases receipt with _ | _ | _ | ⟨receiptHash, _ | _ | _⟩
  case receipt.some.true =>
    obtain ⟨op, hop, hhash⟩ := hpaid
    cases hu
    refine ⟨receipt_keeps hi hop receiptHash, ⟨op, hop, hhash⟩, fun h => h, fun h heq => ?_⟩
    cases heq
    rw [noted_history]
    exact List.mem_concat_self
  all_goals
    obtain ⟨hk, hp, hb⟩ := hsame (Option.some.inj hu).symm
    refine ⟨hk, hp, hb, fun h heq => ?_⟩
    cases heq

theorem confirmWalletOperation_safe (hpaid : Paid x.input.operationID hash s) (hbound : Bound x s)
    (hhash : submission.txHash = some hash) :
    (confirmWalletOperation x identity x.input.operationID op submission hash execute).Safe machine contract
      x.key (Ends x) s := by
  unfold confirmWalletOperation
  refine safe_outside fun t hr hi receipt e u hu => ?_
  obtain ⟨hkeeps, hpaid, hkept, hnoted⟩ := receipt_step (x := x) hi (hpaid.stable hr) hu
  replace hbound := hkept (hbound.stable hr)
  refine ⟨hkeeps, ?_⟩
  split
  · exact ends_observation _
  · exact ends_retry _ _
  · next receiptHash successful =>
    split
    · exact ends_fail _
    next heq =>
    split
    · exact ends_fail _
    · rw [not_not] at heq
      rw [heq] at hnoted
      exact ends_confirmed hpaid (hnoted hash rfl)
    · exact ends_failed_paid hpaid
  · split
    · exact ends_observation _
    refine safe_withCheckpointedEffect (fun t hr hi e => ?_) (fun t w _ hr hi hx => ?_) hkeeps.inv
    · split
      · exact ends_observation _
      · exact ends_retry _ _
      all_goals next h => cases h
    · obtain ⟨hk, hpaid⟩ := admit_paid_keeps hi (hpaid.stable hr) (hbound.stable hr) rfl rfl hx
      refine ⟨hk, fun e => ?_, (rebroadcastSignedTransaction_safe hpaid hhash).mono fun a t hpaid => ?_⟩
      · split
        · exact ends_observation _
        · exact ends_retry _ _
        all_goals next h => cases h
      · split
        · next h => cases h
        · next h => cases h
        · exact ends_failed_paid hpaid
        · exact ends_displaced _
        · exact ends_fail _
        · exact ends_retry _ _
        · exact ends_quiet silent_pure (silent_confirmationError _ _) silent_pure (silent_confirmationError _ _)
        · exact ends_observation _
        · exact ends_observation _

theorem answers_spec {type : WalletOperationType} (h : answers type reply sent = true) :
    ((broadcastResult type reply).1.notSent = true → sent = none) ∧
      ∀ hash, (broadcastResult type reply).1.txHash = some hash → sent.all (· == hash) = true := by
  simp only [answers, Bool.and_eq_true, Bool.or_eq_true, Bool.not_eq_true', Option.isNone_iff_eq_none] at h
  obtain ⟨hnot, hall⟩ := h
  refine ⟨fun hn => ?_, fun hash hh => ?_⟩
  · rcases hnot with hfalse | hnone
    · rw [hn] at hfalse; cases hfalse
    · exact hnone
  · cases sent with
    | none => rfl
    | some hash' =>
      rw [hh] at hall
      simp only [Option.all_some, beq_iff_eq] at hall ⊢
      exact hall.symm

theorem afterBroadcast_safe (hi : Inv s) (hanswers : answers op.type reply sent = true)
    (hcalled : Round.Current s.rounds x.key → ∃ op, Called x sent s op)
    (happroved : (broadcastResult op.type reply).2.1 = true → (s.history x.input.operationID).approved = true) :
    (afterBroadcast x x.input.operationID op reply).Safe machine contract x.key (Ends x) s := by
  obtain ⟨hnotSent, hsent⟩ := answers_spec hanswers
  have hlater : ∀ t, Rely x.key s t → Round.Current t.rounds x.key → ∃ op, Called x sent t op := by
    intro t hr hc
    obtain ⟨op, h⟩ := hcalled (hr.current hc)
    exact ⟨op, h.stable hi hr hc⟩
  unfold afterBroadcast
  split
  next submission alreadyComplete broadcastErr hresult =>
  rw [hresult] at hnotSent hsent happroved
  split
  · next hcomplete => exact ends_inPlace (happroved hcomplete)
  split
  · exact ends_fail _
  split
  · next hn =>
    split
    · exact ends_fail _
    · refine ends_unsent (fun t hr _ hc => ?_) rfl rfl
      rw [← hnotSent hn]
      exact hlater t hr hc
  split
  · exact ends_unknown
  split
  · exact ends_fail _
  split
  · exact ends_fail _
  next hash hhash =>
  have hknown : ∀ t, Rely x.key s t → Round.Current t.rounds x.key → Known x.input.operationID hash t := by
    intro t hr hc
    obtain ⟨op, h⟩ := hlater t hr hc
    exact h.known (hsent hash hhash)
  refine Prog.Safe.tx fun t hr hit => ⟨fun e => ?_, fun u hu => ?_⟩
  · exact ends_record (fun w hw _ => hknown w (hr.trans hw)) rfl rfl
  · obtain ⟨hk, hpaid, -⟩ := checkpoint_keeps hit (hknown t hr) rfl rfl hu
    refine ⟨hk, ?_, ends_observation _⟩
    exact ends_record (fun w hw hiw _ => (hpaid.stable hw).known hiw) rfl rfl

/-- The columns of an operation whose broadcast was never admitted. -/
structure Untouched (x : Execution) (op : WalletOperation) : Prop where
  owner : op.taskID = some x.id
  attempted : op.broadcastAttempted = false
  status : op.status = .pending

/-- What the claim knows between the admission and its call. -/
structure Admitted (x : Execution) (op : WalletOperation) (s : State) : Prop where
  permit : Permit x.key x.input.operationID s
  row : Round.Current s.rounds x.key → s.ops.row x.input.operationID = some { op with broadcastAttempted := true }

theorem Admitted.stable (h : Admitted x op s) (hop : Untouched x op) (hr : Rely x.key s t) : Admitted x op t :=
  ⟨hr.permit _ h.permit.1 h.permit.2, fun hc => hr.row hc _ _ (h.row (hr.current hc)) hop.owner⟩

theorem admission_keeps {c : Checkpoint} (hi : Inv t) (hop : Untouched x op)
    (hrow : Round.Current t.rounds x.key → t.ops.row x.input.operationID = some op)
    (hc : c.transactionHash = none) (hn : c.broadcastNotSent = false)
    (h : (Tasks.admitWith rounds x.key c (do
      markBroadcastAttempted x.input.operationID x.id
      note x.input.operationID fun h => { h with signer := some x.key })).Ok t () u) :
    contract.Keeps x.key t u ∧ Admitted x op u := by
  obtain ⟨q, hq, hheld, hset⟩ := Tasks.saved_ok h
  dsimp only [rounds] at hq hset
  replace hrow := hrow ⟨q, hq, hheld⟩
  simp only [Tx.ok_bind, note, Tx.ok_read, Tx.ok_write] at hset
  obtain ⟨_, m, hmark, _, _, ⟨rfl, rfl⟩, hu⟩ := hset
  obtain ⟨op', hop', -, rfl⟩ := updateOperation_ok hmark
  have hsame : op' = op := Option.some.inj (hop'.symm.trans hrow)
  subst hsame
  obtain ⟨hsigner, hzero⟩ := (hi.recorded _ op' hrow).idle hop.attempted
  have hshape := hi.shape _ op' hrow
  have hnone := (hshape.pending hop.status).1
  have hself : u.history x.input.operationID = { t.history x.input.operationID with signer := some x.key } := by
    rw [hu]; simp
  have hother : ∀ j, j ≠ x.input.operationID → u.history j = t.history j := by
    intro j hj
    rw [hu]; simp [hj]
  have hrounds : ∀ j, u.rounds.row j = if j = x.id then some (q.save c) else t.rounds.row j := by
    rw [hu]; exact Table.row_modify_of hq (Round.save c)
  have hops : ∀ j, u.ops.row j = if j = x.input.operationID then some { op' with broadcastAttempted := true }
      else t.ops.row j := by
    rw [hu]; exact Table.row_modify_of hrow _
  refine ⟨OwnWrite.keeps hi ⟨ownRound hi hq hheld hrounds rfl rfl rfl,
      ⟨hrow, hops, hother, by rw [hself], by rw [hself], by rw [hself]⟩, hop.owner, by rw [hself], .inr hsigner⟩
    ⟨⟨⟨rfl, rfl, rfl⟩, fun _ h => h, fun _ h => h, ?_, ?_, fun _ => .inl rfl⟩,
      ⟨hshape.pending, hshape.submitted, hshape.terminal⟩, ⟨?_, ?_, ?_⟩, .inl rfl, ?_, ?_⟩, ⟨?_, ?_⟩,
    fun _ => by rw [hops, if_pos rfl]⟩
  · intro hfinal
    rw [hop.status] at hfinal
    simp at hfinal
  · intro _ hattempted
    rw [hop.attempted] at hattempted
    cases hattempted
  · intro hidle; cases hidle
  · intro hash hh
    rw [show op'.txHash = none from hnone] at hh
    cases hh
  · intro hconf
    rw [show op'.status = .pending from hop.status] at hconf
    cases hconf
  · intro c' hash' hc' hh'
    cases hc'
    rw [hc] at hh'
    cases hh'
  · intro c' hc' hn'
    cases hc'
    rw [hn] at hn'
    cases hn'
  · rw [hself]
  · rw [hself]; exact hzero

theorem pay_step {amount : Nat} (hi : Inv t) (hop : Untouched x op) (hadmitted : Admitted x op t)
    (hu : world x.key (.pay x.input.operationID op.type amount) reply sent t = some u) :
    contract.Keeps x.key t u ∧ answers op.type reply sent = true ∧
      (Round.Current u.rounds x.key → ∃ op, Called x sent u op) ∧
      ((broadcastResult op.type reply).2.1 = true → (u.history x.input.operationID).approved = true) := by
  simp only [world] at hu
  split at hu
  case isFalse => cases hu
  case isTrue hanswers =>
    obtain ⟨hsigner, hzero⟩ := hadmitted.permit
    cases hu
    refine ⟨pay_keeps hi hadmitted.permit sent _, hanswers, fun hc => ?_, fun hcomplete => ?_⟩
    · refine ⟨_, hadmitted.row hc, hop.owner, hop.status, rfl, ?_, ?_, ?_⟩
      · rw [noted_history]; exact hsigner
      · rw [noted_history]
        show (t.history x.input.operationID).signings + 1 = 1
        rw [hzero]
      · rw [noted_history]
        show (t.history x.input.operationID).sent ++ sent.toList = sent.toList
        rw [(hi.single _).unsigned hzero, List.nil_append]
    · rw [noted_history]
      simp [hcomplete]

theorem broadcastWalletOperation_safe (hi : Inv s) (hop : Untouched x op)
    (hrow : s.ops.row x.input.operationID = some op) :
    (broadcastWalletOperation x x.input.operationID op).Safe machine contract x.key (Ends x) s := by
  unfold broadcastWalletOperation
  refine safe_withCheckpointedEffect (fun t _ _ e => ?_) (fun t u _ hr hit hx => ?_) hi
  · split
    · exact ends_nothing silent_pure silent_pure rfl rfl
    · exact ends_nothing silent_pure silent_pure rfl rfl
    · next h => cases h
  · obtain ⟨hk, hadmitted⟩ := admission_keeps hit hop (fun hc => hr.row hc _ op hrow hop.owner) rfl rfl hx
    refine ⟨hk, fun e => ?_, ?_⟩
    · split
      · exact ends_nothing silent_pure silent_pure rfl rfl
      · exact ends_nothing silent_pure silent_pure rfl rfl
      · next h => cases h
    · refine safe_outside (f := pure) fun t hr hit reply sent w hw => ?_
      obtain ⟨hk, hanswers, hcalled, happroved⟩ := pay_step hit hop (hadmitted.stable hop hr) hw
      exact ⟨hk, afterBroadcast_safe hk.inv hanswers hcalled happroved⟩

theorem walletSubmission_hash {checkpoint : Option Checkpoint}
    (h : walletSubmission op checkpoint = some submission) :
    submission.txHash = op.txHash.or (checkpoint.bind (·.transactionHash)) := by
  simp only [walletSubmission] at h
  split at h
  · cases h
  split at h
  · cases h
  · cases h; rfl

theorem Shape.owned (h : Shape op) (howner : op.taskID ≠ none) : op.status = .pending ∨ op.status = .submitted := by
  cases hs : op.status with
  | pending => exact .inl rfl
  | submitted => exact .inr rfl
  | confirmed => exact absurd (h.terminal (.inl hs)) howner
  | failed => exact absurd (h.terminal (.inr (.inl hs))) howner
  | unknown => exact absurd (h.terminal (.inr (.inr hs))) howner

theorem processOperation_safe (hi : Inv s) (hclaim : Claimed x s)
    (hrow : s.ops.row x.input.operationID = some op) (howner : op.taskID = some x.id) :
    (processOperation x identity op execute).Safe machine contract x.key (Ends x) s := by
  have hlater : ∀ t, Rely x.key s t → Round.Current t.rounds x.key → t.ops.row x.input.operationID = some op :=
    fun t hr hc => hr.row hc _ op hrow howner
  unfold processOperation
  split
  · -- an invalid amount: the operation fails only if nothing was admitted
    dsimp only
    split
    · next huntouched =>
      refine ends_failed fun t op' hr _ hc hop' _ => ?_
      rw [hlater t hr hc] at hop'
      cases hop'
      exact huntouched.2.1
    · exact ends_fail _
  split
  · exact ends_fail _
  split
  · exact ends_fail _
  split
  · exact ends_fail _
  split
  rotate_left
  · exact ends_fail _
  next submission hsubmission =>
  have hhash := walletSubmission_hash hsubmission
  split
  · next hnone =>
    rw [hnone] at hhash
    split
    · split
      · exact ends_fail _
      · exact ends_unknown
    next hfresh =>
    split
    · exact ends_nothing silent_pure silent_pure rfl rfl
    simp only [not_or, Bool.not_eq_true] at hfresh
    refine broadcastWalletOperation_safe hi ⟨howner, hfresh.2.1, ?_⟩ hrow
    rcases (hi.shape _ op hrow).owned (by rw [howner]; simp) with hpending | hsubmitted
    · exact hpending
    · exact absurd hsubmitted hfresh.2.2.2
  · next hash hsome =>
    -- while the claim holds, the transaction is recorded, whichever place named it
    have hpaid : ∀ t, Rely x.key s t → Inv t → Round.Current t.rounds x.key → Paid x.input.operationID hash t := by
      intro t hr hit hc
      rw [hsome] at hhash
      cases hop : op.txHash with
      | some hash' =>
        rw [hop, Option.some_or] at hhash
        exact ⟨op, hlater t hr hc, by rw [hop, hhash]⟩
      | none =>
        rw [hop, Option.none_or] at hhash
        exact (hclaim.stable hr).paid hit hc hhash.symm
    split
    · exact ends_fail _
    split
    · split
      · exact ends_fail _
      · refine Prog.Safe.tx fun t hr hit => ⟨fun e => ends_retry _ _, fun u hu => ?_⟩
        obtain ⟨hk, hrecorded, hbound⟩ :=
          checkpoint_keeps hit (fun hc => (hpaid t hr hit hc).known hit) rfl rfl hu
        refine ⟨hk, ends_retry _ _, ?_⟩
        exact confirmWalletOperation_safe hrecorded (hbound (hclaim.stable hr).bound) hsome
    · next hrecorded =>
      simp only [not_or, Option.isNone_iff_eq_none, not_not] at hrecorded
      obtain ⟨hash', hop⟩ := Option.ne_none_iff_exists'.mp hrecorded.1
      rw [hop, Option.some_or, hsome] at hhash
      exact confirmWalletOperation_safe ⟨op, hrow, by rw [hop, hhash]⟩ hclaim.bound hsome

theorem walletTerminalResult_ends {row : Option WalletOperation} {r : Handled State}
    (h : walletTerminalResult row x.id = some r) : Ends x r s := by
  unfold walletTerminalResult at h
  split at h
  · cases h; exact ends_fail _
  split at h
  · cases h
  split at h
  · cases h; exact ends_nothing silent_pure silent_pure rfl rfl
  · cases h; exact ends_fail _
  · cases h; exact ends_fail _
  · cases h; exact ends_fail _
  · cases h; exact ends_fail _

theorem walletTerminalResult_none {taskID : Nat} (h : walletTerminalResult (some op) taskID = none) :
    op.taskID = some taskID := by
  simp only [walletTerminalResult] at h
  split at h
  · next howner => exact howner
  · split at h <;> cases h

theorem processWalletOperation_safe (hclaim : Claimed x s) :
    (processWalletOperation x execute).Safe machine contract x.key (Ends x) s := by
  unfold processWalletOperation
  refine safe_look (fun _ _ _ => rfl) fun s hr _ identity => ?_
  replace hclaim := hclaim.stable hr
  split
  rotate_left
  · exact ends_fail _
  split
  · exact ends_fail _
  refine Prog.Safe.read fun s hr hi => ⟨ends_nothing silent_pure silent_pure rfl rfl, ?_⟩
  replace hclaim := hclaim.stable hr
  dsimp only
  split
  · next hresult => exact walletTerminalResult_ends hresult
  · exact ends_fail _
  · next op hnone hrow =>
    rw [hrow] at hnone
    exact processOperation_safe hi hclaim hrow (walletTerminalResult_none hnone)

theorem handler_safe (hclaim : Claimed x s) : (handler x).Safe machine contract x.key (Ends x) s := by
  unfold handler
  split
  · exact processWalletOperation_safe hclaim
  · exact processWalletOperation_safe hclaim

end Handler

/-! ## The machine is sound -/

variable {s t : State}

theorem claimed_start {taskID : Nat} {r : WalletRound} (hr : s.rounds.row taskID = some r) :
    Claimed (executionOf taskID r.claim) { s with rounds := s.rounds.modify taskID Round.claim } := by
  intro _
  exact ⟨r.claim, Table.row_modify_at hr _, rfl, rfl⟩

theorem inv_start (hops : s.ops = Table.empty) (hrounds : s.rounds = Table.empty)
    (hhist : s.history = fun _ => {}) : Inv s := by
  have hop : ∀ id op, s.ops.row id ≠ some op := by
    intro id op h
    rw [hops] at h
    cases h
  have hround : ∀ i r, s.rounds.row i ≠ some r := by
    intro i r h
    rw [hrounds] at h
    cases h
  refine ⟨fun id _ => by rw [hhist], fun id => ?_, fun id op h => absurd h (hop id op),
    fun id op h => absurd h (hop id op), fun id _ op _ h => absurd h (hop id op),
    fun id op _ h => absurd h (hop id op), fun t _ r _ h => absurd h (hround t r),
    fun t r h => absurd h (hround t r), fun t r h => absurd h (hround t r),
    fun t r _ _ _ h => absurd h (hround t r), fun t r _ _ h => absurd h (hround t r)⟩
  rw [hhist]
  exact ⟨Nat.zero_le _, fun _ => rfl, fun a ha => absurd ha (List.not_mem_nil)⟩

/-- **The wallet keeps its contract**: the start, the environment and every handler it starts. -/
theorem machine_sound : Prog.Sound machine contract := by
  refine ⟨fun s ⟨hops, hrounds, hhist⟩ => inv_start hops hrounds hhist, fun s b t p hi hb => ?_⟩
  cases b with
  | request type clientRequestID amount identity =>
    obtain ⟨u, hu, heq⟩ := Option.map_eq_some_iff.mp hb
    cases heq
    obtain ⟨id, hok⟩ := Tx.after_eq_some.mp hu
    refine ⟨?_, nofun⟩
    rcases handleAPIWalletOperation_ok hi hok with ⟨-, -, -, -, rfl⟩ | ⟨-, op, r, -, -, hreq⟩
    · exact ⟨hi, .refl _, fun k hk => ⟨hk, .refl k _⟩⟩
    · exact hreq.keeps hi
  | claim taskID =>
    simp only [machine, Tasks.handlerMachine, env] at hb
    split at hb
    case h_2 => cases hb
    case h_1 r hr =>
      split at hb
      case isFalse => cases hb
      case isTrue hopen =>
        cases hb
        obtain ⟨hk, hfresh, hlive⟩ := claim_keeps hi hr hopen
        refine ⟨hk, fun k q hq => ?_⟩
        cases hq
        refine ⟨hfresh, hlive, Tasks.safe_executeClaim (fun s t h => h.current) ?_⟩
        exact handler_safe (claimed_start hr)
  | retry taskID =>
    obtain ⟨u, hu, heq⟩ := Option.map_eq_some_iff.mp hb
    cases heq
    obtain ⟨_, hok⟩ := Tx.after_eq_some.mp hu
    exact ⟨retry_keeps hi hok, nofun⟩
  | failClaim taskID reason =>
    simp only [machine, Tasks.handlerMachine, env] at hb
    split at hb
    case h_2 => cases hb
    case h_1 r hr =>
      split at hb
      case h_2 => cases hb
      case h_1 hheld =>
        cases hb
        exact ⟨failClaim_keeps hi hr hheld, nofun⟩

/-! ## What holds in every run -/

abbrev WalletConfig :=
  Prog.Config State (Nat × Nat) (Prog.Work RepoError State (Tasks.Ask Query))
    (Prog.Work.Answer (Tasks.Ask.Reply Query.Reply))

/-- What stays of an operation over a whole run. -/
structure Lasting (op op' : WalletOperation) : Prop where
  request : op'.type = op.type ∧ op'.clientRequestID = op.clientRequestID ∧ op'.amount = op.amount
  hash : ∀ hash, op.txHash = some hash → op'.txHash = some hash
  bytes : ∀ tx, op.signedTransaction = some tx → op'.signedTransaction = some tx
  final : op.status = .confirmed ∨ op.status = .unknown → op' = op

def Lasts (s t : State) : Prop := ∀ id op, s.ops.row id = some op → ∃ op', t.ops.row id = some op' ∧ Lasting op op'

theorem Lasts.refl (s : State) : Lasts s s :=
  fun _ op h => ⟨op, h, ⟨rfl, rfl, rfl⟩, fun _ h => h, fun _ h => h, fun _ => rfl⟩

theorem Lasts.trans {u : State} (h : Lasts s t) (h' : Lasts t u) : Lasts s u := by
  intro id op hop
  obtain ⟨op', hop', hl⟩ := h id op hop
  obtain ⟨op'', hop'', hl'⟩ := h' id op' hop'
  obtain ⟨⟨ht, hc, ha⟩, ht', hc', ha'⟩ := And.intro hl.request hl'.request
  refine ⟨op'', hop'', ⟨ht'.trans ht, hc'.trans hc, ha'.trans ha⟩, fun hash hh => hl'.hash hash (hl.hash hash hh),
    fun tx htx => hl'.bytes tx (hl.bytes tx htx), fun hfinal => ?_⟩
  have heq := hl.final hfinal
  rw [heq] at hl'
  exact hl'.final hfinal

theorem Guar.lasts (h : Guar s t) : Lasts s t := by
  intro id op hop
  obtain ⟨op', hop', hev⟩ := h.row id op hop
  exact ⟨op', hop', hev.request, hev.hash, hev.bytes, hev.final⟩

theorem steps_lasts {x y : WalletConfig} (hx : machine.lts.Reachable x) (h : machine.lts.Steps x y) :
    Lasts x.state y.state :=
  (Lts.Steps.lift (I := Prog.Good machine contract) (R := fun x y => Lasts x.state y.state)
    (fun x => .refl x.state) (fun _ _ _ => Lasts.trans) (fun _ _ _ hg hs => (machine_sound.step hg hs).1)
    (fun _ _ _ hg hs => (machine_sound.step hg hs).2.lasts) (machine_sound.good hx) h).2

theorem request_repeated (hi : Inv s) {type : WalletOperationType} {clientRequestID : String}
    {amount id id' : Nat} {identity : ExecutionIdentity} {op : WalletOperation}
    (h : (handleAPIWalletOperation type clientRequestID amount identity).Ok s id' t)
    (hop : s.ops.row id = some op) (htype : op.type = type) (hreq : op.clientRequestID = clientRequestID) :
    id' = id ∧ t = s := by
  rcases handleAPIWalletOperation_ok hi h with ⟨op', hop', htype', hreq', rfl⟩ | ⟨-, op', r, htype', hreq', hnew⟩
  · exact ⟨hi.request _ _ op' op hop' hop (by rw [htype', htype]) (by rw [hreq', hreq]), rfl⟩
  · exact absurd ⟨by rw [htype, htype'], by rw [hreq, hreq']⟩ (hnew.unique id op hop)

/-- **At most one payment per operation.** In one attempt the client is told to pay at most once, all transactions
    handed to the network are the recorded one, recorded evidence and final states stay, and an admitted operation is
    pending until a transaction, a proof that nothing was sent or an approval in place is recorded, or it is unknown.
    A new attempt starts only where a failed round recorded that the one before sent nothing. -/
theorem one_payment {x : WalletConfig} (hx : machine.lts.Reachable x) : (∀ id, (x.state.history id).signings ≤ 1 ∧
      ∀ a ∈ (x.state.history id).sent, ∀ b ∈ (x.state.history id).sent, a = b) ∧
    (∀ id op, x.state.ops.row id = some op →
      (∀ hash, op.txHash = some hash → ∀ sent ∈ (x.state.history id).sent, sent = hash) ∧
      (op.status = .confirmed → (∃ hash, op.txHash = some hash ∧ hash ∈ (x.state.history id).receipts) ∨
        (op.txHash = none ∧ (x.state.history id).approved = true))) ∧
    (∀ type clientRequestID amount identity id t,
      (handleAPIWalletOperation type clientRequestID amount identity).Ok x.state id t →
      ∀ id' op, x.state.ops.row id' = some op → op.type = type → op.clientRequestID = clientRequestID →
        id = id' ∧ t = x.state) ∧
    (∀ y, machine.lts.Steps x y → Lasts x.state y.state) ∧
    ∀ l y, machine.lts.step x l = some y → ∀ id,
      (∀ op, x.state.ops.row id = some op → op.status = .pending → op.broadcastAttempted = true →
        ∃ op', y.state.ops.row id = some op' ∧ Leaves x.state y.state id op op') ∧
      (∀ hash ∈ (y.state.history id).sent, hash ∈ (x.state.history id).sent ∨
        ((x.state.history id).signer ≠ none ∧ (x.state.history id).signings = 0 ∧
          (y.state.history id).signings = 1) ∨
        ∃ op, x.state.ops.row id = some op ∧ op.txHash = some hash) ∧
      ((y.state.history id).signings < (x.state.history id).signings ∨
        (∃ op op', x.state.ops.row id = some op ∧ y.state.ops.row id = some op' ∧ op.broadcastAttempted = true ∧
          op'.broadcastAttempted = false) → Disproved x.state id) := by
  have hgood := machine_sound.good hx
  have hi : Inv x.state := hgood.inv
  refine ⟨fun id => ⟨(hi.single id).once, (hi.single id).same⟩, fun id op hop => ?_, ?_, fun y => steps_lasts hx,
    fun l y hs id => ?_⟩
  · have hrec := hi.recorded id op hop
    exact ⟨fun hash hh => (hrec.hash hash hh).2, hrec.confirmed⟩
  · intro type clientRequestID amount identity id t h id' op hop htype hreq
    exact request_repeated hi h hop htype hreq
  · obtain ⟨-, hguar⟩ := machine_sound.step hgood hs
    refine ⟨fun op hop hp ha => ?_, hguar.sent id, ?_⟩
    · obtain ⟨op', hop', hev⟩ := hguar.row id op hop
      exact ⟨op', hop', hev.leaves hp ha⟩
    · rintro (hless | ⟨op, op', hop, hop', ha, hreset⟩)
      · exact (hguar.restarts id).resolve_left (Nat.not_le_of_lt hless)
      · obtain ⟨q, hq, hev⟩ := hguar.row id op hop
        cases hop'.symm.trans hq
        exact (hev.attempted ha).resolve_left (by rw [hreset]; exact Bool.false_ne_true)

/-- **A frozen round is the end**: it and the operation it owns stay as they are, in every run. -/
theorem frozen_stays {x y : WalletConfig} (hx : machine.lts.Reachable x) (h : machine.lts.Steps x y)
    {id taskID : Nat} {op : WalletOperation} {r : WalletRound} (hop : x.state.ops.row id = some op)
    (howner : op.taskID = some taskID) (hr : x.state.rounds.row taskID = some r)
    (hf : Frozen x.state taskID r) : y.state.ops.row id = some op ∧ y.state.rounds.row taskID = some r := by
  have hin : r.input.operationID = id := by
    obtain ⟨r', hr', hin, -⟩ := (machine_sound.good hx).inv.owner id op taskID hop howner
    rw [hr] at hr'
    cases hr'
    exact hin
  have hfrozen : inspectRetry taskID r (some op) = false := by
    have hins := hf.2
    rw [hin, hop] at hins
    exact hins
  induction h with
  | refl => exact ⟨hop, hr⟩
  | tail hsteps hstep ih =>
    obtain ⟨l, hl⟩ := hstep
    obtain ⟨hop', hr'⟩ := ih
    obtain ⟨-, hguar⟩ := machine_sound.step (machine_sound.good (hx.steps hsteps)) hl
    obtain ⟨hround, hops⟩ := hguar.frozen taskID r hr' ⟨hf.1, by rw [hin, hop']; exact hfrozen⟩
    exact ⟨hops id op hop' howner, hround⟩

/-! ## Two runs -/

section Runs

def someIdentity : ExecutionIdentity := ⟨some ⟨1, some 1, 2⟩, some 3, some 4⟩

/-- The outside of the runs: it answers a payment with `reply` and puts `sent` on the network. -/
def someOutside (reply : SdkReply) (sent : Option TxHash) : Tasks.Oracle Query Query.Reply (Option TxHash) where
  answer
    | .walletIdentity => some someIdentity
    | .pay .. => reply
    | .transactionReceipt _ hash => .receipt hash (some true)
    | .replayConfigured => false
    | .chainID => some (some 1)
    | .replayReceipt _ | .transactionByHash _ => .notFound
    | .finalizedHeader | .finalizedNonce | .latestNonce | .pendingNonce => some 0
    | .clock => (0 : Nat)
    | .sendTransaction .. => true
  extra := sent

def emptyConfig : WalletConfig := ⟨⟨Table.empty, Table.empty, fun _ => {}⟩, []⟩

theorem emptyConfig_reachable : machine.lts.Reachable emptyConfig := .of_init ⟨⟨rfl, rfl, rfl⟩, rfl⟩

/-- What a running handler is answered. -/
abbrev WalletChoice := Prog.Choice (Tasks.Oracle Query Query.Reply (Option TxHash))

/-- A request is claimed, its payment call is answered with `reply`, and the handler goes on as `rest`
    says. -/
def payRun (reply : SdkReply) (sent : Option TxHash) (rest : List WalletChoice) :
    List (Prog.Label WalletChoice EnvAct) :=
  let outside : WalletChoice := .answer (someOutside reply sent)
  let choices : List WalletChoice := [outside, .reads true, outside, .commit .ok, outside] ++ rest
  [.env (.request .fund "r" 5 someIdentity), .env (.claim 1)] ++ choices.map (.act 0)

/-- The client answers with a hash and an error that carries another transaction. -/
def conflictReply : SdkReply :=
  ⟨some (some 7), some { broadcast := some (.signed ⟨8, true, 1, none, none, 0, 0, none⟩) }⟩

def conflictRun : List (Prog.Label WalletChoice EnvAct) :=
  payRun conflictReply (some 7) [.answer (someOutside conflictReply (some 7)), .commit .ok]

def conflictConfig : WalletConfig := (machine.lts.run emptyConfig conflictRun).getD emptyConfig

theorem conflictConfig_reachable : machine.lts.Reachable conflictConfig := by
  have hrun : machine.lts.run emptyConfig conflictRun = some conflictConfig := rfl
  exact emptyConfig_reachable.of_run hrun

/-- **The operation of a contradictory answer stays pending for good.** -/
theorem conflict_stays_pending : machine.lts.Reachable conflictConfig ∧
    (∃ op, conflictConfig.state.ops.row 1 = some op ∧ op.status = .pending ∧ op.broadcastAttempted = true ∧
      op.txHash = none ∧ op.signedTransaction = none) ∧
    (∃ r c, conflictConfig.state.rounds.row 1 = some r ∧
      r.phase = .ended (.failed, some "wallet_evidence_conflict") ∧
      r.checkpoint = some c ∧ c.transactionHash = none ∧ c.broadcastNotSent = false) ∧
    (conflictConfig.state.history 1).sent = [7] ∧
    ∀ y, machine.lts.Steps conflictConfig y → ∃ op, y.state.ops.row 1 = some op ∧ op.status = .pending := by
  have hop : conflictConfig.state.ops.row 1 = some ⟨.fund, "r", 5, .pending, none, none, true, some 1⟩ := rfl
  refine ⟨conflictConfig_reachable, ⟨_, hop, rfl, rfl, rfl, rfl⟩, ⟨_, _, rfl, rfl, rfl, rfl, rfl⟩, rfl,
    fun y hy => ?_⟩
  have hstays := frozen_stays conflictConfig_reachable hy hop rfl rfl ⟨rfl, rfl⟩
  exact ⟨_, hstays.1, rfl⟩

/-- A payment that is recorded, claimed again and confirmed by its receipt. -/
def paidRun : List (Prog.Label WalletChoice EnvAct) :=
  let outside : WalletChoice := .answer (someOutside ⟨some (some 7), none⟩ (some 7))
  payRun ⟨some (some 7), none⟩ (some 7) [.commit .ok, outside, .commit .ok] ++
    [.env (.claim 1), .act 1 outside, .act 1 (.reads true), .act 1 outside, .act 1 outside, .act 1 (.commit .ok)]

def paidConfig : WalletConfig := (machine.lts.run emptyConfig paidRun).getD emptyConfig

theorem paidConfig_reachable : machine.lts.Reachable paidConfig := by
  have hrun : machine.lts.run emptyConfig paidRun = some paidConfig := rfl
  exact emptyConfig_reachable.of_run hrun

/-- The confirmed payment has its receipt, and stays confirmed. -/
theorem one_payment_confirmed : machine.lts.Reachable paidConfig ∧
    paidConfig.state.ops.row 1 = some ⟨.fund, "r", 5, .confirmed, some 7, none, true, none⟩ ∧
    (paidConfig.state.history 1).sent = [7] ∧
    ((∃ hash, some 7 = some hash ∧ hash ∈ (paidConfig.state.history 1).receipts) ∨
      (some 7 = none ∧ (paidConfig.state.history 1).approved = true)) ∧
    ∀ y, machine.lts.Steps paidConfig y → Lasts paidConfig.state y.state := by
  have h := one_payment paidConfig_reachable
  have hop : paidConfig.state.ops.row 1 = some ⟨.fund, "r", 5, .confirmed, some 7, none, true, none⟩ := rfl
  exact ⟨paidConfig_reachable, hop, rfl, (h.2.1 1 _ hop).2 rfl, h.2.2.2.1⟩

end Runs

end SynapS3.Wallet
