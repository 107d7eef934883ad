import SynapS3.Wallet.Handler

/-!
# `Wallet.Invariant` — what the wallet handlers promise each other

The system: requests arrive, rounds are claimed (fresh, waiting, or held by somebody whose lease ran out),
failed rounds are retried by hand, and every claim runs the handler. Nothing stops a handler whose claim is
gone from finishing a call it has started.
-/

namespace SynapS3.Wallet

open Tasks (HandlerM executeClaim executionOf)

/-! ## The system -/

/-- What the rest of the program does. -/
inductive EnvAct where
  | request (type : WalletOperationType) (clientRequestID : String) (amount : Nat)
      (identity : ExecutionIdentity)
  | claim (taskID : Nat)
  | retry (taskID : Nat)
  /-- `failClaim`: the engine ends a round itself, for example after a panic of the handler. -/
  | failClaim (taskID : Nat) (reason : String)
  deriving DecidableEq

def env (s : State) : EnvAct → Option (State × Option ((Nat × Nat) × WalletM Unit))
  | .request type clientRequestID amount identity =>
    ((handleAPIWalletOperation type clientRequestID amount identity).after s).map (·, none)
  | .claim taskID =>
    match s.rounds.row taskID with
    | some r => if r.isOpen then
        let x := executionOf taskID r.claim
        some ({ s with rounds := s.rounds.modify taskID Round.claim },
          some (x.key, executeClaim rounds x.key (handler x)))
      else none
    | none => none
  | .retry taskID => ((retry taskID).after s).map (·, none)
  | .failClaim taskID reason =>
    match s.rounds.row taskID with
    | some r => (match r.phase with
      | .held => some ({ s with rounds := s.rounds.modify taskID (Round.finish (.failed, some reason)) }, none)
      | _ => none)
    | none => none

def machine := Tasks.handlerMachine
  (fun s : State => s.ops = Table.empty ∧ s.rounds = Table.empty ∧ s.history = fun _ => {}) world env

/-! ## The contract -/

/-- What the status of an operation says about its columns. -/
structure Shape (op : WalletOperation) : Prop where
  pending : op.status = .pending → op.txHash = none ∧ op.signedTransaction = none ∧ op.taskID ≠ none
  submitted : op.status = .submitted → op.txHash ≠ none ∧ op.taskID ≠ none
  terminal : op.status = .confirmed ∨ op.status = .failed ∨ op.status = .unknown → op.taskID = none

/-- An operation agrees with the record of what was tried, sent and confirmed. -/
structure Recorded (h : History) (op : WalletOperation) : Prop where
  idle : op.broadcastAttempted = false → h.signer = none ∧ h.signings = 0
  hash : ∀ hash, op.txHash = some hash → h.signings = 1 ∧ ∀ sent ∈ h.sent, sent = hash
  confirmed : op.status = .confirmed →
    (∃ hash, op.txHash = some hash ∧ hash ∈ h.receipts) ∨ (op.txHash = none ∧ h.approved = true)

/-- The record by itself: at most one payment call in an attempt, and one transaction on the network. -/
structure Single (h : History) : Prop where
  once : h.signings ≤ 1
  unsigned : h.signings = 0 → h.sent = []
  same : ∀ a ∈ h.sent, ∀ b ∈ h.sent, a = b

/-- The operation of a round whose checkpoint proves that nothing was sent. -/
structure Unsent (h : History) (op : WalletOperation) : Prop where
  status : op.status = .failed
  owner : op.taskID = none
  attempted : op.broadcastAttempted = true
  hash : op.txHash = none
  called : h.signings = 1
  sent : h.sent = []

/-- A payment is *allowed* by one admission per attempt (`signer`), the claim that got it makes the call at most
    once, and the recorded transaction is the only one on the network. -/
structure Inv (s : State) : Prop where
  fresh : ∀ id, s.ops.row id = none → s.history id = {}
  single : ∀ id, Single (s.history id)
  shape : ∀ id op, s.ops.row id = some op → Shape op
  recorded : ∀ id op, s.ops.row id = some op → Recorded (s.history id) op
  request : ∀ id id' op op', s.ops.row id = some op → s.ops.row id' = some op' → op.type = op'.type →
    op.clientRequestID = op'.clientRequestID → id = id'
  /-- The owner of an operation is the current round of that operation. -/
  owner : ∀ id op taskID, s.ops.row id = some op → op.taskID = some taskID →
    ∃ r, s.rounds.row taskID = some r ∧ r.input.operationID = id ∧ r.superseded = false
  head : ∀ t t' r r', s.rounds.row t = some r → s.rounds.row t' = some r' → r.superseded = false →
    r'.superseded = false → r.input.operationID = r'.input.operationID → t = t'
  known : ∀ t r, s.rounds.row t = some r → ∃ op, s.ops.row r.input.operationID = some op
  superseded : ∀ t r, s.rounds.row t = some r → r.superseded = true → ∃ how, r.phase = .ended how
  saved : ∀ t r c hash op, s.rounds.row t = some r → r.checkpoint = some c → c.transactionHash = some hash →
    s.ops.row r.input.operationID = some op → op.txHash = some hash
  unsent : ∀ t r c op, s.rounds.row t = some r → r.checkpoint = some c → c.broadcastNotSent = true →
    r.superseded = false → s.ops.row r.input.operationID = some op →
    Unsent (s.history r.input.operationID) op

/-- **What the claim `k` may count on** between `s` and a later `t`. While it holds its round, nobody else writes the
    round or the operation; its unused permission to pay stays its own even after the claim is lost. -/
structure Rely (k : Nat × Nat) (s t : State) : Prop where
  hash : ∀ id op, s.ops.row id = some op → ∃ op', t.ops.row id = some op' ∧
    ∀ hash, op.txHash = some hash → op'.txHash = some hash
  receipts : ∀ id hash, hash ∈ (s.history id).receipts → hash ∈ (t.history id).receipts
  approved : ∀ id, (s.history id).approved = true → (t.history id).approved = true
  permit : ∀ id, (s.history id).signer = some k → (s.history id).signings = 0 →
    (t.history id).signer = some k ∧ (t.history id).signings = 0
  current : Round.Current t.rounds k → Round.Current s.rounds k
  round : Round.Current t.rounds k → t.rounds.row k.1 = s.rounds.row k.1
  row : Round.Current t.rounds k → ∀ id op, s.ops.row id = some op → op.taskID = some k.1 →
    t.ops.row id = some op
  /-- After its call, the holder's view of what was sent stays right until it is recorded. -/
  sent : Round.Current t.rounds k → ∀ id op, s.ops.row id = some op → op.taskID = some k.1 →
    op.txHash = none → (s.history id).signer = some k → (s.history id).signings = 1 →
    (t.history id).signer = some k ∧ (t.history id).signings = 1 ∧ (t.history id).sent = (s.history id).sent

/-- How a pending operation whose broadcast was admitted may go on. -/
inductive Leaves (s t : State) (id : Nat) (op op' : WalletOperation) : Prop
  | stays : op'.status = .pending → Leaves s t id op op'
  | recorded : op'.status = .submitted → op'.txHash ≠ none → Leaves s t id op op'
  | notSent (taskID : Nat) (r : WalletRound) (c : Checkpoint) : op'.status = .failed → op.taskID = some taskID →
      t.rounds.row taskID = some r → r.checkpoint = some c → c.broadcastNotSent = true → Leaves s t id op op'
  | inPlace : op'.status = .confirmed → op'.txHash = none → (t.history id).approved = true → Leaves s t id op op'
  | unknown : op'.status = .unknown → Leaves s t id op op'

/-- A failed round of the operation recorded that its attempt sent nothing, and nothing was sent. -/
def Disproved (s : State) (id : Nat) : Prop :=
  ∃ taskID r c reason, s.rounds.row taskID = some r ∧ r.input.operationID = id ∧ r.phase = .ended (.failed, reason) ∧
    r.checkpoint = some c ∧ c.broadcastNotSent = true ∧ (s.history id).sent = []

/-- What a step may make of an operation. -/
structure Evolves (s t : State) (id : Nat) (op op' : WalletOperation) : Prop where
  request : op'.type = op.type ∧ op'.clientRequestID = op.clientRequestID ∧ op'.amount = op.amount
  hash : ∀ hash, op.txHash = some hash → op'.txHash = some hash
  bytes : ∀ tx, op.signedTransaction = some tx → op'.signedTransaction = some tx
  final : op.status = .confirmed ∨ op.status = .unknown → op' = op
  leaves : op.status = .pending → op.broadcastAttempted = true → Leaves s t id op op'
  attempted : op.broadcastAttempted = true → op'.broadcastAttempted = true ∨ Disproved s id

/-- The round is over, and a manual retry of it is refused. -/
def Frozen (s : State) (taskID : Nat) (r : WalletRound) : Prop :=
  r.isOpen = false ∧ inspectRetry taskID r (s.ops.row r.input.operationID) = false

/-- **What every step does**: operations evolve, a transaction is put on the network only by the payment
    call of an admitted attempt or because it is the recorded one, and a frozen round stays, with the
    operation it owns. A new attempt starts only after the one before is `Disproved`. -/
structure Guar (s t : State) : Prop where
  row : ∀ id op, s.ops.row id = some op → ∃ op', t.ops.row id = some op' ∧ Evolves s t id op op'
  sent : ∀ id hash, hash ∈ (t.history id).sent → hash ∈ (s.history id).sent ∨
    ((s.history id).signer ≠ none ∧ (s.history id).signings = 0 ∧ (t.history id).signings = 1) ∨
    ∃ op, s.ops.row id = some op ∧ op.txHash = some hash
  frozen : ∀ taskID r, s.rounds.row taskID = some r → Frozen s taskID r → t.rounds.row taskID = some r ∧
    ∀ id op, s.ops.row id = some op → op.taskID = some taskID → t.ops.row id = some op
  restarts : ∀ id, (s.history id).signings ≤ (t.history id).signings ∨ Disproved s id

theorem Evolves.refl (s t : State) (id : Nat) (op : WalletOperation) : Evolves s t id op op where
  request := ⟨rfl, rfl, rfl⟩
  hash _ h := h
  bytes _ h := h
  final _ := rfl
  leaves h _ := .stays h
  attempted := .inl

theorem Rely.refl (k : Nat × Nat) (s : State) : Rely k s s where
  hash _ op h := ⟨op, h, fun _ hh => hh⟩
  receipts _ _ h := h
  approved _ h := h
  permit _ h h' := ⟨h, h'⟩
  current h := h
  round _ := rfl
  row _ _ _ h _ := h
  sent _ _ _ _ _ _ h h' := ⟨h, h', rfl⟩

variable {s t : State}

theorem Rely.trans {k : Nat × Nat} {u : State} (h : Rely k s t) (h' : Rely k t u) : Rely k s u where
  hash id op hop := by
    obtain ⟨op', hop', hh⟩ := h.hash id op hop
    obtain ⟨op'', hop'', hh'⟩ := h'.hash id op' hop'
    exact ⟨op'', hop'', fun hash hhash => hh' hash (hh hash hhash)⟩
  receipts id hash hr := h'.receipts id hash (h.receipts id hash hr)
  approved id ha := h'.approved id (h.approved id ha)
  permit id hs hn := by
    obtain ⟨hs', hn'⟩ := h.permit id hs hn
    exact h'.permit id hs' hn'
  current hc := h.current (h'.current hc)
  round hc := (h'.round hc).trans (h.round (h'.current hc))
  row hc id op hop ho := h'.row hc id op (h.row (h'.current hc) id op hop ho) ho
  sent hc id op hop ho hhash hs hn := by
    have hct := h'.current hc
    obtain ⟨hs', hn', hsent⟩ := h.sent hct id op hop ho hhash hs hn
    obtain ⟨hs'', hn'', hsent'⟩ := h'.sent hc id op (h.row hct id op hop ho) ho hhash hs' hn'
    exact ⟨hs'', hn'', hsent'.trans hsent⟩

theorem Guar.refl (s : State) : Guar s s where
  row id op h := ⟨op, h, .refl s s id op⟩
  sent _ _ h := .inl h
  frozen _ _ h _ := ⟨h, fun _ _ hop _ => hop⟩
  restarts _ := .inl (Nat.le_refl _)

def contract : Prog.Contract State (Nat × Nat) where
  inv := Inv
  live s k := Round.Issued s.rounds k
  rely := Rely
  guar := Guar
  rely_refl := Rely.refl
  rely_trans _ _ _ _ := Rely.trans
  guar_refl := Guar.refl

/-! ## Writes of a claim holder -/

theorem updateOperation_ok {id : Nat} {err : RepoError} {p : WalletOperation → Bool}
    {f : WalletOperation → WalletOperation} {u : Unit} (h : (updateOperation id err p f).Ok s u t) :
    ∃ op, s.ops.row id = some op ∧ p op = true ∧ t = { s with ops := s.ops.modify id f } := by
  simp only [updateOperation, Tx.ok_bind, Tx.ok_read, Tx.ok_orFail, Tx.ok_require, Tx.ok_write] at h
  obtain ⟨_, _, ⟨rfl, rfl⟩, op, _, ⟨hop, rfl⟩, _, _, ⟨hp, rfl⟩, rfl⟩ := h
  exact ⟨op, hop, hp, rfl⟩

/-- Round `i`, which is not superseded, moved from `r` to `r'`. -/
structure RoundMove (i : Nat) (s t : State) (r r' : WalletRound) : Prop extends
    Round.Moved i s.rounds t.rounds r r' where
  current : r.superseded = false

section RoundMoves

variable {i : Nat} {s t : State} {r r' : WalletRound} {j : Nat} {q : WalletRound}

section

variable (hi : Inv s) (h : RoundMove i s t r r')
include hi h

theorem RoundMove.head {j' : Nat} {q' : WalletRound}
    (hq : t.rounds.row j = some q) (hq' : t.rounds.row j' = some q') (hs : q.superseded = false)
    (hs' : q'.superseded = false) (heq : q.input.operationID = q'.input.operationID) : j = j' := by
  obtain ⟨q₀, hq₀, hin, hsup, -⟩ := h.back hq
  obtain ⟨q₀', hq₀', hin', hsup', -⟩ := h.back hq'
  exact hi.head j j' q₀ q₀' hq₀ hq₀' (by rw [← hsup, hs]) (by rw [← hsup', hs']) (by rw [← hin, ← hin', heq])

theorem RoundMove.ended (hq : t.rounds.row j = some q) (hs : q.superseded = true) : ∃ how, q.phase = .ended how := by
  obtain ⟨q₀, hq₀, -, -, heq⟩ := h.back hq
  rcases heq with rfl | ⟨rfl, rfl⟩
  · exact hi.superseded j q hq₀ hs
  · rw [h.superseded, h.current] at hs
    cases hs

theorem RoundMove.inv (hops : t.ops = s.ops) (hhist : t.history = s.history)
    (hsaved : ∀ c hash op, r'.checkpoint = some c → c.transactionHash = some hash →
      s.ops.row r.input.operationID = some op → op.txHash = some hash)
    (hunsent : ∀ c op, r'.checkpoint = some c → c.broadcastNotSent = true →
      s.ops.row r.input.operationID = some op → Unsent (s.history r.input.operationID) op) : Inv t := by
  refine ⟨?_, ?_, ?_, ?_, ?_, ?_, ?_, ?_, ?_, ?_, ?_⟩
  · rw [hops, hhist]; exact hi.fresh
  · rw [hhist]; exact hi.single
  · rw [hops]; exact hi.shape
  · rw [hops, hhist]; exact hi.recorded
  · rw [hops]; exact hi.request
  · intro id op taskID hop ho
    rw [hops] at hop
    obtain ⟨q₀, hq₀, hin, hsup⟩ := hi.owner id op taskID hop ho
    obtain ⟨q, hq, hin', hsup'⟩ := h.forth hq₀
    exact ⟨q, hq, by rw [hin', hin], by rw [hsup', hsup]⟩
  · intro j j' q q' hq hq' hs hs' heq
    exact h.head hi hq hq' hs hs' heq
  · intro j q hq
    obtain ⟨q₀, hq₀, hin, -, -⟩ := h.back hq
    rw [hops, hin]
    exact hi.known j q₀ hq₀
  · intro j q hq hs
    exact h.ended hi hq hs
  · intro j q c hash op hq hc hh hop
    obtain ⟨q₀, hq₀, -, -, heq⟩ := h.back hq
    rw [hops] at hop
    rcases heq with rfl | ⟨rfl, rfl⟩
    · exact hi.saved j q c hash op hq₀ hc hh hop
    · rw [h.input] at hop; exact hsaved c hash op hc hh hop
  · intro j q c op hq hc hn hs hop
    obtain ⟨q₀, hq₀, -, -, heq⟩ := h.back hq
    rw [hops] at hop
    rw [hhist]
    rcases heq with rfl | ⟨rfl, rfl⟩
    · exact hi.unsent j q c op hq₀ hc hn hs hop
    · rw [h.input] at hop ⊢; exact hunsent c op hc hn hop

theorem RoundMove.inv_same (hops : t.ops = s.ops)
    (hhist : t.history = s.history) (hc : r'.checkpoint = r.checkpoint) : Inv t := by
  refine h.inv hi hops hhist (fun c hash op hrc hh hop => ?_) fun c op hrc hn hop => ?_
  · exact hi.saved i r c hash op h.round (by rw [← hc]; exact hrc) hh hop
  · exact hi.unsent i r c op h.round (by rw [← hc]; exact hrc) hn h.current hop

end

end RoundMoves

variable {s : State}

theorem Rely.of_rounds {k : Nat × Nat} {t : State} (hops : ∀ id op, s.ops.row id = some op → t.ops.row id = some op)
    (hhist : t.history = s.history)
    (h : Round.Current t.rounds k → Round.Current s.rounds k ∧ t.rounds.row k.1 = s.rounds.row k.1) :
    Rely k s t := by
  refine ⟨fun id op hop => ⟨op, hops id op hop, fun _ hh => hh⟩, ?_, ?_, ?_, fun hc => (h hc).1, fun hc => (h hc).2,
    fun _ id op hop _ => hops id op hop, ?_⟩
  · intro id hash hh; rw [hhist]; exact hh
  · intro id hh; rw [hhist]; exact hh
  · intro id hs hn; rw [hhist]; exact ⟨hs, hn⟩
  · intro _ id op _ _ _ hs hn; rw [hhist]; exact ⟨hs, hn, rfl⟩

variable {r : WalletRound}

theorem Guar.of_rounds {i : Nat} {t : State} {r' : WalletRound} (h : RoundMove i s t r r')
    (hopen : r.isOpen = true) (hops : t.ops = s.ops) (hhist : t.history = s.history) : Guar s t := by
  refine ⟨fun id op hop => ⟨op, by rw [hops]; exact hop, .refl s t id op⟩, fun id hash hh => .inl ?_,
    fun j q hq hf => ⟨h.over hopen hq hf.1, fun id op hop _ => by rw [hops]; exact hop⟩, fun _ => .inl ?_⟩
  · rw [← hhist]; exact hh
  · rw [hhist]

theorem Inv.open_current (hi : Inv s) {t : Nat} (hr : s.rounds.row t = some r) (ho : r.isOpen = true) :
    r.superseded = false := by
  cases hs : r.superseded with
  | false => rfl
  | true =>
    obtain ⟨how, hp⟩ := hi.superseded t r hr hs
    rw [Round.isOpen, hp] at ho
    cases ho

/-- The holder `k` moved its round from `r` to `r'`. -/
structure OwnRound (k : Nat × Nat) (s t : State) (r r' : WalletRound) : Prop extends
    Round.HeldMove k s.rounds t.rounds r r' where
  current : r.superseded = false

section OwnRounds

variable {k k' : Nat × Nat} {s t : State} {r r' : WalletRound}

theorem OwnRound.toRoundMove (h : OwnRound k s t r r') : RoundMove k.1 s t r r' :=
  ⟨h.toMoved, h.current⟩

theorem OwnRound.keeps (hi : Inv s) (h : OwnRound k s t r r') (hops : t.ops = s.ops) (hhist : t.history = s.history)
    (hsaved : ∀ c hash op, r'.checkpoint = some c → c.transactionHash = some hash →
      s.ops.row r.input.operationID = some op → op.txHash = some hash)
    (hunsent : ∀ c op, r'.checkpoint = some c → c.broadcastNotSent = true →
      s.ops.row r.input.operationID = some op → Unsent (s.history r.input.operationID) op) :
    contract.Keeps k s t where
  inv := h.toRoundMove.inv hi hops hhist hsaved hunsent
  guar := .of_rounds h.toRoundMove h.holds.isOpen hops hhist
  live _ hk := h.issued (Nat.le_of_eq h.token.symm) hk
  rely _ hne _ := .of_rounds (by rw [hops]; exact fun _ _ hop => hop) hhist fun hc =>
    ⟨h.still_current hne hc, (h.other hne hc).2⟩

end OwnRounds

/-- One operation changes from `op` to `op'`; of its record the signature may be new. -/
structure OpWrite (s t : State) (id : Nat) (op op' : WalletOperation) : Prop where
  row : s.ops.row id = some op
  ops : ∀ j, t.ops.row j = if j = id then some op' else s.ops.row j
  others : ∀ j, j ≠ id → t.history j = s.history j
  sent : (t.history id).sent = (s.history id).sent
  receipts : (t.history id).receipts = (s.history id).receipts
  approved : (t.history id).approved = (s.history id).approved

section OpWrites

variable {s t : State} {id j : Nat} {op op' q : WalletOperation}

theorem OpWrite.back (h : OpWrite s t id op op') (hq : t.ops.row j = some q) :
    (j = id ∧ q = op') ∨ (j ≠ id ∧ s.ops.row j = some q) := by
  rw [h.ops] at hq
  split at hq
  · next hj => cases hq; exact .inl ⟨hj, rfl⟩
  · next hj => exact .inr ⟨hj, hq⟩

theorem OpWrite.forth (h : OpWrite s t id op op') (hev : Evolves s t id op op') (hq : s.ops.row j = some q) :
    ∃ q', t.ops.row j = some q' ∧ Evolves s t j q q' := by
  by_cases hj : j = id
  · rw [hj] at hq ⊢
    rw [h.row] at hq
    cases hq
    exact ⟨op', by rw [h.ops, if_pos rfl], hev⟩
  · exact ⟨q, by rw [h.ops, if_neg hj]; exact hq, .refl s t j q⟩

theorem OpWrite.record (h : OpWrite s t id op op') (j : Nat) : (t.history j).sent = (s.history j).sent ∧
    (t.history j).receipts = (s.history j).receipts ∧ (t.history j).approved = (s.history j).approved := by
  by_cases hj : j = id
  · rw [hj]; exact ⟨h.sent, h.receipts, h.approved⟩
  · rw [h.others j hj]; exact ⟨rfl, rfl, rfl⟩

theorem OpWrite.operations (hi : Inv s) (h : OpWrite s t id op op') (hev : Evolves s t id op op') (hshape : Shape op')
    (hrec : Recorded (t.history id) op') :
    (∀ j, t.ops.row j = none → t.history j = {}) ∧
      (∀ j q, t.ops.row j = some q → Shape q ∧ Recorded (t.history j) q) ∧
      ∀ j j' q q', t.ops.row j = some q → t.ops.row j' = some q' → q.type = q'.type →
        q.clientRequestID = q'.clientRequestID → j = j' := by
  refine ⟨fun j hj => ?_, fun j q hq => ?_, fun j j' q q' hq hq' hty hid => ?_⟩
  · rw [h.ops] at hj
    split at hj
    · cases hj
    · next hne => rw [h.others j hne]; exact hi.fresh j hj
  · rcases h.back hq with ⟨rfl, rfl⟩ | ⟨hj, hq⟩
    · exact ⟨hshape, hrec⟩
    · rw [h.others j hj]; exact ⟨hi.shape j q hq, hi.recorded j q hq⟩
  · have hold : ∀ i w, t.ops.row i = some w → ∃ w₀, s.ops.row i = some w₀ ∧ w.type = w₀.type ∧
        w.clientRequestID = w₀.clientRequestID := by
      intro i w hw
      rcases h.back hw with ⟨rfl, rfl⟩ | ⟨-, hw⟩
      · exact ⟨op, h.row, hev.request.1, hev.request.2.1⟩
      · exact ⟨w, hw, rfl, rfl⟩
    obtain ⟨w, hw, hwt, hwi⟩ := hold j q hq
    obtain ⟨w', hw', hwt', hwi'⟩ := hold j' q' hq'
    exact hi.request j j' w w' hw hw' (by rw [← hwt, ← hwt', hty]) (by rw [← hwi, ← hwi', hid])

theorem OpWrite.rely {k : Nat × Nat} (h : OpWrite s t id op op') (hev : Evolves s t id op op')
    (hcur : Round.Current t.rounds k → Round.Current s.rounds k ∧ t.rounds.row k.1 = s.rounds.row k.1)
    (hown : Round.Current t.rounds k → op.taskID ≠ some k.1)
    (hpermit : (s.history id).signer = some k → (s.history id).signings = 0 →
      (t.history id).signer = some k ∧ (t.history id).signings = 0) : Rely k s t := by
  -- what a current claim owns is another operation
  have hne : ∀ j q, Round.Current t.rounds k → s.ops.row j = some q → q.taskID = some k.1 → j ≠ id := by
    rintro j q hc hq ho rfl
    cases h.row.symm.trans hq
    exact hown hc ho
  refine ⟨fun j q hq => ?_, fun j hash hh => ?_, fun j hh => ?_, fun j hs hn => ?_, fun hc => (hcur hc).1,
    fun hc => (hcur hc).2, fun hc j q hq ho => ?_, fun hc j q hq ho _ hs hn => ?_⟩
  · obtain ⟨q', hq', hev'⟩ := h.forth hev hq
    exact ⟨q', hq', hev'.hash⟩
  · rw [(h.record j).2.1]; exact hh
  · rw [(h.record j).2.2]; exact hh
  · by_cases hj : j = id
    · subst hj; exact hpermit hs hn
    · rw [h.others j hj]; exact ⟨hs, hn⟩
  · rw [h.ops, if_neg (hne j q hc hq ho)]; exact hq
  · rw [h.others j (hne j q hc hq ho)]; exact ⟨hs, hn, rfl⟩

/-- A frozen round stays and does not own the operation; of the attempts none starts, or the last one is disproved. -/
theorem OpWrite.guar (h : OpWrite s t id op op') (hev : Evolves s t id op op')
    (hfrozen : ∀ j r, s.rounds.row j = some r → Frozen s j r → t.rounds.row j = some r ∧ op.taskID ≠ some j)
    (hrestarts : (s.history id).signings ≤ (t.history id).signings ∨ Disproved s id) : Guar s t := by
  refine ⟨fun j q hq => h.forth hev hq, fun j hash hh => .inl ?_, fun j r hr hf => ?_, fun j => ?_⟩
  · rw [← (h.record j).1]; exact hh
  · obtain ⟨hr', hne⟩ := hfrozen j r hr hf
    refine ⟨hr', fun i w hw ho => ?_⟩
    have hi : i ≠ id := by
      rintro rfl
      cases h.row.symm.trans hw
      exact hne ho
    rw [h.ops, if_neg hi]
    exact hw
  · by_cases hj : j = id
    · subst hj; exact hrestarts
    · rw [h.others j hj]; exact .inl (Nat.le_refl _)

end OpWrites

/-- The holder `k` of the operation's round changed the operation from `op` to `op'`; of the record only the
    signer of this operation may be new. -/
structure OwnWrite (k : Nat × Nat) (s t : State) (id : Nat) (op op' : WalletOperation)
    (r r' : WalletRound) : Prop extends OwnRound k s t r r', OpWrite s t id op op' where
  owner : op.taskID = some k.1
  signings : (t.history id).signings = (s.history id).signings
  signer : (t.history id).signer = (s.history id).signer ∨ (s.history id).signer = none

/-- What a holder may make of its operation and of its round's checkpoint. -/
structure Legal (s t : State) (id : Nat) (op op' : WalletOperation) (r' : WalletRound) : Prop where
  evolves : Evolves s t id op op'
  shape : Shape op'
  recorded : Recorded (t.history id) op'
  owner : op'.taskID = op.taskID ∨ op'.taskID = none
  saved : ∀ c hash, r'.checkpoint = some c → c.transactionHash = some hash → op'.txHash = some hash
  unsent : ∀ c, r'.checkpoint = some c → c.broadcastNotSent = true → Unsent (t.history id) op'

section OwnWrites

variable {k : Nat × Nat} {s t : State} {id : Nat} {op op' : WalletOperation} {r r' : WalletRound}

theorem OwnWrite.input_eq (hi : Inv s) (h : OwnWrite k s t id op op' r r') : r.input.operationID = id := by
  obtain ⟨q, hq, hin, -⟩ := hi.owner id op k.1 h.row h.owner
  rw [h.round] at hq
  cases hq
  exact hin

theorem OwnWrite.single (hi : Inv s) (h : OwnWrite k s t id op op' r r') (j : Nat) : Single (t.history j) := by
  have hs := hi.single j
  by_cases hj : j = id
  · rw [hj] at hs ⊢
    exact ⟨by rw [h.signings]; exact hs.once, by rw [h.signings, h.sent]; exact hs.unsigned,
      by rw [h.sent]; exact hs.same⟩
  · rw [h.others j hj]; exact hs

theorem OwnWrite.rely (h : OwnWrite k s t id op op' r r') (hev : Evolves s t id op op') {k' : Nat × Nat} (hne : k' ≠ k) :
    Rely k' s t := by
  refine h.toOpWrite.rely hev (fun hc => ⟨h.still_current hne hc, (h.other hne hc).2⟩) (fun hc ho => ?_)
    fun hs hn => ?_
  · rw [h.owner] at ho
    exact (h.other hne hc).1 (Option.some.inj ho).symm
  · rcases h.signer with heq | hnone
    · rw [heq, h.signings]; exact ⟨hs, hn⟩
    · rw [hnone] at hs; cases hs

theorem OwnWrite.keeps (hi : Inv s) (h : OwnWrite k s t id op op' r r') (hl : Legal s t id op op' r') :
    contract.Keeps k s t := by
  have hin := h.input_eq hi
  obtain ⟨hfresh, hops, hrequest⟩ := h.toOpWrite.operations hi hl.evolves hl.shape hl.recorded
  refine ⟨⟨hfresh, h.single hi, fun j q hq => (hops j q hq).1, fun j q hq => (hops j q hq).2, hrequest, ?_, ?_, ?_, ?_,
    ?_, ?_⟩, ?_, fun _ hk => h.issued (Nat.le_of_eq h.token.symm) hk, fun k' hne _ => h.rely hl.evolves hne⟩
  · intro j q taskID hq ho
    have hold : ∃ w₀, s.rounds.row taskID = some w₀ ∧ w₀.input.operationID = j ∧ w₀.superseded = false := by
      rcases h.toOpWrite.back hq with ⟨rfl, rfl⟩ | ⟨-, hq⟩
      · rcases hl.owner with heq | hnone
        · rw [heq] at ho; exact hi.owner j op taskID h.row ho
        · rw [hnone] at ho; cases ho
      · exact hi.owner j q taskID hq ho
    obtain ⟨w₀, hw₀, hwin, hsup⟩ := hold
    obtain ⟨w, hw, hwin', hsup'⟩ := h.toMoved.forth hw₀
    exact ⟨w, hw, by rw [hwin', hwin], by rw [hsup', hsup]⟩
  · intro j j' q q' hq hq' hs hs' heq
    exact h.toRoundMove.head hi hq hq' hs hs' heq
  · intro j q hq
    obtain ⟨q₀, hq₀, hqin, -, -⟩ := h.toMoved.back hq
    obtain ⟨w, hw⟩ := hi.known j q₀ hq₀
    obtain ⟨w', hw', -⟩ := h.toOpWrite.forth hl.evolves hw
    exact ⟨w', by rw [hqin]; exact hw'⟩
  · intro j q hq hs
    exact h.toRoundMove.ended hi hq hs
  · intro j q c hash w hq hc hh hw
    obtain ⟨q₀, hq₀, hqin, -, heq⟩ := h.toMoved.back hq
    rcases heq with rfl | ⟨rfl, rfl⟩
    · rcases h.toOpWrite.back hw with ⟨hj, rfl⟩ | ⟨-, hw⟩
      · exact hl.evolves.hash hash (hi.saved j q c hash op hq₀ hc hh (by rw [hj]; exact h.row))
      · exact hi.saved j q c hash w hq₀ hc hh hw
    · rw [h.input, hin, h.ops, if_pos rfl] at hw
      cases hw
      exact hl.saved c hash hc hh
  · intro j q c w hq hc hn hs hw
    obtain ⟨q₀, hq₀, hqin, hsup, heq⟩ := h.toMoved.back hq
    rcases heq with rfl | ⟨rfl, rfl⟩
    · rcases h.toOpWrite.back hw with ⟨hj, rfl⟩ | ⟨hj, hw⟩
      · -- the current round of the written operation is the writer's
        have hjk : j = k.1 := hi.head j k.1 q r hq₀ h.round hs h.current (by rw [hj, hin])
        rw [hjk, h.rounds, if_pos rfl] at hq
        cases hq
        rw [hj]
        exact hl.unsent c hc hn
      · rw [h.others _ hj]; exact hi.unsent j q c w hq₀ hc hn hs hw
    · rw [h.input, hin] at hw ⊢
      rw [h.ops, if_pos rfl] at hw
      cases hw
      exact hl.unsent c hc hn
  · refine h.toOpWrite.guar hl.evolves (fun j q hq hf => ⟨h.over h.holds.isOpen hq hf.1, fun ho => ?_⟩)
      (.inl (Nat.le_of_eq h.signings.symm))
    -- the written operation is owned by a held round
    rw [h.owner] at ho
    cases ho
    cases h.round.symm.trans hq
    exact Bool.false_ne_true (hf.1.symm.trans h.holds.isOpen)

end OwnWrites

end SynapS3.Wallet
