import SynapS3.Wallet.Handler

/-!
# `Wallet.Replay` — what a replay sends, and what its verdicts mean on chain

A replay reads the chain five times, each time at an instant of its own (`Reads`). The chain at an instant is a list
of blocks with the payer's transactions in them, and a first part of it is finalized (`Chain`): what is finalized
stays, the payer's transactions are included in the order of their nonces, block times increase, and a payment under
a permit succeeds only in a block that is not later than the permit's deadline.

A verdict is about the future: a transaction that is *displaced* is on no chain of any later instant, one whose
permit *expired* is successful in no block above the finalized one. The first of the two is sound exactly if the
saved transaction is not in the finalized part of the chain that the replay reads after it has looked for it in vain
(`Chain.SeenBefore`); otherwise it is the saved transaction itself that used the nonce.
-/

namespace SynapS3.Wallet

open Tasks (outside)

/-! ## The chain -/

/-- A transaction of the payer in a block. -/
structure Included where
  hash : TxHash
  nonce : Nat
  successful : Bool
  deriving DecidableEq

/-- A block, with the payer's transactions in it. -/
structure Block where
  time : Nat
  txs : List Included := []
  deriving DecidableEq

def included (blocks : List Block) : List Included := blocks.flatMap (·.txs)

/-- The chain as the node shows it at every instant, for one saved transaction. -/
structure Chain (tx : SignedTx) where
  chain : Nat → List Block
  finalized : Nat → Nat
  pool : Nat → Bool
  finalized_pos : ∀ i, 0 < finalized i
  finalized_le : ∀ i, finalized i ≤ (chain i).length
  final : ∀ {i j}, i ≤ j → (chain j).take (finalized i) = (chain i).take (finalized i)
  /-- The payer's transactions use its nonces one after the other. -/
  nonces : ∀ i, (included (chain i)).map (·.nonce) = List.range (included (chain i)).length
  hash_nonce : ∀ i, ∀ t ∈ included (chain i), t.hash = tx.hash → t.nonce = tx.nonce
  times : ∀ i, (chain i).Pairwise (·.time < ·.time)
  permit : ∀ i, ∀ b ∈ chain i, ∀ t ∈ b.txs, t.hash = tx.hash → t.successful = true →
    ∀ deadline, tx.deadline = some deadline → b.time ≤ deadline

def onChain (tx : SignedTx) (blocks : List Block) : Bool := (included blocks).any (·.hash == tx.hash)

/-! ## The reads of a replay -/

/-- The instants at which the reads of one replay see the chain, in their order, and what else it is told. A read
    that fails has no instant. -/
structure Reads where
  receipt : Nat
  visible : Nat
  header : Nat
  settled : Nat
  latest : Nat
  receipt_le : receipt ≤ visible
  visible_le : visible ≤ header
  header_le : header ≤ settled
  settled_le : settled ≤ latest
  configured : Bool := true
  chainID : Option (Option Nat)
  receiptFails : Bool := false
  visibleFails : Bool := false
  headerFails : Bool := false
  settledFails : Bool := false
  latestFails : Bool := false
  pending : Option Nat
  clock : Nat
  accepted : Bool

def Chain.finalizedBlock {tx : SignedTx} (h : Chain tx) (i : Nat) : Option Block := (h.chain i)[h.finalized i - 1]?

/-- What the node answers. `NonceAt` of the finalized block is asked later than the block itself. -/
def Reads.answer {tx : SignedTx} (h : Chain tx) (reads : Reads) : (q : Query) → q.Reply
  | .walletIdentity => none
  | .pay .. => ⟨none, none⟩
  | .transactionReceipt .. => .notFound
  | .replayConfigured => reads.configured
  | .chainID => reads.chainID
  | .replayReceipt hash =>
    if reads.receiptFails then .error
    else if (included (h.chain reads.receipt)).any (·.hash == hash) then .found (some hash)
    else .notFound
  | .transactionByHash hash =>
    if reads.visibleFails then .error
    else if (included (h.chain reads.visible)).any (·.hash == hash) || h.pool reads.visible then .found (some hash)
    else .notFound
  | .finalizedHeader => if reads.headerFails then none else (h.finalizedBlock reads.header).map (·.time)
  | .finalizedNonce =>
    if reads.settledFails then none
    else some (included ((h.chain reads.settled).take (h.finalized reads.header))).length
  | .latestNonce => if reads.latestFails then none else some (included (h.chain reads.latest)).length
  | .pendingNonce => reads.pending
  | .clock => reads.clock
  | .sendTransaction .. => reads.accepted

/-- Run a program that only calls the outside: what it asked, and its result. -/
def asked {α : Type} (answer : (q : Query) → q.Reply) : WalletM α → Option (List Query × α)
  | .ret a => some ([], a)
  | .act (.call (.outside q)) k => (asked answer (k (answer q))).map fun (qs, a) => (q :: qs, a)
  | .act _ _ => none

/-- How transactions are written as bytes. -/
structure Encoding (B : Type) where
  unmarshal : B → Option SignedTx
  marshal : SignedTx → Option B

/-- What an operation has saved of its transaction. -/
structure Saved (B : Type) where
  txHash : Option TxHash
  bytes : Option B

variable {B : Type} [DecidableEq B]

/-- `decodeWalletSubmission`: the bytes have to be the encoding of what they decode to. -/
def decodeWalletSubmission (enc : Encoding B) (identity : ExecutionIdentity) (type : WalletOperationType)
    (amount : Nat) (saved : Saved B) : Except ReplayError (Option SignedTx) :=
  match saved.bytes with
  | none =>
    if validateWalletSubmission identity type amount { txHash := saved.txHash } then .ok none
    else .error .invalidEvidence
  | some bytes =>
    match enc.unmarshal bytes with
    | none => .error .invalidEvidence
    | some tx =>
      if enc.marshal tx = some bytes ∧
          validateWalletSubmission identity type amount
            { txHash := saved.txHash, signedTransaction := some tx } = true then
        .ok (some tx)
      else .error .invalidEvidence

/-- What a replay of saved bytes asks, and its verdict. The history is that of the transaction they decode to. -/
def replay (enc : Encoding B) (identity : ExecutionIdentity) (id : Nat) (type : WalletOperationType) (amount : Nat)
    (saved : Saved B) (answer : SignedTx → (q : Query) → q.Reply) : Option (List Query × Option ReplayError) :=
  match decodeWalletSubmission enc identity type amount saved with
  | .error e => some ([], some e)
  | .ok none => some ([], some .skipped)
  | .ok (some tx) =>
    asked (answer tx)
      (rebroadcastSignedTransaction identity id type amount { txHash := saved.txHash, signedTransaction := some tx })

/-! ## What the answers mean -/

theorem included_append (l l' : List Block) : included (l ++ l') = included l ++ included l' :=
  List.flatMap_append

variable {tx : SignedTx} {h : Chain tx} {reads : Reads}

theorem Chain.nonce_above (i n : Nat) {t : Included} (ht : t ∈ included ((h.chain i).drop n)) :
    (included ((h.chain i).take n)).length ≤ t.nonce := by
  have hsplit : included (h.chain i) = included ((h.chain i).take n) ++ included ((h.chain i).drop n) := by
    rw [← included_append, List.take_append_drop]
  obtain ⟨k, hk, rfl⟩ := List.getElem_of_mem ht
  have hnonce : ((included (h.chain i)).map (·.nonce))[(included ((h.chain i).take n)).length + k]? =
      some (included ((h.chain i).drop n))[k].nonce := by
    rw [hsplit, List.getElem?_map, List.getElem?_append_right (Nat.le_add_right ..), Nat.add_sub_cancel_left,
      List.getElem?_eq_getElem hk]
    rfl
  rw [h.nonces, List.getElem?_range] at hnonce
  · have := Option.some.inj hnonce
    omega
  · rw [hsplit, List.length_append]
    omega

/-- The saved transaction is in the finalized part that is read at `header` only if a lookup before could see it. -/
def Chain.SeenBefore (h : Chain tx) (reads : Reads) : Prop :=
  onChain tx ((h.chain reads.header).take (h.finalized reads.header)) = true →
    onChain tx (h.chain reads.receipt) = true ∨ onChain tx (h.chain reads.visible) = true ∨
      h.pool reads.visible = true

theorem onChain_append (l l' : List Block) : onChain tx (l ++ l') = (onChain tx l || onChain tx l') := by
  simp only [onChain, included_append, List.any_append]

variable {j : Nat}

section

variable (hj : reads.header ≤ j)
  (hn : tx.nonce < (included ((h.chain reads.settled).take (h.finalized reads.header))).length)
include hj hn

theorem Chain.not_above_of_settled : onChain tx ((h.chain j).drop (h.finalized reads.header)) = false := by
  rw [h.final reads.header_le, ← h.final hj] at hn
  rw [onChain, List.any_eq_false]
  intro t ht hhash
  have habove := h.nonce_above j _ ht
  have hmem : t ∈ included (h.chain j) := by
    rw [← List.take_append_drop (h.finalized reads.header) (h.chain j), included_append]
    exact List.mem_append_right _ ht
  have hnonce := h.hash_nonce j t hmem (by simpa using hhash)
  omega

/-- Once the nonce is used in the finalized part, the transaction is there or nowhere, now and later. -/
theorem Chain.onChain_of_settled :
    onChain tx (h.chain j) = onChain tx ((h.chain reads.header).take (h.finalized reads.header)) := by
  rw [← List.take_append_drop (h.finalized reads.header) (h.chain j), onChain_append,
    h.not_above_of_settled hj hn, Bool.or_false, h.final hj]

end

theorem Chain.displaced_final_iff (hreceipt : onChain tx (h.chain reads.receipt) = false)
    (hvisible : onChain tx (h.chain reads.visible) = false) (hpool : h.pool reads.visible = false)
    (hn : tx.nonce < (included ((h.chain reads.settled).take (h.finalized reads.header))).length) :
    (∀ j, reads.header ≤ j → onChain tx (h.chain j) = false) ↔ h.SeenBefore reads := by
  rw [Chain.SeenBefore, hreceipt, hvisible, hpool]
  constructor
  · intro hfinal hfound
    rw [← h.onChain_of_settled (Nat.le_refl _) hn, hfinal _ (Nat.le_refl _)] at hfound
    exact absurd hfound Bool.false_ne_true
  · intro hseen j hj
    rw [h.onChain_of_settled hj hn, Bool.eq_false_iff]
    intro hfound
    simpa using hseen hfound

variable {b b' : Block} {k : Nat}

theorem Chain.time_above (hb : h.finalizedBlock reads.header = some b) (hj : reads.header ≤ j)
    (hk : h.finalized reads.header ≤ k) (hb' : (h.chain j)[k]? = some b') : b.time < b'.time := by
  have hpos := h.finalized_pos reads.header
  have hsame : (h.chain j)[h.finalized reads.header - 1]? = some b := by
    have htake := congrArg (fun l => l[h.finalized reads.header - 1]?) (h.final hj)
    simp only [List.getElem?_take] at htake
    rw [if_pos (by omega), if_pos (by omega)] at htake
    rw [htake]
    exact hb
  obtain ⟨hlt, rfl⟩ := List.getElem?_eq_some_iff.mp hb'
  obtain ⟨hlt', rfl⟩ := List.getElem?_eq_some_iff.mp hsame
  exact List.pairwise_iff_getElem.mp (h.times j) _ _ hlt' hlt (by omega)

theorem Chain.expired_final {deadline : Nat} (hb : h.finalizedBlock reads.header = some b)
    (hd : tx.deadline = some deadline) (hle : deadline ≤ b.time) (hj : reads.header ≤ j)
    (hk : h.finalized reads.header ≤ k) (hb' : (h.chain j)[k]? = some b') :
    ∀ t ∈ b'.txs, t.hash = tx.hash → t.successful = false := by
  intro t ht hhash
  rw [Bool.eq_false_iff]
  intro hok
  have hperm := h.permit j b' (List.mem_of_getElem? hb') t ht hhash hok deadline hd
  have htime := h.time_above hb hj hk hb'
  omega

/-! ## What a replay asks -/

section

variable {α : Type} {answer : (q : Query) → q.Reply} {id : Nat} {qs : List Query} {v : Option ReplayError}
  {q : Query} {a : α}

theorem asked_outside {f : q.Reply → WalletM α} (hrun : asked answer (outside q >>= f) = some (qs, a)) :
    ∃ qs', qs = q :: qs' ∧ asked answer (f (answer q)) = some (qs', a) := by
  have hmap : (asked answer (f (answer q))).map (fun p => (q :: p.1, p.2)) = some (qs, a) := hrun
  obtain ⟨⟨qs', a'⟩, hrest, heq⟩ := Option.map_eq_some_iff.mp hmap
  cases heq
  exact ⟨qs', rfl, hrest⟩

theorem asked_pure {b : α} (hrun : asked answer (pure a) = some (qs, b)) : qs = [] ∧ b = a := by
  cases hrun
  exact ⟨rfl, rfl⟩

/-- What is known when a replay of `tx` has ended. -/
structure Replayed (answer : (q : Query) → q.Reply) (id : Nat) (tx : SignedTx) (qs : List Query)
    (v : Option ReplayError) : Prop where
  sends : ∀ id' tx', .sendTransaction id' tx' ∈ qs → id' = id ∧ tx' = tx
  displaced : v = some .displaced → answer (.replayReceipt tx.hash) = .notFound ∧
    answer (.transactionByHash tx.hash) = .notFound ∧ ∃ n, answer .finalizedNonce = some n ∧ tx.nonce < n
  expired : v = some .permitExpired → ∃ t, answer .finalizedHeader = some t ∧ tx.deadline.any (· ≤ t) = true

theorem Replayed.of_error {e : ReplayError} (hd : e ≠ .displaced) (he : e ≠ .permitExpired) :
    Replayed answer id tx [] (some e) :=
  ⟨nofun, fun h => absurd (Option.some.inj h) hd, fun h => absurd (Option.some.inj h) he⟩

theorem Replayed.cons (hq : ∀ id' tx', q ≠ .sendTransaction id' tx') (hr : Replayed answer id tx qs v) :
    Replayed answer id tx (q :: qs) v := by
  refine ⟨fun id' tx' hmem => ?_, hr.displaced, hr.expired⟩
  rcases List.mem_cons.mp hmem with heq | hmem
  · exact absurd heq.symm (hq id' tx')
  · exact hr.sends id' tx' hmem

theorem replayed_rebroadcast (hrun : asked answer (rebroadcast id tx) = some (qs, v)) :
    Replayed answer id tx qs v := by
  unfold rebroadcast at hrun
  obtain ⟨qs₁, rfl, hrun₁⟩ := asked_outside hrun
  refine .cons nofun ?_
  split at hrun₁
  · obtain ⟨rfl, rfl⟩ := asked_pure hrun₁
    exact .of_error nofun nofun
  obtain ⟨qs₂, rfl, hrun₂⟩ := asked_outside hrun₁
  refine .cons nofun ?_
  split at hrun₂
  swap
  · obtain ⟨rfl, rfl⟩ := asked_pure hrun₂
    exact .of_error nofun nofun
  split at hrun₂
  · obtain ⟨rfl, rfl⟩ := asked_pure hrun₂
    exact .of_error nofun nofun
  obtain ⟨qs₃, rfl, hrun₃⟩ := asked_outside hrun₂
  refine .cons nofun ?_
  split at hrun₃
  · obtain ⟨rfl, rfl⟩ := asked_pure hrun₃
    exact .of_error nofun nofun
  · obtain ⟨rfl, rfl⟩ := asked_pure hrun₃
    split <;> exact .of_error nofun nofun
  next hreceipt =>
  obtain ⟨qs₄, rfl, hrun₄⟩ := asked_outside hrun₃
  refine .cons nofun ?_
  split at hrun₄
  · obtain ⟨rfl, rfl⟩ := asked_pure hrun₄
    exact .of_error nofun nofun
  · obtain ⟨rfl, rfl⟩ := asked_pure hrun₄
    split <;> exact .of_error nofun nofun
  next hvisible =>
  obtain ⟨qs₅, rfl, hrun₅⟩ := asked_outside hrun₄
  refine .cons nofun ?_
  split at hrun₅
  swap
  · obtain ⟨rfl, rfl⟩ := asked_pure hrun₅
    exact .of_error nofun nofun
  next t ht =>
  obtain ⟨qs₆, rfl, hrun₆⟩ := asked_outside hrun₅
  refine .cons nofun ?_
  split at hrun₆
  swap
  · obtain ⟨rfl, rfl⟩ := asked_pure hrun₆
    exact .of_error nofun nofun
  next n hn =>
  split at hrun₆
  · next hlt =>
    obtain ⟨rfl, rfl⟩ := asked_pure hrun₆
    exact ⟨nofun, fun _ => ⟨hreceipt, hvisible, n, hn, hlt⟩, nofun⟩
  obtain ⟨qs₇, rfl, hrun₇⟩ := asked_outside hrun₆
  refine .cons nofun ?_
  split at hrun₇
  swap
  · obtain ⟨rfl, rfl⟩ := asked_pure hrun₇
    exact .of_error nofun nofun
  obtain ⟨qs₈, rfl, hrun₈⟩ := asked_outside hrun₇
  refine .cons nofun ?_
  split at hrun₈
  swap
  · obtain ⟨rfl, rfl⟩ := asked_pure hrun₈
    exact .of_error nofun nofun
  split at hrun₈
  · obtain ⟨rfl, rfl⟩ := asked_pure hrun₈
    exact .of_error nofun nofun
  split at hrun₈
  · next hexp =>
    obtain ⟨rfl, rfl⟩ := asked_pure hrun₈
    exact ⟨nofun, nofun, fun _ => ⟨t, ht, hexp⟩⟩
  obtain ⟨qs₉, rfl, hrun₉⟩ := asked_outside hrun₈
  refine .cons nofun ?_
  split at hrun₉
  · obtain ⟨rfl, rfl⟩ := asked_pure hrun₉
    exact .of_error nofun nofun
  -- the one send, of the transaction itself
  obtain ⟨qs₁₀, rfl, hrun₁₀⟩ := asked_outside hrun₉
  obtain ⟨rfl, rfl⟩ := asked_pure hrun₁₀
  refine ⟨fun id' tx' hmem => ?_, fun h => ?_, fun h => ?_⟩
  · cases List.mem_singleton.mp hmem
    exact ⟨rfl, rfl⟩
  · split at h <;> cases h
  · split at h <;> cases h

end

/-- The saved bytes decode to `tx` and encode it, and `tx` is the payment that the operation asked for. -/
def Saved.Decodes (saved : Saved B) (enc : Encoding B) (identity : ExecutionIdentity) (type : WalletOperationType)
    (amount : Nat) (tx : SignedTx) : Prop :=
  ∃ bytes hash, saved.bytes = some bytes ∧ saved.txHash = some hash ∧ enc.unmarshal bytes = some tx ∧
    enc.marshal tx = some bytes ∧ tx.pays identity type amount hash = true

theorem decodeWalletSubmission_some {enc : Encoding B} {identity : ExecutionIdentity} {type : WalletOperationType}
    {amount : Nat} {saved : Saved B} (hdec : decodeWalletSubmission enc identity type amount saved = .ok (some tx)) :
    saved.Decodes enc identity type amount tx := by
  unfold decodeWalletSubmission at hdec
  split at hdec
  · split at hdec <;> cases hdec
  next bytes hbytes =>
  split at hdec
  · cases hdec
  next tx' hun =>
  split at hdec
  swap
  · cases hdec
  next hcond =>
  cases hdec
  obtain ⟨hmar, hval⟩ := hcond
  simp only [validateWalletSubmission, Bool.and_eq_true] at hval
  cases hhash : saved.txHash with
  | none => rw [hhash] at hval; exact absurd hval.2 nofun
  | some hash =>
    rw [hhash] at hval
    simp only [Bool.and_eq_true] at hval
    exact ⟨bytes, hash, hbytes, hhash, hun, hmar, hval.2.2⟩

/-- **A replay is exact, and its verdicts are final.** A transaction reported displaced is on no chain from then on
    exactly if it was not included and finalized between the lookups and the header; one whose permit is reported
    expired is successful in no block above the finalized one. -/
theorem replay_verdicts_final {enc : Encoding B} {identity : ExecutionIdentity} {id : Nat}
    {type : WalletOperationType} {amount : Nat} {saved : Saved B} {chain : (tx : SignedTx) → Chain tx}
    {reads : Reads} {qs : List Query} {v : Option ReplayError}
    (hrun : replay enc identity id type amount saved (fun tx => reads.answer (chain tx)) = some (qs, v)) :
    (∀ id' tx, .sendTransaction id' tx ∈ qs → saved.Decodes enc identity type amount tx) ∧
    (v = some .displaced → ∃ tx, saved.Decodes enc identity type amount tx ∧
      ((∀ j, reads.header ≤ j → onChain tx ((chain tx).chain j) = false) ↔ (chain tx).SeenBefore reads)) ∧
    (v = some .permitExpired → ∃ tx, saved.Decodes enc identity type amount tx ∧
      ∀ j k b, reads.header ≤ j → (chain tx).finalized reads.header ≤ k → ((chain tx).chain j)[k]? = some b →
        ∀ t ∈ b.txs, t.hash = tx.hash → t.successful = false) := by
  unfold replay at hrun
  split at hrun
  · next e hdec =>
    cases hrun
    have he : e = .invalidEvidence := by
      unfold decodeWalletSubmission at hdec
      split at hdec
      · split at hdec <;> cases hdec
        rfl
      · split at hdec
        · cases hdec; rfl
        · split at hdec <;> cases hdec
          rfl
    subst he
    exact ⟨nofun, nofun, nofun⟩
  · cases hrun
    exact ⟨nofun, nofun, nofun⟩
  · next tx hdec =>
    have hdecodes := decodeWalletSubmission_some hdec
    unfold rebroadcastSignedTransaction at hrun
    split at hrun
    · obtain ⟨rfl, rfl⟩ := asked_pure hrun
      exact ⟨nofun, nofun, nofun⟩
    have hreplayed := replayed_rebroadcast hrun
    refine ⟨fun id' tx' hmem => ?_, fun hv => ⟨tx, hdecodes, ?_⟩,
      fun hv => ⟨tx, hdecodes, fun j k b hj hk hb => ?_⟩⟩
    · rw [(hreplayed.sends id' tx' hmem).2]
      exact hdecodes
    · obtain ⟨hrec, hvis, n, hn, hlt⟩ := hreplayed.displaced hv
      have hreceipt : onChain tx ((chain tx).chain reads.receipt) = false := by
        simp only [Reads.answer] at hrec
        split at hrec
        · cases hrec
        split at hrec
        · cases hrec
        · next hnot => exact Bool.eq_false_iff.mpr hnot
      have hvisible : onChain tx ((chain tx).chain reads.visible) = false ∧ (chain tx).pool reads.visible = false := by
        simp only [Reads.answer] at hvis
        split at hvis
        · cases hvis
        split at hvis
        · cases hvis
        · next hnot => exact Bool.or_eq_false_iff.mp (Bool.eq_false_iff.mpr hnot)
      have hsettled :
          n = (included (((chain tx).chain reads.settled).take ((chain tx).finalized reads.header))).length := by
        simp only [Reads.answer] at hn
        split at hn
        · cases hn
        · exact (Option.some.inj hn).symm
      rw [hsettled] at hlt
      exact Chain.displaced_final_iff hreceipt hvisible.1 hvisible.2 hlt
    · obtain ⟨t, ht, hany⟩ := hreplayed.expired hv
      simp only [Reads.answer] at ht
      split at ht
      · cases ht
      obtain ⟨b₀, hb₀, rfl⟩ := Option.map_eq_some_iff.mp ht
      obtain ⟨deadline, hd, hle⟩ := Option.any_eq_true _ _ |>.mp hany
      exact Chain.expired_final hb₀ hd (by simpa using hle) hj hk hb

/-! ## A nonce that is used between two reads -/

/-- Transactions of the payer with the nonces below that of `tx`. -/
def earlierTxs (tx : SignedTx) : List Included := (List.range tx.nonce).map fun n => ⟨tx.hash + 1, n, false⟩

/-- The nonce of `tx` is used by the transaction with the given hash, in a block that is there and finalized from
    the instant `start` on. -/
def lateChain (tx : SignedTx) (hash : TxHash) (start : Nat) : Chain tx where
  chain i := if i < start then [⟨0, earlierTxs tx⟩] else [⟨0, earlierTxs tx⟩, ⟨1, [⟨hash, tx.nonce, false⟩]⟩]
  finalized i := if i < start then 1 else 2
  pool _ := false
  finalized_pos i := by split <;> omega
  finalized_le i := by split <;> simp
  final := by
    intro i j hij
    by_cases hi : i < start
    · by_cases hj : j < start <;> simp [hi, hj]
    · have hj : ¬j < start := by omega
      simp [hi, hj]
  nonces i := by
    have hearlier : (earlierTxs tx).map (·.nonce) = List.range tx.nonce := by
      simp [earlierTxs, Function.comp_def]
    have hlen : (earlierTxs tx).length = tx.nonce := by simp [earlierTxs]
    split
    · simp [included, hearlier, hlen]
    · simp [included, hearlier, hlen, List.range_succ]
  hash_nonce i := by
    have hearlier : ∀ t ∈ earlierTxs tx, t.hash ≠ tx.hash := by
      intro t ht
      obtain ⟨n, -, rfl⟩ := List.mem_map.mp ht
      exact Nat.succ_ne_self _
    intro t ht hhash
    split at ht
    · simp only [included, List.flatMap_cons, List.flatMap_nil, List.append_nil] at ht
      exact absurd hhash (hearlier t ht)
    simp only [included, List.flatMap_cons, List.flatMap_nil, List.append_nil, List.mem_append,
      List.mem_singleton] at ht
    rcases ht with ht | rfl
    · exact absurd hhash (hearlier t ht)
    · rfl
  times i := by split <;> simp
  permit i b hb t ht hhash hok := by
    have hfail : t.successful = false := by
      split at hb
      · cases List.mem_singleton.mp hb
        obtain ⟨n, -, rfl⟩ := List.mem_map.mp ht
        rfl
      simp only [List.mem_cons, List.not_mem_nil, or_false] at hb
      rcases hb with rfl | rfl
      · obtain ⟨n, -, rfl⟩ := List.mem_map.mp ht
        rfl
      · cases List.mem_singleton.mp ht
        rfl
    rw [hfail] at hok
    cases hok

def savedTx : SignedTx where
  hash := 7
  paymentType := true
  chainID := 314
  sender := some 1
  to_ := some 3
  value := 0
  nonce := 2
  call := some (.withdraw 4 50)

def savedIdentity : ExecutionIdentity := ⟨some ⟨1, some 314, 2⟩, some 3, some 4⟩

/-- An encoding in which 5 stands for the saved withdrawal. -/
def oneEncoding : Encoding Nat where
  unmarshal n := if n = 5 then some savedTx else none
  marshal tx := if tx = savedTx then some 5 else none

/-- The lookups see instant 0, the finalized block and what follows it instant 1. -/
def lateReads : Reads where
  receipt := 0
  visible := 0
  header := 1
  settled := 1
  latest := 1
  receipt_le := Nat.le_refl _
  visible_le := Nat.zero_le _
  header_le := Nat.le_refl _
  settled_le := Nat.le_refl _
  chainID := some (some 314)
  pending := none
  clock := 0
  accepted := true

/-- Another transaction took the nonce: the verdict, and what it says of every later instant. -/
theorem replay_verdicts_final_displaced : ∃ qs, replay oneEncoding savedIdentity 1 .withdraw 50 ⟨some 7, some 5⟩
        (fun tx => lateReads.answer (lateChain tx (tx.hash + 1) 0)) = some (qs, some .displaced) ∧
      ∃ tx, Saved.Decodes ⟨some 7, some 5⟩ oneEncoding savedIdentity .withdraw 50 tx ∧
        ((∀ j, 1 ≤ j → onChain tx ((lateChain tx (tx.hash + 1) 0).chain j) = false) ↔
          (lateChain tx (tx.hash + 1) 0).SeenBefore lateReads) := by
  refine ⟨[.replayConfigured, .chainID, .replayReceipt 7, .transactionByHash 7, .finalizedHeader, .finalizedNonce],
    rfl, ?_⟩
  have hrun : replay oneEncoding savedIdentity 1 .withdraw 50 ⟨some 7, some 5⟩
      (fun tx => lateReads.answer ((fun tx => lateChain tx (tx.hash + 1) 0) tx)) =
    some ([.replayConfigured, .chainID, .replayReceipt 7, .transactionByHash 7, .finalizedHeader, .finalizedNonce],
      some .displaced) := rfl
  exact (replay_verdicts_final hrun).2.1 rfl

/-- The saved transaction is included and finalized after the replay looked for it, and is reported displaced. -/
theorem included_transaction_reported_displaced :
    (∃ qs, replay oneEncoding savedIdentity 1 .withdraw 50 ⟨some 7, some 5⟩
        (fun tx => lateReads.answer (lateChain tx tx.hash 1)) = some (qs, some .displaced)) ∧
      onChain savedTx (((lateChain savedTx 7 1).chain 1).take ((lateChain savedTx 7 1).finalized 1)) = true :=
  ⟨⟨_, rfl⟩, rfl⟩

end SynapS3.Wallet
