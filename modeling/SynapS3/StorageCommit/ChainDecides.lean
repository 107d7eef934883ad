import SynapS3.StorageCommit.Advancer

/-!
# `StorageCommit.ChainDecides` — decisions about a commit come from the chain

A call ends in a `Decision`. `Landed` and `Unused` say what the reads of a call showed of the chain; the first
two sections derive from them whatever `Prove` answers, and the third shows that a call of `Observe` decides
what `chainDecision`, which knows nothing of the provider, says — or leaves the decision to a later call.

Runs are lists of calls on one signed request. The provider's evidence on the request (its status URL, its
transaction, when it was submitted or flagged) is an argument of each call, so that a run covers whatever the
callers wrote between two of them.
-/

namespace SynapS3.StorageCommit

variable {C : Type} [DecidableEq C] {nonceOf : String → Option Nat} {a : Advancer} {h : ChainHistory C}
  {c : Commit C} {reads : Reads}

/-! ## What the reads of a call showed -/

/-- The nonce of the request was read unused. -/
def Unused (nonceOf : String → Option Nat) (h : ChainHistory C) (c : Commit C) (reads : Reads) : Prop :=
  ∃ nonce i, c.signedNonce nonceOf = some nonce ∧ reads.nonce = .ok i ∧ (h.state i).clientNonces nonce = 0

/-- The nonce of the request was read consumed in the request's own data set, and every position, read at the
    identifier that the nonce gives it, held the piece that was signed there. -/
structure Landed (nonceOf : String → Option Nat) (h : ChainHistory C) (c : Commit C) (reads : Reads)
    (first : Nat) : Prop where
  nonce : ∃ nonce i ref, c.signedNonce nonceOf = some nonce ∧ reads.nonce = .ok i ∧ c.dataSetRef = some ref ∧
    (h.state i).clientNonces nonce ≠ 0 ∧ (h.state i).clientNonces nonce % 2 ^ 128 = ref.dataSetID ∧
    (h.state i).clientNonces nonce / 2 ^ 128 = first + c.pieces.length
  piece : ∀ k piece, c.pieces[k]? = some piece → ∃ ref i, c.dataSetRef = some ref ∧ reads.piece k = .ok i ∧
    (h.state i).pieceCid ref.dataSetID (first + k) = some piece

variable {first : Nat}

theorem ClientNonceState.pieceIDs_cons {s : ClientNonceState} {count : Nat} {rest : List Nat}
    (hids : s.pieceIDs count = some (first :: rest)) : s.nextPieceID = first + count := by
  simp only [ClientNonceState.pieceIDs] at hids
  split at hids
  · cases hids
  next hcount =>
  split at hids
  · cases hids
  next hle =>
  rw [Option.some.injEq, List.map_eq_cons_iff] at hids
  obtain ⟨i, is, hrange, hfirst, -⟩ := hids
  have hi : i = 0 := by
    have hhead := congrArg List.head? hrange
    cases count with
    | zero => exact absurd (.inr rfl) hcount
    | succ n => simpa [List.range_succ_eq_map] using hhead.symm
  omega

variable {dataSetID first' : Nat} {pieces : List C}

theorem checkPieces_landed (hcheck : checkPieces h reads dataSetID first pieces = .ok (.landed first')) :
    first' = first ∧ ∀ k piece, pieces[k]? = some piece →
      ∃ i, reads.piece k = .ok i ∧ (h.state i).pieceCid dataSetID (first + k) = some piece := by
  unfold checkPieces at hcheck
  split at hcheck
  · cases hcheck
  next hany =>
  split at hcheck
  · cases hcheck
  next hnone =>
  cases hcheck
  refine ⟨rfl, fun k piece hk => ?_⟩
  have hlt : k < pieces.length := (List.getElem?_eq_some_iff.mp hk).1
  -- the position was read, since no read failed
  have hread := List.findSome?_eq_none_iff.mp hnone k (List.mem_range.mpr hlt)
  unfold readError at hread
  split at hread
  · cases hread
  next i hi =>
  refine ⟨i, hi, ?_⟩
  -- and it holds what was signed, since no position differs
  have hsame : mismatch h reads dataSetID (first + k) k piece = false := by
    rw [Bool.eq_false_iff]
    intro hdiff
    refine hany (List.any_eq_true.mpr ⟨(piece, k), ?_, hdiff⟩)
    exact List.mem_zipIdx_iff_getElem?.mpr hk
  simpa [mismatch, readPiece, hi] using hsame

theorem checkPieces_ne_unused : checkPieces h reads dataSetID first pieces ≠ .ok .unused := by
  unfold checkPieces
  split
  · nofun
  · split <;> nofun

/-! ## What `Prove` answers -/

theorem Advancer.prove_cases {proof : Proof} (hp : a.prove nonceOf h c reads = .ok proof) :
    (proof = .unused ∧ Unused nonceOf h c reads) ∨ (∃ first, proof = .landed first ∧ Landed nonceOf h c reads first) ∨
      proof = .conflict := by
  unfold Advancer.prove at hp
  split at hp
  · cases hp
  split at hp
  · cases hp
    exact .inr (.inr rfl)
  next nonce hnonce =>
  split at hp
  · cases hp
  next i hi =>
  dsimp only at hp
  split at hp
  · next hconsumed =>
    cases hp
    refine .inl ⟨rfl, nonce, i, hnonce, hi, ?_⟩
    by_contra hne
    simp [clientNonceState, hne] at hconsumed
  next hconsumed =>
  have hne : (h.state i).clientNonces nonce ≠ 0 := by
    intro hzero
    simp [clientNonceState, hzero] at hconsumed
  split at hp
  · cases hp
    exact .inr (.inr rfl)
  next ref href =>
  split at hp
  · cases hp
    exact .inr (.inr rfl)
  next hown =>
  split at hp
  · next first rest hids =>
    have hnext := ClientNonceState.pieceIDs_cons hids
    simp only [clientNonceState, hne, if_false] at hown hnext hp
    have hds : (h.state i).clientNonces nonce % 2 ^ 128 = ref.dataSetID := by
      by_contra hdiff
      exact hown (.inl hdiff)
    cases proof with
    | unused => exact absurd hp checkPieces_ne_unused
    | conflict => exact .inr (.inr rfl)
    | landed first' =>
      obtain ⟨rfl, hpieces⟩ := checkPieces_landed hp
      refine .inr (.inl ⟨_, rfl, ⟨nonce, i, ref, hnonce, hi, href, hne, hds, hnext⟩, fun k piece hk => ?_⟩)
      obtain ⟨j, hj, hcid⟩ := hpieces k piece hk
      exact ⟨ref, j, href, hj, by rw [← hds]; exact hcid⟩
  · cases hp
    exact .inr (.inr rfl)

theorem Advancer.prove_landed (hp : a.prove nonceOf h c reads = .ok (.landed first)) :
    Landed nonceOf h c reads first := by
  rcases Advancer.prove_cases hp with ⟨heq, -⟩ | ⟨_, heq, hl⟩ | heq
  · cases heq
  · cases heq
    exact hl
  · cases heq

theorem Advancer.prove_unused (hp : a.prove nonceOf h c reads = .ok .unused) : Unused nonceOf h c reads := by
  rcases Advancer.prove_cases hp with ⟨-, hu⟩ | ⟨_, heq, -⟩ | heq
  · exact hu
  · cases heq
  · cases heq

omit [DecidableEq C] in
/-- A nonce names its pieces for good: two calls that saw the request land saw it at the same place. -/
theorem Landed.first_eq {reads' : Reads} (hl : Landed nonceOf h c reads first)
    (hl' : Landed nonceOf h c reads' first') : first = first' := by
  obtain ⟨nonce, i, ref, hnonce, -, -, hne, -, hnext⟩ := hl.nonce
  obtain ⟨nonce', j, ref', hnonce', -, -, hne', -, hnext'⟩ := hl'.nonce
  rw [hnonce] at hnonce'
  cases hnonce'
  have hsame : (h.state i).clientNonces nonce = (h.state j).clientNonces nonce := by
    rcases Nat.le_total i j with hij | hji
    · exact (h.nonce_final hij hne).symm
    · exact h.nonce_final hji hne'
  rw [hsame] at hnext
  omega

/-! ## Decisions -/

/-- What the caller is told to do with the request. -/
inductive Decision where
  | delay
  | confirm (firstPieceID : Nat)
  | send
  | resend
  | abandon
  | stop
  deriving DecidableEq

/-- The decisions that end the wait for what was sent before. -/
def Decision.acts : Decision → Bool
  | .send | .resend | .abandon => true
  | .delay | .confirm _ | .stop => false

def Prepared.decision (p : Prepared) : Decision :=
  match p.outcome, p.proof with
  | .confirmed, some (.landed first) => .confirm first
  | .send, _ => .send
  | .conflict, _ => .stop
  | .abandon, _ => .abandon
  | _, _ => .delay

def Observation.decision (o : Observation) : Decision :=
  match o.kind, o.confirmation with
  | .confirmed, some confirmation => .confirm confirmation.firstPieceID
  | .resendDue, _ => .resend
  | .stop, _ => .stop
  | .abandon, _ => .abandon
  | _, _ => .delay

def Advancer.chainDecision (nonceOf : String → Option Nat) (a : Advancer) (h : ChainHistory C) (c : Commit C)
    (reads : Reads) : Decision :=
  match a.prove nonceOf h c reads with
  | .error _ => .delay
  | .ok (.landed first) => .confirm first
  | .ok .conflict => .stop
  | .ok .unused => if (checkWritable h c reads).any (·.refuses) then .abandon else .resend

@[simp] theorem Observation.decision_withProviderError (o : Observation) (errs : List String) :
    (o.withProviderError errs).decision = o.decision := by
  unfold Observation.withProviderError
  split <;> rfl

@[simp] theorem Advancer.decision_pending (req : Request) (code : AttentionCode) (now : Int) :
    (a.pending req code now).decision = .delay := rfl

theorem Advancer.decision_unobserved (now : Int) (drop : Bool) :
    (a.unobserved nonceOf h c reads now drop).decision = a.chainDecision nonceOf h c reads := by
  unfold Advancer.unobserved Advancer.chainDecision
  cases a.prove nonceOf h c reads with
  | error e => rfl
  | ok proof =>
    cases proof with
    | landed first => rfl
    | conflict => rfl
    | unused =>
      dsimp only
      split <;> rfl

theorem Advancer.decision_byProof {fallback : Observation} (hf : fallback.decision = .delay) :
    (a.byProof nonceOf h c reads fallback).decision = .delay ∨
      (a.byProof nonceOf h c reads fallback).decision = a.chainDecision nonceOf h c reads := by
  unfold Advancer.byProof Advancer.chainDecision
  cases a.prove nonceOf h c reads with
  | error e => exact .inl hf
  | ok proof =>
    cases proof with
    | landed first => exact .inr rfl
    | conflict => exact .inr rfl
    | unused => exact .inl hf

theorem Advancer.decision_observeError (env : Surroundings) (e : StatusError) :
    (a.observeError nonceOf h c reads env e).decision = .delay ∨
      (a.observeError nonceOf h c reads env e).decision = a.chainDecision nonceOf h c reads := by
  unfold Advancer.observeError
  split
  · exact .inl rfl
  split
  · exact .inr (Advancer.decision_unobserved ..)
  dsimp only
  split
  · exact .inr (Advancer.decision_unobserved ..)
  · exact Advancer.decision_byProof (Advancer.decision_pending ..)

theorem Advancer.decision_observeStatus (env : Surroundings) (status : CommitStatus) :
    (a.observeStatus nonceOf h c reads env status).decision = .delay ∨
      (a.observeStatus nonceOf h c reads env status).decision = a.chainDecision nonceOf h c reads := by
  unfold Advancer.observeStatus
  split
  · exact .inr (Advancer.decision_unobserved ..)
  split
  · -- the provider still tracks its transaction
    split
    · exact .inl rfl
    · exact Advancer.decision_byProof (Advancer.decision_pending ..)
  · -- the provider says that it landed
    split
    · exact .inr (Advancer.decision_unobserved ..)
    unfold Advancer.chainDecision
    cases a.prove nonceOf h c reads with
    | error e => exact .inl rfl
    | ok proof =>
      cases proof with
      | unused => exact .inl rfl
      | landed first => exact .inr rfl
      | conflict => exact .inr rfl
  · exact .inr (Advancer.decision_unobserved ..)
  · exact .inr (Advancer.decision_unobserved ..)

/-- **The provider can only delay**: whatever it answers, `Observe` decides what the chain says or nothing. -/
theorem Advancer.decision_observe (env : Surroundings) : (a.observe nonceOf h c reads env).decision = .delay ∨
      (a.observe nonceOf h c reads env).decision = a.chainDecision nonceOf h c reads := by
  unfold Advancer.observe
  split
  · exact .inl rfl
  split
  · exact .inr (Advancer.decision_unobserved ..)
  split
  · rw [Observation.decision_withProviderError]
    exact Advancer.decision_observeError ..
  · exact .inl rfl
  · exact Advancer.decision_observeStatus ..

theorem Advancer.chainDecision_confirm (hd : a.chainDecision nonceOf h c reads = .confirm first) :
    Landed nonceOf h c reads first := by
  unfold Advancer.chainDecision at hd
  split at hd
  · cases hd
  · next hp =>
    cases hd
    exact Advancer.prove_landed hp
  · cases hd
  · split at hd <;> cases hd

theorem Advancer.chainDecision_acts (hd : (a.chainDecision nonceOf h c reads).acts = true) :
    Unused nonceOf h c reads := by
  unfold Advancer.chainDecision at hd
  split at hd
  · cases hd
  · cases hd
  · cases hd
  · next hp => exact Advancer.prove_unused hp

theorem Advancer.prepare_confirm (hd : (a.prepare nonceOf h c reads).decision = .confirm first) :
    Landed nonceOf h c reads first := by
  unfold Advancer.prepare at hd
  split at hd
  · cases hd
  · next hp =>
    cases hd
    exact Advancer.prove_landed hp
  · cases hd
  · split at hd
    · cases hd
    · next e _ => cases hr : e.refuses <;> simp [hr, Prepared.decision] at hd

theorem Advancer.prepare_acts (hd : (a.prepare nonceOf h c reads).decision.acts = true) :
    Unused nonceOf h c reads := by
  unfold Advancer.prepare at hd
  split at hd
  · cases hd
  · cases hd
  · cases hd
  · next hp => exact Advancer.prove_unused hp

/-! ## Runs -/

/-- The columns of a request that say what became of its sends. -/
structure Evidence where
  submittedAt : Option Int := none
  txHash : Option String := none
  statusURL : Option String := none
  attentionAt : Option Int := none

def Commit.withEvidence (c : Commit C) (e : Evidence) : Commit C :=
  { c with request :=
    { c.request with
      submittedAt := e.submittedAt, txHash := e.txHash, statusURL := e.statusURL, attentionAt := e.attentionAt } }

inductive Call where
  | prepare (evidence : Evidence) (reads : Reads)
  | observe (evidence : Evidence) (reads : Reads) (env : Surroundings)

def Call.chainReads : Call → Reads
  | .prepare _ reads | .observe _ reads _ => reads

def Call.sameMethod : Call → Call → Bool
  | .prepare .., .prepare .. | .observe .., .observe .. => true
  | _, _ => false

def Call.decision (nonceOf : String → Option Nat) (a : Advancer) (h : ChainHistory C) (c : Commit C) :
    Call → Decision
  | .prepare evidence reads => (a.prepare nonceOf h (c.withEvidence evidence) reads).decision
  | .observe evidence reads env => (a.observe nonceOf h (c.withEvidence evidence) reads env).decision

@[simp] theorem Advancer.chainDecision_withEvidence (e : Evidence) :
    a.chainDecision nonceOf h (c.withEvidence e) reads = a.chainDecision nonceOf h c reads := rfl

@[simp] theorem Advancer.prepare_withEvidence (e : Evidence) :
    a.prepare nonceOf h (c.withEvidence e) reads = a.prepare nonceOf h c reads := rfl

theorem Call.decision_observe (nonceOf : String → Option Nat) (a : Advancer) (h : ChainHistory C) (c : Commit C)
    (e : Evidence) (reads : Reads) (env : Surroundings) :
    (Call.observe e reads env).decision nonceOf a h c = .delay ∨
      (Call.observe e reads env).decision nonceOf a h c = a.chainDecision nonceOf h c reads := by
  rw [← Advancer.chainDecision_withEvidence e]
  exact Advancer.decision_observe env

variable {call : Call}

theorem Call.confirm_landed (hd : call.decision nonceOf a h c = .confirm first) :
    Landed nonceOf h c call.chainReads first := by
  cases call with
  | prepare e reads =>
    rw [Call.decision, Advancer.prepare_withEvidence] at hd
    exact Advancer.prepare_confirm hd
  | observe e reads env =>
    rcases Call.decision_observe nonceOf a h c e reads env with hdelay | hchain
    · exact absurd (hd.symm.trans hdelay) nofun
    · exact Advancer.chainDecision_confirm (a := a) (hchain.symm.trans hd)

theorem Call.acts_unused (hd : (call.decision nonceOf a h c).acts = true) : Unused nonceOf h c call.chainReads := by
  cases call with
  | prepare e reads =>
    rw [Call.decision, Advancer.prepare_withEvidence] at hd
    exact Advancer.prepare_acts hd
  | observe e reads env =>
    rcases Call.decision_observe nonceOf a h c e reads env with hdelay | hchain
    · rw [hdelay] at hd
      cases hd
    · rw [hchain] at hd
      exact Advancer.chainDecision_acts (a := a) hd

theorem Call.decision_agree {call' : Call} (hm : call.sameMethod call' = true)
    (hreads : call.chainReads = call'.chainReads) :
    call.decision nonceOf a h c = call'.decision nonceOf a h c ∨ call.decision nonceOf a h c = .delay ∨
      call'.decision nonceOf a h c = .delay := by
  cases call with
  | prepare e reads =>
    cases call' with
    | prepare e' reads' =>
      cases hreads
      simp only [Call.decision, Advancer.prepare_withEvidence, true_or]
    | observe e' reads' env' => cases hm
  | observe e reads env =>
    cases call' with
    | prepare e' reads' => cases hm
    | observe e' reads' env' =>
      cases hreads
      rcases Call.decision_observe nonceOf a h c e reads env with hdelay | hchain
      · exact .inr (.inl hdelay)
      rcases Call.decision_observe nonceOf a h c e' reads env' with hdelay' | hchain'
      · exact .inr (.inr hdelay')
      · exact .inl (hchain.trans hchain'.symm)

/-- **Commit decisions trust only the chain.** Whatever the providers answer in two runs on a request, both confirm it
    at the same identifiers, a call sends or abandons only where it read the nonce unused, and of two calls that read
    the same one decides what the other does or delays. -/
theorem commit_decisions_trust_chain (nonceOf : String → Option Nat) (a : Advancer) (h : ChainHistory C)
    (c : Commit C) (run run' : List Call) :
    (∀ call ∈ run ++ run', ∀ first, call.decision nonceOf a h c = .confirm first →
      Landed nonceOf h c call.chainReads first) ∧
    (∀ call ∈ run, ∀ call' ∈ run', ∀ first first', call.decision nonceOf a h c = .confirm first →
      call'.decision nonceOf a h c = .confirm first' → first = first') ∧
    (∀ call ∈ run ++ run', (call.decision nonceOf a h c).acts = true → Unused nonceOf h c call.chainReads) ∧
    ∀ call ∈ run, ∀ call' ∈ run', call.sameMethod call' = true → call.chainReads = call'.chainReads →
      call.decision nonceOf a h c = call'.decision nonceOf a h c ∨ call.decision nonceOf a h c = .delay ∨
        call'.decision nonceOf a h c = .delay := by
  refine ⟨?_, ?_, ?_, ?_⟩
  · intro call _ first hd
    exact Call.confirm_landed hd
  · intro call _ call' _ first first' hd hd'
    exact (Call.confirm_landed hd).first_eq (Call.confirm_landed hd')
  · intro call _ hd
    exact Call.acts_unused hd
  · intro call _ call' _ hm hreads
    exact Call.decision_agree hm hreads

/-- A chain on which the nonce 7 is consumed at instant 1, by two pieces of the data set 3. -/
def consumedHistory : ChainHistory Nat where
  state i :=
    { clientNonces := fun n => if n = 7 ∧ 1 ≤ i then 5 * 2 ^ 128 + 3 else 0
      pieceCid := fun dataSetID pieceID => if dataSetID = 3 then some (100 + pieceID) else none
      refusesWrites := fun _ => none }
  nonce_final := by
    intro i j n hij hne
    dsimp only at hne ⊢
    have hi : n = 7 ∧ 1 ≤ i := by
      by_contra hnot
      exact hne (if_neg hnot)
    rw [if_pos hi, if_pos ⟨hi.1, Nat.le_trans hi.2 hij⟩]

def twoPieces : Commit Nat where
  request := { requestID := "request", extraDataHex := some "07" }
  pieces := [103, 104]
  dataSetRef := some ⟨"provider", 3⟩
  providerID := "provider"

def Reads.at (i : Nat) : Reads := ⟨.ok i, fun _ => .ok i, .ok i⟩

/-- The provider reports a rejection, and then a transaction that it does not know the end of. -/
def lyingRun : List Call :=
  [.observe { statusURL := some "url", txHash := some "0x1" } (Reads.at 0)
      { status := .ok (some ⟨some ⟨"provider", 3⟩, .addPieces, "0x1", .rejected, [], ""⟩) },
    .observe { statusURL := some "url", txHash := some "0x2", attentionAt := some 0 } (Reads.at 1)
      { status := .ok (some ⟨some ⟨"provider", 3⟩, .addPieces, "0x2", .pending, [], ""⟩) }]

/-- The provider reports the confirmation, first too early for the chain view of this node. -/
def honestRun : List Call :=
  let status := CommitStatus.mk (some ⟨"provider", 3⟩) .addPieces "0x1" .confirmed [3, 4] "0x1"
  [.observe { statusURL := some "url", txHash := some "0x1" } (Reads.at 0) { status := .ok (some status) },
    .observe { statusURL := some "url", txHash := some "0x1" } (Reads.at 2) { status := .ok (some status) }]

/-- One run sends again where the other waits, and both confirm the same pieces. -/
theorem commit_decisions_trust_chain_lying :
    lyingRun.map (Call.decision (fun _ => some 7) {} consumedHistory twoPieces) = [.resend, .confirm 3] ∧
      honestRun.map (Call.decision (fun _ => some 7) {} consumedHistory twoPieces) = [.delay, .confirm 3] ∧
      Landed (fun _ => some 7) consumedHistory twoPieces (Reads.at 1) 3 := by
  have hchain := commit_decisions_trust_chain (fun _ => some 7) {} consumedHistory twoPieces lyingRun honestRun
  refine ⟨by decide +kernel, by decide +kernel, ?_⟩
  exact hchain.1 _ (List.mem_append_left _ (List.mem_cons_of_mem _ List.mem_cons_self)) 3 (by decide +kernel)

end SynapS3.StorageCommit
