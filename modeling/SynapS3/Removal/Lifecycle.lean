import SynapS3.Removal.Runs

/-!
# `Removal.Lifecycle` — the life of a removal request

The laws of the state machine, read off the invariant: what holds of every reachable state
(`RequestLaws`), what sealing does (`SplitsMembers`), and that a finished request stays as it is.
-/

namespace SynapS3.Removal

variable {s s' : State}

/-- What holds of the requests, their members and their sends. -/
structure RequestLaws (s : State) : Prop where
  one_request : ∀ i c c' id id', (i, c) ∈ s.members id → (i, c') ∈ s.members id' → id = id'
  numbers : ∀ id, (s.sends id).map Send.sendNo = List.range' 1 (s.sends id).length
  ready : ∀ id r, s.requests.row id = some r → r.status = .ready →
    ∀ send ∈ s.sends id, send.possiblyAccepted = false
  /-- As long as a send may have been accepted, its pieces stay in the request, none of them failed, and the
      request is not abandoned. -/
  held : ∀ id send, send ∈ s.sends id → send.possiblyAccepted = true →
    (∃ r, s.requests.row id = some r ∧ r.status ≠ .abandoned) ∧
    ∀ p ∈ send.pieces, ∃ c, (p.copy, c) ∈ s.members id ∧ c.piece = p.piece ∧ c.status ≠ .failed
  /-- A send stays within the latest one before it that is not recorded as unsent. -/
  nested : ∀ id before send after, s.sends id = before ++ send :: after →
    ∀ e, latestExposedSend before = some e → send.pieces ⊆ e.pieces
  /-- A copy is removed only after its piece was seen to be gone from the chain, and it was. -/
  removed : ∀ i c, s.copies.row i = some c → c.status = .removed →
    (c.dataSet, c.piece) ∈ s.seen ∧ ∃ b ≤ s.chain.height, s.chain.status c.dataSet c.piece b = .removed
  settled : ∀ id r, s.requests.row id = some r → r.status = .settled →
    ∀ m ∈ s.members id, m.2.status = .removed

/-- Every member of the request is kept as it is or is now in no request, and nothing joined. -/
def SplitsMembers (s s' : State) (id : Nat) : Prop :=
  (∀ m ∈ s.members id, s'.copies.row m.1 = some m.2 ∨ s'.copies.row m.1 = some { m.2 with request := none }) ∧
    s'.members id ⊆ s.members id

theorem Inv.laws (h : Inv s) : RequestLaws s := by
  refine ⟨?_, fun id => (h.sends id).numbers, fun id r hr hst => (h.status id r hr).quiet (.inl hst), ?_, ?_, ?_, ?_⟩
  · intro i c c' id id' hm hm'
    obtain ⟨hc, hq⟩ := State.mem_members.mp hm
    obtain ⟨hc', hq'⟩ := State.mem_members.mp hm'
    rw [hc] at hc'
    cases hc'
    rw [hq] at hq'
    exact Option.some.inj hq'
  · intro id send hsend hacc
    refine ⟨?_, fun p hp => ?_⟩
    · cases hr : s.requests.row id with
      | none =>
        rw [h.unborn id hr] at hsend
        cases hsend
      | some r =>
        refine ⟨r, rfl, fun hab => ?_⟩
        have hq := (h.status id r hr).quiet (.inr hab) send hsend
        rw [hacc] at hq
        cases hq
    · obtain ⟨c, hc, hq, hpiece⟩ := (h.sends id).pieces send hsend hacc p hp
      refine ⟨c, State.mem_members.mpr ⟨hc, hq⟩, hpiece, fun hf => ?_⟩
      rcases ((h.copy _ c hc).member id hq).1 with hst | hst <;> rw [hst] at hf <;> cases hf
  · intro id before send after hsplit e he
    have hmem : e ∈ before := List.mem_reverse.mp (List.mem_of_find?_eq_some he)
    have hexp : e.exposed = true := List.find?_some he
    have hnested := (h.sends id).nested
    rw [hsplit] at hnested
    exact (List.pairwise_append.mp hnested).2.2 e hmem send (List.mem_cons_self ..) hexp
  · intro i c hc hst
    have hseen := (h.copy i c hc).removed hst
    exact ⟨hseen, h.seen _ hseen⟩
  · intro id r hr hst m hm
    obtain ⟨hc, hq⟩ := State.mem_members.mp hm
    exact (h.status id r hr).settled hst m.1 m.2 hc hq

variable {id : Nat}

theorem seal_splits {task maxPieces : Nat} {referenced : Nat → Bool} {a : Unit}
    (h : (sealRemovalRequest id task maxPieces referenced).Ok s a s') : SplitsMembers s s' id := by
  obtain ⟨r, ho, rfl⟩ := ok_seal h
  constructor
  · intro m hm
    obtain ⟨hc, hq⟩ := State.mem_members.mp hm
    by_cases hd : m.1 ∈ dropped referenced maxPieces 0 (s.members id)
    · right
      simp [State.setRequest, State.detach, State.setCopies, hc, hd]
    · left
      simp [State.setRequest, State.detach, State.setCopies, hc, hd]
  · rintro ⟨i, c'⟩ hm
    obtain ⟨hc', hq'⟩ := State.mem_members.mp hm
    obtain ⟨c, hc, ⟨_, rfl⟩ | ⟨_, rfl⟩⟩ := Table.row_updateWhere_cases hc'
    · cases hq'
    · exact State.mem_members.mpr ⟨hc, hq'⟩

theorem frozen_of_steps (hs : Inv s) (h : removalMachine.Steps s s') {r : Request}
    (hr : s.requests.row id = some r) (hn : r.task = none) : s'.requests.row id = some r := by
  have key := Lts.Steps.lift (I := Inv)
    (R := fun s s' => ∀ id r, s.requests.row id = some r → r.task = none → s'.requests.row id = some r)
    (fun _ _ _ hr _ => hr) (fun _ _ _ h h' id r hr hn => h' id r (h id r hr hn) hn)
    (fun _ _ _ hi hst => (hi.step hst).inv) (fun _ _ _ hi hst => (hi.step hst).frozen) hs h
  exact key.2 id r hr hn

/-- **The state machine of removal requests.** -/
theorem removal_requests_lawful (h : removalMachine.Reachable s) : RequestLaws s ∧
    (∀ id task maxPieces referenced s',
      (sealRemovalRequest id task maxPieces referenced).Ok s () s' → SplitsMembers s s' id) ∧
    ∀ s', removalMachine.Steps s s' → ∀ id r, s.requests.row id = some r → r.status.terminal = true →
      s'.requests.row id = some r := by
  have hinv := removal_inv h
  refine ⟨hinv.laws, fun _ _ _ _ _ hok => seal_splits hok, fun s' hsteps id r hr hterm => ?_⟩
  exact frozen_of_steps hinv hsteps hr ((hinv.status id r hr).owner hterm)

/-! ## One request from beginning to end -/

def emptyState : State where
  contents _ := none
  requests := Table.empty
  copies := Table.empty
  sends _ := []
  nextTask := 1
  chain := ⟨0, [], [], fun _ => none, fun _ => none, fun _ => false⟩
  runs := Table.empty
  seen := []

theorem emptyState_initial : emptyState.Initial := by
  refine ⟨rfl, rfl, rfl, fun _ => rfl, rfl, ⟨nofun, nofun, List.nodup_nil⟩, nofun, fun d => ?_⟩
  exact Nat.zero_le _

def executionAt (id task run b : Nat) (answer : Answer) : List Action :=
  [.openRun id task, .listSends run, .snapshotChain run b, .readPreflight run false false, .act run answer]

/-- Two copies of a content are collected, sealed, sent, scheduled, drained and settled. -/
def oneRemoval : List Action :=
  [.claimContent 5 (some ⟨1, some 7⟩), .snapshotCopy 5 9 40, .snapshotCopy 5 9 41, .join ⟨5, 1, 7, 9, [1, 2]⟩,
    .openRun 1 1, .act 1 { sealNow := true }] ++ executionAt 1 1 2 0 {} ++
  [.evidence 1 1 1 (.submission "0xa1"), .land 1 1, .chain (.drain 9 40), .chain (.drain 9 41)] ++
  executionAt 1 1 3 3 {} ++ executionAt 1 1 4 3 {} ++ executionAt 1 1 5 3 {}

def settledState : State := (removalMachine.run emptyState oneRemoval).getD emptyState

theorem settledState_reachable : removalMachine.Reachable settledState :=
  (Lts.Reachable.of_init emptyState_initial).of_run_isSome (by decide +kernel)

theorem removal_requests_lawful_settled : (settledState.requests.row 1).map Request.status = some .settled ∧
    RequestLaws settledState ∧
    ∀ s', removalMachine.Steps settledState s' → s'.requests.row 1 = settledState.requests.row 1 := by
  have hset : (settledState.requests.row 1).map Request.status = some .settled := by decide +kernel
  obtain ⟨hlaws, _, habs⟩ := removal_requests_lawful settledState_reachable
  refine ⟨hset, hlaws, fun s' hs => ?_⟩
  obtain ⟨r, hr, hst⟩ := Option.map_eq_some_iff.mp hset
  rw [hr]
  exact habs s' hs 1 r hr (by rw [hst]; rfl)

end SynapS3.Removal
