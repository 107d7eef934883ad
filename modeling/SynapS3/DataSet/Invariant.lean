import SynapS3.DataSet.Handler

/-!
# `DataSet.Invariant` — what the ensure handlers promise each other

The system: plans and replacements add and revise bindings, rounds are made, claimed and retried by hand,
every claim runs the handler, and requests that went out land on chain whenever they like, or never.
-/

namespace SynapS3.DataSet

open Tasks (HandlerM executeClaim executionOf)
open Pipeline (ExecutionIdentity)

/-! ## The system -/

/-- What the rest of the program does. -/
inductive EnvAct where
  | schedule (bucketID providerID copyIndex : Nat) (ref : Option DataSetRef)
  | openPlan (id : Nat)
  | insertTarget (bucketID providerID copyIndex : Nat)
  | ensureDataSet (id : Nat) (identity : ExecutionIdentity)
  | backfill (id dataSetID client : Nat)
  | revise (id : Nat) (revision : Revision)
  | claim (taskID : Nat)
  | retry (taskID : Nat)
  | failClaim (taskID : Nat) (reason : String)
  | land (id i dataSetID : Nat)
  | foreign (identity : ContextIdentity) (client providerID dataSetID : Nat)
  deriving DecidableEq

/-- The chain takes a create request, unless it knows the client ID. -/
def accept (s : State) (e : OnChain) : Option State :=
  if s.chain.any (·.under e.identity e.clientDataSetID) then none else some { s with chain := s.chain ++ [e] }

def env (s : State) : EnvAct → Option (State × Option ((Nat × Nat) × DataSetM Unit))
  | .schedule bucketID providerID copyIndex ref =>
    if ref.all (· ∈ s.plans) then ((schedule bucketID providerID copyIndex ref).after s).map (·, none) else none
  | .openPlan id =>
    match s.rows.row id with
    | some row =>
      match row.dataSetID, row.clientDataSetID with
      | some d, some c => some ({ s with plans := ⟨row.providerID, d, c⟩ :: s.plans }, none)
      | _, _ => none
    | none => none
  | .insertTarget bucketID providerID copyIndex =>
    ((insertTarget bucketID providerID copyIndex).after s).map (·, none)
  | .ensureDataSet id identity => ((ensureDataSet id identity).after s).map (·, none)
  | .backfill id dataSetID client => ((backfillClientDataSetID id dataSetID client).after s).map (·, none)
  | .revise id revision => ((revise id revision).after s).map (·, none)
  | .claim taskID =>
    match s.rounds.row taskID with
    | some r => if r.isOpen then
        let x := executionOf taskID r.claim
        some ({ s with rounds := s.rounds.modify taskID Round.claim },
          some (x.key, executeClaim rounds x.key (handler x)))
      else none
    | none => none
  | .retry taskID => ((retry taskID).after s).map (·, none)
  | .failClaim taskID reason =>
    match s.rounds.row taskID with
    | some r => (match r.phase with
      | .held => some ({ s with rounds := s.rounds.modify taskID (Round.finish (.failed, some reason)) }, none)
      | _ => none)
    | none => none
  | .land id i dataSetID =>
    match (s.history id).sends[i]? with
    | some e => (accept s ⟨e.identity, e.clientDataSetID, e.providerID, dataSetID, some id⟩).map (·, none)
    | none => none
  | .foreign identity client providerID dataSetID =>
    (accept s ⟨identity, client, providerID, dataSetID, none⟩).map (·, none)

def machine := Tasks.handlerMachine
  (fun s : State => s.rows = Table.empty ∧ s.rounds = Table.empty ∧ s.chain = [] ∧ s.plans = [] ∧
    s.history = fun _ => {}) world env

/-! ## The contract -/

def History.calls (h : History) (k : Nat × Nat) : Nat := h.sends.countP (·.claim = k)

def History.Untouched (h : History) : Prop := h.identity = none ∧ h.sends = [] ∧ h.admitted = []

/-- A binding agrees with the record of its requests and with the chain. -/
structure Recorded (chain : List OnChain) (row : StorageDataSet) (h : History) : Prop where
  nonzero : row.clientDataSetID ≠ some 0
  unsent : row.clientDataSetID = none → h.Untouched
  identity : row.clientDataSetID ≠ none → h.identity ≠ none
  /-- Every request that went out carries the recorded client ID, for the binding's provider and under the
      recorded identity. -/
  sends : ∀ e ∈ h.sends, row.clientDataSetID = some e.clientDataSetID ∧ h.identity = some e.identity ∧
    e.providerID = row.providerID
  calls : ∀ k, h.calls k ≤ h.admitted.count k
  /-- The data set of a binding is the one on chain under its client ID. -/
  found : ∀ d, row.dataSetID = some d → ∃ e ∈ chain, e.dataSetID = d ∧ e.providerID = row.providerID ∧
    row.clientDataSetID = some e.clientDataSetID ∧ h.identity = some e.identity
  ready : row.status = .ready → row.dataSetID ≠ none

/-- The request of a binding is signed: client ID, identity and provider are settled. -/
structure Signed (s : State) (id client : Nat) (identity : ContextIdentity) (providerID : Nat) : Prop where
  row : ∃ row, s.rows.row id = some row ∧ row.clientDataSetID = some client ∧ row.providerID = providerID
  identity : (s.history id).identity = some identity

/-- What a saved checkpoint says about the binding's request is true. -/
structure Consistent (s : State) (id : Nat) (c : Checkpoint) : Prop where
  signed : ∃ identity providerID, Signed s id c.clientDataSetID identity providerID ∧
    c.executionIdentity.identity = some identity
  rejected : c.transactionRejected = true → ∃ url, (c.txHash, url) ∈ (s.history id).rejected
  named : (s.history id).unnamed = false → c.Named

/-- Bindings, checkpoints and selection plans agree with what was sent, and no client ID is on chain twice. -/
structure Inv (s : State) : Prop where
  fresh : ∀ id, s.rows.row id = none → (s.history id).Untouched
  recorded : ∀ id row, s.rows.row id = some row → Recorded s.chain row (s.history id)
  saved : ∀ taskID r c, s.rounds.row taskID = some r → r.checkpoint = some c → Consistent s r.input.dataSetID c
  plans : ∀ ref ∈ s.plans, ∃ id row, s.rows.row id = some row ∧ row.providerID = ref.providerID ∧
    row.dataSetID = some ref.dataSetID ∧ row.clientDataSetID = some ref.clientDataSetID
  keys : s.chain.Pairwise fun a b => ¬ b.under a.identity a.clientDataSetID = true
  ours : ∀ e ∈ s.chain, ∀ id, e.binding = some id → ∃ q ∈ (s.history id).sends,
    q.clientDataSetID = e.clientDataSetID ∧ q.identity = e.identity ∧ q.providerID = e.providerID

/-- What nothing takes back: the provider of a binding, its client ID once there is one, the identity it was
    recorded under, its data set, and the chain. -/
structure Grows (s t : State) : Prop where
  rows : ∀ id row, s.rows.row id = some row → ∃ row', t.rows.row id = some row' ∧
    row'.providerID = row.providerID ∧ (∀ c, row.clientDataSetID = some c → row'.clientDataSetID = some c) ∧
    ∀ d, row.dataSetID = some d → row'.dataSetID = some d
  identity : ∀ id identity, (s.history id).identity = some identity → (t.history id).identity = some identity
  chain : ∀ e ∈ s.chain, e ∈ t.chain
  sends : ∀ id, ∃ l, (t.history id).sends = (s.history id).sends ++ l
  rejected : ∀ id p, p ∈ (s.history id).rejected → p ∈ (t.history id).rejected
  unnamed : ∀ id, (t.history id).unnamed = false → (s.history id).unnamed = false

/-- The binding has no client ID, and only the round of `k` could give it one. -/
def Waiting (k : Nat × Nat) (s : State) (id : Nat) : Prop :=
  ∃ row, s.rows.row id = some row ∧ row.clientDataSetID = none ∧
    (row.ensureTaskID = some k.1 ∨ (row.creationStopped = true ∧ row.ensureTaskID = none))

def SameRecord (k : Nat × Nat) (h h' : History) : Prop :=
  h'.lookedUp k = h.lookedUp k ∧ h'.calls k = h.calls k ∧ h'.admitted.count k = h.admitted.count k

/-- **What the claim `k` may count on** between `s` and a later `t`. -/
structure Rely (k : Nat × Nat) (s t : State) : Prop extends Grows s t where
  own : ∀ id, SameRecord k (s.history id) (t.history id)
  current : Round.Current t.rounds k → Round.Current s.rounds k
  round : Round.Current t.rounds k → t.rounds.row k.1 = s.rounds.row k.1
  waiting : Round.Current t.rounds k → ∀ id, Waiting k s id → Waiting k t id

/-- **When a request may be admitted**: it is the first one, or the claim found nothing on chain, and no
    evidence of a transaction that was not rejected is recorded. -/
structure Decided (s : State) (id : Nat) (k : Nat × Nat) (r : Round Input Checkpoint Tasks.End) : Prop where
  round : s.rounds.row k.1 = some r
  holds : r.Holds k.2
  input : r.input.dataSetID = id
  reason : (r.checkpoint = none ∧ ∃ row, s.rows.row id = some row ∧ row.clientDataSetID = none) ∨
    ∃ c, r.checkpoint = some c ∧ (s.history id).lookedUp k = some .notFound ∧ c.resendable = true

/-- **What every step does**: it takes nothing back, admits at most one request of a binding, and gives a
    binding a data set only after a lookup returned it. -/
structure Guar (s t : State) : Prop extends Grows s t where
  admitted : ∀ id, (t.history id).admitted = (s.history id).admitted ∨
    ∃ k r, (t.history id).admitted = (s.history id).admitted ++ [k] ∧ Decided s id k r
  found : ∀ id row row' d, s.rows.row id = some row → t.rows.row id = some row' → row.dataSetID = none →
    row'.dataSetID = some d → ∃ k c, (s.history id).lookedUp k = some (.found ⟨row.providerID, d, c⟩) ∧
      row'.clientDataSetID = some c

theorem Grows.refl (s : State) : Grows s s where
  rows _ row h := ⟨row, h, rfl, fun _ h => h, fun _ h => h⟩
  identity _ _ h := h
  chain _ h := h
  sends _ := ⟨[], (List.append_nil _).symm⟩
  rejected _ _ h := h
  unnamed _ h := h

theorem Grows.trans {s t u : State} (h : Grows s t) (h' : Grows t u) : Grows s u where
  rows id row hrow := by
    obtain ⟨row', hrow', hp, hc, hd⟩ := h.rows id row hrow
    obtain ⟨row'', hrow'', hp', hc', hd'⟩ := h'.rows id row' hrow'
    exact ⟨row'', hrow'', hp'.trans hp, fun c hh => hc' c (hc c hh), fun d hh => hd' d (hd d hh)⟩
  identity id i hh := h'.identity id i (h.identity id i hh)
  chain e he := h'.chain e (h.chain e he)
  sends id := by
    obtain ⟨l, hl⟩ := h.sends id
    obtain ⟨l', hl'⟩ := h'.sends id
    exact ⟨l ++ l', by rw [hl', hl, List.append_assoc]⟩
  rejected id p hp := h'.rejected id p (h.rejected id p hp)
  unnamed id hn := h.unnamed id (h'.unnamed id hn)

/-- A step that notes nothing grows, if its rows and its chain do. -/
theorem Grows.of_history {s t : State} (hhist : t.history = s.history) (hchain : ∀ e ∈ s.chain, e ∈ t.chain)
    (hrows : ∀ id row, s.rows.row id = some row → ∃ row', t.rows.row id = some row' ∧
      row'.providerID = row.providerID ∧ (∀ c, row.clientDataSetID = some c → row'.clientDataSetID = some c) ∧
      ∀ d, row.dataSetID = some d → row'.dataSetID = some d) : Grows s t := by
  obtain ⟨-, hidentity, -, hsends, hrejected, hunnamed⟩ := Grows.refl s
  refine ⟨hrows, ?_, hchain, ?_, ?_, ?_⟩ <;> rw [hhist] <;> assumption

theorem Rely.refl (k : Nat × Nat) (s : State) : Rely k s s where
  toGrows := .refl s
  own _ := ⟨rfl, rfl, rfl⟩
  current h := h
  round _ := rfl
  waiting _ _ h := h

theorem Rely.trans {k : Nat × Nat} {s t u : State} (h : Rely k s t) (h' : Rely k t u) : Rely k s u where
  toGrows := h.toGrows.trans h'.toGrows
  own id := by
    obtain ⟨h₁, h₂, h₃⟩ := h.own id
    obtain ⟨h₁', h₂', h₃'⟩ := h'.own id
    exact ⟨h₁'.trans h₁, h₂'.trans h₂, h₃'.trans h₃⟩
  current hc := h.current (h'.current hc)
  round hc := (h'.round hc).trans (h.round (h'.current hc))
  waiting hc id hw := h'.waiting hc id (h.waiting (h'.current hc) id hw)

theorem Guar.refl (s : State) : Guar s s where
  toGrows := .refl s
  admitted _ := .inl rfl
  found id row row' d hrow hrow' hnone hd := by
    rw [hrow] at hrow'
    cases hrow'
    rw [hnone] at hd
    cases hd

def contract : Prog.Contract State (Nat × Nat) where
  inv := Inv
  live s k := Round.Issued s.rounds k
  rely := Rely
  guar := Guar
  rely_refl := Rely.refl
  rely_trans _ _ _ _ := Rely.trans
  guar_refl := Guar.refl

/-! ## What grows -/

section Growth

variable {s t : State} {id client providerID : Nat} {identity : ContextIdentity}

theorem Signed.grows (h : Signed s id client identity providerID) (hg : Grows s t) :
    Signed t id client identity providerID := by
  obtain ⟨⟨row, hrow, hc, hp⟩, hid⟩ := h
  obtain ⟨row', hrow', hp', hc', -⟩ := hg.rows id row hrow
  exact ⟨⟨row', hrow', hc' client hc, hp'.trans hp⟩, hg.identity id identity hid⟩

theorem Consistent.grows {c : Checkpoint} (h : Consistent s id c) (hg : Grows s t) : Consistent t id c := by
  obtain ⟨⟨i, p, hs, hi⟩, hr, hn⟩ := h
  refine ⟨⟨i, p, hs.grows hg, hi⟩, fun hrej => ?_, fun hun => hn (hg.unnamed id hun)⟩
  obtain ⟨url, hurl⟩ := hr hrej
  exact ⟨url, hg.rejected id _ hurl⟩

end Growth

theorem Recorded.same {chain : List OnChain} {row row' : StorageDataSet} {h : History} (hr : Recorded chain row h)
    (hp : row'.providerID = row.providerID) (hc : row'.clientDataSetID = row.clientDataSetID)
    (hd : row'.dataSetID = row.dataSetID) (hready : row'.status = .ready → row.dataSetID ≠ none) :
    Recorded chain row' h := by
  refine ⟨?_, ?_, ?_, ?_, hr.calls, ?_, ?_⟩
  · rw [hc]; exact hr.nonzero
  · rw [hc]; exact hr.unsent
  · rw [hc]; exact hr.identity
  · rw [hc, hp]; exact hr.sends
  · rw [hc, hd, hp]; exact hr.found
  · rw [hd]; exact hready

theorem Recorded.chain {chain chain' : List OnChain} {row : StorageDataSet} {h : History}
    (hr : Recorded chain row h) (hsub : ∀ e ∈ chain, e ∈ chain') : Recorded chain' row h := by
  refine ⟨hr.nonzero, hr.unsent, hr.identity, hr.sends, hr.calls, fun d hd => ?_, hr.ready⟩
  obtain ⟨e, he, hfound⟩ := hr.found d hd
  exact ⟨e, hsub e he, hfound⟩

/-- **Preservation**, for a step that leaves the chain and the plans alone. -/
theorem Inv.step {s t : State} (hi : Inv s) (hg : Grows s t) (hchain : t.chain = s.chain)
    (hplans : t.plans = s.plans) (hfresh : ∀ id, t.rows.row id = none → (t.history id).Untouched)
    (hrec : ∀ id row, t.rows.row id = some row → Recorded t.chain row (t.history id))
    (hsaved : ∀ taskID r c, t.rounds.row taskID = some r → r.checkpoint = some c →
      (∃ i q, s.rounds.row i = some q ∧ q.checkpoint = some c ∧ q.input.dataSetID = r.input.dataSetID) ∨
        Consistent t r.input.dataSetID c) : Inv t := by
  refine ⟨hfresh, hrec, fun taskID r c hr hc => ?_, fun ref href => ?_, ?_, fun e he id hb => ?_⟩
  · rcases hsaved taskID r c hr hc with ⟨i, q, hq, hqc, hin⟩ | hcons
    · rw [← hin]
      exact (hi.saved i q c hq hqc).grows hg
    · exact hcons
  · rw [hplans] at href
    obtain ⟨id, row, hrow, hp, hd, hc⟩ := hi.plans ref href
    obtain ⟨row', hrow', hp', hc', hd'⟩ := hg.rows id row hrow
    exact ⟨id, row', hrow', hp'.trans hp, hd' _ hd, hc' _ hc⟩
  · rw [hchain]; exact hi.keys
  · rw [hchain] at he
    obtain ⟨q, hq, hsame⟩ := hi.ours e he id hb
    obtain ⟨l, hl⟩ := hg.sends id
    exact ⟨q, by rw [hl]; exact List.mem_append_left l hq, hsame⟩

/-! ## Calls -/

/-- What a call of the claim `k` may note in the record. -/
structure Notes (k : Nat × Nat) (h h' : History) : Prop where
  identity : h'.identity = h.identity
  admitted : h'.admitted = h.admitted
  sends : ∃ l, h'.sends = h.sends ++ l
  rejected : ∀ p ∈ h.rejected, p ∈ h'.rejected
  unnamed : h'.unnamed = false → h.unnamed = false
  others : ∀ k', k' ≠ k → h'.lookedUp k' = h.lookedUp k' ∧ h'.calls k' = h.calls k'

section Calls

variable {k : Nat × Nat} {s : State} {id : Nat} {f : History → History}

theorem noted_self : (s.noted id f).history id = f (s.history id) := by
  simp [State.noted]

theorem noted_other {j : Nat} (hj : j ≠ id) : (s.noted id f).history j = s.history j := by
  simp [State.noted, hj]

theorem noted_grows (hn : Notes k (s.history id) (f (s.history id))) : Grows s (s.noted id f) := by
  refine ⟨fun _ row h => ⟨row, h, rfl, fun _ h => h, fun _ h => h⟩, fun j i hj => ?_, fun _ h => h, fun j => ?_,
    fun j p hp => ?_, fun j hun => ?_⟩
  all_goals by_cases hj' : j = id
  · subst hj'; rw [noted_self, hn.identity]; exact hj
  · rw [noted_other hj']; exact hj
  · subst hj'; rw [noted_self]; exact hn.sends
  · rw [noted_other hj']; exact ⟨[], (List.append_nil _).symm⟩
  · subst hj'; rw [noted_self]; exact hn.rejected p hp
  · rw [noted_other hj']; exact hp
  · subst hj'; rw [noted_self] at hun; exact hn.unnamed hun
  · rw [noted_other hj'] at hun; exact hun

theorem noted_sameRecord (hn : Notes k (s.history id) (f (s.history id))) {k' : Nat × Nat} (hne : k' ≠ k)
    (j : Nat) : SameRecord k' (s.history j) ((s.noted id f).history j) := by
  by_cases hj : j = id
  · subst hj
    rw [noted_self]
    exact ⟨(hn.others k' hne).1, (hn.others k' hne).2, by rw [hn.admitted]⟩
  · rw [noted_other hj]
    exact ⟨rfl, rfl, rfl⟩

/-- **A call of the claim `k`** keeps the contract, if the new record goes with the binding. -/
theorem noted_keeps (hi : Inv s) (hn : Notes k (s.history id) (f (s.history id)))
    (hfresh : s.rows.row id = none → (f (s.history id)).Untouched)
    (hrec : ∀ row, s.rows.row id = some row → Recorded s.chain row (f (s.history id))) :
    contract.Keeps k s (s.noted id f) := by
  have hg := noted_grows hn
  refine ⟨hi.step hg rfl rfl (fun j hj => ?_) (fun j row hj => ?_)
      fun i r c hr hc => .inl ⟨i, r, hr, hc, rfl⟩, ⟨hg, fun j => .inl ?_, (Guar.refl s).found⟩, fun _ h => h,
    fun k' hne _ => ⟨hg, noted_sameRecord hn hne, fun h => h, fun _ => rfl, fun _ _ h => h⟩⟩
  all_goals by_cases hj' : j = id
  · subst hj'; rw [noted_self]; exact hfresh hj
  · rw [noted_other hj']; exact hi.fresh j hj
  · subst hj'; rw [noted_self]; exact hrec row hj
  · rw [noted_other hj']; exact hi.recorded j row hj
  · subst hj'; rw [noted_self]; exact hn.admitted
  · rw [noted_other hj']

end Calls

/-! ## Writes of a claim holder -/

theorem quiet_keeps {k : Nat × Nat} {s t : State} {r r' : EnsureRound} (hi : Inv s)
    (h : Round.HeldMove k s.rounds t.rounds r r') (hrows : t.rows = s.rows) (hchain : t.chain = s.chain)
    (hplans : t.plans = s.plans) (hhist : t.history = s.history)
    (hcp : ∀ c, r'.checkpoint = some c → r.checkpoint = some c ∨ Consistent s r.input.dataSetID c) :
    contract.Keeps k s t := by
  have hg : Grows s t :=
    .of_history hhist (by rw [hchain]; exact fun _ h => h) (by rw [hrows]; exact (Grows.refl s).rows)
  refine ⟨hi.step hg hchain hplans ?_ ?_ fun i q c hq hc => ?_, ⟨hg, ?_, ?_⟩,
    fun _ hk => h.issued (Nat.le_of_eq h.token.symm) hk, fun k' hne _ =>
      ⟨hg, ?_, h.still_current hne, fun hc => (h.other hne hc).2, fun _ j hw => ?_⟩⟩
  · rw [hrows, hhist]; exact hi.fresh
  · rw [hrows, hchain, hhist]; exact hi.recorded
  · obtain ⟨q₀, hq₀, hin, -, heq⟩ := h.back hq
    rcases heq with rfl | ⟨rfl, rfl⟩
    · exact .inl ⟨i, q, hq₀, hc, rfl⟩
    rcases hcp c hc with hc | hcons
    · exact .inl ⟨k.1, r, h.round, hc, h.input.symm ▸ rfl⟩
    · right
      rw [h.input]
      exact hcons.grows hg
  · rw [hhist]; exact fun _ => .inl rfl
  · rw [hrows]; exact (Guar.refl s).found
  · rw [hhist]; exact fun _ => ⟨rfl, rfl, rfl⟩
  · unfold Waiting
    rw [hrows]
    exact hw

/-- The holder `k` of the binding's round changed the binding from `row` to `row'`, and its round. Of the
    record only the identity and an admission of `k` may be new. -/
structure OwnWrite (k : Nat × Nat) (s t : State) (id : Nat) (row row' : StorageDataSet) (r r' : EnsureRound) :
    Prop extends Round.HeldMove k s.rounds t.rounds r r' where
  binding : s.rows.row id = some row
  owner : row.ensureTaskID = some k.1
  rows : ∀ j, t.rows.row j = if j = id then some row' else s.rows.row j
  chain : t.chain = s.chain
  plans : t.plans = s.plans
  others : ∀ j, j ≠ id → t.history j = s.history j
  sends : (t.history id).sends = (s.history id).sends
  lookedUp : (t.history id).lookedUp = (s.history id).lookedUp
  rejected : (t.history id).rejected = (s.history id).rejected
  unnamed : (t.history id).unnamed = (s.history id).unnamed

/-- What a holder may make of its binding and of its round's checkpoint. -/
structure Legal (k : Nat × Nat) (s t : State) (id : Nat) (row row' : StorageDataSet) (r r' : EnsureRound) :
    Prop where
  provider : row'.providerID = row.providerID
  client : ∀ c, row.clientDataSetID = some c → row'.clientDataSetID = some c
  dataSet : ∀ d, row.dataSetID = some d → row'.dataSetID = some d
  identity : ∀ i, (s.history id).identity = some i → (t.history id).identity = some i
  recorded : Recorded s.chain row' (t.history id)
  admitted : (t.history id).admitted = (s.history id).admitted ∨
    ((t.history id).admitted = (s.history id).admitted ++ [k] ∧ Decided s id k r)
  found : row.dataSetID = none → ∀ d, row'.dataSetID = some d → ∃ k c,
    (s.history id).lookedUp k = some (.found ⟨row.providerID, d, c⟩) ∧ row'.clientDataSetID = some c
  saved : ∀ c, r'.checkpoint = some c → r.checkpoint = some c ∨ Consistent t r.input.dataSetID c

section OwnWrites

variable {k : Nat × Nat} {s t : State} {id : Nat} {row row' : StorageDataSet} {r r' : EnsureRound}

theorem OwnWrite.grows (h : OwnWrite k s t id row row' r r') (hl : Legal k s t id row row' r r') : Grows s t := by
  refine ⟨fun j q hq => ?_, fun j i hj => ?_, fun e he => ?_, fun j => ?_, fun j p hp => ?_, fun j hun => ?_⟩
  · by_cases hj : j = id
    · rw [hj, h.binding] at hq
      cases hq
      exact ⟨row', by rw [h.rows, if_pos hj], hl.provider, hl.client, hl.dataSet⟩
    · exact ⟨q, by rw [h.rows, if_neg hj]; exact hq, rfl, fun _ h => h, fun _ h => h⟩
  · by_cases hj' : j = id
    · rw [hj'] at hj ⊢; exact hl.identity i hj
    · rw [h.others j hj']; exact hj
  · rw [h.chain]; exact he
  · by_cases hj' : j = id
    · rw [hj', h.sends]; exact ⟨[], (List.append_nil _).symm⟩
    · rw [h.others j hj']; exact ⟨[], (List.append_nil _).symm⟩
  · by_cases hj' : j = id
    · rw [hj'] at hp ⊢; rw [h.rejected]; exact hp
    · rw [h.others j hj']; exact hp
  · by_cases hj' : j = id
    · rw [hj'] at hun ⊢; exact h.unnamed ▸ hun
    · rw [h.others j hj'] at hun; exact hun

theorem OwnWrite.rely (h : OwnWrite k s t id row row' r r') (hl : Legal k s t id row row' r r') {k' : Nat × Nat}
    (hne : k' ≠ k) : Rely k' s t := by
  refine ⟨h.grows hl, fun j => ?_, h.still_current hne, fun hc => (h.other hne hc).2, fun hc j hw => ?_⟩
  · by_cases hj : j = id
    · rw [hj]
      refine ⟨by rw [h.lookedUp], by unfold History.calls; rw [h.sends], ?_⟩
      rcases hl.admitted with heq | ⟨heq, -⟩
      · rw [heq]
      · rw [heq, List.count_append, List.count_singleton]
        simp [Ne.symm hne]
    · rw [h.others j hj]; exact ⟨rfl, rfl, rfl⟩
  · obtain ⟨q, hq, hnone, how⟩ := hw
    by_cases hj : j = id
    · rw [hj, h.binding] at hq
      cases hq
      rw [h.owner] at how
      rcases how with how | ⟨-, how⟩
      · exact absurd (Option.some.inj how).symm (h.other hne hc).1
      · cases how
    · exact ⟨q, by rw [h.rows, if_neg hj]; exact hq, hnone, how⟩

theorem OwnWrite.keeps (hi : Inv s) (h : OwnWrite k s t id row row' r r') (hl : Legal k s t id row row' r r') :
    contract.Keeps k s t := by
  have hg := h.grows hl
  refine ⟨hi.step hg h.chain h.plans (fun j hj => ?_) (fun j q hq => ?_) fun i q c hq hc => ?_,
    ⟨hg, fun j => ?_, fun j q q' d hq hq' hnone hd => ?_⟩, fun _ hk => h.issued (Nat.le_of_eq h.token.symm) hk,
    fun k' hne _ => h.rely hl hne⟩
  · rw [h.rows] at hj
    split at hj
    · cases hj
    · next hne => rw [h.others j hne]; exact hi.fresh j hj
  · rw [h.rows] at hq
    rw [h.chain]
    split at hq
    · next hj => cases hq; rw [hj]; exact hl.recorded
    · next hj => rw [h.others j hj]; exact hi.recorded j q hq
  · obtain ⟨q₀, hq₀, hin, -, heq⟩ := h.back hq
    rcases heq with rfl | ⟨rfl, rfl⟩
    · exact .inl ⟨i, q, hq₀, hc, rfl⟩
    rcases hl.saved c hc with hc | hcons
    · exact .inl ⟨k.1, r, h.round, hc, h.input.symm ▸ rfl⟩
    · right
      rw [h.input]
      exact hcons
  · by_cases hj : j = id
    · rw [hj]
      rcases hl.admitted with heq | ⟨heq, hdec⟩
      · exact .inl heq
      · exact .inr ⟨k, r, heq, hdec⟩
    · rw [h.others j hj]; exact .inl rfl
  · by_cases hj : j = id
    · rw [hj] at hq hq' ⊢
      rw [h.binding] at hq
      rw [h.rows, if_pos rfl] at hq'
      cases hq
      cases hq'
      exact hl.found hnone d hd
    · rw [h.rows, if_neg hj] at hq'
      exact (Guar.refl s).found j q q' d hq hq' hnone hd

end OwnWrites

end SynapS3.DataSet
