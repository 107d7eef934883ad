import SynapS3.DataSet.Bindings

/-!
# `DataSet.Creation` — what a claim of an ensure round knows, calls and writes

A claim learns three kinds of facts. What the binding's request is (`Ours`) stays true whatever happens: it
is enough for every call and every piece of evidence. What its round's checkpoint is (`Holding`) it knows as
long as it holds the round. And that a binding has no client ID yet is `Waiting`.

The first request needs the last two; a repeated one needs its own lookup, and the checkpoint it was decided
on.
-/

namespace SynapS3.DataSet

open Tasks (Handled SameWork Silent silent_pure)

/-! ## What a claim knows -/

def Mine (x : Execution) (t : State) : Prop :=
  Round.Current t.rounds x.key → ∃ r, t.rounds.row x.id = some r ∧ r.input = x.input

/-- As long as the claim holds its round, the checkpoint is `o`. -/
def Holding (x : Execution) (o : Option Checkpoint) (t : State) : Prop :=
  Round.Current t.rounds x.key → ∃ r, t.rounds.row x.id = some r ∧ r.input = x.input ∧ r.checkpoint = o

def Provided (t : State) (id p : Nat) : Prop := ∃ row, t.rows.row id = some row ∧ row.providerID = p

/-- A checkpoint of the binding's request, signed for `target`. -/
structure Ours (x : Execution) (p client : Nat) (target : ContextIdentity) (c : Checkpoint) (t : State) : Prop where
  signed : Signed t x.input.dataSetID client target p
  client : c.clientDataSetID = client
  identity : c.executionIdentity.identity = some target
  rejected : c.transactionRejected = true → ∃ url, (c.txHash, url) ∈ (t.history x.input.dataSetID).rejected
  named : (t.history x.input.dataSetID).unnamed = false → c.Named

section Knowledge

variable {x : Execution} {s t : State} {o : Option Checkpoint} {c c' : Checkpoint} {p client id : Nat}
  {target : ContextIdentity}

theorem Mine.stable (h : Mine x s) (hr : Rely x.key s t) : Mine x t := by
  intro hc
  obtain ⟨r, hrow, hin⟩ := h (hr.current hc)
  exact ⟨r, (hr.round hc).trans hrow, hin⟩

theorem Holding.stable (h : Holding x o s) (hr : Rely x.key s t) : Holding x o t := by
  intro hc
  obtain ⟨r, hrow, hin, hcp⟩ := h (hr.current hc)
  exact ⟨r, (hr.round hc).trans hrow, hin, hcp⟩

theorem Holding.mine (h : Holding x o s) : Mine x s := by
  intro hc
  obtain ⟨r, hrow, hin, -⟩ := h hc
  exact ⟨r, hrow, hin⟩

theorem Provided.grows (h : Provided s id p) (hg : Grows s t) : Provided t id p := by
  obtain ⟨row, hrow, hp⟩ := h
  obtain ⟨row', hrow', hp', -⟩ := hg.rows id row hrow
  exact ⟨row', hrow', hp'.trans hp⟩

theorem Ours.grows (h : Ours x p client target c s) (hg : Grows s t) : Ours x p client target c t := by
  refine ⟨h.signed.grows hg, h.client, h.identity, fun hrej => ?_, fun hun => h.named (hg.unnamed _ hun)⟩
  obtain ⟨url, hurl⟩ := h.rejected hrej
  exact ⟨url, hg.rejected _ _ hurl⟩

theorem Ours.consistent (h : Ours x p client target c s) : Consistent s x.input.dataSetID c :=
  ⟨⟨target, p, h.client ▸ h.signed, h.identity⟩, h.rejected, h.named⟩

theorem Ours.evidence (h : Ours x p client target c s) (hs : c.SameRequest c')
    (hr : c'.transactionRejected = true → c.transactionRejected = true ∧ c'.txHash = c.txHash)
    (hn : (s.history x.input.dataSetID).unnamed = false → c.Named → c'.Named) : Ours x p client target c' s := by
  refine ⟨h.signed, hs.1.trans h.client, by rw [hs.2]; exact h.identity, fun hrej => ?_,
    fun hun => hn hun (h.named hun)⟩
  obtain ⟨hrej', heq⟩ := hr hrej
  rw [heq]
  exact h.rejected hrej'

variable {r : EnsureRound}

theorem Mine.input (h : Mine x s) (hr : s.rounds.row x.id = some r) (hh : r.Holds x.claimGeneration) :
    r.input = x.input := by
  obtain ⟨q, hq, hin⟩ := h ⟨r, hr, hh⟩
  cases hr.symm.trans hq
  exact hin

theorem Holding.row (h : Holding x o s) (hr : s.rounds.row x.id = some r) (hh : r.Holds x.claimGeneration) :
    r.input = x.input ∧ r.checkpoint = o := by
  obtain ⟨q, hq, hin, hcp⟩ := h ⟨r, hr, hh⟩
  cases hr.symm.trans hq
  exact ⟨hin, hcp⟩

end Knowledge

/-! ## Evidence -/

section Evidence

variable {c c' : Checkpoint} {txHash confirmed url : String} {p : Progress}

theorem mergeEvidence_some (h : c.mergeEvidence txHash confirmed url = some c') :
    (txHash = "" ∨ c.txHash = "" ∨ txHash = c.txHash) ∧
      c'.txHash = (if txHash ≠ "" then txHash else c.txHash) ∧ c'.transactionRejected = c.transactionRejected := by
  simp only [Checkpoint.mergeEvidence] at h
  split at h
  · cases h
  next hconflict =>
  split at h
  · cases h
  cases h
  refine ⟨?_, rfl, rfl⟩
  by_contra hne
  push Not at hne
  exact hconflict ⟨hne.1, hne.2.1, hne.2.2⟩

theorem mergeEvidence_named (h : c.mergeEvidence txHash confirmed url = some c')
    (hurl : url ≠ "" → txHash ≠ "" ∨ c.txHash ≠ "") (hn : c.Named) : c'.Named := by
  simp only [Checkpoint.mergeEvidence] at h
  split at h
  · cases h
  split at h
  · cases h
  cases h
  intro hev
  by_cases htx : txHash = ""
  · -- the hash stays, and a new status URL is taken only where there is none
    simp only [htx, ne_eq, not_true_eq_false, ↓reduceIte, false_or] at hev hurl ⊢
    split at hev
    · next hnew => exact hurl hnew.1
    · exact hn hev
  · simp [htx]

theorem evidence_some {status : StatusReply} (h : status.evidence c = some c') :
    c.SameRequest c' ∧ c'.txHash = status.about c.txHash ∧ c'.transactionRejected = c.transactionRejected ∧
      (c.Named → c'.Named) := by
  obtain ⟨result, rejected⟩ := status
  cases result with
  | none => cases h; exact ⟨.refl c, rfl, rfl, id⟩
  | some result =>
    obtain ⟨-, htx, hrej⟩ := mergeEvidence_some h
    exact ⟨Checkpoint.mergeEvidence_same h, htx, hrej, mergeEvidence_named h fun hne => absurd rfl hne⟩

theorem about_named {status : StatusReply} (h : txHash ≠ "") : status.about txHash ≠ "" := by
  obtain ⟨result, rejected⟩ := status
  cases result with
  | none => exact h
  | some result =>
    simp only [StatusReply.about, Option.elim_some]
    split
    · assumption
    · exact h

@[simp] theorem submit_submission (p : Progress) (txHash : String) : (p.submit txHash).submission = p.submission := by
  unfold Progress.submit
  split <;> rfl

theorem submit_same (p : Progress) (txHash : String) : p.checkpoint.SameRequest (p.submit txHash).checkpoint := by
  unfold Progress.submit
  split
  · exact Checkpoint.recordSubmission_same _ _
  · exact .refl _

theorem submit_rejected (h : (p.submit txHash).checkpoint.transactionRejected = true) :
    p.checkpoint.transactionRejected = true ∧ (p.submit txHash).checkpoint.txHash = p.checkpoint.txHash := by
  unfold Progress.submit at h ⊢
  split at h
  · next hnew =>
    rw [if_pos hnew]
    unfold Checkpoint.recordSubmission at h ⊢
    dsimp only at h ⊢
    split at h
    · cases h
    · next hsame => rw [if_neg hsame]; exact ⟨h, rfl⟩
  · next hold => rw [if_neg hold]; exact ⟨h, rfl⟩

theorem submit_keeps_named (h : p.checkpoint.Named) : (p.submit txHash).checkpoint.Named := by
  unfold Progress.submit
  split
  · unfold Checkpoint.recordSubmission
    dsimp only
    split
    · intro hev
      simp at hev
    · exact h
  · exact h

theorem submit_named (hp : p.submitted = true → p.checkpoint.txHash ≠ "") (hne : txHash ≠ "") :
    (p.submit txHash).checkpoint.txHash ≠ "" := by
  unfold Progress.submit
  split
  · unfold Checkpoint.recordSubmission
    dsimp only
    split
    · exact hne
    · next hsame =>
      intro hempty
      exact hsame ⟨hne, fun heq => hne (heq.trans hempty)⟩
  · next hold =>
    simp only [hne, ne_eq, not_false_eq_true, and_true, Bool.not_eq_true', Bool.not_eq_false] at hold
    exact hp hold

theorem submit_txHash (h : p.checkpoint.txHash ≠ "") : (p.submit txHash).checkpoint.txHash ≠ "" := by
  unfold Progress.submit
  split
  · unfold Checkpoint.recordSubmission
    dsimp only
    split
    · next hnew => exact hnew.1
    · exact h
  · exact h

theorem submit_submitted (hp : p.submitted = true → p.checkpoint.txHash ≠ "")
    (h : (p.submit txHash).submitted = true) : (p.submit txHash).checkpoint.txHash ≠ "" := by
  by_cases hne : txHash = ""
  · have heq : p.submit txHash = p := by
      unfold Progress.submit
      rw [if_neg (by simp [hne])]
    rw [heq] at h ⊢
    exact hp h
  · exact submit_named hp hne

/-- **A report and its evidence** leave a checkpoint of the same request; a rejection that remains is one of
    the transaction it was about. -/
theorem merge_submit (hp : p.submitted = true → p.checkpoint.txHash ≠ "")
    (h : (p.submit txHash).checkpoint.mergeEvidence txHash confirmed url = some c') :
    p.checkpoint.SameRequest c' ∧
      (c'.transactionRejected = true → p.checkpoint.transactionRejected = true ∧ c'.txHash = p.checkpoint.txHash) ∧
      ((p.submit txHash).submitted = true → c'.txHash ≠ "") := by
  obtain ⟨hagree, htx, hrej⟩ := mergeEvidence_some h
  refine ⟨(submit_same p txHash).trans (Checkpoint.mergeEvidence_same h), fun hr => ?_, fun hsub => ?_⟩
  · rw [hrej] at hr
    obtain ⟨hr', hsame⟩ := submit_rejected hr
    refine ⟨hr', ?_⟩
    rw [htx]
    split
    · next hne =>
      -- the report named a transaction, so the one that is recorded is it
      rcases hagree with heq | heq | heq
      · exact absurd heq hne
      · exact absurd heq (submit_named hp hne)
      · rw [heq, hsame]
    · exact hsame
  · rw [htx]
    split
    · next hne => exact hne
    · exact submit_submitted hp hsub

end Evidence

/-! ## Calls -/

section Calls

variable {k : Nat × Nat} {s t : State} {id client p : Nat} {target : ContextIdentity}

def Permit (k : Nat × Nat) (id : Nat) (t : State) : Prop :=
  (t.history id).calls k < (t.history id).admitted.count k

theorem Permit.stable (h : Permit k id s) (hr : Rely k s t) : Permit k id t := by
  obtain ⟨-, hcalls, hcount⟩ := hr.own id
  unfold Permit
  rw [hcalls, hcount]
  exact h

theorem create_keeps (hi : Inv s) (hs : Signed s id client target p) (hp : Permit k id s) (unnamed : Bool) :
    contract.Keeps k s (s.noted id fun h => { h with
      sends := h.sends ++ [⟨k, client, target, p⟩], unnamed := h.unnamed || unnamed }) := by
  obtain ⟨⟨row, hrow, hc, hprov⟩, hid⟩ := hs
  have hcalls : ∀ k', ({ s.history id with
      sends := (s.history id).sends ++ [⟨k, client, target, p⟩]
      unnamed := (s.history id).unnamed || unnamed } : History).calls k' =
      (s.history id).calls k' + if k = k' then 1 else 0 := by
    intro k'
    simp [History.calls, List.countP_append, List.countP_singleton]
  refine noted_keeps hi ⟨rfl, rfl, ⟨_, rfl⟩, fun _ h => h, fun hun => ?_, fun k' hne => ⟨rfl, ?_⟩⟩
    (fun hnone => ?_) fun row' hrow' => ?_
  · exact (Bool.or_eq_false_iff.mp hun).1
  · rw [hcalls, if_neg (Ne.symm hne), Nat.add_zero]
  · rw [hrow] at hnone; cases hnone
  · rw [hrow] at hrow'
    cases hrow'
    have hrec := hi.recorded id row hrow
    refine ⟨hrec.nonzero, fun hnone => ?_, hrec.identity, fun e he => ?_, fun k' => ?_, hrec.found, hrec.ready⟩
    · rw [hc] at hnone; cases hnone
    · rcases List.mem_append.mp he with he | he
      · exact hrec.sends e he
      · rw [List.mem_singleton] at he
        subst he
        exact ⟨hc, hid, hprov.symm⟩
    · rw [hcalls]
      split
      · next heq => subst heq; exact hp
      · exact hrec.calls k'

variable {chain : List OnChain}

theorem Recorded.relooked {row : StorageDataSet} {h h' : History} (hr : Recorded chain row h)
    (hid : h'.identity = h.identity) (hs : h'.sends = h.sends) (ha : h'.admitted = h.admitted) :
    Recorded chain row h' := by
  refine ⟨hr.nonzero, fun hnone => ?_, ?_, ?_, fun k => ?_, ?_, hr.ready⟩
  · obtain ⟨h₁, h₂, h₃⟩ := hr.unsent hnone
    exact ⟨hid.trans h₁, hs.trans h₂, ha.trans h₃⟩
  · rw [hid]; exact hr.identity
  · rw [hid, hs]; exact hr.sends
  · unfold History.calls
    rw [hs, ha]
    exact hr.calls k
  · rw [hid]; exact hr.found

theorem find_keeps (hi : Inv s) (reply : Lookup) : contract.Keeps k s (s.noted id fun h =>
      { h with lookedUp := fun k' => if k' = k then some reply else h.lookedUp k' }) :=
  noted_keeps hi ⟨rfl, rfl, ⟨[], (List.append_nil _).symm⟩, fun _ h => h, fun h => h, fun _ hne => ⟨if_neg hne, rfl⟩⟩
    (fun hnone => hi.fresh id hnone) fun row hrow => (hi.recorded id row hrow).relooked rfl rfl rfl

theorem status_keeps (hi : Inv s) (rejected : Bool) (report : String × String) :
    contract.Keeps k s (s.noted id fun h =>
      { h with rejected := if rejected then h.rejected ++ [report] else h.rejected }) := by
  refine noted_keeps hi ⟨rfl, rfl, ⟨[], (List.append_nil _).symm⟩, fun q hq => ?_, fun h => h, fun _ _ => ⟨rfl, rfl⟩⟩
    (fun hnone => hi.fresh id hnone) fun row hrow => (hi.recorded id row hrow).relooked rfl rfl rfl
  dsimp only
  split
  · exact List.mem_append_left _ hq
  · exact hq

theorem agrees_found {ref : DataSetRef} (h : agrees chain target client (.found ref) = true) :
    ref.clientDataSetID = client ∧ ∃ e ∈ chain, e.dataSetID = ref.dataSetID ∧ e.providerID = ref.providerID ∧
      e.clientDataSetID = client ∧ e.identity = target := by
  obtain ⟨e, he, hp⟩ := List.any_eq_true.mp h
  simp only [OnChain.under, Bool.and_eq_true, beq_iff_eq] at hp
  obtain ⟨⟨hid, hc⟩, rfl⟩ := hp
  exact ⟨hc, e, he, rfl, rfl, hc, hid⟩

end Calls

/-! ## Transactions of the claim holder -/

section Writes

variable {x : Execution} {s t u : State} {c : Checkpoint} {p client : Nat} {target : ContextIdentity}
  {q : EnsureRound} {g : EnsureRound → EnsureRound}

theorem withEvidence_keeps (r : StorageDataSet) (txHash confirmed url : String) :
    (r.withEvidence txHash confirmed url).providerID = r.providerID ∧
      (r.withEvidence txHash confirmed url).dataSetID = r.dataSetID ∧
      (r.withEvidence txHash confirmed url).ensureTaskID = r.ensureTaskID := by
  unfold StorageDataSet.withEvidence
  split <;> exact ⟨rfl, rfl, rfl⟩

theorem heldMove (hq : s.rounds.row x.id = some q) (hh : q.Holds x.claimGeneration) {q' : EnsureRound}
    (hg : SameWork q' (g q)) (hin : q'.input = q.input) (htok : q'.token = q.token)
    (hsup : q'.superseded = q.superseded) :
    Round.HeldMove x.key s.rounds (s.rounds.modify x.id g) q (g q) :=
  ⟨⟨hq, Table.row_modify_of hq g, hg.input.trans hin, hg.superseded.trans hsup⟩, hh, hg.token.trans htok⟩

theorem settle_quiet (hi : Inv s) (hq : s.rounds.row x.id = some q) (hh : q.Holds x.claimGeneration)
    (hg : SameWork q (g q)) : contract.Keeps x.key s { s with rounds := s.rounds.modify x.id g } :=
  quiet_keeps hi (heldMove hq hh hg rfl rfl rfl) rfl rfl rfl rfl fun c hc => .inl (by rw [← hg.checkpoint]; exact hc)

theorem save_keeps (hi : Inv s) (hm : Mine x s) (hours : Ours x p client target c s)
    (hq : s.rounds.row x.id = some q) (hh : q.Holds x.claimGeneration) :
    contract.Keeps x.key s { s with rounds := s.rounds.modify x.id (Round.save c) } := by
  have hsame : SameWork (q.save c) (q.save c) := ⟨rfl, rfl, rfl, rfl⟩
  refine quiet_keeps hi (heldMove hq hh hsame rfl rfl rfl) rfl rfl rfl rfl fun c' hc' => .inr ?_
  cases hc'
  rw [hm.input hq hh]
  exact hours.consistent

variable {row : StorageDataSet}

theorem same_keeps (hi : Inv s) (hm : Mine x s) {row' : StorageDataSet} {f : StorageDataSet → StorageDataSet}
    (hrow : s.rows.row x.input.dataSetID = some row) (howner : row.ensureTaskID = some x.id)
    (hq : s.rounds.row x.id = some q) (hh : q.Holds x.claimGeneration) (hf : f row = row')
    (hp : row'.providerID = row.providerID) (hc : row'.clientDataSetID = row.clientDataSetID)
    (hd : row'.dataSetID = row.dataSetID) (hready : row'.status = .ready → row.dataSetID ≠ none)
    (hmove : Round.HeldMove x.key s.rounds (s.rounds.modify x.id g) q (g q))
    (hcp : ∀ c, (g q).checkpoint = some c → q.checkpoint = some c ∨ Consistent s x.input.dataSetID c) :
    contract.Keeps x.key s { s with
      rows := s.rows.modify x.input.dataSetID f, rounds := s.rounds.modify x.id g } := by
  have hrows := Table.row_modify_of hrow f
  rw [hf] at hrows
  have hw : OwnWrite x.key s { s with
      rows := s.rows.modify x.input.dataSetID f, rounds := s.rounds.modify x.id g }
      x.input.dataSetID row row' q (g q) :=
    ⟨hmove, hrow, howner, hrows, rfl, rfl, fun _ _ => rfl, rfl, rfl, rfl, rfl⟩
  have hl : Legal x.key s { s with
      rows := s.rows.modify x.input.dataSetID f, rounds := s.rounds.modify x.id g }
      x.input.dataSetID row row' q (g q) := by
    refine ⟨hp, fun c' hc' => by rw [hc, hc'], fun d hd' => by rw [hd, hd'], fun _ h => h,
      (hi.recorded _ row hrow).same hp hc hd hready, .inl rfl, fun hnone d hd' => ?_, fun c' hc' => ?_⟩
    · rw [hd, hnone] at hd'; cases hd'
    · rw [hm.input hq hh]
      rcases hcp c' hc' with hold | hcons
      · exact .inl hold
      · refine .inr ⟨?_, hcons.rejected, hcons.named⟩
        obtain ⟨i, pr, ⟨⟨row₀, hrow₀, hc₀, hp₀⟩, hid⟩, hident⟩ := hcons.signed
        cases hrow.symm.trans hrow₀
        exact ⟨i, pr, ⟨⟨row', (hrows _).trans (if_pos rfl), hc.trans hc₀, hp.trans hp₀⟩, hid⟩, hident⟩
  exact hw.keeps hi hl

theorem markDataSetCreating_ok {id : Nat} {v : Unit} (h : (markDataSetCreating id c client).Ok s v t) :
    ∃ row, s.rows.row id = some row ∧ row.status ≠ .ready ∧
      t = { s with rows := s.rows.modify id fun r => { r.withEvidence c.txHash c.confirmedTxHash c.statusURL with
        status := if r.status = .draining then .draining else .creating
        clientDataSetID := some client } } := by
  obtain ⟨row, hrow, hp, rfl⟩ := updateRow_ok h
  simp only [Bool.and_eq_true, Bool.or_eq_true, beq_iff_eq] at hp
  refine ⟨row, hrow, fun hready => ?_, rfl⟩
  rw [hready] at hp
  rcases hp.1 with (h | h) | h <;> cases h

section

variable (hi : Inv s) (hm : Mine x s) (hours : Ours x p client target c s)
include hi hm hours

theorem evidence_keeps (hrow : s.rows.row x.input.dataSetID = some row) (howner : row.ensureTaskID = some x.id)
    (hq : s.rounds.row x.id = some q) (hh : q.Holds x.claimGeneration) (hg : SameWork (q.save c) (g q)) :
    contract.Keeps x.key s { s with
      rows := s.rows.modify x.input.dataSetID fun r =>
        { r.withEvidence c.txHash c.confirmedTxHash c.statusURL with
          status := if r.status = .draining then .draining else .creating
          clientDataSetID := some client }
      rounds := s.rounds.modify x.id g } := by
  obtain ⟨⟨row', hrow', hc, -⟩, -⟩ := hours.signed
  cases hrow.symm.trans hrow'
  obtain ⟨hp, hd, -⟩ := withEvidence_keeps row c.txHash c.confirmedTxHash c.statusURL
  refine same_keeps hi hm hrow howner hq hh rfl hp hc.symm hd (fun hready => ?_) (heldMove hq hh hg rfl rfl rfl)
    fun c' hc' => .inr ?_
  · dsimp only at hready
    split at hready <;> cases hready
  · rw [hg.checkpoint] at hc'
    cases hc'
    exact hours.consistent

theorem checkpoint_keeps (h : (Tasks.checkpointWith rounds x.key c (do
      authorizeDataSetEnsureTask x.input.dataSetID x.id
      markDataSetCreating x.input.dataSetID c client)).Ok s () u) :
    contract.Keeps x.key s u ∧ Mine x u := by
  obtain ⟨m, q, -, hset, hq, hheld, rfl⟩ := Tasks.checkpointWith_ok h
  rw [Tx.ok_bind] at hset
  obtain ⟨_, _, hauth, hmark⟩ := hset
  obtain ⟨rfl, row, hrow, howner, -⟩ := authorize_ok hauth
  obtain ⟨_, -, -, rfl⟩ := markDataSetCreating_ok hmark
  refine ⟨evidence_keeps hi hm hours hrow howner hq hheld ⟨rfl, rfl, rfl, rfl⟩, fun _ => ?_⟩
  exact ⟨q.save c, Table.row_modify_at hq (Round.save c), hm.input (r := q) hq hheld⟩

theorem checkpoint_saved
    (h : (Tasks.checkpointWith rounds x.key c (authorizeDataSetEnsureTask x.input.dataSetID x.id)).Ok s () u) :
    contract.Keeps x.key s u ∧ u.history = s.history ∧ Holding x (some c) u := by
  obtain ⟨m, q, -, hset, hq, hheld, rfl⟩ := Tasks.checkpointWith_ok h
  obtain ⟨rfl, -⟩ := authorize_ok hset
  refine ⟨save_keeps hi hm hours hq hheld, rfl, fun _ => ?_⟩
  exact ⟨q.save c, Table.row_modify_at hq (Round.save c), hm.input (r := q) hq hheld, rfl⟩

end

theorem Inv.chain_unique (hi : Inv s) {e e' : OnChain} (he : e ∈ s.chain) (he' : e' ∈ s.chain)
    (hid : e.identity = e'.identity) (hc : e.clientDataSetID = e'.clientDataSetID) : e = e' := by
  by_contra hne
  have hsymm : Std.Symm fun a b : OnChain => ¬ b.under a.identity a.clientDataSetID = true := by
    refine ⟨fun a b h h' => h ?_⟩
    simp only [OnChain.under, Bool.and_eq_true, beq_iff_eq] at h' ⊢
    exact ⟨h'.1.symm, h'.2.symm⟩
  refine hi.keys.forall he he' hne ?_
  simp [OnChain.under, hid, hc]

def StorageDataSet.completed (r : StorageDataSet) (d client : Nat) (txHash confirmed : String) : StorageDataSet :=
  { r.withEvidence txHash confirmed "" with
    status := if r.status = .draining then .draining else .ready
    dataSetID := some d
    clientDataSetID := some client
    ensureTaskID := none }

theorem complete_keeps {d : Nat} {txHash confirmed : String} (hi : Inv s)
    (hs : Signed s x.input.dataSetID client target p)
    (hfound : ∃ e ∈ s.chain, e.dataSetID = d ∧ e.providerID = p ∧ e.clientDataSetID = client ∧ e.identity = target)
    (hlook : (s.history x.input.dataSetID).lookedUp x.key = some (.found ⟨p, d, client⟩))
    (hrow : s.rows.row x.input.dataSetID = some row) (howner : row.ensureTaskID = some x.id)
    (hq : s.rounds.row x.id = some q) (hh : q.Holds x.claimGeneration) (hg : SameWork q (g q)) :
    contract.Keeps x.key s { s with
      rows := s.rows.modify x.input.dataSetID fun r => r.completed d client txHash confirmed
      rounds := s.rounds.modify x.id g } := by
  obtain ⟨⟨row', hrow', hc, hp⟩, hid⟩ := hs
  cases hrow.symm.trans hrow'
  obtain ⟨e, he, hed, hep, hec, hei⟩ := hfound
  have hprov : (row.completed d client txHash confirmed).providerID = row.providerID :=
    (withEvidence_keeps row txHash confirmed "").1
  have hrec := hi.recorded _ row hrow
  have hw : OwnWrite x.key s { s with
      rows := s.rows.modify x.input.dataSetID fun r => r.completed d client txHash confirmed
      rounds := s.rounds.modify x.id g }
      x.input.dataSetID row (row.completed d client txHash confirmed) q (g q) :=
    ⟨heldMove hq hh hg rfl rfl rfl, hrow, howner, Table.row_modify_of hrow _, rfl, rfl, fun _ _ => rfl, rfl, rfl, rfl, rfl⟩
  refine hw.keeps hi ⟨hprov, fun c' hc' => hc.symm.trans hc', fun d' hd' => ?_, fun _ h => h,
      ⟨?_, ?_, fun _ => by rw [hid]; simp, fun e' he' => ?_, hrec.calls, fun d' hd' => ?_, fun _ => by
        simp [StorageDataSet.completed]⟩,
      .inl rfl, fun _ d' hd' => ?_, fun c' hc' => .inl (by rw [← hg.checkpoint]; exact hc')⟩
  · -- a data set that the binding had is the one on chain under its client ID
    obtain ⟨e', he', hed', -, hec', hei'⟩ := hrec.found d' hd'
    have hsame : e = e' := by
      refine hi.chain_unique he he' ?_ ?_
      · rw [hei]; exact Option.some.inj (hid.symm.trans hei')
      · rw [hec]; exact Option.some.inj (hc.symm.trans hec')
    rw [← hed', ← hsame, hed]
    rfl
  · show some client ≠ some 0
    rw [← hc]
    exact hrec.nonzero
  · intro h; cases h
  · obtain ⟨h₁, h₂, h₃⟩ := hrec.sends e' he'
    exact ⟨hc.symm.trans h₁, h₂, h₃.trans hprov.symm⟩
  · cases hd'
    refine ⟨e, he, hed, by rw [hep, hprov, hp], ?_, by rw [hei]; exact hid⟩
    show some client = some e.clientDataSetID
    rw [hec]
  · cases hd'
    rw [hp]
    exact ⟨x.key, client, hlook, rfl⟩

theorem admit_keeps {o : Option Checkpoint} (hi : Inv s) (hhold : Holding x o s)
    (hprov : Provided s x.input.dataSetID p) (hclient : c.clientDataSetID = client)
    (hident : c.executionIdentity.identity = some target)
    (hreason : Round.Current s.rounds x.key →
      (o = none ∧ c.transactionRejected = false ∧ c.statusURL = "" ∧
        ∃ row, s.rows.row x.input.dataSetID = some row ∧ row.clientDataSetID = none) ∨
      (∃ c₀, o = some c₀ ∧ (s.history x.input.dataSetID).lookedUp x.key = some .notFound ∧ c₀.resendable = true ∧
        Ours x p client target c s))
    (h : (Tasks.admitWith rounds x.key c (do
      recordDataSetClientID x.input.dataSetID x.id client
      note x.input.dataSetID fun h => { h with identity := some target, admitted := h.admitted ++ [x.key] })).Ok
        s () u) :
    contract.Keeps x.key s u ∧ Ours x p client target c u ∧ Permit x.key x.input.dataSetID u ∧ Mine x u := by
  obtain ⟨q, hq, hheld, hset⟩ := Tasks.saved_ok h
  dsimp only [rounds] at hq hset
  simp only [recordDataSetClientID, Tx.ok_bind, Tx.ok_require, note, Tx.ok_read, Tx.ok_write] at hset
  obtain ⟨_, m, ⟨_, _, ⟨hnz, hs'⟩, hup⟩, _, _, ⟨rfl, rfl⟩, hu⟩ := hset
  subst hs'
  obtain ⟨row, hrow, hp, rfl⟩ := updateRow_ok hup
  simp only [Bool.and_eq_true, Bool.or_eq_true, beq_iff_eq, Option.isNone_iff_eq_none, bne_iff_ne] at hp hnz
  obtain ⟨⟨⟨howner, -⟩, -⟩, hcolumn⟩ := hp
  obtain ⟨hin, hcheck⟩ := hhold.row hq hheld
  have hrec := hi.recorded _ row hrow
  have hpr : row.providerID = p := by
    obtain ⟨row₀, hrow₀, hp₀⟩ := hprov
    cases hrow.symm.trans hrow₀
    exact hp₀
  -- the first request finds no record, a repeated one its own
  have hfirst : (row.clientDataSetID = none ∧ (s.history x.input.dataSetID).Untouched) ∨
      (row.clientDataSetID = some client ∧ (s.history x.input.dataSetID).identity = some target) := by
    rcases hcolumn with hnone | hsome
    · exact .inl ⟨hnone, hrec.unsent hnone⟩
    rcases hreason ⟨q, hq, hheld⟩ with ⟨-, -, -, row₀, hrow₀, hnone⟩ | ⟨-, -, -, -, hours⟩
    · cases hrow.symm.trans hrow₀
      rw [hnone] at hsome
      cases hsome
    · exact .inr ⟨hsome, hours.signed.identity⟩
  have hrej : c.transactionRejected = true → ∃ url, (c.txHash, url) ∈ (s.history x.input.dataSetID).rejected := by
    intro hr
    rcases hreason ⟨q, hq, hheld⟩ with ⟨-, hno, -⟩ | ⟨-, -, -, -, hours⟩
    · rw [hno] at hr; cases hr
    · exact hours.rejected hr
  have hnamed : (s.history x.input.dataSetID).unnamed = false → c.Named := by
    rcases hreason ⟨q, hq, hheld⟩ with ⟨-, hno, hurl, -⟩ | ⟨-, -, -, -, hours⟩
    · intro _ hev
      simp [hno, hurl] at hev
    · exact hours.named
  have hdec : Decided s x.input.dataSetID x.key q := by
    refine ⟨hq, hheld, by rw [hin], ?_⟩
    rcases hreason ⟨q, hq, hheld⟩ with ⟨rfl, -, -, hnone⟩ | ⟨c₀, rfl, hlook, hre, -⟩
    · exact .inl ⟨hcheck, hnone⟩
    · exact .inr ⟨c₀, hcheck, hlook, hre⟩
  have hself : u.history x.input.dataSetID = { s.history x.input.dataSetID with
      identity := some target, admitted := (s.history x.input.dataSetID).admitted ++ [x.key] } := by
    rw [hu, noted_self]
  have hrows : ∀ j, u.rows.row j =
      if j = x.input.dataSetID then some { row with clientDataSetID := some client } else s.rows.row j := by
    rw [hu]
    exact Table.row_modify_of hrow _
  have hrounds : ∀ j, u.rounds.row j = if j = x.id then some (q.save c) else s.rounds.row j := by
    rw [hu]
    exact Table.row_modify_of hq _
  have hsame : (u.history x.input.dataSetID).rejected = (s.history x.input.dataSetID).rejected ∧
      (u.history x.input.dataSetID).unnamed = (s.history x.input.dataSetID).unnamed := by
    rw [hself]
    exact ⟨rfl, rfl⟩
  have hours : Ours x p client target c u :=
    ⟨⟨⟨_, (hrows _).trans (if_pos rfl), rfl, hpr⟩, by rw [hself]⟩, hclient, hident, by rw [hsame.1]; exact hrej,
      by rw [hsame.2]; exact hnamed⟩
  have hw : OwnWrite x.key s u x.input.dataSetID row { row with clientDataSetID := some client } q (q.save c) := by
    refine ⟨⟨⟨hq, hrounds, rfl, rfl⟩, hheld, rfl⟩, hrow, howner, hrows, by rw [hu]; rfl, by rw [hu]; rfl,
      fun j hj => by rw [hu]; exact noted_other hj, by rw [hself], by rw [hself], hsame.1, hsame.2⟩
  refine ⟨hw.keeps hi ⟨rfl, fun c' hc' => ?_, fun _ h => h, fun i hi' => ?_, ?_, .inr ⟨by rw [hself], hdec⟩,
    fun hnone d hd => ?_, fun c' hc' => .inr ?_⟩, hours, ?_, fun _ => ⟨q.save c, (hrounds _).trans (if_pos rfl), hin⟩⟩
  · rcases hcolumn with hnone | hsome
    · rw [hnone] at hc'; cases hc'
    · exact hsome.symm.trans hc'
  · rcases hfirst with ⟨-, hu, -⟩ | ⟨-, hident'⟩
    · rw [hu] at hi'; cases hi'
    · rw [hself]; exact hident'.symm.trans hi'
  · rw [hself]
    refine ⟨fun h => hnz (Option.some.inj h), fun h => (by cases h), fun _ => by simp, fun e he => ?_,
      fun k => le_trans (hrec.calls k) ?_, fun d hd => ?_, hrec.ready⟩
    · rcases hfirst with ⟨-, -, hnil, -⟩ | ⟨hc, hident'⟩
      · rw [hnil] at he; cases he
      · obtain ⟨h₁, h₂, h₃⟩ := hrec.sends e he
        exact ⟨hc.symm.trans h₁, hident'.symm.trans h₂, h₃⟩
    · simp
    · rcases hfirst with ⟨hnone, -⟩ | ⟨hc, hident'⟩
      · rw [hi.no_data_set hrow hnone] at hd; cases hd
      · obtain ⟨e, he, h₁, h₂, h₃, h₄⟩ := hrec.found d hd
        exact ⟨e, he, h₁, h₂, hc.symm.trans h₃, hident'.symm.trans h₄⟩
  · rw [hnone] at hd; cases hd
  · cases hc'
    rw [hin]
    exact hours.consistent
  · unfold Permit
    rw [hself]
    have hle := hrec.calls x.key
    simp only [History.calls, List.count_append, List.count_singleton_self] at hle ⊢
    omega

end Writes

end SynapS3.DataSet
