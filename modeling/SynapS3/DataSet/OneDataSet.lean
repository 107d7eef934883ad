import SynapS3.DataSet.Creation

/-!
# `DataSet.OneDataSet` — one paid data set per binding

The handler, walked through action by action, keeps the contract of `DataSet.Invariant`; so do the steps
around it (`DataSet.Bindings`).
-/

namespace SynapS3.DataSet

open Tasks (Handled HandlerM executeClaim outside withCheckpointedEffect safe_look safe_outside
  safe_withCheckpointedEffect executionOf silent_pure)

/-! ## Endings -/

section Endings

variable {x : Execution} {s : State} {c : Checkpoint} {p client : Nat} {target : ContextIdentity}

abbrev Ends (x : Execution) (r : Handled State) (s : State) : Prop := Tasks.Ends rounds contract x.key r s

abbrev Settles (x : Execution) (y : DataSetTx Unit) (s : State) : Prop := Tasks.Settles rounds contract x.key y s

theorem settles_pure : Settles x (pure ()) s := by
  intro t m q g _ hi _ hx hq hh hg
  obtain ⟨-, rfl⟩ := Tx.ok_pure.mp hx
  exact settle_quiet hi hq hh hg

variable {r : Handled State} {reason : String}

theorem ends_quiet (h : r.settlement = pure () := by rfl) (h₁ : r.onRetry = pure () := by rfl)
    (h₂ : r.onExhausted = pure () := by rfl) (h₃ : r.contentionSettlement = pure () := by rfl) :
    Ends x r s := by
  refine Tasks.ends_quiet settles_pure ?_ ?_ ?_ ?_
  · rw [h₁]; exact silent_pure
  · rw [h₂]; exact silent_pure
  · rw [h]; exact silent_pure
  · rw [h₃]; exact silent_pure

section

variable (hm : Mine x s) (hours : Ours x p client target c s)
include hm hours

theorem settles_evidence : Settles x (dataSetCreationEvidenceSettlement x client c) s := by
  intro t m w g hr hi _ hx hw _ hg
  simp only [dataSetCreationEvidenceSettlement] at hx
  rw [Tx.ok_bind] at hx
  obtain ⟨_, _, hauth, hx⟩ := hx
  obtain ⟨rfl, row, hrow, howner, -⟩ := authorize_ok hauth
  obtain ⟨q, hq, hheld, hmark⟩ := Tasks.saved_ok hx
  obtain ⟨_, -, -, rfl⟩ := markDataSetCreating_ok hmark
  have hsaved : w = q.save c := Option.some.inj (hw.symm.trans (Table.row_modify_at hq (Round.save c)))
  subst hsaved
  dsimp only [rounds, Tasks.TaskExecution.key] at *
  rw [Table.modify_modify]
  exact evidence_keeps hi (hm.stable hr) (hours.grows hr.toGrows) hrow howner hq hheld hg

theorem ends_failWith : Ends x (failWith x reason client c) s :=
  Tasks.ends_of settles_pure silent_pure silent_pure (settles_evidence hm hours) (settles_evidence hm hours)

theorem ends_retryWith : Ends x (retryWith x reason client c) s :=
  Tasks.ends_of settles_pure silent_pure silent_pure (settles_evidence hm hours) (settles_evidence hm hours)

end

theorem ends_settle (h : Settles x r.settlement s) (h₁ : r.onRetry = pure ()) (h₂ : r.onExhausted = pure ())
    (h₃ : r.contentionSettlement = pure ()) : Ends x r s := by
  refine Tasks.ends_of settles_pure ?_ ?_ h ?_
  · rw [h₁]; exact silent_pure
  · rw [h₂]; exact silent_pure
  · rw [h₃]; exact settles_pure

theorem finishDataSetEnsure_ok {id taskID : Nat} {t : State} {u : Unit} (h : (finishDataSetEnsure id taskID).Ok s u t) :
    ∃ row, s.rows.row id = some row ∧ row.ensureTaskID = some taskID ∧
      t = { s with rows := s.rows.modify id fun r => { r with ensureTaskID := none } } := by
  simp only [finishDataSetEnsure, completeDataSetEnsureTask, Tx.ok_bind, Tx.ok_read, Tx.ok_orFail,
    Tx.ok_require] at h
  obtain ⟨_, _, hup, _, _, ⟨rfl, rfl⟩, _, _, ⟨-, rfl⟩, -, rfl⟩ := h
  obtain ⟨row, hrow, hp, heq⟩ := updateRow_ok hup
  exact ⟨row, hrow, by simpa using hp, heq⟩

theorem ends_finish (hm : Mine x s) : Ends x (.complete (finishDataSetEnsure x.input.dataSetID x.id)) s := by
  refine ends_settle (fun t m q g hr hi _ hx hq hh hg => ?_) rfl rfl rfl
  obtain ⟨row, hrow, howner, rfl⟩ := finishDataSetEnsure_ok hx
  exact same_keeps hi (hm.stable hr) hrow howner hq hh rfl rfl rfl rfl (hi.recorded _ row hrow).ready
    (heldMove hq hh hg rfl rfl rfl) fun c hc => .inl (by rw [← hg.checkpoint]; exact hc)

def Found (t : State) (client : Nat) (target : ContextIdentity) (ref : DataSetRef) : Prop :=
  ref.clientDataSetID = client ∧ ∃ e ∈ t.chain, e.dataSetID = ref.dataSetID ∧ e.providerID = ref.providerID ∧
    e.clientDataSetID = client ∧ e.identity = target

theorem ends_complete {ref : DataSetRef} {txHash confirmed : String} {o : Option Nat}
    (hs : Signed s x.input.dataSetID client target p) (hfound : Found s client target ref)
    (hlook : (s.history x.input.dataSetID).lookedUp x.key = some (.found ref)) (hb : ref.belongs p o = true) :
    Ends x (completeDataSetEnsure x ref.dataSetID ref.clientDataSetID txHash confirmed) s := by
  refine ends_settle (fun t m q g hr hi _ hx hq hh hg => ?_) rfl rfl rfl
  simp only [DataSetRef.belongs, Bool.and_eq_true, beq_iff_eq] at hb
  obtain ⟨hc, e, he, hed, hep, hec, hei⟩ := hfound
  simp only [completeDataSetEnsure, Handled.complete] at hx
  rw [Tx.ok_bind] at hx
  obtain ⟨_, _, hmark, hfin⟩ := hx
  obtain ⟨-, row, hrow, -, -, -, rfl⟩ := markDataSetReady_ok hmark
  obtain ⟨row', hrow', howner, rfl⟩ := finishDataSetEnsure_ok hfin
  have howner' : row.ensureTaskID = some x.id := by
    have heq := (Table.row_modify_at hrow _).symm.trans hrow'
    cases heq
    rw [← (withEvidence_keeps row txHash confirmed "").2.2]
    exact howner
  have hlook' : (t.history x.input.dataSetID).lookedUp x.key = some (.found ⟨p, ref.dataSetID, client⟩) := by
    rw [(hr.own _).1, hlook, ← hb.1.1, ← hc]
  dsimp only [rounds, Tasks.TaskExecution.key] at *
  rw [Table.modify_modify, hc]
  exact complete_keeps hi (hs.grows hr.toGrows) ⟨e, hr.chain e he, hed, hep.trans hb.1.1, hec, hei⟩ hlook' hrow howner' hq
    hh hg

end Endings

/-! ## The handler is safe -/

section Handler

variable {x : Execution} {s t : State} {c : Checkpoint} {p client : Nat} {target : ContextIdentity}
  {binding : StorageDataSet}

/-- The program is safe, and owes nothing for the result that it ends with. -/
abbrev Finishes (x : Execution) (y : DataSetM (Handled State)) (s : State) : Prop :=
  y.Safe machine contract x.key (Ends x) s

/-- The latest lookup of the claim returned `found`. -/
def Looked (x : Execution) (found : Lookup) (s : State) : Prop :=
  (s.history x.input.dataSetID).lookedUp x.key = some found

theorem Looked.stable {found : Lookup} (h : Looked x found s) (hr : Rely x.key s t) : Looked x found t :=
  (hr.own _).1.trans h

/-- Observing a request that went out. Only here a rejection is recorded: that of the transaction which the
    checkpoint names. -/
theorem observe_safe (hm : Mine x s) (hours : Ours x p client target c s) (hno : c.transactionRejected = false)
    (hurl : c.statusURL ≠ "") :
    Finishes x (observeDataSetCreation x binding c client) s := by
  unfold observeDataSetCreation
  refine safe_look (fun _ _ _ => rfl) fun s₁ hr₁ hi₁ startedAt => ?_
  replace hm := hm.stable hr₁
  replace hours := hours.grows hr₁.toGrows
  split
  rotate_left
  · exact ends_quiet
  refine safe_outside fun s₂ hr₂ hi₂ status e u hu => ?_
  have hu' := Option.some.inj hu
  have hk : contract.Keeps x.key s₂ u := hu' ▸ status_keeps hi₂ _ _
  replace hm : Mine x u := by
    rw [← hu']
    exact Mine.stable (t := s₂) hm hr₂
  replace hours := (hours.grows hr₂.toGrows).grows hk.guar.toGrows
  have hrep : status.rejected = true →
      (status.about c.txHash, c.statusURL) ∈ (u.history x.input.dataSetID).rejected := by
    intro hrej
    rw [← hu', noted_self]
    simp [hrej]
  refine ⟨hk, ?_⟩
  split
  · exact ends_failWith hm hours
  next merged hmerged =>
  obtain ⟨hsame, htx, hrej, hnamed⟩ := evidence_some hmerged
  have hmours : Ours x p client target merged u :=
    hours.evidence hsame (fun h => by rw [hrej, hno] at h; cases h) fun _ => hnamed
  split
  · next hreject =>
    -- what the provider rejects is the transaction of the checkpoint with the evidence of this answer
    exact ends_retryWith hm ⟨hmours.signed, hmours.client, hmours.identity,
      fun _ => ⟨c.statusURL, by rw [htx]; exact hrep hreject⟩,
      fun hun _ => by rw [htx]; exact about_named (hours.named hun (.inl hurl))⟩
  split
  · exact ends_failWith hm hmours
  have hset : ∀ t, Rely x.key u t → Settles x (
      if merged.txHash ≠ c.txHash ∨ merged.confirmedTxHash ≠ c.confirmedTxHash then
        dataSetCreationEvidenceSettlement x client merged else pure ()) t := by
    intro t hr
    split
    · exact settles_evidence (hm.stable hr) (hmours.grows hr.toGrows)
    · exact settles_pure
  refine safe_look (fun _ _ _ => rfl) fun s₃ hr₃ hi₃ now => ?_
  split
  · exact ends_settle (hset s₃ hr₃) rfl rfl rfl
  · exact ends_settle (hset s₃ hr₃) rfl rfl rfl

theorem safe_find {P : Handled State → State → Prop} {f : Lookup → DataSetM (Handled State)}
    (h : ∀ found u, Grows s u → (Mine x s → Mine x u) → (∀ o, Holding x o s → Holding x o u) → Looked x found u →
      (∀ ref, found = .found ref → Found u client target ref) → (f found).Safe machine contract x.key P u) :
    (outside (Query.findDataSetByClientDataSetID x.input.dataSetID client target) >>= f).Safe machine contract x.key
      P s := by
  refine safe_outside fun t hr hi found e u hu => ?_
  have hworld : (if agrees t.chain target client found then some (t.noted x.input.dataSetID fun h =>
      { h with lookedUp := fun k' => if k' = x.key then some found else h.lookedUp k' }) else none) = some u := hu
  split at hworld
  · next hagree =>
    have hk : contract.Keeps x.key t u := Option.some.inj hworld ▸ find_keeps hi found
    cases hworld
    refine ⟨hk, h found _ (hr.toGrows.trans hk.guar.toGrows) (Mine.stable (t := t) · hr)
      (fun _ hh => Holding.stable (t := t) hh hr) (by rw [Looked, noted_self]; simp) fun ref href => ?_⟩
    subst href
    exact agrees_found hagree
  · cases hworld

def Resends (x : Execution) (p client : Nat) (target : ContextIdentity) (create : Create) : Prop :=
  ∀ f, create = some f → ∀ t c, Holding x (some c) t → Ours x p client target c t →
    Looked x .notFound t → c.resendable = true →
    Finishes x (f c) t

variable {create : Create} {r : Progress}

theorem resendAt_safe {due : Nat} (hours : Ours x p client target c s)
    (hhold : create ≠ none → Holding x (some c) s)
    (hlook : Looked x .notFound s) (hre : c.resendable = true)
    (hcreate : Resends x p client target create) :
    Finishes x (resendAt c due create) s := by
  unfold resendAt
  refine safe_look (fun _ _ _ => rfl) fun t hr hi now => ?_
  split
  · exact ends_quiet
  split
  · exact ends_quiet
  · next f =>
    exact hcreate f rfl t c ((hhold (by simp)).stable hr) (hours.grows hr.toGrows) (hlook.stable hr) hre

section

variable (hm : Mine x s) (hours : Ours x p client target c s)
include hm hours

theorem resendWhenDue_safe (hhold : create ≠ none → Holding x (some c) s)
    (hlook : Looked x .notFound s) (hre : c.resendable = true)
    (hcreate : Resends x p client target create) :
    Finishes x (resendWhenDue x c create) s := by
  unfold resendWhenDue
  split
  · exact resendAt_safe hours hhold hlook hre hcreate
  refine safe_look (fun _ _ _ => rfl) fun t hr hi due => ?_
  split
  rotate_left
  · exact ends_quiet
  next due =>
  refine Prog.Safe.tx fun t' hr' hi' => ⟨fun _ => ends_quiet, fun u hu => ?_⟩
  have hrr := hr.trans hr'
  have hours' : Ours x p client target { c with nextResendAt := some due } t' :=
    (hours.grows hrr.toGrows).evidence ⟨rfl, rfl⟩ (fun h => ⟨h, rfl⟩) fun _ h => h
  obtain ⟨hk, hhist, hhold'⟩ := checkpoint_saved hi' (hm.stable hrr) hours' hu
  refine ⟨hk, ends_quiet, ?_⟩
  refine resendAt_safe (hours'.grows hk.guar.toGrows) (fun _ => hhold') ?_ hre hcreate
  rw [Looked, hhist]
  exact hlook.stable hrr

/-- A request of which the chain holds nothing is observed, or sent again if nothing is under way. -/
theorem recoverUnfound_safe {failed : Bool} (hhold : create ≠ none → Holding x (some c) s)
    (hlook : failed = false → Looked x .notFound s)
    (hcreate : Resends x p client target create) :
    Finishes x (recoverUnfound x binding c client failed create) s := by
  unfold recoverUnfound
  split
  · next hwait => exact observe_safe hm hours (by simpa using hwait.1) hwait.2
  next hurl =>
  split
  · refine safe_look (fun _ _ _ => rfl) fun _ _ _ startedAt => ?_
    split
    rotate_left
    · exact ends_quiet
    refine safe_look (fun _ _ _ => rfl) fun _ _ _ now => ?_
    split
    · exact ends_quiet
    · exact ends_quiet
  next hhash =>
  split
  · exact ends_quiet
  next hno =>
  refine resendWhenDue_safe hm hours hhold (hlook (by simpa using hno)) ?_ hcreate
  cases hrej : c.transactionRejected with
  | true => simp [Checkpoint.resendable, hrej]
  | false =>
    simp only [hrej, Bool.not_false, true_and, ne_eq, not_not, not_or] at hurl hhash
    simp [Checkpoint.resendable, hurl, hhash.1, hhash.2]

/-- **Recovering a sent request**: it is completed by what the chain holds, or left to `recoverUnfound`. -/
theorem recover_safe (hp : binding.providerID = p)
    (hhold : create ≠ none → Holding x (some c) s) (hcreate : Resends x p client target create) :
    Finishes x (recoverDataSetCreation x binding target c client create) s := by
  unfold recoverDataSetCreation
  refine safe_find fun found u hg hmine hholding hlook hfound => ?_
  replace hm := hmine hm
  replace hours := hours.grows hg
  replace hhold : create ≠ none → Holding x (some c) u := fun hne => hholding _ (hhold hne)
  split
  · exact ends_quiet
  · next ref =>
    split
    · exact ends_quiet
    · next hb =>
      rw [hp] at hb
      exact ends_complete hours.signed (hfound ref rfl) hlook (by simpa using hb)
  · exact recoverUnfound_safe hm hours hhold (fun h => by cases h) hcreate
  · exact recoverUnfound_safe hm hours hhold (fun _ => hlook) hcreate

end

/-- A create call whose reports `subs` are still to come. -/
structure Reported (x : Execution) (p client : Nat) (target : ContextIdentity) (subs : List CreateDataSetSubmission)
    (r : Progress) (t : State) : Prop where
  mine : Mine x t
  ours : Ours x p client target r.checkpoint t
  named : r.submitted = true → r.checkpoint.txHash ≠ ""
  reports : (t.history x.input.dataSetID).unnamed = false → ∀ sub ∈ subs, sub.statusURL ≠ "" → sub.transactionID ≠ ""
  url : (t.history x.input.dataSetID).unnamed = false → r.submission.statusURL ≠ "" → r.checkpoint.txHash ≠ ""

variable {subs : List CreateDataSetSubmission}

theorem onSubmitted_safe {sub : CreateDataSetSubmission} (h : Reported x p client target (sub :: subs) r s) :
    (onSubmitted x client r sub).Safe machine contract x.key (Reported x p client target subs) s := by
  have hsub : (s.history x.input.dataSetID).unnamed = false → sub.statusURL ≠ "" → sub.transactionID ≠ "" :=
    fun hun => h.reports hun sub (List.mem_cons_self ..)
  have hrest : ∀ {t}, Grows s t → (t.history x.input.dataSetID).unnamed = false →
      ∀ sub' ∈ subs, sub'.statusURL ≠ "" → sub'.transactionID ≠ "" :=
    fun hg hun sub' hm => h.reports (hg.unnamed _ hun) sub' (List.mem_cons_of_mem _ hm)
  unfold onSubmitted
  dsimp only
  split
  · exact ⟨h.mine, h.ours.evidence (submit_same r _) submit_rejected fun _ => submit_keeps_named,
      submit_submitted h.named, hrest (.refl s), fun hun hurl => submit_named h.named (hsub hun hurl)⟩
  next c' hmerged =>
  obtain ⟨hsame, hrej, hnamed⟩ := merge_submit h.named hmerged
  have hours := h.ours.evidence hsame hrej fun hun hn =>
    mergeEvidence_named hmerged (fun hurl => .inl (hsub hun hurl)) (submit_keeps_named hn)
  have hurl : ∀ {t}, Grows s t → (t.history x.input.dataSetID).unnamed = false → sub.statusURL ≠ "" → c'.txHash ≠ "" := by
    intro t hg hun hne
    rw [(mergeEvidence_some hmerged).2.1, if_pos (hsub (hg.unnamed _ hun) hne)]
    exact hsub (hg.unnamed _ hun) hne
  refine Prog.Safe.tx fun t hr hi => ⟨fun e => ?_, fun u hu => ?_⟩
  · exact ⟨h.mine.stable hr, hours.grows hr.toGrows, hnamed, hrest hr.toGrows, hurl hr.toGrows⟩
  · replace hours := hours.grows hr.toGrows
    obtain ⟨hk, hm⟩ := checkpoint_keeps hi (h.mine.stable hr) hours hu
    have hg := hr.toGrows.trans hk.guar.toGrows
    have hafter := hours.grows hk.guar.toGrows
    exact ⟨hk, ⟨hm, hafter, hnamed, hrest hg, hurl hg⟩, ⟨hm, hafter, hnamed, hrest hg, hurl hg⟩⟩

theorem reports_safe (h : Reported x p client target subs r s) :
    (reports x client subs r).Safe machine contract x.key (Reported x p client target []) s := by
  induction subs generalizing r s with
  | nil => exact h
  | cons sub rest ih => exact Prog.Safe.bind ((onSubmitted_safe h).mono fun r' t hr' => ih hr')

theorem resends_none : Resends x p client target none := by
  intro f hf
  cases hf

theorem afterCreate_safe {created : Option CreateDataSetResult} (hp : binding.providerID = p)
    (h : Reported x p client target [] r s) :
    Finishes x (afterCreate x binding target client created r) s := by
  unfold afterCreate
  split
  · next created =>
    dsimp only
    split
    · exact ends_failWith h.mine (h.ours.evidence (submit_same r _) submit_rejected fun _ => submit_keeps_named)
    next c' hmerged =>
    obtain ⟨hsame, hrej, -⟩ := merge_submit h.named hmerged
    have hours := h.ours.evidence hsame hrej fun hun hn =>
      mergeEvidence_named hmerged (fun hurl => .inr (submit_txHash (h.url hun (by simpa using hurl))))
        (submit_keeps_named hn)
    split
    · exact ends_retryWith h.mine hours
    split
    · exact ends_failWith h.mine hours
    refine safe_find fun found u hg hmine _ hlook hfound => ?_
    have hm := hmine h.mine
    replace hours := hours.grows hg
    split
    · exact ends_failWith hm hours
    · next ref =>
      split
      · exact ends_failWith hm hours
      · next hb =>
        rw [hp] at hb
        exact ends_complete hours.signed (hfound ref rfl) hlook (by simpa using hb)
    · exact ends_settle (settles_evidence hm hours) rfl rfl rfl
    · exact ends_settle (settles_evidence hm hours) rfl rfl rfl
  · split
    · exact ends_retryWith h.mine h.ours
    split
    · exact recover_safe h.mine h.ours hp (fun h => absurd rfl h) resends_none
    · exact ends_quiet

/-- Why a request may be sent: it is the first one, or the latest lookup found nothing and the checkpoint has
    no transaction under way. -/
def MaySend (x : Execution) (p client : Nat) (target : ContextIdentity) (c : Checkpoint) (t : State) : Prop :=
  (Holding x none t ∧ (Round.Current t.rounds x.key → Waiting x.key t x.input.dataSetID) ∧
    c.transactionRejected = false ∧ c.statusURL = "") ∨
  (Holding x (some c) t ∧ Ours x p client target c t ∧
    Looked x .notFound t ∧ c.resendable = true)

theorem MaySend.stable (h : MaySend x p client target c s) (hr : Rely x.key s t) : MaySend x p client target c t := by
  rcases h with ⟨hhold, hwait, hno⟩ | ⟨hhold, hours, hlook, hre⟩
  · exact .inl ⟨hhold.stable hr, fun hc => hr.waiting hc _ (hwait (hr.current hc)), hno⟩
  · exact .inr ⟨hhold.stable hr, hours.grows hr.toGrows, hlook.stable hr, hre⟩

theorem send_safe (hprov : Provided s x.input.dataSetID p) (hp : binding.providerID = p)
    (hclient : c.clientDataSetID = client) (hident : c.executionIdentity.identity = some target)
    (h : MaySend x p client target c s) :
    Finishes x (sendDataSetCreation x binding target client c) s := by
  unfold sendDataSetCreation
  refine safe_look (fun _ _ _ => rfl) fun s₁ hr₁ hi₁ now => ?_
  replace h := h.stable hr₁
  replace hprov := hprov.grows hr₁.toGrows
  refine safe_look (fun _ _ _ => rfl) fun s₂ hr₂ hi₂ due => ?_
  replace h := h.stable hr₂
  replace hprov := hprov.grows hr₂.toGrows
  split
  rotate_left
  · exact ends_quiet
  next due =>
  dsimp only
  refine safe_withCheckpointedEffect (fun t _ _ e => ?_) (fun t u _ hr hi hadmit' => ?_) hi₂
  · split
    · exact ends_quiet
    · exact ends_quiet
    · exact ends_quiet
    · next heq => cases heq
  · have hadmitted : contract.Keeps x.key t u ∧
        Ours x p client target { c with attemptedAt := now, sends := c.sends + 1, nextResendAt := some due } u ∧
        Permit x.key x.input.dataSetID u ∧ Mine x u := by
      rcases h.stable hr with ⟨hhold, hwait, hno⟩ | ⟨hhold, hours, hlook, hre⟩
      · refine admit_keeps hi hhold (hprov.grows hr.toGrows) hclient hident
          (fun hc => .inl ⟨rfl, hno.1, hno.2, ?_⟩) hadmit'
        obtain ⟨row, hrow, hnone, -⟩ := hwait hc
        exact ⟨row, hrow, hnone⟩
      · exact admit_keeps hi hhold (hprov.grows hr.toGrows) hclient hident
          (fun _ => .inr ⟨c, rfl, hlook, hre, hours.evidence ⟨rfl, rfl⟩ (fun h => ⟨h, rfl⟩) fun _ h => h⟩) hadmit'
    obtain ⟨hk, hours, hpermit, hm⟩ := hadmitted
    refine ⟨hk, fun e => ?_, ?_⟩
    · split
      · exact ends_quiet
      · exact ends_quiet
      · exact ends_quiet
      · next heq => cases heq
    · rw [hp]
      refine safe_outside fun t' hr' hi' reply e w hw => ?_
      cases hw
      have hk' := create_keeps hi' (hours.signed.grows hr'.toGrows) (hpermit.stable hr')
        (reply.submissions.any fun sub => sub.statusURL != "" && sub.transactionID == "")
      have hstart : Reported x p client target reply.submissions
          { checkpoint := { c with attemptedAt := now, sends := c.sends + 1, nextResendAt := some due } }
          (t'.noted x.input.dataSetID fun h => { h with
            sends := h.sends ++ [⟨x.key, client, target, p⟩]
            unnamed := h.unnamed ||
              reply.submissions.any fun sub => sub.statusURL != "" && sub.transactionID == "" }) := by
        refine ⟨Mine.stable (t := t') hm hr', (hours.grows hr'.toGrows).grows hk'.guar.toGrows, nofun, fun hun => ?_,
          fun _ h => absurd rfl h⟩
        rw [noted_self, Bool.or_eq_false_iff] at hun
        simpa using hun.2
      exact ⟨hk', Prog.Safe.bind ((reports_safe hstart).mono fun r w hr => afterCreate_safe hp hr)⟩

theorem requestIdentity_ok (h : c.requestIdentity target = .ok client) :
    c.clientDataSetID = client ∧ c.executionIdentity.identity = some target := by
  unfold Checkpoint.requestIdentity at h
  split at h
  · cases h
  next identity hid =>
  split at h
  · cases h
  split at h
  · cases h
  · next hne =>
    cases h
    exact ⟨rfl, by rw [hid, not_not.mp hne]⟩

theorem Consistent.ours (h : Consistent s x.input.dataSetID c) (hprov : Provided s x.input.dataSetID p)
    (hreq : c.requestIdentity target = .ok client) : Ours x p client target c s := by
  obtain ⟨hclient, hident⟩ := requestIdentity_ok hreq
  obtain ⟨⟨i, p', ⟨⟨row, hrow, hc, hp'⟩, hid⟩, hi⟩, hrej, hnamed⟩ := h
  obtain ⟨row', hrow', hp⟩ := hprov
  cases hrow.symm.trans hrow'
  have htarget : i = target := Option.some.inj (hi.symm.trans hident)
  subst htarget
  exact ⟨⟨⟨row, hrow, hclient ▸ hc, hp⟩, hid⟩, hclient, hident, hrej, hnamed⟩

theorem Ours.provided (h : Ours x p client target c s) : Provided s x.input.dataSetID p := by
  obtain ⟨row, hrow, -, hp⟩ := h.signed.row
  exact ⟨row, hrow, hp⟩

theorem send_resends (hp : binding.providerID = p) (mayCreate : Bool) :
    Resends x p client target (if mayCreate then some (sendDataSetCreation x binding target client) else none) := by
  intro f hf t c hhold hours hlook hre
  split at hf
  · cases hf
    exact send_safe hours.provided hp hours.client hours.identity (.inr ⟨hhold, hours, hlook, hre⟩)
  · cases hf

variable {mayCreate : Bool}

theorem createOrRecover_safe {identity : Pipeline.ExecutionIdentity} (hprov : Provided s x.input.dataSetID p)
    (hp : binding.providerID = p) (hhold : Holding x x.checkpoint s)
    (hsaved : ∀ c, x.checkpoint = some c → Consistent s x.input.dataSetID c)
    (hwait : binding.clientDataSetID = none → Round.Current s.rounds x.key → Waiting x.key s x.input.dataSetID)
    (hnz : binding.clientDataSetID ≠ some 0) :
    Finishes x (createOrRecover x binding identity target mayCreate) s := by
  unfold createOrRecover
  split
  · next c hc =>
    split
    · exact ends_quiet
    next client hreq =>
    split
    · exact ends_quiet
    · rw [hc] at hhold
      exact recover_safe hhold.mine ((hsaved c hc).ours hprov hreq) hp (fun _ => hhold) (send_resends hp mayCreate)
  · next hc =>
    rw [hc] at hhold
    split
    · exact ends_quiet
    next hsent =>
    split
    · exact ends_quiet
    split
    · exact ends_quiet
    next hident =>
    split
    · exact ends_quiet
    -- nothing was sent, so the binding has no client ID
    have hnone : binding.clientDataSetID = none := by
      simp only [StorageDataSet.creationSent, Bool.or_eq_true, not_or] at hsent
      cases hcl : binding.clientDataSetID with
      | none => rfl
      | some client =>
        rw [hcl] at hsent hnz
        refine absurd ?_ hsent.1
        simp only [Option.any_some, bne_iff_ne]
        exact fun h => hnz (by rw [h])
    refine safe_outside fun t hr hi client e u hu => ?_
    have hu' : (if client = some 0 then none else some t) = some u := hu
    split at hu'
    · cases hu'
    cases hu'
    refine ⟨.refl hi, ?_⟩
    split
    rotate_left
    · exact ends_quiet
    refine send_safe (hprov.grows hr.toGrows) hp rfl (not_not.mp hident) (.inl ⟨hhold.stable hr, fun hc => ?_, rfl, rfl⟩)
    exact hr.waiting hc _ (hwait hnone (hr.current hc))

section

variable (hhold : Holding x x.checkpoint s) (hsaved : ∀ c, x.checkpoint = some c → Consistent s x.input.dataSetID c)
include hhold hsaved

theorem runDataSetEnsure_safe : Finishes x (runDataSetEnsure x mayCreate) s := by
  unfold runDataSetEnsure
  refine Prog.Safe.read fun t hr hi => ⟨ends_quiet, ?_⟩
  replace hhold := hhold.stable hr
  replace hsaved := fun c hc => (hsaved c hc).grows hr.toGrows
  dsimp only
  split
  rotate_left
  · exact ends_quiet
  next binding hauth =>
  obtain ⟨hrow, howner⟩ := Option.filter_eq_some_iff.mp hauth
  simp only [Bool.and_eq_true, beq_iff_eq] at howner
  have hprov : Provided t x.input.dataSetID binding.providerID := ⟨binding, hrow, rfl⟩
  have hwait : binding.clientDataSetID = none → Waiting x.key t x.input.dataSetID :=
    fun hnone => ⟨binding, hrow, hnone, .inl howner.1⟩
  have hnz := (hi.recorded _ binding hrow).nonzero
  refine safe_look (fun _ _ _ => rfl) fun s₁ hr₁ hi₁ current => ?_
  split
  rotate_left
  · exact ends_quiet
  split
  · exact ends_finish (hhold.stable hr₁).mine
  refine safe_look (fun _ _ _ => rfl) fun s₂ hr₂ hi₂ loaded => ?_
  split
  · exact ends_quiet
  split
  · exact ends_quiet
  split
  · exact ends_quiet
  refine safe_look (fun _ _ _ => rfl) fun s₃ hr₃ hi₃ target => ?_
  split
  rotate_left
  · exact ends_quiet
  have hrely := (Rely.trans hr₁ hr₂).trans hr₃
  exact createOrRecover_safe (hprov.grows hrely.toGrows) rfl (hhold.stable hrely)
    (fun c hc => (hsaved c hc).grows hrely.toGrows)
    (fun hnone hc => hrely.waiting hc _ (hwait hnone)) hnz

theorem handler_safe : Finishes x (handler x) s := by
  unfold handler
  split <;> exact runDataSetEnsure_safe hhold hsaved

end

end Handler

/-! ## The machine keeps its contract -/

variable {s : State} {r : EnsureRound} {t : State} {b : EnvAct} {k : Nat × Nat}

theorem claim_starts {taskID : Nat} (hr : s.rounds.row taskID = some r) :
    Holding (executionOf taskID r.claim) r.checkpoint { s with rounds := s.rounds.modify taskID Round.claim } ∧
      ¬ Round.Issued s.rounds (executionOf taskID r.claim).key ∧
      Round.Issued (s.rounds.modify taskID Round.claim) (executionOf taskID r.claim).key := by
  have hrow : (s.rounds.modify taskID Round.claim).row taskID = some r.claim := Table.row_modify_at hr _
  refine ⟨fun _ => ⟨r.claim, hrow, rfl, rfl⟩, fun ⟨q, hq, hle⟩ => ?_, ⟨r.claim, hrow, Nat.le_refl _⟩⟩
  cases hr.symm.trans hq
  exact absurd hle (Nat.not_succ_le_self r.token)

theorem inv_start (hrows : s.rows = Table.empty) (hrounds : s.rounds = Table.empty) (hchain : s.chain = [])
    (hplans : s.plans = []) (hhist : s.history = fun _ => {}) : Inv s := by
  refine ⟨fun id _ => ?_, fun id row hrow => ?_, fun i r c hr _ => ?_, fun ref href => ?_, ?_, fun e he => ?_⟩
  · rw [hhist]; exact ⟨rfl, rfl, rfl⟩
  · rw [hrows] at hrow; cases hrow
  · rw [hrounds] at hr; cases hr
  · rw [hplans] at href; cases href
  · rw [hchain]; exact .nil
  · rw [hchain] at he; cases he

theorem env_keeps {q : Option ((Nat × Nat) × DataSetM Unit)} (hi : Inv s) (h : env s b = some (t, q)) :
    EnvKeeps s t := by
  have hafter : ∀ {α : Type} {y : DataSetTx α},
      (y.after s).map (fun u => (u, (none : Option ((Nat × Nat) × DataSetM Unit)))) = some (t, q) →
      ∃ a, y.Ok s a t := by
    intro α y hy
    obtain ⟨u, hu, heq⟩ := Option.map_eq_some_iff.mp hy
    cases heq
    exact Tx.after_eq_some.mp hu
  cases b with
  | schedule bucketID providerID copyIndex ref =>
    simp only [env] at h
    split at h
    case isFalse => cases h
    case isTrue hplan =>
      obtain ⟨_, hok⟩ := hafter h
      refine (schedule_move hi (fun r hr => ?_) hok).keeps hi
      rw [hr] at hplan
      simpa using hplan
  | openPlan id =>
    simp only [env] at h
    split at h
    case h_2 => cases h
    case h_1 row hrow =>
      split at h
      case h_2 => cases h
      case h_1 d c hd hc =>
        cases h
        exact openPlan_keeps hi hrow hd hc
  | insertTarget bucketID providerID copyIndex =>
    obtain ⟨_, hok⟩ := hafter (y := insertTarget bucketID providerID copyIndex) h
    exact (insertTarget_move hok).keeps hi
  | ensureDataSet id identity =>
    obtain ⟨_, hok⟩ := hafter (y := ensureDataSet id identity) h
    exact (ensureDataSet_move hok).keeps hi
  | backfill id dataSetID client =>
    obtain ⟨_, hok⟩ := hafter (y := backfillClientDataSetID id dataSetID client) h
    exact absurd hok (backfill_refused hi)
  | revise id revision =>
    obtain ⟨_, hok⟩ := hafter (y := revise id revision) h
    exact (revise_move hi hok).keeps hi
  | claim taskID =>
    simp only [env] at h
    split at h
    case h_2 => cases h
    case h_1 r hr =>
      split at h
      case isFalse => cases h
      case isTrue => cases h; exact (claim_move hr).keeps hi
  | retry taskID =>
    obtain ⟨_, hok⟩ := hafter (y := retry taskID) h
    exact (retry_move hok).keeps hi
  | failClaim taskID reason =>
    simp only [env] at h
    split at h
    case h_2 => cases h
    case h_1 r hr =>
      split at h
      case h_2 => cases h
      case h_1 => cases h; exact (failClaim_move hr).keeps hi
  | land id i dataSetID =>
    simp only [env] at h
    split at h
    case h_2 => cases h
    case h_1 e he =>
      obtain ⟨u, hu, heq⟩ := Option.map_eq_some_iff.mp h
      cases heq
      refine accept_keeps hi hu fun id' hid => ?_
      cases hid
      exact ⟨e, List.mem_of_getElem? he, rfl, rfl, rfl⟩
  | foreign identity client providerID dataSetID =>
    obtain ⟨u, hu, heq⟩ := Option.map_eq_some_iff.mp h
    cases heq
    exact accept_keeps hi hu fun id hid => by cases hid

theorem env_starts {y : DataSetM Unit} (h : env s b = some (t, some (k, y))) :
    ∃ taskID r, b = .claim taskID ∧ s.rounds.row taskID = some r ∧
      t = { s with rounds := s.rounds.modify taskID Round.claim } ∧ k = (executionOf taskID r.claim).key ∧
      y = executeClaim rounds k (handler (executionOf taskID r.claim)) := by
  cases b with
  | claim taskID =>
    simp only [env] at h
    split at h
    case h_2 => cases h
    case h_1 r hr =>
      split at h
      case isFalse => cases h
      case isTrue => cases h; exact ⟨taskID, r, rfl, hr, rfl, rfl, rfl⟩
  | openPlan id | failClaim taskID reason =>
    simp only [env] at h
    split at h
    · split at h <;> cases h
    · cases h
  | land id i dataSetID | schedule bucketID providerID copyIndex ref =>
    simp only [env] at h
    split at h
    · simp at h
    · cases h
  | _ => simp [env] at h

/-- **Data set creation keeps its contract**: the start, the steps around the handlers, and every handler. -/
theorem machine_sound : Prog.Sound machine contract := by
  refine ⟨fun s ⟨h₁, h₂, h₃, h₄, h₅⟩ => inv_start h₁ h₂ h₃ h₄ h₅, fun s b t q hi hb => ?_⟩
  have hk := env_keeps hi hb
  refine ⟨hk, fun k y hy => ?_⟩
  subst hy
  obtain ⟨taskID, r, rfl, hr, rfl, rfl, rfl⟩ := env_starts hb
  obtain ⟨hhold, hfresh, hlive⟩ := claim_starts hr
  refine ⟨hfresh, hlive, Tasks.safe_executeClaim (fun s t h => h.current) (handler_safe hhold fun c hc => ?_)⟩
  exact hk.inv.saved taskID r.claim c (Table.row_modify_at hr _) hc

/-! ## What every run does -/

abbrev DataSetConfig := Prog.Config State (Nat × Nat) (Prog.Work RepoError State (Tasks.Ask Query))
  (Prog.Work.Answer (Tasks.Ask.Reply Query.Reply))

theorem steps_grow {x y : DataSetConfig} (hx : machine.lts.Reachable x) (h : machine.lts.Steps x y) :
    Grows x.state y.state :=
  (Lts.Steps.lift (I := Prog.Good machine contract) (R := fun x y => Grows x.state y.state)
    (fun x => .refl x.state) (fun _ _ _ => Grows.trans) (fun _ _ _ hg hs => (machine_sound.step hg hs).1)
    (fun _ _ _ hg hs => (machine_sound.step hg hs).2.toGrows) (machine_sound.good hx) h).2

/-- Why the claim `k` was allowed a request: it is the first one of the binding, or its latest lookup found
    nothing, and either nothing is recorded of a sent request, or a rejection was reported of the transaction
    that is recorded. That one has a hash, unless a report gave a status URL without naming its transaction. -/
inductive Allowed (s : State) (id : Nat) (k : Nat × Nat) : Prop
  | first : (s.history id).Untouched → Allowed s id k
  | again (r : EnsureRound) (c : Checkpoint) : s.rounds.row k.1 = some r → r.Holds k.2 → r.input.dataSetID = id →
      r.checkpoint = some c → (s.history id).lookedUp k = some .notFound →
      ((c.txHash = "" ∧ c.confirmedTxHash = "" ∧ c.statusURL = "") ∨
        ((∃ url, (c.txHash, url) ∈ (s.history id).rejected) ∧
          ((s.history id).unnamed = false → c.txHash ≠ ""))) → Allowed s id k

theorem Decided.allowed (hi : Inv s) {id : Nat} (h : Decided s id k r) : Allowed s id k := by
  rcases h.reason with ⟨-, row, hrow, hnone⟩ | ⟨c, hc, hlook, hre⟩
  · exact .first ((hi.recorded id row hrow).unsent hnone)
  refine .again r c h.round h.holds h.input hc hlook ?_
  simp only [Checkpoint.resendable, Bool.or_eq_true, Bool.and_eq_true, beq_iff_eq] at hre
  rcases hre with hrej | ⟨⟨htx, hconf⟩, hurl⟩
  · right
    have hcons := hi.saved k.1 r c h.round hc
    rw [h.input] at hcons
    exact ⟨hcons.rejected hrej, fun hun => hcons.named hun (.inr hrej)⟩
  · exact .inl ⟨htx, hconf, hurl⟩

section Runs

def someContext : ContextIdentity := ⟨1, some 314, 2⟩

def someIdentity : Pipeline.ExecutionIdentity := ⟨some someContext, some 3⟩

/-- Answers to everything: a create call reports the status URL `url` and no transaction, a status request
    is answered with `rejected`, and a lookup with `found`. -/
def answers (url : String) (rejected : Bool) (found : Lookup) : Tasks.Oracle Query Query.Reply Unit where
  answer
    | .storageIdentity => some someIdentity
    | .bucket _ => true
    | .openProviderTarget _ => some someContext
    | .newClientDataSetID => some 9
    | .clock => 5
    | .resendAt .. => some 0
    | .createDataSet .. => ⟨[⟨"", url⟩], none⟩
    | .findDataSetByClientDataSetID .. => found
    | .observeOperation => some 5
    | .waitForDataSetCreated .. => ⟨none, rejected⟩
  extra := ()

abbrev DataSetChoice := Prog.Choice (Tasks.Oracle Query Query.Reply Unit)

def emptyConfig : DataSetConfig := ⟨⟨Table.empty, Table.empty, [], [], fun _ => {}⟩, []⟩

theorem emptyConfig_reachable : machine.lts.Reachable emptyConfig := .of_init ⟨⟨rfl, rfl, rfl, rfl, rfl⟩, rfl⟩

/-- Handler number `i` reads the binding, and is answered by `o` until the provider is open. -/
def opening (i : Nat) (o : DataSetChoice) : List (Prog.Label DataSetChoice EnvAct) :=
  [.env (.claim 1), .act i (.reads true), .act i o, .act i o, .act i o]

/-- A binding with an ensure round, whose first request reports the status URL `u1`, which is rejected. -/
def rejectedRun : List (Prog.Label DataSetChoice EnvAct) :=
  let o : DataSetChoice := .answer (answers "u1" true .notFound)
  [.env (.insertTarget 1 7 0), .env (.ensureDataSet 1 someIdentity)] ++ opening 0 o ++
    -- the client ID, the time, the admission, the call and its report
    [.act 0 o, .act 0 o, .act 0 o, .act 0 o, .act 0 (.commit .ok), .act 0 o, .act 0 (.commit .ok)] ++
    -- nothing is on chain, and the status is a rejection
    [.act 0 o, .act 0 o, .act 0 o, .act 0 o, .act 0 (.commit .ok)]

/-- The request is sent again, reports the status URL `u2`, and the next claim is about to admit a third
    request. -/
def staleRun : List (Prog.Label DataSetChoice EnvAct) :=
  let o : DataSetChoice := .answer (answers "u2" false .notFound)
  -- a recovery finds nothing, and lets the round execute
  rejectedRun ++ opening 1 o ++ [.act 1 o, .act 1 o, .act 1 o, .act 1 (.commit .ok)] ++
    -- the second request
    opening 2 o ++ [.act 2 o, .act 2 o, .act 2 o, .act 2 o, .act 2 o, .act 2 (.commit .ok), .act 2 o,
      .act 2 (.commit .ok), .act 2 o, .act 2 o, .act 2 o, .act 2 (.commit .ok)] ++
    opening 3 o ++ [.act 3 o, .act 3 o, .act 3 o, .act 3 o, .act 3 o]

def staleConfig : DataSetConfig := (machine.lts.run emptyConfig staleRun).getD emptyConfig

theorem staleConfig_reachable : machine.lts.Reachable staleConfig := by
  have hrun : machine.lts.run emptyConfig staleRun = some staleConfig := rfl
  exact emptyConfig_reachable.of_run hrun

/-- A request lands before its answer is looked up, and the binding becomes ready. -/
def readyRun : List (Prog.Label DataSetChoice EnvAct) :=
  let o : DataSetChoice := .answer (answers "u1" false (.found ⟨7, 42, 9⟩))
  [.env (.insertTarget 1 7 0), .env (.ensureDataSet 1 someIdentity)] ++ opening 0 o ++
    [.act 0 o, .act 0 o, .act 0 o, .act 0 o, .act 0 (.commit .ok), .act 0 o, .act 0 (.commit .ok),
      .env (.land 1 0 42), .act 0 o, .act 0 o, .act 0 (.commit .ok)]

def readyConfig : DataSetConfig := (machine.lts.run emptyConfig readyRun).getD emptyConfig

theorem readyConfig_reachable : machine.lts.Reachable readyConfig := by
  have hrun : machine.lts.run emptyConfig readyRun = some readyConfig := rfl
  exact emptyConfig_reachable.of_run hrun

end Runs

end SynapS3.DataSet
