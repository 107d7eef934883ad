import Mathlib.Data.List.Induction
import SynapS3.Termination.Model

/-!
# `Termination.NoRace` — a termination call does not race itself

The rules for a direct submission are an automaton over the trace (`Watch`): it follows which submissions were
made, how the relay was given up, what the chain showed since and whether the hook agreed. Every trace of
`terminateService` is followed through its pieces.
-/

namespace SynapS3.Termination

variable {w : World} {r r' : Run} {direct : Bool} {attempt : Attempt}

/-! ## The rules -/

/-- The state of the automaton. -/
structure Watch where
  direct : Bool := false
  relayed : Bool := false
  /-- It was given up in a way that shows that it cannot land. -/
  relayGone : Bool := false
  /-- The chain was read since the last submission, and the last read showed the service running. -/
  running : Bool := false
  hooked : Bool := false
  deriving DecidableEq

def Watch.step (x : Watch) : Event → Watch
  | .submit true _ => { x with direct := true, running := false }
  | .submit false _ => { x with relayed := true, running := false }
  | .relayFailed err =>
    { x with relayGone := terminationPrepared err || relayNeverConnected err || relayRequestAbsent err }
  | .read running => { x with running := running }
  | .beforeDirect ok => { x with hooked := ok }
  | .revealed _ | .revealedConfirmed _ | .ended .. => x

def Watch.mayGoDirect (x : Watch) : Bool :=
  !x.direct && x.hooked && x.running && (!x.relayed || x.relayGone)

def watch (trace : List Event) : Watch := trace.foldl Watch.step {}

/-- Every direct submission of the trace was allowed where it was made. -/
def Lawful (trace : List Event) : Prop :=
  ∀ pre left post, trace = pre ++ .submit true left :: post → (watch pre).mayGoDirect = true

/-- The SDK revealed a hash, or a `send` ended; nothing was done. -/
def Event.quiet : Event → Bool
  | .revealed _ | .revealedConfirmed _ | .ended .. => true
  | _ => false

def Event.isDirect : Event → Bool
  | .submit true _ => true
  | _ => false

theorem watch_append (l l' : List Event) : watch (l ++ l') = l'.foldl Watch.step (watch l) := by
  simp only [watch, List.foldl_append]

variable {l : List Event} {err : SdkErrors} {unsent : Option Err}

theorem watch_quiet {q : List Event} (hq : ∀ e ∈ q, e.quiet = true) : watch (l ++ q) = watch l := by
  rw [watch_append]
  generalize watch l = x
  induction q generalizing x with
  | nil => rfl
  | cons e q ih =>
    have he : x.step e = x := by
      have hquiet := hq e List.mem_cons_self
      cases e <;> first | rfl | cases hquiet
    rw [List.foldl_cons, he]
    exact ih (fun e' he' => hq e' (List.mem_cons_of_mem _ he')) x

theorem Lawful.nil : Lawful [] := by
  intro pre left post h
  have := congrArg List.length h
  simp at this

variable {e : Event} {l' events : List Event} {r₁ r₂ r₃ : Run} {submitErr : SdkErrors}

theorem Lawful.concat (h : Lawful l) (he : e.isDirect = true → (watch l).mayGoDirect = true) :
    Lawful (l ++ [e]) := by
  intro pre left post heq
  rcases List.eq_nil_or_concat post with rfl | ⟨post', last, rfl⟩
  · obtain ⟨rfl, hlast⟩ := List.append_inj' heq rfl
    cases hlast
    exact he rfl
  · rw [List.concat_eq_append, ← List.cons_append, ← List.append_assoc] at heq
    exact h pre left post' (List.append_inj' heq rfl).1

theorem Lawful.append (h : Lawful l) (hl' : ∀ e ∈ l', e.isDirect = false) : Lawful (l ++ l') := by
  induction l' generalizing l with
  | nil => rw [List.append_nil]; exact h
  | cons e l' ih =>
    have hcons : l ++ e :: l' = l ++ [e] ++ l' := by simp
    rw [hcons]
    refine ih (h.concat fun he => ?_) fun e' he' => hl' e' (List.mem_cons_of_mem _ he')
    rw [hl' e List.mem_cons_self] at he
    cases he

theorem Event.isDirect_of_quiet (h : e.quiet = true) : e.isDirect = false := by
  cases e <;> first | rfl | cases h

theorem Event.eq_of_isDirect (h : e.isDirect = true) : ∃ left, e = .submit true left := by
  cases e with
  | submit d left =>
    cases d with
    | true => exact ⟨left, rfl⟩
    | false => cases h
  | _ => cases h

theorem Lawful.count (h : Lawful l) : l.countP Event.isDirect ≤ 1 ∧
    (l.countP Event.isDirect = 1 → (watch l).direct = true) := by
  induction l using List.reverseRecOn with
  | nil => exact ⟨Nat.zero_le _, nofun⟩
  | append_singleton l e ih =>
    have hl : Lawful l := by
      intro pre left post heq
      exact h pre left (post ++ [e]) (by rw [heq]; simp)
    obtain ⟨hle, hdirect⟩ := ih hl
    rw [List.countP_append, List.countP_singleton, watch_append]
    by_cases he : e.isDirect = true
    · -- the second one would not have been allowed
      obtain ⟨left, rfl⟩ := Event.eq_of_isDirect he
      have hmay := h l left [] rfl
      have hzero : l.countP Event.isDirect = 0 := by
        by_contra hne
        have hone : l.countP Event.isDirect = 1 := by omega
        simp [Watch.mayGoDirect, hdirect hone] at hmay
      rw [if_pos he, hzero]
      exact ⟨Nat.le_refl _, fun _ => rfl⟩
    · rw [if_neg he]
      refine ⟨hle, fun hc => ?_⟩
      have hd := hdirect hc
      cases e with
      | submit d left =>
        cases d with
        | true => exact absurd rfl he
        | false => exact hd
      | _ => exact hd

/-! ## What the SDK reveals -/

/-- A run that went on, and only heard of hashes. -/
def Run.Extends (r r' : Run) : Prop := ∃ q, (∀ e ∈ q, e.quiet = true) ∧ r'.trace = r.trace ++ q

theorem Run.Extends.refl (r : Run) : r.Extends r := ⟨[], nofun, (List.append_nil _).symm⟩

theorem Run.Extends.trans (h : r₁.Extends r₂) (h' : r₂.Extends r₃) : r₁.Extends r₃ := by
  obtain ⟨q, hq, ht⟩ := h
  obtain ⟨q', hq', ht'⟩ := h'
  refine ⟨q ++ q', fun e he => ?_, by rw [ht', ht, List.append_assoc]⟩
  exact (List.mem_append.mp he).elim (hq e) (hq' e)

theorem Run.Extends.log (hq : ∀ e ∈ events, e.quiet = true) : r.Extends (r.log events) :=
  ⟨events, hq, rfl⟩

/-- Every transaction hash that was revealed is in the evidence, unless a conflict was found. -/
structure Run.Covers (r : Run) : Prop where
  covered : ∀ h, .revealed h ∈ r.trace → r.evidence.txHash = some h ∨ r.callbackErr = some .conflict
  conflict : r.callbackErr = some .conflict → r.evidence.txHash.isSome = true
  hook : ∀ e, r.callbackErr = some e → e = .conflict ∨ ∃ m, e = .hook m

theorem Run.Covers.none_revealed (hc : r.Covers) (hnone : r.evidence.txHash = none) (h : Nat) :
    Event.revealed h ∉ r.trace := by
  intro hmem
  rcases hc.covered h hmem with hsome | hconf
  · rw [hnone] at hsome; cases hsome
  · have := hc.conflict hconf
    rw [hnone] at this
    cases this

theorem Run.Covers.log (hc : r.Covers) (he : ∀ h, Event.revealed h ∉ events) : (r.log events).Covers := by
  refine ⟨fun h hmem => ?_, hc.conflict, hc.hook⟩
  rcases List.mem_append.mp hmem with hmem | hmem
  · exact hc.covered h hmem
  · exact absurd hmem (he h)

/-- A `send` ended in a result or an error that carries the hash of a confirmed transaction. -/
def Event.confirms (hash : Nat) : Event → Bool
  | .ended res err => res.bind (·.confirmedTxHash) == some hash ||
      (failedSubmission err).bind (·.confirmedTxHash) == some hash
  | _ => false

/-- The evidence has a confirmed hash exactly if a `send` ended with it. -/
def Run.Confirmed (r : Run) : Prop :=
  ∀ h, r.evidence.confirmedTxHash = some h ↔ ∃ e ∈ r.trace, e.confirms h = true

theorem Run.Confirmed.log (hc : r.Confirmed) (he : ∀ e ∈ events, ∀ h, e.confirms h = false) :
    (r.log events).Confirmed := by
  refine fun h => (hc h).trans ⟨fun ⟨e, hmem, hh⟩ => ⟨e, List.mem_append_left _ hmem, hh⟩, fun ⟨e, hmem, hh⟩ => ?_⟩
  rcases List.mem_append.mp hmem with hmem | hmem
  · exact ⟨e, hmem, hh⟩
  · rw [he e hmem h] at hh
    cases hh

/-- A piece of the call that only hears of hashes. -/
structure Hears (r r' : Run) : Prop where
  extends_ : r.Extends r'
  covers : r.Covers → r'.Covers
  confirmed : r.Confirmed → r'.Confirmed

theorem Hears.refl (r : Run) : Hears r r := ⟨.refl r, id, id⟩

theorem Hears.trans (h : Hears r₁ r₂) (h' : Hears r₂ r₃) : Hears r₁ r₃ :=
  ⟨h.extends_.trans h'.extends_, h'.covers ∘ h.covers, h'.confirmed ∘ h.confirmed⟩

theorem hears_callback (w : World) (r : Run) (hash : Option Nat) : Hears r (r.callback w hash) := by
  cases hash with
  | none => exact .refl r
  | some h =>
    have hext : r.Extends (r.log [.revealed h]) := .log (by simp [Event.quiet])
    have hconf : r.Confirmed → (r.log [.revealed h]).Confirmed := fun hc => hc.log (by simp [Event.confirms])
    simp only [Run.callback]
    split
    · next hsame =>
      refine ⟨hext, fun hc => ⟨fun h' hmem => ?_, hc.conflict, hc.hook⟩, hconf⟩
      rcases List.mem_append.mp hmem with hmem | hmem
      · exact hc.covered h' hmem
      · cases List.mem_singleton.mp hmem
        exact .inl hsame
    split
    · next hsome =>
      exact ⟨hext, fun _ => ⟨fun _ _ => .inr rfl, fun _ => hsome, fun e he => .inl (Option.some.inj he).symm⟩, hconf⟩
    next hnot =>
    have hnone : r.evidence.txHash = none := by simpa [Run.log] using hnot
    refine ⟨hext, fun hc => ⟨fun h' hmem => ?_, fun _ => rfl, fun e he => ?_⟩, hconf⟩
    · rcases List.mem_append.mp hmem with hmem | hmem
      · exact absurd hmem (hc.none_revealed hnone h')
      · cases List.mem_singleton.mp hmem
        exact .inl rfl
    · dsimp only at he
      split at he
      · exact hc.hook e he
      · obtain ⟨m, -, rfl⟩ := Option.map_eq_some_iff.mp he
        exact .inr ⟨m, rfl⟩

theorem hears_confirmed (r : Run) (hash : Option Nat) : Hears r (r.log (hash.map .revealedConfirmed).toList) := by
  cases hash with
  | none => exact ⟨.log nofun, fun hc => hc.log nofun, fun hc => hc.log nofun⟩
  | some h =>
    exact ⟨.log (by simp [Event.quiet]), fun hc => hc.log (by simp), fun hc => hc.log (by simp [Event.confirms])⟩

theorem hears_told (w : World) (r : Run) (sub : Submission) : Hears r (r.told w sub) :=
  (hears_confirmed r _).trans (hears_callback w _ _)

theorem hears_retained (w : World) (r : Run) (err : SdkErrors) : Hears r (r.retained w err) := by
  unfold Run.retained
  split
  · exact .refl r
  · exact hears_told w r _

theorem hears_waited (w : World) (r : Run) (res : Option Result) : Hears r (r.waited w res) := by
  cases res with
  | none => exact .refl r
  | some res => exact (hears_confirmed r _).trans (hears_callback w _ _)

theorem hears_announced (w : World) (subs : List Submission) (r : Run) : Hears r (subs.foldl (Run.told w) r) := by
  induction subs generalizing r with
  | nil => exact .refl r
  | cons sub subs ih => exact (hears_told w r sub).trans (ih _)

theorem hears_waitLoop (submitErr : SdkErrors) (last : Wait) (waits : List Wait) (r : Run) :
    Hears r (waitLoop w direct submitErr last waits r).1 := by
  induction waits generalizing r with
  | nil => exact (hears_retained w r _).trans (hears_waited w _ _)
  | cons wait waits ih =>
    have hheard := (hears_retained w r wait.err).trans (hears_waited w _ wait.res)
    simp only [waitLoop]
    split
    · exact hheard
    · exact hheard.trans (ih _)

theorem hears_returned (w : World) (r : Run) (sub : Option Submission) : Hears r (r.returned w sub) := by
  cases sub with
  | none => exact .refl r
  | some sub => exact hears_told w r sub

theorem hears_submitted (w : World) (direct : Bool) (a : Submit) (r : Run) :
    Hears (r.log [.submit direct a.left]) (r.submitted w direct a) :=
  ((hears_announced w a.announced _).trans (hears_retained w _ a.err)).trans (hears_returned w _ a.sub)

theorem hears_send : Hears (r.log [.submit direct attempt.submit.left]) (send w direct attempt r).1 := by
  have hheard := hears_submitted w direct attempt.submit r
  simp only [send]
  split
  · exact hheard
  split
  · split
    · exact hheard.trans (hears_waitLoop _ _ _ _)
    · exact hheard
  split
  · exact hheard
  · exact hheard.trans (hears_waitLoop _ _ _ _)

/-! ## What was not sent -/

theorem terminateServiceError_append (err err' : SdkErrors) :
    terminateServiceError (err ++ err') = (terminateServiceError err).or (terminateServiceError err') := by
  simp only [terminateServiceError, List.findSome?_append]

theorem wait_not_unsent {wait : Wait} (hp : terminationPrepared submitErr = false)
    (hn : relayNeverConnected submitErr = false) :
    terminationPrepared (wait.err ++ submitErr) = false ∧ relayNeverConnected (wait.err ++ submitErr) = false := by
  simp only [terminationPrepared, relayNeverConnected, terminateServiceError_append]
  cases hw : terminateServiceError wait.err with
  | none => exact ⟨hp, hn⟩
  | some failure =>
    have hstage := wait.stage_wait failure hw
    simp [hstage]

theorem waitLoop_not_unsent (last : Wait) (waits : List Wait) (r : Run)
    (hp : terminationPrepared submitErr = false) (hn : relayNeverConnected submitErr = false) :
    terminationPrepared (waitLoop w direct submitErr last waits r).2.2 = false ∧
      relayNeverConnected (waitLoop w direct submitErr last waits r).2.2 = false := by
  have hend : ∀ wait : Wait, terminationPrepared (if wait.err = [] then [] else wait.err ++ submitErr) = false ∧
      relayNeverConnected (if wait.err = [] then [] else wait.err ++ submitErr) = false := by
    intro wait
    split
    · exact ⟨rfl, rfl⟩
    · exact wait_not_unsent hp hn
  induction waits generalizing r with
  | nil => exact hend last
  | cons wait waits ih =>
    simp only [waitLoop]
    split
    · exact hend wait
    · exact ih _

/-- **An attempt that its error shows was not sent was not sent.** -/
theorem send_unsent (h : (terminationPrepared (send w direct attempt r).2.2 ||
    relayNeverConnected (send w direct attempt r).2.2) = true) : attempt.submit.left = false := by
  have hcontract : (terminationPrepared attempt.submit.err || relayNeverConnected attempt.submit.err) = true →
      attempt.submit.left = false := by
    intro hor
    rcases Bool.or_eq_true _ _ |>.mp hor with hp | hn
    · exact attempt.submit.prepared_unsent hp
    · exact attempt.submit.dial_unsent hn
  simp only [send] at h
  split at h
  · exact hcontract h
  split at h
  · split at h
    · next hres =>
      -- only a submission with an unknown outcome is waited for
      simp only [resumable, Bool.and_eq_true, Bool.not_eq_true'] at hres
      have hp : terminationPrepared attempt.submit.err = false := by
        cases hf : terminateServiceError attempt.submit.err with
        | none => simp [terminationPrepared, hf]
        | some failure =>
          have hstage : failure.stage = .submit := by
            have := hres.1.2
            simp only [hf, Option.any_some, Bool.and_eq_true, beq_iff_eq] at this
            exact this.1
          simp [terminationPrepared, hf, hstage]
      obtain ⟨hp', hn'⟩ := waitLoop_not_unsent attempt.last attempt.waits (r.submitted w direct attempt.submit) hp hres.2
      rw [hp', hn'] at h
      cases h
    · exact hcontract h
  split at h
  · cases h
  · obtain ⟨hp', hn'⟩ := waitLoop_not_unsent attempt.last attempt.waits (r.submitted w direct attempt.submit)
      (rfl : terminationPrepared [] = false) rfl
    rw [hp', hn'] at h
    cases h

/-! ## `send` and its merges -/

/-- The hashes are accounted for, or the call ends with a conflict. -/
def Run.Merged (r : Run) : Prop := r.Covers ∨ r.callbackErr = some .conflict

theorem Run.Merged.merge (h : r.Merged) (res : Option Result) (directConfirmed : Bool) :
    (r.merge res directConfirmed).Merged := by
  cases res with
  | none => exact h
  | some res =>
    simp only [Run.merge]
    split
    · exact .inr rfl
    next hsame =>
    rcases h with hc | hconf
    swap
    · exact .inr hconf
    -- what was in the evidence stays there
    have hkeep : ∀ h, r.evidence.txHash = some h → res.txHash.or r.evidence.txHash = some h := by
      intro h hh
      cases hr : res.txHash with
      | none => rw [hh]; rfl
      | some x =>
        by_contra hne
        refine hsame (.inl ⟨by rw [hh]; rfl, by rw [hr]; rfl, fun heq => hne ?_⟩)
        rw [← hh, heq, hr]
        rfl
    refine .inl ⟨fun h hmem => (hc.covered h hmem).imp_left (hkeep h), fun hconf => ?_, hc.hook⟩
    obtain ⟨h, hh⟩ := Option.isSome_iff_exists.mp (hc.conflict hconf)
    show (res.txHash.or r.evidence.txHash).isSome = true
    rw [hkeep h hh]
    rfl

theorem Run.merge_trace (r : Run) (res : Option Result) (directConfirmed : Bool) :
    (r.merge res directConfirmed).trace = r.trace := by
  cases res with
  | none => rfl
  | some res =>
    simp only [Run.merge]
    split <;> rfl

theorem Run.merge_conflict {res : Option Result} {directConfirmed : Bool} (h : r.callbackErr = some .conflict) :
    (r.merge res directConfirmed).callbackErr = some .conflict := by
  cases res with
  | none => exact h
  | some res =>
    simp only [Run.merge]
    split
    · rfl
    · exact h

theorem Run.merge_confirmed (r : Run) (res : Option Result) (directConfirmed : Bool) :
    (r.merge res directConfirmed).callbackErr = some .conflict ∨
    ∀ h, (r.merge res directConfirmed).evidence.confirmedTxHash = some h ↔
      r.evidence.confirmedTxHash = some h ∨ res.bind (·.confirmedTxHash) = some h := by
  cases res with
  | none => exact .inr fun h => by simp [Run.merge]
  | some res =>
    simp only [Run.merge]
    split
    · exact .inl rfl
    next hsame =>
    refine .inr fun h => ?_
    -- two confirmed hashes would have to be the same one
    have hconf := (not_or.mp hsame).2
    show res.confirmedTxHash.or r.evidence.confirmedTxHash = some h ↔ _ ∨ res.confirmedTxHash = some h
    cases hr : res.confirmedTxHash with
    | none => simp
    | some x =>
      cases he : r.evidence.confirmedTxHash with
      | none => simp
      | some y =>
        have hxy : y = x := by simpa [hr, he] using hconf
        simp [hxy]

theorem Run.Merged.covers (h : r.Merged) (hnone : r.callbackErr = none) : r.Covers :=
  h.resolve_right (by rw [hnone]; nofun)

/-- What `r₀` is after an attempt that ended in `r`. -/
structure Attempted (direct left : Bool) (r₀ r : Run) : Prop where
  trace : ∃ q, (∀ e ∈ q, e.quiet = true) ∧ r.trace = r₀.trace ++ [.submit direct left] ++ q
  merged : r.Merged
  confirmed : r.Confirmed ∨ r.callbackErr = some .conflict

theorem confirmed_sendAndMerge (hc : r.Confirmed) : (sendAndMerge w direct attempt r).1.Confirmed ∨
    (sendAndMerge w direct attempt r).1.callbackErr = some .conflict := by
  have hsent : (send w direct attempt r).1.Confirmed := hears_send.confirmed (hc.log (by simp [Event.confirms]))
  simp only [sendAndMerge]
  generalize send w direct attempt r = out at hsent
  obtain ⟨r', res, err⟩ := out
  rcases r'.merge_confirmed res (direct && err == []) with hconf | hres
  · exact .inr (Run.merge_conflict hconf)
  rcases (r'.merge res (direct && err == [])).merge_confirmed (failedSubmission err) false with hconf | herr
  · exact .inr hconf
  refine .inl fun h => (herr h).trans ?_
  rw [hres h, hsent h]
  simp only [Run.log, Run.merge_trace, List.mem_append, List.mem_singleton, or_and_right, exists_or, exists_eq_left,
    Event.confirms, Bool.or_eq_true, beq_iff_eq, or_assoc]

theorem attempted_sendAndMerge (hc : r.Covers) (hconf : r.Confirmed) :
    Attempted direct attempt.submit.left r (sendAndMerge w direct attempt r).1 := by
  have hheard : Hears (r.log [.submit direct attempt.submit.left]) (send w direct attempt r).1 := hears_send
  obtain ⟨q, hq, htrace⟩ := hheard.extends_
  have hcovers := hheard.covers (hc.log (by simp))
  refine ⟨⟨q ++ [.ended (send w direct attempt r).2.1 (send w direct attempt r).2.2], fun e he => ?_, ?_⟩, ?_,
    confirmed_sendAndMerge hconf⟩
  · rcases List.mem_append.mp he with he | he
    · exact hq e he
    · cases List.mem_singleton.mp he
      rfl
  · simp only [sendAndMerge, Run.log, Run.merge_trace]
    rw [htrace]
    exact List.append_assoc ..
  · exact Or.imp_left (fun hc => hc.log (by simp)) ((Run.Merged.merge (.inl hcovers) _ _).merge _ _)

variable {left : Bool} {r₀ : Run}

theorem Attempted.lawful (h : Attempted direct left r₀ r) (hl : Lawful r₀.trace)
    (hd : direct = true → (watch r₀.trace).mayGoDirect = true) : Lawful r.trace := by
  obtain ⟨q, hq, htrace⟩ := h.trace
  rw [htrace]
  refine (hl.concat fun he => hd ?_).append fun e he => Event.isDirect_of_quiet (hq e he)
  cases direct with
  | true => rfl
  | false => cases he

theorem Attempted.watch (h : Attempted direct left r₀ r) :
    watch r.trace = (watch r₀.trace).step (.submit direct left) := by
  obtain ⟨q, hq, htrace⟩ := h.trace
  rw [htrace, watch_quiet hq, watch_append]
  rfl

theorem Attempted.submit_mem (h : Attempted direct left r₀ r) {d l : Bool} (hmem : .submit d l ∈ r.trace) :
    .submit d l ∈ r₀.trace ∨ (d = direct ∧ l = left) := by
  obtain ⟨q, hq, htrace⟩ := h.trace
  rw [htrace] at hmem
  simp only [List.mem_append, List.mem_singleton, Event.submit.injEq] at hmem
  rcases hmem with (hmem | hmem) | hmem
  · exact .inl hmem
  · exact .inr hmem
  · exact absurd (hq _ hmem) nofun

/-! ## Marks -/

def Err.Unmarked (e : Err) : Prop := Err.is .notSent e = false ∧ Err.is .transactionNotSent e = false

variable {e : Err}

theorem Err.Unmarked.join {e' : Err} (h : e.Unmarked) (h' : e'.Unmarked) : (Err.join e e').Unmarked := by
  simp only [Err.Unmarked, Err.is, h.1, h.2, h'.1, h'.2, Bool.or_self, and_self]

theorem normalizeTerminationError_unmarked (err : SdkErrors) : (normalizeTerminationError err).Unmarked := by
  unfold normalizeTerminationError
  split
  · exact ⟨rfl, rfl⟩
  split <;> exact ⟨rfl, rfl⟩

theorem callbackFailure_unmarked (he : e = .conflict ∨ ∃ m, e = .hook m) : (callbackFailure e err).Unmarked := by
  have hself : e.Unmarked := by rcases he with rfl | ⟨m, rfl⟩ <;> exact ⟨rfl, rfl⟩
  unfold callbackFailure
  split
  · exact hself
  · exact .join hself (normalizeTerminationError_unmarked err)

theorem recordedTermination_unmarked {read : Except String (Option DataSetInfo)}
    (h : recordedTermination w read = .error e) : e.Unmarked := by
  unfold recordedTermination at h
  split at h
  · cases h; exact ⟨rfl, rfl⟩
  · cases h; exact ⟨rfl, rfl⟩
  · split at h
    · cases h; exact ⟨rfl, rfl⟩
    · split at h <;> cases h

theorem hookError_unmarked (h : hookError w = some e) : e.Unmarked := by
  obtain ⟨m, -, rfl⟩ := Option.map_eq_some_iff.mp h
  exact ⟨rfl, rfl⟩

/-- What a mark says about the trace it is returned with. -/
inductive Marks (trace : List Event) : Option Err → Prop
  | none : Marks trace none
  | notSent : (∀ d, .submit d true ∉ trace) → Marks trace (some .notSent)
  | transactionNotSent : .submit true true ∉ trace → Marks trace (some .transactionNotSent)

theorem Marks.mono (h : Marks l unsent) (hsub : ∀ d, .submit d true ∈ l' → .submit d true ∈ l) :
    Marks l' unsent := by
  cases h with
  | none => exact .none
  | notSent h => exact .notSent fun d hm => h d (hsub d hm)
  | transactionNotSent h => exact .transactionNotSent fun hm => h (hsub true hm)

theorem Marks.unsentTermination (h : Marks l unsent) (he : e.Unmarked) :
    (Err.is .notSent (unsentTermination e unsent) = true → ∀ d, .submit d true ∉ l) ∧
      (Err.is .transactionNotSent (unsentTermination e unsent) = true → .submit true true ∉ l) := by
  cases h with
  | none => simp [Termination.unsentTermination, he.1, he.2]
  | notSent h => exact ⟨fun _ => h, fun _ => h true⟩
  | transactionNotSent h =>
    refine ⟨fun hm => ?_, fun _ => h⟩
    simp only [Termination.unsentTermination, Err.is, he.1, Bool.or_false] at hm
    exact absurd hm (by decide)

def Event.inert : Event → Bool
  | .relayFailed _ | .read _ | .beforeDirect _ => true
  | _ => false

/-- A run that may go on: the rules are kept, the hashes accounted for, and no callback has failed. -/
structure Run.Sound (r : Run) : Prop where
  lawful : Lawful r.trace
  covers : r.Covers
  confirmed : r.Confirmed
  settled : r.callbackErr = none

section Inert

variable {events : List Event} (hin : ∀ e ∈ events, e.inert = true)
include hin

theorem Run.Sound.log (h : r.Sound) : (r.log events).Sound where
  lawful := h.lawful.append fun e he => by
    have hinert := hin e he
    cases e <;> first | rfl | cases hinert
  covers := h.covers.log fun x hx => absurd (hin _ hx) nofun
  confirmed := h.confirmed.log fun e he x => by
    have hinert := hin e he
    cases e <;> first | rfl | cases hinert
  settled := h.settled

theorem Marks.log (h : Marks r.trace unsent) : Marks (r.log events).trace unsent :=
  h.mono fun _ hm => (List.mem_append.mp hm).resolve_right fun hm => absurd (hin _ hm) nofun

end Inert

theorem Run.Sound.hash (h : r.Sound) {x : Nat} (hmem : .revealed x ∈ r.trace) : r.evidence.txHash = some x :=
  (h.covers.covered x hmem).resolve_right (by rw [h.settled]; nofun)

theorem Attempted.sound (h : Attempted direct left r₀ r) (hl : Lawful r.trace) (hnone : r.callbackErr = none) :
    r.Sound :=
  ⟨hl, h.merged.covers hnone, h.confirmed.resolve_right (by rw [hnone]; nofun), hnone⟩

/-! ## What a call returns -/

def Outcome.Conflicts (o : Outcome) : Prop := ∃ e, o.err = some e ∧ Err.is .conflict e = true

/-- What is shown of every way the call ends. -/
structure Outcome.Ok (o : Outcome) : Prop where
  lawful : Lawful o.trace
  notSent : ∀ e, o.err = some e → Err.is .notSent e = true → ∀ d, .submit d true ∉ o.trace
  transactionNotSent : ∀ e, o.err = some e → Err.is .transactionNotSent e = true → .submit true true ∉ o.trace
  revealed : ∀ h, .revealed h ∈ o.trace →
    (∃ evidence, o.result = some evidence ∧ evidence.txHash = some h) ∨ o.Conflicts
  confirmed : o.Conflicts ∨ ∀ h, (∃ evidence, o.result = some evidence ∧ evidence.confirmedTxHash = some h) ↔
    ∃ e ∈ o.trace, e.confirms h = true

theorem Run.Confirmed.result (hc : r.Confirmed) (h : Nat) :
    (∃ evidence, some r.evidence = some evidence ∧ evidence.confirmedTxHash = some h) ↔
      ∃ e ∈ r.trace, e.confirms h = true := by
  rw [← hc h]
  exact ⟨fun ⟨_, heq, hh⟩ => Option.some.inj heq ▸ hh, fun hh => ⟨_, rfl, hh⟩⟩

theorem Outcome.Ok.of_return {e : Option Err} (h : r.Sound) (he : ∀ e', e = some e' → e'.Unmarked) :
    (r.return e).Ok := by
  refine ⟨h.lawful, fun e' heq hm => ?_, fun e' heq hm => ?_, fun x hmem => .inl ⟨_, rfl, h.hash hmem⟩,
    .inr h.confirmed.result⟩
  · rw [(he e' heq).1] at hm; cases hm
  · rw [(he e' heq).2] at hm; cases hm

theorem Outcome.Ok.of_unsent (h : r.Sound) (he : e.Unmarked) (hm : Marks r.trace unsent) :
    (r.return (some (unsentTermination e unsent))).Ok := by
  obtain ⟨hmark, hmark'⟩ := hm.unsentTermination he
  refine ⟨h.lawful, fun e' heq his => ?_, fun e' heq his => ?_, fun x hmem => .inl ⟨_, rfl, h.hash hmem⟩,
    .inr h.confirmed.result⟩
  · cases heq; exact hmark his
  · cases heq; exact hmark' his

theorem Outcome.Ok.of_ended {epoch : Nat} (h : r.Sound) (hnone : ¬r.evidence.any = true) :
    Outcome.Ok ⟨some { endEpoch := some epoch }, none, r.trace⟩ := by
  simp only [Evidence.any, Bool.or_eq_true, not_or, Option.not_isSome_iff_eq_none] at hnone
  refine ⟨h.lawful, by simp, by simp,
    fun x hmem => absurd hmem (h.covers.none_revealed hnone.1 x), .inr fun x => ?_⟩
  rw [← h.confirmed x, hnone.2]
  refine ⟨?_, by simp⟩
  rintro ⟨_, ⟨⟩, hh⟩
  exact hh

theorem Attempted.callback_ok (h : Attempted direct left r₀ r) (hl : Lawful r.trace) (he : r.callbackErr = some e) :
    (r.return (some (callbackFailure e err))).Ok := by
  have hm := h.merged
  have hconflict : e = .conflict → Err.is .conflict (callbackFailure e err) = true := by
    rintro rfl
    unfold callbackFailure
    split
    · rfl
    · simp only [Err.is]
      rfl
  have hshape : e = .conflict ∨ ∃ m, e = .hook m := by
    rcases hm with hc | hconf
    · exact hc.hook e he
    · rw [he] at hconf
      exact .inl (Option.some.inj hconf)
  have hmarks : (callbackFailure e err).Unmarked := callbackFailure_unmarked hshape
  have hconflicts : r.callbackErr = some .conflict → (r.return (some (callbackFailure e err))).Conflicts := by
    rw [he]
    exact fun h => ⟨_, rfl, hconflict (Option.some.inj h)⟩
  refine ⟨hl, fun e' h hmk => ?_, fun e' h hmk => ?_, fun h hmem => ?_,
    (h.confirmed.imp Run.Confirmed.result hconflicts).symm⟩
  · cases h
    rw [hmarks.1] at hmk
    cases hmk
  · cases h
    rw [hmarks.2] at hmk
    cases hmk
  · have hcase : r.evidence.txHash = some h ∨ r.callbackErr = some .conflict :=
      hm.elim (fun hc => hc.covered h hmem) .inr
    exact hcase.imp (fun hsome => ⟨_, rfl, hsome⟩) hconflicts

theorem finish_ok {res : Option Result} {usedDirect : Bool} (h : r.Sound) : (finish w r res usedDirect).Ok := by
  unfold finish
  split
  · exact .of_return h (by rintro _ ⟨⟩; exact ⟨rfl, rfl⟩)
  split
  · exact .of_return h nofun
  have h' : (r.log [.read (showsRunning w w.lastRead)]).Sound := h.log (by simp [Event.inert])
  dsimp only
  split
  · next e he => exact .of_return h' (by rintro _ ⟨⟩; exact recordedTermination_unmarked he)
  · exact .of_return h' nofun
  · exact .of_return ⟨h'.lawful, ⟨h'.covers.covered, h'.covers.conflict, h'.covers.hook⟩,
      h'.confirmed, h'.settled⟩ nofun

theorem fallback_ok {relayErr : SdkErrors} (h : r.Sound) (hmay : (watch r.trace).mayGoDirect = true)
    (hm : Marks r.trace unsent) : (fallback w relayErr unsent r).Ok := by
  have hatt : Attempted true w.direct.submit.left r (sendAndMerge w true w.direct r).1 :=
    attempted_sendAndMerge h.covers h.confirmed
  have hlaw := hatt.lawful h.lawful fun _ => hmay
  have hprepared : terminationPrepared (sendAndMerge w true w.direct r).2.2 = true →
      w.direct.submit.left = false := by
    intro hp
    have hsent : terminationPrepared (send w true w.direct r).2.2 = true := hp
    exact send_unsent (by rw [hsent, Bool.true_or])
  unfold fallback
  generalize sendAndMerge w true w.direct r = out at hatt hlaw hprepared
  obtain ⟨r', res, err⟩ := out
  dsimp only at hatt hlaw hprepared ⊢
  split
  · next e he => exact hatt.callback_ok hlaw he
  next hnone =>
  have h' := hatt.sound hlaw hnone
  have hfail : (Err.wrap "direct termination failed after provider relay error"
      (.join (normalizeTerminationError relayErr) (.operation err))).Unmarked :=
    Err.Unmarked.join (normalizeTerminationError_unmarked relayErr) ⟨rfl, rfl⟩
  split
  · exact finish_ok h'
  split
  · exact .of_return h' (by rintro _ ⟨⟩; exact hfail)
  next hany =>
  have hin : ∀ e ∈ [Event.read (showsRunning w w.directRead)], e.inert = true := by simp [Event.inert]
  split
  · exact .of_ended (h'.log hin) hany
  split
  · next hp =>
    -- neither attempt was sent, or the relay alone
    refine .of_unsent (h'.log hin) hfail (Marks.log hin (hm.mono fun d hmem => ?_))
    rcases hatt.submit_mem hmem with hold | ⟨-, hl⟩
    · exact hold
    · rw [hprepared hp] at hl; cases hl
  · exact .of_return (h'.log hin) (by rintro _ ⟨⟩; exact hfail)

theorem showsRunning_of {read : Except String (Option DataSetInfo)} (h : recordedTermination w read = .ok none) :
    showsRunning w read = true := by
  rw [showsRunning, h]

theorem afterRelay_ok (h : r.Sound) (hany : ¬r.evidence.any = true) (hdirect : (watch r.trace).direct = false)
    (hm : Marks r.trace unsent) : (afterRelay w err unsent r).Ok := by
  have hnorm := normalizeTerminationError_unmarked err
  have hin : ∀ e ∈ [.relayFailed err, Event.read (showsRunning w w.relayRead)], e.inert = true := by
    simp [Event.inert]
  have hin' : ∀ e ∈ [Event.beforeDirect (hookError w).isNone], e.inert = true := by simp [Event.inert]
  unfold afterRelay
  dsimp only
  split
  · next e he => exact .of_unsent (h.log hin) (hnorm.join (recordedTermination_unmarked he)) (hm.log hin)
  · exact .of_ended (h.log hin) hany
  next hrunning =>
  split
  · exact .of_unsent (h.log hin) hnorm (hm.log hin)
  next hgone =>
  split
  · next e he =>
    exact .of_unsent ((h.log hin).log hin') ((hookError_unmarked he).join hnorm) ((hm.log hin).log hin')
  next hhook =>
  refine fallback_ok ((h.log hin).log hin') ?_ ((hm.log hin).log hin')
  -- the relay is gone, the service runs and the hook agreed
  have hrel : (terminationPrepared err || relayNeverConnected err || relayRequestAbsent err) = true := by
    simp only [Bool.and_eq_true, Bool.not_eq_true', not_and, Bool.not_eq_false] at hgone
    cases hor : terminationPrepared err || relayNeverConnected err with
    | true => rfl
    | false => exact hgone hor
  simp only [Run.log, watch_append, List.foldl_cons, List.foldl_nil, Watch.step, Watch.mayGoDirect, hdirect,
    showsRunning_of hrunning, hhook, hrel, Option.isNone_none, Bool.not_false, Bool.and_self, Bool.or_true]

theorem attemptFirst_ok {skipProvider : Bool} (h : r.Sound)
    (hmay : skipProvider = true → (watch r.trace).mayGoDirect = true) (hdirect : (watch r.trace).direct = false)
    (hsub : ∀ d l, .submit d l ∉ r.trace) : (attemptFirst w skipProvider r).Ok := by
  have hatt : Attempted skipProvider (if skipProvider then w.direct else w.relay).submit.left r
      (sendAndMerge w skipProvider (if skipProvider then w.direct else w.relay) r).1 :=
    attempted_sendAndMerge h.covers h.confirmed
  have hlaw := hatt.lawful h.lawful hmay
  have hunsent : (terminationPrepared (sendAndMerge w skipProvider (if skipProvider then w.direct else w.relay) r).2.2 ||
      relayNeverConnected (sendAndMerge w skipProvider (if skipProvider then w.direct else w.relay) r).2.2) = true →
      (if skipProvider then w.direct else w.relay).submit.left = false := fun h => send_unsent h
  unfold attemptFirst
  generalize sendAndMerge w skipProvider (if skipProvider then w.direct else w.relay) r = out at hatt hlaw hunsent
  generalize (if skipProvider then w.direct else w.relay).submit.left = left at hatt hunsent
  obtain ⟨r', res, err⟩ := out
  dsimp only at hatt hlaw hunsent ⊢
  split
  · next e he => exact hatt.callback_ok hlaw he
  next hnone =>
  have h' := hatt.sound hlaw hnone
  split
  · exact finish_ok h'
  -- the only submission so far is this attempt's
  have hown : ∀ d, .submit d true ∈ r'.trace → d = skipProvider ∧ left = true := fun d hmem =>
    (hatt.submit_mem hmem).elim (fun hold => absurd hold (hsub d true)) fun hd => ⟨hd.1, hd.2.symm⟩
  have hm : Marks r'.trace (unsentMark skipProvider r'.evidence err) := by
    unfold unsentMark
    split
    · exact .none
    split
    · next hun => exact .notSent fun d hmem => absurd ((hown d hmem).2.symm.trans (hunsent hun)) (by simp)
    split
    · exact .none
    · next hskip => exact .transactionNotSent fun hmem => hskip (hown true hmem).1.symm
  split
  · exact .of_unsent h' (normalizeTerminationError_unmarked err) hm
  next hgo =>
  simp only [Bool.or_eq_true, not_or, Bool.not_eq_true] at hgo
  obtain ⟨⟨⟨⟨hskip, hany⟩, -⟩, -⟩, -⟩ := hgo
  refine afterRelay_ok h' (by simp [hany]) ?_ hm
  rw [hatt.watch]
  subst hskip
  exact hdirect

def accepted : Submit where
  sub := some {}
  prepared_unsent := by decide
  dial_unsent := by decide

/-- A wait whose slice ended after the provider reported a confirmed transaction. -/
def slicedWait : Wait where
  err := [{ terminate := some { stage := .wait, submission := some { confirmedTransactionID := some 7 } } }]
  sliceEnded := true
  stage_wait := by rintro _ ⟨⟩; rfl

def resultWait : Wait where
  res := some { txHash := some 5 }
  stage_wait := by simp [terminateServiceError]

/-- The service runs, and ends while the relay is watched. -/
def slicedWorld : World where
  firstRead := .ok (some ⟨1, 0⟩)
  relayRead := .ok (some ⟨1, 0⟩)
  directRead := .ok (some ⟨1, 0⟩)
  lastRead := .ok (some ⟨1, 900⟩)
  relay := ⟨accepted, [slicedWait], resultWait⟩
  direct := ⟨accepted, [], resultWait⟩

/-- A relay that never connected, and the direct attempt after it. -/
def unreachableWorld : World :=
  { slicedWorld with
    relay :=
      { submit :=
          { err := [{ terminate := some { stage := .submit, submission := some {}, dial := true } }]
            left := false
            prepared_unsent := by decide
            dial_unsent := by decide }
        last := resultWait } }

example : (terminateService unreachableWorld false).trace =
    [.read true, .submit false false, .ended none unreachableWorld.relay.submit.err,
      .relayFailed unreachableWorld.relay.submit.err, .read true, .beforeDirect true, .submit true true, .revealed 5,
      .ended resultWait.res []] := by decide +kernel

end SynapS3.Termination
