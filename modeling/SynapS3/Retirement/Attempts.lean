import Mathlib.Data.List.Nodup
import SynapS3.Retirement.Repo

/-!
# `Retirement.Attempts` — attempts are linear and their evidence is permanent

The attempts of a termination are numbered in the order of their rows, so the one with the largest number is
the last (`latestAttempt_eq`), and every method changes the last one or adds another behind it.
-/

namespace SynapS3.Retirement

/-- What holds of the row of one attempt. -/
structure Attempt.Sound (a : Attempt) : Prop where
  unsent : a.unsent = true → a.evidence = false
  texts : ∀ h ∈ a.hashes, h ≠ ""
  receipt : a.receiptStatus.isSome = true → a.confirmedTxHash.isSome = true

/-- The attempts of a termination are numbered from 1 on, all but the last have failed on chain, and no hash is in two
    of them. -/
structure AttemptLaws (t : Termination) : Prop where
  numbers : t.attempts.map Attempt.attemptNo = List.range' 1 t.attempts.length
  failed : ∀ a ∈ t.attempts.dropLast, a.receiptStatus = some 0
  sound : ∀ a ∈ t.attempts, a.Sound
  hashes : t.attempts.Pairwise fun a b => ∀ h ∈ a.hashes, h ∉ b.hashes

/-- What is known of an attempt's transaction stays. -/
structure Attempt.EvidenceIn (a a' : Attempt) : Prop where
  txHash : ∀ h, a.txHash = some h → a'.txHash = some h
  confirmedTxHash : ∀ h, a.confirmedTxHash = some h → a'.confirmedTxHash = some h
  receiptStatus : ∀ x, a.receiptStatus = some x → a'.receiptStatus = some x

/-- No attempt and no evidence is lost. -/
structure EvidenceKept (t t' : Termination) : Prop where
  attempts : ∀ a ∈ t.attempts, ∃ a' ∈ t'.attempts, a'.attemptNo = a.attemptNo ∧ a.EvidenceIn a'
  epoch : ∀ e, t.epoch = some e → t'.epoch = some e

/-- What one step may do to a termination whose retirement `owner` carries out. -/
structure StepLaws (owner : Option Authority) (t t' : Termination) : Prop where
  kept : EvidenceKept t t'
  /-- An attempt is admitted under a new number by the owner, as the first one or behind one with a failed
      receipt (which may be recorded with the admission) that another task owns. -/
  new : ∀ a' ∈ t'.attempts, (∀ a ∈ t.attempts, a.attemptNo ≠ a'.attemptNo) → a'.task ≠ none →
    a'.task = owner.map Authority.task ∧ ((t.attempts = [] ∧ a'.attemptNo = 1) ∨
      ∃ p ∈ t'.attempts, a'.attemptNo = p.attemptNo + 1 ∧ p.receiptStatus = some 0 ∧ p.task ≠ a'.task)
  /-- An attempt is admitted again, which sets its task and takes the release back, only without transaction
      evidence, and if it was released or its task is another one. -/
  again : ∀ a ∈ t.attempts, ∀ a' ∈ t'.attempts, a'.attemptNo = a.attemptNo →
    (a'.task ≠ a.task ∨ (a.unsent = true ∧ a'.unsent = false ∧ a'.evidence = false)) →
    a.evidence = false ∧ a'.evidence = false ∧ a'.task = owner.map Authority.task ∧
      (a.unsent = true ∨ a'.task ≠ a.task)
  released : ∀ a ∈ t.attempts, ∀ a' ∈ t'.attempts, a'.attemptNo = a.attemptNo → a.unsent = false →
    a'.unsent = true → a.evidence = false

/-- The methods other than an admission leave every attempt to its task, and as it is, with evidence or released. -/
def Retains (t t' : Termination) : Prop :=
  ∀ a' ∈ t'.attempts, a'.task = none ∨
    ∃ a ∈ t.attempts, a.task = a'.task ∧ (a' = a ∨ a'.evidence = true ∨ a'.unsent = true)

theorem Attempt.EvidenceIn.refl (a : Attempt) : a.EvidenceIn a := ⟨fun _ h => h, fun _ h => h, fun _ h => h⟩

variable {a p : Attempt} {init : List Attempt} {e : Option Int} {b : Attempt}

theorem Attempt.EvidenceIn.trans {c : Attempt} (h : a.EvidenceIn b) (h' : b.EvidenceIn c) : a.EvidenceIn c :=
  ⟨fun x hx => h'.txHash x (h.txHash x hx), fun x hx => h'.confirmedTxHash x (h.confirmedTxHash x hx),
    fun x hx => h'.receiptStatus x (h.receiptStatus x hx)⟩

theorem EvidenceKept.refl (t : Termination) : EvidenceKept t t :=
  ⟨fun a ha => ⟨a, ha, rfl, .refl a⟩, fun _ h => h⟩

theorem EvidenceKept.trans {t u v : Termination} (h : EvidenceKept t u) (h' : EvidenceKept u v) :
    EvidenceKept t v := by
  refine ⟨fun a ha => ?_, fun e he => h'.epoch e (h.epoch e he)⟩
  obtain ⟨b, hb, hno, hev⟩ := h.attempts a ha
  obtain ⟨c, hc, hno', hev'⟩ := h'.attempts b hb
  exact ⟨c, hc, hno'.trans hno, hev.trans hev'⟩

/-! ## The last attempt -/

theorem latestAttempt_eq_getLast {l : List Attempt} (h : l.Pairwise fun a b => a.attemptNo < b.attemptNo) :
    latestAttempt l = l.getLast? := by
  induction l with
  | nil => rfl
  | cons a as ih =>
    rw [List.pairwise_cons] at h
    simp only [latestAttempt, ih h.2]
    cases hl : as.getLast? with
    | none => rw [List.getLast?_eq_none_iff.mp hl]; rfl
    | some b =>
      have hb : b ∈ as := List.mem_of_getLast? hl
      simp only [if_pos (h.1 b hb)]
      rw [List.getLast?_cons, hl]
      rfl

variable {t t' u : Termination} {owner : Option Authority}

theorem AttemptLaws.increasing (h : AttemptLaws t) : t.attempts.Pairwise fun a b => a.attemptNo < b.attemptNo := by
  have hp : (t.attempts.map Attempt.attemptNo).Pairwise (· < ·) := by
    rw [h.numbers]
    exact List.pairwise_lt_range'
  exact List.pairwise_map.mp hp

theorem AttemptLaws.latest_none (h : AttemptLaws t) (hl : latestAttempt t.attempts = none) : t.attempts = [] := by
  rw [latestAttempt_eq_getLast h.increasing] at hl
  exact List.getLast?_eq_none_iff.mp hl

theorem AttemptLaws.latest_some (h : AttemptLaws t) (hl : latestAttempt t.attempts = some p) :
    ∃ init, t.attempts = init ++ [p] ∧ p.attemptNo = init.length + 1 ∧ ∀ a ∈ init, a.attemptNo < p.attemptNo := by
  rw [latestAttempt_eq_getLast h.increasing] at hl
  obtain ⟨init, ht⟩ := List.getLast?_eq_some_iff.mp hl
  refine ⟨init, ht, ?_, fun a ha => ?_⟩
  · have hn := h.numbers
    rw [ht, List.map_append, List.length_append, List.length_singleton, List.range'_concat] at hn
    have := List.append_inj' hn rfl
    simpa [Nat.add_comm] using this.2
  · have hp := h.increasing
    rw [ht] at hp
    exact (List.pairwise_append.mp hp).2.2 a ha p (List.mem_singleton.mpr rfl)

theorem update_last {f : Attempt → Attempt} (ht : t.attempts = init ++ [p])
    (hlt : ∀ a ∈ init, a.attemptNo < p.attemptNo) :
    t.update p.attemptNo f = { t with attempts := init ++ [f p] } := by
  have hinit : init.map (fun a => if a.attemptNo = p.attemptNo then f a else a) = init := by
    refine (List.map_congr_left fun a ha => ?_).trans (List.map_id init)
    exact if_neg (Nat.ne_of_lt (hlt a ha))
  simp only [Termination.update, ht, List.map_append, hinit, List.map_singleton, if_pos]

/-! ## Changing or adding the last attempt -/

variable {p' : Attempt} {n : Nat} {i : EvidenceInput}

theorem mem_or_eq (h : a ∈ init ++ [p]) : a ∈ init ∨ a = p :=
  (List.mem_append.mp h).imp_right List.mem_singleton.mp

theorem AttemptLaws.replace (h : AttemptLaws t) (ht : t.attempts = init ++ [p])
    (hno : p'.attemptNo = p.attemptNo) (hs : p'.Sound)
    (hh : ∀ a ∈ init, ∀ x ∈ a.hashes, x ∉ p'.hashes) : AttemptLaws ⟨e, init ++ [p']⟩ := by
  have hn := h.numbers
  have hf := h.failed
  have hu := h.sound
  have hp := h.hashes
  rw [ht] at hn hf hu hp
  refine ⟨?_, ?_, ?_, ?_⟩
  · simpa [hno] using hn
  · simpa using hf
  · intro a ha
    rcases mem_or_eq ha with ha | rfl
    · exact hu a (List.mem_append_left _ ha)
    · exact hs
  · refine List.pairwise_append.mpr ⟨(List.pairwise_append.mp hp).1, List.pairwise_singleton _ _, ?_⟩
    intro a ha b hb
    rw [List.mem_singleton.mp hb]
    exact hh a ha

theorem AttemptLaws.append (h : AttemptLaws t) (hno : a.attemptNo = t.attempts.length + 1)
    (hfail : ∀ p ∈ t.attempts.getLast?, p.receiptStatus = some 0) (hs : a.Sound)
    (hh : t.attempts = [] ∨ a.hashes = []) : AttemptLaws ⟨e, t.attempts ++ [a]⟩ := by
  refine ⟨?_, ?_, ?_, ?_⟩
  · rw [List.map_append, h.numbers, List.length_append, List.length_singleton, List.range'_concat]
    simp [hno, Nat.add_comm]
  · show ∀ x ∈ (t.attempts ++ [a]).dropLast, _
    rw [List.dropLast_concat]
    intro x hx
    cases hl : t.attempts.getLast? with
    | none =>
      rw [List.getLast?_eq_none_iff.mp hl] at hx
      cases hx
    | some p =>
      obtain ⟨init, ht⟩ := List.getLast?_eq_some_iff.mp hl
      rw [ht] at hx
      rcases mem_or_eq hx with hx | rfl
      · exact h.failed x (by rw [ht, List.dropLast_concat]; exact hx)
      · exact hfail x (by rw [hl]; rfl)
  · intro x hx
    rcases mem_or_eq hx with hx | rfl
    · exact h.sound x hx
    · exact hs
  · refine List.pairwise_append.mpr ⟨h.hashes, List.pairwise_singleton _ _, ?_⟩
    intro x hx b hb y hy
    rw [List.mem_singleton.mp hb]
    rcases hh with hnil | hnil
    · rw [hnil] at hx; cases hx
    · rw [hnil]; nofun

theorem AttemptLaws.eq_of_no (h : AttemptLaws t) (ha : a ∈ t.attempts) (hb : b ∈ t.attempts)
    (hno : a.attemptNo = b.attemptNo) : a = b := by
  have hnd : (t.attempts.map Attempt.attemptNo).Nodup := by
    rw [h.numbers]
    exact List.nodup_range'
  exact List.inj_on_of_nodup_map hnd ha hb hno

theorem StepLaws.refl (h : AttemptLaws t) (owner : Option Authority) : StepLaws owner t t := by
  refine ⟨.refl t, fun a' ha' hnew => absurd rfl (hnew a' ha'), ?_, ?_⟩
  · intro a ha a' ha' hno hch
    rw [h.eq_of_no ha' ha hno] at hch
    rcases hch with hch | ⟨hu, hu', -⟩
    · exact absurd rfl hch
    · rw [hu] at hu'; cases hu'
  · intro a ha a' ha' hno hu hu'
    rw [h.eq_of_no ha' ha hno, hu] at hu'
    cases hu'

theorem StepLaws.replace (h : AttemptLaws t) (ht : t.attempts = init ++ [p]) (hno : p'.attemptNo = p.attemptNo)
    (hev : p.EvidenceIn p') (he : ∀ x, t.epoch = some x → e = some x)
    (hagain : p'.task ≠ p.task ∨ (p.unsent = true ∧ p'.unsent = false ∧ p'.evidence = false) →
      p.evidence = false ∧ p'.evidence = false ∧ p'.task = owner.map Authority.task ∧
        (p.unsent = true ∨ p'.task ≠ p.task))
    (hrel : p.unsent = false → p'.unsent = true → p.evidence = false) : StepLaws owner t ⟨e, init ++ [p']⟩ := by
  have hp : p ∈ t.attempts := by rw [ht]; exact List.mem_concat_self
  have hinit : ∀ a ∈ init, a ∈ t.attempts := fun a ha => by rw [ht]; exact List.mem_append_left _ ha
  -- an attempt of the new list is an unchanged one of the old list, or the last
  have hcase : ∀ a ∈ t.attempts, ∀ a' ∈ init ++ [p'], a'.attemptNo = a.attemptNo → a' = a ∨ (a = p ∧ a' = p') := by
    intro a ha a' ha' heq
    rcases mem_or_eq ha' with ha' | rfl
    · exact .inl (h.eq_of_no (hinit a' ha') ha heq)
    · exact .inr ⟨h.eq_of_no ha hp (heq.symm.trans hno), rfl⟩
  refine ⟨⟨fun a ha => ?_, he⟩, fun a' ha' hnew => ?_, ?_, ?_⟩
  · rw [ht] at ha
    rcases mem_or_eq ha with ha | rfl
    · exact ⟨a, List.mem_append_left _ ha, rfl, .refl a⟩
    · exact ⟨p', List.mem_concat_self, hno, hev⟩
  · rcases mem_or_eq ha' with ha' | rfl
    · exact absurd rfl (hnew a' (hinit a' ha'))
    · exact absurd hno.symm (hnew p hp)
  · intro a ha a' ha' heq hch
    rcases hcase a ha a' ha' heq with rfl | ⟨rfl, rfl⟩
    · rcases hch with hch | ⟨hu, hu', -⟩
      · exact absurd rfl hch
      · rw [hu] at hu'; cases hu'
    · exact hagain hch
  · intro a ha a' ha' heq hu hu'
    rcases hcase a ha a' ha' heq with rfl | ⟨rfl, rfl⟩
    · rw [hu] at hu'; cases hu'
    · exact hrel hu hu'

theorem StepLaws.append (hstep : StepLaws owner t u) (h : AttemptLaws u) (hno : b.attemptNo = u.attempts.length + 1)
    (he : ∀ x, u.epoch = some x → e = some x)
    (hnew : b.task ≠ none → b.task = owner.map Authority.task ∧ ((t.attempts = [] ∧ b.attemptNo = 1) ∨
      ∃ p ∈ u.attempts, b.attemptNo = p.attemptNo + 1 ∧ p.receiptStatus = some 0 ∧ p.task ≠ b.task)) :
    StepLaws owner t ⟨e, u.attempts ++ [b]⟩ := by
  have hle : ∀ a ∈ u.attempts, a.attemptNo ≤ u.attempts.length := by
    intro a ha
    have := List.mem_map_of_mem (f := Attempt.attemptNo) ha
    rw [h.numbers, List.mem_range'_1] at this
    omega
  have hold : ∀ a ∈ t.attempts, ∀ a' ∈ u.attempts ++ [b], a'.attemptNo = a.attemptNo → a' ∈ u.attempts := by
    intro a ha a' ha' heq
    rcases mem_or_eq ha' with ha' | rfl
    · exact ha'
    · obtain ⟨c, hc, hcno, -⟩ := hstep.kept.attempts a ha
      have := hle c hc
      omega
  have hkept : EvidenceKept u ⟨e, u.attempts ++ [b]⟩ :=
    ⟨fun a ha => ⟨a, List.mem_append_left _ ha, rfl, .refl a⟩, he⟩
  have hlift : ∀ {P : Attempt → Prop}, (∃ p ∈ u.attempts, P p) → ∃ p ∈ u.attempts ++ [b], P p :=
    fun ⟨p, hp, hP⟩ => ⟨p, List.mem_append_left _ hp, hP⟩
  refine ⟨hstep.kept.trans hkept, fun a' ha' hfresh htask => ?_, ?_, ?_⟩
  · rcases mem_or_eq ha' with ha' | rfl
    · exact (hstep.new a' ha' hfresh htask).imp_right (Or.imp_right hlift)
    · exact (hnew htask).imp_right (Or.imp_right hlift)
  · exact fun a ha a' ha' heq => hstep.again a ha a' (hold a ha a' ha' heq) heq
  · exact fun a ha a' ha' heq => hstep.released a ha a' (hold a ha a' ha' heq) heq

theorem AttemptLaws.hashes_last (h : AttemptLaws t) (ht : t.attempts = init ++ [p]) :
    ∀ a ∈ init, ∀ x ∈ a.hashes, x ∉ p.hashes := by
  have hpw := h.hashes
  rw [ht] at hpw
  exact fun a ha => (List.pairwise_append.mp hpw).2.2 a ha p (List.mem_singleton.mpr rfl)

theorem Retains.replace (ht : t.attempts = init ++ [p]) (htask : p.task = p'.task)
    (hp : p' = p ∨ p'.evidence = true ∨ p'.unsent = true) : Retains t ⟨e, init ++ [p']⟩ := by
  intro a' ha'
  rw [ht]
  rcases mem_or_eq ha' with ha' | rfl
  · exact .inr ⟨a', List.mem_append_left _ ha', rfl, .inl rfl⟩
  · exact .inr ⟨p, List.mem_concat_self, htask, hp⟩

/-! ## The methods -/

theorem mem_otherHashes (ht : t.attempts = init ++ [p]) (hlt : ∀ a ∈ init, a.attemptNo < p.attemptNo)
    (ha : a ∈ init) {x : String} (hx : x ∈ a.hashes) : x ∈ t.otherHashes p.attemptNo := by
  refine List.mem_flatMap.mpr ⟨a, List.mem_filter.mpr ⟨?_, ?_⟩, hx⟩
  · rw [ht]; exact List.mem_append_left _ ha
  · simpa using Nat.ne_of_lt (hlt a ha)

theorem Attempt.Sound.admitted (n task : Nat) : Attempt.Sound { attemptNo := n, task := some task } :=
  ⟨nofun, nofun, nofun⟩

/-- An admission after a step to `u` that left its latest attempt with evidence, or after none. -/
theorem Termination.begin_laws (h : AttemptLaws u) {auth : Authority} (hstep : StepLaws (some auth) t u)
    (hsame : u = t ∨ ∀ p, latestAttempt u.attempts = some p → p.evidence = true) {m : Nat} {resume : Bool}
    (hb : u.begin auth.task n m resume = some t') :
    AttemptLaws t' ∧ StepLaws (some auth) t t' ∧ ∀ a' ∈ t'.attempts, a' ∈ u.attempts ∨ a'.task = some auth.task := by
  have hlast : ∀ {init : List Attempt} {q : Attempt}, q.task = some auth.task → ∀ a' ∈ init ++ [q],
      a' ∈ init ∨ a'.task = some auth.task := by
    intro init q hq a' ha'
    refine (List.mem_append.mp ha').imp_right fun ha' => ?_
    rw [List.mem_singleton.mp ha', hq]
  unfold Termination.begin at hb
  split at hb
  · cases hb
  cases hl : latestAttempt u.attempts with
  | none =>
    have hnil := h.latest_none hl
    have hnil' : t.attempts = [] := List.eq_nil_iff_forall_not_mem.mpr fun a ha => by
      obtain ⟨a', ha', -⟩ := hstep.kept.attempts a ha
      rw [hnil] at ha'
      cases ha'
    simp only [hl] at hb
    split at hb
    · next hn =>
      cases hb
      have hno : n = u.attempts.length + 1 := by rw [hn.1, hnil]; rfl
      refine ⟨h.append hno (by rw [hnil]; nofun) (.admitted ..) (.inl hnil),
        hstep.append h hno (fun _ hx => hx) fun _ => ⟨rfl, .inl ⟨hnil', hn.1⟩⟩, hlast rfl⟩
    · cases hb
  | some p =>
    obtain ⟨init, ht, hpno, hlt⟩ := h.latest_some hl
    have hp : p ∈ u.attempts := by rw [ht]; exact List.mem_concat_self
    simp only [hl] at hb
    split at hb
    · next hn =>
      subst hn
      split at hb
      · next hwhy =>
        split at hb
        · cases hb
          -- the attempt is admitted again; a released attempt has no evidence either
          have hev : p.evidence = false := by
            simp only [Bool.or_eq_true, Bool.and_eq_true, Bool.not_eq_true'] at hwhy
            exact hwhy.elim (h.sound p hp).unsent (·.2)
          have hwhy' : p.unsent = true ∨ some auth.task ≠ p.task := by
            simp only [Bool.or_eq_true, Bool.and_eq_true, bne_iff_ne] at hwhy
            exact hwhy.imp_right fun hw => hw.1.2.symm
          obtain rfl : u = t := hsame.resolve_right fun hall => by
            rw [hall p hl] at hev
            cases hev
          rw [update_last ht hlt]
          refine ⟨h.replace ht rfl ⟨nofun, (h.sound p hp).texts, (h.sound p hp).receipt⟩
            (fun a ha => h.hashes_last ht a ha), .replace h ht rfl ⟨fun _ hx => hx, fun _ hx => hx, fun _ hx => hx⟩
              (fun _ hx => hx) (fun _ => ⟨hev, hev, rfl, hwhy'⟩) nofun, fun a' ha' => ?_⟩
          exact (hlast rfl a' ha').imp_left fun ha' => by rw [ht]; exact List.mem_append_left _ ha'
        · cases hb
      · split at hb
        · cases hb
          exact ⟨h, hstep, fun _ => .inl⟩
        · cases hb
    · split at hb
      · next hn =>
        cases hb
        obtain ⟨-, hn, hfail, htask, -⟩ := hn
        have hlen : u.attempts.length = p.attemptNo := by rw [ht, hpno]; simp
        have hno : n = u.attempts.length + 1 := by rw [hn, hlen]
        have hfailed : ∀ q ∈ u.attempts.getLast?, q.receiptStatus = some 0 := by
          rw [ht, List.getLast?_concat]
          rintro q ⟨⟩
          exact hfail
        exact ⟨h.append hno hfailed (.admitted ..) (.inr rfl),
          hstep.append h hno (fun _ hx => hx) fun _ => ⟨rfl, .inr ⟨p, hp, hn, hfail, htask⟩⟩, hlast rfl⟩
      · cases hb

/-- After a release every attempt has evidence or is released. -/
theorem Termination.release_laws (h : AttemptLaws t) (hb : t.release n = some t') :
    AttemptLaws t' ∧ StepLaws owner t t' ∧ Retains t t' ∧
      ∀ a' ∈ t'.attempts, a'.unsent = true ∨ a'.evidence = true := by
  unfold Termination.release at hb
  cases hl : latestAttempt t.attempts with
  | none => rw [hl] at hb; cases hb
  | some p =>
    obtain ⟨init, ht, hpno, hlt⟩ := h.latest_some hl
    have hp := h.sound p (by rw [ht]; exact List.mem_concat_self)
    simp only [hl] at hb
    split at hb
    · cases hb
    next hc =>
    simp only [Bool.or_eq_true, not_or, Bool.not_eq_true, bne_eq_false_iff_eq] at hc
    obtain ⟨⟨⟨-, rfl⟩, -⟩, hev⟩ := hc
    cases hb
    rw [update_last ht hlt]
    refine ⟨h.replace ht rfl ⟨fun _ => hev, hp.texts, hp.receipt⟩ (fun a ha => h.hashes_last ht a ha),
      .replace h ht rfl ⟨fun _ hx => hx, fun _ hx => hx, fun _ hx => hx⟩ (fun _ hx => hx) ?_ fun _ _ => hev,
      .replace ht rfl (.inr (.inr rfl)), fun a' ha' => ?_⟩
    · rintro (hch | ⟨-, hu, -⟩)
      · exact absurd rfl hch
      · cases hu
    · rcases mem_or_eq ha' with ha' | rfl
      · have hfail := h.failed a' (by rw [ht, List.dropLast_concat]; exact ha')
        exact .inr (by simp [Attempt.evidence, hfail])
      · exact .inl rfl

theorem given_ne_empty {s x : String} (h : given s = some x) : x ≠ "" := by
  unfold given at h
  split at h
  · cases h
  · next hne =>
    cases h
    exact hne

/-- Merging leaves an attempt as it is, or adds evidence to it under hashes that no other attempt has. -/
theorem Attempt.merge_spec {a' : Attempt} {others : List String} (hm : a.merge i others = some a') :
    a' = a ∨ (a'.attemptNo = a.attemptNo ∧ a'.task = a.task ∧ a.EvidenceIn a' ∧
      a'.unsent = false ∧ a'.evidence = true ∧ (a.Sound → a'.Sound) ∧
      ∀ x ∈ a'.hashes, x ∈ a.hashes ∨ x ∉ others) := by
  unfold Attempt.merge at hm
  split at hm
  · cases hm
  split at hm
  · cases hm
  next hfree =>
  dsimp only at hm
  split at hm
  · cases hm
  next hconfirmed =>
  split at hm
  · exact .inl (Option.some.inj hm).symm
  next hne =>
  cases hm
  have hfree' : ∀ x, given i.txHash = some x ∨ given i.confirmedTxHash = some x → x ∉ others := by
    intro x hx hmem
    refine hfree (List.any_eq_true.mpr ⟨x, ?_, List.contains_iff_mem.mpr hmem⟩)
    rcases hx with hx | hx <;> simp [hx]
  -- a hash of the merged attempt is one of its own, or one that was given
  have hhash : ∀ x ∈ (a.txHash <|> given i.txHash).toList ++ (a.confirmedTxHash <|> given i.confirmedTxHash).toList,
      x ∈ a.hashes ∨ given i.txHash = some x ∨ given i.confirmedTxHash = some x := by
    intro x hx
    simp only [Attempt.hashes, List.mem_append, Option.mem_toList, Option.orElse_eq_orElse, Option.orElse_eq_or,
      Option.or_eq_some_iff] at hx ⊢
    rcases hx with (hx | ⟨-, hx⟩) | (hx | ⟨-, hx⟩)
    · exact .inl (.inl hx)
    · exact .inr (.inl hx)
    · exact .inl (.inr hx)
    · exact .inr (.inr hx)
  refine .inr ⟨rfl, rfl, ⟨fun x hx => ?_, fun x hx => ?_, fun x hx => ?_⟩, rfl, ?_,
    fun ha => ⟨by simp, fun x hx => ?_, fun hx => ?_⟩, fun x hx => (hhash x hx).imp_right (hfree' x)⟩
  · simp [hx]
  · simp [hx]
  · simp [hx]
  · -- without evidence afterwards there was none before, and nothing changed
    by_contra hev
    refine hne ?_
    cases a
    simp_all [Attempt.evidence]
  · rcases hhash x hx with hx | hx
    · exact ha.texts x hx
    · rcases hx with hx | hx <;> exact given_ne_empty hx
  · -- a receipt that was given comes with a confirmed hash, and one that was there had one
    cases hr : a.receiptStatus with
    | none =>
      rw [hr] at hx
      simp only [Bool.and_eq_true, not_and, Option.isNone_iff_eq_none] at hconfirmed
      exact Option.isSome_iff_ne_none.mpr (hconfirmed hx)
    | some n =>
      obtain ⟨y, hy⟩ := Option.isSome_iff_exists.mp (ha.receipt (by rw [hr]; rfl))
      show (a.confirmedTxHash <|> given i.confirmedTxHash).isSome = true
      rw [hy]
      rfl

theorem Attempt.merge_evidence {a' : Attempt} {others : List String} (hm : a.merge i others = some a')
    (hi : i.hasTransaction = true) : a'.evidence = true := by
  have hmerged : ∀ m : Attempt, m.txHash = (a.txHash <|> given i.txHash) →
      m.confirmedTxHash = (a.confirmedTxHash <|> given i.confirmedTxHash) →
      m.receiptStatus = (a.receiptStatus <|> i.receiptStatus) → m.evidence = true := by
    intro m htx hconf hrec
    simp only [EvidenceInput.hasTransaction, Bool.or_eq_true, bne_iff_ne] at hi
    simp only [Attempt.evidence, htx, hconf, hrec, given, Bool.or_eq_true]
    rcases hi with (hi | hi) | hi
    · exact .inl (.inl (by simp [hi]))
    · exact .inl (.inr (by simp [hi]))
    · exact .inr (by simp [hi])
  unfold Attempt.merge at hm
  split at hm
  · cases hm
  split at hm
  · cases hm
  dsimp only at hm
  split at hm
  · cases hm
  split at hm
  · next heq =>
    cases hm
    rw [← heq]
    exact hmerged _ rfl rfl rfl
  · cases hm
    exact hmerged _ rfl rfl rfl

/-- Recording keeps the laws, and leaves the latest attempt with evidence if there was any to record. -/
theorem Termination.record_laws (h : AttemptLaws t) (hb : t.record i = some t') :
    AttemptLaws t' ∧ StepLaws owner t t' ∧ Retains t t' ∧
      (i.hasTransaction = true → ∀ p, latestAttempt t'.attempts = some p → p.evidence = true) := by
  unfold Termination.record at hb
  split at hb
  · cases hb
  split at hb
  · cases hb
  obtain ⟨u, hu, rfl⟩ := Option.map_eq_some_iff.mp hb
  have hepoch : ∀ x, t.epoch = some x → (t.epoch <|> i.epoch) = some x := fun x hx => by rw [hx]; rfl
  -- with another epoch alone the laws stay
  have hsame : AttemptLaws ⟨t.epoch <|> i.epoch, t.attempts⟩ ∧ StepLaws owner t ⟨t.epoch <|> i.epoch, t.attempts⟩ ∧
      Retains t ⟨t.epoch <|> i.epoch, t.attempts⟩ := by
    have hrefl := StepLaws.refl h owner
    exact ⟨⟨h.numbers, h.failed, h.sound, h.hashes⟩, ⟨⟨hrefl.kept.attempts, hepoch⟩, hrefl.new, hrefl.again,
      hrefl.released⟩, fun a' ha' => .inr ⟨a', ha', rfl, .inl rfl⟩⟩
  unfold Termination.recordAttempt at hu
  split at hu
  · next hi =>
    cases hl : latestAttempt t.attempts with
    | none =>
      have hnil := h.latest_none hl
      rw [hl] at hu
      obtain ⟨a, ha, rfl⟩ := Option.map_eq_some_iff.mp hu
      have hfirst : Attempt.Sound { attemptNo := 1 } := ⟨by simp, by simp [Attempt.hashes], by simp⟩
      have hspec : a.attemptNo = 1 ∧ a.task = none ∧ a.Sound := by
        rcases Attempt.merge_spec ha with rfl | ⟨hno, htask, -, -, -, hs, -⟩
        · exact ⟨rfl, rfl, hfirst⟩
        · exact ⟨hno, htask, hs hfirst⟩
      have hno : a.attemptNo = t.attempts.length + 1 := by rw [hspec.1, hnil]; rfl
      have hone : (t.insert a).attempts = [a] := by rw [Termination.insert, hnil]; rfl
      refine ⟨h.append hno (by simp [hnil]) hspec.2.2 (.inl hnil),
        (StepLaws.refl h owner).append h hno hepoch fun htask => absurd hspec.2.1 htask, fun a' ha' => ?_,
        fun _ p hp => ?_⟩
      · rw [hone] at ha'
        rw [List.mem_singleton.mp ha']
        exact .inl hspec.2.1
      · rw [hone] at hp
        cases hp
        exact Attempt.merge_evidence ha hi
    | some p =>
      obtain ⟨init, ht, hpno, hlt⟩ := h.latest_some hl
      have hp := h.sound p (by rw [ht]; exact List.mem_concat_self)
      rw [hl] at hu
      obtain ⟨p', hm, rfl⟩ := Option.map_eq_some_iff.mp hu
      have hevidence := Attempt.merge_evidence hm hi
      rw [update_last ht hlt]
      have hlatest : ∀ laws : AttemptLaws ⟨t.epoch <|> i.epoch, init ++ [p']⟩, i.hasTransaction = true →
          ∀ q, latestAttempt (init ++ [p']) = some q → q.evidence = true := by
        intro laws _ q hq
        have hlast := latestAttempt_eq_getLast laws.increasing
        rw [show latestAttempt (init ++ [p']) = _ from hlast, List.getLast?_concat] at hq
        cases hq
        exact hevidence
      rcases Attempt.merge_spec hm with rfl | ⟨hno, htask, hev, hun, hsome, hs, hhash⟩
      · rw [ht] at hsame
        exact ⟨hsame.1, hsame.2.1, hsame.2.2, hlatest hsame.1⟩
      have hlaws : AttemptLaws ⟨t.epoch <|> i.epoch, init ++ [p']⟩ := by
        refine h.replace ht hno (hs hp) fun a ha x hx hx' => ?_
        rcases hhash x hx' with hx' | hx'
        · exact h.hashes_last ht a ha x hx hx'
        · exact hx' (mem_otherHashes ht hlt ha hx)
      refine ⟨hlaws, .replace h ht hno hev hepoch ?_ fun _ hx => ?_, .replace ht htask.symm (.inr (.inl hsome)),
        hlatest hlaws⟩
      · rintro (hch | ⟨-, -, hnone⟩)
        · exact absurd htask hch
        · rw [hsome] at hnone; cases hnone
      · rw [hun] at hx; cases hx
  · next hi =>
    cases hu
    exact ⟨hsame.1, hsame.2.1, hsame.2.2, fun h => absurd h hi⟩

end SynapS3.Retirement
