import SynapS3.Removal.Requests

/-!
# `Removal.Runs` — every reachable state satisfies the invariant

The remaining steps: joining a request, cleanup copies outside of one, the reads of an execution, and the
chain.
-/

namespace SynapS3.Removal

variable {s s' : State}

/-! ## Steps that leave the requests alone -/

theorem Inv.chainStep {event : Chain.Event} (h : Inv s) (hen : s.chain.enabled event = true) :
    Next false s { s with chain := s.chain.apply event } := by
  have hk : Keeps s { s with chain := s.chain.apply event } :=
    ⟨fun q r hr => ⟨r, hr, rfl, fun hc => hc⟩, fun i c hc => ⟨c, hc, .refl c⟩, fun q _ _ _ i c hc hq => ⟨c, hc, hq⟩,
      List.Subset.refl _, s.chain.height_le_apply event, fun d p b hb => Chain.status_apply hen hb,
      fun d b hb => Chain.queue_apply hen hb⟩
  refine ⟨⟨?_, ?_, h.unborn, fun i c hc => (h.copy i c hc).keeps hk, fun i run hr => (h.run i run hr).keeps hk,
    h.chain.apply hen, fun x hx => seen_keeps hk (h.seen x hx)⟩, fun _ _ hr _ => hr, nofun⟩
  · exact fun q => (h.sends q).frame rfl fun i c hc hq => ⟨c, hc, hq, rfl⟩
  · exact fun q r hr => (h.status q r hr).frame rfl fun i c hc _ => hc

theorem Inv.outside (h : Inv s) (hreq : s'.requests = s.requests) (hsends : s'.sends = s.sends)
    (hchain : s'.chain = s.chain) (hruns : s'.runs = s.runs) (hseen : s'.seen = s.seen)
    (hto : ∀ i c, s.copies.row i = some c → ∃ c', s'.copies.row i = some c' ∧ c'.Same c ∧
      (c.request ≠ none → c' = c))
    (hof : ∀ i c', s'.copies.row i = some c' →
      s.copies.row i = some c' ∨ (c'.request = none ∧ c'.status ≠ .removed)) : Next true s s' := by
  have hmem : ∀ i c' q, s'.copies.row i = some c' → c'.request = some q → s.copies.row i = some c' := by
    intro i c' q hc' hq
    rcases hof i c' hc' with hc | ⟨hn, _⟩
    · exact hc
    · rw [hn] at hq; cases hq
  have hk : Keeps s s' := by
    refine ⟨fun q r hr => ⟨r, by rw [hreq]; exact hr, rfl, fun hc => hc⟩, ?_, ?_,
      by rw [hseen]; exact List.Subset.refl _, by rw [hchain], by rw [hchain]; simp, by rw [hchain]; simp⟩
    · intro i c hc
      obtain ⟨c', hc', hsame, _⟩ := hto i c hc
      exact ⟨c', hc', hsame⟩
    · exact fun q _ _ _ i c' hc' hq => ⟨c', hmem i c' q hc' hq, hq⟩
  refine ⟨⟨?_, ?_, ?_, ?_, ?_, by rw [hchain]; exact h.chain, ?_⟩, fun q r hr _ => by rw [hreq]; exact hr,
    fun _ => .of_same hreq hsends hchain (by rw [hseen]; exact List.Subset.refl _)⟩
  · intro q
    refine (h.sends q).frame (by rw [hsends]) fun i c hc hq => ?_
    obtain ⟨c', hc', _, he⟩ := hto i c hc
    have := he (by rw [hq]; nofun)
    subst this
    exact ⟨c', hc', hq, rfl⟩
  · intro q r hr
    rw [hreq] at hr
    exact (h.status q r hr).frame (by rw [hsends]) fun i c hc hq => hmem i c q hc hq
  · intro q hq
    rw [hreq] at hq
    rw [hsends]
    exact h.unborn q hq
  · intro i c' hc'
    rcases hof i c' hc' with hc | ⟨hn, hne⟩
    · exact (h.copy i c' hc).keeps hk
    · refine ⟨fun q hq => ?_, fun hst => absurd hst hne⟩
      rw [hn] at hq
      cases hq
  · intro i run hrun
    rw [hruns] at hrun
    exact (h.run i run hrun).keeps hk
  · rw [hseen]
    exact fun x hx => seen_keeps hk (h.seen x hx)

variable {dataSet id : Nat} {a : Unit}

theorem Inv.snapshotCopy {content piece : Nat} (h : Inv s)
    (hok : (snapshotCopy content dataSet piece).Ok s a s') : Next true s s' := by
  simp only [Removal.snapshotCopy, Tx.ok_read_bind, Tx.ok_write] at hok
  subst hok
  refine h.outside rfl rfl rfl rfl rfl ?_ ?_
  · intro i c hc
    have hne : i ≠ s.copies.next := (Table.lt_next hc).ne
    exact ⟨c, by simp only [Table.row_insert, if_neg hne]; exact hc, .refl c, fun _ => rfl⟩
  · intro i c' hc'
    rcases Table.row_insert_cases hc' with ⟨_, rfl⟩ | ⟨_, hc⟩
    · exact .inr ⟨rfl, by simp⟩
    · exact .inl hc

variable {task run : Nat}

theorem Inv.reauthorize {content generation : Nat} (h : Inv s)
    (hok : (reauthorizeFailedCopies content generation task).Ok s a s') : Next true s s' := by
  simp only [reauthorizeFailedCopies, Tx.ok_read_bind, Tx.ok_orFail_bind, Tx.ok_require_bind, Tx.ok_write] at hok
  obtain ⟨_, _, _, rfl⟩ := hok
  refine h.outside rfl rfl rfl rfl rfl ?_ ?_
  · intro i c hc
    by_cases hp : (c.content == content && c.status == .failed && c.request.isNone) = true
    · refine ⟨{ c with status := .pending }, by simp only [Table.row_updateWhere, hc, Option.map_some, if_pos hp],
        ⟨rfl, rfl, rfl⟩, fun hne => ?_⟩
      simp only [Bool.and_eq_true, Option.isNone_iff_eq_none] at hp
      exact absurd hp.2 hne
    · exact ⟨c, by simp only [Table.row_updateWhere, hc, Option.map_some, if_neg hp], .refl c, fun _ => rfl⟩
  · intro i c' hc'
    obtain ⟨c, hc, ⟨hp, rfl⟩ | ⟨_, rfl⟩⟩ := Table.row_updateWhere_cases hc'
    · simp only [Bool.and_eq_true, Option.isNone_iff_eq_none] at hp
      exact .inr ⟨hp.2, by simp⟩
    · exact .inl hc

theorem Inv.markUnsupported {copy : Nat} (h : Inv s) (hok : (markCopyUnsupported copy).Ok s a s') :
    Next true s s' := by
  simp only [markCopyUnsupported, Tx.ok_read_bind, Tx.ok_orFail_bind, Tx.ok_require_bind, Tx.ok_write,
    Option.isNone_iff_eq_none] at hok
  obtain ⟨c₀, hc₀, hnone, rfl⟩ := hok
  refine h.outside rfl rfl rfl rfl rfl ?_ ?_
  · intro i c hc
    by_cases hi : i = copy
    · subst hi
      have he := Option.some.inj (hc.symm.trans hc₀)
      subst he
      exact ⟨{ c with status := .unsupported }, by simp [State.setCopies, hc], ⟨rfl, rfl, rfl⟩,
        fun hne => absurd hnone hne⟩
    · exact ⟨c, by simp [State.setCopies, hc, hi], .refl c, fun _ => rfl⟩
  · intro i c' hc'
    obtain ⟨c, hc, ⟨hp, rfl⟩ | ⟨_, rfl⟩⟩ := Table.row_updateWhere_cases hc'
    · have hi : i = copy := by simpa using hp
      subst hi
      rw [hc] at hc₀
      cases hc₀
      exact .inr ⟨hnone, nofun⟩
    · exact .inl hc

/-! ## Joining -/

theorem Inv.insertRequest {next : Nat} (h : Inv s) :
    Next true s { s with requests := s.requests.insert { dataSet := dataSet, task := some task },
                         nextTask := next } := by
  have hnew := h.unborn s.requests.next (s.requests.fresh _ (Nat.le_refl _))
  have hold : ∀ q r, s.requests.row q = some r →
      (s.requests.insert { dataSet := dataSet, task := some task }).row q = some r := by
    intro q r hr
    rw [Table.row_insert, if_neg (Table.lt_next hr).ne]
    exact hr
  have hk : Keeps s { s with requests := s.requests.insert { dataSet := dataSet, task := some task },
                             nextTask := next } :=
    ⟨fun q r hr => ⟨r, hold q r hr, rfl, fun hc => hc⟩, fun i c hc => ⟨c, hc, .refl c⟩,
      fun q _ _ _ i c hc hq => ⟨c, hc, hq⟩, List.Subset.refl _, Nat.le_refl _, fun _ _ _ _ => rfl,
      fun _ _ _ => rfl⟩
  refine ⟨⟨?_, ?_, ?_, fun i c hc => (h.copy i c hc).keeps hk, fun i run hr => (h.run i run hr).keeps hk,
    h.chain, h.seen⟩, fun q r hr _ => hold q r hr, fun _ => ?_⟩
  · exact fun q => (h.sends q).frame rfl fun i c hc hq => ⟨c, hc, hq, rfl⟩
  · intro q r hr
    rcases Table.row_insert_cases hr with ⟨rfl, rfl⟩ | ⟨_, hr⟩
    · exact ⟨nofun, fun _ => hnew, nofun, nofun⟩
    · exact (h.status q r hr).frame rfl fun i c hc _ => hc
  · intro q hq
    simp only [Table.row_insert] at hq
    split at hq
    · cases hq
    · exact h.unborn q hq
  · refine ⟨rfl, List.Subset.refl _, rfl, fun q r' hr' => ?_, fun q r hr => ⟨r, hold q r hr, rfl⟩⟩
    rcases Table.row_insert_cases hr' with ⟨rfl, rfl⟩ | ⟨_, hr⟩
    · exact .inr ⟨s.requests.fresh _ (Nat.le_refl _), nofun, rfl⟩
    · exact .inl ⟨r', hr, rfl, rfl, fun hq => hq⟩

theorem Inv.joinCopies {r : Request} {ids : List Nat} (h : Inv s) (hr : s.requests.row id = some r)
    (hcol : r.status = .collecting)
    (hids : ∀ i ∈ ids, ∃ c, s.copies.row i = some c ∧ c.status = .pending ∧ c.dataSet = r.dataSet ∧
      (c.request = none ∨ c.request = some id)) :
    Next true s (s.setCopies ids fun c => { c with request := some id }) := by
  have hto : ∀ i c, s.copies.row i = some c → ∃ c',
      (s.setCopies ids fun c => { c with request := some id }).copies.row i = some c' ∧ c'.Same c ∧
        ((∃ q, q ≠ id ∧ c.request = some q) → c' = c) := by
    intro i c hc
    by_cases hi : i ∈ ids
    · refine ⟨{ c with request := some id }, by simp [State.setCopies, hc, hi], ⟨rfl, rfl, rfl⟩, ?_⟩
      rintro ⟨q, hq, hcq⟩
      obtain ⟨c', hc', _, _, hor⟩ := hids i hi
      rw [hc] at hc'
      cases hc'
      rcases hor with hn | hn <;> rw [hn] at hcq
      · cases hcq
      · exact absurd (Option.some.inj hcq).symm hq
    · exact ⟨c, by simp [State.setCopies, hc, hi], .refl c, fun _ => rfl⟩
  have hof : ∀ i c', (s.setCopies ids fun c => { c with request := some id }).copies.row i = some c' →
      s.copies.row i = some c' ∨ (c'.request = some id ∧ ∃ c, s.copies.row i = some c ∧ i ∈ ids ∧
        c' = { c with request := some id }) := by
    intro i c' hc'
    obtain ⟨c, hc, ⟨hp, rfl⟩ | ⟨_, rfl⟩⟩ := Table.row_updateWhere_cases hc'
    · exact .inr ⟨rfl, c, hc, by simpa using hp, rfl⟩
    · exact .inl hc
  have hother : ∀ q, q ≠ id → ∀ i c', (s.setCopies ids fun c => { c with request := some id }).copies.row i =
      some c' → c'.request = some q → s.copies.row i = some c' := by
    intro q hq i c' hc' hcq
    rcases hof i c' hc' with hc | ⟨hn, _⟩
    · exact hc
    · rw [hn] at hcq; exact absurd (Option.some.inj hcq).symm hq
  have hk : Keeps s (s.setCopies ids fun c => { c with request := some id }) := by
    refine ⟨fun q r hr => ⟨r, hr, rfl, fun hc => hc⟩, ?_, ?_, List.Subset.refl _, Nat.le_refl _,
      fun _ _ _ _ => rfl, fun _ _ _ => rfl⟩
    · intro i c hc
      obtain ⟨c', hc', hsame, _⟩ := hto i c hc
      exact ⟨c', hc', hsame⟩
    · intro q r₀ hr₀ hne i c' hc' hcq
      -- only the collecting request gains members
      have hq : q ≠ id := by
        rintro rfl
        rw [hr] at hr₀
        cases hr₀
        exact hne hcol
      exact ⟨c', hother q hq i c' hc' hcq, hcq⟩
  refine ⟨⟨?_, ?_, h.unborn, ?_, fun i run hrun => (h.run i run hrun).keeps hk, h.chain, h.seen⟩,
    fun _ _ hr _ => hr, fun _ => .of_same rfl rfl rfl (List.Subset.refl _)⟩
  · intro q
    by_cases hq : q = id
    · subst hq
      refine (h.sends q).frame_quiet rfl ?_
      simp [(h.status q r hr).collecting hcol]
    · refine (h.sends q).frame rfl fun i c hc hcq => ?_
      obtain ⟨c', hc', _, he⟩ := hto i c hc
      rw [he ⟨q, hq, hcq⟩] at hc'
      exact ⟨c, hc', hcq, rfl⟩
  · intro q r₀ hr₀
    by_cases hq : q = id
    · subst hq
      have hst := h.status q r₀ hr₀
      refine ⟨hst.owner, hst.collecting, hst.quiet, fun hset => ?_⟩
      have hr₀' : s.requests.row q = some r₀ := hr₀
      rw [hr] at hr₀'
      cases hr₀'
      rw [hcol] at hset
      cases hset
    · exact (h.status q r₀ hr₀).frame rfl fun i c hc hcq => hother q hq i c hc hcq
  · intro i c' hc'
    rcases hof i c' hc' with hc | ⟨_, c, hc, hi, rfl⟩
    · exact (h.copy i c' hc).keeps hk
    obtain ⟨c₁, hc₁, hpend, hd, _⟩ := hids i hi
    rw [hc] at hc₁
    cases hc₁
    refine ⟨fun q hq => ?_, fun hst => ?_⟩
    · cases hq
      exact ⟨.inl hpend, r, hr, hd.symm⟩
    · exact absurd (hpend.symm.trans hst) (by simp)

theorem collecting_spec (h : s.collecting dataSet = some id) :
    ∃ r, s.requests.row id = some r ∧ r.dataSet = dataSet ∧ r.status = .collecting := by
  have hm := Table.mem_ids.mp (List.mem_of_head? h)
  obtain ⟨r, hr, hp⟩ := hm
  simp only [Bool.and_eq_true, beq_iff_eq] at hp
  exact ⟨r, hr, hp.1, hp.2⟩

theorem Inv.collectingOrNew (h : Inv s) (hok : (collectingOrNew dataSet).Ok s id s') :
    Next true s s' ∧ ∃ r, s'.requests.row id = some r ∧ r.dataSet = dataSet ∧ r.status = .collecting := by
  simp only [Removal.collectingOrNew, Tx.ok_read_bind] at hok
  split at hok
  · next found hf =>
      obtain ⟨rfl, rfl⟩ := Tx.ok_pure.mp hok
      exact ⟨.refl h, collecting_spec hf⟩
  · rw [Tx.ok_write_bind, Tx.ok_pure] at hok
    obtain ⟨rfl, rfl⟩ := hok
    exact ⟨h.insertRequest, _, by simp only [Table.row_insert, if_pos]; rfl, rfl, rfl⟩

theorem Inv.join {input : JoinInput} (h : Inv s) (hok : (joinOrCreateCollecting input).Ok s id s') :
    Next true s s' := by
  simp only [joinOrCreateCollecting, Tx.ok_read_bind, Tx.ok_orFail_bind, Tx.ok_require_bind] at hok
  obtain ⟨_, _, _, _, hok⟩ := hok
  obtain ⟨new, t, hnew, hok⟩ := Tx.ok_bind.mp hok
  simp only [Tx.ok_read_bind, Tx.ok_require_bind, Tx.ok_write_bind, Tx.ok_pure, List.all_eq_true] at hok
  obtain ⟨hall, rfl, rfl⟩ := hok
  obtain ⟨hinv, r, hr, hd, hcol⟩ := h.collectingOrNew hnew
  refine hinv.trans (hinv.inv.joinCopies hr hcol fun i hi => ?_)
  have hj := hall i hi
  cases hrow : t.copies.row i with
  | none => rw [hrow] at hj; cases hj
  | some c =>
    rw [hrow] at hj
    simp only [Option.any_some, CleanupCopy.joins, Bool.and_eq_true, Bool.or_eq_true, beq_iff_eq,
      Option.isNone_iff_eq_none] at hj
    exact ⟨c, rfl, hj.1.1.2, by rw [hj.1.1.1.2, hd], hj.2⟩

/-! ## The reads of an execution -/

theorem Inv.reads (h : Inv s) (hreq : s'.requests = s.requests) (hsends : s'.sends = s.sends)
    (hcopies : s'.copies = s.copies) (hchain : s'.chain = s.chain) (hseen : s.seen ⊆ s'.seen)
    (hnew : ∀ x ∈ s'.seen, ∃ b ≤ s.chain.height, s.chain.status x.1 x.2 b = .removed)
    (hruns : ∀ i run, s'.runs.row i = some run → Keeps s s' → RunInv s' run) : Next true s s' := by
  have hk : Keeps s s' :=
    ⟨fun q r hr => ⟨r, by rw [hreq]; exact hr, rfl, fun hc => hc⟩,
      fun i c hc => ⟨c, by rw [hcopies]; exact hc, .refl c⟩,
      fun q _ _ _ i c hc hq => ⟨c, by rw [← hcopies]; exact hc, hq⟩, hseen, by rw [hchain], by rw [hchain]; simp,
      by rw [hchain]; simp⟩
  refine ⟨⟨?_, ?_, ?_, ?_, fun i run hr => hruns i run hr hk, by rw [hchain]; exact h.chain, ?_⟩,
    fun q r hr _ => by rw [hreq]; exact hr, fun _ => .of_same hreq hsends hchain hseen⟩
  · exact fun q => (h.sends q).frame (by rw [hsends]) fun i c hc hq => ⟨c, by rw [hcopies]; exact hc, hq, rfl⟩
  · intro q r hr
    rw [hreq] at hr
    exact (h.status q r hr).frame (by rw [hsends]) fun i c hc _ => by rw [← hcopies]; exact hc
  · intro q hq
    rw [hreq] at hq
    rw [hsends]
    exact h.unborn q hq
  · intro i c hc
    rw [hcopies] at hc
    exact (h.copy i c hc).keeps hk
  · intro x hx
    rw [hchain]
    exact hnew x hx

theorem Inv.openRun (h : Inv s) (hok : (openRun id task).Ok s a s') : Next true s s' := by
  simp only [Removal.openRun, Tx.ok_read_bind, Tx.ok_orFail_bind, Tx.ok_require_bind, Tx.ok_write] at hok
  obtain ⟨r, hr, _, rfl⟩ := hok
  refine h.reads rfl rfl rfl rfl (List.Subset.refl _) h.seen fun i run hrun hk => ?_
  rcases Table.row_insert_cases hrun with ⟨_, rfl⟩ | ⟨_, hrun⟩
  · have hmem : ∀ m ∈ s.members id, s.copies.row m.1 = some m.2 ∧ m.2.request = some id :=
      fun m hm => State.mem_members.mp hm
    refine ⟨⟨r, hr, rfl, fun hc => hc⟩, ?_, ?_, ?_, fun _ => rfl, fun _ => rfl, by simp, by simp⟩
    · intro m hm
      obtain ⟨hc, hq⟩ := hmem m hm
      obtain ⟨_, r', hr', hd⟩ := (h.copy m.1 m.2 hc).member id hq
      rw [hr] at hr'
      cases hr'
      exact ⟨hd.symm, m.2, hc, .refl _⟩
    · exact fun m hm hst => (h.copy m.1 m.2 (hmem m hm).1).removed hst
    · exact fun _ i c hc hq => ⟨c, State.mem_members.mpr ⟨hc, hq⟩⟩
  · exact (h.run i run hrun).keeps hk

theorem Inv.listSends (h : Inv s) (hok : (listSends run).Ok s a s') : Next true s s' := by
  simp only [Removal.listSends, Tx.ok_read_bind, Tx.ok_orFail_bind, Tx.ok_require_bind, Tx.ok_write,
    Bool.and_eq_true, bne_iff_ne] at hok
  obtain ⟨r₀, hr₀, ⟨hcol, _⟩, rfl⟩ := hok
  refine h.reads rfl rfl rfl rfl (List.Subset.refl _) h.seen fun i run' hrun hk => ?_
  rcases Table.row_modify_cases hrun with ⟨_, r, hr, rfl⟩ | ⟨_, hrun⟩
  · rw [hr₀] at hr
    cases hr
    have hold := (h.run _ _ hr₀).keeps hk
    exact ⟨hold.request, hold.members, hold.removed, hold.cover, fun hc => absurd hc hcol, by simp,
      hold.snapshot, hold.gone⟩
  · exact (h.run i run' hrun).keeps hk

theorem Inv.snapshotChain {block : Nat} (h : Inv s) (hok : (snapshotChain run block).Ok s a s') :
    Next true s s' := by
  simp only [Removal.snapshotChain, Tx.ok_read_bind, Tx.ok_orFail_bind, Tx.ok_require_bind, Tx.ok_write,
    Bool.and_eq_true, decide_eq_true_eq] at hok
  obtain ⟨r₀, hr₀, ⟨⟨hsends, _⟩, hb⟩, rfl⟩ := hok
  refine h.reads rfl rfl rfl rfl (List.subset_append_right _ _) ?_ fun i run' hrun hk => ?_
  · intro x hx
    rcases List.mem_append.mp hx with hx | hx
    · obtain ⟨m, hm, rfl⟩ := List.mem_map.mp hx
      exact ⟨block, hb, by simpa using (List.mem_filter.mp hm).2⟩
    · exact h.seen x hx
  rcases Table.row_modify_cases hrun with ⟨_, r, hr, rfl⟩ | ⟨_, hrun⟩
  · rw [hr₀] at hr
    cases hr
    have hold := (h.run _ _ hr₀).keeps hk
    refine ⟨hold.request, hold.members, hold.removed, hold.cover, hold.fresh, ?_, ?_, ?_⟩
    · intro hn
      have hn : r₀.sends = none := hn
      rw [hn] at hsends
      cases hsends
    · rintro st hst
      cases hst
      exact ⟨hb, rfl, fun _ => rfl⟩
    · rintro st hst m hm hp
      cases hst
      rw [(hold.members m hm).1]
      exact List.mem_append_left _ (List.mem_map.mpr ⟨m, List.mem_filter.mpr ⟨hm, by simpa using hp⟩, rfl⟩)
  · exact (h.run i run' hrun).keeps hk

theorem Inv.readPreflight {missing underfunded : Bool} (h : Inv s)
    (hok : (readPreflight run missing underfunded).Ok s a s') : Next true s s' := by
  simp only [Removal.readPreflight, Tx.ok_read_bind, Tx.ok_orFail_bind, Tx.ok_require_bind, Tx.ok_write] at hok
  obtain ⟨r₀, hr₀, _, rfl⟩ := hok
  refine h.reads rfl rfl rfl rfl (List.Subset.refl _) h.seen fun i run' hrun hk => ?_
  rcases Table.row_modify_cases hrun with ⟨_, r, hr, rfl⟩ | ⟨_, hrun⟩
  · have hold := (h.run _ _ hr).keeps hk
    exact ⟨hold.request, hold.members, hold.removed, hold.cover, hold.fresh, hold.unread, hold.snapshot,
      hold.gone⟩
  · exact (h.run i run' hrun).keeps hk

/-! ## What an execution does -/

/-- Where the arguments of a call come from: the members and the block are those of the execution's own snapshot. -/
def Call.Sourced (r : Run) : Call → Prop
  | .markRemoved ids _ => ∃ st, r.state = some st ∧ ids = r.newlyRemoved st
  | .markQueued block _ => r.request.status ≠ .collecting ∧ ∃ st, r.state = some st ∧ block = st.block
  | .admitSend input => r.request.status ≠ .collecting ∧ ∃ st sendNo, r.state = some st ∧
      input = ⟨r.id, r.task, sendNo, r.sendable st, st.queueLength, st.block⟩
  | _ => True

section

variable {r : Run} {a : Answer}

theorem queuedCall_sourced : (queuedCall r a).Sourced r := by
  unfold queuedCall
  split
  · trivial
  · split
    · trivial
    · trivial
    · split <;> trivial

theorem refusedCall_sourced (ids : List Nat) : (refusedCall r ids a).Sourced r := by
  unfold refusedCall
  split <;> trivial

theorem checkReceipt_sourced {accepted : Option Send} {call : Call} (h : checkReceipt accepted a = some call) :
    call.Sourced r := by
  unfold checkReceipt at h
  split at h
  · cases h
  · split at h
    · cases h
    · split at h <;> cases h <;> trivial

theorem preflightCall_sourced {sends : List Send} {st : PiecesState} (hcol : r.request.status ≠ .collecting)
    (hst : r.state = some st) : (preflightCall r sends st a).Sourced r := by
  unfold preflightCall
  split
  · trivial
  split
  · trivial
  split
  · exact ⟨hcol, st, hst, rfl⟩
  split
  · trivial
  split
  · split <;> trivial
  split
  · trivial
  unfold sendCall
  dsimp only
  split
  · exact ⟨hcol, st, hst, rfl⟩
  · split
    · exact ⟨hcol, st, _, hst, rfl⟩
    · trivial

theorem execute_sourced : (execute r a).Sourced r := by
  unfold execute
  split
  · split <;> trivial
  next hcol =>
  have hcol : r.request.status ≠ .collecting := by simpa using hcol
  split
  · next sends st _ hst =>
    dsimp only
    split
    · exact ⟨st, hst, rfl⟩
    split
    · exact queuedCall_sourced
    split
    · exact ⟨hcol, st, hst, rfl⟩
    split
    · exact refusedCall_sourced _
    split
    · next call hcall =>
      split at hcall
      · exact checkReceipt_sourced hcall
      · cases hcall
    · split
      · exact preflightCall_sourced hcol hst
      · trivial
  · trivial

end

theorem Inv.onlyIf {p b : Bool} {x : RemovalTx Unit} (h : Inv s) (hx : x.Ok s a s' → Next b s s')
    (hok : (onlyIf p x).Ok s a s') : Next b s s' := by
  cases p with
  | true => exact hx hok
  | false =>
    obtain ⟨_, rfl⟩ := Tx.ok_pure.mp hok
    exact .refl h

/-- The calls that touch neither sends nor the chain, and queue no request. -/
def Call.calm : Call → Bool
  | .markQueued .. | .receipt .. | .admitSend .. => false
  | _ => true

theorem Inv.call {r : Run} {a : Answer} {call : Call} {x : Unit} (h : Inv s) (hrun : RunInv s r)
    (hcall : call.Sourced r) (hok : (call.run r a).Ok s x s') : Next call.calm s s' := by
  cases call with
  | wait =>
    obtain ⟨_, rfl⟩ := Tx.ok_pure.mp hok
    exact .refl h
  | sealUp maxPieces => exact h.seal hok
  | markRemoved ids detach =>
    obtain ⟨st, hst, rfl⟩ := hcall
    refine h.changeMembers hok (.inr (.inr rfl)) fun _ i hi c hc => ?_
    obtain ⟨m, hm, rfl⟩ := List.mem_map.mp hi
    obtain ⟨hm, hp⟩ := List.mem_filter.mp hm
    simp only [Bool.and_eq_true, beq_iff_eq] at hp
    obtain ⟨_, c', hc', hsame⟩ := hrun.members m hm
    rw [hc] at hc'
    cases hc'
    rw [← hsame.dataSet, ← hsame.piece]
    exact hrun.gone st hst m hm hp.2
  | settle => exact h.settle hok
  | markQueued block withoutSend => exact h.markQueued hok
  | refusedMembers failed detach =>
    obtain ⟨_, t, hfail, hdet⟩ := Tx.ok_bind.mp hok
    have ht : Next true s t := h.onlyIf (fun hf => h.changeMembers hf (.inr (.inl ⟨rfl, rfl⟩)) nofun) hfail
    exact ht.trans (ht.inv.onlyIf (fun hd => ht.inv.changeMembers hd (.inl ⟨rfl, rfl⟩) nofun) hdet)
  | receipt sendNo status hash reverted =>
    obtain ⟨_, t, hev, hatt⟩ := Tx.ok_bind.mp hok
    have ht := h.evidence hev
    exact ht.trans (ht.inv.onlyIf (fun ha => ht.inv.attention ha) hatt)
  | attention code => exact h.attention hok
  | clearAttention => exact h.clearAttention hok
  | admitSend input => exact h.admitSend hok

theorem Inv.of_initial (h : s.Initial) : Inv s := by
  obtain ⟨hreq, hcopies, hruns, hsends, hseen, hchain, _, _⟩ := h
  refine ⟨?_, ?_, fun id _ => hsends id, ?_, ?_, hchain, by rw [hseen]; nofun⟩
  · intro id
    constructor <;> rw [hsends id]
    · rfl
    · exact List.Pairwise.nil
    · nofun
    · nofun
  · intro id r hr
    rw [hreq] at hr
    cases hr
  · intro i c hc
    rw [hcopies] at hc
    cases hc
  · intro i run hr
    rw [hruns] at hr
    cases hr

def Action.calm : Action → Bool
  | .act .. | .evidence .. | .land .. | .chain .. => false
  | _ => true

theorem Inv.action {action : Action} (h : Inv s) (hok : action.tx.Ok s a s') : Next action.calm s s' := by
  cases action with
  | claimContent content claim =>
    simp only [Action.tx, Tx.ok_read_bind, Tx.ok_write] at hok
    subst hok
    exact h.outside rfl rfl rfl rfl rfl (fun i c hc => ⟨c, hc, .refl c, fun _ => rfl⟩) fun i c hc => .inl hc
  | snapshotCopy content dataSet piece => exact h.snapshotCopy hok
  | join input =>
    obtain ⟨id, t, hj, hp⟩ := Tx.ok_bind.mp hok
    obtain ⟨_, rfl⟩ := Tx.ok_pure.mp hp
    exact h.join hj
  | openRun id task => exact h.openRun hok
  | listSends run => exact h.listSends hok
  | snapshotChain run block => exact h.snapshotChain hok
  | readPreflight run missing underfunded => exact h.readPreflight hok
  | act run answer =>
    simp only [Action.tx, Tx.ok_read_bind, Tx.ok_orFail_bind] at hok
    obtain ⟨r, hr, hok⟩ := hok
    have hnext := h.call (h.run run r hr) execute_sourced hok
    exact ⟨hnext.inv, hnext.frozen, fun hcalm => by cases hcalm⟩
  | evidence id task sendNo what => exact h.evidence hok
  | refused run ids answer =>
    simp only [Action.tx, Tx.ok_read_bind, Tx.ok_orFail_bind] at hok
    obtain ⟨r, hr, hok⟩ := hok
    have hnext := h.call (h.run run r hr) (refusedCall_sourced ids) hok
    unfold refusedCall at hnext
    split at hnext <;> exact hnext
  | attention id task code => exact h.attention hok
  | abandon id task =>
    simp only [Action.tx, ok_owned_bind] at hok
    obtain ⟨r, _, hok⟩ := hok
    exact h.onlyIf (fun ha => h.abandon ha) hok
  | transfer id old => exact h.transfer hok
  | reauthorize content generation task => exact h.reauthorize hok
  | markUnsupported copy => exact h.markUnsupported hok
  | land id sendNo =>
    simp only [Action.tx, Tx.ok_read_bind, Tx.ok_orFail_bind, Tx.ok_require_bind, Tx.ok_write] at hok
    obtain ⟨r, _, send, _, hen, rfl⟩ := hok
    exact h.chainStep hen
  | chain event =>
    simp only [Action.tx, Tx.ok_read_bind, Tx.ok_require_bind, Tx.ok_write, Bool.and_eq_true] at hok
    obtain ⟨⟨_, hen⟩, rfl⟩ := hok
    exact h.chainStep hen

theorem Inv.step {action : Action} (h : Inv s) (hs : removalMachine.step s action = some s') : Next action.calm s s' := by
  obtain ⟨a, hok⟩ := Tx.after_eq_some.mp hs
  exact h.action hok

/-- **The invariant of the removal tables.** -/
theorem removal_inv (h : removalMachine.Reachable s) : Inv s :=
  h.invariant (fun _ h₀ => .of_initial h₀) fun _ _ _ hi hs => (hi.step hs).inv

end SynapS3.Removal
