import SynapS3.Removal.Handler

/-!
# `Removal.Invariant` — what holds of requests, copies and executions

Nearly every transaction works on one request: it changes that request's row, its sends and its members, and
nothing else.
-/

namespace SynapS3.Removal

/-- What identifies a cleanup copy. -/
structure CleanupCopy.Same (a b : CleanupCopy) : Prop where
  content : a.content = b.content
  dataSet : a.dataSet = b.dataSet
  piece : a.piece = b.piece

theorem CleanupCopy.Same.refl (a : CleanupCopy) : a.Same a := ⟨rfl, rfl, rfl⟩

variable {c : CleanupCopy}

theorem CleanupCopy.Same.trans {a b : CleanupCopy} (h : a.Same b) (h' : b.Same c) : a.Same c :=
  ⟨h.content.trans h'.content, h.dataSet.trans h'.dataSet, h.piece.trans h'.piece⟩

/-- The sends of a request: numbered from 1, each within what was exposed before it, and as long as one may
    have been accepted its pieces are members. -/
structure SendsInv (s : State) (id : Nat) : Prop where
  numbers : (s.sends id).map Send.sendNo = List.range' 1 (s.sends id).length
  nested : (s.sends id).Pairwise fun a b => a.exposed = true → b.pieces ⊆ a.pieces
  pieces : ∀ send ∈ s.sends id, send.possiblyAccepted = true → ∀ p ∈ send.pieces,
    ∃ c, s.copies.row p.copy = some c ∧ c.request = some id ∧ c.piece = p.piece
  nonempty : ∀ send ∈ s.sends id, send.pieces ≠ []

/-- What the status of a request says about its owner, its sends and its members. -/
structure StatusInv (s : State) (id : Nat) (r : Request) : Prop where
  owner : r.status.terminal = true → r.task = none
  collecting : r.status = .collecting → s.sends id = []
  quiet : r.status = .ready ∨ r.status = .abandoned → ∀ send ∈ s.sends id, send.possiblyAccepted = false
  settled : r.status = .settled → ∀ i c, s.copies.row i = some c → c.request = some id → c.status = .removed

/-- A cleanup copy: a member is one of an existing request for its data set, and what is marked as removed
    was seen to be gone. -/
structure CopyInv (s : State) (c : CleanupCopy) : Prop where
  member : ∀ id, c.request = some id → (c.status = .pending ∨ c.status = .removed) ∧
    ∃ r, s.requests.row id = some r ∧ r.dataSet = c.dataSet
  removed : c.status = .removed → (c.dataSet, c.piece) ∈ s.seen

/-- What an execution read is still true of what does not change. -/
structure RunInv (s : State) (run : Run) : Prop where
  request : ∃ r, s.requests.row run.id = some r ∧ r.dataSet = run.request.dataSet ∧
    (run.request.status ≠ .collecting → r.status ≠ .collecting)
  members : ∀ m ∈ run.members, m.2.dataSet = run.request.dataSet ∧
    ∃ c, s.copies.row m.1 = some c ∧ m.2.Same c
  removed : ∀ m ∈ run.members, m.2.status = .removed → (m.2.dataSet, m.2.piece) ∈ s.seen
  cover : run.request.status ≠ .collecting → ∀ i c, s.copies.row i = some c → c.request = some run.id →
    ∃ c', (i, c') ∈ run.members
  fresh : run.request.status = .collecting → run.sends = none
  unread : run.sends = none → run.state = none
  snapshot : ∀ st, run.state = some st → st.block ≤ s.chain.height ∧
    st.queueLength = (s.chain.queue run.request.dataSet st.block).length ∧
    ∀ p, st.pieces p = s.chain.status run.request.dataSet p st.block
  gone : ∀ st, run.state = some st → ∀ m ∈ run.members, st.pieces m.2.piece = .removed →
    (m.2.dataSet, m.2.piece) ∈ s.seen

/-- The invariant: a part for every request, cleanup copy and execution, and one for what was seen of the chain. -/
structure Inv (s : State) : Prop where
  sends : ∀ id, SendsInv s id
  status : ∀ id r, s.requests.row id = some r → StatusInv s id r
  unborn : ∀ id, s.requests.row id = none → s.sends id = []
  copy : ∀ i c, s.copies.row i = some c → CopyInv s c
  run : ∀ i run, s.runs.row i = some run → RunInv s run
  chain : s.chain.Sound
  seen : ∀ x ∈ s.seen, ∃ b ≤ s.chain.height, s.chain.status x.1 x.2 b = .removed

/-! ## What every step keeps -/

/-- Requests and copies stay, a sealed request gains no members, and the past of the chain does not change. -/
structure Keeps (s s' : State) : Prop where
  requests : ∀ q r, s.requests.row q = some r → ∃ r', s'.requests.row q = some r' ∧
    r'.dataSet = r.dataSet ∧ (r'.status = .collecting → r.status = .collecting)
  copies : ∀ i c, s.copies.row i = some c → ∃ c', s'.copies.row i = some c' ∧ c'.Same c
  closed : ∀ q r, s.requests.row q = some r → r.status ≠ .collecting → ∀ i c', s'.copies.row i = some c' →
    c'.request = some q → ∃ c, s.copies.row i = some c ∧ c.request = some q
  seen : s.seen ⊆ s'.seen
  height : s.chain.height ≤ s'.chain.height
  status : ∀ d p b, b ≤ s.chain.height → s'.chain.status d p b = s.chain.status d p b
  queue : ∀ d b, b ≤ s.chain.height → s'.chain.queue d b = s.chain.queue d b

variable {s s' : State}

theorem CopyInv.keeps (h : CopyInv s c) (hk : Keeps s s') : CopyInv s' c := by
  refine ⟨fun q hq => ?_, fun hr => hk.seen (h.removed hr)⟩
  obtain ⟨hst, r, hr, hd⟩ := h.member q hq
  obtain ⟨r', hr', hd', _⟩ := hk.requests q r hr
  exact ⟨hst, r', hr', hd'.trans hd⟩

theorem RunInv.keeps {run : Run} (h : RunInv s run) (hk : Keeps s s') : RunInv s' run := by
  obtain ⟨r, hr, hd, hc⟩ := h.request
  refine ⟨?_, ?_, fun m hm hst => hk.seen (h.removed m hm hst), ?_, h.fresh, h.unread, ?_,
    fun st hst m hm hp => hk.seen (h.gone st hst m hm hp)⟩
  · obtain ⟨r', hr', hd', hc'⟩ := hk.requests run.id r hr
    exact ⟨r', hr', hd'.trans hd, fun hne hcol => hc hne (hc' hcol)⟩
  · intro m hm
    obtain ⟨hds, c, hrow, hsame⟩ := h.members m hm
    obtain ⟨c', hrow', hsame'⟩ := hk.copies m.1 c hrow
    exact ⟨hds, c', hrow', hsame.trans ⟨hsame'.content.symm, hsame'.dataSet.symm, hsame'.piece.symm⟩⟩
  · intro hne i c' hrow' hreq'
    obtain ⟨c, hrow, hreq⟩ := hk.closed run.id r hr (hc hne) i c' hrow' hreq'
    exact h.cover hne i c hrow hreq
  · intro st hst
    obtain ⟨hb, hq, hp⟩ := h.snapshot st hst
    exact ⟨hb.trans hk.height, by rw [hq, hk.queue _ _ hb], fun p => by rw [hp p, hk.status _ _ _ hb]⟩

theorem seen_keeps (hk : Keeps s s') {x : Nat × Nat}
    (h : ∃ b ≤ s.chain.height, s.chain.status x.1 x.2 b = .removed) :
    ∃ b ≤ s'.chain.height, s'.chain.status x.1 x.2 b = .removed := by
  obtain ⟨b, hb, hst⟩ := h
  exact ⟨b, hb.trans hk.height, by rw [hk.status _ _ _ hb]; exact hst⟩

/-- A step that touches neither sends nor the chain, and queues no request. -/
structure Calm (s s' : State) : Prop where
  chain : s'.chain = s.chain
  seen : s.seen ⊆ s'.seen
  sends : s'.sends = s.sends
  rows : ∀ q r', s'.requests.row q = some r' →
    (∃ r, s.requests.row q = some r ∧ r'.dataSet = r.dataSet ∧ r'.queuedBlock = r.queuedBlock ∧
      (r'.status = .queued → r.status = .queued)) ∨
    (s.requests.row q = none ∧ r'.status ≠ .queued ∧ r'.queuedBlock = none)
  kept : ∀ q r, s.requests.row q = some r → ∃ r', s'.requests.row q = some r' ∧ r'.dataSet = r.dataSet

theorem Calm.refl (s : State) : Calm s s :=
  ⟨rfl, List.Subset.refl _, rfl, fun _ r hr => .inl ⟨r, hr, rfl, rfl, fun h => h⟩, fun _ r hr => ⟨r, hr, rfl⟩⟩

theorem Calm.of_same (hreq : s'.requests = s.requests) (hsends : s'.sends = s.sends)
    (hchain : s'.chain = s.chain) (hseen : s.seen ⊆ s'.seen) : Calm s s' := by
  refine ⟨hchain, hseen, hsends, fun q r hr => ?_, fun q r hr => ⟨r, by rw [hreq]; exact hr, rfl⟩⟩
  rw [hreq] at hr
  exact .inl ⟨r, hr, rfl, rfl, fun h => h⟩

theorem Calm.trans {t : State} (h : Calm s t) (h' : Calm t s') : Calm s s' := by
  refine ⟨h'.chain.trans h.chain, fun _ hx => h'.seen (h.seen hx), h'.sends.trans h.sends, fun q r'' hr'' => ?_,
    fun q r hr => ?_⟩
  · rcases h'.rows q r'' hr'' with ⟨r', hr', hd', hb', hq'⟩ | ⟨hn, hc, hb⟩
    · rcases h.rows q r' hr' with ⟨r, hr, hd, hb, hq⟩ | ⟨hn, hc, hb⟩
      · exact .inl ⟨r, hr, hd'.trans hd, hb'.trans hb, fun h => hq (hq' h)⟩
      · exact .inr ⟨hn, fun h => hc (hq' h), hb'.trans hb⟩
    · right
      refine ⟨?_, hc, hb⟩
      cases hr : s.requests.row q with
      | none => rfl
      | some r =>
        obtain ⟨r', hr', _⟩ := h.kept q r hr
        rw [hn] at hr'
        cases hr'
  · obtain ⟨r', hr', hd⟩ := h.kept q r hr
    obtain ⟨r'', hr'', hd'⟩ := h'.kept q r' hr'
    exact ⟨r'', hr'', hd'.trans hd⟩

/-- The state after a step: the invariant holds, a request that no task owns is left alone, and the step is calm if
    `b` says so. -/
structure Next (b : Bool) (s s' : State) : Prop where
  inv : Inv s'
  frozen : ∀ q r, s.requests.row q = some r → r.task = none → s'.requests.row q = some r
  calm : b = true → Calm s s'

variable {b : Bool}

theorem Next.refl (h : Inv s) : Next b s s := ⟨h, fun _ _ hr _ => hr, fun _ => .refl s⟩

theorem Next.trans {t u : State} {b' : Bool} (h : Next b s t) (h' : Next b' t u) : Next (b && b') s u := by
  refine ⟨h'.inv, fun q r hr hn => h'.frozen q r (h.frozen q r hr hn) hn, fun hb => ?_⟩
  rw [Bool.and_eq_true] at hb
  exact (h.calm hb.1).trans (h'.calm hb.2)

/-! ## Transactions on one request -/

def Owned (s : State) (id task : Nat) (statuses : List RequestStatus) (r : Request) : Prop :=
  s.requests.row id = some r ∧ r.task = some task ∧ (statuses = [] ∨ r.status ∈ statuses)

/-- What the owner of the request `id` does to a copy. -/
inductive CopyMove (s : State) (id : Nat) (c : CleanupCopy) : CleanupCopy → Prop
  | same : CopyMove s id c c
  | change {c' : CleanupCopy} (was : c.request = some id) (same : c'.Same c)
      (out : c'.request = none ∨ (c'.request = some id ∧ (c'.status = .pending ∨ c'.status = .removed)))
      (seen : c'.status = .removed → (c.dataSet, c.piece) ∈ s.seen) : CopyMove s id c c'

/-- From `s` to `s'` only the request `id`, its sends and its members changed. -/
structure Moves (s s' : State) (id : Nat) (r r' : Request) : Prop where
  was : s.requests.row id = some r
  owner : r.task ≠ none
  now : s'.requests.row id = some r'
  dataSet : r'.dataSet = r.dataSet
  sealed : r'.status = .collecting → r.status = .collecting
  others : ∀ q, q ≠ id → s'.requests.row q = s.requests.row q
  sends : ∀ q, q ≠ id → s'.sends q = s.sends q
  copies : ∃ g : Nat → CleanupCopy → CleanupCopy, (∀ i, s'.copies.row i = (s.copies.row i).map (g i)) ∧
    ∀ i c, s.copies.row i = some c → CopyMove s id c (g i c)
  chain : s'.chain = s.chain
  runs : s'.runs = s.runs
  seen : s'.seen = s.seen

section
variable {s s' : State} {id q : Nat} {r r' : Request} {i : Nat} {c c' : CleanupCopy}

theorem Moves.copy_of (h : Moves s s' id r r') (hc : s'.copies.row i = some c') :
    ∃ c, s.copies.row i = some c ∧ CopyMove s id c c' := by
  obtain ⟨g, hg, hmove⟩ := h.copies
  rw [hg i] at hc
  obtain ⟨c, hc₀, rfl⟩ := Option.map_eq_some_iff.mp hc
  exact ⟨c, hc₀, hmove i c hc₀⟩

theorem Moves.copy_to (h : Moves s s' id r r') (hc : s.copies.row i = some c) :
    ∃ c', s'.copies.row i = some c' ∧ CopyMove s id c c' := by
  obtain ⟨g, hg, hmove⟩ := h.copies
  exact ⟨g i c, by rw [hg i, hc]; rfl, hmove i c hc⟩

theorem CopyMove.identity (h : CopyMove s id c c') : c'.Same c := by
  cases h with
  | same => exact .refl c
  | change _ hs _ _ => exact hs

theorem Moves.member_to (h : Moves s s' id r r') (hq : q ≠ id) (hc : s.copies.row i = some c)
    (hm : c.request = some q) : s'.copies.row i = some c := by
  obtain ⟨c', hc', hmove⟩ := h.copy_to hc
  cases hmove with
  | same => exact hc'
  | change hwas _ _ _ =>
    rw [hm] at hwas
    exact absurd (Option.some.inj hwas) hq

theorem Moves.member_of (h : Moves s s' id r r') (hc : s'.copies.row i = some c') (hm : c'.request = some q) :
    ∃ c, s.copies.row i = some c ∧ c.request = some q ∧ CopyMove s id c c' ∧ (q ≠ id → c = c') := by
  obtain ⟨c, hc₀, hmove⟩ := h.copy_of hc
  refine ⟨c, hc₀, ?_, hmove, ?_⟩
  · cases hmove with
    | same => exact hm
    | change hwas _ hout _ =>
      rcases hout with hn | ⟨hi, _⟩
      · rw [hn] at hm; cases hm
      · rw [hi] at hm; rw [hwas, hm]
  · intro hq
    cases hmove with
    | same => rfl
    | change hwas _ hout _ =>
      rcases hout with hn | ⟨hi, _⟩
      · rw [hn] at hm; cases hm
      · rw [hi] at hm; exact absurd (Option.some.inj hm).symm hq

theorem SendsInv.frame (h : SendsInv s q) (hs : s'.sends q = s.sends q)
    (hc : ∀ i c, s.copies.row i = some c → c.request = some q →
      ∃ c', s'.copies.row i = some c' ∧ c'.request = some q ∧ c'.piece = c.piece) : SendsInv s' q := by
  refine ⟨by rw [hs]; exact h.numbers, by rw [hs]; exact h.nested, ?_, by rw [hs]; exact h.nonempty⟩
  rw [hs]
  intro send hsend hacc p hp
  obtain ⟨c, hrow, hm, hpiece⟩ := h.pieces send hsend hacc p hp
  obtain ⟨c', hrow', hm', hpiece'⟩ := hc _ c hrow hm
  exact ⟨c', hrow', hm', hpiece'.trans hpiece⟩

theorem SendsInv.frame_quiet (h : SendsInv s q) (hs : s'.sends q = s.sends q)
    (hq : ∀ send ∈ s.sends q, send.possiblyAccepted = false) : SendsInv s' q := by
  refine ⟨by rw [hs]; exact h.numbers, by rw [hs]; exact h.nested, ?_, by rw [hs]; exact h.nonempty⟩
  rw [hs]
  intro send hsend hacc
  rw [hq send hsend] at hacc
  cases hacc

theorem StatusInv.frame (h : StatusInv s q r) (hs : s'.sends q = s.sends q)
    (hc : ∀ i c, s'.copies.row i = some c → c.request = some q → s.copies.row i = some c) :
    StatusInv s' q r := by
  refine ⟨h.owner, by rw [hs]; exact h.collecting, by rw [hs]; exact h.quiet, ?_⟩
  intro hst i c hrow hm
  exact h.settled hst i c (hc i c hrow hm) hm

theorem Moves.keeps (hm : Moves s s' id r r') : Keeps s s' := by
  refine ⟨?_, ?_, ?_, by rw [hm.seen]; exact List.Subset.refl _, by rw [hm.chain], by rw [hm.chain]; simp,
    by rw [hm.chain]; simp⟩
  · intro q r₀ hq
    by_cases hi : q = id
    · subst hi
      rw [hm.was] at hq
      cases hq
      exact ⟨r', hm.now, hm.dataSet, hm.sealed⟩
    · exact ⟨r₀, by rw [hm.others q hi]; exact hq, rfl, fun hc => hc⟩
  · intro i c hc
    obtain ⟨c', hc', hmove⟩ := hm.copy_to hc
    exact ⟨c', hc', hmove.identity⟩
  · intro q _ _ _ i c' hc' hq
    obtain ⟨c, hc, hreq, _⟩ := hm.member_of hc' hq
    exact ⟨c, hc, hreq⟩

variable {task : Nat} {statuses : List RequestStatus} {f : Request → Request}

section

variable (ho : Owned s id task statuses r) (hreq : s'.requests = s.requests.modify id f) (hd : (f r).dataSet = r.dataSet)
include ho hreq hd

/-- The common form of such a transaction: the request's row is updated, its sends may be, and some of its
    members are. -/
theorem Moves.of_rows {ids : List Nat} {g : CleanupCopy → CleanupCopy}
    (hcol : (f r).status = .collecting → r.status = .collecting) (hsends : ∀ q, q ≠ id → s'.sends q = s.sends q)
    (hcopies : s'.copies = s.copies.updateWhere (fun i _ => ids.contains i) fun _ => g)
    (hg : ∀ i ∈ ids, ∀ c, s.copies.row i = some c → CopyMove s id c (g c)) (hchain : s'.chain = s.chain)
    (hruns : s'.runs = s.runs) (hseen : s'.seen = s.seen) : Moves s s' id r (f r) := by
  refine ⟨ho.1, by rw [ho.2.1]; nofun, by rw [hreq, Table.row_modify_at ho.1], hd, hcol, ?_, hsends,
    ⟨fun i c => if ids.contains i then g c else c, ?_, ?_⟩, hchain, hruns, hseen⟩
  · intro q hq
    rw [hreq, Table.row_modify, if_neg hq]
  · intro i
    rw [hcopies, Table.row_updateWhere]
  · intro i c hc
    by_cases hi : i ∈ ids
    · simpa [hi] using hg i hi c hc
    · simpa [hi] using CopyMove.same

theorem Moves.of_request (hcol : (f r).status = .collecting → r.status = .collecting)
    (hsends : ∀ q, q ≠ id → s'.sends q = s.sends q) (hcopies : s'.copies = s.copies)
    (hchain : s'.chain = s.chain) (hruns : s'.runs = s.runs) (hseen : s'.seen = s.seen) :
    Moves s s' id r (f r) := by
  refine ⟨ho.1, by rw [ho.2.1]; nofun, by rw [hreq, Table.row_modify_at ho.1], hd, hcol, ?_, hsends,
    ⟨fun _ c => c, fun i => by rw [hcopies]; simp, fun _ _ _ => .same⟩, hchain, hruns, hseen⟩
  intro q hq
  rw [hreq, Table.row_modify, if_neg hq]

end

/-- **One request at a time.** A transaction on a request keeps the invariant if it keeps the part about that
    request. -/
theorem Inv.moves (h : Inv s) (hm : Moves s s' id r r') (hsends : SendsInv s' id)
    (hstatus : StatusInv s' id r') (hcalm : b = true → Calm s s') : Next b s s' := by
  have hk := hm.keeps
  refine ⟨⟨?_, ?_, ?_, ?_, ?_, by rw [hm.chain]; exact h.chain, ?_⟩, ?_, hcalm⟩
  · intro q
    by_cases hi : q = id
    · exact hi ▸ hsends
    · exact (h.sends q).frame (hm.sends q hi) fun i c hc hcq => ⟨c, hm.member_to hi hc hcq, hcq, rfl⟩
  · intro q r₁ hq
    by_cases hi : q = id
    · subst hi
      rw [hm.now] at hq
      cases hq
      exact hstatus
    · rw [hm.others q hi] at hq
      refine (h.status q r₁ hq).frame (hm.sends q hi) fun i c hc hcq => ?_
      obtain ⟨c₀, hc₀, _, _, he⟩ := hm.member_of hc hcq
      rw [← he hi]
      exact hc₀
  · intro q hq
    by_cases hi : q = id
    · subst hi
      rw [hm.now] at hq
      cases hq
    · rw [hm.others q hi] at hq
      rw [hm.sends q hi]
      exact h.unborn q hq
  · intro i c' hc'
    obtain ⟨c, hc, hmove⟩ := hm.copy_of hc'
    cases hmove with
    | same => exact (h.copy i c' hc).keeps hk
    | change hwas hsame hout hseen =>
      refine ⟨fun q hq => ?_, fun hst => ?_⟩
      · rcases hout with hn | ⟨hi, hst⟩
        · rw [hn] at hq; cases hq
        · obtain ⟨_, r₀, hr₀, hd⟩ := (h.copy i c hc).member id hwas
          obtain ⟨r₁, hr₁, hd₁, _⟩ := hk.requests id r₀ hr₀
          rw [hi] at hq
          cases hq
          exact ⟨hst, r₁, hr₁, by rw [hd₁, hd, hsame.dataSet]⟩
      · rw [hm.seen, hsame.dataSet, hsame.piece]
        exact hseen hst
  · intro i run hrun
    rw [hm.runs] at hrun
    exact (h.run i run hrun).keeps hk
  · rw [hm.seen]
    exact fun x hx => seen_keeps hk (h.seen x hx)
  · intro q r₀ hr₀ hn
    have hi : q ≠ id := by
      rintro rfl
      rw [hm.was] at hr₀
      cases hr₀
      exact hm.owner hn
    rw [hm.others q hi]
    exact hr₀

theorem Moves.calm (hm : Moves s s' id r r') (hsends : s'.sends = s.sends) (hb : r'.queuedBlock = r.queuedBlock)
    (hst : r'.status = .queued → r.status = .queued) : Calm s s' := by
  refine ⟨hm.chain, by rw [hm.seen]; exact List.Subset.refl _, hsends, fun q r₀ hr₀ => .inl ?_, fun q r₀ hr₀ => ?_⟩
  · by_cases hq : q = id
    · subst hq
      cases hr₀.symm.trans hm.now
      exact ⟨r, hm.was, hm.dataSet, hb, hst⟩
    · exact ⟨r₀, (hm.others q hq).symm.trans hr₀, rfl, rfl, fun h => h⟩
  · obtain ⟨r₁, hr₁, hd, -⟩ := hm.keeps.requests q r₀ hr₀
    exact ⟨r₁, hr₁, hd⟩
/-- The rule for a step that leaves the sends alone and does not queue the request. -/
theorem Inv.calmMoves (h : Inv s) (hm : Moves s s' id r r') (hsends : s'.sends = s.sends)
    (hb : r'.queuedBlock = r.queuedBlock) (hst : r'.status = .queued → r.status = .queued)
    (hs : SendsInv s' id) (hstatus : StatusInv s' id r') : Next true s s' :=
  h.moves hm hs hstatus fun _ => hm.calm hsends hb hst

end

end SynapS3.Removal
