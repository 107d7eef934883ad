import Mathlib.Data.Finset.Card
import Mathlib.Data.Finset.Dedup
import SynapS3.Removal.Runs

/-!
# `Removal.Room` — the on-chain queue is never overfilled

A send is admitted if the queue at the execution's snapshot, the sends of other requests in flight and the send
itself fit together. The snapshot may be old: since it was taken sends may have landed, and more may land.
What carries the bound is the queue *together with* everything that may still land (`State.landable`): landing
moves pieces from the second to the first, and draining only takes away.

At an admission, whatever is queued now was queued at the snapshot, or was scheduled since. What was
scheduled since, and what may still land, was present at the snapshot (`Live`), and then the request it
belongs to is still counted as in flight, unless it is the request that sends.

The one gap is the end of the service. A request whose data set's service has ended is marked as queued although
its pieces may still be present and its sends may still land; an execution that looked before the end does not
count them. `fair` excludes this.
-/

namespace SynapS3.Removal

variable {s s' : State}

/-! ## What is assumed of the outside -/

def State.landed (s : State) (id sendNo : Nat) : Bool :=
  s.chain.scheduled.any fun e => e.request == id && e.sendNo == sendNo

def Evidence.final : Evidence → Bool
  | .refused | .unsent | .receipt 0 _ => true
  | _ => false

/-- What an execution ends with agrees with the chain: no receipt says that a send failed that landed. -/
def Call.honest (s : State) (r : Run) : Call → Bool
  | .receipt sendNo 0 _ _ => !s.landed r.id sendNo
  | _ => true

/-- A send that is recorded as refused, unsent or reverted never lands: it is not recorded if it has, and does
    not land if it is recorded. -/
def honest (s : State) : Action → Bool
  | .evidence id _ sendNo what => !what.final || !s.landed id sendNo
  | .act run answer => (s.runs.row run).all fun r => (execute r answer).honest s r
  | .land id sendNo => ((s.sends id).find? (·.sendNo == sendNo)).all (·.inFlight)
  | _ => true

/-- A request is marked as queued only if its members are, or none of its sends is in flight. -/
def Call.fair (s : State) (r : Run) : Call → Bool
  | .markQueued _ _ => r.state.any r.allQueued || (s.sends r.id).all fun send => !send.inFlight
  | _ => true

/-- No request is marked as queued on account of an ended service while a send of it is in flight. -/
def fair (s : State) : Action → Bool
  | .act run answer => (s.runs.row run).all fun r => (execute r answer).fair s r
  | _ => true

/-! ## The invariant -/

def Send.fits (c : Chain) (d : Nat) (send : Send) : Bool :=
  send.pieces.all fun p => c.status d p.piece c.height == .present

/-- The copies, by request, of the sends for a data set that may still land. -/
def State.landable (s : State) (d : Nat) : Finset (Nat × Nat) :=
  ((s.requests.ids fun _ r => r.dataSet == d).flatMap fun q =>
    ((s.sends q).filter fun send => send.inFlight && send.fits s.chain d).flatMap fun send =>
      send.pieces.map fun p => (q, p.copy)).toFinset

variable {d q id b task : Nat} {c : Chain} {send : Send} {a : Unit} {event : Chain.Event}

/-- A piece of a send that may still land. -/
structure Flying (s : State) (q : Nat) (r : Request) (send : Send) (p : SendPiece) : Prop where
  row : s.requests.row q = some r
  sent : send ∈ s.sends q
  inFlight : send.inFlight = true
  piece : p ∈ send.pieces

theorem Send.accepted_of_inFlight (h : send.inFlight = true) : send.possiblyAccepted = true := by
  simp only [Send.inFlight, Bool.and_eq_true] at h
  exact h.1

variable {r : Request} {p : SendPiece}

theorem Flying.copy (h : Flying s q r send p) (hinv : Inv s) :
    ∃ c, s.copies.row p.copy = some c ∧ c.request = some q ∧ c.piece = p.piece ∧ c.dataSet = r.dataSet := by
  obtain ⟨c, hc, hreq, hpiece⟩ := (hinv.sends q).pieces send h.sent (Send.accepted_of_inFlight h.inFlight) p h.piece
  obtain ⟨_, r', hr', hd⟩ := (hinv.copy _ c hc).member q hreq
  cases h.row.symm.trans hr'
  exact ⟨c, hc, hreq, hpiece, hd.symm⟩

theorem mem_landable {c : Nat} :
    (q, c) ∈ s.landable d ↔ ∃ r send p, Flying s q r send p ∧ r.dataSet = d ∧ p.copy = c ∧
      ∀ p ∈ send.pieces, s.chain.status d p.piece s.chain.height = .present := by
  simp only [State.landable, List.mem_toFinset, List.mem_flatMap, Table.mem_ids, List.mem_filter, List.mem_map,
    Bool.and_eq_true, beq_iff_eq, Send.fits, List.all_eq_true, Prod.mk.injEq]
  constructor
  · rintro ⟨_, ⟨r, hr, hd⟩, send, ⟨hs, hf, hpres⟩, p, hp, rfl, rfl⟩
    exact ⟨r, send, p, ⟨hr, hs, hf, hp⟩, hd, rfl, hpres⟩
  · rintro ⟨r, send, p, ⟨hr, hs, hf, hp⟩, hd, rfl, hpres⟩
    exact ⟨q, ⟨r, hr, hd⟩, send, ⟨hs, hf, hpres⟩, p, hp, rfl, rfl⟩

/-- The entry was scheduled by a send that is still in flight. -/
def FromSend (s : State) (e : Entry) : Prop :=
  ∃ r send, Flying s e.request r send ⟨e.copy, e.piece⟩ ∧ r.dataSet = e.dataSet ∧ send.sendNo = e.sendNo

/-- At block `b` none of the request's pieces was left present, except those seen to be gone. -/
def QueuedAt (s : State) (q : Nat) (r : Request) (b : Nat) : Prop :=
  ∀ send ∈ s.sends q, send.inFlight = true → ∀ p ∈ send.pieces,
    s.chain.status r.dataSet p.piece b ≠ .present ∨ (r.dataSet, p.piece) ∈ s.seen

/-- What is scheduled came from a send, and the queue has room for everything that may still land. -/
structure RoomInv (s : State) : Prop where
  /-- What no send scheduled was there before. -/
  landed : ∀ e ∈ s.chain.scheduled, (e.request = 0 ∧ e.block = 0) ∨ FromSend s e
  queued : ∀ q r, s.requests.row q = some r → r.status = .queued → ∃ b, r.queuedBlock = some b ∧ QueuedAt s q r b
  queuedBy : ∀ q r b, s.requests.row q = some r → r.queuedBlock = some b → b ≤ s.chain.height
  copies : ∀ q, ∀ send ∈ s.sends q, (send.pieces.map SendPiece.copy).Nodup
  room : ∀ d, (s.chain.queue d s.chain.height).length + (s.landable d).card ≤ maxEnqueuedRemovals

variable {f : Request → Request} {e : Entry} {sendNo n : Nat} {referenced : Nat → Bool} {what : Evidence}
  {answer : Answer}

section

variable (hinv : Inv s) (hchain : s'.chain = s.chain)
  (hkept : ∀ q r, s.requests.row q = some r → ∃ r', s'.requests.row q = some r' ∧ r'.dataSet = r.dataSet)

include hinv hchain hkept

theorem landable_subset (hsends : ∀ q, ∀ x' ∈ s'.sends q, x'.inFlight = true →
      ∃ x ∈ s.sends q, x.inFlight = true ∧ x.pieces = x'.pieces) :
    s'.landable d ⊆ s.landable d := by
  rintro ⟨q, c⟩ hm
  obtain ⟨r', x', p, hfly, hd, hc, hpres⟩ := mem_landable.mp hm
  obtain ⟨x, hx, hf, hpx⟩ := hsends q x' hfly.sent hfly.inFlight
  rw [hchain, ← hpx] at hpres
  cases hr : s.requests.row q with
  | none =>
    rw [hinv.unborn q hr] at hx
    cases hx
  | some r =>
    obtain ⟨r'', hr', hd'⟩ := hkept q r hr
    cases hfly.row.symm.trans hr'
    exact mem_landable.mpr ⟨r, x, p, ⟨hr, hx, hf, by rw [hpx]; exact hfly.piece⟩, hd'.symm.trans hd, hc, hpres⟩

theorem RoomInv.sameSends (h : RoomInv s) (hsends : s'.sends = s.sends)
    (hqueued : ∀ q r', s'.requests.row q = some r' →
      (r'.status = .queued → ∃ b, r'.queuedBlock = some b ∧ QueuedAt s' q r' b) ∧
      ∀ b, r'.queuedBlock = some b → b ≤ s.chain.height) : RoomInv s' := by
  refine ⟨?_, fun q r hr => (hqueued q r hr).1, ?_, by rw [hsends]; exact h.copies, fun d => ?_⟩
  · rw [hchain]
    intro e he
    refine (h.landed e he).imp_right ?_
    rintro ⟨r, send, hfly, hd, hno⟩
    obtain ⟨r', hr', hd'⟩ := hkept _ r hfly.row
    exact ⟨r', send, ⟨hr', by rw [hsends]; exact hfly.sent, hfly.inFlight, hfly.piece⟩, hd'.trans hd, hno⟩
  · rw [hchain]
    exact fun q r b hr => (hqueued q r hr).2 b
  · have hsub : s'.landable d ⊆ s.landable d := by
      refine landable_subset hinv hchain hkept fun q x hx hf => ?_
      rw [hsends] at hx
      exact ⟨x, hx, hf, rfl⟩
    rw [hchain]
    exact (Nat.add_le_add_left (Finset.card_le_card hsub) _).trans (h.room d)

end

theorem RoomInv.calm (h : RoomInv s) (hinv : Inv s) (hc : Calm s s') : RoomInv s' := by
  refine h.sameSends hinv hc.chain hc.kept hc.sends fun q r' hr' => ?_
  rcases hc.rows q r' hr' with ⟨r, hr, hd, hb, hq⟩ | ⟨_, hne, hnone⟩
  · refine ⟨fun hst => ?_, fun b hblock => h.queuedBy q r b hr (hb.symm.trans hblock)⟩
    obtain ⟨b, hblock, hall⟩ := h.queued q r hr (hq hst)
    refine ⟨b, hb.trans hblock, fun send hs hf p hp => ?_⟩
    rw [hc.sends] at hs
    rw [hc.chain, hd]
    exact (hall send hs hf p hp).imp_right fun hx => hc.seen hx
  · refine ⟨fun hst => absurd hst hne, fun b hblock => ?_⟩
    rw [hnone] at hblock
    cases hblock

/-! ## Pieces that were there at the snapshot -/

/-- The piece is present, or was scheduled after block `b` and is still queued. -/
def Live (c : Chain) (d p b : Nat) : Prop :=
  c.status d p c.height = .present ∨ ∃ e ∈ c.queue d c.height, e.piece = p ∧ b < e.block

theorem Live.present (hc : c.Sound) {p : Nat} (hb : b ≤ c.height) (h : Live c d p b) :
    c.status d p b = .present := by
  rcases h with hp | ⟨e, he, rfl, hlt⟩
  · exact Chain.present_mono hb hp
  obtain ⟨hdel, hm, hd, _, hrem⟩ := Chain.mem_queue.mp he
  refine Chain.status_eq_present.mpr ⟨?_, ?_, ?_⟩ <;> rw [← Bool.not_eq_true]
  · exact fun hx => by rw [Chain.deletedBy_mono hb hx] at hdel; cases hdel
  · exact fun hx => by rw [Chain.removedBy_mono hb hx] at hrem; cases hrem
  · -- the piece was scheduled once, and that was after `b`
    intro hx
    obtain ⟨e', hm', hd', hp', hb'⟩ := Chain.scheduledBy_iff.mp hx
    have := hc.distinct e hm e' hm' (hd.trans hd'.symm) hp'.symm
    subst this
    omega

theorem Live.not_seen (hinv : Inv s) {p : Nat} (h : Live s.chain d p b) : (d, p) ∉ s.seen := by
  intro hseen
  obtain ⟨b', hb', hgone⟩ := hinv.seen _ hseen
  rcases h with hp | ⟨e, he, rfl, _⟩
  · have := Chain.present_mono hb' hp
    rw [hgone] at this
    cases this
  · exact Chain.not_queued_of_removed hb' hgone he

theorem Live.unseen (h : RoomInv s) (hinv : Inv s) (hfly : Flying s q r send p) (hb : b ≤ s.chain.height)
    (hl : Live s.chain r.dataSet p.piece b) : r.unseenBy b = true := by
  have ⟨hr, hs, hf, hp⟩ := hfly
  have hst := hinv.status q r hr
  have hacc := Send.accepted_of_inFlight hf
  have hnot := hl.not_seen hinv
  have hpres := hl.present hinv.chain hb
  cases hcase : r.status with
  | collecting =>
    rw [hst.collecting hcase] at hs
    cases hs
  | ready =>
    have := hst.quiet (.inl hcase) send hs
    rw [hacc] at this
    cases this
  | submitted => simp [Request.unseenBy, hcase]
  | queued =>
    obtain ⟨b', hblock, hall⟩ := h.queued q r hr hcase
    have hlt : b < b' := by
      by_contra hle
      rcases hall send hs hf p hp with hne | hseen
      · exact hne (Chain.present_mono (Nat.not_lt.mp hle) hpres)
      · exact hnot hseen
    simp [Request.unseenBy, hcase, hblock, hlt]
  | settled =>
    obtain ⟨c, hc, hreq, hpiece, hd⟩ := hfly.copy hinv
    have hseen := (hinv.copy _ c hc).removed (hst.settled hcase _ c hc hreq)
    rw [hpiece, hd] at hseen
    exact absurd hseen hnot
  | abandoned =>
    have := hst.quiet (.inr hcase) send hs
    rw [hacc] at this
    cases this

theorem Live.inFlight (h : RoomInv s) (hinv : Inv s) {y : Nat} (hfly : Flying s q r send p)
    (hb : b ≤ s.chain.height) (hl : Live s.chain r.dataSet p.piece b) (hy : q ≠ y) :
    (q, p.copy) ∈ s.inFlight r.dataSet y b := by
  simp only [State.inFlight, List.mem_dedup, List.mem_flatMap, Table.mem_ids, List.mem_filter, List.mem_map,
    Bool.and_eq_true, beq_iff_eq, bne_iff_ne, Prod.mk.injEq]
  exact ⟨q, ⟨r, hfly.row, ⟨rfl, hy⟩, hl.unseen h hinv hfly hb⟩, send, ⟨hfly.sent, hfly.inFlight⟩, p, hfly.piece, rfl,
    rfl⟩

/-! ## Admission -/

theorem members_nodup (s : State) (id : Nat) : ((s.members id).map Prod.fst).Nodup := by
  refine List.Nodup.map_on ?_ ?_
  · rintro ⟨i, c⟩ hm ⟨j, c'⟩ hm' rfl
    have hc := (State.mem_members.mp hm).1
    rw [(State.mem_members.mp hm').1] at hc
    cases hc
    rfl
  · refine (Table.nodup_ids _ _).filterMap fun i j m hi hj => ?_
    simp only [Option.mem_def, Option.map_eq_some_iff] at hi hj
    obtain ⟨c, _, rfl⟩ := hi
    obtain ⟨c', _, he⟩ := hj
    exact (congrArg Prod.fst he).symm

variable {run : Run} {st : PiecesState}

theorem Live.selected (hinv : Inv s) (hrun : RunInv s run) (hst : run.state = some st)
    (hcol : run.request.status ≠ .collecting) (hfly : Flying s run.id r send p)
    (hl : Live s.chain r.dataSet p.piece st.block) :
    ∃ c, (p.copy, c) ∈ (s.members run.id).filter
      fun m => (run.sendable st).contains m.1 && m.2.status != .removed := by
  obtain ⟨c, hc, hreq, hpiece, hd⟩ := hfly.copy hinv
  obtain ⟨hb, _, hpieces⟩ := hrun.snapshot st hst
  obtain ⟨r', hr', hdr, _⟩ := hrun.request
  cases hfly.row.symm.trans hr'
  obtain ⟨c', hm⟩ := hrun.cover hcol _ c hc hreq
  obtain ⟨hds, c₁, hc₁, hsame⟩ := hrun.members _ hm
  have he : c₁ = c := Option.some.inj (hc₁.symm.trans hc)
  subst he
  have hnot := hl.not_seen hinv
  have hpiece' : c'.piece = p.piece := hsame.piece.trans hpiece
  refine ⟨c₁, List.mem_filter.mpr ⟨State.mem_members.mpr ⟨hc, hreq⟩, ?_⟩⟩
  simp only [Bool.and_eq_true, List.contains_iff_mem, bne_iff_ne]
  constructor
  · refine List.mem_map.mpr ⟨(p.copy, c'), List.mem_filter.mpr ⟨hm, ?_⟩, rfl⟩
    simp only [Bool.and_eq_true, beq_iff_eq, bne_iff_ne]
    constructor
    · rw [hpieces, hpiece', ← hdr]
      exact hl.present hinv.chain hb
    · intro hrem
      have := hrun.removed _ hm hrem
      rw [hds, ← hdr, hpiece'] at this
      exact hnot this
  · intro hrem
    have := (hinv.copy _ c₁ hc).removed hrem
    rw [hd, hpiece] at this
    exact hnot this

theorem RoomInv.fromSend (h : RoomInv s) (he : e ∈ s.chain.scheduled) (hpos : 0 < e.block) : FromSend s e :=
  (h.landed e he).resolve_left fun h0 => by omega

/-- **The count.** If every live piece in flight, by the snapshot at block `b`, is charged to a pair of `charged`,
    what is queued and what may land is at most the queue at `b` and what is charged. -/
theorem RoomInv.count (h : RoomInv s) (hinv : Inv s) (hb : b ≤ s.chain.height)
    (landable charged : Finset (Nat × Nat))
    (hland : ∀ q c, (q, c) ∈ landable → (q, c) ∈ s.landable d ∨ ((q, c) ∈ charged ∧
      ∃ row, s.copies.row c = some row ∧ s.chain.status d row.piece s.chain.height = .present))
    (hcharged : ∀ q r send p, Flying s q r send p → r.dataSet = d → Live s.chain d p.piece b →
      (q, p.copy) ∈ charged) :
    (s.chain.queue d s.chain.height).length + landable.card ≤ (s.chain.queue d b).length + charged.card := by
  -- what could land before is live
  replace hland : ∀ q c, (q, c) ∈ landable → (q, c) ∈ charged ∧
      ∃ row, s.copies.row c = some row ∧ s.chain.status d row.piece s.chain.height = .present := by
    intro q c hm
    rcases hland q c hm with hold | hnew
    · obtain ⟨r, send, p, hfly, hd, rfl, hpres⟩ := mem_landable.mp hold
      obtain ⟨row, hrow, _, hpiece, _⟩ := hfly.copy hinv
      have hp := hpres p hfly.piece
      exact ⟨hcharged q r send p hfly hd (.inl hp), row, hrow, by rw [hpiece]; exact hp⟩
    · exact hnew
  set Q := s.chain.queue d s.chain.height with hQ
  have hnodup : Q.Nodup := by
    rw [hQ, Chain.queue]
    split
    · exact List.nodup_nil
    · exact hinv.chain.nodup.filter _
  set old := Q.filter fun e => decide (e.block ≤ b)
  set new := Q.filter fun e => !decide (e.block ≤ b)
  have hsplit : Q.length = old.length + new.length := List.length_eq_length_filter_add _
  have hold : old.length ≤ (s.chain.queue d b).length := by
    refine ((hnodup.filter _).subperm fun e he => ?_).length_le
    obtain ⟨heQ, heb⟩ := List.mem_filter.mp he
    exact Chain.queue_back hb heQ (by simpa using heb)
  -- what was scheduled after `b` is told apart by request and copy
  have hnew : ∀ e ∈ new, e ∈ Q ∧ b < e.block ∧ e ∈ s.chain.scheduled ∧ e.dataSet = d ∧ FromSend s e := by
    intro e he
    obtain ⟨heQ, heb⟩ := List.mem_filter.mp he
    obtain ⟨_, hm, hd, _, _⟩ := Chain.mem_queue.mp heQ
    have hlt : b < e.block := by simpa using heb
    exact ⟨heQ, hlt, hm, hd, h.fromSend hm (by omega)⟩
  have hinj : ∀ e ∈ new, ∀ e' ∈ new, (e.request, e.copy) = (e'.request, e'.copy) → e = e' := by
    intro e he e' he' heq
    obtain ⟨_, _, hm, hd, _, _, hfly, _⟩ := hnew e he
    obtain ⟨_, _, hm', hd', _, _, hfly', _⟩ := hnew e' he'
    obtain ⟨c, hc, _, hp, _⟩ := hfly.copy hinv
    obtain ⟨c', hc', _, hp', _⟩ := hfly'.copy hinv
    simp only [Prod.mk.injEq] at heq
    dsimp only at hc hc' hp hp'
    rw [heq.2, hc'] at hc
    cases hc
    exact hinv.chain.distinct e hm e' hm' (hd.trans hd'.symm) (hp.symm.trans hp')
  set N := (new.map fun e => (e.request, e.copy)).toFinset
  have hN : N.card = new.length := by
    rw [List.toFinset_card_of_nodup (List.Nodup.map_on hinj (hnodup.filter _)), List.length_map]
  have hdisj : Disjoint N landable := by
    rw [Finset.disjoint_left]
    rintro x hx hxl
    obtain ⟨e, he, rfl⟩ := List.mem_map.mp (List.mem_toFinset.mp hx)
    obtain ⟨_, _, hm, hd, _, _, hfly, _⟩ := hnew e he
    obtain ⟨c, hc, _, hp, _⟩ := hfly.copy hinv
    obtain ⟨_, c', hc', hpres⟩ := hland _ _ hxl
    cases hc.symm.trans hc'
    have hs := (Chain.status_eq_present.mp hpres).2.2
    rw [hp, Chain.scheduledBy_iff.mpr ⟨e, hm, hd, rfl, hinv.chain.scheduled e hm⟩] at hs
    cases hs
  have hsub : N ∪ landable ⊆ charged := by
    refine Finset.union_subset (fun x hx => ?_) fun x hx => (hland _ _ hx).1
    obtain ⟨e, he, rfl⟩ := List.mem_map.mp (List.mem_toFinset.mp hx)
    obtain ⟨heQ, hlt, _, hd, r, send, hfly, hdr, _⟩ := hnew e he
    exact hcharged _ r send _ hfly (hdr.trans hd) (.inr ⟨e, heQ, rfl, hlt⟩)
  have hcard := Finset.card_le_card hsub
  rw [Finset.card_union_of_disjoint hdisj, hN] at hcard
  omega

/-- The sends of one request change, and afterwards it is not queued. -/
structure Resent (s s' : State) (id : Nat) : Prop where
  chain : s'.chain = s.chain
  seen : s'.seen = s.seen
  sends : ∀ q, q ≠ id → s'.sends q = s.sends q
  rows : ∀ q r', s'.requests.row q = some r' → ∃ r, s.requests.row q = some r ∧ r'.dataSet = r.dataSet ∧
    r'.queuedBlock = r.queuedBlock ∧ (r'.status = .queued → q ≠ id ∧ r' = r)
  kept : ∀ q r, s.requests.row q = some r → ∃ r', s'.requests.row q = some r' ∧ r'.dataSet = r.dataSet

theorem Resent.of_modify (hreq : s'.requests = s.requests.modify id f) (hchain : s'.chain = s.chain)
    (hseen : s'.seen = s.seen) (hsends : ∀ q, q ≠ id → s'.sends q = s.sends q)
    (hf : ∀ r, s.requests.row id = some r →
      (f r).dataSet = r.dataSet ∧ (f r).queuedBlock = r.queuedBlock ∧ (f r).status ≠ .queued) :
    Resent s s' id := by
  refine ⟨hchain, hseen, hsends, fun q r' hr' => ?_, fun q r hr => ?_⟩
  · rw [hreq] at hr'
    rcases Table.row_modify_cases hr' with ⟨rfl, r, hr, rfl⟩ | ⟨hne, hr⟩
    · obtain ⟨hd, hb, hq⟩ := hf r hr
      exact ⟨r, hr, hd, hb, fun hst => absurd hst hq⟩
    · exact ⟨r', hr, rfl, rfl, fun _ => ⟨hne, rfl⟩⟩
  · rw [hreq, Table.row_modify, hr]
    split
    · next hq => subst hq; exact ⟨f r, rfl, (hf r hr).1⟩
    · exact ⟨r, rfl, rfl⟩

theorem RoomInv.resent (h : RoomInv s) (hs : Resent s s' id)
    (hlanded : ∀ x ∈ s.sends id, x.inFlight = true → s.landed id x.sendNo = true →
      ∃ y ∈ s'.sends id, y.sendNo = x.sendNo ∧ y.inFlight = true ∧ y.pieces = x.pieces)
    (hcopies : ∀ x ∈ s'.sends id, (x.pieces.map SendPiece.copy).Nodup)
    (hroom : ∀ d, (s.chain.queue d s.chain.height).length + (s'.landable d).card ≤ maxEnqueuedRemovals) :
    RoomInv s' := by
  refine ⟨fun e he => ?_, fun q r' hr' hq => ?_, fun q r' b hr' hblock => ?_, fun q => ?_, ?_⟩
  · rw [hs.chain] at he
    refine (h.landed e he).imp_right ?_
    rintro ⟨r, x, ⟨hr, hx, hf, hp⟩, hd, hno⟩
    obtain ⟨r', hr', hd'⟩ := hs.kept _ r hr
    by_cases hq : e.request = id
    · have hl : s.landed id x.sendNo = true := by
        simp only [State.landed, List.any_eq_true, Bool.and_eq_true, beq_iff_eq]
        exact ⟨e, he, hq, hno.symm⟩
      rw [hq] at hx
      obtain ⟨y, hy, hyno, hyf, hyp⟩ := hlanded x hx hf hl
      exact ⟨r', y, ⟨hr', by rw [hq]; exact hy, hyf, hyp ▸ hp⟩, hd'.trans hd, hyno.trans hno⟩
    · exact ⟨r', x, ⟨hr', by rw [hs.sends _ hq]; exact hx, hf, hp⟩, hd'.trans hd, hno⟩
  · obtain ⟨r, hr, _, _, hsame⟩ := hs.rows q r' hr'
    obtain ⟨hne, rfl⟩ := hsame hq
    obtain ⟨b, hblock, hall⟩ := h.queued q r' hr hq
    refine ⟨b, hblock, ?_⟩
    rw [QueuedAt, hs.sends q hne, hs.chain, hs.seen]
    exact hall
  · obtain ⟨r, hr, _, hbl, _⟩ := hs.rows q r' hr'
    rw [hs.chain]
    exact h.queuedBy q r b hr (hbl.symm.trans hblock)
  · by_cases hq : q = id
    · subst hq; exact hcopies
    · rw [hs.sends q hq]; exact h.copies q
  · rw [hs.chain]; exact hroom

theorem RoomInv.admitSend (h : RoomInv s) (hinv : Inv s) (hrun : RunInv s run) (hst : run.state = some st)
    (hcol : run.request.status ≠ .collecting)
    (hok : (admitRemovalSend ⟨run.id, run.task, sendNo, run.sendable st, st.queueLength, st.block⟩ referenced).Ok
      s a s') : RoomInv s' := by
  obtain ⟨r, sel, ho, _, _, hsel, _, _, hroom, hs'⟩ := ok_admit hok
  dsimp only at ho hsel hroom hs'
  obtain ⟨hb, hql, _⟩ := hrun.snapshot st hst
  have hsends : s'.sends run.id = s.sends run.id ++
      [⟨sendNo, run.task, none, none, none, false, false, sel.map fun m => ⟨m.1, m.2.piece⟩⟩] := by
    rw [hs']; exact if_pos rfl
  have hre : Resent s s' run.id := by
    subst hs'
    exact .of_modify rfl rfl rfl (fun q hq => if_neg hq) fun _ _ => ⟨rfl, rfl, nofun⟩
  -- what may land could land before, or is in the new send
  have hnew : ∀ d q c, (q, c) ∈ s'.landable d → (q, c) ∈ s.landable d ∨ (q = run.id ∧ r.dataSet = d ∧
      ∃ m ∈ sel, m.1 = c ∧ s.chain.status d m.2.piece s.chain.height = .present) := by
    intro d q c hm
    obtain ⟨r', x, p, ⟨hr', hx, hf, hp⟩, hd', rfl, hpres⟩ := mem_landable.mp hm
    obtain ⟨r₀, hr₀, hd₀, _⟩ := hre.rows q r' hr'
    rw [hre.chain] at hpres
    by_cases hold : x ∈ s.sends q
    · exact .inl (mem_landable.mpr ⟨r₀, x, p, ⟨hr₀, hold, hf, hp⟩, hd₀.symm.trans hd', rfl, hpres⟩)
    by_cases hq : q = run.id
    · subst hq
      rw [hsends] at hx
      have hsent := List.mem_singleton.mp ((List.mem_append.mp hx).resolve_left hold)
      subst hsent
      obtain ⟨m, hsel, rfl⟩ := List.mem_map.mp hp
      obtain rfl : r₀ = r := Option.some.inj (hr₀.symm.trans ho.1)
      exact .inr ⟨rfl, hd₀.symm.trans hd', m, hsel, rfl, hpres _ hp⟩
    · rw [hre.sends q hq] at hx
      exact absurd hx hold
  refine h.resent hre (fun x hx hf _ => ?_) (fun x hx => ?_) fun d => ?_
  · exact ⟨x, by rw [hsends]; exact List.mem_append_left _ hx, rfl, hf, rfl⟩
  · rw [hsends] at hx
    rcases List.mem_append.mp hx with hx | hx
    · exact h.copies _ x hx
    · rw [List.mem_singleton.mp hx, List.map_map, hsel]
      exact ((members_nodup s run.id).sublist (List.filter_sublist.map _))
  by_cases hd : r.dataSet = d
  · subst hd
    -- the live pieces are charged to the requests in flight, or are sent now
    refine (h.count hinv hb (d := r.dataSet) (s'.landable r.dataSet)
      ((s.inFlight r.dataSet run.id st.block).toFinset ∪ (sel.map fun m => (run.id, m.1)).toFinset) ?_ ?_).trans ?_
    · intro q c hm
      refine (hnew _ q c hm).imp_right ?_
      rintro ⟨rfl, -, m, hsent, rfl, hpres⟩
      refine ⟨Finset.mem_union_right _ (List.mem_toFinset.mpr (List.mem_map.mpr ⟨m, hsent, rfl⟩)), m.2, ?_, hpres⟩
      rw [hsel] at hsent
      exact (State.mem_members.mp (List.mem_filter.mp hsent).1).1
    · intro q r₀ x p hfly hd₀ hl
      by_cases hq : q = run.id
      · subst hq
        obtain rfl : r₀ = r := Option.some.inj (hfly.row.symm.trans ho.1)
        obtain ⟨c, hc⟩ := Live.selected hinv hrun hst hcol hfly hl
        exact Finset.mem_union_right _ (List.mem_toFinset.mpr
          (List.mem_map.mpr ⟨(p.copy, c), by rw [hsel]; exact hc, rfl⟩))
      · refine Finset.mem_union_left _ (List.mem_toFinset.mpr ?_)
        have := Live.inFlight h hinv hfly hb (by rw [hd₀]; exact hl) hq
        rwa [hd₀] at this
    · have hcard := (Finset.card_union_le (s.inFlight r.dataSet run.id st.block).toFinset
        (sel.map fun m => (run.id, m.1)).toFinset).trans
        (Nat.add_le_add (List.toFinset_card_le _) (List.toFinset_card_le _))
      rw [List.length_map] at hcard
      obtain ⟨r', hr', hdr, _⟩ := hrun.request
      obtain rfl : r' = r := Option.some.inj (hr'.symm.trans ho.1)
      rw [hql, ← hdr] at hroom
      omega
  · -- another data set: the new send is not for it
    have hsub : s'.landable d ⊆ s.landable d :=
      fun x hx => (hnew d x.1 x.2 hx).resolve_right fun hsent => hd hsent.2.1
    exact (Nat.add_le_add_left (Finset.card_le_card hsub) _).trans (h.room d)

/-! ## Evidence, queueing and the chain -/

theorem Send.record_inFlight {x y : Send} (h : x.record what = some y) (hv : what.valid x = true) :
    (y.inFlight = true → x.inFlight = true) ∧ (what.final = false → x.inFlight = true → y.inFlight = true) := by
  unfold Send.record at h
  cases what with
  | submission hash =>
    dsimp only at h
    split at h <;> cases h
    exact ⟨fun hx => hx, fun _ hx => hx⟩
  | refused | unsent =>
    dsimp only at h
    split at h <;> cases h
    simp [Send.inFlight, Send.possiblyAccepted, Evidence.final]
  | receipt status hash =>
    dsimp only at h
    split at h
    · next hc =>
        cases h
        simp only [Send.inFlight, Send.possiblyAccepted]
        cases hx : x.receiptStatus with
        | none =>
          cases status with
          | zero => simp [Evidence.final]
          | succ n => simp
        | some k =>
          rw [hx] at hc
          simp only [Option.all_some, beq_iff_eq] at hc
          rw [hc.1]
          exact ⟨fun h => h, fun _ h => h⟩
    · cases h

theorem RoomInv.evidence (h : RoomInv s) (hinv : Inv s) (hhonest : what.final = true → s.landed id sendNo = false)
    (hok : (sendEvidence id task sendNo what).Ok s a s') : RoomInv s' := by
  obtain ⟨r, x, y, ho, hx, hno, hv, hy, hs'⟩ := ok_sendEvidence hok
  obtain ⟨hyno, hypieces, _, _, _⟩ := Send.record_spec hy
  obtain ⟨hback, hforth⟩ := Send.record_inFlight hy hv
  have hinj : ∀ z ∈ s.sends id, z.sendNo = sendNo → z = x := by
    intro z hz he
    refine List.inj_on_of_nodup_map ?_ hz hx (he.trans hno.symm)
    rw [(hinv.sends id).numbers]
    exact List.nodup_range'
  have hsends : s'.sends id = withEvidence (s.sends id) sendNo y := by
    rw [hs']; exact if_pos rfl
  have hre : Resent s s' id := by
    subst hs'
    refine .of_modify rfl rfl rfl (fun q hq => if_neg hq) fun r₀ hr₀ => ⟨by split <;> rfl, by split <;> rfl, ?_⟩
    obtain rfl : r₀ = r := Option.some.inj (hr₀.symm.trans ho.1)
    have hst : r₀.status = .submitted ∨ r₀.status = .ready := by simpa using ho.2.2
    split
    · nofun
    · rcases hst with hst | hst <;> rw [hst] <;> nofun
  -- a send after is a send before, with the same pieces, that was in flight if it is
  have hof : ∀ z' ∈ s'.sends id, ∃ z ∈ s.sends id, z.pieces = z'.pieces ∧
      (z'.inFlight = true → z.inFlight = true) := by
    intro z' hz'
    rw [hsends] at hz'
    obtain ⟨z, hz, rfl⟩ := List.mem_map.mp hz'
    split
    · exact ⟨x, hx, hypieces.symm, hback⟩
    · exact ⟨z, hz, rfl, fun hf => hf⟩
  refine h.resent hre (fun z hz hf hl => ?_) (fun z' hz' => ?_) fun d => ?_
  · rw [hsends]
    refine ⟨_, List.mem_map.mpr ⟨z, hz, rfl⟩, ?_⟩
    split
    · next he =>
        obtain rfl := hinj z hz he
        refine ⟨hyno, hforth ?_ hf, hypieces⟩
        -- evidence that ends the send is not recorded for one that landed
        rw [he] at hl
        exact Bool.eq_false_iff.mpr fun hfin => Bool.false_ne_true ((hhonest hfin).symm.trans hl)
    · exact ⟨rfl, hf, rfl⟩
  · obtain ⟨z, hz, hpz, _⟩ := hof z' hz'
    rw [← hpz]
    exact h.copies id z hz
  · have hsub : s'.landable d ⊆ s.landable d := by
      refine landable_subset hinv hre.chain hre.kept fun q z' hz' hf => ?_
      by_cases hq : q = id
      · subst hq
        obtain ⟨z, hz, hpz, hfz⟩ := hof z' hz'
        exact ⟨z, hz, hfz hf, hpz⟩
      · rw [hre.sends q hq] at hz'
        exact ⟨z', hz', hf, rfl⟩
    exact (Nat.add_le_add_left (Finset.card_le_card hsub) _).trans (h.room d)

/-- A request is queued by an execution that saw all its members scheduled or gone, or that has nothing in
    flight. -/
theorem RoomInv.markQueued (h : RoomInv s) (hinv : Inv s) (hrun : RunInv s run) (hst : run.state = some st)
    (hcol : run.request.status ≠ .collecting) {withoutSend : Bool}
    (hfair : run.allQueued st = true ∨ ∀ send ∈ s.sends run.id, send.inFlight = false)
    (hok : (markQueued run.id run.task st.block withoutSend).Ok s a s') : RoomInv s' := by
  obtain ⟨r, ho, hs'⟩ := ok_markQueued hok
  obtain ⟨hb, _, hpieces⟩ := hrun.snapshot st hst
  subst hs'
  refine h.sameSends hinv rfl (fun q r₀ hr₀ => ?_) rfl fun q r' hr' => ?_
  · exact ⟨_, Table.row_modify_some hr₀ _ _, by split <;> rfl⟩
  rcases Table.row_modify_cases hr' with ⟨rfl, r₀, hr₀, rfl⟩ | ⟨_, hr₀⟩
  · refine ⟨fun _ => ⟨st.block, rfl, fun send hs hf p hp => ?_⟩, fun b hblock => by cases hblock; exact hb⟩
    rcases hfair with hall | hnone
    · -- the piece belongs to a member that the execution read
      obtain ⟨c, hc, hreq, hpiece, _⟩ := Flying.copy ⟨hr₀, hs, hf, hp⟩ hinv
      obtain ⟨c', hm⟩ := hrun.cover hcol _ c hc hreq
      obtain ⟨hds, c₁, hc₁, hsame⟩ := hrun.members _ hm
      cases hc₁.symm.trans hc
      obtain ⟨r₁, hr₁, hdr, _⟩ := hrun.request
      cases hr₁.symm.trans hr₀
      have hq := List.all_eq_true.mp hall _ hm
      simp only [Bool.or_eq_true, beq_iff_eq, bne_iff_ne] at hq
      rcases hq with hrem | hne
      · right
        have := hrun.removed _ hm hrem
        rw [hds, ← hdr, hsame.piece.trans hpiece] at this
        exact this
      · left
        rw [hpieces, hsame.piece.trans hpiece, ← hdr] at hne
        exact hne
    · rw [hnone send hs] at hf
      cases hf
  · exact ⟨h.queued q r' hr₀, fun b => h.queuedBy q r' b hr₀⟩

/-- An event of the chain: what it schedules has to come from a send in flight, and the count must not grow. -/
theorem RoomInv.chainStep (h : RoomInv s) (hen : s.chain.enabled event = true)
    (hnew : ∀ e ∈ (s.chain.apply event).scheduled, e ∉ s.chain.scheduled → FromSend s e)
    (hroom : ∀ d, ((s.chain.apply event).queue d (s.chain.apply event).height).length +
        (State.landable { s with chain := s.chain.apply event } d).card ≤
      (s.chain.queue d s.chain.height).length + (s.landable d).card) :
    RoomInv { s with chain := s.chain.apply event } := by
  refine ⟨?_, ?_, ?_, h.copies, fun d => (hroom d).trans (h.room d)⟩
  · intro e he
    -- the rows and sends are those before the event
    suffices hs : (e.request = 0 ∧ e.block = 0) ∨ FromSend s e from
      hs.imp_right fun ⟨r, send, hfly, hrest⟩ => ⟨r, send, ⟨hfly.row, hfly.sent, hfly.inFlight, hfly.piece⟩, hrest⟩
    by_cases hold : e ∈ s.chain.scheduled
    · exact h.landed e hold
    · exact .inr (hnew e he hold)
  · intro q r hr hq
    obtain ⟨b, hblock, hall⟩ := h.queued q r hr hq
    refine ⟨b, hblock, fun send hs hf p hp => ?_⟩
    have hst := Chain.status_apply (d := r.dataSet) (p := p.piece) hen (h.queuedBy q r b hr hblock)
    rw [show State.chain { s with chain := s.chain.apply event } = s.chain.apply event from rfl, hst]
    exact hall send hs hf p hp
  · exact fun q r b hr hblock => (h.queuedBy q r b hr hblock).trans (s.chain.height_le_apply event)

theorem present_of_apply (hen : c.enabled event = true) {p : Nat}
    (h : (c.apply event).status d p (c.apply event).height = .present) : c.status d p c.height = .present := by
  rw [← Chain.status_apply hen (Nat.le_refl _)]
  exact Chain.present_mono (c.height_le_apply event) h

theorem landable_apply_subset (hen : s.chain.enabled event = true) (d : Nat) :
    State.landable { s with chain := s.chain.apply event } d ⊆ s.landable d := by
  rintro ⟨q, c⟩ hm
  obtain ⟨r, send, p, hfly, hd, hc, hpres⟩ := mem_landable.mp hm
  exact mem_landable.mpr ⟨r, send, p, ⟨hfly.row, hfly.sent, hfly.inFlight, hfly.piece⟩, hd, hc,
    fun p hp => present_of_apply hen (hpres p hp)⟩

theorem queue_apply_length (hc : c.Sound) (hen : c.enabled event = true)
    (hsched : (c.apply event).scheduled = c.scheduled) (d : Nat) :
    ((c.apply event).queue d (c.apply event).height).length ≤ (c.queue d c.height).length := by
  have hnodup : ((c.apply event).queue d (c.apply event).height).Nodup := by
    rw [Chain.queue]
    split
    · exact List.nodup_nil
    · rw [hsched]; exact hc.nodup.filter _
  refine (hnodup.subperm fun e he => ?_).length_le
  have hm := (Chain.mem_queue.mp he).2.1
  rw [hsched] at hm
  have := Chain.queue_back (c.height_le_apply event) he (hc.scheduled e hm)
  rwa [Chain.queue_apply hen (Nat.le_refl _)] at this

theorem RoomInv.quietEvent (h : RoomInv s) (hinv : Inv s) (hen : s.chain.enabled event = true)
    (hsched : (s.chain.apply event).scheduled = s.chain.scheduled) :
    RoomInv { s with chain := s.chain.apply event } := by
  refine h.chainStep hen (fun e he hne => absurd (hsched ▸ he) hne) fun d => ?_
  exact Nat.add_le_add (queue_apply_length hinv.chain hen hsched d)
    (Finset.card_le_card (landable_apply_subset hen d))

theorem queue_land_length {ps : List (Nat × Nat)} (hc : c.Sound) (hen : c.enabled (.land d q n ps) = true)
    (d' : Nat) :
    ((c.apply (.land d q n ps)).queue d' (c.apply (.land d q n ps)).height).length ≤
      (c.queue d' c.height).length + if d' = d then ps.length else 0 := by
  set c' := c.apply (.land d q n ps)
  set P := fun e : Entry => e.dataSet == d' && decide (e.block ≤ c'.height) && !c'.removedBy d' e.piece c'.height
  by_cases hdel : c'.deletedBy d' c'.height = true
  · rw [Chain.queue, if_pos hdel]
    exact Nat.zero_le _
  have hq : c'.queue d' c'.height = c.scheduled.filter P ++
      (ps.map fun p => (⟨d, p.2, c.height + 1, q, n, p.1⟩ : Entry)).filter P := by
    rw [Chain.queue, if_neg hdel, ← List.filter_append]
    rfl
  rw [hq, List.length_append]
  refine Nat.add_le_add ?_ ?_
  · refine ((hc.nodup.filter P).subperm fun e he => ?_).length_le
    have hm := (List.mem_filter.mp he).1
    have he' : e ∈ c'.queue d' c'.height := by rw [hq]; exact List.mem_append_left _ he
    have := Chain.queue_back (c.height_le_apply _) he' (hc.scheduled e hm)
    rwa [Chain.queue_apply hen (Nat.le_refl _)] at this
  · split
    · exact (List.length_filter_le _ _).trans (by rw [List.length_map])
    · next hne =>
        refine Nat.le_of_eq (List.length_eq_zero_iff.mpr (List.filter_eq_nil_iff.mpr fun e he => ?_))
        obtain ⟨p, _, rfl⟩ := List.mem_map.mp he
        simp only [P, Bool.and_eq_true, beq_iff_eq]
        exact fun hx => hne hx.1.1.symm

theorem RoomInv.land (h : RoomInv s) (hinv : Inv s) {r : Request} (hr : s.requests.row q = some r)
    (hs : send ∈ s.sends q) (hf : send.inFlight = true)
    (hen : s.chain.enabled (.land r.dataSet q send.sendNo (send.pieces.map fun p => (p.copy, p.piece))) = true) :
    RoomInv { s with
      chain := s.chain.apply (.land r.dataSet q send.sendNo (send.pieces.map fun p => (p.copy, p.piece))) } := by
  set event := Chain.Event.land r.dataSet q send.sendNo (send.pieces.map fun p => (p.copy, p.piece))
  have hpres : ∀ p ∈ send.pieces, s.chain.status r.dataSet p.piece s.chain.height = .present := by
    simp only [event, Chain.enabled, Bool.and_eq_true, List.all_eq_true, List.mem_map, beq_iff_eq] at hen
    exact fun p hp => hen.1 _ ⟨p, hp, rfl⟩
  refine h.chainStep hen ?_ fun d => ?_
  · intro e he hne
    rcases List.mem_append.mp he with he | he
    · exact absurd he hne
    · simp only [List.map_map, List.mem_map, Function.comp_apply] at he
      obtain ⟨p, hp, rfl⟩ := he
      exact ⟨r, send, ⟨hr, hs, hf, hp⟩, rfl, rfl⟩
  · have hqueue : ((s.chain.apply event).queue d (s.chain.apply event).height).length ≤
        (s.chain.queue d s.chain.height).length + if d = r.dataSet then send.pieces.length else 0 := by
      simpa using queue_land_length hinv.chain hen d
    by_cases hd : d = r.dataSet
    · subst hd
      rw [if_pos rfl] at hqueue
      -- the copies of the send could land before, and cannot land again
      set sent := (send.pieces.map fun p => (q, p.copy)).toFinset
      have hcard : sent.card = send.pieces.length := by
        have hnd := h.copies q send hs
        have hinj := (List.nodup_map_iff_inj_on (List.Nodup.of_map _ hnd)).mp hnd
        rw [List.toFinset_card_of_nodup, List.length_map]
        exact List.Nodup.map_on (fun p hp p' hp' he => hinj p hp p' hp' (congrArg Prod.snd he))
          (List.Nodup.of_map _ hnd)
      have hdisj : Disjoint (State.landable { s with chain := s.chain.apply event } r.dataSet) sent := by
        rw [Finset.disjoint_right]
        rintro x hx hland
        obtain ⟨p, hp, rfl⟩ := List.mem_map.mp (List.mem_toFinset.mp hx)
        obtain ⟨_, x', p', ⟨hr', hx', hf', hp'⟩, _, hcopy, hpres'⟩ := mem_landable.mp hland
        obtain ⟨c, hc, _, hpiece, _⟩ := Flying.copy ⟨hr, hs, hf, hp⟩ hinv
        obtain ⟨c', hc', _, hpiece', _⟩ := Flying.copy (s := s) ⟨hr', hx', hf', hp'⟩ hinv
        rw [hcopy, hc] at hc'
        cases hc'
        have hsch := (Chain.status_eq_present.mp (hpres' p' hp')).2.2
        rw [← hpiece', hpiece, Chain.scheduledBy_iff.mpr] at hsch
        · cases hsch
        · refine ⟨⟨r.dataSet, p.piece, s.chain.height + 1, q, send.sendNo, p.copy⟩, List.mem_append_right _ ?_,
            rfl, rfl, Nat.le_refl _⟩
          exact List.mem_map.mpr ⟨(p.copy, p.piece), List.mem_map.mpr ⟨p, hp, rfl⟩, rfl⟩
      have hsub : State.landable { s with chain := s.chain.apply event } r.dataSet ∪ sent ⊆ s.landable r.dataSet := by
        refine Finset.union_subset (landable_apply_subset hen _) fun x hx => ?_
        obtain ⟨p, hp, rfl⟩ := List.mem_map.mp (List.mem_toFinset.mp hx)
        exact mem_landable.mpr ⟨r, send, p, ⟨hr, hs, hf, hp⟩, rfl, rfl, hpres⟩
      have hle := Finset.card_le_card hsub
      rw [Finset.card_union_of_disjoint hdisj, hcard] at hle
      omega
    · rw [if_neg hd] at hqueue
      have hle := Finset.card_le_card (landable_apply_subset hen d)
      omega

/-! ## Every step -/

theorem RoomInv.act (h : RoomInv s) (hinv : Inv s) {r : Run} (hrun : RunInv s r)
    (hhonest : (execute r answer).honest s r = true) (hfair : (execute r answer).fair s r = true)
    (hok : ((execute r answer).run r answer).Ok s a s') : RoomInv s' := by
  have hsrc := execute_sourced (r := r) (a := answer)
  cases hcall : execute r answer with
  | markQueued block withoutSend =>
    rw [hcall] at hok hfair hsrc
    obtain ⟨hcol, st, hst, rfl⟩ := hsrc
    refine h.markQueued hinv hrun hst hcol ?_ hok
    simpa [Call.fair, hst] using hfair
  | receipt sendNo status hash reverted =>
    rw [hcall] at hok hhonest
    obtain ⟨_, t, hev, hatt⟩ := Tx.ok_bind.mp hok
    have ht : RoomInv t := by
      refine h.evidence hinv (fun hfin => ?_) hev
      cases status with
      | zero => simpa [Call.honest] using hhonest
      | succ n => cases hfin
    have hinv' := (hinv.evidence hev).inv
    exact ht.calm hinv' ((hinv'.onlyIf (fun ha => hinv'.attention ha) hatt).calm rfl)
  | admitSend input =>
    rw [hcall] at hok hsrc
    obtain ⟨hcol, st, sendNo, hst, rfl⟩ := hsrc
    exact h.admitSend hinv hrun hst hcol hok
  | _ =>
    rw [hcall] at hok hsrc
    exact h.calm hinv ((hinv.call hrun hsrc hok).calm rfl)

theorem RoomInv.action (h : RoomInv s) (hinv : Inv s) {action : Action} (hhonest : honest s action = true)
    (hfair : fair s action = true) (hok : action.tx.Ok s a s') : RoomInv s' := by
  cases action with
  | act run answer =>
    simp only [Action.tx, Tx.ok_read_bind, Tx.ok_orFail_bind] at hok
    obtain ⟨r, hr, hok⟩ := hok
    simp only [honest, hr, Option.all_some] at hhonest
    simp only [fair, hr, Option.all_some] at hfair
    exact h.act hinv (hinv.run run r hr) hhonest hfair hok
  | evidence id task sendNo what =>
    refine h.evidence hinv (fun hfin => ?_) hok
    simpa [honest, hfin] using hhonest
  | land id sendNo =>
    simp only [Action.tx, Tx.ok_read_bind, Tx.ok_orFail_bind, Tx.ok_require_bind, Tx.ok_write] at hok
    obtain ⟨r, hr, send, hfind, hen, rfl⟩ := hok
    have hno : send.sendNo = sendNo := by simpa using List.find?_some hfind
    simp only [honest, hfind, Option.all_some] at hhonest
    subst hno
    exact h.land hinv hr (List.mem_of_find?_eq_some hfind) hhonest hen
  | chain event =>
    simp only [Action.tx, Tx.ok_read_bind, Tx.ok_require_bind, Tx.ok_write, Bool.and_eq_true] at hok
    obtain ⟨⟨hev, hen⟩, rfl⟩ := hok
    refine h.quietEvent hinv hen ?_
    cases event with
    | land d q n ps => cases hev
    | _ => rfl
  | _ => exact h.calm hinv ((hinv.action hok).calm rfl)

theorem RoomInv.of_initial (h : s.Initial) : RoomInv s := by
  obtain ⟨hreq, _, _, hsends, _, _, hold, hroom⟩ := h
  have hnone : ∀ q r, s.requests.row q ≠ some r := by
    intro q r hr
    rw [hreq] at hr
    cases hr
  refine ⟨fun e he => .inl (hold e he), fun q r hr => absurd hr (hnone q r), fun q r _ hr => absurd hr (hnone q r),
    fun q send hs => ?_, fun d => ?_⟩
  · rw [hsends q] at hs
    cases hs
  have hempty : s.landable d = ∅ := by
    refine Finset.eq_empty_of_forall_notMem fun x hx => ?_
    obtain ⟨r, _, _, hfly, _⟩ := mem_landable.mp (show (x.1, x.2) ∈ _ from hx)
    exact hnone _ r hfly.row
  rw [hempty, Finset.card_empty, Nat.add_zero]
  exact hroom d

/-- The runs in which failed sends do not land and no request with a send in flight is marked as queued on
    account of an ended service. -/
def fairMachine : Lts State Action := removalMachine.restrict fun s a => honest s a && fair s a

/-- **The queue is never overfilled.** -/
theorem removal_queue_bounded (h : fairMachine.Reachable s) (d : Nat) :
    (s.chain.queue d s.chain.height).length ≤ maxEnqueuedRemovals := by
  have key : Inv s ∧ RoomInv s := by
    refine Lts.Reachable.invariant (I := fun s => Inv s ∧ RoomInv s)
      (fun s₀ h₀ => ⟨.of_initial h₀, .of_initial h₀⟩) (fun s a s' hi hs => ?_) h
    obtain ⟨hp, hstep⟩ := Lts.restrict_step hs
    obtain ⟨_, hok⟩ := Tx.after_eq_some.mp hstep
    simp only [Bool.and_eq_true] at hp
    exact ⟨(hi.1.step hstep).inv, hi.2.action hi.1 hp.1 hp.2 hok⟩
  exact (Nat.le_add_right _ _).trans (key.2.room d)

/-! ## The end of the service -/

/-- Removals that were scheduled before the first request. -/
def oldEntries (n : Nat) : List Entry := (List.range n).map fun i => ⟨9, 1000 + i, 0, 0, 0, i⟩

theorem mem_oldEntries (h : e ∈ oldEntries n) :
    e.request = 0 ∧ e.block = 0 ∧ e = ⟨9, 1000 + e.copy, 0, 0, 0, e.copy⟩ := by
  obtain ⟨i, _, rfl⟩ := List.mem_map.mp h
  exact ⟨rfl, rfl, rfl⟩

theorem oldEntries_nodup (n : Nat) : (oldEntries n).Nodup :=
  List.nodup_range.map fun _ _ h => congrArg Entry.copy h

def crowdedState : State where
  contents _ := none
  requests := Table.empty
  copies := Table.empty
  sends _ := []
  nextTask := 1
  chain := ⟨0, oldEntries 1999, [], fun _ => none, fun _ => none, fun _ => false⟩
  runs := Table.empty
  seen := []

theorem crowdedState_initial : crowdedState.Initial := by
  have hold : crowdedState.chain.scheduled = oldEntries 1999 := by simp only [crowdedState]
  refine ⟨rfl, rfl, rfl, fun _ => rfl, rfl, ⟨?_, ?_, ?_⟩, ?_, fun d => ?_⟩
  all_goals try rw [hold]
  · exact fun e he => Nat.le_of_eq (mem_oldEntries he).2.1
  · intro e he e' he' _ hp
    rw [(mem_oldEntries he).2.2, (mem_oldEntries he').2.2] at hp ⊢
    rw [show e.copy = e'.copy from Nat.add_left_cancel hp]
  · exact oldEntries_nodup 1999
  · exact fun e he => ⟨(mem_oldEntries he).1, (mem_oldEntries he).2.1⟩
  · have hle : (crowdedState.chain.queue d crowdedState.chain.height).length ≤ (oldEntries 1999).length := by
      rw [← hold, Chain.queue]
      split
      · exact Nat.zero_le _
      · exact List.length_filter_le _ _
    refine hle.trans ?_
    rw [oldEntries, List.length_map, List.length_range, maxEnqueuedRemovals]
    omega

/-- The send of the first request does not land. The second one passes its check of the service; then the service
    ends, and the first request is marked as queued under the block it had seen before. So the second one finds
    nothing in flight and sends; both land. -/
def overfull : List Action :=
  [.claimContent 5 (some ⟨1, some 7⟩), .snapshotCopy 5 9 1, .snapshotCopy 5 9 2,
    .join ⟨5, 1, 7, 9, [1]⟩, .openRun 1 1, .act 1 { sealNow := true },
    .openRun 1 1, .listSends 2, .snapshotChain 2 0, .readPreflight 2 false false, .act 2 {},
    .join ⟨5, 1, 7, 9, [2]⟩, .openRun 2 2, .act 3 { sealNow := true },
    .openRun 2 2, .listSends 4, .snapshotChain 4 0, .readPreflight 4 false false,
    .openRun 1 1, .listSends 5, .snapshotChain 5 0,
    .chain (.endService 9),
    .readPreflight 5 false false, .act 5 {},
    .act 4 {},
    .land 1 1, .land 2 1]

def filling : List Action := overfull.take 11 ++ [.land 1 1]

theorem removal_queue_bounded_full : ∃ s : State, (s.chain.queue 9 s.chain.height).length = 2000 ∧
      (s.chain.queue 9 s.chain.height).length ≤ maxEnqueuedRemovals := by
  refine ⟨(fairMachine.run crowdedState filling).getD crowdedState, by decide +kernel, ?_⟩
  refine removal_queue_bounded ?_ 9
  exact (Lts.Reachable.of_init crowdedState_initial).of_run_isSome (by decide +kernel)

/-- **With an ended service the queue can be overfilled**, although no failed send ever lands. -/
theorem ended_service_overfills : ∃ s, (removalMachine.restrict honest).Reachable s ∧
      maxEnqueuedRemovals < (s.chain.queue 9 s.chain.height).length := by
  refine ⟨((removalMachine.restrict honest).run crowdedState overfull).getD crowdedState,
    (Lts.Reachable.of_init crowdedState_initial).of_run_isSome (by decide +kernel), by decide +kernel⟩

end SynapS3.Removal
