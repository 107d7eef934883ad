import Mathlib.Data.List.Nodup

/-!
# `Removal.Chain` — the verifier contract as the node sees it

A piece of a data set is present until a transaction schedules its removal; the provider's next proving period
drains the queue and the piece is gone. A data set as a whole may be deleted: its pieces then leave the queue
at once, and the batched cleanup that follows forgets them. The node reads all of this at one block
(`status`, `queue`), which may lie in the past, so the chain is kept as the *times* at which things happened.

Every event opens a block of its own. A real block with several transactions is a stretch of such blocks
in which nobody looks; the order of the blocks that are looked at is the same.
-/

namespace SynapS3.Removal

inductive PieceStatus where
  | present
  | scheduled
  | removed
  | dataSetCleanup
  deriving DecidableEq

/-- A removal that was scheduled, with the send that scheduled it and the cleanup copy it was for. -/
structure Entry where
  dataSet : Nat
  piece : Nat
  block : Nat
  request : Nat
  sendNo : Nat
  copy : Nat
  deriving DecidableEq

/-- The chain. `removals` lists data set, piece and block of the pieces that were drained. -/
structure Chain where
  height : Nat
  scheduled : List Entry
  removals : List (Nat × Nat × Nat)
  /-- The block in which the data set was deleted. -/
  deleted : Nat → Option Nat
  /-- The block in which the cleanup of a deleted data set finished. -/
  cleared : Nat → Option Nat
  /-- The service of the data set has an end epoch. -/
  ended : Nat → Bool

namespace Chain

def deletedBy (c : Chain) (d b : Nat) : Bool := (c.deleted d).any (· ≤ b)

def clearedBy (c : Chain) (d b : Nat) : Bool := (c.cleared d).any (· ≤ b)

def removedBy (c : Chain) (d p b : Nat) : Bool :=
  c.removals.any fun r => r.1 == d && r.2.1 == p && decide (r.2.2 ≤ b)

def scheduledBy (c : Chain) (d p b : Nat) : Bool :=
  c.scheduled.any fun e => e.dataSet == d && e.piece == p && decide (e.block ≤ b)

/-- What `ObserveCleanupPieces` finds for a piece at block `b`. -/
def status (c : Chain) (d p b : Nat) : PieceStatus :=
  if c.deletedBy d b then if c.clearedBy d b then .removed else .dataSetCleanup
  else if c.removedBy d p b then .removed
  else if c.scheduledBy d p b then .scheduled
  else .present

/-- `getScheduledRemovals` at block `b`; a deleted data set has none. -/
def queue (c : Chain) (d b : Nat) : List Entry :=
  if c.deletedBy d b then []
  else c.scheduled.filter fun e =>
    e.dataSet == d && decide (e.block ≤ b) && !c.removedBy d e.piece b

inductive Event where
  /-- A transaction schedules pieces, given with their cleanup copies. -/
  | land (dataSet request sendNo : Nat) (pieces : List (Nat × Nat))
  | drain (dataSet piece : Nat)
  | delete (dataSet : Nat)
  | clear (dataSet : Nat)
  | endService (dataSet : Nat)
  deriving DecidableEq

/-- An event is possible: a transaction that names a piece twice, or one that is scheduled or gone, reverts
    as a whole; only scheduled pieces are drained. -/
def enabled (c : Chain) : Event → Bool
  | .land d _ _ ps =>
    ps.all (fun p => c.status d p.2 c.height == .present) && decide ((ps.map Prod.snd).Nodup)
  | .drain d p => c.status d p c.height == .scheduled
  | .delete d => (c.deleted d).isNone
  | .clear d => c.deletedBy d c.height && (c.cleared d).isNone
  | .endService _ => true

def apply (c : Chain) : Event → Chain
  | .land d r n ps =>
    { c with
      height := c.height + 1
      scheduled := c.scheduled ++ ps.map fun p => ⟨d, p.2, c.height + 1, r, n, p.1⟩ }
  | .drain d p => { c with height := c.height + 1, removals := (d, p, c.height + 1) :: c.removals }
  | .delete d =>
    { c with
      height := c.height + 1
      deleted := fun i => if i = d then some (c.height + 1) else c.deleted i }
  | .clear d =>
    { c with
      height := c.height + 1
      cleared := fun i => if i = d then some (c.height + 1) else c.cleared i }
  | .endService d =>
    { c with height := c.height + 1, ended := fun i => if i = d then true else c.ended i }

/-! ## What time does to a piece -/

section
variable {c : Chain} {d p b b' : Nat}

theorem deletedBy_mono (h : b ≤ b') (hd : c.deletedBy d b = true) : c.deletedBy d b' = true := by
  simp only [deletedBy, Option.any_eq_true, decide_eq_true_eq] at hd ⊢
  obtain ⟨x, hx, hle⟩ := hd
  exact ⟨x, hx, by omega⟩

theorem removedBy_iff : c.removedBy d p b = true ↔ ∃ n, (d, p, n) ∈ c.removals ∧ n ≤ b := by
  simp only [removedBy, List.any_eq_true, Bool.and_eq_true, beq_iff_eq, decide_eq_true_eq]
  constructor
  · rintro ⟨⟨d', p', n⟩, hm, ⟨rfl, rfl⟩, hn⟩
    exact ⟨n, hm, hn⟩
  · rintro ⟨n, hm, hn⟩
    exact ⟨(d, p, n), hm, ⟨rfl, rfl⟩, hn⟩

theorem removedBy_mono (h : b ≤ b') (hr : c.removedBy d p b = true) : c.removedBy d p b' = true := by
  obtain ⟨n, hm, hn⟩ := removedBy_iff.mp hr
  exact removedBy_iff.mpr ⟨n, hm, by omega⟩

theorem scheduledBy_iff :
    c.scheduledBy d p b = true ↔ ∃ e ∈ c.scheduled, e.dataSet = d ∧ e.piece = p ∧ e.block ≤ b := by
  simp only [scheduledBy, List.any_eq_true, Bool.and_eq_true, beq_iff_eq, decide_eq_true_eq, and_assoc]

theorem scheduledBy_mono (h : b ≤ b') (hs : c.scheduledBy d p b = true) : c.scheduledBy d p b' = true := by
  obtain ⟨e, hm, hd, hp, hb⟩ := scheduledBy_iff.mp hs
  exact scheduledBy_iff.mpr ⟨e, hm, hd, hp, by omega⟩

theorem status_eq_present : c.status d p b = .present ↔
      c.deletedBy d b = false ∧ c.removedBy d p b = false ∧ c.scheduledBy d p b = false := by
  unfold status
  cases c.deletedBy d b <;> cases c.clearedBy d b <;> cases c.removedBy d p b <;>
    cases c.scheduledBy d p b <;> simp

theorem status_eq_removed : c.status d p b = .removed ↔
      (c.deletedBy d b = true ∧ c.clearedBy d b = true) ∨
        (c.deletedBy d b = false ∧ c.removedBy d p b = true) := by
  unfold status
  cases c.deletedBy d b <;> cases c.clearedBy d b <;> cases c.removedBy d p b <;>
    cases c.scheduledBy d p b <;> simp

theorem present_mono (h : b ≤ b') (hp : c.status d p b' = .present) : c.status d p b = .present := by
  obtain ⟨hd, hr, hs⟩ := status_eq_present.mp hp
  refine status_eq_present.mpr ⟨?_, ?_, ?_⟩ <;> rw [← Bool.not_eq_true]
  · exact fun hx => by rw [deletedBy_mono h hx] at hd; cases hd
  · exact fun hx => by rw [removedBy_mono h hx] at hr; cases hr
  · exact fun hx => by rw [scheduledBy_mono h hx] at hs; cases hs

variable {e : Entry}

theorem mem_queue : e ∈ c.queue d b ↔ c.deletedBy d b = false ∧ e ∈ c.scheduled ∧ e.dataSet = d ∧ e.block ≤ b ∧
      c.removedBy d e.piece b = false := by
  unfold queue
  cases c.deletedBy d b
  · simp [and_assoc]
  · simp

theorem queue_back (h : b ≤ b') (he : e ∈ c.queue d b') (hb : e.block ≤ b) : e ∈ c.queue d b := by
  obtain ⟨hd, hm, hds, _, hr⟩ := mem_queue.mp he
  refine mem_queue.mpr ⟨?_, hm, hds, hb, ?_⟩ <;> rw [← Bool.not_eq_true]
  · exact fun hx => by rw [deletedBy_mono h hx] at hd; cases hd
  · exact fun hx => by rw [removedBy_mono h hx] at hr; cases hr

theorem not_queued_of_removed (h : b ≤ b') (hr : c.status d e.piece b = .removed) : e ∉ c.queue d b' := by
  intro he
  obtain ⟨hd, _, _, _, hq⟩ := mem_queue.mp he
  rcases status_eq_removed.mp hr with ⟨hx, _⟩ | ⟨_, hx⟩
  · rw [deletedBy_mono h hx] at hd; cases hd
  · rw [removedBy_mono h hx] at hq; cases hq

end

/-! ## The past does not change

The chain's lists only speak of blocks up to its height (`Sound`), and an event adds to the next block. -/

/-- Everything on record happened in a block that exists. -/
structure Sound (c : Chain) : Prop where
  scheduled : ∀ e ∈ c.scheduled, e.block ≤ c.height
  distinct : ∀ e ∈ c.scheduled, ∀ e' ∈ c.scheduled, e.dataSet = e'.dataSet → e.piece = e'.piece → e = e'
  nodup : c.scheduled.Nodup

theorem height_le_apply (c : Chain) (ev : Event) : c.height ≤ (c.apply ev).height := by
  cases ev <;> exact Nat.le_succ _

theorem Sound.apply {c : Chain} (h : c.Sound) {ev : Event} (hen : c.enabled ev = true) : (c.apply ev).Sound := by
  cases ev with
  | land d r n ps =>
    simp only [enabled, Bool.and_eq_true, List.all_eq_true, beq_iff_eq, decide_eq_true_eq] at hen
    obtain ⟨hpres, hnd⟩ := hen
    -- no old entry names a piece that is still present
    have hnew : ∀ e ∈ c.scheduled, ∀ p ∈ ps, e.dataSet = d → e.piece ≠ p.2 := by
      intro e he p hp hd hpe
      have hs := (status_eq_present.mp (hpres p hp)).2.2
      rw [scheduledBy_iff.mpr ⟨e, he, hd, hpe, h.scheduled e he⟩] at hs
      cases hs
    refine ⟨?_, ?_, ?_⟩
    · intro e he
      simp only [Chain.apply, List.mem_append, List.mem_map] at he ⊢
      rcases he with he | ⟨p, _, rfl⟩
      · exact Nat.le_succ_of_le (h.scheduled e he)
      · exact Nat.le_refl _
    · intro e he e' he' hd hp
      simp only [Chain.apply, List.mem_append, List.mem_map] at he he'
      rcases he with he | ⟨p, hpm, rfl⟩ <;> rcases he' with he' | ⟨q, hqm, rfl⟩
      · exact h.distinct e he e' he' hd hp
      · exact absurd hp (hnew e he q hqm hd)
      · exact absurd hp.symm (hnew e' he' p hpm hd.symm)
      · have : p = q := List.inj_on_of_nodup_map hnd hpm hqm hp
        rw [this]
    · simp only [Chain.apply]
      refine List.nodup_append.mpr ⟨h.nodup, ?_, ?_⟩
      · exact List.Nodup.map_on
          (fun p hpm q hqm he => List.inj_on_of_nodup_map hnd hpm hqm (congrArg Entry.piece he))
          (List.Nodup.of_map _ hnd)
      · intro e he e' he' heq
        obtain ⟨p, hpm, rfl⟩ := List.mem_map.mp he'
        exact hnew e he p hpm (congrArg Entry.dataSet heq) (congrArg Entry.piece heq)
  | drain d p | delete d | clear d =>
    exact ⟨fun e he => Nat.le_succ_of_le (h.scheduled e he), h.distinct, h.nodup⟩
  | endService d => exact ⟨fun e he => Nat.le_succ_of_le (h.scheduled e he), h.distinct, h.nodup⟩

section
variable {c : Chain} {ev : Event} {d p b : Nat}

theorem deletedBy_apply (hen : c.enabled ev = true) (hb : b ≤ c.height) :
    (c.apply ev).deletedBy d b = c.deletedBy d b := by
  cases ev with
  | delete d' =>
    simp only [enabled, Option.isNone_iff_eq_none] at hen
    simp only [Chain.apply, deletedBy]
    split
    · next hd => subst hd; simp [hen]; omega
    · rfl
  | _ => rfl

theorem clearedBy_apply (hen : c.enabled ev = true) (hb : b ≤ c.height) :
    (c.apply ev).clearedBy d b = c.clearedBy d b := by
  cases ev with
  | clear d' =>
    simp only [enabled, Bool.and_eq_true, Option.isNone_iff_eq_none] at hen
    simp only [Chain.apply, clearedBy]
    split
    · next hd => subst hd; simp [hen.2]; omega
    · rfl
  | _ => rfl

theorem removedBy_apply (hb : b ≤ c.height) : (c.apply ev).removedBy d p b = c.removedBy d p b := by
  cases ev with
  | drain d' p' =>
    simp only [Chain.apply, removedBy, List.any_cons]
    have hlate : decide (c.height + 1 ≤ b) = false := decide_eq_false (by omega)
    rw [hlate, Bool.and_false, Bool.false_or]
  | _ => rfl

theorem scheduledBy_apply (hb : b ≤ c.height) : (c.apply ev).scheduledBy d p b = c.scheduledBy d p b := by
  cases ev with
  | land d' r n ps =>
    simp only [Chain.apply, scheduledBy, List.any_append, List.any_map]
    have hnone : (ps.any ((fun e : Entry => e.dataSet == d && e.piece == p && decide (e.block ≤ b)) ∘
        fun q => ⟨d', q.2, c.height + 1, r, n, q.1⟩)) = false := by
      simp only [List.any_eq_false, Function.comp_apply, Bool.and_eq_true, decide_eq_true_eq]
      intro q _ h
      omega
    rw [hnone, Bool.or_false]
  | _ => rfl

theorem status_apply (hen : c.enabled ev = true) (hb : b ≤ c.height) :
    (c.apply ev).status d p b = c.status d p b := by
  simp only [status, deletedBy_apply hen hb, clearedBy_apply hen hb, removedBy_apply hb, scheduledBy_apply hb]

theorem queue_apply (hen : c.enabled ev = true) (hb : b ≤ c.height) : (c.apply ev).queue d b = c.queue d b := by
  simp only [queue, deletedBy_apply hen hb, removedBy_apply hb]
  split
  · rfl
  cases ev with
  | land d' r n ps =>
    rw [show (c.apply (.land d' r n ps)).scheduled = c.scheduled ++
      ps.map (fun q => ⟨d', q.2, c.height + 1, r, n, q.1⟩) from rfl, List.filter_append]
    have hnone : (ps.map fun q => (⟨d', q.2, c.height + 1, r, n, q.1⟩ : Entry)).filter (fun e =>
        e.dataSet == d && decide (e.block ≤ b) && !c.removedBy d e.piece b) = [] := by
      refine List.filter_eq_nil_iff.mpr fun e he => ?_
      obtain ⟨q, _, rfl⟩ := List.mem_map.mp he
      simp only [Bool.and_eq_true, decide_eq_true_eq]
      intro h
      omega
    rw [hnone, List.append_nil]
  | _ => rfl

end

end Chain

end SynapS3.Removal
