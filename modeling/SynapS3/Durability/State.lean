import Mathlib.Data.List.Dedup
import SynapS3.Pipeline.Copy

/-!
# `Durability.State` — the reported state of a content

A version's state is not stored: it is derived from the copies of its content by a query, which compares the readable
slots with the content's target. The cache may be released once the bucket's minimum of durable replicas is readable,
and the documentation puts `stored` there too. Between the minimum and the target a content is `replicating` and may
be released.
-/

namespace SynapS3.Durability
open Pipeline (CopyStatus)

/-! ## The rows -/

inductive DataSetStatus where
  | pending
  | creating
  | ready
  | draining
  | retired
  deriving DecidableEq

/-- `model.StorageDataSet`: the slot it has, and its generation there. -/
structure DataSet where
  copyIndex : Nat
  generation : Nat
  dataSetID : Option String
  status : DataSetStatus
  deriving DecidableEq

/-- `model.StorageCopy`. -/
structure Copy where
  dataSet : Nat
  provider : String
  status : CopyStatus
  pieceID : Option String
  retrievalURL : Option String
  deriving DecidableEq

/-- A content with its bucket, its copies and the data sets, under the constraints of the database. -/
structure Content where
  requestedCopies : Nat
  minimumDurableCopies : Nat
  dataSets : Nat → Option DataSet
  copies : List Copy
  requested_pos : 1 ≤ requestedCopies
  minimum_pos : 1 ≤ minimumDurableCopies
  bound : ∀ c ∈ copies, (dataSets c.dataSet).isSome = true
  distinct : (copies.map Copy.dataSet).Nodup
  /-- `chk_storage_copies_committed_shape`. -/
  committed_shape : ∀ c ∈ copies, c.status = .committed →
    (c.pieceID ≠ none ∧ c.pieceID ≠ some "") ∧ c.retrievalURL ≠ none ∧ c.retrievalURL ≠ some ""
  /-- `chk_storage_data_sets_ready_identity`. -/
  ready_identity : ∀ id d, dataSets id = some d → d.status = .ready → d.dataSetID ≠ none

/-! ## The queries -/

def present (text : Option String) : Bool := text.any (· ≠ "")

/-- `readableCommittedCopyPredicateSQL`. -/
def readable (c : Copy) (d : DataSet) : Bool :=
  c.status == .committed && c.provider != "" && present d.dataSetID && (d.status == .ready || d.status == .draining) &&
    present c.pieceID && present c.retrievalURL

def Content.joined (x : Content) : List (Copy × DataSet) :=
  x.copies.filterMap fun c => (x.dataSets c.dataSet).map fun d => (c, d)

/-- `COUNT(DISTINCT copy_index)` over the rows that the condition keeps. -/
def distinctSlots (rows : List (Copy × DataSet)) : Nat := (rows.map fun r => r.2.copyIndex).dedup.length

/-- `distinctReadableSlotCountSQL`. -/
def Content.readableSlots (x : Content) : Nat := distinctSlots (x.joined.filter fun r => readable r.1 r.2)

inductive ObjectState where
  | cached
  | uploading
  | committing
  | replicating
  | stored
  | failed
  deriving DecidableEq

/-- `contentPipelineStateFromFactsSQL`. -/
def contentPipelineStateFromFacts (requestedCopies readableSlots : Nat) (anyCopy everyCopyFailed committing : Bool) :
    ObjectState :=
  if requestedCopies ≤ readableSlots then .stored
  else if 1 ≤ readableSlots then .replicating
  else if anyCopy && everyCopyFailed then .failed
  else if committing then .committing
  else if anyCopy then .uploading
  else .cached

def Copy.registering (c : Copy) : Bool := c.status == .pieceReady || c.status == .committing

/-- `contentPipelineStateSQL`, with a subquery for each fact. -/
def Content.pipelineState (x : Content) : ObjectState :=
  contentPipelineStateFromFacts x.requestedCopies x.readableSlots (!x.copies.isEmpty)
    (!x.copies.any fun c => c.status != .failed) (x.copies.any Copy.registering)

/-- The state in `aggregateCurrentObjects`, with all facts from one pass over the joined rows. -/
def Content.aggregateState (x : Content) : ObjectState :=
  contentPipelineStateFromFacts x.requestedCopies (distinctSlots (x.joined.filter fun r => readable r.1 r.2))
    (decide (0 < x.joined.length)) (decide ((x.joined.filter fun r => r.1.status != .failed).length = 0))
    (x.joined.any fun r => r.1.registering)

def minimumDurableCopiesForUpload (minimumDurableCopies requestedCopies : Nat) : Nat :=
  if requestedCopies = 0 then 0
  else if requestedCopies ≤ minimumDurableCopies then requestedCopies
  else minimumDurableCopies

/-- `requireMinimumDurability` accepts. -/
def Content.durable (x : Content) : Bool :=
  let minimum := minimumDurableCopiesForUpload x.minimumDurableCopies x.requestedCopies
  decide (0 < minimum) && decide (minimum ≤ x.readableSlots)

/-- `minimumDurabilityMetSQL`. -/
def Content.durabilityMet (x : Content) : Bool :=
  decide ((if x.requestedCopies ≤ x.minimumDurableCopies then x.requestedCopies
    else x.minimumDurableCopies) ≤ x.readableSlots)

/-! ## What they say -/

def Content.threshold (x : Content) : Nat := min x.minimumDurableCopies x.requestedCopies

theorem minimumDurableCopiesForUpload_eq {minimum requested : Nat} (h : 1 ≤ requested) :
    minimumDurableCopiesForUpload minimum requested = min minimum requested := by
  unfold minimumDurableCopiesForUpload
  rw [if_neg (Nat.ne_of_gt h)]
  split
  · next hle => exact (Nat.min_eq_right hle).symm
  · next hlt => exact (Nat.min_eq_left (Nat.le_of_lt (Nat.lt_of_not_le hlt))).symm

/-- The cache may be released exactly under the documented rule. -/
theorem Content.durable_iff (x : Content) : x.durable = true ↔ x.threshold ≤ x.readableSlots := by
  have hpos : 0 < min x.minimumDurableCopies x.requestedCopies := Nat.lt_min.mpr ⟨x.minimum_pos, x.requested_pos⟩
  unfold Content.durable
  rw [minimumDurableCopiesForUpload_eq x.requested_pos]
  simp [Content.threshold, hpos]

theorem Content.map_joined (x : Content) : x.joined.map Prod.fst = x.copies := by
  have hall : ∀ l : List Copy, (∀ c ∈ l, (x.dataSets c.dataSet).isSome = true) →
      (l.filterMap fun c => (x.dataSets c.dataSet).map fun d => (c, d)).map Prod.fst = l := by
    intro l
    induction l with
    | nil => intro _; rfl
    | cons c l ih =>
      intro h
      obtain ⟨d, hd⟩ := Option.isSome_iff_exists.mp (h c List.mem_cons_self)
      rw [List.filterMap_cons_some (b := (c, d)) (by rw [hd]; rfl), List.map_cons,
        ih fun c' hc' => h c' (List.mem_cons_of_mem c hc')]
  exact hall x.copies x.bound

theorem Content.aggregateState_eq (x : Content) : x.aggregateState = x.pipelineState := by
  have hlen : x.joined.length = x.copies.length := by rw [← x.map_joined, List.length_map]
  have hany : ∀ p : Copy → Bool, (x.joined.any fun r => p r.1) = x.copies.any p := by
    intro p
    rw [← x.map_joined, List.any_map]
    rfl
  have hfilter : decide ((x.joined.filter fun r => r.1.status != .failed).length = 0) =
      !x.copies.any fun c => c.status != .failed := by
    rw [← hany fun c => c.status != .failed, Bool.eq_iff_iff]
    simp [List.filter_eq_nil_iff]
  have hempty : decide (0 < x.joined.length) = !x.copies.isEmpty := by
    rw [hlen, Bool.eq_iff_iff]
    simp [List.length_pos_iff]
  unfold Content.aggregateState Content.pipelineState
  rw [hfilter, hempty, hany Copy.registering]
  rfl

theorem contentPipelineStateFromFacts_cases (requested slots : Nat) (anyCopy everyCopyFailed committing : Bool) :
    (contentPipelineStateFromFacts requested slots anyCopy everyCopyFailed committing = .stored ↔ requested ≤ slots) ∧
    (contentPipelineStateFromFacts requested slots anyCopy everyCopyFailed committing = .replicating ↔
      1 ≤ slots ∧ slots < requested) ∧
    (contentPipelineStateFromFacts requested slots anyCopy everyCopyFailed committing = .failed →
      anyCopy = true ∧ everyCopyFailed = true) := by
  unfold contentPipelineStateFromFacts
  by_cases hs : requested ≤ slots
  · simp only [if_pos hs]
    refine ⟨⟨fun _ => hs, fun _ => trivial⟩, ⟨nofun, fun h => ?_⟩, nofun⟩
    omega
  by_cases hr : 1 ≤ slots
  · simp only [if_neg hs, if_pos hr]
    refine ⟨⟨nofun, fun h => absurd h hs⟩, ⟨fun _ => ⟨hr, Nat.lt_of_not_le hs⟩, fun _ => trivial⟩, nofun⟩
  · simp only [if_neg hs, if_neg hr]
    -- no slot is readable, and what is left are the copies under way
    cases anyCopy <;> cases everyCopyFailed <;> cases committing <;> simp [hs, hr]

/-- **Both reports are about the target**: `stored` is the content whose readable slots reach the requested copies, and
    `replicating` the one with some, but fewer. The cache may be released at the documented minimum, so what is
    stored may be released, and the two rules differ exactly between the minimum and the target. -/
theorem reported_state_agrees (x : Content) : x.aggregateState = x.pipelineState ∧
    (x.pipelineState = .stored ↔ x.requestedCopies ≤ x.readableSlots) ∧
    (x.pipelineState = .replicating ↔ 1 ≤ x.readableSlots ∧ x.readableSlots < x.requestedCopies) ∧
    (x.pipelineState = .failed → x.copies ≠ [] ∧ ∀ c ∈ x.copies, c.status = .failed) ∧
    (x.durable = true ↔ min x.minimumDurableCopies x.requestedCopies ≤ x.readableSlots) ∧
    (x.pipelineState = .stored → x.durable = true) ∧
    ((x.pipelineState = .stored ↔ x.durable = true) ↔
      ¬ (x.minimumDurableCopies ≤ x.readableSlots ∧ x.readableSlots < x.requestedCopies)) := by
  obtain ⟨hstored, hrepl, hfailed⟩ := contentPipelineStateFromFacts_cases x.requestedCopies x.readableSlots
    (!x.copies.isEmpty) (!x.copies.any fun c => c.status != .failed) (x.copies.any Copy.registering)
  have hstored : x.pipelineState = .stored ↔ x.requestedCopies ≤ x.readableSlots := hstored
  have hdurable : x.durable = true ↔ min x.minimumDurableCopies x.requestedCopies ≤ x.readableSlots := x.durable_iff
  refine ⟨x.aggregateState_eq, hstored, hrepl, fun hf => ?_, hdurable, ?_, ?_⟩
  · obtain ⟨hany, hall⟩ := hfailed hf
    have hfailed : ∀ c ∈ x.copies, c.status = .failed := by simpa using hall
    exact ⟨by simpa using hany, hfailed⟩
  · rw [hstored, hdurable]
    omega
  · rw [hstored, hdurable]
    omega

/-! ## A content between the minimum and the target -/

def readyCopy (dataSet : Nat) : Copy := ⟨dataSet, "provider", .committed, some "piece", some "url"⟩

/-- One readable replica of two, in a bucket whose minimum is one. -/
def oneOfTwo : Content where
  requestedCopies := 2
  minimumDurableCopies := 1
  dataSets id := if id = 1 then some ⟨0, 1, some "data set", .ready⟩ else none
  copies := [readyCopy 1]
  requested_pos := by decide
  minimum_pos := Nat.zero_lt_one
  bound := by simp [readyCopy]
  distinct := by simp
  committed_shape := by simp [readyCopy]
  ready_identity := by
    intro id d hd _
    split at hd <;> cases hd
    nofun

theorem durable_content_reported_replicating :
    oneOfTwo.threshold ≤ oneOfTwo.readableSlots ∧ oneOfTwo.durable = true ∧ oneOfTwo.pipelineState = .replicating := by
  decide

end SynapS3.Durability
