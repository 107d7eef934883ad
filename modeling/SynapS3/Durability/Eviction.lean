import SynapS3.Durability.State

/-!
# `Durability.Eviction` — the three places that say when the bytes of a content may go

The query that looks for candidates and the one that releases a quarantined file are composed of the same SQL
fragments. `AuthorizeDeletion` decides again, in Go over counted rows, when the file is about to be deleted.
-/

namespace SynapS3.Durability
open Pipeline (CopyStatus TransferMethod)

/-- `model.StorageCopy`, with the columns that tell whether its Store may still need the file. -/
structure CopyRow extends Copy where
  transferMethod : TransferMethod
  commitPosition : Option Nat

inductive ItemStatus where
  | pending
  | copied
  | cancelled
  | attention
  deriving DecidableEq

inductive ReplacementStatus where
  | preparingTarget
  | migrating
  | waiting
  | retiring
  | cleanupAttention
  | failed
  | completed
  | superseded
  deriving DecidableEq

/-- `model.ObjectCache`. Times are in nanoseconds. -/
structure CacheEntry where
  inCache : Bool
  cacheAccessedAt : Option Int
  cacheOperationGeneration : Nat
  cacheActiveTaskID : Option Nat
  createdAt : Int

/-- A content with all that the decision reads: its cache entry, its copies, the versions that name it and the
    replacement items that want it, each with the status of its replacement. -/
structure Stored extends Content where
  contentSize : Nat
  entry : Option CacheEntry
  rows : List CopyRow
  rows_copies : rows.map CopyRow.toCopy = copies
  versions : Nat
  items : List (ItemStatus × ReplacementStatus)

/-! ## The queries -/

def Stored.unfinishedStore (x : Stored) (c : CopyRow) : Bool :=
  (c.status == .pending || c.status == .pieceReady || c.status == .committing) &&
    (c.transferMethod == .ingress || c.transferMethod == .cacheRestore) &&
    (c.commitPosition.isSome || decide (0 < x.versions))

def unfinishedItem (i : ItemStatus × ReplacementStatus) : Bool :=
  (i.1 == .pending || i.1 == .attention) && !(i.2 == .completed || i.2 == .superseded)

/-- `noUnfinishedStoreCacheDependencySQL`. -/
def Stored.noUnfinishedStore (x : Stored) : Bool := !x.rows.any x.unfinishedStore

/-- `noUnfinishedReplacementCacheDependencySQL`. -/
def Stored.noUnfinishedReplacement (x : Stored) : Bool := !x.items.any unfinishedItem

/-- `safeCacheEvictionQuery` finds the content. -/
def Stored.safeCacheEviction (x : Stored) : Bool :=
  x.entry.any (·.inCache) && decide (0 < x.contentSize) && x.durabilityMet && x.noUnfinishedStore &&
    x.noUnfinishedReplacement

/-- The condition of `DeleteQuarantinedIfSafe`. -/
def Stored.quarantineReleasable (x : Stored) : Bool :=
  x.durabilityMet && x.noUnfinishedStore && x.noUnfinishedReplacement

/-! ## The last check -/

inductive AuthorizeError where
  | invalidInput
  | notFound
  | conflict
  | noLongerEligible
  | accessChanged
  | durabilityThreshold
  deriving DecidableEq

def normalizeAccessTime (t : Int) : Int := t / 1000

def cacheAccessTime (entry : CacheEntry) : Int := entry.cacheAccessedAt.getD entry.createdAt

/-- `AuthorizeDeletion`. The content and its bucket are there: they are what the entry refers to. -/
def authorizeDeletion (x : Stored) (generation taskID : Nat) (expectedAccess : Option Int) :
    Except AuthorizeError Unit :=
  if generation < 1 ∨ taskID < 1 then .error .invalidInput
  else match x.entry with
  | none => .error .notFound
  | some entry =>
    if entry.cacheOperationGeneration ≠ generation ∨ entry.cacheActiveTaskID ≠ some taskID then .error .conflict
    else if entry.inCache = false then .error .noLongerEligible
    else if expectedAccess.any fun t => normalizeAccessTime (cacheAccessTime entry) ≠ normalizeAccessTime t then
      .error .accessChanged
    else if 0 < x.items.countP unfinishedItem then .error .noLongerEligible
    else if 0 < x.rows.countP x.unfinishedStore then .error .noLongerEligible
    else if x.durable then .ok ()
    else .error .durabilityThreshold

/-- The eviction of `x` is owned by the task, and the access time is as it expects. -/
structure Owned (x : Stored) (generation taskID : Nat) (expectedAccess : Option Int) : Prop where
  input : 1 ≤ generation ∧ 1 ≤ taskID
  entry : ∃ entry, x.entry = some entry ∧ entry.inCache = true ∧ entry.cacheOperationGeneration = generation ∧
    entry.cacheActiveTaskID = some taskID ∧
    ∀ t, expectedAccess = some t → normalizeAccessTime (cacheAccessTime entry) = normalizeAccessTime t

/-- The threshold in Go is the one in SQL. -/
theorem Content.durable_eq (x : Content) : x.durable = x.durabilityMet := by
  rw [Bool.eq_iff_iff, x.durable_iff, Content.durabilityMet, decide_eq_true_iff, Content.threshold]
  split
  · next h => rw [Nat.min_eq_right h]
  · next h => rw [Nat.min_eq_left (Nat.le_of_not_le h)]

theorem countP_pos_eq {α : Type} (l : List α) (p : α → Bool) : (0 < l.countP p) = (l.any p = true) := by
  rw [List.countP_pos_iff, List.any_eq_true]

theorem authorizeDeletion_owned {x : Stored} {generation taskID : Nat} {expectedAccess : Option Int}
    (h : Owned x generation taskID expectedAccess) :
    authorizeDeletion x generation taskID expectedAccess = .ok () ↔ x.quarantineReleasable = true := by
  obtain ⟨⟨hgen, htask⟩, entry, hentry, hin, howned, hactive, haccess⟩ := h
  have hinput : ¬ (generation < 1 ∨ taskID < 1) := by omega
  have hsame : ¬ (expectedAccess.any fun t =>
      normalizeAccessTime (cacheAccessTime entry) ≠ normalizeAccessTime t) = true := by
    intro hany
    obtain ⟨t, ht, hne⟩ := (Option.any_eq_true ..).mp hany
    exact of_decide_eq_true hne (haccess t ht)
  simp only [authorizeDeletion, if_neg hinput, hentry, howned, hactive, ne_eq, not_true_eq_false, or_self, if_false,
    hin, Bool.true_eq_false, hsame, countP_pos_eq, x.durable_eq, Stored.quarantineReleasable, Stored.noUnfinishedStore,
    Stored.noUnfinishedReplacement]
  cases x.items.any unfinishedItem <;> cases x.rows.any x.unfinishedStore <;> cases x.durabilityMet <;> simp

/-- **Candidates and the last check agree**, and the query for quarantined files asks all that the query for
    candidates does but the residency. -/
theorem eviction_checks_agree (x : Stored) (hsize : 0 < x.contentSize) :
    (∀ generation taskID expectedAccess, Owned x generation taskID expectedAccess →
      (authorizeDeletion x generation taskID expectedAccess = .ok () ↔ x.safeCacheEviction = true)) ∧
    x.safeCacheEviction = (x.entry.any (·.inCache) && x.quarantineReleasable) := by
  have hquery : x.safeCacheEviction = (x.entry.any (·.inCache) && x.quarantineReleasable) := by
    simp only [Stored.safeCacheEviction, Stored.quarantineReleasable, hsize, decide_true, Bool.and_true, Bool.and_assoc]
  refine ⟨fun generation taskID expectedAccess h => ?_, hquery⟩
  obtain ⟨entry, hentry, hin, -⟩ := h.entry
  rw [authorizeDeletion_owned h, hquery, hentry, Option.any_some, hin, Bool.true_and]

/-- A content in the cache with one readable replica, and an eviction by task 7. -/
def evictable : Stored where
  toContent := oneOfTwo
  contentSize := 3
  entry := some ⟨true, none, 1, some 7, 0⟩
  rows := [⟨readyCopy 1, .ingress, none⟩]
  rows_copies := rfl
  versions := 1
  items := [(.copied, .migrating)]

theorem eviction_checks_agree_evictable : authorizeDeletion evictable 1 7 (some 999) = .ok () ∧
      (authorizeDeletion evictable 1 7 (some 999) = .ok () ↔ evictable.safeCacheEviction = true) := by
  have howned : Owned evictable 1 7 (some 999) :=
    ⟨by decide, _, rfl, rfl, rfl, rfl, fun t ht => by cases ht; decide⟩
  exact ⟨rfl, (eviction_checks_agree evictable (by decide)).1 1 7 _ howned⟩

end SynapS3.Durability
