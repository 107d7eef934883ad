import Mathlib.Data.List.Nodup
import Mathlib.Data.List.Sort
import Mathlib.Data.List.TakeDrop
import Mathlib.Data.Prod.Lex

/-!
# `Provider.Select` — choosing storage providers

`Select` of `internal/providerselect`. Which candidates are eligible (`mem_eligible`), whether a trusted one has to
come first, and how they rank are found by separate functions; that there is a trusted one to take follows from what
`inspectSelection` has checked. The diagnostics of a failed selection are left out.
-/

namespace SynapS3.Provider

/-- `Tier`; `other` is a text that is not valid. -/
inductive Tier
  | approved
  | endorsed
  | none
  | other
  deriving DecidableEq

inductive Strategy
  | distribution
  | speed
  | other
  deriving DecidableEq

inductive ExclusionReason
  | bucketInUse
  | previouslyUsed
  | contextOpenFailed
  | selected
  | other
  deriving DecidableEq

inductive Reason
  | bucketInUse
  | previouslyUsed
  | contextOpenFailed
  | profileMissing
  | observationStale
  | observationMissing
  | providerUnavailable
  | providerInactive
  | providerMissingPDP
  | providerUnhealthy
  | serviceURLMissing
  | profileURLChanged
  | uploadSpeedUntested
  | uploadSpeedFailed
  deriving DecidableEq

inductive SelectionFailureKind
  | requiredTierEmpty
  | requiredTierInUse
  | temporary
  | uploadSpeedPending
  deriving DecidableEq

/-- `providerselect.Candidate`. -/
structure Candidate where
  id : Nat
  active : Bool
  hasPDP : Bool
  hasProfile : Bool
  healthy : Bool
  fresh : Bool
  serviceURL : String
  profileURL : String
  load : Int
  bytesPerSecond : Int
  tierListed : Bool
  uploadSpeedSettled : Bool
  tieBreak : Nat
  deriving DecidableEq

def Candidate.ineligibleReason (c : Candidate) : Option Reason :=
  if !c.hasProfile && c.fresh && c.healthy then some .profileMissing
  else if !c.fresh then some .observationStale
  else if c.id == 0 || !c.active || !c.hasPDP || !c.healthy || c.serviceURL == "" then some .providerUnavailable
  else if !c.hasProfile then some .profileMissing
  else if c.serviceURL != c.profileURL then some .profileURLChanged
  else none

def Candidate.candidateRejectionReason (c : Candidate) : Option Reason :=
  match c.ineligibleReason with
  | some .providerUnavailable =>
    some (if c.id == 0 then .providerUnavailable
      else if !c.active then .providerInactive
      else if !c.hasPDP then .providerMissingPDP
      else if !c.healthy then .providerUnhealthy
      else if c.serviceURL == "" then .serviceURLMissing
      else .providerUnavailable)
  | reason => reason

/-- `providerselect.Inventory`. -/
structure Inventory where
  candidates : List Candidate
  tier : Tier
  trustedIDs : List Nat
  uploadSpeedRequired : Bool

def exclusionReason : Option ExclusionReason → Option Reason
  | none | some .selected => none
  | some .bucketInUse => some .bucketInUse
  | some .previouslyUsed => some .previouslyUsed
  | some .contextOpenFailed => some .contextOpenFailed
  | some .other => some .providerUnavailable

namespace Inventory

def trusted (inv : Inventory) (id : Nat) : Bool := inv.tier == .none || inv.trustedIDs.contains id

/-- `Satisfied`, without targets. -/
def satisfied (inv : Inventory) (remainingTrusted : Bool) : Bool := inv.tier == .none || remainingTrusted

-- The map of exclusions; a key that is not in it has the empty reason.
variable (inv : Inventory) (excluded : Nat → Option ExclusionReason)

/-- The reason that the loop of `selectionCandidates` ends with for a candidate. -/
def rejectionReason (c : Candidate) : Option Reason :=
  ((exclusionReason (excluded c.id)).or c.candidateRejectionReason).or
    (if inv.uploadSpeedRequired && (!c.uploadSpeedSettled || c.bytesPerSecond ≤ 0) then
      some (if c.uploadSpeedSettled then .uploadSpeedFailed else .uploadSpeedUntested)
    else none)

end Inventory

/-- What the loop over the candidates has collected. -/
structure Scan where
  seen : List Nat := []
  eligible : List Candidate := []
  rejections : List (Nat × Reason) := []

section Scan

variable (inv : Inventory) (excluded : Nat → Option ExclusionReason)

def scanCandidate (s : Scan) (c : Candidate) : Scan :=
  if c.id ∈ s.seen then s
  else
    let s := { s with seen := c.id :: s.seen }
    if excluded c.id = some .selected then s
    else
      match inv.rejectionReason excluded c with
      | none => { s with eligible := s.eligible ++ [c] }
      | some reason => { s with rejections := s.rejections ++ [(c.id, reason)] }

def scanTrusted (s : Scan) (id : Nat) : Scan :=
  if id ∈ s.seen ∨ excluded id = some .selected then s
  else { s with
    seen := id :: s.seen
    rejections := s.rejections ++ [(id, (exclusionReason (excluded id)).getD .observationMissing)] }

def selectionCandidates : Scan :=
  inv.trustedIDs.foldl (scanTrusted excluded) (inv.candidates.foldl (scanCandidate inv excluded) {})

def hasTemporaryRejection (rejections : List (Nat × Reason)) : Bool :=
  rejections.any fun r => r.2 != .bucketInUse && r.2 != .previouslyUsed

def allTrustedInUse : Bool :=
  !inv.trustedIDs.isEmpty && !inv.trustedIDs.any fun id =>
    excluded id != some .bucketInUse && excluded id != some .previouslyUsed

/-- `inspectSelection`: why the selection fails, if it does. -/
def inspectSelection (count : Int) (hasTrusted : Bool) : Option SelectionFailureKind :=
  let s := selectionCandidates inv excluded
  if count ≤ 0 then none
  else if inv.uploadSpeedRequired && inv.candidates.any fun c =>
      c.tierListed && !c.uploadSpeedSettled && excluded c.id == none && c.ineligibleReason == none then
    some .uploadSpeedPending
  else if !inv.satisfied hasTrusted && inv.trustedIDs.isEmpty then some .requiredTierEmpty
  else if !inv.satisfied hasTrusted && allTrustedInUse inv excluded then some .requiredTierInUse
  else if !inv.satisfied hasTrusted && !s.eligible.any fun c => inv.trusted c.id then some .temporary
  else if s.eligible.length < count && hasTemporaryRejection s.rejections then some .temporary
  else none

/-- What the comparison in `Select` compares, one after the other; the smaller comes first. -/
def Strategy.rank (strategy : Strategy) (c : Candidate) : ℤ ×ₗ ℤ ×ₗ ℤ ×ₗ ℕ :=
  toLex (if strategy = .distribution then c.load else 0, toLex (-c.bytesPerSecond, toLex (c.load, c.tieBreak)))

/-- What `Select` uses of Go: `slices.SortFunc`, which may put candidates of the same rank in any order, and the largest
capacity for which `make` does not panic. -/
structure Runtime where
  sort : Strategy → List Candidate → List Candidate
  perm : ∀ strategy l, (sort strategy l).Perm l
  ordered : ∀ strategy l, (sort strategy l).Pairwise fun c d => strategy.rank c ≤ strategy.rank d
  maxCap : Nat

inductive Selection
  | panics
  | unavailable
  | failed (kind : SelectionFailureKind)
  | selected (cs : List Candidate)
  deriving DecidableEq

/-- `Select`. The trusted candidate is found by `IndexFunc` and taken out by `Delete`. -/
def select (rt : Runtime) (strategy : Strategy) (count : Int) (hasTrusted : Bool) : Selection :=
  if inv.tier = .other ∨ strategy = .other then .unavailable
  else if count ≤ 0 then .selected []
  else
    match inspectSelection inv excluded count hasTrusted with
    | some kind => .failed kind
    | none =>
      let eligible := rt.sort strategy (selectionCandidates inv excluded).eligible
      if rt.maxCap < count then .panics
      else if inv.satisfied hasTrusted then .selected (eligible.take count.toNat)
      else
        match eligible.span fun c => !inv.trusted c.id with
        | (before, c :: after) => .selected (c :: (before ++ after).take (count.toNat - 1))
        | (_, []) => .panics

/-- The first candidate of its ID, neither excluded nor rejected. -/
structure Eligible (c : Candidate) : Prop where
  first : inv.candidates.find? (·.id == c.id) = some c
  notExcluded : excluded c.id = none
  sound : c.ineligibleReason = none
  measured : inv.uploadSpeedRequired = true → c.uploadSpeedSettled = true ∧ 0 < c.bytesPerSecond

variable {inv excluded}

theorem Candidate.candidateRejectionReason_eq_none {c : Candidate} :
    c.candidateRejectionReason = none ↔ c.ineligibleReason = none := by
  unfold candidateRejectionReason
  split <;> simp_all

theorem rejectionReason_eq_none {c : Candidate} (h : excluded c.id ≠ some .selected) :
    inv.rejectionReason excluded c = none ↔ excluded c.id = none ∧ c.ineligibleReason = none ∧
      (inv.uploadSpeedRequired = true → c.uploadSpeedSettled = true ∧ 0 < c.bytesPerSecond) := by
  have hex : exclusionReason (excluded c.id) = none ↔ excluded c.id = none := by
    cases hx : excluded c.id with
    | none => simp [exclusionReason]
    | some r => cases r <;> simp_all [exclusionReason]
  simp only [Inventory.rejectionReason, Option.or_eq_none_iff, hex, Candidate.candidateRejectionReason_eq_none,
    and_assoc]
  simp

theorem mem_seen_scanCandidate (s : Scan) (c : Candidate) (id : Nat) :
    id ∈ (scanCandidate inv excluded s c).seen ↔ id = c.id ∨ id ∈ s.seen := by
  unfold scanCandidate
  split
  · next h => exact ⟨.inr, fun hid => hid.elim (fun heq => heq ▸ h) fun hid => hid⟩
  · dsimp only
    split_ifs
    · simp
    · split <;> simp

theorem eligible_scanCandidate (s : Scan) (c : Candidate) : (scanCandidate inv excluded s c).eligible =
      if c.id ∉ s.seen ∧ excluded c.id ≠ some .selected ∧ inv.rejectionReason excluded c = none then s.eligible ++ [c]
      else s.eligible := by
  unfold scanCandidate
  split_ifs <;> first | rfl | simp_all
  all_goals split <;> simp_all

theorem mem_eligible_run (cs : List Candidate) (s : Scan) (c : Candidate) :
    c ∈ (cs.foldl (scanCandidate inv excluded) s).eligible ↔ c ∈ s.eligible ∨ c.id ∉ s.seen ∧
      cs.find? (·.id == c.id) = some c ∧ excluded c.id ≠ some .selected ∧ inv.rejectionReason excluded c = none := by
  induction cs generalizing s with
  | nil => simp
  | cons d cs ih =>
    rw [List.foldl_cons, ih, mem_seen_scanCandidate, eligible_scanCandidate]
    by_cases hid : d.id = c.id
    · -- `d` is the first of its ID, so no later candidate of the ID counts
      rw [List.find?_cons_of_pos (by simpa using hid)]
      by_cases hdc : d = c
      · subst hdc
        split_ifs <;> simp_all
      · split_ifs <;> simp_all [Ne.symm hdc]
    · rw [List.find?_cons_of_neg (by simpa using hid)]
      have hcd : c ≠ d := fun h => hid (congrArg _ h.symm)
      split_ifs <;> simp_all [Ne.symm hid]

theorem eligible_trusted_run (ids : List Nat) (s : Scan) :
    (ids.foldl (scanTrusted excluded) s).eligible = s.eligible := by
  induction ids generalizing s with
  | nil => rfl
  | cons id ids ih =>
    rw [List.foldl_cons, ih, scanTrusted]
    split_ifs <;> rfl

theorem mem_eligible {c : Candidate} : c ∈ (selectionCandidates inv excluded).eligible ↔ Eligible inv excluded c := by
  rw [selectionCandidates, eligible_trusted_run, mem_eligible_run]
  constructor
  · rintro (h | ⟨-, hfirst, hsel, hr⟩)
    · simp at h
    · obtain ⟨hex, hsound, hspeed⟩ := (rejectionReason_eq_none hsel).mp hr
      exact ⟨hfirst, hex, hsound, hspeed⟩
  · intro h
    have hsel : excluded c.id ≠ some .selected := by simp [h.notExcluded]
    exact .inr ⟨by simp, h.first, hsel, (rejectionReason_eq_none hsel).mpr ⟨h.notExcluded, h.sound, h.measured⟩⟩

theorem eligible_run_nodup (cs : List Candidate) (s : Scan) (hnodup : (s.eligible.map (·.id)).Nodup)
    (hseen : ∀ c ∈ s.eligible, c.id ∈ s.seen) :
    ((cs.foldl (scanCandidate inv excluded) s).eligible.map (·.id)).Nodup := by
  induction cs generalizing s with
  | nil => exact hnodup
  | cons c cs ih =>
    apply ih <;> rw [eligible_scanCandidate] <;> split_ifs with h
    · rw [List.map_append, List.nodup_append]
      refine ⟨hnodup, List.nodup_singleton _, fun id hid id' hid' heq => h.1 ?_⟩
      obtain ⟨d, hd, rfl⟩ := List.mem_map.mp hid
      have hdc : d.id = c.id := heq.trans (List.mem_singleton.mp hid')
      exact hdc ▸ hseen d hd
    · exact hnodup
    · intro d hd
      rw [mem_seen_scanCandidate]
      rcases List.mem_append.mp hd with hd | hd
      · exact .inr (hseen d hd)
      · exact .inl (congrArg _ (List.mem_singleton.mp hd))
    · exact fun d hd => (mem_seen_scanCandidate s c _).mpr (.inr (hseen d hd))

theorem eligible_nodup : ((selectionCandidates inv excluded).eligible.map (·.id)).Nodup := by
  rw [selectionCandidates, eligible_trusted_run]
  exact eligible_run_nodup _ _ List.nodup_nil (by simp)

theorem inspectSelection_none {count : Int} {hasTrusted : Bool} (hcount : 0 < count)
    (h : inspectSelection inv excluded count hasTrusted = none) (hneeds : inv.satisfied hasTrusted = false) :
    ∃ c, Eligible inv excluded c ∧ inv.trusted c.id := by
  simp only [inspectSelection, hneeds, Int.not_le.mpr hcount, if_false] at h
  split_ifs at h with _ _ _ hany
  all_goals simp at hany
  all_goals
    obtain ⟨c, hc, ht⟩ := hany
    exact ⟨c, mem_eligible.mp hc, ht⟩

theorem inspectSelection_inUse {count : Int} {hasTrusted : Bool}
    (h : inspectSelection inv excluded count hasTrusted = some .requiredTierInUse) :
    ∀ id ∈ inv.trustedIDs, excluded id = some .bucketInUse ∨ excluded id = some .previouslyUsed := by
  unfold inspectSelection at h
  dsimp only at h
  split_ifs at h with _ _ _ huse <;> cases h
  intro id hid
  have hall := (Bool.and_eq_true_iff.mp huse).2
  simp only [allTrustedInUse, Bool.and_eq_true, Bool.not_eq_true', List.any_eq_false] at hall
  simpa [or_iff_not_imp_left] using hall.2 id hid

/-- As many as asked for or as there are: the best trusted one first, where one is missing, then the best others. -/
structure Best (inv : Inventory) (excluded : Nat → Option ExclusionReason) (strategy : Strategy) (count : Int)
    (hasTrusted : Bool) (cs : List Candidate) : Prop where
  number : ∃ l : List Candidate, l.Nodup ∧ (∀ c, c ∈ l ↔ Eligible inv excluded c) ∧
    (cs.length : Int) = min count l.length
  distinct : (cs.map (·.id)).Nodup
  eligible : ∀ c ∈ cs, Eligible inv excluded c
  ranked : ∃ lead others, cs = lead ++ others ∧
    (if inv.satisfied hasTrusted then lead = []
      else ∃ c, lead = [c] ∧ inv.trusted c.id ∧
        ∀ d, Eligible inv excluded d → inv.trusted d.id → strategy.rank c ≤ strategy.rank d) ∧
    others.Pairwise (fun c d => strategy.rank c ≤ strategy.rank d) ∧
    ∀ c ∈ others, ∀ d, Eligible inv excluded d → d ∉ cs → strategy.rank c ≤ strategy.rank d

theorem Best.of_take {strategy : Strategy} {count : Int} {hasTrusted : Bool} (lead : List Candidate)
    {rest : List Candidate} (hperm : (lead ++ rest).Perm (selectionCandidates inv excluded).eligible)
    (hrest : rest.Pairwise fun c d => strategy.rank c ≤ strategy.rank d) (hlen : lead.length ≤ count)
    (hlead : if inv.satisfied hasTrusted then lead = []
      else ∃ c, lead = [c] ∧ inv.trusted c.id ∧
        ∀ d, Eligible inv excluded d → inv.trusted d.id → strategy.rank c ≤ strategy.rank d) :
    Best inv excluded strategy count hasTrusted (lead ++ rest.take (count.toNat - lead.length)) := by
  have hmem (c : Candidate) : c ∈ lead ++ rest ↔ Eligible inv excluded c := hperm.mem_iff.trans mem_eligible
  have hids : ((lead ++ rest).map (·.id)).Nodup := (hperm.map _).nodup_iff.mpr eligible_nodup
  have hsub := (List.take_sublist (count.toNat - lead.length) rest).append_left lead
  refine ⟨⟨lead ++ rest, List.Nodup.of_map _ hids, hmem, ?_⟩, hids.sublist (hsub.map _),
    fun c hc => (hmem c).mp (hsub.mem hc), lead, _, rfl, hlead, hrest.sublist (List.take_sublist ..),
    fun c hc d hd hnot => ?_⟩
  · simp only [List.length_append, List.length_take]
    omega
  · -- what is not taken is in the tail of the ranking
    rw [← List.take_append_drop (count.toNat - lead.length) rest] at hrest
    refine (List.pairwise_append.mp hrest).2.2 c hc d ?_
    have hd := (hmem d).mpr hd
    rw [← List.take_append_drop (count.toNat - lead.length) rest, ← List.append_assoc] at hd
    exact (List.mem_append.mp hd).resolve_left hnot

theorem span_trusted {l : List Candidate} (h : ∃ c ∈ l, inv.trusted c.id) :
    ∃ before c after, l.span (fun c => !inv.trusted c.id) = (before, c :: after) ∧ l = before ++ c :: after ∧
      inv.trusted c.id ∧ ∀ d ∈ before, ¬ inv.trusted d.id := by
  induction l with
  | nil => simp at h
  | cons d l ih =>
    rw [List.span_eq_takeWhile_dropWhile] at ih ⊢
    by_cases hd : inv.trusted d.id = true
    · exact ⟨[], d, l, by simp [hd], rfl, hd, by simp⟩
    · obtain ⟨before, c, after, hspan, rfl, hc, hbefore⟩ := ih (by simpa [hd] using h)
      rw [Prod.mk.injEq] at hspan
      exact ⟨d :: before, c, after, by simp [hd, hspan], rfl, hc, by simpa [hd] using hbefore⟩

/-- **Selection is sound and optimal**, for every count that `make` has room for. -/
theorem selection_sound_optimal (inv : Inventory) (excluded : Nat → Option ExclusionReason) (rt : Runtime)
    (strategy : Strategy) (count : Int) (hasTrusted : Bool) (hcount : 0 < count) (hcap : count ≤ rt.maxCap) :
    select inv excluded rt strategy count hasTrusted ≠ .panics ∧
    (∀ cs, select inv excluded rt strategy count hasTrusted = .selected cs →
      Best inv excluded strategy count hasTrusted cs) ∧
    (select inv excluded rt strategy count hasTrusted = .failed .requiredTierInUse →
      ∀ id ∈ inv.trustedIDs, excluded id = some .bucketInUse ∨ excluded id = some .previouslyUsed) := by
  unfold select
  by_cases hvalid : inv.tier = .other ∨ strategy = .other
  · simp [hvalid]
  rw [if_neg hvalid, if_neg hcount.not_ge]
  cases hkind : inspectSelection inv excluded count hasTrusted with
  | some kind =>
    refine ⟨by simp, by simp, fun h => ?_⟩
    cases h
    exact inspectSelection_inUse hkind
  | none =>
    have hperm := rt.perm strategy (selectionCandidates inv excluded).eligible
    have hsort := rt.ordered strategy (selectionCandidates inv excluded).eligible
    dsimp only
    rw [if_neg hcap.not_gt]
    by_cases hsat : inv.satisfied hasTrusted = true
    · rw [if_pos hsat]
      refine ⟨by simp, fun cs hcs => ?_, by simp⟩
      cases hcs
      exact Best.of_take [] hperm hsort hcount.le (by simp [hsat])
    · obtain ⟨t, ht, htrust⟩ := inspectSelection_none hcount hkind (by simpa using hsat)
      obtain ⟨before, c, after, hspan, heq, hc, hbefore⟩ :=
        span_trusted ⟨t, hperm.mem_iff.mpr (mem_eligible.mpr ht), htrust⟩
      rw [if_neg hsat, hspan]
      rw [heq] at hperm hsort
      refine ⟨by simp, fun cs hcs => ?_, by simp⟩
      cases hcs
      have hfront : (c :: (before ++ after)).Perm (before ++ c :: after) := List.perm_middle.symm
      refine Best.of_take [c] (hfront.trans hperm) (hsort.sublist ?_) hcount ?_
      · simp
      · rw [if_neg hsat]
        refine ⟨c, rfl, hc, fun d hd htd => ?_⟩
        -- no candidate before the first trusted one is trusted, and those after it rank below it
        rcases List.mem_append.mp (hperm.mem_iff.mpr (mem_eligible.mpr hd)) with hmem | hmem
        · exact absurd htd (hbefore d hmem)
        · rcases List.mem_cons.mp hmem with rfl | hmem
          · exact le_rfl
          · exact (List.pairwise_cons.mp (List.pairwise_append.mp hsort).2.1).1 d hmem

end Scan

/-- A sorting function for `Select`, and room for 2^40 candidates. -/
def insertionRuntime : Runtime where
  sort strategy := List.insertionSort fun c d => strategy.rank c ≤ strategy.rank d
  perm _ := List.perm_insertionSort _
  ordered _ := List.pairwise_insertionSort _
  maxCap := 0x10000000000

def listed (id : Nat) (load : Int) : Candidate :=
  ⟨id, true, true, true, true, true, "https://sp", "https://sp", load, 5, true, true, 0⟩

/-- Provider 2 is the trusted one and is in the inventory twice; it comes first although provider 1 has less load. -/
theorem selection_sound_optimal_trusted :
    Best ⟨[listed 1 0, listed 2 3, listed 2 1, listed 3 7], .approved, [2], true⟩ (fun _ => none) .distribution 2 false
      [listed 2 3, listed 1 0] :=
  (selection_sound_optimal _ _ insertionRuntime _ 2 false (by decide) (by decide)).2.1 _ (by decide +kernel)

/-- The count is not cut to the number of candidates before `make`. -/
theorem oversized_count_panics :
    select ⟨[], .none, [], false⟩ (fun _ => none) insertionRuntime .speed 0x4000000000000000 false = .panics := by
  decide +kernel

end SynapS3.Provider
