import Mathlib.Data.List.Perm.Subperm
import Mathlib.Data.List.Sort
import SynapS3.Task.Spec

/-!
# `Task.Claim` — the filtered claim takes what the plain claim takes

With excluded types a claim does not scan the rows in the order of their times. It lists the types there are by
a skip scan, takes the head of each allowed type and of these heads the first; a head that is locked is excluded,
and the selection starts over. In which order the database puts the types does not matter: it is any linear order.
-/

namespace SynapS3.Tasks

/-! ## The first of a list -/

section First

variable {key : Nat → Int} {i j k : Nat} {l : List Nat}

theorem earliest_heads {T : Type} {ts : List T} {lists : T → List Nat} {heads : List Nat} (hl : l.Pairwise (· ≤ ·))
    (hheads : heads.Pairwise (· ≤ ·)) (hlists : ∀ t, (lists t).Pairwise (· ≤ ·))
    (hhead : ∀ i, i ∈ heads ↔ ∃ t ∈ ts, earliest key (lists t) = some i) (hall : ∀ j, j ∈ l ↔ ∃ t ∈ ts, j ∈ lists t) :
    earliest key heads = earliest key l := by
  ext i
  simp only [earliest_eq_some hl, earliest_eq_some hheads, earliest_eq_some (hlists _), hhead, hall]
  constructor
  · rintro ⟨⟨t, ht, hi, -⟩, hle⟩
    refine ⟨⟨t, ht, hi⟩, fun j ⟨t', ht', hj⟩ => ?_⟩
    cases hk : earliest key (lists t') with
    | none => rw [earliest_eq_none.mp hk] at hj; cases hj
    | some k =>
      obtain ⟨hk, hkle⟩ := (earliest_eq_some (hlists t')).mp hk
      exact (hle k ⟨t', ht', hk, hkle⟩).trans (hkle j hj)
  · rintro ⟨⟨t, ht, hi⟩, hle⟩
    exact ⟨⟨t, ht, hi, fun j hj => hle j ⟨t, ht, hj⟩⟩, fun j ⟨t', ht', hj, _⟩ => hle j ⟨t', ht', hj⟩⟩

end First

section SkipScan

variable {α : Type} [LinearOrder α] {t x : α} {rows : List α}

def above (t : α) (rows : List α) : List α := rows.filter (t < ·)

theorem length_above (h : t ∈ rows) : (above t rows).length < rows.length :=
  List.length_filter_lt_length_iff_exists.mpr ⟨t, h, by simp⟩

/-- `WITH RECURSIVE`: the least of the values, then the least above it, and so on. -/
def skipScan (rows : List α) : List α :=
  match _h : rows.min? with
  | none => []
  | some t => t :: skipScan (above t rows)
termination_by rows.length
decreasing_by exact length_above (List.min?_mem _h)

theorem mem_skipScan : x ∈ skipScan rows ↔ x ∈ rows := by
  fun_induction skipScan rows with
  | case1 rows h => rw [List.min?_eq_none_iff.mp h]
  | case2 rows t h ih =>
    obtain ⟨hmem, hle⟩ := List.min?_eq_some_iff.mp h
    rw [List.mem_cons, ih, above, List.mem_filter, decide_eq_true_eq]
    constructor
    · rintro (rfl | ⟨hx, -⟩)
      · exact hmem
      · exact hx
    · exact fun hx => (hle x hx).eq_or_lt.imp Eq.symm fun hlt => ⟨hx, hlt⟩

end SkipScan

variable {ι κ : Type}

section Queries

variable [LinearOrder TaskType] (tasks : Table (Task ι κ)) (status : TaskStatus) (now : Int)

/-- `(type, time) >= (t, '-infinity') AND (type, time) <= (t, now)`, compared as rows. -/
def inBounds (t : TaskType) (r : Task ι κ) : Bool :=
  (decide (t < r.type) || (decide (r.type = t) && (dueAt status r).isSome)) &&
    (decide (r.type < t) || (decide (r.type = t) && (dueAt status r).any (· ≤ now)))

def allowedTypes (excludedTypes : List TaskType) : List TaskType :=
  (skipScan ((tasks.ids fun _ r => r.status == status).filterMap fun i => (tasks.row i).map (·.type))).filter
    fun t => !excludedTypes.contains t

def ofType (excludedIDs : List Nat) (t : TaskType) : List Nat :=
  tasks.ids fun i r => r.status == status && inBounds status now t r && !excludedIDs.contains i

/-- `filteredTaskCandidatePostgresSQL`: the first of the heads, one of each allowed type. -/
def filteredTaskCandidate (excludedTypes : List TaskType) (excludedIDs : List Nat) : Option Nat :=
  let heads := (allowedTypes tasks status excludedTypes).filterMap fun t =>
    earliest (orderingTime tasks status) (ofType tasks status now excludedIDs t)
  earliest (orderingTime tasks status) (heads.insertionSort (· ≤ ·))

/-- `claimTaskCandidatePostgresSQL` finds its row: it is as it was selected, and not locked. -/
def claimable (locked : List Nat) (id : Nat) (selected : Task ι κ) : Bool :=
  !locked.contains id && (tasks.row id).any fun r => r.type = selected.type && r.status = status &&
    r.claimGeneration = selected.claimGeneration && dueAt status r = dueAt status selected &&
    (dueAt status r).any (· ≤ now)

/-- The loop of `claimFilteredTask`, for as many rounds as its context lasts. -/
def selectRounds (excludedTypes : List TaskType) (locked : List Nat) : Nat → List Nat → Option (Option Nat)
  | 0, _ => none
  | rounds + 1, excludedIDs =>
    match filteredTaskCandidate tasks status now excludedTypes excludedIDs with
    | none => some none
    | some id =>
      if (tasks.row id).any (claimable tasks status now locked id) then some (some id)
      else selectRounds excludedTypes locked rounds (excludedIDs ++ [id])

end Queries

variable {tasks : Table (Task ι κ)} {status : TaskStatus} {now dur : Int} {types : List TaskType}
  {ids tried locked : List Nat} {filter : TaskClaimFilter} {s : TaskDb ι κ} {i : Nat}

/-! ## What is selected -/

theorem mem_eligible_append {more : List Nat} : i ∈ eligible tasks status now types (ids ++ more) ↔
    i ∈ eligible tasks status now types ids ∧ i ∉ more := by
  simp only [eligible, Table.mem_ids, Bool.and_eq_true, Bool.not_eq_true', List.contains_eq_mem, decide_eq_false_iff_not,
    List.mem_append, not_or]
  constructor
  · rintro ⟨r, hr, hp, hid, hmore⟩
    exact ⟨⟨r, hr, hp, hid⟩, hmore⟩
  · rintro ⟨⟨r, hr, hp, hid⟩, hmore⟩
    exact ⟨r, hr, hp, hid, hmore⟩

theorem claimable_iff (h : i ∈ eligible tasks status now types ids) :
    (tasks.row i).any (claimable tasks status now locked i) = true ↔ i ∉ locked := by
  obtain ⟨r, hr, hp⟩ := Table.mem_ids.mp h
  simp only [Bool.and_eq_true, beq_iff_eq] at hp
  simp [claimable, hr, hp.1.1.1, hp.1.1.2]

section Filtered

variable [LinearOrder TaskType]

theorem inBounds_iff {t : TaskType} {r : Task ι κ} :
    inBounds status now t r = true ↔ (dueAt status r).any (· ≤ now) = true ∧ r.type = t := by
  simp only [inBounds, Bool.and_eq_true, Bool.or_eq_true, decide_eq_true_eq]
  constructor
  · rintro ⟨hlow, hlt | ⟨ht, hdue⟩⟩
    · rcases hlow with hgt | ⟨heq, -⟩
      · exact absurd hlt hgt.asymm
      · exact absurd heq hlt.ne
    · exact ⟨hdue, ht⟩
  · rintro ⟨hdue, rfl⟩
    refine ⟨.inr ⟨rfl, ?_⟩, .inr ⟨rfl, hdue⟩⟩
    cases htime : dueAt status r with
    | none => rw [htime] at hdue; cases hdue
    | some time => rfl

/-- **The heads of the allowed types yield the first eligible task.** -/
theorem filteredTaskCandidate_eq : filteredTaskCandidate tasks status now types ids =
    earliest (orderingTime tasks status) (eligible tasks status now types ids) := by
  refine earliest_heads (ids_sorted tasks _) (List.pairwise_insertionSort (· ≤ ·) _) (fun t => ids_sorted tasks _)
    (fun i => List.mem_insertionSort _ |>.trans List.mem_filterMap) fun j => ?_
  simp only [eligible, allowedTypes, Table.mem_ids, inBounds_iff, List.mem_filter, mem_skipScan,
    List.mem_filterMap, Option.map_eq_some_iff, Bool.and_eq_true, beq_iff_eq]
  constructor
  · rintro ⟨r, hr, ⟨⟨hs, hdue⟩, ht⟩, hid⟩
    exact ⟨r.type, ⟨⟨j, ⟨r, hr, hs⟩, r, hr, rfl⟩, ht⟩, r, hr, ⟨hs, hdue, rfl⟩, hid⟩
  · rintro ⟨t, ⟨-, ht⟩, r, hr, ⟨hs, hdue, rfl⟩, hid⟩
    exact ⟨r, hr, ⟨⟨hs, hdue⟩, ht⟩, hid⟩

/-- **The loop**: at most one round more than there are locked tasks. By induction on the rounds; what was tried before
    was locked. -/
theorem selectRounds_eq {rounds : Nat} (hsub : tried ⊆ locked) (hnodup : tried.Nodup)
    (hrounds : locked.length < rounds + tried.length) :
    selectRounds tasks status now filter.excludedTypes locked rounds (filter.excludedTaskIDs ++ tried) =
      some (claimCandidate tasks status now filter locked) := by
  induction rounds generalizing tried with
  | zero =>
    have hle := (hnodup.subperm hsub).length_le
    omega
  | succ rounds ih =>
    rw [selectRounds, filteredTaskCandidate_eq]
    split
    · next hnone =>
      rw [claimCandidate_eq, eq_comm, Option.some_inj, earliest_eq_none, List.eq_nil_iff_forall_not_mem]
      intro j hj
      obtain ⟨hj, hlocked⟩ := mem_eligible_append.mp hj
      have hmem := mem_eligible_append.mpr ⟨hj, fun h => hlocked (hsub h)⟩
      rw [earliest_eq_none.mp hnone] at hmem
      cases hmem
    · next i hi =>
      obtain ⟨hmem, hle⟩ := first_eligible.mp hi
      obtain ⟨hmem, hnew⟩ := mem_eligible_append.mp hmem
      simp only [claimable_iff hmem]
      split
      · next hfree =>
        rw [claimCandidate_eq, eq_comm, Option.some_inj, first_eligible]
        refine ⟨mem_eligible_append.mpr ⟨hmem, hfree⟩, fun j hj => hle j ?_⟩
        obtain ⟨hj, hlocked⟩ := mem_eligible_append.mp hj
        exact mem_eligible_append.mpr ⟨hj, fun h => hlocked (hsub h)⟩
      · next hlocked =>
        rw [List.append_assoc]
        refine ih (List.append_subset.mpr ⟨hsub, by simpa using hlocked⟩) ?_ (by simp; omega)
        exact hnodup.append (List.nodup_singleton i) (by simpa using hnew)

end Filtered

/-! ## What is claimed -/

theorem claimTask_run {r : Task ι κ} (hr : s.tasks.row i = some r) (status : TaskStatus) (lease : Int) :
    claimTask i status lease s = .ok (some (i, claimRow status lease r),
      { s with tasks := s.tasks.modify i (claimRow status lease) }) := by
  show Except.ok (((s.tasks.modify i (claimRow status lease)).row i).map (i, ·), _) = _
  rw [Table.row_modify_at hr]
  rfl

/-- **The filtered claim takes what the plain claim takes**, whatever the order of the types and whichever tasks are
    locked: the first of the eligible tasks that are not locked, after at most one round more than there are locked
    tasks. -/
theorem filtered_claim_takes_plain [LinearOrder TaskType] (s : TaskDb ι κ) (status : TaskStatus) (now dur : Int)
    (filter : TaskClaimFilter) (locked : List Nat) (extra : Nat) :
    let ids := eligible s.tasks status now filter.excludedTypes (filter.excludedTaskIDs ++ locked)
    let loop := selectRounds s.tasks status now filter.excludedTypes locked (locked.length + 1 + extra)
      filter.excludedTaskIDs
    let written := fun i r lease (t : TaskDb ι κ) => Except.ok (some (i, claimRow status lease r),
      { t with tasks := t.tasks.modify i (claimRow status lease) })
    (ids = [] ∧ loop = some none ∧ claimFilteredTask dur filter now status locked s = .ok (none, s) ∧
        ∀ lease, claimTaskWithSQL status now lease filter locked s = .ok (none, s)) ∨
      ∃ i r, i ∈ ids ∧ (∀ j ∈ ids, Before (orderingTime s.tasks status) i j) ∧
        s.tasks.row i = some r ∧ loop = some (some i) ∧
        (∃ t claimNow, readClock.Ok s claimNow t ∧
          claimFilteredTask dur filter now status locked s = written i r (claimNow + dur) t) ∧
        ∀ lease, claimTaskWithSQL status now lease filter locked s = written i r lease s := by
  intro ids loop written
  have hloop : loop = some (claimCandidate s.tasks status now filter locked) := by
    show selectRounds _ _ _ _ _ _ filter.excludedTaskIDs = _
    rw [← List.append_nil filter.excludedTaskIDs]
    exact selectRounds_eq (List.nil_subset _) List.nodup_nil (by simp; omega)
  cases hc : claimCandidate s.tasks status now filter locked with
  | none =>
    refine .inl ⟨earliest_eq_none.mp (claimCandidate_eq.symm.trans hc), by rw [hloop, hc], ?_, fun lease => ?_⟩
    · simp only [claimFilteredTask, bind, Tx.bind, Tx.read, hc]; rfl
    · simp only [claimTaskWithSQL, bind, Tx.bind, Tx.read, hc]; rfl
  | some i =>
    obtain ⟨r, hr, -⟩ := claimCandidate_spec hc
    obtain ⟨hmem, hle⟩ := first_eligible.mp (claimCandidate_eq.symm.trans hc)
    refine .inr ⟨i, r, hmem, hle, hr, by rw [hloop, hc], ⟨_, _, rfl, ?_⟩, fun lease => ?_⟩
    · simp only [claimFilteredTask, bind, Tx.bind, Tx.read, hc]
      exact claimTask_run (s := { s with clock := s.clock + s.ticks.headD 0, ticks := s.ticks.tail }) hr status _
    · simp only [claimTaskWithSQL, bind, Tx.bind, Tx.read, hc]
      exact claimTask_run hr status lease

end SynapS3.Tasks
