import SynapS3.Lib.Lts
import SynapS3.Lib.TableSum

/-!
# `Eviction.Burst` — the budget of concurrent LRU deletions

`reserveLRUDeletion` and `finishLRUDeletion` of `evict.go` over the counters of `State`. Evictions run at the same
time: each reserves its size before it deletes, and its deferred `finish` says whether it deleted. The mutex makes
either call one step; the occupancy that the first reservation of a burst reads, the sizes and the order of the
steps are chosen by the environment.

A *burst* lasts from no deletion in flight until again none.
-/

namespace SynapS3.Eviction

namespace Burst

inductive Outcome where
  | inFlight
  | deleted
  | failed
  deriving DecidableEq

/-- An admitted deletion. -/
structure Deletion where
  size : Nat
  outcome : Outcome := .inFlight
  deriving DecidableEq

def Deletion.projected (d : Deletion) : Int := if d.outcome = .failed then 0 else d.size

def Deletion.freed (d : Deletion) : Int := if d.outcome = .deleted then d.size else 0

def Deletion.running (d : Deletion) : Int := if d.outcome = .inFlight then 1 else 0

def Deletion.finish (deleted : Bool) (d : Deletion) : Deletion :=
  { d with outcome := if deleted then .deleted else .failed }

end Burst

open Burst

/-- The occupancy sampled at its start, and the deletions in the order of their admission. -/
structure Burst where
  sample : Int := 0
  admitted : Table Deletion := .empty

/-- The counters of `State`, with the record of the current burst and of those before it. -/
structure LRUState where
  lruProjectedBytes : Int := 0
  lruInFlightDeletes : Int := 0
  current : Burst := {}
  past : List Burst := []

/-- `reserveLRUDeletion`, which reads `occupied` if it samples. -/
def reserveLRUDeletion (low occupied : Int) (size : Nat) (s : LRUState) : LRUState × Bool :=
  let s := if s.lruInFlightDeletes = 0 then { s with lruProjectedBytes := occupied } else s
  if s.lruProjectedBytes ≤ low then (s, false)
  else
    let burst : Burst := if s.lruInFlightDeletes = 0 then { sample := occupied } else s.current
    ({ lruProjectedBytes := s.lruProjectedBytes - size
       lruInFlightDeletes := s.lruInFlightDeletes + 1
       current := { burst with admitted := burst.admitted.insert { size := size } }
       past := if s.lruInFlightDeletes = 0 then s.current :: s.past else s.past }, true)

/-- `finishLRUDeletion`, by the deletion `i` of the current burst. -/
def finishLRUDeletion (i size : Nat) (deleted : Bool) (s : LRUState) : LRUState :=
  let projected := if deleted then s.lruProjectedBytes else s.lruProjectedBytes + size
  let inFlight := s.lruInFlightDeletes - 1
  { s with
    lruProjectedBytes := if inFlight ≤ 0 then 0 else projected
    lruInFlightDeletes := if inFlight ≤ 0 then 0 else inFlight
    current := { s.current with admitted := s.current.admitted.modify i (Deletion.finish deleted) } }

inductive LRUAction where
  | reserve (occupied : Int) (size : Nat)
  | finish (i : Nat) (deleted : Bool)

/-- An eviction finishes once, with the size that it reserved. -/
def lruStep (low : Int) (s : LRUState) : LRUAction → Option LRUState
  | .reserve occupied size => some (reserveLRUDeletion low occupied size s).1
  | .finish i deleted =>
    match s.current.admitted.row i with
    | some d => if d.outcome = .inFlight then some (finishLRUDeletion i d.size deleted s) else none
    | none => none

/-- The evictions of a process, with the low watermark `low`. -/
def lruMachine (low : Int) : Lts LRUState LRUAction where
  init s := s = {}
  step := lruStep low

/-! ## The projection -/

/-- Without the last one admitted, what was not given up stays above the watermark. -/
def Burst.Bounded (low : Int) (b : Burst) : Prop :=
  ∀ i d, b.admitted.row i = some d → i + 1 = b.admitted.next →
    b.admitted.sum Deletion.projected - d.projected < b.sample - low

/-- The counters say what the deletions of the current burst amount to, and every burst stays within its budget. -/
structure LRUInv (low : Int) (s : LRUState) : Prop where
  inFlight : s.lruInFlightDeletes = s.current.admitted.sum Deletion.running
  projection : 0 < s.lruInFlightDeletes →
    s.lruProjectedBytes = s.current.sample - s.current.admitted.sum Deletion.projected
  bounded : ∀ b ∈ s.current :: s.past, b.Bounded low
  past : ∀ b ∈ s.past, b.admitted.sum Deletion.running = 0

theorem Burst.Deletion.running_nonneg (d : Deletion) : 0 ≤ d.running := by
  unfold Deletion.running
  split <;> decide

theorem Burst.Deletion.freed_le (d : Deletion) : d.freed ≤ d.projected := by
  unfold Deletion.freed Deletion.projected
  cases d.outcome <;> simp

theorem Burst.running_nonneg (b : Burst) : 0 ≤ b.admitted.sum Deletion.running := by
  refine Finset.sum_nonneg fun i _ => ?_
  cases b.admitted.row i with
  | none => exact le_refl _
  | some d => exact d.running_nonneg

variable {low : Int} {s : LRUState} {b : Burst} {size i : Nat} {d : Deletion}

theorem Burst.Bounded.admitted (h : low < b.sample - b.admitted.sum Deletion.projected) :
    Burst.Bounded low { b with admitted := b.admitted.insert { size := size } } := by
  intro i d hd hi
  obtain rfl : i = b.admitted.next := Nat.succ.inj hi
  rw [Table.row_insert, if_pos rfl] at hd
  cases hd
  show (b.admitted.insert _).sum Deletion.projected - _ < b.sample - low
  rw [Table.sum_insert]
  omega

theorem LRUInv.reserve {occupied : Int} (h : LRUInv low s) :
    LRUInv low (reserveLRUDeletion low occupied size s).1 := by
  have hnonneg := s.current.running_nonneg
  rw [← h.inFlight] at hnonneg
  by_cases hzero : s.lruInFlightDeletes = 0
  · simp only [reserveLRUDeletion, if_pos hzero]
    split
    · exact ⟨h.inFlight, fun hpos => absurd hpos (by show ¬ 0 < s.lruInFlightDeletes; omega), h.bounded, h.past⟩
    next hlow =>
    refine ⟨?_, fun _ => ?_, fun b hb => ?_, fun b hb => ?_⟩
    · rw [Table.sum_insert, Table.sum_empty, hzero]
      rfl
    · rw [Table.sum_insert, Table.sum_empty, zero_add]
      rfl
    · rcases List.mem_cons.mp hb with rfl | hb
      · refine Burst.Bounded.admitted (b := { sample := occupied }) ?_
        show low < occupied - Table.empty.sum _
        rw [Table.sum_empty]
        omega
      · exact h.bounded b hb
    · rcases List.mem_cons.mp hb with rfl | hb
      · rw [← h.inFlight]
        exact hzero
      · exact h.past b hb
  · simp only [reserveLRUDeletion, if_neg hzero]
    split
    · exact h
    next hlow =>
    have hproj := h.projection (by omega)
    refine ⟨?_, fun _ => ?_, fun b hb => ?_, h.past⟩
    · rw [Table.sum_insert, h.inFlight]
      rfl
    · show s.lruProjectedBytes - size = s.current.sample - (s.current.admitted.insert _).sum _
      rw [Table.sum_insert, hproj, sub_sub]
      rfl
    · rcases List.mem_cons.mp hb with rfl | hb
      · exact .admitted (by omega)
      · exact h.bounded b (List.mem_cons_of_mem _ hb)

theorem Burst.Bounded.finish (h : b.Bounded low) {deleted : Bool} (hd : b.admitted.row i = some d)
    (hle : (d.finish deleted).projected ≤ d.projected) :
    Burst.Bounded low { b with admitted := b.admitted.modify i (Deletion.finish deleted) } := by
  have hsum := Table.sum_modify hd (Deletion.finish deleted) Deletion.projected
  intro j e he hj
  show (b.admitted.modify i _).sum _ - e.projected < b.sample - low
  rcases Table.row_modify_cases he with ⟨rfl, e₀, he₀, rfl⟩ | ⟨-, he₀⟩
  · obtain rfl : e₀ = d := Option.some.inj (he₀.symm.trans hd)
    have hold := h _ e₀ he₀ hj
    omega
  · have hold := h _ e he₀ hj
    omega

theorem LRUInv.finish (h : LRUInv low s) (deleted : Bool) (hd : s.current.admitted.row i = some d)
    (hf : d.outcome = .inFlight) : LRUInv low (finishLRUDeletion i d.size deleted s) := by
  have hrunning := Table.sum_modify hd (Deletion.finish deleted) Deletion.running
  have hprojected := Table.sum_modify hd (Deletion.finish deleted) Deletion.projected
  have hone : d.running = 1 := if_pos hf
  have hnone : (d.finish deleted).running = 0 := by cases deleted <;> rfl
  have hsize : d.projected = d.size := if_neg (by rw [hf]; nofun)
  have hkept : (d.finish deleted).projected = if deleted then (d.size : Int) else 0 := by cases deleted <;> rfl
  have hnonneg : 0 ≤ (s.current.admitted.modify i (Deletion.finish deleted)).sum Deletion.running :=
    Burst.running_nonneg ⟨s.current.sample, _⟩
  have hcount := h.inFlight
  refine ⟨?_, fun hpos => ?_, fun b hb => ?_, h.past⟩
  · simp only [finishLRUDeletion]
    split <;> omega
  · simp only [finishLRUDeletion] at hpos ⊢
    split at hpos
    · exact absurd hpos (lt_irrefl _)
    next hmore =>
    have hproj := h.projection (by omega)
    rw [if_neg hmore]
    cases deleted <;> simp only [Bool.false_eq_true, if_false, if_true] at hkept ⊢ <;> omega
  · rcases List.mem_cons.mp hb with rfl | hb
    · refine (h.bounded _ List.mem_cons_self).finish hd ?_
      rw [hkept, hsize]
      split <;> omega
    · exact h.bounded b (List.mem_cons_of_mem _ hb)

theorem LRUInv.of_reachable (h : (lruMachine low).Reachable s) : LRUInv low s := by
  refine h.invariant (fun s hs => ?_) fun s a s' hk hs => ?_
  · subst hs
    refine ⟨(Table.sum_empty _).symm, fun hpos => absurd hpos (lt_irrefl _), fun b hb => ?_, nofun⟩
    rcases List.mem_singleton.mp hb with rfl
    intro i d hd
    cases hd
  · cases a with
    | reserve occupied size =>
      cases hs
      exact hk.reserve
    | finish i deleted =>
      simp only [lruMachine, lruStep] at hs
      split at hs
      · next d hd =>
        split at hs
        · next hf => cases hs; exact hk.finish deleted hd hf
        · cases hs
      · cases hs

/-- **Concurrent LRU deletions do not overshoot.** A deletion is admitted only while the occupancy sampled at the
    start of the burst, without the deletions admitted since, is above the low watermark; without the last one
    admitted, what a burst frees is less than the sampled occupancy above it. -/
theorem lru_deletions_bounded (low : Int) {s : LRUState} (h : (lruMachine low).Reachable s) :
    (∀ occupied size, (reserveLRUDeletion low occupied size s).2 = true →
      low < if s.lruInFlightDeletes = 0 then occupied
        else s.current.sample - s.current.admitted.sum Deletion.projected) ∧
    (∀ b ∈ s.current :: s.past, ∀ last d, b.admitted.row last = some d → last + 1 = b.admitted.next →
      b.admitted.sum Deletion.freed - d.freed < b.sample - low) ∧
    (s.lruInFlightDeletes = 0 ↔ ∀ i d, s.current.admitted.row i = some d → d.outcome ≠ .inFlight) ∧
    (s.lruInFlightDeletes = 0 → ∀ occupied size, (reserveLRUDeletion low occupied size s).2 = true →
      (reserveLRUDeletion low occupied size s).1.current.sample = occupied ∧
      (reserveLRUDeletion low occupied size s).1.lruProjectedBytes = occupied - size) := by
  have hinv := LRUInv.of_reachable h
  have hnonneg := s.current.running_nonneg
  have hcount := hinv.inFlight
  refine ⟨fun occupied size hadmit => ?_, fun b hb last d hd hlast => ?_, ⟨fun hzero i d hd hf => ?_, fun hno => ?_⟩,
    fun hzero occupied size hadmit => ?_⟩
  · by_cases hzero : s.lruInFlightDeletes = 0
    · simp only [reserveLRUDeletion, if_pos hzero] at hadmit ⊢
      split at hadmit
      · cases hadmit
      · omega
    · simp only [reserveLRUDeletion, if_neg hzero] at hadmit ⊢
      rw [← hinv.projection (by omega)]
      split at hadmit
      · cases hadmit
      · omega
  · have hbound := hinv.bounded b hb last d hd hlast
    -- what succeeded was not given up, and all of it but the last was there when the last one was admitted
    have hrest : b.admitted.sum Deletion.freed - d.freed ≤ b.admitted.sum Deletion.projected - d.projected := by
      rw [Table.sum_eq_add hd, Table.sum_eq_add hd, add_sub_cancel_left, add_sub_cancel_left]
      refine Finset.sum_le_sum fun j _ => ?_
      cases b.admitted.row j with
      | none => exact le_refl _
      | some e => exact e.freed_le
    omega
  · have hone : d.running = 1 := if_pos hf
    have hsum := Table.sum_eq_add hd Deletion.running
    have hrest : 0 ≤ ∑ j ∈ (Finset.range s.current.admitted.next).erase i,
        (s.current.admitted.row j).elim 0 Deletion.running := by
      refine Finset.sum_nonneg fun j _ => ?_
      cases s.current.admitted.row j with
      | none => exact le_refl _
      | some e => exact e.running_nonneg
    omega
  · rw [hcount]
    exact Table.sum_eq_zero fun i d hd => if_neg (hno i d hd)
  · simp only [reserveLRUDeletion, if_pos hzero] at hadmit ⊢
    split at hadmit
    · cases hadmit
    · next hlow => rw [if_neg hlow]; exact ⟨rfl, rfl⟩

/-- Three deletions overlap and the first one fails; the burst samples 100 bytes and the watermark is 10. -/
def overlapping : List LRUAction :=
  [.reserve 100 60, .reserve 0 20, .reserve 0 30, .finish 1 false, .finish 3 true, .reserve 0 40]

def overlappingState : LRUState := ((lruMachine 10).run {} overlapping).getD {}

theorem lru_deletions_bounded_overlapping :
    overlappingState.lruInFlightDeletes = 2 ∧ overlappingState.lruProjectedBytes = 10 ∧
      overlappingState.current.admitted.sum Deletion.freed - 0 < 100 - 10 :=
  ⟨by decide +kernel, by decide +kernel,
    (lru_deletions_bounded 10 (Lts.Reachable.of_run_isSome (.of_init rfl) (by decide +kernel))).2.1 _
      List.mem_cons_self 4 { size := 40 } (by decide +kernel) (by decide +kernel)⟩

end SynapS3.Eviction
