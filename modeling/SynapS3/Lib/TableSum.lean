import Mathlib.Algebra.BigOperators.Group.Finset.Basic
import Mathlib.Algebra.Order.BigOperators.Group.Finset
import SynapS3.Lib.Table

/-!
# `Lib.TableSum` — sums over the rows of a table

What a counter has to agree with: the sum of a figure over all rows. One lemma for each kind of write says by how
much it changes.
-/

namespace Table

variable {α M : Type} [AddCommMonoid M]

def sum (t : Table α) (f : α → M) : M := ∑ i ∈ Finset.range t.next, (t.row i).elim 0 f

@[simp] theorem sum_empty (f : α → M) : (empty : Table α).sum f = 0 := by
  simp [sum]

theorem sum_insert (t : Table α) (a : α) (f : α → M) : (t.insert a).sum f = t.sum f + f a := by
  have hold : ∀ i ∈ Finset.range t.next, ((t.insert a).row i).elim 0 f = (t.row i).elim 0 f := by
    intro i hi
    rw [row_insert, if_neg (Nat.ne_of_lt (Finset.mem_range.mp hi))]
  show ∑ i ∈ Finset.range (t.next + 1), ((t.insert a).row i).elim 0 f = _
  rw [Finset.sum_range_succ, Finset.sum_congr rfl hold, row_insert, if_pos rfl]
  rfl

variable {t : Table α} {i : Nat} {r : α}

theorem sum_eq_add (h : t.row i = some r) (f : α → M) :
    t.sum f = f r + ∑ j ∈ (Finset.range t.next).erase i, (t.row j).elim 0 f := by
  unfold sum
  rw [← Finset.add_sum_erase _ _ (Finset.mem_range.mpr (lt_next h)), h]
  rfl

theorem sum_modify (h : t.row i = some r) (g : α → α) (f : α → M) :
    (t.modify i g).sum f + f r = t.sum f + f (g r) := by
  have hrest : ∑ j ∈ (Finset.range t.next).erase i, ((t.modify i g).row j).elim 0 f =
      ∑ j ∈ (Finset.range t.next).erase i, (t.row j).elim 0 f := by
    refine Finset.sum_congr rfl fun j hj => ?_
    rw [row_modify, if_neg (Finset.ne_of_mem_erase hj)]
  rw [sum_eq_add (row_modify_at h g) f, sum_eq_add h f]
  show f (g r) + ∑ j ∈ (Finset.range t.next).erase i, ((t.modify i g).row j).elim 0 f + f r = _
  rw [hrest]
  simp only [add_comm, add_left_comm]

theorem sum_congr {f g : α → M} (h : ∀ i r, t.row i = some r → f r = g r) : t.sum f = t.sum g := by
  refine Finset.sum_congr rfl fun i _ => ?_
  cases hr : t.row i with
  | none => rfl
  | some r => exact h i r hr

theorem sum_eq_zero {f : α → M} (h : ∀ i r, t.row i = some r → f r = 0) : t.sum f = 0 := by
  refine Finset.sum_eq_zero fun i _ => ?_
  cases hr : t.row i with
  | none => rfl
  | some r => exact h i r hr

theorem le_sum (h : t.row i = some r) (f : α → Nat) : f r ≤ t.sum f := by
  rw [sum_eq_add h f]
  exact Nat.le_add_right _ _

theorem add_le_sum {j : Nat} {q : α} (hi : t.row i = some r) (hj : t.row j = some q) (hne : j ≠ i)
    (f : α → Nat) : f r + f q ≤ t.sum f := by
  rw [sum_eq_add hi f]
  refine Nat.add_le_add_left ?_ _
  have hmem : j ∈ (Finset.range t.next).erase i := Finset.mem_erase.mpr ⟨hne, Finset.mem_range.mpr (lt_next hj)⟩
  have hle := Finset.single_le_sum (f := fun k => (t.row k).elim 0 f) (fun k _ => Nat.zero_le _) hmem
  simpa [hj] using hle

theorem exists_of_sum_pos {f : α → Nat} (h : 0 < t.sum f) : ∃ i r, t.row i = some r ∧ 0 < f r := by
  by_contra hno
  push Not at hno
  rw [sum_eq_zero fun i r hr => Nat.le_zero.mp (hno i r hr)] at h
  exact Nat.lt_irrefl 0 h

end Table
