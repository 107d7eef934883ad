import Mathlib.Algebra.BigOperators.Group.Finset.Basic

/-!
# `Lib.Files` — the files of a disk and their total size

Finitely many paths hold a file, of a size.
-/

/-- Which paths hold a file, and of which size. `support` bounds them. -/
structure Files (P : Type) where
  size : P → Option Nat
  support : Finset P
  mem_support : ∀ p, p ∉ support → size p = none

namespace Files

variable {P : Type}

def empty : Files P := ⟨fun _ => none, ∅, fun _ _ => rfl⟩

def total (f : Files P) (c : P → Bool) : Nat := ∑ p ∈ f.support, if c p then (f.size p).getD 0 else 0

def removeWhere (f : Files P) (q : P → Bool) : Files P where
  size p := if q p then none else f.size p
  support := f.support
  mem_support p hp := by simp [f.mem_support p hp]

theorem size_removeWhere (f : Files P) (q : P → Bool) (p : P) :
    (f.removeWhere q).size p = if q p then none else f.size p := rfl

theorem total_removeWhere (f : Files P) (q c : P → Bool) :
    (f.removeWhere q).total c + f.total (fun p => c p && q p) = f.total c := by
  unfold total
  rw [show (f.removeWhere q).support = f.support from rfl, ← Finset.sum_add_distrib]
  refine Finset.sum_congr rfl fun p _ => ?_
  rw [size_removeWhere]
  by_cases hc : c p = true <;> by_cases hq : q p = true <;> simp [hc, hq]

theorem total_eq_sum (f : Files P) (c : P → Bool) {s : Finset P} (h : f.support ⊆ s) :
    f.total c = ∑ p ∈ s, if c p then (f.size p).getD 0 else 0 := by
  refine Finset.sum_subset h fun p _ hp => ?_
  simp [f.mem_support p hp]

variable [DecidableEq P]

def set (f : Files P) (p : P) (n : Option Nat) : Files P where
  size q := if q = p then n else f.size q
  support := insert p f.support
  mem_support q hq := by
    simp only [Finset.mem_insert, not_or] at hq
    rw [if_neg hq.1, f.mem_support q hq.2]

def rename (f : Files P) (p q : P) : Files P := (f.set p none).set q (f.size p)

@[simp] theorem size_set_self (f : Files P) (p : P) (n : Option Nat) : (f.set p n).size p = n := if_pos rfl

variable {p q : P} {c : P → Bool}

theorem size_set_ne (f : Files P) (h : q ≠ p) (n : Option Nat) : (f.set p n).size q = f.size q := if_neg h

theorem size_rename_ne (f : Files P) {r : P} (hp : r ≠ p) (hq : r ≠ q) : (f.rename p q).size r = f.size r := by
  rw [rename, size_set_ne _ hq, size_set_ne _ hp]

@[simp] theorem size_rename_to (f : Files P) (p q : P) : (f.rename p q).size q = f.size p := size_set_self _ _ _

theorem size_rename_old (f : Files P) (h : p ≠ q) : (f.rename p q).size p = none := by
  rw [rename, size_set_ne _ h, size_set_self]

variable {f : Files P}

theorem total_congr {g : Files P} (h : ∀ p, c p = true → f.size p = g.size p) : f.total c = g.total c := by
  have hf : f.support ⊆ f.support ∪ g.support := Finset.subset_union_left
  have hg : g.support ⊆ f.support ∪ g.support := Finset.subset_union_right
  rw [f.total_eq_sum c hf, g.total_eq_sum c hg]
  refine Finset.sum_congr rfl fun p _ => ?_
  by_cases hc : c p = true
  · rw [h p hc]
  · rw [if_neg hc, if_neg hc]

theorem total_set (f : Files P) (p : P) (n : Option Nat) (c : P → Bool) :
    (f.set p n).total c + (if c p then (f.size p).getD 0 else 0) = f.total c + if c p then n.getD 0 else 0 := by
  have hmem : p ∈ insert p f.support := Finset.mem_insert_self _ _
  have hrest : ∑ q ∈ (insert p f.support).erase p, (if c q then ((f.set p n).size q).getD 0 else 0) =
      ∑ q ∈ (insert p f.support).erase p, if c q then (f.size q).getD 0 else 0 := by
    refine Finset.sum_congr rfl fun q hq => ?_
    rw [size_set_ne _ (Finset.ne_of_mem_erase hq)]
  rw [f.total_eq_sum c (Finset.subset_insert p f.support)]
  unfold total
  rw [show (f.set p n).support = insert p f.support from rfl, ← Finset.add_sum_erase _ _ hmem,
    ← Finset.add_sum_erase _ (fun q => if c q then (f.size q).getD 0 else 0) hmem, hrest, size_set_self]
  omega

theorem total_set_other (f : Files P) (n : Option Nat) (h : c p = false) : (f.set p n).total c = f.total c := by
  have ht := f.total_set p n c
  simpa [h] using ht

theorem total_set_of (h : c p = true) (n : Option Nat) :
    (f.set p n).total c + (f.size p).getD 0 = f.total c + n.getD 0 := by
  have ht := f.total_set p n c
  simpa [h] using ht

end Files
