import Mathlib.Data.List.Nodup
import Mathlib.Data.List.Range

/-!
# `Lib.Table` — database tables with generated identifiers

A table maps identifiers to rows. Identifiers are handed out in increasing order by `insert`, so a table
carries the next one together with the proof that no row lies at or above it; a row therefore never
appears twice and a fresh row never overwrites an old one.
-/

/-- A table with an identity column: `next` is the identifier of the next row. -/
structure Table (α : Type) where
  next : Nat
  row : Nat → Option α
  fresh : ∀ i, next ≤ i → row i = none

namespace Table

variable {α : Type}

def empty : Table α := ⟨1, fun _ => none, fun _ _ => rfl⟩

def insert (t : Table α) (a : α) : Table α where
  next := t.next + 1
  row i := if i = t.next then some a else t.row i
  fresh i hi := by
    have hne : i ≠ t.next := by omega
    rw [if_neg hne]
    exact t.fresh i (by omega)

def modify (t : Table α) (i : Nat) (f : α → α) : Table α where
  next := t.next
  row j := if j = i then (t.row j).map f else t.row j
  fresh j hj := by simp [t.fresh j hj]

def updateWhere (t : Table α) (p : Nat → α → Bool) (f : Nat → α → α) : Table α where
  next := t.next
  row j := (t.row j).map fun r => if p j r then f j r else r
  fresh j hj := by simp [t.fresh j hj]

def deleteWhere (t : Table α) (p : Nat → α → Bool) : Table α where
  next := t.next
  row j := (t.row j).filter fun r => !p j r
  fresh j hj := by simp [t.fresh j hj]

/-- The identifiers of the rows that satisfy `p`, in increasing order. -/
def ids (t : Table α) (p : Nat → α → Bool) : List Nat :=
  (List.range t.next).filter fun i => (t.row i).any (p i)

def any (t : Table α) (p : Nat → α → Bool) : Bool := !(t.ids p).isEmpty

/-! ## Reading an updated table -/

@[simp] theorem row_empty (i : Nat) : (empty : Table α).row i = none := rfl

@[simp] theorem row_insert (t : Table α) (a : α) (i : Nat) :
    (t.insert a).row i = if i = t.next then some a else t.row i := rfl

@[simp] theorem row_modify (t : Table α) (i : Nat) (f : α → α) (j : Nat) :
    (t.modify i f).row j = if j = i then (t.row j).map f else t.row j := rfl

@[simp] theorem row_updateWhere (t : Table α) (p : Nat → α → Bool) (f : Nat → α → α) (j : Nat) :
    (t.updateWhere p f).row j = (t.row j).map fun r => if p j r then f j r else r := rfl

@[simp] theorem row_deleteWhere (t : Table α) (p : Nat → α → Bool) (j : Nat) :
    (t.deleteWhere p).row j = (t.row j).filter fun r => !p j r := rfl

variable {t : Table α} {i j : Nat} {r : α} {f : α → α} {p : Nat → α → Bool}

theorem cleared {q : Prop} (h : (t.deleteWhere fun _ _ => true).row i = some r) : q := by simp at h

theorem row_modify_of (h : t.row i = some r) (f : α → α) (j : Nat) :
    (t.modify i f).row j = if j = i then some (f r) else t.row j := by
  rw [row_modify]
  split
  · next hj => rw [hj, h]; rfl
  · rfl

theorem row_modify_at (h : t.row i = some r) (f : α → α) : (t.modify i f).row i = some (f r) := by
  rw [row_modify_of h, if_pos rfl]

theorem row_modify_some (h : t.row j = some r) (i : Nat) (f : α → α) :
    (t.modify i f).row j = some (if j = i then f r else r) := by
  rw [row_modify, h]
  split <;> rfl

theorem modify_congr (h : t.row i = some r) {g : α → α} (hfg : f r = g r) : t.modify i f = t.modify i g := by
  simp only [modify, mk.injEq, true_and]
  funext j
  split
  · next hj => rw [hj, h, Option.map_some, Option.map_some, hfg]
  · rfl

theorem modify_modify (t : Table α) (i : Nat) (f g : α → α) :
    (t.modify i f).modify i g = t.modify i (fun r => g (f r)) := by
  simp only [modify, mk.injEq, true_and]
  funext j
  by_cases hj : j = i
  · simp only [hj, if_pos, Option.map_map]; rfl
  · simp only [hj, if_false]

@[simp] theorem modify_self (t : Table α) (i : Nat) : t.modify i (fun r => r) = t := by
  obtain ⟨next, row, fresh⟩ := t
  have hrow : (fun j => if j = i then (row j).map (fun r => r) else row j) = row := by
    funext j
    split <;> simp
  simp only [modify, mk.injEq, true_and]
  exact hrow

theorem lt_next (h : t.row i = some r) : i < t.next := by
  by_contra hn
  rw [t.fresh i (by omega)] at h
  cases h

theorem row_insert_cases {a : α} (h : (t.insert a).row i = some r) :
    (i = t.next ∧ r = a) ∨ (i ≠ t.next ∧ t.row i = some r) := by
  rw [row_insert] at h
  split at h
  · next hi => exact .inl ⟨hi, (Option.some.inj h).symm⟩
  · next hi => exact .inr ⟨hi, h⟩

theorem row_modify_cases (h : (t.modify i f).row j = some r) :
    (j = i ∧ ∃ r₀, t.row i = some r₀ ∧ r = f r₀) ∨ (j ≠ i ∧ t.row j = some r) := by
  rw [row_modify] at h
  split at h
  · next hj =>
    subst hj
    obtain ⟨r₀, h₀, rfl⟩ := Option.map_eq_some_iff.mp h
    exact .inl ⟨rfl, r₀, h₀, rfl⟩
  · next hj => exact .inr ⟨hj, h⟩

theorem row_modify_read {r' : α} (hr : t.row i = some r) (h : (t.modify i f).row j = some r') :
    (j = i ∧ r' = f r) ∨ (j ≠ i ∧ t.row j = some r') := by
  rw [row_modify_of hr] at h
  split at h
  · next hj => exact .inl ⟨hj, (Option.some.inj h).symm⟩
  · next hj => exact .inr ⟨hj, h⟩

theorem row_updateWhere_cases {f : Nat → α → α} (h : (t.updateWhere p f).row j = some r) :
    ∃ r₀, t.row j = some r₀ ∧ ((p j r₀ = true ∧ r = f j r₀) ∨ (p j r₀ = false ∧ r = r₀)) := by
  rw [row_updateWhere] at h
  obtain ⟨r₀, h₀, hr⟩ := Option.map_eq_some_iff.mp h
  refine ⟨r₀, h₀, ?_⟩
  cases hp : p j r₀ with
  | true => rw [hp, if_pos rfl] at hr; exact .inl ⟨rfl, hr.symm⟩
  | false => rw [hp, if_neg (by simp)] at hr; exact .inr ⟨rfl, hr.symm⟩

/-! ## Queries over all rows -/

theorem mem_ids : i ∈ t.ids p ↔ ∃ r, t.row i = some r ∧ p i r = true := by
  simp only [ids, List.mem_filter, List.mem_range, Option.any_eq_true]
  exact ⟨fun h => h.2, fun h => ⟨lt_next h.choose_spec.1, h⟩⟩

theorem nodup_ids (t : Table α) (p : Nat → α → Bool) : (t.ids p).Nodup :=
  List.nodup_range.filter _

theorem any_iff : t.any p = true ↔ ∃ i r, t.row i = some r ∧ p i r = true := by
  simp only [any, Bool.not_eq_true', List.isEmpty_eq_false_iff_exists_mem]
  exact exists_congr fun _ => mem_ids

theorem any_eq_false : t.any p = false ↔ ∀ i r, t.row i = some r → p i r = false := by
  rw [← Bool.not_eq_true, any_iff]
  push Not
  simp

end Table
