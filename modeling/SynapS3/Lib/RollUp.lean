import Mathlib.Order.Lattice
import Mathlib.Data.List.Basic

/-!
# `Lib.RollUp` — an ordered list with groups of rows rolled up

Rows are ordered by a key, and some keys belong to a group that has a name of its own. In the rolled-up list
(`rollUp`) a row without a group stands for itself, and each group stands once, under its name. What is
listed of a row depends only on the key before it: a group is listed at a row exactly if its name is greater
than that key. So a listing can be cut after any row and taken up again from the key of that row
(`rollUp_append`).
-/

namespace RollUp

/-- An entry of the rolled-up list: a row, or a group by its name. -/
inductive Entry (ρ K : Type) where
  | object (r : ρ)
  | group (c : K)
  deriving DecidableEq

variable {ρ K : Type}

def rowsOf (es : List (Entry ρ K)) : List ρ := es.filterMap fun e => match e with
  | .object r => some r
  | .group _ => none

def groupsOf (es : List (Entry ρ K)) : List K := es.filterMap fun e => match e with
  | .object _ => none
  | .group c => some c

@[simp] theorem rowsOf_append (es es' : List (Entry ρ K)) : rowsOf (es ++ es') = rowsOf es ++ rowsOf es' :=
  List.filterMap_append

@[simp] theorem groupsOf_append (es es' : List (Entry ρ K)) : groupsOf (es ++ es') = groupsOf es ++ groupsOf es' :=
  List.filterMap_append

variable {c m : K} {r : ρ}

theorem mem_groupsOf {es : List (Entry ρ K)} : c ∈ groupsOf es ↔ .group c ∈ es := by
  unfold groupsOf
  rw [List.mem_filterMap]
  constructor
  · rintro ⟨e, he, hc⟩
    cases e with
    | object r => cases hc
    | group d =>
      cases hc
      exact he
  · intro h
    exact ⟨_, h, rfl⟩

theorem length_rowsOf_add_groupsOf (es : List (Entry ρ K)) :
    (rowsOf es).length + (groupsOf es).length = es.length := by
  induction es with
  | nil => rfl
  | cons e es ih =>
    cases e with
    | object r =>
      have h₁ : rowsOf (.object r :: es) = r :: rowsOf es := rfl
      have h₂ : groupsOf (.object r :: es) = groupsOf es := rfl
      rw [h₁, h₂, List.length_cons, List.length_cons]
      omega
    | group c =>
      have h₁ : rowsOf (.group c :: es) = rowsOf es := rfl
      have h₂ : groupsOf (.group c :: es) = c :: groupsOf es := rfl
      rw [h₁, h₂, List.length_cons, List.length_cons]
      omega

/-- One entry comes before another: rows by an order of their own, everything else by key and name. -/
def Entry.Before [LT K] (key : ρ → K) (before : ρ → ρ → Prop) : Entry ρ K → Entry ρ K → Prop
  | .object r, .object s => before r s
  | .object r, .group d => key r < d
  | .group c, .object s => c < key s
  | .group c, .group d => c < d

variable [LinearOrder K] (key : ρ → K) (group : K → Option K)

/-- What is listed at a row that follows the key `m`. -/
def entryOf (m : K) (r : ρ) : List (Entry ρ K) :=
  match group (key r) with
  | none => [.object r]
  | some c => if m < c then [.group c] else []

variable {key group} in
theorem entryOf_object (hg : group (key r) = none) : entryOf key group m r = [.object r] := by
  unfold entryOf
  rw [hg]

variable {key group} in
theorem entryOf_group (hg : group (key r) = some c) (hlt : m < c) : entryOf key group m r = [.group c] := by
  unfold entryOf
  rw [hg]
  exact if_pos hlt

variable {key group} in
theorem entryOf_nil (hg : group (key r) = some c) (hno : ¬ m < c) : entryOf key group m r = [] := by
  unfold entryOf
  rw [hg]
  exact if_neg hno

/-- The rolled-up list of rows that follow the key `m`. -/
def rollUp : K → List ρ → List (Entry ρ K)
  | _, [] => []
  | m, r :: rest => entryOf key group m r ++ rollUp (key r) rest

def lastKey : K → List ρ → K
  | m, [] => m
  | _, r :: rest => lastKey (key r) rest

omit [LinearOrder K] in
theorem lastKey_append (m : K) (rows rows' : List ρ) :
    lastKey key m (rows ++ rows') = lastKey key (lastKey key m rows) rows' := by
  induction rows generalizing m with
  | nil => rfl
  | cons s rows ih => exact ih (key s)

omit [LinearOrder K] in
theorem lastKey_concat (m : K) (rows : List ρ) (r : ρ) : lastKey key m (rows ++ [r]) = key r :=
  lastKey_append key m rows [r]

/-- **A listing can be cut anywhere.** -/
theorem rollUp_append (m : K) (rows rows' : List ρ) :
    rollUp key group m (rows ++ rows') = rollUp key group m rows ++ rollUp key group (lastKey key m rows) rows' := by
  induction rows generalizing m with
  | nil => rfl
  | cons r rows ih =>
    show entryOf key group m r ++ rollUp key group (key r) (rows ++ rows') = _
    rw [ih, ← List.append_assoc]
    rfl

theorem rollUp_singleton (m : K) (r : ρ) : rollUp key group m [r] = entryOf key group m r := List.append_nil _

/-- Rows of a group whose name is not greater than the key before them list nothing. -/
theorem rollUp_eq_nil {rows : List ρ} (hm : c ≤ m) (h : ∀ r ∈ rows, group (key r) = some c ∧ c ≤ key r) :
    rollUp key group m rows = [] := by
  induction rows generalizing m with
  | nil => rfl
  | cons r rows ih =>
    obtain ⟨hgroup, hle⟩ := h r List.mem_cons_self
    show entryOf key group m r ++ rollUp key group (key r) rows = []
    rw [entryOf_nil hgroup (not_lt.mpr hm), List.nil_append]
    exact ih hle fun s hs => h s (List.mem_cons_of_mem _ hs)

/-- The rows are in order of their keys, the name of a group is not greater than the keys in it, and the
    keys from the name on up to a key of the group are in the group. -/
structure Grouped (rows : List ρ) : Prop where
  sorted : rows.Pairwise fun r s => key r ≤ key s
  group_le : ∀ r ∈ rows, ∀ c, group (key r) = some c → c ≤ key r
  group_between : ∀ r ∈ rows, ∀ s ∈ rows, ∀ c, group (key s) = some c → c ≤ key r → key r ≤ key s →
    group (key r) = some c

namespace Grouped

variable {key group} {rows : List ρ}

theorem sublist (h : Grouped key group rows) {rows' : List ρ} (hs : rows'.Sublist rows) :
    Grouped key group rows' where
  sorted := h.sorted.sublist hs
  group_le r hr := h.group_le r (hs.subset hr)
  group_between r hr s hs' := h.group_between r (hs.subset hr) s (hs.subset hs')

theorem tail (h : Grouped key group (r :: rows)) : Grouped key group rows :=
  h.sublist (List.sublist_cons_self r rows)

theorem le_of_mem {s : ρ} (h : Grouped key group (r :: rows)) (hs : s ∈ rows) : key r ≤ key s :=
  List.rel_of_pairwise_cons h.sorted hs

theorem le_lastKey (h : Grouped key group rows) (hm : ∀ r ∈ rows, m ≤ key r) :
    m ≤ lastKey key m rows ∧ ∀ r ∈ rows, key r ≤ lastKey key m rows := by
  induction rows generalizing m with
  | nil => exact ⟨le_refl _, fun r hr => absurd hr List.not_mem_nil⟩
  | cons r rows ih =>
    obtain ⟨hle, hall⟩ := ih h.tail fun s hs => h.le_of_mem hs
    refine ⟨le_trans (hm r List.mem_cons_self) hle, ?_⟩
    intro s hs
    rcases List.mem_cons.mp hs with rfl | hs
    · exact hle
    · exact hall s hs

end Grouped

variable {key group} {rows : List ρ} {m : K} {r : ρ}

theorem mem_entryOf_object {s : ρ} : .object r ∈ entryOf key group m s ↔ r = s ∧ group (key s) = none := by
  unfold entryOf
  cases hg : group (key s) with
  | none => simp
  | some c => by_cases hlt : m < c <;> simp [hlt]

theorem mem_rollUp_object : .object r ∈ rollUp key group m rows ↔ r ∈ rows ∧ group (key r) = none := by
  induction rows generalizing m with
  | nil => simp [rollUp]
  | cons s rows ih =>
    show .object r ∈ entryOf key group m s ++ rollUp key group (key s) rows ↔ _
    rw [List.mem_append, mem_entryOf_object, ih, List.mem_cons]
    constructor
    · rintro (⟨rfl, hg⟩ | ⟨hr, hg⟩)
      · exact ⟨.inl rfl, hg⟩
      · exact ⟨.inr hr, hg⟩
    · rintro ⟨rfl | hr, hg⟩
      · exact .inl ⟨rfl, hg⟩
      · exact .inr ⟨hr, hg⟩

theorem mem_entryOf_group : .group c ∈ entryOf key group m r ↔ group (key r) = some c ∧ m < c := by
  unfold entryOf
  cases hg : group (key r) with
  | none => simp
  | some d =>
    by_cases hlt : m < d
    · simp only [hlt, if_true, List.mem_singleton, Entry.group.injEq, Option.some.injEq]
      exact ⟨fun h => ⟨h.symm, h ▸ hlt⟩, fun h => h.1.symm⟩
    · simp only [hlt, if_false, List.not_mem_nil, Option.some.injEq, false_iff, not_and]
      rintro rfl
      exact hlt

theorem mem_rollUp_group (h : Grouped key group rows) (hm : ∀ r ∈ rows, m ≤ key r) :
    .group c ∈ rollUp key group m rows ↔ m < c ∧ ∃ r ∈ rows, group (key r) = some c := by
  induction rows generalizing m with
  | nil => simp [rollUp]
  | cons s rows ih =>
    have hms := hm s List.mem_cons_self
    have hrest := ih h.tail fun r hr => h.le_of_mem hr
    show .group c ∈ entryOf key group m s ++ rollUp key group (key s) rows ↔ _
    rw [List.mem_append, mem_entryOf_group, hrest]
    constructor
    · rintro (⟨hg, hlt⟩ | ⟨hlt, r, hr, hg⟩)
      · exact ⟨hlt, s, List.mem_cons_self, hg⟩
      · exact ⟨lt_of_le_of_lt hms hlt, r, List.mem_cons_of_mem _ hr, hg⟩
    · rintro ⟨hlt, r, hr, hg⟩
      rcases List.mem_cons.mp hr with rfl | hr'
      · exact .inl ⟨hg, hlt⟩
      · -- the first row is before the group or in it
        rcases lt_or_ge (key s) c with hsc | hsc
        · exact .inr ⟨hsc, r, hr', hg⟩
        · exact .inl ⟨h.group_between s List.mem_cons_self r hr c hg hsc (h.le_of_mem hr'), hlt⟩

theorem rollUp_pairwise {before : ρ → ρ → Prop} (h : Grouped key group rows) (hbefore : rows.Pairwise before) :
    (rollUp key group m rows).Pairwise (Entry.Before key before) := by
  induction rows generalizing m with
  | nil => exact List.Pairwise.nil
  | cons s rows ih =>
    have hle : ∀ r ∈ rows, key s ≤ key r := fun r hr => h.le_of_mem hr
    show (entryOf key group m s ++ rollUp key group (key s) rows).Pairwise _
    rw [List.pairwise_append]
    refine ⟨?_, ih h.tail hbefore.of_cons, ?_⟩
    · unfold entryOf
      split
      · exact List.pairwise_singleton _ _
      · split
        · exact List.pairwise_singleton _ _
        · exact List.Pairwise.nil
    intro e he f hf
    cases f with
    | object r =>
      obtain ⟨hr, hgr⟩ := mem_rollUp_object.mp hf
      cases e with
      | object s' =>
        obtain ⟨rfl, -⟩ := mem_entryOf_object.mp he
        exact List.rel_of_pairwise_cons hbefore hr
      | group c =>
        obtain ⟨hgs, -⟩ := mem_entryOf_group.mp he
        have hcs := h.group_le s List.mem_cons_self c hgs
        refine lt_of_le_of_ne (le_trans hcs (hle r hr)) ?_
        rintro rfl
        -- a row that is named as the group is in the group
        rw [le_antisymm (hle r hr) hcs, hgr] at hgs
        cases hgs
    | group d =>
      obtain ⟨hlt, -⟩ := (mem_rollUp_group h.tail hle).mp hf
      cases e with
      | object s' =>
        obtain ⟨rfl, -⟩ := mem_entryOf_object.mp he
        exact hlt
      | group c =>
        obtain ⟨hgs, -⟩ := mem_entryOf_group.mp he
        exact lt_of_le_of_lt (h.group_le s List.mem_cons_self c hgs) hlt

end RollUp
