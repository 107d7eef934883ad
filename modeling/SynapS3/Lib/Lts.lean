import Mathlib.Logic.Relation
import Mathlib.Order.Defs.PartialOrder

/-!
# `Lib.Lts` — labelled transition systems and their two induction rules

A system is a set of initial states and a *partial* step function: `step s a` is the state the action `a`
leads to, or `none` where `a` is not enabled.
-/

/-- A labelled transition system: initial states and a partial step function. -/
structure Lts (σ ι : Type*) where
  init : σ → Prop
  step : σ → ι → Option σ

namespace Lts

variable {σ ι : Type*} (M : Lts σ ι)

def Step (s s' : σ) : Prop := ∃ a, M.step s a = some s'

def Steps : σ → σ → Prop := Relation.ReflTransGen M.Step

def Reachable (s : σ) : Prop := ∃ s₀, M.init s₀ ∧ M.Steps s₀ s

/-- Run a list of actions; `none` as soon as one of them is not enabled. -/
def run : σ → List ι → Option σ
  | s, [] => some s
  | s, a :: as => (M.step s a).bind fun s' => run s' as

/-- The system in which an action is enabled only in the states that `P` allows it in. -/
def restrict (P : σ → ι → Bool) : Lts σ ι where
  init := M.init
  step s a := if P s a then M.step s a else none

variable {M}

theorem Reachable.of_init {s : σ} (h : M.init s) : M.Reachable s := ⟨s, h, .refl⟩

/-- **The invariant rule.** What holds initially and is kept by every step holds in every reachable
    state. -/
theorem Reachable.invariant {I : σ → Prop} (hinit : ∀ s, M.init s → I s)
    (hstep : ∀ s a s', I s → M.step s a = some s' → I s') {s : σ} (h : M.Reachable s) : I s := by
  obtain ⟨s₀, h₀, hr⟩ := h
  induction hr with
  | refl => exact hinit _ h₀
  | tail _ hs ih =>
    obtain ⟨a, ha⟩ := hs
    exact hstep _ a _ ih ha

/-- **The preorder rule.** A reflexive and transitive relation that every step out of an `I`-state
    respects relates the two ends of every run from an `I`-state. *Absorbing* and *monotone* facts are stated so. -/
theorem Steps.lift {I : σ → Prop} {R : σ → σ → Prop} (hrefl : ∀ s, R s s) (htrans : ∀ s t u, R s t → R t u → R s u)
    (hinv : ∀ s a s', I s → M.step s a = some s' → I s')
    (hstep : ∀ s a s', I s → M.step s a = some s' → R s s')
    {s s' : σ} (hs : I s) (h : M.Steps s s') : I s' ∧ R s s' := by
  induction h with
  | refl => exact ⟨hs, hrefl s⟩
  | tail _ hst ih =>
    obtain ⟨a, ha⟩ := hst
    exact ⟨hinv _ a _ ih.1 ha, htrans _ _ _ ih.2 (hstep _ a _ ih.1 ha)⟩

theorem Steps.of_run {s s' : σ} {as : List ι} (h : M.run s as = some s') : M.Steps s s' := by
  induction as generalizing s with
  | nil => cases h; exact .refl
  | cons a as ih =>
    simp only [run, Option.bind_eq_some_iff] at h
    obtain ⟨t, ht, hr⟩ := h
    exact Relation.ReflTransGen.head ⟨a, ht⟩ (ih hr)

theorem Reachable.steps {s s' : σ} (hs : M.Reachable s) (h : M.Steps s s') : M.Reachable s' := by
  obtain ⟨s₀, h₀, hr⟩ := hs
  exact ⟨s₀, h₀, hr.trans h⟩

theorem Reachable.of_run {s s' : σ} {as : List ι} (hs : M.Reachable s) (h : M.run s as = some s') :
    M.Reachable s' := hs.steps (Steps.of_run h)

theorem Steps.of_run_isSome {s d : σ} {as : List ι} (h : (M.run s as).isSome = true) :
    M.Steps s ((M.run s as).getD d) := by
  obtain ⟨s', hrun⟩ := Option.isSome_iff_exists.mp h
  rw [hrun, Option.getD_some]
  exact .of_run hrun

theorem Reachable.of_run_isSome {s d : σ} {as : List ι} (hs : M.Reachable s) (h : (M.run s as).isSome = true) :
    M.Reachable ((M.run s as).getD d) := hs.steps (.of_run_isSome h)

theorem restrict_step {P : σ → ι → Bool} {s s' : σ} {a : ι}
    (h : (M.restrict P).step s a = some s') : P s a = true ∧ M.step s a = some s' := by
  simp only [restrict] at h
  split at h
  · exact ⟨by assumption, h⟩
  · cases h

end Lts
