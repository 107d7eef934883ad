/-!
# `Lib.Tx` — atomic transactions

A transaction over a database `σ` reads and writes the state and may refuse with an error; a refusal leaves
nothing behind, which is what *atomic* means. `Tx` is the state monad over `Except`, written out so that
its equations are the only thing a proof needs.

`Tx.zoom` runs a transaction of one part of the database inside a transaction of the whole.

The caller of a transaction does not always learn what became of it: the commit may fail, or succeed without
its answer arriving.
-/

/-- A transaction: it answers with the new state, or is undone. -/
def Tx (ε σ α : Type) : Type := σ → Except ε (α × σ)

namespace Tx

variable {ε σ τ α β : Type}

protected def pure (a : α) : Tx ε σ α := fun s => .ok (a, s)

protected def bind (x : Tx ε σ α) (f : α → Tx ε σ β) : Tx ε σ β := fun s =>
  match x s with
  | .ok (a, s') => f a s'
  | .error e => .error e

instance : Monad (Tx ε σ) where
  pure := Tx.pure
  bind := Tx.bind

def read : Tx ε σ σ := fun s => .ok (s, s)

def write (s : σ) : Tx ε σ Unit := fun _ => .ok ((), s)

def fail (e : ε) : Tx ε σ α := fun _ => .error e

def require (p : Bool) (e : ε) : Tx ε σ Unit := if p then pure () else fail e

def orFail (x : Option α) (e : ε) : Tx ε σ α :=
  match x with
  | some a => pure a
  | none => fail e

def zoom (get : τ → σ) (put : σ → τ → τ) (x : Tx ε σ α) : Tx ε τ α := fun t =>
  match x (get t) with
  | .ok (a, s) => .ok (a, put s t)
  | .error e => .error e

/-- What became of a commit: done and answered, not done, or done without an answer. -/
inductive Outcome where
  | ok
  | failed
  | lost
  deriving DecidableEq

/-- Commit `x` as the outcome says; a caller that was not answered gets the error `lost`. -/
def commit (lost : ε) (o : Outcome) (x : Tx ε σ Unit) (s : σ) : Except ε Unit × σ :=
  match o, x s with
  | .failed, _ => (.error lost, s)
  | _, .error e => (.error e, s)
  | .ok, .ok (_, t) => (.ok (), t)
  | .lost, .ok (_, t) => (.error lost, t)

def after (x : Tx ε σ α) (s : σ) : Option σ :=
  match x s with
  | .ok (_, t) => some t
  | .error _ => none

def Ok (x : Tx ε σ α) (s : σ) (a : α) (s' : σ) : Prop := x s = .ok (a, s')

/-! ## Taking a committed transaction apart -/

variable {b : β} {s s' t : σ} {e : ε}

@[simp] theorem ok_pure {a b : α} : (pure a : Tx ε σ α).Ok s b s' ↔ b = a ∧ s' = s := by
  show (Except.ok (a, s) : Except ε (α × σ)) = .ok (b, s') ↔ _
  simp only [Except.ok.injEq, Prod.mk.injEq]
  exact ⟨fun h => ⟨h.1.symm, h.2.symm⟩, fun h => ⟨h.1.symm, h.2.symm⟩⟩

@[simp] theorem ok_bind {x : Tx ε σ α} {f : α → Tx ε σ β} :
    (x >>= f).Ok s b s' ↔ ∃ a t, x.Ok s a t ∧ (f a).Ok t b s' := by
  show (Tx.bind x f) s = _ ↔ _
  unfold Tx.bind Ok
  cases hx : x s with
  | ok p =>
    obtain ⟨a, t⟩ := p
    constructor
    · intro h; exact ⟨a, t, rfl, h⟩
    · rintro ⟨a', t', h, h'⟩; cases h; exact h'
  | error e => simp

@[simp] theorem ok_read {a : σ} : (read : Tx ε σ σ).Ok s a s' ↔ a = s ∧ s' = s := by
  unfold read Ok
  simp only [Except.ok.injEq, Prod.mk.injEq]
  exact ⟨fun h => ⟨h.1.symm, h.2.symm⟩, fun h => ⟨h.1.symm, h.2.symm⟩⟩

@[simp] theorem ok_write {a : Unit} : (write t : Tx ε σ Unit).Ok s a s' ↔ s' = t := by
  unfold write Ok
  simp only [Except.ok.injEq, Prod.mk.injEq, true_and]
  exact eq_comm

@[simp] theorem ok_fail {a : α} : ¬ (fail e : Tx ε σ α).Ok s a s' := by
  unfold fail Ok; simp

@[simp] theorem ok_require {p : Bool} {a : Unit} : (require p e : Tx ε σ Unit).Ok s a s' ↔ p = true ∧ s' = s := by
  unfold require
  cases p <;> simp

@[simp] theorem ok_orFail {x : Option α} {a : α} : (orFail x e : Tx ε σ α).Ok s a s' ↔ x = some a ∧ s' = s := by
  unfold orFail
  cases x <;> simp [eq_comm]

theorem ok_bind_pure {x : Tx ε σ α} {f : α → β} :
    (x >>= fun a => pure (f a)).Ok s b s' ↔ ∃ a, x.Ok s a s' ∧ b = f a := by
  simp only [ok_bind, ok_pure]
  constructor
  · rintro ⟨a, t, h, rfl, rfl⟩
    exact ⟨a, h, rfl⟩
  · rintro ⟨a, h, rfl⟩
    exact ⟨a, s', h, rfl, rfl⟩

/-! The same for the first step of a longer transaction: the state between is known. -/

theorem ok_read_bind {f : σ → Tx ε σ β} : (read >>= f).Ok s b s' ↔ (f s).Ok s b s' := by
  rw [ok_bind]
  constructor
  · rintro ⟨a, t, h, hf⟩
    obtain ⟨rfl, rfl⟩ := ok_read.mp h
    exact hf
  · exact fun hf => ⟨s, s, ok_read.mpr ⟨rfl, rfl⟩, hf⟩

theorem ok_require_bind {p : Bool} {f : Unit → Tx ε σ β} :
    (require p e >>= f).Ok s b s' ↔ p = true ∧ (f ()).Ok s b s' := by
  rw [ok_bind]
  constructor
  · rintro ⟨a, t, h, hf⟩
    obtain ⟨hp, rfl⟩ := ok_require.mp h
    exact ⟨hp, hf⟩
  · exact fun ⟨hp, hf⟩ => ⟨(), s, ok_require.mpr ⟨hp, rfl⟩, hf⟩

theorem ok_orFail_bind {x : Option α} {f : α → Tx ε σ β} :
    (orFail x e >>= f).Ok s b s' ↔ ∃ a, x = some a ∧ (f a).Ok s b s' := by
  rw [ok_bind]
  constructor
  · rintro ⟨a, t, h, hf⟩
    obtain ⟨hx, rfl⟩ := ok_orFail.mp h
    exact ⟨a, hx, hf⟩
  · exact fun ⟨a, hx, hf⟩ => ⟨a, s, ok_orFail.mpr ⟨hx, rfl⟩, hf⟩

theorem ok_write_bind {f : Unit → Tx ε σ β} : (write t >>= f).Ok s b s' ↔ (f ()).Ok t b s' := by
  rw [ok_bind]
  constructor
  · rintro ⟨a, u, h, hf⟩
    rw [ok_write.mp h] at hf
    exact hf
  · exact fun hf => ⟨(), t, ok_write.mpr rfl, hf⟩

theorem ok_ite {p : Prop} [Decidable p] {x y : Tx ε σ α} {a : α} :
    (if p then x else y).Ok s a s' ↔ (p ∧ x.Ok s a s') ∨ (¬ p ∧ y.Ok s a s') := by
  by_cases h : p <;> simp [h]

@[simp] theorem ok_zoom {get : τ → σ} {put : σ → τ → τ} {x : Tx ε σ α} {t t' : τ} {a : α} :
    (zoom get put x).Ok t a t' ↔ ∃ s, x.Ok (get t) a s ∧ t' = put s t := by
  unfold zoom Ok
  cases hx : x (get t) with
  | ok p =>
    obtain ⟨b, s⟩ := p
    simp only [hx, Except.ok.injEq, Prod.mk.injEq]
    constructor
    · rintro ⟨rfl, rfl⟩; exact ⟨s, ⟨rfl, rfl⟩, rfl⟩
    · rintro ⟨_, ⟨rfl, rfl⟩, rfl⟩; exact ⟨rfl, rfl⟩
  | error e => simp [hx]

theorem after_eq_some {x : Tx ε σ α} : x.after s = some t ↔ ∃ a, x.Ok s a t := by
  unfold after Ok
  cases hx : x s with
  | ok p =>
    obtain ⟨a, t'⟩ := p
    constructor
    · intro h; cases h; exact ⟨a, rfl⟩
    · rintro ⟨_, h⟩; cases h; rfl
  | error e =>
    constructor
    · intro h; cases h
    · rintro ⟨_, h⟩; cases h

theorem commit_cases {lost : ε} {o : Outcome} {x : Tx ε σ Unit} {r : Except ε Unit}
    (h : x.commit lost o s = (r, t)) :
    (t = s ∧ ∃ e, r = .error e) ∨ (x.Ok s () t ∧ (r = .ok () ∨ r = .error lost)) := by
  unfold commit at h
  cases hx : x s with
  | error e => left; cases o <;> rw [hx] at h <;> cases h <;> exact ⟨rfl, _, rfl⟩
  | ok p =>
    rw [hx] at h
    cases o with
    | failed => cases h; exact .inl ⟨rfl, _, rfl⟩
    | ok => cases h; exact .inr ⟨hx, .inl rfl⟩
    | lost => cases h; exact .inr ⟨hx, .inr rfl⟩

end Tx
