import Mathlib.Data.List.Nodup
import SynapS3.Lib.Lts

/-!
# `Lib.Prog` — worker programs, the machine that interleaves them, and how to reason about one at a time

A program is a tree of actions: after each action it continues with the answer. A `Machine` says what one
action may do to the shared state under a choice `ο` of the environment, and what the environment does on
its own (`env`, which may start a program under a new key). A configuration is the shared state and the
programs still running; any of them may take the next action, and any of them may stop for good (`crash`).

One program is verified at a time against a `Contract`.
-/

/-- A program over actions `E` with answers `A`, ending in a value. -/
inductive Prog (E : Type) (A : E → Type) (α : Type) where
  | ret (a : α)
  | act (e : E) (k : A e → Prog E A α)

namespace Prog

variable {σ K E : Type} {A : E → Type} {ο β α γ : Type}

protected def bind : Prog E A α → (α → Prog E A γ) → Prog E A γ
  | .ret a, f => f a
  | .act e k, f => .act e fun x => (k x).bind f

instance : Monad (Prog E A) where
  pure := .ret
  bind := Prog.bind

/-- The shared state, what an action by the program with key `K` does to it, and what the environment does.
    Actions and environment steps that are not enabled are `none`. -/
structure Machine (σ K E : Type) (A : E → Type) (ο β : Type) where
  start : σ → Prop
  exec : K → (e : E) → ο → σ → Option (A e × σ)
  env : σ → β → Option (σ × Option (K × Prog E A Unit))

/-- The shared state, and the programs still running. -/
structure Config (σ K E : Type) (A : E → Type) where
  state : σ
  threads : List (K × Prog E A Unit)

inductive Label (ο β : Type) where
  | act (i : Nat) (o : ο)
  | env (b : β)
  | crash (i : Nat)

def Machine.step (m : Machine σ K E A ο β) (c : Config σ K E A) : Label ο β → Option (Config σ K E A)
  | .act i o =>
    match c.threads[i]? with
    | some (k, .act e f) => (m.exec k e o c.state).map fun (a, s) => ⟨s, c.threads.set i (k, f a)⟩
    | _ => none
  | .env b => (m.env c.state b).map fun (s, t) => ⟨s, c.threads ++ t.toList⟩
  | .crash i => some ⟨c.state, c.threads.eraseIdx i⟩

/-- The machine as a transition system. It starts with nothing running. -/
def Machine.lts (m : Machine σ K E A ο β) : Lts (Config σ K E A) (Label ο β) where
  init c := m.start c.state ∧ c.threads = []
  step := m.step

/-- What the programs of a machine promise each other: what holds of the shared state between any two actions
    (`inv`), what the others may have done while the program with key `k` was not looking (`rely k`), and what every
    single step of anybody does (`guar`). `live s k` says that `k` may be the key of a program that is running or
    has run. -/
structure Contract (σ K : Type) where
  inv : σ → Prop
  live : σ → K → Prop
  rely : K → σ → σ → Prop
  guar : σ → σ → Prop
  rely_refl : ∀ k s, rely k s s
  rely_trans : ∀ k s t u, rely k s t → rely k t u → rely k s u
  guar_refl : ∀ s, guar s s

/-- What a step from `s` to `t` owes to everybody but the program with key `k`. -/
structure Contract.Keeps (c : Contract σ K) (k : K) (s t : σ) : Prop where
  inv : c.inv t
  guar : c.guar s t
  live : ∀ k', c.live s k' → c.live t k'
  rely : ∀ k', k' ≠ k → c.live s k' → c.rely k' s t

/-- **The obligation of a program** with key `k` in the state `s`, with postcondition `Q`: whatever the others did,
    its next action keeps what it owes, and leaves the rest of the program safe. -/
def Safe (m : Machine σ K E A ο β) (c : Contract σ K) (k : K) (Q : α → σ → Prop) : Prog E A α → σ → Prop
  | .ret a, s => Q a s
  | .act e f, s => ∀ t, c.rely k s t → c.inv t → ∀ o a u, m.exec k e o t = some (a, u) →
      c.Keeps k t u ∧ (f a).Safe m c k Q u

/-- What a step of the environment owes to everybody. -/
structure Contract.EnvKeeps (c : Contract σ K) (s t : σ) : Prop where
  inv : c.inv t
  guar : c.guar s t
  others : ∀ k, c.live s k → c.live t k ∧ c.rely k s t

/-- The obligations of a machine: its start, its environment and the programs it starts. -/
structure Sound (m : Machine σ K E A ο β) (c : Contract σ K) : Prop where
  start : ∀ s, m.start s → c.inv s
  env : ∀ s b t p, c.inv s → m.env s b = some (t, p) →
    c.EnvKeeps s t ∧ ∀ k q, p = some (k, q) → ¬ c.live s k ∧ c.live t k ∧ q.Safe m c k (fun _ _ => True) t

section Rules

variable {m : Machine σ K E A ο β} {c : Contract σ K} {k : K} {Q : α → σ → Prop} {s : σ}

theorem Safe.bind {p : Prog E A γ} {f : γ → Prog E A α} (h : p.Safe m c k (fun a t => (f a).Safe m c k Q t) s) :
    (p >>= f).Safe m c k Q s := by
  induction p generalizing s with
  | ret a => exact h
  | act e g ih =>
    intro t hr hi o a u hx
    obtain ⟨hk, hs⟩ := h t hr hi o a u hx
    exact ⟨hk, ih a hs⟩

theorem Safe.mono {p : Prog E A α} {R : α → σ → Prop} (h : p.Safe m c k Q s) (hQ : ∀ a t, Q a t → R a t) :
    p.Safe m c k R s := by
  induction p generalizing s with
  | ret a => exact hQ a s h
  | act e g ih =>
    intro t hr hi o a u hx
    obtain ⟨hk, hs⟩ := h t hr hi o a u hx
    exact ⟨hk, ih a hs⟩

theorem Safe.stable {p : Prog E A α} {t : σ} (h : p.Safe m c k Q s) (hr : c.rely k s t)
    (hQ : ∀ a, Q a s → Q a t) : p.Safe m c k Q t := by
  cases p with
  | ret a => exact hQ a h
  | act e g => exact fun u hu => h u (c.rely_trans k s t u hr hu)

end Rules

/-- Everything that holds of a reachable configuration. -/
structure Good (m : Machine σ K E A ο β) (c : Contract σ K) (x : Config σ K E A) : Prop where
  inv : c.inv x.state
  keys : (x.threads.map Prod.fst).Nodup
  live : ∀ p ∈ x.threads, c.live x.state p.1
  safe : ∀ p ∈ x.threads, p.2.Safe m c p.1 (fun _ _ => True) x.state

section Together

variable {m : Machine σ K E A ο β} {c : Contract σ K} {x y : Config σ K E A} {i : Nat}

theorem Good.other_key (h : Good m c x) {p q r : K × Prog E A Unit} (hi : x.threads[i]? = some p)
    (hq : q ∈ x.threads.set i r) : q = r ∨ (q ∈ x.threads ∧ q.1 ≠ p.1) := by
  obtain ⟨j, hj⟩ := List.mem_iff_getElem?.mp hq
  rw [List.getElem?_set] at hj
  split at hj
  · split at hj
    · exact .inl (Option.some.inj hj).symm
    · cases hj
  next hne =>
  refine .inr ⟨List.mem_of_getElem? hj, fun heq => hne ?_⟩
  obtain ⟨hil, hil'⟩ := List.getElem?_eq_some_iff.mp hi
  obtain ⟨hjl, hjl'⟩ := List.getElem?_eq_some_iff.mp hj
  have hi' : i < (x.threads.map Prod.fst).length := by simpa using hil
  have hj' : j < (x.threads.map Prod.fst).length := by simpa using hjl
  have hsame : (x.threads.map Prod.fst)[i] = (x.threads.map Prod.fst)[j] := by simp [hil', hjl', heq]
  exact h.keys.getElem_inj_iff.mp hsame

theorem Good.act (h : Good m c x) {o : ο} (hs : m.step x (.act i o) = some y) :
    Good m c y ∧ c.guar x.state y.state := by
  simp only [Machine.step] at hs
  split at hs
  case h_2 => cases hs
  case h_1 k e f hi =>
    obtain ⟨⟨a, s⟩, hx, rfl⟩ := Option.map_eq_some_iff.mp hs
    have hmem := List.mem_of_getElem? hi
    obtain ⟨hk, hsafe⟩ := h.safe _ hmem x.state (c.rely_refl k _) h.inv o a s hx
    refine ⟨⟨hk.inv, ?_, fun p hp => ?_, fun p hp => ?_⟩, hk.guar⟩
    · have hkeys : (x.threads.set i (k, f a)).map Prod.fst = x.threads.map Prod.fst := by
        refine List.ext_getElem? fun j => ?_
        rw [List.getElem?_map, List.getElem?_map, List.getElem?_set]
        split
        · next hij => subst hij; split <;> simp_all
        · rfl
      rw [hkeys]
      exact h.keys
    · rcases h.other_key hi hp with rfl | ⟨hp, -⟩
      · exact hk.live k (h.live _ hmem)
      · exact hk.live p.1 (h.live p hp)
    · rcases h.other_key hi hp with rfl | ⟨hp, hne⟩
      · exact hsafe
      · exact (h.safe p hp).stable (hk.rely p.1 hne (h.live p hp)) fun _ h => h

theorem Good.env (hm : Sound m c) (h : Good m c x) {b : β} (hs : m.step x (.env b) = some y) :
    Good m c y ∧ c.guar x.state y.state := by
  obtain ⟨⟨t, p⟩, hx, rfl⟩ := Option.map_eq_some_iff.mp hs
  obtain ⟨⟨hinv, hguar, hold⟩, hnew⟩ := hm.env _ b t p h.inv hx
  have hsafe : ∀ q ∈ x.threads, q.2.Safe m c q.1 (fun _ _ => True) t := fun q hq =>
    (h.safe q hq).stable (hold q.1 (h.live q hq)).2 fun _ h => h
  cases p with
  | none =>
    simp only [Option.toList_none, List.append_nil]
    exact ⟨⟨hinv, h.keys, fun q hq => (hold q.1 (h.live q hq)).1, hsafe⟩, hguar⟩
  | some p =>
    obtain ⟨k, q⟩ := p
    obtain ⟨hfresh, hlive, hq⟩ := hnew k q rfl
    refine ⟨⟨hinv, ?_, fun r hr => ?_, fun r hr => ?_⟩, hguar⟩
    · -- the new key is not the key of a running program, because it was not live
      simp only [Option.toList_some, List.map_append, List.map_singleton, List.nodup_append]
      refine ⟨h.keys, List.nodup_singleton _, fun a ha b hb hab => hfresh ?_⟩
      obtain ⟨r, hr, rfl⟩ := List.mem_map.mp ha
      rw [List.mem_singleton] at hb
      rw [← hb, ← hab]
      exact h.live r hr
    · rcases List.mem_append.mp hr with hr | hr
      · exact (hold r.1 (h.live r hr)).1
      · rw [Option.toList_some, List.mem_singleton] at hr; subst hr; exact hlive
    · rcases List.mem_append.mp hr with hr | hr
      · exact hsafe r hr
      · rw [Option.toList_some, List.mem_singleton] at hr; subst hr; exact hq

theorem Good.crash (h : Good m c x) (hs : m.step x (.crash i) = some y) : Good m c y ∧ c.guar x.state y.state := by
  cases hs
  refine ⟨⟨h.inv, ?_, fun p hp => h.live p (List.mem_of_mem_eraseIdx hp),
    fun p hp => h.safe p (List.mem_of_mem_eraseIdx hp)⟩, c.guar_refl _⟩
  exact h.keys.sublist ((List.eraseIdx_sublist _ i).map _)

/-- **Putting the programs together**: one step. -/
theorem Sound.step (hm : Sound m c) (h : Good m c x) {l : Label ο β} (hs : m.lts.step x l = some y) :
    Good m c y ∧ c.guar x.state y.state := by
  cases l with
  | act i o => exact h.act hs
  | env b => exact h.env hm hs
  | crash i => exact h.crash hs

/-- **Putting the programs together**: every reachable configuration is good. -/
theorem Sound.good (hm : Sound m c) (h : m.lts.Reachable x) : Good m c x := by
  refine h.invariant (fun x hx => ?_) fun x l y hx hs => (hm.step hx hs).1
  obtain ⟨hstart, hnone⟩ := hx
  refine ⟨hm.start _ hstart, ?_, ?_, ?_⟩ <;> simp [hnone]

end Together

end Prog
