import SynapS3.Lib.Prog
import SynapS3.Lib.Tx

/-!
# `Lib.Worker` — programs that commit transactions, read the database and call the outside

The actions of a worker are transactions of the shared state, whose commit may fail or go unanswered;
reads of one consistent snapshot, which may fail; and calls `q : Q` to the outside, which answer in `R q`.
What a call does is a parameter (`perform`), under a choice `C` of the outside; history that a call leaves
for the record is part of the state.
-/

namespace Prog

/-- An action of a worker on the state `σ` with errors `ε` and calls `Q`. -/
inductive Work (ε σ Q : Type) where
  | tx (x : Tx ε σ Unit)
  | read
  | call (q : Q)

def Work.Answer {ε σ Q : Type} (R : Q → Type) : Work ε σ Q → Type
  | .tx _ => Except ε Unit
  | .read => Option σ
  | .call q => R q

inductive Choice (C : Type) where
  | commit (o : Tx.Outcome)
  | reads (ok : Bool)
  | answer (c : C)
  deriving DecidableEq

abbrev Worker (ε σ Q : Type) (R : Q → Type) (α : Type) := Prog (Work ε σ Q) (Work.Answer R) α

variable {ε σ K Q C α : Type} {R : Q → Type}

def commit (x : Tx ε σ Unit) : Worker ε σ Q R (Except ε Unit) := .act (.tx x) .ret

def snapshot : Worker ε σ Q R (Option σ) := .act .read .ret

def ask (q : Q) : Worker ε σ Q R (R q) := .act (.call q) .ret

/-- What an action of the worker with key `K` does. -/
def Work.exec (lost : ε) (perform : K → (q : Q) → C → σ → Option (R q × σ)) (k : K) :
    (e : Work ε σ Q) → Choice C → σ → Option (e.Answer R × σ)
  | .tx x, .commit o, s => some (x.commit lost o s)
  | .read, .reads ok, s => some (if ok then some s else none, s)
  | .call q, .answer c, s => perform k q c s
  | _, _, _ => none

section Rules

variable {β : Type} {lost : ε} {perform : K → (q : Q) → C → σ → Option (R q × σ)} {start : σ → Prop}
  {env : σ → β → Option (σ × Option (K × Worker ε σ Q R Unit))} {c : Contract σ K} {k : K}
  {P : α → σ → Prop} {s : σ}

theorem Contract.Keeps.refl (h : c.inv s) : c.Keeps k s s :=
  ⟨h, c.guar_refl s, fun _ h => h, fun k' _ _ => c.rely_refl k' s⟩

/-- The rule for a transaction: it keeps the contract where it commits, and the program goes on safely
    whatever it is told. -/
theorem Safe.tx {x : Tx ε σ Unit} {f : Except ε Unit → Worker ε σ Q R α} (h : ∀ t, c.rely k s t → c.inv t →
      (∀ e, (f (.error e)).Safe ⟨start, Work.exec lost perform, env⟩ c k P t) ∧
      ∀ u, x.Ok t () u → c.Keeps k t u ∧
        (f (.error lost)).Safe ⟨start, Work.exec lost perform, env⟩ c k P u ∧
        (f (.ok ())).Safe ⟨start, Work.exec lost perform, env⟩ c k P u) :
    (commit x >>= f).Safe ⟨start, Work.exec lost perform, env⟩ c k P s := by
  intro t hr hi o a u hx
  obtain ⟨herr, hok⟩ := h t hr hi
  cases o with
  | commit o =>
    have hx' : x.commit lost o t = (a, u) := Option.some.inj hx
    rcases Tx.commit_cases hx' with ⟨rfl, e, rfl⟩ | ⟨hx, ha⟩
    · exact ⟨.refl hi, herr e⟩
    · obtain ⟨hk, hlost, hdone⟩ := hok u hx
      rcases ha with rfl | rfl
      · exact ⟨hk, hdone⟩
      · exact ⟨hk, hlost⟩
  | reads ok => cases hx
  | answer c => cases hx

theorem Safe.read {f : Option σ → Worker ε σ Q R α} (h : ∀ t, c.rely k s t → c.inv t →
      (f none).Safe ⟨start, Work.exec lost perform, env⟩ c k P t ∧
        (f (some t)).Safe ⟨start, Work.exec lost perform, env⟩ c k P t) :
    (snapshot >>= f).Safe ⟨start, Work.exec lost perform, env⟩ c k P s := by
  intro t hr hi o a u hx
  obtain ⟨hnone, hsome⟩ := h t hr hi
  cases o with
  | reads ok =>
    have hx' : ((if ok then some t else none : Option σ), t) = (a, u) := Option.some.inj hx
    cases hx'
    refine ⟨.refl hi, ?_⟩
    cases ok with
    | true => exact hsome
    | false => exact hnone
  | commit o => cases hx
  | answer c => cases hx

theorem Safe.call {q : Q} {f : R q → Worker ε σ Q R α}
    (h : ∀ t, c.rely k s t → c.inv t → ∀ o a u, perform k q o t = some (a, u) →
      c.Keeps k t u ∧ (f a).Safe ⟨start, Work.exec lost perform, env⟩ c k P u) :
    (ask q >>= f).Safe ⟨start, Work.exec lost perform, env⟩ c k P s := by
  intro t hr hi o a u hx
  cases o with
  | answer o => exact h t hr hi o a u hx
  | commit o => cases hx
  | reads ok => cases hx

end Rules

end Prog
