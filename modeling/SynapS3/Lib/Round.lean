import SynapS3.Lib.Table
import SynapS3.Lib.Tx

/-!
# `Lib.Round` — rounds of work under fencing tokens

A round of work is claimed again and again until it ends. Each claim gets the next *token*; only the claim
with the current token may write, and only while it is held. A round that is claimed while an earlier claim
still holds it is *recovering*: somebody may have acted outside before, and only a holder that settles the
round can clear that.

`Round.Move` lists the moves; the fenced operations below are transactions over a table of rounds.
-/

/-- Where a round stands; `ended` says how. -/
inductive Round.Phase (ρ : Type) where
  | waiting
  | held
  | ended (how : ρ)
  deriving DecidableEq

/-- A round with input `ι`, checkpoint `κ` and ends `ρ`. -/
structure Round (ι κ ρ : Type) where
  input : ι
  checkpoint : Option κ
  token : Nat
  phase : Round.Phase ρ
  recovering : Bool
  retryOf : Option Nat
  superseded : Bool
  deriving DecidableEq

namespace Round

variable {ι κ ρ ε : Type}

def new (input : ι) (checkpoint : Option κ) (recovering : Bool) (retryOf : Option Nat) : Round ι κ ρ where
  input := input
  checkpoint := checkpoint
  token := 0
  phase := .waiting
  recovering := recovering
  retryOf := retryOf
  superseded := false

def Holds (r : Round ι κ ρ) (g : Nat) : Prop := r.phase = .held ∧ r.token = g

def heldBy (r : Round ι κ ρ) (g : Nat) : Bool :=
  match r.phase with
  | .held => r.token == g
  | _ => false

def isOpen (r : Round ι κ ρ) : Bool :=
  match r.phase with
  | .ended _ => false
  | _ => true

/-- A claim: a new token, and a recovery if the round was still held. -/
def claim (r : Round ι κ ρ) : Round ι κ ρ :=
  { r with
    token := r.token + 1
    phase := .held
    recovering := r.recovering || (match r.phase with | .held => true | _ => false) }

def save (c : κ) (r : Round ι κ ρ) : Round ι κ ρ := { r with checkpoint := some c, recovering := true }

def yield (recovering : Bool) (r : Round ι κ ρ) : Round ι κ ρ :=
  { r with phase := .waiting, recovering := recovering }

def finish (how : ρ) (r : Round ι κ ρ) : Round ι κ ρ := { r with phase := .ended how }

/-- The moves of one round. Those of a holder carry its token. -/
inductive Move : Option Nat → Round ι κ ρ → Round ι κ ρ → Prop
  | keep {r : Round ι κ ρ} : Move none r r
  /-- Another round takes the place of one that has ended. -/
  | supersede {r : Round ι κ ρ} : r.isOpen = false → r.superseded = false → Move none r { r with superseded := true }
  | claim {r : Round ι κ ρ} : r.isOpen = true → Move none r r.claim
  /-- The holder writes a checkpoint, or gives up its right to act outside. -/
  | save {r r' : Round ι κ ρ} {g : Nat} : r.Holds g →
      (r' = { r with recovering := r'.recovering } ∨ ∃ c, r' = r.save c) →
      (r'.recovering = r.recovering ∨ r'.recovering = true) → Move (some g) r r'
  | yield {r : Round ι κ ρ} {g : Nat} {recovering : Bool} : r.Holds g → Move (some g) r (r.yield recovering)
  | finish {r : Round ι κ ρ} {g : Nat} {how : ρ} {recovering : Bool} : r.Holds g →
      Move (some g) r { r.finish how with recovering := recovering }

variable {g : Nat} {r : Round ι κ ρ}

theorem Move.same (h : r.Holds g) : Move (some g) r r :=
  .save h (.inl rfl) (.inl rfl)

theorem heldBy_iff : r.heldBy g = true ↔ r.Holds g := by
  unfold heldBy Holds
  cases r.phase <;> simp

/-! ## Fenced transactions -/

def fenced (lost : ε) (t g : Nat) (f : Round ι κ ρ → Round ι κ ρ) : Tx ε (Table (Round ι κ ρ)) Unit := do
  let rounds ← Tx.read
  let r ← Tx.orFail (rounds.row t) lost
  Tx.require (r.heldBy g) lost
  Tx.write (rounds.modify t f)

theorem fenced_ok {lost : ε} {t : Nat} {f : Round ι κ ρ → Round ι κ ρ} {s s' : Table (Round ι κ ρ)} {u : Unit}
    (h : (fenced lost t g f).Ok s u s') : ∃ r, s.row t = some r ∧ r.Holds g ∧ s' = s.modify t f := by
  simp only [fenced, Tx.ok_bind, Tx.ok_read, Tx.ok_orFail, Tx.ok_require, Tx.ok_write] at h
  obtain ⟨_, _, ⟨rfl, rfl⟩, r, _, ⟨hr, rfl⟩, _, _, ⟨hheld, rfl⟩, rfl⟩ := h
  exact ⟨r, hr, heldBy_iff.mp hheld, rfl⟩

/-- The keys that have been handed out: round `t` was claimed at least `g` times. -/
def Issued (s : Table (Round ι κ ρ)) (k : Nat × Nat) : Prop := ∃ r, s.row k.1 = some r ∧ k.2 ≤ r.token

def Current (s : Table (Round ι κ ρ)) (k : Nat × Nat) : Prop := ∃ r, s.row k.1 = some r ∧ r.Holds k.2

/-! ## Tables in which one round moved -/

/-- Only the round `i` changed, and not in what it is about. -/
structure Moved (i : Nat) (s t : Table (Round ι κ ρ)) (r r' : Round ι κ ρ) : Prop where
  round : s.row i = some r
  rounds : ∀ j, t.row j = if j = i then some r' else s.row j
  input : r'.input = r.input
  superseded : r'.superseded = r.superseded

section Moved

variable {i : Nat} {s t : Table (Round ι κ ρ)} {r r' : Round ι κ ρ} {j : Nat} {k : Nat × Nat} {q : Round ι κ ρ}

section

variable (h : Moved i s t r r')
include h

theorem Moved.back (hq : t.row j = some q) :
    ∃ q₀, s.row j = some q₀ ∧ q.input = q₀.input ∧ q.superseded = q₀.superseded ∧
      (q = q₀ ∨ (j = i ∧ q = r')) := by
  rw [h.rounds] at hq
  split at hq
  · next hj => cases hq; exact ⟨r, by rw [hj]; exact h.round, h.input, h.superseded, .inr ⟨hj, rfl⟩⟩
  · exact ⟨q, hq, rfl, rfl, .inl rfl⟩

theorem Moved.forth {q₀ : Round ι κ ρ} (hq₀ : s.row j = some q₀) :
    ∃ q, t.row j = some q ∧ q.input = q₀.input ∧ q.superseded = q₀.superseded := by
  by_cases hj : j = i
  · rw [hj, h.round] at hq₀
    cases hq₀
    exact ⟨r', by rw [h.rounds, if_pos hj], h.input, h.superseded⟩
  · exact ⟨q₀, by rw [h.rounds, if_neg hj]; exact hq₀, rfl, rfl⟩

theorem Moved.issued (htok : r.token ≤ r'.token) (hk : Issued s k) : Issued t k := by
  obtain ⟨q, hq, hle⟩ := hk
  by_cases heq : k.1 = i
  · rw [heq, h.round] at hq
    cases hq
    exact ⟨r', by rw [heq, h.rounds, if_pos rfl], le_trans hle htok⟩
  · exact ⟨q, by rw [h.rounds, if_neg heq]; exact hq, hle⟩

theorem Moved.over (hopen : r.isOpen = true) (hq : s.row j = some q)
    (hover : q.isOpen = false) : t.row j = some q := by
  have hj : j ≠ i := by
    intro hj
    rw [hj, h.round] at hq
    cases hq
    rw [hopen] at hover
    cases hover
  rw [h.rounds, if_neg hj]
  exact hq

theorem Moved.elsewhere (hne : k.1 ≠ i) (hc : Current t k) : Current s k ∧ t.row k.1 = s.row k.1 := by
  have hrow : t.row k.1 = s.row k.1 := by rw [h.rounds, if_neg hne]
  obtain ⟨q, hq, hheld⟩ := hc
  exact ⟨⟨q, by rw [← hrow]; exact hq, hheld⟩, hrow⟩

theorem Moved.claimed (htok : r'.token = r.token + 1) (hk : Issued s k) (hc : Current t k) : k.1 ≠ i := by
  intro heq
  obtain ⟨q, hq, -, htok'⟩ := hc
  obtain ⟨w, hw, hle⟩ := hk
  rw [heq, h.round] at hw
  cases hw
  rw [heq, h.rounds, if_pos rfl] at hq
  cases hq
  omega

theorem Moved.let_go (hp : r'.phase ≠ .held) (hc : Current t k) : k.1 ≠ i := by
  intro heq
  obtain ⟨q, hq, hheld, -⟩ := hc
  rw [heq, h.rounds, if_pos rfl] at hq
  cases hq
  exact hp hheld

end

end Moved

/-- The holder of the claim `k` changed its round. -/
structure HeldMove (k : Nat × Nat) (s t : Table (Round ι κ ρ)) (r r' : Round ι κ ρ) : Prop extends
    Moved k.1 s t r r' where
  holds : r.Holds k.2
  token : r'.token = r.token

section HeldMove

variable {k k' : Nat × Nat} {s t : Table (Round ι κ ρ)} {r r' : Round ι κ ρ}

theorem Holds.isOpen (h : r.Holds g) : r.isOpen = true := by
  rw [Round.isOpen, h.1]

theorem HeldMove.other (h : HeldMove k s t r r') (hne : k' ≠ k) (hc : Current t k') :
    k'.1 ≠ k.1 ∧ t.row k'.1 = s.row k'.1 := by
  have hk : k'.1 ≠ k.1 := by
    intro heq
    obtain ⟨q, hq, hheld⟩ := hc
    rw [heq, h.rounds, if_pos rfl] at hq
    cases hq
    have htok : k'.2 = k.2 := by rw [← hheld.2, h.token, h.holds.2]
    exact hne (Prod.ext heq htok)
  exact ⟨hk, by rw [h.rounds, if_neg hk]⟩

theorem HeldMove.still_current (h : HeldMove k s t r r') (hne : k' ≠ k) (hc : Current t k') : Current s k' := by
  obtain ⟨-, hrow⟩ := h.other hne hc
  obtain ⟨q, hq, hheld⟩ := hc
  exact ⟨q, by rw [← hrow]; exact hq, hheld⟩

end HeldMove

end Round
