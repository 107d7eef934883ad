import Mathlib.Algebra.Order.Ring.Int
import Mathlib.Logic.Function.Basic
import SynapS3.Lib.Prog

/-!
# `Lib.ReadCommitted` — transactions that interleave statement by statement

A database of rows `R`, each of its own type `W r`, under READ COMMITTED with row locks. A session writes
only rows it has locked; what it writes is its own until it commits; every statement sees the rows committed
when it runs, and the session's own writes on top. An entry of a unique index is a row like any other, so
`insert` waits for an uncommitted entry and reports a committed one. The clock and the sequence are outside
of transactions.

A statement that has to wait is not enabled. Any statement may fail (a deadlock, a lost connection), which
ends the transaction, and a commit may go through unheard; a session may end for good at any time.
-/

namespace ReadCommitted

variable {R : Type} [DecidableEq R] {W : R → Type} {γ β : Type}

abbrev Rows (W : R → Type) := (r : R) → Option (W r)

/-- What every session sees: the committed rows, the clock, the sequence and the record. -/
structure Shared (W : R → Type) (γ : Type) where
  rows : Rows W
  clock : Int
  seq : Nat
  ghost : γ

/-- The database with the state of its sessions: who holds a row alone, who holds it with others, and what
    each session has written to the rows it holds. -/
structure Db (W : R → Type) (γ : Type) extends Shared W γ where
  holder : R → Option Nat
  sharers : R → List Nat
  draft : Nat → Rows W
  closed : Nat → Bool
  sessions : Nat

inductive Stmt (W : R → Type) (γ : Type) where
  /-- `SELECT`: all rows as of now, and how far the sequence has come. -/
  | look
  /-- `SELECT … FOR UPDATE` of one row; a row that does not exist is not locked. -/
  | lock (r : R)
  | share (r : R)
  /-- `INSERT`; the answer says whether there was no such row yet. -/
  | insert (r : R) (w : W r)
  /-- `UPDATE` or `DELETE` of one row, which takes its lock: `f` is `none` where the condition does not hold,
      and `some none` deletes. The answer says whether a row was written. -/
  | update (r : R) (f : W r → Option (Option (W r)))
  | now
  | nextval
  | commit (record : γ → γ)
  | rollback
  /-- Write to the record, outside of any transaction. -/
  | note (record : γ → γ)

/-- Why a statement fails: the transaction may be tried again (SQLSTATE 40001, 40P01), or not. -/
inductive Failure where
  | retryable
  | fatal
  deriving DecidableEq

abbrev Stmt.Answer : Stmt W γ → Type
  | .look => Rows W × Nat
  | .lock r => Option (W r)
  | .share r => Option (W r)
  | .insert _ _ => Bool
  | .update _ _ => Bool
  | .now => Int
  | .nextval => Nat
  | .commit _ => Unit
  | .rollback => Unit
  | .note _ => Unit

abbrev Stmt.Reply (e : Stmt W γ) : Type := Except Failure e.Answer

/-- What the environment chooses: the statement runs, the clock having moved by more than `tick`; it fails;
    or, for a commit, it goes through unheard. -/
inductive Choice where
  | go (tick : Nat)
  | fail (why : Failure)
  | lost
  deriving DecidableEq

abbrev Session (W : R → Type) (γ α : Type) := Prog (Stmt W γ) Stmt.Reply α

/-! ## One session -/

/-- The database as one session sees it. -/
structure Snap (W : R → Type) (γ : Type) extends Shared W γ where
  held : R → Bool
  pinned : R → Bool
  view : Rows W

/-- Without a lock a session sees what is committed. -/
def Snap.Coherent (x : Snap W γ) : Prop := ∀ r, x.held r = false → x.view r = x.rows r

/-- Nothing is locked, and nothing written. -/
structure Snap.Idle (x : Snap W γ) : Prop where
  held : ∀ r, x.held r = false
  pinned : ∀ r, x.pinned r = false
  view : x.view = x.rows

def Snap.release (x : Snap W γ) : Snap W γ :=
  { x with held := fun _ => false, pinned := fun _ => false, view := x.rows }

def Snap.committed (x : Snap W γ) (record : γ → γ) : Snap W γ :=
  { x with
    rows := x.view, ghost := record x.ghost
    held := fun _ => false, pinned := fun _ => false }

def Snap.hold (x : Snap W γ) (r : R) : Snap W γ := { x with held := Function.update x.held r true }

def Snap.put (x : Snap W γ) (r : R) (w : Option (W r)) : Snap W γ :=
  { x with held := Function.update x.held r true, view := Function.update x.view r w }

def Snap.pin (x : Snap W γ) (r : R) : Snap W γ := { x with pinned := Function.update x.pinned r true }

@[simp] theorem Snap.put_view_self (x : Snap W γ) (r : R) (w : Option (W r)) : (x.put r w).view r = w :=
  Function.update_self ..

variable {r q : R} {x y : Snap W γ}

theorem Snap.put_view_of_ne (x : Snap W γ) (w : Option (W r)) (h : q ≠ r) :
    (x.put r w).view q = x.view q := Function.update_of_ne h _ _

@[simp] theorem Snap.put_held_self (x : Snap W γ) (r : R) (w : Option (W r)) : (x.put r w).held r = true :=
  Function.update_self ..

theorem Snap.put_held_of_ne (x : Snap W γ) (w : Option (W r)) (h : q ≠ r) :
    (x.put r w).held q = x.held q := Function.update_of_ne h _ _

@[simp] theorem Snap.hold_held_self (x : Snap W γ) (r : R) : (x.hold r).held r = true :=
  Function.update_self ..

theorem Snap.hold_held_of_ne (x : Snap W γ) (h : q ≠ r) : (x.hold r).held q = x.held q :=
  Function.update_of_ne h _ _

theorem Snap.hold_eq_put (x : Snap W γ) (r : R) : x.hold r = x.put r (x.view r) := by
  unfold Snap.hold Snap.put
  rw [Function.update_eq_self]

theorem Snap.put_held_of_held (x : Snap W γ) (w : Option (W r)) (h : x.held q = true) :
    (x.put r w).held q = true := by
  by_cases hq : q = r
  · subst hq; exact x.put_held_self q w
  · rw [x.put_held_of_ne w hq]; exact h

def Stmt.run (e : Stmt W γ) (o : Choice) (x : Snap W γ) : Option (e.Reply × Snap W γ) :=
  match o with
  | .fail why => some (.error why, x.release)
  | .lost =>
    match e with
    | .commit record => some (.error .fatal, x.committed record)
    | _ => none
  | .go tick =>
    match e with
    | .look => some (.ok (x.view, x.seq), x)
    | .lock r => some (.ok (x.view r), if (x.view r).isSome then x.hold r else x)
    | .share r => some (.ok (x.view r), if (x.view r).isSome then x.pin r else x)
    | .insert r w => if (x.view r).isSome then some (.ok false, x) else some (.ok true, x.put r (some w))
    | .update r f =>
      match (x.view r).bind f with
      | none => some (.ok false, x)
      | some w => some (.ok true, x.put r w)
    | .now => some (.ok (x.clock + 1 + tick), { x with clock := x.clock + 1 + tick })
    | .nextval => some (.ok x.seq, { x with seq := x.seq + 1 })
    | .commit record => some (.ok (), x.committed record)
    | .rollback => some (.ok (), x.release)
    | .note record => some (.ok (), { x with ghost := record x.ghost })

/-! ## All sessions -/

def Db.view (s : Db W γ) (k : Nat) : Rows W := fun r =>
  if s.holder r = some k then s.draft k r else s.rows r

def Db.snap (s : Db W γ) (k : Nat) : Snap W γ where
  toShared := s.toShared
  held := fun r => s.holder r == some k
  pinned := fun r => (s.sharers r).contains k
  view := s.view k

def Db.free (s : Db W γ) (k : Nat) (r : R) : Bool :=
  (s.holder r).all (· == k) && (s.sharers r).all (· == k)

def Db.blocked (s : Db W γ) (k : Nat) : Stmt W γ → Bool
  | .lock r => (s.view k r).isSome && !s.free k r
  | .share r => (s.view k r).isSome && !(s.holder r).all (· == k)
  | .insert r _ => (s.view k r).isNone && !s.free k r
  | .update r f => ((s.view k r).bind f).isSome && !s.free k r
  | _ => false

def Db.store (s : Db W γ) (k : Nat) (x : Snap W γ) : Db W γ :=
  { s with
    toShared := x.toShared
    holder := fun r => if x.held r then some k else if s.holder r = some k then none else s.holder r
    sharers := fun r =>
      if x.pinned r then k :: (s.sharers r).filter (· ≠ k) else (s.sharers r).filter (· ≠ k)
    draft := Function.update s.draft k x.view }

/-- A statement of session `k`. `allow` leaves out the steps that a condition on runs excludes. -/
def exec (allow : Shared W γ → Shared W γ → Bool) (k : Nat) (e : Stmt W γ) (o : Choice) (s : Db W γ) :
    Option (e.Reply × Db W γ) :=
  if s.closed k || s.blocked k e then none
  else (e.run o (s.snap k)).bind fun (a, x) =>
    if allow s.toShared x.toShared then some (a, s.store k x) else none

/-- What happens besides statements: a program is started in a new session, or a session ends. -/
inductive Env (β : Type) where
  | start (b : β)
  | close (k : Nat)
  deriving DecidableEq

def Db.close (s : Db W γ) (k : Nat) : Db W γ :=
  { s.store k (s.snap k).release with closed := Function.update s.closed k true }

/-- The machine that runs the programs `p`, those of them that may be started in the present state. -/
def machine (allow : Shared W γ → Shared W γ → Bool) (init : Shared W γ → Prop)
    (p : β → Session W γ Unit) (may : β → Shared W γ → Bool) :
    Prog.Machine (Db W γ) Nat (Stmt W γ) Stmt.Reply Choice (Env β) where
  start s := init s.toShared ∧ (∀ r, s.holder r = none) ∧ (∀ r, s.sharers r = []) ∧ (∀ k, s.closed k = false) ∧
    s.sessions = 0
  exec := exec allow
  env s b :=
    match b with
    | .start b =>
      if may b s.toShared then some ({ s with sessions := s.sessions + 1 }, some (s.sessions, p b)) else none
    | .close k => if k < s.sessions then some (s.close k, none) else none

/-! ## Obligations -/

/-- What holds of the shared state, what every step of anybody does to it, and which other rows a session
    has to have locked in order to write one: `guards r w q` says that a row `r` of value `w` is only written,
    from `w` or to `w`, with `q` locked. -/
structure Contract (W : R → Type) (γ : Type) where
  inv : Shared W γ → Prop
  guar : Shared W γ → Shared W γ → Prop
  guards : (r : R) → W r → R → Prop
  refl : ∀ s, guar s s
  trans : ∀ s t u, guar s t → guar t u → guar s u
  tick : ∀ (s : Shared W γ) (clock : Int) (seq : Nat), s.clock ≤ clock → s.seq ≤ seq → inv s →
    inv { s with clock := clock, seq := seq } ∧ guar s { s with clock := clock, seq := seq }

/-- What the others can have done while a session was not looking: nothing to the rows it has locked, and for the
    rest only what the `Contract` promises. -/
structure Later (c : Contract W γ) (x y : Snap W γ) : Prop where
  held : y.held = x.held
  pinned : y.pinned = x.pinned
  view : ∀ r, x.held r = true → y.view r = x.view r
  rows : ∀ r, x.held r = true ∨ x.pinned r = true → y.rows r = x.rows r
  guarded : ∀ r w q, x.rows r = some w ∨ y.rows r = some w → c.guards r w q → x.held q = true →
    y.rows r = x.rows r
  clock : x.clock ≤ y.clock
  seq : x.seq ≤ y.seq
  guar : c.guar x.toShared y.toShared

omit [DecidableEq R] in
theorem Later.refl (c : Contract W γ) (x : Snap W γ) : Later c x x :=
  ⟨rfl, rfl, fun _ _ => rfl, fun _ _ => rfl, fun _ _ _ _ _ _ => rfl, le_refl _, le_refl _, c.refl _⟩

variable {c : Contract W γ}

omit [DecidableEq R] in
theorem Later.trans {z : Snap W γ} (h : Later c x y) (h' : Later c y z) : Later c x z := by
  refine ⟨h'.held.trans h.held, h'.pinned.trans h.pinned, fun r hr => ?_, fun r hr => ?_,
    fun r w q hw hg hq => ?_, le_trans h.clock h'.clock, le_trans h.seq h'.seq, c.trans _ _ _ h.guar h'.guar⟩
  · rw [h'.view r (by rw [h.held]; exact hr), h.view r hr]
  · rw [h'.rows r (by rw [h.held, h.pinned]; exact hr), h.rows r hr]
  · have hq' : y.held q = true := by rw [h.held]; exact hq
    rcases hw with hw | hw
    · have hy := h.guarded r w q (.inl hw) hg hq
      rw [h'.guarded r w q (.inl (hy.trans hw)) hg hq', hy]
    · have hz := h'.guarded r w q (.inr hw) hg hq'
      rw [hz, h.guarded r w q (.inr (hz.symm.trans hw)) hg hq]

omit [DecidableEq R] in
theorem Snap.Idle.later (h : x.Idle) (hl : Later c x y) (hc : y.Coherent) : y.Idle := by
  have hheld : ∀ r, y.held r = false := fun r => by rw [hl.held]; exact h.held r
  exact ⟨hheld, fun r => by rw [hl.pinned]; exact h.pinned r, funext fun r => hc r (hheld r)⟩

/-- What a statement owes to everybody. -/
structure Kept (c : Contract W γ) (x y : Snap W γ) : Prop where
  inv : c.inv y.toShared
  guar : c.guar x.toShared y.toShared
  guarded : ∀ r w q, x.rows r = some w ∨ y.rows r = some w → c.guards r w q → x.held q = false →
    y.rows r = x.rows r

omit [DecidableEq R] in
theorem Kept.of_rows (hrows : y.rows = x.rows) (hi : c.inv y.toShared) (hg : c.guar x.toShared y.toShared) :
    Kept c x y :=
  ⟨hi, hg, fun r _ _ _ _ _ => congrFun hrows r⟩

omit [DecidableEq R] in
theorem Kept.of_shared (hs : y.toShared = x.toShared) (hi : c.inv x.toShared) : Kept c x y :=
  Kept.of_rows (by rw [hs]) (by rw [hs]; exact hi) (by rw [hs]; exact c.refl _)

/-- **The obligation of a program** in what its session sees, with postcondition `Q`: whatever the others
    did, its next statement keeps what it owes, and leaves the rest of the program with its own obligation. -/
def Holds (c : Contract W γ) (allow : Shared W γ → Shared W γ → Bool) {α : Type} (Q : α → Snap W γ → Prop) :
    Session W γ α → Snap W γ → Prop
  | .ret a, x => Q a x
  | .act e f, x => ∀ y, Later c x y → y.Coherent → c.inv y.toShared → ∀ o a z, e.run o y = some (a, z) →
      allow y.toShared z.toShared = true →
      Kept c y z ∧ Holds c allow Q (f a) z

section Rules

variable {c : Contract W γ} {allow : Shared W γ → Shared W γ → Bool} {α δ : Type}
  {Q : α → Snap W γ → Prop} {x : Snap W γ}

theorem Holds.bind {p : Session W γ δ} {f : δ → Session W γ α}
    (h : Holds c allow (fun a y => Holds c allow Q (f a) y) p x) : Holds c allow Q (p >>= f) x := by
  induction p generalizing x with
  | ret a => exact h
  | act e g ih =>
    intro y hy hc hi o a z hz ha
    obtain ⟨hk, hs⟩ := h y hy hc hi o a z hz ha
    exact ⟨hk, ih a hs⟩

theorem Holds.mono {P : α → Snap W γ → Prop} {p : Session W γ α} (h : Holds c allow P p x)
    (hQ : ∀ a y, P a y → Q a y) : Holds c allow Q p x := by
  induction p generalizing x with
  | ret a => exact hQ a x h
  | act e g ih =>
    intro y hy hc hi o a z hz ha
    obtain ⟨hk, hs⟩ := h y hy hc hi o a z hz ha
    exact ⟨hk, ih a hs⟩

end Rules

/-! ## Putting the sessions together -/

/-- Locks belong to sessions that exist, and a row that is held alone is held by nobody else. -/
structure Db.Sound (s : Db W γ) : Prop where
  holder : ∀ r k, s.holder r = some k → k < s.sessions
  sharers : ∀ r k, k ∈ s.sharers r → k < s.sessions
  alone : ∀ r k, s.holder r = some k → ∀ k' ∈ s.sharers r, k' = k

omit [DecidableEq R] in
theorem Db.snap_coherent (s : Db W γ) (k : Nat) : (s.snap k).Coherent := by
  intro r hr
  have hne : s.holder r ≠ some k := by simpa [Db.snap] using hr
  simp [Db.snap, Db.view, hne]

variable {y : Snap W γ} {k : Nat} {s : Db W γ} {e : Stmt W γ} {o : Choice} {a : e.Reply}

theorem Stmt.run_coherent (h : e.run o x = some (a, y)) (hx : x.Coherent) : y.Coherent := by
  have hput : ∀ r w, (x.put r w).Coherent := by
    intro r w q hq
    by_cases hqr : q = r
    · subst hqr; simp [Snap.put] at hq
    · simp only [Snap.put, Function.update_of_ne hqr] at hq ⊢; exact hx q hq
  have hhold : ∀ r, (x.hold r).Coherent := by
    intro r q hq
    by_cases hqr : q = r
    · subst hqr; simp [Snap.hold] at hq
    · simp only [Snap.hold, Function.update_of_ne hqr] at hq; exact hx q hq
  cases o with
  | fail why => cases h; exact fun _ _ => rfl
  | lost =>
    cases e <;> simp only [Stmt.run, reduceCtorEq] at h
    cases h
    exact fun _ _ => rfl
  | go tick =>
    cases e with
    | look | now | nextval | note => cases h; exact hx
    | commit | rollback => cases h; exact fun _ _ => rfl
    | lock r =>
      cases h
      split
      · exact hhold r
      · exact hx
    | share r =>
      cases h
      split <;> exact hx
    | insert r w | update r f =>
      simp only [Stmt.run] at h
      split at h <;> cases h
      · exact hx
      · exact hput r _

/-- What a statement locks, it locks alone or with others as the row allows. -/
structure Took (s : Db W γ) (k : Nat) (y : Snap W γ) : Prop where
  held : ∀ r, y.held r = true → s.holder r = some k ∨ s.free k r = true
  pinned : ∀ r, y.pinned r = true → k ∈ s.sharers r ∨ (s.holder r).all (· == k) = true
  rows : ∀ r, s.holder r ≠ some k → y.rows r = s.rows r
  clock : s.clock ≤ y.clock
  seq : s.seq ≤ y.seq

theorem exec_took {allow : Shared W γ → Shared W γ → Bool} {t : Db W γ} (h : exec allow k e o s = some (a, t)) :
    ∃ y, e.run o (s.snap k) = some (a, y) ∧ t = s.store k y ∧ allow s.toShared y.toShared = true ∧
      s.closed k = false ∧ Took s k y := by
  unfold exec at h
  split at h
  · cases h
  next hgo =>
  obtain ⟨⟨a', y⟩, hrun, hy⟩ := Option.bind_eq_some_iff.mp h
  simp only at hy
  split at hy
  case isFalse => cases hy
  next hallow =>
  cases hy
  rw [Bool.not_eq_true, Bool.or_eq_false_iff] at hgo
  refine ⟨y, hrun, rfl, hallow, hgo.1, ?_⟩
  have hheld : ∀ r, (s.snap k).held r = true → s.holder r = some k := fun r hr => by
    simpa [Db.snap] using hr
  have hpinned : ∀ r, (s.snap k).pinned r = true → k ∈ s.sharers r := fun r hr => by
    simpa [Db.snap] using hr
  have hsame : Took s k (s.snap k) :=
    ⟨fun r hr => .inl (hheld r hr), fun r hr => .inl (hpinned r hr), fun _ _ => rfl, le_refl _, le_refl _⟩
  have hdone : ∀ z : Snap W γ, (∀ r, z.held r = false) → (∀ r, z.pinned r = false) →
      (∀ r, s.holder r ≠ some k → z.rows r = s.rows r) → s.clock ≤ z.clock → s.seq ≤ z.seq → Took s k z :=
    fun z h₁ h₂ h₃ h₄ h₅ => ⟨fun r hr => by simp [h₁ r] at hr, fun r hr => by simp [h₂ r] at hr, h₃, h₄, h₅⟩
  have hview : ∀ r, s.holder r ≠ some k → (s.snap k).view r = s.rows r := fun r hr => by
    simp [Db.snap, Db.view, hr]
  have htake : ∀ r (z : Snap W γ), z.held = Function.update (s.snap k).held r true →
      z.pinned = (s.snap k).pinned → z.toShared = s.toShared → s.free k r = true → Took s k z := by
    intro r z h₁ h₂ h₃ hfree
    refine ⟨fun q hq => ?_, fun q hq => .inl (hpinned q (by rw [← h₂]; exact hq)),
      fun q _ => by rw [h₃], by rw [h₃], by rw [h₃]⟩
    rw [h₁] at hq
    by_cases hqr : q = r
    · subst hqr; exact .inr hfree
    · rw [Function.update_of_ne hqr] at hq; exact .inl (hheld q hq)
  cases o with
  | fail why => cases hrun; exact hdone _ (fun _ => rfl) (fun _ => rfl) (fun _ _ => rfl) (le_refl _) (le_refl _)
  | lost =>
    cases e <;> simp only [Stmt.run, reduceCtorEq] at hrun
    cases hrun
    exact hdone _ (fun _ => rfl) (fun _ => rfl) hview (le_refl _) (le_refl _)
  | go tick =>
    cases e with
    | look | note => cases hrun; exact ⟨hsame.held, hsame.pinned, hsame.rows, le_refl _, le_refl _⟩
    | now =>
      cases hrun
      refine ⟨hsame.held, hsame.pinned, hsame.rows, ?_, le_refl _⟩
      show s.clock ≤ s.clock + 1 + tick
      omega
    | nextval =>
      cases hrun
      refine ⟨hsame.held, hsame.pinned, hsame.rows, le_refl _, ?_⟩
      show s.seq ≤ s.seq + 1
      omega
    | commit => cases hrun; exact hdone _ (fun _ => rfl) (fun _ => rfl) hview (le_refl _) (le_refl _)
    | rollback =>
      cases hrun; exact hdone _ (fun _ => rfl) (fun _ => rfl) (fun _ _ => rfl) (le_refl _) (le_refl _)
    | lock r =>
      cases hrun
      split
      · next hsome =>
        refine htake r _ rfl rfl rfl ?_
        simpa [Db.blocked, show (s.view k r).isSome = true from hsome] using hgo.2
      · exact hsame
    | share r =>
      cases hrun
      split
      · next hsome =>
        refine ⟨hsame.held, fun q hq => ?_, hsame.rows, le_refl _, le_refl _⟩
        by_cases hqr : q = r
        · subst hqr
          right
          simpa [Db.blocked, show (s.view k q).isSome = true from hsome] using hgo.2
        · simp only [Snap.pin, Function.update_of_ne hqr] at hq
          exact .inl (hpinned q hq)
      · exact hsame
    | insert r w =>
      simp only [Stmt.run] at hrun
      split at hrun <;> cases hrun
      · exact hsame
      next hnone =>
      refine htake r _ rfl rfl rfl ?_
      have hn : (s.view k r).isNone = true := by
        simpa [Db.snap, Option.isNone_iff_eq_none] using hnone
      simpa [Db.blocked, hn] using hgo.2
    | update r f =>
      simp only [Stmt.run] at hrun
      split at hrun <;> cases hrun
      · exact hsame
      next w hw =>
      refine htake r _ rfl rfl rfl ?_
      have hsome : ((s.view k r).bind f).isSome = true := by
        have hview : (s.view k r).bind f = some w := hw
        rw [hview]; rfl
      simpa [Db.blocked, hsome] using hgo.2

omit [DecidableEq R] in
theorem Db.snap_store (hy : y.Coherent) : (s.store k y).snap k = y := by
  have hholder : ∀ r, ((s.store k y).holder r = some k) ↔ y.held r = true := by
    intro r
    by_cases hr : y.held r = true
    · simp [Db.store, hr]
    · by_cases hs : s.holder r = some k <;> simp [Db.store, hr, hs]
  have hheld : ((s.store k y).snap k).held = y.held := by
    funext r
    rw [Bool.eq_iff_iff]
    simpa [Db.snap] using hholder r
  have hpinned : ((s.store k y).snap k).pinned = y.pinned := by
    funext r
    cases hr : y.pinned r <;> simp [Db.snap, Db.store, hr]
  have hview : ((s.store k y).snap k).view = y.view := by
    funext r
    by_cases hr : y.held r = true
    · have hdraft : ((s.store k y).snap k).view r = (s.store k y).draft k r := if_pos ((hholder r).mpr hr)
      rw [hdraft]
      exact congrFun (Function.update_self ..) r
    · have hne : (s.store k y).holder r ≠ some k := fun h => hr ((hholder r).mp h)
      have hrows : ((s.store k y).snap k).view r = y.rows r := if_neg hne
      rw [hrows, hy r (by simpa using hr)]
  calc (s.store k y).snap k
      = ⟨y.toShared, ((s.store k y).snap k).held, ((s.store k y).snap k).pinned,
          ((s.store k y).snap k).view⟩ := rfl
    _ = y := by rw [hheld, hpinned, hview]

omit [DecidableEq R] in
theorem Db.later_store {k' : Nat} (hs : s.Sound) (ht : Took s k y) (hkept : Kept c (s.snap k) y)
    (hne : k' ≠ k) : Later c (s.snap k') ((s.store k y).snap k') := by
  have hother : ∀ r, s.holder r = some k' → y.held r = false := by
    intro r hr
    rw [← Bool.not_eq_true]
    intro hy
    rcases ht.held r hy with h | h
    · rw [hr] at h; exact hne (Option.some.inj h)
    · rw [Db.free, hr] at h
      simp [hne] at h
  have hholder : ∀ r, ((s.store k y).holder r = some k') ↔ s.holder r = some k' := by
    intro r
    constructor
    · intro h
      by_cases hy : y.held r = true
      · simp only [Db.store, hy, if_true] at h
        exact absurd (Option.some.inj h).symm hne
      · by_cases hk : s.holder r = some k
        · simp [Db.store, hy, hk] at h
        · simpa [Db.store, hy, hk] using h
    · intro h
      simp [Db.store, hother r h, h, hne]
  have hheld : ((s.store k y).snap k').held = (s.snap k').held := by
    funext r
    rw [Bool.eq_iff_iff]
    simpa [Db.snap] using hholder r
  have hpinned : ((s.store k y).snap k').pinned = (s.snap k').pinned := by
    funext r
    cases hr : y.pinned r <;> simp [Db.snap, Db.store, hr, hne]
  refine ⟨hheld, hpinned, fun r hr => ?_, fun r hr => ?_, fun r w q hw hg hq => ?_, ht.clock, ht.seq, hkept.guar⟩
  · have h : s.holder r = some k' := by simpa [Db.snap] using hr
    show (s.store k y).view k' r = s.view k' r
    rw [Db.view, if_pos ((hholder r).mpr h), Db.view, if_pos h]
    exact congrFun (Function.update_of_ne hne _ _) r
  · refine ht.rows r fun hk => ?_
    rcases hr with hr | hr
    · have h : s.holder r = some k' := by simpa [Db.snap] using hr
      exact hne (Option.some.inj (h.symm.trans hk))
    · exact hne (hs.alone r k hk k' (by simpa [Db.snap] using hr))
  · have hq' : s.holder q = some k' := by simpa [Db.snap] using hq
    refine hkept.guarded r w q hw hg ?_
    have hnk : s.holder q ≠ some k := fun h => hne (Option.some.inj (hq'.symm.trans h))
    simpa [Db.snap] using hnk

omit [DecidableEq R] in
theorem Db.Sound.store (hs : s.Sound) (ht : Took s k y) (hk : k < s.sessions) : (s.store k y).Sound := by
  have hsharers : ∀ r j, j ∈ (s.store k y).sharers r → (j = k ∧ y.pinned r = true) ∨ (j ≠ k ∧ j ∈ s.sharers r) := by
    intro r j hj
    cases hr : y.pinned r
    · simp only [Db.store, hr, Bool.false_eq_true, if_false, List.mem_filter, decide_eq_true_eq] at hj
      exact .inr ⟨hj.2, hj.1⟩
    · simp only [Db.store, hr, if_true, List.mem_cons, List.mem_filter, decide_eq_true_eq] at hj
      rcases hj with rfl | hj
      · exact .inl ⟨rfl, rfl⟩
      · exact .inr ⟨hj.2, hj.1⟩
  have hholder : ∀ r j, (s.store k y).holder r = some j →
      (j = k ∧ y.held r = true) ∨ (j ≠ k ∧ y.held r = false ∧ s.holder r = some j) := by
    intro r j hj
    by_cases hr : y.held r = true
    · simp only [Db.store, hr, if_true] at hj
      exact .inl ⟨(Option.some.inj hj).symm, hr⟩
    · by_cases hold : s.holder r = some k
      · simp [Db.store, hr, hold] at hj
      · have hj' : s.holder r = some j := by simpa [Db.store, hr, hold] using hj
        exact .inr ⟨fun h => hold (by rw [hj', h]), by simpa using hr, hj'⟩
  refine ⟨fun r j hj => ?_, fun r j hj => ?_, fun r j hj j' hj' => ?_⟩
  · rcases hholder r j hj with ⟨rfl, -⟩ | ⟨-, -, h⟩
    · exact hk
    · exact hs.holder r j h
  · rcases hsharers r j hj with ⟨rfl, -⟩ | ⟨-, h⟩
    · exact hk
    · exact hs.sharers r j h
  · rcases hholder r j hj with ⟨rfl, hr⟩ | ⟨hne, -, hold⟩
    · -- the row is ours: nobody shared it
      rcases hsharers r j' hj' with ⟨rfl, -⟩ | ⟨hne, hmem⟩
      · rfl
      · rcases ht.held r hr with h | h
        · exact hs.alone r j h j' hmem
        · simp only [Db.free, Bool.and_eq_true, List.all_eq_true, beq_iff_eq] at h
          exact h.2 j' hmem
    · -- the row is another's: we could not have shared it
      rcases hsharers r j' hj' with ⟨rfl, hpin⟩ | ⟨-, hmem⟩
      · rcases ht.pinned r hpin with h | h
        · exact hs.alone r j hold j' h
        · rw [hold] at h
          exact absurd (by simpa using h) hne
      · exact hs.alone r j hold j' hmem

/-- The contract of the sessions as one of programs. -/
def Contract.prog (c : Contract W γ) : Prog.Contract (Db W γ) Nat where
  inv s := s.Sound ∧ c.inv s.toShared
  live s k := k < s.sessions
  rely k s t := s.sessions ≤ t.sessions ∧ (s.closed k = true → t.closed k = true) ∧
    (t.closed k = true ∨ Later c (s.snap k) (t.snap k))
  guar s t := c.guar s.toShared t.toShared
  rely_refl k s := ⟨le_refl _, id, .inr (Later.refl c _)⟩
  rely_trans k s t u h h' := by
    refine ⟨le_trans h.1 h'.1, fun hs => h'.2.1 (h.2.1 hs), ?_⟩
    rcases h'.2.2 with hu | hl'
    · exact .inl hu
    · rcases h.2.2 with ht | hl
      · exact .inl (h'.2.1 ht)
      · exact .inr (hl.trans hl')
  guar_refl s := c.refl _

section Together

variable {c : Contract W γ} {allow : Shared W γ → Shared W γ → Bool} {init : Shared W γ → Prop}
  {p : β → Session W γ Unit} {may : β → Shared W γ → Bool}

omit [DecidableEq R] in
/-- What a statement of session `k` owes to everybody else. -/
theorem Db.keeps_store (hs : s.Sound) (ht : Took s k y) (hk : k < s.sessions) (hkept : Kept c (s.snap k) y) :
    c.prog.Keeps k s (s.store k y) :=
  ⟨⟨hs.store ht hk, hkept.inv⟩, hkept.guar, fun _ h => h,
    fun _ hne _ => ⟨le_refl _, id, .inr (Db.later_store hs ht hkept hne)⟩⟩

/-- **The obligation of a session is the obligation of its program.** -/
theorem Holds.safe {q : Session W γ Unit} (hk : k < s.sessions) (h : Holds c allow (fun _ _ => True) q (s.snap k)) :
    q.Safe (machine allow init p may) c.prog k (fun _ _ => True) s := by
  induction q generalizing s with
  | ret a => trivial
  | act e f ih =>
    intro t hr hi o a u hx
    obtain ⟨y, hrun, rfl, hallow, hclosed, ht⟩ := exec_took hx
    have hlater : Later c (s.snap k) (t.snap k) := by
      rcases hr.2.2 with hcl | hl
      · rw [hclosed] at hcl; cases hcl
      · exact hl
    obtain ⟨hkept, hrest⟩ := h _ hlater (t.snap_coherent k) hi.2 o a y hrun hallow
    have hkt : k < t.sessions := Nat.lt_of_lt_of_le hk hr.1
    refine ⟨Db.keeps_store hi.1 ht hkt hkept, ih a (s := t.store k y) hkt ?_⟩
    rw [Db.snap_store (Stmt.run_coherent hrun (t.snap_coherent k))]
    exact hrest

omit [DecidableEq R] in
theorem Db.took_release (s : Db W γ) (k : Nat) : Took s k (s.snap k).release :=
  ⟨nofun, nofun, fun _ _ => rfl, le_refl _, le_refl _⟩

theorem sound (hstart : ∀ s, init s → c.inv s)
    (hp : ∀ b (x : Snap W γ), may b x.toShared = true → c.inv x.toShared → x.Idle →
      Holds c allow (fun _ _ => True) (p b) x) :
    Prog.Sound (machine allow init p may) c.prog where
  start s h := by
    obtain ⟨hinit, hholder, hsharers, -, -⟩ := h
    refine ⟨⟨fun r k hk => ?_, fun r k hk => ?_, fun r k hk => ?_⟩, hstart _ hinit⟩
    · rw [hholder] at hk; cases hk
    · rw [hsharers] at hk; cases hk
    · rw [hholder] at hk; cases hk
  env s b t q hi h := by
    cases b with
    | start b =>
      simp only [machine] at h
      split at h
      case isFalse => cases h
      next hmay =>
      cases h
      have hsnap : ∀ k, ({ s with sessions := s.sessions + 1 } : Db W γ).snap k = s.snap k := fun _ => rfl
      have hsound : ({ s with sessions := s.sessions + 1 } : Db W γ).Sound :=
        ⟨fun r k hk => Nat.lt_succ_of_lt (hi.1.holder r k hk),
          fun r k hk => Nat.lt_succ_of_lt (hi.1.sharers r k hk), hi.1.alone⟩
      refine ⟨⟨⟨hsound, hi.2⟩, c.refl _, fun k hk => ⟨Nat.lt_succ_of_lt hk, Nat.le_succ _, id,
        .inr (Later.refl c _)⟩⟩, fun k q hq => ?_⟩
      cases hq
      refine ⟨Nat.lt_irrefl _, Nat.lt_succ_self _, Holds.safe (Nat.lt_succ_self _) ?_⟩
      have hidle : (s.snap s.sessions).Idle := by
        have hheld : ∀ r, (s.snap s.sessions).held r = false := fun r => by
          have hne : s.holder r ≠ some s.sessions := fun h => Nat.lt_irrefl _ (hi.1.holder r _ h)
          simpa [Db.snap] using hne
        refine ⟨hheld, fun r => ?_, funext fun r => s.snap_coherent _ r (hheld r)⟩
        have hne : s.sessions ∉ s.sharers r := fun h => Nat.lt_irrefl _ (hi.1.sharers r _ h)
        simpa [Db.snap] using hne
      rw [hsnap]
      exact hp b _ hmay hi.2 hidle
    | close k =>
      simp only [machine] at h
      split at h
      case isFalse => cases h
      next hk =>
      cases h
      have hkept : Kept c (s.snap k) (s.snap k).release := Kept.of_shared rfl hi.2
      have hkeep := Db.keeps_store hi.1 (s.took_release k) hk hkept
      refine ⟨⟨⟨⟨hkeep.inv.1.holder, hkeep.inv.1.sharers, hkeep.inv.1.alone⟩, hkeep.inv.2⟩, hkeep.guar,
        fun k' hk' => ⟨hk', le_refl _, fun hc => ?_, ?_⟩⟩, nofun⟩
      · by_cases hkk : k' = k
        · subst hkk; exact Function.update_self ..
        · exact (Function.update_of_ne hkk _ _).trans hc
      · by_cases hkk : k' = k
        · subst hkk; exact .inl (Function.update_self ..)
        · exact .inr (Db.later_store hi.1 (s.took_release k) hkept hkk)

/-- **Every reachable state satisfies the invariant**, and every step the guarantee, if every program meets
    its obligation. -/
theorem reachable_inv (hstart : ∀ s, init s → c.inv s)
    (hp : ∀ b (x : Snap W γ), may b x.toShared = true → c.inv x.toShared → x.Idle →
      Holds c allow (fun _ _ => True) (p b) x)
    {cfg : Prog.Config (Db W γ) Nat (Stmt W γ) Stmt.Reply}
    (h : (machine allow init p may).lts.Reachable cfg) :
    c.inv cfg.state.toShared ∧ ∀ l cfg', (machine allow init p may).lts.step cfg l = some cfg' →
      c.guar cfg.state.toShared cfg'.state.toShared := by
  have hsound : Prog.Sound (machine allow init p may) c.prog := sound hstart hp
  have hgood := hsound.good h
  exact ⟨hgood.inv.2, fun l cfg' hstep => (hsound.step hgood hstep).2⟩

end Together

end ReadCommitted
