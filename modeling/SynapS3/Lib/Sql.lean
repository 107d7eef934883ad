import SynapS3.Lib.ReadCommitted

/-!
# `Lib.Sql` — the transactions of a program, statement by statement

A transaction body (`Sql`) is a sequence of statements that ends in a value, refuses with an error of the
program, or breaks off because a statement failed. `attempt` runs a body as one transaction, and `retrying`
runs it again as long as it fails in a way that is worth another attempt.

`Body` is the obligation of a transaction body. What the transaction did is accounted for once, at its commit
(`Holds.attempt`).
-/

namespace ReadCommitted

variable {R : Type} [DecidableEq R] {W : R → Type} {γ ε α δ : Type}

/-- Why a transaction did not commit: a statement failed, or the program refused. -/
inductive Fault (ε : Type) where
  | failed (why : Failure)
  | refused (e : ε)
  deriving DecidableEq

/-- A stretch of a transaction, which may fail or refuse. -/
def Sql (W : R → Type) (γ ε α : Type) : Type := Session W γ (Except (Fault ε) α)

namespace Sql

protected def bind (m : Sql W γ ε α) (f : α → Sql W γ ε δ) : Sql W γ ε δ :=
  Prog.bind m fun
    | .ok a => f a
    | .error e => .ret (.error e)

instance : Monad (Sql W γ ε) where
  pure a := .ret (.ok a)
  bind := Sql.bind

def stmt (e : Stmt W γ) : Sql W γ ε e.Answer := .act e fun
  | .ok a => .ret (.ok a)
  | .error why => .ret (.error (.failed why))

def look : Sql W γ ε (Rows W × Nat) := stmt .look
def lock (r : R) : Sql W γ ε (Option (W r)) := stmt (.lock r)
def insert (r : R) (w : W r) : Sql W γ ε Bool := stmt (.insert r w)
def update (r : R) (f : W r → Option (Option (W r))) : Sql W γ ε Bool := stmt (.update r f)
def now : Sql W γ ε Int := stmt .now
def nextval : Sql W γ ε Nat := stmt .nextval
def note (record : γ → γ) : Sql W γ ε Unit := stmt (.note record)

def refuse (e : ε) : Sql W γ ε α := .ret (.error (.refused e))

def demand (p : Bool) (e : ε) : Sql W γ ε Unit := if p then pure () else refuse e

def orRefuse (x : Option α) (e : ε) : Sql W γ ε α :=
  match x with
  | some a => pure a
  | none => refuse e

/-- Run the body as one transaction; `record` is what the record keeps of it. -/
def attempt (body : Sql W γ ε α) (record : α → γ → γ) : Session W γ (Except (Fault ε) α) :=
  Prog.bind body fun
    | .ok a => .act (.commit (record a)) fun
      | .ok _ => .ret (.ok a)
      | .error why => .ret (.error (.failed why))
    | .error (.failed why) => .ret (.error (.failed why))
    | .error (.refused e) => .act .rollback fun _ => .ret (.error (.refused e))

/-- Run a transaction in two stretches, and say what the first one found if it was passed. -/
def attemptFrom (first : Sql W γ ε δ) (body : δ → Sql W γ ε α) (record : α → γ → γ) :
    Session W γ (Option δ × Except (Fault ε) α) :=
  Prog.bind first fun
    | .ok d => Prog.bind (attempt (body d) record) fun r => .ret (some d, r)
    | .error (.failed why) => .ret (none, .error (.failed why))
    | .error (.refused e) => .act .rollback fun _ => .ret (none, .error (.refused e))

/-- The transaction is worth another attempt: the database says so, or the program does (`again`). -/
def worth (again : ε → Bool) : Fault ε → Bool
  | .failed .retryable => true
  | .failed .fatal => false
  | .refused e => again e

/-- Run a transaction of two stretches, up to `n` more times while it is worth it; `keep` is what one attempt
    leaves in memory for the next. -/
def retryingFrom {σ : Type} (again : ε → Bool) (first : σ → Sql W γ ε δ) (body : σ → δ → Sql W γ ε α)
    (record : α → γ → γ) (keep : σ → δ → σ) : Nat → σ → Session W γ (Except (Fault ε) α)
  | 0, m => Prog.bind (attemptFrom (first m) (body m) record) fun (_, r) => .ret r
  | n + 1, m => Prog.bind (attemptFrom (first m) (body m) record) fun
    | (_, .ok a) => .ret (.ok a)
    | (d, .error e) =>
      if worth again e then retryingFrom again first body record keep n (d.elim m (keep m))
      else .ret (.error e)

/-- Run the body as a transaction, up to `n` more times while it is worth it. -/
def retrying (again : ε → Bool) (body : Sql W γ ε α) (record : α → γ → γ) (n : Nat) :
    Session W γ (Except (Fault ε) α) :=
  retryingFrom again (fun _ : Unit => pure ()) (fun _ _ => body) record (fun _ _ => ()) n ()

end Sql

/-- **The obligation of a transaction body** with postcondition `P`. -/
def Body (c : Contract W γ) (allow : Shared W γ → Shared W γ → Bool) (P : α → Snap W γ → Prop)
    (body : Sql W γ ε α) (x : Snap W γ) : Prop :=
  Holds c allow (fun r y => match r with
    | .ok a => P a y
    | .error (.failed _) => y.Idle
    | .error (.refused _) => True) body x

section Rules

variable {c : Contract W γ} {allow : Shared W γ → Shared W γ → Bool} {P : α → Snap W γ → Prop} {x : Snap W γ}

omit [DecidableEq R] in
theorem Snap.release_idle (x : Snap W γ) : x.release.Idle := ⟨fun _ => rfl, fun _ => rfl, rfl⟩

theorem Body.pure {a : α} (h : P a x) : Body c allow P (Pure.pure a : Sql W γ ε α) x := h

variable {e : ε} {r : R} {record : α → γ → γ} {F : Shared W γ → Prop}

theorem Body.refuse : Body c allow P (Sql.refuse e : Sql W γ ε α) x := trivial

theorem Body.bind {m : Sql W γ ε δ} {f : δ → Sql W γ ε α}
    (h : Body c allow (fun a y => Body c allow P (f a) y) m x) : Body c allow P (m >>= f) x := by
  refine Holds.bind (Holds.mono h fun r y hr => ?_)
  match r, hr with
  | .ok a, hr => exact hr
  | .error (.failed _), hr => exact hr
  | .error (.refused _), hr => exact hr

theorem Body.mono {Q : α → Snap W γ → Prop} {body : Sql W γ ε α} (h : Body c allow Q body x)
    (hP : ∀ a y, Q a y → P a y) : Body c allow P body x := by
  refine Holds.mono h fun r y hr => ?_
  match r, hr with
  | .ok a, hr => exact hP a y hr
  | .error (.failed _), hr => exact hr
  | .error (.refused _), hr => exact hr

theorem Body.demand {p : Bool} {P : Unit → Snap W γ → Prop} (h : p = true → P () x) :
    Body c allow P (Sql.demand p e : Sql W γ ε Unit) x := by
  cases p with
  | true => exact h rfl
  | false => trivial

theorem Body.orRefuse {v : Option α} (h : ∀ a, v = some a → P a x) :
    Body c allow P (Sql.orRefuse v e : Sql W γ ε α) x := by
  cases v with
  | some a => exact h a rfl
  | none => trivial

theorem Body.stmt {e : Stmt W γ} {P : e.Answer → Snap W γ → Prop} (hcommit : ∀ record, e ≠ .commit record)
    (h : ∀ y, Later c x y → y.Coherent → c.inv y.toShared → ∀ tick a z, e.run (.go tick) y = some (.ok a, z) →
      allow y.toShared z.toShared = true → Kept c y z ∧ P a z) :
    Body c allow P (Sql.stmt e : Sql W γ ε e.Answer) x := by
  intro y hy hc hi o a z hz ha
  cases o with
  | fail why =>
    cases hz
    exact ⟨.of_shared rfl hi, Snap.release_idle _⟩
  | lost =>
    cases e <;> simp only [Stmt.run, reduceCtorEq] at hz
    exact absurd rfl (hcommit _)
  | go tick =>
    cases a with
    | ok a => exact h y hy hc hi tick a z hz ha
    | error why =>
      -- a statement that runs does not answer with a failure
      cases e <;> simp only [Stmt.run] at hz <;> (try split at hz) <;> cases hz

theorem Body.look {P : Rows W × Nat → Snap W γ → Prop}
    (h : ∀ y, Later c x y → y.Coherent → c.inv y.toShared → P (y.view, y.seq) y) :
    Body c allow P (Sql.look : Sql W γ ε _) x := by
  refine Body.stmt (fun _ => nofun) fun y hy hc hi tick a z hz _ => ?_
  cases hz
  exact ⟨.of_shared rfl hi, h y hy hc hi⟩

theorem Body.lock {P : Option (W r) → Snap W γ → Prop} (h : ∀ y, Later c x y → y.Coherent → c.inv y.toShared →
      (y.view r = none → P none y) ∧ ∀ w, y.view r = some w → P (some w) (y.hold r)) :
    Body c allow P (Sql.lock r : Sql W γ ε _) x := by
  refine Body.stmt (fun _ => nofun) fun y hy hc hi tick a z hz _ => ?_
  cases hz
  obtain ⟨hnone, hsome⟩ := h y hy hc hi
  cases hv : y.view r with
  | none => exact ⟨.of_shared rfl hi, hnone hv⟩
  | some w => exact ⟨.of_shared rfl hi, hsome w hv⟩

theorem Body.insert {w : W r} {P : Bool → Snap W γ → Prop} (h : ∀ y, Later c x y → y.Coherent → c.inv y.toShared →
      (∀ w', y.view r = some w' → P false y) ∧ (y.view r = none → P true (y.put r (some w)))) :
    Body c allow P (Sql.insert r w : Sql W γ ε _) x := by
  refine Body.stmt (fun _ => nofun) fun y hy hc hi tick a z hz _ => ?_
  obtain ⟨hsome, hnone⟩ := h y hy hc hi
  simp only [Stmt.run] at hz
  cases hv : y.view r with
  | none =>
    simp only [hv, Option.isSome_none, Bool.false_eq_true, if_false] at hz
    cases hz
    exact ⟨.of_shared rfl hi, hnone hv⟩
  | some w' =>
    simp only [hv, Option.isSome_some, if_true] at hz
    cases hz
    exact ⟨.of_shared rfl hi, hsome w' hv⟩

theorem Body.update {f : W r → Option (Option (W r))} {P : Bool → Snap W γ → Prop}
    (h : ∀ y, Later c x y → y.Coherent → c.inv y.toShared →
      ((y.view r).bind f = none → P false y) ∧ ∀ w, (y.view r).bind f = some w → P true (y.put r w)) :
    Body c allow P (Sql.update r f : Sql W γ ε _) x := by
  refine Body.stmt (fun _ => nofun) fun y hy hc hi tick a z hz _ => ?_
  obtain ⟨hnone, hsome⟩ := h y hy hc hi
  simp only [Stmt.run] at hz
  cases hw : (y.view r).bind f with
  | none =>
    rw [hw] at hz
    cases hz
    exact ⟨.of_shared rfl hi, hnone hw⟩
  | some w =>
    rw [hw] at hz
    cases hz
    exact ⟨.of_shared rfl hi, hsome w hw⟩

theorem Body.now {P : Int → Snap W γ → Prop}
    (h : ∀ y, Later c x y → y.Coherent → c.inv y.toShared → ∀ t, y.clock < t → P t { y with clock := t }) :
    Body c allow P (Sql.now : Sql W γ ε _) x := by
  refine Body.stmt (fun _ => nofun) fun y hy hc hi tick a z hz _ => ?_
  cases hz
  have hlt : y.clock < y.clock + 1 + tick := by omega
  obtain ⟨hinv, hguar⟩ := c.tick y.toShared (y.clock + 1 + tick) y.seq (le_of_lt hlt) (le_refl _) hi
  exact ⟨.of_rows rfl hinv hguar, h y hy hc hi _ hlt⟩

theorem Body.nextval {P : Nat → Snap W γ → Prop}
    (h : ∀ y, Later c x y → y.Coherent → c.inv y.toShared → P y.seq { y with seq := y.seq + 1 }) :
    Body c allow P (Sql.nextval : Sql W γ ε _) x := by
  refine Body.stmt (fun _ => nofun) fun y hy hc hi tick a z hz _ => ?_
  cases hz
  obtain ⟨hinv, hguar⟩ := c.tick y.toShared y.clock (y.seq + 1) (le_refl _) (Nat.le_succ _) hi
  exact ⟨.of_rows rfl hinv hguar, h y hy hc hi⟩

theorem Body.note {record : γ → γ} {P : Unit → Snap W γ → Prop}
    (h : ∀ y, Later c x y → y.Coherent → c.inv y.toShared →
      allow y.toShared { y.toShared with ghost := record y.ghost } = true →
      (c.inv { y.toShared with ghost := record y.ghost } ∧
        c.guar y.toShared { y.toShared with ghost := record y.ghost }) ∧
      P () { y with ghost := record y.ghost }) :
    Body c allow P (Sql.note record : Sql W γ ε _) x := by
  refine Body.stmt (fun _ => nofun) fun y hy hc hi tick a z hz ha => ?_
  cases hz
  obtain ⟨⟨hinv, hguar⟩, hP⟩ := h y hy hc hi ha
  exact ⟨.of_rows rfl hinv hguar, hP⟩

/-- A body that ended with `P` may commit with `record`, and then `Q` holds of its answer. -/
def Commits (c : Contract W γ) (allow : Shared W γ → Shared W γ → Bool) (P : α → Snap W γ → Prop) (record : α → γ → γ)
    (Q : Except (Fault ε) α → Snap W γ → Prop) : Prop :=
  ∀ a y, P a y → ∀ z, Later c y z → z.Coherent → c.inv z.toShared →
    allow z.toShared (z.committed (record a)).toShared = true →
    Kept c z (z.committed (record a)) ∧ Q (.ok a) (z.committed (record a))

variable {Q : Except (Fault ε) α → Snap W γ → Prop}

/-- **The rule for a transaction**: the account of what it did is given at its commit. -/
theorem Holds.attempt {body : Sql W γ ε α} (hbody : Body c allow P body x)
    (hfault : ∀ e y, y.Idle → Q (.error e) y) (hcommit : Commits c allow P record Q) :
    Holds c allow Q (Sql.attempt body record) x := by
  refine Holds.bind (Holds.mono hbody fun r y hr => ?_)
  match r, hr with
  | .error (.failed why), hr => exact hfault _ y hr
  | .error (.refused e), _ =>
    intro z _ _ hi o a u hu _
    have hidle : u = z.release := by
      cases o with
      | fail why => cases hu; rfl
      | lost => cases hu
      | go tick => cases hu; rfl
    subst hidle
    exact ⟨.of_shared rfl hi, hfault _ _ (Snap.release_idle _)⟩
  | .ok a, hr =>
    intro z hz hc hi o b u hu hallow
    have hidle : (z.committed (record a)).Idle := ⟨fun _ => rfl, fun _ => rfl, rfl⟩
    cases o with
    | fail why =>
      cases hu
      exact ⟨.of_shared rfl hi, hfault _ _ (Snap.release_idle _)⟩
    | lost =>
      cases hu
      exact ⟨(hcommit a y hr z hz hc hi hallow).1, hfault _ _ hidle⟩
    | go tick =>
      cases hu
      exact hcommit a y hr z hz hc hi hallow

theorem Holds.frame (hF : ∀ s t, c.guar s t → F s → F t) {Q : δ → Snap W γ → Prop} {p : Session W γ δ}
    (h : Holds c allow Q p x) (hx : F x.toShared) : Holds c allow (fun a y => Q a y ∧ F y.toShared) p x := by
  induction p generalizing x with
  | ret a => exact ⟨h, hx⟩
  | act e f ih =>
    intro y hy hc hi o a z hz ha
    obtain ⟨hk, hrest⟩ := h y hy hc hi o a z hz ha
    exact ⟨hk, ih a hrest (hF _ _ hk.guar (hF _ _ hy.guar hx))⟩

theorem Body.frame (hF : ∀ s t, c.guar s t → F s → F t) {body : Sql W γ ε α} (h : Body c allow P body x)
    (hx : F x.toShared) : Body c allow (fun a y => P a y ∧ F y.toShared) body x := by
  refine Holds.mono (Holds.frame hF h hx) fun r y hr => ?_
  match r, hr with
  | .ok a, hr => exact hr
  | .error (.failed _), hr => exact hr.1
  | .error (.refused _), _ => trivial

/-- A transaction of two stretches, with what the guarantee keeps from before it, `F`, and from the end of the
    first stretch, `F'`. -/
theorem Holds.attemptFrom {first : Sql W γ ε δ} {body : δ → Sql W γ ε α} {G : δ → Snap W γ → Prop}
    {F' : δ → Shared W γ → Prop} (hF : ∀ s t, c.guar s t → F s → F t)
    (hF' : ∀ d s t, c.guar s t → F' d s → F' d t) (hx : F x.toShared) (hfirst : Body c allow G first x)
    (hbody : ∀ d y, G d y → F' d y.toShared ∧ Body c allow P (body d) y)
    (hfault : ∀ e y, y.Idle → Q (.error e) y) (hcommit : Commits c allow P record Q) :
    Holds c allow (fun r y => (Q r.2 y ∧ y.Idle) ∧ r.1.elim (F y.toShared) (fun d => F' d y.toShared))
      (Sql.attemptFrom first body record) x := by
  refine Holds.bind (Holds.mono (Holds.frame hF hfirst hx) fun r y hr => ?_)
  match r, hr with
  | .error (.failed why), hr => exact ⟨⟨hfault _ y hr.1, hr.1⟩, hr.2⟩
  | .error (.refused e), hr =>
    intro z hz _ hi o a u hu _
    have hidle : u = z.release := by
      cases o with
      | fail why => cases hu; rfl
      | lost => cases hu
      | go tick => cases hu; rfl
    subst hidle
    exact ⟨.of_shared rfl hi, ⟨hfault _ _ (Snap.release_idle _), Snap.release_idle _⟩, hF _ _ hz.guar hr.2⟩
  | .ok d, hr =>
    obtain ⟨hd, hb⟩ := hbody d y hr.1
    refine Holds.bind (Holds.mono (Holds.frame (hF' d) (Holds.attempt (Q := fun r y => Q r y ∧ y.Idle) hb
      (fun e z hz => ⟨hfault e z hz, hz⟩) fun a u hu z hz hc hi hallow => ?_) hd) fun r z hz => hz)
    obtain ⟨hk, hQ⟩ := hcommit a u hu z hz hc hi hallow
    exact ⟨hk, hQ, fun _ => rfl, fun _ => rfl, rfl⟩

variable {again : ε → Bool}

/-- **The rule for a transaction that is retried**: every attempt starts with nothing but what it was left in
    memory and what the guarantee keeps, `F`. -/
theorem Holds.retryingFrom {σ : Type} {F : σ → Shared W γ → Prop} (hF : ∀ m s t, c.guar s t → F m s → F m t)
    {first : σ → Sql W γ ε δ} {body : σ → δ → Sql W γ ε α} {keep : σ → δ → σ} {G : σ → δ → Snap W γ → Prop}
    (hfirst : ∀ m (y : Snap W γ), y.Idle → F m y.toShared → Body c allow (G m) (first m) y)
    (hbody : ∀ m d y, G m d y → F (keep m d) y.toShared ∧ Body c allow P (body m d) y)
    (hfault : ∀ e y, y.Idle → Q (.error e) y) (hcommit : Commits c allow P record Q) (n : Nat) (m : σ)
    (hidle : x.Idle) (hx : F m x.toShared) :
    Holds c allow Q (Sql.retryingFrom again first body record keep n m) x := by
  induction n generalizing x m with
  | zero =>
    refine Holds.bind (Holds.mono (Holds.attemptFrom (hF m) (fun d => hF (keep m d)) hx (hfirst m x hidle hx)
      (hbody m) hfault hcommit) fun r y hr => hr.1.1)
  | succ n ih =>
    refine Holds.bind (Holds.mono (Holds.attemptFrom (hF m) (fun d => hF (keep m d)) hx (hfirst m x hidle hx)
      (hbody m) hfault hcommit) fun r y hr => ?_)
    match r, hr with
    | (_, .ok a), hr => exact hr.1.1
    | (d, .error e), hr =>
      show Holds c allow Q (if _ then _ else _) y
      split
      · refine ih _ hr.1.2 ?_
        cases d with
        | none => exact hr.2
        | some d => exact hr.2
      · exact hr.1.1

theorem Holds.retrying (hF : ∀ s t, c.guar s t → F s → F t) {body : Sql W γ ε α}
    (hbody : ∀ y : Snap W γ, y.Idle → F y.toShared → Body c allow P body y)
    (hfault : ∀ e y, y.Idle → Q (.error e) y) (hcommit : Commits c allow P record Q) (n : Nat) (hidle : x.Idle)
    (hx : F x.toShared) : Holds c allow Q (Sql.retrying again body record n) x :=
  Holds.retryingFrom (F := fun _ => F) (G := fun _ _ y => y.Idle ∧ F y.toShared) (fun _ => hF)
    (fun _ _ hy hf => Body.pure ⟨hy, hf⟩) (fun _ _ y hy => ⟨hy.2, hbody y hy.1 hy.2⟩) hfault hcommit n () hidle hx

end Rules

end ReadCommitted
