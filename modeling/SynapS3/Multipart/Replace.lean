import Mathlib.Data.Option.Basic

/-!
# `Multipart.Replace` — a part is replaced as a whole

`commitAs` of `putStaged` with `replacePart`: a staged file takes the place of a part that may be there already. The
old file keeps a second name until the new one is durable, and is put back if that fails. Any of the file operations
can fail.
-/

namespace SynapS3.Multipart

inductive FileOp
  | stat
  | link
  | rename
  | dropPrevious
  | sync
  | removeUnsynced
  | removePrevious
  | restore
  | resync
  deriving DecidableEq

/-- A staged part: what its three names hold (`destPath`, `tmpPath` and `backupPath`), and whether it counts as
    committed. `seen` is a ghost: what the part's name held so far. -/
structure Staged (C : Type) where
  part : Option C
  staged : Option C
  previous : Option C := none
  committed : Bool := false
  seen : List (Option C) := [part]

namespace Staged

variable {C : Type} {old : Option C} {new : C} {s t : Staged C} {fails : FileOp → Bool} {b pub existed : Bool}

def attempt (fails : Bool) (file : Option C) (f : C → Staged C) : Option (Staged C) :=
  if fails then none else file.map f

def sees (s : Staged C) (c : Option C) : Staged C := { s with part := c, seen := c :: s.seen }

/-- `syncCommittedEntry`: whether the part still holds the staged bytes, and what failed. -/
def syncCommittedEntry (fails : FileOp → Bool) (existed : Bool) (s : Staged C) : Bool × List FileOp × Staged C :=
  if fails .sync then
    if existed then (true, [.sync], s)
    else match attempt (fails .removeUnsynced) s.part fun _ => s.sees none with
      | none => (true, [.sync, .removeUnsynced], s)
      | some s => (false, [.sync], s)
  else (true, [], s)

def restore (fails : FileOp → Bool) (err : List FileOp) (s : Staged C) : List FileOp × Staged C :=
  match attempt (fails .restore) s.previous fun c => { s with previous := none }.sees c with
  | none => (err ++ [.restore], { s with committed := true })
  | some s => (if fails .resync then err ++ [.resync] else err, s)

def publish (fails : FileOp → Bool) (existed : Bool) (s : Staged C) : List FileOp × Staged C :=
  match attempt (fails .rename) s.staged fun c => { s with staged := none }.sees c with
  | none =>
    if existed then
      match attempt (fails .dropPrevious) s.previous fun _ => { s with previous := none } with
      | none => ([.rename, .dropPrevious], s)
      | some s => ([.rename], s)
    else ([.rename], s)
  | some s =>
    match syncCommittedEntry fails existed s with
    | (false, err, s) => (err, s)
    | (true, err, s) =>
      if existed then
        if err = [] then
          match attempt (fails .removePrevious) s.previous fun _ => { s with previous := none } with
          | none => s.restore fails [.removePrevious]
          | some s => ([], { s with committed := true })
        else s.restore fails err
      else (err, { s with committed := true })

def commit (fails : FileOp → Bool) (s : Staged C) : List FileOp × Staged C :=
  if s.committed then ([], s)
  else if fails .stat then ([.stat], s)
  else if s.part.isSome then
    match attempt (fails .link || s.previous.isSome) s.part fun c => { s with previous := c } with
    | none => ([.link], s)
    | some s => s.publish fails true
  else s.publish fails false

def rollback (fails : Bool) (s : Staged C) : Staged C :=
  if s.committed then s else (attempt fails s.staged fun _ => { s with staged := none }).getD s

inductive Call
  | commit (fails : FileOp → Bool)
  | rollback (fails : Bool)

def run : List Call → Staged C → Staged C
  | [], s => s
  | .commit fails :: rest, s => run rest (s.commit fails).2
  | .rollback fails :: rest, s => run rest (s.rollback fails)

/-! ## What the names hold -/

/-- The part is the new one if it was published, and the old one otherwise. -/
structure Shows (old : Option C) (new : C) (pub : Bool) (s : Staged C) : Prop where
  part : s.part = if pub then some new else old
  staged : ∀ c, s.staged = some c → c = new
  previous : ∀ c, s.previous = some c → old = some c
  seen : ∀ v ∈ s.seen, v = old ∨ v = some new

/-- What a replacement leaves, and which file operations it says have failed. -/
structure Outcome (old : Option C) (new : C) (fails : FileOp → Bool) (r : List FileOp × Staged C) : Prop where
  shows : Shows old new r.2.committed r.2
  committed : r.2.committed = true ↔ r.1 = [] ∨ .restore ∈ r.1 ∨ .removeUnsynced ∈ r.1
  unsynced : .removeUnsynced ∈ r.1 → fails .removeUnsynced = true
  unrestored : .restore ∈ r.1 → fails .restore = true

theorem attempt_some {file : Option C} {f : C → Staged C} (h : attempt b file f = some t) :
    ∃ c, file = some c ∧ t = f c := by
  unfold attempt at h
  split at h
  · cases h
  · obtain ⟨c, hc, rfl⟩ := Option.map_eq_some_iff.mp h
    exact ⟨c, hc, rfl⟩

theorem Shows.sees {c : Option C} {p : Bool} (h : Shows old new pub s) (hc : c = if p then some new else old) :
    Shows old new p (s.sees c) := by
  refine ⟨hc, h.staged, h.previous, fun v hv => ?_⟩
  rcases List.mem_cons.mp hv with rfl | hv
  · rw [hc]
    cases p
    · exact .inl rfl
    · exact .inr rfl
  · exact h.seen v hv

theorem Shows.dropPrevious (h : Shows old new pub s) : Shows old new pub { s with previous := none } :=
  ⟨h.part, h.staged, by simp, h.seen⟩

theorem Shows.dropStaged (h : Shows old new pub s) : Shows old new pub { s with staged := none } :=
  ⟨h.part, by simp, h.previous, h.seen⟩

/-- What was preserved is the old part: putting it back undoes the rename. -/
theorem restore_outcome {err : List FileOp} (h : Shows old new true s) (hopen : s.committed = false)
    (hprev : s.previous.isSome = true) (herr : err = [.sync] ∨ err = [.removePrevious]) :
    Outcome old new fails (s.restore fails err) := by
  unfold restore
  cases hr : attempt (fails .restore) s.previous fun c => { s with previous := none }.sees c with
  | none =>
    refine ⟨⟨h.part, h.staged, h.previous, h.seen⟩, by simp, ?_, fun _ => ?_⟩
    · rcases herr with rfl | rfl <;> simp
    · -- there is a part to put back
      obtain ⟨c, hc⟩ := Option.isSome_iff_exists.mp hprev
      simpa [attempt, hc] using hr
  | some t =>
    obtain ⟨c, hc, rfl⟩ := attempt_some hr
    refine ⟨?_, ?_, ?_, ?_⟩
    · simpa [Staged.sees, hopen] using h.dropPrevious.sees (p := false) (h.previous c hc).symm
    all_goals rcases herr with rfl | rfl <;> cases fails .resync <;> simp [Staged.sees, hopen]

theorem publish_outcome (h : Shows old new false s) (hopen : s.committed = false)
    (hprev : existed = true → s.previous.isSome = true) (hnew : existed = false → old = none) :
    Outcome old new fails (s.publish fails existed) := by
  unfold publish
  cases hr : attempt (fails .rename) s.staged fun c => { s with staged := none }.sees c with
  | none =>
    cases existed with
    | false => exact ⟨by simpa [hopen] using h, by simp [hopen], by simp, by simp⟩
    | true =>
      cases hd : attempt (fails .dropPrevious) s.previous fun _ => { s with previous := none } with
      | none => exact ⟨by simpa [hopen] using h, by simp [hopen], by simp, by simp⟩
      | some t =>
        obtain ⟨-, -, rfl⟩ := attempt_some hd
        exact ⟨by simpa [hopen] using h.dropPrevious, by simp [hopen], by simp, by simp⟩
  | some t =>
    obtain ⟨c, hc, rfl⟩ := attempt_some hr
    cases h.staged c hc
    have ht := h.dropStaged.sees (c := some new) (p := true) rfl
    have hclosed : ({ s with staged := none }.sees (some new)).committed = false := hopen
    have hkept : ({ s with staged := none }.sees (some new)).previous = s.previous := rfl
    generalize { s with staged := none }.sees (some new) = t at ht hclosed hkept
    have hsettled : Shows old new true { t with committed := true } := ⟨ht.part, ht.staged, ht.previous, ht.seen⟩
    dsimp only [syncCommittedEntry]
    cases existed with
    | true =>
      cases fails .sync with
      | true => exact restore_outcome ht hclosed (hkept ▸ hprev rfl) (.inl rfl)
      | false =>
        simp only [Bool.false_eq_true, if_false, if_true]
        cases hd : attempt (fails .removePrevious) t.previous fun _ => { t with previous := none } with
        | none => exact restore_outcome ht hclosed (hkept ▸ hprev rfl) (.inr rfl)
        | some u =>
          obtain ⟨-, -, rfl⟩ := attempt_some hd
          exact ⟨⟨ht.part, ht.staged, by simp, ht.seen⟩, by simp, by simp, by simp⟩
    | false =>
      cases hnew rfl
      cases fails .sync with
      | false => exact ⟨hsettled, by simp, by simp, by simp⟩
      | true =>
        simp only [if_true, Bool.false_eq_true, if_false, ht.part, attempt]
        cases hf : fails .removeUnsynced with
        | true => exact ⟨hsettled, by simp, fun _ => hf, by simp⟩
        | false =>
          have hgone := ht.sees (c := none) (p := false) rfl
          exact ⟨by simpa [sees, hclosed] using hgone, by simp [sees, hclosed], by simp, by simp⟩

theorem commit_outcome (h : Shows old new s.committed s) : Outcome old new fails (s.commit fails) := by
  unfold commit
  split
  · next hc => exact ⟨h, by simp [hc], by simp, by simp⟩
  next hc =>
  have hopen : s.committed = false := by simpa using hc
  have hold : Shows old new false s := by simpa [hopen] using h
  split
  · exact ⟨h, by simp [hopen], by simp, by simp⟩
  split
  · cases hl : attempt (fails .link || s.previous.isSome) s.part fun c => { s with previous := c } with
    | none => exact ⟨h, by simp [hopen], by simp, by simp⟩
    | some t =>
      obtain ⟨c, hpart, rfl⟩ := attempt_some hl
      refine publish_outcome ⟨hold.part, h.staged, fun d hd => ?_, h.seen⟩ hopen (fun _ => rfl) (by simp)
      cases hd
      exact hold.part.symm.trans hpart
  · next hnone => exact publish_outcome hold hopen nofun fun _ => by simpa [hold.part] using hnone

theorem rollback_shows (h : Shows old new s.committed s) :
    Shows old new (s.rollback b).committed (s.rollback b) ∧ (s.rollback b).committed = s.committed := by
  unfold rollback
  split
  · exact ⟨h, rfl⟩
  cases hr : attempt b s.staged fun _ => { s with staged := none } with
  | none => exact ⟨h, rfl⟩
  | some t =>
    obtain ⟨-, -, rfl⟩ := attempt_some hr
    exact ⟨h.dropStaged, rfl⟩

theorem run_shows {calls : List Call} (h : Shows old new s.committed s) :
    Shows old new (run calls s).committed (run calls s) := by
  induction calls generalizing s with
  | nil => exact h
  | cons c rest ih =>
    cases c with
    | commit fails => exact ih (commit_outcome h).shows
    | rollback b => exact ih (rollback_shows h).1

/-- **A part is replaced as a whole**: a commit with an error leaves the old part, unless that could not be put back,
    or a new one not removed where there was none — then the new one is there and counts as committed. -/
theorem part_replaced_whole (old : Option C) (new : C) (calls : List Call) (fails : FileOp → Bool) :
    let r := (run calls { part := old, staged := some new }).commit fails
    (r.1 = [] → r.2.part = some new) ∧
      (r.1 ≠ [] → .restore ∉ r.1 → .removeUnsynced ∉ r.1 → r.2.part = old) ∧
      (.restore ∈ r.1 → fails .restore = true ∧ r.2.part = some new ∧ r.2.committed = true) ∧
      (.removeUnsynced ∈ r.1 → fails .removeUnsynced = true ∧ r.2.part = some new ∧ r.2.committed = true) ∧
      (∀ b, (r.2.rollback b).part = r.2.part ∧ (r.2.rollback b).committed = r.2.committed) ∧
      ∀ v ∈ r.2.seen, v = old ∨ v = some new := by
  intro r
  have hstart : Shows old new false { part := old, staged := some new } :=
    ⟨rfl, fun c hc => (Option.some.inj hc).symm, by simp, by simp⟩
  have hr : Outcome old new fails r := commit_outcome (run_shows hstart)
  have hpart : r.2.committed = true → r.2.part = some new := fun hc => by rw [hr.shows.part, hc]; rfl
  refine ⟨fun he => hpart (hr.committed.mpr (.inl he)), fun he hno hnot => ?_, fun hmem => ?_, fun hmem => ?_,
    fun b => ?_, hr.shows.seen⟩
  · have hc : ¬r.2.committed = true := by
      rw [hr.committed]
      simp [he, hno, hnot]
    rw [hr.shows.part, if_neg hc]
  · have hc := hr.committed.mpr (.inr (.inl hmem))
    exact ⟨hr.unrestored hmem, hpart hc, hc⟩
  · have hc := hr.committed.mpr (.inr (.inr hmem))
    exact ⟨hr.unsynced hmem, hpart hc, hc⟩
  · obtain ⟨hshows, hc⟩ := rollback_shows (b := b) hr.shows
    refine ⟨?_, hc⟩
    rw [hshows.part, hr.shows.part, hc]

example : (({ part := some 1, staged := some 2 } : Staged Nat).commit fun _ => false).1 = [] ∧
    (({ part := some 1, staged := some 2 } : Staged Nat).commit fun _ => false).2.part = some 2 := by decide

end Staged

end SynapS3.Multipart
