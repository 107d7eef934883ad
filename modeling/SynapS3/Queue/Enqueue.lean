import SynapS3.Queue.Commit

/-!
# `Queue.Enqueue` — creating and retrying rounds within a transaction

What `Enqueue`, `SupersedeTerminal` and the operations that combine them do to the rows.
-/

namespace SynapS3.Queue

open ReadCommitted Tasks

variable {ι κ : Type} {g : Registry ι κ} {o : Option (String × Nat)}
  {K : Known ι κ} {x y : QueueSnap ι κ}
  {allow : QueueShared ι κ → QueueShared ι κ → Bool}

/-! ## Single statements -/

variable {id : Nat} {task : Task ι κ}

theorem Work.body_getForUpdate {P : Option (Task ι κ) → QueueSnap ι κ → Prop} (h : Work g o K x)
    (hnone : ∀ y, Work g o K y → P none y)
    (hsome : ∀ y t, Later (contract g) x y → y.Coherent → Inv g y.toShared → y.view (.task id) = some t →
      Work g o K (y.hold (.task id)) → P (some t) (y.hold (.task id))) :
    Body (contract g) allow P (getForUpdate id) x := by
  refine Body.lock fun y hy hc hi => ?_
  have hw := h.later hy
  exact ⟨fun _ => hnone y hw, fun t ht => hsome y t hy hc hi ht (hw.holdTask hc ht)⟩

theorem Work.body_existing {e : Refusal} {α : Type} {f : Task ι κ → QueueSql ι κ α}
    {P : α → QueueSnap ι κ → Prop} (h : Work g o K x)
    (hf : ∀ y t, Later (contract g) x y → y.Coherent → Inv g y.toShared → y.view (.task id) = some t →
      Work g o K (y.hold (.task id)) → Body (contract g) allow P (f t) (y.hold (.task id))) :
    Body (contract g) allow P (do
      let row ← getForUpdate id
      let row ← Sql.orRefuse row e
      f row) x := by
  refine Body.bind (h.body_getForUpdate (fun _ _ => trivial) fun y t hy hc hi ht hw => Body.bind ?_)
  exact Body.orRefuse fun u hu => Option.some.inj hu ▸ hf y t hy hc hi ht hw

theorem Work.body_now {P : Int → QueueSnap ι κ → Prop} (h : Work g o K x)
    (hP : ∀ y now, Later (contract g) x y → Work g o K { y with clock := now } → P now { y with clock := now }) :
    Body (contract g) allow P (Sql.now : QueueSql ι κ Int) x := by
  refine Body.now fun y hy _ _ now _ => hP y now hy ?_
  exact (h.later hy).congr rfl (fun _ _ => rfl) (fun _ _ => rfl) (le_refl _)

/-! ## Superseding -/

variable {t : Task ι κ} {k : Identity}

theorem grow_superseded (ht : t.status.terminal = true) (now : Int) : Grow t { t with supersededAt := some now } :=
  ⟨rfl, rfl, rfl, rfl, fun _ => rfl, fun _ => rfl, fun _ _ => ht⟩

theorem Work.body_supersedeTerminal {P : Unit → QueueSnap ι κ → Prop} (h : Work g o K x)
    (hP : ∀ y, Work g o K y → P () y) : Body (contract g) allow P (supersedeTerminal id) x := by
  unfold supersedeTerminal
  refine Body.bind (h.body_now fun y now _ hw => Body.bind (Body.update fun z hz hc _ => ⟨fun _ => ?_, fun w hw' => ?_⟩))
  · exact Body.bind (Body.demand (by simp))
  refine Body.bind (Body.demand fun _ => ?_)
  obtain ⟨t, ht, hset⟩ := Option.bind_eq_some_iff.mp hw'
  split at hset
  case isFalse => cases hset
  next hcond =>
  cases hset
  have hwork : Work g o K (z.put (.task id) (some { t with supersededAt := some now })) := by
    refine (hw.later hz).putTask hc ht (grow_superseded hcond.2 now) fun hrows => ?_
    -- a round created by this transaction has not ended
    have ha := (hw.later hz).added hc ht hrows
    rw [ha.waiting] at hcond
    cases hcond.2
  refine Body.bind (Body.look fun u hu hcu _ => ?_)
  have hwu := hwork.later hu
  have hheld : u.held (.task id) = true := by rw [hu.held]; exact Snap.put_held_self ..
  have hview : u.view (.task id) = some { t with supersededAt := some now } :=
    (hu.view _ (Snap.put_held_self ..)).trans (Snap.put_view_self ..)
  dsimp only
  cases (u.view (.task id)).bind identityOf with
  | none => exact Body.pure (hP u hwu)
  | some k =>
    refine Body.bind (Body.update fun v hv hcv _ => ⟨fun _ => Body.pure (hP v (hwu.later hv)), fun w hw => ?_⟩)
    obtain ⟨entry, hentry, hset⟩ := Option.bind_eq_some_iff.mp hw
    split at hset
    case isFalse => cases hset
    next hid =>
    cases hset
    subst hid
    refine Body.pure (hP _ ((hwu.later hv).removeIdentity hcv hentry (by rw [hv.held]; exact hheld)
      ((hv.view _ hheld).trans hview) rfl))

/-! ## Creating -/

def openFor (g : Registry ι κ) (type : TaskType) (id : Nat) : Option (String × Nat) :=
  (g.scheduleFor type).map fun d => (d.key, id)

theorem openFor_of_mem {d : ScheduleDefinition} (hd : d ∈ g.periodic) (id : Nat) :
    openFor g d.type id = some (d.key, id) := by
  unfold openFor
  cases hf : g.scheduleFor d.type with
  | none =>
    have := List.find?_eq_none.mp hf d hd
    simp at this
  | some e =>
    obtain ⟨he, htype⟩ := Registry.scheduleFor_eq_some hf
    rw [g.eq_of_type he hd htype]
    rfl

theorem openFor_of_ordinary {type : TaskType} (h : isRecurringSystem type = false) (id : Nat) :
    openFor g type id = none := by
  unfold openFor
  cases hf : g.scheduleFor type with
  | none => rfl
  | some e =>
    obtain ⟨he, htype⟩ := Registry.scheduleFor_eq_some hf
    have := g.recurring e he
    rw [htype, h] at this
    cases this

/-- Everything is in place for the row of a new round. -/
structure Ready (task : Task ι κ) (id : Nat) (x : QueueSnap ι κ) : Prop where
  seq : id < x.seq
  identity : ∀ k, identityOf task = some k → x.held (.identity k) = true ∧ x.view (.identity k) = some id
  parent : ∀ p, task.retryOfTaskID = some p → x.held (.task p) = true ∧
    ∃ u, x.view (.task p) = some u ∧ u.supersededAt.isSome = true

theorem Ready.later (h : Ready task id x) (hl : Later (contract g) x y) : Ready task id y where
  seq := Nat.lt_of_lt_of_le h.seq hl.seq
  identity k hk := by
    obtain ⟨hh, hv⟩ := h.identity k hk
    exact ⟨by rw [hl.held]; exact hh, (hl.view _ hh).trans hv⟩
  parent p hp := by
    obtain ⟨hh, u, hu, hs⟩ := h.parent p hp
    exact ⟨by rw [hl.held]; exact hh, u, (hl.view _ hh).trans hu, hs⟩

def HasChild (task : Task ι κ) (id : Nat) (x : QueueSnap ι κ) : Prop :=
  ∀ p, task.retryOfTaskID = some p → p < id ∧ x.held (.child p) = true ∧ x.view (.child p) = some id

theorem Work.body_insertChild {P : Unit → QueueSnap ι κ → Prop} (h : Work g none K x) (hr : Ready task id x)
    (hP : ∀ y, Work g none K y → Ready task id y → HasChild task id y → P () y) :
    Body (contract g) allow P (insertRetryEntry id task.retryOfTaskID) x := by
  cases hro : task.retryOfTaskID with
  | none => exact Body.pure (hP x h hr fun p hp => by rw [hro] at hp; cases hp)
  | some p =>
    refine Body.bind (Body.insert fun y hy hc _ => ⟨fun _ _ => Body.bind (Body.demand nofun), fun hnone =>
      Body.bind (Body.demand fun _ => Body.demand fun hlt => ?_)⟩)
    have hry := hr.later hy
    refine hP _ ((h.later hy).insertChild hc hnone) ⟨hry.seq, fun k hk => ?_, fun q hq => ?_⟩ fun q hq => ?_
    · obtain ⟨hh, hv⟩ := hry.identity k hk
      exact ⟨Snap.put_held_of_held _ _ hh, by rw [Snap.put_view_of_ne _ _ (by simp)]; exact hv⟩
    · obtain ⟨hh, u, hu, hus⟩ := hry.parent q hq
      exact ⟨Snap.put_held_of_held _ _ hh, u, by rw [Snap.put_view_of_ne _ _ (by simp)]; exact hu, hus⟩
    · rw [hro] at hq
      cases hq
      exact ⟨of_decide_eq_true hlt, Snap.put_held_self .., Snap.put_view_self ..⟩

theorem Work.body_insertTask {P : Nat × Task ι κ × Bool → QueueSnap ι κ → Prop} (h : Work g none K x)
    (hr : Ready task id x) (hs : task.supersededAt = none) (hw : task.status.terminal = false)
    (hP : ∀ y, Work g (openFor g task.type id) K y → y.held (.task id) = true → y.view (.task id) = some task →
      P (id, task, true) y) :
    Body (contract g) allow P (insertTask id task) x := by
  refine Body.bind (h.body_insertChild hr fun y hwy hry hchild => ?_)
  refine Body.bind (Body.insert fun z hz hc _ => ⟨fun _ _ => Body.bind (Body.demand nofun), fun hnone =>
    Body.bind (Body.demand fun _ => Body.pure (hP _ ?_ (Snap.put_held_self ..) (Snap.put_view_self ..)))⟩)
  have hrz := hry.later hz
  refine (hwy.later hz).addTask hc hnone ⟨hrz.seq, hs, hw, fun k hk => ?_, fun p hp => ?_, fun d hd ht => ?_⟩
  · obtain ⟨hh, hv⟩ := hrz.identity k hk
    exact ⟨Snap.put_held_of_held _ _ hh, by rw [Snap.put_view_of_ne _ _ (by simp)]; exact hv⟩
  · obtain ⟨hlt, hh, hv⟩ := hchild p hp
    obtain ⟨hh', u, hu, hus⟩ := hrz.parent p hp
    have hne : p ≠ id := Nat.ne_of_lt hlt
    refine ⟨hlt, Snap.put_held_of_held _ _ (by rw [hz.held]; exact hh), ?_, Snap.put_held_of_held _ _ hh', u, ?_, hus⟩
    · rw [Snap.put_view_of_ne _ _ (by simp)]
      exact (hz.view _ hh).trans hv
    · rw [Snap.put_view_of_ne _ _ (by simpa using hne)]
      exact hu
  · rw [ht]
    exact openFor_of_mem hd id

theorem Work.body_requireParent {parent : Option Nat} {P : Unit → QueueSnap ι κ → Prop} (h : Work g o K x)
    (hP : ∀ y, Work g o K y → (∀ p, parent = some p → y.held (.task p) = true ∧
      ∃ u, y.view (.task p) = some u ∧ u.supersededAt.isSome = true) → P () y) :
    Body (contract g) allow P (requireParent parent) x := by
  cases parent with
  | none => exact Body.pure (hP x h nofun)
  | some p =>
    refine h.body_existing fun y t _ _ _ ht hw => ?_
    refine Body.bind (Body.demand fun hs => Body.bind (Body.look fun z hz _ _ => Body.demand fun _ => ?_))
    have hheld : (y.hold (.task p)).held (.task p) = true := Snap.hold_held_self ..
    have hview : z.view (.task p) = some t := (hz.view _ hheld).trans ht
    rw [Bool.and_eq_true] at hs
    refine hP z (hw.later hz) fun q hq => ?_
    cases hq
    exact ⟨by rw [hz.held]; exact hheld, t, hview, hs.1⟩

/-- How an enqueue ends: the round is new, or there is one already that is not superseded. -/
inductive Enqueued (g : Registry ι κ) (K : Known ι κ) (task : Task ι κ) :
    Nat × Task ι κ × Bool → QueueSnap ι κ → Prop where
  | created (id : Nat) (y : QueueSnap ι κ) (work : Work g (openFor g task.type id) K y)
      (held : y.held (.task id) = true) (view : y.view (.task id) = some task) : Enqueued g K task (id, task, true) y
  | found (id : Nat) (stored : Task ι κ) (y : QueueSnap ι κ) (work : Work g none K y) (coherent : y.Coherent)
      (view : y.view (.task id) = some stored) (type : stored.type = task.type) :
      Enqueued g K task (id, stored, false) y

theorem type_of_identityOf {u : Task ι κ} (ht : identityOf t = some k) (hu : identityOf u = some k) :
    t.type = u.type := by
  obtain ⟨a, -, rfl⟩ := Option.map_eq_some_iff.mp ht
  obtain ⟨b, -, hk⟩ := Option.map_eq_some_iff.mp hu
  exact (congrArg Identity.type hk).symm

theorem Enqueued.of_identity {stored : Task ι κ} (h : Work g none K y) (hc : y.Coherent)
    (hk : identityOf task = some k) (hfound : getByIdentity y.view k = some (id, stored)) :
    Enqueued g K task (id, stored, false) y := by
  obtain ⟨-, ht, hid, -⟩ := getByIdentity_eq_some.mp hfound
  exact .found id stored y h hc ht (type_of_identityOf hid hk)

/-- **`Enqueue` creates a round with all its entries, or finds one.** -/
theorem Work.body_enqueue (h : Work g none K x) : Body (contract g) allow (Enqueued g K task) (enqueue task) x := by
  unfold enqueue
  refine Body.bind (Body.demand fun hvalid => ?_)
  have hs : task.supersededAt = none := by simp at hvalid; exact hvalid.1.2
  have hw : task.status.terminal = false := by
    have : task.status = .pending := by simp at hvalid; exact hvalid.1.1.2
    rw [this]; rfl
  cases hk : identityOf task with
  | none =>
    refine Body.bind (h.body_requireParent fun y hy hparent => Body.bind (Body.nextval fun z hz _ _ => ?_))
    have hwz : Work g none K { z with seq := z.seq + 1 } :=
      (hy.later hz).congr rfl (fun _ _ => rfl) (fun _ _ => rfl) (Nat.le_succ _)
    refine hwz.body_insertTask ⟨Nat.lt_succ_self _, fun k hk' => ?_, fun p hp => ?_⟩ hs hw
      fun u hu hheld hview => .created _ u hu hheld hview
    · rw [hk] at hk'; cases hk'
    · obtain ⟨hh, u, hu, hus⟩ := hparent p hp
      exact ⟨by rw [show z.held = _ from hz.held]; exact hh, u, (hz.view _ hh).trans hu, hus⟩
  | some k =>
    refine Body.bind (Body.look fun y hy hc _ => ?_)
    dsimp only
    cases hfound : getByIdentity y.view k with
    | some r =>
      obtain ⟨id, stored⟩ := r
      exact Body.pure (.of_identity (h.later hy) hc hk hfound)
    | none =>
      refine Body.bind ((h.later hy).body_requireParent fun z hz hparent => Body.bind
        (Body.nextval fun u hu _ _ => ?_))
      have hwu : Work g none K { u with seq := u.seq + 1 } :=
        (hz.later hu).congr rfl (fun _ _ => rfl) (fun _ _ => rfl) (Nat.le_succ _)
      refine Body.bind (Body.insert fun v hv hcv _ => ⟨fun _ _ => ?_, fun hnone => ?_⟩)
      · refine Body.bind (Body.look fun w hw' hcw _ => Body.bind (Body.orRefuse fun r hr => ?_))
        obtain ⟨id, stored⟩ := r
        exact Body.pure (.of_identity ((hwu.later hv).later hw') hcw hk hr)
      · refine ((hwu.later hv).insertIdentity hcv hnone).body_insertTask
          ⟨Nat.lt_of_lt_of_le (Nat.lt_succ_self u.seq) hv.seq, fun k' hk' => ?_, fun p hp => ?_⟩ hs hw
          fun w hw' hheld hview => .created _ w hw' hheld hview
        · rw [hk] at hk'
          cases hk'
          exact ⟨Snap.put_held_self .., Snap.put_view_self ..⟩
        · obtain ⟨hh, t, ht, hts⟩ := hparent p hp
          have hhu : u.held (.task p) = true := by rw [hu.held]; exact hh
          refine ⟨Snap.put_held_of_held _ _ (by rw [hv.held]; exact hhu), t, ?_, hts⟩
          rw [Snap.put_view_of_ne _ _ (by simp), hv.view _ hhu]
          exact (hu.view _ hh).trans ht

end SynapS3.Queue
