import SynapS3.Queue.Service

/-!
# `Queue.Invariant` — the invariant of the queue, and what an open transaction has done to it
-/

namespace SynapS3.Queue

open ReadCommitted Tasks

variable {ι κ : Type}

/-! ## Between transactions -/

/-- A round moves on: what it is about stays, and so does the way in which it ended. -/
structure Grow (t u : Task ι κ) : Prop where
  type : u.type = t.type
  subject : (u.subjectType, u.subjectKey) = (t.subjectType, t.subjectKey)
  generation : u.generation = t.generation
  retryOf : u.retryOfTaskID = t.retryOfTaskID
  superseded : t.supersededAt.isSome = true → u.supersededAt.isSome = true
  ended : t.status.terminal = true → u.status = t.status
  stopped : (t.supersededAt.isSome = true → t.status.terminal = true) →
    u.supersededAt.isSome = true → u.status.terminal = true

theorem Grow.refl (t : Task ι κ) : Grow t t := ⟨rfl, rfl, rfl, rfl, id, fun _ => rfl, id⟩

theorem Grow.trans {t u v : Task ι κ} (h : Grow t u) (h' : Grow u v) : Grow t v where
  type := h'.type.trans h.type
  subject := h'.subject.trans h.subject
  generation := h'.generation.trans h.generation
  retryOf := h'.retryOf.trans h.retryOf
  superseded ht := h'.superseded (h.superseded ht)
  ended ht := by rw [h'.ended (by rw [h.ended ht]; exact ht), h.ended ht]
  stopped ht := h'.stopped (h.stopped ht)

theorem Grow.identity {t u : Task ι κ} (h : Grow t u) : identityOf u = identityOf t := by
  obtain ⟨hkind, hkey⟩ := Prod.mk.inj h.subject
  rw [identityOf, identityOf, h.type, h.generation, hkind, hkey]

theorem Grow.open_of_open {t u : Task ι κ} (h : Grow t u) (hu : u.status.terminal = false) :
    t.status.terminal = false := by
  cases ht : t.status.terminal with
  | false => rfl
  | true => rw [h.ended ht, ht] at hu; cases hu

/-- The schedule `d` is single-headed, after these dispatched cycles. -/
structure Head (d : ScheduleDefinition) (rows : QueueRows ι κ) (cycles : List String) : Prop where
  generation : (rows (.schedule d.key)).elim 0 (·.generation) = cycles.count d.key
  latest : ∀ s l, rows (.schedule d.key) = some s → s.latestTaskID = some l →
    ∃ t, rows (.task l) = some t ∧ t.type = d.type ∧ t.generation = some s.generation
  only : ∀ id t, rows (.task id) = some t → t.type = d.type → t.status.terminal = false →
    ∃ s, rows (.schedule d.key) = some s ∧ s.latestTaskID = some id

def Successor (rows : QueueRows ι κ) (p c : Nat) : Prop :=
  rows (.child p) = some c ∧ ∃ t, rows (.task c) = some t ∧ t.retryOfTaskID = some p

/-- What holds between transactions: the entries of the two indexes are those of the tasks, a task with a successor
    is superseded, and every schedule points at the only round of its type that has not ended. -/
structure Inv (g : Registry ι κ) (s : QueueShared ι κ) : Prop where
  tasks : ∀ id t, s.rows (.task id) = some t →
    id < s.seq ∧ (t.supersededAt.isSome = true → t.status.terminal = true)
  identities : ∀ id t k, s.rows (.task id) = some t → t.supersededAt = none → identityOf t = some k →
    s.rows (.identity k) = some id
  parents : ∀ c t p, s.rows (.task c) = some t → t.retryOfTaskID = some p →
    p < c ∧ s.rows (.child p) = some c ∧ ∃ u, s.rows (.task p) = some u ∧ u.supersededAt.isSome = true
  heads : ∀ d ∈ g.periodic, Head d s.rows s.ghost.cycles
  answers : ∀ a ∈ s.ghost.answers, Successor s.rows a.1 a.2
  conflicts : s.ghost.conflicts = []

/-- What nobody takes back: a round only moves on, and a successor stays. -/
structure Guar (s t : QueueShared ι κ) : Prop where
  tasks : ∀ id a, s.rows (.task id) = some a → ∃ b, t.rows (.task id) = some b ∧ Grow a b
  children : ∀ p c, s.rows (.child p) = some c → t.rows (.child p) = some c

theorem Guar.refl (s : QueueShared ι κ) : Guar s s := ⟨fun _ a h => ⟨a, h, .refl a⟩, fun _ _ h => h⟩

variable {s : QueueShared ι κ}

theorem Guar.trans {t u : QueueShared ι κ} (h : Guar s t) (h' : Guar t u) : Guar s u := by
  refine ⟨fun id a ha => ?_, fun p c hc => h'.children p c (h.children p c hc)⟩
  obtain ⟨b, hb, hab⟩ := h.tasks id a ha
  obtain ⟨c, hc, hbc⟩ := h'.tasks id b hb
  exact ⟨c, hc, hab.trans hbc⟩

theorem Guar.of_rows {t : QueueShared ι κ} (h : t.rows = s.rows) : Guar s t := by
  refine ⟨fun id a ha => ⟨a, by rw [h]; exact ha, .refl a⟩, fun p c hc => by rw [h]; exact hc⟩

theorem Successor.mono {t : QueueShared ι κ} (hg : Guar s t) {p c : Nat} (h : Successor s.rows p c) :
    Successor t.rows p c := by
  obtain ⟨hc, u, hu, hp⟩ := h
  obtain ⟨v, hv, huv⟩ := hg.tasks c u hu
  exact ⟨hg.children p c hc, v, hv, huv.retryOf.trans hp⟩

/-- The promises; the locks are described transaction by transaction, so no row guards another. -/
def contract (g : Registry ι κ) : Contract (Row.Value ι κ) Record where
  inv := Inv g
  guar := Guar
  guards _ _ _ := False
  refl := Guar.refl
  trans _ _ _ := Guar.trans
  tick _ _ _ _ hseq hi :=
    ⟨⟨fun id t h => ⟨Nat.lt_of_lt_of_le (hi.tasks id t h).1 hseq, (hi.tasks id t h).2⟩, hi.identities,
      hi.parents, hi.heads, hi.answers, hi.conflicts⟩, Guar.of_rows rfl⟩

/-! ## Within a transaction -/

/-- The transaction has created round `id`. A round of a scheduled type is created only by the transaction
    that moves its schedule, `o`, to it. -/
structure Added (g : Registry ι κ) (o : Option (String × Nat)) (x : QueueSnap ι κ) (id : Nat) (t : Task ι κ) :
    Prop where
  seq : id < x.seq
  current : t.supersededAt = none
  waiting : t.status.terminal = false
  identity : ∀ k, identityOf t = some k → x.held (.identity k) = true ∧ x.view (.identity k) = some id
  parent : ∀ p, t.retryOfTaskID = some p → p < id ∧ x.held (.child p) = true ∧ x.view (.child p) = some id ∧
    x.held (.task p) = true ∧ ∃ u, x.view (.task p) = some u ∧ u.supersededAt.isSome = true
  type : ∀ d ∈ g.periodic, t.type = d.type → o = some (d.key, id)

/-- The schedule still points where it pointed, or is new and points nowhere. -/
def SameHead (a b : Option TaskSchedule) : Prop :=
  ∃ s', b = some s' ∧ ((∃ s, a = some s ∧ s'.latestTaskID = s.latestTaskID ∧ s'.generation = s.generation) ∨
    a = none ∧ s'.latestTaskID = none ∧ s'.generation = 0)

theorem SameHead.refl (s : TaskSchedule) : SameHead (some s) (some s) := ⟨s, rfl, .inl ⟨s, rfl, rfl, rfl⟩⟩

def Done (g : Registry ι κ) (o : Option (String × Nat)) (x : QueueSnap ι κ) : Row → Prop
  | .task id =>
    (∃ t u, x.rows (.task id) = some t ∧ x.view (.task id) = some u ∧ Grow t u) ∨
      x.rows (.task id) = none ∧ ∃ t, x.view (.task id) = some t ∧ Added g o x id t
  | .identity k => ∀ id, x.rows (.identity k) = some id → x.held (.task id) = true ∧
    (x.view (.identity k) = some id ∨ ∃ t, x.view (.task id) = some t ∧ t.supersededAt.isSome = true)
  | .child p => x.rows (.child p) = none
  | .schedule key => ∀ d ∈ g.periodic, d.key = key → (∀ id, o ≠ some (key, id)) →
    SameHead (x.rows (.schedule key)) (x.view (.schedule key))

/-- What a transaction knows: rows as it found them, and rounds as it left them at some statement. -/
structure Known (ι κ : Type) where
  found : (r : Row) → Option (r.Value ι κ) → Prop := fun _ _ => False
  left : Nat → Task ι κ → Prop := fun _ _ => False

/-- What the transaction has done, and what it knows. A round that it left has only moved on since. -/
structure Work (g : Registry ι κ) (o : Option (String × Nat)) (K : Known ι κ) (x : QueueSnap ι κ) : Prop where
  done : ∀ r, x.held r = true → Done g o x r
  known : ∀ r w, K.found r w → x.held r = true ∧ x.rows r = w
  left : ∀ id t, K.left id t → x.held (.task id) = true ∧ ∃ u, x.view (.task id) = some u ∧ Grow t u

variable {g : Registry ι κ} {o : Option (String × Nat)} {K : Known ι κ}
  {x y : QueueSnap ι κ}

theorem Work.of_idle (h : x.Idle) : Work g none {} x :=
  ⟨fun r hr => absurd hr (by rw [h.held r]; exact Bool.false_ne_true), fun _ _ => False.elim,
    fun _ _ => False.elim⟩

theorem Added.mono {id : Nat} {t : Task ι κ} (h : Added g o x id t) (hseq : x.seq ≤ y.seq)
    (hheld : ∀ r, x.held r = true → y.held r = true)
    (hidentity : ∀ k, x.held (.identity k) = true → x.view (.identity k) = some id →
      y.view (.identity k) = some id)
    (hchild : ∀ p, x.held (.child p) = true → x.view (.child p) = some id → y.view (.child p) = some id)
    (hgrow : ∀ p u, x.held (.task p) = true → x.view (.task p) = some u → ∃ v, y.view (.task p) = some v ∧ Grow u v) :
    Added g o y id t where
  seq := Nat.lt_of_lt_of_le h.seq hseq
  current := h.current
  waiting := h.waiting
  identity k hk := by
    obtain ⟨hh, hv⟩ := h.identity k hk
    exact ⟨hheld _ hh, hidentity k hh hv⟩
  parent p hp := by
    obtain ⟨hlt, hc, hv, ht, u, hu, hs⟩ := h.parent p hp
    obtain ⟨v, hv', hg⟩ := hgrow p u ht hu
    exact ⟨hlt, hheld _ hc, hchild p hc hv, hheld _ ht, v, hv', hg.superseded hs⟩
  type := h.type

theorem Work.congr (h : Work g o K x) (hheld : y.held = x.held) (hview : ∀ r, x.held r = true → y.view r = x.view r)
    (hrows : ∀ r, x.held r = true → y.rows r = x.rows r) (hseq : x.seq ≤ y.seq) : Work g o K y := by
  refine ⟨fun r hr => ?_, fun r w hK => ?_, fun id t hK => ?_⟩
  · rw [hheld] at hr
    have hadded : ∀ id t, Added g o x id t → Added g o y id t := fun id t ha =>
      ha.mono hseq (fun r hr => by rw [hheld]; exact hr) (fun k hk hv => (hview _ hk).trans hv)
        (fun p hp hv => (hview _ hp).trans hv) fun p u hp hu => ⟨u, (hview _ hp).trans hu, .refl u⟩
    have hd := h.done r hr
    cases r with
    | task id =>
      rcases hd with ⟨t, u, ht, hu, hg⟩ | ⟨ht, t, hu, ha⟩
      · exact .inl ⟨t, u, (hrows _ hr).trans ht, (hview _ hr).trans hu, hg⟩
      · exact .inr ⟨(hrows _ hr).trans ht, t, (hview _ hr).trans hu, hadded id t ha⟩
    | identity k =>
      intro id hid
      obtain ⟨hh, hv⟩ := hd id ((hrows _ hr).symm.trans hid)
      refine ⟨by rw [hheld]; exact hh, ?_⟩
      rcases hv with hv | ⟨t, ht, hs⟩
      · exact .inl ((hview _ hr).trans hv)
      · exact .inr ⟨t, (hview _ hh).trans ht, hs⟩
    | child p => exact (hrows _ hr).trans hd
    | schedule key =>
      intro d hd' hk ho
      rw [hrows _ hr, hview _ hr]
      exact hd d hd' hk ho
  · obtain ⟨hh, hw⟩ := h.known r w hK
    exact ⟨by rw [hheld]; exact hh, (hrows _ hh).trans hw⟩
  · obtain ⟨hh, u, hu, hg⟩ := h.left id t hK
    exact ⟨by rw [hheld]; exact hh, u, (hview _ hh).trans hu, hg⟩

theorem Work.later (h : Work g o K x) (hl : Later (contract g) x y) : Work g o K y :=
  h.congr hl.held hl.view (fun r hr => hl.rows r (.inl hr)) hl.seq

variable {r : Row} {w : Option (r.Value ι κ)}

theorem Work.learn (h : Work g o K x) (hr : x.held r = true) (hw : x.rows r = w) :
    Work g o { K with found := fun q v => K.found q v ∨ ∃ hq : r = q, hq ▸ w = v } x := by
  refine ⟨h.done, ?_, h.left⟩
  rintro q v (hK | ⟨rfl, rfl⟩)
  · exact h.known q v hK
  · exact ⟨hr, hw⟩

theorem Work.leave {id : Nat} {t : Task ι κ} (h : Work g o K x) (hheld : x.held (.task id) = true)
    (ht : x.view (.task id) = some t) : Work g o { K with left := fun i u => i = id ∧ u = t } x := by
  refine ⟨h.done, h.known, ?_⟩
  rintro _ _ ⟨rfl, rfl⟩
  exact ⟨hheld, _, ht, .refl _⟩

theorem Work.put (h : Work g o K x) (hr : Done g o (x.put r w) r)
    (hadded : ∀ id t, x.view (.task id) = some t → Added g o x id t → Added g o (x.put r w) id t)
    (hgrow : ∀ p u, x.view (.task p) = some u → ∃ v, (x.put r w).view (.task p) = some v ∧ Grow u v) :
    Work g o K (x.put r w) := by
  have hheld : ∀ q, x.held q = true → (x.put r w).held q = true := fun q hq => x.put_held_of_held w hq
  refine ⟨fun q hq => ?_, fun q v hK => ⟨hheld q (h.known q v hK).1, (h.known q v hK).2⟩, fun id t hK => ?_⟩
  rotate_left
  · obtain ⟨hh, u, hu, hg⟩ := h.left id t hK
    obtain ⟨v, hv, hg'⟩ := hgrow id u hu
    exact ⟨hheld _ hh, v, hv, hg.trans hg'⟩
  by_cases hqr : q = r
  · subst hqr; exact hr
  rw [Snap.put_held_of_ne _ _ hqr] at hq
  have hview : (x.put r w).view q = x.view q := Snap.put_view_of_ne _ _ hqr
  have hd := h.done q hq
  cases q with
  | task id =>
    rcases hd with ⟨t, u, ht, hu, hg⟩ | ⟨ht, t, hu, ha⟩
    · exact .inl ⟨t, u, ht, hview.trans hu, hg⟩
    · exact .inr ⟨ht, t, hview.trans hu, hadded id t hu ha⟩
  | identity k =>
    intro id hid
    obtain ⟨hh, hv⟩ := hd id hid
    refine ⟨hheld _ hh, ?_⟩
    rcases hv with hv | ⟨t, ht, hs⟩
    · exact .inl (hview.trans hv)
    · obtain ⟨v, hv, hg⟩ := hgrow id t ht
      exact .inr ⟨v, hv, hg.superseded hs⟩
  | child p => exact hd
  | schedule key =>
    intro d hd' hk ho
    rw [hview]
    exact hd d hd' hk ho

end SynapS3.Queue
