import SynapS3.Queue.Work

/-!
# `Queue.Commit` — what a commit owes

Between two transactions the invariant is about all rows; a transaction is described by the rows it has locked.
At its commit the two are put together (`Work.kept`).
-/

namespace SynapS3.Queue

open ReadCommitted Tasks

variable {ι κ : Type} {g : Registry ι κ} {o : Option (String × Nat)}
  {K : Known ι κ} {z : QueueSnap ι κ}

/-! ## Rows after the commit -/

section

variable (h : Work g o K z) (hc : z.Coherent)
include h hc

theorem Work.task_cases {id : Nat} {t : Task ι κ} (ht : z.view (.task id) = some t) :
    (∃ u, z.rows (.task id) = some u ∧ Grow u t) ∨ z.rows (.task id) = none ∧ Added g o z id t := by
  cases hrows : z.rows (.task id) with
  | some u => exact .inl ⟨u, rfl, h.grown hc ht hrows⟩
  | none => exact .inr ⟨rfl, h.added hc ht hrows⟩

theorem Work.task_kept {id : Nat} {u : Task ι κ}
    (hu : z.rows (.task id) = some u) : ∃ t, z.view (.task id) = some t ∧ Grow u t := by
  cases hh : z.held (.task id) with
  | false => exact ⟨u, (hc _ hh).trans hu, .refl u⟩
  | true =>
    rcases h.done _ hh with ⟨v, t, hv, ht, hg⟩ | ⟨hv, -⟩
    · rw [hu] at hv; cases hv; exact ⟨t, ht, hg⟩
    · rw [hu] at hv; cases hv

theorem Work.child_kept {p c : Nat} (hp : z.rows (.child p) = some c) : z.view (.child p) = some c := by
  cases hh : z.held (.child p) with
  | false => exact (hc _ hh).trans hp
  | true =>
    have hnone : z.rows (.child p) = none := h.done _ hh
    rw [hp] at hnone
    cases hnone

theorem Work.guar (record : Record → Record) : Guar z.toShared (z.committed record).toShared :=
  ⟨fun _ _ hu => h.task_kept hc hu, fun _ _ hp => h.child_kept hc hp⟩

theorem Work.identities (hi : Inv g z.toShared) {id : Nat} {t : Task ι κ}
    {k : Identity} (ht : z.view (.task id) = some t) (hs : t.supersededAt = none) (hk : identityOf t = some k) :
    z.view (.identity k) = some id := by
  rcases h.task_cases hc ht with ⟨u, hu, hg⟩ | ⟨-, ha⟩
  · have hus : u.supersededAt = none := by
      cases hu' : u.supersededAt with
      | none => rfl
      | some at' =>
        have := hg.superseded (by rw [hu']; rfl)
        rw [hs] at this
        cases this
    have hentry : z.rows (.identity k) = some id := hi.identities id u k hu hus (hg.identity ▸ hk)
    cases hh : z.held (.identity k) with
    | false => exact (hc _ hh).trans hentry
    | true =>
      obtain ⟨-, hv | ⟨v, hv, hvs⟩⟩ := h.done _ hh id hentry
      · exact hv
      · rw [ht] at hv; cases hv
        rw [hs] at hvs; cases hvs
  · exact (ha.identity k hk).2

theorem Work.parents (hi : Inv g z.toShared) {c p : Nat} {t : Task ι κ}
    (ht : z.view (.task c) = some t) (hp : t.retryOfTaskID = some p) :
    p < c ∧ z.view (.child p) = some c ∧ ∃ u, z.view (.task p) = some u ∧ u.supersededAt.isSome = true := by
  rcases h.task_cases hc ht with ⟨u, hu, hg⟩ | ⟨-, ha⟩
  · obtain ⟨hlt, hchild, v, hv, hs⟩ := hi.parents c u p hu (hg.retryOf ▸ hp)
    obtain ⟨w, hw, hvw⟩ := h.task_kept hc hv
    exact ⟨hlt, h.child_kept hc hchild, w, hw, hvw.superseded hs⟩
  · obtain ⟨hlt, -, hchild, -, hparent⟩ := ha.parent p hp
    exact ⟨hlt, hchild, hparent⟩

theorem Work.tasks (hi : Inv g z.toShared) {id : Nat} {t : Task ι κ} (ht : z.view (.task id) = some t) :
    id < z.seq ∧ (t.supersededAt.isSome = true → t.status.terminal = true) := by
  rcases h.task_cases hc ht with ⟨u, hu, hg⟩ | ⟨-, ha⟩
  · exact ⟨(hi.tasks id u hu).1, hg.stopped (hi.tasks id u hu).2⟩
  · exact ⟨ha.seq, fun hs => by rw [ha.current] at hs; cases hs⟩

/-! ## Schedules after the commit -/

theorem Work.head_of_same (hi : Inv g z.toShared) {d : ScheduleDefinition}
    (hd : d ∈ g.periodic) (ho : ∀ id, o ≠ some (d.key, id)) : Head d z.view z.ghost.cycles := by
  have hhead := hi.heads d hd
  -- the schedule points where it pointed, with the generation it had
  have hsame : ∀ s', z.view (.schedule d.key) = some s' →
      (∃ s, z.rows (.schedule d.key) = some s ∧ s'.latestTaskID = s.latestTaskID ∧ s'.generation = s.generation) ∨
        z.rows (.schedule d.key) = none ∧ s'.latestTaskID = none ∧ s'.generation = 0 := by
    intro s' hs'
    obtain ⟨v, hv, hcase⟩ := h.sameHead hc hd ho hs'
    cases hv
    exact hcase
  have hkept : ∀ s, z.rows (.schedule d.key) = some s → ∃ s', z.view (.schedule d.key) = some s' ∧
      s'.latestTaskID = s.latestTaskID := by
    intro s hs
    cases hh : z.held (.schedule d.key) with
    | false => exact ⟨s, (hc _ hh).trans hs, rfl⟩
    | true =>
      obtain ⟨s', hs', hcase⟩ := h.done _ hh d hd rfl ho
      rcases hcase with ⟨u, hu, hl, -⟩ | ⟨hnone, -⟩
      · rw [hs] at hu; cases hu; exact ⟨s', hs', hl⟩
      · rw [hs] at hnone; cases hnone
  refine ⟨?_, fun s' l hs' hl => ?_, fun id t ht htype hopen => ?_⟩
  · rw [← hhead.generation]
    cases hv : z.view (.schedule d.key) with
    | none =>
      cases hr : z.rows (.schedule d.key) with
      | none => rfl
      | some s =>
        obtain ⟨s', hs', -⟩ := hkept s hr
        rw [hv] at hs'; cases hs'
    | some s' =>
      rcases hsame s' hv with ⟨s, hs, -, hgen⟩ | ⟨hnone, -, hgen⟩
      · rw [hs]; exact hgen
      · rw [hnone]; exact hgen
  · rcases hsame s' hs' with ⟨s, hs, hlatest, hgen⟩ | ⟨-, hlatest, -⟩
    · obtain ⟨t, ht, htype, htgen⟩ := hhead.latest s l hs (hlatest ▸ hl)
      obtain ⟨u, hu, hg⟩ := h.task_kept hc ht
      exact ⟨u, hu, hg.type.trans htype, by rw [hg.generation, htgen, hgen]⟩
    · rw [hlatest] at hl; cases hl
  · rcases h.task_cases hc ht with ⟨u, hu, hg⟩ | ⟨-, ha⟩
    · obtain ⟨s, hs, hl⟩ := hhead.only id u hu (hg.type.symm.trans htype) (hg.open_of_open hopen)
      obtain ⟨s', hs', hlatest⟩ := hkept s hs
      exact ⟨s', hs', hlatest.trans hl⟩
    · exact absurd (ha.type d hd htype) (ho id)

end

/-- The round that schedule `d` points at before the commit, if any, has ended. -/
def LeftEnded (d : ScheduleDefinition) (rows : QueueRows ι κ) : Prop :=
  ∀ s l, rows (.schedule d.key) = some s → s.latestTaskID = some l →
    ∃ t, rows (.task l) = some t ∧ t.status.terminal = true

theorem Work.head_of_moved {d : ScheduleDefinition} {id : Nat} {s : TaskSchedule} {t : Task ι κ}
    {cycles : List String} (h : Work g (some (d.key, id)) K z) (hc : z.Coherent) (hi : Inv g z.toShared)
    (hd : d ∈ g.periodic) (hended : LeftEnded d z.rows) (hs : z.view (.schedule d.key) = some s)
    (hlatest : s.latestTaskID = some id) (ht : z.view (.task id) = some t) (htype : t.type = d.type)
    (hgen : t.generation = some s.generation) (hcount : s.generation = cycles.count d.key) :
    Head d z.view cycles := by
  refine ⟨?_, fun s' l hs' hl => ?_, fun id' u hu hutype hopen => ?_⟩
  · rw [hs]; exact hcount
  · rw [hs] at hs'; cases hs'
    rw [hlatest] at hl; cases hl
    exact ⟨t, ht, htype, hgen⟩
  · refine ⟨s, hs, ?_⟩
    rcases h.task_cases hc hu with ⟨v, hv, hg⟩ | ⟨-, ha⟩
    · -- a round that was open before was the one the schedule pointed at, and that one had ended
      have hvopen := hg.open_of_open hopen
      obtain ⟨s₀, hs₀, hl₀⟩ := (hi.heads d hd).only id' v hv (hg.type.symm.trans hutype) hvopen
      obtain ⟨w, hw, hwended⟩ := hended s₀ id' hs₀ hl₀
      rw [hv] at hw; cases hw
      rw [hvopen] at hwended; cases hwended
    · cases ha.type d hd hutype
      exact hlatest

/-! ## The commit -/

theorem Work.kept (h : Work g o K z) (hc : z.Coherent) (hi : Inv g z.toShared) {record : Record → Record}
    (hheads : ∀ d ∈ g.periodic, Head d z.view (record z.ghost).cycles)
    (hanswers : (record z.ghost).answers = z.ghost.answers)
    (hconflicts : (record z.ghost).conflicts = z.ghost.conflicts) :
    Kept (contract g) z (z.committed record) := by
  refine ⟨⟨fun id t ht => h.tasks hc hi ht, fun id t k ht hs hk => h.identities hc hi ht hs hk,
    fun c t p ht hp => h.parents hc hi ht hp, hheads, fun a ha => ?_, hconflicts.trans hi.conflicts⟩,
    h.guar hc record, fun _ _ _ _ hg => hg.elim⟩
  have ha' : a ∈ (record z.ghost).answers := ha
  rw [hanswers] at ha'
  exact (hi.answers a ha').mono (h.guar hc record)

theorem Work.kept_same (h : Work g none K z) (hc : z.Coherent) (hi : Inv g z.toShared) :
    Kept (contract g) z (z.committed id) :=
  h.kept hc hi (fun _ hd => h.head_of_same hc hi hd nofun) rfl rfl

end SynapS3.Queue
