import SynapS3.Queue.Invariant

/-!
# `Queue.Work` — what each statement of a transaction adds to what it has done
-/

namespace SynapS3.Queue

open ReadCommitted Tasks

variable {ι κ : Type} {g : Registry ι κ} {o : Option (String × Nat)}
  {K : Known ι κ} {x : QueueSnap ι κ} {id : Nat} {t : Task ι κ}

theorem Work.added (h : Work g o K x) (hc : x.Coherent) (ht : x.view (.task id) = some t)
    (hrows : x.rows (.task id) = none) : Added g o x id t := by
  cases hh : x.held (.task id) with
  | false =>
    rw [hc _ hh, hrows] at ht
    cases ht
  | true =>
    rcases h.done _ hh with ⟨u, v, hu, -, -⟩ | ⟨-, u, hu, ha⟩
    · rw [hrows] at hu; cases hu
    · rw [ht] at hu; cases hu; exact ha

variable {u : Task ι κ} {k : Identity} {d : ScheduleDefinition}

theorem Work.grown (h : Work g o K x) (hc : x.Coherent) (ht : x.view (.task id) = some t)
    (hu : x.rows (.task id) = some u) : Grow u t := by
  cases hh : x.held (.task id) with
  | false =>
    rw [hc _ hh, hu] at ht
    cases ht
    exact .refl _
  | true =>
    rcases h.done _ hh with ⟨v, w, hv, hw, hg⟩ | ⟨hv, -⟩
    · rw [hu] at hv; cases hv
      rw [ht] at hw; cases hw
      exact hg
    · rw [hu] at hv; cases hv

theorem grow_put {r : Row} {w : Option (r.Value ι κ)} (hr : ∀ id, r ≠ .task id) (p : Nat) (u : Task ι κ)
    (hu : x.view (.task p) = some u) : ∃ v, (x.put r w).view (.task p) = some v ∧ Grow u v :=
  ⟨u, by rw [Snap.put_view_of_ne _ _ (hr p).symm]; exact hu, .refl u⟩

/-! ## Rounds -/

theorem Work.putTask (h : Work g o K x) (hc : x.Coherent) (ht : x.view (.task id) = some t) (hg : Grow t u)
    (hnew : x.rows (.task id) = none → u.supersededAt = none ∧ u.status.terminal = false) :
    Work g o K (x.put (.task id) (some u)) := by
  have hgrow : ∀ p v, x.view (.task p) = some v →
      ∃ w, (x.put (.task id) (some u)).view (.task p) = some w ∧ Grow v w := by
    intro p v hv
    by_cases hp : p = id
    · subst hp
      rw [ht] at hv; cases hv
      exact ⟨u, Snap.put_view_self .., hg⟩
    · exact ⟨v, by rw [Snap.put_view_of_ne _ _ (by simpa using hp)]; exact hv, .refl v⟩
  have hadded : ∀ i v, Added g o x i v → Added g o (x.put (.task id) (some u)) i v := fun i v ha =>
    ha.mono (le_refl _) (fun q hq => x.put_held_of_held _ hq)
      (fun k _ hv => by rw [Snap.put_view_of_ne _ _ (by simp)]; exact hv)
      (fun p _ hv => by rw [Snap.put_view_of_ne _ _ (by simp)]; exact hv) fun p v _ => hgrow p v
  refine h.put ?_ (fun i v _ ha => hadded i v ha) hgrow
  cases hrows : x.rows (.task id) with
  | some v => exact .inl ⟨v, u, hrows, Snap.put_view_self .., (h.grown hc ht hrows).trans hg⟩
  | none =>
    obtain ⟨hcurrent, hwaiting⟩ := hnew hrows
    have ha := hadded id t (h.added hc ht hrows)
    refine .inr ⟨hrows, u, Snap.put_view_self .., ha.seq, hcurrent, hwaiting, fun k hk => ?_, fun p hp => ?_,
      fun d hd htype => ?_⟩
    · exact ha.identity k (hg.identity ▸ hk)
    · exact ha.parent p (hg.retryOf ▸ hp)
    · exact ha.type d hd (hg.type ▸ htype)

theorem Work.holdTask (h : Work g o K x) (hc : x.Coherent) (ht : x.view (.task id) = some t) :
    Work g o K (x.hold (.task id)) := by
  rw [x.hold_eq_put, ht]
  refine h.putTask hc ht (.refl t) fun hrows => ?_
  have ha := h.added hc ht hrows
  exact ⟨ha.current, ha.waiting⟩

theorem Work.addTask (h : Work g none K x) (hc : x.Coherent) (hnone : x.view (.task id) = none)
    (ha : Added g o (x.put (.task id) (some t)) id t) : Work g o K (x.put (.task id) (some t)) := by
  have hrows : x.rows (.task id) = none := by
    cases hh : x.held (.task id) with
    | false => rw [← hc _ hh]; exact hnone
    | true =>
      rcases h.done _ hh with ⟨u, v, -, hv, -⟩ | ⟨-, u, hu, -⟩
      · rw [hnone] at hv; cases hv
      · rw [hnone] at hu; cases hu
  -- the other rows say the same with the schedule named as without it
  have hopen : Work g o K x := by
    refine ⟨fun r hr => ?_, h.known, h.left⟩
    have hd := h.done r hr
    cases r with
    | task i =>
      rcases hd with hd | ⟨hi, u, hu, hau⟩
      · exact .inl hd
      · exact .inr ⟨hi, u, hu, hau.seq, hau.current, hau.waiting, hau.identity, hau.parent,
          fun d hd ht => absurd (hau.type d hd ht) nofun⟩
    | identity k => exact hd
    | child p => exact hd
    | schedule key => exact fun d hd' hk _ => hd d hd' hk nofun
  have hgrow : ∀ p v, x.view (.task p) = some v →
      ∃ w, (x.put (.task id) (some t)).view (.task p) = some w ∧ Grow v w := by
    intro p v hv
    have hp : p ≠ id := by rintro rfl; rw [hnone] at hv; cases hv
    exact ⟨v, by rw [Snap.put_view_of_ne _ _ (by simpa using hp)]; exact hv, .refl v⟩
  refine hopen.put (.inr ⟨hrows, t, Snap.put_view_self .., ha⟩) (fun i v _ hv => ?_) hgrow
  exact hv.mono (le_refl _) (fun q hq => x.put_held_of_held _ hq)
    (fun k _ hv => by rw [Snap.put_view_of_ne _ _ (by simp)]; exact hv)
    (fun p _ hv => by rw [Snap.put_view_of_ne _ _ (by simp)]; exact hv) fun p v _ => hgrow p v

/-! ## Index entries -/

theorem Work.removeIdentity (h : Work g o K x) (hc : x.Coherent) (hentry : x.view (.identity k) = some id)
    (hheld : x.held (.task id) = true) (ht : x.view (.task id) = some t) (hs : t.supersededAt.isSome = true) :
    Work g o K (x.put (.identity k) none) := by
  have hview : ∀ i, (x.put (.identity k) none).view (.task i) = x.view (.task i) := fun i =>
    Snap.put_view_of_ne _ _ (by simp)
  refine h.put (fun i hi => ?_) (fun i u hu ha => ?_) (grow_put (by simp))
  · -- whatever round had the entry before is superseded
    have hgone : i = id ∨ x.held (.task i) = true ∧ ∃ u, x.view (.task i) = some u ∧ u.supersededAt.isSome = true := by
      cases hk : x.held (.identity k) with
      | false =>
        rw [hc _ hk] at hentry
        have hi' : x.rows (.identity k) = some i := hi
        rw [hentry] at hi'
        cases hi'
        exact .inl rfl
      | true =>
        obtain ⟨hi', hv | hv⟩ := h.done _ hk i hi
        · rw [hentry] at hv; cases hv; exact .inl rfl
        · exact .inr ⟨hi', hv⟩
    rcases hgone with rfl | ⟨hi', u, hu, hus⟩
    · exact ⟨x.put_held_of_held _ hheld, .inr ⟨t, (hview i).trans ht, hs⟩⟩
    · exact ⟨x.put_held_of_held _ hi', .inr ⟨u, (hview i).trans hu, hus⟩⟩
  · refine ha.mono (le_refl _) (fun q hq => x.put_held_of_held _ hq) (fun k' _ hv => ?_)
      (fun p _ hv => by rw [Snap.put_view_of_ne _ _ (by simp)]; exact hv)
      fun p v _ hv => grow_put (by simp) p v hv
    -- a round created here is not superseded, so the entry is another's
    have hne : k' ≠ k := by
      rintro rfl
      rw [hentry] at hv; cases hv
      rw [ht] at hu; cases hu
      rw [ha.current] at hs; cases hs
    rw [Snap.put_view_of_ne _ _ (by simpa using hne)]
    exact hv

theorem Work.insertIdentity (h : Work g o K x) (hc : x.Coherent) (hnone : x.view (.identity k) = none) :
    Work g o K (x.put (.identity k) (some id)) := by
  refine h.put (fun i hi => ?_) (fun i u _ ha => ?_) (grow_put (by simp))
  · cases hk : x.held (.identity k) with
    | false =>
      have hi' : x.rows (.identity k) = some i := hi
      rw [← hc _ hk, hnone] at hi'
      cases hi'
    | true =>
      obtain ⟨hi', hv | ⟨u, hu, hs⟩⟩ := h.done _ hk i hi
      · rw [hnone] at hv; cases hv
      · exact ⟨x.put_held_of_held _ hi', .inr ⟨u, by rw [Snap.put_view_of_ne _ _ (by simp)]; exact hu, hs⟩⟩
  · refine ha.mono (le_refl _) (fun q hq => x.put_held_of_held _ hq) (fun k' _ hv => ?_)
      (fun p _ hv => by rw [Snap.put_view_of_ne _ _ (by simp)]; exact hv)
      fun p v _ hv => grow_put (by simp) p v hv
    have hne : k' ≠ k := by rintro rfl; rw [hnone] at hv; cases hv
    rw [Snap.put_view_of_ne _ _ (by simpa using hne)]
    exact hv

theorem Work.insertChild {p : Nat} (h : Work g o K x) (hc : x.Coherent) (hnone : x.view (.child p) = none) :
    Work g o K (x.put (.child p) (some id)) := by
  refine h.put ?_ (fun i u _ ha => ?_) (grow_put (by simp))
  · show x.rows (.child p) = none
    cases hk : x.held (.child p) with
    | false => rw [← hc _ hk]; exact hnone
    | true => exact h.done _ hk
  · refine ha.mono (le_refl _) (fun q hq => x.put_held_of_held _ hq)
      (fun k _ hv => by rw [Snap.put_view_of_ne _ _ (by simp)]; exact hv) (fun q _ hv => ?_)
      fun p v _ hv => grow_put (by simp) p v hv
    have hne : q ≠ p := by rintro rfl; rw [hnone] at hv; cases hv
    rw [Snap.put_view_of_ne _ _ (by simpa using hne)]
    exact hv

/-! ## Schedules -/

variable {s : TaskSchedule}

theorem Work.putSchedule {key : String} (h : Work g o K x)
    (hs : (∀ id, o ≠ some (key, id)) → SameHead (x.rows (.schedule key)) (some s)) :
    Work g o K (x.put (.schedule key) (some s)) := by
  refine h.put (fun d _ _ ho => ?_) (fun i u _ ha => ?_) (grow_put (by simp))
  · rw [Snap.put_view_self]
    exact hs ho
  · exact ha.mono (le_refl _) (fun q hq => x.put_held_of_held _ hq)
      (fun k _ hv => by rw [Snap.put_view_of_ne _ _ (by simp)]; exact hv)
      (fun p _ hv => by rw [Snap.put_view_of_ne _ _ (by simp)]; exact hv)
      fun p v _ hv => grow_put (by simp) p v hv

theorem Work.sameHead (h : Work g o K x) (hc : x.Coherent) (hd : d ∈ g.periodic)
    (ho : ∀ id, o ≠ some (d.key, id)) (hs : x.view (.schedule d.key) = some s) :
    SameHead (x.rows (.schedule d.key)) (some s) := by
  cases hk : x.held (.schedule d.key) with
  | false =>
    rw [← hc _ hk, hs]
    exact .refl s
  | true =>
    have := h.done _ hk d hd rfl ho
    rw [hs] at this
    exact this

theorem Work.holdSchedule (h : Work g o K x) (hc : x.Coherent) (hd : d ∈ g.periodic)
    (hs : x.view (.schedule d.key) = some s) : Work g o K (x.hold (.schedule d.key)) := by
  rw [x.hold_eq_put, hs]
  exact h.putSchedule fun ho => h.sameHead hc hd ho hs

end SynapS3.Queue
