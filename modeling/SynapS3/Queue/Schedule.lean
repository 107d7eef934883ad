import SynapS3.Queue.Ops

/-!
# `Queue.Schedule` — dispatching, settling and retrying the rounds of a schedule

Three transactions touch a schedule. A dispatch moves it to the next cycle and a manual retry to the successor
of the cycle it is at; both lock the schedule before they create the round, and both have seen the round it
leaves ended (`Moved`). A settlement looks at it, with the claimed round locked: as that round has not ended,
the schedule points at it, so the conflict branch of `settleSchedule` is not taken (`body_settleSchedule`).
-/

namespace SynapS3.Queue

open ReadCommitted Tasks

variable {ι κ : Type} [DecidableEq ι] {g : Registry ι κ} {o : Option (String × Nat)}
  {K : Known ι κ} {x y z : QueueSnap ι κ}
  {allow : QueueShared ι κ → QueueShared ι κ → Bool} {id : Nat} {t task : Task ι κ} {d : ScheduleDefinition}
  {P : Unit → QueueSnap ι κ → Prop}

omit [DecidableEq ι] in
theorem view_grow (hl : Later (contract g) x y) (hx : x.held (.task id) = true ∨ x.Coherent) (hc : y.Coherent)
    (ht : x.view (.task id) = some t) : ∃ u, y.view (.task id) = some u ∧ Grow t u := by
  cases hh : x.held (.task id) with
  | true => exact ⟨t, (hl.view _ hh).trans ht, .refl t⟩
  | false =>
    have hcoherent : x.Coherent := hx.resolve_left (by rw [hh]; exact Bool.false_ne_true)
    rw [hcoherent _ hh] at ht
    obtain ⟨u, hu, hg⟩ := (show Guar _ _ from hl.guar).tasks id t ht
    exact ⟨u, (hc _ (by rw [hl.held]; exact hh)).trans hu, hg⟩

/-! ## Moving a schedule -/

/-- The schedule is locked, and points at a round that is locked as well. -/
structure Moved (g : Registry ι κ) (K : Known ι κ) (d : ScheduleDefinition)
    (id : Nat) (generation : Int) (t : Task ι κ) (z : QueueSnap ι κ) : Prop where
  work : Work g (some (d.key, id)) K z
  heldSchedule : z.held (.schedule d.key) = true
  schedule : ∃ s, z.view (.schedule d.key) = some s ∧ s.latestTaskID = some id ∧ s.generation = generation
  heldTask : z.held (.task id) = true
  task : z.view (.task id) = some t
  type : t.type = d.type
  gen : t.generation = some generation

omit [DecidableEq ι] in
theorem Moved.later {generation : Int} (h : Moved g K d id generation t y) (hl : Later (contract g) y z) :
    Moved g K d id generation t z where
  work := h.work.later hl
  heldSchedule := by rw [hl.held]; exact h.heldSchedule
  schedule := by
    obtain ⟨s, hs, hrest⟩ := h.schedule
    exact ⟨s, (hl.view _ h.heldSchedule).trans hs, hrest⟩
  heldTask := by rw [hl.held]; exact h.heldTask
  task := (hl.view _ h.heldTask).trans h.task
  type := h.type
  gen := h.gen

variable {expected : Option Nat} {nextRunAt : Int} {checkpoint : Option κ} {claimed : Nat}

omit [DecidableEq ι] in
theorem body_requirePrevious {taskID : Nat} {same : Bool} (hP : ∀ y, Later (contract g) x y → P () y) :
    Body (contract g) allow P (requirePrevious task taskID same expected) x := by
  cases expected with
  | none => exact Body.pure (hP x (Later.refl _ _))
  | some e =>
    show Body _ _ _ (if e = taskID then _ else _) x
    split
    · exact Body.pure (hP x (Later.refl _ _))
    · exact Body.bind (Body.look fun y hy _ _ => Body.bind (Body.orRefuse fun _ _ => Body.bind
        (Body.demand fun _ => Body.demand fun _ => hP y hy)))

omit [DecidableEq ι] in
theorem Work.body_setHead {expectedGeneration generation : Int} (h : Work g (some (d.key, id)) K x)
    (hheld : x.held (.task id) = true) (ht : x.view (.task id) = some t) (htype : t.type = d.type) :
    Body (contract g) allow (fun _ z => Moved g K d id generation t z)
      (setHead d.key expectedGeneration generation expected id nextRunAt) x := by
  refine Body.bind (Body.demand fun _ => h.body_existing fun y u hy _ _ hu hw => ?_)
  have hsame : u = t := by
    rw [hy.view _ hheld, ht] at hu
    exact (Option.some.inj hu).symm
  subst hsame
  refine Body.bind (Body.demand fun _ => Body.bind (Body.demand fun hgen => Body.bind (Body.demand fun _ =>
    Body.bind (body_requirePrevious fun z hz => Body.bind (Body.update fun v hv hc _ => ⟨fun _ => ?_, fun w hw' => ?_⟩)))))
  · exact Body.demand nofun
  · refine Body.demand fun _ => ?_
    obtain ⟨s, -, hset⟩ := Option.bind_eq_some_iff.mp hw'
    split at hset
    case isFalse => cases hset
    cases hset
    -- the new round is locked throughout, so it is the one that was inserted
    have hheldTask : v.held (.task id) = true := by
      rw [hv.held, hz.held]
      exact Snap.hold_held_self ..
    have htask : v.view (.task id) = some u := by
      rw [hv.view _ (by rw [hz.held]; exact Snap.hold_held_self ..), hz.view _ (Snap.hold_held_self ..)]
      exact hu
    exact {
      work := ((hw.later hz).later hv).putSchedule fun ho => absurd rfl (ho id)
      heldSchedule := Snap.put_held_self ..
      schedule := ⟨_, Snap.put_view_self .., rfl, rfl⟩
      heldTask := Snap.put_held_of_held _ _ hheldTask
      task := by rw [Snap.put_view_of_ne _ _ (by simp)]; exact htask
      type := htype
      gen := by simpa using hgen }

variable {s : TaskSchedule} {transition : TaskTransition}

omit [DecidableEq ι] in
/-- `SetHead` to a later generation refuses a round that was there before: if it has not ended, it is the one
    the schedule points at, and that one has the earlier generation. -/
theorem Work.body_setHead_found {generation : Int} {stored : Task ι κ} (h : Work g none K x)
    (hd : d ∈ g.periodic) (hK : K.found (.schedule d.key) (some s)) (hc : x.Coherent)
    (ht : x.view (.task id) = some stored) (htype : stored.type = d.type) (hlt : s.generation < generation) :
    Body (contract g) allow P (setHead d.key s.generation generation s.latestTaskID id nextRunAt) x := by
  refine Body.bind (Body.demand fun _ => h.body_existing fun y t hy hcy hi hty hw => ?_)
  refine Body.bind (Body.demand fun _ => Body.bind (Body.demand fun hgen => Body.bind (Body.demand fun hopen => ?_)))
  have hopen' : t.status.terminal = false := by
    rcases Bool.or_eq_true _ _ ▸ hopen with hs | hs
    · rw [eq_of_beq hs]; rfl
    · rw [eq_of_beq hs]; rfl
  obtain ⟨t', ht', hgrow⟩ := view_grow hy (.inr hc) hcy ht
  rw [hty] at ht'
  cases ht'
  have htype' : t.type = d.type := hgrow.type.trans htype
  have hwy := h.later hy
  rcases hwy.task_cases hcy hty with ⟨u, hu, hg⟩ | ⟨-, ha⟩
  · have hutype : u.type = d.type := hg.type.symm.trans htype'
    obtain ⟨s', hs', hl⟩ := (hi.heads d hd).only id u hu hutype (hg.open_of_open hopen')
    have hrows : y.rows (.schedule d.key) = some s := (hwy.known _ _ hK).2
    rw [hrows] at hs'
    cases hs'
    obtain ⟨v, hv, -, hvgen⟩ := (hi.heads d hd).latest s id hrows hl
    rw [hu] at hv
    cases hv
    have hcontra : some s.generation = some generation := by
      rw [← hvgen, ← hg.generation]
      simpa using hgen
    have : s.generation = generation := Option.some.inj hcontra
    omega
  · exact absurd (ha.type d hd htype') nofun

/-! ## Dispatching -/

omit [DecidableEq ι] in
/-- The round a schedule with this row points at, if any, has ended. -/
def Ended (s : TaskSchedule) (st : QueueShared ι κ) : Prop :=
  ∀ l, s.latestTaskID = some l → ∃ t, st.rows (.task l) = some t ∧ t.status.terminal = true

omit [DecidableEq ι] in
theorem Ended.guar {a b : QueueShared ι κ} (hg : Guar a b) (h : Ended s a) : Ended s b := by
  intro l hl
  obtain ⟨t, ht, hended⟩ := h l hl
  obtain ⟨u, hu, hgrow⟩ := hg.tasks l t ht
  exact ⟨u, hu, by rw [hgrow.ended hended]; exact hended⟩

/-- How the transaction of `dispatchSchedules` ends: nothing was done, or the next cycle was created and the
    schedule moved to it. -/
def Dispatched (g : Registry ι κ) (d : ScheduleDefinition) (dispatched : Bool) (z : QueueSnap ι κ) : Prop :=
  (dispatched = false ∧ Work g none {} z) ∨
    ∃ (K : Known ι κ) (s : TaskSchedule) (id : Nat) (t : Task ι κ),
      dispatched = true ∧ K.found (.schedule d.key) (some s) ∧ Moved g K d id (s.generation + 1) t z ∧ Ended s z.toShared

omit [DecidableEq ι] in
theorem Work.forget (h : Work g o K x) : Work g o {} x :=
  ⟨h.done, fun _ _ => False.elim, fun _ _ => False.elim⟩

theorem Work.body_dispatchCycle (h : Work g none K x) (hd : d ∈ g.periodic) (hK : K.found (.schedule d.key) (some s))
    (hended : Ended s x.toShared) :
    Body (contract g) allow (Dispatched g d) (dispatchSchedule.dispatchCycle g d s checkpoint) x := by
  refine Body.mono (Body.frame (F := Ended s) (P := fun dispatched z => dispatched = true ∧
    ∃ id t, Moved g K d id (s.generation + 1) t z) (fun _ _ => Ended.guar) ?_ hended)
    fun r z hr => .inr ?_
  · refine Body.bind (h.body_prepare fun y prepared hy htype => Body.bind (Body.mono hy.body_enqueuePrepared
      fun r z hr => ?_))
    cases hr with
    | created id z work held view =>
      have hopen : openFor g prepared.type id = some (d.key, id) := by rw [htype]; exact openFor_of_mem hd id
      have hwork : Work g (some (d.key, id)) K z := hopen ▸ work
      refine Body.bind (Body.mono (hwork.body_setHead held view htype) fun _ u hu => Body.pure ⟨rfl, ?_⟩)
      exact ⟨id, _, hu⟩
    | found id stored z work coherent view type =>
      exact Body.bind (work.body_setHead_found hd hK coherent view (type.trans htype) (by omega))
  · obtain ⟨⟨hr, id, t, hm⟩, he⟩ := hr
    exact ⟨K, s, id, t, hr, hK, hm, he⟩

theorem body_dispatchSchedule (hx : x.Idle) (hd : d ∈ g.periodic) :
    Body (contract g) allow (Dispatched g d) (dispatchSchedule g d checkpoint) x := by
  refine Body.bind (Body.lock fun y hy hc _ => ⟨fun _ => ?_, fun s hs => ?_⟩)
  · exact Body.bind ((Work.of_idle (hx.later hy hc)).body_now fun z now _ hz => Body.pure (.inl ⟨rfl, hz⟩))
  have hidle := hx.later hy hc
  have hheld : (y.hold (.schedule d.key)).held (.schedule d.key) = true := Snap.hold_held_self ..
  have hwork : Work g none _ (y.hold (.schedule d.key)) :=
    ((Work.of_idle hidle).holdSchedule hc hd hs).learn (r := .schedule d.key) hheld rfl
  have hrows : y.rows (.schedule d.key) = some s := by rw [← hidle.view]; exact hs
  refine Body.bind (hwork.body_now fun z now hz hw => ?_)
  show Body _ _ _ (if now < s.nextRunAt then _ else _) _
  split
  · exact Body.pure (.inl ⟨rfl, hw.forget⟩)
  refine Body.bind (Body.look fun u hu hcu _ => ?_)
  -- no task is locked yet, so what is read is committed
  have hunlocked : ∀ l, u.held (.task l) = false := fun l => by
    have hne : Row.task l ≠ .schedule d.key := by simp
    rw [hu.held]
    show z.held _ = false
    rw [hz.held, Snap.hold_held_of_ne _ hne]
    exact hidle.held _
  have hwu := hw.later hu
  have hK : False ∨ ∃ hq : Row.schedule d.key = Row.schedule d.key,
      hq ▸ (y.hold (.schedule d.key)).rows (.schedule d.key) = some s := .inr ⟨rfl, hrows⟩
  dsimp only
  cases hlatest : s.latestTaskID with
  | none => exact hwu.body_dispatchCycle hd hK fun l hl => by rw [hlatest] at hl; cases hl
  | some l =>
    cases hprevious : u.view (.task l) with
    | none =>
      simp only [Option.map_some, hprevious]
      exact Body.refuse
    | some previous =>
      simp only [Option.map_some, hprevious]
      split
      · exact Body.pure (.inl ⟨rfl, hwu.forget⟩)
      next hstatus =>
        refine hwu.body_dispatchCycle hd hK fun l' hl' => ?_
        rw [hlatest] at hl'
        cases hl'
        refine ⟨previous, by rw [← hcu _ (hunlocked l)]; exact hprevious, ?_⟩
        cases hp : previous.status with
        | pending => exact absurd (.inl hp) hstatus
        | running => exact absurd (.inr hp) hstatus
        | completed | failed | cancelled => rfl

/-! ## Settling -/

omit [DecidableEq ι] in
theorem Work.body_supersedeBefore {page : List Nat} (h : Work g o K x) (hP : ∀ y, Work g o K y → P () y) :
    Body (contract g) allow P (supersedeBefore claimed page) x := by
  induction page generalizing x with
  | nil => exact Body.pure (hP x h)
  | cons old rest ih =>
    show Body _ _ _ (if old < claimed then _ else _) x
    split
    · exact Body.bind (h.body_supersedeTerminal fun y hy => ih hy)
    · exact ih h

omit [DecidableEq ι] in
theorem Work.body_supersedeEarlier {pages before : Nat} (h : Work g o K x) (hP : ∀ y, Work g o K y → P () y) :
    Body (contract g) allow P (supersedeEarlier claimed task pages before) x := by
  induction pages generalizing x before with
  | zero => exact Body.pure (hP x h)
  | succ pages ih =>
    refine Body.bind (Body.look fun y hy _ _ => ?_)
    have hpage : ∀ r : List Nat × Nat, Body (contract g) allow P (do
        supersedeBefore claimed r.1
        if r.2 = 0 then pure () else supersedeEarlier claimed task pages r.2) y := by
      intro r
      refine Body.bind ((h.later hy).body_supersedeBefore fun z hz => ?_)
      split
      · exact Body.pure (hP z hz)
      · exact ih hz
    exact hpage (listCurrentFailedForSubject y.view y.seq task.subjectType task.subjectKey task.type before 100)

omit [DecidableEq ι] in
theorem Work.schedule_points (h : Work g none K x) (hc : x.Coherent) (hi : Inv g x.toShared)
    (hK : K.found (.task id) (some task)) (hopen : task.status.terminal = false) (hd : d ∈ g.periodic)
    (htype : task.type = d.type) : ∃ s, x.view (.schedule d.key) = some s ∧ s.latestTaskID = some id := by
  have hrows : x.rows (.task id) = some task := (h.known _ _ hK).2
  obtain ⟨s, hs, hl⟩ := (hi.heads d hd).only id task hrows htype hopen
  cases hh : x.held (.schedule d.key) with
  | false => exact ⟨s, (hc _ hh).trans hs, hl⟩
  | true =>
    obtain ⟨s', hs', hcase⟩ := h.done _ hh d hd rfl nofun
    rcases hcase with ⟨u, hu, hlatest, -⟩ | ⟨hnone, -⟩
    · rw [hs] at hu
      cases hu
      exact ⟨s', hs', hlatest.trans hl⟩
    · rw [hs] at hnone; cases hnone

omit [DecidableEq ι] in
/-- **The conflict branch of `settleSchedule` is not taken** with an open round that the transaction has
    locked. -/
theorem Work.body_settleSchedule (h : Work g none K x) (hK : K.found (.task id) (some task))
    (hopen : task.status.terminal = false) :
    Body (contract g) allow (fun _ y => Work g none K y) (settleSchedule g id task transition) x := by
  unfold settleSchedule
  split
  · exact Body.pure h
  cases hfor : g.scheduleFor task.type with
  | none => exact Body.pure h
  | some d =>
    obtain ⟨hd, htype⟩ := Registry.scheduleFor_eq_some hfor
    refine Body.bind (Body.lock fun y hy hc hi => ?_)
    have hwy := h.later hy
    obtain ⟨s, hs, hl⟩ := hwy.schedule_points hc hi hK hopen hd htype.symm
    refine ⟨fun hnone => absurd (hs.symm.trans hnone) (by simp), fun s' hs' => ?_⟩
    rw [hs] at hs'
    cases hs'
    rw [if_pos (by rw [Option.any_some, hl]; exact beq_self_eq_true _)]
    have hheld : (y.hold (.schedule d.key)).held (.schedule d.key) = true := Snap.hold_held_self ..
    refine Body.bind ((hwy.holdSchedule hc hd hs).body_now fun z now hz hw => Body.bind
      (Body.update fun u hu hcu _ => ?_))
    have hview : u.view (.schedule d.key) = some s := by
      rw [hu.view _ (show z.held _ = true by rw [hz.held]; exact hheld)]
      exact (hz.view _ hheld).trans hs
    rw [hview, Option.bind_some, if_pos hl]
    refine ⟨by simp, fun w hw' => ?_⟩
    cases hw'
    have hwu : Work g none K (u.put (.schedule d.key) (some { s with nextRunAt := now + d.interval })) := by
      refine (hw.later hu).putSchedule fun ho => ?_
      obtain ⟨s', hs', hcase⟩ := (hw.later hu).sameHead hcu hd ho hview
      cases hs'
      exact ⟨_, rfl, hcase⟩
    rw [if_pos rfl]
    split
    · exact Body.pure hwu
    · exact Body.bind (Body.look fun v hv _ _ => (hwu.later hv).body_supersedeEarlier fun w hw => hw)

omit [DecidableEq ι] in
theorem grow_settleRow {generation : Nat} {now : Int} (h : t.heldBy generation now = true)
    (transition : TaskTransition) : Grow t (settleRow transition now t) := by
  have hopen : t.status.terminal = false := by rw [(Task.heldBy_iff.mp h).1]; rfl
  refine ⟨rfl, rfl, rfl, rfl, id, fun ht => ?_, fun ht hs => ?_⟩
  · rw [hopen] at ht; cases ht
  · have := ht hs
    rw [hopen] at this; cases this

omit [DecidableEq ι] in
theorem Work.body_settleTask {generation : Nat} (h : Work g o K x) (hK : K.found (.task id) (some task)) :
    Body (contract g) allow (fun _ y => Work g o K y) (settleTask id generation transition) x := by
  refine Body.bind (Body.demand fun _ => Body.bind ?_)
  refine Body.mono (Q := fun _ y => Work g o K y) (h.body_getForUpdate (fun _ hw => hw) fun _ _ _ _ _ _ hw => hw)
    fun row y hy => Body.bind (hy.body_now fun z now _ hz => Body.bind (Body.demand fun _ => Body.bind
      (Body.update fun u hu hc _ => ⟨fun _ => Body.demand nofun, fun w hw => Body.demand fun _ => ?_⟩)))
  obtain ⟨t, ht, hset⟩ := Option.bind_eq_some_iff.mp hw
  split at hset
  case isFalse => cases hset
  next hheld =>
  cases hset
  refine (hz.later hu).putTask hc ht (grow_settleRow hheld transition) fun hrows => ?_
  rw [((hz.later hu).known _ _ hK).2] at hrows
  cases hrows

theorem body_settle {generation : Nat} {ops : List (Op ι κ)} (hx : x.Idle) (hops : ops.all Op.ordinary = true) :
    Body (contract g) allow (fun _ y => Work g none {} y) (settle g id generation ops transition) x := by
  refine Body.bind (Body.now fun y hy hc _ now _ => ?_)
  have hidle : ({ y with clock := now } : QueueSnap ι κ).Idle :=
    ⟨(hx.later hy hc).held, (hx.later hy hc).pinned, (hx.later hy hc).view⟩
  refine (Work.of_idle hidle).body_existing fun z task hz hcz _ ht hw => Body.bind (Body.demand fun hheld => ?_)
  have hopen : task.status.terminal = false := by rw [(Task.heldBy_iff.mp hheld).1]; rfl
  -- nothing was locked before, so the claimed round is as it is committed
  have hrows : z.rows (.task id) = some task := by
    rw [← (hidle.later hz hcz).view]
    exact ht
  have hknown := hw.learn (r := .task id) (Snap.hold_held_self ..) rfl
  have hK : False ∨ ∃ hq : Row.task id = Row.task id, hq ▸ (z.hold (.task id)).rows (.task id) = some task :=
    .inr ⟨rfl, hrows⟩
  refine Body.bind (Body.mono (hknown.body_runOps hops) fun _ u hu => Body.bind (Body.mono
    (hu.body_settleSchedule hK hopen) fun _ v hv => Body.mono (hv.body_settleTask hK) fun _ w hw => hw.forget))

end SynapS3.Queue
