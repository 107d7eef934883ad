import SynapS3.Queue.Schedule

/-!
# `Queue.Runs` — every request, any number at a time

The commits of the transactions that move a schedule, the manual retry with its answers, and the machine that
starts any requests at any time.
-/

namespace SynapS3.Queue

open ReadCommitted Tasks

variable {ι κ : Type} [DecidableEq ι] {g : Registry ι κ} {o : Option (String × Nat)}
  {K : Known ι κ} {x y z : QueueSnap ι κ}
  {allow : QueueShared ι κ → QueueShared ι κ → Bool}

/-! ## Commits that move a schedule -/

variable {d : ScheduleDefinition} {id tries : Nat}

omit [DecidableEq ι] in
theorem Moved.kept {generation : Int} {t : Task ι κ} {s : TaskSchedule} {record : Record → Record}
    (hm : Moved g K d id generation t z) (hd : d ∈ g.periodic) (hK : K.found (.schedule d.key) (some s))
    (hended : Ended s z.toShared) (hc : z.Coherent) (hi : Inv g z.toShared)
    (hcount : generation = (record z.ghost).cycles.count d.key)
    (hothers : ∀ key, key ≠ d.key → (record z.ghost).cycles.count key = z.ghost.cycles.count key)
    (hanswers : (record z.ghost).answers = z.ghost.answers)
    (hconflicts : (record z.ghost).conflicts = z.ghost.conflicts) :
    Kept (contract g) z (z.committed record) := by
  refine hm.work.kept hc hi (fun e he => ?_) hanswers hconflicts
  by_cases hed : e = d
  · subst hed
    obtain ⟨s', hs', hlatest, hgen⟩ := hm.schedule
    refine hm.work.head_of_moved hc hi he ?_ hs' hlatest hm.task hm.type (by rw [hgen]; exact hm.gen)
      (by rw [hgen]; exact hcount)
    intro s₀ l hs₀ hl
    rw [(hm.work.known _ _ hK).2] at hs₀
    cases hs₀
    exact hended l hl
  · have hkey : e.key ≠ d.key := fun h => hed (g.eq_of_key he hd h)
    obtain ⟨hgen, hlatest, honly⟩ := hm.work.head_of_same hc hi he fun i h =>
      hkey (by simpa using congrArg (·.map Prod.fst) h.symm)
    exact ⟨by rw [hothers _ hkey]; exact hgen, hlatest, honly⟩

omit [DecidableEq ι] in
theorem Work.count_known {s : TaskSchedule} (h : Work g o K z) (hi : Inv g z.toShared) (hd : d ∈ g.periodic)
    (hK : K.found (.schedule d.key) (some s)) : s.generation = z.ghost.cycles.count d.key := by
  have hgen := (hi.heads d hd).generation
  rw [(h.known _ _ hK).2] at hgen
  exact hgen

omit [DecidableEq ι] in
theorem Dispatched.kept {r : Bool} (h : Dispatched g d r y) (hd : d ∈ g.periodic) (hl : Later (contract g) y z)
    (hc : z.Coherent) (hi : Inv g z.toShared) :
    Kept (contract g) z (z.committed fun rec => if r then rec.cycle d.key else rec) := by
  rcases h with ⟨rfl, hw⟩ | ⟨K, s, id, t, rfl, hK, hm, he⟩
  · exact (hw.later hl).kept_same hc hi
  have hmz := hm.later hl
  refine hmz.kept hd hK (he.guar hl.guar) hc hi ?_ (fun key hkey => ?_) rfl rfl
  · rw [hmz.work.count_known hi hd hK]
    show _ = (((d.key :: z.ghost.cycles).count d.key : Nat) : Int)
    rw [List.count_cons_self]
    push_cast
    rfl
  · exact List.count_cons_of_ne (Ne.symm hkey)

/-! ## Manual retries -/

/-- How the transaction of `Retry` ends, with `next` as its answer. -/
structure Retried (g : Registry ι κ) (id next : Nat) (z : QueueSnap ι κ) : Prop where
  sees : z.held (.task next) = true ∨ z.Coherent
  successor : ∃ t, z.view (.task next) = some t ∧ t.retryOfTaskID = some id
  work : Work g none {} z ∨
    ∃ (K : Known ι κ) (d : ScheduleDefinition) (s : TaskSchedule) (t : Task ι κ),
      d ∈ g.periodic ∧ K.found (.schedule d.key) (some s) ∧ Moved g K d next s.generation t z ∧ Ended s z.toShared

variable {next : Nat}

omit [DecidableEq ι] in
theorem Retried.kept (h : Retried g id next y) (hl : Later (contract g) y z) (hc : z.Coherent)
    (hi : Inv g z.toShared) : Kept (contract g) z (z.committed fun r => r) ∧ Successor z.view id next := by
  obtain ⟨t, ht, hp⟩ := h.successor
  obtain ⟨u, hu, hgrow⟩ := view_grow hl h.sees hc ht
  have hretry : u.retryOfTaskID = some id := hgrow.retryOf.trans hp
  rcases h.work with hw | ⟨K, d, s, t', hd, hK, hm, he⟩
  · have hwz := hw.later hl
    exact ⟨hwz.kept_same hc hi, (hwz.parents hc hi hu hretry).2.1, u, hu, hretry⟩
  · have hmz := hm.later hl
    refine ⟨hmz.kept hd hK (he.guar hl.guar) hc hi (hmz.work.count_known hi hd hK) (fun _ _ => rfl) rfl rfl,
      (hmz.work.parents hc hi hu hretry).2.1, u, hu, hretry⟩

def HasType (id : Nat) (type : TaskType) (s : QueueShared ι κ) : Prop :=
  ∃ t, s.rows (.task id) = some t ∧ t.type = type

omit [DecidableEq ι] in
theorem HasType.guar {type : TaskType} {s t : QueueShared ι κ} (hg : Guar s t) (h : HasType id type s) :
    HasType id type t := by
  obtain ⟨a, ha, htype⟩ := h
  obtain ⟨b, hb, hgrow⟩ := hg.tasks id a ha
  exact ⟨b, hb, hgrow.type.trans htype⟩

variable {claimGeneration : Nat} {prepared : Task ι κ} {m : QueueSql ι κ α} {checkpoint : TaskType → Option κ}
  {type : TaskType} {ops : List (Op ι κ)}

/-- A successor of a round of type `type`: a recurring round is repeated as it is, and of another no recurring one
    is made. -/
structure Fits (type : TaskType) (prepared : Task ι κ) (ops : List (Op ι κ)) : Prop where
  recurring : isRecurringSystem type = true → prepared.type = type ∧ ops = []
  ordinary : isRecurringSystem type = false → isRecurringSystem prepared.type = false
  ops : ops.all Op.ordinary = true

theorem body_retryTransaction (hx : x.Idle) (htype : HasType id type x.toShared) (hfits : Fits type prepared ops) :
    Body (contract g) allow (Retried g id) (retryTransaction g id claimGeneration prepared ops) x := by
  refine (Work.of_idle hx).body_existing fun y current hy hcy _ hcurrent hw => ?_
  have hidle := hx.later hy hcy
  -- nothing was locked before, so the round is as it is committed
  have hrows : y.rows (.task id) = some current := by rw [← hidle.view]; exact hcurrent
  have hsame : current.type = type := by
    obtain ⟨t, ht, htt⟩ := htype.guar hy.guar
    rw [hrows] at ht
    cases ht
    exact htt
  have hheld : (y.hold (.task id)).held (.task id) = true := Snap.hold_held_self ..
  have hknown := hw.learn (r := .task id) hheld rfl
  refine Body.bind (Body.look fun z hz hcz _ => ?_)
  have hwz := hknown.later hz
  dsimp only
  cases hnext : getDirectSuccessor z.view id with
  | some r =>
    obtain ⟨next, t⟩ := r
    obtain ⟨-, ht, hp⟩ := getDirectSuccessor_eq_some.mp hnext
    exact Body.pure ⟨.inr hcz, ⟨t, ht, hp⟩, .inl hwz.forget⟩
  | none =>
    refine Body.bind (Body.demand fun hstatus => Body.bind (Body.demand fun _ => ?_))
    have hended : current.status.terminal = true := by
      have : current.status = .failed := by simp at hstatus; exact hstatus.1.1
      rw [this]; rfl
    split
    · next hrecurring =>
      obtain ⟨hprepared, rfl⟩ := hfits.recurring (by rw [← hsame]; exact hrecurring)
      refine Body.bind (Body.look fun u hu _ _ => Body.bind (Body.orRefuse fun d hd => ?_))
      obtain ⟨hd, -⟩ := getByTaskID_eq_some hd
      refine Body.bind (Body.lock fun v hv hcv hiv => ⟨fun _ => trivial, fun s hs => Body.bind
        (Body.orRefuse fun s' hs' => ?_)⟩)
      cases hs'
      refine Body.bind (Body.demand fun hlatest => ?_)
      have hlatest' : s.latestTaskID = some id := by simpa using hlatest
      have hwv := (hwz.later hu).later hv
      -- the schedule was not locked before, so it is as it is committed
      have hunlocked : v.held (.schedule d.key) = false := by
        have hne : Row.schedule d.key ≠ .task id := by simp
        rw [hv.held, hu.held, hz.held, Snap.hold_held_of_ne _ hne]
        exact hidle.held _
      have hrowsS : v.rows (.schedule d.key) = some s := by rw [← hcv _ hunlocked]; exact hs
      have hrowsT : v.rows (.task id) = some current := (hwv.known (.task id) _ (.inr ⟨rfl, rfl⟩)).2.trans hrows
      have hdtype : prepared.type = d.type := by
        obtain ⟨t, ht, htt, -⟩ := (hiv.heads d hd).latest s id hrowsS hlatest'
        rw [hrowsT] at ht
        cases ht
        exact hprepared.trans (hsame.symm.trans htt)
      have hknown' := (hwv.holdSchedule hcv hd hs).learn (r := .schedule d.key) (Snap.hold_held_self ..) rfl
      refine Body.bind (hknown'.body_succeed fun w next hw' hheldN hviewN => ?_)
      rw [hdtype, openFor_of_mem hd] at hw'
      refine Body.bind (Body.pure (Body.bind (hw'.body_now fun w' now hw'' hwork => ?_)))
      have hviewN' : ({ w' with clock := now } : QueueSnap ι κ).view (.task next) =
          some { prepared with retryOfTaskID := some id } := (hw''.view _ hheldN).trans hviewN
      refine Body.bind (Body.mono
        (hwork.body_setHead (by rw [show _ = w.held from hw''.held]; exact hheldN) hviewN' hdtype)
        fun _ f hf => Body.pure ⟨.inl hf.heldTask, ⟨_, hf.task, rfl⟩, .inr ⟨_, d, s, _, hd, Or.inr ⟨rfl, hrowsS⟩, hf, ?_⟩⟩)
      intro l hl
      rw [hlatest'] at hl
      cases hl
      exact ⟨current, (hf.work.known (.task id) _ (.inl (.inr ⟨rfl, rfl⟩))).2.trans hrows, hended⟩
    · next hrecurring =>
      refine Body.bind (hwz.body_succeed fun w next hw' hheldN hviewN => ?_)
      rw [openFor_of_ordinary (hfits.ordinary (by rw [← hsame]; simpa using hrecurring))] at hw'
      refine Body.bind (Body.mono ((hw'.leave hheldN hviewN).body_runOps hfits.ops) fun _ f hf => Body.pure ?_)
      obtain ⟨hheld', t, ht, hgrow⟩ := hf.left next _ ⟨rfl, rfl⟩
      exact ⟨.inl hheld', ⟨t, ht, hgrow.retryOf⟩, .inl hf.forget⟩

omit [DecidableEq ι] in
theorem body_answer (h : Successor x.rows id next) :
    Body (contract g) allow (fun _ _ => True) (Sql.note (Record.answer id next) : QueueSql ι κ Unit) x := by
  refine Body.note fun y hy _ hi _ => ⟨⟨?_, Guar.of_rows rfl⟩, trivial⟩
  refine ⟨hi.tasks, hi.identities, hi.parents, hi.heads, fun a ha => ?_, hi.conflicts⟩
  rcases List.mem_cons.mp ha with rfl | ha
  · exact h.mono hy.guar
  · exact hi.answers a ha

omit [DecidableEq ι] in
theorem successor_of_found {t : Task ι κ} (hx : x.Idle) (h : getDirectSuccessor x.view id = some (next, t)) :
    Successor x.rows id next := by
  rw [hx.view] at h
  obtain ⟨hchild, ht, hp⟩ := getDirectSuccessor_eq_some.mp h
  exact ⟨hchild, t, ht, hp⟩

omit [DecidableEq ι] in
theorem body_retryReplay (hx : x.Idle) :
    Body (contract g) allow (fun _ _ => True) (retryReplay id : QueueSql ι κ Unit) x := by
  refine Body.bind (Body.look fun y hy hc _ => ?_)
  dsimp only
  cases hnext : getDirectSuccessor y.view id with
  | some r => exact body_answer (successor_of_found (hx.later hy hc) hnext)
  | none => exact Body.pure trivial

omit [DecidableEq ι] in
theorem body_orElse {α β : Type} {m : QueueSql ι κ α} {ok : α → QueueSql ι κ β} {failed : QueueSql ι κ β}
    {P : β → QueueSnap ι κ → Prop} {Q : Except (Fault Refusal) α → QueueSnap ι κ → Prop}
    (hm : Holds (contract g) allow Q m x) (hok : ∀ a y, Q (.ok a) y → Body (contract g) allow P (ok a) y)
    (hfailed : ∀ e y, Q (.error e) y → Body (contract g) allow P failed y) :
    Body (contract g) allow P (orElse m ok failed) x := by
  refine Holds.bind (Holds.mono hm fun r y hr => ?_)
  match r, hr with
  | .ok a, hr => exact hok a y hr
  | .error e, hr => exact hfailed e y hr

/-- Outside of a transaction: the session reads and locks nothing, whatever it answers. -/
def Quiet (g : Registry ι κ) (allow : QueueShared ι κ → QueueShared ι κ → Bool) {α : Type} (m : QueueSql ι κ α) :
    Prop :=
  ∀ x : QueueSnap ι κ, x.Idle → Holds (contract g) allow (fun _ y => y.Idle) m x

omit [DecidableEq ι] in
theorem Quiet.bind {α β : Type} {m : QueueSql ι κ α} {f : α → QueueSql ι κ β} (hm : Quiet g allow m)
    (hf : ∀ a, Quiet g allow (f a)) : Quiet g allow (m >>= f) := by
  intro x hx
  refine Holds.bind (Holds.mono (hm x hx) fun r y hy => ?_)
  match r with
  | .ok a => exact hf a y hy
  | .error e => exact hy

omit [DecidableEq ι] in
theorem Quiet.pure {α : Type} (a : α) : Quiet g allow (Pure.pure a : QueueSql ι κ α) := fun _ hx => hx

omit [DecidableEq ι] in
theorem Quiet.demand (p : Bool) (e : Refusal) : Quiet g allow (Sql.demand p e : QueueSql ι κ Unit) := by
  intro x hx
  cases p with
  | true => exact hx
  | false => exact hx

omit [DecidableEq ι] in
theorem Quiet.look : Quiet g allow (Sql.look : QueueSql ι κ _) := by
  intro x hx y hy hc hi o a z hz _
  cases o with
  | fail why =>
    cases hz
    exact ⟨.of_shared rfl hi, Snap.release_idle _⟩
  | lost => cases hz
  | go tick =>
    cases hz
    exact ⟨.of_shared rfl hi, hx.later hy hc⟩

omit [DecidableEq ι] in
theorem quiet_inspectRetry (id : Nat) (task : Task ι κ) : Quiet g allow (inspectRetry g id task) := by
  refine (Quiet.demand _ _).bind fun _ => (Quiet.demand _ _).bind fun _ => (Quiet.demand _ _).bind fun _ => ?_
  split
  · exact Quiet.look.bind fun _ => Quiet.demand _ _
  · exact Quiet.pure _

/-- What the transaction of `Retry` leaves, with all its attempts. -/
def Answered (id : Nat) : Except (Fault Refusal) Nat → QueueSnap ι κ → Prop
  | .ok next, y => Successor y.rows id next
  | .error _, y => y.Idle

theorem holds_retryTransaction (hx : x.Idle) (htype : HasType id type x.toShared) (hfits : Fits type prepared ops) :
    Holds (contract g) allow (Answered id)
      (Sql.retrying contended (retryTransaction g id claimGeneration prepared ops) (fun _ r => r) tries) x := by
  refine Holds.retrying (F := HasType id type) (P := Retried g id) (fun _ _ => HasType.guar)
    (fun y hy hF => body_retryTransaction hy hF hfits) (fun _ y hy => hy) (fun next y hy z hz hc hi _ => ?_) tries hx htype
  exact hy.kept hz hc hi

omit [DecidableEq ι] in
theorem RetryHooks.fits {hooks : RetryHooks ι κ} {source : Task ι κ}
    (h : hooks.prepareRetry.all RetryPreparation.ordinary = true)
    (ht : prepared.type = (hooks.preparation source).request.type) :
    Fits source.type prepared (hooks.preparation source).bind := by
  unfold RetryHooks.preparation at ht ⊢
  split at ht
  · next hrec =>
    rw [if_pos hrec]
    exact ⟨fun _ => ⟨ht, rfl⟩, fun hno => absurd hrec (by rw [hno]; exact Bool.false_ne_true), rfl⟩
  next hno =>
  rw [if_neg hno]
  cases hp : hooks.prepareRetry with
  | none =>
    rw [hp] at ht
    exact ⟨fun hrec => absurd hrec hno, fun hord => by rw [ht]; exact hord, rfl⟩
  | some p =>
    rw [hp] at h ht
    simp only [Option.all_some, RetryPreparation.ordinary, Bool.and_eq_true, Bool.not_eq_true'] at h
    exact ⟨fun hrec => absurd hrec hno, fun _ => by rw [ht]; exact h.1, h.2⟩

theorem body_retry {hooks : RetryHooks ι κ} (hx : x.Idle)
    (hhooks : hooks.prepareRetry.all RetryPreparation.ordinary = true) :
    Body (contract g) allow (fun _ _ => True) (retry g id hooks tries) x := by
  refine Body.bind (Body.look fun y hy hc _ => Body.bind (Body.orRefuse fun source hsource => ?_))
  have hidle := hx.later hy hc
  have htype : HasType id source.type y.toShared := ⟨source, by rw [← hidle.view]; exact hsource, rfl⟩
  refine Body.bind (Body.look fun z hz hcz _ => ?_)
  have hidlez := hidle.later hz hcz
  dsimp only
  cases hnext : getDirectSuccessor z.view id with
  | some r => exact body_answer (successor_of_found hidlez hnext)
  | none =>
    have hquiet : Quiet g allow (do
        inspectRetry g id source
        Sql.demand hooks.passed .retryUnsupported) :=
      (quiet_inspectRetry id source).bind fun _ => Quiet.demand _ _
    refine body_orElse (Holds.frame (F := HasType id source.type) (fun _ _ => HasType.guar) (hquiet z hidlez)
      (htype.guar hz.guar)) (fun _ u hu => ?_) fun _ u hu => body_retryReplay hu.1
    refine Body.bind (body_prepare fun v now prepared hv hcv hprepared => ?_)
    have hidlev : ({ v with clock := now } : QueueSnap ι κ).Idle :=
      ⟨(hu.1.later hv hcv).held, (hu.1.later hv hcv).pinned, (hu.1.later hv hcv).view⟩
    have htypev : HasType id source.type v.toShared := hu.2.guar hv.guar
    exact body_orElse (holds_retryTransaction hidlev htypev (RetryHooks.fits hhooks hprepared))
      (fun next w hw => body_answer hw) fun _ w hw => body_retryReplay hw

/-! ## All requests -/

theorem quiet_dispatchDue {due : List ScheduleDefinition} (hdue : ∀ d ∈ due, d ∈ g.periodic) :
    Quiet g allow (dispatchDue g checkpoint tries due) := by
  induction due with
  | nil => exact Quiet.pure _
  | cons d rest ih =>
    intro x hx
    have hd : d ∈ g.periodic := hdue d (List.mem_cons_self ..)
    have hrest := ih fun e he => hdue e (List.mem_cons_of_mem _ he)
    have hone : Holds (contract g) allow (fun _ y => y.Idle) (Sql.retrying contended
        (dispatchSchedule g d (checkpoint d.type)) (fun dispatched r => if dispatched then r.cycle d.key else r)
        tries) x :=
      Holds.retrying (F := fun _ => True) (fun _ _ _ _ => trivial) (fun y hy _ => body_dispatchSchedule hy hd)
        (fun _ y hy => hy) (fun r y hr z hl hc hi _ => ⟨hr.kept hd hl hc hi, fun _ => rfl, fun _ => rfl, rfl⟩)
        tries hx trivial
    refine Holds.bind (Holds.mono hone fun r y hy => ?_)
    cases r with
    | ok dispatched => exact hrest y hy
    | error e =>
      dsimp only
      cases passedOver e with
      | true => exact hrest y hy
      | false => exact hy

omit [DecidableEq ι] in
theorem mem_listDue {rows : QueueRows ι κ} {now : Int} (h : d ∈ listDue g rows now) : d ∈ g.periodic := by
  obtain ⟨⟨at', e⟩, he, rfl⟩ := List.mem_map.mp h
  rw [List.mem_insertionSort] at he
  obtain ⟨e', he', hsome⟩ := List.mem_filterMap.mp he
  obtain ⟨s, -, hs⟩ := Option.bind_eq_some_iff.mp hsome
  split at hs
  · cases hs; exact he'
  · cases hs

omit [DecidableEq ι] in
theorem Quiet.now : Quiet g allow (Sql.now : QueueSql ι κ _) := by
  intro x hx y hy hc hi o a z hz _
  cases o with
  | fail why =>
    cases hz
    exact ⟨.of_shared rfl hi, Snap.release_idle _⟩
  | lost => cases hz
  | go tick =>
    cases hz
    obtain ⟨hinv, hguar⟩ := (contract g).tick y.toShared (y.clock + 1 + tick) y.seq (by omega) (le_refl _) hi
    exact ⟨.of_rows rfl hinv hguar, (hx.later hy hc).held, (hx.later hy hc).pinned, (hx.later hy hc).view⟩

theorem quiet_dispatchSchedules : Quiet g allow (dispatchSchedules g checkpoint tries) :=
  Quiet.now.bind fun _ => Quiet.look.bind fun _ => quiet_dispatchDue fun _ hd => mem_listDue hd

omit [DecidableEq ι] in
theorem holds_ordinary {body : QueueSql ι κ Unit} (hx : x.Idle)
    (h : ∀ y : QueueSnap ι κ, y.Idle → Body (contract g) allow (fun _ z => Work g none {} z) body y) :
    Holds (contract g) allow (fun _ _ => True) (Sql.retrying contended body (fun _ r => r) tries) x :=
  Holds.retrying (F := fun _ => True) (fun _ _ _ _ => trivial) (fun y hy _ => h y hy) (fun _ _ _ => trivial)
    (fun _ _ hw _ hl hc hi _ => ⟨(hw.later hl).kept_same hc hi, trivial⟩) tries hx trivial

omit [DecidableEq ι] in
theorem body_ensure (hx : x.Idle) : Body (contract g) allow (fun _ z => Work g none {} z) (ensure d) x := by
  refine Body.bind ((Work.of_idle hx).body_now fun y now hy hw => Body.bind (Body.insert fun z hz hc _ =>
    ⟨fun _ _ => Body.pure (hw.later hz), fun hnone => Body.pure ((hw.later hz).putSchedule fun _ => ?_)⟩))
  -- no row is locked yet, so there is no such schedule at all
  have hunlocked : z.held (.schedule d.key) = false := by
    rw [hz.held]
    show y.held _ = false
    rw [hy.held]
    exact hx.held _
  rw [← hc _ hunlocked, hnone]
  exact ⟨_, rfl, .inr ⟨rfl, rfl, rfl⟩⟩

theorem holds_program (b : Request ι κ) (hb : startable g b = true) (hx : x.Idle) :
    Holds (contract g) allow (fun _ _ => True) (program g b) x := by
  refine Holds.bind (Holds.mono (P := fun _ _ => True) ?_ fun _ _ _ => trivial)
  cases b with
  | transact ops tries => exact holds_ordinary hx fun y hy => (Work.of_idle hy).body_runOps hb
  | settle id generation ops transition tries => exact holds_ordinary hx fun y hy => body_settle hy hb
  | retry id hooks tries => exact Holds.mono (body_retry hx hb) fun _ _ _ => trivial
  | ensure d => exact holds_ordinary hx fun y hy => body_ensure hy
  | dispatch checkpoint tries =>
    refine Holds.mono (quiet_dispatchSchedules x hx) fun _ _ _ => trivial

def emptyTables (s : QueueShared ι κ) : Prop := s.rows = (fun _ => none) ∧ s.ghost = {}

/-- The machine: any requests the program makes, started at any time. -/
def queueMachine (g : Registry ι κ) :=
  machine (fun _ _ => true) emptyTables (program g) fun b _ => startable g b

omit [DecidableEq ι] in
theorem inv_of_empty {s : QueueShared ι κ} (h : emptyTables s) : Inv g s := by
  obtain ⟨hrows, hghost⟩ := h
  have hno : ∀ r, s.rows r = none := fun r => by rw [hrows]
  refine ⟨fun id t ht => ?_, fun id t k ht => ?_, fun c t p ht => ?_, fun d _ => ⟨?_, fun s' l hs' => ?_,
    fun id t ht => ?_⟩, fun a ha => ?_, by rw [hghost]⟩
  · rw [hno] at ht; cases ht
  · rw [hno] at ht; cases ht
  · rw [hno] at ht; cases ht
  · rw [hno, hghost]; rfl
  · rw [hno] at hs'; cases hs'
  · rw [hno] at ht; cases ht
  · rw [hghost] at ha; cases ha

/-- **The invariant holds in every reachable state**, and every step keeps the guarantee. -/
theorem queue_inv {cfg : Prog.Config (Db (Row.Value ι κ) Record) Nat _ Stmt.Reply}
    (h : (queueMachine g).lts.Reachable cfg) :
    Inv g cfg.state.toShared ∧ ∀ l cfg', (queueMachine g).lts.step cfg l = some cfg' →
      Guar cfg.state.toShared cfg'.state.toShared :=
  reachable_inv (c := contract g) (fun _ => inv_of_empty) (fun b _ hb _ hx => holds_program b hb hx) h

end SynapS3.Queue
