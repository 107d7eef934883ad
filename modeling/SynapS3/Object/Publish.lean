import SynapS3.Object.Commit

/-!
# `Object.Publish` — the operations that publish a version

Puts, copies and completions (`createVersionAndSetCurrent`), delete markers and restores. Where there is no
object to lock, the insert of the object row takes its place: it fails if another session was faster. A put
reads the clock after that, so its version is the newest; a delete marker reads it before, and is the newest
only if the run says so (`clockInOrder`).
-/

namespace SynapS3.Object

open ReadCommitted

variable {κ : Type} [DecidableEq κ] [VersionIDs] {strict writes : Bool} {k : κ} {base target : ObjectRows κ}
  {x : ObjectSnap κ} {allow : ObjectShared κ → ObjectShared κ → Bool} {P : Unit → ObjectSnap κ → Prop}

/-! ## Locking -/

/-- The object is locked, or there is none. -/
inductive Locked (k : κ) (x : ObjectSnap κ) : Prop where
  | object (o : Obj) (held : x.held (.object k) = true) (rows : x.rows (.object k) = some o)
  | absent (rows : x.rows (.object k) = none)

theorem body_lockObject (hx : Clean x) {P : Option Obj → ObjectSnap κ → Prop}
    (h : ∀ y, Clean y → Inv strict writes y.toShared → Guar writes x.toShared y.toShared →
      (y.rows (.object k) = none → P none y) ∧
      ∀ o, y.rows (.object k) = some o → y.held (.object k) = true → P (some o) y) :
    Body (contract strict writes) allow P (Sql.lock (Row.object k) : ObjectSql κ _) x := by
  refine Body.lock fun y hy hc hi => ?_
  have hclean := hx.later hy hc
  have hview : y.view (.object k) = y.rows (.object k) := congrFun hclean _
  rw [hview]
  exact ⟨fun hnone => (h y hclean hi hy.guar).1 hnone,
    fun o ho => (h (y.hold _) (hclean.hold _) hi hy.guar).2 o ho (Snap.hold_held_self ..)⟩

theorem body_lockCurrent (hx : Clean x)
    (h : ∀ y, Clean y → Inv strict writes y.toShared → Guar writes x.toShared y.toShared → Locked k y → P () y) :
    Body (contract strict writes) allow P (lockCurrentObjectIfExists k) x :=
  Body.bind (body_lockObject hx fun y hy hi hg =>
    ⟨fun hnone => Body.pure (h y hy hi hg (.absent hnone)),
      fun o ho hheld => Body.pure (h y hy hi hg (.object o hheld ho))⟩)

/-! ## Conditions -/

variable {conditions : List (Option (ObjectCondition κ))} {o : Obj} {n : Nat} {s : ObjectShared κ} {d : Draft κ}

omit [DecidableEq κ] [VersionIDs] in
theorem checkObjectConditions_nil (h : conditions.any (·.isSome) = false) (v : Option (Version κ)) :
    checkObjectConditions v conditions = none := by
  unfold checkObjectConditions
  rw [List.findSome?_eq_none_iff]
  intro c hc
  have hnone : c = none := by simpa using List.any_eq_false.mp h c hc
  rw [hnone]
  rfl

theorem body_checkConditions (hx : Clean x) (hi : Inv strict writes x.toShared)
    (h : ∀ y, Clean y → Later (contract strict writes) x y → Inv strict writes y.toShared →
      checkObjectConditions (selectCurrentVersionByBucketAndKey y.rows k) conditions = none → P () y) :
    Body (contract strict writes) allow P (checkCurrentObjectConditions k conditions) x := by
  unfold checkCurrentObjectConditions
  cases hany : conditions.any (·.isSome) with
  | false => exact Body.pure (h x hx (Later.refl _ _) hi (checkObjectConditions_nil hany _))
  | true =>
    refine Body.bind (Body.look fun y hy hc hiy => ?_)
    have hclean := hx.later hy hc
    have hview : y.view = y.rows := hclean
    dsimp only
    rw [hview]
    cases hcheck : checkObjectConditions (selectCurrentVersionByBucketAndKey y.rows k) conditions with
    | some err => exact Body.refuse
    | none => exact Body.pure (h y hclean hy hiy hcheck)

/-! ## Writing -/

variable {v : Version κ} {e : Entry κ} {rows : ObjectRows κ}

theorem Editing.body_insertVersion (he : Editing k base target x) (hk : v.key = k) (hseq : v.id < x.seq)
    (hclock : v.createdAt ≤ x.clock)
    (h : ∀ y, Editing k base (Function.update target (.version v.id) (some (some v))) y →
      (∀ w, w.key = k → base (.version v.id) ≠ some (some w)) → P () y) :
    Body (contract strict writes) allow P (insertObjectVersion v) x := by
  refine Body.bind (Body.insert fun y hy hc _ => ⟨fun w _ => Body.demand nofun, fun hnone => Body.demand fun _ => ?_⟩)
  have hey := he.later hy hc
  refine h _ (hey.insert_version hnone hk (Nat.lt_of_lt_of_le hseq hy.seq) (le_trans hclock hy.clock)) ?_
  intro w hw hbase
  -- the row was not there, so it was not there at the start either
  have hrows : y.rows (.version v.id) = some (some w) := (hey.rows.version _ w hw).mpr hbase
  cases hey.versions v.id with
  | same hs => rw [hnone, hrows] at hs; cases hs
  | added u held rows => rw [hrows] at rows; cases rows
  | removed u held rows view => rw [hnone] at view; cases view

variable {f : Obj → Option (Option Obj)} {y : ObjectSnap κ} {now : Int}

theorem Editing.body_updateObject (he : Editing k base target x) {w : Option Obj}
    (ho : target (.object k) = some o) (hf : f o = some w) {P : Bool → ObjectSnap κ → Prop}
    (h : ∀ y, Editing k base (Function.update target (.object k) w) y → P true y) :
    Body (contract strict writes) allow P (Sql.update (Row.object k) f : ObjectSql κ _) x := by
  refine Body.update fun y hy hc _ => ?_
  have hey := he.later hy hc
  have hview : (y.view (.object k)).bind f = some w := by
    rw [hey.view.object, ho]
    exact hf
  rw [hview]
  refine ⟨nofun, fun w' hw' => ?_⟩
  cases hw'
  exact h _ (hey.put_object w)

theorem publish_moves (hid : v.id = n)
    (htarget : ∀ m w, target (.version m) = some (some w) ↔ base (.version m) = some (some w))
    (hkey : v.key = k) (howner : ∀ m w, base (.version m) = some (some w) → w.key = k → w.objectID = v.objectID)
    (hnewest : strict = true → ∀ m w, base (.version m) = some (some w) → w.key = k → v.NotOlder w)
    (hfresh : ∀ w, w.key = k → base (.version n) ≠ some (some w)) (ho : o = ⟨v.objectID, some n⟩)
    (he : e.key = k ∧ e.after = some v ∧ ∀ m, e.published = some m → m = n)
    (hconditions : writes = true → checkObjectConditions (selectCurrentVersionByBucketAndKey base k) e.conditions = none)
    (hlive : e.op = .write → v.isDeleteMarker = false)
    (hkinds : writes = true → e.op = .write ∨ e.op = .deleteMarker) :
    Moves strict writes k base
      (Function.update (Function.update target (.version v.id) (some (some v))) (.object k) (some o)) e := by
  subst hid ho
  have hversions : ∀ m w, w.key = k →
      (Function.update (Function.update target (.version v.id) (some (some v))) (Row.object k)
          (some ⟨v.objectID, some v.id⟩) (.version m) = some (some w) ↔
        base (.version m) = some (some w) ∨ (m = v.id ∧ w = v)) := by
    intro m w hw
    rw [Function.update_of_ne (Row.version_ne_object m k)]
    by_cases hm : m = v.id
    · subst hm
      rw [Function.update_self]
      constructor
      · rintro h; cases h; exact .inr ⟨rfl, rfl⟩
      · rintro (h | ⟨-, rfl⟩)
        · exact absurd h (hfresh w hw)
        · rfl
    · have hne : Row.version m ≠ (Row.version v.id : Row κ) := by simpa using hm
      rw [Function.update_of_ne hne, htarget]
      simp [hm]
  obtain ⟨hinv, hcurrent⟩ := published_inv (Function.update_self ..) hversions hkey howner hnewest
  refine ⟨he.1, hinv, he.2.1.trans hcurrent.symm, fun _ _ => by rw [Function.update_self]; rfl, fun m hm => ?_,
    hconditions, fun hop => ⟨v, he.2.1, hlive hop⟩, hkinds⟩
  rw [he.2.2 m hm]
  exact ⟨v, hkey, (hversions _ v hkey).mpr (.inr ⟨rfl, rfl⟩), hfresh v hkey⟩

/-- What a transaction has done at its end: `e` is a true account of it. -/
def Done (strict writes : Bool) (e : Entry κ) (y : ObjectSnap κ) : Prop :=
  ∃ base target, Editing e.key base target y ∧ Moves strict writes e.key base target e

theorem Done.kept {z : ObjectSnap κ} (h : Done strict writes e y) (hl : Later (contract strict writes) y z)
    (hc : z.Coherent) (hi : Inv strict writes z.toShared) :
    Kept (contract strict writes) z (z.committed (Record.commit e)) := by
  obtain ⟨base, target, he, hm⟩ := h
  exact (he.later hl hc).kept_commit hi hm

theorem owned_of_object (h : KeyInv strict rows k) (ho : rows (.object k) = some o) (m : Nat) (w : Version κ)
    (hw : rows (.version m) = some (some w)) (hk : w.key = k) : w.objectID = o.id := by
  obtain ⟨o', ho', hid⟩ := h.owned m w hw hk
  rw [ho] at ho'
  cases ho'
  exact hid

theorem no_version_of_absent (h : KeyInv strict rows k) (ho : rows (.object k) = none) (m : Nat) (w : Version κ)
    (hk : w.key = k) : rows (.version m) ≠ some (some w) := by
  intro hw
  obtain ⟨o, ho', -⟩ := h.owned m w hw hk
  rw [ho] at ho'
  cases ho'

/-- **The end of a publication**: the version is inserted and the object pointed at it. -/
theorem Editing.body_publish (he : Editing k base target x)
    (htarget : ∀ m w, target (.version m) = some (some w) ↔ base (.version m) = some (some w))
    (hobject : target (.object k) = some o) (hid : v.id = n) (hkey : v.key = k) (howner : v.objectID = o.id)
    (hseq : n < x.seq) (hclock : v.createdAt ≤ x.clock)
    (howned : ∀ m w, base (.version m) = some (some w) → w.key = k → w.objectID = o.id)
    (hnewest : strict = true → ∀ m w, base (.version m) = some (some w) → w.key = k → v.NotOlder w)
    (hentry : e.key = k ∧ e.after = some v ∧ ∀ m, e.published = some m → m = n)
    (hconditions : writes = true → checkObjectConditions (selectCurrentVersionByBucketAndKey base k) e.conditions = none)
    (hlive : e.op = .write → v.isDeleteMarker = false)
    (hkinds : writes = true → e.op = .write ∨ e.op = .deleteMarker) (hf : f o = some (some ⟨o.id, some n⟩))
    {α : Type} {rest : Bool → ObjectSql κ α} {P : α → ObjectSnap κ → Prop}
    (hrest : ∀ y, Done strict writes e y → Body (contract strict writes) allow P (rest true) y) :
    Body (contract strict writes) allow P (do
      insertObjectVersion v
      let moved ← Sql.update (Row.object k) f
      rest moved) x := by
  subst hid
  refine Body.bind (he.body_insertVersion hkey hseq hclock fun y hey hfresh => ?_)
  have hobject' : Function.update target (.version v.id) (some (some v)) (Row.object k) = some o := by
    rw [Function.update_of_ne (Row.object_ne_version k v.id)]
    exact hobject
  refine Body.bind (hey.body_updateObject hobject' hf fun z hez => hrest z ?_)
  have hmoves := publish_moves (o := ⟨o.id, some v.id⟩) rfl htarget hkey (by rw [howner]; exact howned) hnewest hfresh
    (by rw [howner]) hentry hconditions hlive hkinds
  obtain ⟨rfl, -, -⟩ := hentry
  exact ⟨base, _, hez, hmoves⟩

theorem body_insertObject (hx : Clean x) {P : Nat → ObjectSnap κ → Prop}
    (h : ∀ y id, Editing k y.rows (Function.update y.rows (.object k) (some ⟨id, none⟩)) y →
      y.rows (.object k) = none → Inv strict writes y.toShared → Guar writes x.toShared y.toShared → P id y) :
    Body (contract strict writes) allow P (insertObject k) x := by
  refine Body.bind (Body.nextval fun y hy hc _ => ?_)
  have hcleany := hx.later hy hc
  have hclean : Clean { y with seq := y.seq + 1 } := hcleany
  refine Body.bind (Body.insert fun z hz hcz hiz => ?_)
  have hcleanz := hclean.later hz hcz
  refine ⟨fun o _ => Body.bind (Body.demand nofun), fun hnone => Body.bind (Body.demand fun _ => Body.pure ?_)⟩
  have hrows : z.rows (.object k) = none := (congrFun hcleanz _).symm.trans hnone
  have hstep : Guar writes y.toShared { y with seq := y.seq + 1 }.toShared :=
    ⟨List.prefix_refl _, fun _ h => h, fun _ _ _ h => h, fun _ _ h => h, le_refl _, Nat.le_succ _⟩
  exact h _ _ (Editing.insert_object hcleanz _) hrows hiz ((Guar.trans hy.guar hstep).trans hz.guar)

omit [DecidableEq κ] [VersionIDs] in
theorem guar_clock {t : Int} (ht : y.clock < t) : Guar writes y.toShared { y with clock := t }.toShared :=
  ⟨List.prefix_refl _, fun _ h => h, fun _ _ _ h => h, fun _ _ h => h, le_of_lt ht, le_refl _⟩

omit [DecidableEq κ] [VersionIDs] in
theorem absent_before {t : ObjectShared κ} (hg : Guar writes s t) (hw : writes = true)
    (h : t.rows (.object k) = none) : s.rows (.object k) = none := by
  cases ho : s.rows (.object k) with
  | none => rfl
  | some o =>
    have hsome := hg.objects hw k (by rw [ho]; rfl)
    rw [h] at hsome
    cases hsome

/-! ## Puts, copies and completions -/

theorem body_createVersion_new (hx : Clean x) (hseq : n < x.seq)
    (hcheck : checkObjectConditions (selectCurrentVersionByBucketAndKey x.rows d.key) conditions = none) :
    Body (contract strict writes) allow
      (fun v y => Done strict writes ⟨.write, d.key, some n, conditions, some v⟩ y)
      (createVersionAndSetCurrentFromExisting d n none) x := by
  refine Body.bind (Body.now fun y hy hc _ now hnow => ?_)
  have hcleany := hx.later hy hc
  have hclean : Clean { y with clock := now } := hcleany
  refine Body.bind (body_insertObject hclean fun z id he hnone hi hg => ?_)
  have hguar : Guar writes x.toShared z.toShared := (Guar.trans hy.guar (guar_clock hnow)).trans hg
  have hempty := no_version_of_absent (hi.keys d.key) hnone
  refine he.body_publish (o := ⟨id, none⟩) (fun m w => ?_) (Function.update_self ..) rfl rfl rfl
    (Nat.lt_of_lt_of_le hseq hguar.seq) hg.clock (fun m w hw hk => absurd hw (hempty m w hk))
    (fun _ m w hw hk => absurd hw (hempty m w hk)) ⟨rfl, rfl, fun m hm => (Option.some.inj hm).symm⟩ (fun hw => ?_)
    (fun _ => rfl) (fun _ => .inl rfl) (if_pos rfl) fun u hu => Body.pure hu
  · rw [Function.update_of_ne (Row.version_ne_object m d.key)]
  · -- the condition was checked when there was no object either
    rw [selectCurrent_none (absent_before hguar hw hnone)] at hcheck
    rw [selectCurrent_none hnone]
    exact hcheck

theorem body_createVersion_existing (hx : Clean x) (hi : Inv strict writes x.toShared) (hseq : n < x.seq)
    (hheld : x.held (.object d.key) = true) (ho : x.rows (.object d.key) = some o)
    (hcheck : checkObjectConditions (selectCurrentVersionByBucketAndKey x.rows d.key) conditions = none) :
    Body (contract strict writes) allow
      (fun v y => Done strict writes ⟨.write, d.key, some n, conditions, some v⟩ y)
      (createVersionAndSetCurrentFromExisting d n (some o)) x := by
  refine Body.bind (Body.now fun y hy hc hiy now hnow => ?_)
  have he := ((Editing.of_clean hx hheld).later hy hc).tick (le_of_lt hnow)
  refine he.body_publish (fun _ _ => Iff.rfl) ho rfl rfl rfl (Nat.lt_of_lt_of_le hseq hy.seq) (le_refl _)
    (owned_of_object (hi.keys d.key) ho) (fun _ m w hw hk => .inl ?_)
    ⟨rfl, rfl, fun m hm => (Option.some.inj hm).symm⟩ (fun _ => hcheck) (fun _ => rfl) (fun _ => .inl rfl)
    (if_pos rfl) fun u hu => Body.pure hu
  -- every version of the key was there before the clock was read
  exact lt_of_le_of_lt (le_trans (hi.rows m w hw).2.2 hy.clock) hnow

theorem body_createVersion (hx : Clean x) (hseq : n < x.seq) : Body (contract strict writes) allow
      (fun v y => Done strict writes ⟨.write, d.key, some n, conditions, some v⟩ y)
      (createVersionAndSetCurrent d n conditions) x := by
  refine Body.bind (body_lockCurrent hx fun y hy _ hg _ => ?_)
  refine Body.bind (body_lockObject hy fun z hz hiz hgz => ?_)
  have hseqz : n < z.seq := Nat.lt_of_lt_of_le hseq (le_trans hg.seq hgz.seq)
  refine ⟨fun _ => ?_, fun o ho hheld => ?_⟩
  · refine Body.bind (body_checkConditions hz hiz fun u hu hl _ hcheck => ?_)
    exact body_createVersion_new hu (Nat.lt_of_lt_of_le hseqz hl.seq) hcheck
  · refine Body.bind (body_checkConditions hz hiz fun u hu hl hiu hcheck => ?_)
    exact body_createVersion_existing hu hiu (Nat.lt_of_lt_of_le hseqz hl.seq) (by rw [hl.held]; exact hheld)
      ((hl.rows _ (.inl hheld)).trans ho) hcheck

/-! ## Delete markers -/

/-- The object is locked or inserted, and the marker, with ID `n`, can be published. -/
structure Prepared (strict writes : Bool) (k : κ) (n : Nat) (conditions : List (Option (ObjectCondition κ)))
    (created : Option Int) (target : Nat × Int) (base rows : ObjectRows κ) (o : Obj) (y : ObjectSnap κ) : Prop where
  editing : Editing k base rows y
  versions : ∀ m w, rows (.version m) = some (some w) ↔ base (.version m) = some (some w)
  object : rows (.object k) = some o
  owner : target.1 = o.id
  owned : ∀ m w, base (.version m) = some (some w) → w.key = k → w.objectID = o.id
  older : strict = true → ∀ m w, base (.version m) = some (some w) → w.key = k → w.createdAt < created.getD target.2
  conditions : writes = true → checkObjectConditions (selectCurrentVersionByBucketAndKey base k) conditions = none
  clock : created.getD target.2 ≤ y.clock
  seq : n < y.seq

theorem Inv.note (h : Inv strict writes s) (markers : List (κ × Int)) :
    Inv strict writes { s with ghost := { s.ghost with markers := markers } } :=
  ⟨h.keys, h.rows, ⟨h.log.current, h.log.used, h.log.once, h.log.answered, h.log.live, h.log.kinds,
    h.log.conditions⟩⟩

omit [DecidableEq κ] [VersionIDs] in
theorem Guar.note (s : ObjectShared κ) (markers : List (κ × Int)) :
    Guar writes s { s with ghost := { s.ghost with markers := markers } } :=
  ⟨List.prefix_refl _, fun _ h => h, fun _ _ _ h => h, fun _ _ h => h, le_refl _, le_refl _⟩

theorem older_of_allowed {created : Int} (hi : Inv strict writes s)
    (h : allowed strict s { s with ghost := { s.ghost with markers := (k, created) :: s.ghost.markers } } = true)
    (hstrict : strict = true) (m : Nat) (w : Version κ) (hw : s.rows (.version m) = some (some w))
    (hk : w.key = k) : w.createdAt < created := by
  subst hstrict
  have hall : (List.range s.seq).all (fun n => (ObjectRows.version s.rows n).all
      fun v => v.key ≠ k || v.createdAt < created) = true := by
    simpa [allowed, clockInOrder] using h
  have hm := List.all_eq_true.mp hall m (List.mem_range.mpr (hi.rows m w hw).2.1)
  rw [version_eq_some.mpr hw] at hm
  simpa [hk] using hm

theorem body_noteMarker (hx : Clean x) {created : Int}
    (h : ∀ y, Clean y → Inv strict writes y.toShared → Guar writes x.toShared y.toShared → y.held = x.held →
      (∀ r, x.held r = true → y.rows r = x.rows r) →
      (strict = true → ∀ m w, y.rows (.version m) = some (some w) → w.key = k → w.createdAt < created) → P () y) :
    Body (contract strict writes) (allowed strict) P
      (Sql.note fun record => { record with markers := (k, created) :: record.markers } : ObjectSql κ Unit) x := by
  refine Body.note fun y hy hc hi hallow => ⟨⟨hi.note _, Guar.note _ _⟩, ?_⟩
  have hclean := hx.later hy hc
  have holder := older_of_allowed (show Inv strict writes y.toShared from hi) hallow
  exact h { y with ghost := { y.ghost with markers := (k, created) :: y.ghost.markers } } hclean (hi.note _)
    (Guar.trans hy.guar (Guar.note _ _)) hy.held (fun r hr => hy.rows r (.inl hr)) holder

theorem body_prepareMarker_new {created : Option Int} (hx : Clean x) (hseq : n < x.seq)
    (hclock : created.getD now ≤ x.clock)
    (hcheck : checkObjectConditions (selectCurrentVersionByBucketAndKey x.rows k) conditions = none) :
    Body (contract strict writes) allow
      (fun target y => ∃ base rows o, Prepared strict writes k n conditions created target base rows o y)
      (do let id ← insertObject k
          pure (id, now)) x := by
  refine Body.bind (body_insertObject hx fun y id he hnone hi hg => Body.pure ?_)
  have hempty := no_version_of_absent (hi.keys k) hnone
  refine ⟨_, _, ⟨id, none⟩, he, fun m w => ?_, Function.update_self .., rfl,
    fun m w hw hk => absurd hw (hempty m w hk), fun _ m w hw hk => absurd hw (hempty m w hk), fun hw => ?_,
    le_trans hclock hg.clock, Nat.lt_of_lt_of_le hseq hg.seq⟩
  · rw [Function.update_of_ne (Row.version_ne_object m k)]
  · rw [selectCurrent_none (absent_before hg hw hnone)] at hcheck
    rw [selectCurrent_none hnone]
    exact hcheck

/-- With the object locked: the marker is as new as the condition on runs says. -/
theorem body_prepareMarker_existing {created : Option Int} (hx : Clean x) (hi : Inv strict writes x.toShared)
    (hseq : n < x.seq) (hclock : created.getD now ≤ x.clock) (hheld : x.held (.object k) = true)
    (ho : x.rows (.object k) = some o)
    (holder : strict = true → ∀ m w, x.rows (.version m) = some (some w) → w.key = k → w.createdAt < created.getD now)
    (hcheck : checkObjectConditions (selectCurrentVersionByBucketAndKey x.rows k) conditions = none) :
    Body (contract strict writes) allow
      (fun target y => ∃ base rows o, Prepared strict writes k n conditions created target base rows o y)
      (do let _ ← setCurrentVersion k o.id o.currentVersionID
          pure (o.id, now)) x := by
  refine Body.bind (Body.update fun y hy hc _ => ?_)
  have he := (Editing.of_clean hx hheld).later hy hc
  have hview : y.view (.object k) = some o := he.view.object.trans ho
  rw [hview]
  refine ⟨fun h => by simp at h, fun w hw => ?_⟩
  have hw' : some o = w := by simpa using hw
  subst hw'
  refine Body.pure ⟨_, _, o, he.put_object (some o), fun m w => ?_, Function.update_self .., rfl,
    owned_of_object (hi.keys k) ho, holder, fun _ => hcheck, le_trans hclock hy.clock,
    Nat.lt_of_lt_of_le hseq hy.seq⟩
  rw [Function.update_of_ne (Row.version_ne_object m k)]

theorem body_prepareDeleteMarker {created : Option Int} (hx : Clean x) (hseq : n < x.seq)
    (hcreated : ∀ t, created = some t → t ≤ x.clock) :
    Body (contract strict writes) (allowed strict)
      (fun target y => ∃ base rows o, Prepared strict writes k n conditions created target base rows o y)
      (prepareDeleteMarker k conditions created) x := by
  refine Body.bind (Body.now fun y hy hc _ now hnow => ?_)
  have hcleany := hx.later hy hc
  have hclean : Clean { y with clock := now } := hcleany
  have hclock : created.getD now ≤ now := by
    cases hcr : created with
    | none => exact le_refl _
    | some t => exact le_trans (hcreated t hcr) (le_trans hy.clock (le_of_lt hnow))
  have hseqy : n < y.seq := Nat.lt_of_lt_of_le hseq hy.seq
  refine Body.bind (body_lockCurrent hclean fun u hu _ hgu _ => ?_)
  refine Body.bind (body_lockObject hu fun z hz hiz hgz => ?_)
  refine ⟨fun _ => ?_, fun o ho hheld => ?_⟩
  · refine Body.bind (body_noteMarker hz fun v hv hiv hgv _ _ _ => ?_)
    refine Body.bind (body_checkConditions hv hiv fun w hw hl _ hcheck => ?_)
    have hg : Guar writes { y with clock := now }.toShared w.toShared := ((hgu.trans hgz).trans hgv).trans hl.guar
    exact body_prepareMarker_new hw (Nat.lt_of_lt_of_le hseqy hg.seq) (le_trans hclock hg.clock) hcheck
  · refine Body.bind (body_noteMarker hz fun v hv hiv hgv hvheld hvrows hvold => ?_)
    refine Body.bind (body_checkConditions hv hiv fun w hw hl hiw hcheck => ?_)
    have hg : Guar writes { y with clock := now }.toShared w.toShared := ((hgu.trans hgz).trans hgv).trans hl.guar
    have hheldv : v.held (.object k) = true := by rw [hvheld]; exact hheld
    have hsame : SameKey k w.rows v.rows := Later.sameKey hl hheldv
    refine body_prepareMarker_existing hw hiw (Nat.lt_of_lt_of_le hseqy hg.seq) (le_trans hclock hg.clock)
      (by rw [hl.held]; exact hheldv) ?_ (fun hstrict m u hmu hk => ?_) hcheck
    · rw [hl.rows _ (.inl hheldv), hvrows _ hheld, ho]
    · exact hvold hstrict m u ((hsame.version m u hk).mp hmu) hk

theorem body_publishDeleteMarker {created : Option Int} {at' : Nat × Int}
    (h : Prepared strict writes k n conditions created at' base rows o x) :
    Body (contract strict writes) allow
      (fun v y => Done strict writes ⟨.deleteMarker, k, some n, conditions, some v⟩ y)
      (publishDeleteMarker k n created at') x := by
  refine h.editing.body_publish h.versions h.object rfl rfl h.owner h.seq h.clock h.owned
    (fun hstrict m w hw hk => .inl (h.older hstrict m w hw hk)) ⟨rfl, rfl, fun m hm => (Option.some.inj hm).symm⟩
    h.conditions (fun hop => by cases hop) (fun _ => .inr rfl) (if_pos h.owner.symm) fun u hu => Body.pure hu

/-! ## Restores -/

/-- The version was published, and is not one of key `k` any more. -/
structure Dead (k : κ) (n : Nat) (s : ObjectShared κ) : Prop where
  used : (s.rows (.version n)).isSome = true
  key : ∀ v, s.rows (.version n) = some (some v) → v.key ≠ k

omit [DecidableEq κ] [VersionIDs] in
theorem Dead.guar {t : ObjectShared κ} (h : Dead k n s) (hg : Guar writes s t) : Dead k n t :=
  ⟨hg.used n h.used, fun v hv => h.key v (hg.alive n v h.used hv)⟩

theorem Dead.of_absent (hi : Inv strict writes s) (hnone : s.rows (.object k) = none)
    (hused : (s.rows (.version n)).isSome = true) : Dead k n s :=
  ⟨hused, fun v hv hk => no_version_of_absent (hi.keys k) hnone n v hk hv⟩

omit [VersionIDs] in
theorem Dead.selectVersion (h : Dead k n s) : selectVersionByBucketKeyAndID s.rows k n = none := by
  cases hv : selectVersionByBucketKeyAndID s.rows k n with
  | none => rfl
  | some v =>
    obtain ⟨hrow, hk⟩ := selectVersion_eq_some.mp hv
    exact absurd hk (h.key v hrow)

theorem body_look (hx : Clean x) {P : ObjectRows κ × Nat → ObjectSnap κ → Prop}
    (h : ∀ y, Clean y → Inv strict writes y.toShared → Later (contract strict writes) x y →
      P (y.rows, y.seq) y) :
    Body (contract strict writes) allow P (Sql.look : ObjectSql κ _) x := by
  refine Body.look fun y hy hc hi => ?_
  have hclean := hx.later hy hc
  rw [show y.view = y.rows from hclean]
  exact h y hclean hi hy

theorem body_restore {source expected : Nat} {served : Bool} (hwrites : writes = false) (hx : Clean x)
    (hseq : n < x.seq) (hsource : (x.rows (.version source)).isSome = true) :
    Body (contract strict writes) allow
      (fun v y => Done strict writes ⟨.restore, d.key, some n, [], some v⟩ y)
      (createRestoredVersionAndSetCurrent d n source expected served) x := by
  refine Body.bind (body_lockCurrent hx fun y hy hiy hgy hlocked => ?_)
  refine Body.bind (body_look hy fun z hz hiz hlz => ?_)
  refine Body.bind (Body.orRefuse fun src hsrc => ?_)
  cases hlocked with
  | absent hnone =>
    have hdead := (Dead.of_absent hiy hnone (hgy.used source hsource)).guar hlz.guar
    rw [hdead.selectVersion] at hsrc
    cases hsrc
  | object o hheld ho =>
    have hheldz : z.held (.object d.key) = true := by rw [hlz.held]; exact hheld
    have hoz : z.rows (.object d.key) = some o := (hlz.rows _ (.inl hheld)).trans ho
    refine Body.bind (Body.demand fun _ => ?_)
    refine Body.bind (body_look hz fun u hu hiu hlu => ?_)
    have hheldu : u.held (.object d.key) = true := by rw [hlu.held]; exact hheldz
    have hou : u.rows (.object d.key) = some o := (hlu.rows _ (.inl hheldz)).trans hoz
    refine Body.bind (Body.orRefuse fun current hcurrent => ?_)
    refine Body.bind (Body.demand fun hsame => ?_)
    refine Body.bind (Body.demand fun _ => ?_)
    obtain ⟨hexpected, howner⟩ : current.id = expected ∧ current.objectID = src.objectID := by
      simpa using hsame
    obtain ⟨o', m, ho', hm, hrow, hkey, hid⟩ := selectCurrent_eq_some.mp hcurrent
    rw [hou] at ho'
    cases ho'
    have hpointer : o.currentVersionID = some expected := by
      rw [hm, ← hexpected, (hiu.rows m current hrow).1]
    refine Body.bind (Body.now fun w hw hcw _ now hnow => ?_)
    have he := ((Editing.of_clean hu hheldu).later hw hcw).tick (le_of_lt hnow)
    have hguar : Guar writes x.toShared w.toShared :=
      ((hgy.trans hlz.guar).trans (show Guar writes _ _ from hlu.guar)).trans hw.guar
    have hmove : (if o.id = src.objectID ∧ o.currentVersionID = some expected then
        some (some { o with currentVersionID := some n }) else none) = some (some (⟨o.id, some n⟩ : Obj)) :=
      if_pos ⟨hid.symm.trans howner, hpointer⟩
    refine he.body_publish (v := d.version n src.objectID now) (n := n)
      (e := ⟨.restore, d.key, some n, [], some (d.version n src.objectID now)⟩) (fun _ _ => Iff.rfl) hou rfl rfl
      (howner.symm.trans hid) (Nat.lt_of_lt_of_le hseq hguar.seq) (le_refl _) (owned_of_object (hiu.keys d.key) hou)
      (fun _ m w' hw' hk => .inl ?_) ⟨rfl, rfl, fun m hm => (Option.some.inj hm).symm⟩ (fun h => ?_)
      (fun hop => by cases hop) (fun h => ?_) hmove fun v hv => ?_
    · exact lt_of_le_of_lt (le_trans (hiu.rows m w' hw').2.2 hw.clock) hnow
    · rw [hwrites] at h; cases h
    · rw [hwrites] at h; cases h
    · exact Body.bind (Body.demand fun _ => Body.pure hv)

end SynapS3.Object
