import SynapS3.Object.Repo

/-!
# `Object.Invariant` — what every committed state of the object tables satisfies

`KeyInv` is about the rows of one key: the object row exists while the key has a version, and points at one of
them, which is the newest (`newest`). The last part is conditional: it only holds in runs that leave out a
delete marker whose time is older than a version of its key (`clockInOrder`).

A transaction writes the rows of one key, with the object row locked. `Editing` follows it: what the rows of
the key were when it took the lock (`base`) and what it has made of them (`target`). The others cannot touch
either, because every version is guarded by the object of its key (`contract`). What is left to show for an
operation is then about two tables of rows only (`Moves`).
-/

namespace SynapS3.Object

open ReadCommitted

variable {κ : Type} [DecidableEq κ]

/-! ## Reading rows -/

variable {rows : ObjectRows κ} {v : Version κ} {k : κ} {n : Nat}

omit [DecidableEq κ] in
theorem version_eq_some : rows.version n = some v ↔ rows (.version n) = some (some v) := Option.join_eq_some_iff

theorem selectVersion_eq_some :
    selectVersionByBucketKeyAndID rows k n = some v ↔ rows (.version n) = some (some v) ∧ v.key = k := by
  unfold selectVersionByBucketKeyAndID
  rw [Option.filter_eq_some_iff, version_eq_some, decide_eq_true_eq]

theorem selectCurrent_eq_some : selectCurrentVersionByBucketAndKey rows k = some v ↔
      ∃ o n, rows (.object k) = some o ∧ o.currentVersionID = some n ∧ rows (.version n) = some (some v) ∧
        v.key = k ∧ v.objectID = o.id := by
  unfold selectCurrentVersionByBucketAndKey
  simp only [Option.bind_eq_some_iff, Option.filter_eq_some_iff, version_eq_some, decide_eq_true_eq]
  constructor
  · rintro ⟨o, ho, n, hn, hv, hk, hid⟩
    exact ⟨o, n, ho, hn, hv, hk, hid⟩
  · rintro ⟨o, n, ho, hn, hv, hk, hid⟩
    exact ⟨o, ho, n, hn, hv, hk, hid⟩

theorem mem_versionsOf {seq : Nat} {objectID : Nat} : v ∈ versionsOf rows seq k objectID ↔
      ∃ n, n < seq ∧ rows (.version n) = some (some v) ∧ v.key = k ∧ v.objectID = objectID := by
  unfold versionsOf
  simp only [List.mem_filterMap, List.mem_range, Option.filter_eq_some_iff, version_eq_some, decide_eq_true_eq]

/-- The two tables have the same rows of the key. -/
structure SameKey (k : κ) (a b : ObjectRows κ) : Prop where
  object : a (.object k) = b (.object k)
  version : ∀ n v, v.key = k → (a (.version n) = some (some v) ↔ b (.version n) = some (some v))

omit [DecidableEq κ] in
theorem SameKey.refl (k : κ) (a : ObjectRows κ) : SameKey k a a := ⟨rfl, fun _ _ _ => Iff.rfl⟩

variable {a b : ObjectRows κ}

omit [DecidableEq κ] in
theorem SameKey.symm (h : SameKey k a b) : SameKey k b a :=
  ⟨h.object.symm, fun n v hv => (h.version n v hv).symm⟩

omit [DecidableEq κ] in
theorem SameKey.trans {c : ObjectRows κ} (h : SameKey k a b) (h' : SameKey k b c) : SameKey k a c :=
  ⟨h.object.trans h'.object, fun n v hv => (h.version n v hv).trans (h'.version n v hv)⟩

theorem SameKey.selectCurrent (h : SameKey k a b) :
    selectCurrentVersionByBucketAndKey a k = selectCurrentVersionByBucketAndKey b k := by
  ext v
  rw [selectCurrent_eq_some, selectCurrent_eq_some, h.object]
  constructor
  · rintro ⟨o, n, ho, hn, hv, hk, hid⟩; exact ⟨o, n, ho, hn, (h.version n v hk).mp hv, hk, hid⟩
  · rintro ⟨o, n, ho, hn, hv, hk, hid⟩; exact ⟨o, n, ho, hn, (h.version n v hk).mpr hv, hk, hid⟩

/-! ## The invariant -/

section

variable [VersionIDs]

/-- What holds of the rows of one key; that the current version is the newest only if `strict`. -/
structure KeyInv (strict : Bool) (rows : ObjectRows κ) (k : κ) : Prop where
  owned : ∀ n v, rows (.version n) = some (some v) → v.key = k →
    ∃ o, rows (.object k) = some o ∧ v.objectID = o.id
  current : ∀ o, rows (.object k) = some o → ∃ v, selectCurrentVersionByBucketAndKey rows k = some v
  newest : strict = true → ∀ cur, selectCurrentVersionByBucketAndKey rows k = some cur →
    ∀ n v, rows (.version n) = some (some v) → v.key = k → cur.NotOlder v

theorem KeyInv.congr {strict : Bool} (hs : SameKey k a b) (h : KeyInv strict a k) : KeyInv strict b k where
  owned n v hv hk := by
    rw [← hs.object]
    exact h.owned n v ((hs.version n v hk).mpr hv) hk
  current o ho := by
    rw [← hs.selectCurrent]
    exact h.current o (hs.object.trans ho)
  newest hstrict cur hcur n v hv hk := by
    rw [← hs.selectCurrent] at hcur
    exact h.newest hstrict cur hcur n v ((hs.version n v hk).mpr hv) hk

/-- What holds of the record: it says which version is current, and no version was published twice. With
    `writes`, where objects are never deleted, every commit found its conditions true. -/
structure LogInv (writes : Bool) (rows : ObjectRows κ) (record : Record κ) : Prop where
  current : ∀ k, left record.log k = selectCurrentVersionByBucketAndKey rows k
  used : ∀ e ∈ record.log, ∀ n, e.published = some n → (rows (.version n)).isSome = true
  once : (record.log.filterMap (·.published)).Nodup
  answered : ∀ n ∈ record.answered, ∃ e ∈ record.log, e.published = some n
  live : ∀ e ∈ record.log, e.op = .write → ∃ v, e.after = some v ∧ v.isDeleteMarker = false
  kinds : writes = true → ∀ e ∈ record.log, e.op = .write ∨ e.op = .deleteMarker
  conditions : writes = true → ∀ pre e post, record.log = pre ++ e :: post →
    checkObjectConditions (left pre e.key) e.conditions = none

/-- The invariant of the object tables: per key, per version row, and of the log of commits. -/
structure Inv (strict writes : Bool) (s : ObjectShared κ) : Prop where
  keys : ∀ k, KeyInv strict s.rows k
  rows : ∀ n v, s.rows (.version n) = some (some v) → v.id = n ∧ n < s.seq ∧ v.createdAt ≤ s.clock
  log : LogInv writes s.rows s.ghost

end

/-- What every step does: commits are added to the record, and a version that was published and deleted does
    not come back. With `writes`, objects stay. -/
structure Guar (writes : Bool) (s t : ObjectShared κ) : Prop where
  log : s.ghost.log <+: t.ghost.log
  used : ∀ n, (s.rows (.version n)).isSome = true → (t.rows (.version n)).isSome = true
  alive : ∀ n v, (s.rows (.version n)).isSome = true → t.rows (.version n) = some (some v) →
    s.rows (.version n) = some (some v)
  objects : writes = true → ∀ k, (s.rows (.object k)).isSome = true → (t.rows (.object k)).isSome = true
  clock : s.clock ≤ t.clock
  seq : s.seq ≤ t.seq

omit [DecidableEq κ] in
theorem Guar.refl (writes : Bool) (s : ObjectShared κ) : Guar writes s s :=
  ⟨List.prefix_refl _, fun _ h => h, fun _ _ _ h => h, fun _ _ h => h, le_refl _, le_refl _⟩

omit [DecidableEq κ] in
theorem Guar.trans {writes : Bool} {s t u : ObjectShared κ} (h : Guar writes s t) (h' : Guar writes t u) :
    Guar writes s u :=
  ⟨h.log.trans h'.log, fun n hn => h'.used n (h.used n hn),
    fun n v hn hv => h.alive n v hn (h'.alive n v (h.used n hn) hv),
    fun hw k hk => h'.objects hw k (h.objects hw k hk), le_trans h.clock h'.clock, le_trans h.seq h'.seq⟩

/-- The contract: a version is written with the object of its key locked. -/
def contract [VersionIDs] (strict writes : Bool) : Contract (Row.Value (κ := κ)) (Record κ) where
  inv := Inv strict writes
  guar := Guar writes
  guards
    | .version _, some v, q => q = .object v.key
    | .version _, none, _ => False
    | .object _, _, _ => False
  refl := Guar.refl writes
  trans _ _ _ := Guar.trans
  tick s clock seq hclock hseq h :=
    ⟨⟨h.keys, fun n v hv => by
        obtain ⟨hid, hn, ht⟩ := h.rows n v hv
        exact ⟨hid, Nat.lt_of_lt_of_le hn hseq, le_trans ht hclock⟩, h.log⟩,
      ⟨List.prefix_refl _, fun _ h => h, fun _ _ _ h => h, fun _ _ h => h, hclock, hseq⟩⟩

/-- **The condition on runs**: when a delete marker's transaction has locked the object, or found none, no
    version of the key is as new as the time that the marker is going to have. -/
def clockInOrder (s t : ObjectShared κ) : Bool :=
  match t.ghost.markers with
  | [] => true
  | (k, created) :: rest =>
    rest.length != s.ghost.markers.length ||
      (List.range s.seq).all fun n => (ObjectRows.version s.rows n).all fun v => v.key ≠ k || v.createdAt < created

/-- The steps of a run: with `strict`, those that meet the condition. -/
def allowed (strict : Bool) (s t : ObjectShared κ) : Bool := !strict || clockInOrder s t

/-! ## A transaction at work on one key -/

/-- What the session has done to a version. -/
inductive Touched (k : κ) (x : ObjectSnap κ) (n : Nat) : Prop where
  | same (h : x.view (.version n) = x.rows (.version n))
  | added (v : Version κ) (held : x.held (.version n) = true) (rows : x.rows (.version n) = none)
      (view : x.view (.version n) = some (some v)) (key : v.key = k) (id : v.id = n) (seq : n < x.seq)
      (clock : v.createdAt ≤ x.clock)
  | removed (v : Version κ) (held : x.held (.version n) = true) (rows : x.rows (.version n) = some (some v))
      (view : x.view (.version n) = some none) (key : v.key = k)

/-- The session has locked the object of `k`, whose rows were `base`, and has made `target` of them. -/
structure Editing (k : κ) (base target : ObjectRows κ) (x : ObjectSnap κ) : Prop where
  held : x.held (.object k) = true
  rows : SameKey k x.rows base
  view : SameKey k x.view target
  objects : ∀ k', k' ≠ k → x.view (.object k') = x.rows (.object k')
  versions : ∀ n, Touched k x n

def Clean (x : ObjectSnap κ) : Prop := x.view = x.rows

section Others

variable [VersionIDs] {strict writes : Bool} {x y : ObjectSnap κ}

theorem Clean.later (h : Clean x) (hl : Later (contract strict writes) x y) (hc : y.Coherent) : Clean y := by
  funext r
  by_cases hr : x.held r = true
  · rw [hl.view r hr, hl.rows r (.inl hr)]
    exact congrFun h r
  · exact hc r (by rw [hl.held]; simpa using hr)

omit [DecidableEq κ] [VersionIDs] in
theorem Clean.of_idle (h : x.Idle) : Clean x := h.view

omit [VersionIDs] in
theorem Clean.hold (h : Clean x) (r : Row κ) : Clean (x.hold r) := h

theorem Later.sameKey (hl : Later (contract strict writes) x y) (hheld : x.held (.object k) = true) :
    SameKey k y.rows x.rows := by
  refine ⟨hl.rows _ (.inl hheld), fun n v hk => ?_⟩
  have hguard : (contract (κ := κ) strict writes).guards (.version n) (some v) (.object k) := by
    show Row.object k = Row.object v.key
    rw [hk]
  constructor
  · intro hv; rw [← hl.guarded _ (some v) _ (.inr hv) hguard hheld]; exact hv
  · intro hv; rw [hl.guarded _ (some v) _ (.inl hv) hguard hheld]; exact hv

theorem Touched.later {n : Nat} (h : Touched k x n) (hl : Later (contract strict writes) x y)
    (hc : y.Coherent) : Touched k y n := by
  cases h with
  | same h =>
    by_cases hr : x.held (.version n) = true
    · exact .same (by rw [hl.view _ hr, hl.rows _ (.inl hr), h])
    · exact .same (hc _ (by rw [hl.held]; simpa using hr))
  | added v held rows view key id seq clock =>
    exact .added v (by rw [hl.held]; exact held) (by rw [hl.rows _ (.inl held), rows])
      (by rw [hl.view _ held, view]) key id (Nat.lt_of_lt_of_le seq hl.seq) (le_trans clock hl.clock)
  | removed v held rows view key =>
    exact .removed v (by rw [hl.held]; exact held) (by rw [hl.rows _ (.inl held), rows])
      (by rw [hl.view _ held, view]) key

/-- **What the session has done stays as it is** while the others work. -/
theorem Editing.later {base target : ObjectRows κ} (h : Editing k base target x)
    (hl : Later (contract strict writes) x y) (hc : y.Coherent) : Editing k base target y := by
  have hrows := Later.sameKey hl h.held
  refine ⟨by rw [hl.held]; exact h.held, hrows.trans h.rows, ⟨?_, fun n v hk => ?_⟩, fun k' hk' => ?_,
    fun n => (h.versions n).later hl hc⟩
  · rw [hl.view _ h.held]; exact h.view.object
  · refine Iff.trans ?_ (h.view.version n v hk)
    by_cases hr : x.held (.version n) = true
    · rw [hl.view _ hr]
    -- a row that is not locked is the committed one, before and after
    have hx : x.view (.version n) = x.rows (.version n) := by
      cases h.versions n with
      | same h => exact h
      | added _ held => exact absurd held hr
      | removed _ held => exact absurd held hr
    rw [hc _ (by rw [hl.held]; simpa using hr), hx]
    exact hrows.version n v hk
  · by_cases hr : x.held (.object k') = true
    · rw [hl.view _ hr, hl.rows _ (.inl hr)]; exact h.objects k' hk'
    · exact hc _ (by rw [hl.held]; simpa using hr)

end Others

/-! ## What a statement adds to the work -/

section Writes

variable {k : κ} {base target : ObjectRows κ} {x : ObjectSnap κ}

omit [DecidableEq κ] in
theorem Editing.of_clean (h : Clean x) (hheld : x.held (.object k) = true) : Editing k x.rows x.rows x :=
  ⟨hheld, SameKey.refl _ _, by rw [show x.view = x.rows from h]; exact SameKey.refl _ _,
    fun k' _ => congrFun h _, fun n => .same (congrFun h _)⟩

variable {n : Nat}

theorem Touched.put_object {w : Option Obj} (h : Touched k x n) : Touched k (x.put (.object k) w) n := by
  have hview : (x.put (.object k) w).view (.version n) = x.view (.version n) :=
    x.put_view_of_ne w (Row.version_ne_object n k)
  have hheld : (x.put (.object k) w).held (.version n) = x.held (.version n) :=
    x.put_held_of_ne w (Row.version_ne_object n k)
  cases h with
  | same h => exact .same (hview.trans h)
  | added v held rows view key id seq clock =>
    exact .added v (hheld.trans held) rows (hview.trans view) key id seq clock
  | removed v held rows view key => exact .removed v (hheld.trans held) rows (hview.trans view) key

omit [DecidableEq κ] in
theorem Editing.tick (h : Editing k base target x) {t : Int} (ht : x.clock ≤ t) :
    Editing k base target { x with clock := t } := by
  refine ⟨h.held, h.rows, h.view, h.objects, fun n => ?_⟩
  cases h.versions n with
  | same h => exact .same h
  | added v held rows view key id seq clock => exact .added v held rows view key id seq (le_trans clock ht)
  | removed v held rows view key => exact .removed v held rows view key

theorem Editing.put_object (h : Editing k base target x) (w : Option Obj) :
    Editing k base (Function.update target (.object k) w) (x.put (.object k) w) := by
  refine ⟨x.put_held_self _ _, h.rows, ⟨?_, fun n v hk => ?_⟩, fun k' hk' => ?_,
    fun n => (h.versions n).put_object⟩
  · rw [Snap.put_view_self, Function.update_self]
  · have hne := Row.version_ne_object n k
    rw [Snap.put_view_of_ne _ _ hne, Function.update_of_ne hne]
    exact h.view.version n v hk
  · have hne : Row.object k' ≠ .object k := by simpa using hk'
    rw [Snap.put_view_of_ne _ _ hne]
    exact h.objects k' hk'

theorem Editing.insert_object (h : Clean x) (o : Obj) :
    Editing k x.rows (Function.update x.rows (.object k) (some o)) (x.put (.object k) (some o)) := by
  refine ⟨x.put_held_self _ _, SameKey.refl _ _, ?_, fun k' hk' => ?_, fun n => ?_⟩
  · rw [← show x.view = x.rows from h]; exact SameKey.refl _ _
  · have hne : Row.object k' ≠ .object k := by simpa using hk'
    rw [Snap.put_view_of_ne _ _ hne]
    exact congrFun h _
  · exact Touched.put_object (.same (congrFun h _))

variable {m : Nat}

theorem Touched.put_version {w : Option (Option (Version κ))} (h : Touched k x n) (hne : n ≠ m) :
    Touched k (x.put (.version m) w) n := by
  have hne' : Row.version n ≠ (Row.version m : Row κ) := by simpa using hne
  have hview : (x.put (.version m) w).view (.version n) = x.view (.version n) := x.put_view_of_ne w hne'
  have hheld : (x.put (.version m) w).held (.version n) = x.held (.version n) := x.put_held_of_ne w hne'
  cases h with
  | same h => exact .same (hview.trans h)
  | added v held rows view key id seq clock =>
    exact .added v (hheld.trans held) rows (hview.trans view) key id seq clock
  | removed v held rows view key => exact .removed v (hheld.trans held) rows (hview.trans view) key

theorem Editing.put_version (h : Editing k base target x) {w : Option (Version κ)}
    (hm : Touched k (x.put (.version m) (some w)) m) :
    Editing k base (Function.update target (.version m) (some w)) (x.put (.version m) (some w)) := by
  refine ⟨?_, h.rows, ⟨?_, fun n v hk => ?_⟩, fun k' hk' => ?_, fun n => ?_⟩
  · rw [Snap.put_held_of_ne _ _ (Row.object_ne_version k m)]
    exact h.held
  · have hne := Row.object_ne_version k m
    rw [Snap.put_view_of_ne _ _ hne, Function.update_of_ne hne]
    exact h.view.object
  · by_cases hnm : n = m
    · subst hnm; rw [Snap.put_view_self, Function.update_self]
    · have hne : Row.version n ≠ (Row.version m : Row κ) := by simpa using hnm
      rw [Snap.put_view_of_ne _ _ hne, Function.update_of_ne hne]
      exact h.view.version n v hk
  · rw [Snap.put_view_of_ne _ _ (Row.object_ne_version k' m)]
    exact h.objects k' hk'
  · by_cases hnm : n = m
    · subst hnm; exact hm
    · exact (h.versions n).put_version hnm

theorem Editing.insert_version (h : Editing k base target x) (hnone : x.view (.version v.id) = none)
    (hk : v.key = k) (hseq : v.id < x.seq) (hclock : v.createdAt ≤ x.clock) :
    Editing k base (Function.update target (.version v.id) (some (some v)))
      (x.put (.version v.id) (some (some v))) := by
  refine h.put_version (.added v (x.put_held_self _ _) ?_ (x.put_view_self _ _) hk rfl hseq hclock)
  show x.rows (.version v.id) = none
  cases h.versions v.id with
  | same h => rw [← h, hnone]
  | added w _ _ view | removed w _ _ view => rw [hnone] at view; cases view

theorem Editing.delete_version (h : Editing k base target x) (hv : base (.version n) = some (some v))
    (hk : v.key = k) :
    Editing k base (Function.update target (.version n) (some none)) (x.put (.version n) (some none)) :=
  h.put_version (.removed v (x.put_held_self _ _) ((h.rows.version n v hk).mpr hv) (x.put_view_self _ _) hk)

end Writes

end SynapS3.Object
