import SynapS3.Object.Invariant

/-!
# `Object.Commit` — what a commit owes, and the two shapes of a commit

A transaction that worked on one key (`Editing`) keeps its side of the contract when it commits, if what it
made of the rows of the key is right (`Moves`, or nothing moved).
-/

namespace SynapS3.Object

open ReadCommitted

variable {κ : Type} [DecidableEq κ]

/-! ## The record -/

theorem left_append (log : List (Entry κ)) (e : Entry κ) (k : κ) :
    left (log ++ [e]) k = if e.key = k then e.after else left log k := by
  unfold left
  rw [List.filter_append]
  by_cases hk : e.key = k
  · simp [hk]
  · simp [hk]

section

variable [VersionIDs] {strict writes : Bool} {k : κ} {base target : ObjectRows κ} {z : ObjectSnap κ}

/-! ## The rows after the commit -/

omit [DecidableEq κ] [VersionIDs] in
theorem Editing.sameKey_of_ne (he : Editing k base target z) {k' : κ} (hne : k' ≠ k) :
    SameKey k' z.rows z.view := by
  refine ⟨(he.objects k' hne).symm, fun n v hk => ?_⟩
  have hkey : v.key ≠ k := by rw [hk]; exact hne
  cases he.versions n with
  | same h => rw [h]
  | added w held rows view key =>
    rw [rows, view]
    constructor
    · nofun
    · rintro h; cases h; exact absurd key hkey
  | removed w held rows view key =>
    rw [rows, view]
    constructor
    · rintro h; cases h; exact absurd key hkey
    · nofun

theorem Editing.keys (he : Editing k base target z) (hi : Inv strict writes z.toShared)
    (htarget : KeyInv strict target k) (k' : κ) : KeyInv strict z.view k' := by
  by_cases hk : k' = k
  · subst hk; exact htarget.congr he.view.symm
  · exact (hi.keys k').congr (he.sameKey_of_ne hk)

theorem Editing.version_rows (he : Editing k base target z) (hi : Inv strict writes z.toShared) (n : Nat)
    (v : Version κ) (hv : z.view (.version n) = some (some v)) :
    v.id = n ∧ n < z.seq ∧ v.createdAt ≤ z.clock := by
  cases he.versions n with
  | same h => exact hi.rows n v (h.symm.trans hv)
  | added w held rows view key id seq clock =>
    rw [view] at hv
    cases hv
    exact ⟨id, seq, clock⟩
  | removed w held rows view => rw [view] at hv; cases hv

variable {n m : Nat} {v : Version κ} {e : Entry κ}

omit [DecidableEq κ] [VersionIDs] in
theorem Editing.used (he : Editing k base target z) (h : (z.rows (.version n)).isSome = true) :
    (z.view (.version n)).isSome = true := by
  cases he.versions n with
  | same hs => rw [hs]; exact h
  | added w held rows view => rw [view]; rfl
  | removed w held rows view => rw [view]; rfl

omit [VersionIDs] in
theorem Editing.guar (he : Editing k base target z) {record : Record κ → Record κ}
    (hlog : z.ghost.log <+: (record z.ghost).log)
    (hobject : writes = true → (base (.object k)).isSome = true → (target (.object k)).isSome = true) :
    Guar writes z.toShared (z.committed record).toShared := by
  refine ⟨hlog, fun n hn => he.used hn, fun n v hn hv => ?_, fun hw k' hk' => ?_, le_refl _, le_refl _⟩
  · have hview : z.view (.version n) = some (some v) := hv
    cases he.versions n with
    | same h => rw [← h]; exact hview
    | added w held rows => rw [rows] at hn; cases hn
    | removed w held rows view => rw [view] at hview; cases hview
  · show (z.view (.object k')).isSome = true
    by_cases hk : k' = k
    · subst hk
      rw [he.view.object]
      refine hobject hw ?_
      rw [← he.rows.object]
      exact hk'
    · rw [he.objects k' hk]; exact hk'

theorem Editing.guarded (he : Editing k base target z) (record : Record κ → Record κ) (r : Row κ) (w : r.Value)
    (q : Row κ) (hw : z.rows r = some w ∨ (z.committed record).rows r = some w)
    (hg : (contract (κ := κ) strict writes).guards r w q) (hq : z.held q = false) :
    (z.committed record).rows r = z.rows r := by
  show z.view r = z.rows r
  match r, w, hg with
  | .version n, some v, hg =>
    have hkey : q = .object v.key := hg
    have hw' : z.rows (.version n) = some (some v) ∨ z.view (.version n) = some (some v) := hw
    have hne : v.key ≠ k := by
      rintro rfl
      rw [hkey, he.held] at hq
      cases hq
    cases he.versions n with
    | same h => exact h
    | added u held rows view key =>
      rw [rows, view] at hw'
      rcases hw' with h | h
      · cases h
      · cases h; exact absurd key hne
    | removed u held rows view key =>
      rw [rows, view] at hw'
      rcases hw' with h | h
      · cases h; exact absurd key hne
      · cases h

/-! ## The commit -/

/-- What an operation owes for the rows of its key, and for its entry in the log. -/
structure Moves (strict writes : Bool) (k : κ) (base target : ObjectRows κ) (e : Entry κ) : Prop where
  key : e.key = k
  inv : KeyInv strict target k
  after : e.after = selectCurrentVersionByBucketAndKey target k
  objects : writes = true → (base (.object k)).isSome = true → (target (.object k)).isSome = true
  published : ∀ n, e.published = some n →
    ∃ v, v.key = k ∧ target (.version n) = some (some v) ∧ base (.version n) ≠ some (some v)
  conditions : writes = true →
    checkObjectConditions (selectCurrentVersionByBucketAndKey base k) e.conditions = none
  live : e.op = .write → ∃ v, e.after = some v ∧ v.isDeleteMarker = false
  kinds : writes = true → e.op = .write ∨ e.op = .deleteMarker

section

variable (he : Editing k base target z)
include he

omit [VersionIDs] in
theorem Editing.current (k' : κ) : selectCurrentVersionByBucketAndKey z.view k' =
      if k = k' then selectCurrentVersionByBucketAndKey target k
      else selectCurrentVersionByBucketAndKey z.rows k' := by
  split
  · next h => subst h; exact he.view.selectCurrent
  · next h => exact (he.sameKey_of_ne (Ne.symm h)).selectCurrent.symm

theorem Editing.unpublished (hi : Inv strict writes z.toShared) (hk : v.key = k)
    (hv : target (.version n) = some (some v)) (hbase : base (.version n) ≠ some (some v)) :
    z.rows (.version n) = none ∧ n ∉ z.ghost.log.filterMap (·.published) := by
  have hview : z.view (.version n) = some (some v) := (he.view.version n v hk).mpr hv
  have hrows : z.rows (.version n) = none := by
    cases he.versions n with
    | same h => exact absurd ((he.rows.version n v hk).mp (h.symm.trans hview)) hbase
    | added w held rows => exact rows
    | removed w held rows view => rw [hview] at view; cases view
  refine ⟨hrows, fun hmem => ?_⟩
  obtain ⟨e, he', hpub⟩ := List.mem_filterMap.mp hmem
  have hused := hi.log.used e he' n hpub
  rw [hrows] at hused
  cases hused

theorem Editing.logInv (hi : Inv strict writes z.toShared)
    (hm : Moves strict writes k base target e) : LogInv writes z.view (Record.commit e z.ghost) where
  current k' := by
    show left (z.ghost.log ++ [e]) k' = _
    rw [left_append, he.current k', hm.key, hm.after, hi.log.current k']
  used e' he' n hn := by
    rcases List.mem_append.mp he' with h | h
    · exact he.used (hi.log.used e' h n hn)
    · rw [List.mem_singleton.mp h] at hn
      obtain ⟨v, hk, hv, -⟩ := hm.published n hn
      rw [(he.view.version n v hk).mpr hv]; rfl
  once := by
    show ((z.ghost.log ++ [e]).filterMap (·.published)).Nodup
    rw [List.filterMap_append]
    cases hp : e.published with
    | none => simpa [hp] using hi.log.once
    | some n =>
      obtain ⟨v, hk, hv, hbase⟩ := hm.published n hp
      have hnew := (he.unpublished hi hk hv hbase).2
      simp only [List.filterMap_cons, List.filterMap_nil, hp]
      exact List.nodup_append.mpr ⟨hi.log.once, List.nodup_singleton _, fun a ha b hb => by
        rw [List.mem_singleton.mp hb]
        rintro rfl
        exact hnew ha⟩
  answered n hn := by
    obtain ⟨e', he', hp⟩ := hi.log.answered n hn
    exact ⟨e', List.mem_append_left _ he', hp⟩
  live e' he' hop := by
    rcases List.mem_append.mp he' with h | h
    · exact hi.log.live e' h hop
    · rw [List.mem_singleton.mp h] at hop ⊢; exact hm.live hop
  kinds hw e' he' := by
    rcases List.mem_append.mp he' with h | h
    · exact hi.log.kinds hw e' h
    · rw [List.mem_singleton.mp h]; exact hm.kinds hw
  conditions hw pre e' post hlog := by
    have hlog' : z.ghost.log ++ [e] = pre ++ e' :: post := hlog
    rcases List.eq_nil_or_concat post with rfl | ⟨init, last, rfl⟩
    · -- the new entry: the condition was checked on what its predecessors left
      obtain ⟨hpre, hlast⟩ := List.append_inj' hlog' rfl
      cases hlast
      rw [← hpre, hm.key, hi.log.current k, he.rows.selectCurrent]
      exact hm.conditions hw
    · rw [List.concat_eq_append, ← List.cons_append, ← List.append_assoc] at hlog'
      exact hi.log.conditions hw pre e' init (List.append_inj' hlog' rfl).1

theorem Editing.kept_commit (hi : Inv strict writes z.toShared) (hm : Moves strict writes k base target e) :
    Kept (contract strict writes) z (z.committed (Record.commit e)) where
  inv := ⟨he.keys hi hm.inv, he.version_rows hi, he.logInv hi hm⟩
  guar := he.guar (List.prefix_append _ _) hm.objects
  guarded := he.guarded (Record.commit e)

theorem Editing.kept_same (hi : Inv strict writes z.toShared) (htarget : KeyInv strict target k)
    (hcurrent : selectCurrentVersionByBucketAndKey target k = selectCurrentVersionByBucketAndKey base k)
    (hobject : (target (.object k)).isSome = true) :
    Kept (contract strict writes) z (z.committed id) where
  inv := by
    refine ⟨he.keys hi htarget, he.version_rows hi, ⟨fun k' => ?_, fun e h n hn => he.used (hi.log.used e h n hn),
      hi.log.once, hi.log.answered, hi.log.live, hi.log.kinds, hi.log.conditions⟩⟩
    show left z.ghost.log k' = selectCurrentVersionByBucketAndKey z.view k'
    rw [hi.log.current k', he.current k']
    split
    · next h => subst h; rw [hcurrent, he.rows.selectCurrent]
    · rfl
  guar := he.guar (List.prefix_refl _) fun _ _ => hobject
  guarded := he.guarded id

end

/-! ## The shapes of a commit -/

theorem published_inv (hobject : target (.object k) = some ⟨v.objectID, some m⟩) (hversions : ∀ n w, w.key = k →
      (target (.version n) = some (some w) ↔ base (.version n) = some (some w) ∨ (n = m ∧ w = v)))
    (hkey : v.key = k) (howner : ∀ n w, base (.version n) = some (some w) → w.key = k → w.objectID = v.objectID)
    (hnewest : strict = true → ∀ n w, base (.version n) = some (some w) → w.key = k → v.NotOlder w) :
    KeyInv strict target k ∧ selectCurrentVersionByBucketAndKey target k = some v := by
  have hv : target (.version m) = some (some v) := (hversions m v hkey).mpr (.inr ⟨rfl, rfl⟩)
  have hcurrent : selectCurrentVersionByBucketAndKey target k = some v :=
    selectCurrent_eq_some.mpr ⟨_, m, hobject, rfl, hv, hkey, rfl⟩
  refine ⟨⟨fun n w hw hk => ⟨_, hobject, ?_⟩, fun o _ => ⟨v, hcurrent⟩, fun hstrict cur hcur n w hw hk => ?_⟩,
    hcurrent⟩
  · rcases (hversions n w hk).mp hw with h | ⟨-, rfl⟩
    · exact howner n w h hk
    · rfl
  · rw [hcurrent] at hcur
    cases hcur
    rcases (hversions n w hk).mp hw with h | ⟨-, rfl⟩
    · exact hnewest hstrict n w h hk
    · exact .inr ⟨rfl, le_refl _⟩

theorem removed_inv {gone : Nat → Prop} {o : Obj} {cur : Version κ} (hbase : KeyInv strict base k)
    (hold : base (.object k) = some o)
    (hobject : target (.object k) = some { o with currentVersionID := some m })
    (hversions : ∀ n w, w.key = k → (target (.version n) = some (some w) ↔ base (.version n) = some (some w) ∧ ¬gone n))
    (hcur : base (.version m) = some (some cur)) (hkey : cur.key = k) (hleft : ¬gone m)
    (hnewest : strict = true → ∀ n w, base (.version n) = some (some w) → w.key = k → ¬gone n → cur.NotOlder w) :
    KeyInv strict target k ∧ selectCurrentVersionByBucketAndKey target k = some cur := by
  have howner : ∀ n w, base (.version n) = some (some w) → w.key = k → w.objectID = o.id := by
    intro n w hw hk
    obtain ⟨o', ho', hid⟩ := hbase.owned n w hw hk
    rw [hold] at ho'
    cases ho'
    exact hid
  have hcurrent : selectCurrentVersionByBucketAndKey target k = some cur :=
    selectCurrent_eq_some.mpr ⟨_, m, hobject, rfl, (hversions m cur hkey).mpr ⟨hcur, hleft⟩, hkey,
      howner m cur hcur hkey⟩
  refine ⟨⟨fun n w hw hk => ⟨_, hobject, ?_⟩, fun _ _ => ⟨cur, hcurrent⟩, fun hstrict c hc n w hw hk => ?_⟩,
    hcurrent⟩
  · exact howner n w ((hversions n w hk).mp hw).1 hk
  · rw [hcurrent] at hc
    cases hc
    obtain ⟨hw', hgone⟩ := (hversions n w hk).mp hw
    exact hnewest hstrict n w hw' hk hgone

omit [VersionIDs] in
theorem selectCurrent_none {rows : ObjectRows κ} (h : rows (.object k) = none) :
    selectCurrentVersionByBucketAndKey rows k = none := by
  unfold selectCurrentVersionByBucketAndKey
  rw [h]
  rfl

theorem emptied_inv (hobject : target (.object k) = none)
    (hversions : ∀ n w, w.key = k → target (.version n) ≠ some (some w)) :
    KeyInv strict target k ∧ selectCurrentVersionByBucketAndKey target k = none := by
  refine ⟨⟨fun n w hw hk => absurd hw (hversions n w hk), fun o ho => ?_, fun _ cur hcur => ?_⟩,
    selectCurrent_none hobject⟩
  · rw [hobject] at ho; cases ho
  · rw [selectCurrent_none hobject] at hcur; cases hcur

end

end SynapS3.Object
