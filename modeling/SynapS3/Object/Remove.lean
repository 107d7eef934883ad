import Mathlib.Data.List.TakeWhile
import SynapS3.Object.Publish

/-!
# `Object.Remove` — the operations that delete versions

Each one locks the object first, so what it reads of the key is what it writes over. The pointer goes to the
newest version that is left, which is why the invariant survives without a word about the clock.
-/

namespace SynapS3.Object

open ReadCommitted

variable {κ : Type} [DecidableEq κ] [VersionIDs] {strict writes : Bool} {k : κ} {base target : ObjectRows κ}
  {x : ObjectSnap κ} {allow : ObjectShared κ → ObjectShared κ → Bool}

/-! ## The newest of a list -/

omit [DecidableEq κ] in
theorem Version.notOlder_refl (v : Version κ) : v.NotOlder v := .inr ⟨rfl, le_refl _⟩

instance : Std.Total (Version.NotOlder (κ := κ)) where
  total v w := by
    rcases lt_trichotomy w.createdAt v.createdAt with h | h | h
    · exact .inl (.inl h)
    · rcases le_total (VersionIDs.text w.id) (VersionIDs.text v.id) with ht | ht
      · exact .inl (.inr ⟨h, ht⟩)
      · exact .inr (.inr ⟨h.symm, ht⟩)
    · exact .inr (.inl h)

instance : IsTrans (Version κ) Version.NotOlder where
  trans u v w huv hvw := by
    rcases huv with h | ⟨h, ht⟩
    · rcases hvw with h' | ⟨h', -⟩
      · exact .inl (lt_trans h' h)
      · exact .inl (by rw [h']; exact h)
    · rcases hvw with h' | ⟨h', ht'⟩
      · exact .inl (by rw [← h]; exact h')
      · exact .inr ⟨h'.trans h, le_trans ht' ht⟩

variable {v : Version κ} {rows : ObjectRows κ} {seq objectID n : Nat} {p : Version κ → Bool} {o : Obj}
  {op : OpKind} {l : List (Version κ)} {w : Version κ} {s : ObjectShared κ}

omit [DecidableEq κ] in
theorem notOlder_of_head (hl : l.Pairwise Version.NotOlder) (hv : l.head? = some v) (hw : w ∈ l) :
    v.NotOlder w := by
  cases l with
  | nil => cases hv
  | cons u rest =>
    cases hv
    rcases List.mem_cons.mp hw with rfl | hmem
    · exact Version.notOlder_refl _
    · exact List.rel_of_pairwise_cons hl hmem

/-! ## What a locked session reads -/

/-- The rows of the key as the session sees them, with what is known of every row. -/
structure Sees (k : κ) (rows : ObjectRows κ) (seq : Nat) (target : ObjectRows κ) : Prop where
  same : SameKey k rows target
  bound : ∀ n v, rows (.version n) = some (some v) → v.id = n ∧ n < seq

theorem Editing.sees (he : Editing k base target x) (hi : Inv strict writes x.toShared) :
    Sees k x.view x.seq target :=
  ⟨he.view, fun n v hv => by
    obtain ⟨hid, hn, -⟩ := he.version_rows hi n v hv
    exact ⟨hid, hn⟩⟩

omit [VersionIDs] in
theorem Sees.mem_versionsOf (h : Sees k rows seq target) : v ∈ versionsOf rows seq k objectID ↔
      target (.version v.id) = some (some v) ∧ v.key = k ∧ v.objectID = objectID := by
  rw [Object.mem_versionsOf]
  constructor
  · rintro ⟨n, -, hv, hk, ho⟩
    obtain ⟨rfl, -⟩ := h.bound n v hv
    exact ⟨(h.same.version _ v hk).mp hv, hk, ho⟩
  · rintro ⟨hv, hk, ho⟩
    have hrow := (h.same.version _ v hk).mpr hv
    exact ⟨v.id, (h.bound _ v hrow).2, hrow, hk, ho⟩

theorem Sees.selectLatest (h : Sees k rows seq target) {next : Version κ}
    (hnext : selectLatestVersionByObjectIDExcluding rows seq k objectID n = some next) :
    (target (.version next.id) = some (some next) ∧ next.key = k ∧ next.objectID = objectID) ∧ next.id ≠ n ∧
      ∀ w, target (.version w.id) = some (some w) → w.key = k → w.objectID = objectID → w.id ≠ n →
        next.NotOlder w := by
  unfold selectLatestVersionByObjectIDExcluding at hnext
  have hmem := List.mem_of_head? hnext
  rw [List.mem_insertionSort, List.mem_filter, h.mem_versionsOf] at hmem
  refine ⟨hmem.1, by simpa using hmem.2, fun w hw hk ho hne => ?_⟩
  refine notOlder_of_head (List.pairwise_insertionSort _ _) hnext ?_
  rw [List.mem_insertionSort, List.mem_filter, h.mem_versionsOf]
  exact ⟨⟨hw, hk, ho⟩, by simpa using hne⟩

theorem Sees.selectLatest_none (h : Sees k rows seq target)
    (hnext : selectLatestVersionByObjectIDExcluding rows seq k objectID n = none) (w : Version κ)
    (hw : target (.version w.id) = some (some w)) (hk : w.key = k) (ho : w.objectID = objectID) : w.id = n := by
  unfold selectLatestVersionByObjectIDExcluding at hnext
  rw [List.head?_eq_none_iff] at hnext
  by_contra hne
  have hmem : w ∈ ((versionsOf rows seq k objectID).filter fun v => v.id ≠ n).insertionSort Version.NotOlder := by
    rw [List.mem_insertionSort, List.mem_filter, h.mem_versionsOf]
    exact ⟨⟨hw, hk, ho⟩, by simpa using hne⟩
  rw [hnext] at hmem
  cases hmem

/-! ## Statements -/

theorem Editing.body_look (he : Editing k base target x) {P : ObjectRows κ × Nat → ObjectSnap κ → Prop}
    (h : ∀ y, Editing k base target y → Sees k y.view y.seq target → P (y.view, y.seq) y) :
    Body (contract strict writes) allow P (Sql.look : ObjectSql κ _) x := by
  refine Body.look fun y hy hc hi => ?_
  have hey := he.later hy hc
  exact h y hey (hey.sees hi)

theorem Editing.body_deleteVersion (he : Editing k base target x) (hbase : base (.version n) = some (some v))
    (htarget : target (.version n) = some (some v)) (hk : v.key = k) (hp : p v = true)
    {P : Bool → ObjectSnap κ → Prop}
    (h : ∀ y, Editing k base (Function.update target (.version n) (some none)) y → P true y) :
    Body (contract strict writes) allow P (deleteVersion n p) x := by
  refine Body.update fun y hy hc _ => ?_
  have hey := he.later hy hc
  have hview : y.view (.version n) = some (some v) := (hey.view.version n v hk).mpr htarget
  rw [hview]
  refine ⟨fun hnone => by simp [hp] at hnone, fun w hw => ?_⟩
  have hw' : some none = w := by simpa [hp] using hw
  subst hw'
  exact h _ (hey.delete_version hbase hk)

theorem Editing.body_deleteVersions (ids : List Nat) (he : Editing k base target x)
    (hids : ∀ n ∈ ids, ∃ v, base (.version n) = some (some v) ∧ v.key = k ∧ p v = true)
    {P : Unit → ObjectSnap κ → Prop}
    (h : ∀ y target', Editing k base target' y → target' (.object k) = target (.object k) →
      (∀ n w, w.key = k → (target' (.version n) = some (some w) ↔ target (.version n) = some (some w) ∧ n ∉ ids)) →
      P () y) :
    Body (contract strict writes) allow P (deleteVersions p ids) x := by
  induction ids generalizing x target with
  | nil => exact Body.pure (h x target he rfl fun n w _ => by simp)
  | cons n ns ih =>
    refine Body.bind (Body.update fun y hy hc _ => ?_)
    have hey := he.later hy hc
    obtain ⟨v, hv, hk, hp⟩ := hids n (List.mem_cons_self ..)
    have hrows : y.rows (.version n) = some (some v) := (hey.rows.version n v hk).mpr hv
    have hns : ∀ m ∈ ns, ∃ v, base (.version m) = some (some v) ∧ v.key = k ∧ p v = true :=
      fun m hm => hids m (List.mem_cons_of_mem _ hm)
    cases hey.versions n with
    | added u held rows => rw [hrows] at rows; cases rows
    | removed u held rows view =>
      -- deleted before
      rw [view]
      refine ⟨fun _ => ih hey hns fun z target' hez hobj hver => h z target' hez hobj fun m w hw => ?_,
        fun w hw => by simp at hw⟩
      rw [hver m w hw, List.mem_cons, not_or]
      by_cases hm : m = n
      · subst hm
        have hgone : target (.version m) ≠ some (some w) := fun ht => by
          have := (hey.view.version m w hw).mpr ht
          rw [view] at this
          cases this
        simp [hgone]
      · simp [hm]
    | same hsame =>
      rw [hsame, hrows]
      refine ⟨fun hnone => by simp [hp] at hnone, fun w hw => ?_⟩
      have hw' : some none = w := by simpa [hp] using hw
      subst hw'
      refine ih (hey.delete_version hv hk) hns fun z target' hez hobj hver => h z target' hez ?_ fun m w hw => ?_
      · rw [hobj, Function.update_of_ne (Row.object_ne_version k n)]
      · rw [hver m w hw, List.mem_cons, not_or]
        by_cases hm : m = n
        · subst hm; simp
        · have hne : Row.version m ≠ (Row.version n : Row κ) := by simpa using hm
          rw [Function.update_of_ne hne]
          simp [hm]

/-! ## Deleting one version -/

/-- What is known of the rows of a key whose object is locked. -/
structure Found (strict : Bool) (k : κ) (rows : ObjectRows κ) (o : Obj) : Prop where
  inv : KeyInv strict rows k
  object : rows (.object k) = some o
  ids : ∀ n v, rows (.version n) = some (some v) → v.id = n

theorem Found.of_inv (hi : Inv strict writes s) (ho : s.rows (.object k) = some o) : Found strict k s.rows o :=
  ⟨hi.keys k, ho, fun n v hv => (hi.rows n v hv).1⟩

theorem Found.current (h : Found strict k base o) :
    ∃ cur, selectCurrentVersionByBucketAndKey base k = some cur ∧ o.currentVersionID = some cur.id ∧
      base (.version cur.id) = some (some cur) ∧ cur.key = k := by
  obtain ⟨cur, hcur⟩ := h.inv.current o h.object
  obtain ⟨o', n, ho, hn, hv, hk, -⟩ := selectCurrent_eq_some.mp hcur
  rw [h.object] at ho
  cases ho
  obtain rfl := h.ids n cur hv
  exact ⟨cur, hcur, hn, hv, hk⟩

theorem Found.owned (h : Found strict k base o) (hv : base (.version v.id) = some (some v)) (hk : v.key = k) :
    v.objectID = o.id :=
  owned_of_object h.inv h.object v.id v hv hk

def Unmoved (strict : Bool) (k : κ) (y : ObjectSnap κ) : Prop :=
  ∃ base target, Editing k base target y ∧ KeyInv strict target k ∧
    selectCurrentVersionByBucketAndKey target k = selectCurrentVersionByBucketAndKey base k ∧
    (target (.object k)).isSome = true

/-- The end of a transaction that deletes: it says which version is current now, if that changed. -/
def Moved (strict writes : Bool) (op : OpKind) (k : κ) (after : Option (Option (Version κ))) (y : ObjectSnap κ) :
    Prop :=
  match after with
  | some v => Done strict writes ⟨op, k, none, [], v⟩ y
  | none => Unmoved strict k y

theorem moves_of_inv {after : Option (Version κ)} (hwrites : writes = false) (hop : op ≠ .write)
    (hinv : KeyInv strict target k ∧ selectCurrentVersionByBucketAndKey target k = after) :
    Moves strict writes k base target ⟨op, k, none, [], after⟩ where
  key := rfl
  inv := hinv.1
  after := hinv.2.symm
  objects h := by rw [hwrites] at h; cases h
  published _ h := by cases h
  conditions h := by rw [hwrites] at h; cases h
  live h := absurd h hop
  kinds h := by rw [hwrites] at h; cases h

variable {counted : Bool}

theorem Editing.body_removeOther (he : Editing k base base x) (hf : Found strict k base o)
    (hv : base (.version v.id) = some (some v)) (hk : v.key = k) (hp : p v = true)
    (hcur : o.currentVersionID ≠ some v.id) :
    Body (contract strict writes) allow (fun r y => Moved strict writes op k r y)
      (removeVersion k v false p counted) x := by
  refine Body.bind (he.body_deleteVersion hv hv hk hp fun y hey => Body.bind (Body.demand fun _ => Body.pure ?_))
  obtain ⟨cur, hcurrent, hpointer, hrow, hkey⟩ := hf.current
  have hne : cur.id ≠ v.id := fun h => hcur (by rw [hpointer, h])
  have hversions : ∀ n w, w.key = k →
      (Function.update base (.version v.id) (some none) (Row.version n) = some (some w) ↔
        base (.version n) = some (some w) ∧ ¬n = v.id) := by
    intro n w _
    by_cases hn : n = v.id
    · subst hn; simp
    · have hne : Row.version n ≠ (Row.version v.id : Row κ) := by simpa using hn
      rw [Function.update_of_ne hne]
      simp [hn]
  have hobject : Function.update base (.version v.id) (some none) (Row.object k) =
      some { o with currentVersionID := some cur.id } := by
    rw [Function.update_of_ne (Row.object_ne_version k v.id), hf.object, ← hpointer]
  obtain ⟨hinv, hnow⟩ := removed_inv hf.inv hf.object hobject hversions hrow hkey hne
    fun hstrict n w hw hk' _ => hf.inv.newest hstrict cur hcurrent n w hw hk'
  exact ⟨base, _, hey, hinv, hnow.trans hcurrent.symm, by rw [hobject]; rfl⟩

theorem Editing.body_deleteIfEmpty_left (he : Editing k base target x)
    (hw : target (.version w.id) = some (some w)) (hk : w.key = k) (howner : w.objectID = o.id)
    {P : Unit → ObjectSnap κ → Prop} (h : ∀ y, Editing k base target y → P () y) :
    Body (contract strict writes) allow P (deleteObjectIdentityIfEmpty k o.id) x := by
  refine Body.bind (he.body_look fun y hey hs => ?_)
  have hmem : w ∈ versionsOf y.view y.seq k o.id := hs.mem_versionsOf.mpr ⟨hw, hk, howner⟩
  show Body _ _ _ (if (versionsOf y.view y.seq k o.id).isEmpty = true then _ else _) y
  rw [if_neg (by rw [List.isEmpty_iff]; exact List.ne_nil_of_mem hmem)]
  exact Body.pure (h y hey)

theorem Editing.body_deleteIfEmpty_none (he : Editing k base target x) (hobject : target (.object k) = some o)
    (hversions : ∀ w, target (.version w.id) = some (some w) → w.key ≠ k) {P : Unit → ObjectSnap κ → Prop}
    (h : ∀ y, Editing k base (Function.update target (.object k) none) y → P () y) :
    Body (contract strict writes) allow P (deleteObjectIdentityIfEmpty k o.id) x := by
  refine Body.bind (he.body_look fun y hey hs => ?_)
  have hnil : versionsOf y.view y.seq k o.id = [] := by
    rw [List.eq_nil_iff_forall_not_mem]
    intro w hmem
    obtain ⟨hw, hk, -⟩ := hs.mem_versionsOf.mp hmem
    exact hversions w hw hk
  show Body _ _ _ (if (versionsOf y.view y.seq k o.id).isEmpty = true then _ else _) y
  rw [if_pos (by rw [List.isEmpty_iff]; exact hnil)]
  exact Body.bind (hey.body_updateObject hobject (if_pos rfl) fun z hez => Body.pure (h z hez))

theorem Editing.body_removeCurrent (hwrites : writes = false) (hop : op ≠ .write) (he : Editing k base base x)
    (hf : Found strict k base o) (hv : base (.version v.id) = some (some v)) (hk : v.key = k)
    (hp : p v = true) :
    Body (contract strict writes) allow (fun r y => Moved strict writes op k r y)
      (removeVersion k v true p counted) x := by
  have howner := hf.owned hv hk
  refine Body.bind (Body.bind (he.body_look fun y hey hs => ?_))
  refine Body.bind (hey.body_updateObject hf.object (if_pos howner.symm) fun z hez => Body.pure ?_)
  -- the pointer has left the version; now its row goes
  have hrow : Function.update base (.object k) (some { o with currentVersionID :=
      (selectLatestVersionByObjectIDExcluding y.view y.seq k v.objectID v.id).map (·.id) }) (.version v.id) =
      some (some v) := by
    rw [Function.update_of_ne (Row.version_ne_object v.id k)]
    exact hv
  refine Body.bind (hez.body_deleteVersion hv hrow hk hp fun u heu => Body.bind (Body.demand fun _ => ?_))
  have hversions : ∀ (w : Option Obj) n u, u.key = k →
      (Function.update (Function.update base (.object k) w) (.version v.id) (some none) (Row.version n) =
        some (some u) ↔ base (.version n) = some (some u) ∧ ¬n = v.id) := by
    intro w n u _
    by_cases hn : n = v.id
    · subst hn; simp
    · have hne : Row.version n ≠ (Row.version v.id : Row κ) := by simpa using hn
      rw [Function.update_of_ne hne, Function.update_of_ne (Row.version_ne_object n k)]
      simp [hn]
  have hobject : ∀ w : Option Obj,
      Function.update (Function.update base (.object k) w) (.version v.id) (some none) (Row.object k) = w := by
    intro w
    rw [Function.update_of_ne (Row.object_ne_version k v.id), Function.update_self]
  rw [howner] at *
  cases hnext : selectLatestVersionByObjectIDExcluding y.view y.seq k o.id v.id with
  | some next =>
    rw [hnext] at heu
    obtain ⟨⟨hnrow, hnkey, hnowner⟩, hne, hnewest⟩ := hs.selectLatest hnext
    have hleft := (hversions (some { o with currentVersionID := some next.id }) next.id next hnkey).mpr ⟨hnrow, hne⟩
    refine Body.bind (heu.body_deleteIfEmpty_left hleft hnkey hnowner fun w hew => Body.pure ?_)
    refine ⟨base, _, hew, moves_of_inv hwrites hop (removed_inv hf.inv hf.object (hobject _) (hversions _) hnrow hnkey
      hne fun _ n w hw hk' hgone => ?_)⟩
    obtain rfl := hf.ids n w hw
    exact hnewest w hw hk' (hf.owned hw hk') hgone
  | none =>
    rw [hnext] at heu
    refine Body.bind (heu.body_deleteIfEmpty_none (hobject _) (fun w hw hk' => ?_) fun w hew => Body.pure ?_)
    · obtain ⟨hw', hne⟩ := (hversions _ w.id w hk').mp hw
      exact hne (hs.selectLatest_none hnext w hw' hk' (hf.owned hw' hk'))
    · refine ⟨base, _, hew, moves_of_inv hwrites hop (emptied_inv (Function.update_self ..) fun n w hk' hw => ?_)⟩
      rw [Function.update_of_ne (Row.version_ne_object n k)] at hw
      obtain ⟨hw', hne⟩ := (hversions _ n w hk').mp hw
      obtain rfl := hf.ids n w hw'
      exact hne (hs.selectLatest_none hnext w hw' hk' (hf.owned hw' hk'))

theorem body_removeVersion (hwrites : writes = false) (hop : op ≠ .write) (hx : Clean x)
    (hi : Inv strict writes x.toShared) (hheld : x.held (.object k) = true) (ho : x.rows (.object k) = some o)
    (hv : selectVersionByBucketKeyAndID x.rows k n = some v) (hp : p v = true) :
    Body (contract strict writes) allow (fun r y => Moved strict writes op k r y)
      (removeVersion k v ((selectCurrentVersionByBucketAndKey x.rows k).any fun w => w.id = n) p counted) x := by
  obtain ⟨hrow, hk⟩ := selectVersion_eq_some.mp hv
  have hf : Found strict k x.rows o := .of_inv hi ho
  obtain rfl := hf.ids n v hrow
  have he : Editing k x.rows x.rows x := .of_clean hx hheld
  obtain ⟨cur, hcurrent, hpointer, -, -⟩ := hf.current
  rw [hcurrent]
  by_cases hcur : cur.id = v.id
  · rw [show (some cur).any (fun w => decide (w.id = v.id)) = true by simpa using hcur]
    exact he.body_removeCurrent hwrites hop hf hrow hk hp
  · rw [show (some cur).any (fun w => decide (w.id = v.id)) = false by simpa using hcur]
    exact he.body_removeOther hf hrow hk hp (by rw [hpointer]; simpa using hcur)

theorem body_deleteMarkerVersion {conditions : List (Option (ObjectCondition κ))} (hwrites : writes = false)
    (hx : Clean x) (hn : (x.rows (.version n)).isSome = true) :
    Body (contract strict writes) allow (fun r y => Moved strict writes .removeMarker k r y)
      (deleteMarkerVersion k n conditions) x := by
  refine Body.bind (body_lockCurrent hx fun y hy hiy hgy hlocked => ?_)
  refine Body.bind (body_look hy fun z hz hiz hlz => ?_)
  refine Body.bind (Body.orRefuse fun v hv => ?_)
  cases hlocked with
  | absent hnone =>
    have hdead := (Dead.of_absent hiy hnone (hgy.used n hn)).guar hlz.guar
    rw [hdead.selectVersion] at hv
    cases hv
  | object o hheld ho =>
    refine Body.bind (Body.demand fun _ => ?_)
    dsimp only
    cases checkObjectConditions (some v) conditions with
    | some err => exact Body.refuse
    | none =>
      exact body_removeVersion hwrites (by simp) hz hiz (by rw [hlz.held]; exact hheld)
        ((hlz.rows _ (.inl hheld)).trans ho) hv (by simpa using (selectVersion_eq_some.mp hv).2)

theorem body_lockVersions (ids : List Nat) (hx : Clean x) (hi : Inv strict writes x.toShared)
    {P : Unit → ObjectSnap κ → Prop}
    (h : ∀ y, Clean y → Inv strict writes y.toShared → Guar writes x.toShared y.toShared →
      (∀ r, x.held r = true → y.held r = true ∧ y.rows r = x.rows r) → P () y) :
    Body (contract strict writes) allow P (lockObjectVersionsByID ids) x := by
  induction ids generalizing x with
  | nil => exact Body.pure (h x hx hi (Guar.refl _ _) fun r hr => ⟨hr, rfl⟩)
  | cons n ns ih =>
    refine Body.bind (Body.lock fun y hy hc hiy => ⟨fun _ => Body.bind (Body.demand nofun), fun w _ => ?_⟩)
    have hclean := hx.later hy hc
    refine Body.bind (Body.demand fun _ => ih (hclean.hold _) hiy fun z hz hiz hgz hheld => ?_)
    refine h z hz hiz (Guar.trans hy.guar hgz) fun r hr => ?_
    have hry : (y.hold (.version n)).held r = true := by
      by_cases hrn : r = .version n
      · subst hrn; exact Snap.hold_held_self ..
      · rw [Snap.hold_held_of_ne _ hrn, hy.held]; exact hr
    obtain ⟨h₁, h₂⟩ := hheld r hry
    exact ⟨h₁, h₂.trans (hy.rows r (.inl hr))⟩

omit [DecidableEq κ] [VersionIDs] in
theorem isSome_of_live (h : rows (.version n) = some (some v)) : (rows (.version n)).isSome = true := by rw [h]; rfl

theorem body_deleteVersionPermanently {condition : Option (ObjectCondition κ)} (hwrites : writes = false)
    (hx : Clean x) :
    Body (contract strict writes) allow (fun r y => Moved strict writes .deleteVersion k r y)
      (deleteObjectVersionPermanently k n condition) x := by
  refine Body.bind (body_look hx fun y hy _ _ => Body.bind (Body.demand fun hfirst => ?_))
  obtain ⟨v₀, hv₀⟩ := Option.isSome_iff_exists.mp hfirst
  have hused := isSome_of_live (selectVersion_eq_some.mp hv₀).1
  refine Body.bind (body_lockCurrent hy fun z hz hiz hgz hlocked => ?_)
  refine Body.bind (body_lockVersions [n] hz hiz fun u hu _ hgu hheldu => ?_)
  refine Body.bind (body_look hu fun w hw hiw hlw => Body.bind (Body.orRefuse fun v hv => ?_))
  cases hlocked with
  | absent hnone =>
    have hdead := ((Dead.of_absent hiz hnone (hgz.used n hused)).guar hgu).guar hlw.guar
    rw [hdead.selectVersion] at hv
    cases hv
  | object o hheld ho =>
    obtain ⟨hheldu', hrowsu⟩ := hheldu _ hheld
    refine Body.bind (Body.demand fun _ => ?_)
    dsimp only
    cases checkObjectConditions (some v) [condition] with
    | some err => exact Body.refuse
    | none =>
      exact body_removeVersion hwrites (by simp) hw hiw (by rw [hlw.held]; exact hheldu')
        ((hlw.rows _ (.inl hheldu')).trans (hrowsu.trans ho)) hv rfl

/-! ## Undoing and completing the delete of an object -/

theorem Dead.not_current (hi : Inv strict writes s) (h : Dead k n s)
    (hv : selectCurrentVersionByBucketAndKey s.rows k = some v) : v.id ≠ n := by
  rintro rfl
  obtain ⟨o, m, -, -, hrow, hk, -⟩ := selectCurrent_eq_some.mp hv
  obtain ⟨rfl, -⟩ := hi.rows m v hrow
  exact h.key v hrow hk

theorem Sees.mem_newestFirst (h : Sees k rows seq target) :
    v ∈ selectVersionsByObjectNewestFirst rows seq k objectID ↔
      target (.version v.id) = some (some v) ∧ v.key = k ∧ v.objectID = objectID := by
  unfold selectVersionsByObjectNewestFirst
  rw [List.mem_insertionSort, h.mem_versionsOf]

theorem undelete_inv (hf : Found strict k base o)
    (hmem : ∀ w, w ∈ l ↔ base (.version w.id) = some (some w) ∧ w.key = k ∧ w.objectID = o.id)
    (hsorted : l.Pairwise Version.NotOlder) (hv : (l.dropWhile (·.isDeleteMarker)).head? = some v)
    (hobject : target (.object k) = some { o with currentVersionID := some v.id })
    (hversions : ∀ n w, w.key = k → (target (.version n) = some (some w) ↔
      base (.version n) = some (some w) ∧ n ∉ (l.takeWhile (·.isDeleteMarker)).map (·.id))) :
    KeyInv strict target k ∧ selectCurrentVersionByBucketAndKey target k = some v := by
  have hdrop : v ∈ l.dropWhile (·.isDeleteMarker) := List.mem_of_head? hv
  obtain ⟨hrow, hk, -⟩ := (hmem v).mp (List.dropWhile_subset _ hdrop)
  have hdata : v.isDeleteMarker = false := by
    have := List.head?_dropWhile_not (fun w : Version κ => w.isDeleteMarker) l
    rw [hv] at this
    simpa using this
  refine removed_inv hf.inv hf.object hobject hversions hrow hk (fun hgone => ?_) fun _ n w hw hk' hgone => ?_
  · -- a marker under the ID of the version would be the version
    obtain ⟨u, hu, hid⟩ := List.mem_map.mp hgone
    obtain ⟨hurow, -, -⟩ := (hmem u).mp (List.takeWhile_subset _ hu)
    rw [hid, hrow] at hurow
    cases hurow
    have hmarker := List.mem_takeWhile_imp hu
    rw [hdata] at hmarker
    cases hmarker
  · obtain rfl := hf.ids n w hw
    have hwl : w ∈ l := (hmem w).mpr ⟨hw, hk', hf.owned hw hk'⟩
    rw [← List.takeWhile_append_dropWhile (p := fun u : Version κ => u.isDeleteMarker) (l := l), List.mem_append] at hwl
    rcases hwl with htake | hleft
    · exact absurd (List.mem_map.mpr ⟨w, htake, rfl⟩) hgone
    · exact notOlder_of_head (hsorted.sublist (List.dropWhile_sublist _)) hv hleft

theorem body_undelete (hwrites : writes = false) (hx : Clean x) (hn : (x.rows (.version n)).isSome = true) :
    Body (contract strict writes) allow (fun v y => Done strict writes ⟨.undelete, k, none, [], some v⟩ y)
      (restoreCurrentDeleteMarkerStack k n) x := by
  refine Body.bind (body_lockCurrent hx fun y hy hiy hgy hlocked => ?_)
  refine Body.bind (body_look hy fun z hz hiz hlz => Body.bind (Body.orRefuse fun current hcurrent => ?_))
  refine Body.bind (Body.demand fun hmarker => ?_)
  obtain ⟨-, hid⟩ : current.isDeleteMarker = true ∧ current.id = n := by simpa using hmarker
  cases hlocked with
  | absent hnone =>
    exact absurd hid ((Dead.of_absent hiy hnone (hgy.used n hn)).guar hlz.guar |>.not_current hiz hcurrent)
  | object o hheld ho =>
    have hoz : z.rows (.object k) = some o := (hlz.rows _ (.inl hheld)).trans ho
    have hf : Found strict k z.rows o := .of_inv hiz hoz
    have he : Editing k z.rows z.rows z := .of_clean hz (by rw [hlz.held]; exact hheld)
    have howner : current.objectID = o.id := by
      obtain ⟨o', m, ho', -, -, -, howner⟩ := selectCurrent_eq_some.mp hcurrent
      rw [hoz] at ho'
      cases ho'
      exact howner
    refine Body.bind (he.body_look fun u heu hs => Body.bind (Body.orRefuse fun v hv =>
      Body.bind (Body.demand fun _ => ?_)))
    refine Body.bind (heu.body_updateObject hoz (if_pos howner.symm) fun w hew => ?_)
    refine Body.bind (hew.body_deleteVersions _ (fun m hm => ?_) fun t target' het hobject hversions => Body.pure ?_)
    · obtain ⟨marker, hin, rfl⟩ := List.mem_map.mp hm
      obtain ⟨hrow, hk, ho'⟩ := hs.mem_newestFirst.mp (List.takeWhile_subset _ hin)
      exact ⟨marker, hrow, hk, by simp [hk, ho']⟩
    · refine ⟨z.rows, target', het, moves_of_inv hwrites nofun (undelete_inv hf (fun w' => ?_)
        (List.pairwise_insertionSort _ _) hv ?_ fun m w' hk => ?_)⟩
      · rw [howner]; exact hs.mem_newestFirst
      · rw [hobject, Function.update_self]
      · rw [hversions m w' hk, Function.update_of_ne (Row.version_ne_object m k)]
        rfl

theorem body_deleteObject (hwrites : writes = false) (hx : Clean x) (hn : (x.rows (.version n)).isSome = true) :
    Body (contract strict writes) allow (fun _ y => Done strict writes ⟨.deleteObject, k, none, [], none⟩ y)
      (deleteDeletedObjectPermanently k n) x := by
  refine Body.bind (body_look hx fun x₁ hx₁ _ hl₁ => Body.bind (Body.orRefuse fun _ _ =>
    Body.bind (Body.demand fun _ => ?_)))
  refine Body.bind (body_look hx₁ fun x₂ hx₂ _ hl₂ => Body.bind (Body.demand fun _ => ?_))
  refine Body.bind (body_lockCurrent hx₂ fun y hy hiy hgy hlocked => ?_)
  refine Body.bind (body_lockVersions _ hy hiy fun u hu _ hgu hheldu => ?_)
  refine Body.bind (body_look hu fun z hz hiz hlz => Body.bind (Body.orRefuse fun current hcurrent => ?_))
  refine Body.bind (Body.demand fun hmarker => ?_)
  obtain ⟨-, hid⟩ : current.isDeleteMarker = true ∧ current.id = n := by simpa using hmarker
  have hused : (y.rows (.version n)).isSome = true :=
    hgy.used n ((show Guar writes _ _ from hl₂.guar).used n ((show Guar writes _ _ from hl₁.guar).used n hn))
  cases hlocked with
  | absent hnone =>
    exact absurd hid (((Dead.of_absent hiy hnone hused).guar hgu).guar hlz.guar |>.not_current hiz hcurrent)
  | object o hheld ho =>
    obtain ⟨hheld', hrows'⟩ := hheldu _ hheld
    have hoz : z.rows (.object k) = some o := (hlz.rows _ (.inl hheld')).trans (hrows'.trans ho)
    have hf : Found strict k z.rows o := .of_inv hiz hoz
    have he : Editing k z.rows z.rows z := .of_clean hz (by rw [hlz.held]; exact hheld')
    have howner : current.objectID = o.id := by
      obtain ⟨o', m, ho', -, -, -, howner⟩ := selectCurrent_eq_some.mp hcurrent
      rw [hoz] at ho'
      cases ho'
      exact howner
    refine Body.bind (he.body_look fun v hev _ => Body.bind (Body.demand fun _ => ?_))
    refine Body.bind (hev.body_updateObject hoz (if_pos howner.symm) fun w hew => ?_)
    refine Body.bind (hew.body_look fun w' hew' hs => ?_)
    refine Body.bind (hew'.body_deleteVersions _ (fun m hm => ?_) fun t target' het hobject hversions => ?_)
    · obtain ⟨u', hin, rfl⟩ := List.mem_map.mp hm
      obtain ⟨hrow, hk, ho'⟩ := hs.mem_versionsOf.mp hin
      rw [Function.update_of_ne (Row.version_ne_object u'.id k)] at hrow
      exact ⟨u', hrow, hk, by simp [hk, ho']⟩
    · have hpointer : target' (.object k) = some { o with currentVersionID := none } := by
        rw [hobject, Function.update_self]
      refine Body.bind (het.body_updateObject hpointer (if_pos howner.symm) fun t' het' => Body.pure ?_)
      refine ⟨z.rows, _, het', moves_of_inv hwrites nofun (emptied_inv (Function.update_self ..) fun m w hk hw => ?_)⟩
      -- every version of the object was in the list that was deleted
      rw [Function.update_of_ne (Row.version_ne_object m k), hversions m w hk] at hw
      have hbase : z.rows (.version m) = some (some w) := by
        have := hw.1
        rwa [Function.update_of_ne (Row.version_ne_object m k)] at this
      obtain rfl := hf.ids m w hbase
      refine hw.2 (List.mem_map.mpr ⟨w, hs.mem_versionsOf.mpr ⟨hw.1, hk, ?_⟩, rfl⟩)
      rw [howner]
      exact hf.owned hbase hk

end SynapS3.Object
