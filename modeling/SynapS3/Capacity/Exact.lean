import SynapS3.Capacity.Bound

/-!
# `Capacity.Exact` — `usedBytes` is what the files hold

While an operation is in progress, `usedBytes` and the disk differ by what the operation has done to one and not yet
to the other (`Op.owed`), provided that what it found on the disk is still there (`Op.Knows`). What one operation
found stays true when another takes a step, because the two are at different files (`Apart`): the shards see to
that, except for the files of an upload that `DeleteUpload` removes and for the quarantined file that `Quarantine`
replaces, which are worked on outside their shard.
-/

namespace SynapS3.Capacity

/-! ## What an operation owes, and what it knows -/

/-- What the files hold beyond `usedBytes` on account of a commit. -/
def Commit.owed (c : Commit) : CommitAt → Int
  | .stat | .link _ => 0
  | .rename old => if c.preserves old then old.getD 0 else 0
  | .dropPrevious old => old
  | .sync old => if c.preserves old then c.n else c.n - (old.getD 0 : Nat)
  | .removeUnsynced => c.n
  | .removePrevious _ | .restore _ => c.n
  | .settle old => c.n - (old : Int)

/-- By how much `usedBytes` is above what the files hold, for this operation. -/
def Op.owed : Op → Int
  | .commit c pc => c.owed pc
  | .delete _ (.subtract n) | .quarantine _ _ (.subtract n) | .deleteBucketDir _ (.subtract n) => -(n : Int)
  | _ => 0

/-- The destination and the preserved part are as the commit left or found them. -/
def Commit.Knows (disk : Files Place) (c : Commit) : CommitAt → Prop
  | .stat | .settle _ => True
  | .link old => c.replacePart = true ∧ disk.size (.entry c.dest) = some old
  | .rename old => disk.size (.entry c.dest) = old ∧ (c.preserves old = true → disk.size c.previous = old)
  | .dropPrevious old => disk.size c.previous = some old
  | .sync old => disk.size (.entry c.dest) = some c.n ∧ (c.preserves old = true → disk.size c.previous = old)
  | .removeUnsynced => disk.size (.entry c.dest) = some c.n
  | .removePrevious old | .restore old => disk.size (.entry c.dest) = some c.n ∧ disk.size c.previous = some old

/-- What an operation found on the disk is still there. -/
def Op.Knows (disk : Files Place) : Op → Prop
  | .commit c pc => c.Knows disk pc
  | .delete e (.remove n) => disk.size (.entry e) = some n
  | .quarantine b id (.rename replaced) => (disk.size (.entry (.quarantine b id))).getD 0 = replaced
  | .deleteBucketDir b (.removeAll totalSize) => disk.total (fun p => p.counted && p.inBucket b) = totalSize
  | .deleteUpload u (.remove p n) => p.inUpload u = true ∧ (p.counted = true → disk.size p = some n)
  | _ => True

/-- The answers under which the charges are right: `Stat` fails for no destination but a part's, the walk of a bucket
    reads every file in it, and a removal of the bucket that fails leaves every file. -/
def Op.fair (disk : Files Place) : Op → Answer → Bool
  | .commit _ .stat, .ok => true
  | .commit c .stat, _ => c.replacePart
  | .deleteBucketDir b .walk, .walked unread => decide (∀ p ∈ disk.support, p.inBucket b = true → unread p = false)
  | .deleteBucketDir b (.removeAll _), .partly left => decide (∀ p ∈ disk.support, p.inBucket b = true → left p = true)
  | _, _ => true

/-- The file operation changes the disk and what is owed by the same amount. -/
structure Balanced (disk : Files Place) (op : Op) (a : After) : Prop where
  total : (a.disk.total Place.counted : Int) + op.owed = disk.total Place.counted + a.charge + a.op.owed
  knows : a.op.Knows a.disk

variable {p : Place} {disk : Files Place}

theorem total_set_counted (disk : Files Place) (hp : p.counted = true) (n : Option Nat) :
    (disk.set p n).total Place.counted + (disk.size p).getD 0 = disk.total Place.counted + n.getD 0 :=
  Files.total_set_of hp n

theorem total_rename_temp (disk : Files Place) (c : Commit) :
    (disk.rename c.temp (.entry c.dest)).total Place.counted + (disk.size (.entry c.dest)).getD 0 =
      disk.total Place.counted + (disk.size c.temp).getD 0 := by
  have hset := total_set_counted (disk.set c.temp none) (p := .entry c.dest) rfl (disk.size c.temp)
  have hne : Place.entry c.dest ≠ c.temp := nofun
  have htemp : (disk.set c.temp none).total Place.counted = disk.total Place.counted := Files.total_set_other _ _ rfl
  rw [Files.size_set_ne _ hne, htemp] at hset
  exact hset

theorem total_rename_counted (disk : Files Place) {q : Place} (hp : p.counted = true) (hq : q.counted = true)
    (hne : q ≠ p) :
    (disk.rename p q).total Place.counted + (disk.size q).getD 0 = disk.total Place.counted := by
  have hset := total_set_counted (disk.set p none) hq (disk.size p)
  have hgone := total_set_counted disk hp none
  rw [Files.size_set_ne _ hne] at hset
  simp only [Option.getD_none] at hgone
  show ((disk.set p none).set q (disk.size p)).total _ + _ = _
  omega

theorem Answer.onFile_isSome {ans : Answer} (h : ans.onFile disk p = true) : ∃ n, disk.size p = some n := by
  cases ans with
  | ok => exact Option.isSome_iff_exists.mp h
  | _ => cases h

variable {op : Op}

theorem Balanced.unchanged {op' : Op} (howed : op'.owed = op.owed) (hk : op'.Knows disk) :
    Balanced disk op ⟨disk, op', 0, 0, none⟩ where
  total := by
    dsimp only
    omega
  knows := hk

variable {charge : Int} {un : Nat} {w : Option Nat}

theorem Balanced.charged (h : op.owed = charge) : Balanced disk op ⟨disk, .done, charge, un, w⟩ where
  total := by
    show (disk.total Place.counted : Int) + op.owed = disk.total Place.counted + charge + 0
    omega
  knows := trivial

theorem Balanced.removed {op' : Op} {n : Nat} (hp : p.counted = true) (hn : disk.size p = some n)
    (howed : op.owed = n + charge + op'.owed) (hk : op'.Knows (disk.set p none)) :
    Balanced disk op ⟨disk.set p none, op', charge, un, w⟩ where
  total := by
    have hset := total_set_counted disk hp none
    rw [hn] at hset
    simp only [Option.getD_some, Option.getD_none] at hset ⊢
    omega
  knows := hk

section Commit

variable {disk : Files Place} {c : Commit} {ans : Answer}

theorem Commit.previous_ne (c : Commit) : Place.entry c.dest ≠ c.previous := nofun

theorem Commit.previous_ne_temp (c : Commit) : c.previous ≠ c.temp := nofun

theorem Commit.balanced_stat (hf : (Op.commit c .stat).fair disk ans = true) :
    Balanced disk (.commit c .stat) (c.next disk .stat ans) := by
  cases ans with
  | ok =>
    simp only [Commit.next]
    cases hold : disk.size (.entry c.dest) with
    | none => exact .unchanged (by simp [Op.owed, Commit.owed, Commit.preserves]) ⟨hold, by simp [Commit.preserves]⟩
    | some old =>
      cases hp : c.replacePart with
      | true => exact .unchanged rfl ⟨hp, hold⟩
      | false =>
        have hpre : c.preserves (some old) = false := by simp [Commit.preserves, hp]
        exact .unchanged (by simp [Op.owed, Commit.owed, hpre]) ⟨hold, by simp [hpre]⟩
  | _ =>
    have hp : c.replacePart = true := hf
    simp only [Commit.next, hp, if_true]
    exact .unchanged rfl trivial

theorem Commit.balanced_link {old : Nat} (hk : c.Knows disk (.link old)) :
    Balanced disk (.commit c (.link old)) (c.next disk (.link old) ans) := by
  obtain ⟨hp, hdest⟩ := hk
  have hpre : c.preserves (some old) = true := by simp [Commit.preserves, hp]
  simp only [Commit.next]
  split
  · next hok =>
    obtain ⟨-, hnone⟩ := Bool.and_eq_true_iff.mp hok
    have hset := total_set_counted disk (p := c.previous) rfl (disk.size (.entry c.dest))
    rw [Option.isNone_iff_eq_none.mp hnone, hdest] at hset
    rw [hdest]
    refine ⟨?_, ?_, fun _ => Files.size_set_self _ _ _⟩
    · simp only [Op.owed, Commit.owed, hpre, if_true, Option.getD_some, Option.getD_none] at hset ⊢
      omega
    · rw [Files.size_set_ne _ c.previous_ne, hdest]
  · exact .unchanged rfl trivial

theorem Commit.balanced_rename {old : Option Nat} (htemp : ∀ m, disk.size c.temp = some m → m = c.n)
    (hk : c.Knows disk (.rename old)) :
    Balanced disk (.commit c (.rename old)) (c.next disk (.rename old) ans) := by
  obtain ⟨hdest, hprev⟩ := hk
  simp only [Commit.next]
  split
  · next hok =>
    obtain ⟨m, hm⟩ := Answer.onFile_isSome hok
    have htotal := total_rename_temp disk c
    rw [hm, hdest] at htotal
    have hmn := htemp m hm
    refine ⟨?_, ?_, ?_⟩
    · cases hpre : c.preserves old with
      | true =>
        simp only [Op.owed, Commit.owed, hpre, if_true, Option.getD_some] at htotal ⊢
        omega
      | false =>
        simp only [Op.owed, Commit.owed, hpre, Bool.false_eq_true, if_false, Option.getD_some] at htotal ⊢
        omega
    · show (disk.rename c.temp (.entry c.dest)).size (.entry c.dest) = _
      rw [Files.size_rename_to, hm, hmn]
    · intro hpre
      show (disk.rename c.temp (.entry c.dest)).size c.previous = _
      rw [Files.size_rename_ne _ c.previous_ne_temp c.previous_ne.symm, hprev hpre]
  · cases hpre : c.preserves old with
    | true =>
      cases old with
      | none => simp [Commit.preserves] at hpre
      | some o => exact .unchanged (by simp [Op.owed, Commit.owed, hpre]) (hprev hpre)
    | false => exact .unchanged (by simp [Op.owed, Commit.owed, hpre]) trivial

theorem Commit.balanced_dropPrevious {old : Nat} (hk : c.Knows disk (.dropPrevious old)) :
    Balanced disk (.commit c (.dropPrevious old)) (c.next disk (.dropPrevious old) ans) := by
  have hprev : disk.size c.previous = some old := hk
  simp only [Commit.next]
  split
  · exact .removed rfl hprev (by simp [Op.owed, Commit.owed]) trivial
  · exact .charged rfl

theorem Commit.balanced_sync {old : Option Nat} (hk : c.Knows disk (.sync old)) :
    Balanced disk (.commit c (.sync old)) (c.next disk (.sync old) ans) := by
  obtain ⟨hdest, hprev⟩ := hk
  simp only [Commit.next]
  split
  · cases hpre : c.preserves old with
    | true =>
      cases old with
      | none => simp [Commit.preserves] at hpre
      | some o => exact .unchanged (by simp [Op.owed, Commit.owed, hpre]) ⟨hdest, hprev hpre⟩
    | false => exact .unchanged (by simp [Op.owed, Commit.owed, hpre]) trivial
  · cases old with
    | none => exact .unchanged (by simp [Op.owed, Commit.owed, Commit.preserves]) hdest
    | some o =>
      cases hpre : c.preserves (some o) with
      | true => exact .unchanged (by simp [Op.owed, Commit.owed, hpre]) ⟨hdest, hprev hpre⟩
      | false => exact .unchanged (by simp [Op.owed, Commit.owed, hpre]) trivial

theorem Commit.balanced_removeUnsynced (hk : c.Knows disk .removeUnsynced) :
    Balanced disk (.commit c .removeUnsynced) (c.next disk .removeUnsynced ans) := by
  have hdest : disk.size (.entry c.dest) = some c.n := hk
  simp only [Commit.next]
  split
  · exact .removed rfl hdest (by simp [Op.owed, Commit.owed]) trivial
  · exact .unchanged (by simp [Op.owed, Commit.owed]) trivial

theorem Commit.balanced_removePrevious {old : Nat} (hk : c.Knows disk (.removePrevious old)) :
    Balanced disk (.commit c (.removePrevious old)) (c.next disk (.removePrevious old) ans) := by
  obtain ⟨hdest, hprev⟩ := hk
  simp only [Commit.next]
  split
  · exact .removed rfl hprev (by simp only [Op.owed, Commit.owed]; omega) trivial
  · exact .unchanged rfl ⟨hdest, hprev⟩

theorem Commit.balanced_restore {old : Nat} (hk : c.Knows disk (.restore old)) :
    Balanced disk (.commit c (.restore old)) (c.next disk (.restore old) ans) := by
  obtain ⟨hdest, hprev⟩ := hk
  simp only [Commit.next]
  split
  · have htotal := total_rename_counted disk (p := c.previous) (q := .entry c.dest) rfl rfl c.previous_ne
    rw [hdest] at htotal
    refine ⟨?_, trivial⟩
    simp only [Op.owed, Commit.owed, Option.getD_some] at htotal ⊢
    omega
  · exact .charged rfl

theorem Commit.balanced {pc : CommitAt} (hf : (Op.commit c pc).fair disk ans = true)
    (htemp : ∀ m, disk.size c.temp = some m → m = c.n) (hk : c.Knows disk pc) :
    Balanced disk (.commit c pc) (c.next disk pc ans) := by
  cases pc with
  | stat => exact balanced_stat hf
  | link old => exact balanced_link hk
  | rename old => exact balanced_rename htemp hk
  | dropPrevious old => exact balanced_dropPrevious hk
  | sync old => exact balanced_sync hk
  | removeUnsynced => exact balanced_removeUnsynced hk
  | removePrevious old => exact balanced_removePrevious hk
  | restore old => exact balanced_restore hk
  | settle old => exact .charged rfl

end Commit

/-! ## The other operations -/

section Others

variable {disk : Files Place} {ans : Answer}

theorem balanced_delete {e : Entry} {pc : DeleteAt} (hk : (Op.delete e pc).Knows disk) :
    Balanced disk (.delete e pc) (deleteNext disk e pc ans) := by
  cases pc with
  | stat =>
    simp only [deleteNext]
    split
    · next hn => exact .unchanged rfl hn
    · exact .unchanged rfl trivial
  | remove n =>
    simp only [deleteNext]
    split
    · exact .removed rfl hk (by simp [Op.owed]) trivial
    · exact .unchanged rfl trivial
  | subtract n => exact .charged rfl

variable {b : Nat}

theorem balanced_quarantine {id : Nat} {pc : QuarantineAt} (hk : (Op.quarantine b id pc).Knows disk) :
    Balanced disk (.quarantine b id pc) (quarantineNext disk b id pc ans) := by
  cases pc with
  | stat =>
    simp only [quarantineNext]
    split
    · exact .unchanged rfl rfl
    · exact .unchanged rfl trivial
  | rename replaced =>
    have hreplaced : (disk.size (.entry (.quarantine b id))).getD 0 = replaced := hk
    simp only [quarantineNext]
    split
    · have htotal := total_rename_counted disk (p := .entry (.contents b id)) (q := .entry (.quarantine b id))
        rfl rfl (by simp)
      refine ⟨?_, trivial⟩
      simp only [Op.owed] at htotal ⊢
      omega
    · exact .unchanged rfl trivial
  | subtract replaced => exact .charged rfl

variable {a : After}

theorem balanced_deleteBucketDir {pc : BucketAt} (hf : (Op.deleteBucketDir b pc).fair disk ans = true)
    (hk : (Op.deleteBucketDir b pc).Knows disk) (hn : deleteBucketDirNext disk b pc ans = some a) :
    Balanced disk (.deleteBucketDir b pc) a := by
  simp only [deleteBucketDirNext] at hn
  split at hn <;> cases hn
  · next unread =>
    refine .unchanged rfl ?_
    have hread : ∀ p ∈ disk.support, p.inBucket b = true → unread p = false := of_decide_eq_true hf
    refine Finset.sum_congr rfl fun p hp => ?_
    cases hb : p.inBucket b with
    | true => simp [hread p hp hb]
    | false => simp [hb]
  · next totalSize =>
    have htotal : disk.total (fun p => p.counted && p.inBucket b) = totalSize := hk
    have hremoved := disk.total_removeWhere (·.inBucket b) Place.counted
    refine ⟨?_, trivial⟩
    simp only [Op.owed] at hremoved ⊢
    omega
  · next left =>
    have hleft : ∀ p ∈ disk.support, p.inBucket b = true → left p = true := of_decide_eq_true hf
    have hsame : (disk.removeWhere fun p => p.inBucket b && !left p).total Place.counted =
        disk.total Place.counted := by
      refine Finset.sum_congr rfl fun p hp => ?_
      rw [Files.size_removeWhere]
      cases hb : p.inBucket b with
      | true => simp [hleft p hp hb]
      | false => simp
    refine ⟨?_, trivial⟩
    simp only [Op.owed, hsame]
    omega
  · exact .charged rfl

theorem balanced_deleteUpload {u : Nat} {pc : UploadAt} (hk : (Op.deleteUpload u pc).Knows disk)
    (hn : deleteUploadNext disk u pc ans = some a) : Balanced disk (.deleteUpload u pc) a := by
  simp only [deleteUploadNext] at hn
  split at hn
  · split at hn
    · split at hn
      · next hu =>
        split at hn <;> cases hn
        · next hn => exact .unchanged rfl ⟨hu, fun _ => hn⟩
        · exact .unchanged rfl trivial
      · cases hn
    · cases hn
      exact .unchanged rfl trivial
  · next p n =>
    obtain ⟨-, hsize⟩ := hk
    split at hn
    · cases hn
      cases hc : p.counted with
      | true => exact .removed hc (hsize hc) (by simp [Op.owed]) trivial
      | false =>
        have hset := Files.total_set_other disk none hc
        refine ⟨?_, trivial⟩
        simp only [Op.owed, Bool.false_eq_true, if_false, hset]
        omega
    · cases hn
      cases (disk.size p).isNone with
      | true | false => exact .unchanged rfl trivial

/-- Every file operation keeps the balance, if what the operation found is still there. -/
theorem Op.next_exact (hf : op.fair disk ans = true)
    (htemp : ∀ c pc, op = .commit c pc → ∀ m, disk.size c.temp = some m → m = c.n) (hk : op.Knows disk)
    (hn : op.next disk ans = some a) : Balanced disk op a := by
  cases op with
  | commit c pc =>
    cases hn
    exact Commit.balanced hf (htemp c pc rfl) hk
  | delete e pc =>
    cases hn
    exact balanced_delete hk
  | quarantine b id pc =>
    cases hn
    exact balanced_quarantine hk
  | deleteBucketDir b pc => exact balanced_deleteBucketDir hf hk hn
  | deleteUpload u pc => exact balanced_deleteUpload hk hn
  | done => cases hn

end Others

/-! ## The files an operation is at -/

/-- The files that an operation changes or has looked at. -/
def Op.Works : Op → Place → Prop
  | .commit c _, p => p = .entry c.dest ∨ p = c.previous
  | .delete e _, p => p = .entry e
  | .quarantine b id _, p => p = .entry (.contents b id) ∨ p = .entry (.quarantine b id)
  | .deleteBucketDir b _, p => p.inBucket b = true
  | .deleteUpload u _, p => p.inUpload u = true
  | .done, _ => False

/-- The two work at no common file. -/
def Apart (op op' : Op) : Prop := ∀ p, op.Works p → ¬op'.Works p

theorem Apart.symm {op' : Op} (h : Apart op op') : Apart op' op := fun p hp hp' => h p hp' hp

section Frame

variable {disk : Files Place} {ans : Answer} {op : Op} {a : After}

theorem Op.next_works (hn : op.next disk ans = some a) (hp : a.op.Works p) : op.Works p := by
  cases op with
  | commit c pc =>
    cases hn
    rcases c.next_op disk pc ans with hdone | ⟨pc', hpc⟩
    · rw [hdone] at hp
      exact hp.elim
    · rw [hpc] at hp
      exact hp
  | delete e pc =>
    cases hn
    cases pc <;> simp only [deleteNext] at hp
    all_goals repeat' split at hp
    all_goals first | exact hp | exact hp.elim
  | quarantine b id pc =>
    cases hn
    cases pc <;> simp only [quarantineNext] at hp
    all_goals repeat' split at hp
    all_goals first | exact hp | exact hp.elim
  | deleteBucketDir b pc =>
    simp only [Op.next, deleteBucketDirNext] at hn
    split at hn <;> cases hn
    all_goals first | exact hp | exact hp.elim
  | deleteUpload u pc =>
    simp only [Op.next, deleteUploadNext] at hn
    repeat' split at hn
    all_goals cases hn
    all_goals first | exact hp | exact hp.elim
  | done => cases hn

/-- What a step of an operation does to the disk. -/
inductive Touch (op : Op) (disk : Files Place) : Files Place → Prop
  | same : Touch op disk disk
  | set {p : Place} {n : Option Nat} : op.Works p → (p.counted = false → n = none) → Touch op disk (disk.set p n)
  | rename {p q : Place} : (p.counted = true → op.Works p) → op.Works q → q.counted = true →
      Touch op disk (disk.rename p q)
  | sweep {f : Place → Bool} : (∀ p, f p = true → op.Works p) → Touch op disk (disk.removeWhere f)

section

variable (hk : op.Knows disk) (hn : op.next disk ans = some a)
include hk hn

theorem Op.next_touch : Touch op disk a.disk := by
  cases op with
  | commit c pc =>
    cases hn
    cases pc with
    | settle old => exact .same
    | _ =>
      simp only [Commit.next]
      repeat' split
      all_goals first
        | exact .same
        | exact .set (.inl rfl) fun hc => absurd hc.symm Bool.false_ne_true
        | exact .set (.inr rfl) fun hc => absurd hc.symm Bool.false_ne_true
        | exact .rename (fun _ => .inr rfl) (.inl rfl) rfl
        | exact .rename (fun hc => absurd hc Bool.false_ne_true) (.inl rfl) rfl
  | delete e pc =>
    cases hn
    cases pc <;> simp only [deleteNext]
    · split <;> exact .same
    · split
      · exact .set rfl fun hc => absurd hc.symm Bool.false_ne_true
      · exact .same
    · exact .same
  | quarantine b id pc =>
    cases hn
    cases pc <;> simp only [quarantineNext]
    · split <;> exact .same
    · split
      · exact .rename (fun _ => .inl rfl) (.inr rfl) rfl
      · exact .same
    · exact .same
  | deleteBucketDir b pc =>
    simp only [Op.next, deleteBucketDirNext] at hn
    split at hn <;> cases hn
    · exact .same
    · exact .sweep fun _ hp => hp
    · exact .sweep fun _ hp => (Bool.and_eq_true_iff.mp hp).1
    · exact .same
  | deleteUpload u pc =>
    simp only [Op.next, deleteUploadNext] at hn
    repeat' split at hn
    all_goals cases hn
    all_goals first | exact .same | exact .set hk.1 fun _ => rfl
  | done => cases hn

theorem Op.next_frame (hc : p.counted = true) (hp : ¬op.Works p) : a.disk.size p = disk.size p := by
  have htouch := Op.next_touch hk hn
  generalize a.disk = d at htouch ⊢
  cases htouch with
  | same => rfl
  | set hq _ =>
    refine Files.size_set_ne _ ?_ _
    rintro rfl
    exact hp hq
  | rename hsrc hdst _ =>
    refine Files.size_rename_ne _ ?_ ?_ <;> rintro rfl
    · exact hp (hsrc hc)
    · exact hp hdst
  | sweep hf => rw [Files.size_removeWhere, if_neg fun h => hp (hf p h)]

theorem Op.next_temp (e : Entry) (w : Nat) :
    a.disk.size (.temp e w) = disk.size (.temp e w) ∨ a.disk.size (.temp e w) = none := by
  have htouch := Op.next_touch hk hn
  generalize a.disk = d at htouch ⊢
  cases htouch with
  | same => exact .inl rfl
  | @set p n _ hnone =>
    by_cases h : Place.temp e w = p
    · subst h
      exact .inr (by rw [Files.size_set_self, hnone rfl])
    · exact .inl (Files.size_set_ne _ h _)
  | @rename p q _ _ hq =>
    have hne : Place.temp e w ≠ q := by
      rintro rfl
      cases hq
    by_cases h : Place.temp e w = p
    · subst h
      exact .inr (Files.size_rename_old _ hne)
    · exact .inl (Files.size_rename_ne _ h hne)
  | sweep =>
    rw [Files.size_removeWhere]
    split
    · exact .inr rfl
    · exact .inl rfl

end

theorem Op.Knows.congr {disk' : Files Place} (h : ∀ p, p.counted = true → op.Works p → disk'.size p = disk.size p)
    (hk : op.Knows disk) : op.Knows disk' := by
  cases op with
  | commit c pc =>
    have hdest : disk'.size (.entry c.dest) = disk.size (.entry c.dest) := h _ rfl (.inl rfl)
    have hprev : disk'.size c.previous = disk.size c.previous := h _ rfl (.inr rfl)
    cases pc <;> simp only [Op.Knows, Commit.Knows, hdest, hprev] at hk ⊢
    all_goals exact hk
  | delete e pc =>
    cases pc with
    | remove n => exact (h _ rfl rfl).trans hk
    | _ => trivial
  | quarantine b id pc =>
    cases pc with
    | rename replaced =>
      show (disk'.size _).getD 0 = _
      rw [h _ rfl (.inr rfl)]
      exact hk
    | _ => trivial
  | deleteBucketDir b pc =>
    cases pc with
    | removeAll totalSize =>
      refine (Files.total_congr fun p hp => ?_).trans hk
      obtain ⟨hc, hb⟩ := Bool.and_eq_true_iff.mp hp
      exact h p hc hb
    | _ => trivial
  | deleteUpload u pc =>
    cases pc with
    | remove p n => exact ⟨hk.1, fun hc => (h p hc hk.1).trans (hk.2 hc)⟩
    | walk => trivial
  | done => trivial

end Frame

/-! ## Operations that begin -/

/-- Operations at one file that no shard keeps apart: `Quarantine` replaces a file under the shard of another, and
    `DeleteUpload` takes no shard. -/
def Op.overlaps : Op → Op → Bool
  | .commit c _, .quarantine b id _ => c.dest == .quarantine b id
  | .delete e _, .quarantine b id _ => e == .quarantine b id
  | .commit c _, .deleteUpload u _ => c.dest.upload == some u || c.home.upload == some u
  | .delete e _, .deleteUpload u _ => e.upload == some u
  | .deleteUpload u _, .deleteUpload v _ => u == v
  | _, _ => false

section Begin

variable {shard : Entry → Nat} {s s' : State} {op : Op}

/-- An operation that holds no shard of an entry is at the entry only outside its own shard. -/
theorem Op.Works.outside {e : Entry} (h : op.Works (.entry e)) (hlock : op.locks shard (shard e) = false) :
    (∃ b id pc, op = .quarantine b id pc ∧ e = .quarantine b id) ∨
      ∃ u pc, op = .deleteUpload u pc ∧ e.upload = some u := by
  cases op with
  | commit c pc =>
    rcases h with h | h
    · cases h
      simp [Op.locks] at hlock
    · cases h
  | delete e' pc =>
    cases h
    simp [Op.locks] at hlock
  | quarantine b id pc =>
    rcases h with h | h
    · cases h
      simp [Op.locks] at hlock
    · exact .inl ⟨b, id, pc, rfl, Place.entry.inj h⟩
  | deleteBucketDir b pc => cases hlock
  | deleteUpload u pc => exact .inr ⟨u, pc, rfl, beq_iff_eq.mp h⟩
  | done => cases h

/-- No shard of two operations in common, and no file outside their shards: they are at different files. -/
theorem apart_commit {c : Commit} {pc : CommitAt} (hw : op.onWrite c.w = false)
    (hlock : op.locks shard (shard c.dest) = false) (hov : (Op.commit c pc).overlaps op = false) :
    Apart (.commit c pc) op := by
  rintro p (rfl | rfl) hp'
  · rcases hp'.outside hlock with ⟨b, id, pd, rfl, he⟩ | ⟨u, pd, rfl, he⟩ <;> simp [Op.overlaps, he] at hov
  · cases op with
    | commit d pd =>
      simp only [Op.onWrite, beq_eq_false_iff_ne] at hw
      rcases hp' with hp' | hp'
      · cases hp'
      · exact hw (Place.previous.inj hp').2.symm
    | delete e pd => cases hp'
    | quarantine b id pd => rcases hp' with hp' | hp' <;> cases hp'
    | deleteBucketDir b pd => cases hlock
    | deleteUpload u pd =>
      have hu : c.home.upload = some u := beq_iff_eq.mp hp'
      simp [Op.overlaps, hu] at hov
    | done => exact hp'

theorem apart_delete {e : Entry} {pc : DeleteAt} (hlock : op.locks shard (shard e) = false)
    (hov : (Op.delete e pc).overlaps op = false) : Apart (.delete e pc) op := by
  rintro p rfl hp'
  rcases hp'.outside hlock with ⟨b, id, pd, rfl, he⟩ | ⟨u, pd, rfl, he⟩ <;> simp [Op.overlaps, he] at hov

variable {b : Nat} {x : Action}

theorem apart_quarantine {id : Nat} {pc : QuarantineAt} (hlock : op.locks shard (shard (.contents b id)) = false)
    (hov : op.overlaps (.quarantine b id pc) = false) : Apart (.quarantine b id pc) op := by
  rintro p (rfl | rfl) hp'
  · rcases hp'.outside hlock with ⟨b', id', pd, rfl, he⟩ | ⟨u, pd, rfl, he⟩ <;> cases he
  · cases op with
    | commit c pd =>
      rcases hp' with hp' | hp'
      · simp [Op.overlaps, Place.entry.inj hp'] at hov
      · cases hp'
    | delete e pd => simp [Op.overlaps, Place.entry.inj hp'] at hov
    | quarantine b' id' pd =>
      rcases hp' with hp' | hp' <;> cases hp'
      simp [Op.locks] at hlock
    | deleteBucketDir b' pd => cases hlock
    | deleteUpload u pd => cases hp'
    | done => exact hp'

theorem apart_deleteBucketDir {pc : BucketAt} (hlock : op.locking = false) : Apart (.deleteBucketDir b pc) op := by
  rintro p hp hp'
  cases op with
  | deleteUpload u pd =>
    have hb : p.beside.bucket = some b := beq_iff_eq.mp hp
    have hu : p.beside.upload = some u := beq_iff_eq.mp hp'
    cases hplace : p.beside with
    | part _ _ => simp [hplace, Entry.bucket] at hb
    | _ => simp [hplace, Entry.upload] at hu
  | done => exact hp'
  | _ => cases hlock

theorem apart_deleteUpload {u : Nat} {pc : UploadAt} (hov : op.overlaps (.deleteUpload u pc) = false) :
    Apart (.deleteUpload u pc) op := by
  rintro p hp hp'
  have hu : p.beside.upload = some u := beq_iff_eq.mp hp
  cases op with
  | commit c pd =>
    simp only [Op.overlaps, Bool.or_eq_false_iff, beq_eq_false_iff_ne] at hov
    rcases hp' with rfl | rfl
    · exact hov.1 hu
    · exact hov.2 hu
  | delete e pd =>
    simp only [Op.overlaps, beq_eq_false_iff_ne] at hov
    cases hp'
    exact hov hu
  | quarantine b id pd => rcases hp' with rfl | rfl <;> cases hu
  | deleteBucketDir b pd =>
    have hapart : Apart (.deleteBucketDir b pd) (.deleteUpload u pc) := apart_deleteBucketDir rfl
    exact hapart p hp' hp
  | deleteUpload v pd =>
    simp only [Op.overlaps, beq_eq_false_iff_ne] at hov
    have hv : p.beside.upload = some v := beq_iff_eq.mp hp'
    rw [hu] at hv
    exact hov (Option.some.inj hv).symm
  | done => exact hp'

/-- An operation that begins is at other files than those in progress, unless it overlaps one of them. -/
theorem begins_apart {op' : Op} {j : Nat} (hb : s.begins shard x = some op) (hj : s.ops.row j = some op')
    (hov : op.overlaps op' = false) (hov' : op'.overlaps op = false) : Apart op op' := by
  have hfree : ∀ {f : Op → Bool}, (s.ops.any fun _ o => f o) = false → f op' = false := fun hf =>
    Table.any_eq_false.mp hf j op' hj
  cases Ledger.begins_begun hb with
  | commit _ _ _ hw hlock => exact apart_commit (hfree hw) (hfree hlock) hov
  | delete hlock => exact apart_delete (hfree hlock) hov
  | quarantine hlock => exact apart_quarantine (hfree hlock) hov'
  | deleteBucketDir hlock => exact apart_deleteBucketDir (hfree hlock)
  | deleteUpload => exact apart_deleteUpload hov'

theorem begins_owed (hb : s.begins shard x = some op) : op.owed = 0 ∧ ∀ disk, op.Knows disk := by
  cases Ledger.begins_begun hb <;> exact ⟨rfl, fun _ => trivial⟩

end Begin

/-! ## Whole runs -/

/-- `usedBytes` is what the files hold, up to what the operations in progress owe. -/
structure Exact (s : State) : Prop where
  ledger : Ledger s
  used : s.usedBytes + s.ops.sum Op.owed = s.disk.total Place.counted
  knows : ∀ i op, s.ops.row i = some op → op.Knows s.disk
  apart : ∀ i j op op', s.ops.row i = some op → s.ops.row j = some op' → i ≠ j → Apart op op'
  temp : ∀ w r, s.writes.row w = some r → r.Sized s.disk w

/-- What is asked of a step: its file operation goes as `Op.fair` says, and the operation it begins overlaps none in
    progress. -/
def calm (shard : Entry → Nat) (s : State) : Action → Bool
  | .advance i ans => (s.ops.row i).all fun op => op.fair s.disk ans
  | x => (s.begins shard x).all fun op => !s.ops.any fun _ op' => op.overlaps op' || op'.overlaps op

namespace Exact

variable {shard : Entry → Nat} {s s' : State}

theorem opened (maxBytes : Int) (disk : Files Place) : Exact (opened maxBytes disk) where
  ledger := .opened maxBytes disk
  used := by simp [Capacity.opened]
  knows _ _ h := by cases h
  apart _ _ _ _ h := by cases h
  temp _ _ h := by cases h

theorem quiet (h : Exact s) (hl : Ledger s') (hops : s'.ops = s.ops) (hused : s'.usedBytes = s.usedBytes)
    (hdisk : ∀ p, p.counted = true → s'.disk.size p = s.disk.size p)
    (htemp : ∀ w r, s'.writes.row w = some r → r.Sized s'.disk w) : Exact s' where
  ledger := hl
  used := by
    rw [hops, hused, Files.total_congr hdisk]
    exact h.used
  knows i op hi := by
    rw [hops] at hi
    exact (h.knows i op hi).congr fun p hc _ => hdisk p hc
  apart := by
    rw [hops]
    exact h.apart
  temp := htemp

theorem reserve (h : Exact s) {home : Entry} {size : Int}
    (hs : Capacity.step shard s (.reserve home size) = some s') : Exact s' := by
  have hl := h.ledger.step hs
  -- A write that is admitted has no file yet.
  have hnew : ∀ held w r, (s.writes.insert (admittedWrite home size held)).row w = some r → r.Sized s.disk w := by
    intro held w r hr
    rcases Table.row_insert_cases hr with ⟨-, rfl⟩ | ⟨-, hr⟩
    · rintro (hp | hp) <;> cases hp
    · exact h.temp w r hr
  rcases reserve_cases hs with ⟨refused, rfl⟩ | ⟨-, rfl⟩ | ⟨-, -, rfl⟩
  · exact h.quiet hl rfl rfl (fun _ _ => rfl) h.temp
  · exact h.quiet hl rfl rfl (fun _ _ => rfl) (hnew 0)
  · exact h.quiet hl rfl rfl (fun _ _ => rfl) (hnew size.toNat)

variable {w : Nat} {r : Write} {x : Action}

theorem stepWrite (h : Exact s) (hr : s.writes.row w = some r) (hs : s.stepWrite w r x = some s') : Exact s' := by
  obtain ⟨f, ho⟩ := OwnStep.of_stepWrite hs
  refine h.quiet (h.ledger.stepWrite hr hs) (by rw [ho.rest]) (by rw [ho.rest])
    (fun p hc => ho.disk p (by rintro rfl; cases hc)) fun v q hq => ?_
  rw [ho.rest] at hq
  rcases Table.row_modify_cases hq with ⟨rfl, q₀, hq₀, rfl⟩ | ⟨hne, hq⟩
  · cases hr.symm.trans hq₀
    exact ho.sized (h.temp _ _ hr)
  · intro hp m hm
    rw [ho.disk _ fun heq => hne (Place.temp.inj heq).2] at hm
    exact h.temp v q hq hp m hm

variable {i : Nat} {a : After}

theorem begins (h : Exact s) (hb : s.begins shard x = some op)
    (hov : ∀ j op', s.ops.row j = some op' → op.overlaps op' = false ∧ op'.overlaps op = false) :
    Exact { s with ops := s.ops.insert op } where
  ledger := h.ledger.begins hb
  used := by
    have hsum := s.ops.sum_insert op Op.owed
    have hused := h.used
    rw [(begins_owed hb).1] at hsum
    dsimp only
    omega
  knows i o hi := by
    rcases Table.row_insert_cases hi with ⟨-, rfl⟩ | ⟨-, hi⟩
    · exact (begins_owed hb).2 _
    · exact h.knows i o hi
  apart i j o o' hi hj hne := by
    rcases Table.row_insert_cases hi with ⟨hin, hop⟩ | ⟨-, hi⟩
    · rcases Table.row_insert_cases hj with ⟨hjn, -⟩ | ⟨-, hj⟩
      · exact absurd (hin.trans hjn.symm) hne
      · rw [hop]
        exact begins_apart hb hj (hov j o' hj).1 (hov j o' hj).2
    · rcases Table.row_insert_cases hj with ⟨-, hop⟩ | ⟨-, hj⟩
      · rw [hop]
        exact (begins_apart hb hi (hov i o hi).1 (hov i o hi).2).symm
      · exact h.apart i j o o' hi hj hne
  temp := h.temp

theorem apply_fields (s : State) (i : Nat) (a : After) :
    (s.apply i a).disk = a.disk ∧ (s.apply i a).usedBytes = s.usedBytes + a.charge ∧
      (s.apply i a).ops = s.ops.modify i fun _ => a.op := by
  unfold State.apply
  dsimp only
  split <;> exact ⟨rfl, rfl, rfl⟩

theorem apply_writes (hr : (s.apply i a).writes.row w = some r) :
    ∃ r₀, s.writes.row w = some r₀ ∧ r.home = r₀.home ∧ r.phase = r₀.phase ∧ r.length = r₀.length := by
  unfold State.apply at hr
  dsimp only at hr
  split at hr
  · rcases Table.row_modify_cases hr with ⟨rfl, r₀, hr₀, rfl⟩ | ⟨-, hr⟩
    · exact ⟨r₀, hr₀, rfl, rfl, rfl⟩
    · exact ⟨r, hr, rfl, rfl, rfl⟩
  · exact ⟨r, hr, rfl, rfl, rfl⟩

theorem apply (h : Exact s) {ans : Answer} (hop : s.ops.row i = some op) (hf : op.fair s.disk ans = true)
    (hn : op.next s.disk ans = some a) : Exact (s.apply i a) := by
  obtain ⟨hdisk, hused, hops⟩ := apply_fields s i a
  have hk := h.knows i op hop
  have hlength : ∀ c pc, op = .commit c pc → ∀ m, s.disk.size c.temp = some m → m = c.n := by
    rintro c pc rfl m hm
    obtain ⟨r, hr, hp, -, hhome, hlen⟩ := h.ledger.commit i c pc hop
    rw [Commit.temp, ← hhome] at hm
    rw [← hlen]
    exact h.temp c.w r hr (.inr hp) m hm
  have hbal := Op.next_exact hf hlength hk hn
  refine ⟨h.ledger.apply hop hn, ?_, ?_, ?_, ?_⟩
  · have hsum := Table.sum_modify hop (fun _ => a.op) Op.owed
    have htotal := hbal.total
    have hold := h.used
    rw [hused, hops, hdisk]
    omega
  · intro j o hj
    rw [hops] at hj
    rw [hdisk]
    rcases Table.row_modify_cases hj with ⟨rfl, -, -, rfl⟩ | ⟨hne, hj⟩
    · exact hbal.knows
    · -- Another operation: the step was at none of its files.
      refine (h.knows j o hj).congr fun p hc hp => Op.next_frame hk hn hc ?_
      exact h.apart j i o op hj hop hne p hp
  · intro j k o o' hj hk' hne
    rw [hops] at hj hk'
    rcases Table.row_modify_cases hj with ⟨hji, -, -, ho⟩ | ⟨hji, hj⟩
    · rcases Table.row_modify_cases hk' with ⟨hki, -⟩ | ⟨hki, hk'⟩
      · exact absurd (hji.trans hki.symm) hne
      · rw [ho]
        exact fun p hp => h.apart i k op o' hop hk' hki.symm p (Op.next_works hn hp)
    · rcases Table.row_modify_cases hk' with ⟨-, -, -, ho⟩ | ⟨-, hk'⟩
      · rw [ho]
        exact fun p hp hp' => h.apart j i o op hj hop hji p hp (Op.next_works hn hp')
      · exact h.apart j k o o' hj hk' hne
  · intro w r hr hp m hm
    obtain ⟨r₀, hr₀, hhome, hphase, hlen⟩ := apply_writes hr
    rw [hdisk, hhome] at hm
    rw [hphase] at hp
    rw [hlen]
    rcases Op.next_temp hk hn r₀.home w with hsame | hnone
    · exact h.temp w r₀ hr₀ hp m (hsame ▸ hm)
    · rw [hnone] at hm
      cases hm

theorem step (h : Exact s) (hcalm : calm shard s x = true) (hs : Capacity.step shard s x = some s') : Exact s' := by
  rcases step_cases hs with ⟨home, size, rfl⟩ | ⟨w, r, hr, hs⟩ | ⟨op, hb, rfl⟩ | ⟨i, op, ans, a, rfl, hop, hn, rfl⟩
  · exact h.reserve hs
  · exact h.stepWrite hr hs
  · refine h.begins hb fun j op' hj => ?_
    have hall : (s.begins shard x).all (fun op => !s.ops.any fun _ op' => op.overlaps op' || op'.overlaps op) = true := by
      cases x with
      | advance i ans => cases hb
      | _ => exact hcalm
    rw [hb, Option.all_some, Bool.not_eq_true'] at hall
    exact Bool.or_eq_false_iff.mp (Table.any_eq_false.mp hall j op' hj)
  · have hfair : (s.ops.row i).all (fun op => op.fair s.disk ans) = true := hcalm
    rw [hop, Option.all_some] at hfair
    exact h.apply hop hfair hn

theorem of_reachable (h : ((machine shard).restrict (calm shard)).Reachable s) : Exact s := by
  refine h.invariant ?_ fun _ _ _ hi hs => hi.step (Lts.restrict_step hs).1 (Lts.restrict_step hs).2
  rintro s ⟨maxBytes, disk, rfl⟩
  exact .opened maxBytes disk

end Exact

def State.Idle (s : State) : Prop := ∀ i op, s.ops.row i = some op → op = .done

/-- In every run of calm steps, whenever no operation is in progress, the counters are what the files and the
    uncommitted writes hold. -/
theorem usage_exact {shard : Entry → Nat} {s : State} (hr : ((machine shard).restrict (calm shard)).Reachable s)
    (hidle : s.Idle) :
    s.usedBytes = s.disk.total Place.counted ∧
      s.reservedBytes = s.writes.sum fun r => if r.committed then 0 else (r.held : Int) := by
  have h := Exact.of_reachable hr
  constructor
  · have hzero : s.ops.sum Op.owed = 0 := Table.sum_eq_zero fun i op hi => by rw [hidle i op hi]; rfl
    have hused := h.used
    omega
  · rw [h.ledger.reserved]
    refine Table.sum_congr fun w r hr => ?_
    cases hcom : r.committed with
    | true => simp [(h.ledger.covered w r hr).settled hcom]
    | false => simp

/-! ## A destination whose state is not known -/

def rewrittenObject (stat : Answer) : List Action :=
  [.reserve (.object 1 1) 3, .createTemp 1 true, .copy 1 3, .stage 1, .commitAs 1 (.object 1 1), .advance 1 .ok,
    .advance 1 .ok, .advance 1 .ok, .advance 1 .ok, .reserve (.object 1 1) 2, .createTemp 2 true, .copy 2 2, .stage 2,
    .commitAs 2 (.object 1 1), .advance 2 stat, .advance 2 .ok, .advance 2 .ok, .advance 2 .ok]

def State.isIdle (s : State) : Bool := !s.ops.any fun _ op => match op with
  | .done => false
  | _ => true

theorem State.idle_of_isIdle {s : State} (h : s.isIdle = true) : s.Idle := by
  intro i op hi
  have hop := Table.any_eq_false.mp (by simpa [State.isIdle] using h) i op hi
  cases op with
  | done => rfl
  | _ => cases hop

def calmShard : Lts State Action := oneShard.restrict (calm fun _ => 0)

def rewritten : State := (calmShard.run emptyCache (rewrittenObject .ok)).getD emptyCache

theorem usage_exact_rewritten : rewritten.usedBytes = 2 ∧ rewritten.usedBytes = rewritten.disk.total Place.counted ∧
    rewritten.reservedBytes = rewritten.writes.sum fun r => if r.committed then 0 else (r.held : Int) :=
  ⟨by decide +kernel,
    usage_exact (s := rewritten) (.of_run_isSome (.of_init ⟨_, _, rfl⟩) (by decide +kernel))
      (State.idle_of_isIdle (by decide +kernel))⟩

/-- The same, except that `Stat` fails before the second commit. -/
def miscounted : State := (oneShard.run emptyCache (rewrittenObject .fails)).getD emptyCache

/-- The object holds 2 bytes and the cache is charged for 5: the 3 that were replaced stay charged. -/
theorem replaced_object_stays_charged : oneShard.Reachable miscounted ∧ miscounted.Idle ∧
    miscounted.usedBytes = 5 ∧ miscounted.disk.total Place.counted = 2 :=
  ⟨.of_run_isSome (.of_init ⟨_, _, rfl⟩) (by decide +kernel), State.idle_of_isIdle (by decide +kernel),
    by decide +kernel, by decide +kernel⟩

end SynapS3.Capacity
