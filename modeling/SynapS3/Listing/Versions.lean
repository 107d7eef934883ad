import SynapS3.Listing.Current

/-!
# `Listing.Versions` — the pages of the versions

`listVersions` reads from the versions with the prefix in the order of their keys, the newest first of each key
(`versionRows`). The query that goes on after a version is put together of two, one for the rest of its key and
one for the later keys; together they are what follows the version (`listVersionsByBucket_mark`).
-/

namespace SynapS3.Listing

open Utf8 RollUp Object

section Exact

variable [VersionIDs]

def Newer (v w : Version Bytes) : Prop :=
  w.createdAt < v.createdAt ∨ (w.createdAt = v.createdAt ∧ VersionIDs.text w.id < VersionIDs.text v.id)

/-- The row comes before another one: by key, then the newest first. -/
def ListItem.Before (r s : ListItem) : Prop := r.key < s.key ∨ (r.key = s.key ∧ Newer r.toVersion s.toVersion)

def Bucket.IsRow (b : Bucket) (row : ListItem) : Prop :=
  row.toVersion ∈ b.versions ∧
    (row.isCurrent = true ↔ ∃ o ∈ b.objects, o.key = row.key ∧ o.currentVersionID = some row.id)

/-- What a listing of versions is made of: a version or delete marker of a key with the prefix that has no
    delimiter after it, or the common prefix of a key that has. -/
def Bucket.IsVersionEntry (b : Bucket) (keyPrefix delimiter : Bytes) : Entry ListItem Bytes → Prop
  | .object row => b.IsRow row ∧ keyPrefix <+: row.key ∧
      (delimiter = [] ∨ ∀ u v, row.key ≠ keyPrefix ++ u ++ delimiter ++ v)
  | .group c => ∃ v ∈ b.versions, keyPrefix <+: v.key ∧ IsCommonPrefix keyPrefix delimiter v.key c

/-! ## The order of the rows -/

variable {v w : Version Bytes} {i j : Joined}

theorem not_notOlder : ¬ v.NotOlder w ↔ Newer w v := by
  unfold Version.NotOlder Newer
  rw [not_or, not_lt, not_and, not_le]
  constructor
  · rintro ⟨hle, htext⟩
    rcases lt_or_eq_of_le hle with hlt | heq
    · exact .inl hlt
    · exact .inr ⟨heq, htext heq.symm⟩
  · rintro (hlt | ⟨heq, htext⟩)
    · exact ⟨le_of_lt hlt, fun h => absurd (h ▸ hlt) (lt_irrefl _)⟩
    · exact ⟨le_of_eq heq, fun _ => htext⟩

theorem Newer.asymm (h : Newer v w) : ¬ Newer w v := by
  rintro (hlt | ⟨heq, htext⟩)
  · rcases h with hlt' | ⟨heq', -⟩
    · exact absurd (lt_trans hlt hlt') (lt_irrefl _)
    · exact absurd (heq' ▸ hlt) (lt_irrefl _)
  · rcases h with hlt' | ⟨-, htext'⟩
    · exact absurd (heq ▸ hlt') (lt_irrefl _)
    · exact absurd (lt_trans htext htext') (lt_irrefl _)

instance : DecidableRel Newer := fun _ _ => inferInstanceAs (Decidable (_ ∨ _))

instance : DecidableRel ListItem.Before := fun _ _ => inferInstanceAs (Decidable (_ ∨ _))

theorem ListItem.Before.asymm {r s : ListItem} (h : r.Before s) : ¬ s.Before r := by
  rintro (hlt | ⟨heq, hnewer⟩)
  · rcases h with hlt' | ⟨heq', -⟩
    · exact absurd (lt_trans hlt hlt') (lt_irrefl _)
    · exact absurd (heq' ▸ hlt) (lt_irrefl _)
  · rcases h with hlt' | ⟨-, hnewer'⟩
    · exact absurd (heq ▸ hlt') (lt_irrefl _)
    · exact hnewer'.asymm hnewer

instance : Std.Total Joined.InOrder := by
  refine ⟨fun i j => ?_⟩
  unfold Joined.InOrder
  rcases lt_trichotomy i.version.key j.version.key with hlt | heq | hlt
  · exact .inl (.inl hlt)
  · by_cases hold : i.version.NotOlder j.version
    · exact .inl (.inr ⟨heq, hold⟩)
    · rcases not_notOlder.mp hold with hlt | ⟨hsame, htext⟩
      · exact .inr (.inr ⟨heq.symm, .inl hlt⟩)
      · exact .inr (.inr ⟨heq.symm, .inr ⟨hsame, le_of_lt htext⟩⟩)
  · exact .inr (.inl hlt)

theorem notOlder_trans {u : Version Bytes} (huv : u.NotOlder v) (hvw : v.NotOlder w) : u.NotOlder w := by
  rcases huv with hlt | ⟨heq, htext⟩
  · rcases hvw with hlt' | ⟨heq', -⟩
    · exact .inl (lt_trans hlt' hlt)
    · exact .inl (heq' ▸ hlt)
  · rcases hvw with hlt' | ⟨heq', htext'⟩
    · exact .inl (heq ▸ hlt')
    · exact .inr ⟨heq'.trans heq, le_trans htext' htext⟩

instance : IsTrans Joined Joined.InOrder := by
  refine ⟨fun i j k hij hjk => ?_⟩
  unfold Joined.InOrder at *
  rcases hij with hlt | ⟨heq, hold⟩
  · rcases hjk with hlt' | ⟨heq', -⟩
    · exact .inl (lt_trans hlt hlt')
    · exact .inl (heq' ▸ hlt)
  · rcases hjk with hlt' | ⟨heq', hold'⟩
    · exact .inl (heq ▸ hlt')
    · exact .inr ⟨heq.trans heq', notOlder_trans hold hold'⟩

variable {b : Bucket} {row : ListItem}

theorem before_of_inOrder (hi : i ∈ b.joined) (hj : j ∈ b.joined) (h : i.InOrder j) (hne : i ≠ j) :
    i.item.Before j.item := by
  rcases h with hlt | ⟨heq, hlt | ⟨hsame, htext⟩⟩
  · exact .inl hlt
  · exact .inr ⟨heq, .inl hlt⟩
  · refine .inr ⟨heq, .inr ⟨hsame, lt_of_le_of_ne htext fun hid => hne ?_⟩⟩
    exact joined_eq hi hj (b.version_eq (joined_spec hi).1 (joined_spec hj).1 hid.symm)

theorem inOrder_of_before (h : i.item.Before j.item) : i.InOrder j := by
  rcases h with hlt | ⟨heq, hlt | ⟨hsame, htext⟩⟩
  · exact .inl hlt
  · exact .inr ⟨heq, .inl hlt⟩
  · exact .inr ⟨heq, .inr ⟨hsame, le_of_lt htext⟩⟩

theorem inOrder_antisymm (hi : i ∈ b.joined) (hj : j ∈ b.joined) (hij : i.InOrder j) (hji : j.InOrder i) :
    i = j := by
  by_contra hne
  exact (before_of_inOrder hi hj hij hne).asymm (before_of_inOrder hj hi hji (Ne.symm hne))

/-! ## The rows -/

variable (b : Bucket)

/-- The versions with the prefix and their objects, in the order of the query. -/
def Bucket.versionJoined (keyPrefix : Bytes) : List Joined :=
  (b.joined.filter fun j => caseSensitivePrefix keyPrefix j.version.key).insertionSort Joined.InOrder

def Bucket.versionRows (keyPrefix : Bytes) : List ListItem := (b.versionJoined keyPrefix).map Joined.item

variable {b} {keyPrefix delimiter : Bytes}

theorem mem_versionJoined :
    j ∈ b.versionJoined keyPrefix ↔ j ∈ b.joined ∧ caseSensitivePrefix keyPrefix j.version.key = true := by
  unfold Bucket.versionJoined
  rw [List.mem_insertionSort, List.mem_filter]

theorem filter_versionJoined (p : Joined → Bool) :
    ((b.joined.filter fun j => caseSensitivePrefix keyPrefix j.version.key).filter p).insertionSort Joined.InOrder =
      (b.versionJoined keyPrefix).filter p :=
  filter_insertionSort (fun _ hi _ hj => inOrder_antisymm (List.mem_filter.mp hi).1 (List.mem_filter.mp hj).1) p

theorem versionRows_pairwise : (b.versionRows keyPrefix).Pairwise ListItem.Before := by
  unfold Bucket.versionRows
  rw [List.pairwise_map]
  have hsorted : (b.versionJoined keyPrefix).Pairwise Joined.InOrder := List.pairwise_insertionSort _ _
  have hnodup : (b.versionJoined keyPrefix).Nodup :=
    (List.perm_insertionSort _ _).nodup_iff.mpr ((joined_nodup b).filter _)
  refine (hsorted.and hnodup).imp_of_mem ?_
  rintro i j hi hj ⟨horder, hne⟩
  exact before_of_inOrder (mem_versionJoined.mp hi).1 (mem_versionJoined.mp hj).1 horder hne

theorem versionRows_length_le : (b.versionRows keyPrefix).length ≤ b.versions.length := by
  unfold Bucket.versionRows Bucket.versionJoined
  rw [List.length_map, List.length_insertionSort]
  exact Nat.le_trans (List.length_filter_le _ _) (joined_length_le b)

theorem mem_versionRows : row ∈ b.versionRows keyPrefix ↔
    ∃ j ∈ b.joined, caseSensitivePrefix keyPrefix j.version.key = true ∧ j.item = row := by
  unfold Bucket.versionRows
  rw [List.mem_map]
  constructor
  · rintro ⟨j, hj, rfl⟩
    obtain ⟨hj, hpre⟩ := mem_versionJoined.mp hj
    exact ⟨j, hj, hpre, rfl⟩
  · rintro ⟨j, hj, hpre, rfl⟩
    exact ⟨j, mem_versionJoined.mpr ⟨hj, hpre⟩, rfl⟩

theorem joined_key (hj : j ∈ b.joined) : Valid j.version.key ∧ j.version.key ≠ [] := by
  obtain ⟨-, ho, -, hkey⟩ := joined_spec hj
  exact ⟨hkey ▸ b.key_valid j.object ho, hkey ▸ b.key_ne j.object ho⟩

/-! ## The queries -/

theorem listVersionsByBucket_start (versionIDMarker : String) (inclusive : Bool) :
    b.listVersionsByBucket keyPrefix [] versionIDMarker listingBatchSize inclusive =
      (b.versionRows keyPrefix).take listingBatchSize.toNat := by
  show (limit listingBatchSize (b.versionJoined keyPrefix)).map Joined.item = _
  rw [limit_listingBatchSize, List.map_take]
  rfl

theorem listVersionsByBucket_bound {u : Bytes} (hu : u ≠ []) :
    b.listVersionsByBucket keyPrefix u "" listingBatchSize true =
      ((b.versionRows keyPrefix).filter fun row => u ≤ row.key).take listingBatchSize.toNat := by
  unfold Bucket.listVersionsByBucket
  simp only [if_neg hu, if_true]
  rw [filter_versionJoined, limit_listingBatchSize, List.map_take]
  unfold Bucket.versionRows
  rw [List.filter_map]
  rfl

theorem getVersionByBucketKeyAndID_eq (hv : v ∈ b.versions) :
    b.getVersionByBucketKeyAndID v.key (VersionIDs.text v.id) = some v := by
  unfold Bucket.getVersionByBucketKeyAndID
  obtain ⟨w, hw⟩ : ∃ w, b.versions.find? (fun w => w.key = v.key ∧ VersionIDs.text w.id = VersionIDs.text v.id) =
      some w := by
    refine Option.isSome_iff_exists.mp (List.find?_isSome.mpr ⟨v, hv, ?_⟩)
    exact decide_eq_true ⟨rfl, rfl⟩
  have hfound := List.find?_some hw
  have htext : VersionIDs.text w.id = VersionIDs.text v.id := (of_decide_eq_true hfound).2
  rw [hw, b.version_eq (List.mem_of_find?_eq_some hw) hv htext]

theorem listVersionsByBucket_mark {pre post : List Joined} (h : b.versionJoined keyPrefix = pre ++ j :: post) :
    b.listVersionsByBucket keyPrefix j.version.key (VersionIDs.text j.version.id) listingBatchSize false =
      (post.map Joined.item).take listingBatchSize.toNat := by
  have hmem : j ∈ b.versionJoined keyPrefix := by
    rw [h]
    exact List.mem_append_right _ List.mem_cons_self
  have hj := (mem_versionJoined.mp hmem).1
  have hv := (joined_spec hj).1
  have hstrict : (b.versionJoined keyPrefix).Pairwise fun i i' => i.item.Before i'.item :=
    List.pairwise_map.mp versionRows_pairwise
  have hafter : ((b.versionJoined keyPrefix).filter fun i => j.item.Before i.item) = post :=
    filter_after (fun i i' => ListItem.Before.asymm) h hstrict
  -- the two parts of the query are the two parts of what follows
  have hlater : ((b.versionJoined keyPrefix).filter fun i => j.version.key < i.version.key) =
      post.filter fun i => j.version.key < i.version.key := by
    rw [← hafter, List.filter_filter]
    refine List.filter_congr fun i _ => ?_
    by_cases hlt : j.version.key < i.version.key
    · have hbefore : j.item.Before i.item := .inl hlt
      simp [hlt, hbefore]
    · simp [hlt]
  have hsame : ((b.versionJoined keyPrefix).filter fun i =>
      i.version.key = j.version.key ∧ ¬ i.version.NotOlder j.version) =
      post.filter fun i => !decide (j.version.key < i.version.key) := by
    rw [← hafter, List.filter_filter]
    refine List.filter_congr fun i _ => ?_
    rw [Bool.eq_iff_iff, decide_eq_true_eq, Bool.and_eq_true, Bool.not_eq_true', decide_eq_false_iff_not,
      decide_eq_true_eq, not_notOlder]
    constructor
    · rintro ⟨heq, hnewer⟩
      exact ⟨fun hlt => absurd (heq ▸ hlt) (lt_irrefl _), .inr ⟨heq.symm, hnewer⟩⟩
    · rintro ⟨hno, hlt | ⟨heq, hnewer⟩⟩
      · exact absurd hlt hno
      · exact ⟨heq.symm, hnewer⟩
  have hpost : post.Pairwise fun i i' => i.item.Before i'.item := by
    rw [← hafter]
    exact hstrict.filter _
  have hsplit := filter_append_filter (l := post) (p := fun i => decide (j.version.key < i.version.key))
    (hpost.imp fun {i i'} hii hi => by
      have hle : i.version.key ≤ i'.version.key := hii.elim le_of_lt fun heq => le_of_eq heq.1
      exact decide_eq_true (lt_of_lt_of_le (of_decide_eq_true hi) hle))
  unfold Bucket.listVersionsByBucket
  simp only [if_neg (joined_key hj).2, if_neg (b.version_ne _ hv), getVersionByBucketKeyAndID_eq hv]
  rw [filter_versionJoined, filter_versionJoined, hlater, hsame, limit_listingBatchSize, limit_listingBatchSize,
    limit_listingBatchSize, List.Pairwise.insertionSort_eq, take_take_append_take, hsplit, List.map_take]
  refine (hpost.imp fun {i i'} => inOrder_of_before).sublist ?_
  have hparts := (List.take_sublist listingBatchSize.toNat
      (post.filter fun i => !decide (j.version.key < i.version.key))).append
    (List.take_sublist listingBatchSize.toNat (post.filter fun i => decide (j.version.key < i.version.key)))
  rw [hsplit] at hparts
  exact hparts

/-- **The rows are the versions with the prefix.** A row is current exactly if the object of its key points at
    it. -/
theorem mem_versionRows_iff (hp : Valid keyPrefix) :
    row ∈ b.versionRows keyPrefix ↔ b.IsRow row ∧ keyPrefix <+: row.key := by
  have hcurrent : ∀ {j : Joined}, j ∈ b.joined → (j.object.currentVersionID = some j.version.id ↔
      ∃ o ∈ b.objects, o.key = j.version.key ∧ o.currentVersionID = some j.version.id) := by
    intro j hj
    obtain ⟨-, ho, -, hkey⟩ := joined_spec hj
    constructor
    · intro hcur
      exact ⟨j.object, ho, hkey, hcur⟩
    · rintro ⟨o, ho', hkey', hcur⟩
      rw [b.object_eq_of_key ho ho' (hkey.trans hkey'.symm)]
      exact hcur
  rw [mem_versionRows]
  constructor
  · rintro ⟨j, hj, hpre, rfl⟩
    refine ⟨⟨(joined_spec hj).1, ?_⟩, (caseSensitivePrefix_iff hp (joined_key hj).1).mp hpre⟩
    show decide _ = true ↔ _
    rw [decide_eq_true_eq]
    exact hcurrent hj
  · rintro ⟨⟨hv, hcur⟩, hpre⟩
    obtain ⟨o, ho, hid, -⟩ := b.version_object _ hv
    have hj : ⟨o, row.toVersion⟩ ∈ b.joined := mem_joined hv ho hid
    refine ⟨_, hj, (caseSensitivePrefix_iff hp (joined_key hj).1).mpr hpre, ?_⟩
    have hflag : decide (o.currentVersionID = some row.id) = row.isCurrent := by
      rw [Bool.eq_iff_iff, decide_eq_true_eq, hcur]
      exact hcurrent hj
    unfold Joined.item
    rw [hflag]

theorem Bucket.IsRow.key_valid (h : b.IsRow row) : Valid row.key := by
  obtain ⟨o, ho, hid, -⟩ := b.version_object _ h.1
  exact (joined_key (mem_joined h.1 ho hid)).1

theorem versionWalk_lawful (hp : Valid keyPrefix)
    (hcuts : ∀ row, b.IsRow row → CutsText keyPrefix delimiter row.key) :
    (b.versionWalk keyPrefix).Lawful keyPrefix delimiter (b.versionRows keyPrefix) where
  key_valid row hrow := ((mem_versionRows_iff hp).mp hrow).1.key_valid
  matching row hrow := ((mem_versionRows_iff hp).mp hrow).2
  cuts row hrow := hcuts row ((mem_versionRows_iff hp).mp hrow).1
  sorted := versionRows_pairwise.imp fun {r s} hrs => hrs.elim le_of_lt fun heq => le_of_eq heq.1
  markerKey_mark _ := rfl
  select_mark pre row post heq := by
    obtain ⟨pre', rest, hsplit, -, hrest⟩ := List.map_eq_append_iff.mp heq
    obtain ⟨j, post', rfl, rfl, rfl⟩ := List.map_eq_cons_iff.mp hrest
    exact listVersionsByBucket_mark hsplit
  select_bound u hu := listVersionsByBucket_bound hu

theorem versionWalk_starts (b : Bucket) (keyPrefix delimiter : Bytes) (size : Int) :
    (b.versionWalk keyPrefix).Starts ⟨keyPrefix, delimiter, ([], ""), size⟩ (b.versionRows keyPrefix) []
      (b.versionRows keyPrefix) where
  rows := rfl
  after _ _ := not_lt.mp (List.not_lt_nil _)
  select := listVersionsByBucket_start "" false

/-- **Paging through the versions is exact**: a client that starts without markers comes to an end, and sees all
    versions and common prefixes, each once and in order. -/
theorem listVersions_exact (b : Bucket) (keyPrefix delimiter : Bytes) (hp : Valid keyPrefix)
    (hd : Valid delimiter) (sizes : Nat → Int) (hsizes : ∀ i, 1 ≤ sizes i) :
    ∃ entries : List (Entry ListItem Bytes),
      entries.Pairwise (Entry.Before (fun row => row.key) ListItem.Before) ∧
      (∀ e, e ∈ entries ↔ b.IsVersionEntry keyPrefix delimiter e) ∧
      (∀ row, .object row ∈ entries →
        (row.isLatest = true ↔ ∃ o ∈ b.objects, o.key = row.key ∧ o.currentVersionID = some row.id)) ∧
      ∀ n, b.versions.length < n → ∃ pages,
        listAll (fun marker size => b.listVersions n keyPrefix delimiter marker.1 marker.2 size) sizes n 0 ([], "") =
          some pages ∧ Paged sizes 0 entries pages := by
  have hw := versionWalk_lawful (b := b) hp fun _ hrow => cutsText_of_valid hp hd hrow.key_valid
  have hgrouped : Grouped (fun row : ListItem => row.key) (fun key => listingCommonPrefix key keyPrefix delimiter)
      (b.versionRows keyPrefix) := hw.grouped (q := ⟨keyPrefix, delimiter, ([], ""), 1⟩)
  have hmem : ∀ e, e ∈ rollUp (fun row : ListItem => row.key)
      (fun key => listingCommonPrefix key keyPrefix delimiter) [] (b.versionRows keyPrefix) ↔
        b.IsVersionEntry keyPrefix delimiter e := by
    intro e
    cases e with
    | object row =>
      rw [mem_rollUp_object, mem_versionRows_iff hp, and_assoc]
      exact and_congr_right fun _ => and_congr_right fun hpre => listingCommonPrefix_eq_none hpre
    | group c =>
      rw [mem_rollUp_group hgrouped fun _ _ => not_lt.mp (List.not_lt_nil _)]
      constructor
      · rintro ⟨-, row, hrow, hc⟩
        obtain ⟨⟨hv, -⟩, hpre⟩ := (mem_versionRows_iff hp).mp hrow
        exact ⟨row.toVersion, hv, hpre, (listingCommonPrefix_eq_some hpre).mp hc⟩
      · rintro ⟨v, hv, hpre, hc⟩
        have hgroup := (listingCommonPrefix_eq_some hpre).mpr hc
        obtain ⟨k, ks, hne⟩ := List.exists_cons_of_ne_nil (listingCommonPrefix_ne_nil hpre hgroup)
        obtain ⟨o, ho, hid, -⟩ := b.version_object v hv
        have hj : ⟨o, v⟩ ∈ b.joined := mem_joined hv ho hid
        refine ⟨hne ▸ List.nil_lt_cons k ks, Joined.item ⟨o, v⟩, mem_versionRows.mpr ⟨_, hj, ?_, rfl⟩, hgroup⟩
        exact (caseSensitivePrefix_iff hp (joined_key hj).1).mpr hpre
  refine ⟨_, rollUp_pairwise hgrouped versionRows_pairwise, hmem, ?_, ?_⟩
  · intro row hrow
    obtain ⟨⟨-, hcur⟩, -⟩ := (hmem _).mp hrow
    exact hcur
  · intro n hn
    have hrows : (b.versionRows keyPrefix).length < n := Nat.lt_of_le_of_lt versionRows_length_le hn
    exact listAll_paged hw hsizes hrows hrows 0 ([], "") (versionWalk_starts b keyPrefix delimiter)

end Exact

/-- Pages of two entries, of a bucket with a folder and a key that was written twice. -/
theorem listVersions_exact_folder : ∃ entries : List (Entry ListItem Bytes),
      entries.Pairwise (Entry.Before (fun row => row.key) (@ListItem.Before unaryIDs)) ∧
      (∀ e, e ∈ entries ↔ @Bucket.IsVersionEntry unaryIDs sampleBucket [] (utf8 ['/']) e) ∧
      (∀ row, .object row ∈ entries → (row.isLatest = true ↔
        ∃ o ∈ @Bucket.objects unaryIDs sampleBucket, o.key = row.key ∧ o.currentVersionID = some row.id)) ∧
      ∀ n, 4 < n → ∃ pages,
        listAll (fun marker size =>
          @Bucket.listVersions unaryIDs n sampleBucket [] (utf8 ['/']) marker.1 marker.2 size) (fun _ => 2) n 0
            ([], "") = some pages ∧ Paged (fun _ => 2) 0 entries pages :=
  @listVersions_exact unaryIDs sampleBucket [] (utf8 ['/']) ⟨[], rfl⟩ ⟨_, rfl⟩ (fun _ => 2) fun _ => by decide

end SynapS3.Listing
