import SynapS3.Listing.Rows

/-!
# `Listing.Current` — the pages of the current objects

`listCurrentObjects` reads from the live rows with the prefix in the order of their keys (`currentRows`), which
are a lawful walk, so its pages together are the entries after the start marker (`listCurrentObjects_exact`).
-/

namespace SynapS3.Listing

open Utf8 RollUp Object

section Exact

variable [VersionIDs]

/-- The row is the version that an object points at, and it is not a delete marker. -/
def Bucket.IsLive (b : Bucket) (row : ListItem) : Prop :=
  ∃ o ∈ b.objects, ∃ v ∈ b.versions, o.id = v.objectID ∧ o.currentVersionID = some v.id ∧
    v.isDeleteMarker = false ∧ row = { v with isCurrent := true }

/-- What a listing is made of: a live key with the prefix that has no delimiter after it, or the common prefix
    of a live key. -/
def Bucket.IsEntry (b : Bucket) (keyPrefix delimiter : Bytes) : Entry ListItem Bytes → Prop
  | .object row => b.IsLive row ∧ keyPrefix <+: row.key ∧
      (delimiter = [] ∨ ∀ u v, row.key ≠ keyPrefix ++ u ++ delimiter ++ v)
  | .group c => ∃ row, b.IsLive row ∧ keyPrefix <+: row.key ∧ IsCommonPrefix keyPrefix delimiter row.key c

def entryName : Entry ListItem Bytes → Bytes
  | .object row => row.key
  | .group c => c

instance : Std.Total fun i j : Joined => i.object.key ≤ j.object.key := ⟨fun _ _ => le_total _ _⟩

instance : IsTrans Joined fun i j => i.object.key ≤ j.object.key := ⟨fun _ _ _ => le_trans⟩

variable (b : Bucket)

def Bucket.currentJoined (keyPrefix : Bytes) : List Joined :=
  (b.joined.filter fun j => j.object.currentVersionID = some j.version.id ∧ j.version.isDeleteMarker = false).filter
    fun j => caseSensitivePrefix keyPrefix j.object.key

def Bucket.currentRows (keyPrefix : Bytes) : List ListItem :=
  ((b.currentJoined keyPrefix).insertionSort fun i j => i.object.key ≤ j.object.key).map Joined.item

variable {b} {keyPrefix delimiter : Bytes} {j : Joined}

theorem mem_currentJoined : j ∈ b.currentJoined keyPrefix ↔
    j ∈ b.joined ∧ j.object.currentVersionID = some j.version.id ∧ j.version.isDeleteMarker = false ∧
      caseSensitivePrefix keyPrefix j.object.key = true := by
  unfold Bucket.currentJoined
  rw [List.mem_filter, List.mem_filter, decide_eq_true_eq, and_assoc, and_assoc]

theorem currentJoined_eq {i : Joined} (hi : i ∈ b.currentJoined keyPrefix) (hj : j ∈ b.currentJoined keyPrefix)
    (h : i.object.key = j.object.key) : i = j := by
  obtain ⟨hi, hicur, -⟩ := mem_currentJoined.mp hi
  obtain ⟨hj, hjcur, -⟩ := mem_currentJoined.mp hj
  obtain ⟨hiv, hio, -⟩ := joined_spec hi
  obtain ⟨hjv, hjo, -⟩ := joined_spec hj
  have hobject : i.object = j.object := b.object_eq_of_key hio hjo h
  rw [hobject, hjcur] at hicur
  have hid : i.version.id = j.version.id := (Option.some.inj hicur).symm
  exact joined_eq hi hj (b.version_eq hiv hjv (by rw [hid]))

theorem item_key (hj : j ∈ b.joined) : j.item.key = j.object.key := (joined_spec hj).2.2.2.symm

theorem listCurrentVersionsByBucket_eq (keyBoundary : Bytes) (includeBoundary : Bool) :
    b.listCurrentVersionsByBucket keyPrefix keyBoundary includeBoundary listingBatchSize =
      ((b.currentRows keyPrefix).filter fun row =>
        keyBoundary = [] ∨ if includeBoundary then keyBoundary ≤ row.key else keyBoundary < row.key).take
          listingBatchSize.toNat := by
  have hanti : ∀ i ∈ b.currentJoined keyPrefix, ∀ j ∈ b.currentJoined keyPrefix,
      i.object.key ≤ j.object.key → j.object.key ≤ i.object.key → i = j :=
    fun i hi j hj hij hji => currentJoined_eq hi hj (le_antisymm hij hji)
  show (limit listingBatchSize (((b.currentJoined keyPrefix).filter _).insertionSort _)).map Joined.item = _
  unfold Bucket.currentRows
  rw [limit_listingBatchSize, filter_insertionSort hanti, List.map_take, List.filter_map]
  congr 2
  refine List.filter_congr fun j hj => ?_
  have hmem := mem_currentJoined.mp ((List.mem_insertionSort _).mp hj)
  show _ = decide (_ ∨ if includeBoundary then keyBoundary ≤ j.item.key else keyBoundary < j.item.key)
  rw [item_key hmem.1]

variable {row : ListItem}

theorem mem_currentRows :
    row ∈ b.currentRows keyPrefix ↔ b.IsLive row ∧ caseSensitivePrefix keyPrefix row.key = true := by
  unfold Bucket.currentRows
  rw [List.mem_map]
  constructor
  · rintro ⟨j, hj, rfl⟩
    obtain ⟨hmem, hcur, hlive, hpre⟩ := mem_currentJoined.mp ((List.mem_insertionSort _).mp hj)
    obtain ⟨hv, ho, hid, -⟩ := joined_spec hmem
    refine ⟨⟨j.object, ho, j.version, hv, hid, hcur, hlive, ?_⟩, by rw [item_key hmem]; exact hpre⟩
    unfold Joined.item
    rw [decide_eq_true hcur]
  · rintro ⟨⟨o, ho, v, hv, hid, hcur, hlive, rfl⟩, hpre⟩
    have hmem : ⟨o, v⟩ ∈ b.joined := mem_joined hv ho hid
    have hitem : Joined.item ⟨o, v⟩ = { v with isCurrent := true } := by
      unfold Joined.item
      rw [decide_eq_true hcur]
    refine ⟨⟨o, v⟩, (List.mem_insertionSort _).mpr (mem_currentJoined.mpr ⟨hmem, hcur, hlive, ?_⟩), hitem⟩
    rw [← item_key hmem, hitem]
    exact hpre

theorem currentRows_pairwise : (b.currentRows keyPrefix).Pairwise fun r s => r.key < s.key := by
  unfold Bucket.currentRows
  rw [List.pairwise_map]
  have hsorted := List.pairwise_insertionSort (fun i j : Joined => i.object.key ≤ j.object.key)
    (b.currentJoined keyPrefix)
  have hnodup : ((b.currentJoined keyPrefix).insertionSort fun i j => i.object.key ≤ j.object.key).Nodup :=
    (List.perm_insertionSort _ _).nodup_iff.mpr (((joined_nodup b).filter _).filter _)
  refine (hsorted.and hnodup).imp_of_mem ?_
  rintro i j hi hj ⟨hle, hne⟩
  have hi := (List.mem_insertionSort _).mp hi
  have hj := (List.mem_insertionSort _).mp hj
  rw [item_key (mem_currentJoined.mp hi).1, item_key (mem_currentJoined.mp hj).1]
  exact lt_of_le_of_ne hle fun heq => hne (currentJoined_eq hi hj heq)

theorem currentRows_length_le : (b.currentRows keyPrefix).length ≤ b.versions.length := by
  unfold Bucket.currentRows
  rw [List.length_map, List.length_insertionSort]
  exact Nat.le_trans (List.length_filter_le _ _) (Nat.le_trans (List.length_filter_le _ _) (joined_length_le b))

theorem Bucket.IsLive.key (h : b.IsLive row) : Valid row.key ∧ row.key ≠ [] := by
  obtain ⟨o, ho, v, hv, hid, -, -, rfl⟩ := h
  obtain ⟨-, -, -, hkey⟩ := joined_spec (mem_joined hv ho hid)
  have hkey' : o.key = v.key := hkey
  exact ⟨hkey' ▸ b.key_valid o ho, hkey' ▸ b.key_ne o ho⟩

theorem currentWalk_lawful (hp : Valid keyPrefix)
    (hcuts : ∀ row, b.IsLive row → CutsText keyPrefix delimiter row.key) :
    (b.currentWalk keyPrefix).Lawful keyPrefix delimiter (b.currentRows keyPrefix) where
  key_valid row hrow := (Bucket.IsLive.key (mem_currentRows.mp hrow).1).1
  matching row hrow :=
    (caseSensitivePrefix_iff hp (Bucket.IsLive.key (mem_currentRows.mp hrow).1).1).mp (mem_currentRows.mp hrow).2
  cuts row hrow := hcuts row (mem_currentRows.mp hrow).1
  sorted := currentRows_pairwise.imp le_of_lt
  markerKey_mark _ := rfl
  select_mark pre row post heq := by
    have hrow : row ∈ b.currentRows keyPrefix := by
      rw [heq]
      exact List.mem_append_right _ List.mem_cons_self
    have hne := (Bucket.IsLive.key (mem_currentRows.mp hrow).1).2
    show b.listCurrentVersionsByBucket keyPrefix row.key false listingBatchSize = _
    rw [listCurrentVersionsByBucket_eq]
    simp only [hne, false_or, Bool.false_eq_true, if_false]
    rw [filter_after (fun r s h h' => absurd (lt_trans h h') (lt_irrefl r.key)) heq currentRows_pairwise]
  select_bound u hu := by
    show b.listCurrentVersionsByBucket keyPrefix u true listingBatchSize = _
    rw [listCurrentVersionsByBucket_eq]
    simp only [hu, false_or, if_true]
    rfl

theorem currentWalk_starts (b : Bucket) (keyPrefix delimiter afterKey : Bytes) : ∃ ahead, ∀ size,
    (b.currentWalk keyPrefix).Starts ⟨keyPrefix, delimiter, afterKey, size⟩ (b.currentRows keyPrefix) ahead
      ((b.currentRows keyPrefix).filter fun row => afterKey < row.key) := by
  have hsplit := filter_append_filter (l := b.currentRows keyPrefix) (p := fun row => afterKey < row.key)
    (currentRows_pairwise.imp fun {r s} hrs hr => decide_eq_true (lt_trans (of_decide_eq_true hr) hrs))
  refine ⟨_, fun size => ⟨hsplit.symm, ?_, ?_⟩⟩
  · intro row hrow
    exact le_of_lt (of_decide_eq_true (List.mem_filter.mp hrow).2)
  · show b.listCurrentVersionsByBucket keyPrefix afterKey false listingBatchSize = _
    rw [listCurrentVersionsByBucket_eq]
    congr 1
    refine List.filter_congr fun row hrow => ?_
    -- no marker is the empty key, and every key is greater than that
    have hne := (Bucket.IsLive.key (mem_currentRows.mp hrow).1).2
    obtain ⟨k, ks, hkey⟩ := List.exists_cons_of_ne_nil hne
    by_cases hafter : afterKey = []
    · simp only [hafter, hkey, true_or, decide_true]
      exact (decide_eq_true (List.nil_lt_cons k ks)).symm
    · simp only [hafter, false_or, Bool.false_eq_true, if_false]

/-- **Paging through the current objects is exact**: a client comes to an end, and sees the entries after the start
    marker, each once and in order. -/
theorem listCurrentObjects_exact (b : Bucket) (keyPrefix delimiter afterKey : Bytes) (hp : Valid keyPrefix)
    (hd : Valid delimiter) (sizes : Nat → Int) (hsizes : ∀ i, 1 ≤ sizes i) :
    ∃ entries : List (Entry ListItem Bytes),
      entries.Pairwise (fun e f => entryName e < entryName f) ∧
      (∀ e, e ∈ entries ↔ b.IsEntry keyPrefix delimiter e ∧ afterKey < entryName e) ∧
      ∀ n, b.versions.length < n → ∃ pages,
        listAll (fun marker size => b.listCurrentObjects n keyPrefix delimiter marker size) sizes n 0 afterKey =
          some pages ∧ Paged sizes 0 entries pages := by
  have hw := currentWalk_lawful (b := b) hp fun _ hlive => cutsText_of_valid hp hd hlive.key.1
  obtain ⟨ahead, hstarts⟩ := currentWalk_starts b keyPrefix delimiter afterKey
  have hgrouped : Grouped (fun row : ListItem => row.key) (fun key => listingCommonPrefix key keyPrefix delimiter)
      ((b.currentRows keyPrefix).filter fun row => afterKey < row.key) :=
    (hw.grouped (q := ⟨keyPrefix, delimiter, afterKey, 1⟩)).sublist List.filter_sublist
  have hafter : ∀ row ∈ (b.currentRows keyPrefix).filter fun row => afterKey < row.key, afterKey ≤ row.key :=
    fun row hrow => le_of_lt (of_decide_eq_true (List.mem_filter.mp hrow).2)
  have hmem : ∀ row, row ∈ (b.currentRows keyPrefix).filter (fun row => afterKey < row.key) ↔
      b.IsLive row ∧ keyPrefix <+: row.key ∧ afterKey < row.key := by
    intro row
    rw [List.mem_filter, mem_currentRows, decide_eq_true_eq, and_assoc]
    refine and_congr_right fun hlive => ?_
    rw [caseSensitivePrefix_iff hp hlive.key.1]
  refine ⟨rollUp (fun row : ListItem => row.key) (fun key => listingCommonPrefix key keyPrefix delimiter) afterKey
    ((b.currentRows keyPrefix).filter fun row => afterKey < row.key), ?_, ?_, ?_⟩
  · refine (rollUp_pairwise hgrouped (currentRows_pairwise.filter _)).imp ?_
    intro e f hef
    cases e <;> cases f <;> exact hef
  · intro e
    cases e with
    | object row =>
      rw [mem_rollUp_object, hmem]
      show _ ↔ (b.IsLive row ∧ keyPrefix <+: row.key ∧ _) ∧ afterKey < row.key
      constructor
      · rintro ⟨⟨hlive, hpre, hlt⟩, hnone⟩
        exact ⟨⟨hlive, hpre, (listingCommonPrefix_eq_none hpre).mp hnone⟩, hlt⟩
      · rintro ⟨⟨hlive, hpre, hno⟩, hlt⟩
        exact ⟨⟨hlive, hpre, hlt⟩, (listingCommonPrefix_eq_none hpre).mpr hno⟩
    | group c =>
      rw [mem_rollUp_group hgrouped hafter]
      show _ ↔ (∃ row, b.IsLive row ∧ keyPrefix <+: row.key ∧ _) ∧ afterKey < c
      constructor
      · rintro ⟨hlt, row, hrow, hc⟩
        obtain ⟨hlive, hpre, -⟩ := (hmem row).mp hrow
        exact ⟨⟨row, hlive, hpre, (listingCommonPrefix_eq_some hpre).mp hc⟩, hlt⟩
      · rintro ⟨⟨row, hlive, hpre, hc⟩, hlt⟩
        have hgroup := (listingCommonPrefix_eq_some hpre).mpr hc
        -- a key is not less than its common prefix
        have hle := List.le_of_prefix (prefix_of_listingCommonPrefix hpre hgroup)
        exact ⟨hlt, row, (hmem row).mpr ⟨hlive, hpre, lt_of_lt_of_le hlt hle⟩, hgroup⟩
  · intro n hn
    have hrows : (b.currentRows keyPrefix).length < n := Nat.lt_of_le_of_lt currentRows_length_le hn
    exact listAll_paged hw hsizes hrows (Nat.lt_of_le_of_lt (List.length_filter_le _ _) hrows) 0 afterKey hstarts

end Exact

@[reducible] def unaryIDs : VersionIDs := ⟨fun n => String.ofList (List.replicate (n + 1) '1')⟩

def sampleVersion (id : Nat) (key : List Char) (objectID : Nat) (createdAt : Int) : Version Bytes :=
  ⟨id, utf8 key, objectID, none, 0, "", "", [], [], false, createdAt⟩

def sampleBucket : @Bucket unaryIDs :=
  @Bucket.mk unaryIDs
    [⟨⟨1, some 1⟩, utf8 ['a', '/', 'x']⟩, ⟨⟨2, some 2⟩, utf8 ['a', '/', 'y']⟩, ⟨⟨3, some 4⟩, utf8 ['b']⟩]
    [sampleVersion 1 ['a', '/', 'x'] 1 10, sampleVersion 2 ['a', '/', 'y'] 2 20, sampleVersion 3 ['b'] 3 30,
      sampleVersion 4 ['b'] 3 40]
    (by decide) (by decide) (by decide) (by decide) (by decide) (by decide)
    (by
      intro o ho
      simp only [List.mem_cons, List.not_mem_nil, or_false] at ho
      rcases ho with rfl | rfl | rfl
      · exact ⟨_, rfl⟩
      · exact ⟨_, rfl⟩
      · exact ⟨_, rfl⟩)

/-- Pages of one entry, of a bucket with a folder. -/
theorem listCurrentObjects_exact_folder : ∃ entries : List (Entry ListItem Bytes),
      entries.Pairwise (fun e f => entryName e < entryName f) ∧
      (∀ e, e ∈ entries ↔ @Bucket.IsEntry unaryIDs sampleBucket [] (utf8 ['/']) e ∧ [] < entryName e) ∧
      ∀ n, 4 < n → ∃ pages,
        listAll (fun marker size => @Bucket.listCurrentObjects unaryIDs n sampleBucket [] (utf8 ['/']) marker size)
          (fun _ => 1) n 0 [] = some pages ∧ Paged (fun _ => 1) 0 entries pages :=
  @listCurrentObjects_exact unaryIDs sampleBucket [] (utf8 ['/']) [] ⟨[], rfl⟩ ⟨_, rfl⟩ (fun _ => 1)
    fun _ => by decide

end SynapS3.Listing
