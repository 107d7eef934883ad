import SynapS3.Listing.Versions

/-!
# `Listing.Skips` — what is jumped over after a common prefix

After a key with a common prefix the loop goes on at the upper bound of the prefix, or not at all if there is
none. The bound is computed on characters, the common prefix on bytes. For a delimiter that is UTF-8 the two
agree and only keys of the prefix are jumped over (`skipped_keys_in_group`); so they do for any delimiter that
cuts the keys at the end of a character, or cuts none. A delimiter that cuts a character
in two makes a common prefix that is no text: its broken end is read as U+FFFD, the bound lies beyond almost
everything, and keys that do not begin with the prefix are lost (`cut_delimiter_hides_key`).
-/

namespace SynapS3.Listing

open RollUp Utf8 Object

section Jump

variable {ρ μ : Type} {w : Walk ρ μ} {q : Query μ}

/-- After the visit of `row` the loop passes over `key` without looking at it: `key` lies before the bound that
    the loop goes on at, or the loop has returned because there is no bound. -/
def Walk.jumps (w : Walk ρ μ) (q : Query μ) (st : Scan ρ μ) (row : ρ) (key : Bytes) : Bool :=
  w.key row ≤ key && match w.visit q st row with
    | .ok st' => st'.inclusive && key < st'.skipUntil
    | .error page => !page.truncated

variable {st : Scan ρ μ} {row : ρ} {key : Bytes} {sizes : Nat → Int}

/-- The loop jumps only from a key with a common prefix, and not beyond the bound of the prefix. -/
theorem group_of_jumps (h : w.jumps q st row key = true) :
    w.key row ≤ key ∧ ∃ c, q.group (w.key row) = some c ∧ ∀ u, prefixUpperBound c = some u → key < u := by
  rw [Walk.jumps, Bool.and_eq_true, decide_eq_true_eq] at h
  obtain ⟨hle, h⟩ := h
  refine ⟨hle, ?_⟩
  unfold Walk.visit at h
  cases hgroup : listingCommonPrefix (w.key row) q.keyPrefix q.delimiter with
  | none =>
    simp only [hgroup] at h
    by_cases hfull : Scan.Full { st with cursor := w.mark row, inclusive := false } q.maxKeys
    · simp [hfull, Scan.page] at h
    · simp [hfull] at h
  | some c =>
    refine ⟨c, hgroup, fun u hu => ?_⟩
    simp only [hgroup, hu] at h
    by_cases hfull : w.Fresh q { st with cursor := w.mark row, inclusive := false } c ∧
        Scan.Full { st with cursor := w.mark row, inclusive := false } q.maxKeys
    · simp [hfull, Scan.page] at h
    · simpa [hfull] using h

/-- **What is jumped over begins with the common prefix**, if that is a text. -/
theorem prefix_of_jumps (h : w.jumps q st row key = true) (hcuts : CutsText q.keyPrefix q.delimiter (w.key row))
    (hkey : Valid key) (hmatch : q.keyPrefix <+: w.key row) :
    ∃ c, IsCommonPrefix q.keyPrefix q.delimiter (w.key row) c ∧ c <+: key := by
  obtain ⟨hrowle, c, hc, hbound⟩ := group_of_jumps h
  have hcommon := (listingCommonPrefix_eq_some hmatch).mp hc
  have hcv : Valid c := hcuts c hcommon
  have hle : c ≤ key := le_trans (List.le_of_prefix (prefix_of_listingCommonPrefix hmatch hc)) hrowle
  refine ⟨c, hcommon, ?_⟩
  cases hu : prefixUpperBound c with
  | none => exact prefix_of_prefixUpperBound_none hcv hkey hle hu
  | some u => exact (lt_prefixUpperBound_iff hcv hkey hle hu).mp (hbound u hu)

theorem Paged.shows {i : Nat} {es : List (Entry ρ Bytes)} {pages : List (Page ρ μ)} (h : Paged sizes i es pages) :
    pages.flatMap (·.objects) = rowsOf es ∧ pages.flatMap (·.prefixes) = groupsOf es := by
  induction h with
  | last _ hshows _ => exact ⟨by simp [hshows.1], by simp [hshows.2]⟩
  | more _ hshows _ _ _ ih => exact ⟨by simp [hshows.1, ih.1], by simp [hshows.2, ih.2]⟩

theorem Walk.Lawful.listed {keyPrefix delimiter : Bytes} {all ahead rest : List ρ} {marker : μ}
    (hw : w.Lawful keyPrefix delimiter all) (hsizes : ∀ i, 1 ≤ sizes i) {n : Nat} (hn : all.length < n)
    (h : ∀ size, w.Starts ⟨keyPrefix, delimiter, marker, size⟩ all ahead rest) :
    ∃ pages, listAll (fun marker size => w.list ⟨keyPrefix, delimiter, marker, size⟩ n) sizes n 0 marker =
        some pages ∧
      ∀ r ∈ rest, r ∈ pages.flatMap (·.objects) ∨ ∃ c, IsCommonPrefix keyPrefix delimiter (w.key r) c ∧
        (c ∈ pages.flatMap (·.prefixes) ∨ c ≤ w.markerKey marker) := by
  have hrows := (h 1).rows
  have hmem : ∀ r ∈ rest, r ∈ all := fun r hr => hrows ▸ List.mem_append_right _ hr
  have hlen : rest.length < n := by
    have hlength := congrArg List.length hrows
    rw [List.length_append] at hlength
    omega
  obtain ⟨pages, hpages, hpaged⟩ := listAll_paged hw hsizes hn hlen 0 marker h
  obtain ⟨hobjects, hprefixes⟩ := hpaged.shows
  have hgrouped : Grouped w.key (fun key => listingCommonPrefix key keyPrefix delimiter) rest :=
    (hw.grouped (q := ⟨keyPrefix, delimiter, marker, 1⟩)).sublist (hrows ▸ List.sublist_append_right _ _)
  refine ⟨pages, hpages, fun r hr => ?_⟩
  rw [hobjects, hprefixes]
  cases hgroup : listingCommonPrefix (w.key r) keyPrefix delimiter with
  | none => exact .inl (List.mem_filterMap.mpr ⟨_, mem_rollUp_object.mpr ⟨hr, hgroup⟩, rfl⟩)
  | some c =>
    refine .inr ⟨c, (listingCommonPrefix_eq_some (hw.matching r (hmem r hr))).mp hgroup, ?_⟩
    by_cases hlt : w.markerKey marker < c
    · exact .inl (mem_groupsOf.mpr ((mem_rollUp_group hgrouped (h 1).after).mpr ⟨hlt, r, hr, hgroup⟩))
    · exact .inr (not_lt.mp hlt)

end Jump

section Skips

variable [VersionIDs]

/-- **Skipping a rolled-up prefix skips only its own keys**, if the delimiter cuts every key of the listing at the end
    of a character or not at all, and paging through a listing shows every key, or every version, by itself or under
    its common prefix (which a start marker at or after the prefix hides). -/
theorem skipped_keys_in_group (b : Bucket) (keyPrefix delimiter : Bytes) (hp : Valid keyPrefix)
    (sizes : Nat → Int) (hsizes : ∀ i, 1 ≤ sizes i) (n : Nat) (hn : b.versions.length < n) :
    ((∀ row, b.IsLive row → CutsText keyPrefix delimiter row.key) →
      (∀ afterKey maxKeys st row key, b.IsLive row → keyPrefix <+: row.key → Valid key →
        (b.currentWalk keyPrefix).jumps ⟨keyPrefix, delimiter, afterKey, maxKeys⟩ st row key = true →
        ∃ c, IsCommonPrefix keyPrefix delimiter row.key c ∧ c <+: key) ∧
      ∀ afterKey, ∃ pages,
        listAll (fun marker size => b.listCurrentObjects n keyPrefix delimiter marker size) sizes n 0 afterKey =
          some pages ∧
        ∀ row, b.IsLive row → keyPrefix <+: row.key → afterKey < row.key →
          row ∈ pages.flatMap (·.objects) ∨ ∃ c, IsCommonPrefix keyPrefix delimiter row.key c ∧
            (c ∈ pages.flatMap (·.prefixes) ∨ c ≤ afterKey)) ∧
    ((∀ row, b.IsRow row → CutsText keyPrefix delimiter row.key) →
      (∀ markers maxKeys st row key, b.IsRow row → keyPrefix <+: row.key → Valid key →
        (b.versionWalk keyPrefix).jumps ⟨keyPrefix, delimiter, markers, maxKeys⟩ st row key = true →
        ∃ c, IsCommonPrefix keyPrefix delimiter row.key c ∧ c <+: key) ∧
      ∃ pages,
        listAll (fun marker size => b.listVersions n keyPrefix delimiter marker.1 marker.2 size) sizes n 0 ([], "") =
          some pages ∧
        ∀ row, b.IsRow row → keyPrefix <+: row.key →
          row ∈ pages.flatMap (·.objects) ∨
            ∃ c, IsCommonPrefix keyPrefix delimiter row.key c ∧ c ∈ pages.flatMap (·.prefixes)) := by
  refine ⟨fun hcuts => ⟨fun afterKey maxKeys st row key hlive hmatch hkey hjumps => ?_, fun afterKey => ?_⟩,
    fun hcuts => ⟨fun markers maxKeys st row key hrow hmatch hkey hjumps => ?_, ?_⟩⟩
  · exact prefix_of_jumps hjumps (hcuts row hlive) hkey hmatch
  · obtain ⟨ahead, hstarts⟩ := currentWalk_starts b keyPrefix delimiter afterKey
    obtain ⟨pages, hpages, hlisted⟩ :=
      (currentWalk_lawful hp hcuts).listed hsizes (Nat.lt_of_le_of_lt currentRows_length_le hn) hstarts
    refine ⟨pages, hpages, fun row hlive hmatch hlt => hlisted row (List.mem_filter.mpr ⟨?_, decide_eq_true hlt⟩)⟩
    exact mem_currentRows.mpr ⟨hlive, (caseSensitivePrefix_iff hp hlive.key.1).mpr hmatch⟩
  · exact prefix_of_jumps hjumps (hcuts row hrow) hkey hmatch
  · obtain ⟨pages, hpages, hlisted⟩ := (versionWalk_lawful hp hcuts).listed hsizes
      (Nat.lt_of_le_of_lt versionRows_length_le hn) (versionWalk_starts b keyPrefix delimiter)
    refine ⟨pages, hpages, fun row hrow hmatch => ?_⟩
    refine (hlisted row ((mem_versionRows_iff hp).mpr ⟨hrow, hmatch⟩)).imp_right ?_
    rintro ⟨c, hc, hshown | hle⟩
    · exact ⟨c, hc, hshown⟩
    · -- no common prefix is empty, so the start of the listing hides none
      have hne := listingCommonPrefix_ne_nil hmatch ((listingCommonPrefix_eq_some hmatch).mpr hc)
      obtain ⟨x, xs, rfl⟩ := List.exists_cons_of_ne_nil hne
      exact absurd (List.nil_lt_cons x xs) (not_lt.mpr hle)

end Skips

/-- Two keys in a folder: after the first one the second is jumped over. -/
theorem skipped_keys_in_group_folder :
    ∃ c, IsCommonPrefix [] (utf8 ['/']) (utf8 ['a', '/', 'x']) c ∧ c <+: utf8 ['a', '/', 'y'] := by
  have hcuts : ∀ row, @Bucket.IsLive unaryIDs sampleBucket row → CutsText [] (utf8 ['/']) row.key :=
    fun row hlive => cutsText_of_valid ⟨[], rfl⟩ ⟨_, rfl⟩ (@Bucket.IsLive.key unaryIDs _ _ hlive).1
  have hlists := @skipped_keys_in_group unaryIDs sampleBucket [] (utf8 ['/']) ⟨[], rfl⟩ (fun _ => 1)
    (fun _ => le_rfl) _ (Nat.lt_succ_self _)
  exact (hlists.1 hcuts).1 [] 10 { cursor := [], lastMarker := [] } ⟨sampleVersion 1 ['a', '/', 'x'] 1 10, true⟩ _
    ⟨⟨⟨1, some 1⟩, _⟩, List.mem_cons_self, _, List.mem_cons_self, rfl, rfl, rfl, rfl⟩ (List.nil_prefix) ⟨_, rfl⟩
    (by decide +kernel)

/-- Two keys whose first bytes differ; the delimiter is the first byte of the first one. -/
def twoLetters : @Bucket unaryIDs :=
  @Bucket.mk unaryIDs [⟨⟨1, some 1⟩, utf8 ['é']⟩, ⟨⟨2, some 2⟩, utf8 ['中']⟩]
    [sampleVersion 1 ['é'] 1 10, sampleVersion 2 ['中'] 2 20]
    (by decide) (by decide) (by decide) (by decide) (by decide) (by decide)
    (by
      intro o ho
      simp only [List.mem_cons, List.not_mem_nil, or_false] at ho
      rcases ho with rfl | rfl
      · exact ⟨_, rfl⟩
      · exact ⟨_, rfl⟩)

/-- **A delimiter that cuts a character hides keys.** The second key does not begin with the common prefix `0xC3` of
    the first, and neither listing shows it. -/
theorem cut_delimiter_hides_key : @Bucket.IsLive unaryIDs twoLetters ⟨sampleVersion 2 ['中'] 2 20, true⟩ ∧
    ¬ [0xC3] <+: utf8 ['中'] ∧
    (@Bucket.currentWalk unaryIDs twoLetters []).jumps ⟨[], [0xC3], [], 1000⟩ { cursor := [], lastMarker := [] }
      ⟨sampleVersion 1 ['é'] 1 10, true⟩ (utf8 ['中']) = true ∧
    @Bucket.listCurrentObjects unaryIDs 3 twoLetters [] [0xC3] [] 1000 = some ⟨[], [[0xC3]], false, []⟩ ∧
    @Bucket.listVersions unaryIDs 3 twoLetters [] [0xC3] [] "" 1000 = some ⟨[], [[0xC3]], false, ([], "")⟩ := by
  refine ⟨⟨⟨⟨2, some 2⟩, _⟩, List.mem_cons_of_mem _ List.mem_cons_self, _, List.mem_cons_of_mem _ List.mem_cons_self,
    rfl, rfl, rfl, rfl⟩, by decide +kernel, by decide +kernel, by decide +kernel, by decide +kernel⟩

end SynapS3.Listing
