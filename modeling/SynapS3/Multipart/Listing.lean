import Mathlib.Data.Prod.Lex
import SynapS3.Listing.Prefix
import SynapS3.Listing.Rows

/-!
# `Multipart.Listing` — listing the uploads of a bucket and the parts of an upload

`ListMultipartUploads` and `ListParts` over `ListByBucket` and `GetParts`. Both ask for one row more than the
page holds, cut it off, and take the marker from the last row that is left. `listMultipartUploads` takes it
without a look at the page size: at `MaxUploads = 0` the page is empty, and where an upload matches the call
panics (`empty_page_panics`).

No query fails. Part number markers are integers, not their texts, and what an answer only repeats of the request
or of a row is left out.
-/

namespace SynapS3.Multipart

open Utf8 Listing

/-! ## Pages that are cut one row ahead -/

section Pages

variable {ρ μ : Type}

/-- A client that asks for page after page, each from the marker of the page before it; `list` answers with the
    rows, whether more follow, and the marker, and the page `i` has the size `sizes i`. -/
def follow (list : μ → Nat → Option (List ρ × Bool × μ)) (sizes : Nat → Nat) : Nat → Nat → μ → Option (List (List ρ))
  | 0, _, _ => none
  | n + 1, i, marker => do
    let (rows, truncated, next) ← list marker (sizes i)
    if truncated then return rows :: (← follow list sizes n (i + 1) next)
    else return [rows]

variable (after : μ → ρ → Bool) (mark : ρ → μ) (all : List ρ)

/-- A page of the rows after a marker: the first ones, whether rows remain, and the mark of the last one if so. -/
structure IsPage (marker : μ) (size : Nat) (page : List ρ × Bool × μ) : Prop where
  rows : page.1 = (all.filter (after marker)).take size
  truncated : page.2.1 = true ↔ size < (all.filter (after marker)).length
  next : page.2.1 = true → 0 < size → ∃ r ∈ page.1.getLast?, page.2.2 = mark r

variable (before : ρ → ρ → Prop) [DecidableRel before]

/-- The rows are in order, and the mark of a row stands right after it. -/
structure Cursor : Prop where
  asymm : ∀ r s, before r s → ¬ before s r
  sorted : all.Pairwise before
  mark_iff : ∀ r ∈ all, ∀ s, after (mark r) s = decide (before r s)
  later : ∀ m r s, after m r = true → before r s → after m s = true

variable {after mark all before}

theorem IsPage.rest (hc : Cursor after mark all before) {marker : μ} {size : Nat} {page : List ρ × Bool × μ}
    (h : IsPage after mark all marker size page) (ht : page.2.1 = true) (hsize : 0 < size) :
    all.filter (after page.2.2) = (all.filter (after marker)).drop size := by
  obtain ⟨r, hr, hnext⟩ := h.next ht hsize
  obtain ⟨pre, hpre⟩ := List.getLast?_eq_some_iff.mp hr
  rw [h.rows] at hpre
  have hsplit : all.filter (after marker) = pre ++ r :: (all.filter (after marker)).drop size := by
    conv_lhs => rw [← List.take_append_drop size (all.filter (after marker)), hpre]
    rw [List.append_assoc]
    rfl
  have hmem : r ∈ all.filter (after marker) := by
    rw [hsplit]
    exact List.mem_append_right _ List.mem_cons_self
  obtain ⟨hr, hrm⟩ := List.mem_filter.mp hmem
  rw [← filter_after hc.asymm hsplit (hc.sorted.filter _), hnext, List.filter_filter]
  refine List.filter_congr fun s _ => ?_
  rw [hc.mark_iff r hr, Bool.eq_iff_iff, Bool.and_eq_true, decide_eq_true_eq]
  exact ⟨fun hlt => ⟨hlt, hc.later marker r s hrm hlt⟩, fun hlt => hlt.1⟩

/-- **A client that goes on from each page's marker sees all rows after the first marker, in order.** -/
theorem Cursor.follow_exact (hc : Cursor after mark all before) {list : μ → Nat → Option (List ρ × Bool × μ)}
    (hlist : ∀ m size, 0 < size → ∃ page, list m size = some page ∧ IsPage after mark all m size page)
    {sizes : Nat → Nat} (hsizes : ∀ i, 0 < sizes i) {n : Nat} (i : Nat) {marker : μ}
    (hn : (all.filter (after marker)).length < n) :
    ∃ pages, follow list sizes n i marker = some pages ∧ pages.flatten = all.filter (after marker) := by
  induction n generalizing i marker with
  | zero => exact absurd hn (Nat.not_lt_zero _)
  | succ n ih =>
    obtain ⟨⟨rows, truncated, next⟩, hpage, h⟩ := hlist marker (sizes i) (hsizes i)
    have hrows : rows = (all.filter (after marker)).take (sizes i) := h.rows
    rw [follow, hpage]
    cases truncated with
    | false =>
      have hall : (all.filter (after marker)).length ≤ sizes i :=
        Nat.le_of_not_lt fun hlt => Bool.false_ne_true (h.truncated.mpr hlt)
      refine ⟨[rows], rfl, ?_⟩
      rw [List.flatten_singleton, hrows, List.take_of_length_le hall]
    | true =>
      have hrest : all.filter (after next) = (all.filter (after marker)).drop (sizes i) :=
        h.rest hc rfl (hsizes i)
      have hpos := hsizes i
      have hlt := h.truncated.mp rfl
      obtain ⟨pages, hpages, hflat⟩ := @ih (i + 1) next (by rw [hrest, List.length_drop]; omega)
      refine ⟨rows :: pages, by simp [hpages], ?_⟩
      rw [List.flatten_cons, hflat, hrest, hrows, List.take_append_drop]

end Pages

/-! ## The tables -/

/-- A text column or parameter: PostgreSQL stores and accepts UTF-8 only. -/
abbrev Text := { s : Bytes // Valid s }

inductive MultipartStatus where
  | initiated
  | completing
  | completed
  | aborted
  deriving DecidableEq

/-- A row of `multipart_uploads`. The order of the upload IDs is that of the database's collation. -/
structure MultipartUpload (ι : Type) where
  uploadID : ι
  bucketID : Nat
  key : Text
  status : MultipartStatus
  createdAt : Int
  deriving DecidableEq

/-- `model.MultipartPart`. -/
structure MultipartPart (ι : Type) where
  uploadID : ι
  partNumber : Int
  size : Nat
  eTag : String
  createdAt : Int
  deriving DecidableEq

/-- The two tables, with what the schema says of them. -/
structure Tables (ι : Type) where
  uploads : List (MultipartUpload ι)
  parts : List (MultipartPart ι)
  /-- the primary key of `multipart_uploads` -/
  uploads_id : (uploads.map fun u => u.uploadID).Nodup
  /-- `idx_multipart_parts_upload_part` -/
  parts_number : (parts.map fun p => (p.uploadID, p.partNumber)).Nodup
  /-- `chk_multipart_uploads_identity` -/
  key_ne : ∀ u ∈ uploads, u.key.1 ≠ []
  /-- `chk_multipart_parts_part_number` -/
  part_number : ∀ p ∈ parts, 1 ≤ p.partNumber ∧ p.partNumber ≤ 10000

variable {ι : Type} [LinearOrder ι]

def MultipartUpload.place (u : MultipartUpload ι) : Bytes ×ₗ ι := toLex (u.key.1, u.uploadID)

/-- The condition on the markers: without an upload ID the marker is the key, without a key there is none. -/
def afterMarkers (markers : Bytes × Option ι) (u : MultipartUpload ι) : Bool :=
  markers.1 = [] || match markers.2 with
    | some uploadID => markers.1 < u.key.1 ∨ (u.key.1 = markers.1 ∧ uploadID < u.uploadID)
    | none => markers.1 < u.key.1

def Tables.listByBucket (t : Tables ι) (bucketID : Nat) (keyPrefix : Text) (markers : Bytes × Option ι)
    (maxUploads : Int) : List (MultipartUpload ι) :=
  let q := t.uploads.filter fun u => u.bucketID = bucketID ∧ u.status = .initiated
  let q := q.filter fun u => caseSensitivePrefix keyPrefix.1 u.key.1
  let q := q.filter (afterMarkers markers)
  limit maxUploads (q.insertionSort fun u v => u.place ≤ v.place)

def Tables.getParts (t : Tables ι) (uploadID : ι) (partNumberMarker maxParts : Int) : List (MultipartPart ι) :=
  let q := t.parts.filter fun p => p.uploadID = uploadID
  let q := q.filter fun p => partNumberMarker ≤ 0 ∨ partNumberMarker < p.partNumber
  limit maxParts (q.insertionSort fun p p' => p.partNumber ≤ p'.partNumber)

/-! ## The calls -/

/-- The rows of an answer, `IsTruncated`, and the next markers. -/
structure Answer (ρ μ : Type) where
  rows : List ρ
  isTruncated : Bool
  next : μ
  deriving DecidableEq

/-- `ListMultipartUploads`; there is no answer if it panics. -/
def Tables.listMultipartUploads (t : Tables ι) (bucketID : Nat) (keyPrefix : Text) (markers : Bytes × Option ι)
    (maxUploads : Option Int) : Option (Answer (MultipartUpload ι) (Bytes × Option ι)) :=
  let maxUploads := maxUploads.getD 1000
  let uploads := t.listByBucket bucketID keyPrefix markers (maxUploads + 1)
  if maxUploads < uploads.length then
    -- a slice to a negative index panics, and so does `uploads[len(uploads)-1]` of an empty slice
    if maxUploads < 0 then none
    else (uploads.take maxUploads.toNat).getLast?.map fun last =>
      ⟨uploads.take maxUploads.toNat, true, last.key.1, some last.uploadID⟩
  else some ⟨uploads, false, [], none⟩

/-- `getActiveUpload`, and that the upload is of the key; none is `ErrNoSuchUpload`. -/
def Tables.getActiveUpload (t : Tables ι) (bucketID : Nat) (key : Text) (uploadID : ι) : Option (MultipartUpload ι) :=
  (t.uploads.find? fun u => u.uploadID = uploadID).filter fun u =>
    u.bucketID = bucketID ∧ u.status = .initiated ∧ u.key = key

/-- `ListParts`; there is no answer if there is no such upload. -/
def Tables.listParts (t : Tables ι) (bucketID : Nat) (key : Text) (uploadID : ι) (partMarker : Int)
    (maxParts : Option Int) : Option (Answer (MultipartPart ι) Int) :=
  (t.getActiveUpload bucketID key uploadID).map fun _ =>
    let maxParts := maxParts.getD 1000
    let parts := t.getParts uploadID partMarker (maxParts + 1)
    if maxParts < parts.length then
      if 0 < maxParts then
        let parts := parts.take maxParts.toNat
        ⟨parts, true, (parts.getLast?.map (·.partNumber)).getD 0⟩
      else ⟨[], true, 0⟩
    else ⟨parts, false, 0⟩

/-! ## The queries read what follows the markers -/

theorem limit_succ {α : Type} {size : Int} (h : 0 ≤ size) (rows : List α) :
    limit (size + 1) rows = rows.take (size.toNat + 1) := by
  rw [limit, if_pos (by omega)]
  congr 1
  omega

section Ordered

variable {α β : Type} [LinearOrder β] {rows : List α} {place : α → β}

instance place_total : Std.Total fun a b : α => place a ≤ place b := ⟨fun _ _ => le_total _ _⟩

instance place_trans : IsTrans α fun a b => place a ≤ place b := ⟨fun _ _ _ => le_trans⟩

theorem ordered_pairwise (h : (rows.map place).Nodup) :
    (rows.insertionSort fun a b => place a ≤ place b).Pairwise fun a b => place a < place b := by
  have hnodup := ((List.perm_insertionSort (fun a b => place a ≤ place b) rows).map place).nodup_iff.mpr h
  have hsorted := List.pairwise_insertionSort (fun a b => place a ≤ place b) rows
  exact (hsorted.and (List.pairwise_map.mp hnodup)).imp fun hab => lt_of_le_of_ne hab.1 hab.2

theorem ordered_filter (h : (rows.map place).Nodup) (p : α → Bool) :
    (rows.filter p).insertionSort (fun a b => place a ≤ place b) =
      (rows.insertionSort fun a b => place a ≤ place b).filter p :=
  filter_insertionSort (fun _ ha _ hb hab hba => List.inj_on_of_nodup_map h ha hb (le_antisymm hab hba)) p

end Ordered

def MultipartUpload.mark (u : MultipartUpload ι) : Bytes × Option ι := (u.key.1, some u.uploadID)

variable {u : MultipartUpload ι}

theorem place_lt_iff {v : MultipartUpload ι} :
    u.place < v.place ↔ u.key.1 < v.key.1 ∨ (u.key.1 = v.key.1 ∧ u.uploadID < v.uploadID) := Prod.Lex.lt_iff

theorem afterMarkers_mark (hu : u.key.1 ≠ []) (v : MultipartUpload ι) :
    afterMarkers u.mark v = decide (u.place < v.place) := by
  rw [Bool.eq_iff_iff, decide_eq_true_eq, place_lt_iff]
  show (decide (u.key.1 = []) || decide (u.key.1 < v.key.1 ∨ (v.key.1 = u.key.1 ∧ u.uploadID < v.uploadID))) = true ↔ _
  rw [decide_eq_false hu, Bool.false_or, decide_eq_true_eq, @eq_comm _ v.key.1]

theorem afterMarkers_of_lt {markers : Bytes × Option ι} {v : MultipartUpload ι}
    (h : afterMarkers markers u = true) (hlt : u.place < v.place) : afterMarkers markers v = true := by
  obtain ⟨key, uploadID⟩ := markers
  rw [place_lt_iff] at hlt
  cases uploadID with
  | none =>
    simp only [afterMarkers, Bool.or_eq_true, decide_eq_true_eq] at h ⊢
    refine h.imp_right fun hkey => hlt.elim hkey.trans fun heq => ?_
    rw [← heq.1]
    exact hkey
  | some id =>
    simp only [afterMarkers, Bool.or_eq_true, decide_eq_true_eq] at h ⊢
    refine h.imp_right fun hkey => ?_
    rcases hkey with hkey | ⟨hkey, hid⟩ <;> rcases hlt with hlt | ⟨heq, hid'⟩
    · exact .inl (hkey.trans hlt)
    · exact .inl (heq ▸ hkey)
    · exact .inl (hkey ▸ hlt)
    · exact .inr ⟨heq.symm.trans hkey, hid.trans hid'⟩

variable (t : Tables ι)

def Tables.matching (bucketID : Nat) (keyPrefix : Text) : List (MultipartUpload ι) :=
  ((t.uploads.filter fun u => u.bucketID = bucketID ∧ u.status = .initiated).filter fun u =>
    caseSensitivePrefix keyPrefix.1 u.key.1).insertionSort fun u v => u.place ≤ v.place

variable {t} {bucketID : Nat} {keyPrefix key : Text} {uploadID : ι}

theorem mem_matching : u ∈ t.matching bucketID keyPrefix ↔
    u ∈ t.uploads ∧ u.bucketID = bucketID ∧ u.status = .initiated ∧ keyPrefix.1 <+: u.key.1 := by
  simp only [Tables.matching, List.mem_insertionSort, List.mem_filter, decide_eq_true_eq,
    caseSensitivePrefix_iff keyPrefix.2 u.key.2, and_assoc]

omit [LinearOrder ι] in
theorem matching_nodup : (((t.uploads.filter fun u => u.bucketID = bucketID ∧ u.status = .initiated).filter fun u =>
    caseSensitivePrefix keyPrefix.1 u.key.1).map MultipartUpload.place).Nodup := by
  refine List.Nodup.of_map (fun place => (ofLex place).2) ?_
  rw [List.map_map]
  exact t.uploads_id.sublist ((List.filter_sublist.trans List.filter_sublist).map _)

theorem matching_pairwise : (t.matching bucketID keyPrefix).Pairwise fun u v => u.place < v.place :=
  ordered_pairwise matching_nodup

theorem listByBucket_eq {markers : Bytes × Option ι} {size : Int} (hsize : 0 ≤ size) :
    t.listByBucket bucketID keyPrefix markers (size + 1) =
      ((t.matching bucketID keyPrefix).filter (afterMarkers markers)).take (size.toNat + 1) := by
  rw [Tables.listByBucket, limit_succ hsize, ordered_filter matching_nodup]
  rfl

def Tables.partsOf (t : Tables ι) (uploadID : ι) : List (MultipartPart ι) :=
  (t.parts.filter fun p => p.uploadID = uploadID).insertionSort fun p p' => p.partNumber ≤ p'.partNumber

theorem partsOf_nodup : ((t.parts.filter fun p => p.uploadID = uploadID).map (·.partNumber)).Nodup := by
  refine ((List.Nodup.of_map _ t.parts_number).filter _).map_on fun p hp q hq hpq => ?_
  obtain ⟨hp, hpid⟩ := List.mem_filter.mp hp
  obtain ⟨hq, hqid⟩ := List.mem_filter.mp hq
  refine List.inj_on_of_nodup_map t.parts_number hp hq (Prod.ext ?_ hpq)
  exact (of_decide_eq_true hpid).trans (of_decide_eq_true hqid).symm

theorem mem_partsOf {p : MultipartPart ι} : p ∈ t.partsOf uploadID ↔ p ∈ t.parts ∧ p.uploadID = uploadID := by
  simp only [Tables.partsOf, List.mem_insertionSort, List.mem_filter, decide_eq_true_eq]

theorem partsOf_pairwise : (t.partsOf uploadID).Pairwise fun p p' => p.partNumber < p'.partNumber :=
  ordered_pairwise partsOf_nodup

theorem getParts_eq {marker size : Int} (hsize : 0 ≤ size) : t.getParts uploadID marker (size + 1) =
    ((t.partsOf uploadID).filter fun p => marker < p.partNumber).take (size.toNat + 1) := by
  rw [Tables.getParts, limit_succ hsize, ordered_filter partsOf_nodup]
  congr 1
  refine List.filter_congr fun p hp => ?_
  -- no part has a number that a marker below 1 would leave out
  have hpos := (t.part_number p (mem_partsOf.mp hp).1).1
  rw [Bool.eq_iff_iff, decide_eq_true_eq, decide_eq_true_eq]
  omega

/-! ## Exactness -/

def Answer.page {ρ μ : Type} (a : Answer ρ μ) : List ρ × Bool × μ := (a.rows, a.isTruncated, a.next)

theorem exists_getLast_take {α : Type} {rest : List α} {size : Nat} (hpos : 0 < size) (hlt : size < rest.length) :
    ∃ last, (rest.take size).getLast? = some last := by
  rw [← Option.isSome_iff_exists, List.getLast?_isSome, ← List.length_pos_iff_ne_nil, List.length_take]
  omega

theorem listMultipartUploads_page (t : Tables ι) (bucketID : Nat) (keyPrefix : Text) (markers : Bytes × Option ι)
    {maxUploads : Option Int} (h : 0 ≤ maxUploads.getD 1000)
    (hpage : 1 ≤ maxUploads.getD 1000 ∨ (t.matching bucketID keyPrefix).filter (afterMarkers markers) = []) :
    ∃ answer, t.listMultipartUploads bucketID keyPrefix markers maxUploads = some answer ∧
      IsPage afterMarkers MultipartUpload.mark (t.matching bucketID keyPrefix) markers
        (maxUploads.getD 1000).toNat answer.page := by
  unfold Tables.listMultipartUploads
  generalize maxUploads.getD 1000 = size at h hpage
  simp only [listByBucket_eq h, List.length_take]
  generalize hrest : (t.matching bucketID keyPrefix).filter (afterMarkers markers) = rest at hpage
  by_cases hlt : size.toNat < rest.length
  · have hsize : 1 ≤ size := hpage.resolve_right (List.ne_nil_of_length_pos (by omega))
    rw [if_pos (by omega), if_neg (by omega), List.take_take, Nat.min_eq_left (Nat.le_succ _)]
    obtain ⟨last, hlast⟩ := exists_getLast_take (show 0 < size.toNat by omega) hlt
    rw [hlast]
    exact ⟨_, rfl, by rw [hrest]; rfl, by rw [hrest]; exact iff_of_true rfl hlt, fun _ _ => ⟨last, hlast, rfl⟩⟩
  · rw [if_neg (by omega), List.take_of_length_le (by omega)]
    refine ⟨_, rfl, ?_, ?_, nofun⟩
    · rw [hrest, List.take_of_length_le (by omega)]
      rfl
    · rw [hrest]
      exact iff_of_false Bool.false_ne_true hlt

theorem listMultipartUploads_panics {markers : Bytes × Option ι} {maxUploads : Option Int}
    (h : maxUploads.getD 1000 = 0) (hrest : (t.matching bucketID keyPrefix).filter (afterMarkers markers) ≠ []) :
    t.listMultipartUploads bucketID keyPrefix markers maxUploads = none := by
  have hpos := List.length_pos_iff_ne_nil.mpr hrest
  unfold Tables.listMultipartUploads
  simp only [h, listByBucket_eq le_rfl, List.length_take]
  rw [if_pos (by omega), if_neg (by omega)]
  rfl

theorem listParts_page (hactive : (t.getActiveUpload bucketID key uploadID).isSome = true) (marker : Int)
    {maxParts : Option Int} (h : 0 ≤ maxParts.getD 1000) : ∃ answer,
    t.listParts bucketID key uploadID marker maxParts = some answer ∧
      IsPage (fun (m : Int) (p : MultipartPart ι) => m < p.partNumber) MultipartPart.partNumber (t.partsOf uploadID)
        marker (maxParts.getD 1000).toNat answer.page := by
  obtain ⟨u, hu⟩ := Option.isSome_iff_exists.mp hactive
  unfold Tables.listParts
  rw [hu, Option.map_some]
  refine ⟨_, rfl, ?_⟩
  generalize maxParts.getD 1000 = size at h
  simp only [getParts_eq h, List.length_take]
  generalize hrest : ((t.partsOf uploadID).filter fun p => marker < p.partNumber) = rest
  by_cases hlt : size.toNat < rest.length
  · rw [if_pos (by omega), List.take_take, Nat.min_eq_left (Nat.le_succ _)]
    by_cases hpos : 0 < size
    · obtain ⟨last, hlast⟩ := exists_getLast_take (show 0 < size.toNat by omega) hlt
      rw [if_pos hpos, hlast]
      exact ⟨by rw [hrest]; rfl, by rw [hrest]; exact iff_of_true rfl hlt, fun _ _ => ⟨last, hlast, rfl⟩⟩
    · rw [if_neg hpos]
      have hzero : size.toNat = 0 := by omega
      exact ⟨by rw [hzero]; rfl, by rw [hrest]; exact iff_of_true rfl hlt, fun _ hsize => absurd hsize (by omega)⟩
  · rw [if_neg (by omega), List.take_of_length_le (by omega)]
    refine ⟨?_, ?_, nofun⟩
    · rw [hrest, List.take_of_length_le (by omega)]
      rfl
    · rw [hrest]
      exact iff_of_false Bool.false_ne_true hlt

/-- **Multipart listings are complete**: a client that goes on from the returned markers sees every matching upload
    once, in the order of keys and upload IDs. `ListMultipartUploads` gives the page exactly if the page is of at least
    one upload or no matching upload is left after the markers. The same holds for the parts of an active upload, with
    no exception. -/
theorem multipart_listings_complete (t : Tables ι) :
    (∀ (bucketID : Nat) (keyPrefix : Text), ∃ all : List (MultipartUpload ι),
      all.Pairwise (fun u v => u.place < v.place) ∧
      (∀ u, u ∈ all ↔ u ∈ t.uploads ∧ u.bucketID = bucketID ∧ u.status = .initiated ∧ keyPrefix.1 <+: u.key.1) ∧
      (∀ markers (maxUploads : Option Int), 0 ≤ maxUploads.getD 1000 →
        ((∃ answer, t.listMultipartUploads bucketID keyPrefix markers maxUploads = some answer ∧
          IsPage afterMarkers MultipartUpload.mark all markers (maxUploads.getD 1000).toNat answer.page) ↔
        1 ≤ maxUploads.getD 1000 ∨ ∀ u ∈ all, afterMarkers markers u = false)) ∧
      ∀ sizes : Nat → Nat, (∀ i, 0 < sizes i) → ∀ n, t.uploads.length < n → ∃ pages,
        follow (fun markers size => (t.listMultipartUploads bucketID keyPrefix markers (some size)).map Answer.page)
          sizes n 0 ([], none) = some pages ∧ pages.flatten = all) ∧
    ∀ (bucketID : Nat) (key : Text) (uploadID : ι), (t.getActiveUpload bucketID key uploadID).isSome = true →
      ∃ all : List (MultipartPart ι), all.Pairwise (fun p p' => p.partNumber < p'.partNumber) ∧
      (∀ p, p ∈ all ↔ p ∈ t.parts ∧ p.uploadID = uploadID) ∧
      (∀ marker (maxParts : Option Int), 0 ≤ maxParts.getD 1000 → ∃ answer,
        t.listParts bucketID key uploadID marker maxParts = some answer ∧
        IsPage (fun (m : Int) (p : MultipartPart ι) => m < p.partNumber) MultipartPart.partNumber all marker
          (maxParts.getD 1000).toNat answer.page) ∧
      ∀ sizes : Nat → Nat, (∀ i, 0 < sizes i) → ∀ n, t.parts.length < n → ∃ pages,
        follow (fun marker size => (t.listParts bucketID key uploadID marker (some size)).map Answer.page) sizes n 0 0 =
          some pages ∧ pages.flatten = all := by
  refine ⟨fun bucketID keyPrefix => ⟨t.matching bucketID keyPrefix, matching_pairwise, fun _ => mem_matching,
    fun markers _ h => ⟨?_, fun hpage => ?_⟩, fun sizes hsizes n hn => ?_⟩,
    fun bucketID key uploadID hactive => ⟨t.partsOf uploadID, partsOf_pairwise, fun _ => mem_partsOf,
    fun marker _ h => listParts_page hactive marker h, fun sizes hsizes n hn => ?_⟩⟩
  · rintro ⟨answer, hanswer, -⟩
    by_contra! hpage
    obtain ⟨hsize, u, hu, hafter⟩ := hpage
    have hleft := List.ne_nil_of_mem (List.mem_filter.mpr ⟨hu, eq_true_of_ne_false hafter⟩)
    rw [listMultipartUploads_panics (by omega) hleft] at hanswer
    nomatch hanswer
  · refine listMultipartUploads_page t bucketID keyPrefix markers h (hpage.imp_right fun hnone => ?_)
    exact List.filter_eq_nil_iff.mpr fun u hu => ne_true_of_eq_false (hnone u hu)
  · have hall : (t.matching bucketID keyPrefix).filter (afterMarkers ([], none)) = t.matching bucketID keyPrefix :=
      List.filter_eq_self.mpr fun _ _ => rfl
    have hlen : (t.matching bucketID keyPrefix).length ≤ t.uploads.length := by
      rw [Tables.matching, List.length_insertionSort]
      exact (List.filter_sublist.trans List.filter_sublist).length_le
    have hcursor : Cursor afterMarkers MultipartUpload.mark (t.matching bucketID keyPrefix)
        fun u v => u.place < v.place :=
      ⟨fun _ _ => not_lt_of_gt, matching_pairwise, fun u hu => afterMarkers_mark (t.key_ne u (mem_matching.mp hu).1),
        fun _ _ _ => afterMarkers_of_lt⟩
    have hlist : ∀ markers (size : Nat), 0 < size → ∃ page,
        (t.listMultipartUploads bucketID keyPrefix markers (some size)).map Answer.page = some page ∧
          IsPage afterMarkers MultipartUpload.mark (t.matching bucketID keyPrefix) markers size page := by
      intro markers size hsize
      have hpos : 1 ≤ (some (size : Int)).getD 1000 := Int.ofNat_le.mpr hsize
      obtain ⟨answer, hanswer, hpage⟩ :=
        listMultipartUploads_page t bucketID keyPrefix markers (zero_le_one.trans hpos) (.inl hpos)
      exact ⟨_, congrArg _ hanswer, hpage⟩
    obtain ⟨pages, hpages, hflat⟩ := hcursor.follow_exact hlist hsizes 0 (hall ▸ Nat.lt_of_le_of_lt hlen hn)
    exact ⟨pages, hpages, hflat.trans hall⟩
  · have hall : ((t.partsOf uploadID).filter fun p => (0 : Int) < p.partNumber) = t.partsOf uploadID :=
      List.filter_eq_self.mpr fun p hp => decide_eq_true (t.part_number p (mem_partsOf.mp hp).1).1
    have hlen : (t.partsOf uploadID).length ≤ t.parts.length := by
      rw [Tables.partsOf, List.length_insertionSort]
      exact List.length_filter_le _ _
    have hcursor : Cursor (fun (m : Int) (p : MultipartPart ι) => m < p.partNumber) MultipartPart.partNumber
        (t.partsOf uploadID) fun p p' => p.partNumber < p'.partNumber :=
      ⟨fun _ _ => not_lt_of_gt, partsOf_pairwise, fun _ _ _ => rfl,
        fun _ _ _ h h' => decide_eq_true ((of_decide_eq_true h).trans h')⟩
    have hlist : ∀ marker (size : Nat), 0 < size → ∃ page,
        (t.listParts bucketID key uploadID marker (some size)).map Answer.page = some page ∧
          IsPage (fun (m : Int) (p : MultipartPart ι) => m < p.partNumber) MultipartPart.partNumber
            (t.partsOf uploadID) marker size page := by
      intro marker size _
      have hpos : 0 ≤ (some (size : Int)).getD 1000 := Int.natCast_nonneg size
      obtain ⟨answer, hanswer, hpage⟩ := listParts_page hactive marker hpos
      exact ⟨_, congrArg _ hanswer, hpage⟩
    obtain ⟨pages, hpages, hflat⟩ := hcursor.follow_exact hlist hsizes 0 (hall ▸ Nat.lt_of_le_of_lt hlen hn)
    exact ⟨pages, hpages, hflat.trans hall⟩

def twoUploads : Tables Nat where
  uploads := [⟨1, 7, ⟨utf8 ['k'], _, rfl⟩, .initiated, 10⟩, ⟨2, 7, ⟨utf8 ['k'], _, rfl⟩, .initiated, 20⟩]
  parts := [⟨1, 3, 5, "c", 13⟩, ⟨1, 1, 5, "a", 11⟩, ⟨1, 2, 5, "b", 12⟩]
  uploads_id := by decide
  parts_number := by decide
  key_ne := by decide
  part_number := by decide

/-- Pages of one upload and of two parts. -/
theorem multipart_listings_complete_small :
    (∃ pages, follow (fun markers size => (twoUploads.listMultipartUploads 7 ⟨[], [], rfl⟩ markers (some size)).map
        Answer.page) (fun _ => 1) 3 0 ([], none) = some pages ∧ pages.flatten = twoUploads.uploads) ∧
    ∃ pages, follow (fun marker size => (twoUploads.listParts 7 ⟨utf8 ['k'], _, rfl⟩ 1 marker (some size)).map
        Answer.page) (fun _ => 2) 4 0 0 = some pages ∧ pages.flatten.map (·.partNumber) = [1, 2, 3] := by
  obtain ⟨hu, hp⟩ := multipart_listings_complete twoUploads
  obtain ⟨all, -, -, -, hall⟩ := hu 7 ⟨[], [], rfl⟩
  obtain ⟨parts, -, -, -, hparts⟩ := hp 7 ⟨utf8 ['k'], _, rfl⟩ 1 (by decide +kernel)
  obtain ⟨pages, hpages, -⟩ := hall (fun _ => 1) (fun _ => Nat.one_pos) 3 (by decide)
  obtain ⟨pages', hpages', -⟩ := hparts (fun _ => 2) (fun _ => Nat.two_pos) 4 (by decide)
  refine ⟨⟨pages, hpages, ?_⟩, pages', hpages', ?_⟩
  · have h : (follow (fun markers size => (twoUploads.listMultipartUploads 7 ⟨[], [], rfl⟩ markers (some size)).map
        Answer.page) (fun _ => 1) 3 0 ([], none)).map List.flatten = some twoUploads.uploads := by decide +kernel
    rw [hpages] at h
    exact Option.some.inj h
  · have h : (follow (fun marker size => (twoUploads.listParts 7 ⟨utf8 ['k'], _, rfl⟩ 1 marker (some size)).map
        Answer.page) (fun _ => 2) 4 0 0).map (fun pages => pages.flatten.map (·.partNumber)) = some [1, 2, 3] := by
      decide +kernel
    rw [hpages'] at h
    exact Option.some.inj h

/-- **An empty page panics.** `MaxUploads = 0` is not negative, two uploads match, and there is no answer. -/
theorem empty_page_panics : twoUploads.listMultipartUploads 7 ⟨[], [], rfl⟩ ([], none) (some 0) = none := by
  decide +kernel

end SynapS3.Multipart
