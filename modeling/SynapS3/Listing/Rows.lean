import SynapS3.Listing.Page

/-!
# `Listing.Rows` — the rows of a bucket in the order of a query

The join gives each version its object (`joined_spec`, `mem_joined_of_version`), and sorting what a query has
kept is the same as keeping of what was sorted (`filter_insertionSort`), so every query of a listing reads from
one sorted list.
-/

namespace SynapS3.Listing

open Object

section Sorting

variable {α : Type} {r : α → α → Prop} {l : List α}

theorem filter_insertionSort [DecidableRel r] [Std.Total r] [IsTrans α r]
    (hanti : ∀ a ∈ l, ∀ b ∈ l, r a b → r b a → a = b) (p : α → Bool) :
    (l.filter p).insertionSort r = (l.insertionSort r).filter p := by
  refine List.Perm.eq_of_pairwise ?_ (List.pairwise_insertionSort r _) ((List.pairwise_insertionSort r l).filter p) ?_
  · intro a b ha hb
    have ha' : a ∈ l := (List.mem_filter.mp ((List.mem_insertionSort r).mp ha)).1
    have hb' : b ∈ l := (List.mem_insertionSort r).mp (List.mem_filter.mp hb).1
    exact hanti a ha' b hb'
  · exact (List.perm_insertionSort r _).trans ((List.perm_insertionSort r l).symm.filter p)

theorem filter_after [DecidableRel r] (hasymm : ∀ a b, r a b → ¬ r b a) {pre post : List α} {a : α}
    (hl : l = pre ++ a :: post) (hsorted : l.Pairwise r) : (l.filter fun b => r a b) = post := by
  subst hl
  obtain ⟨-, hpost, hpre⟩ := List.pairwise_append.mp hsorted
  have hkept : (post.filter fun b => r a b) = post := by
    rw [List.filter_eq_self]
    intro b hb
    exact decide_eq_true (List.rel_of_pairwise_cons hpost hb)
  have hdropped : (pre.filter fun b => r a b) = [] := by
    rw [List.filter_eq_nil_iff]
    intro b hb hab
    exact hasymm a b (of_decide_eq_true hab) (hpre b hb a List.mem_cons_self)
  rw [List.filter_append, hdropped, List.nil_append, List.filter_cons_of_neg, hkept]
  intro haa
  exact hasymm a a (of_decide_eq_true haa) (of_decide_eq_true haa)

/-- The elements of a sorted list that pass a test which stays passed are its end. -/
theorem filter_append_filter {p : α → Bool} (h : l.Pairwise fun a b => p a = true → p b = true) :
    (l.filter fun a => !p a) ++ l.filter p = l := by
  induction l with
  | nil => rfl
  | cons a l ih =>
    by_cases ha : p a = true
    · have hall : ∀ b ∈ a :: l, p b = true := by
        intro b hb
        rcases List.mem_cons.mp hb with rfl | hb
        · exact ha
        · exact List.rel_of_pairwise_cons h hb ha
      have hnone : ((a :: l).filter fun a => !p a) = [] := by
        rw [List.filter_eq_nil_iff]
        intro b hb
        rw [hall b hb]
        exact Bool.false_ne_true
      rw [hnone, List.nil_append, List.filter_eq_self.mpr hall]
    · rw [List.filter_cons_of_neg ha, List.filter_cons_of_pos (by rw [Bool.not_eq_true] at ha; rw [ha]; rfl),
        List.cons_append, ih h.of_cons]

theorem take_take_append_take (n : Nat) (l l' : List α) : (l.take n ++ l'.take n).take n = (l ++ l').take n := by
  rw [List.take_append, List.take_append, List.take_take, List.take_take, Nat.min_self, List.length_take]
  congr 2
  omega

theorem limit_listingBatchSize (rows : List α) :
    limit listingBatchSize rows = rows.take listingBatchSize.toNat := if_pos (by decide)

end Sorting

section Join

variable [VersionIDs] {b : Bucket} {v : Version Bytes} {o' : ObjectRow} {j : Joined}

theorem Bucket.version_eq {v' : Version Bytes} (hv : v ∈ b.versions) (hv' : v' ∈ b.versions)
    (h : VersionIDs.text v.id = VersionIDs.text v'.id) : v = v' :=
  List.inj_on_of_nodup_map b.versions_id hv hv' h

variable {o : ObjectRow}

theorem Bucket.object_eq (ho : o ∈ b.objects) (ho' : o' ∈ b.objects) (h : o.id = o'.id) : o = o' :=
  List.inj_on_of_nodup_map b.objects_id ho ho' h

theorem Bucket.object_eq_of_key (ho : o ∈ b.objects) (ho' : o' ∈ b.objects) (h : o.key = o'.key) : o = o' :=
  List.inj_on_of_nodup_map b.objects_key ho ho' h

theorem joined_spec (hj : j ∈ b.joined) :
    j.version ∈ b.versions ∧ j.object ∈ b.objects ∧ j.object.id = j.version.objectID ∧
      j.object.key = j.version.key := by
  obtain ⟨v, hv, hfind⟩ := List.mem_filterMap.mp hj
  obtain ⟨o, ho, rfl⟩ := Option.map_eq_some_iff.mp hfind
  have hmem : o ∈ b.objects := List.mem_of_find?_eq_some ho
  have hfound := List.find?_some ho
  have hid : o.id = v.objectID := of_decide_eq_true hfound
  obtain ⟨o', ho', hid', hkey⟩ := b.version_object v hv
  have hsame : o = o' := b.object_eq hmem ho' (hid.trans hid'.symm)
  exact ⟨hv, hmem, hid, hsame ▸ hkey⟩

theorem mem_joined (hv : v ∈ b.versions) (ho : o ∈ b.objects) (hid : o.id = v.objectID) : ⟨o, v⟩ ∈ b.joined := by
  refine List.mem_filterMap.mpr ⟨v, hv, ?_⟩
  obtain ⟨o', hfind⟩ : ∃ o', b.objects.find? (fun o => o.id = v.objectID) = some o' := by
    refine Option.isSome_iff_exists.mp (List.find?_isSome.mpr ⟨o, ho, ?_⟩)
    exact decide_eq_true hid
  have hfound := List.find?_some hfind
  have hid' : o'.id = v.objectID := of_decide_eq_true hfound
  rw [hfind, b.object_eq ho (List.mem_of_find?_eq_some hfind) (hid.trans hid'.symm)]
  rfl

theorem joined_eq {i : Joined} (hi : i ∈ b.joined) (hj : j ∈ b.joined) (h : i.version = j.version) : i = j := by
  obtain ⟨-, hio, hiid, -⟩ := joined_spec hi
  obtain ⟨-, hjo, hjid, -⟩ := joined_spec hj
  have hobject : i.object = j.object := b.object_eq hio hjo (by rw [hiid, hjid, h])
  cases i
  cases j
  cases h
  cases hobject
  rfl

theorem joined_nodup (b : Bucket) : b.joined.Nodup := by
  have hversions : b.versions.Nodup := b.versions_id.of_map
  refine hversions.filterMap ?_
  intro v v' j hv hv'
  obtain ⟨o, -, rfl⟩ := Option.map_eq_some_iff.mp hv
  obtain ⟨o', -, heq⟩ := Option.map_eq_some_iff.mp hv'
  cases heq
  rfl

theorem joined_length_le (b : Bucket) : b.joined.length ≤ b.versions.length := List.length_filterMap_le _ _

end Join

end SynapS3.Listing
