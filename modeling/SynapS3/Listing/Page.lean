import Mathlib.Data.List.TakeWhile
import SynapS3.Listing.Prefix

/-!
# `Listing.Page` — a page, and page after page

`all` are the rows that match the prefix, in the order of the query. A walk is lawful if its queries return
what follows a row, and what is not before a bound. Then a call from some place in `all` returns the first
entries of the rolled-up list of what follows that place (`list_answers`): the loop over the rows keeps what
it has collected equal to the rolled-up list of the rows behind it (`Reached`), whether they came in one
batch or in several.
-/

namespace SynapS3.Listing

open Utf8 RollUp

variable {ρ μ : Type}

abbrev Query.group (q : Query μ) (key : Bytes) : Option Bytes := listingCommonPrefix key q.keyPrefix q.delimiter

def Page.Shows (page : Page ρ μ) (es : List (Entry ρ Bytes)) : Prop :=
  page.objects = rowsOf es ∧ page.prefixes = groupsOf es

/-- The rows of a walk, and what its queries return of them. -/
structure Walk.Lawful (w : Walk ρ μ) (keyPrefix delimiter : Bytes) (all : List ρ) : Prop where
  key_valid : ∀ r ∈ all, Valid (w.key r)
  matching : ∀ r ∈ all, keyPrefix <+: w.key r
  cuts : ∀ r ∈ all, CutsText keyPrefix delimiter (w.key r)
  sorted : all.Pairwise fun r s => w.key r ≤ w.key s
  markerKey_mark : ∀ r, w.markerKey (w.mark r) = w.key r
  select_mark : ∀ pre r post, all = pre ++ r :: post →
    w.select false (w.mark r) listingBatchSize = post.take listingBatchSize.toNat
  select_bound : ∀ u, u ≠ [] →
    w.select true (w.bound u) listingBatchSize = (all.filter fun r => u ≤ w.key r).take listingBatchSize.toNat

namespace Walk.Lawful

variable {w : Walk ρ μ} {q : Query μ} {all : List ρ}

theorem grouped (h : w.Lawful q.keyPrefix q.delimiter all) : Grouped w.key q.group all where
  sorted := h.sorted
  group_le r hr _ hc := List.le_of_prefix (prefix_of_listingCommonPrefix (h.matching r hr) hc)
  group_between _ _ s hs _ hc hcr hrs :=
    listingCommonPrefix_congr (h.matching s hs) hc
      (List.prefix_of_between hcr hrs (prefix_of_listingCommonPrefix (h.matching s hs) hc))

variable {r s : ρ} {c : Bytes} (h : w.Lawful q.keyPrefix q.delimiter all)
include h

theorem lt_bound_iff (hr : r ∈ all) (hs : s ∈ all) {u : Bytes}
    (hc : q.group (w.key r) = some c) (hu : prefixUpperBound c = some u) (hle : w.key r ≤ w.key s) :
    w.key s < u ↔ q.group (w.key s) = some c := by
  have hcv := h.cuts r hr c ((listingCommonPrefix_eq_some (h.matching r hr)).mp hc)
  rw [lt_prefixUpperBound_iff hcv (h.key_valid s hs) (le_trans (h.grouped.group_le r hr c hc) hle) hu]
  exact ⟨listingCommonPrefix_congr (h.matching r hr) hc, prefix_of_listingCommonPrefix (h.matching s hs)⟩

theorem group_of_unbounded (hr : r ∈ all) (hs : s ∈ all)
    (hc : q.group (w.key r) = some c) (hu : prefixUpperBound c = none) (hle : w.key r ≤ w.key s) :
    q.group (w.key s) = some c := by
  have hcv := h.cuts r hr c ((listingCommonPrefix_eq_some (h.matching r hr)).mp hc)
  exact listingCommonPrefix_congr (h.matching r hr) hc
    (prefix_of_prefixUpperBound_none hcv (h.key_valid s hs) (le_trans (h.grouped.group_le r hr c hc) hle) hu)

end Walk.Lawful

/-! ## The place of a call -/

/-- The call starts before `rest`. -/
structure Walk.Starts (w : Walk ρ μ) (q : Query μ) (all ahead rest : List ρ) : Prop where
  rows : all = ahead ++ rest
  after : ∀ r ∈ rest, w.markerKey q.after ≤ w.key r
  select : w.select false q.after listingBatchSize = rest.take listingBatchSize.toNat

theorem Walk.Lawful.starts {w : Walk ρ μ} {q : Query μ} {all ahead rest : List ρ} {r : ρ}
    (h : w.Lawful q.keyPrefix q.delimiter all) (hall : all = ahead ++ r :: rest) (hq : q.after = w.mark r) :
    w.Starts q all (ahead ++ [r]) rest where
  rows := by rw [hall, List.append_assoc]; rfl
  after s hs := by
    have hsorted := h.sorted
    rw [hall, List.pairwise_append] at hsorted
    rw [hq, h.markerKey_mark]
    exact List.rel_of_pairwise_cons hsorted.2.1 hs
  select := by rw [hq]; exact h.select_mark ahead r rest hall

/-- What a call that starts before `rest` should return: everything if it fits into the page, else the first
    entries and the marker of a row after which the others follow. -/
inductive Walk.Answers (w : Walk ρ μ) (q : Query μ) (all rest : List ρ) (page : Page ρ μ) : Prop where
  | last (htruncated : page.truncated = false)
      (hshows : page.Shows (rollUp w.key q.group (w.markerKey q.after) rest))
      (hsmall : ((rollUp w.key q.group (w.markerKey q.after) rest).length : Int) ≤ q.maxKeys)
  | more (ahead : List ρ) (r : ρ) (rest' : List ρ) (es : List (Entry ρ Bytes))
      (htruncated : page.truncated = true) (hshows : page.Shows es) (hsmall : (es.length : Int) ≤ q.maxKeys)
      (hmarker : page.marker = w.mark r) (hall : all = ahead ++ r :: rest') (hlt : rest'.length < rest.length)
      (hsplit : rollUp w.key q.group (w.markerKey q.after) rest = es ++ rollUp w.key q.group (w.key r) rest')
      (hmore : rollUp w.key q.group (w.key r) rest' ≠ [])

/-! ## The loop over the rows -/

/-- What was collected is the rolled-up list of `done`. -/
structure Walk.Reached (w : Walk ρ μ) (q : Query μ) (all ahead done todo : List ρ) (st : Scan ρ μ) : Prop where
  rows : all = ahead ++ (done ++ todo)
  after : ∀ r ∈ done ++ todo, w.markerKey q.after ≤ w.key r
  objects : st.objects = rowsOf (rollUp w.key q.group (w.markerKey q.after) done)
  prefixes : st.prefixes = groupsOf (rollUp w.key q.group (w.markerKey q.after) done)
  small : ((rollUp w.key q.group (w.markerKey q.after) done).length : Int) ≤ q.maxKeys
  -- what was skipped since the last marker lists nothing
  marker : done = [] ∨ ∃ d r sk, done = d ++ r :: sk ∧ st.lastMarker = w.mark r ∧
    rollUp w.key q.group (w.key r) sk = []

/-- Where the next batch would begin: after the last row, or at the bound of its group, which the rows of the
    current batch are compared with. -/
inductive Walk.Mode (w : Walk ρ μ) (q : Query μ) (done todo : List ρ) (st : Scan ρ μ) : Prop where
  | free (hinclusive : st.inclusive = false)
      (hselect : w.select false st.cursor listingBatchSize = todo.take listingBatchSize.toNat)
      (hskip : st.skipUntil = [] ∨ ∀ s ∈ todo, st.skipUntil ≤ w.key s)
      (hlast : ∀ d r, done = d ++ [r] → q.group (w.key r) = none)
  | jump (d : List ρ) (r : ρ) (c u : Bytes) (hdone : done = d ++ [r]) (hgroup : q.group (w.key r) = some c)
      (hbound : prefixUpperBound c = some u) (hinclusive : st.inclusive = true)
      (hcursor : st.cursor = w.bound u) (hskip : st.skipUntil = u)

namespace Walk.Reached

section

variable {w : Walk ρ μ} {q : Query μ} {all ahead done todo : List ρ} {st st' : Scan ρ μ} {r : ρ}
  (h : w.Reached q all ahead done todo st)
include h

theorem mem_done (hr : r ∈ done) : r ∈ all := by
  rw [h.rows]
  exact List.mem_append_right _ (List.mem_append_left _ hr)

theorem mem_todo (hr : r ∈ todo) : r ∈ all := by
  rw [h.rows]
  exact List.mem_append_right _ (List.mem_append_right _ hr)

theorem grouped (hw : w.Lawful q.keyPrefix q.delimiter all) : Grouped w.key q.group (done ++ todo) :=
  hw.grouped.sublist (h.rows ▸ List.sublist_append_right ahead (done ++ todo))

theorem le_of_mem (hw : w.Lawful q.keyPrefix q.delimiter all) {s : ρ} (hr : r ∈ done) (hs : s ∈ todo) :
    w.key r ≤ w.key s :=
  (List.pairwise_append.mp (h.grouped hw).sorted).2.2 r hr s hs

theorem full_iff :
    st.Full q.maxKeys ↔ q.maxKeys ≤ ((rollUp w.key q.group (w.markerKey q.after) done).length : Int) := by
  unfold Scan.Full
  rw [h.objects, h.prefixes, length_rowsOf_add_groupsOf]

theorem congr (hobjects : st'.objects = st.objects) (hprefixes : st'.prefixes = st.prefixes)
    (hmarker : st'.lastMarker = st.lastMarker) :
    w.Reached q all ahead done todo st' where
  rows := h.rows
  after := h.after
  objects := hobjects.trans h.objects
  prefixes := hprefixes.trans h.prefixes
  small := h.small
  marker := hmarker ▸ h.marker

theorem finished {marker : μ} (hnone : rollUp w.key q.group (lastKey w.key (w.markerKey q.after) done) todo = []) :
    w.Answers q all (done ++ todo) (st.page false marker) := by
  have hall : rollUp w.key q.group (w.markerKey q.after) (done ++ todo) =
      rollUp w.key q.group (w.markerKey q.after) done := by
    rw [rollUp_append, hnone, List.append_nil]
  refine .last rfl ?_ ?_
  · rw [hall]
    exact ⟨h.objects, h.prefixes⟩
  · rw [hall]
    exact h.small

end

variable {w : Walk ρ μ} {q : Query μ} {all ahead done : List ρ} {st st' : Scan ρ μ} {r : ρ} {c : Bytes}

/-- **Rows of the last row's group can be passed over.** -/
theorem skip {d sk rest : List ρ} (hw : w.Lawful q.keyPrefix q.delimiter all)
    (h : w.Reached q all ahead (d ++ [r]) (sk ++ rest) st) (hr : q.group (w.key r) = some c)
    (hsk : ∀ s ∈ sk, q.group (w.key s) = some c) : w.Reached q all ahead (d ++ [r] ++ sk) rest st := by
  have hmem : r ∈ all := h.mem_done List.mem_concat_self
  have hle : c ≤ w.key r := hw.grouped.group_le r hmem c hr
  have hrest : ∀ s ∈ sk, q.group (w.key s) = some c ∧ c ≤ w.key s := fun s hs =>
    ⟨hsk s hs, hw.grouped.group_le s (h.mem_todo (List.mem_append_left _ hs)) c (hsk s hs)⟩
  have hsilent : rollUp w.key q.group (w.markerKey q.after) (d ++ [r] ++ sk) =
      rollUp w.key q.group (w.markerKey q.after) (d ++ [r]) := by
    rw [rollUp_append, lastKey_concat, rollUp_eq_nil w.key q.group hle hrest, List.append_nil]
  refine ⟨?_, ?_, ?_, ?_, ?_, ?_⟩
  · rw [h.rows, List.append_assoc (d ++ [r])]
  · rw [List.append_assoc (d ++ [r])]
    exact h.after
  · rw [hsilent]
    exact h.objects
  · rw [hsilent]
    exact h.prefixes
  · rw [hsilent]
    exact h.small
  · refine .inr ?_
    rcases h.marker with hnil | ⟨d', p, sk', heq, hmark, hnone⟩
    · exact absurd hnil (List.append_ne_nil_of_right_ne_nil _ (List.cons_ne_nil _ _))
    refine ⟨d', p, sk' ++ sk, by rw [heq, List.append_assoc]; rfl, hmark, ?_⟩
    -- the skipped rows before these end in the same row
    have hlast : c ≤ lastKey w.key (w.key p) sk' := by
      have hend : lastKey w.key (w.markerKey q.after) (d' ++ p :: sk') = w.key r := by
        rw [← heq, lastKey_concat]
      rw [lastKey_append] at hend
      exact hend ▸ hle
    rw [rollUp_append, hnone, List.nil_append]
    exact rollUp_eq_nil w.key q.group hlast hrest

variable {x : ρ} {rest : List ρ}

/-- **A prefix is fresh exactly if its name is past the last row**, so a group that the loop has seen is not met
    again. -/
theorem fresh_iff (hw : w.Lawful q.keyPrefix q.delimiter all) (h : w.Reached q all ahead done (x :: rest) st)
    (hnew : ∀ d r c, done = d ++ [r] → q.group (w.key r) = some c → q.group (w.key x) ≠ some c)
    (hc : q.group (w.key x) = some c) : w.Fresh q st c ↔ lastKey w.key (w.markerKey q.after) done < c := by
  have hx : x ∈ all := h.mem_todo List.mem_cons_self
  have hne : c ≠ [] := listingCommonPrefix_ne_nil (hw.matching x hx) hc
  unfold Walk.Fresh
  rcases List.eq_nil_or_concat done with hnil | ⟨d, r, hdone⟩
  · subst hnil
    have hnone : st.prefixes = [] := h.prefixes
    rw [hnone]
    show _ ↔ w.markerKey q.after < c
    constructor
    · rintro ⟨-, hempty | hlt⟩
      · rw [hempty]
        obtain ⟨b, bs, rfl⟩ := List.exists_cons_of_ne_nil hne
        exact List.nil_lt_cons b bs
      · exact hlt
    · intro hlt
      exact ⟨List.not_mem_nil, .inr hlt⟩
  · rw [List.concat_eq_append] at hdone
    have hr : r ∈ done := by
      rw [hdone]
      exact List.mem_concat_self
    have hpast : w.key r < c := by
      by_contra hcr
      exact hnew d r c hdone
        (hw.grouped.group_between r (h.mem_done hr) x hx c hc (not_lt.mp hcr)
          (h.le_of_mem hw hr List.mem_cons_self)) hc
    have hlast : lastKey w.key (w.markerKey q.after) done = w.key r := by rw [hdone, lastKey_concat]
    have hdoneG : Grouped w.key q.group done := (h.grouped hw).sublist (List.sublist_append_left done (x :: rest))
    have hle := hdoneG.le_lastKey (m := w.markerKey q.after) fun s hs => h.after s (List.mem_append_left _ hs)
    rw [hlast] at hle ⊢
    refine ⟨fun _ => hpast, fun _ => ⟨?_, .inr (lt_of_le_of_lt hle.1 hpast)⟩⟩
    rw [h.prefixes, mem_groupsOf]
    intro hseen
    obtain ⟨-, s, hs, hgs⟩ := (mem_rollUp_group hdoneG fun s hs => h.after s (List.mem_append_left _ hs)).mp hseen
    have hcs := hw.grouped.group_le s (h.mem_done hs) c hgs
    exact absurd (le_trans hcs (hle.2 s hs)) (not_le.mpr hpast)

/-- **A full page is returned with the marker of the last row that was not skipped.** -/
theorem truncated (hq : 1 ≤ q.maxKeys) (h : w.Reached q all ahead done (x :: rest) st) (hfull : st.Full q.maxKeys)
    (hentry : entryOf w.key q.group (lastKey w.key (w.markerKey q.after) done) x ≠ []) :
    w.Answers q all (done ++ x :: rest) (st.page true st.lastMarker) := by
  rw [h.full_iff] at hfull
  rcases h.marker with hnil | ⟨d, r, sk, hdone, hmark, hnone⟩
  · rw [hnil] at hfull
    have hzero : q.maxKeys ≤ 0 := hfull
    omega
  have hassoc : done ++ x :: rest = d ++ [r] ++ (sk ++ x :: rest) := by
    rw [hdone, List.append_assoc, List.append_assoc]
    rfl
  have hshown : rollUp w.key q.group (w.markerKey q.after) done =
      rollUp w.key q.group (w.markerKey q.after) (d ++ [r]) := by
    have hsplit : done = d ++ [r] ++ sk := by rw [hdone, List.append_assoc]; rfl
    rw [hsplit, rollUp_append, lastKey_concat, hnone, List.append_nil]
  have hend : lastKey w.key (w.key r) sk = lastKey w.key (w.markerKey q.after) done := by
    rw [hdone, lastKey_append]
    rfl
  refine .more (ahead ++ d) r (sk ++ x :: rest) (rollUp w.key q.group (w.markerKey q.after) (d ++ [r]))
    rfl ?_ ?_ hmark ?_ ?_ ?_ ?_
  · rw [← hshown]
    exact ⟨h.objects, h.prefixes⟩
  · rw [← hshown]
    exact h.small
  · rw [h.rows, hassoc]
    simp
  · rw [hassoc]
    simp
    omega
  · rw [hassoc, rollUp_append, lastKey_concat]
  · rw [rollUp_append, hnone, List.nil_append, hend]
    intro hnil
    exact hentry (List.append_eq_nil_iff.mp hnil).1

theorem take (h : w.Reached q all ahead done (x :: rest) st)
    (hobjects : st'.objects = st.objects ++ rowsOf (entryOf w.key q.group (lastKey w.key (w.markerKey q.after) done) x))
    (hprefixes : st'.prefixes =
      st.prefixes ++ groupsOf (entryOf w.key q.group (lastKey w.key (w.markerKey q.after) done) x))
    (hmarker : st'.lastMarker = w.mark x)
    (hroom : entryOf w.key q.group (lastKey w.key (w.markerKey q.after) done) x = [] ∨ ¬ st.Full q.maxKeys) :
    w.Reached q all ahead (done ++ [x]) rest st' := by
  have hgrown : rollUp w.key q.group (w.markerKey q.after) (done ++ [x]) =
      rollUp w.key q.group (w.markerKey q.after) done ++
        entryOf w.key q.group (lastKey w.key (w.markerKey q.after) done) x := by
    rw [rollUp_append, rollUp_singleton]
  have hone : (entryOf w.key q.group (lastKey w.key (w.markerKey q.after) done) x).length ≤ 1 := by
    unfold entryOf
    split
    · exact Nat.le_refl 1
    · split
      · exact Nat.le_refl 1
      · exact Nat.zero_le 1
  refine ⟨?_, ?_, ?_, ?_, ?_, .inr ⟨done, x, [], rfl, hmarker, rfl⟩⟩
  · rw [h.rows, List.append_assoc]
    rfl
  · rw [List.append_assoc]
    exact h.after
  · rw [hobjects, h.objects, hgrown, rowsOf_append]
  · rw [hprefixes, h.prefixes, hgrown, groupsOf_append]
  · rw [hgrown, List.length_append]
    have hsmall := h.small
    rcases hroom with hnone | hroom
    · rw [hnone]
      simpa using hsmall
    · rw [h.full_iff] at hroom
      omega

end Walk.Reached

/-- What a part of the loop leads to that goes over `xs`: a page, or the state past `xs`. -/
def Walk.Outcome (w : Walk ρ μ) (q : Query μ) (all ahead done xs rest : List ρ) :
    Except (Page ρ μ) (Scan ρ μ) → Prop
  | .error page => w.Answers q all (done ++ (xs ++ rest)) page
  | .ok st => w.Reached q all ahead (done ++ xs) rest st ∧ w.Mode q (done ++ xs) rest st

theorem filter_eq_dropWhile {key : ρ → Bytes} {rows : List ρ} (h : rows.Pairwise fun r s => key r ≤ key s)
    (u : Bytes) : (rows.filter fun r => u ≤ key r) = rows.dropWhile fun r => key r < u := by
  induction rows with
  | nil => rfl
  | cons r rows ih =>
    rw [List.filter_cons, List.dropWhile_cons]
    by_cases hr : u ≤ key r
    · -- everything after a row that is not before the bound is not before it either
      have hall : (rows.filter fun s => u ≤ key s) = rows := by
        rw [List.filter_eq_self]
        intro s hs
        exact decide_eq_true (le_trans hr (List.rel_of_pairwise_cons h hs))
      simp [hr, hall]
    · have hlt := not_le.mp hr
      simp only [hr, hlt, decide_true, decide_false, if_true, Bool.false_eq_true, if_false]
      exact ih h.of_cons

section Loop

variable {w : Walk ρ μ} {q : Query μ} {all ahead done xs rest : List ρ} {st : Scan ρ μ} {x : ρ}

theorem foldlM_outcome (hstep : w.Outcome q all ahead done [x] (xs ++ rest) (w.scanRow q st x))
    (hrest : ∀ st', w.Reached q all ahead (done ++ [x]) (xs ++ rest) st' → w.Mode q (done ++ [x]) (xs ++ rest) st' →
      w.Outcome q all ahead (done ++ [x]) xs rest (xs.foldlM (w.scanRow q) st')) :
    w.Outcome q all ahead done (x :: xs) rest ((x :: xs).foldlM (w.scanRow q) st) := by
  rw [List.foldlM_cons]
  cases hrow : w.scanRow q st x with
  | error page =>
    rw [hrow] at hstep
    exact hstep
  | ok st' =>
    rw [hrow] at hstep
    have hthen := hrest st' hstep.1 hstep.2
    show w.Outcome q all ahead done (x :: xs) rest (xs.foldlM (w.scanRow q) st')
    cases hrows : xs.foldlM (w.scanRow q) st' with
    | error page =>
      rw [hrows] at hthen
      have hpage : w.Answers q all (done ++ [x] ++ (xs ++ rest)) page := hthen
      rw [List.append_assoc] at hpage
      exact hpage
    | ok st'' =>
      rw [hrows] at hthen
      have hstate : w.Reached q all ahead (done ++ [x] ++ xs) rest st'' ∧
          w.Mode q (done ++ [x] ++ xs) rest st'' := hthen
      rw [List.append_assoc] at hstate
      exact hstate

variable (hw : w.Lawful q.keyPrefix q.delimiter all) (hq : 1 ≤ q.maxKeys)
include hw hq

theorem visit_outcome (h : w.Reached q all ahead done (x :: rest) st)
    (hnew : ∀ d r c, done = d ++ [r] → q.group (w.key r) = some c → q.group (w.key x) ≠ some c)
    (hpast : st.skipUntil = [] ∨ st.skipUntil ≤ w.key x) :
    w.Outcome q all ahead done [x] rest (w.visit q st x) := by
  have hle : ∀ s ∈ rest, w.key x ≤ w.key s := by
    intro s hs
    exact List.rel_of_pairwise_cons (List.pairwise_append.mp (h.grouped hw).sorted).2.1 hs
  have hstate : w.Reached q all ahead done (x :: rest) { st with cursor := w.mark x, inclusive := false } :=
    h.congr rfl rfl rfl
  unfold Walk.visit
  cases hg : q.group (w.key x) with
  | none =>
    simp only [hg]
    split
    · next hfull => exact hstate.truncated hq hfull (by rw [entryOf_object hg]; exact List.cons_ne_nil _ _)
    next hroom =>
    refine ⟨hstate.take ?_ ?_ rfl (.inr hroom), .free rfl ?_ ?_ ?_⟩
    · rw [entryOf_object hg]
      rfl
    · rw [entryOf_object hg]
      exact (List.append_nil _).symm
    · exact hw.select_mark (ahead ++ done) x rest (by rw [h.rows, List.append_assoc])
    · rcases hpast with hempty | hle'
      · exact .inl hempty
      · exact .inr fun s hs => le_trans hle' (hle s hs)
    · intro d r heq
      obtain ⟨-, hr⟩ := List.append_inj' heq rfl
      rw [← (List.cons.inj hr).1]
      exact hg
  | some c =>
    have hfresh := hstate.fresh_iff hw hnew hg
    simp only [hg]
    split
    · next hfull =>
      refine hstate.truncated hq hfull.2 ?_
      rw [entryOf_group hg (hfresh.mp hfull.1)]
      exact List.cons_ne_nil _ _
    · next hroom =>
      -- the prefix is listed if it is fresh, and then there is room for it
      have htaken : w.Reached q all ahead (done ++ [x]) rest
          { (if w.Fresh q { st with cursor := w.mark x, inclusive := false } c
              then { st with cursor := w.mark x, inclusive := false, prefixes := st.prefixes ++ [c] }
              else { st with cursor := w.mark x, inclusive := false }) with lastMarker := w.mark x } := by
        by_cases hf : w.Fresh q { st with cursor := w.mark x, inclusive := false } c
        · have hone := hfresh.mp hf
          refine hstate.take ?_ ?_ rfl (.inr fun hfull => hroom ⟨hf, hfull⟩)
          · rw [if_pos hf, entryOf_group hg hone]
            exact (List.append_nil _).symm
          · rw [if_pos hf, entryOf_group hg hone]
            rfl
        · have hno := mt hfresh.mpr hf
          refine hstate.take ?_ ?_ rfl (.inl ?_)
          · rw [if_neg hf, entryOf_nil hg hno]
            exact (List.append_nil _).symm
          · rw [if_neg hf, entryOf_nil hg hno]
            exact (List.append_nil _).symm
          · exact entryOf_nil hg hno
      cases hu : prefixUpperBound c with
      | none =>
        have hrest : ∀ s ∈ rest, q.group (w.key s) = some c ∧ c ≤ w.key s := by
          intro s hs
          have hx := h.mem_todo (List.mem_cons_self (a := x) (l := rest))
          have hs' := h.mem_todo (List.mem_cons_of_mem x hs)
          have hgs := hw.group_of_unbounded hx hs' hg hu (hle s hs)
          exact ⟨hgs, hw.grouped.group_le s hs' c hgs⟩
        have hsilent := rollUp_eq_nil w.key q.group
          (hw.grouped.group_le x (h.mem_todo List.mem_cons_self) c hg) hrest
        show w.Answers q all (done ++ ([x] ++ rest)) _
        rw [← List.append_assoc]
        exact htaken.finished (by rw [lastKey_concat]; exact hsilent)
      | some u => exact ⟨htaken.congr rfl rfl rfl, .jump done x c u rfl hg hu rfl rfl rfl⟩

theorem scanRow_outcome (h : w.Reached q all ahead done (x :: rest) st) (hmode : w.Mode q done (x :: rest) st) :
    w.Outcome q all ahead done [x] rest (w.scanRow q st x) := by
  unfold Walk.scanRow
  cases hmode with
  | free hinclusive hselect hskip hlast =>
    have hpast : st.skipUntil = [] ∨ st.skipUntil ≤ w.key x := by
      rcases hskip with hempty | hle
      · exact .inl hempty
      · exact .inr (hle x List.mem_cons_self)
    rw [if_neg]
    · refine visit_outcome hw hq h ?_ hpast
      intro d r c hdone hc
      rw [hlast d r hdone] at hc
      cases hc
    · rintro ⟨hne, hlt⟩
      rcases hpast with hempty | hle
      · exact hne hempty
      · exact absurd hlt (not_lt.mpr hle)
  | jump d r c u hdone hgroup hbound hinclusive hcursor hskip =>
    have hr : r ∈ done := by
      rw [hdone]
      exact List.mem_concat_self
    have hiff := hw.lt_bound_iff (h.mem_done hr) (h.mem_todo List.mem_cons_self) hgroup hbound
      (h.le_of_mem hw hr List.mem_cons_self)
    rw [hskip]
    split
    · next hskipped =>
      have hx := hiff.mp hskipped.2
      subst hdone
      have hsk : ∀ s ∈ [x], q.group (w.key s) = some c := by
        intro s hs
        rw [List.mem_singleton] at hs
        rw [hs]
        exact hx
      have hstate : w.Reached q all ahead (d ++ [r] ++ [x]) rest st := Walk.Reached.skip hw h hgroup hsk
      exact ⟨hstate, .jump (d ++ [r]) x c u rfl hx hbound hinclusive hcursor hskip⟩
    · next hkept =>
      have hge : u ≤ w.key x := by
        by_contra hlt
        exact hkept ⟨prefixUpperBound_ne_nil hbound, not_le.mp hlt⟩
      refine visit_outcome hw hq h ?_ (.inr (hskip ▸ hge))
      intro d' r' c' hdone' hc' hx
      obtain ⟨-, hr'⟩ := List.append_inj' (hdone.symm.trans hdone') rfl
      rw [← (List.cons.inj hr').1, hgroup] at hc'
      cases hc'
      exact absurd (hiff.mpr hx) (not_lt.mpr hge)

theorem scanRows_outcome (h : w.Reached q all ahead done (xs ++ rest) st) (hmode : w.Mode q done (xs ++ rest) st) :
    w.Outcome q all ahead done xs rest (xs.foldlM (w.scanRow q) st) := by
  induction xs generalizing done st with
  | nil =>
    show w.Reached q all ahead (done ++ []) rest st ∧ w.Mode q (done ++ []) rest st
    rw [List.append_nil]
    exact ⟨h, hmode⟩
  | cons x xs ih => exact foldlM_outcome (scanRow_outcome hw hq h hmode) fun st' => ih

/-! ## The loop over the batches -/

variable {todo : List ρ}

/-- **What a batch is read from.** The query passes over the rows of the last row's group, which list nothing,
    and the batch begins behind them. -/
theorem batch_outcome (h : w.Reached q all ahead done todo st) (hmode : w.Mode q done todo st) :
    ∃ done' todo', done ++ todo = done' ++ todo' ∧ todo'.length ≤ todo.length ∧
      w.select st.inclusive st.cursor listingBatchSize = todo'.take listingBatchSize.toNat ∧
      w.Reached q all ahead done' todo' st ∧
      ∀ xs rest, todo' = xs ++ rest → xs ≠ [] → w.Outcome q all ahead done' xs rest
        (xs.foldlM (w.scanRow q) { st with inclusive := false, skipUntil := [] }) := by
  cases hmode with
  | free hinclusive hselect hskip hlast =>
    refine ⟨done, todo, rfl, Nat.le_refl _, by rw [hinclusive]; exact hselect, h, ?_⟩
    rintro xs rest rfl -
    have hstate : w.Reached q all ahead done (xs ++ rest) { st with inclusive := false, skipUntil := [] } :=
      h.congr rfl rfl rfl
    exact scanRows_outcome hw hq hstate (.free rfl hselect (.inl rfl) hlast)
  | jump d r c u hdone hgroup hbound hinclusive hcursor hskip =>
    have hr : r ∈ done := by
      rw [hdone]
      exact List.mem_concat_self
    have hru : w.key r < u :=
      (hw.lt_bound_iff (h.mem_done hr) (h.mem_done hr) hgroup hbound (le_refl _)).mpr hgroup
    have hsorted := hw.sorted
    rw [h.rows, hdone, List.append_assoc, ← List.append_assoc, List.pairwise_append] at hsorted
    obtain ⟨-, hsorted, hbefore⟩ := hsorted
    have hsplit : todo = todo.takeWhile (fun s => w.key s < u) ++ todo.dropWhile (fun s => w.key s < u) :=
      List.takeWhile_append_dropWhile.symm
    have hin : ∀ s ∈ todo.takeWhile (fun s => w.key s < u), q.group (w.key s) = some c := by
      intro s hs
      have hs' : s ∈ todo := (List.takeWhile_sublist _).subset hs
      have hbefore' := List.mem_takeWhile_imp hs
      have hlt : w.key s < u := of_decide_eq_true hbefore'
      exact (hw.lt_bound_iff (h.mem_done hr) (h.mem_todo hs') hgroup hbound (h.le_of_mem hw hr hs')).mp hlt
    have hfilter : (all.filter fun s => u ≤ w.key s) = todo.dropWhile fun s => w.key s < u := by
      have hnone : ((ahead ++ d).filter fun s => u ≤ w.key s) = [] := by
        rw [List.filter_eq_nil_iff]
        intro s hs
        rw [decide_eq_true_eq, not_le]
        exact lt_of_le_of_lt (hbefore s hs r List.mem_cons_self) hru
      rw [h.rows, hdone, List.append_assoc, ← List.append_assoc, List.filter_append, hnone, List.nil_append,
        filter_eq_dropWhile hsorted]
      show List.dropWhile _ (r :: todo) = _
      rw [List.dropWhile_cons, if_pos (decide_eq_true hru)]
    subst hdone
    have hpassed : w.Reached q all ahead (d ++ [r] ++ todo.takeWhile (fun s => w.key s < u))
        (todo.dropWhile fun s => w.key s < u) st := Walk.Reached.skip hw (hsplit ▸ h) hgroup hin
    refine ⟨_, _, ?_, (List.dropWhile_sublist _).length_le, ?_, hpassed, ?_⟩
    · rw [List.append_assoc (d ++ [r]), ← hsplit]
    · rw [hinclusive, hcursor, hw.select_bound u (prefixUpperBound_ne_nil hbound), hfilter]
    intro xs rest heq hne
    obtain ⟨x, xs, rfl⟩ := List.exists_cons_of_ne_nil hne
    have hge : u ≤ w.key x := by
      have hx : x ∈ all.filter fun s => u ≤ w.key s := by
        rw [hfilter, heq]
        exact List.mem_cons_self
      exact of_decide_eq_true (List.mem_filter.mp hx).2
    have hlast : ∀ d' r', d ++ [r] ++ todo.takeWhile (fun s => w.key s < u) = d' ++ [r'] →
        q.group (w.key r') = some c := by
      intro d' r' hend
      rcases List.eq_nil_or_concat (todo.takeWhile fun s => w.key s < u) with hnil | ⟨e, s, hs⟩
      · rw [hnil, List.append_nil] at hend
        rw [← (List.cons.inj (List.append_inj' hend rfl).2).1]
        exact hgroup
      · rw [hs, List.concat_eq_append, ← List.append_assoc] at hend
        rw [← (List.cons.inj (List.append_inj' hend rfl).2).1]
        exact hin s (by rw [hs, List.concat_eq_append]; exact List.mem_concat_self)
    have hstate : w.Reached q all ahead (d ++ [r] ++ todo.takeWhile (fun s => w.key s < u)) (x :: (xs ++ rest))
        { st with inclusive := false, skipUntil := [] } := (heq ▸ hpassed).congr rfl rfl rfl
    refine foldlM_outcome ?_ fun st' => scanRows_outcome hw hq
    show w.Outcome q all ahead _ [x] (xs ++ rest) (w.visit q _ x)
    refine visit_outcome hw hq hstate ?_ (.inl rfl)
    intro d' r' c' hdone' hc' hx
    rw [hlast d' r' hdone'] at hc'
    cases hc'
    have hx' : x ∈ todo := by
      refine (List.dropWhile_sublist fun s => decide (w.key s < u)).subset ?_
      rw [heq]
      exact List.mem_cons_self
    have hlt := (hw.lt_bound_iff (h.mem_done hr) (h.mem_todo hx') hgroup hbound (h.le_of_mem hw hr hx')).mpr hx
    exact absurd hlt (not_lt.mpr hge)

variable {n : Nat}

/-- **Enough batches lead to the page.** -/
theorem batches_answers (hn : todo.length < n) (h : w.Reached q all ahead done todo st)
    (hmode : w.Mode q done todo st) :
    ∃ page, w.batches q n st = some page ∧ w.Answers q all (done ++ todo) page := by
  induction n generalizing done todo st with
  | zero => exact absurd hn (Nat.not_lt_zero _)
  | succ n ih =>
    obtain ⟨done', todo', hrows, hlen, hselect, hreached, hbatch⟩ := batch_outcome hw hq h hmode
    have hsize : listingBatchSize.toNat = 1000 := rfl
    rw [hrows]
    unfold Walk.batches
    simp only [hselect]
    split
    · -- nothing is left
      next hempty =>
      have hnil : todo' = [] := by
        rw [List.take_eq_nil_iff] at hempty
        exact hempty.resolve_left (by decide)
      subst hnil
      exact ⟨_, rfl, hreached.finished rfl⟩
    · next hne =>
      have hout := hbatch _ _ (List.take_append_drop listingBatchSize.toNat todo').symm hne
      cases hfold : (todo'.take listingBatchSize.toNat).foldlM (w.scanRow q)
          { st with inclusive := false, skipUntil := [] } with
      | error page =>
        rw [hfold] at hout
        have hpage : w.Answers q all (done' ++ (todo'.take listingBatchSize.toNat ++
          todo'.drop listingBatchSize.toNat)) page := hout
        rw [List.take_append_drop] at hpage
        exact ⟨page, rfl, hpage⟩
      | ok st' =>
        rw [hfold] at hout
        obtain ⟨hst', hmode'⟩ := hout
        have hall : done' ++ todo' = done' ++ todo'.take listingBatchSize.toNat ++
            todo'.drop listingBatchSize.toNat := by
          rw [List.append_assoc, List.take_append_drop]
        rw [hall]
        simp only []
        split
        · -- a short batch is the last one
          next hshort =>
          have hnone : todo'.drop listingBatchSize.toNat = [] := by
            rw [List.drop_eq_nil_iff, hsize]
            rw [List.length_take, hsize] at hshort
            have : listingBatchSize = 1000 := rfl
            omega
          rw [hnone] at hst' ⊢
          exact ⟨_, rfl, hst'.finished rfl⟩
        · next hfull =>
          refine ih ?_ hst' hmode'
          rw [List.length_take, hsize] at hfull
          rw [List.length_drop, hsize]
          have : listingBatchSize = 1000 := rfl
          omega

/-- **A call returns the first entries of what follows its marker.** -/
theorem list_answers (h : w.Starts q all ahead rest) (hn : rest.length < n) :
    ∃ page, w.list q n = some page ∧ w.Answers q all rest page := by
  unfold Walk.list
  rw [if_neg (by omega)]
  have hstart : w.Reached q all ahead [] rest { cursor := q.after, lastMarker := q.after } :=
    ⟨h.rows, h.after, rfl, rfl, by show (0 : Int) ≤ q.maxKeys; omega, .inl rfl⟩
  have hmode : w.Mode q [] rest { cursor := q.after, lastMarker := q.after } :=
    .free rfl h.select (.inl rfl) fun d r hnil =>
      absurd hnil.symm (List.append_ne_nil_of_right_ne_nil _ (List.cons_ne_nil _ _))
  exact batches_answers hw hq hn hstart hmode

end Loop

/-! ## Page after page -/

/-- The pages from the page `i` on show the entries one after the other: no page more than its size, and a page
    is truncated exactly if entries remain. -/
inductive Paged (sizes : Nat → Int) : Nat → List (Entry ρ Bytes) → List (Page ρ μ) → Prop where
  | last {i : Nat} {es : List (Entry ρ Bytes)} {page : Page ρ μ} (htruncated : page.truncated = false)
      (hshows : page.Shows es) (hsmall : (es.length : Int) ≤ sizes i) : Paged sizes i es [page]
  | more {i : Nat} {es rest : List (Entry ρ Bytes)} {page : Page ρ μ} {pages : List (Page ρ μ)}
      (htruncated : page.truncated = true) (hshows : page.Shows es) (hsmall : (es.length : Int) ≤ sizes i)
      (hmore : rest ≠ []) (hrest : Paged sizes (i + 1) rest pages) : Paged sizes i (es ++ rest) (page :: pages)

/-- **A client that goes on from each page's marker sees the whole rolled-up list.** -/
theorem listAll_paged {w : Walk ρ μ} {keyPrefix delimiter : Bytes} {all : List ρ}
    (hw : w.Lawful keyPrefix delimiter all) {sizes : Nat → Int} (hsizes : ∀ i, 1 ≤ sizes i) {n : Nat}
    (hn : all.length < n) {m : Nat} {ahead rest : List ρ} (hm : rest.length < m) (i : Nat) (marker : μ)
    (h : ∀ size, w.Starts ⟨keyPrefix, delimiter, marker, size⟩ all ahead rest) :
    ∃ pages, listAll (fun marker size => w.list ⟨keyPrefix, delimiter, marker, size⟩ n) sizes m i marker =
        some pages ∧
      Paged sizes i (rollUp w.key (fun key => listingCommonPrefix key keyPrefix delimiter)
        (w.markerKey marker) rest) pages := by
  induction m generalizing ahead rest i marker with
  | zero => exact absurd hm (Nat.not_lt_zero _)
  | succ m ih =>
    have hlen : rest.length < n := by
      have hrows := congrArg List.length (h (sizes i)).rows
      rw [List.length_append] at hrows
      omega
    obtain ⟨page, hpage, hanswers⟩ := list_answers (q := ⟨keyPrefix, delimiter, marker, sizes i⟩) hw (hsizes i)
      (h (sizes i)) hlen
    unfold listAll
    simp only [hpage, Option.bind_eq_bind, Option.bind_some]
    cases hanswers with
    | last htruncated hshows hsmall =>
      rw [if_neg (by rw [htruncated]; exact Bool.false_ne_true)]
      exact ⟨_, rfl, .last htruncated hshows hsmall⟩
    | more ahead' r rest' es htruncated hshows hsmall hmarker hall hlt hsplit hmore =>
      have hstarts : ∀ size, w.Starts ⟨keyPrefix, delimiter, page.marker, size⟩ all (ahead' ++ [r]) rest' :=
        fun size => Walk.Lawful.starts hw hall hmarker
      obtain ⟨pages, hpages, hpaged⟩ := ih (by omega) (i + 1) page.marker hstarts
      rw [if_pos htruncated, hpages]
      refine ⟨_, rfl, ?_⟩
      rw [hmarker, hw.markerKey_mark] at hpaged
      show Paged sizes i (rollUp w.key _ (w.markerKey marker) rest) _
      rw [hsplit]
      exact .more htruncated hshows hsmall hmore hpaged

end SynapS3.Listing
