import SynapS3.Lib.Path

/-!
# `Cache.Paths` — where the files of the cache are

`safePath` of `internal/cache/filesystem.go`: the path of a file from the parts of its name, which come from requests.
Whatever they are, a path that is returned lies under the cache root in the directory of its first part.
-/

namespace SynapS3.Cache

open Path

def backslash : UInt8 := 92

/-- `safePath`; `cwd` is the working directory, and none stands for `ErrInvalidPath`. -/
def safePath (cwd : Option Bytes) (root : Bytes) (parts : List Bytes) : Option Bytes := do
  let p ← abs cwd (join (root :: parts))
  if root ++ [sep] <+: p then
    match parts with
    | [] => some p
    | first :: _ =>
      let name := clean first
      if name ≠ first ∨ name = dot ∨ name = dotdot ∨ isAbs name ∨ sep ∈ name ∨ backslash ∈ name then none
      else
        let base ← abs cwd (join [root, name])
        if p ≠ base ∧ ¬base ++ [sep] <+: p then none else some p
  else none

variable {cwd : Option Bytes} {root p : Bytes} {parts rcs : List Bytes}

theorem safePath_some (hrcs : ∀ c ∈ rcs, Plain c) (h : safePath cwd (rooted rcs) parts = some p) :
    ∃ first rest below, parts = first :: rest ∧ (∀ c ∈ rcs ++ first :: below, Plain c) ∧
      p = rooted (rcs ++ first :: below) := by
  obtain ⟨cs, hcs, hjoin, habs⟩ := abs_join cwd (p := rooted rcs) rfl parts
  simp only [safePath, habs, Option.bind_eq_bind, Option.bind_some] at h
  split at h
  case isFalse => cases h
  next hbelow =>
  cases parts with
  | nil =>
    -- without parts the path is the root, which is not below itself
    have hself : rooted rcs = rooted cs := by
      rw [← hjoin, (join_cons (p := rooted rcs) rfl []).1, List.intercalate_singleton, clean_rooted hrcs]
    rw [← hself] at hbelow
    have hlen := hbelow.length_le
    rw [List.length_append] at hlen
    exact absurd hlen (Nat.not_succ_le_self _)
  | cons first rest =>
    dsimp only at h
    split at h
    · cases h
    next hname =>
    simp only [not_or, not_not] at hname
    obtain ⟨hclean, hdot, hdotdot, -, hsep, -⟩ := hname
    rw [hclean] at hdot hdotdot hsep h
    have hne : first ≠ [] := by
      rintro rfl
      cases hclean
    have hfirst : Plain first := ⟨hne, hdot, hdotdot, hsep⟩
    have hbase : ∀ c ∈ rcs ++ [first], Plain c := by
      simpa [or_imp, forall_and] using ⟨hrcs, hfirst⟩
    rw [join_plain hrcs hfirst, abs_rooted cwd hbase, Option.bind_some] at h
    split at h <;> cases h
    next hin =>
    rw [not_and_or, not_not, not_not] at hin
    have hcs' : ∃ below, cs = (rcs ++ [first]) ++ below := by
      rcases hin with heq | hpre
      · refine ⟨[], ?_⟩
        rw [List.append_nil, ← names_rooted hcs, heq, names_rooted hbase]
      · exact exists_of_prefix hbase hcs hpre
    obtain ⟨below, rfl⟩ := hcs'
    rw [List.append_assoc] at hcs ⊢
    exact ⟨first, rest, below, rfl, hcs, rfl⟩

/-- **The paths of the cache are confined and separate**: each lies within the directory of its first part. -/
theorem cache_paths_confined (cwd : Option Bytes) (hclean : clean root = root) (habs : isAbs root = true) :
    (∀ parts p, safePath cwd root parts = some p → ∃ first rest, parts = first :: rest ∧ Plain first ∧
      Within root p ∧ p ≠ root ∧ Within (join [root, first]) p) ∧
    ∀ first rest first' rest' p q, safePath cwd root (first :: rest) = some p →
      safePath cwd root (first' :: rest') = some q → first ≠ first' → ¬Within p q ∧ ¬Within q p := by
  obtain ⟨rcs, hrcs, hroot⟩ := clean_plain habs
  rw [hclean] at hroot
  subst hroot
  refine ⟨fun parts p h => ?_, fun first rest first' rest' p q hp hq hne => ?_⟩
  · obtain ⟨first, rest, below, rfl, hplain, rfl⟩ := safePath_some hrcs h
    have hfirst : Plain first := hplain first (by simp)
    refine ⟨first, rest, rfl, hfirst, ⟨rcs, first :: below, hplain, rfl, rfl⟩, fun heq => ?_, ?_⟩
    · have hlen := congrArg List.length (congrArg names heq)
      rw [names_rooted hplain, names_rooted hrcs] at hlen
      simp at hlen
    · rw [join_plain hrcs hfirst]
      exact ⟨rcs ++ [first], below, by simpa using hplain, rfl, by simp⟩
  · obtain ⟨f, r, below, heq, hplain, rfl⟩ := safePath_some hrcs hp
    cases heq
    obtain ⟨f', r', below', heq, hplain', rfl⟩ := safePath_some hrcs hq
    cases heq
    exact ⟨not_within hplain hplain' hne, not_within hplain' hplain hne.symm⟩

theorem cache_paths_confined_bucket :
    safePath none [47, 99] [[98], [120, 47, 46, 46, 47, 121]] = some [47, 99, 47, 98, 47, 121] ∧
      Within [47, 99, 47, 98] [47, 99, 47, 98, 47, 121] := by
  have hpath : safePath none [47, 99] [[98], [120, 47, 46, 46, 47, 121]] = some [47, 99, 47, 98, 47, 121] := by decide
  obtain ⟨first, rest, heq, -, -, -, hin⟩ := (cache_paths_confined none (by decide) (by decide)).1 _ _ hpath
  cases heq
  exact ⟨hpath, hin⟩

end SynapS3.Cache
