import SynapS3.Object.Newest

/-!
# `Object.Linear` — conditional writes in the order of their commits

Puts, copies, completions and delete markers on any keys, with any conditions, in sessions that interleave
statement by statement. A conditional write checks the current version under the lock of the object, or,
where there is no object to lock, before an insert that fails if another write was faster, and then the whole
transaction runs again. So every write finds its conditions true of what the writes before it left
(`writes_linearizable`).

Objects are never deleted by these requests, and that matters: a condition that was checked against an object
which is then created and deleted by others is not checked again.
-/

namespace SynapS3.Object

open ReadCommitted

section

variable {κ : Type} [DecidableEq κ] {v : Option (Version κ)} {conditions : List (Option (ObjectCondition κ))}
  {mid : List (Entry κ)} {k : κ}

omit [DecidableEq κ] in
theorem checkObjectConditions_mem (h : checkObjectConditions v conditions = none) {check : ObjectCondition κ}
    (hmem : some check ∈ conditions) : check v = none :=
  List.findSome?_eq_none_iff.mp h (some check) hmem

theorem left_of_last {log : List (Entry κ)} {e : Entry κ} (hk : e.key = k) (h : ∀ d ∈ mid, d.key ≠ k) :
    left (log ++ e :: mid) k = e.after := by
  have hnone : mid.filter (fun d => d.key = k) = [] :=
    List.filter_eq_nil_iff.mpr fun d hd => by simpa using h d hd
  unfold left
  rw [List.filter_append, List.filter_cons_of_pos (by simpa using hk), hnone]
  simp

theorem exists_last (h : ∃ d ∈ mid, d.key = k) : ∃ a d b, mid = a ++ d :: b ∧ d.key = k ∧ ∀ d' ∈ b, d'.key ≠ k := by
  induction mid with
  | nil => obtain ⟨d, hd, -⟩ := h; cases hd
  | cons c rest ih =>
    by_cases hrest : ∃ d ∈ rest, d.key = k
    · obtain ⟨a, d, b, rfl, hk, hb⟩ := ih hrest
      exact ⟨c :: a, d, b, rfl, hk, hb⟩
    obtain ⟨d, hd, hk⟩ := h
    have hc : d = c := by
      rcases List.mem_cons.mp hd with rfl | hd
      · rfl
      · exact absurd ⟨d, hd, hk⟩ hrest
    subst hc
    exact ⟨[], d, rest, rfl, hk, fun d' hd' hk' => hrest ⟨d', hd', hk'⟩⟩

/-- `If-None-Match: *` is not met by an object that is there. -/
def RefusesOverwrite (evaluate : PutPreconditions) : Prop :=
  ∀ etag ifMatch, evaluate etag ifMatch (some "*") true ≠ none

omit [DecidableEq κ] in
theorem not_live_of_ifNoneMatch {evaluate : PutPreconditions} (hevaluate : RefusesOverwrite evaluate)
    {ifMatch : Option String} {star : String} (hstar : normalizedETag star = "*")
    (hmem : writeObjectCondition evaluate ifMatch (some star) ∈ conditions)
    (h : checkObjectConditions v conditions = none) : v.any (fun w => !w.isDeleteMarker) = false := by
  rw [writeObjectCondition, if_neg (by simp)] at hmem
  have hcheck := checkObjectConditions_mem h hmem
  by_contra hlive
  rw [Bool.not_eq_false, Option.any_eq_true_iff_get] at hlive
  obtain ⟨hsome, hdata⟩ := hlive
  obtain ⟨w, rfl⟩ := Option.isSome_iff_exists.mp hsome
  have hfilter : (some w).filter (fun v : Version κ => !v.isDeleteMarker) = some w := by
    simpa [Option.filter] using hdata
  simp only [hfilter, Option.map_some, Option.getD_some, Option.isSome_some, hstar] at hcheck
  exact hevaluate _ _ hcheck

end

/-- **Conditional writes are linearizable**: the record is an order of the writes, in which every one finds its
    conditions true of what those before it left. -/
theorem writes_linearizable {κ : Type} [DecidableEq κ] [VersionIDs]
    {cfg : Prog.Config (Db (Row.Value (κ := κ)) (Record κ)) Nat (Stmt (Row.Value (κ := κ)) (Record κ)) Stmt.Reply}
    (h : (objectMachine κ false true).lts.Reachable cfg) :
    ((∀ n ∈ cfg.state.ghost.answered, ∃ e ∈ cfg.state.ghost.log, e.published = some n) ∧
      (cfg.state.ghost.log.filterMap (·.published)).Nodup ∧
      ∀ l cfg', (objectMachine κ false true).lts.step cfg l = some cfg' →
        cfg.state.ghost.log <+: cfg'.state.ghost.log) ∧
    (∀ k, left cfg.state.ghost.log k = selectCurrentVersionByBucketAndKey cfg.state.rows k) ∧
    (∀ pre e post, cfg.state.ghost.log = pre ++ e :: post →
      checkObjectConditions (left pre e.key) e.conditions = none) ∧
    ∀ evaluate ifMatch star, RefusesOverwrite evaluate → normalizedETag star = "*" →
      ∀ pre e mid e' post, cfg.state.ghost.log = pre ++ e :: mid ++ e' :: post → e.op = .write →
        e'.key = e.key → writeObjectCondition evaluate ifMatch (some star) ∈ e'.conditions →
        ∃ d ∈ mid, d.key = e.key ∧ d.op = .deleteMarker := by
  obtain ⟨hinv, hstep⟩ := objects_inv h
  refine ⟨⟨hinv.log.answered, hinv.log.once, fun l cfg' hs => (hstep l cfg' hs).log⟩, hinv.log.current,
    hinv.log.conditions rfl, fun evaluate ifMatch star hevaluate hstar pre e mid e' post hlog hop hkey hmem => ?_⟩
  have hcheck := hinv.log.conditions rfl (pre ++ e :: mid) e' post hlog
  have hdead := not_live_of_ifNoneMatch hevaluate hstar hmem hcheck
  rw [hkey] at hdead
  have hmid : ∀ d ∈ mid, d ∈ cfg.state.ghost.log := fun d hd => by rw [hlog]; simp [hd]
  by_cases hbetween : ∃ d ∈ mid, d.key = e.key
  · obtain ⟨a, d, b, rfl, hk, hb⟩ := exists_last hbetween
    refine ⟨d, by simp, hk, ?_⟩
    -- the last entry in between left nothing live, so it is not a write
    rcases hinv.log.kinds rfl d (hmid d (by simp)) with hwrite | hdelete
    · obtain ⟨v, hv, hdata⟩ := hinv.log.live d (hmid d (by simp)) hwrite
      have hleft : left (pre ++ e :: (a ++ d :: b)) e.key = some v := by
        rw [← List.cons_append, ← List.append_assoc, left_of_last hk hb, hv]
      rw [hleft] at hdead
      simp [hdata] at hdead
    · exact hdelete
  · -- nothing in between: the first write is still current
    obtain ⟨v, hv, hdata⟩ := hinv.log.live e (by rw [hlog]; simp) hop
    have hleft : left (pre ++ e :: mid) e.key = some v := by
      rw [left_of_last rfl (fun d hd hk => hbetween ⟨d, hd, hk⟩), hv]
    rw [hleft] at hdead
    simp [hdata] at hdead

/-- The gateway's rule for `If-None-Match`, on its own. -/
def ifNoneMatchOnly : PutPreconditions := fun etag _ ifNoneMatch found =>
  if found && (ifNoneMatch == some "*" || ifNoneMatch == some etag) then some "PreconditionFailed" else none

def createOnly : Request Unit := .write smallDraft [writeObjectCondition ifNoneMatchOnly none (some "*")] 1

/-- Two writes with `If-None-Match: *` race for a new key; the slower one finds the object made and runs again,
    and is refused. After a delete a third one succeeds. -/
def raceToCreate : List RunLabel :=
  [.env (.start createOnly), .env (.start createOnly)] ++ statements 0 6 ++ statements 1 6 ++ statements 0 5 ++
  statements 1 6 ++ [.env (.start (.deleteMarker () [] 0))] ++ statements 2 10 ++ [.env (.start createOnly)] ++
  statements 3 9

def raceState := ((oneKey false true).lts.run emptyConfig raceToCreate).getD emptyConfig

theorem refusesOverwrite_ifNoneMatchOnly : RefusesOverwrite ifNoneMatchOnly := by
  intro etag ifMatch
  simp [ifNoneMatchOnly]

/-- Of the two writes that raced one is in the order, and the third follows the delete: between any two writes of
    which the later came with `If-None-Match: *` there is one. -/
theorem writes_linearizable_race : (oneKey false true).lts.Reachable raceState ∧
      raceState.state.ghost.log.map (fun e => (e.op, e.published)) =
        [(.write, some 0), (.deleteMarker, some 4), (.write, some 5)] ∧
      raceState.state.ghost.log.map (·.conditions.length) = [1, 0, 1] ∧
      (∀ n ∈ raceState.state.ghost.answered, ∃ e ∈ raceState.state.ghost.log, e.published = some n) ∧
      (∀ pre e post, raceState.state.ghost.log = pre ++ e :: post →
        checkObjectConditions (left pre e.key) e.conditions = none) ∧
      ∀ pre e mid e' post, raceState.state.ghost.log = pre ++ e :: mid ++ e' :: post → e.op = .write →
        e'.key = e.key → writeObjectCondition ifNoneMatchOnly none (some "*") ∈ e'.conditions →
        ∃ d ∈ mid, d.key = e.key ∧ d.op = .deleteMarker := by
  have hreach : (oneKey false true).lts.Reachable raceState :=
    (emptyConfig_reachable false true).of_run_isSome (by decide +kernel)
  obtain ⟨⟨hanswered, -, -⟩, -, hconditions, hbetween⟩ := @writes_linearizable _ _ decimalIDs _ hreach
  exact ⟨hreach, by decide +kernel, by decide +kernel, hanswered, hconditions,
    hbetween ifNoneMatchOnly none "*" refusesOverwrite_ifNoneMatchOnly (by decide +kernel)⟩

end SynapS3.Object
