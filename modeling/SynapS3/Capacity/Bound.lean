import SynapS3.Capacity.Model

/-!
# `Capacity.Bound` — how far `usedBytes` and `reservedBytes` can rise

Only a reservation admits bytes, and it admits them up to `maxBytes`. What a commit adds to `usedBytes` it takes from
its reservation, because a write is never longer than what it reserved (`Ledger`). Two charges have no reservation
behind them: the preserved part that a failed replacement could not remove, and a write that is committed after it
was rolled back. The counters exceed `maxBytes` by no more than these (`charges_bounded`).
-/

namespace SynapS3.Capacity

/-! ## What one file operation does -/

theorem Commit.next_op (disk : Files Place) (c : Commit) (pc : CommitAt) (ans : Answer) :
    (c.next disk pc ans).op = .done ∨ ∃ pc', (c.next disk pc ans).op = .commit c pc' := by
  cases pc with
  | settle old => exact .inl rfl
  | _ =>
    simp only [Commit.next]
    repeat' split
    all_goals first | exact .inl rfl | exact .inr ⟨_, rfl⟩

/-- A file operation charges no more than it says to be unreserved, or it settles the write whose commit it ends. -/
theorem Op.next_spec {disk : Files Place} {op : Op} {ans : Answer} {a : After} (h : op.next disk ans = some a) :
    (a.settles = none ∧ a.charge ≤ a.unreserved ∧ ∀ c pc, a.op = .commit c pc → ∃ pc₀, op = .commit c pc₀) ∨
      ∃ c pc, op = .commit c pc ∧ a.settles = some c.w ∧ a.charge ≤ c.n ∧ a.unreserved = 0 ∧ a.op = .done := by
  cases op with
  | commit c pc =>
    cases h
    cases pc with
    | settle old => exact .inr ⟨c, _, rfl, rfl, by simp [Commit.next], rfl, rfl⟩
    | restore old =>
      simp only [Commit.next]
      split
      · exact .inl ⟨rfl, Int.le_refl _, nofun⟩
      · exact .inr ⟨c, _, rfl, rfl, Int.le_refl _, rfl, rfl⟩
    | _ =>
      refine .inl ⟨?_, ?_, ?_⟩
      · simp only [Commit.next]
        repeat' split
        all_goals rfl
      · simp only [Commit.next]
        repeat' split
        all_goals simp
      · intro d pc' hop
        rcases c.next_op disk _ ans with hdone | ⟨pc₁, hpc⟩
        · rw [hdone] at hop
          cases hop
        · rw [hpc] at hop
          cases hop
          exact ⟨_, rfl⟩
  | delete e pc =>
    cases h
    refine .inl ?_
    cases pc with
    | stat | remove n =>
      simp only [deleteNext]
      split <;> exact ⟨rfl, Int.le_refl _, nofun⟩
    | subtract n => exact ⟨rfl, by simp [deleteNext], nofun⟩
  | quarantine b id pc =>
    cases h
    refine .inl ?_
    cases pc with
    | stat | rename n =>
      simp only [quarantineNext]
      split <;> exact ⟨rfl, Int.le_refl _, nofun⟩
    | subtract n => exact ⟨rfl, by simp [quarantineNext], nofun⟩
  | deleteBucketDir b pc =>
    refine .inl ?_
    simp only [Op.next, deleteBucketDirNext] at h
    split at h <;> cases h
    · exact ⟨rfl, Int.le_refl _, nofun⟩
    · exact ⟨rfl, Int.le_refl _, nofun⟩
    · exact ⟨rfl, Int.le_refl _, nofun⟩
    · exact ⟨rfl, by simp, nofun⟩
  | deleteUpload u pc =>
    refine .inl ?_
    simp only [Op.next, deleteUploadNext] at h
    repeat' split at h
    all_goals cases h
    all_goals exact ⟨rfl, by simp, nofun⟩
  | done => cases h

/-! ## The steps of a write by itself -/

/-- A write is no longer than its size, and until it is settled it holds its size. -/
structure Write.Covered (maxBytes : Int) (r : Write) : Prop where
  length_le : r.length ≤ r.size
  settled : r.committed = true → r.held = 0
  held : 0 < maxBytes → r.phase ≠ .failed → r.committed = false → r.rolledBack = false → r.held = r.size

/-- The temporary file of an open write, if it has a name, is as long as the write. -/
def Write.Sized (disk : Files Place) (w : Nat) (r : Write) : Prop :=
  (r.phase = .writing ∨ r.phase = .staged) → ∀ m, disk.size (.temp r.home w) = some m → m = r.length

/-- The write becomes `f r`; beside it only its temporary file changes, and what it no longer holds is given back. -/
structure OwnStep (s : State) (w : Nat) (r : Write) (f : Write → Write) (s' : State) : Prop where
  rest : s' = { s with disk := s'.disk, reservedBytes := s'.reservedBytes, writes := s.writes.modify w f }
  reserved : s'.reservedBytes + r.held = s.reservedBytes + (f r).held
  held : (f r).held ≤ r.held
  disk : ∀ p, p ≠ .temp r.home w → s'.disk.size p = s.disk.size p
  free : r.phase = .staged → s.ops.any (fun _ op => op.onWrite w) = false
  covered : r.Covered s.maxBytes → (f r).Covered s.maxBytes
  sized : r.Sized s.disk w → (f r).Sized s'.disk w

variable {p q : Place} {s s' : State}

theorem size_dropTemp (disk : Files Place) (hp : p ≠ q) (ok : Bool) : (dropTemp disk q ok).size p = disk.size p := by
  cases ok with
  | true => exact Files.size_set_ne _ hp _
  | false => rfl

theorem OwnStep.of_stepWrite {w : Nat} {r : Write} {a : Action} (hs : s.stepWrite w r a = some s') :
    ∃ f, OwnStep s w r f s' := by
  have hfail : r.Covered s.maxBytes → r.fail.Covered s.maxBytes :=
    fun hc => ⟨hc.length_le, fun _ => rfl, fun _ hf => absurd rfl hf⟩
  have hclosed : ∀ {disk}, r.fail.Sized disk w := by
    rintro _ (hp | hp) <;> cases hp
  cases a with
  | createTemp v ok =>
    simp only [State.stepWrite, Option.ite_none_right_eq_some] at hs
    obtain ⟨hp, hs⟩ := hs
    cases ok with
    | true =>
      cases hs
      refine ⟨Write.created, rfl, rfl, Nat.le_refl _, fun p hne => Files.size_set_ne _ hne _,
        fun h => (nomatch hp.symm.trans h),
        fun hc => ⟨Nat.zero_le _, hc.settled, fun hm _ => hc.held hm (by rw [hp]; decide)⟩, fun _ _ m hm => ?_⟩
      have hzero := Files.size_set_self s.disk (.temp r.home w) (some 0)
      exact (Option.some.inj (hzero.symm.trans hm)).symm
    | false =>
      cases hs
      exact ⟨Write.fail, rfl, by simp [State.giveBack, Write.fail, Write.release], Nat.zero_le _, fun _ _ => rfl,
        fun h => (nomatch hp.symm.trans h), hfail, fun _ => hclosed⟩
  | copy v k =>
    simp only [State.stepWrite, Option.ite_none_right_eq_some] at hs
    obtain ⟨⟨hp, hle⟩, hs⟩ := hs
    cases hs
    refine ⟨Write.grown k, rfl, rfl, Nat.le_refl _, fun p hne => Files.size_set_ne _ hne _,
      fun h => (nomatch hp.symm.trans h), fun hc => ⟨hle, hc.settled, hc.held⟩, fun _ _ m hm => ?_⟩
    have hsize : ((s.disk.size (.temp r.home w)).map fun _ => r.length + k) = some m := by
      rw [← hm]
      exact (Files.size_set_self _ _ _).symm
    obtain ⟨-, -, hm⟩ := Option.map_eq_some_iff.mp hsize
    exact hm.symm
  | stage v =>
    simp only [State.stepWrite, Option.ite_none_right_eq_some] at hs
    obtain ⟨hp, hs⟩ := hs
    cases hs
    exact ⟨Write.staged, rfl, rfl, Nat.le_refl _, fun _ _ => rfl, fun h => (nomatch hp.symm.trans h),
      fun hc => ⟨hc.length_le, hc.settled, fun hm _ => hc.held hm (by rw [hp]; decide)⟩, fun h _ => h (.inl hp)⟩
  | abandon v removed =>
    simp only [State.stepWrite, Option.ite_none_right_eq_some] at hs
    obtain ⟨hp, hs⟩ := hs
    cases hs
    exact ⟨Write.fail, rfl, by simp [State.giveBack, Write.fail, Write.release], Nat.zero_le _,
      fun _ hne => size_dropTemp _ hne _, fun h => (nomatch hp.symm.trans h), hfail, fun _ => hclosed⟩
  | rollback v removed =>
    simp only [State.stepWrite, Option.ite_none_right_eq_some] at hs
    obtain ⟨⟨hp, -, hno⟩, hs⟩ := hs
    cases hs
    refine ⟨Write.rollback, rfl, by simp [State.giveBack, Write.rollback, Write.release], Nat.zero_le _,
      fun _ hne => size_dropTemp _ hne _, fun _ => by simpa using hno,
      fun hc => ⟨hc.length_le, fun _ => rfl, fun _ _ _ hb => by cases hb⟩, fun h _ m hm => ?_⟩
    cases removed with
    | true =>
      have hnone := Files.size_set_self s.disk (.temp r.home w) none
      exact absurd (hnone.symm.trans hm) (by simp)
    | false => exact h (.inr hp) m hm
  | _ => cases hs

/-! ## Admission -/

def admittedWrite (home : Entry) (size : Int) (held : Nat) : Write :=
  ⟨home, size.toNat, held, 0, .reserved, false, false⟩

/-- A write is refused; it is admitted with nothing held, without a limit; or it is admitted with its size held. -/
theorem reserve_cases {shard : Entry → Nat} {home : Entry} {size : Int}
    (hs : step shard s (.reserve home size) = some s') :
    (∃ refused, s' = { s with refusedBytes := refused }) ∨
      (s.maxBytes ≤ 0 ∧ s' = { s with writes := s.writes.insert (admittedWrite home size 0) }) ∨
      (0 ≤ size ∧ s.usedBytes + s.reservedBytes + size ≤ s.maxBytes ∧
        s' = { s with
          reservedBytes := s.reservedBytes + size
          writes := s.writes.insert (admittedWrite home size size.toNat) }) := by
  simp only [step, State.reserve] at hs
  by_cases hneg : size < 0
  · rw [if_pos hneg] at hs
    cases hs
    exact .inl ⟨s.refusedBytes, rfl⟩
  by_cases hmax : s.maxBytes ≤ 0
  · rw [if_neg hneg, if_pos hmax] at hs
    cases hs
    exact .inr (.inl ⟨hmax, rfl⟩)
  by_cases hfull : s.maxBytes - s.usedBytes - s.reservedBytes < size
  · rw [if_neg hneg, if_neg hmax, if_pos hfull] at hs
    cases hs
    exact .inl ⟨_, rfl⟩
  · rw [if_neg hneg, if_neg hmax, if_neg hfull] at hs
    cases hs
    exact .inr (.inr ⟨by omega, by omega, rfl⟩)

/-! ## The ledger of reservations -/

def Commit.Of (c : Commit) (r : Write) : Prop :=
  r.phase = .staged ∧ r.committed = false ∧ r.home = c.home ∧ r.length = c.n

/-- `reservedBytes` is what the writes hold, and every commit takes from the reservation of its own write. -/
structure Ledger (s : State) : Prop where
  reserved : s.reservedBytes = s.writes.sum fun r => (r.held : Int)
  covered : ∀ w r, s.writes.row w = some r → r.Covered s.maxBytes
  commit : ∀ i c pc, s.ops.row i = some (.commit c pc) → ∃ r, s.writes.row c.w = some r ∧ c.Of r
  single : ∀ i j c d pc pd, s.ops.row i = some (.commit c pc) → s.ops.row j = some (.commit d pd) → c.w = d.w → i = j

namespace Ledger

variable {shard : Entry → Nat} {s s' : State}

theorem opened (maxBytes : Int) (disk : Files Place) : Ledger (opened maxBytes disk) where
  reserved := by simp [Capacity.opened]
  covered _ _ h := by cases h
  commit _ _ _ h := by cases h
  single _ _ _ _ _ _ h := by cases h

variable {w : Nat} {r : Write} {a : Action}

theorem not_staged (h : Ledger s) (hr : s.writes.row w = some r) (hp : r.phase ≠ .staged) (i : Nat) (c : Commit)
    (pc : CommitAt) (hi : s.ops.row i = some (.commit c pc)) : c.w ≠ w := by
  rintro rfl
  obtain ⟨q, hq, hof⟩ := h.commit i c pc hi
  rw [hr] at hq
  cases hq
  exact hp hof.1

theorem not_onWrite (hno : s.ops.any (fun _ op => op.onWrite w) = false) (i : Nat) (c : Commit) (pc : CommitAt)
    (hi : s.ops.row i = some (.commit c pc)) : c.w ≠ w := by
  have hop := Table.any_eq_false.mp hno i _ hi
  simpa [Op.onWrite] using hop

theorem admitted (h : Ledger s) (home : Entry) (size : Int) (held : Nat) (hheld : 0 < s.maxBytes → held = size.toNat)
    (hops : s'.ops = s.ops) (hmax : s'.maxBytes = s.maxBytes)
    (hwrites : s'.writes = s.writes.insert (admittedWrite home size held))
    (hres : s'.reservedBytes = s.reservedBytes + held) : Ledger s' where
  reserved := by
    rw [hwrites, Table.sum_insert, ← h.reserved, hres]
    rfl
  covered := by
    intro v q hq
    rw [hwrites] at hq
    rw [hmax]
    rcases Table.row_insert_cases hq with ⟨-, rfl⟩ | ⟨-, hq⟩
    · exact ⟨Nat.zero_le _, nofun, fun hpos _ _ _ => hheld hpos⟩
    · exact h.covered v q hq
  commit := by
    intro i c pc hi
    rw [hops] at hi
    obtain ⟨q, hq, hof⟩ := h.commit i c pc hi
    refine ⟨q, ?_, hof⟩
    rw [hwrites, Table.row_insert, if_neg (Nat.ne_of_lt (Table.lt_next hq)), hq]
  single := by
    rw [hops]
    exact h.single

/-- An operation that may begin. -/
inductive Begun (shard : Entry → Nat) (s : State) : Op → Prop
  | commit {w : Nat} {dest : Entry} {r : Write} : s.writes.row w = some r → r.phase = .staged →
      r.committed = false → s.ops.any (fun _ op => op.onWrite w) = false →
      s.ops.any (fun _ op => op.locks shard (shard dest)) = false →
      Begun shard s (.commit ⟨w, r.home, dest, r.length⟩ .stat)
  | delete {e : Entry} : s.ops.any (fun _ op => op.locks shard (shard e)) = false → Begun shard s (.delete e .stat)
  | quarantine {b id : Nat} : s.ops.any (fun _ op => op.locks shard (shard (.contents b id))) = false →
      Begun shard s (.quarantine b id .stat)
  | deleteBucketDir {b : Nat} : s.ops.any (fun _ op => op.locking) = false → Begun shard s (.deleteBucketDir b .walk)
  | deleteUpload {u : Nat} : Begun shard s (.deleteUpload u .walk)

variable {op : Op}

theorem begins_begun (hb : s.begins shard a = some op) : Begun shard s op := by
  cases a with
  | commitAs w dest =>
    simp only [State.begins, Option.bind_eq_some_iff, Option.ite_none_right_eq_some, Bool.not_eq_true'] at hb
    obtain ⟨r, hr, ⟨hp, hcom, hno, hlock⟩, hop⟩ := hb
    cases hop
    exact .commit hr hp hcom hno hlock
  | delete e | quarantine b id | deleteBucketDir b =>
    simp only [State.begins, Option.ite_none_right_eq_some, Bool.not_eq_true'] at hb
    cases hb.2
    constructor
    exact hb.1
  | deleteUpload u => cases hb; exact .deleteUpload
  | _ => cases hb

theorem begins_commit {c : Commit} {pc : CommitAt} (hb : s.begins shard a = some (.commit c pc)) :
    ∃ r, s.writes.row c.w = some r ∧ c.Of r ∧ ∀ i d pd, s.ops.row i = some (.commit d pd) → d.w ≠ c.w := by
  cases begins_begun hb with
  | commit hr hp hcom hno _ => exact ⟨_, hr, ⟨hp, hcom, rfl, rfl⟩, not_onWrite hno⟩

theorem stepWrite (h : Ledger s) (hr : s.writes.row w = some r) (hs : s.stepWrite w r a = some s') : Ledger s' := by
  obtain ⟨f, ho⟩ := OwnStep.of_stepWrite hs
  have hno : ∀ i c pc, s.ops.row i = some (.commit c pc) → c.w ≠ w := by
    intro i c pc hi
    by_cases hp : r.phase = .staged
    · exact not_onWrite (ho.free hp) i c pc hi
    · exact h.not_staged hr hp i c pc hi
  rw [ho.rest]
  refine ⟨?_, fun v q hq => ?_, fun i c pc hi => ?_, h.single⟩
  · have hsum := Table.sum_modify hr f fun r => (r.held : Int)
    have hold := h.reserved
    have hres := ho.reserved
    dsimp only
    omega
  · rcases Table.row_modify_cases hq with ⟨rfl, q₀, hq₀, rfl⟩ | ⟨-, hq⟩
    · cases hr.symm.trans hq₀
      exact ho.covered (h.covered _ _ hr)
    · exact h.covered v q hq
  · obtain ⟨q, hq, hof⟩ := h.commit i c pc hi
    refine ⟨q, ?_, hof⟩
    show (s.writes.modify w f).row c.w = some q
    rw [Table.row_modify, if_neg (hno i c pc hi), hq]

theorem reserve (h : Ledger s) {home : Entry} {size : Int}
    (hs : Capacity.step shard s (.reserve home size) = some s') : Ledger s' := by
  rcases reserve_cases hs with ⟨refused, rfl⟩ | ⟨hmax, rfl⟩ | ⟨hpos, -, rfl⟩
  · exact ⟨h.reserved, h.covered, h.commit, h.single⟩
  · exact h.admitted home size 0 (fun hpos => absurd hpos (Int.not_lt.mpr hmax)) rfl rfl rfl (by simp)
  · exact h.admitted home size size.toNat (fun _ => rfl) rfl rfl rfl (by simp; omega)

theorem begins (h : Ledger s) (hb : s.begins shard a = some op) : Ledger { s with ops := s.ops.insert op } where
  reserved := h.reserved
  covered := h.covered
  commit := by
    intro i c pc hi
    rcases Table.row_insert_cases hi with ⟨-, hop⟩ | ⟨-, hi⟩
    · obtain ⟨r, hr, hof, -⟩ := begins_commit (hop ▸ hb)
      exact ⟨r, hr, hof⟩
    · exact h.commit i c pc hi
  single := by
    intro i j c d pc pd hi hj hw
    rcases Table.row_insert_cases hi with ⟨hin, hop⟩ | ⟨-, hi⟩
    · rcases Table.row_insert_cases hj with ⟨hjn, -⟩ | ⟨-, hj⟩
      · rw [hin, hjn]
      · obtain ⟨-, -, -, hno⟩ := begins_commit (hop ▸ hb)
        exact absurd hw.symm (hno j d pd hj)
    · rcases Table.row_insert_cases hj with ⟨-, hop⟩ | ⟨-, hj⟩
      · obtain ⟨-, -, -, hno⟩ := begins_commit (hop ▸ hb)
        exact absurd hw (hno i c pc hi)
      · exact h.single i j c d pc pd hi hj hw

end Ledger

/-! ## A file operation of an operation in progress -/

section Apply

variable {shard : Entry → Nat} {s s' : State} {i : Nat} {op : Op} {a : After}

theorem State.apply_unsettled (hs : a.settles = none) : s.apply i a =
    { s with
      disk := a.disk
      ops := s.ops.modify i fun _ => a.op
      usedBytes := s.usedBytes + a.charge
      unreserved := s.unreserved + a.unreserved } := by
  rw [State.apply, hs]
  rfl

theorem State.apply_settled {w : Nat} {r : Write} (hs : a.settles = some w) (hr : s.writes.row w = some r) :
    s.apply i a =
      { s with
        disk := a.disk
        ops := s.ops.modify i fun _ => a.op
        usedBytes := s.usedBytes + a.charge
        reservedBytes := s.reservedBytes - r.held
        writes := s.writes.modify w Write.commit
        unreserved := s.unreserved + a.unreserved + if r.rolledBack then r.length else 0 } := by
  rw [State.apply, hs]
  simp only [Option.bind_some, hr, Option.map_some]
  rfl

theorem commit_of_modify {ops : Table Op} (hop : ops.row i = some op)
    (hkeep : ∀ c pc, a.op = .commit c pc → ∃ pc₀, op = .commit c pc₀) {j : Nat} {c : Commit} {pc : CommitAt}
    (hj : (ops.modify i fun _ => a.op).row j = some (.commit c pc)) : ∃ pc₀, ops.row j = some (.commit c pc₀) := by
  rcases Table.row_modify_cases hj with ⟨rfl, -, -, hc⟩ | ⟨-, hj⟩
  · obtain ⟨pc₀, rfl⟩ := hkeep c pc hc.symm
    exact ⟨pc₀, hop⟩
  · exact ⟨pc, hj⟩

theorem Ledger.apply (h : Ledger s) {ans : Answer} (hop : s.ops.row i = some op)
    (hn : op.next s.disk ans = some a) : Ledger (s.apply i a) := by
  rcases Op.next_spec hn with ⟨hset, -, hkeep⟩ | ⟨c, pc, rfl, hset, -, -, hdone⟩
  · rw [State.apply_unsettled hset]
    refine ⟨h.reserved, h.covered, ?_, ?_⟩
    · intro j d pd hj
      obtain ⟨pc₀, hj₀⟩ := commit_of_modify hop hkeep hj
      exact h.commit j d pc₀ hj₀
    · intro j k d e pd pe hj hk
      obtain ⟨pd₀, hj₀⟩ := commit_of_modify hop hkeep hj
      obtain ⟨pe₀, hk₀⟩ := commit_of_modify hop hkeep hk
      exact h.single j k d e pd₀ pe₀ hj₀ hk₀
  · obtain ⟨r, hr, hof⟩ := h.commit i c pc hop
    -- The commits that are left are other operations' and at other writes.
    have hother : ∀ j d pd, (s.ops.modify i fun _ => a.op).row j = some (.commit d pd) →
        s.ops.row j = some (.commit d pd) ∧ d.w ≠ c.w := by
      intro j d pd hj
      rcases Table.row_modify_cases hj with ⟨-, -, -, hc⟩ | ⟨hne, hj⟩
      · rw [hdone] at hc
        cases hc
      · exact ⟨hj, fun hw => hne (h.single j i d c pd pc hj hop hw)⟩
    rw [State.apply_settled hset hr]
    refine ⟨?_, ?_, ?_, ?_⟩
    · have hsum := Table.sum_modify hr Write.commit fun r => (r.held : Int)
      have hold := h.reserved
      have hfree : ((Write.commit r).held : Int) = 0 := rfl
      dsimp only
      omega
    · intro w q hq
      rcases Table.row_modify_cases hq with ⟨rfl, q₀, hq₀, rfl⟩ | ⟨-, hq⟩
      · exact ⟨(h.covered _ q₀ hq₀).length_le, fun _ => rfl, fun _ _ hcom => by cases hcom⟩
      · exact h.covered w q hq
    · intro j d pd hj
      obtain ⟨hj, hne⟩ := hother j d pd hj
      obtain ⟨q, hq, hofq⟩ := h.commit j d pd hj
      refine ⟨q, ?_, hofq⟩
      show (s.writes.modify c.w Write.commit).row d.w = some q
      rw [Table.row_modify, if_neg hne, hq]
    · intro j k d e pd pe hj hk
      exact h.single j k d e pd pe (hother j d pd hj).1 (hother k e pe hk).1

variable {x : Action}

theorem step_cases (hs : step shard s x = some s') :
    (∃ home size, x = .reserve home size) ∨ (∃ w r, s.writes.row w = some r ∧ s.stepWrite w r x = some s') ∨
      (∃ op, s.begins shard x = some op ∧ s' = { s with ops := s.ops.insert op }) ∨
      ∃ i op ans a, x = .advance i ans ∧ s.ops.row i = some op ∧ op.next s.disk ans = some a ∧ s' = s.apply i a := by
  cases x with
  | reserve home size => exact .inl ⟨home, size, rfl⟩
  | createTemp w ok | copy w k | stage w | abandon w removed | rollback w removed =>
    obtain ⟨r, hr, hs⟩ := Option.bind_eq_some_iff.mp hs
    exact .inr (.inl ⟨w, r, hr, hs⟩)
  | advance i ans =>
    obtain ⟨op, hop, hs⟩ := Option.bind_eq_some_iff.mp hs
    obtain ⟨a, ha, rfl⟩ := Option.map_eq_some_iff.mp hs
    exact .inr (.inr (.inr ⟨i, op, ans, a, rfl, hop, ha, rfl⟩))
  | _ =>
    simp only [step, Option.map_eq_some_iff] at hs
    obtain ⟨op, hb, rfl⟩ := hs
    exact .inr (.inr (.inl ⟨op, hb, rfl⟩))

theorem Ledger.step (h : Ledger s) (hs : step shard s x = some s') : Ledger s' := by
  rcases step_cases hs with ⟨home, size, rfl⟩ | ⟨w, r, hr, hs⟩ | ⟨op, hb, rfl⟩ | ⟨i, op, ans, a, -, hop, hn, rfl⟩
  · exact h.reserve hs
  · exact h.stepWrite hr hs
  · exact h.begins hb
  · exact h.apply hop hn

theorem Ledger.of_reachable (h : (machine shard).Reachable s) : Ledger s := by
  refine h.invariant ?_ fun _ _ _ hi hs => hi.step hs
  rintro s ⟨maxBytes, disk, rfl⟩
  exact .opened maxBytes disk

end Apply

/-! ## The bound -/

/-- One step admits bytes only up to `maxBytes`, and otherwise charges no more than was reserved or is recorded as
    unreserved. -/
structure Rises (s s' : State) : Prop where
  maxBytes : s'.maxBytes = s.maxBytes
  unreserved : s.unreserved ≤ s'.unreserved
  bound : s'.usedBytes + s'.reservedBytes ≤ s.maxBytes + (s'.unreserved - s.unreserved) ∨
    s'.usedBytes + s'.reservedBytes ≤ s.usedBytes + s.reservedBytes + (s'.unreserved - s.unreserved)

namespace Rises

variable {shard : Entry → Nat} {s s' t : State}

theorem refl (s : State) : Rises s s := ⟨rfl, Nat.le_refl _, .inr (by omega)⟩

theorem trans (h₁ : Rises s s') (h₂ : Rises s' t) : Rises s t where
  maxBytes := h₂.maxBytes.trans h₁.maxBytes
  unreserved := Nat.le_trans h₁.unreserved h₂.unreserved
  bound := by
    have hmax := h₁.maxBytes
    have hle₁ := h₁.unreserved
    have hle₂ := h₂.unreserved
    rcases h₁.bound with hb₁ | hb₁ <;> rcases h₂.bound with hb₂ | hb₂ <;> omega

theorem ofOwn {w : Nat} {r : Write} {f : Write → Write} (h : OwnStep s w r f s') : Rises s s' := by
  have hle := h.held
  have hres := h.reserved
  rw [h.rest]
  exact ⟨rfl, Nat.le_refl _, .inr (by dsimp only; omega)⟩

theorem reserve (hpos : 0 < s.maxBytes) {home : Entry} {size : Int}
    (hs : Capacity.step shard s (.reserve home size) = some s') : Rises s s' := by
  rcases reserve_cases hs with ⟨refused, rfl⟩ | ⟨hmax, rfl⟩ | ⟨-, hle, rfl⟩
  · exact ⟨rfl, Nat.le_refl _, .inr (by dsimp only; omega)⟩
  · exact absurd hpos (Int.not_lt.mpr hmax)
  · exact ⟨rfl, Nat.le_refl _, .inl (by dsimp only; omega)⟩

theorem apply (h : Ledger s) (hpos : 0 < s.maxBytes) {i : Nat} {op : Op} {ans : Answer} {a : After}
    (hop : s.ops.row i = some op) (hn : op.next s.disk ans = some a) : Rises s (s.apply i a) := by
  rcases Op.next_spec hn with ⟨hset, hcharge, -⟩ | ⟨c, pc, rfl, hset, hcharge, hun, -⟩
  · rw [State.apply_unsettled hset]
    exact ⟨rfl, by dsimp only; omega, .inr (by dsimp only; omega)⟩
  obtain ⟨r, hr, hp, hcom, -, hlen⟩ := h.commit i c pc hop
  have hc := h.covered c.w r hr
  have hle := hc.length_le
  rw [State.apply_settled hset hr]
  refine ⟨rfl, by dsimp only; omega, .inr ?_⟩
  dsimp only
  cases hback : r.rolledBack with
  | true =>
    simp only [if_true]
    omega
  | false =>
    have hheld := hc.held hpos (by rw [hp]; decide) hcom hback
    simp only [Bool.false_eq_true, if_false]
    omega

theorem step {x : Action} (h : Ledger s) (hpos : 0 < s.maxBytes) (hs : step shard s x = some s') : Rises s s' := by
  rcases step_cases hs with ⟨home, size, rfl⟩ | ⟨w, r, -, hs⟩ | ⟨op, -, rfl⟩ | ⟨i, op, ans, a, -, hop, hn, rfl⟩
  · exact reserve hpos hs
  · obtain ⟨f, ho⟩ := OwnStep.of_stepWrite hs
    exact ofOwn ho
  · exact ⟨rfl, Nat.le_refl _, .inr (by dsimp only; omega)⟩
  · exact apply h hpos hop hn

theorem steps (h : Ledger s) (hpos : 0 < s.maxBytes) (hrun : (machine shard).Steps s s') : Rises s s' := by
  have hstep : ∀ t x t', Ledger t ∧ 0 < t.maxBytes → (machine shard).step t x = some t' → Rises t t' :=
    fun _ _ _ ht hs => Rises.step ht.1 ht.2 hs
  have hkeep : ∀ t x t', Ledger t ∧ 0 < t.maxBytes → (machine shard).step t x = some t' →
      Ledger t' ∧ 0 < t'.maxBytes :=
    fun t x t' ht hs => ⟨ht.1.step hs, (hstep t x t' ht hs).maxBytes ▸ ht.2⟩
  exact (Lts.Steps.lift refl (fun _ _ _ => trans) hkeep hstep ⟨h, hpos⟩ hrun).2

end Rises

/-- If the two counters are together at most `maxBytes` at some moment, they exceed it at no later one by more than
    what was charged without a reservation since. -/
theorem charges_bounded {shard : Entry → Nat} {s s' : State} (hr : (machine shard).Reachable s)
    (hpos : 0 < s.maxBytes) (hstart : s.usedBytes + s.reservedBytes ≤ s.maxBytes)
    (hrun : (machine shard).Steps s s') :
    s'.usedBytes + s'.reservedBytes ≤ s'.maxBytes + (s'.unreserved - s.unreserved) := by
  have hrise := Rises.steps (.of_reachable hr) hpos hrun
  have hle := hrise.unreserved
  have hmax := hrise.maxBytes
  rcases hrise.bound with hb | hb <;> omega

/-- A part of 6 bytes is uploaded into a cache of 10, and uploaded again with 4. -/
def replacedPart : List Action :=
  [.reserve (.part 1 1) 6, .createTemp 1 true, .copy 1 6, .stage 1, .commitAs 1 (.part 1 1), .advance 1 .ok,
    .advance 1 .ok, .advance 1 .ok, .advance 1 .ok, .reserve (.part 1 1) 4, .createTemp 2 true, .copy 2 4, .stage 2,
    .commitAs 2 (.part 1 1), .advance 2 .ok, .advance 2 .ok]

def failedReplacement : List Action := [.advance 2 .fails, .advance 2 .fails]

def oneShard : Lts State Action := machine fun _ => 0

def emptyCache : State := opened 10 .empty

def fullCache : State := (oneShard.run emptyCache replacedPart).getD emptyCache

def overfullCache : State := (oneShard.run fullCache failedReplacement).getD fullCache

theorem reachable_fullCache : oneShard.Reachable fullCache :=
  .of_run_isSome (.of_init ⟨_, _, rfl⟩) (by decide +kernel)

theorem steps_overfullCache : oneShard.Steps fullCache overfullCache :=
  .of_run_isSome (by decide +kernel)

/-- The preserved part is charged beside the one it was linked from. -/
theorem preserved_part_charged_past_limit :
    oneShard.Reachable fullCache ∧ fullCache.usedBytes + fullCache.reservedBytes = fullCache.maxBytes ∧
      oneShard.Steps fullCache overfullCache ∧
      overfullCache.usedBytes + overfullCache.reservedBytes = overfullCache.maxBytes + 6 :=
  ⟨reachable_fullCache, by decide +kernel, steps_overfullCache, by decide +kernel⟩

/-- A write of 6 bytes is rolled back, but its temporary file could not be removed; another one reserves all of the
    cache, and then the first is committed. -/
def committedAfterRollback : List Action :=
  [.reserve (.object 1 1) 6, .createTemp 1 true, .copy 1 6, .stage 1, .rollback 1 false, .reserve (.object 1 2) 10,
    .commitAs 1 (.object 1 1), .advance 1 .ok, .advance 1 .ok, .advance 1 .ok, .advance 1 .ok]

example : (oneShard.run emptyCache committedAfterRollback).map
    (fun s => (s.usedBytes, s.reservedBytes, s.maxBytes, s.unreserved)) = some (6, 10, 10, 6) := by
  decide +kernel

theorem charges_bounded_overfull : fullCache.usedBytes + fullCache.reservedBytes ≤ fullCache.maxBytes ∧
    overfullCache.usedBytes + overfullCache.reservedBytes ≤
      overfullCache.maxBytes + (overfullCache.unreserved - fullCache.unreserved) :=
  ⟨by decide +kernel,
    charges_bounded reachable_fullCache (by decide +kernel) (by decide +kernel) steps_overfullCache⟩

end SynapS3.Capacity
