import SynapS3.Gate.Model

/-!
# `Gate.Exclusion` — what the gate excludes

The invariant counts: an entry's references are its users, its semaphore has admitted what they hold, and every
user of a key stands at the entry that the key's shard has. An entry is dropped by its last user, so nobody waits
at an entry that is no longer in the map.
-/

namespace SynapS3.Gate

variable {K : Type} [DecidableEq K] {shard : K → Nat} {s s' : State K}

def User.uses (id : Nat) (u : User K) : Nat := if u.entry = id ∧ u.phase ≠ .gone then 1 else 0

def User.holds (id : Nat) (u : User K) : Nat := if u.entry = id ∧ u.phase = .holding then u.mode.weight else 0

/-- An entry in use is in the map of its shard, and counts its users and the weights it has admitted. -/
structure Inv (shard : K → Nat) (s : State K) : Prop where
  entry : ∀ i u, s.users.row i = some u → ∃ e, s.entries.row u.entry = some e
  mapped : ∀ i u, s.users.row i = some u → u.phase ≠ .gone → s.shards (shard u.key) u.key = some u.entry
  live : ∀ j k id, s.shards j k = some id → j = shard k ∧ ∃ e, s.entries.row id = some e ∧ 0 < e.refs
  inj : ∀ j k j' k' id, s.shards j k = some id → s.shards j' k' = some id → k = k'
  refs : ∀ id e, s.entries.row id = some e → e.refs = s.users.sum (User.uses id)
  cur : ∀ id e, s.entries.row id = some e → e.cur = s.users.sum (User.holds id)
  room : ∀ id e, s.entries.row id = some e → e.cur ≤ gateCapacity

omit [DecidableEq K] in
theorem Inv.init : Inv shard ({} : State K) :=
  ⟨nofun, nofun, nofun, nofun, nofun, nofun, nofun⟩

variable {u : User K} {id : Nat}

omit [DecidableEq K] in
theorem User.uses_of_ne (h : u.entry ≠ id) : u.uses id = 0 := if_neg fun hu => h hu.1

omit [DecidableEq K] in
theorem User.holds_of_ne (h : u.entry ≠ id) : u.holds id = 0 := if_neg fun hu => h hu.1

omit [DecidableEq K] in
theorem User.uses_self (h : u.phase ≠ .gone) : u.uses u.entry = 1 := if_pos ⟨rfl, h⟩

omit [DecidableEq K] in
theorem Inv.entry_ne_next (h : Inv shard s) {i : Nat} (hu : s.users.row i = some u) : u.entry ≠ s.entries.next := by
  obtain ⟨e, he⟩ := h.entry i u hu
  exact Nat.ne_of_lt (Table.lt_next he)

/-! ## A call and its entry change -/

/-- The entry `id` is `e` afterwards and the call `i` is `u`, which stands at it; either may be new. -/
structure Turn (s s' : State K) (id i : Nat) (e : Entry) (u : User K) : Prop where
  entries : ∀ j, s'.entries.row j = if j = id then some e else s.entries.row j
  users : ∀ j, s'.users.row j = if j = i then some u else s.users.row j
  sum : ∀ f : User K → Nat, s'.users.sum f + (s.users.row i).elim 0 f = s.users.sum f + f u
  stands : u.entry = id ∧ ∀ v, s.users.row i = some v → v.entry = id

section Turn

variable {id i : Nat} {e : Entry} {u : User K}

omit [DecidableEq K] in
theorem Turn.of_modify (hu : s.users.row i = some u) (he : s.entries.row u.entry = some e)
    (shards : Nat → K → Option Nat) (f : Entry → Entry) (phase : Phase) :
    Turn s ⟨shards, s.entries.modify u.entry f, s.users.modify i fun u => { u with phase := phase }⟩ u.entry i (f e)
      { u with phase := phase } where
  entries := Table.row_modify_of he f
  users := Table.row_modify_of hu _
  sum g := by rw [hu]; exact Table.sum_modify hu _ g
  stands := ⟨rfl, fun v hv => by rw [hu] at hv; cases hv; rfl⟩

omit [DecidableEq K] in
theorem Turn.of_insert {entries : Table Entry} (shards : Nat → K → Option Nat) (key : K) (mode : Mode)
    (he : ∀ j, entries.row j = if j = id then some e else s.entries.row j) :
    Turn s ⟨shards, entries, s.users.insert { key := key, mode := mode, entry := id }⟩ id s.users.next e
      { key := key, mode := mode, entry := id } := by
  have hnone := s.users.fresh _ (Nat.le_refl _)
  refine ⟨he, fun _ => rfl, fun g => ?_, rfl, fun v hv => ?_⟩
  · rw [hnone]
    exact Table.sum_insert _ _ g
  · rw [hnone] at hv
    cases hv

omit [DecidableEq K] in
theorem Turn.live (t : Turn s s' id i e u) (h : Inv shard s) {j id' : Nat} {k : K} (hid : s.shards j k = some id')
    (hpos : id' = id → 0 < e.refs) : j = shard k ∧ ∃ e, s'.entries.row id' = some e ∧ 0 < e.refs := by
  obtain ⟨hj, e', he', hp⟩ := h.live j k id' hid
  refine ⟨hj, ?_⟩
  rw [t.entries]
  split
  · next heq => exact ⟨e, rfl, hpos heq⟩
  · exact ⟨e', he', hp⟩

omit [DecidableEq K] in
theorem Inv.turn (h : Inv shard s) (t : Turn s s' id i e u)
    (hrefs : e.refs + (s.users.row i).elim 0 (User.uses id) = s.users.sum (User.uses id) + u.uses id)
    (hcur : e.cur + (s.users.row i).elim 0 (User.holds id) = s.users.sum (User.holds id) + u.holds id)
    (hroom : e.cur ≤ gateCapacity) (hmapped : u.phase ≠ .gone → s'.shards (shard u.key) u.key = some id)
    (hothers : ∀ j v, j ≠ i → s.users.row j = some v → v.phase ≠ .gone →
      s'.shards (shard v.key) v.key = s.shards (shard v.key) v.key)
    (hlive : ∀ j k id, s'.shards j k = some id → j = shard k ∧ ∃ e, s'.entries.row id = some e ∧ 0 < e.refs)
    (hinj : ∀ j k j' k' id, s'.shards j k = some id → s'.shards j' k' = some id → k = k') : Inv shard s' := by
  -- the figures of other entries are the same
  have hsame : ∀ f : User K → Nat, (∀ v : User K, v.entry = id → f v = 0) → s'.users.sum f = s.users.sum f := by
    intro f hf
    have hsum := t.sum f
    have hold : (s.users.row i).elim 0 f = 0 := by
      cases hv : s.users.row i with
      | none => rfl
      | some v => exact hf v (t.stands.2 v hv)
    rw [hf u t.stands.1] at hsum
    omega
  refine ⟨?_, ?_, hlive, hinj, ?_, ?_, ?_⟩
  · intro j v hv
    rw [t.users] at hv
    rw [t.entries]
    split
    · exact ⟨e, rfl⟩
    next hne =>
    split at hv
    · cases hv
      exact absurd t.stands.1 hne
    · exact h.entry j v hv
  · intro j v hv hg
    rw [t.users] at hv
    split at hv
    · cases hv
      rw [hmapped hg, t.stands.1]
    · next hne => rw [hothers j v hne hv hg, h.mapped j v hv hg]
  · intro j e' he'
    rw [t.entries] at he'
    split at he'
    · next hj =>
      cases he'
      have hsum := t.sum (User.uses id)
      rw [hj]
      omega
    · next hj =>
      rw [hsame _ fun v hv => User.uses_of_ne (by rw [hv]; exact Ne.symm hj)]
      exact h.refs j e' he'
  · intro j e' he'
    rw [t.entries] at he'
    split at he'
    · next hj =>
      cases he'
      have hsum := t.sum (User.holds id)
      rw [hj]
      omega
    · next hj =>
      rw [hsame _ fun v hv => User.holds_of_ne (by rw [hv]; exact Ne.symm hj)]
      exact h.cur j e' he'
  · intro j e' he'
    rw [t.entries] at he'
    split at he'
    · cases he'
      exact hroom
    · exact h.room j e' he'

end Turn

/-! ## A call begins -/

theorem Inv.enter (h : Inv shard s) (key : K) (mode : Mode) : Inv shard (s.enter shard key mode) := by
  have hnone := s.users.fresh _ (Nat.le_refl _)
  have hwait : ∀ id, User.holds id (⟨key, mode, id, .waiting⟩ : User K) = 0 := fun id => if_neg (by simp)
  have huse : ∀ id, User.uses id (⟨key, mode, id, .waiting⟩ : User K) = 1 := fun id => if_pos ⟨rfl, nofun⟩
  unfold State.enter State.acquire
  cases hm : s.shards (shard key) key with
  | some id =>
    -- the key has its entry, which gets one more user
    obtain ⟨-, e, he, hpos⟩ := h.live _ _ _ hm
    have t := Turn.of_insert (s := s) s.shards key mode (Table.row_modify_of he fun e => { e with refs := e.refs + 1 })
    refine h.turn t ?_ ?_ (h.room id e he) (fun _ => hm) (fun _ _ _ _ _ => rfl)
      (fun j k id' hid => t.live h hid fun _ => Nat.succ_pos _) h.inj
    · rw [hnone, huse, ← h.refs id e he]
      rfl
    · rw [hnone, hwait, ← h.cur id e he]
      rfl
  | none =>
    -- a new entry, and a new place in the map
    have hmap : ∀ {j k id}, (s.setShard (shard key) key (some s.entries.next)).shards j k = some id →
        (j = shard key ∧ k = key ∧ id = s.entries.next) ∨ (s.shards j k = some id ∧ id ≠ s.entries.next) := by
      intro j k id hid
      simp only [State.setShard] at hid
      split at hid
      · next hc =>
        cases hid
        exact .inl ⟨hc.1, hc.2, rfl⟩
      · obtain ⟨-, e, he, -⟩ := h.live j k id hid
        exact .inr ⟨hid, Nat.ne_of_lt (Table.lt_next he)⟩
    have t := Turn.of_insert (s := s) (s.setShard (shard key) key (some s.entries.next)).shards key mode
      (Table.row_insert s.entries { refs := 1 })
    refine h.turn t ?_ ?_ (Nat.zero_le _) (fun _ => if_pos ⟨rfl, rfl⟩) ?_ ?_ ?_
    · rw [hnone, huse, Table.sum_eq_zero fun i u hu => User.uses_of_ne (h.entry_ne_next hu)]
      rfl
    · rw [hnone, hwait, Table.sum_eq_zero fun i u hu => User.holds_of_ne (h.entry_ne_next hu)]
      rfl
    · intro j v _ hv hg
      refine if_neg ?_
      rintro ⟨-, rfl⟩
      rw [h.mapped j v hv hg] at hm
      cases hm
    · intro j k id hid
      rcases hmap hid with ⟨rfl, rfl, rfl⟩ | ⟨hid, hne⟩
      · exact ⟨rfl, _, if_pos rfl, Nat.one_pos⟩
      · exact t.live h hid fun heq => absurd heq hne
    · intro j k j' k' id hid hid'
      rcases hmap hid with ⟨-, hk, hn⟩ | ⟨hold, hne⟩ <;> rcases hmap hid' with ⟨-, hk', hn'⟩ | ⟨hold', hne'⟩
      · exact hk.trans hk'.symm
      · exact absurd hn hne'
      · exact absurd hn' hne
      · exact h.inj j k j' k' id hold hold'

/-! ## A call moves on -/

variable {i : Nat} {u : User K} {e : Entry}

omit [DecidableEq K] in
theorem Inv.move (h : Inv shard s) {phase : Phase} {c : Nat} (hu : s.users.row i = some u)
    (he : s.entries.row u.entry = some e) (hg : u.phase ≠ .gone) (hg' : phase ≠ .gone)
    (hc : c + u.holds u.entry = e.cur + User.holds u.entry { u with phase := phase })
    (hroom : c ≤ gateCapacity) :
    Inv shard ({ s with entries := s.entries.modify u.entry fun e => { e with cur := c } }.setPhase i phase) := by
  have hmap := h.mapped i u hu hg
  obtain ⟨-, e', he', hpos⟩ := h.live _ _ _ hmap
  rw [he] at he'
  cases he'
  have t := Turn.of_modify hu he s.shards (fun e => { e with cur := c }) phase
  refine h.turn t ?_ ?_ hroom (fun _ => hmap) (fun _ _ _ _ _ => rfl) (fun j k id hid => t.live h hid fun _ => hpos) h.inj
  · rw [hu, ← h.refs _ e he]
    simp [User.uses, hg, hg']
  · rw [hu, ← h.cur _ e he]
    exact hc

omit [DecidableEq K] in
theorem Inv.grant (h : Inv shard s) (hs : s.grant i = some s') : Inv shard s' := by
  unfold State.grant at hs
  split at hs
  · cases hs
  next u hu =>
  split at hs
  · cases hs
  next e he =>
  split at hs
  · next hc =>
    cases hs
    rw [Table.modify_congr he (g := fun e' => { e' with cur := e.cur + u.mode.weight }) rfl]
    refine h.move hu he (by rw [hc.1]; nofun) nofun ?_ hc.2
    simp [User.holds, hc.1]
  · cases hs

omit [DecidableEq K] in
theorem Inv.refuse (h : Inv shard s) (hs : s.refuse i = some s') : Inv shard s' := by
  unfold State.refuse at hs
  split at hs
  · cases hs
  next u hu =>
  split at hs
  · next hw =>
    cases hs
    obtain ⟨e, he⟩ := h.entry i u hu
    have hself : s.entries = s.entries.modify u.entry fun e' => { e' with cur := e.cur } := by
      rw [Table.modify_congr he (g := fun r => r) rfl, Table.modify_self]
    have hmove : Inv shard (State.setPhase
        { s with entries := s.entries.modify u.entry fun e' => { e' with cur := e.cur } } i .leaving) :=
      h.move hu he (by rw [hw]; nofun) nofun (by simp [User.holds, hw]) (h.room _ e he)
    rw [← hself] at hmove
    exact hmove
  · cases hs

omit [DecidableEq K] in
theorem Inv.weight_le (h : Inv shard s) (hu : s.users.row i = some u) (he : s.entries.row u.entry = some e)
    (hh : u.phase = .holding) : u.mode.weight ≤ e.cur := by
  have hle := Table.le_sum hu (User.holds u.entry)
  rw [← h.cur _ e he] at hle
  simpa [User.holds, hh] using hle

omit [DecidableEq K] in
theorem Inv.giveBack (h : Inv shard s) (hs : s.giveBack i = some s') : Inv shard s' := by
  unfold State.giveBack at hs
  split at hs
  · cases hs
  next u hu =>
  split at hs
  · cases hs
  · cases hs; exact h
  · cases hs; exact h
  next hh =>
  split at hs
  · cases hs
  next e he =>
  split at hs
  · next hle =>
    cases hs
    rw [Table.modify_congr he (g := fun e' => { e' with cur := e.cur - u.mode.weight }) rfl]
    refine h.move hu he (by rw [hh]; nofun) nofun ?_ (Nat.le_trans (Nat.sub_le _ _) (h.room _ e he))
    simp only [User.holds, hh, and_self, if_true]
    simp only [reduceCtorEq, and_false, if_false]
    omega
  · cases hs

/-! ## A call ends -/

theorem Inv.drop (h : Inv shard s) (hs : s.drop shard i = some s') : Inv shard s' := by
  unfold State.drop at hs
  split at hs
  · cases hs
  next u hu =>
  split at hs
  swap
  · cases hs
  next hl =>
  cases hs
  obtain ⟨e, he⟩ := h.entry i u hu
  have hg : u.phase ≠ .gone := by rw [hl]; nofun
  have hmapped := h.mapped i u hu hg
  obtain ⟨-, e', he', hpos⟩ := h.live _ _ _ hmapped
  rw [he] at he'
  cases he'
  -- the map after the step: as it was, or without the entry that has no user left
  have hshape : ∃ shards', (s.release shard u.key u.entry).setPhase i .gone =
      { shards := shards', entries := s.entries.modify u.entry fun e => { e with refs := e.refs - 1 },
        users := s.users.modify i fun u => { u with phase := .gone } } ∧
      (∀ j k id, shards' j k = some id → s.shards j k = some id ∧ (id = u.entry → e.refs - 1 ≠ 0)) ∧
      (∀ j k id, s.shards j k = some id → (id = u.entry → e.refs - 1 ≠ 0) → shards' j k = some id) := by
    unfold State.release
    simp only [Table.row_modify_at he]
    by_cases hz : e.refs - 1 = 0
    · rw [if_pos ⟨hz, hmapped⟩]
      refine ⟨_, rfl, fun j k id hid => ?_, fun j k id hid hne => ?_⟩
      · simp only [State.setShard] at hid
        split at hid
        · cases hid
        next hne =>
        refine ⟨hid, fun hidu => absurd ?_ hne⟩
        rw [hidu] at hid
        obtain ⟨hj, -⟩ := h.live j k _ hid
        have hk := h.inj j k _ _ _ hid hmapped
        exact ⟨by rw [hj, hk], hk⟩
      · simp only [State.setShard]
        rw [if_neg]
        · exact hid
        · rintro ⟨rfl, rfl⟩
          rw [hmapped] at hid
          exact hne (Option.some.inj hid).symm hz
    · rw [if_neg fun hc => hz hc.1]
      exact ⟨_, rfl, fun j k id hid => ⟨hid, fun _ => hz⟩, fun j k id hid _ => hid⟩
  obtain ⟨shards', hshape, hback, hforth⟩ := hshape
  rw [hshape]
  have t := Turn.of_modify hu he shards' (fun e => { e with refs := e.refs - 1 }) .gone
  refine h.turn t ?_ ?_ (h.room _ e he) (absurd rfl) ?_ ?_ ?_
  · rw [hu, ← h.refs _ e he]
    simp only [Option.elim_some, User.uses_self hg]
    simp only [User.uses, ne_eq, not_true_eq_false, and_false, if_false]
    omega
  · rw [hu, ← h.cur _ e he]
    simp [User.holds, hl]
  · intro j v hne hv hgone
    have hold := h.mapped j v hv hgone
    rw [hold]
    refine hforth _ _ _ hold fun heq hz => ?_
    -- another user of the entry is counted
    have htwo := Table.add_le_sum hu hv hne (User.uses u.entry)
    rw [← h.refs _ e he, User.uses_self hg, ← heq, User.uses_self hgone] at htwo
    omega
  · intro j k id hid
    obtain ⟨hid, hz⟩ := hback j k id hid
    exact t.live h hid fun heq => Nat.pos_of_ne_zero (hz heq)
  · intro j k j' k' id hid hid'
    exact h.inj j k j' k' id (hback j k id hid).1 (hback j' k' id hid').1

/-! ## All runs -/

theorem gate_inv (h : (gateMachine shard).Reachable s) : Inv shard s := by
  refine h.invariant (fun s hi => ?_) fun s a s' hk hs => ?_
  · rw [show s = {} from hi]
    exact .init
  · cases a with
    | enter key mode => cases hs; exact hk.enter key mode
    | grant i => exact hk.grant hs
    | refuse i => exact hk.refuse hs
    | giveBack i => exact hk.giveBack hs
    | drop i => exact hk.drop hs

omit [DecidableEq K] in
theorem Inv.shared (h : Inv shard s) {j : Nat} {v : User K} (hu : s.users.row i = some u)
    (hv : s.users.row j = some v) (hne : j ≠ i) (hhu : u.phase = .holding) (hhv : v.phase = .holding)
    (hk : u.key = v.key) : u.mode = .shared := by
  have hmu := h.mapped i u hu (by rw [hhu]; nofun)
  have hmv := h.mapped j v hv (by rw [hhv]; nofun)
  rw [hk, hmv] at hmu
  have hentry : v.entry = u.entry := Option.some.inj hmu
  obtain ⟨e, he⟩ := h.entry i u hu
  have htwo := Table.add_le_sum hu hv hne (User.holds u.entry)
  rw [← h.cur _ e he] at htwo
  have hroom := Nat.le_trans htwo (h.room _ e he)
  simp only [User.holds, hhu, hhv, hentry, and_self, if_true] at hroom
  cases hmode : u.mode with
  | shared => rfl
  | exclusive =>
    -- all permits and at least one more
    have hone : 1 ≤ v.mode.weight := by cases v.mode <;> decide
    rw [hmode] at hroom
    have : gateCapacity + v.mode.weight ≤ gateCapacity := hroom
    omega

/-- Whoever holds a key exclusively is the only one who holds it; an entry's semaphore has admitted what its calls
    hold; the calls that use a key share its entry; and a key without a user has none. -/
theorem gate_excludes_deletion (shard : K → Nat) {s : State K} (h : (gateMachine shard).Reachable s) :
    (∀ i j u v, s.users.row i = some u → s.users.row j = some v → i ≠ j → u.phase = .holding → v.phase = .holding →
      u.key = v.key → u.mode = .shared ∧ v.mode = .shared) ∧
    (∀ i u s', s.users.row i = some u → u.mode = .exclusive → s.grant i = some s' →
      ∀ j v, s.users.row j = some v → v.key = u.key → v.phase ≠ .holding) ∧
    (∀ id e, s.entries.row id = some e → e.cur = s.users.sum (User.holds id)) ∧
    (∀ i u, s.users.row i = some u → u.phase = .holding → (s.giveBack i).isSome = true) ∧
    (∀ i j u v, s.users.row i = some u → s.users.row j = some v → u.phase ≠ .gone → v.phase ≠ .gone → u.key = v.key →
      u.entry = v.entry) ∧
    (∀ j k, (s.shards j k).isSome = true ↔ j = shard k ∧ ∃ i u, s.users.row i = some u ∧ u.key = k ∧ u.phase ≠ .gone) := by
  have hinv := gate_inv h
  refine ⟨?_, ?_, hinv.cur, ?_, ?_, ?_⟩
  · intro i j u v hu hv hne hhu hhv hk
    exact ⟨hinv.shared hu hv (Ne.symm hne) hhu hhv hk, hinv.shared hv hu hne hhv hhu hk.symm⟩
  · intro i u s' hu hex hs j v hv hk hhv
    simp only [State.grant, hu] at hs
    split at hs
    · cases hs
    next e he =>
    split at hs
    swap
    · cases hs
    next hc =>
    -- nothing can be admitted yet, and the other call holds something of the same entry
    have hmu := hinv.mapped i u hu (by rw [hc.1]; nofun)
    have hmv := hinv.mapped j v hv (by rw [hhv]; nofun)
    rw [hk, hmu] at hmv
    have hle := hinv.weight_le hv (by rw [← Option.some.inj hmv]; exact he) hhv
    have hone : 1 ≤ v.mode.weight := by cases v.mode <;> decide
    have hroom := hc.2
    rw [hex, show Mode.exclusive.weight = gateCapacity from rfl] at hroom
    omega
  · intro i u hu hh
    obtain ⟨e, he⟩ := hinv.entry i u hu
    simp only [State.giveBack, hu, hh, he, if_pos (hinv.weight_le hu he hh)]
    rfl
  · intro i j u v hu hv hgu hgv hk
    have hmu := hinv.mapped i u hu hgu
    have hmv := hinv.mapped j v hv hgv
    rw [hk, hmv] at hmu
    exact (Option.some.inj hmu).symm
  · intro j k
    constructor
    · intro hs
      obtain ⟨id, hid⟩ := Option.isSome_iff_exists.mp hs
      obtain ⟨hj, e, he, hpos⟩ := hinv.live j k id hid
      rw [hinv.refs id e he] at hpos
      obtain ⟨i, u, hu, hp⟩ := Table.exists_of_sum_pos hpos
      unfold User.uses at hp
      split at hp
      · next hc =>
        refine ⟨hj, i, u, hu, ?_, hc.2⟩
        have hmu := hinv.mapped i u hu hc.2
        rw [hc.1] at hmu
        exact hinv.inj _ _ _ _ _ hmu hid
      · cases hp
    · rintro ⟨rfl, i, u, hu, rfl, hg⟩
      rw [hinv.mapped i u hu hg]
      rfl

/-- Two readers of key 1 and a deletion that waits for them, while key 3 is held in the same shard; one reader
    gives its permit back twice. -/
def twoReaders : List (Action Nat) :=
  [.enter 1 .shared, .enter 1 .shared, .grant 1, .grant 2, .enter 1 .exclusive, .enter 3 .exclusive, .grant 4,
   .giveBack 1, .drop 1, .giveBack 1]

def twoReadersState : State Nat := ((gateMachine fun k => k % 2).run {} twoReaders).getD {}

theorem gate_excludes_deletion_two_readers :
    (twoReadersState.entries.row 1).map (fun e => (e.refs, e.cur)) = some (2, 1) ∧ twoReadersState.grant 3 = none ∧
      ∀ id e, twoReadersState.entries.row id = some e → e.cur = twoReadersState.users.sum (User.holds id) := by
  refine ⟨by decide +kernel, ?_, (gate_excludes_deletion (fun k => k % 2)
    (Lts.Reachable.of_run_isSome (.of_init rfl) (by decide +kernel))).2.2.1⟩
  have hnone : (twoReadersState.grant 3).isNone = true := by decide +kernel
  exact Option.isNone_iff_eq_none.mp hnone

/-- **No permit is lost**: whenever nobody holds a permit of a key, any call that waits for one can have it. -/
theorem gate_progress (shard : K → Nat) {s : State K} (h : (gateMachine shard).Reachable s) {i : Nat} {u : User K}
    (hu : s.users.row i = some u) (hwait : u.phase = .waiting)
    (hfree : ∀ j v, s.users.row j = some v → v.key = u.key → v.phase ≠ .holding) : (s.grant i).isSome = true := by
  have hinv := gate_inv h
  obtain ⟨e, he⟩ := hinv.entry i u hu
  have hcur : e.cur = 0 := by
    rw [hinv.cur _ e he]
    refine Table.sum_eq_zero fun j v hv => if_neg ?_
    rintro ⟨hentry, hhold⟩
    -- a user that holds at the entry of `u` is one of its key
    have hmapped := hinv.mapped j v hv (by rw [hhold]; nofun)
    rw [hentry] at hmapped
    exact hfree j v hv (hinv.inj _ _ _ _ _ hmapped (hinv.mapped i u hu (by rw [hwait]; nofun))) hhold
  have hroom : e.cur + u.mode.weight ≤ gateCapacity := by
    rw [hcur]
    cases u.mode <;> decide
  simp [State.grant, hu, he, hwait, hroom]

def readersLeftState : State Nat := ((gateMachine fun k => k % 2).run twoReadersState [.giveBack 2]).getD {}

theorem gate_progress_readers_left :
    readersLeftState.users.row 3 = some ⟨1, .exclusive, 1, .waiting⟩ ∧ (readersLeftState.grant 3).isSome = true := by
  have hthird : readersLeftState.users.row 3 = some ⟨1, .exclusive, 1, .waiting⟩ := by decide +kernel
  have hreach : (gateMachine fun k => k % 2).Reachable readersLeftState :=
    Lts.Reachable.of_run_isSome (Lts.Reachable.of_run_isSome (.of_init rfl) (by decide +kernel)) (by decide +kernel)
  refine ⟨hthird, gate_progress _ hreach hthird rfl fun j v hv hk => ?_⟩
  have hall : ∀ j < 5, (readersLeftState.users.row j).all fun v => v.key ≠ 1 || v.phase ≠ .holding := by
    decide +kernel
  have hlt : j < 5 := Nat.lt_of_not_le fun h => by rw [readersLeftState.users.fresh j h] at hv; cases hv
  simpa [hv, hk] using hall j hlt

end SynapS3.Gate
