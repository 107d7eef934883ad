import SynapS3.Access.Tracker

/-!
# `Access.Recency` — no access is forgotten

Everything rests on what it means for an entry to be clean: its `lastPersisted` reaches its `lastAccess` only by
the acknowledgement of a write that the store answered, because `record` assigns a time later than any durable
time it is told of. A clean entry can therefore be dropped: the row of its content has its time (`Entry.Ok`).

Entries keep their content and their times never go back, and neither do the rows, so what is known of a call
stays true whatever happens before it comes back (`Call.Ok`).
-/

namespace SynapS3.Access

variable {cfg : Config}

/-! ## What the store has -/

/-- The time is durable, if the content is still there. -/
def Content.Persisted (x : Content) (t : Nat) : Prop := t ≤ x.accessedAt ∨ x.gone = true

/-- An access of the content can be written, if the content is still there. -/
def Content.Rowed (x : Content) : Prop := x.row = true ∨ x.gone = true

/-- What is durable stays durable; a file that is gone does not come back. -/
structure Content.Later (x x' : Content) : Prop where
  persisted : ∀ t, x.Persisted t → x'.Persisted t
  rowed : x.Rowed → x'.Rowed
  cached : x'.cached = true → x.cached = true
  gone : (x.gone = true → x.cached = false) → x'.gone = true → x'.cached = false

theorem Content.Later.refl (x : Content) : x.Later x := ⟨fun _ h => h, fun h => h, fun h => h, fun h => h⟩

theorem Content.later_write (x : Content) (t : Nat) (commit : Bool) : x.Later (x.write t commit) := by
  unfold Content.write
  split
  · exact .refl x
  split
  · refine ⟨fun u h => h.imp_left (fun hle => ?_), fun _ => .inl rfl, fun h => h, fun h => h⟩
    exact Nat.le_trans hle (Nat.le_max_left ..)
  · exact .refl x

variable {x : Content} {e : Entry} {now p c i : Nat} {durable : Option Nat} {rc : Bool} {s : State}
  {commit : Bool} {x' : Content} {f : Entry → Entry} {k : Call} {l : List (Nat × Nat)} {v : Nat}

theorem Content.write_persisted {t : Nat} (h : commit = true ∨ x.Rowed) :
    (x.write t commit).Persisted t ∧ (x.write t commit).Rowed := by
  unfold Content.write
  split
  · next hgone => exact ⟨.inr hgone, .inr hgone⟩
  next hgone =>
  split
  · exact ⟨.inl (Nat.le_max_right ..), .inl rfl⟩
  next hno =>
  simp only [Bool.or_eq_true, not_or, Bool.not_eq_true] at hno
  rcases h with hc | hr | hg
  · rw [hno.1] at hc; cases hc
  · rw [hno.2] at hr; cases hr
  · exact absurd hg hgone

theorem Content.later_deleteFile (x : Content) : x.Later { x with cached := false } :=
  ⟨fun _ h => h, fun h => h, fun h => (Bool.false_ne_true h).elim, fun _ _ => rfl⟩

theorem Content.later_discard (x : Content) : x.Later { x with cached := false, row := false, gone := true } :=
  ⟨fun _ _ => .inr rfl, fun _ => .inr rfl, fun h => (Bool.false_ne_true h).elim, fun _ _ => rfl⟩

/-! ## Entries and calls -/

/-- What an entry takes for durable is durable. -/
structure Entry.Ok (e : Entry) (x : Content) : Prop where
  persisted_le : e.lastPersisted ≤ e.lastAccess
  /-- What it takes for persisted is durable. -/
  durable : e.lastAccess ≤ e.lastPersisted → x.Persisted e.lastAccess
  /-- Without a commit that is required, the row is there. -/
  rowed : e.commitRequired = 0 → x.Rowed

theorem Entry.Ok.later (h : e.Ok x) (hl : x.Later x') : e.Ok x' :=
  ⟨h.persisted_le, fun hp => hl.persisted _ (h.durable hp), fun hc => hl.rowed (h.rowed hc)⟩

theorem Entry.Ok.of_clean (h : e.Ok x) (hc : e.clean = true) : x.Persisted e.lastAccess ∧ e.commitRequired = 0 := by
  simp only [Entry.clean, Bool.and_eq_true, decide_eq_true_eq, beq_iff_eq] at hc
  exact ⟨h.durable hc.1, hc.2⟩

theorem lt_nextAccessTime {inMemory : Nat} (hnow : 0 < now) :
    inMemory < nextAccessTime now inMemory durable ∧ durable.getD 0 < nextAccessTime now inMemory durable := by
  unfold nextAccessTime
  dsimp only
  split <;> omega

theorem Entry.lt_record (hnow : 0 < now) :
    e.lastAccess < (e.record cfg now durable rc).lastAccess := (lt_nextAccessTime hnow).1

theorem Entry.ok_record (hnow : 0 < now) (hle : e.lastPersisted ≤ e.lastAccess) (hrow : rc = true ∨ x.Rowed) :
    (e.record cfg now durable rc).Ok x := by
  have hmax : max e.lastPersisted (durable.getD 0) < nextAccessTime now e.lastAccess durable := by
    obtain ⟨hmem, hdur⟩ : e.lastAccess < nextAccessTime now e.lastAccess durable ∧
        durable.getD 0 < nextAccessTime now e.lastAccess durable := lt_nextAccessTime hnow
    omega
  refine ⟨Nat.le_of_lt hmax, fun hc => absurd hc (Nat.not_le.mpr hmax), fun hc => ?_⟩
  simp only [Entry.record] at hc
  split at hc
  · omega
  next hno =>
  refine hrow.resolve_left fun hrc => ?_
  subst hrc
  simp only [Bool.true_and, decide_eq_true_eq] at hno
  omega

theorem Entry.commitRequired_record :
    (e.record cfg now durable true).lastAccess ≤ (e.record cfg now durable true).commitRequired := by
  simp only [Entry.record, Bool.true_and]
  split
  · exact Nat.le_refl _
  · next hno => simpa using hno

theorem Entry.le_commitRequired_record : e.commitRequired ≤ (e.record cfg now durable rc).commitRequired := by
  simp only [Entry.record]
  split
  · next h =>
    simp only [Bool.and_eq_true, decide_eq_true_eq] at h
    exact Nat.le_of_lt h.2
  · exact Nat.le_refl _

theorem Entry.Ok.acknowledge {t : Nat} (h : e.Ok x) (ht : t ≤ e.lastAccess) (hp : x.Persisted t)
    (hr : commit = true → x.Rowed) : (e.acknowledge t commit).Ok x := by
  refine ⟨Nat.max_le.mpr ⟨h.persisted_le, ht⟩, fun hc => ?_, fun hc => ?_⟩
  · simp only [Entry.acknowledge] at hc ⊢
    rcases Nat.le_or_ge e.lastPersisted t with hle | hge
    · have heq : t = e.lastAccess := by omega
      rw [← heq]
      exact hp
    · exact h.durable (by omega)
  · simp only [Entry.acknowledge] at hc
    split at hc
    · next hcommit =>
      simp only [Bool.and_eq_true] at hcommit
      exact hr hcommit.1
    · exact h.rowed hc

def Grown (t t' : Table Entry) : Prop :=
  ∀ p e, t.row p = some e → ∃ e', t'.row p = some e' ∧ e'.content = e.content ∧ e.lastAccess ≤ e'.lastAccess

theorem Grown.refl (t : Table Entry) : Grown t t := fun _ e h => ⟨e, h, rfl, Nat.le_refl _⟩

theorem Grown.insert (t : Table Entry) (e : Entry) : Grown t (t.insert e) := by
  intro p e' h
  refine ⟨e', ?_, rfl, Nat.le_refl _⟩
  rw [Table.row_insert, if_neg (Nat.ne_of_lt (Table.lt_next h))]
  exact h

theorem Grown.modify {t : Table Entry} (h : t.row p = some e) (hc : (f e).content = e.content)
    (hle : e.lastAccess ≤ (f e).lastAccess) : Grown t (t.modify p f) := by
  intro q e' h'
  refine ⟨_, Table.row_modify_some h' p f, ?_⟩
  split
  · next hq =>
    subst hq
    rw [h] at h'
    cases h'
    exact ⟨hc, hle⟩
  · exact ⟨rfl, Nat.le_refl _⟩

/-- What is known of a call, whatever happens before it comes back. -/
structure Call.Ok (k : Call) (entries : Table Entry) (x : Content) (written : List (Nat × Nat)) : Prop where
  bound : ∀ p, k.entry = some p → ∃ e, entries.row p = some e ∧ e.content = k.content ∧ k.accessedAt ≤ e.lastAccess
  rowed : k.commit = true ∨ x.Rowed
  answered : k.stage = .answered true → x.Persisted k.accessedAt ∧ x.Rowed ∧
    (k.commit = true → (k.content, k.accessedAt) ∈ written)

theorem Call.Ok.later {t t' : Table Entry} {l' : List (Nat × Nat)} (h : k.Ok t x l) (ht : Grown t t')
    (hx : x.Later x') (hl : l ⊆ l') : k.Ok t' x' l' := by
  refine ⟨fun p hp => ?_, h.rowed.imp_right hx.rowed, fun hs => ?_⟩
  · obtain ⟨e, he, hc, hle⟩ := h.bound p hp
    obtain ⟨e', he', hc', hle'⟩ := ht p e he
    exact ⟨e', he', hc'.trans hc, Nat.le_trans hle hle'⟩
  · obtain ⟨hpers, hrow, hw⟩ := h.answered hs
    exact ⟨hx.persisted _ hpers, hx.rowed hrow, fun hc => hl (hw hc)⟩

/-! ## The invariant -/

def State.Holds (s : State) (c : Nat) (P : Entry → Prop) : Prop :=
  ∃ x ∈ s.slots, x.content = c ∧ ∃ e, s.entries.row x.entry = some e ∧ P e

/-- Every access and every required commit is in the store, or an entry of the tracker holds it. -/
structure Inv (cfg : Config) (s : State) : Prop where
  nodup : (s.slots.map (·.content)).Nodup
  slot : ∀ x ∈ s.slots, ∃ e, s.entries.row x.entry = some e ∧ e.content = x.content
  entry : ∀ p e, s.entries.row p = some e → e.Ok (s.world e.content)
  call : ∀ i k, s.calls.row i = some k → k.Ok s.entries (s.world k.content) s.written
  gone : ∀ c, (s.world c).gone = true → (s.world c).cached = false
  access : ∀ c t, (c, t) ∈ s.accesses → (s.world c).cached = true →
    s.unsafeForLRU = true ∨ t ≤ (s.world c).accessedAt ∨ s.Holds c fun e => t ≤ e.lastAccess
  commit : ∀ c t, (c, t) ∈ s.required → (s.world c).cached = true →
    (∃ t', t ≤ t' ∧ (c, t') ∈ s.written) ∨ s.Holds c fun e => t ≤ e.commitRequired
  positive : ∀ c t, (c, t) ∈ s.required → 0 < t
  bounded : 0 < cfg.maxEntriesPerShard → ∀ k, s.shardSize cfg k ≤ cfg.maxEntriesPerShard

theorem State.mem_of_entryOf (h : s.entryOf c = some p) : ∃ x ∈ s.slots, x.content = c ∧ x.entry = p := by
  obtain ⟨x, hx, rfl⟩ := Option.map_eq_some_iff.mp h
  exact ⟨x, List.mem_of_find?_eq_some hx, by simpa using List.find?_some hx, rfl⟩

theorem State.not_mem_of_entryOf (h : s.entryOf c = none) : c ∉ s.slots.map (·.content) := by
  intro hmem
  obtain ⟨x, hx, hc⟩ := List.mem_map.mp hmem
  have hnone := List.find?_eq_none.mp (Option.map_eq_none_iff.mp h) x hx
  exact hnone (by simpa using hc)

section

variable (h : Inv cfg s)
include h

theorem Inv.slot_eq {x y : Slot} (hx : x ∈ s.slots) (hy : y ∈ s.slots) (hc : x.content = y.content) : x = y :=
  List.inj_on_of_nodup_map h.nodup hx hy hc

theorem Inv.setContent (hl : (s.world c).Later x) : Inv cfg { s with world := setContent s.world c x } := by
  have hworld : ∀ d, (s.world d).Later (Access.setContent s.world c x d) := by
    intro d
    unfold Access.setContent
    split
    · next hd => rw [hd]; exact hl
    · exact .refl _
  refine ⟨h.nodup, h.slot, fun p e he => (h.entry p e he).later (hworld _),
    fun i k hk => (h.call i k hk).later (.refl _) (hworld _) (fun _ hm => hm),
    fun d => (hworld d).gone (h.gone d), fun d t hmem hcached => ?_, fun d t hmem hcached => ?_,
    h.positive, h.bounded⟩
  · rcases h.access d t hmem ((hworld d).cached hcached) with hu | hd | hm
    · exact .inl hu
    · rcases (hworld d).persisted t (.inl hd) with hd' | hg
      · exact .inr (.inl hd')
      · rw [(hworld d).gone (h.gone d) hg] at hcached
        cases hcached
    · exact .inr (.inr hm)
  · exact h.commit d t hmem ((hworld d).cached hcached)

theorem Inv.storeFile (hgone : (s.world c).gone = false) : Inv cfg { s with
      world := Access.setContent s.world c { s.world c with cached := true }
      accesses := s.accesses.filter (·.1 != c)
      required := s.required.filter (·.1 != c) } := by
  have hpers : ∀ d t, (s.world d).Persisted t →
      (Access.setContent s.world c { s.world c with cached := true } d).Persisted t := by
    intro d t hp
    unfold Access.setContent
    split
    · next hd => rw [hd] at hp; exact hp
    · exact hp
  have hrow : ∀ d, (s.world d).Rowed → (Access.setContent s.world c { s.world c with cached := true } d).Rowed := by
    intro d hr
    unfold Access.setContent
    split
    · next hd => rw [hd] at hr; exact hr
    · exact hr
  have hother : ∀ d, d ≠ c → Access.setContent s.world c { s.world c with cached := true } d = s.world d := by
    intro d hd
    unfold Access.setContent
    exact if_neg hd
  refine ⟨h.nodup, h.slot, fun p e he => ?_, fun i k hk => ?_, fun d hg => ?_, fun d t hmem hcached => ?_,
    fun d t hmem hcached => ?_, fun d t hmem => h.positive d t (List.mem_of_mem_filter hmem), h.bounded⟩
  · have he' := h.entry p e he
    exact ⟨he'.persisted_le, fun hc => hpers _ _ (he'.durable hc), fun hc => hrow _ (he'.rowed hc)⟩
  · have hk' := h.call i k hk
    refine ⟨hk'.bound, hk'.rowed.imp_right (hrow _), fun hs => ?_⟩
    obtain ⟨hp, hr, hw⟩ := hk'.answered hs
    exact ⟨hpers _ _ hp, hrow _ hr, hw⟩
  · by_cases hd : d = c
    · subst hd
      simp only [Access.setContent, if_pos] at hg
      rw [hgone] at hg
      cases hg
    · dsimp only at hg ⊢
      rw [hother d hd] at hg ⊢
      exact h.gone d hg
  · simp only [List.mem_filter, bne_iff_ne, ne_eq] at hmem
    dsimp only at hcached ⊢
    rw [hother d hmem.2] at hcached ⊢
    exact h.access d t hmem.1 hcached
  · simp only [List.mem_filter, bne_iff_ne, ne_eq] at hmem
    dsimp only at hcached
    rw [hother d hmem.2] at hcached
    exact h.commit d t hmem.1 hcached

theorem Inv.removeSlot (hc : (s.world c).cached = false ∨ s.Holds c fun e => e.clean = true) :
    Inv cfg (s.removeSlot c) := by
  have hkeep : ∀ d P, s.Holds d P → d ≠ c → (s.removeSlot c).Holds d P := by
    rintro d P ⟨x, hx, hd, e, he, hP⟩ hne
    refine ⟨x, List.mem_filter.mpr ⟨hx, ?_⟩, hd, e, he, hP⟩
    simpa [hd] using hne
  -- the entry that is dropped is the one that was seen to be clean
  have hdrop : ∀ P, (s.world c).cached = true → s.Holds c P →
      ∃ e, P e ∧ e.lastAccess ≤ (s.world c).accessedAt ∧ e.commitRequired = 0 := by
    rintro P hcached ⟨x, hx, hxc, e, he, hP⟩
    rcases hc with hun | ⟨y, hy, hyc, e', he', hclean⟩
    · rw [hun] at hcached; cases hcached
    have hxy := h.slot_eq hx hy (hxc.trans hyc.symm)
    subst hxy
    rw [he] at he'
    cases he'
    obtain ⟨e₀, he₀, hcontent⟩ := h.slot x hx
    rw [he] at he₀
    cases he₀
    have hok := (h.entry _ e he).of_clean hclean
    rw [hcontent, hxc] at hok
    refine ⟨e, hP, hok.1.resolve_right fun hg => ?_, hok.2⟩
    rw [h.gone c hg] at hcached
    cases hcached
  refine ⟨?_, fun x hx => h.slot x (List.mem_of_mem_filter hx), h.entry, h.call, h.gone, fun d t hmem hcached => ?_,
    fun d t hmem hcached => ?_, h.positive, fun hpos k => ?_⟩
  · exact h.nodup.sublist (List.filter_sublist.map _)
  · rcases h.access d t hmem hcached with hu | hd | hm
    · exact .inl hu
    · exact .inr (.inl hd)
    · by_cases hdc : d = c
      · subst hdc
        obtain ⟨e, hle, hdur, -⟩ := hdrop _ hcached hm
        exact .inr (.inl (Nat.le_trans hle hdur))
      · exact .inr (.inr (hkeep d _ hm hdc))
  · rcases h.commit d t hmem hcached with hw | hm
    · exact .inl hw
    · by_cases hdc : d = c
      · subst hdc
        obtain ⟨e, hle, -, hzero⟩ := hdrop _ hcached hm
        rw [hzero] at hle
        exact absurd hle (Nat.not_le.mpr (h.positive _ t hmem))
      · exact .inr (hkeep d _ hm hdc)
  · refine Nat.le_trans ?_ (h.bounded hpos k)
    exact List.Sublist.countP_le List.filter_sublist

/-! ## Steps of the tracker -/

theorem Inv.modifyEntry (he : s.entries.row p = some e) (hcontent : (f e).content = e.content)
    (hle : e.lastAccess ≤ (f e).lastAccess) (hok : (f e).Ok (s.world e.content))
    (hcommit : ∀ t, 0 < t → t ≤ e.commitRequired → t ≤ (f e).commitRequired ∨ ∃ t', t ≤ t' ∧ (e.content, t') ∈ s.written) :
    Inv cfg { s with entries := s.entries.modify p f } := by
  have hgrown := Grown.modify he hcontent hle
  refine ⟨h.nodup, fun x hx => ?_, fun q e' he' => ?_,
    fun i k hk => (h.call i k hk).later hgrown (.refl _) (fun _ hm => hm), h.gone, fun d t hmem hcached => ?_,
    fun d t hmem hcached => ?_, h.positive, h.bounded⟩
  · obtain ⟨e₀, he₀, hc₀⟩ := h.slot x hx
    obtain ⟨e', he', hc', -⟩ := hgrown _ _ he₀
    exact ⟨e', he', hc'.trans hc₀⟩
  · rcases Table.row_modify_cases he' with ⟨rfl, e₀, he₀, rfl⟩ | ⟨-, he'⟩
    · rw [he] at he₀
      cases he₀
      rw [hcontent]
      exact hok
    · exact h.entry q e' he'
  · refine (h.access d t hmem hcached).imp_right (Or.imp_right ?_)
    rintro ⟨x, hx, hd, e₀, he₀, hle₀⟩
    obtain ⟨e', he', -, hle'⟩ := hgrown _ _ he₀
    exact ⟨x, hx, hd, e', he', Nat.le_trans hle₀ hle'⟩
  · rcases h.commit d t hmem hcached with hw | ⟨x, hx, hd, e₀, he₀, hle₀⟩
    · exact .inl hw
    · by_cases hxp : x.entry = p
      · obtain ⟨e₁, he₁, hc₁⟩ := h.slot x hx
        rw [he₀] at he₁
        cases he₁
        rw [hxp, he] at he₀
        cases he₀
        rcases hcommit t (h.positive d t hmem) hle₀ with hle' | hw
        · exact .inr ⟨x, hx, hd, f e, by rw [hxp]; exact Table.row_modify_at he f, hle'⟩
        · rw [hc₁, hd] at hw
          exact .inl hw
      · refine .inr ⟨x, hx, hd, e₀, ?_, hle₀⟩
        rw [Table.row_modify, if_neg hxp]
        exact he₀

theorem Inv.newSlot (hnone : s.entryOf e.content = none) (hfull : s.full cfg e.content = false)
    (hok : e.Ok (s.world e.content)) :
    Inv cfg { s with entries := s.entries.insert e, slots := ⟨e.content, s.entries.next⟩ :: s.slots } := by
  have hgrown := Grown.insert s.entries e
  have hkeep : ∀ d P, s.Holds d P → State.Holds
      { s with entries := s.entries.insert e, slots := ⟨e.content, s.entries.next⟩ :: s.slots } d P := by
    rintro d P ⟨x, hx, hd, e₀, he₀, hP⟩
    refine ⟨x, List.mem_cons_of_mem _ hx, hd, e₀, ?_, hP⟩
    show (s.entries.insert e).row x.entry = some e₀
    rw [Table.row_insert, if_neg (Nat.ne_of_lt (Table.lt_next he₀))]
    exact he₀
  refine ⟨?_, fun x hx => ?_, fun q e' he' => ?_,
    fun i k hk => (h.call i k hk).later hgrown (.refl _) (fun _ hm => hm), h.gone, fun d t hmem hcached => ?_,
    fun d t hmem hcached => ?_, h.positive, fun hpos k => ?_⟩
  · exact List.nodup_cons.mpr ⟨State.not_mem_of_entryOf hnone, h.nodup⟩
  · rcases List.mem_cons.mp hx with rfl | hx
    · exact ⟨e, by simp, rfl⟩
    · obtain ⟨e₀, he₀, hc₀⟩ := h.slot x hx
      obtain ⟨e', he', hc', -⟩ := hgrown _ _ he₀
      exact ⟨e', he', hc'.trans hc₀⟩
  · rcases Table.row_insert_cases he' with ⟨-, rfl⟩ | ⟨-, he'⟩
    · exact hok
    · exact h.entry q e' he'
  · exact (h.access d t hmem hcached).imp_right (Or.imp_right (hkeep d _))
  · exact (h.commit d t hmem hcached).imp_right (hkeep d _)
  · have hold := h.bounded hpos k
    simp only [State.full, Bool.and_eq_false_iff, decide_eq_false_iff_not, not_lt, not_le] at hfull
    simp only [State.shardSize, List.countP_cons] at hold hfull ⊢
    split
    · next hk =>
      have heq : cfg.shard e.content = k := by simpa using hk
      rw [heq] at hfull
      omega
    · exact hold

theorem Inv.newCall (hk : k.Ok s.entries (s.world k.content) s.written) :
    Inv cfg { s with calls := s.calls.insert k } := by
  refine { h with call := fun i k' hk' => ?_ }
  rcases Table.row_insert_cases hk' with ⟨-, rfl⟩ | ⟨-, hk'⟩
  · exact hk
  · exact h.call i k' hk'

theorem Inv.setStage {stage : Stage} (hs : stage ≠ .answered true) : Inv cfg (s.setStage i stage) := by
  refine { h with call := fun j k' hk' => ?_ }
  rcases Table.row_modify_cases hk' with ⟨rfl, k, hk, rfl⟩ | ⟨-, hk'⟩
  · have hok := h.call j k hk
    exact ⟨hok.bound, hok.rowed, fun hst => absurd hst hs⟩
  · exact h.call j k' hk'

theorem Inv.recorded {sp : Bool} (hslot : ⟨c, p⟩ ∈ s.slots) (he : s.entries.row p = some e)
    (hpos : 0 < e.lastAccess) (hrc : rc = true → e.lastAccess ≤ e.commitRequired) :
    Inv cfg (s.recorded c p e rc sp) := by
  obtain ⟨e₀, he₀, hcontent⟩ := h.slot _ hslot
  rw [he] at he₀
  cases he₀
  have hlog : Inv cfg { s with
      accesses := (c, e.lastAccess) :: s.accesses
      required := if rc then (c, e.lastAccess) :: s.required else s.required } := by
    refine { h with
      access := fun d t hmem hcached => ?_, commit := fun d t hmem hcached => ?_, positive := fun d t hmem => ?_ }
    · rcases List.mem_cons.mp hmem with heq | hmem
      · cases heq
        exact .inr (.inr ⟨_, hslot, rfl, e, he, Nat.le_refl _⟩)
      · exact h.access d t hmem hcached
    · dsimp only at hmem
      split at hmem
      · next hrc' =>
        rcases List.mem_cons.mp hmem with heq | hmem
        · cases heq
          exact .inr ⟨_, hslot, rfl, e, he, hrc hrc'⟩
        · exact h.commit d t hmem hcached
      · exact h.commit d t hmem hcached
    · dsimp only at hmem
      split at hmem
      · rcases List.mem_cons.mp hmem with heq | hmem
        · cases heq
          exact hpos
        · exact h.positive d t hmem
      · exact h.positive d t hmem
  unfold State.recorded
  cases sp with
  | false => exact hlog
  | true =>
    refine hlog.newCall ⟨fun q hq => ?_, ?_, nofun⟩
    · cases hq
      exact ⟨e, he, hcontent, Nat.le_refl _⟩
    · by_cases hz : e.commitRequired = 0
      · have hrow := (h.entry p e he).rowed hz
        rw [hcontent] at hrow
        exact .inr hrow
      · exact .inl (by simpa using hz)

end

variable {s s' : State} {c now : Nat} {durable : Option Nat} {rc : Bool}

theorem Inv.touch (h : Inv cfg s) (hp : s.entryOf c = some p) (hnow : 0 < now)
    (hrow : rc = true ∨ (s.world c).Rowed) (hs : s.touch cfg c p now durable rc = some s') : Inv cfg s' := by
  obtain ⟨x, hx, rfl, rfl⟩ := State.mem_of_entryOf hp
  obtain ⟨e, he, hcontent⟩ := h.slot x hx
  simp only [State.touch, he, Option.some.injEq] at hs
  subst hs
  have hlt : e.lastAccess < (e.record cfg now durable rc).lastAccess := Entry.lt_record hnow
  have hok : (e.record cfg now durable rc).Ok (s.world e.content) :=
    Entry.ok_record hnow (h.entry _ e he).persisted_le (by rw [hcontent]; exact hrow)
  have hmod := h.modifyEntry (f := fun _ => e.record cfg now durable rc) he rfl (Nat.le_of_lt hlt) hok
    fun t _ hle => .inl (Nat.le_trans hle Entry.le_commitRequired_record)
  refine hmod.recorded hx (Table.row_modify_at he _) (by omega) fun hrc => ?_
  subst hrc
  exact Entry.commitRequired_record

theorem Inv.touchNew (h : Inv cfg s) (hnone : s.entryOf c = none) (hfull : s.full cfg c = false) (hnow : 0 < now)
    (hrow : rc = true ∨ (s.world c).Rowed) : Inv cfg (s.touchNew cfg c now durable rc) := by
  have hok : ((Entry.mk c 0 0 0 0 0).record cfg now durable rc).Ok (s.world c) :=
    Entry.ok_record hnow (Nat.le_refl _) hrow
  have hnew := h.newSlot (e := (Entry.mk c 0 0 0 0 0).record cfg now durable rc) hnone hfull hok
  refine hnew.recorded List.mem_cons_self (by simp) ?_ fun hrc => ?_
  · exact Nat.lt_of_le_of_lt (Nat.zero_le _) (Entry.lt_record hnow)
  · subst hrc
    exact Entry.commitRequired_record

theorem Inv.overflow (h : Inv cfg s) (hrow : rc = true ∨ (s.world c).Rowed) :
    Inv cfg (s.overflow c now durable rc) :=
  h.newCall ⟨nofun, hrow, nofun⟩

theorem State.mayEvict_clean (hv : s.mayEvict cfg c (some v) = true) : s.Holds v fun e => e.clean = true := by
  simp only [State.mayEvict, List.any_eq_true, Bool.and_eq_true, beq_iff_eq] at hv
  obtain ⟨x, hx, hxv, -⟩ := hv
  simp only [State.cleanSlots, State.cleanSlot, List.mem_filter, Bool.and_eq_true, Option.any_eq_true] at hx
  obtain ⟨hmem, -, e, he, hclean⟩ := hx
  exact ⟨x, hmem, hxv, e, he, hclean⟩

theorem State.entryOf_removeSlot (hnone : s.entryOf c = none) : (s.removeSlot v).entryOf c = none := by
  rw [State.entryOf, Option.map_eq_none_iff, List.find?_eq_none] at hnone ⊢
  exact fun x hx => hnone x (List.mem_of_mem_filter hx)

theorem Inv.record {victim : Option Nat} (h : Inv cfg s) (hs : s.record cfg c now durable rc victim = some s') :
    Inv cfg s' := by
  unfold State.record at hs
  split at hs
  swap
  · cases hs
  next hpre =>
  have hrow : rc = true ∨ (s.world c).Rowed := hpre.2
  split at hs
  · next p hp => exact h.touch hp hpre.1 hrow hs
  next hnone =>
  split at hs
  · next hfull =>
    cases hs
    exact h.touchNew hnone hfull hpre.1 hrow
  split at hs
  · cases hs
  · cases hs
    exact h.overflow hrow
  · next v hv =>
    have hremoved := h.removeSlot (.inr (State.mayEvict_clean hv))
    dsimp only at hs
    split at hs
    · cases hs
      exact hremoved.overflow hrow
    · next hfull =>
      cases hs
      exact hremoved.touchNew (State.entryOf_removeSlot hnone) (by simpa using hfull) hpre.1 hrow

theorem Inv.flush {force : Bool} (h : Inv cfg s) (hs : s.flush cfg c now force = some s') : Inv cfg s' := by
  unfold State.flush at hs
  split at hs
  · cases hs
    exact h
  next p hp =>
  obtain ⟨x, hx, rfl, rfl⟩ := State.mem_of_entryOf hp
  obtain ⟨e, he, hcontent⟩ := h.slot x hx
  simp only [he] at hs
  have hrow : (e.commitRequired != 0) = true ∨ (s.world x.content).Rowed := by
    by_cases hz : e.commitRequired = 0
    · exact .inr (by rw [← hcontent]; exact (h.entry _ e he).rowed hz)
    · exact .inl (by simpa using hz)
  split at hs
  · cases hs
    have hok := h.entry _ e he
    have hmod := h.modifyEntry (f := fun e => { e with lastAttempt := now }) he rfl (Nat.le_refl _)
      ⟨hok.persisted_le, hok.durable, hok.rowed⟩ fun t _ hle => .inl hle
    refine hmod.newCall ⟨fun q hq => ?_, hrow, nofun⟩
    cases hq
    exact ⟨_, Table.row_modify_at he _, hcontent, Nat.le_refl _⟩
  · cases hs
    refine h.newCall ⟨fun q hq => ?_, hrow, nofun⟩
    cases hq
    exact ⟨e, he, hcontent, Nat.le_refl _⟩

theorem Inv.written (h : Inv cfg s) (hl : s.written ⊆ l) : Inv cfg { s with written := l } := by
  refine { h with
    call := fun i k hk => (h.call i k hk).later (.refl _) (.refl _) hl
    commit := fun d t hmem hcached => ?_ }
  refine (h.commit d t hmem hcached).imp_left ?_
  rintro ⟨t', hle, hmem'⟩
  exact ⟨t', hle, hl hmem'⟩

theorem Inv.answer {outcome : Tx.Outcome} (h : Inv cfg s) (hs : s.answer i outcome = some s') : Inv cfg s' := by
  unfold State.answer at hs
  split at hs
  · cases hs
  next k hk =>
  split at hs
  swap
  · cases hs
  have hok := h.call i k hk
  have hlater : (s.world k.content).Later
      (if outcome = .failed then s.world k.content else (s.world k.content).write k.accessedAt k.commit) := by
    split
    · exact .refl _
    · exact Content.later_write ..
  have hworld := h.setContent hlater
  have hsub : s.written ⊆
      (if outcome = .ok ∧ k.commit = true then (k.content, k.accessedAt) :: s.written else s.written) := by
    split
    · exact List.subset_cons_self ..
    · exact fun _ hm => hm
  have hwritten := hworld.written hsub
  cases hs
  refine { hwritten with call := fun j k' hk' => ?_ }
  rcases Table.row_modify_cases hk' with ⟨rfl, k₀, hk₀, rfl⟩ | ⟨-, hk'⟩
  · rw [hk] at hk₀
    cases hk₀
    have hold := hwritten.call j k hk
    refine ⟨hold.bound, hold.rowed, fun hst => ?_⟩
    have houtcome : outcome = .ok := by simpa using hst
    subst houtcome
    have hdone := Content.write_persisted (t := k.accessedAt) hok.rowed
    simp only [Access.setContent, if_pos, reduceCtorEq, if_false]
    refine ⟨hdone.1, hdone.2, fun hc => ?_⟩
    rw [if_pos ⟨trivial, hc⟩]
    exact List.mem_cons_self
  · exact hwritten.call j k' hk'

theorem Inv.settle (h : Inv cfg s) (hs : s.settle i = some s') : Inv cfg s' := by
  unfold State.settle at hs
  split at hs
  · cases hs
  next k hk =>
  have hok := h.call i k hk
  split at hs
  · -- an overflow write: durable, or the tracker is not safe any more
    next ok hstage _ =>
    cases hs
    refine Inv.setStage ?_ nofun
    refine { h with access := fun d t hmem hcached => ?_ }
    rcases List.mem_cons.mp hmem with heq | hmem
    · cases heq
      cases ok with
      | false => exact .inl (by simp)
      | true =>
        refine .inr (.inl ((hok.answered hstage).1.resolve_right fun hg => ?_))
        rw [h.gone _ hg] at hcached
        cases hcached
    · exact (h.access d t hmem hcached).imp_left fun hu => by simp [hu]
  · cases hs
    exact h.setStage nofun
  · next p hstage hentry =>
    cases hs
    obtain ⟨hpers, hrow, hw⟩ := hok.answered hstage
    refine Inv.setStage ?_ (by split <;> nofun)
    split
    · obtain ⟨e, he, hcontent, hle⟩ := hok.bound p hentry
      refine h.modifyEntry he rfl (Nat.le_refl _) ?_ fun t _ hle' => ?_
      · refine (h.entry p e he).acknowledge hle ?_ fun _ => ?_
        · rw [hcontent]; exact hpers
        · rw [hcontent]; exact hrow
      · simp only [Entry.acknowledge]
        split
        · next hc =>
          simp only [Bool.and_eq_true, decide_eq_true_eq] at hc
          exact .inr ⟨k.accessedAt, Nat.le_trans hle' hc.2, by rw [hcontent]; exact hw hc.1⟩
        · exact .inl hle'
    · exact h
  · cases hs

theorem Inv.retire (h : Inv cfg s) (hs : s.retire cfg i = some s') : Inv cfg s' := by
  unfold State.retire at hs
  split at hs
  · cases hs
  next k hk =>
  split at hs
  swap
  · cases hs
  next p flushed hstage hentry _ =>
  split at hs
  · cases hs
  next e he =>
  cases hs
  refine Inv.setStage ?_ nofun
  split
  · next hcond =>
    obtain ⟨x, hx, hxc, rfl⟩ := State.mem_of_entryOf hcond.1
    exact h.removeSlot (.inr ⟨x, hx, hxc, e, he, hcond.2.1⟩)
  · exact h

/-! ## Runs -/

theorem Inv.step {a : Action} (h : Inv cfg s) (hs : a.step cfg s = some s') : Inv cfg s' := by
  cases a with
  | record c now durable rc victim => exact h.record hs
  | flush c now force => exact h.flush hs
  | answer i outcome => exact h.answer hs
  | settle i => exact h.settle hs
  | retire i => exact h.retire hs
  | forget c =>
    simp only [Action.step, Option.ite_none_right_eq_some, Option.some.injEq] at hs
    obtain ⟨hcached, rfl⟩ := hs
    exact h.removeSlot (.inl hcached)
  | deleteFile c => cases hs; exact h.setContent (Content.later_deleteFile _)
  | storeFile c =>
    simp only [Action.step, Option.ite_none_right_eq_some, Option.some.injEq] at hs
    obtain ⟨hpre, rfl⟩ := hs
    exact h.storeFile hpre.2
  | advance c t => cases hs; exact h.setContent (Content.later_write ..)
  | discard c => cases hs; exact h.setContent (Content.later_discard _)

theorem Inv.of_reachable (h : (trackerMachine cfg).Reachable s) : Inv cfg s := by
  refine h.invariant ?_ (fun _ _ _ hi hs => hi.step hs)
  rintro _ ⟨world, hgone, rfl⟩
  exact ⟨List.nodup_nil, nofun, nofun, nofun, hgone, nofun, nofun, nofun, fun _ _ => Nat.zero_le _⟩

def State.latest (s : State) (c : Nat) : Nat := (((s.entryOf c).bind s.entries.row).map (·.lastAccess)).getD 0

/-- The requirement of a commit that is unfinished in memory. -/
def State.commitRequired (s : State) (c : Nat) : Nat :=
  (((s.entryOf c).bind s.entries.row).map (·.commitRequired)).getD 0

theorem Inv.holds_entryOf {P : Entry → Prop} (h : Inv cfg s) (hm : s.Holds c P) :
    ∃ e, (s.entryOf c).bind s.entries.row = some e ∧ P e := by
  obtain ⟨x, hx, hxc, e, he, hP⟩ := hm
  refine ⟨e, ?_, hP⟩
  cases hf : s.entryOf c with
  | none => exact absurd (List.mem_map.mpr ⟨x, hx, hxc⟩) (State.not_mem_of_entryOf hf)
  | some p =>
    obtain ⟨y, hy, hyc, rfl⟩ := State.mem_of_entryOf hf
    rw [h.slot_eq hy hx (hyc.trans hxc.symm)]
    exact he

/-- **No access is forgotten**: each access recorded for a cached file is covered by the time in memory or the durable
    one, unless the tracker has declared itself unsafe; a commit that was required is required still or was written;
    and no shard has too many entries. -/
theorem accesses_kept (h : (trackerMachine cfg).Reachable s) :
    (∀ c t, (s.world c).cached = true → (c, t) ∈ s.accesses →
      s.unsafeForLRU = true ∨ t ≤ max (s.latest c) (s.world c).accessedAt) ∧
    (∀ c t, (s.world c).cached = true → (c, t) ∈ s.required →
      t ≤ s.commitRequired c ∨ ∃ t', t ≤ t' ∧ (c, t') ∈ s.written) ∧
    (0 < cfg.maxEntriesPerShard → ∀ k, s.shardSize cfg k ≤ cfg.maxEntriesPerShard) := by
  have hinv := Inv.of_reachable h
  refine ⟨fun c t hcached hmem => ?_, fun c t hcached hmem => ?_, hinv.bounded⟩
  · rcases hinv.access c t hmem hcached with hu | hd | hm
    · exact .inl hu
    · exact .inr (Nat.le_trans hd (Nat.le_max_right ..))
    · obtain ⟨e, he, hle⟩ := hinv.holds_entryOf hm
      refine .inr (Nat.le_trans ?_ (Nat.le_max_left ..))
      rw [State.latest, he]
      exact hle
  · rcases hinv.commit c t hmem hcached with hw | hm
    · exact .inr hw
    · obtain ⟨e, he, hle⟩ := hinv.holds_entryOf hm
      refine .inl ?_
      rw [State.commitRequired, he]
      exact hle

def oneEntry : Config := ⟨10, 20, 1, fun _ => 0⟩

def twoFiles : State where
  world c := if c = 1 ∨ c = 2 then { cached := true, row := true } else {}

/-- The first content is read twice and its entry written; the second displaces it, cannot be written, and the
    first goes past the full shard to the store. -/
def displacedRun : List Action :=
  [.record 1 100 none false none, .record 1 100 none false none, .flush 1 200 true, .answer 2 .ok, .settle 2,
    .answer 1 .ok, .settle 1, .record 2 300 none true (some 1), .answer 3 .failed, .settle 3,
    .record 1 100 (some 101) false none, .answer 4 .ok, .settle 4]

def displacedState : State := ((trackerMachine oneEntry).run twoFiles displacedRun).getD twoFiles

theorem twoFiles_reachable : (trackerMachine oneEntry).Reachable twoFiles := by
  refine .of_init ⟨_, fun c hg => ?_, rfl⟩
  split at hg <;> cases hg

theorem displacedState_reachable : (trackerMachine oneEntry).Reachable displacedState :=
  twoFiles_reachable.of_run_isSome (by decide +kernel)

/-- The accesses of a displaced content, and a commit that its store refused. -/
theorem accesses_kept_displaced : (trackerMachine oneEntry).Reachable displacedState ∧
      displacedState.accesses = [(1, 102), (2, 300), (1, 101), (1, 100)] ∧ displacedState.latest 1 = 0 ∧
      displacedState.unsafeForLRU = false ∧ 102 ≤ max (displacedState.latest 1) (displacedState.world 1).accessedAt ∧
      300 ≤ displacedState.commitRequired 2 := by
  have hkept := accesses_kept displacedState_reachable
  refine ⟨displacedState_reachable, by decide +kernel, by decide +kernel, by decide +kernel, ?_, ?_⟩
  · exact (hkept.1 1 102 (by decide +kernel) (by decide +kernel)).resolve_left (by decide +kernel)
  · refine (hkept.2.1 2 300 (by decide +kernel) (by decide +kernel)).resolve_right ?_
    rintro ⟨t', -, hmem⟩
    rw [show displacedState.written = [] by decide +kernel] at hmem
    cases hmem

/-- A commit that the store refused, and then the file is deleted. -/
def refusedRun : List Action := [.record 1 100 none true none, .answer 1 .failed, .settle 1, .deleteFile 1]

def refusedState : State := ((trackerMachine oneEntry).run twoFiles refusedRun).getD twoFiles

/-- `Forget` drops what the file that it follows left behind, an unfinished commit too. -/
theorem forget_drops_requirement :
    (trackerMachine oneEntry).Reachable refusedState ∧ refusedState.commitRequired 1 = 100 ∧
      ∃ s', (trackerMachine oneEntry).step refusedState (.forget 1) = some s' ∧ s'.commitRequired 1 = 0 ∧
        s'.written = [] :=
  ⟨twoFiles_reachable.of_run_isSome (by decide +kernel), by decide +kernel, refusedState.removeSlot 1, rfl,
    by decide +kernel, by decide +kernel⟩

end SynapS3.Access
