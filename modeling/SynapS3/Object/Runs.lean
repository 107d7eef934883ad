import SynapS3.Object.Remove

/-!
# `Object.Runs` — every request, any number at a time

The machine starts any requests at any time, in sessions of their own that interleave statement by statement.
-/

namespace SynapS3.Object

open ReadCommitted

variable {κ : Type} [DecidableEq κ]

def Request.isWrite : Request κ → Bool
  | .write _ _ _ | .deleteMarker _ _ _ => true
  | _ => false

/-- The requests that may be started: those that name versions that exist, and only writes if `writes`. -/
def startable (writes : Bool) (b : Request κ) (s : ObjectShared κ) : Bool :=
  b.named s && (!writes || b.isWrite)

def emptyTables (s : ObjectShared κ) : Prop := s.rows = (fun _ => none) ∧ s.ghost = {}

variable [VersionIDs]

/-- The machine: any requests, or only writes if `writes`, in the runs that meet the condition on delete
    markers if `strict`. -/
def objectMachine (κ : Type) [DecidableEq κ] (strict writes : Bool) :=
  machine (allowed strict) (emptyTables (κ := κ)) program (startable writes)

variable {strict writes : Bool} {x : ObjectSnap κ} {s : ObjectShared κ} {n : Nat} {F : ObjectShared κ → Prop}
  {op : OpKind} {k : κ}

theorem inv_of_empty (h : emptyTables s) : Inv strict writes s := by
  obtain ⟨hrows, hghost⟩ := h
  have hlog : s.ghost.log = [] := by rw [hghost]
  have hanswered : s.ghost.answered = [] := by rw [hghost]
  refine ⟨fun k => ?_, fun n v hv => ?_, fun k => ?_, ?_, ?_, ?_, ?_, ?_, ?_⟩
  · exact (emptied_inv (by rw [hrows]) fun n w _ => by rw [hrows]; exact nofun).1
  · rw [hrows] at hv; cases hv
  · rw [hlog, selectCurrent_none (by rw [hrows])]; rfl
  · rw [hlog]; exact nofun
  · rw [hlog]; exact List.nodup_nil
  · rw [hanswered]; exact nofun
  · rw [hlog]; exact nofun
  · rw [hlog]; exact fun _ => nofun
  · intro _ pre e post h
    rw [hlog] at h
    exact absurd h.symm (by simp)

def Told (n : Nat) (r : Except (Fault Refusal) (Version κ)) (y : ObjectSnap κ) : Prop :=
  ∀ v, r = .ok v → ∃ e ∈ y.ghost.log, e.published = some n

theorem Inv.answer (h : Inv strict writes s) (hn : ∃ e ∈ s.ghost.log, e.published = some n) :
    Inv strict writes { s with ghost := Record.answer n s.ghost } := by
  refine ⟨h.keys, h.rows, ⟨h.log.current, h.log.used, h.log.once, fun m hm => ?_, h.log.live, h.log.kinds,
    h.log.conditions⟩⟩
  rcases List.mem_cons.mp hm with rfl | hm
  · exact hn
  · exact h.log.answered m hm

theorem holds_publishing (hF : ∀ s t, Guar writes s t → F s → F t)
    {publish : Nat → ObjectSession κ (Except (Fault Refusal) (Version κ))}
    (h : ∀ n (y : ObjectSnap κ), y.Idle → n < y.seq → F y.toShared →
      Holds (contract strict writes) (allowed strict) (Told n) (publish n) y)
    (hx : x.Idle) (hFx : F x.toShared) :
    Holds (contract strict writes) (allowed strict) (fun _ _ => True) (publishing publish) x := by
  intro y hy hc hi o a z hz _
  have hidle : y.Idle := hx.later hy hc
  cases o with
  | fail why => cases hz; exact ⟨.of_shared rfl hi, trivial⟩
  | lost => cases hz
  | go tick =>
    cases hz
    obtain ⟨hinv, hguar⟩ := (contract strict writes).tick y.toShared y.clock (y.seq + 1) (le_refl _)
      (Nat.le_succ _) hi
    refine ⟨.of_rows rfl hinv hguar, ?_⟩
    have hbegin : ({ y with seq := y.seq + 1 } : ObjectSnap κ).Idle := ⟨hidle.held, hidle.pinned, hidle.view⟩
    refine Holds.bind (Holds.mono (h y.seq _ hbegin (Nat.lt_succ_self _) (hF _ _ hguar (hF _ _ hy.guar hFx)))
      fun r u hr => ?_)
    match r, hr with
    | .error e, _ => trivial
    | .ok v, hr =>
      intro w hw _ hiw o' b w' hw' _
      obtain ⟨e, he, hpub⟩ := hr v rfl
      have hlater : ∃ e ∈ w.ghost.log, e.published = some y.seq :=
        ⟨e, (show Guar writes _ _ from hw.guar).log.subset he, hpub⟩
      cases o' with
      | fail why => cases hw'; exact ⟨.of_shared rfl hiw, trivial⟩
      | lost => cases hw'
      | go tick' =>
        cases hw'
        refine ⟨.of_rows rfl (Inv.answer hiw hlater) ?_, trivial⟩
        exact ⟨List.prefix_refl _, fun _ h => h, fun _ _ _ h => h, fun _ _ h => h, le_refl _, le_refl _⟩

theorem Done.kept_told {conditions : List (Option (ObjectCondition κ))} {v : Version κ} {y z : ObjectSnap κ}
    (h : Done strict writes ⟨op, k, some n, conditions, some v⟩ y) (hl : Later (contract strict writes) y z)
    (hc : z.Coherent) (hi : Inv strict writes z.toShared) :
    Kept (contract strict writes) z (z.committed (Record.commit ⟨op, k, some n, conditions, some v⟩)) ∧
      Told n (.ok v) (z.committed (Record.commit ⟨op, k, some n, conditions, some v⟩)) :=
  ⟨h.kept hl hc hi, fun _ _ => ⟨_, List.mem_concat_self, rfl⟩⟩

theorem holds_moving (hF : ∀ s t, Guar writes s t → F s → F t) {tries : Nat}
    {body : ObjectSql κ (Option (Option (Version κ)))}
    (h : ∀ y : ObjectSnap κ, y.Idle → F y.toShared →
      Body (contract strict writes) (allowed strict) (fun r z => Moved strict writes op k r z) body y)
    (hx : x.Idle) (hFx : F x.toShared) :
    Holds (contract strict writes) (allowed strict) (fun _ _ => True) (moving op k [] tries body) x := by
  refine Holds.bind (Holds.mono (Holds.retrying (Q := fun _ _ => True) hF h (fun _ _ _ => trivial)
    (fun r y hr z hl hc hi _ => ⟨?_, trivial⟩) tries hx hFx) fun _ _ _ => trivial)
  match r, hr with
  | some after, hr =>
    obtain ⟨base, target, he, hm⟩ := hr
    exact (he.later hl hc).kept_commit hi hm
  | none, hr =>
    obtain ⟨base, target, he, hinv, hcurrent, hobject⟩ := hr
    exact (he.later hl hc).kept_same hi hinv hcurrent hobject

theorem holds_program (b : Request κ) (hb : startable writes b x.toShared = true) (hx : x.Idle) :
    Holds (contract strict writes) (allowed strict) (fun _ _ => True) (program b) x := by
  obtain ⟨hnamed, hkind⟩ : b.named x.toShared = true ∧ (writes = false ∨ b.isWrite = true) := by
    simpa [startable] using hb
  have hused : ∀ n, ∀ s t : ObjectShared κ, Guar writes s t → (s.rows (.version n)).isSome = true →
      (t.rows (.version n)).isSome = true := fun n s t hg => hg.used n
  have hdrawn : ∀ n, ∀ s t : ObjectShared κ, Guar writes s t → n < s.seq → n < t.seq :=
    fun n s t hg hs => Nat.lt_of_lt_of_le hs hg.seq
  cases b with
  | write d conditions tries =>
    refine holds_publishing (F := fun _ => True) (fun _ _ _ _ => trivial) (fun n y hy hseq _ => ?_) hx trivial
    exact Holds.retrying (hdrawn n) (fun z hz hs => body_createVersion (.of_idle hz) hs) (fun _ _ _ => nofun)
      (fun v u hu z hl hc hi _ => Done.kept_told hu hl hc hi) tries hy hseq
  | deleteMarker k conditions tries =>
    refine holds_publishing (F := fun _ => True) (fun _ _ _ _ => trivial) (fun n y hy hseq _ => ?_) hx trivial
    -- the time of an earlier attempt has passed
    have hkept : ∀ (created : Option Int) (s t : ObjectShared κ), Guar writes s t →
        (n < s.seq ∧ ∀ at', created = some at' → at' ≤ s.clock) →
        n < t.seq ∧ ∀ at', created = some at' → at' ≤ t.clock :=
      fun created s t hg hs => ⟨hdrawn n s t hg hs.1, fun at' hat => le_trans (hs.2 at' hat) hg.clock⟩
    refine Holds.retryingFrom hkept (fun created z hz hs => body_prepareDeleteMarker (.of_idle hz) hs.1 hs.2)
      (fun created target z hz => ?_) (fun _ _ _ => nofun)
      (fun v u hu z hl hc hi _ => Done.kept_told hu hl hc hi) tries none hy ⟨hseq, nofun⟩
    obtain ⟨base, rows, o, hp⟩ := hz
    exact ⟨⟨hp.seq, fun t ht => by cases ht; exact hp.clock⟩, body_publishDeleteMarker hp⟩
  | restore d source expected served tries =>
    have hwrites : writes = false := hkind.resolve_right nofun
    have hsource : (x.rows (.version source)).isSome = true := by
      have hall : (x.rows (.version source)).isSome = true ∧ (x.rows (.version expected)).isSome = true := by
        simpa [Request.named, Request.names] using hnamed
      exact hall.1
    refine holds_publishing (hused source) (fun n y hy hseq hs => ?_) hx hsource
    have hboth : ∀ s t : ObjectShared κ, Guar writes s t →
        (n < s.seq ∧ (s.rows (.version source)).isSome = true) →
        n < t.seq ∧ (t.rows (.version source)).isSome = true :=
      fun s t hg hs => ⟨hdrawn n s t hg hs.1, hg.used source hs.2⟩
    exact Holds.retrying hboth (fun z hz hs => body_restore hwrites (.of_idle hz) hs.1 hs.2) (fun _ _ _ => nofun)
      (fun v u hu z hl hc hi _ => Done.kept_told hu hl hc hi) tries hy ⟨hseq, hs⟩
  | removeMarker k n conditions tries =>
    have hn : (x.rows (.version n)).isSome = true := by simpa [Request.named, Request.names] using hnamed
    exact holds_moving (hused n)
      (fun y hy hs => body_deleteMarkerVersion (hkind.resolve_right nofun) (.of_idle hy) hs) hx hn
  | undelete k n tries =>
    have hn : (x.rows (.version n)).isSome = true := by simpa [Request.named, Request.names] using hnamed
    exact holds_moving (hused n) (fun y hy hs => Body.bind (Body.mono
      (body_undelete (hkind.resolve_right nofun) (.of_idle hy) hs) fun v z hz => Body.pure hz)) hx hn
  | deleteVersion k n condition tries =>
    exact holds_moving (F := fun _ => True) (fun _ _ _ _ => trivial)
      (fun y hy _ => body_deleteVersionPermanently (hkind.resolve_right nofun) (.of_idle hy)) hx trivial
  | deleteObject k n tries =>
    have hn : (x.rows (.version n)).isSome = true := by simpa [Request.named, Request.names] using hnamed
    exact holds_moving (hused n) (fun y hy hs => Body.bind (Body.mono
      (body_deleteObject (hkind.resolve_right nofun) (.of_idle hy) hs) fun _ z hz => Body.pure hz)) hx hn

/-- **The invariant holds in every reachable state**, and every step keeps the guarantee. -/
theorem objects_inv {cfg : Prog.Config (Db (Row.Value (κ := κ)) (Record κ)) Nat _ Stmt.Reply}
    (h : (objectMachine κ strict writes).lts.Reachable cfg) :
    Inv strict writes cfg.state.toShared ∧
      ∀ l cfg', (objectMachine κ strict writes).lts.step cfg l = some cfg' →
        Guar writes cfg.state.toShared cfg'.state.toShared :=
  reachable_inv (c := contract strict writes) (fun _ => inv_of_empty) (fun b _ hb _ hx => holds_program b hb hx) h

end SynapS3.Object
