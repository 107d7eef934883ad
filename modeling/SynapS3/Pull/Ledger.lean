import Mathlib.Data.List.Basic

/-!
# `Pull.Ledger` — the ledger of pull attempts

`storage_pull_attempts` has a row for every pull that was about to be requested from a provider: what was asked of
whom, under which authorization. It is written before the request is sent, and it outlives the task that wrote it.
A row is either open or resolved, and every statement that changes rows touches open ones only.
-/

namespace SynapS3.Pull

/-- What a pull asks the provider for. -/
structure Request where
  sourceProvider : Nat
  sourceDataSet : Nat
  sourcePiece : Nat
  sourcePieceCID : Nat
  sourceRetrievalURL : Nat
  extraData : Nat
  deriving DecidableEq

inductive AttemptStatus where
  | attempted
  | abandoned
  deriving DecidableEq

/-- `storagepull.Attempt`; `resolved` stands for a `resolved_at`. -/
structure Attempt where
  id : Nat
  content : Nat
  dataSet : Nat
  request : Request
  status : AttemptStatus := .attempted
  resolved : Bool := false
  deriving DecidableEq

def Attempt.isFor (a : Attempt) (content dataSet : Nat) : Bool := a.content == content && a.dataSet == dataSet

abbrev Ledger := List Attempt

/-! ## The statements -/

def Ledger.get (l : Ledger) (id : Nat) : Option Attempt := l.find? fun a => a.id == id

def Ledger.getFor (l : Ledger) (id content dataSet : Nat) : Option Attempt :=
  l.find? fun a => a.id == id && a.isFor content dataSet

def Ledger.unresolved (l : Ledger) (content dataSet : Nat) : Option Attempt :=
  l.find? fun a => a.isFor content dataSet && !a.resolved

def Ledger.updateWhere (l : Ledger) (p : Attempt → Bool) (f : Attempt → Attempt) : Ledger :=
  l.map fun a => if p a then f a else a

def Attempt.resolve (a : Attempt) : Attempt := { a with resolved := true }

def Attempt.abandon (a : Attempt) : Attempt := { a with status := .abandoned, resolved := true }

def Attempt.isOpen (a : Attempt) (id content dataSet : Nat) : Bool :=
  a.id == id && a.isFor content dataSet && a.status == .attempted && !a.resolved

/-- `resolvePieceReadyPull`: an attempt that is resolved already, however, is accepted. -/
def Ledger.resolvePull (l : Ledger) (id content dataSet : Nat) : Option Ledger :=
  if l.any fun a => a.id == id && a.isFor content dataSet && a.resolved then some l
  else if l.any fun a => a.isOpen id content dataSet then
    some (l.updateWhere (fun a => a.isOpen id content dataSet) Attempt.resolve)
  else none

/-- The update of `SetCopyCacheRestore` and `AbandonMigrationPull`: the attempt has to be open. -/
def Ledger.abandonOpen (l : Ledger) (id content dataSet : Nat) : Option Ledger :=
  if l.any fun a => a.isOpen id content dataSet then
    some (l.updateWhere (fun a => a.isOpen id content dataSet) Attempt.abandon)
  else none

/-- `abandonCopyPullAttempt`: a replay finds it abandoned already. -/
def Ledger.abandonPull (l : Ledger) (id content dataSet : Nat) : Option Ledger :=
  match l.abandonOpen id content dataSet with
  | some l' => some l'
  | none =>
    if l.any fun a => a.id == id && a.isFor content dataSet && a.status == .abandoned && a.resolved then some l else none

/-- The update of `reopenFailedUploadCopy`. -/
def Ledger.abandonAll (l : Ledger) (content dataSet : Nat) : Ledger :=
  l.updateWhere (fun a => a.isFor content dataSet && !a.resolved) Attempt.abandon

/-- The row that `ReservePullRequest` finds or inserts; a second open attempt hits the unique index. -/
def Ledger.reserve (l : Ledger) (id content dataSet : Nat) (request : Request) : Option Ledger :=
  match l.get id with
  | some e =>
    if !e.resolved ∧ e.status = .attempted ∧ e.content = content ∧ e.dataSet = dataSet ∧ e.request = request then some l
    else none
  | none =>
    if (l.unresolved content dataSet).isSome then none
    else some (l ++ [{ id := id, content := content, dataSet := dataSet, request := request }])

/-! ## What they keep -/

/-- `b` is `a` some time later: the same request, and unchanged once it was resolved. -/
structure Attempt.Later (a b : Attempt) : Prop where
  id : b.id = a.id
  content : b.content = a.content
  dataSet : b.dataSet = a.dataSet
  request : b.request = a.request
  final : a.resolved = true → b = a

theorem Attempt.Later.refl (a : Attempt) : a.Later a := ⟨rfl, rfl, rfl, rfl, fun _ => rfl⟩

variable {a : Attempt}

theorem Attempt.Later.trans {b c : Attempt} (h : a.Later b) (h' : b.Later c) : a.Later c := by
  refine ⟨h'.id.trans h.id, h'.content.trans h.content, h'.dataSet.trans h.dataSet, h'.request.trans h.request, ?_⟩
  intro hr
  have hb := h.final hr
  subst hb
  exact h'.final hr

def Ledger.Later (l l' : Ledger) : Prop := ∀ a ∈ l, ∃ b ∈ l', a.Later b

theorem Ledger.Later.refl (l : Ledger) : l.Later l := fun a ha => ⟨a, ha, .refl a⟩

variable {l l' : Ledger} {id content dataSet : Nat}

theorem Ledger.Later.trans {l'' : Ledger} (h : l.Later l') (h' : l'.Later l'') : l.Later l'' := by
  intro a ha
  obtain ⟨b, hb, hab⟩ := h a ha
  obtain ⟨c, hc, hbc⟩ := h' b hb
  exact ⟨c, hc, hab.trans hbc⟩

/-- The ledger's keys: the primary key and the unique index, and that an abandoned attempt is resolved. -/
structure Ledger.Wf (l : Ledger) : Prop where
  id : ∀ a ∈ l, ∀ b ∈ l, a.id = b.id → a = b
  single : ∀ a ∈ l, ∀ b ∈ l, a.content = b.content → a.dataSet = b.dataSet → a.resolved = false → b.resolved = false →
    a = b
  abandoned : ∀ a ∈ l, a.status = .abandoned → a.resolved = true

theorem Ledger.Wf.nil : Ledger.Wf [] := ⟨nofun, nofun, nofun⟩

/-- What a statement makes of a ledger: it keeps its keys, and the rows are later versions of what they were. -/
structure Ledger.Next (l l' : Ledger) : Prop where
  later : l.Later l'
  wf : l.Wf → l'.Wf

theorem Ledger.Next.refl (l : Ledger) : l.Next l := ⟨.refl l, id⟩

theorem Ledger.Next.updateWhere {p : Attempt → Bool} {f : Attempt → Attempt}
    (hp : ∀ a, p a = true → a.resolved = false) (hf : ∀ a : Attempt, a.Later (f a) ∨ a.resolved = true)
    (hres : ∀ a, (f a).resolved = true) : l.Next (l.updateWhere p f) := by
  have hlater : ∀ a : Attempt, a.Later (if p a then f a else a) := by
    intro a
    split
    · next h => exact (hf a).resolve_right (by rw [hp a h]; nofun)
    · exact .refl a
  -- a row that is open afterwards was not touched
  have hopen : ∀ a, (if p a then f a else a).resolved = false → (if p a then f a else a) = a := by
    intro a h
    split at h
    · rw [hres a] at h
      cases h
    · next hn => rw [if_neg hn]
  refine ⟨fun a ha => ⟨_, List.mem_map_of_mem ha, hlater a⟩, fun hwf => ⟨?_, ?_, ?_⟩⟩
  · intro x hx y hy hid
    obtain ⟨a, ha, rfl⟩ := List.mem_map.mp hx
    obtain ⟨b, hb, rfl⟩ := List.mem_map.mp hy
    have hab : a = b := hwf.id a ha b hb ((hlater a).id.symm.trans (hid.trans (hlater b).id))
    rw [hab]
  · intro x hx y hy hc hd hox hoy
    obtain ⟨a, ha, rfl⟩ := List.mem_map.mp hx
    obtain ⟨b, hb, rfl⟩ := List.mem_map.mp hy
    have hxa := hopen a hox
    have hyb := hopen b hoy
    rw [hxa] at hox hc hd ⊢
    rw [hyb] at hoy hc hd ⊢
    exact hwf.single a ha b hb hc hd hox hoy
  · intro x hx hst
    obtain ⟨a, ha, rfl⟩ := List.mem_map.mp hx
    cases ho : (if p a then f a else a).resolved with
    | true => rfl
    | false =>
      have hxa := hopen a ho
      rw [hxa] at ho hst
      rw [hwf.abandoned a ha hst] at ho
      cases ho

theorem Attempt.later_resolve (a : Attempt) : a.Later a.resolve ∨ a.resolved = true := by
  cases h : a.resolved with
  | true => exact .inr rfl
  | false => exact .inl ⟨rfl, rfl, rfl, rfl, by rw [h]; nofun⟩

theorem Attempt.later_abandon (a : Attempt) : a.Later a.abandon ∨ a.resolved = true := by
  cases h : a.resolved with
  | true => exact .inr rfl
  | false => exact .inl ⟨rfl, rfl, rfl, rfl, by rw [h]; nofun⟩

theorem Attempt.unresolved_of_isOpen (h : a.isOpen id content dataSet = true) : a.resolved = false := by
  simp only [Attempt.isOpen, Bool.and_eq_true, Bool.not_eq_true'] at h
  exact h.2

theorem Ledger.Next.resolvePull (h : l.resolvePull id content dataSet = some l') : l.Next l' := by
  unfold Ledger.resolvePull at h
  split at h
  · cases h; exact .refl l
  · split at h <;> cases h
    exact .updateWhere (fun a => Attempt.unresolved_of_isOpen) Attempt.later_resolve fun _ => rfl

theorem Ledger.Next.abandonOpen (h : l.abandonOpen id content dataSet = some l') : l.Next l' := by
  unfold Ledger.abandonOpen at h
  split at h <;> cases h
  exact .updateWhere (fun a => Attempt.unresolved_of_isOpen) Attempt.later_abandon fun _ => rfl

theorem Ledger.Next.abandonPull (h : l.abandonPull id content dataSet = some l') : l.Next l' := by
  unfold Ledger.abandonPull at h
  split at h
  · next l'' ho => cases h; exact .abandonOpen ho
  · split at h <;> cases h
    exact .refl l

theorem Ledger.Next.abandonAll (l : Ledger) (content dataSet : Nat) : l.Next (l.abandonAll content dataSet) := by
  refine .updateWhere (fun a h => ?_) Attempt.later_abandon fun _ => rfl
  simp only [Bool.and_eq_true, Bool.not_eq_true'] at h
  exact h.2

theorem Ledger.get_some (h : l.get id = some a) : a ∈ l ∧ a.id = id :=
  ⟨List.mem_of_find?_eq_some h, by simpa using List.find?_some h⟩

variable {request : Request}

theorem Ledger.reserve_cases (h : l.reserve id content dataSet request = some l') :
    (l' = l ∧ ⟨id, content, dataSet, request, .attempted, false⟩ ∈ l) ∨
      (l' = l ++ [⟨id, content, dataSet, request, .attempted, false⟩] ∧ (∀ a ∈ l, a.id ≠ id) ∧
        ∀ a ∈ l, a.content = content → a.dataSet = dataSet → a.resolved = true) := by
  unfold Ledger.reserve at h
  split at h
  · next e he =>
    split at h
    · next hc =>
      cases h
      obtain ⟨hmem, hid⟩ := Ledger.get_some he
      obtain ⟨hr, hs, hcon, hds, hreq⟩ := hc
      refine .inl ⟨rfl, ?_⟩
      have heq : e = ⟨id, content, dataSet, request, .attempted, false⟩ := by
        obtain ⟨i, c, d, q, st, r⟩ := e
        simp only [Bool.not_eq_eq_eq_not, Bool.not_true] at hr
        simp_all
      rw [← heq]
      exact hmem
    · cases h
  · next hnone =>
    split at h
    · cases h
    next hfree =>
    cases h
    refine .inr ⟨rfl, fun a ha hid => ?_, fun a ha hc hd => ?_⟩
    · have := List.find?_eq_none.mp hnone a ha
      simp [hid] at this
    · have hn : l.unresolved content dataSet = none := by simpa using hfree
      have := List.find?_eq_none.mp hn a ha
      simpa [Attempt.isFor, hc, hd] using this

theorem Ledger.Next.reserve (h : l.reserve id content dataSet request = some l') : l.Next l' := by
  rcases Ledger.reserve_cases h with ⟨rfl, -⟩ | ⟨rfl, hnew, hfree⟩
  · exact .refl l'
  refine ⟨fun a ha => ⟨a, List.mem_append_left _ ha, .refl a⟩, fun hwf => ⟨?_, ?_, ?_⟩⟩
  · intro a ha b hb hid
    rcases List.mem_append.mp ha with ha | ha <;> rcases List.mem_append.mp hb with hb | hb
    · exact hwf.id a ha b hb hid
    · rw [List.mem_singleton.mp hb] at hid
      exact absurd hid (hnew a ha)
    · rw [List.mem_singleton.mp ha] at hid
      exact absurd hid.symm (hnew b hb)
    · rw [List.mem_singleton.mp ha, List.mem_singleton.mp hb]
  · intro a ha b hb hc hd hoa hob
    rcases List.mem_append.mp ha with ha | ha <;> rcases List.mem_append.mp hb with hb | hb
    · exact hwf.single a ha b hb hc hd hoa hob
    · rw [List.mem_singleton.mp hb] at hc hd
      rw [hfree a ha hc hd] at hoa
      cases hoa
    · rw [List.mem_singleton.mp ha] at hc hd
      rw [hfree b hb hc.symm hd.symm] at hob
      cases hob
    · rw [List.mem_singleton.mp ha, List.mem_singleton.mp hb]
  · intro a ha hst
    rcases List.mem_append.mp ha with ha | ha
    · exact hwf.abandoned a ha hst
    · rw [List.mem_singleton.mp ha] at hst
      cases hst

end SynapS3.Pull
