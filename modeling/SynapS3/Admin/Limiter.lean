import Mathlib.Data.List.AList

/-!
# `Admin.Limiter` — the limiter of failed logins

The limiter counts the failures of every client address and refuses a client for a minute after its fifth.
Its map is bounded. Entries that may be dropped for a new client are in a list, least recently seen first;
the entry of a client that is refused is not in that list. Instants are nanoseconds since the zero time,
which is 0, and a pointer into the list is the number under which the element was made.
-/

namespace SynapS3.Admin

def loginFailureLimit : Nat := 5
def loginFailureBlock : Nat := 60000000000
def loginFailureTTL : Nat := 600000000000
def loginFailureCleanup : Nat := 60000000000
def loginFailureMaxEntries : Nat := 4096

/-- `loginFailure`. -/
structure LoginFailure where
  count : Nat := 0
  blockedAt : Nat := 0
  lastSeen : Nat := 0
  element : Option Nat := none

def LoginFailure.activeBlocked (f : LoginFailure) (now : Nat) : Bool :=
  loginFailureLimit ≤ f.count && now - f.blockedAt ≤ loginFailureBlock

/-- The condition under which `cleanup` deletes an entry. -/
def LoginFailure.stale (f : LoginFailure) (now : Nat) : Bool :=
  f.lastSeen = 0 || loginFailureTTL < now - f.lastSeen

/-- The entry after one more failure: `RecordFailure` starts over after a block that has passed. -/
def LoginFailure.failed (f : LoginFailure) (now : Nat) : LoginFailure :=
  let f := if loginFailureLimit ≤ f.count then { f with count := 0, blockedAt := 0 } else f
  { f with
    count := f.count + 1
    blockedAt := if loginFailureLimit ≤ f.count + 1 then now else f.blockedAt
    lastSeen := now }

/-- `loginFailureLimiter`: the map, and the list of the entries that may be dropped. -/
structure LoginFailureLimiter (κ : Type) where
  failures : AList fun _ : κ => LoginFailure := ∅
  evictable : List (Nat × κ) := []
  /-- How many elements the list has been given. -/
  elements : Nat := 0
  nextCleanup : Nat := 0

namespace LoginFailureLimiter

variable {κ : Type} [DecidableEq κ] (l : LoginFailureLimiter κ)

def entry (key : κ) : Option LoginFailure := l.failures.lookup key

def full : Bool := loginFailureMaxEntries ≤ l.failures.keys.length

def put (key : κ) (f : LoginFailure) : LoginFailureLimiter κ :=
  { l with failures := l.failures.insert key f }

def untrackFailureLocked (f : LoginFailure) : LoginFailureLimiter κ :=
  { l with evictable := l.evictable.filter fun x => f.element != some x.1 }

def storeFailureLocked (key : κ) (f : LoginFailure) (now : Nat) : LoginFailureLimiter κ :=
  if f.activeBlocked now then (l.untrackFailureLocked f).put key { f with element := none }
  else if f.element = none then
    put { l with evictable := l.evictable ++ [(l.elements, key)], elements := l.elements + 1 } key
      { f with element := some l.elements }
  else
    let (moved, others) := l.evictable.partition fun x => f.element == some x.1
    put { l with evictable := others ++ moved } key f

def deleteFailureLocked (key : κ) : LoginFailureLimiter κ :=
  match l.entry key with
  | none => l
  | some f => { l.untrackFailureLocked f with failures := l.failures.erase key }

def cleanup (now : Nat) : LoginFailureLimiter κ :=
  l.failures.entries.foldl (fun l e => if e.2.stale now then l.deleteFailureLocked e.1 else l) l

/-- The zero time is not after any instant, so `IsZero` needs no case of its own. -/
def maybeCleanup (now : Nat) : LoginFailureLimiter κ :=
  if l.nextCleanup ≤ now then { l.cleanup now with nextCleanup := now + loginFailureCleanup } else l

/-- The loop of `makeRoomForNewKeyLocked` over the elements that the list has when it starts. Every iteration removes
    the front of the list, and none adds to it. -/
def evictFront (now : Nat) : List (Nat × κ) → LoginFailureLimiter κ → Bool × LoginFailureLimiter κ
  | [], l => (!l.full, l)
  | (e, key) :: rest, l =>
    match l.entry key with
    | none => evictFront now rest { l with evictable := rest }
    | some f =>
      if f.element ≠ some e then evictFront now rest { l with evictable := rest }
      else if f.activeBlocked now then
        evictFront now rest ((l.untrackFailureLocked f).put key { f with element := none })
      else (true, l.deleteFailureLocked key)

def makeRoomForNewKeyLocked (now : Nat) : Bool × LoginFailureLimiter κ :=
  if l.full then evictFront now l.evictable l else (true, l)

/-- `Begin` and `RecordFailure` differ in what they make of the entry of a client that is not refused. -/
def visit (l₀ : LoginFailureLimiter κ) (key : κ) (now : Nat) (g : LoginFailure → LoginFailure) :
    Bool × LoginFailureLimiter κ :=
  let l := l₀.maybeCleanup now
  match l.entry key with
  | some f =>
    if f.activeBlocked now then (false, l.put key { f with lastSeen := now })
    else (true, l.storeFailureLocked key (g f) now)
  | none =>
    match l.makeRoomForNewKeyLocked now with
    | (false, l) => (false, l)
    | (true, l) => (true, l.storeFailureLocked key (g {}) now)

def begin (key : κ) (now : Nat) : Bool × LoginFailureLimiter κ :=
  l.visit key now fun f => { f with lastSeen := now }

def recordFailure (key : κ) (now : Nat) : LoginFailureLimiter κ :=
  (l.visit key now fun f => f.failed now).2

def clear (key : κ) : LoginFailureLimiter κ := l.deleteFailureLocked key

inductive Op (κ : Type)
  | begin (key : κ) (now : Nat)
  | recordFailure (key : κ) (now : Nat)
  | clear (key : κ)

def Op.apply : Op κ → LoginFailureLimiter κ
  | .begin key now => (l.begin key now).2
  | .recordFailure key now => l.recordFailure key now
  | .clear key => l.clear key

inductive PasswordAuthStatus
  | ok
  | invalid
  | limited

/-- `checkLoginPassword`, given whether the password is right. Other calls go on while it waits for the lock of its key
    and while it checks the password. -/
def checkLoginPassword (key : κ) (now now' : Nat) (waiting checking : List (Op κ)) (right : Bool) :
    PasswordAuthStatus × LoginFailureLimiter κ :=
  match l.begin key now with
  | (false, l) => (.limited, l)
  | (true, l) =>
    match (waiting.foldl Op.apply l).begin key now' with
    | (false, l) => (.limited, l)
    | (true, l) =>
      let l := checking.foldl Op.apply l
      if right then (.ok, l.clear key) else (.invalid, l.recordFailure key now')

/-! ## What becomes of an entry -/

variable {l} {k key : κ} {f : LoginFailure} {now : Nat} {g : LoginFailure → LoginFailure}

@[simp] theorem entry_put : (l.put key f).entry k = if k = key then some f else l.entry k := by
  by_cases h : k = key
  · subst h; simp [entry, put]
  · simp [entry, put, h]

@[simp] theorem entry_untrack : (l.untrackFailureLocked f).entry k = l.entry k := rfl

theorem entry_delete : (l.deleteFailureLocked key).entry k = if k = key then none else l.entry k := by
  unfold deleteFailureLocked
  split <;> by_cases h : k = key
  · rw [if_pos h, h]; assumption
  · rw [if_neg h]
  · subst h; simp [entry]
  · simp [entry, h]

theorem entry_store (l : LoginFailureLimiter κ) (key k : κ) (f : LoginFailure) (now : Nat) :
    ∃ e, (f.activeBlocked now = true → e = none) ∧
    (l.storeFailureLocked key f now).entry k =
      if k = key then some { f with element := e } else l.entry k := by
  unfold storeFailureLocked
  split
  · exact ⟨none, fun _ => rfl, by simp⟩
  · split
    · exact ⟨some l.elements, by simp_all, by rw [entry_put]; rfl⟩
    · exact ⟨f.element, by simp_all, by rw [entry_put]; rfl⟩

/-- Cleaning up at `now` leaves the entry as it is, or deletes a stale one. -/
def Cleaned (now : Nat) (o o' : Option LoginFailure) : Prop :=
  o' = o ∨ (∃ f, o = some f ∧ f.stale now = true) ∧ o' = none

theorem entry_maybeCleanup (l : LoginFailureLimiter κ) (k : κ) (now : Nat) :
    Cleaned now (l.entry k) ((l.maybeCleanup now).entry k) := by
  unfold maybeCleanup
  split
  · refine List.foldlRecOn l.failures.entries _
      (motive := fun m : LoginFailureLimiter κ => Cleaned now (l.entry k) (m.entry k)) (.inl rfl) fun m hm e he => ?_
    split
    · rw [entry_delete]
      split
      · subst k; exact .inr ⟨⟨e.2, AList.mem_lookup_iff.mpr he, by assumption⟩, rfl⟩
      · exact hm
    · exact hm
  · exact .inl rfl

/-! ## The lockout -/

/-- The loop passes over an entry that is not in the list. -/
theorem evictFront_entry (hf : f.element = none) (es : List (Nat × κ)) :
    ∀ {l : LoginFailureLimiter κ}, l.entry k = some f → (evictFront now es l).2.entry k = some f := by
  induction es with
  | nil => exact id
  | cons x es ih =>
    intro l hk
    unfold evictFront
    split
    · exact ih hk
    rename_i f' hf'
    have hne : f'.element ≠ none → k ≠ x.2 := by
      rintro h rfl
      rw [hk] at hf'
      cases hf'
      exact h hf
    split
    · exact ih hk
    · have hk' : k ≠ x.2 := hne (by simp_all)
      split
      · exact ih (by simp [hk', hk])
      · simp [entry_delete, hk', hk]

/-- The client was locked out at `b`. -/
def LockedOut (l : LoginFailureLimiter κ) (key : κ) (b : Nat) : Prop :=
  ∃ f, l.entry key = some f ∧ loginFailureLimit ≤ f.count ∧ f.blockedAt = b ∧ f.element = none ∧
    f.stale (b + loginFailureBlock) = false

/-- The instants at which `b` is neither more than a minute nor less than minus nine minutes ago. -/
def Within (b now : Nat) : Prop :=
  0 < now ∧ now ≤ b + loginFailureBlock ∧ b + loginFailureBlock ≤ now + loginFailureTTL

def Op.Within (key : κ) (b : Nat) : Op κ → Prop
  | .begin _ now | .recordFailure _ now => LoginFailureLimiter.Within b now
  | .clear k => k ≠ key

variable {b : Nat}

theorem LockedOut.visit (h : l.LockedOut k b) (hw : Within b now) :
    (l.visit key now g).2.LockedOut k b ∧ (k = key → (l.visit key now g).1 = false) := by
  obtain ⟨f, hf, hcount, hb, he, hs⟩ := h
  obtain ⟨hpos, hlate, hearly⟩ := hw
  simp only [LoginFailure.stale, Bool.or_eq_false_iff, decide_eq_false_iff_not, Nat.not_lt] at hs
  have hf' : (l.maybeCleanup now).entry k = some f := by
    rcases entry_maybeCleanup l k now with h | ⟨⟨f', hf', hs'⟩, -⟩
    · exact h.trans hf
    · rw [hf] at hf'
      cases hf'
      simp only [LoginFailure.stale, Bool.or_eq_true, decide_eq_true_eq] at hs'
      omega
  have hblocked : f.activeBlocked now = true := by
    simp only [LoginFailure.activeBlocked, Bool.and_eq_true, decide_eq_true_eq]
    omega
  unfold LoginFailureLimiter.visit
  by_cases hk : k = key
  · -- a refused call only renews `lastSeen`
    subst hk
    simp only [hf', hblocked, if_true]
    refine ⟨⟨_, entry_put.trans (if_pos rfl), hcount, hb, he, ?_⟩, fun _ => trivial⟩
    simp only [LoginFailure.stale, Bool.or_eq_false_iff, decide_eq_false_iff_not]
    omega
  · have out : ∀ m : LoginFailureLimiter κ, m.entry k = some f → m.LockedOut k b := by
      intro m hm
      exact ⟨f, hm, hcount, hb, he, by simp [LoginFailure.stale]; omega⟩
    have stored : ∀ (m : LoginFailureLimiter κ) f', m.entry k = some f →
        (m.storeFailureLocked key f' now).LockedOut k b := by
      intro m f' hm
      obtain ⟨e, -, h⟩ := entry_store m key k f' now
      exact out _ (by rw [h, if_neg hk, hm])
    -- its entry is not in the list, so it is not the one that makes room
    have room : ((l.maybeCleanup now).makeRoomForNewKeyLocked now).2.entry k = some f := by
      unfold makeRoomForNewKeyLocked
      split
      · exact evictFront_entry he _ hf'
      · exact hf'
    refine ⟨?_, fun h => absurd h hk⟩
    dsimp only
    split
    · split
      · exact out _ (by simp [hk, hf'])
      · exact stored _ _ hf'
    · split <;> rename_i hroom <;> rw [hroom] at room
      · exact out _ room
      · exact stored _ _ room

theorem LockedOut.apply {op : Op κ} (h : l.LockedOut k b) (hop : op.Within k b) : (op.apply l).LockedOut k b := by
  cases op with
  | begin key now => exact (h.visit hop).1
  | recordFailure key now => exact (h.visit hop).1
  | clear key =>
    obtain ⟨f, hf, hrest⟩ := h
    exact ⟨f, by simp [Op.apply, clear, entry_delete, Ne.symm hop, hf], hrest⟩

theorem LockedOut.run {ops : List (Op κ)} (hops : ∀ op ∈ ops, op.Within k b) (h : l.LockedOut k b) :
    (ops.foldl Op.apply l).LockedOut k b := by
  induction ops generalizing l with
  | nil => exact h
  | cons op ops ih => exact ih (fun op' hop => hops op' (by simp [hop])) (h.apply (hops op (by simp)))

/-- The failure that reaches the limit locks the client out. -/
theorem LockedOut.of_recordFailure (hf : (l.maybeCleanup b).entry key = some f)
    (hcount : f.count + 1 = loginFailureLimit) (hb : 0 < b) : (l.recordFailure key b).LockedOut key b := by
  have hlt : ¬ loginFailureLimit ≤ f.count := by omega
  have hopen : f.activeBlocked b = false := by simp [LoginFailure.activeBlocked, hlt]
  have hblocked : (f.failed b).activeBlocked b = true := by
    simp [LoginFailure.failed, LoginFailure.activeBlocked, hlt, hcount]
  -- a blocked entry is stored outside of the list
  obtain ⟨e, he, h⟩ := entry_store (l.maybeCleanup b) key key (f.failed b) b
  unfold recordFailure LoginFailureLimiter.visit
  simp only [hf, hopen]
  refine ⟨_, h.trans (if_pos rfl), ?_, ?_, he hblocked, ?_⟩ <;>
    simp [LoginFailure.failed, LoginFailure.stale, hlt, hcount, loginFailureBlock, loginFailureTTL]
  omega

/-- **A lockout holds**: after the failure at `b` that reaches the limit, whatever is done by other clients and by this
    one, it is refused until a minute has passed or it authenticates; no password is checked, not even the right one. -/
theorem lockout_holds (hf : (l.maybeCleanup b).entry key = some f) (hcount : f.count + 1 = loginFailureLimit)
    (hb : 0 < b) (ops : List (Op κ)) (hops : ∀ op ∈ ops, op.Within key b) (hnow : Within b now) :
    let m := ops.foldl Op.apply (l.recordFailure key b)
    (m.begin key now).1 = false ∧
      ∀ now' waiting checking right, (m.checkLoginPassword key now now' waiting checking right).1 = .limited := by
  intro m
  have hout : m.LockedOut key b := (LockedOut.of_recordFailure hf hcount hb).run hops
  have hrefused : (m.begin key now).1 = false := (hout.visit hnow).2 rfl
  refine ⟨hrefused, fun now' waiting checking right => ?_⟩
  unfold checkLoginPassword
  split
  · rfl
  · simp_all

def fourFailures : LoginFailureLimiter Nat :=
  [.recordFailure 7 100, .recordFailure 7 101, .recordFailure 7 102, .recordFailure 7 103].foldl Op.apply {}

/-- The fifth failure, two more attempts and another client; a minute later the right password is still not checked. -/
theorem lockout_holds_fifth : ((([.begin 7 105, .begin 8 106, .recordFailure 7 107].foldl Op.apply
      (fourFailures.recordFailure 7 104)).checkLoginPassword 7 60000000104 60000000104 [] [] true).1) = .limited :=
  (lockout_holds (l := fourFailures) (f := ⟨4, 0, 103, some 0⟩) (b := 104) rfl rfl (by decide) _
    (by simp only [List.forall_mem_cons, Op.Within, Within]; exact ⟨by decide, by decide, by decide, nofun⟩)
    (by unfold Within; decide)).2 _ _ _ _

end LoginFailureLimiter
end SynapS3.Admin
