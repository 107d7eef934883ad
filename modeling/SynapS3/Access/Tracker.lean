import SynapS3.Lib.Lts
import SynapS3.Lib.Table
import SynapS3.Lib.Tx

/-!
# `Access.Tracker` — the times of cache accesses

`cacheaccess.Tracker` keeps the time of the latest access of every content it has an entry for, and writes it to
`object_cache` now and then. A shard's lock is held while an entry is looked up and changed, never while the
store is written, so a call is one, two or three steps: it touches the entry, the store answers its write, and it
comes back to the entry — if the shard still has the same one under that content.

Times are microseconds since the zero time, which is 0; `NormalizeAccessTime` is the identity on them.
-/

namespace SynapS3.Access

/-! ## Entries -/

/-- The fields of `Tracker` that do not change. `shard` is the hash of `Tracker.shard`. -/
structure Config where
  persistenceInterval : Nat
  idleRetention : Nat
  maxEntriesPerShard : Nat
  shard : Nat → Nat

/-- `trackerEntry`, with the content that it was made for. -/
structure Entry where
  content : Nat
  lastAccess : Nat := 0
  lastAttempt : Nat := 0
  lastPersisted : Nat := 0
  lastTouched : Nat := 0
  commitRequired : Nat := 0
  deriving DecidableEq

def Entry.clean (e : Entry) : Bool := e.lastAccess ≤ e.lastPersisted && e.commitRequired == 0

def nextAccessTime (now inMemory : Nat) (durable : Option Nat) : Nat :=
  let previous := max inMemory (durable.getD 0)
  if previous ≠ 0 ∧ now ≤ previous then previous + 1 else now

/-- An attempt to write is due: there was none, or the last was long enough ago. -/
def Entry.attemptDue (cfg : Config) (e : Entry) (now : Nat) : Bool :=
  e.lastAttempt == 0 || cfg.persistenceInterval == 0 ||
    decide ((cfg.persistenceInterval : Int) ≤ (now : Int) - e.lastAttempt)

def Entry.record (cfg : Config) (e : Entry) (now : Nat) (durable : Option Nat) (requireCommit : Bool) : Entry :=
  let accessedAt := nextAccessTime now e.lastAccess durable
  { e with
    lastPersisted := max e.lastPersisted (durable.getD 0)
    lastAccess := accessedAt
    lastTouched := now
    commitRequired := if requireCommit && decide (e.commitRequired < accessedAt) then accessedAt else e.commitRequired
    lastAttempt := if requireCommit || e.attemptDue cfg now then now else e.lastAttempt }

/-- The end of `persistAndAcknowledge`: a newer access or requirement stays unacknowledged. -/
def Entry.acknowledge (e : Entry) (accessedAt : Nat) (commit : Bool) : Entry :=
  { e with
    lastPersisted := max e.lastPersisted accessedAt
    commitRequired := if commit && decide (e.commitRequired ≤ accessedAt) then 0 else e.commitRequired }

/-! ## The store and the files -/

/-- What is outside the tracker: whether the file is cached, and the row of `object_cache`. -/
structure Content where
  cached : Bool := false
  row : Bool := false
  /-- `cache_accessed_at`, 0 for `NULL`. -/
  accessedAt : Nat := 0
  /-- The content was deleted; its identifier is not used again. -/
  gone : Bool := false
  deriving DecidableEq

/-- `recordContentCacheAccess`: a commit makes the row, an access only updates it, and no time goes back. -/
def Content.write (x : Content) (accessedAt : Nat) (commit : Bool) : Content :=
  if x.gone then x
  else if commit || x.row then { x with row := true, accessedAt := max x.accessedAt accessedAt }
  else x

/-! ## Calls -/

inductive Stage where
  | writing
  | answered (ok : Bool)
  /-- It is a flush, before the look at whether the entry is idle. -/
  | retiring
  | done
  deriving DecidableEq

/-- A call that has written to the store, or is about to. -/
structure Call where
  content : Nat
  /-- The entry it found or made; none for `persistOverflow`. -/
  entry : Option Nat
  accessedAt : Nat
  commit : Bool
  /-- `now` of a flush. -/
  flushedAt : Option Nat := none
  stage : Stage := .writing
  deriving DecidableEq

/-- An entry of a shard's map. -/
structure Slot where
  content : Nat
  entry : Nat
  deriving DecidableEq

/-- The tracker, what is outside of it, and three lists of what happened: the accesses with the time each was
    assigned, the commits that were required of an entry, and the commit writes that the store answered. An access
    past a full shard (`persistOverflow`) has no entry: it is listed when its call comes back from the store, not
    before, since until then nothing speaks for it. A file that is stored anew begins the first two lists anew. The
    third goes on: `object_cache` keeps its row and the time in it, and a call of before may still be on its way. -/
structure State where
  entries : Table Entry := .empty
  slots : List Slot := []
  unsafeForLRU : Bool := false
  calls : Table Call := .empty
  world : Nat → Content := fun _ => {}
  accesses : List (Nat × Nat) := []
  required : List (Nat × Nat) := []
  written : List (Nat × Nat) := []

def State.entryOf (s : State) (c : Nat) : Option Nat := (s.slots.find? (·.content == c)).map (·.entry)

def State.removeSlot (s : State) (c : Nat) : State := { s with slots := s.slots.filter (·.content != c) }

def State.shardSize (cfg : Config) (s : State) (k : Nat) : Nat := s.slots.countP fun x => cfg.shard x.content == k

def State.full (cfg : Config) (s : State) (c : Nat) : Bool :=
  0 < cfg.maxEntriesPerShard && cfg.maxEntriesPerShard ≤ s.shardSize cfg (cfg.shard c)

def State.cleanSlot (s : State) (x : Slot) : Bool := (s.entries.row x.entry).any (·.clean)

def State.touchedAt (s : State) (x : Slot) : Nat := ((s.entries.row x.entry).map (·.lastTouched)).getD 0

def State.cleanSlots (cfg : Config) (s : State) (c : Nat) : List Slot :=
  s.slots.filter fun x => cfg.shard x.content == cfg.shard c && s.cleanSlot x

/-- `evictOldestCleanLocked` may choose `victim`: the order in which it walks the map decides between entries that
    were touched at the same time. -/
def State.mayEvict (cfg : Config) (s : State) (c : Nat) : Option Nat → Bool
  | none => (s.cleanSlots cfg c).isEmpty
  | some victim => (s.cleanSlots cfg c).any fun x =>
    x.content == victim && (s.cleanSlots cfg c).all fun y => s.touchedAt x ≤ s.touchedAt y

/-- The end of the first step of `record`: the access is in `e`, the entry `p`, and its write is sent if it is due. -/
def State.recorded (s : State) (c p : Nat) (e : Entry) (requireCommit shouldPersist : Bool) : State :=
  { s with
    accesses := (c, e.lastAccess) :: s.accesses
    required := if requireCommit then (c, e.lastAccess) :: s.required else s.required
    calls :=
      if shouldPersist then s.calls.insert ⟨c, some p, e.lastAccess, e.commitRequired != 0, none, .writing⟩
      else s.calls }

def State.touch (cfg : Config) (s : State) (c p now : Nat) (durable : Option Nat) (requireCommit : Bool) :
    Option State :=
  match s.entries.row p with
  | none => none
  | some e =>
    let e' := e.record cfg now durable requireCommit
    some (State.recorded { s with entries := s.entries.modify p fun _ => e' } c p e' requireCommit
      (requireCommit || e.attemptDue cfg now))

def State.touchNew (cfg : Config) (s : State) (c now : Nat) (durable : Option Nat) (requireCommit : Bool) : State :=
  let e := (Entry.mk c 0 0 0 0 0).record cfg now durable requireCommit
  State.recorded { s with entries := s.entries.insert e, slots := ⟨c, s.entries.next⟩ :: s.slots } c s.entries.next e
    requireCommit true

def State.overflow (s : State) (c now : Nat) (durable : Option Nat) (requireCommit : Bool) : State :=
  { s with calls := s.calls.insert ⟨c, none, nextAccessTime now 0 durable, requireCommit, none, .writing⟩ }

/-- The first step of `record`. Its callers record an access, and not a commit, of a content only if they have
    read its row. -/
def State.record (cfg : Config) (s : State) (c now : Nat) (durable : Option Nat) (requireCommit : Bool)
    (victim : Option Nat) : Option State :=
  if 0 < now ∧ (requireCommit = true ∨ (s.world c).row = true ∨ (s.world c).gone = true) then
    match s.entryOf c with
    | some p => s.touch cfg c p now durable requireCommit
    | none =>
      if s.full cfg c = false then some (s.touchNew cfg c now durable requireCommit)
      else match victim, s.mayEvict cfg c victim with
        | _, false => none
        | none, true => some (s.overflow c now durable requireCommit)
        | some v, true =>
          let s := s.removeSlot v
          if s.full cfg c then some (s.overflow c now durable requireCommit)
          else some (s.touchNew cfg c now durable requireCommit)
  else none

def State.flush (cfg : Config) (s : State) (c now : Nat) (force : Bool) : Option State :=
  match s.entryOf c with
  | none => some s
  | some p =>
    match s.entries.row p with
    | none => none
    | some e =>
      let call := Call.mk c (some p) e.lastAccess (e.commitRequired != 0) (some now)
      if e.clean = false ∧ (force = true ∨ e.attemptDue cfg now = true) then
        some { s with
          entries := s.entries.modify p fun e => { e with lastAttempt := now }
          calls := s.calls.insert (call .writing) }
      else some { s with calls := s.calls.insert (call .retiring) }

def setContent (w : Nat → Content) (c : Nat) (x : Content) : Nat → Content := fun d => if d = c then x else w d

/-- The store answers a write. One that is reported failed may have been applied. -/
def State.answer (s : State) (i : Nat) (outcome : Tx.Outcome) : Option State :=
  match s.calls.row i with
  | none => none
  | some k =>
    if k.stage = .writing then
      let x := s.world k.content
      some { s with
        world := setContent s.world k.content (if outcome = .failed then x else x.write k.accessedAt k.commit)
        calls := s.calls.modify i fun k => { k with stage := .answered (outcome == .ok) }
        written := if outcome = .ok ∧ k.commit = true then (k.content, k.accessedAt) :: s.written else s.written }
    else none

def State.setStage (s : State) (i : Nat) (stage : Stage) : State :=
  { s with calls := s.calls.modify i fun k => { k with stage := stage } }

def State.settle (s : State) (i : Nat) : Option State :=
  match s.calls.row i with
  | none => none
  | some k =>
    match k.stage, k.entry with
    | .answered ok, none =>
      some (State.setStage
        { s with unsafeForLRU := s.unsafeForLRU || !ok, accesses := (k.content, k.accessedAt) :: s.accesses } i .done)
    | .answered false, some _ => some (s.setStage i .done)
    | .answered true, some p =>
      let s' := if s.entryOf k.content = some p then
          { s with entries := s.entries.modify p fun e => e.acknowledge k.accessedAt k.commit }
        else s
      some (s'.setStage i (if k.flushedAt.isSome then .retiring else .done))
    | _, _ => none

/-- The last step of `flush`: a clean entry that has been idle is dropped. -/
def State.retire (cfg : Config) (s : State) (i : Nat) : Option State :=
  match s.calls.row i with
  | none => none
  | some k =>
    match k.stage, k.entry, k.flushedAt with
    | .retiring, some p, some now =>
      match s.entries.row p with
      | none => none
      | some e =>
        let idle := e.lastTouched ≠ 0 ∧ (cfg.idleRetention : Int) ≤ (now : Int) - e.lastTouched
        let s' := if s.entryOf k.content = some p ∧ e.clean = true ∧ idle then s.removeSlot k.content else s
        some (s'.setStage i .done)
    | _, _, _ => none

/-! ## The machine -/

inductive Action where
  | record (c now : Nat) (durable : Option Nat) (requireCommit : Bool) (victim : Option Nat)
  /-- Of a sweep, or of `FlushWhileGuarded` if `force`. -/
  | flush (c now : Nat) (force : Bool)
  | answer (i : Nat) (outcome : Tx.Outcome)
  | settle (i : Nat)
  | retire (i : Nat)
  /-- `Forget`, which is called after the file was deleted. -/
  | forget (c : Nat)
  | deleteFile (c : Nat)
  | storeFile (c : Nat)
  /-- Other statements on `object_cache` make the row and advance its time. -/
  | advance (c t : Nat)
  | discard (c : Nat)

def Action.step (cfg : Config) (s : State) : Action → Option State
  | .record c now durable requireCommit victim => s.record cfg c now durable requireCommit victim
  | .flush c now force => s.flush cfg c now force
  | .answer i outcome => s.answer i outcome
  | .settle i => s.settle i
  | .retire i => s.retire cfg i
  | .forget c => if (s.world c).cached = false then some (s.removeSlot c) else none
  | .deleteFile c => some { s with world := setContent s.world c { s.world c with cached := false } }
  | .storeFile c =>
    if (s.world c).cached = false ∧ (s.world c).gone = false then
      some { s with
        world := setContent s.world c { s.world c with cached := true }
        accesses := s.accesses.filter (·.1 != c)
        required := s.required.filter (·.1 != c) }
    else none
  | .advance c t => some { s with world := setContent s.world c ((s.world c).write t true) }
  | .discard c =>
    some { s with world := setContent s.world c { s.world c with cached := false, row := false, gone := true } }

/-- A process that starts with an empty tracker, over any files and any rows. -/
def trackerMachine (cfg : Config) : Lts State Action where
  init s := ∃ world : Nat → Content, (∀ c, (world c).gone = true → (world c).cached = false) ∧ s = { world := world }
  step := Action.step cfg

end SynapS3.Access
