import SynapS3.Lib.Lts
import SynapS3.Lib.TableSum

/-!
# `Gate.Model` — the cache gate

A gate has an entry for every key in use: a weighted semaphore and the number of its users. The entry is made by
the first user and dropped by the last, under the lock of the key's shard; between the two the user waits on the
semaphore without any lock.

The semaphore is taken to be correct: it admits a request only while the weights it has admitted stay within its
size. In which order it does is left open.
-/

namespace SynapS3.Gate

def gateCapacity : Nat := 2 ^ 63 - 1

/-- `HoldRead` and `Commit` take one permit; `GuardDeletion` and `HoldUpload` take them all. -/
inductive Mode where
  | shared
  | exclusive
  deriving DecidableEq

def Mode.weight : Mode → Nat
  | .shared => 1
  | .exclusive => gateCapacity

inductive Phase where
  | waiting
  | holding
  /-- Its permits were refused or given back, and its reference is still to be dropped. -/
  | leaving
  | gone
  deriving DecidableEq

/-- One call of `hold` or `tryHold`, with the release function that it returns. -/
structure User (K : Type) where
  key : K
  mode : Mode
  entry : Nat
  phase : Phase := .waiting
  deriving DecidableEq

/-- `gateEntry`, with the weight that its semaphore has admitted. -/
structure Entry where
  refs : Nat := 0
  cur : Nat := 0
  deriving DecidableEq

/-- The maps of the shards, all entries that were ever made, and all calls. -/
structure State (K : Type) where
  shards : Nat → K → Option Nat := fun _ _ => none
  entries : Table Entry := .empty
  users : Table (User K) := .empty

variable {K : Type} [DecidableEq K]

def State.setShard (s : State K) (i : Nat) (key : K) (entry : Option Nat) : State K :=
  { s with shards := fun j k => if j = i ∧ k = key then entry else s.shards j k }

def State.acquire (s : State K) (shard : K → Nat) (key : K) : State K × Nat :=
  match s.shards (shard key) key with
  | some id => ({ s with entries := s.entries.modify id fun e => { e with refs := e.refs + 1 } }, id)
  | none =>
    ({ s.setShard (shard key) key (some s.entries.next) with entries := s.entries.insert { refs := 1 } }, s.entries.next)

/-- `release`, under the lock of the shard: the last user drops the entry if it is still the key's. -/
def State.release (s : State K) (shard : K → Nat) (key : K) (id : Nat) : State K :=
  let s' : State K := { s with entries := s.entries.modify id fun e => { e with refs := e.refs - 1 } }
  match s'.entries.row id with
  | some e => if e.refs = 0 ∧ s.shards (shard key) key = some id then s'.setShard (shard key) key none else s'
  | none => s'

def State.setPhase (s : State K) (i : Nat) (phase : Phase) : State K :=
  { s with users := s.users.modify i fun u => { u with phase := phase } }

def State.enter (s : State K) (shard : K → Nat) (key : K) (mode : Mode) : State K :=
  let p := s.acquire shard key
  { p.1 with users := p.1.users.insert { key := key, mode := mode, entry := p.2 } }

def State.grant (s : State K) (i : Nat) : Option (State K) :=
  match s.users.row i with
  | none => none
  | some u =>
    match s.entries.row u.entry with
    | none => none
    | some e =>
      if u.phase = .waiting ∧ e.cur + u.mode.weight ≤ gateCapacity then
        some ({ s with
          entries := s.entries.modify u.entry fun e => { e with cur := e.cur + u.mode.weight } }.setPhase i .holding)
      else none

/-- `TryAcquire` fails, or the context of `Acquire` is cancelled or times out. -/
def State.refuse (s : State K) (i : Nat) : Option (State K) :=
  match s.users.row i with
  | none => none
  | some u => if u.phase = .waiting then some (s.setPhase i .leaving) else none

/-- The release function is called. The first call gives the permits back, which a semaphore that has not admitted
    them answers with a panic; every other call does nothing. -/
def State.giveBack (s : State K) (i : Nat) : Option (State K) :=
  match s.users.row i with
  | none => none
  | some u =>
    match u.phase with
    | .waiting => none
    | .leaving | .gone => some s
    | .holding =>
      match s.entries.row u.entry with
      | none => none
      | some e =>
        if u.mode.weight ≤ e.cur then
          some ({ s with
            entries := s.entries.modify u.entry fun e => { e with cur := e.cur - u.mode.weight } }.setPhase i .leaving)
        else none

def State.drop (s : State K) (shard : K → Nat) (i : Nat) : Option (State K) :=
  match s.users.row i with
  | none => none
  | some u => if u.phase = .leaving then some ((s.release shard u.key u.entry).setPhase i .gone) else none

inductive Action (K : Type) where
  | enter (key : K) (mode : Mode)
  | grant (user : Nat)
  | refuse (user : Nat)
  | giveBack (user : Nat)
  | drop (user : Nat)

def step (shard : K → Nat) (s : State K) : Action K → Option (State K)
  | .enter key mode => some (s.enter shard key mode)
  | .grant i => s.grant i
  | .refuse i => s.refuse i
  | .giveBack i => s.giveBack i
  | .drop i => s.drop shard i

/-- A gate and its users; `shard` assigns the keys to the shards. -/
def gateMachine (shard : K → Nat) : Lts (State K) (Action K) where
  init s := s = {}
  step := step shard

end SynapS3.Gate
