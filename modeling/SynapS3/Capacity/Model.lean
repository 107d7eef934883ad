import SynapS3.Lib.Files
import SynapS3.Lib.Lts
import SynapS3.Lib.TableSum

/-!
# `Capacity.Model` — what the cache's files cost

`internal/cache/filesystem.go` and `local.go`, reduced to files, their sizes and the two counters `usedBytes` and
`reservedBytes`. Every file operation is a step of its own and may fail, so that operations on different files, and
those on one file that no common shard keeps apart, run interleaved.
-/

namespace SynapS3.Capacity

/-- A name under the cache root. Content files and quarantined ones lie in directories of their bucket; parts are in
    a namespace of their own, which is no bucket. -/
inductive Entry
  | object (bucket key : Nat)
  | contents (bucket id : Nat)
  | quarantine (bucket id : Nat)
  | part (upload number : Nat)
  deriving DecidableEq

def Entry.bucket : Entry → Option Nat
  | .object b _ | .contents b _ | .quarantine b _ => some b
  | .part _ _ => none

def Entry.upload : Entry → Option Nat
  | .part u _ => some u
  | _ => none

/-- Where a file lies: at an entry, or beside it as the temporary file of a staged write (`.synaps3-*.tmp`) or as the
    part that the write preserves (`.synaps3-*.tmp.previous`). -/
inductive Place
  | entry (e : Entry)
  | temp (home : Entry) (w : Nat)
  | previous (home : Entry) (w : Nat)
  deriving DecidableEq

namespace Place

def beside : Place → Entry
  | entry e | temp e _ | previous e _ => e

def inBucket (b : Nat) (p : Place) : Bool := p.beside.bucket == some b

def inUpload (u : Nat) (p : Place) : Bool := p.beside.upload == some u

/-- Not a temporary file. A preserved part is none: its name does not end in `.tmp`. -/
def counted : Place → Bool
  | temp _ _ => false
  | _ => true

end Place

/-! ## Staged writes -/

/-- How far `PutStaged`, `PutPartStaged` or `AssemblePartsStaged` has come: it holds its reservation, it copies to
    its temporary file, it has returned the staged object, or it has returned an error. -/
inductive Phase
  | reserved
  | writing
  | staged
  | failed
  deriving DecidableEq

/-- A staged write: what it reserved, what it still holds of that, and how much it has copied. -/
structure Write where
  home : Entry
  size : Nat
  held : Nat
  length : Nat
  phase : Phase
  committed : Bool
  rolledBack : Bool

namespace Write

def release (r : Write) : Write := { r with held := 0 }

def created (r : Write) : Write := { r with phase := .writing, length := 0 }

def grown (k : Nat) (r : Write) : Write := { r with length := r.length + k }

def staged (r : Write) : Write := { r with phase := .staged }

def fail (r : Write) : Write := { r.release with phase := .failed }

def rollback (r : Write) : Write := { r.release with rolledBack := true }

def commit (r : Write) : Write := { r.release with committed := true }

end Write

/-! ## Operations in progress -/

/-- A call of `commitAs`: the write, the name it was staged under, its destination and its length. -/
structure Commit where
  w : Nat
  home : Entry
  dest : Entry
  n : Nat

namespace Commit

def replacePart (c : Commit) : Bool := c.home.upload.isSome

def temp (c : Commit) : Place := .temp c.home c.w

def previous (c : Commit) : Place := .previous c.home c.w

/-- The destination existed and was preserved (`backupPath` is set). -/
def preserves (c : Commit) (old : Option Nat) : Bool := c.replacePart && old.isSome

end Commit

/-- The file operation that `commitAs` does next. `old` is what the destination was found to hold. -/
inductive CommitAt
  | stat
  | link (old : Nat)
  | rename (old : Option Nat)
  | dropPrevious (old : Nat)
  | sync (old : Option Nat)
  | removeUnsynced
  | removePrevious (old : Nat)
  | restore (old : Nat)
  | settle (old : Nat)

inductive DeleteAt
  | stat
  | remove (size : Nat)
  | subtract (size : Nat)

inductive QuarantineAt
  | stat
  | rename (replaced : Nat)
  | subtract (replaced : Nat)

inductive BucketAt
  | walk
  | removeAll (totalSize : Nat)
  | subtract (totalSize : Nat)

inductive UploadAt
  | walk
  | remove (p : Place) (size : Nat)

/-- The operations that take a shard or remove files, each with the place it has come to: a staged write's commit,
    `Delete`, `Quarantine`, `DeleteBucketDir` and `DeleteUpload`. -/
inductive Op
  | commit (c : Commit) (pc : CommitAt)
  | delete (e : Entry) (pc : DeleteAt)
  | quarantine (bucket id : Nat) (pc : QuarantineAt)
  | deleteBucketDir (bucket : Nat) (pc : BucketAt)
  | deleteUpload (upload : Nat) (pc : UploadAt)
  | done

/-- How a file operation goes. A walk of an upload comes to one file after another; of the walk of a bucket it is
    known which files it could not read, of a removal of a bucket that fails which files it left. -/
inductive Answer
  | ok
  | fails
  | visit (p : Place)
  | walked (unread : Place → Bool)
  | partly (left : Place → Bool)

/-- What a file operation leaves: the disk, the operation at its next place, what `usedBytes` changes by, the part of
    that for which no capacity was reserved, and the write that is settled. -/
structure After where
  disk : Files Place
  op : Op
  charge : Int := 0
  unreserved : Nat := 0
  settles : Option Nat := none

def Answer.onFile (disk : Files Place) (p : Place) : Answer → Bool
  | .ok => (disk.size p).isSome
  | _ => false

/-- The next file operation of `commitAs`, under `stateMu` and the shard of the destination. -/
def Commit.next (disk : Files Place) (c : Commit) (pc : CommitAt) (ans : Answer) : After :=
  match pc with
  | .stat =>
    match ans with
    | .ok =>
      match disk.size (.entry c.dest) with
      | some old => ⟨disk, .commit c (if c.replacePart then .link old else .rename (some old)), 0, 0, none⟩
      | none => ⟨disk, .commit c (.rename none), 0, 0, none⟩
    -- Only for parts is an error that does not say "not found" an error: otherwise the destination counts as new.
    | _ => ⟨disk, if c.replacePart then .done else .commit c (.rename none), 0, 0, none⟩
  | .link old =>
    if ans.onFile disk (.entry c.dest) && (disk.size c.previous).isNone then
      ⟨disk.set c.previous (disk.size (.entry c.dest)), .commit c (.rename (some old)), 0, 0, none⟩
    else ⟨disk, .done, 0, 0, none⟩
  | .rename old =>
    if ans.onFile disk c.temp then ⟨disk.rename c.temp (.entry c.dest), .commit c (.sync old), 0, 0, none⟩
    else ⟨disk, if c.preserves old then .commit c (.dropPrevious (old.getD 0)) else .done, 0, 0, none⟩
  | .dropPrevious old =>
    if ans.onFile disk c.previous then ⟨disk.set c.previous none, .done, 0, 0, none⟩
    else ⟨disk, .done, old, old, none⟩
  | .sync old =>
    match ans with
    | .ok =>
      ⟨disk, .commit c (if c.preserves old then .removePrevious (old.getD 0) else .settle (old.getD 0)), 0, 0, none⟩
    -- `syncCommittedEntry`: replacements are kept, a new entry is removed.
    | _ =>
      match old with
      | some o => ⟨disk, .commit c (if c.preserves old then .restore o else .settle o), 0, 0, none⟩
      | none => ⟨disk, .commit c .removeUnsynced, 0, 0, none⟩
  | .removeUnsynced =>
    if ans.onFile disk (.entry c.dest) then ⟨disk.set (.entry c.dest) none, .done, 0, 0, none⟩
    else ⟨disk, .commit c (.settle 0), 0, 0, none⟩
  | .removePrevious old =>
    if ans.onFile disk c.previous then ⟨disk.set c.previous none, .commit c (.settle old), 0, 0, none⟩
    else ⟨disk, .commit c (.restore old), 0, 0, none⟩
  | .restore _ =>
    if ans.onFile disk c.previous then ⟨disk.rename c.previous (.entry c.dest), .done, 0, 0, none⟩
    else ⟨disk, .done, c.n, 0, some c.w⟩
  | .settle old => ⟨disk, .done, (c.n : Int) - old, 0, some c.w⟩

/-- `Delete`, under the shard of the entry. -/
def deleteNext (disk : Files Place) (e : Entry) (pc : DeleteAt) (ans : Answer) : After :=
  match pc with
  | .stat =>
    match ans, disk.size (.entry e) with
    | .ok, some n => ⟨disk, .delete e (.remove n), 0, 0, none⟩
    | _, _ => ⟨disk, .done, 0, 0, none⟩
  | .remove n =>
    if ans.onFile disk (.entry e) then ⟨disk.set (.entry e) none, .delete e (.subtract n), 0, 0, none⟩
    else ⟨disk, .done, 0, 0, none⟩
  | .subtract n => ⟨disk, .done, -(n : Int), 0, none⟩

/-- `Quarantine`, under the shard of the content's entry. -/
def quarantineNext (disk : Files Place) (b id : Nat) (pc : QuarantineAt) (ans : Answer) : After :=
  match pc with
  | .stat =>
    match ans with
    | .ok => ⟨disk, .quarantine b id (.rename ((disk.size (.entry (.quarantine b id))).getD 0)), 0, 0, none⟩
    | _ => ⟨disk, .done, 0, 0, none⟩
  | .rename replaced =>
    if ans.onFile disk (.entry (.contents b id)) then
      ⟨disk.rename (.entry (.contents b id)) (.entry (.quarantine b id)), .quarantine b id (.subtract replaced),
        0, 0, none⟩
    else ⟨disk, .done, 0, 0, none⟩
  | .subtract replaced => ⟨disk, .done, -(replaced : Int), 0, none⟩

/-- `DeleteBucketDir`, under all shards. -/
def deleteBucketDirNext (disk : Files Place) (b : Nat) (pc : BucketAt) (ans : Answer) : Option After :=
  match pc, ans with
  | .walk, .walked unread =>
    some ⟨disk, .deleteBucketDir b (.removeAll (disk.total fun p => p.counted && p.inBucket b && !unread p)),
      0, 0, none⟩
  | .removeAll totalSize, .ok =>
    some ⟨disk.removeWhere (·.inBucket b), .deleteBucketDir b (.subtract totalSize), 0, 0, none⟩
  | .removeAll _, .partly left => some ⟨disk.removeWhere fun p => p.inBucket b && !left p, .done, 0, 0, none⟩
  | .subtract totalSize, .ok => some ⟨disk, .done, -(totalSize : Int), 0, none⟩
  | _, _ => none

/-- `DeleteUpload`: under no shard; a removal and its charge are one step under `capacityMu`. The walk ends (`ok`) or
    stops with an error. -/
def deleteUploadNext (disk : Files Place) (u : Nat) (pc : UploadAt) (ans : Answer) : Option After :=
  match pc with
  | .walk =>
    match ans with
    | .visit p =>
      if p.inUpload u then
        match disk.size p with
        | some n => some ⟨disk, .deleteUpload u (.remove p n), 0, 0, none⟩
        | none => some ⟨disk, .deleteUpload u .walk, 0, 0, none⟩
      else none
    | _ => some ⟨disk, .done, 0, 0, none⟩
  | .remove p n =>
    if ans.onFile disk p then
      some ⟨disk.set p none, .deleteUpload u .walk, if p.counted then -(n : Int) else 0, 0, none⟩
    else some ⟨disk, if (disk.size p).isNone then .deleteUpload u .walk else .done, 0, 0, none⟩

/-- What the file operation that an operation has come to does, given how it goes. -/
def Op.next (disk : Files Place) (op : Op) (ans : Answer) : Option After :=
  match op with
  | .commit c pc => some (c.next disk pc ans)
  | .delete e pc => some (deleteNext disk e pc ans)
  | .quarantine b id pc => some (quarantineNext disk b id pc ans)
  | .deleteBucketDir b pc => deleteBucketDirNext disk b pc ans
  | .deleteUpload u pc => deleteUploadNext disk u pc ans
  | .done => none

/-! ## The cache -/

/-- `unreserved` is a ghost: what `usedBytes` was charged for without a reservation. -/
structure State where
  maxBytes : Int
  usedBytes : Int
  reservedBytes : Int
  refusedBytes : Int
  disk : Files Place
  writes : Table Write
  ops : Table Op
  unreserved : Nat

inductive ReserveErr
  | negativeSize
  | cacheFull

/-- `reserve`: what the write holds from now on. -/
def State.reserve (s : State) (size : Int) : Except ReserveErr Nat × State :=
  if size < 0 then (.error .negativeSize, s)
  else if s.maxBytes ≤ 0 then (.ok 0, s)
  else if s.maxBytes - s.usedBytes - s.reservedBytes < size then
    (.error .cacheFull, { s with refusedBytes := max s.refusedBytes size })
  else (.ok size.toNat, { s with reservedBytes := s.reservedBytes + size })

def State.giveBack (s : State) (w : Nat) (r : Write) (f : Write → Write) : State :=
  { s with reservedBytes := s.reservedBytes - r.held, writes := s.writes.modify w f }

def dropTemp (disk : Files Place) (p : Place) (ok : Bool) : Files Place := if ok then disk.set p none else disk

section Shards

-- The shard of a name: 256 mutexes, chosen by a hash.
variable (shard : Entry → Nat)

def Op.locks : Op → Nat → Bool
  | .commit c _, k => shard c.dest == k
  | .delete e _, k => shard e == k
  | .quarantine b id _, k => shard (.contents b id) == k
  | .deleteBucketDir _ _, _ => true
  | .deleteUpload _ _, _ => false
  | .done, _ => false

def Op.locking : Op → Bool
  | .deleteUpload _ _ => false
  | .done => false
  | _ => true

def Op.onWrite (w : Nat) : Op → Bool
  | .commit c _ => c.w == w
  | _ => false

inductive Action
  | reserve (home : Entry) (size : Int)
  | createTemp (w : Nat) (ok : Bool)
  | copy (w k : Nat)
  | stage (w : Nat)
  | abandon (w : Nat) (removed : Bool)
  | rollback (w : Nat) (removed : Bool)
  | commitAs (w : Nat) (dest : Entry)
  | delete (e : Entry)
  | quarantine (bucket id : Nat)
  | deleteBucketDir (bucket : Nat)
  | deleteUpload (upload : Nat)
  | advance (i : Nat) (ans : Answer)

/-- The operation that an action begins, once the mutexes it waits for are free. -/
def State.begins (s : State) : Action → Option Op
  | .commitAs w dest =>
    (s.writes.row w).bind fun r =>
      if r.phase = .staged ∧ !r.committed ∧ !s.ops.any (fun _ op => op.onWrite w) ∧
          !s.ops.any (fun _ op => op.locks shard (shard dest)) then
        some (.commit ⟨w, r.home, dest, r.length⟩ .stat)
      else none
  | .delete e => if !s.ops.any (fun _ op => op.locks shard (shard e)) then some (.delete e .stat) else none
  | .quarantine b id =>
    if !s.ops.any (fun _ op => op.locks shard (shard (.contents b id))) then some (.quarantine b id .stat) else none
  | .deleteBucketDir b => if !s.ops.any (fun _ op => op.locking) then some (.deleteBucketDir b .walk) else none
  | .deleteUpload u => some (.deleteUpload u .walk)
  | _ => none

def State.apply (s : State) (i : Nat) (a : After) : State :=
  let s₁ := { s with
    disk := a.disk
    ops := s.ops.modify i fun _ => a.op
    usedBytes := s.usedBytes + a.charge
    unreserved := s.unreserved + a.unreserved }
  match a.settles.bind fun w => (s.writes.row w).map fun r => (w, r) with
  | some (w, r) =>
    { s₁.giveBack w r Write.commit with
      unreserved := s₁.unreserved + if r.rolledBack then r.length else 0 }
  | none => s₁

/-- The steps of a staged write by itself, up to where it returns, and its rollback. -/
def State.stepWrite (s : State) (w : Nat) (r : Write) : Action → Option State
  | .createTemp _ ok =>
    if r.phase = .reserved then
      some (if ok then { s with disk := s.disk.set (.temp r.home w) (some 0), writes := s.writes.modify w Write.created }
        else s.giveBack w r Write.fail)
    else none
  -- `sizeLimitWriter` refuses a write past the size that was reserved. The file may have lost its name meanwhile.
  | .copy _ k =>
    if r.phase = .writing ∧ r.length + k ≤ r.size then
      some { s with
        disk := s.disk.set (.temp r.home w) ((s.disk.size (.temp r.home w)).map fun _ => r.length + k)
        writes := s.writes.modify w (Write.grown k) }
    else none
  | .stage _ => if r.phase = .writing then some { s with writes := s.writes.modify w Write.staged } else none
  | .abandon _ removed =>
    if r.phase = .writing then
      some { s.giveBack w r Write.fail with disk := dropTemp s.disk (.temp r.home w) removed }
    else none
  | .rollback _ removed =>
    if r.phase = .staged ∧ !r.committed ∧ !s.ops.any (fun _ op => op.onWrite w) then
      some { s.giveBack w r Write.rollback with disk := dropTemp s.disk (.temp r.home w) removed }
    else none
  | _ => none

def step (s : State) (a : Action) : Option State :=
  match a with
  | .reserve home size =>
    match s.reserve size with
    | (.ok held, s') => some { s' with writes := s'.writes.insert ⟨home, size.toNat, held, 0, .reserved, false, false⟩ }
    | (.error _, s') => some s'
  | .createTemp w _ | .copy w _ | .stage w | .abandon w _ | .rollback w _ =>
    (s.writes.row w).bind fun r => s.stepWrite w r a
  | .advance i ans =>
    (s.ops.row i).bind fun op => (op.next s.disk ans).map fun after => s.apply i after
  | _ => (s.begins shard a).map fun op => { s with ops := s.ops.insert op }

/-- `NewFilesystem`: the walk of the cache root has found the files that are there. -/
def opened (maxBytes : Int) (disk : Files Place) : State :=
  ⟨maxBytes, disk.total Place.counted, 0, 0, disk, .empty, .empty, 0⟩

/-- The operations together with the staged writes that reserve capacity, copy and are rolled back. -/
def machine : Lts State Action where
  init s := ∃ maxBytes disk, s = opened maxBytes disk
  step := step shard

end Shards

end SynapS3.Capacity
