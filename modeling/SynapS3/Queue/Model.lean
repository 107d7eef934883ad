import Mathlib.Data.List.Sort
import SynapS3.Lib.Sql
import SynapS3.Task.Repo

/-!
# `Queue.Model` — tasks, their indexes and the schedules, row by row

The tables `tasks` and `task_schedules` as transactions that interleave statement by statement see them. The
two unique indexes of `tasks` are rows of their own, since it is their entries that an insert waits for:
`uq_tasks_identity`, which leaves out superseded rounds and rounds without a generation, and
`uq_tasks_retry_parent`.

`Registry` is what the program is put together from at start: the codec and the identity of every type, and
the schedules.
-/

namespace SynapS3.Queue

open ReadCommitted Tasks

def isRecurringSystem : TaskType → Bool
  | .cacheCapacityReconcile | .cacheLocalReconcile | .observabilityRefresh | .approvedProviderRefresh
  | .endorsedProviderRefresh => true
  | _ => false

/-- The columns of `uq_tasks_identity`. -/
structure Identity where
  type : TaskType
  subjectType : String
  subjectKey : String
  generation : Int
  deriving DecidableEq

/-- `model.TaskSchedule`, a row of `task_schedules`. -/
structure TaskSchedule where
  nextRunAt : Int
  latestTaskID : Option Nat
  generation : Int
  deriving DecidableEq

/-- The rows: tasks by ID, the entries of their two indexes, and schedules by key. -/
inductive Row where
  | task (id : Nat)
  | identity (k : Identity)
  | child (parent : Nat)
  | schedule (key : String)
  deriving DecidableEq

/-- What the rows hold; an index entry holds the ID of its task. -/
abbrev Row.Value (ι κ : Type) : Row → Type
  | .task _ => Task ι κ
  | .identity _ => Nat
  | .child _ => Nat
  | .schedule _ => TaskSchedule

variable {ι κ : Type}

/-- The entry of a task in `uq_tasks_identity`; a NULL generation conflicts with nothing. -/
def identityOf (t : Task ι κ) : Option Identity :=
  t.generation.map fun g => ⟨t.type, t.subjectType, t.subjectKey, g⟩

/-- `worker.ScheduleDefinition`. -/
structure ScheduleDefinition where
  key : String
  type : TaskType
  interval : Int
  deriving DecidableEq

/-- `worker.Registry`, with what `RegisterSchedule` checks. -/
structure Registry (ι κ : Type) where
  inputVersion : TaskType → Nat
  canonicalize : TaskType → ι → Option ι
  /-- `Definition.Identity`: the subject and the generation of an input. -/
  identity : TaskType → ι → Option (String × String × Option Int)
  manualRetryAllowed : Task ι κ → Bool
  cycleInput : Int → ι
  periodic : List ScheduleDefinition
  keys : (periodic.map (·.key)).Nodup
  types : (periodic.map (·.type)).Nodup
  recurring : ∀ d ∈ periodic, isRecurringSystem d.type = true
  named : ∀ d ∈ periodic, d.key ≠ ""

def Registry.scheduleFor (g : Registry ι κ) (type : TaskType) : Option ScheduleDefinition :=
  g.periodic.find? fun d => d.type == type

inductive Refusal where
  | repo (e : RepoError)
  | inputConflict
  | retryUnsupported
  | unknownInput
  | uniqueViolation
  deriving DecidableEq

/-- `ErrTaskIdentityContended` is the refusal that `runRepositoryTx` tries again after. -/
def contended : Refusal → Bool
  | .repo .taskIdentityContended => true
  | _ => false

/-- What is recorded besides the rows: the successors that `Retry` answered with, the schedules in the order
    of their dispatched cycles, and the claims that ran into the conflict branch of `settleSchedule`. -/
structure Record where
  answers : List (Nat × Nat) := []
  cycles : List String := []
  conflicts : List Nat := []
  deriving DecidableEq

def Record.answer (id successor : Nat) (r : Record) : Record := { r with answers := (id, successor) :: r.answers }

def Record.cycle (key : String) (r : Record) : Record := { r with cycles := key :: r.cycles }

def Record.conflict (id : Nat) (r : Record) : Record := { r with conflicts := id :: r.conflicts }

abbrev QueueRows (ι κ : Type) := Rows (Row.Value ι κ)
abbrev QueueShared (ι κ : Type) := Shared (Row.Value ι κ) Record
abbrev QueueSnap (ι κ : Type) := Snap (Row.Value ι κ) Record
abbrev QueueSql (ι κ α : Type) := Sql (Row.Value ι κ) Record Refusal α
abbrev QueueSession (ι κ α : Type) := Session (Row.Value ι κ) Record α

/-! ## Queries -/

def getByIdentity (rows : QueueRows ι κ) (k : Identity) : Option (Nat × Task ι κ) :=
  (rows (.identity k)).bind fun id => (rows (.task id)).bind fun t =>
    if identityOf t = some k ∧ t.supersededAt = none then some (id, t) else none

def getDirectSuccessor (rows : QueueRows ι κ) (id : Nat) : Option (Nat × Task ι κ) :=
  (rows (.child id)).bind fun c => (rows (.task c)).bind fun t =>
    if t.retryOfTaskID = some id then some (c, t) else none

def getByTaskID (g : Registry ι κ) (rows : QueueRows ι κ) (id : Nat) : Option ScheduleDefinition :=
  g.periodic.find? fun d => (rows (.schedule d.key)).any fun s => s.latestTaskID == some id

/-- `ListDue`, of the schedules that are registered, `ORDER BY next_run_at, key`. -/
def listDue (g : Registry ι κ) (rows : QueueRows ι κ) (now : Int) : List ScheduleDefinition :=
  let due := g.periodic.filterMap fun d =>
    (rows (.schedule d.key)).bind fun s => if s.nextRunAt ≤ now then some (s.nextRunAt, d) else none
  (due.insertionSort fun a b => a.1 < b.1 ∨ a.1 = b.1 ∧ a.2.key ≤ b.2.key).map (·.2)

/-- `ListCurrentFailedForSubject` with one type: the page, newest first, and the ID to go on before (0 at the
    end). -/
def listCurrentFailedForSubject (rows : QueueRows ι κ) (seq : Nat) (subjectType subjectKey : String)
    (type : TaskType) (before limit : Nat) : List Nat × Nat :=
  let found := (List.range seq).reverse.filter fun id =>
    (before == 0 || decide (id < before)) && (rows (.task id)).any fun t =>
      t.status == .failed && t.supersededAt.isNone && t.subjectType == subjectType &&
        t.subjectKey == subjectKey && t.type == type
  let page := found.take limit
  (page, if limit < found.length then page.getLastD 0 else 0)

variable {rows : QueueRows ι κ} {id : Nat} {d : ScheduleDefinition} {t : Task ι κ} {g : Registry ι κ}
  {e : ScheduleDefinition}

theorem getByIdentity_eq_some {k : Identity} :
    getByIdentity rows k = some (id, t) ↔ rows (.identity k) = some id ∧ rows (.task id) = some t ∧
      identityOf t = some k ∧ t.supersededAt = none := by
  unfold getByIdentity
  constructor
  · intro h
    obtain ⟨i, hi, h⟩ := Option.bind_eq_some_iff.mp h
    obtain ⟨u, hu, h⟩ := Option.bind_eq_some_iff.mp h
    split at h
    · next hk =>
        cases h
        exact ⟨hi, hu, hk⟩
    · cases h
  · rintro ⟨hi, ht, hk⟩
    simp [hi, ht, hk]

theorem getDirectSuccessor_eq_some {c : Nat} : getDirectSuccessor rows id = some (c, t) ↔
      rows (.child id) = some c ∧ rows (.task c) = some t ∧ t.retryOfTaskID = some id := by
  unfold getDirectSuccessor
  constructor
  · intro h
    obtain ⟨i, hi, h⟩ := Option.bind_eq_some_iff.mp h
    obtain ⟨u, hu, h⟩ := Option.bind_eq_some_iff.mp h
    split at h
    · next hk =>
        cases h
        exact ⟨hi, hu, hk⟩
    · cases h
  · rintro ⟨hi, ht, hk⟩
    simp [hi, ht, hk]

theorem getByTaskID_eq_some (h : getByTaskID g rows id = some d) :
    d ∈ g.periodic ∧ ∃ s, rows (.schedule d.key) = some s ∧ s.latestTaskID = some id := by
  refine ⟨List.mem_of_find?_eq_some h, ?_⟩
  have hany := List.find?_some h
  cases hs : rows (.schedule d.key) with
  | none => simp [hs] at hany
  | some s => exact ⟨s, rfl, by simpa [hs] using hany⟩

theorem Registry.scheduleFor_eq_some {type : TaskType} (h : g.scheduleFor type = some d) :
    d ∈ g.periodic ∧ d.type = type := by
  have hp := List.find?_some h
  exact ⟨List.mem_of_find?_eq_some h, by simpa using hp⟩

theorem Registry.eq_of_key (g : Registry ι κ) (hd : d ∈ g.periodic) (he : e ∈ g.periodic) (h : d.key = e.key) :
    d = e :=
  List.inj_on_of_nodup_map g.keys hd he h

theorem Registry.eq_of_type (g : Registry ι κ) (hd : d ∈ g.periodic) (he : e ∈ g.periodic)
    (h : d.type = e.type) : d = e :=
  List.inj_on_of_nodup_map g.types hd he h

end SynapS3.Queue
