import Mathlib.Data.List.Sort
import Mathlib.Data.String.Basic
import SynapS3.Lib.Sql

/-!
# `Object.Model` — the object and version rows of a bucket, and how they are read

`model.Object` and `model.ObjectVersion` as `object_repo.go` reads them. A key `κ` is a bucket and a key in
it, which `idx_objects_bucket_key` keeps unique. A version ID is a number here; its text, which breaks ties
between equal times, is `VersionIDs.text`. The row of a deleted version stays as a mark that its ID is used:
`NewVersionID` does not draw an ID twice. `fk_object_versions_object` ties a version to the object of its own
key, so `WHERE object_id = ?` is read together with the key.

What only other tables know (the storage of a version's content) is left out; it can make an operation
refuse, and a statement that fails stands for that.
-/

namespace SynapS3.Object

open ReadCommitted

/-- The texts of version IDs (`ulid.Make().String()`). -/
class VersionIDs where
  text : Nat → String

structure Version (κ : Type) where
  id : Nat
  key : κ
  objectID : Nat
  contentID : Option Nat
  size : Int
  etag : String
  contentType : String
  metadata : List (String × String)
  systemMetadata : List (String × String)
  isDeleteMarker : Bool
  createdAt : Int
  deriving DecidableEq

/-- `model.Object`, without its bucket and key. -/
structure Obj where
  id : Nat
  currentVersionID : Option Nat
  deriving DecidableEq

/-- The rows of the two tables. -/
inductive Row (κ : Type) where
  | object (k : κ)
  | version (n : Nat)
  deriving DecidableEq

/-- What a row holds; a version row that is `none` belongs to a version that was deleted. -/
abbrev Row.Value {κ : Type} : Row κ → Type
  | .object _ => Obj
  | .version _ => Option (Version κ)

theorem Row.version_ne_object {κ : Type} (n : Nat) (k : κ) : Row.version n ≠ .object k := nofun

theorem Row.object_ne_version {κ : Type} (k : κ) (n : Nat) : Row.object k ≠ .version n := nofun

abbrev ObjectRows (κ : Type) := Rows (Row.Value (κ := κ))

variable {κ : Type} [DecidableEq κ]

def ObjectRows.version (rows : ObjectRows κ) (n : Nat) : Option (Version κ) := (rows (.version n)).join

def selectVersionByBucketKeyAndID (rows : ObjectRows κ) (k : κ) (n : Nat) : Option (Version κ) :=
  (rows.version n).filter fun v => v.key = k

/-- `selectCurrentVersionByBucketAndKey`: the version that the object of the key points at. -/
def selectCurrentVersionByBucketAndKey (rows : ObjectRows κ) (k : κ) : Option (Version κ) :=
  (rows (.object k)).bind fun o => o.currentVersionID.bind fun n =>
    (rows.version n).filter fun v => v.key = k ∧ v.objectID = o.id

def versionsOf (rows : ObjectRows κ) (seq : Nat) (k : κ) (objectID : Nat) : List (Version κ) :=
  (List.range seq).filterMap fun n => (rows.version n).filter fun v => v.key = k ∧ v.objectID = objectID

section Order

variable [VersionIDs]

/-- `v` comes before `w` by `created_at DESC, version_id DESC`, or is as new as it. -/
def Version.NotOlder (v w : Version κ) : Prop :=
  w.createdAt < v.createdAt ∨
    (w.createdAt = v.createdAt ∧ VersionIDs.text w.id ≤ VersionIDs.text v.id)

instance : DecidableRel (Version.NotOlder (κ := κ)) := fun _ _ => inferInstanceAs (Decidable (_ ∨ _))

def selectVersionsByObjectNewestFirst (rows : ObjectRows κ) (seq : Nat) (k : κ) (objectID : Nat) :
    List (Version κ) :=
  (versionsOf rows seq k objectID).insertionSort Version.NotOlder

def selectLatestVersionByObjectIDExcluding (rows : ObjectRows κ) (seq : Nat) (k : κ) (objectID : Nat)
    (exclude : Nat) : Option (Version κ) :=
  (((versionsOf rows seq k objectID).filter fun v => v.id ≠ exclude).insertionSort Version.NotOlder).head?

end Order

/-! ## Conditions of a request -/

/-- `ObjectCondition`: what is wrong with the version, `none` if nothing is. -/
abbrev ObjectCondition (κ : Type) := Option (Version κ) → Option String

/-- `checkObjectConditions`: the first condition that is not nil and fails. -/
def checkObjectConditions (version : Option (Version κ)) (conditions : List (Option (ObjectCondition κ))) :
    Option String :=
  conditions.findSome? fun condition => condition.bind fun check => check version

/-- `strings.Trim(value, "\"")`. -/
def normalizedETag (value : String) : String :=
  String.ofList ((value.toList.dropWhile (· = '"')).reverse.dropWhile (· = '"')).reverse

/-- `EvaluateObjectPutPreconditions` of the gateway: what is wrong with writing over an object of this ETag
    that exists or not, given If-Match and If-None-Match. -/
abbrev PutPreconditions := String → Option String → Option String → Bool → Option String

def writeObjectCondition (evaluate : PutPreconditions) (ifMatch ifNoneMatch : Option String) :
    Option (ObjectCondition κ) :=
  if ifMatch = none ∧ ifNoneMatch = none then none
  else some fun version =>
    let live := version.filter fun v => !v.isDeleteMarker
    evaluate ((live.map (·.etag)).getD "") (ifMatch.map normalizedETag) (ifNoneMatch.map normalizedETag)
      live.isSome

/-! ## The record -/

inductive OpKind where
  | write
  | deleteMarker
  | restore
  | removeMarker
  | undelete
  | deleteVersion
  | deleteObject
  deriving DecidableEq

/-- One commit that moved the current version of a key: by which request, the version it published, the
    conditions it had, and the version that is current after it. -/
structure Entry (κ : Type) where
  op : OpKind
  key : κ
  published : Option Nat
  conditions : List (Option (ObjectCondition κ))
  after : Option (Version κ)

/-- The record: the commits in their order, the version IDs of requests that were told of success, and the
    times that delete markers were going to have when their transaction had locked the object. -/
structure Record (κ : Type) where
  log : List (Entry κ) := []
  answered : List Nat := []
  markers : List (κ × Int) := []

/-- The current version of a key as the commits left it. -/
def left (log : List (Entry κ)) (k : κ) : Option (Version κ) :=
  ((log.filter fun e => e.key = k).getLast?).bind (·.after)

inductive Refusal where
  | notFound
  | conflict
  | invalidInput
  | alreadyCurrent
  | alreadyExists
  | concurrentObjectCreate
  | condition (err : String)
  deriving DecidableEq

abbrev ObjectSql (κ α : Type) := Sql (Row.Value (κ := κ)) (Record κ) Refusal α
abbrev ObjectSession (κ α : Type) := Session (Row.Value (κ := κ)) (Record κ) α
abbrev ObjectShared (κ : Type) := Shared (Row.Value (κ := κ)) (Record κ)
abbrev ObjectSnap (κ : Type) := Snap (Row.Value (κ := κ)) (Record κ)

end SynapS3.Object
