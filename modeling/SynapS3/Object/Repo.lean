import SynapS3.Object.Model

/-!
# `Object.Repo` — the transactions that write versions

The writing half of `object_repo.go`, statement by statement: where each operation locks the object, where
it reads the clock, and what it does when there is no object to lock. `CreatedAt` of a new version is the
clock reading of the transaction, except that a delete marker is built once for all attempts and keeps the
first time it was given.

`program` is a request with the attempts that the code makes: a refusal that says the object was created
concurrently and a failure that the database calls temporary are retried.
-/

namespace SynapS3.Object

open ReadCommitted

variable {κ : Type} [DecidableEq κ]

/-- `ObjectVersion` as the caller fills it in. -/
structure Draft (κ : Type) where
  key : κ
  contentID : Option Nat
  size : Int
  etag : String
  contentType : String
  metadata : List (String × String)
  systemMetadata : List (String × String)

def Draft.version (d : Draft κ) (n objectID : Nat) (createdAt : Int) : Version κ where
  id := n
  key := d.key
  objectID := objectID
  contentID := d.contentID
  size := d.size
  etag := d.etag
  contentType := d.contentType
  metadata := d.metadata
  systemMetadata := d.systemMetadata
  isDeleteMarker := false
  createdAt := createdAt

def deleteMarker (k : κ) (n objectID : Nat) (createdAt : Int) : Version κ where
  id := n
  key := k
  objectID := objectID
  contentID := none
  size := 0
  etag := ""
  contentType := ""
  metadata := []
  systemMetadata := []
  isDeleteMarker := true
  createdAt := createdAt

def lockCurrentObjectIfExists (k : κ) : ObjectSql κ Unit := do
  let _ ← Sql.lock (.object k)
  pure ()

/-- `selectObjectByBucketAndKey`, which locks as well. -/
def selectObjectByBucketAndKey (k : κ) : ObjectSql κ (Option Obj) := Sql.lock (Row.object k)

/-- `checkCurrentObjectConditions`: the current version is only read if there is a condition. -/
def checkCurrentObjectConditions (k : κ) (conditions : List (Option (ObjectCondition κ))) : ObjectSql κ Unit :=
  if conditions.any (·.isSome) then do
    let (rows, _) ← Sql.look
    match checkObjectConditions (selectCurrentVersionByBucketAndKey rows k) conditions with
    | some err => Sql.refuse (.condition err)
    | none => pure ()
  else pure ()

/-- `INSERT INTO objects`; the pointer is empty until there is a version. -/
def insertObject (k : κ) : ObjectSql κ Nat := do
  let id ← Sql.nextval
  Sql.demand (← Sql.insert (.object k) ⟨id, none⟩) .concurrentObjectCreate
  pure id

def insertObjectVersion (v : Version κ) : ObjectSql κ Unit := do
  Sql.demand (← Sql.insert (.version v.id) (some v)) .alreadyExists

def setCurrentVersion (k : κ) (objectID : Nat) (current : Option Nat) : ObjectSql κ Bool :=
  Sql.update (.object k) fun o =>
    if o.id = objectID then some (some { o with currentVersionID := current }) else none

def deleteVersion (n : Nat) (p : Version κ → Bool) : ObjectSql κ Bool :=
  Sql.update (.version n) fun row => if row.any p then some (some none) else none

def deleteObject (k : κ) (objectID : Nat) : ObjectSql κ Bool :=
  Sql.update (.object k) fun o => if o.id = objectID then some none else none

/-- `createVersionAndSetCurrentFromExisting`: the clock is read with the object locked. -/
def createVersionAndSetCurrentFromExisting (d : Draft κ) (n : Nat) (existing : Option Obj) :
    ObjectSql κ (Version κ) := do
  let now ← Sql.now
  match existing with
  | none =>
    let id ← insertObject d.key
    insertObjectVersion (d.version n id now)
    let _ ← setCurrentVersion d.key id (some n)
    pure (d.version n id now)
  | some o =>
    insertObjectVersion (d.version n o.id now)
    let _ ← setCurrentVersion d.key o.id (some n)
    pure (d.version n o.id now)

/-- `createVersionAndSetCurrent`: puts, copies and completions of multipart uploads. -/
def createVersionAndSetCurrent (d : Draft κ) (n : Nat) (conditions : List (Option (ObjectCondition κ))) :
    ObjectSql κ (Version κ) := do
  lockCurrentObjectIfExists d.key
  let existing ← selectObjectByBucketAndKey d.key
  checkCurrentObjectConditions d.key conditions
  createVersionAndSetCurrentFromExisting d n existing

/-- The first stretch of `createDeleteMarkerAndSetCurrent`, up to where the marker gets its time: the clock
    is read before the object is locked. The marker keeps the time `created` of an earlier attempt. -/
def prepareDeleteMarker (k : κ) (conditions : List (Option (ObjectCondition κ))) (created : Option Int) :
    ObjectSql κ (Nat × Int) := do
  let now ← Sql.now
  lockCurrentObjectIfExists k
  let existing ← selectObjectByBucketAndKey k
  Sql.note fun record => { record with markers := (k, created.getD now) :: record.markers }
  checkCurrentObjectConditions k conditions
  match existing with
  | none =>
    let id ← insertObject k
    pure (id, now)
  | some o =>
    -- touches `updated_at` only
    let _ ← setCurrentVersion k o.id o.currentVersionID
    pure (o.id, now)

def publishDeleteMarker (k : κ) (n : Nat) (created : Option Int) (target : Nat × Int) :
    ObjectSql κ (Version κ) := do
  let marker := deleteMarker k n target.1 (created.getD target.2)
  insertObjectVersion marker
  let _ ← setCurrentVersion k target.1 (some n)
  pure marker

/-- `restoreSourceAlreadyCurrent`; `served` is what the storage tables say of the current version, that it
    has not failed and is cached or stored. -/
def restoreSourceAlreadyCurrent (served : Bool) (source current : Version κ) : Bool :=
  source.id == current.id ||
    (served && !current.isDeleteMarker && source.contentID.isSome && source.contentID == current.contentID &&
      current.contentType == source.contentType && current.systemMetadata == source.systemMetadata &&
      current.metadata == source.metadata)

/-- `createRestoredVersionAndSetCurrent`: the pointer is moved by a compare-and-set. -/
def createRestoredVersionAndSetCurrent (d : Draft κ) (n source expected : Nat) (served : Bool) :
    ObjectSql κ (Version κ) := do
  lockCurrentObjectIfExists d.key
  let (rows, _) ← Sql.look
  let src ← Sql.orRefuse (selectVersionByBucketKeyAndID rows d.key source) .notFound
  Sql.demand (!src.isDeleteMarker) .conflict
  let (rows, _) ← Sql.look
  let current ← Sql.orRefuse (selectCurrentVersionByBucketAndKey rows d.key) .conflict
  Sql.demand (current.id == expected && current.objectID == src.objectID) .conflict
  Sql.demand (!restoreSourceAlreadyCurrent served src current) .alreadyCurrent
  let now ← Sql.now
  insertObjectVersion (d.version n src.objectID now)
  let moved ← Sql.update (.object d.key) fun o =>
    if o.id = src.objectID ∧ o.currentVersionID = some expected then
      some (some { o with currentVersionID := some n })
    else none
  Sql.demand moved .conflict
  pure (d.version n src.objectID now)

section Deletes

variable [VersionIDs]

def repointObjectAwayFromVersion (k : κ) (objectID n : Nat) : ObjectSql κ (Option (Version κ)) := do
  let (rows, seq) ← Sql.look
  let next := selectLatestVersionByObjectIDExcluding rows seq k objectID n
  let _ ← setCurrentVersion k objectID (next.map (·.id))
  pure next

def deleteObjectIdentityIfEmpty (k : κ) (objectID : Nat) : ObjectSql κ Unit := do
  let (rows, seq) ← Sql.look
  if (versionsOf rows seq k objectID).isEmpty then
    let _ ← deleteObject k objectID
    pure ()
  else pure ()

/-- The pointer leaves the version, the row goes, and with the last row the object. Only one of the two deletes looks
    at whether a row was deleted (`counted`). The answer is the version that is current afterwards, if the deleted one
    was. -/
def removeVersion (k : κ) (v : Version κ) (isCurrent : Bool) (p : Version κ → Bool) (counted : Bool) :
    ObjectSql κ (Option (Option (Version κ))) := do
  if isCurrent then
    let next ← repointObjectAwayFromVersion k v.objectID v.id
    let gone ← deleteVersion v.id p
    Sql.demand (gone || !counted) .notFound
    deleteObjectIdentityIfEmpty k v.objectID
    pure (some next)
  else
    let gone ← deleteVersion v.id p
    Sql.demand (gone || !counted) .notFound
    pure none

def deleteMarkerVersion (k : κ) (n : Nat) (conditions : List (Option (ObjectCondition κ))) :
    ObjectSql κ (Option (Option (Version κ))) := do
  lockCurrentObjectIfExists k
  let (rows, _) ← Sql.look
  let version ← Sql.orRefuse (selectVersionByBucketKeyAndID rows k n) .notFound
  Sql.demand version.isDeleteMarker .invalidInput
  match checkObjectConditions (some version) conditions with
  | some err => Sql.refuse (.condition err)
  | none =>
    let isCurrent := (selectCurrentVersionByBucketAndKey rows k).any fun w => w.id = n
    removeVersion k version isCurrent (fun w => w.key = k) false

def lockObjectVersionsByID : List Nat → ObjectSql κ Unit
  | [] => pure ()
  | n :: ns => do
    let row ← Sql.lock (.version n)
    Sql.demand row.join.isSome .notFound
    lockObjectVersionsByID ns

def deleteObjectVersionPermanently (k : κ) (n : Nat) (condition : Option (ObjectCondition κ)) :
    ObjectSql κ (Option (Option (Version κ))) := do
  let (rows, _) ← Sql.look
  Sql.demand (selectVersionByBucketKeyAndID rows k n).isSome .notFound
  lockCurrentObjectIfExists k
  lockObjectVersionsByID [n]
  let (rows, _) ← Sql.look
  let version ← Sql.orRefuse (selectVersionByBucketKeyAndID rows k n) .notFound
  Sql.demand (!version.isDeleteMarker) .conflict
  match checkObjectConditions (some version) [condition] with
  | some err => Sql.refuse (.condition err)
  | none =>
    let wasCurrent := (selectCurrentVersionByBucketAndKey rows k).any fun w => w.id = n
    removeVersion k version wasCurrent (fun _ => true) true

/-- `DELETE FROM object_versions WHERE version_id IN (?)`, or of all of an object, one row at a time. -/
def deleteVersions (p : Version κ → Bool) : List Nat → ObjectSql κ Unit
  | [] => pure ()
  | n :: ns => do
    let _ ← deleteVersion n p
    deleteVersions p ns

def restoreCurrentDeleteMarkerStack (k : κ) (n : Nat) : ObjectSql κ (Version κ) := do
  lockCurrentObjectIfExists k
  let (rows, _) ← Sql.look
  let current ← Sql.orRefuse (selectCurrentVersionByBucketAndKey rows k) .notFound
  Sql.demand (current.isDeleteMarker && current.id == n) .conflict
  let (rows, seq) ← Sql.look
  let versions := selectVersionsByObjectNewestFirst rows seq k current.objectID
  let markers := versions.takeWhile (·.isDeleteMarker)
  let target ← Sql.orRefuse (versions.dropWhile (·.isDeleteMarker)).head? .notFound
  Sql.demand (!markers.isEmpty) .conflict
  let _ ← setCurrentVersion k current.objectID (some target.id)
  deleteVersions (fun w => w.key = k ∧ w.objectID = current.objectID) (markers.map (·.id))
  pure target

def deleteDeletedObjectPermanently (k : κ) (n : Nat) : ObjectSql κ Unit := do
  let (rows, _) ← Sql.look
  let current ← Sql.orRefuse (selectCurrentVersionByBucketAndKey rows k) .notFound
  Sql.demand (current.isDeleteMarker && current.id == n) .conflict
  let (rows, seq) ← Sql.look
  let ids := (selectVersionsByObjectNewestFirst rows seq k current.objectID).map (·.id)
  Sql.demand (!ids.isEmpty) .notFound
  lockCurrentObjectIfExists k
  lockObjectVersionsByID ids
  let (rows, _) ← Sql.look
  let current ← Sql.orRefuse (selectCurrentVersionByBucketAndKey rows k) .notFound
  Sql.demand (current.isDeleteMarker && current.id == n) .conflict
  let (rows, seq) ← Sql.look
  let versions := selectVersionsByObjectNewestFirst rows seq k current.objectID
  Sql.demand (decide ((versions.map (·.id)).Perm ids)) .conflict
  let _ ← setCurrentVersion k current.objectID none
  let (rows, seq) ← Sql.look
  deleteVersions (fun w => w.key = k ∧ w.objectID = current.objectID)
    ((versionsOf rows seq k current.objectID).map (·.id))
  let _ ← deleteObject k current.objectID
  pure ()

end Deletes

/-! ## Requests -/

/-- The requests that write versions; `tries` is how many more attempts the transaction gets. -/
inductive Request (κ : Type) where
  | write (d : Draft κ) (conditions : List (Option (ObjectCondition κ))) (tries : Nat)
  | deleteMarker (k : κ) (conditions : List (Option (ObjectCondition κ))) (tries : Nat)
  | restore (d : Draft κ) (source expected : Nat) (served : Bool) (tries : Nat)
  | removeMarker (k : κ) (n : Nat) (conditions : List (Option (ObjectCondition κ))) (tries : Nat)
  | undelete (k : κ) (n : Nat) (tries : Nat)
  | deleteVersion (k : κ) (n : Nat) (condition : Option (ObjectCondition κ)) (tries : Nat)
  | deleteObject (k : κ) (n : Nat) (tries : Nat)

def Refusal.again : Refusal → Bool
  | .concurrentObjectCreate => true
  | _ => false

def Record.commit (e : Entry κ) (record : Record κ) : Record κ := { record with log := record.log ++ [e] }

def Record.answer (n : Nat) (record : Record κ) : Record κ := { record with answered := n :: record.answered }

/-- Draw a version ID (`NewVersionID`), publish under it, and tell the caller. -/
def publishing (publish : Nat → ObjectSession κ (Except (Fault Refusal) (Version κ))) : ObjectSession κ Unit :=
  .act .nextval fun
    | .error _ => .ret ()
    | .ok n => Prog.bind (publish n) fun
      | .ok _ => .act (.note (Record.answer n)) fun _ => .ret ()
      | .error _ => .ret ()

def moving (op : OpKind) (k : κ) (conditions : List (Option (ObjectCondition κ))) (tries : Nat)
    (body : ObjectSql κ (Option (Option (Version κ)))) : ObjectSession κ Unit :=
  Prog.bind (Sql.retrying Refusal.again body
    (fun moved => match moved with
      | some after => Record.commit ⟨op, k, none, conditions, after⟩
      | none => id) tries) fun _ => .ret ()

/-- The program of a request, with its retries. -/
def program [VersionIDs] : Request κ → ObjectSession κ Unit
  | .write d conditions tries => publishing fun n =>
    Sql.retrying Refusal.again (createVersionAndSetCurrent d n conditions)
      (fun v => Record.commit ⟨.write, d.key, some n, conditions, some v⟩) tries
  | .deleteMarker k conditions tries => publishing fun n =>
    Sql.retryingFrom Refusal.again (prepareDeleteMarker k conditions) (publishDeleteMarker k n)
      (fun v => Record.commit ⟨.deleteMarker, k, some n, conditions, some v⟩)
      (fun created target => some (created.getD target.2)) tries none
  | .restore d source expected served tries => publishing fun n =>
    Sql.retrying Refusal.again (createRestoredVersionAndSetCurrent d n source expected served)
      (fun v => Record.commit ⟨.restore, d.key, some n, [], some v⟩) tries
  | .removeMarker k n conditions tries => moving .removeMarker k [] tries (deleteMarkerVersion k n conditions)
  | .undelete k n tries =>
    moving .undelete k [] tries do return some (some (← restoreCurrentDeleteMarkerStack k n))
  | .deleteVersion k n condition tries =>
    moving .deleteVersion k [] tries (deleteObjectVersionPermanently k n condition)
  | .deleteObject k n tries =>
    moving .deleteObject k [] tries do
      deleteDeletedObjectPermanently k n
      return some none

/-- The version IDs that a request names. -/
def Request.names : Request κ → List Nat
  | .write _ _ _ | .deleteMarker _ _ _ => []
  | .restore _ source expected _ _ => [source, expected]
  | .removeMarker _ n _ _ | .undelete _ n _ | .deleteVersion _ n _ _ | .deleteObject _ n _ => [n]

def Request.named (b : Request κ) (s : ObjectShared κ) : Bool :=
  b.names.all fun n => (s.rows (.version n)).isSome

end SynapS3.Object
