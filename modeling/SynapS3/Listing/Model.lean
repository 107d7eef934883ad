import SynapS3.Lib.RollUp
import SynapS3.Lib.Utf8
import SynapS3.Object.Model

/-!
# `Listing.Model` — listing the objects and the versions of a bucket

`listing.go` over the queries of `object_repo.go`. Keys, prefixes and delimiters are byte strings: Go compares
strings by their bytes, and so does PostgreSQL under `COLLATE "C"`. `listCurrentObjects` and `listVersions`
are one loop that differs in its query and in its markers (`Walk`): it reads rows in batches, rolls up the
keys that have the delimiter after the prefix, and jumps over a rolled-up prefix to the first key beyond it.

The bucket does not change between the queries, and no query fails. The columns of a version that the
listing does not look at are left out, except for those that `Object.Version` has.
-/

namespace SynapS3.Listing

open Utf8 Object

/-! ## Prefixes -/

/-- `PrefixUpperBound`: the first key beyond all keys with the prefix. -/
def prefixUpperBound (keyPrefix : Bytes) : Option Bytes := (upperBound (runes keyPrefix)).map utf8

def caseSensitivePrefix (keyPrefix key : Bytes) : Bool :=
  if keyPrefix = [] then true
  else match prefixUpperBound keyPrefix with
    | some upper => keyPrefix ≤ key ∧ key < upper
    -- every character is the last one, so only the characters themselves can be compared
    | none => keyPrefix ≤ key ∧ utf8 ((runes key).take (runes keyPrefix).length) = keyPrefix

def trimPrefix (key keyPrefix : Bytes) : Bytes := if keyPrefix <+: key then key.drop keyPrefix.length else key

def listingCommonPrefix (key keyPrefix delimiter : Bytes) : Option Bytes :=
  if delimiter = [] then none
  else (cut delimiter (trimPrefix key keyPrefix)).map fun (before, _) => keyPrefix ++ before ++ delimiter

/-! ## The bucket -/

/-- A row of `objects`. -/
structure ObjectRow extends Obj where
  key : Bytes
  deriving DecidableEq

/-- A row of the listing: a version, and whether its object points at it. -/
structure ListItem extends Version Bytes where
  isCurrent : Bool
  deriving DecidableEq

/-- The objects and the versions of a bucket, with what the schema says of them. -/
structure Bucket [VersionIDs] where
  objects : List ObjectRow
  versions : List (Version Bytes)
  /-- the primary key of `objects` -/
  objects_id : (objects.map fun o => o.id).Nodup
  /-- `idx_objects_bucket_key` -/
  objects_key : (objects.map fun o => o.key).Nodup
  /-- the primary key of `object_versions` -/
  versions_id : (versions.map fun v => VersionIDs.text v.id).Nodup
  /-- `fk_object_versions_object` -/
  version_object : ∀ v ∈ versions, ∃ o ∈ objects, o.id = v.objectID ∧ o.key = v.key
  /-- `chk_objects_identity` -/
  key_ne : ∀ o ∈ objects, o.key ≠ []
  /-- `chk_object_versions_identity` -/
  version_ne : ∀ v ∈ versions, VersionIDs.text v.id ≠ ""
  /-- a text column holds UTF-8 -/
  key_valid : ∀ o ∈ objects, Valid o.key

variable [VersionIDs]

/-- An object with its current version. -/
structure Joined where
  object : ObjectRow
  version : Version Bytes

/-- `JOIN objects AS current_object ON current_object.id = object_version.object_id`. -/
def Bucket.joined (b : Bucket) : List Joined :=
  b.versions.filterMap fun v => (b.objects.find? fun o => o.id = v.objectID).map fun o => ⟨o, v⟩

/-- `withObjectVersionStorageColumns`: the version with `is_current`. -/
def Joined.item (j : Joined) : ListItem :=
  { j.version with isCurrent := j.object.currentVersionID = some j.version.id }

def limit {α : Type} (maxKeys : Int) (rows : List α) : List α :=
  if 0 < maxKeys then rows.take maxKeys.toNat else rows

def Bucket.getVersionByBucketKeyAndID (b : Bucket) (key : Bytes) (versionID : String) : Option (Version Bytes) :=
  b.versions.find? fun v => v.key = key ∧ VersionIDs.text v.id = versionID

def Bucket.listCurrentVersionsByBucket (b : Bucket) (keyPrefix keyBoundary : Bytes) (includeBoundary : Bool)
    (maxKeys : Int) : List ListItem :=
  let q := b.joined.filter fun j =>
    j.object.currentVersionID = some j.version.id ∧ j.version.isDeleteMarker = false
  let q := q.filter fun j => caseSensitivePrefix keyPrefix j.object.key
  let q := q.filter fun j =>
    keyBoundary = [] ∨ if includeBoundary then keyBoundary ≤ j.object.key else keyBoundary < j.object.key
  (limit maxKeys (q.insertionSort fun i j => i.object.key ≤ j.object.key)).map Joined.item

/-- `ORDER BY key ASC, created_at DESC, version_id DESC`. -/
def Joined.InOrder (i j : Joined) : Prop :=
  i.version.key < j.version.key ∨ (i.version.key = j.version.key ∧ i.version.NotOlder j.version)

instance : DecidableRel Joined.InOrder := fun _ _ => inferInstanceAs (Decidable (_ ∨ _))

def Bucket.listVersionsByBucket (b : Bucket) (keyPrefix keyMarker : Bytes) (versionIDMarker : String)
    (maxKeys : Int) (inclusive : Bool) : List ListItem :=
  let q := b.joined.filter fun j => caseSensitivePrefix keyPrefix j.version.key
  let laterKeys := q.filter fun j => keyMarker < j.version.key
  let rows :=
    if keyMarker = [] then q.insertionSort Joined.InOrder
    else if versionIDMarker = "" then
      (if inclusive then q.filter fun j => keyMarker ≤ j.version.key else laterKeys).insertionSort Joined.InOrder
    else match b.getVersionByBucketKeyAndID keyMarker versionIDMarker with
      | none => laterKeys.insertionSort Joined.InOrder
      | some marker =>
        let sameKey := q.filter fun j => j.version.key = keyMarker ∧ ¬ j.version.NotOlder marker
        (limit maxKeys (sameKey.insertionSort Joined.InOrder) ++
          limit maxKeys (laterKeys.insertionSort Joined.InOrder)).insertionSort Joined.InOrder
  (limit maxKeys rows).map Joined.item

/-! ## One page -/

/-- What a call returns: the rows, the common prefixes, whether more follow, and the marker to go on from. -/
structure Page (ρ μ : Type) where
  objects : List ρ
  prefixes : List Bytes
  truncated : Bool
  marker : μ
  deriving DecidableEq

/-- What `listCurrentObjects` and `listVersions` differ in: the key and the marker of a row, the marker of an
    upper bound, the key of a marker, the marker of a page that is not truncated, and the query. -/
structure Walk (ρ μ : Type) where
  key : ρ → Bytes
  mark : ρ → μ
  bound : Bytes → μ
  markerKey : μ → Bytes
  noMarker : μ
  select : Bool → μ → Int → List ρ

/-- The arguments of a listing. -/
structure Query (μ : Type) where
  keyPrefix : Bytes
  delimiter : Bytes
  after : μ
  maxKeys : Int

/-- The variables of the loop; `seenPrefixes` holds what `prefixes` holds. -/
structure Scan (ρ μ : Type) where
  objects : List ρ := []
  prefixes : List Bytes := []
  cursor : μ
  inclusive : Bool := false
  lastMarker : μ
  skipUntil : Bytes := []

namespace Scan

variable {ρ μ : Type}

/-- `len(objects)+len(prefixes) >= maxKeys`. -/
def Full (st : Scan ρ μ) (maxKeys : Int) : Prop := maxKeys ≤ (st.objects.length + st.prefixes.length : Nat)

instance (st : Scan ρ μ) (maxKeys : Int) : Decidable (st.Full maxKeys) := inferInstanceAs (Decidable (_ ≤ _))

/-- `return objects, prefixes, truncated, marker`. -/
def page (st : Scan ρ μ) (truncated : Bool) (marker : μ) : Page ρ μ := ⟨st.objects, st.prefixes, truncated, marker⟩

end Scan

def listingBatchSize : Int := 1000

namespace Walk

variable {ρ μ : Type} (w : Walk ρ μ) (q : Query μ)

/-- `!seen && (afterKey == "" || commonPrefix > afterKey)`. -/
def Fresh (st : Scan ρ μ) (commonPrefix : Bytes) : Prop :=
  commonPrefix ∉ st.prefixes ∧ (w.markerKey q.after = [] ∨ w.markerKey q.after < commonPrefix)

instance (st : Scan ρ μ) (commonPrefix : Bytes) : Decidable (w.Fresh q st commonPrefix) :=
  inferInstanceAs (Decidable (_ ∧ _))

/-- What the loop does with a row that it does not skip: go on, or return a page. -/
def visit (st : Scan ρ μ) (row : ρ) : Except (Page ρ μ) (Scan ρ μ) :=
  let st := { st with cursor := w.mark row, inclusive := false }
  match listingCommonPrefix (w.key row) q.keyPrefix q.delimiter with
  | some commonPrefix =>
    if w.Fresh q st commonPrefix ∧ st.Full q.maxKeys then .error (st.page true st.lastMarker)
    else
      let st := if w.Fresh q st commonPrefix then { st with prefixes := st.prefixes ++ [commonPrefix] } else st
      let st := { st with lastMarker := w.mark row }
      match prefixUpperBound commonPrefix with
      | none => .error (st.page false w.noMarker)
      | some upper => .ok { st with cursor := w.bound upper, inclusive := true, skipUntil := upper }
  | none =>
    if st.Full q.maxKeys then .error (st.page true st.lastMarker)
    else .ok { st with objects := st.objects ++ [row], lastMarker := w.mark row }

def scanRow (st : Scan ρ μ) (row : ρ) : Except (Page ρ μ) (Scan ρ μ) :=
  if st.skipUntil ≠ [] ∧ w.key row < st.skipUntil then .ok st else w.visit q st row

/-- The loop over the batches, of which `n` are read at most. -/
def batches : Nat → Scan ρ μ → Option (Page ρ μ)
  | 0, _ => none
  | n + 1, st =>
    let rows := w.select st.inclusive st.cursor listingBatchSize
    if rows = [] then some (st.page false w.noMarker)
    else match rows.foldlM (w.scanRow q) { st with inclusive := false, skipUntil := [] } with
      | .error page => some page
      | .ok st' =>
        if (rows.length : Int) < listingBatchSize then some (st'.page false w.noMarker) else batches n st'

def list (n : Nat) : Option (Page ρ μ) :=
  if q.maxKeys ≤ 0 then some ⟨[], [], false, w.noMarker⟩
  else w.batches q n { cursor := q.after, lastMarker := q.after }

end Walk

/-- What is particular to the listing of current objects; a marker is a key, the empty key is none. -/
def Bucket.currentWalk (b : Bucket) (keyPrefix : Bytes) : Walk ListItem Bytes where
  key row := row.key
  mark row := row.key
  bound upper := upper
  markerKey marker := marker
  noMarker := []
  select inclusive cursor maxKeys := b.listCurrentVersionsByBucket keyPrefix cursor inclusive maxKeys

def Bucket.listCurrentObjects (n : Nat) (b : Bucket) (keyPrefix delimiter afterKey : Bytes) (maxKeys : Int) :
    Option (Page ListItem Bytes) :=
  (b.currentWalk keyPrefix).list ⟨keyPrefix, delimiter, afterKey, maxKeys⟩ n

/-- What is particular to the listing of versions; a marker is a key and a version ID. -/
def Bucket.versionWalk (b : Bucket) (keyPrefix : Bytes) : Walk ListItem (Bytes × String) where
  key row := row.key
  mark row := (row.key, VersionIDs.text row.id)
  bound upper := (upper, "")
  markerKey marker := marker.1
  noMarker := ([], "")
  select inclusive cursor maxKeys :=
    if inclusive then b.listVersionsByBucket keyPrefix cursor.1 "" maxKeys true
    else b.listVersionsByBucket keyPrefix cursor.1 cursor.2 maxKeys false

def Bucket.listVersions (n : Nat) (b : Bucket) (keyPrefix delimiter keyMarker : Bytes) (versionIDMarker : String)
    (maxKeys : Int) : Option (Page ListItem (Bytes × String)) :=
  (b.versionWalk keyPrefix).list ⟨keyPrefix, delimiter, (keyMarker, versionIDMarker), maxKeys⟩ n

/-- `IsLatest` of a row in the answer to `ListObjectVersions`. -/
def ListItem.isLatest (row : ListItem) : Bool := row.isCurrent

/-! ## All pages -/

/-- A client that asks for page after page, each from the marker of the page before it. It asks for `n` pages
    at most; the page `i` has the size `sizes i`. -/
def listAll {ρ μ : Type} (list : μ → Int → Option (Page ρ μ)) (sizes : Nat → Int) :
    Nat → Nat → μ → Option (List (Page ρ μ))
  | 0, _, _ => none
  | n + 1, i, marker => do
    let page ← list marker (sizes i)
    if page.truncated then
      let pages ← listAll list sizes n (i + 1) page.marker
      return page :: pages
    else return [page]

end SynapS3.Listing
