import ArchiveLedger.Compact.Views
import ArchiveLedger.Foundation.Keyset

/-!
# Finding files

`V2_FILE_FIND_SQL` with the pages of `V2ProjectionDb::find_files`: the filter and its frozen time, the
continuation tokens, the candidate rows in their order, the copy counts of a page and its matching
sources.
-/

namespace ArchiveLedger.Compact

open Relational Transition

/-! ### Requests -/

structure FileFilter where
  locationGroups : List FileLocationGroup
  asOfUtcMs : Option Nat
  collectionId : Option String
  exactPath : Option EncodedPath
  pathPrefix : Option EncodedPath
  identityState : Option String
  objectId : Option String
  externalIdentityId : Option String
deriving DecidableEq, Repr

structure FilePageRequest where
  filter : FileFilter
  limit : Nat
  continuation : Option String

inductive ReviewError where
  | invalidLimit
  | invalidContinuation
  | invalidFilter (message : String)
  | staleContinuation
  | projection (message : String)
  | sqlite
deriving DecidableEq, Repr

abbrev ReviewResult (α : Type) := Except ReviewError α

def maxPageSize : Nat := 1000

def validateLimit (limit : Nat) : ReviewResult Unit :=
  if 1 ≤ limit ∧ limit ≤ maxPageSize then .ok () else .error .invalidLimit

def validateFilter (filter : FileFilter) : ReviewResult Unit :=
  if (filter.locationGroups.any fun group =>
      group.locationIds.isEmpty || group.verifiedWithinMs.any fun age => decide (i64Max < age)) ∨
      filter.asOfUtcMs.any (fun time => decide (i64Max < time)) then
    .error (.invalidFilter "empty location group or out-of-range time")
  else if filter.exactPath.isSome ∧ filter.pathPrefix.isSome then .error .invalidContinuation
  else .ok ()

/-! ### Paths -/

/-- `LosslessPath::from_parts` of `review.rs`. -/
def fromParts (encoding : String) (bytes : Bytes) (display : String) : LosslessPath :=
  if encoding = "utf8" then ⟨encoding, display, String.fromUTF8? ⟨bytes.toArray⟩, none⟩
  else ⟨encoding, display, none, some (String.ofList (Base64.encode Base64.urlSafeNoPad bytes))⟩

/-- The bytes that a printed path is read back as. -/
def LosslessPath.readBack (path : LosslessPath) : Option Bytes :=
  (path.text.map utf8).or (path.base64.bind fun text => Base64.decode Base64.urlSafeNoPad text.toList)

/-- `exclusive_prefix_end`. -/
def exclusivePrefixEnd (bytes : Bytes) : Option Bytes :=
  match bytes.reverse.dropWhile (· = 255) with
  | [] => none
  | last :: rest => some (rest.reverse ++ [last + 1])

/-! ### Tokens -/

structure FileToken where
  asOfUtcMs : Option Nat
  version : Nat
  appliedEventSeq : Nat
  queryHash : String
  collectionId : String
  pathEncoding : String
  pathBytes : String
  fileRefId : String
deriving DecidableEq

def tokenVersion : Nat := 1

/-- What the hash of a query is taken of; display texts are no path identity. -/
structure FileQueryShape where
  collectionId : Option String
  exactPath : Option (String × Bytes)
  pathPrefix : Option (String × Bytes)
  identityState : Option String
  objectId : Option String
  externalIdentityId : Option String
  projectionSnapshot : String
  locationGroups : List FileLocationGroup
  asOfUtcMs : Option Nat
deriving DecidableEq

def FileFilter.shape (filter : FileFilter) (projectionSnapshot : String) : FileQueryShape where
  collectionId := filter.collectionId
  exactPath := filter.exactPath.map fun p => (p.encoding.asStr, p.bytes)
  pathPrefix := filter.pathPrefix.map fun p => (p.encoding.asStr, p.bytes)
  identityState := filter.identityState
  objectId := filter.objectId
  externalIdentityId := filter.externalIdentityId
  projectionSnapshot := projectionSnapshot
  locationGroups := filter.locationGroups
  asOfUtcMs := filter.asOfUtcMs

/-- The text `serde_json` writes. -/
def FileToken.text (token : FileToken) : List Char :=
  "\x7b\"as_of_utc_ms\":".toList ++ token.asOfUtcMs.elim "null".toList JsonText.writeNat ++
    ",\"version\":".toList ++ JsonText.writeNat token.version ++
    ",\"applied_event_seq\":".toList ++ JsonText.writeNat token.appliedEventSeq ++
    ",\"query_hash\":".toList ++ JsonText.writeString token.queryHash ++
    ",\"collection_id\":".toList ++ JsonText.writeString token.collectionId ++
    ",\"path_encoding\":".toList ++ JsonText.writeString token.pathEncoding ++
    ",\"path_bytes\":".toList ++ JsonText.writeString token.pathBytes ++
    ",\"file_ref_id\":".toList ++ JsonText.writeString token.fileRefId ++ "\x7d".toList

def FileToken.json (token : FileToken) : Bytes := utf8 (String.ofList token.text)

/-- What comes from outside the repository: the hash of a query, and reading a token. -/
structure FindRuntime where
  fileQueryHashAt : FileQueryShape → String
  readToken : Bytes → Option FileToken

variable (env : FindRuntime)

def decodeFileToken (value : String) : ReviewResult FileToken :=
  match (Base64.decode Base64.urlSafeNoPad value.toList).bind env.readToken with
  | none => .error .invalidContinuation
  | some token => if token.version ≠ tokenVersion then .error .invalidContinuation else .ok token

/-- `freeze_file_query_time`, at the time the clock shows. -/
def freezeFileQueryTime (now : Nat) (filter : FileFilter) : Option FileToken → ReviewResult FileFilter
  | some cursor =>
      if filter.asOfUtcMs.isSome ∧ filter.asOfUtcMs ≠ cursor.asOfUtcMs then .error .staleContinuation
      else .ok { filter with asOfUtcMs := cursor.asOfUtcMs }
  | none =>
      if (filter.locationGroups.any fun group => group.verifiedWithinMs.isSome) ∧ filter.asOfUtcMs.isNone then
        .ok { filter with asOfUtcMs := some now }
      else .ok filter

/-! ### Rows -/

/-- A joined row of the query. -/
structure FoundFile where
  collection : CollectionRow
  native : FileObjectRow
  file : FileRef
  object : Option ObjectView
deriving DecidableEq

/-- Where a row stands in the order of all Collections. -/
def FoundFile.rank (r : FoundFile) : List Nat ×ₗ List Nat ×ₗ List Nat :=
  toLex (textRank r.collection.collectionId, toLex (textRank r.native.path.encoding, blobRank r.native.path.bytes))

/-- Where a row stands in the order of one Collection. -/
def FoundFile.pathRank (r : FoundFile) : List Nat ×ₗ List Nat :=
  toLex (textRank r.native.path.encoding, blobRank r.native.path.bytes)

def identityStateText : IdentityState → String
  | .resolved => "resolved"
  | .unresolved => "unresolved"
  | .conflict => "conflict"
  | .unknown => "unknown"

/-- The parameters `?10` to `?12`. -/
structure FileCursor where
  collectionId : String
  pathEncoding : String
  pathBytes : Bytes
deriving DecidableEq

/-- `{cursor_filter}`. -/
def FileCursor.passes (cursor : FileCursor) (single : Bool) (r : FoundFile) : Bool :=
  let after := toLex (textRank cursor.pathEncoding, blobRank cursor.pathBytes)
  if single then decide (after < r.pathRank)
  else
    decide (textRank cursor.collectionId ≤ textRank r.collection.collectionId) &&
      decide ((if r.collection.collectionId = cursor.collectionId then after
        else toLex (textRank "", blobRank [])) ≤ r.pathRank) &&
      (decide (r.collection.collectionId ≠ cursor.collectionId) || decide (after < r.pathRank))

/-- The group whose Locations are the sources. -/
def sourceGroup (filter : FileFilter) : Option FileLocationGroup :=
  filter.locationGroups.find? fun group => !group.negated

/-- `{prefix_filter}` with the end of the prefix. -/
def inPrefix (stored : StoredPath) (path : EncodedPath) : Bool :=
  decide (stored.encoding = path.encoding.asStr) && decide (blobRank path.bytes ≤ blobRank stored.bytes) &&
    (exclusivePrefixEnd path.bytes).all fun upper => decide (blobRank stored.bytes < blobRank upper)

/-- `{file_order}`. -/
def ordered (single : Bool) (rows : List FoundFile) : List FoundFile :=
  if single then Keyset.sorted FoundFile.pathRank rows else Keyset.sorted FoundFile.rank rows

namespace Tables

variable (t : Tables)

/-- A last check that is good and, with an age, not older than that. -/
def verifiedWithin (asOf : Option Nat) (integrity : Option Int) : Option Nat → Bool
  | none => true
  | some age => t.checks.rows.any fun v => same (some v.id) integrity && decide (v.integrity = .verified) &&
      ((leftJoin t.checkErrors.rows fun e => same (some e.checkId) (some v.id)).any fun e =>
        e.all fun e => decide (e.code ≠ "read_error") && decide (e.code ≠ "identity_mismatch")) &&
      asOf.any fun now : Nat => decide (max 0 ((now : Int) - age) ≤ v.checkedAt) && decide (v.checkedAt ≤ now)

/-- The `EXISTS` of one group. -/
def groupExists (asOf : Option Nat) (content : Option Int) (group : FileLocationGroup) : Bool :=
  t.copyBindings.rows.any fun member => t.locations.rows.any fun l =>
    decide (l.id = member.locationId) && same member.contentId content && decide (member.state = .present) &&
      decide (l.locationId ∈ group.locationIds) &&
      t.verifiedWithin asOf member.latestIntegrity group.verifiedWithinMs

/-- The `EXISTS` of the source group. -/
def sourceExists (asOf : Option Nat) (native : FileObjectRow) (group : FileLocationGroup) : Bool :=
  t.fileLocations.rows.any fun binding => t.locations.rows.any fun l => t.copyBindings.rows.any fun physical =>
    decide (l.id = binding.locationId) && same (some physical.id) binding.copyId &&
      decide (binding.fileId = native.id) && binding.presence &&
      decide (binding.representation ≠ "annex_content") &&
      (binding.contentId.isNone || same binding.contentId native.contentId) &&
      decide (physical.locationId = binding.locationId) && same physical.contentId native.contentId &&
      decide (physical.state = .present) && decide (l.locationId ∈ group.locationIds) &&
      t.verifiedWithin asOf physical.latestIntegrity group.verifiedWithinMs

/-- The condition on the location groups. -/
def groupsHold (filter : FileFilter) (native : FileObjectRow) : Bool :=
  filter.locationGroups.isEmpty ||
    native.contentId.isSome && decide (native.identityState = .resolved) &&
    !(filter.locationGroups.any fun group =>
      t.groupExists filter.asOfUtcMs native.contentId group == group.negated) &&
    (sourceGroup filter).all fun group => t.sourceExists filter.asOfUtcMs native group

/-- The `WHERE` clause without the cursor. -/
def satisfies (filter : FileFilter) (r : FoundFile) : Bool :=
  r.native.active &&
    (filter.collectionId.all fun id => decide (r.collection.collectionId = id)) &&
    (filter.exactPath.all fun path => decide (r.native.path = ⟨path.encoding.asStr, path.bytes⟩)) &&
    (filter.pathPrefix.all (inPrefix r.native.path)) &&
    (filter.identityState.all fun state => decide (identityStateText r.file.identityState = state)) &&
    (filter.objectId.all fun id => same r.native.contentId
      ((t.contentObjects.rows.find? fun o => o.objectId = id).map ContentObjectRow.id)) &&
    (filter.externalIdentityId.all fun id => same r.native.externalId
      ((t.sourceIdentities.rows.find? fun x => x.canonicalId = id).map SourceIdentityRow.id)) &&
    t.groupsHold filter r.native

/-- The joined rows, before they are selected and ordered. -/
def foundFiles : List FoundFile :=
  t.collections.rows.flatMap fun c =>
  (t.fileObjects.rows.filter fun native => decide (native.collectionId = c.id)).flatMap fun native =>
  (t.fileRefs.filter fun f => decide (f.fileRefId = native.canonicalId)).flatMap fun f =>
  (leftJoin t.objects fun o => same (some o.objectId) f.objectId).map fun o => ⟨c, native, f, o⟩

/-- The rows of the query without its limit. -/
def queryRows (filter : FileFilter) (cursor : Option FileCursor) : List FoundFile :=
  ordered filter.collectionId.isSome (t.foundFiles.filter fun r =>
    t.satisfies filter r && cursor.all fun cursor => cursor.passes filter.collectionId.isSome r)

end Tables

/-! ### Items -/

structure FileMatchingSource where
  locationId : String
  locationName : String
  relativePath : LosslessPath
deriving DecidableEq

structure FileSummary where
  matchingSources : List FileMatchingSource
  fileRefId : String
  collectionId : String
  collectionName : String
  logicalPath : LosslessPath
  identityState : String
  objectId : Option String
  externalIdentityId : Option String
  sizeBytes : Option Nat
  currentCopyCount : Nat
  presentCopyCount : Nat
  lastSeenTimeUtcMs : Option Nat
  lastVerifiedTimeUtcMs : Option Nat
deriving DecidableEq

/-- `file_summary_from_row`. -/
def FoundFile.summary (r : FoundFile) : FileSummary where
  matchingSources := []
  fileRefId := r.file.fileRefId
  collectionId := r.file.collectionId
  collectionName := r.collection.displayName
  logicalPath := fromParts r.file.logicalPath.encoding r.file.logicalPath.bytes r.file.logicalPathDisplay
  identityState := identityStateText r.file.identityState
  objectId := r.file.objectId
  externalIdentityId := r.file.externalIdentityId
  sizeBytes := (r.object.map ObjectView.sizeBytes).or r.file.observedSizeBytes
  currentCopyCount := 0
  presentCopyCount := 0
  lastSeenTimeUtcMs := none
  lastVerifiedTimeUtcMs := none

/-- `optional_u64`. -/
def optionalU64 : Option Int → ReviewResult (Option Nat)
  | none => .ok none
  | some time => if 0 ≤ time then .ok (some time.toNat) else .error .sqlite

namespace Tables

variable (t : Tables)

/-- The Copies that `file_metrics_sql` counts. -/
def measuredCopies (item : FileSummary) : List CopyBindingRow :=
  match item.objectId, item.externalIdentityId with
  | some object, _ => t.copyBindings.rows.filter fun b => same b.contentId
      ((t.contentObjects.rows.find? fun o => o.objectId = object).map ContentObjectRow.id) &&
      decide (b.state ≠ .superseded)
  | none, some external => t.copyBindings.rows.filter fun b => same b.externalId
      ((t.sourceIdentities.rows.find? fun x => x.canonicalId = external).map SourceIdentityRow.id) &&
      b.contentId.isNone && decide (b.state ≠ .superseded)
  | none, none => []

/-- `MAX` of the times of some checks. -/
def latest (ids : List (Option Int)) : Option Int :=
  ((ids.flatMap fun id => leftJoin t.checks.rows fun v => same (some v.id) id).filterMap fun v =>
    v.map CheckRow.checkedAt).max?

/-- `populate_file_metrics` on one item. -/
def populateMetrics (item : FileSummary) : ReviewResult FileSummary := do
  let copies := t.measuredCopies item
  let seen ← optionalU64 (t.latest (copies.map CopyBindingRow.latestPresence))
  let verified ← optionalU64 (t.latest (copies.map CopyBindingRow.latestIntegrity))
  .ok { item with
    currentCopyCount := copies.length
    presentCopyCount := copies.countP fun b => b.state = .present
    lastSeenTimeUtcMs := seen
    lastVerifiedTimeUtcMs := verified }

/-- A row of the query for matching sources: its three first columns are its order. -/
def sourceRows (filter : FileFilter) (group : FileLocationGroup) (item : FileSummary) :
    List (FileMatchingSource × StoredPath) :=
  (t.pathObservations.flatMap fun po =>
  (t.locations.rows.filter fun l => decide (l.locationId = po.locationId)).flatMap fun l =>
  (t.copyClaims.filter fun cc => decide (cc.locationId = po.locationId) && same cc.objectId item.objectId &&
      decide (cc.state = .present)).flatMap fun cc =>
  if decide (po.fileRefId = item.fileRefId) && (po.objectId.isNone || same po.objectId item.objectId) &&
      po.present && decide (po.locationId ∈ group.locationIds) &&
      (t.fileLocations.rows.any fun binding => t.fileObjects.rows.any fun source =>
        t.locations.rows.any fun l => t.copyBindings.rows.any fun physical =>
          decide (source.id = binding.fileId) && decide (l.id = binding.locationId) &&
            same (some physical.id) binding.copyId && decide (source.canonicalId = po.fileRefId) &&
            decide (l.locationId = po.locationId) && decide (physical.canonicalId = cc.copyClaimId)) &&
      (group.verifiedWithinMs.all fun age => decide (cc.lastVerificationResult = some .ok) &&
        filter.asOfUtcMs.any fun now : Nat => cc.lastVerifiedTimeUtcMs.any fun time =>
          decide (max 0 ((now : Int) - age) ≤ time) && decide (time ≤ now)) then
    let locked := po.representation = "annex_locked_symlink"
    let path := if locked then po.observedPath else cc.relativePath
    let display := if locked then po.observedPathDisplay else cc.relativePathDisplay
    [(⟨po.locationId, l.displayName, fromParts path.encoding path.bytes display⟩, path)]
  else []).dedup

/-- `populate_matching_sources` on one item. -/
def populateSources (filter : FileFilter) (item : FileSummary) : ReviewResult FileSummary :=
  match sourceGroup filter with
  | none => .ok item
  | some group =>
      let rows := Keyset.sorted (fun r : FileMatchingSource × StoredPath =>
        toLex (textRank r.1.locationId, toLex (textRank r.2.encoding, blobRank r.2.bytes)))
        (t.sourceRows filter group item)
      let sources := (rows.take 1001).map Prod.fst
      if sources.length > 1000 then
        .error (.invalidFilter "more than 1000 source paths for a file; narrow the source location group")
      else .ok { item with matchingSources := sources }

end Tables

/-! ### Pages -/

structure FilePage where
  appliedEventSeq : Nat
  items : List FileSummary
  next : Option String
deriving DecidableEq

/-- What a page reads of the status of the projection. -/
structure ProjectionStatus where
  records : Nat
  acceptedFrontierHash : String
  appliedFrontierHash : String
deriving DecidableEq

/-- `V2ProjectionDb::status` refuses a projection that is not caught up. -/
def ProjectionStatus.validate (status : ProjectionStatus) : ReviewResult Unit :=
  if status.acceptedFrontierHash ≠ status.appliedFrontierHash then
    .error (.projection "SQLite projection has an unapplied accepted frontier")
  else .ok ()

/-- `encode_file_token`. -/
def encodeFileToken (item : FileSummary) (appliedSeq : Nat) (queryHash : String) (asOf : Option Nat) :
    ReviewResult String :=
  match LosslessPath.readBack item.logicalPath with
  | none => .error .invalidContinuation
  | some bytes => .ok (String.ofList (Base64.encode Base64.urlSafeNoPad (FileToken.json
      { asOfUtcMs := asOf
        version := tokenVersion
        appliedEventSeq := appliedSeq
        queryHash := queryHash
        collectionId := item.collectionId
        pathEncoding := item.logicalPath.encoding
        pathBytes := String.ofList (Base64.encode Base64.urlSafeNoPad bytes)
        fileRefId := item.fileRefId })))

/-- `cursor_bytes` with the other columns of the cursor. -/
def FileToken.cursor (token : FileToken) : ReviewResult FileCursor :=
  match Base64.decode Base64.urlSafeNoPad token.pathBytes.toList with
  | none => .error .invalidContinuation
  | some bytes => .ok ⟨token.collectionId, token.pathEncoding, bytes⟩

/-- The request with its frozen time and its cursor, against the status it was read under. -/
def resumeFiles (now : Nat) (status : ProjectionStatus) (request : FilePageRequest) :
    ReviewResult (FileFilter × Option FileToken) := do
  validateLimit request.limit
  validateFilter request.filter
  status.validate
  let cursor ← request.continuation.mapM (decodeFileToken env)
  let filter ← freezeFileQueryTime now request.filter cursor
  validateFilter filter
  if cursor.any fun cursor => decide (cursor.appliedEventSeq ≠ status.records) ||
      decide (cursor.queryHash ≠ env.fileQueryHashAt (filter.shape status.appliedFrontierHash)) then
    .error .staleContinuation
  else .ok (filter, cursor)

/-- The continuation of a page, when there are more rows. -/
def continueAfter (status : ProjectionStatus) (filter : FileFilter) (more : Bool) (items : List FileSummary) :
    ReviewResult (Option String) :=
  if more then
    items.getLast?.mapM fun item => encodeFileToken item status.records
      (env.fileQueryHashAt (filter.shape status.appliedFrontierHash)) filter.asOfUtcMs
  else .ok none

/-- The page of a request that was resumed, in one read snapshot. -/
def readFiles (t : Tables) (status : ProjectionStatus) (limit : Nat) (filter : FileFilter)
    (cursor : Option FileToken) : ReviewResult FilePage := do
  let after ← cursor.mapM FileToken.cursor
  let rows := (t.queryRows filter after).take (limit + 1)
  let items := (rows.take limit).map FoundFile.summary
  let next ← continueAfter env status filter (decide (rows.length > limit)) items
  let items ← items.mapM t.populateMetrics
  let items ← items.mapM (t.populateSources filter)
  .ok ⟨status.records, items, next⟩

/-- `V2ProjectionDb::find_files`, with the status and the snapshot it reads one after the other. -/
def findFiles (now : Nat) (status : ProjectionStatus) (t : Tables) (request : FilePageRequest) :
    ReviewResult FilePage := do
  let (filter, cursor) ← resumeFiles env now status request
  readFiles env t status request.limit filter cursor

end ArchiveLedger.Compact
