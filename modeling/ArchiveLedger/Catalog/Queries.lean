import ArchiveLedger.Foundation.Keyset
import ArchiveLedger.Foundation.Transition
import ArchiveLedger.Catalog.Schema

/-!
# Current-state queries

The selection and the listings of `sqlite_queries.rs`.  `selectionPredicate` turns
a filter into a `CatalogSelection`, the conjunction of its clauses over the
objects of a catalog; `visitObjects` streams all selected objects in order and
`findObjects` returns them page by page.  The rules of removal share the
selection.

A continuation token is the URL-safe base64 of the JSON text of a `Cursor`.  The
hash of a filter and the JSON parser are not part of the repository: they are the
parameters `hash` and `readCursor`.
-/

namespace ArchiveLedger

open Relational

inductive CatalogQueryError where
  | sqlite (message : String)
  | output (message : String)
  | invalidFilter (message : String)
  | invalidContinuation
  | staleContinuation
  | notFound (id : String)
deriving DecidableEq, Repr

abbrev QueryResult (α : Type) := Except CatalogQueryError α

structure FileLocationGroup where
  locationIds : List String
  negated : Bool
  verifiedWithinMs : Option Nat
deriving DecidableEq, Repr

structure CatalogFileFilter where
  collectionId : Option String
  objectId : Option String
  identityState : Option String
  exactPath : Option EncodedPath
  pathPrefix : Option EncodedPath
  locationGroups : List FileLocationGroup
  asOfUtcMs : Option Nat
deriving DecidableEq, Repr

/-- `CatalogFileFilter::default()`. -/
def CatalogFileFilter.default : CatalogFileFilter := ⟨none, none, none, none, none, [], none⟩

/-! ### The selection -/

/-- A clause of the selection, over the row `o` of `objects`. -/
abbrev Clause := Catalog → ObjectRow → Bool

/-- The conjunction of clauses; `1` when there are none. -/
structure CatalogSelection where
  clauses : List Clause

def CatalogSelection.holds (selection : CatalogSelection) (c : Catalog) (o : ObjectRow) : Bool :=
  selection.clauses.all fun clause => clause c o

/-- The order of blobs: byte by byte, a proper beginning first. -/
def blobRank (bytes : Bytes) : List Nat := bytes.map UInt8.toNat

/-- The order of texts is that of their bytes. -/
def textRank (text : String) : List Nat := blobRank (utf8 text)

theorem utf8_injective : Function.Injective utf8 := by
  intro s t h
  have hdata : s.toByteArray.data = t.toByteArray.data := Array.toList_inj.mp h
  exact String.toByteArray_inj.mp (ByteArray.ext hdata)

theorem blobRank_injective : Function.Injective blobRank :=
  List.map_injective_iff.mpr fun _ _ h => UInt8.toNat_inj.mp h

theorem textRank_injective : Function.Injective textRank :=
  blobRank_injective.comp utf8_injective

/-- The least blob greater than every one that starts with the given bytes. -/
def prefixUpperBound (bytes : Bytes) : Option Bytes :=
  match bytes.reverse.dropWhile (· = 255) with
  | [] => none
  | last :: rest => some (rest.reverse ++ [last + 1])

def collectionClauses : Option String → List Clause
  | some collection => [fun _ o => o.path.collectionId = collection]
  | none => []

def objectClauses : Option String → List Clause
  | some object => [fun _ o => o.objectId = object]
  | none => []

def identityClauses : Option String → QueryResult (List Clause)
  | some state =>
      if state = "resolved" then .ok [fun _ o => o.expectedBlake3.isSome]
      else if state = "unresolved" ∨ state = "unknown" then
        .ok [fun _ o => o.expectedBlake3.isNone]
      else .error (.invalidFilter ("unsupported identity state: " ++ state))
  | none => .ok []

/-- The blobs that start with the given bytes, as a range. -/
def prefixClauses (bytes : Bytes) : List Clause :=
  match prefixUpperBound bytes with
  | some upper =>
      [fun _ o => blobRank bytes ≤ blobRank o.path.relativePathBytes,
        fun _ o => blobRank o.path.relativePathBytes < blobRank upper]
  | none => [fun _ o => blobRank bytes ≤ blobRank o.path.relativePathBytes]

def pathClauses (exactPath pathPrefix : Option EncodedPath) : List Clause :=
  match exactPath, pathPrefix with
  | some path, _ =>
      [fun _ o => o.path.relativePathEncoding = path.encoding.asStr,
        fun _ o => o.path.relativePathBytes = path.bytes]
  | none, some path =>
      (fun _ o => o.path.relativePathEncoding = path.encoding.asStr) :: prefixClauses path.bytes
  | none, none => []

/-- A copy that holds the bytes its object should have, checked recently enough. -/
def healthyCopy (group : FileLocationGroup) (asOf : Nat) (o : ObjectRow) (f : FileRow) : Bool :=
  f.objectId = o.objectId && group.locationIds.contains f.locationId && f.presence = .present &&
    f.integrity = .verified && f.lastCheckResult = some .ok &&
    (o.expectedBlake3.isSome && f.observedBlake3 = o.expectedBlake3) &&
    (match group.verifiedWithinMs with
      | some age =>
          f.lastSuccessTimeUtcMs.any fun success => asOf - age ≤ success && success ≤ asOf
      | none => f.lastSuccessTimeUtcMs.isSome)

def groupClause (asOf : Nat) (group : FileLocationGroup) : Clause := fun c o =>
  (c.files.rows.any (healthyCopy group asOf o)) != group.negated

def groupClauses (asOf : Nat) : List FileLocationGroup → QueryResult (List Clause)
  | [] => .ok []
  | group :: rest =>
      if group.locationIds = [] then .error (.invalidFilter "Location group cannot be empty")
      else do
        let clauses ← groupClauses asOf rest
        .ok (groupClause asOf group :: clauses)

/-- Only objects whose identity is resolved can be healthy anywhere. -/
def resolvedClauses (groups : List FileLocationGroup) : List Clause :=
  if groups = [] then [] else [fun _ o => o.expectedBlake3.isSome]

def selectionPredicate (filter : CatalogFileFilter) (asOfUtcMs : Nat) :
    QueryResult CatalogSelection :=
  match sqlInteger asOfUtcMs with
  | none => .error (.invalidFilter "time exceeds SQLite range")
  | some asOf =>
      if filter.exactPath.isSome ∧ filter.pathPrefix.isSome then
        .error (.invalidFilter "choose exact path or prefix")
      else if filter.locationGroups.length > 32 ∨
          (filter.locationGroups.map fun g => g.locationIds.length).sum > 2048 then
        .error (.invalidFilter "too many Location selectors")
      else do
        let identity ← identityClauses filter.identityState
        let groups ← groupClauses asOf filter.locationGroups
        .ok ⟨collectionClauses filter.collectionId ++ objectClauses filter.objectId ++ identity ++
          pathClauses filter.exactPath filter.pathPrefix ++
          resolvedClauses filter.locationGroups ++ groups⟩

/-! ### Order -/

/-- The values of `ORDER BY collection_id, relative_path_encoding, relative_path_bytes`. -/
abbrev Rank := List Nat ×ₗ List Nat ×ₗ List Nat

def pathRank (path : ObjectPath) : Rank :=
  toLex (textRank path.collectionId,
    toLex (textRank path.relativePathEncoding, blobRank path.relativePathBytes))

def ObjectRow.rank (o : ObjectRow) : Rank := pathRank o.path

/-- The selected objects in order. -/
def selectObjects (c : Catalog) (selection : CatalogSelection) : List ObjectRow :=
  Keyset.sorted ObjectRow.rank (c.objects.rows.filter (selection.holds c))

/-! ### Results -/

/-- `lower(hex(blake3))`. -/
def hexText (blake3 : Digest) : String :=
  String.ofList (blake3.toList.flatMap fun b =>
    [JsonText.hexDigit (b.toNat / 16), JsonText.hexDigit (b.toNat % 16)])

structure CatalogObjectPath where
  objectId : String
  collectionId : String
  relativePath : LosslessPath
deriving DecidableEq, Repr

structure CatalogObject where
  objectId : String
  collectionId : String
  relativePath : LosslessPath
  expectedBlake3 : Option String
  expectedSizeBytes : Option Nat
deriving DecidableEq, Repr

def readPath (o : ObjectRow) : CatalogObjectPath where
  objectId := o.objectId
  collectionId := o.path.collectionId
  relativePath :=
    losslessPath o.path.relativePathEncoding o.path.relativePathBytes o.relativePathDisplay

def readObject (o : ObjectRow) : CatalogObject where
  objectId := o.objectId
  collectionId := o.path.collectionId
  relativePath := (readPath o).relativePath
  expectedBlake3 := o.expectedBlake3.map hexText
  expectedSizeBytes := o.expectedSizeBytes

/-- The path part of a listed object. -/
def CatalogObject.path (object : CatalogObject) : CatalogObjectPath :=
  ⟨object.objectId, object.collectionId, object.relativePath⟩

@[simp] theorem path_readObject (o : ObjectRow) : (readObject o).path = readPath o := rfl

/-! ### Continuations -/

structure Cursor where
  archiveId : String
  revision : Nat
  filterHash : String
  asOf : Nat
  collection : String
  encoding : String
  path : Bytes
deriving DecidableEq, Repr

/-- The JSON text of a cursor. -/
def Cursor.text (cursor : Cursor) : List Char :=
  "\x7b\"archive_id\":".toList ++ JsonText.writeString cursor.archiveId ++
    ",\"revision\":".toList ++ JsonText.writeNat cursor.revision ++
    ",\"filter_hash\":".toList ++ JsonText.writeString cursor.filterHash ++
    ",\"as_of\":".toList ++ JsonText.writeNat cursor.asOf ++
    ",\"collection\":".toList ++ JsonText.writeString cursor.collection ++
    ",\"encoding\":".toList ++ JsonText.writeString cursor.encoding ++
    ",\"path\":".toList ++ JsonText.writeBytes cursor.path ++ "\x7d".toList

/-- `serde_json::to_vec(&cursor)`. -/
def Cursor.json (cursor : Cursor) : Bytes := utf8 (String.ofList cursor.text)

def Cursor.token (cursor : Cursor) : String :=
  String.ofList (Base64.encode Base64.urlSafeNoPad cursor.json)

/-- The longest token that is looked at. -/
def maxToken : Nat := 1048576

/-- What `filter_hash` hashes; display texts are no path identity. -/
def CatalogFileFilter.identity (filter : CatalogFileFilter) :
    Option String × Option String × Option String × Option (String × Bytes) ×
      Option (String × Bytes) × List FileLocationGroup :=
  (filter.collectionId, filter.objectId, filter.identityState,
    filter.exactPath.map fun p => (p.encoding.asStr, p.bytes),
    filter.pathPrefix.map fun p => (p.encoding.asStr, p.bytes), filter.locationGroups)

/-- The code outside the repository that a page request uses: the hash of a
filter, the JSON parser, and the clock. -/
structure QueryRuntime where
  hash : Option String × Option String × Option String × Option (String × Bytes) ×
    Option (String × Bytes) × List FileLocationGroup → String
  readCursor : Bytes → Option Cursor
  now : Nat

def decodeToken (env : QueryRuntime) (token : String) : QueryResult Cursor :=
  if token.utf8ByteSize > maxToken then .error .invalidContinuation
  else
    match Base64.decode Base64.urlSafeNoPad token.toList with
    | none => .error .invalidContinuation
    | some bytes =>
        match env.readCursor bytes with
        | none => .error .invalidContinuation
        | some cursor => .ok cursor

/-- The objects after a cursor: with a fixed Collection its column is left out. -/
def appendCursor (selection : CatalogSelection) (filter : CatalogFileFilter)
    (collection encoding : String) (path : Bytes) : CatalogSelection :=
  let seek : Clause := fun _ o =>
    if filter.collectionId.isSome then
      toLex (textRank encoding, blobRank path)
        < toLex (textRank o.path.relativePathEncoding, blobRank o.path.relativePathBytes)
    else pathRank ⟨collection, encoding, path⟩ < pathRank o.path
  ⟨selection.clauses ++ [seek]⟩

structure CatalogObjectRequest where
  filter : CatalogFileFilter
  limit : Nat
  continuation : Option String
deriving DecidableEq, Repr

structure CatalogObjectPage where
  objects : List CatalogObject
  next : Option String
  asOfUtcMs : Nat
  unresolvedIdentitiesExcluded : Bool
deriving DecidableEq, Repr

/-- The time a request is frozen at, and its cursor. -/
def resume (env : QueryRuntime) (c : Catalog) (request : CatalogObjectRequest) :
    QueryResult (Nat × Option Cursor) :=
  match request.continuation with
  | none => .ok (request.filter.asOfUtcMs.getD env.now, none)
  | some token => do
      let cursor ← decodeToken env token
      if cursor.archiveId ≠ c.archiveId ∨ cursor.revision ≠ c.revision then
        .error .staleContinuation
      else if cursor.filterHash ≠ env.hash request.filter.identity ∨
          request.filter.asOfUtcMs.any fun time => time ≠ cursor.asOf then
        .error .invalidContinuation
      else .ok (cursor.asOf, some cursor)

/-- The selection of a request, after its cursor when it has one. -/
def pageSelection (filter : CatalogFileFilter) (asOf : Nat) (cursor : Option Cursor) :
    QueryResult CatalogSelection := do
  let selection ← selectionPredicate filter asOf
  match cursor with
  | some cursor =>
      .ok (appendCursor selection filter cursor.collection cursor.encoding cursor.path)
  | none => .ok selection

/-- The cursor after an object. -/
def cursorAt (env : QueryRuntime) (c : Catalog) (filter : CatalogFileFilter) (asOf : Nat)
    (o : ObjectRow) : Cursor where
  archiveId := c.archiveId
  revision := c.revision
  filterHash := env.hash filter.identity
  asOf := asOf
  collection := o.path.collectionId
  encoding := o.path.relativePathEncoding
  path := o.path.relativePathBytes

/-- Bounded output with keyset pagination: one row more than the limit is read,
and only says whether there is a next page. -/
def findObjects (env : QueryRuntime) (c : Catalog) (request : CatalogObjectRequest) :
    QueryResult CatalogObjectPage :=
  if request.limit < 1 ∨ request.limit > 1000 then
    .error (.invalidFilter "page limit must be 1..1000")
  else do
    let (asOf, cursor) ← resume env c request
    let selection ← pageSelection request.filter asOf cursor
    let records := (selectObjects c selection).take (request.limit + 1)
    let page := records.take request.limit
    .ok {
      objects := page.map readObject
      next := if records.length > request.limit then
        page.getLast?.map fun o => (cursorAt env c request.filter asOf o).token else none
      asOfUtcMs := asOf
      unresolvedIdentitiesExcluded := !request.filter.locationGroups.isEmpty }

/-- Stream the complete selection in one statement; the callback may stop it. -/
def visitObjects {σ : Type} (c : Catalog) (filter : CatalogFileFilter) (now : Nat)
    (visit : σ → CatalogObjectPath → QueryResult σ) (start : σ) : QueryResult (σ × Nat) := do
  let selection ← selectionPredicate filter (filter.asOfUtcMs.getD now)
  let paths := (selectObjects c selection).map readPath
  let final ← Transition.commitAll visit start paths
  .ok (final, paths.length)

end ArchiveLedger
