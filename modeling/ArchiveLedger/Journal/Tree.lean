import ArchiveLedger.Journal.Clients

/-!
# Reading an event tree

The files of a canonical tree and the parts of a verification that read them: the
genesis and the head, the graph of frontiers above the head, the manifest and the
records of one segment.
-/

namespace ArchiveLedger

open Outcome Transition

/-- The files below the root of a canonical tree, and its directories without files.  A path is looked up as it is
written. -/
structure EventTree where
  files : List (String × Bytes)
  emptyDirectories : List String := []
deriving DecidableEq

def EventTree.file? (tree : EventTree) (path : String) : Option Bytes :=
  (tree.files.find? fun f => f.1 = path).map Prod.snd

def readFile (tree : EventTree) (path : String) : StoreResult Bytes :=
  okOr (tree.file? path) (.io "read canonical file" path)

/-- The text of bytes below 128. -/
def asciiText (bytes : Bytes) : String := String.ofList (bytes.map fun b => Char.ofNat b.toNat)

/-- `format!("{number:012}")`. -/
def paddedNumber (number : Nat) : String :=
  let digits := Nat.toDigits 10 number
  String.ofList (List.replicate (12 - digits.length) '0' ++ digits)

def manifestDirectory (origin : String) : String := "manifests/v2/origins/" ++ origin

def manifestRelativePath (origin : String) (number : Nat) : String :=
  manifestDirectory origin ++ "/seg-" ++ paddedNumber number ++ ".manifest.json"

def frontierPath (hash : String) : StoreResult String := do
  let hex ← okOr (stripPrefix "blake3:" hash) (.invalid "frontier hash has the wrong algorithm")
  validateBlake3Id "frontier hash" hash
  .ok ("frontiers/v2/frontier-" ++ asciiText hex ++ ".json")

def EventTree.paths (tree : EventTree) : List String := tree.files.map Prod.fst ++ tree.emptyDirectories

def EventTree.isDirectory (tree : EventTree) (directory : String) : Bool :=
  decide (directory ∈ tree.emptyDirectories) || tree.paths.any fun path => (stripPrefix (directory ++ "/") path).isSome

/-- The first part of a path below a directory. -/
def childPath (directory path : String) : String :=
  directory ++ "/" ++ String.ofList ((path.toList.drop (directory.toList.length + 1)).takeWhile (· ≠ '/'))

/-- The entries of a directory whose names end as given, by their paths: its files, and the directories
that its other paths lie in. -/
def entriesEnding (tree : EventTree) (directory suffix : String) : List String :=
  (tree.paths.filterMap fun path => (stripPrefix (directory ++ "/") path).bind fun rest =>
    let name := rest.takeWhile (· ≠ 47)
    if (utf8 suffix).isSuffixOf name then some (if name = rest then path else childPath directory path)
    else none).dedup

/-- `read_sorted_files`.  A name that is not UTF-8 is passed over; a directory stays in the list, and
fails when it is read. -/
def readSortedFiles (tree : EventTree) (directory suffix : String) : StoreResult (List String) := do
  require (tree.isDirectory directory) (.io "read origin manifest directory" directory)
  let paths := entriesEnding tree directory suffix
  require paths.Nodup (.invalid "duplicate origin manifest path")
  .ok (paths.insertionSort fun a b => (utf8 a).map UInt8.toNat ≤ (utf8 b).map UInt8.toNat)

variable (R : StoreRuntime) (tree : EventTree)

/-- The trust root and the head of a tree, as every verification reads them first.  A head that is
not ASCII is no hash. -/
structure TrustRoot where
  genesis : SignedGenesis
  genesisHash : String
  initialKey : Bytes
  acceptedFrontierHash : String

def readTrustRoot : StoreResult TrustRoot := do
  let bytes ← readFile tree "genesis.json"
  let genesis ← okOr (R.readGenesis bytes) (.json "genesis.json")
  mapError .genesis (genesis.verify R)
  let canonical ← mapError .genesis (genesis.canonicalBytes R)
  require (canonical = bytes) (.invalid "genesis.json does not use deterministic bytes")
  let genesisHash ← mapError .genesis (genesis.genesisHash R)
  let headBytes ← readFile tree "frontiers/v2/HEAD"
  require (headBytes.all (·.toNat < 128)) (.invalid "frontier HEAD is not UTF-8")
  let acceptedFrontierHash := asciiText (headBytes.rdropWhile (· = 10))
  validateBlake3Id "frontier HEAD" acceptedFrontierHash
  require (headBytes = utf8 acceptedFrontierHash ++ [10])
    (.invalid "frontier HEAD must contain one hash and a newline")
  let initialKey ← mapError .genesis (genesis.body.validate R)
  .ok ⟨genesis, genesisHash, initialKey, acceptedFrontierHash⟩

/-! ### Frontiers -/

def readFrontier (trust : TrustRoot) (frontierHash : String) : StoreResult CausalFrontier := do
  let path ← frontierPath frontierHash
  let bytes ← readFile tree path
  let frontier ← okOr (R.readFrontier bytes) (.json path)
  let canonical ← mapError .frontier (frontier.canonicalBytes R.writeFrontier)
  let hash ← mapError .frontier (frontier.frontierHash R.blake3 R.writeFrontier)
  require (canonical = bytes ∧ hash = frontierHash)
    (.invalid ("frontier bytes or name do not match at " ++ path))
  require (frontier.archiveId = trust.genesis.body.archiveId ∧
      frontier.genesisHash = trust.genesisHash)
    (.invalid ("frontier belongs to another Archive at " ++ path))
  .ok frontier

def parentlessHasOrigins : V2StoreError :=
  .invalid "the parentless genesis frontier must have no origins"

/-- A frontier is a valid successor of a parent that was loaded. -/
def checkSuccessor (frontier : CausalFrontier) (visited : FrontierMap) (parent : String) :
    StoreResult Unit := do
  let base ← okOr (visited.get? parent) (.invalid "parent frontier was not loaded")
  let _ ← mapError .frontier (frontier.validateSuccessorOf R.blake3 R.writeFrontier base)
  .ok ()

/-- The recursion over the parents goes one frontier file deeper at each level; `depth`
bounds it by the number of files. -/
def loadFrontierGraph (trust : TrustRoot) : Nat → FrontierMap → String → StoreResult FrontierMap
  | 0, _, frontierHash => .error (.io "read canonical file" frontierHash)
  | depth + 1, visited, frontierHash =>
      if (visited.get? frontierHash).isSome then .ok visited
      else do
        let frontier ← readFrontier R tree trust frontierHash
        let visited ← commitAll (fun visited parent => do
          let visited ← loadFrontierGraph trust depth visited parent
          checkSuccessor R frontier visited parent
          .ok visited) visited frontier.previousFrontiers
        require (frontier.previousFrontiers = [] → frontier.origins = []) parentlessHasOrigins
        .ok (visited ++ [(frontierHash, frontier)])

/-- `load_frontier_path_to_base`: the recursion stops at the base.  The result also
tells whether the base was met on the way. -/
def loadFrontierPathToBase (trust : TrustRoot) (base : String) :
    Nat → FrontierMap → String → StoreResult (Bool × FrontierMap)
  | 0, _, frontierHash => .error (.io "read canonical file" frontierHash)
  | depth + 1, visited, frontierHash =>
      if (visited.get? frontierHash).isSome then .ok (decide (frontierHash = base), visited)
      else do
        let frontier ← readFrontier R tree trust frontierHash
        if frontierHash = base then .ok (true, visited ++ [(frontierHash, frontier)])
        else do
          let (found, visited) ← commitAll (fun (state : Bool × FrontierMap) parent => do
            let (found, visited) ← loadFrontierPathToBase trust base depth state.2 parent
            checkSuccessor R frontier visited parent
            .ok (state.1 || found, visited)) (false, visited) frontier.previousFrontiers
          require (frontier.previousFrontiers = [] → frontier.origins = []) parentlessHasOrigins
          .ok (found, visited ++ [(frontierHash, frontier)])

/-! ### Segments -/

/-- A manifest file with the hash of its bytes. -/
def readManifest (path : String) : StoreResult (SignedSegmentManifest × String) := do
  let bytes ← readFile tree path
  let manifest ← okOr (R.readManifest bytes) (.json path)
  require (R.writeManifest manifest = bytes) (.invalid (path ++ " does not use deterministic bytes"))
  .ok (manifest, manifest.manifestHash R)

/-- The bytes of a segment are the ones its manifest names and end with a newline. -/
def readSegment (body : SegmentManifestBody) : StoreResult Bytes := do
  let bytes ← readFile tree body.segmentPath
  require (bytes.length = body.segmentBytes ∧ blake3Id R bytes = body.segmentBlake3 ∧
      bytes.getLast? = some 10)
    (.invalid ("segment bytes do not match manifest at " ++ body.segmentPath))
  .ok bytes

/-- The lines of a text, cut at each newline. -/
def splitLines : Bytes → List Bytes
  | [] => [[]]
  | b :: rest =>
      if b = 10 then [] :: splitLines rest
      else
        match splitLines rest with
        | [] => [[b]]
        | line :: lines => (b :: line) :: lines

/-- The lines of a segment without the newline at its end. -/
def segmentLines (bytes : Bytes) : List Bytes := splitLines bytes.dropLast

def emptyLine (path : String) : V2StoreError :=
  .invalid ("segment contains an empty line at " ++ path)

/-- `read_record_line`, which reads at most two bytes more than a record may have. -/
def readRecordLine (path : String) (line : Bytes) : StoreResult Unit := do
  require (line.length + 1 ≤ defaultMaxV2RecordBytes + 2)
    (.invalid ("segment has an unterminated or oversized record at " ++ path))
  require (line ≠ []) (emptyLine path)

/-- The record on a line, at its place in the chain, and the next sequence. -/
def parseNext (originId : String) (expectedSeq : Nat) (previous : Option String) (line : Bytes) :
    StoreResult (V2Record × Nat) := do
  let record ← mapError .record
    (parseV2Record R line originId expectedSeq previous defaultMaxV2RecordBytes)
  let next ← okOr (checkedAdd expectedSeq 1) (.invalid "origin sequence overflow")
  .ok (record, next)

/-- The records of a segment are the ones its manifest names. -/
def rangeMatches (body : SegmentManifestBody) (records : List VerifiedV2Record) : Bool :=
  match records.head?, records.getLast? with
  | some first, some last =>
      body.lastSeq = last.originSeq &&
        body.firstRecordId = first.record.envelope.recordId &&
        body.lastRecordId = last.record.envelope.recordId &&
        body.firstRecordHash = first.record.recordHash &&
        body.lastRecordHash = last.record.recordHash &&
        records.length = body.recordCount
  | _, _ => false

/-- The place of a segment in its chain. -/
def manifestFits (trust : TrustRoot) (originId : String) (expectedSeq : Nat)
    (previous : Option String) (body : SegmentManifestBody) : Bool :=
  body.archiveId = trust.genesis.body.archiveId && body.genesisHash = trust.genesisHash &&
    body.originId = originId && body.firstSeq = expectedSeq &&
    body.previousSegmentManifestHash = previous

def checkTail (tail : OriginFrontier) (body : SegmentManifestBody) : StoreResult Unit :=
  require (body.lastSeq = tail.seq ∧ body.lastRecordHash = tail.eventHash)
    (.invalid ("accepted frontier tail does not match origin " ++ tail.originId))

end ArchiveLedger
