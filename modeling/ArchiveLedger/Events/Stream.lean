import ArchiveLedger.Foundation.Lines
import ArchiveLedger.Foundation.SortedMap
import ArchiveLedger.Journal.Documents

/-!
# The event stream of version 1

`event_store.rs`.  The stream is a row of segment files, each named by its first sequence; a line is an
event, which names the hash of the line before it.  All segments but the last have a manifest, written when
the segment is closed.  `verifyLocked` reads everything; `readBatchLocked` goes on from a cursor, which is a
sequence with its hash and a place in a file, and stops at a limit.
-/

namespace ArchiveLedger.Events

open Lines Outcome Transition

def envelopeVersion : Nat := 1

def manifestVersion : Nat := 1

def streamId : String := "stream_primary"

/-! ### Data -/

structure EventEnvelope where
  v : Nat
  streamId : String
  seq : Nat
  eventId : String
  eventType : String
  timeUtcMs : Nat
  actorId : String
  hostId : String
  jobId : Option String
  objectId : Option String
  fileRefId : Option String
  copyClaimId : Option String
  locationId : Option String
  deviceId : Option String
  siteId : Option String
  previousEventHash : Option String
  payload : Json

structure EventRecord where
  envelope : EventEnvelope
  eventHash : String

structure SegmentManifest where
  manifestV : Nat
  streamId : String
  segmentFile : String
  firstSeq : Nat
  lastSeq : Nat
  firstEventId : String
  lastEventId : String
  lastEventHash : String
  eventCount : Nat
  segmentSizeBytes : Nat
  segmentBlake3 : String
deriving DecidableEq, Repr

structure EventCursor where
  appliedSeq : Nat
  appliedEventHash : Option String
  segmentFirstSeq : Option Nat
  nextOffset : Nat
deriving DecidableEq, Repr

/-- `EventCursor::default()`. -/
def EventCursor.empty : EventCursor := ⟨0, none, none, 0⟩

structure PositionedEvent where
  record : EventRecord
  segmentFirstSeq : Nat
  nextOffset : Nat

structure EventReadStats where
  segmentsOpened : Nat
  linesRead : Nat
  eventsReturned : Nat

structure EventBatch where
  events : List PositionedEvent
  nextCursor : EventCursor
  eof : Bool
  stats : EventReadStats

structure VerifiedSegment where
  segmentFile : String
  firstSeq : Nat
  lastSeq : Option Nat
  eventCount : Nat
  manifest : Option SegmentManifest

structure VerificationReport where
  streamId : String
  lastSeq : Nat
  lastEventHash : Option String
  segments : List VerifiedSegment

structure EventStoreConfig where
  rolloverEvents : Nat
  maxEventBytes : Nat
  actorId : String
  hostId : String

inductive EventStoreError where
  | invalidLayout (message : String)
  | invalidEvent (path : String) (line : Nat) (message : String)
  | hashChain (path : String) (line : Nat) (message : String)
  | invalidManifest (path message : String)
  | invalidCheckpoint (path message : String)
  | io (operation path : String)
  | invalidInput (message : String)
deriving DecidableEq, Repr

abbrev EventResult (α : Type) := Except EventStoreError α

/-- BLAKE3, ULIDs and serde, which are not in the repository. -/
structure EventRuntime where
  blake3 : Bytes → String
  ulid : Bytes → Bool
  readEnvelope : Bytes → Except String EventEnvelope
  writeEnvelope : EventEnvelope → Bytes
  readValue : Bytes → Option Json
  envelopeOfValue : Json → Except String EventEnvelope
  readManifest : Bytes → Except String SegmentManifest
  writeManifest : SegmentManifest → Bytes

/-- The files of the two directories, by the first sequence in their names. -/
structure EventDir where
  segments : List (Nat × Bytes)
  manifests : List (Nat × Bytes)

/-! ### Names -/

/-- `format!("{first_seq:012}")`. -/
def padded (n : Nat) : String :=
  let digits := Nat.toDigits 10 n
  String.ofList (List.replicate (12 - digits.length) '0' ++ digits)

def segmentFilename (firstSeq : Nat) : String := "seg-" ++ padded firstSeq ++ ".jsonl"

def manifestFilename (firstSeq : Nat) : String := "seg-" ++ padded firstSeq ++ ".manifest.json"

def relativeSegmentPath (firstSeq : Nat) : String := "events/" ++ streamId ++ "/" ++ segmentFilename firstSeq

def relativeManifestPath (firstSeq : Nat) : String := "manifests/" ++ streamId ++ "/" ++ manifestFilename firstSeq

variable (R : EventRuntime) (config : EventStoreConfig)

def eventHash (line : Bytes) : String := "blake3:" ++ R.blake3 line

def isPrefixedLowercaseUlid (value start : String) : Bool :=
  (stripPrefix start value).any fun ulid => ulid.all (fun b => b.toNat < 65 || 90 < b.toNat) && R.ulid ulid

/-! ### One event -/

def parseEventLine (path : String) (lineNumber : Nat) (line : Bytes) : EventResult EventEnvelope :=
  mapError (.invalidEvent path lineNumber) (R.readEnvelope line)

/-- `{:?}` of a hash. -/
def debugHash : Option String → String
  | none => "None"
  | some hash => "Some(\"" ++ hash ++ "\")"

def validateEvent (path : String) (lineNumber : Nat) (envelope : EventEnvelope) (expectedSeq : Nat)
    (expectedPreviousHash : Option String) : EventResult Unit := do
  require (envelope.v = envelopeVersion)
    (.invalidEvent path lineNumber ("unsupported envelope version " ++ toString envelope.v))
  require (envelope.streamId = streamId)
    (.invalidEvent path lineNumber ("unexpected stream_id " ++ envelope.streamId))
  require (envelope.seq = expectedSeq)
    (.hashChain path lineNumber ("expected sequence " ++ toString expectedSeq ++ ", got " ++ toString envelope.seq))
  require (envelope.previousEventHash = expectedPreviousHash)
    (.hashChain path lineNumber
      ("expected previous hash " ++ debugHash expectedPreviousHash ++ ", got " ++ debugHash envelope.previousEventHash))
  require (envelope.eventType ≠ "" ∧ envelope.actorId ≠ "" ∧ envelope.hostId ≠ "" ∧ envelope.payload.isObject)
    (.invalidEvent path lineNumber "event_type, actor_id, and host_id must be non-empty and payload must be an object")
  require (isPrefixedLowercaseUlid R envelope.eventId "evt_")
    (.invalidEvent path lineNumber "event_id must be evt_ plus a lowercase ULID")

def notTerminated (path : String) (lineNumber : Nat) : EventStoreError :=
  .invalidEvent path lineNumber "event line is not newline terminated"

/-- The event on a line. -/
def readEvent (path : String) (lineNumber : Nat) (line : Bytes) (expectedSeq : Nat)
    (expectedPreviousHash : Option String) : EventResult EventEnvelope := do
  require (line.length ≤ config.maxEventBytes)
    (.invalidEvent path lineNumber ("event exceeds " ++ toString config.maxEventBytes ++ " bytes"))
  let envelope ← parseEventLine R path lineNumber line
  validateEvent R path lineNumber envelope expectedSeq expectedPreviousHash
  .ok envelope

/-! ### Scanning a segment -/

structure SegmentScan where
  firstSeq : Nat
  lastSeq : Option Nat
  firstEventId : Option String
  lastEventId : Option String
  lastEventHash : Option String
  eventCount : Nat
  segmentSizeBytes : Nat
  segmentBlake3 : String
  checkpointEvents : List EventRecord

/-- The variables of the loop of `scan_segment`. -/
structure ScanState where
  lineNumber : Nat
  expectedSeq : Nat
  previousHash : Option String
  sizeBytes : Nat
  firstEventId : Option String
  lastEventId : Option String
  checkpointEvents : List EventRecord

def scanLine (path : String) (s : ScanState) (line : Bytes) : EventResult ScanState := do
  let envelope ← readEvent R config path (s.lineNumber + 1) line s.expectedSeq s.previousHash
  .ok
    { lineNumber := s.lineNumber + 1
      expectedSeq := s.expectedSeq + 1
      previousHash := some (eventHash R line)
      sizeBytes := s.sizeBytes + (line.length + 1)
      firstEventId := s.firstEventId.or (some envelope.eventId)
      lastEventId := some envelope.eventId
      checkpointEvents := s.checkpointEvents ++
        if envelope.eventType = "checkpoint_created" then [⟨envelope, eventHash R line⟩] else [] }

def scanSegment (bytes : Bytes) (firstSeq : Nat) (expectedPreviousHash : Option String) (allowEmpty : Bool) :
    EventResult SegmentScan := do
  let path := relativeSegmentPath firstSeq
  let s ← commitAll (scanLine R config path) ⟨0, firstSeq, expectedPreviousHash, 0, none, none, []⟩ (cut 10 bytes).1
  require ((cut 10 bytes).2 = []) (notTerminated path (s.lineNumber + 1))
  let eventCount := s.expectedSeq - firstSeq
  require (eventCount ≠ 0 ∨ allowEmpty) (.invalidLayout ("closed segment " ++ path ++ " is empty"))
  .ok
    { firstSeq := firstSeq
      lastSeq := if 0 < eventCount then some (s.expectedSeq - 1) else none
      firstEventId := s.firstEventId
      lastEventId := s.lastEventId
      lastEventHash := if 0 < eventCount then s.previousHash else none
      eventCount := eventCount
      segmentSizeBytes := s.sizeBytes
      segmentBlake3 := "blake3:" ++ R.blake3 bytes
      checkpointEvents := s.checkpointEvents }

/-! ### Manifests -/

def emptyManifest : EventStoreError := .invalidLayout "cannot manifest an empty segment"

def manifestFromScan (scan : SegmentScan) : EventResult SegmentManifest := do
  let lastSeq ← okOr scan.lastSeq emptyManifest
  let firstEventId ← okOr scan.firstEventId emptyManifest
  let lastEventId ← okOr scan.lastEventId emptyManifest
  let lastEventHash ← okOr scan.lastEventHash emptyManifest
  .ok
    { manifestV := manifestVersion
      streamId := streamId
      segmentFile := relativeSegmentPath scan.firstSeq
      firstSeq := scan.firstSeq
      lastSeq := lastSeq
      firstEventId := firstEventId
      lastEventId := lastEventId
      lastEventHash := lastEventHash
      eventCount := scan.eventCount
      segmentSizeBytes := scan.segmentSizeBytes
      segmentBlake3 := scan.segmentBlake3 }

def manifestDifference (actual expected : SegmentManifest) : String :=
  if actual.firstEventId ≠ expected.firstEventId then "first_event_id does not match segment"
  else if actual.lastEventId ≠ expected.lastEventId then "last_event_id does not match segment"
  else if actual.lastEventHash ≠ expected.lastEventHash then "last_event_hash does not match segment"
  else if actual.segmentBlake3 ≠ expected.segmentBlake3 then "segment_blake3 does not match segment bytes"
  else "manifest fields do not match segment"

def validateManifestShape (manifest : SegmentManifest) (segment : Bytes) (firstSeq : Nat) : EventResult Unit := do
  let invalid (message : String) : EventStoreError := .invalidManifest (relativeManifestPath firstSeq) message
  require (manifest.manifestV = manifestVersion) (invalid ("unsupported manifest version " ++ toString manifest.manifestV))
  require (manifest.streamId = streamId) (invalid ("unexpected stream_id " ++ manifest.streamId))
  require (manifest.segmentFile = relativeSegmentPath firstSeq)
    (invalid ("segment_file must be " ++ relativeSegmentPath firstSeq))
  require (manifest.firstSeq = firstSeq ∧ manifest.eventCount ≠ 0)
    (invalid "first sequence/count does not match filename")
  let expectedLast ← okOr (checkedAdd firstSeq (manifest.eventCount - 1)) (invalid "manifest range overflows u64")
  require (manifest.lastSeq = expectedLast)
    (invalid ("last_seq " ++ toString manifest.lastSeq ++ " does not equal computed " ++ toString expectedLast))
  require (isPrefixedLowercaseUlid R manifest.firstEventId "evt_" ∧ isPrefixedLowercaseUlid R manifest.lastEventId "evt_")
    (invalid "first_event_id and last_event_id must be evt_ plus lowercase ULIDs")
  require (isBlake3Identifier manifest.lastEventHash ∧ isBlake3Identifier manifest.segmentBlake3)
    (invalid "last_event_hash and segment_blake3 must be lowercase BLAKE3 identifiers")
  require (segment.length = manifest.segmentSizeBytes)
    (invalid ("segment size is " ++ toString segment.length ++ ", manifest says " ++ toString manifest.segmentSizeBytes))

def readManifestFile (bytes : Bytes) (firstSeq : Nat) : EventResult SegmentManifest :=
  mapError (.invalidManifest (relativeManifestPath firstSeq)) (R.readManifest bytes)

/-- `BTreeMap::get` on the manifest files. -/
def EventDir.manifest? (dir : EventDir) (firstSeq : Nat) : Option Bytes :=
  (SortedMap.look Prod.fst dir.manifests firstSeq).map Prod.snd

/-- A name has twelve digits. -/
def canonicalNames : Nat := 10 ^ 12

def listCanonicalFiles (kind : String) (path : Nat → String) (files : List (Nat × Bytes)) : EventResult Unit :=
  files.forM fun file =>
    require (file.1 < canonicalNames) (.invalidLayout ("unexpected file in " ++ kind ++ " directory: " ++ path file.1))

/-- All names are canonical, and no manifest lacks its segment. -/
def checkManifests (dir : EventDir) : EventResult Unit := do
  listCanonicalFiles "event segment" relativeSegmentPath dir.segments
  listCanonicalFiles "segment manifest" relativeManifestPath dir.manifests
  dir.manifests.forM fun m =>
    require (SortedMap.look Prod.fst dir.segments m.1).isSome
      (.invalidLayout ("manifest for sequence " ++ toString m.1 ++ " has no segment"))

def sequenceOverflow : EventStoreError := .invalidLayout "event sequence overflow"

def unexpectedSegment (expected found : Nat) : EventStoreError :=
  .invalidLayout ("expected segment starting at " ++ toString expected ++ ", found " ++ toString found)

def lacksManifest (firstSeq : Nat) : EventStoreError :=
  .invalidLayout ("non-tail segment " ++ toString firstSeq ++ " lacks a manifest")

/-! ### Verification -/

/-- The variables of the loop of `verify_locked`. -/
structure VerifyState where
  previousHash : Option String
  expectedFirstSeq : Nat
  segments : List VerifiedSegment
  checkpointEvents : List EventRecord

/-- The manifest of a segment is the one its scan gives. -/
def verifyManifest (scan : SegmentScan) (segment : Nat × Bytes) (bytes : Bytes) : EventResult SegmentManifest := do
  let manifest ← readManifestFile R bytes segment.1
  validateManifestShape R manifest segment.2 segment.1
  let expected ← manifestFromScan scan
  require (manifest = expected)
    (.invalidManifest (relativeManifestPath segment.1) (manifestDifference manifest expected))
  .ok manifest

def optionalManifest (scan : SegmentScan) (segment : Nat × Bytes) : Option Bytes → EventResult (Option SegmentManifest)
  | some bytes => do
      let manifest ← verifyManifest R scan segment bytes
      .ok (some manifest)
  | none => .ok none

def afterScan (s : VerifyState) (scan : SegmentScan) : EventResult (Nat × Option String) :=
  match scan.lastSeq with
  | some lastSeq => do
      let expected ← okOr (checkedAdd lastSeq 1) sequenceOverflow
      .ok (expected, scan.lastEventHash)
  | none => .ok (s.expectedFirstSeq, s.previousHash)

/-- One segment, which is the last one or not. -/
def verifySegment (dir : EventDir) (s : VerifyState) (segment : (Nat × Bytes) × Bool) : EventResult VerifyState := do
  let ((firstSeq, bytes), last) := segment
  require (firstSeq = s.expectedFirstSeq) (unexpectedSegment s.expectedFirstSeq firstSeq)
  let manifestFile := dir.manifest? firstSeq
  require (manifestFile.isSome ∨ last) (lacksManifest firstSeq)
  let scan ← scanSegment R config bytes firstSeq s.previousHash manifestFile.isNone
  let manifest ← optionalManifest R scan (firstSeq, bytes) manifestFile
  let (expectedFirstSeq, previousHash) ← afterScan s scan
  .ok
    { previousHash := previousHash
      expectedFirstSeq := expectedFirstSeq
      segments := s.segments ++ [⟨relativeSegmentPath firstSeq, firstSeq, scan.lastSeq, scan.eventCount, manifest⟩]
      checkpointEvents := s.checkpointEvents ++ scan.checkpointEvents }

/-- Each member of a list, with whether it is the last. -/
def withLast {α : Type} : List α → List (α × Bool)
  | [] => []
  | [a] => [(a, true)]
  | a :: b :: rest => (a, false) :: withLast (b :: rest)

structure VerifiedStream where
  report : VerificationReport
  checkpointEvents : List EventRecord

/-- `verify_locked(false)`: segments and manifests, without `verify_checkpoints`. -/
def verifyLocked (dir : EventDir) : EventResult VerifiedStream := do
  checkManifests dir
  let s ← commitAll (verifySegment R config dir) ⟨none, 1, [], []⟩ (withLast dir.segments)
  .ok ⟨⟨streamId, s.expectedFirstSeq - 1, s.previousHash, s.segments⟩, s.checkpointEvents⟩

/-! ### Reading from a cursor -/

structure StreamSegment where
  firstSeq : Nat
  bytes : Bytes
  manifest : Option SegmentManifest

/-- One segment of the stream: what was found so far and the first sequence expected next. -/
def streamSegment (dir : EventDir) (s : List StreamSegment × Nat) (segment : (Nat × Bytes) × Bool) :
    EventResult (List StreamSegment × Nat) := do
  let ((firstSeq, bytes), last) := segment
  require (firstSeq = s.2) (unexpectedSegment s.2 firstSeq)
  match dir.manifest? firstSeq with
  | some file =>
      let manifest ← readManifestFile R file firstSeq
      validateManifestShape R manifest bytes firstSeq
      let expected ← okOr (checkedAdd manifest.lastSeq 1) sequenceOverflow
      .ok (s.1 ++ [⟨firstSeq, bytes, some manifest⟩], expected)
  | none =>
      require last (lacksManifest firstSeq)
      .ok (s.1 ++ [⟨firstSeq, bytes, none⟩], s.2)

def streamSegments (dir : EventDir) : EventResult (List StreamSegment) := do
  checkManifests dir
  let s ← commitAll (streamSegment R dir) ([], 1) (withLast dir.segments)
  .ok s.1

def StreamSegment.canContain (segment : StreamSegment) (target : Nat) : Bool :=
  match segment.manifest with
  | none => segment.firstSeq ≤ target
  | some manifest => segment.firstSeq ≤ target && target ≤ manifest.lastSeq

/-- What stops a read. -/
structure Limits where
  events : Nat
  bytes : Nat

/-- The variables of the loop over the lines of a segment. -/
structure LineState where
  batch : EventBatch
  returnedBytes : Nat
  offset : Nat
  previousHash : Option String
  expectedSeq : Nat

/-- A loop goes on or returns. -/
inductive Flow (σ : Type) where
  | more (s : σ)
  | stop (batch : EventBatch)

def EventBatch.lineRead (b : EventBatch) : EventBatch :=
  { b with stats := { b.stats with linesRead := b.stats.linesRead + 1 } }

/-- The event joins the batch, and the cursor points behind it. -/
def EventBatch.take (b : EventBatch) (event : PositionedEvent) : EventBatch where
  events := b.events ++ [event]
  nextCursor := ⟨event.record.envelope.seq, some event.record.eventHash, some event.segmentFirstSeq, event.nextOffset⟩
  eof := b.eof
  stats := { b.stats with eventsReturned := b.stats.eventsReturned + 1 }

def streamLine (cursor : EventCursor) (limits : Limits) (firstSeq : Nat) (s : LineState) (line : Bytes) :
    EventResult (Flow LineState) := do
  let path := relativeSegmentPath firstSeq
  let batch := s.batch.lineRead
  let lineNumber := s.expectedSeq - firstSeq + 1
  let envelope ← readEvent R config path lineNumber line s.expectedSeq s.previousHash
  let hash := eventHash R line
  let nextOffset ← okOr (checkedAdd s.offset (line.length + 1)) (.invalidLayout "stream offset overflow")
  require (envelope.seq = cursor.appliedSeq → cursor.appliedEventHash = some hash)
    (.hashChain path lineNumber "stream cursor hash does not match canonical event")
  if cursor.appliedSeq < envelope.seq then
    if batch.events ≠ [] ∧ limits.bytes < s.returnedBytes + (line.length + 1) then .ok (.stop { batch with eof := false })
    else do
      let taken := batch.take ⟨⟨envelope, hash⟩, firstSeq, nextOffset⟩
      if taken.events.length = limits.events then .ok (.stop { taken with eof := false })
      else do
        let expectedSeq ← okOr (checkedAdd s.expectedSeq 1) sequenceOverflow
        .ok (.more ⟨taken, s.returnedBytes + (line.length + 1), nextOffset, some hash, expectedSeq⟩)
  else do
    let expectedSeq ← okOr (checkedAdd s.expectedSeq 1) sequenceOverflow
    .ok (.more ⟨batch, s.returnedBytes, nextOffset, some hash, expectedSeq⟩)

def streamLines (cursor : EventCursor) (limits : Limits) (firstSeq : Nat) :
    LineState → List Bytes → EventResult (Flow LineState)
  | s, [] => .ok (.more s)
  | s, line :: lines => do
      match ← streamLine R config cursor limits firstSeq s line with
      | .stop batch => .ok (.stop batch)
      | .more s => streamLines cursor limits firstSeq s lines

/-- The cursor stands behind the end of a line of the segment. -/
def checkOffset (segment : StreamSegment) (offset : Nat) : EventResult Unit :=
  if offset = 0 then .ok ()
  else do
    require (offset ≤ segment.bytes.length)
      (.invalidLayout ("stream cursor offset " ++ toString offset ++ " exceeds " ++ toString segment.bytes.length ++
        " bytes in " ++ relativeSegmentPath segment.firstSeq))
    require (segment.bytes[offset - 1]? = some 10)
      (.invalidLayout ("stream cursor does not point to an event boundary in " ++ relativeSegmentPath segment.firstSeq))

/-- The variables of the loop over segments. -/
structure StreamState where
  batch : EventBatch
  returnedBytes : Nat
  previousManifestHash : Option String

def EventBatch.opened (b : EventBatch) : EventBatch :=
  { b with stats := { b.stats with segmentsOpened := b.stats.segmentsOpened + 1 } }

def usesOffset (cursor : EventCursor) (segment : StreamSegment) : Bool :=
  cursor.segmentFirstSeq = some segment.firstSeq ∧ 0 < cursor.nextOffset ∧ segment.firstSeq < cursor.appliedSeq + 1

/-- Where the reading of a segment starts. -/
def startOf (cursor : EventCursor) (s : StreamState) (segment : StreamSegment) : LineState :=
  if usesOffset cursor segment then
    ⟨s.batch.opened, s.returnedBytes, cursor.nextOffset, cursor.appliedEventHash, cursor.appliedSeq + 1⟩
  else ⟨s.batch.opened, s.returnedBytes, 0, s.previousManifestHash, segment.firstSeq⟩

/-- What is left of a segment that was read to its end. -/
def endOf (segment : StreamSegment) (s : StreamState) (l : LineState) : EventResult StreamState :=
  match segment.manifest with
  | none => .ok ⟨l.batch, l.returnedBytes, s.previousManifestHash⟩
  | some manifest => do
      require (l.expectedSeq = manifest.lastSeq + 1)
        (.invalidManifest (relativeManifestPath segment.firstSeq) "streamed event count does not match manifest range")
      .ok ⟨l.batch, l.returnedBytes, some manifest.lastEventHash⟩

def streamOne (cursor : EventCursor) (limits : Limits) (s : StreamState) (segment : StreamSegment) :
    EventResult (Flow StreamState) := do
  let start := startOf cursor s segment
  checkOffset segment start.offset
  let text := cut 10 (segment.bytes.drop start.offset)
  match ← streamLines R config cursor limits segment.firstSeq start text.1 with
  | .stop batch => .ok (.stop batch)
  | .more l => do
      require (text.2 = []) (notTerminated (relativeSegmentPath segment.firstSeq) (l.expectedSeq - segment.firstSeq + 1))
      let s ← endOf segment s l
      .ok (.more s)

def streamAll (cursor : EventCursor) (limits : Limits) : StreamState → List StreamSegment → EventResult EventBatch
  | s, [] => .ok s.batch
  | s, segment :: segments => do
      match ← streamOne R config cursor limits s segment with
      | .stop batch => .ok batch
      | .more s => streamAll cursor limits s segments

/-- If the segment before those to be read ends with the event of the cursor, it has its hash. -/
def checkPreceding (cursor : EventCursor) (preceding : Option StreamSegment) : EventResult Unit :=
  match preceding.bind fun segment => segment.manifest.map fun manifest => (segment, manifest) with
  | none => .ok ()
  | some (segment, manifest) =>
      require (0 < cursor.appliedSeq ∧ manifest.lastSeq = cursor.appliedSeq →
          cursor.appliedEventHash = some manifest.lastEventHash)
        (.hashChain (relativeSegmentPath segment.firstSeq) manifest.eventCount
          "stream cursor hash does not match preceding manifest")

def readBatchLocked (dir : EventDir) (cursor : EventCursor) (limits : Limits) : EventResult EventBatch := do
  let segments ← streamSegments R dir
  let target ← okOr (checkedAdd cursor.appliedSeq 1) sequenceOverflow
  let firstIndex := segments.findIdx fun segment => segment.canContain target
  let preceding := (segments.take firstIndex).getLast?
  checkPreceding cursor preceding
  let previousManifestHash := preceding.bind fun segment => segment.manifest.map SegmentManifest.lastEventHash
  streamAll R config cursor limits ⟨⟨[], cursor, true, ⟨0, 0, 0⟩⟩, 0, previousManifestHash⟩ (segments.drop firstIndex)

def checkCursor (cursor : EventCursor) : EventResult Unit :=
  if cursor.appliedSeq = 0 then
    require (cursor.appliedEventHash = none ∧ cursor.segmentFirstSeq = none ∧ cursor.nextOffset = 0)
      (.invalidInput "an empty cursor cannot contain a hash or segment position")
  else
    require (cursor.appliedEventHash.any isBlake3Identifier)
      (.invalidInput "a non-empty cursor requires a valid applied event hash")

def readBatch (dir : EventDir) (cursor : EventCursor) (limits : Limits) : EventResult EventBatch := do
  require (limits.events ≠ 0 ∧ limits.bytes ≠ 0) (.invalidInput "event and byte batch limits must be greater than zero")
  checkCursor cursor
  readBatchLocked R config dir cursor limits

end ArchiveLedger.Events
