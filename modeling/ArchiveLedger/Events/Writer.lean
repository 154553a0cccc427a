import ArchiveLedger.Events.Stream
import ArchiveLedger.Foundation.CrashLogic

/-!
# The writer of version 1

`event_store.rs` again: what `append_batch` and `create_checkpoint` do to the files.  A program here goes through the
states of the directory after each byte it appends, after each file it creates and after each manifest it renames into
its place, so that a writer that is stopped leaves one of them.  Whoever writes next looks at the files first
(`inspectWriterState`): it checks the manifests and repairs the end of the last segment (`recoverOpenTail`).
-/

namespace ArchiveLedger.Events

open CrashLogic Lines Outcome Transition

/-! ### Data -/

structure EventReferences where
  jobId : Option String
  objectId : Option String
  fileRefId : Option String
  copyClaimId : Option String
  locationId : Option String
  deviceId : Option String
  siteId : Option String

structure EventRequest where
  eventType : String
  payload : Json
  references : EventReferences

/-- What a new event gets from outside: its ULID and the clock. -/
structure Stamp where
  ulid : String
  timeUtcMs : Nat

structure OpenSegment where
  firstSeq : Nat
  eventCount : Nat
deriving DecidableEq, Repr

structure WriterState where
  closed : List SegmentManifest
  opened : Option OpenSegment
  nextSeq : Nat
  previousEventHash : Option String
deriving DecidableEq, Repr

structure Prepared where
  envelope : EventEnvelope
  line : Bytes
  hash : String

def Prepared.record (p : Prepared) : EventRecord := ⟨p.envelope, p.hash⟩

/-! ### Files -/

def EventDir.segment? (dir : EventDir) (firstSeq : Nat) : Option Bytes :=
  (SortedMap.look Prod.fst dir.segments firstSeq).map Prod.snd

def EventDir.setSegment (dir : EventDir) (firstSeq : Nat) (bytes : Bytes) : EventDir :=
  { dir with segments := SortedMap.put Prod.fst dir.segments (firstSeq, bytes) }

def EventDir.setManifest (dir : EventDir) (firstSeq : Nat) (bytes : Bytes) : EventDir :=
  { dir with manifests := SortedMap.put Prod.fst dir.manifests (firstSeq, bytes) }

abbrev Writes (α : Type) := Prog EventDir EventStoreError α

/-- The text of a segment. -/
def readSegment (firstSeq : Nat) : Writes Bytes := do
  let dir ← Prog.get
  liftM (okOr (dir.segment? firstSeq) (EventStoreError.io "open segment" (relativeSegmentPath firstSeq)))

def createSegment (firstSeq : Nat) : Writes Unit := do
  let dir ← Prog.get
  liftM (require ((dir.segment? firstSeq).isNone) (EventStoreError.io "create event segment" (relativeSegmentPath firstSeq)))
  Prog.write fun dir => [dir.setSegment firstSeq []]

/-- `write_all` at the end of a segment, byte by byte. -/
def appendBytes (firstSeq : Nat) (text : Bytes) : Writes Unit := do
  let bytes ← readSegment firstSeq
  Prog.write fun dir => (List.range text.length).map fun n => dir.setSegment firstSeq (bytes ++ text.take (n + 1))

variable (R : EventRuntime) (config : EventStoreConfig)

def EventStoreConfig.validate : EventResult Unit := do
  require (config.rolloverEvents ≠ 0) (.invalidInput "rollover_events must be greater than zero")
  require (config.maxEventBytes ≠ 0) (.invalidInput "max_event_bytes must be greater than zero")
  require (config.actorId ≠ "" ∧ config.hostId ≠ "") (.invalidInput "actor_id and host_id must be non-empty")

/-! ### Looking at the files -/

/-- Behind the lines of the last segment, an incomplete one is cut off and a complete one gets its end. -/
def recoverOpenTail (firstSeq : Nat) (previousHash : Option String) : Writes Unit := do
  let bytes ← readSegment firstSeq
  let path := relativeSegmentPath firstSeq
  let s ← liftM (commitAll (scanLine R config path) ⟨0, firstSeq, previousHash, 0, none, none, []⟩ (cut 10 bytes).1)
  if (cut 10 bytes).2 = [] then pure ()
  else do
    liftM (require ((cut 10 bytes).2.length ≤ config.maxEventBytes)
      (EventStoreError.invalidEvent path (s.lineNumber + 1) ("event exceeds " ++ toString config.maxEventBytes ++ " bytes")))
    match R.readValue (cut 10 bytes).2 with
    | none => Prog.write fun dir => [dir.setSegment firstSeq (bytes.take s.sizeBytes)]
    | some value => do
        let envelope ← liftM (mapError (EventStoreError.invalidEvent path (s.lineNumber + 1)) (R.envelopeOfValue value))
        liftM (validateEvent R path (s.lineNumber + 1) envelope s.expectedSeq s.previousHash)
        Prog.write fun dir => [dir.setSegment firstSeq (bytes ++ [10])]

/-- One segment of `inspect_writer_state(true)`. -/
def inspectSegment (s : WriterState) (segment : Nat × Bytes) : Writes WriterState := do
  liftM (require (segment.1 = s.nextSeq) (unexpectedSegment s.nextSeq segment.1))
  let dir ← Prog.get
  match dir.manifest? segment.1 with
  | some file => do
      let manifest ← liftM (readManifestFile R file segment.1)
      liftM (validateManifestShape R manifest segment.2 segment.1)
      let expected ← liftM (okOr (checkedAdd manifest.lastSeq 1) sequenceOverflow)
      pure ⟨s.closed ++ [manifest], s.opened, expected, some manifest.lastEventHash⟩
  | none => do
      recoverOpenTail R config segment.1 s.previousEventHash
      let bytes ← readSegment segment.1
      let scan ← liftM (scanSegment R config bytes segment.1 s.previousEventHash true)
      pure
        { closed := s.closed
          opened := some ⟨segment.1, scan.eventCount⟩
          nextSeq := (scan.lastSeq.map (· + 1)).getD segment.1
          previousEventHash := scan.lastEventHash.or s.previousEventHash }

def inspectSegments : WriterState → List (Nat × Bytes) → Writes WriterState
  | s, [] => pure s
  | s, segment :: segments => do
      let s ← inspectSegment R config s segment
      inspectSegments s segments

/-- Only the last segment may lack its manifest. -/
def checkUnmanifested (dir : EventDir) : EventResult Unit := do
  let unmanifested := (dir.segments.map Prod.fst).filter fun firstSeq => (dir.manifest? firstSeq).isNone
  require (unmanifested.length ≤ 1)
    (.invalidLayout ("more than one unmanifested segment: [" ++ ", ".intercalate (unmanifested.map toString) ++ "]"))
  unmanifested.head?.forM fun firstSeq =>
    require ((dir.segments.map Prod.fst).getLast? = some firstSeq) (lacksManifest firstSeq)

/-- `inspect_writer_state(true)`. -/
def inspectWriterState : Writes WriterState := do
  let dir ← Prog.get
  liftM (checkManifests dir)
  liftM (checkUnmanifested dir)
  inspectSegments R config ⟨[], none, 1, none⟩ dir.segments

/-! ### Closing a segment -/

def publishManifest (scan : SegmentScan) : Writes SegmentManifest := do
  let manifest ← liftM (manifestFromScan scan)
  let dir ← Prog.get
  match dir.manifest? scan.firstSeq with
  | some file => do
      let existing ← liftM (readManifestFile R file scan.firstSeq)
      liftM (require (existing = manifest)
        (EventStoreError.invalidManifest (relativeManifestPath scan.firstSeq) "existing manifest does not match segment"))
      pure existing
  | none => do
      Prog.write fun dir => [dir.setManifest scan.firstSeq (R.writeManifest manifest)]
      pure manifest

def closeOpenSegment (state : WriterState) : Writes WriterState :=
  match state.opened with
  | none => pure state
  | some opened => do
      liftM (require (opened.eventCount ≠ 0)
        (EventStoreError.invalidLayout ("cannot close empty segment " ++ relativeSegmentPath opened.firstSeq)))
      let bytes ← readSegment opened.firstSeq
      let scan ← liftM (scanSegment R config bytes opened.firstSeq (state.closed.getLast?.map SegmentManifest.lastEventHash) false)
      liftM (require (scan.eventCount = opened.eventCount)
        (EventStoreError.invalidLayout
          ("open segment count changed from " ++ toString opened.eventCount ++ " to " ++ toString scan.eventCount)))
      let manifest ← publishManifest R scan
      pure ⟨state.closed ++ [manifest], none, manifest.lastSeq + 1, some manifest.lastEventHash⟩

/-! ### Appending -/

def validatePublicBatch (requests : List EventRequest) : EventResult Unit := do
  require (requests ≠ []) (.invalidInput "an append batch must contain at least one event")
  require (∀ request ∈ requests, request.eventType ≠ "checkpoint_created")
    (.invalidInput "checkpoint_created may only be emitted by create_checkpoint")

def validateRequest (request : EventRequest) : EventResult Unit := do
  require (request.eventType ≠ "") (.invalidInput "event_type must be non-empty")
  require request.payload.isObject (.invalidInput "event payload must be a JSON object")

def envelopeOf (seq : Nat) (previousHash : Option String) (request : EventRequest) (stamp : Stamp) : EventEnvelope where
  v := envelopeVersion
  streamId := streamId
  seq := seq
  eventId := "evt_" ++ stamp.ulid
  eventType := request.eventType
  timeUtcMs := stamp.timeUtcMs
  actorId := config.actorId
  hostId := config.hostId
  jobId := request.references.jobId
  objectId := request.references.objectId
  fileRefId := request.references.fileRefId
  copyClaimId := request.references.copyClaimId
  locationId := request.references.locationId
  deviceId := request.references.deviceId
  siteId := request.references.siteId
  previousEventHash := previousHash
  payload := request.payload

/-- The lines of a batch. -/
def prepare : Nat → Option String → List (EventRequest × Stamp) → EventResult (List Prepared)
  | _, _, [] => .ok []
  | seq, previousHash, (request, stamp) :: requests => do
      let envelope := envelopeOf config seq previousHash request stamp
      let line := R.writeEnvelope envelope
      require (line.length ≤ config.maxEventBytes)
        (.invalidInput ("serialized event exceeds " ++ toString config.maxEventBytes ++ " bytes"))
      let next ← okOr (checkedAdd seq 1) sequenceOverflow
      let rest ← prepare next (some (eventHash R line)) requests
      .ok (⟨envelope, line, eventHash R line⟩ :: rest)

/-- The lines a batch will be, if it comes to that; the batch may depend on where the stream goes on. -/
def preparedIn (dir : EventDir) (requests : Nat → List (EventRequest × Stamp)) : List Prepared :=
  match ((inspectWriterState R config).run dir).2 with
  | .ok state => ((prepare R config state.nextSeq state.previousEventHash (requests state.nextSeq)).toOption).getD []
  | .error _ => []

/-- The open segment, which is created where there is none. -/
def openSegment (state : WriterState) : Writes OpenSegment :=
  match state.opened with
  | some opened => pure opened
  | none => do
      createSegment state.nextSeq
      pure ⟨state.nextSeq, 0⟩

/-- One line of a batch. -/
def appendPrepared (state : WriterState) (p : Prepared) : Writes WriterState := do
  let opened ← openSegment state
  appendBytes opened.firstSeq (p.line ++ [10])
  let nextSeq ← liftM (okOr (checkedAdd state.nextSeq 1) sequenceOverflow)
  let state : WriterState := ⟨state.closed, some ⟨opened.firstSeq, opened.eventCount + 1⟩, nextSeq, some p.hash⟩
  if opened.eventCount + 1 = config.rolloverEvents then closeOpenSegment R config state else pure state

def appendPreparedAll : WriterState → List Prepared → Writes WriterState
  | state, [] => pure state
  | state, p :: ps => do
      let state ← appendPrepared R config state p
      appendPreparedAll state ps

def closeAfter (forceCloseAfter : Bool) (state : WriterState) : Writes WriterState :=
  if forceCloseAfter then closeOpenSegment R config state else pure state

def appendBatchToState (state : WriterState) (requests : List (EventRequest × Stamp)) (forceCloseAfter : Bool) :
    Writes (List EventRecord) := do
  liftM (requests.forM fun request => validateRequest request.1)
  let prepared ← liftM (prepare R config state.nextSeq state.previousEventHash requests)
  let state ← appendPreparedAll R config state prepared
  let _ ← closeAfter R config forceCloseAfter state
  pure (prepared.map Prepared.record)

/-- A segment that is full is closed before anything is appended. -/
def closeFullSegment (state : WriterState) : Writes WriterState :=
  if state.opened.any fun opened => config.rolloverEvents ≤ opened.eventCount then closeOpenSegment R config state
  else pure state

def appendBatchLocked (requests : List (EventRequest × Stamp)) (forceCloseAfter : Bool) : Writes (List EventRecord) := do
  let state ← inspectWriterState R config
  let state ← closeFullSegment R config state
  appendBatchToState R config state requests forceCloseAfter

/-- `complete_pending_checkpoint_locked` looks at the files.  What it finds among the checkpoints then is given: an error,
or whether it published one. -/
def completePending (pending : EventResult Bool) : Writes Bool := do
  let _ ← inspectWriterState R config
  liftM pending

def appendBatch (requests : List (EventRequest × Stamp)) (pending : EventResult Bool) : Writes (List EventRecord) := do
  liftM (validatePublicBatch (requests.map Prod.fst))
  let _ ← completePending R config pending
  appendBatchLocked R config requests false

/-- A checkpoint has closed segments before it. -/
def closePrefix (state : WriterState) : Writes WriterState :=
  if state.opened.any fun opened => 0 < opened.eventCount then closeOpenSegment R config state else pure state

def checkpointRequest (checkpointId : String) (eventLastSeq : Nat) : EventRequest where
  eventType := "checkpoint_created"
  payload := .obj [("checkpoint_id", .str checkpointId),
    ("checkpoint_path", .str ("checkpoints/" ++ checkpointId ++ ".json")), ("event_last_seq", .num (toString eventLastSeq))]
  references := ⟨none, none, none, none, none, none, none⟩

/-- `create_checkpoint_locked`, up to the event it appends. -/
def createCheckpoint (checkpointId : String) (stamp : Stamp) (pending : EventResult Bool) : Writes (List EventRecord) := do
  let completed ← completePending R config pending
  if completed then pure []
  else do
    let state ← inspectWriterState R config
    liftM (require (state.nextSeq ≠ 1) (EventStoreError.invalidInput "cannot checkpoint an empty event stream"))
    let state ← closePrefix R config state
    appendBatchLocked R config [(checkpointRequest checkpointId state.nextSeq, stamp)] true

end ArchiveLedger.Events
