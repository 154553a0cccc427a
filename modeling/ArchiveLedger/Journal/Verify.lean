import ArchiveLedger.Foundation.Worklist
import ArchiveLedger.Journal.Tree

/-!
# The verifiers

The two full verifications of `v2_store.rs` and the incremental one.  `verify` reads
whole origins and checks batches, coordination proofs and causal frontiers of all
records at the end.  `visitVerified` streams the segments of one origin after the
other, checks each record as it comes and hands the records of a segment to its
visitor when the segment is authenticated.  `visitVerifiedSince` does the same from
the cursors of an earlier frontier.

The visitor is the one that keeps what it is given: a visit returns the records in
the order it yields them.  A segment is read a second time for the visitor; as the
tree does not change in between, those are the records just authenticated.
-/

namespace ArchiveLedger

open Outcome Transition Worklist

structure VerifiedV2Archive where
  genesis : SignedGenesis
  genesisHash : String
  acceptedFrontier : CausalFrontier
  acceptedFrontierHash : String
  records : List VerifiedV2Record
  recordCount : Nat
  clients : ClientMap
  frontiers : FrontierMap
  segmentCount : Nat
  frontierCount : Nat

/-- Where a reader of an origin stands: the last record it has and the manifest of its
segment. -/
structure V2OriginCursor where
  appliedSeq : Nat
  appliedRecordHash : Option String
  appliedSegmentManifestHash : Option String
deriving DecidableEq, Repr

/-- Before the first record. -/
def V2OriginCursor.start : V2OriginCursor := ⟨0, none, none⟩

/-- A segment that is being read. -/
structure SegmentRead where
  expectedSeq : Nat
  previousRecordHash : Option String
  records : List VerifiedV2Record

variable (R : StoreRuntime) (tree : EventTree)

/-! ### Whole origins -/

/-- The next line of a segment. -/
def readLine (tail : OriginFrontier) (body : SegmentManifestBody) (manifestHash : String)
    (s : SegmentRead) (line : Bytes) : StoreResult SegmentRead := do
  let (parsed, next) ← parseNext R tail.originId s.expectedSeq s.previousRecordHash line
  .ok ⟨next, some parsed.recordHash,
    s.records ++ [⟨parsed, line, manifestHash, body.causalBaseFrontierHash⟩]⟩

def verifyLine (tail : OriginFrontier) (body : SegmentManifestBody) (manifestHash : String)
    (s : SegmentRead) (line : Bytes) : StoreResult SegmentRead := do
  require (line ≠ []) (emptyLine body.segmentPath)
  readLine R tail body manifestHash s line

/-- The manifests of an origin in the order of their paths, up to the accepted tail. -/
def verifySegments (trust : TrustRoot) (key : Bytes) (tail : OriginFrontier) :
    Nat → Option String → Option String → List String → StoreResult (List VerifiedV2Record × Nat)
  | _, _, _, [] =>
      .error (.invalid ("accepted segment manifest is missing for origin " ++ tail.originId))
  | expectedSeq, previousRecord, previousManifest, path :: rest => do
      let (manifest, manifestHash) ← readManifest R tree path
      manifest.verify R key
      let body := manifest.body
      require (manifestFits trust tail.originId expectedSeq previousManifest body)
        (.invalid ("segment manifest chain is inconsistent at " ++ path))
      let bytes ← readSegment R tree body
      let s ← commitAll (verifyLine R tail body manifestHash) ⟨expectedSeq, previousRecord, []⟩
        (segmentLines bytes)
      require (rangeMatches body s.records)
        (.invalid ("record range does not match manifest at " ++ path))
      if manifestHash = tail.segmentManifestHash then do
        checkTail tail body
        .ok (s.records, 1)
      else do
        let (records, segments) ← verifySegments trust key tail s.expectedSeq s.previousRecordHash
          (some manifestHash) rest
        .ok (s.records ++ records, segments + 1)

def verifyOrigin (trust : TrustRoot) (key : Bytes) (tail : OriginFrontier) :
    StoreResult (List VerifiedV2Record × Nat) := do
  let entries ← readSortedFiles tree (manifestDirectory tail.originId) ".manifest.json"
  require (entries ≠ []) (.invalid ("origin " ++ tail.originId ++ " has no signed segments"))
  let (records, segments) ← verifySegments R tree trust key tail 1 none none entries
  require (records.getLast?.map VerifiedV2Record.originSeq = some tail.seq)
    (.invalid ("origin " ++ tail.originId ++ " did not verify through its frontier"))
  .ok (records, segments)

/-- What the verification of whole origins has read. -/
structure OriginsRead where
  clients : ClientMap
  records : List VerifiedV2Record
  segments : Nat

def untrustedOrigins (what : String) (pending : List String) : V2StoreError :=
  .invalid (what ++ " frontier contains origins without trusted enrollment: " ++
    ", ".intercalate pending)

/-- The records of an enrolled origin; one that is not enrolled yet has to wait. -/
def verifyPending (trust : TrustRoot) (accepted : CausalFrontier) (frontiers : FrontierMap)
    (s : OriginsRead) (originId : String) : Option (StoreResult OriginsRead) :=
  (s.clients originId).map fun client => do
    let origin ← okOr (accepted.origin? originId) (.invalid "pending origin came from the accepted frontier")
    require (R.validKey client.publicKey) (.invalid "enrolled client public key is invalid")
    let (records, segments) ← verifyOrigin R tree trust client.publicKey origin
    validateClientOriginRecords records client frontiers
    let clients ← applyClientRegistryItems R records s.clients
    .ok ⟨clients, s.records ++ records, s.segments + segments⟩

/-- The origins of a frontier but the initial one, in the order of their identifiers. -/
def otherOrigins (accepted : CausalFrontier) (initial : String) : List String :=
  (accepted.origins.filter fun origin => origin.originId ≠ initial).map OriginFrontier.originId

/-- The sum of the sequences of a frontier. -/
def acceptedRecordCount (accepted : CausalFrontier) : StoreResult Nat :=
  okOr (accepted.origins.foldlM (fun total origin => checkedAdd total origin.seq) 0)
    (.invalid "record count overflow")

def acceptedFrontierOf (trust : TrustRoot) (frontiers : FrontierMap) : StoreResult CausalFrontier :=
  okOr (frontiers.get? trust.acceptedFrontierHash) (.invalid "accepted frontier was not loaded")

def initialOriginOf (trust : TrustRoot) (accepted : CausalFrontier) : StoreResult OriginFrontier :=
  okOr (accepted.origin? trust.genesis.body.initialClientId)
    (.invalid "accepted frontier omits the genesis client")

/-- The recursion over frontiers goes through one file after the other. -/
def graphDepth : Nat := tree.files.length + 1

def verify : StoreResult VerifiedV2Archive := do
  let trust ← readTrustRoot R tree
  let frontiers ← loadFrontierGraph R tree trust (graphDepth tree) [] trust.acceptedFrontierHash
  let accepted ← acceptedFrontierOf trust frontiers
  let initialOrigin ← initialOriginOf trust accepted
  let (records, segments) ← verifyOrigin R tree trust trust.initialKey initialOrigin
  let approval ← okOr (records.find? fun record => recordContainsItemKind record "archive_initialized")
    (.invalid "genesis origin lacks archive_initialized")
  let initial := { initialClient trust.genesis.body.initialClientId trust.initialKey
      approval.originSeq with approvedOriginId := approval.originId }
  let clients ← applyClientRegistryItems R records (ClientMap.insert (fun _ => none) initial)
  let pending := otherOrigins accepted trust.genesis.body.initialClientId
  let s ← drain (verifyPending R tree trust accepted frontiers) (untrustedOrigins "accepted")
    pending.length ⟨clients, records, segments⟩ pending
  s.records.forM fun record =>
    require (frontiers.get? record.causalFrontierHash).isSome
      (.invalid ("record " ++ record.record.envelope.recordId ++
        " depends on an unknown causal frontier"))
  validateCoordinationContexts R s.records s.clients
  verifyBatches R s.records
  let recordCount ← acceptedRecordCount accepted
  .ok ⟨trust.genesis, trust.genesisHash, accepted, trust.acceptedFrontierHash, s.records, recordCount,
    s.clients, frontiers, s.segments, frontiers.length⟩

/-! ### Streams of segments -/

/-- What the checks of the records of an origin range go on with. -/
structure RecordChecks where
  active : Option BatchValidator
  clients : ClientMap
  archiveInitializedAt : Option (String × Nat)
  retainedStarts : List VerifiedV2Record

/-- A segment that is being visited. -/
structure SegmentVisit extends SegmentRead, RecordChecks

/-- What the visit of one origin range is given. -/
structure OriginRange where
  trust : TrustRoot
  key : Bytes
  tail : OriginFrontier
  knownFrontiers : FrontierMap
  client : Option VerifiedV2Client
  applyRegistry : Bool

/-- The record that initializes the archive, of which an origin range has one at most. -/
def noteInitialization (at? : Option (String × Nat)) (record : VerifiedV2Record) :
    StoreResult (Option (String × Nat)) :=
  if recordContainsItemKind record "archive_initialized" then do
    require at?.isNone (.invalid "archive_initialized appears more than once")
    .ok (some (record.originId, record.originSeq))
  else .ok at?

/-- Batch starts and the initialization are what a visit keeps in memory. -/
def isRetained (record : VerifiedV2Record) : Bool :=
  record.kind = .batchStart || recordContainsItemKind record "archive_initialized"

/-- The checks of one record that are not about its place in the chain. -/
def checkRecord (range : OriginRange) (c : RecordChecks) (record : VerifiedV2Record) :
    StoreResult RecordChecks := do
  match range.client with
  | some client => validateClientOriginRecords [record] client range.knownFrontiers
  | none => .ok ()
  validateCoordinationContexts R [record] c.clients
  let active ← validateStreamedBatchRecord R c.active record
  let initialized ← noteInitialization c.archiveInitializedAt record
  let clients ←
    if range.applyRegistry then applyClientRegistryItems R [record] c.clients else .ok c.clients
  .ok ⟨active, clients, initialized,
    if isRetained record then c.retainedStarts ++ [record] else c.retainedStarts⟩

def visitLine (range : OriginRange) (body : SegmentManifestBody) (manifestHash : String)
    (s : SegmentVisit) (line : Bytes) : StoreResult SegmentVisit := do
  readRecordLine body.segmentPath line
  let (parsed, next) ← parseNext R range.tail.originId s.expectedSeq s.previousRecordHash line
  let record : VerifiedV2Record := ⟨parsed, line, manifestHash, body.causalBaseFrontierHash⟩
  let checks ← checkRecord R range s.toRecordChecks record
  .ok ⟨⟨next, some parsed.recordHash, s.records ++ [record]⟩, checks⟩

/-- What the visit of an origin range leaves. -/
structure RangeVisit where
  clients : ClientMap
  segments : Nat
  archiveInitializedAt : Option (String × Nat)
  retainedStarts : List VerifiedV2Record
  yielded : List VerifiedV2Record

/-- The segments of an origin, found by their first sequence; each holds at least one record, so
`remaining` needs to be no more than the number of records up to the tail. -/
def visitSegments (range : OriginRange) :
    Nat → Nat → Option String → Option String → RangeVisit → StoreResult RangeVisit
  | 0, _, _, _, _ =>
      .error (.invalid ("incremental manifest chain passed accepted origin " ++ range.tail.originId))
  | remaining + 1, expectedSeq, previousRecord, previousManifest, v => do
      let path := manifestRelativePath range.tail.originId expectedSeq
      let (manifest, manifestHash) ← readManifest R tree path
      manifest.verify R range.key
      let body := manifest.body
      require (manifestFits range.trust range.tail.originId expectedSeq previousManifest body ∧
          (range.knownFrontiers.get? body.causalBaseFrontierHash).isSome)
        (.invalid ("incremental segment manifest chain is inconsistent at " ++ path))
      let bytes ← readSegment R tree body
      let s ← commitAll (visitLine R range body manifestHash)
        ⟨⟨expectedSeq, previousRecord, []⟩,
          ⟨none, v.clients, v.archiveInitializedAt, v.retainedStarts⟩⟩
        (segmentLines bytes)
      require s.active.isNone
        (.invalid ("signed segment contains an incomplete batch at " ++ body.segmentPath))
      require (rangeMatches body s.records)
        (.invalid ("record range does not match manifest at " ++ path))
      let v : RangeVisit := ⟨s.clients, v.segments + 1, s.archiveInitializedAt, s.retainedStarts,
        v.yielded ++ s.records⟩
      if manifestHash = range.tail.segmentManifestHash then do
        checkTail range.tail body
        .ok v
      else do
        require (body.lastSeq < range.tail.seq)
          (.invalid ("incremental manifest chain passed accepted origin " ++ range.tail.originId))
        visitSegments range remaining s.expectedSeq s.previousRecordHash (some manifestHash) v

def visitOriginRange (range : OriginRange) (cursor : V2OriginCursor) (clients : ClientMap)
    (retainedStarts : List VerifiedV2Record) : StoreResult RangeVisit := do
  let expectedSeq ← okOr (checkedAdd cursor.appliedSeq 1) (.invalid "origin sequence overflow")
  visitSegments R tree range (range.tail.seq - cursor.appliedSeq) expectedSeq cursor.appliedRecordHash
    cursor.appliedSegmentManifestHash ⟨clients, 0, none, retainedStarts, []⟩

/-- What a visit has done so far. -/
structure Visit where
  clients : ClientMap
  retainedStarts : List VerifiedV2Record
  yielded : List VerifiedV2Record
  segments : Nat

/-- Go on with the range of one origin. -/
def Visit.range (v : Visit) (range : OriginRange) (cursor : V2OriginCursor) :
    StoreResult (Visit × Option (String × Nat)) := do
  let r ← visitOriginRange R tree range cursor v.clients v.retainedStarts
  .ok (⟨r.clients, r.retainedStarts, v.yielded ++ r.yielded, v.segments + r.segments⟩,
    r.archiveInitializedAt)

/-- The range of an enrolled origin; one that is not enrolled yet has to wait.  The client is
the one known when the visit of its origin begins. -/
def visitPending (trust : TrustRoot) (accepted : CausalFrontier) (frontiers : FrontierMap)
    (cursors : String → V2OriginCursor) (validated : String → Bool) (v : Visit) (originId : String) :
    Option (StoreResult Visit) :=
  (v.clients originId).map fun client => do
    let origin ← okOr (accepted.origin? originId) (.invalid "pending origin came from accepted frontier")
    require (R.validKey client.publicKey) (.invalid "enrolled client public key is invalid")
    let (v, _) ← v.range R tree
      ⟨trust, client.publicKey, origin, frontiers,
        if validated originId then some client else none, true⟩ (cursors originId)
    .ok v

/-- The initial client while its approval is not known yet. -/
def unapprovedInitialClient (trust : TrustRoot) : VerifiedV2Client :=
  initialClient trust.genesis.body.initialClientId trust.initialKey 2

/-- The initial client after its origin was visited. -/
def approveInitialClient (clients : ClientMap) (initial : String) (approval : String × Nat) :
    ClientMap :=
  Function.update clients initial ((clients initial).map fun client =>
    { client with approvedOriginId := approval.1, approvedOriginSeq := approval.2 })

def visitVerified : StoreResult (VerifiedV2Archive × List VerifiedV2Record) := do
  let trust ← readTrustRoot R tree
  let frontiers ← loadFrontierGraph R tree trust (graphDepth tree) [] trust.acceptedFrontierHash
  let accepted ← acceptedFrontierOf trust frontiers
  let initial := trust.genesis.body.initialClientId
  let initialOrigin ← initialOriginOf trust accepted
  let start : Visit :=
    ⟨ClientMap.insert (fun _ => none) (unapprovedInitialClient trust), [], [], 0⟩
  let (v, initialized) ← start.range R tree ⟨trust, trust.initialKey, initialOrigin, frontiers, none, true⟩
    .start
  let approval ← okOr initialized (.invalid "genesis origin lacks archive_initialized")
  let pending := otherOrigins accepted initial
  let v ← drain
    (visitPending R tree trust accepted frontiers (fun _ => .start) (fun _ => true))
    (untrustedOrigins "accepted") pending.length
    { v with clients := approveInitialClient v.clients initial approval } pending
  let expectedRecords ← acceptedRecordCount accepted
  require (v.yielded.length = expectedRecords)
    (.invalid "verified record count does not match accepted frontier")
  .ok (⟨trust.genesis, trust.genesisHash, accepted, trust.acceptedFrontierHash, v.retainedStarts,
    v.yielded.length, v.clients, frontiers, v.segments, frontiers.length⟩, v.yielded)

/-! ### From an earlier frontier -/

/-- A cursor names a record and its segment, or neither. -/
def cursorWellFormed (cursor : V2OriginCursor) : Bool :=
  if cursor.appliedSeq = 0 then
    cursor.appliedRecordHash.isNone && cursor.appliedSegmentManifestHash.isNone
  else cursor.appliedRecordHash.isSome && cursor.appliedSegmentManifestHash.isSome

/-- A cursor at the end of an origin is the end of the origin. -/
def checkCursor (origin : OriginFrontier) (cursor : V2OriginCursor) : StoreResult Unit := do
  require (cursor.appliedSeq ≤ origin.seq ∧ cursorWellFormed cursor)
    (.invalid ("projection cursor for origin " ++ origin.originId ++ " is structurally invalid"))
  require (cursor.appliedSeq = origin.seq →
      cursor.appliedRecordHash = some origin.eventHash ∧
        cursor.appliedSegmentManifestHash = some origin.segmentManifestHash)
    (.invalid ("projection cursor does not match canonical origin " ++ origin.originId))

/-- The origins that a cursor has not reached the end of. -/
def unappliedOrigins (accepted : CausalFrontier) (cursors : String → V2OriginCursor) : List String :=
  (accepted.origins.filter fun origin =>
    (cursors origin.originId).appliedSeq ≠ origin.seq).map OriginFrontier.originId

/-- `visit_verified_since_with_clients`; an origin without a cursor stands at its start. -/
def visitVerifiedSince (baseFrontierHash : String) (cursors : String → V2OriginCursor)
    (trustedClients : ClientMap) : StoreResult (VerifiedV2Archive × List VerifiedV2Record) := do
  validateBlake3Id "base frontier hash" baseFrontierHash
  let trust ← readTrustRoot R tree
  let (_, frontiers) ← loadFrontierPathToBase R tree trust baseFrontierHash (graphDepth tree) []
    trust.acceptedFrontierHash
  require (frontiers.get? baseFrontierHash).isSome
    (.invalid "SQLite applied frontier is not an ancestor of canonical HEAD")
  let accepted ← acceptedFrontierOf trust frontiers
  let initial := trust.genesis.body.initialClientId
  let clients := if (trustedClients initial).isSome then trustedClients
    else trustedClients.insert (unapprovedInitialClient trust)
  accepted.origins.forM fun origin => checkCursor origin (cursors origin.originId)
  let pending := unappliedOrigins accepted cursors
  let v ← drain
    (visitPending R tree trust accepted frontiers cursors (fun originId => originId ≠ initial))
    (untrustedOrigins "unapplied") pending.length ⟨clients, [], [], 0⟩ pending
  .ok (⟨trust.genesis, trust.genesisHash, accepted, trust.acceptedFrontierHash, v.retainedStarts,
    v.yielded.length, v.clients, frontiers, v.segments, frontiers.length⟩, v.yielded)

end ArchiveLedger
