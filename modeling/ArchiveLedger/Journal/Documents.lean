import ArchiveLedger.Foundation.Text
import ArchiveLedger.Journal.Batches

/-!
# The documents of an event tree

The genesis, the segment manifests and the origin records, each with the rules
its own module checks before anything else looks at it: `genesis.rs`, `v2_event.rs`
and the manifest part of `v2_store.rs`.

`StoreRuntime` holds what the code takes from outside the repository: BLAKE3 as
lowercase hexadecimal, Ed25519, the ULID parser and the JSON reader and writer of
every document.
-/

namespace ArchiveLedger

open Outcome

/-! ### JSON values -/

/-- `Value::get` with a field name. -/
def Json.get (value : Json) (field : String) : Option Json :=
  match value with
  | .obj fields => (fields.find? fun f => f.1 = field).map Prod.snd
  | _ => none

def Json.asArray : Json → Option (List Json)
  | .arr items => some items
  | _ => none

def Json.isObject : Json → Bool
  | .obj _ => true
  | _ => false

/-- `Value::as_u64`: a number written with digits only and within the range. -/
def Json.asU64 : Json → Option Nat
  | .num text =>
      if text ≠ "" ∧ text.toList.all (fun c => '0' ≤ c && c ≤ '9') then
        let value := text.toList.foldl (fun n c => n * 10 + (c.toNat - '0'.toNat)) 0
        if value ≤ u64Max then some value else none
      else none
  | _ => none

/-! ### Genesis -/

structure GenesisBody where
  genesisV : Nat
  archiveId : String
  archiveDisplayName : String
  createdTimeUtcMs : Nat
  recordV : Nat
  frontierV : Nat
  itemProjectionV : Nat
  schemaV : Nat
  initialClientId : String
  initialPublicKey : String
deriving DecidableEq, Repr

structure SignedGenesis where
  body : GenesisBody
  signature : String
deriving DecidableEq, Repr

inductive GenesisError where
  | invalidArchiveIdentity
  | unsupportedVersion
  | invalidInitialClient
  | invalidSignature
deriving DecidableEq, Repr

/-! ### Records -/

inductive V2RecordKind where
  | batchStart | batchChunk | batchComplete
deriving DecidableEq, Repr

structure V2RecordEnvelope where
  v : Nat
  originId : String
  originSeq : Nat
  recordId : String
  recordKind : V2RecordKind
  timeUtcMs : Nat
  batchId : String
  previousRecordHash : Option String
  payload : Json

structure V2Record where
  envelope : V2RecordEnvelope
  recordHash : String

inductive V2RecordError where
  | containsNewline
  | tooManyBytes (actual maximum : Nat)
  | invalidJson
  | unsupportedVersion (actual expected : Nat)
  | originMismatch (expected actual : String)
  | invalidOriginId (originId : String)
  | sequenceMismatch (expected actual : Nat)
  | invalidRecordId
  | invalidBatchId
  | invalidPayload
  | previousHashMismatch
deriving DecidableEq, Repr

/-! ### Manifests and leases -/

structure SegmentManifestBody where
  manifestV : Nat
  archiveId : String
  genesisHash : String
  originId : String
  segmentPath : String
  firstSeq : Nat
  lastSeq : Nat
  firstRecordId : String
  lastRecordId : String
  firstRecordHash : String
  lastRecordHash : String
  recordCount : Nat
  segmentBytes : Nat
  segmentBlake3 : String
  causalBaseFrontierHash : String
  previousSegmentManifestHash : Option String
deriving DecidableEq, Repr

structure SignedSegmentManifest where
  body : SegmentManifestBody
  signature : String
deriving DecidableEq, Repr

structure CoordinationLeaseBody where
  leaseV : Nat
  archiveId : String
  genesisHash : String
  scopeKind : String
  scopeId : String
  tokenId : String
  holderClientId : String
  baseFrontierHash : String
  state : String
  notBeforeUtcMs : Nat
  notAfterUtcMs : Nat
  previousLeaseCommit : Option String
deriving DecidableEq, Repr

structure SignedCoordinationLease where
  body : CoordinationLeaseBody
  signature : String
deriving DecidableEq, Repr

/-! ### What the repository does not contain -/

structure StoreRuntime where
  blake3 : Bytes → String
  validKey : Bytes → Bool
  verifyStrict : Bytes → Bytes → Bytes → Bool
  ulid : Bytes → Bool
  readGenesis : Bytes → Option SignedGenesis
  writeGenesis : SignedGenesis → Bytes
  writeGenesisBody : GenesisBody → Bytes
  readFrontier : Bytes → Option CausalFrontier
  writeFrontier : CausalFrontier → Bytes
  readManifest : Bytes → Option SignedSegmentManifest
  writeManifest : SignedSegmentManifest → Bytes
  writeManifestBody : SegmentManifestBody → Bytes
  readEnvelope : Bytes → Option V2RecordEnvelope
  readLease : Json → Except String SignedCoordinationLease
  writeLeaseBody : CoordinationLeaseBody → Bytes

/-! ### Errors of the store -/

inductive V2StoreError where
  | invalid (message : String)
  | io (operation path : String)
  | json (path : String)
  | genesis (error : GenesisError)
  | frontier (error : FrontierError)
  | record (error : V2RecordError)
  | batch (error : BatchValidationError)
deriving DecidableEq, Repr

abbrev StoreResult (α : Type) := Except V2StoreError α

/-- `base64::engine::general_purpose::STANDARD_NO_PAD`. -/
def standardNoPad : Base64.Engine := { Base64.standard with padded := false }

/-- The symbols of base64 are single bytes. -/
def decodeNoPad (text : String) : Option Bytes :=
  Base64.decode standardNoPad ((utf8 text).map fun b => Char.ofNat b.toNat)

variable (R : StoreRuntime)

def blake3Id (bytes : Bytes) : String := "blake3:" ++ R.blake3 bytes

def clientId (publicKey : Bytes) : String := "origin_" ++ R.blake3 publicKey

/-- `Signature::from_slice` and `verify_strict` on base64 text, with the error of each step. -/
def verifySignature {ε : Type} (key message : Bytes) (signature : String)
    (notBase64 wrongLength invalid : ε) : Except ε Unit := do
  let signature ← okOr (decodeNoPad signature) notBase64
  require (signature.length = 64) wrongLength
  require (R.verifyStrict key message signature) invalid

def genesisVersion : Nat := 2

def v2SchemaVersion : Nat := 6

def v2RecordVersion : Nat := 2

/-- The key of the initial client of a well-formed genesis. -/
def GenesisBody.validate (body : GenesisBody) : Except GenesisError Bytes := do
  require (body.archiveId ≠ "" ∧ Text.trim body.archiveDisplayName ≠ "") .invalidArchiveIdentity
  require (body.genesisV = genesisVersion ∧ body.recordV = v2RecordVersion ∧
    body.frontierV = frontierVersion ∧ body.itemProjectionV = initialItemProjectionVersion ∧
    body.schemaV = v2SchemaVersion) .unsupportedVersion
  let bytes ← okOr (decodeNoPad body.initialPublicKey) .invalidInitialClient
  require (bytes.length = 32) .invalidInitialClient
  require (body.initialClientId = clientId R bytes) .invalidInitialClient
  require (R.validKey bytes) .invalidInitialClient
  .ok bytes

def GenesisBody.canonicalBytes (body : GenesisBody) : Except GenesisError Bytes := do
  let _ ← body.validate R
  .ok (R.writeGenesisBody body)

def SignedGenesis.verify (genesis : SignedGenesis) : Except GenesisError Unit := do
  let key ← genesis.body.validate R
  let message ← genesis.body.canonicalBytes R
  verifySignature R key message genesis.signature .invalidSignature .invalidSignature .invalidSignature

def SignedGenesis.canonicalBytes (genesis : SignedGenesis) : Except GenesisError Bytes := do
  genesis.verify R
  .ok (R.writeGenesis genesis)

def SignedGenesis.genesisHash (genesis : SignedGenesis) : Except GenesisError String := do
  let bytes ← genesis.canonicalBytes R
  .ok (blake3Id R bytes)

/-! ### Reading a record -/

def defaultMaxV2RecordBytes : Nat := defaultMaxBatchChunkBytes

def isPrefixedLowercaseUlid (value start : String) : Bool :=
  (stripPrefix start value).any fun ulid =>
    ulid.all (fun b => b.toNat < 65 || 90 < b.toNat) && R.ulid ulid

/-- The hash a record names as its predecessor is the one expected and fits its sequence. -/
def previousHashFits (envelope : V2RecordEnvelope) (expectedSeq : Nat)
    (expected : Option String) : Bool :=
  envelope.previousRecordHash = expected &&
    envelope.previousRecordHash.all isBlake3Identifier &&
    !(expectedSeq = 1 && envelope.previousRecordHash.isSome) &&
    !(1 < expectedSeq && envelope.previousRecordHash.isNone)

def parseV2Record (line : Bytes) (expectedOriginId : String) (expectedOriginSeq : Nat)
    (expectedPreviousHash : Option String) (maxRecordBytes : Nat) : Except V2RecordError V2Record := do
  require (!line.contains 10 && !line.contains 13) .containsNewline
  let effectiveMax := min maxRecordBytes defaultMaxV2RecordBytes
  require (line.length ≤ effectiveMax) (.tooManyBytes line.length effectiveMax)
  let envelope ← okOr (R.readEnvelope line) .invalidJson
  require (envelope.v = v2RecordVersion) (.unsupportedVersion envelope.v v2RecordVersion)
  require (isOriginId envelope.originId) (.invalidOriginId envelope.originId)
  require (envelope.originId = expectedOriginId) (.originMismatch expectedOriginId envelope.originId)
  require (envelope.originSeq = expectedOriginSeq ∧ expectedOriginSeq ≠ 0)
    (.sequenceMismatch expectedOriginSeq envelope.originSeq)
  require (isPrefixedLowercaseUlid R envelope.recordId "rec_") .invalidRecordId
  require (isPrefixedLowercaseUlid R envelope.batchId "batch_") .invalidBatchId
  require envelope.payload.isObject .invalidPayload
  require (previousHashFits envelope expectedOriginSeq expectedPreviousHash) .previousHashMismatch
  .ok ⟨envelope, blake3Id R line⟩

/-! ### Checks shared by the documents of the store -/

def validateBlake3Id (field value : String) : StoreResult Unit :=
  require (isBlake3Identifier value) (.invalid (field ++ " is not a lowercase BLAKE3 identifier"))

def validateOriginId (value : String) : StoreResult Unit :=
  require (isOriginId value) (.invalid "client origin ID is not lowercase origin_<blake3-hex>")

def manifestVersion : Nat := 2

def validateManifestBody (body : SegmentManifestBody) : StoreResult Unit := do
  require (body.manifestV = manifestVersion ∧ body.archiveId ≠ "" ∧ body.originId ≠ "" ∧
    body.firstSeq ≠ 0 ∧ body.firstSeq ≤ body.lastSeq ∧
    body.recordCount = body.lastSeq - body.firstSeq + 1 ∧ body.segmentBytes ≠ 0)
    (.invalid "segment manifest has invalid structural fields")
  validateBlake3Id "genesis_hash" body.genesisHash
  validateBlake3Id "first_record_hash" body.firstRecordHash
  validateBlake3Id "last_record_hash" body.lastRecordHash
  validateBlake3Id "segment_blake3" body.segmentBlake3
  validateBlake3Id "causal_base_frontier_hash" body.causalBaseFrontierHash
  match body.previousSegmentManifestHash with
  | some previous => validateBlake3Id "previous_segment_manifest_hash" previous
  | none => .ok ()

def SignedSegmentManifest.verify (manifest : SignedSegmentManifest) (key : Bytes) :
    StoreResult Unit := do
  validateManifestBody manifest.body
  verifySignature R key (R.writeManifestBody manifest.body) manifest.signature
    (.invalid "segment manifest signature is not base64")
    (.invalid "segment manifest signature has the wrong length")
    (.invalid "segment manifest signature is invalid")

def SignedSegmentManifest.manifestHash (manifest : SignedSegmentManifest) : String :=
  blake3Id R (R.writeManifest manifest)

def coordinationLeaseVersion : Nat := 1

def validateCoordinationLeaseBody (body : CoordinationLeaseBody) : StoreResult Unit := do
  require (body.leaseV = coordinationLeaseVersion ∧ body.archiveId ≠ "" ∧
    body.scopeKind = "archive" ∧ body.scopeId = body.archiveId ∧
    (stripPrefix "lease_" body.tokenId).isSome ∧ body.notBeforeUtcMs ≤ body.notAfterUtcMs ∧
    body.state ∈ ["acquired", "renewed", "released", "broken"])
    (.invalid "coordination lease has invalid structural fields")
  validateOriginId body.holderClientId
  validateBlake3Id "coordination genesis hash" body.genesisHash
  validateBlake3Id "coordination base frontier hash" body.baseFrontierHash

end ArchiveLedger
