import ArchiveLedger.Journal.Documents

/-!
# Clients, coordination proofs and batches

What the verifiers of `v2_store.rs` check about an authenticated record besides
its place in the chain: the enrollment of its origin, the registry items it
carries, the lease proof of a protected batch and the records of its batch.
`verifyBatches` looks at all records at the end, `validateStreamedBatchRecord` at
one after the other.
-/

namespace ArchiveLedger

open Outcome Transition

structure VerifiedV2Record where
  record : V2Record
  exactLineBytes : Bytes
  segmentManifestHash : String
  causalFrontierHash : String

namespace VerifiedV2Record

abbrev originId (r : VerifiedV2Record) : String := r.record.envelope.originId

abbrev originSeq (r : VerifiedV2Record) : Nat := r.record.envelope.originSeq

abbrev kind (r : VerifiedV2Record) : V2RecordKind := r.record.envelope.recordKind

abbrev batchId (r : VerifiedV2Record) : String := r.record.envelope.batchId

abbrev payload (r : VerifiedV2Record) : Json := r.record.envelope.payload

/-- The items of a chunk; other records carry none. -/
def items (r : VerifiedV2Record) : List Json :=
  if r.kind = .batchChunk then ((r.payload.get "items").bind Json.asArray).getD [] else []

end VerifiedV2Record

/-- The kind of an item. -/
def itemKind (item : Json) : Option String := (item.get "kind").bind Json.asStr

def recordContainsItemKind (record : VerifiedV2Record) (expected : String) : Bool :=
  record.items.any fun item => itemKind item = some expected

/-! ### Enrolled clients -/

structure VerifiedV2Client where
  clientId : String
  displayName : String
  publicKey : Bytes
  capabilities : List String
  approvedOriginId : String
  approvedOriginSeq : Nat
  revokedOriginId : Option String
  revokedOriginSeq : Option Nat
deriving DecidableEq, Repr

def VerifiedV2Client.isRevoked (client : VerifiedV2Client) : Bool := client.revokedOriginId.isSome

/-- `BTreeMap<String, VerifiedV2Client>`. -/
abbrev ClientMap := String → Option VerifiedV2Client

def ClientMap.insert (clients : ClientMap) (client : VerifiedV2Client) : ClientMap :=
  Function.update clients client.clientId (some client)

/-- `BTreeMap<String, CausalFrontier>`, by the hash of each frontier. -/
abbrev FrontierMap := List (String × CausalFrontier)

def FrontierMap.get? (frontiers : FrontierMap) (hash : String) : Option CausalFrontier :=
  (frontiers.find? fun f => f.1 = hash).map Prod.snd

/-- The initial client; its approval is found later. -/
def initialClient (clientId : String) (publicKey : Bytes) (approvedOriginSeq : Nat) :
    VerifiedV2Client where
  clientId := clientId
  displayName := "Initial client"
  publicKey := publicKey
  capabilities := ["additive_observation", "coordination"]
  approvedOriginId := clientId
  approvedOriginSeq := approvedOriginSeq
  revokedOriginId := none
  revokedOriginSeq := none

variable (R : StoreRuntime)

def requiredString (item : Json) (field : String) : StoreResult String :=
  okOr ((item.get field).bind Json.asStr) (.invalid ("client_enrolled lacks " ++ field))

def capability (value : Json) : StoreResult String :=
  okOr value.asStr (.invalid "client capability is not a string")

def enrolledClientFromItem (item : Json) (record : VerifiedV2Record) :
    StoreResult VerifiedV2Client := do
  let clientIdValue ← requiredString item "client_id"
  validateOriginId clientIdValue
  let displayName ← requiredString item "display_name"
  require (Text.trim displayName ≠ "") (.invalid "client_enrolled display name is empty")
  let encoded ← requiredString item "public_key"
  let publicKey ← okOr (decodeNoPad encoded) (.invalid "client public key is not base64")
  require (publicKey.length = 32) (.invalid "client public key has the wrong length")
  require (R.validKey publicKey) (.invalid "client public key is invalid")
  require (clientIdValue = clientId R publicKey)
    (.invalid "client ID does not match its public key")
  let values ← okOr ((item.get "capabilities").bind Json.asArray)
    (.invalid "client_enrolled lacks capabilities")
  let capabilities ← values.mapM capability
  require (capabilities ≠ []) (.invalid "client_enrolled capabilities are empty")
  .ok ⟨clientIdValue, displayName, publicKey, capabilities, record.originId, record.originSeq,
    none, none⟩

def enrollClient (record : VerifiedV2Record) (clients : ClientMap) (item : Json) :
    StoreResult ClientMap := do
  let client ← enrolledClientFromItem R item record
  require ((clients client.clientId).isNone)
    (.invalid "a client ID was enrolled more than once")
  .ok (clients.insert client)

def revokeClient (record : VerifiedV2Record) (clients : ClientMap) (item : Json) :
    StoreResult ClientMap := do
  let clientId ← okOr ((item.get "client_id").bind Json.asStr)
    (.invalid "client_revoked item lacks client_id")
  validateOriginId clientId
  let client ← okOr (clients clientId)
    (.invalid ("client_revoked names an unenrolled client " ++ clientId))
  require (!client.isRevoked) (.invalid ("client " ++ clientId ++ " was revoked more than once"))
  .ok (Function.update clients clientId (some { client with
    revokedOriginId := some record.originId
    revokedOriginSeq := some record.originSeq }))

def applyRegistryItem (record : VerifiedV2Record) (clients : ClientMap) (item : Json) :
    StoreResult ClientMap :=
  if itemKind item = some "client_enrolled" then enrollClient R record clients item
  else if itemKind item = some "client_revoked" then revokeClient record clients item
  else .ok clients

/-- The registry items of one record. -/
def applyRecordItems (clients : ClientMap) (record : VerifiedV2Record) : StoreResult ClientMap :=
  commitAll (applyRegistryItem R record) clients record.items

def applyClientRegistryItems (records : List VerifiedV2Record) (clients : ClientMap) :
    StoreResult ClientMap := commitAll (applyRecordItems R) clients records

/-- One record of a client's origin: its base includes the enrollment and not the revocation. -/
def validateClientOriginRecord (client : VerifiedV2Client) (frontiers : FrontierMap)
    (record : VerifiedV2Record) : StoreResult Unit := do
  let base ← okOr (frontiers.get? record.causalFrontierHash)
    (.invalid ("client origin " ++ client.clientId ++ " depends on an unknown frontier"))
  require (base.includesDot client.approvedOriginId client.approvedOriginSeq)
    (.invalid ("client origin " ++ client.clientId ++ " does not causally follow its enrollment"))
  match client.revokedOriginId, client.revokedOriginSeq with
  | some originId, some originSeq =>
      require (!base.includesDot originId originSeq)
        (.invalid ("revoked client " ++ client.clientId ++ " appended from a post-revocation frontier"))
  | _, _ => .ok ()

def validateClientOriginRecords (records : List VerifiedV2Record) (client : VerifiedV2Client)
    (frontiers : FrontierMap) : StoreResult Unit := do
  require (records ≠ [])
    (.invalid ("accepted client origin " ++ client.clientId ++ " has no records"))
  records.forM (validateClientOriginRecord client frontiers)

/-! ### Coordination proofs -/

/-- `validate_git_remote_name`. -/
def validateRemoteName (name : String) : StoreResult Unit :=
  let chars := name.toList
  require (chars ≠ [] ∧ chars.head? ≠ some '-' ∧ chars.head? ≠ some '.' ∧
      chars.getLast? ≠ some '.' ∧ ¬ (['.', '.'] <:+: chars) ∧
      chars.all fun c => c.isAlphanum || c = '-' || c = '_' || c = '.')
    (.invalid ("invalid Git remote name " ++ name))

/-- The proof is signed by the client it names. -/
def verifyLeaseProof (clients : ClientMap) (signed : SignedCoordinationLease) : StoreResult Unit := do
  validateCoordinationLeaseBody signed.body
  let client ← okOr (clients signed.body.holderClientId)
    (.invalid "coordination proof holder is not enrolled")
  require (R.validKey client.publicKey) (.invalid "enrolled client public key is invalid")
  verifySignature R client.publicKey (R.writeLeaseBody signed.body) signed.signature
    (.invalid "coordination proof signature is not base64")
    (.invalid "coordination proof signature has the wrong length")
    (.invalid "coordination proof signature is invalid")

def contextString (coordination : Json) (field : String) : StoreResult String :=
  okOr ((coordination.get field).bind Json.asStr)
    (.invalid ("batch coordination context lacks " ++ field))

def contextNumber (coordination : Json) (field : String) : StoreResult Nat :=
  okOr ((coordination.get field).bind Json.asU64)
    (.invalid ("batch coordination context lacks " ++ field))

def contextMismatch : V2StoreError :=
  .invalid "batch coordination context does not match its signed lease"

/-- A field of the context repeats the text of the proof. -/
def requireContext (coordination : Json) (field expected : String) : StoreResult Unit := do
  let value ← contextString coordination field
  require (value = expected) contextMismatch

def requireContextNumber (coordination : Json) (field : String) (expected : Nat) :
    StoreResult Unit := do
  let value ← contextNumber coordination field
  require (value = expected) contextMismatch

def isCommitHash (commit : String) : Bool :=
  (commit.length = 40 || commit.length = 64) &&
    commit.toList.all fun c => ('0' ≤ c && c ≤ '9') || ('a' ≤ c && c ≤ 'f') || ('A' ≤ c && c ≤ 'F')

def validateCoordination (clients : ClientMap) (record : VerifiedV2Record) (coordination : Json) :
    StoreResult Unit := do
  require coordination.isObject (.invalid "batch coordination context is not an object")
  let proofValue ← okOr (coordination.get "lease_proof")
    (.invalid "batch coordination context lacks lease proof")
  let proof ← mapError (fun e => .invalid ("batch coordination proof is invalid: " ++ e))
    (R.readLease proofValue)
  verifyLeaseProof R clients proof
  require (proof.body.state = "acquired") contextMismatch
  requireContext coordination "scope_kind" proof.body.scopeKind
  requireContext coordination "scope_id" proof.body.scopeId
  requireContext coordination "token_id" proof.body.tokenId
  requireContext coordination "holder_client_id" proof.body.holderClientId
  requireContext coordination "base_frontier_hash" proof.body.baseFrontierHash
  requireContextNumber coordination "not_before_utc_ms" proof.body.notBeforeUtcMs
  requireContextNumber coordination "not_after_utc_ms" proof.body.notAfterUtcMs
  require (record.originId = proof.body.holderClientId) contextMismatch
  require (record.causalFrontierHash = proof.body.baseFrontierHash) contextMismatch
  require (proof.body.notBeforeUtcMs ≤ record.record.envelope.timeUtcMs) contextMismatch
  require (record.record.envelope.timeUtcMs ≤ proof.body.notAfterUtcMs) contextMismatch
  let leaseCommit ← contextString coordination "lease_commit"
  require (isCommitHash leaseCommit) (.invalid "batch coordination lease commit is invalid")
  let remote ← contextString coordination "remote"
  validateRemoteName remote

/-- The coordination context of a batch start, if it has one. -/
def coordinationOf (record : VerifiedV2Record) : Option Json :=
  if record.kind = .batchStart then
    match record.payload.get "context" with
    | some context => context.get "coordination"
    | none => none
  else none

def validateCoordinationContext (clients : ClientMap) (record : VerifiedV2Record) :
    StoreResult Unit :=
  match coordinationOf record with
  | some coordination => validateCoordination R clients record coordination
  | none => .ok ()

def validateCoordinationContexts (records : List VerifiedV2Record) (clients : ClientMap) :
    StoreResult Unit := records.forM (validateCoordinationContext R clients)

/-! ### Batches -/

def stringField (object : Json) (field : String) : StoreResult String :=
  okOr ((object.get field).bind Json.asStr)
    (.invalid ("batch payload field " ++ field ++ " is missing or invalid"))

def u64Field (object : Json) (field : String) : StoreResult Nat :=
  okOr ((object.get field).bind Json.asU64)
    (.invalid ("batch payload field " ++ field ++ " is missing or invalid"))

def u32Max : Nat := 4294967295

/-- What the validator of a batch is given for a chunk. -/
def chunkDescriptor (record : VerifiedV2Record) : StoreResult BatchChunkDescriptor := do
  let items ← okOr ((record.payload.get "items").bind Json.asArray)
    (.invalid ("batch " ++ record.batchId ++ " chunk items are invalid"))
  let first ← u64Field record.payload "first_item_index"
  require (items.length ≤ u32Max) (.invalid "batch item count overflow")
  .ok ⟨record.batchId, first, items.length, record.exactLineBytes.length, record.record.recordHash⟩

def acceptRecordChunk (validator : BatchValidator) (record : VerifiedV2Record) :
    StoreResult BatchValidator := do
  let chunk ← chunkDescriptor record
  mapError .batch (validator.acceptChunk chunk)

/-- The start names the frontier of its segment. -/
def validateBatchStart (record : VerifiedV2Record) : StoreResult BatchValidator := do
  let causal ← stringField record.payload "causal_frontier_hash"
  require (causal = record.causalFrontierHash)
    (.invalid ("batch " ++ record.batchId ++ " causal frontier does not match its segment manifest"))
  mapError .batch (BatchValidator.new record.batchId .default)

def validateBatchCompletion (validator : BatchValidator) (record : VerifiedV2Record) :
    StoreResult Unit := do
  let totalItems ← u64Field record.payload "total_items"
  let digest ← stringField record.payload "ordered_item_digest"
  mapError .batch (validator.validateCompletion R.blake3 ⟨totalItems, digest⟩)
  let status ← stringField record.payload "status"
  require (status = "complete") (.invalid ("batch " ++ record.batchId ++ " is not complete"))

/-- The batch that is open after a record. -/
def validateStreamedBatchRecord (active : Option BatchValidator) (record : VerifiedV2Record) :
    StoreResult (Option BatchValidator) :=
  match record.kind with
  | .batchStart => do
      require active.isNone
        (.invalid ("batch " ++ record.batchId ++ " starts before the preceding batch completed"))
      let validator ← validateBatchStart record
      .ok (some validator)
  | .batchChunk => do
      let state ← okOr active (.invalid ("batch " ++ record.batchId ++ " has no start"))
      require (state.batchId = record.batchId)
        (.invalid ("batch " ++ record.batchId ++ " crosses another batch"))
      let state ← acceptRecordChunk state record
      .ok (some state)
  | .batchComplete => do
      let state ← okOr active (.invalid ("batch " ++ record.batchId ++ " has no start"))
      require (state.batchId = record.batchId)
        (.invalid ("batch " ++ record.batchId ++ " crosses another batch"))
      validateBatchCompletion R state record
      .ok none

/-- `VerifiedBatchRecords`: the records of one batch, in the order they were read. -/
structure BatchRecords where
  batchId : String
  start : Option VerifiedV2Record
  chunks : List VerifiedV2Record
  complete : Option VerifiedV2Record

/-- Add a record to its batch; a second start or completion is refused. -/
def BatchRecords.add (batch : BatchRecords) (record : VerifiedV2Record) :
    StoreResult BatchRecords := do
  let duplicate : V2StoreError :=
    .invalid ("batch " ++ record.batchId ++ " has duplicate control records")
  match record.kind with
  | .batchStart =>
      require batch.start.isNone duplicate
      .ok { batch with start := some record }
  | .batchChunk => .ok { batch with chunks := batch.chunks ++ [record] }
  | .batchComplete =>
      require batch.complete.isNone duplicate
      .ok { batch with complete := some record }

/-- The map of batches by identifier, in the order the identifiers were first seen. -/
def addToBatch : List BatchRecords → VerifiedV2Record → StoreResult (List BatchRecords)
  | [], record => do
      let batch ← (⟨record.batchId, none, [], none⟩ : BatchRecords).add record
      .ok [batch]
  | batch :: rest, record =>
      if batch.batchId = record.batchId then do
        let batch ← batch.add record
        .ok (batch :: rest)
      else do
        let rest ← addToBatch rest record
        .ok (batch :: rest)

/-- The records of a batch stand in one origin, between its start and its completion. -/
def batchOrdered (start complete : VerifiedV2Record) (chunks : List VerifiedV2Record) : Bool :=
  complete.originId = start.originId && start.originSeq < complete.originSeq &&
    chunks.all fun chunk =>
      chunk.originId = start.originId && start.originSeq < chunk.originSeq &&
        chunk.originSeq < complete.originSeq

def verifyBatch (batch : BatchRecords) : StoreResult Unit := do
  let start ← okOr batch.start (.invalid ("batch " ++ batch.batchId ++ " has no start"))
  let complete ← okOr batch.complete (.invalid ("batch " ++ batch.batchId ++ " has no completion"))
  require (batchOrdered start complete batch.chunks)
    (.invalid ("batch " ++ batch.batchId ++ " crosses origins or has invalid record ordering"))
  let validator ← validateBatchStart start
  let validator ← commitAll acceptRecordChunk validator batch.chunks
  validateBatchCompletion R validator complete

def verifyBatches (records : List VerifiedV2Record) : StoreResult Unit := do
  let batches ← commitAll addToBatch [] records
  batches.forM (verifyBatch R)

end ArchiveLedger
