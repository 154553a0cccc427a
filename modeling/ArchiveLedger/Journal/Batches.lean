import ArchiveLedger.Journal.Frontier

/-!
# Batch validation

The validator of `v2_batch.rs`: the chunks of one batch cover its items without a
gap, within the limits of a chunk, and the completion names their number and their
ordered digest.  The digest is a hash of all that was given to the hasher, so the
validator keeps those bytes.
-/

namespace ArchiveLedger

open Outcome

def defaultMaxBatchChunkItems : Nat := 1000

def defaultMaxBatchChunkBytes : Nat := 1048576

/-- `b"archive-ledger-batch-items-v1\0"`. -/
def digestDomain : Bytes := utf8 "archive-ledger-batch-items-v1" ++ [0]

def u64Max : Nat := 18446744073709551615

/-- `u64::checked_add`. -/
def checkedAdd (a b : Nat) : Option Nat := if a + b ≤ u64Max then some (a + b) else none

/-- `u64::saturating_add`. -/
def saturatingAdd (a b : Nat) : Nat := min (a + b) u64Max

/-- The low bytes of a number, the most significant first. -/
def beBytes : Nat → Nat → Bytes
  | 0, _ => []
  | width + 1, n => beBytes width (n / 256) ++ [UInt8.ofNat n]

inductive BatchValidationError where
  | emptyBatchId
  | invalidLimits
  | batchMismatch (expected actual : String)
  | emptyChunk
  | tooManyItems (actual maximum : Nat)
  | tooManyBytes (actual maximum : Nat)
  | nonConsecutiveRange (expected actual : Nat)
  | itemCountOverflow
  | invalidRecordHash
  | noChunks
  | completionCountMismatch (expected actual : Nat)
  | completionDigestMismatch
deriving DecidableEq, Repr

abbrev BatchResult (α : Type) := Except BatchValidationError α

structure BatchLimits where
  maxItems : Nat
  maxSerializedBytes : Nat
deriving DecidableEq, Repr

/-- `BatchLimits::default()`. -/
def BatchLimits.default : BatchLimits := ⟨defaultMaxBatchChunkItems, defaultMaxBatchChunkBytes⟩

def BatchLimits.validate (limits : BatchLimits) : BatchResult BatchLimits :=
  if limits.maxItems = 0 ∨ limits.maxSerializedBytes = 0 ∨
      defaultMaxBatchChunkItems < limits.maxItems ∨
      defaultMaxBatchChunkBytes < limits.maxSerializedBytes then
    .error .invalidLimits
  else .ok limits

structure BatchChunkDescriptor where
  batchId : String
  firstItemIndex : Nat
  itemCount : Nat
  serializedBytes : Nat
  recordHash : String
deriving DecidableEq, Repr

structure BatchCompletion where
  totalItems : Nat
  orderedItemDigest : String
deriving DecidableEq, Repr

structure BatchValidator where
  batchId : String
  limits : BatchLimits
  nextItemIndex : Nat
  chunkCount : Nat
  digest : Bytes
deriving DecidableEq, Repr

def decodeNibble (b : UInt8) : Option Nat :=
  let n := b.toNat
  if 48 ≤ n ∧ n ≤ 57 then some (n - 48)
  else if 97 ≤ n ∧ n ≤ 102 then some (n - 97 + 10)
  else none

def decodePairs : Bytes → Option Bytes
  | [] => some []
  | [_] => none
  | high :: low :: rest =>
      match decodeNibble high, decodeNibble low, decodePairs rest with
      | some h, some l, some bytes => some (UInt8.ofNat (h * 16 + l) :: bytes)
      | _, _, _ => none

def decodeBlake3 (value : String) : BatchResult Bytes := do
  let hex ← okOr (stripPrefix "blake3:" value) .invalidRecordHash
  require (hex.length = 64) .invalidRecordHash
  okOr (decodePairs hex) .invalidRecordHash

namespace BatchValidator

def new (batchId : String) (limits : BatchLimits) : BatchResult BatchValidator := do
  require (batchId ≠ "") .emptyBatchId
  let limits ← limits.validate
  .ok ⟨batchId, limits, 0, 0, digestDomain⟩

def acceptChunk (v : BatchValidator) (chunk : BatchChunkDescriptor) : BatchResult BatchValidator := do
  require (chunk.batchId = v.batchId) (.batchMismatch v.batchId chunk.batchId)
  require (chunk.itemCount ≠ 0) .emptyChunk
  require (chunk.itemCount ≤ v.limits.maxItems) (.tooManyItems chunk.itemCount v.limits.maxItems)
  require (chunk.serializedBytes ≤ v.limits.maxSerializedBytes)
    (.tooManyBytes chunk.serializedBytes v.limits.maxSerializedBytes)
  require (chunk.firstItemIndex = v.nextItemIndex)
    (.nonConsecutiveRange v.nextItemIndex chunk.firstItemIndex)
  let recordHash ← decodeBlake3 chunk.recordHash
  let nextItemIndex ← okOr (checkedAdd v.nextItemIndex chunk.itemCount) .itemCountOverflow
  .ok { v with
    nextItemIndex := nextItemIndex
    chunkCount := v.chunkCount + 1
    digest := v.digest ++ beBytes 8 chunk.firstItemIndex ++ beBytes 4 chunk.itemCount ++ recordHash }

variable (blake3 : Bytes → String)

def orderedItemDigest (v : BatchValidator) : BatchResult String := do
  require (v.chunkCount ≠ 0) .noChunks
  .ok ("blake3:" ++ blake3 v.digest)

def validateCompletion (v : BatchValidator) (completion : BatchCompletion) : BatchResult Unit := do
  require (v.chunkCount ≠ 0) .noChunks
  require (completion.totalItems = v.nextItemIndex)
    (.completionCountMismatch v.nextItemIndex completion.totalItems)
  let digest ← v.orderedItemDigest blake3
  require (completion.orderedItemDigest = digest) .completionDigestMismatch

end BatchValidator

end ArchiveLedger
