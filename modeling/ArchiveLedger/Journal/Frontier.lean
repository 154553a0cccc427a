import ArchiveLedger.Catalog.Snapshots
import ArchiveLedger.Foundation.Outcome

/-!
# Causal frontiers

The value layer of `frontier.rs`: a `CausalFrontier` names, for every origin, how
far its records are accepted, and the frontiers it succeeds.  `validate` are the
rules for one frontier and `validateSuccessorOf` those for a frontier and one of
its parents.

What the code takes from elsewhere (the JSON text of a value, BLAKE3) is given as
parameters.
-/

namespace ArchiveLedger

open Outcome

/-! ### Identifiers -/

/-- `str::strip_prefix`, as bytes. -/
def stripPrefix (start text : String) : Option Bytes :=
  if (utf8 start).isPrefixOf (utf8 text) then some ((utf8 text).drop (utf8 start).length) else none

theorem stripPrefix_eq_some {start text : String} {rest : Bytes} :
    stripPrefix start text = some rest ↔ utf8 text = utf8 start ++ rest := by
  unfold stripPrefix
  constructor
  · intro h
    split at h
    · rename_i hprefix
      obtain ⟨t, ht⟩ := List.isPrefixOf_iff_prefix.mp hprefix
      rw [← ht, List.drop_left] at h
      rw [← ht, Option.some.inj h]
    · cases h
  · intro h
    rw [h, if_pos (List.isPrefixOf_iff_prefix.mpr (List.prefix_append _ _)), List.drop_left]

/-- A digit or one of the letters `a` to `f`. -/
def isLowerHex (b : UInt8) : Bool :=
  let n := b.toNat
  (48 ≤ n && n ≤ 57) || (97 ≤ n && n ≤ 102)

def isLowerHex64 (hex : Bytes) : Bool := hex.length = 64 && hex.all isLowerHex

/-- The order of texts is that of their bytes. -/
def textLt (a b : String) : Bool :=
  (utf8 a).map UInt8.toNat < (utf8 b).map UInt8.toNat

def isBlake3Identifier (value : String) : Bool := (stripPrefix "blake3:" value).any isLowerHex64

def isOriginId (value : String) : Bool := (stripPrefix "origin_" value).any isLowerHex64

/-! ### Frontiers -/

def frontierVersion : Nat := 2

def initialItemProjectionVersion : Nat := 1

inductive FrontierError where
  | unsupportedVersion (actual expected : Nat)
  | emptyArchiveId
  | invalidProjectionVersion
  | invalidHash (field : String)
  | invalidOriginId (originId : String)
  | zeroOriginSequence (originId : String)
  | originsNotStrictlySorted
  | previousFrontiersNotStrictlySorted
  | archiveMismatch (base successor : String)
  | genesisMismatch
  | projectionVersionRegression (base successor : Nat)
  | missingBaseFrontier
  | originOmitted (originId : String)
  | originRegression (originId : String) (base successor : Nat)
  | changedOriginTail (originId : String)
deriving DecidableEq, Repr

abbrev FrontierResult (α : Type) := Except FrontierError α

structure OriginFrontier where
  originId : String
  seq : Nat
  eventHash : String
  segmentManifestHash : String
deriving DecidableEq, Repr

structure CausalFrontier where
  v : Nat
  archiveId : String
  genesisHash : String
  origins : List OriginFrontier
  previousFrontiers : List String
  itemProjectionVersion : Nat
deriving DecidableEq, Repr

structure FrontierAdvance where
  advancedOrigins : List String
  addedOrigins : List String
deriving DecidableEq, Repr

def validateHash (field value : String) : FrontierResult Unit :=
  require (isBlake3Identifier value) (.invalidHash field)

def validateOrigin (prior : Option String) (origin : OriginFrontier) : FrontierResult Unit := do
  require (isOriginId origin.originId) (.invalidOriginId origin.originId)
  require (origin.seq ≠ 0) (.zeroOriginSequence origin.originId)
  require (∀ p ∈ prior, textLt p origin.originId) .originsNotStrictlySorted
  validateHash "origins.event_hash" origin.eventHash
  validateHash "origins.segment_manifest_hash" origin.segmentManifestHash

def validateOrigins : Option String → List OriginFrontier → FrontierResult Unit
  | _, [] => .ok ()
  | prior, origin :: rest => do
      validateOrigin prior origin
      validateOrigins (some origin.originId) rest

def validatePrevious : Option String → List String → FrontierResult Unit
  | _, [] => .ok ()
  | prior, frontier :: rest => do
      validateHash "previous_frontiers" frontier
      require (∀ p ∈ prior, textLt p frontier) .previousFrontiersNotStrictlySorted
      validatePrevious (some frontier) rest

namespace CausalFrontier

def validate (f : CausalFrontier) : FrontierResult Unit := do
  require (f.v = frontierVersion) (.unsupportedVersion f.v frontierVersion)
  require (f.archiveId ≠ "") .emptyArchiveId
  require (f.itemProjectionVersion ≠ 0) .invalidProjectionVersion
  validateHash "genesis_hash" f.genesisHash
  validateOrigins none f.origins
  validatePrevious none f.previousFrontiers

/-- The entry of an origin; the binary search of the source over sorted entries. -/
def origin? (f : CausalFrontier) (originId : String) : Option OriginFrontier :=
  f.origins.find? fun origin => origin.originId = originId

/-- `frontier_includes_dot`. -/
def includesDot (f : CausalFrontier) (originId : String) (originSeq : Nat) : Bool :=
  f.origins.any fun origin => origin.originId = originId && originSeq ≤ origin.seq

end CausalFrontier

/-! ### Hashes and successors -/

section

variable (blake3 : Bytes → String) (write : CausalFrontier → Bytes)

/-- The bytes whose hash names a frontier. -/
def CausalFrontier.canonicalBytes (f : CausalFrontier) : FrontierResult Bytes := do
  f.validate
  .ok (write f)

def CausalFrontier.frontierHash (f : CausalFrontier) : FrontierResult String := do
  let bytes ← f.canonicalBytes write
  .ok ("blake3:" ++ blake3 bytes)

/-- The origins of the base that a successor advances. -/
def advancedOrigins (successor : CausalFrontier) : List OriginFrontier → FrontierResult (List String)
  | [] => .ok []
  | base :: rest => do
      let origin ← okOr (successor.origin? base.originId) (.originOmitted base.originId)
      require (base.seq ≤ origin.seq) (.originRegression base.originId base.seq origin.seq)
      require (origin.seq = base.seq →
          origin.eventHash = base.eventHash ∧ origin.segmentManifestHash = base.segmentManifestHash)
        (.changedOriginTail base.originId)
      let more ← advancedOrigins successor rest
      .ok (if origin.seq = base.seq then more else base.originId :: more)

def CausalFrontier.validateSuccessorOf (f base : CausalFrontier) :
    FrontierResult FrontierAdvance := do
  base.validate
  f.validate
  require (f.archiveId = base.archiveId) (.archiveMismatch base.archiveId f.archiveId)
  require (f.genesisHash = base.genesisHash) .genesisMismatch
  require (base.itemProjectionVersion ≤ f.itemProjectionVersion)
    (.projectionVersionRegression base.itemProjectionVersion f.itemProjectionVersion)
  let baseHash ← base.frontierHash blake3 write
  require (f.previousFrontiers.contains baseHash) .missingBaseFrontier
  let advanced ← advancedOrigins f base.origins
  .ok ⟨advanced, (f.origins.filter fun origin => (base.origin? origin.originId).isNone).map
    OriginFrontier.originId⟩

end

end ArchiveLedger
