import ArchiveLedger.Annex.Keys
import ArchiveLedger.Discovery.Walk

/-!
# Entries of an annex index

`inspect_entry_v2`, `inventory_entry_v2` and `v2_annex_entry_item` of `annex.rs`.  The worktree
is what the inspection finds at the path of the entry (`WorktreeState`); the digests are those of
libraries outside the repository (`Digests`).
-/

namespace ArchiveLedger.Annex

open Discovery

structure AnnexImportConfig where
  repoPath : Bytes
  importId : String
  jobId : String
  collectionId : String
  worktreeLocationId : String
  casLocationId : String
  deviceId : String
  archiveRootId : String
  batchEntries : Nat
  inventoryOnly : Bool

structure IndexEntry where
  mode : String
  oid : String
  stage : Nat
  path : Bytes

/-- The digests of bytes, in lower-case hexadecimal. -/
structure Digests where
  blake3 : Bytes → Bytes
  sha256 : Bytes → Bytes
  sha512 : Bytes → Bytes

structure ContentHashes where
  blake3Hex : Bytes
  sha256Hex : Bytes
  sha512Hex : Option Bytes
  size : Nat
  durationMs : Nat
  modifiedTimeUtcMs : Option Nat
deriving DecidableEq

inductive EntryCategory where
  | present | unchecked | absent | supportedUnresolved | unsupported | mismatch | readError
deriving DecidableEq, Repr

structure EntryOutcome where
  category : EntryCategory
  representation : String
  content : Option ContentHashes
  error : Option String
  pathPresent : Bool
  localBytesPresent : Bool
  copyPath : Option EncodedPath
deriving DecidableEq

def EntryOutcome.absent (representation : String) (pathPresent : Bool) : EntryOutcome :=
  ⟨.absent, representation, none, none, pathPresent, false, none⟩

def EntryOutcome.readError (error : String) : EntryOutcome :=
  ⟨.readError, "annex_unreadable", none, some error, true, false, none⟩

inductive AnnexImportError where
  | invalidConfig (message : String)
  | io (operation : String) (path : Bytes)
deriving DecidableEq, Repr

/-! ### The worktree -/

/-- What reading a file to its end gives: its bytes as they were read, or an error (which a change of
the file is, too). -/
inductive FileRead where
  | failed (error : String)
  | bytes (content : Bytes) (durationMs : Nat) (modifiedTimeUtcMs : Option Nat)

/-- What a symlink leads to. -/
inductive LinkTarget where
  | missing
  | failed (error : String)
  | found (read : FileRead)

/-- What is found at the path of an entry.  A regular file has its length, what `fs::read` gives and
what hashing it reads. -/
inductive WorktreeState where
  | missing
  | failed (error : String)
  | symlink (text : Option Bytes) (target : LinkTarget)
  | file (length : Nat) (content : Except String Bytes) (read : FileRead)
  | other

/-- `Path::join`. -/
def joinBytes (base relative : Bytes) : Bytes :=
  if relative.head? = some 47 then relative else base ++ 47 :: relative

/-- `encode_relative_path` of a path given as bytes. -/
def encodePath (path : Bytes) : EncodedPath := encodeRelativePath [path]

/-- The path of annexed content at its Location. -/
def casPath (config : AnnexImportConfig) (relative : Bytes) : EncodedPath :=
  if config.casLocationId = config.worktreeLocationId then
    encodePath (joinBytes (utf8 ".git/annex/objects") relative)
  else encodePath relative

def maxPointerBytes : Nat := 32768

/-! ### Inspection -/

/-- Whether the path of an entry exists, for an inventory. -/
def inventoryPresent (entry : IndexEntry) : WorktreeState → Except AnnexImportError Bool
  | .missing => .ok false
  | .failed _ => .error (.io "inspect annex inventory path" entry.path)
  | _ => .ok true

/-- The representation of an indexed entry and where its content is. -/
def indexedCopy (config : AnnexImportConfig) (entry : IndexEntry) (indexBlob : Bytes) :
    Except AnnexImportError (String × EncodedPath) :=
  if entry.mode = "120000" then
    match annexObjectRelative indexBlob with
    | none => .error (.invalidConfig "invalid indexed annex target")
    | some relative => .ok ("annex_locked_symlink", casPath config relative)
  else .ok ("annex_unlocked_file", encodePath entry.path)

/-- Record the indexed identity and where a later scan should check its bytes. -/
def inventoryEntry (config : AnnexImportConfig) (entry : IndexEntry) (indexBlob : Bytes) (key : AnnexKey)
    (state : WorktreeState) : Except AnnexImportError EntryOutcome := do
  let pathPresent ← inventoryPresent entry state
  let copy ← indexedCopy config entry indexBlob
  .ok {
    category := if key.state = .unsupported then .unsupported else .unchecked
    representation := copy.1
    content := none
    error := none
    pathPresent := pathPresent
    localBytesPresent := false
    copyPath := some copy.2 }

/-- What an inspection finds before it reads content: an outcome at once, or the representation, the
content to read if there is any, and where the Copy is. -/
inductive Located where
  | settled (outcome : EntryOutcome)
  | located (representation : String) (content : Option FileRead) (copyPath : Option EncodedPath)

def locateSymlink (config : AnnexImportConfig) (entry : IndexEntry) (indexBlob : Bytes) :
    WorktreeState → Except AnnexImportError Located
  | .symlink none _ => .error (.io "read annex symlink" entry.path)
  | .symlink (some text) target =>
      if text ≠ indexBlob then
        .ok (.settled (.readError "worktree symlink target differs from the Git index"))
      else
        let copyPath := (annexObjectRelative indexBlob).map (casPath config)
        match target with
        | .failed error => .ok (.settled (.readError error))
        | .missing => .ok (.located "annex_locked_symlink" none copyPath)
        | .found read => .ok (.located "annex_locked_symlink" (some read) copyPath)
  | _ => .ok (.settled (.readError "worktree representation changed from annex symlink"))

def locateFile (entry : IndexEntry) (key : AnnexKey) : WorktreeState → Located
  | .file length content read =>
      let unlocked := Located.located "annex_unlocked_file" (some read) (some (encodePath entry.path))
      if length ≤ maxPointerBytes then
        match content with
        | .error error => .settled (.readError error)
        | .ok bytes =>
            if annexKeyFromBlob "100644" bytes = some key.raw then .located "annex_pointer_file" none none
            else unlocked
      else unlocked
  | _ => .settled (.readError "worktree entry is neither the indexed symlink nor a regular file")

def locateEntry (config : AnnexImportConfig) (entry : IndexEntry) (indexBlob : Bytes) (key : AnnexKey) :
    WorktreeState → Except AnnexImportError Located
  | .missing => .ok (.settled (if key.state = .unsupported then
      ⟨.unsupported, "missing_worktree_entry", none, none, false, false, none⟩
      else .absent "missing_worktree_entry" false))
  | .failed error => .ok (.settled (.readError error))
  | state =>
      if entry.mode = "120000" then locateSymlink config entry indexBlob state
      else .ok (locateFile entry key state)

variable (D : Digests)

/-- `hash_file`, which hashes with SHA-512 when the key asks for it. -/
def hashFile (hashSha512 : Bool) : FileRead → Except String ContentHashes
  | .failed error => .error error
  | .bytes content durationMs modified =>
      if content.length ≤ u64Max then .ok {
        blake3Hex := D.blake3 content
        sha256Hex := D.sha256 content
        sha512Hex := if hashSha512 then some (D.sha512 content) else none
        size := content.length
        durationMs := durationMs
        modifiedTimeUtcMs := modified }
      else .error "content size exceeds u64"

def AnnexKey.matchesContent (key : AnnexKey) (content : ContentHashes) : Bool :=
  match key.expectedHash with
  | some (.sha256, expected) => expected = content.sha256Hex
  | some (.sha512, expected) => some expected = content.sha512Hex
  | none => false

/-- The part of an inspection that reads content. -/
def readLocated (key : AnnexKey) (representation : String) (content : Option FileRead)
    (copyPath : Option EncodedPath) : EntryOutcome :=
  if key.state = .unsupported then
    ⟨.unsupported, representation, none, none, true, content.isSome, copyPath⟩
  else match content with
  | none => .absent representation true
  | some read =>
      if key.expectedHash.isNone then
        ⟨.supportedUnresolved, representation, none, none, true, true, copyPath⟩
      else match hashFile D key.expectedSha512.isSome read with
      | .ok content =>
          let good := key.expectedSize.all (fun size => size = content.size) && key.matchesContent content
          ⟨if good then .present else .mismatch, representation, some content, none, true, true, copyPath⟩
      | .error error => ⟨.readError, representation, none, some error, true, true, copyPath⟩

/-- What an inspection makes of what it found. -/
def Located.outcome (key : AnnexKey) : Located → EntryOutcome
  | .settled outcome => outcome
  | .located representation content copyPath => readLocated D key representation content copyPath

def inspectEntry (config : AnnexImportConfig) (entry : IndexEntry) (indexBlob : Bytes) (key : AnnexKey)
    (state : WorktreeState) : Except AnnexImportError EntryOutcome :=
  if config.inventoryOnly then inventoryEntry config entry indexBlob key state
  else (locateEntry config entry indexBlob key state).map (Located.outcome D key)

/-! ### Items -/

/-- `stable_id`. -/
def stableId (start : String) (pieces : List Bytes) : String :=
  let framed := pieces.flatMap fun piece => (beBytes 8 piece.length).reverse ++ piece
  start ++ "_" ++ String.ofList (((D.blake3 framed).take 32).map fun b => Char.ofNat b.toNat)

def blake3Text (hex : Bytes) : String := "blake3:" ++ String.ofList (hex.map fun b => Char.ofNat b.toNat)

/-- The fields of an `annex_entry_observed` item. -/
structure AnnexEntryItem where
  importId : String
  jobId : String
  collectionId : String
  worktreeLocationId : String
  casLocationId : String
  sourceRepoId : String
  externalIdentityId : String
  externalKey : Bytes
  backend : Bytes
  expectedHash : Option (HashAlgorithm × Bytes)
  expectedSizeBytes : Option Nat
  resolutionState : String
  fileRefId : String
  logicalPath : EncodedPath
  pathState : String
  representation : String
  localAvailability : String
  objectId : Option String
  blake3Hex : Option Bytes
  sha256Hex : Option Bytes
  sha512Hex : Option Bytes
  observedSizeBytes : Option Nat
  modifiedTimeUtcMs : Option Nat
  durationMs : Option Nat
  copyLocationId : Option String
  copyPath : Option EncodedPath
  copyClaimId : Option String
  claimBasis : String
  copyState : String
  verificationResult : Option String
  errorDetail : Option String
  operationKey : String

def EntryCategory.copyState : EntryCategory → String
  | .present | .supportedUnresolved => "present"
  | .mismatch => "corrupt"
  | .readError | .unchecked => "unknown"
  | .absent | .unsupported => "missing"

def EntryCategory.verificationResult : EntryCategory → Option String
  | .present => some "ok"
  | .mismatch => some "hash_mismatch"
  | .readError => some "read_error"
  | _ => none

/-- Where the Copy of an outcome is, when the item names one. -/
def copyOf (config : AnnexImportConfig) (logical : EncodedPath) (outcome : EntryOutcome) :
    Option (String × EncodedPath) :=
  if config.inventoryOnly || outcome.content.isSome || outcome.category = .readError then
    some (if outcome.representation = "annex_locked_symlink" then config.casLocationId
      else config.worktreeLocationId, outcome.copyPath.getD logical)
  else none

def pathPieces (path : EncodedPath) : List Bytes := [utf8 path.encoding.asStr, path.bytes]

def copyClaimId (copy : String × EncodedPath) : String :=
  stableId D "copy" (utf8 copy.1 :: pathPieces copy.2)

def annexEntryItem (config : AnnexImportConfig) (annexUuid : String) (logical : EncodedPath) (key : AnnexKey)
    (outcome : EntryOutcome) : AnnexEntryItem :=
  let resolved := outcome.category = .present
  let content := if resolved then outcome.content else none
  let copy := copyOf config logical outcome
  { importId := config.importId
    jobId := config.jobId
    collectionId := config.collectionId
    worktreeLocationId := config.worktreeLocationId
    casLocationId := config.casLocationId
    sourceRepoId := annexUuid
    externalIdentityId := stableId D "ext" [utf8 "git-annex", key.raw]
    externalKey := key.raw
    backend := key.backend
    expectedHash := key.expectedHash
    expectedSizeBytes := key.expectedSize
    resolutionState := if resolved then "resolved"
      else if key.state = .unsupported then "unsupported" else "unresolved"
    fileRefId := stableId D "file" (utf8 config.collectionId :: pathPieces logical)
    logicalPath := logical
    pathState := if outcome.pathPresent then "present" else "missing"
    representation := outcome.representation
    localAvailability := if config.inventoryOnly then "unknown"
      else if outcome.localBytesPresent then "present" else "missing"
    objectId := content.map fun c => blake3Text c.blake3Hex
    blake3Hex := content.map ContentHashes.blake3Hex
    sha256Hex := outcome.content.map ContentHashes.sha256Hex
    sha512Hex := outcome.content.bind ContentHashes.sha512Hex
    observedSizeBytes := (outcome.content.map ContentHashes.size).or key.expectedSize
    modifiedTimeUtcMs := outcome.content.bind ContentHashes.modifiedTimeUtcMs
    durationMs := outcome.content.map ContentHashes.durationMs
    copyLocationId := copy.map Prod.fst
    copyPath := copy.map Prod.snd
    copyClaimId := copy.map (copyClaimId D)
    claimBasis := if config.inventoryOnly then "source_metadata" else "observed_bytes"
    copyState := if config.inventoryOnly then "unknown" else outcome.category.copyState
    verificationResult := outcome.category.verificationResult
    errorDetail := outcome.error
    operationKey := stableId D "op" ([utf8 config.jobId, utf8 config.importId] ++ pathPieces logical ++
      [utf8 "annex_entry_observed"]) }

/-! ### Results -/

theorem map_eq_ok {ε α β : Type} {x : Except ε α} {f : α → β} {b : β} (h : x.map f = .ok b) :
    ∃ a, x = .ok a ∧ f a = b := by
  cases x with
  | error e => cases h
  | ok a => exact ⟨a, rfl, Except.ok.inj h⟩

end ArchiveLedger.Annex
