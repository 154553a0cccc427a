import ArchiveLedger.Foundation.Base64
import ArchiveLedger.Foundation.JsonText

/-!
# Registry snapshots and paths

The typed snapshots of `registry.rs`, exactly the fields a registry change
carries, and the encoded paths all catalog operations share.  Times, counts and
versions are the source's `u64` as natural numbers; `sqlInteger` is the
conversion to SQLite's signed integer that every writer passes through.
-/

namespace ArchiveLedger

abbrev Bytes := List UInt8

/-- A BLAKE3 digest. -/
abbrev Digest := Vector UInt8 32

/-- The largest SQLite integer. -/
def i64Max : Nat := 9223372036854775807

/-- `i64::try_from`, which fails above the range of an SQLite integer. -/
def sqlInteger (value : Nat) : Option Nat := if value ≤ i64Max then some value else none

theorem sqlInteger_eq_some {value n : Nat} : sqlInteger value = some n ↔ value ≤ i64Max ∧ n = value := by
  unfold sqlInteger
  split
  · rename_i h
    simp [h, eq_comm]
  · rename_i h
    simp [h]

/-- The bytes of a text. -/
def utf8 (s : String) : Bytes := s.toUTF8.data.toList

theorem length_utf8 (s : String) : (utf8 s).length = s.utf8ByteSize := rfl

theorem utf8_eq (s : String) : utf8 s = s.toList.flatMap String.utf8EncodeChar := by
  unfold utf8
  rw [String.toUTF8_eq_toByteArray, ← String.utf8Encode_toList, List.utf8Encode]
  simp

theorem utf8_append (s t : String) : utf8 (s ++ t) = utf8 s ++ utf8 t := by
  rw [utf8_eq, utf8_eq, utf8_eq, String.toList_append, List.flatMap_append]

/-! ### JSON values -/

/-- A JSON value; a number is the text it is written as. -/
inductive Json where
  | null
  | bool (value : Bool)
  | num (text : String)
  | str (value : String)
  | arr (items : List Json)
  | obj (fields : List (String × Json))

mutual

/-- The compact text of a value. -/
def Json.render : Json → List Char
  | .null => "null".toList
  | .bool true => "true".toList
  | .bool false => "false".toList
  | .num text => text.toList
  | .str value => JsonText.writeString value
  | .arr items => '[' :: Json.renderItems items ++ [']']
  | .obj fields => '\x7b' :: Json.renderFields fields ++ ['\x7d']

def Json.renderItems : List Json → List Char
  | [] => []
  | [v] => v.render
  | v :: w :: rest => v.render ++ ',' :: Json.renderItems (w :: rest)

def Json.renderFields : List (String × Json) → List Char
  | [] => []
  | [(k, v)] => JsonText.writeString k ++ ':' :: v.render
  | (k, v) :: w :: rest =>
      JsonText.writeString k ++ ':' :: v.render ++ ',' :: Json.renderFields (w :: rest)

end

/-- `value[field]`: anything but an object with this field gives `null`. -/
def Json.index (value : Json) (field : String) : Json :=
  match value with
  | .obj fields => ((fields.find? fun f => f.1 = field).map Prod.snd).getD .null
  | _ => .null

def Json.asStr : Json → Option String
  | .str value => some value
  | _ => none

/-! ### Errors of the registry -/

inductive RegistryError where
  | sqlite (message : String)
  | invalid (message : String)
  | alreadyExists (kind id : String)
  | notFound (kind id : String)
deriving DecidableEq, Repr

/-- The text `Display` gives an error. -/
def RegistryError.display : RegistryError → String
  | .sqlite message => "SQLite operation failed: " ++ message
  | .invalid message => "invalid registry change: " ++ message
  | .alreadyExists kind id => kind ++ " already exists: " ++ id
  | .notFound kind id => kind ++ " not found: " ++ id

/-! ### Paths -/

structure RegistryPath where
  encoding : String
  text : Option String
  base64 : Option String
  display : String
deriving DecidableEq, Repr

/-- The path of a valid UTF-8 text. -/
def RegistryPath.utf8 (value : String) : RegistryPath :=
  ⟨"utf8", some value, none, value⟩

def registryPathBytes (path : RegistryPath) : Except RegistryError Bytes :=
  if path.encoding = "utf8" then
    match path.text, path.base64 with
    | some text, none => .ok (ArchiveLedger.utf8 text)
    | _, _ => .error (.invalid "invalid UTF-8 registry path")
  else if path.encoding = "unix_bytes" ∨ path.encoding = "windows_utf16le" then
    match path.base64, path.text with
    | some bytes, none =>
        match Base64.decode Base64.standard bytes.toList with
        | some bytes => .ok bytes
        | none => .error (.invalid "invalid base64 registry path")
    | _, _ => .error (.invalid "invalid encoded registry path")
  else .error (.invalid "unsupported registry path encoding")

inductive PathEncoding where
  | utf8
  | unixBytes
  | windowsUtf16Le
deriving DecidableEq, Repr

def PathEncoding.asStr : PathEncoding → String
  | .utf8 => "utf8"
  | .unixBytes => "unix_bytes"
  | .windowsUtf16Le => "windows_utf16le"

structure EncodedPath where
  encoding : PathEncoding
  bytes : Bytes
  display : String
deriving DecidableEq, Repr

/-- A stored path as listings print it: text where the bytes are valid UTF-8,
base64 otherwise. -/
structure LosslessPath where
  encoding : String
  display : String
  text : Option String
  base64 : Option String
deriving DecidableEq, Repr

def losslessPath (encoding : String) (bytes : Bytes) (display : String) : LosslessPath :=
  let text := if encoding = "utf8" then String.fromUTF8? ⟨bytes.toArray⟩ else none
  { encoding := encoding
    display := display
    text := text
    base64 := if text.isNone then
      some (String.ofList (Base64.encode Base64.urlSafeNoPad bytes)) else none }

/-! ### Snapshots -/

inductive RegistryAction where
  | register
  | update
  | move
  | retire
deriving DecidableEq, Repr

structure SiteSnapshot where
  siteId : String
  displayName : String
  siteKind : String
  description : Option String
  status : String
deriving DecidableEq, Repr

structure PolicyRequirements where
  minQualifyingCopies : Nat
  minDevices : Nat
  minSites : Nat
  requireOffsiteCopy : Bool
  requireOfflineCopy : Bool
  requireEncryptedOffsite : Bool
  maxVerificationAgeDays : Nat
  maxObservationAgeDays : Nat
  maxDeviceCheckinAgeDays : Nat
deriving DecidableEq, Repr

structure PolicySnapshot where
  policyId : String
  displayName : String
  policyVersion : Nat
  requirements : PolicyRequirements
  enabled : Bool
  status : String
deriving DecidableEq, Repr

structure CollectionSnapshot where
  collectionId : String
  displayName : String
  description : Option String
  homeSiteId : Option String
  policyId : Option String
  status : String
deriving DecidableEq, Repr

structure DeviceSnapshot where
  deviceId : String
  displayName : String
  deviceKind : String
  serialHint : Option String
  hardwareFingerprint : Option String
  fingerprintKind : Option String
  identityState : String
  owner : Option String
  status : String
  currentSiteId : Option String
  expectedAvailability : String
deriving DecidableEq, Repr

structure ArchiveRootSnapshot where
  archiveRootId : String
  deviceId : String
  displayName : String
  rootPathOnDevice : RegistryPath
  status : String
  filesystemFingerprint : Option String
  fingerprintKind : Option String
  identityState : String
deriving DecidableEq, Repr

structure LocationSnapshot where
  locationId : String
  displayName : String
  kind : String
  archiveRootId : Option String
  relativePath : Option RegistryPath
  deviceId : Option String
  siteId : Option String
  encryptionState : Option String
  trustLevel : Option String
  expectedAvailability : String
  isWritable : Bool
  status : String
deriving DecidableEq, Repr

structure RiskDomainSnapshot where
  riskDomainId : String
  displayName : String
  riskKind : String
  description : Option String
  status : String
deriving DecidableEq, Repr

structure RiskAssignment where
  entityType : String
  entityId : String
  riskDomainId : String
deriving DecidableEq, Repr

structure DeviceCheckIn where
  deviceId : String
  fingerprintStatus : String
deriving DecidableEq, Repr

structure DeviceMount where
  mountId : String
  deviceId : String
  archiveRootId : Option String
  mountRootUri : String
  status : String
  fingerprintStatus : String
deriving DecidableEq, Repr

inductive RegistryChange where
  | site (action : RegistryAction) (value : SiteSnapshot)
  | policy (action : RegistryAction) (value : PolicySnapshot)
  | collection (action : RegistryAction) (value : CollectionSnapshot)
  | device (action : RegistryAction) (value : DeviceSnapshot)
  | archiveRoot (action : RegistryAction) (value : ArchiveRootSnapshot)
  | location (action : RegistryAction) (value : LocationSnapshot)
  | riskDomain (action : RegistryAction) (value : RiskDomainSnapshot)
  | assignRisk (value : RiskAssignment)
  | unassignRisk (value : RiskAssignment)
  | deviceCheckIn (value : DeviceCheckIn)
  | deviceMount (value : DeviceMount)
deriving DecidableEq, Repr

end ArchiveLedger
