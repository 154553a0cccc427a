import ArchiveLedger.Catalog.Schema
import ArchiveLedger.Journal.Clients

/-!
# Items of a batch as the projector reads them

The errors of `v2_projection.rs`, the accessors every projecting function reads
its item with, and the materialization of an item from the defaults of its batch.
An item is the JSON object of the batch; the error texts are those of the source,
without the texts SQLite and `serde_json` add.
-/

namespace ArchiveLedger

open Outcome

inductive ProjectionError where
  | context (context : String) (source : ProjectionError)
  | store (error : V2StoreError)
  | invalid (message : String)
  | sqlite
  | json
deriving DecidableEq, Repr

abbrev ProjectionResult (α : Type) := Except ProjectionError α

/-- What the projector takes from outside the repository: besides what the store
takes, the `serde_json` readers of the documents inside an item. -/
structure ProjectionRuntime extends StoreRuntime where
  readRegistryPath : Json → Except String RegistryPath
  readSite : Json → Except String SiteSnapshot
  readPolicy : Json → Except String PolicySnapshot
  readCollection : Json → Except String CollectionSnapshot
  readDevice : Json → Except String DeviceSnapshot
  readArchiveRoot : Json → Except String ArchiveRootSnapshot
  readLocation : Json → Except String LocationSnapshot
  readRiskDomain : Json → Except String RiskDomainSnapshot
  readRiskAssignment : Json → Except String RiskAssignment
  readDeviceCheckIn : Json → Except String DeviceCheckIn
  readDeviceMount : Json → Except String DeviceMount

/-- What an SQL statement gives, or the failure of the statement. -/
def statement {α : Type} (x : Option α) : ProjectionResult α := okOr x .sqlite

@[simp] theorem statement_eq_ok {α : Type} {x : Option α} {a : α} :
    statement x = .ok a ↔ x = some a := okOr_eq_ok

def sqlI64 (value : Nat) (field : String) : ProjectionResult Nat :=
  okOr (sqlInteger value) (.invalid (field ++ " exceeds SQLite integer range"))

theorem sqlI64_eq_ok {value n : Nat} {field : String} :
    sqlI64 value field = .ok n ↔ value ≤ i64Max ∧ n = value := by
  rw [sqlI64, okOr_eq_ok, sqlInteger_eq_some]

def object (value : Json) (description : String) : ProjectionResult Json := do
  require value.isObject (.invalid (description ++ " must be an object"))
  .ok value

def required (object : Json) (key : String) : ProjectionResult Json :=
  okOr (object.get key) (.invalid ("batch payload is missing " ++ key))

def string (object : Json) (key : String) : ProjectionResult String := do
  let value ← required object key
  okOr value.asStr (.invalid ("batch payload " ++ key ++ " must be a string"))

def number (object : Json) (key : String) : ProjectionResult Nat := do
  let value ← required object key
  okOr value.asU64 (.invalid ("batch payload " ++ key ++ " must be a nonnegative integer"))

/-- `item.get(field).and_then(Value::as_str)`. -/
def optionalString (item : Json) (field : String) : Option String :=
  (item.get field).bind Json.asStr

def optionalNumber (item : Json) (field : String) : ProjectionResult (Option Nat) :=
  match (item.get field).bind Json.asU64 with
  | some n => do
      let n ← sqlI64 n field
      .ok (some n)
  | none => .ok none

/-- `observed_size_bytes`, or else `size_bytes`. -/
def observedSize (item : Json) : ProjectionResult (Option Nat) := do
  let observed ← optionalNumber item "observed_size_bytes"
  let size ← optionalNumber item "size_bytes"
  .ok (observed.or size)

/-- The bytes of a lowercase hexadecimal text. -/
def hexBytes (hex : String) : ProjectionResult Bytes :=
  okOr (decodePairs (utf8 hex)) (.invalid "invalid lowercase checksum")

/-- An encoded path as the columns of an index hold it. -/
structure StoredPath where
  encoding : String
  bytes : Bytes
deriving DecidableEq, Repr

def pathValue (R : ProjectionRuntime) (item : Json) (field : String) :
    ProjectionResult (RegistryPath × StoredPath) := do
  let value ← required item field
  let path ← mapError (fun _ => .json) (R.readRegistryPath value)
  let bytes ← mapError (fun e => .invalid e.display) (registryPathBytes path)
  .ok (path, ⟨path.encoding, bytes⟩)

/-- The display text a path needs of its own. -/
def sparseDisplay (path : RegistryPath) (stored : StoredPath) : Option String :=
  if path.encoding = "utf8" ∧ utf8 path.display = stored.bytes then none else some path.display

/-! ### Items and their defaults -/

def Json.fields : Json → List (String × Json)
  | .obj fields => fields
  | _ => []

/-- `{:?}` of a text without characters to escape. -/
def quoted (text : String) : String := "\"" ++ text ++ "\""

def validateDefault (entry : String × Json) : ProjectionResult Unit := do
  let values ← object entry.2 ("defaults for item kind " ++ quoted entry.1)
  require (values.get "kind").isNone
    (.invalid ("defaults for item kind " ++ quoted entry.1 ++ " cannot default kind"))

def validateProjectedItemDefaults (itemSchemaVersion : Nat) (defaults : Json) :
    ProjectionResult Unit := do
  let defaults ← object defaults "batch defaults"
  if itemSchemaVersion = 1 then .ok ()
  else if itemSchemaVersion = 2 then defaults.fields.forM validateDefault
  else .error (.invalid ("unsupported batch item schema version " ++ toString itemSchemaVersion))

def kindDefaults (defaults : Json) (kind : String) : ProjectionResult Json :=
  match defaults.get kind with
  | some values => object values ("defaults for item kind " ++ quoted kind)
  | none => .ok (.obj [])

/-- The fields of an item, and the defaults of its kind where it has none. -/
def materializeBatchItem (item defaults : Json) : ProjectionResult Json := do
  let item ← object item "batch item"
  let kind ← string item "kind"
  let defaults ← kindDefaults defaults kind
  .ok (.obj (item.fields ++ defaults.fields.filter fun f => (item.get f.1).isNone))

end ArchiveLedger
