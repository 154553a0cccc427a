import ArchiveLedger.Catalog.Run
import ArchiveLedger.Discovery.Walk

/-!
# A scan of a Location

`run_inventory` of `sqlite_cli.rs` under the configuration `location scan` saves (the whole root,
no accepted changes, `complete`) in a Location without annex content.  The loop checks every file
the discovery yields and submits the checks in batches; a run that comes to the end of the tree
finalizes the scan.  Between its transactions a run may stop: `Leaves` says which catalogs it
may then leave.
-/

namespace ArchiveLedger.Inventory

open Relational Discovery

/-! ### The configuration and the tree -/

structure InventoryConfig where
  collectionId : String
  locationId : String
  root : RelativePath
  exclusions : List RelativePath
  batchEntries : Nat

/-- What is found at a regular file: its device, and the digest and size of its bytes when they
can be read. -/
structure RegularFile where
  device : Nat
  content : Option (Digest × Nat)

/-- The tree below the root, which no one changes. -/
structure Tree where
  device : Nat
  listing : Directory RegularFile Unit
  changed : Bool
  proper : listing.Proper GoodName

/-- What a run draws from outside: the clock, new identifiers and lossy text, and whether the
Location is still mounted where the job was started. -/
structure Surroundings where
  rootValid : Bool
  startedUtcMs : Nat
  checkedUtcMs : Nat → Nat
  finishedUtcMs : Nat
  newId : Nat → String
  lossy : Bytes → String

inductive AppError where
  | input (message : String)
  | json (message : String)
  | catalog (error : CatalogWriteError)

structure InventorySummary where
  filesObserved : Nat
  confirmedGood : Nat
  integrityMismatches : Nat
  readErrors : Nat
  missingPaths : Nat
  ignoredSymlinks : Nat
  bytesObserved : Nat
  traversalErrors : Nat

def InventorySummary.toJson (s : InventorySummary) : Json :=
  .obj [("files_observed", .num s.filesObserved.repr), ("confirmed_good", .num s.confirmedGood.repr),
    ("integrity_mismatches", .num s.integrityMismatches.repr), ("read_errors", .num s.readErrors.repr),
    ("missing_paths", .num s.missingPaths.repr), ("ignored_symlinks", .num s.ignoredSymlinks.repr),
    ("bytes_observed", .num s.bytesObserved.repr), ("traversal_errors", .num s.traversalErrors.repr)]

/-- The serialization of a path. -/
def pathJson (path : Bytes) : Except AppError Json :=
  match String.fromUTF8? ⟨path.toArray⟩ with
  | some text => .ok (.str text)
  | none => .error (.json "path contains invalid UTF-8 characters")

def InventoryConfig.params (config : InventoryConfig) : Except AppError Json := do
  let root ← pathJson (47 :: joinPath config.root)
  let exclusions ← config.exclusions.mapM fun e => pathJson (joinPath e)
  .ok (.obj [("collection_id", .str config.collectionId), ("location_id", .str config.locationId),
    ("root", root), ("path", root), ("exclusions", .arr exclusions), ("accept_changes", .arr []),
    ("complete", .bool true), ("inventory_only", .bool false), ("annex_import", .bool false),
    ("import_id", .null), ("batch_entries", .num config.batchEntries.repr)])

/-! ### Checks -/

/-- `RegistryPath::from_path`. -/
def registryPath (lossy : Bytes → String) (path : RelativePath) : RegistryPath :=
  let bytes := joinPath path
  match String.fromUTF8? ⟨bytes.toArray⟩ with
  | some text => .utf8 text
  | none => ⟨"unix_bytes", none, some (String.ofList (Base64.encode Base64.standard bytes)), lossy bytes⟩

/-- The columns an object of the path has. -/
def objectPath (config : InventoryConfig) (path : RelativePath) : ObjectPath :=
  ⟨config.collectionId, (registryPath (fun _ => "") path).encoding, joinPath path⟩

/-- One check of a run. -/
structure Check where
  path : RelativePath
  result : ObservationResult
  timeUtcMs : Nat

/-- What `content_path` and `hash_catalog_file` give of a file the discovery came to: the
directories above it were entered, so only the file itself may be on another device. -/
def readFile (tree : Tree) (f : RegularFile) : ObservationResult :=
  if f.device ≠ tree.device then .readError
  else match f.content with
    | some (blake3, sizeBytes) => .checksum blake3 sizeBytes
    | none => .readError

def Check.observation (config : InventoryConfig) (jobId : String) (lossy : Bytes → String) (k : Check) :
    CatalogObservation where
  collectionId := config.collectionId
  locationId := config.locationId
  path := registryPath lossy k.path
  timeUtcMs := k.timeUtcMs
  result := k.result
  acceptChange := false
  operationKey := none
  jobId := some jobId

/-! ### The loop -/

structure ScanState where
  catalog : Catalog
  batch : List CatalogObservation
  submitted : Nat
  summary : InventorySummary
  newWork : Nat
  unsafeCoverage : Bool

def ScanState.start (catalog : Catalog) : ScanState :=
  ⟨catalog, [], 0, ⟨0, 0, 0, 0, 0, 0, 0, 0⟩, 0, false⟩

def InventorySummary.count (s : InventorySummary) (outcome : ObservationOutcome) : InventorySummary :=
  match outcome.result with
  | .checked .ok => { s with confirmedGood := s.confirmedGood + 1 }
  | .checked .mismatch => { s with integrityMismatches := s.integrityMismatches + 1 }
  | _ => s

def flushInventory (env : Surroundings) (st : ScanState) : WriteResult ScanState :=
  match observeBatch (fun n => env.newId (st.submitted + n)) st.catalog st.batch with
  | .ok (outcomes, catalog) => .ok { st with
      catalog := catalog
      batch := []
      submitted := st.submitted + st.batch.length
      summary := outcomes.foldl InventorySummary.count st.summary }
  | .error e => .error e

/-- Where a loop stands after an item, or at its end. -/
inductive Reached where
  | more (st : ScanState)
  | paused (st : ScanState)
  | failed (error : AppError) (st : ScanState)

def Reached.state : Reached → ScanState
  | .more st => st
  | .paused st => st
  | .failed _ st => st

/-- The job has an item for the object of the path. -/
def processed (c : Catalog) (jobId : String) (path : ObjectPath) : Bool :=
  (c.objectAt path).any fun r => (c.catalogJobItems.get? (jobId, r.objectId)).isSome

section Loop

variable (config : InventoryConfig) (jobId : String) (tree : Tree) (env : Surroundings)
  (maxItems : Option Nat)

/-- The summary after the read of a file. -/
def InventorySummary.read (s : InventorySummary) (result : ObservationResult) : InventorySummary :=
  match result with
  | .checksum _ sizeBytes =>
      { s with filesObserved := s.filesObserved + 1, bytesObserved := s.bytesObserved + sizeBytes }
  | _ => { s with filesObserved := s.filesObserved + 1, readErrors := s.readErrors + 1 }

def scanFile (st : ScanState) (path : RelativePath) (f : RegularFile) : Reached :=
  let done := processed st.catalog jobId (objectPath config path)
  if !done && maxItems.any (fun max => st.newWork ≥ max) then .paused st
  else
    let result := readFile tree f
    let check : Check := ⟨path, result, env.checkedUtcMs st.summary.filesObserved⟩
    let st := { st with
      newWork := if done then st.newWork else st.newWork + 1
      summary := st.summary.read result
      batch := st.batch ++ [check.observation config jobId env.lossy] }
    if st.batch.length ≥ config.batchEntries then
      match flushInventory env st with
      | .ok st => .more st
      | .error e => .failed (.catalog e) st
    else .more st

def scanItem (st : ScanState) : DiscoveryItem RegularFile Unit → Reached
  | .file path f => scanFile config jobId tree env maxItems st path f
  | .symlink _ _ => .more { st with
      summary := { st.summary with ignoredSymlinks := st.summary.ignoredSymlinks + 1 } }
  | .error _ => .more { st with
      summary := { st.summary with traversalErrors := st.summary.traversalErrors + 1 }
      unsafeCoverage := true }
  | .concurrentChange _ => .more { st with
      summary := { st.summary with traversalErrors := st.summary.traversalErrors + 1 }
      unsafeCoverage := true }
  | .filesystemBoundary _ => .more { st with unsafeCoverage := true }
  | .special _ => .more { st with unsafeCoverage := true }
  | .excluded _ => .more st

def scan (st : ScanState) : List (DiscoveryItem RegularFile Unit) → Reached
  | [] => .more st
  | item :: rest =>
      match scanItem config jobId tree env maxItems st item with
      | .more st => scan st rest
      | stopped => stopped

/-! ### Runs -/

/-- How a run ends. -/
inductive RunResult where
  | alreadyEnded (status : JobStatus)
  | ended (status : String) (summary : InventorySummary)
  | failed (error : AppError)

/-- Open the job and start a fresh pass; a job that is not running is left alone. -/
def openScan (c : Catalog) : Except AppError (JobStatus × Catalog) := do
  if !env.rootValid then .error (.input "Location mount changed since this job started; start a new job")
  else if config.batchEntries = 0 then .error (.input "--batch-entries must be positive")
  else
    let params ← config.params
    let (status, c) ← (beginCatalogJob c jobId "inventory" params env.startedUtcMs).mapError .catalog
    if status ≠ .running then .ok (status, c)
    else
      let c ← (resetScanCoverage c jobId).mapError .catalog
      .ok (status, c)

/-- The items of the tree, unless an exclusion is invalid. -/
def discovered : Except AppError (List (DiscoveryItem RegularFile Unit)) :=
  match withExclusions config.root tree.device config.exclusions with
  | .ok fd => .ok (fd.discover tree.changed tree.listing)
  | .error (.invalidExclusion _) => .error (.input
      "discovery exclusion must be a non-empty relative path without parent traversal")

/-- No hidden file and no unread one, and nothing excluded. -/
def clean (st : ScanState) : Bool :=
  !st.unsafeCoverage && st.summary.readErrors = 0 && config.exclusions.isEmpty

/-- The last transactions of a run. -/
def closeScan (paused : Bool) (st : ScanState) : RunResult × Catalog :=
  if paused then
    match checkpointCatalogJob st.catalog jobId st.summary.toJson with
    | .ok c => (.ended "running" st.summary, c)
    | .error e => (.failed (.catalog e), st.catalog)
  else
    match finishCatalogScan st.catalog jobId config.collectionId config.locationId (clean config st)
        env.finishedUtcMs st.summary.toJson with
    | .ok (missing, c) => (.ended (if clean config st then "complete" else "partial")
        { st.summary with missingPaths := missing }, c)
    | .error e => (.failed (.catalog e), st.catalog)

def endScan : Reached → RunResult × Catalog
  | .failed e st => (.failed e, st.catalog)
  | .more st =>
      match flushInventory env st with
      | .ok st => closeScan config jobId env false st
      | .error e => (.failed (.catalog e), st.catalog)
  | .paused st =>
      match flushInventory env st with
      | .ok st => closeScan config jobId env true st
      | .error e => (.failed (.catalog e), st.catalog)

def runInventory (c : Catalog) : RunResult × Catalog :=
  match openScan config jobId env c with
  | .error e => (.failed e, c)
  | .ok (status, opened) =>
      if status ≠ .running then (.alreadyEnded status, opened)
      else match discovered config tree with
        | .error e => (.failed e, opened)
        | .ok items => endScan config jobId env
            (scan config jobId tree env maxItems (.start opened) items)

/-- The catalogs a run leaves that stops between two transactions, or goes to its end. -/
inductive Leaves (c : Catalog) : Catalog → Prop where
  | before : Leaves c c
  | begun {params : Json} {status : JobStatus} {d : Catalog} (hparams : config.params = .ok params)
      (h : beginCatalogJob c jobId "inventory" params env.startedUtcMs = .ok (status, d)) : Leaves c d
  | scanning {d : Catalog} {items : List (DiscoveryItem RegularFile Unit)} (n : Nat)
      (hopen : openScan config jobId env c = .ok (.running, d)) (hitems : discovered config tree = .ok items) :
      Leaves c (scan config jobId tree env maxItems (.start d) (items.take n)).state.catalog
  | flushed {d : Catalog} {items : List (DiscoveryItem RegularFile Unit)} {st : ScanState}
      (hopen : openScan config jobId env c = .ok (.running, d)) (hitems : discovered config tree = .ok items)
      (h : flushInventory env (scan config jobId tree env maxItems (.start d) items).state = .ok st) :
      Leaves c st.catalog
  | ended : Leaves c (runInventory config jobId tree env maxItems c).2

end Loop

end ArchiveLedger.Inventory
