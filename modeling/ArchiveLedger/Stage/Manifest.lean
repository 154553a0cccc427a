import ArchiveLedger.Foundation.Transition
import ArchiveLedger.Foundation.Keyset
import ArchiveLedger.Catalog.Queries

/-!
# The stage manifest

The tables `staged_files`, `stage_import_jobs` and `stage_import_files` of a stage manifest,
what an audit writes to them file by file, and the two halves of a stage import:
`select_stage_import_at` freezes a selection of paths, and `stage_import_candidates_at` reads
it page by page.  The import of version 2 reads the pages twice: it copies what they show, checks
how many files it has then, and reads them once more to record them.  (Version 1 takes an inventory
of the copied tree instead.)
-/

namespace ArchiveLedger.Stage

open Relational Transition

/-- `(path_encoding, path_bytes)`, relative to the source. -/
structure StagedPath where
  encoding : String
  bytes : Bytes
  deriving DecidableEq

/-- The order of the primary key. -/
def StagedPath.rank (p : StagedPath) : List Nat ×ₗ List Nat :=
  toLex (textRank p.encoding, blobRank p.bytes)

structure FileFingerprint where
  sizeBytes : Nat
  modifiedTimeUtcMs : Option Nat
  inode : Option Nat
  ctimeSeconds : Option Int
  ctimeNanoseconds : Option Int
  deriving DecidableEq

/-- `content_state`, and `blake3_hex` where the content is stable. -/
inductive StagedContent
  | stable (blake3Hex : String)
  | readError
  | unstable
  deriving DecidableEq

/-- A row of `staged_files`, without what the archive says of its content. -/
structure StagedFile where
  path : StagedPath
  pathDisplay : String
  sizeBytes : Nat
  modifiedTimeUtcMs : Option Nat
  inode : Option Nat
  ctimeSeconds : Option Int
  ctimeNanoseconds : Option Int
  content : StagedContent
  generation : String
  deriving DecidableEq

def stagedFileSchema : Schema StagedPath StagedFile := .ofKey StagedFile.path

structure StageImportJob where
  jobId : String
  generation : String
  sourcePath : String
  deriving DecidableEq

def stageImportJobSchema : Schema String StageImportJob := .ofKey StageImportJob.jobId

structure StageManifest where
  generation : Option String
  auditStatus : Option String
  stagedFiles : Table stagedFileSchema
  importJobs : Table stageImportJobSchema
  /-- `stage_import_files`: job and path. -/
  importFiles : List (String × StagedPath)

inductive StageError
  | notAudited
  | invalidManifest (message : String)
  | sqlite
  deriving DecidableEq

abbrev StageResult := Except StageError

/-! ### What an audit writes -/

/-- `sql_i64`. -/
def sqlI64 (value : Nat) (field : String) : StageResult Nat :=
  if value < 2 ^ 63 then .ok value else .error (.invalidManifest (field ++ " exceeds SQLite INTEGER"))

/-- `optional_sql_i64`: a value that does not fit is dropped. -/
def optionalSqlI64 (value : Option Nat) : Option Nat := value.filter fun n => n < 2 ^ 63

/-- `cached_checksum`: the checksum of the row whose columns are those of the fingerprint. -/
def cachedChecksum (m : StageManifest) (path : StagedPath) (fingerprint : FileFingerprint) :
    StageResult (Option String) := do
  let size ← sqlI64 fingerprint.sizeBytes "staged file size"
  match m.stagedFiles.get? path with
  | none => .ok none
  | some f =>
      match f.content with
      | .stable blake3Hex =>
          if f.sizeBytes = size ∧
              f.modifiedTimeUtcMs = optionalSqlI64 fingerprint.modifiedTimeUtcMs ∧
              f.inode = optionalSqlI64 fingerprint.inode ∧
              f.ctimeSeconds = fingerprint.ctimeSeconds ∧
              f.ctimeNanoseconds = fingerprint.ctimeNanoseconds then .ok (some blake3Hex)
          else .ok none
      | .readError => .ok none
      | .unstable => .ok none

/-- `upsert_staged_file`. -/
def upsertStagedFile (m : StageManifest) (generation : String) (path : StagedPath)
    (pathDisplay : String) (fingerprint : FileFingerprint) (content : StagedContent) :
    StageResult StageManifest := do
  let size ← sqlI64 fingerprint.sizeBytes "staged file size"
  let row : StagedFile :=
    { path := path
      pathDisplay := pathDisplay
      sizeBytes := size
      modifiedTimeUtcMs := optionalSqlI64 fingerprint.modifiedTimeUtcMs
      inode := optionalSqlI64 fingerprint.inode
      ctimeSeconds := fingerprint.ctimeSeconds
      ctimeNanoseconds := fingerprint.ctimeNanoseconds
      content := content
      generation := generation }
  .ok { m with stagedFiles := m.stagedFiles.upsert row fun old => { row with path := old.path } }

/-- A file that the discovery of an audit yields, with what `hash_stable` finds. -/
structure DiscoveredFile where
  path : StagedPath
  pathDisplay : String
  fingerprint : FileFingerprint
  outcome : StagedContent

/-- One file of `audit_stage_catalog`. -/
def auditFile (m : StageManifest) (generation : String) (file : DiscoveredFile) :
    StageResult StageManifest := do
  let existing ← cachedChecksum m file.path file.fingerprint
  let content := match existing with
    | some checksum => .stable checksum
    | none => file.outcome
  upsertStagedFile m generation file.path file.pathDisplay file.fingerprint content

/-- The end of `audit_stage_catalog`: a complete audit deletes the rows of all others. -/
def finishAudit (m : StageManifest) (generation : String) (complete : Bool) : StageManifest :=
  { m with
    stagedFiles :=
      if complete then m.stagedFiles.delete fun f => f.generation ≠ generation else m.stagedFiles
    auditStatus := some (if complete then "complete" else "partial") }

/-! ### Stage imports -/

structure StageImportPlan where
  source : String
  eligibleFiles : Nat
  eligibleBytes : Nat
  generation : String
  selectionJobId : Option String
  deriving DecidableEq

structure StageImportCandidate where
  relativePath : StagedPath
  pathDisplay : String
  sizeBytes : Nat
  modifiedTimeUtcMs : Option Nat
  blake3Hex : String
  deriving DecidableEq

def StageImportCandidate.rank (c : StageImportCandidate) : List Nat ×ₗ List Nat := c.relativePath.rank

/-- A row with `generation = ?1 AND content_state = 'stable'`. -/
def StagedFile.candidate (generation : String) (f : StagedFile) : Option StageImportCandidate :=
  match f.content with
  | .stable blake3Hex =>
      if f.generation = generation then
        some ⟨f.path, f.pathDisplay, f.sizeBytes, f.modifiedTimeUtcMs, blake3Hex⟩
      else none
  | .readError => none
  | .unstable => none

/-- The stable rows of an audit. -/
def StageManifest.stable (m : StageManifest) (generation : String) : List StageImportCandidate :=
  m.stagedFiles.rows.filterMap (StagedFile.candidate generation)

/-- The path is one of the job's. -/
def StageManifest.selected (m : StageManifest) (jobId : String) (path : StagedPath) : Bool :=
  (jobId, path) ∈ m.importFiles

/-- `prepare_stage_import_at`, of which `cataloged` says whether an active File has the content. -/
def prepareStageImport (m : StageManifest) (cataloged : String → Bool) (source : String) :
    StageResult StageImportPlan :=
  match m.generation, m.auditStatus with
  | some generation, some status =>
      if status = "complete" ∨ status = "partial" then
        let eligible := (m.stable generation).filter fun c => !cataloged c.blake3Hex
        .ok ⟨source, eligible.length, (eligible.map StageImportCandidate.sizeBytes).sum, generation, none⟩
      else .error .notAudited
  | _, _ => .error .notAudited

/-- What `select_stage_import_at` freezes. -/
def frozenFiles (m : StageManifest) (cataloged : String → Bool) (plan : StageImportPlan) :
    List StageImportCandidate :=
  (Keyset.sorted StageImportCandidate.rank (m.stable plan.generation)).filter fun c =>
    !cataloged c.blake3Hex

/-- The staged rows of the paths of a job, whatever their generation and state. -/
def StageManifest.selectedFiles (m : StageManifest) (jobId : String) : List StagedFile :=
  m.stagedFiles.rows.filter fun f => m.selected jobId f.path

/-- The selection of a job that is new, or the one that it has. -/
def freezeSelection (m : StageManifest) (cataloged : String → Bool) (plan : StageImportPlan)
    (jobId : String) : StageResult StageManifest :=
  match m.importJobs.get? jobId with
  | some job =>
      if job.generation ≠ plan.generation ∨ job.sourcePath ≠ plan.source then
        .error (.invalidManifest
          ("stage import job " ++ jobId ++ " belongs to a different audit or source"))
      else .ok m
  | none =>
      .ok { m with
        importJobs := m.importJobs.insertOrIgnore ⟨jobId, plan.generation, plan.source⟩
        importFiles := m.importFiles ++
          (frozenFiles m cataloged plan).map fun c => (jobId, c.relativePath) }

/-- `select_stage_import_at`. -/
def selectStageImport (m : StageManifest) (cataloged : String → Bool) (plan : StageImportPlan)
    (jobId : String) : StageResult (StageManifest × StageImportPlan) := do
  let m ← freezeSelection m cataloged plan jobId
  let bytes := ((m.selectedFiles jobId).map StagedFile.sizeBytes).sum
  if bytes < 2 ^ 63 then
    .ok (m, { plan with
      eligibleFiles := (m.selectedFiles jobId).length
      eligibleBytes := bytes
      selectionJobId := some jobId })
  else .error .sqlite

structure StageImportPage where
  items : List StageImportCandidate
  next : Option StagedPath

/-- `path_encoding > ?2 OR (path_encoding = ?2 AND path_bytes > ?3)`. -/
def StagedPath.isAfter (cursor path : StagedPath) : Bool :=
  textRank cursor.encoding < textRank path.encoding ||
    (path.encoding = cursor.encoding && blobRank cursor.bytes < blobRank path.bytes)

/-- The loop over the rows: those that are cataloged are passed over, and the page ends before
the first row that it has no room for. -/
def fillPage (cataloged : String → Bool) (limit : Nat) :
    List StageImportCandidate → List StageImportCandidate → Option StagedPath → StageImportPage
  | [], items, _ => ⟨items, none⟩
  | c :: rest, items, lastCursor =>
      if cataloged c.blake3Hex then fillPage cataloged limit rest items (some c.relativePath)
      else if items.length = limit then ⟨items, lastCursor⟩
      else fillPage cataloged limit rest (items ++ [c]) (some c.relativePath)

/-- `stage_import_candidates_at`: the catalog is asked only for a plan without a selection. -/
def stageImportCandidates (m : StageManifest) (cataloged : String → Bool) (plan : StageImportPlan)
    (after : Option StagedPath) (limit : Nat) : StageResult StageImportPage :=
  if limit = 0 then
    .error (.invalidManifest "stage import page limit must be greater than zero")
  else
    let rows := (Keyset.sorted StageImportCandidate.rank (m.stable plan.generation)).filter fun c =>
      after.all (fun cursor => cursor.isAfter c.relativePath) &&
        plan.selectionJobId.all (fun jobId => m.selected jobId c.relativePath)
    let cataloged := fun hash => plan.selectionJobId.isNone && cataloged hash
    .ok (fillPage cataloged limit rows [] none)

/-! ### Imports among audits -/

/-- An audit that runs, and the files it has yet to come to. -/
structure StageAudit where
  generation : String
  remaining : List DiscoveredFile

/-- The directory that an import copies to: its files with their checksums, the files that copies left which were
killed, and whether it has its final name. -/
structure ImportTree where
  files : List (StagedPath × String)
  temporary : Nat
  published : Bool

def ImportTree.empty : ImportTree := ⟨[], 0, false⟩

def ImportTree.checksum? (tree : ImportTree) (path : StagedPath) : Option String :=
  (tree.files.find? fun f => f.1 = path).map Prod.snd

/-- One file of the copy pass.  A file that is there is verified, and one that is not is copied, unless the tree has its
final name already. -/
def copyCandidate (tree : ImportTree) (c : StageImportCandidate) : Option ImportTree :=
  match tree.checksum? c.relativePath with
  | some checksum => if checksum = c.blake3Hex then some tree else none
  | none =>
      if tree.published then none
      else some { tree with files := tree.files ++ [(c.relativePath, c.blake3Hex)] }

/-- `validate_import_tree`: the tree has as many files as the selection. -/
def ImportTree.validates (tree : ImportTree) (expectedFiles : Nat) : Prop :=
  tree.files.length + tree.temporary = expectedFiles

/-- Where the process of an import is: it copies what it reads, and then reads all pages once more and records them. -/
inductive ImportPass
  | idle
  | copying (plan : StageImportPlan) (cursor : Option StagedPath) (items : List StageImportCandidate)
  | copied (plan : StageImportPlan) (items : List StageImportCandidate)
  | recording (plan : StageImportPlan) (copied : List StageImportCandidate) (cursor : Option StagedPath)
      (items : List StageImportCandidate)
  | done (plan : StageImportPlan) (copied recorded : List StageImportCandidate)
  | stopped

/-- A process that has not come to its end. -/
def ImportPass.running : ImportPass → Bool
  | .copying _ _ _ | .copied _ _ | .recording _ _ _ _ => true
  | .idle | .done _ _ _ | .stopped => false

structure StageState where
  manifest : StageManifest
  cataloged : String → Bool
  audits : List StageAudit
  tree : ImportTree
  pass : ImportPass

/-- A generation that nothing has: a new identifier. -/
structure Unused (s : StageState) (generation : String) : Prop where
  rows : ∀ f ∈ s.manifest.stagedFiles.rows, f.generation ≠ generation
  jobs : ∀ j ∈ s.manifest.importJobs.rows, j.generation ≠ generation
  audits : ∀ a ∈ s.audits, a.generation ≠ generation

inductive StageAction
  | catalog (cataloged : String → Bool)
  | beginAudit (audit : StageAudit)
  | auditFile (index : Nat)
  | endAudit (index : Nat) (complete : Bool)
  /-- Some process selects for some job. -/
  | select (plan : StageImportPlan) (jobId : String)
  | copyPage (limit : Nat)
  | validate
  | recordPage (limit : Nat)
  /-- The process stops within a page, perhaps within a file. -/
  | interrupt (limit count : Nat) (killed : Bool)
  /-- The process stops or fails, and perhaps removes the tree. -/
  | stop (removed : Bool)
  /-- The job is resumed, with a plan of its own. -/
  | resume (plan : StageImportPlan)

/-- One step of an audit, of another process, or of a process that imports for the job. -/
inductive StageStep (job : String) (s : StageState) : StageAction → StageState → Prop
  | catalog (cataloged : String → Bool) :
      StageStep job s (.catalog cataloged) { s with cataloged := cataloged }
  | beginAudit (audit : StageAudit) (unused : Unused s audit.generation)
      (once : (audit.remaining.map DiscoveredFile.path).Nodup) :
      StageStep job s (.beginAudit audit)
        { s with
          manifest := { s.manifest with
            generation := some audit.generation
            auditStatus := some "running" }
          audits := s.audits ++ [audit] }
  | auditFile {index : Nat} {generation : String} {file : DiscoveredFile}
      {rest : List DiscoveredFile} {m : StageManifest}
      (next : s.audits[index]? = some ⟨generation, file :: rest⟩)
      (written : Stage.auditFile s.manifest generation file = .ok m) :
      StageStep job s (.auditFile index)
        { s with manifest := m, audits := s.audits.set index ⟨generation, rest⟩ }
  | endAudit {index : Nat} {generation : String} (complete : Bool)
      (finished : s.audits[index]? = some ⟨generation, []⟩) :
      StageStep job s (.endAudit index complete)
        { s with
          manifest := finishAudit s.manifest generation complete
          audits := s.audits.eraseIdx index }
  | select {plan plan' : StageImportPlan} {jobId : String} {m : StageManifest}
      (selected : selectStageImport s.manifest s.cataloged plan jobId = .ok (m, plan')) :
      StageStep job s (.select plan jobId) { s with manifest := m }
  | copyPage {plan : StageImportPlan} {cursor : Option StagedPath} {items : List StageImportCandidate}
      {limit : Nat} {page : StageImportPage} {tree : ImportTree} (copying : s.pass = .copying plan cursor items)
      (read : stageImportCandidates s.manifest s.cataloged plan cursor limit = .ok page)
      (copied : page.items.foldlM copyCandidate s.tree = some tree) :
      StageStep job s (.copyPage limit)
        { s with
          tree := tree
          pass := match page.next with
            | some cursor => .copying plan (some cursor) (items ++ page.items)
            | none => .copied plan (items ++ page.items) }
  | validate {plan : StageImportPlan} {items : List StageImportCandidate} (copied : s.pass = .copied plan items)
      (valid : s.tree.validates plan.eligibleFiles) :
      StageStep job s .validate
        { s with
          tree := { s.tree with published := true }
          pass := .recording plan items none [] }
  | recordPage {plan : StageImportPlan} {copied : List StageImportCandidate} {cursor : Option StagedPath}
      {items : List StageImportCandidate} {limit : Nat} {page : StageImportPage}
      (recording : s.pass = .recording plan copied cursor items)
      (read : stageImportCandidates s.manifest s.cataloged plan cursor limit = .ok page) :
      StageStep job s (.recordPage limit)
        { s with
          pass := match page.next with
            | some cursor => .recording plan copied (some cursor) (items ++ page.items)
            | none => .done plan copied (items ++ page.items) }
  | interrupt {plan : StageImportPlan} {cursor : Option StagedPath} {items : List StageImportCandidate}
      {limit count : Nat} {page : StageImportPage} {tree : ImportTree} (killed : Bool)
      (copying : s.pass = .copying plan cursor items)
      (read : stageImportCandidates s.manifest s.cataloged plan cursor limit = .ok page)
      (copied : (page.items.take count).foldlM copyCandidate s.tree = some tree) :
      StageStep job s (.interrupt limit count killed)
        { s with
          tree := { tree with temporary := tree.temporary + killed.toNat }
          pass := .stopped }
  | stop (removed : Bool) (running : s.pass.running = true) :
      StageStep job s (.stop removed)
        { s with
          tree := if removed ∧ s.tree.published = false then .empty else s.tree
          pass := .stopped }
  | resume {plan plan' : StageImportPlan} {m : StageManifest} (stopped : s.pass = .stopped)
      (selected : selectStageImport s.manifest s.cataloged plan job = .ok (m, plan')) :
      StageStep job s (.resume plan) { s with manifest := m, pass := .copying plan' none [] }

/-- A manifest that was just made. -/
def StageState.initial (cataloged : String → Bool) : StageState :=
  ⟨⟨none, none, .empty, .empty, []⟩, cataloged, [], .empty, .idle⟩

/-- The process that made the selection of a job begins, with a new directory. -/
def StageState.begun (s : StageState) (m : StageManifest) (plan : StageImportPlan) : StageState :=
  ⟨m, s.cataloged, s.audits, .empty, .copying plan none []⟩

def Reachable (job : String) (s : StageState) : Prop :=
  ∃ cataloged p, Path (StageStep job) (.initial cataloged) p ∧
    final (.initial cataloged) p = s

end ArchiveLedger.Stage
