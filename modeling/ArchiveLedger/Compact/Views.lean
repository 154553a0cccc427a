import ArchiveLedger.Compact.Tables

/-!
# The views over the compact tables

`objects`, `file_refs`, `path_observations` and `copy_claims` of `compact_projection.sql`, joined
as they are declared, with the columns that reviews and reports read.  In a linked database
every inner join finds its row, so a view has one row for each row it starts from
(`fileRefs_eq`, `copyClaims_eq`).
-/

namespace ArchiveLedger.Compact

open Relational

structure ObjectView where
  objectId : String
  sizeBytes : Nat
deriving DecidableEq

structure FileRef where
  fileRefId : String
  collectionId : String
  logicalPath : StoredPath
  logicalPathDisplay : String
  objectId : Option String
  externalIdentityId : Option String
  identityState : IdentityState
  active : Bool
  observedSizeBytes : Option Nat
deriving DecidableEq

structure PathObservation where
  fileRefId : String
  locationId : String
  observedPath : StoredPath
  observedPathDisplay : String
  representation : String
  objectId : Option String
  externalIdentityId : Option String
  present : Bool
deriving DecidableEq

structure CopyClaim where
  copyClaimId : String
  locationId : String
  relativePath : StoredPath
  relativePathDisplay : String
  objectId : Option String
  externalIdentityId : Option String
  state : CopyState
  lastSeenTimeUtcMs : Option Int
  lastVerifiedTimeUtcMs : Option Int
  lastVerificationResult : Option VerificationResult
deriving DecidableEq

/-- `CASE WHEN e.code IN ('read_error','identity_mismatch') THEN e.code ELSE CASE v.integrity ...`. -/
def verificationResult (v : Option CheckRow) (e : Option CheckErrorRow) : Option VerificationResult :=
  let measured := v.bind fun v => match v.integrity with
    | .verified => some .ok
    | .damaged => some .hashMismatch
    | .unverified => none
  match e with
  | some e =>
      if e.code = "read_error" then some .readError
      else if e.code = "identity_mismatch" then some .identityMismatch
      else measured
  | none => measured

namespace Tables

variable (t : Tables)

def objects : List ObjectView :=
  t.contentObjects.rows.map fun c => { objectId := c.objectId, sizeBytes := c.sizeBytes }

def fileRefs : List FileRef :=
  t.fileObjects.rows.flatMap fun f =>
  (t.collections.rows.filter fun l => decide (l.id = f.collectionId)).flatMap fun l =>
  (leftJoin t.contentObjects.rows fun c => same (some c.id) f.contentId).flatMap fun c =>
  (leftJoin t.sourceIdentities.rows fun x => same (some x.id) f.externalId).map fun x =>
    { fileRefId := f.canonicalId
      collectionId := l.collectionId
      logicalPath := f.path
      logicalPathDisplay := f.pathDisplay.getD (castText f.path.bytes)
      objectId := c.map ContentObjectRow.objectId
      externalIdentityId := x.map SourceIdentityRow.canonicalId
      identityState := f.identityState
      active := f.active
      observedSizeBytes := f.observedSize }

def pathObservations : List PathObservation :=
  (t.fileLocations.rows.filter fun p => decide (p.representation ≠ "annex_content")).flatMap fun p =>
  (t.fileObjects.rows.filter fun f => decide (f.id = p.fileId)).flatMap fun f =>
  (t.locations.rows.filter fun l => decide (l.id = p.locationId)).flatMap fun l =>
  (leftJoin t.contentObjects.rows fun c => same (some c.id) p.contentId).flatMap fun c =>
  (leftJoin t.sourceIdentities.rows fun x => same (some x.id) p.externalId).map fun x =>
    { fileRefId := f.canonicalId
      locationId := l.locationId
      observedPath := f.path
      observedPathDisplay := f.pathDisplay.getD (castText f.path.bytes)
      representation := p.representation
      objectId := c.map ContentObjectRow.objectId
      externalIdentityId := x.map SourceIdentityRow.canonicalId
      present := p.presence }

def copyClaims : List CopyClaim :=
  t.copyBindings.rows.flatMap fun b =>
  (t.fileLocations.rows.filter fun owner => decide (owner.id = b.owner)).flatMap fun owner =>
  (t.fileObjects.rows.filter fun f => decide (f.id = owner.fileId)).flatMap fun f =>
  (t.locations.rows.filter fun l => decide (l.id = b.locationId)).flatMap fun l =>
  (leftJoin t.contentObjects.rows fun c => same (some c.id) b.contentId).flatMap fun c =>
  (leftJoin t.sourceIdentities.rows fun x => same (some x.id) b.externalId).flatMap fun x =>
  (leftJoin t.checks.rows fun p => same (some p.id) b.latestPresence).flatMap fun p =>
  (leftJoin t.checks.rows fun v => same (some v.id) b.latestIntegrity).flatMap fun v =>
  (leftJoin t.checkErrors.rows fun e => same (some e.checkId) (v.map CheckRow.id)).map fun e =>
    { copyClaimId := b.canonicalId
      locationId := l.locationId
      relativePath :=
        { encoding := b.locatorEncoding.getD f.path.encoding, bytes := b.locatorBytes.getD f.path.bytes }
      relativePathDisplay := match b.locatorBytes with
        | some locator => b.locatorDisplay.getD (castText locator)
        | none => f.pathDisplay.getD (castText f.path.bytes)
      objectId := c.map ContentObjectRow.objectId
      externalIdentityId := x.map SourceIdentityRow.canonicalId
      state := b.state
      lastSeenTimeUtcMs := p.map CheckRow.checkedAt
      lastVerifiedTimeUtcMs := v.map CheckRow.checkedAt
      lastVerificationResult := verificationResult v e }

/-! ### Rows by key -/

def content? (id : Option Int) : Option ContentObjectRow := id.bind t.contentObjects.get?

def external? (id : Option Int) : Option SourceIdentityRow := id.bind t.sourceIdentities.get?

def check? (id : Option Int) : Option CheckRow := id.bind t.checks.get?

/-- The error of a check. -/
def error? (v : Option CheckRow) : Option CheckErrorRow := (v.map CheckRow.id).bind t.checkErrors.get?

/-- The row of `file_refs` of a File in a Collection. -/
def fileRef (f : FileObjectRow) (l : CollectionRow) : FileRef where
  fileRefId := f.canonicalId
  collectionId := l.collectionId
  logicalPath := f.path
  logicalPathDisplay := f.pathDisplay.getD (castText f.path.bytes)
  objectId := (t.content? f.contentId).map ContentObjectRow.objectId
  externalIdentityId := (t.external? f.externalId).map SourceIdentityRow.canonicalId
  identityState := f.identityState
  active := f.active
  observedSizeBytes := f.observedSize

def pathObservation (p : FileLocationRow) (f : FileObjectRow) (l : LocationRow) : PathObservation where
  fileRefId := f.canonicalId
  locationId := l.locationId
  observedPath := f.path
  observedPathDisplay := f.pathDisplay.getD (castText f.path.bytes)
  representation := p.representation
  objectId := (t.content? p.contentId).map ContentObjectRow.objectId
  externalIdentityId := (t.external? p.externalId).map SourceIdentityRow.canonicalId
  present := p.presence

def copyClaim (b : CopyBindingRow) (f : FileObjectRow) (l : LocationRow) : CopyClaim where
  copyClaimId := b.canonicalId
  locationId := l.locationId
  relativePath :=
    { encoding := b.locatorEncoding.getD f.path.encoding, bytes := b.locatorBytes.getD f.path.bytes }
  relativePathDisplay := match b.locatorBytes with
    | some locator => b.locatorDisplay.getD (castText locator)
    | none => f.pathDisplay.getD (castText f.path.bytes)
  objectId := (t.content? b.contentId).map ContentObjectRow.objectId
  externalIdentityId := (t.external? b.externalId).map SourceIdentityRow.canonicalId
  state := b.state
  lastSeenTimeUtcMs := (t.check? b.latestPresence).map CheckRow.checkedAt
  lastVerifiedTimeUtcMs := (t.check? b.latestIntegrity).map CheckRow.checkedAt
  lastVerificationResult := verificationResult (t.check? b.latestIntegrity)
    (t.error? (t.check? b.latestIntegrity))

end Tables

/-! ### One row for each row -/

variable {t : Tables}

theorem filter_collections (id : Int) : (t.collections.rows.filter fun l => decide (l.id = id)) =
    (t.collections.get? id).toList := t.collections.filter_key id

theorem filter_locations (id : Int) : (t.locations.rows.filter fun l => decide (l.id = id)) =
    (t.locations.get? id).toList := t.locations.filter_key id

theorem filter_files (id : Int) : (t.fileObjects.rows.filter fun f => decide (f.id = id)) =
    (t.fileObjects.get? id).toList := t.fileObjects.filter_key id

theorem filter_fileLocations (id : Int) : (t.fileLocations.rows.filter fun p => decide (p.id = id)) =
    (t.fileLocations.get? id).toList := t.fileLocations.filter_key id

theorem leftJoin_contents (id : Option Int) :
    (leftJoin t.contentObjects.rows fun c => same (some c.id) id) = [t.content? id] :=
  leftJoin_same t.contentObjects id

theorem leftJoin_externals (id : Option Int) :
    (leftJoin t.sourceIdentities.rows fun x => same (some x.id) id) = [t.external? id] :=
  leftJoin_same t.sourceIdentities id

theorem leftJoin_checks (id : Option Int) :
    (leftJoin t.checks.rows fun v => same (some v.id) id) = [t.check? id] :=
  leftJoin_same t.checks id

theorem leftJoin_errors (v : Option CheckRow) :
    (leftJoin t.checkErrors.rows fun e => same (some e.checkId) (v.map CheckRow.id)) = [t.error? v] :=
  leftJoin_same t.checkErrors (v.map CheckRow.id)

theorem fileRefs_eq : t.fileRefs = t.fileObjects.rows.filterMap fun f =>
    (t.collections.get? f.collectionId).map (t.fileRef f) := by
  rw [List.filterMap_eq_flatMap_toList]
  refine List.flatMap_congr fun f _ => ?_
  rw [filter_collections]
  cases t.collections.get? f.collectionId with
  | none => rfl
  | some l => simp [leftJoin_contents, leftJoin_externals, Tables.fileRef]

/-- The rows a path observation joins. -/
def Tables.observed? (t : Tables) (p : FileLocationRow) : Option (FileObjectRow × LocationRow) := do
  let f ← t.fileObjects.get? p.fileId
  let l ← t.locations.get? p.locationId
  some (f, l)

theorem pathObservations_eq : t.pathObservations =
    (t.fileLocations.rows.filter fun p => decide (p.representation ≠ "annex_content")).filterMap fun p =>
      (t.observed? p).map fun x => t.pathObservation p x.1 x.2 := by
  rw [List.filterMap_eq_flatMap_toList]
  refine List.flatMap_congr fun p _ => ?_
  simp only [filter_files, filter_locations, Tables.observed?]
  cases t.fileObjects.get? p.fileId with
  | none => rfl
  | some f =>
    cases hl : t.locations.get? p.locationId with
    | none => simp
    | some l => simp [leftJoin_contents, leftJoin_externals, Tables.pathObservation]

/-- The rows a Copy claim joins: the File of its owner, and its Location. -/
def Tables.claimed? (t : Tables) (b : CopyBindingRow) : Option (FileObjectRow × LocationRow) := do
  let owner ← t.fileLocations.get? b.owner
  let f ← t.fileObjects.get? owner.fileId
  let l ← t.locations.get? b.locationId
  some (f, l)

theorem copyClaims_eq : t.copyClaims = t.copyBindings.rows.filterMap fun b =>
    (t.claimed? b).map fun x => t.copyClaim b x.1 x.2 := by
  rw [List.filterMap_eq_flatMap_toList]
  refine List.flatMap_congr fun b _ => ?_
  simp only [filter_files, filter_locations, filter_fileLocations, Tables.claimed?]
  cases t.fileLocations.get? b.owner with
  | none => rfl
  | some owner =>
    cases hf : t.fileObjects.get? owner.fileId with
    | none => simp [hf]
    | some f =>
      cases hl : t.locations.get? b.locationId with
      | none => simp [hf]
      | some l => simp [hf, leftJoin_contents, leftJoin_externals, leftJoin_checks, leftJoin_errors,
          Tables.copyClaim]

/-! ### Linked databases -/

namespace CompactDb

variable (db : CompactDb)

theorem collection_of_file {f : FileObjectRow} (hf : f ∈ db.fileObjects.rows) :
    ∃ l, db.collections.get? f.collectionId = some l :=
  db.linked.fileCollection f hf _ rfl

/-- A Copy claim joins the rows its foreign keys name. -/
theorem claimed_of_mem {b : CopyBindingRow} (hb : b ∈ db.copyBindings.rows) :
    ∃ f l, db.claimed? b = some (f, l) ∧ db.locations.get? b.locationId = some l := by
  obtain ⟨owner, howner⟩ := db.linked.copyOwner b hb _ rfl
  obtain ⟨f, hf⟩ := db.linked.locationFile owner (Table.mem_of_get? howner) _ rfl
  obtain ⟨l, hl⟩ := db.linked.copyLocation b hb _ rfl
  refine ⟨f, l, ?_, hl⟩
  simp [Tables.claimed?, howner, hf, hl]

theorem observed_of_mem {p : FileLocationRow} (hp : p ∈ db.fileLocations.rows) :
    ∃ f l, db.observed? p = some (f, l) ∧ db.fileObjects.get? p.fileId = some f ∧
      db.locations.get? p.locationId = some l := by
  obtain ⟨f, hf⟩ := db.linked.locationFile p hp _ rfl
  obtain ⟨l, hl⟩ := db.linked.locationLocation p hp _ rfl
  refine ⟨f, l, ?_, hf, hl⟩
  simp [Tables.observed?, hf, hl]

/-- A content that is referred to is there, and its name belongs to it alone. -/
theorem content_of_refers {id : Option Int} (h : Refers db.contentObjects id) :
    id.isSome = (db.content? id).isSome := by
  cases id with
  | none => rfl
  | some id =>
    obtain ⟨o, ho⟩ := h id rfl
    simp [Tables.content?, ho]

/-- Two references to content are the same when they name the same object. -/
theorem objectId_inj {i j : Option Int} (hi : Refers db.contentObjects i)
    (hj : Refers db.contentObjects j) :
    (db.content? i).map ContentObjectRow.objectId = (db.content? j).map ContentObjectRow.objectId ↔
      i = j := by
  constructor
  · intro h
    cases i with
    | none => cases j with
      | none => rfl
      | some j =>
        obtain ⟨o, ho⟩ := hj j rfl
        simp [Tables.content?, ho] at h
    | some i =>
      obtain ⟨o, ho⟩ := hi i rfl
      cases j with
      | none => simp [Tables.content?, ho] at h
      | some j =>
        obtain ⟨o', ho'⟩ := hj j rfl
        have hname : o.objectId = o'.objectId := by simpa [Tables.content?, ho, ho'] using h
        have hsame : o = o' := eq_of_column (Table.mem_of_get? ho) (Table.mem_of_get? ho') hname
        have hkey : o.id = i := Table.key_of_get? ho
        have hkey' : o'.id = j := Table.key_of_get? ho'
        rw [← hkey, ← hkey', hsame]
  · intro h
    rw [h]

end CompactDb

end ArchiveLedger.Compact
