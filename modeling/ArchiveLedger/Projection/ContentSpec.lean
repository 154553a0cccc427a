import ArchiveLedger.Projection.Records

/-!
# What projecting an observation changes

One lemma for each function of `Observations`: what a successful call read, and the
database it leaves, as the old one with the tables it writes replaced.  The proofs
about runs use these and not the definitions.
-/

namespace ArchiveLedger

open Relational Outcome Transition

theorem string_eq_ok {object : Json} {key value : String} :
    string object key = .ok value ↔ optionalString object key = some value := by
  unfold string required optionalString
  rw [bind_eq_ok]
  cases object.get key with
  | none => simp [okOr]
  | some v => simp [okOr_eq_ok]

namespace Projection

variable {R : ProjectionRuntime} {db db' : Projection} {item : Json} {record : String}

theorem named_eq_ok {κ ρ : Type} [DecidableEq κ] {S : Schema κ ρ} {t : Table S} {name : κ} {u : Unit} :
    named t name = .ok u ↔ ∃ r, t.get? name = some r := by
  rw [named, require_eq_ok, Option.isSome_iff_exists]

theorem recordKey_eq_ok {r : VerifiedV2Record} {rid : String} (h : db.recordKey r = .ok rid) :
    rid = r.record.envelope.recordId := by
  obtain ⟨_, _, h⟩ := bind_eq_ok.mp h
  cases h
  rfl

theorem content_eq_ok {time size : Nat} {name : String}
    (h : db.content item record time size = .ok (db', name)) :
    optionalString item "object_id" = some name ∧
      db' = { db with contentObjects := db'.contentObjects } := by
  obtain ⟨name', hname, h⟩ := bind_eq_ok.mp h
  obtain ⟨hash, _, h⟩ := bind_eq_ok.mp h
  obtain ⟨_, _, h⟩ := bind_eq_ok.mp h
  obtain ⟨digest, _, h⟩ := bind_eq_ok.mp h
  obtain ⟨_, _, h⟩ := bind_eq_ok.mp h
  obtain ⟨stored, _, h⟩ := bind_eq_ok.mp h
  obtain ⟨_, _, h⟩ := bind_eq_ok.mp h
  obtain ⟨_, _, h⟩ := bind_eq_ok.mp h
  obtain ⟨_, _, h⟩ := bind_eq_ok.mp h
  cases h
  exact ⟨string_eq_ok.mp hname, rfl⟩

/-- The row a File is written from: what `excluded` stands for in the upsert. -/
structure FileWrite (R : ProjectionRuntime) (item : Json) (record : String)
    (content external : Option String) (state : IdentityState) (row : FileObjectRow) : Prop where
  collectionId : optionalString item "collection_id" = some row.collectionId
  path : ∃ logical, pathValue R item "logical_path" = .ok (logical, row.path)
  canonicalId : optionalString item "file_ref_id" = some row.canonicalId
  content : row.content = content
  external : row.external = external
  identityState : row.identityState = state
  active : row.active = true
  lastRecord : row.lastRecord = record

theorem file_eq_ok {content external : Option String} {state : IdentityState} {name : String}
    (h : db.file R item record content external state = .ok (db', name)) :
    ∃ row files, FileWrite R item record content external state row ∧ name = row.canonicalId ∧
      db.fileObjects.upsert? row (fun old => old.updated row) = some files ∧
      db' = { db with fileObjects := files } := by
  obtain ⟨collectionId, hcollection, h⟩ := bind_eq_ok.mp h
  obtain ⟨_, _, h⟩ := bind_eq_ok.mp h
  obtain ⟨⟨logical, path⟩, hpath, h⟩ := bind_eq_ok.mp h
  obtain ⟨name', hname, h⟩ := bind_eq_ok.mp h
  obtain ⟨modifiedTime, _, h⟩ := bind_eq_ok.mp h
  obtain ⟨size, _, h⟩ := bind_eq_ok.mp h
  obtain ⟨files, hfiles, h⟩ := bind_eq_ok.mp h
  cases h
  exact ⟨_, files, ⟨string_eq_ok.mp hcollection, ⟨logical, hpath⟩, string_eq_ok.mp hname, rfl, rfl,
    rfl, rfl, rfl⟩, rfl, statement_eq_ok.mp hfiles, rfl⟩

theorem binding_eq_ok {fileId locationId : String} {time : Nat} {content external : Option String}
    {presence preserve : Bool} {bound : BindingKey}
    (h : db.binding item fileId locationId record time content external presence preserve
      = .ok (db', bound)) :
    bound = (fileId, locationId) ∧ ∃ row : FileLocationRow, row.binding = bound ∧
      row.presence = presence ∧
      db' = { db with fileLocations :=
        db.fileLocations.upsert row fun old => old.updated row preserve } := by
  obtain ⟨_, _, h⟩ := bind_eq_ok.mp h
  obtain ⟨size, _, h⟩ := bind_eq_ok.mp h
  obtain ⟨modifiedTime, _, h⟩ := bind_eq_ok.mp h
  cases h
  exact ⟨rfl, _, rfl, rfl, rfl⟩

/-- The row a Copy is written from. -/
structure CopyWrite (R : ProjectionRuntime) (db : Projection) (item : Json) (binding : BindingKey)
    (locationId name record : String) (state basis : String) (row : CopyBindingRow) : Prop where
  canonicalId : row.canonicalId = name
  owner : row.owner = binding
  locationId : row.locationId = locationId
  path : ∃ copy path, pathValue R item "copy_path" = .ok (copy, path) ∧ row.pathKey = pathKey R path ∧
    ∃ file, db.fileOf binding = some file ∧
      row.locator = if file.path = path then none else some path
  state : CopyState.ofStr? state = some row.state
  basis : ClaimBasis.ofStr? basis = some row.basis
  stateRecord : row.stateRecord = record

theorem copy_eq_ok {bound : BindingKey} {locationId name : String} {content external : Option String}
    {state basis : String} {check : Option Nat} {integrity : Integrity} {name' : String}
    (h : db.copy R item bound locationId name record content external state basis check integrity
      = .ok (db', name')) :
    name' = name ∧ ∃ row copies copy path, CopyWrite R db item bound locationId name record state basis row ∧
      pathValue R item "copy_path" = .ok (copy, path) ∧
      ¬ (db.copyBindings.rows.any (db.occupies R locationId name path) ∧ basis = "source_metadata") ∧
      (db.supersede (db.occupies R locationId name path) record).upsert? row
        (fun old => old.updated row) (fun old => old.updated_canonicalId row) = some copies ∧
      db' = { db with copyBindings := copies }.setCopy bound name := by
  obtain ⟨⟨copy, path⟩, hpath, h⟩ := bind_eq_ok.mp h
  obtain ⟨_, _, h⟩ := bind_eq_ok.mp h
  obtain ⟨owner, howner, h⟩ := bind_eq_ok.mp h
  obtain ⟨_, hocc, h⟩ := bind_eq_ok.mp h
  obtain ⟨copyState, hstate, h⟩ := bind_eq_ok.mp h
  obtain ⟨claimBasis, hbasis, h⟩ := bind_eq_ok.mp h
  obtain ⟨copies, hcopies, h⟩ := bind_eq_ok.mp h
  cases h
  exact ⟨rfl, _, copies, copy, path,
    ⟨rfl, rfl, rfl, ⟨copy, path, hpath, rfl, owner, statement_eq_ok.mp howner, rfl⟩,
      statement_eq_ok.mp hstate, statement_eq_ok.mp hbasis, rfl⟩,
    hpath, require_eq_ok.mp hocc, statement_eq_ok.mp hcopies, rfl⟩

/-- The tables of Copies, file locations and checks after a Copy was written. -/
theorem copy_frame {bound : BindingKey} {locationId name : String} {content external : Option String}
    {state basis : String} {check : Option Nat} {integrity : Integrity} {name' : String}
    (h : db.copy R item bound locationId name record content external state basis check integrity
      = .ok (db', name')) :
    db' = { db with copyBindings := db'.copyBindings, fileLocations := db'.fileLocations } := by
  obtain ⟨_, row, copies, copy, path, _, _, _, _, rfl⟩ := copy_eq_ok h
  rfl

theorem observeExternal_eq_ok {objectId : String} {external : Option String}
    (h : db.observeExternal item record objectId = .ok (db', external)) :
    db' = { db with sourceIdentities := db'.sourceIdentities } := by
  unfold observeExternal at h
  split at h
  · cases h; rfl
  · obtain ⟨_, _, h⟩ := bind_eq_ok.mp h
    cases h
    rfl

/-! ### The identity of a File -/

/-- A recorded conflict is the only change. -/
theorem insertFileIdentityConflict_eq_ok {collectionId : String} {path : StoredPath}
    {existing observed : RecordDot}
    (h : db.insertFileIdentityConflict R collectionId path existing observed = .ok db') :
    db' = { db with factConflicts := db'.factConflicts } ∧
      (0 < existing.originSeq → 0 < observed.originSeq → db'.factConflicts =
        db.factConflicts.insertOrIgnore (fileIdentityConflict R collectionId path existing observed)) := by
  obtain ⟨_, _, h⟩ := bind_eq_ok.mp h
  obtain ⟨_, _, h⟩ := bind_eq_ok.mp h
  cases h
  refine ⟨rfl, fun he ho => if_pos ?_⟩
  simp only [fileIdentityConflict]
  split
  · exact ⟨he, ho⟩
  · exact ⟨ho, he⟩

/-- The verdict on an observation and what it rests on. -/
inductive Judged (R : ProjectionRuntime) (db : Projection) (record : VerifiedV2Record)
    (frontiers : FrontierMap) (collectionId : String) (path : StoredPath) (objectId : String) :
    Option FileObjectRow → Projection → Bool → Prop where
  | fresh : Judged R db record frontiers collectionId path objectId none db false
  | sticky {file} (h : file.identityState = .conflict) :
      Judged R db record frontiers collectionId path objectId (some file) db true
  | agrees {file} (h : file.identityState ≠ .conflict) (hc : ∀ c, file.content = some c → c = objectId) :
      Judged R db record frontiers collectionId path objectId (some file) db false
  | follows {file old frontier c} (h : file.identityState ≠ .conflict) (hc : file.content = some c)
      (hne : c ≠ objectId) (hold : db.records.get? file.lastRecord = some old)
      (hfrontier : frontiers.get? record.causalFrontierHash = some frontier)
      (hdot : frontier.includesDot old.originId old.originSeq = true) :
      Judged R db record frontiers collectionId path objectId (some file) db false
  | contradicts {file old frontier db' c} (h : file.identityState ≠ .conflict)
      (hc : file.content = some c) (hne : c ≠ objectId)
      (hold : db.records.get? file.lastRecord = some old)
      (hfrontier : frontiers.get? record.causalFrontierHash = some frontier)
      (hdot : frontier.includesDot old.originId old.originSeq = false)
      (hinsert : db.insertFileIdentityConflict R collectionId path old.dot record.dot = .ok db') :
      Judged R db record frontiers collectionId path objectId (some file) db' true

theorem contentConflict_eq_ok {r : VerifiedV2Record} {frontiers : FrontierMap} {collectionId : String}
    {path : StoredPath} {objectId : String} {existing : Option FileObjectRow} {conflict : Bool}
    (h : db.contentConflict R r frontiers collectionId path objectId existing = .ok (db', conflict)) :
    Judged R db r frontiers collectionId path objectId existing db' conflict := by
  cases existing with
  | none =>
    cases h
    exact .fresh
  | some file =>
    rw [contentConflict] at h
    split at h
    · rename_i hs
      cases h
      exact .sticky hs
    rename_i hs
    split at h
    · rename_i hc
      cases h
      refine .agrees hs fun c hfc => ?_
      simpa [hfc] using hc
    · rename_i hc
      obtain ⟨c, hfc, hne⟩ : ∃ c, file.content = some c ∧ c ≠ objectId := by
        cases hfc : file.content with
        | none => simp [hfc] at hc
        | some c => exact ⟨c, rfl, by simpa [hfc] using hc⟩
      obtain ⟨old, hold, h⟩ := bind_eq_ok.mp h
      obtain ⟨frontier, hfrontier, h⟩ := bind_eq_ok.mp h
      have hold := statement_eq_ok.mp hold
      have hfrontier := okOr_eq_ok.mp hfrontier
      split at h
      · rename_i hdot
        cases h
        exact .follows hs hfc hne hold hfrontier hdot
      · rename_i hdot
        obtain ⟨db'', hinsert, h⟩ := bind_eq_ok.mp h
        cases h
        exact .contradicts hs hfc hne hold hfrontier (by simpa using hdot) hinsert

theorem Judged.frame {r : VerifiedV2Record} {frontiers : FrontierMap} {collectionId : String}
    {path : StoredPath} {objectId : String} {existing : Option FileObjectRow} {conflict : Bool}
    (h : Judged R db r frontiers collectionId path objectId existing db' conflict) :
    db' = { db with factConflicts := db'.factConflicts } := by
  cases h with
  | contradicts _ _ _ _ _ _ hinsert => exact (insertFileIdentityConflict_eq_ok hinsert).1
  | _ => rfl

theorem observeFile_eq_ok {r : VerifiedV2Record} {frontiers : FrontierMap} {objectId : String}
    {external : Option String} {name : String}
    (h : db.observeFile R item r frontiers objectId external = .ok (db', name)) :
    ∃ row files db₁ conflict,
      FileWrite R item r.record.envelope.recordId (if conflict then none else some objectId) external
        (if conflict then .conflict else .resolved) row ∧
      name = row.canonicalId ∧
      (∀ file, db.activeFile row.collectionId row.path = some file →
        file.canonicalId = row.canonicalId) ∧
      Judged R db r frontiers row.collectionId row.path objectId
        (db.activeFile row.collectionId row.path) db₁ conflict ∧
      db₁.fileObjects.upsert? row (fun old => old.updated row) = some files ∧
      db' = { db₁ with fileObjects := files } := by
  obtain ⟨collectionId, hcollection, h⟩ := bind_eq_ok.mp h
  obtain ⟨⟨logical, path⟩, hpath, h⟩ := bind_eq_ok.mp h
  obtain ⟨_, hstable, h⟩ := bind_eq_ok.mp h
  obtain ⟨⟨db₁, conflict⟩, hjudged, h⟩ := bind_eq_ok.mp h
  obtain ⟨row, files, hwrite, hname, hfiles, hdb⟩ := file_eq_ok h
  have hcollection := string_eq_ok.mp hcollection
  obtain ⟨logical', hpath'⟩ := hwrite.path
  rw [hpath] at hpath'
  cases hpath'
  rw [hwrite.collectionId] at hcollection
  cases hcollection
  refine ⟨row, files, db₁, conflict, hwrite, hname, ?_, contentConflict_eq_ok hjudged, hfiles, hdb⟩
  intro file hfile
  have := require_eq_ok.mp hstable
  rw [hfile] at this
  simpa [hwrite.canonicalId] using this

end Projection

end ArchiveLedger
