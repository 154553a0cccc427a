import ArchiveLedger.Projection.Occupants
import ArchiveLedger.Projection.Tracking

/-!
# When an observation can be applied

An observation that was applied in one state is applied in another one that knows the
same registry, agrees with it on the objects and Files the observation names
(`Extends`), and has room for the Copy (`content_ready`).  What the states know of
other Files does not matter.
-/

namespace ArchiveLedger

open Relational Outcome Transition Tracker Occupancy

/-! ### States that know the same -/

/-- The rows that observations refer to and do not add. -/
structure SameEntities (db db' : Projection) : Prop where
  collections : db'.collections = db.collections
  locations : db'.locations = db.locations
  identities : ∀ id, (db'.sourceIdentities.get? id).isSome = (db.sourceIdentities.get? id).isSome

/-- What a state knows of objects and Files, the other knows too. -/
structure Extends (db db' : Projection) : Prop extends SameEntities db db' where
  objects : ∀ id row, db.contentObjects.get? id = some row →
    ∃ row', db'.contentObjects.get? id = some row' ∧ row'.sizeBytes = row.sizeBytes
  files : ∀ id file, db.fileObjects.get? id = some file →
    ∃ file', db'.fileObjects.get? id = some file' ∧ file'.at = file.at ∧ (file.active = true → file'.active = true)

section

variable {a b c : Projection}

theorem SameEntities.symm (h : SameEntities a b) : SameEntities b a :=
  ⟨h.collections.symm, h.locations.symm, fun id => (h.identities id).symm⟩

theorem SameEntities.trans (h : SameEntities a b) (g : SameEntities b c) : SameEntities a c :=
  ⟨g.collections.trans h.collections, g.locations.trans h.locations,
    fun id => (g.identities id).trans (h.identities id)⟩

theorem Extends.refl (a : Projection) : Extends a a where
  collections := rfl
  locations := rfl
  identities _ := rfl
  objects _ row h := ⟨row, h, rfl⟩
  files _ file h := ⟨file, h, rfl, id⟩

theorem Extends.trans (h : Extends a b) (g : Extends b c) : Extends a c where
  toSameEntities := h.toSameEntities.trans g.toSameEntities
  objects id row hrow := by
    obtain ⟨row', hrow', hsize⟩ := h.objects id row hrow
    obtain ⟨row'', hrow'', hsize'⟩ := g.objects id row' hrow'
    exact ⟨row'', hrow'', hsize'.trans hsize⟩
  files id file hfile := by
    obtain ⟨file', hfile', hat, hactive⟩ := h.files id file hfile
    obtain ⟨file'', hfile'', hat', hactive'⟩ := g.files id file' hfile'
    exact ⟨file'', hfile'', hat'.trans hat, hactive' ∘ hactive⟩

end

namespace Projection

variable {R : ProjectionRuntime} {item : Json} {record : String} {d d' e : Projection}

/-! ### The steps of an observation -/

theorem content_stored {time size : Nat} {name : String}
    (h : d.content item record time size = .ok (d', name)) :
    (∃ row, d'.contentObjects.get? name = some row ∧ row.sizeBytes = size) ∧
      ∀ id, d'.contentObjects.get? id = d.contentObjects.get? id ∨ id = name ∧ d.contentObjects.get? id = none := by
  obtain ⟨name', _, h⟩ := bind_eq_ok.mp h
  obtain ⟨hash, _, h⟩ := bind_eq_ok.mp h
  obtain ⟨_, _, h⟩ := bind_eq_ok.mp h
  obtain ⟨digest, _, h⟩ := bind_eq_ok.mp h
  obtain ⟨_, _, h⟩ := bind_eq_ok.mp h
  obtain ⟨stored, hstored, h⟩ := bind_eq_ok.mp h
  obtain ⟨_, hsize, h⟩ := bind_eq_ok.mp h
  obtain ⟨_, _, h⟩ := bind_eq_ok.mp h
  obtain ⟨_, _, h⟩ := bind_eq_ok.mp h
  cases h
  refine ⟨⟨stored, statement_eq_ok.mp hstored, require_eq_ok.mp hsize⟩, fun id => ?_⟩
  show (d.contentObjects.insertOrIgnore _).get? id = _ ∨ _
  rw [Table.get?_insertOrIgnore fun _ _ => rfl]
  split
  · rename_i hid
    cases hg : d.contentObjects.get? id with
    | none => exact Or.inr ⟨hid.symm, rfl⟩
    | some row => exact Or.inl rfl
  · exact Or.inl rfl

theorem content_ready {time size : Nat} {name : String}
    (h : d.content item record time size = .ok (d', name))
    (hsame : ∀ row, e.contentObjects.get? name = some row → row.sizeBytes = size) :
    ∃ e', e.content item record time size = .ok (e', name) := by
  obtain ⟨name', hname, h⟩ := bind_eq_ok.mp h
  obtain ⟨hash, hhash, h⟩ := bind_eq_ok.mp h
  obtain ⟨_, hagree, h⟩ := bind_eq_ok.mp h
  obtain ⟨digest, hdigest, h⟩ := bind_eq_ok.mp h
  obtain ⟨_, hlength, h⟩ := bind_eq_ok.mp h
  obtain ⟨_, _, h⟩ := bind_eq_ok.mp h
  obtain ⟨_, _, h⟩ := bind_eq_ok.mp h
  obtain ⟨_, hsha256, h⟩ := bind_eq_ok.mp h
  obtain ⟨_, hsha512, h⟩ := bind_eq_ok.mp h
  cases h
  let row : ContentObjectRow := ⟨name, size, optionalString item "extension_hint", record, time⟩
  have hstored : (e.contentObjects.insertOrIgnore row).get? name
      = some ((e.contentObjects.get? name).getD row) := by
    rw [Table.get?_insertOrIgnore fun _ _ => rfl]
    exact if_pos rfl
  have hsize : ((e.contentObjects.get? name).getD row).sizeBytes = size := by
    cases hg : e.contentObjects.get? name with
    | none => rfl
    | some old => exact hsame old hg
  refine ⟨{ e with contentObjects := e.contentObjects.insertOrIgnore row }, ?_⟩
  refine bind_eq_ok.mpr ⟨name, hname, bind_eq_ok.mpr ⟨hash, hhash, bind_eq_ok.mpr ⟨_, hagree, ?_⟩⟩⟩
  refine bind_eq_ok.mpr ⟨digest, hdigest, bind_eq_ok.mpr ⟨_, hlength, ?_⟩⟩
  refine bind_eq_ok.mpr ⟨_, statement_eq_ok.mpr hstored, bind_eq_ok.mpr ⟨(), require_eq_ok.mpr hsize, ?_⟩⟩
  exact bind_eq_ok.mpr ⟨_, hsha256, bind_eq_ok.mpr ⟨_, hsha512, rfl⟩⟩

theorem observeExternal_identities {objectId : String} {external : Option String}
    (h : d.observeExternal item record objectId = .ok (d', external)) (id : String) :
    (d'.sourceIdentities.get? id).isSome = (d.sourceIdentities.get? id).isSome := by
  unfold observeExternal at h
  split at h
  · cases h
    rfl
  · obtain ⟨_, _, h⟩ := bind_eq_ok.mp h
    cases h
    rw [Table.get?_modify, Option.isSome_map]

theorem observeExternal_ready {objectId : String} {external : Option String}
    (h : d.observeExternal item record objectId = .ok (d', external))
    (hsame : ∀ id, (e.sourceIdentities.get? id).isSome = (d.sourceIdentities.get? id).isSome) :
    ∃ e', e.observeExternal item record objectId = .ok (e', external) := by
  unfold observeExternal at h ⊢
  split at h
  · cases h
    exact ⟨e, rfl⟩
  · rename_i name _
    obtain ⟨_, hnamed, h⟩ := bind_eq_ok.mp h
    cases h
    refine ⟨_, bind_eq_ok.mpr ⟨(), ?_, rfl⟩⟩
    rw [named, require_eq_ok, hsame]
    exact require_eq_ok.mp hnamed

theorem file_ready {content content' external external' : Option String} {state state' : IdentityState}
    {name : String} (h : d.file R item record content external state = .ok (d', name))
    (hcollections : e.collections = d.collections)
    (hfiles : ∀ row, FileWrite R item record content' external' state' row →
      ∃ files, e.fileObjects.upsert? row (fun old => old.updated row) = some files) :
    ∃ e', e.file R item record content' external' state' = .ok (e', name) := by
  obtain ⟨collectionId, hcollection, h⟩ := bind_eq_ok.mp h
  obtain ⟨_, hnamed, h⟩ := bind_eq_ok.mp h
  obtain ⟨⟨logical, path⟩, hpath, h⟩ := bind_eq_ok.mp h
  obtain ⟨name', hname, h⟩ := bind_eq_ok.mp h
  obtain ⟨modifiedTime, htime, h⟩ := bind_eq_ok.mp h
  obtain ⟨size, hsize, h⟩ := bind_eq_ok.mp h
  obtain ⟨files, _, h⟩ := bind_eq_ok.mp h
  cases h
  obtain ⟨files, hfiles⟩ := hfiles
    { canonicalId := name
      collectionId := collectionId
      path := path
      pathDisplay := sparseDisplay logical path
      content := content'
      external := external'
      identityState := state'
      active := true
      modifiedTime := modifiedTime
      observedSize := size
      firstRecord := record
      lastRecord := record
      removedRecord := none }
    ⟨string_eq_ok.mp hcollection, ⟨logical, hpath⟩, string_eq_ok.mp hname, rfl, rfl, rfl, rfl, rfl⟩
  rw [← hcollections] at hnamed
  refine ⟨{ e with fileObjects := files }, ?_⟩
  refine bind_eq_ok.mpr ⟨collectionId, hcollection, bind_eq_ok.mpr ⟨(), hnamed, ?_⟩⟩
  refine bind_eq_ok.mpr ⟨_, hpath, bind_eq_ok.mpr ⟨name, hname, ?_⟩⟩
  refine bind_eq_ok.mpr ⟨_, htime, bind_eq_ok.mpr ⟨_, hsize, ?_⟩⟩
  exact bind_eq_ok.mpr ⟨files, statement_eq_ok.mpr hfiles, rfl⟩

theorem observeFile_ready {o : Observation} {frontiers : FrontierMap} {objectId : String}
    {external : Option String} {name : String}
    (h : d.observeFile R o.item o.record frontiers objectId external = .ok (d', name))
    (hcollections : e.collections = d.collections)
    (hstable : ∀ k file, o.logicalPath R = some k → e.activeFile k.1 k.2 = some file → o.fileRef = some file.canonicalId)
    (hjudged : ∀ k, o.logicalPath R = some k → ∃ e₁ conflict,
      e.contentConflict R o.record frontiers k.1 k.2 objectId (e.activeFile k.1 k.2) = .ok (e₁, conflict))
    (hfiles : ∀ row, o.logicalPath R = some row.at → o.fileRef = some row.canonicalId → row.active = true →
      ∃ files, e.fileObjects.upsert? row (fun old => old.updated row) = some files) :
    ∃ e', e.observeFile R o.item o.record frontiers objectId external = .ok (e', name) := by
  obtain ⟨collectionId, hcollection, h⟩ := bind_eq_ok.mp h
  obtain ⟨⟨logical, path⟩, hpath, h⟩ := bind_eq_ok.mp h
  obtain ⟨_, _, h⟩ := bind_eq_ok.mp h
  obtain ⟨⟨d₁, conflict⟩, hconflict, h⟩ := bind_eq_ok.mp h
  have hk : o.logicalPath R = some (collectionId, path) := by
    simp only [Observation.logicalPath, string_eq_ok.mp hcollection, hpath]
  obtain ⟨e₁, conflict', hconflict'⟩ := hjudged _ hk
  have hframe := (contentConflict_eq_ok hconflict).frame
  have hframe' := (contentConflict_eq_ok hconflict').frame
  have hfile : ∃ e', e₁.file R o.item o.record.record.envelope.recordId
      (if conflict' then none else some objectId) external (if conflict' then .conflict else .resolved)
        = .ok (e', name) := by
    refine file_ready h ?_ fun row hwrite => ?_
    · rw [hframe, hframe']
      exact hcollections
    · rw [hframe']
      refine hfiles row ?_ hwrite.canonicalId hwrite.active
      obtain ⟨logical', hpath'⟩ := hwrite.path
      simp only [Observation.logicalPath, hwrite.collectionId, hpath', FileObjectRow.at]
  obtain ⟨e', he'⟩ := hfile
  refine ⟨e', bind_eq_ok.mpr ⟨collectionId, hcollection, bind_eq_ok.mpr ⟨_, hpath, ?_⟩⟩⟩
  refine bind_eq_ok.mpr ⟨(), require_eq_ok.mpr ?_, bind_eq_ok.mpr ⟨_, hconflict', he'⟩⟩
  rw [Option.all_eq_true]
  intro file hactive
  have href : optionalString o.item "file_ref_id" = some file.canonicalId := hstable _ file hk hactive
  rw [href, Option.getD_some]
  exact decide_eq_true rfl

theorem binding_ready {fileId locationId : String} {time : Nat} {content content' external external' : Option String}
    {presence preserve : Bool} {bound : BindingKey}
    (h : d.binding item fileId locationId record time content external presence preserve = .ok (d', bound))
    (hlocations : e.locations = d.locations) :
    ∃ e', e.binding item fileId locationId record time content' external' presence preserve = .ok (e', bound) := by
  obtain ⟨_, hnamed, h⟩ := bind_eq_ok.mp h
  obtain ⟨size, hsize, h⟩ := bind_eq_ok.mp h
  obtain ⟨modifiedTime, htime, h⟩ := bind_eq_ok.mp h
  cases h
  refine ⟨_, bind_eq_ok.mpr ⟨(), ?_, bind_eq_ok.mpr ⟨_, hsize, bind_eq_ok.mpr ⟨_, htime, rfl⟩⟩⟩⟩
  rw [hlocations]
  exact hnamed

/-! ### Room for a Copy -/

/-- A Copy that is not observed away from a place that is taken is written. -/
theorem copy_ready {bound : BindingKey} {location name : String} {content external : Option String}
    {check : Option Nat} {integrity : Integrity} {copy : RegistryPath} {path : StoredPath}
    {P : StoredPath → Prop} (hP : ∀ p q, P p → P q → pathKey R p = pathKey R q → p = q)
    (hseats : ∀ id place active, e.seating id = some (place, active) → P place.2) (hp : P path)
    (hpath : pathValue R item "copy_path" = .ok (copy, path))
    (hlocation : ∃ row, e.locations.get? location = some row) (howner : ∃ file, e.fileOf bound = some file)
    (hk : Keyed R e) (hroom : ¬ Crowded e.seating ((location, path), name)) :
    ∃ e', e.copy R item bound location name record content external "present" "observed_bytes" check integrity
      = .ok (e', name) := by
  obtain ⟨owner, howner⟩ := howner
  let stated := (optionalString item "verification_result").isSome
  let row : CopyBindingRow :=
    { canonicalId := name
      owner := bound
      locationId := location
      pathKey := pathKey R path
      locator := if owner.path = path then none else some path
      locatorDisplay := if owner.path = path then none else sparseDisplay copy path
      content := content
      external := external
      basis := .observedBytes
      state := .present
      firstRecord := record
      stateRecord := record
      latestPresence := if "present" ∈ ["present", "missing", "corrupt"] then check else none
      latestIntegrity := if integrity ≠ .unverified ∨ stated then check else none
      completeScan := none }
  let occupied := e.occupies R location name path
  have hcopies : ∃ copies, (e.supersede occupied record).upsert? row (fun old => old.updated row)
      (fun old => old.updated_canonicalId row) = some copies := by
    refine Table.exists_upsert?.mpr fun s hs hne => ?_
    -- an active Copy under another id stands at the place of none that is written
    obtain ⟨c, hc, rfl⟩ := List.mem_map.mp hs
    have hcid : c.canonicalId ≠ name := by
      intro he
      refine hne ?_
      show copyBindingSchema.key (if occupied c then _ else c) = name
      split <;> exact he
    have hget : e.copyBindings.get? c.canonicalId = some c := Table.get?_of_mem hc
    obtain ⟨p, hcp, hckey⟩ := hk _ c hget
    by_cases hocc : occupied c = true
    · rw [if_pos hocc]
      simp [copyBindingSchema, CopyBindingRow.active]
    · rw [if_neg hocc]
      by_contra hclash
      have hclash : copyBindingSchema.clash c ((((e.supersede occupied record).get? name).map
          fun old => old.updated row).getD row) = true := Bool.of_not_eq_false hclash
      have hnot : e.seating c.canonicalId ≠ some ((location, path), true) :=
        fun hseat => hocc ((occupies_iff hk hget).mpr ⟨hcid, hseat⟩)
      have hsup : (e.supersede occupied record).get? name = e.copyBindings.get? name := by
        refine (Table.get?_modify _ _ _ _ _ _).trans ?_
        cases hn : e.copyBindings.get? name with
        | none => rfl
        | some old =>
          have hid : old.canonicalId = name := Table.key_of_get? hn
          have hfree : occupied old = false := by simp [occupied, occupies, hid]
          simp [hfree]
      rw [hsup] at hclash
      obtain ⟨hboth, hat⟩ := Bool.and_eq_true_iff.mp hclash
      have hactive : c.active = true := (Bool.and_eq_true_iff.mp hboth).1
      have hat := of_decide_eq_true hat
      have hseatc := seating_of_get? hget hcp
      rw [hactive] at hseatc
      cases hn : e.copyBindings.get? name with
      | none =>
        rw [hn] at hat
        obtain ⟨hl, hkey⟩ := Prod.ext_iff.mp hat
        have hpp : p = path := hP _ _ (hseats _ _ _ hseatc) hp (hckey.symm.trans hkey)
        subst hpp
        exact hnot (by rw [hseatc, show c.locationId = location from hl])
      | some old =>
        obtain ⟨q, hq, hqkey⟩ := hk name old hn
        have hseatold := seating_of_get? hn hq
        rw [hn, Option.map_some, Option.getD_some] at hat
        have hsame := updated_samePlace old row
        obtain ⟨hl, hkey⟩ := Prod.ext_iff.mp hat
        have hl : c.locationId = old.locationId := hl.trans hsame.locationId
        have hkey : c.pathKey = old.pathKey := hkey.trans hsame.pathKey
        have hpp : p = q := hP _ _ (hseats _ _ _ hseatc) (hseats _ _ _ hseatold)
          (hckey.symm.trans (hkey.trans hqkey))
        subst hpp
        refine hroom ⟨(old.locationId, p), old.active, c.canonicalId, hseatold, ?_, hcid, ?_⟩
        · intro he
          rw [hl, he] at hseatc
          exact hnot hseatc
        · rw [hseatc, hl]
  obtain ⟨copies, hcopies⟩ := hcopies
  refine ⟨({ e with copyBindings := copies } : Projection).setCopy bound name, ?_⟩
  refine bind_eq_ok.mpr ⟨_, hpath, bind_eq_ok.mpr ⟨(), named_eq_ok.mpr hlocation, ?_⟩⟩
  refine bind_eq_ok.mpr ⟨owner, statement_eq_ok.mpr howner, ?_⟩
  refine bind_eq_ok.mpr ⟨(), require_eq_ok.mpr (by simp), ?_⟩
  refine bind_eq_ok.mpr ⟨.present, rfl, bind_eq_ok.mpr ⟨.observedBytes, rfl, ?_⟩⟩
  exact bind_eq_ok.mpr ⟨copies, statement_eq_ok.mpr hcopies, rfl⟩

end Projection

/-! ### One observation -/

/-- An observation was applied, and a later state knows its object and its File. -/
structure Accepted (R : ProjectionRuntime) (frontiers : FrontierMap) (F : Projection) (o : Observation) : Prop where
  run : ∃ d d', d.projectContentObserved R o.item o.record frontiers = .ok d' ∧ SameEntities d F
  object : ∀ name size, optionalString o.item "object_id" = some name →
    number o.item "size_bytes" = .ok size → ∃ row, F.contentObjects.get? name = some row ∧ row.sizeBytes = size
  file : ∃ id file, o.fileRef = some id ∧ F.fileObjects.get? id = some file ∧
    o.logicalPath R = some file.at ∧ file.active = true

/-- The physical paths of an item and of the Copies have keys of their own. -/
structure KeysApart (R : ProjectionRuntime) (P : StoredPath → Prop) (db : Projection) : Prop where
  apart : ∀ p q, P p → P q → Projection.pathKey R p = Projection.pathKey R q → p = q
  seats : ∀ id place active, db.seating id = some (place, active) → P place.2

section

variable {R : ProjectionRuntime} {frontiers : FrontierMap} {F d d' e : Projection} {o : Observation}
  {P : StoredPath → Prop}

theorem Accepted.mono {F' : Projection} (h : Accepted R frontiers F o) (hF : Extends F F') :
    Accepted R frontiers F' o where
  run := by
    obtain ⟨d, d', hd, hsame⟩ := h.run
    exact ⟨d, d', hd, hsame.trans hF.toSameEntities⟩
  object name size hname hsize := by
    obtain ⟨row, hrow, he⟩ := h.object name size hname hsize
    obtain ⟨row', hrow', he'⟩ := hF.objects name row hrow
    exact ⟨row', hrow', he'.trans he⟩
  file := by
    obtain ⟨id, file, hid, hfile, hk, hactive⟩ := h.file
    obtain ⟨file', hfile', hat, hactive'⟩ := hF.files id file hfile
    exact ⟨id, file', hid, hfile', hk.trans (congrArg some hat.symm), hactive' hactive⟩

/-- The active File of the path of an accepted observation has the id it names. -/
theorem Accepted.stable (h : Accepted R frontiers F o) (he : Extends e F) {file : FileObjectRow}
    (hfile : file ∈ e.fileObjects.rows) (hactive : file.active = true)
    (hk : o.logicalPath R = some file.at) : o.fileRef = some file.canonicalId := by
  obtain ⟨id, own, hid, hown, hown_at, hown_active⟩ := h.file
  obtain ⟨file', hfile', hat, hactive'⟩ := he.files _ file (Table.get?_of_mem hfile)
  have hsame : file' = own := by
    refine Table.eq_of_clash (Table.mem_of_get? hfile') (Table.mem_of_get? hown) ?_
    have hpath : file'.at = own.at := hat.trans (Option.some.inj (hk.symm.trans hown_at))
    simp [fileObjectSchema, hactive' hactive, hown_active, hpath]
  have hid' : file'.canonicalId = file.canonicalId := Table.key_of_get? hfile'
  have hown_id : own.canonicalId = id := Table.key_of_get? hown
  rw [hid, ← hown_id, ← hsame, hid']

/-- The object and the File of an observation that was applied. -/
structure Written (R : ProjectionRuntime) (d : Projection) (o : Observation) (d' : Projection)
    (name : String) (size : Nat) (row : FileObjectRow) : Prop where
  registry : SameEntities d d'
  outcomes : d'.operationOutcomes = d.operationOutcomes
  runs : d'.batchRuns = d.batchRuns
  object : optionalString o.item "object_id" = some name
  sizeBytes : number o.item "size_bytes" = .ok size
  stored : ∃ content, d'.contentObjects.get? name = some content ∧ content.sizeBytes = size
  objects : ∀ id, d'.contentObjects.get? id = d.contentObjects.get? id ∨
    id = name ∧ d.contentObjects.get? id = none
  fileRef : o.fileRef = some row.canonicalId
  path : o.logicalPath R = some row.at
  active : row.active = true
  files : ∀ id, d'.fileObjects.get? id = if row.canonicalId = id then
    some (((d.fileObjects.get? id).map fun old => old.updated row).getD row) else d.fileObjects.get? id

theorem written_observed (h : d.projectContentObserved R o.item o.record frontiers = .ok d') :
    ∃ name size row, Written R d o d' name size row := by
  obtain ⟨rid, _, h⟩ := bind_eq_ok.mp h
  obtain ⟨_, _, h⟩ := bind_eq_ok.mp h
  obtain ⟨time, _, h⟩ := bind_eq_ok.mp h
  obtain ⟨size, hsize, h⟩ := bind_eq_ok.mp h
  obtain ⟨size', hsize', h⟩ := bind_eq_ok.mp h
  obtain ⟨_, _, h⟩ := bind_eq_ok.mp h
  obtain ⟨⟨d₁, name⟩, hcontent, h⟩ := bind_eq_ok.mp h
  obtain ⟨⟨d₂, external⟩, hexternal, h⟩ := bind_eq_ok.mp h
  obtain ⟨⟨d₃, fileId⟩, hobserve, h⟩ := bind_eq_ok.mp h
  obtain ⟨location, _, h⟩ := bind_eq_ok.mp h
  obtain ⟨⟨d₄, bound⟩, hbinding, h⟩ := bind_eq_ok.mp h
  obtain ⟨copyId, _, h⟩ := bind_eq_ok.mp h
  obtain ⟨⟨d₅, copyName⟩, hcopy, h⟩ := bind_eq_ok.mp h
  cases h
  obtain ⟨-, rfl⟩ := sqlI64_eq_ok.mp hsize'
  obtain ⟨hstored, hobjects⟩ := Projection.content_stored hcontent
  obtain ⟨hobject, h₁⟩ := Projection.content_eq_ok hcontent
  have h₂ := Projection.observeExternal_eq_ok hexternal
  obtain ⟨row, files, dj, conflict, hwrite, -, -, hjudged, hfiles, h₃⟩ := Projection.observeFile_eq_ok hobserve
  have hframe := hjudged.frame
  obtain ⟨-, _, -, -, h₄⟩ := Projection.binding_eq_ok hbinding
  have h₅ := Projection.copy_frame hcopy
  have hidentities := Projection.observeExternal_identities hexternal
  have hbefore : dj.fileObjects = d.fileObjects := by rw [hframe, h₂, h₁]
  have hk : o.logicalPath R = some row.at := by
    obtain ⟨logical, hpath⟩ := hwrite.path
    simp only [Observation.logicalPath, hwrite.collectionId, hpath, FileObjectRow.at]
  refine ⟨name, size', row, ⟨?_, ?_, fun id => ?_⟩, ?_, ?_, hobject, hsize, ?_, fun id => ?_,
    hwrite.canonicalId, hk, hwrite.active, fun id => ?_⟩
  · rw [h₅, h₄, h₃, hframe, h₂, h₁]
  · rw [h₅, h₄, h₃, hframe, h₂, h₁]
  · have hsame : d'.sourceIdentities = d₂.sourceIdentities := by
      rw [h₅, h₄, h₃, hframe]
    rw [hsame, hidentities, h₁]
  · rw [h₅, h₄, h₃, hframe, h₂, h₁]
  · rw [h₅, h₄, h₃, hframe, h₂, h₁]
  · have hsame : d'.contentObjects = d₁.contentObjects := by
      rw [h₅, h₄, h₃, hframe, h₂]
    rw [hsame]
    exact hstored
  · have hsame : d'.contentObjects = d₁.contentObjects := by
      rw [h₅, h₄, h₃, hframe, h₂]
    rw [hsame]
    exact hobjects id
  · have hsame : d'.fileObjects = files := by
      rw [h₅, h₄, h₃]
    rw [hsame, ← hbefore]
    exact Table.get?_upsert? hfiles id

namespace Written

variable {name : String} {size : Nat} {row : FileObjectRow}

theorem extended (h : Written R d o d' name size row) : Extends d d' where
  toSameEntities := h.registry
  objects id content hcontent := by
    rcases h.objects id with he | ⟨-, hn⟩
    · exact ⟨content, he.trans hcontent, rfl⟩
    · rw [hcontent] at hn
      cases hn
  files id file hfile := by
    have hget := h.files id
    by_cases hid : row.canonicalId = id
    · rw [if_pos hid, hfile, Option.map_some, Option.getD_some] at hget
      exact ⟨_, hget, rfl, fun _ => rfl⟩
    · rw [if_neg hid, hfile] at hget
      exact ⟨file, hget, rfl, fun ha => ha⟩

/-- The File afterwards, where no other path had its id. -/
theorem file (h : Written R d o d' name size row)
    (hold : ∀ old, d.fileObjects.get? row.canonicalId = some old → old.at = row.at) :
    ∃ file, d'.fileObjects.get? row.canonicalId = some file ∧ file.at = row.at ∧ file.active = true := by
  have hget := h.files row.canonicalId
  rw [if_pos rfl] at hget
  refine ⟨_, hget, ?_⟩
  cases hd : d.fileObjects.get? row.canonicalId with
  | none => exact ⟨rfl, h.active⟩
  | some old => exact ⟨hold old hd, rfl⟩

theorem accepted (h : Written R d o d' name size row)
    (hrun : d.projectContentObserved R o.item o.record frontiers = .ok d')
    (hold : ∀ old, d.fileObjects.get? row.canonicalId = some old → old.at = row.at) :
    Accepted R frontiers d' o where
  run := ⟨d, d', hrun, h.registry⟩
  object name' size' hname hsize := by
    rw [h.object] at hname
    rw [h.sizeBytes] at hsize
    cases hname
    cases hsize
    exact h.stored
  file := by
    obtain ⟨file, hfile, hat, hactive⟩ := h.file hold
    exact ⟨row.canonicalId, file, h.fileRef, hfile, h.path.trans (congrArg some hat.symm), hactive⟩

/-- A state that knew what was known before, and has accepted the observation, knows what is
known afterwards. -/
theorem extends_of_accepted (h : Written R d o d' name size row)
    (hold : ∀ old, d.fileObjects.get? row.canonicalId = some old → old.at = row.at)
    (he : Extends d F) (ha : Accepted R frontiers F o) : Extends d' F where
  toSameEntities := h.registry.symm.trans he.toSameEntities
  objects id content hcontent := by
    rcases h.objects id with hsame | ⟨rfl, -⟩
    · exact he.objects id content (hsame.symm.trans hcontent)
    · obtain ⟨stored, hstored, hsize⟩ := h.stored
      obtain rfl := Option.some.inj (hstored.symm.trans hcontent)
      obtain ⟨content', hcontent', hsize'⟩ := ha.object _ size h.object h.sizeBytes
      exact ⟨content', hcontent', hsize'.trans hsize.symm⟩
  files id file hfile := by
    by_cases hid : row.canonicalId = id
    · subst hid
      obtain ⟨file', hfile', hat, -⟩ := h.file hold
      obtain rfl := Option.some.inj (hfile'.symm.trans hfile)
      obtain ⟨id', own, hid', hown, hk, hactive⟩ := ha.file
      obtain rfl := Option.some.inj (hid'.symm.trans h.fileRef)
      exact ⟨own, hown, (Option.some.inj (hk.symm.trans h.path)).trans hat.symm, fun _ => hactive⟩
    · have hget := h.files id
      rw [if_neg hid] at hget
      exact he.files id file (hget.symm.trans hfile)

end Written

/-- What a state has to offer an observation besides the File and the object. -/
structure Offers (R : ProjectionRuntime) (frontiers : FrontierMap) (P : StoredPath → Prop) (e : Projection)
    (o : Observation) : Prop where
  record : (e.records.get? o.record.record.envelope.recordId).isSome = true
  /-- The File of an id is at the path of the observation. -/
  old : ∀ id file, o.fileRef = some id → e.fileObjects.get? id = some file → o.logicalPath R = some file.at
  judged : ∀ k objectId e', o.logicalPath R = some k → Projection.SameIdentities e e' → ∃ e₁ conflict,
    e'.contentConflict R o.record frontiers k.1 k.2 objectId (e'.activeFile k.1 k.2) = .ok (e₁, conflict)
  keyed : Projection.Keyed R e
  keys : KeysApart R P e
  path : ∀ copy path, pathValue R o.item "copy_path" = .ok (copy, path) → P path
  room : ∀ at_, observedCopy R o.item = some at_ → ¬ Crowded e.seating at_

/-- The File of an accepted observation is written. -/
theorem Offers.observeFile (hoffers : Offers R frontiers P e o) (ha : Accepted R frontiers F o) (he : Extends e F)
    {e' : Projection} {name fileId : String} {external : Option String}
    (h : d.observeFile R o.item o.record frontiers name external = .ok (d', fileId))
    (hcollections : e'.collections = d.collections) (hsame : Projection.SameIdentities e e') :
    ∃ e₁, e'.observeFile R o.item o.record frontiers name external = .ok (e₁, fileId) := by
  refine Projection.observeFile_ready h hcollections ?_ ?_ ?_
  · intro k file hk hfile
    obtain ⟨hm, hactive, hat⟩ := Projection.activeFile_eq_some.mp hfile
    rw [hsame.files] at hm
    exact ha.stable he hm hactive (hk.trans (congrArg some hat.symm))
  · intro k hk
    exact hoffers.judged k name e' hk hsame
  · intro row hk hid hactive
    rw [hsame.files]
    refine Table.exists_upsert?.mpr fun file hfile hne => ?_
    by_contra hclash
    obtain ⟨hboth, hat⟩ := Bool.and_eq_true_iff.mp (Bool.of_not_eq_false hclash)
    have hfile_active : file.active = true := (Bool.and_eq_true_iff.mp hboth).1
    have hwritten : (((e.fileObjects.get? row.canonicalId).map fun old => old.updated row).getD row).at
        = row.at := by
      cases hold : e.fileObjects.get? row.canonicalId with
      | none => rfl
      | some old => exact Option.some.inj ((hoffers.old _ old hid hold).symm.trans hk)
    have hpath : o.logicalPath R = some file.at :=
      hk.trans (congrArg some ((of_decide_eq_true hat).trans hwritten).symm)
    exact hne (Option.some.inj ((ha.stable he hfile hfile_active hpath).symm.trans hid))

/-- The file location that was written has its File. -/
theorem exists_fileOf {frontiers : FrontierMap} {name fileId location record : String} {time check : Nat}
    {content external external' : Option String} {bound : BindingKey} {presence : Presence} {integrity : Integrity}
    {e₁ e₂ : Projection} (h : e.observeFile R o.item o.record frontiers name external = .ok (e₁, fileId))
    (hbinding : e₁.binding o.item fileId location record time content external' true false = .ok (e₂, bound)) :
    ∃ file, (e₂.appendCheck bound check presence integrity none).1.fileOf bound = some file := by
  obtain ⟨row, files, ej, conflict, -, rfl, -, -, hfiles, rfl⟩ := Projection.observeFile_eq_ok h
  obtain ⟨-, -, hlocated⟩ := Projection.binding_noting hbinding
  obtain ⟨rfl, _, -, -, hframe⟩ := Projection.binding_eq_ok hbinding
  have hobserving : Observing e₂ (e₂.appendCheck (row.canonicalId, location) check presence integrity none).1 :=
    Projection.appendCheck_observing _ check presence integrity none
  have hcheck := hobserving.places
  obtain ⟨p, hp⟩ := Option.isSome_iff_exists.mp (hcheck.locations _ hlocated)
  have hid : p.fileId = row.canonicalId := congrArg Prod.fst (Table.key_of_get? hp)
  have hget := (Table.get?_upsert? hfiles row.canonicalId).trans (if_pos rfl)
  obtain ⟨file, hfile, -⟩ := hcheck.files row.canonicalId _ (by rw [hframe]; exact hget)
  exact ⟨file, by rw [Projection.fileOf, hp, Option.bind_some, hid, hfile]⟩

/-- An accepted observation is applied in a state that has room for it. -/
theorem projectContentObserved_ready (hkind : optionalString o.item "kind" = some "content_observed")
    (ha : Accepted R frontiers F o) (he : Extends e F) (hoffers : Offers R frontiers P e o) :
    ∃ e', e.projectContentObserved R o.item o.record frontiers = .ok e' := by
  obtain ⟨d, d', h, hregistry⟩ := ha.run
  obtain ⟨name, size₀, row, hwritten⟩ := written_observed h
  have hobject := hwritten.object
  have hsizeBytes := hwritten.sizeBytes
  have hregistry : SameEntities d e := hregistry.trans he.toSameEntities.symm
  obtain ⟨rid, hrid, h⟩ := bind_eq_ok.mp h
  obtain ⟨observedTime, hobservedTime, h⟩ := bind_eq_ok.mp h
  obtain ⟨time, htime, h⟩ := bind_eq_ok.mp h
  obtain ⟨size₁, hsize, h⟩ := bind_eq_ok.mp h
  obtain rfl : size₀ = size₁ := Except.ok.inj (hsizeBytes.symm.trans hsize)
  obtain ⟨size, hsql, h⟩ := bind_eq_ok.mp h
  obtain ⟨representation, hrepresentation, h⟩ := bind_eq_ok.mp h
  obtain ⟨⟨d₁, name'⟩, hcontent, h⟩ := bind_eq_ok.mp h
  obtain ⟨⟨d₂, external⟩, hexternal, h⟩ := bind_eq_ok.mp h
  obtain ⟨⟨d₃, fileId⟩, hobserve, h⟩ := bind_eq_ok.mp h
  obtain ⟨location, hlocation, h⟩ := bind_eq_ok.mp h
  obtain ⟨⟨d₄, bound⟩, hbinding, h⟩ := bind_eq_ok.mp h
  obtain ⟨copyId, hcopyId, h⟩ := bind_eq_ok.mp h
  obtain ⟨⟨d₅, copyName⟩, hcopy, h⟩ := bind_eq_ok.mp h
  obtain ⟨hname', h₁⟩ := Projection.content_eq_ok hcontent
  obtain rfl : name = name' := Option.some.inj (hobject.symm.trans hname')
  obtain ⟨-, rfl⟩ := sqlI64_eq_ok.mp hsql
  obtain rfl := Projection.recordKey_eq_ok hrid
  have h₂ := Projection.observeExternal_eq_ok hexternal
  have h₃ := (Projection.observeFile_eq_ok hobserve)
  -- the object has the size that the later state knows
  obtain ⟨e₁, he₁⟩ : ∃ e₁, e.content o.item o.record.record.envelope.recordId time size = .ok (e₁, name) := by
    refine Projection.content_ready hcontent fun content hget => ?_
    obtain ⟨content', hget', hsize'⟩ := he.objects name content hget
    obtain ⟨stored, hstored, hsize''⟩ := ha.object name size hobject hsizeBytes
    obtain rfl := Option.some.inj (hget'.symm.trans hstored)
    exact hsize'.symm.trans hsize''
  have hf₁ := (Projection.content_eq_ok he₁).2
  obtain ⟨e₂, he₂⟩ : ∃ e₂, e₁.observeExternal o.item o.record.record.envelope.recordId name = .ok (e₂, external) := by
    refine Projection.observeExternal_ready hexternal fun id => ?_
    rw [hf₁, h₁]
    exact hregistry.identities id
  have hf₂ := Projection.observeExternal_eq_ok he₂
  have hsame₂ : Projection.SameIdentities e e₂ := by
    rw [hf₂, hf₁]
    exact ⟨rfl, rfl, rfl⟩
  obtain ⟨e₃, he₃⟩ : ∃ e₃, e₂.observeFile R o.item o.record frontiers name external = .ok (e₃, fileId) := by
    refine hoffers.observeFile ha he hobserve ?_ hsame₂
    rw [hf₂, hf₁, h₂, h₁]
    exact hregistry.collections
  have hf₃ : e₃.locations = e₂.locations := by
    obtain ⟨row, files, ej, conflict, -, -, -, hjudged, -, rfl⟩ := Projection.observeFile_eq_ok he₃
    rw [hjudged.frame]
  obtain ⟨e₄, he₄⟩ : ∃ e₄, e₃.binding o.item fileId location o.record.record.envelope.recordId time (some name)
      external true false = .ok (e₄, bound) := by
    refine Projection.binding_ready hbinding ?_
    obtain ⟨row, files, dj, conflict, -, -, -, hjudged, -, rfl⟩ := h₃
    rw [hf₃, hf₂, hf₁, hjudged.frame, h₂, h₁]
    exact hregistry.locations
  have hcheck : Observing e₄ (e₄.appendCheck bound time .present .verified none).1 :=
    Projection.appendCheck_observing bound time .present .verified none
  obtain ⟨hnoting₄, hbound, hlocated⟩ := Projection.binding_noting he₄
  have hobserving := (((Projection.content_noting he₁).trans (Projection.observeExternal_noting he₂)).trans
    ((Projection.observeFile_noting he₃).trans hnoting₄)).toObserving.trans hcheck
  obtain ⟨-, copyRow, copies, copy, path, -, hcopyPath, -, -, -⟩ := Projection.copy_eq_ok hcopy
  have hseating := hobserving.seating hoffers.keyed
  obtain ⟨e₅, he₅⟩ : ∃ e₅, (e₄.appendCheck bound time .present .verified none).1.copy R o.item bound location
      copyId o.record.record.envelope.recordId (some name) external "present" "observed_bytes"
      (some (e₄.appendCheck bound time .present .verified none).2) .verified = .ok (e₅, copyId) := by
    refine Projection.copy_ready hoffers.keys.apart ?_ (hoffers.path copy path hcopyPath) hcopyPath ?_ ?_
      (hobserving.keyed hoffers.keyed) ?_
    · rw [hseating]
      exact hoffers.keys.seats
    · obtain ⟨_, hnamed, -⟩ := bind_eq_ok.mp he₄
      obtain ⟨place, hplace⟩ := Projection.named_eq_ok.mp hnamed
      refine ⟨place, ?_⟩
      obtain ⟨-, _, -, -, hf₄⟩ := Projection.binding_eq_ok he₄
      show e₄.locations.get? location = some place
      rw [hf₄]
      exact hplace
    · exact exists_fileOf he₃ he₄
    · rw [hseating]
      refine hoffers.room ((location, path), copyId) ?_
      rw [observedCopy, if_pos (Or.inl hkind), string_eq_ok.mp hlocation, string_eq_ok.mp hcopyId,
        placedCopy_eq hcopyPath]
  have hrid : e.recordKey o.record = .ok o.record.record.envelope.recordId :=
    bind_eq_ok.mpr ⟨(), require_eq_ok.mpr hoffers.record, rfl⟩
  refine ⟨e₅, bind_eq_ok.mpr ⟨_, hrid, bind_eq_ok.mpr ⟨_, hobservedTime, bind_eq_ok.mpr ⟨_, htime, ?_⟩⟩⟩⟩
  refine bind_eq_ok.mpr ⟨_, hsize, bind_eq_ok.mpr ⟨_, hsql, bind_eq_ok.mpr ⟨_, hrepresentation, ?_⟩⟩⟩
  refine bind_eq_ok.mpr ⟨_, he₁, bind_eq_ok.mpr ⟨_, he₂, bind_eq_ok.mpr ⟨_, he₃, ?_⟩⟩⟩
  refine bind_eq_ok.mpr ⟨_, hlocation, bind_eq_ok.mpr ⟨_, he₄, bind_eq_ok.mpr ⟨_, hcopyId, ?_⟩⟩⟩
  exact bind_eq_ok.mpr ⟨_, he₅, rfl⟩

end

end ArchiveLedger
