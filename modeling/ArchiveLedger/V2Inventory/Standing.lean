import ArchiveLedger.Projection.AnnexSpec
import ArchiveLedger.Projection.Identity
import ArchiveLedger.Projection.Occupants

/-!
# What stands in a projection

No step of the projector deletes a File or a Copy or moves one: a File keeps its Collection and its
path, and a Copy its Location and its path (`Lasts`).  Every File is active, and one with content is
resolved (`FilesSound`).  Each File and each Copy stands where some item says, and the File and the Copy that
an item names are there (`Standing`).
-/

namespace Occupancy

variable {ι π : Type}

/-- An occupant keeps its place. -/
theorem Observed.place [DecidableEq π] {s t : Seating ι π} {place : π} {id : ι}
    {active : Bool} (h : Observed s place id active t) {j : ι} {p : π} {a : Bool} (hj : s j = some (p, a)) :
    ∃ a', t j = some (p, a') := by
  by_cases he : j = id
  · subst he
    have hself := h.self
    rw [hj] at hself
    exact ⟨active, hself⟩
  · have hother := h.others j he
    rw [hj] at hother
    split at hother
    · rename_i hp
      cases hp
      exact ⟨false, hother⟩
    · exact ⟨a, hother⟩

theorem Restated.place {s t : Seating ι π} {ids : ι → Prop} (h : Restated s ids t)
    {j : ι} {p : π} {a : Bool} (hj : s j = some (p, a)) : ∃ a', t j = some (p, a') := by
  by_cases hid : ids j
  · have hrestated := (h j).1 hid
    rw [hj] at hrestated
    exact ⟨true, hrestated⟩
  · have hkept := (h j).2 hid
    rw [hj] at hkept
    exact ⟨a, hkept⟩

/-- An occupant stood at its place, or was observed there. -/
theorem Observed.origin [DecidableEq π] {s t : Seating ι π} {place : π} {id : ι} {active : Bool} (h : Observed s place id active t)
    {j : ι} {p : π} {a : Bool} (hj : t j = some (p, a)) : (∃ a', s j = some (p, a')) ∨ p = place ∧ j = id := by
  by_cases he : j = id
  · have hself := h.self
    rw [← he, hj] at hself
    cases hs : s j with
    | none =>
      rw [hs] at hself
      cases hself
      exact Or.inr ⟨rfl, he⟩
    | some x =>
      rw [hs] at hself
      cases hself
      exact Or.inl ⟨x.2, rfl⟩
  · have hother := h.others j he
    rw [hj] at hother
    split at hother
    · rename_i hs
      cases hother
      exact Or.inl ⟨true, hs⟩
    · exact Or.inl ⟨a, hother.symm⟩

theorem Restated.origin {s t : Seating ι π} {ids : ι → Prop} (h : Restated s ids t)
    {j : ι} {p : π} {a : Bool} (hj : t j = some (p, a)) : ∃ a', s j = some (p, a') := by
  by_cases hid : ids j
  · have hrestated := (h j).1 hid
    rw [hj] at hrestated
    obtain ⟨x, hx, he⟩ := Option.map_eq_some_iff.mp hrestated.symm
    cases he
    exact ⟨x.2, hx⟩
  · have hkept := (h j).2 hid
    rw [hj] at hkept
    exact ⟨a, hkept.symm⟩

end Occupancy

namespace ArchiveLedger

open Relational Outcome Transition Occupancy Projection

/-! ### Files -/

abbrev LogicalPath := String × StoredPath

/-- The File that an item names, and where it says the File stands. -/
def namedFile (R : ProjectionRuntime) (item : Json) : Option (LogicalPath × String) :=
  match optionalString item "collection_id", pathValue R item "logical_path", optionalString item "file_ref_id" with
  | some collectionId, .ok (_, path), some id => some ((collectionId, path), id)
  | _, _, _ => none

/-- The Files that the items of a history name. -/
def fileLog (R : ProjectionRuntime) (history : List AppliedItem) : List (LogicalPath × String) :=
  history.filterMap fun o => namedFile R o.item

/-- What a statement does to the Files: nothing, one is written where an item says, or one is made active. -/
inductive FilesEffect (stated : Option (LogicalPath × String)) (db db' : Projection) : Prop where
  | kept (h : db'.fileObjects = db.fileObjects)
  | written (row : FileObjectRow) (hactive : row.active = true)
      (hstate : row.content.isSome = true → row.identityState = .resolved)
      (hstated : stated = some (row.at, row.canonicalId))
      (h : db.fileObjects.upsert? row (fun old => old.updated row) = some db'.fileObjects)
  | restored (id : String) (h : db.fileObjects.modify? (fun f => f.canonicalId = id)
      (fun f => { f with active := true, removedRecord := none }) = some db'.fileObjects)

variable {stated : Option (LogicalPath × String)}

theorem FilesEffect.congr {a b c d : Projection} (h : FilesEffect stated b c)
    (hfirst : b.fileObjects = a.fileObjects) (hlast : d.fileObjects = c.fileObjects) : FilesEffect stated a d := by
  cases h with
  | kept h => exact .kept (hlast.trans (h.trans hfirst))
  | written row hactive hstate hstated h =>
    rw [hfirst, ← hlast] at h
    exact .written row hactive hstate hstated h
  | restored id h =>
    rw [hfirst, ← hlast] at h
    exact .restored id h

/-- Every File is active, and one with content is resolved. -/
def FilesSound (db : Projection) : Prop :=
  ∀ id f, db.fileObjects.get? id = some f →
    f.active = true ∧ (f.content.isSome = true → f.identityState = .resolved)

theorem FilesSound.of_mem {db : Projection} (h : FilesSound db) {f : FileObjectRow}
    (hf : f ∈ db.fileObjects.rows) : f.active = true ∧ (f.content.isSome = true → f.identityState = .resolved) :=
  h _ f (Table.get?_of_mem hf)

theorem FilesEffect.sound {db db' : Projection} (h : FilesEffect stated db db') (hs : FilesSound db) :
    FilesSound db' := by
  cases h with
  | kept h =>
    intro id f hf
    rw [h] at hf
    exact hs id f hf
  | written row hactive hstate _ h =>
    intro id f hf
    rw [Table.get?_upsert? h id] at hf
    split at hf
    · cases hold : db.fileObjects.get? id with
      | none =>
        rw [hold] at hf
        cases hf
        exact ⟨hactive, hstate⟩
      | some old =>
        rw [hold] at hf
        cases hf
        exact ⟨rfl, hstate⟩
    · exact hs id f hf
  | restored restored h =>
    intro id f hf
    rw [Table.get?_modify? h id] at hf
    obtain ⟨old, hold, rfl⟩ := Option.map_eq_some_iff.mp hf
    split
    · exact ⟨rfl, (hs id old hold).2⟩
    · exact hs id old hold

/-- A File keeps its Collection and its path. -/
theorem FilesEffect.lasts {db db' : Projection} (h : FilesEffect stated db db') {id : String} {f : FileObjectRow}
    (hf : db.fileObjects.get? id = some f) : ∃ f', db'.fileObjects.get? id = some f' ∧ f'.at = f.at := by
  cases h with
  | kept h => exact ⟨f, by rw [h]; exact hf, rfl⟩
  | written row _ _ _ h => exact (keepsPlaces_upsertFile h).files id f hf
  | restored restored h => exact (keepsPlaces_modifyFile h fun _ => rfl).files id f hf

/-- A File stood where it stands, or stands where the item says. -/
theorem FilesEffect.origin {db db' : Projection} (h : FilesEffect stated db db') {id : String} {f : FileObjectRow}
    (hf : db'.fileObjects.get? id = some f) :
    (∃ old, db.fileObjects.get? id = some old ∧ old.at = f.at) ∨ stated = some (f.at, id) := by
  cases h with
  | kept h =>
    rw [h] at hf
    exact Or.inl ⟨f, hf, rfl⟩
  | written row _ _ hstated h =>
    rw [Table.get?_upsert? h id] at hf
    split at hf
    · rename_i hid
      cases hold : db.fileObjects.get? id with
      | none =>
        rw [hold] at hf
        cases hf
        rw [hstated, ← hid]
        exact Or.inr rfl
      | some old =>
        rw [hold] at hf
        cases hf
        exact Or.inl ⟨old, rfl, rfl⟩
    · exact Or.inl ⟨f, hf, rfl⟩
  | restored restored h =>
    rw [Table.get?_modify? h id] at hf
    obtain ⟨old, hold, rfl⟩ := Option.map_eq_some_iff.mp hf
    refine Or.inl ⟨old, hold, ?_⟩
    split
    · rfl
    · rfl

/-- What a written File takes from its item. -/
theorem namedFile_of_write {R : ProjectionRuntime} {item : Json} {record : String}
    {content external : Option String} {state : IdentityState} {row : FileObjectRow}
    (h : FileWrite R item record content external state row) :
    namedFile R item = some (row.at, row.canonicalId) := by
  obtain ⟨logical, hpath⟩ := h.path
  rw [namedFile, h.collectionId, hpath, h.canonicalId]
  rfl

section Items

variable {R : ProjectionRuntime} {context : V2VerificationContext} {db db' : Projection} {item : Json}
  {record : VerifiedV2Record}

/-- An observation writes the File it names. -/
theorem projectContentObserved_files {frontiers : FrontierMap}
    (h : db.projectContentObserved R item record frontiers = .ok db') :
    FilesEffect (namedFile R item) db db' ∧ ∃ id, optionalString item "file_ref_id" = some id ∧
      (db'.fileObjects.get? id).isSome = true := by
  obtain ⟨db₁, db₂, objectId, external, fileId, -, hfirst, -, hobserve, hlast, -⟩ := projectContentObserved_eq_ok h
  obtain ⟨row, files, db₃, conflict, hwrite, -, -, hjudged, hfiles, rfl⟩ := observeFile_eq_ok hobserve
  have hthird : db₃.fileObjects = db₁.fileObjects := by rw [hjudged.frame]
  have hstate : row.content.isSome = true → row.identityState = .resolved := by
    rw [hwrite.content, hwrite.identityState]
    cases conflict with
    | true => intro hnone; cases hnone
    | false => intro _; rfl
  have heffect : FilesEffect (namedFile R item) db₃ { db₃ with fileObjects := files } :=
    .written row hwrite.active hstate (namedFile_of_write hwrite) hfiles
  refine ⟨heffect.congr (hthird.trans hfirst.files) hlast.files, row.canonicalId, hwrite.canonicalId, ?_⟩
  rw [hlast.files, Table.get?_upsert? hfiles, if_pos (show fileObjectSchema.key row = row.canonicalId from rfl)]
  rfl

/-- A failure that names a File makes it active. -/
theorem projectCopyVerificationFailed_files (h : db.projectCopyVerificationFailed R item record = .ok db') :
    FilesEffect stated db db' ∧ ∀ id, optionalString item "file_ref_id" = some id →
      (db'.fileObjects.get? id).isSome = true := by
  obtain ⟨result, _, h⟩ := bind_eq_ok.mp h
  obtain ⟨_, _, h⟩ := bind_eq_ok.mp h
  obtain ⟨rid, _, h⟩ := bind_eq_ok.mp h
  obtain ⟨time, _, h⟩ := bind_eq_ok.mp h
  obtain ⟨name, _, h⟩ := bind_eq_ok.mp h
  obtain ⟨location, _, h⟩ := bind_eq_ok.mp h
  cases hfile : optionalString item "file_ref_id" with
  | none =>
    rw [hfile] at h
    obtain ⟨copy, _, h⟩ := bind_eq_ok.mp h
    obtain ⟨_, _, h⟩ := bind_eq_ok.mp h
    obtain ⟨copies, _, h⟩ := bind_eq_ok.mp h
    cases h
    exact ⟨.kept rfl, fun id hid => by cases hid⟩
  | some fileRefId =>
    rw [hfile] at h
    obtain ⟨_, _, h⟩ := bind_eq_ok.mp h
    obtain ⟨_, _, h⟩ := bind_eq_ok.mp h
    obtain ⟨_, _, h⟩ := bind_eq_ok.mp h
    obtain ⟨_, _, h⟩ := bind_eq_ok.mp h
    obtain ⟨_, hvalid, h⟩ := bind_eq_ok.mp h
    obtain ⟨_, _, h⟩ := bind_eq_ok.mp h
    obtain ⟨_, _, h⟩ := bind_eq_ok.mp h
    obtain ⟨_, _, h⟩ := bind_eq_ok.mp h
    obtain ⟨files, hfiles, h⟩ := bind_eq_ok.mp h
    obtain ⟨⟨d₁, bound⟩, h₁, h⟩ := bind_eq_ok.mp h
    obtain ⟨⟨d₂, copy⟩, hcopy, h⟩ := bind_eq_ok.mp h
    cases h
    obtain ⟨-, row, -, -, hd₁⟩ := binding_eq_ok h₁
    have hlast : db'.fileObjects = files := by rw [copy_frame hcopy, hd₁]
    have hfiles := statement_eq_ok.mp hfiles
    have heffect : FilesEffect stated db { db with fileObjects := files } := .restored fileRefId hfiles
    refine ⟨heffect.congr rfl hlast, ?_⟩
    intro id hid
    cases hid
    obtain ⟨hvalid, -⟩ := require_eq_ok.mp hvalid
    rw [Bool.and_eq_true, Bool.and_eq_true, Option.any_eq_true] at hvalid
    obtain ⟨f, hf, -⟩ := hvalid.1.1
    rw [hlast, Table.get?_modify? hfiles, hf]
    rfl

theorem projectCopyVerificationFailed_writesCopy (h : db.projectCopyVerificationFailed R item record = .ok db')
    {file : String} (hfile : optionalString item "file_ref_id" = some file) :
    ∃ location name, optionalString item "copy_claim_id" = some name ∧
      WritesCopy R db item location name "corrupt" "observed_bytes" db' := by
  obtain ⟨result, _, h⟩ := bind_eq_ok.mp h
  obtain ⟨_, _, h⟩ := bind_eq_ok.mp h
  obtain ⟨rid, _, h⟩ := bind_eq_ok.mp h
  obtain ⟨time, _, h⟩ := bind_eq_ok.mp h
  obtain ⟨name, hname, h⟩ := bind_eq_ok.mp h
  obtain ⟨location, _, h⟩ := bind_eq_ok.mp h
  rw [hfile] at h
  exact ⟨location, name, string_eq_ok.mp hname, projectFileFailure_writesCopy h⟩

theorem projectAnnexEntry_files (h : db.projectAnnexEntry R item record = .ok db') :
    FilesEffect (namedFile R item) db db' := by
  obtain ⟨rid, _, h⟩ := bind_eq_ok.mp h
  obtain ⟨time, _, h⟩ := bind_eq_ok.mp h
  obtain ⟨⟨d₁, content⟩, h₁, h⟩ := bind_eq_ok.mp h
  obtain ⟨⟨d₂, identity⟩, h₂, h⟩ := bind_eq_ok.mp h
  obtain ⟨resolution, _, h⟩ := bind_eq_ok.mp h
  obtain ⟨state, hstate, h⟩ := bind_eq_ok.mp h
  obtain ⟨⟨d₃, fileId⟩, h₃, h⟩ := bind_eq_ok.mp h
  obtain ⟨-, hd₁⟩ := annexContent_eq_ok h₁
  obtain ⟨-, -, hd₂⟩ := annexIdentity_eq_ok h₂
  have hfirst : d₂.fileObjects = db.fileObjects := by rw [hd₂, hd₁]
  have hlast : db'.fileObjects = d₃.fileObjects := by
    cases habsent : annexAbsent item with
    | true =>
      simp only [habsent, if_true] at h
      exact projectAnnexAbsence_files h
    | false =>
      simp only [habsent, Bool.false_eq_true, if_false] at h
      exact projectAnnexPresence_files h
  have hfile : FilesEffect (namedFile R item) d₂ d₃ := by
    obtain ⟨name, _, h₃⟩ := bind_eq_ok.mp h₃
    split at h₃
    · cases h₃
      exact .kept rfl
    · obtain ⟨row, files, hwrite, rfl, hfiles, rfl⟩ := file_eq_ok h₃
      refine .written row hwrite.active ?_ (namedFile_of_write hwrite) hfiles
      rw [hwrite.content, hwrite.identityState]
      intro hcontent
      have hstate := statement_eq_ok.mp hstate
      rw [identityStateOf, if_pos hcontent] at hstate
      exact (Option.some.inj hstate).symm
  exact hfile.congr hfirst hlast

theorem projectItem_files {kind : String} {index : Nat}
    (h : db.projectItem R item kind record context index = .ok db') : FilesEffect (namedFile R item) db db' := by
  obtain ⟨d, heffect, hsame⟩ := projectItem_effect h
  have hd : FilesEffect (namedFile R item) db d := by
    cases heffect with
    | content _ h => exact (projectContentObserved_files h).1
    | failure _ h => exact (projectCopyVerificationFailed_files h).1
    | annex _ h => exact projectAnnexEntry_files h
    | scanStarted _ h =>
      rw [projectScanStarted_frame h]
      exact .kept rfl
    | candidate _ h =>
      rw [projectScanMissingCandidate_frame h]
      exact .kept rfl
    | scanCompleted _ h =>
      rw [projectScanCompleted_frame h]
      exact .kept rfl
    | other _ h => exact .kept h.evidence.files
  exact hd.congr rfl hsame.evidence.files

end Items

/-! ### Items that name a File and a Copy -/

/-- An observation, or a failure that names a File. -/
structure Names (item : Json) (file copy : String) : Prop where
  kind : optionalString item "kind" = some "content_observed" ∨
    optionalString item "kind" = some "copy_verification_failed"
  file : optionalString item "file_ref_id" = some file
  copy : optionalString item "copy_claim_id" = some copy

/-- The File and the Copy are there. -/
def Known (db : Projection) (file copy : String) : Prop :=
  (∃ f, db.fileObjects.get? file = some f) ∧ ∃ x, db.seating copy = some x

/-- Files and Copies stay where they are. -/
structure Lasts (db db' : Projection) : Prop where
  files : ∀ id f, db.fileObjects.get? id = some f → ∃ f', db'.fileObjects.get? id = some f' ∧ f'.at = f.at
  copies : ∀ id place active, db.seating id = some (place, active) →
    ∃ active', db'.seating id = some (place, active')

theorem Lasts.refl (db : Projection) : Lasts db db :=
  ⟨fun _ f h => ⟨f, h, rfl⟩, fun _ _ active h => ⟨active, h⟩⟩

theorem Lasts.trans {a b c : Projection} (h : Lasts a b) (g : Lasts b c) : Lasts a c where
  files id f hf := by
    obtain ⟨f', hf', hat⟩ := h.files id f hf
    obtain ⟨f'', hf'', hat'⟩ := g.files id f' hf'
    exact ⟨f'', hf'', hat'.trans hat⟩
  copies id place active hid := by
    obtain ⟨active', hid'⟩ := h.copies id place active hid
    exact g.copies id place active' hid'

theorem Known.last {db db' : Projection} {file copy : String} (h : Known db file copy) (hl : Lasts db db') :
    Known db' file copy := by
  obtain ⟨⟨f, hf⟩, ⟨place, active⟩, hcopy⟩ := h
  obtain ⟨f', hf', -⟩ := hl.files file f hf
  obtain ⟨active', hcopy'⟩ := hl.copies copy place active hcopy
  exact ⟨⟨f', hf'⟩, _, hcopy'⟩

theorem Names.kind_of {item : Json} {file copy kind : String} (h : Names item file copy)
    (hkind : string item "kind" = .ok kind) : kind = "content_observed" ∨ kind = "copy_verification_failed" := by
  have hkind := string_eq_ok.mp hkind
  rcases h.kind with hc | hf
  · exact Or.inl (Option.some.inj (hkind.symm.trans hc))
  · exact Or.inr (Option.some.inj (hkind.symm.trans hf))

theorem Names.carried {item item' : Json} {file copy : String} (h : Names item file copy)
    (hcarried : ∀ key value, item.get key = some value → item'.get key = some value) : Names item' file copy := by
  have hstring : ∀ {key text : String}, optionalString item key = some text →
      optionalString item' key = some text := by
    intro key text hkey
    obtain ⟨value, hvalue, htext⟩ := Option.bind_eq_some_iff.mp hkey
    rw [optionalString, hcarried key value hvalue]
    exact htext
  exact ⟨h.kind.imp hstring hstring, hstring h.file, hstring h.copy⟩

section Steps

variable {R : ProjectionRuntime} {context : V2VerificationContext} {s t : ProjectionRun} {a : ProjectionAct}

/-- What is left when neither an observation nor a failure was projected. -/
theorem content_or_failure {db d : Projection} {item : Json} {kind : String} {record : VerifiedV2Record}
    {index : Nat} (hkind : kind = "content_observed" ∨ kind = "copy_verification_failed")
    (h : ItemEffect R db item kind record context index d) :
    db.projectContentObserved R item record context.frontiers = .ok d ∨
      db.projectCopyVerificationFailed R item record = .ok d := by
  cases h with
  | content _ h => exact Or.inl h
  | failure _ h => exact Or.inr h
  | other hne _ =>
    exfalso
    rcases hkind with rfl | rfl
    · exact hne (by decide)
    · exact hne (by decide)
  | annex he _ | scanStarted he _ | candidate he _ | scanCompleted he _ =>
    subst he
    exact absurd hkind (by decide)

/-- After an item its File and its Copy are there. -/
theorem projectItem_known {db db' : Projection} (hk : Keyed R db) {o : AppliedItem} {kind file copy : String}
    {index : Nat} (hkind : string o.item "kind" = .ok kind) (hn : Names o.item file copy)
    (h : db.projectItem R o.item kind o.record context index = .ok db') : Known db' file copy := by
  obtain ⟨d, heffect, hsame⟩ := projectItem_effect h
  have hwritten : ∀ {location state basis : String}, WritesCopy R db o.item location copy state basis d →
      ∃ x, db'.seating copy = some x := by
    intro location state basis hw
    obtain ⟨hkd, _, _, -, hobserved⟩ := hw.observed hk
    rw [seating_of_same hsame.evidence hkd]
    exact ⟨_, hobserved.self⟩
  rw [Known, hsame.evidence.files]
  rcases content_or_failure (hn.kind_of hkind) heffect with hc | hf
  · obtain ⟨-, id, hid, hsome⟩ := projectContentObserved_files hc
    obtain ⟨location, name, -, hname, hw⟩ := projectContentObserved_writesCopy hc
    rw [hn.file] at hid
    rw [hn.copy] at hname
    cases hid
    cases hname
    exact ⟨Option.isSome_iff_exists.mp hsome, hwritten hw⟩
  · obtain ⟨location, name, hname, hw⟩ := projectCopyVerificationFailed_writesCopy hf hn.file
    rw [hn.copy] at hname
    cases hname
    have hfiles : FilesEffect none db d ∧ _ := projectCopyVerificationFailed_files hf
    have hsome := hfiles.2 file hn.file
    exact ⟨Option.isSome_iff_exists.mp hsome, hwritten hw⟩

/-! ### Steps of the projector -/

/-- What holds of every projection that is reached. -/
structure Standing (R : ProjectionRuntime) (s : ProjectionRun) : Prop where
  keyed : Keyed R s.db
  files : FilesSound s.db
  statedFiles : ∀ id f, s.db.fileObjects.get? id = some f → (f.at, id) ∈ fileLog R s.history
  statedCopies : ∀ id place active, s.db.seating id = some (place, active) → (place, id) ∈ copyLog R s.history
  known : ∀ o ∈ s.history, ∀ file copy, Names o.item file copy → Known s.db file copy

theorem ProjectionStep.history (h : ProjectionStep R context s a t) :
    ∃ applied, t.history = s.history ++ applied := by
  cases h with
  | @item o => exact ⟨[o], rfl⟩
  | finalize _ => exact ⟨[], (List.append_nil _).symm⟩
  | book _ => exact ⟨[], (List.append_nil _).symm⟩

theorem ProjectionStep.files (h : ProjectionStep R context s a t) :
    ∃ stated, FilesEffect stated s.db t.db ∧ ∀ x, stated = some x → x ∈ fileLog R t.history := by
  cases h with
  | @item o index kind db hkind h =>
    refine ⟨_, projectItem_files h, fun x hx => ?_⟩
    exact List.mem_filterMap.mpr ⟨o, List.mem_append_right _ (List.mem_singleton_self o), hx⟩
  | finalize h =>
    refine ⟨none, .kept ?_, nofun⟩
    cases finalizeScan_effect h with
    | published _ _ _ hw => exact hw.files
    | inert _ _ he => exact he.files
  | book h => exact ⟨none, .kept h.evidence.files, nofun⟩

theorem restated_of_same {db db' : Projection} (hk : Keyed R db) (h : SameEvidence db db') :
    Restated db.seating (fun _ => False) db'.seating := by
  rw [seating_of_same h hk]
  exact restated_none fun _ hid => hid

/-- A Copy is observed where an item says, or Copies are restated where they stand. -/
theorem ProjectionStep.copies (hk : Keyed R s.db) (h : ProjectionStep R context s a t) :
    (∃ place id active, Observed s.db.seating place id active t.db.seating ∧ (place, id) ∈ copyLog R t.history) ∨
      ∃ ids, Restated s.db.seating ids t.db.seating := by
  cases h with
  | @item o index kind db hkind h =>
    cases (item_seating hk hkind h).2 with
    | observed hcopy _ hobserved =>
      refine Or.inl ⟨_, _, _, hobserved, ?_⟩
      exact List.mem_filterMap.mpr ⟨o, List.mem_append_right _ (List.mem_singleton_self o), hcopy⟩
    | restated _ hrestated => exact Or.inr ⟨_, hrestated⟩
  | finalize h =>
    right
    cases finalizeScan_effect h with
    | published _ _ _ hw => exact ⟨_, hw.restates.restated hk⟩
    | inert _ _ he => exact ⟨_, restated_of_same hk he⟩
  | book h => exact Or.inr ⟨_, restated_of_same hk h.evidence⟩

theorem ProjectionStep.lasts (hk : Keyed R s.db) (h : ProjectionStep R context s a t) : Lasts s.db t.db where
  files id f hf := by
    obtain ⟨stated, heffect, -⟩ := h.files
    exact heffect.lasts hf
  copies id place active hid := by
    rcases h.copies hk with ⟨_, _, _, hobserved, -⟩ | ⟨_, hrestated⟩
    · exact hobserved.place hid
    · exact hrestated.place hid

theorem ProjectionStep.sound (hs : Standing R s) (h : ProjectionStep R context s a t) : Standing R t := by
  obtain ⟨stated, heffect, hstated⟩ := h.files
  obtain ⟨applied, hhistory⟩ := h.history
  refine ⟨h.keyed hs.keyed, heffect.sound hs.files, ?_, ?_, ?_⟩
  · intro id f hf
    rcases heffect.origin hf with ⟨old, hold, hat⟩ | hnew
    · have hmem := hs.statedFiles id old hold
      rw [fileLog, hhistory, List.filterMap_append, ← hat]
      exact List.mem_append_left _ hmem
    · exact hstated _ hnew
  · intro id place active hid
    have hkept : (∃ active', s.db.seating id = some (place, active')) → (place, id) ∈ copyLog R t.history := by
      intro hold
      obtain ⟨active', hold⟩ := hold
      rw [copyLog, hhistory, List.filterMap_append]
      exact List.mem_append_left _ (hs.statedCopies id place active' hold)
    rcases h.copies hs.keyed with ⟨_, _, _, hobserved, hmem⟩ | ⟨_, hrestated⟩
    · rcases hobserved.origin hid with hold | ⟨rfl, rfl⟩
      · exact hkept hold
      · exact hmem
    · exact hkept (hrestated.origin hid)
  · intro o ho file copy hn
    have hlasts := h.lasts hs.keyed
    cases h with
    | item hkind hitem =>
      rcases List.mem_append.mp ho with ho | ho
      · exact (hs.known o ho file copy hn).last hlasts
      · rw [List.mem_singleton.mp ho] at hn
        exact projectItem_known hs.keyed hkind hn hitem
    | finalize _ => exact (hs.known o ho file copy hn).last hlasts
    | book _ => exact (hs.known o ho file copy hn).last hlasts

theorem sound_of_path {p : List (ProjectionAct × ProjectionRun)} (hs : Standing R s)
    (h : ProjectionPath R context s p) : Standing R (final s p) ∧ Lasts s.db (final s p).db := by
  refine Path.invariant (P := fun t : ProjectionRun => Standing R t ∧ Lasts s.db t.db) ?_ ⟨hs, .refl _⟩ h
  intro u b v hu hstep
  exact ⟨hstep.sound hu.1, hu.2.trans (hstep.lasts hu.1.keyed)⟩

end Steps

/-- A projection without Files and Copies, moved on by the projector. -/
inductive Projected (R : ProjectionRuntime) : ProjectionRun → Prop
  | empty {db : Projection} (hfiles : db.fileObjects.rows = []) (hcopies : db.copyBindings.rows = []) :
      Projected R ⟨db, []⟩
  | path {s : ProjectionRun} {context : V2VerificationContext} {p : List (ProjectionAct × ProjectionRun)}
      (h : Projected R s) (hp : ProjectionPath R context s p) : Projected R (final s p)

theorem Projected.sound {R : ProjectionRuntime} {s : ProjectionRun} (h : Projected R s) : Standing R s := by
  induction h with
  | empty hfiles hcopies =>
    have hk : Keyed R _ := (seated_of_empty (R := R) hcopies).keyed
    refine ⟨hk, ?_, ?_, ?_, nofun⟩
    · intro id f hf
      have hmem := Table.mem_of_get? hf
      rw [hfiles] at hmem
      cases hmem
    · intro id f hf
      have hmem := Table.mem_of_get? hf
      rw [hfiles] at hmem
      cases hmem
    · intro id place active hid
      obtain ⟨c, hc, -⟩ := Option.bind_eq_some_iff.mp hid
      have hmem := Table.mem_of_get? hc
      rw [hcopies] at hmem
      cases hmem
  | path _ hp ih => exact (sound_of_path ih hp).1

end ArchiveLedger
