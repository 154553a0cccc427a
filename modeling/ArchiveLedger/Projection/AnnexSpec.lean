import ArchiveLedger.Projection.Identity

/-!
# What projecting an annex entry does to its File

The File of an annex entry takes the Object of the entry, or else the one its source
identity has, and the state that the two give, whatever the File was before.  Everything
else an entry writes leaves the Files alone.
-/

namespace ArchiveLedger

open Relational Outcome Transition

namespace Projection

variable {R : ProjectionRuntime} {db db' : Projection} {item : Json} {record : String}

/-! ### What an entry says of its File -/

/-- The Object an annex entry gives its File: the one it names, or else the one of its source
identity. -/
def annexObject (db : Projection) (item : Json) : Option String :=
  (optionalString item "object_id").or
    ((optionalString item "external_identity_id").bind fun name =>
      (db.sourceIdentities.get? name).bind (·.content))

/-- The state an annex entry gives its File. -/
def annexState (db : Projection) (item : Json) : Option IdentityState :=
  (optionalString item "resolution_state").bind (identityStateOf (db.annexObject item))

theorem annexContent_eq_ok {time : Nat} {content : Option String}
    (h : db.annexContent item record time = .ok (db', content)) :
    content = optionalString item "object_id" ∧
      db' = { db with contentObjects := db'.contentObjects } := by
  unfold annexContent at h
  split at h
  · obtain ⟨_, _, h⟩ := bind_eq_ok.mp h
    obtain ⟨_, _, h⟩ := bind_eq_ok.mp h
    obtain ⟨⟨d, name⟩, hc, h⟩ := bind_eq_ok.mp h
    cases h
    obtain ⟨hname, hd⟩ := content_eq_ok hc
    exact ⟨hname.symm, hd⟩
  · rename_i hnone
    cases h
    exact ⟨(Option.not_isSome_iff_eq_none.mp hnone).symm, rfl⟩

theorem annexIdentity_eq_ok {content : Option String} {identity : SourceIdentityRow}
    (h : db.annexIdentity item record content = .ok (db', identity)) :
    optionalString item "external_identity_id" = some identity.canonicalId ∧
      content.or identity.content
        = content.or ((db.sourceIdentities.get? identity.canonicalId).bind (·.content)) ∧
      db' = { db with sourceIdentities := db'.sourceIdentities } := by
  obtain ⟨expected, _, h⟩ := bind_eq_ok.mp h
  obtain ⟨name, hname, h⟩ := bind_eq_ok.mp h
  obtain ⟨_, _, h⟩ := bind_eq_ok.mp h
  obtain ⟨sourceKey, _, h⟩ := bind_eq_ok.mp h
  obtain ⟨expectedSize, _, h⟩ := bind_eq_ok.mp h
  obtain ⟨resolution, _, h⟩ := bind_eq_ok.mp h
  obtain ⟨identities, hidentities, h⟩ := bind_eq_ok.mp h
  obtain ⟨identity', hidentity, h⟩ := bind_eq_ok.mp h
  cases h
  have hget := statement_eq_ok.mp hidentity
  have hwritten := Table.get?_upsert? (statement_eq_ok.mp hidentities) name
  have hwritten := Option.some.inj ((hget.symm.trans hwritten).trans (if_pos rfl))
  have hid : identity.canonicalId = name := (Table.get?_eq_some.mp hget).2
  refine ⟨by rw [hid]; exact string_eq_ok.mp hname, ?_, rfl⟩
  rw [hid, hwritten]
  cases content with
  | some c => rfl
  | none =>
    cases db.sourceIdentities.get? name with
    | none => rfl
    | some old =>
      show (updatedIdentity old _).content = old.content
      by_cases hc : old.resolution = .conflict <;> simp [updatedIdentity, hc]

/-! ### The File that is written -/

/-- The File written under an id that is the one of its path. -/
theorem identity_written {row : FileObjectRow} {id : String} {k : String × StoredPath}
    (h : db.fileObjects.upsert? row (fun old => old.updated row) = some db'.fileObjects)
    (hactive : row.active = true) (hid : row.canonicalId = id) (hat : row.at = k)
    (hsame : db.activeFile k.1 k.2 = db.fileObjects.get? id) :
    db'.activeFile k.1 k.2 = db'.fileObjects.get? id ∧ ∃ file, db'.fileObjects.get? id = some file ∧
      file.identityState = row.identityState ∧ file.content = row.content := by
  have hold : ∀ old ∈ db.fileObjects.rows, old.canonicalId = row.canonicalId → old.at = row.at := by
    intro old hm hk
    have hget : db.fileObjects.get? id = some old := Table.get?_eq_some.mpr ⟨hm, hk.trans hid⟩
    rw [← hsame] at hget
    exact (activeFile_eq_some.mp hget).2.2.trans hat.symm
  obtain ⟨written, hwid, _, hcontent, hstate, _, _, hpath⟩ := activeFile_written h hactive hold
  have hnew : db'.activeFile k.1 k.2 = some written := by rw [hpath, if_pos hat]
  have hget : db'.fileObjects.get? id = some written :=
    Table.get?_eq_some.mpr ⟨(activeFile_eq_some.mp hnew).1, hwid.trans hid⟩
  exact ⟨hnew.trans hget.symm, written, hget, hstate, hcontent⟩

theorem annexFile_identity {absent : Bool} {content : Option String} {external name id : String}
    {state : IdentityState} {k : String × StoredPath} {o : Observation} (ho : o.item = item)
    (h : db.annexFile R item record absent content external state = .ok (db', name))
    (hid : o.fileRef = some id) (hk : o.logicalPath R = some k)
    (hsame : db.activeFile k.1 k.2 = db.fileObjects.get? id) :
    db'.activeFile k.1 k.2 = db'.fileObjects.get? id ∧ ∃ file, db'.fileObjects.get? id = some file ∧
      file.identityState = state ∧ file.content = content := by
  subst ho
  obtain ⟨ref, href, h⟩ := bind_eq_ok.mp h
  have href : ref = id := by
    rw [string_eq_ok] at href
    exact Option.some.inj (href.symm.trans hid)
  subst href
  split at h
  · -- an absent entry that would change nothing
    rename_i hunchanged
    cases h
    simp only [Bool.and_eq_true] at hunchanged
    obtain ⟨file, hfile, hrow⟩ := (Option.any_eq_true _ _).mp hunchanged.2
    simp only [Bool.and_eq_true, decide_eq_true_eq] at hrow
    exact ⟨hsame, file, hfile, hrow.1.2, hrow.1.1.2⟩
  · obtain ⟨row, files, hwrite, rfl, hfiles, rfl⟩ := file_eq_ok h
    have hat : row.at = k := by
      obtain ⟨logical, hpath⟩ := hwrite.path
      rw [Observation.logicalPath, hwrite.collectionId, hpath] at hk
      exact Option.some.inj hk
    have hrid : row.canonicalId = ref := Option.some.inj (hwrite.canonicalId.symm.trans hid)
    let written : Projection := { db with fileObjects := files }
    have hwritten : db.fileObjects.upsert? row (fun old => old.updated row) = some written.fileObjects := hfiles
    obtain ⟨hsame', file, hfile, hs, hc⟩ := identity_written hwritten hwrite.active hrid hat hsame
    exact ⟨hsame', file, hfile, hs.trans hwrite.identityState, hc.trans hwrite.content⟩

/-! ### The rest of an entry -/

theorem annexCopy_files {fileId worktree : String} {bound : BindingKey} {time : Nat}
    {content : Option String} {external pathState name copyLocation : String} {integrity : Integrity}
    {inventory : Bool} (h : db.annexCopy R item fileId worktree bound record time content external
      pathState name copyLocation integrity inventory = .ok db') : db'.fileObjects = db.fileObjects := by
  obtain ⟨⟨d₁, target⟩, htarget, h⟩ := bind_eq_ok.mp h
  obtain ⟨⟨d₂, copy⟩, hcopy, h⟩ := bind_eq_ok.mp h
  cases h
  have hfirst : d₁.fileObjects = db.fileObjects := by
    unfold annexTarget at htarget
    split at htarget
    · cases htarget
      rfl
    · obtain ⟨_, _, htarget⟩ := bind_eq_ok.mp htarget
      cases htarget
      cases inventory <;> rfl
  have hsecond : d₂.fileObjects = d₁.fileObjects := by
    rw [copy_frame hcopy]
    cases inventory <;> rfl
  exact hsecond.trans hfirst

theorem observeAvailability_files (db : Projection) (row : SourceAvailabilityRow) :
    (db.observeAvailability row).fileObjects = db.fileObjects := rfl

theorem appendCheck_files (db : Projection) (bound : BindingKey) (time : Nat) (presence : Presence)
    (integrity : Integrity) (error : Option (String × Option String)) :
    (db.appendCheck bound time presence integrity error).1.fileObjects = db.fileObjects := rfl

theorem projectAnnexPresence_files {fileId : String} {content : Option String} {external : String}
    {time : Nat} {inventory : Bool}
    (h : db.projectAnnexPresence R item fileId content external record time inventory = .ok db') :
    db'.fileObjects = db.fileObjects := by
  obtain ⟨worktree, _, h⟩ := bind_eq_ok.mp h
  obtain ⟨pathState, _, h⟩ := bind_eq_ok.mp h
  obtain ⟨⟨d, bound⟩, hd, h⟩ := bind_eq_ok.mp h
  obtain ⟨source, _, h⟩ := bind_eq_ok.mp h
  obtain ⟨cas, _, h⟩ := bind_eq_ok.mp h
  obtain ⟨_, _, h⟩ := bind_eq_ok.mp h
  obtain ⟨availability, _, h⟩ := bind_eq_ok.mp h
  obtain ⟨availability, _, h⟩ := bind_eq_ok.mp h
  obtain ⟨integrity, _, h⟩ := bind_eq_ok.mp h
  have hfiles : d.fileObjects = db.fileObjects := by
    obtain ⟨_, row, _, _, he⟩ := binding_eq_ok hd
    rw [he]
  have hseen := (observeAvailability_files d
    ⟨external, source, availability, cas, time, record⟩).trans hfiles
  cases hcopy : annexCopyOf item with
  | some c =>
    rw [hcopy] at h
    exact (annexCopy_files h).trans hseen
  | none =>
    rw [hcopy] at h
    cases h
    cases inventory with
    | true => exact hseen
    | false => exact (appendCheck_files _ _ _ _ _ _).trans hseen

theorem missingCopy_files {time : Nat} {copy : CopyBindingRow}
    (h : missingCopy record time db copy = .ok db') : db'.fileObjects = db.fileObjects := by
  obtain ⟨copies, _, h⟩ := bind_eq_ok.mp h
  cases h
  rfl

theorem projectAnnexAbsence_files {fileId external : String} {time : Nat}
    (h : db.projectAnnexAbsence item fileId external record time = .ok db') :
    db'.fileObjects = db.fileObjects := by
  obtain ⟨representation, _, h⟩ := bind_eq_ok.mp h
  obtain ⟨location, _, h⟩ := bind_eq_ok.mp h
  obtain ⟨_, _, h⟩ := bind_eq_ok.mp h
  obtain ⟨d, hd, h⟩ := bind_eq_ok.mp h
  obtain ⟨cas, _, h⟩ := bind_eq_ok.mp h
  obtain ⟨_, _, h⟩ := bind_eq_ok.mp h
  obtain ⟨worktree, _, h⟩ := bind_eq_ok.mp h
  obtain ⟨_, _, h⟩ := bind_eq_ok.mp h
  obtain ⟨source, _, h⟩ := bind_eq_ok.mp h
  cases h
  exact commitAll_invariant (P := fun d => d.fileObjects = db.fileObjects)
    (fun _ _ _ hs hstep => (missingCopy_files hstep).trans hs) rfl hd

/-- The File of an annex entry afterwards, whatever it was before. -/
theorem projectAnnexEntry_identity {o : Observation} {id : String} {k : String × StoredPath}
    (h : db.projectAnnexEntry R o.item o.record = .ok db')
    (hid : o.fileRef = some id) (hk : o.logicalPath R = some k)
    (hsame : db.activeFile k.1 k.2 = db.fileObjects.get? id) :
    db'.activeFile k.1 k.2 = db'.fileObjects.get? id ∧ ∃ file, db'.fileObjects.get? id = some file ∧
      db.annexState o.item = some file.identityState ∧ file.content = db.annexObject o.item := by
  obtain ⟨rid, _, h⟩ := bind_eq_ok.mp h
  obtain ⟨time, _, h⟩ := bind_eq_ok.mp h
  obtain ⟨⟨d₁, content⟩, h₁, h⟩ := bind_eq_ok.mp h
  obtain ⟨⟨d₂, identity⟩, h₂, h⟩ := bind_eq_ok.mp h
  obtain ⟨resolution, hresolution, h⟩ := bind_eq_ok.mp h
  obtain ⟨state, hstate, h⟩ := bind_eq_ok.mp h
  obtain ⟨⟨d₃, fileId⟩, h₃, h⟩ := bind_eq_ok.mp h
  obtain ⟨hcontent, hd₁⟩ := annexContent_eq_ok h₁
  obtain ⟨hexternal, hobject, hd₂⟩ := annexIdentity_eq_ok h₂
  have hfiles : d₂.fileObjects = db.fileObjects := by rw [hd₂, hd₁]
  have hidentities : d₁.sourceIdentities = db.sourceIdentities := by rw [hd₁]
  have hgiven : content.or identity.content = db.annexObject o.item := by
    rw [hobject, hidentities, annexObject, hexternal, hcontent]
    rfl
  have hsame₂ : d₂.activeFile k.1 k.2 = d₂.fileObjects.get? id := by
    rw [activeFile, hfiles]
    exact hsame
  obtain ⟨hsame₃, file, hfile, hs, hc⟩ := annexFile_identity rfl h₃ hid hk hsame₂
  have hlast : db'.fileObjects = d₃.fileObjects := by
    cases habsent : annexAbsent o.item with
    | true =>
      simp only [habsent, if_true] at h
      exact projectAnnexAbsence_files h
    | false =>
      simp only [habsent, Bool.false_eq_true, if_false] at h
      exact projectAnnexPresence_files h
  refine ⟨?_, file, by rw [hlast]; exact hfile, ?_, hc.trans hgiven⟩
  · rw [activeFile, hlast]
    exact hsame₃
  · rw [annexState, string_eq_ok.mp hresolution, Option.bind_some, ← hgiven, hs]
    exact statement_eq_ok.mp hstate

end Projection

end ArchiveLedger
