import ArchiveLedger.Projection.ContentSpec

/-!
# What an item leaves alone

The tables of an item's evidence (Files, their locations, Copies and checks) and the
tables of scans are written by a few kinds of item only.  `projectKind_effect` says
which, so that a proof about either looks at these kinds and at no other.
-/

namespace ArchiveLedger

open Relational Outcome Transition

/-- The tables that observations write. -/
structure SameEvidence (db db' : Projection) : Prop where
  files : db'.fileObjects = db.fileObjects
  locations : db'.fileLocations = db.fileLocations
  copies : db'.copyBindings = db.copyBindings
  checks : db'.checks = db.checks

/-- The tables that scans write besides. -/
structure SameScans (db db' : Projection) : Prop where
  scans : db'.scanRuns = db.scanRuns
  candidates : db'.scanMissingCandidates = db.scanMissingCandidates
  pending : db'.scanPendingCompletions = db.scanPendingCompletions

@[refl] theorem SameEvidence.refl (db : Projection) : SameEvidence db db := ⟨rfl, rfl, rfl, rfl⟩

@[refl] theorem SameScans.refl (db : Projection) : SameScans db db := ⟨rfl, rfl, rfl⟩

theorem SameEvidence.trans {a b c : Projection} (h : SameEvidence a b) (g : SameEvidence b c) :
    SameEvidence a c :=
  ⟨g.files.trans h.files, g.locations.trans h.locations, g.copies.trans h.copies,
    g.checks.trans h.checks⟩

theorem SameScans.trans {a b c : Projection} (h : SameScans a b) (g : SameScans b c) : SameScans a c :=
  ⟨g.scans.trans h.scans, g.candidates.trans h.candidates, g.pending.trans h.pending⟩

/-- Neither evidence nor scans. -/
structure SameFacts (db db' : Projection) : Prop where
  evidence : SameEvidence db db'
  scans : SameScans db db'

theorem SameFacts.trans {a b c : Projection} (h : SameFacts a b) (g : SameFacts b c) : SameFacts a c :=
  ⟨h.evidence.trans g.evidence, h.scans.trans g.scans⟩

theorem SameFacts.of_frame {db db' : Projection} (hf : db'.fileObjects = db.fileObjects)
    (hl : db'.fileLocations = db.fileLocations) (hc : db'.copyBindings = db.copyBindings)
    (hk : db'.checks = db.checks) (hs : db'.scanRuns = db.scanRuns)
    (hm : db'.scanMissingCandidates = db.scanMissingCandidates)
    (hp : db'.scanPendingCompletions = db.scanPendingCompletions) : SameFacts db db' :=
  ⟨⟨hf, hl, hc, hk⟩, ⟨hs, hm, hp⟩⟩

namespace Projection

variable {R : ProjectionRuntime} {db db' : Projection} {item : Json} {record : VerifiedV2Record}

/-! ### Registry items -/

theorem projectArrival_frame {kind : String} {value : DeviceSnapshot} {time : Nat}
    (h : db.projectArrival kind value time = .ok db') :
    db' = { db with deviceSiteHistory := db'.deviceSiteHistory } := by
  unfold projectArrival at h
  cases hs : value.currentSiteId with
  | none =>
    rw [hs] at h
    cases h
    rfl
  | some site =>
    rw [hs] at h
    simp only at h
    split at h
    · obtain ⟨_, _, h⟩ := bind_eq_ok.mp h
      cases h
      rfl
    · cases h
      rfl

theorem projectDevice_frame {kind : String} {time : Nat} (h : db.projectDevice R item kind time = .ok db') :
    SameFacts db db' := by
  obtain ⟨value, _, h⟩ := bind_eq_ok.mp h
  obtain ⟨_, _, h⟩ := bind_eq_ok.mp h
  obtain ⟨_, _, h⟩ := bind_eq_ok.mp h
  obtain ⟨devices, _, h⟩ := bind_eq_ok.mp h
  rw [projectArrival_frame h]
  exact ⟨⟨rfl, rfl, rfl, rfl⟩, ⟨rfl, rfl, rfl⟩⟩

theorem projectRisk_frame {kind : String} (h : db.projectRisk R item kind = .ok db') :
    SameFacts db db' := by
  obtain ⟨value, _, h⟩ := bind_eq_ok.mp h
  split at h
  · obtain ⟨_, _, h⟩ := bind_eq_ok.mp h
    obtain ⟨_, _, h⟩ := bind_eq_ok.mp h
    obtain ⟨assigned, _, h⟩ := bind_eq_ok.mp h
    cases h
    exact ⟨⟨rfl, rfl, rfl, rfl⟩, ⟨rfl, rfl, rfl⟩⟩
  · cases h
    exact ⟨⟨rfl, rfl, rfl, rfl⟩, ⟨rfl, rfl, rfl⟩⟩

theorem projectRegistryItem_frame (h : db.projectRegistryItem R item record = .ok db') :
    SameFacts db db' := by
  obtain ⟨kind, _, h⟩ := bind_eq_ok.mp h
  obtain ⟨time, _, h⟩ := bind_eq_ok.mp h
  split at h
  · obtain ⟨_, _, h⟩ := bind_eq_ok.mp h
    obtain ⟨_, _, h⟩ := bind_eq_ok.mp h
    cases h
    exact ⟨⟨rfl, rfl, rfl, rfl⟩, ⟨rfl, rfl, rfl⟩⟩
  split at h
  · obtain ⟨_, _, h⟩ := bind_eq_ok.mp h
    obtain ⟨_, _, h⟩ := bind_eq_ok.mp h
    obtain ⟨_, _, h⟩ := bind_eq_ok.mp h
    cases h
    exact ⟨⟨rfl, rfl, rfl, rfl⟩, ⟨rfl, rfl, rfl⟩⟩
  split at h
  · obtain ⟨_, _, h⟩ := bind_eq_ok.mp h
    obtain ⟨_, _, h⟩ := bind_eq_ok.mp h
    obtain ⟨_, _, h⟩ := bind_eq_ok.mp h
    obtain ⟨_, _, h⟩ := bind_eq_ok.mp h
    cases h
    exact ⟨⟨rfl, rfl, rfl, rfl⟩, ⟨rfl, rfl, rfl⟩⟩
  split at h
  · exact projectDevice_frame h
  split at h
  · obtain ⟨_, _, h⟩ := bind_eq_ok.mp h
    obtain ⟨_, _, h⟩ := bind_eq_ok.mp h
    obtain ⟨_, _, h⟩ := bind_eq_ok.mp h
    obtain ⟨_, _, h⟩ := bind_eq_ok.mp h
    obtain ⟨_, _, h⟩ := bind_eq_ok.mp h
    cases h
    exact ⟨⟨rfl, rfl, rfl, rfl⟩, ⟨rfl, rfl, rfl⟩⟩
  split at h
  · obtain ⟨_, _, h⟩ := bind_eq_ok.mp h
    obtain ⟨_, _, h⟩ := bind_eq_ok.mp h
    obtain ⟨_, _, h⟩ := bind_eq_ok.mp h
    obtain ⟨_, _, h⟩ := bind_eq_ok.mp h
    obtain ⟨_, _, h⟩ := bind_eq_ok.mp h
    obtain ⟨_, _, h⟩ := bind_eq_ok.mp h
    cases h
    exact ⟨⟨rfl, rfl, rfl, rfl⟩, ⟨rfl, rfl, rfl⟩⟩
  split at h
  · obtain ⟨_, _, h⟩ := bind_eq_ok.mp h
    obtain ⟨_, _, h⟩ := bind_eq_ok.mp h
    cases h
    exact ⟨⟨rfl, rfl, rfl, rfl⟩, ⟨rfl, rfl, rfl⟩⟩
  split at h
  · exact projectRisk_frame h
  split at h
  · obtain ⟨_, _, h⟩ := bind_eq_ok.mp h
    cases h
    exact ⟨⟨rfl, rfl, rfl, rfl⟩, ⟨rfl, rfl, rfl⟩⟩
  · obtain ⟨_, _, h⟩ := bind_eq_ok.mp h
    obtain ⟨_, _, h⟩ := bind_eq_ok.mp h
    obtain ⟨_, _, h⟩ := bind_eq_ok.mp h
    obtain ⟨_, _, h⟩ := bind_eq_ok.mp h
    obtain ⟨_, _, h⟩ := bind_eq_ok.mp h
    obtain ⟨_, _, h⟩ := bind_eq_ok.mp h
    cases h
    exact ⟨⟨rfl, rfl, rfl, rfl⟩, ⟨rfl, rfl, rfl⟩⟩

/-! ### Clients, jobs and imports -/

theorem projectArchiveInitialized_frame {context : V2VerificationContext}
    (h : db.projectArchiveInitialized item record context = .ok db') :
    db' = { db with clients := db'.clients } := by
  obtain ⟨_, _, h⟩ := bind_eq_ok.mp h
  obtain ⟨_, _, h⟩ := bind_eq_ok.mp h
  obtain ⟨_, _, h⟩ := bind_eq_ok.mp h
  obtain ⟨_, _, h⟩ := bind_eq_ok.mp h
  obtain ⟨_, _, h⟩ := bind_eq_ok.mp h
  obtain ⟨_, _, h⟩ := bind_eq_ok.mp h
  obtain ⟨_, _, h⟩ := bind_eq_ok.mp h
  obtain ⟨_, _, h⟩ := bind_eq_ok.mp h
  obtain ⟨_, _, h⟩ := bind_eq_ok.mp h
  obtain ⟨_, _, h⟩ := bind_eq_ok.mp h
  cases h
  rfl

theorem projectClientEnrolled_frame (h : db.projectClientEnrolled R item record = .ok db') :
    db' = { db with clients := db'.clients } := by
  obtain ⟨_, _, h⟩ := bind_eq_ok.mp h
  obtain ⟨_, _, h⟩ := bind_eq_ok.mp h
  obtain ⟨_, _, h⟩ := bind_eq_ok.mp h
  obtain ⟨_, _, h⟩ := bind_eq_ok.mp h
  obtain ⟨_, _, h⟩ := bind_eq_ok.mp h
  obtain ⟨_, _, h⟩ := bind_eq_ok.mp h
  obtain ⟨_, _, h⟩ := bind_eq_ok.mp h
  obtain ⟨_, _, h⟩ := bind_eq_ok.mp h
  obtain ⟨_, _, h⟩ := bind_eq_ok.mp h
  obtain ⟨_, _, h⟩ := bind_eq_ok.mp h
  obtain ⟨_, _, h⟩ := bind_eq_ok.mp h
  obtain ⟨_, _, h⟩ := bind_eq_ok.mp h
  cases h
  rfl

theorem projectArchiveUpdated_frame {context : V2VerificationContext}
    (h : db.projectArchiveUpdated item context = .ok db') :
    db' = { db with archiveMeta := db'.archiveMeta } := by
  obtain ⟨_, _, h⟩ := bind_eq_ok.mp h
  obtain ⟨_, _, h⟩ := bind_eq_ok.mp h
  obtain ⟨_, _, h⟩ := bind_eq_ok.mp h
  obtain ⟨_, _, h⟩ := bind_eq_ok.mp h
  cases h
  rfl

theorem projectClientRevoked_frame (h : db.projectClientRevoked item record = .ok db') :
    db' = { db with clients := db'.clients } := by
  obtain ⟨_, _, h⟩ := bind_eq_ok.mp h
  obtain ⟨_, _, h⟩ := bind_eq_ok.mp h
  obtain ⟨_, _, h⟩ := bind_eq_ok.mp h
  cases h
  rfl

theorem projectJobStarted_frame (h : db.projectJobStarted item record = .ok db') :
    db' = { db with jobs := db'.jobs } := by
  obtain ⟨_, _, h⟩ := bind_eq_ok.mp h
  obtain ⟨_, _, h⟩ := bind_eq_ok.mp h
  obtain ⟨_, _, h⟩ := bind_eq_ok.mp h
  obtain ⟨_, _, h⟩ := bind_eq_ok.mp h
  obtain ⟨_, _, h⟩ := bind_eq_ok.mp h
  obtain ⟨_, _, h⟩ := bind_eq_ok.mp h
  obtain ⟨_, _, h⟩ := bind_eq_ok.mp h
  cases h
  rfl

theorem projectJobFinished_frame (h : db.projectJobFinished item record = .ok db') :
    db' = { db with jobs := db'.jobs } := by
  obtain ⟨_, _, h⟩ := bind_eq_ok.mp h
  obtain ⟨_, _, h⟩ := bind_eq_ok.mp h
  obtain ⟨_, _, h⟩ := bind_eq_ok.mp h
  obtain ⟨_, _, h⟩ := bind_eq_ok.mp h
  obtain ⟨_, _, h⟩ := bind_eq_ok.mp h
  obtain ⟨_, _, h⟩ := bind_eq_ok.mp h
  obtain ⟨_, _, h⟩ := bind_eq_ok.mp h
  obtain ⟨_, _, h⟩ := bind_eq_ok.mp h
  cases h
  rfl

theorem projectAnnexImportStarted_frame (h : db.projectAnnexImportStarted R item record = .ok db') :
    db' = { db with annexImports := db'.annexImports } := by
  obtain ⟨_, _, h⟩ := bind_eq_ok.mp h
  obtain ⟨_, _, h⟩ := bind_eq_ok.mp h
  obtain ⟨_, _, h⟩ := bind_eq_ok.mp h
  obtain ⟨_, _, h⟩ := bind_eq_ok.mp h
  obtain ⟨_, _, h⟩ := bind_eq_ok.mp h
  obtain ⟨_, _, h⟩ := bind_eq_ok.mp h
  obtain ⟨_, _, h⟩ := bind_eq_ok.mp h
  obtain ⟨_, _, h⟩ := bind_eq_ok.mp h
  obtain ⟨_, _, h⟩ := bind_eq_ok.mp h
  obtain ⟨_, _, h⟩ := bind_eq_ok.mp h
  obtain ⟨_, _, h⟩ := bind_eq_ok.mp h
  obtain ⟨_, _, h⟩ := bind_eq_ok.mp h
  obtain ⟨_, _, h⟩ := bind_eq_ok.mp h
  obtain ⟨_, _, h⟩ := bind_eq_ok.mp h
  obtain ⟨_, _, h⟩ := bind_eq_ok.mp h
  obtain ⟨_, _, h⟩ := bind_eq_ok.mp h
  obtain ⟨_, _, h⟩ := bind_eq_ok.mp h
  obtain ⟨_, _, h⟩ := bind_eq_ok.mp h
  cases h
  rfl

theorem projectAnnexImportCompleted_frame (h : db.projectAnnexImportCompleted item record = .ok db') :
    db' = { db with annexImports := db'.annexImports } := by
  obtain ⟨_, _, h⟩ := bind_eq_ok.mp h
  obtain ⟨_, _, h⟩ := bind_eq_ok.mp h
  obtain ⟨_, _, h⟩ := bind_eq_ok.mp h
  obtain ⟨_, _, h⟩ := bind_eq_ok.mp h
  obtain ⟨_, _, h⟩ := bind_eq_ok.mp h
  obtain ⟨_, _, h⟩ := bind_eq_ok.mp h
  obtain ⟨_, _, h⟩ := bind_eq_ok.mp h
  cases h
  rfl

/-! ### Scans -/

theorem projectScanStarted_frame (h : db.projectScanStarted R item record = .ok db') :
    db' = { db with scanRuns := db'.scanRuns } := by
  obtain ⟨_, _, h⟩ := bind_eq_ok.mp h
  obtain ⟨_, _, h⟩ := bind_eq_ok.mp h
  obtain ⟨_, _, h⟩ := bind_eq_ok.mp h
  obtain ⟨_, _, h⟩ := bind_eq_ok.mp h
  obtain ⟨_, _, h⟩ := bind_eq_ok.mp h
  obtain ⟨_, _, h⟩ := bind_eq_ok.mp h
  obtain ⟨_, _, h⟩ := bind_eq_ok.mp h
  obtain ⟨_, _, h⟩ := bind_eq_ok.mp h
  obtain ⟨_, _, h⟩ := bind_eq_ok.mp h
  obtain ⟨_, _, h⟩ := bind_eq_ok.mp h
  obtain ⟨_, _, h⟩ := bind_eq_ok.mp h
  obtain ⟨_, _, h⟩ := bind_eq_ok.mp h
  obtain ⟨_, _, h⟩ := bind_eq_ok.mp h
  cases h
  rfl

theorem projectScanMissingCandidate_frame {itemIndex : Nat}
    (h : db.projectScanMissingCandidate R item record itemIndex = .ok db') :
    db' = { db with scanMissingCandidates := db'.scanMissingCandidates } := by
  obtain ⟨_, _, h⟩ := bind_eq_ok.mp h
  obtain ⟨_, _, h⟩ := bind_eq_ok.mp h
  obtain ⟨_, _, h⟩ := bind_eq_ok.mp h
  obtain ⟨_, _, h⟩ := bind_eq_ok.mp h
  obtain ⟨_, _, h⟩ := bind_eq_ok.mp h
  obtain ⟨_, _, h⟩ := bind_eq_ok.mp h
  obtain ⟨_, _, h⟩ := bind_eq_ok.mp h
  obtain ⟨_, _, h⟩ := bind_eq_ok.mp h
  obtain ⟨_, _, h⟩ := bind_eq_ok.mp h
  obtain ⟨_, _, h⟩ := bind_eq_ok.mp h
  obtain ⟨_, _, h⟩ := bind_eq_ok.mp h
  obtain ⟨_, _, h⟩ := bind_eq_ok.mp h
  obtain ⟨_, _, h⟩ := bind_eq_ok.mp h
  obtain ⟨_, _, h⟩ := bind_eq_ok.mp h
  obtain ⟨_, _, h⟩ := bind_eq_ok.mp h
  obtain ⟨_, _, h⟩ := bind_eq_ok.mp h
  cases h
  rfl

theorem projectScanCompleted_frame (h : db.projectScanCompleted item record = .ok db') :
    db' = { db with scanPendingCompletions := db'.scanPendingCompletions } := by
  obtain ⟨_, _, h⟩ := bind_eq_ok.mp h
  obtain ⟨_, _, h⟩ := bind_eq_ok.mp h
  obtain ⟨_, _, h⟩ := bind_eq_ok.mp h
  obtain ⟨_, _, h⟩ := bind_eq_ok.mp h
  obtain ⟨_, _, h⟩ := bind_eq_ok.mp h
  obtain ⟨_, _, h⟩ := bind_eq_ok.mp h
  obtain ⟨_, _, h⟩ := bind_eq_ok.mp h
  obtain ⟨_, _, h⟩ := bind_eq_ok.mp h
  cases h
  rfl

/-! ### Which items write facts -/

/-- The items that write Files, Copies or scans. -/
def factKinds : List String := ["content_observed", "copy_verification_failed", "annex_entry_observed",
  "scan_started", "scan_missing_candidate", "scan_completed"]

/-- What an item of a kind did. -/
inductive ItemEffect (R : ProjectionRuntime) (db : Projection) (item : Json) (kind : String)
    (record : VerifiedV2Record) (context : V2VerificationContext) (itemIndex : Nat) (db' : Projection) :
    Prop where
  | content (hkind : kind = "content_observed")
      (h : db.projectContentObserved R item record context.frontiers = .ok db')
  | failure (hkind : kind = "copy_verification_failed")
      (h : db.projectCopyVerificationFailed R item record = .ok db')
  | annex (hkind : kind = "annex_entry_observed") (h : db.projectAnnexEntry R item record = .ok db')
  | scanStarted (hkind : kind = "scan_started") (h : db.projectScanStarted R item record = .ok db')
  | candidate (hkind : kind = "scan_missing_candidate")
      (h : db.projectScanMissingCandidate R item record itemIndex = .ok db')
  | scanCompleted (hkind : kind = "scan_completed") (h : db.projectScanCompleted item record = .ok db')
  | other (hkind : kind ∉ factKinds) (h : SameFacts db db')

theorem projectKind_effect {kind : String} {context : V2VerificationContext} {itemIndex : Nat}
    (h : db.projectKind R item kind record context itemIndex = .ok db') :
    ItemEffect R db item kind record context itemIndex db' := by
  have hother : ∀ {f : Projection}, db' = f → kind ∉ factKinds → SameFacts db f →
      ItemEffect R db item kind record context itemIndex db' := by
    intro f he hkind hf
    exact .other hkind (he ▸ hf)
  rw [projectKind] at h
  by_cases hk : kind = "archive_initialized"
  · rw [if_pos hk] at h
    exact hother (projectArchiveInitialized_frame h) (by rw [hk]; decide) (.of_frame rfl rfl rfl rfl rfl rfl rfl)
  rw [if_neg hk] at h
  clear hk
  by_cases hk : kind = "archive_updated"
  · rw [if_pos hk] at h
    exact hother (projectArchiveUpdated_frame h) (by rw [hk]; decide) (.of_frame rfl rfl rfl rfl rfl rfl rfl)
  rw [if_neg hk] at h
  clear hk
  by_cases hk : kind = "client_enrolled"
  · rw [if_pos hk] at h
    exact hother (projectClientEnrolled_frame h) (by rw [hk]; decide) (.of_frame rfl rfl rfl rfl rfl rfl rfl)
  rw [if_neg hk] at h
  clear hk
  by_cases hk : kind = "client_revoked"
  · rw [if_pos hk] at h
    exact hother (projectClientRevoked_frame h) (by rw [hk]; decide) (.of_frame rfl rfl rfl rfl rfl rfl rfl)
  rw [if_neg hk] at h
  clear hk
  by_cases hk : isRegistryItem kind
  · rw [if_pos hk] at h
    refine .other ?_ (projectRegistryItem_frame h)
    intro hfact
    simp only [factKinds, List.mem_cons, List.not_mem_nil, or_false] at hfact
    rcases hfact with rfl | rfl | rfl | rfl | rfl | rfl <;> exact absurd hk (by decide)
  rw [if_neg hk] at h
  clear hk
  by_cases hk : kind = "content_observed"
  · rw [if_pos hk] at h
    exact .content hk h
  rw [if_neg hk] at h
  clear hk
  by_cases hk : kind = "copy_verification_failed"
  · rw [if_pos hk] at h
    exact .failure hk h
  rw [if_neg hk] at h
  clear hk
  by_cases hk : kind = "scan_started"
  · rw [if_pos hk] at h
    exact .scanStarted hk h
  rw [if_neg hk] at h
  clear hk
  by_cases hk : kind = "scan_missing_candidate"
  · rw [if_pos hk] at h
    exact .candidate hk h
  rw [if_neg hk] at h
  clear hk
  by_cases hk : kind = "scan_completed"
  · rw [if_pos hk] at h
    exact .scanCompleted hk h
  rw [if_neg hk] at h
  clear hk
  by_cases hk : kind = "annex_import_started"
  · rw [if_pos hk] at h
    exact hother (projectAnnexImportStarted_frame h) (by rw [hk]; decide) (.of_frame rfl rfl rfl rfl rfl rfl rfl)
  rw [if_neg hk] at h
  clear hk
  by_cases hk : kind = "annex_entry_observed"
  · rw [if_pos hk] at h
    exact .annex hk h
  rw [if_neg hk] at h
  clear hk
  by_cases hk : kind = "annex_import_completed"
  · rw [if_pos hk] at h
    exact hother (projectAnnexImportCompleted_frame h) (by rw [hk]; decide) (.of_frame rfl rfl rfl rfl rfl rfl rfl)
  rw [if_neg hk] at h
  clear hk
  by_cases hk : kind = "job_started"
  · rw [if_pos hk] at h
    exact hother (projectJobStarted_frame h) (by rw [hk]; decide) (.of_frame rfl rfl rfl rfl rfl rfl rfl)
  rw [if_neg hk] at h
  clear hk
  by_cases hk : kind = "job_finished"
  · rw [if_pos hk] at h
    exact hother (projectJobFinished_frame h) (by rw [hk]; decide) (.of_frame rfl rfl rfl rfl rfl rfl rfl)
  rw [if_neg hk] at h
  clear hk
  cases h

theorem projectOperationOutcome_frame {itemIndex : Nat}
    (h : db.projectOperationOutcome item record itemIndex = .ok db') :
    db' = { db with operationOutcomes := db'.operationOutcomes } := by
  unfold projectOperationOutcome at h
  split at h
  · cases h; rfl
  · obtain ⟨_, _, h⟩ := bind_eq_ok.mp h
    obtain ⟨_, _, h⟩ := bind_eq_ok.mp h
    cases h
    rfl

theorem projectItem_effect {kind : String} {context : V2VerificationContext} {itemIndex : Nat}
    (h : db.projectItem R item kind record context itemIndex = .ok db') :
    ∃ d, ItemEffect R db item kind record context itemIndex d ∧ SameFacts d db' := by
  obtain ⟨_, _, h⟩ := bind_eq_ok.mp h
  obtain ⟨d, hd, h⟩ := bind_eq_ok.mp h
  refine ⟨d, projectKind_effect hd, ?_⟩
  rw [projectOperationOutcome_frame h]
  exact .of_frame rfl rfl rfl rfl rfl rfl rfl

end Projection

/-! ### Places -/

/-- Files keep their paths and file locations stay. -/
structure KeepsPlaces (db db' : Projection) : Prop where
  files : ∀ id file, db.fileObjects.get? id = some file →
    ∃ file', db'.fileObjects.get? id = some file' ∧ file'.at = file.at
  locations : ∀ k, (db.fileLocations.get? k).isSome → (db'.fileLocations.get? k).isSome

@[refl] theorem KeepsPlaces.refl (db : Projection) : KeepsPlaces db db :=
  ⟨fun _ file h => ⟨file, h, rfl⟩, fun _ h => h⟩

theorem KeepsPlaces.trans {a b c : Projection} (h : KeepsPlaces a b) (g : KeepsPlaces b c) :
    KeepsPlaces a c where
  files id file hfile := by
    obtain ⟨file', h', he⟩ := h.files id file hfile
    obtain ⟨file'', h'', he'⟩ := g.files id file' h'
    exact ⟨file'', h'', he'.trans he⟩
  locations k hk := g.locations k (h.locations k hk)

theorem KeepsPlaces.of_eq {db db' : Projection} (hf : db'.fileObjects = db.fileObjects)
    (hl : db'.fileLocations = db.fileLocations) : KeepsPlaces db db' where
  files id file h := ⟨file, by rw [hf]; exact h, rfl⟩
  locations k h := by rw [hl]; exact h

/-- The path of a Copy stays what it is. -/
theorem KeepsPlaces.copyPath {db db' : Projection} (h : KeepsPlaces db db') {copy copy' : CopyBindingRow}
    {path : StoredPath} (howner : copy'.owner = copy.owner) (hlocator : copy'.locator = copy.locator)
    (hpath : db.copyPath copy = some path) : db'.copyPath copy' = some path := by
  obtain ⟨file, hfile, rfl⟩ := Option.map_eq_some_iff.mp hpath
  obtain ⟨location, hl, hfile⟩ := Option.bind_eq_some_iff.mp hfile
  obtain ⟨location', hl'⟩ := Option.isSome_iff_exists.mp (h.locations copy.owner (by rw [hl]; rfl))
  obtain ⟨file', hfile', he⟩ := h.files _ _ hfile
  have hid : location'.fileId = location.fileId := by
    have h₁ := Table.key_of_get? hl
    have h₂ := Table.key_of_get? hl'
    exact (congrArg Prod.fst h₂).trans (congrArg Prod.fst h₁).symm
  rw [Projection.copyPath, Projection.fileOf, howner, hl', Option.bind_some, hid, hfile',
    Option.map_some, hlocator, show file'.path = file.path from congrArg Prod.snd he]

namespace Projection

variable {R : ProjectionRuntime} {db db' : Projection} {item : Json}

theorem keepsPlaces_upsertFile {row : FileObjectRow} {files : Table fileObjectSchema}
    (h : db.fileObjects.upsert? row (fun old => old.updated row) = some files) :
    KeepsPlaces db { db with fileObjects := files } where
  files id file hfile := by
    have hget := Table.get?_upsert? h id
    by_cases hk : fileObjectSchema.key row = id
    · rw [if_pos hk, hfile] at hget
      exact ⟨_, hget, rfl⟩
    · rw [if_neg hk, hfile] at hget
      exact ⟨file, hget, rfl⟩
  locations _ h := h

theorem keepsPlaces_modifyFile {p : FileObjectRow → Bool} {f : FileObjectRow → FileObjectRow} {hkey}
    {files : Table fileObjectSchema} (h : db.fileObjects.modify? p f hkey = some files)
    (hat : ∀ r, (f r).at = r.at) : KeepsPlaces db { db with fileObjects := files } where
  files id file hfile := by
    have hget := Table.get?_modify? h id
    rw [hfile, Option.map_some] at hget
    refine ⟨_, hget, ?_⟩
    split
    · exact hat file
    · rfl
  locations _ h := h

theorem keepsPlaces_upsertLocation {row : FileLocationRow} {f : FileLocationRow → FileLocationRow}
    (hkey : ∀ r, (f r).binding = r.binding) (hf : db'.fileObjects = db.fileObjects)
    (hl : db'.fileLocations = db.fileLocations.upsert row f (fun _ _ => rfl) hkey) : KeepsPlaces db db' where
  files _ file h := ⟨file, by rw [hf]; exact h, rfl⟩
  locations k hk := by
    rw [hl, Table.get?_upsert]
    split
    · rfl
    · exact hk

theorem keepsPlaces_modifyLocation {p : FileLocationRow → Bool} {f : FileLocationRow → FileLocationRow}
    (hkey : ∀ r, (f r).binding = r.binding) (hf : db'.fileObjects = db.fileObjects)
    (hl : db'.fileLocations = db.fileLocations.modify p f hkey (fun _ _ h => h)) : KeepsPlaces db db' where
  files _ file h := ⟨file, by rw [hf]; exact h, rfl⟩
  locations k hk := by
    rw [hl, Table.get?_modify, Option.isSome_map]
    exact hk

end Projection

/-- Writes of an observation other than to Copies. -/
structure Observing (db db' : Projection) : Prop where
  places : KeepsPlaces db db'
  scans : SameScans db db'
  copies : db'.copyBindings = db.copyBindings

@[refl] theorem Observing.refl (db : Projection) : Observing db db := ⟨.refl db, .refl db, rfl⟩

theorem Observing.trans {a b c : Projection} (h : Observing a b) (g : Observing b c) : Observing a c :=
  ⟨h.places.trans g.places, h.scans.trans g.scans, g.copies.trans h.copies⟩

/-- Writes of an observation that add no check either. -/
structure Noting (db db' : Projection) : Prop extends Observing db db' where
  checks : db'.checks = db.checks

@[refl] theorem Noting.refl (db : Projection) : Noting db db := ⟨.refl db, rfl⟩

theorem Noting.trans {a b c : Projection} (h : Noting a b) (g : Noting b c) : Noting a c :=
  ⟨h.toObserving.trans g.toObserving, g.checks.trans h.checks⟩

theorem Noting.of_evidence {db db' : Projection} (h : SameEvidence db db') (hs : SameScans db db') :
    Noting db db' := ⟨⟨.of_eq h.files h.locations, hs, h.copies⟩, h.checks⟩

namespace Projection

variable {R : ProjectionRuntime} {db db' : Projection} {item : Json} {record : String}

theorem content_noting {time size : Nat} {name : String}
    (h : db.content item record time size = .ok (db', name)) : Noting db db' := by
  rw [(content_eq_ok h).2]
  exact .of_evidence ⟨rfl, rfl, rfl, rfl⟩ ⟨rfl, rfl, rfl⟩

theorem observeExternal_noting {objectId : String} {external : Option String}
    (h : db.observeExternal item record objectId = .ok (db', external)) : Noting db db' := by
  rw [observeExternal_eq_ok h]
  exact .of_evidence ⟨rfl, rfl, rfl, rfl⟩ ⟨rfl, rfl, rfl⟩

theorem file_noting {content external : Option String} {state : IdentityState} {name : String}
    (h : db.file R item record content external state = .ok (db', name)) : Noting db db' := by
  obtain ⟨row, files, -, -, hfiles, rfl⟩ := file_eq_ok h
  exact ⟨⟨keepsPlaces_upsertFile hfiles, ⟨rfl, rfl, rfl⟩, rfl⟩, rfl⟩

theorem observeFile_noting {r : VerifiedV2Record} {frontiers : FrontierMap} {objectId : String}
    {external : Option String} {name : String}
    (h : db.observeFile R item r frontiers objectId external = .ok (db', name)) : Noting db db' := by
  obtain ⟨row, files, db₁, conflict, -, -, -, hjudged, hfiles, rfl⟩ := observeFile_eq_ok h
  have hfirst : Noting db db₁ := by
    rw [hjudged.frame]
    exact .of_evidence ⟨rfl, rfl, rfl, rfl⟩ ⟨rfl, rfl, rfl⟩
  exact hfirst.trans ⟨⟨keepsPlaces_upsertFile hfiles, ⟨rfl, rfl, rfl⟩, rfl⟩, rfl⟩

theorem binding_noting {fileId locationId : String} {time : Nat} {content external : Option String}
    {presence preserve : Bool} {bound : BindingKey}
    (h : db.binding item fileId locationId record time content external presence preserve
      = .ok (db', bound)) : Noting db db' ∧ bound = (fileId, locationId) ∧
        (db'.fileLocations.get? bound).isSome := by
  obtain ⟨rfl, row, hrow, -, rfl⟩ := binding_eq_ok h
  refine ⟨⟨⟨keepsPlaces_upsertLocation (by intro _; rfl) rfl rfl, ⟨rfl, rfl, rfl⟩, rfl⟩, rfl⟩, rfl, ?_⟩
  have hget := Table.get?_upsert db.fileLocations row (fun old => old.updated row preserve)
    (fun _ _ => rfl) (fun _ => rfl) (fileId, locationId)
  rw [if_pos hrow] at hget
  exact Option.isSome_of_eq_some hget

theorem appendCheck_observing (bound : BindingKey) (time : Nat) (presence : Presence)
    (integrity : Integrity) (error : Option (String × Option String)) :
    Observing db (db.appendCheck bound time presence integrity error).1 :=
  ⟨keepsPlaces_modifyLocation (by intro _; rfl) rfl rfl, ⟨rfl, rfl, rfl⟩, rfl⟩

theorem setCopy_noting (bound : BindingKey) (copy : String) : Noting db (db.setCopy bound copy) :=
  ⟨⟨keepsPlaces_modifyLocation (by intro _; rfl) rfl rfl, ⟨rfl, rfl, rfl⟩, rfl⟩, rfl⟩

theorem annexContentLocation_noting (fileId locationId : String) (content external : Option String)
    (time : Nat) (presence : Option Bool) :
    Noting db (db.annexContentLocation fileId locationId content external record time presence).1 :=
  ⟨⟨keepsPlaces_upsertLocation (by intro _; rfl) rfl rfl, ⟨rfl, rfl, rfl⟩, rfl⟩, rfl⟩

theorem annexContent_noting {time : Nat} {content : Option String}
    (h : db.annexContent item record time = .ok (db', content)) : Noting db db' := by
  unfold annexContent at h
  split at h
  · obtain ⟨_, _, h⟩ := bind_eq_ok.mp h
    obtain ⟨_, _, h⟩ := bind_eq_ok.mp h
    obtain ⟨⟨d, name⟩, hc, h⟩ := bind_eq_ok.mp h
    cases h
    exact content_noting hc
  · cases h
    rfl

theorem annexIdentity_noting {content : Option String} {identity : SourceIdentityRow}
    (h : db.annexIdentity item record content = .ok (db', identity)) : Noting db db' := by
  obtain ⟨_, _, h⟩ := bind_eq_ok.mp h
  obtain ⟨_, _, h⟩ := bind_eq_ok.mp h
  obtain ⟨_, _, h⟩ := bind_eq_ok.mp h
  obtain ⟨_, _, h⟩ := bind_eq_ok.mp h
  obtain ⟨_, _, h⟩ := bind_eq_ok.mp h
  obtain ⟨_, _, h⟩ := bind_eq_ok.mp h
  obtain ⟨_, _, h⟩ := bind_eq_ok.mp h
  obtain ⟨_, _, h⟩ := bind_eq_ok.mp h
  cases h
  exact .of_evidence ⟨rfl, rfl, rfl, rfl⟩ ⟨rfl, rfl, rfl⟩

theorem annexFile_noting {absent : Bool} {content : Option String} {external name : String}
    {state : IdentityState} (h : db.annexFile R item record absent content external state = .ok (db', name)) :
    Noting db db' := by
  obtain ⟨file, _, h⟩ := bind_eq_ok.mp h
  split at h
  · cases h
    rfl
  · exact file_noting h

theorem observeAvailability_noting (row : SourceAvailabilityRow) : Noting db (db.observeAvailability row) :=
  .of_evidence ⟨rfl, rfl, rfl, rfl⟩ ⟨rfl, rfl, rfl⟩

theorem removeAvailability_noting (external cas source worktree : String) :
    Noting db (db.removeAvailability external cas source worktree) :=
  .of_evidence ⟨rfl, rfl, rfl, rfl⟩ ⟨rfl, rfl, rfl⟩

end Projection

end ArchiveLedger
