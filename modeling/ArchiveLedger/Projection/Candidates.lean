import ArchiveLedger.Journal.Verifiers
import ArchiveLedger.Projection.Steps

/-!
# Missing candidates and positive facts

A complete scan makes missing what its candidates name (`finalizeScan_effect`), and compares
nothing with what was observed meanwhile.  `scans_hide_nothing_iff` says along which paths of
the projector no finalization hides a positive fact that the scan did not know.
-/

namespace ArchiveLedger

open Relational Outcome Transition Projection

/-! ### Positive facts -/

/-- A File at a Location. -/
def bindingOf (file location : Option String) : List BindingKey :=
  match file, location with
  | some file, some location => [(file, location)]
  | _, _ => []

/-- The Copy of an annex entry is found, intact or not. -/
def foundCopy (item : Json) : Bool := claimedState item = "present" || claimedState item = "corrupt"

/-- The file locations that an item finds present. -/
def positivePaths (item : Json) : List BindingKey :=
  let file := optionalString item "file_ref_id"
  if optionalString item "kind" = some "content_observed" ∨
      optionalString item "kind" = some "copy_verification_failed" then
    bindingOf file (optionalString item "location_id")
  else if optionalString item "kind" = some "annex_entry_observed" ∧ annexAbsent item = false then
    (if optionalString item "path_state" = some "present" then
      bindingOf file (optionalString item "worktree_location_id") else []) ++
    (if foundCopy item then bindingOf file ((annexCopyOf item).map Prod.snd) else [])
  else []

/-- The Copies that an item finds, intact or not. -/
def positiveCopies (item : Json) : List String :=
  if optionalString item "kind" = some "content_observed" ∨
      optionalString item "kind" = some "copy_verification_failed" ∧
        optionalString item "result" = some "hash_mismatch" then
    (optionalString item "copy_claim_id").toList
  else if optionalString item "kind" = some "annex_entry_observed" ∧ annexAbsent item = false ∧
      foundCopy item then ((annexCopyOf item).map Prod.fst).toList
  else []

/-- An item in the causal base of a scan, or of the scan itself. -/
def ScanRunRow.knows (scan : ScanRunRow) (frontiers : FrontierMap) (o : AppliedItem) : Bool :=
  (frontiers.get? scan.causalFrontierHash).any
    (fun base => base.includesDot o.record.originId o.record.originSeq) ||
  optionalString o.item "scan_id" = some scan.scanId

/-- What becomes missing was not found by an item that the scan does not know. -/
structure HidesNothing (frontiers : FrontierMap) (s : ProjectionRun) (scan : ScanRunRow)
    (db' : Projection) : Prop where
  paths : ∀ k p p', s.db.fileLocations.get? k = some p → db'.fileLocations.get? k = some p' →
    p.presence = true → p'.presence = false →
      ∀ o ∈ s.history, k ∈ positivePaths o.item → scan.knows frontiers o = true
  copies : ∀ id c c', s.db.copyBindings.get? id = some c → db'.copyBindings.get? id = some c' →
    c.state ≠ .missing → c'.state = .missing →
      ∀ o ∈ s.history, id ∈ positiveCopies o.item → scan.knows frontiers o = true

/-! ### Candidates -/

/-- A path candidate names a file location. -/
def ScanMissingCandidateRow.Names (c : ScanMissingCandidateRow) (db : Projection) (k : BindingKey) : Prop :=
  c.candidateKind = .path ∧ c.fileRefId = some k.1 ∧ c.locationId = k.2 ∧
    ∃ file, db.fileObjects.get? k.1 = some file ∧ c.path = file.path

/-- The candidates of a scan name nothing present that an item unknown to the scan found. -/
def Unopposed (frontiers : FrontierMap) (s : ProjectionRun) (scan : ScanRunRow) : Prop :=
  ∀ c ∈ s.db.openCandidates scan.scanId, ∀ o ∈ s.history, scan.knows frontiers o = false →
    (∀ k ∈ positivePaths o.item, c.Names s.db k →
      ∀ p, s.db.fileLocations.get? k = some p → p.presence = false) ∧
    ∀ id ∈ positiveCopies o.item, c.copyClaimId = some id →
      ∀ copy, s.db.copyBindings.get? id = some copy → copy.state = .missing

theorem runningScan_scanId {db : Projection} {scanId : String} {scan : ScanRunRow}
    (h : db.runningScan scanId = some scan) : scan.scanId = scanId :=
  Table.key_of_get? (Option.filter_eq_some_iff.mp h).1

theorem namedPath_iff {db : Projection} {scanId : String} {k : BindingKey} {p : FileLocationRow}
    (hp : db.fileLocations.get? k = some p) :
    db.namedPath scanId k = true ↔ ∃ c ∈ db.openCandidates scanId, c.Names db k := by
  have hk : p.binding = k := Table.key_of_get? hp
  obtain rfl := hk
  rw [namedPath, hp, Option.any_some, pathCandidate, Option.any_eq_true]
  constructor
  · rintro ⟨file, hfile, h⟩
    obtain ⟨c, hc, h⟩ := List.any_eq_true.mp h
    simp only [Bool.and_eq_true, decide_eq_true_eq] at h
    obtain ⟨⟨⟨hkind, href⟩, hlocation⟩, hpath⟩ := h
    have hid : file.canonicalId = p.fileId := Table.key_of_get? hfile
    exact ⟨c, hc, hkind, href.trans (congrArg some hid), hlocation, file, hfile, hpath⟩
  · rintro ⟨c, hc, hkind, href, hlocation, file, hfile, hpath⟩
    have hid : file.canonicalId = p.fileId := Table.key_of_get? hfile
    refine ⟨file, hfile, List.any_eq_true.mpr ⟨c, hc, ?_⟩⟩
    simp only [Bool.and_eq_true, decide_eq_true_eq]
    exact ⟨⟨⟨hkind, by rw [hid]; exact href⟩, hlocation⟩, hpath⟩

theorem namedCopy_iff {db : Projection} {scanId id : String} :
    db.namedCopy scanId id = true ↔ ∃ c ∈ db.openCandidates scanId, c.copyClaimId = some id := by
  rw [namedCopy, List.any_eq_true]
  simp only [decide_eq_true_eq]

/-- The finalization of a complete scan hides nothing exactly when its candidates are unopposed. -/
theorem hidesNothing_iff {frontiers : FrontierMap} {s : ProjectionRun} {scan : ScanRunRow} {db' : Projection}
    (h : Withdraws s.db db' (s.db.namedPath scan.scanId) (s.db.namedCopy scan.scanId)) :
    HidesNothing frontiers s scan db' ↔ Unopposed frontiers s scan := by
  constructor
  · intro hhides c hc o ho hunknown
    refine ⟨fun k hk hnames p hp => ?_, fun id hid hcopy copy hget => ?_⟩
    · by_contra hpresence
      have hnamed := (namedPath_iff hp).mpr ⟨c, hc, hnames⟩
      have hpaths := h.paths k
      rw [hp, Option.map_some, hnamed] at hpaths
      obtain ⟨p', hp', hgone⟩ := Option.map_eq_some_iff.mp hpaths
      have hknows := hhides.paths k p p' hp hp' (by simpa using hpresence) (by rw [hgone]; simp) o ho hk
      rw [hunknown] at hknows
      cases hknows
    · by_contra hstate
      have hnamed := namedCopy_iff.mpr ⟨c, hc, hcopy⟩
      rcases h.copies id with ⟨hn, -⟩ | ⟨x, c', hx, hc', -, hst⟩
      · rw [hn] at hget
        cases hget
      · rw [hget] at hx
        cases hx
        rw [hnamed] at hst
        have hknows := hhides.copies id copy c' hget hc' hstate hst o ho hid
        rw [hunknown] at hknows
        cases hknows
  · intro hun
    constructor
    · intro k p p' hp hp' hpresent hgone o ho hk
      by_contra hunknown
      have hunknown : scan.knows frontiers o = false := by simpa using hunknown
      have hpaths := h.paths k
      rw [hp, hp', Option.map_some, Option.map_some] at hpaths
      have he : p'.presence = (p.presence && !s.db.namedPath scan.scanId k) := Option.some.inj hpaths
      rw [hgone, hpresent] at he
      have hnamed : s.db.namedPath scan.scanId k = true := by simpa using he
      obtain ⟨c, hc, hnames⟩ := (namedPath_iff hp).mp hnamed
      rw [(hun c hc o ho hunknown).1 k hk hnames p hp] at hpresent
      cases hpresent
    · intro id c c' hget hget' hstate hmissing o ho hid
      by_contra hunknown
      have hunknown : scan.knows frontiers o = false := by simpa using hunknown
      rcases h.copies id with ⟨hn, -⟩ | ⟨x, y, hx, hy, -, hst⟩
      · rw [hn] at hget
        cases hget
      · rw [hget] at hx
        cases hx
        rw [hget'] at hy
        cases hy
        cases hnamed : s.db.namedCopy scan.scanId id with
        | false =>
          rw [hnamed, hmissing] at hst
          exact hstate hst.symm
        | true =>
          obtain ⟨cand, hcand, hcopy⟩ := namedCopy_iff.mp hnamed
          exact hstate ((hun cand hcand o ho hunknown).2 id hid hcopy c hget)

/-! ### Candidates of other scans -/

section Others

variable {db db' : Projection} {t : Table scanMissingCandidateSchema}

/-- The projection with other candidates. -/
def Projection.withCandidates (db : Projection) (t : Table scanMissingCandidateSchema) : Projection :=
  { db with scanMissingCandidates := t }

def Projection.Finalization.withCandidates (s : Finalization) (t : Table scanMissingCandidateSchema) : Finalization :=
  ⟨s.db.withCandidates t, s.checked⟩

theorem newPresenceCheck_with (binding : BindingKey) (time : Nat) (presence : Presence) (batch : String) :
    (db.withCandidates t).newPresenceCheck binding time presence batch =
      ((db.newPresenceCheck binding time presence batch).1.withCandidates t,
        (db.newPresenceCheck binding time presence batch).2) := by
  have hd : (db.withCandidates t).directCheck binding presence batch = db.directCheck binding presence batch := rfl
  have hl : (db.withCandidates t).laterCheck binding presence time = db.laterCheck binding presence time := rfl
  unfold newPresenceCheck
  rw [hd, hl]
  cases db.directCheck binding presence batch with
  | some id => rfl
  | none => cases db.laterCheck binding presence time <;> rfl

theorem presenceCheck_with (s : Finalization) (binding : BindingKey) (time : Nat) (presence : Presence)
    (batch : String) : (s.withCandidates t).presenceCheck binding time presence batch =
      ((s.presenceCheck binding time presence batch).1.withCandidates t,
        (s.presenceCheck binding time presence batch).2) := by
  have hc : (s.withCandidates t).checked = s.checked := rfl
  have hdb : (s.withCandidates t).db = s.db.withCandidates t := rfl
  unfold Finalization.presenceCheck
  rw [hc]
  cases s.checked.find? fun c => c.1 = (binding, presence) with
  | some c => rfl
  | none =>
    simp only [hdb, newPresenceCheck_with]
    rfl

theorem publishPath_with (close : ScanClose) (s : Finalization) (target : BindingKey) :
    publishPath close (s.withCandidates t) target = (publishPath close s target).withCandidates t := by
  simp only [publishPath, presenceCheck_with]
  rfl

theorem refreshPath_with (close : ScanClose) (s : Finalization) (target : BindingKey) :
    refreshPath close (s.withCandidates t) target = (refreshPath close s target).withCandidates t := by
  simp only [refreshPath, presenceCheck_with]
  rfl

theorem refreshCopy_with (close : ScanClose) (s : Finalization) (target : CopyBindingRow) :
    refreshCopy close (s.withCandidates t) target = (refreshCopy close s target).withCandidates t := by
  simp only [refreshCopy, presenceCheck_with]
  rfl

theorem foldl_with {ι : Type} {f : Finalization → ι → Finalization}
    (hf : ∀ s i, f (s.withCandidates t) i = (f s i).withCandidates t) (s : Finalization) (is : List ι) :
    is.foldl f (s.withCandidates t) = (is.foldl f s).withCandidates t := by
  induction is generalizing s with
  | nil => rfl
  | cons i is ih => rw [List.foldl_cons, List.foldl_cons, hf, ih]

theorem publishCopy_with {close : ScanClose} {s s' : Finalization} {target : CopyBindingRow}
    (h : publishCopy close s target = .ok s') :
    publishCopy close (s.withCandidates t) target = .ok (s'.withCandidates t) := by
  simp only [publishCopy, presenceCheck_with]
  obtain ⟨copies, hcopies, h⟩ := bind_eq_ok.mp h
  cases h
  exact bind_eq_ok.mpr ⟨copies, hcopies, rfl⟩

theorem publishCopies_with {close : ScanClose} {s s' : Finalization} {targets : List CopyBindingRow}
    (h : commitAll (publishCopy close) s targets = .ok s') :
    commitAll (publishCopy close) (s.withCandidates t) targets = .ok (s'.withCandidates t) := by
  induction targets generalizing s with
  | nil =>
    cases h
    rfl
  | cons target targets ih =>
    obtain ⟨u, hu, h⟩ := (commitAll_cons _).mp h
    exact (commitAll_cons _).mpr ⟨_, publishCopy_with hu, ih h⟩

theorem refreshed_with (close : ScanClose) (d : Projection) (checked : List ((BindingKey × Presence) × Nat))
    (seen : List BindingKey) (present : List CopyBindingRow) :
    (present.foldl (refreshCopy close) (seen.foldl (refreshPath close) ⟨d.withCandidates t, checked⟩)).db =
      (present.foldl (refreshCopy close) (seen.foldl (refreshPath close) ⟨d, checked⟩)).db.withCandidates t := by
  have hstart : (⟨d.withCandidates t, checked⟩ : Finalization) = Finalization.withCandidates ⟨d, checked⟩ t := rfl
  rw [hstart, foldl_with (refreshPath_with close), foldl_with (refreshCopy_with close)]
  rfl

theorem openCandidates_kept {d : Projection} (h : d.scanMissingCandidates = db.scanMissingCandidates)
    (scanId : String) : d.openCandidates scanId = db.openCandidates scanId := by
  rw [openCandidates, openCandidates, h]

/-- A scan is published alike, whatever the candidates of other scans are. -/
theorem publishScan_with {close : ScanClose} {summary : Json}
    (ht : (db.withCandidates t).openCandidates close.scan.scanId = db.openCandidates close.scan.scanId)
    (h : db.publishScan close summary = .ok db') :
    ∃ t', (db.withCandidates t).publishScan close summary = .ok (db'.withCandidates t') := by
  obtain ⟨missing, hmissing, h⟩ := bind_eq_ok.mp h
  obtain ⟨u, hcount, h⟩ := bind_eq_ok.mp h
  obtain ⟨s, hcopies, h⟩ := bind_eq_ok.mp h
  have hpath : (db.withCandidates t).pathCandidate close.scan.scanId = db.pathCandidate close.scan.scanId := by
    funext location
    unfold pathCandidate
    rw [ht]
    rfl
  have hkept := (publishPaths_withdraws close ⟨db, []⟩
    ((db.fileLocations.rows.filter (db.pathCandidate close.scan.scanId)).map (·.binding))).2
  have hfold := foldl_with (t := t) (publishPath_with close) ⟨db, []⟩
    ((db.fileLocations.rows.filter (db.pathCandidate close.scan.scanId)).map (·.binding))
  generalize ((db.fileLocations.rows.filter (db.pathCandidate close.scan.scanId)).map
    (·.binding)).foldl (publishPath close) ⟨db, []⟩ = s₁ at hcopies hkept hfold
  have hcopy : (s₁.withCandidates t).db.copyCandidate close.scan.scanId =
      s₁.db.copyCandidate close.scan.scanId := by
    funext copy
    have hopen : (s₁.withCandidates t).db.openCandidates close.scan.scanId =
        s₁.db.openCandidates close.scan.scanId := ht.trans (openCandidates_kept hkept _).symm
    rw [copyCandidate, copyCandidate, hopen]
  have hpublished : commitAll (publishCopy close) (s₁.withCandidates t)
      ((s₁.withCandidates t).db.copyBindings.rows.filter
        ((s₁.withCandidates t).db.copyCandidate close.scan.scanId)) = .ok (s.withCandidates t) := by
    rw [hcopy]
    exact publishCopies_with hcopies
  have htargets : ((db.withCandidates t).fileLocations.rows.filter
      ((db.withCandidates t).pathCandidate close.scan.scanId)).map (·.binding) =
      (db.fileLocations.rows.filter (db.pathCandidate close.scan.scanId)).map (·.binding) := by
    rw [hpath]
    rfl
  have hstart : (⟨db.withCandidates t, []⟩ : Finalization) = Finalization.withCandidates ⟨db, []⟩ t := rfl
  refine ⟨((db.withCandidates t).activateCandidates close.scan.scanId).scanMissingCandidates, ?_⟩
  unfold publishScan
  refine bind_eq_ok.mpr ⟨missing, hmissing, bind_eq_ok.mpr ⟨u, by rw [ht]; exact hcount,
    bind_eq_ok.mpr ⟨s.withCandidates t, ?_, ?_⟩⟩⟩
  · rw [htargets, hstart, hfold]
    exact hpublished
  · by_cases hsummary : (summary.get "unchanged_files").isSome = true
    · rw [if_pos hsummary] at h ⊢
      cases h
      exact congrArg Except.ok (refreshed_with close (((s.db.activateCandidates close.scan.scanId).markCovered
        close.scan).markCoveredCopies (((s.db.activateCandidates close.scan.scanId).markCovered
          close.scan).coveredCopy close.scan) close.scan.scanId) s.checked _ _)
    · rw [if_neg hsummary] at h ⊢
      cases h
      rfl

/-- What a finalization does to the evidence depends on the open candidates of its scan only. -/
theorem finalizeScan_candidates {rid batch : String} {pending : ScanPendingCompletionRow} {a b : Projection}
    (ht : (db.withCandidates t).openCandidates pending.scanId = db.openCandidates pending.scanId)
    (ha : finalizeScan rid batch db pending = .ok a)
    (hb : finalizeScan rid batch (db.withCandidates t) pending = .ok b) : SameEvidence a b := by
  obtain ⟨summary, hsummary, ha⟩ := bind_eq_ok.mp ha
  obtain ⟨scan, hscan, ha⟩ := bind_eq_ok.mp ha
  obtain ⟨d, hd, ha⟩ := bind_eq_ok.mp ha
  obtain ⟨_, _, ha⟩ := bind_eq_ok.mp ha
  obtain ⟨_, _, ha⟩ := bind_eq_ok.mp ha
  cases ha
  obtain ⟨summary', hsummary', hb⟩ := bind_eq_ok.mp hb
  obtain ⟨scan', hscan', hb⟩ := bind_eq_ok.mp hb
  obtain ⟨d', hd', hb⟩ := bind_eq_ok.mp hb
  obtain ⟨_, _, hb⟩ := bind_eq_ok.mp hb
  obtain ⟨_, _, hb⟩ := bind_eq_ok.mp hb
  cases hb
  obtain rfl : summary = summary' := Except.ok.inj (hsummary.symm.trans hsummary')
  obtain rfl : scan = scan' := Except.ok.inj (hscan.symm.trans hscan')
  have hsame : SameEvidence d d' := by
    by_cases hcomplete : pending.desiredStatus = .complete ∧ scan.mode = .complete
    · rw [closeScan, if_pos hcomplete] at hd hd'
      have hid : scan.scanId = pending.scanId := runningScan_scanId (statement_eq_ok.mp hscan)
      rw [← hid] at ht
      obtain ⟨t', ht'⟩ := publishScan_with ht hd
      obtain rfl : d.withCandidates t' = d' := Except.ok.inj (ht'.symm.trans hd')
      exact ⟨rfl, rfl, rfl, rfl⟩
    · rw [closeScan, if_neg hcomplete] at hd hd'
      obtain ⟨_, _, hd⟩ := bind_eq_ok.mp hd
      obtain ⟨_, _, hd'⟩ := bind_eq_ok.mp hd'
      cases hd
      cases hd'
      exact ⟨rfl, rfl, rfl, rfl⟩
  exact ⟨hsame.files, hsame.locations, hsame.copies, hsame.checks⟩

end Others

/-! ### Paths -/

/-- An item that stages a candidate changes no evidence. -/
theorem projectItem_candidate {R : ProjectionRuntime} {context : V2VerificationContext} {db db' : Projection}
    {o : AppliedItem} {kind : String} {index : Nat} (hkind : kind = "scan_missing_candidate")
    (h : db.projectItem R o.item kind o.record context index = .ok db') : SameEvidence db db' := by
  obtain ⟨d, heffect, hsame⟩ := projectItem_effect h
  refine SameEvidence.trans ?_ hsame.evidence
  cases heffect with
  | candidate hk h =>
    rw [projectScanMissingCandidate_frame h]
    exact ⟨rfl, rfl, rfl, rfl⟩
  | content hk h => exact absurd (hkind.symm.trans hk) (by decide)
  | failure hk h => exact absurd (hkind.symm.trans hk) (by decide)
  | annex hk h => exact absurd (hkind.symm.trans hk) (by decide)
  | scanStarted hk h => exact absurd (hkind.symm.trans hk) (by decide)
  | scanCompleted hk h => exact absurd (hkind.symm.trans hk) (by decide)
  | other hk h => exact h.evidence

variable {R : ProjectionRuntime} {context : V2VerificationContext}

/-- The finalization publishes a complete scan. -/
def Publishes (db : Projection) (pending : ScanPendingCompletionRow) (scan : ScanRunRow) : Prop :=
  db.runningScan pending.scanId = some scan ∧ pending.desiredStatus = .complete ∧ scan.mode = .complete

/-- Along a path, the complete scans that are published hide nothing exactly when their candidates
are unopposed.  Candidates change nothing before, nor do those of other scans. -/
theorem scans_hide_nothing_iff {db : Projection} {p : List (ProjectionAct × ProjectionRun)}
    (hp : ProjectionPath R context ⟨db, []⟩ p) :
    ((∀ (q : List (ProjectionAct × ProjectionRun)) (record : VerifiedV2Record) (pending : ScanPendingCompletionRow)
        (t : ProjectionRun) (r : List (ProjectionAct × ProjectionRun)) (scan : ScanRunRow),
      p = q ++ (.finalize record pending, t) :: r → Publishes (final ⟨db, []⟩ q).db pending scan →
          HidesNothing context.frontiers (final ⟨db, []⟩ q) scan t.db) ↔
      ∀ (q : List (ProjectionAct × ProjectionRun)) (record : VerifiedV2Record) (pending : ScanPendingCompletionRow)
        (t : ProjectionRun) (r : List (ProjectionAct × ProjectionRun)) (scan : ScanRunRow),
      p = q ++ (.finalize record pending, t) :: r → Publishes (final ⟨db, []⟩ q).db pending scan →
          Unopposed context.frontiers (final ⟨db, []⟩ q) scan) ∧
    (∀ (q : List (ProjectionAct × ProjectionRun)) (o : AppliedItem) (index : Nat) (t : ProjectionRun)
        (r : List (ProjectionAct × ProjectionRun)), p = q ++ (.item o index, t) :: r →
      optionalString o.item "kind" = some "scan_missing_candidate" →
        SameEvidence (final ⟨db, []⟩ q).db t.db) ∧
    (∀ (q : List (ProjectionAct × ProjectionRun)) (record : VerifiedV2Record) (pending : ScanPendingCompletionRow)
        (t : ProjectionRun) (r : List (ProjectionAct × ProjectionRun)), p = q ++ (.finalize record pending, t) :: r →
      (¬ ∃ scan, Publishes (final ⟨db, []⟩ q).db pending scan) → SameEvidence (final ⟨db, []⟩ q).db t.db) ∧
    ∀ (q : List (ProjectionAct × ProjectionRun)) (record : VerifiedV2Record) (pending : ScanPendingCompletionRow)
        (t : ProjectionRun) (r : List (ProjectionAct × ProjectionRun)) (candidates : Table scanMissingCandidateSchema)
        (db' : Projection), p = q ++ (.finalize record pending, t) :: r →
      ((final ⟨db, []⟩ q).db.withCandidates candidates).openCandidates pending.scanId =
        (final ⟨db, []⟩ q).db.openCandidates pending.scanId →
      finalizeScan record.record.envelope.recordId record.batchId
        ((final ⟨db, []⟩ q).db.withCandidates candidates) pending = .ok db' → SameEvidence t.db db' := by
  have hstep : ∀ q a t r, p = q ++ (a, t) :: r → ProjectionStep R context (final ⟨db, []⟩ q) a t := by
    rintro q a t r rfl
    exact hp.step
  have hiff : ∀ q record pending t r scan, p = q ++ (.finalize record pending, t) :: r →
      Publishes (final ⟨db, []⟩ q).db pending scan →
        (HidesNothing context.frontiers (final ⟨db, []⟩ q) scan t.db ↔
          Unopposed context.frontiers (final ⟨db, []⟩ q) scan) := by
    rintro q record pending t r scan hq ⟨hscan, hstatus, hmode⟩
    cases hstep q _ t r hq with
    | finalize h =>
      cases finalizeScan_effect h with
      | published hscan' _ _ hw =>
        rw [hscan] at hscan'
        cases hscan'
        exact hidesNothing_iff hw
      | inert hscan' hopen _ =>
        rw [hscan] at hscan'
        cases hscan'
        exact absurd ⟨hstatus, hmode⟩ hopen
  refine ⟨⟨?_, ?_⟩, ?_, ?_, ?_⟩
  · intro h q record pending t r scan hq hpub
    exact (hiff q record pending t r scan hq hpub).mp (h q record pending t r scan hq hpub)
  · intro h q record pending t r scan hq hpub
    exact (hiff q record pending t r scan hq hpub).mpr (h q record pending t r scan hq hpub)
  · intro q o index t r hq hkind
    cases hstep q _ t r hq with
    | item hkind' h =>
      have hkind' := string_eq_ok.mp hkind'
      rw [hkind] at hkind'
      exact projectItem_candidate (Option.some.inj hkind').symm h
  · intro q record pending t r hq hnone
    cases hstep q _ t r hq with
    | finalize h =>
      cases finalizeScan_effect h with
      | published hscan hstatus hmode _ => exact absurd ⟨_, hscan, hstatus, hmode⟩ hnone
      | inert _ _ he => exact he
  · intro q record pending t r candidates db' hq hopen hother
    cases hstep q _ t r hq with
    | finalize h => exact finalizeScan_candidates hopen h hother

/-! ### A scan beside another client -/

namespace Sample

/-! ### Small projections

A registry with three clients, two Locations and one Collection, and the records of
batches that hold one chunk.  Records are numbered as in the small archives.
-/

/-- The fields of an encoded path. -/
def readPath (value : Json) : Except String RegistryPath :=
  match optionalString value "encoding", optionalString value "display" with
  | some encoding, some display =>
      .ok ⟨encoding, optionalString value "text", optionalString value "base64", display⟩
  | _, _ => .error "missing field"

/-- No document of the registry is read. -/
def projectionRuntime : ProjectionRuntime where
  toStoreRuntime := (documents [] []).runtime
  readRegistryPath := readPath
  readSite _ := .error "missing field"
  readPolicy _ := .error "missing field"
  readCollection _ := .error "missing field"
  readDevice _ := .error "missing field"
  readArchiveRoot _ := .error "missing field"
  readLocation _ := .error "missing field"
  readRiskDomain _ := .error "missing field"
  readRiskAssignment _ := .error "missing field"
  readDeviceCheckIn _ := .error "missing field"
  readDeviceMount _ := .error "missing field"

/-! ### The registry -/

def collectionId : String := "col_sample"

def locationId (n : Nat) : String := numbered "loc_" n

def location (n : Nat) : LocationRow where
  snapshot := ⟨locationId n, "Location", "disk", none, none, none, none, none, none, "online", true, "active"⟩
  relativePathBytes := none

def clientRow (n : Nat) : ClientRow where
  clientId := client n
  displayName := "client"
  publicKey := key n
  capabilities := ["coordination"]
  status := .enrolled
  approvedRecordId := numbered "rec_" 0
  approvedOriginId := client 1
  approvedOriginSeq := 2
  revokedRecordId := none

def projectionMeta : ProjectionMeta :=
  ⟨"arc_sample", "Sample", 3, 2, genesisHash, frontierId 0, frontierId 0, 1, 0, 0⟩

/-- The registry, and no facts. -/
def registry : Projection :=
  let empty := Projection.empty projectionMeta
  { empty with
    clients := [1, 2, 3].foldl (fun t n => t.insertOrIgnore (clientRow n)) .empty
    collections := Table.empty.insertOrIgnore ⟨collectionId, "Collection", none, none, none, "active"⟩
    locations := [1, 2].foldl (fun t n => t.insertOrIgnore (location n)) .empty }

/-! ### Batches -/

/-- A batch of one chunk: its number, its client, its place among the batches of the
client, the frontier it was appended to and its items. -/
structure ProjectedBatch where
  number : Nat
  client : Nat
  place : Nat
  base : Nat
  items : List Json

/-- The record at an index of a batch. -/
def projectedRecord (b : ProjectedBatch) (i : Nat) (kind : V2RecordKind) (payload : Json) :
    VerifiedV2Record where
  record :=
    { envelope :=
        { v := 2
          originId := client b.client
          originSeq := 3 * b.place + i + 1
          recordId := numbered "rec_" (3 * b.number + i)
          recordKind := kind
          timeUtcMs := 1000 * b.number
          batchId := numbered "batch_" b.number
          previousRecordHash := none
          payload := payload }
      recordHash := recordId (3 * b.number + i) }
  exactLineBytes := []
  segmentManifestHash := manifestId b.number
  causalFrontierHash := frontierId b.base

def startRecord (b : ProjectedBatch) : VerifiedV2Record :=
  projectedRecord b 0 .batchStart (.obj [("operation_kind", string "sample"),
    ("item_schema_version", .num "1"), ("causal_frontier_hash", string (frontierId b.base)),
    ("context", .obj []), ("defaults", .obj [])])

def chunkRecord (b : ProjectedBatch) : VerifiedV2Record :=
  projectedRecord b 1 .batchChunk (.obj [("first_item_index", .num "0"), ("items", .arr b.items)])

def completeRecord (b : ProjectedBatch) : VerifiedV2Record :=
  projectedRecord b 2 .batchComplete (.obj [("total_items", .num b.items.length.repr),
    ("ordered_item_digest", string (digestOf b.items.length (3 * b.number + 1))),
    ("status", string "complete")])

/-- A frontier with the last batch of each of some clients. -/
def frontierAt (tails : List ProjectedBatch) : CausalFrontier where
  v := 2
  archiveId := "arc_sample"
  genesisHash := genesisHash
  origins := tails.map fun b =>
    ⟨client b.client, 3 * b.place + 3, recordId (3 * b.number + 2), manifestId b.number⟩
  previousFrontiers := []
  itemProjectionVersion := 1

/-- What a verification knows of the frontiers, by their numbers. -/
def contextOf (frontiers : List (List ProjectedBatch)) : V2VerificationContext where
  genesis := genesis.body
  genesisHash := genesisHash
  acceptedFrontier := frontierAt []
  acceptedFrontierHash := frontierId 0
  frontiers := frontiers.zipIdx.map fun f => (frontierId f.2, frontierAt f.1)

/-! ### Items -/

def pathJson (text : String) : Json :=
  .obj [("encoding", string "utf8"), ("text", string text), ("display", string text)]

def objectDigest (n : Nat) : String := hash (document 7 n)

/-- Object `n` observed as a File at a Location. -/
def observedFile (n : Nat) (file path : String) (location : Nat) (copy copyPath : String) : Json :=
  .obj [("kind", string "content_observed"), ("object_id", string ("blake3:" ++ objectDigest n)),
    ("blake3_hex", string (objectDigest n)), ("size_bytes", .num "1"),
    ("observed_time_utc_ms", .num "5"), ("representation", string "ordinary_file"),
    ("collection_id", string collectionId), ("logical_path", pathJson path),
    ("file_ref_id", string file), ("location_id", string (locationId location)),
    ("copy_claim_id", string copy), ("copy_path", pathJson copyPath)]

/-! ### Files of one content -/

def thirtyDays : PolicySnapshot :=
  ⟨"pol_1", "Policy", 1, ⟨1, 1, 1, false, false, false, 30, 30, 30⟩, true, "active"⟩

def sharedContent : ContentObjectRow := ⟨"blake3:01", 1, none, "rec_1", 1⟩

/-- A File of the shared content. -/
def sharedFile (file collection path : String) : FileObjectRow where
  canonicalId := file
  collectionId := collection
  path := ⟨"utf8", utf8 path⟩
  pathDisplay := none
  content := some sharedContent.objectId
  external := none
  identityState := .resolved
  active := true
  modifiedTime := none
  observedSize := some 1
  firstRecord := "rec_1"
  lastRecord := "rec_1"
  removedRecord := none

/-! ### A scan and an observation it does not know -/

/-- The start of a batch with a lease on its base. -/
def leasedStart (b : ProjectedBatch) : VerifiedV2Record :=
  projectedRecord b 0 .batchStart (.obj [("operation_kind", string "location_scan"),
    ("item_schema_version", .num "1"), ("causal_frontier_hash", string (frontierId b.base)),
    ("context", .obj [("coordination", .obj [("scope_kind", string "archive"), ("scope_id", string "arc_sample"),
      ("token_id", string (numbered "token_" b.number)), ("holder_client_id", string (client b.client)),
      ("base_frontier_hash", string (frontierId b.base)), ("not_before_utc_ms", .num "0"),
      ("not_after_utc_ms", .num "9000"), ("lease_proof", .obj [])])]), ("defaults", .obj [])])

def scanStarted : Json :=
  .obj [("kind", string "scan_started"), ("scan_mode", string "complete"), ("scope", .obj []),
    ("exclusions", .arr []), ("scan_id", string "scan_1"), ("job_id", string "job_1"),
    ("location_id", string (locationId 1)), ("collection_id", string collectionId),
    ("started_time_utc_ms", .num "10")]

def missingCandidate : Json :=
  .obj [("kind", string "scan_missing_candidate"), ("candidate_kind", string "path"),
    ("scan_id", string "scan_1"), ("path", pathJson "a"), ("candidate_id", string "missing_1"),
    ("file_ref_id", string "file_a"), ("copy_claim_id", string "copy_a"),
    ("location_id", string (locationId 1))]

def scanSummary : Json :=
  .obj [("read_errors", .num "0"), ("concurrent_changes", .num "0"), ("traversal_errors", .num "0"),
    ("files_observed", .num "0"), ("missing_paths", .num "1"), ("bytes_observed", .num "0"),
    ("new_paths", .num "0"), ("changed_paths", .num "0"), ("confirmed_good", .num "0")]

def scanCompleted : Json :=
  .obj [("kind", string "scan_completed"), ("status", string "complete"), ("scan_id", string "scan_1"),
    ("finished_time_utc_ms", .num "20"), ("summary", scanSummary)]

/-- Client 1 adds a File, which client 2 finds again while client 1 scans without it. -/
def added : ProjectedBatch := ⟨1, 1, 0, 0, [observedFile 1 "file_a" "a" 1 "copy_a" "a"]⟩

def found : ProjectedBatch := ⟨2, 2, 0, 1, [observedFile 1 "file_a" "a" 1 "copy_a" "a"]⟩

def swept : ProjectedBatch := ⟨3, 1, 1, 1, [scanStarted, missingCandidate, scanCompleted]⟩

def sweptContext : V2VerificationContext := contextOf [[], [added]]

/-- The projection with the three batches begun. -/
def sweptBegun : Projection :=
  let start := commitAll (Projection.projectRecord projectionRuntime sweptContext) registry
    [startRecord added, startRecord found, leasedStart swept]
  let records := start.bind fun db => commitAll (fun db r => (db.insertRecord r).map Prod.fst) db
    [chunkRecord added, chunkRecord found, chunkRecord swept, completeRecord swept]
  records.toOption.getD registry

def actsOf (b : ProjectedBatch) : List ProjectionAct :=
  b.items.zipIdx.map fun i => .item ⟨chunkRecord b, i.1⟩ i.2

def sweptPending : ScanPendingCompletionRow :=
  ⟨"scan_1", numbered "batch_" 3, .complete, 20, scanSummary, numbered "rec_" 10⟩

def sweptFinalize : ProjectionAct := .finalize (completeRecord swept) sweptPending

/-- The File was present and is missing, and an item that the scan does not know found it. -/
def hidden (s t : ProjectionRun) (scan : ScanRunRow) : Bool :=
  (s.db.fileLocations.get? ("file_a", locationId 1)).any (·.presence) &&
    (t.db.fileLocations.get? ("file_a", locationId 1)).any (fun p => !p.presence) &&
    s.history.any fun o => decide (("file_a", locationId 1) ∈ positivePaths o.item) &&
      !scan.knows sweptContext.frontiers o

theorem swept_run : ∃ s, commitAll (fun s a => ProjectionRun.next projectionRuntime sweptContext s a)
    ⟨sweptBegun, []⟩ (actsOf added ++ actsOf found ++ actsOf swept) = .ok s ∧
      ((s.db.runningScan "scan_1").any fun scan => decide (scan.mode = .complete) &&
        (ProjectionRun.next projectionRuntime sweptContext s sweptFinalize).toOption.any
          fun t => hidden s t scan) = true :=
  exists_ok_of_any (by decide +kernel)

theorem not_hidesNothing {s t : ProjectionRun} {scan : ScanRunRow} (h : hidden s t scan = true) :
    ¬ HidesNothing sweptContext.frontiers s scan t.db := by
  intro hides
  simp only [hidden, Bool.and_eq_true, Option.any_eq_true, List.any_eq_true, decide_eq_true_eq,
    Bool.not_eq_true'] at h
  obtain ⟨⟨⟨p, hp, hpresent⟩, p', hp', hgone⟩, o, ho, hk, hunknown⟩ := h
  rw [hides.paths _ p p' hp hp' hpresent hgone o ho hk] at hunknown
  cases hunknown

/-- The scan of client 1 hides the File that client 2 found meanwhile. -/
theorem swept_hides : ∃ (p : List (ProjectionAct × ProjectionRun)) (t : ProjectionRun) (scan : ScanRunRow), p.map Prod.fst = actsOf added ++ actsOf found ++ actsOf swept ∧
    ProjectionPath projectionRuntime sweptContext ⟨sweptBegun, []⟩ (p ++ [(sweptFinalize, t)]) ∧
      Publishes (final ⟨sweptBegun, []⟩ p).db sweptPending scan ∧
      ¬ HidesNothing sweptContext.frontiers (final ⟨sweptBegun, []⟩ p) scan t.db := by
  obtain ⟨s, hrun, h⟩ := swept_run
  obtain ⟨p, hacts, hp, rfl⟩ := path_of_acts hrun
  obtain ⟨scan, hscan, h⟩ := (Option.any_eq_true _ _).mp h
  rw [Bool.and_eq_true, decide_eq_true_eq] at h
  obtain ⟨hmode, h⟩ := h
  obtain ⟨t, ht, h⟩ := exists_ok_of_any h
  refine ⟨p, t, scan, hacts, path_append.mpr ⟨hp, ?_, trivial⟩, ⟨hscan, rfl, hmode⟩, not_hidesNothing h⟩
  exact ProjectionRun.step_of_next ht

theorem swept_iff : ∃ p : List (ProjectionAct × ProjectionRun),
    p.map Prod.fst = actsOf added ++ actsOf found ++ actsOf swept ++ [sweptFinalize] ∧
    ProjectionPath projectionRuntime sweptContext ⟨sweptBegun, []⟩ p ∧
    ((∀ (q : List (ProjectionAct × ProjectionRun)) (record : VerifiedV2Record) (pending : ScanPendingCompletionRow)
        (t : ProjectionRun) (r : List (ProjectionAct × ProjectionRun)) (scan : ScanRunRow),
      p = q ++ (.finalize record pending, t) :: r → Publishes (final ⟨sweptBegun, []⟩ q).db pending scan →
          HidesNothing sweptContext.frontiers (final ⟨sweptBegun, []⟩ q) scan t.db) ↔
      ∀ (q : List (ProjectionAct × ProjectionRun)) (record : VerifiedV2Record) (pending : ScanPendingCompletionRow)
        (t : ProjectionRun) (r : List (ProjectionAct × ProjectionRun)) (scan : ScanRunRow),
      p = q ++ (.finalize record pending, t) :: r → Publishes (final ⟨sweptBegun, []⟩ q).db pending scan →
          Unopposed sweptContext.frontiers (final ⟨sweptBegun, []⟩ q) scan) := by
  obtain ⟨p, t, scan, hacts, hp, -⟩ := swept_hides
  refine ⟨_, ?_, hp, (scans_hide_nothing_iff hp).1⟩
  rw [List.map_append, hacts]
  rfl

end Sample

end ArchiveLedger
