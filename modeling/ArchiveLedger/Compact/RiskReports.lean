import ArchiveLedger.Compact.Risk
import ArchiveLedger.Projection.Scans

/-!
# The risk queries agree

The query on integer keys selects contents first and works on the keys of Locations; the old one reads the
views.  Both find the same Locations behind a content (`perm_located`), so both report the same of every
File (`oldRows_eq`), and what `finalize_v2_file_risk` adds up over the rows is what the totals count
(`riskQueries_agree`).
-/

namespace ArchiveLedger.Compact

open Relational

/-! ### The Locations behind a content -/

namespace Tables

variable (t : Tables) (q : RiskParameters)

/-- The row of `qualifying` of a Location. -/
def located (l : LocationRow) : Option QualifyingLocation :=
  if l.status = "active" then
    qualifyingLocation q l ((l.deviceId.bind t.devices.get?).filter fun d => decide (d.status = "active"))
  else none

/-- A Location by its name. -/
def named (name : String) : Option LocationRow :=
  t.locations.rows.find? fun l => decide (l.locationId = name)

/-- The conditions on the checks of a Copy. -/
def evidenced (b : CopyBindingRow) : Bool :=
  ((t.check? b.latestPresence).any fun p => decide (q.observationCutoff ≤ p.checkedAt)) &&
    (t.check? b.latestIntegrity).any fun v => decide (q.verificationCutoff ≤ v.checkedAt) &&
      decide (v.integrity = .verified) && harmless (t.error? (some v))

/-- The Locations that `eligible` pairs with a content. -/
def eligibleLocations (content : Option Int) : List Int :=
  ((t.eligible q).filter fun e => same e.1 content).map Prod.snd

def oldEligibleLocations (selected : Bool) (objectId : Option String) : List String :=
  ((t.oldEligible q selected).filter fun e => same e.1 objectId).map Prod.snd

/-- The row of `coverage` of a content. -/
def contentCoverage (content : Option Int) : Coverage :=
  Coverage.of q.homeSiteId
    ((t.eligibleLocations q content).filterMap fun id => (t.locations.get? id).bind (t.located q))

def oldContentCoverage (selected : Bool) (objectId : Option String) : Coverage :=
  Coverage.of q.homeSiteId
    ((t.oldEligibleLocations q selected objectId).filterMap fun name => (t.named name).bind (t.located q))

end Tables

section

variable {t : Tables} {q : RiskParameters}

/-- What a Location that a join finds gives. -/
theorem located_rows (l : Option LocationRow) :
    ((l.filter fun l => decide (l.status = "active")).toList.flatMap fun l =>
      (leftJoin t.devices.rows fun d => same (some d.deviceId) l.deviceId && decide (d.status = "active")).flatMap
        fun d => (qualifyingLocation q l d).toList) = (l.bind (t.located q)).toList := by
  cases l with
  | none => rfl
  | some l =>
    by_cases hstatus : l.status = "active"
    · have hdevice := leftJoin_same_and t.devices l.deviceId fun d => decide (d.status = "active")
      simp only [Option.filter_some, hstatus, decide_true, if_true, Option.toList_some, List.flatMap_singleton,
        Option.bind_some, Tables.located]
      rw [hdevice, List.flatMap_singleton]
    · simp [Option.filter, hstatus, Tables.located]

theorem qualifying_eq : t.qualifying q = (t.eligible q).filterMap fun e =>
    ((t.locations.get? e.2).bind (t.located q)).map fun r => (e.1, r) := by
  rw [List.filterMap_eq_flatMap_toList]
  refine List.flatMap_congr fun e _ => ?_
  have hlocation := filter_key_and t.locations e.2 fun l => decide (l.status = "active")
  rw [hlocation, Option.toList_map, ← located_rows, List.map_flatMap]
  simp only [List.map_flatMap, Option.toList_map]

theorem oldQualifying_eq (selected : Bool) : t.oldQualifying q selected = (t.oldEligible q selected).filterMap
    fun e => ((t.named e.2).bind (t.located q)).map fun r => (e.1, r) := by
  rw [List.filterMap_eq_flatMap_toList]
  refine List.flatMap_congr fun e _ => ?_
  have hlocation := filter_column_and (t := t.locations) (c := LocationRow.locationId)
    (fun _ hr _ hs => eq_of_column hr hs) e.2 fun l => decide (l.status = "active")
  rw [hlocation, Option.toList_map, Tables.named, ← located_rows, List.map_flatMap]
  simp only [List.map_flatMap, Option.toList_map]

theorem leftJoin_coverage (content : Option Int) :
    (leftJoin (t.coverage q) fun c => same c.1 content).map
      (fun c => (c.map Prod.snd).getD (Coverage.of q.homeSiteId [])) = [t.contentCoverage q content] := by
  have hgroups := leftJoin_groups Prod.fst (t.qualifying q) content
    fun rows => Coverage.of q.homeSiteId (rows.map Prod.snd)
  rw [Tables.coverage, leftJoin_map, List.map_map]
  refine (List.map_congr_left fun g _ => ?_).trans (hgroups.trans ?_)
  · cases g <;> rfl
  · rw [qualifying_eq]
    exact congrArg (fun rows => [Coverage.of q.homeSiteId rows]) (filter_filterMap_fst (t.eligible q)
      (fun id => (t.locations.get? id).bind (t.located q)) fun k => same k content)

theorem leftJoin_oldCoverage (selected : Bool) (objectId : Option String) :
    (leftJoin (t.oldCoverage q selected) fun c => same c.1 objectId).map
      (fun c => (c.map Prod.snd).getD (Coverage.of q.homeSiteId [])) =
        [t.oldContentCoverage q selected objectId] := by
  have hgroups := leftJoin_groups Prod.fst (t.oldQualifying q selected) objectId
    fun rows => Coverage.of q.homeSiteId (rows.map Prod.snd)
  rw [Tables.oldCoverage, leftJoin_map, List.map_map]
  refine (List.map_congr_left fun g _ => ?_).trans (hgroups.trans ?_)
  · cases g <;> rfl
  · rw [oldQualifying_eq]
    exact congrArg (fun rows => [Coverage.of q.homeSiteId rows]) (filter_filterMap_fst (t.oldEligible q selected)
      (fun name => (t.named name).bind (t.located q)) fun k => same k objectId)

end

section

variable {t : Tables} {q : RiskParameters}

theorem mem_eligible {e : Option Int × Int} : e ∈ t.eligible q ↔ ∃ s ∈ t.selectedContent q,
    ∃ b ∈ t.copyBindings.rows, b.contentId = some s ∧ b.state = .present ∧ t.evidenced q b = true ∧
      e = (b.contentId, b.locationId) := by
  have hpresence : ∀ b : CopyBindingRow, _ := fun b => filter_same_and t.checks b.latestPresence
    fun p => decide (q.observationCutoff ≤ p.checkedAt)
  have hintegrity : ∀ b : CopyBindingRow, _ := fun b => filter_same_and t.checks b.latestIntegrity
    fun v => decide (q.verificationCutoff ≤ v.checkedAt) && decide (v.integrity = .verified)
  have herror : ∀ v : CheckRow, (leftJoin t.checkErrors.rows fun e => same (some e.checkId) (some v.id)) =
      [t.error? (some v)] := fun v => leftJoin_errors (some v)
  simp only [Tables.eligible, List.mem_dedup, List.mem_flatMap, hpresence, hintegrity, herror, List.mem_filter,
    Option.mem_toList, Option.filter_eq_some_iff, List.mem_singleton, exists_eq_left, List.mem_ite_nil_right]
  simp only [Tables.evidenced, Tables.check?, Option.any_eq_true, Bool.and_eq_true, decide_eq_true_eq,
    same_some_right]
  refine exists_congr fun s => and_congr_right fun _ => exists_congr fun b => ?_
  constructor
  · intro h
    obtain ⟨⟨hb, hcontent, hstate⟩, p, ⟨hp, hseen⟩, v, ⟨hv, hverified, hgood⟩, hharmless, he⟩ := h
    exact ⟨hb, hcontent, hstate, ⟨⟨p, hp, hseen⟩, v, hv, ⟨hverified, hgood⟩, hharmless⟩, he⟩
  · intro h
    obtain ⟨hb, hcontent, hstate, ⟨⟨p, hp, hseen⟩, v, hv, ⟨hverified, hgood⟩, hharmless⟩, he⟩ := h
    exact ⟨⟨hb, hcontent, hstate⟩, p, ⟨hp, hseen⟩, v, ⟨hv, hverified, hgood⟩, hharmless, he⟩

theorem mem_eligibleLocations {content id : Int} : id ∈ t.eligibleLocations q (some content) ↔
    content ∈ t.selectedContent q ∧ ∃ b ∈ t.copyBindings.rows, b.contentId = some content ∧
      b.state = .present ∧ t.evidenced q b = true ∧ b.locationId = id := by
  simp only [Tables.eligibleLocations, List.mem_map, List.mem_filter, mem_eligible, same_some_right,
    decide_eq_true_eq]
  constructor
  · intro h
    obtain ⟨e, ⟨⟨s, hs, b, hb, hcontent, hstate, hevidence, rfl⟩, hkey⟩, rfl⟩ := h
    have he : s = content := Option.some.inj (hcontent.symm.trans hkey)
    exact ⟨he ▸ hs, b, hb, hkey, hstate, hevidence, rfl⟩
  · intro h
    obtain ⟨hs, b, hb, hcontent, hstate, hevidence, rfl⟩ := h
    exact ⟨_, ⟨⟨content, hs, b, hb, hcontent, hstate, hevidence, rfl⟩, hcontent⟩, rfl⟩

theorem verificationResult_eq_ok {v : Option CheckRow} {e : Option CheckErrorRow} :
    verificationResult v e = some .ok ↔
      (v.any fun v => decide (v.integrity = .verified)) = true ∧ harmless e = true := by
  have hmeasured : ∀ e : Option CheckErrorRow, harmless e = true →
      (verificationResult v e = some .ok ↔ (v.any fun v => decide (v.integrity = .verified)) = true) := by
    intro e he
    have hresult : verificationResult v e = verificationResult v none := by
      cases e with
      | none => rfl
      | some e =>
        simp only [harmless, Option.all_some, Bool.and_eq_true, decide_eq_true_eq] at he
        simp [verificationResult, he]
    rw [hresult]
    cases v with
    | none => simp [verificationResult]
    | some v => cases hv : v.integrity <;> simp [verificationResult, hv]
  by_cases he : harmless e = true
  · simp [hmeasured e he, he]
  · cases e with
    | none => exact absurd rfl he
    | some e =>
      simp only [harmless, Option.all_some, Bool.and_eq_true, decide_eq_true_eq, not_and_or, not_not] at he
      rcases he with he | he
      · simp [verificationResult, harmless, he]
      · simp [verificationResult, harmless, he]

/-- The conditions of the old queries on a claim are those on the checks of its Copy. -/
theorem claim_evidenced (b : CopyBindingRow) (f : FileObjectRow) (l : LocationRow) :
    ((t.copyClaim b f l).lastVerificationResult = some .ok ∧
      ((t.copyClaim b f l).lastSeenTimeUtcMs.any fun time => decide (q.observationCutoff ≤ time)) = true ∧
      ((t.copyClaim b f l).lastVerifiedTimeUtcMs.any fun time => decide (q.verificationCutoff ≤ time)) = true) ↔
        t.evidenced q b = true := by
  simp only [Tables.copyClaim, verificationResult_eq_ok, Tables.evidenced, Option.any_map]
  cases t.check? b.latestPresence with
  | none => simp
  | some p =>
    cases t.check? b.latestIntegrity with
    | none => simp
    | some v => simp [and_assoc, and_comm, and_left_comm]

theorem mem_oldEligibleLocations {selected : Bool} {objectId name : String} :
    name ∈ t.oldEligibleLocations q selected (some objectId) ↔
      selected = true ∧ ∃ b ∈ t.copyBindings.rows, ∃ x, t.claimed? b = some x ∧
        (t.content? b.contentId).map ContentObjectRow.objectId = some objectId ∧ b.state = .present ∧
        t.evidenced q b = true ∧ x.2.locationId = name := by
  simp only [Tables.oldEligibleLocations, Tables.oldEligible, copyClaims_eq, List.mem_map, List.mem_filter,
    List.mem_dedup, List.mem_filterMap, Option.map_eq_some_iff, same_some_right, Bool.and_eq_true,
    decide_eq_true_eq]
  constructor
  · intro h
    obtain ⟨_, ⟨⟨c, ⟨⟨b, hb, x, hx, rfl⟩, hselected, hstate, hresult, hseen, hverified⟩, rfl⟩, hobject⟩, rfl⟩ := h
    exact ⟨hselected, b, hb, x, hx, Option.map_eq_some_iff.mp hobject, hstate,
      (claim_evidenced b x.1 x.2).mp ⟨hresult, hseen, hverified⟩, rfl⟩
  · intro h
    obtain ⟨hselected, b, hb, x, hx, hobject, hstate, hevidence, rfl⟩ := h
    obtain ⟨hresult, hseen, hverified⟩ := (claim_evidenced b x.1 x.2).mpr hevidence
    exact ⟨_, ⟨⟨_, ⟨⟨b, hb, x, hx, rfl⟩, hselected, hstate, hresult, hseen, hverified⟩, rfl⟩,
      Option.map_eq_some_iff.mpr hobject⟩, rfl⟩

end

/-! ### The same Locations -/

section

variable (db : CompactDb) (q : RiskParameters)

theorem named_of_get? {t : Tables} {id : Int} {l : LocationRow} (h : t.locations.get? id = some l) :
    t.named l.locationId = some l := by
  have hunique := filter_unique (t := t.locations) (c := LocationRow.locationId)
    (fun _ hr _ hs => eq_of_column hr hs) (Table.mem_of_get? h)
  rw [Tables.named, ← List.head?_filter, hunique]
  rfl

/-- Both queries find the same Locations behind a content. -/
theorem perm_located {selected : Bool} {content : Int} {o : ContentObjectRow}
    (ho : db.contentObjects.get? content = some o)
    (hselected : content ∈ db.selectedContent q ↔ selected = true) :
    List.Perm (db.oldEligibleLocations q selected (some o.objectId))
      ((db.eligibleLocations q (some content)).filterMap fun id =>
        (db.locations.get? id).map LocationRow.locationId) := by
  refine perm_distinct_of_mem_iff (nodup_selected _ _) ((nodup_selected _ _).filterMap ?_) fun name => ?_
  · intro id id' name h h'
    obtain ⟨l, hl, rfl⟩ := Option.map_eq_some_iff.mp h
    obtain ⟨l', hl', hname⟩ := Option.map_eq_some_iff.mp h'
    have he : l' = l := eq_of_column (Table.mem_of_get? hl') (Table.mem_of_get? hl) hname
    exact (Table.key_of_get? hl).symm.trans ((congrArg LocationRow.id he.symm).trans (Table.key_of_get? hl'))
  · simp only [mem_oldEligibleLocations, List.mem_filterMap, mem_eligibleLocations, hselected]
    have hcontent : ∀ b ∈ db.copyBindings.rows,
        (db.content? b.contentId).map ContentObjectRow.objectId = some o.objectId ↔ b.contentId = some content := by
      intro b hb
      have hkey : Refers db.contentObjects (some content) := by
        intro id hid
        cases hid
        exact ⟨o, ho⟩
      rw [← db.objectId_inj (db.linked.copyContent b hb) hkey]
      simp [Tables.content?, ho]
    constructor
    · intro h
      obtain ⟨hs, b, hb, x, hx, hobject, hstate, hevidence, rfl⟩ := h
      obtain ⟨f, l, hclaimed, hl⟩ := db.claimed_of_mem hb
      rw [hclaimed] at hx
      cases hx
      exact ⟨b.locationId, ⟨hs, b, hb, (hcontent b hb).mp hobject, hstate, hevidence, rfl⟩, by rw [hl]; rfl⟩
    · intro h
      obtain ⟨_, ⟨hs, b, hb, hkey, hstate, hevidence, rfl⟩, hname⟩ := h
      obtain ⟨f, l, hclaimed, hl⟩ := db.claimed_of_mem hb
      rw [hl] at hname
      exact ⟨hs, b, hb, _, hclaimed, (hcontent b hb).mpr hkey, hstate, hevidence, Option.some.inj hname⟩

theorem coverage_perm {home : Option String} {l m : List QualifyingLocation} (h : List.Perm l m) :
    Coverage.of home l = Coverage.of home m := by
  simp only [Coverage.of, h.length_eq, length_dedup_perm (h.filterMap _), any_perm h]

/-- Both queries report the same coverage of a content. -/
theorem oldContentCoverage_eq {selected : Bool} {content : Option Int}
    (hcontent : Refers db.contentObjects content)
    (hselected : ∀ id, content = some id → (id ∈ db.selectedContent q ↔ selected = true)) :
    db.oldContentCoverage q selected ((db.content? content).map ContentObjectRow.objectId) =
      db.contentCoverage q content := by
  cases content with
  | none =>
    have hnew : db.eligibleLocations q none = [] := by simp [Tables.eligibleLocations]
    have hold : db.oldEligibleLocations q selected none = [] := by simp [Tables.oldEligibleLocations]
    simp [Tables.oldContentCoverage, Tables.contentCoverage, Tables.content?, hnew, hold]
  | some content =>
    obtain ⟨o, ho⟩ := hcontent content rfl
    have hperm := perm_located db q ho (hselected content rfl)
    have hobject : (db.content? (some content)).map ContentObjectRow.objectId = some o.objectId := by
      simp [Tables.content?, ho]
    rw [hobject, Tables.oldContentCoverage, Tables.contentCoverage, coverage_perm (hperm.filterMap _),
      List.filterMap_filterMap]
    congr 2
    funext id
    cases hl : db.locations.get? id with
    | none => rfl
    | some l => simp [named_of_get? hl]

end

/-! ### Details -/

section

variable {t : Tables} {q : RiskParameters}

def FileObjectRow.riskDetail (f : FileObjectRow) (o : Option ContentObjectRow) (c : Coverage) : RiskDetail where
  fileRefId := f.canonicalId
  logicalPath := f.pathDisplay.getD (castText f.path.bytes)
  objectKnown := f.contentId.isSome
  sizeBytes := o.map ContentObjectRow.sizeBytes
  coverage := c

/-- An active File of the Collection. -/
def Tables.reported (t : Tables) (q : RiskParameters) (f : FileObjectRow) : Bool :=
  same (some f.collectionId) (t.collectionKey q.collectionId) && f.active

theorem riskDetails_eq : t.riskDetails q = (t.fileObjects.rows.filter (t.reported q)).map fun f =>
    f.riskDetail (t.content? f.contentId) (t.contentCoverage q f.contentId) := by
  rw [List.map_eq_flatMap]
  refine List.flatMap_congr fun f _ => ?_
  have hcoverage := congrArg (List.map (f.riskDetail (t.content? f.contentId)))
    (leftJoin_coverage (t := t) (q := q) f.contentId)
  rw [List.map_map] at hcoverage
  rw [leftJoin_contents, List.flatMap_singleton]
  exact hcoverage

theorem leftJoin_objects (id : Option Int) :
    (leftJoin t.objects fun o => same (some o.objectId) ((t.content? id).map ContentObjectRow.objectId)) =
      [(t.content? id).map fun c => ⟨c.objectId, c.sizeBytes⟩] := by
  rw [Tables.objects, leftJoin_map]
  cases ho : t.content? id with
  | none => rw [leftJoin_eq_nil (by simp)]; rfl
  | some o =>
    obtain ⟨key, -, hkey⟩ := Option.bind_eq_some_iff.mp ho
    have hunique := filter_unique (t := t.contentObjects) (c := ContentObjectRow.objectId)
      (fun _ hr _ hs => eq_of_column hr hs) (Table.mem_of_get? hkey)
    rw [leftJoin_eq_singleton (r := o) (by simpa [same_some_right] using hunique)]
    rfl

/-- The Collection of the parameters, found by its name or by its key. -/
theorem same_collectionKey {f : FileObjectRow} {l : CollectionRow}
    (h : t.collections.get? f.collectionId = some l) :
    decide (l.collectionId = q.collectionId) = same (some f.collectionId) (t.collectionKey q.collectionId) := by
  rw [same_some_left, decide_eq_decide]
  have hmem := Table.mem_of_get? h
  have hkey : l.id = f.collectionId := Table.key_of_get? h
  constructor
  · intro hname
    have hunique := filter_unique (t := t.collections) (c := CollectionRow.collectionId)
      (fun _ hr _ hs => eq_of_column hr hs) hmem
    rw [hname] at hunique
    rw [Tables.collectionKey, hunique, ← hkey]
    rfl
  · intro hfound
    obtain ⟨r, hr, hid⟩ := Option.map_eq_some_iff.mp hfound
    obtain ⟨hmem', hname⟩ := List.mem_filter.mp (List.mem_of_head? hr)
    have he : r = l := Table.eq_of_key hmem' hmem (hid.trans hkey.symm)
    exact he ▸ of_decide_eq_true hname

end

section

variable (db : CompactDb) (q : RiskParameters)

theorem mem_selectedContent {f : FileObjectRow} (hf : f ∈ db.fileObjects.rows) (hreported : db.reported q f = true)
    {id : Int} (hid : f.contentId = some id) :
    id ∈ db.selectedContent q ↔ decide (q.policyActive = 1) = true := by
  rw [Tables.selectedContent, List.mem_dedup, List.mem_filterMap]
  constructor
  · intro h
    obtain ⟨g, hg, -⟩ := h
    have hselected := (List.mem_filter.mp hg).2
    rw [Bool.and_eq_true] at hselected
    exact hselected.2
  · intro hactive
    refine ⟨f, List.mem_filter.mpr ⟨hf, ?_⟩, hid⟩
    rw [hactive, Bool.and_true]
    exact hreported

/-- The joined rows of the old queries are the rows of the details. -/
theorem oldRows_eq : db.oldRows q (decide (q.policyActive = 1)) = db.riskDetails q := by
  rw [riskDetails_eq, Tables.oldRows, fileRefs_eq]
  refine flatMap_filter_filterMap fun f hf => ?_
  obtain ⟨l, hl⟩ := db.collection_of_file hf
  have hcontent := db.linked.fileContent f hf
  refine ⟨db.fileRef f l, by rw [hl]; rfl, ?_, fun hreported => ?_⟩
  · rw [Tables.reported, ← same_collectionKey hl]
    rfl
  · have hcoverage := oldContentCoverage_eq db q hcontent fun id hid => mem_selectedContent db q hf hreported hid
    have hdetail := congrArg (List.map (f.riskDetail (db.content? f.contentId)))
      (leftJoin_oldCoverage (t := db.toTables) (q := q) (decide (q.policyActive = 1))
        ((db.content? f.contentId).map ContentObjectRow.objectId))
    rw [List.map_map, hcoverage] at hdetail
    have hknown : ((db.content? f.contentId).map ContentObjectRow.objectId).isSome = f.contentId.isSome := by
      rw [Option.isSome_map, ← db.content_of_refers hcontent]
    simp only [Tables.fileRef, leftJoin_objects, List.flatMap_singleton, hknown, Option.map_map]
    exact hdetail

end

/-! ### Totals -/

/-- The requirements of a Policy as they are bound. -/
def RiskRequirements.ofPolicy (requirements : PolicyRequirements) : RiskRequirements where
  minQualifyingCopies := min requirements.minQualifyingCopies i64Max
  minDevices := min requirements.minDevices i64Max
  minSites := min requirements.minSites i64Max
  requireOffsiteCopy := if requirements.requireOffsiteCopy then 1 else 0
  requireOfflineCopy := if requirements.requireOfflineCopy then 1 else 0
  requireEncryptedOffsite := if requirements.requireEncryptedOffsite then 1 else 0

def RiskDetail.file (row : RiskDetail) : V2FileRiskAccumulator where
  fileRefId := row.fileRefId
  logicalPath := row.logicalPath
  objectKnown := row.objectKnown
  sizeBytes := row.sizeBytes.getD 0
  coverage := row.coverage

section

variable {policy : PolicySnapshot} {limit : Nat}

/-- A File with known content that gives a reason. -/
def RiskDetail.atRisk (policy : PolicySnapshot) (row : RiskDetail) : Bool :=
  row.objectKnown && decide (riskReasons policy.requirements row.coverage ≠ [])

/-- What one File adds. -/
theorem finalizeV2FileRisk_fst (report : V2CollectionRisk × List V2RiskFinding) (row : RiskDetail)
    (hrisk : report.1.filesAtRisk ≤ u64Max) (huncertain : report.1.filesUncertain ≤ u64Max) :
    (finalizeV2FileRisk limit (some policy) report row.file).1 =
      { fileCount := saturatingAdd report.1.fileCount 1
        knownSizeBytes := saturatingAdd report.1.knownSizeBytes (row.sizeBytes.getD 0)
        filesAtRisk := saturatingAdd report.1.filesAtRisk (row.atRisk policy).toNat
        filesUncertain := saturatingAdd report.1.filesUncertain (!row.objectKnown).toNat } := by
  have hkeep : ∀ n, n ≤ u64Max → saturatingAdd n 0 = n := by
    intro n hn
    show min (n + 0) u64Max = n
    omega
  cases hknown : row.objectKnown with
  | false =>
    simp [finalizeV2FileRisk, riskFinding, RiskDetail.file, RiskDetail.atRisk, hknown, V2FileRiskAccumulator.finding,
      hkeep _ hrisk]
  | true =>
    by_cases hreasons : riskReasons policy.requirements row.coverage = []
    · simp [finalizeV2FileRisk, riskFinding, RiskDetail.file, RiskDetail.atRisk, hknown, hreasons, hkeep _ hrisk,
        hkeep _ huncertain]
    · simp [finalizeV2FileRisk, riskFinding, RiskDetail.file, RiskDetail.atRisk, hknown, hreasons,
        V2FileRiskAccumulator.finding, hkeep _ huncertain]

/-- What the Files add up to, while no sum reaches the bound. -/
theorem foldl_finalizeV2FileRisk {rows : List RiskDetail} {report : V2CollectionRisk × List V2RiskFinding}
    (hcount : report.1.fileCount + rows.length ≤ u64Max)
    (hsize : report.1.knownSizeBytes + (rows.map fun row => row.sizeBytes.getD 0).sum ≤ u64Max)
    (hrisk : report.1.filesAtRisk + rows.length ≤ u64Max)
    (huncertain : report.1.filesUncertain + rows.length ≤ u64Max) :
    ((rows.map RiskDetail.file).foldl (finalizeV2FileRisk limit (some policy)) report).1 =
      { fileCount := report.1.fileCount + rows.length
        knownSizeBytes := report.1.knownSizeBytes + (rows.map fun row => row.sizeBytes.getD 0).sum
        filesAtRisk := report.1.filesAtRisk + rows.countP fun row => row.atRisk policy
        filesUncertain := report.1.filesUncertain + rows.countP fun row => !row.objectKnown } := by
  induction rows generalizing report with
  | nil => rfl
  | cons row rows ih =>
    rw [List.length_cons] at hcount hrisk huncertain
    rw [List.map_cons, List.sum_cons] at hsize
    have hstep : (finalizeV2FileRisk limit (some policy) report row.file).1 = _ :=
      finalizeV2FileRisk_fst report row (by omega) (by omega)
    have hadd : ∀ n m, n + m ≤ u64Max → saturatingAdd n m = n + m := fun n m h => min_eq_left h
    have hbit : ∀ b : Bool, b.toNat ≤ 1 := Bool.toNat_le
    have hrisk₁ := hbit (row.atRisk policy)
    have huncertain₁ := hbit (!row.objectKnown)
    rw [hadd _ _ (by omega), hadd _ _ (by omega), hadd _ _ (by omega), hadd _ _ (by omega)] at hstep
    rw [List.map_cons, List.foldl_cons, ih (by rw [hstep]; show _ + 1 + _ ≤ _; omega) (by rw [hstep]; show _ + _ + _ ≤ _; omega)
      (by rw [hstep]; show _ + _ + _ ≤ _; omega) (by rw [hstep]; show _ + _ + _ ≤ _; omega), hstep]
    simp only [List.length_cons, List.map_cons, List.sum_cons, List.countP_cons, V2CollectionRisk.mk.injEq]
    refine ⟨by omega, by omega, ?_, ?_⟩
    · cases row.atRisk policy with
      | false => rfl
      | true => simp only [Bool.toNat_true, if_true]; omega
    · cases row.objectKnown with
      | false => simp only [Bool.not_false, Bool.toNat_true, if_true]; omega
      | true => rfl

/-- The reasons of a finding are the violations that the totals count. -/
theorem reasons_iff {requirements : PolicyRequirements} {c : Coverage} (hcopies : c.qualifyingCopies < i64Max)
    (hdevices : c.devices < i64Max) (hsites : c.sites < i64Max) :
    riskReasons requirements c ≠ [] ↔ (RiskRequirements.ofPolicy requirements).violatedBy c = true := by
  have hbound : ∀ n m : Nat, n < i64Max → decide ((n : Int) < min (m : Int) (i64Max : Int)) = decide (n < m) := by
    intro n m hn
    rw [decide_eq_decide]
    omega
  have hflag : ∀ b : Bool, decide ((if b then (1 : Int) else 0) = 1) = b := by decide
  have hreason : ∀ (p : Prop) [Decidable p] (text : String), (if p then [text] else []) = [] ↔ ¬ p := by
    intro p _ text
    by_cases hp : p
    · simp [hp]
    · simp [hp]
  have hviolated : (RiskRequirements.ofPolicy requirements).violatedBy c =
      (decide (c.qualifyingCopies < requirements.minQualifyingCopies) ||
      (decide (c.devices < requirements.minDevices) || (decide (c.sites < requirements.minSites) ||
      (requirements.requireOffsiteCopy && !c.hasOffsite || (requirements.requireOfflineCopy && !c.hasOffline ||
        requirements.requireEncryptedOffsite && !c.hasEncryptedOffsite))))) := by
    rw [← hbound _ _ hcopies, ← hbound _ _ hdevices, ← hbound _ _ hsites, ← hflag requirements.requireOffsiteCopy,
      ← hflag requirements.requireOfflineCopy, ← hflag requirements.requireEncryptedOffsite]
    rfl
  simp only [hviolated, riskReasons, ne_eq, List.append_eq_nil_iff, hreason, not_and_or, not_not, or_assoc,
    Bool.or_eq_true, decide_eq_true_eq]

end

/-! ### The queries agree -/

section

variable (db : CompactDb) (q : RiskParameters)

/-- No more Locations qualify than there are. -/
theorem length_located_le (content : Option Int) : ((db.eligibleLocations q content).filterMap fun id =>
    (db.locations.get? id).bind (db.located q)).length ≤ db.locations.rows.length := by
  have hnodup : ((db.eligibleLocations q content).filterMap db.locations.get?).Nodup := by
    refine (nodup_selected _ _).filterMap fun id id' l h h' => ?_
    exact (Table.key_of_get? h).symm.trans (Table.key_of_get? h')
  have hsub : (db.eligibleLocations q content).filterMap db.locations.get? ⊆ db.locations.rows := by
    intro l hl
    obtain ⟨id, -, hget⟩ := List.mem_filterMap.mp hl
    exact Table.mem_of_get? hget
  have hle : ((db.eligibleLocations q content).filterMap db.locations.get?).length ≤ db.locations.rows.length :=
    (hnodup.subperm hsub).length_le
  rw [← List.filterMap_filterMap]
  exact (List.length_filterMap_le _ _).trans hle

theorem coverage_lt {row : RiskDetail} (h : row ∈ db.riskDetails q) :
    row.coverage.qualifyingCopies < i64Max ∧ row.coverage.devices < i64Max ∧ row.coverage.sites < i64Max := by
  rw [riskDetails_eq] at h
  obtain ⟨f, -, rfl⟩ := List.mem_map.mp h
  have hcopies := length_located_le db q f.contentId
  have hfit := db.locationsFit
  have hdistinct : ∀ {α : Type} [DecidableEq α] (g : QualifyingLocation → Option α),
      (((db.eligibleLocations q f.contentId).filterMap fun id =>
        (db.locations.get? id).bind (db.located q)).filterMap g).dedup.length < i64Max := by
    intro α _ g
    have hdedup := (List.dedup_sublist (((db.eligibleLocations q f.contentId).filterMap fun id =>
      (db.locations.get? id).bind (db.located q)).filterMap g)).length_le
    have hmap := List.length_filterMap_le g ((db.eligibleLocations q f.contentId).filterMap fun id =>
      (db.locations.get? id).bind (db.located q))
    omega
  exact ⟨by show List.length _ < _; omega, hdistinct _, hdistinct _⟩

theorem length_riskDetails_lt : (db.riskDetails q).length < i64Max := by
  rw [riskDetails_eq, List.length_map]
  exact (List.length_filter_le _ _).trans_lt db.filesFit

/-- The report that is folded over the rows of the details, in any order, is what the totals query returns. -/
theorem foldl_riskDetails {policy : PolicySnapshot} {totals : V2CollectionRisk}
    (h : db.riskTotals q (.ofPolicy policy.requirements) = some totals) (limit : Nat) {rows : List RiskDetail}
    (hrows : List.Perm rows (db.riskDetails q)) :
    ((rows.map RiskDetail.file).foldl (finalizeV2FileRisk limit (some policy)) (⟨0, 0, 0, 0⟩, [])).1 = totals := by
  obtain ⟨known, hknown, htotals⟩ := Option.bind_eq_some_iff.mp h
  cases htotals
  rw [total?] at hknown
  split at hknown
  · rename_i hsum
    cases hknown
    have hcount := length_riskDetails_lt db q
    have hmax : i64Max ≤ u64Max := by decide
    have hsums : (rows.map fun row => row.sizeBytes.getD 0).sum =
        ((db.riskDetails q).map fun row => row.sizeBytes.getD 0).sum := (hrows.map _).sum_eq
    have hlength := hrows.length_eq
    rw [foldl_finalizeV2FileRisk (by show 0 + _ ≤ _; omega) (by show 0 + _ ≤ _; omega) (by show 0 + _ ≤ _; omega)
      (by show 0 + _ ≤ _; omega)]
    have hviolated : (rows.countP fun row => row.atRisk policy) = (db.riskDetails q).countP fun row =>
        row.objectKnown && (RiskRequirements.ofPolicy policy.requirements).violatedBy row.coverage := by
      rw [hrows.countP_eq]
      refine List.countP_congr fun row hrow => ?_
      obtain ⟨hcopies, hdevices, hsites⟩ := coverage_lt db q hrow
      rw [RiskDetail.atRisk, Bool.and_eq_true, Bool.and_eq_true, decide_eq_true_eq,
        reasons_iff hcopies hdevices hsites]
    simp only [Nat.zero_add, hlength, hsums, hviolated, hrows.countP_eq]
  · cases hknown

/-- The queries on integer keys report of every active File what the queries on the views report; with an
active Policy the totals are those of the old summary, and those that the rows of the details add up to. -/
theorem riskQueries_agree : db.oldRows q (decide (q.policyActive = 1)) = db.riskDetails q ∧
    db.oldDetails q = Keyset.sorted (fun r => textRank r.fileRefId) (db.riskDetails q) ∧
    (q.policyActive = 1 → (∀ r, db.riskTotals q r = db.oldSummary q r) ∧
      ∀ policy totals limit rows, db.riskTotals q (.ofPolicy policy.requirements) = some totals →
        List.Perm rows (db.riskDetails q) →
        ((rows.map RiskDetail.file).foldl (finalizeV2FileRisk limit (some policy)) (⟨0, 0, 0, 0⟩, [])).1 = totals) := by
  have hrows := oldRows_eq db q
  refine ⟨hrows, ?_, fun hactive => ⟨fun r => ?_, ?_⟩⟩
  · rw [Tables.oldDetails, hrows]
  · rw [decide_eq_true hactive] at hrows
    rw [Tables.riskTotals, Tables.oldSummary, hrows]
  · intro policy totals limit rows htotals hperm
    exact foldl_riskDetails db q htotals limit hperm

end

/-! ### Without an active Policy -/

namespace Sample

/-- Two Files of one content, with a verified Copy at a service without a Device. -/
def filesOf (size : Nat) : Tables where
  collections := Table.empty.insertOrIgnore ⟨1, "col_1", "Collection"⟩
  devices := .empty
  locations := Table.empty.insertOrIgnore ⟨1, "loc_1", "Service", none, none, none, "online", "active"⟩
  contentObjects := Table.empty.insertOrIgnore ⟨1, Vector.replicate 32 0, size⟩
  sourceIdentities := .empty
  fileObjects := [1, 2].foldl (fun t n => t.insertOrIgnore ⟨n, "file_" ++ toString n, 1, ⟨"utf8", utf8 (toString n)⟩,
    none, some 1, none, .resolved, true, none⟩) .empty
  fileLocations := Table.empty.insertOrIgnore
    ⟨1, 1, 1, "ordinary_file", some 1, none, true, some 1, some 1, 5, none⟩
  copyBindings := Table.empty.insertOrIgnore
    ⟨1, "copy_1", 1, 1, "1", none, none, none, some 1, none, .present, some 1, some 1, none⟩
  checks := Table.empty.insertOrIgnore ⟨1, 1, 5, .present, .verified⟩
  checkErrors := .empty

def small : CompactDb := ⟨filesOf 7, by decide +kernel, by decide +kernel, by decide +kernel⟩

def large : CompactDb := ⟨filesOf (2 ^ 62), by decide +kernel, by decide +kernel, by decide +kernel⟩

def sampleParameters (policyActive : Int) : RiskParameters := ⟨"col_1", 0, 0, 0, none, policyActive⟩

/-- A Policy that asks for one Copy. -/
def oneCopy : PolicySnapshot := ⟨"pol_1", "Policy", 1, ⟨1, 0, 0, false, false, false, 30, 30, 30⟩, true, "active"⟩

/-- With the flag at zero the totals put at risk what the old summary does not; and the totals of known sizes
beyond the largest integer are not returned, where the fold over the rows gives a sum. -/
theorem totals_differ :
    small.riskTotals (sampleParameters 0) (.ofPolicy oneCopy.requirements) ≠
      small.oldSummary (sampleParameters 0) (.ofPolicy oneCopy.requirements) ∧
    large.riskTotals (sampleParameters 1) (.ofPolicy oneCopy.requirements) = none := by
  constructor
  · decide +kernel
  · decide +kernel

theorem small_agrees : small.riskTotals (sampleParameters 1) (.ofPolicy oneCopy.requirements) =
      small.oldSummary (sampleParameters 1) (.ofPolicy oneCopy.requirements) ∧
    (((small.riskDetails (sampleParameters 1)).map RiskDetail.file).foldl (finalizeV2FileRisk 5 (some oneCopy))
      (⟨0, 0, 0, 0⟩, [])).1 = ⟨2, 14, 0, 0⟩ := by
  obtain ⟨htotals, hfold⟩ := (riskQueries_agree small (sampleParameters 1)).2.2 rfl
  exact ⟨htotals _, hfold oneCopy _ 5 _ (by decide +kernel) (List.Perm.refl _)⟩

end Sample

end ArchiveLedger.Compact
