import ArchiveLedger.Foundation.Redundancy
import ArchiveLedger.Policy.Review
import ArchiveLedger.Projection.Candidates

/-!
# Where the two evaluators agree

The review counts claims of Copies at active Locations, the coverage query Locations whose
Device is confirmed and matches.  Where every counted claim is at such a Location and no two
are at one (`CountsRelied`), coverage is at least what the review counts, and
`satisfied_puts_nothing_at_risk` follows.
-/

namespace ArchiveLedger

open Relational

variable {db : Projection} {now : Nat} {hash : String} {requirements : PolicyRequirements}

/-! ### Coverage is monotone -/

/-- At least as much of everything. -/
structure Coverage.Le (c c' : Coverage) : Prop where
  copies : c.qualifyingCopies ≤ c'.qualifyingCopies
  devices : c.devices ≤ c'.devices
  sites : c.sites ≤ c'.sites
  offsite : c.hasOffsite = true → c'.hasOffsite = true
  offline : c.hasOffline = true → c'.hasOffline = true
  encrypted : c.hasEncryptedOffsite = true → c'.hasEncryptedOffsite = true

theorem violatedBy_iff {c : Coverage} : requirements.violatedBy c = true ↔
    c.qualifyingCopies < requirements.minQualifyingCopies ∨ c.devices < requirements.minDevices ∨
      c.sites < requirements.minSites ∨ (requirements.requireOffsiteCopy = true ∧ c.hasOffsite = false) ∨
      (requirements.requireOfflineCopy = true ∧ c.hasOffline = false) ∨
      (requirements.requireEncryptedOffsite = true ∧ c.hasEncryptedOffsite = false) := by
  simp [PolicyRequirements.violatedBy, or_assoc]

/-- What more coverage misses, less coverage misses. -/
theorem Coverage.Le.violatedBy {c c' : Coverage} (h : c.Le c') (hmiss : requirements.violatedBy c' = true) :
    requirements.violatedBy c = true := by
  have hflag : ∀ {x x' : Bool}, (x = true → x' = true) → x' = false → x = false := by
    intro x x' hx hx'
    cases x with
    | false => rfl
    | true => exact absurd (hx rfl) (by simp [hx'])
  rw [violatedBy_iff] at hmiss ⊢
  rcases hmiss with hlow | hlow | hlow | ⟨hrequired, hnone⟩ | ⟨hrequired, hnone⟩ | ⟨hrequired, hnone⟩
  · exact Or.inl (lt_of_le_of_lt h.copies hlow)
  · exact Or.inr (Or.inl (lt_of_le_of_lt h.devices hlow))
  · exact Or.inr (Or.inr (Or.inl (lt_of_le_of_lt h.sites hlow)))
  · exact Or.inr (Or.inr (Or.inr (Or.inl ⟨hrequired, hflag h.offsite hnone⟩)))
  · exact Or.inr (Or.inr (Or.inr (Or.inr (Or.inl ⟨hrequired, hflag h.offline hnone⟩))))
  · exact Or.inr (Or.inr (Or.inr (Or.inr (Or.inr ⟨hrequired, hflag h.encrypted hnone⟩))))

/-- A counted claim as the row of `qualifying` it stands for. -/
def ReviewedCopy.qualifying (r : ReviewedCopy) : QualifyingLocation :=
  ⟨r.locationId, r.deviceId, r.siteId, r.expectedAvailability, r.encryptionState⟩

/-- Claims at different Locations are no more than the rows they stand for. -/
theorem length_counted_le {counted : List ReviewedCopy} {rows : List QualifyingLocation}
    (hnodup : (counted.map ReviewedCopy.locationId).Nodup) (hrows : ∀ r ∈ counted, r.qualifying ∈ rows) :
    counted.length ≤ rows.length := by
  have hlocations : (counted.map ReviewedCopy.qualifying).Nodup :=
    List.Nodup.of_map QualifyingLocation.locationId (by rw [List.map_map]; exact hnodup)
  have hsub : counted.map ReviewedCopy.qualifying ⊆ rows := by
    intro q hq
    obtain ⟨r, hr, rfl⟩ := List.mem_map.mp hq
    exact hrows r hr
  have hle := (List.subperm_of_subset hlocations hsub).length_le
  rwa [List.length_map] at hle

/-- They count no more either. -/
theorem reviewCoverage_le {homeSite : Option String} {counted : List ReviewedCopy}
    {rows : List QualifyingLocation} (hnodup : (counted.map ReviewedCopy.locationId).Nodup)
    (hrows : ∀ r ∈ counted, r.qualifying ∈ rows) :
    (reviewCoverage homeSite counted).Le (Coverage.of homeSite rows) where
  copies := by
    have hids := (List.dedup_sublist (counted.map ReviewedCopy.copyClaimId)).length_le
    rw [List.length_map] at hids
    exact le_trans hids (length_counted_le hnodup hrows)
  devices := Redundancy.length_dedup_le fun d hd => by
    obtain ⟨r, hr, hdevice⟩ := List.mem_filterMap.mp hd
    exact List.mem_filterMap.mpr ⟨_, hrows r hr, hdevice⟩
  sites := Redundancy.length_dedup_le fun s hs => by
    obtain ⟨r, hr, hsite⟩ := List.mem_filterMap.mp hs
    exact List.mem_filterMap.mpr ⟨_, hrows r hr, hsite⟩
  offsite := fun h => by
    obtain ⟨r, hr, hoff⟩ := List.any_eq_true.mp h
    exact List.any_eq_true.mpr ⟨_, hrows r hr, hoff⟩
  offline := fun h => by
    obtain ⟨r, hr, hoff⟩ := List.any_eq_true.mp h
    exact List.any_eq_true.mpr ⟨_, hrows r hr, hoff⟩
  encrypted := fun h => by
    obtain ⟨r, hr, hoff⟩ := List.any_eq_true.mp h
    exact List.any_eq_true.mpr ⟨_, hrows r hr, hoff⟩

/-! ### Counted claims and qualifying Locations -/

/-- The Device of a Location may be relied on: there is none, or it is confirmed and its
last fingerprint matched. -/
def Projection.reliedLocation (db : Projection) (locationId : String) : Prop :=
  ∀ l, db.locations.get? locationId = some l → l.snapshot.deviceId ≠ none →
    ∃ d, db.activeDevice l = some d ∧ d.snapshot.identityState = "confirmed" ∧
      d.lastFingerprintStatus = some "match"

/-- Under every Policy that applies to the Object, the counted claims are at Locations that
may be relied on, and no two at one Location. -/
structure Projection.CountsRelied (db : Projection) (now : Nat) (hash : String) : Prop where
  relied : ∀ id ∈ db.objectCollections hash, ∀ collection policy,
    db.reviewedPolicy id = some (collection, policy) → ∀ cc ∈ db.copyClaims, ∀ r,
      db.reviewedCopy hash cc = some r → r.counts now policy.requirements = true →
        db.reliedLocation cc.locationId
  apart : ∀ id ∈ db.objectCollections hash, ∀ collection policy,
    db.reviewedPolicy id = some (collection, policy) → ∀ cc ∈ db.copyClaims, ∀ cc' ∈ db.copyClaims,
      ∀ r r', db.reviewedCopy hash cc = some r → db.reviewedCopy hash cc' = some r' →
        r.counts now policy.requirements = true → r'.counts now policy.requirements = true →
          cc.locationId = cc'.locationId → cc = cc'

theorem reviewedCopy_eq_some {cc : CopyClaim} {r : ReviewedCopy} (h : db.reviewedCopy hash cc = some r) :
    ∃ o l, db.objectOfHash hash = some o ∧ db.locations.get? cc.locationId = some l ∧
      l.snapshot.status = "active" ∧ cc.objectId = some o.objectId ∧ cc.state = .present ∧
      r = ⟨cc.copyClaimId, cc.locationId, l.snapshot.deviceId,
        ((db.activeDevice l).bind fun d => d.snapshot.currentSiteId).or l.snapshot.siteId,
        l.snapshot.expectedAvailability, l.snapshot.encryptionState, cc.lastSeenTimeUtcMs,
        cc.lastVerifiedTimeUtcMs, cc.lastVerificationResult,
        (db.activeDevice l).bind DeviceRow.lastCheckinTimeUtcMs⟩ := by
  obtain ⟨o, ho, h⟩ := Option.bind_eq_some_iff.mp h
  obtain ⟨l, hl, h⟩ := Option.bind_eq_some_iff.mp h
  obtain ⟨hl, hactive⟩ := Option.filter_eq_some_iff.mp hl
  dsimp only at h
  split at h
  · rename_i hcopy
    cases h
    exact ⟨o, l, ho, hl, of_decide_eq_true hactive, hcopy.1, hcopy.2, rfl⟩
  · cases h

theorem counts_iff {r : ReviewedCopy} : r.counts now requirements = true ↔
    r.result = some .ok ∧ freshSince (riskCutoff now requirements.maxObservationAgeDays) r.lastSeen = true ∧
      freshSince (riskCutoff now requirements.maxVerificationAgeDays) r.lastVerified = true ∧
      (r.deviceId = none ∨
        freshSince (riskCutoff now requirements.maxDeviceCheckinAgeDays) r.lastCheckin = true) := by
  simp [ReviewedCopy.counts, stageAgeIsFresh, and_assoc]

/-- A counted claim at a Location that may be relied on is a qualifying one. -/
theorem qualifying_of_counts {cc : CopyClaim} {r : ReviewedCopy} (hcc : cc ∈ db.copyClaims)
    (hr : db.reviewedCopy hash cc = some r) (hcounts : r.counts now requirements = true)
    (hrelied : db.reliedLocation cc.locationId) :
    r.qualifying ∈ (db.eligible (riskCutoff now requirements.maxObservationAgeDays)
      (riskCutoff now requirements.maxVerificationAgeDays) ("blake3:" ++ hash)).filterMap
        (db.qualifyingLocation (riskCutoff now requirements.maxDeviceCheckinAgeDays)) := by
  obtain ⟨o, l, ho, hl, hactive, hobject, hstate, rfl⟩ := reviewedCopy_eq_some hr
  obtain ⟨hresult, hseen, hverified, hdevice⟩ := counts_iff.mp hcounts
  obtain ⟨b, hb, hclaim⟩ := mem_copyClaims.mp hcc
  obtain ⟨-, hlocation, hbstate, hbcontent, -⟩ := copyClaim_eq_some hclaim
  refine List.mem_filterMap.mpr ⟨cc.locationId, ?_, ?_⟩
  · have hcontent : b.content = some ("blake3:" ++ hash) := by
      rw [hobject, eq_comm, Option.map_eq_some_iff] at hbcontent
      obtain ⟨o', ho', hid⟩ := hbcontent
      obtain ⟨content, hcontent, hget⟩ := Option.bind_eq_some_iff.mp ho'
      have hkey : o'.objectId = content := Table.key_of_get? hget
      have hkey' : o.objectId = "blake3:" ++ hash := Table.key_of_get? ho
      rw [hcontent, ← hkey, hid, hkey']
    refine List.mem_dedup.mpr (List.mem_map.mpr ⟨b, List.mem_filter.mpr ⟨hb, ?_⟩, hlocation.symm⟩)
    rw [hcontent, ← hbstate, hstate, (evidenced_iff hclaim).mpr ⟨hresult, hseen, hverified⟩]
    simp
  · rw [Projection.qualifyingLocation, hl]
    simp only [Option.filter_some, hactive, decide_true, if_true, Option.bind_eq_bind, Option.bind_some]
    by_cases hnone : l.snapshot.deviceId = none
    · rw [if_pos (Or.inl (by rw [hnone]; rfl))]
      rfl
    · obtain ⟨d, hd, hconfirmed, hmatch⟩ := hrelied l hl hnone
      have hfresh := hdevice.resolve_left hnone
      simp only [hd, Option.bind_some] at hfresh
      rw [if_pos (Or.inr (by simp [hd, hconfirmed, hmatch, hfresh]))]
      rfl

/-- Under the condition coverage is at least what the review counts. -/
theorem Projection.CountsRelied.coverage (h : db.CountsRelied now hash) {id : String}
    (hid : id ∈ db.objectCollections hash) {collection : CollectionSnapshot} {policy : PolicySnapshot}
    (hpolicy : db.reviewedPolicy id = some (collection, policy)) :
    (reviewCoverage collection.homeSiteId (db.countedCopies now hash policy.requirements)).Le
      (db.coverage now collection.homeSiteId policy.requirements ("blake3:" ++ hash)) := by
  refine reviewCoverage_le ?_ ?_
  · refine List.pairwise_map.mpr (List.pairwise_filter.mpr (List.pairwise_filterMap.mpr ?_))
    refine (List.pairwise_map.mp copyClaims_nodup).imp_of_mem ?_
    intro cc cc' hcc hcc' hne r hr r' hr' hcounts hcounts' he
    obtain ⟨_, _, -, -, -, -, -, rfl⟩ := reviewedCopy_eq_some hr
    obtain ⟨_, _, -, -, -, -, -, rfl⟩ := reviewedCopy_eq_some hr'
    exact hne (congrArg CopyClaim.copyClaimId
      (h.apart id hid collection policy hpolicy cc hcc cc' hcc' _ _ hr hr' hcounts hcounts' he))
  · intro r hr
    obtain ⟨hrow, hcounts⟩ := List.mem_filter.mp hr
    obtain ⟨cc, hcc, hrow⟩ := List.mem_filterMap.mp hrow
    exact qualifying_of_counts hcc hrow hcounts (h.relied id hid collection policy hpolicy cc hcc r hrow hcounts)

/-! ### The condition is exact for the counts -/

theorem qualifyingLocation_eq_some {checkin : Int} {id : String} {q : QualifyingLocation}
    (h : db.qualifyingLocation checkin id = some q) :
    q.locationId = id ∧ db.reliedLocation id ∧ ∃ l, db.locations.get? id = some l ∧
      l.snapshot.status = "active" ∧ (l.snapshot.deviceId = none ∨
        freshSince checkin ((db.activeDevice l).bind DeviceRow.lastCheckinTimeUtcMs) = true) := by
  obtain ⟨l, hl, h⟩ := Option.bind_eq_some_iff.mp h
  obtain ⟨hl, hactive⟩ := Option.filter_eq_some_iff.mp hl
  dsimp only at h
  split at h
  · rename_i hqualifies
    cases h
    refine ⟨rfl, ?_, l, hl, of_decide_eq_true hactive, ?_⟩
    · intro l' hl' hdeviceId
      rw [hl, Option.some.injEq] at hl'
      subst hl'
      rcases hqualifies with hnone | hdevice
      · exact absurd (Option.isNone_iff_eq_none.mp hnone) hdeviceId
      · obtain ⟨d, hd, hdevice⟩ := (Option.any_eq_true _ _).mp hdevice
        simp only [Bool.and_eq_true, decide_eq_true_eq] at hdevice
        exact ⟨d, hd, hdevice.1.1, hdevice.1.2⟩
    · rcases hqualifies with hnone | hdevice
      · exact Or.inl (Option.isNone_iff_eq_none.mp hnone)
      · obtain ⟨d, hd, hdevice⟩ := (Option.any_eq_true _ _).mp hdevice
        simp only [Bool.and_eq_true] at hdevice
        exact Or.inr (by rw [hd]; exact hdevice.2)
  · cases h

/-- A qualifying Location is one of a counted claim, where every Copy has its claim. -/
theorem counts_of_qualifying (hclaims : ∀ b ∈ db.copyBindings.rows, (db.copyClaim b).isSome)
    {o : ContentObjectRow} (ho : db.objectOfHash hash = some o) {q : QualifyingLocation}
    (hq : q ∈ (db.eligible (riskCutoff now requirements.maxObservationAgeDays)
      (riskCutoff now requirements.maxVerificationAgeDays) ("blake3:" ++ hash)).filterMap
        (db.qualifyingLocation (riskCutoff now requirements.maxDeviceCheckinAgeDays))) :
    ∃ r ∈ db.countedCopies now hash requirements, r.locationId = q.locationId ∧
      db.reliedLocation r.locationId := by
  obtain ⟨location, heligible, hq⟩ := List.mem_filterMap.mp hq
  obtain ⟨b, hb, hlocation⟩ := List.mem_map.mp (List.mem_dedup.mp heligible)
  obtain ⟨hb, hevidence⟩ := List.mem_filter.mp hb
  simp only [Bool.and_eq_true, decide_eq_true_eq] at hevidence
  obtain ⟨⟨hcontent, hstate⟩, hevidence⟩ := hevidence
  obtain ⟨cc, hcc⟩ := Option.isSome_iff_exists.mp (hclaims b hb)
  obtain ⟨-, hcclocation, hccstate, hobject, -⟩ := copyClaim_eq_some hcc
  obtain ⟨hresult, hseen, hverified⟩ := (evidenced_iff hcc).mp hevidence
  obtain ⟨hqlocation, hrelied, l, hl, hactive, hdevice⟩ := qualifyingLocation_eq_some hq
  have hplace : cc.locationId = location := by rw [hcclocation, hlocation]
  have hreviewed : (db.reviewedCopy hash cc).isSome = true := by
    have hknown : cc.objectId = some o.objectId := by
      rw [hobject, hcontent, Option.bind_some]
      exact congrArg _ ho
    rw [Projection.reviewedCopy, ho, hplace, hl]
    simp only [Option.filter_some, hactive, decide_true, if_true, Option.bind_eq_bind, Option.bind_some]
    rw [if_pos ⟨hknown, by rw [hccstate, hstate]⟩]
    rfl
  obtain ⟨r, hr⟩ := Option.isSome_iff_exists.mp hreviewed
  obtain ⟨-, l', -, hl', -, -, -, he⟩ := reviewedCopy_eq_some hr
  rw [hplace, hl, Option.some.injEq] at hl'
  subst hl'
  have hcounts : r.counts now requirements = true := by
    rw [counts_iff, he]
    exact ⟨hresult, hseen, hverified, hdevice⟩
  have hrlocation : r.locationId = location := by rw [he, hplace]
  refine ⟨r, List.mem_filter.mpr ⟨List.mem_filterMap.mpr ⟨cc, mem_copyClaims.mpr ⟨b, hb, hcc⟩, hr⟩, hcounts⟩, ?_, ?_⟩
  · rw [hrlocation, hqlocation]
  · rw [hrlocation]
    exact hrelied

/-- The rows of one content are at different Locations. -/
theorem qualifying_nodup (db : Projection) (observation verification checkin : Int) (content : String) :
    (((db.eligible observation verification content).filterMap (db.qualifyingLocation checkin)).map
      QualifyingLocation.locationId).Nodup := by
  have hnodup : (db.eligible observation verification content).Nodup := List.nodup_dedup _
  refine List.pairwise_map.mpr (List.pairwise_filterMap.mpr (hnodup.imp ?_))
  intro id id' hne q hq q' hq' he
  rw [(qualifyingLocation_eq_some hq).1, (qualifyingLocation_eq_some hq').1] at he
  exact hne he

/-- **Both count the same number of Copies exactly where every counted claim may be relied
on and no two are at one Location.** -/
theorem counts_eq_iff (hclaims : ∀ b ∈ db.copyBindings.rows, (db.copyClaim b).isSome)
    {o : ContentObjectRow} (ho : db.objectOfHash hash = some o) (homeSite : Option String) :
    (db.countedCopies now hash requirements).length =
        (db.coverage now homeSite requirements ("blake3:" ++ hash)).qualifyingCopies ↔
      (∀ r ∈ db.countedCopies now hash requirements, db.reliedLocation r.locationId) ∧
        ((db.countedCopies now hash requirements).map ReviewedCopy.locationId).Nodup := by
  classical
  rw [Projection.coverage, Coverage.of]
  have hnodup := qualifying_nodup db (riskCutoff now requirements.maxObservationAgeDays)
    (riskCutoff now requirements.maxVerificationAgeDays)
    (riskCutoff now requirements.maxDeviceCheckinAgeDays) ("blake3:" ++ hash)
  have hfrom : ∀ q ∈ (db.eligible (riskCutoff now requirements.maxObservationAgeDays)
      (riskCutoff now requirements.maxVerificationAgeDays) ("blake3:" ++ hash)).filterMap
        (db.qualifyingLocation (riskCutoff now requirements.maxDeviceCheckinAgeDays)),
      ∃ r ∈ db.countedCopies now hash requirements, r.locationId = q.locationId ∧
        db.reliedLocation r.locationId := fun q hq => counts_of_qualifying hclaims ho hq
  have hqualified : ∀ r ∈ db.countedCopies now hash requirements, db.reliedLocation r.locationId →
      r.qualifying ∈ (db.eligible (riskCutoff now requirements.maxObservationAgeDays)
        (riskCutoff now requirements.maxVerificationAgeDays) ("blake3:" ++ hash)).filterMap
          (db.qualifyingLocation (riskCutoff now requirements.maxDeviceCheckinAgeDays)) := by
    intro r hr hrelied
    obtain ⟨hrow, hcounts⟩ := List.mem_filter.mp hr
    obtain ⟨cc, hcc, hrow⟩ := List.mem_filterMap.mp hrow
    obtain ⟨_, _, -, -, -, -, -, he⟩ := reviewedCopy_eq_some hrow
    refine qualifying_of_counts hcc hrow hcounts ?_
    rwa [he] at hrelied
  generalize db.countedCopies now hash requirements = counted at hfrom hqualified ⊢
  generalize (db.eligible _ _ _).filterMap _ = rows at hnodup hfrom hqualified ⊢
  show counted.length = rows.length ↔ _
  constructor
  · intro hlength
    -- the Locations of the rows are those of counted claims that may be relied on
    have hsub : rows.map QualifyingLocation.locationId ⊆
        ((counted.filter fun r => db.reliedLocation r.locationId).map ReviewedCopy.locationId).dedup := by
      intro location hlocation
      obtain ⟨q, hq, rfl⟩ := List.mem_map.mp hlocation
      obtain ⟨r, hr, he, hrelied⟩ := hfrom q hq
      exact List.mem_dedup.mpr (List.mem_map.mpr ⟨r, List.mem_filter.mpr ⟨hr, decide_eq_true hrelied⟩, he⟩)
    have hrows := (List.subperm_of_subset hnodup hsub).length_le
    have hdedup := (List.dedup_sublist
      ((counted.filter fun r => db.reliedLocation r.locationId).map ReviewedCopy.locationId)).length_le
    have hfilter := List.length_filter_le (fun r => decide (db.reliedLocation r.locationId)) counted
    rw [List.length_map] at hrows hdedup
    have hall : counted.filter (fun r => decide (db.reliedLocation r.locationId)) = counted :=
      (List.filter_sublist).eq_of_length (by omega)
    rw [hall] at hrows hdedup
    refine ⟨fun r hr => of_decide_eq_true (List.filter_eq_self.mp hall r hr), ?_⟩
    rw [← List.dedup_eq_self]
    exact (List.dedup_sublist _).eq_of_length (by rw [List.length_map]; omega)
  · rintro ⟨hrelied, hapart⟩
    have hlocations : rows.map QualifyingLocation.locationId ⊆ counted.map ReviewedCopy.locationId := by
      intro location hlocation
      obtain ⟨q, hq, rfl⟩ := List.mem_map.mp hlocation
      obtain ⟨r, hr, he, -⟩ := hfrom q hq
      exact List.mem_map.mpr ⟨r, hr, he⟩
    have hle := (List.subperm_of_subset hnodup hlocations).length_le
    rw [List.length_map, List.length_map] at hle
    exact le_antisymm (length_counted_le hapart fun r hr => hqualified r hr (hrelied r hr)) hle

/-! ### The report -/

/-- The report puts the File at risk. -/
def Projection.AtRisk (db : Projection) (now : Nat) (collection : CollectionSnapshot) (f : FileObjectRow) : Prop :=
  ∃ limit, ∃ finding ∈ (db.riskReport now collection limit).2,
    finding.fileRefId = f.canonicalId ∧ finding.result = "violated"

theorem riskReasons_eq_nil {c : Coverage} : riskReasons requirements c = [] ↔
    requirements.violatedBy c = false := by
  rw [Bool.eq_false_iff, Ne, violatedBy_iff]
  simp only [riskReasons, List.append_eq_nil_iff, ite_eq_right_iff, List.cons_ne_self, Bool.and_eq_true,
    Bool.not_eq_true', imp_false, not_or, and_assoc]

/-- Findings of Files, from the report before. -/
theorem mem_foldl_finalize {limit : Nat} {policy : Option PolicySnapshot} {finding : V2RiskFinding}
    {files : List V2FileRiskAccumulator} {report : V2CollectionRisk × List V2RiskFinding}
    (h : finding ∈ (files.foldl (finalizeV2FileRisk limit policy) report).2) :
    finding ∈ report.2 ∨ ∃ file ∈ files, riskFinding policy file = some finding := by
  induction files generalizing report with
  | nil => exact Or.inl h
  | cons file files ih =>
    rcases ih h with h | ⟨later, hmem, hlater⟩
    · unfold finalizeV2FileRisk at h
      cases hfinding : riskFinding policy file with
      | none =>
        rw [hfinding] at h
        exact Or.inl h
      | some pushed =>
        rw [hfinding] at h
        simp only [pushFinding] at h
        split at h
        · exact Or.inl h
        · rcases List.mem_append.mp h with h | h
          · exact Or.inl h
          · rw [List.mem_singleton.mp h]
            exact Or.inr ⟨file, List.mem_cons_self, hfinding⟩
    · exact Or.inr ⟨later, List.mem_cons_of_mem _ hmem, hlater⟩

/-- A File at risk is an active File of the Collection, of a content that misses the
requirements of the Collection's Policy. -/
theorem Projection.AtRisk.misses {collection : CollectionSnapshot} {f : FileObjectRow}
    (hf : f ∈ db.fileObjects.rows) (h : db.AtRisk now collection f) :
    f.collectionId = collection.collectionId ∧ f.active = true ∧ ∃ policy content,
      db.activePolicy collection = some policy ∧ f.content = some content ∧
      policy.requirements.violatedBy
        (db.coverage now collection.homeSiteId policy.requirements content) = true := by
  obtain ⟨limit, finding, hmem, hid, hviolated⟩ := h
  rcases mem_foldl_finalize hmem with hnil | ⟨file, hfile, hfinding⟩
  · exact absurd hnil List.not_mem_nil
  · obtain ⟨g, hg, rfl⟩ := List.mem_map.mp hfile
    have hg : g ∈ db.fileObjects.rows.filter fun f =>
        decide (f.collectionId = collection.collectionId) && f.active := by
      unfold Projection.riskFiles at hg
      split at hg
      · exact hg
      · exact (Keyset.mem_sorted _).mp hg
    obtain ⟨hg, hin⟩ := List.mem_filter.mp hg
    simp only [Bool.and_eq_true, decide_eq_true_eq] at hin
    unfold riskFinding at hfinding
    cases hpolicy : db.activePolicy collection with
    | none =>
      rw [hpolicy] at hfinding
      cases hfinding
      exact absurd hviolated (by simp [V2FileRiskAccumulator.finding])
    | some policy =>
      rw [hpolicy] at hfinding
      cases hcontent : g.content with
      | none =>
        simp only [Projection.fileRisk, hcontent, Option.isSome_none, Bool.not_false, if_true,
          Option.some.injEq] at hfinding
        rw [← hfinding] at hviolated
        exact absurd hviolated (by simp [V2FileRiskAccumulator.finding])
      | some content =>
        simp only [Projection.fileRisk, hcontent, Option.isSome_some, Bool.not_true,
          Bool.false_eq_true, if_false] at hfinding
        split at hfinding
        · cases hfinding
        · rename_i hreasons
          cases hfinding
          have hsame : g = f := Table.eq_of_key hg hf hid
          subst hsame
          exact ⟨hin.1, hin.2, policy, content, rfl, hcontent,
            Bool.of_not_eq_false fun hmet => hreasons (riskReasons_eq_nil.mpr hmet)⟩

/-! ### The verdicts -/

/-- A review that is satisfied found every Collection of the Object to meet its Policy. -/
theorem met_of_satisfied (h : (db.objectArchiveReview now hash).protection = .satisfied) {id : String}
    (hid : id ∈ db.objectCollections hash) : ∃ collection policy,
      db.reviewedPolicy id = some (collection, policy) ∧ policy.requirements.violatedBy
        (reviewCoverage collection.homeSiteId (db.countedCopies now hash policy.requirements)) = false := by
  have hfold : ∀ (ids : List String) protection,
      ids.foldl (db.reviewCollection now hash) protection = .satisfied → protection = .satisfied ∧
        ∀ id ∈ ids, ∃ collection policy, db.reviewedPolicy id = some (collection, policy) ∧
          policy.requirements.violatedBy
            (reviewCoverage collection.homeSiteId (db.countedCopies now hash policy.requirements)) = false := by
    intro ids
    induction ids with
    | nil => exact fun _ h => ⟨h, nofun⟩
    | cons first ids ih =>
      intro protection h
      obtain ⟨hfirst, hrest⟩ := ih _ h
      unfold Projection.reviewCollection at hfirst
      cases hpolicy : db.reviewedPolicy first with
      | none =>
        rw [hpolicy] at hfirst
        cases hfirst
      | some reviewed =>
        obtain ⟨collection, policy⟩ := reviewed
        rw [hpolicy] at hfirst
        dsimp only at hfirst
        split at hfirst
        · cases hfirst
        · rename_i hmet
          refine ⟨hfirst, ?_⟩
          intro id hid
          rcases List.mem_cons.mp hid with rfl | hid
          · exact ⟨collection, policy, hpolicy, Bool.eq_false_iff.mpr hmet⟩
          · exact hrest id hid
  unfold Projection.objectArchiveReview at h
  dsimp only at h
  split at h
  · rename_i hnone
    rw [hnone] at hid
    exact absurd hid List.not_mem_nil
  · exact (hfold _ _ h).2 id hid

/-- The two evaluators agree on an Object. -/
structure Projection.EvaluatorsAgree (db : Projection) (now : Nat) (hash : String) : Prop where
  satisfied : (db.objectArchiveReview now hash).protection = .satisfied →
    ∀ collection ∈ db.collections.rows, ∀ f ∈ db.fileObjects.rows,
      f.content = some ("blake3:" ++ hash) → ¬ db.AtRisk now collection f
  atRisk : ∀ collection ∈ db.collections.rows, collection.status = "active" → ∀ f ∈ db.fileObjects.rows,
    f.content = some ("blake3:" ++ hash) → db.AtRisk now collection f →
      (db.objectArchiveReview now hash).protection ≠ .satisfied

/-- The Collection of an active File of the Object is reviewed. -/
theorem mem_objectCollections {f : FileObjectRow} {collection : CollectionSnapshot}
    {o : ContentObjectRow} (ho : db.objectOfHash hash = some o) (hf : f ∈ db.fileObjects.rows)
    (hactive : f.active = true) (hcontent : f.content = some ("blake3:" ++ hash))
    (hcollection : db.collections.get? f.collectionId = some collection) :
    f.collectionId ∈ db.objectCollections hash := by
  rw [Projection.objectCollections, ho]
  refine (Keyset.mem_sorted _).mpr (List.mem_dedup.mpr (List.mem_map.mpr ⟨_, List.mem_filter.mpr
    ⟨List.mem_filterMap.mpr ⟨f, hf, by rw [Projection.fileRef, hcollection]; rfl⟩, ?_⟩, rfl⟩))
  have hget : db.contentObjects.get? ("blake3:" ++ hash) = some o := ho
  simp [hcontent, hget, hactive]

/-- **The review and the report agree where the review counts what may be relied on.** -/
theorem evaluators_agree (h : db.CountsRelied now hash) : db.EvaluatorsAgree now hash := by
  have hnone : (db.objectArchiveReview now hash).protection = .satisfied →
      ∀ collection ∈ db.collections.rows, ∀ f ∈ db.fileObjects.rows,
        f.content = some ("blake3:" ++ hash) → ¬ db.AtRisk now collection f := by
    intro hsatisfied collection hcollection f hf hcontent hrisk
    obtain ⟨hin, hactive, policy, content, hpolicy, hfcontent, hmisses⟩ := hrisk.misses hf
    rw [hcontent, Option.some.injEq] at hfcontent
    subst hfcontent
    have hget : db.collections.get? f.collectionId = some collection := by
      rw [hin]
      exact Table.get?_of_mem hcollection
    obtain ⟨o, ho⟩ : ∃ o, db.objectOfHash hash = some o := by
      cases ho : db.objectOfHash hash with
      | some o => exact ⟨o, rfl⟩
      | none =>
        have hempty : db.objectCollections hash = [] := by rw [Projection.objectCollections, ho]
        rw [Projection.objectArchiveReview, hempty] at hsatisfied
        cases hsatisfied
    have hid := mem_objectCollections ho hf hactive hcontent hget
    obtain ⟨reviewed, reviewedPolicy, hreviewed, hmet⟩ := met_of_satisfied hsatisfied hid
    obtain ⟨c, hc, hp⟩ := Option.bind_eq_some_iff.mp hreviewed
    obtain ⟨p, hp, he⟩ := Option.bind_eq_some_iff.mp hp
    cases he
    have hsame : reviewed = collection := by
      have hrow := (Option.filter_eq_some_iff.mp hc).1
      rw [hget] at hrow
      exact (Option.some.inj hrow).symm
    subst hsame
    rw [hpolicy, Option.some.injEq] at hp
    subst hp
    rw [(h.coverage hid hreviewed).violatedBy hmisses] at hmet
    cases hmet
  exact ⟨hnone, fun collection hcollection _ f hf hcontent hrisk hsatisfied =>
    hnone hsatisfied collection hcollection f hf hcontent hrisk⟩

/-! ### A Copy on a Device without a fingerprint -/

namespace Sample

/-- A Copy that was just verified, at a Location on a Device that checked in. -/
def deviceCopy (identityState fingerprintStatus : String) : Projection :=
  let empty := Projection.empty projectionMeta
  { empty with
    policies := Table.empty.insertOrIgnore thirtyDays
    collections := Table.empty.insertOrIgnore ⟨"col_1", "Collection", none, none, some "pol_1", "active"⟩
    devices := Table.empty.insertOrIgnore
      ⟨⟨"dev_1", "Device", "disk", none, none, none, identityState, none, "active", some "site_1", "online"⟩,
        some 9, none, some fingerprintStatus⟩
    locations := Table.empty.insertOrIgnore
      ⟨⟨"loc_1", "Location", "disk", none, none, some "dev_1", none, none, none, "online", true, "active"⟩, none⟩
    contentObjects := Table.empty.insertOrIgnore sharedContent
    fileObjects := Table.empty.insertOrIgnore (sharedFile "file_1" "col_1" "a")
    fileLocations := Table.empty.insertOrIgnore
      { fileId := "file_1", locationId := "loc_1", representation := "ordinary_file"
        content := some sharedContent.objectId, external := none, presence := true
        copyId := some "copy_1", latestPresence := some 0, firstRecord := "rec_1", lastRecord := "rec_1"
        seenTime := 8, observedSize := some 1, modifiedTime := none, completeScan := none }
    copyBindings := Table.empty.insertOrIgnore
      { canonicalId := "copy_1", owner := ("file_1", "loc_1"), locationId := "loc_1"
        pathKey := "key_a", locator := none, locatorDisplay := none, content := some sharedContent.objectId
        external := none, basis := .observedBytes, state := .present, firstRecord := "rec_1"
        stateRecord := "rec_1", latestPresence := some 0, latestIntegrity := some 0, completeScan := none }
    checks := [⟨("file_1", "loc_1"), 8, .present, .verified, none⟩] }

/-- The review is satisfied by a Copy on a Device that never had a fingerprint. -/
theorem deviceCopy_disagrees : ¬ (deviceCopy "unavailable" "unavailable").EvaluatorsAgree 10 "01" := by
  intro h
  have hsatisfied : ((deviceCopy "unavailable" "unavailable").objectArchiveReview 10 "01").protection =
      .satisfied := rfl
  have hrisk : (deviceCopy "unavailable" "unavailable").AtRisk 10
      ⟨"col_1", "Collection", none, none, some "pol_1", "active"⟩ (sharedFile "file_1" "col_1" "a") :=
    ⟨1, _, List.mem_singleton_self _, rfl, rfl⟩
  exact h.satisfied hsatisfied _ (List.mem_singleton_self _) _ (List.mem_singleton_self _) rfl hrisk

/-- On a confirmed Device whose fingerprint matched the two agree. -/
theorem deviceCopy_agrees : (deviceCopy "confirmed" "match").EvaluatorsAgree 10 "01" := by
  have hone : ∀ cc ∈ (deviceCopy "confirmed" "match").copyClaims,
      ∀ cc' ∈ (deviceCopy "confirmed" "match").copyClaims, cc = cc' := by
    show ∀ cc ∈ [_], ∀ cc' ∈ [_], cc = cc'
    simp
  have hrelied : ∀ id, (deviceCopy "confirmed" "match").reliedLocation id := by
    intro id l hl _
    have hmem := Table.mem_of_get? hl
    rw [List.mem_singleton.mp hmem]
    exact ⟨_, rfl, rfl, rfl⟩
  exact evaluators_agree ⟨fun _ _ _ _ _ cc _ _ _ _ => hrelied cc.locationId,
    fun _ _ _ _ _ cc hcc cc' hcc' _ _ _ _ _ _ _ => hone cc hcc cc' hcc'⟩

end Sample

end ArchiveLedger
