import ArchiveLedger.Policy.Tests

/-!
# The verdict on a File

`Redundant` says what copies are asked for; the verdict on qualifying copies is satisfied
exactly when they are redundant (`fileStatus_eq_none`).  `Evaluated` is all that is used of
`evaluateFile`, and `evaluateFile_isOk` says when it returns.
-/

namespace ArchiveLedger

open Transition

variable {copy : CopyFact} {file : FileFact} {requirements : PolicyRequirements}
  {topology : DomainTopology} {now : Nat}

/-! ### Redundant copies -/

/-- The copy is lost with the domain. -/
def CopyFact.LiesIn (topology : DomainTopology) (copy : CopyFact) : LossDomain → Prop
  | .device id => copy.deviceId = some id
  | .service id => copy.deviceId = none ∧ copy.locationId = id
  | .site id => copy.siteId = some id
  | .risk id => ∃ entity ∈ [("location", some copy.locationId), ("archive_root", copy.archiveRootId),
      ("device", copy.deviceId), ("site", copy.siteId)], ∃ entityId, entity.2 = some entityId ∧
        id ∈ topology.assignments (entity.1, entityId)

def CopyFact.Offsite (copy : CopyFact) (file : FileFact) : Prop := copy.siteId ≠ some file.homeSiteId

def CopyFact.Offline (copy : CopyFact) : Prop :=
  copy.locationExpectedAvailability = "offline" ∨ copy.deviceExpectedAvailability = some "offline"

def CopyFact.Encrypted (copy : CopyFact) : Prop := copy.encryptionState = some "encrypted"

/-- Copies that meet the requirements and do not all go with one domain. -/
structure Redundant (file : FileFact) (requirements : PolicyRequirements) (topology : DomainTopology)
    (copies : List CopyFact) : Prop where
  enough : requirements.minQualifyingCopies ≤ copies.length
  devices : requirements.minDevices ≤ (copies.filterMap CopyFact.deviceId).dedup.length
  sites : requirements.minSites ≤ (copies.filterMap CopyFact.siteId).dedup.length
  offsite : requirements.requireOffsiteCopy = true → ∃ copy ∈ copies, copy.Offsite file
  offline : requirements.requireOfflineCopy = true → ∃ copy ∈ copies, copy.Offline
  encrypted : requirements.requireEncryptedOffsite = true →
    ∃ copy ∈ copies, copy.Offsite file ∧ copy.Encrypted
  survives : Redundancy.Survives (CopyFact.LiesIn topology) copies

open Classical in
/-- The copies of the File that pass every test. -/
noncomputable def FileFact.qualifying (file : FileFact) (requirements : PolicyRequirements)
    (now : Nat) : List CopyFact :=
  file.copies.filter fun copy => copy.Qualifies file requirements now

theorem mem_qualifying : copy ∈ file.qualifying requirements now ↔
    copy ∈ file.copies ∧ copy.Qualifies file requirements now := by
  simp [FileFact.qualifying]

/-! ### What qualifying copies are taken as -/

theorem siteId_of_qualifies (h : copy.Qualifies file requirements now) :
    copy.siteId = some copy.activeSiteId := by
  obtain ⟨hsite, hactive⟩ := h.sound.site
  obtain ⟨siteId, hid⟩ := Option.ne_none_iff_exists'.mp hsite
  rw [CopyFact.activeSiteId, hid]
  dsimp only
  rw [if_pos hactive]

theorem mem_addCustomDomains {entityType : String} {entityId : Option String} {domain : LossDomain} :
    domain ∈ addCustomDomains topology entityType entityId ↔
      ∃ id, domain = .risk id ∧ ∃ x, entityId = some x ∧ id ∈ topology.assignments (entityType, x) := by
  cases entityId with
  | none => simp [addCustomDomains]
  | some x =>
    rw [addCustomDomains, List.mem_map]
    constructor
    · rintro ⟨id, hid, rfl⟩
      exact ⟨id, rfl, x, rfl, hid⟩
    · rintro ⟨id, rfl, x, hx, hid⟩
      cases hx
      exact ⟨id, hid, rfl⟩

/-- The domains of a qualifying copy are those it is lost with. -/
theorem mem_domains (h : copy.Qualifies file requirements now) {domain : LossDomain} :
    domain ∈ copy.domains topology ↔ copy.LiesIn topology domain := by
  have hsite := siteId_of_qualifies h
  simp only [CopyFact.domains, List.mem_append, mem_addCustomDomains, ← hsite]
  cases domain with
  | device id =>
    cases hdevice : copy.deviceId with
    | none => simp [CopyFact.LiesIn, hdevice]
    | some d => simp [CopyFact.LiesIn, hdevice, eq_comm]
  | service id =>
    cases hdevice : copy.deviceId with
    | none => simp [CopyFact.LiesIn, hdevice, eq_comm]
    | some d => simp [CopyFact.LiesIn, hdevice]
  | site id => 
    cases hdevice : copy.deviceId with
    | none => simp [CopyFact.LiesIn, hsite, eq_comm]
    | some d => simp [CopyFact.LiesIn, hsite, eq_comm]
  | risk id =>
    cases hdevice : copy.deviceId with
    | none => simp [CopyFact.LiesIn, hdevice, or_assoc]
    | some d => simp [CopyFact.LiesIn, hdevice, or_assoc]

/-- The sites of qualifying copies are active. -/
theorem sites_of_qualifies {copies : List CopyFact}
    (h : ∀ copy ∈ copies, copy.Qualifies file requirements now) :
    copies.filterMap CopyFact.siteId = copies.map CopyFact.activeSiteId := by
  induction copies with
  | nil => rfl
  | cons copy copies ih =>
    obtain ⟨hcopy, hcopies⟩ := List.forall_mem_cons.mp h
    rw [List.filterMap_cons_some (siteId_of_qualifies hcopy), ih hcopies, List.map_cons]

theorem offsite_iff (h : copy.Qualifies file requirements now) :
    copy.Offsite file ↔ copy.activeSiteId ≠ file.homeSiteId := by
  rw [CopyFact.Offsite, siteId_of_qualifies h, ne_eq, Option.some_inj]

/-! ### The verdict -/

theorem AcceptedRequirements.minQualifyingCopies_pos (requirements : AcceptedRequirements) :
    0 < requirements.val.minQualifyingCopies := by
  obtain ⟨r, policyId, h⟩ := requirements
  obtain ⟨_, h, -⟩ := bind_eq_ok.mp h
  unfold refuseIf at h
  split at h
  · cases h
  · rename_i hzero
    have hne : (0 : Nat) ≠ r.minQualifyingCopies := by
      intro he
      apply hzero
      simp [← he]
    exact Nat.pos_of_ne_zero hne.symm

theorem checkCount_eq_nil {requirement : String} {required actual : Nat} :
    checkCount requirement required actual = [] ↔ required ≤ actual := by
  unfold checkCount
  split
  · rename_i h
    exact ⟨nofun, fun hle => absurd h (not_lt.mpr hle)⟩
  · rename_i h
    exact ⟨fun _ => not_lt.mp h, fun _ => rfl⟩

theorem checkMember_eq_nil {requirement : String} {required present : Bool} :
    checkMember requirement required present = [] ↔ (required = true → present = true) := by
  cases required with
  | false => exact ⟨fun _ => nofun, fun _ => rfl⟩
  | true =>
    cases present with
    | false => exact ⟨nofun, fun h => absurd (h rfl) nofun⟩
    | true => exact ⟨fun _ _ => rfl, fun _ => rfl⟩

theorem length_textSet {texts : List String} : (textSet texts).length = texts.dedup.length :=
  Keyset.length_sorted _ _

/-- A domain is lost for good when every copy lies in it. -/
theorem permanentLoss_iff {copies : List QualifiedCopy} :
    (lossScenarios copies topology).any LossScenario.permanentLoss = true ↔
      copies ≠ [] ∧ ∃ domain, (∃ copy ∈ copies, domain ∈ copy.domains) ∧
        ∀ copy ∈ copies, domain ∈ copy.domains := by
  have hlost : ∀ domain, (lossScenario copies topology domain).permanentLoss = true ↔
      copies ≠ [] ∧ ∀ copy ∈ copies, domain ∈ copy.domains := by
    intro domain
    have hlen := List.length_filter_le (fun copy => copy.domains.contains domain) copies
    have hall := List.length_filter_eq_length_iff (l := copies)
      (p := fun copy : QualifiedCopy => copy.domains.contains domain)
    simp only [List.contains_iff_mem] at hall
    simp only [lossScenario, Bool.and_eq_true, Bool.not_eq_true', List.isEmpty_eq_false_iff,
      decide_eq_true_iff, ne_eq]
    rw [← hall]
    refine and_congr_right fun _ => ?_
    omega
  simp only [lossScenarios, List.any_map, List.any_eq_true, Function.comp_apply, hlost,
    Keyset.mem_sorted, List.mem_dedup, List.mem_flatMap]
  constructor
  · rintro ⟨domain, hdomain, hne, hall⟩
    exact ⟨hne, domain, hdomain, hall⟩
  · rintro ⟨hne, domain, hdomain, hall⟩
    exact ⟨domain, hdomain, hne, hall⟩

/-- Qualifying copies meet the counts and members of the requirements. -/
theorem failedRequirements_eq_nil {copies : List CopyFact}
    (h : ∀ copy ∈ copies, copy.Qualifies file requirements now) :
    failedRequirements requirements (copies.map fun copy => copy.qualified file topology) = [] ↔
      requirements.minQualifyingCopies ≤ copies.length ∧
      requirements.minDevices ≤ (copies.filterMap CopyFact.deviceId).dedup.length ∧
      requirements.minSites ≤ (copies.filterMap CopyFact.siteId).dedup.length ∧
      (requirements.requireOffsiteCopy = true → ∃ copy ∈ copies, copy.Offsite file) ∧
      (requirements.requireOfflineCopy = true → ∃ copy ∈ copies, copy.Offline) ∧
      (requirements.requireEncryptedOffsite = true →
        ∃ copy ∈ copies, copy.Offsite file ∧ copy.Encrypted) := by
  simp only [failedRequirements, List.append_eq_nil_iff, checkCount_eq_nil, checkMember_eq_nil,
    length_textSet, List.length_map, List.filterMap_map, List.map_map, List.any_map, List.any_eq_true,
    Function.comp_apply, and_assoc]
  rw [sites_of_qualifies h]
  refine and_congr_right fun _ => and_congr_right fun _ => and_congr_right fun _ => ?_
  refine and_congr (imp_congr_right fun _ => ?_) (and_congr (imp_congr_right fun _ => ?_)
    (imp_congr_right fun _ => ?_))
  · refine exists_congr fun copy => and_congr_right fun hcopy => ?_
    rw [offsite_iff (h copy hcopy)]
    exact decide_eq_true_iff
  · refine exists_congr fun copy => and_congr_right fun hcopy => ?_
    simp [CopyFact.qualified, CopyFact.Offline]
  · refine exists_congr fun copy => and_congr_right fun hcopy => ?_
    rw [offsite_iff (h copy hcopy)]
    simp [CopyFact.qualified, CopyFact.Encrypted]

/-- The verdict on qualifying copies is satisfied when they are redundant. -/
theorem fileStatus_eq_none {copies : List CopyFact} {usable uncertainMaterial : Bool}
    (h : ∀ copy ∈ copies, copy.Qualifies file requirements now)
    (hmin : 0 < requirements.minQualifyingCopies) :
    fileStatus usable requirements topology (copies.map fun copy => copy.qualified file topology)
        uncertainMaterial = none ↔ usable = true ∧ Redundant file requirements topology copies := by
  have hnone : ∀ {p : Prop} [Decidable p] {s : PolicyStatus}, (if p then some s else none) = none ↔ ¬ p := by
    intro p _ s
    split
    · rename_i hp
      exact ⟨nofun, fun hno => absurd hp hno⟩
    · rename_i hp
      exact ⟨fun _ => hp, fun _ => rfl⟩
  unfold fileStatus
  rw [hnone, not_or, not_or, not_not, not_not, failedRequirements_eq_nil h, permanentLoss_iff]
  have hdomains : ∀ copy ∈ copies, ∀ domain,
      domain ∈ (copy.qualified file topology).domains ↔ copy.LiesIn topology domain :=
    fun copy hcopy domain => mem_domains (h copy hcopy)
  have hsurvives : copies ≠ [] → ((¬ (copies.map (fun copy => copy.qualified file topology) ≠ [] ∧
      ∃ domain, (∃ copy ∈ copies.map (fun copy => copy.qualified file topology), domain ∈ copy.domains) ∧
        ∀ copy ∈ copies.map (fun copy => copy.qualified file topology), domain ∈ copy.domains)) ↔
      Redundancy.Survives (CopyFact.LiesIn topology) copies) := by
    intro hne
    rw [Redundancy.survives_iff hne]
    have hmap : copies.map (fun copy => copy.qualified file topology) ≠ [] := by simpa using hne
    constructor
    · rintro hno domain ⟨copy, hcopy, hin⟩
      by_contra hall
      push Not at hall
      refine hno ⟨hmap, domain, ⟨_, List.mem_map_of_mem hcopy, (hdomains copy hcopy domain).mpr hin⟩, ?_⟩
      rw [List.forall_mem_map]
      exact fun other hother => (hdomains other hother domain).mpr (hall other hother)
    · rintro hsurvives ⟨-, domain, ⟨member, hmember, hin⟩, hall⟩
      obtain ⟨copy, hcopy, rfl⟩ := List.mem_map.mp hmember
      obtain ⟨other, hother, hout⟩ := hsurvives domain ⟨copy, hcopy, (hdomains copy hcopy domain).mp hin⟩
      exact hout ((hdomains other hother domain).mp (hall _ (List.mem_map_of_mem hother)))
  constructor
  · rintro ⟨⟨h₁, h₂, h₃, h₄, h₅, h₆⟩, hloss, husable⟩
    have hne : copies ≠ [] := List.ne_nil_of_length_pos (lt_of_lt_of_le hmin h₁)
    exact ⟨husable, h₁, h₂, h₃, h₄, h₅, h₆, (hsurvives hne).mp hloss⟩
  · rintro ⟨husable, hred⟩
    have hne : copies ≠ [] := List.ne_nil_of_length_pos (lt_of_lt_of_le hmin hred.enough)
    exact ⟨⟨hred.enough, hred.devices, hred.sites, hred.offsite, hred.offline, hred.encrypted⟩,
      (hsurvives hne).mpr hred.survives, husable⟩

/-! ### The evaluation of a File -/

def FileFact.Ranged (file : FileFact) (requirements : PolicyRequirements) (now : Nat) : Prop :=
  ∀ copy ∈ file.copies, copy.Ranged requirements now

/-- The copies that count; none does before the identity is resolved. -/
noncomputable def FileFact.counted (file : FileFact) (requirements : PolicyRequirements) (now : Nat) :
    List CopyFact :=
  if file.identityUsable then file.qualifying requirements now else []

/-- What is used of the evaluation of a File. -/
structure Evaluated (file : FileFact) (requirements : PolicyRequirements) (topology : DomainTopology)
    (now : Nat) (e : FileEvaluation) : Prop where
  status : ∃ uncertainMaterial : Bool,
    (file.identityUsable = true → (uncertainMaterial = true ↔ ∃ copy ∈ file.copies,
      copy.Doubtful file requirements ∨ ¬ copy.Current requirements now)) ∧
    e.status = fileStatus file.identityUsable requirements topology
      ((file.counted requirements now).map fun copy => copy.qualified file topology) uncertainMaterial
  qualifying : e.qualifyingCopies =
    (file.counted requirements now).map fun copy => (copy.qualified file topology).review
  expiry : file.identityUsable = true → ∀ copy ∈ file.copies, ∀ x ∈ copy.testedTimes requirements,
    ∀ s, x.1 = some s → FreshAt now x.1 x.2 → ∃ v, e.validUntil = some v ∧ v ≤ s + x.2 * dayMs

/-- The assessments of the copies of a File whose identity is resolved. -/
theorem assessCopies_eq_ok {l : List (CopyFact × CopyAssessment)} (husable : file.identityUsable = true)
    (h : assessCopies file requirements topology now = .ok l) :
    file.Ranged requirements now ∧ l.map Prod.fst = file.copies ∧
      ∀ x ∈ l, Assessed x.1 file requirements topology now x.2 := by
  rw [assessCopies, if_pos husable] at h
  have hstep : ∀ copy x, (do
      let assessment ← assessCopy copy file requirements topology now
      Except.ok (copy, assessment)) = (Except.ok x : PolicyResult (CopyFact × CopyAssessment)) →
      x.1 = copy ∧ assessCopy copy file requirements topology now = .ok x.2 := by
    intro copy x hx
    obtain ⟨a, ha, hx⟩ := bind_eq_ok.mp hx
    rw [← Except.ok.inj hx]
    exact ⟨rfl, ha⟩
  have hfst : l.map Prod.fst = file.copies.map id :=
    Outcome.map_of_mapM h fun copy x hx => (hstep copy x hx).1
  rw [List.map_id] at hfst
  have hmem : ∀ x ∈ l, assessCopy x.1 file requirements topology now = .ok x.2 := by
    have hall := Outcome.mapM_eq_ok.mp h
    clear h hfst
    generalize file.copies = copies at hall
    induction hall with
    | nil => exact fun x hx => absurd hx List.not_mem_nil
    | cons hx _ ih =>
      obtain ⟨hcopy, hok⟩ := hstep _ _ hx
      rw [← hcopy] at hok
      exact List.forall_mem_cons.mpr ⟨hok, ih⟩
  refine ⟨?_, hfst, fun x hx => (assessCopy_eq_ok (hmem x hx)).2⟩
  intro copy hcopy
  rw [← hfst] at hcopy
  obtain ⟨x, hx, rfl⟩ := List.mem_map.mp hcopy
  exact (assessCopy_eq_ok (hmem x hx)).1

/-- What is uncertain has a reason. -/
def Findings.Reasoned (found : Findings) : Prop := found.uncertain = true → found.reasons ≠ []

theorem reasoned_none : Findings.none.Reasoned := nofun

theorem reasoned_reason (reason : String) : (Findings.reason reason).Reasoned := nofun

theorem reasoned_markUncertain (reason : String) : (markUncertain reason).Reasoned :=
  fun _ => List.cons_ne_nil _ _

theorem Findings.Reasoned.ite {p : Prop} [Decidable p] {found other : Findings} (h : found.Reasoned)
    (h' : other.Reasoned) : (if p then found else other).Reasoned := by
  split
  · exact h
  · exact h'

theorem Findings.Reasoned.all {tests : List Findings} (h : ∀ test ∈ tests, test.Reasoned) :
    (Findings.all tests).Reasoned := by
  intro hu hr
  obtain ⟨test, htest, hu⟩ := uncertain_all.mp hu
  exact h test htest hu (reasons_all_eq_nil.mp hr test htest)

theorem reasoned_lasting : ∀ test ∈ copy.lasting file requirements, test.Reasoned := by
  simp only [CopyFact.lasting, List.forall_mem_cons, List.not_mem_nil, false_imp_iff, implies_true,
    and_true]
  refine ⟨(reasoned_reason _).ite reasoned_none, (reasoned_reason _).ite reasoned_none, ?_,
    (reasoned_reason _).ite reasoned_none,
    reasoned_none.ite ((reasoned_reason _).ite (reasoned_markUncertain _)), ?_, ?_,
    ((reasoned_reason _).ite (reasoned_markUncertain _)).ite reasoned_none⟩
  · unfold CopyFact.checkResult
    cases copy.lastVerificationResult with
    | none => exact reasoned_markUncertain _
    | some result => exact reasoned_none.ite (reasoned_reason _)
  · unfold CopyFact.checkSite
    cases copy.siteId with
    | none => exact reasoned_markUncertain _
    | some siteId => exact reasoned_none.ite (reasoned_reason _)
  · refine Findings.Reasoned.ite (.all ?_) ((reasoned_markUncertain _).ite reasoned_none)
    simp only [List.forall_mem_cons, List.not_mem_nil, false_imp_iff, implies_true, and_true]
    exact ⟨(reasoned_reason _).ite reasoned_none, (reasoned_markUncertain _).ite reasoned_none,
      (reasoned_reason _).ite reasoned_none, (reasoned_markUncertain _).ite reasoned_none,
      (reasoned_markUncertain _).ite reasoned_none⟩

/-- A sound copy is not left uncertain by the tests that read no time. -/
theorem not_doubtful (h : copy.Sound file requirements) : ¬ copy.Doubtful file requirements :=
  fun hu => Findings.Reasoned.all reasoned_lasting hu (sound_iff.mpr h)

open Classical in
/-- The qualified copies among the assessments are the qualifying ones. -/
theorem qualified_of_assessed {l : List (CopyFact × CopyAssessment)}
    (h : ∀ x ∈ l, Assessed x.1 file requirements topology now x.2) :
    l.filterMap (fun x => x.2.qualified) =
      ((l.map Prod.fst).filter fun copy => copy.Qualifies file requirements now).map
        fun copy => copy.qualified file topology := by
  induction l with
  | nil => rfl
  | cons x l ih =>
    obtain ⟨hx, hl⟩ := List.forall_mem_cons.mp h
    rw [List.map_cons]
    by_cases hq : x.1.Qualifies file requirements now
    · rw [List.filterMap_cons_some (f := fun x : CopyFact × CopyAssessment => x.2.qualified)
          (hx.qualified hq), List.filter_cons_of_pos (p := fun copy : CopyFact => copy.Qualifies file requirements now)
        (decide_eq_true hq),
        List.map_cons, ih hl]
    · rw [List.filterMap_cons_none (f := fun x : CopyFact × CopyAssessment => x.2.qualified)
          (hx.unqualified hq),
        List.filter_cons_of_neg (p := fun copy : CopyFact => copy.Qualifies file requirements now)
        fun hd => hq (of_decide_eq_true hd), ih hl]

theorem evaluateFile_eq_ok {e : FileEvaluation} (h : evaluateFile file requirements topology now = .ok e) :
    (file.identityUsable = true → file.Ranged requirements now) ∧
      Evaluated file requirements topology now e := by
  obtain ⟨l, hl, h⟩ := bind_eq_ok.mp h
  cases h
  cases husable : file.identityUsable with
  | false =>
    rw [assessCopies, husable] at hl
    obtain rfl := Except.ok.inj hl
    have hnone : (file.copies.map fun copy =>
        ((copy, ⟨none, ["file_identity_not_resolved_to_blake3"], true, none⟩) :
          CopyFact × CopyAssessment)).filterMap (fun x => x.2.qualified) = [] := by
      rw [List.filterMap_map]
      exact List.filterMap_eq_nil_iff.mpr fun _ _ => rfl
    have hcounted : file.counted requirements now = [] := by
      rw [FileFact.counted, husable]
      rfl
    have hno : false ≠ true := Bool.false_ne_true
    refine ⟨fun h => absurd h hno, ⟨true, fun h => absurd (husable.symm.trans h) hno, ?_⟩, ?_,
      fun h => absurd (husable.symm.trans h) hno⟩
    · rw [hcounted, hnone, husable]
      simp [fileStatus]
    · rw [hcounted, hnone]
      rfl
  | true =>
    obtain ⟨hranged, hfst, hassessed⟩ := assessCopies_eq_ok husable hl
    have hqualified := qualified_of_assessed hassessed
    rw [hfst] at hqualified
    have hcounted : file.counted requirements now = file.qualifying requirements now := by
      rw [FileFact.counted, husable]
      rfl
    have huncertain : ((l.filter fun a => a.2.qualified.isNone).map fun a =>
        (⟨a.1.copyClaimId, a.1.locationId, a.1.locationName, a.2.reasons, a.2.uncertain⟩ :
          NonqualifyingCopy)).any NonqualifyingCopy.uncertain = true ↔
        ∃ copy ∈ file.copies, copy.Doubtful file requirements ∨ ¬ copy.Current requirements now := by
      rw [List.any_map, List.any_eq_true, ← hfst]
      constructor
      · rintro ⟨x, hx, hu⟩
        have hx := List.mem_of_mem_filter hx
        exact ⟨x.1, List.mem_map_of_mem hx, (hassessed x hx).uncertain.mp hu⟩
      · rintro ⟨copy, hcopy, hu⟩
        obtain ⟨x, hx, rfl⟩ := List.mem_map.mp hcopy
        refine ⟨x, List.mem_filter.mpr ⟨hx, ?_⟩, (hassessed x hx).uncertain.mpr hu⟩
        rw [(hassessed x hx).unqualified fun hq => hu.elim (not_doubtful hq.sound) fun hno => hno hq.current]
        rfl
    refine ⟨fun _ => hranged, ⟨_, fun _ => huncertain, ?_⟩, ?_, fun _ copy hcopy x hx s hs hfresh => ?_⟩
    · rw [hcounted, hqualified, husable]
      rfl
    · show (l.filterMap fun x => x.2.qualified).map QualifiedCopy.review = _
      rw [hcounted, hqualified, List.map_map]
      rfl
    · rw [← hfst] at hcopy
      obtain ⟨y, hy, rfl⟩ := List.mem_map.mp hcopy
      obtain ⟨v, hv, hle⟩ := (hassessed y hy).expiry x hx s hs hfresh
      obtain ⟨w, hw, hwv⟩ := le_minimumTimes (fun a : CopyFact × CopyAssessment => a.2.validUntil)
        none hy hv
      exact ⟨w, hw, le_trans hwv hle⟩

theorem evaluateFile_isOk (h : file.identityUsable = true → file.Ranged requirements now) :
    ∃ e, evaluateFile file requirements topology now = .ok e := by
  have hcopies : ∃ l, assessCopies file requirements topology now = .ok l := by
    unfold assessCopies
    split
    · rename_i husable
      refine Outcome.mapM_isOk fun copy hcopy => ?_
      obtain ⟨a, ha⟩ := assessCopy_isOk (h husable copy hcopy)
      exact ⟨_, bind_eq_ok.mpr ⟨a, ha, rfl⟩⟩
    · exact ⟨_, rfl⟩
  obtain ⟨l, hl⟩ := hcopies
  exact ⟨_, bind_eq_ok.mpr ⟨l, hl, rfl⟩⟩

end ArchiveLedger
