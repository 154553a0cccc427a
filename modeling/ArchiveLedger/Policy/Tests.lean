import ArchiveLedger.Foundation.Redundancy
import ArchiveLedger.Policy.FileEvaluation

/-!
# What the tests of a copy say

A copy qualifies when the tests that read no time find nothing (`Sound`) and every time
they read is fresh (`Current`).  `Assessed` is all that is used of `assessCopy`, and
`assessCopy_isOk` says when it returns.
-/

namespace ArchiveLedger

open Transition

variable {copy : CopyFact} {file : FileFact} {requirements : PolicyRequirements}
  {topology : DomainTopology} {now : Nat}

/-! ### What a copy has to be -/

/-- The time is there, not in the future and not older than it may be. -/
def FreshAt (now : Nat) (time : Option Nat) (maxDays : Nat) : Prop :=
  ∃ s, time = some s ∧ s ≤ now ∧ now < s + maxDays * dayMs

/-- The time, unless in the future, plus its age limit is a `u64`. -/
def RangedAt (now : Nat) (time : Option Nat) (maxDays : Nat) : Prop :=
  ∀ s, time = some s → s ≤ now → s + maxDays * dayMs < 2 ^ 64

def CopyFact.deviceTimes (copy : CopyFact) (requirements : PolicyRequirements) : List (Option Nat × Nat) :=
  if copy.locationKind = "filesystem" then
    [(copy.lastCheckinTimeUtcMs, requirements.maxDeviceCheckinAgeDays),
     (copy.lastFingerprintMatchTimeUtcMs, requirements.maxDeviceCheckinAgeDays)]
  else []

/-- The times a copy is tested by, with the days each counts for. -/
def CopyFact.testedTimes (copy : CopyFact) (requirements : PolicyRequirements) : List (Option Nat × Nat) :=
  [(copy.lastVerifiedTimeUtcMs, requirements.maxVerificationAgeDays),
   (copy.lastSeenTimeUtcMs, requirements.maxObservationAgeDays)] ++ copy.deviceTimes requirements

def CopyFact.Current (copy : CopyFact) (requirements : PolicyRequirements) (now : Nat) : Prop :=
  ∀ x ∈ copy.testedTimes requirements, FreshAt now x.1 x.2

def CopyFact.Ranged (copy : CopyFact) (requirements : PolicyRequirements) (now : Nat) : Prop :=
  ∀ x ∈ copy.testedTimes requirements, RangedAt now x.1 x.2

/-- The tests of the kind of a Location that read no time. -/
def CopyFact.lastingKind (copy : CopyFact) : Findings :=
  if copy.locationKind = "filesystem" then copy.checkDevice
  else if copy.locationKind ≠ "service" then markUncertain "location_kind_unknown"
  else .none

/-- The tests that read no time. -/
def CopyFact.lasting (copy : CopyFact) (file : FileFact) (requirements : PolicyRequirements) :
    List Findings :=
  [copy.checkObject file, copy.checkState, copy.checkResult, copy.checkLocation, copy.checkTrust,
   copy.checkSite, copy.lastingKind, copy.checkEncryption file requirements]

/-- The Device of a filesystem Location is the one its root is on, active, confirmed and matched. -/
structure CopyFact.OnKnownDevice (copy : CopyFact) : Prop where
  root : copy.archiveRootStatus = some "active"
  sameDevice : copy.archiveRootDeviceId = copy.deviceId
  device : copy.deviceStatus = some "active"
  identity : copy.deviceIdentityState = some "confirmed"
  fingerprint : copy.lastFingerprintStatus = some "match"

/-- What the tests that read no time ask for. -/
structure CopyFact.Sound (copy : CopyFact) (file : FileFact) (requirements : PolicyRequirements) :
    Prop where
  object : copy.objectId = file.objectId
  state : copy.state = "present"
  result : copy.lastVerificationResult = some "ok"
  location : copy.locationStatus = "active"
  trust : copy.trustLevel = some "trusted"
  site : copy.siteId ≠ none ∧ copy.siteStatus = some "active"
  kind : copy.locationKind = "filesystem" ∧ copy.OnKnownDevice ∨ copy.locationKind = "service"
  encryption : requirements.requireEncryptedOffsite = true → copy.activeSiteId ≠ file.homeSiteId →
    copy.encryptionState = some "encrypted"

/-- A test that reads no time leaves the copy uncertain. -/
def CopyFact.Doubtful (copy : CopyFact) (file : FileFact) (requirements : PolicyRequirements) : Prop :=
  (Findings.all (copy.lasting file requirements)).uncertain = true

/-- The copy passes every test. -/
structure CopyFact.Qualifies (copy : CopyFact) (file : FileFact) (requirements : PolicyRequirements)
    (now : Nat) : Prop where
  sound : copy.Sound file requirements
  current : copy.Current requirements now

/-! ### Findings -/

theorem reasons_all_eq_nil {tests : List Findings} :
    (Findings.all tests).reasons = [] ↔ ∀ test ∈ tests, test.reasons = [] :=
  List.flatMap_eq_nil_iff

theorem uncertain_all {tests : List Findings} :
    (Findings.all tests).uncertain = true ↔ ∃ test ∈ tests, test.uncertain = true :=
  List.any_eq_true

/-- A time that is taken into the minimum is not passed by it. -/
theorem le_minimumTimes {α : Type} (time : α → Option Nat) (found : Option Nat) {l : List α} {a : α}
    {e : Nat} (ha : a ∈ l) (he : time a = some e) :
    ∃ v, l.foldl (fun found a => minimumTime found (time a)) found = some v ∧ v ≤ e := by
  have hacc : ∀ (l : List α) (acc : Option Nat) (x : Nat), acc = some x →
      ∃ v, l.foldl (fun found a => minimumTime found (time a)) acc = some v ∧ v ≤ x := by
    intro l
    induction l with
    | nil =>
      intro acc x hx
      exact ⟨x, hx, le_rfl⟩
    | cons b l ih =>
      intro acc x hx
      have hstep : ∃ y, minimumTime acc (time b) = some y ∧ y ≤ x := by
        rw [hx]
        cases time b with
        | none => exact ⟨x, rfl, le_rfl⟩
        | some y => exact ⟨min x y, rfl, min_le_left x y⟩
      obtain ⟨y, hy, hle⟩ := hstep
      obtain ⟨v, hv, hvy⟩ := ih _ y hy
      exact ⟨v, hv, le_trans hvy hle⟩
  obtain ⟨pre, post, rfl⟩ := List.append_of_mem ha
  rw [List.foldl_append, List.foldl_cons, he]
  have hstep : ∀ acc, ∃ y, minimumTime acc (some e) = some y ∧ y ≤ e := by
    intro acc
    cases acc with
    | none => exact ⟨e, rfl, le_rfl⟩
    | some x => exact ⟨min x e, rfl, min_le_right x e⟩
  obtain ⟨y, hy, hle⟩ := hstep (pre.foldl (fun found a => minimumTime found (time a)) found)
  obtain ⟨v, hv, hvy⟩ := hacc post _ y hy
  exact ⟨v, hv, le_trans hvy hle⟩

/-- What tests find that read the times and leave the findings of the lasting ones. -/
structure Found (now : Nat) (times : List (Option Nat × Nat)) (lasting : List Findings)
    (found : Findings) : Prop where
  reasons : found.reasons = [] ↔
    (∀ test ∈ lasting, test.reasons = []) ∧ ∀ x ∈ times, FreshAt now x.1 x.2
  uncertain : found.uncertain = true ↔
    (∃ test ∈ lasting, test.uncertain = true) ∨ ∃ x ∈ times, ¬ FreshAt now x.1 x.2
  expiry : ∀ x ∈ times, ∀ s, x.1 = some s → FreshAt now x.1 x.2 →
    ∃ v, found.validUntil = some v ∧ v ≤ s + x.2 * dayMs

theorem found_lasting (test : Findings) : Found now [] [test] test where
  reasons := by simp
  uncertain := by simp
  expiry := nofun

theorem found_stale {time : Option Nat} {maxDays : Nat} {reason : String}
    (h : ¬ FreshAt now time maxDays) : Found now [(time, maxDays)] [] (markUncertain reason) where
  reasons := ⟨nofun, fun hfresh => absurd (hfresh.2 _ List.mem_cons_self) h⟩
  uncertain := ⟨fun _ => Or.inr ⟨_, List.mem_cons_self, h⟩, fun _ => rfl⟩
  expiry := by
    intro x hx s _ hfresh
    cases List.mem_singleton.mp hx
    exact absurd hfresh h

/-- Tests made one after the other. -/
theorem Found.all {l : List (List (Option Nat × Nat) × List Findings × Findings)}
    (h : ∀ e ∈ l, Found now e.1 e.2.1 e.2.2) :
    Found now (l.flatMap fun e => e.1) (l.flatMap fun e => e.2.1)
      (Findings.all (l.map fun e => e.2.2)) where
  reasons := by
    rw [reasons_all_eq_nil, List.forall_mem_map]
    constructor
    · intro hr
      refine ⟨fun test htest => ?_, fun x hx => ?_⟩
      · obtain ⟨e, he, htest⟩ := List.mem_flatMap.mp htest
        exact ((h e he).reasons.mp (hr e he)).1 test htest
      · obtain ⟨e, he, hx⟩ := List.mem_flatMap.mp hx
        exact ((h e he).reasons.mp (hr e he)).2 x hx
    · rintro ⟨hlasting, htimes⟩ e he
      exact (h e he).reasons.mpr
        ⟨fun test htest => hlasting test (List.mem_flatMap.mpr ⟨e, he, htest⟩),
          fun x hx => htimes x (List.mem_flatMap.mpr ⟨e, he, hx⟩)⟩
  uncertain := by
    rw [uncertain_all]
    constructor
    · rintro ⟨found, hfound, hu⟩
      obtain ⟨e, he, rfl⟩ := List.mem_map.mp hfound
      rcases (h e he).uncertain.mp hu with ⟨test, htest, hu⟩ | ⟨x, hx, hno⟩
      · exact Or.inl ⟨test, List.mem_flatMap.mpr ⟨e, he, htest⟩, hu⟩
      · exact Or.inr ⟨x, List.mem_flatMap.mpr ⟨e, he, hx⟩, hno⟩
    · rintro (⟨test, htest, hu⟩ | ⟨x, hx, hno⟩)
      · obtain ⟨e, he, htest⟩ := List.mem_flatMap.mp htest
        exact ⟨_, List.mem_map_of_mem he, (h e he).uncertain.mpr (Or.inl ⟨test, htest, hu⟩)⟩
      · obtain ⟨e, he, hx⟩ := List.mem_flatMap.mp hx
        exact ⟨_, List.mem_map_of_mem he, (h e he).uncertain.mpr (Or.inr ⟨x, hx, hno⟩)⟩
  expiry := by
    intro x hx s hs hfresh
    obtain ⟨e, he, hx⟩ := List.mem_flatMap.mp hx
    obtain ⟨v, hv, hle⟩ := (h e he).expiry x hx s hs hfresh
    obtain ⟨w, hw, hwv⟩ := le_minimumTimes Findings.validUntil none
      (List.mem_map_of_mem (f := fun e => e.2.2) he) hv
    exact ⟨w, hw, le_trans hwv hle⟩

theorem checkFreshness_eq_ok {time : Option Nat} {maxDays : Nat} {label : String} {found : Findings}
    (h : checkFreshness time maxDays now label = .ok found) :
    RangedAt now time maxDays ∧ Found now [(time, maxDays)] [] found := by
  unfold checkFreshness at h
  cases time with
  | none =>
    cases h
    exact ⟨nofun, found_stale fun ⟨s, hs, _⟩ => nomatch hs⟩
  | some s =>
    dsimp only at h
    split at h
    · rename_i hahead
      cases h
      refine ⟨fun s' hs' hle => ?_, found_stale ?_⟩
      · cases hs'
        omega
      · rintro ⟨s', hs', hle, -⟩
        cases hs'
        omega
    rename_i hpast
    split at h
    · cases h
    split at h
    · cases h
    rename_i hrange
    have hranged : RangedAt now (some s) maxDays := by
      intro s' hs' _
      cases hs'
      exact not_le.mp hrange
    split at h
    · rename_i hstale
      cases h
      refine ⟨hranged, found_stale ?_⟩
      rintro ⟨s', hs', -, hlt⟩
      cases hs'
      omega
    · rename_i hlive
      cases h
      have hfresh : FreshAt now (some s) maxDays := ⟨s, rfl, not_lt.mp hpast, not_le.mp hlive⟩
      refine ⟨hranged, ⟨?_, ?_, ?_⟩⟩
      · exact ⟨fun _ => ⟨nofun, List.forall_mem_singleton.mpr hfresh⟩, fun _ => rfl⟩
      · refine ⟨nofun, ?_⟩
        rintro (⟨_, htest, -⟩ | ⟨x, hx, hno⟩)
        · exact absurd htest List.not_mem_nil
        · cases List.mem_singleton.mp hx
          exact absurd hfresh hno
      · intro x hx s' hs' _
        cases List.mem_singleton.mp hx
        cases hs'
        exact ⟨_, rfl, le_rfl⟩

theorem checkFreshness_isOk {time : Option Nat} {maxDays : Nat} (label : String)
    (h : RangedAt now time maxDays) : ∃ found, checkFreshness time maxDays now label = .ok found := by
  unfold checkFreshness
  cases time with
  | none => exact ⟨_, rfl⟩
  | some s =>
    dsimp only
    split
    · exact ⟨_, rfl⟩
    · rename_i hpast
      have hrange := h s rfl (not_lt.mp hpast)
      rw [if_neg (by omega), if_neg (by omega)]
      split
      · exact ⟨_, rfl⟩
      · exact ⟨_, rfl⟩

/-! ### The tests that read no time -/

theorem reasons_ite {p : Prop} [Decidable p] {found : Findings} (h : found.reasons ≠ []) :
    (if p then found else Findings.none).reasons = [] ↔ ¬ p := by
  split
  · rename_i hp
    exact ⟨fun hr => absurd hr h, fun hno => absurd hp hno⟩
  · rename_i hp
    exact ⟨fun _ => hp, fun _ => rfl⟩

theorem reasons_checkResult : copy.checkResult.reasons = [] ↔ copy.lastVerificationResult = some "ok" := by
  unfold CopyFact.checkResult
  cases copy.lastVerificationResult with
  | none => exact ⟨nofun, nofun⟩
  | some result =>
    dsimp only
    split
    · rename_i h
      exact ⟨fun _ => congrArg some h, fun _ => rfl⟩
    · rename_i h
      exact ⟨nofun, fun hr => absurd (Option.some.inj hr) h⟩

theorem reasons_checkTrust : copy.checkTrust.reasons = [] ↔ copy.trustLevel = some "trusted" := by
  unfold CopyFact.checkTrust
  split
  · rename_i h
    exact ⟨fun _ => h, fun _ => rfl⟩
  · rename_i h
    split
    · exact ⟨nofun, fun ht => absurd ht h⟩
    · exact ⟨nofun, fun ht => absurd ht h⟩

theorem reasons_checkSite :
    copy.checkSite.reasons = [] ↔ copy.siteId ≠ none ∧ copy.siteStatus = some "active" := by
  unfold CopyFact.checkSite
  cases copy.siteId with
  | none => exact ⟨nofun, fun h => absurd rfl h.1⟩
  | some siteId =>
    dsimp only
    split
    · rename_i h
      exact ⟨fun _ => ⟨nofun, h⟩, fun _ => rfl⟩
    · rename_i h
      exact ⟨nofun, fun hs => absurd hs.2 h⟩

theorem reasons_checkDevice : copy.checkDevice.reasons = [] ↔ copy.OnKnownDevice := by
  unfold CopyFact.checkDevice
  rw [reasons_all_eq_nil]
  simp only [List.forall_mem_cons, List.not_mem_nil, false_imp_iff, implies_true, and_true]
  rw [reasons_ite (List.cons_ne_nil _ _), reasons_ite (List.cons_ne_nil _ _),
    reasons_ite (List.cons_ne_nil _ _), reasons_ite (List.cons_ne_nil _ _),
    reasons_ite (List.cons_ne_nil _ _)]
  simp only [ne_eq, not_not]
  exact ⟨fun ⟨h₁, h₂, h₃, h₄, h₅⟩ => ⟨h₁, h₂, h₃, h₄, h₅⟩,
    fun h => ⟨h.root, h.sameDevice, h.device, h.identity, h.fingerprint⟩⟩

theorem reasons_lastingKind : copy.lastingKind.reasons = [] ↔
    copy.locationKind = "filesystem" ∧ copy.OnKnownDevice ∨ copy.locationKind = "service" := by
  unfold CopyFact.lastingKind
  split
  · rename_i h
    rw [reasons_checkDevice, h]
    exact ⟨fun hd => Or.inl ⟨rfl, hd⟩, fun ho => ho.elim And.right fun hs => absurd hs (by decide)⟩
  · rename_i h
    rw [reasons_ite (List.cons_ne_nil _ _), not_not]
    exact ⟨Or.inr, fun ho => ho.resolve_left fun hf => h hf.1⟩

theorem reasons_checkEncryption : (copy.checkEncryption file requirements).reasons = [] ↔
    (requirements.requireEncryptedOffsite = true → copy.activeSiteId ≠ file.homeSiteId →
      copy.encryptionState = some "encrypted") := by
  unfold CopyFact.checkEncryption
  split
  · rename_i h
    have hno : ¬ (requirements.requireEncryptedOffsite = true → copy.activeSiteId ≠ file.homeSiteId →
        copy.encryptionState = some "encrypted") := fun himp => h.2.2 (himp h.1 h.2.1)
    split
    · exact ⟨nofun, fun himp => absurd himp hno⟩
    · exact ⟨nofun, fun himp => absurd himp hno⟩
  · rename_i h
    refine ⟨fun _ hreq hsite => ?_, fun _ => rfl⟩
    by_contra henc
    exact h ⟨hreq, hsite, henc⟩

theorem sound_iff : (Findings.all (copy.lasting file requirements)).reasons = [] ↔
    copy.Sound file requirements := by
  rw [reasons_all_eq_nil]
  simp only [CopyFact.lasting, List.forall_mem_cons, List.not_mem_nil, false_imp_iff, implies_true,
    and_true]
  rw [CopyFact.checkObject, CopyFact.checkState, CopyFact.checkLocation,
    reasons_ite (List.cons_ne_nil _ _), reasons_ite (List.cons_ne_nil _ _), reasons_checkResult,
    reasons_ite (List.cons_ne_nil _ _), reasons_checkTrust, reasons_checkSite, reasons_lastingKind,
    reasons_checkEncryption]
  simp only [ne_eq, not_not]
  exact ⟨fun ⟨h₁, h₂, h₃, h₄, h₅, h₆, h₇, h₈⟩ => ⟨h₁, h₂, h₃, h₄, h₅, h₆, h₇, h₈⟩,
    fun h => ⟨h.object, h.state, h.result, h.location, h.trust, h.site, h.kind, h.encryption⟩⟩

/-! ### The assessment of a copy -/

theorem checkKind_eq_ok {found : Findings} (h : copy.checkKind requirements now = .ok found) :
    (∀ x ∈ copy.deviceTimes requirements, RangedAt now x.1 x.2) ∧
      Found now (copy.deviceTimes requirements) [copy.lastingKind] found := by
  unfold CopyFact.checkKind at h
  unfold CopyFact.deviceTimes CopyFact.lastingKind
  split at h
  · rename_i hkind
    obtain ⟨checkin, hcheckin, h⟩ := bind_eq_ok.mp h
    obtain ⟨fingerprint, hfingerprint, h⟩ := bind_eq_ok.mp h
    cases h
    obtain ⟨hranged₁, hfound₁⟩ := checkFreshness_eq_ok hcheckin
    obtain ⟨hranged₂, hfound₂⟩ := checkFreshness_eq_ok hfingerprint
    rw [if_pos hkind, if_pos hkind]
    refine ⟨List.forall_mem_cons.mpr ⟨hranged₁, List.forall_mem_singleton.mpr hranged₂⟩, ?_⟩
    exact Found.all (l := [([], [copy.checkDevice], copy.checkDevice),
      ([(copy.lastCheckinTimeUtcMs, requirements.maxDeviceCheckinAgeDays)], [], checkin),
      ([(copy.lastFingerprintMatchTimeUtcMs, requirements.maxDeviceCheckinAgeDays)], [], fingerprint)])
      (List.forall_mem_cons.mpr ⟨found_lasting _, List.forall_mem_cons.mpr ⟨hfound₁,
        List.forall_mem_singleton.mpr hfound₂⟩⟩)
  · rename_i hkind
    rw [if_neg hkind, if_neg hkind]
    refine ⟨nofun, ?_⟩
    split at h
    · rename_i hservice
      cases h
      rw [if_pos hservice]
      exact found_lasting _
    · rename_i hservice
      cases h
      rw [if_neg hservice]
      exact found_lasting _

theorem checkKind_isOk (h : ∀ x ∈ copy.deviceTimes requirements, RangedAt now x.1 x.2) :
    ∃ found, copy.checkKind requirements now = .ok found := by
  unfold CopyFact.deviceTimes at h
  unfold CopyFact.checkKind
  split
  · rename_i hkind
    rw [if_pos hkind] at h
    obtain ⟨checkin, hcheckin⟩ := checkFreshness_isOk "device_checkin"
      (h _ List.mem_cons_self)
    obtain ⟨fingerprint, hfingerprint⟩ := checkFreshness_isOk "device_fingerprint"
      (h _ (List.mem_cons_of_mem _ List.mem_cons_self))
    rw [hcheckin, hfingerprint]
    exact ⟨_, rfl⟩
  · split
    · exact ⟨_, rfl⟩
    · exact ⟨_, rfl⟩

/-- What is used of the assessment of a copy. -/
structure Assessed (copy : CopyFact) (file : FileFact) (requirements : PolicyRequirements)
    (topology : DomainTopology) (now : Nat) (a : CopyAssessment) : Prop where
  qualified : copy.Qualifies file requirements now → a.qualified = some (copy.qualified file topology)
  unqualified : ¬ copy.Qualifies file requirements now → a.qualified = none
  uncertain : a.uncertain = true ↔ copy.Doubtful file requirements ∨ ¬ copy.Current requirements now
  expiry : ∀ x ∈ copy.testedTimes requirements, ∀ s, x.1 = some s → FreshAt now x.1 x.2 →
    ∃ v, a.validUntil = some v ∧ v ≤ s + x.2 * dayMs

theorem assessCopy_eq_ok {a : CopyAssessment} (h : assessCopy copy file requirements topology now = .ok a) :
    copy.Ranged requirements now ∧ Assessed copy file requirements topology now a := by
  obtain ⟨verification, hverification, h⟩ := bind_eq_ok.mp h
  obtain ⟨observation, hobservation, h⟩ := bind_eq_ok.mp h
  obtain ⟨kind, hkind, h⟩ := bind_eq_ok.mp h
  obtain ⟨hranged₁, hfound₁⟩ := checkFreshness_eq_ok hverification
  obtain ⟨hranged₂, hfound₂⟩ := checkFreshness_eq_ok hobservation
  obtain ⟨hranged₃, hfound₃⟩ := checkKind_eq_ok hkind
  cases h
  have hfound : ∀ e ∈ ([([], [copy.checkObject file], copy.checkObject file),
      ([], [copy.checkState], copy.checkState), ([], [copy.checkResult], copy.checkResult),
      ([(copy.lastVerifiedTimeUtcMs, requirements.maxVerificationAgeDays)], [], verification),
      ([(copy.lastSeenTimeUtcMs, requirements.maxObservationAgeDays)], [], observation),
      ([], [copy.checkLocation], copy.checkLocation), ([], [copy.checkTrust], copy.checkTrust),
      ([], [copy.checkSite], copy.checkSite),
      (copy.deviceTimes requirements, [copy.lastingKind], kind),
      ([], [copy.checkEncryption file requirements], copy.checkEncryption file requirements)] :
        List (List (Option Nat × Nat) × List Findings × Findings)), Found now e.1 e.2.1 e.2.2 := by
    simp only [List.forall_mem_cons, List.not_mem_nil, false_imp_iff, implies_true, and_true]
    exact ⟨found_lasting _, found_lasting _, found_lasting _, hfound₁, hfound₂, found_lasting _,
      found_lasting _, found_lasting _, hfound₃, found_lasting _⟩
  have hall := Found.all hfound
  simp only [List.flatMap_cons, List.flatMap_nil, List.map_cons, List.map_nil, List.nil_append,
    List.append_nil, List.cons_append] at hall
  have hlasting : (∀ test ∈ copy.lasting file requirements, test.reasons = []) ↔
      copy.Sound file requirements := reasons_all_eq_nil.symm.trans sound_iff
  have hreasons := hall.reasons.trans (and_congr_left' hlasting)
  refine ⟨List.forall_mem_cons.mpr ⟨hranged₁, List.forall_mem_cons.mpr ⟨hranged₂, hranged₃⟩⟩, ?_⟩
  refine ⟨fun hq => ?_, fun hq => ?_, ?_, hall.expiry⟩
  · exact if_pos (hreasons.mpr ⟨hq.sound, hq.current⟩)
  · exact if_neg fun hr => hq ⟨(hreasons.mp hr).1, (hreasons.mp hr).2⟩
  · refine hall.uncertain.trans (or_congr uncertain_all.symm ?_)
    unfold CopyFact.Current
    push Not
    rfl

theorem assessCopy_isOk (h : copy.Ranged requirements now) :
    ∃ a, assessCopy copy file requirements topology now = .ok a := by
  obtain ⟨hranged₁, h⟩ := List.forall_mem_cons.mp h
  obtain ⟨hranged₂, hranged₃⟩ := List.forall_mem_cons.mp h
  obtain ⟨verification, hverification⟩ := checkFreshness_isOk "verification" hranged₁
  obtain ⟨observation, hobservation⟩ := checkFreshness_isOk "observation" hranged₂
  obtain ⟨kind, hkind⟩ := checkKind_isOk hranged₃
  exact ⟨_, bind_eq_ok.mpr ⟨_, hverification, bind_eq_ok.mpr ⟨_, hobservation,
    bind_eq_ok.mpr ⟨_, hkind, rfl⟩⟩⟩⟩

end ArchiveLedger
