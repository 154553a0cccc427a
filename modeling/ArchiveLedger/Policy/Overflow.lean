import ArchiveLedger.Policy.Expiry

/-!
# When Policies can be evaluated

Accepted requirements can be evaluated on every File, unless a tested time plus its age limit
leaves the range of a `u64`, or what is counted for a Policy does not fit an `i64`: its known
bytes, its least expiry, or the time of the evaluation (`evaluates_iff`).  The file that
cannot be evaluated stops the evaluation of every Policy.
-/

namespace ArchiveLedger

open Transition Relational

variable {copy : CopyFact} {file : FileFact} {requirements : PolicyRequirements}
  {topology : DomainTopology} {marker : ProjectionMarker} {now : Nat}

/-! ### Where an expiry comes from -/

/-- A minimum of times is one of them. -/
theorem mem_of_minimumTimes {α : Type} (time : α → Option Nat) {l : List α} {found : Option Nat} {v : Nat}
    (h : l.foldl (fun found a => minimumTime found (time a)) found = some v) :
    found = some v ∨ ∃ a ∈ l, time a = some v := by
  induction l generalizing found with
  | nil => exact Or.inl h
  | cons a l ih =>
    rcases ih h with hmin | ⟨b, hb, hv⟩
    · cases hfound : found with
      | none =>
        have hmin : minimumTime found (time a) = some v := hmin
        rw [hfound] at hmin
        exact Or.inr ⟨a, List.mem_cons_self, hmin⟩
      | some x =>
        cases htime : time a with
        | none =>
          have hmin : minimumTime found (time a) = some v := hmin
          rw [hfound, htime] at hmin
          exact Or.inl hmin
        | some y =>
          have hmin : minimumTime found (time a) = some v := hmin
          rw [hfound, htime] at hmin
          have hmin : min x y = v := Option.some.inj hmin
          rcases min_choice x y with hx | hy
          · exact Or.inl (congrArg some (hx.symm.trans hmin))
          · exact Or.inr ⟨a, List.mem_cons_self, htime.trans (congrArg some (hy.symm.trans hmin))⟩
    · exact Or.inr ⟨b, List.mem_cons_of_mem _ hb, hv⟩

theorem expiry_of_checkFreshness {time : Option Nat} {maxDays : Nat} {label : String} {found : Findings}
    (h : checkFreshness time maxDays now label = .ok found) {v : Nat} (hv : found.validUntil = some v) :
    ∃ s, time = some s ∧ FreshAt now time maxDays ∧ v = s + maxDays * dayMs := by
  cases time with
  | none =>
    cases h
    cases hv
  | some s =>
    unfold checkFreshness at h
    dsimp only at h
    split at h
    · cases h
      cases hv
    · rename_i hpast
      split at h
      · cases h
      split at h
      · cases h
      split at h
      · cases h
        cases hv
      · rename_i hlive
        cases h
        cases hv
        exact ⟨s, rfl, ⟨s, rfl, not_lt.mp hpast, not_le.mp hlive⟩, rfl⟩

theorem validUntil_ite {p : Prop} [Decidable p] {found other : Findings} (h : found.validUntil = none)
    (h' : other.validUntil = none) : (if p then found else other).validUntil = none := by
  split
  · exact h
  · exact h'

theorem validUntil_all {tests : List Findings} (h : ∀ test ∈ tests, test.validUntil = none) :
    (Findings.all tests).validUntil = none := by
  cases hall : (Findings.all tests).validUntil with
  | none => rfl
  | some v =>
    rcases mem_of_minimumTimes Findings.validUntil hall with hnone | ⟨test, htest, hv⟩
    · cases hnone
    · rw [h test htest] at hv
      cases hv

/-- The tests that read no time tell no expiry. -/
theorem validUntil_lasting : ∀ test ∈ copy.lasting file requirements, test.validUntil = none := by
  simp only [CopyFact.lasting, List.forall_mem_cons, List.not_mem_nil, false_imp_iff, implies_true, and_true]
  refine ⟨validUntil_ite rfl rfl, validUntil_ite rfl rfl, ?_, validUntil_ite rfl rfl,
    validUntil_ite rfl (validUntil_ite rfl rfl), ?_, ?_, validUntil_ite (validUntil_ite rfl rfl) rfl⟩
  · unfold CopyFact.checkResult
    cases copy.lastVerificationResult with
    | none => rfl
    | some result => exact validUntil_ite rfl rfl
  · unfold CopyFact.checkSite
    cases copy.siteId with
    | none => rfl
    | some siteId => exact validUntil_ite rfl rfl
  · refine validUntil_ite (validUntil_all ?_) (validUntil_ite rfl rfl)
    simp only [List.forall_mem_cons, List.not_mem_nil, false_imp_iff, implies_true, and_true]
    exact ⟨validUntil_ite rfl rfl, validUntil_ite rfl rfl, validUntil_ite rfl rfl, validUntil_ite rfl rfl,
      validUntil_ite rfl rfl⟩

/-- The expiry of a fresh time of a copy. -/
def CopyFact.Expires (copy : CopyFact) (requirements : PolicyRequirements) (now v : Nat) : Prop :=
  ∃ x ∈ copy.testedTimes requirements, ∃ s, x.1 = some s ∧ FreshAt now x.1 x.2 ∧ v = s + x.2 * dayMs

theorem expires_of_checkKind (file : FileFact) {found : Findings}
    (h : copy.checkKind requirements now = .ok found) {v : Nat} (hv : found.validUntil = some v) :
    ∃ x ∈ copy.deviceTimes requirements, ∃ s, x.1 = some s ∧ FreshAt now x.1 x.2 ∧ v = s + x.2 * dayMs := by
  have hlasting : copy.lastingKind.validUntil = none :=
    @validUntil_lasting copy file requirements _ (by simp [CopyFact.lasting])
  unfold CopyFact.checkKind at h
  unfold CopyFact.deviceTimes
  unfold CopyFact.lastingKind at hlasting
  split at h
  · rename_i hkind
    rw [if_pos hkind] at hlasting ⊢
    obtain ⟨checkin, hcheckin, h⟩ := bind_eq_ok.mp h
    obtain ⟨fingerprint, hfingerprint, h⟩ := bind_eq_ok.mp h
    cases h
    rcases mem_of_minimumTimes Findings.validUntil hv with hnone | ⟨test, htest, hsome⟩
    · cases hnone
    · simp only [List.mem_cons, List.not_mem_nil, or_false] at htest
      rcases htest with rfl | rfl | rfl
      · rw [hlasting] at hsome
        cases hsome
      · exact ⟨_, List.mem_cons_self, expiry_of_checkFreshness hcheckin hsome⟩
      · exact ⟨_, List.mem_cons_of_mem _ List.mem_cons_self, expiry_of_checkFreshness hfingerprint hsome⟩
  · split at h
    · cases h
      cases hv
    · cases h
      cases hv

theorem expires_of_assessCopy {a : CopyAssessment} (h : assessCopy copy file requirements topology now = .ok a)
    {v : Nat} (hv : a.validUntil = some v) : copy.Expires requirements now v := by
  obtain ⟨verification, hverification, h⟩ := bind_eq_ok.mp h
  obtain ⟨observation, hobservation, h⟩ := bind_eq_ok.mp h
  obtain ⟨kind, hkind, h⟩ := bind_eq_ok.mp h
  cases h
  have hnone : ∀ test ∈ copy.lasting file requirements, test.validUntil ≠ some v := by
    intro test htest hsome
    rw [validUntil_lasting test htest] at hsome
    cases hsome
  rcases mem_of_minimumTimes Findings.validUntil hv with hstart | ⟨test, htest, hsome⟩
  · cases hstart
  simp only [List.mem_cons, List.not_mem_nil, or_false] at htest
  rcases htest with rfl | rfl | rfl | rfl | rfl | rfl | rfl | rfl | rfl | rfl
  · exact absurd hsome (hnone _ (by simp [CopyFact.lasting]))
  · exact absurd hsome (hnone _ (by simp [CopyFact.lasting]))
  · exact absurd hsome (hnone _ (by simp [CopyFact.lasting]))
  · exact ⟨_, List.mem_cons_self, expiry_of_checkFreshness hverification hsome⟩
  · exact ⟨_, List.mem_cons_of_mem _ List.mem_cons_self, expiry_of_checkFreshness hobservation hsome⟩
  · exact absurd hsome (hnone _ (by simp [CopyFact.lasting]))
  · exact absurd hsome (hnone _ (by simp [CopyFact.lasting]))
  · exact absurd hsome (hnone _ (by simp [CopyFact.lasting]))
  · obtain ⟨x, hx, hexpires⟩ := expires_of_checkKind file hkind hsome
    exact ⟨x, List.mem_append_right _ hx, hexpires⟩
  · exact absurd hsome (hnone _ (by simp [CopyFact.lasting]))

/-- The expiry of a fresh time of a File that is tested. -/
def FileFact.Expires (file : FileFact) (requirements : PolicyRequirements) (now v : Nat) : Prop :=
  file.identityUsable = true ∧ ∃ copy ∈ file.copies, copy.Expires requirements now v

theorem expires_of_evaluateFile {e : FileEvaluation}
    (h : evaluateFile file requirements topology now = .ok e) {v : Nat} (hv : e.validUntil = some v) :
    file.Expires requirements now v := by
  obtain ⟨l, hl, h⟩ := bind_eq_ok.mp h
  cases h
  rcases mem_of_minimumTimes (fun a : CopyFact × CopyAssessment => a.2.validUntil) hv with
    hnone | ⟨x, hx, hv⟩
  · cases hnone
  unfold assessCopies at hl
  split at hl
  · rename_i husable
    obtain ⟨copy, hcopy, hstep⟩ := Outcome.mem_of_mapM hl hx
    obtain ⟨a, ha, hstep⟩ := bind_eq_ok.mp hstep
    cases hstep
    exact ⟨husable, copy, hcopy, expires_of_assessCopy ha hv⟩
  · cases hl
    obtain ⟨copy, -, rfl⟩ := List.mem_map.mp hx
    cases hv

/-! ### Errors -/

/-- An arithmetic overflow, or a number that does not fit the database. -/
def PolicyError.Overflows (err : PolicyError) : Prop :=
  ∃ field, err = .invalidState (field ++ " age limit overflows") ∨
    err = .invalidState (field ++ " expiry overflows") ∨
    err = .invalidState (field ++ " is outside the SQLite range")

theorem overflows_of_checkFreshness {time : Option Nat} {maxDays : Nat} {label : String} :
    ∀ err, checkFreshness time maxDays now label = .error err → err.Overflows := by
  intro err h
  unfold checkFreshness at h
  cases time with
  | none => cases h
  | some s =>
    dsimp only at h
    split at h
    · cases h
    split at h
    · cases h
      exact ⟨label, Or.inl rfl⟩
    split at h
    · cases h
      exact ⟨label, Or.inr (Or.inl rfl)⟩
    split at h
    · cases h
    · cases h

theorem overflows_of_checkKind :
    ∀ err, copy.checkKind requirements now = .error err → err.Overflows := by
  unfold CopyFact.checkKind
  split
  · exact Outcome.fails_bind overflows_of_checkFreshness fun _ _ =>
      Outcome.fails_bind overflows_of_checkFreshness fun _ _ => nofun
  · split
    · exact nofun
    · exact nofun

theorem overflows_of_assessCopy :
    ∀ err, assessCopy copy file requirements topology now = .error err → err.Overflows :=
  Outcome.fails_bind overflows_of_checkFreshness fun _ _ =>
    Outcome.fails_bind overflows_of_checkFreshness fun _ _ =>
      Outcome.fails_bind overflows_of_checkKind fun _ _ => nofun

theorem overflows_of_evaluateFile :
    ∀ err, evaluateFile file requirements topology now = .error err → err.Overflows := by
  refine Outcome.fails_bind (fun err h => ?_) fun _ _ => nofun
  unfold assessCopies at h
  split at h
  · obtain ⟨copy, -, h⟩ := Outcome.exists_of_mapM_error h
    refine Outcome.fails_bind overflows_of_assessCopy ?_ err h
    exact fun _ _ => nofun
  · cases h

theorem overflows_of_sqlI64 {value : Nat} {field : String} :
    ∀ err, PolicyContext.sqlI64 value field = .error err → err.Overflows := by
  intro err h
  unfold PolicyContext.sqlI64 Outcome.require at h
  split at h
  · cases h
  · cases h
    exact ⟨field, Or.inr (Or.inr rfl)⟩

theorem overflows_of_sqlEvaluated {p : PolicyContext} :
    ∀ err, p.sqlEvaluated marker now = .error err → err.Overflows :=
  Outcome.fails_bind overflows_of_sqlI64 fun _ _ => Outcome.fails_bind overflows_of_sqlI64 fun _ _ =>
    Outcome.fails_bind overflows_of_sqlI64 fun _ _ => overflows_of_sqlI64

theorem overflows_of_startEvaluation :
    ∀ err, startEvaluation marker now = .error err → err.Overflows :=
  Outcome.fails_bind overflows_of_sqlI64 fun _ _ => Outcome.fails_bind overflows_of_sqlI64 fun _ _ =>
    overflows_of_sqlI64

/-- When the Files are the expected ones, a rollup is only refused for a number that does not fit. -/
theorem overflows_of_finishEvaluation {p : PolicyContext} (hcount : p.filesEvaluated = p.filesExpected) :
    ∀ err, finishEvaluation marker now p = .error err → err.Overflows := by
  refine Outcome.fails_bind (fun err h => ?_) fun _ _ => ?_
  · rw [Outcome.require, if_pos hcount] at h
    cases h
  · refine Outcome.fails_bind overflows_of_sqlEvaluated fun _ _ =>
      Outcome.fails_bind overflows_of_sqlI64 fun _ _ => Outcome.fails_bind overflows_of_sqlI64 fun _ _ =>
      Outcome.fails_bind overflows_of_sqlI64 fun _ _ => Outcome.fails_bind overflows_of_sqlI64 fun _ _ =>
      Outcome.fails_bind overflows_of_sqlI64 fun _ _ => Outcome.fails_bind overflows_of_sqlI64 fun _ _ =>
      Outcome.fails_bind overflows_of_sqlI64 fun _ _ => ?_
    split
    · exact overflows_of_sqlI64
    · exact nofun

/-! ### Counting -/

/-- What a Policy has counted of the evaluations made for it. -/
structure Tally (c : ConfiguredPolicy) (l : List (FileFact × FileEvaluation)) (p : PolicyContext) : Prop where
  evaluated : p.filesEvaluated = l.length
  statuses : p.filesSatisfied + p.filesViolated + p.filesUncertain = l.length
  unknown : p.filesSizeUnknown ≤ l.length
  total : p.bytesKnownTotal = min (l.filterMap fun x => x.1.sizeBytes).sum u64Max
  risk : p.bytesKnownAtRisk ≤ p.bytesKnownTotal
  version : p.policyVersion = c.policyVersion
  expected : p.filesExpected = c.filesExpected

theorem Tally.count {c : ConfiguredPolicy} {l : List (FileFact × FileEvaluation)} {p : PolicyContext}
    (h : Tally c l p) (file : FileFact) (e : FileEvaluation) : Tally c (l ++ [(file, e)]) (p.count file e) := by
  obtain ⟨hevaluated, hstatuses, hunknown, htotal, hrisk, hversion, hexpected⟩ := h
  have hsum : ((l ++ [(file, e)]).filterMap fun x => x.1.sizeBytes).sum =
      (l.filterMap fun x => x.1.sizeBytes).sum + file.sizeBytes.getD 0 := by
    cases hsize : file.sizeBytes <;> simp [hsize]
  rw [PolicyContext.count_eq]
  refine ⟨?_, ?_, ?_, ?_, ?_, hversion, hexpected⟩
  · simp [hevaluated]
  · show p.filesSatisfied + _ + (p.filesViolated + _) + (p.filesUncertain + _) = _
    rw [List.length_append, List.length_singleton]
    cases e.status with
    | none => simp; omega
    | some status => cases status <;> simp <;> omega
  · show p.filesSizeUnknown + _ ≤ _
    rw [List.length_append, List.length_singleton]
    split <;> omega
  · show file.sizeBytes.elim p.bytesKnownTotal (saturatingAdd p.bytesKnownTotal) = _
    rw [hsum, htotal]
    cases file.sizeBytes with
    | none => rfl
    | some size =>
      show min (min _ _ + size) _ = min (_ + size) _
      omega
  · show (e.status.bind fun _ => file.sizeBytes).elim p.bytesKnownAtRisk (saturatingAdd p.bytesKnownAtRisk) ≤
      file.sizeBytes.elim p.bytesKnownTotal (saturatingAdd p.bytesKnownTotal)
    cases file.sizeBytes with
    | none => cases e.status with
      | none => exact hrisk
      | some status => exact hrisk
    | some size => cases e.status with
      | none =>
        show p.bytesKnownAtRisk ≤ min (p.bytesKnownTotal + size) _
        omega
      | some status =>
        show min (p.bytesKnownAtRisk + size) _ ≤ min (p.bytesKnownTotal + size) _
        omega

theorem tally_countAll (c : ConfiguredPolicy) (l : List (FileFact × FileEvaluation)) :
    Tally c l (c.context.countAll l) := by
  induction l using List.reverseRecOn with
  | nil => exact ⟨rfl, rfl, le_rfl, rfl, le_rfl, rfl, rfl⟩
  | append_singleton l x ih =>
    have hlast : c.context.countAll (l ++ [x]) = (c.context.countAll l).count x.1 x.2 := by
      rw [PolicyContext.countAll, List.foldl_append]
      rfl
    rw [hlast]
    exact ih.count x.1 x.2

theorem finishEvaluation_eq_ok {p : PolicyContext} : finishEvaluation marker now p = .ok () ↔
    p.filesEvaluated = p.filesExpected ∧ p.policyVersion ≤ i64Max ∧ now ≤ i64Max ∧ p.filesEvaluated ≤ i64Max ∧
      p.filesSatisfied ≤ i64Max ∧ p.filesViolated ≤ i64Max ∧ p.filesUncertain ≤ i64Max ∧
      p.filesSizeUnknown ≤ i64Max ∧ p.bytesKnownTotal ≤ i64Max ∧ p.bytesKnownAtRisk ≤ i64Max ∧
      ∀ v, p.validUntil = some v → v ≤ i64Max := by
  unfold finishEvaluation
  simp only [bind_eq_ok, PolicyContext.sqlEvaluated_eq_ok, PolicyContext.sqlI64_eq_ok, Outcome.require_eq_ok,
    exists_const, and_assoc]
  cases p.validUntil with
  | none => simp
  | some v => simp [PolicyContext.sqlI64_eq_ok]

/-- What a Policy needs of the Files that are counted for it. -/
structure Evaluable (p : PolicyContext) (files : List FileFact) (now : Nat) : Prop where
  clock : now ≤ i64Max
  ranged : ∀ f ∈ files, f.policyId = p.policyId → f.identityUsable = true → f.Ranged p.requirements.val now
  expiry : (∃ f ∈ files, f.policyId = p.policyId ∧ ∃ v, f.Expires p.requirements.val now v) →
    ∃ f ∈ files, f.policyId = p.policyId ∧ ∃ v ≤ i64Max, f.Expires p.requirements.val now v
  sizes : ((files.filter fun f => f.policyId = p.policyId).filterMap FileFact.sizeBytes).sum ≤ i64Max

/-- What the queries hand over: Policies that have counted nothing yet, the expected number of Files for
each, and numbers that are stored. -/
structure HandedOver (policies : Table policyContextSchema) (files : List FileFact) : Prop where
  started : ∀ p ∈ policies.rows, ∃ c : ConfiguredPolicy, p = c.context
  known : ∀ f ∈ files, ∃ p, policies.get? f.policyId = some p
  expected : ∀ p ∈ policies.rows, (files.filter fun f => f.policyId = p.policyId).length = p.filesExpected
  counts : ∀ p ∈ policies.rows, p.policyVersion ≤ i64Max ∧ p.filesExpected ≤ i64Max
  sizes : ∀ f ∈ files, ∀ s, f.sizeBytes = some s → s ≤ i64Max
  times : ∀ f ∈ files, ∀ copy ∈ f.copies, ∀ s, copy.lastSeenTimeUtcMs = some s ∨
    copy.lastVerifiedTimeUtcMs = some s ∨ copy.lastCheckinTimeUtcMs = some s ∨
    copy.lastFingerprintMatchTimeUtcMs = some s → s ≤ i64Max

theorem exists_validUntil {e : FileEvaluation} (h : evaluateFile file requirements topology now = .ok e)
    {v : Nat} (hv : file.Expires requirements now v) : ∃ w, e.validUntil = some w ∧ w ≤ v := by
  obtain ⟨husable, copy, hcopy, x, hx, s, hs, hfresh, rfl⟩ := hv
  exact (evaluateFile_eq_ok h).2.expiry husable copy hcopy x hx s hs hfresh

/-- The expiry of an evaluation is the least of the fresh times that are tested. -/
theorem validUntil_le_iff {c : ConfiguredPolicy} {files : List FileFact} {l : List (FileFact × FileEvaluation)}
    (hl : EvaluatedAll requirements topology now files l) {bound : Nat} :
    (∀ v, (c.context.countAll l).validUntil = some v → v ≤ bound) ↔
      ((∃ f ∈ files, ∃ v, f.Expires requirements now v) →
        ∃ f ∈ files, ∃ v ≤ bound, f.Expires requirements now v) := by
  have hmem : ∀ x ∈ l, x.1 ∈ files := fun x hx => hl.1 ▸ List.mem_map_of_mem hx
  have hpair : ∀ f ∈ files, ∃ x ∈ l, x.1 = f := by
    intro f hf
    rw [← hl.1] at hf
    exact List.mem_map.mp hf
  rw [validUntil_countAll]
  constructor
  · rintro hle ⟨f, hf, v, hv⟩
    obtain ⟨x, hx, rfl⟩ := hpair f hf
    obtain ⟨w, hw, -⟩ := exists_validUntil (hl.2 x hx) hv
    obtain ⟨least, hleast, -⟩ := le_minimumTimes (fun x : FileFact × FileEvaluation => x.2.validUntil)
      c.context.validUntil hx hw
    rcases mem_of_minimumTimes (fun x : FileFact × FileEvaluation => x.2.validUntil) hleast with
      hnone | ⟨y, hy, hsome⟩
    · cases hnone
    · exact ⟨y.1, hmem y hy, least, hle least hleast, expires_of_evaluateFile (hl.2 y hy) hsome⟩
  · intro hleast v hv
    rcases mem_of_minimumTimes (fun x : FileFact × FileEvaluation => x.2.validUntil) hv with hnone | ⟨y, hy, hsome⟩
    · cases hnone
    · obtain ⟨f, hf, w, hw, hexpires⟩ :=
        hleast ⟨y.1, hmem y hy, v, expires_of_evaluateFile (hl.2 y hy) hsome⟩
      obtain ⟨x, hx, rfl⟩ := hpair f hf
      obtain ⟨u, hu, huw⟩ := exists_validUntil (hl.2 x hx) hexpires
      obtain ⟨least, hfold, hle⟩ := le_minimumTimes (fun x : FileFact × FileEvaluation => x.2.validUntil)
        c.context.validUntil hx hu
      obtain rfl : least = v := Option.some.inj (hfold.symm.trans hv)
      exact le_trans hle (le_trans huw hw)

/-- A Policy whose Files were all evaluated is published when its numbers fit. -/
theorem finish_countAll_iff {c : ConfiguredPolicy} {files : List FileFact} {l : List (FileFact × FileEvaluation)}
    (hl : EvaluatedAll c.requirements.val topology now files l) (hexpected : files.length = c.filesExpected)
    (hversion : c.policyVersion ≤ i64Max) (hfits : c.filesExpected ≤ i64Max) :
    finishEvaluation marker now (c.context.countAll l) = .ok () ↔ now ≤ i64Max ∧
      (files.filterMap FileFact.sizeBytes).sum ≤ i64Max ∧
      ∀ v, (c.context.countAll l).validUntil = some v → v ≤ i64Max := by
  obtain ⟨hevaluated, hstatuses, hunknown, htotal, hrisk, hpolicy, hfiles⟩ := tally_countAll c l
  have hlength : l.length = files.length := by rw [← hl.1, List.length_map]
  have hmax : i64Max < u64Max := by decide
  have hsizes : l.filterMap (fun x => x.1.sizeBytes) = files.filterMap FileFact.sizeBytes := by
    rw [← hl.1, List.filterMap_map]
    rfl
  rw [hsizes] at htotal
  rw [finishEvaluation_eq_ok]
  constructor
  · rintro ⟨-, -, hnow, -, -, -, -, -, hsum, -, hlast⟩
    exact ⟨hnow, by omega, hlast⟩
  · rintro ⟨hnow, hsum, hlast⟩
    exact ⟨by omega, by omega, hnow, by omega, by omega, by omega, by omega, by omega, by omega, by omega, hlast⟩

/-! ### All Policies -/

section Published

variable {policies : Table policyContextSchema} {files : List FileFact}

/-- What one File changes of the Policies. -/
theorem get?_store {next : Table policyContextSchema}
    (h : evaluateAndStoreFile topology marker now policies file = .ok next) :
    ∃ e p, policies.get? file.policyId = some p ∧ evaluateFile file p.requirements.val topology now = .ok e ∧
      ∀ id, next.get? id = (policies.get? id).map fun p => if p.policyId = file.policyId then p.count file e else p := by
  obtain ⟨p, hp, h⟩ := bind_eq_ok.mp h
  obtain ⟨e, he, h⟩ := bind_eq_ok.mp h
  obtain ⟨_, -, h⟩ := bind_eq_ok.mp h
  rw [Outcome.okOr_eq_ok] at hp
  refine ⟨e, p, hp, he, fun id => ?_⟩
  rw [← Except.ok.inj h, Table.get?_modify]
  simp

theorem startEvaluation_eq_ok : startEvaluation marker now = .ok () ↔ now ≤ i64Max := by
  have hinput : marker.policyInputEventSeq ≤ i64Max :=
    le_trans marker.policyInputEventSeq_le marker.appliedSeq_le
  simp only [startEvaluation, bind_eq_ok, PolicyContext.sqlI64_eq_ok, exists_const, marker.appliedSeq_le,
    hinput, true_and]

/-- With known Policies only the evaluation of a File and the numbers of its finding can fail. -/
theorem foldlM_fails {err : PolicyError} (hknown : ∀ f ∈ files, ∃ p, policies.get? f.policyId = some p)
    (h : files.foldlM (evaluateAndStoreFile topology marker now) policies = .error err) :
    ∃ f ∈ files, ∃ p, policies.get? f.policyId = some p ∧
      (evaluateFile f p.requirements.val topology now = .error err ∨ p.sqlEvaluated marker now = .error err) := by
  induction files generalizing policies with
  | nil => cases h
  | cons f files ih =>
    rw [List.foldlM_cons] at h
    rcases Outcome.bind_eq_error.mp h with hstore | ⟨next, hstore, h⟩
    · obtain ⟨p, hp⟩ := hknown f List.mem_cons_self
      refine ⟨f, List.mem_cons_self, p, hp, ?_⟩
      unfold evaluateAndStoreFile at hstore
      rw [hp] at hstore
      rcases Outcome.bind_eq_error.mp hstore with hfound | ⟨q, hq, hstore⟩
      · cases hfound
      · cases hq
        rcases Outcome.bind_eq_error.mp hstore with hfile | ⟨e, -, hstore⟩
        · exact Or.inl hfile
        · rcases Outcome.bind_eq_error.mp hstore with hstored | ⟨_, -, hstore⟩
          · cases hstatus : e.status with
            | none =>
              rw [hstatus] at hstored
              cases hstored
            | some status =>
              rw [hstatus] at hstored
              exact Or.inr hstored
          · cases hstore
    · obtain ⟨e, -, -, -, hnext⟩ := get?_store hstore
      have hkept : ∀ id q, next.get? id = some q → ∃ p, policies.get? id = some p ∧
          q.requirements = p.requirements ∧ q.sqlEvaluated marker now = p.sqlEvaluated marker now := by
        intro id q hq
        rw [hnext] at hq
        obtain ⟨p, hp, rfl⟩ := Option.map_eq_some_iff.mp hq
        refine ⟨p, hp, ?_⟩
        split
        · rw [PolicyContext.count_eq]
          exact ⟨rfl, rfl⟩
        · exact ⟨rfl, rfl⟩
      obtain ⟨g, hg, q, hq, herr⟩ := ih (fun g hg => by
        obtain ⟨p, hp⟩ := hknown g (List.mem_cons_of_mem _ hg)
        rw [hnext, hp]
        exact ⟨_, rfl⟩) h
      obtain ⟨p, hp, hrequirements, hevaluated⟩ := hkept _ q hq
      rw [hrequirements, hevaluated] at herr
      exact ⟨g, List.mem_cons_of_mem _ hg, p, hp, herr⟩

/-- The context that is published for a Policy. -/
theorem published_of_mem (h : HandedOver policies files) {published : Table policyContextSchema}
    (hfold : files.foldlM (evaluateAndStoreFile topology marker now) policies = .ok published) {p : PolicyContext}
    (hp : p ∈ policies.rows) : ∃ c l, p = ConfiguredPolicy.context c ∧
      EvaluatedAll c.requirements.val topology now (files.filter fun f => f.policyId = p.policyId) l ∧
      c.context.countAll l ∈ published.rows := by
  obtain ⟨c, rfl⟩ := h.started p hp
  obtain ⟨l, hl, hget⟩ := (foldlM_store hfold).2 _ (Table.get?_of_mem hp)
  exact ⟨c, l, rfl, hl, Table.mem_of_get? hget⟩

theorem mem_of_published (h : HandedOver policies files) {published : Table policyContextSchema}
    (hfold : files.foldlM (evaluateAndStoreFile topology marker now) policies = .ok published) {q : PolicyContext}
    (hq : q ∈ published.rows) : ∃ c l, ConfiguredPolicy.context c ∈ policies.rows ∧
      EvaluatedAll c.requirements.val topology now (files.filter fun f => f.policyId = c.policyId) l ∧
      q = c.context.countAll l := by
  have hget := Table.get?_of_mem hq
  obtain ⟨p, hp⟩ := (foldlM_store hfold).1 q hget
  obtain ⟨l, hl, hpublished⟩ := (foldlM_store hfold).2 p hp
  obtain ⟨c, rfl⟩ := h.started p (Table.mem_of_get? hp)
  have hid : c.policyId = policyContextSchema.key q := Table.key_of_get? hp
  rw [← hid] at hl
  exact ⟨c, l, Table.mem_of_get? hp, hl, Option.some.inj (hget.symm.trans hpublished)⟩

/-- What is handed over fails for no other reason than a number. -/
theorem overflows_of_evaluatePolicies (h : HandedOver policies files) :
    ∀ err, evaluatePolicies marker policies topology files now = .error err → err.Overflows := by
  intro err herr
  rcases Outcome.bind_eq_error.mp herr with hstart | ⟨_, -, herr⟩
  · obtain ⟨-, -, hstart⟩ := Outcome.exists_of_forM_error hstart
    exact overflows_of_startEvaluation err hstart
  rcases Outcome.bind_eq_error.mp herr with hfold | ⟨published, hfold, herr⟩
  · obtain ⟨f, -, p, -, hfile | hstored⟩ := foldlM_fails h.known hfold
    · exact overflows_of_evaluateFile err hfile
    · exact overflows_of_sqlEvaluated err hstored
  · rcases Outcome.bind_eq_error.mp herr with hforM | ⟨_, -, herr⟩
    · obtain ⟨q, hq, hfinish⟩ := Outcome.exists_of_forM_error hforM
      obtain ⟨c, l, hc, hl, rfl⟩ := mem_of_published h hfold hq
      refine overflows_of_finishEvaluation ?_ err hfinish
      have htally := tally_countAll c l
      have hexpected := h.expected _ hc
      rw [htally.evaluated, htally.expected, ← List.length_map (f := Prod.fst), hl.1]
      exact hexpected
    · cases herr

theorem evaluateFile_overflows_iff :
    (∀ err, evaluateFile file requirements topology now = .error err → ¬ err.Overflows) ↔
      (file.identityUsable = true → file.Ranged requirements now) := by
  constructor
  · intro hnone
    cases he : evaluateFile file requirements topology now with
    | error err => exact absurd (overflows_of_evaluateFile err he) (hnone err he)
    | ok e => exact (evaluateFile_eq_ok he).1
  · intro hranged err herr
    obtain ⟨e, he⟩ : ∃ e, evaluateFile file requirements topology now = .ok e := evaluateFile_isOk hranged
    rw [he] at herr
    cases herr

/-- A review fails as the evaluation of its File does. -/
theorem reviewFilePolicy_eq_error {configured : ConfiguredFile} {err : PolicyError} :
    reviewFilePolicy marker topology now (some configured) = .error err ↔
      evaluateFile configured.file configured.requirements.val topology now = .error err := by
  refine Outcome.bind_eq_error.trans ⟨?_, Or.inl⟩
  rintro (hfile | ⟨e, -, herr⟩)
  · exact hfile
  · cases herr

/-- **When Policies can be evaluated.**  A File is evaluated without overflow when its fresh and stale times
plus their age limits are `u64` numbers, and so it is reviewed; and all Policies are when besides, for
each of them, the known bytes and the least expiry fit the database. -/
theorem evaluates_iff (file : FileFact) (requirements : AcceptedRequirements) (policyVersion : Nat)
    (topology : DomainTopology) (marker : ProjectionMarker) (now : Nat) (h : HandedOver policies files) :
    ((∀ err, evaluateFile file requirements.val topology now = .error err → ¬ err.Overflows) ↔
      (file.identityUsable = true → file.Ranged requirements.val now)) ∧
    ((∀ err, reviewFilePolicy marker topology now (some ⟨file, policyVersion, requirements⟩) = .error err →
        ¬ err.Overflows) ↔
      (file.identityUsable = true → file.Ranged requirements.val now)) ∧
    ((∀ err, evaluatePolicies marker policies topology files now = .error err → ¬ err.Overflows) ↔
      ∀ p ∈ policies.rows, Evaluable p files now) := by
  refine ⟨evaluateFile_overflows_iff, ?_, ?_⟩
  · simp only [reviewFilePolicy_eq_error]
    exact evaluateFile_overflows_iff
  · have hof : ∀ {p : PolicyContext} {f : FileFact},
        f ∈ (files.filter fun f => f.policyId = p.policyId) ↔ f ∈ files ∧ f.policyId = p.policyId := by
      intro p f
      rw [List.mem_filter, decide_eq_true_eq]
    constructor
    · intro hnone p hp
      cases hall : evaluatePolicies marker policies topology files now with
      | error err => exact absurd (overflows_of_evaluatePolicies h err hall) (hnone err hall)
      | ok published =>
        obtain ⟨_, -, hall⟩ := bind_eq_ok.mp hall
        obtain ⟨published, hfold, hall⟩ := bind_eq_ok.mp hall
        obtain ⟨_, hforM, -⟩ := bind_eq_ok.mp hall
        obtain ⟨c, l, rfl, hl, hq⟩ := published_of_mem h hfold hp
        have hfinish := Outcome.forM_eq_ok.mp hforM _ hq
        obtain ⟨hclock, hsizes, huntil⟩ := (finish_countAll_iff hl (h.expected _ hp) (h.counts _ hp).1
          (h.counts _ hp).2).mp hfinish
        refine ⟨hclock, fun f hf hpolicy husable => ?_, ?_, hsizes⟩
        · have hmem : f ∈ l.map Prod.fst := hl.1 ▸ hof.mpr ⟨hf, hpolicy⟩
          obtain ⟨x, hx, rfl⟩ := List.mem_map.mp hmem
          exact (evaluateFile_eq_ok (hl.2 x hx)).1 husable
        · rintro ⟨f, hf, hpolicy, hexpires⟩
          obtain ⟨g, hg, v, hv, hleast⟩ := (validUntil_le_iff hl).mp huntil ⟨f, hof.mpr ⟨hf, hpolicy⟩, hexpires⟩
          obtain ⟨hg, hgpolicy⟩ := hof.mp hg
          exact ⟨g, hg, hgpolicy, v, hv, hleast⟩
    · intro hevaluable err herr
      exfalso
      rcases Outcome.bind_eq_error.mp herr with hstart | ⟨_, -, herr⟩
      · obtain ⟨p, hp, hstart⟩ := Outcome.exists_of_forM_error hstart
        rw [startEvaluation_eq_ok.mpr (hevaluable p hp).clock] at hstart
        cases hstart
      rcases Outcome.bind_eq_error.mp herr with hfold | ⟨published, hfold, herr⟩
      · obtain ⟨f, hf, p, hp, hfails⟩ := foldlM_fails h.known hfold
        have hid : p.policyId = f.policyId := Table.key_of_get? hp
        have hmem : p ∈ policies.rows := Table.mem_of_get? hp
        rcases hfails with hfile | hstored
        · obtain ⟨e, he⟩ : ∃ e, evaluateFile f p.requirements.val topology now = .ok e :=
            evaluateFile_isOk ((hevaluable p hmem).ranged f hf hid.symm)
          rw [he] at hfile
          cases hfile
        · have hfits : p.sqlEvaluated marker now = .ok () :=
            PolicyContext.sqlEvaluated_eq_ok.mpr ⟨(h.counts p hmem).1, (hevaluable p hmem).clock⟩
          rw [hfits] at hstored
          cases hstored
      · rcases Outcome.bind_eq_error.mp herr with hforM | ⟨_, -, herr⟩
        · obtain ⟨q, hq, hfinish⟩ := Outcome.exists_of_forM_error hforM
          obtain ⟨c, l, hc, hl, rfl⟩ := mem_of_published h hfold hq
          obtain ⟨hclock, -, hexpiry, hsizes⟩ := hevaluable _ hc
          have hok : finishEvaluation marker now (c.context.countAll l) = .ok () :=
            (finish_countAll_iff hl (h.expected _ hc) (h.counts _ hc).1 (h.counts _ hc).2).mpr
            ⟨hclock, hsizes, (validUntil_le_iff hl).mpr fun hsome => by
              obtain ⟨f, hf, hexpires⟩ := hsome
              obtain ⟨hf, hpolicy⟩ := (hof (p := c.context)).mp hf
              obtain ⟨g, hg, hgpolicy, v, hv, hleast⟩ := hexpiry ⟨f, hf, hpolicy, hexpires⟩
              exact ⟨g, hof.mpr ⟨hg, hgpolicy⟩, v, hv, hleast⟩⟩
          rw [hok] at hfinish
          cases hfinish
        · cases herr

end Published

namespace Sample

theorem oneFile_registered (requirements : AcceptedRequirements) :
    HandedOver (oneFilePolicy requirements) [reviewedFile [reviewedFact "attic" 1000]] where
  started := fun p hp => ⟨_, List.mem_singleton.mp hp⟩
  known := fun f hf => by
    obtain rfl := List.mem_singleton.mp hf
    exact ⟨_, rfl⟩
  expected := fun p hp => by
    obtain rfl := List.mem_singleton.mp hp
    rfl
  counts := fun p hp => by
    obtain rfl := List.mem_singleton.mp hp
    have hone : 1 ≤ i64Max := by decide
    exact ⟨hone, hone⟩
  sizes := fun f hf s hs => by
    obtain rfl := List.mem_singleton.mp hf
    cases hs
    decide
  times := fun f hf copy hcopy s hs => by
    obtain rfl := List.mem_singleton.mp hf
    obtain rfl := List.mem_singleton.mp hcopy
    have htime : s = 1000 := by
      rcases hs with h | h | h | h <;> exact (Option.some.inj h).symm
    rw [htime]
    decide

/-- With the widest age limits that are accepted the expiry of a copy seen now does not fit. -/
theorem widest_not_evaluated : ¬ ∀ (marker : ProjectionMarker) (policies : Table policyContextSchema)
    (files : List FileFact) (topology : DomainTopology) (now : Nat), HandedOver policies files → now ≤ i64Max →
      ∀ err, evaluatePolicies marker policies topology files now = .error err → ¬ err.Overflows := by
  intro h
  refine h firstMarker _ _ unassigned 2000 (oneFile_registered widest) (by decide)
    (.invalidState "valid_until_utc_ms is outside the SQLite range") rfl ?_
  exact ⟨"valid_until_utc_ms", Or.inr (Or.inr rfl)⟩

theorem monthly_evaluated : ¬ ∃ err, evaluatePolicies firstMarker (oneFilePolicy monthly) unassigned
    [reviewedFile [reviewedFact "attic" 1000]] 2000 = .error err ∧ err.Overflows := by
  rintro ⟨err, herr, hoverflows⟩
  have hfresh : FreshAt 2000 (some 1000) 30 := ⟨1000, rfl, by decide, by decide⟩
  refine (evaluates_iff (reviewedFile [reviewedFact "attic" 1000]) monthly 1 unassigned firstMarker 2000
    (oneFile_registered monthly)).2.2.mpr (fun p hp => ?_) err herr hoverflows
  obtain rfl := List.mem_singleton.mp hp
  refine ⟨by decide, fun f hf _ _ copy hcopy x hx s hs _ => ?_, fun _ => ?_, by decide⟩
  · obtain rfl := List.mem_singleton.mp hf
    obtain rfl := List.mem_singleton.mp hcopy
    obtain rfl := testedTimes_monthly hx
    cases hs
    decide
  · exact ⟨_, List.mem_cons_self, rfl, 1000 + 30 * dayMs, by decide, rfl, _, List.mem_cons_self, _,
      List.mem_cons_self, 1000, rfl, hfresh, rfl⟩

end Sample

end ArchiveLedger
