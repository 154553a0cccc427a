import ArchiveLedger.Policy.Evaluations
import ArchiveLedger.Policy.Satisfaction

/-!
# How long an evaluation lasts

Before `valid_until` what is fresh stays fresh, and a time that is past stays past.  A time
in the future does not: it becomes fresh when it comes, and no expiry tells.  `steady_iff`
says when nothing comes of that before another time, and `rollup_of_steady` what
follows for a published evaluation.
-/

namespace ArchiveLedger

open Transition Relational

variable {copy : CopyFact} {file : FileFact} {requirements : PolicyRequirements}
  {topology : DomainTopology} {now t : Nat}

/-! ### Copies that mature -/

/-- Some time is not fresh yet, and at the later time all are. -/
def CopyFact.Matures (copy : CopyFact) (requirements : PolicyRequirements) (now t : Nat) : Prop :=
  ¬ copy.Current requirements now ∧ copy.Current requirements t

/-- No time that has come by the later time leaves the range of a `u64` or changes the verdict: no
sound copy matures, and when other copies do, one that is uncertain stays so or the
redundancy is there without them. -/
structure FileFact.Steady (file : FileFact) (requirements : PolicyRequirements)
    (topology : DomainTopology) (now t : Nat) : Prop where
  ranged : file.Ranged requirements t
  sound : ∀ copy ∈ file.copies, copy.Sound file requirements → ¬ copy.Matures requirements now t
  settled : (∀ copy ∈ file.copies, ¬ copy.Matures requirements now t) ∨
    (∃ copy ∈ file.copies, copy.Doubtful file requirements ∨ ¬ copy.Current requirements t) ∨
    Redundant file requirements topology (file.qualifying requirements now)

/-- What is fresh before `valid_until` stays fresh up to it. -/
theorem current_of_valid {e : FileEvaluation} (hle : now ≤ t)
    (he : Evaluated file requirements topology now e) (husable : file.identityUsable = true)
    (hvalid : ∀ v, e.validUntil = some v → t < v) (hcopy : copy ∈ file.copies)
    (h : copy.Current requirements now) : copy.Current requirements t := by
  intro x hx
  obtain ⟨s, hs, hpast, hlive⟩ := h x hx
  obtain ⟨v, hv, hvs⟩ := he.expiry husable copy hcopy x hx s hs ⟨s, hs, hpast, hlive⟩
  exact ⟨s, hs, le_trans hpast hle, lt_of_lt_of_le (hvalid v hv) hvs⟩

/-- The verdict on the same copies depends on what is uncertain only when it is not satisfied. -/
theorem fileStatus_congr {qualified : List QualifiedCopy} {u u' : Bool} :
    fileStatus true requirements topology qualified u' = fileStatus true requirements topology qualified u ↔
      fileStatus true requirements topology qualified u = none ∨ (u' = true ↔ u = true) := by
  unfold fileStatus
  dsimp only
  by_cases hfail : failedRequirements requirements qualified ≠ [] ∨
      (lossScenarios qualified topology).any LossScenario.permanentLoss = true ∨ ¬ true = true
  · rw [if_pos hfail, if_pos hfail]
    cases u with
    | false => cases u' with
      | false => simp
      | true => simp
    | true => cases u' with
      | false => simp
      | true => simp
  · rw [if_neg hfail, if_neg hfail]
    simp

section Lasting

/-! What is fresh stays fresh. -/

variable (hcurrent : ∀ copy ∈ file.copies, copy.Current requirements now → copy.Current requirements t)

include hcurrent

theorem current_iff (hcopy : copy ∈ file.copies) (h : ¬ copy.Matures requirements now t) :
    copy.Current requirements t ↔ copy.Current requirements now := by
  refine ⟨fun ht => ?_, hcurrent copy hcopy⟩
  by_contra hnot
  exact h ⟨hnot, ht⟩

theorem qualifying_sublist_later :
    (file.qualifying requirements now).Sublist (file.qualifying requirements t) := by
  classical
  have hfilter : file.qualifying requirements now =
      (file.qualifying requirements t).filter fun copy => copy.Qualifies file requirements now := by
    unfold FileFact.qualifying
    rw [List.filter_filter]
    refine List.filter_congr fun copy hcopy => ?_
    by_cases hq : copy.Qualifies file requirements now
    · have ht : copy.Qualifies file requirements t := ⟨hq.sound, hcurrent copy hcopy hq.current⟩
      simp [hq, ht]
    · simp [hq]
  rw [hfilter]
  exact List.filter_sublist

/-- The same copies qualify when no sound copy matures. -/
theorem qualifying_eq_iff : file.qualifying requirements t = file.qualifying requirements now ↔
    ∀ copy ∈ file.copies, copy.Sound file requirements → ¬ copy.Matures requirements now t := by
  classical
  constructor
  · rintro heq copy hcopy hsound ⟨hnot, ht⟩
    have hmem : copy ∈ file.qualifying requirements t := mem_qualifying.mpr ⟨hcopy, hsound, ht⟩
    rw [heq] at hmem
    exact hnot (mem_qualifying.mp hmem).2.current
  · intro h
    refine List.filter_congr fun copy hcopy => decide_eq_decide.mpr ?_
    constructor
    · intro hq
      exact ⟨hq.sound, (current_iff hcurrent hcopy (h copy hcopy hq.sound)).mp hq.current⟩
    · intro hq
      exact ⟨hq.sound, hcurrent copy hcopy hq.current⟩

/-- Something is as uncertain as before when no copy matures, or one is left uncertain. -/
theorem uncertain_iff : ((∃ copy ∈ file.copies, copy.Doubtful file requirements ∨
      ¬ copy.Current requirements t) ↔
    ∃ copy ∈ file.copies, copy.Doubtful file requirements ∨ ¬ copy.Current requirements now) ↔
      (∀ copy ∈ file.copies, ¬ copy.Matures requirements now t) ∨
        ∃ copy ∈ file.copies, copy.Doubtful file requirements ∨ ¬ copy.Current requirements t := by
  constructor
  · intro hiff
    by_cases hlater : ∃ copy ∈ file.copies, copy.Doubtful file requirements ∨
        ¬ copy.Current requirements t
    · exact Or.inr hlater
    · exact Or.inl fun copy hcopy hmatures => hlater (hiff.mpr ⟨copy, hcopy, Or.inr hmatures.1⟩)
  · rintro (hnone | hlater)
    · constructor
      · rintro ⟨copy, hcopy, hcase⟩
        exact ⟨copy, hcopy, hcase.imp_right fun hnot hnow =>
          hnot ((current_iff hcurrent hcopy (hnone copy hcopy)).mpr hnow)⟩
      · rintro ⟨copy, hcopy, hcase⟩
        exact ⟨copy, hcopy, hcase.imp_right fun hnot ht =>
          hnot ((current_iff hcurrent hcopy (hnone copy hcopy)).mp ht)⟩
    · refine iff_of_true hlater ?_
      obtain ⟨copy, hcopy, hcase⟩ := hlater
      exact ⟨copy, hcopy, hcase.imp_right fun hnot hnow => hnot (hcurrent copy hcopy hnow)⟩

end Lasting

/-- Before an identity is resolved an evaluation says the same at every time. -/
theorem evaluate_unusable {e : FileEvaluation} (husable : file.identityUsable = false)
    (he : evaluateFile file requirements topology now = .ok e) (t : Nat) :
    ∃ e', evaluateFile file requirements topology t = .ok e' ∧ e'.status = e.status ∧
      e'.qualifyingCopies = e.qualifyingCopies := by
  obtain ⟨-, hnow⟩ := evaluateFile_eq_ok he
  obtain ⟨u, -, hstatus⟩ := hnow.status
  obtain ⟨e', he'⟩ : ∃ e', evaluateFile file requirements topology t = .ok e' :=
    evaluateFile_isOk fun h => absurd (husable.symm.trans h) Bool.false_ne_true
  obtain ⟨-, hlater⟩ := evaluateFile_eq_ok he'
  obtain ⟨u', -, hstatus'⟩ := hlater.status
  have hcounted : ∀ now, file.counted requirements now = [] := fun now =>
    if_neg fun h => Bool.false_ne_true (husable.symm.trans h)
  refine ⟨e', he', ?_, ?_⟩
  · rw [hstatus, hstatus', hcounted, hcounted, husable]
    simp [fileStatus]
  · rw [hnow.qualifying, hlater.qualifying, hcounted, hcounted]

/-- Before `valid_until` the verdict and the qualifying copies are the same again exactly when the File
is steady. -/
theorem steady_iff (requirements : AcceptedRequirements) {e : FileEvaluation} (hle : now ≤ t)
    (he : evaluateFile file requirements.val topology now = .ok e)
    (hvalid : ∀ v, e.validUntil = some v → t < v) :
    (∃ e', evaluateFile file requirements.val topology t = .ok e' ∧ e'.status = e.status ∧
        e'.qualifyingCopies = e.qualifyingCopies) ↔
      (file.identityUsable = true → file.Steady requirements.val topology now t) := by
  cases husable : file.identityUsable with
  | false => exact iff_of_true (evaluate_unusable husable he t) fun h => absurd h Bool.false_ne_true
  | true =>
    obtain ⟨-, hnow⟩ := evaluateFile_eq_ok he
    obtain ⟨u, hu, hstatus⟩ := hnow.status
    have hcounted : ∀ now, file.counted requirements.val now = file.qualifying requirements.val now :=
      fun now => if_pos husable
    have hcurrent : ∀ copy ∈ file.copies, copy.Current requirements.val now →
        copy.Current requirements.val t :=
      fun copy hcopy => current_of_valid hle hnow husable hvalid hcopy
    have hredundant : fileStatus true requirements.val topology ((file.qualifying requirements.val now).map
        fun copy => copy.qualified file topology) u = none ↔
        Redundant file requirements.val topology (file.qualifying requirements.val now) :=
      (fileStatus_eq_none (fun copy hcopy => (mem_qualifying.mp hcopy).2)
        requirements.minQualifyingCopies_pos).trans (and_iff_right rfl)
    rw [hcounted, husable] at hstatus
    constructor
    · rintro ⟨e', he', hsame, hqualifying⟩ -
      obtain ⟨hranged, hlater⟩ := evaluateFile_eq_ok he'
      obtain ⟨u', hu', hstatus'⟩ := hlater.status
      rw [hlater.qualifying, hnow.qualifying, hcounted, hcounted] at hqualifying
      have hlen := congrArg List.length hqualifying
      rw [List.length_map, List.length_map] at hlen
      have heq := ((qualifying_sublist_later hcurrent).eq_of_length hlen.symm).symm
      rw [hcounted, husable, heq] at hstatus'
      rw [hstatus, hstatus', fileStatus_congr, hredundant, hu' husable, hu husable,
        uncertain_iff hcurrent] at hsame
      exact ⟨hranged husable, (qualifying_eq_iff hcurrent).mp heq, or_assoc.mp hsame.symm⟩
    · intro hsteady
      obtain ⟨hranged, hsound, hsettled⟩ := hsteady rfl
      obtain ⟨e', he'⟩ : ∃ e', evaluateFile file requirements.val topology t = .ok e' :=
        evaluateFile_isOk fun _ => hranged
      obtain ⟨-, hlater⟩ := evaluateFile_eq_ok he'
      obtain ⟨u', hu', hstatus'⟩ := hlater.status
      have heq := (qualifying_eq_iff hcurrent).mpr hsound
      refine ⟨e', he', ?_, ?_⟩
      · rw [hcounted, husable, heq] at hstatus'
        rw [hstatus, hstatus', fileStatus_congr, hredundant, hu' husable, hu husable,
          uncertain_iff hcurrent]
        exact (or_assoc.mpr hsettled).symm
      · rw [hlater.qualifying, hnow.qualifying, hcounted, hcounted, heq]

/-! ### Published evaluations -/

/-- The files counted one after the other. -/
def PolicyContext.countAll (p : PolicyContext) (l : List (FileFact × FileEvaluation)) : PolicyContext :=
  l.foldl (fun p x => p.count x.1 x.2) p

theorem requirements_count (p : PolicyContext) (file : FileFact) (e : FileEvaluation) :
    (p.count file e).requirements = p.requirements := by
  rw [PolicyContext.count_eq]

theorem validUntil_count (p : PolicyContext) (file : FileFact) (e : FileEvaluation) :
    (p.count file e).validUntil = minimumTime p.validUntil e.validUntil := by
  rw [PolicyContext.count_eq]

/-- A rollup counts the statuses, whatever else the evaluations say. -/
theorem rollup_count {p p' : PolicyContext} {e e' : FileEvaluation} (file : FileFact)
    (hp : p.rollup = p'.rollup) (he : e.status = e'.status) :
    (p.count file e).rollup = (p'.count file e').rollup := by
  obtain ⟨h₁, h₂, h₃, h₄, h₅, h₆, h₇⟩ := PolicyRollup.mk.inj hp
  simp only [PolicyContext.rollup, PolicyContext.count_eq, he, h₁, h₂, h₃, h₄, h₅, h₆, h₇]

theorem requirements_countAll (p : PolicyContext) (l : List (FileFact × FileEvaluation)) :
    (p.countAll l).requirements = p.requirements := by
  induction l generalizing p with
  | nil => rfl
  | cons x l ih => exact (ih (p.count x.1 x.2)).trans (requirements_count p x.1 x.2)

theorem validUntil_countAll (p : PolicyContext) (l : List (FileFact × FileEvaluation)) :
    (p.countAll l).validUntil = l.foldl (fun found x => minimumTime found x.2.validUntil) p.validUntil := by
  induction l generalizing p with
  | nil => rfl
  | cons x l ih =>
    show ((p.count x.1 x.2).countAll l).validUntil = _
    rw [ih, validUntil_count]
    rfl

/-- Evaluations of the files of a Policy, in order. -/
def EvaluatedAll (requirements : PolicyRequirements) (topology : DomainTopology) (now : Nat)
    (files : List FileFact) (l : List (FileFact × FileEvaluation)) : Prop :=
  l.map Prod.fst = files ∧ ∀ x ∈ l, evaluateFile x.1 requirements topology now = .ok x.2

/-- What the evaluation of all files leaves of the context of one Policy. -/
theorem foldlM_store {marker : ProjectionMarker} {policies published : Table policyContextSchema}
    {files : List FileFact} {id : String}
    (h : files.foldlM (evaluateAndStoreFile topology marker now) policies = .ok published) :
    (∀ p, published.get? id = some p → ∃ p₀, policies.get? id = some p₀) ∧
    ∀ p₀, policies.get? id = some p₀ → ∃ l, EvaluatedAll p₀.requirements.val topology now
      (files.filter fun f => f.policyId = id) l ∧ published.get? id = some (p₀.countAll l) := by
  induction files generalizing policies with
  | nil =>
    cases h
    exact ⟨fun p hp => ⟨p, hp⟩, fun p₀ hp₀ => ⟨[], ⟨rfl, fun x hx => absurd hx List.not_mem_nil⟩, hp₀⟩⟩
  | cons f files ih =>
    rw [List.foldlM_cons] at h
    obtain ⟨next, hstore, h⟩ := bind_eq_ok.mp h
    obtain ⟨policy, hpolicy, hstore⟩ := bind_eq_ok.mp hstore
    obtain ⟨e, he, hstore⟩ := bind_eq_ok.mp hstore
    obtain ⟨_, -, hstore⟩ := bind_eq_ok.mp hstore
    rw [Outcome.okOr_eq_ok] at hpolicy
    obtain ⟨hback, hon⟩ := ih h
    have hnext : next.get? id = (policies.get? id).map fun p =>
        if p.policyId = f.policyId then p.count f e else p := by
      rw [← Except.ok.inj hstore, Table.get?_modify]
      simp
    refine ⟨fun p hp => ?_, fun p₀ hp₀ => ?_⟩
    · obtain ⟨p₁, hp₁⟩ := hback p hp
      rw [hnext] at hp₁
      obtain ⟨p₀, hp₀, -⟩ := Option.map_eq_some_iff.mp hp₁
      exact ⟨p₀, hp₀⟩
    · have hid : p₀.policyId = id := Table.key_of_get? hp₀
      rw [hp₀, Option.map_some, hid] at hnext
      by_cases hf : f.policyId = id
      · rw [hf, hp₀] at hpolicy
        cases hpolicy
        rw [if_pos hf.symm] at hnext
        obtain ⟨l, ⟨hfst, hall⟩, hpublished⟩ := hon _ hnext
        rw [requirements_count] at hall
        refine ⟨(f, e) :: l, ⟨?_, List.forall_mem_cons.mpr ⟨he, hall⟩⟩, hpublished⟩
        rw [List.filter_cons_of_pos (by simpa using hf), List.map_cons, hfst]
      · rw [if_neg fun he => hf he.symm] at hnext
        obtain ⟨l, hl, hpublished⟩ := hon _ hnext
        rw [List.filter_cons_of_neg (by simpa using hf)]
        exact ⟨l, hl, hpublished⟩

/-- Files with the same statuses at both times are counted alike. -/
theorem rollup_countAll {requirements : PolicyRequirements} {files : List FileFact}
    {l l' : List (FileFact × FileEvaluation)} {p p' : PolicyContext} (hp : p.rollup = p'.rollup)
    (hl : EvaluatedAll requirements topology now files l)
    (hl' : EvaluatedAll requirements topology t files l')
    (hsame : ∀ f ∈ files, ∀ e e', evaluateFile f requirements topology now = .ok e →
      evaluateFile f requirements topology t = .ok e' → e.status = e'.status) :
    (p.countAll l).rollup = (p'.countAll l').rollup := by
  induction files generalizing l l' p p' with
  | nil =>
    rw [List.map_eq_nil_iff.mp hl.1, List.map_eq_nil_iff.mp hl'.1]
    exact hp
  | cons f files ih =>
    obtain ⟨⟨g, e⟩, l, rfl, rfl, hfst⟩ := List.map_eq_cons_iff.mp hl.1
    obtain ⟨⟨g', e'⟩, l', rfl, hg, hfst'⟩ := List.map_eq_cons_iff.mp hl'.1
    obtain rfl : g' = g := hg
    obtain ⟨he, hall⟩ := List.forall_mem_cons.mp hl.2
    obtain ⟨he', hall'⟩ := List.forall_mem_cons.mp hl'.2
    show ((p.count g' e).countAll l).rollup = ((p'.count g' e').countAll l').rollup
    exact ih (rollup_count g' hp (hsame _ List.mem_cons_self e e' he he')) ⟨hfst, hall⟩ ⟨hfst', hall'⟩
      fun f hf => hsame f (List.mem_cons_of_mem _ hf)

theorem valid_of_reason {p : PolicyContext} {inputSeq policyInputSeq : Nat} {current : PolicySnapshot}
    (h : invalidEvaluationReason (p.validityRow inputSeq current) policyInputSeq t = none) :
    ∀ v, p.validUntil = some v → t < v := by
  intro v hv
  have hreason : validUntilReason (p.validityRow inputSeq current) t = none := by
    unfold invalidEvaluationReason at h
    split at h
    · cases h
    split at h
    · split at h
      · cases h
      split at h
      · cases h
      split at h
      · split at h
        · cases h
        split at h
        · cases h
        split at h
        · cases h
        · assumption
      · cases h
    · cases h
  rw [validUntilReason, PolicyContext.validityRow, hv] at hreason
  dsimp only [Option.map_some] at hreason
  have hnat : natOfI64 (Int.ofNat v) = some v := if_pos (Int.natCast_nonneg v)
  rw [hnat] at hreason
  dsimp only at hreason
  split at hreason
  · cases hreason
  · rename_i hlate
    exact not_le.mp hlate

/-- A published evaluation that may still be used counts as an evaluation at the later time does. -/
theorem rollup_of_steady {marker later : ProjectionMarker} {policies published again : Table policyContextSchema}
    {files : List FileFact} (hle : now ≤ t)
    (hnow : evaluatePolicies marker policies topology files now = .ok published)
    (hlater : evaluatePolicies later policies topology files t = .ok again) {p : PolicyContext}
    (hp : p ∈ published.rows) (hvalid : ∀ v, p.validUntil = some v → t < v)
    (hsteady : ∀ f ∈ files, f.policyId = p.policyId → f.identityUsable = true →
      f.Steady p.requirements.val topology now t) :
    ∃ p' ∈ again.rows, p'.policyId = p.policyId ∧ p'.rollup = p.rollup := by
  obtain ⟨_, -, hnow⟩ := bind_eq_ok.mp hnow
  obtain ⟨_, hfold, hnow⟩ := bind_eq_ok.mp hnow
  obtain ⟨_, -, hnow⟩ := bind_eq_ok.mp hnow
  cases hnow
  obtain ⟨_, -, hlater⟩ := bind_eq_ok.mp hlater
  obtain ⟨_, hfold', hlater⟩ := bind_eq_ok.mp hlater
  obtain ⟨_, -, hlater⟩ := bind_eq_ok.mp hlater
  cases hlater
  have hget : published.get? p.policyId = some p := Table.get?_of_mem hp
  obtain ⟨p₀, hp₀⟩ := (foldlM_store hfold).1 p hget
  obtain ⟨l, hl, hpublished⟩ := (foldlM_store hfold).2 p₀ hp₀
  obtain ⟨l', hl', hagain⟩ := (foldlM_store hfold').2 p₀ hp₀
  obtain rfl : p₀.countAll l = p := Option.some.inj (hpublished.symm.trans hget)
  refine ⟨_, Table.mem_of_get? hagain, Table.key_of_get? hagain, ?_⟩
  refine (rollup_countAll rfl hl hl' fun f hf e e' he he' => ?_).symm
  obtain ⟨hfile, hpolicy⟩ := List.mem_filter.mp hf
  have hvalidFile : ∀ v, e.validUntil = some v → t < v := by
    intro v hv
    rw [← hl.1] at hf
    obtain ⟨x, hx, rfl⟩ := List.mem_map.mp hf
    obtain rfl : x.2 = e := Except.ok.inj ((hl.2 x hx).symm.trans he)
    obtain ⟨w, hw, hwv⟩ := le_minimumTimes (fun x : FileFact × FileEvaluation => x.2.validUntil)
      p₀.validUntil hx hv
    exact lt_of_lt_of_le (hvalid w ((validUntil_countAll p₀ l).trans hw)) hwv
  have hsteadyFile : f.identityUsable = true → f.Steady p₀.requirements.val topology now t := by
    have h := hsteady f hfile (of_decide_eq_true hpolicy)
    rwa [requirements_countAll] at h
  obtain ⟨e'', he'', hstatus, -⟩ := (steady_iff p₀.requirements hle he hvalidFile).mpr hsteadyFile
  obtain rfl : e'' = e' := Except.ok.inj (he''.symm.trans he')
  exact hstatus.symm

/-- The verdict and the qualifying copies of an evaluation last until `valid_until` for the steady
Files and for no others; and so do the rollups of evaluations whose Files are steady. -/
theorem evaluation_lasts_iff (now t : Nat) (hle : now ≤ t) :
    (∀ (file : FileFact) (requirements : AcceptedRequirements) (topology : DomainTopology)
        (e : FileEvaluation), evaluateFile file requirements.val topology now = .ok e →
      (∀ v, e.validUntil = some v → t < v) →
        ((∃ e', evaluateFile file requirements.val topology t = .ok e' ∧ e'.status = e.status ∧
            e'.qualifyingCopies = e.qualifyingCopies) ↔
          (file.identityUsable = true → file.Steady requirements.val topology now t))) ∧
    ∀ (marker later : ProjectionMarker) (policies published again : Table policyContextSchema)
        (topology : DomainTopology) (files : List FileFact),
      evaluatePolicies marker policies topology files now = .ok published →
      evaluatePolicies later policies topology files t = .ok again →
        ∀ p ∈ published.rows, ∀ (inputSeq policyInputSeq : Nat) (current : PolicySnapshot),
          invalidEvaluationReason (p.validityRow inputSeq current) policyInputSeq t = none →
          (∀ f ∈ files, f.policyId = p.policyId → f.identityUsable = true →
            f.Steady p.requirements.val topology now t) →
            ∃ p' ∈ again.rows, p'.policyId = p.policyId ∧ p'.rollup = p.rollup := by
  refine ⟨fun file requirements topology e he hvalid => steady_iff requirements hle he hvalid, ?_⟩
  intro marker later policies published again topology files hnow hlater p hp inputSeq policyInputSeq current hreason
  exact rollup_of_steady hle hnow hlater hp (valid_of_reason hreason)

namespace Sample

def widest : AcceptedRequirements := ⟨widestRequirements, "policy_main", widest_accepted⟩

/-- A copy on a host whose clock runs ahead. -/
def aheadFile : FileFact := reviewedFile [reviewedFact "attic" 2000]

def monthly : AcceptedRequirements :=
  ⟨{ widestRequirements with
      maxVerificationAgeDays := 30
      maxObservationAgeDays := 30
      maxDeviceCheckinAgeDays := 30 }, "policy_main", rfl⟩

def firstMarker : ProjectionMarker := ⟨1, 1, le_rfl, by decide, by decide⟩

/-- A Policy of one File that counts nothing yet. -/
def oneFilePolicy (requirements : AcceptedRequirements) : Table policyContextSchema :=
  Table.empty.insertOrIgnore (ConfiguredPolicy.context ⟨"policy_main", 1, requirements, 1⟩)

/-- A copy that counts for a month, and one whose times are yet to come. -/
def mixedFile : FileFact := reviewedFile [reviewedFact "attic" 1000, reviewedFact "office" 5000]

theorem testedTimes_monthly {name : String} {time : Nat} {x : Option Nat × Nat}
    (hx : x ∈ (reviewedFact name time).testedTimes monthly.val) : x = (some time, 30) := by
  have hfour : (reviewedFact name time).testedTimes monthly.val = List.replicate 4 (some time, 30) := rfl
  rw [hfour] at hx
  exact List.eq_of_mem_replicate hx

theorem mixedFile_ranged {now : Nat} : mixedFile.Ranged monthly.val now := by
  intro copy hcopy x hx s hs _
  have htwo : copy = reviewedFact "attic" 1000 ∨ copy = reviewedFact "office" 5000 := by
    simpa [mixedFile, reviewedFile] using hcopy
  rcases htwo with rfl | rfl
  · obtain rfl := testedTimes_monthly hx
    obtain rfl := Option.some.inj hs
    decide
  · obtain rfl := testedTimes_monthly hx
    obtain rfl := Option.some.inj hs
    decide

/-- Before its times come the second copy does not count, and the first one counts all along. -/
theorem mixedFile_not_matures {copy : CopyFact} (hcopy : copy ∈ mixedFile.copies) :
    ¬ copy.Matures monthly.val 2000 3000 := by
  have htwo : copy = reviewedFact "attic" 1000 ∨ copy = reviewedFact "office" 5000 := by
    simpa [mixedFile, reviewedFile] using hcopy
  rintro ⟨hnot, hlater⟩
  rcases htwo with rfl | rfl
  · refine hnot fun x hx => ?_
    obtain rfl := testedTimes_monthly hx
    exact ⟨1000, rfl, by decide, by decide⟩
  · obtain ⟨s, hs, hpast, -⟩ := hlater (some 5000, 30) List.mem_cons_self
    obtain rfl := Option.some.inj hs
    omega

theorem mixedFile_steady : mixedFile.Steady monthly.val unassigned 2000 3000 where
  ranged := mixedFile_ranged
  sound := fun _ hcopy _ => mixedFile_not_matures hcopy
  settled := Or.inl fun _ hcopy => mixedFile_not_matures hcopy

def currentPolicy : PolicySnapshot where
  policyId := "policy_main"
  displayName := "Monthly"
  policyVersion := 1
  requirements := monthly.val
  enabled := true
  status := "active"

/-- Before the month is over the verdict is the same, and so is the rollup that counts it. -/
theorem mixedFile_lasts :
    (∃ e e', evaluateFile mixedFile monthly.val unassigned 2000 = .ok e ∧
      evaluateFile mixedFile monthly.val unassigned 3000 = .ok e' ∧
      e.validUntil = some (1000 + 30 * dayMs) ∧ e'.status = e.status ∧
      e'.qualifyingCopies = e.qualifyingCopies) ∧
    ∃ published again p p',
      evaluatePolicies firstMarker (oneFilePolicy monthly) unassigned [mixedFile] 2000 = .ok published ∧
      evaluatePolicies firstMarker (oneFilePolicy monthly) unassigned [mixedFile] 3000 = .ok again ∧
      p ∈ published.rows ∧ p' ∈ again.rows ∧ p.validUntil = some (1000 + 30 * dayMs) ∧ p'.rollup = p.rollup := by
  have hlasts := evaluation_lasts_iff 2000 3000 (by omega)
  constructor
  · have hnow : (evaluateFile mixedFile monthly.val unassigned 2000).toOption.any
        (fun e => decide (e.validUntil = some (1000 + 30 * dayMs))) = true := by decide +kernel
    obtain ⟨e, he, htest⟩ := Outcome.exists_ok_of_any hnow
    have hvalid : e.validUntil = some (1000 + 30 * dayMs) := of_decide_eq_true htest
    have hlive : ∀ v, e.validUntil = some v → 3000 < v := by
      intro v hv
      obtain rfl := Option.some.inj (hvalid.symm.trans hv)
      decide
    obtain ⟨e', he', hstatus, hcopies⟩ :=
      (hlasts.1 mixedFile monthly unassigned e he hlive).mpr fun _ => mixedFile_steady
    exact ⟨e, e', he, he', hvalid, hstatus, hcopies⟩
  · have hpublished : (evaluatePolicies firstMarker (oneFilePolicy monthly) unassigned [mixedFile]
        2000).toOption.any (fun published => published.rows.any fun p => decide (
          p.requirements.val = monthly.val ∧ p.validUntil = some (1000 + 30 * dayMs) ∧
          invalidEvaluationReason (p.validityRow 1 currentPolicy) 1 3000 = none)) = true := by
      decide +kernel
    obtain ⟨published, hnow, hrow⟩ := Outcome.exists_ok_of_any hpublished
    obtain ⟨p, hp, htest⟩ := List.any_eq_true.mp hrow
    obtain ⟨hrequirements, hvalid, hreason⟩ := of_decide_eq_true htest
    have hagain : (evaluatePolicies firstMarker (oneFilePolicy monthly) unassigned [mixedFile]
        3000).toOption.any (fun _ => true) = true := by decide +kernel
    obtain ⟨again, hlater, -⟩ := Outcome.exists_ok_of_any hagain
    obtain ⟨p', hp', -, hrollup⟩ := hlasts.2 _ _ _ _ _ _ _ hnow hlater p hp _ _ currentPolicy hreason
      fun f hf _ _ => by
        obtain rfl := List.mem_singleton.mp hf
        rw [hrequirements]
        exact mixedFile_steady
    exact ⟨published, again, p, p', hnow, hlater, hp, hp', hvalid, hrollup⟩

/-- At a time in the future nothing expires, and when it comes the copy qualifies. -/
theorem aheadFile_outlives : ¬ ∀ (now t : Nat), now ≤ t → ∀ (file : FileFact)
    (requirements : AcceptedRequirements) (topology : DomainTopology) (e : FileEvaluation),
    evaluateFile file requirements.val topology now = .ok e → (∀ v, e.validUntil = some v → t < v) →
      ∃ e', evaluateFile file requirements.val topology t = .ok e' ∧ e'.status = e.status ∧
        e'.qualifyingCopies = e.qualifyingCopies := by
  intro h
  have hnow : ∃ e, evaluateFile aheadFile widestRequirements unassigned 1000 = .ok e ∧
      e.validUntil = none ∧ e.qualifyingCopies = [] := ⟨_, rfl, rfl, rfl⟩
  obtain ⟨e, he, hnone, hempty⟩ := hnow
  obtain ⟨e', he', -, hsame⟩ := h 1000 2000 (by omega) aheadFile widest unassigned e he
    fun v hv => absurd (hnone.symm.trans hv) nofun
  have hlater : (evaluateFile aheadFile widestRequirements unassigned 2000).toOption.map
      (fun e => e.qualifyingCopies.length) = some 1 := rfl
  rw [show evaluateFile aheadFile widestRequirements unassigned 2000 = .ok e' from he'] at hlater
  have hlength : e'.qualifyingCopies.length = 1 := Option.some.inj hlater
  rw [hsame, hempty] at hlength
  cases hlength

end Sample

end ArchiveLedger
