import ArchiveLedger.Registry.Steps

/-!
# The version of a policy

An update must raise the stored version; retiring writes the version it carries
through the same upsert and is not checked against it.  So the versions of a policy
never go back along a run exactly when no retirement lowers one
(`policy_versions_never_go_back`).
-/

namespace ArchiveLedger

open Relational Transition

/-- A retirement carries at least the stored version. -/
def KeepsVersion (c : Catalog) : RegistryChange → Prop
  | .policy .retire v =>
      ∀ w, c.policies.get? v.policyId = some w → w.policyVersion ≤ v.policyVersion
  | _ => True

/-- Along these changes no policy is stored with a lower version than before, and an
update stores a higher one than the policy ever had. -/
structure VersionsRise (c : Catalog) (changes : List (RegistryChange × Catalog)) : Prop where
  monotone : ∀ p q r, changes = p ++ q ++ r → ∀ id v w, (final c p).policies.get? id = some v →
    (final c (p ++ q)).policies.get? id = some w → v.policyVersion ≤ w.policyVersion
  raised : ∀ p q v d, changes = p ++ (.policy .update v, d) :: q →
    d.policies.get? v.policyId = some v ∧
      ∀ p₁ p₂, p = p₁ ++ p₂ → ∀ w, (final c p₁).policies.get? v.policyId = some w →
        w.policyVersion < v.policyVersion

/-- A policy is stored with at least this version. -/
def StoredFrom (id : String) (version : Nat) (c : Catalog) : Prop :=
  ∃ w, c.policies.get? id = some w ∧ version ≤ w.policyVersion

/-- A change keeps the version of every policy or raises it. -/
theorem storedFrom_step {c d : Catalog} {change : RegistryChange} {id : String} {version : Nat}
    (hstored : StoredFrom id version c) (hstep : RegistryStep c change d)
    (hkeeps : KeepsVersion c change) : StoredFrom id version d := by
  obtain ⟨w, hw, hle⟩ := hstored
  obtain ⟨time, hpolicies, -, -⟩ := hstep.writes
  cases change with
  | policy action v =>
    by_cases hid : v.policyId = id
    · subst hid
      refine ⟨v, by rw [hpolicies, RegistryChange.policyUnder, if_pos rfl]; rfl, ?_⟩
      have hchecked := hstep.policyChecked
      cases action with
      | register =>
        rw [hchecked.registered.mp rfl] at hw
        cases hw
      | update => exact hle.trans (Nat.le_of_lt (hchecked.raised rfl w hw))
      | move => exact absurd hstep RegistryStep.not_move
      | retire => exact hle.trans (hkeeps w hw)
    · refine ⟨w, ?_, hle⟩
      rw [hpolicies, RegistryChange.policyUnder, if_neg hid]
      exact hw
  | _ => exact ⟨w, (hpolicies id).trans hw, hle⟩

/-- A policy keeps the version it is stored with, or a higher one. -/
theorem storedFrom_final {c : Catalog} {p : List (RegistryChange × Catalog)}
    (h : Path (fun c change d => RegistryStep c change d ∧ KeepsVersion c change) c p) {id : String}
    {version : Nat} (hc : StoredFrom id version c) : StoredFrom id version (final c p) :=
  Path.invariant (P := StoredFrom id version)
    (fun _ _ _ hs hstep => storedFrom_step hs hstep.1 hstep.2) hc h

theorem versionsRise_of_path {c : Catalog} {changes : List (RegistryChange × Catalog)}
    (h : Path (fun c change d => RegistryStep c change d ∧ KeepsVersion c change) c changes) :
    VersionsRise c changes := by
  constructor
  · rintro p q r rfl id v w hv hw
    rw [final_append] at hw
    obtain ⟨u, hu, hle⟩ := storedFrom_final (path_append.mp (path_append.mp h).1).2
      ⟨v, hv, Nat.le_refl _⟩
    rwa [← Option.some.inj (hu.symm.trans hw)]
  · rintro p q v d rfl
    obtain ⟨hstep, -⟩ := h.step
    obtain ⟨time, hpolicies, -, -⟩ := hstep.writes
    refine ⟨by rw [hpolicies, RegistryChange.policyUnder, if_pos rfl]; rfl, ?_⟩
    rintro p₁ p₂ rfl w hw
    obtain ⟨u, hu, hle⟩ := storedFrom_final (path_append.mp (path_append.mp h).1).2
      ⟨w, hw, Nat.le_refl _⟩
    rw [← final_append] at hu
    exact hle.trans_lt (hstep.policyChecked.raised rfl u hu)

theorem keepsVersion_of_versionsRise {c : Catalog} {changes : List (RegistryChange × Catalog)}
    (hpath : Path RegistryStep c changes) (h : VersionsRise c changes) :
    Path (fun c change _ => KeepsVersion c change) c changes := by
  refine path_of_steps ?_
  rintro p change d q rfl
  have hstep := hpath.step
  obtain ⟨time, hpolicies, -, -⟩ := hstep.writes
  cases change with
  | policy action v =>
    cases action with
    | retire =>
      intro w hw
      refine h.monotone p [(.policy .retire v, d)] q (by simp) v.policyId w v hw ?_
      rw [final_append]
      exact (hpolicies v.policyId).trans (by rw [RegistryChange.policyUnder, if_pos rfl]; rfl)
    | _ => trivial
  | _ => trivial

/-- **The versions of the policies never go back in a run none of whose retirements
lowers one**: no later call leaves a lower version than an earlier one, and along the
changes they rise if and only if every retirement carries at least the stored one. -/
theorem policy_versions_never_go_back (archiveId displayName : String) (ops : List Op) :
    (Path (fun c change _ => KeepsVersion c change) (Catalog.create archiveId displayName)
        (registryTrace (Catalog.create archiveId displayName) ops) →
      ∀ p q r, ops = p ++ q ++ r → ∀ id v w,
        (run next (Catalog.create archiveId displayName) p).policies.get? id = some v →
        (run next (Catalog.create archiveId displayName) (p ++ q)).policies.get? id = some w →
          v.policyVersion ≤ w.policyVersion) ∧
    (VersionsRise (Catalog.create archiveId displayName)
        (registryTrace (Catalog.create archiveId displayName) ops) ↔
      Path (fun c change _ => KeepsVersion c change) (Catalog.create archiveId displayName)
        (registryTrace (Catalog.create archiveId displayName) ops)) := by
  have hpath := (path_registryTrace (Catalog.create archiveId displayName) ops).1
  refine ⟨?_, keepsVersion_of_versionsRise hpath, fun hkeeps => versionsRise_of_path (hpath.and hkeeps)⟩
  rintro hkeeps p q r rfl id v w hv hw
  have hrise := versionsRise_of_path (hpath.and hkeeps)
  have hsplit : registryTrace (Catalog.create archiveId displayName) (p ++ q ++ r) =
      registryTrace (Catalog.create archiveId displayName) p ++
        registryTrace (run next (Catalog.create archiveId displayName) p) q ++
          registryTrace (run next (Catalog.create archiveId displayName) (p ++ q)) r := by
    rw [registryTrace_append, registryTrace_append]
  refine hrise.monotone _ _ _ hsplit id v w ?_ ?_
  · rw [← (path_registryTrace (Catalog.create archiveId displayName) p).2.policies]
    exact hv
  · rw [← registryTrace_append,
      ← (path_registryTrace (Catalog.create archiveId displayName) (p ++ q)).2.policies]
    exact hw

/-! ### A retirement that lowers the version -/

def samplePolicy (version : Nat) (status : String) : PolicySnapshot where
  policyId := "policy"
  displayName := "Policy"
  policyVersion := version
  requirements := ⟨2, 2, 1, false, false, false, 30, 30, 30⟩
  enabled := true
  status := status

/-- A policy is retired with a lower version, and an update raises that one. -/
def loweredOps : List Op :=
  [.recordBatch [.policy .register (samplePolicy 5 "active")] "host" 1,
    .recordBatch [.policy .retire (samplePolicy 1 "retired")] "host" 2,
    .recordBatch [.policy .update (samplePolicy 2 "active")] "host" 3]

/-- The update stores a version below one the policy had. -/
theorem retirement_lowers_version :
    ((run next (Catalog.create "archive" "Archive") (loweredOps.take 1)).policies.get? "policy").map
        PolicySnapshot.policyVersion = some 5 ∧
      ((run next (Catalog.create "archive" "Archive") (loweredOps.take 2)).policies.get?
        "policy").map PolicySnapshot.policyVersion = some 1 ∧
      ((run next (Catalog.create "archive" "Archive") loweredOps).policies.get? "policy").map
        PolicySnapshot.policyVersion = some 2 := by
  decide +kernel

end ArchiveLedger
