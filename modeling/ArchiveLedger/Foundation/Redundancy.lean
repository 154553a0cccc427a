import Mathlib

/-!
# Redundancy

The members of a list lie in domains, each of which may be lost as a whole.  A list
survives (`Survives`) when whatever domain is lost some member lies outside it.  More
members and fewer domains keep that, and when there is a member only the domains of
members need a look (`survives_iff`).
-/

namespace Redundancy

variable {κ δ : Type} {liesIn liesIn' : κ → δ → Prop} {members members' : List κ}

/-- Whatever domain is lost, some member lies outside it. -/
def Survives (liesIn : κ → δ → Prop) (members : List κ) : Prop :=
  ∀ domain, ∃ member ∈ members, ¬ liesIn member domain

theorem Survives.mono (h : Survives liesIn members) (hsub : members ⊆ members') :
    Survives liesIn members' := by
  intro domain
  obtain ⟨member, hmember, hout⟩ := h domain
  exact ⟨member, hsub hmember, hout⟩

theorem Survives.anti (h : Survives liesIn members)
    (hless : ∀ member ∈ members, ∀ domain, liesIn' member domain → liesIn member domain) :
    Survives liesIn' members := by
  intro domain
  obtain ⟨member, hmember, hout⟩ := h domain
  exact ⟨member, hmember, fun hin => hout (hless member hmember domain hin)⟩

/-- Only domains that a member lies in can be lost with effect. -/
theorem survives_iff (hne : members ≠ []) : Survives liesIn members ↔
    ∀ domain, (∃ member ∈ members, liesIn member domain) → ∃ member ∈ members, ¬ liesIn member domain := by
  constructor
  · intro h domain _
    exact h domain
  · intro h domain
    by_cases hin : ∃ member ∈ members, liesIn member domain
    · exact h domain hin
    · obtain ⟨member, hmember⟩ := List.exists_mem_of_ne_nil members hne
      exact ⟨member, hmember, fun hlies => hin ⟨member, hmember, hlies⟩⟩

/-- More members have at least as many different values. -/
theorem length_dedup_le [DecidableEq κ] (h : members ⊆ members') :
    members.dedup.length ≤ members'.dedup.length :=
  (List.subperm_of_subset members.nodup_dedup fun _ hmember =>
    List.mem_dedup.mpr (h (List.mem_dedup.mp hmember))).length_le

end Redundancy
