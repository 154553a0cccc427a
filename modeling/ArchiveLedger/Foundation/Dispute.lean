import Mathlib

/-!
# Disputes between statements

Statements arrive one after the other.  Two of them clash when they disagree and neither
knows of the other (`Clash`); their dispute is open until a statement arrives that knows of
both (`Open`).  `open_concat` says what one more statement does to the open disputes.
-/

namespace Dispute

/-- What is known of statements: which disagree, and which know of which. -/
structure Facts (ι : Type) where
  disagree : ι → ι → Prop
  covers : ι → ι → Bool

variable {ι : Type} (F : Facts ι)

namespace Facts

/-- Two statements disagree, and neither knows of the other. -/
def Clash (x y : ι) : Prop := F.disagree x y ∧ F.covers x y = false ∧ F.covers y x = false

/-- Two statements of a list clash, and none that came after both knows of both. -/
def Open (l : List ι) (x y : ι) : Prop :=
  ∃ before after, l = before ++ y :: after ∧ x ∈ before ∧ F.Clash x y ∧
    ∀ z ∈ after, ¬ (F.covers z x = true ∧ F.covers z y = true)

/-- A statement of a list that clashes with another one of it. -/
def Disputed (l : List ι) (x : ι) : Prop :=
  x ∈ l ∧ ∃ y ∈ l, F.Clash x y ∨ F.Clash y x

variable {F}

theorem not_open_nil {x y : ι} : ¬ F.Open [] x y := by
  rintro ⟨before, after, h, -⟩
  simp at h

/-- One more statement: it does not know of both sides of an old dispute, or it opens one. -/
theorem open_concat {l : List ι} {x y z : ι} :
    F.Open (l ++ [z]) x y ↔
      (F.Open l x y ∧ ¬ (F.covers z x = true ∧ F.covers z y = true)) ∨
        (y = z ∧ x ∈ l ∧ F.Clash x z) := by
  constructor
  · rintro ⟨before, after, h, hx, hclash, hafter⟩
    rcases List.eq_nil_or_concat after with rfl | ⟨after, w, rfl⟩
    · obtain ⟨rfl, hz⟩ := List.append_inj' h rfl
      obtain rfl := (List.cons.inj hz).1
      exact Or.inr ⟨rfl, hx, hclash⟩
    · have h' : l ++ [z] = (before ++ y :: after) ++ [w] := by rw [h]; simp
      obtain ⟨hl, hz⟩ := List.append_inj' h' rfl
      obtain rfl := (List.cons.inj hz).1
      exact Or.inl ⟨⟨before, after, hl, hx, hclash, fun v hv => hafter v (by simp [hv])⟩,
        hafter z (by simp)⟩
  · rintro (⟨⟨before, after, rfl, hx, hclash, hafter⟩, hz⟩ | ⟨rfl, hx, hclash⟩)
    · refine ⟨before, after ++ [z], by simp, hx, hclash, fun v hv => ?_⟩
      rcases List.mem_append.mp hv with hv | hv
      · exact hafter v hv
      · rwa [List.mem_singleton.mp hv]
    · exact ⟨l, [], rfl, hx, hclash, fun v hv => absurd hv List.not_mem_nil⟩

end Facts

end Dispute
