import Mathlib

/-!
# Orders of a list that respect a relation

A list respects a relation when no member stands before one that has to precede it
(`Respects`).  Nothing is assumed of the relation: it need not be transitive, and
what the list respects it also respects in its transitive closure
(`Respects.transGen`).

A list may be rearranged by moving the members of a set that is closed under
predecessors to its front (`Respects.bringForward`).  From this come the orders in
which a chosen member stands between two others (`Respects.exists_between`).
-/

namespace LinearExtension

variable {α : Type} {r : α → α → Prop} {L M : List α} {a b z : α}

/-- No member stands before one that has to precede it. -/
def Respects (r : α → α → Prop) (L : List α) : Prop := L.Pairwise fun x y => ¬ r y x

theorem Respects.sublist (h : Respects r L) (hs : M.Sublist L) : Respects r M :=
  List.Pairwise.sublist hs h

theorem Respects.filter (h : Respects r L) (p : α → Bool) : Respects r (L.filter p) :=
  h.sublist List.filter_sublist

theorem Respects.of_initial (h : Respects r L) (hp : M <+: L) : Respects r M :=
  h.sublist hp.sublist

/-- A relation between members has to hold forward. -/
theorem Respects.idxOf_le [DecidableEq α] (h : Respects r L) (ha : a ∈ L) (hr : r a b) :
    L.idxOf a ≤ L.idxOf b := by
  by_contra hlt
  have hlt : L.idxOf b < L.idxOf a := by omega
  have hia : L.idxOf a < L.length := List.idxOf_lt_length_of_mem ha
  have hne := List.pairwise_iff_getElem.mp h (L.idxOf b) (L.idxOf a) (by omega) hia hlt
  rw [List.getElem_idxOf, List.getElem_idxOf] at hne
  exact hne hr

/-- Two members that have to precede each other are one. -/
theorem Respects.antisymm (h : Respects r L) (ha : a ∈ L) (hb : b ∈ L) (hab : r a b)
    (hba : r b a) : a = b := by
  classical
  have hle := h.idxOf_le ha hab
  have hge := h.idxOf_le hb hba
  exact (List.idxOf_inj ha).mp (by omega)

/-- What is respected is respected in its transitive closure. -/
theorem Respects.transGen (h : Respects r L) (hnd : L.Nodup) (hmem : ∀ x y, r x y → x ∈ L) :
    Respects (Relation.TransGen r) L := by
  classical
  have hle : ∀ x y, Relation.TransGen r x y → x ∈ L ∧ L.idxOf x ≤ L.idxOf y := by
    intro x y hxy
    induction hxy with
    | single hr => exact ⟨hmem _ _ hr, h.idxOf_le (hmem _ _ hr) hr⟩
    | tail _ hr ih => exact ⟨ih.1, ih.2.trans (h.idxOf_le (hmem _ _ hr) hr)⟩
  refine List.pairwise_iff_getElem.mpr ?_
  intro i j hi hj hij hr
  have hji := (hle _ _ hr).2
  rw [hnd.idxOf_getElem, hnd.idxOf_getElem] at hji
  omega

/-- A member that stands between two others keeps them from being neighbours. -/
theorem not_neighbours (hnd : L.Nodup) (hs : [a, z, b].Sublist L) {x y : α} {pre post : List α}
    (he : L = pre ++ x :: y :: post) : ¬ (x = a ∧ y = b) ∧ ¬ (x = b ∧ y = a) := by
  classical
  have hlt : L.Pairwise fun u v => L.idxOf u < L.idxOf v := by
    refine List.pairwise_iff_getElem.mpr ?_
    intro i j hi hj hij
    rwa [hnd.idxOf_getElem, hnd.idxOf_getElem]
  obtain ⟨ha, hz, -⟩ := List.pairwise_cons.mp (hlt.sublist hs) |>.imp id List.pairwise_cons.mp
  have haz := ha z (by simp)
  have hzb := hz b (by simp)
  have hx : L.idxOf x = pre.length := by
    have hi : pre.length < L.length := by rw [he]; simp
    have hget : L[pre.length] = x := by simp [he]
    rw [← hget, hnd.idxOf_getElem]
  have hy : L.idxOf y = pre.length + 1 := by
    have hi : pre.length + 1 < L.length := by rw [he]; simp
    have hget : L[pre.length + 1] = y := by simp [he]
    rw [← hget, hnd.idxOf_getElem]
  constructor
  · rintro ⟨rfl, rfl⟩
    omega
  · rintro ⟨rfl, rfl⟩
    omega

section Front

/-- The list with the members of a set first. -/
noncomputable def bringForward (D : α → Prop) (L : List α) : List α := by
  classical exact L.filter (fun x => D x) ++ L.filter (fun x => ¬ D x)

variable {D : α → Prop}

theorem bringForward_perm (D : α → Prop) (L : List α) : (bringForward D L).Perm L := by
  classical
  unfold bringForward
  convert List.filter_append_perm (fun x => decide (D x)) L using 3
  funext x
  simp

/-- A set closed under predecessors may come first. -/
theorem Respects.bringForward (h : Respects r L) (hD : ∀ x y, r x y → D y → D x) :
    Respects r (bringForward D L) := by
  classical
  unfold LinearExtension.bringForward
  refine List.pairwise_append.mpr ⟨h.filter _, h.filter _, ?_⟩
  intro x hx y hy hr
  have hx : D x := by simpa using (List.mem_filter.mp hx).2
  have hy : ¬ D y := by simpa using (List.mem_filter.mp hy).2
  exact hy (hD y x hr hx)

/-- What is brought forward keeps its order. -/
theorem sublist_bringForward (h : ∀ x ∈ M, D x) (hs : M.Sublist L) (hb : b ∈ L) (hbD : ¬ D b) :
    (M ++ [b]).Sublist (LinearExtension.bringForward D L) := by
  classical
  unfold LinearExtension.bringForward
  refine List.Sublist.append ?_ ?_
  · have := hs.filter (fun x => decide (D x))
    rwa [List.filter_eq_self.mpr (by simpa using h)] at this
  · exact List.singleton_sublist.mpr (List.mem_filter.mpr ⟨hb, by simpa using hbD⟩)

end Front

/-- A member may stand between two others, unless the relation forbids it. -/
theorem Respects.exists_between (h : Respects r L) (ha : a ∈ L) (hz : z ∈ L) (hb : b ∈ L)
    (hza : ¬ Relation.ReflTransGen r z a) (hba : ¬ Relation.ReflTransGen r b a)
    (hbz : ¬ Relation.ReflTransGen r b z) :
    ∃ L', L'.Perm L ∧ Respects r L' ∧ [a, z, b].Sublist L' := by
  let below : α → α → Prop := fun x y => Relation.ReflTransGen r y x
  have hclosed : ∀ c x y, r x y → below c y → below c x := fun c x y hr hy => hy.head hr
  -- first everything below `a`, then everything below `z`, then the rest
  let L₁ := LinearExtension.bringForward (below a) L
  let L₂ := LinearExtension.bringForward (fun x => below a x ∨ below z x) L₁
  have hL₁ : Respects r L₁ := h.bringForward (hclosed a)
  have hL₂ : Respects r L₂ :=
    hL₁.bringForward fun x y hr hy => hy.imp (hclosed a x y hr) (hclosed z x y hr)
  have hp₁ : L₁.Perm L := bringForward_perm _ _
  have hp₂ : L₂.Perm L₁ := bringForward_perm _ _
  refine ⟨L₂, hp₂.trans hp₁, hL₂, ?_⟩
  have hsub : [a, z].Sublist L₁ := by
    refine sublist_bringForward (M := [a]) ?_ (List.singleton_sublist.mpr ha) hz hza
    intro x hx
    rw [List.mem_singleton.mp hx]
  refine sublist_bringForward (M := [a, z]) ?_ hsub (hp₁.mem_iff.mpr hb) ?_
  · intro x hx
    rcases List.mem_cons.mp hx with rfl | hx
    · exact Or.inl Relation.ReflTransGen.refl
    · rw [List.mem_singleton.mp hx]
      exact Or.inr Relation.ReflTransGen.refl
  · rintro (hb | hb)
    · exact hba hb
    · exact hbz hb

end LinearExtension
