import Mathlib

/-!
# Graphs of commits

A list of commits, each with the numbers of its parents, that only grows at its end.  A commit
descends from itself and from what its parents descend from (`Descends`); with parents that stand
before their children this is an order (`Descends.antisymm`) that is decided by going back
(`isAncestor_iff`).  What every commit keeps of its parents it keeps of all it descends from
(`Descends.keeps`).
-/

namespace CommitGraph

structure Commit (α : Type) where
  parents : List Nat
  content : α
deriving DecidableEq, Repr

section

variable {α : Type}

/-- The second commit is the first or comes after it. -/
inductive Descends (g : List (Commit α)) : Nat → Nat → Prop
  | refl (a : Nat) : Descends g a a
  | parent {a b p : Nat} {c : Commit α} (prior : Descends g a p) (found : g[b]? = some c) (mem : p ∈ c.parents) :
      Descends g a b

/-- Whether the first commit is found going back from the second, at most `depth` times. -/
def reaches (g : List (Commit α)) (a : Nat) : Nat → Nat → Bool
  | 0, b => decide (a = b)
  | depth + 1, b => decide (a = b) || (g[b]?).any fun c => c.parents.any (reaches g a depth)

/-- `git merge-base --is-ancestor`. -/
def isAncestor (g : List (Commit α)) (a b : Nat) : Bool := reaches g a b b

/-- Parents stand before their children. -/
def WellFormed (g : List (Commit α)) : Prop :=
  ∀ (b : Nat) (c : Commit α), g[b]? = some c → ∀ p ∈ c.parents, p < b

variable {g h : List (Commit α)} {a b : Nat}

theorem Descends.trans {c : Nat} (hab : Descends g a b) (hbc : Descends g b c) : Descends g a c := by
  induction hbc with
  | refl => exact hab
  | parent _ found mem ih => exact .parent ih found mem

theorem Descends.of_parent {c : Commit α} {p : Nat} (found : g[b]? = some c) (mem : p ∈ c.parents) : Descends g p b :=
  .parent (.refl p) found mem

theorem Descends.le (hg : WellFormed g) (hab : Descends g a b) : a ≤ b := by
  induction hab with
  | refl => exact le_rfl
  | parent _ found mem ih =>
    have := hg _ _ found _ mem
    omega

theorem Descends.antisymm (hg : WellFormed g) (hab : Descends g a b) (hba : Descends g b a) : a = b := by
  have hle := hab.le hg
  have hge := hba.le hg
  omega

theorem descends_of_reaches {depth : Nat} (hr : reaches g a depth b = true) : Descends g a b := by
  induction depth generalizing b with
  | zero =>
    obtain rfl := of_decide_eq_true hr
    exact .refl _
  | succ depth ih =>
    simp only [reaches, Bool.or_eq_true, decide_eq_true_eq, Option.any_eq_true, List.any_eq_true] at hr
    rcases hr with rfl | ⟨c, found, p, mem, hp⟩
    · exact .refl _
    · exact .parent (ih hp) found mem

theorem reaches_of_descends (hg : WellFormed g) (hab : Descends g a b) :
    ∀ depth, b ≤ depth → reaches g a depth b = true := by
  induction hab with
  | refl =>
    intro depth _
    cases depth <;> simp [reaches]
  | @parent _ _ c prior found mem ih =>
    intro depth hdepth
    have hlt := hg _ _ found _ mem
    cases depth with
    | zero => omega
    | succ depth =>
      simp only [reaches, Bool.or_eq_true, Option.any_eq_true, List.any_eq_true]
      exact Or.inr ⟨_, found, _, mem, ih depth (by omega)⟩

/-- Going back decides whether a commit descends from another. -/
theorem isAncestor_iff (hg : WellFormed g) : isAncestor g a b = true ↔ Descends g a b :=
  ⟨descends_of_reaches, fun hab => reaches_of_descends hg hab b le_rfl⟩

/-! ### Growing -/

theorem getElem?_of_isPrefix {c : Commit α} (hgh : g <+: h) (found : g[b]? = some c) : h[b]? = some c := by
  obtain ⟨more, rfl⟩ := hgh
  exact List.getElem?_append_left (List.getElem?_eq_some_iff.mp found).1 ▸ found

theorem Descends.mono (hgh : g <+: h) (hab : Descends g a b) : Descends h a b := by
  induction hab with
  | refl => exact .refl _
  | parent _ found mem ih => exact .parent ih (getElem?_of_isPrefix hgh found) mem

theorem wellFormed_concat {c : Commit α} (hg : WellFormed g) (hc : ∀ p ∈ c.parents, p < g.length) :
    WellFormed (g ++ [c]) := by
  intro b d found p mem
  rcases Nat.lt_or_ge b g.length with hb | hb
  · rw [List.getElem?_append_left hb] at found
    exact hg b d found p mem
  · rw [List.getElem?_append_right hb] at found
    have hzero : b - g.length = 0 := by
      by_contra hne
      rw [List.getElem?_eq_none (by simp; omega)] at found
      cases found
    rw [hzero] at found
    cases found
    have := hc p mem
    omega

theorem getElem?_concat (c : Commit α) : (g ++ [c])[g.length]? = some c := by simp

theorem descends_concat {c : Commit α} {p : Nat} (mem : p ∈ c.parents) : Descends (g ++ [c]) p g.length :=
  .of_parent (getElem?_concat c) mem

/-! ### What is kept -/

/-- A commit keeps what each of its parents has. -/
def Inherits (r : α → α → Prop) (g : List (Commit α)) : Prop :=
  ∀ (b : Nat) (c : Commit α), g[b]? = some c → ∀ p ∈ c.parents, ∀ d, g[p]? = some d → r d.content c.content

theorem Descends.keeps {r : α → α → Prop} (hrefl : ∀ x, r x x) (htrans : ∀ x y z, r x y → r y z → r x z)
    (hg : WellFormed g) (hin : Inherits r g) (hab : Descends g a b) {c d : Commit α} (hc : g[a]? = some c)
    (hd : g[b]? = some d) : r c.content d.content := by
  induction hab generalizing d with
  | refl =>
    rw [hc] at hd
    cases hd
    exact hrefl _
  | @parent b p e prior found mem ih =>
    rw [found] at hd
    cases hd
    have hlen : b < g.length := (List.getElem?_eq_some_iff.mp found).1
    have hp := hg _ _ found _ mem
    have hfound : g[p]? = some g[p] := List.getElem?_eq_getElem (by omega)
    exact htrans _ _ _ (ih hfound) (hin _ _ found _ mem _ hfound)

theorem inherits_concat {r : α → α → Prop} {c : Commit α} (hg : WellFormed g) (hin : Inherits r g)
    (hc : ∀ p ∈ c.parents, ∀ d, g[p]? = some d → r d.content c.content)
    (hlt : ∀ p ∈ c.parents, p < g.length) : Inherits r (g ++ [c]) := by
  intro b e found p mem d hd
  have hp := wellFormed_concat hg hlt _ _ found _ mem
  rcases Nat.lt_or_ge b g.length with hb | hb
  · rw [List.getElem?_append_left hb] at found
    rw [List.getElem?_append_left (by omega)] at hd
    exact hin b e found p mem d hd
  · have hlen : b < (g ++ [c]).length := (List.getElem?_eq_some_iff.mp found).1
    rw [List.length_append, List.length_singleton] at hlen
    obtain rfl : b = g.length := by omega
    rw [getElem?_concat] at found
    cases found
    rw [List.getElem?_append_left (by omega)] at hd
    exact hc p mem d hd

end

end CommitGraph
