import ArchiveLedger.Foundation.Transition

/-!
# Worklists

A worklist is served in passes.  One pass goes through the items in order, serves
those that are ready and keeps the others; passes follow one another until nothing
is left, and one that serves nothing is an error.  Serving an item may make others
ready, before or behind it.

A drained worklist has served each item once, one after the other, in an order that
depends on readiness alone (`order`, `drain_order`).
-/

namespace Worklist

open Transition

variable {σ ι ε : Type}

/-- One pass: what is ready is served, the rest is kept. -/
def pass (serve : σ → ι → Option (Except ε σ)) : σ → List ι → Except ε (σ × List ι)
  | s, [] => .ok (s, [])
  | s, i :: is =>
      match serve s i with
      | none => do
          let (t, kept) ← pass serve s is
          .ok (t, i :: kept)
      | some served => do
          let t ← served
          pass serve t is

/-- Passes until nothing is left; every pass but a failing one serves something, so
`rounds` needs to be no more than the number of items. -/
def drain (serve : σ → ι → Option (Except ε σ)) (stuck : List ι → ε) :
    Nat → σ → List ι → Except ε σ
  | _, s, [] => .ok s
  | 0, _, i :: is => .error (stuck (i :: is))
  | rounds + 1, s, i :: is => do
      let (t, kept) ← pass serve s (i :: is)
      if kept.length = (i :: is).length then .error (stuck kept)
      else drain serve stuck rounds t kept

variable {serve : σ → ι → Option (Except ε σ)} {stuck : List ι → ε}

theorem pass_cons {s : σ} {i : ι} {is : List ι} {out : σ × List ι} :
    pass serve s (i :: is) = .ok out ↔
      (serve s i = none ∧ ∃ r, pass serve s is = .ok r ∧ out = (r.1, i :: r.2)) ∨
        ∃ t, serve s i = some (.ok t) ∧ pass serve t is = .ok out := by
  rw [pass]
  cases hserve : serve s i with
  | none =>
    simp only [bind_eq_ok, Except.ok.injEq, true_and, reduceCtorEq, false_and, exists_false, or_false]
    exact ⟨fun ⟨r, hr, hout⟩ => ⟨r, hr, hout.symm⟩, fun ⟨r, hr, hout⟩ => ⟨r, hr, hout.symm⟩⟩
  | some served =>
    simp only [bind_eq_ok, reduceCtorEq, false_and, false_or, Option.some.injEq]

theorem drain_cons {rounds : Nat} {s t : σ} {i : ι} {is : List ι}
    (h : drain serve stuck rounds s (i :: is) = .ok t) :
    ∃ n u kept, rounds = n + 1 ∧ pass serve s (i :: is) = .ok (u, kept) ∧
      kept.length ≠ (i :: is).length ∧ drain serve stuck n u kept = .ok t := by
  cases rounds with
  | zero => cases h
  | succ n =>
    simp only [drain, bind_eq_ok, Prod.exists] at h
    obtain ⟨u, kept, hpass, h⟩ := h
    split at h
    · cases h
    · rename_i hne
      exact ⟨n, u, kept, rfl, hpass, hne, h⟩

/-! ### The order of the servings -/

/-- One serving. -/
def Serves (serve : σ → ι → Option (Except ε σ)) (s : σ) (i : ι) (t : σ) : Prop :=
  serve s i = some (.ok t)

section

variable (ready : List ι → ι → Bool)

/-- A worklist that only notes what it serves. -/
def note (taken : List ι) (i : ι) : Option (Except Unit (List ι)) :=
  if ready taken i then some (.ok (taken ++ [i])) else none

/-- What is taken before the items and then the items, each when it is ready; only what was taken
before, if some item never is. -/
def order (taken items : List ι) : List ι :=
  match drain (note ready) (fun _ => ()) items.length taken items with
  | .ok all => all
  | .error _ => taken

end

theorem note_isSome {ready : List ι → ι → Bool} {taken : List ι} {i : ι} :
    (note ready taken i).isSome = ready taken i := by
  unfold note
  cases ready taken i <;> rfl

/-- The servings go in an order that readiness decides. -/
def Ordered (serve : σ → ι → Option (Except ε σ)) (s : σ) (items : List ι) (p : List (ι × σ))
    (ready : List ι → ι → Bool) (taken : List ι) : Prop :=
  ∀ q r, p = q ++ r → ∀ i ∈ items, (serve (final s q) i).isSome = ready (taken ++ q.map Prod.fst) i

theorem Ordered.cons {s t : σ} {i : ι} {is items : List ι} {p : List (ι × σ)} {ready : List ι → ι → Bool}
    {taken : List ι} (h : Ordered serve s items ((i, t) :: p) ready taken) (his : ∀ j ∈ is, j ∈ items) :
    Ordered serve t is p ready (taken ++ [i]) := by
  intro q r hp j hj
  have := h ((i, t) :: q) r (by rw [hp]; rfl) j (his j hj)
  rw [List.append_assoc, List.singleton_append]
  exact this

theorem Ordered.append {s : σ} {is items : List ι} {p q : List (ι × σ)} {ready : List ι → ι → Bool}
    {taken : List ι} (h : Ordered serve s items (p ++ q) ready taken) (his : ∀ j ∈ is, j ∈ items) :
    Ordered serve (final s p) is q ready (taken ++ p.map Prod.fst) := by
  intro q' r hq j hj
  have := h (p ++ q') r (by rw [hq, List.append_assoc]) j (his j hj)
  rw [final_append, List.map_append] at this
  rw [List.append_assoc]
  exact this

theorem pass_order {s t : σ} {items kept : List ι} (h : pass serve s items = .ok (t, kept)) :
    ∃ p, Path (Serves serve) s p ∧ final s p = t ∧ (p.map Prod.fst ++ kept).Perm items ∧
      ∀ ready taken q, Ordered serve s items (p ++ q) ready taken →
        pass (note ready) taken items = .ok (taken ++ p.map Prod.fst, kept) := by
  induction items generalizing s kept with
  | nil =>
    cases h
    exact ⟨[], trivial, rfl, .refl _, fun ready taken _ _ => by simp [pass]⟩
  | cons i is ih =>
    rcases pass_cons.mp h with ⟨hnone, ⟨u, left⟩, hr, hout⟩ | ⟨u, hserve, hrest⟩
    · cases hout
      obtain ⟨p, hp, hfinal, hperm, hready⟩ := ih hr
      refine ⟨p, hp, hfinal, List.perm_middle.trans (hperm.cons i), fun ready taken q hq => ?_⟩
      have hi : (note ready taken i).isSome = false := by
        rw [note_isSome]
        have := hq [] (p ++ q) rfl i (List.mem_cons_self ..)
        rw [final_nil, hnone, List.map_nil, List.append_nil] at this
        exact this.symm
      refine pass_cons.mpr (Or.inl ⟨Option.not_isSome_iff_eq_none.mp (by rw [hi]; exact Bool.false_ne_true), _,
        hready ready taken q fun q' r hpq j hj => hq q' r hpq j (List.mem_cons_of_mem _ hj), rfl⟩)
    · obtain ⟨p, hp, hfinal, hperm, hready⟩ := ih hrest
      refine ⟨(i, u) :: p, ⟨hserve, hp⟩, hfinal, hperm.cons i, fun ready taken q hq => ?_⟩
      have hi : ready taken i = true := by
        have := hq [] ((i, u) :: p ++ q) rfl i (List.mem_cons_self ..)
        rw [final_nil, hserve, List.map_nil, List.append_nil] at this
        exact this.symm
      refine pass_cons.mpr (Or.inr ⟨taken ++ [i], if_pos hi, ?_⟩)
      rw [hready ready (taken ++ [i]) q (Ordered.cons hq fun j hj => List.mem_cons_of_mem _ hj), List.map_cons,
        ← List.append_cons]

/-- A drained worklist served each item once, in the order that readiness decides. -/
theorem drain_order {rounds : Nat} {s t : σ} {items : List ι}
    (h : drain serve stuck rounds s items = .ok t) :
    ∃ p, Path (Serves serve) s p ∧ final s p = t ∧ (p.map Prod.fst).Perm items ∧
      ∀ ready taken, Ordered serve s items p ready taken →
        drain (note ready) (fun _ => ()) rounds taken items = .ok (taken ++ p.map Prod.fst) := by
  induction rounds generalizing s items with
  | zero =>
    cases items with
    | nil =>
      cases h
      exact ⟨[], trivial, rfl, .refl _, fun ready taken _ => by simp [drain]⟩
    | cons i is => cases h
  | succ n ih =>
    cases items with
    | nil =>
      cases h
      exact ⟨[], trivial, rfl, .refl _, fun ready taken _ => by simp [drain]⟩
    | cons i is =>
      obtain ⟨_, u, kept, hn, hpass, hne, hrest⟩ := drain_cons h
      cases hn
      obtain ⟨p, hp, rfl, hperm, hnote⟩ := pass_order hpass
      obtain ⟨q, hq, hfinal, hkept, hdrain⟩ := ih hrest
      refine ⟨p ++ q, path_append.mpr ⟨hp, hq⟩, by rw [final_append, hfinal], ?_, fun ready taken hready => ?_⟩
      · rw [List.map_append]
        exact (hkept.append_left _).trans hperm
      · have hsub : ∀ j ∈ kept, j ∈ i :: is := fun j hj => hperm.subset (List.mem_append_right _ hj)
        simp only [drain, bind_eq_ok, Prod.exists]
        refine ⟨_, kept, hnote ready taken q hready, ?_⟩
        rw [if_neg hne, hdrain ready _ (Ordered.append hready hsub), List.map_append, List.append_assoc]

theorem final_note {ready : List ι → ι → Bool} {taken : List ι} {p : List (ι × List ι)}
    (h : Path (Serves (note ready)) taken p) : final taken p = taken ++ p.map Prod.fst := by
  induction p generalizing taken with
  | nil => exact (List.append_nil _).symm
  | cons e p ih =>
    have he : e.2 = taken ++ [e.1] := by
      have hserve := h.1
      unfold Serves note at hserve
      split at hserve
      · exact (Except.ok.inj (Option.some.inj hserve)).symm
      · cases hserve
    rw [final_cons, ih h.2, he, List.append_assoc, List.map_cons, List.singleton_append]

theorem pass_of_order {s : σ} {items kept l taken : List ι} {p : List (ι × σ)} {ready : List ι → ι → Bool}
    (hp : Path (Serves serve) s p) (hordered : Ordered serve s items p ready taken)
    (hpass : pass (note ready) taken items = .ok (l, kept)) (hbegins : l <+: taken ++ p.map Prod.fst) :
    ∃ q r, p = q ++ r ∧ l = taken ++ q.map Prod.fst ∧ pass serve s items = .ok (final s q, kept) := by
  induction items generalizing s taken kept p with
  | nil =>
    cases hpass
    exact ⟨[], p, rfl, (List.append_nil _).symm, rfl⟩
  | cons i is ih =>
    have hready := hordered [] p rfl i (List.mem_cons_self ..)
    rw [final_nil, List.map_nil, List.append_nil, ← @note_isSome _ ready] at hready
    rcases pass_cons.mp hpass with ⟨hnone, ⟨u, left⟩, hr, hout⟩ | ⟨u, hserve, hrest⟩
    · cases hout
      rw [hnone, Option.isSome_none] at hready
      obtain ⟨q, r, rfl, hl, hq⟩ :=
        ih hp (fun q r hqr j hj => hordered q r hqr j (List.mem_cons_of_mem _ hj)) hr hbegins
      exact ⟨q, r, rfl, hl, pass_cons.mpr (Or.inl ⟨by simpa using hready, _, hq, rfl⟩)⟩
    · obtain rfl : u = taken ++ [i] := final_note (p := [(i, u)]) ⟨hserve, trivial⟩
      obtain ⟨q', hq', hfinal, -⟩ := pass_order hrest
      rw [final_note hq'] at hfinal
      subst hfinal
      rw [List.append_assoc, List.prefix_append_right_inj, List.singleton_append] at hbegins
      cases p with
      | nil => simp at hbegins
      | cons e p =>
        obtain ⟨j, t⟩ := e
        rw [List.map_cons, List.cons_prefix_cons] at hbegins
        obtain ⟨rfl, hbegins⟩ := hbegins
        obtain ⟨q, r, rfl, hl, hq⟩ := ih hp.2
          (Ordered.cons hordered fun j hj => List.mem_cons_of_mem _ hj) hrest
          ((List.prefix_append_right_inj _).mpr hbegins)
        refine ⟨(i, t) :: q, r, rfl, ?_, pass_cons.mpr (Or.inr ⟨t, hp.1, hq⟩)⟩
        rw [hl, List.append_assoc, List.map_cons, List.singleton_append]

/-- A path of servings in the order that readiness decides is what the worklist does. -/
theorem drain_of_order {rounds : Nat} {s : σ} {items taken : List ι} {p : List (ι × σ)}
    {ready : List ι → ι → Bool} (hp : Path (Serves serve) s p)
    (hordered : Ordered serve s items p ready taken)
    (hdrain : drain (note ready) (fun _ => ()) rounds taken items = .ok (taken ++ p.map Prod.fst)) :
    drain serve stuck rounds s items = .ok (final s p) := by
  induction rounds generalizing s items taken p with
  | zero =>
    cases items with
    | nil =>
      simp only [drain, Except.ok.injEq, List.self_eq_append_right, List.map_eq_nil_iff] at hdrain
      subst hdrain
      rfl
    | cons i is => cases hdrain
  | succ n ih =>
    cases items with
    | nil =>
      simp only [drain, Except.ok.injEq, List.self_eq_append_right, List.map_eq_nil_iff] at hdrain
      subst hdrain
      rfl
    | cons i is =>
      obtain ⟨_, l, kept, hn, hpass, hne, hrest⟩ := drain_cons hdrain
      cases hn
      obtain ⟨q', hq', hfinal, -⟩ := drain_order hrest
      rw [final_note hq'] at hfinal
      obtain ⟨q, r, rfl, rfl, hq⟩ := pass_of_order hp hordered hpass ⟨_, hfinal⟩
      obtain ⟨p', -, -, hperm, -⟩ := pass_order hpass
      have hsub : ∀ j ∈ kept, j ∈ i :: is := fun j hj => hperm.subset (List.mem_append_right _ hj)
      obtain ⟨-, hr⟩ := path_append.mp hp
      have := ih hr (Ordered.append hordered hsub)
        (by rw [hrest, List.append_assoc, ← List.map_append])
      simp only [drain, bind_eq_ok, Prod.exists]
      refine ⟨_, kept, hq, ?_⟩
      rw [if_neg hne, final_append]
      exact this

theorem order_eq {s : σ} {items : List ι} {p : List (ι × σ)} {ready : List ι → ι → Bool} {taken : List ι}
    (hdrain : ∀ ready taken, Ordered serve s items p ready taken →
      drain (note ready) (fun _ => ()) items.length taken items = .ok (taken ++ p.map Prod.fst))
    (h : Ordered serve s items p ready taken) : order ready taken items = taken ++ p.map Prod.fst := by
  rw [order, hdrain ready taken h]

/-- An order that has all items is the one of a worklist that is drained. -/
theorem drain_note {ready : List ι → ι → Bool} {taken items l : List ι}
    (horder : order ready taken items = taken ++ l) (hperm : l.Perm items) :
    drain (note ready) (fun _ => ()) items.length taken items = .ok (taken ++ l) := by
  unfold order at horder
  split at horder
  · rename_i all hall
    rw [hall, horder]
  · rename_i e he
    rw [List.self_eq_append_right] at horder
    subst horder
    rw [List.nil_perm.mp hperm] at he
    cases he

end Worklist
