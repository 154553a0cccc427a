import ArchiveLedger.Journal.Visits

/-!
# Graphs of frontiers

A successor accepts what its parents accept, and the loaders of `v2_store.rs` go from a
frontier to its parents; so whatever they load lies below the frontier they start from
(`loadFrontierGraph_below`, `loadFrontierPathToBase_below`).
-/

namespace ArchiveLedger

open Outcome Transition

/-! ### The order of frontiers -/

theorem textLt_iff {a b : String} : textLt a b ↔ (utf8 a).map UInt8.toNat < (utf8 b).map UInt8.toNat := by
  simp [textLt]

theorem textLt_trans {a b c : String} (h : textLt a b) (g : textLt b c) : textLt a c :=
  textLt_iff.mpr (lt_trans (textLt_iff.mp h) (textLt_iff.mp g))

theorem textLt_irrefl (a : String) : ¬ textLt a a := fun h => lt_irrefl _ (textLt_iff.mp h)

theorem validateOrigins_sorted {prior : Option String} {origins : List OriginFrontier}
    (h : validateOrigins prior origins = .ok ()) :
    (∀ p ∈ prior, ∀ o ∈ origins, textLt p o.originId) ∧
      origins.Pairwise fun a b => textLt a.originId b.originId := by
  induction origins generalizing prior with
  | nil => exact ⟨fun _ _ _ ho => absurd ho List.not_mem_nil, .nil⟩
  | cons o origins ih =>
    simp only [validateOrigins, validateOrigin, bind_eq_ok, require_eq_ok] at h
    obtain ⟨_, ⟨_, -, _, -, _, hprior, -⟩, hrest⟩ := h
    obtain ⟨hfirst, hsorted⟩ := ih hrest
    refine ⟨fun p hp => List.forall_mem_cons.mpr ⟨hprior p hp, fun o' ho' => ?_⟩,
      hsorted.cons fun o' ho' => hfirst _ rfl o' ho'⟩
    exact textLt_trans (hprior p hp) (hfirst _ rfl o' ho')

namespace CausalFrontier

theorem validate_sorted {f : CausalFrontier} (h : f.validate = .ok ()) :
    f.origins.Pairwise fun a b => textLt a.originId b.originId := by
  simp only [validate, bind_eq_ok, require_eq_ok] at h
  obtain ⟨_, -, _, -, _, -, _, -, _, horigins, -⟩ := h
  exact (validateOrigins_sorted horigins).2

theorem validate_nodup {f : CausalFrontier} (h : f.validate = .ok ()) :
    (f.origins.map OriginFrontier.originId).Nodup := by
  refine List.pairwise_map.mpr ((validate_sorted h).imp fun hlt heq => ?_)
  rw [heq] at hlt
  exact textLt_irrefl _ hlt

theorem origin?_of_mem {f : CausalFrontier} (hnodup : (f.origins.map OriginFrontier.originId).Nodup)
    {origin : OriginFrontier} (h : origin ∈ f.origins) : f.origin? origin.originId = some origin := by
  cases hfind : f.origin? origin.originId with
  | none => exact absurd (List.find?_eq_none.mp hfind origin h) (by simp)
  | some found =>
    obtain ⟨hmem, hid⟩ := origin?_eq_some hfind
    rw [List.inj_on_of_nodup_map hnodup hmem h hid]

/-- The frontier accepts no more than the other. -/
def Below (f g : CausalFrontier) : Prop :=
  ∀ o ∈ f.origins, ∃ o', g.origin? o.originId = some o' ∧ o.seq ≤ o'.seq

theorem Below.refl {f : CausalFrontier} (h : f.validate = .ok ()) : f.Below f :=
  fun o ho => ⟨o, origin?_of_mem (validate_nodup h) ho, le_rfl⟩

theorem Below.trans {f g k : CausalFrontier} (h : f.Below g) (h' : g.Below k) : f.Below k := by
  intro o ho
  obtain ⟨o', ho', hle⟩ := h o ho
  obtain ⟨hmem, hid⟩ := origin?_eq_some ho'
  obtain ⟨o'', ho'', hle'⟩ := h' o' hmem
  exact ⟨o'', hid ▸ ho'', hle.trans hle'⟩

theorem advancedOrigins_below {f : CausalFrontier} {origins : List OriginFrontier} {ids : List String}
    (h : advancedOrigins f origins = .ok ids) :
    ∀ o ∈ origins, ∃ o', f.origin? o.originId = some o' ∧ o.seq ≤ o'.seq := by
  induction origins generalizing ids with
  | nil => exact fun o ho => absurd ho List.not_mem_nil
  | cons o origins ih =>
    simp only [advancedOrigins, bind_eq_ok, okOr_eq_ok, require_eq_ok] at h
    obtain ⟨o', ho', _, hle, _, -, more, hmore, -⟩ := h
    exact List.forall_mem_cons.mpr ⟨⟨o', ho', hle⟩, ih hmore⟩

/-- A successor lies above its parent. -/
theorem validateSuccessorOf_below {blake3 : Bytes → String} {write : CausalFrontier → Bytes}
    {f base : CausalFrontier} {advance : FrontierAdvance}
    (h : f.validateSuccessorOf blake3 write base = .ok advance) : base.Below f := by
  simp only [validateSuccessorOf, bind_eq_ok, require_eq_ok] at h
  obtain ⟨_, -, _, -, _, -, _, -, _, -, _, -, _, -, ids, hids, -⟩ := h
  exact advancedOrigins_below hids

end CausalFrontier

/-! ### Loading -/

theorem FrontierMap.get?_append {frontiers : FrontierMap} {hash k : String} {f : CausalFrontier} :
    FrontierMap.get? (frontiers ++ [(hash, f)]) k =
      (frontiers.get? k).or (if hash = k then some f else none) := by
  unfold FrontierMap.get?
  rw [List.find?_append]
  cases List.find? (fun f => decide (f.1 = k)) frontiers with
  | some g => rfl
  | none =>
    rw [Option.none_or, Option.map_none, Option.none_or, List.find?_singleton]
    split
    · rename_i h
      rw [decide_eq_true_iff] at h
      rw [if_pos h, Option.map_some]
    · rename_i h
      rw [decide_eq_true_iff] at h
      rw [if_neg h, Option.map_none]

variable {R : StoreRuntime} {tree : EventTree} {trust : TrustRoot}

/-- A frontier that reads is valid. -/
theorem readFrontier_validate {hash : String} {f : CausalFrontier}
    (h : readFrontier R tree trust hash = .ok f) : f.validate = .ok () := by
  simp only [readFrontier, bind_eq_ok, mapError_eq_ok, CausalFrontier.canonicalBytes, Except.ok.injEq] at h
  obtain ⟨_, -, _, -, g, -, canonical, ⟨_, hvalidate, -⟩, _, -, _, -, _, -, rfl⟩ := h
  exact hvalidate

/-- Every entry is the frontier its hash names in the tree. -/
def FrontierMap.Read (R : StoreRuntime) (tree : EventTree) (trust : TrustRoot) (frontiers : FrontierMap) :
    Prop := ∀ k f, frontiers.get? k = some f → readFrontier R tree trust k = .ok f

/-- What a loader adds to the frontiers it has: frontiers that the tree names, each below the one it
started from. -/
structure FrontierMap.Grown (R : StoreRuntime) (tree : EventTree) (trust : TrustRoot)
    (visited out : FrontierMap) (root : CausalFrontier) : Prop where
  read : out.Read R tree trust
  kept : ∀ k, (visited.get? k).isSome → (out.get? k).isSome
  below : ∀ k g, out.get? k = some g → (visited.get? k).isSome ∨ g.Below root

namespace FrontierMap

theorem Grown.refl {visited : FrontierMap} (h : visited.Read R tree trust) (root : CausalFrontier) :
    visited.Grown R tree trust visited root :=
  ⟨h, fun _ hk => hk, fun k g hg => Or.inl (by rw [hg]; rfl)⟩

/-- A loader that went on from a parent. -/
theorem Grown.parent {visited mid out : FrontierMap} {root base : CausalFrontier}
    (h : visited.Grown R tree trust mid root) (g : mid.Grown R tree trust out base)
    (hbase : base.Below root) : visited.Grown R tree trust out root where
  read := g.read
  kept k hk := g.kept k (h.kept k hk)
  below := by
    intro k f hf
    rcases g.below k f hf with hmid | hbelow
    · obtain ⟨f', hf'⟩ := Option.isSome_iff_exists.mp hmid
      have heq : f' = f := Except.ok.inj ((h.read k f' hf').symm.trans (g.read k f hf))
      subst heq
      exact h.below k f' hf'
    · exact Or.inr (hbelow.trans hbase)

/-- The frontier itself comes last. -/
theorem Grown.last {visited mid : FrontierMap} {root : CausalFrontier} {hash : String}
    (h : visited.Grown R tree trust mid root) (hread : readFrontier R tree trust hash = .ok root) :
    visited.Grown R tree trust (mid ++ [(hash, root)]) root ∧
      get? (mid ++ [(hash, root)]) hash = some root := by
  have hget : ∀ k g, get? (mid ++ [(hash, root)]) k = some g →
      mid.get? k = some g ∨ (hash = k ∧ g = root) := by
    intro k g hg
    rw [get?_append, Option.or_eq_some_iff] at hg
    rcases hg with hg | ⟨-, hg⟩
    · exact Or.inl hg
    · split at hg
      · rename_i hk
        exact Or.inr ⟨hk, (Option.some.inj hg).symm⟩
      · cases hg
  refine ⟨⟨fun k g hg => ?_, fun k hk => ?_, fun k g hg => ?_⟩, ?_⟩
  · rcases hget k g hg with hg | ⟨rfl, rfl⟩
    · exact h.read k g hg
    · exact hread
  · obtain ⟨g, hg⟩ := Option.isSome_iff_exists.mp (h.kept k hk)
    rw [get?_append, hg]
    rfl
  · rcases hget k g hg with hg | ⟨-, rfl⟩
    · exact h.below k g hg
    · exact Or.inr (.refl (readFrontier_validate hread))
  · rw [get?_append, if_pos rfl]
    cases hmid : mid.get? hash with
    | none => rfl
    | some g => rw [Except.ok.inj ((h.read hash g hmid).symm.trans hread)]; rfl

end FrontierMap

theorem checkSuccessor_below {f : CausalFrontier} {visited : FrontierMap} {parent : String}
    (h : checkSuccessor R f visited parent = .ok ()) :
    ∃ base, visited.get? parent = some base ∧ base.Below f := by
  simp only [checkSuccessor, bind_eq_ok, okOr_eq_ok, mapError_eq_ok] at h
  obtain ⟨base, hbase, advance, hadvance, -⟩ := h
  exact ⟨base, hbase, CausalFrontier.validateSuccessorOf_below hadvance⟩

theorem loadFrontierGraph_grown {depth : Nat} {visited out : FrontierMap} {hash : String}
    (hvisited : visited.Read R tree trust)
    (h : loadFrontierGraph R tree trust depth visited hash = .ok out) :
    ∃ root, out.get? hash = some root ∧ visited.Grown R tree trust out root := by
  induction depth generalizing visited out hash with
  | zero => cases h
  | succ depth ih =>
    rw [loadFrontierGraph] at h
    split at h
    · rename_i hknown
      cases h
      obtain ⟨root, hroot⟩ := Option.isSome_iff_exists.mp hknown
      exact ⟨root, hroot, .refl hvisited root⟩
    · simp only [bind_eq_ok, require_eq_ok, Except.ok.injEq] at h
      obtain ⟨f, hread, mid, hparents, _, -, rfl⟩ := h
      have hmid : visited.Grown R tree trust mid f := by
        refine commitAll_invariant (P := fun mid => visited.Grown R tree trust mid f) ?_
          (.refl hvisited f) hparents
        intro u parent v hu hv
        simp only [bind_eq_ok, Except.ok.injEq] at hv
        obtain ⟨w, hw, _, hsuccessor, rfl⟩ := hv
        obtain ⟨base, hbase, hgrown⟩ := ih hu.read hw
        obtain ⟨base', hbase', hbelow⟩ := checkSuccessor_below hsuccessor
        rw [hbase] at hbase'
        cases hbase'
        exact hu.parent hgrown hbelow
      exact ⟨f, (hmid.last hread).2, (hmid.last hread).1⟩

theorem loadFrontierPathToBase_grown {base : String} {depth : Nat} {visited : FrontierMap}
    {out : Bool × FrontierMap} {hash : String} (hvisited : visited.Read R tree trust)
    (h : loadFrontierPathToBase R tree trust base depth visited hash = .ok out) :
    ∃ root, out.2.get? hash = some root ∧ visited.Grown R tree trust out.2 root := by
  induction depth generalizing visited out hash with
  | zero => cases h
  | succ depth ih =>
    rw [loadFrontierPathToBase] at h
    split at h
    · rename_i hknown
      cases h
      obtain ⟨root, hroot⟩ := Option.isSome_iff_exists.mp hknown
      exact ⟨root, hroot, .refl hvisited root⟩
    · simp only [bind_eq_ok] at h
      obtain ⟨f, hread, h⟩ := h
      split at h
      · cases h
        have hlast := (FrontierMap.Grown.refl hvisited f).last hread
        exact ⟨f, hlast.2, hlast.1⟩
      · simp only [bind_eq_ok, require_eq_ok, Prod.exists, Except.ok.injEq] at h
        obtain ⟨found, mid, hparents, _, -, rfl⟩ := h
        have hmid : visited.Grown R tree trust (found, mid).2 f := by
          refine commitAll_invariant (P := fun s : Bool × FrontierMap => visited.Grown R tree trust s.2 f) ?_
            (.refl hvisited f) hparents
          intro u parent v hu hv
          simp only [bind_eq_ok, Prod.exists, Except.ok.injEq] at hv
          obtain ⟨found', w, hw, _, hsuccessor, rfl⟩ := hv
          obtain ⟨base', hbase, hgrown⟩ := ih hu.read hw
          obtain ⟨base'', hbase', hbelow⟩ := checkSuccessor_below hsuccessor
          rw [hbase] at hbase'
          cases hbase'
          exact hu.parent hgrown hbelow
        exact ⟨f, (hmid.last hread).2, (hmid.last hread).1⟩

theorem FrontierMap.Read.nil : FrontierMap.Read R tree trust [] := fun _ _ h => by cases h

/-- Everything below a head. -/
theorem loadFrontierGraph_below {depth : Nat} {out : FrontierMap} {hash : String} {root : CausalFrontier}
    (h : loadFrontierGraph R tree trust depth [] hash = .ok out) (hroot : out.get? hash = some root) :
    out.Read R tree trust ∧ ∀ k g, out.get? k = some g → g.Below root := by
  obtain ⟨root', hroot', hgrown⟩ := loadFrontierGraph_grown .nil h
  rw [hroot] at hroot'
  cases hroot'
  refine ⟨hgrown.read, fun k g hg => ?_⟩
  rcases hgrown.below k g hg with hnone | hbelow
  · cases hnone
  · exact hbelow

theorem loadFrontierPathToBase_below {base : String} {depth : Nat} {out : Bool × FrontierMap} {hash : String}
    {root : CausalFrontier} (h : loadFrontierPathToBase R tree trust base depth [] hash = .ok out)
    (hroot : out.2.get? hash = some root) :
    out.2.Read R tree trust ∧ ∀ k g, out.2.get? k = some g → g.Below root := by
  obtain ⟨root', hroot', hgrown⟩ := loadFrontierPathToBase_grown .nil h
  rw [hroot] at hroot'
  cases hroot'
  refine ⟨hgrown.read, fun k g hg => ?_⟩
  rcases hgrown.below k g hg with hnone | hbelow
  · cases hnone
  · exact hbelow

end ArchiveLedger
