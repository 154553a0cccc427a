import Mathlib

/-!
# Hash chains

Entries that name the entry before them by its hash.  Without collisions a chain is bound by the hash of
its last entry: two chains with the same tip are equal (`Linked.eq_of_tip`), and the entries of a chain are
those found by going back from its tip (`Linked.mem_iff`).
-/

namespace HashChain

variable {α η : Type} (hash : α → η) (prev : α → Option η)

/-- Each entry names the one before it; the first names what the chain starts from. -/
def Linked : Option η → List α → Prop
  | _, [] => True
  | start, a :: l => prev a = start ∧ Linked (some (hash a)) l

/-- What the next entry of a chain has to name. -/
def tip (start : Option η) (l : List α) : Option η := (l.getLast?.map hash).or start

/-- The entries of a store that are found from a hash by going back. -/
inductive Behind (store : α → Prop) : η → α → Prop
  | here {h : η} {a : α} (ha : store a) (named : hash a = h) : Behind store h a
  | back {h : η} {a b : α} (after : Behind store h b) (named : prev b = some (hash a)) (ha : store a) :
      Behind store h a

variable {hash prev}

@[simp] theorem tip_nil (start : Option η) : tip hash start [] = start := rfl

@[simp] theorem tip_snoc (start : Option η) (l : List α) (a : α) : tip hash start (l ++ [a]) = some (hash a) := by
  simp [tip]

theorem tip_cons (start : Option η) (a : α) (l : List α) : tip hash start (a :: l) = tip hash (some (hash a)) l := by
  cases hlast : l.getLast? with
  | none => simp [tip, List.getLast?_cons, hlast]
  | some b => simp [tip, List.getLast?_cons, hlast]

theorem tip_append (start : Option η) (l m : List α) : tip hash start (l ++ m) = tip hash (tip hash start l) m := by
  induction l generalizing start with
  | nil => rfl
  | cons a l ih => rw [List.cons_append, tip_cons, tip_cons, ih]

theorem linked_snoc {start : Option η} {l : List α} {a : α} :
    Linked hash prev start (l ++ [a]) ↔ Linked hash prev start l ∧ prev a = tip hash start l := by
  induction l generalizing start with
  | nil => simp [Linked]
  | cons b l ih => rw [List.cons_append, Linked, ih, Linked, and_assoc, tip_cons]

theorem tip_none_eq_none {l : List α} (h : tip hash none l = none) : l = [] := by
  induction l using List.reverseRecOn with
  | nil => rfl
  | append_singleton l a ih =>
    rw [tip_snoc] at h
    cases h

/-- Without collisions the last hash binds the chain. -/
theorem Linked.eq_of_tip {l m : List α} (hl : Linked hash prev none l) (hm : Linked hash prev none m)
    (hinj : ∀ a ∈ l, ∀ b ∈ m, hash a = hash b → a = b) (htip : tip hash none l = tip hash none m) : l = m := by
  induction l using List.reverseRecOn generalizing m with
  | nil => exact (tip_none_eq_none htip.symm).symm
  | append_singleton l a ih =>
    rcases List.eq_nil_or_concat' m with rfl | ⟨m, b, rfl⟩
    · rw [tip_snoc, tip_nil] at htip
      cases htip
    · rw [tip_snoc, tip_snoc, Option.some.injEq] at htip
      have hab : a = b := hinj a (by simp) b (by simp) htip
      subst hab
      obtain ⟨hl, hprev⟩ := linked_snoc.mp hl
      obtain ⟨hm, hprev'⟩ := linked_snoc.mp hm
      have hrest : l = m := ih hl hm (fun c hc d hd => hinj c (List.mem_append_left _ hc) d (List.mem_append_left _ hd))
        (hprev.symm.trans hprev')
      rw [hrest]

theorem Behind.trans {store : α → Prop} {h k : η} {a b : α} (hb : Behind hash prev store h b)
    (hk : prev b = some k) (ha : Behind hash prev store k a) : Behind hash prev store h a := by
  induction ha with
  | here ha named => exact hb.back (named ▸ hk) ha
  | back after named ha ih => exact ih.back named ha

/-- The entry that another names comes before it in its chain. -/
theorem Linked.mem_prev {l : List α} {b : α} {k : η} (hl : Linked hash prev none l) (hb : b ∈ l)
    (hk : prev b = some k) : ∃ a ∈ l, hash a = k := by
  induction l using List.reverseRecOn with
  | nil => cases hb
  | append_singleton l c ih =>
    obtain ⟨hrest, hprev⟩ := linked_snoc.mp hl
    rcases List.mem_append.mp hb with hb | hb
    · obtain ⟨a, ha, hak⟩ := ih hrest hb
      exact ⟨a, List.mem_append_left _ ha, hak⟩
    · rw [List.mem_singleton.mp hb, hprev] at hk
      rcases List.eq_nil_or_concat' l with rfl | ⟨l, a, rfl⟩
      · cases hk
      · rw [tip_snoc, Option.some.injEq] at hk
        exact ⟨a, by simp, hk⟩

/-- The entries of a chain are those behind its tip. -/
theorem Linked.mem_iff {store : α → Prop} (hinj : ∀ a b, store a → store b → hash a = hash b → a = b)
    {l : List α} (hl : Linked hash prev none l) (hstore : ∀ a ∈ l, store a) {h : η}
    (htip : tip hash none l = some h) (a : α) : Behind hash prev store h a ↔ a ∈ l := by
  constructor
  · intro ha
    induction ha with
    | here ha named =>
      rcases List.eq_nil_or_concat' l with rfl | ⟨l, b, rfl⟩
      · cases htip
      · rw [tip_snoc, Option.some.injEq] at htip
        rw [hinj _ b ha (hstore b (by simp)) (named.trans htip.symm)]
        simp
    | back after named ha ih =>
      obtain ⟨c, hc, hhash⟩ := hl.mem_prev ih named
      rwa [hinj _ c ha (hstore c hc) hhash.symm]
  · intro ha
    induction l using List.reverseRecOn generalizing h with
    | nil => cases ha
    | append_singleton l b ih =>
      obtain ⟨hrest, hprev⟩ := linked_snoc.mp hl
      rw [tip_snoc, Option.some.injEq] at htip
      have hb : Behind hash prev store h b := .here (hstore b (by simp)) htip
      rcases List.mem_append.mp ha with ha | ha
      · cases hk : tip hash none l with
        | none =>
          rw [tip_none_eq_none hk] at ha
          cases ha
        | some k =>
          exact hb.trans (hprev.trans hk) (ih hrest (fun c hc => hstore c (List.mem_append_left _ hc)) hk ha)
      · rwa [List.mem_singleton.mp ha]

end HashChain
