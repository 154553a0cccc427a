import Mathlib

/-!
# Requests that take effect once

A memo keeps, besides a state, the request and the outcome it stored under each key.
A request whose key holds the same request replays the outcome, one whose key holds
another is refused, and any other takes effect and is stored (`once`).

A client that submits a list may be interrupted anywhere and start over.  While it is
at some position of the list the state is the one after a single pass over a prefix at
least as long (`Passed`): what it resubmits is replayed, and only what goes past the
prefix takes effect.  So a client that reaches the end leaves the state of one pass
over the list, and was returned the outcomes of that pass (`Passed.onceAll_eq`).
-/

namespace Once

/-- A state, and the request and outcome stored under each key. -/
structure Memo (σ κ ι ο : Type) where
  state : σ
  stored : κ → Option (ι × ο)

variable {σ κ ι ο : Type} [DecidableEq κ] [DecidableEq ι]

section

variable (effect : σ → ι → Option (σ × ο)) (key : ι → Option κ)

/-- The memo after a request took effect. -/
def Memo.store (m : Memo σ κ ι ο) (i : ι) (s : σ) (o : ο) : Memo σ κ ι ο where
  state := s
  stored k := if key i = some k then some (i, o) else m.stored k

/-- One request. -/
def once (m : Memo σ κ ι ο) (i : ι) : Option (Memo σ κ ι ο × ο) :=
  match (key i).bind m.stored with
  | some (j, o) => if j = i then some (m, o) else none
  | none => (effect m.state i).map fun r => (m.store key i r.1 r.2, r.2)

/-- The requests in order, with the outcome of each. -/
def onceAll : Memo σ κ ι ο → List ι → Option (Memo σ κ ι ο × List ο)
  | m, [] => some (m, [])
  | m, i :: is =>
      (once effect key m i).bind fun r => (onceAll r.1 is).map fun q => (q.1, r.2 :: q.2)

/-- The outcome of the request is stored under its key. -/
def Knows (m : Memo σ κ ι ο) (i : ι) (o : ο) : Prop :=
  ∃ k, key i = some k ∧ m.stored k = some (i, o)

/-- The client is past `done` and was returned `outcomes`: the memo is the one after a
pass over a prefix of the list that `done` is a prefix of. -/
def Passed (m₀ : Memo σ κ ι ο) (is done : List ι) (outcomes : List ο) (m : Memo σ κ ι ο) : Prop :=
  ∃ pre os, done <+: pre ∧ pre <+: is ∧ onceAll effect key m₀ pre = some (m, os) ∧
    outcomes = os.take done.length

end

variable {effect : σ → ι → Option (σ × ο)} {key : ι → Option κ}

/-! ### One request -/

theorem once_eq_some {m m' : Memo σ κ ι ο} {i : ι} {o : ο} :
    once effect key m i = some (m', o) ↔
      (Knows key m i o ∧ m' = m) ∨
      ((key i).bind m.stored = none ∧ ∃ s, effect m.state i = some (s, o) ∧ m' = m.store key i s o) := by
  unfold once Knows
  cases hk : (key i).bind m.stored with
  | some r =>
    obtain ⟨j, o'⟩ := r
    obtain ⟨k, hkey, hstored⟩ := Option.bind_eq_some_iff.mp hk
    simp only [reduceCtorEq, false_and, or_false]
    constructor
    · intro h
      split at h
      · rename_i hj
        cases h
        exact ⟨⟨k, hkey, hj ▸ hstored⟩, rfl⟩
      · cases h
    · rintro ⟨⟨k', hkey', hstored'⟩, rfl⟩
      obtain rfl : k = k' := Option.some.inj (hkey.symm.trans hkey')
      rw [hstored, Option.some.injEq, Prod.mk.injEq] at hstored'
      rw [if_pos hstored'.1, hstored'.2]
  | none =>
    have hno : ¬ ∃ k, key i = some k ∧ m.stored k = some (i, o) := by
      rintro ⟨k, hkey, hstored⟩
      rw [hkey, Option.bind_some, hstored] at hk
      cases hk
    simp only [hno, false_and, false_or, true_and, Option.map_eq_some_iff, Prod.mk.injEq]
    constructor
    · rintro ⟨⟨s, o'⟩, heffect, rfl, rfl⟩
      exact ⟨s, heffect, rfl⟩
    · rintro ⟨s, heffect, rfl⟩
      exact ⟨(s, o), heffect, rfl, rfl⟩

/-- A request that is known replays its outcome and nothing else. -/
theorem once_of_knows {m : Memo σ κ ι ο} {i : ι} {o : ο} (h : Knows key m i o) :
    once effect key m i = some (m, o) :=
  once_eq_some.mpr (Or.inl ⟨h, rfl⟩)

/-- A request with a key is known afterwards. -/
theorem knows_of_once {m m' : Memo σ κ ι ο} {i : ι} {o : ο} (hkey : (key i).isSome)
    (h : once effect key m i = some (m', o)) : Knows key m' i o := by
  rcases once_eq_some.mp h with ⟨hknows, rfl⟩ | ⟨-, s, -, rfl⟩
  · exact hknows
  · obtain ⟨k, hk⟩ := Option.isSome_iff_exists.mp hkey
    exact ⟨k, hk, if_pos hk⟩

/-- What is stored stays stored. -/
theorem stored_once {m m' : Memo σ κ ι ο} {j : ι} {o : ο} (h : once effect key m j = some (m', o))
    {k : κ} {r : ι × ο} (hr : m.stored k = some r) : m'.stored k = some r := by
  rcases once_eq_some.mp h with ⟨-, rfl⟩ | ⟨hnone, s, -, rfl⟩
  · exact hr
  · have hne : key j ≠ some k := by
      intro hk
      rw [hk, Option.bind_some, hr] at hnone
      cases hnone
    exact (if_neg hne).trans hr

theorem Knows.once {m m' : Memo σ κ ι ο} {i j : ι} {o o' : ο} (hi : Knows key m i o)
    (h : once effect key m j = some (m', o')) : Knows key m' i o := by
  obtain ⟨k, hk, hstored⟩ := hi
  exact ⟨k, hk, stored_once h hstored⟩

/-! ### Lists of requests -/

theorem onceAll_cons {m m' : Memo σ κ ι ο} {i : ι} {is : List ι} {os : List ο} :
    onceAll effect key m (i :: is) = some (m', os) ↔
      ∃ m₁ o rest, once effect key m i = some (m₁, o) ∧ onceAll effect key m₁ is = some (m', rest) ∧
        os = o :: rest := by
  rw [onceAll, Option.bind_eq_some_iff]
  constructor
  · rintro ⟨⟨m₁, o⟩, hfirst, h⟩
    obtain ⟨⟨m₂, rest⟩, hrest, h⟩ := Option.map_eq_some_iff.mp h
    cases h
    exact ⟨m₁, o, rest, hfirst, hrest, rfl⟩
  · rintro ⟨m₁, o, rest, hfirst, hrest, rfl⟩
    refine ⟨(m₁, o), hfirst, ?_⟩
    rw [hrest]
    rfl

theorem onceAll_append {m m' : Memo σ κ ι ο} {is js : List ι} {os : List ο} :
    onceAll effect key m (is ++ js) = some (m', os) ↔
      ∃ m₁ first rest, onceAll effect key m is = some (m₁, first) ∧
        onceAll effect key m₁ js = some (m', rest) ∧ os = first ++ rest := by
  induction is generalizing m os with
  | nil => simp [onceAll]
  | cons i is ih =>
    rw [List.cons_append, onceAll_cons]
    constructor
    · rintro ⟨m₁, o, more, hi, hmore, rfl⟩
      obtain ⟨m₂, first, rest, hfirst, hrest, rfl⟩ := ih.mp hmore
      exact ⟨m₂, o :: first, rest, onceAll_cons.mpr ⟨m₁, o, first, hi, hfirst, rfl⟩, hrest, rfl⟩
    · rintro ⟨m₂, first, rest, hfirst, hrest, rfl⟩
      obtain ⟨m₁, o, more, hi, hmore, rfl⟩ := onceAll_cons.mp hfirst
      exact ⟨m₁, o, more ++ rest, hi, ih.mpr ⟨m₂, more, rest, hmore, hrest, rfl⟩, rfl⟩

theorem onceAll_concat {m m₁ m' : Memo σ κ ι ο} {is : List ι} {i : ι} {os : List ο} {o : ο}
    (h : onceAll effect key m is = some (m₁, os)) (hi : once effect key m₁ i = some (m', o)) :
    onceAll effect key m (is ++ [i]) = some (m', os ++ [o]) :=
  onceAll_append.mpr ⟨m₁, os, [o], h, onceAll_cons.mpr ⟨m', o, [], hi, rfl, rfl⟩, rfl⟩

theorem length_onceAll {m m' : Memo σ κ ι ο} {is : List ι} {os : List ο}
    (h : onceAll effect key m is = some (m', os)) : os.length = is.length := by
  induction is generalizing m os with
  | nil => cases h; rfl
  | cons i is ih =>
    obtain ⟨m₁, o, rest, -, hrest, rfl⟩ := onceAll_cons.mp h
    rw [List.length_cons, List.length_cons, ih hrest]

theorem Knows.onceAll {m m' : Memo σ κ ι ο} {i : ι} {o : ο} {is : List ι} {os : List ο}
    (hi : Knows key m i o) (h : onceAll effect key m is = some (m', os)) : Knows key m' i o := by
  induction is generalizing m os with
  | nil => cases h; exact hi
  | cons j is ih =>
    obtain ⟨m₁, o', rest, hj, hrest, rfl⟩ := onceAll_cons.mp h
    exact ih (hi.once hj) hrest

/-! ### Interrupted passes -/

theorem passed_start (m : Memo σ κ ι ο) (is : List ι) : Passed effect key m is [] [] m :=
  ⟨[], [], List.prefix_refl [], List.nil_prefix, rfl, rfl⟩

/-- The client starts over. -/
theorem Passed.restart {m₀ m : Memo σ κ ι ο} {is done : List ι} {outcomes : List ο}
    (h : Passed effect key m₀ is done outcomes m) : Passed effect key m₀ is [] [] m := by
  obtain ⟨pre, os, -, hpre, hpass, -⟩ := h
  exact ⟨pre, os, List.nil_prefix, hpre, hpass, rfl⟩

/-- The client submits the next request: a replay, or the next request of the pass. -/
theorem Passed.once {m₀ m m' : Memo σ κ ι ο} {is done : List ι} {outcomes : List ο} {i : ι} {o : ο}
    (hkeys : ∀ i ∈ is, (key i).isSome) (h : Passed effect key m₀ is done outcomes m)
    (hnext : done ++ [i] <+: is) (hi : once effect key m i = some (m', o)) :
    Passed effect key m₀ is (done ++ [i]) (outcomes ++ [o]) m' := by
  obtain ⟨pre, os, hdone, hpre, hpass, rfl⟩ := h
  have hlength := length_onceAll hpass
  by_cases hle : pre.length ≤ done.length
  · -- the client is where the pass is
    obtain rfl : done = pre := hdone.eq_of_length_le hle
    refine ⟨done ++ [i], os ++ [o], List.prefix_refl _, hnext, onceAll_concat hpass hi, ?_⟩
    rw [List.take_of_length_le (by omega), List.take_of_length_le (by simp [hlength])]
  · -- the pass was here before, so the request is known
    have hknown : done ++ [i] <+: pre :=
      List.prefix_of_prefix_length_le hnext hpre (by simp; omega)
    obtain ⟨rest, rfl⟩ := hknown
    rw [List.append_assoc] at hpass
    obtain ⟨m₁, first, more, hfirst, hmore, rfl⟩ := onceAll_append.mp hpass
    obtain ⟨m₂, o', later, ho', hlater, rfl⟩ := onceAll_cons.mp hmore
    have hkey : (key i).isSome := hkeys i (hnext.subset (by simp))
    have hknows : Knows key m i o' := (knows_of_once hkey ho').onceAll hlater
    rw [once_of_knows hknows, Option.some.injEq, Prod.mk.injEq] at hi
    obtain ⟨rfl, rfl⟩ := hi
    have hlength' := length_onceAll hfirst
    refine ⟨done ++ [i] ++ rest, first ++ o' :: later, List.prefix_append _ _, hpre, ?_, ?_⟩
    · rw [List.append_assoc]
      exact hpass
    · rw [← hlength', List.take_left, List.length_append, ← hlength', List.take_length_add_append]
      rfl

/-- **At the end of the list the memo is the one after a single pass.** -/
theorem Passed.onceAll_eq {m₀ m : Memo σ κ ι ο} {is : List ι} {outcomes : List ο}
    (h : Passed effect key m₀ is is outcomes m) :
    Once.onceAll effect key m₀ is = some (m, outcomes) := by
  obtain ⟨pre, os, hdone, hpre, hpass, rfl⟩ := h
  obtain rfl : is = pre := hdone.eq_of_length_le hpre.length_le
  rw [hpass, List.take_of_length_le (Nat.le_of_eq (length_onceAll hpass))]

end Once
