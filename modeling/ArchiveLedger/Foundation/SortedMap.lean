import Mathlib

/-!
# Sorted maps

A list of entries with strictly increasing keys is a map from keys to entries: `look` finds
the entry of a key and `put` sets it.  Two sorted lists with the same entries are equal
(`ext`), so what is built in different orders can be compared key by key.
-/

namespace SortedMap

variable {α κ : Type} [LinearOrder κ] (key : α → κ)

def Strict (l : List α) : Prop := l.Pairwise fun a b => key a < key b

def look (l : List α) (k : κ) : Option α := l.find? fun a => key a = k

/-- Sets the entry of a key. -/
def put : List α → α → List α
  | [], a => [a]
  | b :: l, a =>
      if key a < key b then a :: b :: l
      else if key a = key b then a :: l
      else b :: put l a

variable {key}

@[simp] theorem look_nil (k : κ) : look key ([] : List α) k = none := rfl

theorem look_cons (a : α) (l : List α) (k : κ) :
    look key (a :: l) k = if key a = k then some a else look key l k := by
  unfold look
  by_cases h : key a = k
  · simp [h]
  · simp [h]

theorem look_some {l : List α} {k : κ} {a : α} (h : look key l k = some a) : a ∈ l ∧ key a = k :=
  ⟨List.mem_of_find?_eq_some h, by simpa using List.find?_some h⟩

theorem look_of_mem {l : List α} (hl : Strict key l) {a : α} (ha : a ∈ l) : look key l (key a) = some a := by
  induction l with
  | nil => cases ha
  | cons b l ih =>
    obtain ⟨hb, hl⟩ := List.pairwise_cons.mp hl
    rw [look_cons]
    rcases List.mem_cons.mp ha with rfl | ha
    · rw [if_pos rfl]
    · rw [if_neg (hb a ha).ne, ih hl ha]

theorem look_eq_none {l : List α} {k : κ} : look key l k = none ↔ ∀ a ∈ l, key a ≠ k := by
  unfold look
  rw [List.find?_eq_none]
  exact forall₂_congr fun a _ => by rw [decide_eq_true_iff]

/-- Sorted lists with the same entries are equal. -/
theorem ext {l m : List α} (hl : Strict key l) (hm : Strict key m) (h : ∀ k, look key l k = look key m k) :
    l = m := by
  induction l generalizing m with
  | nil =>
    cases m with
    | nil => rfl
    | cons b m =>
      have := h (key b)
      rw [look_nil, look_cons, if_pos rfl] at this
      cases this
  | cons a l ih =>
    obtain ⟨ha, hl⟩ := List.pairwise_cons.mp hl
    cases m with
    | nil =>
      have := h (key a)
      rw [look_nil, look_cons, if_pos rfl] at this
      cases this
    | cons b m =>
      obtain ⟨hb, htail⟩ := List.pairwise_cons.mp hm
      have hab : a = b := by
        have hka := h (key a)
        have hkb := h (key b)
        rw [look_cons, if_pos rfl, look_cons] at hka
        rw [look_cons, look_cons, if_pos rfl] at hkb
        split at hka
        · exact Option.some.inj hka
        · rename_i hne
          rw [if_neg (Ne.symm hne)] at hkb
          have hlt := hb a (look_some hka.symm).1
          exact absurd (ha b (look_some hkb).1) (lt_asymm hlt)
      subst hab
      have hrest : ∀ k, look key l k = look key m k := by
        intro k
        have hk := h k
        rw [look_cons, look_cons] at hk
        by_cases hak : key a = k
        · subst hak
          rw [look_eq_none.mpr fun c hc => (ha c hc).ne', look_eq_none.mpr fun c hc => (hb c hc).ne']
        · rwa [if_neg hak, if_neg hak] at hk
      rw [ih hl htail hrest]

theorem mem_put {l : List α} {a b : α} (h : b ∈ put key l a) : b = a ∨ b ∈ l := by
  induction l with
  | nil => exact Or.inl (List.mem_singleton.mp h)
  | cons c l ih =>
    rw [put] at h
    split at h
    · exact List.mem_cons.mp h
    · split at h
      · rcases List.mem_cons.mp h with rfl | h
        · exact Or.inl rfl
        · exact Or.inr (List.mem_cons_of_mem _ h)
      · rcases List.mem_cons.mp h with rfl | h
        · exact Or.inr (List.mem_cons_self ..)
        · exact (ih h).imp_right (List.mem_cons_of_mem _)

theorem strict_put {l : List α} (hl : Strict key l) (a : α) : Strict key (put key l a) := by
  induction l with
  | nil => exact List.pairwise_singleton _ _
  | cons b l ih =>
    obtain ⟨hb, hrest⟩ := List.pairwise_cons.mp hl
    rw [put]
    split
    · rename_i hlt
      refine List.pairwise_cons.mpr ⟨List.forall_mem_cons.mpr ⟨hlt, fun c hc => hlt.trans (hb c hc)⟩, hl⟩
    · rename_i hle
      split
      · rename_i heq
        exact List.pairwise_cons.mpr ⟨fun c hc => heq ▸ hb c hc, hrest⟩
      · rename_i hne
        have hlt : key b < key a := lt_of_le_of_ne (not_lt.mp hle) (Ne.symm hne)
        refine List.pairwise_cons.mpr ⟨fun c hc => ?_, ih hrest⟩
        rcases mem_put hc with rfl | hc
        · exact hlt
        · exact hb c hc

theorem look_put {l : List α} (hl : Strict key l) (a : α) (k : κ) :
    look key (put key l a) k = if key a = k then some a else look key l k := by
  induction l with
  | nil => exact look_cons a [] k
  | cons b l ih =>
    obtain ⟨hb, hrest⟩ := List.pairwise_cons.mp hl
    rw [put]
    split
    · exact look_cons a _ k
    · split
      · rename_i heq
        rw [look_cons, look_cons, heq]
        split
        · rfl
        · rfl
      · rename_i hne
        rw [look_cons, ih hrest, look_cons]
        by_cases hk : key b = k
        · subst hk
          rw [if_pos rfl, if_pos rfl, if_neg hne]
        · rw [if_neg hk, if_neg hk]

theorem look_append_of_ne {l : List α} {k : κ} (h : ∀ a ∈ l, key a ≠ k) (m : List α) :
    look key (l ++ m) k = look key m k := by
  induction l with
  | nil => rfl
  | cons a l ih =>
    rw [List.cons_append, look_cons, if_neg (h a List.mem_cons_self)]
    exact ih fun b hb => h b (List.mem_cons_of_mem _ hb)

theorem look_append_some {l : List α} {k : κ} {a : α} (h : look key l k = some a) (m : List α) :
    look key (l ++ m) k = some a := by
  induction l with
  | nil => cases h
  | cons b l ih =>
    rw [List.cons_append, look_cons]
    rw [look_cons] at h
    split
    · rename_i hb
      rwa [if_pos hb] at h
    · rename_i hb
      rw [if_neg hb] at h
      exact ih h

/-- Behind smaller keys. -/
theorem put_append_of_lt {l : List α} {a : α} (h : ∀ b ∈ l, key b < key a) (m : List α) :
    put key (l ++ m) a = l ++ put key m a := by
  induction l with
  | nil => rfl
  | cons b l ih =>
    have hb := h b List.mem_cons_self
    rw [List.cons_append, put, if_neg hb.not_gt, if_neg hb.ne', ih fun c hc => h c (List.mem_cons_of_mem _ hc)]
    rfl

end SortedMap
