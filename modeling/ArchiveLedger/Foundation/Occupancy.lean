import Mathlib

/-!
# Who occupies a place

Every occupant is put at one place and stays there; it is active or not.  An
observation of an occupant at a place makes all others that are active there inactive.
It need not be at the place of the occupant: then the occupant stays where it is, and
becomes active there.

`Recent` says that whoever is active at a place is the one observed there last.
`recent_observe_iff` and `recent_restate_iff` say exactly when a step keeps it.
-/

namespace Occupancy

variable {ι π : Type}

/-- Where each occupant is, and whether it is active. -/
abbrev Seating (ι π : Type) := ι → Option (π × Bool)

section

variable [DecidableEq π]

/-- The occupant observed at a place last. -/
def lastAt (log : List (π × ι)) (place : π) : Option ι :=
  (log.filter fun o => o.1 = place).getLast?.map Prod.snd

theorem lastAt_snoc (log : List (π × ι)) (o : π × ι) (place : π) :
    lastAt (log ++ [o]) place = if o.1 = place then some o.2 else lastAt log place := by
  unfold lastAt
  rw [List.filter_append]
  by_cases h : o.1 = place <;> simp [h]

/-- Whoever is active at a place was observed there last. -/
def Recent (s : Seating ι π) (log : List (π × ι)) : Prop :=
  ∀ id place, s id = some (place, true) → lastAt log place = some id

/-- An observation of an occupant at a place, which leaves it active or not. -/
structure Observed (s : Seating ι π) (place : π) (id : ι) (active : Bool) (t : Seating ι π) : Prop where
  self : t id = some (((s id).map Prod.fst).getD place, active)
  others : ∀ j, j ≠ id → t j = if s j = some (place, true) then some (place, false) else s j

/-- The seating after an occupant was observed at a place and is active. -/
def seat [DecidableEq ι] (s : Seating ι π) (o : π × ι) : Seating ι π := fun j =>
  if j = o.2 then some (((s o.2).map Prod.fst).getD o.1, true)
  else if s j = some (o.1, true) then some (o.1, false) else s j

theorem Observed.eq_seat [DecidableEq ι] {s t : Seating ι π} {o : π × ι} (h : Observed s o.1 o.2 true t) :
    t = seat s o := by
  funext j
  unfold seat
  split
  · rename_i hj
    rw [hj]
    exact h.self
  · rename_i hj
    exact h.others j hj

/-- Every place of the seating is one of before, or the one of the observation. -/
theorem seat_places [DecidableEq ι] {s : Seating ι π} {o : π × ι} {Q : π → Prop}
    (hs : ∀ id place active, s id = some (place, active) → Q place) (ho : Q o.1) :
    ∀ id place active, seat s o id = some (place, active) → Q place := by
  intro id place active h
  unfold seat at h
  split at h
  · cases hid : s o.2 with
    | none =>
      rw [hid] at h
      cases h
      exact ho
    | some x =>
      rw [hid] at h
      cases h
      exact hs o.2 _ x.2 hid
  · split at h
    · cases h
      exact ho
    · exact hs id place active h

theorem foldl_seat_places [DecidableEq ι] {s : Seating ι π} {log : List (π × ι)} {Q : π → Prop}
    (hs : ∀ id place active, s id = some (place, active) → Q place) (hlog : ∀ o ∈ log, Q o.1) :
    ∀ id place active, log.foldl seat s id = some (place, active) → Q place := by
  induction log generalizing s with
  | nil => exact hs
  | cons o log ih =>
    exact ih (seat_places hs (hlog o List.mem_cons_self)) fun x hx => hlog x (List.mem_cons_of_mem _ hx)

/-- The occupant is observed away from its place, where another is active. -/
def Crowded (s : Seating ι π) (o : π × ι) : Prop :=
  ∃ place active id, s o.2 = some (place, active) ∧ place ≠ o.1 ∧ id ≠ o.2 ∧ s id = some (place, true)

/-- No observation of a log finds its occupant's place taken. -/
def Roomy [DecidableEq ι] : Seating ι π → List (π × ι) → Prop
  | _, [] => True
  | s, o :: log => ¬ Crowded s o ∧ Roomy (seat s o) log

theorem roomy_append [DecidableEq ι] {s : Seating ι π} {log log' : List (π × ι)} :
    Roomy s (log ++ log') ↔ Roomy s log ∧ Roomy (log.foldl seat s) log' := by
  induction log generalizing s with
  | nil => simp [Roomy]
  | cons o log ih => simp only [List.cons_append, Roomy, List.foldl_cons, ih, and_assoc]

/-- Occupants that are always observed at one place find it. -/
theorem roomy_of_placed [DecidableEq ι] {s : Seating ι π} {log : List (π × ι)}
    (hs : ∀ o ∈ log, ∀ place active, s o.2 = some (place, active) → place = o.1)
    (hlog : ∀ x ∈ log, ∀ y ∈ log, x.2 = y.2 → x.1 = y.1) : Roomy s log := by
  induction log generalizing s with
  | nil => exact trivial
  | cons o log ih =>
    have ho := hs o List.mem_cons_self
    refine ⟨?_, ih ?_ fun x hx y hy => hlog x (List.mem_cons_of_mem _ hx) y (List.mem_cons_of_mem _ hy)⟩
    · rintro ⟨place, active, id, hself, hne, -, -⟩
      exact hne (ho place active hself)
    · intro x hx place active hseat
      have hx' := hs x (List.mem_cons_of_mem _ hx)
      unfold seat at hseat
      split at hseat
      · rename_i hid
        have hplace : ((s o.2).map Prod.fst).getD o.1 = place := (Prod.ext_iff.mp (Option.some.inj hseat)).1
        have hsame : x.1 = o.1 := hlog x (List.mem_cons_of_mem _ hx) o List.mem_cons_self hid
        rw [← hplace, hsame]
        cases hself : s o.2 with
        | none => rfl
        | some seated => exact ho seated.1 seated.2 hself
      · split at hseat
        · rename_i htaken
          cases hseat
          exact hx' o.1 true htaken
        · exact hx' place active hseat

/-- Occupants become active where they are. -/
def Restated (s : Seating ι π) (ids : ι → Prop) (t : Seating ι π) : Prop :=
  ∀ j, (ids j → t j = (s j).map fun x => (x.1, true)) ∧ (¬ ids j → t j = s j)

/-- An observation keeps the last ones active, unless it makes an occupant active at
another place than the one it was observed at last. -/
theorem recent_observe_iff {s t : Seating ι π} {log : List (π × ι)} {place : π} {id : ι} {active : Bool}
    (hs : Recent s log) (h : Observed s place id active t) :
    Recent t (log ++ [(place, id)]) ↔ (active = true → ∀ p, s id = some (p, false) →
      p = place ∨ lastAt log p = some id) := by
  constructor
  · intro ht hactive p hp
    have hself := h.self
    rw [hp, hactive] at hself
    have hlast := ht id p hself
    rw [lastAt_snoc] at hlast
    by_cases he : place = p
    · exact Or.inl he.symm
    · rw [if_neg he] at hlast
      exact Or.inr hlast
  · intro hkept j p hj
    rw [lastAt_snoc]
    by_cases hid : j = id
    · subst hid
      rw [h.self] at hj
      obtain ⟨hp, hactive⟩ := Prod.ext_iff.mp (Option.some.inj hj)
      simp only at hp hactive
      subst hp
      cases hs' : s j with
      | none => exact if_pos rfl
      | some x =>
        obtain ⟨p, b⟩ := x
        show (if place = p then some j else lastAt log p) = some j
        by_cases he : place = p
        · exact if_pos he
        · rw [if_neg he]
          cases b with
          | true => exact hs j p hs'
          | false => exact (hkept hactive p hs').resolve_left fun e => he e.symm
    · rw [h.others j hid] at hj
      by_cases hat : s j = some (place, true)
      · rw [if_pos hat] at hj
        cases hj
      · rw [if_neg hat] at hj
        have he : place ≠ p := by
          rintro rfl
          exact hat hj
        rw [if_neg he]
        exact hs j p hj

theorem recent_restate_iff {s t : Seating ι π} {log : List (π × ι)} {ids : ι → Prop}
    (hs : Recent s log) (h : Restated s ids t) :
    Recent t log ↔ ∀ j, ids j → ∀ p, s j = some (p, false) → lastAt log p = some j := by
  constructor
  · intro ht j hj p hp
    refine ht j p ?_
    rw [(h j).1 hj, hp]
    rfl
  · intro hkept j p hj
    by_cases hids : ids j
    · rw [(h j).1 hids] at hj
      obtain ⟨⟨p', b⟩, hp, he⟩ := Option.map_eq_some_iff.mp hj
      obtain rfl : p' = p := (Prod.ext_iff.mp he).1
      cases b with
      | true => exact hs j p' hp
      | false => exact hkept j hids p' hp
    · rw [(h j).2 hids] at hj
      exact hs j p hj

end

end Occupancy
