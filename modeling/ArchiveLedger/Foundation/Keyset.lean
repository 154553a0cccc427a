import Mathlib

/-!
# Keyset pagination

A listing sorted by a key that no two items share is cut into pages; a page is
resumed by selecting the items whose key is greater than that of the last item
handed out, and the head of the sorted list is the item a query with a limit of one
finds.  `filter_sorted` moves a selection through the sort,
`filter_after` says that the items after an item's key are the items after it,
and `collect_eq`: pages fetched one after the other give the whole listing.
-/

namespace Keyset

section Sorting

variable {α κ : Type} [LinearOrder κ] (key : α → κ)

def sorted (l : List α) : List α := l.insertionSort fun a b => key a ≤ key b

theorem perm_sorted (l : List α) : List.Perm (sorted key l) l := List.perm_insertionSort _ l

theorem mem_sorted {l : List α} {a : α} : a ∈ sorted key l ↔ a ∈ l := (perm_sorted key l).mem_iff

theorem length_sorted (l : List α) : (sorted key l).length = l.length := (perm_sorted key l).length_eq

theorem pairwise_sorted (l : List α) : (sorted key l).Pairwise fun a b => key a ≤ key b := by
  have : Std.Total fun a b : α => key a ≤ key b := ⟨fun a b => le_total (key a) (key b)⟩
  have : IsTrans α fun a b => key a ≤ key b := ⟨fun _ _ _ => le_trans⟩
  exact List.pairwise_insertionSort _ l

variable {key}

theorem head?_sorted_eq_none {l : List α} : (sorted key l).head? = none ↔ l = [] := by
  rw [List.head?_eq_none_iff, ← List.length_eq_zero_iff, length_sorted, List.length_eq_zero_iff]

theorem mem_of_head?_sorted {l : List α} {a : α} (h : (sorted key l).head? = some a) : a ∈ l :=
  (mem_sorted key).mp (List.mem_of_mem_head? h)

/-- With keys all different the order is strict. -/
theorem strict_sorted {l : List α} (h : (l.map key).Nodup) :
    (sorted key l).Pairwise fun a b => key a < key b := by
  have hne : (sorted key l).Pairwise fun a b => key a ≠ key b :=
    List.pairwise_map.mp (((perm_sorted key l).map key).nodup_iff.mpr h)
  exact (pairwise_sorted key l).imp₂ (fun _ _ hle hne => lt_of_le_of_ne hle hne) hne

/-- Keys that order the items alike sort them alike. -/
theorem sorted_congr {μ : Type} [LinearOrder μ] {other : α → μ} {l : List α}
    (h : ∀ a ∈ l, ∀ b ∈ l, key a ≤ key b ↔ other a ≤ other b) : sorted key l = sorted other l := by
  have hmap := List.map_insertionSort (fun a b => key a ≤ key b) (fun a b => other a ≤ other b) id l h
  rwa [List.map_id, List.map_id] at hmap

/-- Selecting and sorting commute. -/
theorem filter_sorted {l : List α} (h : (l.map key).Nodup) (p : α → Bool) :
    (sorted key l).filter p = sorted key (l.filter p) := by
  have hp : List.Perm ((sorted key l).filter p) (sorted key (l.filter p)) :=
    ((perm_sorted key l).filter p).trans (perm_sorted key _).symm
  refine List.Perm.eq_of_pairwise ?_ ((strict_sorted h).filter p)
    (strict_sorted (h.sublist (List.filter_sublist.map key))) hp
  intro a b _ _ hab hba
  exact absurd (hab.trans hba) (lt_irrefl _)

/-- In a strictly sorted list the items after an item's key are those that follow it. -/
theorem filter_after {xs ys : List α} {x : α}
    (h : (xs ++ x :: ys).Pairwise fun a b => key a < key b) :
    (xs ++ x :: ys).filter (fun a => key x < key a) = ys := by
  obtain ⟨_, hright, hcross⟩ := List.pairwise_append.mp h
  have hxs : xs.filter (fun a => decide (key x < key a)) = [] := by
    rw [List.filter_eq_nil_iff]
    intro a ha
    simpa using (hcross a ha x List.mem_cons_self).le
  have hys : ys.filter (fun a => decide (key x < key a)) = ys := by
    rw [List.filter_eq_self]
    intro a ha
    simpa using (List.pairwise_cons.mp hright).1 a ha
  rw [List.filter_append, hxs, List.nil_append, List.filter_cons, if_neg (by simp), hys]

end Sorting

/-! ### Fetching all pages -/

section Pages

variable {α τ : Type}

/-- Fetch pages until one has no continuation, at most `fuel` of them. -/
def collect (fetch : Option τ → Option (List α × Option τ)) : Nat → Option τ → Option (List α)
  | 0, _ => none
  | fuel + 1, token =>
      match fetch token with
      | none => none
      | some (items, none) => some items
      | some (items, some next) => (collect fetch fuel (some next)).map (items ++ ·)

/-- The position a page starts at: the front, or a multiple of the page size that
is not past the end. -/
def Starts (n total i : Nat) : Prop := i = 0 ∨ n ∣ i ∧ 0 < i ∧ i < total

theorem Starts.next {n total i : Nat} (hn : 0 < n) (h : Starts n total i) (hlt : i + n < total) :
    Starts n total (i + n) := by
  refine Or.inr ⟨?_, by omega, hlt⟩
  rcases h with rfl | ⟨hd, -⟩
  · simp
  · exact Nat.dvd_add hd (Nat.dvd_refl n)

/-- When every page holds the next `n` items and continues exactly while items are
left, the pages together are the listing. -/
theorem collect_eq (fetch : Option τ → Option (List α × Option τ)) (xs : List α) {n : Nat}
    (hn : 0 < n) (token : Nat → τ)
    (hfetch : ∀ i, Starts n xs.length i →
      fetch (if i = 0 then none else some (token i)) =
        some ((xs.drop i).take n, if i + n < xs.length then some (token (i + n)) else none)) :
    collect fetch (xs.length + 1) none = some xs := by
  -- the page at `i` and all after it, by induction on the pages allowed
  have hrest : ∀ fuel i, Starts n xs.length i → xs.length < i + fuel →
      collect fetch fuel (if i = 0 then none else some (token i)) = some (xs.drop i) := by
    intro fuel
    induction fuel with
    | zero =>
      intro i hi hlt
      rcases hi with rfl | ⟨_, _, hi⟩ <;> omega
    | succ fuel ih =>
      intro i hi hlt
      rw [collect, hfetch i hi]
      by_cases hmore : i + n < xs.length
      · have hnext := ih (i + n) (hi.next hn hmore) (by omega)
        rw [if_neg (by omega)] at hnext
        simp only [hmore, if_true, hnext, Option.map_some]
        rw [← List.drop_drop, List.take_append_drop]
      · simp only [hmore, if_false]
        rw [List.take_of_length_le]
        rw [List.length_drop]
        omega
  have := hrest (xs.length + 1) 0 (Or.inl rfl) (by omega)
  simpa using this

end Pages

end Keyset
