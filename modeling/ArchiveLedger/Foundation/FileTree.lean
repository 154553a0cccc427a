import Mathlib

/-!
# Directory trees and pruned walks

A `Listing` is what a directory lists, in order: entries, and directories with listings of
their own.  `entries` places every entry of a tree at its path, with the directories above it;
`visited` are those a walk comes to that enters only some directories, and `reached` the
directories it comes to.  A walk keeps the order (`visited_sublist`), and an entry that it does not
visit is below a reached directory that is not entered (`visited_or_blocked`).
Where names are distinct in every directory, paths are distinct
(`paths_nodup`).
-/

namespace FileTree

inductive Listing (ν δ φ : Type)
  | nil
  | entry (name : ν) (a : φ) (rest : Listing ν δ φ)
  | directory (name : ν) (d : δ) (children rest : Listing ν δ φ)

/-- A directory at its path. -/
abbrev Above (ν δ : Type) := List ν × δ

/-- An entry at its path, with the directories above it, the outermost first. -/
structure Placed (ν δ φ : Type) where
  path : List ν
  above : List (Above ν δ)
  entry : φ

variable {ν δ φ : Type}

namespace Listing

def names : Listing ν δ φ → List ν
  | nil => []
  | entry name _ rest => name :: rest.names
  | directory name _ _ rest => name :: rest.names

/-- The names of every directory satisfy a predicate and are distinct. -/
def Proper (good : ν → Prop) : Listing ν δ φ → Prop
  | nil => True
  | entry name _ rest => good name ∧ name ∉ rest.names ∧ rest.Proper good
  | directory name _ children rest =>
      good name ∧ name ∉ rest.names ∧ children.Proper good ∧ rest.Proper good

def entries (base : List ν) (above : List (Above ν δ)) : Listing ν δ φ → List (Placed ν δ φ)
  | nil => []
  | entry name a rest => ⟨base ++ [name], above, a⟩ :: rest.entries base above
  | directory name d children rest =>
      children.entries (base ++ [name]) (above ++ [(base ++ [name], d)]) ++ rest.entries base above

variable (enter : List ν → δ → Bool)

def visited (base : List ν) (above : List (Above ν δ)) : Listing ν δ φ → List (Placed ν δ φ)
  | nil => []
  | entry name a rest => ⟨base ++ [name], above, a⟩ :: rest.visited base above
  | directory name d children rest =>
      (if enter (base ++ [name]) d then
        children.visited (base ++ [name]) (above ++ [(base ++ [name], d)]) else []) ++
        rest.visited base above

def reached (base : List ν) : Listing ν δ φ → List (Above ν δ)
  | nil => []
  | entry _ _ rest => rest.reached base
  | directory name d children rest =>
      (base ++ [name], d) :: ((if enter (base ++ [name]) d then children.reached (base ++ [name]) else []) ++
        rest.reached base)

end Listing

open Listing

/-! ### Paths -/

/-- The path of an entry goes on from where the listing stands. -/
theorem path_of_mem {p : Placed ν δ φ} {l : Listing ν δ φ} {base : List ν} {above : List (Above ν δ)}
    (h : p ∈ l.entries base above) : ∃ name ∈ l.names, ∃ more, p.path = base ++ name :: more := by
  induction l generalizing base above with
  | nil => cases h
  | entry name a rest ih =>
    rcases List.mem_cons.mp h with rfl | h
    · exact ⟨name, List.mem_cons_self, [], rfl⟩
    · obtain ⟨name', hname, more, hpath⟩ := ih h
      exact ⟨name', List.mem_cons_of_mem _ hname, more, hpath⟩
  | directory name d children rest ihc ihr =>
    rcases List.mem_append.mp h with h | h
    · obtain ⟨name', -, more, hpath⟩ := ihc h
      refine ⟨name, List.mem_cons_self, name' :: more, ?_⟩
      rw [hpath, List.append_assoc, List.singleton_append]
    · obtain ⟨name', hname, more, hpath⟩ := ihr h
      exact ⟨name', List.mem_cons_of_mem _ hname, more, hpath⟩

/-- Every component of a path is a name of some directory. -/
theorem good_of_mem {good : ν → Prop} {p : Placed ν δ φ} {l : Listing ν δ φ} {base : List ν}
    {above : List (Above ν δ)} (hl : l.Proper good) (hbase : ∀ name ∈ base, good name)
    (h : p ∈ l.entries base above) : ∀ name ∈ p.path, good name := by
  induction l generalizing base above with
  | nil => cases h
  | entry name a rest ih =>
    rcases List.mem_cons.mp h with rfl | h
    · intro name' hname
      rcases List.mem_append.mp hname with hname | hname
      · exact hbase name' hname
      · rw [List.mem_singleton.mp hname]
        exact hl.1
    · exact ih hl.2.2 hbase h
  | directory name d children rest ihc ihr =>
    rcases List.mem_append.mp h with h | h
    · refine ihc hl.2.2.1 ?_ h
      intro name' hname
      rcases List.mem_append.mp hname with hname | hname
      · exact hbase name' hname
      · rw [List.mem_singleton.mp hname]
        exact hl.1
    · exact ihr hl.2.2.2 hbase h

theorem append_ne_of_ne {base more more' : List ν} {name name' : ν} (h : name ≠ name') :
    base ++ name :: more ≠ base ++ name' :: more' := by
  intro he
  exact h (List.cons.inj (List.append_cancel_left he)).1

theorem paths_nodup {good : ν → Prop} {l : Listing ν δ φ} (hl : l.Proper good) (base : List ν)
    (above : List (Above ν δ)) : ((l.entries base above).map Placed.path).Nodup := by
  induction l generalizing base above with
  | nil => exact List.nodup_nil
  | entry name a rest ih =>
    rw [Listing.entries, List.map_cons, List.nodup_cons]
    refine ⟨?_, ih hl.2.2 base above⟩
    intro hmem
    obtain ⟨p, hp, hpath⟩ := List.mem_map.mp hmem
    obtain ⟨name', hname, more, hmore⟩ := path_of_mem hp
    have hne : name ≠ name' := by
      rintro rfl
      exact hl.2.1 hname
    exact append_ne_of_ne hne (hpath.symm.trans hmore)
  | directory name d children rest ihc ihr =>
    rw [Listing.entries, List.map_append, List.nodup_append]
    refine ⟨ihc hl.2.2.1 _ _, ihr hl.2.2.2 base above, ?_⟩
    intro path hpath path' hpath' he
    obtain ⟨p, hp, rfl⟩ := List.mem_map.mp hpath
    obtain ⟨p', hp', rfl⟩ := List.mem_map.mp hpath'
    obtain ⟨inner, -, more, hmore⟩ := path_of_mem hp
    obtain ⟨name', hname, more', hmore'⟩ := path_of_mem hp'
    rw [hmore, hmore', List.append_assoc, List.singleton_append] at he
    have hne : name ≠ name' := by
      rintro rfl
      exact hl.2.1 hname
    exact append_ne_of_ne hne he

/-! ### Walks -/

variable {enter : List ν → δ → Bool}

theorem visited_sublist (l : Listing ν δ φ) (base : List ν) (above : List (Above ν δ)) :
    (l.visited enter base above).Sublist (l.entries base above) := by
  induction l generalizing base above with
  | nil => exact List.Sublist.refl _
  | entry name a rest ih => exact (ih base above).cons_cons _
  | directory name d children rest ihc ihr =>
    refine List.Sublist.append ?_ (ihr base above)
    split
    · exact ihc _ _
    · exact List.nil_sublist _

/-- The directories above an entry begin with those above its listing. -/
theorem above_of_mem {p : Placed ν δ φ} {l : Listing ν δ φ} {base : List ν} {above : List (Above ν δ)}
    (h : p ∈ l.entries base above) : ∃ more, p.above = above ++ more := by
  induction l generalizing base above with
  | nil => cases h
  | entry name a rest ih =>
    rcases List.mem_cons.mp h with rfl | h
    · exact ⟨[], (List.append_nil _).symm⟩
    · exact ih h
  | directory name d children rest ihc ihr =>
    rcases List.mem_append.mp h with h | h
    · obtain ⟨more, hmore⟩ := ihc h
      exact ⟨(base ++ [name], d) :: more, by rw [hmore, List.append_assoc, List.singleton_append]⟩
    · exact ihr h

/-- The directories above an entry are at beginnings of its path. -/
theorem above_isPrefix {p : Placed ν δ φ} {l : Listing ν δ φ} {base : List ν}
    {above : List (Above ν δ)} (habove : ∀ x ∈ above, x.1 <+: base) (h : p ∈ l.entries base above) :
    base <+: p.path ∧ ∀ x ∈ p.above, x.1 <+: p.path := by
  induction l generalizing base above with
  | nil => cases h
  | entry name a rest ih =>
    rcases List.mem_cons.mp h with rfl | h
    · exact ⟨List.prefix_append _ _, fun x hx => (habove x hx).trans (List.prefix_append _ _)⟩
    · exact ih habove h
  | directory name d children rest ihc ihr =>
    rcases List.mem_append.mp h with h | h
    · have hinner : ∀ x ∈ above ++ [(base ++ [name], d)], x.1 <+: base ++ [name] := by
        intro x hx
        rcases List.mem_append.mp hx with hx | hx
        · exact (habove x hx).trans (List.prefix_append _ _)
        · rw [List.mem_singleton.mp hx]
      obtain ⟨hbase, hall⟩ := ihc hinner h
      exact ⟨(List.prefix_append _ _).trans hbase, hall⟩
    · exact ihr habove h

/-- An entry is visited, or a directory above it is reached and not entered. -/
theorem visited_or_blocked {p : Placed ν δ φ} {l : Listing ν δ φ} {base : List ν}
    {above : List (Above ν δ)} (h : p ∈ l.entries base above) :
    p ∈ l.visited enter base above ∨
      ∃ x ∈ p.above, x ∈ l.reached enter base ∧ enter x.1 x.2 = false := by
  induction l generalizing base above with
  | nil => cases h
  | entry name a rest ih =>
    rcases List.mem_cons.mp h with rfl | h
    · exact Or.inl List.mem_cons_self
    · rcases ih h with hin | hout
      · exact Or.inl (List.mem_cons_of_mem _ hin)
      · exact Or.inr hout
  | directory name d children rest ihc ihr =>
    rcases List.mem_append.mp h with h | h
    · by_cases henter : enter (base ++ [name]) d = true
      · rcases ihc h with hin | ⟨x, hx, hreached, hnot⟩
        · left
          rw [Listing.visited, if_pos henter]
          exact List.mem_append_left _ hin
        · right
          refine ⟨x, hx, ?_, hnot⟩
          rw [Listing.reached, if_pos henter]
          exact List.mem_cons_of_mem _ (List.mem_append_left _ hreached)
      · obtain ⟨more, hmore⟩ := above_of_mem h
        refine Or.inr ⟨(base ++ [name], d), ?_, List.mem_cons_self, Bool.eq_false_iff.mpr henter⟩
        rw [hmore]
        simp
    · rcases ihr h with hin | ⟨x, hx, hreached, hnot⟩
      · exact Or.inl (List.mem_append_right _ hin)
      · exact Or.inr ⟨x, hx, List.mem_cons_of_mem _ (List.mem_append_right _ hreached), hnot⟩

end FileTree
