import Mathlib

/-!
# Lines

A text of lines that end with a separator, and what stands after the last separator.  `cut` takes a text
apart and `join` writes lines one after the other; each undoes the other (`join_cut`, `cut_join`).
-/

namespace Lines

variable {α : Type} [DecidableEq α] (sep : α)

/-- The lines of a text without their separators, and the rest. -/
def cut : List α → List (List α) × List α
  | [] => ([], [])
  | b :: text =>
      if b = sep then ([] :: (cut text).1, (cut text).2)
      else
        match (cut text).1 with
        | [] => ([], b :: (cut text).2)
        | line :: lines => ((b :: line) :: lines, (cut text).2)

omit [DecidableEq α] in
/-- The text of lines that all end. -/
def join (lines : List (List α)) : List α := lines.flatMap fun line => line ++ [sep]

omit [DecidableEq α]

@[simp] theorem join_nil : join sep [] = [] := rfl

@[simp] theorem join_cons (line : List α) (lines : List (List α)) :
    join sep (line :: lines) = line ++ sep :: join sep lines := by
  simp [join]

@[simp] theorem join_append (lines more : List (List α)) : join sep (lines ++ more) = join sep lines ++ join sep more := by
  simp [join]

theorem length_le_join (lines : List (List α)) : lines.length ≤ (join sep lines).length := by
  induction lines with
  | nil => exact le_rfl
  | cons line lines ih =>
    rw [join_cons, List.length_append, List.length_cons, List.length_cons]
    omega

/-- Lines that all end do so with the separator. -/
theorem getLast?_join {lines : List (List α)} (h : lines ≠ []) : (join sep lines).getLast? = some sep := by
  obtain ⟨lines, line, rfl⟩ := (List.eq_nil_or_concat lines).resolve_left h
  rw [List.concat_eq_append, join_append, join_cons, join_nil]
  simp

variable [DecidableEq α]

theorem join_cut (text : List α) : join sep (cut sep text).1 ++ (cut sep text).2 = text := by
  induction text with
  | nil => rfl
  | cons b text ih =>
    rw [cut]
    split
    · rename_i hb
      rw [join_cons, List.nil_append, List.cons_append, ih, hb]
    · cases hlines : (cut sep text).1 with
      | nil =>
        rw [hlines] at ih
        simpa using ih
      | cons line lines =>
        rw [hlines] at ih
        simpa using ih

theorem sep_notMem_cut (text : List α) : (∀ line ∈ (cut sep text).1, sep ∉ line) ∧ sep ∉ (cut sep text).2 := by
  induction text with
  | nil => exact ⟨nofun, nofun⟩
  | cons b text ih =>
    obtain ⟨hlines, hrest⟩ := ih
    rw [cut]
    split
    · refine ⟨fun line hline => ?_, hrest⟩
      rcases List.mem_cons.mp hline with rfl | hline
      · exact List.not_mem_nil
      · exact hlines line hline
    · rename_i hb
      have hne : sep ≠ b := fun h => hb h.symm
      cases hcut : (cut sep text).1 with
      | nil =>
        refine ⟨fun line hline => absurd hline List.not_mem_nil, fun hmem => ?_⟩
        rcases List.mem_cons.mp hmem with h | h
        · exact hne h
        · exact hrest h
      | cons line lines =>
        rw [hcut] at hlines
        refine ⟨fun line' hline' hmem => ?_, hrest⟩
        rcases List.mem_cons.mp hline' with rfl | hline'
        · rcases List.mem_cons.mp hmem with h | h
          · exact hne h
          · exact hlines line List.mem_cons_self h
        · exact hlines line' (List.mem_cons_of_mem _ hline') hmem

variable {sep}

theorem cut_of_notMem {rest : List α} (h : sep ∉ rest) : cut sep rest = ([], rest) := by
  induction rest with
  | nil => rfl
  | cons b rest ih =>
    rw [List.mem_cons, not_or] at h
    rw [cut, if_neg fun hb => h.1 hb.symm, ih h.2]

theorem cut_append_sep {line : List α} (h : sep ∉ line) (text : List α) :
    cut sep (line ++ sep :: text) = (line :: (cut sep text).1, (cut sep text).2) := by
  induction line with
  | nil => rw [List.nil_append, cut, if_pos rfl]
  | cons b line ih =>
    rw [List.mem_cons, not_or] at h
    rw [List.cons_append, cut, if_neg fun hb => h.1 hb.symm, ih h.2]

/-- What is written comes back. -/
theorem cut_join {lines : List (List α)} (hlines : ∀ line ∈ lines, sep ∉ line) {rest : List α} (hrest : sep ∉ rest) :
    cut sep (join sep lines ++ rest) = (lines, rest) := by
  induction lines with
  | nil => exact cut_of_notMem hrest
  | cons line lines ih =>
    rw [join_cons, List.append_assoc, List.cons_append, cut_append_sep (hlines line List.mem_cons_self),
      ih fun other hother => hlines other (List.mem_cons_of_mem _ hother)]

end Lines
