import ArchiveLedger.Foundation.Table

/-!
# Queries

The clauses of a query over lists of rows.  A value that may be NULL is an `Option`, and
`same` is the comparison that holds only of values that are there.  `leftJoin` keeps a row that
nothing matches, `scalar` is a subquery used as a value, `groups` the rows of a `GROUP BY` and
`total?` a sum that may overflow.

A join over a key finds at most one row: `filter_same` and `leftJoin_same` turn it into a
lookup.  What is counted or aggregated does not depend on the order of the rows
(`perm_distinct_of_mem_iff`), and a group that is not there counts as one without rows
(`leftJoin_groups`).
-/

namespace Relational

section Clauses

variable {α β κ : Type}

/-- `a = b` holds. -/
def same [DecidableEq α] (a b : Option α) : Bool := a.isSome && decide (a = b)

/-- The rows a left join pairs with one row. -/
def leftJoin (rows : List β) (on : β → Bool) : List (Option β) :=
  match rows.filter on with
  | [] => [none]
  | r :: found => (r :: found).map some

def scalar (rows : List β) : Option β := rows.head?

/-- The groups of a `GROUP BY`, each under its key. -/
def groups [DecidableEq κ] (key : α → κ) (rows : List α) : List (κ × List α) :=
  (rows.map key).dedup.map fun k => (k, rows.filter fun r => key r = k)

/-- A sum that fails above the bound. -/
def total? (bound : Nat) (values : List Nat) : Option Nat :=
  if values.sum ≤ bound then some values.sum else none

variable [DecidableEq α]

theorem same_eq_true {a b : Option α} : same a b = true ↔ ∃ x, a = some x ∧ b = some x := by
  cases a with
  | none => simp [same]
  | some x => simp [same, eq_comm]

theorem same_some_left {x : α} {b : Option α} : same (some x) b = decide (b = some x) := by
  simp [same, eq_comm]

theorem same_some_right {a : Option α} {x : α} : same a (some x) = decide (a = some x) := by
  cases a with
  | none => simp [same]
  | some y => simp [same]

@[simp] theorem same_none {a : Option α} : same a none = false := by
  cases a with
  | none => rfl
  | some y => simp [same]

theorem leftJoin_eq_nil {rows : List β} {on : β → Bool} (h : rows.filter on = []) :
    leftJoin rows on = [none] := by
  rw [leftJoin, h]

theorem leftJoin_eq_singleton {rows : List β} {on : β → Bool} {r : β} (h : rows.filter on = [r]) :
    leftJoin rows on = [some r] := by
  rw [leftJoin, h]
  rfl

/-- A left join that finds at most one row. -/
theorem leftJoin_of_toList {rows : List β} {on : β → Bool} {r : Option β}
    (h : rows.filter on = r.toList) : leftJoin rows on = [r] := by
  cases r with
  | none => exact leftJoin_eq_nil h
  | some r => exact leftJoin_eq_singleton h

theorem leftJoin_map {γ : Type} (rows : List γ) (f : γ → β) (on : β → Bool) :
    leftJoin (rows.map f) on = (leftJoin rows fun r => on (f r)).map (Option.map f) := by
  rw [leftJoin, leftJoin, List.filter_map]
  show (match (rows.filter fun r => on (f r)).map f with | [] => _ | _ :: _ => _) = _
  cases rows.filter fun r => on (f r) with
  | nil => rfl
  | cons r found => simp

omit [DecidableEq α] in
/-- Rows that are selected of the rows a list leads to, when they can be selected before. -/
theorem flatMap_filter_filterMap {γ : Type} {l : List γ} {g : γ → Option α} {p : γ → Bool} {p' : α → Bool}
    {h : γ → β} {h' : α → List β}
    (hl : ∀ c ∈ l, ∃ a, g c = some a ∧ p' a = p c ∧ (p c = true → h' a = [h c])) :
    ((l.filterMap g).filter p').flatMap h' = (l.filter p).map h := by
  induction l with
  | nil => rfl
  | cons c l ih =>
    obtain ⟨a, ha, hp, hrow⟩ := hl c List.mem_cons_self
    have ih := ih fun c hc => hl c (List.mem_cons_of_mem _ hc)
    rw [List.filterMap_cons_some ha]
    by_cases hc : p c = true
    · rw [List.filter_cons_of_pos (hp.trans hc), List.filter_cons_of_pos hc, List.flatMap_cons, List.map_cons,
        hrow hc, ih]
      rfl
    · rw [List.filter_cons_of_neg (by rw [hp]; exact hc), List.filter_cons_of_neg hc, ih]

/-- What stands beside one key in distinct pairs is distinct. -/
theorem nodup_selected [DecidableEq β] (l : List (Option α × β)) (k : Option α) :
    ((l.dedup.filter fun e => same e.1 k).map Prod.snd).Nodup := by
  refine ((List.nodup_dedup l).filter _).map_on fun e he e' he' h => ?_
  have hkey : ∀ e ∈ l.dedup.filter fun e => same e.1 k, e.1 = k := by
    intro e he
    obtain ⟨x, hx, hk⟩ := same_eq_true.mp (List.mem_filter.mp he).2
    exact hx.trans hk.symm
  exact Prod.ext ((hkey e he).trans (hkey e' he').symm) h

end Clauses

/-! ### Joins over a key -/

section Keys

variable {κ ρ : Type} {S : Schema κ ρ} [DecidableEq κ]

theorem filter_same (t : Table S) (k : Option κ) :
    t.rows.filter (fun r => same (some (S.key r)) k) = (k.bind t.get?).toList := by
  cases k with
  | none => simp
  | some k => simpa [same_some_left, eq_comm] using t.filter_key k

theorem filter_toList (p : ρ → Bool) (r : Option ρ) : r.toList.filter p = (r.filter p).toList := by
  cases r with
  | none => rfl
  | some r => by_cases h : p r = true <;> simp [h, Option.filter]

/-- A join over a key with a further condition. -/
theorem filter_same_and (t : Table S) (k : Option κ) (p : ρ → Bool) :
    t.rows.filter (fun r => same (some (S.key r)) k && p r) = ((k.bind t.get?).filter p).toList := by
  rw [← filter_toList, ← filter_same, List.filter_filter]
  exact List.filter_congr fun r _ => Bool.and_comm _ _

theorem leftJoin_same (t : Table S) (k : Option κ) :
    leftJoin t.rows (fun r => same (some (S.key r)) k) = [k.bind t.get?] :=
  leftJoin_of_toList (filter_same t k)

theorem leftJoin_same_and (t : Table S) (k : Option κ) (p : ρ → Bool) :
    leftJoin t.rows (fun r => same (some (S.key r)) k && p r) = [(k.bind t.get?).filter p] :=
  leftJoin_of_toList (filter_same_and t k p)

/-- A column that no two rows share selects at most one row. -/
theorem filter_unique {ν : Type} [DecidableEq ν] {t : Table S} {c : ρ → ν}
    (hunique : ∀ r ∈ t.rows, ∀ s ∈ t.rows, c r = c s → r = s) {r : ρ} (hr : r ∈ t.rows) :
    t.rows.filter (fun s => decide (c s = c r)) = [r] := by
  have hsub : t.rows.filter (fun s => decide (c s = c r)) =
      t.rows.filter fun s => decide (S.key s = S.key r) := by
    refine List.filter_congr fun s hs => ?_
    rw [decide_eq_decide]
    constructor
    · intro h
      rw [hunique s hs r hr h]
    · intro h
      rw [Table.eq_of_key hs hr h]
  rw [hsub, t.filter_key, Table.get?_of_mem hr]
  rfl

/-- A join over a key, written as an equation, with a further condition. -/
theorem filter_key_and (t : Table S) (k : κ) (p : ρ → Bool) :
    t.rows.filter (fun r => decide (S.key r = k) && p r) = ((t.get? k).filter p).toList := by
  rw [← filter_toList, ← t.filter_key, List.filter_filter]
  exact List.filter_congr fun r _ => Bool.and_comm _ _

/-- The same for a column that no two rows share. -/
theorem filter_column {ν : Type} [DecidableEq ν] {t : Table S} {c : ρ → ν}
    (hunique : ∀ r ∈ t.rows, ∀ s ∈ t.rows, c r = c s → r = s) (v : ν) :
    t.rows.filter (fun s => decide (c s = v)) =
      (t.rows.find? fun s => decide (c s = v)).toList := by
  cases h : t.rows.find? (fun s => decide (c s = v)) with
  | none =>
    rw [List.find?_eq_none] at h
    exact List.filter_eq_nil_iff.mpr h
  | some r =>
    have hr : c r = v := by simpa using List.find?_some h
    rw [← hr]
    exact filter_unique hunique (List.mem_of_find?_eq_some h)

theorem filter_column_and {ν : Type} [DecidableEq ν] {t : Table S} {c : ρ → ν}
    (hunique : ∀ r ∈ t.rows, ∀ s ∈ t.rows, c r = c s → r = s) (v : ν) (p : ρ → Bool) :
    t.rows.filter (fun s => decide (c s = v) && p s) =
      ((t.rows.find? fun s => decide (c s = v)).filter p).toList := by
  rw [← filter_toList, ← filter_column hunique, List.filter_filter]
  exact List.filter_congr fun s _ => Bool.and_comm _ _

end Keys

/-! ### Rows whose order does not count -/

section Bags

variable {α β κ : Type}

/-- Lists without repetition that hold the same are the same bag. -/
theorem perm_distinct_of_mem_iff {l m : List α} (hl : l.Nodup) (hm : m.Nodup)
    (h : ∀ a, a ∈ l ↔ a ∈ m) : List.Perm l m :=
  (List.perm_ext_iff_of_nodup hl hm).mpr h

theorem length_dedup_perm [DecidableEq α] {l m : List α} (h : List.Perm l m) :
    l.dedup.length = m.dedup.length := (h.dedup).length_eq

theorem any_perm {l m : List α} (h : List.Perm l m) (p : α → Bool) : l.any p = m.any p := by
  rw [Bool.eq_iff_iff, List.any_eq_true, List.any_eq_true]
  exact exists_congr fun a => and_congr_left fun _ => h.mem_iff

/-- What is selected by the key of pairs, of rows that are made from the other half. -/
theorem filter_filterMap_fst {γ : Type} (l : List (κ × α)) (g : α → Option γ) (p : κ → Bool) :
    ((l.filterMap fun e => (g e.2).map fun r => (e.1, r)).filter fun r => p r.1).map Prod.snd =
      ((l.filter fun e => p e.1).map Prod.snd).filterMap g := by
  induction l with
  | nil => rfl
  | cons e l ih =>
    cases hg : g e.2 with
    | none => by_cases hp : p e.1 = true <;> simp [hg, hp, ih]
    | some r => by_cases hp : p e.1 = true <;> simp [hg, hp, ih]

/-- A group that is not there counts as one without rows. -/
theorem leftJoin_groups [DecidableEq κ] {γ : Type} (key : α → Option κ) (rows : List α) (k : Option κ)
    (agg : List α → γ) : (leftJoin (groups key rows) fun g => same g.1 k).map
      (fun g => (g.map fun g => agg g.2).getD (agg [])) =
      [agg (rows.filter fun r => same (key r) k)] := by
  have hfilter : (groups key rows).filter (fun g => same g.1 k) =
      (if rows.filter (fun r => same (key r) k) = [] then none
        else some (k, rows.filter fun r => same (key r) k)).toList := by
    cases k with
    | none => simp
    | some k =>
      simp only [same_some_right, groups, List.filter_map, Function.comp_def]
      have hone : (rows.map key).dedup.filter (fun a => decide (a = some k)) =
          if some k ∈ rows.map key then [some k] else [] := by
        rw [List.filter_eq, (List.nodup_dedup _).count]
        simp only [List.mem_dedup]
        split <;> rfl
      rw [hone]
      by_cases hk : some k ∈ rows.map key
      · rw [if_pos hk, if_neg]
        · rfl
        · obtain ⟨r, hr, hrk⟩ := List.mem_map.mp hk
          exact List.ne_nil_of_mem (List.mem_filter.mpr ⟨hr, decide_eq_true hrk⟩)
      · rw [if_neg hk, if_pos]
        · rfl
        · rw [List.filter_eq_nil_iff]
          intro r hr hrk
          exact hk (List.mem_map.mpr ⟨r, hr, of_decide_eq_true hrk⟩)
  rw [leftJoin_of_toList hfilter]
  split
  · rename_i hnil
    rw [hnil]
    rfl
  · rfl

end Bags

end Relational
