import Mathlib

/-!
# Tables with declared constraints

A `Table` is a list of rows together with the proof that no two of them violate
the constraints its `Schema` declares: they differ in their primary key, and no
other unique index forbids them to stand together (`clash`).  A partial unique
index is a `clash` that looks at the rows it covers only.

The statements are those of SQL: `insert?` fails on a conflict, `insertOrIgnore`
keeps the table, `modify` is an update that cannot create a conflict, `upsert?`
and `upsert` insert or rewrite the row under the same key, `delete` drops rows.
Each has one lemma that says what is found afterwards under every key
(`get?_insert`, `get?_modify`, `get?_upsert`, `get?_delete`), and the proofs of a
model use these and never the list of rows.
-/

namespace Relational

/-- The proof of a side condition under the statement asked for: definitions that
carry one keep that statement, and not what it unfolds to. -/
theorem stated {p : Prop} (h : p) : p := h

/-- The declared constraints of a table: its primary key, and the pairs of rows
its other unique indexes do not let stand together. -/
structure Schema (κ ρ : Type) where
  key : ρ → κ
  clash : ρ → ρ → Bool
  clash_comm : ∀ r s, clash r s = clash s r

/-- A schema with a primary key and no other unique index. -/
@[reducible] def Schema.ofKey {κ ρ : Type} (key : ρ → κ) : Schema κ ρ where
  key := key
  clash _ _ := false
  clash_comm _ _ := rfl

variable {κ ρ : Type} {S : Schema κ ρ}

/-- Two rows that may stand together. -/
def Schema.Apart (S : Schema κ ρ) (r s : ρ) : Prop := S.key r ≠ S.key s ∧ S.clash r s = false

theorem Schema.Apart.symm {r s : ρ} (h : S.Apart r s) : S.Apart s r :=
  ⟨h.1.symm, by rw [S.clash_comm]; exact h.2⟩

instance [DecidableEq κ] (r s : ρ) : Decidable (S.Apart r s) :=
  inferInstanceAs (Decidable (_ ∧ _))

/-- Rows that satisfy the constraints pairwise. -/
structure Table {κ ρ : Type} (S : Schema κ ρ) where
  rows : List ρ
  apart : rows.Pairwise S.Apart

namespace Table

@[ext] theorem ext {t u : Table S} (h : t.rows = u.rows) : t = u := by
  cases t; cases u; cases h; rfl

def empty : Table S := ⟨[], List.Pairwise.nil⟩

@[simp] theorem rows_empty : (empty : Table S).rows = [] := rfl

theorem keys_nodup (t : Table S) : (t.rows.map S.key).Nodup :=
  List.pairwise_map.mpr (t.apart.imp fun h => h.1)

theorem rows_nodup (t : Table S) : t.rows.Nodup :=
  List.Nodup.of_map S.key t.keys_nodup

/-- Two rows of a table under one key are one row. -/
theorem eq_of_key {t : Table S} {r s : ρ} (hr : r ∈ t.rows) (hs : s ∈ t.rows)
    (h : S.key r = S.key s) : r = s :=
  List.inj_on_of_nodup_map t.keys_nodup hr hs h

/-- Two different rows of a table do not clash. -/
theorem eq_of_clash {t : Table S} {r s : ρ} (hr : r ∈ t.rows) (hs : s ∈ t.rows)
    (h : S.clash r s = true) : r = s := by
  by_contra hne
  have : Std.Symm S.Apart := ⟨fun _ _ h => h.symm⟩
  rw [(t.apart.forall hr hs hne).2] at h
  cases h

section Lookup

variable [DecidableEq κ]

/-- The row under a key. -/
def get? (t : Table S) (k : κ) : Option ρ := t.rows.find? fun r => S.key r = k

theorem get?_eq_some {t : Table S} {k : κ} {r : ρ} :
    t.get? k = some r ↔ r ∈ t.rows ∧ S.key r = k := by
  constructor
  · intro h
    exact ⟨List.mem_of_find?_eq_some h, by simpa using List.find?_some h⟩
  · rintro ⟨hm, hk⟩
    cases hf : t.rows.find? (fun s => S.key s = k) with
    | none =>
      have := List.find?_eq_none.mp hf r hm
      simp [hk] at this
    | some s =>
      have hs : S.key s = k := by simpa using List.find?_some hf
      rw [get?, hf, eq_of_key (List.mem_of_find?_eq_some hf) hm (hs.trans hk.symm)]

theorem get?_eq_none {t : Table S} {k : κ} : t.get? k = none ↔ ∀ r ∈ t.rows, S.key r ≠ k := by
  simp [get?, List.find?_eq_none]

theorem get?_of_mem {t : Table S} {r : ρ} (h : r ∈ t.rows) : t.get? (S.key r) = some r :=
  get?_eq_some.mpr ⟨h, rfl⟩

theorem mem_of_get? {t : Table S} {k : κ} {r : ρ} (h : t.get? k = some r) : r ∈ t.rows :=
  (get?_eq_some.mp h).1

theorem key_of_get? {t : Table S} {k : κ} {r : ρ} (h : t.get? k = some r) : S.key r = k :=
  (get?_eq_some.mp h).2

@[simp] theorem get?_empty (k : κ) : (empty : Table S).get? k = none := rfl

/-- At most one row has a key. -/
theorem filter_key (t : Table S) (k : κ) :
    t.rows.filter (fun r => S.key r = k) = (t.get? k).toList := by
  have hnd : (t.rows.filter fun r => S.key r = k).Nodup := t.rows_nodup.filter _
  cases hg : t.get? k with
  | none =>
    rw [Option.toList_none, List.filter_eq_nil_iff]
    intro r hr
    simpa using get?_eq_none.mp hg r hr
  | some r =>
    obtain ⟨hr, hk⟩ := get?_eq_some.mp hg
    rw [Option.toList_some]
    refine List.perm_singleton.mp ((List.perm_ext_iff_of_nodup hnd (List.nodup_singleton r)).mpr ?_)
    intro s
    simp only [List.mem_filter, decide_eq_true_eq, List.mem_singleton]
    exact ⟨fun h => eq_of_key h.1 hr (h.2.trans hk.symm), fun h => h ▸ ⟨hr, hk⟩⟩

/-- A table is determined by what a lookup finds, up to the order of its rows. -/
theorem mem_rows_iff {t : Table S} {r : ρ} : r ∈ t.rows ↔ t.get? (S.key r) = some r := by
  simp [get?_eq_some]

end Lookup

section Statements

variable [DecidableEq κ]

/-- The constraints let the row join the table. -/
def Admits (t : Table S) (r : ρ) : Prop := ∀ s ∈ t.rows, S.Apart s r

instance (t : Table S) (r : ρ) : Decidable (t.Admits r) :=
  inferInstanceAs (Decidable (∀ s ∈ t.rows, S.Apart s r))

/-- The table with one more row. -/
def add (t : Table S) (r : ρ) (h : t.Admits r) : Table S where
  rows := t.rows ++ [r]
  apart := by
    rw [List.pairwise_append]
    exact ⟨t.apart, List.pairwise_singleton _ _, fun s hs x hx => by
      rw [List.mem_singleton.mp hx]; exact h s hs⟩

/-- `INSERT`: fails when a constraint is violated. -/
def insert? (t : Table S) (r : ρ) : Option (Table S) :=
  if h : t.Admits r then some (t.add r h) else none

/-- `INSERT OR IGNORE`. -/
def insertOrIgnore (t : Table S) (r : ρ) : Table S := (t.insert? r).getD t

theorem insert?_eq_some {t u : Table S} {r : ρ} :
    t.insert? r = some u ↔ t.Admits r ∧ u.rows = t.rows ++ [r] := by
  unfold insert?
  split
  · rename_i h
    constructor
    · intro e
      cases e
      exact ⟨h, rfl⟩
    · rintro ⟨_, e⟩
      exact congrArg some (ext e.symm)
  · rename_i h
    exact ⟨nofun, fun e => absurd e.1 h⟩

theorem get?_insert {t u : Table S} {r : ρ} (h : t.insert? r = some u) (k : κ) :
    u.get? k = if S.key r = k then some r else t.get? k := by
  obtain ⟨hap, hrows⟩ := insert?_eq_some.mp h
  unfold get?
  rw [hrows, List.find?_append]
  by_cases hk : S.key r = k
  · have hnone : t.rows.find? (fun s => S.key s = k) = none := by
      rw [List.find?_eq_none]
      intro s hs
      simpa [← hk] using (hap s hs).1
    simp [hnone, hk]
  · simp [hk]

theorem mem_rows_insert {t u : Table S} {r s : ρ} (h : t.insert? r = some u) :
    s ∈ u.rows ↔ s ∈ t.rows ∨ s = r := by
  rw [(insert?_eq_some.mp h).2]
  simp

/-- An ignored insert leaves the table as it was. -/
theorem insertOrIgnore_of_not {t : Table S} {r : ρ} (h : ¬ t.Admits r) :
    t.insertOrIgnore r = t := by
  simp [insertOrIgnore, insert?, h]

theorem insertOrIgnore_of_admits {t : Table S} {r : ρ} (h : t.Admits r) :
    t.insert? r = some (t.insertOrIgnore r) := by
  simp [insertOrIgnore, insert?, h]

theorem get?_insertOrIgnore_of_ne (t : Table S) {r : ρ} {k : κ} (h : S.key r ≠ k) :
    (t.insertOrIgnore r).get? k = t.get? k := by
  by_cases ha : t.Admits r
  · rw [get?_insert (insertOrIgnore_of_admits ha), if_neg h]
  · rw [insertOrIgnore_of_not ha]

/-- With no index besides the key, an ignored insert is one whose key is taken. -/
theorem get?_insertOrIgnore (hS : ∀ r s, S.clash r s = false) (t : Table S) (r : ρ) (k : κ) :
    (t.insertOrIgnore r).get? k
      = if S.key r = k then some ((t.get? k).getD r) else t.get? k := by
  by_cases ha : t.Admits r
  · rw [get?_insert (insertOrIgnore_of_admits ha)]
    by_cases hk : S.key r = k
    · have hnone : t.get? k = none :=
        get?_eq_none.mpr fun s hs => by rw [← hk]; exact (ha s hs).1
      simp [hk, hnone]
    · simp [hk]
  · rw [insertOrIgnore_of_not ha]
    by_cases hk : S.key r = k
    · obtain ⟨s, hs, hsk⟩ : ∃ s ∈ t.rows, S.key s = S.key r := by
        by_contra hno
        exact ha fun s hs => ⟨fun e => hno ⟨s, hs, e⟩, hS s r⟩
      rw [if_pos hk, get?_eq_some.mpr ⟨hs, hsk.trans hk⟩]
      rfl
    · rw [if_neg hk]

/-- `UPDATE ... SET f WHERE p`, for a change that keeps the key and creates no clash. -/
def modify (t : Table S) (p : ρ → Bool) (f : ρ → ρ)
    (hkey : ∀ r, S.key (f r) = S.key r := by intro _; exact Relational.stated rfl)
    (hclash : ∀ r s, S.clash (f r) s = true → S.clash r s = true := by intro _ _ h; exact Relational.stated h) :
    Table S where
  rows := t.rows.map fun r => if p r then f r else r
  apart := by
    have hcl : ∀ r s, S.clash r s = false → S.clash (f r) s = false := by
      intro r s h
      cases hc : S.clash (f r) s with
      | false => rfl
      | true => rw [hclash r s hc] at h; cases h
    have hleft : ∀ r s, S.Apart r s → S.Apart (if p r then f r else r) s := by
      intro r s h
      split
      · exact ⟨by rw [hkey]; exact h.1, hcl r s h.2⟩
      · exact h
    rw [List.pairwise_map]
    exact t.apart.imp fun h => hleft _ _ (hleft _ _ h.symm).symm

omit [DecidableEq κ] in
@[simp] theorem rows_modify (t : Table S) (p : ρ → Bool) (f : ρ → ρ) (hkey hclash) :
    (t.modify p f hkey hclash).rows = t.rows.map fun r => if p r then f r else r := rfl

theorem get?_modify (t : Table S) (p : ρ → Bool) (f : ρ → ρ) (hkey hclash) (k : κ) :
    (t.modify p f hkey hclash).get? k = (t.get? k).map fun r => if p r then f r else r := by
  unfold get?
  rw [rows_modify, List.find?_map]
  congr 2
  funext r
  simp only [Function.comp]
  split
  · rw [hkey]
  · rfl

/-- `UPDATE ... SET f WHERE p`, which fails when another unique index is violated. -/
def modify? (t : Table S) (p : ρ → Bool) (f : ρ → ρ)
    (hkey : ∀ r, S.key (f r) = S.key r := by intro _; exact Relational.stated rfl) :
    Option (Table S) :=
  if h : (t.rows.map fun r => if p r then f r else r).Pairwise
      (fun a b => S.clash a b = false) then
    some ⟨t.rows.map fun r => if p r then f r else r, by
      have hk : ((t.rows.map fun r => if p r then f r else r).map S.key).Nodup := by
        rw [List.map_map]
        have he : (S.key ∘ fun r => if p r then f r else r) = S.key := by
          funext r
          simp only [Function.comp]
          split
          · rw [hkey]
          · rfl
        rw [he]
        exact t.keys_nodup
      exact (List.pairwise_map.mp hk).imp₂ (fun _ _ h₁ h₂ => ⟨h₁, h₂⟩) h⟩
  else none

omit [DecidableEq κ] in
theorem rows_of_modify? {t u : Table S} {p : ρ → Bool} {f : ρ → ρ} {hkey}
    (h : t.modify? p f hkey = some u) : u.rows = t.rows.map fun r => if p r then f r else r := by
  unfold modify? at h
  split at h
  · cases h; rfl
  · cases h

theorem get?_modify? {t u : Table S} {p : ρ → Bool} {f : ρ → ρ} {hkey}
    (h : t.modify? p f hkey = some u) (k : κ) :
    u.get? k = (t.get? k).map fun r => if p r then f r else r := by
  unfold get?
  rw [rows_of_modify? h, List.find?_map]
  congr 2
  funext r
  simp only [Function.comp]
  split
  · rw [hkey]
  · rfl

/-- `INSERT ... ON CONFLICT(key) DO UPDATE SET f`: rewrites the row under the key
of `r` when there is one and inserts `r` otherwise; fails when another unique
index is violated. -/
def upsert? (t : Table S) (r : ρ) (f : ρ → ρ)
    (hkey : ∀ s, S.key (f s) = S.key s := by intro _; exact Relational.stated rfl) : Option (Table S) :=
  if (t.get? (S.key r)).isSome then
    if h : (t.rows.map fun s => if S.key s = S.key r then f s else s).Pairwise
        (fun a b => S.clash a b = false) then
      some ⟨t.rows.map fun s => if S.key s = S.key r then f s else s, by
        have hk : ((t.rows.map fun s => if S.key s = S.key r then f s else s).map S.key).Nodup := by
          rw [List.map_map]
          have he : (S.key ∘ fun s => if S.key s = S.key r then f s else s) = S.key := by
            funext s
            simp only [Function.comp]
            split
            · rw [hkey]
            · rfl
          rw [he]
          exact t.keys_nodup
        exact (List.pairwise_map.mp hk).imp₂ (fun _ _ h₁ h₂ => ⟨h₁, h₂⟩) h⟩
    else none
  else t.insert? r

theorem get?_upsert? {t u : Table S} {r : ρ} {f : ρ → ρ} {hkey} (h : t.upsert? r f hkey = some u)
    (k : κ) :
    u.get? k = if S.key r = k then some (((t.get? k).map f).getD r) else t.get? k := by
  unfold upsert? at h
  split at h
  · rename_i hsome
    split at h
    · cases h
      unfold get?
      rw [List.find?_map]
      have hcomp : ((fun s => decide (S.key s = k)) ∘ fun s => if S.key s = S.key r then f s else s)
          = fun s => decide (S.key s = k) := by
        funext s
        simp only [Function.comp]
        split
        · rw [hkey]
        · rfl
      rw [hcomp]
      by_cases hk : S.key r = k
      · rw [if_pos hk]
        cases hf : t.rows.find? (fun s => decide (S.key s = k)) with
        | none => rw [← hk] at hf; simp [get?, hf] at hsome
        | some s =>
          have : S.key s = S.key r := by
            rw [hk]; simpa using List.find?_some hf
          simp [this]
      · rw [if_neg hk]
        cases hf : t.rows.find? (fun s => decide (S.key s = k)) with
        | none => rfl
        | some s =>
          have : S.key s ≠ S.key r := by
            intro e; exact hk (e.symm.trans (by simpa using List.find?_some hf))
          simp [this]
    · cases h
  · rename_i hnone
    rw [get?_insert h]
    split
    · rename_i hk
      rw [hk] at hnone
      simp only [Option.not_isSome_iff_eq_none] at hnone
      simp [hnone]
    · rfl

theorem mem_rows_upsert? {t u : Table S} {r s : ρ} {f : ρ → ρ} {hkey}
    (h : t.upsert? r f hkey = some u) :
    s ∈ u.rows ↔ s = ((t.get? (S.key r)).map f).getD r ∨ (S.key s ≠ S.key r ∧ s ∈ t.rows) := by
  have hnew : S.key (((t.get? (S.key r)).map f).getD r) = S.key r := by
    cases hg : t.get? (S.key r) with
    | none => rfl
    | some old => simpa [hkey] using key_of_get? hg
  rw [mem_rows_iff, get?_upsert? h]
  by_cases hk : S.key r = S.key s
  · rw [if_pos hk, ← hk]
    simp only [ne_eq, hk, not_true_eq_false, false_and, or_false, Option.some.injEq]
    exact eq_comm
  · rw [if_neg hk, ← mem_rows_iff]
    constructor
    · intro hs
      exact Or.inr ⟨fun e => hk e.symm, hs⟩
    · rintro (rfl | hs)
      · exact absurd hnew.symm hk
      · exact hs.2

/-- An upsert succeeds when the row it writes clashes with none under another key. -/
theorem exists_upsert? {t : Table S} {r : ρ} {f : ρ → ρ} {hkey} :
    (∃ u, t.upsert? r f hkey = some u) ↔ ∀ s ∈ t.rows, S.key s ≠ S.key r →
      S.clash s (((t.get? (S.key r)).map f).getD r) = false := by
  unfold upsert?
  cases hg : t.get? (S.key r) with
  | none =>
    rw [if_neg (by simp)]
    have hnone := get?_eq_none.mp hg
    constructor
    · rintro ⟨u, hu⟩ s hs -
      exact ((insert?_eq_some.mp hu).1 s hs).2
    · intro h
      have hadmits : t.Admits r := fun s hs => ⟨hnone s hs, h s hs (hnone s hs)⟩
      exact ⟨_, dif_pos hadmits⟩
  | some old =>
    obtain ⟨hold, hkold⟩ := get?_eq_some.mp hg
    rw [if_pos (by rfl), Option.map_some, Option.getD_some]
    have hwritten : ∀ s ∈ t.rows, S.key s = S.key r → s = old :=
      fun s hs hk => eq_of_key hs hold (hk.trans hkold.symm)
    constructor
    · rintro ⟨u, hu⟩ s hs hne
      split at hu
      · rename_i hpairs
        have hsym : Std.Symm fun a b : ρ => S.clash (if S.key a = S.key r then f a else a)
            (if S.key b = S.key r then f b else b) = false :=
          ⟨fun a b h => by rw [S.clash_comm]; exact h⟩
        have := (List.pairwise_map.mp hpairs).forall hs hold (fun e => hne (e ▸ hkold))
        rwa [if_neg hne, if_pos hkold] at this
      · cases hu
    · intro h
      have hpairs : (t.rows.map fun s => if S.key s = S.key r then f s else s).Pairwise
          (fun a b => S.clash a b = false) := by
        rw [List.pairwise_map]
        refine t.apart.imp_of_mem fun {a b} ha hb hab => ?_
        by_cases hka : S.key a = S.key r
        · have hkb : S.key b ≠ S.key r := fun hkb => hab.1 (hka.trans hkb.symm)
          rw [if_pos hka, if_neg hkb, hwritten a ha hka, S.clash_comm]
          exact h b hb hkb
        · by_cases hkb : S.key b = S.key r
          · rw [if_neg hka, if_pos hkb, hwritten b hb hkb]
            exact h a ha hka
          · rw [if_neg hka, if_neg hkb]
            exact hab.2
      exact ⟨_, dif_pos hpairs⟩

/-- The upsert of a table with no index besides its key, which cannot fail. -/
def upsert (t : Table S) (r : ρ) (f : ρ → ρ)
    (hS : ∀ r s, S.clash r s = false := by intro _ _; exact Relational.stated rfl)
    (hkey : ∀ s, S.key (f s) = S.key s := by intro _; exact Relational.stated rfl) : Table S :=
  if (t.get? (S.key r)).isSome then
    t.modify (fun s => S.key s = S.key r) f hkey fun a b h => by rw [hS] at h; cases h
  else t.insertOrIgnore r

theorem get?_upsert (t : Table S) (r : ρ) (f : ρ → ρ) (hS) (hkey) (k : κ) :
    (t.upsert r f hS hkey).get? k
      = if S.key r = k then some (((t.get? k).map f).getD r) else t.get? k := by
  unfold upsert
  split
  · rename_i hsome
    rw [get?_modify]
    by_cases hk : S.key r = k
    · rw [hk] at hsome
      obtain ⟨s, hs⟩ := Option.isSome_iff_exists.mp hsome
      simp [hk, hs, key_of_get? hs]
    · rw [if_neg hk]
      cases hg : t.get? k with
      | none => rfl
      | some s =>
        have : S.key s ≠ S.key r := fun e => hk (e.symm.trans (key_of_get? hg))
        simp [this]
  · rename_i hnone
    rw [get?_insertOrIgnore hS]
    split
    · rename_i hk
      rw [hk] at hnone
      simp only [Option.not_isSome_iff_eq_none] at hnone
      simp [hnone]
    · rfl

/-- `DELETE ... WHERE p`. -/
def delete (t : Table S) (p : ρ → Bool) : Table S where
  rows := t.rows.filter fun r => !p r
  apart := t.apart.filter _

omit [DecidableEq κ] in
@[simp] theorem rows_delete (t : Table S) (p : ρ → Bool) :
    (t.delete p).rows = t.rows.filter fun r => !p r := rfl

theorem get?_delete (t : Table S) (p : ρ → Bool) (k : κ) :
    (t.delete p).get? k = (t.get? k).filter fun r => !p r := by
  cases hg : t.get? k with
  | none =>
    rw [Option.filter_none, get?_eq_none]
    intro r hr
    exact get?_eq_none.mp hg r (List.mem_of_mem_filter hr)
  | some r =>
    obtain ⟨hr, hk⟩ := get?_eq_some.mp hg
    cases hp : p r with
    | false =>
      rw [Option.filter_some, hp, if_pos (by rfl), get?_eq_some]
      exact ⟨by simp [hr, hp], hk⟩
    | true =>
      rw [Option.filter_some, hp, if_neg (by simp), get?_eq_none]
      intro s hs hsk
      obtain ⟨hs, hps⟩ := List.mem_filter.mp hs
      rw [eq_of_key hs hr (hsk.trans hk.symm), hp] at hps
      cases hps

end Statements

end Table

end Relational
