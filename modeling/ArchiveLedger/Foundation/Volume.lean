import Mathlib

/-!
# Names and the files they stand for

The names of a volume are links to files, and several names may be links to one file.
A move gives a file a name that was free and takes its old name away, in one step
(`rename`) or in two (`link`, then `unlink`).

`Holds` says that a file can be read under one of some names.  What can be read there
survives a move between these names and the removal of one of two links to it.
-/

namespace Volumes

/-- Names, the files they are links to, and the first number no file has. -/
structure Volume (ν φ : Type) where
  entry : ν → Option Nat
  file : Nat → φ
  next : Nat
  entry_lt : ∀ n i, entry n = some i → i < next

namespace Volume

variable {ν φ : Type}

/-- The file under a name. -/
def read (v : Volume ν φ) (n : ν) : Option φ := (v.entry n).map v.file

theorem read_eq_none {v : Volume ν φ} {n : ν} : v.read n = none ↔ v.entry n = none :=
  Option.map_eq_none_iff

theorem read_eq_some {v : Volume ν φ} {n : ν} {f : φ} :
    v.read n = some f ↔ ∃ i, v.entry n = some i ∧ v.file i = f := Option.map_eq_some_iff

theorem entry_ne_next (v : Volume ν φ) (n : ν) : v.entry n ≠ some v.next :=
  fun h => Nat.lt_irrefl _ (v.entry_lt n _ h)

variable [DecidableEq ν]

/-- A new file under a name; an old link of that name is lost. -/
def create (v : Volume ν φ) (n : ν) (f : φ) : Volume ν φ where
  entry := Function.update v.entry n (some v.next)
  file := Function.update v.file v.next f
  next := v.next + 1
  entry_lt := by
    intro m i h
    by_cases hm : m = n
    · subst hm
      rw [Function.update_self] at h
      cases h
      exact Nat.lt_succ_self _
    · rw [Function.update_of_ne hm] at h
      exact Nat.lt_succ_of_lt (v.entry_lt m i h)

/-- The name `m` for the file under `n`. -/
def link (v : Volume ν φ) (n m : ν) : Volume ν φ where
  entry := Function.update v.entry m (v.entry n)
  file := v.file
  next := v.next
  entry_lt := by
    intro k i h
    by_cases hk : k = m
    · subst hk
      rw [Function.update_self] at h
      exact v.entry_lt n i h
    · rw [Function.update_of_ne hk] at h
      exact v.entry_lt k i h

def unlink (v : Volume ν φ) (n : ν) : Volume ν φ where
  entry := Function.update v.entry n none
  file := v.file
  next := v.next
  entry_lt := by
    intro m i h
    by_cases hm : m = n
    · subst hm
      rw [Function.update_self] at h
      cases h
    · rw [Function.update_of_ne hm] at h
      exact v.entry_lt m i h

def rename (v : Volume ν φ) (n m : ν) : Volume ν φ := (v.link n m).unlink n

/-- The file under a name changes in place, for all its names. -/
def write (v : Volume ν φ) (n : ν) (f : φ) : Volume ν φ :=
  match v.entry n with
  | none => v
  | some i => { v with file := Function.update v.file i f }

/-! ### What the operations do to one name -/

@[simp] theorem entry_create (v : Volume ν φ) (n : ν) (f : φ) (m : ν) :
    (v.create n f).entry m = if m = n then some v.next else v.entry m :=
  Function.update_apply ..

@[simp] theorem entry_link (v : Volume ν φ) (n m k : ν) :
    (v.link n m).entry k = if k = m then v.entry n else v.entry k :=
  Function.update_apply ..

@[simp] theorem entry_unlink (v : Volume ν φ) (n m : ν) :
    (v.unlink n).entry m = if m = n then none else v.entry m :=
  Function.update_apply ..

@[simp] theorem entry_rename (v : Volume ν φ) (n m k : ν) :
    (v.rename n m).entry k = if k = n then none else if k = m then v.entry n else v.entry k := by
  rw [rename, entry_unlink, entry_link]

omit [DecidableEq ν] in
@[simp] theorem entry_write (v : Volume ν φ) (n : ν) (f : φ) (m : ν) :
    (v.write n f).entry m = v.entry m := by
  unfold write
  split <;> rfl

@[simp] theorem read_create (v : Volume ν φ) (n : ν) (f : φ) (m : ν) :
    (v.create n f).read m = if m = n then some f else v.read m := by
  unfold read
  rw [entry_create]
  split
  · simp [create]
  · cases h : v.entry m with
    | none => rfl
    | some i =>
      have hi : i ≠ v.next := Nat.ne_of_lt (v.entry_lt m i h)
      simp [create, hi]

@[simp] theorem read_link (v : Volume ν φ) (n m k : ν) :
    (v.link n m).read k = if k = m then v.read n else v.read k := by
  unfold read
  rw [entry_link]
  split <;> rfl

@[simp] theorem read_unlink (v : Volume ν φ) (n m : ν) :
    (v.unlink n).read m = if m = n then none else v.read m := by
  unfold read
  rw [entry_unlink]
  split <;> rfl

@[simp] theorem read_rename (v : Volume ν φ) (n m k : ν) :
    (v.rename n m).read k = if k = n then none else if k = m then v.read n else v.read k := by
  rw [rename, read_unlink, read_link]

omit [DecidableEq ν] in
theorem read_write_of_ne {v : Volume ν φ} {n m : ν} (f : φ) (h : v.entry m ≠ v.entry n) :
    (v.write n f).read m = v.read m := by
  unfold write read
  cases hn : v.entry n with
  | none => rfl
  | some i =>
    rw [hn] at h
    cases hm : v.entry m with
    | none => simp
    | some j =>
      have hj : j ≠ i := fun e => h (by rw [hm, e])
      simp [hj]

omit [DecidableEq ν] in
theorem read_write_of_eq {v : Volume ν φ} {n m : ν} {g : φ} (f : φ) (h : v.entry m = v.entry n)
    (hn : v.read n = some g) : (v.write n f).read m = some f := by
  obtain ⟨i, hi, -⟩ := read_eq_some.mp hn
  unfold write read
  simp [h, hi]

/-! ### What some names hold -/

/-- A file that can be read under one of some names. -/
def Holds (v : Volume ν φ) (N : ν → Prop) (f : φ) : Prop := ∃ n, N n ∧ v.read n = some f

variable {v : Volume ν φ} {N : ν → Prop} {f : φ}

omit [DecidableEq ν] in
/-- What is read under the same names as before is held as before. -/
theorem Holds.of_read {v' : Volume ν φ} (h : v.Holds N f) (hread : ∀ n, N n → v'.read n = v.read n) :
    v'.Holds N f := by
  obtain ⟨n, hn, hf⟩ := h
  exact ⟨n, hn, (hread n hn).trans hf⟩

theorem Holds.create {n : ν} {g : φ} (h : v.Holds N f) (hn : ¬ N n) : (v.create n g).Holds N f := by
  apply h.of_read
  intro m hm
  rw [read_create, if_neg]
  rintro rfl
  exact hn hm

theorem Holds.link {n m : ν} (h : v.Holds N f) (hfree : v.entry m = none) :
    (v.link n m).Holds N f := by
  obtain ⟨k, hk, hf⟩ := h
  refine ⟨k, hk, ?_⟩
  rw [read_link, if_neg, hf]
  rintro rfl
  rw [read_eq_none.mpr hfree] at hf
  cases hf

/-- A name can go when it is none of these, or when another of them is a link to its file. -/
theorem Holds.unlink {n : ν} (h : v.Holds N f)
    (hn : N n → ∃ m, N m ∧ m ≠ n ∧ v.entry m = v.entry n) : (v.unlink n).Holds N f := by
  obtain ⟨k, hk, hf⟩ := h
  by_cases he : k = n
  · subst he
    obtain ⟨m, hm, hne, heq⟩ := hn hk
    refine ⟨m, hm, ?_⟩
    rw [read_unlink, if_neg hne, read, heq]
    exact hf
  · exact ⟨k, hk, by rw [read_unlink, if_neg he, hf]⟩

theorem Holds.rename {n m : ν} (h : v.Holds N f) (hm : N m) (hne : m ≠ n)
    (hfree : v.entry m = none) : (v.rename n m).Holds N f := by
  apply (h.link hfree).unlink
  intro _
  refine ⟨m, hm, hne, ?_⟩
  rw [entry_link, entry_link, if_pos rfl, if_neg hne.symm]

omit [DecidableEq ν] in
theorem Holds.write {n : ν} {g : φ} (h : v.Holds N f) (hn : ∀ m, N m → v.entry m ≠ v.entry n) :
    (v.write n g).Holds N f :=
  h.of_read fun m hm => read_write_of_ne g (hn m hm)

end Volume

end Volumes
