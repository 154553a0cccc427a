import ArchiveLedger.Catalog.Queries

/-!
# Prefix ranges

The blobs that start with a prefix are a range of their order: from the prefix up to
`prefixUpperBound`, which takes back one byte after the other while they are 255 and then adds
one to the last (`prefixUpperBound_snoc` is one round of that loop).  The induction is on the
prefix from its end: a byte that can be incremented leaves only the blobs that have it where the
prefix ends (`between_iff`), and after a byte that cannot, the bound is that of the shorter prefix.
-/

namespace ArchiveLedger

/-! ### Lexicographic order -/

section Lexicographic

theorem nil_le_list {α : Type} [LinearOrder α] (x : List α) : [] ≤ x := not_lt.mp (List.not_lt_nil x)

theorem cons_le_cons_list_iff {α : Type} [LinearOrder α] (a b : α) (x y : List α) :
    a :: x ≤ b :: y ↔ a < b ∨ a = b ∧ x ≤ y := by
  rw [← not_lt, List.cons_lt_cons_iff, ← not_lt (a := y)]
  constructor
  · intro h
    rcases lt_trichotomy a b with hlt | heq | hgt
    · exact Or.inl hlt
    · exact Or.inr ⟨heq, fun hyx => h (Or.inr ⟨heq.symm, hyx⟩)⟩
    · exact absurd (Or.inl hgt) h
  · rintro (hlt | ⟨rfl, hle⟩) (hgt | ⟨heq, hyx⟩)
    · exact lt_asymm hlt hgt
    · exact lt_irrefl _ (heq ▸ hlt)
    · exact lt_irrefl _ hgt
    · exact hle hyx

theorem append_le_append_iff {α : Type} [LinearOrder α] (p x y : List α) : p ++ x ≤ p ++ y ↔ x ≤ y := by
  induction p with
  | nil => rfl
  | cons a p ih => simp [cons_le_cons_list_iff, ih]

theorem le_of_isPrefixed {α : Type} [LinearOrder α] {p x : List α} (h : p <+: x) : p ≤ x := by
  obtain ⟨t, rfl⟩ := h
  have hle := (append_le_append_iff p [] t).mpr (nil_le_list t)
  rwa [List.append_nil] at hle

/-- Between two neighbours at the end of a prefix there is only what goes on after the first. -/
theorem between_iff (p x : List Nat) (b : Nat) :
    p ++ [b] ≤ x ∧ x < p ++ [b + 1] ↔ p ++ [b] <+: x := by
  induction p generalizing x with
  | nil =>
    cases x with
    | nil => simp
    | cons c x =>
      rw [List.nil_append, List.nil_append, cons_le_cons_list_iff, List.cons_lt_cons_iff,
        List.cons_prefix_cons]
      have hnil : ¬ x < [] := List.not_lt_nil x
      simp only [nil_le_list, and_true, hnil, and_false, or_false, List.nil_prefix]
      omega
  | cons a p ih =>
    cases x with
    | nil => simp
    | cons c x =>
      rw [List.cons_append, List.cons_append, cons_le_cons_list_iff, List.cons_lt_cons_iff,
        List.cons_prefix_cons, ← ih]
      constructor
      · intro h
        obtain ⟨h₁ | ⟨rfl, h₁⟩, h₂ | ⟨h₂, h₃⟩⟩ := h
        · omega
        · omega
        · omega
        · exact ⟨rfl, h₁, h₃⟩
      · intro h
        obtain ⟨rfl, h₁, h₂⟩ := h
        exact ⟨Or.inr ⟨rfl, h₁⟩, Or.inr ⟨rfl, h₂⟩⟩

/-- After the greatest element there is only what goes on with it. -/
theorem greatest_prefix_iff (p y : List Nat) {b : Nat} (hy : ∀ c ∈ y, c ≤ b) :
    p ++ [b] ≤ p ++ y ↔ p ++ [b] <+: p ++ y := by
  rw [append_le_append_iff, List.prefix_append_right_inj]
  cases y with
  | nil => simp
  | cons c y =>
    have hc : c ≤ b := hy c List.mem_cons_self
    rw [cons_le_cons_list_iff, List.cons_prefix_cons]
    simp only [nil_le_list, and_true, List.nil_prefix]
    omega

end Lexicographic

/-! ### The range of a prefix -/

theorem prefixUpperBound_nil : prefixUpperBound [] = none := rfl

/-- One round of the loop. -/
theorem prefixUpperBound_snoc (p : Bytes) (last : UInt8) : prefixUpperBound (p ++ [last]) =
    if last < 255 then some (p ++ [last + 1]) else prefixUpperBound p := by
  unfold prefixUpperBound
  rw [List.reverse_append, List.reverse_singleton, List.singleton_append]
  by_cases hlast : last = 255
  · subst hlast
    rw [List.dropWhile_cons_of_pos (by decide), if_neg (by decide)]
  · have hlt : last < 255 := by
      have hne : last.toNat ≠ 255 := fun h => hlast (UInt8.toNat_inj.mp h)
      have := last.toNat_lt
      show last.toNat < 255
      omega
    rw [List.dropWhile_cons_of_neg (by simpa using hlast), if_pos hlt]
    simp

theorem blobRank_append (p x : Bytes) : blobRank (p ++ x) = blobRank p ++ blobRank x := List.map_append

theorem blobRank_prefix_iff {p x : Bytes} : blobRank p <+: blobRank x ↔ p <+: x := by
  constructor
  · intro h
    obtain ⟨t, ht⟩ := h
    obtain ⟨x₁, x₂, rfl, h₁, -⟩ := List.map_eq_append_iff.mp ht.symm
    rw [← blobRank_injective h₁]
    exact List.prefix_append _ _
  · intro h
    obtain ⟨t, rfl⟩ := h
    rw [blobRank_append]
    exact List.prefix_append _ _

/-- The range `p <= x` and, when there is an upper bound, `x < u`. -/
def InPrefixRange (p x : Bytes) : Prop :=
  blobRank p ≤ blobRank x ∧ ∀ upper, prefixUpperBound p = some upper → blobRank x < blobRank upper

/-- A blob is in the range of a prefix when it starts with it. -/
theorem inPrefixRange_iff (p x : Bytes) : InPrefixRange p x ↔ p <+: x := by
  induction p using List.reverseRecOn generalizing x with
  | nil => simp [InPrefixRange, prefixUpperBound_nil, blobRank, nil_le_list]
  | append_singleton p last ih =>
    rw [InPrefixRange, prefixUpperBound_snoc]
    by_cases hlast : last < 255
    · have hsucc : (last + 1).toNat = last.toNat + 1 := by
        have : last.toNat < 255 := hlast
        rw [UInt8.toNat_add]
        show (last.toNat + 1) % 256 = _
        omega
      rw [if_pos hlast]
      simp only [Option.some.injEq, forall_eq']
      rw [← blobRank_prefix_iff, blobRank_append, blobRank_append]
      have hbetween := between_iff (blobRank p) (blobRank x) last.toNat
      rw [← hsucc] at hbetween
      exact hbetween
    · have hgreatest : last.toNat = 255 := by
        have : ¬ last.toNat < 255 := hlast
        have := last.toNat_lt
        omega
      rw [if_neg hlast]
      have hshorter : blobRank p ≤ blobRank (p ++ [last]) :=
        le_of_isPrefixed (blobRank_prefix_iff.mpr (List.prefix_append p [last]))
      constructor
      · intro h
        obtain ⟨hle, hbound⟩ := h
        obtain ⟨y, rfl⟩ := (ih x).mp ⟨le_trans hshorter hle, hbound⟩
        rw [blobRank_append, blobRank_append] at hle
        rw [← blobRank_prefix_iff, blobRank_append, blobRank_append]
        have hy : ∀ c ∈ blobRank y, c ≤ last.toNat := by
          intro c hc
          obtain ⟨byte, -, rfl⟩ := List.mem_map.mp hc
          have := byte.toNat_lt
          omega
        exact (greatest_prefix_iff (blobRank p) (blobRank y) hy).mp hle
      · intro h
        have hp : p <+: x := (List.prefix_append p [last]).trans h
        exact ⟨le_of_isPrefixed (blobRank_prefix_iff.mpr h), ((ih x).mpr hp).2⟩

/-- The clauses of a prefix are its range. -/
theorem prefixClauses_iff (p : Bytes) (c : Catalog) (o : ObjectRow) :
    ((prefixClauses p).all fun clause => clause c o) = true ↔
      InPrefixRange p o.path.relativePathBytes := by
  rw [prefixClauses, InPrefixRange]
  cases prefixUpperBound p with
  | none => simp
  | some upper => simp

/-- **The prefix range is exact**, and it is what a selection asks of the path bytes when its filter has
a path prefix. -/
theorem prefixRange_exact (p x : Bytes) : (InPrefixRange p x ↔ p <+: x) ∧
    ∀ (path : EncodedPath) (c : Catalog) (o : ObjectRow), path.bytes = p → o.path.relativePathBytes = x →
      (((pathClauses none (some path)).all fun clause => clause c o) = true ↔
        o.path.relativePathEncoding = path.encoding.asStr ∧ p <+: x) := by
  refine ⟨inPrefixRange_iff p x, ?_⟩
  intro path c o hp hx
  rw [← inPrefixRange_iff, ← hp, ← hx, ← prefixClauses_iff path.bytes c o, pathClauses, List.all_cons,
    Bool.and_eq_true, decide_eq_true_iff]

example : prefixUpperBound [97, 255, 255] = some [98] := by decide

end ArchiveLedger
