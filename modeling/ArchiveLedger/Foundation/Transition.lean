import Mathlib

/-!
# Transactions and runs

A transaction is a list of statements of which the first that fails abandons
all (`commitAll`); a run is a list of calls of which each moves the state on
(`run`).  A path is what such an execution goes through: labels, each with the
state it led to (`Path`).  `commitAll_invariant` and `Path.invariant` are the
induction principles: what one statement or one step preserves holds after all of
them.
-/

namespace Transition

variable {σ ι ε α β : Type}

theorem bind_eq_ok {x : Except ε α} {f : α → Except ε β} {b : β} :
    (x >>= f) = .ok b ↔ ∃ a, x = .ok a ∧ f a = .ok b := by
  cases x with
  | error e => exact ⟨nofun, nofun⟩
  | ok a => exact ⟨fun h => ⟨a, rfl, h⟩, fun ⟨_, h, hf⟩ => by cases h; exact hf⟩

theorem ok_of_mapError {δ : Type} {f : ε → δ} {x : Except ε α} {a : α}
    (h : x.mapError f = .ok a) : x = .ok a := by
  cases x with
  | error e => cases h
  | ok b => exact congrArg _ (Except.ok.inj h)

/-! ### One transaction -/

section

variable (f : σ → ι → Except ε σ)

/-- The statements in order; the first failure is the failure of all. -/
def commitAll : σ → List ι → Except ε σ
  | s, [] => .ok s
  | s, i :: is =>
      match f s i with
      | .ok t => commitAll t is
      | .error e => .error e

theorem commitAll_cons {s t : σ} {i : ι} {is : List ι} :
    commitAll f s (i :: is) = .ok t ↔ ∃ u, f s i = .ok u ∧ commitAll f u is = .ok t := by
  rw [commitAll]
  cases f s i with
  | error e => exact ⟨nofun, nofun⟩
  | ok u => exact ⟨fun h => ⟨u, rfl, h⟩, fun ⟨_, h, hc⟩ => by cases h; exact hc⟩

theorem commitAll_append {s t : σ} {is js : List ι} :
    commitAll f s (is ++ js) = .ok t ↔ ∃ u, commitAll f s is = .ok u ∧ commitAll f u js = .ok t := by
  induction is generalizing s with
  | nil => exact ⟨fun h => ⟨s, rfl, h⟩, fun ⟨_, h, hc⟩ => by cases h; exact hc⟩
  | cons i is ih =>
    rw [List.cons_append, commitAll_cons]
    simp only [ih, commitAll_cons]
    constructor
    · rintro ⟨u, hu, v, hv, ht⟩
      exact ⟨v, ⟨u, hu, hv⟩, ht⟩
    · rintro ⟨v, ⟨u, hu, hv⟩, ht⟩
      exact ⟨u, hu, v, hv, ht⟩

/-- The states before and after each statement of a transaction. -/
def steps : σ → List ι → List (σ × ι × σ)
  | _, [] => []
  | s, i :: is =>
      match f s i with
      | .ok t => (s, i, t) :: steps t is
      | .error _ => []

theorem steps_items {s t : σ} {is : List ι} (h : commitAll f s is = .ok t) :
    (steps f s is).map (fun e => e.2.1) = is := by
  induction is generalizing s with
  | nil => rfl
  | cons i is ih =>
    obtain ⟨u, hu, hrest⟩ := (commitAll_cons f).mp h
    rw [steps, hu]
    exact congrArg _ (ih hrest)

theorem steps_append {s t : σ} {is js : List ι} (h : commitAll f s is = .ok t) :
    steps f s (is ++ js) = steps f s is ++ steps f t js := by
  induction is generalizing s with
  | nil =>
    cases h
    rfl
  | cons i is ih =>
    obtain ⟨u, hu, hrest⟩ := (commitAll_cons f).mp h
    rw [List.cons_append, steps, steps, hu]
    exact congrArg _ (ih hrest)

/-- The state before a statement is the one after those before it. -/
theorem mem_steps {s : σ} {is : List ι} {e : σ × ι × σ} (h : e ∈ steps f s is) :
    ∃ pre post, is = pre ++ e.2.1 :: post ∧ commitAll f s pre = .ok e.1 := by
  induction is generalizing s with
  | nil => cases h
  | cons i is ih =>
    rw [steps] at h
    split at h
    · rename_i t ht
      rcases List.mem_cons.mp h with rfl | h
      · exact ⟨[], is, rfl, rfl⟩
      · obtain ⟨pre, post, rfl, hpre⟩ := ih h
        exact ⟨i :: pre, post, rfl, (commitAll_cons f).mpr ⟨t, ht, hpre⟩⟩
    · cases h

variable {f}

/-- What every statement preserves, the transaction preserves. -/
theorem commitAll_invariant {P : σ → Prop} (hstep : ∀ s i t, P s → f s i = .ok t → P t)
    {s t : σ} {is : List ι} (hs : P s) (h : commitAll f s is = .ok t) : P t := by
  induction is generalizing s with
  | nil => cases h; exact hs
  | cons i is ih =>
    obtain ⟨u, hu, hc⟩ := (commitAll_cons f).mp h
    exact ih (hstep s i u hs hu) hc

end

/-! ### Runs -/

section

variable (next : σ → ι → σ) (ok : σ → ι → Prop)

/-- The state after a list of calls. -/
def run (s : σ) (is : List ι) : σ := is.foldl next s

/-- Every call of the run is admissible where it is made. -/
def Admissible : σ → List ι → Prop
  | _, [] => True
  | s, i :: is => ok s i ∧ Admissible (next s i) is

@[simp] theorem run_nil (s : σ) : run next s [] = s := rfl

@[simp] theorem run_cons (s : σ) (i : ι) (is : List ι) :
    run next s (i :: is) = run next (next s i) is := rfl

theorem run_append (s : σ) (is js : List ι) :
    run next s (is ++ js) = run next (run next s is) js := List.foldl_append

theorem admissible_append {s : σ} {is js : List ι} :
    Admissible next ok s (is ++ js) ↔
      Admissible next ok s is ∧ Admissible next ok (run next s is) js := by
  induction is generalizing s with
  | nil => simp [Admissible]
  | cons i is ih => simp [Admissible, ih, and_assoc]

variable {next ok}

end

/-! ### Paths -/

section

variable (R : σ → ι → σ → Prop)

/-- Each label leads from the state before to the state it stands with. -/
def Path : σ → List (ι × σ) → Prop
  | _, [] => True
  | s, e :: rest => R s e.1 e.2 ∧ Path e.2 rest

/-- The state a path ends in. -/
def final : σ → List (ι × σ) → σ
  | s, [] => s
  | _, e :: rest => final e.2 rest

@[simp] theorem final_nil (s : σ) : final s ([] : List (ι × σ)) = s := rfl

@[simp] theorem final_cons (s : σ) (e : ι × σ) (p : List (ι × σ)) :
    final s (e :: p) = final e.2 p := rfl

@[simp] theorem final_append (s : σ) (p q : List (ι × σ)) :
    final s (p ++ q) = final (final s p) q := by
  induction p generalizing s with
  | nil => rfl
  | cons e p ih => exact ih e.2

variable {R}

theorem path_append {s : σ} {p q : List (ι × σ)} :
    Path R s (p ++ q) ↔ Path R s p ∧ Path R (final s p) q := by
  induction p generalizing s with
  | nil => simp [Path]
  | cons e p ih => simp [Path, ih, and_assoc]

theorem Path.mono {R' : σ → ι → σ → Prop} (hR : ∀ s i t, R s i t → R' s i t) {s : σ}
    {p : List (ι × σ)} (h : Path R s p) : Path R' s p := by
  induction p generalizing s with
  | nil => trivial
  | cons e p ih => exact ⟨hR _ _ _ h.1, ih h.2⟩

theorem Path.and {R' : σ → ι → σ → Prop} {s : σ} {p : List (ι × σ)} (h : Path R s p)
    (h' : Path R' s p) : Path (fun s i t => R s i t ∧ R' s i t) s p := by
  induction p generalizing s with
  | nil => trivial
  | cons e p ih => exact ⟨⟨h.1, h'.1⟩, ih h.2 h'.2⟩

/-- A path as it looks from outside. -/
theorem Path.map {τ : Type} {R' : τ → ι → τ → Prop} (f : σ → τ) (hR : ∀ s i t, R s i t → R' (f s) i (f t))
    {s : σ} {p : List (ι × σ)} (h : Path R s p) : Path R' (f s) (p.map fun e => (e.1, f e.2)) := by
  induction p generalizing s with
  | nil => trivial
  | cons e p ih => exact ⟨hR _ _ _ h.1, ih h.2⟩

theorem final_map {τ : Type} (f : σ → τ) (s : σ) (p : List (ι × σ)) :
    final (f s) (p.map fun e => (e.1, f e.2)) = f (final s p) := by
  induction p generalizing s with
  | nil => rfl
  | cons e p ih => exact ih e.2

instance decidablePath [hR : ∀ s i t, Decidable (R s i t)] : ∀ (s : σ) (p : List (ι × σ)), Decidable (Path R s p)
  | _, [] => .isTrue trivial
  | s, e :: rest =>
      have := decidablePath e.2 rest
      inferInstanceAs (Decidable (R s e.1 e.2 ∧ Path R e.2 rest))

/-- The states that a list of labels leads through, if every one of them is a step where it stands. -/
def trace (next : σ → ι → Option σ) : σ → List ι → Option (List (ι × σ))
  | _, [] => some []
  | s, i :: is => do
      let t ← next s i
      let rest ← trace next t is
      some ((i, t) :: rest)

theorem path_trace {next : σ → ι → Option σ} {s : σ} {is : List ι} {p : List (ι × σ)}
    (h : trace next s is = some p) : Path (fun s i t => next s i = some t) s p := by
  induction is generalizing s p with
  | nil =>
    cases h
    trivial
  | cons i is ih =>
    obtain ⟨t, ht, h⟩ := Option.bind_eq_some_iff.mp h
    obtain ⟨rest, hrest, h⟩ := Option.bind_eq_some_iff.mp h
    cases h
    exact ⟨ht, ih hrest⟩

/-- The statements of a transaction are a path. -/
theorem path_steps (f : σ → ι → Except ε σ) (s : σ) (is : List ι) :
    Path (fun s i t => f s i = .ok t) s ((steps f s is).map Prod.snd) := by
  induction is generalizing s with
  | nil => trivial
  | cons i is ih =>
    rw [steps]
    split
    · rename_i t ht
      exact ⟨ht, ih t⟩
    · trivial

/-- The statements of a transaction that succeeds lead to its result. -/
theorem final_steps {f : σ → ι → Except ε σ} {s t : σ} {is : List ι}
    (h : commitAll f s is = .ok t) : final s ((steps f s is).map Prod.snd) = t := by
  induction is generalizing s with
  | nil => exact Except.ok.inj h
  | cons i is ih =>
    obtain ⟨u, hu, hrest⟩ := (commitAll_cons f).mp h
    rw [steps, hu]
    exact ih hrest

theorem path_iff_forall {C : ι → Prop} {s : σ} {p : List (ι × σ)} :
    Path (fun _ i _ => C i) s p ↔ ∀ e ∈ p, C e.1 := by
  induction p generalizing s with
  | nil => exact ⟨fun _ e he => absurd he List.not_mem_nil, fun _ => trivial⟩
  | cons e p ih => rw [List.forall_mem_cons, Path, ih]

/-- The step that stands between two parts of a path. -/
theorem Path.step {s t : σ} {i : ι} {p q : List (ι × σ)} (h : Path R s (p ++ (i, t) :: q)) :
    R (final s p) i t := (path_append.mp h).2.1

/-- A list is a path when every one of its steps is a step. -/
theorem path_of_steps {s : σ} {p : List (ι × σ)}
    (h : ∀ q i t r, p = q ++ (i, t) :: r → R (final s q) i t) : Path R s p := by
  induction p generalizing s with
  | nil => trivial
  | cons e p ih =>
    refine ⟨h [] e.1 e.2 p rfl, ih fun q i t r hp => ?_⟩
    exact h (e :: q) i t r (by rw [hp]; rfl)

/-- What every step preserves, the path preserves. -/
theorem Path.invariant {P : σ → Prop} (hstep : ∀ s i t, P s → R s i t → P t) {s : σ}
    {p : List (ι × σ)} (hs : P s) (h : Path R s p) : P (final s p) := by
  induction p generalizing s with
  | nil => exact hs
  | cons e p ih => exact ih (hstep s e.1 e.2 hs h.1) h.2

/-- What a step shows of an invariant and its own end, each step of the path shows. -/
theorem Path.along {Q : σ → ι → σ → Prop} {P : σ → Prop}
    (hstep : ∀ s i t, P s → R s i t → P t ∧ Q s i t) {s : σ} {p : List (ι × σ)} (hs : P s)
    (h : Path R s p) : Path Q s p := by
  induction p generalizing s with
  | nil => trivial
  | cons e p ih =>
    obtain ⟨ht, hq⟩ := hstep s e.1 e.2 hs h.1
    exact ⟨hq, ih ht h.2⟩

/-- Where a path first does not do what is asked of each step. -/
theorem exists_first_failure {C : σ → ι → σ → Prop} {s : σ} {p : List (ι × σ)} (h : ¬ Path C s p) :
    ∃ q i t r, p = q ++ (i, t) :: r ∧ Path C s q ∧ ¬ C (final s q) i t := by
  induction p generalizing s with
  | nil => exact absurd trivial h
  | cons e p ih =>
    by_cases he : C s e.1 e.2
    · obtain ⟨q, i, t, r, rfl, hq, hfails⟩ := ih fun hp => h ⟨he, hp⟩
      exact ⟨e :: q, i, t, r, rfl, ⟨he, hq⟩, hfails⟩
    · exact ⟨[], e.1, e.2, p, rfl, trivial, he⟩

/-- A property of the states a path goes through, where each step keeps it exactly under
a condition on the state before and the label: it holds all along the path if and
only if every step meets the condition. -/
theorem Path.along_iff {Inv Good : σ → Prop} {C : σ → ι → Prop} (hgood : ∀ s, Inv s → Good s)
    (hkeep : ∀ s i t, Inv s → R s i t → C s i → Inv t)
    (hneed : ∀ s i t, Inv s → R s i t → Good t → C s i) {s : σ} {p : List (ι × σ)} (hs : Inv s)
    (h : Path R s p) :
    (∀ q r, p = q ++ r → Good (final s q)) ↔ Path (fun s i _ => C s i) s p := by
  induction p generalizing s with
  | nil =>
    refine ⟨fun _ => trivial, fun _ q r hq => ?_⟩
    rw [(List.append_eq_nil_iff.mp hq.symm).1]
    exact hgood s hs
  | cons e p ih =>
    constructor
    · intro hall
      have hC := hneed s e.1 e.2 hs h.1 (hall [e] p rfl)
      have ht := hkeep s e.1 e.2 hs h.1 hC
      exact ⟨hC, (ih ht h.2).mp fun q r hq => hall (e :: q) r (by rw [hq]; rfl)⟩
    · rintro ⟨hC, hrest⟩ q r hq
      have ht := hkeep s e.1 e.2 hs h.1 hC
      cases q with
      | nil => exact hgood s hs
      | cons e' q =>
        obtain ⟨rfl, hpq⟩ := List.cons.inj hq
        exact (ih ht h.2).mpr hrest q r hpq

/-- Two properties of steps that agree where an invariant holds which one of them keeps, agree
along a path. -/
theorem Path.congr_of_invariant {Q C : σ → ι → σ → Prop} {Inv : σ → Prop}
    (hiff : ∀ s i t, Inv s → R s i t → (Q s i t ↔ C s i t))
    (hkeep : ∀ s i t, Inv s → R s i t → Q s i t → Inv t) {s : σ} {p : List (ι × σ)} (hs : Inv s)
    (h : Path R s p) : Path Q s p ↔ Path C s p := by
  induction p generalizing s with
  | nil => exact Iff.rfl
  | cons e p ih =>
    constructor
    · rintro ⟨hq, hrest⟩
      exact ⟨(hiff s e.1 e.2 hs h.1).mp hq, (ih (hkeep s e.1 e.2 hs h.1 hq) h.2).mp hrest⟩
    · rintro ⟨hc, hrest⟩
      have hq := (hiff s e.1 e.2 hs h.1).mpr hc
      exact ⟨hq, (ih (hkeep s e.1 e.2 hs h.1 hq) h.2).mpr hrest⟩

/-- A path of another machine that a path corresponds to, part by part; `f` and `g` show the labels
of both as the same. -/
theorem Path.lift {τ κ μ : Type} {Q : τ → κ → τ → Prop} {f : ι → μ} {g : κ → μ} {E : σ → τ → Prop}
    (hstep : ∀ s i s' t, E s t → R s i s' → ∃ j t', Q t j t' ∧ g j = f i ∧ E s' t')
    {s : σ} {p : List (ι × σ)} {t : τ} (hst : E s t) (h : Path R s p) :
    ∃ q, Path Q t q ∧ (q.map fun e => g e.1) = (p.map fun e => f e.1) ∧ E (final s p) (final t q) ∧
      ∀ q₁ q₂, q = q₁ ++ q₂ → ∃ p₁ p₂, p = p₁ ++ p₂ ∧
        (q₁.map fun e => g e.1) = (p₁.map fun e => f e.1) ∧ E (final s p₁) (final t q₁) := by
  induction p generalizing s t with
  | nil =>
    refine ⟨[], trivial, rfl, hst, fun q₁ q₂ hq => ?_⟩
    obtain ⟨rfl, -⟩ := List.append_eq_nil_iff.mp hq.symm
    exact ⟨[], [], rfl, rfl, hst⟩
  | cons e p ih =>
    obtain ⟨j, t', ht', hj, hrel⟩ := hstep s e.1 e.2 t hst h.1
    obtain ⟨q, hq, hlabels, hfinal, hparts⟩ := ih hrel h.2
    refine ⟨(j, t') :: q, ⟨ht', hq⟩, by rw [List.map_cons, List.map_cons, hlabels, hj], hfinal,
      fun q₁ q₂ hsplit => ?_⟩
    cases q₁ with
    | nil => exact ⟨[], e :: p, rfl, rfl, hst⟩
    | cons e' q₁ =>
      obtain ⟨rfl, hrest⟩ := List.cons.inj hsplit
      obtain ⟨p₁, p₂, rfl, hlabels₁, hfinal₁⟩ := hparts q₁ q₂ hrest
      exact ⟨e :: p₁, p₂, rfl, by rw [List.map_cons, List.map_cons, hlabels₁, hj], hfinal₁⟩

/-- A transaction of which each statement is a path of another machine is one. -/
theorem path_of_commitAll {τ κ : Type} {Q : τ → κ → τ → Prop} {E : τ → σ → Prop} {f : σ → ι → Except ε σ}
    (hstep : ∀ t s i s', E t s → f s i = .ok s' → ∃ q, Path Q t q ∧ E (final t q) s') {s s' : σ}
    {is : List ι} {t : τ} (hst : E t s) (h : commitAll f s is = .ok s') :
    ∃ q, Path Q t q ∧ E (final t q) s' := by
  induction is generalizing s t with
  | nil =>
    cases h
    exact ⟨[], trivial, hst⟩
  | cons i is ih =>
    obtain ⟨u, hu, hrest⟩ := (commitAll_cons f).mp h
    obtain ⟨q, hq, hrel⟩ := hstep t s i u hst hu
    obtain ⟨q', hq', hrel'⟩ := ih hrel hrest
    exact ⟨q ++ q', path_append.mpr ⟨hq, hq'⟩, by rw [final_append]; exact hrel'⟩

/-- An invariant that also looks at the labels so far. -/
theorem Path.label_invariant {P : List ι → σ → Prop}
    (hstep : ∀ l s i t, P l s → R s i t → P (l ++ [i]) t) {s : σ} {p : List (ι × σ)} (hs : P [] s)
    (h : Path R s p) : P (p.map Prod.fst) (final s p) := by
  have hgen : ∀ l s p, P l s → Path R s p → P (l ++ p.map Prod.fst) (final s p) := by
    intro l s p
    induction p generalizing l s with
    | nil => intro hs _; simpa using hs
    | cons e p ih =>
      intro hs h
      have := ih (l ++ [e.1]) e.2 (hstep l s e.1 e.2 hs h.1) h.2
      simpa using this
  exact hgen [] s p hs h

end

/-! ### Since -/

section

variable {mark reset : ι → Prop}

/-- Some label is a mark, and no label after it is a reset. -/
def Since (mark reset : ι → Prop) (l : List ι) : Prop :=
  ∃ p i q, l = p ++ i :: q ∧ mark i ∧ ∀ j ∈ q, ¬ reset j

theorem not_since_nil : ¬ Since mark reset ([] : List ι) := by
  rintro ⟨p, i, q, h, -⟩
  simp at h

/-- One more label: it is a mark itself, or it is no reset and there was a mark. -/
theorem since_concat {l : List ι} {j : ι} :
    Since mark reset (l ++ [j]) ↔ mark j ∨ (Since mark reset l ∧ ¬ reset j) := by
  constructor
  · rintro ⟨p, i, q, h, hmark, hq⟩
    rcases List.eq_nil_or_concat q with rfl | ⟨q, k, rfl⟩
    · obtain ⟨-, hj⟩ := List.append_inj' h rfl
      exact Or.inl ((List.cons.inj hj).1 ▸ hmark)
    · have h' : l ++ [j] = (p ++ i :: q) ++ [k] := by rw [h]; simp
      obtain ⟨hl, hj⟩ := List.append_inj' h' rfl
      obtain rfl := (List.cons.inj hj).1
      exact Or.inr ⟨⟨p, i, q, hl, hmark, fun x hx => hq x (by simp [hx])⟩, hq j (by simp)⟩
  · rintro (hmark | ⟨⟨p, i, q, rfl, hmark, hq⟩, hj⟩)
    · exact ⟨l, j, [], rfl, hmark, nofun⟩
    · refine ⟨p, i, q ++ [j], by simp, hmark, fun x hx => ?_⟩
      rcases List.mem_append.mp hx with hx | hx
      · exact hq x hx
      · rwa [List.mem_singleton.mp hx]

end

end Transition
