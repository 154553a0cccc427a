import ArchiveLedger.Foundation.LinearExtension

/-!
# Tracking what is observed of a subject

An observation gives a value, and knows which other observations it follows
(`covers`).  Two observations contradict each other when their values differ and
neither follows the other.

A tracker remembers the last observation only (`verdict`).  It settles on the value
of each new one that agrees with the last or follows it, and is contested for good
when one does neither.  Its verdict therefore depends on which observations are
neighbours in the order they arrive in:

* `contested_of_decided`, `settled_of_decided` and `decided_of_contested`: every order
  that respects `covers` leads to one verdict, and that verdict names every contradicting
  pair, exactly when the observations are `Decided`;
* `contested_iff_unsettled`: along one order, the tracker is contested whenever some
  contradiction is not settled by a later observation, exactly when the order is
  `Steady`.
-/

namespace Tracker

open LinearExtension

variable {ι ν : Type}

/-- What is known of observations: their values, and which ones each follows. -/
structure Facts (ι ν : Type) where
  value : ι → ν
  covers : ι → ι → Bool

/-- What a tracker knows of its subject. -/
inductive Verdict (ι : Type) where
  | settled (last : ι)
  | contested (left right : ι)

def Verdict.map {κ : Type} (f : ι → κ) : Verdict ι → Verdict κ
  | .settled x => .settled (f x)
  | .contested a b => .contested (f a) (f b)

namespace Facts

variable (F : Facts ι ν)

def Contradicts (x y : ι) : Prop :=
  F.value x ≠ F.value y ∧ F.covers x y = false ∧ F.covers y x = false

variable {F} in
theorem Contradicts.symm {x y : ι} (h : F.Contradicts x y) : F.Contradicts y x :=
  ⟨h.1.symm, h.2.2, h.2.1⟩

variable {F} in
theorem Contradicts.ne {x y : ι} (h : F.Contradicts x y) : x ≠ y := fun e => h.1 (congrArg _ e)

/-- The first observation has to come before the second. -/
def Precedes (x y : ι) : Prop := F.covers y x = true

variable [DecidableEq ν]

/-- The next observation neither agrees with the last nor follows it. -/
def breaks (last next : ι) : Bool := F.value last ≠ F.value next && !F.covers next last

def next : Option (Verdict ι) → ι → Option (Verdict ι)
  | none, x => some (.settled x)
  | some (.settled y), x => some (if F.breaks y x then .contested y x else .settled x)
  | some (.contested a b), _ => some (.contested a b)

/-- A tracker that has seen an observation learns nothing from it again. -/
theorem next_next (v : Option (Verdict ι)) (x : ι) : F.next (F.next v x) x = F.next v x := by
  have hself : F.next (some (.settled x)) x = some (.settled x) := by simp [next, breaks]
  cases v with
  | none => exact hself
  | some v =>
    cases v with
    | contested a b => rfl
    | settled y =>
      by_cases hb : F.breaks y x = true
      · simp [next, hb]
      · simpa [next, hb] using hself

def verdict (l : List ι) : Option (Verdict ι) := l.foldl F.next none

@[simp] theorem verdict_nil : F.verdict [] = none := rfl

theorem verdict_snoc (l : List ι) (x : ι) : F.verdict (l ++ [x]) = F.next (F.verdict l) x := by
  simp [verdict]

/-- A tracker that is contested stays so. -/
theorem verdict_append {l : List ι} {a b : ι} (h : F.verdict l = some (.contested a b))
    (m : List ι) : F.verdict (l ++ m) = some (.contested a b) := by
  induction m using List.reverseRecOn with
  | nil => rwa [List.append_nil]
  | append_singleton m x ih => rw [← List.append_assoc, verdict_snoc, ih]; rfl

theorem verdict_eq_none {l : List ι} : F.verdict l = none ↔ l = [] := by
  induction l using List.reverseRecOn with
  | nil => simp
  | append_singleton l x _ =>
    rw [verdict_snoc]
    have hne : F.next (F.verdict l) x ≠ none := by
      cases F.verdict l with
      | none => simp [next]
      | some v => cases v <;> simp [next]
    simp [hne]

/-- A tracker settles on the last observation. -/
theorem getLast?_of_settled {l : List ι} {x : ι} (h : F.verdict l = some (.settled x)) :
    l.getLast? = some x := by
  induction l using List.reverseRecOn with
  | nil => cases h
  | append_singleton l y _ =>
    rw [verdict_snoc] at h
    have hxy : x = y := by
      cases hv : F.verdict l with
      | none => rw [hv] at h; simpa [next] using h.symm
      | some v =>
        rw [hv] at h
        cases v with
        | settled z =>
          by_cases hb : F.breaks z y = true
          · simp [next, hb] at h
          · simpa [next, hb] using h.symm
        | contested a b => simp [next] at h
    rw [hxy]
    simp

/-- Trackers that see the same of each observation come to the same verdict. -/
theorem verdict_map {κ : Type} {G : Facts κ ν} {f : ι → κ} {l : List ι}
    (hvalue : ∀ x ∈ l, G.value (f x) = F.value x)
    (hcovers : ∀ x ∈ l, ∀ y ∈ l, G.covers (f x) (f y) = F.covers x y) :
    G.verdict (l.map f) = (F.verdict l).map (Verdict.map f) := by
  induction l using List.reverseRecOn with
  | nil => rfl
  | append_singleton l y ih =>
    have ih := ih (fun x hx => hvalue x (List.mem_append_left _ hx))
      fun x hx z hz => hcovers x (List.mem_append_left _ hx) z (List.mem_append_left _ hz)
    rw [List.map_append, List.map_singleton, verdict_snoc, verdict_snoc, ih]
    cases hv : F.verdict l with
    | none => rfl
    | some v =>
      cases v with
      | contested a b => rfl
      | settled x =>
        have hx : x ∈ l ++ [y] := List.mem_append_left _ (List.mem_of_getLast? (F.getLast?_of_settled hv))
        have hy : y ∈ l ++ [y] := by simp
        have hb : G.breaks (f x) (f y) = F.breaks x y := by
          rw [breaks, breaks, hvalue x hx, hvalue y hy, hcovers y hy x hx]
        simp only [Option.map_some, Verdict.map, next, hb]
        split <;> rfl

/-- A contested tracker saw the two observations it names one after the other. -/
theorem breaks_of_contested {l : List ι} {a b : ι} (h : F.verdict l = some (.contested a b)) :
    ∃ pre post, l = pre ++ a :: b :: post ∧ F.breaks a b = true := by
  induction l using List.reverseRecOn with
  | nil => cases h
  | append_singleton l y ih =>
    rw [verdict_snoc] at h
    cases hv : F.verdict l with
    | none => rw [hv] at h; simp [next] at h
    | some v =>
      rw [hv] at h
      cases v with
      | settled z =>
        by_cases hb : F.breaks z y = true
        · simp only [next, hb, if_true, Option.some.injEq, Verdict.contested.injEq] at h
          obtain ⟨rfl, rfl⟩ := h
          obtain ⟨pre, rfl⟩ := List.getLast?_eq_some_iff.mp (F.getLast?_of_settled hv)
          exact ⟨pre, [], by simp, hb⟩
        · simp [next, hb] at h
      | contested c d =>
        simp only [next, Option.some.injEq, Verdict.contested.injEq] at h
        obtain ⟨rfl, rfl⟩ := h
        obtain ⟨pre, post, rfl, hb⟩ := ih hv
        exact ⟨pre, post ++ [y], by simp, hb⟩

/-- Two neighbours that break the tracker leave it contested. -/
theorem contested_of_breaks {pre post : List ι} {x y : ι} (hb : F.breaks x y = true) :
    ∃ a b, F.verdict (pre ++ x :: y :: post) = some (.contested a b) := by
  have hxy : ∃ a b, F.verdict (pre ++ [x] ++ [y]) = some (.contested a b) := by
    rw [verdict_snoc]
    cases hv : F.verdict (pre ++ [x]) with
    | none => exact absurd (F.verdict_eq_none.mp hv) (by simp)
    | some v =>
      cases v with
      | settled z =>
        have hz : x = z := by simpa using F.getLast?_of_settled hv
        subst hz
        exact ⟨x, y, by simp [next, hb]⟩
      | contested a b => exact ⟨a, b, rfl⟩
  obtain ⟨a, b, h⟩ := hxy
  refine ⟨a, b, ?_⟩
  have := F.verdict_append h post
  simpa using this

/-! ### Orders that respect what follows what -/

variable {F} {L M : List ι}

/-- In an order that respects `covers`, neighbours that break the tracker contradict
each other. -/
theorem contradicts_of_breaks {pre post : List ι} {x y : ι}
    (h : Respects F.Precedes (pre ++ x :: y :: post)) (hb : F.breaks x y = true) :
    F.Contradicts x y := by
  have hxy : ¬ F.Precedes y x := by
    have := (List.pairwise_append.mp h).2.1
    exact (List.pairwise_cons.mp this).1 y (by simp)
  obtain ⟨hv, hc⟩ := Bool.and_eq_true_iff.mp hb
  exact ⟨by simpa using hv, by simpa [Precedes] using hxy, by simpa using hc⟩

theorem Contradicts.breaks {x y : ι} (h : F.Contradicts x y) : F.breaks x y = true := by
  simp [Facts.breaks, h.1, h.2.2]

theorem contradicts_of_contested {l : List ι} {a b : ι} (hr : Respects F.Precedes l)
    (h : F.verdict l = some (.contested a b)) : a ∈ l ∧ b ∈ l ∧ F.Contradicts a b := by
  obtain ⟨pre, post, rfl, hb⟩ := F.breaks_of_contested h
  exact ⟨by simp, by simp, contradicts_of_breaks hr hb⟩

section Subject

variable (subject : ι → Bool)

/-- The observations of one subject. -/
def about (L : List ι) : List ι := L.filter subject

variable {subject}

theorem mem_about {x : ι} : x ∈ about subject L ↔ x ∈ L ∧ subject x = true := by
  simp [about]

theorem about_snoc (l : List ι) (x : ι) :
    about subject (l ++ [x]) = if subject x = true then about subject l ++ [x] else about subject l := by
  unfold about
  rw [List.filter_append]
  split <;> simp [*]

theorem about_perm (h : M.Perm L) : (about subject M).Perm (about subject L) := h.filter _

variable (F) (L) in
/-- The first of two members has to come before the second, at any distance. -/
def Before : ι → ι → Prop := Relation.TransGen fun x y => x ∈ L ∧ F.Precedes x y

variable (F) (subject) (L) in
/-- The subject has at most one contradicting pair, and its other observations come
all before or all after both. -/
structure Decided : Prop where
  unique : ∀ x ∈ L, ∀ y ∈ L, ∀ x' ∈ L, ∀ y' ∈ L, subject x = true → subject y = true →
    subject x' = true → subject y' = true → F.Contradicts x y → F.Contradicts x' y' →
    (x' = x ∧ y' = y) ∨ (x' = y ∧ y' = x)
  compared : ∀ x ∈ L, ∀ y ∈ L, ∀ z ∈ L, subject x = true → subject y = true → subject z = true →
    F.Contradicts x y → z ≠ x → z ≠ y →
    (F.Before L z x ∧ F.Before L z y) ∨ (F.Before L x z ∧ F.Before L y z)

omit [DecidableEq ν] in
theorem respects_before (hr : Respects F.Precedes M) (hp : M.Perm L) (hnd : L.Nodup) :
    Respects (F.Before L) M := by
  have hM : Respects (fun x y => x ∈ L ∧ F.Precedes x y) M := hr.imp fun h hxy => h hxy.2
  exact hM.transGen (hp.symm.nodup hnd) fun x y h => hp.mem_iff.mpr h.1

omit [DecidableEq ν] in
/-- The two of a contradicting pair are neighbours among the observations of their
subject. -/
theorem neighbours_of_decided (hd : F.Decided L subject) (hnd : L.Nodup) (hp : M.Perm L)
    (hr : Respects F.Precedes M) {x y : ι} (hx : x ∈ L) (hy : y ∈ L) (hs : subject x = true)
    (hs' : subject y = true)
    (hc : F.Contradicts x y) {pre mid post : List ι}
    (he : about subject M = pre ++ x :: (mid ++ y :: post)) : mid = [] := by
  by_contra hne
  obtain ⟨z, hz⟩ := List.exists_mem_of_ne_nil mid hne
  have hb : Respects (F.Before L) (pre ++ x :: (mid ++ y :: post)) :=
    he ▸ (respects_before hr hp hnd).filter _
  have hndM : (pre ++ x :: (mid ++ y :: post)).Nodup := he ▸ (hp.symm.nodup hnd).filter _
  have htail := (List.pairwise_append.mp hb).2.1
  have hxz : ¬ F.Before L z x := (List.pairwise_cons.mp htail).1 z (by simp [hz])
  have hzy : ¬ F.Before L y z :=
    (List.pairwise_append.mp (List.pairwise_cons.mp htail).2).2.2 z hz y (by simp)
  have hndt := (List.nodup_append.mp hndM).2.1
  have hzx : z ≠ x := by
    rintro rfl
    exact (List.nodup_cons.mp hndt).1 (by simp [hz])
  have hzy' : z ≠ y := by
    rintro rfl
    exact (List.nodup_append.mp (List.nodup_cons.mp hndt).2).2.2 z hz z (by simp) rfl
  have hzM : z ∈ about subject M := by rw [he]; simp [hz]
  obtain ⟨hzM, hzs⟩ := mem_about.mp hzM
  rcases hd.compared x hx y hy z (hp.mem_iff.mp hzM) hs hs' hzs hc hzx hzy' with h | h
  · exact hxz h.1
  · exact hzy h.2

/-- Where the observations are decided, every order that respects them names the
contradicting pair of a subject. -/
theorem contested_of_decided (hd : F.Decided L subject) (hnd : L.Nodup) (hp : M.Perm L)
    (hr : Respects F.Precedes M) {x y : ι} (hx : x ∈ L) (hy : y ∈ L) (hs : subject x = true)
    (hs' : subject y = true)
    (hc : F.Contradicts x y) :
    F.verdict (about subject M) = some (.contested x y) ∨
      F.verdict (about subject M) = some (.contested y x) := by
  have hxM : x ∈ about subject M := mem_about.mpr ⟨hp.mem_iff.mpr hx, hs⟩
  have hyM : y ∈ about subject M := mem_about.mpr ⟨hp.mem_iff.mpr hy, hs'⟩
  have hcontested : ∃ a b, F.verdict (about subject M) = some (.contested a b) := by
    obtain ⟨pre, rest, he⟩ := List.append_of_mem hxM
    rw [he] at hyM
    rcases List.mem_append.mp hyM with hpre | hrest
    · obtain ⟨p, q, rfl⟩ := List.append_of_mem hpre
      have he' : about subject M = p ++ y :: (q ++ x :: rest) := by rw [he]; simp
      have hq := neighbours_of_decided hd hnd hp hr hy hx hs' hs hc.symm he'
      subst hq
      rw [he]
      have hbroken : ∃ a b, F.verdict (p ++ y :: x :: rest) = some (.contested a b) :=
        F.contested_of_breaks hc.symm.breaks
      simpa using hbroken
    · obtain ⟨p, q, rfl⟩ := List.append_of_mem (List.mem_of_ne_of_mem hc.ne.symm hrest)
      have hq := neighbours_of_decided hd hnd hp hr hx hy hs hs' hc he
      subst hq
      rw [he]
      exact F.contested_of_breaks hc.breaks
  obtain ⟨a, b, hab⟩ := hcontested
  obtain ⟨ha, hb, hcab⟩ := contradicts_of_contested (hr.filter _) hab
  obtain ⟨ha, hsa⟩ := mem_about.mp ha
  obtain ⟨hb, hsb⟩ := mem_about.mp hb
  rcases hd.unique x hx y hy a (hp.mem_iff.mp ha) b (hp.mem_iff.mp hb) hs hs' hsa hsb hc hcab with
    ⟨rfl, rfl⟩ | ⟨rfl, rfl⟩
  · exact Or.inl hab
  · exact Or.inr hab

/-- A subject without contradictions is settled on one value in every order that
respects the observations. -/
theorem settled_of_forall (hnone : ∀ x ∈ L, ∀ y ∈ L, subject x = true → subject y = true →
      ¬ F.Contradicts x y) (hp : M.Perm L) (hr : Respects F.Precedes M)
    (hrL : Respects F.Precedes L) :
    (about subject L = [] ∧ about subject M = []) ∨
      ∃ x y, F.verdict (about subject L) = some (.settled x) ∧
        F.verdict (about subject M) = some (.settled y) ∧ F.value x = F.value y := by
  have hlast : ∀ N : List ι, N.Perm L → Respects F.Precedes N → about subject N ≠ [] →
      ∃ x, F.verdict (about subject N) = some (.settled x) := by
    intro N hN hrN hne
    cases hv : F.verdict (about subject N) with
    | none => exact absurd (F.verdict_eq_none.mp hv) hne
    | some v =>
      cases v with
      | settled x => exact ⟨x, rfl⟩
      | contested a b =>
        obtain ⟨ha, hb, hc⟩ := contradicts_of_contested (hrN.filter _) hv
        obtain ⟨ha, hsa⟩ := mem_about.mp ha
        obtain ⟨hb, hsb⟩ := mem_about.mp hb
        exact absurd hc (hnone a (hN.mem_iff.mp ha) b (hN.mem_iff.mp hb) hsa hsb)
  by_cases hne : about subject L = []
  · exact Or.inl ⟨hne, List.Perm.eq_nil (hne ▸ about_perm hp)⟩
  · have hneM : about subject M ≠ [] := fun e => hne (List.Perm.eq_nil (e ▸ (about_perm hp).symm))
    obtain ⟨x, hx⟩ := hlast L (List.Perm.refl _) hrL hne
    obtain ⟨y, hy⟩ := hlast M hp hr hneM
    refine Or.inr ⟨x, y, hx, hy, ?_⟩
    by_contra hv
    -- the last of one order does not follow the last of the other
    have hnot : ∀ {N : List ι} {u v : ι}, Respects F.Precedes (about subject N) →
        (about subject N).getLast? = some u → v ∈ about subject N → v ≠ u →
        F.covers v u = false := by
      intro N u v hN hu hv hne
      obtain ⟨pre, he⟩ := List.getLast?_eq_some_iff.mp hu
      rw [he] at hN hv
      have hpre : v ∈ pre := by simpa [hne] using hv
      have := (List.pairwise_append.mp hN).2.2 v hpre u (by simp)
      simpa [Precedes] using this
    have hxL := F.getLast?_of_settled hx
    have hyM := F.getLast?_of_settled hy
    have hxmem : x ∈ about subject L := List.mem_of_getLast? hxL
    have hymem : y ∈ about subject M := List.mem_of_getLast? hyM
    have hxM : x ∈ about subject M := (about_perm hp).mem_iff.mpr hxmem
    have hyL : y ∈ about subject L := (about_perm hp).mem_iff.mp hymem
    have hxy : x ≠ y := fun e => hv (congrArg _ e)
    refine hnone x (mem_about.mp hxmem).1 y (mem_about.mp hyL).1 (mem_about.mp hxmem).2
      (mem_about.mp hyL).2 ⟨hv, ?_, ?_⟩
    · exact hnot (hr.filter _) hyM hxM hxy
    · exact hnot (hrL.filter _) hxL hyL hxy.symm

omit [DecidableEq ν] in
/-- An observation that comes neither before nor after both of a pair can stand between
them. -/
theorem exists_between (hnd : L.Nodup) (hr : Respects F.Precedes L) {x y z : ι} (hx : x ∈ L)
    (hy : y ∈ L) (hz : z ∈ L) (hxy : x ≠ y) (hzx : z ≠ x) (hzy : z ≠ y)
    (hbefore : ¬ (F.Before L z x ∧ F.Before L z y)) (hafter : ¬ (F.Before L x z ∧ F.Before L y z)) :
    ∃ M, M.Perm L ∧ Respects F.Precedes M ∧ ([x, z, y].Sublist M ∨ [y, z, x].Sublist M) := by
  have hrL : Respects (fun x y => x ∈ L ∧ F.Precedes x y) L := hr.imp fun h hxy => h hxy.2
  have hB : Respects (F.Before L) L := respects_before hr (List.Perm.refl _) hnd
  have hcycle : ∀ {u v}, u ∈ L → v ∈ L → u ≠ v → F.Before L u v → ¬ F.Before L v u :=
    fun hu hv hne huv hvu => hne (hB.antisymm hu hv huv hvu)
  have hplace : ∀ {u v : ι}, u ∈ L → v ∈ L → u ≠ v → z ≠ u → z ≠ v → ¬ F.Before L z u →
      ¬ F.Before L v u → ¬ F.Before L v z →
      ∃ M, M.Perm L ∧ Respects F.Precedes M ∧ [u, z, v].Sublist M := by
    intro u v hu hv huv hzu hzv h₁ h₂ h₃
    have hnot : ∀ {s t : ι}, s ≠ t → ¬ F.Before L s t →
        ¬ Relation.ReflTransGen (fun x y => x ∈ L ∧ F.Precedes x y) s t := by
      intro s t hst hb h
      rcases Relation.reflTransGen_iff_eq_or_transGen.mp h with e | e
      · exact hst e.symm
      · exact hb e
    obtain ⟨M, hp, hM, hs⟩ := hrL.exists_between hu hz hv (hnot hzu h₁) (hnot huv.symm h₂)
      (hnot hzv.symm h₃)
    refine ⟨M, hp, ?_, hs⟩
    exact List.Pairwise.imp_of_mem
      (fun {s t} _ ht h hst => h ⟨hp.mem_iff.mp ht, hst⟩) hM
  by_cases h₁ : ¬ F.Before L z x ∧ ¬ F.Before L y x ∧ ¬ F.Before L y z
  · obtain ⟨M, hp, hM, hs⟩ := hplace hx hy hxy hzx hzy h₁.1 h₁.2.1 h₁.2.2
    exact ⟨M, hp, hM, Or.inl hs⟩
  · by_cases h₂ : ¬ F.Before L z y ∧ ¬ F.Before L x y ∧ ¬ F.Before L x z
    · obtain ⟨M, hp, hM, hs⟩ := hplace hy hx hxy.symm hzy hzx h₂.1 h₂.2.1 h₂.2.2
      exact ⟨M, hp, hM, Or.inr hs⟩
    · exfalso
      have htrans : ∀ {s t u}, F.Before L s t → F.Before L t u → F.Before L s u :=
        fun h h' => Relation.TransGen.trans h h'
      have h₁ : F.Before L z x ∨ F.Before L y x ∨ F.Before L y z := by
        simpa only [not_and_or, not_not] using h₁
      have h₂ : F.Before L z y ∨ F.Before L x y ∨ F.Before L x z := by
        simpa only [not_and_or, not_not] using h₂
      rcases h₁ with h₁ | h₁ | h₁ <;> rcases h₂ with h₂ | h₂ | h₂
      · exact hbefore ⟨h₁, h₂⟩
      · exact hbefore ⟨h₁, htrans h₁ h₂⟩
      · exact hcycle hz hx hzx h₁ h₂
      · exact hbefore ⟨htrans h₂ h₁, h₂⟩
      · exact hcycle hy hx hxy.symm h₁ h₂
      · exact hafter ⟨h₂, htrans h₁ h₂⟩
      · exact hcycle hy hz hzy.symm h₁ h₂
      · exact hafter ⟨htrans h₂ h₁, h₁⟩
      · exact hafter ⟨h₂, h₁⟩

/-- If every order that respects the observations names every contradicting pair, they
are decided. -/
theorem decided_of_contested (hnd : L.Nodup) (hr : Respects F.Precedes L)
    (hall : ∀ M : List ι, M.Perm L → Respects F.Precedes M → ∀ x ∈ L, ∀ y ∈ L,
      subject x = true → subject y = true → F.Contradicts x y →
      F.verdict (about subject M) = some (.contested x y) ∨
        F.verdict (about subject M) = some (.contested y x)) :
    F.Decided L subject where
  unique x hx y hy x' hx' y' hy' hsx hsy hsx' hsy' hc hc' := by
    have h := hall L (List.Perm.refl _) hr x hx y hy hsx hsy hc
    have h' := hall L (List.Perm.refl _) hr x' hx' y' hy' hsx' hsy' hc'
    rcases h with h | h <;> rcases h' with h' | h' <;> rw [h] at h' <;> cases h'
    · exact Or.inl ⟨rfl, rfl⟩
    · exact Or.inr ⟨rfl, rfl⟩
    · exact Or.inr ⟨rfl, rfl⟩
    · exact Or.inl ⟨rfl, rfl⟩
  compared x hx y hy z hz hsx hsy hsz hc hzx hzy := by
    by_contra hno
    obtain ⟨hbefore, hafter⟩ := not_or.mp hno
    obtain ⟨M, hp, hM, hsub⟩ := exists_between hnd hr hx hy hz hc.ne hzx hzy hbefore hafter
    have hndM : (about subject M).Nodup := (hp.symm.nodup hnd).filter _
    have habout : ∀ {u v : ι}, subject u = true → subject v = true →
        [u, z, v].Sublist M → [u, z, v].Sublist (about subject M) := by
      intro u v hu hv h
      have := h.filter subject
      rwa [List.filter_eq_self.mpr (by simp [hu, hv, hsz])] at this
    have hsep : ∀ {a b : ι}, F.verdict (about subject M) = some (.contested a b) →
        ¬ (a = x ∧ b = y) ∧ ¬ (a = y ∧ b = x) := by
      intro a b h
      obtain ⟨pre, post, he, _⟩ := F.breaks_of_contested h
      rcases hsub with hsub | hsub
      · exact not_neighbours hndM (habout hsx hsy hsub) he
      · exact (not_neighbours hndM (habout hsy hsx hsub) he).symm
    rcases hall M hp hM x hx y hy hsx hsy hc with h | h
    · exact (hsep h).1 ⟨rfl, rfl⟩
    · exact (hsep h).2 ⟨rfl, rfl⟩

end Subject

/-! ### Contradictions and what settles them -/

variable (F) in
/-- Some contradiction is not settled by an observation that follows both sides. -/
def Unsettled (l : List ι) : Prop :=
  ∃ x ∈ l, ∃ y ∈ l, F.Contradicts x y ∧ ∀ c ∈ l, ¬ (F.covers c x = true ∧ F.covers c y = true)

variable (F) in
/-- The first observation that contradicts an earlier one contradicts its predecessor, and
from then on some contradiction is never settled. -/
structure Steady (L : List ι) : Prop where
  first : ∀ pre x, pre ++ [x] <+: L → (∀ y ∈ pre, ∀ z ∈ pre, ¬ F.Contradicts y z) →
    (∃ y ∈ pre, F.Contradicts y x) → ∃ y, pre.getLast? = some y ∧ F.Contradicts y x
  stays : ∀ l, l <+: L → (∃ x ∈ l, ∃ y ∈ l, F.Contradicts x y) → F.Unsettled l

variable (F) in
def IsContested (l : List ι) : Prop := ∃ a b, F.verdict l = some (.contested a b)

theorem IsContested.of_initial {l m : List ι} (h : F.IsContested l) (hp : l <+: m) :
    F.IsContested m := by
  obtain ⟨rest, rfl⟩ := hp
  obtain ⟨a, b, hab⟩ := h
  exact ⟨a, b, F.verdict_append hab rest⟩

omit [DecidableEq ν] in
/-- The newest observation of a list follows none that contradicts it, and no other one
follows it. -/
theorem unsettled_snoc {pre : List ι} {x y : ι} (hr : Respects F.Precedes (pre ++ [x]))
    (hy : y ∈ pre) (hc : F.Contradicts y x) : F.Unsettled (pre ++ [x]) := by
  refine ⟨y, by simp [hy], x, by simp, hc, ?_⟩
  rintro c hcm ⟨hcy, hcx⟩
  rcases List.mem_append.mp hcm with hcm | hcm
  · exact (List.pairwise_append.mp hr).2.2 c hcm x (by simp) hcx
  · rw [List.mem_singleton.mp hcm] at hcy
    rw [hc.2.2] at hcy
    cases hcy

/-- Along an order, the tracker of a single subject is contested whenever some
contradiction is unsettled, and only then, exactly when the order is steady. -/
theorem contested_iff_unsettled (hr : Respects F.Precedes L) :
    (∀ l, l <+: L → (F.IsContested l ↔ F.Unsettled l)) ↔ F.Steady L := by
  constructor
  · intro h
    have hnewest : ∀ pre x, pre ++ [x] <+: L → (∃ y ∈ pre, F.Contradicts y x) →
        F.IsContested (pre ++ [x]) := by
      rintro pre x hp ⟨y, hy, hc⟩
      exact (h _ hp).mpr (unsettled_snoc (hr.of_initial hp) hy hc)
    refine ⟨?_, ?_⟩
    · intro pre x hp hnone hsome
      obtain ⟨a, b, hab⟩ := hnewest pre x hp hsome
      obtain ⟨p, q, he, hb⟩ := F.breaks_of_contested hab
      have hc : F.Contradicts a b := contradicts_of_breaks (he ▸ hr.of_initial hp) hb
      -- the contested pair ends with the newest, for the others do not contradict each other
      cases q using List.reverseRecOn with
      | nil =>
        have he' : pre ++ [x] = (p ++ [a]) ++ [b] := by simpa using he
        obtain ⟨rfl, hx⟩ := List.append_inj' he' rfl
        cases hx
        exact ⟨a, by simp, hc⟩
      | append_singleton q w =>
        have he' : pre ++ [x] = (p ++ a :: b :: q) ++ [w] := by simpa using he
        obtain ⟨rfl, -⟩ := List.append_inj' he' rfl
        exact absurd hc (hnone a (by simp) b (by simp))
    · intro l hl hpair
      refine (h l hl).mp ?_
      induction l using List.reverseRecOn with
      | nil =>
        obtain ⟨x, hx, -⟩ := hpair
        cases hx
      | append_singleton pre w ih =>
        have hpre : pre <+: L := (List.prefix_append _ _).trans hl
        by_cases hold : ∃ x ∈ pre, ∃ y ∈ pre, F.Contradicts x y
        · exact (ih hpre hold).of_initial (List.prefix_append _ _)
        · refine hnewest pre w hl ?_
          obtain ⟨x, hx, y, hy, hc⟩ := hpair
          rcases List.mem_append.mp hx with hx | hx <;> rcases List.mem_append.mp hy with hy | hy
          · exact absurd ⟨x, hx, y, hy, hc⟩ hold
          · rw [List.mem_singleton.mp hy] at hc
            exact ⟨x, hx, hc⟩
          · rw [List.mem_singleton.mp hx] at hc
            exact ⟨y, hy, hc.symm⟩
          · rw [List.mem_singleton.mp hx, List.mem_singleton.mp hy] at hc
            exact absurd rfl hc.ne
  · intro hs l hl
    constructor
    · rintro ⟨a, b, hab⟩
      obtain ⟨ha, hb, hc⟩ := contradicts_of_contested (hr.of_initial hl) hab
      exact hs.stays l hl ⟨a, ha, b, hb, hc⟩
    · rintro ⟨x, hx, y, hy, hc, -⟩
      have hpair : ∃ x ∈ l, ∃ y ∈ l, F.Contradicts x y := ⟨x, hx, y, hy, hc⟩
      clear hx hy hc x y
      induction l using List.reverseRecOn with
      | nil =>
        obtain ⟨x, hx, -⟩ := hpair
        cases hx
      | append_singleton pre w ih =>
        have hpre : pre <+: L := (List.prefix_append _ _).trans hl
        by_cases hold : ∃ x ∈ pre, ∃ y ∈ pre, F.Contradicts x y
        · exact (ih hpre hold).of_initial (List.prefix_append _ _)
        · have hnone : ∀ y ∈ pre, ∀ z ∈ pre, ¬ F.Contradicts y z :=
            fun y hy z hz hc => hold ⟨y, hy, z, hz, hc⟩
          have hsome : ∃ y ∈ pre, F.Contradicts y w := by
            obtain ⟨x, hx, y, hy, hc⟩ := hpair
            rcases List.mem_append.mp hx with hx | hx <;> rcases List.mem_append.mp hy with hy | hy
            · exact absurd ⟨x, hx, y, hy, hc⟩ hold
            · rw [List.mem_singleton.mp hy] at hc
              exact ⟨x, hx, hc⟩
            · rw [List.mem_singleton.mp hx] at hc
              exact ⟨y, hy, hc.symm⟩
            · rw [List.mem_singleton.mp hx, List.mem_singleton.mp hy] at hc
              exact absurd rfl hc.ne
          obtain ⟨y, hy, hc⟩ := hs.first pre w hl hnone hsome
          obtain ⟨p, rfl⟩ := List.getLast?_eq_some_iff.mp hy
          have hbroken : ∃ a b, F.verdict (p ++ y :: [w]) = some (.contested a b) :=
            F.contested_of_breaks hc.breaks
          simpa [IsContested] using hbroken

end Facts

end Tracker
