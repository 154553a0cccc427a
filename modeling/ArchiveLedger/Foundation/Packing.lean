import ArchiveLedger.Foundation.Transition

/-!
# Packing a stream into chunks

A packer takes items from a queue, prepares each, and gathers them into a chunk until its slots
are full or a bound on their weights is passed (`fill`).  A chunk that does not fit is cut from its
end (`shrink`).  What a chunk does not keep goes back to the front of the queue, prepared, and is
prepared again when it comes up.

Packing ends (`loop_total`) and its chunks are the prepared items in their order (`loop_ok`); it fails
only for an item that cannot be prepared, one that does not fit alone, or a failing emission
(`loop_error`).
-/

namespace Packing

open Transition

variable {ε α σ : Type}

/-- What is still to be packed: the items that came back, then the source. -/
structure Queue (ε α : Type) where
  pending : List α
  source : List (Except ε α)
  exhausted : Bool

namespace Queue

/-- The next item; a source is not asked again after its end. -/
def next : Queue ε α → Option (Except ε α) × Queue ε α
  | ⟨a :: pending, source, exhausted⟩ => (some (.ok a), ⟨pending, source, exhausted⟩)
  | ⟨[], source, true⟩ => (none, ⟨[], source, true⟩)
  | ⟨[], [], false⟩ => (none, ⟨[], [], true⟩)
  | ⟨[], i :: source, false⟩ => (some i, ⟨[], source, false⟩)

def putBack (q : Queue ε α) (a : α) : Queue ε α := { q with pending := a :: q.pending }

def size (q : Queue ε α) : Nat := q.pending.length + q.source.length

/-- A source before its first item. -/
def ofSource (source : List (Except ε α)) : Queue ε α := ⟨[], source, false⟩

end Queue

structure Packer (ε α σ : Type) where
  slots : Nat
  cap : Nat
  weight : α → Nat
  prepare : σ → α → Except ε α
  fits : σ → List α → Bool
  emit : σ → List α → Except ε σ
  tooLarge : σ → ε
  stuck : ε

namespace Packer

variable (p : Packer ε α σ)

/-- Items for a chunk; the first is taken whatever its weight. -/
def fill (s : σ) : Nat → List α → Nat → Queue ε α → Except ε (List α × Queue ε α)
  | 0, chunk, _, q => .ok (chunk, q)
  | slots + 1, chunk, weight, q =>
      match q.next with
      | (none, q) => .ok (chunk, q)
      | (some item, q) => do
          let item ← item
          let item ← p.prepare s item
          if !chunk.isEmpty && p.cap < weight + p.weight item then .ok (chunk, q.putBack item)
          else fill s slots (chunk ++ [item]) (weight + p.weight item) q

/-- The longest start of a chunk that fits, by its first item and the others from the last one on. -/
def shrink (s : σ) (first : α) : List α → List α → Except ε (List α × List α)
  | [], pending => if p.fits s [first] then .ok ([first], pending) else .error (p.tooLarge s)
  | last :: rest, pending =>
      if p.fits s (first :: (last :: rest).reverse) then .ok (first :: (last :: rest).reverse, pending)
      else shrink s first rest (last :: pending)

/-- The next chunk and the queue after it, or nothing at the end. -/
def pack (s : σ) (q : Queue ε α) : Except ε (Option (List α × Queue ε α)) := do
  let (items, q) ← p.fill s p.slots [] 0 q
  match items with
  | [] => if q.exhausted && q.pending.isEmpty then .ok none else .error p.stuck
  | first :: rest => do
      let (items, pending) ← p.shrink s first rest.reverse q.pending
      .ok (some (items, { q with pending := pending }))

/-- Chunks until the end. -/
def loop : Nat → σ → Queue ε α → Option (Except ε (σ × List (List α)))
  | 0, _, _ => none
  | rounds + 1, s, q =>
      match p.pack s q with
      | .error e => some (.error e)
      | .ok none => some (.ok (s, []))
      | .ok (some (items, q)) =>
          match p.emit s items with
          | .error e => some (.error e)
          | .ok t => (loop rounds t q).map fun result => result.map fun r => (r.1, items :: r.2)

/-! ### What a queue yields -/

/-- Preparing depends on the item alone and changes nothing the second time. -/
structure Stable : Prop where
  same : ∀ s t a b, p.prepare s a = .ok b → p.prepare t a = .ok b
  again : ∀ s t a b, p.prepare s a = .ok b → p.prepare t b = .ok b

/-- The source gives an item that is prepared to this one. -/
def Reads (i : Except ε α) (b : α) : Prop := ∃ a, i = .ok a ∧ ∀ s, p.prepare s a = .ok b

/-- These items, prepared, are the next of the queue, and leave the second queue. -/
def Yields (q : Queue ε α) (items : List α) (q' : Queue ε α) : Prop :=
  ∃ read prepared, q.source = read ++ q'.source ∧ List.Forall₂ p.Reads read prepared ∧
    q.pending ++ prepared = items ++ q'.pending

/-- What came back is prepared, and an exhausted source has no more items. -/
structure Settled (q : Queue ε α) : Prop where
  prepared : ∀ a ∈ q.pending, ∀ s, p.prepare s a = .ok a
  ended : q.exhausted = true → q.source = []

variable {p}

theorem Yields.refl (q : Queue ε α) : p.Yields q [] q := ⟨[], [], rfl, .nil, List.append_nil _⟩

theorem Yields.trans {q q' q'' : Queue ε α} {items items' : List α} (h : p.Yields q items q')
    (h' : p.Yields q' items' q'') : p.Yields q (items ++ items') q'' := by
  obtain ⟨read, prepared, hsource, hread, hitems⟩ := h
  obtain ⟨read', prepared', hsource', hread', hitems'⟩ := h'
  refine ⟨read ++ read', prepared ++ prepared', ?_, List.rel_append hread hread', ?_⟩
  · rw [hsource, hsource', List.append_assoc]
  · rw [← List.append_assoc, hitems, List.append_assoc, hitems', List.append_assoc]

/-- Items at the end of what was taken may go back. -/
theorem Yields.back {q q' : Queue ε α} {items back : List α} (h : p.Yields q (items ++ back) q') :
    p.Yields q items { q' with pending := back ++ q'.pending } := by
  obtain ⟨read, prepared, hsource, hread, hitems⟩ := h
  exact ⟨read, prepared, hsource, hread, by rw [hitems, List.append_assoc]⟩

theorem Yields.size {q q' : Queue ε α} {items : List α} (h : p.Yields q items q') :
    q.size = items.length + q'.size := by
  obtain ⟨read, prepared, hsource, hread, hitems⟩ := h
  have hlength := congrArg List.length hitems
  have hsame := hread.length_eq
  rw [List.length_append, List.length_append] at hlength
  rw [Queue.size, Queue.size, hsource, List.length_append]
  omega

theorem Yields.source_subset {q q' : Queue ε α} {items : List α} (h : p.Yields q items q') :
    q'.source ⊆ q.source := by
  obtain ⟨read, prepared, hsource, -, -⟩ := h
  rw [hsource]
  exact List.subset_append_right read _

theorem exists_reads {read : List (Except ε α)} {prepared : List α} (h : List.Forall₂ p.Reads read prepared)
    {b : α} (hb : b ∈ prepared) : ∃ i ∈ read, p.Reads i b := by
  induction h with
  | nil => cases hb
  | cons hfirst _ ih =>
    rcases List.mem_cons.mp hb with rfl | hb
    · exact ⟨_, List.mem_cons_self, hfirst⟩
    · obtain ⟨i, hi, hib⟩ := ih hb
      exact ⟨i, List.mem_cons_of_mem _ hi, hib⟩

/-- What a queue yields is prepared, and so is what it leaves pending. -/
theorem Yields.prepared (hp : p.Stable) {q q' : Queue ε α} {items : List α} (h : p.Yields q items q')
    (hq : p.Settled q) {a : α} (ha : a ∈ items ++ q'.pending) (s : σ) : p.prepare s a = .ok a := by
  obtain ⟨read, prepared, -, hread, hitems⟩ := h
  rw [← hitems, List.mem_append] at ha
  rcases ha with ha | ha
  · exact hq.prepared a ha s
  · obtain ⟨i, -, b, -, hb⟩ := exists_reads hread ha
    exact hp.again s s b a (hb s)

/-! ### One item -/

/-- An item comes from what is pending or, when that is empty, from the source. -/
theorem next_eq_some {q q' : Queue ε α} {i : Except ε α} (h : q.next = (some i, q')) :
    q'.exhausted = q.exhausted ∧
      ((∃ a, i = .ok a ∧ q.pending = a :: q'.pending ∧ q'.source = q.source) ∨
        (q.pending = [] ∧ q'.pending = [] ∧ q.source = i :: q'.source)) := by
  obtain ⟨pending, source, exhausted⟩ := q
  cases pending with
  | cons a pending =>
    cases h
    exact ⟨rfl, Or.inl ⟨a, rfl, rfl, rfl⟩⟩
  | nil =>
    cases exhausted with
    | true => cases h
    | false =>
      cases source with
      | nil => cases h
      | cons j source =>
        cases h
        exact ⟨rfl, Or.inr ⟨rfl, rfl, rfl⟩⟩

theorem next_eq_none {q q' : Queue ε α} (hq : p.Settled q) (h : q.next = (none, q')) :
    q.pending = [] ∧ q.source = [] ∧ q' = ⟨[], [], true⟩ := by
  obtain ⟨pending, source, exhausted⟩ := q
  cases pending with
  | cons a pending => cases h
  | nil =>
    cases exhausted with
    | true =>
      have hsource : source = [] := hq.ended rfl
      subst hsource
      cases h
      exact ⟨rfl, rfl, rfl⟩
    | false =>
      cases source with
      | nil =>
        cases h
        exact ⟨rfl, rfl, rfl⟩
      | cons j source => cases h

/-- The next item of a queue is yielded. -/
theorem Settled.next_ok (hp : p.Stable) {q q' : Queue ε α} {i : Except ε α} {a b : α} {s : σ}
    (hq : p.Settled q) (hnext : q.next = (some i, q')) (hi : i = .ok a) (hb : p.prepare s a = .ok b) :
    p.Yields q [b] q' ∧ p.Settled q' := by
  obtain ⟨hexhausted, hpending | hsource⟩ := next_eq_some hnext
  · obtain ⟨c, hc, hpending, hsame⟩ := hpending
    have hca : c = a := Except.ok.inj (hc.symm.trans hi)
    subst hca
    have hprepared : ∀ d ∈ c :: q'.pending, ∀ s, p.prepare s d = .ok d := by
      rw [← hpending]
      exact hq.prepared
    have hbc : b = c := Except.ok.inj (hb.symm.trans (hprepared c List.mem_cons_self s))
    refine ⟨⟨[], [], hsame.symm, .nil, ?_⟩, fun d hd => hprepared d (List.mem_cons_of_mem _ hd), ?_⟩
    · rw [List.append_nil, hpending, hbc]
      rfl
    · rw [hexhausted, hsame]
      exact hq.ended
  · obtain ⟨hnone, hnone', hsource⟩ := hsource
    refine ⟨⟨[i], [b], hsource, .cons ⟨a, hi, fun t => hp.same s t a b hb⟩ .nil, ?_⟩, ?_, ?_⟩
    · rw [hnone, hnone']
      rfl
    · rw [hnone']
      exact fun d hd => absurd hd List.not_mem_nil
    · rw [hexhausted]
      intro hended
      rw [hq.ended hended] at hsource
      cases hsource

/-- An item that cannot be prepared comes from the source. -/
theorem Settled.next_error {q q' : Queue ε α} {i : Except ε α} {s : σ} {e : ε} (hq : p.Settled q)
    (hnext : q.next = (some i, q')) (he : (i >>= p.prepare s) = .error e) : i ∈ q.source := by
  obtain ⟨-, hpending | hsource⟩ := next_eq_some hnext
  · obtain ⟨c, hc, hpending, -⟩ := hpending
    have hprepared := hq.prepared c (by rw [hpending]; exact List.mem_cons_self) s
    rw [hc] at he
    cases hprepared.symm.trans he
  · rw [hsource.2.2]
    exact List.mem_cons_self

theorem Settled.putBack {q : Queue ε α} {a : α} (hq : p.Settled q) (ha : ∀ s, p.prepare s a = .ok a) :
    p.Settled (q.putBack a) :=
  ⟨List.forall_mem_cons.mpr ⟨ha, hq.prepared⟩, hq.ended⟩

/-! ### One chunk -/

/-- An item is taken while the chunk has room for its weight. -/
theorem fill_taken {s : σ} {slots weight : Nat} {chunk : List α} {q q' : Queue ε α} {a b : α}
    (hnext : q.next = (some (.ok a), q')) (hb : p.prepare s a = .ok b)
    (hroom : chunk = [] ∨ weight + p.weight b ≤ p.cap) :
    p.fill s (slots + 1) chunk weight q = p.fill s slots (chunk ++ [b]) (weight + p.weight b) q' := by
  have hkeeps : (!chunk.isEmpty && decide (p.cap < weight + p.weight b)) = false := by
    rcases hroom with rfl | hroom
    · rfl
    · rw [decide_eq_false (Nat.not_lt_of_le hroom), Bool.and_false]
  rw [Packer.fill, hnext]
  show (p.prepare s a >>= _) = _
  rw [hb]
  show (if _ then _ else _) = _
  rw [hkeeps, if_neg Bool.false_ne_true]

/-- An item that is too heavy goes back and ends the chunk. -/
theorem fill_back {s : σ} {slots weight : Nat} {chunk : List α} {q q' : Queue ε α} {a b : α}
    (hnext : q.next = (some (.ok a), q')) (hb : p.prepare s a = .ok b) (hne : chunk ≠ [])
    (hover : p.cap < weight + p.weight b) : p.fill s (slots + 1) chunk weight q = .ok (chunk, q'.putBack b) := by
  have hfull : (!chunk.isEmpty && decide (p.cap < weight + p.weight b)) = true := by
    rw [decide_eq_true hover, Bool.and_true, Bool.not_eq_true', List.isEmpty_eq_false_iff]
    exact hne
  rw [Packer.fill, hnext]
  show (p.prepare s a >>= _) = _
  rw [hb]
  show (if _ then _ else _) = _
  rw [if_pos hfull]

/-- A chunk of one item that fits is kept whole. -/
theorem pack_single {s : σ} {q q' : Queue ε α} {a : α} (hfill : p.fill s p.slots [] 0 q = .ok ([a], q'))
    (hfits : p.fits s [a] = true) : p.pack s q = .ok (some ([a], q')) := by
  rw [pack, hfill]
  show (p.shrink s a [] q'.pending >>= _) = _
  rw [shrink, if_pos hfits]
  rfl

/-- A round emits its chunk and goes on with the queue after it. -/
theorem loop_step {s t : σ} {q q' : Queue ε α} {items : List α} (hpack : p.pack s q = .ok (some (items, q')))
    (hemit : p.emit s items = .ok t) (rounds : Nat) :
    p.loop (rounds + 1) s q = (p.loop rounds t q').map fun result => result.map fun r => (r.1, items :: r.2) := by
  rw [loop, hpack]
  dsimp only
  rw [hemit]

/-- The last round finds nothing. -/
theorem loop_end {s : σ} {q : Queue ε α} (hpack : p.pack s q = .ok none) (rounds : Nat) :
    p.loop (rounds + 1) s q = some (.ok (s, [])) := by
  rw [loop, hpack]

/-- Filling takes the next items of the queue, and takes none only at its end. -/
theorem fill_ok (hp : p.Stable) {s : σ} {slots weight : Nat} {chunk chunk' : List α} {q q' : Queue ε α}
    (hq : p.Settled q) (h : p.fill s slots chunk weight q = .ok (chunk', q')) :
    ∃ taken, chunk' = chunk ++ taken ∧ taken.length ≤ slots ∧ p.Yields q taken q' ∧ p.Settled q' ∧
      (0 < slots → chunk' = [] → q' = ⟨[], [], true⟩) := by
  induction slots generalizing chunk weight q with
  | zero =>
    cases h
    exact ⟨[], (List.append_nil _).symm, Nat.le_refl _, .refl _, hq, fun h => absurd h (Nat.lt_irrefl _)⟩
  | succ slots ih =>
    rw [fill] at h
    split at h
    · rename_i q₁ hnext
      cases h
      obtain ⟨hpending, hsource, rfl⟩ := next_eq_none hq hnext
      refine ⟨[], (List.append_nil _).symm, Nat.zero_le _, ⟨[], [], ?_, .nil, ?_⟩, ⟨?_, ?_⟩, fun _ _ => rfl⟩
      · rw [hsource]
        rfl
      · rw [hpending, List.nil_append]
      · exact fun a ha => absurd ha List.not_mem_nil
      · exact fun _ => rfl
    · rename_i i q₁ hnext
      obtain ⟨a, hi, h⟩ := bind_eq_ok.mp h
      obtain ⟨b, hb, h⟩ := bind_eq_ok.mp h
      obtain ⟨hyields, hsettled⟩ := hq.next_ok hp hnext hi hb
      split at h
      · rename_i hfull
        cases h
        have hback : p.Yields q ([] ++ [b]) q₁ := hyields
        refine ⟨[], (List.append_nil _).symm, Nat.zero_le _, hback.back,
          hsettled.putBack fun t => hp.again s t a b hb, ?_⟩
        intro _ hempty
        rw [hempty] at hfull
        cases hfull
      · obtain ⟨taken, rfl, hlength, htaken, hsettled', -⟩ := ih hsettled h
        refine ⟨b :: taken, List.append_assoc chunk [b] taken, Nat.succ_le_succ hlength, hyields.trans htaken,
          hsettled', ?_⟩
        intro _ hempty
        rw [List.append_assoc] at hempty
        cases (List.append_eq_nil_iff.mp hempty).2

/-- Filling fails for an item of the source that cannot be prepared. -/
theorem fill_error (hp : p.Stable) {s : σ} {slots weight : Nat} {chunk : List α} {q : Queue ε α} {e : ε}
    (hq : p.Settled q) (h : p.fill s slots chunk weight q = .error e) :
    ∃ i ∈ q.source, (i >>= p.prepare s) = .error e := by
  induction slots generalizing chunk weight q with
  | zero => cases h
  | succ slots ih =>
    rw [fill] at h
    split at h
    · cases h
    · rename_i i q₁ hnext
      cases hi : i with
      | error e' =>
        rw [hi] at h hnext
        have he : (Except.error e' >>= p.prepare s) = .error e := by
          cases h
          rfl
        exact ⟨_, hq.next_error hnext he, he⟩
      | ok a =>
        rw [hi] at h hnext
        cases hb : p.prepare s a with
        | error e' =>
          have he : (Except.ok a >>= p.prepare s) = .error e := by
            show p.prepare s a = .error e
            rw [hb]
            have h : (p.prepare s a >>= _) = .error e := h
            rw [hb] at h
            cases h
            rfl
          exact ⟨_, hq.next_error hnext he, he⟩
        | ok b =>
          obtain ⟨hyields, hsettled⟩ := hq.next_ok hp hnext rfl hb
          have h : (p.prepare s a >>= _) = .error e := h
          rw [hb] at h
          change (if _ then _ else _) = _ at h
          split at h
          · cases h
          · obtain ⟨j, hj, he⟩ := ih hsettled h
            exact ⟨j, hyields.source_subset hj, he⟩

/-- Shrinking keeps a start of the chunk that fits. -/
theorem shrink_ok {s : σ} {first : α} {rest pending items pending' : List α}
    (h : p.shrink s first rest pending = .ok (items, pending')) :
    items ≠ [] ∧ p.fits s items = true ∧ ∃ back, first :: rest.reverse = items ++ back ∧ pending' = back ++ pending := by
  induction rest generalizing pending with
  | nil =>
    rw [shrink] at h
    split at h
    · rename_i hfits
      cases h
      exact ⟨List.cons_ne_nil _ _, hfits, [], rfl, rfl⟩
    · cases h
  | cons last rest ih =>
    rw [shrink] at h
    split at h
    · rename_i hfits
      cases h
      exact ⟨List.cons_ne_nil _ _, hfits, [], (List.append_nil _).symm, rfl⟩
    · obtain ⟨hne, hfits, back, hback, rfl⟩ := ih h
      refine ⟨hne, hfits, back ++ [last], ?_, (List.append_assoc back [last] pending).symm⟩
      rw [List.reverse_cons, ← List.append_assoc, ← hback]
      rfl

theorem shrink_error {s : σ} {first : α} {rest pending : List α} {e : ε}
    (h : p.shrink s first rest pending = .error e) : p.fits s [first] = false ∧ e = p.tooLarge s := by
  induction rest generalizing pending with
  | nil =>
    rw [shrink] at h
    split at h
    · cases h
    · rename_i hfits
      cases h
      exact ⟨Bool.eq_false_iff.mpr hfits, rfl⟩
  | cons last rest ih =>
    rw [shrink] at h
    split at h
    · cases h
    · exact ih h

/-- A chunk is of the next items of the queue and fits. -/
theorem pack_some (hp : p.Stable) {s : σ} {q q' : Queue ε α} {items : List α} (hq : p.Settled q)
    (h : p.pack s q = .ok (some (items, q'))) :
    items ≠ [] ∧ items.length ≤ p.slots ∧ p.fits s items = true ∧ p.Yields q items q' ∧ p.Settled q' := by
  obtain ⟨filled, hfilled, h⟩ := bind_eq_ok.mp h
  obtain ⟨chunk, q₁⟩ := filled
  obtain ⟨taken, htaken, hlength, hyields, hsettled, -⟩ := fill_ok hp hq hfilled
  rw [List.nil_append] at htaken
  subst htaken
  cases chunk with
  | nil =>
    dsimp only at h
    split at h
    · cases h
    · cases h
  | cons first rest =>
    obtain ⟨shrunk, hshrunk, h⟩ := bind_eq_ok.mp h
    obtain ⟨kept, pending⟩ := shrunk
    cases h
    obtain ⟨hne, hfits, back, hback, rfl⟩ := shrink_ok hshrunk
    rw [List.reverse_reverse] at hback
    rw [hback] at hyields hlength
    rw [List.length_append] at hlength
    have hprepared : ∀ a ∈ back ++ q₁.pending, ∀ t, p.prepare t a = .ok a := by
      intro a ha t
      refine hyields.prepared hp hq ?_ t
      rw [List.append_assoc]
      exact List.mem_append_right _ ha
    exact ⟨hne, Nat.le_trans (Nat.le_add_right _ _) hlength, hfits, hyields.back, hprepared, hsettled.ended⟩

/-- Packing ends when the queue has nothing left. -/
theorem pack_none (hp : p.Stable) {s : σ} {q : Queue ε α} (hq : p.Settled q) (h : p.pack s q = .ok none) :
    q.pending = [] ∧ q.source = [] := by
  obtain ⟨filled, hfilled, h⟩ := bind_eq_ok.mp h
  obtain ⟨chunk, q₁⟩ := filled
  obtain ⟨taken, htaken, -, hyields, hsettled, -⟩ := fill_ok hp hq hfilled
  rw [List.nil_append] at htaken
  subst htaken
  cases chunk with
  | nil =>
    dsimp only at h
    split at h
    · rename_i hend
      rw [Bool.and_eq_true, List.isEmpty_iff] at hend
      obtain ⟨read, prepared, hsource, hread, hitems⟩ := hyields
      rw [List.nil_append, hend.2, List.append_eq_nil_iff] at hitems
      rw [hitems.2, List.forall₂_nil_right_iff] at hread
      refine ⟨hitems.1, ?_⟩
      rw [hsource, hread, hsettled.ended hend.1]
      rfl
    · cases h
  | cons first rest =>
    obtain ⟨shrunk, -, h⟩ := bind_eq_ok.mp h
    cases h

/-- Packing makes progress: it fails only for its items. -/
theorem pack_error (hp : p.Stable) (hslots : 0 < p.slots) {s : σ} {q : Queue ε α} {e : ε} (hq : p.Settled q)
    (h : p.pack s q = .error e) : (∃ i ∈ q.source, (i >>= p.prepare s) = .error e) ∨
      ∃ a q', p.Yields q [a] q' ∧ p.fits s [a] = false ∧ e = p.tooLarge s := by
  unfold pack at h
  cases hfilled : p.fill s p.slots [] 0 q with
  | error e' =>
    rw [hfilled] at h
    cases h
    exact Or.inl (fill_error hp hq hfilled)
  | ok filled =>
    rw [hfilled] at h
    obtain ⟨chunk, q₁⟩ := filled
    obtain ⟨taken, htaken, -, hyields, -, hend⟩ := fill_ok hp hq hfilled
    rw [List.nil_append] at htaken
    subst htaken
    cases chunk with
    | nil =>
      rw [hend hslots rfl] at h
      cases h
    | cons first rest =>
      right
      change (p.shrink s first rest.reverse q₁.pending >>= _) = _ at h
      cases hshrunk : p.shrink s first rest.reverse q₁.pending with
      | error e' =>
        rw [hshrunk] at h
        cases h
        obtain ⟨hfits, rfl⟩ := shrink_error hshrunk
        have hfirst : p.Yields q ([first] ++ rest) q₁ := hyields
        exact ⟨first, _, hfirst.back, hfits, rfl⟩
      | ok shrunk =>
        rw [hshrunk] at h
        cases h

/-! ### All chunks -/

variable (p) in
/-- Chunks that fit where they are emitted, from one state to another. -/
inductive Emits : σ → List (List α) → σ → Prop
  | nil (s : σ) : Emits s [] s
  | cons {s t u : σ} {items : List α} {chunks : List (List α)} : items ≠ [] → items.length ≤ p.slots →
      p.fits s items = true → p.emit s items = .ok t → Emits t chunks u → Emits s (items :: chunks) u

variable (p) in
/-- The states and queues that the rounds of the loop come to. -/
inductive Reaches : σ → Queue ε α → σ → Queue ε α → Prop
  | refl (s : σ) (q : Queue ε α) : Reaches s q s q
  | step {s t u : σ} {q q' q'' : Queue ε α} {items : List α} : p.pack s q = .ok (some (items, q')) →
      p.emit s items = .ok t → Reaches t q' u q'' → Reaches s q u q''

/-- What an emission preserves, all of them preserve. -/
theorem Emits.invariant {P : σ → Prop} {s t : σ} {chunks : List (List α)} (h : p.Emits s chunks t)
    (hstep : ∀ s items t, P s → items ≠ [] → items.length ≤ p.slots → p.fits s items = true →
      p.emit s items = .ok t → P t) (hs : P s) : P t := by
  induction h with
  | nil s => exact hs
  | cons hne hlength hfits hemit _ ih => exact ih (hstep _ _ _ hs hne hlength hfits hemit)

theorem Emits.chunks {s t : σ} {chunks : List (List α)} (h : p.Emits s chunks t) :
    ∀ items ∈ chunks, items ≠ [] ∧ items.length ≤ p.slots := by
  induction h with
  | nil s => exact fun items hitems => absurd hitems List.not_mem_nil
  | cons hne hlength _ _ _ ih => exact List.forall_mem_cons.mpr ⟨⟨hne, hlength⟩, ih⟩

theorem settled_ofSource (source : List (Except ε α)) : p.Settled (.ofSource source) :=
  ⟨fun _ ha => absurd ha List.not_mem_nil, fun hended => absurd hended Bool.false_ne_true⟩

/-- Packing ends: every round takes an item. -/
theorem loop_total (hp : p.Stable) {rounds : Nat} {s : σ} {q : Queue ε α} (hq : p.Settled q) (h : q.size < rounds) :
    ∃ outcome, p.loop rounds s q = some outcome := by
  induction rounds generalizing s q with
  | zero => exact absurd h (Nat.not_lt_zero _)
  | succ rounds ih =>
    rw [loop]
    split
    · exact ⟨_, rfl⟩
    · exact ⟨_, rfl⟩
    · rename_i items q' hpack
      obtain ⟨hne, -, -, hyields, hq'⟩ := pack_some hp hq hpack
      split
      · exact ⟨_, rfl⟩
      · rename_i t hemit
        have hpositive := List.length_pos_iff.mpr hne
        have hsize := hyields.size
        obtain ⟨outcome, houtcome⟩ := ih hq' (show q'.size < rounds by omega)
        exact ⟨_, by rw [houtcome]; rfl⟩

/-- The chunks are all the items, prepared and in order, and are emitted one after the other. -/
theorem loop_ok (hp : p.Stable) {rounds : Nat} {s t : σ} {q : Queue ε α} {chunks : List (List α)} (hq : p.Settled q)
    (h : p.loop rounds s q = some (.ok (t, chunks))) :
    p.Emits s chunks t ∧ ∃ q', p.Yields q chunks.flatten q' ∧ q'.pending = [] ∧ q'.source = [] := by
  induction rounds generalizing s q chunks with
  | zero => cases h
  | succ rounds ih =>
    rw [loop] at h
    split at h
    · cases h
    · rename_i hpack
      cases h
      exact ⟨.nil _, q, .refl q, pack_none hp hq hpack⟩
    · rename_i items q₁ hpack
      obtain ⟨hne, hlength, hfits, hyields, hq₁⟩ := pack_some hp hq hpack
      split at h
      · cases h
      · rename_i u hemit
        obtain ⟨result, hloop, hresult⟩ := Option.map_eq_some_iff.mp h
        cases result with
        | error e => cases hresult
        | ok r =>
          obtain ⟨t', chunks'⟩ := r
          cases hresult
          obtain ⟨hemits, q', hyields', hend⟩ := ih hq₁ hloop
          exact ⟨.cons hne hlength hfits hemit hemits, q', hyields.trans hyields', hend⟩

/-- Packing fails in a state it comes to: for an item of the source, an item that does not fit or the emission. -/
theorem loop_error (hp : p.Stable) (hslots : 0 < p.slots) {rounds : Nat} {s : σ} {q : Queue ε α} {e : ε}
    (hq : p.Settled q) (h : p.loop rounds s q = some (.error e)) :
    ∃ chunks t q', p.Reaches s q t q' ∧ p.Emits s chunks t ∧ p.Yields q chunks.flatten q' ∧
      ((∃ i ∈ q.source, (i >>= p.prepare t) = .error e) ∨
        (∃ a q'', p.Yields q' [a] q'' ∧ p.fits t [a] = false ∧ e = p.tooLarge t) ∨
        ∃ items q'', p.Yields q' items q'' ∧ items ≠ [] ∧ items.length ≤ p.slots ∧ p.fits t items = true ∧
          p.emit t items = .error e) := by
  induction rounds generalizing s q with
  | zero => cases h
  | succ rounds ih =>
    rw [loop] at h
    split at h
    · rename_i e' hpack
      cases h
      refine ⟨[], s, q, .refl s q, .nil s, .refl q, ?_⟩
      rcases pack_error hp hslots hq hpack with hitem | hlarge
      · exact Or.inl hitem
      · exact Or.inr (Or.inl hlarge)
    · cases h
    · rename_i items q₁ hpack
      obtain ⟨hne, hlength, hfits, hyields, hq₁⟩ := pack_some hp hq hpack
      split at h
      · rename_i e' hemit
        cases h
        exact ⟨[], s, q, .refl s q, .nil s, .refl q, Or.inr (Or.inr ⟨items, q₁, hyields, hne, hlength, hfits, hemit⟩)⟩
      · rename_i u hemit
        obtain ⟨result, hloop, hresult⟩ := Option.map_eq_some_iff.mp h
        cases result with
        | ok r => cases hresult
        | error e' =>
          cases hresult
          obtain ⟨chunks, t, q', hreaches, hemits, hyields', hreason⟩ := ih hq₁ hloop
          refine ⟨items :: chunks, t, q', .step hpack hemit hreaches, .cons hne hlength hfits hemit hemits,
            hyields.trans hyields', ?_⟩
          rcases hreason with ⟨i, hi, he⟩ | hreason
          · exact Or.inl ⟨i, hyields.source_subset hi, he⟩
          · exact Or.inr hreason

end Packer

end Packing
