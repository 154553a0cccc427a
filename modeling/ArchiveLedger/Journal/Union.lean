import ArchiveLedger.Catalog.Queries
import ArchiveLedger.Foundation.SortedMap
import ArchiveLedger.Journal.Causality

/-!
# Unions of frontiers

`unionFrontier` of `v2_store.rs` takes two verified archives and builds the frontier that
succeeds both.  Frontiers are compared by `Extends`: every tail of the one is a tail of the
other or lies before it.  A chain of successors only extends, and its advances name exactly
the origins whose tail changed (`extends_of_chain`, `changed_iff`); the union is the least
frontier that extends both parents, in either order of the arguments.
-/

namespace ArchiveLedger

open Outcome Transition SortedMap

/-! ### The union -/

/-- Origins are kept in the order of their identifiers. -/
def OriginFrontier.key (o : OriginFrontier) : List Nat := textRank o.originId

def otherArchive : V2StoreError := .invalid "synchronization remote belongs to another Archive"

def validateSameArchive (R : StoreRuntime) (left right : VerifiedV2Archive) : StoreResult Unit := do
  require (left.genesisHash = right.genesisHash ∧
    left.genesis.body.archiveId = right.genesis.body.archiveId) otherArchive
  let leftBytes ← mapError .genesis (left.genesis.canonicalBytes R)
  let rightBytes ← mapError .genesis (right.genesis.canonicalBytes R)
  require (leftBytes = rightBytes) otherArchive
  require (left.acceptedFrontier.itemProjectionVersion = right.acceptedFrontier.itemProjectionVersion)
    (.invalid "synchronization peers use different item projection versions")

def differentTails (origin : OriginFrontier) : V2StoreError :=
  .invalid ("origin " ++ origin.originId ++ " has different immutable tails at sequence " ++
    origin.seq.repr)

/-- The next origin of the union: the later tail stays. -/
def uniteOrigin (origins : List OriginFrontier) (origin : OriginFrontier) :
    StoreResult (List OriginFrontier) :=
  match look OriginFrontier.key origins origin.key with
  | none => .ok (put OriginFrontier.key origins origin)
  | some existing =>
      if existing.seq < origin.seq then .ok (put OriginFrontier.key origins origin)
      else if origin.seq = existing.seq then do
        require (origin = existing) (differentTails origin)
        .ok origins
      else .ok origins

/-- `Vec::sort` and then `Vec::dedup`. -/
def sortDedup (texts : List String) : List String :=
  (texts.insertionSort fun a b => textRank a ≤ textRank b).destutter (· ≠ ·)

def unionFrontier (R : StoreRuntime) (left right : VerifiedV2Archive) : StoreResult CausalFrontier := do
  validateSameArchive R left right
  let origins ← commitAll uniteOrigin []
    (left.acceptedFrontier.origins ++ right.acceptedFrontier.origins)
  .ok ⟨frontierVersion, left.genesis.body.archiveId, left.genesisHash, origins,
    sortDedup [left.acceptedFrontierHash, right.acceptedFrontierHash],
    left.acceptedFrontier.itemProjectionVersion⟩

/-! ### Valid frontiers -/

theorem textLt_iff_rank {a b : String} : textLt a b ↔ textRank a < textRank b := textLt_iff

theorem look_key (origins : List OriginFrontier) (id : String) :
    look OriginFrontier.key origins (textRank id) = origins.find? fun o => o.originId = id := by
  unfold look OriginFrontier.key
  congr 1
  funext o
  rw [decide_eq_decide]
  exact textRank_injective.eq_iff

/-- What is asked of the entry of an origin alone. -/
structure OriginFrontier.WellFormed (o : OriginFrontier) : Prop where
  id : isOriginId o.originId
  seq : o.seq ≠ 0
  event : isBlake3Identifier o.eventHash
  manifest : isBlake3Identifier o.segmentManifestHash

theorem validateOrigins_iff {prior : Option String} {origins : List OriginFrontier} {u : Unit} :
    validateOrigins prior origins = .ok u ↔
      (∀ p ∈ prior, ∀ o ∈ origins, textLt p o.originId) ∧ (∀ o ∈ origins, o.WellFormed) ∧
        Strict OriginFrontier.key origins := by
  induction origins generalizing prior with
  | nil => simp [validateOrigins, Strict]
  | cons o origins ih =>
    simp only [validateOrigins, validateOrigin, validateHash, bind_eq_ok, require_eq_ok, ih]
    constructor
    · rintro ⟨_, ⟨_, hid, _, hseq, _, hprior, _, hevent, hmanifest⟩, hfirst, hwell, hstrict⟩
      have hlt : ∀ o' ∈ origins, textLt o.originId o'.originId := hfirst _ rfl
      refine ⟨fun p hp => List.forall_mem_cons.mpr ⟨hprior p hp, fun o' ho' => ?_⟩,
        List.forall_mem_cons.mpr ⟨⟨hid, hseq, hevent, hmanifest⟩, hwell⟩, List.pairwise_cons.mpr ⟨?_, hstrict⟩⟩
      · exact textLt_trans (hprior p hp) (hlt o' ho')
      · intro o' ho'
        exact textLt_iff_rank.mp (hlt o' ho')
    · rintro ⟨hprior, hwell, hstrict⟩
      obtain ⟨ho, hwell⟩ := List.forall_mem_cons.mp hwell
      obtain ⟨hlt, hstrict⟩ := List.pairwise_cons.mp hstrict
      refine ⟨(), ⟨(), ho.id, (), ho.seq, (), fun p hp => hprior p hp o (List.mem_cons_self ..), (), ho.event,
        ho.manifest⟩, fun p hp o' ho' => ?_, hwell, hstrict⟩
      cases hp
      exact textLt_iff_rank.mpr (hlt o' ho')

theorem validatePrevious_iff {prior : Option String} {hashes : List String} {u : Unit} :
    validatePrevious prior hashes = .ok u ↔
      (∀ p ∈ prior, ∀ hash ∈ hashes, textLt p hash) ∧ (∀ hash ∈ hashes, isBlake3Identifier hash) ∧
        hashes.Pairwise fun a b => textLt a b := by
  induction hashes generalizing prior with
  | nil => simp [validatePrevious]
  | cons hash hashes ih =>
    simp only [validatePrevious, validateHash, bind_eq_ok, require_eq_ok, ih]
    constructor
    · rintro ⟨_, hvalid, _, hprior, hfirst, hall, hsorted⟩
      refine ⟨fun p hp => List.forall_mem_cons.mpr ⟨hprior p hp, fun other hother => ?_⟩,
        List.forall_mem_cons.mpr ⟨hvalid, hall⟩, List.pairwise_cons.mpr ⟨hfirst hash rfl, hsorted⟩⟩
      exact textLt_trans (hprior p hp) (hfirst hash rfl other hother)
    · rintro ⟨hprior, hall, hsorted⟩
      obtain ⟨hvalid, hall⟩ := List.forall_mem_cons.mp hall
      obtain ⟨hlt, hsorted⟩ := List.pairwise_cons.mp hsorted
      refine ⟨(), hvalid, (), fun p hp => hprior p hp hash (List.mem_cons_self ..), fun p hp other hother => ?_,
        hall, hsorted⟩
      cases hp
      exact hlt other hother

namespace CausalFrontier

/-- What is asked of a frontier. -/
structure Valid (f : CausalFrontier) : Prop where
  version : f.v = frontierVersion
  archive : f.archiveId ≠ ""
  projection : f.itemProjectionVersion ≠ 0
  genesis : isBlake3Identifier f.genesisHash
  wellFormed : ∀ o ∈ f.origins, o.WellFormed
  sorted : Strict OriginFrontier.key f.origins
  previous : ∀ hash ∈ f.previousFrontiers, isBlake3Identifier hash
  previousSorted : f.previousFrontiers.Pairwise fun a b => textLt a b

theorem validate_iff {f : CausalFrontier} {u : Unit} : f.validate = .ok u ↔ f.Valid := by
  simp only [validate, validateHash, bind_eq_ok, require_eq_ok, validateOrigins_iff, validatePrevious_iff]
  constructor
  · rintro ⟨_, hversion, _, harchive, _, hprojection, _, hgenesis, _, ⟨-, hwell, hsorted⟩, -, hprevious, hprevSorted⟩
    exact ⟨hversion, harchive, hprojection, hgenesis, hwell, hsorted, hprevious, hprevSorted⟩
  · intro h
    exact ⟨(), h.version, (), h.archive, (), h.projection, (), h.genesis, (),
      ⟨fun _ hp => absurd hp (Option.not_mem_none _), h.wellFormed, h.sorted⟩,
      fun _ hp => absurd hp (Option.not_mem_none _), h.previous, h.previousSorted⟩

theorem look_eq_origin? (f : CausalFrontier) (id : String) :
    look OriginFrontier.key f.origins (textRank id) = f.origin? id := look_key f.origins id

/-! ### The order of frontiers -/

/-- Every tail is kept or has a later one in its place. -/
def Extends (base f : CausalFrontier) : Prop :=
  ∀ o ∈ base.origins, ∃ o', f.origin? o.originId = some o' ∧ o.seq ≤ o'.seq ∧ (o.seq = o'.seq → o' = o)

theorem Extends.refl {f : CausalFrontier} (h : f.Valid) : f.Extends f := by
  intro o ho
  exact ⟨o, origin?_of_mem (validate_nodup (validate_iff.mpr h)) ho, le_rfl, fun _ => rfl⟩

theorem Extends.trans {f g k : CausalFrontier} (h : f.Extends g) (h' : g.Extends k) : f.Extends k := by
  intro o ho
  obtain ⟨o', ho', hle, heq⟩ := h o ho
  obtain ⟨hmem, hid⟩ := origin?_eq_some ho'
  obtain ⟨o'', ho'', hle', heq'⟩ := h' o' hmem
  refine ⟨o'', hid ▸ ho'', hle.trans hle', fun hseq => ?_⟩
  rw [heq' (by omega), heq (by omega)]

/-- Two frontiers that extend each other have the same tails. -/
theorem Extends.antisymm {f g : CausalFrontier} (hf : f.Valid) (hg : g.Valid) (h : f.Extends g) (h' : g.Extends f) :
    f.origins = g.origins := by
  have hsub : ∀ {a b : CausalFrontier}, a.Valid → b.Valid → a.Extends b → b.Extends a →
      ∀ id o, a.origin? id = some o → b.origin? id = some o := by
    intro a b ha hb hab hba id o ho
    obtain ⟨hmem, rfl⟩ := origin?_eq_some ho
    obtain ⟨o', ho', hle, heq⟩ := hab o hmem
    obtain ⟨hmem', hid⟩ := origin?_eq_some ho'
    obtain ⟨o'', ho'', hle', -⟩ := hba o' hmem'
    rw [hid, ho] at ho''
    cases ho''
    rw [ho', heq (by omega)]
  refine ext hf.sorted hg.sorted fun k => ?_
  cases hk : look OriginFrontier.key f.origins k with
  | some o =>
    obtain ⟨-, rfl⟩ := look_some hk
    have hk : look OriginFrontier.key f.origins (textRank o.originId) = some o := hk
    rw [look_eq_origin?] at hk
    show _ = look OriginFrontier.key g.origins (textRank o.originId)
    rw [look_eq_origin?, hsub hf hg h h' _ _ hk]
  | none =>
    cases hg' : look OriginFrontier.key g.origins k with
    | none => rfl
    | some o =>
      obtain ⟨-, rfl⟩ := look_some hg'
      have hg' : look OriginFrontier.key g.origins (textRank o.originId) = some o := hg'
      rw [look_eq_origin?] at hg'
      have := hsub hg hf h' h _ _ hg'
      have hk : look OriginFrontier.key f.origins (textRank o.originId) = none := hk
      rw [look_eq_origin?, this] at hk
      cases hk

/-! ### Successors -/

theorem advancedOrigins_iff {f : CausalFrontier} {origins : List OriginFrontier} {ids : List String} :
    advancedOrigins f origins = .ok ids ↔
      (∀ o ∈ origins, ∃ o', f.origin? o.originId = some o' ∧ o.seq ≤ o'.seq ∧ (o.seq = o'.seq → o' = o)) ∧
        ids = (origins.filter fun o => (f.origin? o.originId).map OriginFrontier.seq ≠ some o.seq).map
          OriginFrontier.originId := by
  induction origins generalizing ids with
  | nil =>
    simp only [advancedOrigins, Except.ok.injEq, List.not_mem_nil, false_implies, implies_true, List.filter_nil,
      List.map_nil, true_and]
    exact eq_comm
  | cons o origins ih =>
    simp only [advancedOrigins, bind_eq_ok, okOr_eq_ok, require_eq_ok, ih, Except.ok.injEq, List.forall_mem_cons]
    constructor
    · rintro ⟨o', ho', _, hle, _, htail, more, ⟨hrest, rfl⟩, rfl⟩
      have hid := (origin?_eq_some ho').2
      refine ⟨⟨⟨o', ho', hle, fun hseq => ?_⟩, hrest⟩, ?_⟩
      · obtain ⟨hevent, hmanifest⟩ := htail hseq.symm
        cases o
        cases o'
        simp only at hid hseq hevent hmanifest
        rw [hid, hseq, hevent, hmanifest]
      · rw [List.filter_cons, ho', Option.map_some]
        by_cases hseq : o'.seq = o.seq
        · simp [hseq]
        · simp [hseq]
    · rintro ⟨⟨⟨o', ho', hle, hsame⟩, hrest⟩, rfl⟩
      refine ⟨o', ho', (), hle, (), fun hseq => ?_, _, ⟨hrest, rfl⟩, ?_⟩
      · rw [hsame hseq.symm]
        exact ⟨rfl, rfl⟩
      · rw [List.filter_cons, ho', Option.map_some]
        by_cases hseq : o'.seq = o.seq
        · simp [hseq]
        · simp [hseq]

section

variable {blake3 : Bytes → String} {write : CausalFrontier → Bytes} {f base : CausalFrontier}

theorem frontierHash_eq_ok {hash : String} :
    f.frontierHash blake3 write = .ok hash ↔ f.Valid ∧ hash = "blake3:" ++ blake3 (write f) := by
  simp only [frontierHash, canonicalBytes, bind_eq_ok, validate_iff, Except.ok.injEq]
  constructor
  · rintro ⟨_, ⟨_, hvalid, rfl⟩, rfl⟩
    exact ⟨hvalid, rfl⟩
  · rintro ⟨hvalid, rfl⟩
    exact ⟨_, ⟨(), hvalid, rfl⟩, rfl⟩

theorem validateSuccessorOf_iff {advance : FrontierAdvance} :
    f.validateSuccessorOf blake3 write base = .ok advance ↔
      base.Valid ∧ f.Valid ∧ f.archiveId = base.archiveId ∧ f.genesisHash = base.genesisHash ∧
        base.itemProjectionVersion ≤ f.itemProjectionVersion ∧
        "blake3:" ++ blake3 (write base) ∈ f.previousFrontiers ∧ base.Extends f ∧
        advance = ⟨(base.origins.filter fun o => (f.origin? o.originId).map OriginFrontier.seq ≠ some o.seq).map
            OriginFrontier.originId,
          (f.origins.filter fun o => (base.origin? o.originId).isNone).map OriginFrontier.originId⟩ := by
  simp only [validateSuccessorOf, bind_eq_ok, require_eq_ok, validate_iff, frontierHash_eq_ok,
    advancedOrigins_iff, List.contains_iff_mem, Except.ok.injEq]
  constructor
  · rintro ⟨_, hbase, _, hf, _, harchive, _, hgenesis, _, hversion, _, ⟨-, rfl⟩, _, hparent, _, ⟨hextends, rfl⟩, rfl⟩
    exact ⟨hbase, hf, harchive, hgenesis, hversion, hparent, hextends, rfl⟩
  · rintro ⟨hbase, hf, harchive, hgenesis, hversion, hparent, hextends, rfl⟩
    exact ⟨(), hbase, (), hf, (), harchive, (), hgenesis, (), hversion, _, ⟨hbase, rfl⟩, (), hparent, _,
      ⟨hextends, rfl⟩, rfl⟩

/-- The advances of a successor are the origins whose tail changed. -/
theorem mem_advance_iff {advance : FrontierAdvance} (h : f.validateSuccessorOf blake3 write base = .ok advance)
    (id : String) :
    id ∈ advance.advancedOrigins ++ advance.addedOrigins ↔ base.origin? id ≠ f.origin? id := by
  obtain ⟨hbase, hf, -, -, -, -, hextends, rfl⟩ := validateSuccessorOf_iff.mp h
  have hnodup := validate_nodup (validate_iff.mpr hbase)
  simp only [List.mem_append, List.mem_map, List.mem_filter, decide_eq_true_eq, ne_eq]
  constructor
  · rintro (⟨o, ⟨ho, hchanged⟩, rfl⟩ | ⟨o, ⟨ho, hnew⟩, rfl⟩) heq
    · rw [← heq, origin?_of_mem hnodup ho] at hchanged
      exact hchanged rfl
    · rw [Option.isNone_iff_eq_none, heq, origin?_of_mem (validate_nodup (validate_iff.mpr hf)) ho] at hnew
      cases hnew
  · intro hne
    cases hid : base.origin? id with
    | some o =>
      obtain ⟨ho, rfl⟩ := origin?_eq_some hid
      obtain ⟨o', ho', -, hsame⟩ := hextends o ho
      refine Or.inl ⟨o, ⟨ho, fun hseq => hne ?_⟩, rfl⟩
      rw [ho', Option.map_some, Option.some.injEq] at hseq
      rw [hid, ho', hsame hseq.symm]
    | none =>
      rw [hid] at hne
      obtain ⟨o, ho⟩ := Option.ne_none_iff_exists'.mp (Ne.symm hne)
      obtain ⟨hmem, rfl⟩ := origin?_eq_some ho
      exact Or.inr ⟨o, ⟨hmem, by rw [hid]; rfl⟩, rfl⟩

/-! ### Chains of successors -/

/-- Each frontier is a successor of the one before it, with its advance. -/
abbrev Succeeds (blake3 : Bytes → String) (write : CausalFrontier → Bytes) (base : CausalFrontier)
    (advance : FrontierAdvance) (f : CausalFrontier) : Prop :=
  f.validateSuccessorOf blake3 write base = .ok advance

theorem extends_of_chain {p : List (FrontierAdvance × CausalFrontier)} (hf : f.Valid)
    (h : Path (Succeeds blake3 write) f p) : f.Extends (final f p) := by
  induction p generalizing f with
  | nil => exact Extends.refl hf
  | cons e p ih =>
    obtain ⟨-, hvalid, -, -, -, -, hextends, -⟩ := validateSuccessorOf_iff.mp h.1
    exact hextends.trans (ih hvalid h.2)

/-- Along a chain an origin is advanced or added when its tail differs at the ends. -/
theorem changed_iff {p : List (FrontierAdvance × CausalFrontier)} (h : Path (Succeeds blake3 write) f p)
    (id : String) :
    (∃ e ∈ p, id ∈ e.1.advancedOrigins ++ e.1.addedOrigins) ↔ f.origin? id ≠ (final f p).origin? id := by
  induction p generalizing f with
  | nil => simp
  | cons e p ih =>
    obtain ⟨hbase, hvalid, -, -, -, -, hextends, -⟩ := validateSuccessorOf_iff.mp h.1
    have hrest := extends_of_chain hvalid h.2
    rw [List.exists_mem_cons_iff, mem_advance_iff h.1, ih h.2, final_cons]
    constructor
    · intro hchanged heq
      -- a tail that came back would have to lie before itself
      have hsame : f.origin? id = e.2.origin? id := by
        cases hid : f.origin? id with
        | some o =>
          obtain ⟨ho, rfl⟩ := origin?_eq_some hid
          obtain ⟨o', ho', hle, hkeep⟩ := hextends o ho
          obtain ⟨ho'mem, ho'id⟩ := origin?_eq_some ho'
          obtain ⟨o'', ho'', hle', -⟩ := hrest o' ho'mem
          rw [ho'id, ← heq, hid] at ho''
          cases ho''
          rw [ho', hkeep (by omega)]
        | none =>
          cases hid' : e.2.origin? id with
          | none => rfl
          | some o' =>
            obtain ⟨ho', rfl⟩ := origin?_eq_some hid'
            obtain ⟨o'', ho'', -⟩ := hrest o' ho'
            rw [← heq, hid] at ho''
            cases ho''
      rcases hchanged with hchanged | hchanged
      · exact hchanged hsame
      · exact hchanged (hsame.symm.trans heq)
    · intro hne
      by_cases hsame : f.origin? id = e.2.origin? id
      · exact Or.inr (hsame ▸ hne)
      · exact Or.inl hsame

end

end CausalFrontier

/-! ### The origins of a union -/

/-- The later of two tails. -/
def laterTail : Option OriginFrontier → Option OriginFrontier → Option OriginFrontier
  | none, b => b
  | some a, none => some a
  | some a, some b => if a.seq < b.seq then some b else some a

/-- The tail does not contradict the one in its place. -/
def Fits (origins : List OriginFrontier) (o : OriginFrontier) : Prop :=
  ∀ existing, look OriginFrontier.key origins o.key = some existing → o.seq = existing.seq → o = existing

theorem laterTail_none (a : Option OriginFrontier) : laterTail a none = a := by
  cases a <;> rfl

section

variable {l os : List OriginFrontier} {o : OriginFrontier}

theorem uniteOrigin_fits (hl : Strict OriginFrontier.key l) (h : Fits l o) :
    ∃ l', uniteOrigin l o = .ok l' ∧ Strict OriginFrontier.key l' ∧
      ∀ k, look OriginFrontier.key l' k = laterTail (look OriginFrontier.key l k) (if o.key = k then some o else none) := by
  unfold uniteOrigin
  cases hlook : look OriginFrontier.key l o.key with
  | none =>
    refine ⟨_, rfl, strict_put hl o, fun k => ?_⟩
    rw [look_put hl]
    by_cases hk : o.key = k
    · subst hk
      rw [if_pos rfl, if_pos rfl, hlook]
      rfl
    · rw [if_neg hk, if_neg hk, laterTail_none]
  | some existing =>
    show ∃ l', (if existing.seq < o.seq then _ else _) = _ ∧ _
    by_cases hlt : existing.seq < o.seq
    · rw [if_pos hlt]
      refine ⟨_, rfl, strict_put hl o, fun k => ?_⟩
      rw [look_put hl]
      by_cases hk : o.key = k
      · subst hk
        rw [if_pos rfl, if_pos rfl, hlook]
        exact (if_pos hlt).symm
      · rw [if_neg hk, if_neg hk, laterTail_none]
    · rw [if_neg hlt]
      refine ⟨l, ?_, hl, fun k => ?_⟩
      · by_cases hseq : o.seq = existing.seq
        · rw [if_pos hseq, h existing hlook hseq]
          simp [require]
          rfl
        · rw [if_neg hseq]
      · by_cases hk : o.key = k
        · subst hk
          rw [if_pos rfl, hlook]
          exact (if_neg hlt).symm
        · rw [if_neg hk, laterTail_none]

theorem uniteOrigin_unfit (h : ¬ Fits l o) : uniteOrigin l o = .error (differentTails o) := by
  unfold Fits at h
  push Not at h
  obtain ⟨existing, hlook, hseq, hne⟩ := h
  unfold uniteOrigin
  rw [hlook]
  show (if existing.seq < o.seq then _ else _) = _
  rw [if_neg (by omega), if_pos hseq]
  simp [require, hne]
  rfl

theorem uniteAll_fits (hl : Strict OriginFrontier.key l) (hos : Strict OriginFrontier.key os)
    (h : ∀ o ∈ os, Fits l o) :
    ∃ l', commitAll uniteOrigin l os = .ok l' ∧ Strict OriginFrontier.key l' ∧
      ∀ k, look OriginFrontier.key l' k = laterTail (look OriginFrontier.key l k) (look OriginFrontier.key os k) := by
  induction os generalizing l with
  | nil => exact ⟨l, rfl, hl, fun k => (laterTail_none _).symm⟩
  | cons o os ih =>
    obtain ⟨hlt, hos⟩ := List.pairwise_cons.mp hos
    obtain ⟨ho, hrest⟩ := List.forall_mem_cons.mp h
    obtain ⟨u, hu, hustrict, hulook⟩ := uniteOrigin_fits hl ho
    have hfits : ∀ o' ∈ os, Fits u o' := by
      intro o' ho' existing hexisting
      rw [hulook, if_neg (hlt o' ho').ne, laterTail_none] at hexisting
      exact hrest o' ho' existing hexisting
    obtain ⟨l', hl', hstrict, hlook⟩ := ih hustrict hos hfits
    refine ⟨l', (commitAll_cons _).mpr ⟨u, hu, hl'⟩, hstrict, fun k => ?_⟩
    rw [hlook, hulook, look_cons]
    by_cases hk : o.key = k
    · subst hk
      rw [if_pos rfl, if_pos rfl, look_eq_none.mpr fun o' ho' => (hlt o' ho').ne', laterTail_none]
    · rw [if_neg hk, if_neg hk, laterTail_none]

theorem commitAll_append_of_ok {σ ι ε : Type} {f : σ → ι → Except ε σ} {s u : σ} {is js : List ι}
    (h : commitAll f s is = .ok u) : commitAll f s (is ++ js) = commitAll f u js := by
  induction is generalizing s with
  | nil =>
    cases h
    rfl
  | cons i is ih =>
    obtain ⟨t, ht, hrest⟩ := (commitAll_cons f).mp h
    rw [List.cons_append, commitAll, ht]
    exact ih hrest

/-- The first tail that does not fit is the one that is refused. -/
theorem uniteAll_unfit {before after : List OriginFrontier} (hl : Strict OriginFrontier.key l)
    (hos : Strict OriginFrontier.key (before ++ o :: after)) (hbefore : ∀ o' ∈ before, Fits l o')
    (h : ¬ Fits l o) : commitAll uniteOrigin l (before ++ o :: after) = .error (differentTails o) := by
  obtain ⟨hfirst, -, hlt⟩ := List.pairwise_append.mp hos
  obtain ⟨u, hu, -, hlook⟩ := uniteAll_fits hl hfirst hbefore
  have hunfit : ¬ Fits u o := by
    intro hfits
    refine h fun existing hexisting => hfits existing ?_
    rw [hlook, look_eq_none.mpr fun o' ho' => (hlt o' ho' o (List.mem_cons_self ..)).ne, laterTail_none, hexisting]
  rw [commitAll_append_of_ok hu, commitAll, uniteOrigin_unfit hunfit]

theorem exists_first_unfit (h : ¬ ∀ o ∈ os, Fits l o) :
    ∃ before o after, os = before ++ o :: after ∧ (∀ o' ∈ before, Fits l o') ∧ ¬ Fits l o := by
  classical
  push Not at h
  obtain ⟨o, ho, hunfit⟩ := h
  cases hfind : os.find? fun o => decide (¬ Fits l o) with
  | none => exact absurd (List.find?_eq_none.mp hfind o ho) (by simpa using hunfit)
  | some first =>
    obtain ⟨hfirst, before, after, hos, hbefore⟩ := List.find?_eq_some_iff_append.mp hfind
    exact ⟨before, first, after, hos, fun o' ho' => by simpa using hbefore o' ho', by simpa using hfirst⟩

/-- A tail that does not fit, and the one it contradicts. -/
theorem unfit_iff (hl : Strict OriginFrontier.key l) :
    ¬ Fits l o ↔ ∃ existing ∈ l, existing.originId = o.originId ∧ existing.seq = o.seq ∧ existing ≠ o := by
  unfold Fits
  push Not
  constructor
  · rintro ⟨existing, hlook, hseq, hne⟩
    obtain ⟨hmem, hkey⟩ := look_some hlook
    exact ⟨existing, hmem, textRank_injective hkey, hseq.symm, hne.symm⟩
  · rintro ⟨existing, hmem, hid, hseq, hne⟩
    refine ⟨existing, ?_, hseq.symm, hne.symm⟩
    rw [show o.key = existing.key from congrArg textRank hid.symm]
    exact look_of_mem hl hmem

/-- Whether tails fit does not depend on which are the first. -/
theorem fits_comm (hl : Strict OriginFrontier.key l) (hos : Strict OriginFrontier.key os) (h : ∀ o ∈ os, Fits l o) :
    ∀ o ∈ l, Fits os o := by
  intro o ho
  by_contra hunfit
  obtain ⟨existing, hmem, hid, hseq, hne⟩ := (unfit_iff hos).mp hunfit
  exact (unfit_iff hl).mpr ⟨o, ho, hid.symm, hseq.symm, hne.symm⟩ (h existing hmem)

/-- When the first tail of one list that does not fit the other is taken, the tails before it fit; so the
first of the other list is the same or comes later. -/
theorem unfit_order {before before' after after' : List OriginFrontier} {o o' : OriginFrontier}
    (hl : Strict OriginFrontier.key (before ++ o :: after)) (hos : Strict OriginFrontier.key (before' ++ o' :: after'))
    (hbefore : ∀ q ∈ before', Fits (before ++ o :: after) q) (hunfit : ¬ Fits (before' ++ o' :: after') o) :
    o.originId = o'.originId ∧ o.seq = o'.seq ∨ o'.key < o.key := by
  obtain ⟨existing, hmem, hid, hseq, hne⟩ := (unfit_iff hos).mp hunfit
  obtain ⟨-, hright, -⟩ := List.pairwise_append.mp hos
  rcases List.mem_append.mp hmem with hmem | hmem
  · have ho : o ∈ before ++ o :: after := List.mem_append_right _ (List.mem_cons_self ..)
    exact absurd (hbefore existing hmem) ((unfit_iff hl).mpr ⟨o, ho, hid.symm, hseq.symm, hne.symm⟩)
  · rcases List.mem_cons.mp hmem with rfl | hmem
    · exact Or.inl ⟨hid.symm, hseq.symm⟩
    · refine Or.inr ?_
      rw [show o.key = existing.key from congrArg textRank hid.symm]
      exact (List.pairwise_cons.mp hright).1 existing hmem

/-- The origins of a union do not depend on the order of the parents. -/
theorem uniteAll_comm (hl : Strict OriginFrontier.key l) (hos : Strict OriginFrontier.key os) :
    commitAll uniteOrigin l os = commitAll uniteOrigin os l := by
  by_cases hfits : ∀ o ∈ os, Fits l o
  · obtain ⟨u, hu, hustrict, hulook⟩ := uniteAll_fits hl hos hfits
    obtain ⟨v, hv, hvstrict, hvlook⟩ := uniteAll_fits hos hl (fits_comm hl hos hfits)
    rw [hu, hv]
    congr 1
    refine ext hustrict hvstrict fun k => ?_
    rw [hulook, hvlook]
    cases ha : look OriginFrontier.key l k with
    | none => rw [laterTail_none]; rfl
    | some a =>
      cases hb : look OriginFrontier.key os k with
      | none => rfl
      | some b =>
        obtain ⟨-, rfl⟩ := look_some ha
        obtain ⟨hmem, hkey⟩ := look_some hb
        have hab := hfits b hmem a (by rw [hkey]; exact ha)
        unfold laterTail
        by_cases hseq : b.seq = a.seq
        · rw [hab hseq]
        · by_cases hlt : a.seq < b.seq
          · simp [hlt, show ¬ b.seq < a.seq by omega]
          · simp [hlt, show b.seq < a.seq by omega]
  · obtain ⟨before, o, after, rfl, hbefore, hunfit⟩ := exists_first_unfit hfits
    obtain ⟨before', o', after', rfl, hbefore', hunfit'⟩ := exists_first_unfit fun h => hfits (fits_comm hos hl h)
    rw [uniteAll_unfit hl hos hbefore hunfit, uniteAll_unfit hos hl hbefore' hunfit']
    -- each is the first in its list, so neither lies before the other
    have hsame : o.originId = o'.originId ∧ o.seq = o'.seq := by
      rcases unfit_order hos hl hbefore' hunfit with hsame | hlt
      · exact hsame
      · rcases unfit_order hl hos hbefore hunfit' with hsame | hlt'
        · exact ⟨hsame.1.symm, hsame.2.symm⟩
        · exact absurd (hlt.trans hlt') (lt_irrefl _)
    unfold differentTails
    rw [hsame.1, hsame.2]

end

/-! ### The parents of a union -/

theorem sortDedup_pair (a b : String) :
    sortDedup [a, b] = if a = b then [a] else if textLt a b then [a, b] else [b, a] := by
  have hrank : textRank a = textRank b ↔ a = b := textRank_injective.eq_iff
  show (List.orderedInsert (fun a b => textRank a ≤ textRank b) a [b]).destutter (· ≠ ·) = _
  rw [List.orderedInsert_cons, List.orderedInsert_nil]
  by_cases heq : a = b
  · subst heq
    simp [List.destutter]
  · rw [if_neg heq]
    by_cases hlt : textLt a b
    · rw [if_pos hlt, if_pos (textLt_iff_rank.mp hlt).le]
      simp [List.destutter, heq]
    · have hle : ¬ textRank a ≤ textRank b := by
        intro hle
        exact hlt (textLt_iff_rank.mpr (lt_of_le_of_ne hle (mt hrank.mp heq)))
      rw [if_neg hlt, if_neg hle]
      simp [List.destutter, Ne.symm heq]

theorem textLt_total {a b : String} (h : a ≠ b) (hlt : ¬ textLt a b) : textLt b a := by
  refine textLt_iff_rank.mpr (lt_of_le_of_ne (not_lt.mp (mt textLt_iff_rank.mpr hlt)) fun heq => h ?_)
  exact (textRank_injective heq).symm

theorem sortDedup_comm (a b : String) : sortDedup [a, b] = sortDedup [b, a] := by
  rw [sortDedup_pair, sortDedup_pair]
  by_cases heq : a = b
  · rw [heq]
  · rw [if_neg heq, if_neg (Ne.symm heq)]
    by_cases hlt : textLt a b
    · rw [if_pos hlt, if_neg fun hgt => textLt_irrefl a (textLt_trans hlt hgt)]
    · rw [if_neg hlt, if_pos (textLt_total heq hlt)]

theorem mem_sortDedup_pair {a b c : String} : c ∈ sortDedup [a, b] ↔ c = a ∨ c = b := by
  rw [sortDedup_pair]
  by_cases heq : a = b
  · simp [heq]
  · by_cases hlt : textLt a b
    · simp [heq, hlt]
    · simp [heq, hlt, or_comm]

theorem sortDedup_pair_sorted (a b : String) : (sortDedup [a, b]).Pairwise fun a b => textLt a b := by
  rw [sortDedup_pair]
  by_cases heq : a = b
  · simp [heq]
  · by_cases hlt : textLt a b
    · simp [heq, hlt]
    · simp [heq, hlt, textLt_total heq hlt]

/-! ### Unions of archives -/

/-- What a full verification has found out about the genesis and the head of its archive. -/
structure Rooted (R : StoreRuntime) (archive : VerifiedV2Archive) : Prop where
  valid : archive.acceptedFrontier.Valid
  hash : archive.acceptedFrontierHash = "blake3:" ++ R.blake3 (R.writeFrontier archive.acceptedFrontier)
  named : isBlake3Identifier archive.acceptedFrontierHash
  archiveId : archive.acceptedFrontier.archiveId = archive.genesis.body.archiveId
  genesisHash : archive.acceptedFrontier.genesisHash = archive.genesisHash
  canonical : ∃ bytes, archive.genesis.canonicalBytes R = .ok bytes ∧ archive.genesisHash = blake3Id R bytes

/-- One of the two full verifications accepts the archive. -/
def FullyVerified (R : StoreRuntime) (archive : VerifiedV2Archive) : Prop :=
  ∃ tree, verify R tree = .ok archive ∨ ∃ yielded, visitVerified R tree = .ok (archive, yielded)

section

variable {R : StoreRuntime} {tree : EventTree} {trust : TrustRoot} {archive left right : VerifiedV2Archive}

theorem readFrontier_eq_ok {hash : String} {f : CausalFrontier} (h : readFrontier R tree trust hash = .ok f) :
    f.Valid ∧ hash = "blake3:" ++ R.blake3 (R.writeFrontier f) ∧ isBlake3Identifier hash ∧
      f.archiveId = trust.genesis.body.archiveId ∧ f.genesisHash = trust.genesisHash := by
  simp only [readFrontier, frontierPath, validateBlake3Id, bind_eq_ok, mapError_eq_ok, require_eq_ok,
    CausalFrontier.frontierHash_eq_ok, Except.ok.injEq] at h
  obtain ⟨_, ⟨_, -, _, hnamed, -⟩, _, -, g, -, _, -, _, ⟨hvalid, rfl⟩, _, ⟨-, rfl⟩, _, ⟨harchive, hgenesis⟩, rfl⟩ := h
  exact ⟨hvalid, rfl, hnamed, harchive, hgenesis⟩

theorem readTrustRoot_genesis (h : readTrustRoot R tree = .ok trust) :
    ∃ bytes, trust.genesis.canonicalBytes R = .ok bytes ∧ trust.genesisHash = blake3Id R bytes := by
  simp only [readTrustRoot, SignedGenesis.genesisHash, bind_eq_ok, mapError_eq_ok, Except.ok.injEq] at h
  obtain ⟨_, -, g, -, _, -, _, -, _, -, hash, ⟨bytes, hbytes, rfl⟩, _, -, _, -, _, -, _, -, _, -, rfl⟩ := h
  exact ⟨bytes, hbytes, rfl⟩

theorem Opened.rooted {accepted : CausalFrontier} {frontiers : FrontierMap} (h : Opened R tree trust accepted frontiers)
    (hgenesis : archive.genesis = trust.genesis) (hgenesisHash : archive.genesisHash = trust.genesisHash)
    (haccepted : archive.acceptedFrontier = accepted)
    (hhash : archive.acceptedFrontierHash = trust.acceptedFrontierHash) : Rooted R archive := by
  obtain ⟨hvalid, hname, hnamed, harchive, hbelongs⟩ :=
    readFrontier_eq_ok ((loadFrontierGraph_below h.graph h.head).1 _ _ h.head)
  rw [← haccepted] at hvalid hname harchive hbelongs
  rw [← hhash] at hname hnamed
  rw [← hgenesis] at harchive
  rw [← hgenesisHash] at hbelongs
  exact ⟨hvalid, hname, hnamed, harchive, hbelongs, hgenesis ▸ hgenesisHash ▸ readTrustRoot_genesis h.root⟩

theorem FullyVerified.rooted (h : FullyVerified R archive) : Rooted R archive := by
  obtain ⟨tree, hverify | ⟨yielded, hvisit⟩⟩ := h
  · obtain ⟨_, _, _, _, _, _, _, _, _, _, hopened, -, -, -, -, -, -, -, -, -, rfl⟩ := verify_eq_ok.mp hverify
    exact hopened.rooted rfl rfl rfl rfl
  · obtain ⟨_, _, _, _, _, _, _, _, hopened, -, -, -, -, -, -, hout⟩ := visitVerified_eq_ok.mp hvisit
    cases hout
    exact hopened.rooted rfl rfl rfl rfl

/-- The origins of one parent are united with those of the other. -/
theorem unite_origins {l os : List OriginFrontier} (hl : Strict OriginFrontier.key l) :
    commitAll uniteOrigin [] (l ++ os) = commitAll uniteOrigin l os := by
  have hempty : Strict OriginFrontier.key ([] : List OriginFrontier) := List.Pairwise.nil
  obtain ⟨l', hl', hstrict, hlook⟩ := uniteAll_fits hempty hl fun _ _ _ h => by cases h
  have heq : l' = l := ext hstrict hl fun k => by rw [hlook]; rfl
  rw [commitAll_append_of_ok hl', heq]

theorem validateSameArchive_iff (hleft : Rooted R left) (hgenesis : left.genesis = right.genesis)
    (hversion : left.acceptedFrontier.itemProjectionVersion = right.acceptedFrontier.itemProjectionVersion)
    (hright : Rooted R right) : validateSameArchive R left right = .ok () := by
  obtain ⟨bytes, hbytes, hhash⟩ := hleft.canonical
  obtain ⟨bytes', hbytes', hhash'⟩ := hright.canonical
  have hsame : bytes = bytes' := by
    rw [hgenesis, hbytes'] at hbytes
    exact (Except.ok.inj hbytes).symm
  subst hsame
  simp only [validateSameArchive, bind_eq_ok, require_eq_ok, mapError_eq_ok]
  exact ⟨(), ⟨hhash.trans hhash'.symm, by rw [hgenesis]⟩, bytes, hbytes, bytes, hbytes', (), rfl, hversion⟩

/-- The frontier with these origins that succeeds two archives. -/
def unionOf (left right : VerifiedV2Archive) (origins : List OriginFrontier) : CausalFrontier :=
  ⟨frontierVersion, left.genesis.body.archiveId, left.genesisHash, origins,
    sortDedup [left.acceptedFrontierHash, right.acceptedFrontierHash],
    left.acceptedFrontier.itemProjectionVersion⟩

/-- Two archives that may be united. -/
structure Peers (R : StoreRuntime) (left right : VerifiedV2Archive) : Prop where
  leftVerified : FullyVerified R left
  rightVerified : FullyVerified R right
  genesis : left.genesis = right.genesis
  version : left.acceptedFrontier.itemProjectionVersion = right.acceptedFrontier.itemProjectionVersion

namespace Peers

theorem symm (h : Peers R left right) : Peers R right left := ⟨h.rightVerified, h.leftVerified, h.genesis.symm, h.version.symm⟩

theorem genesisHash (h : Peers R left right) : left.genesisHash = right.genesisHash := by
  obtain ⟨bytes, hbytes, hhash⟩ := h.leftVerified.rooted.canonical
  obtain ⟨bytes', hbytes', hhash'⟩ := h.rightVerified.rooted.canonical
  rw [h.genesis, hbytes'] at hbytes
  rw [hhash, hhash', Except.ok.inj hbytes]

theorem union_eq (h : Peers R left right) : unionFrontier R left right =
    (commitAll uniteOrigin left.acceptedFrontier.origins right.acceptedFrontier.origins).map (unionOf left right) := by
  unfold unionFrontier
  rw [validateSameArchive_iff h.leftVerified.rooted h.genesis h.version h.rightVerified.rooted, unite_origins h.leftVerified.rooted.valid.sorted]
  cases commitAll uniteOrigin left.acceptedFrontier.origins right.acceptedFrontier.origins with
  | error e => rfl
  | ok origins => rfl

theorem unionOf_comm (h : Peers R left right) (origins : List OriginFrontier) :
    unionOf left right origins = unionOf right left origins := by
  unfold unionOf
  rw [h.genesis, h.genesisHash, h.version, sortDedup_comm]

/-- The union does not depend on the order of the parents. -/
theorem union_comm (h : Peers R left right) : unionFrontier R left right = unionFrontier R right left := by
  rw [h.union_eq, h.symm.union_eq, uniteAll_comm h.leftVerified.rooted.valid.sorted h.rightVerified.rooted.valid.sorted]
  exact congrArg (fun f => Except.map f _) (funext h.unionOf_comm)

/-- A parent whose tails fit is extended by the later tails. -/
theorem extends_of_later {base other u : CausalFrontier} (hbase : base.Valid)
    (hfits : ∀ o ∈ base.origins, Fits other.origins o)
    (hu : ∀ id, u.origin? id = laterTail (other.origin? id) (base.origin? id)) : base.Extends u := by
  intro o ho
  have hself := CausalFrontier.origin?_of_mem (CausalFrontier.validate_nodup (CausalFrontier.validate_iff.mpr hbase)) ho
  rw [hu, hself]
  cases hother : other.origin? o.originId with
  | none => exact ⟨o, rfl, le_rfl, fun _ => rfl⟩
  | some existing =>
    have hsame := hfits o ho existing ((CausalFrontier.look_eq_origin? other o.originId).trans hother)
    unfold laterTail
    by_cases hlt : existing.seq < o.seq
    · exact ⟨o, if_pos hlt, le_rfl, fun _ => rfl⟩
    · exact ⟨existing, if_neg hlt, by omega, fun hseq => (hsame hseq).symm⟩

theorem laterTail_mem {a b : Option OriginFrontier} {o : OriginFrontier} (h : laterTail a b = some o) :
    a = some o ∨ b = some o := by
  cases a with
  | none => exact Or.inr h
  | some a =>
    cases b with
    | none => exact Or.inl h
    | some b =>
      change (if a.seq < b.seq then some b else some a) = some o at h
      by_cases hlt : a.seq < b.seq
      · exact Or.inr (by rwa [if_pos hlt] at h)
      · exact Or.inl (by rwa [if_neg hlt] at h)

/-- A frontier whose tails are the later ones of two archives is valid. -/
theorem unionOf_valid (h : Peers R left right) {origins : List OriginFrontier}
    (hstrict : Strict OriginFrontier.key origins)
    (hlook : ∀ k, look OriginFrontier.key origins k = laterTail (look OriginFrontier.key left.acceptedFrontier.origins k)
      (look OriginFrontier.key right.acceptedFrontier.origins k)) : (unionOf left right origins).Valid := by
  have hleft := h.leftVerified.rooted
  have hright := h.rightVerified.rooted
  have harchive : left.genesis.body.archiveId ≠ "" := hleft.archiveId ▸ hleft.valid.archive
  have hgenesis : isBlake3Identifier left.genesisHash := hleft.genesisHash ▸ hleft.valid.genesis
  refine ⟨rfl, harchive, hleft.valid.projection, hgenesis, fun o ho => ?_, hstrict, fun hash hhash => ?_,
    sortDedup_pair_sorted _ _⟩
  · have hself := look_of_mem hstrict ho
    rw [hlook] at hself
    rcases laterTail_mem hself with hmem | hmem
    · exact hleft.valid.wellFormed o (look_some hmem).1
    · exact hright.valid.wellFormed o (look_some hmem).1
  · rcases mem_sortDedup_pair.mp hhash with rfl | rfl
    · exact hleft.named
    · exact hright.named

/-- The union of two archives whose tails fit. -/
theorem union_of_fits (h : Peers R left right)
    (hfits : ∀ o ∈ right.acceptedFrontier.origins, Fits left.acceptedFrontier.origins o) :
    ∃ u, unionFrontier R left right = .ok u ∧ u.Valid ∧
      (∃ advance, u.validateSuccessorOf R.blake3 R.writeFrontier left.acceptedFrontier = .ok advance) ∧
      (∃ advance, u.validateSuccessorOf R.blake3 R.writeFrontier right.acceptedFrontier = .ok advance) ∧
      ∀ id, u.origin? id = laterTail (left.acceptedFrontier.origin? id) (right.acceptedFrontier.origin? id) := by
  have hleft := h.leftVerified.rooted
  have hright := h.rightVerified.rooted
  obtain ⟨origins, horigins, hstrict, hlook⟩ := uniteAll_fits hleft.valid.sorted hright.valid.sorted hfits
  have hvalid := h.unionOf_valid hstrict hlook
  have hlater : ∀ id, (unionOf left right origins).origin? id =
      laterTail (left.acceptedFrontier.origin? id) (right.acceptedFrontier.origin? id) := by
    intro id
    rw [← CausalFrontier.look_eq_origin?, ← CausalFrontier.look_eq_origin?, ← CausalFrontier.look_eq_origin?]
    exact hlook _
  have hlater' : ∀ id, (unionOf left right origins).origin? id =
      laterTail (right.acceptedFrontier.origin? id) (left.acceptedFrontier.origin? id) := by
    have hcomm := uniteAll_comm hleft.valid.sorted hright.valid.sorted
    obtain ⟨origins', horigins', -, hlook'⟩ := uniteAll_fits hright.valid.sorted hleft.valid.sorted
      (fits_comm hleft.valid.sorted hright.valid.sorted hfits)
    rw [horigins, horigins'] at hcomm
    cases hcomm
    intro id
    rw [← CausalFrontier.look_eq_origin?, ← CausalFrontier.look_eq_origin?, ← CausalFrontier.look_eq_origin?]
    exact hlook' _
  refine ⟨_, by rw [h.union_eq, horigins]; rfl, hvalid, ⟨_, CausalFrontier.validateSuccessorOf_iff.mpr
    ⟨hleft.valid, hvalid, hleft.archiveId.symm, hleft.genesisHash.symm, le_rfl, ?_, ?_, rfl⟩⟩,
    ⟨_, CausalFrontier.validateSuccessorOf_iff.mpr
    ⟨hright.valid, hvalid, ?_, ?_, h.version.ge, ?_, ?_, rfl⟩⟩, hlater⟩
  · exact mem_sortDedup_pair.mpr (Or.inl hleft.hash.symm)
  · exact extends_of_later hleft.valid (fits_comm hleft.valid.sorted hright.valid.sorted hfits) hlater'
  · exact (congrArg (fun g => g.body.archiveId) h.genesis).trans hright.archiveId.symm
  · exact h.genesisHash.trans hright.genesisHash.symm
  · exact mem_sortDedup_pair.mpr (Or.inr hright.hash.symm)
  · exact extends_of_later hright.valid hfits hlater

/-- The union is refused because of an origin with different tails at one sequence. -/
theorem union_of_unfit (h : Peers R left right)
    (hunfit : ¬ ∀ o ∈ right.acceptedFrontier.origins, Fits left.acceptedFrontier.origins o) :
    ∃ o ∈ left.acceptedFrontier.origins, ∃ o' ∈ right.acceptedFrontier.origins, o.originId = o'.originId ∧
      o.seq = o'.seq ∧ o ≠ o' ∧ unionFrontier R left right = .error (differentTails o') := by
  have hleft := h.leftVerified.rooted.valid.sorted
  have hright := h.rightVerified.rooted.valid.sorted
  obtain ⟨before, o', after, heq, hbefore, hfirst⟩ := exists_first_unfit hunfit
  obtain ⟨o, ho, hid, hseq, hne⟩ := (unfit_iff hleft).mp hfirst
  refine ⟨o, ho, o', heq ▸ List.mem_append_right _ (List.mem_cons_self ..), hid, hseq, hne, ?_⟩
  rw [h.union_eq, heq, uniteAll_unfit hleft (heq ▸ hright) hbefore hfirst]
  rfl

/-- The union is the least frontier that extends both parents. -/
theorem union_least (h : Peers R left right) {u g : CausalFrontier} (hu : unionFrontier R left right = .ok u)
    (hleft : left.acceptedFrontier.Extends g) (hright : right.acceptedFrontier.Extends g) : u.Extends g := by
  by_cases hfits : ∀ o ∈ right.acceptedFrontier.origins, Fits left.acceptedFrontier.origins o
  · obtain ⟨u', hu', hvalid, -, -, hlater⟩ := h.union_of_fits hfits
    cases hu.symm.trans hu'
    intro o ho
    have hself := CausalFrontier.origin?_of_mem
      (CausalFrontier.validate_nodup (CausalFrontier.validate_iff.mpr hvalid)) ho
    rw [hlater] at hself
    rcases laterTail_mem hself with hmem | hmem
    · exact hleft o (origin?_eq_some hmem).1
    · exact hright o (origin?_eq_some hmem).1
  · obtain ⟨_, -, _, -, -, -, -, herror⟩ := h.union_of_unfit hfits
    cases hu.symm.trans herror

/-- The union with an ancestor has the tails of the descendant. -/
theorem union_of_ancestor (h : Peers R left right) {p : List (FrontierAdvance × CausalFrontier)}
    (hp : Path (CausalFrontier.Succeeds R.blake3 R.writeFrontier) right.acceptedFrontier p)
    (hend : final right.acceptedFrontier p = left.acceptedFrontier) :
    ∃ u, unionFrontier R left right = .ok u ∧ u.origins = left.acceptedFrontier.origins := by
  have hextends := CausalFrontier.extends_of_chain h.rightVerified.rooted.valid hp
  rw [hend] at hextends
  have hfits : ∀ o ∈ right.acceptedFrontier.origins, Fits left.acceptedFrontier.origins o := by
    intro o ho existing hexisting hseq
    obtain ⟨o', ho', -, hsame⟩ := hextends o ho
    rw [← CausalFrontier.look_eq_origin?] at ho'
    cases hexisting.symm.trans ho'
    exact (hsame hseq).symm
  have hleft := h.leftVerified.rooted.valid
  obtain ⟨u, hu, hvalid, ⟨_, hsuccessor⟩, -, -⟩ := h.union_of_fits hfits
  obtain ⟨-, -, -, -, -, -, habove, -⟩ := CausalFrontier.validateSuccessorOf_iff.mp hsuccessor
  exact ⟨u, hu, CausalFrontier.Extends.antisymm hvalid hleft
    (h.union_least hu (CausalFrontier.Extends.refl hleft) hextends) habove⟩

end Peers

end

/-- A chain of successors only extends its first frontier, and its advances name the origins whose tails
changed.  The union of two archives is refused for an origin with different tails at one sequence, or it
succeeds both with the later tail of every origin. -/
theorem frontiers_join (R : StoreRuntime) :
    (∀ base p, p ≠ [] → Path (CausalFrontier.Succeeds R.blake3 R.writeFrontier) base p →
      base.Extends (final base p) ∧ ∀ id, (∃ e ∈ p, id ∈ e.1.advancedOrigins ++ e.1.addedOrigins) ↔
        base.origin? id ≠ (final base p).origin? id) ∧
    ∀ left right, Peers R left right →
      unionFrontier R left right = unionFrontier R right left ∧
      ((∃ o ∈ left.acceptedFrontier.origins, ∃ o' ∈ right.acceptedFrontier.origins, o.originId = o'.originId ∧
          o.seq = o'.seq ∧ o ≠ o' ∧ unionFrontier R left right = .error (differentTails o')) ∨
        ∃ u, unionFrontier R left right = .ok u ∧
          (∃ advance, u.validateSuccessorOf R.blake3 R.writeFrontier left.acceptedFrontier = .ok advance) ∧
          (∃ advance, u.validateSuccessorOf R.blake3 R.writeFrontier right.acceptedFrontier = .ok advance) ∧
          ∀ id, u.origin? id = laterTail (left.acceptedFrontier.origin? id) (right.acceptedFrontier.origin? id)) ∧
      ∀ p, Path (CausalFrontier.Succeeds R.blake3 R.writeFrontier) right.acceptedFrontier p →
        final right.acceptedFrontier p = left.acceptedFrontier →
        ∃ u, unionFrontier R left right = .ok u ∧ u.origins = left.acceptedFrontier.origins := by
  refine ⟨fun base p hne hp => ?_, fun left right h => ⟨h.union_comm, ?_, fun p hp hend => h.union_of_ancestor hp hend⟩⟩
  · have hbase : base.Valid := by
      cases p with
      | nil => exact absurd rfl hne
      | cons e p => exact (CausalFrontier.validateSuccessorOf_iff.mp hp.1).1
    exact ⟨CausalFrontier.extends_of_chain hbase hp, CausalFrontier.changed_iff hp⟩
  · by_cases hfits : ∀ o ∈ right.acceptedFrontier.origins, Fits left.acceptedFrontier.origins o
    · obtain ⟨u, hu, -, hleft, hright, hlater⟩ := h.union_of_fits hfits
      exact Or.inr ⟨u, hu, hleft, hright, hlater⟩
    · exact Or.inl (h.union_of_unfit hfits)

namespace Sample

/-- The archive one frontier earlier. -/
def interleavedBefore : EventTree := tree interleaved.batches (interleaved.frontiers.take 4)

theorem interleavedBefore_visited :
    ∃ out, visitVerified interleaved.runtime interleavedBefore = .ok out ∧
      decide (out.1.genesis = genesis ∧ out.1.acceptedFrontier = frontier interleaved.batches ⟨[1, 2], [2]⟩) = true :=
  exists_ok_of_any (by decide +kernel)

theorem interleaved_succeeds :
    (frontier interleaved.batches ⟨[3, 2], [3]⟩).validateSuccessorOf interleaved.runtime.blake3
      interleaved.runtime.writeFrontier (frontier interleaved.batches ⟨[1, 2], [2]⟩) = .ok ⟨[client 1], []⟩ := by
  decide +kernel

theorem interleaved_join : ∃ left right, Peers interleaved.runtime left right ∧
    left.acceptedFrontier.origins ≠ right.acceptedFrontier.origins ∧
    ∃ u, unionFrontier interleaved.runtime left right = .ok u ∧ u.origins = left.acceptedFrontier.origins := by
  obtain ⟨⟨left, records⟩, hleft, hlook⟩ := interleaved_accepted
  obtain ⟨⟨right, records'⟩, hright, hlook'⟩ := interleavedBefore_visited
  obtain ⟨hgenesis, hfrontier, -⟩ := of_decide_eq_true hlook
  obtain ⟨hgenesis', hfrontier'⟩ := of_decide_eq_true hlook'
  have hpeers : Peers interleaved.runtime left right :=
    ⟨⟨_, Or.inr ⟨_, hleft⟩⟩, ⟨_, Or.inr ⟨_, hright⟩⟩, hgenesis.trans hgenesis'.symm, by rw [hfrontier, hfrontier']; rfl⟩
  have hchain : Path (CausalFrontier.Succeeds interleaved.runtime.blake3 interleaved.runtime.writeFrontier)
      right.acceptedFrontier [(⟨[client 1], []⟩, left.acceptedFrontier)] := by
    rw [hfrontier, hfrontier']
    exact ⟨interleaved_succeeds, trivial⟩
  obtain ⟨hextend, hunion⟩ := frontiers_join interleaved.runtime
  obtain ⟨-, hchanged⟩ := hextend _ _ (List.cons_ne_nil _ _) hchain
  obtain ⟨-, -, hancestor⟩ := hunion left right hpeers
  refine ⟨left, right, hpeers, fun heq => ?_, hancestor _ hchain rfl⟩
  refine (hchanged (client 1)).mp ⟨_, List.mem_singleton_self _, List.mem_cons_self ..⟩ ?_
  show right.acceptedFrontier.origin? (client 1) = left.acceptedFrontier.origin? (client 1)
  unfold CausalFrontier.origin?
  rw [heq]

end Sample

end ArchiveLedger
