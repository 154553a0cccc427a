import ArchiveLedger.Journal.Validation
import ArchiveLedger.Projection.Delivery
import ArchiveLedger.Projection.Superseding

/-!
# Observations of Files in different orders

What a run over chunks of observations leaves of a logical path depends on which chunks
that observe the path are neighbours in the order of the run, and whether it succeeds on
where its Copies stand when they are observed.  `commute_decided` says for which chunks
every order is applied and leaves the same.
-/

namespace ArchiveLedger

open Relational Outcome Transition Tracker LinearExtension Occupancy

/-! ### Entities -/

/-- The parts of a path have lengths of eight bytes. -/
def ShortPath (k : CollectionPath) : Prop :=
  (utf8 k.1).length < 256 ^ 8 ∧ (utf8 k.2.encoding).length < 256 ^ 8 ∧ k.2.bytes.length < 256 ^ 8

theorem lengthPrefixed_inj {a b x y : Bytes} (ha : a.length < 256 ^ 8) (hb : b.length < 256 ^ 8)
    (h : lengthPrefixed a ++ x = lengthPrefixed b ++ y) : a = b ∧ x = y := by
  rw [lengthPrefixed, lengthPrefixed, List.append_assoc, List.append_assoc] at h
  obtain ⟨hlength, h⟩ := List.append_inj h (by rw [length_beBytes, length_beBytes])
  exact List.append_inj h (beBytes_inj ha hb hlength)

/-- Two paths are two entities. -/
theorem entityKey_inj {k l : CollectionPath} (hk : ShortPath k) (hl : ShortPath l)
    (h : entityKey k.1 k.2 = entityKey l.1 l.2) : k = l := by
  obtain ⟨collection, encoding, bytes⟩ := k
  obtain ⟨collection', encoding', bytes'⟩ := l
  rw [entityKey, entityKey, List.append_assoc, List.append_assoc] at h
  obtain ⟨hcollection, h⟩ := lengthPrefixed_inj hk.1 hl.1 h
  obtain ⟨hencoding, h⟩ := lengthPrefixed_inj hk.2.1 hl.2.1 h
  rw [← List.append_nil (lengthPrefixed _), ← List.append_nil (lengthPrefixed bytes')] at h
  obtain ⟨hbytes, -⟩ := lengthPrefixed_inj hk.2.2 hl.2.2 h
  have hcollection : collection = collection' := utf8_injective hcollection
  have hencoding : encoding = encoding' := utf8_injective hencoding
  have hbytes : bytes = bytes' := hbytes
  rw [hcollection, hencoding, hbytes]

/-! ### Two orders -/

/-- Chunks of different batches, as the writers make them, that a database has not applied. -/
structure Unprojected (R : ProjectionRuntime) (context : V2VerificationContext) (db : Projection)
    (L : List Chunk) : Prop extends Fresh R db L where
  known : ∀ c ∈ L, Chunk.Known db c
  batches : ApartBatches L
  short : ∀ c ∈ L, ∀ o ∈ c.observations, ∀ k, o.logicalPath R = some k → ShortPath k
  /-- The causal bases are known. -/
  bases : ∀ c ∈ L, (context.frontiers.get? c.record.causalFrontierHash).isSome = true
  keyed : Projection.Keyed R db
  /-- No two physical paths share a key. -/
  apart : ∀ p q, CopyPaths R db L p → CopyPaths R db L q →
    Projection.pathKey R p = Projection.pathKey R q → p = q

/-- A chunk in the causal base of another comes first. -/
def Chunk.CausalOrder (frontiers : FrontierMap) (l : List Chunk) : Prop :=
  Respects (fun x y => Chunk.covers frontiers y x = true) l

/-- Two chunks name different objects for a path, and neither lies in the causal base of
the other. -/
def Contradict (R : ProjectionRuntime) (frontiers : FrontierMap) (k : CollectionPath) (x y : Chunk) : Prop :=
  x.observes R k = true ∧ y.observes R k = true ∧ (Chunk.facts R frontiers k).Contradicts x y

/-- Every order of the chunks that respects their causal bases is applied, all leave the
same identities and conflicts, and each contradiction leaves its path in conflict and its
pair recorded. -/
structure Commute (R : ProjectionRuntime) (context : V2VerificationContext) (db₀ : Projection)
    (L : List Chunk) : Prop where
  applied : ∀ M, M.Perm L → Chunk.CausalOrder context.frontiers M →
    ∃ db, Projection.deliver R context db₀ M = .ok db
  identity : ∀ M N db db', M.Perm L → N.Perm L → Chunk.CausalOrder context.frontiers M →
    Chunk.CausalOrder context.frontiers N → Projection.deliver R context db₀ M = .ok db →
    Projection.deliver R context db₀ N = .ok db' → ∀ k, db.identityAt k = db'.identityAt k
  conflicts : ∀ M N db db', M.Perm L → N.Perm L → Chunk.CausalOrder context.frontiers M →
    Chunk.CausalOrder context.frontiers N → Projection.deliver R context db₀ M = .ok db →
    Projection.deliver R context db₀ N = .ok db' →
    ∀ row, row ∈ db.factConflicts.rows ↔ row ∈ db'.factConflicts.rows
  recorded : ∀ M db, M.Perm L → Chunk.CausalOrder context.frontiers M →
    Projection.deliver R context db₀ M = .ok db → ∀ x ∈ L, ∀ y ∈ L, ∀ k,
    Contradict R context.frontiers k x y →
    db.identityAt k = some (.conflict, none) ∧ x.conflict R k y ∈ db.factConflicts.rows

variable {R : ProjectionRuntime} {context : V2VerificationContext} {db₀ db db' : Projection}
  {L M N : List Chunk} {k : CollectionPath}

namespace Unprojected

theorem trackable (h : Unprojected R context db₀ L) : Trackable R db₀ L where
  toFresh := h.toFresh
  entities c hc k l hk hl he := by
    obtain ⟨o, ho, hok⟩ := Chunk.observes_iff.mp hk
    obtain ⟨p, hp, hpl⟩ := Chunk.observes_iff.mp hl
    exact entityKey_inj (h.short c hc o ho k hok) (h.short c hc p hp l hpl) he

theorem known_perm (h : Unprojected R context db₀ L) (hp : M.Perm L) : ∀ c ∈ M, Chunk.Known db₀ c :=
  fun c hc => h.known c (hp.mem_iff.mp hc)

theorem tracks (h : Unprojected R context db₀ L) (hp : M.Perm L)
    (hrun : Projection.deliver R context db₀ M = .ok db) :
    Tracks R context.frontiers db₀ M (viewOf R context.frontiers M) db :=
  tracks_deliver (h.trackable.perm hp) (h.known_perm hp) hrun

theorem delivered (h : Unprojected R context db₀ L) (hp : M.Perm L)
    (hrun : Projection.deliver R context db₀ M = .ok db) : Delivered R context.frontiers db₀ M db :=
  delivered_of_run (h.trackable.perm hp) (h.known_perm hp)
    ((hp.pairwise_iff fun h => h.symm).mpr h.batches) h.keyed hrun

end Unprojected

/-- The chunks of each path are decided. -/
def DecidedAt (R : ProjectionRuntime) (frontiers : FrontierMap) (L : List Chunk) (k : CollectionPath) : Prop :=
  (Chunk.facts R frontiers k).Decided L (Chunk.observes R k)

/-- Decided chunks leave a contradiction recorded in every order. -/
theorem recorded_of_decided (hu : Unprojected R context db₀ L) (hd : DecidedAt R context.frontiers L k)
    (hp : M.Perm L) (hM : Chunk.CausalOrder context.frontiers M)
    (hrun : Projection.deliver R context db₀ M = .ok db) {x y : Chunk} (hx : x ∈ L) (hy : y ∈ L)
    (hc : Contradict R context.frontiers k x y) :
    db.identityAt k = some (.conflict, none) ∧ x.conflict R k y ∈ db.factConflicts.rows := by
  obtain ⟨hxk, hyk, hc⟩ := hc
  have ht := hu.tracks hp hrun
  have hcontested := Facts.contested_of_decided hd hu.trackable.nodup hp hM hx hy hxk hyk hc
  have hrow : x.conflict R k y = y.conflict R k x := hu.trackable.conflict_comm hx hy hc.ne k
  rcases hcontested with h | h
  · exact ⟨by rw [ht.identityAt, viewOf, h]; rfl,
      (ht.conflicts _).mpr (Or.inr ⟨k, x, y, h, rfl⟩)⟩
  · exact ⟨by rw [ht.identityAt, viewOf, h]; rfl,
      (ht.conflicts _).mpr (Or.inr ⟨k, y, x, h, hrow⟩)⟩

/-- The conflicts of one order of decided chunks are those of another. -/
theorem conflicts_of_decided (hu : Unprojected R context db₀ L) (hd : ∀ k, DecidedAt R context.frontiers L k)
    (hp : M.Perm L) (hM : Chunk.CausalOrder context.frontiers M)
    (hrun : Projection.deliver R context db₀ M = .ok db) (hp' : N.Perm L)
    (hN : Chunk.CausalOrder context.frontiers N) (hrun' : Projection.deliver R context db₀ N = .ok db')
    {row : FactConflictRow} (hrow : row ∈ db.factConflicts.rows) : row ∈ db'.factConflicts.rows := by
  have ht := hu.tracks hp hrun
  have ht' := hu.tracks hp' hrun'
  rcases (ht.conflicts row).mp hrow with hrow | ⟨k, a, b, hab, rfl⟩
  · exact (ht'.conflicts row).mpr (Or.inl hrow)
  · obtain ⟨⟨ha, hak⟩, ⟨hb, hbk⟩, -⟩ := ht.sees.contested k a b hab
    have hM : Respects (Chunk.facts R context.frontiers k).Precedes M := hM
    have hc := (Facts.contradicts_of_contested (hM.filter _) hab).2.2
    exact (recorded_of_decided hu (hd k) hp' hN hrun' (hp.mem_iff.mp ha) (hp.mem_iff.mp hb)
      ⟨hak, hbk, hc⟩).2

theorem identity_of_decided (hu : Unprojected R context db₀ L) (hL : Chunk.CausalOrder context.frontiers L)
    (hd : DecidedAt R context.frontiers L k) (hp : M.Perm L) (hM : Chunk.CausalOrder context.frontiers M)
    (hrun : Projection.deliver R context db₀ M = .ok db) :
    db.identityAt k = some (.conflict, none) ∧
        (∃ x ∈ L, ∃ y ∈ L, Contradict R context.frontiers k x y) ∨
      db.identityAt k = shownIdentity (Chunk.facts R context.frontiers k) (db₀.identityAt k)
          (viewOf R context.frontiers L k) ∧
        ¬ ∃ x ∈ L, ∃ y ∈ L, Contradict R context.frontiers k x y := by
  by_cases hpair : ∃ x ∈ L, ∃ y ∈ L, Contradict R context.frontiers k x y
  · obtain ⟨x, hx, y, hy, hc⟩ := hpair
    exact Or.inl ⟨(recorded_of_decided hu hd hp hM hrun hx hy hc).1, x, hx, y, hy, hc⟩
  · refine Or.inr ⟨?_, hpair⟩
    rw [(hu.tracks hp hrun).identityAt]
    have hnone : ∀ x ∈ L, ∀ y ∈ L, x.observes R k = true → y.observes R k = true →
        ¬ (Chunk.facts R context.frontiers k).Contradicts x y :=
      fun x hx y hy hxk hyk hc => hpair ⟨x, hx, y, hy, hxk, hyk, hc⟩
    rcases Facts.settled_of_forall hnone hp hM hL with ⟨hl, hm⟩ | ⟨x, y, hl, hm, hv⟩
    · rw [viewOf, viewOf, hl, hm]
    · rw [viewOf, viewOf, hl, hm]
      exact congrArg (fun object => some (IdentityState.resolved, object)) hv.symm

/-- Orders that all record every contradiction leave the chunks of a path decided. -/
theorem decided_of_commute (hu : Unprojected R context db₀ L) (hL : Chunk.CausalOrder context.frontiers L)
    (hcommute : Commute R context db₀ L) : DecidedAt R context.frontiers L k := by
  refine Facts.decided_of_contested hu.trackable.nodup hL ?_
  intro M hp hM x hx y hy hxk hyk hc
  obtain ⟨db, hrun⟩ := hcommute.applied M hp hM
  have ht := hu.tracks hp hrun
  have hrow := (hcommute.recorded M db hp hM hrun x hx y hy k ⟨hxk, hyk, hc⟩).2
  -- the row of the pair is a new one, and so that of the pair the run names
  rcases (ht.conflicts _).mp hrow with hrow | ⟨k', a, b, hab, he⟩
  · have hadmits := hu.conflicts _ ⟨x, hx, y, hy, hc.ne, k, hxk, hyk, rfl⟩ _ hrow
    exact absurd rfl hadmits.1
  · obtain ⟨⟨ha, hak⟩, ⟨hb, hbk⟩, -⟩ := ht.sees.contested k' a b hab
    obtain ⟨hentity, hpair⟩ := hu.trackable.pair_of_dots hx hy (hp.mem_iff.mp ha) (hp.mem_iff.mp hb)
      (congrArg FactConflictRow.dots he)
    rcases hpair with ⟨rfl, rfl⟩ | ⟨rfl, rfl⟩
    · obtain rfl := hu.trackable.entities x hx k k' hxk hak hentity
      exact Or.inl hab
    · obtain rfl := hu.trackable.entities x hx k k' hxk hbk hentity
      exact Or.inr hab

/-- Where some order of the chunks is applied, they commute exactly when the chunks of each
path are decided and no order finds a Copy in its way. -/
theorem commute_decided (hu : Unprojected R context db₀ L) (hL : Chunk.CausalOrder context.frontiers L)
    (hrun : Projection.deliver R context db₀ L = .ok db) :
    Commute R context db₀ L ↔
      (∀ k, (Chunk.facts R context.frontiers k).Decided L (Chunk.observes R k)) ∧
      ∀ M, M.Perm L → Chunk.CausalOrder context.frontiers M →
        Roomy db₀.seating (placements R (M.flatMap Chunk.observations)) := by
  constructor
  · intro hcommute
    refine ⟨fun k => decided_of_commute hu hL hcommute, fun M hp hM => ?_⟩
    obtain ⟨db, hrun⟩ := hcommute.applied M hp hM
    exact (hu.delivered hp hrun).stands.roomy
  · rintro ⟨hd, hroomy⟩
    refine ⟨?_, ?_, ?_, ?_⟩
    · intro M hp hM
      exact deliver_ready hu.trackable hu.known hu.batches hu.keyed hu.apart hu.bases hrun hp (hroomy M hp hM)
    · intro M N db db' hp hp' hM hN hrun hrun' k
      rcases identity_of_decided hu hL (hd k) hp hM hrun with ⟨h, hpair⟩ | ⟨h, hpair⟩ <;>
        rcases identity_of_decided hu hL (hd k) hp' hN hrun' with ⟨h', hpair'⟩ | ⟨h', hpair'⟩
      · rw [h, h']
      · exact absurd hpair hpair'
      · exact absurd hpair' hpair
      · rw [h, h']
    · intro M N db db' hp hp' hM hN hrun hrun' row
      exact ⟨conflicts_of_decided hu hd hp hM hrun hp' hN hrun',
        conflicts_of_decided hu hd hp' hN hrun' hp hM hrun⟩
    · intro M db hp hM hrun x hx y hy k hc
      exact recorded_of_decided hu (hd k) hp hM hrun hx hy hc

/-! ### Small sets of chunks -/

namespace Sample

/-- The chunk of a batch. -/
def chunk (b : ProjectedBatch) : Chunk := ⟨chunkRecord b, b.items⟩

def chunkPaths (L : List Chunk) : List CollectionPath :=
  (L.flatMap Chunk.observations).filterMap fun o => o.logicalPath projectionRuntime

def chunkCopyPaths (L : List Chunk) : List StoredPath :=
  (L.flatMap Chunk.observations).filterMap fun o =>
    (pathValue projectionRuntime o.item "copy_path").toOption.map Prod.snd

instance (k : CollectionPath) : Decidable (ShortPath k) := by
  unfold ShortPath
  infer_instance

instance (frontiers : FrontierMap) (l : List Chunk) : Decidable (Chunk.CausalOrder frontiers l) :=
  inferInstanceAs (Decidable (l.Pairwise fun x y => ¬ Chunk.covers frontiers x y = true))

/-- What is checked of batches of observations and of a database without facts. -/
@[mk_iff]
structure Plain (context : V2VerificationContext) (db : Projection) (batches : List ProjectedBatch) : Prop where
  runs : ∀ b ∈ batches, (db.batchRuns.get? (numbered "batch_" b.number)).any
    (fun r => r.itemSchemaVersion = 1) = true
  kinds : ∀ b ∈ batches, ∀ item ∈ b.items, item.isObject = true ∧
    optionalString item "kind" = some "content_observed"
  recorded : ∀ b ∈ batches, db.records.Admits (Projection.recordRow (chunkRecord b))
  distinct : batches.Pairwise fun a b =>
    recordSchema.Apart (Projection.recordRow (chunkRecord a)) (Projection.recordRow (chunkRecord b))
  ids : batches.Pairwise fun a b => (chunkRecord a).batchId ≠ (chunkRecord b).batchId
  bases : ∀ b ∈ batches, (context.frontiers.get? (chunkRecord b).causalFrontierHash).isSome = true
  agreed : ∀ c ∈ batches.map chunk, ∀ x ∈ c.observations, ∀ y ∈ c.observations,
    x.logicalPath projectionRuntime = y.logicalPath projectionRuntime →
      optionalString x.item "object_id" = optionalString y.item "object_id"
  stable : ∀ x ∈ (batches.map chunk).flatMap Chunk.observations,
    ∀ y ∈ (batches.map chunk).flatMap Chunk.observations, x.fileRef = y.fileRef →
      x.logicalPath projectionRuntime = y.logicalPath projectionRuntime
  named : ∀ a ∈ batches.map chunk, ∀ b ∈ batches.map chunk, ∀ k ∈ chunkPaths (batches.map chunk),
    ∀ c ∈ batches.map chunk, ∀ d ∈ batches.map chunk, ∀ l ∈ chunkPaths (batches.map chunk),
      (a.conflict projectionRuntime k b).conflictId = (c.conflict projectionRuntime l d).conflictId →
        a.conflict projectionRuntime k b = c.conflict projectionRuntime l d
  short : ∀ k ∈ chunkPaths (batches.map chunk), ShortPath k
  apart : ∀ p ∈ chunkCopyPaths (batches.map chunk), ∀ q ∈ chunkCopyPaths (batches.map chunk),
    Projection.pathKey projectionRuntime p = Projection.pathKey projectionRuntime q → p = q
  files : db.fileObjects.rows = []
  conflicts : db.factConflicts.rows = []
  copies : db.copyBindings.rows = []

instance (context : V2VerificationContext) (db : Projection) (batches : List ProjectedBatch) :
    Decidable (Plain context db batches) := decidable_of_iff' _ (plain_iff ..)

namespace Plain

variable {context : V2VerificationContext} {db : Projection} {batches : List ProjectedBatch}

theorem raised (row : FactConflictRow)
    (h : Chunk.Raised projectionRuntime (batches.map chunk) row) :
    ∃ a ∈ batches.map chunk, ∃ b ∈ batches.map chunk, ∃ k ∈ chunkPaths (batches.map chunk),
      row = a.conflict projectionRuntime k b := by
  obtain ⟨a, ha, b, hb, -, k, hka, -, rfl⟩ := h
  obtain ⟨o, ho, hok⟩ := Chunk.observes_iff.mp hka
  exact ⟨a, ha, b, hb, k, List.mem_filterMap.mpr ⟨o, List.mem_flatMap.mpr ⟨a, ha, ho⟩, hok⟩, rfl⟩

theorem seating_none (h : Plain context db batches) (id : String) : db.seating id = none :=
  Projection.seating_of_none (Table.get?_eq_none.mpr fun c hc => by rw [h.copies] at hc; cases hc)

theorem mem_copyPaths (h : Plain context db batches) {p : StoredPath}
    (hp : CopyPaths projectionRuntime db (batches.map chunk) p) :
    p ∈ chunkCopyPaths (batches.map chunk) := by
  rcases hp with ⟨id, location, active, hseat⟩ | ⟨c, hc, o, ho, copy, hpath⟩
  · rw [h.seating_none] at hseat
    cases hseat
  · refine List.mem_filterMap.mpr ⟨o, List.mem_flatMap.mpr ⟨c, hc, ho⟩, ?_⟩
    rw [hpath]
    rfl

theorem known (h : Plain context db batches) {b : ProjectedBatch} (hb : b ∈ batches) : Chunk.Known db (chunk b) where
  kind := rfl
  items := by
    have hrun := h.runs b hb
    cases hget : db.batchRuns.get? (numbered "batch_" b.number) with
    | none =>
      rw [hget] at hrun
      cases hrun
    | some r =>
      rw [hget, Option.any_some, decide_eq_true_eq] at hrun
      refine ⟨r, hget, ?_⟩
      show List.Forall₂ _ b.items b.items
      refine List.forall₂_same.mpr fun item hitem => ?_
      rw [Projection.batchItem, if_pos hrun]
      exact bind_eq_ok.mpr ⟨(), require_eq_ok.mpr (h.kinds b hb item hitem).1, rfl⟩
  content item hitem := (h.kinds b hb item hitem).2

theorem unprojected (h : Plain context db batches) :
    Unprojected projectionRuntime context db (batches.map chunk) where
  positive c hc := by
    obtain ⟨b, -, rfl⟩ := List.mem_map.mp hc
    exact Nat.succ_pos _
  distinct := List.pairwise_map.mpr h.distinct
  recorded c hc := by
    obtain ⟨b, hb, rfl⟩ := List.mem_map.mp hc
    exact h.recorded b hb
  agreed c hc x hx y hy k hk hl := h.agreed c hc x hx y hy (hk.trans hl.symm)
  stable a ha x hx b hb y hy := h.stable x (List.mem_flatMap.mpr ⟨a, ha, hx⟩) y (List.mem_flatMap.mpr ⟨b, hb, hy⟩)
  files c hc o ho file hfile := by
    rw [h.files] at hfile
    cases hfile
  conflicts row hr other hother := by
    rw [h.conflicts] at hother
    cases hother
  named row row' hr hr' he := by
    obtain ⟨a, ha, b, hb, k, hk, rfl⟩ := raised row hr
    obtain ⟨c, hc, d, hd, l, hl, rfl⟩ := raised row' hr'
    exact h.named a ha b hb k hk c hc d hd l hl he
  known c hc := by
    obtain ⟨b, hb, rfl⟩ := List.mem_map.mp hc
    exact h.known hb
  batches := List.pairwise_map.mpr h.ids
  short c hc o ho k hk :=
    h.short k (List.mem_filterMap.mpr ⟨o, List.mem_flatMap.mpr ⟨c, hc, ho⟩, hk⟩)
  bases c hc := by
    obtain ⟨b, hb, rfl⟩ := List.mem_map.mp hc
    exact h.bases b hb
  keyed id c hc := by
    have hm := Table.mem_of_get? hc
    rw [h.copies] at hm
    cases hm
  apart p q hp hq := h.apart p (h.mem_copyPaths hp) q (h.mem_copyPaths hq)

end Plain

/-- Three clients that know nothing of each other. -/
def strangers : List ProjectedBatch := [seen 1 1 0, seen 2 2 0, seen 3 1 0]

def strangersContext : V2VerificationContext := contextOf [[]]

/-- The pair of the first two. -/
def firstTwo : FactConflictRow :=
  (chunk (seen 1 1 0)).conflict projectionRuntime samplePath (chunk (seen 2 2 0))

/-- The last two before the first one. -/
def strangersRotated : List ProjectedBatch := [seen 2 2 0, seen 3 1 0, seen 1 1 0]

theorem strangers_run : Plain strangersContext (begun strangersContext strangers) strangers ∧
    Chunk.CausalOrder strangersContext.frontiers (strangers.map chunk) ∧
    Chunk.CausalOrder strangersContext.frontiers (strangersRotated.map chunk) ∧
    (strangers.map chunk).Pairwise (fun a b => a.record.originId ≠ b.record.originId) ∧
    (Projection.deliver projectionRuntime strangersContext (begun strangersContext strangers)
      (strangers.map chunk)).toOption.any (fun db => firstTwo ∈ db.factConflicts.rows) = true ∧
    (Projection.deliver projectionRuntime strangersContext (begun strangersContext strangers)
      (strangersRotated.map chunk)).toOption.any (fun db => firstTwo ∉ db.factConflicts.rows) = true := by
  decide +kernel

theorem strangers_noncommuting :
    Unprojected projectionRuntime strangersContext (begun strangersContext strangers) (strangers.map chunk) ∧
      Chunk.CausalOrder strangersContext.frontiers (strangers.map chunk) ∧
      (strangers.map chunk).Pairwise (fun a b => a.record.originId ≠ b.record.originId) ∧
      ¬ Commute projectionRuntime strangersContext (begun strangersContext strangers) (strangers.map chunk) := by
  obtain ⟨hplain, hcausal, hcausal', horigins, hforward, hrotated⟩ := strangers_run
  refine ⟨hplain.unprojected, hcausal, horigins, fun hcommute => ?_⟩
  obtain ⟨db, hrun, hrow⟩ := exists_ok_of_any hforward
  obtain ⟨db', hrun', hrow'⟩ := exists_ok_of_any hrotated
  have hperm : (strangersRotated.map chunk).Perm (strangers.map chunk) := List.rotate_perm (strangers.map chunk) 1
  have hsame := hcommute.conflicts _ _ db db' (List.Perm.refl _) hperm hcausal hcausal' hrun hrun' firstTwo
  exact of_decide_eq_true hrow' (hsame.mp (of_decide_eq_true hrow))

/-- Two clients that know nothing of each other, with two Files each. -/
def couple : List ProjectedBatch :=
  [⟨1, 1, 0, 0, [observedFile 1 "file_a" "a" 1 "copy_a" "a", observedFile 3 "file_b" "b" 1 "copy_b" "b"]⟩,
    ⟨2, 2, 0, 0, [observedFile 2 "file_a" "a" 2 "copy_c" "a", observedFile 3 "file_c" "c" 2 "copy_d" "c"]⟩]

/-- Among two chunks there is one pair. -/
theorem decided_pair {ν : Type} (F : Facts Chunk ν) (subject : Chunk → Bool) (a b : Chunk) :
    F.Decided [a, b] subject where
  unique x hx y hy x' hx' y' hy' _ _ _ _ hc hc' := by
    simp only [List.mem_cons, List.not_mem_nil, or_false] at hx hy hx' hy'
    rcases hx with rfl | rfl <;> rcases hy with rfl | rfl <;> rcases hx' with rfl | rfl <;>
      rcases hy' with rfl | rfl
    all_goals first
      | exact absurd rfl hc.ne
      | exact absurd rfl hc'.ne
      | exact Or.inl ⟨rfl, rfl⟩
      | exact Or.inr ⟨rfl, rfl⟩
  compared x hx y hy z hz _ _ _ hc hzx hzy := by
    simp only [List.mem_cons, List.not_mem_nil, or_false] at hx hy hz
    rcases hx with rfl | rfl <;> rcases hy with rfl | rfl <;> rcases hz with rfl | rfl
    all_goals first
      | exact absurd rfl hc.ne
      | exact absurd rfl hzx
      | exact absurd rfl hzy

/-- Each Copy is observed at one place. -/
theorem couple_run : Plain strangersContext (begun strangersContext couple) couple ∧
    Chunk.CausalOrder strangersContext.frontiers (couple.map chunk) ∧
    (∀ x ∈ placements projectionRuntime ((couple.map chunk).flatMap Chunk.observations),
      ∀ y ∈ placements projectionRuntime ((couple.map chunk).flatMap Chunk.observations), x.2 = y.2 → x.1 = y.1) ∧
    (Projection.deliver projectionRuntime strangersContext (begun strangersContext couple)
      (couple.map chunk)).toOption.any (fun db => db.identityAt samplePath = some (.conflict, none)) = true := by
  decide +kernel

theorem couple_commutes :
    Commute projectionRuntime strangersContext (begun strangersContext couple) (couple.map chunk) := by
  obtain ⟨hplain, hcausal, hplaced, hrun⟩ := couple_run
  obtain ⟨db, hrun, -⟩ := exists_ok_of_any hrun
  refine (commute_decided hplain.unprojected hcausal hrun).mpr
    ⟨fun k => decided_pair _ _ _ _, fun M hp _ => ?_⟩
  have hmem : ∀ x ∈ placements projectionRuntime (M.flatMap Chunk.observations),
      x ∈ placements projectionRuntime ((couple.map chunk).flatMap Chunk.observations) :=
    fun x hx => ((hp.flatMap_right _).filterMap _).mem_iff.mp hx
  refine roomy_of_placed ?_ fun x hx y hy => hplaced x (hmem x hx) y (hmem y hy)
  intro x _ place active hseat
  rw [hplain.seating_none] at hseat
  cases hseat

/-- A Copy that moves is refused where another one has taken its old place. -/
example :
    let moves : List ProjectedBatch := [⟨1, 1, 0, 0, [observedFile 1 "file_a" "a" 1 "copy_x" "a"]⟩,
      ⟨2, 2, 0, 0, [observedFile 1 "file_b" "b" 1 "copy_x" "b"]⟩,
      ⟨3, 3, 0, 0, [observedFile 1 "file_a" "a" 1 "copy_y" "a"]⟩]
    (Projection.deliver projectionRuntime strangersContext (begun strangersContext moves)
        (moves.map chunk)).toOption.isSome = true ∧
      (Projection.deliver projectionRuntime strangersContext (begun strangersContext moves)
        ([moves[0], moves[2], moves[1]].map chunk)).toOption.isSome = false := by
  decide +kernel

end Sample

end ArchiveLedger
