import ArchiveLedger.Projection.Candidates
import ArchiveLedger.Projection.Tracking

/-!
# Observations that supersede others

A run of the projector over observations of one path keeps what a tracker of the path keeps
(`Tracks`).  `supersedes_iff_steady` says along which orders a conflict lasts exactly as
long as a contradiction that no later observation supersedes.
-/

namespace ArchiveLedger

open Relational Outcome Transition Tracker LinearExtension

variable (R : ProjectionRuntime)

/-- The row that records a conflict between two observations of a path. -/
def Observation.conflict (at_ : String × StoredPath) (a b : Observation) : FactConflictRow :=
  fileIdentityConflict R at_.1 at_.2 a.record.dot b.record.dot

/-- A conflict between two observations of one path. -/
def Raised (L : List Observation) (row : FactConflictRow) : Prop :=
  ∃ a ∈ L, ∃ b ∈ L, a ≠ b ∧ ∃ k, a.logicalPath R = some k ∧ b.logicalPath R = some k ∧
    row = a.conflict R k b

/-- Observations that a database has not applied, of Files it does not know. -/
structure Unapplied (db : Projection) (L : List Observation) : Prop where
  observes : ∀ o ∈ L, Observes db o
  positive : ∀ o ∈ L, 0 < o.record.originSeq
  distinct : L.Pairwise fun a b =>
    recordSchema.Apart (Projection.recordRow a.record) (Projection.recordRow b.record)
  recorded : ∀ o ∈ L, db.records.Admits (Projection.recordRow o.record)
  /-- A File ID names one path. -/
  stable : ∀ a ∈ L, ∀ b ∈ L, a.fileRef = b.fileRef → a.logicalPath R = b.logicalPath R
  files : ∀ o ∈ L, ∀ file ∈ db.fileObjects.rows,
    o.fileRef ≠ some file.canonicalId ∧ o.logicalPath R ≠ some file.at
  conflicts : ∀ row, Raised R L row → db.factConflicts.Admits row
  /-- No two conflicts share an id. -/
  named : ∀ row row', Raised R L row → Raised R L row' → row.conflictId = row'.conflictId → row = row'

variable {R}

variable {frontiers : FrontierMap} {db₀ db : Projection} {l L : List Observation} {o : Observation}
  {k : String × StoredPath}

/-! ### Chunks of one observation -/

theorem observes_chunk : o.chunk.observes R k = true ↔ o.logicalPath R = some k := by
  simp [Chunk.observes_iff]

theorem raised_of_chunks {row : FactConflictRow} (h : Chunk.Raised R (L.map Observation.chunk) row) :
    Raised R L row := by
  obtain ⟨a, ha, b, hb, hne, k, hka, hkb, rfl⟩ := h
  obtain ⟨x, hx, rfl⟩ := List.mem_map.mp ha
  obtain ⟨y, hy, rfl⟩ := List.mem_map.mp hb
  exact ⟨x, hx, y, hy, fun e => hne (congrArg _ e), k, observes_chunk.mp hka, observes_chunk.mp hkb, rfl⟩

namespace Unapplied

theorem of_sublist {M : List Observation} (h : Unapplied R db L) (hs : M.Sublist L) : Unapplied R db M where
  observes o ho := h.observes o (hs.subset ho)
  positive o ho := h.positive o (hs.subset ho)
  distinct := h.distinct.sublist hs
  recorded o ho := h.recorded o (hs.subset ho)
  stable a ha b hb := h.stable a (hs.subset ha) b (hs.subset hb)
  files o ho := h.files o (hs.subset ho)
  conflicts row := by
    rintro ⟨a, ha, b, hb, hr⟩
    exact h.conflicts row ⟨a, hs.subset ha, b, hs.subset hb, hr⟩
  named row row' := by
    rintro ⟨a, ha, b, hb, hr⟩ ⟨c, hc, d, hd, hr'⟩
    exact h.named row row' ⟨a, hs.subset ha, b, hs.subset hb, hr⟩ ⟨c, hs.subset hc, d, hs.subset hd, hr'⟩

theorem trackable (h : Unapplied R db L) : Trackable R db (L.map Observation.chunk) where
  positive := by
    intro c hc
    obtain ⟨o, ho, rfl⟩ := List.mem_map.mp hc
    exact h.positive o ho
  distinct := List.pairwise_map.mpr h.distinct
  recorded := by
    intro c hc
    obtain ⟨o, ho, rfl⟩ := List.mem_map.mp hc
    exact h.recorded o ho
  agreed := by
    intro c hc x hx y hy k _ _
    obtain ⟨o, -, rfl⟩ := List.mem_map.mp hc
    rw [Observation.observations_chunk, List.mem_singleton] at hx hy
    rw [hx, hy]
  stable := by
    intro a ha x hx b hb y hy
    obtain ⟨o, ho, rfl⟩ := List.mem_map.mp ha
    obtain ⟨p, hp, rfl⟩ := List.mem_map.mp hb
    rw [Observation.observations_chunk, List.mem_singleton] at hx hy
    subst hx hy
    exact h.stable x ho y hp
  files := by
    intro c hc x hx
    obtain ⟨o, ho, rfl⟩ := List.mem_map.mp hc
    rw [Observation.observations_chunk, List.mem_singleton] at hx
    subst hx
    exact h.files x ho
  conflicts row hr := h.conflicts row (raised_of_chunks hr)
  named row row' hr hr' := h.named row row' (raised_of_chunks hr) (raised_of_chunks hr')
  entities := by
    intro c hc k l hk hl _
    obtain ⟨o, -, rfl⟩ := List.mem_map.mp hc
    exact Option.some.inj ((observes_chunk.mp hk).symm.trans (observes_chunk.mp hl))

end Unapplied

/-- The verdict on the chunks of observations of one path is that on the observations. -/
theorem viewOf_chunks (hk : ∀ o ∈ l, o.logicalPath R = some k) :
    viewOf R frontiers (l.map Observation.chunk) k
      = ((Observation.facts frontiers).verdict l).map (Verdict.map Observation.chunk) := by
  have hall : Facts.about (Chunk.observes R k) (l.map Observation.chunk) = l.map Observation.chunk := by
    refine List.filter_eq_self.mpr fun c hc => ?_
    obtain ⟨o, ho, rfl⟩ := List.mem_map.mp hc
    exact observes_chunk.mpr (hk o ho)
  rw [viewOf, hall]
  refine Facts.verdict_map (Observation.facts frontiers) (fun o ho => ?_) fun _ _ _ _ => rfl
  have habout : o.chunk.about R k = some o := by
    simp [Chunk.about, hk o ho]
  simp only [Chunk.facts, habout, Option.bind_some]
  rfl

/-! ### One order -/

/-- A run over the records of observations. -/
def Projection.observeAll (R : ProjectionRuntime) (context : V2VerificationContext) (db : Projection)
    (l : List Observation) : ProjectionResult Projection :=
  commitAll (projectRecord R context) db (l.map Observation.record)

theorem tracks_observeAll {context : V2VerificationContext} (hu : Unapplied R db₀ l)
    (h : Projection.observeAll R context db₀ l = .ok db) :
    Tracks R context.frontiers db₀ (l.map Observation.chunk)
      (viewOf R context.frontiers (l.map Observation.chunk)) db := by
  refine tracks_deliver hu.trackable ?_ ?_
  · intro c hc
    obtain ⟨o, ho, rfl⟩ := List.mem_map.mp hc
    exact (hu.observes o ho).known
  · rw [Projection.deliver, List.map_map]
    exact h

/-- The first of two observations lies in the causal base of the second, so that a run
comes to it first. -/
def CausalOrder (frontiers : FrontierMap) (l : List Observation) : Prop :=
  Respects (Observation.facts frontiers).Precedes l

/-- What a run over the observations of one path is to leave: a conflict as long as some
contradiction is not superseded, and the object of an observation that supersedes every
one. -/
structure Supersedes (R : ProjectionRuntime) (frontiers : FrontierMap) (k : String × StoredPath)
    (l : List Observation) (db : Projection) : Prop where
  conflict : (db.identityAt k).map Prod.fst = some .conflict ↔ (Observation.facts frontiers).Unsettled l
  resolved : ∀ pre c post, l = pre ++ c :: post →
    (∃ x ∈ pre, ∃ y ∈ pre, (Observation.facts frontiers).Contradicts x y ∧
      (Observation.facts frontiers).covers c x ∧ (Observation.facts frontiers).covers c y) →
    ¬ (Observation.facts frontiers).Unsettled l →
    (∀ d ∈ post, optionalString d.item "object_id" = optionalString c.item "object_id") →
    db.identityAt k = some (.resolved, optionalString c.item "object_id") ∧
      ∀ x ∈ pre, ∀ y ∈ pre, (Observation.facts frontiers).Contradicts x y →
        (Observation.facts frontiers).covers c x → (Observation.facts frontiers).covers c y →
        ∀ row ∈ db.factConflicts.rows, row.dots = (x.conflict R k y).dots → row.state ≠ .unresolved

theorem Tracks.conflict_iff {V : View} (ht : Tracks R frontiers db₀ (l.map Observation.chunk) V db)
    (hV : V k = ((Observation.facts frontiers).verdict l).map (Verdict.map Observation.chunk))
    (hstart : db₀.identityAt k = none) :
    (db.identityAt k).map Prod.fst = some .conflict ↔ (Observation.facts frontiers).IsContested l := by
  rw [ht.identityAt, hV, hstart, Facts.IsContested]
  cases (Observation.facts frontiers).verdict l with
  | none => simp [shownIdentity]
  | some v => cases v <;> simp [shownIdentity, Verdict.map]

/-- Along an order, each state is as it is to be exactly when the order is steady. -/
theorem supersedes_iff_steady {context : V2VerificationContext} {L : List Observation}
    (hu : Unapplied R db₀ L) (hL : CausalOrder context.frontiers L) {k : String × StoredPath}
    (hk : ∀ o ∈ L, o.logicalPath R = some k) (hstart : db₀.identityAt k = none)
    (hrun : Projection.observeAll R context db₀ L = .ok db) :
    (∀ l db', l <+: L → Projection.observeAll R context db₀ l = .ok db' →
        Supersedes R context.frontiers k l db') ↔ (Observation.facts context.frontiers).Steady L := by
  have hcontested : ∀ l db', l <+: L → Projection.observeAll R context db₀ l = .ok db' →
      ((db'.identityAt k).map Prod.fst = some .conflict ↔
        (Observation.facts context.frontiers).IsContested l) := by
    intro l db' hl hrun'
    exact (tracks_observeAll (hu.of_sublist hl.sublist) hrun').conflict_iff
      (viewOf_chunks fun o ho => hk o (hl.subset ho)) hstart
  constructor
  · intro h
    refine (Facts.contested_iff_unsettled hL).mp fun l hl => ?_
    obtain ⟨rest, rfl⟩ := hl
    rw [Projection.observeAll, List.map_append] at hrun
    obtain ⟨d, hd, -⟩ := (commitAll_append _).mp hrun
    have hp : l <+: l ++ rest := List.prefix_append _ _
    rw [← hcontested l d hp hd]
    exact (h l d hp hd).conflict
  · intro hsteady l db' hl hrun'
    refine ⟨?_, ?_⟩
    · rw [hcontested l db' hl hrun']
      exact (Facts.contested_iff_unsettled hL).mpr hsteady l hl
    · rintro pre c post rfl ⟨x, hx, y, hy, hc, -, -⟩ hsettled
      exact absurd (hsteady.stays _ hl ⟨x, by simp [hx], y, by simp [hy], hc⟩) hsettled

/-! ### Observers of one path -/

namespace Sample

def samplePath : String × StoredPath := (collectionId, ⟨"utf8", utf8 "a"⟩)

/-- Client `n` observes an object at the path. -/
def seen (n object base : Nat) : ProjectedBatch :=
  ⟨n, n, 0, base, [observedFile object "file_a" "a" 1 "copy_a" "a"]⟩

def observation (n object base : Nat) : Observation :=
  ⟨chunkRecord (seen n object base), observedFile object "file_a" "a" 1 "copy_a" "a"⟩

/-- The registry with the batches of observations begun. -/
def begun (context : V2VerificationContext) (batches : List ProjectedBatch) : Projection :=
  (commitAll (Projection.projectRecord projectionRuntime context) registry
    (batches.map startRecord)).toOption.getD registry

/-- No two conflicts that observations of the path may raise share an id. -/
def ConflictsNamed (L : List Observation) : Prop :=
  ∀ a ∈ L, ∀ b ∈ L, ∀ c ∈ L, ∀ d ∈ L,
    (a.conflict projectionRuntime samplePath b).conflictId
      = (c.conflict projectionRuntime samplePath d).conflictId →
    a.conflict projectionRuntime samplePath b = c.conflict projectionRuntime samplePath d

instance (L : List Observation) : Decidable (ConflictsNamed L) := by
  unfold ConflictsNamed
  infer_instance

theorem observes_observation {db : Projection} {n object base : Nat}
    (h : (db.batchRuns.get? (numbered "batch_" n)).any (fun b => b.itemSchemaVersion = 1) = true) :
    Observes db (observation n object base) := by
  cases hb : db.batchRuns.get? (numbered "batch_" n) with
  | none =>
    rw [hb] at h
    cases h
  | some b =>
    rw [hb, Option.any_some, decide_eq_true_eq] at h
    refine ⟨rfl, ⟨_, b, rfl, hb, ?_⟩, rfl⟩
    rw [Projection.batchItem, if_pos h]
    rfl

/-- Observations of the path by the clients of a list. -/
def observations (seen : List (Nat × Nat × Nat)) : List Observation :=
  seen.map fun s => observation s.1 s.2.1 s.2.2

theorem unapplied_observations {db : Projection} {seen : List (Nat × Nat × Nat)}
    (hruns : ∀ s ∈ seen, (db.batchRuns.get? (numbered "batch_" s.1)).any
      (fun b => b.itemSchemaVersion = 1) = true)
    (hrecords : ∀ o ∈ observations seen, db.records.Admits (Projection.recordRow o.record))
    (hdistinct : (observations seen).Pairwise fun a b =>
      recordSchema.Apart (Projection.recordRow a.record) (Projection.recordRow b.record))
    (hfiles : db.fileObjects.rows = []) (hconflicts : db.factConflicts.rows = [])
    (hnamed : ConflictsNamed (observations seen)) : Unapplied projectionRuntime db (observations seen) := by
  have hmem : ∀ o ∈ observations seen, ∃ s ∈ seen, observation s.1 s.2.1 s.2.2 = o :=
    fun o ho => List.mem_map.mp ho
  have hpath : ∀ o ∈ observations seen, o.logicalPath projectionRuntime = some samplePath := by
    intro o ho
    obtain ⟨s, -, rfl⟩ := hmem o ho
    rfl
  have hraised : ∀ row, Raised projectionRuntime (observations seen) row → ∃ a ∈ observations seen,
      ∃ b ∈ observations seen, row = a.conflict projectionRuntime samplePath b := by
    rintro row ⟨a, ha, b, hb, -, k, hk, -, rfl⟩
    rw [hpath a ha] at hk
    cases hk
    exact ⟨a, ha, b, hb, rfl⟩
  refine ⟨?_, ?_, hdistinct, hrecords, ?_, ?_, ?_, ?_⟩
  · intro o ho
    obtain ⟨s, hs, rfl⟩ := hmem o ho
    exact observes_observation (hruns s hs)
  · intro o ho
    obtain ⟨s, hs, rfl⟩ := hmem o ho
    exact Nat.succ_pos _
  · intro a ha b hb _
    rw [hpath a ha, hpath b hb]
  · intro o ho file hfile
    rw [hfiles] at hfile
    cases hfile
  · intro row _ other hother
    rw [hconflicts] at hother
    cases hother
  · intro row row' hrow hrow' he
    obtain ⟨a, ha, b, hb, rfl⟩ := hraised row hrow
    obtain ⟨c, hc, d, hd, rfl⟩ := hraised row' hrow'
    exact hnamed a ha b hb c hc d hd he

instance (frontiers : FrontierMap) (l : List Observation) : Decidable (CausalOrder frontiers l) :=
  inferInstanceAs (Decidable (l.Pairwise fun x y => ¬ (Observation.facts frontiers).covers x y = true))

/-- A client that knows both of the others names an object of its own. -/
def judge : List (Nat × Nat × Nat) := [(1, 1, 0), (2, 2, 0), (3, 3, 1)]

def judgeContext : V2VerificationContext := contextOf [[], [seen 1 1 0, seen 2 2 0]]

def judgeBegun : Projection := begun judgeContext (judge.map fun s => seen s.1 s.2.1 s.2.2)

theorem judge_unapplied : Unapplied projectionRuntime judgeBegun (observations judge) :=
  unapplied_observations (by decide +kernel) (by decide +kernel) (by decide +kernel)
    (by decide +kernel) (by decide +kernel) (by decide +kernel)

theorem judge_run : ∃ db, Projection.observeAll projectionRuntime judgeContext judgeBegun
    (observations judge) = .ok db ∧
      decide (db.identityAt samplePath = some (.conflict, none)) = true :=
  exists_ok_of_any (by decide +kernel)

theorem judge_path : ∀ o ∈ observations judge, o.logicalPath projectionRuntime = some samplePath := by
  intro o ho
  obtain ⟨s, -, rfl⟩ := List.mem_map.mp ho
  rfl

theorem judge_supersedes : ¬ (Observation.facts judgeContext.frontiers).Unsettled (observations judge) := by
  rintro ⟨x, hx, y, hy, hc, hnone⟩
  have hcovered : ∀ x ∈ observations judge, ∀ y ∈ observations judge,
      ((Observation.facts judgeContext.frontiers).value x ≠ (Observation.facts judgeContext.frontiers).value y ∧
        (Observation.facts judgeContext.frontiers).covers x y = false ∧
        (Observation.facts judgeContext.frontiers).covers y x = false) →
      ∃ c ∈ observations judge, (Observation.facts judgeContext.frontiers).covers c x = true ∧
        (Observation.facts judgeContext.frontiers).covers c y = true := by
    decide +kernel
  obtain ⟨c, hcm, hcxy⟩ := hcovered x hx y hy hc
  exact hnone c hcm hcxy

/-- The one contradiction is superseded, and the path is still in conflict. -/
theorem judge_ignored : CausalOrder judgeContext.frontiers (observations judge) ∧
    ∃ db, Projection.observeAll projectionRuntime judgeContext judgeBegun (observations judge) = .ok db ∧
      ¬ Supersedes projectionRuntime judgeContext.frontiers samplePath (observations judge) db := by
  obtain ⟨db, hrun, hconflict⟩ := judge_run
  refine ⟨by decide +kernel, db, hrun, fun h => judge_supersedes (h.conflict.mp ?_)⟩
  rw [of_decide_eq_true hconflict]
  rfl

theorem judge_unsteady : ∃ db, Projection.observeAll projectionRuntime judgeContext judgeBegun
    (observations judge) = .ok db ∧
      ((∀ l db', l <+: observations judge →
        Projection.observeAll projectionRuntime judgeContext judgeBegun l = .ok db' →
          Supersedes projectionRuntime judgeContext.frontiers samplePath l db') ↔
        (Observation.facts judgeContext.frontiers).Steady (observations judge)) := by
  obtain ⟨db, hrun, -⟩ := judge_run
  exact ⟨db, hrun, supersedes_iff_steady judge_unapplied (by decide +kernel) judge_path
    (by decide +kernel) hrun⟩

end Sample

end ArchiveLedger
