import ArchiveLedger.Catalog.Effects

/-!
# One revision is one snapshot

Every call that changes an object or a copy raises the revision of the catalog, so
two moments of a run with the same revision show the same objects and copies
(`run_advances`).  A call that commits evidence raises it even where it leaves every
row as it was (`revision_of_commitsEvidence`).
-/

namespace ArchiveLedger

open Relational Transition

/-- The catalog later: its revision did not go back, and where it is the same, so are
the objects and the copies. -/
structure Advances (c d : Catalog) : Prop where
  archiveId : d.archiveId = c.archiveId
  revision : c.revision ≤ d.revision
  snapshot : d.revision = c.revision → d.objects = c.objects ∧ d.files = c.files

theorem Advances.refl (c : Catalog) : Advances c c := ⟨rfl, Nat.le_refl _, fun _ => ⟨rfl, rfl⟩⟩

theorem Advances.trans {c d e : Catalog} (h : Advances c d) (h' : Advances d e) : Advances c e := by
  refine ⟨h'.archiveId.trans h.archiveId, h.revision.trans h'.revision, fun heq => ?_⟩
  have hcd := h.revision
  have hde := h'.revision
  obtain ⟨ho, hf⟩ := h.snapshot (by omega)
  obtain ⟨ho', hf'⟩ := h'.snapshot (by omega)
  exact ⟨ho'.trans ho, hf'.trans hf⟩

/-- A call that raises the revision advances the catalog, whatever else it writes. -/
theorem advances_of_bump {c d : Catalog} (harchive : d.archiveId = c.archiveId)
    (hrevision : d.revision = c.revision + 1) : Advances c d :=
  ⟨harchive, by omega, fun h => by omega⟩

/-- A call that writes neither objects nor copies nor the revision. -/
theorem advances_of_same {c d : Catalog} (harchive : d.archiveId = c.archiveId)
    (hrevision : d.revision = c.revision) (hobjects : d.objects = c.objects)
    (hfiles : d.files = c.files) : Advances c d :=
  ⟨harchive, by omega, fun _ => ⟨hobjects, hfiles⟩⟩

/-- What a submission leaves alone; a replay leaves objects and copies alone too. -/
theorem submit_keeps {newId : String} {c : Catalog} {o : CatalogObservation} {s : Submission}
    (h : submit newId c o = .ok s) : s.tx.archiveId = c.archiveId ∧ s.tx.revision = c.revision ∧
      (s.fresh = false → s.tx.objects = c.objects ∧ s.tx.files = c.files) := by
  rcases submit_eq_ok.mp h with ⟨key, stored, -, -, -, -, rfl⟩ | ⟨-, path, time, -, hstore, -, hfresh⟩
  · exact ⟨rfl, rfl, fun _ => ⟨rfl, rfl⟩⟩
  · rw [hfresh]
    rcases storeOutcome_eq_ok.mp hstore with ⟨-, htx⟩ | ⟨key, t, -, -, htx⟩
    · rw [htx]
      exact ⟨rfl, rfl, nofun⟩
    · rw [htx]
      exact ⟨rfl, rfl, nofun⟩

theorem observeLoop_keeps {newIds : Nat → String} {tx d : Catalog}
    {observations : List CatalogObservation} {outcomes : List ObservationOutcome} {changed : Bool}
    (h : observeLoop newIds tx observations = .ok (outcomes, changed, d)) :
    d.archiveId = tx.archiveId ∧ d.revision = tx.revision ∧
      (changed = false → d.objects = tx.objects ∧ d.files = tx.files) := by
  induction observations generalizing newIds tx outcomes changed with
  | nil => cases h; exact ⟨rfl, rfl, fun _ => ⟨rfl, rfl⟩⟩
  | cons o rest ih =>
    obtain ⟨s, more, changedMore, hs, hmore, -, rfl⟩ := observeLoop_cons.mp h
    obtain ⟨harchive, hrevision, hreplay⟩ := submit_keeps hs
    obtain ⟨harchive', hrevision', hreplays⟩ := ih hmore
    refine ⟨harchive'.trans harchive, hrevision'.trans hrevision, fun hnone => ?_⟩
    obtain ⟨hfirst, hlater⟩ := Bool.or_eq_false_iff.mp hnone
    obtain ⟨hobjects, hfiles⟩ := hreplay hfirst
    obtain ⟨hobjects', hfiles'⟩ := hreplays hlater
    exact ⟨hobjects'.trans hobjects, hfiles'.trans hfiles⟩

theorem exec_advances {c d : Catalog} {op : Op} (h : exec c op = some d) : Advances c d := by
  cases op with
  | observeBatch newIds observations =>
    obtain ⟨outcomes, hbatch⟩ := exec_observeBatch.mp h
    obtain ⟨changed, tx, hloop, rfl⟩ := observeBatch_eq_ok.mp hbatch
    obtain ⟨harchive, hrevision, hreplays⟩ := observeLoop_keeps hloop
    cases changed with
    | false => exact advances_of_same harchive hrevision (hreplays rfl).1 (hreplays rfl).2
    | true => exact advances_of_bump harchive (congrArg (· + 1) hrevision)
  | beginCatalogJob id kind parameters time =>
    obtain ⟨⟨status, e⟩, he, rfl⟩ := Option.map_eq_some_iff.mp h
    rcases beginCatalogJob_eq_ok (toOption_eq_some.mp he) with ⟨job, -, rfl⟩ | ⟨-, -, t, rfl⟩
    · exact .refl _
    · exact advances_of_bump rfl rfl
  | resetScanCoverage jobId =>
    obtain ⟨-, rfl⟩ := resetScanCoverage_eq_ok.mp (toOption_eq_some.mp h)
    exact advances_of_same rfl rfl rfl rfl
  | checkpointCatalogJob jobId progress =>
    obtain ⟨-, rfl⟩ := checkpointCatalogJob_eq_ok.mp (toOption_eq_some.mp h)
    exact advances_of_same rfl rfl rfl rfl
  | finishCatalogScan jobId collectionId locationId completeCoverage time summary =>
    obtain ⟨⟨missing, e⟩, he, rfl⟩ := Option.map_eq_some_iff.mp h
    cases completeCoverage with
    | true =>
      obtain ⟨-, -, -, -, hd⟩ := finishCatalogScan_complete.mp (toOption_eq_some.mp he)
      rw [hd]
      exact advances_of_bump rfl rfl
    | false =>
      obtain ⟨-, -, -, hd⟩ := finishCatalogScan_incomplete.mp (toOption_eq_some.mp he)
      rw [hd]
      exact advances_of_bump rfl rfl
  | finishCatalogJob jobId status time summary =>
    rcases finishCatalogJob_eq_ok (toOption_eq_some.mp h) with rfl | ⟨terminal, -, -, -, rfl⟩
    · exact .refl _
    · exact advances_of_bump rfl rfl
  | markRemoved request time =>
    obtain ⟨⟨result, e⟩, he, rfl⟩ := Option.map_eq_some_iff.mp h
    obtain ⟨-, selection, -, -, -, ⟨-, hd⟩ | ⟨-, -, hd⟩⟩ :=
      markRemoved_eq_ok.mp (toOption_eq_some.mp he)
    · rw [hd]
      exact .refl _
    · rw [hd]
      exact advances_of_bump rfl rfl
  | recordBatch changes hostId time =>
    obtain ⟨⟨commit, e⟩, he, rfl⟩ := Option.map_eq_some_iff.mp h
    obtain ⟨tx, hframe, hd⟩ := recordBatch_frame (toOption_eq_some.mp he)
    rw [hd]
    exact advances_of_bump hframe.archiveId (congrArg (· + 1) hframe.revision)
  | renameArchive name time =>
    obtain ⟨t, rfl⟩ := renameArchive_eq_ok (toOption_eq_some.mp h)
    exact advances_of_bump rfl rfl

/-- **A run only advances its catalog.** -/
theorem run_advances (c : Catalog) (ops : List Op) : Advances c (run next c ops) := by
  induction ops generalizing c with
  | nil => exact .refl c
  | cons op ops ih =>
    have hnext : Advances c (next c op) := by
      cases he : exec c op with
      | none => rw [next_of_failure he]; exact .refl c
      | some d => rw [next_of_exec he]; exact exec_advances he
    exact hnext.trans (ih (next c op))

/-! ### Calls that raise the revision -/

/-- The call commits evidence: a batch with a new observation, the end of a scan, or a
removal with an effect. -/
def CommitsEvidence (c : Catalog) : Op → Prop
  | .observeBatch newIds observations =>
      ∃ outcomes tx, observeLoop newIds c observations = .ok (outcomes, true, tx)
  | .finishCatalogScan jobId collectionId locationId completeCoverage time summary =>
      ∃ missing d, finishCatalogScan c jobId collectionId locationId completeCoverage time summary =
        .ok (missing, d)
  | .markRemoved request time =>
      ∃ result d, markRemoved c request time = .ok (result, d) ∧ result.filesMarkedMissing ≠ 0
  | _ => False

theorem revision_of_commitsEvidence {c : Catalog} {op : Op} (h : CommitsEvidence c op) :
    (next c op).revision = c.revision + 1 := by
  cases op with
  | observeBatch newIds observations =>
    obtain ⟨outcomes, tx, hloop⟩ := h
    have hbatch : exec c (.observeBatch newIds observations) = some tx.bumpRevision :=
      exec_observeBatch.mpr ⟨outcomes, observeBatch_eq_ok.mpr ⟨true, tx, hloop, rfl⟩⟩
    rw [next_of_exec hbatch]
    exact congrArg (· + 1) (observeLoop_keeps hloop).2.1
  | finishCatalogScan jobId collectionId locationId completeCoverage time summary =>
    obtain ⟨missing, d, hscan⟩ := h
    have hexec : exec c (.finishCatalogScan jobId collectionId locationId completeCoverage time
        summary) = some d := by
      rw [exec, hscan]
      rfl
    rw [next_of_exec hexec]
    cases completeCoverage with
    | true =>
      obtain ⟨-, -, -, -, rfl⟩ := finishCatalogScan_complete.mp hscan
      rfl
    | false =>
      obtain ⟨-, -, -, rfl⟩ := finishCatalogScan_incomplete.mp hscan
      rfl
  | markRemoved request time =>
    obtain ⟨result, d, hremoved, hcount⟩ := h
    have hexec : exec c (.markRemoved request time) = some d := by
      rw [exec, hremoved]
      rfl
    rw [next_of_exec hexec]
    obtain ⟨-, selection, -, -, rfl, ⟨hnil, -⟩ | ⟨-, -, rfl⟩⟩ := markRemoved_eq_ok.mp hremoved
    · exact absurd (by rw [hnil]; rfl) hcount
    · rfl
  | _ => exact absurd h id

/-- After a call that commits evidence the revision never comes back. -/
theorem revision_ne_of_commitsEvidence {c : Catalog} {p q : List Op} {op : Op}
    (h : CommitsEvidence (run next c p) op) : (run next c (p ++ op :: q)).revision ≠ c.revision := by
  rw [run_append, run_cons]
  have hbefore := (run_advances c p).revision
  have hcall := revision_of_commitsEvidence h
  have hafter := (run_advances (next (run next c p) op) q).revision
  omega

end ArchiveLedger
