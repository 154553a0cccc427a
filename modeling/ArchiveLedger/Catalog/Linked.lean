import ArchiveLedger.Catalog.Effects

/-!
# References to objects resolve

Every copy, history row and stored outcome of a reachable catalog names an object
that is there, and a stored outcome names the one at the path of its request
(`linked_of_reachable`).
-/

namespace ArchiveLedger

open Relational Transition

/-! ### Stored outcomes -/

/-- A submission stores its outcome under its key, unless it is a replay. -/
theorem operations_submit {newId : String} {c : Catalog} {o : CatalogObservation} {s : Submission}
    (h : submit newId c o = .ok s) (key : String) :
    s.tx.catalogWriteOperations.get? key =
      if s.fresh ∧ o.operationKey = some key then some ⟨key, o, s.outcome⟩
      else c.catalogWriteOperations.get? key := by
  rcases submit_eq_ok.mp h with ⟨key', stored, -, -, -, -, rfl⟩ | ⟨-, path, time, -, hstore, hout, hfresh⟩
  · simp
  · rw [hfresh, hout]
    rcases storeOutcome_eq_ok.mp hstore with ⟨hkey, htx⟩ | ⟨key', t, hkey, hinsert, htx⟩
    · rw [htx, hkey]
      simp [recordAt, recordObservation]
    · rw [htx, hkey]
      have hget : t.get? key = if key' = key then some ⟨key', o, (recordAt newId c o path time).1⟩
          else c.catalogWriteOperations.get? key := Table.get?_insert hinsert key
      by_cases heq : key' = key
      · subst heq
        simpa using hget
      · simpa [heq] using hget

/-- A call stores no outcome besides those of its submissions. -/
theorem operations_committed {c d : Catalog} {op : Op} (h : Change c (.committed op) d) :
    d.catalogWriteOperations = c.catalogWriteOperations := by
  cases op with
  | observeBatch newIds observations => rcases h with rfl | rfl <;> rfl
  | beginCatalogJob id kind parameters time =>
    obtain ⟨⟨status, e⟩, he, rfl⟩ := Option.map_eq_some_iff.mp h
    rcases beginCatalogJob_eq_ok (toOption_eq_some.mp he) with ⟨job, -, rfl⟩ | ⟨-, -, t, rfl⟩ <;> rfl
  | resetScanCoverage jobId =>
    obtain ⟨-, rfl⟩ := resetScanCoverage_eq_ok.mp (toOption_eq_some.mp h)
    rfl
  | checkpointCatalogJob jobId progress =>
    obtain ⟨-, rfl⟩ := checkpointCatalogJob_eq_ok.mp (toOption_eq_some.mp h)
    rfl
  | finishCatalogScan jobId collectionId locationId completeCoverage time summary =>
    obtain ⟨⟨missing, e⟩, he, rfl⟩ := Option.map_eq_some_iff.mp h
    cases completeCoverage with
    | true =>
      obtain ⟨-, -, -, -, hd⟩ := finishCatalogScan_complete.mp (toOption_eq_some.mp he)
      rw [hd]
      rfl
    | false =>
      obtain ⟨-, -, -, hd⟩ := finishCatalogScan_incomplete.mp (toOption_eq_some.mp he)
      rw [hd]
      rfl
  | finishCatalogJob jobId status time summary =>
    rcases finishCatalogJob_eq_ok (toOption_eq_some.mp h) with rfl | ⟨terminal, -, -, -, rfl⟩ <;> rfl
  | markRemoved request time =>
    obtain ⟨⟨result, e⟩, he, rfl⟩ := Option.map_eq_some_iff.mp h
    obtain ⟨-, selection, -, -, -, ⟨-, hd⟩ | ⟨-, -, hd⟩⟩ :=
      markRemoved_eq_ok.mp (toOption_eq_some.mp he)
    · rw [hd]
    · rw [hd]
      rfl
  | recordBatch changes hostId time =>
    obtain ⟨⟨commit, e⟩, he, rfl⟩ := Option.map_eq_some_iff.mp h
    obtain ⟨tx, hframe, hd⟩ := recordBatch_frame (toOption_eq_some.mp he)
    rw [hd]
    exact hframe.catalogWriteOperations
  | renameArchive name time =>
    obtain ⟨t, rfl⟩ := renameArchive_eq_ok (toOption_eq_some.mp h)
    rfl

/-! ### The invariant -/

/-- Copies, history rows and stored outcomes name objects of the catalog. -/
structure Linked (c : Catalog) : Prop where
  files : ∀ k, (c.files.get? k).isSome → (c.objects.get? k.1).isSome
  history : ∀ r ∈ c.history, ∀ id, r.objectId = some id → (c.objects.get? id).isSome
  operations : ∀ key w, c.catalogWriteOperations.get? key = some w →
    ∃ r ∈ c.objects.rows, r.objectId = w.outcome.objectId ∧ observedPath w.request = some r.path

theorem linked_create (archiveId displayName : String) :
    Linked (Catalog.create archiveId displayName) := by
  refine ⟨fun k h => ?_, fun r hr => absurd hr List.not_mem_nil, fun key w h => ?_⟩
  · cases h
  · cases h

/-- An object that is there stays. -/
theorem isSome_step {c d : Catalog} {e : Event} (h : Change c e d) (hnew : e.Unused c) {id : String}
    (hid : (c.objects.get? id).isSome) : (d.objects.get? id).isSome := by
  obtain ⟨r, hr⟩ := Option.isSome_iff_exists.mp hid
  obtain ⟨s, hs, hsid, -⟩ := object_step h hnew (Table.mem_of_get? hr)
  have hget : d.objects.get? s.objectId = some s := Table.get?_of_mem hs
  rw [hsid, show r.objectId = id from Table.key_of_get? hr] at hget
  rw [hget]
  rfl

theorem files_step {c d : Catalog} {e : Event} (hc : Linked c) (h : Change c e d) (hnew : e.Unused c)
    (k : String × String) (hk : (d.files.get? k).isSome) : (d.objects.get? k.1).isSome := by
  have hkeep : (c.files.get? k).isSome → (d.objects.get? k.1).isSome := fun hold =>
    isSome_step h hnew (hc.files k hold)
  cases change_effect h with
  | @observed newId o path time _ _ hobjects hfiles _ =>
    rw [hfiles, get?_recordAt_files] at hk
    split at hk
    · rename_i hkey
      rw [← hkey, hobjects, get?_recordAt hnew]
      rfl
    · unfold copyBefore at hk
      split at hk
      · exact hkeep (by rwa [Option.isSome_map] at hk)
      · exact hkeep hk
  | declared time p declare entry _ hd =>
    rw [hd.files, Option.isSome_map] at hk
    exact hkeep hk
  | kept _ _ hfiles _ => exact hkeep (hfiles ▸ hk)

/-- The rows an observation writes name its object. -/
theorem objectId_observationHistory {o : CatalogObservation} {id : String} {time : Nat}
    {before : Option Digest} {decision : IdentityDecision} {finding : Finding} {r : HistoryRow}
    (hr : r ∈ observationHistory o id time before decision finding) : r.objectId = some id := by
  unfold observationHistory at hr
  rcases List.mem_append.mp hr with hr | hr
  · split at hr
    · rw [List.mem_singleton.mp hr]
    · cases hr
  · rw [List.mem_singleton.mp hr]

theorem history_step {c d : Catalog} {e : Event} (hc : Linked c) (h : Change c e d)
    (hnew : e.Unused c) :
    ∀ r ∈ d.history, ∀ id, r.objectId = some id → (d.objects.get? id).isSome := by
  intro r hr id hid
  have hkeep : r ∈ c.history → (d.objects.get? id).isSome := fun hold =>
    isSome_step h hnew (hc.history r hold id hid)
  cases change_effect h with
  | @observed newId o path time _ _ hobjects _ hhistory =>
    rw [hhistory, recordAt_history] at hr
    rcases List.mem_append.mp hr with hr | hr
    · exact hkeep hr
    · rw [objectId_observationHistory hr, Option.some.injEq] at hid
      rw [← hid, hobjects, get?_recordAt hnew]
      rfl
  | declared time p declare entry hdecl hd =>
    obtain ⟨rows, hhistory, hrows, -⟩ := hd.history
    rw [hhistory] at hr
    rcases List.mem_append.mp hr with hr | hr
    · exact hkeep hr
    · rcases hrows r hr with hnone | ⟨f, hf, rfl⟩
      · rw [hnone] at hid
        cases hid
      · rw [hdecl.entry_objectId, Option.some.injEq] at hid
        have hfile : c.files.get? (f.objectId, f.locationId) = some f := Table.get?_of_mem hf
        rw [hd.objects, ← hid]
        exact hc.files _ (by rw [hfile]; rfl)
  | kept _ hobjects _ hhistory =>
    obtain ⟨rows, hhistory, hrows⟩ := hhistory
    rw [hhistory] at hr
    rcases List.mem_append.mp hr with hr | hr
    · exact hkeep hr
    · rw [hrows r hr] at hid
      cases hid

theorem operations_step {c d : Catalog} {e : Event} (hc : Linked c) (h : Change c e d)
    (hnew : e.Unused c) {key : String} {w : WriteOperation}
    (hw : d.catalogWriteOperations.get? key = some w) :
    ∃ r ∈ d.objects.rows, r.objectId = w.outcome.objectId ∧ observedPath w.request = some r.path := by
  have hkeep : c.catalogWriteOperations.get? key = some w →
      ∃ r ∈ d.objects.rows, r.objectId = w.outcome.objectId ∧ observedPath w.request = some r.path := by
    intro hold
    obtain ⟨r, hr, hid, hpath⟩ := hc.operations key w hold
    obtain ⟨s, hs, hsid, hspath⟩ := object_step h hnew hr
    exact ⟨s, hs, hsid.trans hid, by rw [hpath, hspath]⟩
  cases e with
  | committed op => exact hkeep (operations_committed h ▸ hw)
  | submitted newId o outcome fresh =>
    rw [operations_submit h] at hw
    split at hw
    · rename_i hstored
      -- the outcome just stored is about the object at the observed path
      cases hw
      rcases submit_eq_ok.mp h with ⟨_, _, -, -, -, -, heq⟩ | ⟨-, path, time, hadm, hstore, hout, -⟩
      · rw [heq] at hstored
        cases hstored.1
      · dsimp only at hstore hout ⊢
        obtain ⟨hpath, -⟩ := admitObservation_eq_ok.mp hadm.admitted
        have hobjects : d.objects = (recordAt newId c o path time).2.objects := by
          rcases storeOutcome_eq_ok.mp hstore with ⟨-, rfl⟩ | ⟨_, t, -, -, rfl⟩ <;> rfl
        have hget := @get?_recordAt newId c o path time hnew
        refine ⟨_, hobjects ▸ Table.mem_of_get? hget, ?_, ?_⟩
        · rw [hout, recordAt_objectId]
          exact Table.key_of_get? hget
        · rw [hpath, IdentityDecision.path_apply, path_objectBefore]
    · exact hkeep hw

theorem linked_step {c d : Catalog} {e : Event} (hc : Linked c) (h : Change c e d)
    (hnew : e.Unused c) : Linked d :=
  ⟨files_step hc h hnew, history_step hc h hnew, fun _ _ => operations_step hc h hnew⟩

/-- **The references of a reachable catalog resolve.** -/
theorem linked_of_reachable {c : Catalog} (h : Reachable c) : Linked c := by
  obtain ⟨archiveId, displayName, ops, hadm, rfl⟩ := h
  rw [← final_trace]
  exact Path.invariant (P := Linked) (fun c e d hc hs => linked_step hc hs.1 hs.2)
    (linked_create archiveId displayName) (path_trace_unused hadm)

end ArchiveLedger
