import ArchiveLedger.Catalog.Effects

/-!
# What a scan did not see

A complete scan declares missing the copies in its scope whose object has no row in
`catalog_scan_seen` for its job.  `JobEffect` lists what a step does to jobs and
coverage; while a job runs, the coverage rows are exactly the objects of the
observations that named it since the last reset (`coverage_path`), fresh or
replayed.  A job that is closed stays closed (`closed_path`).
-/

namespace ArchiveLedger

open Relational Transition

/-! ### Jobs and coverage under a step -/

def jobStatus (c : Catalog) (jobId : String) : Option JobStatus :=
  (c.catalogJobs.get? jobId).map CatalogJob.status

theorem running_iff {c : Catalog} {jobId : String} :
    Running c jobId ↔ jobStatus c jobId = some .running := by
  unfold Running jobStatus
  rw [Option.map_eq_some_iff]

/-- The job has seen the object. -/
def Covers (c : Catalog) (jobId objectId : String) : Prop :=
  (c.catalogScanSeen.get? (jobId, objectId)).isSome = true

/-- The submission names the job and is about the object. -/
def Event.marks (jobId objectId : String) : Event → Prop
  | .submitted _ o outcome _ => o.jobId = some jobId ∧ outcome.objectId = objectId
  | .committed _ => False

/-- The call starts a fresh enumeration pass of the job. -/
def Event.resets (jobId : String) : Event → Prop
  | .committed (.resetScanCoverage j) => j = jobId
  | _ => False

inductive JobEffect (c : Catalog) : Event → Catalog → Prop
  | marked {newId : String} {o : CatalogObservation} {outcome : ObservationOutcome} {fresh : Bool}
      {d : Catalog} (running : ∀ j, o.jobId = some j → Running c j)
      (jobs : ∀ j, jobStatus d j = jobStatus c j)
      (seen : d.catalogScanSeen = markJobObject c.catalogScanSeen o.jobId outcome.objectId) :
      JobEffect c (.submitted newId o outcome fresh) d
  | began {op : Op} {d : Catalog} (jobId : String) (noReset : ∀ j, ¬ (Event.committed op).resets j)
      (unknown : jobStatus c jobId = none)
      (jobs : ∀ j, jobStatus d j = if jobId = j then some .running else jobStatus c j)
      (seen : d.catalogScanSeen = c.catalogScanSeen) : JobEffect c (.committed op) d
  | reset {jobId : String} {d : Catalog} (jobs : ∀ j, jobStatus d j = jobStatus c j)
      (seen : d.catalogScanSeen = c.catalogScanSeen.delete fun r => r.jobId = jobId) :
      JobEffect c (.committed (.resetScanCoverage jobId)) d
  | closed {op : Op} {d : Catalog} (jobId : String) (status : JobStatus)
      (noReset : ∀ j, ¬ (Event.committed op).resets j) (running : Running c jobId)
      (terminal : status ≠ .running)
      (jobs : ∀ j, jobStatus d j = if jobId = j then some status else jobStatus c j)
      (seen : d.catalogScanSeen = c.catalogScanSeen.delete fun r => r.jobId = jobId) :
      JobEffect c (.committed op) d
  | kept {op : Op} {d : Catalog} (noReset : ∀ j, ¬ (Event.committed op).resets j)
      (jobs : ∀ j, jobStatus d j = jobStatus c j) (seen : d.catalogScanSeen = c.catalogScanSeen) :
      JobEffect c (.committed op) d

theorem jobStatus_congr {c d : Catalog} (h : d.catalogJobs = c.catalogJobs) (j : String) :
    jobStatus d j = jobStatus c j := by rw [jobStatus, jobStatus, h]

theorem jobStatus_closeJob {c : Catalog} {id : String} (hrun : Running c id) (status : JobStatus)
    (time : Nat) (summary : Json) (j : String) :
    jobStatus (closeJob c id status time summary) j =
      if id = j then some status else jobStatus c j := by
  unfold jobStatus closeJob
  dsimp only
  rw [Table.get?_modify]
  by_cases hid : id = j
  · obtain ⟨job, hjob, -⟩ := hrun
    have hkey : job.jobId = id := Table.key_of_get? hjob
    rw [if_pos hid, ← hid, hjob]
    simp [hkey]
  · rw [if_neg hid]
    cases hg : c.catalogJobs.get? j with
    | none => rfl
    | some job =>
      have hkey : job.jobId = j := Table.key_of_get? hg
      have : ¬ job.jobId = id := fun h => hid (h.symm.trans hkey)
      simp [this]

theorem closed_effect (status : JobStatus) {c d : Catalog} {op : Op} {id : String} {time : Nat}
    {summary : Json} (hno : ∀ j, ¬ (Event.committed op).resets j) (hrun : Running c id)
    (hstatus : status ≠ .running) (hjobs : d.catalogJobs = (closeJob c id status time summary).catalogJobs)
    (hseen : d.catalogScanSeen = (closeJob c id status time summary).catalogScanSeen) :
    JobEffect c (.committed op) d :=
  .closed id status hno hrun hstatus
    (fun j => (jobStatus_congr hjobs j).trans (jobStatus_closeJob hrun status time summary j)) hseen

/-- A successful submission checked the job it names and marked the object under it. -/
theorem submit_marks {newId : String} {c : Catalog} {o : CatalogObservation} {s : Submission}
    (h : submit newId c o = .ok s) :
    requireObservationJob c o = .ok () ∧ s.tx.catalogJobs = c.catalogJobs ∧
      s.tx.catalogScanSeen = markJobObject c.catalogScanSeen o.jobId s.outcome.objectId := by
  rcases submit_eq_ok.mp h with ⟨key, stored, -, -, -, hjob, rfl⟩ |
    ⟨-, path, time, hadm, hstore, hout, -⟩
  · exact ⟨hjob, rfl, rfl⟩
  · refine ⟨(admitObservation_eq_ok.mp hadm.admitted).2.2.2.2.2, ?_⟩
    rw [hout]
    rcases storeOutcome_eq_ok.mp hstore with ⟨-, htx⟩ | ⟨key, t, -, -, htx⟩
    · rw [htx]
      exact ⟨rfl, rfl⟩
    · rw [htx]
      exact ⟨rfl, rfl⟩

theorem jobEffect_committed {c d : Catalog} {op : Op} (h : Change c (.committed op) d) :
    JobEffect c (.committed op) d := by
  cases op with
  | observeBatch newIds observations =>
    rcases h with rfl | rfl
    · exact .kept (fun _ => id) (fun _ => rfl) rfl
    · exact .kept (fun _ => id) (fun _ => rfl) rfl
  | beginCatalogJob id kind parameters time =>
    obtain ⟨⟨status, e⟩, he, rfl⟩ := Option.map_eq_some_iff.mp h
    rcases beginCatalogJob_eq_ok (toOption_eq_some.mp he) with ⟨job, -, rfl⟩ | ⟨hnone, -, t, rfl⟩
    · exact .kept (by intro _ h; cases h) (fun _ => rfl) rfl
    · refine .began id (by intro _ h; cases h) (by rw [jobStatus, hnone]; rfl) (fun j => ?_) rfl
      unfold jobStatus
      rw [Table.get?_insertOrIgnore (fun _ _ => rfl)]
      by_cases hj : id = j
      · subst hj
        simp [hnone]
      · simp [hj]
  | resetScanCoverage jobId =>
    obtain ⟨-, rfl⟩ := resetScanCoverage_eq_ok.mp (toOption_eq_some.mp h)
    exact .reset (fun _ => rfl) rfl
  | checkpointCatalogJob jobId progress =>
    obtain ⟨-, rfl⟩ := checkpointCatalogJob_eq_ok.mp (toOption_eq_some.mp h)
    refine .kept (by intro _ h; cases h) (fun j => ?_) rfl
    unfold jobStatus
    rw [Table.get?_modify, Option.map_map]
    congr 1
    funext job
    simp only [Function.comp]
    split <;> rfl
  | finishCatalogScan jobId collectionId locationId completeCoverage time summary =>
    obtain ⟨⟨missing, e⟩, he, rfl⟩ := Option.map_eq_some_iff.mp h
    cases completeCoverage with
    | true =>
      obtain ⟨⟨job, hjob, hrun, -⟩, -, -, -, hd⟩ :=
        finishCatalogScan_complete.mp (toOption_eq_some.mp he)
      rw [hd]
      exact closed_effect .complete (by intro _ h; cases h) ⟨job, hjob, hrun⟩ (by intro h; cases h) rfl rfl
    | false =>
      obtain ⟨⟨job, hjob, hrun, -⟩, -, -, hd⟩ :=
        finishCatalogScan_incomplete.mp (toOption_eq_some.mp he)
      rw [hd]
      exact closed_effect .partialWork (by intro _ h; cases h) ⟨job, hjob, hrun⟩ (by intro h; cases h) rfl rfl
  | finishCatalogJob jobId status time summary =>
    rcases finishCatalogJob_eq_ok (toOption_eq_some.mp h) with rfl | ⟨terminal, hterm, hrun, -, rfl⟩
    · exact .kept (by intro _ h; cases h) (fun _ => rfl) rfl
    · refine closed_effect terminal (by intro _ h; cases h) hrun ?_ rfl rfl
      rintro rfl
      unfold JobStatus.ofTerminal at hterm
      split at hterm
      · cases hterm
      · split at hterm
        · cases hterm
        · split at hterm <;> cases hterm
  | markRemoved request time =>
    obtain ⟨⟨result, e⟩, he, rfl⟩ := Option.map_eq_some_iff.mp h
    obtain ⟨-, selection, -, -, -, ⟨-, hd⟩ | ⟨-, -, hd⟩⟩ :=
      markRemoved_eq_ok.mp (toOption_eq_some.mp he)
    · rw [hd]
      exact .kept (by intro _ h; cases h) (fun _ => rfl) rfl
    · rw [hd]
      exact .kept (by intro _ h; cases h) (fun _ => rfl) rfl
  | recordBatch changes hostId time =>
    obtain ⟨⟨commit, e⟩, he, rfl⟩ := Option.map_eq_some_iff.mp h
    obtain ⟨tx, hframe, hd⟩ := recordBatch_frame (toOption_eq_some.mp he)
    rw [hd]
    exact .kept (by intro _ h; cases h) (jobStatus_congr hframe.catalogJobs) hframe.catalogScanSeen
  | renameArchive name time =>
    obtain ⟨t, rfl⟩ := renameArchive_eq_ok (toOption_eq_some.mp h)
    exact .kept (by intro _ h; cases h) (fun _ => rfl) rfl

/-- What a step can do to jobs and coverage. -/
theorem change_jobEffect {c d : Catalog} {e : Event} (h : Change c e d) : JobEffect c e d := by
  cases e with
  | submitted newId o outcome fresh =>
    obtain ⟨hjob, hjobs, hseen⟩ := submit_marks h
    exact .marked (fun j hj => running_of_requireObservationJob hj hjob) (jobStatus_congr hjobs) hseen
  | committed op => exact jobEffect_committed h

/-! ### Coverage is what was observed -/

theorem covers_markJobObject {c d : Catalog} {jobId : Option String} {objectId : String}
    (h : d.catalogScanSeen = markJobObject c.catalogScanSeen jobId objectId) (j i : String) :
    Covers d j i ↔ (jobId = some j ∧ objectId = i) ∨ Covers c j i := by
  unfold Covers
  rw [h]
  cases jobId with
  | none => simp [markJobObject]
  | some job =>
    rw [markJobObject, Table.get?_insertOrIgnore (fun _ _ => rfl)]
    by_cases hk : (job, objectId) = (j, i)
    · rw [Prod.mk.injEq] at hk
      simp [hk]
    · rw [if_neg hk]
      rw [Prod.mk.injEq] at hk
      simp [hk]

theorem covers_delete {c d : Catalog} {jobId : String}
    (h : d.catalogScanSeen = c.catalogScanSeen.delete fun r => r.jobId = jobId) (j i : String) :
    Covers d j i ↔ Covers c j i ∧ jobId ≠ j := by
  unfold Covers
  rw [h, Table.get?_delete]
  cases hg : c.catalogScanSeen.get? (j, i) with
  | none => simp
  | some r =>
    have hj : r.jobId = j := congrArg Prod.fst (Table.key_of_get? hg)
    by_cases hid : jobId = j
    · simp [Option.filter_some, hj, hid]
    · simp [Option.filter_some, hj, hid, Ne.symm hid]

/-- The coverage of a job that has not been closed is what was observed under it
since its last reset. -/
def CoverageKept (jobId objectId : String) (events : List Event) (c : Catalog) : Prop :=
  (jobStatus c jobId = none ∨ Running c jobId) →
    ((jobStatus c jobId = none → ¬ Covers c jobId objectId) ∧
      (Covers c jobId objectId ↔
        Since (Event.marks jobId objectId) (Event.resets jobId) events))

theorem coverage_step {jobId objectId : String} {events : List Event} {c d : Catalog} {e : Event}
    (hc : CoverageKept jobId objectId events c) (h : Change c e d) :
    CoverageKept jobId objectId (events ++ [e]) d := by
  intro hd
  cases change_jobEffect h with
  | @marked newId o outcome fresh _ hrun hjobs hseen =>
    rw [running_iff, hjobs, ← running_iff] at hd
    obtain ⟨hnone, hiff⟩ := hc hd
    have hmark : (Event.submitted newId o outcome fresh).marks jobId objectId ↔
        o.jobId = some jobId ∧ outcome.objectId = objectId := Iff.rfl
    have hreset : ¬ (Event.submitted newId o outcome fresh).resets jobId := id
    rw [covers_markJobObject hseen, hjobs, since_concat, hmark, hiff]
    refine ⟨fun hno => ?_, by tauto⟩
    rintro (⟨hj, -⟩ | hcov)
    · have := running_iff.mp (hrun jobId hj)
      rw [hno] at this
      cases this
    · exact hnone hno (hiff.mpr hcov)
  | @began op _ id hno hunknown hjobs hseen =>
    have hcov : Covers d jobId objectId ↔ Covers c jobId objectId := by unfold Covers; rw [hseen]
    have hmark : ¬ (Event.committed op).marks jobId objectId := fun h => h
    have hbefore : jobStatus c jobId = none ∨ Running c jobId := by
      by_cases hid : id = jobId
      · exact Or.inl (hid ▸ hunknown)
      · rw [running_iff, hjobs, if_neg hid, ← running_iff] at hd
        exact hd
    obtain ⟨hnone, hiff⟩ := hc hbefore
    rw [hcov, since_concat, hiff]
    refine ⟨fun h => ?_, by have := hno jobId; tauto⟩
    rw [hjobs] at h
    split at h
    · cases h
    · exact fun hs => hnone h (hiff.mpr hs)
  | @reset id _ hjobs hseen =>
    rw [running_iff, hjobs, ← running_iff] at hd
    obtain ⟨hnone, hiff⟩ := hc hd
    have hmark : ¬ (Event.committed (.resetScanCoverage id)).marks jobId objectId := fun h => h
    have hreset : (Event.committed (.resetScanCoverage id)).resets jobId ↔ id = jobId := Iff.rfl
    rw [covers_delete hseen, hjobs, since_concat, hreset, hiff]
    exact ⟨fun hno hs => hnone hno (hiff.mpr hs.1), by tauto⟩
  | @closed op _ id status hno hrun hterminal hjobs hseen =>
    have hid : id ≠ jobId := by
      rintro rfl
      rw [running_iff, hjobs, if_pos rfl] at hd
      rcases hd with hd | hd
      · cases hd
      · exact hterminal (Option.some.inj hd)
    rw [running_iff, hjobs, if_neg hid, ← running_iff] at hd
    obtain ⟨hnone, hiff⟩ := hc hd
    have hmark : ¬ (Event.committed op).marks jobId objectId := fun h => h
    rw [covers_delete hseen, hjobs, if_neg hid, since_concat, hiff]
    have := hno jobId
    exact ⟨fun h hs => hnone h (hiff.mpr hs.1), by tauto⟩
  | @kept op _ hno hjobs hseen =>
    rw [running_iff, hjobs, ← running_iff] at hd
    obtain ⟨hnone, hiff⟩ := hc hd
    have hcov : Covers d jobId objectId ↔ Covers c jobId objectId := by unfold Covers; rw [hseen]
    have hmark : ¬ (Event.committed op).marks jobId objectId := fun h => h
    rw [hcov, hjobs, since_concat, hiff]
    have := hno jobId
    exact ⟨fun h hs => hnone h (hiff.mpr hs), by tauto⟩

/-- While a job runs, it covers exactly the objects of the observations that named it
since its last reset. -/
theorem coverage_run {archiveId displayName : String} {ops : List Op} {jobId : String}
    (hrun : Running (run next (Catalog.create archiveId displayName) ops) jobId) (objectId : String) :
    Covers (run next (Catalog.create archiveId displayName) ops) jobId objectId ↔
      Since (Event.marks jobId objectId) (Event.resets jobId)
        ((trace (Catalog.create archiveId displayName) ops).map Prod.fst) := by
  have hnone : ¬ Covers (Catalog.create archiveId displayName) jobId objectId := by
    intro h
    cases h
  have hinv := Path.label_invariant (P := CoverageKept jobId objectId)
    (fun l s e t hs hstep => coverage_step hs hstep)
    (fun _ => ⟨fun _ => hnone, iff_of_false hnone not_since_nil⟩)
    (path_trace (Catalog.create archiveId displayName) ops)
  rw [final_trace] at hinv
  exact (hinv (Or.inr hrun)).2

/-! ### A closed job stays closed -/

/-- The job has ended. -/
def Closed (c : Catalog) (jobId : String) : Prop :=
  ∃ status, jobStatus c jobId = some status ∧ status ≠ .running

theorem Closed.not_running {c : Catalog} {jobId : String} (h : Closed c jobId) :
    ¬ Running c jobId := by
  obtain ⟨status, hstatus, hne⟩ := h
  rw [running_iff, hstatus]
  exact fun h => hne (Option.some.inj h)

theorem closed_step {jobId : String} {c d : Catalog} {e : Event} (hc : Closed c jobId)
    (h : Change c e d) : Closed d jobId := by
  obtain ⟨status, hstatus, hne⟩ := hc
  cases change_jobEffect h with
  | marked _ hjobs _ => exact ⟨status, by rw [hjobs, hstatus], hne⟩
  | began id _ hunknown hjobs _ =>
    refine ⟨status, ?_, hne⟩
    rw [hjobs, if_neg, hstatus]
    rintro rfl
    rw [hstatus] at hunknown
    cases hunknown
  | reset hjobs _ => exact ⟨status, by rw [hjobs, hstatus], hne⟩
  | closed id status' _ _ hterminal hjobs _ =>
    by_cases hid : id = jobId
    · exact ⟨status', by rw [hjobs, if_pos hid], hterminal⟩
    · exact ⟨status, by rw [hjobs, if_neg hid, hstatus], hne⟩
  | kept _ hjobs _ => exact ⟨status, by rw [hjobs, hstatus], hne⟩

theorem closed_run {jobId : String} {c : Catalog} (hc : Closed c jobId) (ops : List Op) :
    Closed (run next c ops) jobId := by
  rw [← final_trace]
  exact Path.invariant (P := fun c => Closed c jobId) (fun _ _ _ hs hstep => closed_step hs hstep)
    hc (path_trace c ops)

/-- A batch with an observation under a job that does not run is refused. -/
theorem observeLoop_of_not_running (newIds : Nat → String) {c : Catalog}
    {observations : List CatalogObservation} {o : CatalogObservation} {jobId : String}
    (ho : o ∈ observations) (hjob : o.jobId = some jobId) (hno : ¬ Running c jobId) :
    ∃ err, observeLoop newIds c observations = .error err := by
  induction observations generalizing newIds c with
  | nil => cases ho
  | cons o' rest ih =>
    cases hloop : observeLoop newIds c (o' :: rest) with
    | error err => exact ⟨err, rfl⟩
    | ok result =>
      exfalso
      obtain ⟨outcomes, changed, d⟩ := result
      obtain ⟨s, more, changedMore, hs, hmore, -, -⟩ := observeLoop_cons.mp hloop
      obtain ⟨hrequire, hjobs, -⟩ := submit_marks hs
      rcases List.mem_cons.mp ho with rfl | ho
      · exact hno (running_of_requireObservationJob hjob hrequire)
      · have hno' : ¬ Running s.tx jobId := by
          rw [running_iff, jobStatus_congr hjobs, ← running_iff]
          exact hno
        obtain ⟨err, herr⟩ := ih (fun n => newIds (n + 1)) ho hno'
        rw [herr] at hmore
        cases hmore

/-- What a closed job refuses. -/
structure Refuses (c : Catalog) (jobId : String) : Prop where
  observations : ∀ newIds observations o, o ∈ observations → o.jobId = some jobId →
    ∃ err, observeBatch newIds c observations = .error err
  reset : ∃ err, resetScanCoverage c jobId = .error err
  checkpoint : ∀ progress, ∃ err, checkpointCatalogJob c jobId progress = .error err
  scan : ∀ collectionId locationId complete time summary,
    ∃ err, finishCatalogScan c jobId collectionId locationId complete time summary = .error err
  finish : ∀ status time summary d, finishCatalogJob c jobId status time summary = .ok d → d = c

theorem refuses_of_closed {c : Catalog} {jobId : String} (h : Closed c jobId) : Refuses c jobId := by
  have hno := h.not_running
  have hrunning : ∃ err, requireRunningJob c jobId = .error err := by
    cases hr : requireRunningJob c jobId with
    | error err => exact ⟨err, rfl⟩
    | ok u => exact absurd (requireRunningJob_eq_ok.mp hr) hno
  obtain ⟨err, herr⟩ := hrunning
  refine ⟨?_, ⟨err, ?_⟩, fun progress => ⟨err, ?_⟩, fun _ _ _ _ _ => ⟨err, ?_⟩, ?_⟩
  · intro newIds observations o ho hjob
    obtain ⟨err, herr⟩ := observeLoop_of_not_running newIds ho hjob hno
    exact ⟨err, by rw [observeBatch, herr]; rfl⟩
  · rw [resetScanCoverage, herr]; rfl
  · rw [checkpointCatalogJob, herr]; rfl
  · rw [finishCatalogScan, herr]; rfl
  · intro status time summary d hd
    rcases finishCatalogJob_eq_ok hd with rfl | ⟨_, -, hrun, -, -⟩
    · rfl
    · exact absurd hrun hno

/-! ### Finalization -/

/-- A copy in the scope of a scan that is not missing yet, and that no observation
under its job is about since the job's last reset. -/
def Unseen (events : List Event) (c : Catalog) (jobId collectionId locationId : String)
    (f : FileRow) : Prop :=
  f.locationId = locationId ∧ f.presence ≠ .missing ∧
    (∃ o, c.objects.get? f.objectId = some o ∧ o.path.collectionId = collectionId) ∧
    ¬ Since (Event.marks jobId f.objectId) (Event.resets jobId) events

theorem scanMisses_iff {c : Catalog} {events : List Event} {jobId : String}
    (collectionId locationId : String) {f : FileRow}
    (hcover : Covers c jobId f.objectId ↔
      Since (Event.marks jobId f.objectId) (Event.resets jobId) events) :
    scanMisses c jobId collectionId locationId f = true ↔
      Unseen events c jobId collectionId locationId f := by
  unfold Unseen
  rw [← hcover]
  unfold scanMisses Covers inCollection
  cases hobj : c.objects.get? f.objectId with
  | none => simp
  | some o =>
    cases hseen : c.catalogScanSeen.get? (jobId, f.objectId) with
    | none => simp [and_assoc]
    | some s => simp

/-- What a complete scan does to the rows of `files`, and what it counts. -/
structure ScanDeclares (events : List Event) (c d : Catalog) (jobId collectionId locationId : String)
    (missing : Nat) : Prop where
  rows : ∀ f ∈ c.files.rows, ∃ g ∈ d.files.rows,
    g.objectId = f.objectId ∧ g.locationId = f.locationId ∧
      ((f.presence ≠ .missing ∧ g.presence = .missing) ↔
        Unseen events c jobId collectionId locationId f) ∧
      (¬ Unseen events c jobId collectionId locationId f → g = f)
  noOthers : ∀ g ∈ d.files.rows, ∃ f ∈ c.files.rows,
    g.objectId = f.objectId ∧ g.locationId = f.locationId
  changed : missing = (c.files.rows.filter fun f =>
    d.files.get? (f.objectId, f.locationId) ≠ some f).length
  history : ∃ rows, d.history = c.history ++ rows ∧
    missing = (rows.filter fun r => r.kind = .scanMissing).length

theorem scanDeclares {c d : Catalog} {events : List Event} {jobId collectionId locationId : String}
    {time missing : Nat} {summary : Json}
    (hcover : ∀ objectId, Covers c jobId objectId ↔
      Since (Event.marks jobId objectId) (Event.resets jobId) events)
    (h : finishCatalogScan c jobId collectionId locationId true time summary = .ok (missing, d)) :
    ScanDeclares events c d jobId collectionId locationId missing := by
  have hdecl := declared_scan h
  obtain ⟨-, -, -, hmissing, hd⟩ := finishCatalogScan_complete.mp h
  have hfile : ∀ f ∈ c.files.rows, d.files.get? (f.objectId, f.locationId) =
      some (if scanMisses c jobId collectionId locationId f then f.declareMissing time else f) := by
    intro f hf
    have hget : c.files.get? (f.objectId, f.locationId) = some f := Table.get?_of_mem hf
    rw [hdecl.files, hget]
    rfl
  refine ⟨fun f hf => ?_, fun g hg => ?_, ?_, ?_⟩
  · have hunseen := scanMisses_iff collectionId locationId (hcover f.objectId)
    rw [← hunseen]
    refine ⟨_, Table.mem_of_get? (hfile f hf), ?_⟩
    cases hm : scanMisses c jobId collectionId locationId f with
    | true =>
      have hpresence : f.presence ≠ .missing := (hunseen.mp hm).2.1
      exact ⟨rfl, rfl, iff_of_true ⟨hpresence, rfl⟩ rfl, fun hno => absurd rfl hno⟩
    | false => exact ⟨rfl, rfl, iff_of_false (fun h => h.1 h.2) nofun, fun _ => rfl⟩
  · have hget : d.files.get? (g.objectId, g.locationId) = some g := Table.get?_of_mem hg
    rw [hdecl.files] at hget
    obtain ⟨f, hf, -⟩ := Option.map_eq_some_iff.mp hget
    have hkey := Table.key_of_get? hf
    exact ⟨f, Table.mem_of_get? hf, (congrArg Prod.fst hkey).symm, (congrArg Prod.snd hkey).symm⟩
  · rw [hmissing]
    refine congrArg List.length (List.filter_congr fun f hf => ?_)
    rw [hfile f hf]
    cases hm : scanMisses c jobId collectionId locationId f with
    | false => simp
    | true =>
      have hpresence : f.presence ≠ .missing :=
        ((scanMisses_iff _ _ (hcover f.objectId)).mp hm).2.1
      have hne : f.declareMissing time ≠ f := fun heq => hpresence (congrArg FileRow.presence heq).symm
      simp [hne]
  · refine ⟨(c.files.rows.filter (scanMisses c jobId collectionId locationId)).map
      (scanMissingHistory c jobId time) ++
        [jobHistory time .jobFinished (.jobFinished jobId .complete summary)], ?_, ?_⟩
    · rw [hd]
      exact List.append_assoc _ _ _
    · have hall : ((c.files.rows.filter (scanMisses c jobId collectionId locationId)).map
          (scanMissingHistory c jobId time)).filter (fun r => decide (r.kind = .scanMissing)) =
          (c.files.rows.filter (scanMisses c jobId collectionId locationId)).map
            (scanMissingHistory c jobId time) := by
        rw [List.filter_eq_self]
        intro r hr
        obtain ⟨f, -, rfl⟩ := List.mem_map.mp hr
        rfl
      rw [List.filter_append, hall, hmissing]
      simp [declareScanMissing, jobHistory]

/-- A successful finalization of any kind closes its job. -/
theorem closed_of_finishCatalogScan {c d : Catalog} {jobId collectionId locationId : String}
    {complete : Bool} {time missing : Nat} {summary : Json}
    (h : finishCatalogScan c jobId collectionId locationId complete time summary = .ok (missing, d)) :
    Closed d jobId := by
  cases complete with
  | true =>
    obtain ⟨⟨job, hjob, hrun, -⟩, -, -, -, rfl⟩ := finishCatalogScan_complete.mp h
    exact ⟨.complete, (jobStatus_closeJob (c := (declareScanMissing c jobId collectionId locationId
      time).2) ⟨job, hjob, hrun⟩ _ _ _ _).trans (if_pos rfl), nofun⟩
  | false =>
    obtain ⟨⟨job, hjob, hrun, -⟩, -, -, rfl⟩ := finishCatalogScan_incomplete.mp h
    exact ⟨.partialWork, (jobStatus_closeJob ⟨job, hjob, hrun⟩ _ _ _ _).trans (if_pos rfl), nofun⟩

/-- In every catalog a run reaches: a complete finalization declares missing exactly
the copies in its scope that its job did not see, counts them once in the number it
returns, in the rows it changes and in the history it writes, and touches no other
row; an incomplete one changes no row; afterwards the job refuses everything, in every
later state; and a finalization that fails leaves the catalog as it was. -/
theorem scan_declares_missing_what_it_did_not_see (archiveId displayName : String) (ops : List Op)
    (jobId collectionId locationId : String) (complete : Bool) (time : Nat) (summary : Json) :
    (∀ missing d, finishCatalogScan (run next (Catalog.create archiveId displayName) ops) jobId
        collectionId locationId complete time summary = .ok (missing, d) →
      (complete = true → ScanDeclares ((trace (Catalog.create archiveId displayName) ops).map Prod.fst)
        (run next (Catalog.create archiveId displayName) ops) d jobId collectionId locationId missing) ∧
      (complete = false →
        missing = 0 ∧ d.files = (run next (Catalog.create archiveId displayName) ops).files) ∧
      ∀ later, Refuses (run next d later) jobId) ∧
    ∀ err, finishCatalogScan (run next (Catalog.create archiveId displayName) ops) jobId collectionId
        locationId complete time summary = .error err →
      next (run next (Catalog.create archiveId displayName) ops)
        (.finishCatalogScan jobId collectionId locationId complete time summary) =
          run next (Catalog.create archiveId displayName) ops := by
  constructor
  · intro missing d h
    refine ⟨?_, ?_, fun later => refuses_of_closed (closed_run (closed_of_finishCatalogScan h) later)⟩
    · rintro rfl
      obtain ⟨⟨job, hjob, hrun, -⟩, -⟩ := finishCatalogScan_complete.mp h
      exact scanDeclares (fun objectId => coverage_run ⟨job, hjob, hrun⟩ objectId) h
    · rintro rfl
      obtain ⟨-, -, hmissing, rfl⟩ := finishCatalogScan_incomplete.mp h
      exact ⟨hmissing, rfl⟩
  · intro err herr
    refine next_of_failure ?_
    rw [exec, herr]
    rfl

end ArchiveLedger
