import ArchiveLedger.Stage.Pages

/-!
# Imports of a frozen selection

`select_stage_import_at` freezes paths, and the pages of an import show of these what the
rows of their audit still hold.  An import that comes to its end has read them twice, and
`pages_are_frozen_iff` says of which audits that run at the same time it has taken no notice.
-/

namespace ArchiveLedger.Stage

open Relational Transition

variable {job : String} {s t : StageState} {m m' : StageManifest}

/-! ### Audits that run -/

/-- No audit comes to a path twice, and only selected paths of registered jobs are stored. -/
structure Sound (s : StageState) : Prop where
  once : ∀ a ∈ s.audits, (a.remaining.map DiscoveredFile.path).Nodup
  ahead : ∀ a ∈ s.audits, ∀ f ∈ a.remaining, ∀ row, s.manifest.stagedFiles.get? f.path = some row →
    row.generation ≠ a.generation
  generations : (s.audits.map StageAudit.generation).Nodup
  files : ∀ e ∈ s.manifest.importFiles, s.manifest.importJobs.get? e.1 ≠ none

theorem sound_initial (cataloged : String → Bool) : Sound (.initial cataloged) :=
  ⟨nofun, nofun, List.nodup_nil, nofun⟩

theorem Sound.of_manifest {tree : ImportTree} {pass : ImportPass} {cataloged : String → Bool} (h : Sound s)
    (hstaged : m.stagedFiles = s.manifest.stagedFiles)
    (hfiles : ∀ e ∈ m.importFiles, m.importJobs.get? e.1 ≠ none) :
    Sound ⟨m, cataloged, s.audits, tree, pass⟩ :=
  ⟨h.once, fun a ha f hf row hrow => h.ahead a ha f hf row (by rwa [← hstaged]), h.generations, hfiles⟩

theorem Sound.selection {cataloged : String → Bool} {tree : ImportTree} {pass : ImportPass} {plan : StageImportPlan}
    {jobId : String} (h : Sound s)
    (hfreeze : freezeSelection s.manifest s.cataloged plan jobId = .ok m) :
    Sound ⟨m, cataloged, s.audits, tree, pass⟩ := by
  obtain ⟨hstaged, ⟨-, rfl⟩ | ⟨hnew, hjobs, hfiles⟩⟩ := freezeSelection_spec hfreeze
  · exact h.of_manifest rfl h.files
  · refine h.of_manifest hstaged fun e he => ?_
    rw [hjobs, Table.get?_insertOrIgnore fun _ _ => rfl]
    split
    · exact Option.some_ne_none _
    · rename_i hne
      rw [hfiles] at he
      rcases List.mem_append.mp he with he | he
      · exact h.files e he
      · obtain ⟨c, -, rfl⟩ := List.mem_map.mp he
        exact absurd rfl hne

/-- An audit among those of which one has gone on. -/
theorem mem_audits_set {audits : List StageAudit} {index : Nat} {generation : String}
    {remaining rest : List DiscoveredFile} (hgenerations : (audits.map StageAudit.generation).Nodup)
    (hnext : audits[index]? = some ⟨generation, remaining⟩) {a : StageAudit}
    (ha : a ∈ audits.set index ⟨generation, rest⟩) :
    a = ⟨generation, rest⟩ ∨ (a ∈ audits ∧ a.generation ≠ generation) := by
  obtain ⟨k, hk⟩ := List.mem_iff_getElem?.mp ha
  by_cases he : index = k
  · subst he
    rw [List.getElem?_set_self (List.getElem?_eq_some_iff.mp hnext).1] at hk
    exact Or.inl (Option.some.inj hk).symm
  · rw [List.getElem?_set_ne he] at hk
    refine Or.inr ⟨List.mem_of_getElem? hk, fun hsame => he ?_⟩
    have hbound : index < (audits.map StageAudit.generation).length := by
      rw [List.length_map]
      exact (List.getElem?_eq_some_iff.mp hnext).1
    apply (List.getElem?_inj hbound hgenerations).mp
    rw [List.getElem?_map, List.getElem?_map, hnext, hk, Option.map_some, Option.map_some, hsame]

theorem generations_set {audits : List StageAudit} {index : Nat} {generation : String}
    {remaining rest : List DiscoveredFile} (hnext : audits[index]? = some ⟨generation, remaining⟩) :
    (audits.set index ⟨generation, rest⟩).map StageAudit.generation =
      audits.map StageAudit.generation := by
  apply List.ext_getElem?
  intro k
  rw [List.getElem?_map, List.getElem?_map, List.getElem?_set]
  split
  · rename_i he
    rw [if_pos (List.getElem?_eq_some_iff.mp hnext).1, ← he, hnext]
    rfl
  · rfl

theorem Sound.step {a : StageAction} (h : Sound s) (hstep : StageStep job s a t) : Sound t := by
  cases hstep with
  | catalog cataloged => exact h.of_manifest rfl h.files
  | beginAudit audit unused once =>
    refine ⟨?_, ?_, ?_, h.files⟩
    · intro a ha
      rcases List.mem_append.mp ha with ha | ha
      · exact h.once a ha
      · rw [List.mem_singleton.mp ha]
        exact once
    · intro a ha f hf row hrow
      rcases List.mem_append.mp ha with ha | ha
      · exact h.ahead a ha f hf row hrow
      · rw [List.mem_singleton.mp ha]
        exact unused.rows row (Table.mem_of_get? hrow)
    · rw [List.map_append, List.nodup_append]
      refine ⟨h.generations, List.nodup_singleton _, ?_⟩
      rintro g hg g' hg' rfl
      obtain ⟨a, ha, rfl⟩ := List.mem_map.mp hg
      exact unused.audits a ha (List.mem_singleton.mp hg')
  | @auditFile index generation file rest m next written =>
    obtain ⟨hother, ⟨row, hrow, hgeneration⟩, hjobs, hfiles⟩ := auditFile_spec written
    have hmem : (⟨generation, file :: rest⟩ : StageAudit) ∈ s.audits := List.mem_of_getElem? next
    have honce := h.once _ hmem
    rw [List.map_cons, List.nodup_cons] at honce
    refine ⟨?_, ?_, ?_, by rw [hjobs, hfiles]; exact h.files⟩
    · intro a ha
      rcases mem_audits_set h.generations next ha with rfl | ⟨ha, -⟩
      · exact honce.2
      · exact h.once a ha
    · intro a ha f hf row' hrow'
      rcases mem_audits_set h.generations next ha with rfl | ⟨ha, hne⟩
      · have hpath : f.path ≠ file.path := fun he =>
          honce.1 (he ▸ List.mem_map_of_mem hf)
        rw [hother f.path hpath] at hrow'
        exact h.ahead _ hmem f (List.mem_cons_of_mem file hf) row' hrow'
      · by_cases hpath : f.path = file.path
        · rw [hpath, hrow] at hrow'
          cases hrow'
          rw [hgeneration]
          exact hne.symm
        · rw [hother f.path hpath] at hrow'
          exact h.ahead a ha f hf row' hrow'
    · rw [generations_set next]
      exact h.generations
  | @endAudit index generation complete finished =>
    have hsub : (s.audits.eraseIdx index).Sublist s.audits := List.eraseIdx_sublist ..
    refine ⟨fun a ha => h.once a (hsub.subset ha), ?_, h.generations.sublist (hsub.map _), h.files⟩
    intro a ha f hf row hrow
    refine h.ahead a (hsub.subset ha) f hf row ?_
    rw [get?_finishAudit] at hrow
    split at hrow
    · exact (Option.filter_eq_some_iff.mp hrow).1
    · exact hrow
  | select selected => exact h.selection (selectStageImport_ok selected).1
  | copyPage copying read copied => exact h.of_manifest rfl h.files
  | validate copied valid => exact h.of_manifest rfl h.files
  | recordPage recording read => exact h.of_manifest rfl h.files
  | interrupt killed copying read copied => exact h.of_manifest rfl h.files
  | stop removed running => exact h.of_manifest rfl h.files
  | resume stopped selected => exact h.selection (selectStageImport_ok selected).1

theorem sound_of_reachable (h : Reachable job s) : Sound s := by
  obtain ⟨cataloged, p, hp, rfl⟩ := h
  exact hp.invariant (fun s a t hs hstep => hs.step hstep) (sound_initial cataloged)

/-! ### A pass over the selection -/

section

variable {first : StageImportPlan} {frozen : List StageImportCandidate}

/-- A plan of the job with the counts of the selection. -/
structure OfSelection (job : String) (first : StageImportPlan) (frozen : List StageImportCandidate)
    (plan : StageImportPlan) : Prop where
  generation : plan.generation = first.generation
  job : plan.selectionJobId = some job
  files : plan.eligibleFiles = frozen.length
  bytes : plan.eligibleBytes = (frozen.map StageImportCandidate.sizeBytes).sum

/-- The frozen rows behind a cursor. -/
def unreadAfter (frozen : List StageImportCandidate) (cursor : Option StagedPath) : List StageImportCandidate :=
  frozen.filter fun c => cursor.all fun cursor => cursor.isAfter c.relativePath

/-- What is frozen and has yet to be read for the last time. -/
def ImportPass.unread (frozen : List StageImportCandidate) : ImportPass → List StageImportCandidate
  | .idle | .copying _ _ _ | .copied _ _ | .stopped => frozen
  | .recording _ _ cursor _ => unreadAfter frozen cursor
  | .done _ _ _ => []

/-- What is asked of a step while the import lasts: an audit rewrites no row that is frozen and
unread, none that completes deletes such rows, and a process that stops, and whose successor reads
everything once more, leaves all of them. -/
def LeavesUnread (first : StageImportPlan) (frozen : List StageImportCandidate) (s : StageState) :
    StageAction → Prop
  | .auditFile index => ∀ generation file rest, s.audits[index]? = some ⟨generation, file :: rest⟩ →
      file.path ∉ (s.pass.unread frozen).map StageImportCandidate.relativePath
  | .endAudit index complete => complete = true →
      ∀ generation, s.audits[index]? = some ⟨generation, []⟩ →
        generation = first.generation ∨ s.pass.unread frozen = []
  | .stop _ => ∀ c ∈ frozen, c ∈ s.manifest.stable first.generation
  | _ => True

/-- A selection that was made, among audits that are not the one it was made of. -/
structure Selected (job : String) (first : StageImportPlan) (frozen : List StageImportCandidate)
    (s : StageState) : Prop where
  selection : Frozen job first frozen s.manifest
  sound : Sound s
  barred : ∀ a ∈ s.audits, a.generation = first.generation →
    ∀ f ∈ a.remaining, f.path ∉ frozen.map StageImportCandidate.relativePath
  untouched : ∀ c ∈ frozen, ∀ f, s.manifest.stagedFiles.get? c.relativePath = some f →
    f.generation = first.generation → c ∈ s.manifest.stable first.generation

theorem Frozen.selection {cataloged : String → Bool} {plan : StageImportPlan} {jobId : String}
    (h : Frozen job first frozen m) (hfreeze : freezeSelection m cataloged plan jobId = .ok m') :
    Frozen job first frozen m' ∧ (jobId = job → plan.generation = first.generation ∧ m' = m) := by
  obtain ⟨-, ⟨hjob, rfl⟩ | ⟨hnew, hjobs, hfiles⟩⟩ := freezeSelection_spec hfreeze
  · refine ⟨h, fun he => ⟨?_, rfl⟩⟩
    rw [he, h.registered] at hjob
    exact (congrArg StageImportJob.generation (Option.some.inj hjob)).symm
  · have hne : jobId ≠ job := fun he => by
      rw [he, h.registered] at hnew
      cases hnew
    refine ⟨⟨?_, ?_, h.strict⟩, fun he => absurd he hne⟩
    · rw [hjobs, Table.get?_insertOrIgnore_of_ne _ hne]
      exact h.registered
    · intro path
      rw [← h.files path]
      unfold StageManifest.selected
      rw [hfiles]
      simp only [List.mem_append, List.mem_map, Prod.mk.injEq, decide_eq_true_eq]
      constructor
      · rintro (hin | ⟨c, -, he, -⟩)
        · exact hin
        · exact absurd he hne
      · exact Or.inl

theorem Frozen.of_manifest (h : Frozen job first frozen m) (hjobs : m'.importJobs = m.importJobs)
    (hfiles : m'.importFiles = m.importFiles) : Frozen job first frozen m' := by
  refine ⟨hjobs ▸ h.registered, ?_, h.strict⟩
  unfold StageManifest.selected
  rw [hfiles]
  exact h.files

/-- Nothing but the rows and the audits matters to a selection. -/
theorem Selected.of_rows {cataloged : String → Bool} {tree : ImportTree} {pass : ImportPass}
    (h : Selected job first frozen s) (hfrozen : Frozen job first frozen m)
    (hsound : Sound ⟨m, cataloged, s.audits, tree, pass⟩) (hstaged : m.stagedFiles = s.manifest.stagedFiles) :
    Selected job first frozen ⟨m, cataloged, s.audits, tree, pass⟩ := by
  refine ⟨hfrozen, hsound, h.barred, fun c hc f hf hg => ?_⟩
  have hc := h.untouched c hc f (by rwa [← hstaged]) hg
  unfold StageManifest.stable at hc ⊢
  rw [hstaged]
  exact hc

theorem Selected.step {a : StageAction} (h : Selected job first frozen s) (hstep : StageStep job s a t) :
    Selected job first frozen t := by
  have hsound := h.sound.step hstep
  cases hstep with
  | catalog cataloged => exact h.of_rows h.selection hsound rfl
  | beginAudit audit unused once =>
    refine ⟨h.selection.of_manifest rfl rfl, hsound, ?_, h.untouched⟩
    intro a ha hg f hf
    rcases List.mem_append.mp ha with ha | ha
    · exact h.barred a ha hg f hf
    · rw [List.mem_singleton.mp ha] at hg
      exact absurd hg.symm (unused.jobs _ (Table.mem_of_get? h.selection.registered))
  | @auditFile index generation file rest m next written =>
    obtain ⟨hother, ⟨row, hrow, hgeneration⟩, hjobs, hfiles⟩ := auditFile_spec written
    refine ⟨h.selection.of_manifest hjobs hfiles, hsound, ?_, ?_⟩
    · intro a ha hg f hf
      rcases mem_audits_set h.sound.generations next ha with rfl | ⟨ha, -⟩
      · exact h.barred _ (List.mem_of_getElem? next) hg f (List.mem_cons_of_mem file hf)
      · exact h.barred a ha hg f hf
    · intro c hc f hf hg
      by_cases hpath : c.relativePath = file.path
      · -- the audit of the selection does not come to a frozen path again
        rw [hpath, hrow] at hf
        cases hf
        exact absurd (hpath ▸ List.mem_map_of_mem hc)
          (h.barred _ (List.mem_of_getElem? next) (hgeneration.symm.trans hg) file List.mem_cons_self)
      · rw [hother _ hpath] at hf
        have hc := h.untouched c hc f hf hg
        rwa [mem_stable, ← hother _ hpath, ← mem_stable] at hc
  | @endAudit index generation complete finished =>
    refine ⟨h.selection.of_manifest rfl rfl, hsound, fun a ha => h.barred a ((List.eraseIdx_sublist ..).subset ha), ?_⟩
    intro c hc f hf hg
    have hkept := hf
    rw [get?_finishAudit] at hf
    have hold : s.manifest.stagedFiles.get? c.relativePath = some f := by
      split at hf
      · exact (Option.filter_eq_some_iff.mp hf).1
      · exact hf
    obtain ⟨f', hf', hcandidate⟩ := mem_stable.mp (h.untouched c hc f hold hg)
    rw [hold] at hf'
    cases hf'
    exact mem_stable.mpr ⟨f, hkept, hcandidate⟩
  | select selected =>
    exact h.of_rows (h.selection.selection (selectStageImport_ok selected).1).1 hsound
      (freezeSelection_spec (selectStageImport_ok selected).1).1
  | copyPage copying read copied => exact h.of_rows h.selection hsound rfl
  | validate copied valid => exact h.of_rows h.selection hsound rfl
  | recordPage recording read => exact h.of_rows h.selection hsound rfl
  | interrupt killed copying read copied => exact h.of_rows h.selection hsound rfl
  | stop removed running => exact h.of_rows h.selection hsound rfl
  | resume stopped selected =>
    exact h.of_rows (h.selection.selection (selectStageImport_ok selected).1).1 hsound
      (freezeSelection_spec (selectStageImport_ok selected).1).1

/-! ### An import that nothing has disturbed -/

/-- What was read is the beginning of the selection. -/
structure ReadsOn (frozen : List StageImportCandidate) (cursor : Option StagedPath) (items : List StageImportCandidate) :
    Prop where
  place : cursor = items.getLast?.map StageImportCandidate.relativePath
  split : frozen = items ++ unreadAfter frozen cursor

/-- Each pass has read the beginning of the selection, with its counts in the plan. -/
def ImportPass.ReadSoFar (job : String) (first : StageImportPlan)
    (frozen : List StageImportCandidate) : ImportPass → Prop
  | .idle => False
  | .copying plan cursor items => OfSelection job first frozen plan ∧ ReadsOn frozen cursor items
  | .copied plan items => OfSelection job first frozen plan ∧ items = frozen
  | .recording plan before cursor items => OfSelection job first frozen plan ∧ before = frozen ∧ ReadsOn frozen cursor items
  | .done plan before recorded => OfSelection job first frozen plan ∧ before = frozen ∧ recorded = frozen
  | .stopped => True

structure Whole (job : String) (first : StageImportPlan) (frozen : List StageImportCandidate)
    (s : StageState) : Prop where
  kept : ∀ c ∈ s.pass.unread frozen, c ∈ s.manifest.stable first.generation
  read : s.pass.ReadSoFar job first frozen

/-- The rows of the selected paths, while they are as they were selected. -/
theorem selectedFiles_counts (h : Frozen job first frozen m)
    (hkept : ∀ c ∈ frozen, c ∈ m.stable first.generation) :
    ((m.selectedFiles job).map StagedFile.sizeBytes).Perm (frozen.map StageImportCandidate.sizeBytes) := by
  have hsome : ∀ f ∈ m.selectedFiles job, ∃ c ∈ frozen, f.candidate first.generation = some c := by
    intro f hf
    obtain ⟨hrow, hselected⟩ := List.mem_filter.mp hf
    obtain ⟨c, hc, hpath⟩ := List.mem_map.mp ((h.files _).mp hselected)
    obtain ⟨f', hf', hcandidate⟩ := mem_stable.mp (hkept c hc)
    have hget : m.stagedFiles.get? f.path = some f := Table.get?_of_mem hrow
    rw [hpath, hget] at hf'
    cases hf'
    exact ⟨c, hc, hcandidate⟩
  have hsizes : ∀ l : List StagedFile, (∀ f ∈ l, ∃ c ∈ frozen, f.candidate first.generation = some c) →
      l.map StagedFile.sizeBytes =
        (l.filterMap (StagedFile.candidate first.generation)).map StageImportCandidate.sizeBytes := by
    intro l
    induction l with
    | nil => intro _; rfl
    | cons f l ih =>
      intro hall
      obtain ⟨⟨c, -, hc⟩, hl⟩ := List.forall_mem_cons.mp hall
      rw [List.filterMap_cons_some hc, List.map_cons, List.map_cons, ih hl,
        (candidate_eq_some.mp hc).2.2.2.2.1]
  rw [hsizes _ hsome]
  refine List.Perm.map _ ((List.perm_ext_iff_of_nodup ?_ ?_).mpr fun c => ?_)
  · have hpaths : (m.selectedFiles job).Pairwise fun f g => f.path ≠ g.path :=
      (List.pairwise_map.mp m.stagedFiles.keys_nodup).filter _
    refine hpaths.filterMap _ fun f g hne c hc d hd he => hne ?_
    rw [(candidate_eq_some.mp hc).2.2.1, (candidate_eq_some.mp hd).2.2.1, he]
  · exact h.strict.imp fun h e => by rw [e] at h; exact lt_irrefl _ h
  · rw [List.mem_filterMap]
    constructor
    · rintro ⟨f, hf, hc⟩
      obtain ⟨d, hd, hfd⟩ := hsome f hf
      rw [hc] at hfd
      cases hfd
      exact hd
    · intro hc
      obtain ⟨f, hf, hcandidate⟩ := mem_stable.mp (hkept c hc)
      have hpath : f.path = c.relativePath := (candidate_eq_some.mp hcandidate).2.2.1
      refine ⟨f, List.mem_filter.mpr ⟨Table.mem_of_get? hf, ?_⟩, hcandidate⟩
      rw [hpath]
      exact (h.files _).mpr (List.mem_map_of_mem hc)

theorem ofSelection_of_kept {cataloged : String → Bool} {plan plan' : StageImportPlan}
    (h : Frozen job first frozen m') (hkept : ∀ c ∈ frozen, c ∈ m'.stable first.generation)
    (hsel : selectStageImport m cataloged plan job = .ok (m', plan'))
    (hgeneration : plan.generation = first.generation) : OfSelection job first frozen plan' := by
  obtain ⟨-, rfl⟩ := selectStageImport_ok hsel
  have hperm := selectedFiles_counts h hkept
  refine ⟨hgeneration, rfl, ?_, hperm.sum_eq⟩
  simpa using hperm.length_eq

theorem unread_of_strict {items rest : List StageImportCandidate}
    (hstrict : frozen.Pairwise fun a b => a.rank < b.rank) (hsplit : frozen = items ++ rest) :
    unreadAfter frozen (items.getLast?.map StageImportCandidate.relativePath) = rest := by
  rw [hsplit] at hstrict
  have hcross := (List.pairwise_append.mp hstrict).2.2
  rw [unreadAfter, hsplit, List.filter_append]
  have hitems : items.filter (fun c => (items.getLast?.map StageImportCandidate.relativePath).all
      fun cursor => cursor.isAfter c.relativePath) = [] := by
    rw [List.filter_eq_nil_iff]
    intro c hc hafter
    have hin := (isAfter_last hstrict (List.mem_append_left rest hc)).mp hafter
    exact lt_irrefl _ (hcross c hc c hin)
  have hrest : rest.filter (fun c => (items.getLast?.map StageImportCandidate.relativePath).all
      fun cursor => cursor.isAfter c.relativePath) = rest := by
    rw [List.filter_eq_self]
    intro c hc
    exact (isAfter_last hstrict (List.mem_append_right items hc)).mpr hc
  rw [hitems, hrest, List.nil_append]

theorem Whole.auditFile {generation : String} {file : DiscoveredFile} {audits : List StageAudit} (h : Whole job first frozen s)
    (written : auditFile s.manifest generation file = .ok m)
    (hleaves : file.path ∉ (s.pass.unread frozen).map StageImportCandidate.relativePath) :
    Whole job first frozen ⟨m, s.cataloged, audits, s.tree, s.pass⟩ := by
  refine ⟨fun c hc => ?_, h.read⟩
  obtain ⟨hother, -⟩ := auditFile_spec written
  have hne : c.relativePath ≠ file.path := fun he => hleaves (he ▸ List.mem_map_of_mem hc)
  rw [mem_stable, hother _ hne, ← mem_stable]
  exact h.kept c hc

theorem readsOn_start (hstrict : frozen.Pairwise fun a b => a.rank < b.rank) : ReadsOn frozen none [] :=
  ⟨rfl, (@unread_of_strict frozen [] frozen hstrict rfl).symm⟩

/-- A page goes on with the selection, and the last one comes to its end. -/
theorem ReadsOn.page {plan : StageImportPlan} {cursor : Option StagedPath} {items : List StageImportCandidate}
    {cataloged : String → Bool} {limit : Nat} {page : StageImportPage} (h : ReadsOn frozen cursor items)
    (hfrozen : Frozen job first frozen m) (hof : OfSelection job first frozen plan)
    (hkept : ∀ c ∈ unreadAfter frozen cursor, c ∈ m.stable first.generation)
    (read : stageImportCandidates m cataloged plan cursor limit = .ok page) :
    (page.next = none → items ++ page.items = frozen) ∧
      ∀ next, page.next = some next → ReadsOn frozen (some next) (items ++ page.items) ∧
        ∀ c ∈ unreadAfter frozen (some next), c ∈ unreadAfter frozen cursor := by
  obtain ⟨rfl, hsplit⟩ := h
  obtain ⟨taken, rest, hunread, hitems, hroom, hnext⟩ := page_of_kept hfrozen hsplit hkept hof.generation hof.job read
  rw [hunread, ← List.append_assoc] at hsplit
  rw [hunread, hitems, hnext]
  by_cases hrest : rest = []
  · rw [if_pos hrest]
    rw [hrest, List.append_nil] at hsplit
    exact ⟨fun _ => hsplit.symm, nofun⟩
  · rw [if_neg hrest]
    have hafter := unread_of_strict hfrozen.strict hsplit
    refine ⟨fun hnone => ?_, fun next hsome => ?_⟩
    · rw [List.getLast?_append_of_ne_nil _ (hroom hrest), Option.map_eq_none_iff, List.getLast?_eq_none_iff] at hnone
      exact absurd hnone (hroom hrest)
    · rw [← hsome, hafter]
      exact ⟨⟨rfl, by rw [hafter]; exact hsplit⟩, fun c hc => List.mem_append_right taken hc⟩

/-- A step that leaves the unread alone keeps the import whole. -/
theorem Whole.step {a : StageAction} (hsel : Selected job first frozen s) (h : Whole job first frozen s)
    (hleaves : LeavesUnread first frozen s a) (hstep : StageStep job s a t) :
    Whole job first frozen t := by
  have hread := h.read
  cases hstep with
  | catalog cataloged => exact ⟨h.kept, h.read⟩
  | beginAudit audit unused once => exact ⟨h.kept, h.read⟩
  | @auditFile index generation file rest m next written =>
    exact h.auditFile written (hleaves generation file rest next)
  | @endAudit index generation complete finished =>
    refine ⟨fun c hc => ?_, h.read⟩
    obtain ⟨f, hf, hcandidate⟩ := mem_stable.mp (h.kept c hc)
    refine mem_stable.mpr ⟨f, ?_, hcandidate⟩
    rw [get?_finishAudit, hf]
    cases complete with
    | false => rfl
    | true =>
      rcases hleaves rfl generation finished with rfl | hnil
      · simp [(candidate_eq_some.mp hcandidate).1]
      · rw [hnil] at hc
        cases hc
  | select selected =>
    have hstaged := (freezeSelection_spec (selectStageImport_ok selected).1).1
    refine ⟨fun c hc => ?_, h.read⟩
    rw [mem_stable, hstaged, ← mem_stable]
    exact h.kept c hc
  | @copyPage plan cursor items limit page tree copying read copied =>
    have hkept := h.kept
    rw [copying] at hread hkept
    obtain ⟨hof, hreads⟩ := hread
    have hall : ∀ c ∈ unreadAfter frozen cursor, c ∈ s.manifest.stable first.generation :=
      fun c hc => hkept c (List.mem_of_mem_filter hc)
    obtain ⟨hlast, hmore⟩ := hreads.page hsel.selection hof hall read
    cases hnext : page.next with
    | none => exact ⟨hkept, hof, hlast hnext⟩
    | some next => exact ⟨hkept, hof, (hmore next hnext).1⟩
  | validate copied valid =>
    have hkept := h.kept
    rw [copied] at hread hkept
    exact ⟨fun c hc => hkept c (List.mem_of_mem_filter hc), hread.1, hread.2, readsOn_start hsel.selection.strict⟩
  | @recordPage plan copied cursor items limit page recording read =>
    have hkept := h.kept
    rw [recording] at hread hkept
    obtain ⟨hof, hcopied, hreads⟩ := hread
    obtain ⟨hlast, hmore⟩ := hreads.page hsel.selection hof hkept read
    cases hnext : page.next with
    | none => exact ⟨nofun, hof, hcopied, hlast hnext⟩
    | some next =>
      obtain ⟨hreads', hless⟩ := hmore next hnext
      exact ⟨fun c hc => hkept c (hless c hc), hof, hcopied, hreads'⟩
  | interrupt killed copying read copied =>
    have hkept := h.kept
    rw [copying] at hkept
    exact ⟨hkept, trivial⟩
  | stop removed running => exact ⟨hleaves, trivial⟩
  | @resume plan plan' m stopped selected =>
    have hkept := h.kept
    rw [stopped] at hkept
    obtain ⟨hfrozen, hsame⟩ := hsel.selection.selection (selectStageImport_ok selected).1
    obtain ⟨hgeneration, rfl⟩ := hsame rfl
    exact ⟨hkept, ofSelection_of_kept hfrozen hkept selected hgeneration, readsOn_start hsel.selection.strict⟩

/-! ### An import that was disturbed -/

/-- The import has yet to record a row, and it will not show it when the row is gone. -/
def ImportPass.Misses (first : StageImportPlan) (c : StageImportCandidate) : ImportPass → Prop
  | .idle => False
  | .copying plan _ _ | .copied plan _ => plan.generation = first.generation
  | .recording plan _ _ items => plan.generation = first.generation ∧ c ∉ items
  | .done _ _ recorded => c ∉ recorded
  | .stopped => True

/-- The frozen row is gone, or is another audit's, and the import has not recorded it. -/
structure Lost (first : StageImportPlan) (c : StageImportCandidate) (s : StageState) : Prop where
  gone : ∀ f, s.manifest.stagedFiles.get? c.relativePath = some f → f.generation ≠ first.generation
  unseen : s.pass.Misses first c

/-- What has yet to be read was not recorded. -/
theorem misses_of_unread {c : StageImportCandidate} (hsel : Selected job first frozen s) (h : Whole job first frozen s)
    (hc : c ∈ s.pass.unread frozen) : c ∈ frozen ∧ s.pass.Misses first c := by
  have hread := h.read
  cases hpass : s.pass with
  | idle =>
    rw [hpass] at hread
    cases hread
  | copying plan cursor items =>
    rw [hpass] at hread hc
    exact ⟨hc, hread.1.generation⟩
  | copied plan items =>
    rw [hpass] at hread hc
    exact ⟨hc, hread.1.generation⟩
  | recording plan copied cursor items =>
    rw [hpass] at hread hc
    obtain ⟨hof, -, -, hsplit⟩ := hread
    have hstrict := hsel.selection.strict
    rw [hsplit] at hstrict
    refine ⟨List.mem_of_mem_filter hc, hof.generation, fun hin => ?_⟩
    exact lt_irrefl _ ((List.pairwise_append.mp hstrict).2.2 c hin c hc)
  | done plan copied recorded =>
    rw [hpass] at hc
    cases hc
  | stopped =>
    rw [hpass] at hc
    exact ⟨hc, trivial⟩

theorem lost_of_disturbed {a : StageAction} (hsel : Selected job first frozen s)
    (h : Whole job first frozen s) (hstep : StageStep job s a t)
    (hdisturbed : ¬ LeavesUnread first frozen s a) : ∃ c ∈ frozen, Lost first c t := by
  cases hstep with
  | @auditFile index generation file rest m next written =>
    obtain ⟨c, hc, hpath⟩ : ∃ c ∈ s.pass.unread frozen, c.relativePath = file.path := by
      by_contra hno
      refine hdisturbed fun generation' file' rest' next' hin => hno ?_
      rw [next] at next'
      cases next'
      obtain ⟨c, hc, hpath⟩ := List.mem_map.mp hin
      exact ⟨c, hc, hpath⟩
    obtain ⟨hfrozen, hmisses⟩ := misses_of_unread hsel h hc
    refine ⟨c, hfrozen, fun f hf => ?_, hmisses⟩
    obtain ⟨-, ⟨row, hrow, hgeneration⟩, -, -⟩ := auditFile_spec written
    rw [hpath, hrow] at hf
    cases hf
    intro he
    refine hsel.barred _ (List.mem_of_getElem? next) (hgeneration.symm.trans he) file
      List.mem_cons_self ?_
    rw [← hpath]
    exact List.mem_map_of_mem hfrozen
  | @endAudit index generation complete finished =>
    have hcomplete : complete = true := by
      by_contra hno
      exact hdisturbed fun hyes => absurd hyes hno
    subst hcomplete
    have hboth : generation ≠ first.generation ∧ s.pass.unread frozen ≠ [] := by
      by_contra hno
      refine hdisturbed fun _ generation' finished' => ?_
      rw [finished] at finished'
      cases finished'
      by_cases hg : generation = first.generation
      · exact Or.inl hg
      · exact Or.inr (by_contra fun hne => hno ⟨hg, hne⟩)
    obtain ⟨c, hc⟩ := List.exists_mem_of_ne_nil _ hboth.2
    obtain ⟨hfrozen, hmisses⟩ := misses_of_unread hsel h hc
    refine ⟨c, hfrozen, fun f hf => ?_, hmisses⟩
    rw [get?_finishAudit, if_pos rfl, Option.filter_eq_some_iff] at hf
    rw [of_decide_eq_true hf.2]
    exact hboth.1
  | stop removed running =>
    obtain ⟨c, hc, hgone⟩ : ∃ c ∈ frozen, c ∉ s.manifest.stable first.generation := by
      by_contra hno
      exact hdisturbed fun c hc => by_contra fun hgone => hno ⟨c, hc, hgone⟩
    exact ⟨c, hc, fun f hf he => hgone (hsel.untouched c hc f hf he), trivial⟩
  | catalog cataloged => exact absurd trivial hdisturbed
  | beginAudit audit unused once => exact absurd trivial hdisturbed
  | select selected => exact absurd trivial hdisturbed
  | copyPage copying read copied => exact absurd trivial hdisturbed
  | validate copied valid => exact absurd trivial hdisturbed
  | recordPage recording read => exact absurd trivial hdisturbed
  | interrupt killed copying read copied => exact absurd trivial hdisturbed
  | resume stopped selected => exact absurd trivial hdisturbed

/-- What is lost does not come back. -/
theorem Lost.step {a : StageAction} {c : StageImportCandidate} (hsel : Selected job first frozen s)
    (hc : c ∈ frozen) (h : Lost first c s) (hstep : StageStep job s a t) : Lost first c t := by
  have hunseen := h.unseen
  cases hstep with
  | catalog cataloged => exact ⟨h.gone, h.unseen⟩
  | beginAudit audit unused once => exact ⟨h.gone, h.unseen⟩
  | @auditFile index generation file rest m next written =>
    refine ⟨fun f hf => ?_, h.unseen⟩
    obtain ⟨hother, ⟨row, hrow, hgeneration⟩, -, -⟩ := auditFile_spec written
    by_cases hpath : c.relativePath = file.path
    · rw [hpath, hrow] at hf
      cases hf
      intro he
      refine hsel.barred _ (List.mem_of_getElem? next) (hgeneration.symm.trans he) file
        List.mem_cons_self ?_
      rw [← hpath]
      exact List.mem_map_of_mem hc
    · rw [hother _ hpath] at hf
      exact h.gone f hf
  | @endAudit index generation complete finished =>
    refine ⟨fun f hf => h.gone f ?_, h.unseen⟩
    rw [get?_finishAudit] at hf
    split at hf
    · exact (Option.filter_eq_some_iff.mp hf).1
    · exact hf
  | select selected =>
    have hstaged := (freezeSelection_spec (selectStageImport_ok selected).1).1
    exact ⟨fun f hf => h.gone f (by rwa [hstaged] at hf), h.unseen⟩
  | @copyPage plan cursor items limit page tree copying read copied =>
    rw [copying] at hunseen
    refine ⟨h.gone, ?_⟩
    cases page.next with
    | none => exact hunseen
    | some next => exact hunseen
  | validate copied valid =>
    rw [copied] at hunseen
    exact ⟨h.gone, hunseen, List.not_mem_nil⟩
  | @recordPage plan copied cursor items limit page recording read =>
    rw [recording] at hunseen
    have hnot : c ∉ items ++ page.items := by
      intro hin
      refine hunseen.2 ((List.mem_append.mp hin).resolve_right fun hpage => ?_)
      obtain ⟨f, hf, hcandidate⟩ := mem_stable.mp (mem_page read hpage)
      exact h.gone f hf ((candidate_eq_some.mp hcandidate).1.trans hunseen.1)
    refine ⟨h.gone, ?_⟩
    cases page.next with
    | none => exact hnot
    | some next => exact ⟨hunseen.1, hnot⟩
  | interrupt killed copying read copied => exact ⟨h.gone, trivial⟩
  | stop removed running => exact ⟨h.gone, trivial⟩
  | resume stopped selected =>
    have hstaged := (freezeSelection_spec (selectStageImport_ok selected).1).1
    obtain ⟨-, hsame⟩ := hsel.selection.selection (selectStageImport_ok selected).1
    obtain ⟨-, rfl⟩ := selectStageImport_ok selected
    exact ⟨fun f hf => h.gone f (by rwa [hstaged] at hf), (hsame rfl).1⟩

end

/-! ### The pages of an import -/

/-- A job's first selection. -/
theorem selected_of_new {plan first : StageImportPlan} (hsound : Sound s)
    (hnew : s.manifest.importJobs.get? job = none)
    (hsel : selectStageImport s.manifest s.cataloged plan job = .ok (m, first)) :
    Selected job first (frozenFiles s.manifest s.cataloged plan) (s.begun m first) ∧
      Whole job first (frozenFiles s.manifest s.cataloged plan) (s.begun m first) := by
  obtain ⟨hfreeze, hfirst⟩ := selectStageImport_ok hsel
  have hgeneration : first.generation = plan.generation := by rw [hfirst]
  obtain ⟨hstaged, ⟨hjob, -⟩ | ⟨-, hjobs, hfiles⟩⟩ := freezeSelection_spec hfreeze
  · rw [hnew] at hjob
    cases hjob
  have hmem : ∀ c ∈ frozenFiles s.manifest s.cataloged plan, c ∈ s.manifest.stable plan.generation :=
    fun c hc => (Keyset.mem_sorted _).mp (List.mem_of_mem_filter hc)
  have hkept : ∀ c ∈ frozenFiles s.manifest s.cataloged plan, c ∈ m.stable first.generation := by
    intro c hc
    rw [mem_stable, hstaged, ← mem_stable, hgeneration]
    exact hmem c hc
  have hfrozen : Frozen job first (frozenFiles s.manifest s.cataloged plan) m := by
    refine ⟨?_, fun path => ?_, (Keyset.strict_sorted (ranks_stable _ _)).filter _⟩
    · rw [hjobs, Table.get?_insertOrIgnore fun _ _ => rfl, hnew]
      rw [if_pos (show stageImportJobSchema.key _ = job from rfl), hfirst]
      rfl
    · unfold StageManifest.selected
      rw [hfiles, decide_eq_true_iff, List.mem_append]
      constructor
      · rintro (hold | hin)
        · exact absurd hnew (hsound.files _ hold)
        · obtain ⟨c, hc, he⟩ := List.mem_map.mp hin
          exact List.mem_map.mpr ⟨c, hc, congrArg Prod.snd he⟩
      · intro hin
        obtain ⟨c, hc, rfl⟩ := List.mem_map.mp hin
        exact Or.inr (List.mem_map.mpr ⟨c, hc, rfl⟩)
  refine ⟨⟨hfrozen, Sound.selection hsound hfreeze, ?_, fun c hc _ _ _ => hkept c hc⟩, hkept,
    ofSelection_of_kept hfrozen hkept hsel hgeneration.symm, readsOn_start hfrozen.strict⟩
  · intro a ha hg f hf hin
    obtain ⟨c, hc, hpath⟩ := List.mem_map.mp hin
    obtain ⟨row, hrow, hcandidate⟩ := mem_stable.mp (hmem c hc)
    rw [hpath] at hrow
    refine hsound.ahead a ha f hf row hrow ?_
    rw [(candidate_eq_some.mp hcandidate).1, ← hgeneration, hg]

/-! ### The check between the passes -/

section

variable {first : StageImportPlan} {frozen : List StageImportCandidate}

/-- New files are added to a tree one after the other. -/
theorem copy_new {items : List StageImportCandidate} {tree tree' : ImportTree}
    (hnew : ∀ c ∈ items, c.relativePath ∉ tree.files.map Prod.fst)
    (hnodup : (items.map StageImportCandidate.relativePath).Nodup)
    (h : items.foldlM copyCandidate tree = some tree') :
    tree' = { tree with files := tree.files ++ items.map fun c => (c.relativePath, c.blake3Hex) } := by
  induction items generalizing tree with
  | nil =>
    rw [List.foldlM_nil] at h
    cases h
    rw [List.map_nil, List.append_nil]
  | cons c items ih =>
    rw [List.foldlM_cons, Option.bind_eq_bind, Option.bind_eq_some_iff] at h
    obtain ⟨next, hnext, h⟩ := h
    rw [List.map_cons, List.nodup_cons] at hnodup
    have habsent : tree.checksum? c.relativePath = none := by
      rw [ImportTree.checksum?, Option.map_eq_none_iff, List.find?_eq_none]
      intro f hf hpath
      exact hnew c List.mem_cons_self (of_decide_eq_true hpath ▸ List.mem_map_of_mem hf)
    unfold copyCandidate at hnext
    rw [habsent] at hnext
    dsimp only at hnext
    split at hnext
    · cases hnext
    · cases hnext
      have hrest := ih (fun d hd hin => ?_) hnodup.2 h
      · rw [hrest, List.map_cons, List.append_assoc]
        rfl
      · rw [List.map_append, List.mem_append] at hin
        rcases hin with hin | hin
        · exact hnew d (List.mem_cons_of_mem c hd) hin
        · rw [List.map_singleton, List.mem_singleton] at hin
          have hin : d.relativePath = c.relativePath := hin
          exact hnodup.1 (hin ▸ List.mem_map_of_mem hd)

/-- What a page shows is frozen, in order and behind the cursor. -/
theorem mem_page_frozen {plan : StageImportPlan} {cursor : Option StagedPath} {limit : Nat} {page : StageImportPage}
    (hsel : Selected job first frozen s) (hgeneration : plan.generation = first.generation)
    (hjob : plan.selectionJobId = some job)
    (read : stageImportCandidates s.manifest s.cataloged plan cursor limit = .ok page) :
    page.items.Pairwise (fun a b => a.rank < b.rank) ∧
      (∀ c ∈ page.items, c ∈ frozen ∧ ∀ place, cursor = some place → place.rank < c.rank) ∧
      ∀ next, page.next = some next → some next = page.items.getLast?.map StageImportCandidate.relativePath := by
  unfold stageImportCandidates at read
  split at read
  · cases read
  cases read
  rw [hjob]
  have hnone : ∀ hash, ((some job).isNone && s.cataloged hash) = false := fun _ => rfl
  obtain ⟨taken, rest, hsplit, hitems, hnext, -⟩ :=
    fillPage_cases hnone ((Keyset.sorted StageImportCandidate.rank (s.manifest.stable plan.generation)).filter fun c =>
      cursor.all (fun cursor => cursor.isAfter c.relativePath) &&
        (some job).all fun jobId => s.manifest.selected jobId c.relativePath) [] none (Nat.zero_le limit) rfl
  rw [List.nil_append] at hitems hnext
  have hstrict := (Keyset.strict_sorted (ranks_stable s.manifest plan.generation)).filter fun c =>
      cursor.all (fun cursor => cursor.isAfter c.relativePath) &&
        (some job).all fun jobId => s.manifest.selected jobId c.relativePath
  refine ⟨?_, fun c hc => ?_, fun next hsome => ?_⟩
  · rw [hitems]
    rw [hsplit] at hstrict
    exact (List.pairwise_append.mp hstrict).1
  · rw [hitems] at hc
    have hrow := List.mem_append_left rest hc
    rw [← hsplit, List.mem_filter, Keyset.mem_sorted, hgeneration] at hrow
    obtain ⟨hstable, hrow⟩ := hrow
    obtain ⟨hafter, hselected⟩ := Bool.and_eq_true_iff.mp hrow
    obtain ⟨d, hd, hpath⟩ := List.mem_map.mp ((hsel.selection.files _).mp hselected)
    obtain ⟨f, hf, hcandidate⟩ := mem_stable.mp hstable
    have hkept := hsel.untouched d hd f (by rwa [hpath]) (candidate_eq_some.mp hcandidate).1
    rw [stable_path hstable hkept hpath.symm]
    refine ⟨hd, fun place hplace => ?_⟩
    rw [hplace, Option.all_some, isAfter_iff, ← hpath] at hafter
    exact hafter
  · rw [hnext] at hsome
    split at hsome
    · cases hsome
    · rw [hitems]
      exact hsome.symm

/-- What a process that was not stopped has copied is what the tree has. -/
structure Copies (frozen items : List StageImportCandidate) (tree : ImportTree) : Prop where
  strict : items.Pairwise fun a b => a.rank < b.rank
  mem : ∀ c ∈ items, c ∈ frozen
  files : tree.files = items.map fun c => (c.relativePath, c.blake3Hex)
  temporary : tree.temporary = 0

/-- The first process of a job: what it copies is frozen, and it goes on only when that is everything. -/
def ImportPass.Checked (first : StageImportPlan) (frozen : List StageImportCandidate) (tree : ImportTree) :
    ImportPass → Prop
  | .idle | .stopped => False
  | .copying plan cursor items => plan = first ∧ Copies frozen items tree ∧
      cursor = items.getLast?.map StageImportCandidate.relativePath
  | .copied plan items => plan = first ∧ Copies frozen items tree
  | .recording _ before _ _ => before = frozen
  | .done _ before _ => before = frozen

theorem Copies.page {items : List StageImportCandidate} {limit : Nat} {page : StageImportPage} {tree : ImportTree}
    (h : Copies frozen items s.tree) (hsel : Selected job first frozen s) (hjob : first.selectionJobId = some job)
    (read : stageImportCandidates s.manifest s.cataloged first
      (items.getLast?.map StageImportCandidate.relativePath) limit = .ok page)
    (copied : page.items.foldlM copyCandidate s.tree = some tree) :
    Copies frozen (items ++ page.items) tree ∧
      ∀ next, page.next = some next →
        some next = (items ++ page.items).getLast?.map StageImportCandidate.relativePath := by
  obtain ⟨hstrict, hfrozen, hnext⟩ := mem_page_frozen hsel rfl hjob read
  have hcross : ∀ a ∈ items, ∀ b ∈ page.items, a.rank < b.rank := by
    intro a ha b hb
    obtain ⟨front, last, rfl⟩ := List.eq_nil_or_concat items |>.resolve_left (List.ne_nil_of_mem ha)
    have hplace := (hfrozen b hb).2 last.relativePath (by rw [List.concat_eq_append, List.getLast?_concat]; rfl)
    rw [List.concat_eq_append] at ha
    rcases List.mem_append.mp ha with ha | ha
    · have hfront := h.strict
      rw [List.concat_eq_append] at hfront
      exact ((List.pairwise_append.mp hfront).2.2 a ha last (List.mem_singleton_self _)).trans hplace
    · rw [List.mem_singleton.mp ha]
      exact hplace
  have hnodup : (page.items.map StageImportCandidate.relativePath).Nodup := by
    refine List.pairwise_map.mpr (hstrict.imp fun hlt hsame => ?_)
    exact hlt.ne (congrArg StagedPath.rank hsame)
  have htree := copy_new (fun c hc hin => ?_) hnodup copied
  · refine ⟨⟨List.pairwise_append.mpr ⟨h.strict, hstrict, hcross⟩, ?_, ?_, ?_⟩, fun next hsome => ?_⟩
    · intro c hc
      rcases List.mem_append.mp hc with hc | hc
      · exact h.mem c hc
      · exact (hfrozen c hc).1
    · rw [htree, List.map_append, ← h.files]
    · rw [htree]
      exact h.temporary
    · have hlast := hnext next hsome
      have hne : page.items ≠ [] := by
        rintro hnil
        rw [hnil] at hlast
        cases hlast
      rw [hlast, List.getLast?_append_of_ne_nil _ hne]
  · rw [h.files, List.map_map] at hin
    obtain ⟨d, hd, hsame⟩ := List.mem_map.mp hin
    exact (hcross d hd c hc).ne (congrArg StagedPath.rank hsame)

/-- The first process, while it is not stopped. -/
theorem Checked.step {a : StageAction} (hsel : Selected job first frozen s) (hjob : first.selectionJobId = some job)
    (hfiles : first.eligibleFiles = frozen.length) (h : s.pass.Checked first frozen s.tree)
    (hstep : StageStep job s a t) (hgoes : t.pass ≠ .stopped) : t.pass.Checked first frozen t.tree := by
  cases hstep with
  | catalog cataloged => exact h
  | beginAudit audit unused once => exact h
  | auditFile next written => exact h
  | endAudit complete finished => exact h
  | select selected => exact h
  | @copyPage plan cursor items limit page tree copying read copied =>
    rw [copying] at h
    obtain ⟨rfl, hcopies, rfl⟩ := h
    obtain ⟨hcopies, hnext⟩ := hcopies.page hsel hjob read copied
    cases hpage : page.next with
    | none => exact ⟨rfl, hcopies⟩
    | some next => exact ⟨rfl, hcopies, hnext next hpage⟩
  | @validate plan items copied valid =>
    rw [copied] at h
    obtain ⟨rfl, hcopies⟩ := h
    have hlength : items.length = frozen.length := by
      unfold ImportTree.validates at valid
      rw [hcopies.files, hcopies.temporary, List.length_map, hfiles] at valid
      exact valid
    -- a part of the frozen rows that is as long as they are is all of them
    have hnodup : items.Nodup := hcopies.strict.imp fun hlt hsame => hlt.ne (congrArg _ hsame)
    have hsub : items.Subperm frozen := List.subperm_of_subset hnodup hcopies.mem
    have hperm := hsub.perm_of_length_le hlength.ge
    exact eq_of_strict hcopies.strict hsel.selection.strict fun c => hperm.mem_iff
  | @recordPage plan before cursor items limit page recording read =>
    rw [recording] at h
    cases page.next with
    | none => exact h
    | some next => exact h
  | interrupt killed copying read copied => exact absurd rfl hgoes
  | stop removed running => exact absurd rfl hgoes
  | resume stopped selected =>
    rw [stopped] at h
    cases h

end

/-- What an import is prepared for is what a new job of it freezes, when nothing is cataloged in between. -/
theorem prepared_is_frozen {cataloged : String → Bool} {source : String} {plan : StageImportPlan}
    (h : prepareStageImport m cataloged source = .ok plan) :
    plan.eligibleFiles = (frozenFiles m cataloged plan).length ∧
      plan.eligibleBytes = ((frozenFiles m cataloged plan).map StageImportCandidate.sizeBytes).sum := by
  have hperm (generation : String) := (Keyset.perm_sorted StageImportCandidate.rank (m.stable generation)).filter
    fun c => !cataloged c.blake3Hex
  unfold prepareStageImport at h
  split at h
  · split at h
    · cases h
      exact ⟨(hperm _).length_eq.symm, ((hperm _).map _).sum_eq.symm⟩
    · cases h
  · cases h

/-- **The check finds a copy pass that lacks a file.**  An import whose process was never stopped has copied the whole
selection when it comes to its end, whatever audits did meanwhile. -/
theorem copy_is_whole {plan first last : StageImportPlan} {copied recorded : List StageImportCandidate}
    {p : List (StageAction × StageState)} (hs : Reachable job s)
    (hnew : s.manifest.importJobs.get? job = none)
    (hsel : selectStageImport s.manifest s.cataloged plan job = .ok (m, first))
    (hp : Path (StageStep job) (s.begun m first) p)
    (hgoes : Path (fun _ _ u => u.pass ≠ .stopped) (s.begun m first) p)
    (hdone : (final (s.begun m first) p).pass = .done last copied recorded) :
    copied = frozenFiles s.manifest s.cataloged plan := by
  obtain ⟨hselected, hwhole⟩ := selected_of_new (sound_of_reachable hs) hnew hsel
  have hof := hwhole.read.1
  have hbegun : (s.begun m first).pass.Checked first (frozenFiles s.manifest s.cataloged plan) (s.begun m first).tree :=
    ⟨rfl, ⟨List.Pairwise.nil, nofun, rfl, rfl⟩, rfl⟩
  have hend := (hp.and hgoes).invariant
    (P := fun u => Selected job first (frozenFiles s.manifest s.cataloged plan) u ∧ u.pass.Checked first _ u.tree)
    (fun u a v hst h => ⟨hst.1.step h.1, Checked.step hst.1 hof.job hof.files hst.2 h.1 h.2⟩) ⟨hselected, hbegun⟩
  have hchecked := hend.2
  rw [hdone] at hchecked
  exact hchecked

/-- An import of the selection of a job that comes to its end, whatever else is done meanwhile and however often the job
was resumed, has read exactly the rows that were frozen at the job's first selection, in both of its passes and with
their count and size in its plan, if and only if no audit rewrites or deletes one of them before it is read for the
last time. -/
theorem pages_are_frozen_iff {plan first last : StageImportPlan} {copied recorded : List StageImportCandidate}
    {p : List (StageAction × StageState)} (hs : Reachable job s)
    (hnew : s.manifest.importJobs.get? job = none)
    (hsel : selectStageImport s.manifest s.cataloged plan job = .ok (m, first))
    (hp : Path (StageStep job) (s.begun m first) p)
    (hdone : (final (s.begun m first) p).pass = .done last copied recorded) :
    (copied = frozenFiles s.manifest s.cataloged plan ∧ recorded = frozenFiles s.manifest s.cataloged plan ∧
      last.eligibleFiles = (frozenFiles s.manifest s.cataloged plan).length ∧
      last.eligibleBytes =
        ((frozenFiles s.manifest s.cataloged plan).map StageImportCandidate.sizeBytes).sum) ↔
    Path (fun u a _ => LeavesUnread first (frozenFiles s.manifest s.cataloged plan) u a) (s.begun m first) p := by
  obtain ⟨hselected, hwhole⟩ := selected_of_new (sound_of_reachable hs) hnew hsel
  constructor
  · rintro ⟨-, hrecorded, -⟩
    by_contra hdisturbed
    -- the first step that does not leave the selection alone loses one of its rows
    obtain ⟨q, a, t, r, rfl, hq, hfails⟩ := exists_first_failure hdisturbed
    obtain ⟨hpq, hstep, hpr⟩ := path_append.mp hp
    have hbefore := (hpq.and hq).invariant
      (P := fun u => Selected job first _ u ∧ Whole job first _ u)
      (fun u a v hst h => ⟨hst.1.step h.1, hst.2.step hst.1 h.2 h.1⟩) ⟨hselected, hwhole⟩
    obtain ⟨c, hc, hlost⟩ := lost_of_disturbed hbefore.1 hbefore.2 hstep hfails
    have hafter := hpr.invariant (P := fun u => Selected job first _ u ∧ Lost first c u)
      (fun u a v hst h => ⟨hst.1.step h, hst.2.step hst.1 hc h⟩) ⟨hbefore.1.step hstep, hlost⟩
    have hunseen := hafter.2.unseen
    rw [final_append, final_cons] at hdone
    rw [hdone] at hunseen
    exact hunseen (hrecorded ▸ hc)
  · intro hleaves
    have hend := (hp.and hleaves).invariant
      (P := fun u => Selected job first _ u ∧ Whole job first _ u)
      (fun u a v hst h => ⟨hst.1.step h.1, hst.2.step hst.1 h.2 h.1⟩) ⟨hselected, hwhole⟩
    have hread := hend.2.read
    rw [hdone] at hread
    exact ⟨hread.2.1, hread.2.2, hread.1.files, hread.1.bytes⟩

namespace Sample

def written (r : StageResult StageManifest) (m : StageManifest) : StageManifest :=
  match r with
  | .ok m' => m'
  | .error _ => m

def file : DiscoveredFile :=
  ⟨⟨"utf-8", [97]⟩, "a", ⟨5, none, none, none, none⟩, .stable "hash"⟩

def begun : StageState :=
  ⟨⟨some "first", some "running", .empty, .empty, []⟩, fun _ => false, [⟨"first", [file]⟩], .empty, .idle⟩

def staged : StageManifest := written (auditFile begun.manifest "first" file) begun.manifest

/-- One audit of a source with one file. -/
def audited : StageState := ⟨finishAudit staged "first" true, fun _ => false, [], .empty, .idle⟩

theorem audited_reachable : Reachable "job" audited :=
  ⟨fun _ => false,
    [(.beginAudit ⟨"first", [file]⟩, begun),
      (.auditFile 0, { begun with manifest := staged, audits := [⟨"first", []⟩] }),
      (.endAudit 0 true, audited)],
    ⟨.beginAudit ⟨"first", [file]⟩ ⟨nofun, nofun, nofun⟩ (List.nodup_singleton _),
      .auditFile rfl rfl, .endAudit true rfl, trivial⟩, rfl⟩

def plan : StageImportPlan := ⟨"source", 1, 5, "first", none⟩

def first : StageImportPlan := { plan with selectionJobId := some "job" }

def frozen : StageManifest :=
  written (freezeSelection audited.manifest audited.cataloged plan "job") audited.manifest

theorem select_ok : selectStageImport audited.manifest audited.cataloged plan "job" = .ok (frozen, first) :=
  rfl

def candidate : StageImportCandidate := ⟨⟨"utf-8", [97]⟩, "a", 5, none, "hash"⟩

def selected : StageState := audited.begun frozen first

/-- The file is copied. -/
def copied : StageState :=
  { selected with tree := ⟨[(⟨"utf-8", [97]⟩, "hash")], 0, false⟩, pass := .copied first [candidate] }

/-- The copied tree is in its place, and the second pass begins. -/
def validated : StageState :=
  { copied with tree := { copied.tree with published := true }, pass := .recording first [candidate] none [] }

/-- An import that reads its page twice. -/
def pass : List (StageAction × StageState) :=
  [(.copyPage 10, copied), (.validate, validated),
    (.recordPage 10, { validated with pass := .done first [candidate] [candidate] })]

theorem copied_path : StageStep "job" selected (.copyPage 10) copied :=
  @StageStep.copyPage "job" selected first none [] 10 ⟨[candidate], none⟩ copied.tree rfl rfl rfl

theorem pass_path : Path (StageStep "job") selected pass :=
  ⟨copied_path, .validate rfl rfl,
    @StageStep.recordPage "job" validated first [candidate] none [] 10 ⟨[candidate], none⟩ rfl rfl, trivial⟩

theorem pass_is_frozen :
    ([candidate] = frozenFiles audited.manifest audited.cataloged plan ∧
      [candidate] = frozenFiles audited.manifest audited.cataloged plan ∧
      first.eligibleFiles = (frozenFiles audited.manifest audited.cataloged plan).length ∧
      first.eligibleBytes = ((frozenFiles audited.manifest audited.cataloged plan).map
        StageImportCandidate.sizeBytes).sum) ↔
    Path (fun u a _ =>
      LeavesUnread first (frozenFiles audited.manifest audited.cataloged plan) u a) selected pass :=
  pages_are_frozen_iff audited_reachable rfl select_ok pass_path rfl

/-- The manifest while a second audit of the source runs, before and after it comes to the file. -/
def reaudited : StageState :=
  { validated with
    manifest := { frozen with generation := some "second", auditStatus := some "running" }
    audits := [⟨"second", [file]⟩] }

def rewritten : StageState :=
  { reaudited with
    manifest := written (auditFile reaudited.manifest "second" file) reaudited.manifest
    audits := [⟨"second", []⟩] }

def disturbed : List (StageAction × StageState) :=
  [(.copyPage 10, copied), (.validate, validated), (.beginAudit ⟨"second", [file]⟩, reaudited), (.auditFile 0, rewritten),
    (.recordPage 10, { rewritten with pass := .done first [candidate] [] })]

theorem disturbed_path : Path (StageStep "job") selected disturbed :=
  ⟨copied_path, .validate rfl rfl,
    .beginAudit ⟨"second", [file]⟩ ⟨by decide, by decide, by decide⟩ (List.nodup_singleton _),
    .auditFile rfl rfl, @StageStep.recordPage "job" rewritten first [candidate] none [] 10 ⟨[], none⟩ rfl rfl, trivial⟩

/-- The second audit finds the file as it was, and the import copies it and does not record it. -/
theorem disturbed_drops : ¬ ∀ (job : String) (s : StageState) (m : StageManifest)
    (plan first last : StageImportPlan) (copied recorded : List StageImportCandidate)
    (p : List (StageAction × StageState)), Reachable job s →
    s.manifest.importJobs.get? job = none →
    selectStageImport s.manifest s.cataloged plan job = .ok (m, first) →
    Path (StageStep job) (s.begun m first) p →
    (final (s.begun m first) p).pass = .done last copied recorded →
    copied = frozenFiles s.manifest s.cataloged plan ∧ recorded = frozenFiles s.manifest s.cataloged plan := by
  intro h
  obtain ⟨-, hrecorded⟩ := h "job" audited frozen plan first first [candidate] [] disturbed audited_reachable rfl select_ok
    disturbed_path rfl
  have hfrozen : frozenFiles audited.manifest audited.cataloged plan = [candidate] := rfl
  rw [hfrozen] at hrecorded
  cases hrecorded

end Sample

end ArchiveLedger.Stage
