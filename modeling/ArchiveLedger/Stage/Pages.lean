import ArchiveLedger.Stage.Manifest

/-!
# Pages of a selection

What one call does to a stage manifest.  A page shows the stable rows of its audit at the
paths of the job (`mem_page`), and while the rows that were not read yet are as they were
selected it shows what comes next of these (`page_of_kept`).
-/

namespace ArchiveLedger.Stage

open Relational Transition

variable {job : String} {s t : StageState} {m m' : StageManifest}

/-! ### The order of paths -/

theorem StagedPath.rank_injective : Function.Injective StagedPath.rank := by
  intro p q h
  obtain ⟨hencoding, hbytes⟩ := Prod.mk.inj (toLex.injective h)
  cases p
  cases q
  simp only [StagedPath.mk.injEq]
  exact ⟨textRank_injective hencoding, blobRank_injective hbytes⟩

theorem isAfter_iff {p q : StagedPath} : p.isAfter q = true ↔ p.rank < q.rank := by
  unfold StagedPath.isAfter StagedPath.rank
  rw [Prod.Lex.toLex_lt_toLex]
  simp only [Bool.or_eq_true, Bool.and_eq_true, decide_eq_true_eq]
  have henc : textRank p.encoding = textRank q.encoding ↔ q.encoding = p.encoding :=
    textRank_injective.eq_iff.trans eq_comm
  rw [henc]

/-! ### The rows of an audit -/

theorem candidate_eq_some {f : StagedFile} {generation : String} {c : StageImportCandidate} :
    f.candidate generation = some c ↔ f.generation = generation ∧
      f.content = .stable c.blake3Hex ∧ f.path = c.relativePath ∧ f.pathDisplay = c.pathDisplay ∧
      f.sizeBytes = c.sizeBytes ∧ f.modifiedTimeUtcMs = c.modifiedTimeUtcMs := by
  unfold StagedFile.candidate
  cases hcontent : f.content with
  | stable blake3Hex =>
    by_cases hg : f.generation = generation
    · simp only [hg, if_true, Option.some.injEq, StagedContent.stable.injEq, true_and]
      constructor
      · rintro rfl
        exact ⟨rfl, rfl, rfl, rfl, rfl⟩
      · rintro ⟨h₁, h₂, h₃, h₄, h₅⟩
        cases c
        simp_all
    · simp [hg]
  | readError => simp
  | unstable => simp

theorem mem_stable {generation : String} {c : StageImportCandidate} :
    c ∈ m.stable generation ↔
      ∃ f, m.stagedFiles.get? c.relativePath = some f ∧ f.candidate generation = some c := by
  unfold StageManifest.stable
  rw [List.mem_filterMap]
  constructor
  · rintro ⟨f, hf, hc⟩
    have hkey := (candidate_eq_some.mp hc).2.2.1
    exact ⟨f, by rw [← hkey]; exact Table.get?_of_mem hf, hc⟩
  · rintro ⟨f, hf, hc⟩
    exact ⟨f, Table.mem_of_get? hf, hc⟩

/-- Two stable rows of an audit are not at one path. -/
theorem stable_path {generation : String} {c d : StageImportCandidate} (hc : c ∈ m.stable generation)
    (hd : d ∈ m.stable generation) (h : c.relativePath = d.relativePath) : c = d := by
  obtain ⟨f, hf, hfc⟩ := mem_stable.mp hc
  obtain ⟨f', hf', hfd⟩ := mem_stable.mp hd
  rw [h, hf'] at hf
  cases hf
  exact Option.some.inj (hfc.symm.trans hfd)

theorem ranks_stable (m : StageManifest) (generation : String) :
    ((m.stable generation).map StageImportCandidate.rank).Nodup := by
  have hkeys : m.stagedFiles.rows.Pairwise fun f g => f.path ≠ g.path :=
    List.pairwise_map.mp m.stagedFiles.keys_nodup
  refine List.pairwise_map.mpr (hkeys.filterMap _ ?_)
  intro f g hne c hc d hd hrank
  have hpath := StagedPath.rank_injective hrank
  rw [← (candidate_eq_some.mp hc).2.2.1, ← (candidate_eq_some.mp hd).2.2.1] at hpath
  exact hne hpath

/-! ### Pages -/

/-- The loop of a page takes rows while there is room, and goes on after the last one taken. -/
theorem fillPage_cases {cataloged : String → Bool} (hnone : ∀ hash, cataloged hash = false)
    {limit : Nat} (rows items : List StageImportCandidate) (last : Option StagedPath)
    (hroom : items.length ≤ limit) (hlast : last = items.getLast?.map StageImportCandidate.relativePath) :
    ∃ taken rest, rows = taken ++ rest ∧ (fillPage cataloged limit rows items last).items = items ++ taken ∧
      (fillPage cataloged limit rows items last).next =
        (if rest = [] then none
          else (items ++ taken).getLast?.map StageImportCandidate.relativePath) ∧
      (rest ≠ [] → (items ++ taken).length = limit) := by
  induction rows generalizing items last with
  | nil => exact ⟨[], [], rfl, by simp [fillPage], by simp [fillPage], fun h => absurd rfl h⟩
  | cons c rows ih =>
    rw [fillPage, hnone, if_neg (by decide)]
    split
    · rename_i hfull
      exact ⟨[], c :: rows, rfl, by simp, by simp [hlast], fun _ => by simpa using hfull⟩
    · rename_i hfull
      obtain ⟨taken, rest, hrows, hitems, hnext, hlength⟩ := ih (items ++ [c]) (some c.relativePath)
        (by simp only [List.length_append, List.length_singleton]; omega) (by simp)
      refine ⟨c :: taken, rest, by rw [hrows]; rfl, ?_, ?_, ?_⟩
      · rw [hitems, List.append_assoc]
        rfl
      · rw [hnext, List.append_assoc]
        rfl
      · intro hrest
        have := hlength hrest
        rwa [List.append_assoc] at this

/-- Two lists in strict order with the same members are the same. -/
theorem eq_of_strict {xs ys : List StageImportCandidate}
    (hxs : xs.Pairwise fun a b => a.rank < b.rank) (hys : ys.Pairwise fun a b => a.rank < b.rank)
    (h : ∀ c, c ∈ xs ↔ c ∈ ys) : xs = ys := by
  have hperm : xs.Perm ys := (List.perm_ext_iff_of_nodup (hxs.imp fun h e => by rw [e] at h; exact lt_irrefl _ h)
    (hys.imp fun h e => by rw [e] at h; exact lt_irrefl _ h)).mpr h
  refine hperm.eq_of_pairwise ?_ hxs hys
  intro a b _ _ hab hba
  exact absurd (hab.trans hba) (lt_irrefl _)

/-- The selection of a job: its paths are those of the frozen rows. -/
structure Frozen (job : String) (plan : StageImportPlan) (frozen : List StageImportCandidate)
    (m : StageManifest) : Prop where
  registered : m.importJobs.get? job = some ⟨job, plan.generation, plan.source⟩
  files : ∀ path, m.selected job path = true ↔ path ∈ frozen.map StageImportCandidate.relativePath
  strict : frozen.Pairwise fun a b => a.rank < b.rank

/-- The paths after the last one that was read are those that were not. -/
theorem isAfter_last {read unread : List StageImportCandidate} {c : StageImportCandidate}
    (hstrict : (read ++ unread).Pairwise fun a b => a.rank < b.rank) (hc : c ∈ read ++ unread) :
    (read.getLast?.map StageImportCandidate.relativePath).all (fun cursor => cursor.isAfter c.relativePath) =
      true ↔ c ∈ unread := by
  obtain ⟨hread, -, hcross⟩ := List.pairwise_append.mp hstrict
  rcases List.eq_nil_or_concat read with rfl | ⟨init, last, rfl⟩
  · simpa using hc
  · rw [List.concat_eq_append] at hread hcross hc ⊢
    simp only [List.getLast?_append, List.getLast?_singleton, Option.some_or, Option.map_some,
      Option.all_some, isAfter_iff]
    constructor
    · intro hafter
      refine (List.mem_append.mp hc).resolve_left fun hin => ?_
      rcases List.mem_append.mp hin with hinit | hlast
      · exact lt_irrefl _ (((List.pairwise_append.mp hread).2.2 c hinit last
          (List.mem_singleton_self _)).trans hafter)
      · rw [List.mem_singleton.mp hlast] at hafter
        exact lt_irrefl _ hafter
    · intro hin
      exact hcross last (by simp) c hin

/-- While what has not been read is as it was selected, a page shows what comes next. -/
theorem page_of_kept {plan first : StageImportPlan} {frozen read unread : List StageImportCandidate}
    {cataloged : String → Bool} {limit : Nat} {page : StageImportPage}
    (hfrozen : Frozen job first frozen m) (hsplit : frozen = read ++ unread)
    (hkept : ∀ c ∈ unread, c ∈ m.stable first.generation)
    (hgeneration : plan.generation = first.generation) (hjob : plan.selectionJobId = some job)
    (h : stageImportCandidates m cataloged plan (read.getLast?.map StageImportCandidate.relativePath)
      limit = .ok page) :
    ∃ taken rest, unread = taken ++ rest ∧ page.items = taken ∧ (rest ≠ [] → taken ≠ []) ∧
      page.next = (if rest = [] then none
        else (read ++ taken).getLast?.map StageImportCandidate.relativePath) := by
  unfold stageImportCandidates at h
  split at h
  · cases h
  rename_i hlimit
  have hstrict := hfrozen.strict
  rw [hsplit] at hstrict
  have hrows : (Keyset.sorted StageImportCandidate.rank (m.stable plan.generation)).filter (fun c =>
      (read.getLast?.map StageImportCandidate.relativePath).all
          (fun cursor => cursor.isAfter c.relativePath) &&
        plan.selectionJobId.all fun jobId => m.selected jobId c.relativePath) = unread := by
    refine eq_of_strict ((Keyset.strict_sorted (ranks_stable m _)).filter _)
      (List.pairwise_append.mp hstrict).2.1 fun c => ?_
    simp only [List.mem_filter, Keyset.mem_sorted, hgeneration, hjob, Option.all_some,
      Bool.and_eq_true]
    constructor
    · rintro ⟨hstable, hafter, hselected⟩
      obtain ⟨d, hd, hpath⟩ := List.mem_map.mp ((hfrozen.files _).mp hselected)
      rw [hsplit] at hd
      rw [← hpath] at hafter
      have hunread := (isAfter_last hstrict hd).mp hafter
      rwa [stable_path hstable (hkept d hunread) hpath.symm]
    · intro hc
      have hmem : c ∈ read ++ unread := List.mem_append_right _ hc
      refine ⟨hkept c hc, (isAfter_last hstrict hmem).mpr hc, (hfrozen.files _).mpr ?_⟩
      rw [hsplit]
      exact List.mem_map_of_mem hmem
  cases h
  rw [hrows, hjob]
  have hnone : ∀ hash, ((some job).isNone && cataloged hash) = false := fun _ => rfl
  obtain ⟨taken, rest, hsplit', hitems, hnext, hlength⟩ :=
    fillPage_cases hnone unread [] none (Nat.zero_le limit) rfl
  rw [List.nil_append] at hitems hnext hlength
  have hroom : rest ≠ [] → taken ≠ [] := by
    intro hrest he
    rw [he] at hlength
    exact hlimit (hlength hrest).symm
  refine ⟨taken, rest, hsplit', hitems, hroom, ?_⟩
  rw [hnext]
  by_cases hrest : rest = []
  · rw [if_pos hrest, if_pos hrest]
  · rw [if_neg hrest, if_neg hrest, List.getLast?_append_of_ne_nil _ (hroom hrest)]

theorem mem_fillPage {cataloged : String → Bool} {limit : Nat} {rows items : List StageImportCandidate}
    {last : Option StagedPath} {c : StageImportCandidate}
    (h : c ∈ (fillPage cataloged limit rows items last).items) : c ∈ items ∨ c ∈ rows := by
  induction rows generalizing items last with
  | nil => exact Or.inl h
  | cons d rows ih =>
    rw [fillPage] at h
    split at h
    · exact (ih h).imp_right (List.mem_cons_of_mem d)
    split at h
    · exact Or.inl h
    · rcases ih h with h | h
      · rcases List.mem_append.mp h with h | h
        · exact Or.inl h
        · exact Or.inr (List.mem_singleton.mp h ▸ List.mem_cons_self)
      · exact Or.inr (List.mem_cons_of_mem d h)

/-- A page shows only stable rows of its audit. -/
theorem mem_page {plan : StageImportPlan} {cataloged : String → Bool} {after : Option StagedPath}
    {limit : Nat} {page : StageImportPage} (h : stageImportCandidates m cataloged plan after limit = .ok page)
    {c : StageImportCandidate} (hc : c ∈ page.items) : c ∈ m.stable plan.generation := by
  unfold stageImportCandidates at h
  split at h
  · cases h
  · cases h
    have hrow := (mem_fillPage hc).resolve_left List.not_mem_nil
    exact (Keyset.mem_sorted _).mp (List.mem_filter.mp hrow).1

/-! ### What a step does to the manifest -/

theorem auditFile_spec {generation : String} {file : DiscoveredFile}
    (h : auditFile m generation file = .ok m') :
    (∀ path, path ≠ file.path → m'.stagedFiles.get? path = m.stagedFiles.get? path) ∧
      (∃ row, m'.stagedFiles.get? file.path = some row ∧ row.generation = generation) ∧
      m'.importJobs = m.importJobs ∧ m'.importFiles = m.importFiles := by
  unfold auditFile at h
  obtain ⟨existing, -, h⟩ := bind_eq_ok.mp h
  unfold upsertStagedFile at h
  obtain ⟨size, -, h⟩ := bind_eq_ok.mp h
  cases h
  refine ⟨fun path hne => ?_, ?_, rfl, rfl⟩
  · dsimp only
    rw [Table.get?_upsert]
    exact if_neg (Ne.symm hne)
  · dsimp only
    rw [Table.get?_upsert, if_pos (show stagedFileSchema.key _ = file.path from rfl)]
    cases m.stagedFiles.get? file.path <;> exact ⟨_, rfl, rfl⟩

theorem get?_finishAudit (m : StageManifest) (generation : String) (complete : Bool)
    (path : StagedPath) :
    (finishAudit m generation complete).stagedFiles.get? path =
      if complete then (m.stagedFiles.get? path).filter fun f => f.generation = generation
      else m.stagedFiles.get? path := by
  unfold finishAudit
  cases complete with
  | false => rfl
  | true =>
    simp only [if_true, Table.get?_delete]
    congr 1
    funext f
    simp

theorem freezeSelection_spec {cataloged : String → Bool} {plan : StageImportPlan} {jobId : String}
    (h : freezeSelection m cataloged plan jobId = .ok m') :
    m'.stagedFiles = m.stagedFiles ∧
      ((m.importJobs.get? jobId = some ⟨jobId, plan.generation, plan.source⟩ ∧ m' = m) ∨
        (m.importJobs.get? jobId = none ∧
          m'.importJobs = m.importJobs.insertOrIgnore ⟨jobId, plan.generation, plan.source⟩ ∧
          m'.importFiles = m.importFiles ++
            (frozenFiles m cataloged plan).map fun c => (jobId, c.relativePath))) := by
  unfold freezeSelection at h
  split at h
  · rename_i job hjob
    split at h
    · cases h
    · rename_i hsame
      cases h
      rw [not_or, not_not, not_not] at hsame
      refine ⟨rfl, Or.inl ⟨?_, rfl⟩⟩
      have hkey : job.jobId = jobId := Table.key_of_get? hjob
      rw [hjob]
      cases job
      simp_all
  · rename_i hjob
    cases h
    exact ⟨rfl, Or.inr ⟨hjob, rfl, rfl⟩⟩

theorem selectStageImport_ok {cataloged : String → Bool} {plan plan' : StageImportPlan} {jobId : String}
    (h : selectStageImport m cataloged plan jobId = .ok (m', plan')) :
    freezeSelection m cataloged plan jobId = .ok m' ∧ plan' = { plan with
      eligibleFiles := (m'.selectedFiles jobId).length
      eligibleBytes := ((m'.selectedFiles jobId).map StagedFile.sizeBytes).sum
      selectionJobId := some jobId } := by
  unfold selectStageImport at h
  obtain ⟨m₁, hfreeze, h⟩ := bind_eq_ok.mp h
  dsimp only at h
  split at h
  · cases h
    exact ⟨hfreeze, rfl⟩
  · cases h

end ArchiveLedger.Stage
