import ArchiveLedger.V2Inventory.Files
import ArchiveLedger.V2Inventory.Standing

/-!
# Skipped files are recorded

`copyUnchanged` looks for one path in the logical paths of Files and in the physical paths of Copies, and is
asked for the physical path of a file.  When both paths of a skipped file are the same, and no locked annex
symlink is recorded there, it is recorded (`recorded_of_unchanged`), and a completed job that skips no other
files leaves each of its files with a File at its logical path and a Copy at its physical path
(`added_recorded`).
-/

namespace ArchiveLedger.V2Inventory

open Relational Outcome Transition Discovery Annex

/-! ### What a skip says -/

/-- The File at a logical path is active and resolved and is present at the Location with a size and a
modification time, and a present Copy at a physical path holds its object with a good last check. -/
def Recorded (db : Projection) (config : V2InventoryConfig) (logical physical : StoredPath)
    (size modified : Nat) : Prop :=
  ∃ f ∈ db.fileObjects.rows, f.at = (config.collectionId, logical) ∧ f.active = true ∧
    f.identityState = .resolved ∧
    (∃ p ∈ db.fileLocations.rows, p.binding = (f.canonicalId, config.locationId) ∧ p.presence = true ∧
      p.observedSize = some size ∧ p.modifiedTime = some modified) ∧
    ∃ c ∈ db.copyBindings.rows, c.state = .present ∧ c.locationId = config.locationId ∧
      db.copyPath c = some physical ∧ f.content.isSome = true ∧ c.content = f.content ∧
      ∃ v, db.check? c.latestIntegrity = some v ∧ v.integrity = .verified

/-- A locked annex symlink is recorded at a path of the Location. -/
def LockedAt (db : Projection) (config : V2InventoryConfig) (path : StoredPath) : Prop :=
  ∃ f ∈ db.fileObjects.rows, f.at = (config.collectionId, path) ∧ ∃ p ∈ db.fileLocations.rows,
    p.binding = (f.canonicalId, config.locationId) ∧ p.representation = "annex_locked_symlink"

variable {db db' : Projection} {config : V2InventoryConfig}

/-- What a joined row says when every File is sound. -/
theorem recorded_of_row (hs : FilesSound db) {path : StoredPath} {size modified : Nat} {f : FileObjectRow}
    {p : FileLocationRow} {c : CopyBindingRow} (hf : f ∈ db.fileObjects.rows) (hp : p ∈ db.fileLocations.rows)
    (hc : c ∈ db.copyBindings.rows)
    (h : unchangedBy db config.collectionId config.locationId path size modified f p c = true) :
    Recorded db config path path size modified ∨ LockedAt db config path := by
  simp only [unchangedBy, Bool.and_eq_true, decide_eq_true_eq, Bool.or_eq_true, Option.any_eq_true] at h
  obtain ⟨⟨⟨⟨⟨⟨⟨⟨⟨⟨⟨⟨⟨hfile, hcontent⟩, hobject⟩, hstate⟩, hplace⟩, v, hv, hgood⟩, hat⟩, hactive⟩, hlocation⟩,
    hpresent⟩, hsize⟩, hmodified⟩, -⟩, physical, howner, hpath⟩ := h
  have hbinding : p.binding = (f.canonicalId, config.locationId) := Prod.ext_iff.mpr ⟨hfile, hlocation⟩
  rcases hpath with hpath | ⟨⟨hlocked, -⟩, -⟩
  · left
    have hcopy : db.copyPath c = some path := by
      rw [Projection.copyPath, howner, Option.map_some, hpath]
      exact congrArg some (congrArg Prod.snd hat)
    exact ⟨f, hf, hat, hactive, (hs.of_mem hf).2 hcontent, ⟨p, hp, hbinding, hpresent, hsize, hmodified⟩,
      c, hc, hstate, hplace.trans hlocation, hcopy, hcontent, hobject, v, hv, hgood⟩
  · exact Or.inr ⟨f, hf, hat, p, hp, hbinding, hlocked⟩

/-- A skip says that the file is recorded with its physical path as both paths, unless a locked annex symlink
is recorded there. -/
theorem recorded_of_unchanged (hs : FilesSound db) {path : StoredPath} {size : Nat} {modified : Option Nat}
    (h : copyUnchanged db config.collectionId config.locationId path size modified = true) :
    (∃ time, modified = some time ∧ Recorded db config path path size time) ∨ LockedAt db config path := by
  unfold copyUnchanged at h
  split at h
  · rename_i size' time hsize hmodified
    obtain ⟨f, hf, h⟩ := List.any_eq_true.mp h
    obtain ⟨p, hp, h⟩ := List.any_eq_true.mp h
    obtain ⟨c, hc, h⟩ := List.any_eq_true.mp h
    obtain ⟨time', rfl, htime⟩ := Option.bind_eq_some_iff.mp hmodified
    obtain ⟨-, rfl⟩ := sqlInteger_eq_some.mp hsize
    obtain ⟨-, rfl⟩ := sqlInteger_eq_some.mp htime
    exact (recorded_of_row hs hf hp hc h).imp_left fun hr => ⟨_, rfl, hr⟩
  · cases h

/-! ### The files of a job -/

/-- A File at a path of the Collection. -/
def HasFile (db : Projection) (config : V2InventoryConfig) (path : StoredPath) : Prop :=
  ∃ f ∈ db.fileObjects.rows, f.at = (config.collectionId, path) ∧ f.active = true

/-- A Copy at a path of the Location. -/
def HasCopy (db : Projection) (config : V2InventoryConfig) (path : StoredPath) : Prop :=
  ∃ c ∈ db.copyBindings.rows, c.locationId = config.locationId ∧ db.copyPath c = some path

theorem HasFile.last (hf' : FilesSound db') (hl : Lasts db db') {path : StoredPath}
    (h : HasFile db config path) : HasFile db' config path := by
  obtain ⟨f, hf, hat, -⟩ := h
  obtain ⟨f', hget, hat'⟩ := hl.files _ f (Table.get?_of_mem hf)
  exact ⟨f', Table.mem_of_get? hget, hat'.trans hat, (hf' _ f' hget).1⟩

theorem hasCopy_iff {R : ProjectionRuntime} (hk : Projection.Keyed R db) {path : StoredPath} :
    HasCopy db config path ↔ ∃ id active, db.seating id = some ((config.locationId, path), active) := by
  constructor
  · intro h
    obtain ⟨c, hc, hl, hpath⟩ := h
    exact ⟨_, _, hl ▸ Projection.seating_of_get? (Table.get?_of_mem hc) hpath⟩
  · intro h
    obtain ⟨id, active, hid⟩ := h
    cases hc : db.copyBindings.get? id with
    | none =>
      rw [Projection.seating_of_none hc] at hid
      cases hid
    | some c =>
      obtain ⟨path', hpath, -⟩ := hk id c hc
      rw [Projection.seating_of_get? hc hpath] at hid
      simp only [Option.some.injEq, Prod.mk.injEq] at hid
      obtain ⟨⟨hl, rfl⟩, -⟩ := hid
      exact ⟨c, Table.mem_of_get? hc, hl, hpath⟩

theorem HasCopy.last {R : ProjectionRuntime} (hk : Projection.Keyed R db) (hk' : Projection.Keyed R db')
    (hl : Lasts db db') {path : StoredPath} (h : HasCopy db config path) : HasCopy db' config path := by
  obtain ⟨id, active, hid⟩ := (hasCopy_iff hk).mp h
  obtain ⟨active', hid'⟩ := hl.copies id _ active hid
  exact (hasCopy_iff hk').mpr ⟨id, active', hid'⟩

/-- An item for the File and the Copy of a file: the File is the one that stands at its logical path, or has
the id made from the path, and the id of the Copy is made from its physical path. -/
def Announces (D : Digests) (config : V2InventoryConfig) (db : Projection) (relative : RelativePath)
    (item : Json) : Prop :=
  ∃ file objectId, Names item file (copyId D config.locationId (config.copyPath relative) objectId) ∧
    (file = fileId D config.collectionId (config.logicalPath relative) ∨
      ∃ f, db.fileObjects.get? file = some f ∧ f.at = (config.collectionId, config.logicalPath relative))

/-- The file is recorded, or will be by an item of the spool. -/
def Handled (D : Digests) (config : V2InventoryConfig) (db : Projection) (job : InventoryJob)
    (relative : RelativePath) : Prop :=
  (HasFile db config (config.logicalPath relative) ∧ HasCopy db config (config.copyPath relative)) ∨
    ∃ item ∈ job.spool, Announces D config db relative item

/-- A file was not read. -/
def V2InventorySummary.Failed (s : V2InventorySummary) : Prop := 0 < s.readErrors ∨ 0 < s.concurrentChanges

theorem increment_pos (n : Nat) : 0 < increment n := by
  have hmax : 0 < u64Max := by decide
  show 0 < min (n + 1) u64Max
  omega

theorem knownFile_some {collectionId : String} {path : StoredPath} {f : FileObjectRow}
    (h : knownFile db collectionId path = some f) : f ∈ db.fileObjects.rows ∧ f.at = (collectionId, path) := by
  rcases Option.or_eq_some_iff.mp h with h | ⟨-, h⟩
  · have hat := List.find?_some h
    rw [Bool.and_eq_true, decide_eq_true_iff] at hat
    exact ⟨List.mem_of_find?_eq_some h, hat.1⟩
  · exact ⟨List.mem_of_find?_eq_some h, by simpa using List.find?_some h⟩

theorem prefixedPath_eq (above : Option RelativePath) (relative : RelativePath) :
    prefixedPath above relative = above.getD [] ++ relative := by
  cases above with
  | none => rfl
  | some above => rfl

theorem copyPath_eq_logicalPath (hsame : config.locationPrefix.getD [] = config.logicalPrefix.getD [])
    (relative : RelativePath) : config.copyPath relative = config.logicalPath relative := by
  rw [V2InventoryConfig.copyPath, V2InventoryConfig.logicalPath, prefixedPath_eq, prefixedPath_eq, hsame]

/-- A path below a directory. -/
theorem joinPath_append {above relative : RelativePath} (hbelow : relative ≠ []) :
    joinPath (above ++ relative) =
      if above = [] then joinPath relative else joinPath above ++ 47 :: joinPath relative := by
  induction above with
  | nil => rfl
  | cons name above ih =>
    obtain ⟨next, rest, hnext⟩ : ∃ next rest, above ++ relative = next :: rest := by
      cases h : above ++ relative with
      | nil => exact absurd (List.append_eq_nil_iff.mp h).2 hbelow
      | cons next rest => exact ⟨next, rest, rfl⟩
    rw [if_neg (List.cons_ne_nil _ _), List.cons_append, hnext, joinPath, ← hnext, ih]
    · cases above with
      | nil => rfl
      | cons name' above => simp [joinPath]
    · simp

theorem stored_eq_iff {a b : RelativePath} : stored a = stored b ↔ joinPath a = joinPath b := by
  have hbytes : ∀ path, (stored path).bytes = joinPath path := by
    intro path
    unfold stored encodeRelativePath
    dsimp only
    split <;> rfl
  constructor
  · intro h
    rw [← hbytes, ← hbytes, h]
  · intro h
    rw [stored, stored, encodeRelativePath, encodeRelativePath, h]

/-- Files below the root with one logical path have one physical path. -/
theorem copyPath_of_logicalPath {a b : RelativePath} (ha : a ≠ []) (hb : b ≠ [])
    (h : config.logicalPath a = config.logicalPath b) : config.copyPath a = config.copyPath b := by
  rw [V2InventoryConfig.logicalPath, V2InventoryConfig.logicalPath, stored_eq_iff, prefixedPath_eq,
    prefixedPath_eq, joinPath_append ha, joinPath_append hb] at h
  have hjoin : joinPath a = joinPath b := by
    split at h
    · exact h
    · exact List.tail_eq_of_cons_eq (List.append_cancel_left h)
  rw [V2InventoryConfig.copyPath, V2InventoryConfig.copyPath, stored_eq_iff, prefixedPath_eq, prefixedPath_eq,
    joinPath_append ha, joinPath_append hb, hjoin]

section Job

variable {D : Digests} {job job' : InventoryJob} {relative : RelativePath} {file : DiscoveredFile}
  {hashed : HashedContent} {observedTime : Nat}

theorem names_contentObservedItem (fileRefId : String) :
    Names (contentObservedItem D config relative file hashed fileRefId observedTime) fileRefId
      (copyId D config.locationId (config.copyPath relative) ("blake3:" ++ hashed.blake3Hex)) :=
  ⟨Or.inl rfl, rfl, rfl⟩

theorem names_ordinaryVerificationFailureItem (fileRefId expected : String) :
    Names (ordinaryVerificationFailureItem D config fileRefId expected relative hashed observedTime) fileRefId
      (copyId D config.locationId (config.copyPath relative) expected) :=
  ⟨Or.inr rfl, rfl, rfl⟩

/-- A file that was read gives one item for its paths. -/
theorem recordContent_eq_ok
    (h : recordContent D db config job relative file hashed observedTime = .ok job') :
    job'.seen = job.seen ∧ (job.summary.Failed → job'.summary.Failed) ∧ ∃ item, job'.spool = job.spool ++ [item] ∧
      Announces D config db relative item := by
  obtain ⟨_, _, h⟩ := bind_eq_ok.mp h
  split at h
  · rename_i fileRefId expected hexisting
    obtain ⟨f, hf, hknown⟩ := Option.bind_eq_some_iff.mp hexisting
    obtain ⟨expected', -, hpair⟩ := Option.map_eq_some_iff.mp hknown
    cases hpair
    obtain ⟨hmem, hat⟩ := knownFile_some hf
    have hstands : f.canonicalId = fileId D config.collectionId (config.logicalPath relative) ∨
        ∃ g, db.fileObjects.get? f.canonicalId = some g ∧
          g.at = (config.collectionId, config.logicalPath relative) :=
      Or.inr ⟨f, Table.get?_of_mem hmem, hat⟩
    split at h
    · cases h
      exact ⟨rfl, fun hfailed => hfailed, _, rfl, _, _, names_ordinaryVerificationFailureItem _ _, hstands⟩
    · cases h
      refine ⟨rfl, fun hfailed => ?_, _, rfl, _, _, names_contentObservedItem _, hstands⟩
      show (V2InventorySummary.observe _ _).Failed
      unfold V2InventorySummary.compare
      dsimp only
      split
      · exact hfailed
      · exact hfailed
  · cases h
    exact ⟨rfl, fun hfailed => hfailed, _, rfl, _, _, names_contentObservedItem _, Or.inl rfl⟩

/-- What a step of the walk does to the job. -/
structure FileStep (D : Digests) (config : V2InventoryConfig) (db : Projection) (job : InventoryJob)
    (relative : RelativePath) (job' : InventoryJob) : Prop where
  seen : config.logicalPath relative ∈ job'.seen
  others : ∀ q ∈ job'.seen, q ∈ job.seen ∨ q = config.logicalPath relative
  keeps : ∀ q ∈ job.seen, q ∈ job'.seen
  spool : ∀ item ∈ job.spool, item ∈ job'.spool
  failed : job.summary.Failed → job'.summary.Failed
  handled : config.logicalPath relative ∈ job.seen ∨ job'.summary.Failed ∨ Handled D config db job' relative

/-- A file that is skipped has one path, and no locked annex symlink is recorded there. -/
def SkipsStraight (db : Projection) (config : V2InventoryConfig) (relative : RelativePath) (file : DiscoveredFile) :
    Prop :=
  copyUnchanged db config.collectionId config.locationId (config.copyPath relative) file.sizeBytes
      file.modifiedTimeUtcMs = true →
    config.copyPath relative = config.logicalPath relative ∧ ¬ LockedAt db config (config.logicalPath relative)

theorem recorded_placed {path : StoredPath} {size modified : Nat}
    (h : Recorded db config path path size modified) : HasFile db config path ∧ HasCopy db config path := by
  obtain ⟨f, hf, hat, hactive, -, -, c, hc, -, hl, hpath, -⟩ := h
  exact ⟨⟨f, hf, hat, hactive⟩, c, hc, hl, hpath⟩

theorem addFile_eq_ok (hs : FilesSound db) (hstraight : SkipsStraight db config relative file)
    (h : addFile D db config job relative file observedTime = .ok job') :
    FileStep D config db job relative job' := by
  unfold addFile at h
  dsimp only at h
  split at h
  · rename_i hseen
    cases h
    exact ⟨hseen, fun _ hq => Or.inl hq, fun _ hq => hq, fun _ hi => hi, fun hf => hf, Or.inl hseen⟩
  · rename_i hseen
    obtain ⟨_, _, h⟩ := bind_eq_ok.mp h
    have hadded : ∀ {seen : List StoredPath}, seen = job.seen ++ [config.logicalPath relative] →
        config.logicalPath relative ∈ seen ∧
        (∀ q ∈ seen, q ∈ job.seen ∨ q = config.logicalPath relative) ∧ ∀ q ∈ job.seen, q ∈ seen := by
      intro seen hseen
      subst hseen
      refine ⟨List.mem_append_right _ (List.mem_singleton_self _), ?_, fun _ hq => List.mem_append_left _ hq⟩
      intro q hq
      exact (List.mem_append.mp hq).imp_right List.mem_singleton.mp
    split at h
    · rename_i hskip
      cases h
      obtain ⟨h₁, h₂, h₃⟩ := hadded rfl
      refine ⟨h₁, h₂, h₃, fun _ hi => hi, fun hf => hf, Or.inr (Or.inr (Or.inl ?_))⟩
      obtain ⟨hpath, hunlocked⟩ := hstraight hskip.2
      rw [hpath] at hskip ⊢
      rcases recorded_of_unchanged hs hskip.2 with ⟨_, -, hr⟩ | hlocked
      · exact recorded_placed hr
      · exact absurd hlocked hunlocked
    · split at h
      · cases h
        obtain ⟨h₁, h₂, h₃⟩ := hadded rfl
        exact ⟨h₁, h₂, h₃, fun _ hi => hi, fun _ => Or.inl (increment_pos _),
          Or.inr (Or.inl (Or.inl (increment_pos _)))⟩
      · cases h
        obtain ⟨h₁, h₂, h₃⟩ := hadded rfl
        exact ⟨h₁, h₂, h₃, fun _ hi => hi, fun _ => Or.inr (increment_pos _),
          Or.inr (Or.inl (Or.inr (increment_pos _)))⟩
      · obtain ⟨_, _, h⟩ := bind_eq_ok.mp h
        obtain ⟨hjob, hfailed, item, hspool, hitem⟩ := recordContent_eq_ok h
        obtain ⟨h₁, h₂, h₃⟩ := hadded hjob
        refine ⟨h₁, h₂, h₃, fun i hi => ?_, hfailed, Or.inr (Or.inr (Or.inr ⟨item, ?_, hitem⟩))⟩
        · rw [hspool]
          exact List.mem_append_left _ hi
        · rw [hspool]
          exact List.mem_append_right _ (List.mem_singleton_self item)

end Job

/-! ### A whole job -/

/-- The walk met something else at the path than a regular file without an annex entry. -/
def Marked (acts : List AddAct) (path : StoredPath) : Prop :=
  ∃ paths, AddAct.other paths ∈ acts ∧ path ∈ paths

/-- The walk met a regular file without an annex entry. -/
def MetFile (acts : List AddAct) (relative : RelativePath) : Prop :=
  ∃ file time, AddAct.file relative file time ∈ acts

/-- The files that a job skips have one path each, at which no locked annex symlink is recorded. -/
def Straight (config : V2InventoryConfig) (s : AddState) : AddAct → Prop
  | .file relative file _ => SkipsStraight s.projection.db config relative file
  | _ => True

/-- Every path that was met is failed, marked or handled. -/
structure Going (D : Digests) (R : ProjectionRuntime) (config : V2InventoryConfig) (acts : List AddAct)
    (s : AddState) : Prop where
  sound : Standing R s.projection
  met : ∀ relative, MetFile acts relative → config.logicalPath relative ∈ s.job.seen
  seen : ∀ path ∈ s.job.seen, s.job.summary.Failed ∨ Marked acts path ∨
    ∃ relative, MetFile acts relative ∧ config.logicalPath relative = path ∧
      Handled D config s.projection.db s.job relative

section Going

variable {D : Digests} {R : ProjectionRuntime} {acts : List AddAct} {s t : AddState} {a : AddAct}

theorem Marked.snoc {path : StoredPath} (h : Marked acts path) (a : AddAct) : Marked (acts ++ [a]) path := by
  obtain ⟨paths, hmem, hpath⟩ := h
  exact ⟨paths, List.mem_append_left _ hmem, hpath⟩

theorem MetFile.snoc {relative : RelativePath} (h : MetFile acts relative) (a : AddAct) :
    MetFile (acts ++ [a]) relative := by
  obtain ⟨file, time, hmem⟩ := h
  exact ⟨file, time, List.mem_append_left _ hmem⟩

theorem MetFile.of_snoc {relative : RelativePath} (h : MetFile (acts ++ [a]) relative) :
    MetFile acts relative ∨ ∃ file time, a = .file relative file time := by
  obtain ⟨file, time, hmem⟩ := h
  rcases List.mem_append.mp hmem with hmem | hmem
  · exact Or.inl ⟨file, time, hmem⟩
  · exact Or.inr ⟨file, time, (List.mem_singleton.mp hmem).symm⟩

theorem Announces.last (hl : Lasts db db') {relative : RelativePath} {item : Json}
    (h : Announces D config db relative item) : Announces D config db' relative item := by
  obtain ⟨file, objectId, hn, hfile⟩ := h
  refine ⟨file, objectId, hn, hfile.imp_right ?_⟩
  intro hstands
  obtain ⟨f, hf, hat⟩ := hstands
  obtain ⟨f', hf', hat'⟩ := hl.files file f hf
  exact ⟨f', hf', hat'.trans hat⟩

theorem Handled.spool {job job' : InventoryJob} {relative : RelativePath} (h : Handled D config db job relative)
    (hspool : ∀ item ∈ job.spool, item ∈ job'.spool) : Handled D config db job' relative := by
  refine h.imp_right ?_
  intro hitem
  obtain ⟨item, hmem, hitem⟩ := hitem
  exact ⟨item, hspool item hmem, hitem⟩

theorem Handled.last {job : InventoryJob} {relative : RelativePath} (hk : Projection.Keyed R db)
    (hk' : Projection.Keyed R db') (hf' : FilesSound db') (hl : Lasts db db')
    (h : Handled D config db job relative) : Handled D config db' job relative := by
  rcases h with ⟨hfile, hcopy⟩ | ⟨item, hmem, hitem⟩
  · exact Or.inl ⟨hfile.last hf' hl, hcopy.last hk hk' hl⟩
  · exact Or.inr ⟨item, hmem, hitem.last hl⟩

theorem V2InventorySummary.Failed.mono {s t : V2InventorySummary} (h : s.Failed)
    (hread : s.readErrors ≤ t.readErrors) (hchanged : s.concurrentChanges ≤ t.concurrentChanges) : t.Failed :=
  h.imp (fun h => Nat.lt_of_lt_of_le h hread) fun h => Nat.lt_of_lt_of_le h hchanged

/-- What is known of a path that was seen, after one act more. -/
theorem Going.kept (hg : Going D R config acts s) {job : InventoryJob}
    (hfailed : s.job.summary.Failed → job.summary.Failed) (hspool : ∀ item ∈ s.job.spool, item ∈ job.spool)
    {path : StoredPath} (hpath : path ∈ s.job.seen) (a : AddAct) :
    job.summary.Failed ∨ Marked (acts ++ [a]) path ∨
      ∃ relative, MetFile (acts ++ [a]) relative ∧ config.logicalPath relative = path ∧
        Handled D config s.projection.db job relative := by
  rcases hg.seen path hpath with h | hmarked | ⟨relative, hmet, hat, hhandled⟩
  · exact Or.inl (hfailed h)
  · exact Or.inr (Or.inl (hmarked.snoc a))
  · exact Or.inr (Or.inr ⟨relative, hmet.snoc a, hat, hhandled.spool hspool⟩)

theorem Going.step (hg : Going D R config acts s) (hstraight : Straight config s a) (h : AddStep D R config s a t) :
    Going D R config (acts ++ [a]) t := by
  cases h with
  | @file relative file time job hannex h =>
    have hstep := addFile_eq_ok hg.sound.files hstraight h
    have hold : ∀ path ∈ s.job.seen, job.summary.Failed ∨ Marked (acts ++ [.file relative file time]) path ∨
        ∃ other, MetFile (acts ++ [.file relative file time]) other ∧ config.logicalPath other = path ∧
          Handled D config s.projection.db job other :=
      fun path hpath => hg.kept hstep.failed hstep.spool hpath _
    refine ⟨hg.sound, ?_, ?_⟩
    · intro other hmet
      rcases hmet.of_snoc with hmet | ⟨_, _, he⟩
      · exact hstep.keeps _ (hg.met other hmet)
      · cases he
        exact hstep.seen
    · intro path hpath
      rcases hstep.others path hpath with hpath | rfl
      · exact hold path hpath
      · rcases hstep.handled with hseen | hfailed | hhandled
        · exact hold _ hseen
        · exact Or.inl hfailed
        · have hmet : MetFile (acts ++ [.file relative file time]) relative :=
            ⟨file, time, List.mem_append_right _ (List.mem_singleton_self _)⟩
          exact Or.inr (Or.inr ⟨relative, hmet, rfl, hhandled⟩)
  | @other paths items summary hread hchanged =>
    refine ⟨hg.sound, ?_, ?_⟩
    · intro relative hmet
      rcases hmet.of_snoc with hmet | ⟨_, _, he⟩
      · exact List.mem_append_left _ (hg.met relative hmet)
      · cases he
    · intro path hpath
      rcases List.mem_append.mp hpath with hpath | hpath
      · exact hg.kept (fun hfailed => hfailed.mono hread hchanged) (fun _ hi => List.mem_append_left _ hi) hpath _
      · exact Or.inr (Or.inl ⟨paths, List.mem_append_right _ (List.mem_singleton_self _), hpath⟩)
  | applied hp =>
    obtain ⟨hsound, hlasts⟩ := sound_of_path hg.sound hp
    refine ⟨hsound, ?_, ?_⟩
    · intro relative hmet
      rcases hmet.of_snoc with hmet | ⟨_, _, he⟩
      · exact hg.met relative hmet
      · cases he
    · intro path hpath
      rcases hg.seen path hpath with hfailed | hmarked | ⟨relative, hmet, hat, hhandled⟩
      · exact Or.inl hfailed
      · exact Or.inr (Or.inl (hmarked.snoc _))
      · exact Or.inr (Or.inr ⟨relative, hmet.snoc _, hat,
          hhandled.last hg.sound.keyed hsound.keyed hsound.files hlasts⟩)

theorem going_of_path (hs : Standing R s.projection) (hnew : s.job = InventoryJob.new)
    {p : List (AddAct × AddState)} (h : AddPath D R config s p)
    (hstraight : Path (fun s a _ => Straight config s a) s p) :
    Going D R config (p.map Prod.fst) (final s p) := by
  refine Path.label_invariant (P := Going D R config) ?_ ⟨hs, ?_, ?_⟩ (h.and hstraight)
  · intro acts u a v hu hstep
    exact hu.step hstep.2 hstep.1
  · intro relative hmet
    obtain ⟨_, _, hmem⟩ := hmet
    cases hmem
  · intro path hpath
    rw [hnew] at hpath
    cases hpath

/-- No item that was applied gives the id made from the logical path of a file, or from its physical path, to
another path. -/
structure OwnIds (D : Digests) (R : ProjectionRuntime) (config : V2InventoryConfig)
    (history : List AppliedItem) (relative : RelativePath) : Prop where
  file : ∀ place, (place, fileId D config.collectionId (config.logicalPath relative)) ∈ fileLog R history →
    place = (config.collectionId, config.logicalPath relative)
  copy : ∀ objectId place,
    (place, copyId D config.locationId (config.copyPath relative) objectId) ∈ copyLog R history →
      place = (config.locationId, config.copyPath relative)

theorem OwnIds.of_paths {history : List AppliedItem} {first relative : RelativePath}
    (h : OwnIds D R config history relative) (hlogical : config.logicalPath first = config.logicalPath relative)
    (hcopy : config.copyPath first = config.copyPath relative) : OwnIds D R config history first where
  file := by
    rw [hlogical]
    exact h.file
  copy := by
    rw [hcopy]
    exact h.copy

/-- What an item of the spool says is there once it is applied. -/
theorem Announces.applied {t : ProjectionRun} (hs : Standing R t) (hlasts : Lasts db t.db)
    {relative : RelativePath} (hids : OwnIds D R config t.history relative) {item : Json}
    (h : Announces D config db relative item) {o : AppliedItem} (ho : o ∈ t.history)
    (hcarried : ∀ key value, item.get key = some value → o.item.get key = some value) :
    HasFile t.db config (config.logicalPath relative) ∧ HasCopy t.db config (config.copyPath relative) := by
  obtain ⟨file, objectId, hn, hfile⟩ := h
  obtain ⟨⟨f, hf⟩, ⟨place, active⟩, hcopy⟩ := hs.known o ho file _ (hn.carried hcarried)
  have hat : f.at = (config.collectionId, config.logicalPath relative) := by
    rcases hfile with rfl | hstands
    · exact hids.file _ (hs.statedFiles _ f hf)
    · obtain ⟨g, hg, hat⟩ := hstands
      obtain ⟨f', hf', hat'⟩ := hlasts.files file g hg
      rw [hf] at hf'
      cases hf'
      exact hat'.trans hat
  have hplace := hids.copy objectId place (hs.statedCopies _ place active hcopy)
  rw [hplace] at hcopy
  exact ⟨⟨f, Table.mem_of_get? hf, hat, (hs.files file f hf).1⟩, (hasCopy_iff hs.keyed).mpr ⟨_, active, hcopy⟩⟩

end Going

/-- The two prefixes are one, or every file lies below the root; then a logical path belongs to one physical
path. -/
def OnePath (config : V2InventoryConfig) (acts : List AddAct) : Prop :=
  config.locationPrefix.getD [] = config.logicalPrefix.getD [] ∨ ∀ relative, MetFile acts relative → relative ≠ []

theorem OnePath.eq {acts : List AddAct} (h : OnePath config acts) {a b : RelativePath} (ha : MetFile acts a)
    (hb : MetFile acts b) (hlogical : config.logicalPath a = config.logicalPath b) :
    config.copyPath a = config.copyPath b := by
  rcases h with hsame | hbelow
  · rw [copyPath_eq_logicalPath hsame, copyPath_eq_logicalPath hsame, hlogical]
  · exact copyPath_of_logicalPath (hbelow a ha) (hbelow b hb) hlogical

/-- A file with one path that is skipped is recorded, unless a locked annex symlink is recorded at its path; and
a completed job in which no other files are skipped leaves every regular file that it met with a File at its
logical path and a Copy at its physical path. -/
theorem added_recorded (D : Digests) (R : ProjectionRuntime) (config : V2InventoryConfig) (s : ProjectionRun)
    (hs : Projected R s) :
    (∀ relative size modified, config.copyPath relative = config.logicalPath relative →
      ¬ LockedAt s.db config (config.logicalPath relative) →
      copyUnchanged s.db config.collectionId config.locationId (config.copyPath relative) size modified = true →
      ∃ time, modified = some time ∧
        Recorded s.db config (config.logicalPath relative) (config.copyPath relative) size time) ∧
    ∀ (p : List (AddAct × AddState)) (t : ProjectionRun), AddPath D R config ⟨s, .new⟩ p →
      OnePath config (p.map Prod.fst) → Path (fun u a _ => Straight config u a) ⟨s, .new⟩ p →
      Completed R (final ⟨s, .new⟩ p) t →
      ∀ relative file time, AddAct.file relative file time ∈ p.map Prod.fst →
        ¬ Marked (p.map Prod.fst) (config.logicalPath relative) →
        OwnIds D R config t.history relative →
        HasFile t.db config (config.logicalPath relative) ∧ HasCopy t.db config (config.copyPath relative) := by
  constructor
  · intro relative size modified hpath hunlocked hskip
    rw [hpath] at hskip ⊢
    exact (recorded_of_unchanged hs.sound.files hskip).resolve_right hunlocked
  · intro p t hp hone hstraight hcompleted relative file time hact hmarked hids
    have hgoing := going_of_path hs.sound rfl hp hstraight
    obtain ⟨context, q, hq, rfl⟩ := hcompleted.applied
    obtain ⟨hsound, hlasts⟩ := sound_of_path hgoing.sound hq
    have hmet : MetFile (p.map Prod.fst) relative := ⟨file, time, hact⟩
    rcases hgoing.seen _ (hgoing.met relative hmet) with hfailed | hother | ⟨first, hfirst, hat, hhandled⟩
    · have hread := hcompleted.readErrors
      have hchanged := hcompleted.concurrentChanges
      unfold V2InventorySummary.Failed at hfailed
      omega
    · exact absurd hother hmarked
    · -- the file that was met first at the logical path has the same physical path
      have hcopy := hone.eq hfirst hmet hat
      have hids := hids.of_paths hat hcopy
      rw [← hat, ← hcopy]
      rcases hhandled with ⟨hfile, hcopies⟩ | ⟨item, hmem, hitem⟩
      · exact ⟨hfile.last hsound.files hlasts, hcopies.last hgoing.sound.keyed hsound.keyed hlasts⟩
      · obtain ⟨o, ho, hcarried⟩ := hcompleted.spool item hmem
        exact hitem.applied hsound hlasts hids ho hcarried

/-! ### A skipped file that is not recorded -/

namespace Sample

open ArchiveLedger.Sample

/-- An object observed at a path, as a File and as a Copy, with a modification time. -/
def keptItem : Json :=
  match observedFile 1 "file_1" "b/x" 1 "copy_1" "b/x" with
  | .obj fields => .obj (fields ++ [("modified_time_utc_ms", .num "9")])
  | item => item

def kept : ProjectedBatch := ⟨1, 1, 0, 0, [keptItem]⟩

def keptContext : V2VerificationContext := contextOf [[]]

/-- The registry with a filesystem, and no facts. -/
def filesystem : Projection :=
  let disk := location 1
  let disk := { disk with snapshot := { disk.snapshot with kind := "filesystem" } }
  { registry with locations := Table.empty.insertOrIgnore disk }

/-- The projection when the item begins. -/
def keptBegun : Projection :=
  ((commitAll (Projection.projectRecord projectionRuntime keptContext) filesystem [ArchiveLedger.Sample.startRecord kept]).bind
    fun db => (db.insertRecord (ArchiveLedger.Sample.chunkRecord kept)).map Prod.fst).toOption.getD filesystem

def keptActs : List ProjectionAct := [.item ⟨ArchiveLedger.Sample.chunkRecord kept, keptItem⟩ 0]

/-- An addition of the directory at one path of the Location under one path of the Collection. -/
def addition (above logical : RelativePath) : V2InventoryConfig where
  locationPrefix := some above
  logicalPrefix := some logical
  collectionId := collectionId
  locationId := locationId 1
  deviceFingerprintStatus := "match"
  jobId := "job_1"
  scanId := "scan_1"
  scanMode := .add
  batchEntries := 1
  acceptChanges := []

def x : RelativePath := [utf8 "x"]

def keptFile : DiscoveredFile := ⟨1, some 9, .ok (), .readError, .ok ()⟩

def keptDigests : Digests := ⟨fun _ => utf8 "cc", fun _ => [], fun _ => []⟩

/-- A walk that meets the file alone. -/
def keptWalk (db : Projection) (config : V2InventoryConfig) : Except V2InventoryError InventoryJob :=
  addFile keptDigests db config .new x keptFile 0

/-- The one File stands at "b/x", no locked annex symlink is recorded, and the items name no ids made from
paths. -/
def keptAlone (s : ProjectionRun) : Bool :=
  (s.db.fileObjects.rows.all fun f => f.at = (collectionId, stored [utf8 "b", utf8 "x"])) &&
    (s.db.fileLocations.rows.all fun p => p.representation ≠ "annex_locked_symlink") &&
    ((fileLog projectionRuntime s.history).all fun e => e.2 ≠ "file_cc") &&
    (copyLog projectionRuntime s.history).all fun e => e.2 ≠ "copy_cc"

/-- An addition is accepted, and its walk skips the file. -/
def skipsKept (db : Projection) (config : V2InventoryConfig) : Bool :=
  decide (validateConfig config = .ok ()) && decide (validateScope db config = .ok ()) &&
    decide (hasAnnexEntry db config (config.logicalPath x) = false) &&
    copyUnchanged db config.collectionId config.locationId (config.copyPath x) 1 (some 9) &&
    (keptWalk db config).toOption.any fun job =>
      job.summary.readErrors = 0 && job.summary.concurrentChanges = 0 && job.spool.isEmpty

theorem kept_run : ∃ s, Projected projectionRuntime s ∧ keptAlone s = true ∧
    skipsKept s.db (addition [utf8 "b"] [utf8 "b"]) = true ∧
    skipsKept s.db (addition [utf8 "b"] [utf8 "a"]) = true := by
  have hbegun : Projected projectionRuntime ⟨keptBegun, []⟩ := .empty (by decide +kernel) (by decide +kernel)
  have hacts : ∃ t, commitAll (fun s a => ProjectionRun.next projectionRuntime keptContext s a)
      ⟨keptBegun, []⟩ keptActs = .ok t ∧ (keptAlone t && skipsKept t.db (addition [utf8 "b"] [utf8 "b"]) &&
        skipsKept t.db (addition [utf8 "b"] [utf8 "a"])) = true := exists_ok_of_any (by decide +kernel)
  obtain ⟨t, hrun, hkept⟩ := hacts
  obtain ⟨p, -, hp, rfl⟩ := path_of_acts hrun
  rw [Bool.and_eq_true, Bool.and_eq_true] at hkept
  exact ⟨_, hbegun.path hp, hkept.1.1, hkept.1.2, hkept.2⟩

/-- The job of an addition that skips the file is a completed one. -/
theorem skipsKept_completed {s : ProjectionRun} {config : V2InventoryConfig} (h : skipsKept s.db config = true) :
    validateConfig config = .ok () ∧ validateScope s.db config = .ok () ∧
    hasAnnexEntry s.db config (config.logicalPath x) = false ∧
    copyUnchanged s.db config.collectionId config.locationId (config.copyPath x) 1 (some 9) = true ∧
    ∃ job, AddPath keptDigests projectionRuntime config ⟨s, .new⟩ [(.file x keptFile 0, ⟨s, job⟩)] ∧
      Completed projectionRuntime ⟨s, job⟩ s := by
  simp only [skipsKept, Bool.and_eq_true, decide_eq_true_eq] at h
  obtain ⟨⟨⟨⟨hconfig, hscope⟩, hannex⟩, hskip⟩, hwalk⟩ := h
  obtain ⟨job, hjob, htest⟩ := exists_ok_of_any hwalk
  simp only [Bool.and_eq_true, decide_eq_true_eq] at htest
  obtain ⟨⟨hread, hchanged⟩, hspool⟩ := htest
  refine ⟨hconfig, hscope, hannex, hskip, job, ⟨.file hannex hjob, trivial⟩, ?_⟩
  refine ⟨hread, hchanged, ⟨keptContext, [], trivial, rfl⟩, ?_⟩
  intro item hitem
  rw [List.isEmpty_iff.mp hspool] at hitem
  cases hitem

/-- The file at "b/x" of the Location is skipped, and the Collection has no File at its path "a/x". -/
theorem skipped_unrecorded : ∃ s config job, Projected projectionRuntime s ∧ validateConfig config = .ok () ∧
    validateScope s.db config = .ok () ∧ hasAnnexEntry s.db config (config.logicalPath x) = false ∧
    copyUnchanged s.db config.collectionId config.locationId (config.copyPath x) 1 (some 9) = true ∧
    AddPath keptDigests projectionRuntime config ⟨s, .new⟩ [(.file x keptFile 0, ⟨s, job⟩)] ∧
    Completed projectionRuntime ⟨s, job⟩ s ∧ ¬ HasFile s.db config (config.logicalPath x) := by
  obtain ⟨s, hs, halone, -, hskips⟩ := kept_run
  obtain ⟨hconfig, hscope, hannex, hskip, job, hpath, hcompleted⟩ := skipsKept_completed hskips
  refine ⟨s, _, job, hs, hconfig, hscope, hannex, hskip, hpath, hcompleted, ?_⟩
  intro hfile
  obtain ⟨f, hf, hat, -⟩ := hfile
  simp only [keptAlone, Bool.and_eq_true, List.all_eq_true, decide_eq_true_eq] at halone
  have he := (halone.1.1.1 f hf).symm.trans hat
  revert he
  decide

/-- The file at "b/x" of the Location is skipped, and is recorded at the path "b/x" of the Collection. -/
theorem skipped_recorded : ∃ s config, Projected projectionRuntime s ∧
    copyUnchanged s.db config.collectionId config.locationId (config.copyPath x) 1 (some 9) = true ∧
    (∃ time, Recorded s.db config (config.logicalPath x) (config.copyPath x) 1 time) ∧
    HasFile s.db config (config.logicalPath x) ∧ HasCopy s.db config (config.copyPath x) := by
  obtain ⟨s, hs, halone, hskips, -⟩ := kept_run
  obtain ⟨-, -, -, hskip, job, hpath, hcompleted⟩ := skipsKept_completed hskips
  simp only [keptAlone, Bool.and_eq_true, List.all_eq_true, decide_eq_true_eq] at halone
  have hunlocked : ¬ LockedAt s.db (addition [utf8 "b"] [utf8 "b"])
      ((addition [utf8 "b"] [utf8 "b"]).logicalPath x) := by
    intro h
    obtain ⟨_, _, _, p, hp, _, hlocked⟩ := h
    exact halone.1.1.2 p hp hlocked
  have h := added_recorded keptDigests projectionRuntime (addition [utf8 "b"] [utf8 "b"]) s hs
  obtain ⟨time, -, hrecorded⟩ := h.1 x 1 (some 9) rfl hunlocked hskip
  refine ⟨s, _, hs, hskip, ⟨time, hrecorded⟩, h.2 _ s hpath (Or.inl rfl) ⟨fun _ => ⟨rfl, hunlocked⟩, trivial⟩
    hcompleted x keptFile 0 (List.mem_singleton_self _) ?_ ⟨?_, ?_⟩⟩
  · intro hmarked
    obtain ⟨paths, hmem, -⟩ := hmarked
    cases List.mem_singleton.mp hmem
  · intro place hplace
    exact absurd rfl (halone.1.2 _ hplace)
  · intro objectId place hplace
    exact absurd rfl (halone.2 _ hplace)

end Sample

end ArchiveLedger.V2Inventory
