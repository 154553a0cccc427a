import ArchiveLedger.Inventory.Passes

/-!
# What a scan has come to

The discovery yields files of the tree, each once, and with safe items it yields all of them
(`mem_discovered`).  `Scanned` is the invariant of the loop of a scan: the files of the items so
far are the checks that were submitted and the ones in the batch, in order, and the submitted ones
make a pass.  A step keeps it (`scanned_item`), and so does the loop (`scanned_scan`).
-/

namespace ArchiveLedger.Inventory

open Relational Outcome Discovery Transition FileTree

variable {config : InventoryConfig} {jobId : String} {tree : Tree} {env : Surroundings}
  {maxItems : Option Nat}

/-! ### The files of the tree -/

/-- A regular file of the tree outside repository metadata and repair quarantine. -/
def Tree.Holds (tree : Tree) (root path : RelativePath) (f : RegularFile) : Prop :=
  (∃ p ∈ tree.listing.entries [] [], p.path = path ∧ p.entry = .file f) ∧
    ∀ name ∈ root ++ path, name ≠ utf8 ".git" ∧ name ≠ utf8 ".archive-ledger"

theorem Tree.Holds.good {root path : RelativePath} {f : RegularFile} (h : tree.Holds root path f) :
    ∀ name ∈ path, GoodName name := by
  obtain ⟨⟨p, hp, rfl, -⟩, -⟩ := h
  exact good_of_mem tree.proper (fun _ hname => absurd hname List.not_mem_nil) hp

theorem not_metadata_of_not_excluded {fd : FileDiscovery} {path : RelativePath}
    (h : fd.isExcluded path = false) :
    ∀ name ∈ fd.root ++ path, name ≠ utf8 ".git" ∧ name ≠ utf8 ".archive-ledger" := by
  rw [FileDiscovery.isExcluded, Bool.or_eq_false_iff, List.any_eq_false] at h
  intro name hname
  simpa using h.1 name hname

theorem not_excluded_of_not_metadata {fd : FileDiscovery} {path : RelativePath} (hexclusions : fd.exclusions = [])
    (h : ∀ name ∈ fd.root ++ path, name ≠ utf8 ".git" ∧ name ≠ utf8 ".archive-ledger") :
    fd.isExcluded path = false := by
  rw [FileDiscovery.isExcluded, Bool.or_eq_false_iff, List.any_eq_false, hexclusions]
  refine ⟨fun name hname => ?_, rfl⟩
  simpa using h name hname

theorem fileAt_eq_some {fd : FileDiscovery} {p : Placed Name DirectoryAttributes (DirEntry RegularFile Unit)}
    {path : RelativePath} {f : RegularFile} :
    fd.fileAt p = some (path, f) ↔ p.path = path ∧ p.entry = .file f ∧ fd.isExcluded path = false := by
  unfold FileDiscovery.fileAt
  split
  · rename_i g hg
    rw [hg]
    split
    · rename_i hexcluded
      refine iff_of_false nofun ?_
      rintro ⟨rfl, -, hno⟩
      rw [hexcluded] at hno
      cases hno
    · rename_i hincluded
      rw [Bool.not_eq_true] at hincluded
      simp only [Option.some.injEq, Prod.mk.injEq, DirEntry.file.injEq]
      constructor
      · rintro ⟨rfl, rfl⟩
        exact ⟨rfl, rfl, hincluded⟩
      · rintro ⟨rfl, rfl, -⟩
        exact ⟨rfl, rfl⟩
  · rename_i hno
    exact iff_of_false nofun fun h => hno f h.2.1

theorem discover_files (fd : FileDiscovery) (tree : Tree) :
    (fd.discover tree.changed tree.listing).filterMap DiscoveryItem.file? =
      (tree.listing.visited fd.enters [] []).filterMap fd.fileAt := by
  rw [FileDiscovery.discover, List.filterMap_append, files_of_items tree.listing [] []]
  have hroot : (if tree.changed then [DiscoveryItem.concurrentChange (φ := RegularFile) (σ := Unit) none]
      else []).filterMap DiscoveryItem.file? = [] := by
    split <;> rfl
  rw [hroot, List.append_nil]

/-- What the discovery yields is of the tree. -/
theorem holds_of_discovered {fd : FileDiscovery} {e : RelativePath × RegularFile}
    (h : e ∈ (fd.discover tree.changed tree.listing).filterMap DiscoveryItem.file?) :
    tree.Holds fd.root e.1 e.2 := by
  rw [discover_files] at h
  obtain ⟨p, hp, hat⟩ := List.mem_filterMap.mp h
  obtain ⟨hpath, hentry, hincluded⟩ := fileAt_eq_some.mp hat
  exact ⟨⟨p, (visited_sublist tree.listing [] []).subset hp, hpath, hentry⟩,
    not_metadata_of_not_excluded hincluded⟩

theorem discovered_paths_nodup (fd : FileDiscovery) (tree : Tree) :
    (((fd.discover tree.changed tree.listing).filterMap DiscoveryItem.file?).map Prod.fst).Nodup := by
  rw [discover_files]
  have hsub : (((tree.listing.visited fd.enters [] []).filterMap fd.fileAt).map Prod.fst).Sublist
      ((tree.listing.entries [] []).map Placed.path) := by
    have hvisited := (@visited_sublist _ _ _ fd.enters tree.listing [] []).map Placed.path
    refine List.Sublist.trans ?_ hvisited
    generalize tree.listing.visited fd.enters [] [] = l
    induction l with
    | nil => exact List.Sublist.refl _
    | cons p rest ih =>
      rw [List.filterMap_cons, List.map_cons]
      cases hat : fd.fileAt p with
      | none => exact ih.cons _
      | some e =>
        obtain ⟨hpath, -, -⟩ := fileAt_eq_some.mp (show fd.fileAt p = some (e.1, e.2) from hat)
        rw [List.map_cons, ← hpath]
        exact ih.cons_cons _
  exact hsub.nodup (paths_nodup tree.proper [] [])

/-- An item behind which nothing can be hidden. -/
def Safe : DiscoveryItem RegularFile Unit → Prop
  | .file _ _ | .symlink _ _ | .excluded _ => True
  | _ => False

/-- **With safe items and no exclusions the discovery yields every file of the tree.** -/
theorem mem_discovered {fd : FileDiscovery} (hexclusions : fd.exclusions = [])
    (hsafe : ∀ item ∈ fd.discover tree.changed tree.listing, Safe item) {path : RelativePath}
    {f : RegularFile} (h : tree.Holds fd.root path f) :
    (path, f) ∈ (fd.discover tree.changed tree.listing).filterMap DiscoveryItem.file? := by
  obtain ⟨⟨p, hp, rfl, hentry⟩, hmetadata⟩ := h
  have hincluded := not_excluded_of_not_metadata hexclusions hmetadata
  rw [discover_files, List.mem_filterMap]
  refine ⟨p, ?_, fileAt_eq_some.mpr ⟨rfl, hentry, hincluded⟩⟩
  rcases @visited_or_blocked _ _ _ fd.enters _ _ _ _ hp with hin | ⟨x, hx, hreached, hnot⟩
  · exact hin
  · exfalso
    cases hitem : fd.directoryItem? (φ := RegularFile) (σ := Unit) x.1 x.2 with
    | none =>
      rw [enters_iff.mpr hitem] at hnot
      cases hnot
    | some item =>
      have hmem : item ∈ fd.discover tree.changed tree.listing :=
        List.mem_append_left _ (directoryItem_mem hreached hitem)
      have hinit := (above_isPrefix (fun _ hm => absurd hm List.not_mem_nil) hp).2 x hx
      have hvisible : fd.isExcluded x.1 = false := by
        rw [Bool.eq_false_iff]
        intro hexcluded
        have habove := isExcluded_of_prefix hinit hexcluded
        exact Bool.false_ne_true (hincluded.symm.trans habove)
      have hnothing := hsafe item hmem
      unfold FileDiscovery.directoryItem? at hitem
      rw [if_neg (by simp [hvisible])] at hitem
      split at hitem
      · cases hitem
        exact hnothing
      · split at hitem
        · cases hitem
          exact hnothing
        · split at hitem
          · cases hitem
            exact hnothing
          · cases hitem

/-! ### The loop -/

/-- The check of a file. -/
def Check.reads (tree : Tree) (k : Check) (e : RelativePath × RegularFile) : Prop :=
  k.path = e.1 ∧ k.result = readFile tree e.2

structure Scanned (config : InventoryConfig) (jobId : String) (tree : Tree) (env : Surroundings)
    (c₀ : Catalog) (files : List (RelativePath × RegularFile)) (flushed pending : List Check)
    (st : ScanState) : Prop where
  checks : List.Forall₂ (Check.reads tree) (flushed ++ pending) files
  batch : st.batch = pending.map (Check.observation config jobId env.lossy)
  passed : Passed config jobId c₀ flushed st.catalog
  ids : FreshIds (fun n => env.newId (st.submitted + n)) st.catalog
  readable : st.summary.readErrors = 0 → ∀ e ∈ files, ∃ blake3 sizeBytes,
    readFile tree e.2 = .checksum blake3 sizeBytes

/-- The paths of files are of different objects. -/
def Distinct (config : InventoryConfig) (files : List (RelativePath × RegularFile)) : Prop :=
  (files.map fun e => objectPath config e.1).Nodup

theorem Distinct.of_init {files all : List (RelativePath × RegularFile)} (h : Distinct config all)
    (hinit : files <+: all) : Distinct config files :=
  List.Sublist.nodup (hinit.sublist.map _) h

section Loop

variable {c₀ : Catalog} {files : List (RelativePath × RegularFile)} {flushed pending : List Check}
  {st st' : ScanState}

theorem Scanned.paths (h : Scanned config jobId tree env c₀ files flushed pending st) :
    ((flushed ++ pending).map fun k => objectPath config k.path) = files.map fun e => objectPath config e.1 := by
  have hchecks := h.checks
  clear h
  generalize flushed ++ pending = checks at hchecks
  induction hchecks with
  | nil => rfl
  | cons hread _ ih => rw [List.map_cons, List.map_cons, hread.1, ih]

theorem count_readErrors (outcomes : List ObservationOutcome) (s : InventorySummary) :
    (outcomes.foldl InventorySummary.count s).readErrors = s.readErrors := by
  induction outcomes generalizing s with
  | nil => rfl
  | cons o rest ih =>
    rw [List.foldl_cons, ih]
    unfold InventorySummary.count
    split <;> rfl

/-- What a flush leaves. -/
theorem flushInventory_eq_ok (h : flushInventory env st = .ok st') :
    ∃ outcomes changed tx,
      observeLoop (fun n => env.newId (st.submitted + n)) st.catalog st.batch = .ok (outcomes, changed, tx) ∧
      st'.catalog = (if changed then tx.bumpRevision else tx) ∧ st'.batch = [] ∧
      st'.submitted = st.submitted + st.batch.length ∧ st'.unsafeCoverage = st.unsafeCoverage ∧
      st'.summary.readErrors = st.summary.readErrors := by
  unfold flushInventory at h
  split at h
  · rename_i outcomes d hbatch
    obtain ⟨changed, tx, hloop, hd⟩ := observeBatch_eq_ok.mp hbatch
    cases h
    exact ⟨outcomes, changed, tx, hloop, hd, rfl, rfl, rfl, count_readErrors _ _⟩
  · cases h

/-- **A flush.** -/
theorem scanned_flush (hdistinct : Distinct config files)
    (hst : Scanned config jobId tree env c₀ files flushed pending st) (h : flushInventory env st = .ok st') :
    Scanned config jobId tree env c₀ files (flushed ++ pending) [] st' := by
  obtain ⟨outcomes, changed, tx, hloop, hcatalog, hbatch, hsubmitted, -, hreads⟩ := flushInventory_eq_ok h
  have hpaths : ((flushed ++ pending).map fun k => objectPath config k.path).Nodup := by
    rw [hst.paths]
    exact hdistinct
  rw [hst.batch] at hloop
  obtain ⟨hpassed, hids⟩ := passed_observeLoop hpaths hst.ids hloop hst.passed
  have hshift : (fun n => env.newId (st'.submitted + n)) =
      fun n => env.newId (st.submitted + (pending.length + n)) := by
    funext n
    rw [hsubmitted, hst.batch, List.length_map, Nat.add_assoc]
  refine ⟨by simpa using hst.checks, hbatch, ?_, ?_, by rw [hreads]; exact hst.readable⟩
  · rw [hcatalog]
    split
    · exact hpassed.bump
    · exact hpassed
  · rw [hcatalog, hshift]
    split
    · exact ⟨hids.differ, hids.unused⟩
    · exact hids

/-- The read of a file adds a check to the batch. -/
theorem scanned_read {path : RelativePath} {f : RegularFile} {time newWork : Nat}
    (hst : Scanned config jobId tree env c₀ files flushed pending st) :
    Scanned config jobId tree env c₀ (files ++ [(path, f)]) flushed (pending ++ [⟨path, readFile tree f, time⟩])
      { st with
        newWork := newWork
        summary := st.summary.read (readFile tree f)
        batch := st.batch ++ [(⟨path, readFile tree f, time⟩ : Check).observation config jobId env.lossy] } := by
  refine ⟨?_, ?_, hst.passed, hst.ids, ?_⟩
  · rw [← List.append_assoc]
    exact List.rel_append hst.checks (.cons ⟨rfl, rfl⟩ .nil)
  · rw [List.map_append, hst.batch]
    rfl
  · intro herrors
    unfold InventorySummary.read at herrors
    split at herrors
    · rename_i blake3 sizeBytes hread
      intro e he
      rcases List.mem_append.mp he with he | he
      · exact hst.readable herrors e he
      · rw [List.mem_singleton.mp he]
        exact ⟨blake3, sizeBytes, hread⟩
    · cases herrors

/-- What holds where the loop stands: of all the files so far while it goes on, and of the first of
them where it stopped. -/
def Reached.Tells (config : InventoryConfig) (jobId : String) (tree : Tree) (env : Surroundings)
    (c₀ : Catalog) (files : List (RelativePath × RegularFile)) (safe : Prop) : Reached → Prop
  | .more st => (∃ flushed pending, Scanned config jobId tree env c₀ files flushed pending st) ∧
      (st.unsafeCoverage = false → safe)
  | .paused st | .failed _ st =>
      ∃ first flushed pending, first <+: files ∧ Scanned config jobId tree env c₀ first flushed pending st

/-- A file. -/
theorem scanned_file {path : RelativePath} {f : RegularFile} (hdistinct : Distinct config (files ++ [(path, f)]))
    (hst : Scanned config jobId tree env c₀ files flushed pending st) :
    (scanFile config jobId tree env maxItems st path f).Tells config jobId tree env c₀ (files ++ [(path, f)])
      (st.unsafeCoverage = false) := by
  unfold scanFile
  dsimp only
  split
  · exact ⟨files, flushed, pending, List.prefix_append _ _, hst⟩
  · have hread := @scanned_read config jobId tree env c₀ files flushed pending st path f
      (env.checkedUtcMs st.summary.filesObserved)
      (if processed st.catalog jobId (objectPath config path) then st.newWork else st.newWork + 1) hst
    split
    · split
      · rename_i st' hflush
        refine ⟨⟨_, _, scanned_flush hdistinct hread hflush⟩, fun hsafe => ?_⟩
        obtain ⟨-, -, -, -, -, -, -, hsame, -⟩ := flushInventory_eq_ok hflush
        exact hsame.symm.trans hsafe
      · exact ⟨_, _, _, List.prefix_rfl, hread⟩
    · exact ⟨⟨_, _, hread⟩, id⟩

/-- **An item.** -/
theorem scanned_item {item : DiscoveryItem RegularFile Unit}
    (hdistinct : Distinct config (files ++ item.file?.toList))
    (hst : Scanned config jobId tree env c₀ files flushed pending st) :
    (scanItem config jobId tree env maxItems st item).Tells config jobId tree env c₀ (files ++ item.file?.toList)
      (st.unsafeCoverage = false ∧ Safe item) := by
  have hsame : ∀ summary coverage, summary.readErrors = st.summary.readErrors →
      Scanned config jobId tree env c₀ (files ++ []) flushed pending
        { st with summary := summary, unsafeCoverage := coverage } := by
    intro summary coverage hreads
    rw [List.append_nil]
    exact ⟨hst.checks, hst.batch, hst.passed, hst.ids, fun h => hst.readable (hreads.symm.trans h)⟩
  have hskip : ∀ summary, summary.readErrors = st.summary.readErrors →
      (Reached.more { st with summary := summary, unsafeCoverage := true }).Tells config jobId tree env c₀
        (files ++ []) (st.unsafeCoverage = false ∧ Safe item) :=
    fun summary hreads => ⟨⟨_, _, hsame summary true hreads⟩, fun h => absurd h.symm Bool.false_ne_true⟩
  cases item with
  | file path f =>
    have hfile := @scanned_file config jobId tree env maxItems c₀ files flushed pending st path f hdistinct hst
    show Reached.Tells config jobId tree env c₀ (files ++ [(path, f)]) _
      (scanFile config jobId tree env maxItems st path f)
    cases hreached : scanFile config jobId tree env maxItems st path f with
    | more st' =>
      rw [hreached] at hfile
      exact ⟨hfile.1, fun h => ⟨hfile.2 h, trivial⟩⟩
    | paused st' => rw [hreached] at hfile; exact hfile
    | failed e st' => rw [hreached] at hfile; exact hfile
  | symlink path link => exact ⟨⟨_, _, hsame _ st.unsafeCoverage rfl⟩, fun h => ⟨h, trivial⟩⟩
  | excluded path => exact ⟨⟨_, _, hsame st.summary st.unsafeCoverage rfl⟩, fun h => ⟨h, trivial⟩⟩
  | error path => exact hskip _ rfl
  | concurrentChange path => exact hskip _ rfl
  | filesystemBoundary path => exact hskip st.summary rfl
  | special path => exact hskip st.summary rfl

/-- **The loop.** -/
theorem scanned_scan {items : List (DiscoveryItem RegularFile Unit)}
    (hdistinct : Distinct config (files ++ items.filterMap DiscoveryItem.file?))
    (hst : Scanned config jobId tree env c₀ files flushed pending st) :
    (scan config jobId tree env maxItems st items).Tells config jobId tree env c₀
      (files ++ items.filterMap DiscoveryItem.file?)
      (st.unsafeCoverage = false ∧ ∀ item ∈ items, Safe item) := by
  induction items generalizing files flushed pending st with
  | nil =>
    rw [List.filterMap_nil, List.append_nil]
    exact ⟨⟨_, _, hst⟩, fun h => ⟨h, fun item hitem => absurd hitem List.not_mem_nil⟩⟩
  | cons item rest ih =>
    have hfiles : files ++ (item :: rest).filterMap DiscoveryItem.file? =
        (files ++ item.file?.toList) ++ rest.filterMap DiscoveryItem.file? := by
      rw [List.filterMap_cons, List.append_assoc]
      cases item.file? <;> rfl
    have hinit : files ++ item.file?.toList <+: files ++ (item :: rest).filterMap DiscoveryItem.file? := by
      rw [hfiles]
      exact List.prefix_append _ _
    have hitem := @scanned_item config jobId tree env maxItems c₀ files flushed pending st item
      (hdistinct.of_init hinit) hst
    rw [scan]
    cases hreached : scanItem config jobId tree env maxItems st item with
    | more st' =>
      rw [hreached] at hitem
      obtain ⟨⟨flushed', pending', hst'⟩, hsafe⟩ := hitem
      rw [hfiles] at hdistinct ⊢
      have hrest := ih hdistinct hst'
      dsimp only
      cases hend : scan config jobId tree env maxItems st' rest with
      | more last =>
        rw [hend] at hrest
        refine ⟨hrest.1, fun h => ?_⟩
        obtain ⟨hcoverage, hall⟩ := hrest.2 h
        obtain ⟨hbefore, hfirst⟩ := hsafe hcoverage
        exact ⟨hbefore, List.forall_mem_cons.mpr ⟨hfirst, hall⟩⟩
      | paused last => rw [hend] at hrest; exact hrest
      | failed e last => rw [hend] at hrest; exact hrest
    | paused st' =>
      rw [hreached] at hitem
      obtain ⟨first, flushed', pending', hfirst, hst'⟩ := hitem
      exact ⟨first, flushed', pending', hfirst.trans hinit, hst'⟩
    | failed e st' =>
      rw [hreached] at hitem
      obtain ⟨first, flushed', pending', hfirst, hst'⟩ := hitem
      exact ⟨first, flushed', pending', hfirst.trans hinit, hst'⟩

end Loop

end ArchiveLedger.Inventory
