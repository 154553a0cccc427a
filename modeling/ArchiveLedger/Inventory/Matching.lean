import ArchiveLedger.Inventory.Coverage

/-!
# A complete scan matches the disk

A run keeps every expectation that exists, and gives one only to a file without one: its content
(`keeps_of_leaves`).  A run that ends `complete` has checked every file of the tree in its last pass,
so the catalog matches the tree (`matches_of_complete`), whatever the earlier runs of the job left and
whatever other jobs wrote in between.  Only expectations carry over from before: another job that
observes a path at another Location of the Collection may set the expectation of its object first.
-/

namespace ArchiveLedger.Inventory

open Relational Outcome Discovery Transition FileTree

section Matching

variable {config : InventoryConfig} {jobId : String} {tree : Tree} {env : Surroundings}
  {maxItems : Option Nat}

/-! ### Expectations -/

theorem expectationAt_congr {c d : Catalog} (h : d.objects = c.objects) (path : ObjectPath) :
    expectationAt d path = expectationAt c path := by
  rw [expectationAt, expectationAt, Catalog.objectAt, Catalog.objectAt, h]

/-- Expectations that existed stay, and a new one is the content of a file of the tree. -/
def Keeps (config : InventoryConfig) (tree : Tree) (c d : Catalog) : Prop :=
  ∀ path, expectationAt d path = expectationAt c path ∨
    expectationAt c path = none ∧ ∃ p f blake3 sizeBytes, tree.Holds config.root p f ∧
      objectPath config p = path ∧ f.content = some (blake3, sizeBytes) ∧ expectationAt d path = some blake3

theorem Keeps.refl (c : Catalog) : Keeps config tree c c := fun _ => .inl rfl

theorem Keeps.congr {c d e : Catalog} (h : Keeps config tree c d) (hobjects : e.objects = d.objects) :
    Keeps config tree c e := by
  intro path
  rw [expectationAt_congr hobjects]
  exact h path

theorem content_of_readFile {f : RegularFile} {blake3 : Digest} {sizeBytes : Nat}
    (h : readFile tree f = .checksum blake3 sizeBytes) : f.content = some (blake3, sizeBytes) := by
  unfold readFile at h
  split at h
  · cases h
  · split at h
    · rename_i hcontent
      cases h
      exact hcontent
    · cases h

theorem keeps_of_passed {c₀ c d : Catalog} {done : List Check} (hobjects : c₀.objects = c.objects)
    (hread : ∀ k ∈ done, ∃ f, tree.Holds config.root k.path f ∧ k.result = readFile tree f)
    (h : Passed config jobId c₀ done d) : Keeps config tree c d := by
  intro path
  rw [← expectationAt_congr hobjects path]
  by_cases hchecked : ∃ k ∈ done, objectPath config k.path = path
  · obtain ⟨k, hk, rfl⟩ := hchecked
    obtain ⟨f, hholds, hresult⟩ := hread k hk
    rw [h.expects k hk]
    cases hk : k.result with
    | checksum blake3 sizeBytes =>
      cases hbefore : expectationAt c₀ (objectPath config k.path) with
      | some e => exact .inl rfl
      | none =>
        exact .inr ⟨rfl, k.path, f, blake3, sizeBytes, hholds, rfl,
          content_of_readFile (hresult.symm.trans hk), rfl⟩
    | _ => exact .inl rfl
  · left
    rw [expectationAt, expectationAt, h.kept path fun k hk heq => hchecked ⟨k, hk, heq⟩]

/-! ### Runs -/

theorem openScan_eq_ok {c d : Catalog} {status : JobStatus} (h : openScan config jobId env c = .ok (status, d)) :
    d.objects = c.objects ∧ d.files = c.files ∧
      (status = .running → ∃ e, resetScanCoverage e jobId = .ok d) := by
  unfold openScan at h
  split at h
  · cases h
  · split at h
    · cases h
    · obtain ⟨params, -, h⟩ := bind_eq_ok.mp h
      obtain ⟨⟨s, e⟩, hbegin, h⟩ := bind_eq_ok.mp h
      have hbegun : e.objects = c.objects ∧ e.files = c.files := by
        rcases beginCatalogJob_eq_ok (ok_of_mapError hbegin) with ⟨job, -, rfl⟩ | ⟨-, -, t, rfl⟩
        · exact ⟨rfl, rfl⟩
        · exact ⟨rfl, rfl⟩
      dsimp only at h
      split at h
      · rename_i hstopped
        cases h
        exact ⟨hbegun.1, hbegun.2, fun hrunning => absurd hrunning hstopped⟩
      · obtain ⟨reset, hreset, h⟩ := bind_eq_ok.mp h
        have hreset := ok_of_mapError hreset
        obtain ⟨-, hd⟩ := resetScanCoverage_eq_ok.mp hreset
        cases h
        refine ⟨?_, ?_, fun _ => ⟨e, hreset⟩⟩
        · rw [hd]
          exact hbegun.1
        · rw [hd]
          exact hbegun.2

theorem beginCatalogJob_objects {c d : Catalog} {id kind : String} {params : Json} {time : Nat}
    {status : JobStatus} (h : beginCatalogJob c id kind params time = .ok (status, d)) :
    d.objects = c.objects := by
  rcases beginCatalogJob_eq_ok h with ⟨job, -, rfl⟩ | ⟨-, -, t, rfl⟩
  · rfl
  · rfl

theorem closeScan_objects (paused : Bool) (st : ScanState) :
    (closeScan config jobId env paused st).2.objects = st.catalog.objects := by
  unfold closeScan
  split
  · split
    · rename_i c hc
      obtain ⟨-, rfl⟩ := checkpointCatalogJob_eq_ok.mp hc
      rfl
    · rfl
  · split
    · rename_i missing c hc
      cases hclean : clean config st with
      | true =>
        rw [hclean] at hc
        obtain ⟨-, -, -, -, rfl⟩ := finishCatalogScan_complete.mp hc
        rfl
      | false =>
        rw [hclean] at hc
        obtain ⟨-, -, -, rfl⟩ := finishCatalogScan_incomplete.mp hc
        rfl
    · rfl

theorem discovered_eq_ok {items : List (DiscoveryItem RegularFile Unit)} (h : discovered config tree = .ok items) :
    ∃ fd : FileDiscovery, fd.root = config.root ∧ fd.exclusions = config.exclusions ∧
      items = fd.discover tree.changed tree.listing := by
  unfold discovered withExclusions at h
  split at h
  · rename_i fd hfd
    split at hfd
    · cases hfd
    · cases hfd
      cases h
      exact ⟨_, rfl, rfl, rfl⟩
  · cases h

section Run

variable {c opened : Catalog} {items : List (DiscoveryItem RegularFile Unit)}

theorem holds_of_items (hitems : discovered config tree = .ok items) :
    ∀ e ∈ items.filterMap DiscoveryItem.file?, tree.Holds config.root e.1 e.2 := by
  obtain ⟨fd, hroot, -, rfl⟩ := discovered_eq_ok hitems
  intro e he
  rw [← hroot]
  exact holds_of_discovered he

theorem distinct_items (hitems : discovered config tree = .ok items) :
    Distinct config (items.filterMap DiscoveryItem.file?) := by
  have hgood : ∀ path ∈ (items.filterMap DiscoveryItem.file?).map Prod.fst, ∀ name ∈ path, GoodName name := by
    intro path hpath
    obtain ⟨e, he, rfl⟩ := List.mem_map.mp hpath
    exact (holds_of_items hitems e he).good
  have hpaths : ((items.filterMap DiscoveryItem.file?).map Prod.fst).Nodup := by
    obtain ⟨fd, -, -, rfl⟩ := discovered_eq_ok hitems
    exact discovered_paths_nodup fd tree
  have hmap := List.Nodup.map_on (f := objectPath config)
    (fun p hp q hq h => objectPath_inj (hgood p hp) (hgood q hq) h) hpaths
  rw [List.map_map] at hmap
  exact hmap

theorem scanned_start (hids : FreshIds env.newId c) (hopen : openScan config jobId env c = .ok (.running, opened)) :
    Scanned config jobId tree env opened [] [] [] (.start opened) := by
  obtain ⟨hobjects, -, hreset⟩ := openScan_eq_ok hopen
  obtain ⟨e, he⟩ := hreset rfl
  refine ⟨.nil, rfl, ?_, ⟨?_, ?_⟩, fun _ e he => absurd he List.not_mem_nil⟩
  · exact passed_start he
  · intro m n hmn
    have hmn : env.newId (0 + m) = env.newId (0 + n) := hmn
    exact Nat.add_left_cancel (hids.differ hmn)
  · intro n
    show opened.objects.get? (env.newId (0 + n)) = none
    rw [hobjects]
    exact hids.unused _

theorem Reached.Tells.scanned {c₀ : Catalog} {files : List (RelativePath × RegularFile)} {safe : Prop}
    {reached : Reached} (h : reached.Tells config jobId tree env c₀ files safe) :
    ∃ first flushed pending, first <+: files ∧ Scanned config jobId tree env c₀ first flushed pending reached.state := by
  cases reached with
  | more st =>
    obtain ⟨⟨flushed, pending, hst⟩, -⟩ := h
    exact ⟨files, flushed, pending, List.prefix_rfl, hst⟩
  | paused st => exact h
  | failed e st => exact h

/-- Where the loop of a run stands. -/
theorem scanned_run (hids : FreshIds env.newId c) (hopen : openScan config jobId env c = .ok (.running, opened))
    (hitems : discovered config tree = .ok items) (n : Nat) :
    ∃ files flushed pending, (∀ e ∈ files, tree.Holds config.root e.1 e.2) ∧ Distinct config files ∧
      Scanned config jobId tree env opened files flushed pending
        (scan config jobId tree env maxItems (.start opened) (items.take n)).state := by
  have hpart : (items.take n).filterMap DiscoveryItem.file? <+: items.filterMap DiscoveryItem.file? :=
    (List.take_prefix n items).filterMap _
  have hdistinct := (distinct_items hitems).of_init hpart
  have htells := @scanned_scan config jobId tree env maxItems opened [] [] [] (.start opened) (items.take n)
    hdistinct (scanned_start hids hopen)
  obtain ⟨first, flushed, pending, hfirst, hst⟩ := htells.scanned
  exact ⟨first, flushed, pending,
    fun e he => holds_of_items hitems e (hpart.subset (hfirst.subset he)), hdistinct.of_init hfirst, hst⟩

/-! ### Expectations through a run -/

theorem exists_read {checks : List Check} {files : List (RelativePath × RegularFile)}
    (h : List.Forall₂ (Check.reads tree) checks files) : ∀ k ∈ checks, ∃ e ∈ files, k.reads tree e := by
  induction h with
  | nil => exact fun k hk => absurd hk List.not_mem_nil
  | @cons k e checks files hread _ ih =>
    rw [List.forall_mem_cons]
    refine ⟨⟨e, List.mem_cons_self, hread⟩, fun k' hk' => ?_⟩
    obtain ⟨e', he', hread'⟩ := ih k' hk'
    exact ⟨e', List.mem_cons_of_mem _ he', hread'⟩

theorem exists_check {checks : List Check} {files : List (RelativePath × RegularFile)}
    (h : List.Forall₂ (Check.reads tree) checks files) : ∀ e ∈ files, ∃ k ∈ checks, k.reads tree e := by
  induction h with
  | nil => exact fun k hk => absurd hk List.not_mem_nil
  | @cons k e checks files hread _ ih =>
    rw [List.forall_mem_cons]
    refine ⟨⟨k, List.mem_cons_self, hread⟩, fun e' he' => ?_⟩
    obtain ⟨k', hk', hread'⟩ := ih e' he'
    exact ⟨k', List.mem_cons_of_mem _ hk', hread'⟩

theorem keeps_of_scanned {files : List (RelativePath × RegularFile)} {flushed pending : List Check} {st : ScanState}
    (hobjects : opened.objects = c.objects) (hfiles : ∀ e ∈ files, tree.Holds config.root e.1 e.2)
    (h : Scanned config jobId tree env opened files flushed pending st) : Keeps config tree c st.catalog := by
  refine keeps_of_passed hobjects (fun k hk => ?_) h.passed
  obtain ⟨e, he, hpath, hresult⟩ := exists_read h.checks k (List.mem_append_left _ hk)
  exact ⟨e.2, hpath ▸ hfiles e he, hresult⟩

theorem keeps_endScan {files : List (RelativePath × RegularFile)} {flushed pending : List Check}
    {reached : Reached} (hobjects : opened.objects = c.objects)
    (hfiles : ∀ e ∈ files, tree.Holds config.root e.1 e.2) (hdistinct : Distinct config files)
    (h : Scanned config jobId tree env opened files flushed pending reached.state) :
    Keeps config tree c (endScan config jobId env reached).2 := by
  have hflush : ∀ paused st', flushInventory env reached.state = .ok st' →
      Keeps config tree c (closeScan config jobId env paused st').2 := fun paused st' hst' =>
    (keeps_of_scanned hobjects hfiles (scanned_flush hdistinct h hst')).congr (closeScan_objects paused st')
  unfold endScan
  split
  · exact keeps_of_scanned hobjects hfiles h
  · split
    · exact hflush false _ ‹_›
    · exact keeps_of_scanned hobjects hfiles h
  · split
    · exact hflush true _ ‹_›
    · exact keeps_of_scanned hobjects hfiles h

/-- **A run, wherever it stops, keeps the expectations.** -/
theorem keeps_of_leaves {d : Catalog} (hids : FreshIds env.newId c)
    (h : Leaves config jobId tree env maxItems c d) : Keeps config tree c d := by
  cases h with
  | before => exact .refl c
  | begun hparams h => exact (Keeps.refl c).congr (beginCatalogJob_objects h)
  | @scanning opened items n hopen hitems =>
    obtain ⟨files, flushed, pending, hfiles, -, hst⟩ := scanned_run hids hopen hitems n
    exact keeps_of_scanned (openScan_eq_ok hopen).1 hfiles hst
  | @flushed opened items st hopen hitems h =>
    obtain ⟨files, flushed, pending, hfiles, hdistinct, hst⟩ :=
      @scanned_run config jobId tree env maxItems c opened items hids hopen hitems items.length
    rw [List.take_length] at hst
    exact keeps_of_scanned (openScan_eq_ok hopen).1 hfiles (scanned_flush hdistinct hst h)
  | ended =>
    unfold runInventory
    split
    · exact .refl c
    · rename_i status opened hopen
      have hobjects := (openScan_eq_ok hopen).1
      split
      · exact (Keeps.refl c).congr hobjects
      · rename_i hrunning
        obtain rfl : status = .running := not_ne_iff.mp hrunning
        split
        · exact (Keeps.refl c).congr hobjects
        · rename_i items hitems
          obtain ⟨files, flushed, pending, hfiles, hdistinct, hst⟩ :=
            @scanned_run config jobId tree env maxItems c opened items hids hopen hitems items.length
          rw [List.take_length] at hst
          exact keeps_endScan hobjects hfiles hdistinct hst

end Run

/-! ### The complete run -/

/-- The catalog of the tree: with `before` the expectations before the last pass, each file is
present and judged by the expectation of its object, which is its content where none was known, and
every other copy in scope is missing. -/
structure Matches (config : InventoryConfig) (tree : Tree) (before : ObjectPath → Option Digest)
    (d : Catalog) : Prop where
  present : ∀ path f, tree.Holds config.root path f → ∃ blake3 sizeBytes r row,
    f.content = some (blake3, sizeBytes) ∧ d.objectAt (objectPath config path) = some r ∧
      r.expectedBlake3 = some ((before (objectPath config path)).getD blake3) ∧
      d.files.get? (r.objectId, config.locationId) = some row ∧ Judged blake3 r row
  absent : ∀ row ∈ d.files.rows, row.locationId = config.locationId →
    inCollection d config.collectionId row.objectId = true →
    row.presence = .missing ∨ ∃ path f r, tree.Holds config.root path f ∧
      d.objectAt (objectPath config path) = some r ∧ r.objectId = row.objectId
  kept : ∀ path blake3, before path = some blake3 → expectationAt d path = some blake3

theorem closeScan_complete {paused : Bool} {st : ScanState} {summary : InventorySummary} {d : Catalog}
    (h : closeScan config jobId env paused st = (.ended "complete" summary, d)) :
    paused = false ∧ clean config st = true ∧ ∃ missing,
      finishCatalogScan st.catalog jobId config.collectionId config.locationId true env.finishedUtcMs
        st.summary.toJson = .ok (missing, d) := by
  unfold closeScan at h
  split at h
  · split at h
    · have hstatus := (RunResult.ended.inj (Prod.mk.inj h).1).1
      exact absurd hstatus (by decide)
    · cases (Prod.mk.inj h).1
  · rename_i hpaused
    split at h
    · rename_i missing c hc
      obtain ⟨hresult, rfl⟩ := Prod.mk.inj h
      cases hclean : clean config st with
      | true => exact ⟨by simpa using hpaused, rfl, missing, by rw [← hclean]; exact hc⟩
      | false =>
        rw [hclean, if_neg Bool.false_ne_true] at hresult
        exact absurd (RunResult.ended.inj hresult).1 (by decide)
    · cases (Prod.mk.inj h).1

theorem runInventory_complete {c d : Catalog} {summary : InventorySummary}
    (h : runInventory config jobId tree env maxItems c = (.ended "complete" summary, d)) :
    ∃ opened items st st' missing, openScan config jobId env c = .ok (.running, opened) ∧
      discovered config tree = .ok items ∧
      scan config jobId tree env maxItems (.start opened) items = .more st ∧
      flushInventory env st = .ok st' ∧ clean config st' = true ∧
      finishCatalogScan st'.catalog jobId config.collectionId config.locationId true env.finishedUtcMs
        st'.summary.toJson = .ok (missing, d) := by
  unfold runInventory at h
  split at h
  · cases (Prod.mk.inj h).1
  · rename_i status opened hopen
    split at h
    · cases (Prod.mk.inj h).1
    · rename_i hrunning
      obtain rfl : status = .running := not_ne_iff.mp hrunning
      split at h
      · cases (Prod.mk.inj h).1
      · rename_i items hitems
        unfold endScan at h
        split at h
        · cases (Prod.mk.inj h).1
        · rename_i st hst
          split at h
          · rename_i st' hflush
            obtain ⟨-, hclean, missing, hfinish⟩ := closeScan_complete h
            exact ⟨opened, items, st, st', missing, hopen, hitems, hst, hflush, hclean, hfinish⟩
          · cases (Prod.mk.inj h).1
        · split at h
          · obtain ⟨hpaused, -⟩ := closeScan_complete h
            cases hpaused
          · cases (Prod.mk.inj h).1

theorem matches_of_passed {c₀ c d : Catalog} {done : List Check} {time missing : Nat} {summary : Json}
    (hread : ∀ k ∈ done, ∃ f, tree.Holds config.root k.path f)
    (hall : ∀ path f, tree.Holds config.root path f → ∃ k ∈ done, k.path = path ∧
      ∃ blake3 sizeBytes, k.result = .checksum blake3 sizeBytes ∧ f.content = some (blake3, sizeBytes))
    (hkept : ∀ path blake3, expectationAt c₀ path = some blake3 → expectationAt c path = some blake3)
    (h : Passed config jobId c₀ done c)
    (hfinish : finishCatalogScan c jobId config.collectionId config.locationId true time summary = .ok (missing, d)) :
    Matches config tree (expectationAt c₀) d := by
  obtain ⟨-, -, -, -, rfl⟩ := finishCatalogScan_complete.mp hfinish
  refine ⟨?_, ?_, hkept⟩
  · intro path f hholds
    obtain ⟨k, hk, rfl, blake3, sizeBytes, hresult, hcontent⟩ := hall path f hholds
    obtain ⟨r, row, hr, hexpected, hrow, hjudged⟩ := h.checked k hk blake3 sizeBytes hresult
    have hcovered : Covers c jobId r.objectId := (h.covered r.objectId).mpr ⟨k, hk, r, hr, rfl⟩
    refine ⟨blake3, sizeBytes, r, row, hcontent, hr, hexpected, ?_, hjudged⟩
    show (declareScanMissing c jobId config.collectionId config.locationId time).2.files.get? _ = _
    unfold declareScanMissing
    dsimp only
    rw [Table.get?_modify, hrow]
    have hid : row.objectId = r.objectId := congrArg Prod.fst (Table.key_of_get? hrow)
    have hseen : scanMisses c jobId config.collectionId config.locationId row = false := by
      rw [scanMisses, hid, Option.isNone_eq_false_iff.mpr hcovered, Bool.and_false]
    rw [Option.map_some, hseen, if_neg Bool.false_ne_true]
  · intro row hrow hlocation hcollection
    obtain ⟨before, hbefore, rfl⟩ := List.mem_map.mp hrow
    cases hmiss : scanMisses c jobId config.collectionId config.locationId before with
    | true =>
      left
      rw [if_pos rfl]
      rfl
    | false =>
      rw [hmiss, if_neg Bool.false_ne_true] at hlocation hcollection
      rw [if_neg Bool.false_ne_true]
      by_cases hpresent : before.presence = .missing
      · exact .inl hpresent
      · right
        have hcollection : inCollection c config.collectionId before.objectId = true := hcollection
        have hcovered : Covers c jobId before.objectId := by
          rw [scanMisses, hcollection] at hmiss
          simpa [Covers, hlocation, hpresent] using hmiss
        obtain ⟨k, hk, r, hr, hid⟩ := (h.covered _).mp hcovered
        obtain ⟨f, hholds⟩ := hread k hk
        exact ⟨k.path, f, r, hholds, hr, hid⟩

/-- **A run that ends complete.** -/
theorem matches_of_complete {c d : Catalog} {summary : InventorySummary} (hids : FreshIds env.newId c)
    (h : runInventory config jobId tree env maxItems c = (.ended "complete" summary, d)) :
    Matches config tree (expectationAt c) d := by
  obtain ⟨opened, items, st, st', missing, hopen, hitems, hscan, hflush, hclean, hfinish⟩ := runInventory_complete h
  have hobjects := (openScan_eq_ok hopen).1
  have hfiles := holds_of_items hitems
  have hdistinct := distinct_items hitems
  have htells := @scanned_scan config jobId tree env maxItems opened [] [] [] (.start opened) items hdistinct
    (scanned_start hids hopen)
  rw [hscan] at htells
  obtain ⟨⟨flushed, pending, hst⟩, hsafe⟩ := htells
  have hdone := scanned_flush hdistinct hst hflush
  obtain ⟨-, -, -, -, -, -, -, hcoverage, -⟩ := flushInventory_eq_ok hflush
  rw [clean, Bool.and_eq_true, Bool.and_eq_true, Bool.not_eq_true', decide_eq_true_eq,
    List.isEmpty_iff] at hclean
  obtain ⟨⟨hnothing, hreadErrors⟩, hexclusions⟩ := hclean
  have hchecks : List.Forall₂ (Check.reads tree) (flushed ++ pending) (items.filterMap DiscoveryItem.file?) := by
    simpa using hdone.checks
  have hbefore : expectationAt opened = expectationAt c := funext (expectationAt_congr hobjects)
  rw [← hbefore]
  refine matches_of_passed ?_ ?_ ?_ hdone.passed hfinish
  · intro k hk
    obtain ⟨e, he, hpath, -⟩ := exists_read hchecks k hk
    exact ⟨e.2, hpath ▸ hfiles e he⟩
  · intro path f hholds
    have hmem : (path, f) ∈ items.filterMap DiscoveryItem.file? := by
      obtain ⟨fd, hroot, hnone, rfl⟩ := discovered_eq_ok hitems
      exact mem_discovered (hnone.trans hexclusions) (hsafe (hcoverage.symm.trans hnothing)).2 (hroot ▸ hholds)
    obtain ⟨k, hk, hpath, hresult⟩ := exists_check hchecks _ hmem
    obtain ⟨blake3, sizeBytes, hread⟩ := hdone.readable hreadErrors _ hmem
    exact ⟨k, hk, hpath, blake3, sizeBytes, hresult.trans hread, content_of_readFile hread⟩
  · intro path blake3 hknown
    rcases keeps_of_scanned rfl hfiles hdone path with hsame | ⟨hnone, -⟩
    · exact hsame.trans hknown
    · rw [hnone] at hknown
      cases hknown

/-! ### The runs of a job -/

/-- What moves the catalog while a job is scanning: a run of it, which may stop anywhere, and the
writes of others. -/
inductive Activity where
  | run (env : Surroundings) (maxItems : Option Nat)
  | other (op : Op)

def Activity.Leads (config : InventoryConfig) (jobId : String) (tree : Tree) (c : Catalog) :
    Activity → Catalog → Prop
  | .run env maxItems, d => FreshIds env.newId c ∧ Leaves config jobId tree env maxItems c d
  | .other op, d => d = next c op

/-- The runs of the job. -/
def Activity.Scans : Activity → Prop
  | .run _ _ => True
  | .other _ => False

/-- The others leave the expectation at a path alone. -/
def LeftAlone (path : ObjectPath) : Catalog → List (Activity × Catalog) → Prop :=
  Path fun c a d => ¬ a.Scans → expectationAt d path = expectationAt c path

theorem keeps_of_leads {c d : Catalog} {a : Activity} (h : a.Leads config jobId tree c d) (hscans : a.Scans) :
    Keeps config tree c d := by
  cases a with
  | run env maxItems => exact keeps_of_leaves h.1 h.2
  | other op => exact hscans.elim

/-- The expectation at a path that the others leave alone. -/
theorem expectation_of_path {c : Catalog} {p : List (Activity × Catalog)} {path : ObjectPath}
    (hp : Path (Activity.Leads config jobId tree) c p) (halone : LeftAlone path c p) :
    expectationAt (final c p) path = expectationAt c path ∨
      expectationAt c path = none ∧ ∃ q f blake3 sizeBytes, tree.Holds config.root q f ∧
        objectPath config q = path ∧ f.content = some (blake3, sizeBytes) ∧
        expectationAt (final c p) path = some blake3 := by
  refine Path.invariant (P := fun d => expectationAt d path = expectationAt c path ∨
    expectationAt c path = none ∧ ∃ q f blake3 sizeBytes, tree.Holds config.root q f ∧
      objectPath config q = path ∧ f.content = some (blake3, sizeBytes) ∧ expectationAt d path = some blake3)
    ?_ (.inl rfl) (hp.and halone)
  rintro s a t hs ⟨hlead, hother⟩
  by_cases hscans : a.Scans
  · rcases keeps_of_leads hlead hscans path with hsame | ⟨hnone, hnew⟩
    · rw [hsame]
      exact hs
    · rcases hs with hs | ⟨-, q, f, blake3, sizeBytes, -, -, -, hs⟩
      · exact .inr ⟨hs.symm.trans hnone, hnew⟩
      · rw [hs] at hnone
        cases hnone
  · rw [hother hscans]
    exact hs

theorem Tree.Holds.unique {root path : RelativePath} {f g : RegularFile} (hf : tree.Holds root path f)
    (hg : tree.Holds root path g) : f = g := by
  obtain ⟨⟨p, hp, hpath, hpf⟩, -⟩ := hf
  obtain ⟨⟨q, hq, hqath, hqg⟩, -⟩ := hg
  have hsame : p = q := List.inj_on_of_nodup_map (paths_nodup tree.proper [] []) hp hq (hpath.trans hqath.symm)
  rw [hsame, hqg] at hpf
  exact (DirEntry.file.inj hpf).symm

/-- **A complete scan matches the disk.** -/
theorem complete_scan_matches {c d : Catalog} {p : List (Activity × Catalog)} {summary : InventorySummary}
    (hp : Path (Activity.Leads config jobId tree) c p) (hids : FreshIds env.newId (final c p))
    (hend : runInventory config jobId tree env maxItems (final c p) = (.ended "complete" summary, d)) :
    Matches config tree (expectationAt (final c p)) d ∧
      Path (fun s a t => a.Scans → Keeps config tree s t) c p ∧
      (∀ path blake3, LeftAlone path c p → expectationAt c path = some blake3 →
        expectationAt d path = some blake3) ∧
      ∀ path f, tree.Holds config.root path f → LeftAlone (objectPath config path) c p →
        expectationAt c (objectPath config path) = none →
        ∃ blake3 sizeBytes, f.content = some (blake3, sizeBytes) ∧
          expectationAt d (objectPath config path) = some blake3 := by
  have hmatches := matches_of_complete hids hend
  refine ⟨hmatches, hp.mono fun s a t hlead hscans => keeps_of_leads hlead hscans, ?_, ?_⟩
  · intro path blake3 halone hknown
    refine hmatches.kept path blake3 ?_
    rcases expectation_of_path hp halone with hsame | ⟨hnone, -⟩
    · exact hsame.trans hknown
    · rw [hnone] at hknown
      cases hknown
  · intro path f hholds halone hnone
    obtain ⟨blake3, sizeBytes, r, row, hcontent, hr, hexpected, -, -⟩ := hmatches.present path f hholds
    refine ⟨blake3, sizeBytes, hcontent, ?_⟩
    rw [expectationAt, hr]
    refine hexpected.trans (congrArg some ?_)
    rcases expectation_of_path hp halone with hsame | ⟨-, q, g, digest, size, hheld, hpath, hg, hset⟩
    · rw [hsame, hnone]
      rfl
    · obtain rfl : q = path := objectPath_inj hheld.good hholds.good hpath
      obtain rfl : g = f := hheld.unique hholds
      rw [hset, Option.getD_some]
      exact (Prod.mk.inj (Option.some.inj (hg.symm.trans hcontent))).1

end Matching

/-! ### Two files and one that is gone -/

namespace Sample

def config : InventoryConfig := ⟨"photos", "usb", [utf8 "usb"], [], 10⟩

def listing : Directory RegularFile Unit :=
  .entry (utf8 "a.jpg") (.file ⟨1, some (sampleDigest 7, 3)⟩)
    (.entry (utf8 "b.jpg") (.file ⟨1, some (sampleDigest 5, 3)⟩) .nil)

theorem listing_proper : listing.Proper GoodName :=
  ⟨⟨by decide +kernel, by decide +kernel⟩, by decide +kernel, ⟨by decide +kernel, by decide +kernel⟩,
    List.not_mem_nil, trivial⟩

def tree : Tree := ⟨1, listing, false, listing_proper⟩

/-- A run that draws the identifiers from the given one on. -/
def env (k : Nat) : Surroundings where
  rootValid := true
  startedUtcMs := 10
  checkedUtcMs n := 20 + n
  finishedUtcMs := 30
  newId n := sampleIds (n + k)
  lossy _ := ""

/-- The Location held a third file when it was observed last. -/
def filed : Catalog :=
  [Op.recordBatch sampleRegistry "host" 1,
    .observeBatch sampleIds [{ sampleObservation "usb" 5 (sampleDigest 9) false with path := .utf8 "c.jpg" }]].foldl
    next (Catalog.create "archive" "Archive")

/-- After a run that may check one file. -/
def paused : Catalog := (runInventory config "job" tree (env 1) (some 1) filed).2

/-- Another writer finds other bytes at the second path of the Collection, at another Location. -/
def elsewhere : Op :=
  .observeBatch (fun n => sampleIds (n + 2))
    [{ sampleObservation "sd" 15 (sampleDigest 8) false with path := .utf8 "b.jpg" }]

def activities : List (Activity × Catalog) :=
  [(.run (env 1) (some 1), paused), (.other elsewhere, next paused elsewhere)]

def scanned : RunResult × Catalog := runInventory config "job" tree (env 3) none (next paused elsewhere)

def second : RegularFile := ⟨1, some (sampleDigest 5, 3)⟩

theorem tree_holds : tree.Holds config.root [utf8 "b.jpg"] second :=
  ⟨⟨⟨[utf8 "b.jpg"], [], .file second⟩, List.mem_cons_of_mem _ List.mem_cons_self, rfl, rfl⟩, by decide +kernel⟩

theorem env_fresh {c : Catalog} {k : Nat} (h : ∀ r ∈ c.objects.rows, ∃ i, i < k ∧ r.objectId = sampleIds i) :
    FreshIds (env k).newId c where
  differ m n hmn := Nat.add_right_cancel (sampleIds_injective hmn)
  unused n := by
    refine Table.get?_eq_none.mpr fun r hr heq => ?_
    obtain ⟨i, hi, hid⟩ := h r hr
    have hsame : i = n + k := sampleIds_injective (hid.symm.trans heq)
    omega

theorem activities_lead : Path (Activity.Leads config "job" tree) filed activities :=
  ⟨⟨env_fresh (by decide +kernel), .ended⟩, rfl, trivial⟩

theorem activities_fresh : FreshIds (env 3).newId (final filed activities) :=
  env_fresh (c := next paused elsewhere) (by decide +kernel)

theorem scanned_complete : ∃ summary,
    runInventory config "job" tree (env 3) none (final filed activities) = (.ended "complete" summary, scanned.2) := by
  have hresult : (match scanned.1 with | .ended status _ => status | _ => "") = "complete" := by decide +kernel
  split at hresult
  · rename_i status summary hended
    refine ⟨summary, ?_⟩
    show scanned = _
    rw [← hresult, ← hended]
  · exact absurd hresult (by decide)

/-- Both files are found and the third one, which is gone, is declared missing. -/
theorem scanned_matches : Matches config tree (expectationAt (next paused elsewhere)) scanned.2 ∧
    (filed.files.rows.map FileRow.presence, scanned.2.files.rows.map FileRow.presence) =
      ([.present], [.missing, .present, .present, .present]) := by
  obtain ⟨summary, hended⟩ := scanned_complete
  exact ⟨(complete_scan_matches activities_lead activities_fresh hended).1, by decide +kernel⟩

/-- **The second file had no expectation before, and has another one than its content afterwards**: the copy
elsewhere set it. -/
theorem scanned_disputed : Path (Activity.Leads config "job" tree) filed activities ∧
    (∃ summary, runInventory config "job" tree (env 3) none (final filed activities) =
      (.ended "complete" summary, scanned.2)) ∧
    tree.Holds config.root [utf8 "b.jpg"] second ∧ second.content = some (sampleDigest 5, 3) ∧
    expectationAt filed (objectPath config [utf8 "b.jpg"]) = none ∧
    expectationAt scanned.2 (objectPath config [utf8 "b.jpg"]) = some (sampleDigest 8) ∧
    sampleDigest 8 ≠ sampleDigest 5 :=
  ⟨activities_lead, scanned_complete, tree_holds, rfl, by decide +kernel, by decide +kernel, by decide +kernel⟩

end Sample

end ArchiveLedger.Inventory
