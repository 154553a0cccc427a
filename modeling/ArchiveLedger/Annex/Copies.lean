import ArchiveLedger.Annex.Entries

/-!
# The Copy of an annex entry

Every outcome of an entry names its Copy by `copyOf`.  Content that was located is at `entryCopy`; an
error found before that is recorded at `unreadableCopy`, the path of the entry in the worktree.  For a
locked entry the two differ (`oneCopy_iff`).
-/

namespace ArchiveLedger.Annex

open Discovery

variable {D : Digests} {config : AnnexImportConfig} {entry : IndexEntry} {blob : Bytes} {key : AnnexKey}

/-- An inventory or an inspection of the entry, over some state of the worktree, gives this item. -/
def Records (D : Digests) (config : AnnexImportConfig) (entry : IndexEntry) (blob : Bytes) (key : AnnexKey)
    (item : AnnexEntryItem) : Prop :=
  ∃ inventoryOnly annexUuid state outcome,
    inspectEntry D { config with inventoryOnly := inventoryOnly } entry blob key state = .ok outcome ∧
      annexEntryItem D { config with inventoryOnly := inventoryOnly } annexUuid (encodePath entry.path) key outcome = item

/-- All items of the entry that name a Copy name the same one, at the same Location and path. -/
def OneCopy (D : Digests) (config : AnnexImportConfig) (entry : IndexEntry) (blob : Bytes) (key : AnnexKey) : Prop :=
  ∀ item item', Records D config entry blob key item → Records D config entry blob key item' →
    item.copyClaimId.isSome → item'.copyClaimId.isSome →
      item.copyClaimId = item'.copyClaimId ∧ item.copyLocationId = item'.copyLocationId ∧ item.copyPath = item'.copyPath

/-- Where the content of the entry is. -/
def entryCopy (config : AnnexImportConfig) (entry : IndexEntry) (blob : Bytes) : String × EncodedPath :=
  if entry.mode = "120000" then (config.casLocationId, casPath config ((annexObjectRelative blob).getD []))
  else (config.worktreeLocationId, encodePath entry.path)

/-- Where an error found before the content is located is recorded. -/
def unreadableCopy (config : AnnexImportConfig) (entry : IndexEntry) : String × EncodedPath :=
  (config.worktreeLocationId, encodePath entry.path)

theorem entryCopy_of_unlocked (hmode : entry.mode ≠ "120000") :
    entryCopy config entry blob = unreadableCopy config entry := if_neg hmode

theorem encodePath_bytes (path : Bytes) : (encodePath path).bytes = path := encodeRelativePath_bytes [path]

theorem encodePath_inj {path path' : Bytes} : encodePath path = encodePath path' ↔ path = path' := by
  constructor
  · intro h
    rw [← encodePath_bytes path, h, encodePath_bytes]
  · intro h
    rw [h]

/-! ### Which Copy an outcome names -/

theorem copyOf_eq_some {logical : EncodedPath} {outcome : EntryOutcome} {copy : String × EncodedPath} :
    copyOf config logical outcome = some copy ↔
      (config.inventoryOnly = true ∨ outcome.content.isSome ∨ outcome.category = .readError) ∧
        (if outcome.representation = "annex_locked_symlink" then config.casLocationId
          else config.worktreeLocationId, outcome.copyPath.getD logical) = copy := by
  unfold copyOf
  rw [Option.ite_none_right_eq_some, Option.some.injEq, Bool.or_eq_true, Bool.or_eq_true, decide_eq_true_eq, or_assoc]

theorem copyOf_readError (error : String) :
    copyOf config (encodePath entry.path) (.readError error) = some (unreadableCopy config entry) :=
  copyOf_eq_some.mpr ⟨Or.inr (Or.inr rfl), rfl⟩

/-- An inventory names the Copy of the entry. -/
theorem copyOf_inventory {state : WorktreeState} {outcome : EntryOutcome} (hinventory : config.inventoryOnly = true)
    (houtcome : inventoryEntry config entry blob key state = .ok outcome) :
    copyOf config (encodePath entry.path) outcome = some (entryCopy config entry blob) := by
  obtain ⟨pathPresent, -, h⟩ := Transition.bind_eq_ok.mp houtcome
  obtain ⟨copy, hcopy, h⟩ := Transition.bind_eq_ok.mp h
  cases h
  refine copyOf_eq_some.mpr ⟨Or.inl hinventory, ?_⟩
  unfold indexedCopy at hcopy
  unfold entryCopy
  by_cases hmode : entry.mode = "120000"
  · rw [if_pos hmode] at hcopy ⊢
    cases hrelative : annexObjectRelative blob with
    | none => rw [hrelative] at hcopy; cases hcopy
    | some relative => rw [hrelative] at hcopy; cases hcopy; rfl
  · rw [if_neg hmode] at hcopy ⊢
    cases hcopy
    rfl

/-- An outcome with content or an error is of content that was read, at the path where it was located. -/
theorem readLocated_eq {representation : String} {content : Option FileRead} {copyPath : Option EncodedPath}
    {outcome : EntryOutcome} (houtcome : readLocated D key representation content copyPath = outcome)
    (h : outcome.content.isSome ∨ outcome.category = .readError) :
    content.isSome ∧ outcome.representation = representation ∧ outcome.copyPath = copyPath := by
  subst houtcome
  revert h
  unfold readLocated
  split
  · rintro (h | h) <;> cases h
  · cases content with
    | none => rintro (h | h) <;> cases h
    | some read =>
      dsimp only
      split
      · rintro (h | h) <;> cases h
      · split
        · exact fun _ => ⟨rfl, rfl, rfl⟩
        · exact fun _ => ⟨rfl, rfl, rfl⟩

/-- Content that was located names the Copy at its path, where it names any. -/
theorem copyOf_readLocated {representation : String} {content : Option FileRead} {copyPath : Option EncodedPath}
    {copy : String × EncodedPath} (hinspection : config.inventoryOnly = false)
    (hcopy : copyOf config (encodePath entry.path) (readLocated D key representation content copyPath) = some copy) :
    content.isSome ∧ (if representation = "annex_locked_symlink" then config.casLocationId
      else config.worktreeLocationId, copyPath.getD (encodePath entry.path)) = copy := by
  obtain ⟨hnames, hcopy⟩ := copyOf_eq_some.mp hcopy
  rw [hinspection, or_iff_right Bool.false_ne_true] at hnames
  obtain ⟨hcontent, hrepresentation, hpath⟩ := readLocated_eq rfl hnames
  rw [hrepresentation, hpath] at hcopy
  exact ⟨hcontent, hcopy⟩

/-- Content that was located is at the Copy of the entry. -/
theorem located_eq {state : WorktreeState} {representation : String} {content : Option FileRead}
    {copyPath : Option EncodedPath} (hblob : entry.mode = "120000" → (annexObjectRelative blob).isSome)
    (h : locateEntry config entry blob key state = .ok (.located representation content copyPath))
    (hcontent : content.isSome) :
    (if representation = "annex_locked_symlink" then config.casLocationId else config.worktreeLocationId,
      copyPath.getD (encodePath entry.path)) = entryCopy config entry blob := by
  unfold entryCopy
  by_cases hmode : entry.mode = "120000"
  · obtain ⟨relative, hrelative⟩ := Option.isSome_iff_exists.mp (hblob hmode)
    have hlocked : representation = "annex_locked_symlink" ∧ copyPath = some (casPath config relative) := by
      unfold locateEntry at h
      split at h
      · cases h
      · cases h
      · rw [if_pos hmode] at h
        unfold locateSymlink at h
        rw [hrelative] at h
        split at h
        · cases h
        · split at h
          · cases h
          · dsimp only at h
            split at h
            · cases h
            · cases h; exact ⟨rfl, rfl⟩
            · cases h; exact ⟨rfl, rfl⟩
        · cases h
    rw [if_pos hmode, hrelative, hlocked.1, hlocked.2]
    rfl
  · have hunlocked : representation = "annex_unlocked_file" ∧ copyPath = some (encodePath entry.path) := by
      unfold locateEntry at h
      split at h
      · cases h
      · cases h
      · rw [if_neg hmode] at h
        have h := Except.ok.inj h
        unfold locateFile at h
        split at h
        · dsimp only at h
          split at h
          · split at h
            · cases h
            · split at h
              · cases h; cases hcontent
              · cases h; exact ⟨rfl, rfl⟩
          · cases h; exact ⟨rfl, rfl⟩
        · cases h
    rw [if_neg hmode, hunlocked.1, hunlocked.2]
    rfl

/-- What is settled before content is located is an error there or names no Copy. -/
theorem settled_copy {state : WorktreeState} {outcome : EntryOutcome} {copy : String × EncodedPath}
    (hinspection : config.inventoryOnly = false)
    (h : locateEntry config entry blob key state = .ok (.settled outcome))
    (hcopy : copyOf config (encodePath entry.path) outcome = some copy) : copy = unreadableCopy config entry := by
  have herror : ∀ {error}, outcome = .readError error → copy = unreadableCopy config entry := by
    intro error houtcome
    rw [houtcome, copyOf_readError] at hcopy
    exact (Option.some.inj hcopy).symm
  unfold locateEntry at h
  split at h
  · exfalso
    have hsilent : outcome.content = none ∧ outcome.category ≠ .readError := by
      have houtcome := Located.settled.inj (Except.ok.inj h)
      rw [← houtcome]
      split
      · exact ⟨rfl, by decide⟩
      · exact ⟨rfl, EntryCategory.noConfusion⟩
    rw [copyOf, hinspection, hsilent.1, decide_eq_false hsilent.2] at hcopy
    cases hcopy
  · cases h; exact herror rfl
  · split at h
    · unfold locateSymlink at h
      split at h
      · cases h
      · split at h
        · cases h; exact herror rfl
        · dsimp only at h
          split at h
          · cases h; exact herror rfl
          · cases h
          · cases h
      · cases h; exact herror rfl
    · have h := Except.ok.inj h
      unfold locateFile at h
      split at h
      · dsimp only at h
        split at h
        · split at h
          · cases h; exact herror rfl
          · split at h <;> cases h
        · cases h
      · cases h; exact herror rfl

/-- The Copy that an item names is that of the entry or that of an error. -/
theorem Records.copy {item : AnnexEntryItem} (hblob : entry.mode = "120000" → (annexObjectRelative blob).isSome)
    (h : Records D config entry blob key item) (hid : item.copyClaimId.isSome) :
    ∃ copy, (copy = entryCopy config entry blob ∨ copy = unreadableCopy config entry) ∧
      item.copyClaimId = some (copyClaimId D copy) ∧ item.copyLocationId = some copy.1 ∧ item.copyPath = some copy.2 := by
  obtain ⟨inventoryOnly, annexUuid, state, outcome, houtcome, rfl⟩ := h
  cases hcopy : copyOf { config with inventoryOnly := inventoryOnly } (encodePath entry.path) outcome with
  | none =>
    have hnone : (annexEntryItem D { config with inventoryOnly := inventoryOnly } annexUuid (encodePath entry.path) key
        outcome).copyClaimId = none := congrArg (Option.map (copyClaimId D)) hcopy
    rw [hnone] at hid
    cases hid
  | some copy =>
    refine ⟨copy, ?_, congrArg (Option.map (copyClaimId D)) hcopy, congrArg (Option.map Prod.fst) hcopy,
      congrArg (Option.map Prod.snd) hcopy⟩
    cases inventoryOnly with
    | true => exact Or.inl (Option.some.inj (hcopy.symm.trans (copyOf_inventory rfl houtcome)))
    | false =>
      obtain ⟨located, hlocated, h⟩ := map_eq_ok houtcome
      subst h
      cases located with
      | settled outcome =>
        have hunreadable : copy = unreadableCopy { config with inventoryOnly := false } entry :=
          settled_copy rfl hlocated hcopy
        exact Or.inr hunreadable
      | located representation content copyPath =>
        obtain ⟨hcontent, h⟩ := copyOf_readLocated rfl hcopy
        exact Or.inl (h.symm.trans (located_eq hblob hlocated hcontent))

/-! ### One Copy -/

/-- An inventory of an entry that is there names the Copy of the entry. -/
theorem records_entryCopy (D : Digests) (config : AnnexImportConfig) (key : AnnexKey)
    (hblob : entry.mode = "120000" → (annexObjectRelative blob).isSome) :
    ∃ item, Records D config entry blob key item ∧
      item.copyClaimId = some (copyClaimId D (entryCopy config entry blob)) ∧
      item.copyLocationId = some (entryCopy config entry blob).1 ∧
      item.copyPath = some (entryCopy config entry blob).2 := by
  have hindexed : ∃ copy, indexedCopy { config with inventoryOnly := true } entry blob = .ok copy := by
    unfold indexedCopy
    split
    · rename_i hmode
      obtain ⟨relative, hrelative⟩ := Option.isSome_iff_exists.mp (hblob hmode)
      rw [hrelative]
      exact ⟨_, rfl⟩
    · exact ⟨_, rfl⟩
  obtain ⟨copy, hindexed⟩ := hindexed
  have houtcome : ∃ outcome, inventoryEntry { config with inventoryOnly := true } entry blob key .other = .ok outcome :=
    ⟨_, Transition.bind_eq_ok.mpr ⟨true, rfl, Transition.bind_eq_ok.mpr ⟨copy, hindexed, rfl⟩⟩⟩
  obtain ⟨outcome, houtcome⟩ := houtcome
  have hcopy := copyOf_inventory rfl houtcome
  exact ⟨_, ⟨true, "", .other, outcome, houtcome, rfl⟩, congrArg (Option.map (copyClaimId D)) hcopy,
    congrArg (Option.map Prod.fst) hcopy, congrArg (Option.map Prod.snd) hcopy⟩

/-- A state that cannot be examined is recorded at the path of the entry. -/
theorem records_unreadableCopy (D : Digests) (config : AnnexImportConfig) (entry : IndexEntry) (blob : Bytes)
    (key : AnnexKey) :
    ∃ item, Records D config entry blob key item ∧
      item.copyClaimId = some (copyClaimId D (unreadableCopy config entry)) ∧
      item.copyLocationId = some (unreadableCopy config entry).1 ∧
      item.copyPath = some (unreadableCopy config entry).2 := by
  have hcopy : copyOf { config with inventoryOnly := false } (encodePath entry.path) (.readError "") =
      some (unreadableCopy config entry) := copyOf_readError ""
  exact ⟨_, ⟨false, "", .failed "", _, rfl, rfl⟩, congrArg (Option.map (copyClaimId D)) hcopy,
    congrArg (Option.map Prod.fst) hcopy, congrArg (Option.map Prod.snd) hcopy⟩

/-- The symlink of the entry is itself the object it leads to. -/
def LeadsToItself (config : AnnexImportConfig) (entry : IndexEntry) (blob : Bytes) : Prop :=
  config.casLocationId = config.worktreeLocationId ∧
    entry.path = joinBytes (utf8 ".git/annex/objects") ((annexObjectRelative blob).getD [])

theorem entryCopy_eq_unreadableCopy_iff : entryCopy config entry blob = unreadableCopy config entry ↔
    entry.mode ≠ "120000" ∨ LeadsToItself config entry blob := by
  by_cases hmode : entry.mode = "120000"
  · rw [or_iff_right (not_not_intro hmode)]
    unfold entryCopy unreadableCopy LeadsToItself
    rw [if_pos hmode, Prod.mk.injEq]
    refine and_congr_right fun hlocation => ?_
    rw [casPath, if_pos hlocation, encodePath_inj]
    exact eq_comm
  · exact iff_of_true (entryCopy_of_unlocked hmode) (Or.inl hmode)

theorem relative_isSome_of_key {raw : Bytes} (h : annexKeyFromBlob entry.mode blob = some raw)
    (hmode : entry.mode = "120000") : (annexObjectRelative blob).isSome := by
  rw [annexKeyFromBlob, if_pos hmode] at h
  obtain ⟨relative, hrelative, -⟩ := Option.bind_eq_some_iff.mp h
  rw [hrelative]
  rfl

/-- **An entry has one Copy exactly when** it is not a locked symlink, or is one of the objects itself. -/
theorem oneCopy_iff {raw : Bytes} (hkey : annexKeyFromBlob entry.mode blob = some raw) :
    OneCopy D config entry blob key ↔ entry.mode ≠ "120000" ∨ LeadsToItself config entry blob := by
  have hblob := relative_isSome_of_key hkey
  rw [← entryCopy_eq_unreadableCopy_iff]
  constructor
  · intro h
    obtain ⟨item, hitem, hid, hlocation, hpath⟩ := records_entryCopy D config key hblob
    obtain ⟨item', hitem', hid', hlocation', hpath'⟩ := records_unreadableCopy D config entry blob key
    obtain ⟨-, hlocations, hpaths⟩ := h item item' hitem hitem' (by rw [hid]; rfl) (by rw [hid']; rfl)
    rw [hlocation, hlocation'] at hlocations
    rw [hpath, hpath'] at hpaths
    exact Prod.ext (Option.some.inj hlocations) (Option.some.inj hpaths)
  · intro h item item' hitem hitem' hid hid'
    obtain ⟨copy, hcopy, hclaim, hlocation, hpath⟩ := hitem.copy hblob hid
    obtain ⟨copy', hcopy', hclaim', hlocation', hpath'⟩ := hitem'.copy hblob hid'
    have hsame : copy = copy' := by
      rw [h, or_self] at hcopy hcopy'
      rw [hcopy, hcopy']
    rw [hclaim, hlocation, hpath, hclaim', hlocation', hpath', hsame]
    exact ⟨rfl, rfl, rfl⟩

namespace Sample

def hashName : Bytes := utf8 "SHA256-s3--" ++ List.replicate 64 97

/-- Digests under which everything has the digest of `hashName`. -/
def constantDigests : Digests := ⟨fun _ => utf8 "cc", fun _ => List.replicate 64 97, fun _ => []⟩

def splitLocations : AnnexImportConfig :=
  ⟨utf8 "/photos", "import", "job", "collection", "worktree", "cas", "device", "root", 100, false⟩

def unlockedEntry : IndexEntry := ⟨"100644", "", 0, utf8 "a.jpg"⟩

def unlockedBlob : Bytes := utf8 "/annex/objects/" ++ hashName ++ [10]

def hashKey : AnnexKey := ⟨hashName, utf8 "SHA256", some 3, some (List.replicate 64 97), none, .supported⟩

theorem unlocked_oneCopy : OneCopy constantDigests splitLocations unlockedEntry unlockedBlob hashKey ↔
    unlockedEntry.mode ≠ "120000" ∨ LeadsToItself splitLocations unlockedEntry unlockedBlob := by
  have hkey : annexKeyFromBlob unlockedEntry.mode unlockedBlob = some hashName := by decide +kernel
  exact oneCopy_iff hkey

def lockedEntry : IndexEntry := ⟨"120000", "", 0, utf8 "a.jpg"⟩

def lockedBlob : Bytes := utf8 ".git/annex/objects/x/" ++ hashName ++ [47] ++ hashName

/-- The symlink leads to three bytes that are good. -/
def goodState : WorktreeState := .symlink (some lockedBlob) (.found (.bytes [1, 2, 3] 1 none))

/-- A regular file has taken the place of the symlink. -/
def replacedState : WorktreeState := .file 3 (.ok [1, 2, 3]) (.bytes [1, 2, 3] 1 none)

def goodOutcome : EntryOutcome :=
  ⟨.present, "annex_locked_symlink", some ⟨utf8 "cc", List.replicate 64 97, none, 3, 1, none⟩, none, true, true,
    some (encodePath (utf8 "x/" ++ hashName ++ [47] ++ hashName))⟩

/-- A good read and a failed one are recorded against different Copies. -/
theorem locked_twoCopies : annexKeyFromBlob lockedEntry.mode lockedBlob = some hashName ∧
    AnnexKey.parse hashName = .ok hashKey ∧
    ¬ OneCopy constantDigests splitLocations lockedEntry lockedBlob hashKey := by
  refine ⟨by decide +kernel, by decide +kernel, ?_⟩
  intro h
  have hgood : inspectEntry constantDigests { splitLocations with inventoryOnly := false } lockedEntry lockedBlob hashKey
      goodState = .ok goodOutcome := by decide +kernel
  have hreplaced : inspectEntry constantDigests { splitLocations with inventoryOnly := false } lockedEntry lockedBlob
      hashKey replacedState = .ok (.readError "worktree representation changed from annex symlink") := by decide +kernel
  obtain ⟨-, hlocations, -⟩ := h _ _ ⟨false, "", goodState, goodOutcome, hgood, rfl⟩
    ⟨false, "", replacedState, _, hreplaced, rfl⟩ (by decide +kernel) (by decide +kernel)
  exact absurd hlocations (by decide +kernel)

end Sample

end ArchiveLedger.Annex
