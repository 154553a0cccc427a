import ArchiveLedger.Annex.Entries

/-!
# When a key is believed

A key is parsed, its hash is what its name announces, and an entry is `present`, or its item has an
Object, only when the bytes that were read have the digest and the size of the key (`Believed`).  That
fails where a slice ends inside a character, which panics, and where the size of a key is beyond 64
bits: its digits are then ignored (`believed_iff`).
-/

namespace ArchiveLedger.Annex

variable (D : Digests)

def Digests.of : HashAlgorithm → Bytes → Bytes
  | .sha256 => D.sha256
  | .sha512 => D.sha512

/-- The size field of a key. -/
def AnnexKey.SizeField (raw : Bytes) (size : Nat) : Prop :=
  ∃ digits, AnnexKey.sizeText raw = some digits ∧ isDecimal digits = true ∧ decimal digits = size

/-- What an inspection reads of a worktree entry. -/
def WorktreeState.Reads : WorktreeState → Bytes → Prop
  | .symlink _ (.found (.bytes content _ _)), bytes => content = bytes
  | .file _ _ (.bytes content _ _), bytes => content = bytes
  | _, _ => False

/-- The bytes have the digest of the key and the size its metadata gives. -/
structure Proven (raw : Bytes) (key : AnnexKey) (bytes : Bytes) : Prop where
  digest : ∃ algorithm hash, key.expectedHash = some (algorithm, hash) ∧ D.of algorithm bytes = hash
  size : ∀ n, AnnexKey.SizeField raw n → bytes.length = n

structure Believed (mode : String) (blob raw : Bytes) : Prop where
  parses : ∃ key, AnnexKey.parse raw = .ok key
  announced : ∀ key algorithm hash, AnnexKey.parse raw = .ok key →
    key.expectedHash = some (algorithm, hash) → AnnexKey.Announces raw algorithm hash
  proven : ∀ key config entry state outcome, AnnexKey.parse raw = .ok key → entry.mode = mode →
    inspectEntry D config entry blob key state = .ok outcome → outcome.category = .present →
    ∃ bytes, state.Reads bytes ∧ Proven D raw key bytes
  item : ∀ key config entry state outcome annexUuid logical, AnnexKey.parse raw = .ok key → entry.mode = mode →
    inspectEntry D config entry blob key state = .ok outcome →
    (annexEntryItem D config annexUuid logical key outcome).objectId.isSome = true ∨
      (annexEntryItem D config annexUuid logical key outcome).resolutionState = "resolved" →
    ∃ bytes, state.Reads bytes ∧ Proven D raw key bytes

/-- The size field of the key fits 64 bits, or nothing that can be read has its digest. -/
def SizeCounts (raw : Bytes) : Prop :=
  ∀ key n, AnnexKey.parse raw = .ok key → AnnexKey.SizeField raw n → u64Max < n →
    ∀ algorithm hash, key.expectedHash = some (algorithm, hash) →
    ∀ bytes, bytes.length ≤ u64Max → D.of algorithm bytes ≠ hash

/-! ### Present entries -/

variable {D}

theorem matchesContent_hashFile {key : AnnexKey} {read : FileRead} {content : ContentHashes}
    (hread : hashFile D key.expectedSha512.isSome read = .ok content) (h : key.matchesContent content = true) :
    ∃ algorithm hash bytes durationMs modified, read = .bytes bytes durationMs modified ∧
      bytes.length ≤ u64Max ∧ content.size = bytes.length ∧ key.expectedHash = some (algorithm, hash) ∧
      D.of algorithm bytes = hash := by
  cases read with
  | failed error => cases hread
  | bytes bytes durationMs modified =>
    by_cases hlength : bytes.length ≤ u64Max
    · rw [hashFile, if_pos hlength] at hread
      cases hread
      unfold AnnexKey.matchesContent at h
      split at h
      · rename_i expected hexpected
        exact ⟨.sha256, expected, bytes, durationMs, modified, rfl, hlength, rfl, hexpected,
          (of_decide_eq_true h).symm⟩
      · rename_i expected hexpected
        have h := of_decide_eq_true h
        dsimp only at h
        split at h
        · exact ⟨.sha512, expected, bytes, durationMs, modified, rfl, hlength, rfl, hexpected,
            (Option.some.inj h).symm⟩
        · cases h
      · cases h
    · rw [hashFile, if_neg hlength] at hread
      cases hread

/-- A located entry is present when its bytes were read and match. -/
theorem present_of_readLocated {key : AnnexKey} {representation : String} {content : Option FileRead}
    {copyPath : Option EncodedPath} (h : (readLocated D key representation content copyPath).category = .present) :
    ∃ read hashes, content = some read ∧ hashFile D key.expectedSha512.isSome read = .ok hashes ∧
      key.expectedSize.all (fun size => size = hashes.size) = true ∧ key.matchesContent hashes = true := by
  unfold readLocated at h
  split at h
  · cases h
  · split at h
    · cases h
    · rename_i read
      split at h
      · cases h
      · split at h
        · rename_i hashes hhashes
          dsimp only at h
          split at h
          · rename_i hgood
            rw [Bool.and_eq_true] at hgood
            exact ⟨read, hashes, rfl, hhashes, hgood.1, hgood.2⟩
          · cases h
        · cases h

/-- What was located is what the state reads. -/
theorem reads_of_located {config : AnnexImportConfig} {entry : IndexEntry} {blob : Bytes} {key : AnnexKey}
    {state : WorktreeState} {representation : String} {bytes : Bytes} {durationMs : Nat} {modified : Option Nat}
    {copyPath : Option EncodedPath}
    (h : locateEntry config entry blob key state =
      .ok (.located representation (some (.bytes bytes durationMs modified)) copyPath)) : state.Reads bytes := by
  unfold locateEntry at h
  split at h
  · cases h
  · cases h
  · split at h
    · unfold locateSymlink at h
      split at h
      · cases h
      · split at h
        · cases h
        · dsimp only at h
          split at h
          · cases h
          · cases h
          · cases h
            rfl
      · cases h
    · unfold locateFile at h
      split at h
      · dsimp only at h
        split at h
        · split at h
          · cases h
          · split at h
            · cases h
            · cases h
              rfl
        · cases h
          rfl
      · cases h

theorem settled_not_present {config : AnnexImportConfig} {entry : IndexEntry} {blob : Bytes} {key : AnnexKey}
    {state : WorktreeState} {outcome : EntryOutcome}
    (h : locateEntry config entry blob key state = .ok (.settled outcome)) : outcome.category ≠ .present := by
  unfold locateEntry at h
  split at h
  · cases h
    split
    · intro hpresent
      cases hpresent
    · intro hpresent
      cases hpresent
  · cases h
    intro hpresent
    cases hpresent
  · split at h
    · unfold locateSymlink at h
      split at h
      · cases h
      · split at h
        · cases h
          intro hpresent
          cases hpresent
        · dsimp only at h
          split at h
          · cases h
            intro hpresent
            cases hpresent
          · cases h
          · cases h
      · cases h
        intro hpresent
        cases hpresent
    · unfold locateFile at h
      split at h
      · dsimp only at h
        split at h
        · split at h
          · cases h
            intro hpresent
            cases hpresent
          · split at h
            · cases h
            · cases h
        · cases h
      · cases h
        intro hpresent
        cases hpresent

theorem inventory_not_present {config : AnnexImportConfig} {entry : IndexEntry} {blob : Bytes} {key : AnnexKey}
    {state : WorktreeState} {outcome : EntryOutcome}
    (h : inventoryEntry config entry blob key state = .ok outcome) : outcome.category ≠ .present := by
  obtain ⟨pathPresent, -, h⟩ := Transition.bind_eq_ok.mp h
  obtain ⟨located, -, h⟩ := Transition.bind_eq_ok.mp h
  cases h
  show (if key.state = .unsupported then EntryCategory.unsupported else .unchecked) ≠ .present
  split
  · intro hpresent
    cases hpresent
  · intro hpresent
    cases hpresent

/-- **A present entry** was located, and its bytes read, with the digest and the parsed size of the key. -/
theorem inspect_present {config : AnnexImportConfig} {entry : IndexEntry} {blob : Bytes} {key : AnnexKey}
    {state : WorktreeState} {outcome : EntryOutcome} (h : inspectEntry D config entry blob key state = .ok outcome)
    (hpresent : outcome.category = .present) :
    ∃ bytes algorithm hash, state.Reads bytes ∧ bytes.length ≤ u64Max ∧
      (∀ n, key.expectedSize = some n → bytes.length = n) ∧ key.expectedHash = some (algorithm, hash) ∧
      D.of algorithm bytes = hash := by
  unfold inspectEntry at h
  split at h
  · exact absurd hpresent (inventory_not_present h)
  · obtain ⟨found, hfound, h⟩ := map_eq_ok h
    cases found with
    | settled settled =>
      cases h
      exact absurd hpresent (settled_not_present hfound)
    | located representation content copyPath =>
      cases h
      obtain ⟨read, hashes, rfl, hhashes, hsize, hmatches⟩ := present_of_readLocated hpresent
      obtain ⟨algorithm, hash, bytes, durationMs, modified, rfl, hlength, hcount, hexpected, hdigest⟩ :=
        matchesContent_hashFile hhashes hmatches
      refine ⟨bytes, algorithm, hash, reads_of_located hfound, hlength, ?_, hexpected, hdigest⟩
      intro n hn
      rw [hn] at hsize
      have hsame : n = hashes.size := by simpa using hsize
      rw [hsame, hcount]

/-! ### Sizes -/

theorem parseU64_of_decimal {digits : Bytes} (hdigits : isDecimal digits = true) :
    parseU64 digits = if decimal digits ≤ u64Max then some (decimal digits) else none := by
  have hplus : digits.head? ≠ some 43 := by
    intro hhead
    unfold isDecimal at hdigits
    cases digits with
    | nil => cases hhead
    | cons b rest =>
      cases hhead
      simp at hdigits
  unfold parseU64
  dsimp only
  rw [if_neg hplus]
  by_cases hle : decimal digits ≤ u64Max
  · rw [if_pos ⟨hdigits, hle⟩, if_pos hle]
  · rw [if_neg fun h => hle h.2, if_neg hle]

theorem expectedSize_of_sizeField {raw : Bytes} {key : AnnexKey} {n : Nat} (hkey : AnnexKey.parse raw = .ok key)
    (hsize : AnnexKey.SizeField raw n) : key.expectedSize = if n ≤ u64Max then some n else none := by
  obtain ⟨-, -, hexpected, -, -⟩ := AnnexKey.parse_eq_ok hkey
  obtain ⟨digits, htext, hdecimal, rfl⟩ := hsize
  rw [hexpected, htext]
  exact parseU64_of_decimal hdecimal

theorem proven_of_present {raw : Bytes} (hcounts : SizeCounts D raw) {key : AnnexKey}
    {config : AnnexImportConfig} {entry : IndexEntry} {blob : Bytes} {state : WorktreeState}
    {outcome : EntryOutcome} (hkey : AnnexKey.parse raw = .ok key)
    (h : inspectEntry D config entry blob key state = .ok outcome) (hpresent : outcome.category = .present) :
    ∃ bytes, state.Reads bytes ∧ Proven D raw key bytes := by
  obtain ⟨bytes, algorithm, hash, hreads, hlength, hsize, hexpected, hdigest⟩ := inspect_present h hpresent
  refine ⟨bytes, hreads, ⟨algorithm, hash, hexpected, hdigest⟩, ?_⟩
  intro n hn
  by_cases hle : n ≤ u64Max
  · refine hsize n ?_
    rw [expectedSize_of_sizeField hkey hn, if_pos hle]
  · exact absurd hdigest (hcounts key n hkey hn (Nat.lt_of_not_le hle) algorithm hash hexpected bytes hlength)

/-! ### Where a key is not believed -/

theorem parts_eq {raw : Bytes} (h : splitOnce raw = none) : (AnnexKey.parts raw).2 = [] := by
  rw [AnnexKey.parts, h]
  rfl

/-- A key that announces a hash is supported. -/
theorem supported_of_announces {raw hash : Bytes} {key : AnnexKey} {algorithm : HashAlgorithm}
    (hkey : AnnexKey.parse raw = .ok key) (h : AnnexKey.Announces raw algorithm hash) : key.state = .supported := by
  obtain ⟨expected, -, hkey⟩ := Transition.bind_eq_ok.mp hkey
  cases hkey
  obtain ⟨hleads, hhex, hbackend⟩ := h
  have hsplit : (splitOnce raw).isSome = true := by
    rw [Option.isSome_iff_ne_none]
    intro hnone
    rw [parts_eq hnone, List.prefix_nil] at hleads
    subst hleads
    cases algorithm with
    | sha256 => exact absurd hhex (by decide)
    | sha512 => exact absurd hhex (by decide)
  have hrecognized : AnnexKey.recognized (AnnexKey.backendOf raw) = true := by
    cases algorithm with
    | sha256 =>
      rcases hbackend with ⟨hbackend, -⟩ | hbackend
      · rw [hbackend]
        decide +kernel
      · rw [hbackend]
        decide +kernel
    | sha512 =>
      rcases hbackend with ⟨hbackend, -⟩ | hbackend
      · rw [hbackend]
        decide +kernel
      · rw [hbackend]
        decide +kernel
  show (if (splitOnce raw).isSome && AnnexKey.recognized (AnnexKey.backendOf raw) then KeyState.supported
    else .unsupported) = .supported
  rw [hsplit, hrecognized]
  rfl

/-- A verified import of nothing in particular. -/
def anyConfig : AnnexImportConfig := ⟨[], "", "", "", "", "", "", "", 1, false⟩

/-- The entry holds these bytes. -/
def holding (mode : String) (blob bytes : Bytes) : WorktreeState :=
  if mode = "120000" then .symlink (some blob) (.found (.bytes bytes 0 none))
  else .file bytes.length (.ok []) (.bytes bytes 0 none)

theorem reads_holding {mode : String} {blob bytes other : Bytes} (h : (holding mode blob bytes).Reads other) :
    other = bytes := by
  unfold holding at h
  split at h
  · exact h.symm
  · exact h.symm

theorem locate_holding (mode : String) (blob bytes : Bytes) (key : AnnexKey) :
    ∃ representation copyPath, locateEntry anyConfig ⟨mode, "", 0, []⟩ blob key (holding mode blob bytes) =
      .ok (.located representation (some (.bytes bytes 0 none)) copyPath) := by
  unfold holding
  by_cases hmode : mode = "120000"
  · rw [if_pos hmode]
    refine ⟨"annex_locked_symlink", (annexObjectRelative blob).map (casPath anyConfig), ?_⟩
    show (if mode = "120000" then _ else _) = _
    rw [if_pos hmode, locateSymlink, if_neg fun h => h rfl]
  · rw [if_neg hmode]
    have hpointer : annexKeyFromBlob "100644" [] ≠ some key.raw := by
      have hnone : annexKeyFromBlob "100644" [] = none := by decide +kernel
      rw [hnone]
      intro hsome
      cases hsome
    refine ⟨"annex_unlocked_file", some (encodePath []), ?_⟩
    show (if mode = "120000" then _ else _) = _
    rw [if_neg hmode, locateFile]
    dsimp only
    by_cases hsmall : bytes.length ≤ maxPointerBytes
    · rw [if_pos hsmall, if_neg hpointer]
    · rw [if_neg hsmall]

/-- Bytes with the digest of a key whose size is not counted are present. -/
theorem present_holding (mode : String) (blob : Bytes) {raw bytes : Bytes} {key : AnnexKey} {algorithm : HashAlgorithm}
    (hkey : AnnexKey.parse raw = .ok key) (hexpected : key.expectedHash = some (algorithm, D.of algorithm bytes))
    (hsize : key.expectedSize = none) (hlength : bytes.length ≤ u64Max) :
    ∃ outcome, inspectEntry D anyConfig ⟨mode, "", 0, []⟩ blob key (holding mode blob bytes) = .ok outcome ∧
      outcome.category = .present := by
  obtain ⟨representation, copyPath, hlocated⟩ := locate_holding mode blob bytes key
  refine ⟨_, by rw [inspectEntry, if_neg (by exact Bool.false_ne_true), hlocated]; rfl, ?_⟩
  have hsupported := supported_of_announces hkey (AnnexKey.announces_of_parse hkey hexpected)
  have hstate : ¬ key.state = .unsupported := by
    rw [hsupported]
    exact KeyState.noConfusion
  show (readLocated D key representation (some (.bytes bytes 0 none)) copyPath).category = .present
  have hsome : key.expectedHash.isNone = false := by rw [hexpected]; rfl
  rw [readLocated, if_neg hstate]
  dsimp only
  rw [hsome, if_neg Bool.false_ne_true, hashFile, if_pos hlength]
  dsimp only
  have hmatches : ∀ sha512Hex, (sha512Hex = if key.expectedSha512.isSome = true then some (D.sha512 bytes) else none) →
      key.matchesContent ⟨D.blake3 bytes, D.sha256 bytes, sha512Hex, bytes.length, 0, none⟩ = true := by
    rintro sha512Hex rfl
    unfold AnnexKey.matchesContent
    rw [hexpected]
    cases algorithm with
    | sha256 => exact decide_eq_true rfl
    | sha512 =>
      have h512 : key.expectedSha512.isSome = true := by
        unfold AnnexKey.expectedHash at hexpected
        cases hsha512 : key.expectedSha512 with
        | some hash => rfl
        | none =>
          rw [hsha512] at hexpected
          cases hsha256 : key.expectedSha256 with
          | some hash => rw [hsha256] at hexpected; cases hexpected
          | none => rw [hsha256] at hexpected; cases hexpected
      dsimp only
      rw [if_pos h512]
      exact decide_eq_true rfl
  rw [hsize, hmatches _ rfl]
  rfl

/-! ### Belief -/

/-- **A key is believed exactly when** no slice splits a character and its size, where it has one, counts. -/
theorem believed_iff (D : Digests) (mode : String) (blob raw : Bytes) :
    Believed D mode blob raw ↔ ¬ AnnexKey.SplitsCharacter raw ∧ SizeCounts D raw := by
  constructor
  · intro h
    refine ⟨AnnexKey.parse_isOk.mp h.parses, ?_⟩
    intro key n hkey hsize hlarge algorithm hash hexpected bytes hlength hdigest
    subst hdigest
    have hnone : key.expectedSize = none := by
      rw [expectedSize_of_sizeField hkey hsize, if_neg (Nat.not_le_of_lt hlarge)]
    obtain ⟨outcome, houtcome, hpresent⟩ := present_holding mode blob hkey hexpected hnone hlength
    obtain ⟨other, hreads, hproven⟩ := h.proven key _ _ _ outcome hkey rfl houtcome hpresent
    rw [reads_holding hreads] at hproven
    have hcount := hproven.size n hsize
    omega
  · intro h
    obtain ⟨hwhole, hcounts⟩ := h
    refine ⟨AnnexKey.parse_isOk.mpr hwhole, fun key algorithm hash hkey hhash => AnnexKey.announces_of_parse hkey hhash,
      fun key config entry state outcome hkey _ houtcome hpresent => proven_of_present hcounts hkey houtcome hpresent, ?_⟩
    intro key config entry state outcome annexUuid logical hkey _ houtcome hitem
    refine proven_of_present hcounts hkey houtcome ?_
    by_contra hpresent
    rcases hitem with hobject | hstate
    · have hnone : (annexEntryItem D config annexUuid logical key outcome).objectId = none := by
        show ((if outcome.category = .present then outcome.content else none).map _) = none
        rw [if_neg hpresent]
        rfl
      rw [hnone] at hobject
      cases hobject
    · have hother : (annexEntryItem D config annexUuid logical key outcome).resolutionState =
          if key.state = .unsupported then "unsupported" else "unresolved" := by
        show (if outcome.category = .present then "resolved" else _) = _
        rw [if_neg hpresent]
      rw [hother] at hstate
      split at hstate
      · exact absurd hstate (by decide)
      · exact absurd hstate (by decide)

namespace Sample

/-- A name of 63 ASCII characters and one of two bytes, cut in its middle. -/
def splitKey : Bytes := utf8 "SHA256E-s3--" ++ List.replicate 63 97 ++ [195, 169]

def splitPointer : Bytes := utf8 "/annex/objects/" ++ splitKey ++ [10]

theorem splitKey_panics : annexKeyFromBlob "100644" splitPointer = some splitKey ∧
    AnnexKey.parse splitKey = .error .slice ∧ ∀ D, ¬ Believed D "100644" splitPointer splitKey := by
  have hpanics : AnnexKey.parse splitKey = .error .slice := by decide +kernel
  refine ⟨by decide +kernel, hpanics, ?_⟩
  intro D h
  obtain ⟨key, hkey⟩ := h.parses
  rw [hpanics] at hkey
  cases hkey

end Sample

end ArchiveLedger.Annex
