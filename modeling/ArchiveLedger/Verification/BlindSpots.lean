import ArchiveLedger.Projection.Candidates
import ArchiveLedger.Verification.Selection

/-!
# Copies that no selection finds

Three queries choose what is verified and repaired: a count of due Copies, the targets of a
verification and the targets of a repair.  `no_blind_spot_iff` says of which projections
they agree with each other and with the coverage rules.
-/

namespace ArchiveLedger

open Relational Outcome Transition

variable {db : Projection} {cc : CopyClaim} {locations : List VerifyLocation} {time : Nat}

/-! ### Paths that are read back -/

/-- What `path_value` stores: the bytes of a registry path of the encoding. -/
def StoredPath.Readable (stored : StoredPath) : Prop :=
  ∃ path : RegistryPath, path.encoding = stored.encoding ∧ registryPathBytes path = .ok stored.bytes

theorem registryPathFromSql_isOk {stored : StoredPath} (h : stored.Readable) (display : String) :
    ∃ path, registryPathFromSql stored display = .ok path := by
  obtain ⟨path, hencoding, hbytes⟩ := h
  unfold registryPathBytes at hbytes
  unfold registryPathFromSql
  rw [hencoding] at hbytes
  by_cases hutf8 : stored.encoding = "utf8"
  · rw [if_pos hutf8] at hbytes ⊢
    cases htext : path.text with
    | none => simp [htext] at hbytes
    | some text =>
      cases hbase : path.base64 with
      | some base64 => simp [htext, hbase] at hbytes
      | none =>
        simp only [htext, hbase, Except.ok.injEq] at hbytes
        have htoText : String.fromUTF8? ⟨stored.bytes.toArray⟩ = some text := by
          rw [← hbytes]
          exact dif_pos text.isValidUTF8
        rw [htoText]
        exact ⟨_, rfl⟩
  · rw [if_neg hutf8] at hbytes ⊢
    by_cases hother : stored.encoding = "unix_bytes" ∨ stored.encoding = "windows_utf16le"
    · rw [if_pos hother]
      exact ⟨_, rfl⟩
    · rw [if_neg hother] at hbytes
      cases hbytes

/-- Every stored path is one that was read before it was stored. -/
structure Projection.PathsReadable (db : Projection) : Prop where
  files : ∀ f ∈ db.fileObjects.rows, f.path.Readable
  locators : ∀ b ∈ db.copyBindings.rows, ∀ locator, b.locator = some locator → locator.Readable

theorem readable_copyPath (hpaths : db.PathsReadable) (h : cc ∈ db.copyClaims) : cc.relativePath.Readable := by
  obtain ⟨b, hb, h⟩ := mem_copyClaims.mp h
  simp only [Projection.copyClaim, Option.bind_eq_bind, Option.bind_eq_some_iff, Option.some.injEq] at h
  obtain ⟨_, -, f, hf, _, -, rfl⟩ := h
  cases hlocator : b.locator with
  | some locator => exact hpaths.locators b hb locator hlocator
  | none => exact hpaths.files f (Table.mem_of_get? hf)

theorem readable_logicalPath (hpaths : db.PathsReadable) {id : String} {f : FileRef}
    (h : db.fileRef? id = some f) : f.logicalPath.Readable := by
  obtain ⟨row, hrow, hf⟩ := Option.bind_eq_some_iff.mp h
  rw [(fileRef_eq_some hf).2]
  exact hpaths.files row (Table.mem_of_get? hrow)

/-! ### Targets read back -/

theorem backgroundTarget_copy {o : ContentObjectRow} {f : FileRef} {target : BackgroundTarget}
    (h : backgroundTarget locations cc o f = .ok target) : target.copyClaimId = cc.copyClaimId := by
  obtain ⟨location, -, h⟩ := bind_eq_ok.mp h
  obtain ⟨logical, -, h⟩ := bind_eq_ok.mp h
  obtain ⟨copy, -, h⟩ := bind_eq_ok.mp h
  cases h
  rfl

theorem backgroundTarget_isOk (hpaths : db.PathsReadable) (hcc : cc ∈ db.copyClaims)
    (hlocation : cc.locationId ∈ locations.map VerifyLocation.locationId) {id : String} {f : FileRef}
    (hf : db.fileRef? id = some f) (o : ContentObjectRow) :
    ∃ target, backgroundTarget locations cc o f = .ok target := by
  obtain ⟨l, hl, hid⟩ := List.mem_map.mp hlocation
  obtain ⟨location, hlocation⟩ : ∃ location,
      locations.find? (fun l => l.locationId = cc.locationId) = some location := by
    rw [← Option.isSome_iff_exists, List.find?_isSome]
    exact ⟨l, hl, decide_eq_true hid⟩
  obtain ⟨logical, hlogical⟩ := registryPathFromSql_isOk (readable_logicalPath hpaths hf) f.logicalPathDisplay
  obtain ⟨copy, hcopy⟩ := registryPathFromSql_isOk (readable_copyPath hpaths hcc) cc.relativePathDisplay
  exact ⟨_, bind_eq_ok.mpr ⟨location, okOr_eq_ok.mpr hlocation, bind_eq_ok.mpr ⟨logical, hlogical,
    bind_eq_ok.mpr ⟨copy, hcopy, rfl⟩⟩⟩⟩

/-! ### Due Copies -/

theorem isDue_iff {params : VerifyParams} {asOf : Nat} :
    db.isDue params asOf cc = true ↔ (∀ ids, params.locations = some ids → cc.locationId ∈ ids) ∧
      (cc.state = .present ∨ cc.state = .corrupt ∨ cc.state = .unknown) ∧
      (∀ t, cc.lastVerifiedTimeUtcMs = some t → t < asOf) ∧
      (∃ here ∈ db.pathObservations, copyObservationMatch cc here = true) ∧
      ∃ f ∈ db.fileRefs, db.dueFileRef params asOf cc f = true := by
  simp [Projection.isDue, Option.all_eq_true, and_assoc]

theorem object?_isSome (h : cc ∈ db.copyClaims) (hknown : cc.objectId ≠ none) :
    ∃ o, db.object? cc = some o := by
  obtain ⟨b, -, hb⟩ := mem_copyClaims.mp h
  have hobject := (copyClaim_eq_some hb).2.2.2.1
  obtain ⟨id, hid⟩ := Option.ne_none_iff_exists'.mp hknown
  rw [hid, eq_comm, Option.map_eq_some_iff] at hobject
  obtain ⟨o, ho, rfl⟩ := hobject
  obtain ⟨content, -, ho⟩ := Option.bind_eq_some_iff.mp ho
  refine ⟨o, ?_⟩
  rw [Projection.object?, hid, Option.bind_some]
  exact Table.get?_of_mem (Table.mem_of_get? ho)

theorem mem_dueCopies {params : VerifyParams} {asOf : Nat} {row : CopyClaim × ContentObjectRow} :
    row ∈ db.dueCopies params asOf ↔
      row.1 ∈ db.copyClaims ∧ db.object? row.1 = some row.2 ∧ db.isDue params asOf row.1 = true := by
  simp only [Projection.dueCopies, List.mem_filterMap, Option.bind_eq_bind, Option.bind_eq_some_iff]
  constructor
  · rintro ⟨cc, hcc, o, ho, h⟩
    split at h
    · rename_i hdue
      cases h
      exact ⟨hcc, ho, hdue⟩
    · cases h
  · rintro ⟨hcc, ho, hdue⟩
    exact ⟨row.1, hcc, row.2, ho, if_pos hdue⟩

/-- A due Copy is among the rows. -/
theorem exists_dueCopy {params : VerifyParams} {asOf : Nat} (hcc : cc ∈ db.copyClaims)
    (hdue : db.isDue params asOf cc = true) : ∃ o, (cc, o) ∈ db.dueCopies params asOf := by
  obtain ⟨f, -, hf⟩ := (isDue_iff.mp hdue).2.2.2.2
  have hknown : cc.objectId ≠ none := by
    intro hnone
    simp [Projection.dueFileRef, hnone] at hf
    cases hobject : f.objectId <;> simp [hobject] at hf
  obtain ⟨o, ho⟩ := object?_isSome hcc hknown
  exact ⟨o, mem_dueCopies.mpr ⟨hcc, ho, hdue⟩⟩

/-- A File of a matching observation is found when there is one. -/
theorem dueFile_isSome_iff :
    (db.dueFile cc).isSome ↔ ∃ here ∈ db.pathObservations, (db.candidateFile cc here).isSome := by
  rw [Option.isSome_iff_ne_none, Projection.dueFile, Ne, Keyset.head?_sorted_eq_none,
    List.filterMap_eq_nil_iff]
  simp only [not_forall, ← Option.isSome_iff_ne_none, exists_prop]

theorem candidateFile_eq_some {here : PathObservation} {f : FileRef}
    (h : db.candidateFile cc here = some f) : db.fileRef? here.fileRefId = some f :=
  (Option.filter_eq_some_iff.mp h).1

theorem length_dueRows {params : VerifyParams} {asOf : Nat} :
    (db.dueRows params asOf).length = (db.dueCopies params asOf).length ↔
      ∀ row ∈ db.dueCopies params asOf, (db.dueFile row.1).isSome := by
  rw [Projection.dueRows, ← Keyset.length_sorted dueRank (db.dueCopies params asOf),
    List.filterMap_length_eq_length]
  simp only [Option.isSome_map, Keyset.mem_sorted]

theorem mem_dueRows {params : VerifyParams} {asOf : Nat}
    {row : (CopyClaim × ContentObjectRow) × FileRef} :
    row ∈ db.dueRows params asOf ↔
      row.1 ∈ db.dueCopies params asOf ∧ db.dueFile row.1.1 = some row.2 := by
  rw [Projection.dueRows, List.mem_filterMap]
  constructor
  · rintro ⟨due, hdue, h⟩
    obtain ⟨f, hf, rfl⟩ := Option.map_eq_some_iff.mp h
    exact ⟨(Keyset.mem_sorted _).mp hdue, hf⟩
  · rintro ⟨hdue, hf⟩
    exact ⟨row.1, (Keyset.mem_sorted _).mpr hdue, by rw [hf]; rfl⟩

/-- No Location is a selection of no Copies. -/
theorem dueVerificationTargets_eq (selection : VerifySelection) (asOf limit : Nat) :
    db.dueVerificationTargets locations selection asOf limit =
      ((db.dueRows (verifySelectionParams (some locations) selection) asOf).take limit).mapM
        fun row => backgroundTarget locations row.1.1 row.1.2 row.2 := by
  unfold Projection.dueVerificationTargets
  split
  · rename_i h
    rcases h with rfl | rfl
    · have hnone : db.dueRows (verifySelectionParams (some []) selection) asOf = [] := by
        rw [List.eq_nil_iff_forall_not_mem]
        intro row hrow
        have hdue := (mem_dueCopies.mp (mem_dueRows.mp hrow).1).2.2
        exact absurd ((isDue_iff.mp hdue).1 [] (by cases selection <;> rfl)) List.not_mem_nil
      rw [hnone, List.take_nil]
      rfl
    · rw [List.take_zero]
      rfl
  · rfl

theorem dueVerificationTargets_isOk (hpaths : db.PathsReadable)
    (locations : List VerifyLocation) (selection : VerifySelection)
    (asOf limit : Nat) :
    ∃ targets, db.dueVerificationTargets locations selection asOf limit = .ok targets := by
  rw [dueVerificationTargets_eq]
  refine mapM_isOk fun row hrow => ?_
  obtain ⟨hdue, hfile⟩ := mem_dueRows.mp (List.mem_of_mem_take hrow)
  obtain ⟨hcc, -, hdue⟩ := mem_dueCopies.mp hdue
  obtain ⟨here, -, hf⟩ := List.mem_filterMap.mp (Keyset.mem_of_head?_sorted hfile)
  refine backgroundTarget_isOk hpaths hcc ?_ (candidateFile_eq_some hf) _
  exact (isDue_iff.mp hdue).1 _ (by cases selection <;> rfl)

/-! ### What the coverage rules do not count -/

/-- A time that is not before the cutoff in days is not before the saturated one. -/
theorem riskCutoff_le {maxDays t : Nat} (htime : time ≤ i64Max)
    (h : ¬ (t : Int) < time - (maxDays : Int) * dayMs) : riskCutoff time maxDays ≤ t := by
  unfold riskCutoff
  unfold i64Max at htime ⊢
  unfold dayMs at h ⊢
  omega

theorem dueAge_le (maxDays window : Nat) : dueAge maxDays window ≤ maxDays :=
  max_le (by omega) (by omega)

/-- A Copy whose checks do not count is past due within every window. -/
theorem pastDue_of_unevidenced {b : CopyBindingRow} {requirements : PolicyRequirements}
    (hcc : db.copyClaim b = some cc) (htime : time ≤ i64Max)
    (h : db.evidenced (riskCutoff time requirements.maxObservationAgeDays)
      (riskCutoff time requirements.maxVerificationAgeDays) b = false) (window : Nat) :
    pastDue time window requirements cc = true := by
  by_contra hnot
  simp only [pastDue, Bool.not_eq_true, Bool.or_eq_false_iff, Option.isNone_eq_false_iff,
    decide_eq_false_iff_not, not_not] at hnot
  obtain ⟨⟨⟨⟨hv, hok⟩, hlate⟩, hp⟩, hold⟩ := hnot
  obtain ⟨tv, htv⟩ := Option.isSome_iff_exists.mp hv
  obtain ⟨tp, htp⟩ := Option.isSome_iff_exists.mp hp
  rw [htv, Option.any_some, decide_eq_false_iff_not] at hlate
  rw [htp, Option.any_some, decide_eq_false_iff_not] at hold
  have hage : dueAge requirements.maxVerificationAgeDays window * dayMs ≤
      (requirements.maxVerificationAgeDays : Int) * dayMs :=
    Int.mul_le_mul_of_nonneg_right (dueAge_le _ _) (Int.natCast_nonneg _)
  have hlater : ¬ (tv : Int) < time - (requirements.maxVerificationAgeDays : Int) * dayMs :=
    fun hlt => hlate (lt_of_lt_of_le hlt (Int.sub_le_sub_left hage _))
  have hpcut := riskCutoff_le htime hold
  have hvcut := riskCutoff_le htime hlater
  generalize riskCutoff time requirements.maxObservationAgeDays = observation at h hpcut
  generalize riskCutoff time requirements.maxVerificationAgeDays = verification at h hvcut
  have hcounts : db.evidenced observation verification b = true := by
    rw [evidenced_iff hcc, htp, htv, freshSince, freshSince, Option.any_some, Option.any_some]
    exact ⟨hok, decide_eq_true hpcut, decide_eq_true hvcut⟩
  exact Bool.false_ne_true (h.symm.trans hcounts)

/-! ### Blind spots -/

/-- An observation of a Copy by an active File of its Object, in an active Collection
whose Policy is active. -/
structure Projection.ObservedFor (db : Projection) (cc : CopyClaim) (policy : PolicySnapshot)
    (here : PathObservation) (f : FileRef) (collection : CollectionSnapshot) : Prop where
  mem : here ∈ db.pathObservations
  file : db.fileRef? here.fileRefId = some f
  matching : copyObservationMatch cc here = true
  known : f.objectId ≠ none
  object : f.objectId = cc.objectId
  active : f.active = true
  inCollection : db.activeCollection f.collectionId = some collection
  underPolicy : db.activePolicy collection = some policy

def Projection.ObservedUnder (db : Projection) (cc : CopyClaim) (policy : PolicySnapshot) : Prop :=
  ∃ here f collection, db.ObservedFor cc policy here f collection

/-- A Copy at one of the Locations that is observed under a Policy, and whose checks the
coverage rules of that Policy do not count. -/
structure Projection.Neglected (db : Projection) (locations : List VerifyLocation) (time : Nat)
    (b : CopyBindingRow) (cc : CopyClaim) : Prop where
  located : cc.locationId ∈ locations.map VerifyLocation.locationId
  state : cc.state = .present ∨ cc.state = .corrupt ∨ cc.state = .unknown
  uncounted : ∃ policy, db.ObservedUnder cc policy ∧
    db.evidenced (riskCutoff time policy.requirements.maxObservationAgeDays)
      (riskCutoff time policy.requirements.maxVerificationAgeDays) b = false

/-- The selections agree with each other and with the coverage rules. -/
structure Projection.NoBlindSpot (db : Projection) (locations : List VerifyLocation) (time : Nat) : Prop where
  counted : ∀ selection limit, db.countDueCopies (some locations) selection time ≤ limit →
    ∃ targets, db.dueVerificationTargets locations selection time limit = .ok targets ∧
      targets.length = db.countDueCopies (some locations) selection time
  selected : ∀ b ∈ db.copyBindings.rows, ∀ cc, db.copyClaim b = some cc → db.Neglected locations time b cc →
    ∀ window limit, db.countDueCopies (some locations) (.due window) time ≤ limit →
      ∃ targets, db.dueVerificationTargets locations (.due window) time limit = .ok targets ∧
        ∃ target ∈ targets, target.copyClaimId = cc.copyClaimId
  repaired : ∀ cc ∈ db.copyClaims, cc.state = .corrupt →
    cc.locationId ∈ locations.map VerifyLocation.locationId → (∃ policy, db.ObservedUnder cc policy) →
      ∃ targets, db.repairTargets locations = .ok targets ∧
        targets.countP (fun target => target.copy.copyClaimId = cc.copyClaimId) = 1

/-- Where the selections see every Copy: a File observed at each Copy that is due when all
are, a check before the time at each neglected Copy, and a File at the first observation of
each corrupt one. -/
structure Projection.InSight (db : Projection) (locations : List VerifyLocation) (time : Nat) : Prop where
  files : ∀ cc ∈ db.copyClaims, db.isDue (verifySelectionParams (some locations) .all) time cc = true →
    ∃ here ∈ db.pathObservations, (db.candidateFile cc here).isSome
  times : ∀ b ∈ db.copyBindings.rows, ∀ cc, db.copyClaim b = some cc → db.Neglected locations time b cc →
    ∀ t, cc.lastVerifiedTimeUtcMs = some t → t < time
  first : ∀ cc ∈ db.copyClaims, cc.state = .corrupt →
    cc.locationId ∈ locations.map VerifyLocation.locationId → (∃ policy, db.ObservedUnder cc policy) →
      ∀ here, db.repairObservation cc = some here → (db.repairFile cc here).isSome

theorem mem_fileRefs {id : String} {f : FileRef} (h : db.fileRef? id = some f) : f ∈ db.fileRefs := by
  obtain ⟨row, hrow, hf⟩ := Option.bind_eq_some_iff.mp h
  exact List.mem_filterMap.mpr ⟨row, Table.mem_of_get? hrow, hf⟩

/-- A neglected Copy that was not verified since is due within every window. -/
theorem isDue_of_neglected {b : CopyBindingRow} (hcc : db.copyClaim b = some cc) (htime : time ≤ i64Max)
    (h : db.Neglected locations time b cc) (hbefore : ∀ t, cc.lastVerifiedTimeUtcMs = some t → t < time)
    (window : Nat) : db.isDue (verifySelectionParams (some locations) (.due window)) time cc = true := by
  obtain ⟨policy, ⟨here, f, collection, hobserved⟩, huncounted⟩ := h.uncounted
  have hdue := pastDue_of_unevidenced hcc htime huncounted (min window i64Max)
  refine isDue_iff.mpr ⟨?_, h.state, hbefore, ⟨here, hobserved.mem, hobserved.matching⟩, f,
    mem_fileRefs hobserved.file, ?_⟩
  · intro ids hids
    cases hids
    exact h.located
  · simp [Projection.dueFileRef, verifySelectionParams, hobserved.active, hobserved.object,
      hobserved.inCollection, hobserved.underPolicy, hdue, Option.isSome_iff_ne_none, hobserved.object ▸ hobserved.known]

/-- What any selection finds due, the selection of all Copies does. -/
theorem isDue_all {selection : VerifySelection}
    (h : db.isDue (verifySelectionParams (some locations) selection) time cc = true) :
    db.isDue (verifySelectionParams (some locations) .all) time cc = true := by
  obtain ⟨hlocated, hstate, hbefore, hhere, f, hf, hfile⟩ := isDue_iff.mp h
  refine isDue_iff.mpr ⟨?_, hstate, hbefore, hhere, f, hf, ?_⟩
  · intro ids hids
    cases hids
    exact hlocated _ (by cases selection <;> rfl)
  · simp only [Projection.dueFileRef, Bool.and_eq_true, Option.any_eq_true] at hfile ⊢
    obtain ⟨hfixed, collection, hcollection, -⟩ := hfile
    exact ⟨hfixed, collection, hcollection, rfl⟩

/-- The Copies of the targets are those of the rows. -/
theorem targets_copies {selection : VerifySelection} {asOf limit : Nat} {targets : List BackgroundTarget}
    (h : db.dueVerificationTargets locations selection asOf limit = .ok targets) :
    targets.map BackgroundTarget.copyClaimId =
      ((db.dueRows (verifySelectionParams (some locations) selection) asOf).take limit).map
        fun row => row.1.1.copyClaimId := by
  rw [dueVerificationTargets_eq] at h
  exact map_of_mapM h fun row target => backgroundTarget_copy

/-- Without a limit the rows are all read back. -/
theorem take_dueRows {selection : VerifySelection} {limit : Nat}
    (h : db.countDueCopies (some locations) selection time ≤ limit) :
    (db.dueRows (verifySelectionParams (some locations) selection) time).take limit =
      db.dueRows (verifySelectionParams (some locations) selection) time := by
  refine List.take_of_length_le (le_trans ?_ h)
  rw [Projection.dueRows, Projection.countDueCopies, ← Keyset.length_sorted dueRank]
  exact List.length_filterMap_le _ _

/-! ### Repair targets -/

theorem repairRow_eq_some {ids : List String} {row : RepairRow} :
    db.repairRow ids cc = some row ↔ cc.state = .corrupt ∧ cc.locationId ∈ ids ∧ row.copy = cc ∧
      db.object? cc = some row.object ∧ db.repairObservation cc = some row.here ∧
      db.repairFile cc row.here = some row.file := by
  simp only [Projection.repairRow, Option.bind_eq_bind, Option.bind_eq_some_iff]
  constructor
  · rintro ⟨o, ho, here, hhere, f, hf, h⟩
    split at h
    · rename_i hin
      cases h
      exact ⟨hin.1, hin.2, rfl, ho, hhere, hf⟩
    · cases h
  · rintro ⟨hstate, hlocated, rfl, ho, hhere, hf⟩
    exact ⟨row.object, ho, row.here, hhere, row.file, hf, if_pos ⟨hstate, hlocated⟩⟩

/-- The rows a repair reads back. -/
def Projection.repairRows (db : Projection) (locations : List VerifyLocation) : List RepairRow :=
  db.copyClaims.filterMap (db.repairRow (locations.map VerifyLocation.locationId))

theorem mem_repairRows {row : RepairRow} :
    row ∈ db.repairRows locations ↔ row.copy ∈ db.copyClaims ∧
      db.repairRow (locations.map VerifyLocation.locationId) row.copy = some row := by
  rw [Projection.repairRows, List.mem_filterMap]
  constructor
  · rintro ⟨cc, hcc, h⟩
    have hcopy := (repairRow_eq_some.mp h).2.2.1
    exact ⟨hcopy ▸ hcc, hcopy ▸ h⟩
  · rintro ⟨hcc, h⟩
    exact ⟨row.copy, hcc, h⟩

theorem repairRows_nodup : ((db.repairRows locations).map fun row => row.copy.copyClaimId).Nodup := by
  refine List.pairwise_map.mpr (List.pairwise_filterMap.mpr
    ((List.pairwise_map.mp copyClaims_nodup).imp ?_))
  intro cc cc' hne row hrow row' hrow'
  rw [(repairRow_eq_some.mp hrow).2.2.1, (repairRow_eq_some.mp hrow').2.2.1]
  exact hne

theorem repairTargets_copies {targets : List RepairTarget} (h : db.repairTargets locations = .ok targets) :
    targets.map (fun target => target.copy.copyClaimId) =
      (Keyset.sorted repairRank (db.repairRows locations)).map fun row => row.copy.copyClaimId := by
  refine map_of_mapM h fun row target htarget => ?_
  obtain ⟨copy, hcopy, htarget⟩ := bind_eq_ok.mp htarget
  cases htarget
  exact backgroundTarget_copy hcopy

theorem repairTargets_isOk (hpaths : db.PathsReadable) (locations : List VerifyLocation) :
    ∃ targets, db.repairTargets locations = .ok targets := by
  unfold Projection.repairTargets
  refine mapM_isOk fun row hrow => ?_
  have hmem : row ∈ db.repairRows locations := (Keyset.mem_sorted repairRank).mp hrow
  obtain ⟨hcc, hrow⟩ := mem_repairRows.mp hmem
  obtain ⟨-, hlocated, -, -, -, hfile⟩ := repairRow_eq_some.mp hrow
  obtain ⟨copy, hcopy⟩ := backgroundTarget_isOk hpaths hcc hlocated
    (Option.filter_eq_some_iff.mp hfile).1 row.object
  exact ⟨⟨copy, row.here.observedSizeBytes, row.here.modifiedTimeUtcMs⟩,
    bind_eq_ok.mpr ⟨copy, hcopy, rfl⟩⟩

/-- A Copy is repaired once where it has a row, and not at all elsewhere. -/
theorem repaired_once_iff {targets : List RepairTarget} (h : db.repairTargets locations = .ok targets)
    (hcc : cc ∈ db.copyClaims) :
    targets.countP (fun target => target.copy.copyClaimId = cc.copyClaimId) = 1 ↔
      (db.repairRow (locations.map VerifyLocation.locationId) cc).isSome := by
  have hcount : targets.countP (fun target => target.copy.copyClaimId = cc.copyClaimId) =
      ((db.repairRows locations).map fun row => row.copy.copyClaimId).count cc.copyClaimId := by
    have hids := repairTargets_copies h
    have hperm := ((Keyset.perm_sorted repairRank (db.repairRows locations)).map
      fun row => row.copy.copyClaimId).count_eq cc.copyClaimId
    rw [← hperm, ← hids, List.count, List.countP_map]
    rfl
  rw [hcount]
  constructor
  · intro hone
    have hmem : cc.copyClaimId ∈ (db.repairRows locations).map fun row => row.copy.copyClaimId :=
      List.count_pos_iff.mp (by omega)
    obtain ⟨row, hrow, hid⟩ := List.mem_map.mp hmem
    obtain ⟨hcopy, hrow⟩ := mem_repairRows.mp hrow
    rw [← eq_of_copyClaimId hcopy hcc hid, hrow]
    rfl
  · intro hsome
    obtain ⟨row, hrow⟩ := Option.isSome_iff_exists.mp hsome
    have hcopy := (repairRow_eq_some.mp hrow).2.2.1
    refine List.count_eq_one_of_mem repairRows_nodup (List.mem_map.mpr ⟨row, ?_, by rw [hcopy]⟩)
    exact mem_repairRows.mpr ⟨hcopy ▸ hcc, hcopy ▸ hrow⟩

/-! ### The selections together -/

/-- **The selections have no blind spot exactly where they see every Copy.** -/
theorem no_blind_spot_iff (hpaths : db.PathsReadable) (htime : time ≤ i64Max) :
    db.NoBlindSpot locations time ↔ db.InSight locations time := by
  constructor
  · intro h
    refine ⟨?_, ?_, ?_⟩
    · intro cc hcc hdue
      obtain ⟨targets, htargets, hlength⟩ := h.counted .all _ le_rfl
      have hrows := congrArg List.length (targets_copies htargets)
      rw [List.length_map, List.length_map, take_dueRows le_rfl, hlength] at hrows
      obtain ⟨o, ho⟩ := exists_dueCopy hcc hdue
      have hfiles : ∀ row ∈ db.dueCopies (verifySelectionParams (some locations) .all) time,
          (db.dueFile row.1).isSome := length_dueRows.mp hrows.symm
      exact dueFile_isSome_iff.mp (hfiles (cc, o) ho)
    · intro b hb cc hcc hneglected
      obtain ⟨targets, htargets, target, htarget, hid⟩ := h.selected b hb cc hcc hneglected 0 _ le_rfl
      have hmem : cc.copyClaimId ∈ targets.map BackgroundTarget.copyClaimId :=
        hid ▸ List.mem_map_of_mem htarget
      rw [targets_copies htargets] at hmem
      obtain ⟨row, hrow, hid⟩ := List.mem_map.mp hmem
      obtain ⟨hcopy, -, hdue⟩ := mem_dueCopies.mp (mem_dueRows.mp (List.mem_of_mem_take hrow)).1
      rw [eq_of_copyClaimId hcopy (mem_copyClaims.mpr ⟨b, hb, hcc⟩) hid] at hdue
      exact (isDue_iff.mp hdue).2.2.1
    · intro cc hcc hstate hlocated hobserved here hhere
      obtain ⟨targets, htargets, hone⟩ := h.repaired cc hcc hstate hlocated hobserved
      obtain ⟨row, hrow⟩ := Option.isSome_iff_exists.mp ((repaired_once_iff htargets hcc).mp hone)
      obtain ⟨-, -, -, -, hfirst, hfile⟩ := repairRow_eq_some.mp hrow
      rw [hfirst, Option.some.injEq] at hhere
      rw [← hhere, hfile]
      rfl
  · intro h
    have hfound : ∀ selection, ∀ row ∈ db.dueCopies (verifySelectionParams (some locations) selection) time,
        (db.dueFile row.1).isSome := by
      intro selection row hrow
      obtain ⟨hcc, -, hdue⟩ := mem_dueCopies.mp hrow
      exact dueFile_isSome_iff.mpr (h.files row.1 hcc (isDue_all hdue))
    refine ⟨?_, ?_, ?_⟩
    · intro selection limit hlimit
      obtain ⟨targets, htargets⟩ :=
        dueVerificationTargets_isOk hpaths locations selection time limit
      have hrows := congrArg List.length (targets_copies htargets)
      rw [List.length_map, List.length_map, take_dueRows hlimit,
        length_dueRows.mpr (hfound selection)] at hrows
      exact ⟨targets, htargets, hrows⟩
    · intro b hb cc hcc hneglected window limit hlimit
      obtain ⟨targets, htargets⟩ :=
        dueVerificationTargets_isOk hpaths locations (.due window) time limit
      have hdue := isDue_of_neglected hcc htime hneglected (h.times b hb cc hcc hneglected) window
      obtain ⟨o, ho⟩ := exists_dueCopy (mem_copyClaims.mpr ⟨b, hb, hcc⟩) hdue
      obtain ⟨f, hf⟩ := Option.isSome_iff_exists.mp (hfound (.due window) _ ho)
      have hmem : cc.copyClaimId ∈ targets.map BackgroundTarget.copyClaimId := by
        rw [targets_copies htargets, take_dueRows hlimit]
        exact List.mem_map.mpr ⟨((cc, o), f), mem_dueRows.mpr ⟨ho, hf⟩, rfl⟩
      obtain ⟨target, htarget, hid⟩ := List.mem_map.mp hmem
      exact ⟨targets, htargets, target, htarget, hid⟩
    · intro cc hcc hstate hlocated hobserved
      obtain ⟨targets, htargets⟩ := repairTargets_isOk hpaths locations
      refine ⟨targets, htargets, (repaired_once_iff htargets hcc).mpr ?_⟩
      obtain ⟨policy, here, f, collection, hhere⟩ := hobserved
      obtain ⟨o, ho⟩ := object?_isSome hcc (hhere.object ▸ hhere.known)
      obtain ⟨first, hfirst⟩ : ∃ first, db.repairObservation cc = some first := by
        rw [← Option.ne_none_iff_exists', Projection.repairObservation, Ne, Keyset.head?_sorted_eq_none]
        exact List.ne_nil_of_mem (List.mem_filter.mpr ⟨hhere.mem, hhere.matching⟩)
      obtain ⟨file, hfile⟩ := Option.isSome_iff_exists.mp
        (h.first cc hcc hstate hlocated ⟨policy, here, f, collection, hhere⟩ first hfirst)
      rw [repairRow_eq_some.mpr ⟨hstate, hlocated, (rfl : (RepairRow.mk cc o first file).copy = cc), ho, hfirst, hfile⟩]
      rfl

/-! ### A Copy of a retired Collection -/

namespace Sample

/-- A corrupt Copy at the path of the first File, and a second File of the same content in
another Collection. -/
def sharedCopy (status : String) : Projection :=
  let collection (id status : String) : CollectionSnapshot := ⟨id, "Collection", none, none, some "pol_1", status⟩
  let empty := Projection.empty projectionMeta
  { empty with
    policies := Table.empty.insertOrIgnore thirtyDays
    collections := (Table.empty.insertOrIgnore (collection "col_1" status)).insertOrIgnore (collection "col_2" "active")
    locations := Table.empty.insertOrIgnore (location 1)
    contentObjects := Table.empty.insertOrIgnore sharedContent
    fileObjects := (Table.empty.insertOrIgnore (sharedFile "file_1" "col_1" "a")).insertOrIgnore
      (sharedFile "file_2" "col_2" "b")
    fileLocations := Table.empty.insertOrIgnore
      { fileId := "file_1", locationId := locationId 1, representation := "ordinary_file"
        content := some sharedContent.objectId, external := none, presence := true
        copyId := some "copy_1", latestPresence := some 0, firstRecord := "rec_1", lastRecord := "rec_1"
        seenTime := 1, observedSize := some 1, modifiedTime := none, completeScan := none }
    copyBindings := Table.empty.insertOrIgnore
      { canonicalId := "copy_1", owner := ("file_1", locationId 1), locationId := locationId 1
        pathKey := "key_a", locator := none, locatorDisplay := none, content := some sharedContent.objectId
        external := none, basis := .observedBytes, state := .corrupt, firstRecord := "rec_1"
        stateRecord := "rec_2", latestPresence := some 1, latestIntegrity := some 1, completeScan := none }
    checks := [⟨("file_1", locationId 1), 1, .present, .verified, none⟩,
      ⟨("file_1", locationId 1), 2, .present, .damaged, some ("hash_mismatch", none)⟩] }

def oneLocation : List VerifyLocation := [⟨locationId 1, [], "match"⟩]

theorem sharedFile_readable (file collection path : String) : (sharedFile file collection path).path.Readable :=
  ⟨.utf8 path, rfl, rfl⟩

theorem sharedCopy_readable (status : String) : (sharedCopy status).PathsReadable := by
  refine ⟨?_, ?_⟩
  · intro f hf
    have hrows : (sharedCopy status).fileObjects.rows =
        [sharedFile "file_1" "col_1" "a", sharedFile "file_2" "col_2" "b"] := rfl
    rw [hrows, List.mem_cons, List.mem_singleton] at hf
    rcases hf with rfl | rfl
    · exact sharedFile_readable _ _ _
    · exact sharedFile_readable _ _ _
  · intro b hb locator hlocator
    have hnone : ∀ b ∈ (sharedCopy status).copyBindings.rows, b.locator = none := by
      show ∀ b ∈ [_], _
      simp
    rw [hnone b hb] at hlocator
    cases hlocator

/-- A Copy is due without being a target when its own Collection is retired. -/
theorem retired_blind_spot : ¬ (sharedCopy "retired").NoBlindSpot oneLocation 10 := by
  intro h
  obtain ⟨targets, htargets, hlength⟩ := h.counted .all 1 (by decide)
  have hnone : (sharedCopy "retired").dueVerificationTargets oneLocation .all 10 1 = .ok [] := rfl
  rw [hnone] at htargets
  cases htargets
  exact absurd hlength (by decide)

/-- With both Collections active it is a target of each selection. -/
theorem active_no_blind_spot : (sharedCopy "active").NoBlindSpot oneLocation 10 := by
  have hclaims : ∀ cc ∈ (sharedCopy "active").copyClaims,
      cc.lastVerifiedTimeUtcMs = some 2 ∧
        (∃ here ∈ (sharedCopy "active").pathObservations,
          ((sharedCopy "active").candidateFile cc here).isSome) ∧
        ∀ here, (sharedCopy "active").repairObservation cc = some here →
          ((sharedCopy "active").repairFile cc here).isSome := by
    show ∀ cc ∈ [_], _
    rw [List.forall_mem_singleton]
    refine ⟨rfl, ⟨_, List.mem_singleton_self _, rfl⟩, ?_⟩
    intro here hhere
    cases hhere
    rfl
  refine (no_blind_spot_iff (sharedCopy_readable "active") (by decide)).mpr ⟨?_, ?_, ?_⟩
  · intro cc hcc _
    exact (hclaims cc hcc).2.1
  · intro b hb cc hcc _ t ht
    rw [(hclaims cc (mem_copyClaims.mpr ⟨b, hb, hcc⟩)).1] at ht
    cases ht
    decide
  · intro cc hcc _ _ _
    exact (hclaims cc hcc).2.2

end Sample

end ArchiveLedger
