import ArchiveLedger.Catalog.Effects

/-!
# A verified copy holds its expected bytes

`Sound`: every row of `files` that says `verified` was last checked successfully,
is present, and shows the bytes its object expects now.  It is an invariant of
runs with fresh identifiers (`sound_run`).  An accepted change of the expectation
makes every copy of the object unverified, so the only rows that stay verified are
those whose expectation did not move.
-/

namespace ArchiveLedger

open Relational Transition

/-! ### What a finding says about a copy -/

/-- A check that verifies saw the bytes that are expected. -/
theorem judge_verified {expected : Option Digest} {result : ObservationResult} {j : Judgement}
    (h : judge expected result = .check j) (hv : j.integrity = .verified) :
    j.presence = .present ∧ j.result = .ok ∧ j.observed.isSome ∧ j.observed = expected := by
  cases result with
  | metadataPresent => cases h
  | metadataUnknown => cases h
  | rejectedChecksum blake3 => cases h; cases hv
  | checksum blake3 sizeBytes =>
    rw [judge] at h
    split at h
    · rename_i heq
      cases h
      exact ⟨rfl, rfl, rfl, heq.symm⟩
    · cases h
      cases hv
  | readError => cases h; cases hv
  | missing => cases h; cases hv

/-- An expectation that is there changes by an accepted change only. -/
theorem expected_of_not_accepted {expected : Option Digest} {acceptChange : Bool}
    {result : ObservationResult} (hsome : expected.isSome)
    (h : (decideIdentity expected acceptChange result).accepted = false) :
    (decideIdentity expected acceptChange result).expected = expected := by
  cases result with
  | checksum blake3 sizeBytes =>
    unfold decideIdentity at h ⊢
    dsimp only at h ⊢
    split at h
    · rw [hsome] at h
      cases h
    · rename_i hno
      rw [if_neg hno]
  | _ => rfl

/-- A verified row after a finding: the finding verified it, or metadata left it so. -/
theorem copy_verified {expected : Option Digest} {result : ObservationResult}
    {objectId locationId : String} {time : Nat} {old : Option FileRow}
    (hv : ((judge expected result).copy objectId locationId time old).integrity = .verified) :
    (((judge expected result).copy objectId locationId time old).presence = .present ∧
      ((judge expected result).copy objectId locationId time old).lastCheckResult = some .ok ∧
      ((judge expected result).copy objectId locationId time old).lastCheckTimeUtcMs = some time ∧
      ((judge expected result).copy objectId locationId time old).lastSuccessTimeUtcMs = some time ∧
      ((judge expected result).copy objectId locationId time old).observedBlake3 = expected ∧
      expected.isSome) ∨
    ∃ presence f, judge expected result = .metadata presence ∧ old = some f ∧
      f.integrity = .verified ∧
      ((judge expected result).copy objectId locationId time old = f ∨
        (judge expected result).copy objectId locationId time old = f.sight) := by
  cases hj : judge expected result with
  | metadata presence =>
    rw [hj] at hv
    refine Or.inr ⟨presence, ?_⟩
    cases old with
    | none => cases presence <;> cases hv
    | some f =>
      cases presence with
      | present =>
        refine ⟨f, rfl, rfl, ?_, Or.inr rfl⟩
        have hsight : (if f.integrity = .damaged then Integrity.damaged
            else if f.presence = .present then f.integrity else .unverified) = .verified := hv
        split at hsight
        · cases hsight
        · split at hsight
          · exact hsight
          · cases hsight
      | missing => exact ⟨f, rfl, rfl, hv, Or.inl rfl⟩
      | unknown => exact ⟨f, rfl, rfl, hv, Or.inl rfl⟩
  | check j =>
    rw [hj] at hv
    have hjv : j.integrity = .verified := by
      cases old with
      | none => exact hv
      | some f =>
        have hre : (if j.result = .readError ∧ f.integrity = .damaged then Integrity.damaged
            else j.integrity) = .verified := hv
        split at hre
        · cases hre
        · exact hre
    obtain ⟨hpresent, hok, hsome, hobserved⟩ := judge_verified hj hjv
    refine Or.inl ⟨?_, ?_, ?_, ?_, ?_, hobserved ▸ hsome⟩
    · cases old <;> exact hpresent
    · cases old <;> exact congrArg some hok
    · cases old <;> rfl
    · cases old with
      | none => exact if_pos hok
      | some f => exact if_pos hok
    · cases old <;> exact hobserved

/-! ### Verified rows are present -/

/-- A copy that is not there is not verified. -/
def VerifiedPresent (c : Catalog) : Prop :=
  ∀ k f, c.files.get? k = some f → f.integrity = .verified → f.presence = .present

theorem copyBefore_verified {newId : String} {c : Catalog} {o : CatalogObservation}
    {path : ObjectPath} {k : String × String} {f : FileRow}
    (h : copyBefore newId c o path k = some f) (hv : f.integrity = .verified) :
    c.files.get? k = some f ∧
      ¬ ((decisionAt newId c o path).accepted = true ∧ k.1 = (locateObject newId c path).1) := by
  unfold copyBefore at h
  split at h
  · obtain ⟨g, -, rfl⟩ := Option.map_eq_some_iff.mp h
    cases hv
  · rename_i hno
    exact ⟨h, hno⟩

theorem verifiedPresent_step {c d : Catalog} {e : Event} (hc : VerifiedPresent c)
    (h : Change c e d) : VerifiedPresent d := by
  intro k f hf hv
  cases change_effect h with
  | @observed newId o path time _ _ _ hfiles _ =>
    rw [hfiles, get?_recordAt_files] at hf
    split at hf
    · cases hf
      rcases copy_verified hv with ⟨hpresent, -⟩ | ⟨presence, g, -, hg, hgv, heq⟩
      · exact hpresent
      · obtain ⟨hget, -⟩ := copyBefore_verified hg hgv
        have hgp := hc k g hget hgv
        rcases heq with heq | heq
        · rw [findingAt, heq]; exact hgp
        · rw [findingAt, heq]; rfl
    · obtain ⟨hget, -⟩ := copyBefore_verified hf hv
      exact hc k f hget hv
  | declared time p declare entry hdecl hd =>
    rw [hd.files] at hf
    obtain ⟨g, hg, rfl⟩ := Option.map_eq_some_iff.mp hf
    split at hv
    · rw [hdecl.integrity] at hv
      cases hv
    · rename_i hp
      rw [if_neg hp]
      exact hc k g hg hv
  | kept _ _ hfiles _ =>
    rw [hfiles] at hf
    exact hc k f hf hv

/-! ### The invariant -/

/-- A verified row and the expectation of its object agree. -/
def Holds (c : Catalog) (f : FileRow) : Prop :=
  f.presence = .present ∧ f.lastCheckResult = some .ok ∧
    f.lastSuccessTimeUtcMs = f.lastCheckTimeUtcMs ∧
    ∃ blake3, f.observedBlake3 = some blake3 ∧ expectedOf c f.objectId = some blake3

def Sound (c : Catalog) : Prop :=
  ∀ k f, c.files.get? k = some f → f.integrity = .verified → Holds c f

/-- A row that stays as it is stays sound when its expectation does. -/
theorem Holds.of_expected {c d : Catalog} {f : FileRow} (h : Holds c f)
    (he : ∀ blake3, expectedOf c f.objectId = some blake3 → expectedOf d f.objectId = some blake3) :
    Holds d f := by
  obtain ⟨hpresent, hok, htime, blake3, hobserved, hexpected⟩ := h
  exact ⟨hpresent, hok, htime, blake3, hobserved, he blake3 hexpected⟩

/-- An expectation that no accepted change touches stays. -/
theorem expectedOf_recordAt_some {newId : String} {c : Catalog} {o : CatalogObservation}
    {path : ObjectPath} {time : Nat} {id : String} {blake3 : Digest}
    (hnew : c.objects.get? newId = none) (hid : expectedOf c id = some blake3)
    (hno : ¬ ((decisionAt newId c o path).accepted = true ∧ id = (locateObject newId c path).1)) :
    expectedOf (recordAt newId c o path time).2 id = some blake3 := by
  rw [expectedOf_recordAt hnew]
  split
  · rename_i heq
    have hbefore : (locateObject newId c path).2 = some blake3 := by
      rw [locateObject_expected hnew, ← heq, hid]
    have hacc : (decisionAt newId c o path).accepted = false := by
      simpa [heq] using hno
    rw [decisionAt, expected_of_not_accepted (by simp [hbefore]) hacc, hbefore]
  · exact hid

theorem sound_step {c d : Catalog} {e : Event} (hc : Sound c) (h : Change c e d)
    (hnew : e.Unused c) : Sound d := by
  intro k f hf hv
  cases change_effect h with
  | @observed newId o path time _ _ hobjects hfiles _ =>
    have hexpected : ∀ id, expectedOf d id = expectedOf (recordAt newId c o path time).2 id :=
      expectedOf_congr hobjects
    -- a row that was verified before, of an object whose change was not accepted
    have hkeep : ∀ g, copyBefore newId c o path k = some g → g.integrity = .verified → Holds d g := by
      intro g hg hgv
      obtain ⟨hget, hno⟩ := copyBefore_verified hg hgv
      have hid : g.objectId = k.1 := congrArg Prod.fst (Table.key_of_get? hget)
      refine (hc k g hget hgv).of_expected fun blake3 hb => ?_
      rw [hexpected]
      exact expectedOf_recordAt_some hnew hb (by rw [hid]; exact hno)
    have hkey : f.objectId = k.1 := congrArg Prod.fst (Table.key_of_get? hf)
    rw [hfiles, get?_recordAt_files] at hf
    split at hf
    · rename_i hk
      cases hf
      rcases copy_verified hv with ⟨hpresent, hok, htime, hsuccess, hobserved, hsome⟩ |
        ⟨presence, g, -, hg, hgv, heq⟩
      · obtain ⟨blake3, hblake3⟩ := Option.isSome_iff_exists.mp hsome
        refine ⟨hpresent, hok, hsuccess.trans htime.symm, blake3, hobserved.trans hblake3, ?_⟩
        have hid := hkey.trans (congrArg Prod.fst hk).symm
        rw [hid, hexpected, expectedOf_recordAt hnew, if_pos rfl]
        exact hblake3
      · have hg' := hkeep g hg hgv
        rcases heq with heq | heq
        · rw [findingAt, heq]
          exact hg'
        · rw [findingAt, heq]
          exact ⟨rfl, hg'.2⟩
    · exact hkeep f hf hv
  | declared time p declare entry hdecl hd =>
    rw [hd.files] at hf
    obtain ⟨g, hg, rfl⟩ := Option.map_eq_some_iff.mp hf
    split at hv
    · rw [hdecl.integrity] at hv
      cases hv
    · rename_i hp
      rw [if_neg hp]
      refine (hc k g hg hv).of_expected fun blake3 hb => ?_
      rw [expectedOf_congr hd.objects]
      exact hb
  | kept _ hobjects hfiles _ =>
    rw [hfiles] at hf
    refine (hc k f hf hv).of_expected fun blake3 hb => ?_
    rw [expectedOf_congr hobjects]
    exact hb

/-- Every catalog a run with fresh identifiers reaches is sound. -/
theorem sound_run {archiveId displayName : String} {ops : List Op}
    (h : Admissible next UlidsFresh (Catalog.create archiveId displayName) ops) :
    Sound (run next (Catalog.create archiveId displayName) ops) := by
  rw [← final_trace]
  refine Path.invariant (P := Sound) (fun c e d hc hstep => sound_step hc hstep.1 hstep.2) ?_
    (path_trace_unused h)
  intro k f hf
  cases hf

/-- A copy the catalog calls verified is present, its last check succeeded, and the
bytes then observed are the ones its object expects now. -/
theorem verified_copies_hold_expected_bytes {archiveId displayName : String} {ops : List Op}
    (h : Admissible next UlidsFresh (Catalog.create archiveId displayName) ops) {f : FileRow}
    (hf : f ∈ (run next (Catalog.create archiveId displayName) ops).files.rows)
    (hv : f.integrity = .verified) :
    f.presence = .present ∧ f.lastCheckResult = some .ok ∧
      f.lastSuccessTimeUtcMs = f.lastCheckTimeUtcMs ∧
      ∃ o, (run next (Catalog.create archiveId displayName) ops).objects.get? f.objectId = some o ∧
        o.expectedBlake3.isSome ∧ f.observedBlake3 = o.expectedBlake3 := by
  obtain ⟨hpresent, hok, htime, blake3, hobserved, hexpected⟩ :=
    sound_run h _ f (Table.get?_of_mem hf) hv
  obtain ⟨o, ho, hblake3⟩ := Option.bind_eq_some_iff.mp hexpected
  exact ⟨hpresent, hok, htime, o, ho, by rw [hblake3]; rfl, hobserved.trans hblake3.symm⟩

theorem sample_verified_copy_holds_expected_bytes :
    ∃ f ∈ sampleCatalog.files.rows, f.integrity = .verified ∧ f.presence = .present ∧
      f.lastCheckResult = some .ok ∧ f.lastSuccessTimeUtcMs = f.lastCheckTimeUtcMs ∧
      ∃ o, sampleCatalog.objects.get? f.objectId = some o ∧ o.expectedBlake3.isSome ∧
        f.observedBlake3 = o.expectedBlake3 := by
  have hget : sampleCatalog.files.get? ("o", "usb") = some (FileRow.ofCheck "o" "usb" 100
      ⟨.present, .verified, .ok, some (sampleDigest 7), fun _ => rfl⟩) := by decide +kernel
  have hf := Table.mem_of_get? hget
  exact ⟨_, hf, rfl, verified_copies_hold_expected_bytes sampleOps_admissible hf rfl⟩

end ArchiveLedger
