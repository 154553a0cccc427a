import ArchiveLedger.Evidence.Verified

/-!
# The expected identity of an object

An object's expectation is the fold of the checksum observations of its path
(`identityStep`): the first one sets it, later ones change it only when they accept
a change.  Each accepted change leaves the expectation it replaces in the history,
so these rows and the current value are all values the object ever held
(`valuesHeld`), and at each change no copy elsewhere keeps a success.
-/

namespace ArchiveLedger

open Relational Transition

/-! ### By path -/

/-- The expectation of the object at a path. -/
def expectedAt (c : Catalog) (path : ObjectPath) : Option Digest :=
  (c.objectAt path).bind ObjectRow.expectedBlake3

/-- The checksum a step records for a path, and whether it accepts a change. -/
def Event.checksumOf (path : ObjectPath) : Event → Option (Digest × Bool)
  | .submitted _ o _ true =>
      match o.result with
      | .checksum blake3 _ =>
          if observedPath o = some path then some (blake3, o.acceptChange) else none
      | _ => none
  | _ => none

/-- What a step makes of the expectation of a path. -/
def identityStep (path : ObjectPath) (expected : Option Digest) (e : Event) : Option Digest :=
  match e.checksumOf path with
  | some (blake3, accept) =>
      if expected = none ∨ accept = true then some blake3 else expected
  | none => expected

/-- The decision on an observation is the step of its path. -/
theorem expected_decideIdentity_eq_step {newId : String} {o : CatalogObservation}
    {outcome : ObservationOutcome} {path : ObjectPath} (hpath : observedPath o = some path)
    (expected : Option Digest) :
    (decideIdentity expected o.acceptChange o.result).expected =
      identityStep path expected (.submitted newId o outcome true) := by
  unfold identityStep Event.checksumOf decideIdentity
  cases hres : o.result with
  | checksum blake3 sizeBytes =>
    simp only [hpath, hres, if_true]
    by_cases hnone : expected = none
    · simp [hnone]
    · by_cases hacc : o.acceptChange = true
      · by_cases heq : expected = some blake3 <;> simp [hnone, hacc, heq]
      · simp [hnone, hacc]
  | _ => simp [hres]

theorem checksumOf_of_not_records {path : ObjectPath} {e : Event} (h : e.records = false) :
    e.checksumOf path = none := by
  cases e with
  | submitted newId o outcome fresh => cases h; rfl
  | committed op => rfl

theorem checksumOf_of_other_path {newId : String} {o : CatalogObservation}
    {outcome : ObservationOutcome} {fresh : Bool} {path : ObjectPath} (h : observedPath o ≠ some path) :
    (Event.submitted newId o outcome fresh).checksumOf path = none := by
  unfold Event.checksumOf
  cases hres : o.result <;> cases fresh <;> simp [hres, h]

theorem expectedAt_congr {c d : Catalog} (h : d.objects = c.objects) (path : ObjectPath) :
    expectedAt d path = expectedAt c path := by
  rw [expectedAt, expectedAt, Catalog.objectAt, Catalog.objectAt, h]

/-- One step moves the expectation of each path as its event says. -/
theorem expectedAt_step {c d : Catalog} {e : Event} (h : Change c e d) (hnew : e.Unused c)
    (path : ObjectPath) : expectedAt d path = identityStep path (expectedAt c path) e := by
  cases change_effect h with
  | @observed newId o path' time _ hadm hobjects _ _ =>
    obtain ⟨hpath, -⟩ := admitObservation_eq_ok.mp hadm.admitted
    have hat : d.objectAt path = (recordAt newId c o path' time).2.objectAt path := by
      rw [Catalog.objectAt, Catalog.objectAt, hobjects]
    rw [expectedAt, hat, objectAt_recordAt hnew]
    by_cases hp : path = path'
    · subst hp
      have hbefore : expectedAt c path = (locateObject newId c path).2 := by
        unfold expectedAt locateObject
        cases c.objectAt path <;> rfl
      rw [if_pos rfl, Option.bind_some, expected_apply_decisionAt, decisionAt, hbefore]
      exact expected_decideIdentity_eq_step hpath _
    · have hother : observedPath o ≠ some path := by
        rw [hpath]
        exact fun h => hp (Option.some.inj h).symm
      rw [if_neg hp, identityStep, checksumOf_of_other_path hother]
      rfl
  | declared time p declare entry _ hd => exact expectedAt_congr hd.objects path
  | kept hevent hobjects _ _ =>
    rw [identityStep, checksumOf_of_not_records hevent]
    exact expectedAt_congr hobjects path

/-- After any path of steps the expectation is the fold of its events. -/
theorem expectedAt_path {c : Catalog} {p : List (Event × Catalog)}
    (h : Path (fun c e d => Change c e d ∧ e.Unused c) c p) (path : ObjectPath) :
    expectedAt (final c p) path = (p.map Prod.fst).foldl (identityStep path) (expectedAt c path) := by
  induction p generalizing c with
  | nil => rfl
  | cons s p ih =>
    rw [final_cons, ih h.2, expectedAt_step h.1.1 h.1.2]
    rfl

/-! ### The values an object held -/

/-- The values of the expectation in the order it took them. -/
def valuesHeld (before : Option Digest) : List (Option Digest) → List Digest
  | [] => []
  | v :: rest => (if v = before then [] else v.toList) ++ valuesHeld v rest

/-- The expectations that accepted changes replaced. -/
def replacedValues (id : String) (history : List HistoryRow) : List (Option Digest) :=
  (history.filter fun r => r.kind = .expectedChecksumChanged && r.objectId = some id).map
    HistoryRow.expectedBlake3

theorem replacedValues_append (id : String) (h h' : List HistoryRow) :
    replacedValues id (h ++ h') = replacedValues id h ++ replacedValues id h' := by
  simp [replacedValues]

/-- Only an accepted change leaves a row. -/
theorem replacedValues_observationHistory (o : CatalogObservation) (id id' : String) (time : Nat)
    (before : Option Digest) (decision : IdentityDecision) (finding : Finding) :
    replacedValues id' (observationHistory o id time before decision finding) =
      if decision.accepted = true ∧ id = id' then [before] else [] := by
  cases hacc : decision.accepted <;> cases hres : finding.checkResult <;>
    by_cases hid : id = id' <;> simp [replacedValues, observationHistory, hacc, hres, hid]

/-- The three ways a decision goes: nothing changes, an expectation is established,
or an accepted change replaces one by another. -/
theorem decideIdentity_cases (expected : Option Digest) (acceptChange : Bool)
    (result : ObservationResult) :
    ((decideIdentity expected acceptChange result).accepted = false ∧
      (decideIdentity expected acceptChange result).expected = expected) ∨
    ((decideIdentity expected acceptChange result).accepted = false ∧ expected = none) ∨
    ((decideIdentity expected acceptChange result).accepted = true ∧ ∃ v w, expected = some v ∧
      (decideIdentity expected acceptChange result).expected = some w ∧ w ≠ v) := by
  cases result with
  | checksum blake3 sizeBytes =>
    unfold decideIdentity
    dsimp only
    split
    · rename_i h
      cases expected with
      | none => exact Or.inr (Or.inl ⟨rfl, rfl⟩)
      | some v =>
        refine Or.inr (Or.inr ⟨rfl, v, blake3, rfl, rfl, fun heq => ?_⟩)
        rcases h with h | ⟨-, h⟩
        · cases h
        · exact h (congrArg some heq.symm)
    · exact Or.inl ⟨rfl, rfl⟩
  | _ => exact Or.inl ⟨rfl, rfl⟩

/-- The rows about replaced values, then the current value. -/
def audit (c : Catalog) (id : String) : List (Option Digest) :=
  replacedValues id c.history ++ (expectedOf c id).toList.map some

theorem audit_of_kept (id : String) {c d : Catalog} {rows : List HistoryRow}
    (hobjects : d.objects = c.objects) (hhistory : d.history = c.history ++ rows)
    (hrows : ∀ r ∈ rows, r.kind ≠ .expectedChecksumChanged ∨ r.objectId = none) :
    audit d id = audit c id ∧ expectedOf d id = expectedOf c id := by
  have hnone : replacedValues id rows = [] := by
    rw [replacedValues, List.map_eq_nil_iff, List.filter_eq_nil_iff]
    intro r hr
    rcases hrows r hr with h | h <;> simp [h]
  have hexpected := expectedOf_congr hobjects id
  refine ⟨?_, hexpected⟩
  rw [audit, audit, hexpected, hhistory, replacedValues_append, hnone, List.append_nil]

/-- One step adds to the audit the value it moves the expectation to. -/
theorem audit_step {c d : Catalog} {e : Event} (h : Change c e d) (hnew : e.Unused c) (id : String) :
    audit d id = audit c id ++
      (if expectedOf d id = expectedOf c id then [] else (expectedOf d id).toList).map some := by
  cases change_effect h with
  | @observed newId o path time _ _ hobjects _ hhistory =>
    have hexpected : expectedOf d id = if id = (locateObject newId c path).1 then
        (decisionAt newId c o path).expected else expectedOf c id := by
      rw [expectedOf_congr hobjects, expectedOf_recordAt hnew]
    rw [recordAt_history] at hhistory
    rw [audit, hhistory, replacedValues_append, replacedValues_observationHistory, audit]
    by_cases hid : id = (locateObject newId c path).1
    · have hbefore : (locateObject newId c path).2 = expectedOf c id := by
        rw [hid]; exact locateObject_expected hnew path
      rw [if_pos hid] at hexpected
      rw [hexpected, hbefore]
      unfold decisionAt
      rw [hbefore]
      rcases decideIdentity_cases (expectedOf c id) o.acceptChange o.result with
        ⟨hacc, hsame⟩ | ⟨hacc, hnone⟩ | ⟨hacc, v, w, hv, hw, hne⟩
      · simp [hacc, hsame]
      · rw [hacc, hnone]
        cases (decideIdentity none o.acceptChange o.result).expected <;> simp
      · rw [if_pos ⟨hacc, hid.symm⟩, hw, hv, if_neg (fun h => hne (Option.some.inj h))]
        simp
    · rw [if_neg hid] at hexpected
      rw [if_neg (fun h => hid h.2.symm), hexpected, if_pos rfl]
      simp
  | declared time p declare entry hdecl hd =>
    obtain ⟨rows, hhistory, hrows, -⟩ := hd.history
    obtain ⟨haudit, hexpected⟩ := audit_of_kept id hd.objects hhistory fun r hr => by
      rcases hrows r hr with hnone | ⟨f, -, rfl⟩
      · exact Or.inr hnone
      · exact Or.inl (hdecl.entry_kind f)
    rw [haudit, hexpected, if_pos rfl]
    simp
  | kept _ hobjects _ hhistory =>
    obtain ⟨rows, hhistory, hrows⟩ := hhistory
    obtain ⟨haudit, hexpected⟩ := audit_of_kept id hobjects hhistory fun r hr =>
      Or.inr (hrows r hr)
    rw [haudit, hexpected, if_pos rfl]
    simp

/-- The audit after a path lists the values held along it. -/
theorem audit_path {c : Catalog} {p : List (Event × Catalog)}
    (h : Path (fun c e d => Change c e d ∧ e.Unused c) c p) (id : String) :
    audit (final c p) id = audit c id ++
      (valuesHeld (expectedOf c id) (p.map fun s => expectedOf s.2 id)).map some := by
  induction p generalizing c with
  | nil => simp [valuesHeld]
  | cons s p ih =>
    rw [final_cons, ih h.2, audit_step h.1.1 h.1.2, List.map_cons, valuesHeld, List.map_append,
      List.append_assoc]

/-! ### Copies at the moment of a change -/

/-- A copy that was ever successful belongs to an object with an expectation. -/
def SuccessExpected (c : Catalog) : Prop :=
  ∀ k f, c.files.get? k = some f → f.lastSuccessTimeUtcMs.isSome → (expectedOf c k.1).isSome

/-- A success after a finding: it was there before, or the finding verified the copy. -/
theorem copy_success {expected : Option Digest} {result : ObservationResult}
    {objectId locationId : String} {time : Nat} {old : Option FileRow}
    (hs : ((judge expected result).copy objectId locationId time old).lastSuccessTimeUtcMs.isSome) :
    expected.isSome ∨ ∃ f, old = some f ∧ f.lastSuccessTimeUtcMs.isSome := by
  cases hj : judge expected result with
  | metadata presence =>
    rw [hj] at hs
    cases old with
    | none => cases presence <;> cases hs
    | some f => exact Or.inr ⟨f, rfl, by cases presence <;> exact hs⟩
  | check j =>
    by_cases hok : j.result = .ok
    · left
      cases result with
      | metadataPresent => cases hj
      | metadataUnknown => cases hj
      | rejectedChecksum blake3 => cases hj; cases hok
      | checksum blake3 sizeBytes =>
        rw [judge] at hj
        split at hj
        · rename_i heq
          rw [heq]
          rfl
        · cases hj
          cases hok
      | readError => cases hj; cases hok
      | missing => cases hj; cases hok
    · right
      rw [hj] at hs
      cases old with
      | none =>
        change (if j.result = .ok then some time else none).isSome = true at hs
        rw [if_neg hok] at hs
        cases hs
      | some f =>
        change (if j.result = .ok then some time else f.lastSuccessTimeUtcMs).isSome = true at hs
        rw [if_neg hok] at hs
        exact ⟨f, rfl, hs⟩

/-- A success before the finding: it survived, so no accepted change forgot it. -/
theorem copyBefore_success {newId : String} {c : Catalog} {o : CatalogObservation}
    {path : ObjectPath} {k : String × String} {f : FileRow}
    (h : copyBefore newId c o path k = some f) (hs : f.lastSuccessTimeUtcMs.isSome) :
    c.files.get? k = some f ∧
      ¬ ((decisionAt newId c o path).accepted = true ∧ k.1 = (locateObject newId c path).1) := by
  unfold copyBefore at h
  split at h
  · obtain ⟨g, -, rfl⟩ := Option.map_eq_some_iff.mp h
    cases hs
  · rename_i hno
    exact ⟨h, hno⟩

theorem successExpected_step {c d : Catalog} {e : Event} (hc : SuccessExpected c)
    (h : Change c e d) (hnew : e.Unused c) : SuccessExpected d := by
  intro k f hf hs
  cases change_effect h with
  | @observed newId o path time _ _ hobjects hfiles _ =>
    rw [expectedOf_congr hobjects]
    have hkeep : ∀ g, copyBefore newId c o path k = some g → g.lastSuccessTimeUtcMs.isSome →
        (expectedOf (recordAt newId c o path time).2 k.1).isSome := by
      intro g hg hgs
      obtain ⟨hget, hno⟩ := copyBefore_success hg hgs
      obtain ⟨blake3, hb⟩ := Option.isSome_iff_exists.mp (hc k g hget hgs)
      rw [expectedOf_recordAt_some hnew hb hno]
      rfl
    rw [hfiles, get?_recordAt_files] at hf
    split at hf
    · rename_i hk
      cases hf
      rcases copy_success hs with hsome | ⟨g, hg, hgs⟩
      · rw [← congrArg Prod.fst hk, expectedOf_recordAt hnew, if_pos rfl]
        exact hsome
      · exact hkeep g hg hgs
    · exact hkeep f hf hs
  | declared time p declare entry hdecl hd =>
    rw [expectedOf_congr hd.objects]
    rw [hd.files] at hf
    obtain ⟨g, hg, rfl⟩ := Option.map_eq_some_iff.mp hf
    split at hs
    · rw [hdecl.lastSuccess] at hs
      exact hc k g hg hs
    · exact hc k g hg hs
  | kept _ hobjects hfiles _ =>
    rw [expectedOf_congr hobjects]
    rw [hfiles] at hf
    exact hc k f hf hs

/-- When a step moves the expectation of an object, it records an observation of it,
and no copy at another Location is left verified or with a success. -/
theorem copies_at_change {c d : Catalog} {e : Event} (hsound : Sound c) (hsuccess : SuccessExpected c)
    (h : Change c e d) (hnew : e.Unused c) {id : String} (hne : expectedOf d id ≠ expectedOf c id) :
    ∃ newId o outcome, e = .submitted newId o outcome true ∧ outcome.objectId = id ∧
      ∀ f ∈ d.files.rows, f.objectId = id → f.locationId ≠ o.locationId →
        f.integrity ≠ .verified ∧ f.lastSuccessTimeUtcMs = none := by
  cases change_effect h with
  | @observed newId o path time _ _ hobjects hfiles _ =>
    rw [expectedOf_congr hobjects, expectedOf_recordAt hnew] at hne
    have hid : id = (locateObject newId c path).1 := by
      by_contra hid
      rw [if_neg hid] at hne
      exact hne rfl
    rw [if_pos hid] at hne
    refine ⟨newId, o, _, rfl, hid.symm, fun f hf hfid hloc => ?_⟩
    have hget : d.files.get? (id, f.locationId) = some f :=
      Table.get?_eq_some.mpr ⟨hf, Prod.ext hfid rfl⟩
    rw [hfiles, get?_recordAt_files, if_neg (fun h => hloc (congrArg Prod.snd h).symm)] at hget
    have hbefore : (locateObject newId c path).2 = expectedOf c id := by
      rw [hid]; exact locateObject_expected hnew path
    -- an expectation that was there was replaced, so every copy forgot its success
    have hno : ∀ g, c.files.get? (id, f.locationId) = some g →
        ¬ ((decisionAt newId c o path).accepted = true ∧ id = (locateObject newId c path).1) →
        expectedOf c id = none := by
      intro g _ hacc
      rcases decideIdentity_cases (locateObject newId c path).2 o.acceptChange o.result with
        ⟨-, hsame⟩ | ⟨-, hnone⟩ | ⟨htrue, -⟩
      · exact absurd (hsame.trans hbefore) hne
      · exact hbefore ▸ hnone
      · exact absurd ⟨htrue, hid⟩ hacc
    constructor
    · intro hv
      obtain ⟨hg, hacc⟩ := copyBefore_verified hget hv
      obtain ⟨-, -, -, blake3, -, hb⟩ := hsound _ f hg hv
      rw [hfid, hno f hg hacc] at hb
      cases hb
    · by_contra hs
      have hs : f.lastSuccessTimeUtcMs.isSome := Option.isSome_iff_ne_none.mpr hs
      obtain ⟨hg, hacc⟩ := copyBefore_success hget hs
      have hsome := hsuccess _ f hg hs
      rw [hno f hg hacc] at hsome
      cases hsome
  | declared time p declare entry _ hd => exact absurd (expectedOf_congr hd.objects id) hne
  | kept _ hobjects _ _ => exact absurd (expectedOf_congr hobjects id) hne

/-! ### Along runs -/

/-- Along every run with fresh identifiers: the expectation of each object is the fold
of the checksum observations of its path; the history rows about it, with the current
value, list the values it held; and whenever it changes, the change is recorded by an
observation of the object that leaves no copy elsewhere verified or successful. -/
theorem expected_identity_is_audited {archiveId displayName : String} {ops : List Op}
    (h : Admissible next UlidsFresh (Catalog.create archiveId displayName) ops) :
    (∀ p q, trace (Catalog.create archiveId displayName) ops = p ++ q →
      ∀ r ∈ (final (Catalog.create archiveId displayName) p).objects.rows,
        r.expectedBlake3 = (p.map Prod.fst).foldl (identityStep r.path) none ∧
        replacedValues r.objectId (final (Catalog.create archiveId displayName) p).history ++
            r.expectedBlake3.toList.map some =
          (valuesHeld none (p.map fun s => expectedOf s.2 r.objectId)).map some) ∧
    ∀ p e d q, trace (Catalog.create archiveId displayName) ops = p ++ (e, d) :: q →
      (∀ r ∈ (final (Catalog.create archiveId displayName) p).objects.rows,
        ∃ s ∈ d.objects.rows, s.objectId = r.objectId ∧ s.path = r.path) ∧
      ∀ id, expectedOf d id ≠ expectedOf (final (Catalog.create archiveId displayName) p) id →
        ∃ newId o outcome, e = .submitted newId o outcome true ∧ outcome.objectId = id ∧
          ∀ f ∈ d.files.rows, f.objectId = id → f.locationId ≠ o.locationId →
            f.integrity ≠ .verified ∧ f.lastSuccessTimeUtcMs = none := by
  have hpath := path_trace_unused h
  constructor
  · intro p q hpq r hr
    rw [hpq] at hpath
    have hp := (path_append.mp hpath).1
    have hat : (final (Catalog.create archiveId displayName) p).objectAt r.path = some r :=
      Catalog.objectAt_eq_some.mpr ⟨hr, rfl⟩
    have hfold := expectedAt_path hp r.path
    rw [expectedAt, hat, Option.bind_some] at hfold
    refine ⟨hfold, ?_⟩
    have haudit := audit_path hp r.objectId
    have hget : (final (Catalog.create archiveId displayName) p).objects.get? r.objectId = some r :=
      Table.get?_of_mem hr
    rw [audit, expectedOf, hget, Option.bind_some] at haudit
    exact haudit
  · intro p e d q hpq
    rw [hpq] at hpath
    have hp := (path_append.mp hpath).1
    obtain ⟨hchange, hnew⟩ := hpath.step
    refine ⟨fun r hr => object_step hchange hnew hr, fun id hne => ?_⟩
    refine copies_at_change ?_ ?_ hchange hnew hne
    · exact Path.invariant (P := Sound) (fun c e d hc hs => sound_step hc hs.1 hs.2)
        (by intro k f hf; cases hf) hp
    · exact Path.invariant (P := SuccessExpected)
        (fun c e d hc hs => successExpected_step hc hs.1 hs.2)
        (by intro k f hf; cases hf) hp

/-- The small archive after other bytes were accepted at one Location. -/
def changedOps : List Op :=
  sampleOps ++ [.observeBatch (fun n => sampleIds (n + 1))
    [sampleObservation "usb" 200 (sampleDigest 8) true]]

theorem changedOps_admissible :
    Admissible next UlidsFresh (Catalog.create "archive" "Archive") changedOps := by
  refine (admissible_append next UlidsFresh).mpr ⟨sampleOps_admissible, ?_, trivial⟩
  exact sampleIds_fresh _ (show ∀ r ∈ sampleCatalog.objects.rows, ∃ i, i < 1 ∧
    r.objectId = sampleIds i by decide +kernel)

theorem changed_identity_is_audited :
    ∃ r ∈ (run next (Catalog.create "archive" "Archive") changedOps).objects.rows,
      r.expectedBlake3 = some (sampleDigest 8) ∧
      replacedValues r.objectId (run next (Catalog.create "archive" "Archive") changedOps).history ++
          r.expectedBlake3.toList.map some =
        (valuesHeld none ((trace (Catalog.create "archive" "Archive") changedOps).map
          fun s => expectedOf s.2 r.objectId)).map some := by
  have hget : (run next (Catalog.create "archive" "Archive") changedOps).objects.get? "o" =
      some ⟨"o", ⟨"photos", "utf8", utf8 "a.jpg"⟩, "a.jpg", some (sampleDigest 8), some 3⟩ := by
    decide +kernel
  have hr := Table.mem_of_get? hget
  refine ⟨_, hr, rfl, ?_⟩
  have h := (expected_identity_is_audited changedOps_admissible).1 _ [] (List.append_nil _).symm _
    (by rw [final_trace]; exact hr)
  rw [final_trace] at h
  exact h.2

end ArchiveLedger
