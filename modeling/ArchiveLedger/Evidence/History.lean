import ArchiveLedger.Evidence.Verified

/-!
# Current evidence is the fold of the history

`Evidence.replay` reads one history row into the evidence of one copy; `replayAll`
folds a history.  `Recorded`: what `files` shows of a copy is what its history
replays to, the initial evidence for a copy without a row, and no check in the
history is later than the last one shown.  The state and the history are written
by separate statements in three places; `recorded_step` compares them for each.
-/

namespace ArchiveLedger

open Relational Transition

/-- The columns of a copy that checks determine. -/
structure Evidence where
  integrity : Integrity
  lastCheckTimeUtcMs : Option Nat
  lastCheckResult : Option CheckResult
  observedBlake3 : Option Digest
  lastSuccessTimeUtcMs : Option Nat
deriving DecidableEq, Repr

/-- Nothing was ever checked. -/
def Evidence.initial : Evidence := ⟨.unverified, none, none, none, none⟩

def FileRow.evidence (f : FileRow) : Evidence :=
  ⟨f.integrity, f.lastCheckTimeUtcMs, f.lastCheckResult, f.observedBlake3, f.lastSuccessTimeUtcMs⟩

/-- What a check result makes of the integrity; damage survives a read error. -/
def Integrity.after (old : Integrity) : CheckResult → Integrity
  | .ok => .verified
  | .mismatch => .damaged
  | .missing => .unverified
  | .readError => if old = .damaged then .damaged else .unverified

def Evidence.check (e : Evidence) (time : Nat) (result : CheckResult) (observed : Option Digest) :
    Evidence where
  integrity := e.integrity.after result
  lastCheckTimeUtcMs := some time
  lastCheckResult := some result
  observedBlake3 := observed
  lastSuccessTimeUtcMs := if result = .ok then some time else e.lastSuccessTimeUtcMs

/-- The expectation changed: what was verified counts no more. -/
def Evidence.forget (e : Evidence) : Evidence :=
  { e with integrity := .unverified, lastSuccessTimeUtcMs := none }

/-- One history row, read for the copy of an object at a Location. -/
def Evidence.replay (objectId locationId : String) (e : Evidence) (r : HistoryRow) : Evidence :=
  match r.checkResult with
  | some result =>
      if r.concerns objectId locationId then e.check r.timeUtcMs result r.observedBlake3 else e
  | none =>
      if r.kind = .expectedChecksumChanged ∧ r.objectId = some objectId then e.forget else e

/-- The history rows, in order. -/
def replayAll (objectId locationId : String) (history : List HistoryRow) (e : Evidence) : Evidence :=
  history.foldl (Evidence.replay objectId locationId) e

/-- The times of the checks of a copy. -/
def checkTimes (objectId locationId : String) (history : List HistoryRow) : List Nat :=
  (history.filter fun r => r.concerns objectId locationId && r.checkResult.isSome).map
    HistoryRow.timeUtcMs

/-- The evidence `files` shows of a copy. -/
def evidenceOf (row : Option FileRow) : Evidence := (row.map FileRow.evidence).getD .initial

theorem replayAll_append (objectId locationId : String) (h h' : List HistoryRow) (e : Evidence) :
    replayAll objectId locationId (h ++ h') e =
      replayAll objectId locationId h' (replayAll objectId locationId h e) := List.foldl_append

theorem checkTimes_append (objectId locationId : String) (h h' : List HistoryRow) :
    checkTimes objectId locationId (h ++ h') =
      checkTimes objectId locationId h ++ checkTimes objectId locationId h' := by
  simp [checkTimes]

/-! ### Rows that are not about the copy -/

/-- Rows that do not change a copy's evidence can be left out of its history. -/
theorem replayAll_filter {objectId locationId : String} {rows : List HistoryRow}
    (h : ∀ r ∈ rows, r.concerns objectId locationId = false →
      r.kind ≠ .expectedChecksumChanged ∨ r.objectId = none) (e : Evidence) :
    replayAll objectId locationId rows e =
      replayAll objectId locationId (rows.filter (HistoryRow.concerns objectId locationId)) e := by
  induction rows generalizing e with
  | nil => rfl
  | cons r rows ih =>
    have hrest := ih fun s hs => h s (List.mem_cons_of_mem _ hs)
    cases hr : r.concerns objectId locationId with
    | true =>
      rw [List.filter_cons_of_pos hr]
      exact hrest _
    | false =>
      rw [List.filter_cons_of_neg (by simp [hr])]
      have hkeep : e.replay objectId locationId r = e := by
        unfold Evidence.replay
        split
        · simp [hr]
        · rw [if_neg]
          rintro ⟨hkind, hid⟩
          rcases h r List.mem_cons_self hr with hne | hnone
          · exact hne hkind
          · rw [hnone] at hid
            cases hid
      rw [replayAll, List.foldl_cons, hkeep]
      exact hrest e

theorem checkTimes_filter (objectId locationId : String) (rows : List HistoryRow) :
    checkTimes objectId locationId rows =
      checkTimes objectId locationId (rows.filter (HistoryRow.concerns objectId locationId)) := by
  unfold checkTimes
  rw [List.filter_filter]
  congr 2
  funext r
  cases r.concerns objectId locationId <;> simp

/-! ### What a finding writes -/

/-- The integrity a judgement writes is the one its result stands for. -/
theorem judge_integrity {expected : Option Digest} {result : ObservationResult} {j : Judgement}
    (h : judge expected result = .check j) : j.integrity = Integrity.unverified.after j.result := by
  cases result with
  | metadataPresent => cases h
  | metadataUnknown => cases h
  | rejectedChecksum blake3 => cases h; rfl
  | checksum blake3 sizeBytes =>
    rw [judge] at h
    split at h <;> cases h <;> rfl
  | readError => cases h; rfl
  | missing => cases h; rfl

/-- Evidence after a finding: metadata says nothing, a check is a check. -/
def Evidence.find (e : Evidence) (time : Nat) : Finding → Evidence
  | .metadata _ => e
  | .check j => e.check time j.result j.observed

/-- The row a finding leaves shows the evidence it adds. -/
theorem evidence_copy {expected : Option Digest} {result : ObservationResult}
    (objectId locationId : String) (time : Nat) {old : Option FileRow}
    (hold : ∀ f, old = some f → f.integrity = .verified → f.presence = .present) :
    ((judge expected result).copy objectId locationId time old).evidence =
      (evidenceOf old).find time (judge expected result) := by
  cases hj : judge expected result with
  | metadata presence =>
    cases old with
    | none => cases presence <;> rfl
    | some f =>
      cases presence with
      | present =>
        have hint : f.sight.integrity = f.integrity := by
          change (if f.integrity = .damaged then Integrity.damaged
            else if f.presence = .present then f.integrity else .unverified) = f.integrity
          cases hi : f.integrity with
          | damaged => rfl
          | unverified => simp
          | verified => simp [hold f rfl hi]
        exact congrArg (fun i : Integrity => { f.evidence with integrity := i }) hint
      | missing => rfl
      | unknown => rfl
  | check j =>
    have hint := judge_integrity hj
    cases old with
    | none =>
      change (⟨j.integrity, some time, some j.result, j.observed, _⟩ : Evidence) = _
      rw [hint]
      rfl
    | some f =>
      have hafter : (if j.result = .readError ∧ f.integrity = .damaged then Integrity.damaged
          else j.integrity) = f.integrity.after j.result := by
        rw [hint]
        cases hr : j.result <;> simp [Integrity.after]
      exact congrArg (fun i : Integrity => (⟨i, some time, some j.result, j.observed,
        if j.result = .ok then some time else f.lastSuccessTimeUtcMs⟩ : Evidence)) hafter

/-- The history rows of an observation replay to what its finding adds, after the
change of expectation when there was one. -/
theorem replayAll_observationHistory (o : CatalogObservation) (id : String) (time : Nat)
    (before : Option Digest) (decision : IdentityDecision) (finding : Finding) (i l : String)
    (e : Evidence) :
    replayAll i l (observationHistory o id time before decision finding) e =
      if id = i ∧ o.locationId = l then
        (if decision.accepted = true ∧ i = id then e.forget else e).find time finding
      else if decision.accepted = true ∧ i = id then e.forget else e := by
  unfold observationHistory
  rw [replayAll_append]
  have hchange : replayAll i l (if decision.accepted = true then [{
        objectId := some id
        locationId := some o.locationId
        timeUtcMs := time
        kind := .expectedChecksumChanged
        checkResult := none
        expectedBlake3 := before
        observedBlake3 := decision.expected
        details := .job o.jobId }] else []) e =
      if decision.accepted = true ∧ i = id then e.forget else e := by
    cases decision.accepted with
    | false => rfl
    | true => simp [replayAll, Evidence.replay, eq_comm]
  rw [hchange]
  generalize (if decision.accepted = true ∧ i = id then e.forget else e) = e'
  cases finding with
  | metadata presence => simp [replayAll, Evidence.replay, Finding.checkResult, Evidence.find]
  | check j =>
    simp [replayAll, Evidence.replay, Finding.checkResult, Finding.observed, Evidence.find,
      HistoryRow.concerns]

theorem checkTimes_observationHistory (o : CatalogObservation) (id : String) (time : Nat)
    (before : Option Digest) (decision : IdentityDecision) (finding : Finding) (i l : String) :
    checkTimes i l (observationHistory o id time before decision finding) =
      if (id = i ∧ o.locationId = l) ∧ finding.checkResult.isSome = true then [time] else [] := by
  have hchange : ∀ b : Bool, checkTimes i l (if b = true then [{
        objectId := some id
        locationId := some o.locationId
        timeUtcMs := time
        kind := .expectedChecksumChanged
        checkResult := none
        expectedBlake3 := before
        observedBlake3 := decision.expected
        details := .job o.jobId }] else []) = [] := by
    intro b
    cases b <;> simp [checkTimes]
  unfold observationHistory
  rw [checkTimes_append, hchange]
  rw [List.nil_append]
  by_cases hid : id = i <;> by_cases hloc : o.locationId = l <;>
    cases finding.checkResult <;> simp [checkTimes, HistoryRow.concerns, hid, hloc]

/-! ### The invariant -/

structure Recorded (c : Catalog) : Prop where
  verified : VerifiedPresent c
  evidence : ∀ i l, evidenceOf (c.files.get? (i, l)) = replayAll i l c.history .initial
  bounded : ∀ i l, ∀ t ∈ checkTimes i l c.history,
    ∃ last, (evidenceOf (c.files.get? (i, l))).lastCheckTimeUtcMs = some last ∧ t ≤ last
  ordered : ∀ i l, (checkTimes i l c.history).Pairwise (· ≤ ·)

/-- What one step adds to the evidence of a copy it also adds to its history: either
nothing, or one check that is not older than the last. -/
theorem recorded_of_append {c d : Catalog} {rows : List HistoryRow} (hc : Recorded c)
    (hverified : VerifiedPresent d) (hhistory : d.history = c.history ++ rows)
    (hevidence : ∀ i l, evidenceOf (d.files.get? (i, l)) =
      replayAll i l rows (evidenceOf (c.files.get? (i, l))))
    (htimes : ∀ i l,
      (checkTimes i l rows = [] ∧ (evidenceOf (d.files.get? (i, l))).lastCheckTimeUtcMs =
        (evidenceOf (c.files.get? (i, l))).lastCheckTimeUtcMs) ∨
      ∃ time, checkTimes i l rows = [time] ∧
        (evidenceOf (d.files.get? (i, l))).lastCheckTimeUtcMs = some time ∧
        ∀ prior, (evidenceOf (c.files.get? (i, l))).lastCheckTimeUtcMs = some prior → prior ≤ time) :
    Recorded d where
  verified := hverified
  evidence i l := by rw [hhistory, replayAll_append, ← hc.evidence, hevidence]
  bounded := by
    intro i l t ht
    rw [hhistory, checkTimes_append] at ht
    rcases htimes i l with ⟨hnil, hlast⟩ | ⟨time, hone, hlast, hprior⟩
    · rw [hnil, List.append_nil] at ht
      rw [hlast]
      exact hc.bounded i l t ht
    · rw [hone, List.mem_append, List.mem_singleton] at ht
      refine ⟨time, hlast, ?_⟩
      rcases ht with ht | rfl
      · obtain ⟨last, hl, hle⟩ := hc.bounded i l t ht
        exact hle.trans (hprior last hl)
      · exact le_rfl
  ordered := by
    intro i l
    rw [hhistory, checkTimes_append]
    rcases htimes i l with ⟨hnil, -⟩ | ⟨time, hone, -, hprior⟩
    · rw [hnil, List.append_nil]
      exact hc.ordered i l
    · rw [hone, List.pairwise_append]
      refine ⟨hc.ordered i l, List.pairwise_singleton _ _, fun t ht u hu => ?_⟩
      rw [List.mem_singleton.mp hu]
      obtain ⟨last, hl, hle⟩ := hc.bounded i l t ht
      exact hle.trans (hprior last hl)

theorem evidenceOf_copyBefore (newId : String) (c : Catalog) (o : CatalogObservation)
    (path : ObjectPath) (k : String × String) :
    evidenceOf (copyBefore newId c o path k) =
      if (decisionAt newId c o path).accepted = true ∧ k.1 = (locateObject newId c path).1 then
        (evidenceOf (c.files.get? k)).forget
      else evidenceOf (c.files.get? k) := by
  unfold copyBefore
  split
  · cases c.files.get? k <;> rfl
  · rfl

theorem recorded_observed {newId : String} {c d : Catalog} {o : CatalogObservation}
    {path : ObjectPath} {time : Nat} (hc : Recorded c) (hadm : Admitted newId c o path time)
    (hverified : VerifiedPresent d) (hfiles : d.files = (recordAt newId c o path time).2.files)
    (hhistory : d.history = (recordAt newId c o path time).2.history) : Recorded d := by
  rw [recordAt_history] at hhistory
  have hevidence : ∀ i l, evidenceOf (d.files.get? (i, l)) =
      replayAll i l (observationHistory o (locateObject newId c path).1 time
        (locateObject newId c path).2 (decisionAt newId c o path) (findingAt newId c o path))
        (evidenceOf (c.files.get? (i, l))) := by
    intro i l
    rw [hfiles, get?_recordAt_files, replayAll_observationHistory]
    by_cases hk : (locateObject newId c path).1 = i ∧ o.locationId = l
    · rw [if_pos (Prod.ext hk.1 hk.2), if_pos hk]
      change ((findingAt newId c o path).copy _ _ _ _).evidence = _
      rw [findingAt, evidence_copy, evidenceOf_copyBefore]
      intro f hf hv
      exact hc.verified _ f (copyBefore_verified hf hv).1 hv
    · rw [if_neg (fun h => hk ⟨congrArg Prod.fst h, congrArg Prod.snd h⟩), if_neg hk,
        evidenceOf_copyBefore]
  refine recorded_of_append hc hverified hhistory hevidence fun i l => ?_
  rw [checkTimes_observationHistory, hevidence, replayAll_observationHistory]
  have hforget : ∀ (p : Prop) [Decidable p] (e : Evidence),
      (if p then e.forget else e).lastCheckTimeUtcMs = e.lastCheckTimeUtcMs := by
    intro p _ e
    split <;> rfl
  by_cases hk : (locateObject newId c path).1 = i ∧ o.locationId = l
  · rw [if_pos hk]
    cases hfind : findingAt newId c o path with
    | metadata presence => exact Or.inl ⟨if_neg (by simp [Finding.checkResult]), hforget _ _⟩
    | check j =>
      refine Or.inr ⟨time, if_pos ⟨hk, rfl⟩, rfl, fun prior hprior => ?_⟩
      -- the check the observation passed: the copy has no later one
      obtain ⟨rfl, rfl⟩ := hk
      have hcurrent := hadm.current
      unfold checkedAfter at hcurrent
      cases hget : c.files.get? ((locateObject newId c path).1, o.locationId) with
      | none =>
        rw [hget] at hprior
        cases hprior
      | some f =>
        rw [hget] at hprior hcurrent
        have hp : f.lastCheckTimeUtcMs = some prior := hprior
        rw [Option.bind_some, hp] at hcurrent
        simpa using hcurrent
  · rw [if_neg hk, if_neg (fun h => hk h.1)]
    exact Or.inl ⟨rfl, hforget _ _⟩

theorem recorded_declared {c d : Catalog} {time : Nat} {p : FileRow → Bool}
    {declare : FileRow → FileRow} {entry : FileRow → HistoryRow} (hc : Recorded c)
    (hdecl : Declaration time declare entry) (hd : Declared c d time p declare entry)
    (hverified : VerifiedPresent d) : Recorded d := by
  obtain ⟨rows, hhistory, hrows, hfilter⟩ := hd.history
  have hinert : ∀ i l, ∀ r ∈ rows, r.concerns i l = false →
      r.kind ≠ .expectedChecksumChanged ∨ r.objectId = none := by
    intro i l r hr _
    rcases hrows r hr with hnone | ⟨f, -, rfl⟩
    · exact Or.inr hnone
    · exact Or.inl (hdecl.entry_kind f)
  -- the one row of the copy, when it is declared
  have hone : ∀ i l f, c.files.get? (i, l) = some f → p f = true →
      rows.filter (HistoryRow.concerns i l) = [entry f] ∧ (entry f).concerns i l = true := by
    intro i l f hf hp
    have hkey := Table.key_of_get? hf
    refine ⟨by rw [hfilter, hf, Option.filter_some, if_pos hp]; rfl, ?_⟩
    have h₁ : f.objectId = i := congrArg Prod.fst hkey
    have h₂ : f.locationId = l := congrArg Prod.snd hkey
    simp [HistoryRow.concerns, hdecl.entry_objectId, hdecl.entry_locationId, h₁, h₂]
  have hnone : ∀ i l, (∀ f, c.files.get? (i, l) = some f → p f = false) →
      rows.filter (HistoryRow.concerns i l) = [] ∧ d.files.get? (i, l) = c.files.get? (i, l) := by
    intro i l h
    rw [hfilter, hd.files]
    cases hf : c.files.get? (i, l) with
    | none => exact ⟨rfl, rfl⟩
    | some f => simp [h f hf, Option.filter_some]
  have hevidence : ∀ i l, evidenceOf (d.files.get? (i, l)) =
      replayAll i l rows (evidenceOf (c.files.get? (i, l))) := by
    intro i l
    rw [replayAll_filter (hinert i l)]
    by_cases h : ∀ f, c.files.get? (i, l) = some f → p f = false
    · rw [(hnone i l h).1, (hnone i l h).2]
      rfl
    · push Not at h
      obtain ⟨f, hf, hp⟩ := h
      have hp : p f = true := by simpa using hp
      obtain ⟨hrow, hconcerns⟩ := hone i l f hf hp
      rw [hrow, hd.files, hf, Option.map_some, if_pos hp]
      simp only [evidenceOf, Option.map_some, Option.getD_some, replayAll, List.foldl_cons,
        List.foldl_nil, Evidence.replay, hdecl.entry_checkResult, hconcerns, if_true]
      simp [FileRow.evidence, Evidence.check, Integrity.after, hdecl.integrity, hdecl.lastCheckTime,
        hdecl.lastCheckResult, hdecl.observed, hdecl.lastSuccess, hdecl.entry_time]
  refine recorded_of_append hc hverified hhistory hevidence fun i l => ?_
  rw [checkTimes_filter]
  by_cases h : ∀ f, c.files.get? (i, l) = some f → p f = false
  · rw [(hnone i l h).1, (hnone i l h).2]
    exact Or.inl ⟨rfl, rfl⟩
  · push Not at h
    obtain ⟨f, hf, hp⟩ := h
    have hp : p f = true := by simpa using hp
    obtain ⟨hrow, hconcerns⟩ := hone i l f hf hp
    refine Or.inr ⟨time, ?_, ?_, fun prior hprior => ?_⟩
    · rw [hrow]
      simp [checkTimes, hconcerns, hdecl.entry_checkResult, hdecl.entry_time]
    · rw [hd.files, hf, Option.map_some, if_pos hp]
      exact hdecl.lastCheckTime f
    · rw [hf] at hprior
      exact hd.current f (Table.mem_of_get? hf) hp prior hprior

theorem recorded_step {c d : Catalog} {e : Event} (hc : Recorded c) (h : Change c e d) :
    Recorded d := by
  have hverified := verifiedPresent_step hc.verified h
  cases change_effect h with
  | observed hadm _ hfiles hhistory => exact recorded_observed hc hadm hverified hfiles hhistory
  | declared time p declare entry hdecl hd => exact recorded_declared hc hdecl hd hverified
  | kept _ _ hfiles hhistory =>
    obtain ⟨rows, hhistory, hrows⟩ := hhistory
    have hfilter : ∀ i l, rows.filter (HistoryRow.concerns i l) = [] := by
      intro i l
      rw [List.filter_eq_nil_iff]
      intro r hr
      simp [HistoryRow.concerns, hrows r hr]
    refine recorded_of_append hc hverified hhistory (fun i l => ?_) fun i l => Or.inl ?_
    · rw [replayAll_filter (fun r hr _ => Or.inr (hrows r hr)), hfilter, hfiles]
      rfl
    · rw [checkTimes_filter, hfilter, hfiles]
      exact ⟨rfl, rfl⟩

theorem recorded_run (archiveId displayName : String) (ops : List Op) :
    Recorded (run next (Catalog.create archiveId displayName) ops) := by
  rw [← final_trace]
  refine Path.invariant (P := Recorded) (fun c e d hc hstep => recorded_step hc hstep) ?_
    (path_trace _ ops)
  exact ⟨nofun, fun _ _ => rfl, nofun, fun _ _ => List.Pairwise.nil⟩

/-- In every catalog a run reaches, each copy shows exactly the evidence its history
replays to, and its checks are in the order of their times. -/
theorem evidence_is_replay_of_history (archiveId displayName : String) (ops : List Op) :
    (∀ f ∈ (run next (Catalog.create archiveId displayName) ops).files.rows,
      f.evidence = replayAll f.objectId f.locationId
        (run next (Catalog.create archiveId displayName) ops).history .initial) ∧
    ∀ i l, (checkTimes i l (run next (Catalog.create archiveId displayName) ops).history).Pairwise
      (· ≤ ·) := by
  have h := recorded_run archiveId displayName ops
  refine ⟨fun f hf => ?_, h.ordered⟩
  have hget : (run next (Catalog.create archiveId displayName) ops).files.get?
      (f.objectId, f.locationId) = some f := Table.get?_of_mem hf
  rw [← h.evidence, hget]
  rfl

end ArchiveLedger
