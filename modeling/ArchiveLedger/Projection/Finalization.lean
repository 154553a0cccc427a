import ArchiveLedger.Projection.Copies

/-!
# What the finalization of a scan changes

The finalization writes checks, coverage and freshness of file locations and Copies, and
makes missing what a candidate of the scan names.  `finalizeScan_effect` is that as one
statement (`Withdraws`).
-/

namespace ArchiveLedger

open Relational Outcome Transition

namespace Projection

variable {db db' : Projection}

/-- File locations of some keys and Copies of some ids become missing.  The others keep
their presence and their state. -/
structure Withdraws (db db' : Projection) (gone : BindingKey → Bool) (lost : String → Bool) : Prop where
  files : db'.fileObjects = db.fileObjects
  paths : ∀ k, (db'.fileLocations.get? k).map (·.presence) =
    (db.fileLocations.get? k).map fun p => p.presence && !gone k
  copies : ∀ id, (db.copyBindings.get? id = none ∧ db'.copyBindings.get? id = none) ∨
    ∃ c c', db.copyBindings.get? id = some c ∧ db'.copyBindings.get? id = some c' ∧ SamePlace c c' ∧
      c'.state = if lost id then .missing else c.state

namespace Withdraws

/-- Nothing becomes missing. -/
def nothing {ι : Type} : ι → Bool := fun _ => false

theorem of_paths (hf : db'.fileObjects = db.fileObjects) (hc : db'.copyBindings = db.copyBindings)
    {gone : BindingKey → Bool} (hp : ∀ k, (db'.fileLocations.get? k).map (·.presence) =
      (db.fileLocations.get? k).map fun p => p.presence && !gone k) : Withdraws db db' gone nothing where
  files := hf
  paths := hp
  copies id := by
    rw [hc]
    cases hget : db.copyBindings.get? id with
    | none => exact Or.inl ⟨rfl, rfl⟩
    | some c => exact Or.inr ⟨c, c, rfl, rfl, .refl c, rfl⟩

theorem paths_same (hl : db'.fileLocations = db.fileLocations) (k : BindingKey) :
    (db'.fileLocations.get? k).map (·.presence) =
      (db.fileLocations.get? k).map fun p => p.presence && !nothing k := by
  rw [hl]
  cases db.fileLocations.get? k with
  | none => rfl
  | some p => exact congrArg some (Bool.and_true p.presence).symm

theorem of_evidence (h : SameEvidence db db') : Withdraws db db' nothing nothing :=
  of_paths h.files h.copies (paths_same h.locations)

theorem refl (db : Projection) : Withdraws db db nothing nothing := of_evidence (.refl db)

theorem trans {a b c : Projection} {g g' : BindingKey → Bool} {l l' : String → Bool}
    (h : Withdraws a b g l) (k : Withdraws b c g' l') :
    Withdraws a c (fun key => g key || g' key) fun id => l id || l' id where
  files := k.files.trans h.files
  paths key := by
    have h₁ := h.paths key
    have h₂ := k.paths key
    cases ha : a.fileLocations.get? key with
    | none =>
      rw [ha] at h₁
      rw [h₂, Option.map_eq_none_iff.mp h₁]
      rfl
    | some p =>
      rw [ha] at h₁
      obtain ⟨q, hq, hpq⟩ := Option.map_eq_some_iff.mp h₁
      rw [h₂, hq, Option.map_some, Option.map_some, hpq]
      simp [Bool.and_assoc]
  copies id := by
    rcases h.copies id with ⟨hn, hn'⟩ | ⟨x, y, hx, hy, hs, hst⟩ <;>
      rcases k.copies id with ⟨kn, kn'⟩ | ⟨y', z, hy', hz, ks, kst⟩
    · exact Or.inl ⟨hn, kn'⟩
    · rw [hn'] at hy'
      cases hy'
    · rw [hy] at kn
      cases kn
    · rw [hy] at hy'
      cases hy'
      refine Or.inr ⟨x, z, hx, hz, hs.trans ks, ?_⟩
      rw [kst, hst]
      cases l id <;> cases l' id <;> rfl

theorem mono {g g' : BindingKey → Bool} {l l' : String → Bool} (h : Withdraws db db' g l)
    (hg : ∀ k, g k = g' k) (hl : ∀ id, l id = l' id) : Withdraws db db' g' l' := by
  rw [← funext hg, ← funext hl]
  exact h

/-- Nothing more becomes missing. -/
theorem keep {a b c : Projection} {g : BindingKey → Bool} {l : String → Bool} (h : Withdraws a b g l)
    (k : Withdraws b c nothing nothing) : Withdraws a c g l :=
  (h.trans k).mono (fun key => Bool.or_false (g key)) fun id => Bool.or_false (l id)

/-- Copies that become missing are Copies stated again. -/
theorem restates {g : BindingKey → Bool} {l : String → Bool} (h : Withdraws db db' g l) :
    Restates db db' l where
  places :=
    { files := by
        intro id file hfile
        exact ⟨file, by rw [h.files]; exact hfile, rfl⟩
      locations := by
        intro k hk
        have hp := congrArg Option.isSome (h.paths k)
        rw [Option.isSome_map, Option.isSome_map] at hp
        rw [hp]
        exact hk }
  rows id := by
    rcases h.copies id with hn | ⟨c, c', hc, hc', hs, hst⟩
    · exact Or.inl hn
    · refine Or.inr ⟨c, c', hc, hc', hs, ?_⟩
      rw [CopyBindingRow.active, hst]
      cases l id <;> rfl

end Withdraws

open Withdraws (nothing)

/-! ### One statement -/

/-- An update of file locations that writes no presence. -/
theorem modify_withdraws {p : FileLocationRow → Bool} {f : FileLocationRow → FileLocationRow}
    (hkey : ∀ r, (f r).binding = r.binding) (hf : db'.fileObjects = db.fileObjects)
    (hc : db'.copyBindings = db.copyBindings)
    (hl : db'.fileLocations = db.fileLocations.modify p f hkey (fun _ _ h => h))
    (hpresence : ∀ r, (f r).presence = r.presence) : Withdraws db db' nothing nothing := by
  refine .of_paths hf hc fun k => ?_
  rw [hl, Table.get?_modify]
  cases db.fileLocations.get? k with
  | none => rfl
  | some r =>
    simp only [Option.map_some, Withdraws.nothing, Bool.not_false, Bool.and_true]
    split
    · rw [hpresence]
    · rfl

/-- An update of Copies that writes neither their states nor their places. -/
theorem modifyCopies_withdraws {p : CopyBindingRow → Bool} {f : CopyBindingRow → CopyBindingRow}
    (hkey : ∀ c, (f c).canonicalId = c.canonicalId)
    (hclash : ∀ a b, copyBindingSchema.clash (f a) b = true → copyBindingSchema.clash a b = true) (hf : db'.fileObjects = db.fileObjects) (hl : db'.fileLocations = db.fileLocations)
    (hc : db'.copyBindings = db.copyBindings.modify p f hkey hclash)
    (hsame : ∀ c, SamePlace c (f c)) (hstate : ∀ c, (f c).state = c.state) :
    Withdraws db db' nothing nothing where
  files := hf
  paths := Withdraws.paths_same hl
  copies id := by
    have hget := Table.get?_modify db.copyBindings p f hkey hclash id
    rw [← hc] at hget
    cases hold : db.copyBindings.get? id with
    | none =>
      rw [hold] at hget
      exact Or.inl ⟨rfl, hget⟩
    | some c =>
      rw [hold, Option.map_some] at hget
      refine Or.inr ⟨c, _, rfl, hget, ?_, ?_⟩
      · split
        · exact hsame c
        · exact .refl c
      · split
        · exact hstate c
        · rfl

theorem appendCheck_withdraws (binding : BindingKey) (time : Nat) (presence : Presence)
    (integrity : Integrity) (error : Option (String × Option String)) :
    Withdraws db (db.appendCheck binding time presence integrity error).1 nothing nothing :=
  modify_withdraws (by intro _; rfl) rfl rfl rfl (by intro _; rfl)

theorem setLatestPresence_withdraws (binding : BindingKey) (check : Nat) :
    Withdraws db (db.setLatestPresence binding check) nothing nothing :=
  modify_withdraws (by intro _; rfl) rfl rfl rfl (by intro _; rfl)

theorem newPresenceCheck_withdraws (binding : BindingKey) (time : Nat) (presence : Presence) (batch : String) :
    Withdraws db (db.newPresenceCheck binding time presence batch).1 nothing nothing := by
  unfold newPresenceCheck
  cases db.directCheck binding presence batch with
  | some id => exact .refl db
  | none =>
    have happend : Withdraws db _ nothing nothing := appendCheck_withdraws binding time presence .unverified none
    cases hl : db.laterCheck binding presence time with
    | none => simpa only [hl] using happend
    | some old => simpa only [hl] using happend.keep (setLatestPresence_withdraws binding old)

theorem presenceCheck_withdraws (s : Finalization) (binding : BindingKey) (time : Nat) (presence : Presence)
    (batch : String) : Withdraws s.db (s.presenceCheck binding time presence batch).1.db nothing nothing := by
  unfold Finalization.presenceCheck
  cases s.checked.find? fun c => c.1 = (binding, presence) with
  | some c => exact .refl _
  | none => exact newPresenceCheck_withdraws binding time presence batch

theorem presenceCheck_candidates (s : Finalization) (binding : BindingKey) (time : Nat) (presence : Presence)
    (batch : String) :
    (s.presenceCheck binding time presence batch).1.db.scanMissingCandidates = s.db.scanMissingCandidates := by
  unfold Finalization.presenceCheck
  cases s.checked.find? fun c => c.1 = (binding, presence) with
  | some c => rfl
  | none =>
    show (s.db.newPresenceCheck binding time presence batch).1.scanMissingCandidates = _
    unfold newPresenceCheck
    cases s.db.directCheck binding presence batch with
    | some id => rfl
    | none => cases hl : s.db.laterCheck binding presence time <;> rfl

/-! ### Publishing -/

theorem withdrawPath {target : BindingKey} {f : FileLocationRow → FileLocationRow}
    (hkey : ∀ r, (f r).binding = r.binding) (hf : db'.fileObjects = db.fileObjects)
    (hc : db'.copyBindings = db.copyBindings)
    (hl : db'.fileLocations = db.fileLocations.modify (fun p => p.binding = target) f hkey (fun _ _ h => h))
    (hpresence : ∀ r, (f r).presence = false) : Withdraws db db' (fun k => k = target) nothing := by
  refine .of_paths hf hc fun k => ?_
  rw [hl, Table.get?_modify]
  cases hget : db.fileLocations.get? k with
  | none => rfl
  | some p =>
    have hk : p.binding = k := Table.key_of_get? hget
    simp only [Option.map_some, hk]
    by_cases he : k = target <;> simp [he, hpresence]

theorem publishPath_withdraws (close : ScanClose) (s : Finalization) (target : BindingKey) :
    Withdraws s.db (publishPath close s target).db (fun k => k = target) nothing := by
  have hcheck := presenceCheck_withdraws s target close.finished .missing close.batch
  unfold publishPath
  generalize s.presenceCheck target close.finished .missing close.batch = r at hcheck ⊢
  obtain ⟨s', check⟩ := r
  dsimp only at hcheck ⊢
  refine Withdraws.mono (hcheck.trans ?_) (fun _ => Bool.false_or _) fun _ => rfl
  exact withdrawPath (by intro _; rfl) rfl rfl rfl (by intro _; rfl)

theorem publishPath_candidates (close : ScanClose) (s : Finalization) (target : BindingKey) :
    (publishPath close s target).db.scanMissingCandidates = s.db.scanMissingCandidates :=
  presenceCheck_candidates s target close.finished .missing close.batch

theorem publishPaths_withdraws (close : ScanClose) (s : Finalization) (targets : List BindingKey) :
    Withdraws s.db (targets.foldl (publishPath close) s).db (fun k => decide (k ∈ targets)) nothing ∧
      (targets.foldl (publishPath close) s).db.scanMissingCandidates = s.db.scanMissingCandidates := by
  induction targets generalizing s with
  | nil => exact ⟨(Withdraws.refl _).mono (by intro k; simp [Withdraws.nothing]) fun _ => rfl, rfl⟩
  | cons target targets ih =>
    obtain ⟨hrest, hcandidates⟩ := ih (publishPath close s target)
    refine ⟨((publishPath_withdraws close s target).trans hrest).mono ?_ fun _ => rfl,
      hcandidates.trans (publishPath_candidates close s target)⟩
    intro k
    by_cases he : k = target <;> simp [he]

theorem publishCopy_withdraws {close : ScanClose} {s s' : Finalization} {target : CopyBindingRow}
    (h : publishCopy close s target = .ok s') :
    Withdraws s.db s'.db nothing fun id => id = target.canonicalId := by
  have hcheck := presenceCheck_withdraws s target.owner close.finished .missing close.batch
  unfold publishCopy at h
  generalize s.presenceCheck target.owner close.finished .missing close.batch = r at hcheck h
  obtain ⟨s₁, check⟩ := r
  obtain ⟨copies, hcopies, h⟩ := bind_eq_ok.mp h
  cases h
  have hlost : Withdraws s₁.db { s₁.db with copyBindings := copies } nothing
      fun id => id = target.canonicalId := by
    refine ⟨rfl, Withdraws.paths_same rfl, fun id => ?_⟩
    have hget := Table.get?_modify? (statement_eq_ok.mp hcopies) id
    cases hold : s₁.db.copyBindings.get? id with
    | none =>
      rw [hold] at hget
      exact Or.inl ⟨rfl, hget⟩
    | some c =>
      rw [hold, Option.map_some] at hget
      have hid : c.canonicalId = id := Table.key_of_get? hold
      refine Or.inr ⟨c, _, rfl, hget, ?_, ?_⟩
      · split
        · exact ⟨rfl, rfl, rfl, rfl⟩
        · exact .refl c
      · rw [hid]
        by_cases he : id = target.canonicalId <;> simp [he]
  exact (hcheck.trans hlost).mono (fun _ => rfl) fun id => Bool.false_or _

theorem publishCopies_withdraws {close : ScanClose} {s s' : Finalization} {targets : List CopyBindingRow}
    (h : commitAll (publishCopy close) s targets = .ok s') :
    Withdraws s.db s'.db nothing fun id => decide (id ∈ targets.map CopyBindingRow.canonicalId) := by
  induction targets generalizing s with
  | nil =>
    cases h
    exact (Withdraws.refl _).mono (fun _ => rfl) (by intro id; simp [Withdraws.nothing])
  | cons target targets ih =>
    obtain ⟨s₁, h₁, h⟩ := (commitAll_cons _).mp h
    refine ((publishCopy_withdraws h₁).trans (ih h)).mono (fun _ => rfl) ?_
    intro id
    by_cases he : id = target.canonicalId <;> simp [he]

/-! ### Coverage and refreshed files -/

theorem refreshPath_withdraws (close : ScanClose) (s : Finalization) (target : BindingKey) :
    Withdraws s.db (refreshPath close s target).db nothing nothing := by
  have hcheck := presenceCheck_withdraws s target close.scan.startedTimeUtcMs .present close.batch
  unfold refreshPath
  dsimp only
  generalize s.presenceCheck target close.scan.startedTimeUtcMs .present close.batch = r at hcheck ⊢
  obtain ⟨s', check⟩ := r
  dsimp only at hcheck ⊢
  exact hcheck.keep (modify_withdraws (by intro _; rfl) rfl rfl rfl (by intro _; rfl))

theorem refreshCopy_withdraws (close : ScanClose) (s : Finalization) (target : CopyBindingRow) :
    Withdraws s.db (refreshCopy close s target).db nothing nothing := by
  have hcheck := presenceCheck_withdraws s target.owner close.scan.startedTimeUtcMs .present close.batch
  unfold refreshCopy
  dsimp only
  generalize s.presenceCheck target.owner close.scan.startedTimeUtcMs .present close.batch = r at hcheck ⊢
  obtain ⟨s', check⟩ := r
  dsimp only at hcheck ⊢
  exact hcheck.keep (modifyCopies_withdraws (by intro _; rfl) (by intro _ _ h; exact h) rfl rfl rfl
    (fun _ => ⟨rfl, rfl, rfl, rfl⟩) (by intro _; rfl))

/-- Statements of which none makes anything missing. -/
theorem foldl_withdraws {ι : Type} {f : Finalization → ι → Finalization}
    (hf : ∀ s i, Withdraws s.db (f s i).db nothing nothing) (s : Finalization) (targets : List ι) :
    Withdraws s.db (targets.foldl f s).db nothing nothing := by
  induction targets generalizing s with
  | nil => exact .refl _
  | cons i targets ih => exact (hf s i).keep (ih (f s i))

/-! ### The scan -/

/-- The file locations that a candidate of a scan names. -/
def namedPath (db : Projection) (scanId : String) (k : BindingKey) : Bool :=
  (db.fileLocations.get? k).any (db.pathCandidate scanId)

/-- The Copies that a candidate of a scan names. -/
def namedCopy (db : Projection) (scanId id : String) : Bool :=
  (db.openCandidates scanId).any fun c => c.copyClaimId = some id

theorem mem_pathTargets {scanId : String} {k : BindingKey} :
    k ∈ (db.fileLocations.rows.filter (db.pathCandidate scanId)).map (·.binding) ↔
      db.namedPath scanId k = true := by
  constructor
  · intro h
    obtain ⟨p, hp, rfl⟩ := List.mem_map.mp h
    obtain ⟨hm, hc⟩ := List.mem_filter.mp hp
    rw [namedPath, show db.fileLocations.get? p.binding = some p from Table.get?_of_mem hm]
    exact hc
  · intro h
    rw [namedPath, Option.any_eq_true] at h
    obtain ⟨p, hp, hc⟩ := h
    exact List.mem_map.mpr ⟨p, List.mem_filter.mpr ⟨Table.mem_of_get? hp, hc⟩, Table.key_of_get? hp⟩

/-- The Copies to publish are those that a candidate names. -/
theorem mem_copyTargets {scanId id : String} {c : CopyBindingRow} (hc : db.copyBindings.get? id = some c) :
    id ∈ (db.copyBindings.rows.filter (db.copyCandidate scanId)).map CopyBindingRow.canonicalId ↔
      db.namedCopy scanId id = true := by
  have hid : c.canonicalId = id := Table.key_of_get? hc
  constructor
  · intro h
    obtain ⟨c', hc', he⟩ := List.mem_map.mp h
    rw [← he]
    exact (List.mem_filter.mp hc').2
  · intro h
    refine List.mem_map.mpr ⟨c, List.mem_filter.mpr ⟨Table.mem_of_get? hc, ?_⟩, hid⟩
    rw [copyCandidate, hid]
    exact h

theorem activateCandidates_withdraws (scanId : String) :
    Withdraws db (db.activateCandidates scanId) nothing nothing :=
  .of_evidence ⟨rfl, rfl, rfl, rfl⟩

theorem markCovered_withdraws (scan : ScanRunRow) : Withdraws db (db.markCovered scan) nothing nothing :=
  modify_withdraws (by intro _; rfl) rfl rfl rfl (by intro _; rfl)

theorem markCoveredCopies_withdraws (covered : CopyBindingRow → Bool) (scanId : String) :
    Withdraws db (db.markCoveredCopies covered scanId) nothing nothing :=
  modifyCopies_withdraws (by intro _; rfl) (by intro _ _ h; exact h) rfl rfl rfl
    (fun _ => ⟨rfl, rfl, rfl, rfl⟩) (by intro _; rfl)

theorem publishScan_withdraws {close : ScanClose} {summary : Json}
    (h : db.publishScan close summary = .ok db') :
    Withdraws db db' (db.namedPath close.scan.scanId) (db.namedCopy close.scan.scanId) := by
  obtain ⟨missing, _, h⟩ := bind_eq_ok.mp h
  obtain ⟨_, _, h⟩ := bind_eq_ok.mp h
  obtain ⟨s, hcopies, h⟩ := bind_eq_ok.mp h
  obtain ⟨hpaths, hcandidates⟩ := publishPaths_withdraws close ⟨db, []⟩
    ((db.fileLocations.rows.filter (db.pathCandidate close.scan.scanId)).map (·.binding))
  generalize (((db.fileLocations.rows.filter (db.pathCandidate close.scan.scanId)).map
    (·.binding)).foldl (publishPath close) ⟨db, []⟩) = s₁ at hpaths hcandidates hcopies
  have hlost := publishCopies_withdraws hcopies
  have hpublished : Withdraws db s.db (db.namedPath close.scan.scanId) (db.namedCopy close.scan.scanId) := by
    refine ⟨hlost.files.trans hpaths.files, ?_, ?_⟩
    · refine ((hpaths.trans hlost).mono ?_ fun _ => rfl).paths
      intro k
      rw [Bool.eq_iff_iff, ← mem_pathTargets]
      simp [Withdraws.nothing]
    · intro id
      rcases (hpaths.trans hlost).copies id with hn | ⟨c, c', hc, hc', hs, hst⟩
      · exact Or.inl hn
      · refine Or.inr ⟨c, c', hc, hc', hs, hst.trans ?_⟩
        rcases hpaths.copies id with ⟨hn, -⟩ | ⟨_, c₁, _, hc₁, -, -⟩
        · rw [hn] at hc
          cases hc
        · have hnamed : decide (id ∈ (s₁.db.copyBindings.rows.filter
              (s₁.db.copyCandidate close.scan.scanId)).map CopyBindingRow.canonicalId) =
              db.namedCopy close.scan.scanId id := by
            rw [Bool.eq_iff_iff, decide_eq_true_eq, mem_copyTargets hc₁, namedCopy, namedCopy,
              openCandidates, openCandidates, hcandidates]
          rw [hnamed]
          rfl
  have hcovered := (hpublished.keep (activateCandidates_withdraws close.scan.scanId)).keep
    (markCovered_withdraws close.scan)
  have hmarked := hcovered.keep (markCoveredCopies_withdraws
    (((s.db.activateCandidates close.scan.scanId).markCovered close.scan).coveredCopy close.scan)
    close.scan.scanId)
  split at h
  · cases h
    exact (hmarked.keep (foldl_withdraws (refreshPath_withdraws close) ⟨_, s.checked⟩ _)).keep
      (foldl_withdraws (refreshCopy_withdraws close) _ _)
  · cases h
    exact hmarked

/-- What a finalization of one scan does: it publishes a complete scan that completes, and
else leaves all evidence. -/
inductive FinalEffect (db : Projection) (pending : ScanPendingCompletionRow) (db' : Projection) : Prop where
  | published {scan : ScanRunRow} (hscan : db.runningScan pending.scanId = some scan)
      (hstatus : pending.desiredStatus = .complete) (hmode : scan.mode = .complete)
      (h : Withdraws db db' (db.namedPath scan.scanId) (db.namedCopy scan.scanId))
  | inert {scan : ScanRunRow} (hscan : db.runningScan pending.scanId = some scan)
      (hopen : ¬ (pending.desiredStatus = .complete ∧ scan.mode = .complete)) (h : SameEvidence db db')

theorem finalizeScan_effect {rid batch : String} {pending : ScanPendingCompletionRow}
    (h : finalizeScan rid batch db pending = .ok db') : FinalEffect db pending db' := by
  obtain ⟨summary, _, h⟩ := bind_eq_ok.mp h
  obtain ⟨scan, hscan, h⟩ := bind_eq_ok.mp h
  obtain ⟨d, hclose, h⟩ := bind_eq_ok.mp h
  obtain ⟨totals, _, h⟩ := bind_eq_ok.mp h
  obtain ⟨scans, _, h⟩ := bind_eq_ok.mp h
  cases h
  have hscan := statement_eq_ok.mp hscan
  by_cases hcomplete : pending.desiredStatus = .complete ∧ scan.mode = .complete
  · rw [closeScan, if_pos hcomplete] at hclose
    refine .published hscan hcomplete.1 hcomplete.2 ((publishScan_withdraws hclose).keep ?_)
    exact .of_evidence ⟨rfl, rfl, rfl, rfl⟩
  · rw [closeScan, if_neg hcomplete] at hclose
    obtain ⟨_, _, hclose⟩ := bind_eq_ok.mp hclose
    cases hclose
    exact .inert hscan hcomplete ⟨rfl, rfl, rfl, rfl⟩

end Projection

end ArchiveLedger
