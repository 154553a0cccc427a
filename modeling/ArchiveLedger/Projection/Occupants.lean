import ArchiveLedger.Projection.Candidates

/-!
# One active Copy at a physical path

An item observes a Copy at a path (`observedCopy`), and everything else that writes the
state of a Copy does so wherever the Copy stands.  `one_copy_per_path_iff` says along which
paths of the projector the active Copy of a physical path is the one observed there last.
-/

namespace ArchiveLedger

open Relational Outcome Transition Occupancy Projection

/-! ### What an item says of a Copy -/

section

variable (R : ProjectionRuntime)

/-- A Copy at the `copy_path` of an item. -/
def placedCopy (item : Json) (location name : Option String) : Option (PhysicalPath × String) :=
  match location, name, pathValue R item "copy_path" with
  | some location, some name, .ok (_, path) => some ((location, path), name)
  | _, _, _ => none

/-- A verification failure that names a Copy and no File. -/
def failedCopy (item : Json) : Option String :=
  if optionalString item "kind" = some "copy_verification_failed" ∧ optionalString item "file_ref_id" = none
  then optionalString item "copy_claim_id" else none

/-- The Copy that an item observes, and the physical path it is observed at. -/
def observedCopy (item : Json) : Option (PhysicalPath × String) :=
  if optionalString item "kind" = some "content_observed" ∨
      optionalString item "kind" = some "copy_verification_failed" ∧ optionalString item "file_ref_id" ≠ none then
    placedCopy R item (optionalString item "location_id") (optionalString item "copy_claim_id")
  else if optionalString item "kind" = some "annex_entry_observed" ∧ annexAbsent item = false then
    (annexCopyOf item).bind fun c => placedCopy R item (some c.2) (some c.1)
  else none

/-- The state and the basis that an item gives the Copy it observes. -/
def observedClaim (item : Json) : String × String :=
  if optionalString item "kind" = some "content_observed" then ("present", "observed_bytes")
  else if optionalString item "kind" = some "annex_entry_observed" then (claimedState item, claimedBasis item)
  else ("corrupt", "observed_bytes")

/-- The Copies that the items of a history observe. -/
def copyLog (history : List AppliedItem) : List (PhysicalPath × String) :=
  history.filterMap fun o => observedCopy R o.item

end

variable {R : ProjectionRuntime} {context : V2VerificationContext}

theorem placedCopy_eq {item : Json} {location name : String} {copy : RegistryPath} {path : StoredPath}
    (h : pathValue R item "copy_path" = .ok (copy, path)) :
    placedCopy R item (some location) (some name) = some ((location, path), name) := by
  simp only [placedCopy, h]

theorem copyLog_snoc (history : List AppliedItem) (o : AppliedItem) :
    copyLog R (history ++ [o]) = copyLog R history ++ (observedCopy R o.item).toList := by
  rw [copyLog, List.filterMap_append]
  cases h : observedCopy R o.item with
  | none => simp [copyLog, h]
  | some x => simp [copyLog, h]

/-! ### One step -/

section Step

variable {db db' : Projection} {item : Json}

/-- What writing a Copy says of the seating. -/
theorem Projection.WritesCopy.observed {location name state basis : String} (hk : Keyed R db)
    (h : WritesCopy R db item location name state basis db') :
    Keyed R db' ∧ ∃ copy path, pathValue R item "copy_path" = .ok (copy, path) ∧
      Observed db.seating (location, path) name (CopyEffect.flag db name basis state) db'.seating := by
  obtain ⟨⟨d₁, d₂, binding, record, path, row, h₁, heffect, h₂⟩, -⟩ := h
  have hk₁ := h₁.keyed hk
  have hk₂ := heffect.keyed hk₁
  obtain ⟨copy, hpath⟩ := heffect.read
  have hobserved := heffect.observed hk₁
  have hflag : CopyEffect.flag d₁ name basis state = CopyEffect.flag db name basis state := by
    rw [CopyEffect.flag, CopyEffect.flag, h₁.copies]
  rw [hflag, h₁.seating hk, ← h₂.seating hk₂] at hobserved
  exact ⟨h₂.keyed hk₂, copy, path, hpath, hobserved⟩

/-- What an item does to the seating: it observes one Copy, or Copies become active where they stand. -/
inductive SeatingEffect (R : ProjectionRuntime) (db : Projection) (item : Json) (db' : Projection) : Prop where
  | observed {place : PhysicalPath} {id : String} (hcopy : observedCopy R item = some (place, id))
      (hfailed : failedCopy item = none)
      (h : Observed db.seating place id
        (CopyEffect.flag db id (observedClaim item).2 (observedClaim item).1) db'.seating)
  | restated (hcopy : observedCopy R item = none)
      (h : Restated db.seating (fun id => failedCopy item = some id) db'.seating)

theorem restated_none {s : Seating String PhysicalPath} {ids : String → Prop} (h : ∀ id, ¬ ids id) :
    Restated s ids s := fun id => ⟨fun hid => absurd hid (h id), fun _ => rfl⟩

theorem seatingEffect_of_eq (hcopy : observedCopy R item = none) (hfailed : failedCopy item = none)
    (h : db'.seating = db.seating) : SeatingEffect R db item db' := by
  refine .restated hcopy ?_
  rw [h]
  exact restated_none (by simp [hfailed])

theorem SeatingEffect.after {d : Projection} (h : SeatingEffect R db item d) (hs : db'.seating = d.seating) :
    SeatingEffect R db item db' := by
  cases h with
  | observed hcopy hfailed h => exact .observed hcopy hfailed (hs ▸ h)
  | restated hcopy h => exact .restated hcopy (hs ▸ h)

/-- The items of other kinds observe no Copy. -/
theorem observedCopy_other {kind : String} (hkind : optionalString item "kind" = some kind)
    (h₁ : kind ≠ "content_observed") (h₂ : kind ≠ "copy_verification_failed")
    (h₃ : kind ≠ "annex_entry_observed") : observedCopy R item = none ∧ failedCopy item = none := by
  simp [observedCopy, failedCopy, hkind, h₁, h₂, h₃]

theorem keyed_of_same (h : SameEvidence db db') (hk : Keyed R db) : Keyed R db' :=
  (Withdraws.of_evidence h).restates.keyed hk

theorem seating_of_same (h : SameEvidence db db') (hk : Keyed R db) : db'.seating = db.seating :=
  (Withdraws.of_evidence h).restates.seating_eq hk (by simp [Withdraws.nothing])

theorem seatingEffect_other (hk : Keyed R db) {kind : String} (hkind : optionalString item "kind" = some kind)
    (h₁ : kind ≠ "content_observed") (h₂ : kind ≠ "copy_verification_failed")
    (h₃ : kind ≠ "annex_entry_observed") (h : SameEvidence db db') :
    Keyed R db' ∧ SeatingEffect R db item db' := by
  obtain ⟨hcopy, hfailed⟩ := observedCopy_other (R := R) hkind h₁ h₂ h₃
  exact ⟨keyed_of_same h hk, seatingEffect_of_eq hcopy hfailed (seating_of_same h hk)⟩

theorem content_seating (hk : Keyed R db) (hkind : optionalString item "kind" = some "content_observed")
    {record : VerifiedV2Record} {frontiers : FrontierMap}
    (h : db.projectContentObserved R item record frontiers = .ok db') :
    Keyed R db' ∧ SeatingEffect R db item db' := by
  obtain ⟨location, name, hlocation, hname, hwrites⟩ := projectContentObserved_writesCopy h
  obtain ⟨hkeyed, copy, path, hpath, hobserved⟩ := hwrites.observed hk
  have hcopy : observedCopy R item = some ((location, path), name) := by
    rw [observedCopy, if_pos (Or.inl hkind), hlocation, hname, placedCopy_eq hpath]
  refine ⟨hkeyed, .observed hcopy ?_ ?_⟩
  · rw [failedCopy, hkind, if_neg (by simp)]
  · rw [observedClaim, if_pos hkind]
    exact hobserved

theorem failure_seating (hk : Keyed R db)
    (hkind : optionalString item "kind" = some "copy_verification_failed") {record : VerifiedV2Record}
    (h : db.projectCopyVerificationFailed R item record = .ok db') :
    Keyed R db' ∧ SeatingEffect R db item db' := by
  obtain ⟨result, _, h⟩ := bind_eq_ok.mp h
  obtain ⟨_, _, h⟩ := bind_eq_ok.mp h
  obtain ⟨rid, _, h⟩ := bind_eq_ok.mp h
  obtain ⟨time, _, h⟩ := bind_eq_ok.mp h
  obtain ⟨name, hname, h⟩ := bind_eq_ok.mp h
  obtain ⟨location, hlocation, h⟩ := bind_eq_ok.mp h
  have hname := string_eq_ok.mp hname
  have hlocation := string_eq_ok.mp hlocation
  cases hfile : optionalString item "file_ref_id" with
  | some fileRefId =>
    rw [hfile] at h
    obtain ⟨hkeyed, copy, path, hpath, hobserved⟩ := (projectFileFailure_writesCopy h).observed hk
    have hcopy : observedCopy R item = some ((location, path), name) := by
      rw [observedCopy, if_pos (Or.inr ⟨hkind, by rw [hfile]; simp⟩), hlocation, hname, placedCopy_eq hpath]
    refine ⟨hkeyed, .observed hcopy ?_ ?_⟩
    · rw [failedCopy, hfile, if_neg (by simp)]
    · rw [observedClaim, hkind, if_neg (by decide), if_neg (by decide)]
      exact hobserved
  | none =>
    rw [hfile] at h
    obtain ⟨hrestates, -⟩ := projectCopyFailure_restates h
    refine ⟨hrestates.keyed hk, .restated ?_ ?_⟩
    · rw [observedCopy, hkind, hfile, if_neg (by simp), if_neg (by simp)]
    · have hids : ∀ id, (failedCopy item = some id) = (decide (id = name) = true) := by
        intro id
        rw [failedCopy, if_pos ⟨hkind, hfile⟩, hname]
        simp [eq_comm]
      rw [funext hids]
      exact hrestates.restated hk

theorem annex_seating (hk : Keyed R db) (hkind : optionalString item "kind" = some "annex_entry_observed")
    {record : VerifiedV2Record} (h : db.projectAnnexEntry R item record = .ok db') :
    Keyed R db' ∧ SeatingEffect R db item db' := by
  have hfailed : failedCopy item = none := by rw [failedCopy, hkind, if_neg (by simp)]
  have hcontent : ¬ (optionalString item "kind" = some "content_observed" ∨
      optionalString item "kind" = some "copy_verification_failed" ∧
        optionalString item "file_ref_id" ≠ none) := by simp [hkind]
  cases projectAnnexEntry_effect hk h with
  | kept hcopy hkeyed hseating hscans hinert =>
    refine ⟨hkeyed, seatingEffect_of_eq ?_ hfailed hseating⟩
    rw [observedCopy, if_neg hcontent]
    rcases hcopy with habsent | hnone
    · rw [if_neg (by simp [habsent])]
    · rw [hnone]
      split <;> rfl
  | @written name location hpresent hcopy hwrites =>
    obtain ⟨hkeyed, copy, path, hpath, hobserved⟩ := hwrites.observed hk
    have hplaced : observedCopy R item = some ((location, path), name) := by
      rw [observedCopy, if_neg hcontent, if_pos ⟨hkind, hpresent⟩, hcopy, Option.bind_some, placedCopy_eq hpath]
    refine ⟨hkeyed, .observed hplaced hfailed ?_⟩
    rw [observedClaim, hkind, if_neg (by decide), if_pos rfl]
    exact hobserved

theorem item_seating (hk : Keyed R db) {o : AppliedItem} {kind : String} {index : Nat}
    (hkind : string o.item "kind" = .ok kind)
    (h : db.projectItem R o.item kind o.record context index = .ok db') :
    Keyed R db' ∧ SeatingEffect R db o.item db' := by
  have hkind := string_eq_ok.mp hkind
  obtain ⟨d, heffect, hsame⟩ := projectItem_effect h
  have hd : Keyed R d ∧ SeatingEffect R db o.item d := by
    cases heffect with
    | content hk' h => exact content_seating hk (hk' ▸ hkind) h
    | failure hk' h => exact failure_seating hk (hk' ▸ hkind) h
    | annex hk' h => exact annex_seating hk (hk' ▸ hkind) h
    | scanStarted hk' h =>
      refine seatingEffect_other hk (hk' ▸ hkind) (by decide) (by decide) (by decide) ?_
      rw [projectScanStarted_frame h]
      exact ⟨rfl, rfl, rfl, rfl⟩
    | candidate hk' h =>
      refine seatingEffect_other hk (hk' ▸ hkind) (by decide) (by decide) (by decide) ?_
      rw [projectScanMissingCandidate_frame h]
      exact ⟨rfl, rfl, rfl, rfl⟩
    | scanCompleted hk' h =>
      refine seatingEffect_other hk (hk' ▸ hkind) (by decide) (by decide) (by decide) ?_
      rw [projectScanCompleted_frame h]
      exact ⟨rfl, rfl, rfl, rfl⟩
    | other hk' h =>
      have hne : ∀ k ∈ factKinds, kind ≠ k := fun k hk he => hk' (he ▸ hk)
      exact seatingEffect_other hk hkind (hne _ (by decide)) (hne _ (by decide)) (hne _ (by decide)) h.evidence
  exact ⟨keyed_of_same hsame.evidence hd.1, hd.2.after (seating_of_same hsame.evidence hd.1)⟩

end Step

/-! ### Paths -/

/-- At most one Copy is active at a physical path. -/
def OneActive (db : Projection) : Prop :=
  ∀ a ∈ db.copyBindings.rows, ∀ b ∈ db.copyBindings.rows, a.active = true → b.active = true →
    a.locationId = b.locationId → db.copyPath a = db.copyPath b → a = b

/-- At most one Copy is active at a physical path, its key is that of the path, and it is the
Copy that was observed there last. -/
structure OneCopyPerPath (R : ProjectionRuntime) (s : ProjectionRun) : Prop where
  unique : OneActive s.db
  keyed : Keyed R s.db
  latest : ∀ c ∈ s.db.copyBindings.rows, c.active = true → ∀ path, s.db.copyPath c = some path →
    lastAt (copyLog R s.history) (c.locationId, path) = some c.canonicalId

/-- The act makes a Copy active at its path although it was not observed there: it was
observed at another path, a failure named it without a path, or it is published missing. -/
def Restores (R : ProjectionRuntime) (s : ProjectionRun) (id : String) (at_ : PhysicalPath) :
    ProjectionAct → Prop
  | .item o _ => failedCopy o.item = some id ∨ ((observedClaim o.item).2 ≠ "source_metadata" ∧
      (observedClaim o.item).1 ≠ "superseded" ∧ ∃ place, observedCopy R o.item = some (place, id) ∧ place ≠ at_)
  | .finalize _ pending => pending.desiredStatus = .complete ∧ ∃ scan,
      s.db.runningScan pending.scanId = some scan ∧ scan.mode = .complete ∧
      s.db.namedCopy scan.scanId id = true
  | .book => False

/-- A superseded Copy becomes active again only where it was the one observed last. -/
def RestoresLatest (R : ProjectionRuntime) (s : ProjectionRun) (a : ProjectionAct) : Prop :=
  ∀ id at_, s.db.seating id = some (at_, false) → Restores R s id at_ a →
    lastAt (copyLog R s.history) at_ = some id

/-- The invariant of a path. -/
structure Seated (R : ProjectionRuntime) (s : ProjectionRun) : Prop where
  keyed : Keyed R s.db
  recent : Recent s.db.seating (copyLog R s.history)

/-- The index on the keys of active Copies allows one at each path. -/
theorem oneActive_of_keyed {db : Projection} (hk : Keyed R db) : OneActive db := by
  intro a ha b hb hactive hactive' hl hp
  obtain ⟨path, hpath, hkey⟩ := hk _ a (Table.get?_of_mem ha)
  obtain ⟨path', hpath', hkey'⟩ := hk _ b (Table.get?_of_mem hb)
  have he : path' = path := Option.some.inj (hpath'.symm.trans (hp.symm.trans hpath))
  refine Table.eq_of_clash ha hb ?_
  have hat : a.at = b.at := Prod.ext_iff.mpr ⟨hl, hkey.trans (he ▸ hkey'.symm)⟩
  simp [copyBindingSchema, hactive, hactive', hat]

theorem Seated.oneCopyPerPath {s : ProjectionRun} (h : Seated R s) : OneCopyPerPath R s where
  unique := oneActive_of_keyed h.keyed
  keyed := h.keyed
  latest c hc hactive path hpath := by
    have hs := seating_of_get? (Table.get?_of_mem hc) hpath
    rw [hactive] at hs
    exact h.recent _ _ hs

theorem recent_of_latest {s : ProjectionRun} (h : OneCopyPerPath R s) :
    Recent s.db.seating (copyLog R s.history) := by
  intro id place hs
  cases hc : s.db.copyBindings.get? id with
  | none =>
    rw [seating_of_none hc] at hs
    cases hs
  | some c =>
    obtain ⟨path, hpath, -⟩ := h.keyed id c hc
    rw [seating_of_get? hc hpath] at hs
    obtain ⟨rfl, hactive⟩ := Prod.ext_iff.mp (Option.some.inj hs)
    have hid : c.canonicalId = id := Table.key_of_get? hc
    have hlast := h.latest c (Table.mem_of_get? hc) hactive path hpath
    rwa [hid] at hlast

theorem flag_of_inactive {db : Projection} {id basis state : String} {place : PhysicalPath}
    (h : db.seating id = some (place, false)) :
    CopyEffect.flag db id basis state = true ↔ basis ≠ "source_metadata" ∧ state ≠ "superseded" := by
  cases hc : db.copyBindings.get? id with
  | none =>
    rw [seating_of_none hc] at h
    cases h
  | some c =>
    have hactive : c.active = false := by
      rw [Projection.seating, hc, Option.bind_some] at h
      obtain ⟨path, -, he⟩ := Option.map_eq_some_iff.mp h
      exact (Prod.ext_iff.mp he).2
    rw [CopyEffect.flag, hc]
    by_cases hb : basis = "source_metadata" <;> simp [hb, hactive]

theorem ProjectionStep.keyed {s t : ProjectionRun} {a : ProjectionAct} (hk : Keyed R s.db)
    (h : ProjectionStep R context s a t) : Keyed R t.db := by
  cases h with
  | item hkind h => exact (item_seating hk hkind h).1
  | finalize h =>
    cases finalizeScan_effect h with
    | published hscan hstatus hmode hw => exact hw.restates.keyed hk
    | inert hscan hopen he => exact keyed_of_same he hk
  | book h => exact keyed_of_same h.evidence hk

/-- What one step preserves, and that it needs the condition to do so. -/
theorem ProjectionStep.recent_iff {s t : ProjectionRun} {a : ProjectionAct} (hs : Seated R s)
    (h : ProjectionStep R context s a t) :
    Recent t.db.seating (copyLog R t.history) ↔ RestoresLatest R s a := by
  cases h with
  | @item o index kind db hkind h =>
    obtain ⟨-, heffect⟩ := item_seating hs.keyed hkind h
    simp only [copyLog_snoc]
    cases heffect with
    | @observed place id hcopy hfailed hobserved =>
      rw [hcopy, Option.toList_some, recent_observe_iff hs.recent hobserved]
      constructor
      · rintro hkept id' at_ hat (hf | ⟨hbasis, hstate, place', hcopy', hne⟩)
        · rw [hfailed] at hf
          cases hf
        · rw [hcopy] at hcopy'
          cases hcopy'
          exact (hkept ((flag_of_inactive hat).mpr ⟨hbasis, hstate⟩) at_ hat).resolve_left fun e => hne e.symm
      · intro hrestores hflag at_ hat
        by_cases he : at_ = place
        · exact Or.inl he
        · obtain ⟨hbasis, hstate⟩ := (flag_of_inactive hat).mp hflag
          exact Or.inr (hrestores id at_ hat (Or.inr ⟨hbasis, hstate, place, hcopy, fun e => he e.symm⟩))
    | restated hcopy hrestated =>
      rw [hcopy, Option.toList_none, List.append_nil, recent_restate_iff hs.recent hrestated]
      constructor
      · rintro hkept id at_ hat (hf | ⟨-, -, place, hcopy', -⟩)
        · exact hkept id hf at_ hat
        · rw [hcopy] at hcopy'
          cases hcopy'
      · intro hrestores id hf at_ hat
        exact hrestores id at_ hat (Or.inl hf)
  | @finalize record pending db h =>
    cases finalizeScan_effect h with
    | @published scan hscan hstatus hmode hw =>
      rw [recent_restate_iff hs.recent (hw.restates.restated hs.keyed)]
      constructor
      · rintro hkept id at_ hat ⟨-, scan', hscan', -, hnamed⟩
        rw [hscan] at hscan'
        cases hscan'
        exact hkept id hnamed at_ hat
      · intro hrestores id hnamed at_ hat
        exact hrestores id at_ hat ⟨hstatus, scan, hscan, hmode, hnamed⟩
    | @inert scan hscan hopen he =>
      rw [seating_of_same he hs.keyed]
      refine ⟨?_, fun _ => hs.recent⟩
      rintro - id at_ - ⟨hstatus, scan', hscan', hmode, -⟩
      rw [hscan] at hscan'
      cases hscan'
      exact absurd ⟨hstatus, hmode⟩ hopen
  | book h =>
    rw [seating_of_same h.evidence hs.keyed]
    exact ⟨fun _ _ _ _ hr => hr.elim, fun _ => hs.recent⟩

theorem seated_of_empty {db : Projection} (h : db.copyBindings.rows = []) : Seated R ⟨db, []⟩ where
  keyed id c hc := by
    have hm := Table.mem_of_get? hc
    rw [h] at hm
    cases hm
  recent id place hs := by
    have hn : db.copyBindings.get? id = none := by
      rw [Table.get?_eq_none, h]
      simp
    rw [seating_of_none hn] at hs
    cases hs

/-- Items that rest on source metadata change no Copy that stands, and add no check. -/
theorem projectItem_inventory {db db' : Projection} (hk : Keyed R db) {o : AppliedItem} {kind : String}
    {index : Nat} (hannex : kind = "annex_entry_observed")
    (hmeta : claimedBasis o.item = "source_metadata")
    (h : db.projectItem R o.item kind o.record context index = .ok db') :
    db'.checks = db.checks ∧
      ∀ id c, db.copyBindings.get? id = some c → db'.copyBindings.get? id = some c := by
  obtain ⟨d, heffect, hsame⟩ := projectItem_effect h
  rw [hsame.evidence.checks, hsame.evidence.copies]
  cases heffect with
  | annex hk' h =>
    cases projectAnnexEntry_effect hk h with
    | kept hcopy hkeyed hseating hscans hinert =>
      obtain ⟨hchecks, hcopies⟩ := hinert (isInventory_iff.mpr hmeta)
      refine ⟨hchecks, fun id c hc => ?_⟩
      rw [hcopies]
      exact hc
    | written hpresent hcopy hwrites =>
      obtain ⟨⟨d₁, d₂, binding, record, path, row, h₁, heffect, h₂⟩, hinert⟩ := hwrites
      refine ⟨hinert hmeta, fun id c hc => ?_⟩
      rw [h₂.copies]
      exact heffect.inert hmeta (by rw [h₁.copies]; exact hc)
  | content hk' h => exact absurd (hannex.symm.trans hk') (by decide)
  | failure hk' h => exact absurd (hannex.symm.trans hk') (by decide)
  | scanStarted hk' h => exact absurd (hannex.symm.trans hk') (by decide)
  | candidate hk' h => exact absurd (hannex.symm.trans hk') (by decide)
  | scanCompleted hk' h => exact absurd (hannex.symm.trans hk') (by decide)
  | other hk' h => exact absurd (by rw [hannex]; decide) hk'

/-- Along a path that starts without Copies, at most one Copy is active at a physical path, and
it is the one observed there last exactly when no step restores another.  Items that rest
on source metadata change no Copy that stands. -/
theorem one_copy_per_path_iff {db : Projection} (hdb : db.copyBindings.rows = [])
    {p : List (ProjectionAct × ProjectionRun)} (hp : ProjectionPath R context ⟨db, []⟩ p) :
    (∀ q r, p = q ++ r → OneActive (final ⟨db, []⟩ q).db ∧ Keyed R (final ⟨db, []⟩ q).db) ∧
      ((∀ q r, p = q ++ r → OneCopyPerPath R (final ⟨db, []⟩ q)) ↔
        Path (fun s a _ => RestoresLatest R s a) ⟨db, []⟩ p) ∧
      ∀ q o index t r, p = q ++ (.item o index, t) :: r →
        optionalString o.item "kind" = some "annex_entry_observed" →
        claimedBasis o.item = "source_metadata" →
        t.db.checks = (final ⟨db, []⟩ q).db.checks ∧
          ∀ id c, (final ⟨db, []⟩ q).db.copyBindings.get? id = some c → t.db.copyBindings.get? id = some c := by
  have hstart : Seated R ⟨db, []⟩ := seated_of_empty hdb
  have hkeyed : ∀ q r, p = q ++ r → Keyed R (final ⟨db, []⟩ q).db := by
    rintro q r rfl
    exact Path.invariant (P := fun s => Keyed R s.db) (fun _ _ _ hk h => h.keyed hk) hstart.keyed
      (path_append.mp hp).1
  refine ⟨fun q r hq => ⟨oneActive_of_keyed (hkeyed q r hq), hkeyed q r hq⟩, ?_, ?_⟩
  · have hkeep : ∀ s a t, Seated R s → ProjectionStep R context s a t → RestoresLatest R s a → Seated R t := by
      intro s a t hs h hc
      exact ⟨h.keyed hs.keyed, (h.recent_iff hs).mpr hc⟩
    have hneed : ∀ s a t, Seated R s → ProjectionStep R context s a t → OneCopyPerPath R t →
        RestoresLatest R s a := by
      intro s a t hs h hgood
      exact (h.recent_iff hs).mp (recent_of_latest hgood)
    exact Path.along_iff (fun _ hs => Seated.oneCopyPerPath hs) hkeep hneed hstart hp
  · intro q o index t r hq hannex hmeta
    have hk := hkeyed q _ hq
    have hstep : ProjectionStep R context (final ⟨db, []⟩ q) (.item o index) t := by
      rw [hq] at hp
      exact hp.step
    cases hstep with
    | item hkind h =>
      have hkind' := string_eq_ok.mp hkind
      rw [hannex] at hkind'
      exact projectItem_inventory hk (Option.some.inj hkind').symm hmeta h

/-! ### A Copy observed at two paths -/

namespace Sample

/-- A failure that names a Copy only. -/
def failedVerification (copy : String) (location : Nat) : Json :=
  .obj [("kind", string "copy_verification_failed"), ("result", string "read_error"),
    ("copy_claim_id", string copy), ("location_id", string (locationId location))]

/-- A Copy moves over another, whose verification fails afterwards. -/
def moved : ProjectedBatch :=
  ⟨1, 1, 0, 0, [observedFile 1 "file_b" "b" 1 "copy_b" "b", observedFile 2 "file_a" "a" 1 "copy_a" "a",
    observedFile 1 "file_b" "b" 1 "copy_b" "a", failedVerification "copy_a" 1]⟩

def movedContext : V2VerificationContext := contextOf [[]]

/-- The projection when the items of the batch begin. -/
def movedBegun : Projection :=
  ((commitAll (Projection.projectRecord projectionRuntime movedContext) registry [startRecord moved]).bind
    fun db => (db.insertRecord (chunkRecord moved)).map Prod.fst).toOption.getD registry

def movedActs : List ProjectionAct := moved.items.zipIdx.map fun i => .item ⟨chunkRecord moved, i.1⟩ i.2

theorem moved_run : ∃ t, commitAll (fun s a => ProjectionRun.next projectionRuntime movedContext s a)
    ⟨movedBegun, []⟩ movedActs = .ok t ∧ (t.db.copyBindings.rows.any fun c => c.active &&
      (t.db.copyPath c).any fun path => decide (lastAt (copyLog projectionRuntime t.history)
        (c.locationId, path) ≠ some c.canonicalId)) = true :=
  exists_ok_of_any (by decide +kernel)

/-- The Copy that was superseded is active again at the path where the other was observed last. -/
theorem moved_restored : movedBegun.copyBindings.rows = [] ∧
    ∃ p, p.map Prod.fst = movedActs ∧
      ProjectionPath projectionRuntime movedContext ⟨movedBegun, []⟩ p ∧
      ¬ OneCopyPerPath projectionRuntime (final ⟨movedBegun, []⟩ p) := by
  obtain ⟨t, hrun, hbad⟩ := moved_run
  obtain ⟨p, hacts, hp, rfl⟩ := path_of_acts hrun
  refine ⟨by decide +kernel, p, hacts, hp, fun h => ?_⟩
  obtain ⟨c, hc, hbad⟩ := List.any_eq_true.mp hbad
  rw [Bool.and_eq_true, Option.any_eq_true] at hbad
  obtain ⟨hactive, path, hpath, hne⟩ := hbad
  exact of_decide_eq_true hne (h.latest c hc hactive path hpath)

theorem moved_one_copy : ∃ p, p.map Prod.fst = movedActs ∧
    ProjectionPath projectionRuntime movedContext ⟨movedBegun, []⟩ p ∧
    ((∀ q r, p = q ++ r → OneCopyPerPath projectionRuntime (final ⟨movedBegun, []⟩ q)) ↔
      Path (fun s a _ => RestoresLatest projectionRuntime s a) ⟨movedBegun, []⟩ p) := by
  obtain ⟨t, hrun, -⟩ := moved_run
  obtain ⟨p, hacts, hp, -⟩ := path_of_acts hrun
  exact ⟨p, hacts, hp, (one_copy_per_path_iff (by decide +kernel) hp).2.1⟩

end Sample

end ArchiveLedger
