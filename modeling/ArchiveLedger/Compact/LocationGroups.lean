import ArchiveLedger.Compact.FilePages

/-!
# Searching by location groups

What a search with location groups asks of a File (`Matches`), and which paths are its matching sources
(`IsSource`).  The three places of the queries that test a Copy agree: the condition on a group and
the condition on the source group over the tables, and the matching sources over the views
(`groupExists_iff`, `sourceExists_iff`, `mem_sources`).
-/

namespace ArchiveLedger.Compact

open Relational

/-! ### Meaning -/

/-- A Copy whose last check was good, at most so long before the time. -/
def VerifiedWithin (t : Tables) (asOf : Option Nat) (b : CopyBindingRow) (age : Nat) : Prop :=
  ∃ (now : Nat) (v : CheckRow), asOf = some now ∧ t.check? b.latestIntegrity = some v ∧
    verificationResult (some v) (t.error? (some v)) = some .ok ∧ (now : Int) - age ≤ v.checkedAt ∧ v.checkedAt ≤ now

/-- A present Copy of a content at a Location of a group, verified within the age the group asks for. -/
structure Held (t : Tables) (asOf : Option Nat) (content : Int) (group : FileLocationGroup) (b : CopyBindingRow) :
    Prop where
  stored : b ∈ t.copyBindings.rows
  content : b.contentId = some content
  present : b.state = .present
  place : ∃ l, t.locations.get? b.locationId = some l ∧ l.locationId ∈ group.locationIds
  verified : ∀ age, group.verifiedWithinMs = some age → VerifiedWithin t asOf b age

/-- A path of the File that leads to such a Copy. -/
structure Leads (t : Tables) (asOf : Option Nat) (f : FileObjectRow) (content : Int) (group : FileLocationGroup)
    (p : FileLocationRow) (b : CopyBindingRow) : Prop where
  stored : p ∈ t.fileLocations.rows
  own : p.fileId = f.id
  present : p.presence = true
  representation : p.representation ≠ "annex_content"
  noOther : ∀ other, p.contentId = some other → other = content
  copy : p.copyId = some b.id
  place : b.locationId = p.locationId
  held : Held t asOf content group b

/-- What a search with location groups asks of a File. -/
structure Matches (t : Tables) (filter : FileFilter) (f : FileObjectRow) : Prop where
  resolved : f.identityState = .resolved
  held : ∃ content, f.contentId = some content ∧
    (∀ group ∈ filter.locationGroups, group.negated = false → ∃ b, Held t filter.asOfUtcMs content group b) ∧
    (∀ group ∈ filter.locationGroups, group.negated = true → ¬∃ b, Held t filter.asOfUtcMs content group b) ∧
    ∀ group, sourceGroup filter = some group → ∃ p b, Leads t filter.asOfUtcMs f content group p b

/-- The source at a path: the Location with the path of the Copy, or with that of a locked annex link. -/
def sourceAt (t : Tables) (f : FileObjectRow) (p : FileLocationRow) (b : CopyBindingRow) :
    Option FileMatchingSource := do
  let l ← t.locations.get? p.locationId
  let x ← t.claimed? b
  let claim := t.copyClaim b x.1 x.2
  some ⟨l.locationId, l.displayName,
    if p.representation = "annex_locked_symlink" then
      fromParts f.path.encoding f.path.bytes (f.pathDisplay.getD (castText f.path.bytes))
    else fromParts claim.relativePath.encoding claim.relativePath.bytes claim.relativePathDisplay⟩

/-- A matching source of a File. -/
def IsSource (t : Tables) (filter : FileFilter) (f : FileObjectRow) (group : FileLocationGroup)
    (source : FileMatchingSource) : Prop :=
  ∃ content p b, f.contentId = some content ∧ Leads t filter.asOfUtcMs f content group p b ∧
    sourceAt t f p b = some source

/-- A search by location groups alone. -/
def groupFilter (groups : List FileLocationGroup) (asOf : Option Nat) : FileFilter where
  locationGroups := groups
  asOfUtcMs := asOf
  collectionId := none
  exactPath := none
  pathPrefix := none
  identityState := none
  objectId := none
  externalIdentityId := none

/-! ### Checks -/

theorem verificationResult_some_eq_ok {v : CheckRow} {e : Option CheckErrorRow} :
    verificationResult (some v) e = some .ok ↔
      v.integrity = .verified ∧ ∀ r ∈ e, r.code ≠ "read_error" ∧ r.code ≠ "identity_mismatch" := by
  cases e with
  | none => cases h : v.integrity <;> simp [verificationResult, h]
  | some e =>
    by_cases hread : e.code = "read_error"
    · simp [verificationResult, hread]
    · by_cases hidentity : e.code = "identity_mismatch"
      · simp [verificationResult, hidentity]
      · cases h : v.integrity <;> simp [verificationResult, hread, hidentity, h]

namespace FileDb

variable (db : FileDb)

theorem verifiedWithin_iff {asOf : Option Nat} {b : CopyBindingRow} {age : Nat} :
    db.verifiedWithin asOf b.latestIntegrity (some age) = true ↔ VerifiedWithin db.toTables asOf b age := by
  have herror : ∀ v : CheckRow, (leftJoin db.checkErrors.rows fun e => same (some e.checkId) (some v.id)) =
      [db.error? (some v)] := fun v => leftJoin_errors (some v)
  have hlater : ∀ (now : Nat) (v : CheckRow), v ∈ db.checks.rows →
      (max 0 ((now : Int) - age) ≤ v.checkedAt ↔ (now : Int) - age ≤ v.checkedAt) := by
    intro now v hv
    have := db.checksTimed v hv
    omega
  simp only [Tables.verifiedWithin, herror, List.any_eq_true, Bool.and_eq_true, List.mem_singleton,
    exists_eq_left, decide_eq_true_eq, Option.any_eq_true, Option.all_eq_true, same_eq_true]
  constructor
  · intro h
    obtain ⟨v, hv, ⟨⟨⟨id, hid, hcheck⟩, hintegrity⟩, hcode⟩, now, hnow, hage, hpast⟩ := h
    cases hid
    refine ⟨now, v, hnow, ?_, verificationResult_some_eq_ok.mpr ⟨hintegrity, hcode⟩, (hlater now v hv).mp hage, hpast⟩
    rw [hcheck]
    exact Table.get?_of_mem hv
  · intro h
    obtain ⟨now, v, hnow, hcheck, hresult, hage, hpast⟩ := h
    obtain ⟨id, hid, hget⟩ := Option.bind_eq_some_iff.mp hcheck
    have hv := Table.mem_of_get? hget
    obtain ⟨hintegrity, hcode⟩ := verificationResult_some_eq_ok.mp hresult
    refine ⟨v, hv, ⟨⟨⟨id, ?_, hid⟩, hintegrity⟩, hcode⟩, now, hnow, (hlater now v hv).mpr hage, hpast⟩
    exact congrArg some (Table.key_of_get? hget)

/-- The age of a group, when it has one. -/
theorem verifiedWithin_group {asOf : Option Nat} {b : CopyBindingRow} {group : FileLocationGroup} :
    db.verifiedWithin asOf b.latestIntegrity group.verifiedWithinMs = true ↔
      ∀ age, group.verifiedWithinMs = some age → VerifiedWithin db.toTables asOf b age := by
  cases group.verifiedWithinMs with
  | none => simp [Tables.verifiedWithin]
  | some age => simpa using verifiedWithin_iff db

/-! ### Groups -/

theorem groupExists_iff {asOf : Option Nat} {content : Int} {group : FileLocationGroup} :
    db.groupExists asOf (some content) group = true ↔ ∃ b, Held db.toTables asOf content group b := by
  simp only [Tables.groupExists, List.any_eq_true, Bool.and_eq_true, decide_eq_true_eq, same_some_right,
    verifiedWithin_group]
  constructor
  · intro h
    obtain ⟨b, hb, l, hl, ⟨⟨⟨hid, hcontent⟩, hstate⟩, hgroup⟩, hverified⟩ := h
    refine ⟨b, hb, hcontent, hstate, ⟨l, ?_, hgroup⟩, hverified⟩
    rw [← hid]
    exact Table.get?_of_mem hl
  · intro h
    obtain ⟨b, hb, hcontent, hstate, ⟨l, hl, hgroup⟩, hverified⟩ := h
    exact ⟨b, hb, l, Table.mem_of_get? hl, ⟨⟨⟨Table.key_of_get? hl, hcontent⟩, hstate⟩, hgroup⟩, hverified⟩

theorem sourceExists_iff {asOf : Option Nat} {f : FileObjectRow} {content : Int}
    (hcontent : f.contentId = some content) {group : FileLocationGroup} :
    db.sourceExists asOf f group = true ↔ ∃ p b, Leads db.toTables asOf f content group p b := by
  simp only [Tables.sourceExists, List.any_eq_true, Bool.and_eq_true, Bool.or_eq_true, decide_eq_true_eq,
    hcontent, same_some_right, same_some_left, verifiedWithin_group]
  have hnone : ∀ id : Option Int, (id.isNone = true ∨ id = some content) ↔ ∀ other, id = some other → other = content := by
    intro id
    cases id <;> simp
  simp only [hnone]
  constructor
  · intro h
    obtain ⟨p, hp, l, hl, b, hb, ⟨⟨⟨⟨⟨⟨⟨⟨⟨hid, hcopy⟩, hfile⟩, hpresent⟩, hrepresentation⟩, hother⟩, hplace⟩, hcb⟩,
      hstate⟩, hgroup⟩, hverified⟩ := h
    refine ⟨p, b, hp, hfile, hpresent, hrepresentation, hother, hcopy, hplace, hb, hcb, hstate, ⟨l, ?_, hgroup⟩, hverified⟩
    rw [hplace, ← hid]
    exact Table.get?_of_mem hl
  · intro h
    obtain ⟨p, b, hp, hfile, hpresent, hrepresentation, hother, hcopy, hplace, hb, hcb, hstate, ⟨l, hl, hgroup⟩,
      hverified⟩ := h
    refine ⟨p, hp, l, Table.mem_of_get? hl, b, hb, ⟨⟨⟨⟨⟨⟨⟨⟨⟨?_, hcopy⟩, hfile⟩, hpresent⟩, hrepresentation⟩, hother⟩,
      hplace⟩, hcb⟩, hstate⟩, hgroup⟩, hverified⟩
    rw [← hplace]
    exact Table.key_of_get? hl

/-- The condition on the location groups. -/
theorem groupsHold_iff {filter : FileFilter} (hgroups : filter.locationGroups ≠ []) {f : FileObjectRow} :
    db.groupsHold filter f = true ↔ Matches db.toTables filter f := by
  have hempty : filter.locationGroups.isEmpty = false := by simpa using hgroups
  rw [Tables.groupsHold, hempty, Bool.false_or]
  cases hcontent : f.contentId with
  | none =>
    refine ⟨fun h => absurd h (by simp), fun h => ?_⟩
    obtain ⟨content, hsome, -⟩ := h.held
    rw [hcontent] at hsome
    cases hsome
  | some content =>
    have hnegated : (!(filter.locationGroups.any fun group =>
        db.groupExists filter.asOfUtcMs (some content) group == group.negated)) = true ↔
        (∀ group ∈ filter.locationGroups, group.negated = false →
          ∃ b, Held db.toTables filter.asOfUtcMs content group b) ∧
        (∀ group ∈ filter.locationGroups, group.negated = true →
          ¬∃ b, Held db.toTables filter.asOfUtcMs content group b) := by
      simp only [Bool.not_eq_true', List.any_eq_false, beq_iff_eq, ← groupExists_iff db]
      constructor
      · intro h
        constructor
        · intro group hg hneg
          have := h group hg
          rw [hneg] at this
          simpa using this
        · intro group hg hneg
          have := h group hg
          rwa [hneg] at this
      · intro h group hg heq
        cases hneg : group.negated with
        | false => simpa [hneg] using (h.1 group hg hneg).symm.trans heq
        | true => exact h.2 group hg hneg (heq.trans hneg)
    have hsource : (sourceGroup filter).all (fun group => db.sourceExists filter.asOfUtcMs f group) = true ↔
        ∀ group, sourceGroup filter = some group →
          ∃ p b, Leads db.toTables filter.asOfUtcMs f content group p b := by
      simp only [Option.all_eq_true, sourceExists_iff db hcontent]
    simp only [Bool.and_eq_true, hnegated, hsource, Option.isSome_some, true_and, decide_eq_true_eq]
    constructor
    · intro h
      obtain ⟨⟨hresolved, hpositive, hnegative⟩, hleads⟩ := h
      exact ⟨hresolved, content, hcontent, hpositive, hnegative, hleads⟩
    · intro h
      obtain ⟨hresolved, other, hother, hpositive, hnegative, hleads⟩ := h
      rw [hcontent] at hother
      cases hother
      exact ⟨⟨hresolved, hpositive, hnegative⟩, hleads⟩

/-! ### Sources -/

/-- The condition on the age, over the columns of a Copy claim. -/
theorem claimVerified_iff {asOf : Option Nat} {group : FileLocationGroup} {b : CopyBindingRow}
    (x : FileObjectRow × LocationRow) :
    (group.verifiedWithinMs.all fun age : Nat =>
      decide ((db.copyClaim b x.1 x.2).lastVerificationResult = some .ok) && asOf.any fun now : Nat =>
        (db.copyClaim b x.1 x.2).lastVerifiedTimeUtcMs.any fun time =>
          decide (max 0 ((now : Int) - age) ≤ time) && decide (time ≤ now)) = true ↔
      ∀ age, group.verifiedWithinMs = some age → VerifiedWithin db.toTables asOf b age := by
  have hage : ∀ age : Nat, ((decide ((db.copyClaim b x.1 x.2).lastVerificationResult = some .ok) &&
      asOf.any fun now : Nat => (db.copyClaim b x.1 x.2).lastVerifiedTimeUtcMs.any fun time =>
        decide (max 0 ((now : Int) - age) ≤ time) && decide (time ≤ now)) = true) ↔
      VerifiedWithin db.toTables asOf b age := by
    intro age
    have htimes : (db.copyClaim b x.1 x.2).lastVerifiedTimeUtcMs =
        (db.check? b.latestIntegrity).map CheckRow.checkedAt := rfl
    have hresults : (db.copyClaim b x.1 x.2).lastVerificationResult =
        verificationResult (db.check? b.latestIntegrity) (db.error? (db.check? b.latestIntegrity)) := rfl
    simp only [Bool.and_eq_true, decide_eq_true_eq, Option.any_eq_true, htimes, hresults]
    constructor
    · intro h
      obtain ⟨hresult, now, hnow, time, htime, hrecent, hpast⟩ := h
      obtain ⟨v, hv, rfl⟩ := Option.map_eq_some_iff.mp htime
      rw [hv] at hresult
      exact ⟨now, v, hnow, hv, hresult, le_trans (le_max_right _ _) hrecent, hpast⟩
    · intro h
      obtain ⟨now, v, hnow, hv, hresult, hrecent, hpast⟩ := h
      rw [hv]
      obtain ⟨id, -, hget⟩ := Option.bind_eq_some_iff.mp hv
      have hepoch := db.checksTimed v (Table.mem_of_get? hget)
      exact ⟨hresult, now, hnow, v.checkedAt, rfl, max_le hepoch hrecent, hpast⟩
  cases group.verifiedWithinMs with
  | none => simp
  | some age => simpa using hage age

/-- A row of the query for matching sources. -/
def sourceRow (f : FileObjectRow) (p : FileLocationRow) (l : LocationRow) (claim : CopyClaim) :
    FileMatchingSource × StoredPath :=
  let locked := p.representation = "annex_locked_symlink"
  let path := if locked then f.path else claim.relativePath
  let display := if locked then f.pathDisplay.getD (castText f.path.bytes) else claim.relativePathDisplay
  (⟨l.locationId, l.displayName, fromParts path.encoding path.bytes display⟩, path)

theorem sourceAt_eq_some {t : Tables} {f : FileObjectRow} {p : FileLocationRow} {b : CopyBindingRow}
    {source : FileMatchingSource} : sourceAt t f p b = some source ↔
      ∃ l x, t.locations.get? p.locationId = some l ∧ t.claimed? b = some x ∧
        source = (sourceRow f p l (t.copyClaim b x.1 x.2)).1 := by
  have hprinted : ∀ (l : LocationRow) (x : FileObjectRow × LocationRow), (sourceRow f p l (t.copyClaim b x.1 x.2)).1 = ⟨l.locationId, l.displayName,
      if p.representation = "annex_locked_symlink" then
        fromParts f.path.encoding f.path.bytes (f.pathDisplay.getD (castText f.path.bytes))
      else fromParts (t.copyClaim b x.1 x.2).relativePath.encoding (t.copyClaim b x.1 x.2).relativePath.bytes
        (t.copyClaim b x.1 x.2).relativePathDisplay⟩ := by
    intro l x
    by_cases hlocked : p.representation = "annex_locked_symlink"
    · simp [sourceRow, hlocked]
    · simp [sourceRow, hlocked]
  simp only [hprinted]
  constructor
  · intro h
    obtain ⟨l, hl, h⟩ := Option.bind_eq_some_iff.mp h
    obtain ⟨x, hx, h⟩ := Option.bind_eq_some_iff.mp h
    exact ⟨l, x, hl, hx, (Option.some.inj h).symm⟩
  · intro h
    obtain ⟨l, x, hl, hx, rfl⟩ := h
    exact Option.bind_eq_some_iff.mpr ⟨l, hl, Option.bind_eq_some_iff.mpr ⟨x, hx, rfl⟩⟩

/-- The rows of the query are those of the paths that lead to a Copy. -/
theorem mem_sourceRows {filter : FileFilter} {group : FileLocationGroup} {f : FileObjectRow}
    (hf : f ∈ db.fileObjects.rows) {content : Int} (hcontent : f.contentId = some content) (c : CollectionRow)
    {row : FileMatchingSource × StoredPath} :
    row ∈ db.sourceRows filter group (db.foundFile c f).summary ↔
      ∃ p b l x, Leads db.toTables filter.asOfUtcMs f content group p b ∧
        db.locations.get? p.locationId = some l ∧ db.claimed? b = some x ∧
        row = sourceRow f p l (db.copyClaim b x.1 x.2) := by
  have hobject : (db.foundFile c f).summary.objectId = (db.content? f.contentId).map ContentObjectRow.objectId := rfl
  have hrefers : Refers db.contentObjects f.contentId := db.linked.fileContent f hf
  have hsome : ∃ o, db.content? f.contentId = some o := by
    obtain ⟨o, ho⟩ := hrefers content hcontent
    exact ⟨o, by rw [Tables.content?, hcontent]; exact ho⟩
  have hsame : ∀ id, Refers db.contentObjects id →
      (same ((db.content? id).map ContentObjectRow.objectId) (db.foundFile c f).summary.objectId = true ↔
        id = f.contentId) := by
    intro id hid
    obtain ⟨o, ho⟩ := hsome
    rw [hobject, ← CompactDb.objectId_inj db.toCompactDb hid hrefers, ho, Option.map_some, same_some_right,
      decide_eq_true_eq]
  have hfile : ∀ g ∈ db.fileObjects.rows, g.canonicalId = f.canonicalId → g = f := fun g hg h =>
    Table.eq_of_clash hg hf (by simp [h])
  have hlocation : ∀ {l m : LocationRow}, l ∈ db.locations.rows → m ∈ db.locations.rows →
      l.locationId = m.locationId → l = m := fun hl hm h => eq_of_column hl hm h
  constructor
  · intro h
    rw [Tables.sourceRows, List.mem_dedup] at h
    obtain ⟨po, hpo, h⟩ := List.mem_flatMap.mp h
    obtain ⟨l, hlrow, h⟩ := List.mem_flatMap.mp h
    obtain ⟨cc, hccrow, h⟩ := List.mem_flatMap.mp h
    split at h
    · rename_i hcondition
      rw [pathObservations_eq] at hpo
      obtain ⟨p, hprow, hpo⟩ := List.mem_filterMap.mp hpo
      obtain ⟨hp, hrepresentation⟩ := List.mem_filter.mp hprow
      obtain ⟨g, m, hobserved, hg, hm⟩ := CompactDb.observed_of_mem db.toCompactDb hp
      rw [hobserved, Option.map_some, Option.some.injEq] at hpo
      obtain ⟨hcc, hclaim⟩ := List.mem_filter.mp hccrow
      rw [copyClaims_eq] at hcc
      obtain ⟨b, hb, hcc⟩ := List.mem_filterMap.mp hcc
      obtain ⟨x, hx, rfl⟩ := Option.map_eq_some_iff.mp hcc
      obtain ⟨hl, hlname⟩ := List.mem_filter.mp hlrow
      subst hpo
      have hlm : l = m := hlocation hl (Table.mem_of_get? hm) (of_decide_eq_true hlname)
      subst hlm
      simp only [Bool.and_eq_true] at hcondition hclaim
      obtain ⟨⟨⟨⟨⟨href, hother⟩, hpresent⟩, hgroup⟩, hbound⟩, hverified⟩ := hcondition
      obtain ⟨⟨hplace, hobjects⟩, hstate⟩ := hclaim
      have hgf : g = f := hfile g (Table.mem_of_get? hg) (of_decide_eq_true href)
      subst hgf
      have hkey : p.fileId = g.id := (Table.key_of_get? hg).symm
      have hlkey : p.locationId = l.id := (Table.key_of_get? hm).symm
      -- the binding that the query finds is the path itself, and its Copy the claimed one
      obtain ⟨binding, hbinding, hbound⟩ := List.any_eq_true.mp hbound
      obtain ⟨source, hsource, hbound⟩ := List.any_eq_true.mp hbound
      obtain ⟨l', hl', hbound⟩ := List.any_eq_true.mp hbound
      obtain ⟨physical, hphysical, hbound⟩ := List.any_eq_true.mp hbound
      simp only [Bool.and_eq_true, decide_eq_true_eq, same_some_left] at hbound
      obtain ⟨⟨⟨⟨⟨hsourceId, hlId⟩, hcopy⟩, hsourceName⟩, hlName⟩, hphysicalName⟩ := hbound
      have hsourceEq : source = g := hfile source hsource hsourceName
      have hlEq : l' = l := hlocation hl' hl hlName
      have hname : physical.canonicalId = b.canonicalId := hphysicalName
      have hphysicalEq : physical = b := Table.eq_of_clash hphysical hb (by simp [hname])
      have hbindingEq : binding = p := by
        refine eq_of_column hbinding hp ?_
        show (binding.fileId, binding.locationId) = (p.fileId, p.locationId)
        rw [← hsourceId, ← hlId, hsourceEq, hlEq, hkey, hlkey]
      subst hsourceEq hlEq hphysicalEq hbindingEq
      have hcontents : physical.contentId = source.contentId :=
        (hsame _ (db.linked.copyContent physical hb)).mp hobjects
      obtain ⟨owner, m, hclaimed, hplaced⟩ := CompactDb.claimed_of_mem db.toCompactDb hb
      rw [hclaimed] at hx
      cases hx
      have hml : m = l' := hlocation (Table.mem_of_get? hplaced) hl' (of_decide_eq_true hplace)
      subst hml
      have hleads : Leads db.toTables filter.asOfUtcMs source content group binding physical := by
        refine ⟨hp, hkey, hpresent, of_decide_eq_true hrepresentation, ?_, hcopy, ?_, ?_⟩
        · intro other hsome'
          have hrefersOther : Refers db.contentObjects binding.contentId := db.linked.locationContent binding hp
          rcases Bool.or_eq_true _ _ ▸ hother with hnone | hequal
          · have hthere := CompactDb.content_of_refers db.toCompactDb hrefersOther
            have habsent : (db.content? binding.contentId).isSome = false := by
              simpa [Tables.pathObservation] using hnone
            rw [habsent, hsome'] at hthere
            cases hthere
          · have hcontentEq := (hsame _ hrefersOther).mp hequal
            rw [hsome', hcontent] at hcontentEq
            exact Option.some.inj hcontentEq
        · rw [hlkey]
          exact (Table.key_of_get? hplaced).symm
        · exact ⟨hb, hcontents.trans hcontent, of_decide_eq_true hstate, ⟨m, hplaced, of_decide_eq_true hgroup⟩,
            (claimVerified_iff db (owner, m)).mp hverified⟩
      rw [List.mem_singleton] at h
      exact ⟨binding, physical, m, (owner, m), hleads, hm, hclaimed, h⟩
    · cases h
  · intro h
    obtain ⟨p, b, l, x, hleads, hm, hx, rfl⟩ := h
    obtain ⟨g, m, hobserved, hg, hget⟩ := CompactDb.observed_of_mem db.toCompactDb hleads.stored
    have hgf : g = f := by
      have hkey : g.id = p.fileId := Table.key_of_get? hg
      exact Table.eq_of_key (Table.mem_of_get? hg) hf (hkey.trans hleads.own)
    have hml : m = l := Option.some.inj (hget.symm.trans hm)
    subst hgf hml
    have hl := Table.mem_of_get? hm
    have hlkey : m.id = p.locationId := Table.key_of_get? hm
    obtain ⟨owner, y, hclaimed, hplaced⟩ := CompactDb.claimed_of_mem db.toCompactDb hleads.held.stored
    rw [hclaimed] at hx
    cases hx
    have hym : y = m := by
      rw [hleads.place, hm] at hplaced
      exact (Option.some.inj hplaced).symm
    subst hym
    have hpo : db.pathObservation p g y ∈ db.pathObservations := by
      rw [pathObservations_eq, List.mem_filterMap]
      exact ⟨p, List.mem_filter.mpr ⟨hleads.stored, decide_eq_true hleads.representation⟩, by rw [hobserved]; rfl⟩
    have hcc : db.copyClaim b owner y ∈ db.copyClaims := by
      rw [copyClaims_eq, List.mem_filterMap]
      exact ⟨b, hleads.held.stored, by rw [hclaimed]; rfl⟩
    have hobjects : same (db.copyClaim b owner y).objectId (db.foundFile c g).summary.objectId = true :=
      (hsame _ (db.linked.copyContent b hleads.held.stored)).mpr (hleads.held.content.trans hcontent.symm)
    obtain ⟨z, hz, hzgroup⟩ := hleads.held.place
    have hzy : z = y := by
      rw [hleads.place, hm] at hz
      exact (Option.some.inj hz).symm
    subst hzy
    rw [Tables.sourceRows, List.mem_dedup]
    refine List.mem_flatMap.mpr ⟨_, hpo, List.mem_flatMap.mpr ⟨z, List.mem_filter.mpr ⟨hl, decide_eq_true rfl⟩,
      List.mem_flatMap.mpr ⟨_, List.mem_filter.mpr ⟨hcc, ?_⟩, ?_⟩⟩⟩
    · simp only [Bool.and_eq_true]
      exact ⟨⟨decide_eq_true rfl, hobjects⟩, decide_eq_true hleads.held.present⟩
    · rw [if_pos]
      · exact List.mem_singleton.mpr rfl
      · simp only [Bool.and_eq_true]
        refine ⟨⟨⟨⟨⟨decide_eq_true rfl, ?_⟩, hleads.present⟩, decide_eq_true hzgroup⟩, ?_⟩,
          (claimVerified_iff db (owner, z)).mpr hleads.held.verified⟩
        · have hrefersOther : Refers db.contentObjects p.contentId := db.linked.locationContent p hleads.stored
          cases hid : p.contentId with
          | none => simp [Tables.pathObservation, hid, Tables.content?]
          | some other =>
            rw [Bool.or_eq_true]
            refine Or.inr ((hsame _ hrefersOther).mpr ?_)
            rw [hid, hcontent, hleads.noOther other hid]
        · refine List.any_eq_true.mpr ⟨p, hleads.stored, List.any_eq_true.mpr ⟨g, hf, List.any_eq_true.mpr ⟨z, hl,
            List.any_eq_true.mpr ⟨b, hleads.held.stored, ?_⟩⟩⟩⟩
          simp only [Bool.and_eq_true, decide_eq_true_eq, same_some_left]
          exact ⟨⟨⟨⟨⟨hleads.own.symm, hlkey⟩, hleads.copy⟩, rfl⟩, rfl⟩, rfl⟩

theorem mem_sources {filter : FileFilter} {group : FileLocationGroup} (hgroup : sourceGroup filter = some group)
    {f : FileObjectRow} (hf : f ∈ db.fileObjects.rows) {content : Int} (hcontent : f.contentId = some content)
    (c : CollectionRow) {source : FileMatchingSource} :
    source ∈ db.sources filter (db.foundFile c f).summary ↔ IsSource db.toTables filter f group source := by
  rw [Tables.sources, hgroup]
  simp only [List.mem_map, Keyset.mem_sorted, mem_sourceRows db hf hcontent]
  constructor
  · intro h
    obtain ⟨row, ⟨p, b, l, x, hleads, hl, hx, rfl⟩, rfl⟩ := h
    exact ⟨content, p, b, hcontent, hleads, sourceAt_eq_some.mpr ⟨l, x, hl, hx, rfl⟩⟩
  · intro h
    obtain ⟨other, p, b, hother, hleads, hsource⟩ := h
    rw [hcontent] at hother
    cases hother
    obtain ⟨l, x, hl, hx, rfl⟩ := sourceAt_eq_some.mp hsource
    exact ⟨_, ⟨p, b, l, x, hleads, hl, hx, rfl⟩, rfl⟩

/-- A File has one path at a Location, so a Location is named once. -/
theorem nodup_sources {filter : FileFilter} {f : FileObjectRow} (hf : f ∈ db.fileObjects.rows) {content : Int}
    (hcontent : f.contentId = some content) (c : CollectionRow) :
    (db.sources filter (db.foundFile c f).summary).Nodup := by
  rw [Tables.sources]
  cases hgroup : sourceGroup filter with
  | none => exact List.nodup_nil
  | some group =>
    have hrows : (db.sourceRows filter group (db.foundFile c f).summary).Nodup := List.nodup_dedup _
    refine ((Keyset.perm_sorted _ _).nodup_iff.mpr hrows).map_on fun row hrow row' hrow' h => ?_
    rw [Keyset.mem_sorted, mem_sourceRows db hf hcontent] at hrow hrow'
    obtain ⟨p, b, l, x, hleads, hl, hx, rfl⟩ := hrow
    obtain ⟨p', b', l', x', hleads', hl', hx', rfl⟩ := hrow'
    have hname : l.locationId = l'.locationId := congrArg FileMatchingSource.locationId h
    have hll : l = l' := eq_of_column (Table.mem_of_get? hl) (Table.mem_of_get? hl') hname
    have hkey : l.id = p.locationId := Table.key_of_get? hl
    have hkey' : l'.id = p'.locationId := Table.key_of_get? hl'
    have hpp : p = p' := by
      refine eq_of_column hleads.stored hleads'.stored ?_
      show (p.fileId, p.locationId) = (p'.fileId, p'.locationId)
      rw [hleads.own, hleads'.own, ← hkey, ← hkey', hll]
    have hbb : b = b' := by
      have hids := hleads.copy.symm.trans (hpp ▸ hleads'.copy)
      exact Table.eq_of_key hleads.held.stored hleads'.held.stored (Option.some.inj hids)
    subst hll hpp hbb
    rw [Option.some.inj (hx.symm.trans hx')]

/-- So many sources a File has. -/
theorem encard_sources {filter : FileFilter} {group : FileLocationGroup} (hgroup : sourceGroup filter = some group)
    {f : FileObjectRow} (hf : f ∈ db.fileObjects.rows) {content : Int} (hcontent : f.contentId = some content)
    (c : CollectionRow) : {source | IsSource db.toTables filter f group source}.encard =
      (db.sources filter (db.foundFile c f).summary).length := by
  have hset : {source | IsSource db.toTables filter f group source} =
      ((db.sources filter (db.foundFile c f).summary).toFinset : Set FileMatchingSource) := by
    ext source
    rw [Set.mem_ofPred_eq, Finset.mem_coe, List.mem_toFinset, mem_sources db hgroup hf hcontent c]
  rw [hset, Set.encard_coe_eq_coe_finsetCard, List.toFinset_card_of_nodup (nodup_sources db hf hcontent c)]

/-! ### The pages -/

theorem frozen_groupFilter (groups : List FileLocationGroup) (asOf : Option Nat) (now : Nat) :
    ∃ time, (groupFilter groups asOf).frozen now = groupFilter groups time := by
  rw [FileFilter.frozen]
  split
  · exact ⟨some now, rfl⟩
  · exact ⟨asOf, rfl⟩

theorem mem_listing_groups {groups : List FileLocationGroup} (hgroups : groups ≠ []) {asOf : Option Nat}
    {f : FileObjectRow} (hf : f ∈ db.fileObjects.rows) {c : CollectionRow}
    (hc : db.collections.get? f.collectionId = some c) :
    db.foundFile c f ∈ db.listing (groupFilter groups asOf) ↔
      f.active = true ∧ Matches db.toTables (groupFilter groups asOf) f := by
  have hsatisfies : db.satisfies (groupFilter groups asOf) (db.foundFile c f) =
      (f.active && db.groupsHold (groupFilter groups asOf) f) := by
    simp [Tables.satisfies, groupFilter, Tables.foundFile]
  rw [CompactDb.mem_listing, hsatisfies, Bool.and_eq_true, groupsHold_iff db hgroups]
  constructor
  · exact fun h => h.2
  · exact fun h => ⟨(CompactDb.mem_foundFiles db.toCompactDb).mpr ⟨f, hf, c, hc, rfl⟩, h⟩

/-- **Location groups mean what they say, and every hit has its sources.**  Unless a File that is found has
more than 1000 sources, the pages of a search by location groups hold an active File exactly when it
matches; with a positive group each of them has a source, and its sources are the Locations of the
paths that lead to a Copy the first positive group asks for. -/
theorem groups_listed {env : FindRuntime} (hread : ∀ token, env.readToken token.json = some token)
    (now : Option String → Nat) {status : ProjectionStatus} {groups : List FileLocationGroup}
    (hgroups : groups ≠ []) {asOf : Option Nat} {limit : Nat}
    (h : Accepted status (groupFilter groups asOf) limit (now none)) :
    (∃ f ∈ db.fileObjects.rows, f.active = true ∧
      Matches db.toTables ((groupFilter groups asOf).frozen (now none)) f ∧
      ∃ group, sourceGroup (groupFilter groups asOf) = some group ∧
        1000 < {source | IsSource db.toTables ((groupFilter groups asOf).frozen (now none)) f group source}.encard) ∨
    ∃ pages items, Keyset.collect (fetchFiles env now status db.toTables (groupFilter groups asOf) limit) pages none =
        some items ∧
      (∀ f ∈ db.fileObjects.rows, f.active = true →
        ((∃ item ∈ items, item.fileRefId = f.canonicalId) ↔
          Matches db.toTables ((groupFilter groups asOf).frozen (now none)) f)) ∧
      ∀ item ∈ items, ∃ f ∈ db.fileObjects.rows, f.active = true ∧ item.fileRefId = f.canonicalId ∧
        ∀ group, sourceGroup (groupFilter groups asOf) = some group →
          item.matchingSources ≠ [] ∧ item.matchingSources.Nodup ∧ ∀ source, source ∈ item.matchingSources ↔
            IsSource db.toTables ((groupFilter groups asOf).frozen (now none)) f group source := by
  obtain ⟨time, hfrozen⟩ := frozen_groupFilter groups asOf (now none)
  have hsame : ∀ time, sourceGroup (groupFilter groups time) = sourceGroup (groupFilter groups asOf) := fun _ => rfl
  have hlisted : ∀ r ∈ db.listing (groupFilter groups time), ∃ f ∈ db.fileObjects.rows, ∃ c,
      db.collections.get? f.collectionId = some c ∧ r = db.foundFile c f ∧ f.active = true ∧
        Matches db.toTables (groupFilter groups time) f := by
    intro r hr
    obtain ⟨f, hf, c, hc, rfl⟩ := (CompactDb.mem_foundFiles db.toCompactDb).mp
      ((CompactDb.mem_listing db.toCompactDb).mp hr).1
    exact ⟨f, hf, c, hc, rfl, (mem_listing_groups db hgroups hf hc).mp hr⟩
  by_cases hfew : ∀ r ∈ db.listing (groupFilter groups time),
      (db.sources (groupFilter groups time) r.summary).length ≤ 1000
  · right
    have hcollect := collect_files db env hread now h (by rw [hfrozen]; exact hfew)
    rw [hfrozen] at hcollect ⊢
    refine ⟨_, _, hcollect, fun f hf hactive => ?_, fun item hitem => ?_⟩
    · constructor
      · intro hlist
        obtain ⟨item, hitem, hname⟩ := hlist
        obtain ⟨r, hr, rfl⟩ := List.mem_map.mp hitem
        obtain ⟨g, hg, c, hc, rfl, -, hmatches⟩ := hlisted r hr
        have hcanonical : g.canonicalId = f.canonicalId := hname
        have hgf : g = f := Table.eq_of_clash hg hf (by simp [hcanonical])
        rwa [← hgf]
      · intro hmatches
        obtain ⟨c, hc⟩ := CompactDb.collection_of_file db.toCompactDb hf
        exact ⟨_, List.mem_map_of_mem ((mem_listing_groups db hgroups hf hc).mpr ⟨hactive, hmatches⟩), rfl⟩
    · obtain ⟨r, hr, rfl⟩ := List.mem_map.mp hitem
      obtain ⟨f, hf, c, hc, rfl, hactive, hmatches⟩ := hlisted r hr
      refine ⟨f, hf, hactive, rfl, fun group hgroup => ?_⟩
      obtain ⟨content, hcontent, -, -, hleads⟩ := hmatches.held
      obtain ⟨p, b, hlead⟩ := hleads group hgroup
      have hmem : ∀ source, source ∈ db.sources (groupFilter groups time) (db.foundFile c f).summary ↔
          IsSource db.toTables (groupFilter groups time) f group source := fun source =>
        mem_sources db ((hsame time).trans hgroup) hf hcontent c
      refine ⟨?_, nodup_sources db hf hcontent c, hmem⟩
      obtain ⟨l, hl⟩ := db.linked.locationLocation p hlead.stored _ rfl
      obtain ⟨owner, m, hclaimed, -⟩ := CompactDb.claimed_of_mem db.toCompactDb hlead.held.stored
      have hsource := sourceAt_eq_some (t := db.toTables) (f := f) (p := p) (b := b) |>.mpr
        ⟨l, (owner, m), hl, hclaimed, rfl⟩
      exact List.ne_nil_of_mem ((hmem _).mpr ⟨content, p, b, hcontent, hlead, hsource⟩)
  · left
    obtain ⟨r, hr⟩ := not_forall.mp hfew
    obtain ⟨hr, hmany⟩ := Classical.not_imp.mp hr
    obtain ⟨f, hf, c, hc, rfl, hactive, hmatches⟩ := hlisted r hr
    rw [hfrozen]
    refine ⟨f, hf, hactive, hmatches, ?_⟩
    obtain ⟨content, hcontent, -⟩ := hmatches.held
    cases hgroup : sourceGroup (groupFilter groups asOf) with
    | none =>
      have hnone : db.sources (groupFilter groups time) (db.foundFile c f).summary = [] := by
        rw [Tables.sources, hsame, hgroup]
      rw [hnone] at hmany
      exact absurd (Nat.zero_le _) hmany
    | some group =>
      refine ⟨group, rfl, ?_⟩
      rw [encard_sources db ((hsame time).trans hgroup) hf hcontent c]
      exact_mod_cast Nat.lt_of_not_le hmany

end FileDb

namespace Sample

def twoFiles : Table fileObjectSchema :=
  [1, 2].foldl (fun t n => t.insertOrIgnore ⟨n, "file_" ++ toString n, 1, ⟨"unix_bytes", [n.toNat.toUInt8]⟩, none,
    some 1, none, .resolved, true, none⟩) .empty

/-- Two Files of one content; the first has a Copy at the first Location, checked at 5. -/
def held : FileDb where
  collections := Table.empty.insertOrIgnore ⟨1, "col_1", "Photos"⟩
  devices := .empty
  locations := (Table.empty.insertOrIgnore ⟨1, "loc_1", "NAS", none, none, none, "online", "active"⟩).insertOrIgnore
    ⟨2, "loc_2", "USB", none, none, none, "offline", "active"⟩
  contentObjects := Table.empty.insertOrIgnore ⟨1, Vector.replicate 32 0, 7⟩
  sourceIdentities := .empty
  fileObjects := twoFiles
  fileLocations := Table.empty.insertOrIgnore ⟨1, 1, 1, "ordinary_file", some 1, none, true, some 1, some 1, 5, none⟩
  copyBindings := Table.empty.insertOrIgnore
    ⟨1, "copy_1", 1, 1, "1", none, none, none, some 1, none, .present, some 1, some 1, none⟩
  checks := Table.empty.insertOrIgnore ⟨1, 1, 5, .present, .verified⟩
  checkErrors := .empty
  linked := by decide +kernel
  filesFit := by decide +kernel
  locationsFit := by decide +kernel
  checksTimed := by decide +kernel
  pathsRead := by
    have hencoding : ∀ f ∈ twoFiles.rows, f.path.encoding ≠ "utf8" := by decide +kernel
    exact fun f hf h => absurd h (hencoding f hf)

/-- At the first Location, verified within 10 milliseconds, and not at the second. -/
def heldGroups : List FileLocationGroup := [⟨["loc_1"], false, some 10⟩, ⟨["loc_2"], true, none⟩]

noncomputable def findRuntime : FindRuntime where
  fileQueryHashAt _ := "5f1d"
  readToken := Function.partialInv FileToken.json

theorem first_file_found : ∃ pages items, Keyset.collect (fetchFiles findRuntime (fun _ => 12) ⟨3, "h", "h"⟩
    held.toTables (groupFilter heldGroups none) 1) pages none = some items ∧
    ∃ item ∈ items, item.fileRefId = "file_1" := by
  have hread : ∀ token, findRuntime.readToken token.json = some token :=
    Function.partialInv_left FileToken.json_injective
  have haccepted : Accepted ⟨3, "h", "h"⟩ (groupFilter heldGroups none) 1 12 := ⟨rfl, rfl, rfl, rfl⟩
  have hfile : ∃ f ∈ held.fileObjects.rows, f.active = true ∧ f.canonicalId = "file_1" ∧
      held.groupsHold (groupFilter heldGroups (some 12)) f = true := by decide +kernel
  have hfew : ∀ f ∈ held.fileObjects.rows, f.contentId = some 1 ∧ ∀ c ∈ held.collections.rows,
      (held.sources (groupFilter heldGroups (some 12)) (held.foundFile c f).summary).length ≤ 1000 := by
    decide +kernel
  obtain ⟨f, hf, hactive, hname, hholds⟩ := hfile
  have hgroups : heldGroups ≠ [] := by decide
  rcases FileDb.groups_listed held hread (fun _ => 12) hgroups haccepted with
    ⟨g, hg, -, -, group, hgroup, hmany⟩ | ⟨pages, items, hcollect, hfound, -⟩
  · obtain ⟨c, hc⟩ := CompactDb.collection_of_file held.toCompactDb hg
    have hsource : sourceGroup (groupFilter heldGroups (some 12)) = some group := hgroup
    have hcount := FileDb.encard_sources held hsource hg (hfew g hg).1 c
    have hle := (hfew g hg).2 c (Table.mem_of_get? hc)
    rw [show (groupFilter heldGroups none).frozen 12 = groupFilter heldGroups (some 12) from rfl, hcount] at hmany
    exact absurd (by exact_mod_cast hmany) (Nat.not_lt.mpr hle)
  · refine ⟨pages, items, hcollect, ?_⟩
    obtain ⟨item, hitem, hid⟩ := (hfound f hf hactive).mpr ((FileDb.groupsHold_iff held hgroups).mp hholds)
    exact ⟨item, hitem, hid.trans hname⟩

end Sample

end ArchiveLedger.Compact
