import ArchiveLedger.Projection.Readiness

/-!
# Runs of observations in another order

A run that succeeds leaves the Copies where its items put them and the operation keys it
recorded (`Stands`), and a state in which each of its items is accepted
(`deliver_accepted`).  Another order of the same chunks succeeds when no Copy is in its
way (`deliver_ready`).
-/

namespace ArchiveLedger

open Relational Outcome Transition Tracker Occupancy

variable {R : ProjectionRuntime} {context : V2VerificationContext} {frontiers : FrontierMap}
  {db₀ db db' F e : Projection} {done l L M : List Chunk} {os : List Observation} {V : View} {c : Chunk}
  {o : Observation}

/-! ### Copies and operations -/

/-- The Copies that observations place, in their order. -/
def placements (R : ProjectionRuntime) (os : List Observation) : List (PhysicalPath × String) :=
  os.filterMap fun o => observedCopy R o.item

def operationKey (o : Observation) : Option String := optionalString o.item "operation_key"

def Projection.operationKeys (db : Projection) : List String := db.operationOutcomes.rows.map (·.operationKey)

/-- The Copies and the operations of a state, by the observations applied since a start. -/
structure Stands (R : ProjectionRuntime) (db₀ : Projection) (os : List Observation) (db : Projection) : Prop where
  keyed : Projection.Keyed R db
  seating : db.seating = (placements R os).foldl seat db₀.seating
  roomy : Roomy db₀.seating (placements R os)
  operations : db.operationKeys = db₀.operationKeys ++ os.filterMap operationKey

theorem stands_nil (h : Projection.Keyed R db₀) : Stands R db₀ [] db₀ where
  keyed := h
  seating := rfl
  roomy := trivial
  operations := by simp

theorem placements_append (os os' : List Observation) :
    placements R (os ++ os') = placements R os ++ placements R os' := List.filterMap_append

theorem placements_singleton {at_ : PhysicalPath × String} (h : observedCopy R o.item = some at_) :
    placements R [o] = [at_] := by
  simp [placements, h]

/-- Two Copies that are active at one path are one. -/
theorem Projection.Keyed.unique (hk : Projection.Keyed R db) {a b : String} {place : PhysicalPath}
    (ha : db.seating a = some (place, true)) (hb : db.seating b = some (place, true)) : a = b := by
  obtain ⟨x, hx, hplace⟩ := Option.bind_eq_some_iff.mp ha
  obtain ⟨y, hy, hplace'⟩ := Option.bind_eq_some_iff.mp hb
  obtain ⟨p, hp, he⟩ := Option.map_eq_some_iff.mp hplace
  obtain ⟨q, hq, he'⟩ := Option.map_eq_some_iff.mp hplace'
  obtain ⟨hlocation, hpath⟩ := Prod.ext_iff.mp (Prod.ext_iff.mp (he.trans he'.symm)).1
  have hxactive : x.active = true := (Prod.ext_iff.mp he).2
  have hyactive : y.active = true := (Prod.ext_iff.mp he').2
  have hpaths : db.copyPath x = db.copyPath y := by rw [hp, hq, show p = q from hpath]
  have hxy : x = y := oneActive_of_keyed hk x (Table.mem_of_get? hx) y (Table.mem_of_get? hy) hxactive
    hyactive hlocation hpaths
  rw [← Table.key_of_get? hx, ← Table.key_of_get? hy, hxy]

/-- What an observation does to the Copies: it finds room for one, and places it. -/
theorem observed_seating (hk : Projection.Keyed R db)
    (hkind : optionalString o.item "kind" = some "content_observed")
    (h : db.projectContentObserved R o.item o.record frontiers = .ok db') :
    Projection.Keyed R db' ∧ ∃ at_, observedCopy R o.item = some at_ ∧ db'.seating = seat db.seating at_ ∧
      ¬ Crowded db.seating at_ := by
  obtain ⟨hk', heffect⟩ := content_seating hk hkind h
  obtain ⟨location, name, hlocation, hname, hwrites⟩ := Projection.projectContentObserved_writesCopy h
  obtain ⟨-, copy, path, hpath, -⟩ := hwrites.observed hk
  have hcopy : observedCopy R o.item = some ((location, path), name) := by
    rw [observedCopy, if_pos (Or.inl hkind), hlocation, hname, placedCopy_eq hpath]
  cases heffect with
  | restated hnone _ =>
    rw [hcopy] at hnone
    cases hnone
  | @observed place id hat _ hobserved =>
    rw [hcopy] at hat
    cases hat
    have hflag : Projection.CopyEffect.flag db name (observedClaim o.item).2 (observedClaim o.item).1 = true := by
      rw [observedClaim, if_pos hkind, Projection.CopyEffect.flag]
      split <;> rfl
    rw [hflag] at hobserved
    refine ⟨hk', _, hcopy, hobserved.eq_seat (o := ((location, path), name)), ?_⟩
    rintro ⟨q, active, id, hself, hq, hid, hother⟩
    -- afterwards both would be active at one path
    have hself' := hobserved.self
    rw [hself, Option.map_some, Option.getD_some] at hself'
    have hother' := hobserved.others id hid
    rw [hother, if_neg fun he => hq (Prod.ext_iff.mp (Option.some.inj he)).1] at hother'
    exact hid (hk'.unique hother' hself')

namespace Projection

variable {item : Json} {record : VerifiedV2Record} {index : Nat}

theorem operationOutcome_keys (h : db.projectOperationOutcome item record index = .ok db') :
    db'.operationKeys = db.operationKeys ++ (optionalString item "operation_key").toList := by
  unfold projectOperationOutcome at h
  split at h
  · rename_i hkey
    cases h
    rw [hkey]
    exact (List.append_nil _).symm
  · rename_i key hkey
    obtain ⟨_, _, h⟩ := bind_eq_ok.mp h
    obtain ⟨outcomes, hinsert, h⟩ := bind_eq_ok.mp h
    cases h
    obtain ⟨-, hrows⟩ := Table.insert?_eq_some.mp (statement_eq_ok.mp hinsert)
    rw [hkey]
    simp [operationKeys, hrows]

/-- An operation key that is not taken is recorded. -/
theorem operationOutcome_ready (hindex : index ≤ i64Max)
    (hkey : ∀ key, optionalString item "operation_key" = some key → key ∉ db.operationKeys) :
    ∃ db', db.projectOperationOutcome item record index = .ok db' := by
  unfold projectOperationOutcome
  split
  · exact ⟨db, rfl⟩
  · rename_i key hsome
    have hadmits : db.operationOutcomes.Admits ⟨key, record.record.envelope.recordId, index⟩ := by
      intro row hrow
      refine ⟨fun he => hkey key hsome ?_, rfl⟩
      exact List.mem_map.mpr ⟨row, hrow, he⟩
    have hinsert : db.operationOutcomes.insert? ⟨key, record.record.envelope.recordId, index⟩
        = some (db.operationOutcomes.add _ hadmits) := Table.insert?_eq_some.mpr ⟨hadmits, rfl⟩
    refine ⟨{ db with operationOutcomes := db.operationOutcomes.add _ hadmits }, ?_⟩
    refine bind_eq_ok.mpr ⟨index, sqlI64_eq_ok.mpr ⟨hindex, rfl⟩, bind_eq_ok.mpr ⟨_, ?_, rfl⟩⟩
    exact statement_eq_ok.mpr hinsert

end Projection

theorem Stands.observeItem {entry : Json × Nat} {record : VerifiedV2Record} {count : Nat}
    (hs : Stands R db₀ os db) (hkind : optionalString entry.1 "kind" = some "content_observed")
    (h : Projection.observeItem R context record count db entry = .ok db') :
    Stands R db₀ (os ++ [⟨record, entry.1⟩]) db' := by
  obtain ⟨d, index, hd, -, hout⟩ := Projection.observeItem_eq_ok h
  obtain ⟨hkeyed, at_, hcopy, hseating, hroom⟩ :=
    observed_seating (o := ⟨record, entry.1⟩) hs.keyed hkind hd
  obtain ⟨name, size, row, hwritten⟩ := written_observed (o := ⟨record, entry.1⟩) hd
  have hframe := Projection.projectOperationOutcome_frame hout
  have hplaced : placements R (os ++ [⟨record, entry.1⟩]) = placements R os ++ [at_] := by
    rw [placements_append, placements_singleton hcopy]
  refine ⟨?_, ?_, ?_, ?_⟩
  · rw [hframe]
    exact hkeyed
  · rw [hplaced, List.foldl_append, ← hs.seating, hframe]
    exact hseating
  · rw [hplaced, roomy_append, ← hs.seating]
    exact ⟨hs.roomy, hroom, trivial⟩
  · have hkeys : d.operationKeys = db.operationKeys := by
      rw [Projection.operationKeys, hwritten.outcomes]
      rfl
    rw [Projection.operationOutcome_keys hout, hkeys, hs.operations, List.filterMap_append,
      List.append_assoc, List.filterMap_cons, List.filterMap_nil]
    cases hkey : optionalString entry.1 "operation_key" with
    | none => simp [operationKey, hkey]
    | some key => simp [operationKey, hkey]

/-! ### What a state offers -/

/-- The physical paths of the Copies of a state and of chunks. -/
def CopyPaths (R : ProjectionRuntime) (db : Projection) (L : List Chunk) (path : StoredPath) : Prop :=
  (∃ id location active, db.seating id = some ((location, path), active)) ∨
    ∃ c ∈ L, ∃ o ∈ c.observations, ∃ copy, pathValue R o.item "copy_path" = .ok (copy, path)

theorem observedCopy_path {at_ : PhysicalPath × String}
    (hkind : optionalString o.item "kind" = some "content_observed") (h : observedCopy R o.item = some at_) :
    ∃ copy, pathValue R o.item "copy_path" = .ok (copy, at_.1.2) := by
  rw [observedCopy, if_pos (Or.inl hkind)] at h
  unfold placedCopy at h
  split at h
  · rename_i copy path _ _ hpath
    cases h
    exact ⟨copy, hpath⟩
  · cases h

/-- Observations put the Copies at the paths they name. -/
theorem Stands.seats {P : StoredPath → Prop} (hs : Stands R db₀ os db)
    (hstart : ∀ id place active, db₀.seating id = some (place, active) → P place.2)
    (hos : ∀ o ∈ os, optionalString o.item "kind" = some "content_observed" ∧
      ∀ copy path, pathValue R o.item "copy_path" = .ok (copy, path) → P path) :
    ∀ id place active, db.seating id = some (place, active) → P place.2 := by
  rw [hs.seating]
  refine foldl_seat_places (Q := fun place : PhysicalPath => P place.2) hstart ?_
  intro x hx
  obtain ⟨o, ho, hat⟩ := List.mem_filterMap.mp hx
  obtain ⟨hkind, hpath⟩ := hos o ho
  obtain ⟨copy, hcopy⟩ := observedCopy_path hkind hat
  exact hpath copy _ hcopy

theorem Projection.insertFileIdentityConflict_ready {a b : VerifiedV2Record} (collectionId : String)
    (path : StoredPath) (ha : a.originSeq ≤ i64Max) (hb : b.originSeq ≤ i64Max) :
    ∃ d, db.insertFileIdentityConflict R collectionId path a.dot b.dot = .ok d := by
  have hleft : (fileIdentityConflict R collectionId path a.dot b.dot).left.originSeq ≤ i64Max := by
    unfold fileIdentityConflict
    split
    · exact ha
    · exact hb
  have hright : (fileIdentityConflict R collectionId path a.dot b.dot).right.originSeq ≤ i64Max := by
    unfold fileIdentityConflict
    split
    · exact hb
    · exact ha
  simp only [insertFileIdentityConflict, sqlI64_eq_ok.mpr ⟨hleft, rfl⟩, sqlI64_eq_ok.mpr ⟨hright, rfl⟩]
  exact ⟨_, rfl⟩

namespace Tracks

/-- The File of an id is at the path of the observation. -/
theorem old (hu : Trackable R db₀ done) (ht : Tracks R frontiers db₀ done V db) (hc : c ∈ done)
    (ho : o ∈ c.observations) {id : String} {file : FileObjectRow} (hid : o.fileRef = some id)
    (hfile : db.fileObjects.get? id = some file) : o.logicalPath R = some file.at := by
  have hkey : file.canonicalId = id := Table.key_of_get? hfile
  rcases ht.files file (Table.mem_of_get? hfile) with hold | ⟨x, hx, y, hy, href, hpath⟩
  · exact absurd (hid.trans (congrArg some hkey.symm)) (hu.files c hc o ho file hold).1
  · rw [← hpath]
    exact hu.stable c hc o ho x hx y hy (by rw [hid, href, hkey])

theorem record_mem (ht : Tracks R frontiers db₀ done V db) (hc : c ∈ done) :
    db.records.get? c.record.record.envelope.recordId = some (Projection.recordRow c.record) :=
  Table.get?_of_mem (S := recordSchema) ((ht.records _).mpr (Or.inr ⟨c, hc, rfl⟩))

/-- An observation is judged: the record of the last one is known, and its own causal base. -/
theorem judges (hu : Trackable R db₀ done) (ht : Tracks R frontiers db₀ done V db) (hc : c ∈ done)
    (ho : o ∈ c.observations) (hfrontier : (frontiers.get? c.record.causalFrontierHash).isSome = true)
    (hseq : ∀ c ∈ done, c.record.originSeq ≤ i64Max) {k : CollectionPath} (hk : o.logicalPath R = some k)
    (objectId : String) (hsame : Projection.SameIdentities db e) : ∃ e₁ conflict,
      e.contentConflict R o.record frontiers k.1 k.2 objectId (e.activeFile k.1 k.2) = .ok (e₁, conflict) := by
  have hactive : e.activeFile k.1 k.2 = db.activeFile k.1 k.2 := by
    rw [Projection.activeFile, hsame.files]
    rfl
  have hrecord : o.record = c.record := (Chunk.mem_observations.mp ho).1
  have hshows := ht.identity k
  rw [hactive]
  cases hv : V k with
  | none =>
    rw [hv] at hshows
    have hstart : db.activeFile k.1 k.2 = none := by
      rw [hshows]
      refine Option.eq_none_iff_forall_ne_some.mpr fun file hfile => ?_
      obtain ⟨hm, _, hat⟩ := Projection.activeFile_eq_some.mp hfile
      exact (hu.files c hc o ho file hm).2 (by rw [hk, hat])
    rw [hstart]
    exact ⟨e, false, rfl⟩
  | some v =>
    rw [hv] at hshows
    cases v with
    | contested a b =>
      obtain ⟨file, hfile, hstate, _⟩ := hshows
      rw [hfile, Projection.contentConflict, if_pos hstate]
      exact ⟨e, true, rfl⟩
    | settled x =>
      obtain ⟨hx, -⟩ := ht.sees.settled k x hv
      obtain ⟨file, object, hfile, hstate, -, -, hlast⟩ := hshows
      rw [hfile, Projection.contentConflict, if_neg (by rw [hstate]; decide)]
      split
      · exact ⟨e, false, rfl⟩
      · obtain ⟨base, hbase⟩ := Option.isSome_iff_exists.mp hfrontier
        have hold : e.records.get? file.lastRecord = some (Projection.recordRow x.record) := by
          rw [hsame.records, hlast]
          exact ht.record_mem hx
        have hjudged : ∃ e₁ conflict, (if base.includesDot x.record.originId x.record.originSeq then
            .ok (e, false) else (e.insertFileIdentityConflict R k.1 k.2 x.record.dot c.record.dot >>=
              fun d => .ok (d, true)) : ProjectionResult (Projection × Bool)) = .ok (e₁, conflict) := by
          split
          · exact ⟨e, false, rfl⟩
          · obtain ⟨d, hd⟩ : ∃ d, e.insertFileIdentityConflict R k.1 k.2 x.record.dot c.record.dot = .ok d :=
              Projection.insertFileIdentityConflict_ready k.1 k.2 (hseq x hx) (hseq c hc)
            exact ⟨d, true, bind_eq_ok.mpr ⟨d, hd, rfl⟩⟩
        obtain ⟨e₁, conflict, hrun⟩ := hjudged
        refine ⟨e₁, conflict, bind_eq_ok.mpr ⟨_, statement_eq_ok.mpr hold, ?_⟩⟩
        rw [hrecord]
        exact bind_eq_ok.mpr ⟨base, okOr_eq_ok.mpr hbase, hrun⟩

end Tracks

/-! ### Runs that succeed -/

/-- What a run over observations has added. -/
structure Applied (R : ProjectionRuntime) (frontiers : FrontierMap) (db : Projection) (os : List Observation)
    (db' : Projection) : Prop where
  runs : db'.batchRuns = db.batchRuns
  known : Extends db db'
  accepted : ∀ o ∈ os, Accepted R frontiers db' o

theorem Applied.nil : Applied R frontiers db [] db where
  runs := rfl
  known := Extends.refl db
  accepted o ho := by cases ho

theorem Applied.cons {d : Projection} (h : Applied R frontiers db [o] d) (g : Applied R frontiers d os db') :
    Applied R frontiers db (o :: os) db' where
  runs := g.runs.trans h.runs
  known := h.known.trans g.known
  accepted x hx := by
    rcases List.mem_cons.mp hx with rfl | hx
    · exact (h.accepted x (by simp)).mono g.known
    · exact g.accepted x hx

/-- What no observation refers to may change. -/
theorem extends_of_same (hcollections : db'.collections = db.collections)
    (hlocations : db'.locations = db.locations) (hidentities : db'.sourceIdentities = db.sourceIdentities)
    (hobjects : db'.contentObjects = db.contentObjects) (hfiles : db'.fileObjects = db.fileObjects) :
    Extends db db' where
  collections := hcollections
  locations := hlocations
  identities id := by rw [hidentities]
  objects id row h := ⟨row, by rw [hobjects, h], rfl⟩
  files id file h := ⟨file, by rw [hfiles, h], rfl, fun ha => ha⟩

section

variable {count k : Nat} {items : List Json}

theorem Tracks.applied {entry : Json × Nat} (hu : Trackable R db₀ done)
    (ht : Tracks R context.frontiers db₀ done V db) (hc : c ∈ done) (hi : entry.1 ∈ c.items)
    (h : Projection.observeItem R context c.record count db entry = .ok db') :
    Applied R context.frontiers db [⟨c.record, entry.1⟩] db' := by
  obtain ⟨d, index, hd, -, hout⟩ := Projection.observeItem_eq_ok h
  obtain ⟨name, size, row, hwritten⟩ := written_observed (o := ⟨c.record, entry.1⟩) hd
  have ho : (⟨c.record, entry.1⟩ : Observation) ∈ c.observations := Chunk.mem_observations.mpr ⟨rfl, hi⟩
  have hold : ∀ old, db.fileObjects.get? row.canonicalId = some old → old.at = row.at := fun old hget =>
    Option.some.inj ((ht.old hu hc ho hwritten.fileRef hget).symm.trans hwritten.path)
  have hframe := Projection.projectOperationOutcome_frame hout
  have hlast : Extends d db' := by
    rw [hframe]
    exact extends_of_same rfl rfl rfl rfl rfl
  refine ⟨?_, hwritten.extended.trans hlast, ?_⟩
  · rw [hframe]
    exact hwritten.runs
  · intro o ho
    obtain rfl := List.mem_singleton.mp ho
    exact (hwritten.accepted hd hold).mono hlast

/-- The items of a chunk, one after the other. -/
theorem Tracks.appliedAll (hu : Trackable R db₀ done) (ht : Tracks R context.frontiers db₀ done V db)
    (hs : Stands R db₀ os db) (hc : c ∈ done) (hi : ∀ item ∈ items, item ∈ c.items)
    (hkind : ∀ item ∈ c.items, optionalString item "kind" = some "content_observed")
    (h : commitAll (Projection.observeItem R context c.record count) db (items.zipIdx k) = .ok db') :
    Stands R db₀ (os ++ items.map fun item => ⟨c.record, item⟩) db' ∧
      Applied R context.frontiers db (items.map fun item => ⟨c.record, item⟩) db' := by
  induction items generalizing V db k os with
  | nil =>
    cases h
    exact ⟨by simpa using hs, .nil⟩
  | cons item items ih =>
    rw [List.zipIdx_cons] at h
    obtain ⟨d, hd, h⟩ := (commitAll_cons _).mp h
    have hitem := hi item List.mem_cons_self
    obtain ⟨hs', happlied⟩ := ih (ht.observeItem hu hc hitem hd) (hs.observeItem (hkind item hitem) hd)
      (fun item hitem => hi item (List.mem_cons_of_mem _ hitem)) h
    refine ⟨?_, (ht.applied hu hc hitem hd).cons happlied⟩
    simpa using hs'

end

/-- What a run over chunks leaves. -/
structure Delivered (R : ProjectionRuntime) (frontiers : FrontierMap) (db₀ : Projection) (l : List Chunk)
    (db : Projection) : Prop where
  tracks : Tracks R frontiers db₀ l (viewOf R frontiers l) db
  stands : Stands R db₀ (l.flatMap Chunk.observations) db
  runs : ∀ id, (∀ c ∈ l, c.record.batchId ≠ id) → db.batchRuns.get? id = db₀.batchRuns.get? id
  reads : ∀ c ∈ l, ∃ b, db₀.batchRuns.get? c.record.batchId = some b ∧ Projection.ChunkReads c.record b
  known : Extends db₀ db
  accepted : ∀ c ∈ l, ∀ o ∈ c.observations, Accepted R frontiers db o

/-- Chunks of different batches. -/
def ApartBatches (L : List Chunk) : Prop := L.Pairwise fun a b => a.record.batchId ≠ b.record.batchId

/-- One chunk more. -/
theorem Delivered.snoc (hd : Delivered R context.frontiers db₀ l db) (hu : Trackable R db₀ (l ++ [c]))
    (hc : Chunk.Known db₀ c) (hbatch : ∀ x ∈ l, x.record.batchId ≠ c.record.batchId)
    (h : Projection.projectRecord R context db c.record = .ok db') :
    Delivered R context.frontiers db₀ (l ++ [c]) db' := by
  have hcl : c ∈ l ++ [c] := by simp
  have hadmits := hd.tracks.admits hu
  have hknown := hd.tracks.known hc
  obtain ⟨b, hb, -⟩ := hknown.items
  obtain ⟨hreads, d, hrun, he⟩ := (Projection.projectRecord_chunk hknown (hu.positive c hcl) hadmits hb).mp h
  have hs : Stands R db₀ (l.flatMap Chunk.observations) (db.withRecord c.record hadmits) :=
    ⟨hd.stands.keyed, hd.stands.seating, hd.stands.roomy, hd.stands.operations⟩
  obtain ⟨hstands, happlied⟩ := (hd.tracks.withRecord hadmits).appliedAll hu hs hcl (fun _ hi => hi)
    hknown.content hrun
  have hlast : Extends d db' := by
    rw [he]
    exact extends_of_same rfl rfl rfl rfl rfl
  have hrecord : Extends db (db.withRecord c.record hadmits) := extends_of_same rfl rfl rfl rfl rfl
  have hextended : Extends db db' := hrecord.trans (happlied.known.trans hlast)
  refine ⟨hd.tracks.snoc hu hc h, ?_, ?_, ?_, hd.known.trans hextended, ?_⟩
  · rw [List.flatMap_append, List.flatMap_singleton, he]
    exact ⟨hstands.keyed, hstands.seating, hstands.roomy, hstands.operations⟩
  · intro id hid
    have hne : c.record.batchId ≠ id := hid c hcl
    have hsame : db'.batchRuns.get? id = d.batchRuns.get? id := by
      rw [he, Projection.chunkDone, Table.get?_modify]
      cases hget : d.batchRuns.get? id with
      | none => rfl
      | some x =>
        have hx : x.batchId = id := Table.key_of_get? hget
        have hother : ¬ x.batchId = c.record.batchId := fun e => hne (e.symm.trans hx)
        simp [hother]
    rw [hsame, happlied.runs]
    exact hd.runs id fun x hx => hid x (List.mem_append_left _ hx)
  · intro x hx
    rcases List.mem_append.mp hx with hx | hx
    · exact hd.reads x hx
    · obtain rfl := List.mem_singleton.mp hx
      exact ⟨b, (hd.runs _ hbatch).symm.trans hb, hreads⟩
  · intro x hx o ho
    rcases List.mem_append.mp hx with hx | hx
    · exact (hd.accepted x hx o ho).mono hextended
    · obtain rfl := List.mem_singleton.mp hx
      exact (happlied.accepted o ho).mono hlast

theorem delivered_of_run (hu : Trackable R db₀ l) (hl : ∀ c ∈ l, Chunk.Known db₀ c) (hbatches : ApartBatches l)
    (hk : Projection.Keyed R db₀) (h : Projection.deliver R context db₀ l = .ok db) :
    Delivered R context.frontiers db₀ l db := by
  induction l using List.reverseRecOn generalizing db with
  | nil =>
    cases h
    refine ⟨tracks_nil, stands_nil hk, fun _ _ => rfl, by simp, Extends.refl db₀, by simp⟩
  | append_singleton l c ih =>
    obtain ⟨d, hd, h⟩ := Projection.deliver_snoc.mp h
    obtain ⟨hl', -, hlast⟩ := List.pairwise_append.mp hbatches
    have hdelivered := ih (hu.of_sublist (List.sublist_append_left _ _))
      (fun x hx => hl x (List.mem_append_left _ hx)) hl' hd
    exact hdelivered.snoc hu (hl c (by simp)) (fun x hx => hlast x hx c (by simp)) h

/-! ### Another order -/

/-- What a chunk needs besides room for its Copies: its items were accepted once, and its
causal base is known. -/
structure Ready (R : ProjectionRuntime) (frontiers : FrontierMap) (P : StoredPath → Prop) (F : Projection)
    (c : Chunk) : Prop where
  content : ∀ item ∈ c.items, optionalString item "kind" = some "content_observed"
  accepted : ∀ o ∈ c.observations, Accepted R frontiers F o
  frontier : (frontiers.get? c.record.causalFrontierHash).isSome = true
  apart : ∀ p q, P p → P q → Projection.pathKey R p = Projection.pathKey R q → p = q
  paths : ∀ o ∈ c.observations, ∀ copy path, pathValue R o.item "copy_path" = .ok (copy, path) → P path

section

variable {P : StoredPath → Prop} {count k : Nat} {items : List Json}

/-- One item, where the state has room for its Copy and has not seen its operation. -/
theorem Tracks.item_ready {entry : Json × Nat} (hu : Trackable R db₀ done)
    (ht : Tracks R context.frontiers db₀ done V e) (hc : c ∈ done) (hr : Ready R context.frontiers P F c)
    (hseq : ∀ c ∈ done, c.record.originSeq ≤ i64Max) (he : Extends e F) (hk : Projection.Keyed R e)
    (hseats : ∀ id place active, e.seating id = some (place, active) → P place.2)
    (hi : entry.1 ∈ c.items) (hcount : count + entry.2 ≤ i64Max)
    (hroom : Roomy e.seating (placements R [⟨c.record, entry.1⟩]))
    (hkeys : ∀ key, optionalString entry.1 "operation_key" = some key → key ∉ e.operationKeys) :
    ∃ e', Projection.observeItem R context c.record count e entry = .ok e' ∧ Extends e' F := by
  have ho : (⟨c.record, entry.1⟩ : Observation) ∈ c.observations := Chunk.mem_observations.mpr ⟨rfl, hi⟩
  have hkind := hr.content _ hi
  have hoffers : Offers R context.frontiers P e ⟨c.record, entry.1⟩ := by
    refine ⟨?_, fun id file => ht.old hu hc ho, ?_, hk, ⟨hr.apart, hseats⟩, hr.paths _ ho, ?_⟩
    · rw [ht.record_mem hc]
      rfl
    · exact fun k objectId e' hpath hsame => ht.judges hu hc ho hr.frontier hseq hpath objectId hsame
    · intro at_ hat
      rw [placements_singleton hat] at hroom
      exact hroom.1
  obtain ⟨d, hd⟩ := projectContentObserved_ready hkind (hr.accepted _ ho) he hoffers
  obtain ⟨name, size, row, hwritten⟩ := written_observed hd
  have hold : ∀ old, e.fileObjects.get? row.canonicalId = some old → old.at = row.at := fun old hget =>
    Option.some.inj ((ht.old hu hc ho hwritten.fileRef hget).symm.trans hwritten.path)
  have hkeys' : ∀ key, optionalString entry.1 "operation_key" = some key → key ∉ d.operationKeys := by
    have hsame : d.operationKeys = e.operationKeys := by
      rw [Projection.operationKeys, hwritten.outcomes]
      rfl
    rw [hsame]
    exact hkeys
  obtain ⟨e', he'⟩ : ∃ e', d.projectOperationOutcome entry.1 c.record (count + entry.2) = .ok e' :=
    Projection.operationOutcome_ready hcount hkeys'
  have hindex : checkedAdd count entry.2 = some (count + entry.2) :=
    if_pos (hcount.trans (by decide))
  refine ⟨e', bind_eq_ok.mpr ⟨_, okOr_eq_ok.mpr hindex, bind_eq_ok.mpr ⟨d, hd, he'⟩⟩, ?_⟩
  have hframe := Projection.projectOperationOutcome_frame he'
  have hback : Extends e' d := by
    rw [hframe]
    exact extends_of_same rfl rfl rfl rfl rfl
  exact hback.trans (hwritten.extends_of_accepted hold he (hr.accepted _ ho))

theorem Tracks.items_ready (hu : Trackable R db₀ done) (ht : Tracks R context.frontiers db₀ done V e)
    (hc : c ∈ done) (hr : Ready R context.frontiers P F c) (hseq : ∀ c ∈ done, c.record.originSeq ≤ i64Max)
    (he : Extends e F) (hk : Projection.Keyed R e)
    (hseats : ∀ id place active, e.seating id = some (place, active) → P place.2)
    (hi : ∀ item ∈ items, item ∈ c.items) (hcount : count + k + items.length ≤ i64Max)
    (hroom : Roomy e.seating (placements R (items.map fun item => ⟨c.record, item⟩)))
    (hkeys : (e.operationKeys ++ (items.map fun item => (⟨c.record, item⟩ : Observation)).filterMap
      operationKey).Nodup) :
    ∃ e', commitAll (Projection.observeItem R context c.record count) e (items.zipIdx k) = .ok e' ∧
      Extends e' F := by
  induction items generalizing V e k with
  | nil => exact ⟨e, rfl, he⟩
  | cons item items ih =>
    have hitem := hi item List.mem_cons_self
    have ho : (⟨c.record, item⟩ : Observation) ∈ c.observations := Chunk.mem_observations.mpr ⟨rfl, hitem⟩
    have hsplit : (item :: items).map (fun item => (⟨c.record, item⟩ : Observation))
        = [⟨c.record, item⟩] ++ items.map fun item => ⟨c.record, item⟩ := rfl
    rw [hsplit, placements_append, roomy_append] at hroom
    rw [hsplit, List.filterMap_append, ← List.append_assoc] at hkeys
    rw [List.length_cons] at hcount
    have hfresh : ∀ key, optionalString item "operation_key" = some key → key ∉ e.operationKeys := by
      intro key hkey hmem
      have hdisjoint := (List.nodup_append.mp (List.nodup_append.mp hkeys).1).2.2
      exact hdisjoint key hmem key (List.mem_filterMap.mpr ⟨_, List.mem_singleton_self _, hkey⟩) rfl
    obtain ⟨d, hd, hdF⟩ : ∃ d, Projection.observeItem R context c.record count e (item, k) = .ok d ∧
        Extends d F := ht.item_ready hu hc hr hseq he hk hseats hitem (by omega) hroom.1 hfresh
    -- the state after the item, seen from the one before
    have hs : Stands R e [⟨c.record, item⟩] d := (stands_nil hk).observeItem (hr.content item hitem) hd
    have hseats' : ∀ id place active, d.seating id = some (place, active) → P place.2 := by
      refine hs.seats hseats fun o ho' => ?_
      obtain rfl := List.mem_singleton.mp ho'
      exact ⟨hr.content item hitem, hr.paths _ ho⟩
    rw [← hs.seating] at hroom
    rw [← hs.operations] at hkeys
    have hcount' : count + (k + 1) + items.length ≤ i64Max := by omega
    obtain ⟨e', hrest, he'⟩ := ih (ht.observeItem hu hc hitem hd) hdF hs.keyed hseats'
      (fun item hitem => hi item (List.mem_cons_of_mem _ hitem)) hcount' hroom.2 hkeys
    refine ⟨e', ?_, he'⟩
    rw [List.zipIdx_cons]
    exact (commitAll_cons _).mpr ⟨d, hd, hrest⟩

end

theorem placements_flatMap (l m : List Chunk) :
    placements R ((l ++ m).flatMap Chunk.observations)
      = placements R (l.flatMap Chunk.observations) ++ placements R (m.flatMap Chunk.observations) := by
  rw [List.flatMap_append, placements_append]

/-- Chunks that one order has applied are applied in any other one that has room for their
Copies. -/
theorem deliver_ready (hu : Trackable R db₀ L) (hl : ∀ c ∈ L, Chunk.Known db₀ c) (hbatches : ApartBatches L)
    (hk : Projection.Keyed R db₀)
    (hapart : ∀ p q, CopyPaths R db₀ L p → CopyPaths R db₀ L q →
      Projection.pathKey R p = Projection.pathKey R q → p = q)
    (hfrontiers : ∀ c ∈ L, (context.frontiers.get? c.record.causalFrontierHash).isSome = true)
    (hrun : Projection.deliver R context db₀ L = .ok F) (hp : M.Perm L)
    (hroom : Roomy db₀.seating (placements R (M.flatMap Chunk.observations))) :
    ∃ db, Projection.deliver R context db₀ M = .ok db := by
  have hL := delivered_of_run hu hl hbatches hk hrun
  have hready : ∀ c ∈ L, Ready R context.frontiers (CopyPaths R db₀ L) F c := fun c hc =>
    ⟨(hl c hc).content, hL.accepted c hc, hfrontiers c hc, hapart,
      fun o ho copy path h => Or.inr ⟨c, hc, o, ho, copy, h⟩⟩
  have hseq : ∀ c ∈ L, c.record.originSeq ≤ i64Max := by
    intro c hc
    obtain ⟨b, -, hreads⟩ := hL.reads c hc
    exact hreads.seq
  have hoperations : (db₀.operationKeys ++ (L.flatMap Chunk.observations).filterMap operationKey).Nodup := by
    rw [← hL.stands.operations]
    exact F.operationOutcomes.keys_nodup
  have hstep : ∀ m rest, M = m ++ rest → ∃ e, Projection.deliver R context db₀ m = .ok e ∧ Extends e F := by
    intro m
    induction m using List.reverseRecOn with
    | nil => exact fun rest _ => ⟨db₀, rfl, hL.known⟩
    | append_singleton m c ih =>
      intro rest hM
      obtain ⟨e, he, heF⟩ := ih (c :: rest) (by rw [hM, List.append_assoc]; rfl)
      have hsub : (m ++ [c]).Sublist M := hM ▸ List.sublist_append_left _ _
      have hmem : ∀ x ∈ m ++ [c], x ∈ L := fun x hx => hp.subset (hsub.subset hx)
      have hcL : c ∈ L := hmem c (by simp)
      have hum : Trackable R db₀ (m ++ [c]) := (hu.perm hp).of_sublist hsub
      have hbatchesM : ApartBatches (m ++ [c]) :=
        ((hp.pairwise_iff fun h => h.symm).mpr hbatches).sublist hsub
      obtain ⟨hbatchesm, -, hlast⟩ := List.pairwise_append.mp hbatchesM
      have hm := delivered_of_run (hum.of_sublist (List.sublist_append_left _ _))
        (fun x hx => hl x (hmem x (List.mem_append_left _ hx))) hbatchesm hk he
      obtain ⟨b, hb, hreads⟩ := hL.reads c hcL
      have hb : e.batchRuns.get? c.record.batchId = some b :=
        (hm.runs _ fun x hx => hlast x hx c (by simp)).trans hb
      have hadmits := hm.tracks.admits hum
      have hknown := hm.tracks.known (hl c hcL)
      have hrecord : Extends (e.withRecord c.record hadmits) e := extends_of_same rfl rfl rfl rfl rfl
      have hseats : ∀ id place active, e.seating id = some (place, active) → CopyPaths R db₀ L place.2 := by
        refine hm.stands.seats (fun id place active h => Or.inl ⟨id, place.1, active, h⟩) fun o ho => ?_
        obtain ⟨x, hx, hox⟩ := List.mem_flatMap.mp ho
        have hxL : x ∈ L := hmem x (List.mem_append_left _ hx)
        exact ⟨(hl x hxL).content _ (Chunk.mem_observations.mp hox).2, (hready x hxL).paths o hox⟩
      have hcount : b.itemCount + 0 + c.items.length ≤ i64Max := by
        obtain ⟨b', -, hitems⟩ := hknown.items
        have hlength := hitems.length_eq
        have := hreads.count
        omega
      have hfree : Roomy e.seating (placements R c.observations) := by
        rw [hM, List.append_assoc, placements_flatMap, placements_flatMap, roomy_append, roomy_append,
          ← hm.stands.seating] at hroom
        simpa using hroom.2.1
      have hkeys : (e.operationKeys ++ c.observations.filterMap operationKey).Nodup := by
        have hall := (((hp.flatMap_right Chunk.observations).filterMap operationKey).append_left
          db₀.operationKeys).nodup_iff.mpr hoperations
        have hsome := ((hsub.flatMap Chunk.observations).filterMap operationKey).append_left
          db₀.operationKeys
        rw [List.flatMap_append, List.flatMap_singleton, List.filterMap_append, ← List.append_assoc,
          ← hm.stands.operations] at hsome
        exact hsome.nodup hall
      obtain ⟨d, hd, hdF⟩ := (hm.tracks.withRecord hadmits).items_ready hum (by simp) (hready c hcL)
        (fun x hx => hseq x (hmem x hx)) (hrecord.trans heF) hm.stands.keyed hseats (fun _ hi => hi)
        hcount hfree hkeys
      refine ⟨d.chunkDone c.record (b.itemCount + c.record.items.length), ?_, ?_⟩
      · refine Projection.deliver_snoc.mpr ⟨e, he, ?_⟩
        exact (Projection.projectRecord_chunk hknown (hum.positive c (by simp)) hadmits hb).mpr
          ⟨hreads, d, hd, rfl⟩
      · have hdone : Extends (d.chunkDone c.record (b.itemCount + c.record.items.length)) d :=
          extends_of_same rfl rfl rfl rfl rfl
        exact hdone.trans hdF
  obtain ⟨e, he, -⟩ := hstep M [] (List.append_nil M).symm
  exact ⟨e, he⟩

end ArchiveLedger
