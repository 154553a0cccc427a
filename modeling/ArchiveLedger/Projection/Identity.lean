import ArchiveLedger.Foundation.Tracker
import ArchiveLedger.Journal.Union
import ArchiveLedger.Projection.Frames

/-!
# The identity of a File under content observations

A run of the projector over `content_observed` records keeps, for each logical path,
what a tracker keeps that remembers the last observation only (`Tracks`).  An
observation's value is the object it names; it follows the records that its causal
base includes.
-/

namespace ArchiveLedger

open Relational Outcome Transition Tracker LinearExtension

/-- A record of the kind `batch_chunk` with one item, as its batch means it. -/
structure Observation where
  record : VerifiedV2Record
  item : Json

namespace Observation

def logicalPath (R : ProjectionRuntime) (o : Observation) : Option (String × StoredPath) :=
  match optionalString o.item "collection_id", pathValue R o.item "logical_path" with
  | some collectionId, .ok (_, path) => some (collectionId, path)
  | _, _ => none

abbrev fileRef (o : Observation) : Option String := optionalString o.item "file_ref_id"

/-- The object an observation names, and what its causal base includes. -/
def facts (frontiers : FrontierMap) : Facts Observation (Option String) where
  value o := optionalString o.item "object_id"
  covers x y := (frontiers.get? x.record.causalFrontierHash).any fun base =>
    base.includesDot y.record.originId y.record.originSeq

end Observation

/-- The batch of an observation runs, and its chunk holds the item of the observation. -/
structure Observes (db : Projection) (o : Observation) : Prop where
  kind : o.record.kind = .batchChunk
  item : ∃ raw b, o.record.items = [raw] ∧ db.batchRuns.get? o.record.batchId = some b ∧
    Projection.batchItem b raw = .ok o.item
  content : optionalString o.item "kind" = some "content_observed"

/-- A record of the kind `batch_chunk`, and its items as their batch means them. -/
structure Chunk where
  record : VerifiedV2Record
  items : List Json

/-- The batch of a chunk is known, and the chunk holds observations. -/
structure Chunk.Known (db : Projection) (c : Chunk) : Prop where
  kind : c.record.kind = .batchChunk
  items : ∃ b, db.batchRuns.get? c.record.batchId = some b ∧
    List.Forall₂ (fun raw item => Projection.batchItem b raw = .ok item) c.record.items c.items
  content : ∀ item ∈ c.items, optionalString item "kind" = some "content_observed"

namespace Chunk

def observations (c : Chunk) : List Observation := c.items.map fun item => ⟨c.record, item⟩

theorem mem_observations {c : Chunk} {o : Observation} :
    o ∈ c.observations ↔ o.record = c.record ∧ o.item ∈ c.items := by
  cases o
  simp only [observations, List.mem_map, Observation.mk.injEq]
  constructor
  · rintro ⟨item, hi, rfl, rfl⟩
    exact ⟨rfl, hi⟩
  · rintro ⟨rfl, hi⟩
    exact ⟨_, hi, rfl, rfl⟩

end Chunk

/-- A chunk of one item. -/
def Observation.chunk (o : Observation) : Chunk := ⟨o.record, [o.item]⟩

@[simp] theorem Observation.observations_chunk (o : Observation) : o.chunk.observations = [o] := rfl

theorem Observes.known {db : Projection} {o : Observation} (h : Observes db o) : Chunk.Known db o.chunk where
  kind := h.kind
  items := by
    obtain ⟨raw, b, hraw, hb, hitem⟩ := h.item
    refine ⟨b, hb, ?_⟩
    show List.Forall₂ _ o.record.items [o.item]
    rw [hraw]
    exact .cons hitem .nil
  content item hitem := List.mem_singleton.mp hitem ▸ h.content

namespace Projection

/-! ### One record -/

/-- How the items of a batch are read. -/
def batchReading (db : Projection) (batchId : String) : Option (Nat × Json) :=
  (db.batchRuns.get? batchId).map fun b => (b.itemSchemaVersion, b.defaults)

theorem batchItem_of_reading {b c : BatchRunRow} (h : (b.itemSchemaVersion, b.defaults)
    = (c.itemSchemaVersion, c.defaults)) (raw : Json) : batchItem b raw = batchItem c raw := by
  obtain ⟨h₁, h₂⟩ := Prod.ext_iff.mp h
  simp only at h₁ h₂
  rw [batchItem, batchItem, h₁, h₂]

/-- The tables that decide the identity of a File. -/
structure SameIdentities (db db' : Projection) : Prop where
  records : db'.records = db.records
  files : db'.fileObjects = db.fileObjects
  conflicts : db'.factConflicts = db.factConflicts

/-- Everything else an observation writes leaves the identity to `observeFile`. -/
theorem projectContentObserved_eq_ok {R : ProjectionRuntime} {db db' : Projection} {item : Json}
    {record : VerifiedV2Record} {frontiers : FrontierMap}
    (h : db.projectContentObserved R item record frontiers = .ok db') :
    ∃ db₁ db₂ objectId external fileId, optionalString item "object_id" = some objectId ∧
      SameIdentities db db₁ ∧ db₁.batchRuns = db.batchRuns ∧
      db₁.observeFile R item record frontiers objectId external = .ok (db₂, fileId) ∧
      SameIdentities db₂ db' ∧ db'.batchRuns = db.batchRuns := by
  obtain ⟨rid, _, h⟩ := bind_eq_ok.mp h
  obtain ⟨_, _, h⟩ := bind_eq_ok.mp h
  obtain ⟨time, _, h⟩ := bind_eq_ok.mp h
  obtain ⟨_, _, h⟩ := bind_eq_ok.mp h
  obtain ⟨size, _, h⟩ := bind_eq_ok.mp h
  obtain ⟨_, _, h⟩ := bind_eq_ok.mp h
  obtain ⟨⟨da, objectId⟩, ha, h⟩ := bind_eq_ok.mp h
  obtain ⟨⟨db₁, external⟩, hb, h⟩ := bind_eq_ok.mp h
  obtain ⟨⟨db₂, fileId⟩, hobserve, h⟩ := bind_eq_ok.mp h
  obtain ⟨location, _, h⟩ := bind_eq_ok.mp h
  obtain ⟨⟨dc, bound⟩, hc, h⟩ := bind_eq_ok.mp h
  obtain ⟨copyId, _, h⟩ := bind_eq_ok.mp h
  obtain ⟨⟨dd, copyName⟩, hd, h⟩ := bind_eq_ok.mp h
  cases h
  obtain ⟨hobject, ha⟩ := content_eq_ok ha
  have hb := observeExternal_eq_ok hb
  obtain ⟨_, row, _, _, hc⟩ := binding_eq_ok hc
  have hd := copy_frame hd
  have hab : SameIdentities db db₁ := by
    rw [hb, ha]
    exact ⟨rfl, rfl, rfl⟩
  have hcd : SameIdentities db₂ db' := by
    rw [hd, hc]
    exact ⟨rfl, rfl, rfl⟩
  have hruns : db₁.batchRuns = db.batchRuns := by rw [hb, ha]
  refine ⟨db₁, db₂, objectId, external, fileId, hobject, hab, hruns, hobserve, hcd, ?_⟩
  obtain ⟨_, files, db₃, _, _, _, _, hjudged, _, he⟩ := observeFile_eq_ok hobserve
  have hj := hjudged.frame
  rw [hd, hc, he, hj]
  exact hruns

/-- One item of a chunk of observations, and its place in the chunk. -/
def observeItem (R : ProjectionRuntime) (context : V2VerificationContext) (record : VerifiedV2Record)
    (count : Nat) (db : Projection) (entry : Json × Nat) : ProjectionResult Projection := do
  let index ← okOr (checkedAdd count entry.2) (.invalid "batch item index overflow")
  let db ← db.projectContentObserved R entry.1 record context.frontiers
  db.projectOperationOutcome entry.1 record index

/-- Observations need no lease. -/
theorem checkCoordination_content {db : Projection} {item : Json} {batchId : String} :
    db.checkCoordination item "content_observed" batchId = .ok () := by
  have hneeded : db.itemRequiresCoordination item "content_observed" = .ok false := by
    simp [itemRequiresCoordination, completesScan, isRegistryItem, bind, Except.bind]
  rw [checkCoordination, hneeded]
  rfl

theorem projectIndexed_content {R : ProjectionRuntime} {db db' : Projection} {b : BatchRunRow}
    {record : VerifiedV2Record} {context : V2VerificationContext} {raw item : Json} {index : Nat}
    (hitem : batchItem b raw = .ok item) (hkind : optionalString item "kind" = some "content_observed") :
    projectIndexed R b record context db (raw, index) = .ok db' ↔
      observeItem R context record b.itemCount db (item, index) = .ok db' := by
  have hstring : string item "kind" = .ok "content_observed" := string_eq_ok.mpr hkind
  have hproject : ∀ n, db.projectItem R item "content_observed" record context n =
      (db.projectContentObserved R item record context.frontiers >>= fun d =>
        d.projectOperationOutcome item record n) := by
    intro n
    rw [projectItem, checkCoordination_content]
    rfl
  rw [projectIndexed, observeItem, hitem]
  show (okOr (checkedAdd b.itemCount index) _ >>= _) = _ ↔ _
  rw [bind_eq_ok, bind_eq_ok]
  refine exists_congr fun n => and_congr_right fun _ => ?_
  rw [hstring]
  show mapError _ (db.projectItem R item "content_observed" record context n) = _ ↔ _
  rw [mapError_eq_ok, hproject]

/-- The items of a chunk of observations. -/
theorem commitAll_projectIndexed {R : ProjectionRuntime} {db db' : Projection} {b : BatchRunRow}
    {record : VerifiedV2Record} {context : V2VerificationContext} {raws items : List Json}
    (hitems : List.Forall₂ (fun raw item => batchItem b raw = .ok item) raws items)
    (hkind : ∀ item ∈ items, optionalString item "kind" = some "content_observed") (k : Nat) :
    commitAll (projectIndexed R b record context) db (raws.zipIdx k) = .ok db' ↔
      commitAll (observeItem R context record b.itemCount) db (items.zipIdx k) = .ok db' := by
  induction hitems generalizing db k with
  | nil => rfl
  | cons hitem _ ih =>
    rw [List.zipIdx_cons, List.zipIdx_cons, commitAll_cons, commitAll_cons]
    refine exists_congr fun d => ?_
    rw [projectIndexed_content hitem (hkind _ List.mem_cons_self),
      ih (fun item hi => hkind item (List.mem_cons_of_mem _ hi))]

theorem insertRecord_new {db db' : Projection} {r : VerifiedV2Record} {inserted : Bool}
    (hpos : 0 < r.originSeq) (hnew : db.records.Admits (recordRow r)) :
    db.insertRecord r = .ok (db', inserted) ↔
      (r.originSeq ≤ i64Max ∧ r.record.envelope.timeUtcMs ≤ i64Max) ∧
        db' = { db with records := db.records.add (recordRow r) hnew } ∧ inserted = true := by
  have hins : db.records.insert? (recordRow r) = some (db.records.add (recordRow r) hnew) := by
    rw [Table.insert?, dif_pos hnew]
  rw [insertRecord, hins]
  simp only [hpos, if_true, bind_eq_ok, sqlI64_eq_ok, Except.ok.injEq, Prod.mk.injEq]
  constructor
  · rintro ⟨_, ⟨hseq, -⟩, _, ⟨htime, -⟩, rfl, rfl⟩
    exact ⟨⟨hseq, htime⟩, rfl, rfl⟩
  · rintro ⟨⟨hseq, htime⟩, rfl, rfl⟩
    exact ⟨_, ⟨hseq, rfl⟩, _, ⟨htime, rfl⟩, rfl, rfl⟩

/-- What is checked of a chunk and its batch besides the items. -/
structure ChunkReads (r : VerifiedV2Record) (b : BatchRunRow) : Prop where
  seq : r.originSeq ≤ i64Max
  time : r.record.envelope.timeUtcMs ≤ i64Max
  payload : r.record.envelope.payload.isObject = true
  first : number r.record.envelope.payload "first_item_index" = .ok b.itemCount
  items : (r.record.envelope.payload.get "items").bind Json.asArray = some r.items
  running : b.running = true
  defaults : validateProjectedItemDefaults b.itemSchemaVersion b.defaults = .ok ()
  count : b.itemCount + r.items.length ≤ i64Max

/-- The database with the record of a chunk. -/
def withRecord (db : Projection) (r : VerifiedV2Record) (h : db.records.Admits (recordRow r)) : Projection :=
  { db with records := db.records.add (recordRow r) h }

/-- The batch of a chunk afterwards. -/
def chunkDone (db : Projection) (r : VerifiedV2Record) (count : Nat) : Projection :=
  let runs := db.batchRuns.modify (fun b => b.batchId = r.batchId)
    fun b => { b with lastChunkSeq := some r.originSeq, itemCount := count }
  { db with batchRuns := runs }

theorem payloadOf_eq_ok {r : VerifiedV2Record} {description : String} {payload : Json} :
    payloadOf r description = .ok payload ↔
      r.record.envelope.payload.isObject = true ∧ payload = r.record.envelope.payload := by
  rw [payloadOf, object, bind_eq_ok]
  constructor
  · rintro ⟨_, h, he⟩
    exact ⟨require_eq_ok.mp h, (Except.ok.inj he).symm⟩
  · rintro ⟨h, rfl⟩
    exact ⟨(), require_eq_ok.mpr h, rfl⟩

/-- A chunk succeeds exactly when its own checks and its items do. -/
theorem projectBatchChunk_eq_ok {R : ProjectionRuntime} {db db' : Projection} {r : VerifiedV2Record}
    {context : V2VerificationContext} {b : BatchRunRow} (hkind : r.kind = .batchChunk)
    (hb : db.batchRuns.get? r.batchId = some b) (hseq : r.originSeq ≤ i64Max)
    (htime : r.record.envelope.timeUtcMs ≤ i64Max) :
    db.projectBatchChunk R r context = .ok db' ↔ ChunkReads r b ∧
      ∃ d, commitAll (projectIndexed R b r context) db r.items.zipIdx = .ok d ∧
        db' = d.chunkDone r (b.itemCount + r.items.length) := by
  have hitems : ∀ {items : List Json}, (r.record.envelope.payload.get "items").bind Json.asArray = some items →
      items = r.items := by
    intro items h
    rw [VerifiedV2Record.items, if_pos hkind, h, Option.getD_some]
  have hle : i64Max ≤ u64Max := by decide
  constructor
  · intro h
    obtain ⟨payload, hpayload, h⟩ := bind_eq_ok.mp h
    obtain ⟨first, hfirst, h⟩ := bind_eq_ok.mp h
    obtain ⟨value, hvalue, h⟩ := bind_eq_ok.mp h
    obtain ⟨items, hlist, h⟩ := bind_eq_ok.mp h
    obtain ⟨b', hb', h⟩ := bind_eq_ok.mp h
    obtain ⟨_, hdefaults, h⟩ := bind_eq_ok.mp h
    obtain ⟨_, hcount, h⟩ := bind_eq_ok.mp h
    obtain ⟨d, hrun, h⟩ := bind_eq_ok.mp h
    obtain ⟨next, hnext, h⟩ := bind_eq_ok.mp h
    obtain ⟨chunkSeq, hchunkSeq, h⟩ := bind_eq_ok.mp h
    obtain ⟨itemCount, hitemCount, h⟩ := bind_eq_ok.mp h
    cases h
    obtain ⟨hobject, rfl⟩ := payloadOf_eq_ok.mp hpayload
    obtain ⟨hfound, hrunning⟩ := Option.filter_eq_some_iff.mp (statement_eq_ok.mp hb')
    obtain rfl : b = b' := Option.some.inj (hb.symm.trans hfound)
    have hread : (r.record.envelope.payload.get "items").bind Json.asArray = some items := by
      rw [okOr_eq_ok.mp hvalue, Option.bind_some, okOr_eq_ok.mp hlist]
    obtain rfl := hitems hread
    have hnext : b.itemCount + r.items.length = next := by
      have hnext := okOr_eq_ok.mp hnext
      unfold checkedAdd at hnext
      split at hnext
      · exact Option.some.inj hnext
      · cases hnext
    obtain ⟨-, rfl⟩ := sqlI64_eq_ok.mp hchunkSeq
    obtain ⟨hmax, rfl⟩ := sqlI64_eq_ok.mp hitemCount
    subst hnext
    exact ⟨⟨hseq, htime, hobject, (require_eq_ok.mp hcount) ▸ hfirst, hread, hrunning, hdefaults, hmax⟩,
      d, hrun, rfl⟩
  · rintro ⟨hr, d, hrun, rfl⟩
    obtain ⟨value, hvalue, hlist⟩ := Option.bind_eq_some_iff.mp hr.items
    have hrunning : db.runningBatch r.batchId = some b := by
      rw [runningBatch, hb, Option.filter_some, if_pos hr.running]
    have hnext : checkedAdd b.itemCount r.items.length = some (b.itemCount + r.items.length) :=
      if_pos (hr.count.trans hle)
    refine bind_eq_ok.mpr ⟨_, payloadOf_eq_ok.mpr ⟨hr.payload, rfl⟩, ?_⟩
    refine bind_eq_ok.mpr ⟨_, hr.first, ?_⟩
    refine bind_eq_ok.mpr ⟨value, okOr_eq_ok.mpr hvalue, ?_⟩
    refine bind_eq_ok.mpr ⟨_, okOr_eq_ok.mpr hlist, ?_⟩
    refine bind_eq_ok.mpr ⟨b, statement_eq_ok.mpr hrunning, ?_⟩
    refine bind_eq_ok.mpr ⟨(), hr.defaults, ?_⟩
    refine bind_eq_ok.mpr ⟨(), require_eq_ok.mpr rfl, ?_⟩
    refine bind_eq_ok.mpr ⟨d, hrun, ?_⟩
    refine bind_eq_ok.mpr ⟨_, okOr_eq_ok.mpr hnext, ?_⟩
    refine bind_eq_ok.mpr ⟨_, sqlI64_eq_ok.mpr ⟨hr.seq, rfl⟩, ?_⟩
    exact bind_eq_ok.mpr ⟨_, sqlI64_eq_ok.mpr ⟨hr.count, rfl⟩, rfl⟩

/-- The record of a chunk of observations is its row, its items and its batch. -/
theorem projectRecord_chunk {R : ProjectionRuntime} {db db' : Projection} {c : Chunk}
    {context : V2VerificationContext} {b : BatchRunRow} (hc : Chunk.Known db c) (hpos : 0 < c.record.originSeq)
    (hnew : db.records.Admits (recordRow c.record)) (hb : db.batchRuns.get? c.record.batchId = some b) :
    projectRecord R context db c.record = .ok db' ↔ ChunkReads c.record b ∧
      ∃ d, commitAll (observeItem R context c.record b.itemCount) (db.withRecord c.record hnew)
          c.items.zipIdx = .ok d ∧ db' = d.chunkDone c.record (b.itemCount + c.record.items.length) := by
  obtain ⟨b', hb', hitems⟩ := hc.items
  obtain rfl : b = b' := Option.some.inj (hb.symm.trans hb')
  have hadvance : ∀ d : Projection, d.advanceOrigin c.record = d := by
    intro d
    rw [advanceOrigin, hc.kind]
  have hchunk := @projectBatchChunk_eq_ok R (db.withRecord c.record hnew) db' c.record context b hc.kind hb
  constructor
  · intro h
    obtain ⟨⟨d, inserted⟩, hins, h⟩ := bind_eq_ok.mp h
    obtain ⟨⟨hseq, htime⟩, rfl, rfl⟩ := (insertRecord_new hpos hnew).mp hins
    obtain ⟨d', hproject, h⟩ := bind_eq_ok.mp h
    rw [if_pos rfl, projectInserted, hc.kind] at hproject
    rw [hadvance] at h
    cases h
    obtain ⟨hreads, d, hrun, he⟩ := (hchunk hseq htime).mp hproject
    exact ⟨hreads, d, (commitAll_projectIndexed hitems hc.content 0).mp hrun, he⟩
  · rintro ⟨hreads, d, hrun, he⟩
    have hrun := (commitAll_projectIndexed hitems hc.content 0).mpr hrun
    have hproject := (hchunk hreads.seq hreads.time).mpr ⟨hreads, d, hrun, he⟩
    refine bind_eq_ok.mpr ⟨_, (insertRecord_new hpos hnew).mpr ⟨⟨hreads.seq, hreads.time⟩, rfl, rfl⟩, ?_⟩
    refine bind_eq_ok.mpr ⟨db', ?_, by rw [hadvance]⟩
    rw [if_pos rfl, projectInserted, hc.kind]
    exact hproject

/-- What an observation leaves to the identity of its File. -/
theorem observeItem_eq_ok {R : ProjectionRuntime} {db db' : Projection} {record : VerifiedV2Record}
    {context : V2VerificationContext} {count : Nat} {entry : Json × Nat}
    (h : observeItem R context record count db entry = .ok db') :
    ∃ d index, db.projectContentObserved R entry.1 record context.frontiers = .ok d ∧
      checkedAdd count entry.2 = some index ∧ d.projectOperationOutcome entry.1 record index = .ok db' := by
  obtain ⟨index, hindex, h⟩ := bind_eq_ok.mp h
  obtain ⟨d, hd, h⟩ := bind_eq_ok.mp h
  exact ⟨d, index, hd, okOr_eq_ok.mp hindex, h⟩

/-! ### The active File of a path -/

theorem activeFile_eq_some {db : Projection} {collectionId : String} {path : StoredPath}
    {file : FileObjectRow} : db.activeFile collectionId path = some file ↔
      file ∈ db.fileObjects.rows ∧ file.active = true ∧ file.at = (collectionId, path) := by
  constructor
  · intro h
    have hp := List.find?_some h
    simp only [Bool.and_eq_true, decide_eq_true_eq] at hp
    exact ⟨List.mem_of_find?_eq_some h, hp.1, hp.2⟩
  · rintro ⟨hm, ha, hat⟩
    cases hf : db.activeFile collectionId path with
    | none =>
      have := List.find?_eq_none.mp hf file hm
      simp [ha, hat] at this
    | some g =>
      have hp := List.find?_some hf
      simp only [Bool.and_eq_true, decide_eq_true_eq] at hp
      have hclash : fileObjectSchema.clash g file = true := by
        simp [fileObjectSchema, hp.1, hp.2, ha, hat]
      rw [Table.eq_of_clash (List.mem_of_find?_eq_some hf) hm hclash]

/-- The File of a path after a File was written: of the path written to it is the row
written, of any other the one before. -/
theorem activeFile_written {db db' : Projection} {row : FileObjectRow}
    (h : db.fileObjects.upsert? row (fun old => old.updated row) = some db'.fileObjects)
    (hactive : row.active = true)
    (hold : ∀ old ∈ db.fileObjects.rows, old.canonicalId = row.canonicalId → old.at = row.at) :
    ∃ written, written.canonicalId = row.canonicalId ∧ written.at = row.at ∧
      written.content = row.content ∧ written.identityState = row.identityState ∧
      written.lastRecord = row.lastRecord ∧
      (∀ file ∈ db'.fileObjects.rows, file ∈ db.fileObjects.rows ∨ file = written) ∧
      ∀ collectionId path, db'.activeFile collectionId path
        = if row.at = (collectionId, path) then some written else db.activeFile collectionId path := by
  obtain ⟨written, hw, hid, hat, hact, hfields⟩ : ∃ written,
      written = ((db.fileObjects.get? row.canonicalId).map fun old => old.updated row).getD row ∧
      written.canonicalId = row.canonicalId ∧ written.at = row.at ∧ written.active = true ∧
      written.content = row.content ∧ written.identityState = row.identityState ∧
      written.lastRecord = row.lastRecord := by
    refine ⟨_, rfl, ?_⟩
    cases hg : db.fileObjects.get? row.canonicalId with
    | none => exact ⟨rfl, rfl, hactive, rfl, rfl, rfl⟩
    | some old =>
      obtain ⟨hm, hk⟩ := Table.get?_eq_some.mp hg
      exact ⟨hk, hold old hm hk, rfl, rfl, rfl, rfl⟩
  have hmem : ∀ file, file ∈ db'.fileObjects.rows ↔
      file = written ∨ (file.canonicalId ≠ row.canonicalId ∧ file ∈ db.fileObjects.rows) := by
    intro file
    rw [Table.mem_rows_upsert? h, hw]
    rfl
  refine ⟨written, hid, hat, hfields.1, hfields.2.1, hfields.2.2, ?_, ?_⟩
  · intro file hfile
    exact ((hmem file).mp hfile).symm.imp And.right id
  · intro collectionId path
    split
    · rename_i hpath
      exact activeFile_eq_some.mpr ⟨(hmem _).mpr (Or.inl rfl), hact, hat.trans hpath⟩
    · rename_i hpath
      refine Option.ext fun file => ?_
      rw [activeFile_eq_some, activeFile_eq_some, hmem]
      constructor
      · rintro ⟨rfl | ⟨_, hm⟩, ha, hk⟩
        · exact absurd (hat.symm.trans hk) hpath
        · exact ⟨hm, ha, hk⟩
      · rintro ⟨hm, ha, hk⟩
        refine ⟨Or.inr ⟨?_, hm⟩, ha, hk⟩
        intro he
        exact hpath ((hold file hm he).symm.trans hk)

end Projection

end ArchiveLedger
