import ArchiveLedger.Foundation.Packing
import ArchiveLedger.Journal.Visits
import ArchiveLedger.Projection.Defaults

/-!
# Writing the records of a batch

`append_batch_locked` of `v2_store.rs` from the start of a batch to its completion: the items are
compacted and packed into chunks, and each record is a line of JSON.  The JSON writer is outside the
repository (`RecordWriter`), as are the identifiers of the records.
-/

namespace ArchiveLedger

open Outcome Transition Packing

/-- `serde_json::to_vec`. -/
structure RecordWriter where
  envelope : V2RecordEnvelope → Bytes
  item : Json → Bytes

/-- What an append has settled before it writes. -/
structure BatchAppend where
  originId : String
  /-- The sequence and the hash of the last record of the origin. -/
  tail : Option (Nat × String)
  batchId : String
  recordId : Nat → String
  timeUtcMs : Nat
  operationKind : String
  itemSchemaVersion : Nat
  causalFrontierHash : String
  context : Json
  defaults : Json

/-- How far a batch is written. -/
structure BatchWriting where
  nextSeq : Nat
  previousHash : Option String
  validator : BatchValidator
  itemIndex : Nat
  recordCount : Nat
  segmentBytes : Nat
  records : List V2RecordEnvelope

/-! ### Records -/

def Json.ofNat (n : Nat) : Json := .num n.repr

def startPayload (a : BatchAppend) : Json := .obj [
  ("causal_frontier_hash", .str a.causalFrontierHash),
  ("context", a.context),
  ("defaults", a.defaults),
  ("item_schema_version", .ofNat a.itemSchemaVersion),
  ("operation_kind", .str a.operationKind)]

def chunkPayload (firstItemIndex : Nat) (items : List Json) : Json := .obj [
  ("first_item_index", .ofNat firstItemIndex), ("items", .arr items)]

def completePayload (totalItems : Nat) (orderedItemDigest : String) : Json := .obj [
  ("coverage", .null),
  ("errors", .arr []),
  ("ordered_item_digest", .str orderedItemDigest),
  ("status", .str "complete"),
  ("total_items", .ofNat totalItems)]

def BatchAppend.record (a : BatchAppend) (seq : Nat) (previous : Option String) (kind : V2RecordKind)
    (payload : Json) : V2RecordEnvelope :=
  ⟨v2RecordVersion, a.originId, seq, a.recordId seq, kind, a.timeUtcMs, a.batchId, previous, payload⟩

variable (R : StoreRuntime) (W : RecordWriter) (a : BatchAppend)

def ensureRecordSize (line : Bytes) : StoreResult Unit :=
  require (line.length ≤ defaultMaxV2RecordBytes)
    (.invalid ("record contains " ++ toString line.length ++ " bytes; maximum is " ++
      toString defaultMaxV2RecordBytes))

/-- The bytes of a segment after one more line. -/
def writeStreamedRecord (segmentBytes : Nat) (line : Bytes) : StoreResult Nat := do
  ensureRecordSize line
  okOr (checkedAdd segmentBytes (line.length + 1)) (.invalid "segment byte count overflow")

def sequenceOverflow : V2StoreError := .invalid "origin sequence overflow"

def recordCountOverflow : V2StoreError := .invalid "record count overflow"

def startBatch : StoreResult BatchWriting := do
  let firstSeq ← okOr (checkedAdd ((a.tail.map Prod.fst).getD 0) 1) sequenceOverflow
  let start := a.record firstSeq (a.tail.map Prod.snd) .batchStart (startPayload a)
  let line := W.envelope start
  ensureRecordSize line
  let segmentBytes ← writeStreamedRecord 0 line
  let nextSeq ← okOr (checkedAdd firstSeq 1) sequenceOverflow
  let validator ← mapError .batch (BatchValidator.new a.batchId .default)
  .ok ⟨nextSeq, some (blake3Id R line), validator, 0, 1, segmentBytes, [start]⟩

def chunkRecord (s : BatchWriting) (items : List Json) : V2RecordEnvelope :=
  a.record s.nextSeq s.previousHash .batchChunk (chunkPayload s.itemIndex items)

def writeChunk (s : BatchWriting) (items : List Json) : StoreResult BatchWriting := do
  let chunk := chunkRecord a s items
  let line := W.envelope chunk
  require (items.length ≤ u32Max) (.invalid "batch chunk count overflow")
  let hash := blake3Id R line
  let validator ← mapError .batch
    (s.validator.acceptChunk ⟨a.batchId, s.itemIndex, items.length, line.length, hash⟩)
  let segmentBytes ← writeStreamedRecord s.segmentBytes line
  let recordCount ← okOr (checkedAdd s.recordCount 1) recordCountOverflow
  let itemIndex ← okOr (checkedAdd s.itemIndex items.length) (.invalid "batch item count overflow")
  let nextSeq ← okOr (checkedAdd s.nextSeq 1) sequenceOverflow
  .ok ⟨nextSeq, some hash, validator, itemIndex, recordCount, segmentBytes, s.records ++ [chunk]⟩

/-- An item of the stream as the batch holds it. -/
def prepareItem (s : BatchWriting) (item : Json) : StoreResult Json := do
  let item ← compactBatchItem item a.itemSchemaVersion a.defaults
  require item.isObject (.invalid ("batch item " ++ toString s.itemIndex ++ " is not a JSON object"))
  .ok item

def oversizedItem (s : BatchWriting) : V2StoreError :=
  .invalid ("batch item " ++ toString s.itemIndex ++ " cannot fit in one bounded record")

/-- The packing loop: two size tests, one by the items and one by the line. -/
def batchPacker : Packer V2StoreError Json BatchWriting where
  slots := BatchLimits.default.maxItems
  cap := defaultMaxV2RecordBytes - 8 * 1024
  weight item := (W.item item).length + 1
  prepare := prepareItem a
  fits s items := (W.envelope (chunkRecord a s items)).length ≤ defaultMaxV2RecordBytes
  emit := writeChunk R W a
  tooLarge := oversizedItem
  stuck := .invalid "batch item packing made no progress"

def emptyBatch : V2StoreError := .invalid "a mutation batch must contain one or more object items"

def completeBatch (s : BatchWriting) : StoreResult (List V2RecordEnvelope) := do
  require (s.itemIndex ≠ 0) emptyBatch
  let digest ← mapError .batch (s.validator.orderedItemDigest R.blake3)
  let complete := a.record s.nextSeq s.previousHash .batchComplete (completePayload s.itemIndex digest)
  let line := W.envelope complete
  ensureRecordSize line
  let _ ← writeStreamedRecord s.segmentBytes line
  let _ ← okOr (checkedAdd s.recordCount 1) recordCountOverflow
  .ok (s.records ++ [complete])

/-- The records of a batch; none if the rounds do not suffice. -/
def appendRecords (rounds : Nat) (items : List (StoreResult Json)) :
    Option (StoreResult (List V2RecordEnvelope)) :=
  match admitBatch a.operationKind a.itemSchemaVersion a.context a.defaults with
  | .error e => some (.error e)
  | .ok _ =>
      match startBatch R W a with
      | .error e => some (.error e)
      | .ok s => ((batchPacker R W a).loop rounds s (.ofSource items)).map fun packed => do
          let (s, _) ← packed
          completeBatch R W a s

/-! ### Compaction -/

theorem hasValue_of_foldl_omitDefault {l : List (String × Json)} {item d : Json} {k : String}
    (h : (l.foldl omitDefault item).hasValue k d = true) : item.hasValue k d = true := by
  induction l generalizing item with
  | nil => exact h
  | cons entry l ih =>
    have hstep := ih h
    unfold Json.hasValue at hstep
    rw [get_omitDefault] at hstep
    split at hstep
    · cases hstep
    · exact hstep

/-- No default is left in a compacted item. -/
theorem foldl_omitDefault_hasValue {l : List (String × Json)} {item : Json} :
    ∀ e ∈ l, ¬ (l.foldl omitDefault item).hasValue e.1 e.2 = true := by
  induction l generalizing item with
  | nil => exact fun e he => absurd he List.not_mem_nil
  | cons entry l ih =>
    refine List.forall_mem_cons.mpr ⟨?_, ih⟩
    intro h
    rw [List.foldl_cons] at h
    have hstep := hasValue_of_foldl_omitDefault h
    have hitem : item.hasValue entry.1 entry.2 = true := by
      unfold Json.hasValue at hstep ⊢
      rw [get_omitDefault] at hstep
      split at hstep
      · cases hstep
      · exact hstep
    unfold Json.hasValue at hstep
    rw [get_omitDefault, if_pos ⟨rfl, hitem⟩] at hstep
    cases hstep

theorem foldl_omitDefault_self {l : List (String × Json)} {item : Json}
    (h : ∀ e ∈ l, ¬ item.hasValue e.1 e.2 = true) : l.foldl omitDefault item = item := by
  induction l with
  | nil => rfl
  | cons entry l ih =>
    obtain ⟨hentry, hl⟩ := List.forall_mem_cons.mp h
    rw [List.foldl_cons, omitDefault, if_neg hentry, ih hl]

/-- An item that comes back is compacted again to itself. -/
theorem compactBatchItem_again {version : Nat} {defaults item compact : Json}
    (hvalid : validateItemDefaults version defaults = .ok ())
    (h : compactBatchItem item version defaults = .ok compact) :
    compactBatchItem compact version defaults = .ok compact := by
  unfold compactBatchItem at h ⊢
  split at h
  · rename_i hone
    rw [if_pos hone]
  · rename_i hone
    rw [if_neg hone]
    obtain ⟨_, hobject, h⟩ := bind_eq_ok.mp h
    obtain ⟨kind, hkind, h⟩ := bind_eq_ok.mp h
    rw [require_eq_ok] at hobject
    rw [okOr_eq_ok] at hkind
    have hcompact := (Except.ok.inj h).symm
    have hsame : compact.get "kind" = item.get "kind" := by
      rw [hcompact]
      exact get_kind_compact item (defaultsOf_eq hvalid hone kind).2
    refine bind_eq_ok.mpr ⟨(), require_eq_ok.mpr ?_, bind_eq_ok.mpr ⟨kind, okOr_eq_ok.mpr ?_, congrArg _ ?_⟩⟩
    · rw [hcompact]
      exact foldl_omitDefault_isObject _ hobject
    · rw [hsame]
      exact hkind
    · rw [hcompact]
      exact foldl_omitDefault_self foldl_omitDefault_hasValue

variable {R W a}

theorem prepareItem_eq_ok {s : BatchWriting} {item compact : Json} : prepareItem a s item = .ok compact ↔
    compactBatchItem item a.itemSchemaVersion a.defaults = .ok compact ∧ compact.isObject = true := by
  unfold prepareItem
  rw [bind_eq_ok]
  constructor
  · intro h
    obtain ⟨c, hc, h⟩ := h
    obtain ⟨_, hobject, h⟩ := bind_eq_ok.mp h
    cases h
    exact ⟨hc, require_eq_ok.mp hobject⟩
  · intro h
    exact ⟨compact, h.1, bind_eq_ok.mpr ⟨(), require_eq_ok.mpr h.2, rfl⟩⟩

theorem batchPacker_stable (hvalid : validateItemDefaults a.itemSchemaVersion a.defaults = .ok ()) :
    (batchPacker R W a).Stable := by
  constructor
  · intro s t item compact h
    exact prepareItem_eq_ok.mpr (prepareItem_eq_ok.mp h)
  · intro s t item compact h
    obtain ⟨hcompact, hobject⟩ := prepareItem_eq_ok.mp h
    exact prepareItem_eq_ok.mpr ⟨compactBatchItem_again hvalid hcompact, hobject⟩

/-! ### One record -/

theorem writeStreamedRecord_eq_ok {segmentBytes n : Nat} {line : Bytes} :
    writeStreamedRecord segmentBytes line = .ok n ↔
      line.length ≤ defaultMaxV2RecordBytes ∧ segmentBytes + (line.length + 1) ≤ u64Max ∧
        n = segmentBytes + (line.length + 1) := by
  simp only [writeStreamedRecord, ensureRecordSize, bind_eq_ok, require_eq_ok, okOr_eq_ok, checkedAdd_eq_some,
    exists_const]

/-- What a chunk that was written adds. -/
structure WritesChunk (R : StoreRuntime) (W : RecordWriter) (a : BatchAppend) (s : BatchWriting) (items : List Json)
    (t : BatchWriting) : Prop where
  validator : s.validator.acceptChunk ⟨a.batchId, s.itemIndex, items.length,
    (W.envelope (chunkRecord a s items)).length, blake3Id R (W.envelope (chunkRecord a s items))⟩ = .ok t.validator
  line : (W.envelope (chunkRecord a s items)).length ≤ defaultMaxV2RecordBytes
  nextSeq : t.nextSeq = s.nextSeq + 1
  previousHash : t.previousHash = some (blake3Id R (W.envelope (chunkRecord a s items)))
  itemIndex : t.itemIndex = s.itemIndex + items.length
  recordCount : t.recordCount = s.recordCount + 1
  segmentBytes : t.segmentBytes = s.segmentBytes + ((W.envelope (chunkRecord a s items)).length + 1)
  records : t.records = s.records ++ [chunkRecord a s items]
  sequence : t.nextSeq ≤ u64Max

theorem writesChunk_of_ok {s t : BatchWriting} {items : List Json} (h : writeChunk R W a s items = .ok t) :
    WritesChunk R W a s items t := by
  obtain ⟨_, -, h⟩ := bind_eq_ok.mp h
  obtain ⟨validator, hvalidator, h⟩ := bind_eq_ok.mp h
  obtain ⟨segmentBytes, hbytes, h⟩ := bind_eq_ok.mp h
  obtain ⟨recordCount, hcount, h⟩ := bind_eq_ok.mp h
  obtain ⟨itemIndex, hindex, h⟩ := bind_eq_ok.mp h
  obtain ⟨nextSeq, hseq, h⟩ := bind_eq_ok.mp h
  cases h
  rw [mapError_eq_ok] at hvalidator
  obtain ⟨hline, -, hbytes⟩ := writeStreamedRecord_eq_ok.mp hbytes
  rw [okOr_eq_ok, checkedAdd_eq_some] at hcount hindex hseq
  exact ⟨hvalidator, hline, hseq.2, rfl, hindex.2, hcount.2, hbytes, rfl, by rw [hseq.2]; exact hseq.1⟩

end ArchiveLedger
