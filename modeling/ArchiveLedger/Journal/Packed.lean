import ArchiveLedger.Journal.Writing

/-!
# The chunks of a batch

Packing the items of a batch ends; it is refused for a malformed item, an empty stream or an item
that does not fit in a record of its own, and otherwise its chunks are the compacted items, in order
(`Lossless`).
-/

namespace ArchiveLedger

open Outcome Transition Packing

variable {R : StoreRuntime} {W : RecordWriter} {a : BatchAppend} {items : List (StoreResult Json)}

/-! ### Hashes -/

theorem decodeNibble_isSome {b : UInt8} (h : isLowerHex b = true) : ∃ n, decodeNibble b = some n := by
  unfold isLowerHex at h
  unfold decodeNibble
  simp only [Bool.or_eq_true, Bool.and_eq_true, decide_eq_true_eq] at h
  dsimp only
  split
  · exact ⟨_, rfl⟩
  · rename_i hdigit
    rw [if_pos (h.resolve_left hdigit)]
    exact ⟨_, rfl⟩

theorem decodePairs_isSome (hex : Bytes) (hall : ∀ b ∈ hex, isLowerHex b = true) (heven : hex.length % 2 = 0) :
    ∃ bytes, decodePairs hex = some bytes := by
  induction hex using decodePairs.induct with
  | case1 => exact ⟨[], rfl⟩
  | case2 b => simp at heven
  | case3 high low rest h l bytes hh hl hrest ih =>
    rw [decodePairs, hh, hl, hrest]
    exact ⟨_, rfl⟩
  | case4 high low rest hno ih =>
    obtain ⟨hhigh, hall⟩ := List.forall_mem_cons.mp hall
    obtain ⟨hlow, hall⟩ := List.forall_mem_cons.mp hall
    obtain ⟨h, hh⟩ := decodeNibble_isSome hhigh
    obtain ⟨l, hl⟩ := decodeNibble_isSome hlow
    rw [List.length_cons, List.length_cons] at heven
    obtain ⟨bytes, hbytes⟩ := ih hall (by omega)
    exact absurd hbytes (hno h l bytes hh hl)

theorem decodeBlake3_isOk {value : String} (h : isBlake3Identifier value = true) :
    ∃ bytes, decodeBlake3 value = .ok bytes := by
  unfold isBlake3Identifier at h
  obtain ⟨hex, hhex, h64⟩ := (Option.any_eq_true _ _).mp h
  unfold isLowerHex64 at h64
  rw [Bool.and_eq_true, decide_eq_true_eq] at h64
  obtain ⟨bytes, hbytes⟩ := decodePairs_isSome hex (List.all_eq_true.mp h64.2) (by rw [h64.1])
  exact ⟨bytes, bind_eq_ok.mpr ⟨hex, okOr_eq_ok.mpr hhex, bind_eq_ok.mpr ⟨(), require_eq_ok.mpr h64.1,
    okOr_eq_ok.mpr hbytes⟩⟩⟩

/-! ### What an append relies on -/

def BatchAppend.firstSeq (a : BatchAppend) : Nat := (a.tail.map Prod.fst).getD 0 + 1

def startRecord (a : BatchAppend) : V2RecordEnvelope :=
  a.record a.firstSeq (a.tail.map Prod.snd) .batchStart (startPayload a)

def completeRecord (a : BatchAppend) (s : BatchWriting) (digest : String) : V2RecordEnvelope :=
  a.record s.nextSeq s.previousHash .batchComplete (completePayload s.itemIndex digest)

/-- An append as the checks before it leave it, on an origin whose counters have room for `n` items. -/
structure Appendable (R : StoreRuntime) (W : RecordWriter) (a : BatchAppend) (n : Nat) : Prop where
  admitted : admitBatch a.operationKind a.itemSchemaVersion a.context a.defaults = .ok ()
  origin : isOriginId a.originId = true
  tail : ∀ seq hash, a.tail = some (seq, hash) → seq ≠ 0 ∧ isBlake3Identifier hash = true
  batch : isPrefixedLowercaseUlid R a.batchId "batch_" = true
  ids : ∀ seq, isPrefixedLowercaseUlid R (a.recordId seq) "rec_" = true
  hashes : ∀ bytes, isBlake3Identifier (blake3Id R bytes) = true
  start : (W.envelope (startRecord a)).length ≤ defaultMaxV2RecordBytes
  sequences : a.firstSeq + n + 2 ≤ u64Max
  bytes : (n + 2) * (defaultMaxV2RecordBytes + 1) ≤ u64Max

theorem Appendable.valid {n : Nat} (h : Appendable R W a n) :
    validateItemDefaults a.itemSchemaVersion a.defaults = .ok () := by
  have haccepted := h.admitted
  unfold admitBatch at haccepted
  obtain ⟨_, -, haccepted⟩ := bind_eq_ok.mp haccepted
  obtain ⟨_, -, haccepted⟩ := bind_eq_ok.mp haccepted
  exact haccepted

theorem Appendable.batchId_ne {n : Nat} (h : Appendable R W a n) : a.batchId ≠ "" := by
  intro hempty
  have hbatch := h.batch
  rw [hempty] at hbatch
  have hnone : stripPrefix "batch_" "" = none := by decide +kernel
  rw [isPrefixedLowercaseUlid, hnone] at hbatch
  cases hbatch

/-! ### How far a batch is written -/

/-- The counters of a batch go along with its records. -/
structure BatchWriting.Sound (a : BatchAppend) (s : BatchWriting) : Prop where
  batchId : s.validator.batchId = a.batchId
  limits : s.validator.limits = .default
  index : s.validator.nextItemIndex = s.itemIndex
  chunks : s.validator.chunkCount + 1 = s.records.length
  count : s.recordCount = s.records.length
  sequence : s.nextSeq = a.firstSeq + s.records.length
  bytes : s.segmentBytes ≤ s.records.length * (defaultMaxV2RecordBytes + 1)
  items : s.records.length ≤ s.itemIndex + 1

theorem acceptChunk_eq_ok {v w : BatchValidator} {chunk : BatchChunkDescriptor} (h : v.acceptChunk chunk = .ok w) :
    w.batchId = v.batchId ∧ w.limits = v.limits ∧ w.nextItemIndex = v.nextItemIndex + chunk.itemCount ∧
      w.chunkCount = v.chunkCount + 1 := by
  simp only [BatchValidator.acceptChunk, bind_eq_ok, okOr_eq_ok, checkedAdd_eq_some, Except.ok.injEq] at h
  obtain ⟨-, -, -, -, -, -, -, -, -, -, -, -, n, ⟨-, hn⟩, rfl⟩ := h
  exact ⟨rfl, rfl, hn, rfl⟩

theorem BatchWriting.Sound.writesChunk {s t : BatchWriting} {chunk : List Json} (hs : s.Sound a) (hne : chunk ≠ [])
    (h : WritesChunk R W a s chunk t) : t.Sound a := by
  obtain ⟨hbatch, hlimits, hindex, hchunks⟩ := acceptChunk_eq_ok h.validator
  have hpositive := List.length_pos_iff.mpr hne
  have hlength : t.records.length = s.records.length + 1 := by
    rw [h.records, List.length_append]
    rfl
  have hline := h.line
  have hbytes := hs.bytes
  have hitems := hs.items
  refine ⟨hbatch.trans hs.batchId, hlimits.trans hs.limits, ?_, ?_, ?_, ?_, ?_, ?_⟩
  · rw [hindex, hs.index, h.itemIndex]
  · rw [hchunks, hs.chunks, hlength]
  · rw [h.recordCount, hs.count, hlength]
  · rw [h.nextSeq, hs.sequence, hlength]
    rfl
  · rw [h.segmentBytes, hlength, Nat.add_mul, Nat.one_mul]
    omega
  · rw [hlength, h.itemIndex]
    omega

/-- A chunk that fits is written. -/
theorem writeChunk_isOk {n : Nat} (ha : Appendable R W a n) {s : BatchWriting} {chunk : List Json} (hs : s.Sound a)
    (hne : chunk ≠ []) (hlength : chunk.length ≤ defaultMaxBatchChunkItems)
    (hfits : (W.envelope (chunkRecord a s chunk)).length ≤ defaultMaxV2RecordBytes)
    (hroom : s.itemIndex + chunk.length ≤ n) : ∃ t, writeChunk R W a s chunk = .ok t := by
  have hpositive := List.length_pos_iff.mpr hne
  have hsequence := hs.sequence
  have hitems := hs.items
  have hsequences := ha.sequences
  have hcount := hs.count
  have hchunk : chunk.length ≤ u32Max := Nat.le_trans hlength (by decide)
  have hbytes : s.segmentBytes + ((W.envelope (chunkRecord a s chunk)).length + 1) ≤ u64Max := by
    have hsum := hs.bytes
    have hrecords : (s.records.length + 1) * (defaultMaxV2RecordBytes + 1) ≤
        (n + 2) * (defaultMaxV2RecordBytes + 1) := Nat.mul_le_mul_right _ (by omega)
    rw [Nat.add_mul, Nat.one_mul] at hrecords
    have hmax := ha.bytes
    omega
  obtain ⟨hash, hhash⟩ := decodeBlake3_isOk (ha.hashes (W.envelope (chunkRecord a s chunk)))
  have haccept : ∃ validator, s.validator.acceptChunk ⟨a.batchId, s.itemIndex, chunk.length,
      (W.envelope (chunkRecord a s chunk)).length, blake3Id R (W.envelope (chunkRecord a s chunk))⟩ =
      .ok validator := by
    simp only [BatchValidator.acceptChunk, bind_eq_ok, require_eq_ok, okOr_eq_ok, checkedAdd_eq_some]
    refine ⟨_, (), hs.batchId.symm, (), Nat.pos_iff_ne_zero.mp hpositive, (), ?_, (), ?_, (), hs.index.symm,
      hash, hhash, _, ⟨?_, rfl⟩, rfl⟩
    · rw [hs.limits]
      exact hlength
    · rw [hs.limits]
      exact hfits
    · rw [hs.index]
      show s.itemIndex + chunk.length ≤ u64Max
      omega
  obtain ⟨validator, haccept⟩ := haccept
  refine ⟨_, bind_eq_ok.mpr ⟨(), require_eq_ok.mpr hchunk, bind_eq_ok.mpr ⟨validator, mapError_eq_ok.mpr haccept,
    bind_eq_ok.mpr ⟨_, writeStreamedRecord_eq_ok.mpr ⟨hfits, hbytes, rfl⟩,
      bind_eq_ok.mpr ⟨_, okOr_eq_ok.mpr (checkedAdd_eq_some.mpr ⟨?_, rfl⟩),
        bind_eq_ok.mpr ⟨_, okOr_eq_ok.mpr (checkedAdd_eq_some.mpr ⟨?_, rfl⟩),
          bind_eq_ok.mpr ⟨_, okOr_eq_ok.mpr (checkedAdd_eq_some.mpr ⟨?_, rfl⟩), rfl⟩⟩⟩⟩⟩⟩⟩
  · rw [hcount]
    omega
  · omega
  · rw [hsequence]
    omega

/-- The batch before its first chunk. -/
def started (R : StoreRuntime) (W : RecordWriter) (a : BatchAppend) : BatchWriting :=
  ⟨a.firstSeq + 1, some (blake3Id R (W.envelope (startRecord a))), ⟨a.batchId, .default, 0, 0, digestDomain⟩, 0, 1,
    (W.envelope (startRecord a)).length + 1, [startRecord a]⟩

theorem newValidator (h : a.batchId ≠ "") :
    BatchValidator.new a.batchId .default = .ok ⟨a.batchId, .default, 0, 0, digestDomain⟩ := by
  rw [BatchValidator.new, require, if_pos h]
  rfl

theorem startBatch_eq {n : Nat} (ha : Appendable R W a n) : startBatch R W a = .ok (started R W a) := by
  have hsequences := ha.sequences
  have hbytes := ha.bytes
  have hstart := ha.start
  refine bind_eq_ok.mpr ⟨a.firstSeq, okOr_eq_ok.mpr (checkedAdd_eq_some.mpr ⟨?_, rfl⟩),
    bind_eq_ok.mpr ⟨(), require_eq_ok.mpr ha.start,
      bind_eq_ok.mpr ⟨_, writeStreamedRecord_eq_ok.mpr ⟨ha.start, ?_, (Nat.zero_add _).symm⟩,
        bind_eq_ok.mpr ⟨_, okOr_eq_ok.mpr (checkedAdd_eq_some.mpr ⟨?_, rfl⟩),
          bind_eq_ok.mpr ⟨_, mapError_eq_ok.mpr (newValidator ha.batchId_ne), rfl⟩⟩⟩⟩⟩
  · show a.firstSeq ≤ u64Max
    omega
  · change (W.envelope (startRecord a)).length ≤ _ at hstart
    show 0 + ((W.envelope (startRecord a)).length + 1) ≤ u64Max
    rw [Nat.add_mul] at hbytes
    omega
  · omega

theorem started_sound {n : Nat} (ha : Appendable R W a n) : (started R W a).Sound a := by
  have hstart := ha.start
  refine ⟨rfl, rfl, rfl, rfl, rfl, rfl, ?_, Nat.le_refl _⟩
  show (W.envelope (startRecord a)).length + 1 ≤ 1 * (defaultMaxV2RecordBytes + 1)
  omega

/-! ### Chunks in order -/

/-- The payloads of chunks, each with the number of items before it. -/
def chunkPayloads : Nat → List (List Json) → List Json
  | _, [] => []
  | n, chunk :: chunks => chunkPayload n chunk :: chunkPayloads (n + chunk.length) chunks

/-- The records that the emissions of a batch add. -/
theorem emits_records {s t : BatchWriting} {chunks : List (List Json)} (h : (batchPacker R W a).Emits s chunks t) :
    t.itemIndex = s.itemIndex + chunks.flatten.length ∧
      ∃ written, t.records = s.records ++ written ∧
        written.map V2RecordEnvelope.payload = chunkPayloads s.itemIndex chunks ∧
        ∀ r ∈ written, r.recordKind = .batchChunk ∧ (W.envelope r).length ≤ defaultMaxV2RecordBytes := by
  induction h with
  | nil s => exact ⟨rfl, [], (List.append_nil _).symm, rfl, fun r hr => absurd hr List.not_mem_nil⟩
  | @cons s t u chunk chunks hne hlength hfits hemit _ ih =>
    have hwrites := writesChunk_of_ok hemit
    obtain ⟨hindex, written, hrecords, hpayloads, hall⟩ := ih
    refine ⟨?_, chunkRecord a s chunk :: written, ?_, ?_, List.forall_mem_cons.mpr ⟨⟨rfl, hwrites.line⟩, hall⟩⟩
    · rw [hindex, hwrites.itemIndex, List.flatten_cons, List.length_append, Nat.add_assoc]
    · rw [hrecords, hwrites.records, List.append_assoc]
      rfl
    · rw [List.map_cons, hpayloads, hwrites.itemIndex]
      rfl

theorem emits_sound {s t : BatchWriting} {chunks : List (List Json)} (h : (batchPacker R W a).Emits s chunks t)
    (hs : s.Sound a) : t.Sound a :=
  h.invariant (fun _ _ _ hs hne _ _ hemit => hs.writesChunk hne (writesChunk_of_ok hemit)) hs

/-- An item of the stream and what the batch holds of it. -/
def Compacts (a : BatchAppend) (i : StoreResult Json) (compact : Json) : Prop :=
  ∃ item, i = .ok item ∧ compactBatchItem item a.itemSchemaVersion a.defaults = .ok compact ∧
    compact.isObject = true

theorem compacts_of_reads {i : StoreResult Json} {compact : Json} (h : (batchPacker R W a).Reads i compact) :
    Compacts a i compact := by
  obtain ⟨item, hitem, hprepare⟩ := h
  exact ⟨item, hitem, prepareItem_eq_ok.mp (hprepare (started R W a))⟩

/-- **Nothing is lost**: the records of a batch are its start, the compacted items of the stream in
chunks, in order, and its completion. -/
structure Lossless (W : RecordWriter) (a : BatchAppend) (items : List (StoreResult Json))
    (records : List V2RecordEnvelope) (chunks : List (List Json)) : Prop where
  items : List.Forall₂ (Compacts a) items chunks.flatten
  sizes : ∀ chunk ∈ chunks, 1 ≤ chunk.length ∧ chunk.length ≤ defaultMaxBatchChunkItems
  order : ∃ written complete digest, records = startRecord a :: written ++ [complete] ∧
    written.map V2RecordEnvelope.payload = chunkPayloads 0 chunks ∧
    (∀ r ∈ written, r.recordKind = .batchChunk) ∧ complete.recordKind = .batchComplete ∧
    complete.payload = completePayload chunks.flatten.length digest
  lines : ∀ r ∈ records, (W.envelope r).length ≤ defaultMaxV2RecordBytes

/-- What is written when the packing of these items comes to its next chunk. -/
def Reached (R : StoreRuntime) (W : RecordWriter) (a : BatchAppend) (items : List (StoreResult Json))
    (s : BatchWriting) : Prop := ∃ q, (batchPacker R W a).Reaches (started R W a) (.ofSource items) s q

/-- Why an append is refused: for a malformed item, an empty stream, or an item that does not fit in the
record that holds it alone after the items before it. -/
inductive Refusal (R : StoreRuntime) (W : RecordWriter) (a : BatchAppend) (items : List (StoreResult Json)) :
    V2StoreError → Prop
  | malformed {i : StoreResult Json} {s : BatchWriting} {e : V2StoreError} : Reached R W a items s → i ∈ items →
      (i >>= prepareItem a s) = .error e → Refusal R W a items e
  | empty : items = [] → Refusal R W a items emptyBatch
  | oversized {before after : List (StoreResult Json)} {i : StoreResult Json} {compact : Json} {s : BatchWriting} :
      Reached R W a items s → items = before ++ i :: after → Compacts a i compact → s.itemIndex = before.length →
      defaultMaxV2RecordBytes < (W.envelope (chunkRecord a s [compact])).length →
      Refusal R W a items (oversizedItem s)

/-- The rounds that suffice. -/
def packed (R : StoreRuntime) (W : RecordWriter) (a : BatchAppend) (items : List (StoreResult Json)) :
    Option (StoreResult (BatchWriting × List (List Json))) :=
  (batchPacker R W a).loop (items.length + 1) (started R W a) (.ofSource items)

theorem appendRecords_eq {n : Nat} (ha : Appendable R W a n) (items : List (StoreResult Json)) :
    appendRecords R W a (items.length + 1) items =
      (packed R W a items).map fun result => result >>= fun written => completeBatch R W a written.1 := by
  unfold appendRecords
  rw [ha.admitted, startBatch_eq ha]
  rfl

theorem packed_total {n : Nat} (ha : Appendable R W a n) (items : List (StoreResult Json)) : ∃ outcome, packed R W a items = some outcome := by
  refine Packer.loop_total (batchPacker_stable ha.valid) (Packer.settled_ofSource items) ?_
  show [].length + items.length < items.length + 1
  rw [List.length_nil]
  omega

/-- What packing has read of the stream. -/
theorem yields_ofSource {chunk : List Json} {q : Queue V2StoreError Json}
    (h : (batchPacker R W a).Yields (.ofSource items) chunk q) :
    ∃ read, items = read ++ q.source ∧ List.Forall₂ (Compacts a) read (chunk ++ q.pending) := by
  obtain ⟨read, prepared, hsource, hread, hitems⟩ := h
  refine ⟨read, hsource, ?_⟩
  rw [← hitems]
  exact hread.imp fun i compact hi => compacts_of_reads hi

/-- Packing fails for an item. -/
theorem packed_error (ha : Appendable R W a items.length) {e : V2StoreError}
    (h : packed R W a items = some (.error e)) : Refusal R W a items e := by
  have hstable : (batchPacker R W a).Stable := batchPacker_stable ha.valid
  obtain ⟨chunks, t, q, hreaches, hemits, hyields, hreason⟩ :=
    Packer.loop_error hstable (Nat.succ_pos 999) (Packer.settled_ofSource items) h
  have hindex : t.itemIndex = chunks.flatten.length := by
    rw [(emits_records hemits).1]
    exact Nat.zero_add _
  rcases hreason with ⟨i, hi, he⟩ | ⟨compact, q', hnext, hfits, rfl⟩ | ⟨chunk, q', hnext, hne, hlength, hfits, he⟩
  · exact .malformed ⟨q, hreaches⟩ hi he
  · obtain ⟨read, hsource, hread⟩ := yields_ofSource (hyields.trans hnext)
    rw [List.append_assoc, List.singleton_append] at hread
    have hbefore := List.forall₂_take_append _ _ _ hread
    obtain ⟨i, after, hi, -, hrest⟩ := List.forall₂_cons_right_iff.mp (List.forall₂_drop_append _ _ _ hread)
    rw [← List.take_append_drop chunks.flatten.length read, hrest, List.append_assoc, List.cons_append] at hsource
    refine .oversized ⟨q, hreaches⟩ hsource hi (hindex.trans hbefore.length_eq.symm) ?_
    exact Nat.lt_of_not_le (of_decide_eq_false hfits)
  · have hroom : t.itemIndex + chunk.length ≤ items.length := by
      have hsize := (hyields.trans hnext).size
      rw [List.length_append] at hsize
      have hall : (Queue.ofSource items).size = items.length := Nat.zero_add _
      omega
    obtain ⟨u, hu⟩ := writeChunk_isOk ha (emits_sound hemits (started_sound ha)) hne hlength
      (of_decide_eq_true hfits) hroom
    have he : writeChunk R W a t chunk = .error e := he
    rw [hu] at he
    cases he

/-- The chunks of a batch. -/
theorem packed_ok {n : Nat} (ha : Appendable R W a n) {s : BatchWriting} {chunks : List (List Json)}
    (h : packed R W a items = some (.ok (s, chunks))) :
    (batchPacker R W a).Emits (started R W a) chunks s ∧ List.Forall₂ (Compacts a) items chunks.flatten := by
  obtain ⟨hemits, q, hyields, hpending, hsource⟩ :=
    Packer.loop_ok (batchPacker_stable ha.valid) (Packer.settled_ofSource items) h
  obtain ⟨read, hread, hall⟩ := yields_ofSource hyields
  rw [hsource, List.append_nil] at hread
  rw [hpending, List.append_nil] at hall
  exact ⟨hemits, hread ▸ hall⟩

/-! ### The completion -/

/-- The digest that the completion of a batch names. -/
def orderedDigest (R : StoreRuntime) (s : BatchWriting) : String := "blake3:" ++ R.blake3 s.validator.digest

theorem completeBatch_eq {n : Nat} (ha : Appendable R W a n) {s : BatchWriting} (hs : s.Sound a)
    (hroom : s.itemIndex ≤ n)
    (hfits : (W.envelope (completeRecord a s (orderedDigest R s))).length ≤ defaultMaxV2RecordBytes) :
    completeBatch R W a s = if s.itemIndex = 0 then .error emptyBatch
      else if s.validator.chunkCount = 0 then .error (.batch .noChunks)
      else .ok (s.records ++ [completeRecord a s (orderedDigest R s)]) := by
  unfold completeBatch
  by_cases hempty : s.itemIndex = 0
  · rw [require, if_neg (not_not_intro hempty), if_pos hempty]
    rfl
  · rw [require, if_pos hempty, if_neg hempty]
    show (mapError V2StoreError.batch (s.validator.orderedItemDigest R.blake3) >>= _) = _
    unfold BatchValidator.orderedItemDigest
    by_cases hchunks : s.validator.chunkCount = 0
    · rw [require, if_neg (not_not_intro hchunks), if_pos hchunks]
      rfl
    · rw [require, if_pos hchunks, if_neg hchunks]
      have hitems := hs.items
      have hsequences := ha.sequences
      have hbytes : s.segmentBytes + ((W.envelope (completeRecord a s (orderedDigest R s))).length + 1) ≤ u64Max := by
        have hsum := hs.bytes
        have hrecords : (s.records.length + 1) * (defaultMaxV2RecordBytes + 1) ≤
            (n + 2) * (defaultMaxV2RecordBytes + 1) := Nat.mul_le_mul_right _ (by omega)
        rw [Nat.add_mul, Nat.one_mul] at hrecords
        have hmax := ha.bytes
        omega
      have hcount : s.recordCount + 1 ≤ u64Max := by
        rw [hs.count]
        omega
      exact bind_eq_ok.mpr ⟨orderedDigest R s, rfl, bind_eq_ok.mpr ⟨(), require_eq_ok.mpr hfits,
        bind_eq_ok.mpr ⟨_, writeStreamedRecord_eq_ok.mpr ⟨hfits, hbytes, rfl⟩,
          bind_eq_ok.mpr ⟨_, okOr_eq_ok.mpr (checkedAdd_eq_some.mpr ⟨hcount, rfl⟩), rfl⟩⟩⟩⟩

/-- The completion of a batch that was packed fits in a record. -/
def CompletionFits (R : StoreRuntime) (W : RecordWriter) (a : BatchAppend) (items : List (StoreResult Json)) : Prop :=
  ∀ s chunks, packed R W a items = some (.ok (s, chunks)) →
    (W.envelope (completeRecord a s (orderedDigest R s))).length ≤ defaultMaxV2RecordBytes

/-- An append that succeeds has written its completion. -/
theorem completionFits_of_appended {n : Nat} (ha : Appendable R W a n) {records : List V2RecordEnvelope}
    (h : appendRecords R W a (items.length + 1) items = some (.ok records)) : CompletionFits R W a items := by
  intro s chunks hpacked
  rw [appendRecords_eq ha, hpacked] at h
  have hcomplete : completeBatch R W a s = .ok records := Option.some.inj h
  obtain ⟨_, -, hcomplete⟩ := bind_eq_ok.mp hcomplete
  obtain ⟨digest, hdigest, hcomplete⟩ := bind_eq_ok.mp hcomplete
  obtain ⟨_, -, hdigest⟩ := bind_eq_ok.mp (mapError_eq_ok.mp hdigest)
  cases hdigest
  obtain ⟨_, hsize, -⟩ := bind_eq_ok.mp hcomplete
  exact require_eq_ok.mp hsize

theorem started_itemIndex : (started R W a).itemIndex = 0 := rfl

/-- What a batch that was packed comes to: the refusal of an empty stream or its records. -/
theorem completed (ha : Appendable R W a items.length) (hfits : CompletionFits R W a items) {s : BatchWriting}
    {chunks : List (List Json)} (h : packed R W a items = some (.ok (s, chunks))) :
    (items = [] ∧ completeBatch R W a s = .error emptyBatch) ∨
      (items ≠ [] ∧ completeBatch R W a s = .ok (s.records ++ [completeRecord a s (orderedDigest R s)])) := by
  obtain ⟨hemits, hitems⟩ := packed_ok ha h
  have hs := emits_sound hemits (started_sound ha)
  have hindex : s.itemIndex = items.length := by
    rw [(emits_records hemits).1, started_itemIndex, hitems.length_eq]
    exact Nat.zero_add _
  rw [completeBatch_eq ha hs (Nat.le_of_eq hindex) (hfits s chunks h), hindex]
  by_cases hempty : items = []
  · rw [hempty]
    exact Or.inl ⟨rfl, if_pos rfl⟩
  · have hlength : items.length ≠ 0 := fun hzero => hempty (List.eq_nil_of_length_eq_zero hzero)
    have hchunks : s.validator.chunkCount ≠ 0 := by
      intro hzero
      have hrecords := hs.chunks
      obtain ⟨-, written, hwritten, hpayloads, -⟩ := emits_records hemits
      rw [hwritten, hzero, List.length_append] at hrecords
      have hnone : written = [] := List.eq_nil_of_length_eq_zero (by
        have hone : (started R W a).records.length = 1 := rfl
        omega)
      rw [hnone] at hpayloads
      cases chunks with
      | nil => exact hlength (by rw [hitems.length_eq]; rfl)
      | cons chunk chunks => cases hpayloads
    rw [if_neg hlength, if_neg hchunks]
    exact Or.inr ⟨hempty, rfl⟩

/-- The records of a batch that was packed lose nothing. -/
theorem lossless_of_packed (ha : Appendable R W a items.length) (hfits : CompletionFits R W a items)
    {s : BatchWriting} {chunks : List (List Json)} (h : packed R W a items = some (.ok (s, chunks))) :
    Lossless W a items (s.records ++ [completeRecord a s (orderedDigest R s)]) chunks := by
  obtain ⟨hemits, hitems⟩ := packed_ok ha h
  obtain ⟨hindex, written, hrecords, hpayloads, hwritten⟩ := emits_records hemits
  have hall : s.records ++ [completeRecord a s (orderedDigest R s)] =
      startRecord a :: written ++ [completeRecord a s (orderedDigest R s)] := by
    rw [hrecords]
    rfl
  refine ⟨hitems, ?_, ⟨written, _, orderedDigest R s, hall, hpayloads, fun r hr => (hwritten r hr).1, rfl, ?_⟩, ?_⟩
  · intro chunk hchunk
    obtain ⟨hne, hlength⟩ := hemits.chunks chunk hchunk
    exact ⟨List.length_pos_iff.mpr hne, hlength⟩
  · show completePayload s.itemIndex _ = _
    rw [hindex, started_itemIndex, Nat.zero_add]
  · rw [hall]
    intro r hr
    rcases List.mem_append.mp hr with hr | hr
    · rcases List.mem_cons.mp hr with rfl | hr
      · exact ha.start
      · exact (hwritten r hr).2
    · rw [List.mem_singleton.mp hr]
      exact hfits s chunks h

end ArchiveLedger
