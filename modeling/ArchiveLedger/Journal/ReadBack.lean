import ArchiveLedger.Journal.Packed
import ArchiveLedger.Journal.Verifiers

/-!
# Reading a batch back

The reader takes the lines of a batch one by one, as `parse_v2_record` and
`validate_streamed_batch_record` do.  The JSON reader gives up on arrays and objects nested to a depth
of 128, which the writer does not look at: a batch verifies exactly when nothing in it is nested that
far (`append_verifies_iff`).
-/

namespace ArchiveLedger

open Outcome Transition Packing

/-! ### Numbers that come back -/

namespace Json

mutual

/-- Every number's text replaced. -/
def mapNumbers (f : String → String) : Json → Json
  | .num text => .num (f text)
  | .arr items => .arr (mapNumbersItems f items)
  | .obj fields => .obj (mapNumbersFields f fields)
  | .null => .null
  | .bool b => .bool b
  | .str text => .str text

def mapNumbersItems (f : String → String) : List Json → List Json
  | [] => []
  | v :: l => v.mapNumbers f :: mapNumbersItems f l

def mapNumbersFields (f : String → String) : List (String × Json) → List (String × Json)
  | [] => []
  | (k, v) :: l => (k, v.mapNumbers f) :: mapNumbersFields f l

end

/-- Integers are read as they were written; another number may come back as its neighbour. -/
def KeepsIntegers (f : String → String) : Prop :=
  ∀ text, f text = text ∨ ((num text).asU64 = none ∧ (num (f text)).asU64 = none)

theorem length_mapNumbersItems (f : String → String) (items : List Json) :
    (mapNumbersItems f items).length = items.length := by
  induction items with
  | nil => rfl
  | cons v l ih =>
    rw [mapNumbersItems, List.length_cons, ih]
    rfl

theorem get_mapNumbers (f : String → String) (value : Json) (k : String) :
    (value.mapNumbers f).get k = (value.get k).map (mapNumbers f) := by
  cases value with
  | obj fields =>
    rw [mapNumbers]
    induction fields with
    | nil => rfl
    | cons entry l ih =>
      rw [mapNumbersFields, get_obj_cons, get_obj_cons, ih]
      split
      · rfl
      · rfl
  | _ => rfl

theorem asU64_mapNumbers {f : String → String} (hf : KeepsIntegers f) (value : Json) :
    (value.mapNumbers f).asU64 = value.asU64 := by
  cases value with
  | num text =>
    rw [mapNumbers]
    rcases hf text with hsame | ⟨hnone, hnone'⟩
    · rw [hsame]
    · rw [hnone, hnone']
  | _ => rfl

theorem isObject_mapNumbers (f : String → String) (value : Json) :
    (value.mapNumbers f).isObject = value.isObject := by
  cases value <;> rfl

theorem asU64_ofNat {n : Nat} (h : n ≤ u64Max) : (ofNat n).asU64 = some n := by
  have hchars : n.repr.toList = Nat.toDigits 10 n := Nat.toList_repr
  have hne : n.repr ≠ "" := by
    intro hempty
    rw [hempty] at hchars
    exact Nat.toDigits_ne_nil hchars.symm
  have hdigits : (n.repr.toList.all fun c => '0' ≤ c && c ≤ '9') = true := by
    rw [hchars, List.all_eq_true]
    intro c hc
    have hdigit := Nat.isDigit_of_mem_toDigits (by decide) (by decide) hc
    unfold Char.isDigit at hdigit
    rw [Bool.and_eq_true] at hdigit ⊢
    rw [decide_eq_true_eq, decide_eq_true_eq] at hdigit ⊢
    exact hdigit
  have hvalue : n.repr.toList.foldl (fun m c => m * 10 + (c.toNat - '0'.toNat)) 0 = n := by
    rw [hchars]
    have hfold : (fun m (c : Char) => m * 10 + (c.toNat - '0'.toNat)) =
        fun m c => 10 * m + (c.toNat - '0'.toNat) := by
      funext m c
      rw [Nat.mul_comm]
    rw [hfold, ← Nat.ofDigitChars_eq_foldl]
    exact Nat.ofDigitChars_ten_toDigits
  show (if n.repr ≠ "" ∧ (n.repr.toList.all fun c => '0' ≤ c && c ≤ '9') = true then
    (if n.repr.toList.foldl (fun m c => m * 10 + (c.toNat - '0'.toNat)) 0 ≤ u64Max then
      some (n.repr.toList.foldl (fun m c => m * 10 + (c.toNat - '0'.toNat)) 0) else none) else none) = some n
  rw [if_pos ⟨hne, hdigits⟩, hvalue, if_pos h]

end Json

/-! ### The JSON reader -/

/-- The depth at which `serde_json` gives up; the record itself is one level. -/
def recursionLimit : Nat := 128

/-- What the JSON reader makes of a line that the JSON writer wrote. -/
structure RecordWriter.Reads (W : RecordWriter) (R : StoreRuntime) (r : V2RecordEnvelope) : Prop where
  plain : (!(W.envelope r).contains 10 && !(W.envelope r).contains 13) = true
  shallow : r.payload.depth + 1 < recursionLimit → ∃ f, Json.KeepsIntegers f ∧
    R.readEnvelope (W.envelope r) = some { r with payload := r.payload.mapNumbers f }
  deep : recursionLimit ≤ r.payload.depth + 1 → R.readEnvelope (W.envelope r) = none

/-- Where a reader of a batch stands. -/
structure LineReading where
  seq : Nat
  previous : Option String
  active : Option BatchValidator

variable (R : StoreRuntime)

def acceptLine (originId causalFrontierHash : String) (s : LineReading) (line : Bytes) : StoreResult LineReading := do
  let (parsed, next) ← parseNext R originId s.seq s.previous line
  let active ← validateStreamedBatchRecord R s.active ⟨parsed, line, "", causalFrontierHash⟩
  .ok ⟨next, some parsed.recordHash, active⟩

/-- The lines are read to the end of their batch. -/
def Verifies (a : BatchAppend) (lines : List Bytes) : Prop :=
  ∃ reading, commitAll (acceptLine R a.originId a.causalFrontierHash)
    ⟨a.firstSeq, a.tail.map Prod.snd, none⟩ lines = .ok reading ∧ reading.active = none

/-- Nothing that the batch holds is nested too far for its record. -/
structure Shallow (a : BatchAppend) (items : List (StoreResult Json)) : Prop where
  context : a.context.depth ≤ 125
  defaults : a.defaults.depth ≤ 125
  items : ∀ i ∈ items, ∀ compact, Compacts a i compact → compact.depth ≤ 124

/-! ### One line -/

variable {R} {W : RecordWriter} {a : BatchAppend} {items : List (StoreResult Json)}

/-- A line whose record is nested too far is not accepted. -/
theorem acceptLine_deep {r : V2RecordEnvelope} (hr : W.Reads R r) (hdeep : recursionLimit ≤ r.payload.depth + 1)
    {originId causal : String} {s t : LineReading} : acceptLine R originId causal s (W.envelope r) ≠ .ok t := by
  intro h
  obtain ⟨parsed, hparsed, -⟩ := bind_eq_ok.mp h
  obtain ⟨record, hrecord, -⟩ := bind_eq_ok.mp hparsed
  obtain ⟨_, -, hrecord⟩ := bind_eq_ok.mp (mapError_eq_ok.mp hrecord)
  obtain ⟨_, -, hrecord⟩ := bind_eq_ok.mp hrecord
  obtain ⟨envelope, henvelope, -⟩ := bind_eq_ok.mp hrecord
  rw [okOr_eq_ok, hr.deep hdeep] at henvelope
  cases henvelope

/-- A record of the batch at its place is parsed, up to its numbers. -/
theorem parseNext_written {n : Nat} (ha : Appendable R W a n) {seq : Nat} {previous : Option String}
    {kind : V2RecordKind} {payload : Json} (hr : W.Reads R (a.record seq previous kind payload))
    (hline : (W.envelope (a.record seq previous kind payload)).length ≤ defaultMaxV2RecordBytes)
    (hshallow : payload.depth + 1 < recursionLimit) (hobject : payload.isObject = true)
    (hseq : seq ≠ 0) (hnext : seq + 1 ≤ u64Max)
    (hprevious : previousHashFits (a.record seq previous kind payload) seq previous = true) :
    ∃ f, Json.KeepsIntegers f ∧ parseNext R a.originId seq previous (W.envelope (a.record seq previous kind payload)) =
      .ok (⟨a.record seq previous kind (payload.mapNumbers f),
        blake3Id R (W.envelope (a.record seq previous kind payload))⟩, seq + 1) := by
  obtain ⟨f, hf, hread⟩ := hr.shallow hshallow
  refine ⟨f, hf, bind_eq_ok.mpr ⟨_, mapError_eq_ok.mpr ?_,
    bind_eq_ok.mpr ⟨seq + 1, okOr_eq_ok.mpr (checkedAdd_eq_some.mpr ⟨hnext, rfl⟩), rfl⟩⟩⟩
  simp only [parseV2Record, bind_eq_ok, require_eq_ok, okOr_eq_ok]
  refine ⟨(), hr.plain, (), ?_, _, hread, (), rfl, (), ha.origin, (), rfl, (), ⟨rfl, hseq⟩, (), ha.ids seq, (),
    ha.batch, (), ?_, (), hprevious, rfl⟩
  · rw [Nat.min_self]
    exact hline
  · rw [Json.isObject_mapNumbers]
    exact hobject

/-! ### The start -/

theorem depth_startPayload : (startPayload a).depth = max a.context.depth a.defaults.depth + 1 := by
  show max 0 (max a.context.depth (max a.defaults.depth (max 0 (max 0 0)))) + 1 = _
  rw [Nat.zero_max, Nat.max_self, Nat.max_self, Nat.max_zero]

theorem depth_chunkPayload (n : Nat) (chunk : List Json) :
    (chunkPayload n chunk).depth = Json.depthItems chunk + 2 := by
  show max 0 (max (Json.depthItems chunk + 1) 0) + 1 = _
  rw [Nat.zero_max, Nat.max_zero]

theorem depth_completePayload (n : Nat) (digest : String) : (completePayload n digest).depth = 2 := rfl

/-- The reader after what the writer has written. -/
def readingAt (s : BatchWriting) : LineReading := ⟨s.nextSeq, s.previousHash, some s.validator⟩

theorem accept_start {n : Nat} (ha : Appendable R W a n) (hr : W.Reads R (startRecord a))
    (hshallow : (startPayload a).depth + 1 < recursionLimit) :
    acceptLine R a.originId a.causalFrontierHash ⟨a.firstSeq, a.tail.map Prod.snd, none⟩ (W.envelope (startRecord a)) =
      .ok (readingAt (started R W a)) := by
  have hsequences := ha.sequences
  have hprevious : previousHashFits (startRecord a) a.firstSeq (a.tail.map Prod.snd) = true := by
    have hsame : (startRecord a).previousRecordHash = a.tail.map Prod.snd := rfl
    unfold previousHashFits
    rw [hsame, BatchAppend.firstSeq]
    cases htail : a.tail with
    | none => rfl
    | some last =>
      obtain ⟨hseq, hhash⟩ := ha.tail last.1 last.2 htail
      simp [hhash, hseq]
  obtain ⟨f, hf, hparsed⟩ := parseNext_written ha hr ha.start hshallow rfl (Nat.succ_ne_zero _)
    (show a.firstSeq + 1 ≤ u64Max by omega) hprevious
  refine bind_eq_ok.mpr ⟨_, hparsed, bind_eq_ok.mpr ⟨_, validateStreamedBatchRecord_start rfl ?_, rfl⟩⟩
  exact bind_eq_ok.mpr ⟨a.causalFrontierHash, rfl, bind_eq_ok.mpr ⟨(), require_eq_ok.mpr rfl,
    mapError_eq_ok.mpr (newValidator ha.batchId_ne)⟩⟩

/-! ### The chunks -/

/-- A chunk that was written is read to the same validator. -/
theorem accept_chunk (ha : Appendable R W a items.length) {s t : BatchWriting} {chunk : List Json}
    (hs : s.Sound a) (hprevious : ∃ bytes, s.previousHash = some (blake3Id R bytes))
    (hlength : chunk.length ≤ defaultMaxBatchChunkItems) (hwrites : WritesChunk R W a s chunk t)
    (hroom : s.itemIndex ≤ items.length) (hr : W.Reads R (chunkRecord a s chunk))
    (hshallow : (chunkPayload s.itemIndex chunk).depth + 1 < recursionLimit) :
    acceptLine R a.originId a.causalFrontierHash (readingAt s) (W.envelope (chunkRecord a s chunk)) =
      .ok (readingAt t) := by
  have hsequence := hs.sequence
  have hchunks := hs.chunks
  have hsequences := ha.sequences
  obtain ⟨bytes, hbytes⟩ := hprevious
  have hfits : previousHashFits (chunkRecord a s chunk) s.nextSeq s.previousHash = true := by
    have hsame : (chunkRecord a s chunk).previousRecordHash = s.previousHash := rfl
    have hlater : ¬ s.nextSeq = 1 := by
      rw [hsequence, BatchAppend.firstSeq]
      omega
    unfold previousHashFits
    rw [hsame, hbytes]
    simp [ha.hashes bytes, hlater]
  have hnext : s.nextSeq + 1 ≤ u64Max := by
    rw [← hwrites.nextSeq]
    exact hwrites.sequence
  have hseq : s.nextSeq ≠ 0 := by
    rw [hsequence, BatchAppend.firstSeq]
    omega
  obtain ⟨f, hf, hparsed⟩ := parseNext_written ha hr hwrites.line hshallow rfl hseq hnext hfits
  have hfirst : ((((chunkPayload s.itemIndex chunk).mapNumbers f).get "first_item_index").bind Json.asU64) =
      some s.itemIndex := by
    rw [Json.get_mapNumbers]
    show ((Json.ofNat s.itemIndex).mapNumbers f).asU64 = _
    rw [Json.asU64_mapNumbers hf, Json.asU64_ofNat (by omega)]
  have hitems : (((chunkPayload s.itemIndex chunk).mapNumbers f).get "items").bind Json.asArray =
      some (Json.mapNumbersItems f chunk) := by
    rw [Json.get_mapNumbers]
    rfl
  refine bind_eq_ok.mpr ⟨_, hparsed, bind_eq_ok.mpr ⟨some t.validator, ?_, ?_⟩⟩
  · refine validateStreamedBatchRecord_chunk rfl hs.batchId ?_
    refine bind_eq_ok.mpr ⟨_, bind_eq_ok.mpr ⟨_, okOr_eq_ok.mpr hitems, bind_eq_ok.mpr ⟨_, okOr_eq_ok.mpr hfirst,
      bind_eq_ok.mpr ⟨(), require_eq_ok.mpr ?_, rfl⟩⟩⟩, mapError_eq_ok.mpr ?_⟩
    · rw [Json.length_mapNumbersItems]
      exact Nat.le_trans hlength (by decide)
    · rw [Json.length_mapNumbersItems]
      exact hwrites.validator
  · show Except.ok (⟨s.nextSeq + 1, some _, some t.validator⟩ : LineReading) = _
    rw [readingAt, hwrites.nextSeq, hwrites.previousHash]
    rfl

theorem WritesChunk.previous {s t : BatchWriting} {chunk : List Json} (h : WritesChunk R W a s chunk t) :
    ∃ bytes, t.previousHash = some (blake3Id R bytes) := ⟨_, h.previousHash⟩

/-- The chunks of a batch are read exactly when none is nested too far. -/
theorem accept_emits (ha : Appendable R W a items.length) {s t : BatchWriting} {chunks : List (List Json)}
    (h : (batchPacker R W a).Emits s chunks t) (hs : s.Sound a)
    (hprevious : ∃ bytes, s.previousHash = some (blake3Id R bytes)) (hroom : t.itemIndex ≤ items.length)
    (hreads : ∀ r ∈ t.records, W.Reads R r) :
    (∃ bytes, t.previousHash = some (blake3Id R bytes)) ∧ ∃ written, t.records = s.records ++ written ∧
      ∀ reading, commitAll (acceptLine R a.originId a.causalFrontierHash) (readingAt s) (written.map W.envelope) =
        .ok reading ↔ reading = readingAt t ∧ ∀ compact ∈ chunks.flatten, compact.depth ≤ 124 := by
  induction h with
  | nil s =>
    refine ⟨hprevious, [], (List.append_nil _).symm, fun reading => ?_⟩
    constructor
    · intro hread
      cases hread
      exact ⟨rfl, fun compact hcompact => absurd hcompact List.not_mem_nil⟩
    · intro hread
      rw [hread.1]
      rfl
  | @cons s t u chunk chunks hne hlength hfits hemit hrest ih =>
    have hwrites := writesChunk_of_ok hemit
    have hindex := (emits_records hrest).1
    have hstep := hwrites.itemIndex
    obtain ⟨hlast, written, hwritten, hall⟩ := ih (hs.writesChunk hne hwrites) hwrites.previous hroom hreads
    have hmem : chunkRecord a s chunk ∈ u.records := by
      rw [hwritten, hwrites.records, List.append_assoc]
      exact List.mem_append_right _ List.mem_cons_self
    have hdepth : (chunkPayload s.itemIndex chunk).depth + 1 < recursionLimit ↔ ∀ compact ∈ chunk, compact.depth ≤ 124 := by
      rw [depth_chunkPayload, ← Json.depthItems_le]
      show _ < 128 ↔ _
      omega
    refine ⟨hlast, chunkRecord a s chunk :: written, ?_, fun reading => ?_⟩
    · rw [hwritten, hwrites.records, List.append_assoc]
      rfl
    · rw [List.map_cons, commitAll_cons, List.flatten_cons]
      constructor
      · intro hread
        obtain ⟨middle, hfirst, hread⟩ := hread
        have hshallow : (chunkPayload s.itemIndex chunk).depth + 1 < recursionLimit := by
          by_contra hdeep
          exact acceptLine_deep (hreads _ hmem) (Nat.le_of_not_lt hdeep) hfirst
        have haccepted := accept_chunk ha hs hprevious hlength hwrites (by omega) (hreads _ hmem) hshallow
        rw [haccepted] at hfirst
        cases hfirst
        obtain ⟨hreading, hchunks⟩ := (hall reading).mp hread
        exact ⟨hreading, List.forall_mem_append.mpr ⟨hdepth.mp hshallow, hchunks⟩⟩
      · intro hread
        obtain ⟨hreading, hchunks⟩ := hread
        obtain ⟨hchunk, hchunks⟩ := List.forall_mem_append.mp hchunks
        exact ⟨_, accept_chunk ha hs hprevious hlength hwrites (by omega) (hreads _ hmem) (hdepth.mpr hchunk),
          (hall reading).mpr ⟨hreading, hchunks⟩⟩

/-! ### The completion -/

theorem accept_complete (ha : Appendable R W a items.length) {s : BatchWriting} (hs : s.Sound a)
    (hprevious : ∃ bytes, s.previousHash = some (blake3Id R bytes)) (hroom : s.itemIndex ≤ items.length)
    (hchunks : s.validator.chunkCount ≠ 0) (hr : W.Reads R (completeRecord a s (orderedDigest R s)))
    (hfits : (W.envelope (completeRecord a s (orderedDigest R s))).length ≤ defaultMaxV2RecordBytes) :
    ∃ reading, acceptLine R a.originId a.causalFrontierHash (readingAt s)
      (W.envelope (completeRecord a s (orderedDigest R s))) = .ok reading ∧ reading.active = none := by
  have hsequence := hs.sequence
  have hitems := hs.items
  have hsequences := ha.sequences
  have hcount := hs.chunks
  obtain ⟨bytes, hbytes⟩ := hprevious
  have hlink : previousHashFits (completeRecord a s (orderedDigest R s)) s.nextSeq s.previousHash = true := by
    have hsame : (completeRecord a s (orderedDigest R s)).previousRecordHash = s.previousHash := rfl
    have hlater : ¬ s.nextSeq = 1 := by
      rw [hsequence, BatchAppend.firstSeq]
      omega
    unfold previousHashFits
    rw [hsame, hbytes]
    simp [ha.hashes bytes, hlater]
  have hseq : s.nextSeq ≠ 0 := by
    rw [hsequence, BatchAppend.firstSeq]
    omega
  obtain ⟨f, hf, hparsed⟩ := parseNext_written ha hr hfits (by rw [depth_completePayload]; decide) rfl hseq
    (by omega) hlink
  have htotal : (((completePayload s.itemIndex (orderedDigest R s)).mapNumbers f).get "total_items").bind Json.asU64 =
      some s.itemIndex := by
    rw [Json.get_mapNumbers]
    show ((Json.ofNat s.itemIndex).mapNumbers f).asU64 = _
    rw [Json.asU64_mapNumbers hf, Json.asU64_ofNat (by omega)]
  have hdigest : (((completePayload s.itemIndex (orderedDigest R s)).mapNumbers f).get "ordered_item_digest").bind
      Json.asStr = some (orderedDigest R s) := by
    rw [Json.get_mapNumbers]
    rfl
  have hstatus : (((completePayload s.itemIndex (orderedDigest R s)).mapNumbers f).get "status").bind Json.asStr =
      some "complete" := by
    rw [Json.get_mapNumbers]
    rfl
  have hvalid : s.validator.validateCompletion R.blake3 ⟨s.itemIndex, orderedDigest R s⟩ = .ok () := by
    simp only [BatchValidator.validateCompletion, BatchValidator.orderedItemDigest, bind_eq_ok, require_eq_ok]
    exact ⟨(), hchunks, (), hs.index.symm, _, ⟨(), hchunks, rfl⟩, rfl⟩
  refine ⟨⟨s.nextSeq + 1, _, none⟩, bind_eq_ok.mpr ⟨_, hparsed, bind_eq_ok.mpr ⟨none, ?_, rfl⟩⟩, rfl⟩
  refine validateStreamedBatchRecord_complete rfl hs.batchId ?_
  exact bind_eq_ok.mpr ⟨_, okOr_eq_ok.mpr htotal, bind_eq_ok.mpr ⟨_, okOr_eq_ok.mpr hdigest,
    bind_eq_ok.mpr ⟨(), mapError_eq_ok.mpr hvalid, bind_eq_ok.mpr ⟨_, okOr_eq_ok.mpr hstatus,
      require_eq_ok.mpr rfl⟩⟩⟩⟩

/-! ### A whole batch -/

/-- The items of a batch, one for one. -/
theorem forall_compacts {compacted : List Json} (h : List.Forall₂ (Compacts a) items compacted) {P : Json → Prop} :
    (∀ i ∈ items, ∀ compact, Compacts a i compact → P compact) ↔ ∀ compact ∈ compacted, P compact := by
  induction h with
  | nil =>
    exact iff_of_true (fun i hi => absurd hi List.not_mem_nil) fun compact hcompact => absurd hcompact List.not_mem_nil
  | @cons i compact items compacted hi _ ih =>
    rw [List.forall_mem_cons, List.forall_mem_cons, ih]
    refine and_congr_left fun _ => ⟨fun hall => hall compact hi, fun hP other hother => ?_⟩
    obtain ⟨item, rfl, hcompact, -⟩ := hi
    obtain ⟨item', hitem, hcompact', -⟩ := hother
    cases hitem
    rw [hcompact] at hcompact'
    exact Except.ok.inj hcompact' ▸ hP

theorem shallow_iff {compacted : List Json} (h : List.Forall₂ (Compacts a) items compacted) : Shallow a items ↔
    (startPayload a).depth + 1 < recursionLimit ∧ ∀ compact ∈ compacted, compact.depth ≤ 124 := by
  rw [← forall_compacts h, depth_startPayload]
  constructor
  · intro hshallow
    have hcontext := hshallow.context
    have hdefaults := hshallow.defaults
    exact ⟨show _ < 128 by omega, hshallow.items⟩
  · intro hshallow
    obtain ⟨hstart, hitems⟩ := hshallow
    change _ < 128 at hstart
    exact ⟨by omega, by omega, hitems⟩

/-- The lines of a batch verify exactly when nothing is nested too far. -/
theorem verifies_packed (ha : Appendable R W a items.length) (hfits : CompletionFits R W a items)
    {s : BatchWriting} {chunks : List (List Json)} (hpacked : packed R W a items = some (.ok (s, chunks)))
    (hne : items ≠ [])
    (hreads : ∀ r ∈ s.records ++ [completeRecord a s (orderedDigest R s)], W.Reads R r) :
    Verifies R a ((s.records ++ [completeRecord a s (orderedDigest R s)]).map W.envelope) ↔ Shallow a items := by
  obtain ⟨hemits, hitems⟩ := packed_ok ha hpacked
  have hs := emits_sound hemits (started_sound ha)
  have hroom : s.itemIndex ≤ items.length := by
    rw [(emits_records hemits).1, started_itemIndex, hitems.length_eq, Nat.zero_add]
  obtain ⟨hreadsRecords, hreadsComplete⟩ := List.forall_mem_append.mp hreads
  obtain ⟨hprevious, written, hwritten, hall⟩ :=
    accept_emits ha hemits (started_sound ha) ⟨_, rfl⟩ hroom hreadsRecords
  have hchunks : s.validator.chunkCount ≠ 0 := by
    intro hzero
    have hcomplete := completeBatch_eq ha hs hroom (hfits s chunks hpacked)
    rcases completed ha hfits hpacked with ⟨hempty, -⟩ | ⟨-, hok⟩
    · exact hne hempty
    · rw [hok, if_pos hzero] at hcomplete
      split at hcomplete
      · cases hcomplete
      · cases hcomplete
  have hstartReads : W.Reads R (startRecord a) := by
    refine hreadsRecords _ ?_
    rw [hwritten]
    exact List.mem_append_left _ (List.mem_singleton.mpr rfl)
  obtain ⟨reading, hcomplete, hdone⟩ := accept_complete ha hs hprevious hroom hchunks
    (hreadsComplete _ (List.mem_singleton.mpr rfl)) (hfits s chunks hpacked)
  have hlines : (s.records ++ [completeRecord a s (orderedDigest R s)]).map W.envelope =
      W.envelope (startRecord a) :: (written.map W.envelope ++ [W.envelope (completeRecord a s (orderedDigest R s))]) := by
    rw [hwritten, List.map_append, List.map_append]
    rfl
  rw [shallow_iff hitems, Verifies, hlines]
  constructor
  · intro hverifies
    obtain ⟨last, hread, -⟩ := hverifies
    obtain ⟨first, hfirst, hread⟩ := (commitAll_cons _).mp hread
    have hshallow : (startPayload a).depth + 1 < recursionLimit := by
      by_contra hdeep
      exact acceptLine_deep hstartReads (Nat.le_of_not_lt hdeep) hfirst
    rw [accept_start ha hstartReads hshallow] at hfirst
    cases hfirst
    obtain ⟨middle, hmiddle, -⟩ := (commitAll_append _).mp hread
    exact ⟨hshallow, ((hall middle).mp hmiddle).2⟩
  · intro hshallow
    refine ⟨reading, (commitAll_cons _).mpr ⟨_, accept_start ha hstartReads hshallow.1,
      (commitAll_append _).mpr ⟨_, (hall _).mpr ⟨rfl, hshallow.2⟩, (commitAll_cons _).mpr ⟨reading, hcomplete, rfl⟩⟩⟩, hdone⟩

/-- **A batch is packed without loss and verifies exactly when it is shallow.**  An append ends; it is
refused for its items alone, or its records are the compacted items in order, and they are read back
unless something in them is nested too far. -/
theorem append_verifies_iff (ha : Appendable R W a items.length) (hfits : CompletionFits R W a items)
    (hreads : ∀ records, appendRecords R W a (items.length + 1) items = some (.ok records) →
      ∀ r ∈ records, W.Reads R r) :
    ∃ outcome, appendRecords R W a (items.length + 1) items = some outcome ∧
      (∀ e, outcome = .error e → Refusal R W a items e) ∧
      ∀ records, outcome = .ok records → (∃ chunks, Lossless W a items records chunks) ∧
        (Verifies R a (records.map W.envelope) ↔ Shallow a items) := by
  obtain ⟨result, hresult⟩ := packed_total ha items
  have houtcome := appendRecords_eq ha items
  rw [hresult, Option.map_some] at houtcome
  refine ⟨_, houtcome, ?_⟩
  cases result with
  | error e =>
    refine ⟨fun e' he => ?_, fun records h => ?_⟩
    · cases he
      exact packed_error ha hresult
    · cases h
  | ok written =>
    obtain ⟨s, chunks⟩ := written
    rcases completed ha hfits hresult with ⟨hempty, hcomplete⟩ | ⟨hne, hcomplete⟩
    · refine ⟨fun e he => ?_, fun records h => ?_⟩
      · cases hcomplete.symm.trans he
        exact .empty hempty
      · cases hcomplete.symm.trans h
    · refine ⟨fun e he => ?_, fun records h => ?_⟩
      · cases hcomplete.symm.trans he
      · have hrecords := hcomplete.symm.trans h
        cases hrecords
        refine ⟨⟨chunks, lossless_of_packed ha hfits hresult⟩, verifies_packed ha hfits hresult hne ?_⟩
        exact hreads _ (houtcome.trans (congrArg some hcomplete))

deriving instance DecidableEq for V2RecordEnvelope

namespace BatchSample

/-! ### Records of a batch -/

mutual

/-- Compact JSON, of values whose texts need no escapes. -/
def render : Json → Bytes
  | .null => utf8 "null"
  | .bool b => if b then utf8 "true" else utf8 "false"
  | .num text => utf8 text
  | .str text => 34 :: (utf8 text ++ [34])
  | .arr items => 91 :: (renderItems [] items ++ [93])
  | .obj fields => 123 :: (renderFields [] fields ++ [125])

def renderItems (comma : Bytes) : List Json → Bytes
  | [] => []
  | v :: l => comma ++ (render v ++ renderItems [44] l)

def renderFields (comma : Bytes) : List (String × Json) → Bytes
  | [] => []
  | (k, v) :: l => comma ++ (34 :: (utf8 k ++ (34 :: 58 :: (render v ++ renderFields [44] l))))

end

def kindName : V2RecordKind → String
  | .batchStart => "batch_start"
  | .batchChunk => "batch_chunk"
  | .batchComplete => "batch_complete"

/-- The fields of a record up to the hash of the one before it. -/
def opening (originId : String) (seq : Nat) (recordId : String) (kind : V2RecordKind) (time : Nat)
    (batchId : String) : Bytes :=
  123 :: renderFields [] [
    ("v", .ofNat v2RecordVersion),
    ("origin_id", .str originId),
    ("origin_seq", .ofNat seq),
    ("record_id", .str recordId),
    ("record_kind", .str (kindName kind)),
    ("time_utc_ms", .ofNat time),
    ("batch_id", .str batchId)]

def envelope (r : V2RecordEnvelope) : Bytes :=
  opening r.originId r.originSeq r.recordId r.recordKind r.timeUtcMs r.batchId ++
    (utf8 ",\"previous_record_hash\":" ++ (render ((r.previousRecordHash.map Json.str).getD .null) ++
      (utf8 ",\"payload\":" ++ (render r.payload ++ [125]))))

def writer : RecordWriter := ⟨envelope, render⟩

def hashId (bytes : Bytes) : String := "blake3:" ++ Sample.hash bytes

def zeros : String := String.ofList (List.replicate 64 '0')

/-- A first batch of an origin. -/
def firstBatch : BatchAppend where
  originId := "origin_" ++ zeros
  tail := none
  batchId := "batch_01arz3ndektsv4rrffq69g5fav"
  recordId _ := "rec_01arz3ndektsv4rrffq69g5fav"
  timeUtcMs := 1
  operationKind := "note"
  itemSchemaVersion := 1
  causalFrontierHash := "blake3:" ++ zeros
  context := .obj []
  defaults := .obj []

/-- The hash is a toy, and it reads the lines of these records, to the depth of the JSON reader. -/
def runtime (records : List V2RecordEnvelope) : StoreRuntime where
  blake3 := Sample.hash
  validKey _ := false
  verifyStrict _ _ _ := false
  ulid text := text.length = 26
  readGenesis _ := none
  writeGenesis _ := []
  writeGenesisBody _ := []
  readFrontier _ := none
  writeFrontier _ := []
  readManifest _ := none
  writeManifest _ := []
  writeManifestBody _ := []
  readEnvelope line := (records.find? fun r => envelope r = line).filter fun r =>
    r.payload.depth + 1 < recursionLimit
  readLease _ := .error ""
  writeLeaseBody _ := []

variable {records : List V2RecordEnvelope}

theorem appendable {n : Nat} (hn : n ≤ 2) : Appendable (runtime records) writer firstBatch n where
  admitted := rfl
  origin := by decide +kernel
  tail := nofun
  batch := by
    show isPrefixedLowercaseUlid (runtime []) firstBatch.batchId "batch_" = true
    decide +kernel
  ids _ := by
    show isPrefixedLowercaseUlid (runtime []) "rec_01arz3ndektsv4rrffq69g5fav" "rec_" = true
    decide +kernel
  hashes := Sample.hash_isBlake3Identifier
  start := by decide +kernel
  sequences := le_trans (by omega : firstBatch.firstSeq + n + 2 ≤ firstBatch.firstSeq + 4) (by decide +kernel)
  bytes := le_trans (Nat.mul_le_mul_right _ (by omega : n + 2 ≤ 4)) (by decide +kernel)

/-- An append does not read. -/
theorem appendRecords_congr {R R' : StoreRuntime} (h : R.blake3 = R'.blake3) (W : RecordWriter) (a : BatchAppend)
    (rounds : Nat) (items : List (StoreResult Json)) :
    appendRecords R W a rounds items = appendRecords R' W a rounds items := by
  unfold appendRecords startBatch batchPacker writeChunk completeBatch blake3Id
  rw [h]

/-! ### Lines -/

/-- Text without an end of line. -/
def Plain (bytes : Bytes) : Prop := 10 ∉ bytes ∧ 13 ∉ bytes

instance (bytes : Bytes) : Decidable (Plain bytes) := inferInstanceAs (Decidable (_ ∧ _))

theorem plain_append {a b : Bytes} : Plain (a ++ b) ↔ Plain a ∧ Plain b := by
  simp only [Plain, List.mem_append, not_or]
  tauto

theorem plain_of_lowerHex {bytes : Bytes} (h : bytes.all isLowerHex = true) : Plain bytes := by
  have hten : isLowerHex 10 = false := by decide
  have hthirteen : isLowerHex 13 = false := by decide
  rw [List.all_eq_true] at h
  constructor
  · intro hmem
    rw [h _ hmem] at hten
    cases hten
  · intro hmem
    rw [h _ hmem] at hthirteen
    cases hthirteen

/-- What begins a line of the batch. -/
def lineOpening (seq : Nat) (kind : V2RecordKind) : Bytes :=
  opening firstBatch.originId seq "rec_01arz3ndektsv4rrffq69g5fav" kind 1 firstBatch.batchId

/-- The payload of a completion up to its digest, and from there to its number of items. -/
def completeOpening : Bytes :=
  123 :: (renderFields [] [("coverage", .null), ("errors", .arr [])] ++
    44 :: 34 :: (utf8 "ordered_item_digest" ++ [34, 58, 34]))

def completeClosing : Bytes :=
  34 :: (renderFields [44] [("status", .str "complete")] ++ 44 :: 34 :: (utf8 "total_items" ++ [34, 58]))

/-- What evaluation finds of the texts that do not depend on the items. -/
@[mk_iff]
structure Evaluated : Prop where
  algorithm : (utf8 "blake3:").length = 7 ∧ Plain (utf8 "blake3:")
  previous : (utf8 ",\"previous_record_hash\":").length = 24 ∧ Plain (utf8 ",\"previous_record_hash\":")
  payload : (utf8 ",\"payload\":").length = 11 ∧ Plain (utf8 ",\"payload\":")
  first : (utf8 "first_item_index").length = 16 ∧ Plain (utf8 "first_item_index")
  items : (utf8 "items").length = 5 ∧ Plain (utf8 "items")
  opening : completeOpening.length ≤ 100 ∧ Plain completeOpening
  closing : completeClosing.length ≤ 100 ∧ Plain completeClosing
  null : (utf8 "null").length = 4 ∧ Plain (utf8 "null")
  keys : ∀ key ∈ ["a", "b"], (utf8 key).length = 1 ∧ Plain (utf8 key)
  numbers : ∀ n < 3, (utf8 n.repr).length = 1 ∧ Plain (utf8 n.repr)
  start : Plain (envelope (startRecord firstBatch))
  chunks : ∀ seq < 4, 200 ≤ (lineOpening seq .batchChunk).length ∧ (lineOpening seq .batchChunk).length ≤ 1000 ∧
    Plain (lineOpening seq .batchChunk)
  completions : ∀ seq < 5, 200 ≤ (lineOpening seq .batchComplete).length ∧
    (lineOpening seq .batchComplete).length ≤ 1000 ∧ Plain (lineOpening seq .batchComplete)
  apart : ([(envelope (startRecord firstBatch)), lineOpening 2 .batchChunk, lineOpening 3 .batchChunk,
    lineOpening 3 .batchComplete, lineOpening 4 .batchComplete].map (List.take 200)).Nodup

theorem evaluated : Evaluated := evaluated_iff.mpr (by decide +kernel)

theorem utf8_hashId (bytes : Bytes) : (utf8 (hashId bytes)).length = 71 ∧ Plain (utf8 (hashId bytes)) := by
  have hid : isBlake3Identifier (hashId bytes) = true := Sample.hash_isBlake3Identifier bytes
  unfold isBlake3Identifier at hid
  obtain ⟨hex, hhex, h64⟩ := (Option.any_eq_true _ _).mp hid
  unfold isLowerHex64 at h64
  rw [Bool.and_eq_true, decide_eq_true_eq] at h64
  rw [stripPrefix_eq_some.mp hhex, List.length_append, h64.1, plain_append]
  exact ⟨by rw [evaluated.algorithm.1], evaluated.algorithm.2, plain_of_lowerHex h64.2⟩

/-- A later line of the batch. -/
theorem envelope_later (seq : Nat) (kind : V2RecordKind) (payload : Json) (bytes : Bytes) :
    envelope (firstBatch.record seq (some (hashId bytes)) kind payload) = lineOpening seq kind ++
      (utf8 ",\"previous_record_hash\":" ++ (34 :: (utf8 (hashId bytes) ++ [34]) ++
        (utf8 ",\"payload\":" ++ (render payload ++ [125])))) := rfl

/-- Its length. -/
theorem length_later (seq : Nat) (kind : V2RecordKind) (payload : Json) (bytes : Bytes) :
    (envelope (firstBatch.record seq (some (hashId bytes)) kind payload)).length =
      (lineOpening seq kind).length + 109 + (render payload).length := by
  rw [envelope_later]
  simp only [List.length_append, List.length_cons, List.length_nil, evaluated.previous.1, evaluated.payload.1,
    (utf8_hashId bytes).1]
  omega

theorem plain_later {seq : Nat} {kind : V2RecordKind} {payload : Json} {bytes : Bytes}
    (hopening : Plain (lineOpening seq kind)) (hpayload : Plain (render payload)) :
    Plain (envelope (firstBatch.record seq (some (hashId bytes)) kind payload)) := by
  have hquote : Plain [34] := by decide
  rw [envelope_later, ← List.singleton_append]
  simp only [plain_append]
  exact ⟨hopening, evaluated.previous.2, ⟨hquote, (utf8_hashId bytes).2, hquote⟩, evaluated.payload.2, hpayload,
    by decide⟩

theorem find_of_nodup {l : List V2RecordEnvelope} (h : (l.map envelope).Nodup) {r : V2RecordEnvelope} (hr : r ∈ l) :
    l.find? (fun q => envelope q = envelope r) = some r := by
  induction l with
  | nil => cases hr
  | cons q l ih =>
    obtain ⟨hq, hl⟩ := List.nodup_cons.mp h
    rcases List.mem_cons.mp hr with rfl | hr
    · rw [List.find?_cons_of_pos (by simp)]
    · have hne : envelope q ≠ envelope r := fun heq => hq (heq ▸ List.mem_map_of_mem hr)
      rw [List.find?_cons_of_neg (by simpa using hne), ih hl hr]

/-- Lines that differ are read back. -/
theorem reads_of_mem (h : (records.map envelope).Nodup) {r : V2RecordEnvelope} (hr : r ∈ records)
    (hplain : Plain (envelope r)) (hpayload : r.payload.mapNumbers id = r.payload) : writer.Reads (runtime records) r := by
  have hread : (runtime records).readEnvelope (envelope r) =
      (some r).filter fun r => r.payload.depth + 1 < recursionLimit := by
    rw [← find_of_nodup h hr]
    rfl
  refine ⟨?_, fun hshallow => ⟨id, fun text => Or.inl rfl, ?_⟩, fun hdeep => ?_⟩
  · show (!(envelope r).contains 10 && !(envelope r).contains 13) = true
    simpa [Plain] using hplain
  · rw [hpayload]
    exact hread.trans (Option.filter_some_pos (by simpa using hshallow))
  · exact hread.trans (Option.filter_some_neg (by simpa using hdeep))

/-! ### Chunks of one item -/

theorem length_chunk (n : Nat) (item : Json) :
    (render (chunkPayload n [item])).length = (utf8 n.repr).length + (render item).length + 32 := by
  simp only [chunkPayload, Json.ofNat, render, renderFields, renderItems, List.length_append, List.length_cons,
    List.length_nil, evaluated.first.1, evaluated.items.1]
  omega

theorem plain_chunk {n : Nat} {item : Json} (h : n < 3) (hitem : Plain (render item)) :
    Plain (render (chunkPayload n [item])) := by
  have hn := (evaluated.numbers n h).2
  have hfirst := evaluated.first.2
  have hitems := evaluated.items.2
  unfold Plain at *
  simp only [chunkPayload, Json.ofNat, render, renderFields, renderItems, List.mem_append, List.mem_cons,
    List.not_mem_nil, hn, hitem, hfirst, hitems, or_false, false_or]
  decide

def chunkOf (seq index : Nat) (bytes : Bytes) (item : Json) : V2RecordEnvelope :=
  firstBatch.record seq (some (hashId bytes)) .batchChunk (chunkPayload index [item])

theorem chunkOf_fits {seq index : Nat} {bytes : Bytes} {item : Json} (hseq : seq < 4) (hindex : index < 3)
    (hlength : (render item).length ≤ 1000000) :
    (envelope (chunkOf seq index bytes item)).length ≤ defaultMaxV2RecordBytes := by
  have hopening := (evaluated.chunks seq hseq).2.1
  rw [chunkOf, length_later, length_chunk, (evaluated.numbers index hindex).1]
  show _ ≤ 1048576
  omega

/-- How far the batch is written. -/
structure WrittenTo (s : BatchWriting) (seq index : Nat) (previous : Bytes) (records : List V2RecordEnvelope) : Prop where
  sound : s.Sound firstBatch
  nextSeq : s.nextSeq = seq
  itemIndex : s.itemIndex = index
  previousHash : s.previousHash = some (hashId previous)
  records : s.records = records

theorem writtenTo_start : WrittenTo (started (runtime []) writer firstBatch) 2 0 (envelope (startRecord firstBatch))
    [startRecord firstBatch] :=
  ⟨started_sound (appendable (le_refl 2)), rfl, rfl, rfl, rfl⟩

theorem WrittenTo.chunkRecord {s : BatchWriting} {seq index : Nat} {previous : Bytes} (h : WrittenTo s seq index previous records)
    (item : Json) : chunkRecord firstBatch s [item] = chunkOf seq index previous item := by
  rw [ArchiveLedger.chunkRecord, h.nextSeq, h.itemIndex, h.previousHash]
  rfl

theorem WrittenTo.write {s : BatchWriting} {seq index : Nat} {previous : Bytes} (h : WrittenTo s seq index previous records)
    {item : Json} (hfits : (envelope (chunkOf seq index previous item)).length ≤ defaultMaxV2RecordBytes) (hindex : index ≤ 1) :
    ∃ t, (batchPacker (runtime []) writer firstBatch).emit s [item] = .ok t ∧
      WrittenTo t (seq + 1) (index + 1) (envelope (chunkOf seq index previous item))
        (records ++ [chunkOf seq index previous item]) := by
  have hline : (writer.envelope (ArchiveLedger.chunkRecord firstBatch s [item])).length ≤ defaultMaxV2RecordBytes := by
    rw [h.chunkRecord]
    exact hfits
  obtain ⟨t, ht⟩ := writeChunk_isOk (appendable (le_refl 2)) h.sound (List.cons_ne_nil item []) (by show 1 ≤ 1000; decide)
    hline (by rw [h.itemIndex]; show index + 1 ≤ 2; omega)
  have hwrites := writesChunk_of_ok ht
  refine ⟨t, ht, h.sound.writesChunk (List.cons_ne_nil _ _) hwrites, ?_, ?_, ?_, ?_⟩
  · rw [hwrites.nextSeq, h.nextSeq]
  · rw [hwrites.itemIndex, h.itemIndex]
    rfl
  · rw [hwrites.previousHash, h.chunkRecord]
    rfl
  · rw [hwrites.records, h.records, h.chunkRecord]

/-- What is left is packed into one chunk. -/
theorem WrittenTo.pack {s : BatchWriting} {seq index : Nat} {previous : Bytes} (h : WrittenTo s seq index previous records)
    {item : Json} (hfits : (envelope (chunkOf seq index previous item)).length ≤ defaultMaxV2RecordBytes)
    (hprepare : prepareItem firstBatch s item = .ok item) {q : Queue V2StoreError Json}
    (hnext : q.next = (some (.ok item), ⟨[], [], false⟩)) :
    (batchPacker (runtime []) writer firstBatch).pack s q = .ok (some ([item], ⟨[], [], true⟩)) := by
  have hfill : (batchPacker (runtime []) writer firstBatch).fill s 1000 [] 0 q = .ok ([item], ⟨[], [], true⟩) := by
    rw [Packer.fill_taken hnext hprepare (Or.inl rfl)]
    rfl
  have hfits : (batchPacker (runtime []) writer firstBatch).fits s [item] = true := by
    refine decide_eq_true ?_
    rw [h.chunkRecord]
    exact hfits
  exact Packer.pack_single hfill hfits

theorem render_complete (n : Nat) (digested : Bytes) : render (completePayload n (hashId digested)) =
    completeOpening ++ (utf8 (hashId digested) ++ (completeClosing ++ (utf8 n.repr ++ [125]))) := by
  simp only [completePayload, completeOpening, completeClosing, Json.ofNat, render, renderFields, renderItems,
    List.nil_append, List.cons_append, List.append_assoc, List.append_nil]

def completionOf (seq n : Nat) (bytes digested : Bytes) : V2RecordEnvelope :=
  firstBatch.record seq (some (hashId bytes)) .batchComplete (completePayload n (hashId digested))

theorem completionOf_fits {seq n : Nat} {bytes digested : Bytes} (hseq : seq < 5) (hn : n < 3) :
    (envelope (completionOf seq n bytes digested)).length ≤ defaultMaxV2RecordBytes := by
  have hopening := (evaluated.completions seq hseq).2.1
  have hopens := evaluated.opening.1
  have hcloses := evaluated.closing.1
  rw [completionOf, length_later, render_complete]
  simp only [List.length_append, (utf8_hashId _).1, (evaluated.numbers n hn).1, List.length_singleton]
  show _ ≤ 1048576
  omega

theorem plain_complete {n : Nat} (hn : n < 3) (digested : Bytes) :
    Plain (render (completePayload n (hashId digested))) := by
  simp only [render_complete, plain_append]
  exact ⟨evaluated.opening.2, (utf8_hashId digested).2, evaluated.closing.2, (evaluated.numbers n hn).2, by decide⟩

theorem WrittenTo.complete {s : BatchWriting} {seq index : Nat} {previous : Bytes} (h : WrittenTo s seq index previous records)
    (hseq : seq < 5) (hpositive : index ≠ 0) (hle : index ≤ 2) (hrecords : records.length ≠ 1) :
    completeBatch (runtime []) writer firstBatch s =
      .ok (records ++ [completionOf seq index previous s.validator.digest]) := by
  have hcompletion : completeRecord firstBatch s (orderedDigest (runtime []) s) =
      completionOf seq index previous s.validator.digest := by
    rw [completeRecord, h.nextSeq, h.itemIndex, h.previousHash]
    rfl
  have hfits : (writer.envelope (completeRecord firstBatch s (orderedDigest (runtime []) s))).length ≤
      defaultMaxV2RecordBytes := by
    rw [hcompletion]
    exact completionOf_fits hseq (Nat.lt_succ_of_le hle)
  have hcount := h.sound.chunks
  rw [h.records] at hcount
  rw [completeBatch_eq (appendable (le_refl 2)) h.sound (by rw [h.itemIndex]; exact hle) hfits, h.itemIndex,
    if_neg hpositive, if_neg (by omega), h.records, hcompletion]

/-- Lines of the batch differ where their sequences and kinds stand. -/
theorem take_later {seq : Nat} {kind : V2RecordKind} (hlength : 200 ≤ (lineOpening seq kind).length) (payload : Json)
    (bytes : Bytes) : (envelope (firstBatch.record seq (some (hashId bytes)) kind payload)).take 200 =
      (lineOpening seq kind).take 200 := by
  rw [envelope_later, List.take_append_of_le_length hlength]

/-- A chunk of one item is read back. -/
theorem reads_chunkOf {seq index : Nat} {bytes : Bytes} {item : Json} (h : (records.map envelope).Nodup)
    (hr : chunkOf seq index bytes item ∈ records) (hseq : seq < 4) (hindex : index < 3) (hitem : Plain (render item))
    (hnumbers : item.mapNumbers id = item) : writer.Reads (runtime records) (chunkOf seq index bytes item) := by
  refine reads_of_mem h hr (plain_later (evaluated.chunks seq hseq).2.2 (plain_chunk hindex hitem)) ?_
  show (chunkPayload index [item]).mapNumbers id = chunkPayload index [item]
  simp only [chunkPayload, Json.ofNat, Json.mapNumbers, Json.mapNumbersFields, Json.mapNumbersItems, id_eq, hnumbers]

theorem reads_completionOf {seq n : Nat} {bytes digested : Bytes} (h : (records.map envelope).Nodup)
    (hr : completionOf seq n bytes digested ∈ records) (hseq : seq < 5) (hn : n < 3) :
    writer.Reads (runtime records) (completionOf seq n bytes digested) :=
  reads_of_mem h hr (plain_later (evaluated.completions seq hseq).2.2 (plain_complete hn digested)) rfl

/-! ### A long batch -/

def named (key text : String) : Json := .obj [(key, .str text)]

def pair (text : String) : List (StoreResult Json) := [.ok (named "a" text), .ok (named "b" text)]

/-- The first item is in a chunk of its own, and so is the second one. -/
def firstChunk (text : String) : V2RecordEnvelope := chunkOf 2 0 (envelope (startRecord firstBatch)) (named "a" text)

def secondChunk (text : String) : V2RecordEnvelope := chunkOf 3 1 (envelope (firstChunk text)) (named "b" text)

def pairRecords (text : String) (digested : Bytes) : List V2RecordEnvelope :=
  [startRecord firstBatch, firstChunk text, secondChunk text, completionOf 4 2 (envelope (secondChunk text)) digested]

section

variable {text : String}

theorem length_named {key : String} (hlength : (utf8 text).length = 600000) (hkey : key ∈ ["a", "b"]) :
    (render (named key text)).length = 600008 := by
  simp only [named, render, renderFields, List.length_append, List.length_cons, List.length_nil, hlength,
    (evaluated.keys key hkey).1]

theorem plain_named {key : String} (htext : Plain (utf8 text)) (hkey : key ∈ ["a", "b"]) :
    Plain (render (named key text)) := by
  have hkey := (evaluated.keys key hkey).2
  unfold Plain at *
  simp only [named, render, renderFields, List.mem_append, List.mem_cons, List.not_mem_nil, htext, hkey, or_false, false_or]
  decide

/-- The second item goes back. -/
theorem pack_first (hlength : (utf8 text).length = 600000) :
    (batchPacker (runtime []) writer firstBatch).pack (started (runtime []) writer firstBatch) (.ofSource (pair text)) =
      .ok (some ([named "a" text], ⟨[named "b" text], [], false⟩)) := by
  have hfill : (batchPacker (runtime []) writer firstBatch).fill (started (runtime []) writer firstBatch) 1000 [] 0
      (.ofSource (pair text)) = .ok ([named "a" text], ⟨[named "b" text], [], false⟩) := by
    have hfirst : (Queue.ofSource (pair text)).next =
        (some (.ok (named "a" text)), ⟨[], [.ok (named "b" text)], false⟩) := rfl
    have hsecond : (⟨[], [.ok (named "b" text)], false⟩ : Queue V2StoreError Json).next =
        (some (.ok (named "b" text)), ⟨[], [], false⟩) := rfl
    have hprepare : ∀ key, (batchPacker (runtime []) writer firstBatch).prepare
        (started (runtime []) writer firstBatch) (named key text) = .ok (named key text) := fun _ => rfl
    have hweight : ∀ key ∈ ["a", "b"],
        (batchPacker (runtime []) writer firstBatch).weight (named key text) = 600009 :=
      fun key hkey => congrArg Nat.succ (length_named hlength hkey)
    rw [Packer.fill_taken hfirst (hprepare "a") (Or.inl rfl)]
    refine Packer.fill_back hsecond (hprepare "b") (List.cons_ne_nil _ _) ?_
    rw [hweight "a" (by simp), hweight "b" (by simp)]
    decide
  have hfits : (batchPacker (runtime []) writer firstBatch).fits (started (runtime []) writer firstBatch)
      [named "a" text] = true := by
    refine decide_eq_true ?_
    rw [writtenTo_start.chunkRecord]
    exact chunkOf_fits (by decide) (by decide) (by rw [length_named hlength (by simp)]; omega)
  exact Packer.pack_single hfill hfits

theorem pair_appended (hlength : (utf8 text).length = 600000) : ∃ digested,
    appendRecords (runtime []) writer firstBatch ((pair text).length + 1) (pair text) =
      some (.ok (pairRecords text digested)) := by
  have hfits : ∀ key ∈ ["a", "b"], (render (named key text)).length ≤ 1000000 := by
    intro key hkey
    rw [length_named hlength hkey]
    omega
  obtain ⟨s, hfirst, hs⟩ := writtenTo_start.write
    (chunkOf_fits (by decide) (by decide) (hfits "a" (by simp))) (by decide)
  have hfits' : (envelope (secondChunk text)).length ≤ defaultMaxV2RecordBytes :=
    chunkOf_fits (by decide) (by decide) (hfits "b" (by simp))
  obtain ⟨t, hsecond, ht⟩ := hs.write hfits' (by decide)
  have hpacked : packed (runtime []) writer firstBatch (pair text) =
      some (.ok (t, [[named "a" text], [named "b" text]])) := by
    have hback : (batchPacker (runtime []) writer firstBatch).pack s ⟨[named "b" text], [], false⟩ =
        .ok (some ([named "b" text], ⟨[], [], true⟩)) := hs.pack hfits' rfl rfl
    have hend : (batchPacker (runtime []) writer firstBatch).pack t ⟨[], [], true⟩ = .ok none := rfl
    show Packer.loop _ (2 + 1) _ _ = _
    rw [Packer.loop_step (pack_first hlength) hfirst, Packer.loop_step hback hsecond, Packer.loop_end hend]
    rfl
  refine ⟨t.validator.digest, ?_⟩
  rw [appendRecords_eq (appendable (le_refl 2)), hpacked]
  exact congrArg some (ht.complete (by decide) (by decide) (le_refl 2) (by simp))

theorem reads_pair (hplain : Plain (utf8 text)) (digested : Bytes) :
    ∀ r ∈ pairRecords text digested, writer.Reads (runtime (pairRecords text digested)) r := by
  have hnodup : ((pairRecords text digested).map envelope).Nodup := by
    refine List.Nodup.of_map (List.take 200) (evaluated.apart.sublist ?_)
    simp only [pairRecords, List.map_cons, List.map_nil, firstChunk, secondChunk, chunkOf, completionOf]
    rw [take_later (evaluated.chunks 2 (by decide)).1, take_later (evaluated.chunks 3 (by decide)).1,
      take_later (evaluated.completions 4 (by decide)).1]
    exact ((((List.Sublist.refl _).cons _).cons_cons _).cons_cons _).cons_cons _
  intro r hr
  have hfour := hr
  simp only [pairRecords, List.mem_cons, List.not_mem_nil, or_false] at hfour
  rcases hfour with rfl | rfl | rfl | rfl
  · exact reads_of_mem hnodup hr evaluated.start rfl
  · exact reads_chunkOf hnodup hr (by decide) (by decide) (plain_named hplain (by simp)) rfl
  · exact reads_chunkOf hnodup hr (by decide) (by decide) (plain_named hplain (by simp)) rfl
  · exact reads_completionOf hnodup hr (by decide) (by decide)

theorem shallow_pair : Shallow firstBatch (pair text) where
  context := by decide
  defaults := by decide
  items := by
    have hcompact : ∀ {key : String} {compact : Json}, Compacts firstBatch (.ok (named key text)) compact →
        compact.depth ≤ 124 := by
      rintro key compact ⟨item, hitem, hcompact, -⟩
      cases hitem
      cases hcompact
      show 1 ≤ 124
      decide
    simp only [pair, List.forall_mem_cons, List.not_mem_nil, false_imp_iff, implies_true, and_true]
    exact ⟨fun _ => hcompact, fun _ => hcompact⟩

end

theorem utf8_replicate (n : Nat) : utf8 (String.ofList (List.replicate n 'x')) = List.replicate n 120 := by
  rw [utf8_eq, String.toList_ofList]
  induction n with
  | zero => rfl
  | succ n ih =>
    rw [List.replicate_succ, List.replicate_succ, List.flatMap_cons, ih]
    rfl

/-- **The second of two long items goes back and is packed alone**, and the batch verifies. -/
theorem pair_verifies : ∃ (text : String) (records : List V2RecordEnvelope) (digest : String),
    appendRecords (runtime records) writer firstBatch ((pair text).length + 1) (pair text) = some (.ok records) ∧
    records.map V2RecordEnvelope.payload = [startPayload firstBatch, chunkPayload 0 [named "a" text],
      chunkPayload 1 [named "b" text], completePayload 2 digest] ∧
    Verifies (runtime records) firstBatch (records.map writer.envelope) := by
  obtain ⟨text, hx⟩ : ∃ text, utf8 text = List.replicate 600000 120 := ⟨_, utf8_replicate 600000⟩
  have hlength : (utf8 text).length = 600000 := by rw [hx, List.length_replicate]
  have hplain : Plain (utf8 text) := by
    rw [hx]
    exact ⟨fun h => absurd (List.eq_of_mem_replicate h) (by decide),
      fun h => absurd (List.eq_of_mem_replicate h) (by decide)⟩
  obtain ⟨digested, happended⟩ := pair_appended hlength
  have hblake3 : (runtime (pairRecords text digested)).blake3 = (runtime []).blake3 := rfl
  rw [← appendRecords_congr hblake3] at happended
  refine ⟨text, pairRecords text digested, hashId digested, happended, rfl, ?_⟩
  have ha : Appendable (runtime (pairRecords text digested)) writer firstBatch (pair text).length :=
    appendable (le_refl 2)
  have hreads : ∀ records, appendRecords (runtime (pairRecords text digested)) writer firstBatch
      ((pair text).length + 1) (pair text) = some (.ok records) →
      ∀ r ∈ records, writer.Reads (runtime (pairRecords text digested)) r := by
    intro records hrecords
    rw [happended] at hrecords
    cases hrecords
    exact reads_pair hplain digested
  obtain ⟨outcome, houtcome, -, hok⟩ := append_verifies_iff ha (completionFits_of_appended ha happended) hreads
  rw [happended] at houtcome
  exact (hok _ (Option.some.inj houtcome).symm).2.mpr shallow_pair

/-! ### A deep batch -/

/-- Arrays in arrays. -/
def nested : Nat → Json
  | 0 => .null
  | n + 1 => .arr [nested n]

/-- An object of depth 125. -/
def deepItem : Json := .obj [("a", nested 124)]

def deepChunk : V2RecordEnvelope := chunkOf 2 0 (envelope (startRecord firstBatch)) deepItem

def deepRecords (digested : Bytes) : List V2RecordEnvelope :=
  [startRecord firstBatch, deepChunk, completionOf 3 1 (envelope deepChunk) digested]

theorem render_nested (n : Nat) : (render (nested n)).length = 2 * n + 4 ∧ Plain (render (nested n)) := by
  induction n with
  | zero => exact evaluated.null
  | succ n ih =>
    obtain ⟨hlength, hplain⟩ := ih
    have hrender : render (nested (n + 1)) = [91] ++ (render (nested n) ++ [93]) := by
      simp only [nested, render, renderItems, List.append_nil, List.nil_append, List.singleton_append]
    rw [hrender, plain_append, plain_append]
    refine ⟨?_, by decide, hplain, by decide⟩
    rw [List.length_append, List.length_append, hlength, List.length_singleton, List.length_singleton]
    omega

theorem mapNumbers_nested (n : Nat) : (nested n).mapNumbers id = nested n := by
  induction n with
  | zero => rfl
  | succ n ih => rw [nested, Json.mapNumbers, Json.mapNumbersItems, ih, Json.mapNumbersItems]

theorem render_deepItem : (render deepItem).length = 258 ∧ Plain (render deepItem) := by
  obtain ⟨hlength, hplain⟩ := render_nested 124
  have hrender : render deepItem = [123, 34] ++ (utf8 "a" ++ ([34, 58] ++ (render (nested 124) ++ [125]))) := by
    simp only [deepItem, render, renderFields, List.append_nil, List.nil_append, List.cons_append, List.append_assoc]
  obtain ⟨hkey, hkeyPlain⟩ := evaluated.keys "a" (by simp)
  rw [hrender]
  simp only [List.length_append, hlength, hkey, plain_append, List.length_cons, List.length_nil]
  exact ⟨trivial, by decide, hkeyPlain, by decide, hplain, by decide⟩

theorem deep_appended : ∃ digested,
    appendRecords (runtime []) writer firstBatch 2 [.ok deepItem] = some (.ok (deepRecords digested)) := by
  have hfits : (envelope deepChunk).length ≤ defaultMaxV2RecordBytes :=
    chunkOf_fits (by decide) (by decide) (by rw [render_deepItem.1]; omega)
  obtain ⟨s, hwrite, hs⟩ := writtenTo_start.write hfits (by decide)
  have hpacked : packed (runtime []) writer firstBatch [.ok deepItem] = some (.ok (s, [[deepItem]])) := by
    have hpack : (batchPacker (runtime []) writer firstBatch).pack (started (runtime []) writer firstBatch)
        (.ofSource [.ok deepItem]) = .ok (some ([deepItem], ⟨[], [], true⟩)) := writtenTo_start.pack hfits rfl rfl
    have hend : (batchPacker (runtime []) writer firstBatch).pack s ⟨[], [], true⟩ = .ok none := rfl
    show Packer.loop _ (1 + 1) _ _ = _
    rw [Packer.loop_step hpack hwrite, Packer.loop_end hend]
    rfl
  refine ⟨s.validator.digest, ?_⟩
  have ha : Appendable (runtime []) writer firstBatch 1 := appendable (by decide)
  have happended := appendRecords_eq ha [.ok deepItem]
  rw [hpacked] at happended
  exact happended.trans
    (congrArg some (hs.complete (by decide) (by decide) (by decide) (by simp)))

theorem reads_deep (digested : Bytes) : ∀ r ∈ deepRecords digested, writer.Reads (runtime (deepRecords digested)) r := by
  have hnodup : ((deepRecords digested).map envelope).Nodup := by
    refine List.Nodup.of_map (List.take 200) (evaluated.apart.sublist ?_)
    simp only [deepRecords, List.map_cons, List.map_nil, deepChunk, chunkOf, completionOf]
    rw [take_later (evaluated.chunks 2 (by decide)).1, take_later (evaluated.completions 3 (by decide)).1]
    exact ((((List.nil_sublist _).cons_cons _).cons _).cons_cons _).cons_cons _
  intro r hr
  have hthree := hr
  simp only [deepRecords, List.mem_cons, List.not_mem_nil, or_false] at hthree
  rcases hthree with rfl | rfl | rfl
  · exact reads_of_mem hnodup hr evaluated.start rfl
  · refine reads_chunkOf hnodup hr (by decide) (by decide) render_deepItem.2 ?_
    show Json.mapNumbers id (.obj [("a", nested 124)]) = .obj [("a", nested 124)]
    simp only [Json.mapNumbers, Json.mapNumbersFields, mapNumbers_nested]
  · exact reads_completionOf hnodup hr (by decide) (by decide)

/-- **A deep batch is written and not read**: its item is nested to a depth of 125. -/
theorem deep_unreadable : ∃ records, Appendable (runtime records) writer firstBatch 1 ∧
    appendRecords (runtime records) writer firstBatch 2 [.ok deepItem] = some (.ok records) ∧
    (∀ r ∈ records, writer.Reads (runtime records) r) ∧
    ¬ Verifies (runtime records) firstBatch (records.map writer.envelope) := by
  obtain ⟨digested, happended⟩ := deep_appended
  have hblake3 : (runtime (deepRecords digested)).blake3 = (runtime []).blake3 := rfl
  rw [← appendRecords_congr hblake3] at happended
  refine ⟨deepRecords digested, appendable (by decide), happended, reads_deep digested, ?_⟩
  intro h
  obtain ⟨reading, hread, -⟩ := h
  obtain ⟨first, -, hread⟩ := (commitAll_cons _).mp hread
  obtain ⟨second, hsecond, -⟩ := (commitAll_cons _).mp hread
  have hreads : writer.Reads (runtime (deepRecords digested)) deepChunk :=
    reads_deep digested _ (List.mem_cons_of_mem _ List.mem_cons_self)
  exact acceptLine_deep hreads (by decide +kernel) hsecond

end BatchSample

end ArchiveLedger
