import ArchiveLedger.Events.Stream
import ArchiveLedger.Foundation.HashChain

/-!
# What verification has seen

Each line of a stream is an event of the next sequence that names the hash of the line before it (`Chain`), through
all segments, and each segment but the last is closed by the manifest of its scan (`Stream`).  Behind the last line
there may be a rest without an end, where a writer was stopped.  `verifies_iff` says that a stream without such a rest
verifies, and that nothing else does.
-/

namespace ArchiveLedger.Events

open HashChain Lines Outcome Transition

section

variable (R : EventRuntime) (config : EventStoreConfig)

/-! ### Lines -/

/-- The checks of `validate_event`. -/
structure Stands (seq : Nat) (previous : Option String) (e : EventEnvelope) : Prop where
  v : e.v = envelopeVersion
  stream : e.streamId = streamId
  seq : e.seq = seq
  previous : e.previousEventHash = previous
  filled : e.eventType ≠ "" ∧ e.actorId ≠ "" ∧ e.hostId ≠ "" ∧ e.payload.isObject = true
  id : isPrefixedLowercaseUlid R e.eventId "evt_" = true

/-- The line is an event in its place. -/
structure Reads (seq : Nat) (previous : Option String) (line : Bytes) (e : EventEnvelope) : Prop where
  fits : line.length ≤ config.maxEventBytes
  reads : R.readEnvelope line = .ok e
  stands : Stands R seq previous e

/-- Lines that are events one after the other. -/
def Chain : Nat → Option String → List Bytes → Prop
  | _, _, [] => True
  | seq, previous, line :: lines =>
      (∃ e, Reads R config seq previous line e) ∧ Chain (seq + 1) (some (eventHash R line)) lines

/-- The lines of a segment. -/
def linesOf (bytes : Bytes) : List Bytes := (cut 10 bytes).1

/-- The events of lines that follow an offset of a segment. -/
def positioned (firstSeq : Nat) : Nat → List Bytes → List PositionedEvent
  | _, [] => []
  | offset, line :: lines =>
      match R.readEnvelope line with
      | .ok e => ⟨⟨e, eventHash R line⟩, firstSeq, offset + (line.length + 1)⟩ ::
          positioned firstSeq (offset + (line.length + 1)) lines
      | .error _ => []

/-- The events of a stream with their places. -/
def storedEvents (dir : EventDir) : List PositionedEvent :=
  dir.segments.flatMap fun segment => positioned R segment.1 0 (linesOf segment.2)

variable {R config}

theorem validateEvent_eq_ok {path : String} {lineNumber seq : Nat} {e : EventEnvelope} {previous : Option String} {u : Unit} :
    validateEvent R path lineNumber e seq previous = .ok u ↔ Stands R seq previous e := by
  unfold validateEvent
  simp only [bind_eq_ok, require_eq_ok]
  constructor
  · rintro ⟨_, hv, _, hstream, _, hseq, _, hprevious, _, hfilled, hid⟩
    exact ⟨hv, hstream, hseq, hprevious, hfilled, hid⟩
  · intro h
    exact ⟨(), h.v, (), h.stream, (), h.seq, (), h.previous, (), h.filled, h.id⟩

theorem readEvent_eq_ok {path : String} {lineNumber seq : Nat} {line : Bytes} {previous : Option String} {e : EventEnvelope} :
    readEvent R config path lineNumber line seq previous = .ok e ↔ Reads R config seq previous line e := by
  unfold readEvent parseEventLine
  simp only [bind_eq_ok, require_eq_ok, mapError_eq_ok, validateEvent_eq_ok]
  constructor
  · rintro ⟨_, hfits, a, hreads, _, hstands, h⟩
    cases h
    exact ⟨hfits, hreads, hstands⟩
  · intro h
    exact ⟨(), h.fits, e, h.reads, (), h.stands, rfl⟩

theorem chain_append {seq : Nat} {previous : Option String} {lines more : List Bytes} :
    Chain R config seq previous (lines ++ more) ↔
      Chain R config seq previous lines ∧ Chain R config (seq + lines.length) (tip (eventHash R) previous lines) more := by
  induction lines generalizing seq previous with
  | nil => simp [Chain]
  | cons line lines ih =>
    have hseq : seq + (line :: lines).length = seq + 1 + lines.length := by
      rw [List.length_cons]
      omega
    rw [List.cons_append, Chain, Chain, ih, tip_cons, hseq, and_assoc]

theorem length_positioned {firstSeq seq offset : Nat} {previous : Option String} {lines : List Bytes}
    (h : Chain R config seq previous lines) : (positioned R firstSeq offset lines).length = lines.length := by
  induction lines generalizing seq offset previous with
  | nil => rfl
  | cons line lines ih =>
    obtain ⟨⟨e, he⟩, hrest⟩ := h
    rw [positioned, he.reads]
    exact congrArg Nat.succ (ih hrest)

theorem positioned_append {firstSeq seq offset : Nat} {previous : Option String} {lines more : List Bytes}
    (h : Chain R config seq previous lines) :
    positioned R firstSeq offset (lines ++ more) =
      positioned R firstSeq offset lines ++ positioned R firstSeq (offset + (join 10 lines).length) more := by
  induction lines generalizing seq offset previous with
  | nil => rfl
  | cons line lines ih =>
    obtain ⟨⟨e, he⟩, hrest⟩ := h
    have hoffset : offset + (join 10 (line :: lines)).length = offset + (line.length + 1) + (join 10 lines).length := by
      rw [join_cons, List.length_append, List.length_cons]
      omega
    rw [List.cons_append, positioned, positioned, he.reads, hoffset]
    exact congrArg _ (ih hrest)

/-! ### Scans -/

variable (R config) in
/-- What the variables of a scan are after some lines. -/
structure Scanned (first : Nat) (previous : Option String) (lines : List Bytes) (s : ScanState) : Prop where
  chain : Chain R config first previous lines
  expectedSeq : s.expectedSeq = first + lines.length
  previousHash : s.previousHash = tip (eventHash R) previous lines
  sizeBytes : s.sizeBytes = (join 10 lines).length
  firstId : ∀ id, s.firstEventId = some id → isPrefixedLowercaseUlid R id "evt_" = true
  lastId : ∀ id, s.lastEventId = some id → isPrefixedLowercaseUlid R id "evt_" = true
  named : lines ≠ [] → s.firstEventId.isSome = true ∧ s.lastEventId.isSome = true

theorem scanned_scanLine {path : String} {first : Nat} {previous : Option String} {lines : List Bytes} {line : Bytes}
    {s t : ScanState} (h : Scanned R config first previous lines s) (hline : scanLine R config path s line = .ok t) :
    Scanned R config first previous (lines ++ [line]) t := by
  obtain ⟨e, he, hline⟩ := bind_eq_ok.mp hline
  have he := readEvent_eq_ok.mp he
  cases hline
  rw [h.expectedSeq, h.previousHash] at he
  refine ⟨chain_append.mpr ⟨h.chain, ⟨e, he⟩, trivial⟩, ?_, ?_, ?_, fun id hid => ?_, fun id hid => ?_, fun _ => ⟨?_, rfl⟩⟩
  · show s.expectedSeq + 1 = _
    rw [h.expectedSeq, List.length_append]
    rfl
  · rw [tip_snoc]
  · show s.sizeBytes + (line.length + 1) = _
    rw [h.sizeBytes, join_append, join_cons, join_nil, List.length_append, List.length_append]
    rfl
  · rcases Option.or_eq_some_iff.mp hid with hid | ⟨-, hid⟩
    · exact h.firstId id hid
    · cases hid
      exact he.stands.id
  · cases hid
    exact he.stands.id
  · show (s.firstEventId.or (some e.eventId)).isSome = true
    cases s.firstEventId with
    | none => rfl
    | some id => rfl

def ScanState.start (first : Nat) (previous : Option String) : ScanState := ⟨0, first, previous, 0, none, none, []⟩

theorem scanned_of_commitAll {path : String} {first : Nat} {previous : Option String} {lines : List Bytes} {s : ScanState}
    (h : commitAll (scanLine R config path) (.start first previous) lines = .ok s) :
    Scanned R config first previous lines s := by
  induction lines using List.reverseRecOn generalizing s with
  | nil =>
    cases h
    exact ⟨trivial, rfl, rfl, rfl, nofun, nofun, fun h => absurd rfl h⟩
  | append_singleton lines line ih =>
    obtain ⟨u, hu, hline⟩ := (commitAll_append _).mp h
    obtain ⟨v, hv, hnil⟩ := (commitAll_cons _).mp hline
    cases hnil
    exact scanned_scanLine (ih hu) hv

theorem exists_commitAll {path : String} {lines : List Bytes} {s : ScanState}
    (h : Chain R config s.expectedSeq s.previousHash lines) : ∃ t, commitAll (scanLine R config path) s lines = .ok t := by
  induction lines generalizing s with
  | nil => exact ⟨s, rfl⟩
  | cons line lines ih =>
    obtain ⟨⟨e, he⟩, hrest⟩ := h
    have hline : ∃ t, scanLine R config path s line = .ok t ∧ t.expectedSeq = s.expectedSeq + 1 ∧
        t.previousHash = some (eventHash R line) :=
      ⟨_, bind_eq_ok.mpr ⟨e, readEvent_eq_ok.mpr he, rfl⟩, rfl, rfl⟩
    obtain ⟨t, ht, hseq, hhash⟩ := hline
    rw [← hseq, ← hhash] at hrest
    obtain ⟨u, hu⟩ := ih hrest
    exact ⟨u, (commitAll_cons _).mpr ⟨t, ht, hu⟩⟩

variable (R config) in
/-- What a scan says of a segment. -/
structure ScanSpec (bytes : Bytes) (first : Nat) (previous : Option String) (scan : SegmentScan) : Prop where
  whole : (cut 10 bytes).2 = []
  chain : Chain R config first previous (linesOf bytes)
  firstSeq : scan.firstSeq = first
  eventCount : scan.eventCount = (linesOf bytes).length
  lastSeq : scan.lastSeq = if linesOf bytes = [] then none else some (first + (linesOf bytes).length - 1)
  lastEventHash : scan.lastEventHash = (linesOf bytes).getLast?.map (eventHash R)
  sizeBytes : scan.segmentSizeBytes = bytes.length
  blake3 : scan.segmentBlake3 = "blake3:" ++ R.blake3 bytes
  firstId : ∀ id, scan.firstEventId = some id → isPrefixedLowercaseUlid R id "evt_" = true
  lastId : ∀ id, scan.lastEventId = some id → isPrefixedLowercaseUlid R id "evt_" = true
  named : linesOf bytes ≠ [] → scan.firstEventId.isSome = true ∧ scan.lastEventId.isSome = true

theorem join_linesOf {bytes : Bytes} (h : (cut 10 bytes).2 = []) : join 10 (linesOf bytes) = bytes := by
  have hcut := join_cut (10 : UInt8) bytes
  rwa [h, List.append_nil] at hcut

theorem scan_spec {bytes : Bytes} {first : Nat} {previous : Option String} {allowEmpty : Bool} {scan : SegmentScan}
    (h : scanSegment R config bytes first previous allowEmpty = .ok scan) : ScanSpec R config bytes first previous scan := by
  obtain ⟨s, hs, h⟩ := bind_eq_ok.mp h
  obtain ⟨_, hwhole, h⟩ := bind_eq_ok.mp h
  obtain ⟨_, -, h⟩ := bind_eq_ok.mp h
  have hwhole := require_eq_ok.mp hwhole
  have hs := scanned_of_commitAll hs
  have hcount : s.expectedSeq - first = (linesOf bytes).length := by
    rw [hs.expectedSeq]
    exact Nat.add_sub_cancel_left first _
  cases h
  refine ⟨hwhole, hs.chain, rfl, hcount, ?_, ?_, ?_, rfl, hs.firstId, hs.lastId, hs.named⟩
  · show (if 0 < s.expectedSeq - first then some (s.expectedSeq - 1) else none) = _
    rw [hcount, hs.expectedSeq]
    by_cases hlines : linesOf bytes = []
    · rw [if_pos hlines, if_neg (by rw [hlines]; exact lt_irrefl 0)]
    · rw [if_neg hlines, if_pos (List.length_pos_iff.mpr hlines)]
      rfl
  · show (if 0 < s.expectedSeq - first then s.previousHash else none) = _
    rw [hcount, hs.previousHash]
    by_cases hlines : linesOf bytes = []
    · rw [hlines]
      rfl
    · rw [if_pos (List.length_pos_iff.mpr hlines)]
      obtain ⟨lines, line, hsnoc⟩ := (List.eq_nil_or_concat (linesOf bytes)).resolve_left hlines
      show tip (eventHash R) previous (linesOf bytes) = _
      rw [hsnoc, List.concat_eq_append, tip_snoc, List.getLast?_append]
      rfl
  · show s.sizeBytes = _
    rw [hs.sizeBytes]
    exact congrArg List.length (join_linesOf hwhole)

/-- Whole lines in a chain are scanned. -/
theorem exists_scan {bytes : Bytes} {first : Nat} {previous : Option String} {allowEmpty : Bool}
    (hwhole : (cut 10 bytes).2 = []) (hchain : Chain R config first previous (linesOf bytes))
    (hempty : linesOf bytes = [] → allowEmpty = true) :
    ∃ scan, scanSegment R config bytes first previous allowEmpty = .ok scan := by
  have hstart : Chain R config (ScanState.start first previous).expectedSeq (ScanState.start first previous).previousHash
      (cut 10 bytes).1 := hchain
  obtain ⟨s, hs⟩ : ∃ s, commitAll (scanLine R config (relativeSegmentPath first)) (.start first previous) (cut 10 bytes).1 =
      .ok s := exists_commitAll hstart
  have hseq := (scanned_of_commitAll hs).expectedSeq
  refine ⟨_, bind_eq_ok.mpr ⟨s, hs, bind_eq_ok.mpr ⟨(), require_eq_ok.mpr hwhole,
    bind_eq_ok.mpr ⟨(), require_eq_ok.mpr ?_, rfl⟩⟩⟩⟩
  by_cases hlines : linesOf bytes = []
  · exact Or.inr (hempty hlines)
  · left
    have hpos := List.length_pos_iff.mpr hlines
    have hlen : (cut 10 bytes).1.length = (linesOf bytes).length := rfl
    omega

/-! ### Manifests -/

variable (R config) in
/-- A manifest that closes a segment. -/
structure Closes (bytes : Bytes) (first : Nat) (previous : Option String) (m : SegmentManifest) : Prop where
  shape : validateManifestShape R m bytes first = .ok ()
  scan : ∃ scan, scanSegment R config bytes first previous false = .ok scan ∧ manifestFromScan scan = .ok m

theorem Closes.last {bytes : Bytes} {first : Nat} {previous : Option String} {m : SegmentManifest}
    (h : Closes R config bytes first previous m) : linesOf bytes ≠ [] ∧ m.lastSeq + 1 = first + (linesOf bytes).length ∧
      some m.lastEventHash = tip (eventHash R) previous (linesOf bytes) := by
  obtain ⟨scan, hscan, hm⟩ := h.scan
  have hspec := scan_spec hscan
  obtain ⟨lastSeq, hlast, hm⟩ := bind_eq_ok.mp hm
  obtain ⟨_, -, hm⟩ := bind_eq_ok.mp hm
  obtain ⟨_, -, hm⟩ := bind_eq_ok.mp hm
  obtain ⟨lastHash, hhash, hm⟩ := bind_eq_ok.mp hm
  have hlast := okOr_eq_ok.mp hlast
  have hhash := okOr_eq_ok.mp hhash
  cases hm
  rw [hspec.lastSeq] at hlast
  rw [hspec.lastEventHash] at hhash
  split at hlast
  · cases hlast
  · rename_i hlines
    have hpos := List.length_pos_iff.mpr hlines
    have hlast := Option.some.inj hlast
    refine ⟨hlines, ?_, ?_⟩
    · show lastSeq + 1 = _
      omega
    · show some lastHash = _
      unfold tip
      rw [hhash]
      rfl

theorem verifyManifest_eq_ok {scan : SegmentScan} {segment : Nat × Bytes} {file : Bytes} {m : SegmentManifest} :
    verifyManifest R scan segment file = .ok m ↔
      R.readManifest file = .ok m ∧ validateManifestShape R m segment.2 segment.1 = .ok () ∧ manifestFromScan scan = .ok m := by
  unfold verifyManifest readManifestFile
  simp only [bind_eq_ok, require_eq_ok, mapError_eq_ok]
  constructor
  · rintro ⟨a, hread, _, hshape, b, hscan, _, rfl, h⟩
    cases h
    exact ⟨hread, hshape, hscan⟩
  · rintro ⟨hread, hshape, hscan⟩
    exact ⟨m, hread, (), hshape, m, hscan, (), rfl, rfl⟩

/-! ### Streams -/

variable (R config) in
/-- The segments from one on, which go on with a sequence and a hash. -/
def Stream (dir : EventDir) : Nat → Option String → List (Nat × Bytes) → Prop
  | _, _, [] => True
  | seq, previous, segment :: rest =>
      segment.1 = seq ∧ Chain R config seq previous (linesOf segment.2) ∧
        (linesOf segment.2 ≠ [] → seq + (linesOf segment.2).length ≤ u64Max) ∧
        (match dir.manifest? seq with
        | some file => ∃ m, R.readManifest file = .ok m ∧ Closes R config segment.2 seq previous m
        | none => rest = []) ∧
        Stream dir (seq + (linesOf segment.2).length) (tip (eventHash R) previous (linesOf segment.2)) rest

theorem withLast_cons {α : Type} (a : α) (rest : List α) : withLast (a :: rest) = (a, rest.isEmpty) :: withLast rest := by
  cases rest with
  | nil => rfl
  | cons b rest => rfl

theorem checkedAdd_eq_some {a b c : Nat} : checkedAdd a b = some c ↔ a + b ≤ u64Max ∧ a + b = c := by
  unfold checkedAdd
  by_cases h : a + b ≤ u64Max
  · rw [if_pos h, Option.some.injEq]
    exact ⟨fun hc => ⟨h, hc⟩, fun hc => hc.2⟩
  · rw [if_neg h]
    exact ⟨nofun, fun hc => absurd hc.1 h⟩

/-- What a segment leaves to the next. -/
theorem afterScan_eq_ok {s : VerifyState} {bytes : Bytes} {scan : SegmentScan}
    (hspec : ScanSpec R config bytes s.expectedFirstSeq s.previousHash scan) {next : Nat × Option String} :
    afterScan s scan = .ok next ↔
      (linesOf bytes ≠ [] → s.expectedFirstSeq + (linesOf bytes).length ≤ u64Max) ∧
        next = (s.expectedFirstSeq + (linesOf bytes).length, tip (eventHash R) s.previousHash (linesOf bytes)) := by
  unfold afterScan
  rw [hspec.lastSeq, hspec.lastEventHash]
  by_cases hlines : linesOf bytes = []
  · rw [if_pos hlines, hlines]
    exact ⟨fun h => ⟨fun hne => absurd rfl hne, (Except.ok.inj h).symm⟩, fun h => congrArg _ h.2.symm⟩
  · have hpos := List.length_pos_iff.mpr hlines
    have hlast : (linesOf bytes).getLast?.map (eventHash R) = tip (eventHash R) s.previousHash (linesOf bytes) := by
      obtain ⟨lines, line, hsnoc⟩ := (List.eq_nil_or_concat (linesOf bytes)).resolve_left hlines
      rw [hsnoc, List.concat_eq_append, tip_snoc, List.getLast?_append]
      rfl
    have hsum : s.expectedFirstSeq + (linesOf bytes).length - 1 + 1 = s.expectedFirstSeq + (linesOf bytes).length := by omega
    rw [if_neg hlines]
    simp only [bind_eq_ok, okOr_eq_ok, checkedAdd_eq_some, hsum, hlast]
    constructor
    · rintro ⟨_, ⟨hmax, rfl⟩, h⟩
      cases h
      exact ⟨fun _ => hmax, rfl⟩
    · rintro ⟨hmax, rfl⟩
      exact ⟨_, ⟨hmax hlines, rfl⟩, rfl⟩

theorem stream_of_commitAll {dir : EventDir} {segments : List (Nat × Bytes)} {s t : VerifyState}
    (h : commitAll (verifySegment R config dir) s (withLast segments) = .ok t) :
    Stream R config dir s.expectedFirstSeq s.previousHash segments ∧ (∀ segment ∈ segments, (cut 10 segment.2).2 = []) ∧
      t.previousHash = tip (eventHash R) s.previousHash (segments.flatMap fun segment => linesOf segment.2) := by
  induction segments generalizing s with
  | nil =>
    cases h
    exact ⟨trivial, nofun, rfl⟩
  | cons segment rest ih =>
    rw [withLast_cons] at h
    obtain ⟨u, hu, hrest⟩ := (commitAll_cons _).mp h
    obtain ⟨_, hfirst, hu⟩ := bind_eq_ok.mp hu
    obtain ⟨_, hlast, hu⟩ := bind_eq_ok.mp hu
    obtain ⟨scan, hscan, hu⟩ := bind_eq_ok.mp hu
    obtain ⟨manifest, hmanifest, hu⟩ := bind_eq_ok.mp hu
    obtain ⟨⟨expected, previous⟩, hafter, hu⟩ := bind_eq_ok.mp hu
    have hfirst : segment.1 = s.expectedFirstSeq := require_eq_ok.mp hfirst
    have hlast := require_eq_ok.mp hlast
    rw [hfirst] at hlast hscan hmanifest
    have hspec := scan_spec hscan
    obtain ⟨hmax, hnext⟩ := (afterScan_eq_ok hspec).mp hafter
    obtain ⟨rfl, rfl⟩ := Prod.mk.inj hnext
    cases hu
    obtain ⟨hstream, hwhole, htip⟩ := ih hrest
    refine ⟨⟨hfirst, hspec.chain, hmax, ?_, hstream⟩, fun other hother => ?_, ?_⟩
    rotate_left
    · rcases List.mem_cons.mp hother with rfl | hother
      · exact hspec.whole
      · exact hwhole other hother
    · rw [List.flatMap_cons, tip_append]
      exact htip
    cases hfile : dir.manifest? s.expectedFirstSeq with
    | none =>
      rw [hfile] at hlast
      exact List.isEmpty_iff.mp (hlast.resolve_left (by decide))
    | some file =>
      rw [hfile] at hmanifest hscan
      obtain ⟨m, hm, -⟩ := bind_eq_ok.mp hmanifest
      obtain ⟨hread, hshape, hfrom⟩ := verifyManifest_eq_ok.mp hm
      exact ⟨m, hread, hshape, scan, hscan, hfrom⟩

theorem exists_commitAll_verify {dir : EventDir} {segments : List (Nat × Bytes)} {s : VerifyState}
    (h : Stream R config dir s.expectedFirstSeq s.previousHash segments)
    (hwhole : ∀ segment ∈ segments, (cut 10 segment.2).2 = []) :
    ∃ t, commitAll (verifySegment R config dir) s (withLast segments) = .ok t := by
  induction segments generalizing s with
  | nil => exact ⟨s, rfl⟩
  | cons segment rest ih =>
    obtain ⟨hfirst, hchain, hmax, hclosed, hrest⟩ := h
    rw [withLast_cons]
    have hscan : ∃ scan manifest, scanSegment R config segment.2 s.expectedFirstSeq s.previousHash
        (dir.manifest? s.expectedFirstSeq).isNone = .ok scan ∧
        optionalManifest R scan (s.expectedFirstSeq, segment.2) (dir.manifest? s.expectedFirstSeq) = .ok manifest ∧
        ((dir.manifest? s.expectedFirstSeq).isSome ∨ rest.isEmpty = true) := by
      cases hfile : dir.manifest? s.expectedFirstSeq with
      | none =>
        rw [hfile] at hclosed
        obtain ⟨scan, hscan⟩ := exists_scan (hwhole segment List.mem_cons_self) hchain (fun _ => rfl)
        exact ⟨scan, none, hscan, rfl, Or.inr (List.isEmpty_iff.mpr hclosed)⟩
      | some file =>
        rw [hfile] at hclosed
        obtain ⟨m, hread, hshape, scan, hscan, hfrom⟩ := hclosed
        exact ⟨scan, some m, hscan, bind_eq_ok.mpr ⟨m, verifyManifest_eq_ok.mpr ⟨hread, hshape, hfrom⟩, rfl⟩, Or.inl rfl⟩
    obtain ⟨scan, manifest, hscan, hmanifest, hlast⟩ := hscan
    have hspec := scan_spec hscan
    have hstep : ∃ u, verifySegment R config dir s (segment, rest.isEmpty) = .ok u ∧
        u.expectedFirstSeq = s.expectedFirstSeq + (linesOf segment.2).length ∧
        u.previousHash = tip (eventHash R) s.previousHash (linesOf segment.2) := by
      obtain ⟨first, bytes⟩ := segment
      have hfirst : first = s.expectedFirstSeq := hfirst
      subst hfirst
      exact ⟨_, bind_eq_ok.mpr ⟨(), require_eq_ok.mpr rfl, bind_eq_ok.mpr ⟨(), require_eq_ok.mpr hlast,
        bind_eq_ok.mpr ⟨scan, hscan, bind_eq_ok.mpr ⟨manifest, hmanifest,
          bind_eq_ok.mpr ⟨_, (afterScan_eq_ok hspec).mpr ⟨hmax, rfl⟩, rfl⟩⟩⟩⟩⟩, rfl, rfl⟩
    obtain ⟨u, hu, hseq, hhash⟩ := hstep
    rw [← hseq, ← hhash] at hrest
    obtain ⟨t, ht⟩ := ih hrest fun other hother => hwhole other (List.mem_cons_of_mem _ hother)
    exact ⟨t, (commitAll_cons _).mpr ⟨u, hu, ht⟩⟩

/-- **What verifies is a stream of whole lines.** -/
theorem verifies_iff {dir : EventDir} : (∃ v, verifyLocked R config dir = .ok v) ↔
    checkManifests dir = .ok () ∧ Stream R config dir 1 none dir.segments ∧
      ∀ segment ∈ dir.segments, (cut 10 segment.2).2 = [] := by
  unfold verifyLocked
  simp only [bind_eq_ok]
  constructor
  · rintro ⟨v, _, hcheck, t, ht, -⟩
    obtain ⟨hstream, hwhole, -⟩ := stream_of_commitAll ht
    exact ⟨hcheck, hstream, hwhole⟩
  · rintro ⟨hcheck, hstream, hwhole⟩
    obtain ⟨t, ht⟩ := exists_commitAll_verify (s := ⟨none, 1, [], []⟩) hstream hwhole
    exact ⟨_, (), hcheck, t, ht, rfl⟩

end

end ArchiveLedger.Events
