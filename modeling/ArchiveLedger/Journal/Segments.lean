import ArchiveLedger.Journal.Verify

/-!
# Chains of segments

What the readers of an origin have in common.  A `SegmentChain` is a list of segments,
each read at its place after the one before it, that ends with the accepted tail of the
origin.  `verifySegments` succeeds exactly when the paths it is given begin with such a
chain, and `visitSegments` when such a chain stands at the paths named after the first
sequences and its records pass the checks of a visit.
-/

namespace ArchiveLedger

open Outcome Transition

structure Segment where
  path : String
  body : SegmentManifestBody
  manifestHash : String
  records : List VerifiedV2Record

variable {R : StoreRuntime} {tree : EventTree} {trust : TrustRoot} {key : Bytes} {tail : OriginFrontier}

/-! ### The records of a segment -/

/-- What has been read of a segment: records of its origin, one sequence after the other. -/
structure ReadFrom (tail : OriginFrontier) (body : SegmentManifestBody) (manifestHash : String)
    (first : Nat) (s : SegmentRead) : Prop where
  next : s.expectedSeq = first + s.records.length
  seqs : s.records.map VerifiedV2Record.originSeq = List.range' first s.records.length
  origin : ∀ r ∈ s.records, r.originId = tail.originId
  causal : ∀ r ∈ s.records, r.causalFrontierHash = body.causalBaseFrontierHash
  manifest : ∀ r ∈ s.records, r.segmentManifestHash = manifestHash
  last : s.records ≠ [] → s.previousRecordHash = s.records.getLast?.map fun r => r.record.recordHash

theorem parseV2Record_eq_ok {line : Bytes} {origin : String} {seq : Nat} {previous : Option String}
    {limit : Nat} {record : V2Record}
    (h : parseV2Record R line origin seq previous limit = .ok record) :
    record.envelope.originId = origin ∧ record.envelope.originSeq = seq ∧
      line.length ≤ min limit defaultMaxV2RecordBytes := by
  simp only [parseV2Record, bind_eq_ok, require_eq_ok, okOr_eq_ok, Except.ok.injEq] at h
  obtain ⟨-, -, -, hlen, envelope, -, -, -, -, -, -, horigin, -, ⟨hseq, -⟩, -, -, -, -, -, -, -, -, rfl⟩ := h
  exact ⟨horigin, hseq, hlen⟩

theorem parseNext_eq_ok {line : Bytes} {origin : String} {seq next : Nat} {previous : Option String}
    {record : V2Record} (h : parseNext R origin seq previous line = .ok (record, next)) :
    record.envelope.originId = origin ∧ record.envelope.originSeq = seq ∧ next = seq + 1 ∧
      line.length ≤ defaultMaxV2RecordBytes := by
  simp only [parseNext, bind_eq_ok, mapError_eq_ok, okOr_eq_ok, checkedAdd, Except.ok.injEq,
    Prod.mk.injEq] at h
  obtain ⟨parsed, hparsed, n, hn, rfl, rfl⟩ := h
  obtain ⟨horigin, hseq, hlen⟩ := parseV2Record_eq_ok hparsed
  split at hn
  · cases hn
    exact ⟨horigin, hseq, rfl, by simpa using hlen⟩
  · cases hn

theorem readLine_eq_ok {body : SegmentManifestBody} {hash : String} {s t : SegmentRead} {line : Bytes}
    (h : readLine R tail body hash s line = .ok t) :
    ∃ record, parseNext R tail.originId s.expectedSeq s.previousRecordHash line =
        .ok (record, t.expectedSeq) ∧ t.previousRecordHash = some record.recordHash ∧
      t.records = s.records ++ [⟨record, line, hash, body.causalBaseFrontierHash⟩] := by
  simp only [readLine, bind_eq_ok, Prod.exists, Except.ok.injEq] at h
  obtain ⟨record, next, hparse, rfl⟩ := h
  exact ⟨record, hparse, rfl, rfl⟩

theorem ReadFrom.line {body : SegmentManifestBody} {hash : String} {first : Nat} {s t : SegmentRead}
    {line : Bytes} (hs : ReadFrom tail body hash first s)
    (h : readLine R tail body hash s line = .ok t) : ReadFrom tail body hash first t := by
  obtain ⟨record, hparse, hprevious, hrecords⟩ := readLine_eq_ok h
  obtain ⟨horigin, hseq, hnext, -⟩ := parseNext_eq_ok hparse
  have hlen : t.records.length = s.records.length + 1 := by
    rw [hrecords, List.length_append, List.length_singleton]
  refine ⟨?_, ?_, ?_, ?_, ?_, ?_⟩
  · rw [hnext, hs.next, hlen]
    omega
  · rw [hlen, hrecords, List.map_append, hs.seqs, List.range'_1_concat]
    show _ ++ [record.envelope.originSeq] = _
    rw [hseq, hs.next]
  · intro r hr
    rw [hrecords, List.mem_append, List.mem_singleton] at hr
    rcases hr with hr | rfl
    · exact hs.origin r hr
    · exact horigin
  · intro r hr
    rw [hrecords, List.mem_append, List.mem_singleton] at hr
    rcases hr with hr | rfl
    · exact hs.causal r hr
    · rfl
  · intro r hr
    rw [hrecords, List.mem_append, List.mem_singleton] at hr
    rcases hr with hr | rfl
    · exact hs.manifest r hr
    · rfl
  · intro _
    rw [hprevious, hrecords, List.getLast?_concat, Option.map_some]

theorem readFrom_lines {body : SegmentManifestBody} {hash : String} {first : Nat}
    {previous : Option String} {s : SegmentRead} {lines : List Bytes}
    (h : commitAll (readLine R tail body hash) ⟨first, previous, []⟩ lines = .ok s) :
    ReadFrom tail body hash first s :=
  commitAll_invariant (P := ReadFrom tail body hash first) (fun _ _ _ hs ht => hs.line ht)
    ⟨rfl, rfl, fun _ hr => absurd hr List.not_mem_nil, fun _ hr => absurd hr List.not_mem_nil,
      fun _ hr => absurd hr List.not_mem_nil, fun hne => absurd rfl hne⟩ h

theorem readLines_append {body : SegmentManifestBody} {hash : String} {s t : SegmentRead}
    {lines : List Bytes} (h : commitAll (readLine R tail body hash) s lines = .ok t) :
    ∃ new, t.records = s.records ++ new :=
  commitAll_invariant (P := fun t => ∃ new, t.records = s.records ++ new)
    (fun u _ w ⟨new, hu⟩ hw => by
      obtain ⟨record, -, -, hrecords⟩ := readLine_eq_ok hw
      exact ⟨new ++ [_], by rw [hrecords, hu, List.append_assoc]⟩)
    ⟨[], (List.append_nil _).symm⟩ h

theorem rangeMatches_nonempty {body : SegmentManifestBody} {records : List VerifiedV2Record}
    (h : rangeMatches body records) : records ≠ [] := by
  rintro rfl
  cases h

theorem rangeMatches_last {body : SegmentManifestBody} {records : List VerifiedV2Record}
    (h : rangeMatches body records) : records.getLast?.map VerifiedV2Record.originSeq = some body.lastSeq := by
  unfold rangeMatches at h
  split at h
  · rename_i first last hfirst hlast
    simp only [Bool.and_eq_true, decide_eq_true_eq] at h
    rw [hlast, Option.map_some, h.1.1.1.1.1]
  · cases h

/-! ### Chains -/

variable (R tree trust key tail)

/-- A segment that reads at its place: after a record and a manifest, from a sequence on. -/
structure SegmentAt (expectedSeq : Nat) (previousRecord previousManifest : Option String)
    (seg : Segment) (s : SegmentRead) : Prop where
  manifest : ∃ m, readManifest R tree seg.path = .ok (m, seg.manifestHash) ∧ m.verify R key = .ok () ∧
    m.body = seg.body
  fits : manifestFits trust tail.originId expectedSeq previousManifest seg.body = true
  text : ∃ bytes, readSegment R tree seg.body = .ok bytes ∧ (∀ line ∈ segmentLines bytes, line ≠ []) ∧
    commitAll (readLine R tail seg.body seg.manifestHash) ⟨expectedSeq, previousRecord, []⟩
      (segmentLines bytes) = .ok s
  records : seg.records = s.records
  range : rangeMatches seg.body s.records = true

/-- Segments that follow one another up to the accepted tail. -/
inductive SegmentChain : Nat → Option String → Option String → List Segment → Prop
  | last {expectedSeq : Nat} {previousRecord previousManifest : Option String} {seg : Segment}
      {s : SegmentRead} (at_ : SegmentAt R tree trust key tail expectedSeq previousRecord previousManifest seg s)
      (accepted : seg.manifestHash = tail.segmentManifestHash)
      (ends : seg.body.lastSeq = tail.seq ∧ seg.body.lastRecordHash = tail.eventHash) :
      SegmentChain expectedSeq previousRecord previousManifest [seg]
  | cons {expectedSeq : Nat} {previousRecord previousManifest : Option String} {seg : Segment}
      {s : SegmentRead} {segs : List Segment}
      (at_ : SegmentAt R tree trust key tail expectedSeq previousRecord previousManifest seg s)
      (before : seg.manifestHash ≠ tail.segmentManifestHash)
      (rest : SegmentChain s.expectedSeq s.previousRecordHash (some seg.manifestHash) segs) :
      SegmentChain expectedSeq previousRecord previousManifest (seg :: segs)

variable {R tree trust key tail}

/-- The records of a list of segments. -/
def recordsOf (segs : List Segment) : List VerifiedV2Record := segs.flatMap Segment.records

@[simp] theorem recordsOf_nil : recordsOf [] = [] := rfl

@[simp] theorem recordsOf_cons (seg : Segment) (segs : List Segment) :
    recordsOf (seg :: segs) = seg.records ++ recordsOf segs := rfl

namespace SegmentAt

variable {expectedSeq : Nat} {previousRecord previousManifest : Option String} {seg : Segment}
  {s : SegmentRead}

theorem readFrom (h : SegmentAt R tree trust key tail expectedSeq previousRecord previousManifest seg s) :
    ReadFrom tail seg.body seg.manifestHash expectedSeq s := by
  obtain ⟨_, _, _, hlines⟩ := h.text
  exact readFrom_lines hlines

theorem nonempty (h : SegmentAt R tree trust key tail expectedSeq previousRecord previousManifest seg s) :
    0 < seg.records.length := by
  rw [h.records]
  exact List.length_pos_iff.mpr (rangeMatches_nonempty h.range)

theorem next (h : SegmentAt R tree trust key tail expectedSeq previousRecord previousManifest seg s) :
    s.expectedSeq = expectedSeq + seg.records.length := by
  rw [h.records, h.readFrom.next]

theorem firstSeq (h : SegmentAt R tree trust key tail expectedSeq previousRecord previousManifest seg s) :
    seg.body.firstSeq = expectedSeq := by
  have hfits := h.fits
  simp only [manifestFits, Bool.and_eq_true, decide_eq_true_eq] at hfits
  exact hfits.1.2

/-- A segment ends with the sequence its manifest names. -/
theorem lastSeq (h : SegmentAt R tree trust key tail expectedSeq previousRecord previousManifest seg s) :
    seg.body.lastSeq + 1 = expectedSeq + seg.records.length := by
  have hlast := rangeMatches_last h.range
  have hpos := h.nonempty
  have hseqs := congrArg List.getLast? h.readFrom.seqs
  rw [List.getLast?_map, hlast, ← h.records, List.getLast?_range'] at hseqs
  split at hseqs
  · omega
  · have := Option.some.inj hseqs
    omega

/-- A segment knows the causal base of its records. -/
theorem causal (h : SegmentAt R tree trust key tail expectedSeq previousRecord previousManifest seg s) :
    ∀ r ∈ seg.records, r.causalFrontierHash = seg.body.causalBaseFrontierHash := by
  rw [h.records]
  exact h.readFrom.causal

end SegmentAt

namespace SegmentChain

variable {expectedSeq : Nat} {previousRecord previousManifest : Option String} {segs : List Segment}

/-- A chain goes from its first sequence through the accepted tail. -/
theorem total (h : SegmentChain R tree trust key tail expectedSeq previousRecord previousManifest segs) :
    expectedSeq + (recordsOf segs).length = tail.seq + 1 := by
  induction h with
  | last at_ accepted ends =>
    have := at_.lastSeq
    rw [recordsOf_cons, recordsOf_nil, List.append_nil, ← this, ends.1]
  | cons at_ before rest ih =>
    rw [recordsOf_cons, List.length_append, ← ih, at_.next]
    omega

theorem seqs (h : SegmentChain R tree trust key tail expectedSeq previousRecord previousManifest segs) :
    (recordsOf segs).map VerifiedV2Record.originSeq =
      List.range' expectedSeq (recordsOf segs).length := by
  induction h with
  | last at_ accepted ends =>
    rw [recordsOf_cons, recordsOf_nil, List.append_nil, at_.records]
    exact at_.readFrom.seqs
  | cons at_ before rest ih =>
    rw [recordsOf_cons, List.map_append, ih, at_.next, at_.records, at_.readFrom.seqs,
      List.length_append, List.range'_append_1]

theorem origin (h : SegmentChain R tree trust key tail expectedSeq previousRecord previousManifest segs) :
    ∀ r ∈ recordsOf segs, r.originId = tail.originId := by
  induction h with
  | last at_ accepted ends =>
    rw [recordsOf_cons, recordsOf_nil, List.append_nil, at_.records]
    exact at_.readFrom.origin
  | cons at_ before rest ih =>
    intro r hr
    rw [recordsOf_cons, List.mem_append, at_.records] at hr
    rcases hr with hr | hr
    · exact at_.readFrom.origin r hr
    · exact ih r hr

theorem causal (h : SegmentChain R tree trust key tail expectedSeq previousRecord previousManifest segs) :
    ∀ seg ∈ segs, ∀ r ∈ seg.records, r.causalFrontierHash = seg.body.causalBaseFrontierHash := by
  induction h with
  | last at_ accepted ends =>
    rw [List.forall_mem_singleton]
    exact at_.causal
  | cons at_ before rest ih =>
    rw [List.forall_mem_cons]
    exact ⟨at_.causal, ih⟩

theorem nonempty
    (h : SegmentChain R tree trust key tail expectedSeq previousRecord previousManifest segs) :
    ∀ seg ∈ segs, seg.records ≠ [] := by
  induction h with
  | last at_ accepted ends =>
    rw [List.forall_mem_singleton]
    exact List.length_pos_iff.mp at_.nonempty
  | cons at_ before rest ih =>
    rw [List.forall_mem_cons]
    exact ⟨List.length_pos_iff.mp at_.nonempty, ih⟩

/-- A chain does not begin past the tail. -/
theorem le_tail
    (h : SegmentChain R tree trust key tail expectedSeq previousRecord previousManifest segs) :
    expectedSeq ≤ tail.seq := by
  have htotal := h.total
  have hpos : 0 < (recordsOf segs).length := by
    cases h with
    | last at_ accepted ends => simpa using at_.nonempty
    | cons at_ before rest =>
      have := at_.nonempty
      rw [recordsOf_cons, List.length_append]
      omega
  omega

end SegmentChain

/-! ### Whole origins -/

theorem verifyLines_eq_ok {body : SegmentManifestBody} {hash : String} {s t : SegmentRead}
    {lines : List Bytes} :
    commitAll (verifyLine R tail body hash) s lines = .ok t ↔
      (∀ line ∈ lines, line ≠ []) ∧ commitAll (readLine R tail body hash) s lines = .ok t := by
  induction lines generalizing s with
  | nil => simp [commitAll]
  | cons line lines ih =>
    simp only [commitAll_cons, verifyLine, bind_eq_ok, require_eq_ok, List.forall_mem_cons, ih]
    constructor
    · rintro ⟨u, ⟨_, hline, hu⟩, hlines, ht⟩
      exact ⟨⟨hline, hlines⟩, u, hu, ht⟩
    · rintro ⟨⟨hline, hlines⟩, u, hu, ht⟩
      exact ⟨u, ⟨(), hline, hu⟩, hlines, ht⟩

/-- What the reader of whole origins does with one manifest. -/
theorem verifySegments_cons {expectedSeq : Nat} {previousRecord previousManifest : Option String}
    {path : String} {rest : List String} {out : List VerifiedV2Record × Nat} :
    verifySegments R tree trust key tail expectedSeq previousRecord previousManifest (path :: rest) =
        .ok out ↔
      ∃ seg s, seg.path = path ∧
        SegmentAt R tree trust key tail expectedSeq previousRecord previousManifest seg s ∧
        ((seg.manifestHash = tail.segmentManifestHash ∧
            (seg.body.lastSeq = tail.seq ∧ seg.body.lastRecordHash = tail.eventHash) ∧
            out = (seg.records, 1)) ∨
          (seg.manifestHash ≠ tail.segmentManifestHash ∧
            ∃ more, verifySegments R tree trust key tail s.expectedSeq s.previousRecordHash
                (some seg.manifestHash) rest = .ok more ∧
              out = (seg.records ++ more.1, more.2 + 1))) := by
  constructor
  · intro h
    simp only [verifySegments, bind_eq_ok, require_eq_ok, Prod.exists] at h
    obtain ⟨m, hash, hread, _, hsigned, _, hfits, bytes, hbytes, s, hlines, _, hrange, h⟩ := h
    obtain ⟨hne, hlines⟩ := verifyLines_eq_ok.mp hlines
    refine ⟨⟨path, m.body, hash, s.records⟩, s, rfl,
      ⟨⟨m, hread, hsigned, rfl⟩, hfits, ⟨bytes, hbytes, hne, hlines⟩, rfl, hrange⟩, ?_⟩
    split at h
    · rename_i hlast
      simp only [checkTail, bind_eq_ok, require_eq_ok, Except.ok.injEq] at h
      obtain ⟨_, hends, rfl⟩ := h
      exact Or.inl ⟨hlast, hends, rfl⟩
    · rename_i hmore
      simp only [bind_eq_ok, Prod.exists, Except.ok.injEq] at h
      obtain ⟨records, segments, hrest, rfl⟩ := h
      exact Or.inr ⟨hmore, (records, segments), hrest, rfl⟩
  · rintro ⟨⟨path', body, hash, records⟩, s, rfl,
      ⟨⟨m, hread, hsigned, rfl⟩, hfits, ⟨bytes, hbytes, hne, hlines⟩, hrecords, hrange⟩, h⟩
    dsimp only at *
    subst hrecords
    simp only [verifySegments, bind_eq_ok, require_eq_ok, Prod.exists]
    refine ⟨m, hash, hread, (), hsigned, (), hfits, bytes, hbytes, s, verifyLines_eq_ok.mpr ⟨hne, hlines⟩,
      (), hrange, ?_⟩
    rcases h with ⟨hlast, hends, rfl⟩ | ⟨hmore, ⟨records, segments⟩, hrest, rfl⟩
    · rw [if_pos hlast]
      simp only [checkTail, bind_eq_ok, require_eq_ok]
      exact ⟨(), hends, trivial⟩
    · rw [if_neg hmore]
      simp only [bind_eq_ok, Prod.exists]
      exact ⟨records, segments, hrest, rfl⟩

/-- The reader of whole origins succeeds when the manifests it is given begin with a chain. -/
theorem verifySegments_eq_ok {expectedSeq : Nat} {previousRecord previousManifest : Option String}
    {paths : List String} {records : List VerifiedV2Record} {segments : Nat} :
    verifySegments R tree trust key tail expectedSeq previousRecord previousManifest paths =
        .ok (records, segments) ↔
      ∃ segs, SegmentChain R tree trust key tail expectedSeq previousRecord previousManifest segs ∧
        segs.map Segment.path <+: paths ∧ records = recordsOf segs ∧ segments = segs.length := by
  induction paths generalizing expectedSeq previousRecord previousManifest records segments with
  | nil =>
    refine ⟨nofun, ?_⟩
    rintro ⟨segs, hchain, hbegins, -⟩
    rw [List.prefix_nil, List.map_eq_nil_iff] at hbegins
    subst hbegins
    cases hchain
  | cons path rest ih =>
    rw [verifySegments_cons]
    constructor
    · rintro ⟨seg, s, rfl, hat, ⟨hlast, hends, hout⟩ | ⟨hmore, more, hrest, hout⟩⟩
      · cases hout
        exact ⟨[seg], .last hat hlast hends, by simp, by simp, rfl⟩
      · cases hout
        obtain ⟨segs, hchain, hbegins, hrecords, hsegments⟩ := ih.mp hrest
        exact ⟨seg :: segs, .cons hat hmore hchain, (List.prefix_cons_inj _).mpr hbegins,
          by rw [hrecords, recordsOf_cons], by rw [hsegments, List.length_cons]⟩
    · rintro ⟨segs, hchain, hbegins, rfl, rfl⟩
      cases hchain with
      | @last _ _ _ seg s at_ accepted ends =>
        rw [List.map_cons, List.cons_prefix_cons] at hbegins
        exact ⟨seg, s, hbegins.1, at_, Or.inl ⟨accepted, ends, by simp⟩⟩
      | @cons _ _ _ seg s segs at_ before rest' =>
        rw [List.map_cons, List.cons_prefix_cons] at hbegins
        exact ⟨seg, s, hbegins.1, at_, Or.inr ⟨before, (recordsOf segs, segs.length),
          ih.mpr ⟨segs, rest', hbegins.2, rfl, rfl⟩, by simp⟩⟩

/-! ### Streams -/

/-- What a visit does with the records of an authenticated segment. -/
def checkSegment (R : StoreRuntime) (range : OriginRange) (v : RangeVisit) (seg : Segment) :
    StoreResult RangeVisit := do
  let c ← commitAll (checkRecord R range)
    ⟨none, v.clients, v.archiveInitializedAt, v.retainedStarts⟩ seg.records
  require c.active.isNone
    (.invalid ("signed segment contains an incomplete batch at " ++ seg.body.segmentPath))
  .ok ⟨c.clients, v.segments + 1, c.archiveInitializedAt, c.retainedStarts, v.yielded ++ seg.records⟩

/-- A visit reads the lines of a segment and checks the records it reads. -/
theorem visitLines_eq_ok {range : OriginRange} {body : SegmentManifestBody} {hash : String}
    {s t : SegmentVisit} {lines : List Bytes} :
    commitAll (visitLine R range body hash) s lines = .ok t ↔
      (∀ line ∈ lines, line ≠ []) ∧
        commitAll (readLine R range.tail body hash) s.toSegmentRead lines = .ok t.toSegmentRead ∧
        ∃ new, t.records = s.records ++ new ∧
          commitAll (checkRecord R range) s.toRecordChecks new = .ok t.toRecordChecks := by
  induction lines generalizing s with
  | nil =>
    obtain ⟨s, c⟩ := s
    obtain ⟨t, d⟩ := t
    simp only [commitAll, Except.ok.injEq, SegmentVisit.mk.injEq, List.not_mem_nil, false_implies,
      implies_true, true_and]
    constructor
    · rintro ⟨rfl, rfl⟩
      exact ⟨rfl, [], (List.append_nil _).symm, rfl⟩
    · rintro ⟨rfl, new, hnew, hchecks⟩
      rw [List.self_eq_append_right] at hnew
      subst hnew
      exact ⟨rfl, Except.ok.inj hchecks⟩
  | cons line lines ih =>
    simp only [commitAll_cons, visitLine, readRecordLine, readLine, bind_eq_ok, require_eq_ok,
      Prod.exists, Except.ok.injEq, ih, List.forall_mem_cons]
    constructor
    · rintro ⟨u, ⟨_, ⟨_, -, hne⟩, record, next, hparse, checks, hcheck, rfl⟩, hlines, hread, new, hnew, hrest⟩
      refine ⟨⟨hne, hlines⟩, ⟨_, ⟨record, next, hparse, rfl⟩, hread⟩, _ :: new, ?_,
        (commitAll_cons _).mpr ⟨checks, hcheck, hrest⟩⟩
      rw [hnew, List.append_assoc, List.singleton_append]
    · rintro ⟨⟨hne, hlines⟩, ⟨_, ⟨record, next, hparse, rfl⟩, hread⟩, new, hnew, hchecks⟩
      obtain ⟨more, hmore⟩ := readLines_append hread
      rw [hmore, List.append_assoc, List.append_cancel_left_eq, List.singleton_append] at hnew
      subst hnew
      obtain ⟨checks, hcheck, hrest⟩ := (commitAll_cons _).mp hchecks
      have hlength := (parseNext_eq_ok hparse).2.2.2
      refine ⟨⟨_, checks⟩, ⟨(), ⟨(), by omega, hne⟩, record, next, hparse, checks, hcheck, rfl⟩, hlines,
        hread, more, ?_, hrest⟩
      rw [hmore]

/-- Where a visit looks for a segment, and the frontier it has to know. -/
def Visited (range : OriginRange) (seg : Segment) : Prop :=
  seg.path = manifestRelativePath range.tail.originId seg.body.firstSeq ∧
    (range.knownFrontiers.get? seg.body.causalBaseFrontierHash).isSome

variable {range : OriginRange}

/-- What a visit does with one segment. -/
theorem visitSegments_succ {remaining expectedSeq : Nat} {previousRecord previousManifest : Option String}
    {v w : RangeVisit} :
    visitSegments R tree range (remaining + 1) expectedSeq previousRecord previousManifest v = .ok w ↔
      ∃ seg s u, Visited range seg ∧
        SegmentAt R tree range.trust range.key range.tail expectedSeq previousRecord previousManifest seg s ∧
        checkSegment R range v seg = .ok u ∧
        ((seg.manifestHash = range.tail.segmentManifestHash ∧
            (seg.body.lastSeq = range.tail.seq ∧ seg.body.lastRecordHash = range.tail.eventHash) ∧ w = u) ∨
          (seg.manifestHash ≠ range.tail.segmentManifestHash ∧ seg.body.lastSeq < range.tail.seq ∧
            visitSegments R tree range remaining s.expectedSeq s.previousRecordHash
              (some seg.manifestHash) u = .ok w)) := by
  constructor
  · intro h
    simp only [visitSegments, bind_eq_ok, require_eq_ok, Prod.exists] at h
    obtain ⟨m, hash, hread, _, hsigned, _, ⟨hfits, hknown⟩, bytes, hbytes, t, hlines, _, hactive, _, hrange, h⟩ := h
    obtain ⟨hne, hlines, new, hnew, hchecks⟩ := visitLines_eq_ok.mp hlines
    have hat : SegmentAt R tree range.trust range.key range.tail expectedSeq previousRecord previousManifest
        ⟨manifestRelativePath range.tail.originId expectedSeq, m.body, hash, t.records⟩ t.toSegmentRead :=
      ⟨⟨m, hread, hsigned, rfl⟩, hfits, ⟨bytes, hbytes, hne, hlines⟩, rfl, hrange⟩
    refine ⟨_, _, ⟨t.clients, v.segments + 1, t.archiveInitializedAt, t.retainedStarts,
      v.yielded ++ t.records⟩, ⟨?_, hknown⟩, hat, ?_, ?_⟩
    · rw [hat.firstSeq]
    · simp only [checkSegment, bind_eq_ok, require_eq_ok]
      rw [List.nil_append] at hnew
      exact ⟨t.toRecordChecks, by rw [hnew]; exact hchecks, (), hactive, rfl⟩
    · split at h
      · rename_i hlast
        simp only [checkTail, bind_eq_ok, require_eq_ok, Except.ok.injEq] at h
        obtain ⟨_, hends, rfl⟩ := h
        exact Or.inl ⟨hlast, hends, rfl⟩
      · rename_i hmore
        simp only [bind_eq_ok, require_eq_ok] at h
        obtain ⟨_, hbefore, h⟩ := h
        exact Or.inr ⟨hmore, hbefore, h⟩
  · rintro ⟨⟨path, body, hash, records⟩, s, u, ⟨hpath, hknown⟩, hat, hcheck, h⟩
    rw [hat.firstSeq] at hpath
    dsimp only at hpath
    subst hpath
    obtain ⟨⟨m, hread, hsigned, rfl⟩, hfits, ⟨bytes, hbytes, hne, hlines⟩, hrecords, hrange⟩ := hat
    dsimp only at *
    subst hrecords
    simp only [checkSegment, bind_eq_ok, require_eq_ok, Except.ok.injEq] at hcheck
    obtain ⟨c, hchecks, _, hactive, rfl⟩ := hcheck
    simp only [visitSegments, bind_eq_ok, require_eq_ok, Prod.exists]
    refine ⟨m, hash, hread, (), hsigned, (), ⟨hfits, hknown⟩, bytes, hbytes, ⟨s, c⟩,
      visitLines_eq_ok.mpr ⟨hne, hlines, s.records, rfl, hchecks⟩, (), hactive, (), hrange, ?_⟩
    rcases h with ⟨hlast, hends, rfl⟩ | ⟨hmore, hbefore, hrest⟩
    · rw [if_pos hlast]
      simp only [checkTail, bind_eq_ok, require_eq_ok]
      exact ⟨(), hends, trivial⟩
    · rw [if_neg hmore]
      simp only [bind_eq_ok, require_eq_ok]
      exact ⟨(), hbefore, hrest⟩

theorem visitSegments_chain {remaining expectedSeq : Nat} {previousRecord previousManifest : Option String}
    {v w : RangeVisit}
    (h : visitSegments R tree range remaining expectedSeq previousRecord previousManifest v = .ok w) :
    ∃ segs, SegmentChain R tree range.trust range.key range.tail expectedSeq previousRecord
        previousManifest segs ∧
      (∀ seg ∈ segs, Visited range seg) ∧ commitAll (checkSegment R range) v segs = .ok w := by
  induction remaining generalizing expectedSeq previousRecord previousManifest v with
  | zero => cases h
  | succ remaining ih =>
    obtain ⟨seg, s, u, hvisited, hat, hcheck, ⟨hlast, hends, rfl⟩ | ⟨hmore, -, hrest⟩⟩ :=
      visitSegments_succ.mp h
    · exact ⟨[seg], .last hat hlast hends, List.forall_mem_singleton.mpr hvisited,
        (commitAll_cons _).mpr ⟨w, hcheck, rfl⟩⟩
    · obtain ⟨segs, hchain, hall, hsegs⟩ := ih hrest
      exact ⟨seg :: segs, .cons hat hmore hchain, List.forall_mem_cons.mpr ⟨hvisited, hall⟩,
        (commitAll_cons _).mpr ⟨u, hcheck, hsegs⟩⟩

/-- As each segment holds a record, the visit of a chain comes to its end. -/
theorem SegmentChain.visit {expectedSeq : Nat} {previousRecord previousManifest : Option String}
    {segs : List Segment} {v w : RangeVisit}
    (hchain : SegmentChain R tree range.trust range.key range.tail expectedSeq previousRecord
      previousManifest segs)
    (hall : ∀ seg ∈ segs, Visited range seg) (hsegs : commitAll (checkSegment R range) v segs = .ok w)
    {remaining : Nat} (hremaining : range.tail.seq + 1 - expectedSeq ≤ remaining) :
    visitSegments R tree range remaining expectedSeq previousRecord previousManifest v = .ok w := by
  induction hchain generalizing v remaining with
  | @last expectedSeq _ _ seg s at_ accepted ends =>
    obtain ⟨u, hcheck, hu⟩ := (commitAll_cons _).mp hsegs
    cases hu
    have hpos := at_.nonempty
    have hlast := at_.lastSeq
    obtain ⟨remaining, rfl⟩ : ∃ n, remaining = n + 1 :=
      ⟨remaining - 1, by have := ends.1; omega⟩
    exact visitSegments_succ.mpr ⟨seg, s, w, List.forall_mem_singleton.mp hall, at_, hcheck,
      Or.inl ⟨accepted, ends, rfl⟩⟩
  | @cons expectedSeq _ _ seg s segs at_ before rest ih =>
    obtain ⟨u, hcheck, hu⟩ := (commitAll_cons _).mp hsegs
    obtain ⟨hvisited, hall⟩ := List.forall_mem_cons.mp hall
    have hpos := at_.nonempty
    have hlast := at_.lastSeq
    have hnext := at_.next
    have hle := rest.le_tail
    obtain ⟨remaining, rfl⟩ : ∃ n, remaining = n + 1 := ⟨remaining - 1, by omega⟩
    exact visitSegments_succ.mpr ⟨seg, s, u, hvisited, at_, hcheck,
      Or.inr ⟨before, by omega, ih hall hu (by omega)⟩⟩

theorem visitSegments_eq_ok {expectedSeq : Nat} {previousRecord previousManifest : Option String}
    {v w : RangeVisit} :
    visitSegments R tree range (range.tail.seq + 1 - expectedSeq) expectedSeq previousRecord
        previousManifest v = .ok w ↔
      ∃ segs, SegmentChain R tree range.trust range.key range.tail expectedSeq previousRecord
          previousManifest segs ∧
        (∀ seg ∈ segs, Visited range seg) ∧ commitAll (checkSegment R range) v segs = .ok w := by
  constructor
  · exact visitSegments_chain
  · rintro ⟨segs, hchain, hall, hsegs⟩
    exact hchain.visit hall hsegs le_rfl

/-! ### What the checks of a segment leave alone -/

end ArchiveLedger
