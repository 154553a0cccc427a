import ArchiveLedger.Events.Disk

/-!
# Looking at the files again

`inspect_writer_state` reads the manifests, repairs the end of the open segment and finds out where the stream goes on.
From an intact directory it succeeds: an incomplete line is cut off, a complete one gets its end, and the writer then
knows what the directory holds (`Tracks`).  Nothing that was there before is lost (`inspect_spec`).
-/

namespace ArchiveLedger.Events

open CrashLogic HashChain Lines Outcome Transition

section

variable (R : EventRuntime) (config : EventStoreConfig)

/-- What stands behind the lines of the open segment is an initial part of a line that was being written. -/
def Interrupted (closed : List (Nat × Bytes)) (o : OpenText) : Prop :=
  ∃ e, WritesBack R e ∧
    Reads R config (firstOf closed + o.lines.length) (tip (eventHash R) none (linesIn closed ++ o.lines)) (R.writeEnvelope e) e ∧
    o.rest <+: R.writeEnvelope e ∧ 1 + (allLines closed (some o)).length + 1 ≤ canonicalNames

/-- What a stopped writer leaves. -/
def Intact (dir : EventDir) : Prop :=
  ∃ closed opened, Holds R config dir closed opened ∧ ∀ o, opened = some o → o.rest = [] ∨ Interrupted R config closed o

/-- A writer that knows what the directory holds. -/
structure Tracks (dir : EventDir) (closed : List (Nat × Bytes)) (lines : Option (List Bytes)) (state : WriterState) : Prop where
  holds : Holds R config dir closed (lines.map fun l => ⟨l, []⟩)
  nextSeq : state.nextSeq = firstOf closed + (lines.getD []).length
  previous : state.previousEventHash = tip (eventHash R) none (linesIn closed ++ lines.getD [])
  opened : state.opened = lines.map fun l => ⟨firstOf closed, l.length⟩
  last : state.closed.getLast?.map SegmentManifest.lastEventHash = tip (eventHash R) none (linesIn closed)

/-- A line that is complete but for its end, behind the last end of a line; the repair keeps it. -/
def leftLines (dir : EventDir) : List Bytes :=
  ((dir.segments.getLast?.map fun segment => (cut 10 segment.2).2).filter fun rest =>
    decide (rest ≠ []) && (R.readValue rest).isSome).toList

/-- What the repair of the open segment makes of a directory. -/
structure Repaired (dir : EventDir) (closed : List (Nat × Bytes)) (opened : Option OpenText) (lines : List Bytes)
    (dir' : EventDir) : Prop where
  holds : Holds R config dir' closed (opened.map fun o => ⟨o.lines ++ lines, []⟩)
  grows : Extends R dir dir' lines
  lines : lines = leftLines R dir

variable {R config}

theorem length_leftLines (dir : EventDir) : (leftLines R dir).length ≤ 1 := by
  unfold leftLines
  rw [Option.length_toList]
  split <;> decide

/-- Where nobody was stopped there is no such line. -/
theorem Holds.leftLines_nil {dir : EventDir} {closed : List (Nat × Bytes)} {opened : Option OpenText}
    (h : Holds R config dir closed opened) (hwhole : ∀ o, opened = some o → o.rest = []) : leftLines R dir = [] := by
  obtain ⟨-, -, hsegments⟩ := verifies_iff.mp (h.verifies hwhole)
  unfold leftLines
  cases hlast : dir.segments.getLast? with
  | none => rfl
  | some segment =>
    rw [Option.map_some, hsegments segment (List.mem_of_getLast? hlast)]
    rfl

theorem Holds.leftLines_some {dir : EventDir} {closed : List (Nat × Bytes)} {o : OpenText}
    (h : Holds R config dir closed (some o)) :
    leftLines R dir = if o.rest ≠ [] ∧ (R.readValue o.rest).isSome = true then [o.rest] else [] := by
  have hsegments := h.segments
  unfold leftLines
  rw [hsegments, Option.map_some, Option.toList_some, List.getLast?_concat, Option.map_some,
    OpenText.cut_bytes (h.text o rfl), Option.filter_some]
  simp only [Bool.and_eq_true, decide_eq_true_eq]
  split
  · rfl
  · rfl

/-! ### The end of the open segment -/

theorem runs_readSegment {C : EventDir → Prop} {dir : EventDir} {firstSeq : Nat} {bytes : Bytes} {α : Type}
    {f : Bytes → Writes α} {Q : EventResult α → EventDir → Prop} (hbytes : dir.segment? firstSeq = some bytes)
    (h : Runs C (f bytes) dir Q) : Runs C (readSegment firstSeq >>= f) dir Q := by
  refine runs_then (P := fun b t => b = bytes ∧ t = dir) ?_ ?_
  · unfold readSegment
    exact runs_get_bind (runs_lift ⟨bytes, okOr_eq_ok.mpr hbytes, rfl, rfl⟩)
  · rintro b t ⟨rfl, rfl⟩
    exact h

theorem recover_spec {C : EventDir → Prop} {dir : EventDir} {closed : List (Nat × Bytes)} {o : OpenText}
    (h : Holds R config dir closed (some o)) (hrest : o.rest = [] ∨ Interrupted R config closed o)
    (hC : ∀ lines t, Repaired R config dir closed (some o) lines t → C t) :
    Runs C (recoverOpenTail R config (firstOf closed) (tip (eventHash R) none (linesIn closed))) dir
      fun r t => ∃ u, r = .ok u ∧ ∃ lines, Repaired R config dir closed (some o) lines t := by
  have hcut := OpenText.cut_bytes (h.text o rfl)
  have hchain := h.chain o rfl
  obtain ⟨s, hs⟩ : ∃ s, commitAll (scanLine R config (relativeSegmentPath (firstOf closed)))
      (.start (firstOf closed) (tip (eventHash R) none (linesIn closed))) o.lines = .ok s := exists_commitAll hchain
  have hscanned := scanned_of_commitAll hs
  unfold recoverOpenTail
  refine runs_readSegment h.segment? ?_
  rw [hcut]
  refine runs_check hs ?_
  by_cases hempty : o.rest = []
  · rw [if_pos hempty]
    have ho : o = ⟨o.lines ++ [], []⟩ := by
      rw [List.append_nil, ← hempty]
    have hsame : Holds R config dir closed (some ⟨o.lines ++ [], []⟩) := by
      rw [← ho]
      exact h
    have hleft : [] = leftLines R dir := by
      rw [h.leftLines_some, if_neg fun hrest => hrest.1 hempty]
    exact runs_pure ⟨(), rfl, [], hsame, extends_refl dir, hleft⟩
  · obtain ⟨e, hback, hreads, hprefix, hroom⟩ := hrest.resolve_left hempty
    rw [if_neg hempty]
    have hfits : o.rest.length ≤ config.maxEventBytes := hprefix.length_le.trans hreads.fits
    refine runs_check (a := ()) (require_eq_ok.mpr hfits) ?_
    by_cases hline : o.rest = R.writeEnvelope e
    · -- the line is complete and only lacks its end
      obtain ⟨v, hv, he⟩ := hback.value
      have hstands : Stands R s.expectedSeq s.previousHash e := by
        rw [hscanned.expectedSeq, hscanned.previousHash, ← tip_append]
        exact hreads.stands
      have hnew : Chain R config (firstOf closed) (tip (eventHash R) none (linesIn closed)) (o.lines ++ [o.rest]) := by
        refine chain_append.mpr ⟨hchain, ⟨e, ?_⟩, trivial⟩
        rw [hline, ← tip_append]
        exact hreads
      have hwritten := @Holds.write R config dir closed o ⟨o.lines ++ [o.rest], []⟩ h hnew
        ⟨fun line hmem => ?_, List.not_mem_nil⟩ ?_
      · rw [hline, hv]
        have hbytes : o.bytes ++ [10] = OpenText.bytes ⟨o.lines ++ [o.rest], []⟩ := by
          show join 10 o.lines ++ o.rest ++ [10] = join 10 (o.lines ++ [o.rest]) ++ []
          rw [join_append, join_cons, join_nil, List.append_nil, List.append_assoc]
        have hrepaired : Repaired R config dir closed (some o) [o.rest]
            (dir.setSegment (firstOf closed) (o.bytes ++ [10])) := by
          rw [hbytes]
          refine ⟨hwritten, h.extends_write hwritten rfl, ?_⟩
          rw [h.leftLines_some, if_pos ⟨hempty, by rw [hline, hv]; rfl⟩]
        refine runs_check (mapError_eq_ok.mpr he) (runs_check (a := ()) (validateEvent_eq_ok.mpr hstands) (runs_write ?_ ?_))
        · intro t ht
          rw [List.mem_singleton.mp ht]
          exact hC _ _ hrepaired
        · exact ⟨(), rfl, _, hrepaired⟩
      · rcases List.mem_append.mp hmem with hmem | hmem
        · exact (h.text o rfl).1 line hmem
        · rw [List.mem_singleton.mp hmem]
          exact (h.text o rfl).2
      · have hlength : (allLines closed (some ⟨o.lines ++ [o.rest], []⟩)).length = (allLines closed (some o)).length + 1 := by
          show (linesIn closed ++ (o.lines ++ [o.rest])).length = (linesIn closed ++ o.lines).length + 1
          rw [List.length_append, List.length_append, List.length_append]
          rfl
        omega
    · -- the line is incomplete
      rw [hback.part o.rest hprefix hline]
      have hwritten := @Holds.write R config dir closed o ⟨o.lines ++ [], []⟩ h (by rw [List.append_nil]; exact hchain)
        ⟨by rw [List.append_nil]; exact (h.text o rfl).1, List.not_mem_nil⟩ (by
          have := h.names
          rwa [List.append_nil])
      have hbytes : o.bytes.take s.sizeBytes = OpenText.bytes ⟨o.lines ++ [], []⟩ := by
        show (join 10 o.lines ++ o.rest).take s.sizeBytes = join 10 (o.lines ++ []) ++ []
        rw [hscanned.sizeBytes, List.take_left, List.append_nil, List.append_nil]
      have hrepaired : Repaired R config dir closed (some o) []
          (dir.setSegment (firstOf closed) (o.bytes.take s.sizeBytes)) := by
        rw [hbytes]
        refine ⟨hwritten, h.extends_write hwritten rfl, ?_⟩
        rw [h.leftLines_some, hback.part o.rest hprefix hline, if_neg fun hrest => Bool.false_ne_true hrest.2]
      refine runs_write ?_ ?_
      · intro t ht
        rw [List.mem_singleton.mp ht]
        exact hC _ _ hrepaired
      · exact ⟨(), rfl, _, hrepaired⟩

/-! ### All segments -/

theorem inspect_closed {C : EventDir → Prop} {dir : EventDir} {closed rest : List (Nat × Bytes)} {s : WriterState}
    {Q : EventResult WriterState → EventDir → Prop} (h : Closed R config dir s.nextSeq s.previousEventHash closed)
    (hmax : s.nextSeq + (linesIn closed).length ≤ u64Max)
    (hlast : s.closed.getLast?.map SegmentManifest.lastEventHash = s.previousEventHash)
    (hrest : ∀ manifests, (manifests.getLast?.map SegmentManifest.lastEventHash =
        tip (eventHash R) s.previousEventHash (linesIn closed)) →
      Runs C (inspectSegments R config ⟨manifests, s.opened, s.nextSeq + (linesIn closed).length,
        tip (eventHash R) s.previousEventHash (linesIn closed)⟩ rest) dir Q) :
    Runs C (inspectSegments R config s (closed ++ rest)) dir Q := by
  induction closed generalizing s with
  | nil => exact hrest s.closed hlast
  | cons segment closed ih =>
    obtain ⟨hfirst, ⟨file, m, hfile, hread, hcloses⟩, hclosed⟩ := h
    obtain ⟨hlines, hseq, hhash⟩ := hcloses.last
    rw [linesIn_cons, List.length_append, ← Nat.add_assoc] at hmax
    rw [List.cons_append, inspectSegments]
    refine runs_then (P := fun s' t => t = dir ∧ s' = ⟨s.closed ++ [m], s.opened, s.nextSeq + (linesOf segment.2).length,
      tip (eventHash R) s.previousEventHash (linesOf segment.2)⟩) ?_ ?_
    · unfold inspectSegment
      refine runs_check (a := ()) (require_eq_ok.mpr hfirst) (runs_get_bind ?_)
      rw [hfirst, hfile]
      refine runs_check (mapError_eq_ok.mpr hread) (runs_check (a := ()) hcloses.shape ?_)
      refine runs_check (okOr_eq_ok.mpr (checkedAdd_eq_some.mpr ⟨?_, hseq⟩)) (runs_pure ⟨_, rfl, rfl, ?_⟩)
      · omega
      · rw [hhash]
    · rintro s' t ⟨rfl, rfl⟩
      refine ih hclosed hmax ?_ ?_
      · rw [List.getLast?_concat]
        exact hhash
      · intro manifests hmanifests
        have hgo := hrest manifests
        rw [linesIn_cons, List.length_append, tip_append, ← Nat.add_assoc] at hgo
        exact hgo hmanifests

theorem checkUnmanifested_ok {dir : EventDir} {closed : List (Nat × Bytes)} {opened : Option OpenText}
    (h : Holds R config dir closed opened) : checkUnmanifested dir = .ok () := by
  have hclosed : (closed.map Prod.fst).filter (fun firstSeq => (dir.manifest? firstSeq).isNone) = [] := by
    rw [List.filter_eq_nil_iff]
    intro firstSeq hmem hnone
    obtain ⟨segment, hsegment, rfl⟩ := List.mem_map.mp hmem
    obtain ⟨before, after, hsplit⟩ := List.append_of_mem hsegment
    have hrow := h.row
    rw [hsplit] at hrow
    obtain ⟨-, hfirst, ⟨file, m, hfile, -, -⟩, -⟩ := closed_append.mp hrow
    rw [hfirst, hfile] at hnone
    cases hnone
  unfold checkUnmanifested
  rw [h.segments, List.map_append, List.filter_append, hclosed]
  cases opened with
  | none => rfl
  | some o =>
    have hfilter : ([(firstOf closed, o.bytes)].map Prod.fst).filter (fun firstSeq => (dir.manifest? firstSeq).isNone) =
        [firstOf closed] := by
      show [firstOf closed].filter _ = _
      rw [List.filter_cons, h.no_manifest]
      rfl
    show (do
      require (([] ++ ([(firstOf closed, o.bytes)].map Prod.fst).filter _).length ≤ 1) _
      (([] ++ ([(firstOf closed, o.bytes)].map Prod.fst).filter _).head?).forM _) = _
    simp only [hfilter, bind_eq_ok, require_eq_ok]
    exact ⟨(), le_rfl, require_eq_ok.mpr List.getLast?_concat⟩

/-- **Whoever writes next finds out where the stream goes on.** -/
theorem inspect_spec {C : EventDir → Prop} {dir : EventDir} {closed : List (Nat × Bytes)} {opened : Option OpenText}
    (h : Holds R config dir closed opened) (hrest : ∀ o, opened = some o → o.rest = [] ∨ Interrupted R config closed o)
    (hC : ∀ lines t, Repaired R config dir closed opened lines t → C t) :
    Runs C (inspectWriterState R config) dir fun r t => ∃ state, r = .ok state ∧ ∃ lines,
      Repaired R config dir closed opened lines t ∧ Tracks R config t closed (opened.map fun o => o.lines ++ lines) state := by
  have hnames := h.names
  have hle := canonicalNames_le
  rw [allLines, List.length_append] at hnames
  unfold inspectWriterState
  refine runs_get_bind (runs_check (a := ()) h.checkManifests (runs_check (a := ()) (checkUnmanifested_ok h) ?_))
  rw [h.segments]
  refine inspect_closed h.row (by show 1 + _ ≤ _; omega) rfl fun manifests hlast => ?_
  cases opened with
  | none =>
    have hleft : leftLines R dir = [] := h.leftLines_nil fun _ ho => absurd ho (Option.some_ne_none _).symm
    have hrepaired : Repaired R config dir closed none [] dir := ⟨h, extends_refl dir, hleft.symm⟩
    refine runs_pure ⟨_, rfl, [], hrepaired, h, rfl, ?_, rfl, hlast⟩
    rw [Option.map_none, Option.getD_none, List.append_nil]
  | some o =>
    have hchain := h.chain o rfl
    show Runs C (inspectSegments R config _ [(firstOf closed, o.bytes)]) dir _
    rw [inspectSegments]
    refine runs_then (P := fun state t => ∃ lines, Repaired R config dir closed (some o) lines t ∧
      Tracks R config t closed (some (o.lines ++ lines)) state) ?_ ?_
    · unfold inspectSegment
      refine runs_check (a := ()) (require_eq_ok.mpr rfl) (runs_get_bind ?_)
      rw [h.no_manifest]
      refine runs_then (recover_spec h (hrest o rfl) hC) ?_
      rintro u t ⟨lines, hrepaired⟩
      have hholds : Holds R config t closed (some ⟨o.lines ++ lines, []⟩) := hrepaired.holds
      have hcut := OpenText.cut_bytes (hholds.text _ rfl)
      have hnew := hholds.chain _ rfl
      have hlines : linesOf (OpenText.bytes ⟨o.lines ++ lines, []⟩) = o.lines ++ lines := congrArg Prod.fst hcut
      obtain ⟨scan, hscan⟩ : ∃ scan, scanSegment R config (OpenText.bytes ⟨o.lines ++ lines, []⟩) (firstOf closed)
          (tip (eventHash R) none (linesIn closed)) true = .ok scan :=
        exists_scan (congrArg Prod.snd hcut) (by rw [hlines]; exact hnew) fun _ => rfl
      have hspec := scan_spec hscan
      refine runs_readSegment hholds.segment? (runs_check hscan (runs_pure ⟨_, rfl, lines, hrepaired, hholds, ?_, ?_, ?_, hlast⟩))
      · show (scan.lastSeq.map (· + 1)).getD (firstOf closed) = firstOf closed + (o.lines ++ lines).length
        rw [hspec.lastSeq, hlines]
        by_cases hnil : o.lines ++ lines = []
        · rw [if_pos hnil, hnil]
          rfl
        · have hpos := List.length_pos_iff.mpr hnil
          rw [if_neg hnil]
          show firstOf closed + (o.lines ++ lines).length - 1 + 1 = _
          omega
      · show scan.lastEventHash.or (tip (eventHash R) none (linesIn closed)) = _
        rw [hspec.lastEventHash, hlines, Option.getD_some, tip_append]
        rfl
      · show some (⟨firstOf closed, scan.eventCount⟩ : OpenSegment) = _
        rw [hspec.eventCount, hlines]
        rfl
    · rintro state t ⟨lines, hrepaired, htracks⟩
      exact runs_pure ⟨state, rfl, lines, hrepaired, htracks⟩

end

end ArchiveLedger.Events
