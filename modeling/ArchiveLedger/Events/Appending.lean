import ArchiveLedger.Annex.LocationLog
import ArchiveLedger.Catalog.Run
import ArchiveLedger.Events.Recovery
import ArchiveLedger.Journal.Validation
import ArchiveLedger.Journal.Values
import ArchiveLedger.Journal.Verifiers

/-!
# Appending lines

A line is appended byte by byte, and a segment that is full is closed by its manifest.  In every state in between the
directory is intact and has the lines it had before, and perhaps the new one (`append_spec`).  A batch is appended line by
line, so a writer that is stopped in it has appended the first of its lines (`appendAll_spec`).
-/

namespace ArchiveLedger.Events

open CrashLogic HashChain Lines Outcome Transition

section

variable (R : EventRuntime) (config : EventStoreConfig)

/-- What is documented of BLAKE3 and of serde. -/
structure EventRuntime.Sound : Prop where
  ids : ∀ bytes, isBlake3Identifier (eventHash R bytes) = true
  manifests : ∀ m, R.readManifest (R.writeManifest m) = .ok m

/-- Lines that go on with the stream and will be read again. -/
def Written : Nat → Option String → List Prepared → Prop
  | _, _, [] => True
  | seq, previous, p :: ps =>
      p.line = R.writeEnvelope p.envelope ∧ p.hash = eventHash R p.line ∧ WritesBack R p.envelope ∧
        Reads R config seq previous p.line p.envelope ∧ Written (seq + 1) (some p.hash) ps

variable {R config}

/-! ### Closing -/

/-- The manifest of a scan has the right shape. -/
theorem closes_of_scan (hR : R.Sound) {bytes : Bytes} {first : Nat} {previous : Option String} {scan : SegmentScan}
    (hscan : scanSegment R config bytes first previous false = .ok scan) (hlines : linesOf bytes ≠ [])
    (hmax : first + (linesOf bytes).length ≤ u64Max) :
    ∃ m, manifestFromScan scan = .ok m ∧ Closes R config bytes first previous m := by
  have hspec := scan_spec hscan
  have hpos := List.length_pos_iff.mpr hlines
  obtain ⟨hfirst, hlast⟩ := hspec.named hlines
  obtain ⟨firstId, hfirst⟩ := Option.isSome_iff_exists.mp hfirst
  obtain ⟨lastId, hlast⟩ := Option.isSome_iff_exists.mp hlast
  obtain ⟨line, hline⟩ : ∃ line, (linesOf bytes).getLast? = some line :=
    ⟨_, List.getLast?_eq_some_getLast hlines⟩
  have hseq : scan.lastSeq = some (first + (linesOf bytes).length - 1) := by rw [hspec.lastSeq, if_neg hlines]
  have hhash : scan.lastEventHash = some (eventHash R line) := by
    rw [hspec.lastEventHash, hline]
    rfl
  have hm : manifestFromScan scan = .ok
      ⟨manifestVersion, streamId, relativeSegmentPath first, first, first + (linesOf bytes).length - 1, firstId, lastId,
        eventHash R line, (linesOf bytes).length, bytes.length, "blake3:" ++ R.blake3 bytes⟩ := by
    unfold manifestFromScan
    rw [hseq, hfirst, hlast, hhash, hspec.firstSeq, hspec.eventCount, hspec.sizeBytes, hspec.blake3]
    rfl
  refine ⟨_, hm, ?_, scan, hscan, hm⟩
  have hrange : checkedAdd first ((linesOf bytes).length - 1) = some (first + (linesOf bytes).length - 1) :=
    checkedAdd_eq_some.mpr ⟨by omega, by omega⟩
  unfold validateManifestShape
  simp only [bind_eq_ok, require_eq_ok, okOr_eq_ok]
  exact ⟨(), trivial, (), trivial, (), trivial, (), ⟨trivial, hpos.ne'⟩, _, hrange, (), rfl, (),
    ⟨hspec.firstId firstId hfirst, hspec.lastId lastId hlast⟩, (), ⟨hR.ids line, hR.ids bytes⟩, trivial⟩

/-- The closed segments after one more. -/
def closing (closed : List (Nat × Bytes)) (lines : List Bytes) : List (Nat × Bytes) :=
  closed ++ [(firstOf closed, OpenText.bytes ⟨lines, []⟩)]

theorem close_spec (hR : R.Sound) {C : EventDir → Prop} {dir : EventDir} {closed : List (Nat × Bytes)} {lines : List Bytes}
    {state : WriterState} (h : Tracks R config dir closed (some lines) state) (hne : lines ≠ [])
    (hC : ∀ t, Holds R config t (closing closed lines) none → Extends R dir t [] → C t) :
    Runs C (closeOpenSegment R config state) dir fun r t => ∃ state', r = .ok state' ∧
      Tracks R config t (closing closed lines) none state' ∧ Extends R dir t [] := by
  have hholds : Holds R config dir closed (some ⟨lines, []⟩) := h.holds
  have hopened : state.opened = some ⟨firstOf closed, lines.length⟩ := h.opened
  have hcut := OpenText.cut_bytes (hholds.text _ rfl)
  have hlines : linesOf (OpenText.bytes ⟨lines, []⟩) = lines := congrArg Prod.fst hcut
  have hpos := List.length_pos_iff.mpr hne
  have hnames := hholds.names
  have hle := canonicalNames_le
  have hall : (allLines closed (some ⟨lines, []⟩)).length = (linesIn closed).length + lines.length := List.length_append
  obtain ⟨scan, hscan⟩ : ∃ scan, scanSegment R config (OpenText.bytes ⟨lines, []⟩) (firstOf closed)
      (tip (eventHash R) none (linesIn closed)) false = .ok scan :=
    exists_scan (congrArg Prod.snd hcut) (by rw [hlines]; exact hholds.chain _ rfl) fun hnil => absurd (hlines ▸ hnil) hne
  have hspec := scan_spec hscan
  obtain ⟨m, hm, hcloses⟩ := closes_of_scan hR hscan (by rw [hlines]; exact hne) (by rw [hlines]; unfold firstOf; omega)
  have hclosed : Holds R config (dir.setManifest (firstOf closed) (R.writeManifest m)) (closing closed lines) none :=
    hholds.close (hR.manifests m) hcloses
  have hgrows : Extends R dir (dir.setManifest (firstOf closed) (R.writeManifest m)) [] :=
    ⟨(List.append_nil _).symm, List.prefix_rfl⟩
  obtain ⟨-, hseq, hhash⟩ := hcloses.last
  have hlinesIn : linesIn (closing closed lines) = linesIn closed ++ lines := by
    unfold closing
    rw [linesIn_append, linesIn_singleton]
    show _ ++ linesOf (OpenText.bytes ⟨lines, []⟩) = _
    rw [hlines]
  rw [hlines] at hseq hhash
  unfold closeOpenSegment
  rw [hopened]
  refine runs_check (a := ()) (require_eq_ok.mpr hpos.ne') (runs_readSegment hholds.segment? ?_)
  rw [h.last]
  refine runs_check hscan (runs_check (a := ()) (require_eq_ok.mpr (by rw [hspec.eventCount, hlines])) ?_)
  refine runs_then (P := fun m' t => m' = m ∧ t = dir.setManifest (firstOf closed) (R.writeManifest m)) ?_ ?_
  · unfold publishManifest
    refine runs_check hm (runs_get_bind ?_)
    rw [hspec.firstSeq, hholds.no_manifest]
    refine runs_then (P := fun u t => t = dir.setManifest (firstOf closed) (R.writeManifest m)) (runs_write ?_ ⟨(), rfl, rfl⟩) ?_
    · intro t ht
      rw [List.mem_singleton.mp ht]
      exact hC _ hclosed hgrows
    · rintro u t rfl
      exact runs_pure ⟨m, rfl, rfl, rfl⟩
  · rintro m' t ⟨rfl, rfl⟩
    refine runs_pure ⟨_, rfl, ⟨hclosed, ?_, ?_, rfl, ?_⟩, hgrows⟩
    · show m'.lastSeq + 1 = firstOf (closing closed lines) + 0
      unfold firstOf at hseq ⊢
      rw [hseq, hlinesIn, List.length_append]
      omega
    · show some m'.lastEventHash = tip (eventHash R) none (linesIn (closing closed lines) ++ [])
      rw [hhash, hlinesIn, List.append_nil, tip_append]
    · show (state.closed ++ [m']).getLast?.map SegmentManifest.lastEventHash = _
      rw [List.getLast?_concat, hlinesIn, tip_append, ← hhash]
      rfl

/-! ### One line -/

/-- A writer with or without an open segment opens one. -/
theorem open_spec {C : EventDir → Prop} {dir : EventDir} {closed : List (Nat × Bytes)} {opened : Option (List Bytes)}
    {state : WriterState} (h : Tracks R config dir closed opened state) (hname : firstOf closed < canonicalNames)
    (hC : ∀ t, Holds R config t closed (some ⟨[], []⟩) → Extends R dir t [] → C t) :
    Runs C (openSegment state) dir fun r t => ∃ o : OpenSegment, r = .ok o ∧ o = ⟨firstOf closed, (opened.getD []).length⟩ ∧
      Holds R config t closed (some ⟨opened.getD [], []⟩) ∧ Extends R dir t [] := by
  unfold openSegment
  rw [h.opened]
  cases opened with
  | some lines => exact runs_pure ⟨_, rfl, rfl, h.holds, extends_refl dir⟩
  | none =>
    have hholds : Holds R config dir closed none := h.holds
    have hseq : state.nextSeq = firstOf closed := h.nextSeq
    have hcreated := hholds.create hname
    have hgrows := hholds.extends_create hcreated
    show Runs C (createSegment state.nextSeq >>= fun _ => (pure (⟨state.nextSeq, 0⟩ : OpenSegment) : Writes OpenSegment)) dir _
    rw [hseq]
    refine runs_then (P := fun u t => t = dir.setSegment (firstOf closed) []) ?_ ?_
    · unfold createSegment
      refine runs_get_bind (runs_check (a := ()) (require_eq_ok.mpr ?_) (runs_write ?_ ⟨(), rfl, rfl⟩))
      · rw [hholds.no_segment]
        rfl
      · intro t ht
        rw [List.mem_singleton.mp ht]
        exact hC _ hcreated hgrows
    · rintro u t rfl
      exact runs_pure ⟨_, rfl, rfl, hcreated, hgrows⟩

/-- The bytes of a line arrive one after the other. -/
theorem appendBytes_spec {C : EventDir → Prop} {dir : EventDir} {closed : List (Nat × Bytes)} {lines : List Bytes}
    {e : EventEnvelope} (h : Holds R config dir closed (some ⟨lines, []⟩)) (hback : WritesBack R e)
    (hreads : Reads R config (firstOf closed + lines.length) (tip (eventHash R) none (linesIn closed ++ lines))
      (R.writeEnvelope e) e)
    (hroom : 1 + (allLines closed (some ⟨lines, []⟩)).length + 1 ≤ canonicalNames)
    (hC : ∀ t l, Intact R config t → Extends R dir t l → (l = [] ∨ l = [R.writeEnvelope e]) → C t) :
    Runs C (appendBytes (firstOf closed) (R.writeEnvelope e ++ [10])) dir fun r t => ∃ u, r = .ok u ∧
      Holds R config t closed (some ⟨lines ++ [R.writeEnvelope e], []⟩) ∧ Extends R dir t [R.writeEnvelope e] := by
  have hchain := h.chain _ rfl
  have htext := h.text _ rfl
  have hnew : Chain R config (firstOf closed) (tip (eventHash R) none (linesIn closed)) (lines ++ [R.writeEnvelope e]) := by
    refine chain_append.mpr ⟨hchain, ⟨e, ?_⟩, trivial⟩
    rw [← tip_append]
    exact hreads
  have hend : Holds R config (dir.setSegment (firstOf closed) (OpenText.bytes ⟨lines ++ [R.writeEnvelope e], []⟩)) closed
      (some ⟨lines ++ [R.writeEnvelope e], []⟩) := by
    refine h.write hnew ⟨fun line hline => ?_, List.not_mem_nil⟩ ?_
    · rcases List.mem_append.mp hline with hline | hline
      · exact htext.1 line hline
      · rw [List.mem_singleton.mp hline]
        exact hback.line
    · have hlength : (allLines closed (some ⟨lines ++ [R.writeEnvelope e], []⟩)).length =
          (allLines closed (some ⟨lines, []⟩)).length + 1 := by
        show (linesIn closed ++ (lines ++ [R.writeEnvelope e])).length = (linesIn closed ++ lines).length + 1
        rw [List.length_append, List.length_append, List.length_append]
        rfl
      omega
  have hpart : ∀ n, Holds R config (dir.setSegment (firstOf closed)
      (OpenText.bytes ⟨lines, (R.writeEnvelope e).take n⟩)) closed (some ⟨lines, (R.writeEnvelope e).take n⟩) :=
    fun n => h.write hchain ⟨htext.1, fun hmem => hback.line (List.mem_of_mem_take hmem)⟩ h.names
  -- the text after so many bytes
  have hstate : ∀ n, OpenText.bytes ⟨lines, []⟩ ++ (R.writeEnvelope e ++ [10]).take (n + 1) =
      if n < (R.writeEnvelope e).length then OpenText.bytes ⟨lines, (R.writeEnvelope e).take (n + 1)⟩
      else OpenText.bytes ⟨lines ++ [R.writeEnvelope e], []⟩ := by
    intro n
    show join 10 lines ++ [] ++ _ = if _ then join 10 lines ++ _ else join 10 (lines ++ [R.writeEnvelope e]) ++ []
    split
    · rename_i hn
      rw [List.append_nil, List.take_append_of_le_length (by omega)]
    · rename_i hn
      rw [List.append_nil, List.append_nil, List.take_of_length_le (by rw [List.length_append, List.length_singleton]; omega),
        join_append, join_cons, join_nil]
  have hlast : Prog.last dir ((List.range (R.writeEnvelope e ++ [10]).length).map fun n =>
      dir.setSegment (firstOf closed) (OpenText.bytes ⟨lines, []⟩ ++ (R.writeEnvelope e ++ [10]).take (n + 1))) =
      dir.setSegment (firstOf closed) (OpenText.bytes ⟨lines ++ [R.writeEnvelope e], []⟩) := by
    rw [List.length_append, List.length_singleton, List.range_succ, List.map_append]
    show (((List.map _ _) ++ [_]).getLast?).getD dir = _
    rw [List.getLast?_concat, Option.getD_some]
    show dir.setSegment _ (_ ++ (R.writeEnvelope e ++ [10]).take ((R.writeEnvelope e).length + 1)) = _
    rw [hstate, if_neg (lt_irrefl _)]
  have hgrows := h.extends_write hend rfl
  unfold appendBytes
  refine runs_readSegment h.segment? (runs_write ?_ ?_)
  · intro t ht
    obtain ⟨n, -, rfl⟩ := List.mem_map.mp ht
    rw [hstate]
    split
    · have hgrow := h.extends_write (hpart (n + 1)) (List.append_nil lines).symm
      refine hC _ [] ⟨closed, _, hpart (n + 1), ?_⟩ hgrow (Or.inl rfl)
      rintro o ho
      cases ho
      exact Or.inr ⟨e, hback, hreads, List.take_prefix _ _, hroom⟩
    · refine hC _ _ ⟨closed, _, hend, ?_⟩ hgrows (Or.inr rfl)
      rintro o ho
      cases ho
      exact Or.inl rfl
  · rw [hlast]
    exact ⟨(), rfl, hend, hgrows⟩

theorem Holds.intact {dir : EventDir} {closed : List (Nat × Bytes)} {opened : Option OpenText}
    (h : Holds R config dir closed opened) (hwhole : ∀ o, opened = some o → o.rest = []) : Intact R config dir :=
  ⟨closed, opened, h, fun o ho => Or.inl (hwhole o ho)⟩

theorem Tracks.whole {dir : EventDir} {closed : List (Nat × Bytes)} {opened : Option (List Bytes)} {state : WriterState}
    (_ : Tracks R config dir closed opened state) :
    ∀ o, opened.map (fun l => (⟨l, []⟩ : OpenText)) = some o → o.rest = [] := by
  intro o ho
  obtain ⟨l, -, rfl⟩ := Option.map_eq_some_iff.mp ho
  rfl

theorem Tracks.storedLines {dir : EventDir} {closed : List (Nat × Bytes)} {opened : Option (List Bytes)} {state : WriterState}
    (h : Tracks R config dir closed opened state) : storedLines dir = linesIn closed ++ opened.getD [] := by
  rw [h.holds.storedLines]
  cases opened with
  | none => rfl
  | some lines => rfl

/-- One line is appended, and a full segment is closed. -/
theorem append_spec (hR : R.Sound) {C : EventDir → Prop} {dir : EventDir} {closed : List (Nat × Bytes)}
    {opened : Option (List Bytes)} {state : WriterState} {p : Prepared} (h : Tracks R config dir closed opened state)
    (hline : p.line = R.writeEnvelope p.envelope) (hhash : p.hash = eventHash R p.line) (hback : WritesBack R p.envelope)
    (hreads : Reads R config state.nextSeq state.previousEventHash p.line p.envelope)
    (hroom : 1 + (storedLines dir).length + 1 ≤ canonicalNames)
    (hC : ∀ t l, Intact R config t → Extends R dir t l → (l = [] ∨ l = [p.line]) → C t) :
    Runs C (appendPrepared R config state p) dir fun r t => ∃ state', r = .ok state' ∧ ∃ closed' opened',
      Tracks R config t closed' opened' state' ∧ Extends R dir t [p.line] ∧ ∀ lines, opened' = some lines → lines ≠ [] := by
  have hle := canonicalNames_le
  have hstored := h.storedLines
  have hlength := congrArg List.length hstored
  rw [List.length_append] at hlength
  rw [h.nextSeq, h.previous, hline] at hreads
  have hseq : state.nextSeq = firstOf closed + (opened.getD []).length := h.nextSeq
  unfold appendPrepared
  refine runs_then (open_spec h (by unfold firstOf; omega) ?_) ?_
  · intro t hholds hgrows
    refine hC t [] (hholds.intact ?_) hgrows (Or.inl rfl)
    rintro o ho
    cases ho
    rfl
  · rintro o t ⟨rfl, hholds, hopen⟩
    have hall : allLines closed (some ⟨opened.getD [], []⟩) = linesIn closed ++ opened.getD [] := rfl
    rw [hline]
    refine runs_then (appendBytes_spec hholds hback hreads ?_ ?_) ?_
    · rw [hall, ← hstored]
      exact hroom
    · intro t' l hintact hgrows hl
      refine hC t' l hintact ?_ (by rw [hline]; exact hl)
      exact hopen.trans hgrows
    · rintro u t' ⟨hholds', hgrows⟩
      have hgrows : Extends R dir t' [R.writeEnvelope p.envelope] := hopen.trans hgrows
      refine runs_check (okOr_eq_ok.mpr (checkedAdd_eq_some.mpr ⟨?_, rfl⟩)) ?_
      · unfold firstOf at hseq
        omega
      have htracks : Tracks R config t' closed (some (opened.getD [] ++ [R.writeEnvelope p.envelope]))
          ⟨state.closed, some ⟨firstOf closed, (opened.getD []).length + 1⟩, state.nextSeq + 1, some p.hash⟩ := by
        refine ⟨hholds', ?_, ?_, ?_, h.last⟩
        · show state.nextSeq + 1 = _
          rw [hseq, Option.getD_some, List.length_append]
          rfl
        · show some p.hash = _
          rw [hhash, hline, Option.getD_some, ← List.append_assoc, tip_snoc]
        · rw [Option.map_some, List.length_append]
          rfl
      have hne : opened.getD [] ++ [R.writeEnvelope p.envelope] ≠ [] :=
        List.append_ne_nil_of_right_ne_nil _ (List.cons_ne_nil _ _)
      show Runs C (if (opened.getD []).length + 1 = config.rolloverEvents then _ else _) t' _
      split
      · refine (close_spec hR htracks hne fun t'' hclosed hclosing => ?_).mono (fun _ hC => hC) ?_
        · refine hC t'' _ (hclosed.intact nofun) (hgrows.trans hclosing) (Or.inr ?_)
          rw [hline]
          rfl
        · rintro r t'' ⟨state', rfl, htracks', hclosing⟩
          exact ⟨state', rfl, _, _, htracks', hgrows.trans hclosing, nofun⟩
      · refine runs_pure ⟨_, rfl, _, _, htracks, hgrows, ?_⟩
        rintro lines hlines
        cases hlines
        exact hne

/-! ### A batch -/

theorem Tracks.next {dir : EventDir} {closed : List (Nat × Bytes)} {opened : Option (List Bytes)} {state : WriterState}
    (h : Tracks R config dir closed opened state) : state.nextSeq = 1 + (Events.storedLines dir).length ∧
      state.previousEventHash = tip (eventHash R) none (Events.storedLines dir) := by
  rw [h.storedLines, h.nextSeq, h.previous, List.length_append, firstOf, Nat.add_assoc]
  exact ⟨rfl, rfl⟩

/-- A writer that is stopped in a batch has appended the first of its lines. -/
theorem appendAll_spec (hR : R.Sound) {C : EventDir → Prop} {dir : EventDir} {closed : List (Nat × Bytes)}
    {opened : Option (List Bytes)} {state : WriterState} {ps : List Prepared} (h : Tracks R config dir closed opened state)
    (hwritten : Written R config state.nextSeq state.previousEventHash ps)
    (hroom : 1 + (storedLines dir).length + ps.length ≤ canonicalNames)
    (hC : ∀ t j, Intact R config t → Extends R dir t ((ps.map Prepared.line).take j) → C t) :
    Runs C (appendPreparedAll R config state ps) dir fun r t => ∃ state', r = .ok state' ∧ ∃ closed' opened',
      Tracks R config t closed' opened' state' ∧ Extends R dir t (ps.map Prepared.line) ∧
        ((ps ≠ [] ∨ ∀ lines, opened = some lines → lines ≠ []) → ∀ lines, opened' = some lines → lines ≠ []) := by
  induction ps generalizing dir closed opened state with
  | nil => exact runs_pure ⟨state, rfl, closed, opened, h, extends_refl dir, fun hne => hne.resolve_left fun hps => hps rfl⟩
  | cons p ps ih =>
    obtain ⟨hline, hhash, hback, hreads, hrest⟩ := hwritten
    rw [List.length_cons] at hroom
    rw [appendPreparedAll]
    refine runs_then (append_spec hR h hline hhash hback hreads (by omega) ?_) ?_
    · intro t l hintact hgrows hl
      rcases hl with rfl | rfl
      · exact hC t 0 hintact hgrows
      · exact hC t 1 hintact hgrows
    · rintro state' t ⟨closed', opened', htracks, hgrows, hne⟩
      have hnext := h.next
      have hnext' := htracks.next
      have hlines := hgrows.lines
      rw [hlines, List.length_append, List.length_singleton, tip_snoc] at hnext'
      have hseq : state'.nextSeq = state.nextSeq + 1 := by
        rw [hnext.1, hnext'.1]
        omega
      have hprevious : state'.previousEventHash = some p.hash := by rw [hnext'.2, hhash]
      rw [← hseq, ← hprevious] at hrest
      have hlength := congrArg List.length hlines
      rw [List.length_append, List.length_singleton] at hlength
      refine (ih htracks hrest (by omega) ?_).mono (fun _ hC => hC) ?_
      · intro t' j hintact hgrows'
        refine hC t' (j + 1) hintact ?_
        exact hgrows.trans hgrows'
      · rintro r t' ⟨state'', rfl, closed'', opened'', htracks', hgrows', hne'⟩
        exact ⟨state'', rfl, closed'', opened'', htracks', hgrows.trans hgrows', fun _ => hne' (Or.inr hne)⟩

end

end ArchiveLedger.Events

namespace ArchiveLedger.Sample

open Outcome Transition

deriving instance DecidableEq for Events.EventEnvelope

/-! ### Manifests -/

def writeNumber (n : Nat) : Bytes := List.replicate n 1 ++ [0]

def readNumber : Bytes → Nat × Bytes
  | [] => (0, [])
  | b :: rest => if b = 0 then (0, rest) else ((readNumber rest).1 + 1, (readNumber rest).2)

theorem readNumber_writeNumber (n : Nat) (rest : Bytes) : readNumber (writeNumber n ++ rest) = (n, rest) := by
  induction n with
  | zero => rfl
  | succ n ih =>
    have hcons : writeNumber (n + 1) ++ rest = 1 :: (writeNumber n ++ rest) := rfl
    rw [hcons, readNumber, if_neg (by decide), ih]

def writeChars (chars : List Char) : Bytes := chars.flatMap fun c => writeNumber c.toNat

def readChars : Nat → Bytes → List Char × Bytes
  | 0, bytes => ([], bytes)
  | n + 1, bytes => (Char.ofNat (readNumber bytes).1 :: (readChars n (readNumber bytes).2).1, (readChars n (readNumber bytes).2).2)

theorem readChars_writeChars (chars : List Char) (rest : Bytes) :
    readChars chars.length (writeChars chars ++ rest) = (chars, rest) := by
  induction chars with
  | nil => rfl
  | cons c chars ih =>
    have hcons : writeChars (c :: chars) ++ rest = writeNumber c.toNat ++ (writeChars chars ++ rest) := by
      rw [writeChars, List.flatMap_cons, List.append_assoc]
      rfl
    rw [hcons, List.length_cons, readChars, readNumber_writeNumber, ih, Char.ofNat_toNat]

def writeText (s : String) : Bytes := writeNumber s.toList.length ++ writeChars s.toList

def readText (bytes : Bytes) : String × Bytes :=
  let chars := readChars (readNumber bytes).1 (readNumber bytes).2
  (String.ofList chars.1, chars.2)

theorem readText_writeText (s : String) (rest : Bytes) : readText (writeText s ++ rest) = (s, rest) := by
  rw [writeText, List.append_assoc, readText, readNumber_writeNumber, readChars_writeChars, String.ofList_toList]

def writeFields (m : Events.SegmentManifest) : Bytes :=
  writeNumber m.manifestV ++ (writeText m.streamId ++ (writeText m.segmentFile ++ (writeNumber m.firstSeq ++
    (writeNumber m.lastSeq ++ (writeText m.firstEventId ++ (writeText m.lastEventId ++ (writeText m.lastEventHash ++
      (writeNumber m.eventCount ++ (writeNumber m.segmentSizeBytes ++ (writeText m.segmentBlake3 ++ []))))))))))

def readFields (bytes : Bytes) : Events.SegmentManifest :=
  let (manifestV, bytes) := readNumber bytes
  let (streamId, bytes) := readText bytes
  let (segmentFile, bytes) := readText bytes
  let (firstSeq, bytes) := readNumber bytes
  let (lastSeq, bytes) := readNumber bytes
  let (firstEventId, bytes) := readText bytes
  let (lastEventId, bytes) := readText bytes
  let (lastEventHash, bytes) := readText bytes
  let (eventCount, bytes) := readNumber bytes
  let (segmentSizeBytes, bytes) := readNumber bytes
  ⟨manifestV, streamId, segmentFile, firstSeq, lastSeq, firstEventId, lastEventId, lastEventHash, eventCount, segmentSizeBytes,
    (readText bytes).1⟩

theorem readFields_writeFields (m : Events.SegmentManifest) : readFields (writeFields m) = m := by
  simp only [readFields, writeFields, readNumber_writeNumber, readText_writeText]

/-! ### The runtime -/

def streamConfig : Events.EventStoreConfig := ⟨2, 100, "actor_sample", "host_sample"⟩

def streamRequest (eventType : String) : Events.EventRequest :=
  ⟨eventType, .obj [("name", string "sample")], ⟨none, none, none, none, none, none, none⟩⟩

def streamUlid (n : Nat) : String := String.ofList (List.replicate 25 '0' ++ [hexDigit n])

def streamStamp (n : Nat) : Events.Stamp := ⟨streamUlid n, n⟩

def lineId (n : Nat) : String := documentId 4 n

def streamEnvelope (n seq : Nat) (previous : Option String) (eventType : String) : Events.EventEnvelope :=
  Events.envelopeOf streamConfig seq previous (streamRequest eventType) (streamStamp n)

/-- The events that are written; the third is never complete. -/
def streamEnvelopes : List Events.EventEnvelope :=
  [streamEnvelope 0 1 none "archive_initialized", streamEnvelope 1 2 (some (lineId 0)) "site_registered",
    streamEnvelope 2 3 (some (lineId 1)) "site_updated", streamEnvelope 3 3 (some (lineId 1)) "device_registered"]

/-- The lines of the first segment. -/
def firstLines : Bytes := document 4 0 ++ [10] ++ document 4 1 ++ [10]

def firstManifest : Events.SegmentManifest :=
  ⟨1, Events.streamId, Events.relativeSegmentPath 1, 1, 2, "evt_" ++ streamUlid 0, "evt_" ++ streamUlid 1, lineId 1, 2, 6,
    "blake3:" ++ hash firstLines⟩

def eventsRuntime : Events.EventRuntime where
  blake3 := hash
  ulid bytes := bytes.length = 26
  readEnvelope bytes := okOr (readFrom 4 streamEnvelopes bytes) "no event"
  writeEnvelope := writeFrom 4 Events.EventEnvelope.eventId streamEnvelopes
  readValue bytes := (readFrom 4 streamEnvelopes bytes).map fun e => .obj [("event_id", string e.eventId)]
  envelopeOfValue value :=
    match value with
    | .obj [(_, .str id)] => okOr (streamEnvelopes.find? fun e => e.eventId = id) "no event"
    | _ => .error "no event"
  readManifest bytes := if bytes = document 5 0 then .ok firstManifest else .ok (readFields (bytes.drop 1))
  writeManifest m := if m = firstManifest then document 5 0 else 0 :: writeFields m

theorem eventsRuntime_sound : eventsRuntime.Sound where
  ids := hash_isBlake3Identifier
  manifests m := by
    have hread : ∀ bytes, eventsRuntime.readManifest bytes =
        if bytes = document 5 0 then .ok firstManifest else .ok (readFields (bytes.drop 1)) := fun _ => rfl
    have hwrite : eventsRuntime.writeManifest m = if m = firstManifest then document 5 0 else 0 :: writeFields m := rfl
    rw [hread, hwrite]
    by_cases hm : m = firstManifest
    · rw [if_pos hm, if_pos rfl, hm]
    · have hne : 0 :: writeFields m ≠ document 5 0 := fun heq => absurd (List.cons.inj heq).1 (by decide)
      rw [if_neg hm, if_neg hne]
      exact congrArg Except.ok (readFields_writeFields m)

theorem readFrom_eq_none {α : Type} {kind : Nat} {documents : List α} {text : Bytes} (h : text.length ≠ 2) :
    readFrom kind documents text = none := by
  match text with
  | [] => rfl
  | [_] => rfl
  | [_, _] => exact absurd rfl h
  | _ :: _ :: _ :: _ => rfl

theorem writesBack_of_mem {e : Events.EventEnvelope} (h : e ∈ streamEnvelopes) : Events.WritesBack eventsRuntime e := by
  have hall : ∀ e ∈ streamEnvelopes, 10 ∉ eventsRuntime.writeEnvelope e ∧
      readFrom 4 streamEnvelopes (eventsRuntime.writeEnvelope e) = some e ∧
      streamEnvelopes.find? (fun d => d.eventId = e.eventId) = some e := by decide +kernel
  obtain ⟨hline, hread, hfind⟩ := hall e h
  refine ⟨hline, okOr_eq_ok.mpr hread, ⟨.obj [("event_id", string e.eventId)], ?_, okOr_eq_ok.mpr hfind⟩, ?_⟩
  · show Option.map _ (readFrom 4 streamEnvelopes (eventsRuntime.writeEnvelope e)) = _
    rw [hread]
    rfl
  · intro text hinitial hne
    show Option.map _ (readFrom 4 streamEnvelopes text) = none
    rw [readFrom_eq_none fun hlength => hne (hinitial.eq_of_length hlength)]
    rfl

end ArchiveLedger.Sample
