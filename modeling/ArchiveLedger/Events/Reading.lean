import ArchiveLedger.Events.Scans

/-!
# Reading on

`read_batch` continues where its cursor stands.  Over a stream that verifies it returns the events after the cursor,
as many as the limits allow and at least one while there are any (`readBatch_spec`).  The cursor stays
good when the stream grows: the segment it points into may have been closed and others may have followed.  So the
batches of a reader that goes on from cursor to cursor are the events of the stream, each once and in their
order.
-/

namespace ArchiveLedger.Events

open HashChain Lines Outcome Transition

/-! ### Cursors -/

def PositionedEvent.cursor (event : PositionedEvent) : EventCursor :=
  ⟨event.record.envelope.seq, some event.record.eventHash, some event.segmentFirstSeq, event.nextOffset⟩

/-- The cursor after some events that were read from a cursor. -/
def cursorAfter (cursor : EventCursor) (events : List PositionedEvent) : EventCursor :=
  (events.getLast?.map PositionedEvent.cursor).getD cursor

@[simp] theorem cursorAfter_nil (cursor : EventCursor) : cursorAfter cursor [] = cursor := rfl

@[simp] theorem cursorAfter_snoc (cursor : EventCursor) (events : List PositionedEvent) (event : PositionedEvent) :
    cursorAfter cursor (events ++ [event]) = event.cursor := by
  simp [cursorAfter]

theorem cursorAfter_append (cursor : EventCursor) (events more : List PositionedEvent) :
    cursorAfter cursor (events ++ more) = cursorAfter (cursorAfter cursor events) more := by
  rcases List.eq_nil_or_concat more with rfl | ⟨more, event, rfl⟩
  · rw [List.append_nil, cursorAfter_nil]
  · rw [List.concat_eq_append, ← List.append_assoc, cursorAfter_snoc, cursorAfter_snoc]

section

variable (R : EventRuntime) (config : EventStoreConfig)

/-! ### Rows of segments -/

/-- The segments from one on, with their manifests. -/
def Row : Nat → Option String → List StreamSegment → Prop
  | _, _, [] => True
  | seq, previous, segment :: rest =>
      segment.firstSeq = seq ∧ Chain R config seq previous (linesOf segment.bytes) ∧
        (linesOf segment.bytes ≠ [] → seq + (linesOf segment.bytes).length ≤ u64Max) ∧
        (match segment.manifest with
        | some m => (cut 10 segment.bytes).2 = [] ∧ m.lastSeq + 1 = seq + (linesOf segment.bytes).length ∧
            some m.lastEventHash = tip (eventHash R) previous (linesOf segment.bytes)
        | none => rest = []) ∧
        Row (seq + (linesOf segment.bytes).length) (tip (eventHash R) previous (linesOf segment.bytes)) rest

def rowEvents (segments : List StreamSegment) : List PositionedEvent :=
  segments.flatMap fun segment => positioned R segment.firstSeq 0 (linesOf segment.bytes)

variable {R config}

theorem exists_streamSegments {dir : EventDir} {segments : List (Nat × Bytes)} {seq : Nat} {previous : Option String}
    (h : Stream R config dir seq previous segments) (found : List StreamSegment) :
    ∃ row next, commitAll (streamSegment R dir) (found, seq) (withLast segments) = .ok (found ++ row, next) ∧
      Row R config seq previous row ∧
      rowEvents R row = segments.flatMap (fun segment => positioned R segment.1 0 (linesOf segment.2)) ∧
      ∀ segment ∈ row, ∃ stored ∈ segments, stored.2 = segment.bytes := by
  induction segments generalizing seq previous found with
  | nil => exact ⟨[], seq, by rw [List.append_nil]; rfl, trivial, rfl, nofun⟩
  | cons segment rest ih =>
    obtain ⟨first, bytes⟩ := segment
    obtain ⟨hfirst, hchain, hmax, hclosed, hrest⟩ := h
    have hfirst : first = seq := hfirst
    subst hfirst
    rw [withLast_cons]
    cases hfile : dir.manifest? first with
    | none =>
      rw [hfile] at hclosed
      have hclosed : rest = [] := hclosed
      subst hclosed
      have hstep : streamSegment R dir (found, first) ((first, bytes), true) = .ok (found ++ [⟨first, bytes, none⟩], first) := by
        unfold streamSegment
        simp only [hfile, bind_eq_ok, require_eq_ok]
        exact ⟨(), trivial, (), trivial, trivial⟩
      refine ⟨[⟨first, bytes, none⟩], first, (commitAll_cons _).mpr ⟨_, hstep, rfl⟩,
        ⟨rfl, hchain, hmax, rfl, trivial⟩, rfl, fun segment hsegment => ?_⟩
      rw [List.mem_singleton.mp hsegment]
      exact ⟨_, List.mem_cons_self, rfl⟩
    | some file =>
      rw [hfile] at hclosed
      obtain ⟨m, hread, hcloses⟩ := hclosed
      obtain ⟨hlines, hlast, hhash⟩ := hcloses.last
      have hlast : m.lastSeq + 1 = first + (linesOf bytes).length := hlast
      have hwhole : (cut 10 bytes).2 = [] := by
        obtain ⟨scan, hscan, -⟩ := hcloses.scan
        exact (scan_spec hscan).whole
      have hstep : streamSegment R dir (found, first) ((first, bytes), rest.isEmpty) =
          .ok (found ++ [⟨first, bytes, some m⟩], first + (linesOf bytes).length) := by
        unfold streamSegment readManifestFile
        simp only [hfile, bind_eq_ok, require_eq_ok, mapError_eq_ok, okOr_eq_ok, checkedAdd_eq_some]
        exact ⟨(), trivial, m, hread, (), hcloses.shape, _, ⟨by rw [hlast]; exact hmax hlines, hlast⟩, rfl⟩
      obtain ⟨row, next, hrow, hgood, hevents, hstored⟩ := ih hrest (found ++ [⟨first, bytes, some m⟩])
      rw [List.append_assoc] at hrow
      refine ⟨⟨first, bytes, some m⟩ :: row, next, (commitAll_cons _).mpr ⟨_, hstep, hrow⟩,
        ⟨rfl, hchain, hmax, ⟨hwhole, hlast, hhash⟩, hgood⟩, ?_, fun segment hsegment => ?_⟩
      · show _ ++ rowEvents R row = _
        rw [hevents]
        rfl
      · rcases List.mem_cons.mp hsegment with rfl | hsegment
        · exact ⟨_, List.mem_cons_self, rfl⟩
        · obtain ⟨stored, hmem, hsame⟩ := hstored segment hsegment
          exact ⟨stored, List.mem_cons_of_mem _ hmem, hsame⟩

/-! ### Lines -/

/-- What a reader has done to its batch: it took some events, and its cursor is behind them. -/
structure Took (cursor : EventCursor) (b : EventBatch) (events : List PositionedEvent) (c : EventBatch) : Prop where
  events : c.events = b.events ++ events
  cursor : b.nextCursor = cursorAfter cursor b.events → c.nextCursor = cursorAfter cursor c.events

theorem Took.trans {cursor : EventCursor} {b c d : EventBatch} {events more : List PositionedEvent}
    (h : Took cursor b events c) (h' : Took cursor c more d) : Took cursor b (events ++ more) d :=
  ⟨by rw [h'.events, h.events, List.append_assoc], fun hb => h'.cursor (h.cursor hb)⟩

theorem took_take (cursor : EventCursor) (b : EventBatch) (event : PositionedEvent) :
    Took cursor b [event] (b.lineRead.take event) := by
  refine ⟨rfl, fun _ => ?_⟩
  show event.cursor = cursorAfter cursor (b.events ++ [event])
  rw [cursorAfter_snoc]

/-- One line of an event that is not yet applied. -/
theorem streamLine_spec {cursor : EventCursor} {limits : Limits} {first : Nat} {s : LineState} {line : Bytes}
    {e : EventEnvelope} (hnew : cursor.appliedSeq < s.expectedSeq) (he : Reads R config s.expectedSeq s.previousHash line e)
    (hseq : s.expectedSeq + 1 ≤ u64Max) (hoffset : s.offset + (line.length + 1) ≤ u64Max) :
    (∃ t, streamLine R config cursor limits first s line = .ok (.more t) ∧
      Took cursor s.batch [⟨⟨e, eventHash R line⟩, first, s.offset + (line.length + 1)⟩] t.batch ∧ t.batch.eof = s.batch.eof ∧
      t.expectedSeq = s.expectedSeq + 1 ∧ t.previousHash = some (eventHash R line) ∧
      t.offset = s.offset + (line.length + 1)) ∨
    ∃ b n, streamLine R config cursor limits first s line = .ok (.stop b) ∧
      Took cursor s.batch ([⟨⟨e, eventHash R line⟩, first, s.offset + (line.length + 1)⟩].take n) b ∧ b.eof = false ∧
      b.events ≠ [] := by
  have hline : streamLine R config cursor limits first s line =
      (if s.batch.lineRead.events ≠ [] ∧ limits.bytes < s.returnedBytes + (line.length + 1) then
        .ok (.stop { s.batch.lineRead with eof := false })
      else if (s.batch.lineRead.take ⟨⟨e, eventHash R line⟩, first, s.offset + (line.length + 1)⟩).events.length = limits.events then
        .ok (.stop { s.batch.lineRead.take ⟨⟨e, eventHash R line⟩, first, s.offset + (line.length + 1)⟩ with eof := false })
      else .ok (.more ⟨s.batch.lineRead.take ⟨⟨e, eventHash R line⟩, first, s.offset + (line.length + 1)⟩,
        s.returnedBytes + (line.length + 1), s.offset + (line.length + 1), some (eventHash R line), s.expectedSeq + 1⟩)) := by
    have hadd : checkedAdd s.offset (line.length + 1) = some (s.offset + (line.length + 1)) :=
      checkedAdd_eq_some.mpr ⟨hoffset, rfl⟩
    have hadd' : checkedAdd s.expectedSeq 1 = some (s.expectedSeq + 1) := checkedAdd_eq_some.mpr ⟨hseq, rfl⟩
    have hlt : cursor.appliedSeq < e.seq := by rw [he.stands.seq]; exact hnew
    have hcursor : e.seq = cursor.appliedSeq → cursor.appliedEventHash = some (eventHash R line) :=
      fun hsame => absurd hsame hlt.ne'
    unfold streamLine
    simp only [readEvent_eq_ok.mpr he, hadd, hadd', okOr, require, if_pos hlt, if_pos hcursor, bind, Except.bind]
  rw [hline]
  by_cases hbytes : s.batch.lineRead.events ≠ [] ∧ limits.bytes < s.returnedBytes + (line.length + 1)
  · rw [if_pos hbytes]
    exact Or.inr ⟨_, 0, rfl, ⟨(List.append_nil _).symm, fun hb => hb⟩, rfl, hbytes.1⟩
  · rw [if_neg hbytes]
    split
    · refine Or.inr ⟨_, 1, rfl, ⟨rfl, (took_take cursor s.batch _).cursor⟩, rfl, ?_⟩
      exact List.append_ne_nil_of_right_ne_nil _ (List.cons_ne_nil _ _)
    · exact Or.inl ⟨_, rfl, took_take cursor s.batch _, rfl, rfl, rfl, rfl⟩

/-- The lines of a segment from some line on: all are read, or a limit stops at one of them. -/
theorem streamLines_spec {cursor : EventCursor} {limits : Limits} {first : Nat} {s : LineState} {lines : List Bytes}
    (hnew : cursor.appliedSeq < s.expectedSeq) (hchain : Chain R config s.expectedSeq s.previousHash lines)
    (hseq : lines ≠ [] → s.expectedSeq + lines.length ≤ u64Max) (hoffset : s.offset + (join 10 lines).length ≤ u64Max) :
    (∃ t, streamLines R config cursor limits first s lines = .ok (.more t) ∧
      Took cursor s.batch (positioned R first s.offset lines) t.batch ∧ t.batch.eof = s.batch.eof ∧
      t.expectedSeq = s.expectedSeq + lines.length) ∨
    ∃ b n, streamLines R config cursor limits first s lines = .ok (.stop b) ∧
      Took cursor s.batch ((positioned R first s.offset lines).take n) b ∧ b.eof = false ∧ b.events ≠ [] := by
  induction lines generalizing s with
  | nil => exact Or.inl ⟨s, rfl, ⟨(List.append_nil _).symm, fun hb => hb⟩, rfl, rfl⟩
  | cons line lines ih =>
    obtain ⟨⟨e, he⟩, hrest⟩ := hchain
    have hmax := hseq (List.cons_ne_nil _ _)
    rw [List.length_cons] at hmax
    rw [join_cons, List.length_append, List.length_cons] at hoffset
    have hpositioned : positioned R first s.offset (line :: lines) =
        ⟨⟨e, eventHash R line⟩, first, s.offset + (line.length + 1)⟩ ::
          positioned R first (s.offset + (line.length + 1)) lines := by
      rw [positioned, he.reads]
    rw [hpositioned]
    rcases @streamLine_spec R config cursor limits first s line e hnew he (by omega) (by omega) with
      ⟨t, ht, htook, heof, hexpected, hprevious, hnext⟩ | ⟨b, n, hb, htook, heof, hne⟩
    · have hstep : streamLines R config cursor limits first s (line :: lines) =
          streamLines R config cursor limits first t lines := by
        rw [streamLines, ht]
        rfl
      rw [← hexpected, ← hprevious] at hrest
      rw [← hnext] at htook
      rw [hstep, ← hnext]
      rcases ih (s := t) (by omega) hrest (fun _ => by omega) (by omega) with
        ⟨u, hu, htook', heof', hexpected'⟩ | ⟨b, n, hb, htook', heof', hne⟩
      · refine Or.inl ⟨u, hu, htook.trans htook', heof'.trans heof, ?_⟩
        rw [hexpected', hexpected, List.length_cons]
        omega
      · exact Or.inr ⟨b, n + 1, hb, htook.trans htook', heof', hne⟩
    · have hstep : streamLines R config cursor limits first s (line :: lines) = .ok (.stop b) := by
        rw [streamLines, hb]
        rfl
      refine Or.inr ⟨b, min n 1, hstep, ?_, heof, hne⟩
      cases n with
      | zero => exact htook
      | succ n =>
        rw [Nat.min_eq_right (by omega)]
        rwa [List.take_succ_cons, List.take_nil] at htook

/-! ### Segments -/

theorem join_take_drop (bytes : Bytes) (j : Nat) :
    join 10 ((linesOf bytes).take j) ++ (join 10 ((linesOf bytes).drop j) ++ (cut 10 bytes).2) = bytes := by
  rw [← List.append_assoc, ← join_append, List.take_append_drop]
  exact join_cut 10 bytes

theorem cut_drop (bytes : Bytes) (j : Nat) :
    cut 10 (bytes.drop (join 10 ((linesOf bytes).take j)).length) = ((linesOf bytes).drop j, (cut 10 bytes).2) := by
  have hdrop : bytes.drop (join 10 ((linesOf bytes).take j)).length =
      join 10 ((linesOf bytes).drop j) ++ (cut 10 bytes).2 := by
    have happend := congrArg (List.drop (join 10 ((linesOf bytes).take j)).length) (join_take_drop bytes j)
    rw [List.drop_left] at happend
    exact happend.symm
  obtain ⟨hlines, hrest⟩ := sep_notMem_cut 10 bytes
  rw [hdrop]
  exact cut_join (fun line hline => hlines line (List.mem_of_mem_drop hline)) hrest

/-- Behind each line a reader may start. -/
theorem checkOffset_ok {segment : StreamSegment} {j : Nat}
    (hj : j ≤ (linesOf segment.bytes).length) :
    checkOffset segment (join 10 ((linesOf segment.bytes).take j)).length = .ok () := by
  unfold checkOffset
  cases j with
  | zero => exact if_pos rfl
  | succ j =>
    have hne : (linesOf segment.bytes).take (j + 1) ≠ [] := by
      intro hnil
      have hlength := congrArg List.length hnil
      rw [List.length_take, Nat.min_eq_left hj] at hlength
      cases hlength
    have hlast := getLast?_join 10 hne
    have hpos : 0 < (join 10 ((linesOf segment.bytes).take (j + 1))).length := by
      have hcount := length_le_join 10 ((linesOf segment.bytes).take (j + 1))
      have := List.length_pos_iff.mpr hne
      omega
    have hbytes := join_take_drop segment.bytes (j + 1)
    have hlength := congrArg List.length hbytes
    rw [List.length_append] at hlength
    have hend : (_ ++ _ : Bytes)[(join 10 ((linesOf segment.bytes).take (j + 1))).length - 1]? = segment.bytes[_]? :=
      congrArg (fun bytes => bytes[(join 10 ((linesOf segment.bytes).take (j + 1))).length - 1]?) hbytes
    rw [List.getElem?_append_left (by omega), ← List.getLast?_eq_getElem?, hlast] at hend
    rw [if_neg hpos.ne']
    simp only [bind_eq_ok, require_eq_ok]
    exact ⟨(), by omega, hend.symm⟩

/-- A segment from some line on. -/
theorem streamOne_spec {cursor : EventCursor} {limits : Limits} {s : StreamState} {segment : StreamSegment}
    {rest : List StreamSegment} {seq : Nat} {previous : Option String} {j : Nat}
    (hrow : Row R config seq previous (segment :: rest)) (hj : j ≤ (linesOf segment.bytes).length)
    (hstart : startOf cursor s segment = ⟨s.batch.opened, s.returnedBytes,
      (join 10 ((linesOf segment.bytes).take j)).length, tip (eventHash R) previous ((linesOf segment.bytes).take j), seq + j⟩)
    (hnew : cursor.appliedSeq < seq + j) (hfits : segment.bytes.length ≤ u64Max) :
    (∃ t, streamOne R config cursor limits s segment = .ok (.more t) ∧
      Took cursor s.batch ((positioned R segment.firstSeq 0 (linesOf segment.bytes)).drop j) t.batch ∧
      t.batch.eof = s.batch.eof ∧
      (rest ≠ [] → t.previousManifestHash = tip (eventHash R) previous (linesOf segment.bytes))) ∨
    (∃ b n, streamOne R config cursor limits s segment = .ok (.stop b) ∧
      Took cursor s.batch (((positioned R segment.firstSeq 0 (linesOf segment.bytes)).drop j).take n) b ∧ b.eof = false ∧
      b.events ≠ []) ∨
    (∃ err, streamOne R config cursor limits s segment = .error err) ∧ (cut 10 segment.bytes).2 ≠ [] := by
  obtain ⟨rfl, hchain, hmax, hclosed, -⟩ := hrow
  have hsplit : (linesOf segment.bytes).take j ++ (linesOf segment.bytes).drop j = linesOf segment.bytes :=
    List.take_append_drop j _
  have hcount : ((linesOf segment.bytes).take j).length = j := by rw [List.length_take, Nat.min_eq_left hj]
  rw [← hsplit, chain_append, hcount] at hchain
  obtain ⟨hbefore, hafter⟩ := hchain
  have hevents : (positioned R segment.firstSeq 0 (linesOf segment.bytes)).drop j =
      positioned R segment.firstSeq (join 10 ((linesOf segment.bytes).take j)).length ((linesOf segment.bytes).drop j) := by
    have happend := @positioned_append R config segment.firstSeq _ 0 _ _ ((linesOf segment.bytes).drop j) hbefore
    rw [hsplit, Nat.zero_add] at happend
    rw [happend]
    exact List.drop_left' (by rw [length_positioned hbefore, hcount])
  have hbytes : (join 10 ((linesOf segment.bytes).take j)).length + (join 10 ((linesOf segment.bytes).drop j)).length ≤
      segment.bytes.length := by
    have hlength := congrArg List.length (join_take_drop segment.bytes j)
    rw [List.length_append, List.length_append] at hlength
    omega
  have hdrop : ((linesOf segment.bytes).drop j).length = (linesOf segment.bytes).length - j := List.length_drop
  have hopened : ∀ {events : List PositionedEvent} {c : EventBatch}, Took cursor s.batch.opened events c →
      Took cursor s.batch events c := fun h => ⟨h.events, h.cursor⟩
  have hstop : ∀ {batch : EventBatch}, streamLines R config cursor limits segment.firstSeq (startOf cursor s segment)
      ((linesOf segment.bytes).drop j) = .ok (.stop batch) →
      streamOne R config cursor limits s segment = .ok (.stop batch) := by
    intro batch hflow
    unfold streamOne
    rw [hstart] at hflow ⊢
    simp [checkOffset_ok hj, cut_drop, hflow, bind, Except.bind]
  have hends : ∀ {l : LineState}, streamLines R config cursor limits segment.firstSeq (startOf cursor s segment)
      ((linesOf segment.bytes).drop j) = .ok (.more l) →
      streamOne R config cursor limits s segment = (do
        require ((cut 10 segment.bytes).2 = [])
          (notTerminated (relativeSegmentPath segment.firstSeq) (l.expectedSeq - segment.firstSeq + 1))
        let s ← endOf segment s l
        .ok (.more s)) := by
    intro l hflow
    unfold streamOne
    rw [hstart] at hflow ⊢
    simp [checkOffset_ok hj, cut_drop, hflow, bind, Except.bind]
  rw [hevents]
  have hmore : (linesOf segment.bytes).drop j ≠ [] → segment.firstSeq + j + ((linesOf segment.bytes).drop j).length ≤ u64Max := by
    intro hne
    have hlines : linesOf segment.bytes ≠ [] := fun hnil => hne (by rw [hnil, List.drop_nil])
    have := hmax hlines
    omega
  rcases @streamLines_spec R config cursor limits segment.firstSeq (startOf cursor s segment)
      ((linesOf segment.bytes).drop j) (by rw [hstart]; exact hnew) (by rw [hstart]; exact hafter)
      (by rw [hstart]; exact hmore) (by rw [hstart]; exact hbytes.trans hfits) with
    ⟨l, hl, htook, heof, hexpected⟩ | ⟨b, n, hb, htook, heof, hne⟩
  · rw [hstart] at htook heof hexpected
    have hexpected : l.expectedSeq = segment.firstSeq + j + ((linesOf segment.bytes).drop j).length := hexpected
    rw [hends hl]
    cases hmanifest : segment.manifest with
    | none =>
      rw [hmanifest] at hclosed
      by_cases hwhole : (cut 10 segment.bytes).2 = []
      · left
        refine ⟨⟨l.batch, l.returnedBytes, s.previousManifestHash⟩, ?_, hopened htook, heof, fun hrest => absurd hclosed hrest⟩
        simp only [endOf, hmanifest, require, if_pos hwhole, bind, Except.bind]
      · right
        right
        refine ⟨⟨notTerminated (relativeSegmentPath segment.firstSeq) (l.expectedSeq - segment.firstSeq + 1), ?_⟩, hwhole⟩
        simp only [require, if_neg hwhole, bind, Except.bind]
    | some m =>
      rw [hmanifest] at hclosed
      obtain ⟨hwhole, hlast, hhash⟩ := hclosed
      left
      refine ⟨⟨l.batch, l.returnedBytes, some m.lastEventHash⟩, ?_, hopened htook, heof, fun _ => hhash⟩
      have hrange : l.expectedSeq = m.lastSeq + 1 := by omega
      simp only [endOf, hmanifest, require, if_pos hwhole, if_pos hrange, bind, Except.bind]
  · rw [hstart] at htook
    exact Or.inr (Or.inl ⟨b, n, hstop hb, hopened htook, heof, hne⟩)

/-! ### Rows -/

theorem startOf_unread {cursor : EventCursor} {s : StreamState} {segment : StreamSegment}
    (h : cursor.appliedSeq < segment.firstSeq) :
    startOf cursor s segment = ⟨s.batch.opened, s.returnedBytes, 0, s.previousManifestHash, segment.firstSeq⟩ := by
  have hoffset : ¬ usesOffset cursor segment = true := by
    unfold usesOffset
    rw [decide_eq_true_iff]
    omega
  exact if_neg hoffset

theorem rowEvents_cons (segment : StreamSegment) (rest : List StreamSegment) :
    rowEvents R (segment :: rest) = positioned R segment.firstSeq 0 (linesOf segment.bytes) ++ rowEvents R rest := rfl

/-- From some line of the first segment on, all is read, or a limit stops, or a rest without an end is found. -/
theorem streamAll_spec {cursor : EventCursor} {limits : Limits} {s : StreamState} {segment : StreamSegment}
    {rest : List StreamSegment} {seq : Nat} {previous : Option String} {j : Nat}
    (hrow : Row R config seq previous (segment :: rest)) (hj : j ≤ (linesOf segment.bytes).length)
    (hstart : startOf cursor s segment = ⟨s.batch.opened, s.returnedBytes,
      (join 10 ((linesOf segment.bytes).take j)).length, tip (eventHash R) previous ((linesOf segment.bytes).take j), seq + j⟩)
    (hnew : cursor.appliedSeq < seq + j) (hfits : ∀ other ∈ segment :: rest, other.bytes.length ≤ u64Max) :
    (∃ b n, streamAll R config cursor limits s (segment :: rest) = .ok b ∧
      Took cursor s.batch (((rowEvents R (segment :: rest)).drop j).take n) b ∧
      ((b.eof = s.batch.eof ∧ (rowEvents R (segment :: rest)).length ≤ j + n) ∨ (b.eof = false ∧ b.events ≠ []))) ∨
    (∃ err, streamAll R config cursor limits s (segment :: rest) = .error err) ∧
      ∃ other ∈ segment :: rest, (cut 10 other.bytes).2 ≠ [] := by
  induction rest generalizing segment seq previous j s with
  | nil =>
    have hevents : rowEvents R [segment] = positioned R segment.firstSeq 0 (linesOf segment.bytes) := by
      rw [rowEvents_cons]
      exact List.append_nil _
    rw [hevents]
    rcases @streamOne_spec R config cursor limits s segment [] seq previous j hrow hj hstart hnew
        (hfits segment List.mem_cons_self) with
      ⟨t, ht, htook, heof, -⟩ | ⟨b, n, hb, htook, heof, hne⟩ | ⟨⟨err, herr⟩, htorn⟩
    · left
      refine ⟨t.batch, (positioned R segment.firstSeq 0 (linesOf segment.bytes)).length, ?_, ?_, Or.inl ⟨heof, by omega⟩⟩
      · rw [streamAll, ht]
        rfl
      · rw [List.take_of_length_le (by rw [List.length_drop]; omega)]
        exact htook
    · left
      refine ⟨b, n, ?_, htook, Or.inr ⟨heof, hne⟩⟩
      rw [streamAll, hb]
      rfl
    · right
      refine ⟨⟨err, ?_⟩, segment, List.mem_cons_self, htorn⟩
      rw [streamAll, herr]
      rfl
  | cons next rest ih =>
    have hrest := hrow
    obtain ⟨rfl, hchain, -, -, hrest⟩ := hrest
    have hlength := @length_positioned R config segment.firstSeq _ 0 _ _ hchain
    rw [rowEvents_cons]
    rcases @streamOne_spec R config cursor limits s segment (next :: rest) segment.firstSeq previous j hrow hj hstart hnew
        (hfits segment List.mem_cons_self) with
      ⟨t, ht, htook, heof, hprevious⟩ | ⟨b, n, hb, htook, heof, hne⟩ | ⟨⟨err, herr⟩, htorn⟩
    · have hnext : next.firstSeq = segment.firstSeq + (linesOf segment.bytes).length := hrest.1
      have hunread : startOf cursor t next = ⟨t.batch.opened, t.returnedBytes,
          (join 10 ((linesOf next.bytes).take 0)).length,
          tip (eventHash R) (tip (eventHash R) previous (linesOf segment.bytes)) ((linesOf next.bytes).take 0),
          segment.firstSeq + (linesOf segment.bytes).length + 0⟩ := by
        rw [startOf_unread (by omega), hprevious (List.cons_ne_nil _ _), hnext]
        rfl
      have hstep : streamAll R config cursor limits s (segment :: next :: rest) =
          streamAll R config cursor limits t (next :: rest) := by
        rw [streamAll, ht]
        rfl
      rw [hstep]
      rcases ih hrest (Nat.zero_le _) hunread (by omega) (fun other hother => hfits other (List.mem_cons_of_mem _ hother)) with
        ⟨b, n, hb, htook', hend⟩ | ⟨herr, other, hother, htorn⟩
      · left
        rw [List.drop_zero] at htook'
        refine ⟨b, (linesOf segment.bytes).length - j + n, hb, ?_, ?_⟩
        · have hcount : ((positioned R segment.firstSeq 0 (linesOf segment.bytes)).drop j).length =
              (linesOf segment.bytes).length - j := by rw [List.length_drop, hlength]
          rw [List.drop_append_of_le_length (by omega), ← hcount, List.take_length_add_append]
          exact htook.trans htook'
        · rcases hend with ⟨heof', hall⟩ | hstop
          · refine Or.inl ⟨heof'.trans heof, ?_⟩
            rw [List.length_append, hlength]
            omega
          · exact Or.inr hstop
      · exact Or.inr ⟨herr, other, List.mem_cons_of_mem _ hother, htorn⟩
    · left
      have hcount : ((positioned R segment.firstSeq 0 (linesOf segment.bytes)).drop j).length =
          (linesOf segment.bytes).length - j := by rw [List.length_drop, hlength]
      refine ⟨b, min n ((linesOf segment.bytes).length - j), ?_, ?_, Or.inr ⟨heof, hne⟩⟩
      · rw [streamAll, hb]
        rfl
      · rw [List.drop_append_of_le_length (by omega), List.take_append_of_le_length (by omega), ← hcount,
          List.take_eq_take_min.symm]
        exact htook
    · right
      refine ⟨⟨err, ?_⟩, segment, List.mem_cons_self, htorn⟩
      rw [streamAll, herr]
      rfl

/-! ### The place of a cursor -/

/-- The hash of an event. -/
def PositionedEvent.hash (event : PositionedEvent) : String := event.record.eventHash

theorem tip_positioned {first seq offset : Nat} {previous : Option String} {lines : List Bytes}
    (h : Chain R config seq previous lines) :
    tip PositionedEvent.hash previous (positioned R first offset lines) = tip (eventHash R) previous lines := by
  induction lines generalizing seq offset previous with
  | nil => rfl
  | cons line lines ih =>
    obtain ⟨⟨e, he⟩, hrest⟩ := h
    rw [positioned, he.reads, tip_cons, tip_cons]
    exact ih hrest

theorem seqs_positioned {first seq offset : Nat} {previous : Option String} {lines : List Bytes}
    (h : Chain R config seq previous lines) :
    (positioned R first offset lines).map (fun event => event.record.envelope.seq) = List.range' seq lines.length := by
  induction lines generalizing seq offset previous with
  | nil => rfl
  | cons line lines ih =>
    obtain ⟨⟨e, he⟩, hrest⟩ := h
    rw [positioned, he.reads, List.map_cons, ih hrest, List.length_cons, List.range'_succ, he.stands.seq]

theorem take_positioned {first seq : Nat} {previous : Option String} {lines : List Bytes}
    (h : Chain R config seq previous lines) {j : Nat} (hj : j ≤ lines.length) :
    (positioned R first 0 lines).take j = positioned R first 0 (lines.take j) := by
  have hsplit := List.take_append_drop j lines
  rw [← hsplit, chain_append] at h
  have happend := @positioned_append R config first _ 0 _ _ (lines.drop j) h.1
  rw [hsplit] at happend
  rw [happend]
  exact List.take_left' (by rw [length_positioned h.1, List.length_take, Nat.min_eq_left hj])

/-- The last event of some lines. -/
theorem getLast?_positioned {first seq : Nat} {previous : Option String} {lines : List Bytes}
    (h : Chain R config seq previous lines) (hne : lines ≠ []) :
    ∃ event, (positioned R first 0 lines).getLast? = some event ∧ event.segmentFirstSeq = first ∧
      event.nextOffset = (join 10 lines).length := by
  obtain ⟨lines, line, rfl⟩ := (List.eq_nil_or_concat lines).resolve_left hne
  rw [List.concat_eq_append] at h ⊢
  rw [chain_append] at h
  obtain ⟨hbefore, ⟨e, he⟩, -⟩ := h
  rw [positioned_append hbefore, positioned, he.reads, positioned, List.getLast?_append]
  refine ⟨_, rfl, rfl, ?_⟩
  rw [join_append, join_cons, join_nil, List.length_append, List.length_append]
  show 0 + (join 10 lines).length + (line.length + 1) = _
  rw [Nat.zero_add]
  rfl

theorem Row.length {seq : Nat} {previous : Option String} {segment : StreamSegment} {rest : List StreamSegment}
    (h : Row R config seq previous (segment :: rest)) :
    (rowEvents R (segment :: rest)).length = (linesOf segment.bytes).length + (rowEvents R rest).length := by
  rw [rowEvents_cons, List.length_append, length_positioned h.2.1]

theorem Row.bound {seq : Nat} {previous : Option String} {segments : List StreamSegment}
    (h : Row R config seq previous segments) (hseq : seq ≤ u64Max) : seq + (rowEvents R segments).length ≤ u64Max := by
  induction segments generalizing seq previous with
  | nil => exact hseq
  | cons segment rest ih =>
    have hlength := h.length
    obtain ⟨-, -, hmax, -, hrest⟩ := h
    have hnext : seq + (linesOf segment.bytes).length ≤ u64Max := by
      by_cases hlines : linesOf segment.bytes = []
      · rw [hlines]
        exact hseq
      · exact hmax hlines
    have := ih hrest hnext
    omega

theorem Row.seqs {seq : Nat} {previous : Option String} {segments : List StreamSegment}
    (h : Row R config seq previous segments) :
    (rowEvents R segments).map (fun event => event.record.envelope.seq) = List.range' seq (rowEvents R segments).length := by
  induction segments generalizing seq previous with
  | nil => rfl
  | cons segment rest ih =>
    have hlength := h.length
    obtain ⟨-, hchain, -, -, hrest⟩ := h
    rw [hlength, rowEvents_cons, List.map_append, seqs_positioned hchain, ih hrest, List.range'_append_1]

variable (R config) in
/-- The segments before a sequence and those from it on. -/
structure Located (seq : Nat) (previous : Option String) (row : List StreamSegment) (target : Nat)
    (before after : List StreamSegment) : Prop where
  split : row = before ++ after
  index : row.findIdx (fun segment => segment.canContain target) = before.length
  row : Row R config (seq + (rowEvents R before).length) (tip PositionedEvent.hash previous (rowEvents R before)) after
  reached : seq + (rowEvents R before).length ≤ target
  preceding : ∀ segment, before.getLast? = some segment → ∃ m, segment.manifest = some m ∧
    m.lastSeq + 1 = seq + (rowEvents R before).length ∧
    some m.lastEventHash = tip PositionedEvent.hash previous (rowEvents R before)
  within : ∀ segment rest, after = segment :: rest →
    target ≤ seq + (rowEvents R before).length + (linesOf segment.bytes).length

/-- Those that cannot contain the sequence lie before it. -/
theorem exists_located {seq target : Nat} {previous : Option String} {row : List StreamSegment}
    (h : Row R config seq previous row) (hle : seq ≤ target) (hmax : target ≤ seq + (rowEvents R row).length) :
    ∃ before after, Located R config seq previous row target before after := by
  induction row generalizing seq previous with
  | nil => exact ⟨[], [], rfl, rfl, trivial, hle, nofun, nofun⟩
  | cons segment rest ih =>
    have hlength := h.length
    have hrow := h
    obtain ⟨hfirst, hchain, -, hclosed, hrest⟩ := h
    by_cases hcan : segment.canContain target = true
    · refine ⟨[], segment :: rest, rfl, ?_, hrow, hle, nofun, ?_⟩
      · rw [List.findIdx_cons, hcan]
        rfl
      · intro other others hothers
        cases hothers
        show target ≤ seq + 0 + _
        cases hmanifest : segment.manifest with
        | none =>
          rw [hmanifest] at hclosed
          have hclosed : rest = [] := hclosed
          subst hclosed
          have hnil : (rowEvents R []).length = 0 := rfl
          omega
        | some m =>
          rw [hmanifest] at hclosed
          unfold StreamSegment.canContain at hcan
          rw [hmanifest] at hcan
          have hlast := hclosed.2.1
          have hcan := of_decide_eq_true (Bool.and_eq_true_iff.mp hcan).2
          omega
    · cases hmanifest : segment.manifest with
      | none =>
        unfold StreamSegment.canContain at hcan
        rw [hmanifest, hfirst] at hcan
        exact absurd (decide_eq_true hle) hcan
      | some m =>
        rw [hmanifest] at hclosed
        obtain ⟨-, hlast, hhash⟩ := hclosed
        have hbehind : seq + (linesOf segment.bytes).length ≤ target := by
          unfold StreamSegment.canContain at hcan
          rw [hmanifest, hfirst, Bool.and_eq_true_iff, decide_eq_true_iff, decide_eq_true_iff] at hcan
          omega
        obtain ⟨before, after, hlocated⟩ := ih hrest hbehind (by omega)
        have hcount : (rowEvents R (segment :: before)).length =
            (linesOf segment.bytes).length + (rowEvents R before).length := by
          rw [rowEvents_cons, List.length_append, length_positioned hchain]
        have htip : tip PositionedEvent.hash previous (rowEvents R (segment :: before)) =
            tip PositionedEvent.hash (tip (eventHash R) previous (linesOf segment.bytes)) (rowEvents R before) := by
          rw [rowEvents_cons, tip_append, tip_positioned hchain]
        refine ⟨segment :: before, after, ?_, ?_, ?_, ?_, ?_, ?_⟩
        · rw [hlocated.split]
          rfl
        · rw [List.findIdx_cons, Bool.not_eq_true _ |>.mp hcan, hlocated.index]
          rfl
        · rw [hcount, htip, ← Nat.add_assoc]
          exact hlocated.row
        · have := hlocated.reached
          omega
        · intro other hother
          rw [hcount, htip, ← Nat.add_assoc]
          cases hbefore : before with
          | nil =>
            rw [hbefore] at hother
            cases hother
            exact ⟨m, hmanifest, hlast, hhash⟩
          | cons first others =>
            rw [← hbefore]
            rw [hbefore, List.getLast?_cons_cons, ← hbefore] at hother
            exact hlocated.preceding other hother
        · intro other others hothers
          have := hlocated.within other others hothers
          omega

theorem appliedEventHash_cursorAfter (events : List PositionedEvent) :
    (cursorAfter .empty events).appliedEventHash = tip PositionedEvent.hash none events := by
  rcases List.eq_nil_or_concat events with rfl | ⟨events, event, rfl⟩
  · rfl
  · rw [List.concat_eq_append, cursorAfter_snoc, tip_snoc]
    rfl

theorem appliedSeq_cursorAfter {events : List PositionedEvent}
    (hseqs : events.map (fun event => event.record.envelope.seq) = List.range' 1 events.length) {k : Nat}
    (hk : k ≤ events.length) : (cursorAfter .empty (events.take k)).appliedSeq = k := by
  cases k with
  | zero => rfl
  | succ k =>
    have hget : events[k]? = some events[k] := List.getElem?_eq_getElem hk
    have hseq := congrArg (fun seqs => seqs[k]?) hseqs
    simp only [List.getElem?_map, hget, Option.map_some, List.getElem?_range' hk] at hseq
    rw [List.take_add_one, hget, Option.toList_some, cursorAfter_snoc]
    have := Option.some.inj hseq
    show events[k].record.envelope.seq = k + 1
    omega

/-- The reading of the located segment starts behind the last event of the cursor. -/
theorem startOf_located {row before after rest : List StreamSegment} {segment : StreamSegment} {k : Nat}
    (hrow : Row R config 1 none row) (h : Located R config 1 none row (k + 1) before after) (hafter : after = segment :: rest)
    (hk : k ≤ (rowEvents R row).length) (s : StreamState)
    (hprevious : s.previousManifestHash = tip PositionedEvent.hash none (rowEvents R before)) :
    startOf (cursorAfter .empty ((rowEvents R row).take k)) s segment = ⟨s.batch.opened, s.returnedBytes,
      (join 10 ((linesOf segment.bytes).take (k - (rowEvents R before).length))).length,
      tip (eventHash R) (tip PositionedEvent.hash none (rowEvents R before))
        ((linesOf segment.bytes).take (k - (rowEvents R before).length)),
      1 + (rowEvents R before).length + (k - (rowEvents R before).length)⟩ := by
  have happlied := appliedSeq_cursorAfter hrow.seqs hk
  have hreached := h.reached
  have hwithin := h.within segment rest hafter
  have hsegment := h.row
  rw [hafter] at hsegment
  obtain ⟨hfirst, hchain, -, -, -⟩ := hsegment
  obtain ⟨j, hj⟩ : ∃ j, k = (rowEvents R before).length + j := ⟨k - (rowEvents R before).length, by omega⟩
  rw [hj, Nat.add_sub_cancel_left]
  cases j with
  | zero =>
    rw [← hj, startOf_unread (by omega), hprevious, hfirst]
    rfl
  | succ j =>
    have hlines : (linesOf segment.bytes).take (j + 1) ≠ [] := by
      intro hnil
      have hlength := congrArg List.length hnil
      rw [List.length_take, Nat.min_eq_left (by omega)] at hlength
      cases hlength
    have hread : (rowEvents R row).take k =
        rowEvents R before ++ positioned R segment.firstSeq 0 ((linesOf segment.bytes).take (j + 1)) := by
      have hsplit : rowEvents R row =
          rowEvents R before ++ (positioned R segment.firstSeq 0 (linesOf segment.bytes) ++ rowEvents R rest) := by
        rw [h.split, hafter]
        exact List.flatMap_append
      rw [hsplit, hj, List.take_length_add_append, List.take_append_of_le_length
        (by rw [length_positioned hchain]; omega), take_positioned hchain (by omega)]
    rw [← hj, hread]
    have hbefore : Chain R config (1 + (rowEvents R before).length) (tip PositionedEvent.hash none (rowEvents R before))
        ((linesOf segment.bytes).take (j + 1)) := by
      rw [← List.take_append_drop (j + 1) (linesOf segment.bytes), chain_append] at hchain
      exact hchain.1
    obtain ⟨event, hevent, hsame, hoffset⟩ := @getLast?_positioned R config segment.firstSeq _ _ _ hbefore hlines
    have hcursor : cursorAfter .empty
        (rowEvents R before ++ positioned R segment.firstSeq 0 ((linesOf segment.bytes).take (j + 1))) = event.cursor := by
      unfold cursorAfter
      rw [List.getLast?_append, hevent]
      rfl
    have hhash : event.cursor.appliedEventHash = tip (eventHash R) (tip PositionedEvent.hash none (rowEvents R before))
        ((linesOf segment.bytes).take (j + 1)) := by
      rw [← hcursor, appliedEventHash_cursorAfter, tip_append, tip_positioned hbefore]
    have hseq : event.cursor.appliedSeq = k := by rw [← hcursor, ← hread, happlied]
    rw [hcursor]
    have hnext : event.cursor.nextOffset = (join 10 ((linesOf segment.bytes).take (j + 1))).length := hoffset
    have hpos : 0 < event.cursor.nextOffset := by
      have hcount := length_le_join 10 ((linesOf segment.bytes).take (j + 1))
      have := List.length_pos_iff.mpr hlines
      omega
    have huses : usesOffset event.cursor segment = true := by
      unfold usesOffset
      rw [decide_eq_true_iff]
      exact ⟨congrArg some hsame, hpos, by omega⟩
    unfold startOf
    rw [if_pos huses, hhash, hseq, hnext]
    congr 1
    omega

theorem exists_line_of_mem_positioned {first offset : Nat} {lines : List Bytes} {event : PositionedEvent}
    (h : event ∈ positioned R first offset lines) : ∃ line, event.hash = eventHash R line := by
  induction lines generalizing offset with
  | nil => exact absurd h List.not_mem_nil
  | cons line lines ih =>
    rw [positioned] at h
    split at h
    · rcases List.mem_cons.mp h with rfl | h
      · exact ⟨line, rfl⟩
      · exact ih h
    · exact absurd h List.not_mem_nil

/-- A cursor behind events of a stream is accepted. -/
theorem checkCursor_cursorAfter (hids : ∀ line, isBlake3Identifier (eventHash R line) = true)
    {events : List PositionedEvent} (hhashes : ∀ event ∈ events, ∃ line, event.hash = eventHash R line)
    (happlied : (cursorAfter .empty events).appliedSeq = events.length) :
    checkCursor (cursorAfter .empty events) = .ok () := by
  unfold checkCursor
  rw [happlied]
  rcases List.eq_nil_or_concat events with rfl | ⟨events, event, rfl⟩
  · rw [if_pos List.length_nil]
    exact require_eq_ok.mpr ⟨rfl, rfl, rfl⟩
  · rw [List.concat_eq_append] at hhashes ⊢
    obtain ⟨line, hline⟩ := hhashes event (List.mem_append_right _ List.mem_cons_self)
    rw [if_neg (by rw [List.length_append]; exact Nat.succ_ne_zero _), appliedEventHash_cursorAfter, tip_snoc]
    refine require_eq_ok.mpr ?_
    rw [Option.any_some, hline]
    exact hids line

/-- The manifest before the located segment is where the reader comes from. -/
theorem checkPreceding_located {row before after : List StreamSegment} {k : Nat} (hrow : Row R config 1 none row)
    (h : Located R config 1 none row (k + 1) before after) (hk : k ≤ (rowEvents R row).length) :
    checkPreceding (cursorAfter .empty ((rowEvents R row).take k)) before.getLast? = .ok () ∧
      (before.getLast?.bind fun segment => segment.manifest.map SegmentManifest.lastEventHash) =
        tip PositionedEvent.hash none (rowEvents R before) := by
  cases hlast : before.getLast? with
  | none =>
    rw [List.getLast?_eq_none_iff.mp hlast]
    exact ⟨rfl, rfl⟩
  | some segment =>
    obtain ⟨m, hm, hseq, hhash⟩ := h.preceding segment hlast
    have hread : checkPreceding (cursorAfter .empty ((rowEvents R row).take k)) (some segment) =
        require (0 < (cursorAfter .empty ((rowEvents R row).take k)).appliedSeq ∧
            m.lastSeq = (cursorAfter .empty ((rowEvents R row).take k)).appliedSeq →
          (cursorAfter .empty ((rowEvents R row).take k)).appliedEventHash = some m.lastEventHash)
        (.hashChain (relativeSegmentPath segment.firstSeq) m.eventCount "stream cursor hash does not match preceding manifest") := by
      unfold checkPreceding
      simp only [Option.bind_some, hm, Option.map_some]
    refine ⟨?_, ?_⟩
    · rw [hread, require_eq_ok, appliedSeq_cursorAfter hrow.seqs hk, appliedEventHash_cursorAfter]
      rintro ⟨-, hsame⟩
      have htake : (rowEvents R row).take k = rowEvents R before := by
        have hsplit : rowEvents R row = rowEvents R before ++ rowEvents R after := by
          rw [h.split]
          exact List.flatMap_append
        rw [hsplit]
        exact List.take_left' (by omega)
      rw [htake, hhash]
    · simp only [Option.bind_some, hm, Option.map_some, hhash]

/-- What `read_batch` returns after some events of the stream.  Only a rest without an end can make it fail. -/
theorem readBatch_spec {dir : EventDir} {limits : Limits} {k : Nat}
    (hcheck : checkManifests dir = .ok ()) (hstream : Stream R config dir 1 none dir.segments)
    (hids : ∀ line, isBlake3Identifier (eventHash R line) = true)
    (hfits : ∀ segment ∈ dir.segments, segment.2.length ≤ u64Max)
    (hlimits : limits.events ≠ 0 ∧ limits.bytes ≠ 0) (hk : k ≤ (storedEvents R dir).length) :
    (∃ b n, readBatch R config dir (cursorAfter .empty ((storedEvents R dir).take k)) limits = .ok b ∧
      b.events = ((storedEvents R dir).drop k).take n ∧
      b.nextCursor = cursorAfter .empty ((storedEvents R dir).take (k + n)) ∧
      ((b.eof = true ∧ (storedEvents R dir).length ≤ k + n) ∨ (b.eof = false ∧ b.events ≠ []))) ∨
    (∃ err, readBatch R config dir (cursorAfter .empty ((storedEvents R dir).take k)) limits = .error err) ∧
      ∃ segment ∈ dir.segments, (cut 10 segment.2).2 ≠ [] := by
  obtain ⟨row, next, hsegments, hrow, hevents, hstored⟩ := exists_streamSegments hstream []
  have hevents : storedEvents R dir = rowEvents R row := hevents.symm
  rw [hevents] at hk ⊢
  have happlied := appliedSeq_cursorAfter hrow.seqs hk
  obtain ⟨before, after, hlocated⟩ := @exists_located R config _ (k + 1) _ _ hrow (by omega) (by omega)
  obtain ⟨hpreceding, hprevious⟩ := checkPreceding_located hrow hlocated hk
  have hbound := hrow.bound (by decide)
  have hcursor : checkCursor (cursorAfter .empty ((rowEvents R row).take k)) = .ok () := by
    refine checkCursor_cursorAfter hids (fun event hevent => ?_) ?_
    · obtain ⟨segment, -, hmem⟩ := List.mem_flatMap.mp (List.mem_of_mem_take hevent)
      exact exists_line_of_mem_positioned hmem
    · rw [happlied, List.length_take, Nat.min_eq_left hk]
  -- all checks pass, and the loop starts with the located segment
  have hread : readBatch R config dir (cursorAfter .empty ((rowEvents R row).take k)) limits =
      streamAll R config (cursorAfter .empty ((rowEvents R row).take k)) limits
        ⟨⟨[], cursorAfter .empty ((rowEvents R row).take k), true, ⟨0, 0, 0⟩⟩, 0,
          tip PositionedEvent.hash none (rowEvents R before)⟩ after := by
    have hrowok : streamSegments R dir = .ok row := by
      unfold streamSegments
      simp only [bind_eq_ok]
      exact ⟨(), hcheck, _, hsegments, rfl⟩
    have htarget : checkedAdd k 1 = some (k + 1) := checkedAdd_eq_some.mpr ⟨by omega, rfl⟩
    have htake : row.take before.length = before := by
      rw [hlocated.split]
      exact List.take_left
    have hdrop : row.drop before.length = after := by
      rw [hlocated.split]
      exact List.drop_left
    unfold readBatch readBatchLocked
    simp only [hcursor, hrowok, happlied, htarget, okOr, hlocated.index, htake, hdrop, hpreceding, hprevious, require,
      if_pos hlimits, bind, Except.bind]
  rw [hread]
  have hsplit : rowEvents R row = rowEvents R before ++ rowEvents R after := by
    rw [hlocated.split]
    exact List.flatMap_append
  have hreached := hlocated.reached
  cases hafter : after with
  | nil =>
    have hall : (rowEvents R row).length = (rowEvents R before).length := by
      rw [hsplit, hafter]
      exact congrArg List.length (List.append_nil _)
    exact Or.inl ⟨_, 0, rfl, rfl, rfl, Or.inl ⟨rfl, by omega⟩⟩
  | cons segment rest =>
    have hstart := startOf_located hrow hlocated hafter hk ⟨⟨[], cursorAfter .empty ((rowEvents R row).take k), true, ⟨0, 0, 0⟩⟩, 0,
      tip PositionedEvent.hash none (rowEvents R before)⟩ rfl
    have hwithin := hlocated.within segment rest hafter
    have hfiles : ∀ other ∈ segment :: rest, ∃ stored ∈ dir.segments, stored.2 = other.bytes := by
      intro other hother
      have hmem : other ∈ row := by
        rw [hlocated.split, hafter]
        exact List.mem_append_right _ hother
      exact hstored other hmem
    have hfits : ∀ other ∈ segment :: rest, other.bytes.length ≤ u64Max := by
      intro other hother
      obtain ⟨stored, hmem, hsame⟩ := hfiles other hother
      rw [← hsame]
      exact hfits stored hmem
    have hafterrow := hlocated.row
    rw [hafter] at hafterrow
    rcases @streamAll_spec R config _ limits _ _ _ _ _ _ hafterrow (by omega) hstart (by omega) hfits with
      ⟨b, n, hb, htook, hend⟩ | ⟨herr, other, hother, htorn⟩
    · left
      have hdrop : (rowEvents R (segment :: rest)).drop (k - (rowEvents R before).length) = (rowEvents R row).drop k := by
        rw [hsplit, hafter, List.drop_append, List.drop_eq_nil_of_le (show (rowEvents R before).length ≤ k by omega)]
        rfl
      rw [hdrop] at htook
      refine ⟨b, n, hb, htook.events, ?_, ?_⟩
      · rw [htook.cursor rfl, htook.events, List.nil_append, ← cursorAfter_append, ← List.take_add]
      · have hall : (rowEvents R row).length = (rowEvents R before).length + (rowEvents R (segment :: rest)).length := by
          rw [hsplit, hafter, List.length_append]
        rcases hend with ⟨heof, hlength⟩ | hstop
        · exact Or.inl ⟨heof, by omega⟩
        · exact Or.inr hstop
    · right
      obtain ⟨stored, hmem, hsame⟩ := hfiles other hother
      refine ⟨herr, stored, hmem, ?_⟩
      rw [hsame]
      exact htorn

end

end ArchiveLedger.Events
