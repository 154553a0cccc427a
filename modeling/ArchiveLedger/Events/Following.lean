import ArchiveLedger.Events.System

/-!
# Databases that follow the stream

Writers append batches and checkpoints and may be stopped anywhere in them; databases apply what they read, one
transaction after the other, from a directory as some writer left it.  In every state of every run each database
mirrors the first events of the stream (`mirrors_stream`), and what was acknowledged is in the stream for good
(`acknowledged_kept`).  An append from wherever the writers before it were stopped comes to its end (`append_recovers`),
and a database that goes on applying has the whole stream in the end (`apply_catches_up`).  What verifies can be read
from anywhere (`reads_verified`), and its last hash binds it (`verified_binds`).
-/

namespace ArchiveLedger.Events

open CrashLogic HashChain Lines Outcome Transition

/-! ### Records -/

section

variable (R : EventRuntime)

/-- The events of a stream. -/
def streamRecords (dir : EventDir) : List EventRecord := (storedEvents R dir).map PositionedEvent.record

def recordOf (line : Bytes) : Option EventRecord :=
  match R.readEnvelope line with
  | .ok e => some ⟨e, eventHash R line⟩
  | .error _ => none

/-- The hash that a line names. -/
def previousOf (line : Bytes) : Option String :=
  match R.readEnvelope line with
  | .ok e => e.previousEventHash
  | .error _ => none

variable {R} {config : EventStoreConfig}

theorem records_positioned {first seq offset : Nat} {previous : Option String} {lines : List Bytes}
    (h : Chain R config seq previous lines) :
    (positioned R first offset lines).map PositionedEvent.record = lines.filterMap (recordOf R) := by
  induction lines generalizing seq offset previous with
  | nil => rfl
  | cons line lines ih =>
    obtain ⟨⟨e, he⟩, hrest⟩ := h
    have hrecord : recordOf R line = some ⟨e, eventHash R line⟩ := by
      unfold recordOf
      rw [he.reads]
    rw [positioned, he.reads, List.filterMap_cons, hrecord, List.map_cons, ih hrest]

theorem Stream.records {dir : EventDir} {seq : Nat} {previous : Option String} {segments : List (Nat × Bytes)}
    (h : Stream R config dir seq previous segments) :
    (segments.flatMap fun segment => positioned R segment.1 0 (linesOf segment.2)).map PositionedEvent.record =
      (linesIn segments).filterMap (recordOf R) := by
  induction segments generalizing seq previous with
  | nil => rfl
  | cons segment rest ih =>
    obtain ⟨-, hchain, -, -, hrest⟩ := h
    rw [List.flatMap_cons, List.map_append, records_positioned hchain, ih hrest, linesIn_cons, List.filterMap_append]

theorem Stream.chain {dir : EventDir} {seq : Nat} {previous : Option String} {segments : List (Nat × Bytes)}
    (h : Stream R config dir seq previous segments) : Chain R config seq previous (linesIn segments) := by
  induction segments generalizing seq previous with
  | nil => trivial
  | cons segment rest ih =>
    obtain ⟨-, hchain, -, -, hrest⟩ := h
    rw [linesIn_cons, chain_append]
    exact ⟨hchain, ih hrest⟩

theorem linked_of_chain {seq : Nat} {previous : Option String} {lines : List Bytes} (h : Chain R config seq previous lines) :
    HashChain.Linked (eventHash R) (previousOf R) previous lines := by
  induction lines generalizing seq previous with
  | nil => trivial
  | cons line lines ih =>
    obtain ⟨⟨e, he⟩, hrest⟩ := h
    refine ⟨?_, ih hrest⟩
    unfold previousOf
    rw [he.reads]
    exact he.stands.previous

theorem lastEventHash_of_verified {dir : EventDir} {v : VerifiedStream} (h : verifyLocked R config dir = .ok v) :
    v.report.lastEventHash = tip (eventHash R) none (storedLines dir) := by
  obtain ⟨_, -, h⟩ := bind_eq_ok.mp h
  obtain ⟨t, ht, h⟩ := bind_eq_ok.mp h
  cases h
  exact (stream_of_commitAll ht).2.2

theorem Intact.stream {dir : EventDir} (h : Intact R config dir) :
    checkManifests dir = .ok () ∧ Stream R config dir 1 none dir.segments := by
  obtain ⟨closed, opened, hholds, -⟩ := h
  exact ⟨hholds.checkManifests, hholds.stream⟩

/-- A directory with an end behind its last line. -/
theorem Intact.settled {dir : EventDir} (h : Intact R config dir) (hwhole : ∀ segment ∈ dir.segments, (cut 10 segment.2).2 = []) :
    Settled R config dir := by
  obtain ⟨closed, opened, hholds, -⟩ := h
  refine ⟨closed, opened, hholds, ?_⟩
  rintro o rfl
  have hcut : (cut 10 o.bytes).2 = [] := by
    refine hwhole (firstOf closed, o.bytes) ?_
    rw [hholds.segments]
    exact List.mem_append_right _ List.mem_cons_self
  rwa [OpenText.cut_bytes (hholds.text o rfl)] at hcut

theorem Settled.verifies {dir : EventDir} (h : Settled R config dir) : ∃ v, verifyLocked R config dir = .ok v := by
  obtain ⟨closed, opened, hholds, hwhole⟩ := h
  exact hholds.verifies hwhole

theorem Intact.records {dir : EventDir} (h : Intact R config dir) :
    streamRecords R dir = (storedLines dir).filterMap (recordOf R) := h.stream.2.records

theorem Intact.seqs {dir : EventDir} (h : Intact R config dir) :
    (storedEvents R dir).map (fun event => event.record.envelope.seq) = List.range' 1 (storedEvents R dir).length := by
  obtain ⟨row, -, -, hrow, hevents, -⟩ := exists_streamSegments h.stream.2 []
  have hevents : rowEvents R row = storedEvents R dir := hevents
  rw [← hevents]
  exact hrow.seqs

/-- The records of lines that were prepared. -/
theorem records_prepared {dir : EventDir} {requests : Nat → List (EventRequest × Stamp)}
    (hback : ∀ p ∈ preparedIn R config dir requests, WritesBack R p.envelope) :
    ((preparedIn R config dir requests).map Prepared.line).filterMap (recordOf R) =
      (preparedIn R config dir requests).map Prepared.record := by
  have hmem : ∀ p ∈ preparedIn R config dir requests, p.line = R.writeEnvelope p.envelope ∧ p.hash = eventHash R p.line := by
    unfold preparedIn
    split
    · rename_i state _
      cases hps : prepare R config state.nextSeq state.previousEventHash (requests state.nextSeq) with
      | error e => exact fun _ hp => absurd hp List.not_mem_nil
      | ok ps => exact lines_of_prepare hps
    · exact fun _ hp => absurd hp List.not_mem_nil
  rw [List.filterMap_map]
  refine List.filterMap_eq_map_iff_forall_eq_some.mpr fun p hp => ?_
  obtain ⟨hline, hhash⟩ := hmem p hp
  unfold Function.comp recordOf Prepared.record
  rw [hhash, hline, (hback p hp).reads]

/-! ### Writers -/

variable (R config) in
/-- What a writer does to a directory. -/
structure Left (dir t : EventDir) (records : List EventRecord) : Prop where
  intact : Intact R config t
  grows : storedEvents R dir <+: storedEvents R t
  records : ∃ between, streamRecords R t = streamRecords R dir ++ between ++ records

theorem left_refl {dir : EventDir} (h : Intact R config dir) : Left R config dir dir [] :=
  ⟨h, List.prefix_rfl, [], by rw [List.append_nil, List.append_nil]⟩

theorem left_of_extends {dir t : EventDir} {l lines : List Bytes} (h : Intact R config dir) (ht : Intact R config t)
    (hgrows : Extends R dir t (l ++ lines)) : Left R config dir t (lines.filterMap (recordOf R)) := by
  refine ⟨ht, hgrows.events, l.filterMap (recordOf R), ?_⟩
  rw [ht.records, h.records, hgrows.lines, List.filterMap_append, List.filterMap_append, List.append_assoc]

theorem left_of_runs {dir : EventDir} {p : Writes (List EventRecord)} {requests : Nat → List (EventRequest × Stamp)}
    {refused : EventStoreError → Prop} {stop : Option Nat} (h : Intact R config dir)
    (hback : ∀ p ∈ preparedIn R config dir requests, WritesBack R p.envelope)
    (hruns : Runs (StoppedIn R config dir (preparedIn R config dir requests)) p dir fun r t =>
      EndedIn R config dir requests refused r t ∨ r = .ok [] ∧ Settled R config t ∧ Extends R dir t (leftLines R dir)) :
    Left R config dir (written p dir stop).1 (written p dir stop).2 := by
  have hnone : ∀ {t : EventDir} {l : List Bytes}, Intact R config t → Extends R dir t l → Left R config dir t [] := by
    intro t l ht hgrows
    have hgrows : Extends R dir t (l ++ []) := by rwa [List.append_nil]
    exact left_of_extends h ht hgrows
  cases stop with
  | some n =>
    show Left R config dir (Prog.last dir ((p.run dir).1.take n)) []
    rcases List.eq_nil_or_concat ((p.run dir).1.take n) with hnil | ⟨front, t, hsnoc⟩
    · rw [hnil]
      exact left_refl h
    · have hmem : t ∈ (p.run dir).1 := by
        refine List.mem_of_mem_take (i := n) ?_
        rw [hsnoc, List.concat_eq_append]
        exact List.mem_append_right _ List.mem_cons_self
      obtain ⟨ht, j, hgrows⟩ := hruns.stopped t hmem
      have hlast : Prog.last dir ((p.run dir).1.take n) = t := by
        rw [hsnoc, List.concat_eq_append]
        simp [Prog.last]
      rw [hlast]
      exact hnone ht hgrows
  | none =>
    show Left R config dir (Prog.last dir (p.run dir).1) (((p.run dir).2.toOption).getD [])
    rcases hruns.ended with ⟨hsettled, hends⟩ | ⟨hr, hsettled, hgrows⟩
    · rcases hends with ⟨err, hr, -, hgrows⟩ | ⟨ps, hprepare, hr, hgrows⟩
      · rw [hr]
        exact hnone hsettled.intact hgrows
      · rw [hr]
        show Left R config dir _ (ps.map Prepared.record)
        have hps : preparedIn R config dir requests = ps := by
          rw [preparedIn_eq h, hprepare]
          rfl
        rw [← hps] at hgrows ⊢
        rw [← records_prepared hback]
        exact left_of_extends h hsettled.intact hgrows
    · rw [hr]
      exact hnone hsettled.intact hgrows

end

/-! ### Databases -/

/-- The sequence of the last event that policies look at. -/
def lastRelevant (records : List EventRecord) : Nat :=
  ((records.filter fun record => policyRelevance record.envelope.eventType = some true).getLast?.map
    fun record => record.envelope.seq).getD 0

section

variable {τ γ : Type} {P : Projector τ γ} {R : EventRuntime} {config : EventStoreConfig}

variable (R) in
/-- The database has the first events of the stream, and its cursor is behind them. -/
def Mirrors (dir : EventDir) (db : ProjectionDb τ) : Prop :=
  ∃ k, k ≤ (storedEvents R dir).length ∧ db.events = ((storedEvents R dir).take k).map PositionedEvent.record ∧
    db.cursor = cursorAfter .empty ((storedEvents R dir).take k) ∧ db.policyInputEventSeq = lastRelevant db.events

/-- A stream that grows is still mirrored. -/
theorem Mirrors.mono {dir dir' : EventDir} {db : ProjectionDb τ} (h : Mirrors R dir db)
    (hgrows : storedEvents R dir <+: storedEvents R dir') : Mirrors R dir' db := by
  obtain ⟨k, hk, hevents, hcursor, hpolicy⟩ := h
  obtain ⟨more, hmore⟩ := hgrows
  have htake : (storedEvents R dir').take k = (storedEvents R dir).take k := by
    rw [← hmore, List.take_append_of_le_length hk]
  refine ⟨k, ?_, ?_, ?_, hpolicy⟩
  · rw [← hmore, List.length_append]
    omega
  · rw [htake]
    exact hevents
  · rw [htake]
    exact hcursor

theorem lastRelevant_snoc (records : List EventRecord) (record : EventRecord) :
    lastRelevant (records ++ [record]) =
      if policyRelevance record.envelope.eventType = some true then record.envelope.seq else lastRelevant records := by
  unfold lastRelevant
  rw [List.filter_append, List.filter_cons]
  split
  · rename_i h
    rw [if_pos (of_decide_eq_true h)]
    simp
  · rename_i h
    rw [if_neg fun hrelevant => h (decide_eq_true hrelevant)]
    simp

/-- The events of a transaction, one after the other. -/
theorem commitAll_applyEvent {s s' : ApplyState τ γ} {events : List PositionedEvent}
    (h : commitAll (applyEvent P) s events = .ok s') (hpolicy : s.policyInputSeq = lastRelevant s.events) :
    s'.events = s.events ++ events.map PositionedEvent.record ∧ s'.policyInputSeq = lastRelevant s'.events := by
  induction events generalizing s with
  | nil =>
    cases h
    exact ⟨(List.append_nil _).symm, hpolicy⟩
  | cons event events ih =>
    obtain ⟨u, hu, hrest⟩ := (commitAll_cons _).mp h
    obtain ⟨relevance, hrelevance, hu⟩ := bind_eq_ok.mp hu
    obtain ⟨_, -, hu⟩ := bind_eq_ok.mp hu
    obtain ⟨_, -, hu⟩ := bind_eq_ok.mp hu
    obtain ⟨rows, hrows, hu⟩ := bind_eq_ok.mp hu
    obtain ⟨tables, -, hu⟩ := bind_eq_ok.mp hu
    obtain ⟨_, -, hrows⟩ := bind_eq_ok.mp hrows
    obtain ⟨_, -, hrows⟩ := bind_eq_ok.mp hrows
    cases hrows
    cases hu
    have hrelevance := okOr_eq_ok.mp hrelevance
    have hstep : (if relevance then event.record.envelope.seq else s.policyInputSeq) =
        lastRelevant (s.events ++ [event.record]) := by
      rw [lastRelevant_snoc, hrelevance, hpolicy]
      cases relevance with
      | true => rfl
      | false => rfl
    obtain ⟨hevents, hpolicy'⟩ := ih hrest hstep
    refine ⟨?_, hpolicy'⟩
    rw [hevents, List.map_cons, List.append_assoc]
    rfl

theorem applyBatch_eq_ok {db db' : ProjectionDb τ} {events : List PositionedEvent} (h : applyBatch P db events = .ok db')
    (hpolicy : db.policyInputEventSeq = lastRelevant db.events) :
    db'.events = db.events ++ events.map PositionedEvent.record ∧ db'.cursor = cursorAfter db.cursor events ∧
      db'.policyInputEventSeq = lastRelevant db'.events := by
  obtain ⟨s, hs, h⟩ := bind_eq_ok.mp h
  cases h
  obtain ⟨hevents, hpolicy'⟩ := commitAll_applyEvent hs hpolicy
  exact ⟨hevents, rfl, hpolicy'⟩

theorem Intact.length_lt {dir : EventDir} (h : Intact R config dir) : (storedEvents R dir).length < canonicalNames := by
  obtain ⟨closed, opened, hholds, hrest⟩ := h
  have hrecords := congrArg List.length (Intact.records ⟨closed, opened, hholds, hrest⟩)
  have hle := List.length_filterMap_le (recordOf R) (storedLines dir)
  have hnames := hholds.names
  rw [← hholds.storedLines] at hnames
  unfold streamRecords at hrecords
  rw [List.length_map] at hrecords
  omega

theorem nextOffset_pos {first offset : Nat} {lines : List Bytes} {event : PositionedEvent}
    (h : event ∈ positioned R first offset lines) : 0 < event.nextOffset := by
  induction lines generalizing offset with
  | nil => exact absurd h List.not_mem_nil
  | cons line lines ih =>
    rw [positioned] at h
    split at h
    · rcases List.mem_cons.mp h with rfl | h
      · exact Nat.succ_pos _
      · exact ih h
    · exact absurd h List.not_mem_nil

theorem lastRelevant_le {records : List EventRecord} {k : Nat} (h : ∀ record ∈ records, record.envelope.seq ≤ k) :
    lastRelevant records ≤ k := by
  unfold lastRelevant
  cases hlast : (records.filter fun record => policyRelevance record.envelope.eventType = some true).getLast? with
  | none => exact Nat.zero_le k
  | some record => exact h record (List.mem_of_mem_filter (List.mem_of_getLast? hlast))

theorem streamId_positioned {first seq offset : Nat} {previous : Option String} {lines : List Bytes}
    (h : Chain R config seq previous lines) :
    ∀ event ∈ positioned R first offset lines, event.record.envelope.streamId = streamId := by
  induction lines generalizing seq offset previous with
  | nil => exact fun _ hp => absurd hp List.not_mem_nil
  | cons line lines ih =>
    obtain ⟨⟨e, he⟩, hrest⟩ := h
    rw [positioned, he.reads]
    intro event hevent
    rcases List.mem_cons.mp hevent with rfl | hevent
    · exact he.stands.stream
    · exact ih hrest event hevent

theorem Stream.streamId {dir : EventDir} {seq : Nat} {previous : Option String} {segments : List (Nat × Bytes)}
    (h : Stream R config dir seq previous segments) :
    ∀ segment ∈ segments, ∀ event ∈ positioned R segment.1 0 (linesOf segment.2), event.record.envelope.streamId = streamId := by
  induction segments generalizing seq previous with
  | nil => exact fun _ hp => absurd hp List.not_mem_nil
  | cons segment rest ih =>
    obtain ⟨-, hchain, -, -, hrest⟩ := h
    intro other hother
    rcases List.mem_cons.mp hother with rfl | hother
    · exact streamId_positioned hchain
    · exact ih hrest other hother

theorem Intact.seq_at {dir : EventDir} (h : Intact R config dir) {i : Nat} (hi : i < (storedEvents R dir).length) :
    (storedEvents R dir)[i].record.envelope.seq = i + 1 := by
  have hseq := congrArg (fun seqs => seqs[i]?) h.seqs
  simp only [List.getElem?_map, List.getElem?_eq_getElem hi, Option.map_some, List.getElem?_range' hi] at hseq
  have := Option.some.inj hseq
  omega

/-- A database that mirrors the stream is in a valid state. -/
theorem Mirrors.valid {dir : EventDir} {db : ProjectionDb τ} (hdir : Intact R config dir) (h : Mirrors R dir db) :
    validateStatus db = .ok () := by
  obtain ⟨k, hk, hevents, hcursor, hpolicy⟩ := h
  have hseqs := hdir.seqs
  have happlied : db.cursor.appliedSeq = k := by rw [hcursor, appliedSeq_cursorAfter hseqs hk]
  have hlt := hdir.length_lt
  have hmax : canonicalNames ≤ i64Max := by decide
  have hpolicy' : db.policyInputEventSeq ≤ k := by
    rw [hpolicy, hevents]
    refine lastRelevant_le fun record hrecord => ?_
    obtain ⟨event, hevent, rfl⟩ := List.mem_map.mp hrecord
    obtain ⟨i, hi, rfl⟩ := List.mem_take_iff_getElem.mp hevent
    rw [hdir.seq_at (by omega)]
    omega
  unfold validateStatus
  simp only [bind_eq_ok, require_eq_ok]
  refine ⟨(), by omega, ?_⟩
  cases k with
  | zero =>
    rw [if_pos happlied, hcursor]
    exact require_eq_ok.mpr ⟨rfl, rfl, rfl⟩
  | succ k =>
    rw [if_neg (by omega)]
    simp only [bind_eq_ok, require_eq_ok]
    have hget : (storedEvents R dir)[k]? = some (storedEvents R dir)[k] := List.getElem?_eq_getElem hk
    have htake : (storedEvents R dir).take (k + 1) = (storedEvents R dir).take k ++ [(storedEvents R dir)[k]] := by
      rw [List.take_add_one, hget]
      rfl
    have hmem : (storedEvents R dir)[k] ∈ storedEvents R dir := List.getElem_mem hk
    rw [htake, cursorAfter_snoc] at hcursor
    obtain ⟨segment, hsegment, hpositioned⟩ := List.mem_flatMap.mp hmem
    refine ⟨(), ⟨?_, ?_⟩, (), by omega, ?_⟩
    · rw [hcursor]
      exact Option.some_ne_none _
    · rw [hcursor]
      exact (nextOffset_pos hpositioned).ne'
    · have hfront : (((storedEvents R dir).take k).map PositionedEvent.record).find?
          (fun row => row.envelope.streamId = streamId ∧ row.envelope.seq = k + 1) = none := by
        rw [List.find?_eq_none]
        rintro row hrow hfound
        obtain ⟨event, hevent, rfl⟩ := List.mem_map.mp hrow
        obtain ⟨i, hi, rfl⟩ := List.mem_take_iff_getElem.mp hevent
        have hseq := (of_decide_eq_true hfound).2
        rw [hdir.seq_at (by omega)] at hseq
        omega
      have hlast : decide ((storedEvents R dir)[k].record.envelope.streamId = streamId ∧
          (storedEvents R dir)[k].record.envelope.seq = k + 1) = true :=
        decide_eq_true ⟨hdir.stream.2.streamId segment hsegment _ hpositioned, hdir.seq_at hk⟩
      unfold mirroredHash
      rw [happlied, hevents, htake, List.map_append, List.find?_append, hfront, hcursor]
      rw [Option.none_or, List.map_cons, List.map_nil, List.find?_cons, hlast]
      rfl

/-- A transaction with the next events of the stream. -/
theorem mirrors_applyBatch {dir : EventDir} {db db' : ProjectionDb τ} {k n : Nat}
    (hevents : db.events = ((storedEvents R dir).take k).map PositionedEvent.record)
    (hcursor : db.cursor = cursorAfter .empty ((storedEvents R dir).take k))
    (hpolicy : db.policyInputEventSeq = lastRelevant db.events)
    (h : applyBatch P db (((storedEvents R dir).drop k).take n) = .ok db') :
    Mirrors R dir db' ∧ db'.events = ((storedEvents R dir).take (k + n)).map PositionedEvent.record := by
  obtain ⟨hevents', hcursor', hpolicy'⟩ := applyBatch_eq_ok h hpolicy
  have hall : db'.events = ((storedEvents R dir).take (k + n)).map PositionedEvent.record := by
    rw [hevents', hevents, ← List.map_append, ← List.take_add]
  refine ⟨⟨min (k + n) (storedEvents R dir).length, Nat.min_le_right _ _, ?_, ?_, hpolicy'⟩, hall⟩
  · rw [hall, ← List.take_eq_take_min]
  · rw [hcursor', hcursor, ← cursorAfter_append, ← List.take_add, ← List.take_eq_take_min]

variable (P R) in
/-- A database refuses the next events of the stream. -/
def RefusesNext (dir : EventDir) (db : ProjectionDb τ) (e : ProjectionError) : Prop :=
  ∃ n, 0 < n ∧ applyBatch P db (((storedEvents R dir).drop db.events.length).take n) = .error e

/-- One turn of a database: it reads on where it is, and has more of the stream after it. -/
theorem applyOnce_spec {dir : EventDir} {db : ProjectionDb τ} {limits : Limits} {stats : ApplyStats}
    (hids : ∀ line, isBlake3Identifier (eventHash R line) = true) (hdir : Intact R config dir)
    (hfits : ∀ segment ∈ dir.segments, segment.2.length ≤ u64Max) (hlimits : limits.events ≠ 0 ∧ limits.bytes ≠ 0)
    (h : Mirrors R dir db) :
    Mirrors R dir (applyOnce P R config limits dir db stats).1 ∧
      ((∃ stats', (applyOnce P R config limits dir db stats).2 = .ok (stats', true) ∧ stats'.caughtUp = true ∧
          (applyOnce P R config limits dir db stats).1.events = streamRecords R dir) ∨
        (∃ stats', (applyOnce P R config limits dir db stats).2 = .ok (stats', false) ∧
          db.events.length < (applyOnce P R config limits dir db stats).1.events.length) ∨
        ∃ e, (applyOnce P R config limits dir db stats).2 = .error e ∧ (applyOnce P R config limits dir db stats).1 = db ∧
          (RefusesNext P R dir db e ∨ ∃ segment ∈ dir.segments, (cut 10 segment.2).2 ≠ [])) := by
  have hmirrors := h
  obtain ⟨k, hk, hevents, hcursor, hpolicy⟩ := h
  rcases @readBatch_spec R config dir limits k hdir.stream.1 hdir.stream.2 hids hfits hlimits hk with
    ⟨b, n, hread, hbatch, -, hend⟩ | ⟨⟨err, hread⟩, htorn⟩
  · rw [← hcursor] at hread
    by_cases hnil : b.events = []
    · -- there is nothing behind the cursor
      have hall : (storedEvents R dir).length ≤ k := by
        rcases hend with ⟨-, hlength⟩ | ⟨-, hne⟩
        · rw [hbatch] at hnil
          have hlength' := congrArg List.length hnil
          rw [List.length_take, List.length_drop, List.length_nil] at hlength'
          omega
        · exact absurd hnil hne
      have honce : applyOnce P R config limits dir db stats = (db, .ok ({ stats.read b.stats with caughtUp := true }, true)) := by
        unfold applyOnce
        rw [hread]
        simp [hnil]
      rw [honce]
      refine ⟨hmirrors, Or.inl ⟨_, rfl, rfl, ?_⟩⟩
      rw [hevents, List.take_of_length_le hall]
      rfl
    · cases happly : applyBatch P db b.events with
      | error e =>
        have honce : applyOnce P R config limits dir db stats = (db, .error e) := by
          unfold applyOnce
          rw [hread]
          simp [hnil, happly]
        rw [honce]
        have hlength : db.events.length = k := by
          rw [hevents, List.length_map, List.length_take, Nat.min_eq_left hk]
        have hrefused : RefusesNext P R dir db e := by
          refine ⟨n, Nat.pos_of_ne_zero fun hzero => hnil ?_, ?_⟩
          · rw [hbatch, hzero, List.take_zero]
          · rw [hlength, ← hbatch]
            exact happly
        exact ⟨hmirrors, Or.inr (Or.inr ⟨e, rfl, rfl, Or.inl hrefused⟩)⟩
      | ok db' =>
        obtain ⟨hmirrors', hafter⟩ := mirrors_applyBatch hevents hcursor hpolicy (hbatch ▸ happly)
        have hvalid := hmirrors'.valid hdir
        have honce : applyOnce P R config limits dir db stats =
            (db', .ok ({ stats.read b.stats with
              transactions := (stats.read b.stats).transactions + 1
              eventsApplied := (stats.read b.stats).eventsApplied + b.events.length
              caughtUp := (stats.read b.stats).caughtUp || b.eof }, b.eof)) := by
          unfold applyOnce
          rw [hread]
          simp [hnil, happly, hvalid, bind, Except.bind]
        rw [honce]
        refine ⟨hmirrors', ?_⟩
        rcases hend with ⟨heof, hlength⟩ | ⟨heof, -⟩
        · refine Or.inl ⟨_, by rw [heof], ?_, ?_⟩
          · simp
          · show db'.events = _
            rw [hafter, List.take_of_length_le hlength]
            rfl
        · refine Or.inr (Or.inl ⟨_, by rw [heof], ?_⟩)
          show db.events.length < db'.events.length
          rw [(applyBatch_eq_ok happly hpolicy).1, List.length_append, List.length_map]
          have := List.length_pos_iff.mpr hnil
          omega
  · rw [← hcursor] at hread
    have honce : applyOnce P R config limits dir db stats = (db, .error (.eventStore err)) := by
      unfold applyOnce
      rw [hread]
    rw [honce]
    exact ⟨hmirrors, Or.inr (Or.inr ⟨_, rfl, rfl, Or.inr htorn⟩)⟩

/-- Limits of zero are refused. -/
theorem applyOnce_zero {dir : EventDir} {db : ProjectionDb τ} {limits : Limits} {stats : ApplyStats}
    (h : limits.events = 0 ∨ limits.bytes = 0) : applyOnce P R config limits dir db stats =
      (db, .error (.eventStore (.invalidInput "event and byte batch limits must be greater than zero"))) := by
  have hread : readBatch R config dir db.cursor limits =
      .error (.invalidInput "event and byte batch limits must be greater than zero") := by
    unfold readBatch require
    rw [if_neg fun hlimits => h.elim hlimits.1 hlimits.2]
    rfl
  unfold applyOnce
  rw [hread]

/-- The loop comes to its end, and without a limit it ends with the whole stream or with an event that the database
refuses. -/
theorem applyLoop_spec {dir : EventDir} {limits : Limits} {maxTransactions : Option Nat}
    (hids : ∀ line, isBlake3Identifier (eventHash R line) = true) (hdir : Settled R config dir)
    (hfits : ∀ segment ∈ dir.segments, segment.2.length ≤ u64Max) (hlimits : limits.events ≠ 0 ∧ limits.bytes ≠ 0)
    {turns : Nat} {db : ProjectionDb τ} {stats : ApplyStats} (h : Mirrors R dir db)
    (hturns : (storedEvents R dir).length < db.events.length + turns) :
    ∃ db' result, applyLoop P R config limits dir maxTransactions turns db stats = (db', some result) ∧ Mirrors R dir db' ∧
      ((∃ stats', result = .ok stats' ∧ (maxTransactions = none → stats'.caughtUp = true ∧ db'.events = streamRecords R dir)) ∨
        ∃ e, result = .error e ∧ RefusesNext P R dir db' e) := by
  have hwhole : ¬ ∃ segment ∈ dir.segments, (cut 10 segment.2).2 ≠ [] := by
    rintro ⟨segment, hsegment, htorn⟩
    obtain ⟨closed, opened, hholds, hrest⟩ := hdir
    exact htorn ((verifies_iff.mp (hholds.verifies hrest)).2.2 segment hsegment)
  induction turns generalizing db stats with
  | zero =>
    obtain ⟨k, hk, hevents, -⟩ := h
    rw [hevents, List.length_map, List.length_take] at hturns
    omega
  | succ turns ih =>
    obtain ⟨hmirrors, hends⟩ := @applyOnce_spec τ γ P R config dir db limits stats hids hdir.intact hfits hlimits h
    rcases honce : applyOnce P R config limits dir db stats with ⟨db', result⟩
    rw [honce] at hmirrors hends
    rcases hends with ⟨stats', hresult, hcaught, hall⟩ | ⟨stats', hresult, hmore⟩ | ⟨e, hresult, hsame, hrefused⟩
    · have hresult : result = .ok (stats', true) := hresult
      subst hresult
      refine ⟨db', .ok stats', ?_, hmirrors, Or.inl ⟨stats', rfl, fun _ => ⟨hcaught, hall⟩⟩⟩
      rw [applyLoop, honce]
    · have hresult : result = .ok (stats', false) := hresult
      subst hresult
      have hmore : db.events.length < db'.events.length := hmore
      by_cases hlimit : (maxTransactions.any fun limit => limit ≤ stats'.transactions) = true
      · refine ⟨db', .ok stats', ?_, hmirrors, Or.inl ⟨stats', rfl, fun hnone => ?_⟩⟩
        · rw [applyLoop, honce]
          exact if_pos hlimit
        · rw [hnone] at hlimit
          cases hlimit
      · obtain ⟨db'', result, hloop, hrest⟩ := @ih db' stats' hmirrors (by omega)
        refine ⟨db'', result, ?_, hrest⟩
        rw [applyLoop, honce]
        show (if _ then _ else _) = _
        rw [if_neg hlimit]
        exact hloop
    · have hresult : result = .error e := hresult
      have hsame : db' = db := hsame
      subst hresult hsame
      refine ⟨db', .error e, ?_, hmirrors, Or.inr ⟨e, rfl, hrefused.resolve_right hwhole⟩⟩
      rw [applyLoop, honce]

end

/-! ### Runs -/

section

variable {ρ τ γ : Type} [DecidableEq ρ] {R : EventRuntime} {config : EventStoreConfig} {P : Projector τ γ}

variable (R config) in
omit [DecidableEq ρ] in
structure Good (s : State ρ τ) : Prop where
  intact : Intact R config s.dir
  kept : s.acknowledged.Sublist (streamRecords R s.dir)
  mirrors : ∀ r, Mirrors R s.dir (s.db r)

omit [DecidableEq ρ] in
theorem good_start (tables : τ) : Good R config (State.start (ρ := ρ) tables) := by
  have hholds : Holds R config ⟨[], []⟩ [] none :=
    ⟨rfl, rfl, trivial, nofun, nofun, by decide, nofun⟩
  exact ⟨hholds.intact nofun, List.Sublist.refl _, fun r => ⟨0, Nat.zero_le _, rfl, rfl, rfl⟩⟩

/-- A writer keeps the lines of the others, wherever it is stopped. -/
theorem left_of_steps (hR : R.Sound) (hconfig : config.validate = .ok ()) {s t : State ρ τ} {e : Event ρ}
    (hs : Intact R config s.dir) (h : Steps R config P s e t) :
    ∃ records, Left R config s.dir t.dir records ∧ t.acknowledged = s.acknowledged ++ records := by
  obtain ⟨rfl, hserved⟩ := h
  cases e with
  | append requests pending stop =>
    obtain ⟨hstamps, hback, hroom⟩ := hserved
    rw [next_append]
    refine ⟨(written (appendBatch R config requests pending) s.dir stop).2, ?_, rfl⟩
    cases hpublic : validatePublicBatch (requests.map Prod.fst) with
    | error err =>
      -- nothing is written for a batch that is refused at once
      have hrun : (appendBatch R config requests pending).run s.dir = ([], .error err) := by
        unfold appendBatch
        rw [hpublic]
        rfl
      cases stop with
      | some n =>
        unfold written
        rw [hrun]
        show Left R config s.dir (Prog.last s.dir (List.take n [])) []
        rw [List.take_nil]
        exact left_refl hs
      | none =>
        unfold written
        rw [hrun]
        exact left_refl hs
    | ok u =>
      exact left_of_runs hs hback
        ((appendBatch_spec hR hconfig hs hpublic hstamps hback hroom).mono (fun _ hC => hC) fun r t hends => Or.inl hends)
  | checkpoint checkpointId stamp pending stop =>
    obtain ⟨hstamp, hback, hroom⟩ := hserved
    rw [next_checkpoint]
    refine ⟨(written (createCheckpoint R config checkpointId stamp pending) s.dir stop).2, ?_, rfl⟩
    refine @left_of_runs R config s.dir _ _ (CheckpointRefused R config s.dir checkpointId stamp pending) stop hs hback
      ((createCheckpoint_spec hR hconfig hs hstamp hback hroom).mono (fun _ hC => hC) fun r t hends => ?_)
    rcases hends with hends | ⟨-, hr, hsettled, hgrows⟩
    · exact Or.inl hends
    · exact Or.inr ⟨hr, hsettled, hgrows⟩
  | apply r limits =>
    refine ⟨[], left_refl hs, ?_⟩
    rw [List.append_nil]
    rfl

theorem good_step (hR : R.Sound) (hconfig : config.validate = .ok ()) {s t : State ρ τ} {e : Event ρ}
    (hs : Good R config s) (h : Steps R config P s e t) : Good R config t := by
  obtain ⟨records, hleft, hacknowledged⟩ := left_of_steps hR hconfig hs.intact h
  refine ⟨hleft.intact, ?_, fun r => ?_⟩
  · obtain ⟨between, hrecords⟩ := hleft.records
    rw [hacknowledged, hrecords, List.append_assoc]
    exact hs.kept.append (List.sublist_append_right _ _)
  · obtain ⟨hnext, hserved⟩ := h
    cases e with
    | append requests pending stop =>
      have hdb : t.db = s.db := by rw [← hnext, next_append]
      rw [hdb]
      exact (hs.mirrors r).mono hleft.grows
    | checkpoint checkpointId stamp pending stop =>
      have hdb : t.db = s.db := by rw [← hnext, next_checkpoint]
      rw [hdb]
      exact (hs.mirrors r).mono hleft.grows
    | apply q limits =>
      obtain ⟨hlimits, hfits⟩ := hserved
      rw [← hnext]
      show Mirrors R s.dir (Function.update s.db q _ r)
      by_cases hr : r = q
      · rw [hr, Function.update_self]
        exact (applyOnce_spec hR.ids hs.intact hfits hlimits (hs.mirrors q)).1
      · rw [Function.update_of_ne hr]
        exact hs.mirrors r

theorem good_run (hR : R.Sound) (hconfig : config.validate = .ok ()) {s : State ρ τ} {run : List (Event ρ × State ρ τ)}
    (hs : Good R config s) (hrun : Path (Steps R config P) s run) : Good R config (final s run) :=
  Path.invariant (P := Good R config) (fun _ _ _ => good_step hR hconfig) hs hrun

/-- The stream of a run only grows. -/
theorem stream_grows (hR : R.Sound) (hconfig : config.validate = .ok ()) {s : State ρ τ} {run : List (Event ρ × State ρ τ)}
    (hs : Good R config s) (hrun : Path (Steps R config P) s run) :
    storedEvents R s.dir <+: storedEvents R (final s run).dir := by
  induction run generalizing s with
  | nil => exact List.prefix_rfl
  | cons e run ih =>
    obtain ⟨records, hleft, -⟩ := left_of_steps hR hconfig hs.intact hrun.1
    exact hleft.grows.trans (ih (good_step hR hconfig hs hrun.1) hrun.2)

/-- **Every database mirrors the stream.** -/
theorem mirrors_stream (hR : R.Sound) (hconfig : config.validate = .ok ()) {tables : τ} {run : List (Event ρ × State ρ τ)}
    (hrun : Path (Steps R config P) (State.start tables) run) (r : ρ) :
    ((final (State.start tables) run).db r).events <+: streamRecords R (final (State.start tables) run).dir ∧
      validateStatus ((final (State.start tables) run).db r) = .ok () := by
  have hgood := good_run hR hconfig (good_start tables) hrun
  have hmirrors := hgood.mirrors r
  refine ⟨?_, hmirrors.valid hgood.intact⟩
  obtain ⟨k, -, hevents, -⟩ := hmirrors
  rw [hevents]
  exact (List.take_prefix k _).map PositionedEvent.record

/-- A database that read a single event. -/
theorem stream_mirrored : ∃ run : List (Event Bool × State Bool (List String)),
    Path Sample.streamSteps Sample.streamStart run ∧
      Sample.hashesOf ((final Sample.streamStart run).db true).events = [Sample.lineId 0] ∧
      ((final Sample.streamStart run).db true).events <+:
        streamRecords Sample.eventsRuntime (final Sample.streamStart run).dir ∧
      validateStatus ((final Sample.streamStart run).db true) = .ok () := by
  obtain ⟨run, htrace, -, hevents, -⟩ := Sample.stream_run
  have hrun := Sample.path_streamNext htrace
  exact ⟨run, hrun, hevents, mirrors_stream Sample.eventsRuntime_sound rfl hrun true⟩

/-- **What was acknowledged is kept.** -/
theorem acknowledged_kept (hR : R.Sound) (hconfig : config.validate = .ok ()) {tables : τ}
    {run later : List (Event ρ × State ρ τ)} (hrun : Path (Steps R config P) (State.start tables) (run ++ later)) :
    (final (State.start tables) run).acknowledged.Sublist (streamRecords R (final (State.start tables) run).dir) ∧
      streamRecords R (final (State.start tables) run).dir <+:
        streamRecords R (final (State.start tables) (run ++ later)).dir := by
  obtain ⟨hfirst, hlater⟩ := path_append.mp hrun
  have hgood := good_run hR hconfig (good_start tables) hfirst
  refine ⟨hgood.kept, ?_⟩
  rw [final_append]
  exact (stream_grows hR hconfig hgood hlater).map PositionedEvent.record

/-- What was acknowledged before a writer was stopped, and what came after it. -/
theorem stream_kept : ∃ run later : List (Event Bool × State Bool (List String)),
    Path Sample.streamSteps Sample.streamStart (run ++ later) ∧
      (final Sample.streamStart run).dir.segments = [(1, Sample.firstLines), (3, [4])] ∧
      (final Sample.streamStart run).acknowledged.Sublist
        (streamRecords Sample.eventsRuntime (final Sample.streamStart run).dir) ∧
      streamRecords Sample.eventsRuntime (final Sample.streamStart run).dir <+:
        streamRecords Sample.eventsRuntime (final Sample.streamStart (run ++ later)).dir := by
  obtain ⟨run, htrace, -, -, -, htorn, -⟩ := Sample.stream_run
  have hrun := Sample.path_streamNext htrace
  rw [← List.take_append_drop 3 run] at hrun
  exact ⟨run.take 3, run.drop 3, hrun, htorn, acknowledged_kept Sample.eventsRuntime_sound rfl hrun⟩

/-- **A database catches up.**  From a directory that ends with a whole line it gets every event of the stream, if the
other tables take the next ones as long as there are any; limits of zero are refused before anything is read. -/
theorem apply_catches_up (hR : R.Sound) (hconfig : config.validate = .ok ()) {tables : τ} {run : List (Event ρ × State ρ τ)}
    (hrun : Path (Steps R config P) (State.start tables) run) {limits : Limits} (r : ρ)
    (hwhole : ∀ segment ∈ (final (State.start tables) run).dir.segments, (cut 10 segment.2).2 = [])
    (hfits : ∀ segment ∈ (final (State.start tables) run).dir.segments, segment.2.length ≤ u64Max) :
    ∃ db result, applyInternal P R config limits (final (State.start tables) run).dir none
        ((streamRecords R (final (State.start tables) run).dir).length + 1) ((final (State.start tables) run).db r) =
          (db, some result) ∧
      (limits.events = 0 ∨ limits.bytes = 0 → db = (final (State.start tables) run).db r ∧
        result = .error (.eventStore (.invalidInput "event and byte batch limits must be greater than zero"))) ∧
      (limits.events ≠ 0 ∧ limits.bytes ≠ 0 →
        (∃ stats, result = .ok stats ∧ stats.caughtUp = true ∧
            db.events = streamRecords R (final (State.start tables) run).dir) ∨
          ∃ e, result = .error e ∧ db.events <+: streamRecords R (final (State.start tables) run).dir ∧
            RefusesNext P R (final (State.start tables) run).dir db e) := by
  have hgood := good_run hR hconfig (good_start tables) hrun
  have hmirrors := hgood.mirrors r
  have hvalid := hmirrors.valid hgood.intact
  have hlength : (streamRecords R (final (State.start tables) run).dir).length =
      (storedEvents R (final (State.start tables) run).dir).length := List.length_map _
  by_cases hzero : limits.events = 0 ∨ limits.bytes = 0
  · refine ⟨_, _, ?_, fun _ => ⟨rfl, rfl⟩, fun hlimits => absurd hzero (not_or.mpr hlimits)⟩
    unfold applyInternal
    rw [hvalid]
    show applyLoop P R config limits _ none (_ + 1) _ _ = _
    rw [applyLoop, applyOnce_zero hzero]
  · obtain ⟨db, result, hloop, hafter, hends⟩ :=
      @applyLoop_spec τ γ P R config _ limits none hR.ids (hgood.intact.settled hwhole) hfits (not_or.mp hzero)
        ((streamRecords R (final (State.start tables) run).dir).length + 1) _ ⟨0, 0, 0, 0, false⟩ hmirrors (by omega)
    refine ⟨db, result, ?_, fun hlimits => absurd hlimits hzero, fun _ => ?_⟩
    · unfold applyInternal
      rw [hvalid]
      exact hloop
    · rcases hends with ⟨stats, hresult, hall⟩ | ⟨e, hresult, hrefused⟩
      · exact Or.inl ⟨stats, hresult, hall rfl⟩
      · obtain ⟨k, -, hevents, -⟩ := hafter
        refine Or.inr ⟨e, hresult, ?_, hrefused⟩
        rw [hevents]
        exact (List.take_prefix k _).map PositionedEvent.record

/-- The first database goes on after the last writer. -/
theorem stream_caught_up : ∃ (run : List (Event Bool × State Bool (List String))) (db : ProjectionDb (List String))
    (result : Except ProjectionError ApplyStats), Path Sample.streamSteps Sample.streamStart run ∧
      Sample.hashesOf ((final Sample.streamStart run).db true).events = [Sample.lineId 0] ∧
      applyInternal Sample.namesProjector Sample.eventsRuntime Sample.streamConfig ⟨10, 1000⟩
        (final Sample.streamStart run).dir none
        ((streamRecords Sample.eventsRuntime (final Sample.streamStart run).dir).length + 1)
        ((final Sample.streamStart run).db true) = (db, some result) := by
  obtain ⟨run, htrace, -, hevents, -, -, -, hsegments, hservable⟩ := Sample.stream_run
  have hrun := Sample.path_streamNext htrace
  have hwhole := Sample.whole_of_segments hsegments
  obtain ⟨-, hfits⟩ := Sample.served_of_servable hservable
  obtain ⟨db, result, hresult, -⟩ := apply_catches_up Sample.eventsRuntime_sound rfl hrun true hwhole hfits
  exact ⟨run, db, result, hrun, hevents, hresult⟩

/-- **What verifies can be read**, from any of its events on and without an error. -/
theorem reads_verified {dir : EventDir} {v : VerifiedStream} {limits : Limits} {k : Nat}
    (hverified : verifyLocked R config dir = .ok v) (hids : ∀ line, isBlake3Identifier (eventHash R line) = true)
    (hfits : ∀ segment ∈ dir.segments, segment.2.length ≤ u64Max) (hlimits : limits.events ≠ 0 ∧ limits.bytes ≠ 0)
    (hk : k ≤ (storedEvents R dir).length) :
    ∃ batch n, readBatch R config dir (cursorAfter .empty ((storedEvents R dir).take k)) limits = .ok batch ∧
      batch.events = ((storedEvents R dir).drop k).take n ∧
      batch.nextCursor = cursorAfter .empty ((storedEvents R dir).take (k + n)) ∧
      ((batch.eof = true ∧ (storedEvents R dir).length ≤ k + n) ∨ (batch.eof = false ∧ batch.events ≠ [])) := by
  obtain ⟨hcheck, hstream, hwhole⟩ := verifies_iff.mp ⟨v, hverified⟩
  rcases readBatch_spec hcheck hstream hids hfits hlimits hk with hread | ⟨-, segment, hsegment, htorn⟩
  · exact hread
  · exact absurd (hwhole segment hsegment) htorn

/-- The stream of the last writer, from behind the events of the first segment. -/
theorem stream_read : ∃ (run : List (Event Bool × State Bool (List String))) (batch : EventBatch),
    Path Sample.streamSteps Sample.streamStart run ∧
      (final Sample.streamStart run).dir.segments = [(1, Sample.firstLines), (3, Sample.document 4 3 ++ [10])] ∧
      readBatch Sample.eventsRuntime Sample.streamConfig (final Sample.streamStart run).dir
        (cursorAfter .empty ((storedEvents Sample.eventsRuntime (final Sample.streamStart run).dir).take 2)) ⟨10, 1000⟩ =
          .ok batch ∧ batch.events ≠ [] := by
  obtain ⟨run, htrace, -, -, -, -, -, hsegments, hservable⟩ := Sample.stream_run
  have hrun := Sample.path_streamNext htrace
  have hwhole := Sample.whole_of_segments hsegments
  obtain ⟨hlimits, hfits⟩ := Sample.served_of_servable hservable
  have hgood := good_run Sample.eventsRuntime_sound rfl (good_start []) hrun
  obtain ⟨v, hverified⟩ := (hgood.intact.settled hwhole).verifies
  have hlength : (storedEvents Sample.eventsRuntime (final Sample.streamStart run).dir).length = 3 := by
    unfold storedEvents
    rw [hsegments]
    decide +kernel
  have hk : 2 ≤ (storedEvents Sample.eventsRuntime (final Sample.streamStart run).dir).length := by omega
  obtain ⟨batch, n, hbatch, hevents, -, hend⟩ :=
    reads_verified hverified Sample.eventsRuntime_sound.ids hfits hlimits hk
  refine ⟨run, batch, hrun, hsegments, hbatch, ?_⟩
  rcases hend with ⟨-, hall⟩ | ⟨-, hne⟩
  · intro hnil
    have hall : (storedEvents Sample.eventsRuntime (final Sample.streamStart run).dir).length ≤ 2 + n := hall
    have hevents : batch.events = ((storedEvents Sample.eventsRuntime (final Sample.streamStart run).dir).drop 2).take n := hevents
    have hnone := congrArg List.length hevents
    rw [hnil, List.length_take, List.length_drop, List.length_nil] at hnone
    omega
  · exact hne

/-- **The last hash binds what verifies.**  Without collisions two directories that verify with the same last hash hold
the same lines and events, however these are cut into segments. -/
theorem verified_binds {dir dir' : EventDir} {v v' : VerifiedStream} (hv : verifyLocked R config dir = .ok v)
    (hv' : verifyLocked R config dir' = .ok v') (hhash : v.report.lastEventHash = v'.report.lastEventHash)
    (hinj : ∀ a ∈ storedLines dir, ∀ b ∈ storedLines dir', eventHash R a = eventHash R b → a = b) :
    storedLines dir = storedLines dir' ∧ streamRecords R dir = streamRecords R dir' := by
  obtain ⟨-, hstream, -⟩ := verifies_iff.mp ⟨v, hv⟩
  obtain ⟨-, hstream', -⟩ := verifies_iff.mp ⟨v', hv'⟩
  have htip : tip (eventHash R) none (storedLines dir) = tip (eventHash R) none (storedLines dir') := by
    rw [← lastEventHash_of_verified hv, ← lastEventHash_of_verified hv', hhash]
  have hlines : storedLines dir = storedLines dir' :=
    (linked_of_chain hstream.chain).eq_of_tip (linked_of_chain hstream'.chain) hinj htip
  refine ⟨hlines, ?_⟩
  calc streamRecords R dir = (storedLines dir).filterMap (recordOf R) := hstream.records
    _ = (storedLines dir').filterMap (recordOf R) := by rw [hlines]
    _ = streamRecords R dir' := hstream'.records.symm

namespace Sample

open ArchiveLedger.Sample

/-- The events of the last writer, in two segments and in one. -/
def closedDir : EventDir := ⟨[(1, firstLines), (3, document 4 3 ++ [10])], [(1, document 5 0)]⟩

def openDir : EventDir := ⟨[(1, firstLines ++ document 4 3 ++ [10])], []⟩

theorem dirs_verify : ∃ v v', verifyLocked eventsRuntime streamConfig closedDir = .ok v ∧
    verifyLocked eventsRuntime streamConfig openDir = .ok v' ∧ v.report.lastEventHash = v'.report.lastEventHash := by
  have h : (verifyLocked eventsRuntime streamConfig closedDir).toOption.any (fun v =>
      (verifyLocked eventsRuntime streamConfig openDir).toOption.any fun v' =>
        decide (v.report.lastEventHash = v'.report.lastEventHash)) = true := by
    decide +kernel
  obtain ⟨v, hv, h⟩ := (Option.any_eq_true _ _).mp h
  obtain ⟨v', hv', hhash⟩ := (Option.any_eq_true _ _).mp h
  exact ⟨v, v', toOption_eq_some.mp hv, toOption_eq_some.mp hv', of_decide_eq_true hhash⟩

end Sample

/-- Two segments and one. -/
theorem cut_otherwise : ∃ v v', verifyLocked Sample.eventsRuntime Sample.streamConfig Sample.closedDir = .ok v ∧
    verifyLocked Sample.eventsRuntime Sample.streamConfig Sample.openDir = .ok v' ∧
    v.report.lastEventHash = v'.report.lastEventHash ∧ Sample.closedDir.segments ≠ Sample.openDir.segments ∧
    streamRecords Sample.eventsRuntime Sample.closedDir = streamRecords Sample.eventsRuntime Sample.openDir := by
  obtain ⟨v, v', hv, hv', hhash⟩ := Sample.dirs_verify
  exact ⟨v, v', hv, hv', hhash, by decide, (verified_binds hv hv' hhash (by decide +kernel)).2⟩

end

end ArchiveLedger.Events
