import ArchiveLedger.Events.Appending

/-!
# Batches of events

`append_batch` and `create_checkpoint` first repair what a stopped writer left, then prepare their lines and append them.
They may be stopped anywhere: the directory is intact then, and has the lines from before and the first of the new ones.
They fail only because of their batch or of the checkpoints, never because of what another writer left
(`appendBatch_spec`, `createCheckpoint_spec`).
-/

namespace ArchiveLedger.Events

open CrashLogic HashChain Lines Outcome Transition

section

variable (R : EventRuntime) (config : EventStoreConfig)

/-- A directory that nobody was stopped in. -/
def Settled (dir : EventDir) : Prop :=
  ∃ closed opened, Holds R config dir closed opened ∧ ∀ o, opened = some o → o.rest = []

/-- The lines behind which a writer goes on. -/
def keptLines (dir : EventDir) : List Bytes := storedLines dir ++ leftLines R dir

/-- The lines a batch would be there. -/
def prepareAfter (dir : EventDir) (requests : List (EventRequest × Stamp)) : EventResult (List Prepared) :=
  prepare R config (1 + (keptLines R dir).length) (tip (eventHash R) none (keptLines R dir)) requests

/-- Requests with ULIDs as the generator makes them. -/
def Stamped (requests : List (EventRequest × Stamp)) : Prop :=
  ∀ request ∈ requests, isPrefixedLowercaseUlid R ("evt_" ++ request.2.ulid) "evt_" = true

variable {R config}

/-! ### Prepared lines -/

theorem prepare_cons {seq : Nat} {previous : Option String} {request : EventRequest × Stamp}
    {requests : List (EventRequest × Stamp)} {ps : List Prepared}
    (h : prepare R config seq previous (request :: requests) = .ok ps) :
    ∃ p rest, ps = p :: rest ∧ p.envelope = envelopeOf config seq previous request.1 request.2 ∧
      p.line = R.writeEnvelope p.envelope ∧ p.hash = eventHash R p.line ∧ p.line.length ≤ config.maxEventBytes ∧
      prepare R config (seq + 1) (some p.hash) requests = .ok rest := by
  rw [prepare] at h
  obtain ⟨_, hfits, h⟩ := bind_eq_ok.mp h
  obtain ⟨next, hnext, h⟩ := bind_eq_ok.mp h
  obtain ⟨-, hnext⟩ := checkedAdd_eq_some.mp (okOr_eq_ok.mp hnext)
  rw [← hnext] at h
  obtain ⟨rest, hrest, h⟩ := bind_eq_ok.mp h
  cases h
  exact ⟨_, rest, rfl, rfl, rfl, rfl, require_eq_ok.mp hfits, hrest⟩

theorem length_prepare {seq : Nat} {previous : Option String} {requests : List (EventRequest × Stamp)} {ps : List Prepared}
    (h : prepare R config seq previous requests = .ok ps) : ps.length = requests.length := by
  induction requests generalizing seq previous ps with
  | nil =>
    cases h
    rfl
  | cons request requests ih =>
    obtain ⟨p, rest, rfl, -, -, -, -, hrest⟩ := prepare_cons h
    rw [List.length_cons, List.length_cons, ih hrest]

theorem lines_of_prepare {seq : Nat} {previous : Option String} {requests : List (EventRequest × Stamp)} {ps : List Prepared}
    (h : prepare R config seq previous requests = .ok ps) :
    ∀ p ∈ ps, p.line = R.writeEnvelope p.envelope ∧ p.hash = eventHash R p.line := by
  induction requests generalizing seq previous ps with
  | nil =>
    cases h
    exact fun _ hp => absurd hp List.not_mem_nil
  | cons request requests ih =>
    obtain ⟨p, rest, rfl, -, hline, hhash, -, hrest⟩ := prepare_cons h
    intro q hq
    rcases List.mem_cons.mp hq with rfl | hq
    · exact ⟨hline, hhash⟩
    · exact ih hrest q hq

/-- Prepared lines go on with the stream. -/
theorem written_of_prepare (hconfig : config.validate = .ok ()) {seq : Nat} {previous : Option String}
    {requests : List (EventRequest × Stamp)} {ps : List Prepared} (h : prepare R config seq previous requests = .ok ps)
    (hvalid : ∀ request ∈ requests, validateRequest request.1 = .ok ()) (hstamps : Stamped R requests)
    (hback : ∀ p ∈ ps, WritesBack R p.envelope) : Written R config seq previous ps := by
  induction requests generalizing seq previous ps with
  | nil =>
    cases h
    trivial
  | cons request requests ih =>
    obtain ⟨p, rest, rfl, henvelope, hline, hhash, hfits, hrest⟩ := prepare_cons h
    have hp := hback p List.mem_cons_self
    obtain ⟨_, -, hconfig'⟩ := bind_eq_ok.mp hconfig
    obtain ⟨_, -, hconfig'⟩ := bind_eq_ok.mp hconfig'
    obtain ⟨hactor, hhost⟩ := require_eq_ok.mp hconfig'
    obtain ⟨_, htype, hpayload⟩ := bind_eq_ok.mp (hvalid request List.mem_cons_self)
    have hstands : Stands R seq previous p.envelope := by
      rw [henvelope]
      exact ⟨rfl, rfl, rfl, rfl, ⟨require_eq_ok.mp htype, hactor, hhost, require_eq_ok.mp hpayload⟩,
        hstamps request List.mem_cons_self⟩
    refine ⟨hline, hhash, hp, ⟨hfits, ?_, hstands⟩, ih hrest (fun other hother => hvalid other (List.mem_cons_of_mem _ hother))
      (fun other hother => hstamps other (List.mem_cons_of_mem _ hother))
      fun other hother => hback other (List.mem_cons_of_mem _ hother)⟩
    rw [hline]
    exact hp.reads

/-! ### The parts of an append -/

theorem Settled.intact {dir : EventDir} (h : Settled R config dir) : Intact R config dir := by
  obtain ⟨closed, opened, hholds, hwhole⟩ := h
  exact hholds.intact hwhole

theorem Settled.leftLines_nil {dir : EventDir} (h : Settled R config dir) : leftLines R dir = [] := by
  obtain ⟨closed, opened, hholds, hwhole⟩ := h
  exact hholds.leftLines_nil hwhole

theorem Settled.keptLines {dir : EventDir} (h : Settled R config dir) : keptLines R dir = storedLines dir := by
  rw [Events.keptLines, h.leftLines_nil, List.append_nil]

/-- The repair leaves the lines that a writer goes on from. -/
theorem Settled.keptLines_of_extends {dir t : EventDir} (ht : Settled R config t) (h : Extends R dir t (leftLines R dir)) :
    Events.keptLines R t = Events.keptLines R dir := ht.keptLines.trans h.lines

theorem Tracks.settled {dir : EventDir} {closed : List (Nat × Bytes)} {opened : Option (List Bytes)} {state : WriterState}
    (h : Tracks R config dir closed opened state) : Settled R config dir := ⟨closed, _, h.holds, h.whole⟩

theorem closeFull_spec (hR : R.Sound) (hconfig : config.validate = .ok ()) {C : EventDir → Prop} {dir : EventDir}
    {closed : List (Nat × Bytes)} {opened : Option (List Bytes)} {state : WriterState}
    (h : Tracks R config dir closed opened state) (hC : ∀ t, Settled R config t → Extends R dir t [] → C t) :
    Runs C (closeFullSegment R config state) dir fun r t => ∃ state', r = .ok state' ∧ ∃ closed' opened',
      Tracks R config t closed' opened' state' ∧ Extends R dir t [] := by
  have hopened := h.opened
  unfold closeFullSegment
  split
  · rename_i hfull
    cases opened with
    | none =>
      rw [hopened] at hfull
      cases hfull
    | some lines =>
      have hne : lines ≠ [] := by
        rintro rfl
        obtain ⟨_, hrollover, -⟩ := bind_eq_ok.mp hconfig
        have hrollover := require_eq_ok.mp hrollover
        rw [hopened] at hfull
        have hfull := of_decide_eq_true hfull
        exact hrollover (Nat.le_zero.mp hfull)
      refine (close_spec hR h hne fun t hclosed hgrows => hC t ⟨_, _, hclosed, nofun⟩ hgrows).mono (fun _ hC => hC) ?_
      rintro r t ⟨state', rfl, htracks, hgrows⟩
      exact ⟨state', rfl, _, _, htracks, hgrows⟩
  · exact runs_pure ⟨state, rfl, closed, opened, h, extends_refl dir⟩

variable (R config) in
/-- How an append of a batch ends: it is refused, or all its lines are there. -/
def BatchEnds (dir : EventDir) (requests : List (EventRequest × Stamp)) (r : EventResult (List EventRecord)) (t : EventDir) : Prop :=
  Settled R config t ∧
    ((∃ err, r = .error err ∧ Extends R dir t [] ∧
        ((requests.forM fun request => validateRequest request.1) = .error err ∨ prepareAfter R config dir requests = .error err)) ∨
      ∃ ps, prepareAfter R config dir requests = .ok ps ∧ r = .ok (ps.map Prepared.record) ∧
        Extends R dir t (ps.map Prepared.line))

theorem appendBatchToState_spec (hR : R.Sound) (hconfig : config.validate = .ok ()) {C : EventDir → Prop} {dir : EventDir}
    {closed : List (Nat × Bytes)} {opened : Option (List Bytes)} {state : WriterState}
    {requests : List (EventRequest × Stamp)} {forceCloseAfter : Bool}
    (h : Tracks R config dir closed opened state) (hne : requests ≠ []) (hstamps : Stamped R requests)
    (hback : ∀ ps, prepareAfter R config dir requests = .ok ps → ∀ p ∈ ps, WritesBack R p.envelope)
    (hroom : 1 + (storedLines dir).length + requests.length ≤ canonicalNames)
    (hC : ∀ t ps j, prepareAfter R config dir requests = .ok ps → Intact R config t →
      Extends R dir t ((ps.map Prepared.line).take j) → C t) :
    Runs C (appendBatchToState R config state requests forceCloseAfter) dir (BatchEnds R config dir requests) := by
  obtain ⟨hseq, hprevious⟩ := h.next
  have hprepare : prepare R config state.nextSeq state.previousEventHash requests = prepareAfter R config dir requests := by
    rw [hseq, hprevious, prepareAfter, h.settled.keptLines]
  unfold appendBatchToState
  rw [hprepare]
  refine runs_case (fun u hvalid => ?_) fun err herr => ⟨h.settled, Or.inl ⟨err, rfl, extends_refl dir, Or.inl herr⟩⟩
  refine runs_case (fun ps hps => ?_) fun err herr => ⟨h.settled, Or.inl ⟨err, rfl, extends_refl dir, Or.inr herr⟩⟩
  have hwritten : Written R config state.nextSeq state.previousEventHash ps :=
    written_of_prepare hconfig (hprepare.trans hps) (forM_eq_ok.mp hvalid) hstamps (hback ps hps)
  have hlength : ps.length = requests.length := length_prepare hps
  have hps' : ps ≠ [] := by
    rintro rfl
    exact hne (List.length_eq_zero_iff.mp hlength.symm)
  refine runs_then (appendAll_spec hR h hwritten (by omega) fun t j => hC t ps j hps) ?_
  rintro state' t ⟨closed', opened', htracks, hgrows, hlines⟩
  refine runs_then (P := fun _ t' => Settled R config t' ∧ Extends R dir t' (ps.map Prepared.line)) ?_ ?_
  · unfold closeAfter
    split
    · cases opened' with
      | none =>
        have hopened : state'.opened = none := htracks.opened
        unfold closeOpenSegment
        rw [hopened]
        exact runs_pure ⟨state', rfl, htracks.settled, hgrows⟩
      | some lines =>
        refine (close_spec hR htracks (hlines (Or.inl hps') lines rfl) fun t' hclosed hclosing => ?_).mono (fun _ hC => hC) ?_
        · refine hC t' ps (ps.map Prepared.line).length hps (hclosed.intact nofun) ?_
          rw [List.take_length]
          have hall := hgrows.trans hclosing
          rwa [List.append_nil] at hall
        · rintro r t' ⟨state'', rfl, htracks', hclosing⟩
          have hall := hgrows.trans hclosing
          rw [List.append_nil] at hall
          exact ⟨state'', rfl, htracks'.settled, hall⟩
    · exact runs_pure ⟨state', rfl, htracks.settled, hgrows⟩
  · rintro _ t' ⟨hsettled, hall⟩
    exact runs_pure ⟨hsettled, Or.inr ⟨ps, hps, rfl, hall⟩⟩

theorem prepareAfter_congr {dir t : EventDir} {requests : List (EventRequest × Stamp)} (ht : Settled R config t)
    (h : Extends R dir t (leftLines R dir)) : prepareAfter R config t requests = prepareAfter R config dir requests := by
  unfold prepareAfter
  rw [ht.keptLines_of_extends h]

theorem BatchEnds.after {dir t : EventDir} {requests : List (EventRequest × Stamp)} {r : EventResult (List EventRecord)}
    {t' : EventDir} (hdir : Settled R config dir) (ht : Settled R config t) (h : Extends R dir t [])
    (hends : BatchEnds R config t requests r t') : BatchEnds R config dir requests r t' := by
  obtain ⟨hsettled, hends⟩ := hends
  rw [prepareAfter_congr ht (by rw [hdir.leftLines_nil]; exact h)] at hends
  refine ⟨hsettled, ?_⟩
  rcases hends with ⟨err, hr, hgrows, hrefused⟩ | ⟨ps, hps, hr, hgrows⟩
  · exact Or.inl ⟨err, hr, h.trans hgrows, hrefused⟩
  · exact Or.inr ⟨ps, hps, hr, h.trans hgrows⟩

/-- Where nobody was stopped there is nothing to repair. -/
theorem inspect_settled {C : EventDir → Prop} {dir : EventDir} (h : Settled R config dir)
    (hC : ∀ t, Settled R config t → Extends R dir t [] → C t) :
    Runs C (inspectWriterState R config) dir fun r t => ∃ state, r = .ok state ∧ ∃ closed opened,
      Tracks R config t closed opened state ∧ Extends R dir t [] := by
  have hnil := h.leftLines_nil
  obtain ⟨closed, opened, hholds, hwhole⟩ := h
  have hnothing : ∀ lines t, Repaired R config dir closed opened lines t → lines = [] :=
    fun lines t hrepaired => hrepaired.lines.trans hnil
  refine (inspect_spec hholds (fun o ho => Or.inl (hwhole o ho)) fun lines t hrepaired => ?_).mono (fun _ hC => hC) ?_
  · have hgrows := hrepaired.grows
    rw [hnothing lines t hrepaired] at hgrows
    refine hC t ⟨closed, _, hrepaired.holds, fun o ho => ?_⟩ hgrows
    obtain ⟨_, -, rfl⟩ := Option.map_eq_some_iff.mp ho
    rfl
  · rintro r t ⟨state, rfl, lines, hrepaired, htracks⟩
    have hgrows := hrepaired.grows
    rw [hnothing lines t hrepaired] at hgrows
    exact ⟨state, rfl, closed, _, htracks, hgrows⟩

theorem appendBatchLocked_spec (hR : R.Sound) (hconfig : config.validate = .ok ()) {C : EventDir → Prop} {dir : EventDir}
    {requests : List (EventRequest × Stamp)} {forceCloseAfter : Bool} (h : Settled R config dir) (hne : requests ≠ [])
    (hstamps : Stamped R requests)
    (hback : ∀ ps, prepareAfter R config dir requests = .ok ps → ∀ p ∈ ps, WritesBack R p.envelope)
    (hroom : 1 + (storedLines dir).length + requests.length ≤ canonicalNames)
    (hsame : ∀ t, Settled R config t → Extends R dir t [] → C t)
    (hC : ∀ t ps j, prepareAfter R config dir requests = .ok ps → Intact R config t →
      Extends R dir t ((ps.map Prepared.line).take j) → C t) :
    Runs C (appendBatchLocked R config requests forceCloseAfter) dir (BatchEnds R config dir requests) := by
  unfold appendBatchLocked
  refine runs_then (inspect_settled h hsame) ?_
  rintro state t ⟨closed, opened, htracks, hgrows⟩
  refine runs_then (closeFull_spec hR hconfig htracks fun t' hsettled hfull => hsame t' hsettled (hgrows.trans hfull)) ?_
  rintro state' t' ⟨closed', opened', htracks', hfull⟩
  have hgrows' : Extends R dir t' [] := hgrows.trans hfull
  have hlines := hgrows'.lines
  rw [List.append_nil] at hlines
  have hprepare : prepareAfter R config t' requests = prepareAfter R config dir requests :=
    prepareAfter_congr htracks'.settled (by rw [h.leftLines_nil]; exact hgrows')
  refine (appendBatchToState_spec hR hconfig htracks' hne hstamps ?_ ?_ ?_).mono (fun _ hC => hC)
    fun r t'' => BatchEnds.after h htracks'.settled hgrows'
  · rw [hprepare]
    exact hback
  · rw [hlines]
    exact hroom
  · intro t'' ps j hps hintact hbatch
    rw [hprepare] at hps
    exact hC t'' ps j hps hintact (hgrows'.trans hbatch)

theorem Repaired.settled {dir t : EventDir} {closed : List (Nat × Bytes)} {opened : Option OpenText} {lines : List Bytes}
    (h : Repaired R config dir closed opened lines t) : Settled R config t := by
  refine ⟨closed, _, h.holds, fun o ho => ?_⟩
  obtain ⟨_, -, rfl⟩ := Option.map_eq_some_iff.mp ho
  rfl

/-- Whoever looks at the files goes on behind the lines that are kept. -/
theorem inspect_intact {C : EventDir → Prop} {dir : EventDir} (h : Intact R config dir)
    (hC : ∀ t, Settled R config t → Extends R dir t (leftLines R dir) → C t) :
    Runs C (inspectWriterState R config) dir fun r t => ∃ state, r = .ok state ∧ Settled R config t ∧
      Extends R dir t (leftLines R dir) ∧ state.nextSeq = 1 + (keptLines R dir).length ∧
      state.previousEventHash = tip (eventHash R) none (keptLines R dir) := by
  obtain ⟨closed, opened, hholds, hrest⟩ := h
  refine (inspect_spec hholds hrest fun lines t hrepaired => ?_).mono (fun _ hC => hC) ?_
  · have hgrows := hrepaired.grows
    rw [hrepaired.lines] at hgrows
    exact hC t hrepaired.settled hgrows
  · rintro r t ⟨state, rfl, lines, hrepaired, htracks⟩
    have hgrows := hrepaired.grows
    rw [hrepaired.lines] at hgrows
    have hkept := hrepaired.settled.keptLines_of_extends hgrows
    rw [hrepaired.settled.keptLines] at hkept
    obtain ⟨hseq, hprevious⟩ := htracks.next
    rw [hkept] at hseq hprevious
    exact ⟨state, rfl, hrepaired.settled, hgrows, hseq, hprevious⟩

theorem preparedIn_eq {dir : EventDir} (h : Intact R config dir) (requests : Nat → List (EventRequest × Stamp)) :
    preparedIn R config dir requests =
      ((prepareAfter R config dir (requests (1 + (keptLines R dir).length))).toOption).getD [] := by
  obtain ⟨state, hstate, -, -, hseq, hprevious⟩ := (inspect_intact (C := fun _ => True) h fun _ _ _ => trivial).ended
  unfold preparedIn prepareAfter
  rw [hstate]
  show ((prepare R config state.nextSeq state.previousEventHash (requests state.nextSeq)).toOption).getD [] = _
  rw [hseq, hprevious]

/-- The repair comes first. -/
theorem completePending_spec {C : EventDir → Prop} {dir : EventDir} {pending : EventResult Bool} (h : Intact R config dir)
    (hC : ∀ t, Settled R config t → Extends R dir t (leftLines R dir) → C t) :
    Runs C (completePending R config pending) dir fun r t =>
      r = pending ∧ Settled R config t ∧ Extends R dir t (leftLines R dir) := by
  unfold completePending
  refine runs_then (inspect_intact h hC) ?_
  rintro state t ⟨hsettled, hgrows, -⟩
  exact runs_lift ⟨rfl, hsettled, hgrows⟩

/-! ### The two operations -/

variable (R config) in
/-- A writer was stopped: the lines that are kept are there, and the first of the batch. -/
def StoppedIn (dir : EventDir) (ps : List Prepared) (t : EventDir) : Prop :=
  Intact R config t ∧ ∃ j, Extends R dir t (leftLines R dir ++ (ps.map Prepared.line).take j)

variable (R config) in
/-- A writer came to its end: it was refused, or all the lines of its batch are there. -/
def EndedIn (dir : EventDir) (requests : Nat → List (EventRequest × Stamp)) (refused : EventStoreError → Prop)
    (r : EventResult (List EventRecord)) (t : EventDir) : Prop :=
  Settled R config t ∧
    ((∃ err, r = .error err ∧ refused err ∧ Extends R dir t (leftLines R dir)) ∨
      ∃ ps, prepareAfter R config dir (requests (1 + (keptLines R dir).length)) = .ok ps ∧ r = .ok (ps.map Prepared.record) ∧
        Extends R dir t (leftLines R dir ++ ps.map Prepared.line))

/-- Why an append to a directory is refused. -/
def AppendRefused (R : EventRuntime) (config : EventStoreConfig) (dir : EventDir) (requests : List (EventRequest × Stamp))
    (pending : EventResult Bool) (err : EventStoreError) : Prop :=
  pending = .error err ∨ (requests.forM fun request => validateRequest request.1) = .error err ∨
    prepareAfter R config dir requests = .error err

/-- Nothing of the batch is there yet. -/
theorem stoppedIn_kept {dir t : EventDir} {ps : List Prepared} (ht : Settled R config t)
    (h : Extends R dir t (leftLines R dir)) : StoppedIn R config dir ps t := by
  refine ⟨ht.intact, 0, ?_⟩
  rw [List.take_zero, List.append_nil]
  exact h

/-- The lines that are kept are at most one more than those of the directory. -/
theorem length_keptLines (dir : EventDir) : (keptLines R dir).length ≤ (storedLines dir).length + 1 := by
  have := length_leftLines (R := R) dir
  unfold keptLines
  rw [List.length_append]
  omega

/-- `append_batch` from whatever another writer left. -/
theorem appendBatch_spec (hR : R.Sound) (hconfig : config.validate = .ok ()) {dir : EventDir}
    {requests : List (EventRequest × Stamp)} {pending : EventResult Bool} (h : Intact R config dir)
    (hpublic : validatePublicBatch (requests.map Prod.fst) = .ok ()) (hstamps : Stamped R requests)
    (hback : ∀ p ∈ preparedIn R config dir fun _ => requests, WritesBack R p.envelope)
    (hroom : 1 + (storedLines dir).length + 1 + requests.length ≤ canonicalNames) :
    Runs (StoppedIn R config dir (preparedIn R config dir fun _ => requests)) (appendBatch R config requests pending) dir
      (EndedIn R config dir (fun _ => requests) (AppendRefused R config dir requests pending)) := by
  have hne : requests ≠ [] := by
    rintro rfl
    obtain ⟨_, hnonempty, -⟩ := bind_eq_ok.mp hpublic
    exact require_eq_ok.mp hnonempty rfl
  have hprepared : ∀ ps, prepareAfter R config dir requests = .ok ps → preparedIn R config dir (fun _ => requests) = ps := by
    intro ps hps
    rw [preparedIn_eq h, hps]
    rfl
  unfold appendBatch
  refine runs_check (a := ()) hpublic ?_
  refine runs_bind (completePending_spec h fun t => stoppedIn_kept) ?_ ?_
  · rintro completed t ⟨-, hsettled, hgrows⟩
    have hlength := congrArg List.length (hsettled.keptLines_of_extends hgrows)
    rw [hsettled.keptLines] at hlength
    have hkept := length_keptLines (R := R) dir
    have hprepare : prepareAfter R config t requests = prepareAfter R config dir requests := prepareAfter_congr hsettled hgrows
    refine (appendBatchLocked_spec hR hconfig hsettled hne hstamps ?_ (by omega) ?_ ?_).mono (fun _ hC => hC) ?_
    · intro ps hps
      rw [← hprepared ps (hprepare.symm.trans hps)]
      exact hback
    · intro t' hsettled' hgrows'
      have hall := hgrows.trans hgrows'
      rw [List.append_nil] at hall
      exact stoppedIn_kept hsettled' hall
    · intro t' ps j hps hintact hgrows'
      refine ⟨hintact, j, ?_⟩
      rw [hprepared ps (hprepare.symm.trans hps)]
      exact hgrows.trans hgrows'
    · rintro r t' ⟨hsettled', hends⟩
      rw [hprepare] at hends
      refine ⟨hsettled', ?_⟩
      rcases hends with ⟨err, hr, hgrows', hrefused⟩ | ⟨ps, hps, hr, hgrows'⟩
      · have hall := hgrows.trans hgrows'
        rw [List.append_nil] at hall
        exact Or.inl ⟨err, hr, Or.inr hrefused, hall⟩
      · exact Or.inr ⟨ps, hps, hr, hgrows.trans hgrows'⟩
  · rintro err t ⟨hpending, hsettled, hgrows⟩
    exact ⟨hsettled, Or.inl ⟨err, rfl, Or.inl hpending.symm, hgrows⟩⟩

theorem closePrefix_spec (hR : R.Sound) {C : EventDir → Prop} {dir : EventDir} {closed : List (Nat × Bytes)}
    {opened : Option (List Bytes)} {state : WriterState} (h : Tracks R config dir closed opened state)
    (hC : ∀ t, Settled R config t → Extends R dir t [] → C t) :
    Runs C (closePrefix R config state) dir fun r t => ∃ state', r = .ok state' ∧ ∃ closed' opened',
      Tracks R config t closed' opened' state' ∧ Extends R dir t [] := by
  have hopened := h.opened
  unfold closePrefix
  split
  · rename_i hany
    rw [hopened] at hany
    cases opened with
    | none => cases hany
    | some lines =>
      have hne : lines ≠ [] := List.length_pos_iff.mp (of_decide_eq_true hany)
      refine (close_spec hR h hne fun t hclosed hgrows => hC t ⟨_, _, hclosed, nofun⟩ hgrows).mono (fun _ hC => hC) ?_
      rintro r t ⟨state', rfl, htracks, hgrows⟩
      exact ⟨state', rfl, _, _, htracks, hgrows⟩
  · exact runs_pure ⟨state, rfl, closed, opened, h, extends_refl dir⟩

/-- The one request of a checkpoint. -/
def checkpointRequests (checkpointId : String) (stamp : Stamp) (seq : Nat) : List (EventRequest × Stamp) :=
  [(checkpointRequest checkpointId seq, stamp)]

/-- Why a checkpoint of a directory is refused. -/
def CheckpointRefused (R : EventRuntime) (config : EventStoreConfig) (dir : EventDir) (checkpointId : String) (stamp : Stamp)
    (pending : EventResult Bool) (err : EventStoreError) : Prop :=
  pending = .error err ∨ (keptLines R dir = [] ∧ err = .invalidInput "cannot checkpoint an empty event stream") ∨
    prepareAfter R config dir (checkpointRequests checkpointId stamp (1 + (keptLines R dir).length)) = .error err

/-- `create_checkpoint` from whatever another writer left. -/
theorem createCheckpoint_spec (hR : R.Sound) (hconfig : config.validate = .ok ()) {dir : EventDir} {checkpointId : String}
    {stamp : Stamp} {pending : EventResult Bool} (h : Intact R config dir)
    (hstamp : isPrefixedLowercaseUlid R ("evt_" ++ stamp.ulid) "evt_" = true)
    (hback : ∀ p ∈ preparedIn R config dir (checkpointRequests checkpointId stamp), WritesBack R p.envelope)
    (hroom : 1 + (storedLines dir).length + 1 + 1 ≤ canonicalNames) :
    Runs (StoppedIn R config dir (preparedIn R config dir (checkpointRequests checkpointId stamp)))
      (createCheckpoint R config checkpointId stamp pending) dir
      fun r t => EndedIn R config dir (checkpointRequests checkpointId stamp)
          (CheckpointRefused R config dir checkpointId stamp pending) r t ∨
        pending = .ok true ∧ r = .ok [] ∧ Settled R config t ∧ Extends R dir t (leftLines R dir) := by
  have hprepared : ∀ ps, prepareAfter R config dir (checkpointRequests checkpointId stamp (1 + (keptLines R dir).length)) =
      .ok ps → preparedIn R config dir (checkpointRequests checkpointId stamp) = ps := by
    intro ps hps
    rw [preparedIn_eq h, hps]
    rfl
  unfold createCheckpoint
  refine runs_bind (completePending_spec h fun t => stoppedIn_kept) ?_ ?_
  · rintro completed t ⟨hpending, hsettled, hgrows⟩
    cases completed with
    | true => exact runs_pure (Or.inr ⟨hpending.symm, rfl, hsettled, hgrows⟩)
    | false =>
      have hkept := hsettled.keptLines_of_extends hgrows
      rw [hsettled.keptLines] at hkept
      have hlength := congrArg List.length hkept
      have hshort := length_keptLines (R := R) dir
      have hwrites : ∀ {t'}, Extends R t t' [] → Extends R dir t' (leftLines R dir) := by
        intro t' hgrows'
        have hall := hgrows.trans hgrows'
        rwa [List.append_nil] at hall
      refine runs_then (inspect_settled hsettled fun t' hsettled' hgrows' => stoppedIn_kept hsettled' (hwrites hgrows')) ?_
      rintro state t' ⟨closed, opened, htracks, hgrows'⟩
      refine runs_case (fun _ _ => ?_) fun err herr => ?_
      · refine runs_then (closePrefix_spec hR htracks fun t'' hsettled'' hclosing =>
          stoppedIn_kept hsettled'' (hwrites (hgrows'.trans hclosing))) ?_
        rintro state' t'' ⟨closed', opened', htracks', hclosing⟩
        have hgrows'' : Extends R t t'' [] := hgrows'.trans hclosing
        have hlines := hgrows''.lines
        rw [List.append_nil] at hlines
        have hseq : state'.nextSeq = 1 + (keptLines R dir).length := by rw [htracks'.next.1, hlines, hlength]
        have hrequests : prepareAfter R config t'' [(checkpointRequest checkpointId state'.nextSeq, stamp)] =
            prepareAfter R config dir (checkpointRequests checkpointId stamp (1 + (keptLines R dir).length)) := by
          rw [prepareAfter_congr htracks'.settled (hwrites hgrows''), hseq]
          rfl
        refine (appendBatchLocked_spec hR hconfig htracks'.settled (List.cons_ne_nil _ _) ?_ ?_ ?_ ?_ ?_).mono
          (fun _ hC => hC) ?_
        · intro request hrequest
          rw [List.mem_singleton.mp hrequest]
          exact hstamp
        · intro ps hps
          rw [← hprepared ps (hrequests.symm.trans hps)]
          exact hback
        · rw [hlines, List.length_singleton]
          omega
        · exact fun t₃ hsettled₃ hgrows₃ => stoppedIn_kept hsettled₃ (hwrites (hgrows''.trans hgrows₃))
        · intro t₃ ps j hps hintact hgrows₃
          refine ⟨hintact, j, ?_⟩
          rw [hprepared ps (hrequests.symm.trans hps)]
          exact hgrows.trans (hgrows''.trans hgrows₃)
        · rintro r t₃ ⟨hsettled₃, hends⟩
          rw [hrequests] at hends
          refine Or.inl ⟨hsettled₃, ?_⟩
          rcases hends with ⟨err, hr, hgrows₃, hrefused⟩ | ⟨ps, hps, hr, hgrows₃⟩
          · refine Or.inl ⟨err, hr, Or.inr (Or.inr ?_), hwrites (hgrows''.trans hgrows₃)⟩
            rcases hrefused with hvalid | hprepare
            · cases hvalid
            · exact hprepare
          · exact Or.inr ⟨ps, hps, hr, hgrows.trans (hgrows''.trans hgrows₃)⟩
      · refine Or.inl ⟨htracks.settled, Or.inl ⟨err, rfl, Or.inr (Or.inl ?_), hwrites hgrows'⟩⟩
        have hlines := hgrows'.lines
        rw [List.append_nil] at hlines
        obtain ⟨hseq, -⟩ := htracks.next
        rw [hlines, hkept] at hseq
        unfold require at herr
        split at herr
        · cases herr
        · rename_i hfirst
          exact ⟨List.length_eq_zero_iff.mp (by omega), (Except.error.inj herr).symm⟩
  · rintro err t ⟨hpending, hsettled, hgrows⟩
    exact Or.inl ⟨hsettled, Or.inl ⟨err, rfl, Or.inl hpending.symm, hgrows⟩⟩

end

end ArchiveLedger.Events
