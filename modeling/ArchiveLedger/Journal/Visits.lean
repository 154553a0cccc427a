import ArchiveLedger.Journal.Enrollment
import ArchiveLedger.Journal.Segments

/-!
# Visits of origins

The checks of a visit, taken apart.  The checks of single records that run along a
segment are independent of one another: the client of the origin, the coordination
proofs and registry items, the batches and the initialization each go their own way
(`checkRecords_iff`, `checkSegments_iff`).  What a visit of one origin leaves is an
`OriginVisit`: the records of the origin after the cursor, each from a frontier that is
known, and the clients after their registry items.
-/

namespace ArchiveLedger

open Outcome Transition Worklist

variable {R : StoreRuntime} {tree : EventTree} {range : OriginRange}

/-! ### The checks of records -/

/-- The registry items of a record, when they are applied at all. -/
def registryStep (R : StoreRuntime) (range : OriginRange) (clients : ClientMap) (r : VerifiedV2Record) :
    StoreResult ClientMap :=
  if range.applyRegistry then applyClientRegistryItems R [r] clients else .ok clients

theorem validateClientOriginRecords_one {r : VerifiedV2Record} {client : VerifiedV2Client}
    {frontiers : FrontierMap} :
    validateClientOriginRecords [r] client frontiers = .ok () ↔
      validateClientOriginRecord client frontiers r = .ok () := by
  simp only [validateClientOriginRecords, bind_eq_ok, require_eq_ok, forM_eq_ok, List.forall_mem_singleton]
  exact ⟨fun ⟨_, _, h⟩ => h, fun h => ⟨(), List.cons_ne_nil _ _, h⟩⟩

theorem validateCoordinationContexts_one {r : VerifiedV2Record} {clients : ClientMap} :
    validateCoordinationContexts R [r] clients = .ok () ↔
      validateCoordinationContext R clients r = .ok () := by
  rw [validateCoordinationContexts, forM_eq_ok, List.forall_mem_singleton]

theorem applyClientRegistryItems_one {r : VerifiedV2Record} {c d : ClientMap} :
    applyClientRegistryItems R [r] c = .ok d ↔ applyRecordItems R c r = .ok d := by
  rw [applyClientRegistryItems, commitAll_cons]
  exact ⟨fun ⟨u, hu, hd⟩ => by cases hd; exact hu, fun h => ⟨d, h, rfl⟩⟩

/-- The client of the origin accepts a record. -/
def clientStep (range : OriginRange) (r : VerifiedV2Record) : StoreResult Unit :=
  match range.client with
  | some client => validateClientOriginRecords [r] client range.knownFrontiers
  | none => .ok ()

theorem clientStep_eq_ok {r : VerifiedV2Record} : clientStep range r = .ok () ↔
    ∀ client ∈ range.client, validateClientOriginRecord client range.knownFrontiers r = .ok () := by
  unfold clientStep
  cases range.client with
  | none => exact ⟨fun _ client h => absurd h (Option.not_mem_none client), fun _ => rfl⟩
  | some client => simp [validateClientOriginRecords_one]

theorem checkRecord_eq {c : RecordChecks} {r : VerifiedV2Record} :
    checkRecord R range c r = (do
      clientStep range r
      validateCoordinationContexts R [r] c.clients
      let active ← validateStreamedBatchRecord R c.active r
      let initialized ← noteInitialization c.archiveInitializedAt r
      let clients ← registryStep R range c.clients r
      .ok ⟨active, clients, initialized, c.retainedStarts ++ [r].filter isRetained⟩) := by
  have hretained : (if isRetained r then c.retainedStarts ++ [r] else c.retainedStarts) =
      c.retainedStarts ++ [r].filter isRetained := by
    by_cases hr : isRetained r <;> simp [hr]
  unfold checkRecord clientStep registryStep
  rw [hretained]
  cases range.client <;> cases range.applyRegistry <;> rfl

theorem checkRecord_iff {c d : RecordChecks} {r : VerifiedV2Record} :
    checkRecord R range c r = .ok d ↔
      (∀ client ∈ range.client, validateClientOriginRecord client range.knownFrontiers r = .ok ()) ∧
        validateCoordinationContext R c.clients r = .ok () ∧
        registryStep R range c.clients r = .ok d.clients ∧
        validateStreamedBatchRecord R c.active r = .ok d.active ∧
        noteInitialization c.archiveInitializedAt r = .ok d.archiveInitializedAt ∧
        d.retainedStarts = c.retainedStarts ++ [r].filter isRetained := by
  simp only [checkRecord_eq, bind_eq_ok, Except.ok.injEq]
  constructor
  · rintro ⟨_, hc, _, hcoordination, active, hactive, init, hinit, clients, hclients, rfl⟩
    exact ⟨clientStep_eq_ok.mp hc, validateCoordinationContexts_one.mp hcoordination, hclients, hactive,
      hinit, rfl⟩
  · rintro ⟨hc, hcoordination, hclients, hactive, hinit, hkept⟩
    obtain ⟨active, clients, init, retained⟩ := d
    dsimp only at *
    subst hkept
    exact ⟨(), clientStep_eq_ok.mpr hc, (), validateCoordinationContexts_one.mpr hcoordination, active,
      hactive, init, hinit, clients, hclients, rfl⟩

/-- The checks along some records, each kind on its own. -/
structure RecordsChecked (R : StoreRuntime) (range : OriginRange) (c : RecordChecks)
    (records : List VerifiedV2Record) (d : RecordChecks) : Prop where
  client : ∀ r ∈ records, ∀ client ∈ range.client,
    validateClientOriginRecord client range.knownFrontiers r = .ok ()
  coordination : ∀ e ∈ steps (registryStep R range) c.clients records,
    validateCoordinationContext R e.1 e.2.1 = .ok ()
  clients : commitAll (registryStep R range) c.clients records = .ok d.clients
  batches : commitAll (validateStreamedBatchRecord R) c.active records = .ok d.active
  initialized : commitAll noteInitialization c.archiveInitializedAt records = .ok d.archiveInitializedAt
  retained : d.retainedStarts = c.retainedStarts ++ records.filter isRetained

theorem checkRecords_iff {c d : RecordChecks} {records : List VerifiedV2Record} :
    commitAll (checkRecord R range) c records = .ok d ↔ RecordsChecked R range c records d := by
  induction records generalizing c with
  | nil =>
    constructor
    · intro h
      cases h
      exact ⟨by simp, by simp [steps], rfl, rfl, rfl, (List.append_nil _).symm⟩
    · intro h
      obtain ⟨active, clients, init, retained⟩ := c
      obtain ⟨active', clients', init', retained'⟩ := d
      have hretained : retained' = retained := h.retained.trans (List.append_nil _)
      have hactive := Except.ok.inj h.batches
      have hclients := Except.ok.inj h.clients
      have hinit := Except.ok.inj h.initialized
      dsimp only at hactive hclients hinit
      subst hactive hclients hinit hretained
      rfl
  | cons r records ih =>
    rw [commitAll_cons]
    simp only [ih, checkRecord_iff]
    constructor
    · rintro ⟨u, ⟨hclient, hcoordination, hregistry, hactive, hinit, hretained⟩, hrest⟩
      refine ⟨List.forall_mem_cons.mpr ⟨hclient, hrest.client⟩, ?_, (commitAll_cons _).mpr ⟨_, hregistry, hrest.clients⟩,
        (commitAll_cons _).mpr ⟨_, hactive, hrest.batches⟩, (commitAll_cons _).mpr ⟨_, hinit, hrest.initialized⟩, ?_⟩
      · rw [steps, hregistry]
        exact List.forall_mem_cons.mpr ⟨hcoordination, hrest.coordination⟩
      · rw [hrest.retained, hretained, List.append_assoc, ← List.filter_append, List.singleton_append]
    · intro h
      obtain ⟨clients, hregistry, hclients⟩ := (commitAll_cons _).mp h.clients
      obtain ⟨active, hactive, hbatches⟩ := (commitAll_cons _).mp h.batches
      obtain ⟨init, hinit, hinits⟩ := (commitAll_cons _).mp h.initialized
      have hsteps := h.coordination
      rw [steps, hregistry] at hsteps
      obtain ⟨hcoordination, hsteps⟩ := List.forall_mem_cons.mp hsteps
      obtain ⟨hclient, hrest⟩ := List.forall_mem_cons.mp h.client
      refine ⟨⟨active, clients, init, c.retainedStarts ++ [r].filter isRetained⟩,
        ⟨hclient, hcoordination, hregistry, hactive, hinit, rfl⟩, hrest, hsteps, hclients, hbatches, hinits, ?_⟩
      rw [h.retained, List.append_assoc, ← List.filter_append, List.singleton_append]

/-! ### The checks of segments -/

/-- The checks along some segments, each kind on its own; batches do not leave their segment. -/
structure SegmentsChecked (R : StoreRuntime) (range : OriginRange) (v : RangeVisit) (segs : List Segment)
    (w : RangeVisit) : Prop where
  client : ∀ r ∈ recordsOf segs, ∀ client ∈ range.client,
    validateClientOriginRecord client range.knownFrontiers r = .ok ()
  coordination : ∀ e ∈ steps (registryStep R range) v.clients (recordsOf segs),
    validateCoordinationContext R e.1 e.2.1 = .ok ()
  clients : commitAll (registryStep R range) v.clients (recordsOf segs) = .ok w.clients
  batches : ∀ seg ∈ segs, commitAll (validateStreamedBatchRecord R) none seg.records = .ok none
  initialized : commitAll noteInitialization v.archiveInitializedAt (recordsOf segs) =
    .ok w.archiveInitializedAt
  retained : w.retainedStarts = v.retainedStarts ++ (recordsOf segs).filter isRetained
  yielded : w.yielded = v.yielded ++ recordsOf segs
  segments : w.segments = v.segments + segs.length

theorem checkSegment_iff {v w : RangeVisit} {seg : Segment} :
    checkSegment R range v seg = .ok w ↔ SegmentsChecked R range v [seg] w := by
  simp only [checkSegment, bind_eq_ok, require_eq_ok, Except.ok.injEq, checkRecords_iff]
  constructor
  · rintro ⟨c, hc, _, hactive, rfl⟩
    obtain ⟨active, clients, init, retained⟩ := c
    cases Option.isNone_iff_eq_none.mp hactive
    refine ⟨?_, ?_, ?_, List.forall_mem_singleton.mpr hc.batches, ?_, ?_, ?_, rfl⟩ <;>
      rw [recordsOf_cons, recordsOf_nil, List.append_nil]
    · exact hc.client
    · exact hc.coordination
    · exact hc.clients
    · exact hc.initialized
    · exact hc.retained
  · intro h
    obtain ⟨hclient, hcoordination, hclients, hbatches, hinit, hretained, hyielded, hsegments⟩ := h
    rw [recordsOf_cons, recordsOf_nil, List.append_nil] at *
    refine ⟨⟨none, w.clients, w.archiveInitializedAt, w.retainedStarts⟩,
      ⟨hclient, hcoordination, hclients, hbatches seg (List.mem_singleton_self seg), hinit, hretained⟩, (), rfl, ?_⟩
    rw [← hyielded]
    obtain ⟨clients, segments, init, retained, yielded⟩ := w
    dsimp only at hsegments
    rw [hsegments]
    rfl

theorem checkSegments_iff {v w : RangeVisit} {segs : List Segment} :
    commitAll (checkSegment R range) v segs = .ok w ↔ SegmentsChecked R range v segs w := by
  induction segs generalizing v with
  | nil =>
    constructor
    · intro h
      cases h
      exact ⟨by simp, by simp [steps], rfl, by simp, rfl, (List.append_nil _).symm,
        (List.append_nil _).symm, rfl⟩
    · intro h
      obtain ⟨clients, segments, init, retained, yielded⟩ := v
      obtain ⟨clients', segments', init', retained', yielded'⟩ := w
      have hretained : retained' = retained := h.retained.trans (List.append_nil _)
      have hyielded : yielded' = yielded := h.yielded.trans (List.append_nil _)
      have hsegments : segments' = segments := h.segments
      have hclients := Except.ok.inj h.clients
      have hinit := Except.ok.inj h.initialized
      dsimp only at hclients hinit
      subst hclients hinit hretained hyielded hsegments
      rfl
  | cons seg segs ih =>
    rw [commitAll_cons]
    simp only [ih, checkSegment_iff]
    constructor
    · rintro ⟨u, hu, hw⟩
      have hclients := hu.clients
      have hinitialized := hu.initialized
      have hyielded := hu.yielded
      have hretained := hu.retained
      have hclient := hu.client
      have hcoordination := hu.coordination
      rw [recordsOf_cons, recordsOf_nil, List.append_nil] at hclients hinitialized hyielded hretained hclient hcoordination
      refine ⟨?_, ?_, ?_, ?_, ?_, ?_, ?_, ?_⟩
      · rw [recordsOf_cons]
        exact List.forall_mem_append.mpr ⟨hclient, hw.client⟩
      · rw [recordsOf_cons, steps_append _ hclients]
        exact List.forall_mem_append.mpr ⟨hcoordination, hw.coordination⟩
      · rw [recordsOf_cons]
        exact (commitAll_append _).mpr ⟨_, hclients, hw.clients⟩
      · exact List.forall_mem_cons.mpr ⟨hu.batches seg (List.mem_singleton_self seg), hw.batches⟩
      · rw [recordsOf_cons]
        exact (commitAll_append _).mpr ⟨_, hinitialized, hw.initialized⟩
      · rw [hw.retained, hretained, recordsOf_cons, List.filter_append, List.append_assoc]
      · rw [hw.yielded, hyielded, recordsOf_cons, List.append_assoc]
      · rw [hw.segments, hu.segments, List.length_singleton, List.length_cons]
        omega
    · intro h
      have hclients := h.clients
      have hinitialized := h.initialized
      have hcoordination := h.coordination
      have hclient := h.client
      rw [recordsOf_cons] at hclients hinitialized hclient hcoordination
      obtain ⟨c, hc, hclients⟩ := (commitAll_append _).mp hclients
      obtain ⟨i, hi, hinitialized⟩ := (commitAll_append _).mp hinitialized
      rw [steps_append _ hc] at hcoordination
      obtain ⟨hcoordination, hcoordinationRest⟩ := List.forall_mem_append.mp hcoordination
      obtain ⟨hclient, hclientRest⟩ := List.forall_mem_append.mp hclient
      obtain ⟨hbatch, hbatches⟩ := List.forall_mem_cons.mp h.batches
      have hone : recordsOf [seg] = seg.records := by rw [recordsOf_cons, recordsOf_nil, List.append_nil]
      refine ⟨⟨c, v.segments + 1, i, v.retainedStarts ++ seg.records.filter isRetained,
          v.yielded ++ seg.records⟩,
        ⟨by rwa [hone], by rwa [hone], by rwa [hone], List.forall_mem_singleton.mpr hbatch, by rwa [hone],
          by rw [hone], by rw [hone], rfl⟩,
        ⟨hclientRest, hcoordinationRest, hclients, hbatches, hinitialized, ?_, ?_, ?_⟩⟩
      · rw [h.retained, recordsOf_cons, List.filter_append, List.append_assoc]
      · rw [h.yielded, recordsOf_cons, List.append_assoc]
      · rw [h.segments, List.length_cons]
        show v.segments + (segs.length + 1) = v.segments + 1 + segs.length
        omega

/-! ### The range of one origin -/

theorem checkedAdd_eq_some {a b c : Nat} : checkedAdd a b = some c ↔ a + b ≤ u64Max ∧ c = a + b := by
  unfold checkedAdd
  split
  · rename_i h
    exact ⟨fun hc => ⟨h, (Option.some.inj hc).symm⟩, fun ⟨_, hc⟩ => by rw [hc]⟩
  · rename_i h
    exact ⟨fun hc => absurd hc (by simp), fun hc => absurd hc.1 h⟩

theorem visitOriginRange_eq_ok {cursor : V2OriginCursor} {clients : ClientMap}
    {retained : List VerifiedV2Record} {w : RangeVisit} :
    visitOriginRange R tree range cursor clients retained = .ok w ↔
      cursor.appliedSeq + 1 ≤ u64Max ∧
        ∃ segs, SegmentChain R tree range.trust range.key range.tail (cursor.appliedSeq + 1)
            cursor.appliedRecordHash cursor.appliedSegmentManifestHash segs ∧
          (∀ seg ∈ segs, Visited range seg) ∧ SegmentsChecked R range ⟨clients, 0, none, retained, []⟩ segs w := by
  simp only [visitOriginRange, bind_eq_ok, okOr_eq_ok, checkedAdd_eq_some, ← checkSegments_iff]
  have hfuel : range.tail.seq - cursor.appliedSeq = range.tail.seq + 1 - (cursor.appliedSeq + 1) := by omega
  constructor
  · rintro ⟨_, ⟨hmax, rfl⟩, h⟩
    exact ⟨hmax, visitSegments_chain h⟩
  · rintro ⟨hmax, h⟩
    refine ⟨_, ⟨hmax, rfl⟩, ?_⟩
    rw [hfuel]
    exact visitSegments_eq_ok.mpr h

/-- What the range of an enrolled origin is visited with. -/
def pendingRange (trust : TrustRoot) (frontiers : FrontierMap) (validated : String → Bool)
    (client : VerifiedV2Client) (origin : OriginFrontier) : OriginRange :=
  ⟨trust, client.publicKey, origin, frontiers,
    if validated origin.originId then some client else none, true⟩

/-- The visit after the range of an origin. -/
def Visit.after (v : Visit) (w : RangeVisit) : Visit :=
  ⟨w.clients, w.retainedStarts, v.yielded ++ w.yielded, v.segments + w.segments⟩

theorem Visit.range_eq_ok {v : Visit} {cursor : V2OriginCursor} {out : Visit × Option (String × Nat)} :
    v.range R tree range cursor = .ok out ↔
      ∃ w, visitOriginRange R tree range cursor v.clients v.retainedStarts = .ok w ∧
        out = (v.after w, w.archiveInitializedAt) := by
  simp only [Visit.range, bind_eq_ok, Except.ok.injEq]
  exact exists_congr fun w => and_congr_right fun _ => ⟨Eq.symm, Eq.symm⟩

theorem origin?_eq_some {f : CausalFrontier} {o : String} {origin : OriginFrontier}
    (h : f.origin? o = some origin) : origin ∈ f.origins ∧ origin.originId = o :=
  ⟨List.mem_of_find?_eq_some h, by simpa using List.find?_some h⟩

variable {trust : TrustRoot} {accepted : CausalFrontier} {frontiers : FrontierMap}
  {cursors : String → V2OriginCursor} {validated : String → Bool}

theorem visitPending_eq_ok {v u : Visit} {o : String} :
    visitPending R tree trust accepted frontiers cursors validated v o = some (.ok u) ↔
      ∃ client origin w, v.clients o = some client ∧ accepted.origin? o = some origin ∧
        R.validKey client.publicKey ∧
        visitOriginRange R tree (pendingRange trust frontiers validated client origin) (cursors o)
          v.clients v.retainedStarts = .ok w ∧ u = v.after w := by
  simp only [visitPending, Option.map_eq_some_iff, bind_eq_ok, okOr_eq_ok, require_eq_ok, Prod.exists,
    Visit.range_eq_ok, Except.ok.injEq]
  constructor
  · rintro ⟨client, hclient, origin, horigin, _, hkey, _, _, ⟨w, hw, hout⟩, rfl⟩
    cases hout
    obtain rfl := (origin?_eq_some horigin).2
    exact ⟨client, origin, w, hclient, horigin, hkey, hw, rfl⟩
  · rintro ⟨client, origin, w, hclient, horigin, hkey, hw, rfl⟩
    obtain rfl := (origin?_eq_some horigin).2
    exact ⟨client, hclient, origin, horigin, (), hkey, _, _, ⟨w, hw, rfl⟩, rfl⟩

theorem visitPending_isSome {v : Visit} {o : String} :
    (visitPending R tree trust accepted frontiers cursors validated v o).isSome = (v.clients o).isSome := by
  rw [visitPending, Option.isSome_map]

/-! ### What the visit of an origin leaves -/

/-- The records of an origin after the cursor, each from a frontier that is known. -/
structure OriginBlock (accepted : CausalFrontier) (frontiers : FrontierMap)
    (cursors : String → V2OriginCursor) (o : String) (records : List VerifiedV2Record) : Prop where
  origin : ∀ r ∈ records, r.originId = o
  seqs : ∃ tail, accepted.origin? o = some tail ∧ (cursors o).appliedSeq ≤ tail.seq ∧
    records.map VerifiedV2Record.originSeq =
      List.range' ((cursors o).appliedSeq + 1) (tail.seq - (cursors o).appliedSeq)
  based : ∀ r ∈ records, (frontiers.get? r.causalFrontierHash).isSome

/-- The same with the client of the origin, and the clients after the records. -/
structure OriginVisit (R : StoreRuntime) (accepted : CausalFrontier) (frontiers : FrontierMap)
    (cursors : String → V2OriginCursor) (validated : String → Bool) (clients : ClientMap) (o : String)
    (records : List VerifiedV2Record) (clients' : ClientMap) : Prop
    extends OriginBlock accepted frontiers cursors o records where
  applied : applyClientRegistryItems R records clients = .ok clients'
  client : validated o → ∃ client, clients o = some client ∧
    ∀ r ∈ records, validateClientOriginRecord client frontiers r = .ok ()

theorem mem_recordsOf {r : VerifiedV2Record} {segs : List Segment} :
    r ∈ recordsOf segs ↔ ∃ seg ∈ segs, r ∈ seg.records := List.mem_flatMap

theorem commitAll_registryStep {c d : ClientMap} {records : List VerifiedV2Record}
    (happly : range.applyRegistry = true) :
    commitAll (registryStep R range) c records = .ok d ↔ applyClientRegistryItems R records c = .ok d := by
  unfold applyClientRegistryItems
  induction records generalizing c with
  | nil => rfl
  | cons r records ih =>
    rw [commitAll_cons, commitAll_cons]
    refine exists_congr fun u => and_congr ?_ ih
    rw [registryStep, if_pos happly]
    exact applyClientRegistryItems_one

/-- The visit of a range that applies registry items. -/
theorem visitOriginRange_visit {cursor : V2OriginCursor} {clients : ClientMap}
    {retained : List VerifiedV2Record} {w : RangeVisit} (happly : range.applyRegistry = true)
    (h : visitOriginRange R tree range cursor clients retained = .ok w) :
    (∀ r ∈ w.yielded, r.originId = range.tail.originId) ∧ cursor.appliedSeq ≤ range.tail.seq ∧
      w.yielded.map VerifiedV2Record.originSeq =
        List.range' (cursor.appliedSeq + 1) (range.tail.seq - cursor.appliedSeq) ∧
      (∀ r ∈ w.yielded, (range.knownFrontiers.get? r.causalFrontierHash).isSome) ∧
      applyClientRegistryItems R w.yielded clients = .ok w.clients ∧
      ∀ r ∈ w.yielded, ∀ client ∈ range.client,
        validateClientOriginRecord client range.knownFrontiers r = .ok () := by
  obtain ⟨-, segs, hchain, hvisited, hchecked⟩ := visitOriginRange_eq_ok.mp h
  have hyielded : w.yielded = recordsOf segs := hchecked.yielded
  have htotal := hchain.total
  have hle := hchain.le_tail
  rw [hyielded]
  refine ⟨hchain.origin, by omega, ?_, ?_, (commitAll_registryStep happly).mp hchecked.clients, hchecked.client⟩
  · rw [hchain.seqs]
    congr 1
    omega
  · intro r hr
    obtain ⟨seg, hseg, hr⟩ := mem_recordsOf.mp hr
    rw [hchain.causal seg hseg r hr]
    exact (hvisited seg hseg).2

theorem visitPending_visit {v u : Visit} {o : String}
    (h : visitPending R tree trust accepted frontiers cursors validated v o = some (.ok u)) :
    ∃ records, u.yielded = v.yielded ++ records ∧
      OriginVisit R accepted frontiers cursors validated v.clients o records u.clients := by
  obtain ⟨client, origin, w, hclient, horigin, -, hw, rfl⟩ := visitPending_eq_ok.mp h
  obtain rfl := (origin?_eq_some horigin).2
  obtain ⟨hid, hle, hseqs, hbased, happlied, hchecked⟩ := visitOriginRange_visit rfl hw
  refine ⟨w.yielded, rfl, ⟨hid, ⟨origin, horigin, hle, hseqs⟩, hbased⟩, happlied, fun hvalidated => ?_⟩
  refine ⟨client, hclient, fun r hr => hchecked r hr client ?_⟩
  show client ∈ (if validated origin.originId then some client else none)
  rw [if_pos hvalidated]
  exact Option.mem_some_self client

end ArchiveLedger
