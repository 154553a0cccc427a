import ArchiveLedger.Journal.Readings

/-!
# The two full verifications as readings

`verify` succeeds exactly with a shared reading of the listed manifests whose batches are
right by identifier, and `visitVerified` with a shared reading of the manifests at the
paths named after their first sequences whose segments stream; both then return what the
reading gives.
-/

namespace ArchiveLedger

open Outcome Transition Worklist

variable {R : StoreRuntime} {tree : EventTree} {reads : SegmentReader} {x : Reading}

/-! ### The number of records -/

/-- The last sequence of an origin. -/
def CausalFrontier.seqOf (f : CausalFrontier) (o : String) : Nat := ((f.origin? o).map OriginFrontier.seq).getD 0

theorem foldlM_checkedAdd {origins : List OriginFrontier} {total n : Nat}
    (h : origins.foldlM (fun total origin => checkedAdd total origin.seq) total = some n) :
    n = total + (origins.map OriginFrontier.seq).sum := by
  induction origins generalizing total with
  | nil => simpa using h.symm
  | cons origin origins ih =>
    rw [List.foldlM_cons, Option.bind_eq_bind, Option.bind_eq_some_iff] at h
    obtain ⟨u, hu, hrest⟩ := h
    obtain ⟨-, rfl⟩ := checkedAdd_eq_some.mp hu
    rw [ih hrest, List.map_cons, List.sum_cons]
    omega

theorem OriginBlock.length {accepted : CausalFrontier} {frontiers : FrontierMap} {o : String}
    {records : List VerifiedV2Record} (h : OriginBlock accepted frontiers (fun _ => .start) o records) :
    records.length = accepted.seqOf o := by
  obtain ⟨tail, htail, -, hseqs⟩ := h.seqs
  have hlength := congrArg List.length hseqs
  rw [List.length_map, List.length_range'] at hlength
  rw [CausalFrontier.seqOf, htail]
  exact hlength

theorem History.length {accepted : CausalFrontier} {frontiers : FrontierMap} {validated : String → Bool}
    {known : ClientMap} {initial : String} {s : Progress} {p : List (String × Progress)}
    (h : History R accepted frontiers (fun _ => .start) validated known [initial] s p) :
    (final s p).records.length = ((initial :: p.map Prod.fst).map accepted.seqOf).sum := by
  induction p using List.reverseRecOn with
  | nil =>
    rcases h.begun with ⟨hnil, -⟩ | ⟨o, ho, hblock⟩
    · cases hnil
    · cases ho
      simpa using hblock.length
  | append_singleton p e ih =>
    obtain ⟨-, ⟨records, hrecords, hvisit⟩, -⟩ := path_append.mp h.path
    rw [final_append]
    change e.2.records.length = _
    rw [hrecords, List.length_append, ih h.before, hvisit.toOriginBlock.length]
    simp
    omega

/-- The origins of a frontier are the initial one and the others. -/
theorem origins_perm {accepted : CausalFrontier} {initial : String} {tail : OriginFrontier}
    (hnodup : (accepted.origins.map OriginFrontier.originId).Nodup)
    (hinitial : accepted.origin? initial = some tail) :
    (initial :: otherOrigins accepted initial).Perm (accepted.origins.map OriginFrontier.originId) := by
  obtain ⟨hmem, hid⟩ := origin?_eq_some hinitial
  have hin : initial ∈ accepted.origins.map OriginFrontier.originId := hid ▸ List.mem_map_of_mem hmem
  have herase : otherOrigins accepted initial =
      (accepted.origins.map OriginFrontier.originId).erase initial := by
    rw [hnodup.erase_eq_filter, otherOrigins, List.filter_map]
    congr 1
    refine List.filter_congr fun origin _ => ?_
    simp [bne, beq_eq_decide]
  rw [herase]
  exact (List.perm_cons_erase hin).symm

theorem acceptedRecordCount_eq {accepted : CausalFrontier} {n : Nat}
    (hnodup : (accepted.origins.map OriginFrontier.originId).Nodup)
    (h : acceptedRecordCount accepted = .ok n) :
    n = ((accepted.origins.map OriginFrontier.originId).map accepted.seqOf).sum := by
  rw [acceptedRecordCount, okOr_eq_ok] at h
  rw [foldlM_checkedAdd h, Nat.zero_add, List.map_map]
  congr 1
  refine List.map_congr_left fun origin horigin => ?_
  rw [Function.comp_apply, CausalFrontier.seqOf, CausalFrontier.origin?_of_mem hnodup horigin]
  rfl

/-- A full history has as many records as its frontier accepts. -/
theorem History.count {accepted : CausalFrontier} {frontiers : FrontierMap} {validated : String → Bool}
    {known : ClientMap} {initial : String} {s : Progress} {p : List (String × Progress)} {tail : OriginFrontier}
    {n : Nat} (h : History R accepted frontiers (fun _ => .start) validated known [initial] s p)
    (hperm : (p.map Prod.fst).Perm (otherOrigins accepted initial))
    (hnodup : (accepted.origins.map OriginFrontier.originId).Nodup)
    (hinitial : accepted.origin? initial = some tail) (hn : acceptedRecordCount accepted = .ok n) :
    n = (final s p).records.length := by
  rw [acceptedRecordCount_eq hnodup hn, h.length]
  exact (((hperm.cons initial).trans (origins_perm hnodup hinitial)).map _).sum_eq.symm

/-! ### Draining along a reading -/

theorem Shared.drain {σ : Type} (serve : σ → String → Option (StoreResult σ))
    (stuck : List String → V2StoreError) (look : σ → Progress) (h : Shared R tree reads x)
    (hreads : reads.Chains R tree) {Step : Progress → String × List Segment → Progress → Prop}
    (hpath : Path Step x.start x.rest) {s : σ} (hs : look s = x.start)
    (hserve : ∀ u b t, Step (look u) b t → ∃ u', serve u b.1 = some (.ok u') ∧ look u' = t)
    (hready : ∀ u o, (serve u o).isSome = ((look u).clients o).isSome) :
    ∃ u, drain serve stuck (otherOrigins x.accepted x.initial).length s (otherOrigins x.accepted x.initial) =
      .ok u ∧ look u = final x.start x.rest := by
  obtain ⟨q, hq, hlabels, hfinal, hparts⟩ := Path.lift (Q := Serves serve) (f := Prod.fst) (g := id)
    (E := fun t u => look u = t)
    (fun t b t' u hu hstep => by
      subst hu
      obtain ⟨u', hserve, hlook⟩ := hserve u b t' hstep
      exact ⟨b.1, u', hserve, rfl, hlook⟩)
    hs hpath
  have hnames : q.map Prod.fst = x.rest.map fun e => e.1.1 := hlabels
  have hordered : Ordered serve s (otherOrigins x.accepted x.initial) q
      (readyAfter (fun o => decide (o = x.initial)) x.records) [x.initial] := by
    intro q₁ q₂ hsplit o _
    obtain ⟨p₁, p₂, hp, hlabels₁, hlook⟩ := hparts q₁ q₂ hsplit
    have hnames₁ : q₁.map Prod.fst = p₁.map fun e => e.1.1 := hlabels₁
    rw [hready, hlook, h.ready hreads hp, hnames₁]
  refine ⟨final s q, drain_of_order hq hordered ?_, hfinal⟩
  rw [hnames]
  exact drain_note h.order h.perm

/-! ### Whole origins -/

theorem verify_reading {archive : VerifiedV2Archive} (h : verify R tree = .ok archive) :
    ∃ x, Shared R tree (Listed R tree) x ∧ verifyBatches R x.records = .ok () ∧
      x.Gives archive archive.records := by
  obtain ⟨trust, accepted, frontiers, origin, records, segments, approval, clients, s, count, hopened, horigin,
    hrecords, happroval, hclients, hdrain, hbased, hcoordination, hbatches, hcount, rfl⟩ := verify_eq_ok.mp h
  obtain ⟨entries, segs, hentries, hchain, hbegins, hout⟩ := verifyOrigin_eq_ok.mp hrecords
  cases hout
  have hinitial := (origin?_eq_some horigin).2
  have hregistered := Registered.ofRecords hclients
  have hstep : ∀ (u : OriginsRead) o v, Serves (verifyPending R tree trust accepted frontiers) u o v →
      ∃ segs, OriginStep R (Listed R tree) trust accepted frontiers u.progress (o, segs) v.progress := by
    intro u o v huv
    obtain ⟨client, tail, _, _, _, hclient, htail, hkey, hrecords, hchecked, happlied, rfl⟩ :=
      verifyPending_eq_ok.mp huv
    obtain ⟨entries, segs, hentries, hchain, hbegins, hout⟩ := verifyOrigin_eq_ok.mp hrecords
    cases hout
    exact ⟨segs, client, tail, hclient, htail, hkey, ⟨entries, hentries, hchain, hbegins⟩,
      (validateClientOriginRecords_eq_ok.mp hchecked).2, happlied, rfl⟩
  have hfirst : ∀ r ∈ recordsOf segs, r ∈ s.records := by
    obtain ⟨p, hp, rfl, -⟩ := drain_order hdrain
    exact Path.invariant (P := fun u : OriginsRead => ∀ r ∈ recordsOf segs, r ∈ u.records)
      (fun u o v hu huv r hr => by
        obtain ⟨_, _, _, _, _, _, _, _, _, hmore⟩ := hstep u o v huv
        show r ∈ v.records
        rw [show v.records = u.records ++ _ from hmore]
        exact List.mem_append_left _ (hu r hr))
      (fun r hr => hr) hp
  have hblock : OriginBlock accepted frontiers (fun _ => .start) trust.genesis.body.initialClientId
      (recordsOf segs) := by
    rw [← hinitial]
    exact hchain.block (hinitial ▸ horigin) fun r hr => hbased r (hfirst r hr)
  obtain ⟨p, hp, rfl, hperm, horder, history⟩ := path_of_drain
    OriginsRead.progress hdrain
    (fun s o t hst => verifyPending_visit hst) (fun s o => verifyPending_isSome) hblock
    hregistered initialClients_isSome hopened.accepted_nodup hopened.below rfl
  obtain ⟨rest, hrest, hlabels, hfinal, -⟩ := Path.lift
    (Q := OriginStep R (Listed R tree) trust accepted frontiers) (f := id) (g := Prod.fst)
    (E := fun (u : OriginsRead) t => u.progress = t)
    (fun u o v t ht huv => by
      subst ht
      obtain ⟨segs, hsegs⟩ := hstep u o v huv
      exact ⟨(o, segs), _, hsegs, rfl, rfl⟩)
    rfl hp
  have hnames : (rest.map fun e => e.1.1) = p.map Prod.fst := hlabels
  have hcountRecords := history.count (by rw [List.map_map]; exact hperm) hopened.accepted_nodup horigin hcount
  rw [final_map] at hcountRecords
  let x : Reading := ⟨trust, accepted, frontiers, segs, approval, clients, rest⟩
  have hx : final x.start x.rest = (final ⟨clients, recordsOf segs, segs.length⟩ p : OriginsRead).progress :=
    hfinal.symm
  have hxrecords : x.records = (final ⟨clients, recordsOf segs, segs.length⟩ p : OriginsRead).records :=
    congrArg Progress.records hx
  have hxclients : x.clients = (final ⟨clients, recordsOf segs, segs.length⟩ p : OriginsRead).clients :=
    congrArg Progress.clients hx
  refine ⟨x, ⟨hopened, ⟨origin, horigin, entries, hentries, hchain, hbegins⟩, happroval, hclients, hrest, ?_, ?_,
    ?_, ?_, ?_⟩, by rw [hxrecords]; exact hbatches, ⟨rfl, rfl, hxclients.symm, ?_, hxrecords.symm⟩⟩
  · rw [hnames]
    exact hperm
  · rw [hnames, hxrecords]
    exact horder
  · rw [hxrecords]
    exact hbased
  · rw [hxrecords, hxclients]
    exact forM_eq_ok.mp hcoordination
  · rw [hcount, hxrecords]
    exact congrArg _ hcountRecords
  · rw [hxrecords]
    exact hcountRecords

theorem Shared.verify (h : Shared R tree (Listed R tree) x) (hbatches : verifyBatches R x.records = .ok ()) :
    ∃ archive, verify R tree = .ok archive ∧ x.Gives archive archive.records := by
  obtain ⟨origin, horigin, entries, hentries, hchain, hbegins⟩ := h.initial
  obtain ⟨u, hdrain, hlook⟩ := h.drain (verifyPending R tree x.trust x.accepted x.frontiers)
    (untrustedOrigins "accepted") OriginsRead.progress listed_chains h.path
    (s := ⟨x.begun, recordsOf x.first, x.first.length⟩) rfl
    (fun u b t hstep => by
      obtain ⟨client, tail, hclient, htail, hkey, ⟨entries, hentries, hchain, hbegins⟩, hchecked, happlied,
        hrecords⟩ := hstep
      refine ⟨⟨t.clients, u.records ++ recordsOf b.2, u.segments + b.2.length⟩, verifyPending_eq_ok.mpr
        ⟨client, tail, recordsOf b.2, b.2.length, t.clients, hclient, htail, hkey,
          verifyOrigin_eq_ok.mpr ⟨entries, b.2, hentries, hchain, hbegins, rfl⟩,
          validateClientOriginRecords_eq_ok.mpr ⟨?_, hchecked⟩, happlied, rfl⟩,
        congrArg (Progress.mk t.clients) hrecords.symm⟩
      have htotal := hchain.total
      have hle := hchain.le_tail
      refine List.length_pos_iff.mp ?_
      omega)
    (fun u o => verifyPending_isSome)
  have hclients : u.clients = x.clients := congrArg Progress.clients hlook
  have hrecords : u.records = x.records := congrArg Progress.records hlook
  refine ⟨u.archive x.trust x.accepted x.frontiers x.records.length, verify_eq_ok.mpr
    ⟨x.trust, x.accepted, x.frontiers, origin, recordsOf x.first, x.first.length, x.approval, x.begun, u,
      x.records.length, h.opened, horigin,
      verifyOrigin_eq_ok.mpr ⟨entries, x.first, hentries, hchain, hbegins, rfl⟩, h.approval, h.begun, hdrain, ?_, ?_,
      ?_, h.count, rfl⟩, ⟨rfl, rfl, hclients, rfl, hrecords⟩⟩
  · rw [hrecords]
    exact h.based
  · rw [hrecords, hclients]
    exact forM_eq_ok.mpr h.coordination
  · rw [hrecords]
    exact hbatches

/-! ### Streams -/

/-- The batches of each segment are whole and right, and one record at most initializes the archive. -/
structure Streams (R : StoreRuntime) (segs : List Segment) : Prop where
  batches : ∀ seg ∈ segs, commitAll (validateStreamedBatchRecord R) none seg.records = .ok none
  initialized : OneInitialization (recordsOf segs)

/-- A chain starts from known frontiers when its records do. -/
theorem SegmentChain.known_iff {trust : TrustRoot} {key : Bytes} {tail : OriginFrontier}
    {frontiers : FrontierMap} {segs : List Segment} (h : SegmentChain R tree trust key tail 1 none none segs) :
    (∀ seg ∈ segs, (frontiers.get? seg.body.causalBaseFrontierHash).isSome) ↔
      ∀ r ∈ recordsOf segs, (frontiers.get? r.causalFrontierHash).isSome := by
  constructor
  · intro hall r hr
    obtain ⟨seg, hseg, hr⟩ := mem_recordsOf.mp hr
    rw [h.causal seg hseg r hr]
    exact hall seg hseg
  · intro hall seg hseg
    obtain ⟨r, hr⟩ := List.exists_mem_of_ne_nil _ (h.nonempty seg hseg)
    rw [← h.causal seg hseg r hr]
    exact hall r (mem_recordsOf.mpr ⟨seg, hseg, hr⟩)

/-- What a visit does with a whole origin. -/
theorem visitOriginRange_reading {range : OriginRange} {clients : ClientMap}
    {retained : List VerifiedV2Record} {w : RangeVisit} (happly : range.applyRegistry = true)
    (hknown : (clients range.tail.originId).isSome) :
    visitOriginRange R tree range .start clients retained = .ok w ↔
      ∃ segs, Addressed R tree range.trust range.key range.tail segs ∧
        (∀ r ∈ recordsOf segs, (range.knownFrontiers.get? r.causalFrontierHash).isSome) ∧
        (∀ r ∈ recordsOf segs, ∀ client ∈ range.client,
          validateClientOriginRecord client range.knownFrontiers r = .ok ()) ∧
        (∀ r ∈ recordsOf segs, validateCoordinationContext R clients r = .ok ()) ∧ Streams R segs ∧
        applyClientRegistryItems R (recordsOf segs) clients = .ok w.clients ∧
        w = ⟨w.clients, segs.length,
          ((recordsOf segs).find? (recordContainsItemKind · "archive_initialized")).map fun r =>
            (r.originId, r.originSeq),
          retained ++ (recordsOf segs).filter isRetained, recordsOf segs⟩ := by
  rw [visitOriginRange_eq_ok]
  constructor
  · rintro ⟨-, segs, hchain, hvisited, h⟩
    have happlied := (commitAll_registryStep happly).mp h.clients
    obtain ⟨hone, hinit⟩ := noteInitialization_none.mp h.initialized
    refine ⟨segs, ⟨hchain, fun seg hseg => (hvisited seg hseg).1⟩,
      hchain.known_iff.mp fun seg hseg => (hvisited seg hseg).2, h.client,
      (coordination_along happly hchain.origin hknown happlied rfl).mp h.coordination, ⟨h.batches, hone⟩,
      happlied, ?_⟩
    have hretained : w.retainedStarts = retained ++ (recordsOf segs).filter isRetained := h.retained
    have hyielded : w.yielded = recordsOf segs := h.yielded.trans (List.nil_append _)
    have hsegments : w.segments = segs.length := h.segments.trans (Nat.zero_add _)
    rw [← hinit, ← hretained, ← hyielded, ← hsegments]
  · rintro ⟨segs, ⟨hchain, hpath⟩, hbased, hclient, hcoordination, hstreams, happlied, hw⟩
    refine ⟨by decide, segs, hchain, fun seg hseg => ⟨hpath seg hseg, hchain.known_iff.mpr hbased seg hseg⟩,
      hclient, ?_, (commitAll_registryStep happly).mpr happlied, hstreams.batches,
      noteInitialization_none.mpr ⟨hstreams.initialized, ?_⟩, ?_, ?_, ?_⟩
    · exact (coordination_along happly hchain.origin hknown happlied rfl).mpr hcoordination
    · rw [hw]
    · rw [hw]
    · rw [hw]
      exact (List.nil_append _).symm
    · rw [hw]
      exact (Nat.zero_add _).symm

section

variable {trust : TrustRoot} {accepted : CausalFrontier} {frontiers : FrontierMap}

/-- The next origin of a visit. -/
def StreamStep (R : StoreRuntime) (tree : EventTree) (trust : TrustRoot) (accepted : CausalFrontier)
    (frontiers : FrontierMap) (s : Progress) (b : String × List Segment) (t : Progress) : Prop :=
  OriginStep R (Addressed R tree) trust accepted frontiers s b t ∧ Streams R b.2 ∧
    ∀ r ∈ recordsOf b.2, validateCoordinationContext R s.clients r = .ok ()

theorem visitPending_stream {v u : Visit} {o : String}
    (h : Serves (visitPending R tree trust accepted frontiers (fun _ => .start) (fun _ => true)) v o u) :
    ∃ segs, StreamStep R tree trust accepted frontiers v.progress (o, segs) u.progress := by
  obtain ⟨client, tail, w, hclient, htail, hkey, hw, rfl⟩ := visitPending_eq_ok.mp h
  obtain rfl := (origin?_eq_some htail).2
  have hknown : (v.clients (pendingRange trust frontiers (fun _ => true) client tail).tail.originId).isSome := by
    show (v.clients tail.originId).isSome
    rw [hclient]
    rfl
  obtain ⟨segs, hreads, -, hchecked, hcoordination, hstreams, happlied, hout⟩ :=
    (visitOriginRange_reading rfl hknown).mp hw
  rw [hout]
  exact ⟨segs, ⟨client, tail, hclient, htail, hkey, hreads, fun r hr => hchecked r hr client rfl, happlied, rfl⟩,
    hstreams, hcoordination⟩

theorem StreamStep.serves {v : Visit} {b : String × List Segment} {t : Progress}
    (h : StreamStep R tree trust accepted frontiers v.progress b t) :
    ∃ u, visitPending R tree trust accepted frontiers (fun _ => .start) (fun _ => true) v b.1 = some (.ok u) ∧
      u.progress = t := by
  obtain ⟨⟨client, tail, hclient, htail, hkey, hreads, hchecked, happlied, hrecords⟩, hstreams, hcoordination⟩ := h
  obtain ⟨o, segs⟩ := b
  obtain rfl := (origin?_eq_some htail).2
  refine ⟨_, visitPending_eq_ok.mpr ⟨client, tail, ⟨t.clients, _, _, _, _⟩, hclient, htail, hkey,
    (visitOriginRange_reading rfl ?_).mpr ⟨segs, hreads, fun r hr => validateClientOriginRecord_known (hchecked r hr),
      fun r hr c hc => ?_, hcoordination, hstreams, happlied, rfl⟩, rfl⟩, ?_⟩
  · show (v.clients tail.originId).isSome
    rw [show v.clients tail.originId = some client from hclient]
    rfl
  · cases hc
    exact hchecked r hr
  · exact congrArg (Progress.mk t.clients) hrecords.symm

/-- The proofs along a reading, each against the clients when its origin is taken, are the proofs against
the clients at the end. -/
theorem path_coordination (hreads : reads.Chains R tree) {s : Progress}
    {p : List ((String × List Segment) × Progress)}
    (h : Path (OriginStep R reads trust accepted frontiers) s p) :
    Path (fun s b _ => ∀ r ∈ recordsOf b.2, validateCoordinationContext R s.clients r = .ok ()) s p ↔
      ∀ r ∈ p.flatMap fun e => recordsOf e.1.2, validateCoordinationContext R (final s p).clients r = .ok () := by
  induction p generalizing s with
  | nil => exact ⟨fun _ r hr => absurd hr List.not_mem_nil, fun _ => trivial⟩
  | cons e p ih =>
    rw [List.flatMap_cons, List.forall_mem_append, final_cons, ← ih h.2]
    refine and_congr_left fun _ => forall₂_congr fun r hr => validateCoordinationContext_key ?_
    obtain ⟨client, tail, hclient, htail, -, hsegs, -⟩ := h.1
    rw [(hreads _ _ _ _ hsegs).origin r hr, (origin?_eq_some htail).2]
    exact (((h.1).keeps.trans (path_keeps h.2)).key? (by rw [hclient]; rfl)).symm

end

/-- The clients after the initial origin are the same whether its approval is found before or after. -/
theorem approved_begun {trust : TrustRoot} {records : List VerifiedV2Record} {approval : VerifiedV2Record}
    {begun : ClientMap} :
    applyClientRegistryItems R records (initialClients (approvedInitialClient trust approval)) = .ok begun ↔
      ∃ clients, applyClientRegistryItems R records (initialClients (unapprovedInitialClient trust)) = .ok clients ∧
        begun = approveInitialClient clients trust.genesis.body.initialClientId
          (approval.originId, approval.originSeq) := by
  have happrove : ∀ (client : VerifiedV2Client) a, client.clientId = trust.genesis.body.initialClientId →
      approveInitialClient (initialClients client) trust.genesis.body.initialClientId a =
        initialClients (client.approve a) := by
    intro client a hid
    unfold approveInitialClient initialClients ClientMap.insert
    rw [← hid, Function.update_idem, Function.update_self]
    rfl
  have hinitial : ∀ client : VerifiedV2Client, client.clientId = trust.genesis.body.initialClientId →
      (initialClients client trust.genesis.body.initialClientId).isSome := by
    intro client hid
    rw [initialClients_isSome, hid]
    exact decide_eq_true rfl
  constructor
  · intro h
    have hback := applyClientRegistryItems_approve (trust.genesis.body.initialClientId, 2)
      (hinitial _ rfl) h
    rw [happrove _ _ rfl] at hback
    refine ⟨_, hback, ?_⟩
    have hforth := applyClientRegistryItems_approve (approval.originId, approval.originSeq)
      (hinitial _ rfl) hback
    rw [happrove _ _ rfl] at hforth
    exact Except.ok.inj (h.symm.trans hforth)
  · rintro ⟨clients, h, rfl⟩
    have hforth := applyClientRegistryItems_approve (approval.originId, approval.originSeq)
      (hinitial (unapprovedInitialClient trust) rfl) h
    rw [happrove _ _ rfl] at hforth
    exact hforth

/-- What a visit makes of the initial origin. -/
structure StreamBegin (R : StoreRuntime) (tree : EventTree) (trust : TrustRoot) (frontiers : FrontierMap)
    (tail : OriginFrontier) (segs : List Segment) (first : VerifiedV2Record) (clients : ClientMap) : Prop where
  reads : Addressed R tree trust trust.initialKey tail segs
  based : ∀ r ∈ recordsOf segs, (frontiers.get? r.causalFrontierHash).isSome
  coordination : ∀ r ∈ recordsOf segs, validateCoordinationContext R clients r = .ok ()
  streams : Streams R segs
  approval : (recordsOf segs).find? (recordContainsItemKind · "archive_initialized") = some first
  begun : applyClientRegistryItems R (recordsOf segs) (initialClients (approvedInitialClient trust first)) =
    .ok clients

theorem approvedInitial_known (trust : TrustRoot) (approval : VerifiedV2Record) :
    (initialClients (approvedInitialClient trust approval) trust.genesis.body.initialClientId).isSome := by
  rw [initialClients_isSome]
  exact decide_eq_true rfl

theorem begun_known {trust : TrustRoot} {records : List VerifiedV2Record} {approval : VerifiedV2Record}
    {begun : ClientMap}
    (h : applyClientRegistryItems R records (initialClients (approvedInitialClient trust approval)) = .ok begun) :
    (begun trust.genesis.body.initialClientId).isSome := by
  obtain ⟨a, ha⟩ := Option.isSome_iff_exists.mp (approvedInitial_known trust approval)
  obtain ⟨b, hb, -⟩ := applyClientRegistryItems_keeps h _ a ha
  rw [hb]
  rfl

theorem begun_key {trust : TrustRoot} {records : List VerifiedV2Record} {approval : VerifiedV2Record}
    {begun : ClientMap}
    (h : applyClientRegistryItems R records (initialClients (approvedInitialClient trust approval)) = .ok begun) :
    begun.key? trust.genesis.body.initialClientId =
      (initialClients (unapprovedInitialClient trust)).key? trust.genesis.body.initialClientId := by
  rw [(applyClientRegistryItems_keeps h).key? (approvedInitial_known trust approval)]
  unfold ClientMap.key? initialClients ClientMap.insert
  rw [show (approvedInitialClient trust approval).clientId = trust.genesis.body.initialClientId from rfl,
    show (unapprovedInitialClient trust).clientId = trust.genesis.body.initialClientId from rfl,
    Function.update_self, Function.update_self]
  rfl

theorem visitInitial_iff {trust : TrustRoot} {frontiers : FrontierMap} {tail : OriginFrontier} {s : Progress}
    (hid : tail.originId = trust.genesis.body.initialClientId) :
    (∃ w at_, visitOriginRange R tree (initialRange trust frontiers tail) .start
        (initialClients (unapprovedInitialClient trust)) [] = .ok w ∧ w.archiveInitializedAt = some at_ ∧
        (Visit.begin w trust.genesis.body.initialClientId at_).progress = s) ↔
      ∃ segs approval, StreamBegin R tree trust frontiers tail segs approval s.clients ∧
        s.records = recordsOf segs := by
  have hknown : (initialClients (unapprovedInitialClient trust)
      (initialRange trust frontiers tail).tail.originId).isSome := by
    show (initialClients (unapprovedInitialClient trust) tail.originId).isSome
    rw [initialClients_isSome, hid]
    exact decide_eq_true rfl
  simp only [@visitOriginRange_reading R tree (initialRange trust frontiers tail) _ _ _ rfl hknown]
  constructor
  · rintro ⟨w, at_, ⟨segs, hreads, hbased, -, hcoordination, hstreams, happlied, hw⟩, hinit, rfl⟩
    have hreads : Addressed R tree trust trust.initialKey tail segs := hreads
    rw [hw] at hinit
    obtain ⟨approval, happroval, rfl⟩ := Option.map_eq_some_iff.mp hinit
    have hbegun := (@approved_begun R trust _ approval _).mpr ⟨_, happlied, rfl⟩
    refine ⟨segs, approval, ⟨hreads, hbased, fun r hr => ?_, hstreams, happroval, hbegun⟩, by rw [hw]; rfl⟩
    refine (validateCoordinationContext_key ?_).mp (hcoordination r hr)
    rw [hreads.1.origin r hr, hid]
    exact (begun_key hbegun).symm
  · rintro ⟨segs, approval, h, hrecords⟩
    obtain ⟨clients, happlied, hclients⟩ := approved_begun.mp h.begun
    refine ⟨⟨clients, segs.length, some (approval.originId, approval.originSeq),
        [] ++ (recordsOf segs).filter isRetained, recordsOf segs⟩, (approval.originId, approval.originSeq),
      ⟨segs, h.reads, h.based, fun r _ c hc => (Option.not_mem_none c hc).elim, fun r hr => ?_, h.streams, happlied,
        by rw [h.approval]; rfl⟩, rfl, ?_⟩
    · refine (validateCoordinationContext_key ?_).mp (h.coordination r hr)
      rw [h.reads.1.origin r hr, hid]
      exact begun_key h.begun
    · exact congr (congrArg Progress.mk hclients.symm) hrecords.symm

theorem visitVerified_reading {archive : VerifiedV2Archive} {yielded : List VerifiedV2Record}
    (h : visitVerified R tree = .ok (archive, yielded)) :
    ∃ x, Shared R tree (Addressed R tree) x ∧ (∀ segs ∈ x.origins, Streams R segs) ∧ x.Gives archive yielded := by
  obtain ⟨trust, accepted, frontiers, origin, w, at_, v, count, hopened, horigin, hw, hinit, hdrain, hcount,
    hlength, hout⟩ := visitVerified_eq_ok.mp h
  cases hout
  have hinitial := (origin?_eq_some horigin).2
  obtain ⟨segs, approval, hbegin, hrecords⟩ := (visitInitial_iff hinitial).mp ⟨w, at_, hw, hinit, rfl⟩
  generalize Visit.begin w trust.genesis.body.initialClientId at_ = s at hdrain hbegin hrecords
  have hblock : OriginBlock accepted frontiers (fun _ => .start) trust.genesis.body.initialClientId
      s.progress.records := by
    rw [← hinitial, hrecords]
    exact hbegin.reads.1.block (hinitial ▸ horigin) hbegin.based
  obtain ⟨p, hp, rfl, hperm, horder, -⟩ := path_of_drain Visit.progress hdrain
    (fun s o t hst => visitPending_visit hst) (fun s o => visitPending_isSome) hblock
    (Registered.ofRecords (hrecords ▸ hbegin.begun)) initialClients_isSome
    hopened.accepted_nodup hopened.below rfl
  obtain ⟨rest, hrest, hlabels, hfinal, -⟩ := Path.lift
    (Q := StreamStep R tree trust accepted frontiers) (f := id) (g := Prod.fst)
    (E := fun (u : Visit) t => u.progress = t)
    (fun u o v t ht huv => by
      subst ht
      obtain ⟨segs, hsegs⟩ := visitPending_stream huv
      exact ⟨(o, segs), _, hsegs, rfl, rfl⟩)
    rfl hp
  have hnames : (rest.map fun e => e.1.1) = p.map Prod.fst := hlabels
  let x : Reading := ⟨trust, accepted, frontiers, segs, approval, s.clients, rest⟩
  have hstart : s.progress = x.start := congrArg (Progress.mk s.clients) hrecords
  rw [hstart] at hrest hfinal
  have hsteps : Path (OriginStep R (Addressed R tree) trust accepted frontiers) x.start rest :=
    hrest.mono fun _ _ _ h => h.1
  have hproofs := (path_coordination addressed_chains hsteps).mp (hrest.mono fun _ _ _ h => h.2.2)
  have hxrecords : x.records = (final s p).yielded := congrArg Progress.records hfinal.symm
  have hxclients : x.clients = (final s p).clients := congrArg Progress.clients hfinal.symm
  have hrecords : x.records = recordsOf segs ++ rest.flatMap fun e => recordsOf e.1.2 := path_records hsteps
  refine ⟨x, ⟨hopened, ⟨origin, horigin, hbegin.reads⟩, hbegin.approval, hbegin.begun, hsteps, ?_, ?_, ?_, ?_, ?_⟩,
    ?_, ⟨rfl, rfl, hxclients.symm, by rw [hxrecords]; rfl, hxrecords.symm⟩⟩
  · rw [hnames]
    exact hperm
  · rw [hnames, hxrecords]
    exact horder
  · rw [hrecords]
    refine List.forall_mem_append.mpr ⟨hbegin.based, fun r hr => ?_⟩
    obtain ⟨e, he, hr⟩ := List.mem_flatMap.mp hr
    have hchecked : ∀ e ∈ rest, ∀ r ∈ recordsOf e.1.2, (frontiers.get? r.causalFrontierHash).isSome :=
      (path_iff_forall (C := fun b : String × List Segment => ∀ r ∈ recordsOf b.2,
        (frontiers.get? r.causalFrontierHash).isSome)).mp (hsteps.mono fun s b t h r hr => by
          obtain ⟨_, _, _, _, _, _, hchecked, -⟩ := h
          exact validateClientOriginRecord_known (hchecked r hr))
    exact hchecked e he r hr
  · rw [hrecords]
    refine List.forall_mem_append.mpr ⟨fun r hr => ?_, hproofs⟩
    refine (validateCoordinationContext_key ?_).mp (hbegin.coordination r hr)
    rw [hbegin.reads.1.origin r hr, hinitial]
    exact ((path_keeps hsteps).key? (begun_known hbegin.begun)).symm
  · rw [hxrecords, hlength]
    exact hcount
  · have hall : ∀ e ∈ rest, Streams R e.1.2 := path_iff_forall.mp (hrest.mono fun _ _ _ h => h.2.1)
    refine List.forall_mem_cons.mpr ⟨hbegin.streams, fun segs' hmem => ?_⟩
    obtain ⟨e, he, rfl⟩ := List.mem_map.mp hmem
    exact hall e he

theorem Shared.visit (h : Shared R tree (Addressed R tree) x) (hstreams : ∀ segs ∈ x.origins, Streams R segs) :
    ∃ archive yielded, visitVerified R tree = .ok (archive, yielded) ∧ x.Gives archive yielded := by
  obtain ⟨origin, horigin, hreads⟩ := h.initial
  have hinitial := (origin?_eq_some horigin).2
  obtain ⟨hfirst, hothers⟩ := List.forall_mem_cons.mp hstreams
  have hrecords : x.records = recordsOf x.first ++ x.rest.flatMap fun e => recordsOf e.1.2 := path_records h.path
  have hbased := h.based
  have hproofs := h.coordination
  rw [hrecords] at hbased hproofs
  obtain ⟨hbased, -⟩ := List.forall_mem_append.mp hbased
  obtain ⟨hproof, hproofs⟩ := List.forall_mem_append.mp hproofs
  obtain ⟨w, at_, hw, hinit, hstart⟩ := (visitInitial_iff (s := x.start) hinitial).mpr
    ⟨x.first, x.approval, ⟨hreads, hbased, fun r hr => (validateCoordinationContext_key (by
      rw [hreads.1.origin r hr, hinitial]
      exact (path_keeps h.path).key? (begun_known h.begun))).mp (hproof r hr), hfirst, h.approval, h.begun⟩, rfl⟩
  obtain ⟨u, hdrain, hlook⟩ := h.drain (visitPending R tree x.trust x.accepted x.frontiers
      (fun _ => .start) (fun _ => true)) (untrustedOrigins "accepted") Visit.progress addressed_chains
    ((h.path.and (path_iff_forall.mpr fun e he => hothers _ (List.mem_map_of_mem he))).and
      ((path_coordination addressed_chains h.path).mpr hproofs))
    hstart
    (fun u b t hstep => StreamStep.serves ⟨hstep.1.1, hstep.1.2, hstep.2⟩)
    (fun u o => visitPending_isSome)
  have hclients : u.clients = x.clients := congrArg Progress.clients hlook
  have hyielded : u.yielded = x.records := congrArg Progress.records hlook
  exact ⟨u.archive x.trust x.accepted x.frontiers, u.yielded, visitVerified_eq_ok.mpr
    ⟨x.trust, x.accepted, x.frontiers, origin, w, at_, u, x.records.length, h.opened, horigin, hw, hinit, hdrain,
      h.count, by rw [hyielded], rfl⟩, ⟨rfl, rfl, hclients, by rw [← hyielded]; rfl, hyielded⟩⟩

end ArchiveLedger
