import ArchiveLedger.Journal.Agreement

/-!
# Where the two full verifications agree

`verify` and `visitVerified` agree on an archive when they accept it together and with the
same result.  They do exactly when the archive is `Regular`: whichever way its manifests are
found, the other way finds the same records, and the two rules for batches come to the
same (`verifiers_agree_iff`).
-/

namespace ArchiveLedger

open Outcome Transition

section

variable {R : StoreRuntime} {tree : EventTree} {reads : SegmentReader} {x : Reading}

/-! ### The records of one origin -/

theorem filter_blocks {blocks : List (String × List VerifiedV2Record)} (hnodup : (blocks.map Prod.fst).Nodup)
    (horigin : ∀ b ∈ blocks, ∀ r ∈ b.2, r.originId = b.1) :
    ∀ b ∈ blocks, (blocks.flatMap Prod.snd).filter (fun r => r.originId = b.1) = b.2 := by
  induction blocks with
  | nil => exact fun b hb => absurd hb List.not_mem_nil
  | cons a blocks ih =>
    rw [List.map_cons, List.nodup_cons] at hnodup
    obtain ⟨ha, hblocks⟩ := List.forall_mem_cons.mp horigin
    rw [List.flatMap_cons]
    refine List.forall_mem_cons.mpr ⟨?_, fun b hb => ?_⟩
    · rw [List.filter_append, List.filter_eq_self.mpr fun r hr => decide_eq_true (ha r hr),
        List.filter_eq_nil_iff.mpr, List.append_nil]
      intro r hr hid
      obtain ⟨b, hb, hr⟩ := List.mem_flatMap.mp hr
      rw [decide_eq_true_iff, hblocks b hb r hr] at hid
      exact hnodup.1 (List.mem_map.mpr ⟨b, hb, hid⟩)
    · rw [List.filter_append, List.filter_eq_nil_iff.mpr, List.nil_append, ih hnodup.2 hblocks b hb]
      intro r hr hid
      rw [decide_eq_true_iff, ha r hr] at hid
      exact hnodup.1 (List.mem_map.mpr ⟨b, hb, hid.symm⟩)

/-- The records of the origins of a reading, with the origins. -/
def Reading.blocks (x : Reading) : List (String × List VerifiedV2Record) :=
  (x.initial, recordsOf x.first) :: x.rest.map fun e => (e.1.1, recordsOf e.1.2)

namespace Shared

theorem blocks_eq (h : Shared R tree reads x) : x.blocks.flatMap Prod.snd = x.records := by
  rw [Reading.records, path_records h.path, Reading.blocks, List.flatMap_cons, List.flatMap_map]
  rfl

theorem blocks_names (h : Shared R tree reads x) : (x.blocks.map Prod.fst).Nodup := by
  rw [Reading.blocks, List.map_cons, List.map_map]
  exact ((h.perm.cons _).nodup_iff).mpr (otherOrigins_nodup h.opened.accepted_nodup)

theorem initial_key (h : Shared R tree reads x) : x.clients.key? x.initial = some x.trust.initialKey := by
  rw [Reading.clients, (path_keeps h.path).key? (begun_known h.begun)]
  show x.begun.key? _ = _
  rw [begun_key h.begun]
  unfold ClientMap.key? initialClients ClientMap.insert
  rw [show (unapprovedInitialClient x.trust).clientId = x.initial from rfl, Function.update_self]
  rfl

/-- The origins of a reading and where it has their segments from. -/
theorem origin_cases (h : Shared R tree reads x) {o : String} {key : Bytes} {tail : OriginFrontier}
    (hkey : x.clients.key? o = some key) (htail : x.accepted.origin? o = some tail) :
    ∃ segs ∈ x.origins, reads x.trust key tail segs ∧ (o, recordsOf segs) ∈ x.blocks := by
  by_cases ho : o = x.initial
  · subst ho
    obtain ⟨origin, horigin, hreads⟩ := h.initial
    cases htail.symm.trans horigin
    refine ⟨x.first, List.mem_cons_self .., ?_, List.mem_cons_self ..⟩
    cases hkey.symm.trans h.initial_key
    exact hreads
  · have hmem : o ∈ otherOrigins x.accepted x.initial := by
      obtain ⟨hin, rfl⟩ := origin?_eq_some htail
      exact List.mem_map_of_mem (List.mem_filter.mpr ⟨hin, decide_eq_true ho⟩)
    obtain ⟨e, he, rfl⟩ := List.mem_map.mp (h.perm.mem_iff.mpr hmem)
    obtain ⟨p, q, hp⟩ := List.append_of_mem he
    have hpath := h.path
    rw [hp] at hpath
    obtain ⟨hbefore, hstep, hafter⟩ := path_append.mp hpath
    obtain ⟨client, tail', hclient, htail', -, hreads, -⟩ := id hstep
    cases htail.symm.trans htail'
    refine ⟨e.1.2, List.mem_cons_of_mem _ (List.mem_map_of_mem he), ?_,
      List.mem_cons_of_mem _ (List.mem_map_of_mem he)⟩
    have hclients : x.clients = (final e.2 q).clients := by
      rw [Reading.clients, hp, final_append, final_cons]
    rw [hclients, ((hstep.keeps).trans (path_keeps hafter)).key? (by rw [hclient]; rfl), ClientMap.key?, hclient,
      Option.map_some] at hkey
    cases hkey
    exact hreads

theorem blocks_origin (h : Shared R tree reads x) (hreads : reads.Chains R tree) :
    ∀ b ∈ x.blocks, ∀ r ∈ b.2, r.originId = b.1 := by
  obtain ⟨tail, htail, hfirst⟩ := h.initial
  refine List.forall_mem_cons.mpr ⟨fun r hr => ?_, fun b hb => ?_⟩
  · exact ((hreads _ _ _ _ hfirst).origin r hr).trans (origin?_eq_some htail).2
  · obtain ⟨e, he, rfl⟩ := List.mem_map.mp hb
    have hall : ∀ e ∈ x.rest, ∀ r ∈ recordsOf e.1.2, r.originId = e.1.1 :=
      (path_iff_forall (C := fun b : String × List Segment => ∀ r ∈ recordsOf b.2, r.originId = b.1)).mp
        (h.path.mono fun s b t hstep r hr => by
          obtain ⟨_, tail, _, htail, _, hsegs, -⟩ := hstep
          exact ((hreads _ _ _ _ hsegs).origin r hr).trans (origin?_eq_some htail).2)
    exact hall e he

end Shared

/-- A way of finding segments finds the records of a reading in each of its origins. -/
def Reading.FoundBy (x : Reading) (reads : SegmentReader) (good : List Segment → Prop) : Prop :=
  ∀ o key tail, x.clients.key? o = some key → x.accepted.origin? o = some tail →
    ∃ segs, reads x.trust key tail segs ∧ recordsOf segs = x.records.filter (fun r => r.originId = o) ∧ good segs

theorem Shared.foundBy (h : Shared R tree reads x) (hreads : reads.Chains R tree) :
    x.FoundBy reads fun segs => segs ∈ x.origins := by
  intro o key tail hkey htail
  obtain ⟨segs, hsegs, hread, hblock⟩ := h.origin_cases hkey htail
  refine ⟨segs, hread, ?_, hsegs⟩
  rw [← h.blocks_eq]
  exact (filter_blocks h.blocks_names (h.blocks_origin hreads) _ hblock).symm

/-- Two readings of one archive with the same result. -/
structure Reading.Same (x y : Reading) : Prop where
  trust : y.trust = x.trust
  accepted : y.accepted = x.accepted
  frontiers : y.frontiers = x.frontiers
  clients : y.clients = x.clients
  records : y.records = x.records

/-- Where another way finds the same records, the reading can be found that way. -/
theorem Shared.refound (h : Shared R tree reads x) (hreads : reads.Chains R tree) {reads' : SegmentReader}
    {good : List Segment → Prop} (hfound : x.FoundBy reads' good) :
    ∃ y, Shared R tree reads' y ∧ x.Same y ∧ ∀ segs ∈ y.origins, good segs := by
  have hblock : ∀ b ∈ x.blocks, x.records.filter (fun r => r.originId = b.1) = b.2 := by
    rw [← h.blocks_eq]
    exact filter_blocks h.blocks_names (h.blocks_origin hreads)
  obtain ⟨tail, htail, hread⟩ := h.initial
  have hkey : x.clients.key? x.initial = some x.trust.initialKey := h.initial_key
  obtain ⟨first, hfirst, hfirstRecords, hgood⟩ := hfound _ _ _ hkey htail
  rw [hblock (x.initial, recordsOf x.first) (List.mem_cons_self ..)] at hfirstRecords
  have hsteps : Path (fun s b t => OriginStep R reads x.trust x.accepted x.frontiers s b t ∧
      (b.1, recordsOf b.2) ∈ x.blocks ∧ x.clients.key? b.1 = s.clients.key? b.1) x.start x.rest := by
    refine path_of_steps fun q b t r hrest => ?_
    have hpath := h.path
    rw [hrest] at hpath
    obtain ⟨-, hstep, hafter⟩ := path_append.mp hpath
    refine ⟨hstep, List.mem_cons_of_mem _ (List.mem_map.mpr ⟨(b, t), by rw [hrest]; simp, rfl⟩), ?_⟩
    obtain ⟨client, -, hclient, -⟩ := id hstep
    have hclients : x.clients = (final t r).clients := by
      rw [Reading.clients, hrest, final_append, final_cons]
    rw [hclients, ((hstep.keeps).trans (path_keeps hafter)).key? (by rw [hclient]; rfl)]
  obtain ⟨rest, hrest, hlabels, hfinal, -⟩ := Path.lift
    (Q := fun s b t => OriginStep R reads' x.trust x.accepted x.frontiers s b t ∧ good b.2)
    (f := Prod.fst) (g := Prod.fst) (E := Eq)
    (fun s b t s' hss hstep => by
      subst hss
      obtain ⟨⟨client, tail, hclient, htail, hvalid, -, hchecked, happlied, hrecords⟩, hmem, hkey⟩ := hstep
      rw [ClientMap.key?, ClientMap.key?, hclient, Option.map_some] at hkey
      obtain ⟨segs, hsegs, heq, hgood⟩ := hfound b.1 client.publicKey tail hkey htail
      rw [hblock _ hmem] at heq
      refine ⟨(b.1, segs), t, ⟨⟨client, tail, hclient, htail, hvalid, hsegs, ?_, ?_, ?_⟩, hgood⟩, rfl, rfl⟩
      · rw [heq]
        exact hchecked
      · rw [heq]
        exact happlied
      · rw [heq]
        exact hrecords)
    rfl hsteps
  let y : Reading := ⟨x.trust, x.accepted, x.frontiers, first, x.approval, x.begun, rest⟩
  have hstart : y.start = x.start := congrArg (Progress.mk x.begun) hfirstRecords
  have hend : final y.start y.rest = final x.start x.rest := by
    rw [hstart]
    exact hfinal.symm
  have hrecords : y.records = x.records := congrArg Progress.records hend
  have hclients : y.clients = x.clients := congrArg Progress.clients hend
  have hnames : (y.rest.map fun e => e.1.1) = x.rest.map fun e => e.1.1 := hlabels
  refine ⟨y, ⟨h.opened, ⟨tail, htail, hfirst⟩, ?_, ?_, ?_, ?_, ?_, ?_, ?_, ?_⟩, ⟨rfl, rfl, rfl, hclients, hrecords⟩, ?_⟩
  · rw [hfirstRecords]
    exact h.approval
  · rw [hfirstRecords]
    exact h.begun
  · rw [hstart]
    exact hrest.mono fun _ _ _ hstep => hstep.1
  · rw [hnames]
    exact h.perm
  · rw [hnames, hrecords]
    exact h.order
  · rw [hrecords]
    exact h.based
  · rw [hrecords, hclients]
    exact h.coordination
  · rw [hrecords]
    exact h.count
  · have hall : ∀ e ∈ rest, good e.1.2 :=
      (path_iff_forall (C := fun b : String × List Segment => good b.2)).mp (hrest.mono fun _ _ _ hstep => hstep.2)
    refine List.forall_mem_cons.mpr ⟨hgood, fun segs hsegs => ?_⟩
    obtain ⟨e, he, rfl⟩ := List.mem_map.mp hsegs
    exact hall e he

/-! ### The two rules for batches -/

theorem batch_ordered {o : String} {batches : List WholeBatch}
    (horigin : ∀ r ∈ batchedRecords batches, r.originId = o)
    (hseqs : ((batchedRecords batches).map VerifiedV2Record.originSeq).Pairwise (· < ·)) :
    ∀ b ∈ batches, b.Ordered := by
  intro b hb
  have hsub : b.records.Sublist (batchedRecords batches) := by
    have := (List.singleton_sublist.mpr hb).flatMap WholeBatch.records
    rwa [List.flatMap_singleton] at this
  have horigin : ∀ r ∈ b.records, r.originId = o := fun r hr => horigin r (hsub.subset hr)
  have hseqs : b.records.Pairwise fun r w => r.originSeq < w.originSeq :=
    List.pairwise_map.mp (hseqs.sublist (hsub.map _))
  have hstart := horigin b.start (by simp [WholeBatch.records])
  rw [WholeBatch.records, List.cons_append, List.pairwise_cons, List.pairwise_append] at hseqs
  obtain ⟨hfirst, -, -, hlast⟩ := hseqs
  simp only [WholeBatch.Ordered, batchOrdered, Bool.and_eq_true, decide_eq_true_eq, List.all_eq_true]
  refine ⟨⟨(horigin b.complete (by simp [WholeBatch.records])).trans hstart.symm, hfirst _ (by simp)⟩,
    fun c hc => ⟨⟨(horigin c (by simp [WholeBatch.records, hc])).trans hstart.symm, hfirst c (by simp [hc])⟩, ?_⟩⟩
  exact hlast c hc b.complete (List.mem_singleton_self _)

theorem Shared.origins_chain (h : Shared R tree reads x) (hreads : reads.Chains R tree) :
    ∀ segs ∈ x.origins, ∃ key tail, SegmentChain R tree x.trust key tail 1 none none segs := by
  obtain ⟨tail, -, hfirst⟩ := h.initial
  refine List.forall_mem_cons.mpr ⟨⟨_, tail, hreads _ _ _ _ hfirst⟩, fun segs hsegs => ?_⟩
  obtain ⟨e, he, rfl⟩ := List.mem_map.mp hsegs
  have hall : ∀ e ∈ x.rest, ∃ key tail, SegmentChain R tree x.trust key tail 1 none none e.1.2 :=
    (path_iff_forall (C := fun b : String × List Segment =>
      ∃ key tail, SegmentChain R tree x.trust key tail 1 none none b.2)).mp (h.path.mono fun s b t hstep => by
        obtain ⟨client, tail, _, _, _, hsegs, -⟩ := hstep
        exact ⟨client.publicKey, tail, hreads _ _ _ _ hsegs⟩)
  exact hall e he

/-- The batches of all segments, when each segment holds whole ones. -/
theorem Shared.batched (h : Shared R tree reads x) (hreads : reads.Chains R tree) {P : WholeBatch → Prop}
    (hall : ∀ segs ∈ x.origins, ∀ seg ∈ segs,
      ∃ batches, seg.records = batchedRecords batches ∧ ∀ b ∈ batches, P b) :
    ∃ f : Segment → List WholeBatch, x.records = batchedRecords (x.origins.flatten.flatMap f) ∧
      ∀ segs ∈ x.origins, ∀ seg ∈ segs, seg.records = batchedRecords (f seg) ∧ ∀ b ∈ f seg, P b ∧ b.Ordered := by
  have hflat : ∀ seg ∈ x.origins.flatten, ∃ batches, seg.records = batchedRecords batches ∧ ∀ b ∈ batches, P b := by
    intro seg hseg
    obtain ⟨segs, hsegs, hseg⟩ := List.mem_flatten.mp hseg
    exact hall segs hsegs seg hseg
  choose! f hf using hflat
  refine ⟨f, ?_, fun segs hsegs seg hseg => ?_⟩
  · have hflatten : recordsOf x.origins.flatten = x.origins.flatMap recordsOf := by
      rw [recordsOf, ← List.flatMap_id, List.flatMap_assoc]
      rfl
    rw [h.records_eq, batchedRecords, List.flatMap_assoc, ← hflatten]
    exact List.flatMap_congr fun seg hseg => (hf seg hseg).1
  · obtain ⟨hrecords, hP⟩ := hf seg (List.mem_flatten.mpr ⟨segs, hsegs, hseg⟩)
    obtain ⟨key, tail, hchain⟩ := h.origins_chain hreads segs hsegs
    have hsub : seg.records.Sublist (recordsOf segs) := by
      have := (List.singleton_sublist.mpr hseg).flatMap Segment.records
      rwa [List.flatMap_singleton] at this
    have hseqs : (seg.records.map VerifiedV2Record.originSeq).Pairwise (· < ·) := by
      refine List.Pairwise.sublist (hsub.map _) ?_
      rw [hchain.seqs]
      exact List.pairwise_lt_range'
    rw [hrecords] at hseqs hsub
    exact ⟨hrecords, fun b hb => ⟨hP b hb, batch_ordered (fun r hr => hchain.origin r (hsub.subset hr)) hseqs b hb⟩⟩

/-- The segments of a reading stream when they hold whole batches that are right by identifier. -/
theorem Shared.batches_iff (h : Shared R tree reads x) (hreads : reads.Chains R tree) :
    ((∀ segs ∈ x.origins, ∀ seg ∈ segs, commitAll (validateStreamedBatchRecord R) none seg.records = .ok none) ∧
        DistinctBatchIds x.records) ↔
      (∀ segs ∈ x.origins, ∀ seg ∈ segs, InWholeBatches seg.records) ∧ verifyBatches R x.records = .ok () := by
  constructor
  · rintro ⟨hstreamed, hdistinct⟩
    obtain ⟨f, hrecords, hf⟩ := h.batched hreads fun segs hsegs seg hseg => streamed_iff.mp (hstreamed segs hsegs seg hseg)
    refine ⟨fun segs hsegs seg hseg => ⟨f seg, (hf segs hsegs seg hseg).1⟩, ?_⟩
    rw [hrecords] at hdistinct ⊢
    refine verifyBatches_batchedRecords.mpr ⟨distinctBatchIds_iff.mp hdistinct, fun b hb => ?_⟩
    obtain ⟨seg, hseg, hb⟩ := List.mem_flatMap.mp hb
    obtain ⟨segs, hsegs, hseg⟩ := List.mem_flatten.mp hseg
    exact ((hf segs hsegs seg hseg).2 b hb).symm
  · rintro ⟨hwhole, hbatches⟩
    obtain ⟨f, hrecords, hf⟩ := h.batched (P := fun _ => True) hreads fun segs hsegs seg hseg => by
      obtain ⟨batches, hseg⟩ := hwhole segs hsegs seg hseg
      exact ⟨batches, hseg, fun _ _ => trivial⟩
    rw [hrecords] at hbatches ⊢
    obtain ⟨hnodup, hvalid⟩ := verifyBatches_batchedRecords.mp hbatches
    refine ⟨fun segs hsegs seg hseg => streamed_iff.mpr ⟨f seg, (hf segs hsegs seg hseg).1, fun b hb => ?_⟩,
      distinctBatchIds_iff.mpr hnodup⟩
    exact (hvalid b (List.mem_flatMap.mpr ⟨seg, List.mem_flatten.mpr ⟨segs, hsegs, hseg⟩, hb⟩)).2

/-! ### Agreement -/

/-- A visit returns and yields what the verification of whole origins returns. -/
structure SameResult (archive visited : VerifiedV2Archive) (yielded : List VerifiedV2Record) : Prop where
  accepted : visited.acceptedFrontier = archive.acceptedFrontier
  frontiers : visited.frontiers = archive.frontiers
  clients : visited.clients = archive.clients
  count : visited.recordCount = archive.recordCount
  records : yielded = archive.records

/-- The verifications accept the archive together and with the same result. -/
def VerifiersAgree (R : StoreRuntime) (tree : EventTree) : Prop :=
  ((∃ archive, verify R tree = .ok archive) ↔ ∃ visited yielded, visitVerified R tree = .ok (visited, yielded)) ∧
    ∀ archive visited yielded, verify R tree = .ok archive → visitVerified R tree = .ok (visited, yielded) →
      SameResult archive visited yielded

/-- The segments of an origin hold whole batches, and one record at most initializes the archive. -/
structure Tidy (segs : List Segment) : Prop where
  whole : ∀ seg ∈ segs, InWholeBatches seg.records
  initialized : OneInitialization (recordsOf segs)

/-- The manifests in the directories of the origins and those at the paths named after first sequences hold
the same records; batches stay whole and their identifiers are not used again, and the archive is not
initialized twice in one origin. -/
structure Regular (R : StoreRuntime) (tree : EventTree) : Prop where
  listed : ∀ x, Shared R tree (Listed R tree) x → verifyBatches R x.records = .ok () →
    x.FoundBy (Addressed R tree) Tidy
  addressed : ∀ x, Shared R tree (Addressed R tree) x → (∀ segs ∈ x.origins, Streams R segs) →
    x.FoundBy (Listed R tree) (fun _ => True) ∧ DistinctBatchIds x.records

variable {archive visited : VerifiedV2Archive} {yielded : List VerifiedV2Record} {y : Reading}

/-- Both readings of an archive that both verifications accept have its result. -/
theorem Reading.Gives.result (hx : x.Gives archive archive.records) (hy : y.Gives visited yielded)
    (h : x.Same y) : SameResult archive visited yielded where
  accepted := by rw [hy.accepted, h.accepted, hx.accepted]
  frontiers := by rw [hy.frontiers, h.frontiers, hx.frontiers]
  clients := by rw [hy.clients, h.clients, hx.clients]
  count := by rw [hy.count, h.records, hx.count]
  records := by rw [hy.records, h.records, hx.records]

theorem SameResult.readings {reads' : SegmentReader} (h : SameResult archive visited yielded)
    (hx : Shared R tree reads x) (hy : Shared R tree reads' y) (hxg : x.Gives archive archive.records)
    (hyg : y.Gives visited yielded) : x.Same y where
  trust := Except.ok.inj (hy.opened.root.symm.trans hx.opened.root)
  accepted := by rw [← hyg.accepted, h.accepted, hxg.accepted]
  frontiers := by rw [← hyg.frontiers, h.frontiers, hxg.frontiers]
  clients := by rw [← hyg.clients, h.clients, hxg.clients]
  records := by rw [← hyg.records, h.records, hxg.records]

theorem Reading.Same.symm (h : x.Same y) : y.Same x :=
  ⟨h.trust.symm, h.accepted.symm, h.frontiers.symm, h.clients.symm, h.records.symm⟩

theorem Reading.Same.foundBy {good : List Segment → Prop} (h : x.Same y) (hy : y.FoundBy reads good) :
    x.FoundBy reads good := by
  intro o key tail hkey htail
  rw [← h.clients] at hkey
  rw [← h.accepted] at htail
  rw [← h.trust, ← h.records]
  exact hy o key tail hkey htail

theorem Reading.FoundBy.mono {good good' : List Segment → Prop} (hgood : ∀ segs, good segs → good' segs)
    (h : x.FoundBy reads good) : x.FoundBy reads good' := by
  intro o key tail hkey htail
  obtain ⟨segs, hsegs, hrecords, hg⟩ := h o key tail hkey htail
  exact ⟨segs, hsegs, hrecords, hgood segs hg⟩

theorem Regular.visit (h : Regular R tree) (hverify : verify R tree = .ok archive) :
    ∃ visited yielded, visitVerified R tree = .ok (visited, yielded) ∧ SameResult archive visited yielded := by
  obtain ⟨x, hx, hbatches, hgives⟩ := verify_reading hverify
  obtain ⟨y, hy, hsame, htidy⟩ := hx.refound listed_chains (h.listed x hx hbatches)
  rw [← hsame.records] at hbatches
  obtain ⟨hstreamed, -⟩ := (hy.batches_iff addressed_chains).mpr ⟨fun segs hsegs => (htidy segs hsegs).whole, hbatches⟩
  obtain ⟨visited, yielded, hvisit, hgives'⟩ :=
    hy.visit fun segs hsegs => ⟨hstreamed segs hsegs, (htidy segs hsegs).initialized⟩
  exact ⟨visited, yielded, hvisit, hgives.result hgives' hsame⟩

theorem Regular.verify (h : Regular R tree) (hvisit : visitVerified R tree = .ok (visited, yielded)) :
    ∃ archive, verify R tree = .ok archive := by
  obtain ⟨x, hx, hstreams, -⟩ := visitVerified_reading hvisit
  obtain ⟨hfound, hdistinct⟩ := h.addressed x hx hstreams
  obtain ⟨y, hy, hsame, -⟩ := hx.refound addressed_chains hfound
  obtain ⟨-, hbatches⟩ := (hx.batches_iff addressed_chains).mp ⟨fun segs hsegs => (hstreams segs hsegs).batches, hdistinct⟩
  rw [← hsame.records] at hbatches
  obtain ⟨archive, hverify, -⟩ := hy.verify hbatches
  exact ⟨archive, hverify⟩

theorem VerifiersAgree.regular (h : VerifiersAgree R tree) : Regular R tree := by
  obtain ⟨haccept, hresult⟩ := h
  constructor
  · intro x hx hbatches
    obtain ⟨archive, hverify, hgives⟩ := hx.verify hbatches
    obtain ⟨visited, yielded, hvisit⟩ := haccept.mp ⟨archive, hverify⟩
    obtain ⟨y, hy, hstreams, hgives'⟩ := visitVerified_reading hvisit
    have hsame := (hresult archive visited yielded hverify hvisit).readings hx hy hgives hgives'
    refine hsame.foundBy ((hy.foundBy addressed_chains).mono fun segs hsegs => ⟨fun seg hseg => ?_, ?_⟩)
    · obtain ⟨batches, hrecords, -⟩ := streamed_iff.mp ((hstreams segs hsegs).batches seg hseg)
      exact ⟨batches, hrecords⟩
    · exact (hstreams segs hsegs).initialized
  · intro x hx hstreams
    obtain ⟨visited, yielded, hvisit, hgives⟩ := hx.visit hstreams
    obtain ⟨archive, hverify⟩ := haccept.mpr ⟨visited, yielded, hvisit⟩
    obtain ⟨y, hy, hbatches, hgives'⟩ := verify_reading hverify
    have hsame := ((hresult archive visited yielded hverify hvisit).readings hy hx hgives' hgives).symm
    refine ⟨hsame.foundBy ((hy.foundBy listed_chains).mono fun _ _ => trivial), ?_⟩
    rw [hsame.records] at hbatches
    refine ((hx.batches_iff addressed_chains).mpr ⟨fun segs hsegs seg hseg => ?_, hbatches⟩).2
    obtain ⟨batches, hrecords, -⟩ := streamed_iff.mp ((hstreams segs hsegs).batches seg hseg)
    exact ⟨batches, hrecords⟩

/-- The two full verifications agree exactly on regular archives. -/
theorem verifiers_agree_iff (R : StoreRuntime) (tree : EventTree) : VerifiersAgree R tree ↔ Regular R tree := by
  refine ⟨VerifiersAgree.regular, fun h => ⟨⟨?_, ?_⟩, fun archive visited yielded hverify hvisit => ?_⟩⟩
  · rintro ⟨archive, hverify⟩
    obtain ⟨visited, yielded, hvisit, -⟩ := h.visit hverify
    exact ⟨visited, yielded, hvisit⟩
  · rintro ⟨visited, yielded, hvisit⟩
    exact h.verify hvisit
  · obtain ⟨visited', yielded', hvisit', hsame⟩ := h.visit hverify
    cases hvisit.symm.trans hvisit'
    exact hsame

end

namespace Sample

/-! ### Small archives

Archives whose documents are numbered: document `n` of a kind is written as the two
bytes of its kind and its number, and the hash of a text is its last 32 bytes in
hexadecimal.  So every hash an archive contains can be written down before the
document it names, and reading gives back what was written.
-/

def hexDigit (n : Nat) : Char := if n < 10 then Char.ofNat (48 + n) else Char.ofNat (87 + n)

/-- The last digits of a number, the least significant first. -/
def hexDigits : Nat → Nat → List Char
  | 0, _ => []
  | width + 1, n => hexDigit (n % 16) :: hexDigits width (n / 16)

/-- A number below `2 ^ 32`; those of short texts differ. -/
def number (bytes : Bytes) : Nat := bytes.foldl (fun n b => (n * 257 + b.toNat) % 4294967296) 0

def hash (bytes : Bytes) : String :=
  String.ofList (hexDigits 8 (number bytes) ++ List.replicate 56 '0')

theorem utf8_hexDigit : ∀ n < 16, (String.utf8EncodeChar (hexDigit n)).length = 1 ∧
    (String.utf8EncodeChar (hexDigit n)).all isLowerHex = true := by decide

theorem mem_hexDigits {c : Char} {width n : Nat} (h : c ∈ hexDigits width n) : ∃ k < 16, c = hexDigit k := by
  induction width generalizing n with
  | zero => exact absurd h List.not_mem_nil
  | succ width ih =>
    rcases List.mem_cons.mp h with rfl | h
    · exact ⟨n % 16, Nat.mod_lt _ (by decide), rfl⟩
    · exact ih h

theorem length_hexDigits (width n : Nat) : (hexDigits width n).length = width := by
  induction width generalizing n with
  | zero => rfl
  | succ width ih => exact congrArg Nat.succ (ih _)

theorem lowerHex_digits {digits : List Char} (h : ∀ c ∈ digits, ∃ n < 16, c = hexDigit n) :
    (digits.flatMap String.utf8EncodeChar).length = digits.length ∧
      (digits.flatMap String.utf8EncodeChar).all isLowerHex = true := by
  induction digits with
  | nil => exact ⟨rfl, rfl⟩
  | cons c digits ih =>
    obtain ⟨n, hn, rfl⟩ := h c List.mem_cons_self
    obtain ⟨hlength, hhex⟩ := utf8_hexDigit n hn
    obtain ⟨hlengths, hall⟩ := ih fun d hd => h d (List.mem_cons_of_mem _ hd)
    refine ⟨?_, ?_⟩
    · rw [List.flatMap_cons, List.length_append, hlength, hlengths, List.length_cons, Nat.add_comm]
    · rw [List.flatMap_cons, List.all_append, hhex, hall]
      rfl

theorem hash_isBlake3Identifier (bytes : Bytes) : isBlake3Identifier ("blake3:" ++ hash bytes) = true := by
  have hdigits : ∀ c ∈ hexDigits 8 (number bytes) ++ List.replicate 56 '0', ∃ n < 16, c = hexDigit n := by
    intro c hc
    rcases List.mem_append.mp hc with hc | hc
    · exact mem_hexDigits hc
    · exact ⟨0, by decide, List.eq_of_mem_replicate hc⟩
  obtain ⟨hlength, hall⟩ := lowerHex_digits hdigits
  unfold isBlake3Identifier
  rw [stripPrefix_eq_some.mpr (utf8_append _ _)]
  show isLowerHex64 (utf8 (hash bytes)) = true
  unfold isLowerHex64 hash
  rw [utf8_eq, String.toList_ofList, hall, hlength, List.length_append, length_hexDigits, List.length_replicate]
  rfl

/-- Document `n` of a kind. -/
def document (kind n : Nat) : Bytes := [UInt8.ofNat kind, UInt8.ofNat (32 + n)]

def documentId (kind n : Nat) : String := "blake3:" ++ hash (document kind n)

def frontierId (n : Nat) : String := documentId 1 n

def manifestId (n : Nat) : String := documentId 2 n

def recordId (n : Nat) : String := documentId 3 n

/-- The key of client `n`. -/
def key (n : Nat) : Bytes := List.replicate 31 0 ++ [UInt8.ofNat n]

def client (n : Nat) : String := "origin_" ++ hash (key n)

def base64 (bytes : Bytes) : String := String.ofList (Base64.encode standardNoPad bytes)

/-- What client `n` signs anything with. -/
def signature (n : Nat) : String := base64 (key n ++ key n)

/-- The member of a list that the bytes number. -/
def readFrom {α : Type} (kind : Nat) (documents : List α) : Bytes → Option α
  | [k, n] => if k = UInt8.ofNat kind ∧ 32 ≤ n.toNat then documents[n.toNat - 32]? else none
  | _ => none

/-- The number of the first member of a list that looks like the value. -/
def writeFrom {α κ : Type} [DecidableEq κ] (kind : Nat) (look : α → κ) (documents : List α)
    (value : α) : Bytes := document kind ((documents.map look).idxOf (look value))

/-- What tells the frontiers of a small archive apart. -/
def lookOfFrontier (f : CausalFrontier) : List Nat × Nat :=
  (f.origins.map OriginFrontier.seq, f.previousFrontiers.length)

/-- What tells the manifests of a small archive apart. -/
def lookOfManifest (m : SignedSegmentManifest) : String := m.body.segmentPath

/-- The documents of an archive. -/
structure Documents where
  genesis : SignedGenesis
  frontiers : List CausalFrontier
  manifests : List SignedSegmentManifest
  records : List V2RecordEnvelope

def Documents.runtime (d : Documents) : StoreRuntime where
  blake3 := hash
  validKey k := k.length = 32
  verifyStrict k _ s := s = k ++ k
  ulid text := text.length = 26
  readGenesis := readFrom 0 [d.genesis]
  writeGenesis _ := document 0 0
  writeGenesisBody _ := document 4 0
  readFrontier := readFrom 1 d.frontiers
  writeFrontier := writeFrom 1 lookOfFrontier d.frontiers
  readManifest := readFrom 2 d.manifests
  writeManifest := writeFrom 2 lookOfManifest d.manifests
  writeManifestBody _ := document 4 1
  readEnvelope := readFrom 3 d.records
  readLease _ := .error "no lease"
  writeLeaseBody _ := document 4 2

/-! ### Archives of batches -/

/-- One batch, the only one of its segment: its number `of` among all batches, its place
among those of its client, the batch of the same client before it, the frontier it was
appended to and its items. -/
structure Batch where
  client : Nat
  place : Nat
  previous : Option Nat
  base : Nat
  items : List Json

def genesis : SignedGenesis where
  body := ⟨2, "arc_sample", "Sample", 0, 2, 2, 1, 6, client 1, base64 (key 1)⟩
  signature := signature 1

def genesisHash : String := documentId 0 0

def numbered (start : String) (n : Nat) : String :=
  start ++ String.ofList (List.replicate 24 '0' ++ [hexDigit (n / 16), hexDigit (n % 16)])

def string (text : String) : Json := .str text

def digestOf (itemCount : Nat) (chunk : Nat) : String :=
  match decodeBlake3 (recordId chunk) with
  | .ok bytes => "blake3:" ++ hash (digestDomain ++ beBytes 8 0 ++ beBytes 4 itemCount ++ bytes)
  | .error _ => ""

/-- The three records of a batch. -/
def records (n : Nat) (b : Batch) : List V2RecordEnvelope :=
  let envelope (i : Nat) (kind : V2RecordKind) (payload : Json) : V2RecordEnvelope :=
    ⟨2, client b.client, 3 * b.place + i + 1, numbered "rec_" (3 * n + i), kind, 0,
      numbered "batch_" n,
      if i = 0 then b.previous.map fun p => recordId (3 * p + 2) else some (recordId (3 * n + i - 1)),
      payload⟩
  [envelope 0 .batchStart (.obj [("operation_kind", string "sample"),
      ("causal_frontier_hash", string (frontierId b.base)), ("context", .obj [])]),
    envelope 1 .batchChunk (.obj [("first_item_index", .num "0"), ("items", .arr b.items)]),
    envelope 2 .batchComplete (.obj [("total_items", .num b.items.length.repr),
      ("ordered_item_digest", string (digestOf b.items.length (3 * n + 1))),
      ("status", string "complete")])]

/-- The text of the records with these numbers. -/
def segment (numbers : List Nat) : Bytes := numbers.flatMap fun i => document 3 i ++ [10]

def segmentPath (n : Nat) : String := String.ofList [hexDigit (n / 16), hexDigit (n % 16)]

def manifest (n : Nat) (b : Batch) : SignedSegmentManifest where
  body :=
    { manifestV := 2
      archiveId := "arc_sample"
      genesisHash := genesisHash
      originId := client b.client
      segmentPath := segmentPath n
      firstSeq := 3 * b.place + 1
      lastSeq := 3 * b.place + 3
      firstRecordId := numbered "rec_" (3 * n)
      lastRecordId := numbered "rec_" (3 * n + 2)
      firstRecordHash := recordId (3 * n)
      lastRecordHash := recordId (3 * n + 2)
      recordCount := 3
      segmentBytes := 9
      segmentBlake3 := "blake3:" ++ hash (segment [3 * n, 3 * n + 1, 3 * n + 2])
      causalBaseFrontierHash := frontierId b.base
      previousSegmentManifestHash := b.previous.map manifestId }
  signature := signature b.client

/-- A frontier by its last batch of every client and its parents. -/
structure Frontier where
  tails : List Nat
  parents : List Nat

def frontier (batches : List Batch) (f : Frontier) : CausalFrontier where
  v := 2
  archiveId := "arc_sample"
  genesisHash := genesisHash
  origins := f.tails.filterMap fun n => batches[n]?.map fun b =>
    ⟨client b.client, 3 * b.place + 3, recordId (3 * n + 2), manifestId n⟩
  previousFrontiers := f.parents.map frontierId
  itemProjectionVersion := 1

def documents (batches : List Batch) (frontiers : List Frontier) : Documents where
  genesis := genesis
  frontiers := frontiers.map (frontier batches)
  manifests := batches.zipIdx.map fun b => manifest b.2 b.1
  records := batches.zipIdx.flatMap fun b => records b.2 b.1

/-- The tree of an archive whose head is its last frontier. -/
def tree (batches : List Batch) (frontiers : List Frontier) : EventTree where
  files :=
    [("genesis.json", document 0 0),
      ("frontiers/v2/HEAD", utf8 (frontierId (frontiers.length - 1) ++ "\n"))] ++
    (List.range frontiers.length).map (fun n =>
      ("frontiers/v2/frontier-" ++ hash (document 1 n) ++ ".json", document 1 n)) ++
    batches.zipIdx.flatMap fun b =>
      [(manifestRelativePath (client b.1.client) (3 * b.1.place + 1), document 2 b.2),
        (segmentPath b.2, segment [3 * b.2, 3 * b.2 + 1, 3 * b.2 + 2])]

/-- A small archive. -/
structure Archive where
  batches : List Batch
  frontiers : List Frontier

def Archive.runtime (a : Archive) : StoreRuntime := (documents a.batches a.frontiers).runtime

def Archive.tree (a : Archive) : EventTree := Sample.tree a.batches a.frontiers

def initialized : Json := .obj [("kind", string "archive_initialized")]

def enrolled (n : Nat) : Json :=
  .obj [("kind", string "client_enrolled"), ("client_id", string (client n)),
    ("display_name", string "client"), ("public_key", string (base64 (key n))),
    ("capabilities", .arr [string "coordination"])]

def revoked (n : Nat) : Json :=
  .obj [("kind", string "client_revoked"), ("client_id", string (client n))]

def observed : Json := .obj [("kind", string "file_observed")]

/-! ### Where a reader stands -/

/-- The cursor after a batch. -/
def cursorAfter (n : Nat) (b : Batch) : V2OriginCursor :=
  ⟨3 * b.place + 3, some (recordId (3 * n + 2)), some (manifestId n)⟩

/-- The cursors at a frontier. -/
def Archive.cursors (a : Archive) (f : Frontier) (o : String) : V2OriginCursor :=
  match f.tails.filterMap fun n => a.batches[n]?.bind fun b =>
      if client b.client = o then some (cursorAfter n b) else none with
  | cursor :: _ => cursor
  | [] => .start

/-- The initial client, whose archive was initialized by its first batch. -/
def firstClient : VerifiedV2Client := initialClient (client 1) (key 1) 2

/-- A client that a batch of the initial client enrolled. -/
def enrolledClient (n place : Nat) : VerifiedV2Client :=
  ⟨client n, "client", key n, ["coordination"], client 1, 3 * place + 2, none, none⟩

def clients (all : List VerifiedV2Client) : ClientMap := fun o => all.find? fun c => c.clientId = o

/-! ### Two initializations -/

/-- The initial client initializes the archive again. -/
def initializedTwice : Archive where
  batches := [⟨1, 0, none, 0, [initialized]⟩, ⟨1, 1, some 0, 1, [initialized]⟩]
  frontiers := [⟨[], []⟩, ⟨[0], [0]⟩, ⟨[1], [1]⟩]

theorem initializedTwice_read :
    ∃ archive, verify initializedTwice.runtime initializedTwice.tree = .ok archive ∧
      decide (archive.recordCount = 6) = true :=
  exists_ok_of_any (by decide +kernel)

theorem initializedTwice_not_visited :
    (visitVerified initializedTwice.runtime initializedTwice.tree).toOption.isNone = true := by
  decide +kernel

/-- `verify` accepts the archive and `visitVerified` does not. -/
theorem initializedTwice_disagree : ¬ ∀ R tree, VerifiersAgree R tree := by
  intro hall
  obtain ⟨archive, hverify, -⟩ := initializedTwice_read
  obtain ⟨visited, yielded, hvisit⟩ := (hall _ _).1.mp ⟨archive, hverify⟩
  have hnone := initializedTwice_not_visited
  rw [hvisit] at hnone
  cases hnone

end Sample

end ArchiveLedger
