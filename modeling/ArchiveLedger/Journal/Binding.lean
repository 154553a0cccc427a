import ArchiveLedger.Foundation.HashChain
import ArchiveLedger.Journal.Verifiers

/-!
# What the head of an archive binds

The head names a frontier by its hash, the frontier the last manifest of every origin, each manifest the one
before it and the bytes of its segment.  So without collisions two archives with the same head yield the
same records (`head_binds_records`).  The path of a segment is whatever its manifest says: a visit stays with
`segmentRelativePath` exactly when all manifests that the head commits to do (`head_binds_iff`).
-/

namespace ArchiveLedger

open Outcome Transition HashChain

def segmentRelativePath (origin : String) (number : Nat) : String :=
  "events/v2/origins/" ++ origin ++ "/seg-" ++ paddedNumber number ++ ".jsonl"

/-- The segment files that `visit_origin_range` opens up to an accepted tail, each with its first sequence. -/
def segmentReads (R : StoreRuntime) (tree : EventTree) (tail : OriginFrontier) : Nat → Nat → List (Nat × String)
  | 0, _ => []
  | remaining + 1, expectedSeq =>
      match readManifest R tree (manifestRelativePath tail.originId expectedSeq) with
      | .error _ => []
      | .ok (manifest, manifestHash) =>
          (expectedSeq, manifest.body.segmentPath) ::
            if manifestHash = tail.segmentManifestHash then []
            else segmentReads R tree tail remaining (manifest.body.lastSeq + 1)

/-- Every segment is read from the path named after its origin and first sequence. -/
def ReadsCanonically (R : StoreRuntime) (tree : EventTree) (accepted : CausalFrontier) : Prop :=
  ∀ tail ∈ accepted.origins, ∀ read ∈ segmentReads R tree tail tail.seq 1,
    read.2 = segmentRelativePath tail.originId read.1

/-- No two files of the trees have one hash. -/
def NoCollision (R : StoreRuntime) (tree tree' : EventTree) : Prop :=
  ∀ f ∈ tree.files ++ tree'.files, ∀ g ∈ tree.files ++ tree'.files, R.blake3 f.2 = R.blake3 g.2 → f.2 = g.2

/-- A manifest of a tree, with its hash. -/
def StoredManifest (R : StoreRuntime) (tree : EventTree) (link : SegmentManifestBody × String) : Prop :=
  ∃ path manifest, readManifest R tree path = .ok (manifest, link.2) ∧ manifest.body = link.1

abbrev previousManifest (link : SegmentManifestBody × String) : Option String :=
  link.1.previousSegmentManifestHash

/-- The head names a frontier, and the manifest is found by going back from one of its tails. -/
def Committed (R : StoreRuntime) (tree : EventTree) (head : String) (body : SegmentManifestBody) : Prop :=
  ∃ path bytes frontier, tree.file? path = some bytes ∧ blake3Id R bytes = head ∧
    R.readFrontier bytes = some frontier ∧ ∃ tail ∈ frontier.origins, ∃ hash,
      Behind Prod.snd previousManifest (StoredManifest R tree) tail.segmentManifestHash (body, hash)

/-- The manifests that the head commits to name the paths of their segments after their first sequences. -/
def ManifestsCanonical (R : StoreRuntime) (tree : EventTree) (head : String) : Prop :=
  ∀ body, Committed R tree head body → body.segmentPath = segmentRelativePath body.originId body.firstSeq

variable {R : StoreRuntime} {tree tree' : EventTree} {trust trust' : TrustRoot} {key key' : Bytes}
  {tail : OriginFrontier} {segs segs' : List Segment}

/-! ### Files -/

theorem file?_mem {path : String} {bytes : Bytes} (h : tree.file? path = some bytes) :
    ∃ f ∈ tree.files, f.2 = bytes := by
  obtain ⟨f, hf, rfl⟩ := Option.map_eq_some_iff.mp h
  exact ⟨f, List.mem_of_find?_eq_some hf, rfl⟩

theorem blake3Id_inj {a b : Bytes} (h : blake3Id R a = blake3Id R b) : R.blake3 a = R.blake3 b := by
  have hchars := congrArg String.toList h
  simp only [blake3Id, String.toList_append, List.append_cancel_left_eq] at hchars
  exact String.toList_inj.mp hchars

/-- Two files with one hash have the same bytes. -/
theorem NoCollision.file (h : NoCollision R tree tree') {path path' : String} {bytes bytes' : Bytes}
    (hfile : tree.file? path = some bytes) (hfile' : tree'.file? path' = some bytes')
    (hhash : blake3Id R bytes = blake3Id R bytes') : bytes = bytes' := by
  obtain ⟨f, hf, rfl⟩ := file?_mem hfile
  obtain ⟨g, hg, rfl⟩ := file?_mem hfile'
  exact h f (List.mem_append_left _ hf) g (List.mem_append_right _ hg) (blake3Id_inj hhash)

theorem NoCollision.left (h : NoCollision R tree tree') : NoCollision R tree tree := by
  intro f hf g hg
  rw [List.mem_append, or_self] at hf hg
  exact h f (List.mem_append_left _ hf) g (List.mem_append_left _ hg)

theorem NoCollision.symm (h : NoCollision R tree tree') : NoCollision R tree' tree := by
  intro f hf g hg
  exact h f (List.mem_append.mpr (List.mem_append.mp hf).symm) g (List.mem_append.mpr (List.mem_append.mp hg).symm)

theorem readManifest_eq_ok {path : String} {out : SignedSegmentManifest × String} :
    readManifest R tree path = .ok out ↔ ∃ bytes, tree.file? path = some bytes ∧
      R.readManifest bytes = some out.1 ∧ R.writeManifest out.1 = bytes ∧ out.2 = blake3Id R bytes := by
  obtain ⟨manifest, hash⟩ := out
  simp only [readManifest, readFile, bind_eq_ok, okOr_eq_ok, require_eq_ok, Except.ok.injEq, Prod.mk.injEq,
    SignedSegmentManifest.manifestHash]
  constructor
  · rintro ⟨bytes, hfile, m, hread, _, hcanonical, rfl, rfl⟩
    exact ⟨bytes, hfile, hread, hcanonical, by rw [hcanonical]⟩
  · rintro ⟨bytes, hfile, hread, hcanonical, rfl⟩
    exact ⟨bytes, hfile, manifest, hread, (), hcanonical, rfl, by rw [hcanonical]⟩

/-- A manifest is bound by its hash. -/
theorem NoCollision.manifest (h : NoCollision R tree tree') {a b : SegmentManifestBody × String}
    (ha : StoredManifest R tree a) (hb : StoredManifest R tree' b) (hhash : a.2 = b.2) : a = b := by
  obtain ⟨path, m, hread, hbody⟩ := ha
  obtain ⟨path', m', hread', hbody'⟩ := hb
  obtain ⟨bytes, hfile, hm, -, hname⟩ := readManifest_eq_ok.mp hread
  obtain ⟨bytes', hfile', hm', -, hname'⟩ := readManifest_eq_ok.mp hread'
  have hsame := h.file hfile hfile' (hname.symm.trans (hhash.trans hname'))
  rw [hsame, hm'] at hm
  cases hm
  exact Prod.ext (hbody.symm.trans hbody') hhash

theorem readSegment_eq_ok {body : SegmentManifestBody} {bytes : Bytes} (h : readSegment R tree body = .ok bytes) :
    tree.file? body.segmentPath = some bytes ∧ blake3Id R bytes = body.segmentBlake3 := by
  simp only [readSegment, readFile, bind_eq_ok, okOr_eq_ok, require_eq_ok, Except.ok.injEq] at h
  obtain ⟨_, hfile, _, ⟨-, hhash, -⟩, rfl⟩ := h
  exact ⟨hfile, hhash⟩

theorem readFrontier_file {hash : String} {f : CausalFrontier} (h : readFrontier R tree trust hash = .ok f) :
    ∃ path bytes, tree.file? path = some bytes ∧ blake3Id R bytes = hash ∧ R.readFrontier bytes = some f := by
  simp only [readFrontier, readFile, CausalFrontier.frontierHash, bind_eq_ok, okOr_eq_ok, mapError_eq_ok, require_eq_ok,
    Except.ok.injEq] at h
  obtain ⟨path, -, bytes, hfile, g, hread, canonical, hcanonical, named, ⟨_, hwritten, rfl⟩, _, ⟨rfl, rfl⟩, _, -, rfl⟩ := h
  cases hcanonical.symm.trans hwritten
  exact ⟨path, _, hfile, rfl, hread⟩

/-! ### Chains of manifests -/

def Segment.link (seg : Segment) : SegmentManifestBody × String := (seg.body, seg.manifestHash)

theorem SegmentAt.stored {expectedSeq : Nat} {previousRecord previousManifest : Option String} {seg : Segment}
    {s : SegmentRead} (h : SegmentAt R tree trust key tail expectedSeq previousRecord previousManifest seg s) :
    StoredManifest R tree seg.link := by
  obtain ⟨m, hread, -, hbody⟩ := h.manifest
  exact ⟨_, m, hread, hbody⟩

theorem SegmentAt.previous {expectedSeq : Nat} {previousRecord previousManifest : Option String} {seg : Segment}
    {s : SegmentRead} (h : SegmentAt R tree trust key tail expectedSeq previousRecord previousManifest seg s) :
    seg.body.previousSegmentManifestHash = previousManifest ∧ seg.body.originId = tail.originId := by
  have hfits := h.fits
  simp only [manifestFits, Bool.and_eq_true, decide_eq_true_eq] at hfits
  exact ⟨hfits.2, hfits.1.1.2⟩

/-- What is read of a segment is bound by its manifest. -/
theorem SegmentAt.same (hcollision : NoCollision R tree tree') {expectedSeq : Nat}
    {previousRecord previousManifest : Option String} {seg seg' : Segment} {s s' : SegmentRead}
    (h : SegmentAt R tree trust key tail expectedSeq previousRecord previousManifest seg s)
    (h' : SegmentAt R tree' trust' key' tail expectedSeq previousRecord previousManifest seg' s')
    (hbody : seg.body = seg'.body) (hhash : seg.manifestHash = seg'.manifestHash) :
    s = s' ∧ seg.records = seg'.records := by
  obtain ⟨bytes, hbytes, -, hread⟩ := h.text
  obtain ⟨bytes', hbytes', -, hread'⟩ := h'.text
  obtain ⟨hfile, hname⟩ := readSegment_eq_ok hbytes
  obtain ⟨hfile', hname'⟩ := readSegment_eq_ok hbytes'
  rw [← hbody] at hname'
  cases hcollision.file hfile hfile' (hname.trans hname'.symm)
  rw [← hbody, ← hhash, hread] at hread'
  cases hread'
  exact ⟨rfl, h.records.trans h'.records.symm⟩

namespace SegmentChain

variable {expectedSeq remaining : Nat} {previousRecord previous : Option String}

theorem stored (h : SegmentChain R tree trust key tail expectedSeq previousRecord previous segs) :
    ∀ link ∈ segs.map Segment.link, StoredManifest R tree link := by
  rw [List.forall_mem_map]
  induction h with
  | last at_ accepted ends => exact List.forall_mem_singleton.mpr at_.stored
  | cons at_ before rest ih => exact List.forall_mem_cons.mpr ⟨at_.stored, ih⟩

theorem named (h : SegmentChain R tree trust key tail expectedSeq previousRecord previous segs) :
    ∀ seg ∈ segs, seg.body.originId = tail.originId := by
  induction h with
  | last at_ accepted ends => exact List.forall_mem_singleton.mpr at_.previous.2
  | cons at_ before rest ih => exact List.forall_mem_cons.mpr ⟨at_.previous.2, ih⟩

/-- The manifests of an origin are a hash chain that ends with the accepted one. -/
theorem linked (h : SegmentChain R tree trust key tail expectedSeq previousRecord previous segs) :
    HashChain.Linked Prod.snd previousManifest previous (segs.map Segment.link) ∧
      tip Prod.snd previous (segs.map Segment.link) = some tail.segmentManifestHash := by
  induction h with
  | last at_ accepted ends => exact ⟨⟨at_.previous.1, trivial⟩, congrArg some accepted⟩
  | @cons expectedSeq previousRecord previous seg s segs at_ before rest ih =>
    refine ⟨⟨at_.previous.1, ih.1⟩, ?_⟩
    rw [← ih.2]
    unfold tip
    cases hlast : (segs.map Segment.link).getLast? with
    | none => simp [Segment.link, List.getLast?_eq_none_iff.mp hlast]
    | some last => simp [List.getLast?_cons, hlast]

/-- The visit of a chain opens the files that its manifests name. -/
theorem reads (h : SegmentChain R tree trust key tail expectedSeq previousRecord previous segs)
    (haddressed : ∀ seg ∈ segs, seg.path = manifestRelativePath tail.originId seg.body.firstSeq)
    (hremaining : tail.seq + 1 ≤ expectedSeq + remaining) :
    segmentReads R tree tail remaining expectedSeq =
      segs.map fun seg => (seg.body.firstSeq, seg.body.segmentPath) := by
  induction h generalizing remaining with
  | last at_ accepted ends =>
    have hle := (SegmentChain.last at_ accepted ends).le_tail
    obtain ⟨remaining, rfl⟩ : ∃ n, remaining = n + 1 := ⟨remaining - 1, by omega⟩
    obtain ⟨m, hread, -, hbody⟩ := at_.manifest
    rw [List.forall_mem_singleton.mp haddressed, at_.firstSeq] at hread
    rw [segmentReads, hread]
    simp [accepted, hbody, at_.firstSeq]
  | @cons expectedSeq previousRecord previous seg s segs at_ before rest ih =>
    have hle := (SegmentChain.cons at_ before rest).le_tail
    obtain ⟨remaining, rfl⟩ : ∃ n, remaining = n + 1 := ⟨remaining - 1, by omega⟩
    obtain ⟨hpath, haddressed⟩ := List.forall_mem_cons.mp haddressed
    obtain ⟨m, hread, -, hbody⟩ := at_.manifest
    have hnext := at_.next
    have hlast := at_.lastSeq
    have hpos := at_.nonempty
    rw [hpath, at_.firstSeq] at hread
    have hrest := ih haddressed (show tail.seq + 1 ≤ s.expectedSeq + remaining by omega)
    rw [segmentReads, hread]
    simp only [hbody, if_neg before, List.map_cons, at_.firstSeq]
    rw [show seg.body.lastSeq + 1 = s.expectedSeq by omega, hrest]

/-- Chains with the same manifests hold the same records. -/
theorem records_eq (hcollision : NoCollision R tree tree')
    (h : SegmentChain R tree trust key tail expectedSeq previousRecord previous segs)
    (h' : SegmentChain R tree' trust' key' tail expectedSeq previousRecord previous segs')
    (hlinks : segs.map Segment.link = segs'.map Segment.link) : recordsOf segs = recordsOf segs' := by
  induction h generalizing segs' with
  | last at_ accepted ends =>
    cases h' with
    | last at' accepted' ends' =>
      obtain ⟨hlink, -⟩ := List.cons.inj hlinks
      obtain ⟨hbody, hhash⟩ := Prod.ext_iff.mp hlink
      rw [recordsOf_cons, recordsOf_cons, (at_.same hcollision at' hbody hhash).2]
    | cons at' before' rest' => cases rest' <;> simp at hlinks
  | @cons expectedSeq previousRecord previous seg s segs at_ before rest ih =>
    cases h' with
    | last at' accepted' ends' => cases rest <;> simp at hlinks
    | @cons _ _ _ seg' s' segs' at' before' rest' =>
      obtain ⟨hlink, hlinks⟩ := List.cons.inj hlinks
      have hbody : seg.body = seg'.body := congrArg Prod.fst hlink
      have hhash : seg.manifestHash = seg'.manifestHash := congrArg Prod.snd hlink
      obtain ⟨rfl, hrecords⟩ := at_.same hcollision at' hbody hhash
      rw [← hhash] at rest'
      rw [recordsOf_cons, recordsOf_cons, hrecords, ih rest' hlinks]

end SegmentChain

/-! ### Two archives with one head -/

variable {archive archive' : VerifiedV2Archive} {records records' : List VerifiedV2Record}

/-- A visit with the frontier its head names. -/
structure Headed (R : StoreRuntime) (tree : EventTree) (archive : VerifiedV2Archive)
    (records : List VerifiedV2Record) (x : Reading) : Prop where
  shared : Shared R tree (Addressed R tree) x
  accepted : archive.acceptedFrontier = x.accepted
  yielded : records = x.records
  head : readFrontier R tree x.trust archive.acceptedFrontierHash = .ok x.accepted

theorem visitVerified_headed (h : visitVerified R tree = .ok (archive, records)) :
    ∃ x, Headed R tree archive records x := by
  obtain ⟨x, hx, -, hgives⟩ := visitVerified_reading h
  obtain ⟨trust, accepted, frontiers, _, _, _, _, _, hopened, -, -, -, -, -, -, hout⟩ := visitVerified_eq_ok.mp h
  cases hout
  have htrust : trust = x.trust := Except.ok.inj (hopened.root.symm.trans hx.opened.root)
  have hread := (loadFrontierGraph_below hx.opened.graph hx.opened.head).1 _ _ hx.opened.head
  exact ⟨x, hx, hgives.accepted, hgives.records, by rw [← htrust] at hread ⊢; exact hread⟩

namespace Headed

variable {x y : Reading}

/-- Every accepted origin is read as a chain. -/
theorem chain (h : Headed R tree archive records x) (htail : tail ∈ x.accepted.origins) :
    ∃ key segs, Addressed R tree x.trust key tail segs ∧
      recordsOf segs = records.filter (fun r => r.originId = tail.originId) := by
  have hshared := h.shared
  have hself := CausalFrontier.origin?_of_mem hshared.opened.accepted_nodup htail
  have hkey : ∃ key, x.clients.key? tail.originId = some key := by
    by_cases ho : tail.originId = x.initial
    · exact ⟨_, ho ▸ hshared.initial_key⟩
    · have hmem : tail.originId ∈ otherOrigins x.accepted x.initial :=
        List.mem_map_of_mem (List.mem_filter.mpr ⟨htail, decide_eq_true ho⟩)
      obtain ⟨e, he, hid⟩ := List.mem_map.mp (hshared.perm.mem_iff.mpr hmem)
      obtain ⟨p, q, hp⟩ := List.append_of_mem he
      have hpath := hshared.path
      rw [hp] at hpath
      obtain ⟨-, hstep, hafter⟩ := path_append.mp hpath
      obtain ⟨client, -, hclient, -⟩ := id hstep
      have hclients : x.clients = (final e.2 q).clients := by
        rw [Reading.clients, hp, final_append, final_cons]
      refine ⟨client.publicKey, ?_⟩
      rw [hclients, ← hid, ((hstep.keeps).trans (path_keeps hafter)).key? (by rw [hclient]; rfl), ClientMap.key?,
        hclient]
      rfl
  obtain ⟨key, hkey⟩ := hkey
  obtain ⟨segs, hsegs, hrecords, -⟩ := hshared.foundBy addressed_chains _ key tail hkey hself
  exact ⟨key, segs, hsegs, by rw [hrecords, h.yielded]⟩

/-- Records are of accepted origins. -/
theorem origin_accepted (h : Headed R tree archive records x) {r : VerifiedV2Record} (hr : r ∈ records) :
    ∃ tail ∈ x.accepted.origins, r.originId = tail.originId := by
  have hshared := h.shared
  rw [h.yielded, ← hshared.blocks_eq] at hr
  obtain ⟨b, hb, hr⟩ := List.mem_flatMap.mp hr
  rw [hshared.blocks_origin addressed_chains b hb r hr]
  rcases List.mem_cons.mp hb with rfl | hb
  · obtain ⟨tail, htail, -⟩ := hshared.initial
    obtain ⟨hmem, hid⟩ := origin?_eq_some htail
    exact ⟨tail, hmem, hid.symm⟩
  · obtain ⟨e, he, rfl⟩ := List.mem_map.mp hb
    obtain ⟨tail, htail, hid⟩ := List.mem_map.mp (hshared.perm.mem_iff.mp (List.mem_map_of_mem he))
    exact ⟨tail, (List.mem_filter.mp htail).1, hid.symm⟩

theorem records_nil (h : Headed R tree archive records x) {o : String}
    (ho : ∀ tail ∈ x.accepted.origins, tail.originId ≠ o) : records.filter (fun r => r.originId = o) = [] := by
  refine List.filter_eq_nil_iff.mpr fun r hr hid => ?_
  obtain ⟨tail, htail, hrid⟩ := h.origin_accepted hr
  exact ho tail htail (hrid.symm.trans (of_decide_eq_true hid))

theorem accepted_eq (h : Headed R tree archive records x) (h' : Headed R tree' archive' records' y)
    (hcollision : NoCollision R tree tree') (hhead : archive.acceptedFrontierHash = archive'.acceptedFrontierHash) :
    x.accepted = y.accepted := by
  obtain ⟨_, bytes, hfile, hname, hread⟩ := readFrontier_file h.head
  obtain ⟨_, bytes', hfile', hname', hread'⟩ := readFrontier_file h'.head
  cases hcollision.file hfile hfile' (hname.trans (hhead.trans hname'.symm))
  exact Option.some.inj (hread.symm.trans hread')

/-- The tails of a head bind the manifests before them. -/
theorem links_eq (hcollision : NoCollision R tree tree')
    (h : SegmentChain R tree trust key tail 1 none none segs)
    (h' : SegmentChain R tree' trust' key' tail 1 none none segs') :
    segs.map Segment.link = segs'.map Segment.link :=
  h.linked.1.eq_of_tip h'.linked.1
    (fun a ha b hb hhash => hcollision.manifest (h.stored a ha) (h'.stored b hb) hhash)
    (h.linked.2.trans h'.linked.2.symm)

theorem records_eq (h : Headed R tree archive records x) (h' : Headed R tree' archive' records' y)
    (hcollision : NoCollision R tree tree') (hhead : archive.acceptedFrontierHash = archive'.acceptedFrontierHash)
    (o : String) : records.filter (fun r => r.originId = o) = records'.filter (fun r => r.originId = o) := by
  have haccepted := h.accepted_eq h' hcollision hhead
  by_cases ho : ∃ tail ∈ x.accepted.origins, tail.originId = o
  · obtain ⟨tail, htail, rfl⟩ := ho
    obtain ⟨_, segs, ⟨hchain, -⟩, hrecords⟩ := h.chain htail
    obtain ⟨_, segs', ⟨hchain', -⟩, hrecords'⟩ := h'.chain (haccepted ▸ htail)
    rw [← hrecords, ← hrecords']
    exact hchain.records_eq hcollision hchain' (links_eq hcollision hchain hchain')
  · push Not at ho
    rw [h.records_nil ho, h'.records_nil (haccepted ▸ ho)]

/-- What the head of a visited archive commits to are the manifests of its segments. -/
theorem committed_iff (h : Headed R tree archive records x) (hcollision : NoCollision R tree tree)
    {body : SegmentManifestBody} : Committed R tree archive.acceptedFrontierHash body ↔
      ∃ tail ∈ x.accepted.origins, ∃ key segs, Addressed R tree x.trust key tail segs ∧
        ∃ seg ∈ segs, seg.body = body := by
  obtain ⟨path, bytes, hfile, hname, hread⟩ := readFrontier_file h.head
  have hinj : ∀ a b, StoredManifest R tree a → StoredManifest R tree b → a.2 = b.2 → a = b :=
    fun a b ha hb hhash => hcollision.manifest ha hb hhash
  constructor
  · rintro ⟨path', bytes', f, hfile', hname', hread', tail, htail, hash, hbehind⟩
    cases hcollision.file hfile hfile' (hname.trans hname'.symm)
    cases hread.symm.trans hread'
    obtain ⟨key, segs, hsegs, -⟩ := h.chain htail
    rw [hsegs.1.linked.1.mem_iff hinj hsegs.1.stored hsegs.1.linked.2] at hbehind
    obtain ⟨seg, hseg, hlink⟩ := List.mem_map.mp hbehind
    exact ⟨tail, htail, key, segs, hsegs, seg, hseg, congrArg Prod.fst hlink⟩
  · rintro ⟨tail, htail, key, segs, hsegs, seg, hseg, rfl⟩
    refine ⟨path, bytes, x.accepted, hfile, hname, hread, tail, htail, seg.manifestHash, ?_⟩
    exact (hsegs.1.linked.1.mem_iff hinj hsegs.1.stored hsegs.1.linked.2 _).mpr (List.mem_map_of_mem hseg)

theorem canonical_iff (h : Headed R tree archive records x) (hcollision : NoCollision R tree tree) :
    ReadsCanonically R tree archive.acceptedFrontier ↔ ManifestsCanonical R tree archive.acceptedFrontierHash := by
  rw [h.accepted]
  constructor
  · intro hreads body hbody
    obtain ⟨tail, htail, _, segs, ⟨hchain, haddressed⟩, seg, hseg, rfl⟩ := (h.committed_iff hcollision).mp hbody
    have hall := hreads tail htail
    rw [hchain.reads haddressed (by omega)] at hall
    rw [hchain.named seg hseg]
    exact hall _ (List.mem_map_of_mem hseg)
  · intro hcanonical tail htail read hmem
    obtain ⟨key, segs, ⟨hchain, haddressed⟩, -⟩ := h.chain htail
    rw [hchain.reads haddressed (by omega)] at hmem
    obtain ⟨seg, hseg, rfl⟩ := List.mem_map.mp hmem
    rw [← hchain.named seg hseg]
    exact hcanonical _ ((h.committed_iff hcollision).mpr
      ⟨tail, htail, key, segs, ⟨hchain, haddressed⟩, seg, hseg, rfl⟩)

/-- Archives with one head commit to the same manifests. -/
theorem committed_of_head (h : Headed R tree archive records x) (h' : Headed R tree' archive' records' y)
    (hcollision : NoCollision R tree tree') (hhead : archive.acceptedFrontierHash = archive'.acceptedFrontierHash)
    {body : SegmentManifestBody} (hbody : Committed R tree' archive'.acceptedFrontierHash body) :
    Committed R tree archive.acceptedFrontierHash body := by
  obtain ⟨tail, htail, _, segs', ⟨hchain', -⟩, seg', hseg', rfl⟩ := (h'.committed_iff hcollision.symm.left).mp hbody
  rw [← h.accepted_eq h' hcollision hhead] at htail
  obtain ⟨key, segs, ⟨hchain, haddressed⟩, -⟩ := h.chain htail
  have hmem : seg'.link ∈ segs.map Segment.link := by
    rw [links_eq hcollision hchain hchain']
    exact List.mem_map_of_mem hseg'
  obtain ⟨seg, hseg, hlink⟩ := List.mem_map.mp hmem
  exact (h.committed_iff hcollision.left).mpr
    ⟨tail, htail, key, segs, ⟨hchain, haddressed⟩, seg, hseg, congrArg Prod.fst hlink⟩

end Headed

/-- Without collisions the head of an archive binds the records of every origin with their segments and
causal bases; all segments are read from their canonical paths exactly when the manifests that the head
commits to name those. -/
theorem head_binds (hcollision : NoCollision R tree tree') (h : visitVerified R tree = .ok (archive, records))
    (h' : visitVerified R tree' = .ok (archive', records'))
    (hhead : archive.acceptedFrontierHash = archive'.acceptedFrontierHash) :
    (∀ o, records.filter (fun r => r.originId = o) = records'.filter (fun r => r.originId = o)) ∧
      (ReadsCanonically R tree archive.acceptedFrontier ∧ ReadsCanonically R tree' archive'.acceptedFrontier ↔
        ManifestsCanonical R tree archive.acceptedFrontierHash) := by
  obtain ⟨x, hx⟩ := visitVerified_headed h
  obtain ⟨y, hy⟩ := visitVerified_headed h'
  refine ⟨hx.records_eq hy hcollision hhead, ?_⟩
  rw [hx.canonical_iff hcollision.left, hy.canonical_iff hcollision.symm.left]
  exact ⟨fun hboth => hboth.1, fun hcanonical =>
    ⟨hcanonical, fun body hbody => hcanonical body (hx.committed_of_head hy hcollision hhead hbody)⟩⟩

namespace Sample

/-- One batch, whose manifest names its segment `00`. -/
def initializedOnce : Archive where
  batches := [⟨1, 0, none, 0, [initialized]⟩]
  frontiers := [⟨[], []⟩, ⟨[0], [0]⟩]

theorem initializedOnce_visited :
    ∃ out, visitVerified initializedOnce.runtime initializedOnce.tree = .ok out ∧
      decide (out.1.acceptedFrontier = frontier initializedOnce.batches ⟨[0], [0]⟩) = true :=
  exists_ok_of_any (by decide +kernel)

theorem initializedOnce_noCollision :
    NoCollision initializedOnce.runtime initializedOnce.tree initializedOnce.tree := by
  unfold NoCollision
  decide +kernel

theorem initializedOnce_elsewhere :
    ¬ ReadsCanonically initializedOnce.runtime initializedOnce.tree (frontier initializedOnce.batches ⟨[0], [0]⟩) := by
  unfold ReadsCanonically
  decide +kernel

/-- An accepted segment is read from another path. -/
theorem initializedOnce_unbound : ∃ archive records,
    NoCollision initializedOnce.runtime initializedOnce.tree initializedOnce.tree ∧
      visitVerified initializedOnce.runtime initializedOnce.tree = .ok (archive, records) ∧
      ¬ ReadsCanonically initializedOnce.runtime initializedOnce.tree archive.acceptedFrontier := by
  obtain ⟨⟨archive, records⟩, h, hfrontier⟩ := initializedOnce_visited
  rw [decide_eq_true_iff] at hfrontier
  refine ⟨archive, records, initializedOnce_noCollision, h, ?_⟩
  rw [hfrontier]
  exact initializedOnce_elsewhere

/-- The tree of another replica, with a frontier that the head does not lead to. -/
def initializedApart : EventTree :=
  { initializedOnce.tree with files := initializedOnce.tree.files ++
      [("frontiers/v2/frontier-" ++ hash (document 1 7) ++ ".json", document 1 7)] }

theorem initializedApart_visited :
    ∃ out, visitVerified initializedOnce.runtime initializedApart = .ok out ∧
      decide (out.1.acceptedFrontierHash = frontierId 1) = true :=
  exists_ok_of_any (by decide +kernel)

theorem initializedApart_noCollision :
    NoCollision initializedOnce.runtime initializedOnce.tree initializedApart := by
  unfold NoCollision
  decide +kernel

theorem initializedOnce_head {out : VerifiedV2Archive × List VerifiedV2Record}
    (h : visitVerified initializedOnce.runtime initializedOnce.tree = .ok out) :
    out.1.acceptedFrontierHash = frontierId 1 := by
  have hhead : (visitVerified initializedOnce.runtime initializedOnce.tree).toOption.all
      (fun out => out.1.acceptedFrontierHash = frontierId 1) = true := by
    decide +kernel
  rw [h] at hhead
  exact of_decide_eq_true hhead

theorem initializedOnce_bound : ∃ archive records archive' records',
    visitVerified initializedOnce.runtime initializedOnce.tree = .ok (archive, records) ∧
      visitVerified initializedOnce.runtime initializedApart = .ok (archive', records') ∧
      (∀ o, records.filter (fun r => r.originId = o) = records'.filter (fun r => r.originId = o)) ∧
      (ReadsCanonically initializedOnce.runtime initializedOnce.tree archive.acceptedFrontier ∧
          ReadsCanonically initializedOnce.runtime initializedApart archive'.acceptedFrontier ↔
        ManifestsCanonical initializedOnce.runtime initializedOnce.tree archive.acceptedFrontierHash) := by
  obtain ⟨⟨archive, records⟩, h, -⟩ := initializedOnce_visited
  obtain ⟨⟨archive', records'⟩, h', hhead⟩ := initializedApart_visited
  have hsame : archive.acceptedFrontierHash = archive'.acceptedFrontierHash :=
    (initializedOnce_head h).trans (of_decide_eq_true hhead).symm
  obtain ⟨hrecords, hpaths⟩ := head_binds initializedApart_noCollision h h' hsame
  exact ⟨archive, records, archive', records', h, h', hrecords, hpaths⟩

end Sample

end ArchiveLedger
