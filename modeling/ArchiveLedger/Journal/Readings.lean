import ArchiveLedger.Journal.BatchRuns
import ArchiveLedger.Journal.History

/-!
# Readings of an archive

What the two full verifications have in common, apart from how each of them finds the
segments of an origin and checks batches.  A `Reading` gives the segments of every
accepted origin in the order in which the origins are taken; it is `Shared` when it passes
the checks that both verifications make.  The manifests are either those listed in the
directory of an origin, in the order of their names, or those at the paths named after
their first sequences.
-/

namespace ArchiveLedger

open Outcome Transition Worklist

variable {R : StoreRuntime} {tree : EventTree}

/-! ### Coordination proofs depend on the key of the origin -/

/-- The key of a client, if it is known. -/
def ClientMap.key? (clients : ClientMap) (o : String) : Option Bytes :=
  (clients o).map VerifiedV2Client.publicKey

theorem ClientMap.Keeps.key? {c d : ClientMap} (h : c.Keeps d) {o : String} (ho : (c o).isSome) :
    d.key? o = c.key? o := by
  obtain ⟨a, ha⟩ := Option.isSome_iff_exists.mp ho
  obtain ⟨b, hb, hab⟩ := h o a ha
  rw [ClientMap.key?, ClientMap.key?, ha, hb, Option.map_some, Option.map_some, hab.publicKey]

theorem verifyLeaseProof_key {c d : ClientMap} {proof : SignedCoordinationLease}
    (h : c.key? proof.body.holderClientId = d.key? proof.body.holderClientId)
    (hc : verifyLeaseProof R c proof = .ok ()) : verifyLeaseProof R d proof = .ok () := by
  simp only [verifyLeaseProof, bind_eq_ok, okOr_eq_ok, require_eq_ok] at hc ⊢
  obtain ⟨_, hbody, a, ha, _, hvalid, hsignature⟩ := hc
  rw [ClientMap.key?, ClientMap.key?, ha, Option.map_some, Eq.comm, Option.map_eq_some_iff] at h
  obtain ⟨b, hb, hkey⟩ := h
  exact ⟨(), hbody, b, hb, (), by rwa [hkey], by rwa [hkey]⟩

theorem validateCoordination_key {c d : ClientMap} {r : VerifiedV2Record} {coordination : Json}
    (h : c.key? r.originId = d.key? r.originId) (hc : validateCoordination R c r coordination = .ok ()) :
    validateCoordination R d r coordination = .ok () := by
  simp only [validateCoordination, bind_eq_ok, require_eq_ok, okOr_eq_ok, mapError_eq_ok] at hc ⊢
  obtain ⟨_, hobject, value, hvalue, proof, hproof, _, hlease, hrest⟩ := hc
  have hholder : r.originId = proof.body.holderClientId := by
    obtain ⟨_, -, _, -, _, -, _, -, _, -, _, -, _, -, _, -, _, hholder, -⟩ := hrest
    exact hholder
  exact ⟨(), hobject, value, hvalue, proof, hproof, (), verifyLeaseProof_key (hholder ▸ h) hlease, hrest⟩

theorem validateCoordinationContext_key {c d : ClientMap} {r : VerifiedV2Record}
    (h : c.key? r.originId = d.key? r.originId) :
    validateCoordinationContext R c r = .ok () ↔ validateCoordinationContext R d r = .ok () := by
  unfold validateCoordinationContext
  cases coordinationOf r with
  | none => rfl
  | some coordination => exact ⟨validateCoordination_key h, validateCoordination_key h.symm⟩

theorem applyClientRegistryItems_keeps {c d : ClientMap} {records : List VerifiedV2Record}
    (h : applyClientRegistryItems R records c = .ok d) : c.Keeps d :=
  (Registered.ofRecords h).keeps

/-- The proofs along the records of an origin, each against the clients at its place, are the proofs
against any later clients. -/
theorem coordination_along {range : OriginRange} {c d later : ClientMap} {records : List VerifiedV2Record}
    {o : String} (happly : range.applyRegistry = true) (horigin : ∀ r ∈ records, r.originId = o)
    (hknown : (c o).isSome) (hd : applyClientRegistryItems R records c = .ok d)
    (hlater : later.key? o = c.key? o) :
    (∀ e ∈ steps (registryStep R range) c records, validateCoordinationContext R e.1 e.2.1 = .ok ()) ↔
      ∀ r ∈ records, validateCoordinationContext R later r = .ok () := by
  have hitems := steps_items _ ((commitAll_registryStep happly).mpr hd)
  have heach : ∀ e ∈ steps (registryStep R range) c records,
      (validateCoordinationContext R e.1 e.2.1 = .ok () ↔
        validateCoordinationContext R later e.2.1 = .ok ()) := by
    intro e he
    obtain ⟨pre, post, hsplit, hpre⟩ := mem_steps _ he
    have hkeeps := applyClientRegistryItems_keeps ((commitAll_registryStep happly).mp hpre)
    refine validateCoordinationContext_key ?_
    rw [horigin e.2.1 (by rw [hsplit]; simp), hlater, hkeeps.key? hknown]
  constructor
  · intro hall r hr
    rw [← hitems, List.mem_map] at hr
    obtain ⟨e, he, rfl⟩ := hr
    exact (heach e he).mp (hall e he)
  · intro hall e he
    refine (heach e he).mpr (hall _ ?_)
    rw [← hitems]
    exact List.mem_map_of_mem he

/-! ### The approval of the initial client -/

theorem approveInitialClient_insert {c : ClientMap} {initial : String} {approval : String × Nat}
    {client : VerifiedV2Client} (h : client.clientId ≠ initial) :
    approveInitialClient (c.insert client) initial approval =
      (approveInitialClient c initial approval).insert client := by
  unfold approveInitialClient ClientMap.insert
  rw [Function.update_of_ne (Ne.symm h), Function.update_comm (Ne.symm h)]

theorem applyRegistryItem_approve {r : VerifiedV2Record} {c d : ClientMap} {item : Json} {initial : String}
    {approval : String × Nat} (hinitial : (c initial).isSome) (h : applyRegistryItem R r c item = .ok d) :
    applyRegistryItem R r (approveInitialClient c initial approval) item =
      .ok (approveInitialClient d initial approval) := by
  unfold applyRegistryItem at h ⊢
  split at h
  · rename_i hkind
    rw [if_pos hkind]
    simp only [enrollClient, bind_eq_ok, require_eq_ok, Except.ok.injEq] at h ⊢
    obtain ⟨client, hclient, _, hnone, rfl⟩ := h
    have hne : client.clientId ≠ initial := by
      intro he
      rw [he, Option.isNone_iff_eq_none] at hnone
      rw [hnone] at hinitial
      cases hinitial
    exact ⟨client, hclient, (), by rwa [approveInitialClient_of_ne hne],
      (approveInitialClient_insert hne).symm⟩
  · rename_i henroll
    rw [if_neg henroll]
    split at h
    · rename_i hkind
      rw [if_pos hkind]
      simp only [revokeClient, bind_eq_ok, okOr_eq_ok, require_eq_ok, Except.ok.injEq] at h ⊢
      obtain ⟨o, ho, _, hid, client, hclient, _, hrevoked, rfl⟩ := h
      by_cases he : o = initial
      · subst he
        refine ⟨o, ho, (), hid, client.approve approval,
          by rw [approveInitialClient_self, hclient, Option.map_some], (), hrevoked, ?_⟩
        unfold approveInitialClient
        rw [Function.update_idem, Function.update_self, Function.update_idem]
        rfl
      · refine ⟨o, ho, (), hid, client, by rwa [approveInitialClient_of_ne he], (), hrevoked, ?_⟩
        unfold approveInitialClient
        rw [Function.update_of_ne (Ne.symm he), Function.update_comm he]
    · rename_i hrevoke
      rw [if_neg hrevoke]
      cases h
      rfl

theorem applyClientRegistryItems_approve {records : List VerifiedV2Record} {c d : ClientMap}
    {initial : String} (approval : String × Nat) (hinitial : (c initial).isSome)
    (h : applyClientRegistryItems R records c = .ok d) :
    applyClientRegistryItems R records (approveInitialClient c initial approval) =
      .ok (approveInitialClient d initial approval) := by
  rw [applyClientRegistryItems_eq_ok] at h ⊢
  generalize itemsOf records = events at h ⊢
  induction events generalizing c with
  | nil =>
    cases h
    rfl
  | cons e events ih =>
    obtain ⟨u, hu, hrest⟩ := (commitAll_cons _).mp h
    refine (commitAll_cons _).mpr ⟨_, applyRegistryItem_approve hinitial hu, ih ?_ hrest⟩
    obtain ⟨a, ha⟩ := Option.isSome_iff_exists.mp hinitial
    obtain ⟨b, hb, -⟩ := applyRegistryItem_keeps hu initial a ha
    rw [hb]
    rfl

/-! ### The initialization of the archive -/

/-- At most one record initializes the archive. -/
def OneInitialization (records : List VerifiedV2Record) : Prop :=
  (records.filter fun r => recordContainsItemKind r "archive_initialized").length ≤ 1

theorem noteInitialization_some {a : String × Nat} {records : List VerifiedV2Record}
    {out : Option (String × Nat)} :
    commitAll noteInitialization (some a) records = .ok out ↔
      (∀ r ∈ records, recordContainsItemKind r "archive_initialized" = false) ∧ out = some a := by
  induction records with
  | nil => exact ⟨fun h => ⟨fun r hr => absurd hr List.not_mem_nil, (Except.ok.inj h).symm⟩,
      fun h => by rw [h.2]; rfl⟩
  | cons r records ih =>
    rw [commitAll_cons, List.forall_mem_cons]
    unfold noteInitialization
    cases hr : recordContainsItemKind r "archive_initialized" with
    | true =>
      constructor
      · rintro ⟨_, hu, -⟩
        simp [require] at hu
        cases hu
      · rintro ⟨⟨hfalse, -⟩, -⟩
        cases hfalse
    | false =>
      rw [if_neg Bool.false_ne_true]
      constructor
      · rintro ⟨_, hu, hrest⟩
        cases hu
        obtain ⟨hall, hout⟩ := ih.mp hrest
        exact ⟨⟨rfl, hall⟩, hout⟩
      · rintro ⟨⟨-, hall⟩, hout⟩
        exact ⟨_, rfl, ih.mpr ⟨hall, hout⟩⟩

theorem noteInitialization_none {records : List VerifiedV2Record} {out : Option (String × Nat)} :
    commitAll noteInitialization none records = .ok out ↔
      OneInitialization records ∧
        out = (records.find? (recordContainsItemKind · "archive_initialized")).map fun r =>
          (r.originId, r.originSeq) := by
  unfold OneInitialization
  induction records with
  | nil => exact ⟨fun h => ⟨Nat.zero_le _, (Except.ok.inj h).symm⟩, fun h => by rw [h.2]; rfl⟩
  | cons r records ih =>
    rw [commitAll_cons]
    cases hr : recordContainsItemKind r "archive_initialized" with
    | true =>
      have hnote : noteInitialization none r = .ok (some (r.originId, r.originSeq)) := by
        unfold noteInitialization
        rw [hr]
        rfl
      rw [List.filter_cons_of_pos (p := (recordContainsItemKind · "archive_initialized")) hr,
        List.find?_cons_of_pos (p := (recordContainsItemKind · "archive_initialized")) hr, List.length_cons, Option.map_some]
      constructor
      · rintro ⟨_, hu, hrest⟩
        rw [hnote] at hu
        cases hu
        obtain ⟨hall, hout⟩ := noteInitialization_some.mp hrest
        refine ⟨?_, hout⟩
        rw [List.filter_eq_nil_iff.mpr fun w hw => by rw [hall w hw]; exact Bool.false_ne_true]
        rfl
      · rintro ⟨hlength, hout⟩
        refine ⟨_, hnote, noteInitialization_some.mpr ⟨fun w hw => ?_, hout⟩⟩
        have hnil := List.eq_nil_of_length_eq_zero (Nat.le_zero.mp (Nat.le_of_succ_le_succ hlength))
        simpa using List.filter_eq_nil_iff.mp hnil w hw
    | false =>
      have hnote : noteInitialization none r = .ok none := by
        unfold noteInitialization
        rw [hr]
        rfl
      have hneg : ¬ recordContainsItemKind r "archive_initialized" = true := by
        rw [hr]
        exact Bool.false_ne_true
      rw [List.filter_cons_of_neg (p := (recordContainsItemKind · "archive_initialized")) hneg,
        List.find?_cons_of_neg (p := (recordContainsItemKind · "archive_initialized")) hneg, ← ih]
      exact ⟨fun ⟨u, hu, hrest⟩ => by rw [hnote] at hu; cases hu; exact hrest,
        fun hrest => ⟨none, hnote, hrest⟩⟩

/-! ### Readings -/

/-- Which segments of an origin a verification takes. -/
abbrev SegmentReader := TrustRoot → Bytes → OriginFrontier → List Segment → Prop

/-- The manifests in the directory of the origin, in the order of their names. -/
def Listed (R : StoreRuntime) (tree : EventTree) : SegmentReader := fun trust key tail segs =>
  ∃ entries, readSortedFiles tree (manifestDirectory tail.originId) ".manifest.json" = .ok entries ∧
    SegmentChain R tree trust key tail 1 none none segs ∧ segs.map Segment.path <+: entries

/-- The manifests at the paths that are named after their first sequences. -/
def Addressed (R : StoreRuntime) (tree : EventTree) : SegmentReader := fun trust key tail segs =>
  SegmentChain R tree trust key tail 1 none none segs ∧
    ∀ seg ∈ segs, seg.path = manifestRelativePath tail.originId seg.body.firstSeq

/-- The segments of an archive: those of the initial origin and those of the others in the order in which
they are taken, each with the clients and records so far. -/
structure Reading where
  trust : TrustRoot
  accepted : CausalFrontier
  frontiers : FrontierMap
  first : List Segment
  approval : VerifiedV2Record
  begun : ClientMap
  rest : List ((String × List Segment) × Progress)

namespace Reading

abbrev initial (x : Reading) : String := x.trust.genesis.body.initialClientId

def start (x : Reading) : Progress := ⟨x.begun, recordsOf x.first⟩

def records (x : Reading) : List VerifiedV2Record := (final x.start x.rest).records

def clients (x : Reading) : ClientMap := (final x.start x.rest).clients

/-- The segments of each origin. -/
def origins (x : Reading) : List (List Segment) := x.first :: x.rest.map fun e => e.1.2

end Reading

/-- The next origin of a reading. -/
def OriginStep (R : StoreRuntime) (reads : SegmentReader) (trust : TrustRoot) (accepted : CausalFrontier)
    (frontiers : FrontierMap) (s : Progress) (b : String × List Segment) (t : Progress) : Prop :=
  ∃ client tail, s.clients b.1 = some client ∧ accepted.origin? b.1 = some tail ∧
    R.validKey client.publicKey ∧ reads trust client.publicKey tail b.2 ∧
    (∀ r ∈ recordsOf b.2, validateClientOriginRecord client frontiers r = .ok ()) ∧
    applyClientRegistryItems R (recordsOf b.2) s.clients = .ok t.clients ∧
    t.records = s.records ++ recordsOf b.2

/-- The checks that both verifications make. -/
structure Shared (R : StoreRuntime) (tree : EventTree) (reads : SegmentReader) (x : Reading) : Prop where
  opened : Opened R tree x.trust x.accepted x.frontiers
  initial : ∃ tail, x.accepted.origin? x.initial = some tail ∧ reads x.trust x.trust.initialKey tail x.first
  approval : (recordsOf x.first).find? (recordContainsItemKind · "archive_initialized") = some x.approval
  begun : applyClientRegistryItems R (recordsOf x.first)
    (initialClients (approvedInitialClient x.trust x.approval)) = .ok x.begun
  path : Path (OriginStep R reads x.trust x.accepted x.frontiers) x.start x.rest
  perm : (x.rest.map fun e => e.1.1).Perm (otherOrigins x.accepted x.initial)
  order : visitingOrder x.initial x.accepted x.records = x.initial :: x.rest.map fun e => e.1.1
  based : ∀ r ∈ x.records, (x.frontiers.get? r.causalFrontierHash).isSome
  coordination : ∀ r ∈ x.records, validateCoordinationContext R x.clients r = .ok ()
  count : acceptedRecordCount x.accepted = .ok x.records.length

/-- The reading is what a verification returns. -/
structure Reading.Gives (x : Reading) (archive : VerifiedV2Archive) (records : List VerifiedV2Record) : Prop where
  accepted : archive.acceptedFrontier = x.accepted
  frontiers : archive.frontiers = x.frontiers
  clients : archive.clients = x.clients
  count : archive.recordCount = x.records.length
  records : records = x.records

/-- A way of finding segments finds chains. -/
def SegmentReader.Chains (reads : SegmentReader) (R : StoreRuntime) (tree : EventTree) : Prop :=
  ∀ trust key tail segs, reads trust key tail segs → SegmentChain R tree trust key tail 1 none none segs

theorem listed_chains : (Listed R tree).Chains R tree := fun _ _ _ _ ⟨_, _, h, _⟩ => h

theorem addressed_chains : (Addressed R tree).Chains R tree := fun _ _ _ _ h => h.1

variable {reads : SegmentReader} {trust : TrustRoot} {accepted : CausalFrontier} {frontiers : FrontierMap}

theorem OriginStep.keeps {s t : Progress} {b : String × List Segment}
    (h : OriginStep R reads trust accepted frontiers s b t) : s.clients.Keeps t.clients := by
  obtain ⟨client, tail, -, -, -, -, -, happlied, -⟩ := h
  exact applyClientRegistryItems_keeps happlied

theorem OriginStep.visit {s t : Progress} {b : String × List Segment} (hreads : reads.Chains R tree)
    (h : OriginStep R reads trust accepted frontiers s b t) :
    VisitStep R accepted frontiers (fun _ => .start) (fun _ => true) s b.1 t := by
  obtain ⟨client, tail, hclient, htail, -, hsegs, hchecked, happlied, hrecords⟩ := h
  obtain ⟨o, segs⟩ := b
  obtain rfl := (origin?_eq_some htail).2
  exact ⟨recordsOf segs, hrecords, (hreads _ _ _ _ hsegs).block htail fun r hr =>
    validateClientOriginRecord_known (hchecked r hr), happlied, fun _ => ⟨client, hclient, hchecked⟩⟩

/-- The clients only grow along a reading. -/
theorem path_keeps {s : Progress} {p : List ((String × List Segment) × Progress)}
    (h : Path (OriginStep R reads trust accepted frontiers) s p) : s.clients.Keeps (final s p).clients :=
  Path.invariant (P := fun t : Progress => s.clients.Keeps t.clients)
    (fun _ _ _ ht hstep => ht.trans hstep.keeps) (.refl s.clients) h

theorem path_records {s : Progress} {p : List ((String × List Segment) × Progress)}
    (h : Path (OriginStep R reads trust accepted frontiers) s p) :
    (final s p).records = s.records ++ (p.flatMap fun e => recordsOf e.1.2) := by
  induction p generalizing s with
  | nil => exact (List.append_nil _).symm
  | cons e p ih =>
    obtain ⟨_, _, _, _, _, _, _, _, hrecords⟩ := h.1
    rw [final_cons, ih h.2, hrecords, List.flatMap_cons, List.append_assoc]

namespace Shared

variable {x : Reading}

theorem records_eq (h : Shared R tree reads x) : x.records = x.origins.flatMap recordsOf := by
  rw [Reading.records, path_records h.path, Reading.origins, List.flatMap_cons, List.flatMap_map]
  rfl

/-- The blocks of the origins are a history. -/
theorem history (h : Shared R tree reads x) (hreads : reads.Chains R tree) :
    History R x.accepted x.frontiers (fun _ => .start) (fun _ => true)
      (initialClients (approvedInitialClient x.trust x.approval)) [x.initial] x.start
      (x.rest.map fun e => (e.1.1, e.2)) := by
  obtain ⟨tail, htail, hsegs⟩ := h.initial
  have hid := (origin?_eq_some htail).2
  have hchain := hreads _ _ _ _ hsegs
  have hlabels : (x.rest.map fun e => (e.1.1, e.2)).map Prod.fst = x.rest.map fun e => e.1.1 := by
    rw [List.map_map]
    rfl
  refine ⟨Or.inr ⟨x.initial, rfl, ?_⟩, Registered.ofRecords h.begun, ?_, ?_, h.opened.below⟩
  · rw [← hid]
    refine hchain.block (hid ▸ htail) fun r hr => h.based r ?_
    rw [Reading.records, path_records h.path]
    exact List.mem_append_left _ hr
  · have hpath := h.path
    revert hpath
    generalize x.start = s
    generalize x.rest = p
    intro hpath
    induction p generalizing s with
    | nil => trivial
    | cons e p ih => exact ⟨hpath.1.visit hreads, ih _ hpath.2⟩
  · rw [hlabels]
    exact ((h.perm.cons _).nodup_iff).mpr (otherOrigins_nodup h.opened.accepted_nodup)

/-- Which origins are known after some of them. -/
theorem ready (h : Shared R tree reads x) (hreads : reads.Chains R tree)
    {p q : List ((String × List Segment) × Progress)} (hp : x.rest = p ++ q) (o : String) :
    ((final x.start p).clients o).isSome =
      readyAfter (fun o => decide (o = x.initial)) x.records ([x.initial] ++ p.map fun e => e.1.1) o := by
  have history := h.history hreads
  have hfinal : ∀ (s : Progress) (r : List ((String × List Segment) × Progress)),
      final s (r.map fun e => (e.1.1, e.2)) = final s r := by
    intro s r
    induction r generalizing s with
    | nil => rfl
    | cons e r ih => exact ih e.2
  have hmap := congrArg (List.map fun e : (String × List Segment) × Progress => (e.1.1, e.2)) hp
  rw [List.map_append] at hmap
  rw [hmap] at history
  have hready := history.ready_iff initialClients_isSome o
  rw [← hmap, hfinal, hfinal, List.map_map] at hready
  exact hready

end Shared

end ArchiveLedger
