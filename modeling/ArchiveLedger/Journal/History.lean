import ArchiveLedger.Journal.Graph

/-!
# Histories

What a verification that succeeds has gone through: one origin after the other, each
with all its records after the cursor and with the clients that the origins before it
left (`History`).  Each of the three verifications has such a history
(`visitVerified_history`, `verify_history`, `visitVerifiedSince_history`), and the order
of the origins is the one in which enrollments make them ready (`visitingOrder`).
-/

namespace ArchiveLedger

open Outcome Transition Worklist

/-! ### The order of the visits -/

/-- The origin is known from the start, or a record of an origin already taken enrolls it. -/
def readyAfter (known : String → Bool) (records : List VerifiedV2Record) (taken : List String)
    (o : String) : Bool :=
  known o || records.any fun w => taken.contains w.originId && w.enrolls o

/-- The initial origin and then the others, in the order of their identifiers as far as they are
enrolled by origins that come before. -/
def visitingOrder (initial : String) (accepted : CausalFrontier) (records : List VerifiedV2Record) :
    List String :=
  order (readyAfter (fun o => decide (o = initial)) records) [initial] (otherOrigins accepted initial)

/-- The order of the origins that are visited from a base with these cursors and clients. -/
def visitingOrderSince (initial : String) (clients : ClientMap) (cursors : String → V2OriginCursor)
    (accepted : CausalFrontier) (records : List VerifiedV2Record) : List String :=
  order (readyAfter (fun o => (clients o).isSome || decide (o = initial)) records) []
    (unappliedOrigins accepted cursors)

/-- The origins that stand before an origin. -/
def visitedBefore (order : List String) (o : String) : List String := order.takeWhile fun p => p ≠ o

theorem visitedBefore_append {before after : List String} {o : String} (h : o ∉ before) :
    visitedBefore (before ++ o :: after) o = before := by
  have hbefore : ∀ p ∈ before, decide (p ≠ o) = true := by
    intro p hp
    rw [decide_eq_true_iff]
    rintro rfl
    exact h hp
  unfold visitedBefore
  rw [List.takeWhile_append_of_pos hbefore]
  simp

/-! ### Steps of a history -/

/-- What a verification has after some origins. -/
structure Progress where
  clients : ClientMap
  records : List VerifiedV2Record

def OriginsRead.progress (s : OriginsRead) : Progress := ⟨s.clients, s.records⟩

def Visit.progress (v : Visit) : Progress := ⟨v.clients, v.yielded⟩

variable {R : StoreRuntime} {tree : EventTree} {accepted : CausalFrontier} {frontiers : FrontierMap}
  {cursors : String → V2OriginCursor} {validated : String → Bool}

/-- The next origin. -/
def VisitStep (R : StoreRuntime) (accepted : CausalFrontier) (frontiers : FrontierMap)
    (cursors : String → V2OriginCursor) (validated : String → Bool) (s : Progress) (o : String)
    (t : Progress) : Prop :=
  ∃ records, t.records = s.records ++ records ∧
    OriginVisit R accepted frontiers cursors validated s.clients o records t.clients

/-- A history: it begins with what was read of the origins already taken, and goes on with one origin
after the other. -/
structure History (R : StoreRuntime) (accepted : CausalFrontier) (frontiers : FrontierMap)
    (cursors : String → V2OriginCursor) (validated : String → Bool) (known : ClientMap)
    (taken : List String) (s : Progress) (p : List (String × Progress)) : Prop where
  begun : (taken = [] ∧ s.records = []) ∨
    ∃ o, taken = [o] ∧ OriginBlock accepted frontiers cursors o s.records
  registered : Registered known (itemsOf s.records) s.clients
  path : Path (VisitStep R accepted frontiers cursors validated) s p
  nodup : (taken ++ p.map Prod.fst).Nodup
  below : ∀ k f, frontiers.get? k = some f → f.Below accepted

namespace History

variable {known : ClientMap} {taken : List String} {s : Progress} {p q : List (String × Progress)}

theorem before (h : History R accepted frontiers cursors validated known taken s (p ++ q)) :
    History R accepted frontiers cursors validated known taken s p where
  begun := h.begun
  registered := h.registered
  path := (path_append.mp h.path).1
  nodup := by
    have := h.nodup
    rw [List.map_append, ← List.append_assoc] at this
    exact this.of_append_left
  below := h.below

theorem registered_final (h : History R accepted frontiers cursors validated known taken s p) :
    Registered known (itemsOf (final s p).records) (final s p).clients :=
  Path.invariant (P := fun u : Progress => Registered known (itemsOf u.records) u.clients)
    (fun u o v hu ⟨records, hrecords, hvisit⟩ => by
      rw [hrecords]
      exact hu.records hvisit.applied)
    h.registered h.path

theorem records_final (h : History R accepted frontiers cursors validated known taken s (p ++ q)) :
    ∃ more, (final s (p ++ q)).records = (final s p).records ++ more ∧
      ∀ w ∈ more, w.originId ∈ q.map Prod.fst := by
  obtain ⟨-, hq⟩ := path_append.mp h.path
  rw [final_append]
  revert hq
  generalize final s p = u
  intro hq
  clear h
  induction q generalizing u with
  | nil => exact ⟨[], (List.append_nil _).symm, fun w hw => absurd hw List.not_mem_nil⟩
  | cons e q ih =>
    obtain ⟨records, hrecords, hvisit⟩ := hq.1
    obtain ⟨more, hmore, hids⟩ := ih e.2 hq.2
    refine ⟨records ++ more, by rw [final_cons, hmore, hrecords, List.append_assoc], fun w hw => ?_⟩
    rcases List.mem_append.mp hw with hw | hw
    · rw [hvisit.origin w hw]
      exact List.mem_cons_self ..
    · exact List.mem_cons_of_mem _ (hids w hw)

/-- What has been read is of the origins taken. -/
theorem records_taken (h : History R accepted frontiers cursors validated known taken s p) :
    ∀ w ∈ (final s p).records, w.originId ∈ taken ++ p.map Prod.fst := by
  obtain ⟨more, hmore, hids⟩ := records_final (p := []) (q := p) h
  rw [List.nil_append, final_nil] at hmore
  intro w hw
  rw [hmore, List.mem_append] at hw
  refine List.mem_append.mpr ?_
  rcases hw with hw | hw
  · rcases h.begun with ⟨-, hnil⟩ | ⟨o, rfl, hblock⟩
    · rw [hnil] at hw
      cases hw
    · rw [hblock.origin w hw]
      exact Or.inl (List.mem_singleton_self o)
  · exact Or.inr (hids w hw)

/-- What is read later is of other origins. -/
theorem mem_records_iff (h : History R accepted frontiers cursors validated known taken s (p ++ q))
    {w : VerifiedV2Record} :
    w ∈ (final s p).records ↔
      w ∈ (final s (p ++ q)).records ∧ w.originId ∈ taken ++ p.map Prod.fst := by
  obtain ⟨more, hmore, hids⟩ := h.records_final
  rw [hmore, List.mem_append]
  constructor
  · intro hw
    exact ⟨Or.inl hw, h.before.records_taken w hw⟩
  · rintro ⟨hw | hw, htaken⟩
    · exact hw
    · have hnodup := h.nodup
      rw [List.map_append, ← List.append_assoc] at hnodup
      exact absurd (hids w hw) (List.disjoint_of_nodup_append hnodup htaken)

/-- The clients known after some origins are those that readiness is about. -/
theorem ready_iff (h : History R accepted frontiers cursors validated known taken s (p ++ q))
    {start : String → Bool} (hstart : ∀ o, (known o).isSome = start o) (o : String) :
    ((final s p).clients o).isSome =
      readyAfter start (final s (p ++ q)).records (taken ++ p.map Prod.fst) o := by
  rw [Bool.eq_iff_iff, h.before.registered_final.isSome_iff o, readyAfter, Bool.or_eq_true, hstart,
    List.any_eq_true]
  refine or_congr_right (exists_congr fun w => ?_)
  rw [h.mem_records_iff, Bool.and_eq_true, List.contains_iff_mem, and_assoc]

/-- Where a record stands: at the beginning, or in the block of a visit. -/
theorem locate (h : History R accepted frontiers cursors validated known taken s p)
    {pre post : List VerifiedV2Record} {r : VerifiedV2Record}
    (hsplit : (final s p).records = pre ++ r :: post) :
    (∃ post', s.records = pre ++ r :: post') ∨
      ∃ q t rest records pre' post', p = q ++ (r.originId, t) :: rest ∧
        OriginVisit R accepted frontiers cursors validated (final s q).clients r.originId records t.clients ∧
        records = pre' ++ r :: post' ∧ pre = (final s q).records ++ pre' := by
  induction p using List.reverseRecOn generalizing post with
  | nil => exact Or.inl ⟨post, hsplit⟩
  | append_singleton p e ih =>
    obtain ⟨-, ⟨records, hrecords, hvisit⟩, -⟩ := path_append.mp h.path
    rw [final_append] at hsplit
    change e.2.records = _ at hsplit
    rw [hrecords] at hsplit
    rcases List.append_eq_append_iff.mp hsplit with ⟨pre', hpre, hblock⟩ | ⟨mid, hmid, hrest⟩
    · have hr : r.originId = e.1 := hvisit.origin r (by rw [hblock]; simp)
      refine Or.inr ⟨p, e.2, [], records, pre', post, ?_, ?_, hblock, hpre⟩
      · rw [hr]
      · rw [hr]
        exact hvisit
    · cases mid with
      | nil =>
        rw [List.append_nil] at hmid
        have hr : r.originId = e.1 := hvisit.origin r (by rw [← List.nil_append records, ← hrest]; simp)
        refine Or.inr ⟨p, e.2, [], records, [], post, ?_, ?_, hrest.symm, by rw [List.append_nil, hmid]⟩
        · rw [hr]
        · rw [hr]
          exact hvisit
      | cons w mid =>
        rw [List.cons_append, List.cons.injEq] at hrest
        obtain ⟨rfl, -⟩ := hrest
        rcases ih h.before hmid with hbegun | ⟨q, t, rest, records', pre', post', rfl, hlater⟩
        · exact Or.inl hbegun
        · exact Or.inr ⟨q, t, rest ++ [e], records', pre', post', by simp, hlater⟩

end History

/-! ### Streams -/

/-- What the initial origin is visited with. -/
def initialRange (trust : TrustRoot) (frontiers : FrontierMap) (origin : OriginFrontier) : OriginRange :=
  ⟨trust, trust.initialKey, origin, frontiers, none, true⟩

/-- The clients before anything is read. -/
def initialClients (client : VerifiedV2Client) : ClientMap := ClientMap.insert (fun _ => none) client

theorem initialClients_isSome {client : VerifiedV2Client} (o : String) :
    (initialClients client o).isSome = decide (o = client.clientId) := by
  unfold initialClients ClientMap.insert
  by_cases h : o = client.clientId
  · subst h
    simp
  · rw [Function.update_of_ne h, decide_eq_false h]
    rfl

/-- A visit after the initial origin. -/
def Visit.begin (w : RangeVisit) (initial : String) (approval : String × Nat) : Visit :=
  ⟨approveInitialClient w.clients initial approval, w.retainedStarts, w.yielded, w.segments⟩

theorem Visit.begin_eq {w : RangeVisit} {initial : String} {approval : String × Nat} (clients : ClientMap) :
    Visit.begin w initial approval =
      { Visit.after ⟨clients, [], [], 0⟩ w with clients := approveInitialClient w.clients initial approval } := by
  simp [Visit.begin, Visit.after]

/-- The archive that a visit has verified. -/
def Visit.archive (v : Visit) (trust : TrustRoot) (accepted : CausalFrontier) (frontiers : FrontierMap) :
    VerifiedV2Archive :=
  ⟨trust.genesis, trust.genesisHash, accepted, trust.acceptedFrontierHash, v.retainedStarts,
    v.yielded.length, v.clients, frontiers, v.segments, frontiers.length⟩

/-- The reading that the verifications begin with. -/
structure Opened (R : StoreRuntime) (tree : EventTree) (trust : TrustRoot) (accepted : CausalFrontier)
    (frontiers : FrontierMap) : Prop where
  root : readTrustRoot R tree = .ok trust
  graph : loadFrontierGraph R tree trust (graphDepth tree) [] trust.acceptedFrontierHash = .ok frontiers
  head : frontiers.get? trust.acceptedFrontierHash = some accepted

theorem Opened.below {trust : TrustRoot} (h : Opened R tree trust accepted frontiers) :
    ∀ k f, frontiers.get? k = some f → f.Below accepted :=
  (loadFrontierGraph_below h.graph h.head).2

theorem Opened.accepted_nodup {trust : TrustRoot} (h : Opened R tree trust accepted frontiers) :
    (accepted.origins.map OriginFrontier.originId).Nodup :=
  CausalFrontier.validate_nodup (readFrontier_validate
    ((loadFrontierGraph_below h.graph h.head).1 _ _ h.head))

theorem visitVerified_eq_ok {out : VerifiedV2Archive × List VerifiedV2Record} :
    visitVerified R tree = .ok out ↔
      ∃ trust accepted frontiers origin w approval v count, Opened R tree trust accepted frontiers ∧
        accepted.origin? trust.genesis.body.initialClientId = some origin ∧
        visitOriginRange R tree (initialRange trust frontiers origin) .start
          (initialClients (unapprovedInitialClient trust)) [] = .ok w ∧
        w.archiveInitializedAt = some approval ∧
        drain (visitPending R tree trust accepted frontiers (fun _ => .start) (fun _ => true))
          (untrustedOrigins "accepted") (otherOrigins accepted trust.genesis.body.initialClientId).length
          (.begin w trust.genesis.body.initialClientId approval)
          (otherOrigins accepted trust.genesis.body.initialClientId) = .ok v ∧
        acceptedRecordCount accepted = .ok count ∧ v.yielded.length = count ∧
        out = (v.archive trust accepted frontiers, v.yielded) := by
  simp only [visitVerified, acceptedFrontierOf, initialOriginOf, bind_eq_ok, okOr_eq_ok, require_eq_ok,
    Prod.exists, Visit.range_eq_ok, Except.ok.injEq]
  constructor
  · rintro ⟨trust, htrust, frontiers, hgraph, accepted, haccepted, origin, horigin, v₀, init,
      ⟨w, hw, hout⟩, approval, seq, hinit, v, hdrain, count, hcount, _, hlength, rfl⟩
    cases hout
    exact ⟨trust, accepted, frontiers, origin, w, approval, seq, v, count, ⟨htrust, hgraph, haccepted⟩, horigin,
      hw, hinit, by rw [Visit.begin_eq]; exact hdrain, hcount, hlength, rfl⟩
  · rintro ⟨trust, accepted, frontiers, origin, w, approval, seq, v, count, hopened, horigin, hw, hinit, hdrain,
      hcount, hlength, rfl⟩
    rw [Visit.begin_eq (initialClients (unapprovedInitialClient trust))] at hdrain
    exact ⟨trust, hopened.root, frontiers, hopened.graph, accepted, hopened.head, origin, horigin, _, _,
      ⟨w, hw, rfl⟩, approval, seq, hinit, v, hdrain, count, hcount, (), hlength, rfl⟩

/-! ### The histories of the verifications -/

/-- The history of all records of an archive: the initial origin comes first. -/
def FullHistory (R : StoreRuntime) (archive : VerifiedV2Archive) (records : List VerifiedV2Record) : Prop :=
  ∃ known s p,
    History R archive.acceptedFrontier archive.frontiers (fun _ => .start) (fun _ => true) known
      [archive.genesis.body.initialClientId] s p ∧
    final s p = ⟨archive.clients, records⟩ ∧
    (∀ o, (known o).isSome = decide (o = archive.genesis.body.initialClientId)) ∧
    (p.map Prod.fst).Perm (otherOrigins archive.acceptedFrontier archive.genesis.body.initialClientId) ∧
    visitingOrder archive.genesis.body.initialClientId archive.acceptedFrontier records =
      archive.genesis.body.initialClientId :: p.map Prod.fst

theorem otherOrigins_nodup {initial : String}
    (h : (accepted.origins.map OriginFrontier.originId).Nodup) :
    (initial :: otherOrigins accepted initial).Nodup := by
  unfold otherOrigins
  refine List.nodup_cons.mpr ⟨fun hmem => ?_, h.sublist (List.filter_sublist.map _)⟩
  obtain ⟨origin, horigin, hid⟩ := List.mem_map.mp hmem
  have := (List.mem_filter.mp horigin).2
  rw [decide_eq_true_iff] at this
  exact this hid

/-- The path of a worklist that took the initial origin first. -/
theorem path_of_drain {σ : Type} {serve : σ → String → Option (StoreResult σ)}
    {stuck : List String → V2StoreError} {initial : String} {records : List VerifiedV2Record}
    (look : σ → Progress) {known : ClientMap} {s t : σ}
    (hdrain : drain serve stuck (otherOrigins accepted initial).length s (otherOrigins accepted initial) = .ok t)
    (hstep : ∀ s o t, Serves serve s o t → VisitStep R accepted frontiers (fun _ => .start) (fun _ => true)
      (look s) o (look t))
    (hready : ∀ s o, (serve s o).isSome = ((look s).clients o).isSome)
    (hblock : OriginBlock accepted frontiers (fun _ => .start) initial (look s).records)
    (hregistered : Registered known (itemsOf (look s).records) (look s).clients)
    (hknown : ∀ o, (known o).isSome = decide (o = initial))
    (hnodup : (accepted.origins.map OriginFrontier.originId).Nodup)
    (hbelow : ∀ k f, frontiers.get? k = some f → f.Below accepted) (hrecords : (look t).records = records) :
    ∃ p, Path (Serves serve) s p ∧ final s p = t ∧ (p.map Prod.fst).Perm (otherOrigins accepted initial) ∧
      visitingOrder initial accepted records = initial :: p.map Prod.fst ∧
      History R accepted frontiers (fun _ => .start) (fun _ => true) known [initial] (look s)
        (p.map fun e => (e.1, look e.2)) := by
  obtain ⟨p, hp, rfl, hperm, hnote⟩ := drain_order hdrain
  have hlabels : ∀ q : List (String × σ),
      (q.map fun e => (e.1, look e.2)).map Prod.fst = q.map Prod.fst := by
    intro q
    rw [List.map_map]
    rfl
  have history : History R accepted frontiers (fun _ => .start) (fun _ => true) known [initial] (look s)
      (p.map fun e => (e.1, look e.2)) := by
    refine ⟨Or.inr ⟨_, rfl, hblock⟩, hregistered, hp.map look hstep, ?_, hbelow⟩
    rw [hlabels]
    exact ((hperm.cons _).nodup_iff).mpr (otherOrigins_nodup hnodup)
  refine ⟨p, hp, rfl, hperm, order_eq hnote fun q r hq o _ => ?_, history⟩
  subst hq
  rw [List.map_append] at history
  have hq := history.ready_iff hknown o
  rw [← List.map_append, final_map, final_map, hrecords, hlabels] at hq
  rw [hready, hq]

theorem fullHistory_of_path {σ : Type} {archive : VerifiedV2Archive} {records : List VerifiedV2Record}
    (look : σ → Progress) {known : ClientMap} {s t : σ} {p : List (String × σ)} (hfinal : final s p = t)
    (hperm : (p.map Prod.fst).Perm (otherOrigins archive.acceptedFrontier archive.genesis.body.initialClientId))
    (horder : visitingOrder archive.genesis.body.initialClientId archive.acceptedFrontier records =
      archive.genesis.body.initialClientId :: p.map Prod.fst)
    (history : History R archive.acceptedFrontier archive.frontiers (fun _ => .start) (fun _ => true) known
      [archive.genesis.body.initialClientId] (look s) (p.map fun e => (e.1, look e.2)))
    (hknown : ∀ o, (known o).isSome = decide (o = archive.genesis.body.initialClientId))
    (hlook : look t = ⟨archive.clients, records⟩) : FullHistory R archive records := by
  have hlabels : (p.map fun e => (e.1, look e.2)).map Prod.fst = p.map Prod.fst := by
    rw [List.map_map]
    rfl
  refine ⟨known, look s, _, history, ?_, hknown, by rwa [hlabels], by rwa [hlabels]⟩
  rw [final_map, hfinal, hlook]

theorem visitVerified_history {archive : VerifiedV2Archive} {yielded : List VerifiedV2Record}
    (h : visitVerified R tree = .ok (archive, yielded)) : FullHistory R archive yielded := by
  obtain ⟨trust, accepted, frontiers, origin, w, approval, v, count, hopened, horigin, hw, -, hdrain, -, -, hout⟩ :=
    visitVerified_eq_ok.mp h
  cases hout
  obtain ⟨hid, hle, hseqs, hbased, happlied, -⟩ := visitOriginRange_visit rfl hw
  have hinitial := (origin?_eq_some horigin).2
  have hknown : ∀ o, (initialClients (unapprovedInitialClient trust) o).isSome =
      decide (o = trust.genesis.body.initialClientId) := initialClients_isSome
  have hregistered := Registered.ofRecords happlied
  have happroved : ∀ o, (approveInitialClient (initialClients (unapprovedInitialClient trust))
      trust.genesis.body.initialClientId approval o).isSome =
        decide (o = trust.genesis.body.initialClientId) := by
    intro o
    rw [approveInitialClient_isSome]
    exact hknown o
  obtain ⟨p, -, hfinal, hperm, horder, history⟩ := path_of_drain
    Visit.progress hdrain
    (fun s o t hst => visitPending_visit hst) (fun s o => visitPending_isSome)
    ⟨fun r hr => (hid r hr).trans hinitial, ⟨origin, horigin, hle, hseqs⟩, hbased⟩
    (hregistered.approve (by rw [hknown]; exact decide_eq_true rfl) approval) happroved
    hopened.accepted_nodup hopened.below rfl
  exact fullHistory_of_path Visit.progress hfinal hperm horder history happroved rfl

/-! ### Whole origins -/

variable {trust : TrustRoot}

theorem verifyOrigin_eq_ok {key : Bytes} {tail : OriginFrontier} {out : List VerifiedV2Record × Nat} :
    verifyOrigin R tree trust key tail = .ok out ↔
      ∃ entries segs, readSortedFiles tree (manifestDirectory tail.originId) ".manifest.json" = .ok entries ∧
        SegmentChain R tree trust key tail 1 none none segs ∧ segs.map Segment.path <+: entries ∧
        out = (recordsOf segs, segs.length) := by
  simp only [verifyOrigin, bind_eq_ok, require_eq_ok, Prod.exists, Except.ok.injEq, verifySegments_eq_ok]
  constructor
  · rintro ⟨entries, hentries, _, -, records, segments, ⟨segs, hchain, hbegins, rfl, rfl⟩, _, -, rfl⟩
    exact ⟨entries, segs, hentries, hchain, hbegins, rfl⟩
  · rintro ⟨entries, segs, hentries, hchain, hbegins, rfl⟩
    have htotal := hchain.total
    have hle := hchain.le_tail
    refine ⟨entries, hentries, (), ?_, recordsOf segs, segs.length, ⟨segs, hchain, hbegins, rfl, rfl⟩, (), ?_, rfl⟩
    · rintro rfl
      rw [List.prefix_nil, List.map_eq_nil_iff] at hbegins
      subst hbegins
      cases hchain
    · rw [← List.getLast?_map, hchain.seqs, List.getLast?_range', if_neg (by omega)]
      congr 1
      omega

/-- The block of an origin that was read as a whole. -/
theorem SegmentChain.block {key : Bytes} {tail : OriginFrontier} {segs : List Segment}
    (hchain : SegmentChain R tree trust key tail 1 none none segs)
    (htail : accepted.origin? tail.originId = some tail)
    (hbased : ∀ r ∈ recordsOf segs, (frontiers.get? r.causalFrontierHash).isSome) :
    OriginBlock accepted frontiers (fun _ => .start) tail.originId (recordsOf segs) where
  origin := hchain.origin
  seqs := by
    have htotal := hchain.total
    refine ⟨tail, htail, Nat.zero_le _, ?_⟩
    rw [hchain.seqs]
    show List.range' 1 _ = List.range' 1 tail.seq
    congr 1
    omega
  based := hbased

theorem validateClientOriginRecords_eq_ok {records : List VerifiedV2Record} {client : VerifiedV2Client} :
    validateClientOriginRecords records client frontiers = .ok () ↔
      records ≠ [] ∧ ∀ r ∈ records, validateClientOriginRecord client frontiers r = .ok () := by
  simp only [validateClientOriginRecords, bind_eq_ok, require_eq_ok, forM_eq_ok]
  constructor
  · rintro ⟨_, hne, h⟩
    exact ⟨hne, h⟩
  · rintro ⟨hne, h⟩
    exact ⟨(), hne, h⟩

theorem validateClientOriginRecord_known {client : VerifiedV2Client} {r : VerifiedV2Record}
    (h : validateClientOriginRecord client frontiers r = .ok ()) :
    (frontiers.get? r.causalFrontierHash).isSome := by
  simp only [validateClientOriginRecord, bind_eq_ok, okOr_eq_ok] at h
  obtain ⟨base, hbase, -⟩ := h
  rw [hbase]
  rfl

theorem verifyPending_eq_ok {s t : OriginsRead} {o : String} :
    verifyPending R tree trust accepted frontiers s o = some (.ok t) ↔
      ∃ client origin records segments clients, s.clients o = some client ∧
        accepted.origin? o = some origin ∧ R.validKey client.publicKey ∧
        verifyOrigin R tree trust client.publicKey origin = .ok (records, segments) ∧
        validateClientOriginRecords records client frontiers = .ok () ∧
        applyClientRegistryItems R records s.clients = .ok clients ∧
        t = ⟨clients, s.records ++ records, s.segments + segments⟩ := by
  simp only [verifyPending, Option.map_eq_some_iff, bind_eq_ok, okOr_eq_ok, require_eq_ok, Prod.exists,
    Except.ok.injEq]
  constructor
  · rintro ⟨client, hclient, origin, horigin, _, hkey, records, segments, hrecords, _, hchecked, clients,
      hclients, rfl⟩
    exact ⟨client, origin, records, segments, clients, hclient, horigin, hkey, hrecords, hchecked, hclients, rfl⟩
  · rintro ⟨client, origin, records, segments, clients, hclient, horigin, hkey, hrecords, hchecked, hclients, rfl⟩
    exact ⟨client, hclient, origin, horigin, (), hkey, records, segments, hrecords, (), hchecked, clients,
      hclients, rfl⟩

theorem verifyPending_visit {s t : OriginsRead} {o : String}
    (h : verifyPending R tree trust accepted frontiers s o = some (.ok t)) :
    VisitStep R accepted frontiers (fun _ => .start) (fun _ => true) ⟨s.clients, s.records⟩ o
      ⟨t.clients, t.records⟩ := by
  obtain ⟨client, origin, records, segments, clients, hclient, horigin, -, hrecords, hchecked, hclients, rfl⟩ :=
    verifyPending_eq_ok.mp h
  obtain ⟨-, segs, -, hchain, -, hout⟩ := verifyOrigin_eq_ok.mp hrecords
  cases hout
  obtain rfl := (origin?_eq_some horigin).2
  have hall := (validateClientOriginRecords_eq_ok.mp hchecked).2
  exact ⟨recordsOf segs, rfl,
    hchain.block horigin fun r hr => validateClientOriginRecord_known (hall r hr),
    hclients, fun _ => ⟨client, hclient, hall⟩⟩

theorem verifyPending_isSome {s : OriginsRead} {o : String} :
    (verifyPending R tree trust accepted frontiers s o).isSome = (s.clients o).isSome := by
  rw [verifyPending, Option.isSome_map]

/-- The initial client once its approval has been found. -/
def approvedInitialClient (trust : TrustRoot) (approval : VerifiedV2Record) : VerifiedV2Client :=
  { initialClient trust.genesis.body.initialClientId trust.initialKey approval.originSeq with
    approvedOriginId := approval.originId }

/-- The archive that was read as a whole. -/
def OriginsRead.archive (s : OriginsRead) (trust : TrustRoot) (accepted : CausalFrontier)
    (frontiers : FrontierMap) (count : Nat) : VerifiedV2Archive :=
  ⟨trust.genesis, trust.genesisHash, accepted, trust.acceptedFrontierHash, s.records, count, s.clients,
    frontiers, s.segments, frontiers.length⟩

theorem verify_eq_ok {out : VerifiedV2Archive} :
    verify R tree = .ok out ↔
      ∃ trust accepted frontiers origin records segments approval clients s count,
        Opened R tree trust accepted frontiers ∧
        accepted.origin? trust.genesis.body.initialClientId = some origin ∧
        verifyOrigin R tree trust trust.initialKey origin = .ok (records, segments) ∧
        records.find? (recordContainsItemKind · "archive_initialized") = some approval ∧
        applyClientRegistryItems R records (initialClients (approvedInitialClient trust approval)) =
          .ok clients ∧
        drain (verifyPending R tree trust accepted frontiers) (untrustedOrigins "accepted")
          (otherOrigins accepted trust.genesis.body.initialClientId).length ⟨clients, records, segments⟩
          (otherOrigins accepted trust.genesis.body.initialClientId) = .ok s ∧
        (∀ r ∈ s.records, (frontiers.get? r.causalFrontierHash).isSome) ∧
        validateCoordinationContexts R s.records s.clients = .ok () ∧ verifyBatches R s.records = .ok () ∧
        acceptedRecordCount accepted = .ok count ∧ out = s.archive trust accepted frontiers count := by
  simp only [verify, acceptedFrontierOf, initialOriginOf, bind_eq_ok, okOr_eq_ok, require_eq_ok, forM_eq_ok,
    Prod.exists, Except.ok.injEq]
  constructor
  · rintro ⟨trust, htrust, frontiers, hgraph, accepted, haccepted, origin, horigin, records, segments, hrecords,
      approval, happroval, clients, hclients, s, hdrain, _, hbased, _, hcoordination, _, hbatches, count, hcount,
      rfl⟩
    exact ⟨trust, accepted, frontiers, origin, records, segments, approval, clients, s, count,
      ⟨htrust, hgraph, haccepted⟩, horigin, hrecords, happroval, hclients, hdrain, hbased, hcoordination, hbatches,
      hcount, rfl⟩
  · rintro ⟨trust, accepted, frontiers, origin, records, segments, approval, clients, s, count, hopened, horigin,
      hrecords, happroval, hclients, hdrain, hbased, hcoordination, hbatches, hcount, rfl⟩
    exact ⟨trust, hopened.root, frontiers, hopened.graph, accepted, hopened.head, origin, horigin, records,
      segments, hrecords, approval, happroval, clients, hclients, s, hdrain, (), hbased, (), hcoordination, (),
      hbatches, count, hcount, rfl⟩

theorem verify_history {archive : VerifiedV2Archive} (h : verify R tree = .ok archive) :
    FullHistory R archive archive.records := by
  obtain ⟨trust, accepted, frontiers, origin, records, segments, approval, clients, s, count, hopened, horigin,
    hrecords, -, hclients, hdrain, hbased, -, -, -, rfl⟩ := verify_eq_ok.mp h
  obtain ⟨-, segs, -, hchain, -, hout⟩ := verifyOrigin_eq_ok.mp hrecords
  cases hout
  have hinitial := (origin?_eq_some horigin).2
  rw [← hinitial] at horigin
  have hregistered := Registered.ofRecords hclients
  have hsub : ∀ r ∈ recordsOf segs, r ∈ s.records := by
    obtain ⟨p, hp, rfl, -⟩ := drain_order hdrain
    exact Path.invariant (P := fun u : OriginsRead => ∀ r ∈ recordsOf segs, r ∈ u.records)
      (fun u o v hu huv r hr => by
        obtain ⟨more, hmore, -⟩ := verifyPending_visit huv
        show r ∈ v.records
        rw [show v.records = u.records ++ more from hmore]
        exact List.mem_append_left _ (hu r hr))
      (fun r hr => hr) hp
  have hblock : OriginBlock accepted frontiers (fun _ => .start) trust.genesis.body.initialClientId
      (recordsOf segs) := by
    rw [← hinitial]
    exact hchain.block horigin fun r hr => hbased r (hsub r hr)
  obtain ⟨p, -, hfinal, hperm, horder, history⟩ := path_of_drain
    OriginsRead.progress hdrain
    (fun s o t hst => verifyPending_visit hst) (fun s o => verifyPending_isSome) hblock
    hregistered initialClients_isSome hopened.accepted_nodup hopened.below rfl
  exact fullHistory_of_path OriginsRead.progress hfinal hperm horder history
    initialClients_isSome rfl

/-! ### From an earlier frontier -/

/-- The clients that a visit from a base begins with. -/
def sinceClients (trust : TrustRoot) (trusted : ClientMap) : ClientMap :=
  if (trusted trust.genesis.body.initialClientId).isSome then trusted
  else trusted.insert (unapprovedInitialClient trust)

theorem sinceClients_isSome {trusted : ClientMap} (o : String) :
    (sinceClients trust trusted o).isSome =
      ((trusted o).isSome || decide (o = trust.genesis.body.initialClientId)) := by
  unfold sinceClients
  split
  · rename_i h
    by_cases ho : o = trust.genesis.body.initialClientId
    · subst ho
      rw [h, Bool.true_or]
    · rw [decide_eq_false ho, Bool.or_false]
  · by_cases ho : o = trust.genesis.body.initialClientId
    · subst ho
      rw [decide_eq_true rfl, Bool.or_true]
      show (Function.update trusted _ _ _).isSome = true
      rw [unapprovedInitialClient, initialClient, Function.update_self]
      rfl
    · show (Function.update trusted trust.genesis.body.initialClientId _ o).isSome = _
      rw [Function.update_of_ne ho, decide_eq_false ho, Bool.or_false]

theorem visitVerifiedSince_eq_ok {base : String} {trusted : ClientMap}
    {out : VerifiedV2Archive × List VerifiedV2Record} :
    visitVerifiedSince R tree base cursors trusted = .ok out ↔
      ∃ trust found frontiers accepted v, isBlake3Identifier base ∧ readTrustRoot R tree = .ok trust ∧
        loadFrontierPathToBase R tree trust base (graphDepth tree) [] trust.acceptedFrontierHash =
          .ok (found, frontiers) ∧
        (frontiers.get? base).isSome ∧ frontiers.get? trust.acceptedFrontierHash = some accepted ∧
        (∀ origin ∈ accepted.origins, checkCursor origin (cursors origin.originId) = .ok ()) ∧
        drain (visitPending R tree trust accepted frontiers cursors
            (fun o => decide (o ≠ trust.genesis.body.initialClientId)))
          (untrustedOrigins "unapplied") (unappliedOrigins accepted cursors).length
          ⟨sinceClients trust trusted, [], [], 0⟩ (unappliedOrigins accepted cursors) = .ok v ∧
        out = (v.archive trust accepted frontiers, v.yielded) := by
  simp only [visitVerifiedSince, validateBlake3Id, acceptedFrontierOf, bind_eq_ok, okOr_eq_ok, require_eq_ok,
    forM_eq_ok, Prod.exists, Except.ok.injEq]
  constructor
  · rintro ⟨_, hbase, trust, htrust, found, frontiers, hgraph, _, hfound, accepted, haccepted, _, hcursors, v,
      hdrain, rfl⟩
    exact ⟨trust, found, frontiers, accepted, v, hbase, htrust, hgraph, hfound, haccepted, hcursors, hdrain, rfl⟩
  · rintro ⟨trust, found, frontiers, accepted, v, hbase, htrust, hgraph, hfound, haccepted, hcursors, hdrain, rfl⟩
    exact ⟨(), hbase, trust, htrust, found, frontiers, hgraph, (), hfound, accepted, haccepted, (), hcursors, v,
      hdrain, rfl⟩

theorem unappliedOrigins_nodup (h : (accepted.origins.map OriginFrontier.originId).Nodup) :
    (unappliedOrigins accepted cursors).Nodup := h.sublist (List.filter_sublist.map _)

/-- The history of the records after the cursors. -/
def HistorySince (R : StoreRuntime) (cursors : String → V2OriginCursor) (trusted : ClientMap)
    (archive : VerifiedV2Archive) (records : List VerifiedV2Record) : Prop :=
  ∃ known p,
    History R archive.acceptedFrontier archive.frontiers cursors
      (fun o => decide (o ≠ archive.genesis.body.initialClientId)) known [] ⟨known, []⟩ p ∧
    final ⟨known, []⟩ p = ⟨archive.clients, records⟩ ∧
    (p.map Prod.fst).Perm (unappliedOrigins archive.acceptedFrontier cursors) ∧
    visitingOrderSince archive.genesis.body.initialClientId trusted cursors archive.acceptedFrontier records =
      p.map Prod.fst

theorem visitVerifiedSince_history {base : String} {trusted : ClientMap} {archive : VerifiedV2Archive}
    {yielded : List VerifiedV2Record}
    (h : visitVerifiedSince R tree base cursors trusted = .ok (archive, yielded)) :
    HistorySince R cursors trusted archive yielded := by
  obtain ⟨trust, found, frontiers, accepted, v, -, -, hgraph, -, haccepted, -, hdrain, hout⟩ :=
    visitVerifiedSince_eq_ok.mp h
  cases hout
  have hloaded := loadFrontierPathToBase_below hgraph haccepted
  have hnodup : (accepted.origins.map OriginFrontier.originId).Nodup :=
    CausalFrontier.validate_nodup (readFrontier_validate (hloaded.1 _ _ haccepted))
  obtain ⟨p, hp, rfl, hperm, hnote⟩ := drain_order hdrain
  have hlabels : ∀ q : List (String × Visit),
      (q.map fun e => (e.1, e.2.progress)).map Prod.fst = q.map Prod.fst := by
    intro q
    rw [List.map_map]
    rfl
  let start : Visit := ⟨sinceClients trust trusted, [], [], 0⟩
  have history : History R accepted frontiers cursors
      (fun o => decide (o ≠ trust.genesis.body.initialClientId)) (sinceClients trust trusted) []
      start.progress (p.map fun e => (e.1, e.2.progress)) := by
    refine ⟨Or.inl ⟨rfl, rfl⟩, .nil _, ?_, ?_, hloaded.2⟩
    · exact hp.map Visit.progress fun s o t hst => visitPending_visit hst
    · rw [hlabels, List.nil_append]
      exact hperm.nodup_iff.mpr (unappliedOrigins_nodup hnodup)
  refine ⟨sinceClients trust trusted, _, history, final_map Visit.progress start p,
    by rw [hlabels]; exact hperm, ?_⟩
  rw [hlabels]
  refine order_eq hnote fun q r hq o _ => ?_
  subst hq
  rw [List.map_append] at history
  have hready := history.ready_iff sinceClients_isSome o
  rw [← List.map_append, final_map Visit.progress start, final_map Visit.progress start, hlabels] at hready
  rw [visitPending_isSome]
  exact hready

end ArchiveLedger
