import ArchiveLedger.Journal.History
import ArchiveLedger.Journal.Verifiers

/-!
# Causality and the order of the visits

The verifications go through an archive origin by origin, and not along its causal graph.
Two rules of the event stream are therefore kept only as far as the order of the origins
goes along with them: that a revocation holds against every record from a base after it
(`revocations_respected_iff`), and that a record is projected only after its causal base
(`bases_covered_iff`).
-/

namespace ArchiveLedger

open Outcome Transition

/-! ### Enrollment and revocation -/

/-- Every record but those of the initial client is from a base that contains the enrollment of its
client. -/
def EnrollmentsPrecede (initial : String) (frontiers : FrontierMap) (records : List VerifiedV2Record) :
    Prop :=
  ∀ r ∈ records, r.originId ≠ initial → ∃ base ∈ frontiers.get? r.causalFrontierHash,
    ∃ w ∈ records, w.enrolls r.originId ∧ base.includesDot w.originId w.originSeq

/-- No record of a revoked client is from a base that contains the revocation. -/
def RevocationsRespected (frontiers : FrontierMap) (records : List VerifiedV2Record) : Prop :=
  ∀ w ∈ records, ∀ r ∈ records, w.revokes r.originId →
    ∀ base ∈ frontiers.get? r.causalFrontierHash, ¬ base.includesDot w.originId w.originSeq

/-- The same for the revocations by an origin that is not visited before the client. -/
def LateRevocationsRespected (order : List String) (frontiers : FrontierMap)
    (records : List VerifiedV2Record) : Prop :=
  ∀ w ∈ records, ∀ r ∈ records, w.revokes r.originId → w.originId ∉ visitedBefore order r.originId →
    ∀ base ∈ frontiers.get? r.causalFrontierHash, ¬ base.includesDot w.originId w.originSeq

instance (order : List String) (frontiers : FrontierMap) (records : List VerifiedV2Record) :
    Decidable (LateRevocationsRespected order frontiers records) :=
  inferInstanceAs (Decidable (∀ w ∈ records, ∀ r ∈ records, _ → _ → ∀ base ∈ _, _))

theorem validateClientOriginRecord_eq_ok {client : VerifiedV2Client} {frontiers : FrontierMap}
    {r : VerifiedV2Record} (h : validateClientOriginRecord client frontiers r = .ok ()) :
    ∃ base, frontiers.get? r.causalFrontierHash = some base ∧
      base.includesDot client.approvedOriginId client.approvedOriginSeq ∧
      ∀ o seq, client.revokedOriginId = some o → client.revokedOriginSeq = some seq →
        ¬ base.includesDot o seq := by
  simp only [validateClientOriginRecord, bind_eq_ok, okOr_eq_ok, require_eq_ok] at h
  obtain ⟨base, hbase, _, happroved, hrevoked⟩ := h
  refine ⟨base, hbase, happroved, fun o seq ho hseq => ?_⟩
  rw [ho, hseq] at hrevoked
  simpa using hrevoked

variable {R : StoreRuntime} {tree : EventTree} {accepted : CausalFrontier} {frontiers : FrontierMap}
  {cursors : String → V2OriginCursor} {validated : String → Bool} {known : ClientMap} {initial : String}
  {taken : List String} {s : Progress} {p : List (String × Progress)}

theorem mem_split_history
    (h : History R accepted frontiers cursors validated known taken s p) {r : VerifiedV2Record}
    (hr : r ∈ (final s p).records) :
    r.originId ∈ taken ∨ ∃ q t rest records, p = q ++ (r.originId, t) :: rest ∧ r ∈ records ∧
      OriginVisit R accepted frontiers cursors validated (final s q).clients r.originId records t.clients := by
  obtain ⟨pre, post, hsplit⟩ := List.append_of_mem hr
  rcases h.locate hsplit with ⟨post', hbegun⟩ | ⟨q, t, rest, records, pre', post', hp, hvisit, hrecords, -⟩
  · left
    rcases h.begun with ⟨-, hnil⟩ | ⟨o, rfl, hblock⟩
    · rw [hnil] at hbegun
      cases pre <;> cases hbegun
    · rw [hblock.origin r (by rw [hbegun]; simp)]
      exact List.mem_singleton_self o
  · exact Or.inr ⟨q, t, rest, records, hp, by rw [hrecords]; simp, hvisit⟩

/-- What stands before an origin in the order of a history. -/
theorem History.visitedBefore_eq {q rest : List (String × Progress)} {o : String} {t : Progress}
    (h : History R accepted frontiers cursors validated known taken s (q ++ (o, t) :: rest)) :
    visitedBefore (taken ++ (q ++ (o, t) :: rest).map Prod.fst) o = taken ++ q.map Prod.fst := by
  have hnodup := h.nodup
  rw [List.map_append, List.map_cons, ← List.append_assoc] at hnodup ⊢
  refine visitedBefore_append fun hmem => ?_
  exact List.disjoint_of_nodup_append hnodup hmem (List.mem_cons_self ..)

theorem History.client (h : History R accepted frontiers cursors (fun _ => true) known taken s p)
    {r : VerifiedV2Record} (hr : r ∈ (final s p).records) (hnew : r.originId ∉ taken) :
    ∃ q rest client, p = q ++ rest ∧ (final s q).clients r.originId = some client ∧
      visitedBefore (taken ++ p.map Prod.fst) r.originId = taken ++ q.map Prod.fst ∧
      validateClientOriginRecord client frontiers r = .ok () := by
  rcases mem_split_history h hr with htaken | ⟨q, t, rest, records, rfl, hmem, hvisit⟩
  · exact absurd htaken hnew
  · obtain ⟨client, hclient, hall⟩ := hvisit.client rfl
    exact ⟨q, _, client, rfl, hclient, h.visitedBefore_eq, hall r hmem⟩

variable {archive : VerifiedV2Archive} {records : List VerifiedV2Record}

theorem FullHistory.enrollmentsPrecede (h : FullHistory R archive records) :
    EnrollmentsPrecede archive.genesis.body.initialClientId archive.frontiers records := by
  obtain ⟨known, s, p, history, hfinal, hknown, -, -⟩ := h
  intro r hr hne
  rw [show records = (final s p).records by rw [hfinal]] at hr ⊢
  obtain ⟨q, rest, client, rfl, hclient, -, hchecked⟩ := history.client hr (by simpa using hne)
  obtain ⟨base, hbase, happroved, -⟩ := validateClientOriginRecord_eq_ok hchecked
  have hnone : known r.originId = none := by
    rw [← Option.not_isSome_iff_eq_none, hknown, decide_eq_true_iff]
    exact hne
  obtain ⟨⟨w, item⟩, he, hkind, ho, horigin, hseq⟩ :=
    history.before.registered_final.approved _ _ hnone hclient
  obtain ⟨hw, hitem⟩ := mem_itemsOf.mp he
  refine ⟨base, hbase, w, (history.mem_records_iff.mp hw).1,
    concerns_iff.mpr ⟨item, hitem, hkind, ho⟩, ?_⟩
  rw [← horigin, ← hseq]
  exact happroved

/-- A revocation by an origin that is visited before the client is enforced. -/
theorem FullHistory.early_revocation (h : FullHistory R archive records) {w r : VerifiedV2Record}
    (hw : w ∈ records) (hr : r ∈ records) (hrevokes : w.revokes r.originId)
    (hbefore : w.originId ∈ visitedBefore (visitingOrder archive.genesis.body.initialClientId
      archive.acceptedFrontier records) r.originId) :
    ∀ base ∈ archive.frontiers.get? r.causalFrontierHash, ¬ base.includesDot w.originId w.originSeq := by
  obtain ⟨known, s, p, history, hfinal, -, -, horder⟩ := h
  rw [horder] at hbefore
  rw [show records = (final s p).records by rw [hfinal]] at hw hr
  have hne : r.originId ∉ [archive.genesis.body.initialClientId] := by
    intro hmem
    rw [List.mem_singleton.mp hmem, visitedBefore, List.takeWhile_cons_of_neg (by simp)] at hbefore
    cases hbefore
  obtain ⟨q, rest, client, rfl, hclient, heq, hchecked⟩ := history.client hr hne
  rw [List.singleton_append] at heq
  rw [heq] at hbefore
  have hw' := history.mem_records_iff.mpr ⟨hw, hbefore⟩
  obtain ⟨item, hitem, hkind, ho⟩ := concerns_iff.mp hrevokes
  obtain ⟨b, hb, horigin, hseq⟩ :=
    history.before.registered_final.revoked (w, item) (mem_itemsOf.mpr ⟨hw', hitem⟩) _ hkind ho
  rw [hclient] at hb
  cases hb
  obtain ⟨base, hbase, -, hrevoked⟩ := validateClientOriginRecord_eq_ok hchecked
  intro base' hbase'
  rw [Option.mem_def, hbase] at hbase'
  cases hbase'
  exact hrevoked _ _ horigin hseq

theorem FullHistory.respected_iff (h : FullHistory R archive records) :
    (EnrollmentsPrecede archive.genesis.body.initialClientId archive.frontiers records ∧
        RevocationsRespected archive.frontiers records) ↔
      LateRevocationsRespected (visitingOrder archive.genesis.body.initialClientId
        archive.acceptedFrontier records) archive.frontiers records := by
  constructor
  · intro hall w hw r hr hrevokes _
    exact hall.2 w hw r hr hrevokes
  · intro hlate
    refine ⟨h.enrollmentsPrecede, fun w hw r hr hrevokes => ?_⟩
    by_cases hbefore : w.originId ∈ visitedBefore (visitingOrder archive.genesis.body.initialClientId
        archive.acceptedFrontier records) r.originId
    · exact h.early_revocation hw hr hrevokes hbefore
    · exact hlate w hw r hr hrevokes hbefore

/-- Of the records that a verification accepts, every one of a client but the initial is from a base
that contains the enrollment.  None is from a base that contains the revocation of its client,
exactly when this is so of the revocations by origins that are not visited before the client. -/
theorem revocations_respected_iff (R : StoreRuntime) (tree : EventTree) :
    (∀ archive records, visitVerified R tree = .ok (archive, records) →
      ((EnrollmentsPrecede archive.genesis.body.initialClientId archive.frontiers records ∧
          RevocationsRespected archive.frontiers records) ↔
        LateRevocationsRespected (visitingOrder archive.genesis.body.initialClientId
          archive.acceptedFrontier records) archive.frontiers records)) ∧
      ∀ archive, verify R tree = .ok archive →
        ((EnrollmentsPrecede archive.genesis.body.initialClientId archive.frontiers archive.records ∧
            RevocationsRespected archive.frontiers archive.records) ↔
          LateRevocationsRespected (visitingOrder archive.genesis.body.initialClientId
            archive.acceptedFrontier archive.records) archive.frontiers archive.records) :=
  ⟨fun _ _ h => (visitVerified_history h).respected_iff, fun _ h => (verify_history h).respected_iff⟩

namespace Sample

/-- Client 1 enrolls clients 2 and 3; client 3 revokes client 2, which then goes on from the frontier
with its revocation. -/
def lateRevocation : Archive where
  batches :=
    [⟨1, 0, none, 0, [initialized]⟩, ⟨1, 1, some 0, 1, [enrolled 2, enrolled 3]⟩,
      ⟨3, 0, none, 2, [revoked 2]⟩, ⟨2, 0, none, 3, [observed]⟩]
  frontiers := [⟨[], []⟩, ⟨[0], [0]⟩, ⟨[1], [1]⟩, ⟨[1, 2], [2]⟩, ⟨[1, 3, 2], [3]⟩]

theorem lateRevocation_accepted :
    ∃ out, visitVerified lateRevocation.runtime lateRevocation.tree = .ok out ∧
      decide (¬ LateRevocationsRespected (visitingOrder out.1.genesis.body.initialClientId
        out.1.acceptedFrontier out.2) out.1.frontiers out.2) = true :=
  exists_ok_of_any (by decide +kernel)

theorem lateRevocation_read :
    ∃ archive, verify lateRevocation.runtime lateRevocation.tree = .ok archive ∧ true = true :=
  exists_ok_of_any (by decide +kernel)

theorem lateRevocation_respected_iff :
    (∃ archive records, visitVerified lateRevocation.runtime lateRevocation.tree = .ok (archive, records) ∧
      ((EnrollmentsPrecede archive.genesis.body.initialClientId archive.frontiers records ∧
          RevocationsRespected archive.frontiers records) ↔
        LateRevocationsRespected (visitingOrder archive.genesis.body.initialClientId
          archive.acceptedFrontier records) archive.frontiers records)) ∧
      ∃ archive, verify lateRevocation.runtime lateRevocation.tree = .ok archive ∧
        ((EnrollmentsPrecede archive.genesis.body.initialClientId archive.frontiers archive.records ∧
            RevocationsRespected archive.frontiers archive.records) ↔
          LateRevocationsRespected (visitingOrder archive.genesis.body.initialClientId
            archive.acceptedFrontier archive.records) archive.frontiers archive.records) := by
  obtain ⟨⟨archive, records⟩, h, -⟩ := lateRevocation_accepted
  obtain ⟨read, hread, -⟩ := lateRevocation_read
  exact ⟨⟨archive, records, h, (revocations_respected_iff _ _).1 _ _ h⟩,
    read, hread, (revocations_respected_iff _ _).2 _ hread⟩

/-- The record of a revoked client is accepted although it is from a base with the revocation. -/
theorem lateRevocation_not_respected :
    ¬ ∀ R tree archive records, visitVerified R tree = .ok (archive, records) →
      EnrollmentsPrecede archive.genesis.body.initialClientId archive.frontiers records ∧
        RevocationsRespected archive.frontiers records := by
  intro hall
  obtain ⟨⟨archive, records⟩, h, hlate⟩ := lateRevocation_accepted
  have hrespected := (hall _ _ _ _ h).2
  exact of_decide_eq_true hlate fun w hw r hr hrevokes _ => hrespected w hw r hr hrevokes

end Sample

/-! ### Causal bases -/

/-- Whatever the base of a record contains stands before the cursors or has been yielded before the
record. -/
def BasesCovered (frontiers : FrontierMap) (cursors : String → V2OriginCursor)
    (records : List VerifiedV2Record) : Prop :=
  ∀ pre r post, records = pre ++ r :: post → ∀ base ∈ frontiers.get? r.causalFrontierHash,
    ∀ origin ∈ base.origins, ∀ seq, 0 < seq → seq ≤ origin.seq →
      seq ≤ (cursors origin.originId).appliedSeq ∨
        ∃ w ∈ pre, w.originId = origin.originId ∧ w.originSeq = seq

/-- Beyond the cursors the base of a record names only origins that are visited before its own, and of
its own only earlier records. -/
def BasesBefore (frontiers : FrontierMap) (cursors : String → V2OriginCursor) (order : List String)
    (records : List VerifiedV2Record) : Prop :=
  ∀ r ∈ records, ∀ base ∈ frontiers.get? r.causalFrontierHash, ∀ origin ∈ base.origins,
    (cursors origin.originId).appliedSeq < origin.seq →
      origin.originId ∈ visitedBefore order r.originId ∨
        (origin.originId = r.originId ∧ origin.seq < r.originSeq)

instance (frontiers : FrontierMap) (cursors : String → V2OriginCursor) (order : List String)
    (records : List VerifiedV2Record) : Decidable (BasesBefore frontiers cursors order records) :=
  inferInstanceAs (Decidable (∀ r ∈ records, ∀ base ∈ frontiers.get? r.causalFrontierHash,
    ∀ origin ∈ base.origins, _ → _))

theorem map_eq_range' {α : Type} {f : α → Nat} {pre post : List α} {a : α} {first n : Nat}
    (h : (pre ++ a :: post).map f = List.range' first n) :
    pre.map f = List.range' first pre.length ∧ f a = first + pre.length := by
  have hlength := congrArg List.length h
  rw [List.length_map, List.length_append, List.length_cons, List.length_range'] at hlength
  constructor
  · rw [List.map_append, List.map_cons] at h
    have hsplit := List.range'_eq_append_iff.mp h.symm
    obtain ⟨k, -, hpre, -⟩ := hsplit
    have hk := congrArg List.length hpre
    rw [List.length_map, List.length_range'] at hk
    rw [hpre, hk]
  · have hget := congrArg (fun l => l[pre.length]?) h
    simpa [List.getElem?_range', show pre.length < n by omega] using hget

/-- A block has every record after the cursor. -/
theorem OriginBlock.exists_seq {o : String} {block : List VerifiedV2Record} {tail : OriginFrontier}
    (h : OriginBlock accepted frontiers cursors o block) (htail : accepted.origin? o = some tail) {seq : Nat}
    (hlt : (cursors o).appliedSeq < seq) (hle : seq ≤ tail.seq) :
    ∃ w ∈ block, w.originId = o ∧ w.originSeq = seq := by
  obtain ⟨tail', htail', -, hseqs⟩ := h.seqs
  rw [htail] at htail'
  cases htail'
  have hmem : seq ∈ block.map VerifiedV2Record.originSeq := by
    rw [hseqs, List.mem_range'_1]
    omega
  obtain ⟨w, hw, rfl⟩ := List.mem_map.mp hmem
  exact ⟨w, hw, h.origin w hw, rfl⟩

namespace History

/-- Each origin that was taken has its block among the records. -/
theorem exists_block (h : History R accepted frontiers cursors validated known taken s p) :
    ∀ o ∈ taken ++ p.map Prod.fst, ∃ block ⊆ (final s p).records, OriginBlock accepted frontiers cursors o block := by
  intro o ho
  rcases List.mem_append.mp ho with ho | ho
  · rcases h.begun with ⟨rfl, -⟩ | ⟨o', rfl, hblock⟩
    · cases ho
    · obtain rfl := List.mem_singleton.mp ho
      obtain ⟨more, hmore, -⟩ := records_final (p := []) (q := p) h
      rw [List.nil_append, final_nil] at hmore
      exact ⟨s.records, by rw [hmore]; exact List.subset_append_left _ _, hblock⟩
  · obtain ⟨⟨o', t⟩, hmem, rfl⟩ := List.mem_map.mp ho
    obtain ⟨q, rest, rfl⟩ := List.append_of_mem hmem
    obtain ⟨records, hrecords, hvisit⟩ := h.path.step
    have hlater : History R accepted frontiers cursors validated known taken s ((q ++ [(o', t)]) ++ rest) := by
      rw [List.append_assoc]
      exact h
    obtain ⟨more, hmore, -⟩ := hlater.records_final
    rw [List.append_assoc, List.singleton_append, final_append s q [(o', t)]] at hmore
    refine ⟨records, fun w hw => ?_, hvisit.toOriginBlock⟩
    rw [hmore]
    refine List.mem_append_left _ ?_
    show w ∈ t.records
    rw [hrecords]
    exact List.mem_append_right _ hw

/-- The records before a record are the blocks of the origins before its own and what comes before it
in its own block. -/
theorem place (h : History R accepted frontiers cursors validated known taken s p)
    {pre post : List VerifiedV2Record} {r : VerifiedV2Record} (hsplit : (final s p).records = pre ++ r :: post) :
    ∃ earlier pre' post', pre = earlier ++ pre' ∧
      OriginBlock accepted frontiers cursors r.originId (pre' ++ r :: post') ∧
      (∀ w ∈ earlier, w.originId ∈ visitedBefore (taken ++ p.map Prod.fst) r.originId) ∧
      ∀ o ∈ visitedBefore (taken ++ p.map Prod.fst) r.originId,
        ∃ block ⊆ earlier, OriginBlock accepted frontiers cursors o block := by
  rcases h.locate hsplit with ⟨post', hbegun⟩ | ⟨q, t, rest, records, pre', post', rfl, hvisit, rfl, rfl⟩
  · rcases h.begun with ⟨-, hnil⟩ | ⟨o, rfl, hblock⟩
    · rw [hnil] at hbegun
      cases pre <;> cases hbegun
    · obtain rfl := hblock.origin r (by rw [hbegun]; simp)
      have hnone : visitedBefore ([r.originId] ++ p.map Prod.fst) r.originId = [] := by
        rw [List.singleton_append, visitedBefore, List.takeWhile_cons_of_neg (by simp)]
      rw [hnone]
      exact ⟨[], pre, post', rfl, hbegun ▸ hblock, fun w hw => absurd hw List.not_mem_nil,
        fun o ho => absurd ho List.not_mem_nil⟩
  · rw [h.visitedBefore_eq]
    exact ⟨(final s q).records, pre', post', rfl, hvisit.toOriginBlock, h.before.records_taken,
      h.before.exists_block⟩

theorem covered_iff (h : History R accepted frontiers cursors validated known taken s p) :
    BasesCovered frontiers cursors (final s p).records ↔
      BasesBefore frontiers cursors (taken ++ p.map Prod.fst) (final s p).records := by
  constructor
  · intro hcovered r hr base hbase origin horigin hlt
    obtain ⟨pre, post, hsplit⟩ := List.append_of_mem hr
    obtain ⟨earlier, pre', post', rfl, hblock, hearlier, -⟩ := h.place hsplit
    rcases hcovered _ r post hsplit base hbase origin horigin origin.seq (by omega) le_rfl with
      hle | ⟨w, hw, hid, hseq⟩
    · omega
    · rcases List.mem_append.mp hw with hw | hw
      · left
        rw [← hid]
        exact hearlier w hw
      · right
        obtain ⟨tail, -, -, hseqs⟩ := hblock.seqs
        obtain ⟨hpre, hr'⟩ := map_eq_range' hseqs
        have hmem : w.originSeq ∈ pre'.map VerifiedV2Record.originSeq := List.mem_map_of_mem hw
        rw [hpre, List.mem_range'_1] at hmem
        exact ⟨hid.symm.trans (hblock.origin w (by simp [hw])), by omega⟩
  · intro hbefore pre r post hsplit base hbase origin horigin seq hpos hle
    by_cases hcursor : seq ≤ (cursors origin.originId).appliedSeq
    · exact Or.inl hcursor
    · right
      obtain ⟨earlier, pre', post', rfl, hblock, -, hblocks⟩ := h.place hsplit
      rcases hbefore r (by rw [hsplit]; simp) base hbase origin horigin (by omega) with hmem | ⟨hid, hlt⟩
      · obtain ⟨block, hsub, hother⟩ := hblocks _ hmem
        obtain ⟨tail, htail, hbelow⟩ := h.below _ base hbase origin horigin
        obtain ⟨w, hw, hwid, hwseq⟩ := hother.exists_seq htail (show (cursors _).appliedSeq < seq by omega) (by omega)
        exact ⟨w, List.mem_append_left _ (hsub hw), hwid, hwseq⟩
      · obtain ⟨tail, -, -, hseqs⟩ := hblock.seqs
        obtain ⟨hpre, hr'⟩ := map_eq_range' hseqs
        rw [hid] at hcursor
        have hmem : seq ∈ pre'.map VerifiedV2Record.originSeq := by
          rw [hpre, List.mem_range'_1]
          omega
        obtain ⟨w, hw, rfl⟩ := List.mem_map.mp hmem
        exact ⟨w, List.mem_append_right _ hw, (hblock.origin w (by simp [hw])).trans hid.symm, rfl⟩

end History

/-- A visit yields each record after all that its base contains exactly when the bases name, beyond
the cursors, only what the order of the visits puts first. -/
theorem bases_covered_iff (R : StoreRuntime) (tree : EventTree) :
    (∀ archive records, visitVerified R tree = .ok (archive, records) →
      (BasesCovered archive.frontiers (fun _ => .start) records ↔
        BasesBefore archive.frontiers (fun _ => .start) (visitingOrder archive.genesis.body.initialClientId
          archive.acceptedFrontier records) records)) ∧
      ∀ base cursors trusted archive records,
        visitVerifiedSince R tree base cursors trusted = .ok (archive, records) →
          (BasesCovered archive.frontiers cursors records ↔
            BasesBefore archive.frontiers cursors (visitingOrderSince archive.genesis.body.initialClientId
              trusted cursors archive.acceptedFrontier records) records) := by
  constructor
  · intro archive records h
    obtain ⟨known, s, p, history, hfinal, -, -, horder⟩ := visitVerified_history h
    have hcovered := history.covered_iff
    rw [hfinal] at hcovered
    rw [horder]
    exact hcovered
  · intro base cursors trusted archive records h
    obtain ⟨known, p, history, hfinal, -, horder⟩ := visitVerifiedSince_history h
    have hcovered := history.covered_iff
    rw [hfinal, List.nil_append] at hcovered
    rw [horder]
    exact hcovered

namespace Sample

/-- Client 1 goes on from a frontier that contains a batch of client 2. -/
def interleaved : Archive where
  batches :=
    [⟨1, 0, none, 0, [initialized]⟩, ⟨1, 1, some 0, 1, [enrolled 2]⟩, ⟨2, 0, none, 2, [observed]⟩,
      ⟨1, 2, some 1, 3, [observed]⟩]
  frontiers := [⟨[], []⟩, ⟨[0], [0]⟩, ⟨[1], [1]⟩, ⟨[1, 2], [2]⟩, ⟨[3, 2], [3]⟩]

theorem interleaved_accepted :
    ∃ out, visitVerified interleaved.runtime interleaved.tree = .ok out ∧
      decide (out.1.genesis = genesis ∧ out.1.acceptedFrontier = frontier interleaved.batches ⟨[3, 2], [3]⟩ ∧
        ¬ BasesBefore out.1.frontiers (fun _ => .start) (visitingOrder
          out.1.genesis.body.initialClientId out.1.acceptedFrontier out.2) out.2) = true :=
  exists_ok_of_any (by decide +kernel)

theorem interleaved_accepted_since :
    ∃ out, visitVerifiedSince interleaved.runtime interleaved.tree (frontierId 2)
        (interleaved.cursors ⟨[1], []⟩) (clients [firstClient, enrolledClient 2 1]) = .ok out ∧
      decide (out.2.length = 6) = true :=
  exists_ok_of_any (by decide +kernel)

theorem interleaved_covered_iff :
    (∃ archive records, visitVerified interleaved.runtime interleaved.tree = .ok (archive, records) ∧
      (BasesCovered archive.frontiers (fun _ => .start) records ↔
        BasesBefore archive.frontiers (fun _ => .start) (visitingOrder archive.genesis.body.initialClientId
          archive.acceptedFrontier records) records)) ∧
      ∃ archive records, visitVerifiedSince interleaved.runtime interleaved.tree (frontierId 2)
          (interleaved.cursors ⟨[1], []⟩) (clients [firstClient, enrolledClient 2 1]) =
          .ok (archive, records) ∧
        (BasesCovered archive.frontiers (interleaved.cursors ⟨[1], []⟩) records ↔
          BasesBefore archive.frontiers (interleaved.cursors ⟨[1], []⟩) (visitingOrderSince
            archive.genesis.body.initialClientId (clients [firstClient, enrolledClient 2 1])
            (interleaved.cursors ⟨[1], []⟩) archive.acceptedFrontier records) records) := by
  obtain ⟨⟨archive, records⟩, h, -⟩ := interleaved_accepted
  obtain ⟨⟨since, suffix⟩, hsince, -⟩ := interleaved_accepted_since
  exact ⟨⟨archive, records, h, (bases_covered_iff _ _).1 _ _ h⟩,
    since, suffix, hsince, (bases_covered_iff _ _).2 _ _ _ _ _ hsince⟩

/-- The last batch of client 1 is yielded before the batch of client 2 that its base contains. -/
theorem interleaved_not_covered :
    ¬ ∀ R tree archive records, visitVerified R tree = .ok (archive, records) →
      BasesCovered archive.frontiers (fun _ => .start) records := by
  intro hall
  obtain ⟨⟨archive, records⟩, h, hlate⟩ := interleaved_accepted
  obtain ⟨known, s, p, history, hfinal, -, -, horder⟩ := visitVerified_history h
  have hbefore := history.covered_iff.mp
  rw [hfinal, List.singleton_append, ← horder] at hbefore
  obtain ⟨-, -, hlate⟩ := of_decide_eq_true hlate
  exact hlate (hbefore (hall _ _ _ _ h))

end Sample

end ArchiveLedger
