import ArchiveLedger.Journal.Clients

/-!
# Batches in streams and batches by identifier

Two readings of the batches of a list of records.  `validateStreamedBatchRecord` takes the
records as they come: each batch is a start, its chunks and its completion, one after the
other (`streamed_iff`).  `verifyBatches` gathers the records of each identifier wherever
they stand.  Of records that come in whole batches it asks the same and that no two of the
batches have one identifier (`verifyBatches_whole_iff`).
-/

namespace ArchiveLedger

open Outcome Transition

/-- A start, the chunks that follow it and their completion. -/
structure WholeBatch where
  start : VerifiedV2Record
  chunks : List VerifiedV2Record
  complete : VerifiedV2Record
  start_kind : start.kind = .batchStart
  chunk_kind : ∀ c ∈ chunks, c.kind = .batchChunk ∧ c.batchId = start.batchId
  complete_kind : complete.kind = .batchComplete ∧ complete.batchId = start.batchId

namespace WholeBatch

def records (b : WholeBatch) : List VerifiedV2Record := b.start :: b.chunks ++ [b.complete]

/-- The same records as they are gathered by identifier. -/
def gathered (b : WholeBatch) : BatchRecords := ⟨b.start.batchId, some b.start, b.chunks, some b.complete⟩

/-- The chunks are what the completion says. -/
def Valid (R : StoreRuntime) (b : WholeBatch) : Prop :=
  ∃ v w, validateBatchStart b.start = .ok v ∧ commitAll acceptRecordChunk v b.chunks = .ok w ∧
    validateBatchCompletion R w b.complete = .ok ()

end WholeBatch

/-- The records of some batches, one after the other. -/
def batchedRecords (batches : List WholeBatch) : List VerifiedV2Record := batches.flatMap WholeBatch.records

/-- The records come in whole batches. -/
def InWholeBatches (records : List VerifiedV2Record) : Prop := ∃ batches, records = batchedRecords batches

variable {R : StoreRuntime}

/-! ### Streams -/

theorem validateBatchStart_batchId {r : VerifiedV2Record} {v : BatchValidator}
    (h : validateBatchStart r = .ok v) : v.batchId = r.batchId := by
  simp only [validateBatchStart, BatchValidator.new, bind_eq_ok, mapError_eq_ok, Except.ok.injEq] at h
  obtain ⟨-, -, -, -, -, -, -, -, rfl⟩ := h
  rfl

theorem acceptRecordChunk_batchId {v w : BatchValidator} {r : VerifiedV2Record}
    (h : acceptRecordChunk v r = .ok w) : w.batchId = v.batchId := by
  simp only [acceptRecordChunk, BatchValidator.acceptChunk, bind_eq_ok, mapError_eq_ok, Except.ok.injEq] at h
  obtain ⟨-, -, -, -, -, -, -, -, -, -, -, -, -, -, -, -, rfl⟩ := h
  rfl

/-- What a record can do to the batch that is open. -/
theorem validateStreamedBatchRecord_cases {active next : Option BatchValidator} {r : VerifiedV2Record}
    (h : validateStreamedBatchRecord R active r = .ok next) :
    (r.kind = .batchStart ∧ active = none ∧ ∃ v, validateBatchStart r = .ok v ∧ next = some v) ∨
      (r.kind = .batchChunk ∧ ∃ v w, active = some v ∧ v.batchId = r.batchId ∧
        acceptRecordChunk v r = .ok w ∧ next = some w) ∨
      (r.kind = .batchComplete ∧ ∃ v, active = some v ∧ v.batchId = r.batchId ∧
        validateBatchCompletion R v r = .ok () ∧ next = none) := by
  unfold validateStreamedBatchRecord at h
  split at h
  · rename_i hkind
    simp only [bind_eq_ok, require_eq_ok, Except.ok.injEq] at h
    obtain ⟨_, hnone, v, hv, rfl⟩ := h
    exact Or.inl ⟨hkind, Option.isNone_iff_eq_none.mp hnone, v, hv, rfl⟩
  · rename_i hkind
    simp only [bind_eq_ok, okOr_eq_ok, require_eq_ok, Except.ok.injEq] at h
    obtain ⟨v, hactive, _, hid, w, hw, rfl⟩ := h
    exact Or.inr (Or.inl ⟨hkind, v, w, hactive, hid, hw, rfl⟩)
  · rename_i hkind
    simp only [bind_eq_ok, okOr_eq_ok, require_eq_ok, Except.ok.injEq] at h
    obtain ⟨v, hactive, _, hid, _, hcomplete, rfl⟩ := h
    exact Or.inr (Or.inr ⟨hkind, v, hactive, hid, hcomplete, rfl⟩)

theorem validateStreamedBatchRecord_start {r : VerifiedV2Record} {v : BatchValidator}
    (hkind : r.kind = .batchStart) (h : validateBatchStart r = .ok v) :
    validateStreamedBatchRecord R none r = .ok (some v) := by
  unfold validateStreamedBatchRecord
  rw [hkind]
  simp only [bind_eq_ok, require_eq_ok]
  exact ⟨(), rfl, v, h, rfl⟩

theorem validateStreamedBatchRecord_chunk {r : VerifiedV2Record} {v w : BatchValidator}
    (hkind : r.kind = .batchChunk) (hid : v.batchId = r.batchId) (h : acceptRecordChunk v r = .ok w) :
    validateStreamedBatchRecord R (some v) r = .ok (some w) := by
  unfold validateStreamedBatchRecord
  rw [hkind]
  simp only [bind_eq_ok, okOr_eq_ok, require_eq_ok]
  exact ⟨v, rfl, (), hid, w, h, rfl⟩

theorem validateStreamedBatchRecord_complete {r : VerifiedV2Record} {v : BatchValidator}
    (hkind : r.kind = .batchComplete) (hid : v.batchId = r.batchId)
    (h : validateBatchCompletion R v r = .ok ()) :
    validateStreamedBatchRecord R (some v) r = .ok none := by
  unfold validateStreamedBatchRecord
  rw [hkind]
  simp only [bind_eq_ok, okOr_eq_ok, require_eq_ok]
  exact ⟨v, rfl, (), hid, (), h, trivial⟩

/-- An open batch goes through its chunks to its completion. -/
theorem streamed_open {records : List VerifiedV2Record} {v : BatchValidator}
    (h : commitAll (validateStreamedBatchRecord R) (some v) records = .ok none) :
    ∃ chunks complete rest w, records = chunks ++ complete :: rest ∧
      (∀ c ∈ chunks, c.kind = .batchChunk ∧ c.batchId = v.batchId) ∧
      (complete.kind = .batchComplete ∧ complete.batchId = v.batchId) ∧
      commitAll acceptRecordChunk v chunks = .ok w ∧ validateBatchCompletion R w complete = .ok () ∧
      commitAll (validateStreamedBatchRecord R) none rest = .ok none := by
  induction records generalizing v with
  | nil => cases h
  | cons r records ih =>
    obtain ⟨next, hnext, hrest⟩ := (commitAll_cons _).mp h
    obtain ⟨-, hnone, -⟩ | ⟨hkind, _, w, hactive, hid, hw, rfl⟩ | ⟨hkind, _, hactive, hid, hcomplete, rfl⟩ :=
      validateStreamedBatchRecord_cases hnext
    · cases hnone
    · cases hactive
      obtain ⟨chunks, complete, rest, u, rfl, hchunks, hlast, hu, hcomplete, hrest⟩ := ih hrest
      rw [acceptRecordChunk_batchId hw] at hchunks hlast
      exact ⟨r :: chunks, complete, rest, u, rfl, List.forall_mem_cons.mpr ⟨⟨hkind, hid.symm⟩, hchunks⟩,
        hlast, (commitAll_cons _).mpr ⟨w, hw, hu⟩, hcomplete, hrest⟩
    · cases hactive
      exact ⟨[], r, records, v, rfl, fun c hc => absurd hc List.not_mem_nil, ⟨hkind, hid.symm⟩, rfl,
        hcomplete, hrest⟩

theorem streamed_chunks {chunks : List VerifiedV2Record} {v w : BatchValidator}
    (hchunks : ∀ c ∈ chunks, c.kind = .batchChunk ∧ c.batchId = v.batchId)
    (h : commitAll acceptRecordChunk v chunks = .ok w) :
    commitAll (validateStreamedBatchRecord R) (some v) chunks = .ok (some w) ∧ w.batchId = v.batchId := by
  induction chunks generalizing v with
  | nil =>
    cases h
    exact ⟨rfl, rfl⟩
  | cons c chunks ih =>
    obtain ⟨u, hu, hrest⟩ := (commitAll_cons _).mp h
    obtain ⟨⟨hkind, hid⟩, hchunks⟩ := List.forall_mem_cons.mp hchunks
    have hbatch := acceptRecordChunk_batchId hu
    obtain ⟨hall, hlast⟩ := ih (by rwa [hbatch]) hrest
    exact ⟨(commitAll_cons _).mpr ⟨some u, validateStreamedBatchRecord_chunk hkind hid.symm hu, hall⟩,
      hlast.trans hbatch⟩

theorem WholeBatch.Valid.streamed {b : WholeBatch} (h : b.Valid R) :
    commitAll (validateStreamedBatchRecord R) none b.records = .ok none := by
  obtain ⟨v, w, hv, hw, hcomplete⟩ := h
  have hid := validateBatchStart_batchId hv
  obtain ⟨hchunks, hlast⟩ := streamed_chunks (R := R) (by rw [hid]; exact b.chunk_kind) hw
  show commitAll _ none (b.start :: (b.chunks ++ [b.complete])) = .ok none
  refine (commitAll_cons _).mpr ⟨some v, validateStreamedBatchRecord_start b.start_kind hv, ?_⟩
  refine (commitAll_append _).mpr ⟨some w, hchunks, (commitAll_cons _).mpr ⟨none, ?_, rfl⟩⟩
  exact validateStreamedBatchRecord_complete b.complete_kind.1
    ((hlast.trans hid).trans b.complete_kind.2.symm) hcomplete

/-- What streams are whole batches, each of which is valid. -/
theorem streamed_iff {records : List VerifiedV2Record} :
    commitAll (validateStreamedBatchRecord R) none records = .ok none ↔
      ∃ batches, records = batchedRecords batches ∧ ∀ b ∈ batches, b.Valid R := by
  constructor
  · intro h
    induction hn : records.length using Nat.strong_induction_on generalizing records with
    | _ n ih =>
      cases records with
      | nil => exact ⟨[], rfl, fun b hb => absurd hb List.not_mem_nil⟩
      | cons r records =>
        obtain ⟨next, hnext, hrest⟩ := (commitAll_cons _).mp h
        obtain ⟨hkind, -, v, hv, rfl⟩ | ⟨-, _, _, hactive, -⟩ | ⟨-, _, hactive, -⟩ :=
          validateStreamedBatchRecord_cases hnext
        · have hid := validateBatchStart_batchId hv
          obtain ⟨chunks, complete, rest, w, rfl, hchunks, hlast, hw, hcomplete, hrest⟩ := streamed_open hrest
          rw [hid] at hchunks hlast
          have hlt : rest.length < n := by
            rw [← hn, List.length_cons, List.length_append, List.length_cons]
            omega
          obtain ⟨batches, rfl, hbatches⟩ := ih _ hlt hrest rfl
          refine ⟨⟨r, chunks, complete, hkind, hchunks, hlast⟩ :: batches, ?_,
            List.forall_mem_cons.mpr ⟨⟨v, w, hv, hw, hcomplete⟩, hbatches⟩⟩
          show r :: (chunks ++ complete :: batchedRecords batches) =
            (r :: chunks ++ [complete]) ++ batchedRecords batches
          rw [List.append_assoc, List.cons_append, List.singleton_append]
        · cases hactive
        · cases hactive
  · rintro ⟨batches, rfl, hbatches⟩
    induction batches with
    | nil => rfl
    | cons b batches ih =>
      obtain ⟨hb, hbatches⟩ := List.forall_mem_cons.mp hbatches
      exact (commitAll_append _).mpr ⟨none, hb.streamed, ih hbatches⟩

/-! ### Batches by identifier -/

theorem add_start {b b' : BatchRecords} {r : VerifiedV2Record} (hkind : r.kind = .batchStart) :
    b.add r = .ok b' ↔ b.start = none ∧ b' = { b with start := some r } := by
  simp only [BatchRecords.add, hkind, bind_eq_ok, require_eq_ok, Option.isNone_iff_eq_none, Except.ok.injEq]
  constructor
  · rintro ⟨_, hnone, hb⟩
    exact ⟨hnone, hb.symm⟩
  · rintro ⟨hnone, hb⟩
    exact ⟨(), hnone, hb.symm⟩

theorem add_chunk {b b' : BatchRecords} {r : VerifiedV2Record} (hkind : r.kind = .batchChunk) :
    b.add r = .ok b' ↔ b' = { b with chunks := b.chunks ++ [r] } := by
  simp only [BatchRecords.add, hkind, Except.ok.injEq]
  exact ⟨Eq.symm, Eq.symm⟩

theorem add_complete {b b' : BatchRecords} {r : VerifiedV2Record} (hkind : r.kind = .batchComplete) :
    b.add r = .ok b' ↔ b.complete = none ∧ b' = { b with complete := some r } := by
  simp only [BatchRecords.add, hkind, bind_eq_ok, require_eq_ok, Option.isNone_iff_eq_none, Except.ok.injEq]
  constructor
  · rintro ⟨_, hnone, hb⟩
    exact ⟨hnone, hb.symm⟩
  · rintro ⟨hnone, hb⟩
    exact ⟨(), hnone, hb.symm⟩

/-- A record of a new identifier begins a batch at the end. -/
theorem addToBatch_new {acc out : List BatchRecords} {r : VerifiedV2Record}
    (hnew : ∀ b ∈ acc, b.batchId ≠ r.batchId) :
    addToBatch acc r = .ok out ↔
      ∃ b, BatchRecords.add ⟨r.batchId, none, [], none⟩ r = .ok b ∧ out = acc ++ [b] := by
  induction acc generalizing out with
  | nil =>
    simp only [addToBatch, bind_eq_ok, Except.ok.injEq, List.nil_append]
    exact exists_congr fun b => and_congr_right fun _ => ⟨Eq.symm, Eq.symm⟩
  | cons b acc ih =>
    obtain ⟨hb, hacc⟩ := List.forall_mem_cons.mp hnew
    rw [addToBatch, if_neg hb]
    simp only [bind_eq_ok, ih hacc, Except.ok.injEq]
    constructor
    · rintro ⟨_, ⟨b', hb', rfl⟩, rfl⟩
      exact ⟨b', hb', rfl⟩
    · rintro ⟨b', hb', rfl⟩
      exact ⟨_, ⟨b', hb', rfl⟩, rfl⟩

/-- A record of the identifier that came last is added to its batch. -/
theorem addToBatch_last {acc out : List BatchRecords} {b : BatchRecords} {r : VerifiedV2Record}
    (hother : ∀ b ∈ acc, b.batchId ≠ r.batchId) (hid : b.batchId = r.batchId) :
    addToBatch (acc ++ [b]) r = .ok out ↔ ∃ b', b.add r = .ok b' ∧ out = acc ++ [b'] := by
  induction acc generalizing out with
  | nil =>
    rw [List.nil_append, addToBatch, if_pos hid]
    simp only [bind_eq_ok, Except.ok.injEq, List.nil_append]
    exact exists_congr fun b' => and_congr_right fun _ => ⟨Eq.symm, Eq.symm⟩
  | cons a acc ih =>
    obtain ⟨ha, hacc⟩ := List.forall_mem_cons.mp hother
    rw [List.cons_append, addToBatch, if_neg ha]
    simp only [bind_eq_ok, ih hacc, Except.ok.injEq]
    constructor
    · rintro ⟨_, ⟨b', hb', rfl⟩, rfl⟩
      exact ⟨b', hb', rfl⟩
    · rintro ⟨b', hb', rfl⟩
      exact ⟨_, ⟨b', hb', rfl⟩, rfl⟩

/-- A start of an identifier that has its start is refused. -/
theorem addToBatch_started {acc : List BatchRecords} {r : VerifiedV2Record} (hkind : r.kind = .batchStart)
    (hstarted : ∀ b ∈ acc, b.start ≠ none) {out : List BatchRecords} (h : addToBatch acc r = .ok out) :
    ∀ b ∈ acc, b.batchId ≠ r.batchId := by
  induction acc generalizing out with
  | nil => exact fun b hb => absurd hb List.not_mem_nil
  | cons b acc ih =>
    obtain ⟨hb, hacc⟩ := List.forall_mem_cons.mp hstarted
    rw [addToBatch] at h
    split at h
    · simp only [bind_eq_ok, add_start hkind] at h
      obtain ⟨_, ⟨hnone, -⟩, -⟩ := h
      exact absurd hnone hb
    · rename_i hne
      simp only [bind_eq_ok] at h
      obtain ⟨rest, hrest, -⟩ := h
      exact List.forall_mem_cons.mpr ⟨hne, ih hacc hrest⟩

theorem addToBatch_chunks {acc : List BatchRecords} {id : String} {start : Option VerifiedV2Record}
    {before chunks : List VerifiedV2Record} (hother : ∀ b ∈ acc, b.batchId ≠ id)
    (hchunks : ∀ c ∈ chunks, c.kind = .batchChunk ∧ c.batchId = id) :
    commitAll addToBatch (acc ++ [⟨id, start, before, none⟩]) chunks =
      .ok (acc ++ [⟨id, start, before ++ chunks, none⟩]) := by
  induction chunks generalizing before with
  | nil => rw [List.append_nil]; rfl
  | cons c chunks ih =>
    obtain ⟨⟨hkind, hid⟩, hchunks⟩ := List.forall_mem_cons.mp hchunks
    refine (commitAll_cons _).mpr ⟨_, (addToBatch_last (by rwa [hid]) hid.symm).mpr
      ⟨_, (add_chunk hkind).mpr rfl, rfl⟩, ?_⟩
    rw [ih hchunks, List.append_assoc, List.singleton_append]

/-- The records of a whole batch, after batches that have their starts. -/
theorem addToBatch_records {acc out : List BatchRecords} {b : WholeBatch}
    (hstarted : ∀ b ∈ acc, b.start ≠ none) :
    commitAll addToBatch acc b.records = .ok out ↔
      (∀ a ∈ acc, a.batchId ≠ b.start.batchId) ∧ out = acc ++ [b.gathered] := by
  have hall : (∀ a ∈ acc, a.batchId ≠ b.start.batchId) →
      commitAll addToBatch acc b.records = .ok (acc ++ [b.gathered]) := by
    intro hnew
    show commitAll addToBatch acc (b.start :: (b.chunks ++ [b.complete])) = _
    refine (commitAll_cons _).mpr ⟨_, (addToBatch_new hnew).mpr
      ⟨_, (add_start b.start_kind).mpr ⟨rfl, rfl⟩, rfl⟩, ?_⟩
    refine (commitAll_append _).mpr ⟨_, addToBatch_chunks hnew b.chunk_kind, ?_⟩
    refine (commitAll_cons _).mpr ⟨_, (addToBatch_last ?_ b.complete_kind.2.symm).mpr
      ⟨_, (add_complete b.complete_kind.1).mpr ⟨rfl, rfl⟩, rfl⟩, rfl⟩
    rwa [b.complete_kind.2]
  constructor
  · intro h
    obtain ⟨_, hstart, -⟩ := (commitAll_cons _).mp h
    have hnew := addToBatch_started b.start_kind hstarted hstart
    rw [hall hnew] at h
    exact ⟨hnew, (Except.ok.inj h).symm⟩
  · rintro ⟨hnew, rfl⟩
    exact hall hnew

theorem addToBatch_batchedRecords {done batches : List WholeBatch} {out : List BatchRecords} :
    commitAll addToBatch (done.map WholeBatch.gathered) (batchedRecords batches) = .ok out ↔
      (∀ a ∈ done, ∀ b ∈ batches, a.start.batchId ≠ b.start.batchId) ∧
        (batches.map fun b => b.start.batchId).Nodup ∧ out = (done ++ batches).map WholeBatch.gathered := by
  induction batches generalizing done with
  | nil =>
    rw [List.append_nil]
    exact ⟨fun h => ⟨fun a _ b hb => absurd hb List.not_mem_nil, List.nodup_nil, (Except.ok.inj h).symm⟩,
      fun ⟨_, _, h⟩ => by rw [h]; rfl⟩
  | cons b batches ih =>
    have hstarted : ∀ a ∈ done.map WholeBatch.gathered, a.start ≠ none := by
      intro a ha
      obtain ⟨a, -, rfl⟩ := List.mem_map.mp ha
      exact Option.some_ne_none _
    have hdone : done.map WholeBatch.gathered ++ [b.gathered] = (done ++ [b]).map WholeBatch.gathered := by
      rw [List.map_append]
      rfl
    rw [batchedRecords, List.flatMap_cons, commitAll_append]
    simp only [addToBatch_records hstarted, List.forall_mem_map, List.map_cons, List.nodup_cons]
    constructor
    · rintro ⟨_, ⟨hnew, rfl⟩, hrest⟩
      rw [hdone] at hrest
      obtain ⟨hothers, hnodup, rfl⟩ := ih.mp hrest
      refine ⟨fun a ha => List.forall_mem_cons.mpr ⟨hnew a ha, hothers a (List.mem_append_left _ ha)⟩,
        ⟨fun hmem => ?_, hnodup⟩, by rw [List.append_assoc, List.singleton_append]⟩
      obtain ⟨b', hb', hid⟩ := List.mem_map.mp hmem
      exact hothers b (by simp) b' hb' hid.symm
    · rintro ⟨hothers, ⟨hfresh, hnodup⟩, rfl⟩
      refine ⟨_, ⟨fun a ha => hothers a ha b (List.mem_cons_self ..), rfl⟩, ?_⟩
      rw [hdone]
      refine ih.mpr ⟨fun a ha b' hb' => ?_, hnodup, by rw [List.append_assoc, List.singleton_append]⟩
      rcases List.mem_append.mp ha with ha | ha
      · exact hothers a ha b' (List.mem_cons_of_mem _ hb')
      · rw [List.mem_singleton.mp ha]
        exact fun hid => hfresh (List.mem_map.mpr ⟨b', hb', hid.symm⟩)

/-- The records of the batch stand one after the other in one origin. -/
def WholeBatch.Ordered (b : WholeBatch) : Prop := batchOrdered b.start b.complete b.chunks = true

theorem verifyBatch_gathered {b : WholeBatch} :
    verifyBatch R b.gathered = .ok () ↔ b.Ordered ∧ b.Valid R := by
  simp only [verifyBatch, WholeBatch.gathered, bind_eq_ok, okOr_eq_ok, Option.some.injEq]
  constructor
  · rintro ⟨_, rfl, _, rfl, _, hordered, v, hv, w, hw, hcomplete⟩
    exact ⟨(require_eq_ok (c := batchOrdered b.start b.complete b.chunks = true)).mp hordered, v, w, hv, hw,
      hcomplete⟩
  · rintro ⟨hordered, v, w, hv, hw, hcomplete⟩
    exact ⟨_, rfl, _, rfl, (), (require_eq_ok (c := batchOrdered b.start b.complete b.chunks = true)).mpr hordered,
      v, hv, w, hw, hcomplete⟩

/-- Batches by identifier, when their records come in whole batches. -/
theorem verifyBatches_batchedRecords {batches : List WholeBatch} :
    verifyBatches R (batchedRecords batches) = .ok () ↔
      (batches.map fun b => b.start.batchId).Nodup ∧ ∀ b ∈ batches, b.Ordered ∧ b.Valid R := by
  have hgather := @addToBatch_batchedRecords [] batches
  simp only [List.map_nil, List.nil_append] at hgather
  simp only [verifyBatches, bind_eq_ok, hgather, forM_eq_ok]
  constructor
  · rintro ⟨_, ⟨-, hnodup, rfl⟩, hall⟩
    exact ⟨hnodup, fun b hb => verifyBatch_gathered.mp (hall _ (List.mem_map_of_mem hb))⟩
  · rintro ⟨hnodup, hall⟩
    refine ⟨_, ⟨fun a ha => absurd ha List.not_mem_nil, hnodup, rfl⟩, fun b hb => ?_⟩
    obtain ⟨whole, hwhole, rfl⟩ := List.mem_map.mp hb
    exact verifyBatch_gathered.mpr (hall whole hwhole)

/-- No two batches begin with one identifier. -/
def DistinctBatchIds (records : List VerifiedV2Record) : Prop :=
  ((records.filter fun r => r.kind = .batchStart).map VerifiedV2Record.batchId).Nodup

theorem distinctBatchIds_iff {batches : List WholeBatch} :
    DistinctBatchIds (batchedRecords batches) ↔ (batches.map fun b => b.start.batchId).Nodup := by
  have hstarts : (batchedRecords batches).filter (fun r => r.kind = .batchStart) =
      batches.map WholeBatch.start := by
    induction batches with
    | nil => rfl
    | cons b batches ih =>
      have hchunks : b.chunks.filter (fun r => r.kind = .batchStart) = [] := by
        refine List.filter_eq_nil_iff.mpr fun c hc => ?_
        simp [(b.chunk_kind c hc).1]
      rw [batchedRecords, List.flatMap_cons, List.filter_append, List.map_cons, ← ih]
      simp [WholeBatch.records, b.start_kind, b.complete_kind.1, hchunks, batchedRecords]
  rw [DistinctBatchIds, hstarts, List.map_map]
  rfl

end ArchiveLedger
