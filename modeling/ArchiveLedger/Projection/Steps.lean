import ArchiveLedger.Projection.Finalization

/-!
# The projector step by step

Between two states of the projection stand single items, the finalizations of single
scans, and statements on records, batches and cursors that leave facts and scans alone
(`Step`).  Every run of the projector is a path of such steps (`projectRecords_path`), and
a path keeps the items it has applied.
-/

namespace ArchiveLedger

open Relational Outcome Transition

/-- An item of a batch, and the record it stands in. -/
structure AppliedItem where
  record : VerifiedV2Record
  item : Json

/-- A projection and the items it was made from. -/
structure ProjectionRun where
  db : Projection
  history : List AppliedItem

inductive ProjectionAct where
  | item (applied : AppliedItem) (index : Nat)
  | finalize (record : VerifiedV2Record) (pending : ScanPendingCompletionRow)
  | book

variable (R : ProjectionRuntime) (context : V2VerificationContext)

inductive ProjectionStep : ProjectionRun → ProjectionAct → ProjectionRun → Prop
  | item {s : ProjectionRun} {o : AppliedItem} {index : Nat} {kind : String} {db : Projection}
      (hkind : string o.item "kind" = .ok kind)
      (h : s.db.projectItem R o.item kind o.record context index = .ok db) :
      ProjectionStep s (.item o index) ⟨db, s.history ++ [o]⟩
  | finalize {s : ProjectionRun} {record : VerifiedV2Record} {pending : ScanPendingCompletionRow}
      {db : Projection}
      (h : Projection.finalizeScan record.record.envelope.recordId record.batchId s.db pending = .ok db) :
      ProjectionStep s (.finalize record pending) ⟨db, s.history⟩
  | book {s : ProjectionRun} {db : Projection} (h : SameFacts s.db db) :
      ProjectionStep s .book ⟨db, s.history⟩

/-- The run after an act, when the act succeeds. -/
def ProjectionRun.next (s : ProjectionRun) : ProjectionAct → ProjectionResult ProjectionRun
  | .item o index => do
      let kind ← string o.item "kind"
      let db ← s.db.projectItem R o.item kind o.record context index
      .ok ⟨db, s.history ++ [o]⟩
  | .finalize record pending => do
      let db ← Projection.finalizeScan record.record.envelope.recordId record.batchId s.db pending
      .ok ⟨db, s.history⟩
  | .book => .ok s

theorem ProjectionRun.step_of_next {R : ProjectionRuntime} {context : V2VerificationContext}
    {s t : ProjectionRun} {a : ProjectionAct} (h : s.next R context a = .ok t) :
    ProjectionStep R context s a t := by
  cases a with
  | item o index =>
    obtain ⟨kind, hkind, h⟩ := bind_eq_ok.mp h
    obtain ⟨db, hdb, h⟩ := bind_eq_ok.mp h
    cases h
    exact .item hkind hdb
  | finalize record pending =>
    obtain ⟨db, hdb, h⟩ := bind_eq_ok.mp h
    cases h
    exact .finalize hdb
  | book =>
    cases h
    exact .book (.of_frame rfl rfl rfl rfl rfl rfl rfl)

/-- The steps from one run to another. -/
def ProjectionPath : ProjectionRun → List (ProjectionAct × ProjectionRun) → Prop :=
  Path (ProjectionStep R context)

namespace Projection

variable {R context} {db db' : Projection} {record : VerifiedV2Record}

/-! ### Records are paths -/

theorem projectCoordinationContext_frame {value : Json}
    (h : db.projectCoordinationContext value record = .ok db') : SameFacts db db' := by
  unfold projectCoordinationContext at h
  split at h
  · cases h
    exact .of_frame rfl rfl rfl rfl rfl rfl rfl
  · obtain ⟨_, _, h⟩ := bind_eq_ok.mp h
    obtain ⟨_, _, h⟩ := bind_eq_ok.mp h
    obtain ⟨_, _, h⟩ := bind_eq_ok.mp h
    obtain ⟨_, _, h⟩ := bind_eq_ok.mp h
    obtain ⟨_, _, h⟩ := bind_eq_ok.mp h
    obtain ⟨_, _, h⟩ := bind_eq_ok.mp h
    obtain ⟨_, _, h⟩ := bind_eq_ok.mp h
    obtain ⟨_, _, h⟩ := bind_eq_ok.mp h
    obtain ⟨_, _, h⟩ := bind_eq_ok.mp h
    obtain ⟨_, _, h⟩ := bind_eq_ok.mp h
    obtain ⟨_, _, h⟩ := bind_eq_ok.mp h
    obtain ⟨_, _, h⟩ := bind_eq_ok.mp h
    cases h
    exact .of_frame rfl rfl rfl rfl rfl rfl rfl

theorem projectBatchStart_frame (h : db.projectBatchStart record = .ok db') : SameFacts db db' := by
  obtain ⟨_, _, h⟩ := bind_eq_ok.mp h
  obtain ⟨_, _, h⟩ := bind_eq_ok.mp h
  obtain ⟨_, _, h⟩ := bind_eq_ok.mp h
  obtain ⟨_, _, h⟩ := bind_eq_ok.mp h
  obtain ⟨_, _, h⟩ := bind_eq_ok.mp h
  obtain ⟨d, hd, h⟩ := bind_eq_ok.mp h
  obtain ⟨_, _, h⟩ := bind_eq_ok.mp h
  obtain ⟨_, _, h⟩ := bind_eq_ok.mp h
  obtain ⟨_, _, h⟩ := bind_eq_ok.mp h
  obtain ⟨_, _, h⟩ := bind_eq_ok.mp h
  obtain ⟨_, _, h⟩ := bind_eq_ok.mp h
  obtain ⟨_, _, h⟩ := bind_eq_ok.mp h
  cases h
  exact (projectCoordinationContext_frame hd).trans (.of_frame rfl rfl rfl rfl rfl rfl rfl)

/-- A call that goes through steps, in any run whose projection it is called on. -/
def Stepwise (R : ProjectionRuntime) (context : V2VerificationContext) (db db' : Projection) : Prop :=
  ∀ s : ProjectionRun, s.db = db → ∃ p, ProjectionPath R context s p ∧ (final s p).db = db'

theorem stepwise_of_same (h : SameFacts db db') : Stepwise R context db db' := by
  rintro s rfl
  exact ⟨[(.book, ⟨db', s.history⟩)], ⟨.book h, trivial⟩, rfl⟩

theorem Stepwise.trans {a b c : Projection} (h : Stepwise R context a b) (g : Stepwise R context b c) :
    Stepwise R context a c := by
  intro s hs
  obtain ⟨p, hp, hb⟩ := h s hs
  obtain ⟨q, hq, hc⟩ := g _ hb
  exact ⟨p ++ q, path_append.mpr ⟨hp, hq⟩, by rw [final_append]; exact hc⟩

theorem stepwise_commitAll {ι : Type} {f : Projection → ι → ProjectionResult Projection}
    (hf : ∀ db i db', f db i = .ok db' → Stepwise R context db db') {is : List ι}
    (h : commitAll f db is = .ok db') : Stepwise R context db db' := by
  intro s hs
  exact path_of_commitAll (E := fun s db => s.db = db) (fun t d i d' ht hd => hf d i d' hd t ht) hs h

theorem projectIndexed_stepwise {batch : BatchRunRow} {entry : Json × Nat}
    (h : projectIndexed R batch record context db entry = .ok db') : Stepwise R context db db' := by
  obtain ⟨item, _, h⟩ := bind_eq_ok.mp h
  obtain ⟨index, _, h⟩ := bind_eq_ok.mp h
  obtain ⟨kind, hkind, h⟩ := bind_eq_ok.mp h
  have hitem : db.projectItem R item kind record context index = .ok db' := mapError_eq_ok.mp h
  rintro s rfl
  have hstep : ProjectionStep R context s (.item ⟨record, item⟩ index) ⟨db', s.history ++ [⟨record, item⟩]⟩ :=
    ProjectionStep.item (o := ⟨record, item⟩) hkind hitem
  exact ⟨[(_, _)], ⟨hstep, trivial⟩, rfl⟩

theorem projectBatchChunk_stepwise (h : db.projectBatchChunk R record context = .ok db') :
    Stepwise R context db db' := by
  obtain ⟨_, _, h⟩ := bind_eq_ok.mp h
  obtain ⟨_, _, h⟩ := bind_eq_ok.mp h
  obtain ⟨_, _, h⟩ := bind_eq_ok.mp h
  obtain ⟨_, _, h⟩ := bind_eq_ok.mp h
  obtain ⟨batch, _, h⟩ := bind_eq_ok.mp h
  obtain ⟨_, _, h⟩ := bind_eq_ok.mp h
  obtain ⟨_, _, h⟩ := bind_eq_ok.mp h
  obtain ⟨d, hd, h⟩ := bind_eq_ok.mp h
  obtain ⟨_, _, h⟩ := bind_eq_ok.mp h
  obtain ⟨_, _, h⟩ := bind_eq_ok.mp h
  obtain ⟨_, _, h⟩ := bind_eq_ok.mp h
  cases h
  have hitems : Stepwise R context db d :=
    stepwise_commitAll (fun _ _ _ hi => projectIndexed_stepwise hi) hd
  exact hitems.trans (stepwise_of_same (.of_frame rfl rfl rfl rfl rfl rfl rfl))

theorem finalizeScansForBatch_stepwise (h : db.finalizeScansForBatch record = .ok db') :
    Stepwise R context db db' := by
  obtain ⟨rid, hrid, h⟩ := bind_eq_ok.mp h
  rw [recordKey_eq_ok hrid] at h
  refine stepwise_commitAll ?_ h
  rintro _ pending d hd s rfl
  exact ⟨[(.finalize record pending, ⟨d, s.history⟩)], ⟨.finalize hd, trivial⟩, rfl⟩

theorem projectBatchComplete_stepwise (h : db.projectBatchComplete record = .ok db') :
    Stepwise R context db db' := by
  obtain ⟨_, _, h⟩ := bind_eq_ok.mp h
  obtain ⟨_, _, h⟩ := bind_eq_ok.mp h
  obtain ⟨_, _, h⟩ := bind_eq_ok.mp h
  obtain ⟨_, _, h⟩ := bind_eq_ok.mp h
  obtain ⟨_, _, h⟩ := bind_eq_ok.mp h
  obtain ⟨_, _, h⟩ := bind_eq_ok.mp h
  obtain ⟨d, hd, h⟩ := bind_eq_ok.mp h
  obtain ⟨_, _, h⟩ := bind_eq_ok.mp h
  obtain ⟨_, _, h⟩ := bind_eq_ok.mp h
  cases h
  exact (finalizeScansForBatch_stepwise hd).trans
    (stepwise_of_same (.of_frame rfl rfl rfl rfl rfl rfl rfl))

theorem projectRecord_stepwise (h : projectRecord R context db record = .ok db') :
    Stepwise R context db db' := by
  obtain ⟨⟨d₁, inserted⟩, h₁, h⟩ := bind_eq_ok.mp h
  obtain ⟨d₂, h₂, h⟩ := bind_eq_ok.mp h
  cases h
  have hinsert : SameFacts db d₁ := by
    obtain ⟨_, _, h₁⟩ := bind_eq_ok.mp h₁
    obtain ⟨_, _, h₁⟩ := bind_eq_ok.mp h₁
    split at h₁
    · split at h₁ <;> cases h₁ <;> exact .of_frame rfl rfl rfl rfl rfl rfl rfl
    · cases h₁
      exact .of_frame rfl rfl rfl rfl rfl rfl rfl
  have hadvance : SameFacts d₂ (d₂.advanceOrigin record) := by
    unfold advanceOrigin
    split <;> exact .of_frame rfl rfl rfl rfl rfl rfl rfl
  have hbody : Stepwise R context d₁ d₂ := by
    split at h₂
    · unfold projectInserted at h₂
      split at h₂
      · exact stepwise_of_same (projectBatchStart_frame h₂)
      · exact projectBatchChunk_stepwise h₂
      · exact projectBatchComplete_stepwise h₂
    · cases h₂
      exact stepwise_of_same (.of_frame rfl rfl rfl rfl rfl rfl rfl)
  exact ((stepwise_of_same hinsert).trans hbody).trans (stepwise_of_same hadvance)

end Projection

variable {R context}

/-- Acts that succeed one after the other are a path. -/
theorem path_of_acts {s t : ProjectionRun} {acts : List ProjectionAct}
    (h : commitAll (fun s a => s.next R context a) s acts = .ok t) :
    ∃ p, p.map Prod.fst = acts ∧ ProjectionPath R context s p ∧ final s p = t := by
  have hpath := path_steps (fun s a => ProjectionRun.next R context s a) s acts
  refine ⟨_, ?_, hpath.mono (fun _ _ _ ha => ProjectionRun.step_of_next ha), final_steps h⟩
  rw [List.map_map]
  exact steps_items _ h

/-- A run of the projector is a path. -/
theorem projectRecords_path {db db' : Projection} {records : List VerifiedV2Record}
    (h : commitAll (Projection.projectRecord R context) db records = .ok db') :
    ∃ p, ProjectionPath R context ⟨db, []⟩ p ∧ (final ⟨db, []⟩ p).db = db' :=
  Projection.stepwise_commitAll (fun _ _ _ hr => Projection.projectRecord_stepwise hr) h _ rfl

end ArchiveLedger
