import ArchiveLedger.Projection.Identity

/-!
# What a run over observations keeps

The projector applies chunks of observations item by item.  For each logical path it
keeps what a tracker keeps of the chunks that observe the path (`Tracks`), whatever the
order of the chunks is.
-/

namespace ArchiveLedger

open Relational Outcome Transition Tracker LinearExtension

/-- A Collection and a path in it. -/
abbrev CollectionPath := String × StoredPath

variable (R : ProjectionRuntime)

/-! ### Chunks as observations of a path -/

namespace Chunk

/-- The item of a chunk about a path. -/
def about (k : CollectionPath) (c : Chunk) : Option Observation :=
  c.observations.find? fun o => o.logicalPath R = some k

def observes (k : CollectionPath) (c : Chunk) : Bool := (c.about R k).isSome

/-- The causal base of the first includes the second. -/
def covers (frontiers : FrontierMap) (x y : Chunk) : Bool :=
  (frontiers.get? x.record.causalFrontierHash).any fun base =>
    base.includesDot y.record.originId y.record.originSeq

/-- The object a chunk gives a path, and what its causal base includes. -/
def facts (frontiers : FrontierMap) (k : CollectionPath) : Facts Chunk (Option String) where
  value c := (c.about R k).bind fun o => optionalString o.item "object_id"
  covers := covers frontiers

/-- The row that records a conflict between two chunks at a path. -/
def conflict (k : CollectionPath) (a b : Chunk) : FactConflictRow :=
  fileIdentityConflict R k.1 k.2 a.record.dot b.record.dot

/-- A conflict between two chunks that observe one path. -/
def Raised (L : List Chunk) (row : FactConflictRow) : Prop :=
  ∃ a ∈ L, ∃ b ∈ L, a ≠ b ∧ ∃ k, a.observes R k = true ∧ b.observes R k = true ∧ row = a.conflict R k b

variable {R} {c : Chunk} {o : Observation} {k : CollectionPath}

theorem observes_iff : c.observes R k = true ↔ ∃ o ∈ c.observations, o.logicalPath R = some k := by
  simp [observes, about, List.find?_isSome]

theorem Raised.mono {L M : List Chunk} (hs : ∀ c ∈ M, c ∈ L) {row : FactConflictRow}
    (h : Raised R M row) : Raised R L row := by
  obtain ⟨a, ha, b, hb, hne, k, hka, hkb, he⟩ := h
  exact ⟨a, hs a ha, b, hs b hb, hne, k, hka, hkb, he⟩

end Chunk

/-- Chunks of observations that a database has not applied, of Files it does not know. -/
structure Fresh (db : Projection) (L : List Chunk) : Prop where
  positive : ∀ c ∈ L, 0 < c.record.originSeq
  distinct : L.Pairwise fun a b =>
    recordSchema.Apart (Projection.recordRow a.record) (Projection.recordRow b.record)
  recorded : ∀ c ∈ L, db.records.Admits (Projection.recordRow c.record)
  /-- A chunk names one object for a path. -/
  agreed : ∀ c ∈ L, ∀ x ∈ c.observations, ∀ y ∈ c.observations, ∀ k, x.logicalPath R = some k →
    y.logicalPath R = some k → optionalString x.item "object_id" = optionalString y.item "object_id"
  /-- A File ID names one path. -/
  stable : ∀ a ∈ L, ∀ x ∈ a.observations, ∀ b ∈ L, ∀ y ∈ b.observations, x.fileRef = y.fileRef →
    x.logicalPath R = y.logicalPath R
  files : ∀ c ∈ L, ∀ o ∈ c.observations, ∀ file ∈ db.fileObjects.rows,
    o.fileRef ≠ some file.canonicalId ∧ o.logicalPath R ≠ some file.at
  conflicts : ∀ row, Chunk.Raised R L row → db.factConflicts.Admits row
  /-- No two conflicts share an id. -/
  named : ∀ row row', Chunk.Raised R L row → Chunk.Raised R L row' →
    row.conflictId = row'.conflictId → row = row'

/-- Chunks in which two paths are two entities. -/
structure Trackable (db : Projection) (L : List Chunk) : Prop extends Fresh R db L where
  entities : ∀ c ∈ L, ∀ k l, c.observes R k = true → c.observes R l = true →
    entityKey k.1 k.2 = entityKey l.1 l.2 → k = l

variable {R}

namespace Trackable

variable {db : Projection} {L M : List Chunk}

theorem of_sublist (h : Trackable R db L) (hs : M.Sublist L) : Trackable R db M where
  positive c hc := h.positive c (hs.subset hc)
  distinct := h.distinct.sublist hs
  recorded c hc := h.recorded c (hs.subset hc)
  agreed c hc := h.agreed c (hs.subset hc)
  entities c hc := h.entities c (hs.subset hc)
  stable a ha x hx b hb := h.stable a (hs.subset ha) x hx b (hs.subset hb)
  files c hc := h.files c (hs.subset hc)
  conflicts row hr := h.conflicts row (hr.mono fun _ hc => hs.subset hc)
  named row row' hr hr' := h.named row row' (hr.mono fun _ hc => hs.subset hc)
    (hr'.mono fun _ hc => hs.subset hc)

theorem perm (h : Trackable R db L) (hp : M.Perm L) : Trackable R db M where
  positive c hc := h.positive c (hp.subset hc)
  distinct := (hp.pairwise_iff fun h => h.symm).mpr h.distinct
  recorded c hc := h.recorded c (hp.subset hc)
  agreed c hc := h.agreed c (hp.subset hc)
  entities c hc := h.entities c (hp.subset hc)
  stable a ha x hx b hb := h.stable a (hp.subset ha) x hx b (hp.subset hb)
  files c hc := h.files c (hp.subset hc)
  conflicts row hr := h.conflicts row (hr.mono fun _ hc => hp.subset hc)
  named row row' hr hr' := h.named row row' (hr.mono fun _ hc => hp.subset hc)
    (hr'.mono fun _ hc => hp.subset hc)

/-- Chunks with one dot are one. -/
theorem eq_of_dot (h : Trackable R db L) {a b : Chunk} (ha : a ∈ L) (hb : b ∈ L)
    (ho : a.record.originId = b.record.originId) (hs : a.record.originSeq = b.record.originSeq) :
    a = b := by
  by_contra hne
  have : Std.Symm fun a b : Chunk =>
      recordSchema.Apart (Projection.recordRow a.record) (Projection.recordRow b.record) :=
    ⟨fun _ _ h => h.symm⟩
  have hap := (h.distinct.forall ha hb hne).2
  simp [recordSchema, Projection.recordRow, ho, hs] at hap

theorem nodup (h : Trackable R db L) : L.Nodup :=
  h.distinct.imp fun hap e => hap.1 (by rw [e])

/-- Two conflicts between the same dots are between the same chunks. -/
theorem pair_of_dots (h : Trackable R db L) {a b c d : Chunk} (ha : a ∈ L) (hb : b ∈ L)
    (hc : c ∈ L) (hd : d ∈ L) {k l : CollectionPath}
    (he : (a.conflict R k b).dots = (c.conflict R l d).dots) :
    entityKey k.1 k.2 = entityKey l.1 l.2 ∧ ((a = c ∧ b = d) ∨ (a = d ∧ b = c)) := by
  simp only [FactConflictRow.dots, Chunk.conflict, fileIdentityConflict, Prod.mk.injEq] at he
  obtain ⟨hentity, ho₁, hs₁, ho₂, hs₂⟩ := he
  refine ⟨hentity, ?_⟩
  by_cases hab : a.record.dot.le b.record.dot = true <;>
    by_cases hcd : c.record.dot.le d.record.dot = true <;>
    simp only [hab, hcd, if_true, Bool.false_eq_true, if_false] at ho₁ hs₁ ho₂ hs₂
  · exact Or.inl ⟨h.eq_of_dot ha hc ho₁ hs₁, h.eq_of_dot hb hd ho₂ hs₂⟩
  · exact Or.inr ⟨h.eq_of_dot ha hd ho₁ hs₁, h.eq_of_dot hb hc ho₂ hs₂⟩
  · exact Or.inr ⟨h.eq_of_dot ha hd ho₂ hs₂, h.eq_of_dot hb hc ho₁ hs₁⟩
  · exact Or.inl ⟨h.eq_of_dot ha hc ho₂ hs₂, h.eq_of_dot hb hd ho₁ hs₁⟩

/-- A recorded pair has no order. -/
theorem conflict_comm (h : Trackable R db L) {a b : Chunk} (ha : a ∈ L) (hb : b ∈ L)
    (hne : a ≠ b) (k : CollectionPath) : a.conflict R k b = b.conflict R k a := by
  have hone : a.record.dot.le b.record.dot = !b.record.dot.le a.record.dot := by
    by_cases ho : a.record.originId = b.record.originId
    · have hs : a.record.originSeq ≠ b.record.originSeq := fun e => hne (h.eq_of_dot ha hb ho e)
      have hirr : textLt b.record.originId b.record.originId = false := by
        simpa using textLt_irrefl b.record.originId
      simp only [RecordDot.le, VerifiedV2Record.dot, ho, hirr, decide_true, Bool.true_and, Bool.false_or]
      rcases Nat.lt_or_gt_of_ne hs with hlt | hlt <;> simp [hlt, Nat.le_of_lt hlt]
    · by_cases hlt : textLt a.record.originId b.record.originId = true
      · have hge : textLt b.record.originId a.record.originId = false := by
          by_contra hge
          exact textLt_irrefl _ (textLt_trans hlt (by simpa using hge))
        simp [RecordDot.le, VerifiedV2Record.dot, ho, Ne.symm ho, hlt, hge]
      · have hge := textLt_total ho hlt
        simp [RecordDot.le, VerifiedV2Record.dot, ho, Ne.symm ho, hlt, hge]
  simp only [Chunk.conflict, fileIdentityConflict, hone]
  cases b.record.dot.le a.record.dot <;> rfl

/-- The object of a chunk at a path is that of any of its items about the path. -/
theorem value_eq (h : Trackable R db L) {frontiers : FrontierMap} {c : Chunk} (hc : c ∈ L)
    {o : Observation} (ho : o ∈ c.observations) {k : CollectionPath} (hk : o.logicalPath R = some k) :
    (Chunk.facts R frontiers k).value c = optionalString o.item "object_id" := by
  cases ha : c.about R k with
  | none =>
    have := List.find?_eq_none.mp ha o ho
    simp [hk] at this
  | some x =>
    have hx : x.logicalPath R = some k := by simpa using List.find?_some ha
    show (c.about R k).bind _ = _
    rw [ha, Option.bind_some]
    exact h.agreed c hc x (List.mem_of_find?_eq_some ha) o ho k hx hk

end Trackable

/-! ### The verdicts of a run -/

/-- What the trackers of the paths know. -/
abbrev View := CollectionPath → Option (Verdict Chunk)

section View

variable (R) (frontiers : FrontierMap)

/-- After the chunks of a list. -/
def viewOf (l : List Chunk) : View := fun k =>
  (Chunk.facts R frontiers k).verdict (Facts.about (Chunk.observes R k) l)

/-- After one item more of a chunk. -/
def see (c : Chunk) (V : View) (o : Observation) : View := fun k =>
  if o.logicalPath R = some k then (Chunk.facts R frontiers k).next (V k) c else V k

variable {R frontiers}

theorem foldl_see {c : Chunk} {os : List Observation} {V : View} (k : CollectionPath) :
    os.foldl (see R frontiers c) V k = if ∃ o ∈ os, o.logicalPath R = some k then
      (Chunk.facts R frontiers k).next (V k) c else V k := by
  induction os generalizing V with
  | nil => simp
  | cons o os ih =>
    rw [List.foldl_cons, ih]
    by_cases hk : o.logicalPath R = some k
    · have hsee : see R frontiers c V o k = (Chunk.facts R frontiers k).next (V k) c := if_pos hk
      rw [hsee, Facts.next_next, ite_self, if_pos ⟨o, List.mem_cons_self, hk⟩]
    · have hsee : see R frontiers c V o k = V k := if_neg hk
      simp only [hsee, List.exists_mem_cons_iff, hk, false_or]

/-- The items of a chunk say of each path what the chunk says. -/
theorem viewOf_snoc (l : List Chunk) (c : Chunk) :
    c.observations.foldl (see R frontiers c) (viewOf R frontiers l) = viewOf R frontiers (l ++ [c]) := by
  funext k
  rw [foldl_see, viewOf, viewOf, Facts.about_snoc]
  simp only [← Chunk.observes_iff]
  split
  · rw [Facts.verdict_snoc]
  · rfl

variable (R) in
/-- The verdicts are on chunks of a list that observe their paths. -/
structure Sees (done : List Chunk) (V : View) : Prop where
  settled : ∀ k x, V k = some (.settled x) → x ∈ done ∧ x.observes R k = true
  contested : ∀ k a b, V k = some (.contested a b) →
    (a ∈ done ∧ a.observes R k = true) ∧ (b ∈ done ∧ b.observes R k = true) ∧ a ≠ b

theorem sees_viewOf (l : List Chunk) : Sees R l (viewOf R frontiers l) where
  settled k x h := Facts.mem_about.mp (List.mem_of_getLast? (Facts.getLast?_of_settled _ h))
  contested k a b h := by
    obtain ⟨pre, post, he, hb⟩ := Facts.breaks_of_contested _ h
    have ha : a ∈ Facts.about (Chunk.observes R k) l := by rw [he]; simp
    have hbm : b ∈ Facts.about (Chunk.observes R k) l := by rw [he]; simp
    refine ⟨Facts.mem_about.mp ha, Facts.mem_about.mp hbm, ?_⟩
    rintro rfl
    simp [Facts.breaks] at hb

theorem Sees.mono {l m : List Chunk} {V : View} (h : Sees R l V) (hs : ∀ c ∈ l, c ∈ m) : Sees R m V where
  settled k x hx := (h.settled k x hx).imp_left (hs x)
  contested k a b hab :=
    (h.contested k a b hab).imp (And.imp_left (hs a)) (And.imp_left (And.imp_left (hs b)))

theorem Sees.see {done : List Chunk} {V : View} {c : Chunk} {o : Observation} (h : Sees R done V)
    (hc : c ∈ done) (ho : o ∈ c.observations) : Sees R done (see R frontiers c V o) := by
  have hnext : ∀ k v, o.logicalPath R = some k → (Chunk.facts R frontiers k).next (V k) c = some v →
      v = .settled c ∧ c.observes R k = true ∨ V k = some v ∨
        ∃ y, V k = some (.settled y) ∧ v = .contested y c ∧ y ≠ c ∧ c.observes R k = true := by
    intro k v hk hv
    have hobs : c.observes R k = true := Chunk.observes_iff.mpr ⟨o, ho, hk⟩
    cases hV : V k with
    | none =>
      rw [hV] at hv
      exact Or.inl ⟨(Option.some.inj hv).symm, hobs⟩
    | some w =>
      rw [hV] at hv
      cases w with
      | contested a b => exact Or.inr (Or.inl hv)
      | settled y =>
        by_cases hb : (Chunk.facts R frontiers k).breaks y c = true
        · simp only [Facts.next, hb, if_true, Option.some.injEq] at hv
          refine Or.inr (Or.inr ⟨y, rfl, hv.symm, ?_, hobs⟩)
          rintro rfl
          simp [Facts.breaks] at hb
        · simp only [Facts.next, hb, Option.some.injEq] at hv
          exact Or.inl ⟨hv.symm, hobs⟩
  refine ⟨fun k x hx => ?_, fun k a b hab => ?_⟩
  · unfold ArchiveLedger.see at hx
    split at hx
    · rename_i hk
      rcases hnext k _ hk hx with ⟨he, hobs⟩ | hV | ⟨y, hV, he, -⟩
      · cases he
        exact ⟨hc, hobs⟩
      · exact h.settled k x hV
      · cases he
    · exact h.settled k x hx
  · unfold ArchiveLedger.see at hab
    split at hab
    · rename_i hk
      rcases hnext k _ hk hab with ⟨he, -⟩ | hV | ⟨y, hV, he, hne, hobs⟩
      · cases he
      · exact h.contested k a b hV
      · cases he
        exact ⟨h.settled k _ hV, ⟨hc, hobs⟩, hne⟩
    · exact h.contested k a b hab

end View

/-! ### What the projector keeps -/

/-- The File that stands at a path with a verdict; without one it is the File from before. -/
def Shows (F : Facts Chunk (Option String)) (start : Option FileObjectRow) :
    Option (Verdict Chunk) → Option FileObjectRow → Prop
  | none, file => file = start
  | some (.settled x), file => ∃ f object, file = some f ∧ f.identityState = .resolved ∧
      f.content = some object ∧ F.value x = some object ∧
      f.lastRecord = x.record.record.envelope.recordId
  | some (.contested _ _), file => ∃ f, file = some f ∧ f.identityState = .conflict ∧ f.content = none

variable (R) in
/-- What a database keeps of the chunks whose records it has, by the verdicts on their
paths. -/
structure Tracks (frontiers : FrontierMap) (db₀ : Projection) (done : List Chunk) (V : View)
    (db : Projection) : Prop where
  sees : Sees R done V
  reading : ∀ id, db.batchReading id = db₀.batchReading id
  records : ∀ row, row ∈ db.records.rows ↔
    row ∈ db₀.records.rows ∨ ∃ c ∈ done, row = Projection.recordRow c.record
  files : ∀ file ∈ db.fileObjects.rows, file ∈ db₀.fileObjects.rows ∨
    ∃ c ∈ done, ∃ o ∈ c.observations, o.fileRef = some file.canonicalId ∧ o.logicalPath R = some file.at
  identity : ∀ k, Shows (Chunk.facts R frontiers k) (db₀.activeFile k.1 k.2) (V k) (db.activeFile k.1 k.2)
  conflicts : ∀ row, row ∈ db.factConflicts.rows ↔ row ∈ db₀.factConflicts.rows ∨
    ∃ k a b, V k = some (.contested a b) ∧ row = a.conflict R k b

variable {frontiers : FrontierMap} {db₀ db db' : Projection} {done l : List Chunk} {V : View}
  {c : Chunk} {o : Observation}

theorem tracks_nil : Tracks R frontiers db₀ [] (viewOf R frontiers []) db₀ where
  sees := sees_viewOf []
  reading _ := rfl
  records row := by simp
  files file hf := Or.inl hf
  identity k := rfl
  conflicts row := by simp [viewOf, Facts.about]

namespace Tracks

theorem known (ht : Tracks R frontiers db₀ done V db) (hc : Chunk.Known db₀ c) : Chunk.Known db c where
  kind := hc.kind
  content := hc.content
  items := by
    obtain ⟨b, hb, hitems⟩ := hc.items
    have hr := ht.reading c.record.batchId
    rw [Projection.batchReading, Projection.batchReading, hb] at hr
    obtain ⟨b', hb', he⟩ := Option.map_eq_some_iff.mp hr
    exact ⟨b', hb', hitems.imp fun raw item h => (Projection.batchItem_of_reading he raw).trans h⟩

theorem admits (hu : Trackable R db₀ (l ++ [c])) (ht : Tracks R frontiers db₀ l V db) :
    db.records.Admits (Projection.recordRow c.record) := by
  intro row hrow
  rcases (ht.records row).mp hrow with hrow | ⟨x, hx, rfl⟩
  · exact hu.recorded c (by simp) row hrow
  · exact (List.pairwise_append.mp hu.distinct).2.2 x hx c (by simp)

/-- The record that a File remembers. -/
theorem remembered (ht : Tracks R frontiers db₀ done V db) {x : Chunk} (hx : x ∈ done) {old : RecordRow}
    (hold : db.records.get? x.record.record.envelope.recordId = some old) :
    old = Projection.recordRow x.record := by
  obtain ⟨hm, hk⟩ := Table.get?_eq_some.mp hold
  exact Table.eq_of_key hm ((ht.records _).mpr (Or.inr ⟨x, hx, rfl⟩)) hk

/-- No other conflict stands between the last chunk of a path and the next, and none has
the id of theirs. -/
theorem admits_conflict (hu : Trackable R db₀ done) (ht : Tracks R frontiers db₀ done V db)
    (hc : c ∈ done) {k : CollectionPath} (hk : c.observes R k = true) {x : Chunk}
    (hv : V k = some (.settled x)) (hxc : x ≠ c) : db.factConflicts.Admits (x.conflict R k c) := by
  obtain ⟨hx, hxk⟩ := ht.sees.settled k x hv
  have hraised : Chunk.Raised R done (x.conflict R k c) := ⟨x, hx, c, hc, hxc, k, hxk, hk, rfl⟩
  intro row hrow
  rcases (ht.conflicts row).mp hrow with hrow | ⟨k', a, b, hab, rfl⟩
  · exact hu.conflicts _ hraised row hrow
  · obtain ⟨⟨ha, hak⟩, ⟨hb, hbk⟩, hne⟩ := ht.sees.contested k' a b hab
    have hdots : (a.conflict R k' b).dots ≠ (x.conflict R k c).dots := by
      intro he
      obtain ⟨hentity, hpair⟩ := hu.pair_of_dots ha hb hx hc he
      have hkk : k' = k := by
        rcases hpair with ⟨rfl, rfl⟩ | ⟨rfl, rfl⟩
        · exact hu.entities a ha k' k hak hxk hentity
        · exact hu.entities b hb k' k hbk hxk hentity
      rw [hkk, hv] at hab
      cases hab
    refine ⟨fun he => hdots ?_, by simpa [factConflictSchema] using hdots⟩
    exact congrArg FactConflictRow.dots
      (hu.named _ _ ⟨a, ha, b, hb, hne, k', hak, hbk, rfl⟩ hraised he)

/-- The verdict on an item is the next one of the tracker. -/
theorem judged (hu : Trackable R db₀ done) (ht : Tracks R frontiers db₀ done V db) (hc : c ∈ done)
    (ho : o ∈ c.observations) {k : CollectionPath} (hk : o.logicalPath R = some k)
    {d d' : Projection} (hsame : Projection.SameIdentities db d)
    {objectId : String} (hobject : optionalString o.item "object_id" = some objectId) {conflict : Bool}
    (hj : Projection.Judged R d o.record frontiers k.1 k.2 objectId (db.activeFile k.1 k.2) d' conflict) :
    ∃ v, (Chunk.facts R frontiers k).next (V k) c = some v ∧
      (conflict = false → v = .settled c) ∧ (conflict = true → ∃ a b, v = .contested a b) ∧
      ∀ row, row ∈ d'.factConflicts.rows ↔ row ∈ db.factConflicts.rows ∨
        ∃ a b, v = .contested a b ∧ row = a.conflict R k b := by
  have hconflicts := hsame.conflicts
  have hrecord : o.record = c.record := (Chunk.mem_observations.mp ho).1
  have hobs : c.observes R k = true := Chunk.observes_iff.mpr ⟨o, ho, hk⟩
  have hvaluec : (Chunk.facts R frontiers k).value c = some objectId :=
    (hu.value_eq hc ho hk).trans hobject
  have hshows := ht.identity k
  cases hv : V k with
  | none =>
    -- the start has no File at the path
    rw [hv] at hshows
    have hstart : db.activeFile k.1 k.2 = none := by
      rw [hshows]
      refine Option.eq_none_iff_forall_ne_some.mpr fun file hfile => ?_
      obtain ⟨hm, _, hat⟩ := Projection.activeFile_eq_some.mp hfile
      exact (hu.files c hc o ho file hm).2 (by rw [hk, hat])
    rw [hstart] at hj
    cases hj with
    | fresh => exact ⟨_, rfl, fun _ => rfl, by simp, fun row => by simp [hconflicts]⟩
  | some v =>
    rw [hv] at hshows
    cases v with
    | contested a b =>
      obtain ⟨file, hfile, hstate, _⟩ := hshows
      rw [hfile] at hj
      have hrow : a.conflict R k b ∈ db.factConflicts.rows :=
        (ht.conflicts _).mpr (Or.inr ⟨k, a, b, hv, rfl⟩)
      cases hj with
      | sticky _ =>
        refine ⟨_, rfl, by simp, fun _ => ⟨a, b, rfl⟩, fun row => ?_⟩
        rw [hconflicts]
        constructor
        · exact Or.inl
        · rintro (h | ⟨a', b', he, rfl⟩)
          · exact h
          · cases he
            exact hrow
      | agrees h _ => exact absurd hstate h
      | follows h _ _ _ _ _ => exact absurd hstate h
      | contradicts h _ _ _ _ _ _ => exact absurd hstate h
    | settled x =>
      obtain ⟨hx, hxk⟩ := ht.sees.settled k x hv
      obtain ⟨file, object, hfile, hstate, hcontent, hvaluex, hlast⟩ := hshows
      rw [hfile] at hj
      have hresolved : file.identityState ≠ .conflict := by rw [hstate]; decide
      have hold : ∀ {old : RecordRow}, d.records.get? file.lastRecord = some old →
          old = Projection.recordRow x.record := by
        intro old h
        rw [hsame.records, hlast] at h
        exact ht.remembered hx h
      have hsettled : (Chunk.facts R frontiers k).breaks x c = false →
          ∃ v, (Chunk.facts R frontiers k).next (some (.settled x)) c = some v ∧
            (false = false → v = .settled c) ∧ (false = true → ∃ a b, v = .contested a b) ∧
            ∀ row, row ∈ d.factConflicts.rows ↔ row ∈ db.factConflicts.rows ∨
              ∃ a b, v = .contested a b ∧ row = a.conflict R k b := by
        intro hb
        exact ⟨.settled c, by simp [Facts.next, hb], fun _ => rfl, by simp,
          fun row => by simp [hconflicts]⟩
      cases hj with
      | sticky h => exact absurd h hresolved
      | agrees _ hagree =>
        have hsame : object = objectId := hagree object hcontent
        exact hsettled (by simp [Facts.breaks, hvaluex, hvaluec, hsame])
      | follows _ _ _ hrec hfrontier hdot =>
        rw [hold hrec] at hdot
        rw [hrecord] at hfrontier
        have hcovers : (Chunk.facts R frontiers k).covers c x = true := by
          simp only [Chunk.facts, Chunk.covers, hfrontier, Option.any_some]
          exact hdot
        exact hsettled (by simp [Facts.breaks, hcovers])
      | contradicts _ hfc hne hrec hfrontier hdot hinsert =>
        rw [hold hrec] at hdot hinsert
        rw [hrecord] at hfrontier hinsert
        have hcovers : (Chunk.facts R frontiers k).covers c x = false := by
          simp only [Chunk.facts, Chunk.covers, hfrontier, Option.any_some]
          exact hdot
        have hvalue : (Chunk.facts R frontiers k).value x ≠ (Chunk.facts R frontiers k).value c := by
          rw [hvaluex, hvaluec]
          intro he
          rw [hcontent, he] at hfc
          exact hne (Option.some.inj hfc).symm
        have hb : (Chunk.facts R frontiers k).breaks x c = true := by
          simp [Facts.breaks, hcovers, hvalue]
        have hadmits := ht.admits_conflict hu hc hobs hv fun e => hvalue (congrArg _ e)
        have hinsert : d'.factConflicts = d.factConflicts.insertOrIgnore (x.conflict R k c) :=
          (Projection.insertFileIdentityConflict_eq_ok hinsert).2 (hu.positive x hx) (hu.positive c hc)
        refine ⟨.contested x c, by simp [Facts.next, hb], by simp, fun _ => ⟨x, c, rfl⟩, fun row => ?_⟩
        rw [hinsert, hconflicts, Table.mem_rows_insert (Table.insertOrIgnore_of_admits hadmits)]
        constructor
        · rintro (h | rfl)
          · exact Or.inl h
          · exact Or.inr ⟨x, c, rfl, rfl⟩
        · rintro (h | ⟨a, b, he, rfl⟩)
          · exact Or.inl h
          · cases he
            exact Or.inr rfl

/-- One item more. -/
theorem observed (hu : Trackable R db₀ done) (ht : Tracks R frontiers db₀ done V db) (hc : c ∈ done)
    (ho : o ∈ c.observations) (h : db.projectContentObserved R o.item o.record frontiers = .ok db') :
    Tracks R frontiers db₀ done (see R frontiers c V o) db' := by
  obtain ⟨d₁, d₂, objectId, external, fileId, hobject, hfirst, hruns₁, hobserve, hlast, hruns⟩ :=
    Projection.projectContentObserved_eq_ok h
  obtain ⟨row, files, d₃, conflict, hwrite, -, -, hjudged, hupsert, rfl⟩ :=
    Projection.observeFile_eq_ok hobserve
  have hframe := hjudged.frame
  have hfiles₃ : d₃.fileObjects = db.fileObjects := by rw [hframe]; exact hfirst.files
  have hrecords₃ : d₃.records = db.records := by rw [hframe]; exact hfirst.records
  have hk : o.logicalPath R = some row.at := by
    obtain ⟨logical, hpath⟩ := hwrite.path
    simp only [Observation.logicalPath, hwrite.collectionId, hpath, FileObjectRow.at]
  have hactive : d₁.activeFile row.collectionId row.path = db.activeFile row.at.1 row.at.2 := by
    rw [Projection.activeFile, hfirst.files]
    rfl
  rw [hactive] at hjudged
  obtain ⟨v, hnext, hsettled, hcontested, hconflicts⟩ :=
    ht.judged (k := row.at) hu hc ho hk hfirst hobject hjudged
  have hfileRef : o.fileRef = some row.canonicalId := hwrite.canonicalId
  have hold : ∀ old ∈ db.fileObjects.rows, old.canonicalId = row.canonicalId → old.at = row.at := by
    intro old hold he
    rcases ht.files old hold with hold | ⟨x, hx, y, hy, hyref, hyk⟩
    · exact absurd (hfileRef.trans (congrArg some he.symm)) (hu.files c hc o ho old hold).1
    · have := hu.stable x hx y hy c hc o ho (by rw [hyref, hfileRef, he])
      rw [hyk, hk] at this
      exact Option.some.inj this
  have hwritten : db.fileObjects.upsert? row (fun old => old.updated row) = some db'.fileObjects := by
    rw [← hfiles₃, hupsert, hlast.files]
  obtain ⟨w, hwid, hwat, hwcontent, hwstate, hwlast, hwfiles, hwactive⟩ :=
    Projection.activeFile_written hwritten hwrite.active hold
  have hseen : see R frontiers c V o row.at = some v := (if_pos hk).trans hnext
  have hunseen : ∀ k, row.at ≠ k → see R frontiers c V o k = V k :=
    fun k he => if_neg fun e => he (Option.some.inj (hk.symm.trans e))
  refine ⟨ht.sees.see hc ho, fun id => ?_, ?_, ?_, ?_, ?_⟩
  · rw [Projection.batchReading, hruns]
    exact ht.reading id
  · intro r
    rw [hlast.records]
    show r ∈ d₃.records.rows ↔ _
    rw [hrecords₃, ht.records]
  · intro file hfile
    rcases hwfiles file hfile with hfile | rfl
    · exact ht.files file hfile
    · exact Or.inr ⟨c, hc, o, ho, by rw [hwid, hfileRef], by rw [hwat, hk]⟩
  · intro k
    rw [hwactive k.1 k.2]
    by_cases he : row.at = k
    · rw [if_pos he, ← he, hseen]
      have hlastw : w.lastRecord = c.record.record.envelope.recordId :=
        (hwlast.trans hwrite.lastRecord).trans (by rw [(Chunk.mem_observations.mp ho).1])
      cases conflict with
      | false =>
        rw [hsettled rfl]
        exact ⟨w, objectId, rfl, hwstate.trans hwrite.identityState, hwcontent.trans hwrite.content,
          (hu.value_eq hc ho hk).trans hobject, hlastw⟩
      | true =>
        obtain ⟨a, b, rfl⟩ := hcontested rfl
        exact ⟨w, rfl, hwstate.trans hwrite.identityState, hwcontent.trans hwrite.content⟩
    · rw [if_neg he, hunseen k he]
      exact ht.identity k
  · intro r
    rw [hlast.conflicts]
    show r ∈ d₃.factConflicts.rows ↔ _
    rw [hconflicts, ht.conflicts, or_assoc]
    refine or_congr_right ?_
    constructor
    · rintro (⟨k, a, b, hab, rfl⟩ | ⟨a, b, rfl, rfl⟩)
      · refine ⟨k, a, b, ?_, rfl⟩
        by_cases he : row.at = k
        · subst he
          rw [hseen, ← hnext, hab]
          rfl
        · rw [hunseen k he, hab]
      · exact ⟨row.at, a, b, hseen, rfl⟩
    · rintro ⟨k, a, b, hab, rfl⟩
      by_cases he : row.at = k
      · subst he
        rw [hseen] at hab
        exact Or.inr ⟨a, b, Option.some.inj hab, rfl⟩
      · rw [hunseen k he] at hab
        exact Or.inl ⟨k, a, b, hab, rfl⟩

theorem of_same (ht : Tracks R frontiers db₀ done V db) (h : Projection.SameIdentities db db')
    (hreading : ∀ id, db'.batchReading id = db.batchReading id) : Tracks R frontiers db₀ done V db' where
  sees := ht.sees
  reading id := (hreading id).trans (ht.reading id)
  records := by rw [h.records]; exact ht.records
  files := by rw [h.files]; exact ht.files
  identity k := by
    have hactive : db'.activeFile k.1 k.2 = db.activeFile k.1 k.2 := by
      rw [Projection.activeFile, h.files]
      rfl
    rw [hactive]
    exact ht.identity k
  conflicts := by rw [h.conflicts]; exact ht.conflicts

variable {context : V2VerificationContext}

theorem observeItem (hu : Trackable R db₀ done) (ht : Tracks R context.frontiers db₀ done V db)
    (hc : c ∈ done) {entry : Json × Nat} (hi : entry.1 ∈ c.items) {count : Nat}
    (h : Projection.observeItem R context c.record count db entry = .ok db') :
    Tracks R context.frontiers db₀ done (see R context.frontiers c V ⟨c.record, entry.1⟩) db' := by
  obtain ⟨d, index, hd, -, hout⟩ := Projection.observeItem_eq_ok h
  have ho : (⟨c.record, entry.1⟩ : Observation) ∈ c.observations :=
    Chunk.mem_observations.mpr ⟨rfl, hi⟩
  refine (ht.observed hu hc ho hd).of_same ?_ ?_
  · rw [Projection.projectOperationOutcome_frame hout]
    exact ⟨rfl, rfl, rfl⟩
  · intro id
    rw [Projection.projectOperationOutcome_frame hout]
    rfl

/-- Items of a chunk. -/
theorem observeItems (hu : Trackable R db₀ done) (ht : Tracks R context.frontiers db₀ done V db)
    (hc : c ∈ done) {items : List Json} (hi : ∀ item ∈ items, item ∈ c.items) {count k : Nat}
    (h : commitAll (Projection.observeItem R context c.record count) db (items.zipIdx k) = .ok db') :
    Tracks R context.frontiers db₀ done
      ((items.map fun item => ⟨c.record, item⟩).foldl (see R context.frontiers c) V) db' := by
  induction items generalizing V db k with
  | nil =>
    cases h
    exact ht
  | cons item items ih =>
    rw [List.zipIdx_cons] at h
    obtain ⟨d, hd, h⟩ := (commitAll_cons _).mp h
    exact ih (ht.observeItem hu hc (hi item List.mem_cons_self) hd)
      (fun item hitem => hi item (List.mem_cons_of_mem _ hitem)) h

/-- The record of a chunk stands in the database before its items do. -/
theorem withRecord (ht : Tracks R frontiers db₀ l V db)
    (hnew : db.records.Admits (Projection.recordRow c.record)) :
    Tracks R frontiers db₀ (l ++ [c]) V (db.withRecord c.record hnew) where
  sees := ht.sees.mono fun x hx => List.mem_append_left _ hx
  reading := ht.reading
  records row := by
    have hadd : row ∈ (db.records.add (Projection.recordRow c.record) hnew).rows ↔
        row ∈ db.records.rows ∨ row = Projection.recordRow c.record := by
      simp [Table.add]
    show row ∈ (db.records.add (Projection.recordRow c.record) hnew).rows ↔ _
    rw [hadd, ht.records]
    simp only [List.mem_append, List.mem_singleton, or_and_right, exists_or, exists_eq_left, or_assoc]
  files file hfile := (ht.files file hfile).imp_right fun ⟨x, hx, h⟩ => ⟨x, List.mem_append_left _ hx, h⟩
  identity := ht.identity
  conflicts := ht.conflicts

theorem chunkDone (ht : Tracks R frontiers db₀ done V db) (r : VerifiedV2Record) (count : Nat) :
    Tracks R frontiers db₀ done V (db.chunkDone r count) := by
  refine ht.of_same ⟨rfl, rfl, rfl⟩ fun id => ?_
  simp only [Projection.batchReading, Projection.chunkDone, Table.get?_modify, Option.map_map]
  congr 1
  funext b
  simp only [Function.comp]
  split <;> rfl

/-- One chunk more. -/
theorem snoc (hu : Trackable R db₀ (l ++ [c]))
    (ht : Tracks R context.frontiers db₀ l (viewOf R context.frontiers l) db) (hc : Chunk.Known db₀ c)
    (h : Projection.projectRecord R context db c.record = .ok db') :
    Tracks R context.frontiers db₀ (l ++ [c]) (viewOf R context.frontiers (l ++ [c])) db' := by
  have hcl : c ∈ l ++ [c] := by simp
  have hknown := ht.known hc
  obtain ⟨b, hb, -⟩ := hknown.items
  obtain ⟨-, d, hrun, rfl⟩ :=
    (Projection.projectRecord_chunk hknown (hu.positive c hcl) (ht.admits hu) hb).mp h
  have hitems := (ht.withRecord (ht.admits hu)).observeItems hu hcl (fun _ hi => hi) hrun
  rw [← viewOf_snoc]
  exact hitems.chunkDone _ _

end Tracks

/-! ### Runs -/

/-- A run over the records of chunks. -/
def Projection.deliver (R : ProjectionRuntime) (context : V2VerificationContext) (db : Projection)
    (l : List Chunk) : ProjectionResult Projection :=
  commitAll (projectRecord R context) db (l.map Chunk.record)

/-- The File identity of a logical path. -/
def Projection.identityAt (db : Projection) (k : CollectionPath) : Option (IdentityState × Option String) :=
  (db.activeFile k.1 k.2).map fun file => (file.identityState, file.content)

theorem Projection.deliver_snoc {context : V2VerificationContext} :
    Projection.deliver R context db (l ++ [c]) = .ok db' ↔
      ∃ d, Projection.deliver R context db l = .ok d ∧ projectRecord R context d c.record = .ok db' := by
  rw [deliver, List.map_append, List.map_singleton, commitAll_append]
  refine exists_congr fun d => and_congr_right fun _ => ?_
  rw [commitAll_cons]
  constructor
  · rintro ⟨d', hd', h⟩
    cases h
    exact hd'
  · intro h
    exact ⟨db', h, rfl⟩

theorem tracks_deliver {context : V2VerificationContext} (hu : Trackable R db₀ l)
    (hl : ∀ c ∈ l, Chunk.Known db₀ c) (h : Projection.deliver R context db₀ l = .ok db) :
    Tracks R context.frontiers db₀ l (viewOf R context.frontiers l) db := by
  induction l using List.reverseRecOn generalizing db with
  | nil =>
    cases h
    exact tracks_nil
  | append_singleton l c ih =>
    obtain ⟨d, hd, h⟩ := Projection.deliver_snoc.mp h
    have ht := ih (hu.of_sublist (List.sublist_append_left _ _))
      (fun x hx => hl x (List.mem_append_left _ hx)) hd
    exact ht.snoc hu (hl c (by simp)) h

/-- The identity that a verdict stands for. -/
def shownIdentity (F : Facts Chunk (Option String)) (start : Option (IdentityState × Option String)) :
    Option (Verdict Chunk) → Option (IdentityState × Option String)
  | none => start
  | some (.settled x) => some (.resolved, F.value x)
  | some (.contested _ _) => some (.conflict, none)

theorem Tracks.identityAt (ht : Tracks R frontiers db₀ done V db) (k : CollectionPath) :
    db.identityAt k = shownIdentity (Chunk.facts R frontiers k) (db₀.identityAt k) (V k) := by
  have h := ht.identity k
  cases hv : V k with
  | none =>
    rw [hv] at h
    rw [Projection.identityAt, h]
    rfl
  | some v =>
    rw [hv] at h
    cases v with
    | settled x =>
      obtain ⟨file, object, hfile, hstate, hcontent, hvalue, -⟩ := h
      rw [Projection.identityAt, hfile, Option.map_some, hstate, hcontent, shownIdentity, hvalue]
    | contested a b =>
      obtain ⟨file, hfile, hstate, hcontent⟩ := h
      rw [Projection.identityAt, hfile, Option.map_some, hstate, hcontent, shownIdentity]

end ArchiveLedger
