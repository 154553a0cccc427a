import ArchiveLedger.Foundation.Dispute
import ArchiveLedger.Projection.AnnexSpec
import ArchiveLedger.Projection.Concurrent

/-!
# Observations and annex entries of one path

Two kinds of items say what a File is.  An observation looks at the File before it writes
it (`contentConflict`); an annex entry writes the state that its own fields give.
`stands_iff_meets` says along which runs of the two the File is in conflict as long as two
statements about it contradict each other.
-/

namespace ArchiveLedger

open Relational Outcome Transition

/-! ### Statements about a File -/

/-- What an item says of the identity of its File: the Object and the external key it gives,
and, where the item is an annex entry, the state. -/
structure IdentityClaim where
  record : VerifiedV2Record
  object : Option String
  external : Option String
  state : Option IdentityState

/-- Two values are given, and they are not the same. -/
def Differ (a b : Option String) : Prop := ∃ x y, a = some x ∧ b = some y ∧ x ≠ y

/-- The causal base of a record includes a record of an origin. -/
def VerifiedV2Record.knows (frontiers : FrontierMap) (record : VerifiedV2Record) (originId : String)
    (originSeq : Nat) : Bool :=
  (frontiers.get? record.causalFrontierHash).any fun base => base.includesDot originId originSeq

def IdentityClaim.facts (frontiers : FrontierMap) : Dispute.Facts IdentityClaim where
  disagree x y := Differ x.object y.object ∨ Differ x.external y.external
  covers x y := x.record.knows frontiers y.record.originId y.record.originSeq

/-- A statement that conflicts with others, or says itself that there is a conflict. -/
def Conflicting (frontiers : FrontierMap) (said : List IdentityClaim) (x : IdentityClaim) : Prop :=
  (IdentityClaim.facts frontiers).Disputed said x ∨ (x ∈ said ∧ x.state = some .conflict)

/-! ### Runs -/

/-- An item about a File, or anything else that leaves the File alone. -/
inductive IdentityEvent where
  | content (o : Observation)
  | annex (o : Observation)
  | other

/-- A database, with what was said so far of one File. -/
structure Told where
  db : Projection
  said : List IdentityClaim

namespace Projection

def contentClaim (o : Observation) : IdentityClaim where
  record := o.record
  object := optionalString o.item "object_id"
  external := optionalString o.item "external_identity_id"
  state := none

def annexClaim (db : Projection) (o : Observation) : IdentityClaim where
  record := o.record
  object := db.annexObject o.item
  external := optionalString o.item "external_identity_id"
  state := db.annexState o.item

/-- The File of an id is in conflict, or has another object than the one observed and was
written last by a record outside the causal base of the observation. -/
def Contests (db : Projection) (frontiers : FrontierMap) (id : String) (o : Observation) : Prop :=
  ∃ file, db.fileObjects.get? id = some file ∧ (file.identityState = .conflict ∨
    ∃ c old, file.content = some c ∧ optionalString o.item "object_id" ≠ some c ∧
      db.records.get? file.lastRecord = some old ∧
      o.record.knows frontiers old.originId old.originSeq = false)

end Projection

namespace Told

def state (s : Told) (id : String) : Option IdentityState :=
  (s.db.fileObjects.get? id).map (·.identityState)

def content (s : Told) (id : String) : Option String :=
  (s.db.fileObjects.get? id).bind (·.content)

/-- One item of the File `id` at the path `k` is projected. -/
def Step (R : ProjectionRuntime) (frontiers : FrontierMap) (id : String) (k : String × StoredPath)
    (s : Told) : IdentityEvent → Told → Prop
  | .content o, t => o.fileRef = some id ∧ o.logicalPath R = some k ∧
      s.db.projectContentObserved R o.item o.record frontiers = .ok t.db ∧
      t.said = s.said ++ [Projection.contentClaim o]
  | .annex o, t => o.fileRef = some id ∧ o.logicalPath R = some k ∧
      s.db.projectAnnexEntry R o.item o.record = .ok t.db ∧ t.said = s.said ++ [s.db.annexClaim o]
  | .other, t => t.db.fileObjects.get? id = s.db.fileObjects.get? id ∧
      t.db.activeFile k.1 k.2 = s.db.activeFile k.1 k.2 ∧ t.said = s.said

/-- Nothing is known of the path. -/
structure Begins (id : String) (k : String × StoredPath) (s : Told) : Prop where
  file : s.db.fileObjects.get? id = none
  path : s.db.activeFile k.1 k.2 = none
  said : s.said = []

variable (frontiers : FrontierMap) (id : String)

/-- A step leaves the File in conflict while a dispute is open; an annex entry resolves a
conflict only when it knows of the statements in it, and takes an Object away only when it
knows of the statements that gave it. -/
structure Stands (s : Told) (e : IdentityEvent) (t : Told) : Prop where
  conflict : ∀ x y, (IdentityClaim.facts frontiers).Open t.said x y → t.state id = some .conflict
  resolves : ∀ o, e = .annex o → s.state id = some .conflict → t.state id = some .resolved →
    ∀ x, Conflicting frontiers s.said x → (IdentityClaim.facts frontiers).covers (s.db.annexClaim o) x = true
  keeps : ∀ o c, e = .annex o → s.content id = some c → t.content id = none →
    ∀ x ∈ s.said, x.object = some c → (IdentityClaim.facts frontiers).covers (s.db.annexClaim o) x = true

/-- What makes a step of an annex entry safe. -/
structure AnnexMeets (s : Told) (z : IdentityClaim) : Prop where
  conflict : z.state = some .conflict ∨
    (∀ x y, (IdentityClaim.facts frontiers).Open s.said x y →
      (IdentityClaim.facts frontiers).covers z x = true ∧ (IdentityClaim.facts frontiers).covers z y = true) ∧
    ∀ x ∈ s.said, ¬ (IdentityClaim.facts frontiers).Clash x z
  resolves : s.state id = some .conflict → z.state = some .resolved →
    ∀ x, Conflicting frontiers s.said x → (IdentityClaim.facts frontiers).covers z x = true
  keeps : ∀ c, s.content id = some c → z.object = none →
    ∀ x ∈ s.said, x.object = some c → (IdentityClaim.facts frontiers).covers z x = true

/-- What makes a step safe: an observation contests the File where it contradicts an earlier
statement. -/
def Meets (s : Told) : IdentityEvent → Prop
  | .content o => (∃ x ∈ s.said, (IdentityClaim.facts frontiers).Clash x (Projection.contentClaim o)) →
      s.db.Contests frontiers id o
  | .annex o => AnnexMeets frontiers id s (s.db.annexClaim o)
  | .other => True

/-- The File of an id is the one of its path, and in conflict while a dispute is open. -/
structure Consistent (k : String × StoredPath) (s : Told) : Prop where
  same : s.db.activeFile k.1 k.2 = s.db.fileObjects.get? id
  conflict : ∀ x y, (IdentityClaim.facts frontiers).Open s.said x y → s.state id = some .conflict

end Told

/-! ### One item -/

namespace Projection

variable {R : ProjectionRuntime} {db db' : Projection} {frontiers : FrontierMap} {o : Observation}
  {id : String} {k : String × StoredPath}

theorem Judged.contests {collectionId : String} {path : StoredPath} {objectId : String}
    {existing : Option FileObjectRow} {conflict : Bool}
    (h : Judged R db o.record frontiers collectionId path objectId existing db' conflict)
    (hfile : existing = db.fileObjects.get? id) (hobject : optionalString o.item "object_id" = some objectId) :
    conflict = true ↔ db.Contests frontiers id o := by
  cases h with
  | fresh =>
    refine iff_of_false Bool.false_ne_true ?_
    rintro ⟨file, hget, -⟩
    rw [hget] at hfile
    cases hfile
  | sticky hstate => exact iff_of_true rfl ⟨_, hfile.symm, Or.inl hstate⟩
  | agrees hstate hcontent =>
    refine iff_of_false Bool.false_ne_true ?_
    rintro ⟨file, hget, hconflict | ⟨c, old, hc, hne, -⟩⟩
    · obtain rfl := Option.some.inj (hfile.trans hget)
      exact hstate hconflict
    · obtain rfl := Option.some.inj (hfile.trans hget)
      exact hne (by rw [hcontent c hc]; exact hobject)
  | follows hstate hc hne hold hfrontier hdot =>
    refine iff_of_false Bool.false_ne_true ?_
    rintro ⟨file, hget, hconflict | ⟨c, old, -, -, hrecord, hknows⟩⟩
    · obtain rfl := Option.some.inj (hfile.trans hget)
      exact hstate hconflict
    · obtain rfl := Option.some.inj (hfile.trans hget)
      obtain rfl := Option.some.inj (hold.symm.trans hrecord)
      rw [VerifiedV2Record.knows, hfrontier, Option.any_some, hdot] at hknows
      cases hknows
  | contradicts hstate hc hne hold hfrontier hdot hinsert =>
    refine iff_of_true rfl ⟨_, hfile.symm, Or.inr ⟨_, _, hc, ?_, hold, ?_⟩⟩
    · rw [hobject]
      exact fun e => hne (Option.some.inj e).symm
    · rw [VerifiedV2Record.knows, hfrontier, Option.any_some, hdot]

/-- The File of an observation afterwards. -/
theorem projectContentObserved_identity
    (h : db.projectContentObserved R o.item o.record frontiers = .ok db')
    (hid : o.fileRef = some id) (hk : o.logicalPath R = some k)
    (hsame : db.activeFile k.1 k.2 = db.fileObjects.get? id) :
    db'.activeFile k.1 k.2 = db'.fileObjects.get? id ∧ ∃ file, db'.fileObjects.get? id = some file ∧
      (file.identityState = .conflict ↔ db.Contests frontiers id o) := by
  obtain ⟨db₁, db₂, objectId, external, fileId, hobject, hfirst, _, hobserve, hlast, _⟩ :=
    projectContentObserved_eq_ok h
  obtain ⟨row, files, db₃, conflict, hwrite, -, -, hjudged, hfiles, rfl⟩ := observeFile_eq_ok hobserve
  have hat : row.at = k := by
    obtain ⟨logical, hpath⟩ := hwrite.path
    rw [Observation.logicalPath, hwrite.collectionId, hpath] at hk
    exact Option.some.inj hk
  have hrid : row.canonicalId = id := Option.some.inj (hwrite.canonicalId.symm.trans hid)
  have hactive : db₁.activeFile row.collectionId row.path = db.fileObjects.get? id := by
    rw [activeFile, hfirst.files]
    subst hat
    exact hsame
  have hsame₃ : db₃.activeFile k.1 k.2 = db₃.fileObjects.get? id := by
    rw [activeFile, hjudged.frame]
    show db₁.fileObjects.rows.find? _ = db₁.fileObjects.get? id
    rw [hfirst.files]
    exact hsame
  let written : Projection := { db₃ with fileObjects := files }
  have hwritten : db₃.fileObjects.upsert? row (fun old => old.updated row) = some written.fileObjects := hfiles
  obtain ⟨hsame', file, hfile, hstate, -⟩ := identity_written hwritten hwrite.active hrid hat hsame₃
  have hcontests : conflict = true ↔ db₁.Contests frontiers id o :=
    hjudged.contests (by rw [hfirst.files]; exact hactive) hobject
  refine ⟨?_, file, by rw [hlast.files]; exact hfile, ?_⟩
  · rw [activeFile, hlast.files]
    exact hsame'
  · rw [hstate, hwrite.identityState]
    unfold Contests at hcontests ⊢
    rw [hfirst.files, hfirst.records] at hcontests
    rw [← hcontests]
    cases conflict <;> simp

end Projection

namespace Told

variable {R : ProjectionRuntime} {frontiers : FrontierMap} {id : String} {k : String × StoredPath}
  {s t : Told} {e : IdentityEvent} {o : Observation}

theorem content_step (hc : Consistent frontiers id k s) (h : Step R frontiers id k s (.content o) t) :
    t.db.activeFile k.1 k.2 = t.db.fileObjects.get? id ∧
      (t.state id = some .conflict ↔ s.db.Contests frontiers id o) := by
  obtain ⟨hid, hk, hproject, -⟩ := h
  obtain ⟨hsame, file, hfile, hiff⟩ := Projection.projectContentObserved_identity hproject hid hk hc.same
  refine ⟨hsame, ?_⟩
  rw [state, hfile, Option.map_some, Option.some_inj]
  exact hiff

theorem annex_step (hc : Consistent frontiers id k s) (h : Step R frontiers id k s (.annex o) t) :
    t.db.activeFile k.1 k.2 = t.db.fileObjects.get? id ∧
      t.state id = s.db.annexState o.item ∧ t.content id = s.db.annexObject o.item := by
  obtain ⟨hid, hk, hproject, -⟩ := h
  obtain ⟨hsame, file, hfile, hstate, hcontent⟩ :=
    Projection.projectAnnexEntry_identity hproject hid hk hc.same
  refine ⟨hsame, ?_, ?_⟩
  · rw [state, hfile, hstate, Option.map_some]
  · rw [content, hfile, Option.bind_some, hcontent]

theorem step_same (hc : Consistent frontiers id k s) (h : Step R frontiers id k s e t) :
    t.db.activeFile k.1 k.2 = t.db.fileObjects.get? id := by
  cases e with
  | content o => exact (content_step hc h).1
  | annex o => exact (annex_step hc h).1
  | other =>
    obtain ⟨hfile, hpath, -⟩ := h
    rw [hfile, hpath]
    exact hc.same

/-- A File in conflict stays so under an observation. -/
theorem contests_of_conflict (h : s.state id = some .conflict) : s.db.Contests frontiers id o := by
  obtain ⟨file, hfile, hstate⟩ := Option.map_eq_some_iff.mp h
  exact ⟨file, hfile, Or.inl hstate⟩

theorem stands_content (hc : Consistent frontiers id k s) (h : Step R frontiers id k s (.content o) t) :
    Stands frontiers id s (.content o) t ↔ Meets frontiers id s (.content o) := by
  have hstate := (content_step hc h).2
  have hsaid : t.said = s.said ++ [Projection.contentClaim o] := h.2.2.2
  constructor
  · rintro hstands ⟨x, hx, hclash⟩
    refine hstate.mp (hstands.conflict x (Projection.contentClaim o) ?_)
    rw [hsaid]
    exact Dispute.Facts.open_concat.mpr (Or.inr ⟨rfl, hx, hclash⟩)
  · intro hmeets
    refine ⟨fun x y hopen => ?_, fun _ he => (by cases he), fun _ _ he => (by cases he)⟩
    rw [hsaid] at hopen
    rcases Dispute.Facts.open_concat.mp hopen with ⟨hold, -⟩ | ⟨rfl, hx, hclash⟩
    · exact hstate.mpr (contests_of_conflict (hc.conflict x y hold))
    · exact hstate.mpr (hmeets ⟨x, hx, hclash⟩)

theorem stands_annex (hc : Consistent frontiers id k s) (h : Step R frontiers id k s (.annex o) t) :
    Stands frontiers id s (.annex o) t ↔ Meets frontiers id s (.annex o) := by
  obtain ⟨-, hstate, hcontent⟩ := annex_step hc h
  have hsaid : t.said = s.said ++ [s.db.annexClaim o] := h.2.2.2
  constructor
  · intro hstands
    refine ⟨?_, ?_, ?_⟩
    · by_cases hconflict : s.db.annexState o.item = some .conflict
      · exact Or.inl hconflict
      have hnone : ∀ x y, ¬ (IdentityClaim.facts frontiers).Open t.said x y :=
        fun x y hopen => hconflict (hstate.symm.trans (hstands.conflict x y hopen))
      rw [hsaid] at hnone
      refine Or.inr ⟨fun x y hopen => ?_, fun x hx hclash => ?_⟩
      · by_contra hcovers
        exact hnone x y (Dispute.Facts.open_concat.mpr (Or.inl ⟨hopen, hcovers⟩))
      · exact hnone x _ (Dispute.Facts.open_concat.mpr (Or.inr ⟨rfl, hx, hclash⟩))
    · intro hconflict hresolved
      exact hstands.resolves o rfl hconflict (hstate.trans hresolved)
    · intro c hbefore hafter
      exact hstands.keeps o c rfl hbefore (hcontent.trans hafter)
  · intro hmeets
    refine ⟨fun x y hopen => ?_, ?_, ?_⟩
    · rw [hsaid] at hopen
      rcases hmeets.conflict with hwritten | ⟨hcovers, hclash⟩
      · exact hstate.trans hwritten
      · rcases Dispute.Facts.open_concat.mp hopen with ⟨hold, hnot⟩ | ⟨rfl, hx, hxz⟩
        · exact absurd (hcovers x y hold) hnot
        · exact absurd hxz (hclash x hx)
    · intro o' he hconflict hresolved
      cases he
      exact hmeets.resolves hconflict (hstate.symm.trans hresolved)
    · intro o' c he hbefore hafter
      cases he
      exact hmeets.keeps c hbefore (hcontent.symm.trans hafter)

theorem stands_other (hc : Consistent frontiers id k s) (h : Step R frontiers id k s .other t) :
    Stands frontiers id s .other t := by
  obtain ⟨hfile, -, hsaid⟩ := h
  refine ⟨fun x y hopen => ?_, fun _ he => (by cases he), fun _ _ he => (by cases he)⟩
  rw [hsaid] at hopen
  rw [state, hfile]
  exact hc.conflict x y hopen

/-! ### Whole runs -/

theorem Begins.consistent (h : Begins id k s) : Consistent frontiers id k s := by
  refine ⟨h.path.trans h.file.symm, fun x y hopen => ?_⟩
  rw [h.said] at hopen
  exact absurd hopen Dispute.Facts.not_open_nil

/-- Along a run, conflicts stand exactly when every step is safe. -/
theorem stands_iff_meets {p : List (IdentityEvent × Told)} (hs : Begins id k s)
    (hp : Path (Step R frontiers id k) s p) :
    Path (Stands frontiers id) s p ↔ Path (fun s e _ => Meets frontiers id s e) s p := by
  have hstep : ∀ s e t, Consistent frontiers id k s → Step R frontiers id k s e t →
      (Stands frontiers id s e t ↔ Meets frontiers id s e) := by
    intro s e t hc h
    cases e with
    | content o => exact stands_content hc h
    | annex o => exact stands_annex hc h
    | other => exact iff_of_true (stands_other hc h) trivial
  have hkeep : ∀ s e t, Consistent frontiers id k s → Step R frontiers id k s e t →
      Stands frontiers id s e t → Consistent frontiers id k t :=
    fun s e t hc h hstands => ⟨step_same hc h, hstands.conflict⟩
  exact Path.congr_of_invariant hstep hkeep hs.consistent hp

end Told

/-! ### An annex entry replaces an observation -/

namespace Sample

/-- An annex entry gives an object to the path. -/
def annexEntry (object : Nat) (resolution : String) : Json :=
  .obj [("kind", string "annex_entry_observed"), ("object_id", string ("blake3:" ++ objectDigest object)),
    ("blake3_hex", string (objectDigest object)), ("observed_size_bytes", .num "1"),
    ("collection_id", string collectionId), ("logical_path", pathJson "a"),
    ("file_ref_id", string "file_a"), ("external_identity_id", string "ext_a"),
    ("external_key", string "key_a"), ("resolution_state", string resolution),
    ("worktree_location_id", string (locationId 1)), ("path_state", string "present"),
    ("source_repo_id", string "repo_a"), ("cas_location_id", string (locationId 1)),
    ("local_availability", string "present")]

/-- Client `n` imports the path with an object. -/
def imported (n object base : Nat) : ProjectedBatch :=
  ⟨n, n, 0, base, [annexEntry object "resolved"]⟩

def importedEntry (n object base : Nat) : Observation :=
  ⟨chunkRecord (imported n object base), annexEntry object "resolved"⟩

theorem importedEntry_path (n object base : Nat) :
    (importedEntry n object base).logicalPath projectionRuntime = some samplePath := rfl

theorem observation_path (n object base : Nat) :
    (observation n object base).logicalPath projectionRuntime = some samplePath := rfl

theorem importedEntry_ref (n object base : Nat) : (importedEntry n object base).fileRef = some "file_a" := rfl

theorem observation_ref (n object base : Nat) : (observation n object base).fileRef = some "file_a" := rfl

/-- The records of some chunks are known, and nothing of what they hold is projected. -/
def recorded (context : V2VerificationContext) (batches : List ProjectedBatch) : Projection :=
  (commitAll (fun db r => (db.insertRecord r).map Prod.fst) (begun context batches)
    (batches.map chunkRecord)).toOption.getD (begun context batches)

/-- One client observes an object while another that knows nothing of it imports a second one. -/
def contended : Projection := recorded strangersContext [seen 1 1 0, imported 2 2 0]

theorem contended_run : ∃ db, (contended.projectContentObserved projectionRuntime (observation 1 1 0).item
      (observation 1 1 0).record strangersContext.frontiers) = .ok db ∧
    ∃ db', db.projectAnnexEntry projectionRuntime (importedEntry 2 2 0).item
        (importedEntry 2 2 0).record = .ok db' ∧
      (db'.fileObjects.get? "file_a").any (fun f => f.identityState = .resolved) = true := by
  have hany : ∃ db, (contended.projectContentObserved projectionRuntime (observation 1 1 0).item
      (observation 1 1 0).record strangersContext.frontiers) = .ok db ∧
      (db.projectAnnexEntry projectionRuntime (importedEntry 2 2 0).item
        (importedEntry 2 2 0).record).toOption.any (fun db' =>
          (db'.fileObjects.get? "file_a").any fun f => f.identityState = .resolved) = true :=
    exists_ok_of_any (by decide +kernel)
  obtain ⟨db, hdb, h⟩ := hany
  exact ⟨db, hdb, exists_ok_of_any h⟩

theorem contended_begins : Told.Begins "file_a" samplePath ⟨contended, []⟩ :=
  ⟨by decide +kernel, by decide +kernel, rfl⟩

/-- The observation, and the entry that follows it. -/
def contendedPath (db db' : Projection) : List (IdentityEvent × Told) :=
  [(.content (observation 1 1 0), ⟨db, [Projection.contentClaim (observation 1 1 0)]⟩),
    (.annex (importedEntry 2 2 0),
      ⟨db', [Projection.contentClaim (observation 1 1 0), db.annexClaim (importedEntry 2 2 0)]⟩)]

theorem observation_step {frontiers : FrontierMap} {db db' : Projection} {said : List IdentityClaim}
    {n object base : Nat}
    (h : db.projectContentObserved projectionRuntime (observation n object base).item
      (observation n object base).record frontiers = .ok db') :
    Told.Step projectionRuntime frontiers "file_a" samplePath ⟨db, said⟩
      (.content (observation n object base))
      ⟨db', said ++ [Projection.contentClaim (observation n object base)]⟩ :=
  ⟨observation_ref n object base, observation_path n object base, h, rfl⟩

theorem importedEntry_step {frontiers : FrontierMap} {db db' : Projection} {said : List IdentityClaim}
    {n object base : Nat}
    (h : db.projectAnnexEntry projectionRuntime (importedEntry n object base).item
      (importedEntry n object base).record = .ok db') :
    Told.Step projectionRuntime frontiers "file_a" samplePath ⟨db, said⟩
      (.annex (importedEntry n object base))
      ⟨db', said ++ [db.annexClaim (importedEntry n object base)]⟩ :=
  ⟨importedEntry_ref n object base, importedEntry_path n object base, h, rfl⟩

theorem contended_path {db db' : Projection}
    (h : contended.projectContentObserved projectionRuntime (observation 1 1 0).item
      (observation 1 1 0).record strangersContext.frontiers = .ok db)
    (h' : db.projectAnnexEntry projectionRuntime (importedEntry 2 2 0).item
      (importedEntry 2 2 0).record = .ok db') :
    Path (Told.Step projectionRuntime strangersContext.frontiers "file_a" samplePath) ⟨contended, []⟩
      (contendedPath db db') :=
  ⟨observation_step h, importedEntry_step h', trivial⟩

/-- The two contradict each other and the File is not in conflict. -/
theorem contended_replaced : ∃ p, Told.Begins "file_a" samplePath ⟨contended, []⟩ ∧
    Path (Told.Step projectionRuntime strangersContext.frontiers "file_a" samplePath) ⟨contended, []⟩ p ∧
    ¬ Path (Told.Stands strangersContext.frontiers "file_a") ⟨contended, []⟩ p := by
  obtain ⟨db, hdb, db', hdb', hfile⟩ := contended_run
  refine ⟨contendedPath db db', contended_begins, contended_path hdb hdb', ?_⟩
  rintro ⟨-, ⟨hconflict, -, -⟩, -⟩
  obtain ⟨file, hget, hstate⟩ := (Option.any_eq_true _ _).mp hfile
  have hopen : (IdentityClaim.facts strangersContext.frontiers).Open
      [Projection.contentClaim (observation 1 1 0), db.annexClaim (importedEntry 2 2 0)]
      (Projection.contentClaim (observation 1 1 0)) (db.annexClaim (importedEntry 2 2 0)) := by
    refine ⟨[_], [], rfl, List.mem_singleton_self _, ⟨Or.inl ⟨_, _, rfl, rfl, ?_⟩, ?_, ?_⟩,
      fun z hz => absurd hz List.not_mem_nil⟩
    · decide +kernel
    · show (observation 1 1 0).record.knows strangersContext.frontiers
        (importedEntry 2 2 0).record.originId (importedEntry 2 2 0).record.originSeq = false
      decide +kernel
    · show (importedEntry 2 2 0).record.knows strangersContext.frontiers
        (observation 1 1 0).record.originId (observation 1 1 0).record.originSeq = false
      decide +kernel
  have hstands := hconflict _ _ hopen
  rw [Told.state, hget, Option.map_some, of_decide_eq_true hstate] at hstands
  cases hstands

theorem contended_meets : ∃ db db',
    Path (Told.Step projectionRuntime strangersContext.frontiers "file_a" samplePath) ⟨contended, []⟩
      (contendedPath db db') ∧
    (Path (Told.Stands strangersContext.frontiers "file_a") ⟨contended, []⟩ (contendedPath db db') ↔
      Path (fun s e _ => Told.Meets strangersContext.frontiers "file_a" s e) ⟨contended, []⟩
        (contendedPath db db')) := by
  obtain ⟨db, hdb, db', hdb', -⟩ := contended_run
  have hpath := contended_path hdb hdb'
  exact ⟨db, db', hpath, Told.stands_iff_meets contended_begins hpath⟩

end Sample

end ArchiveLedger
