import ArchiveLedger.Catalog.Registry
import ArchiveLedger.Catalog.Removed

/-!
# Runs of a catalog

The calls that write a catalog, as data (`Op`): `next` is the catalog after a call
that may have failed, and a run is a list of calls from any arguments.  Its `trace`
shows the catalog also between the submissions of the batches that commit, each
step with the `Event` that made it.

New object identifiers come from a ULID generator outside the repository; a run
is `UlidsFresh` where each batch draws identifiers that differ from one another and
from those in use.
-/

namespace ArchiveLedger

open Transition

/-- The calls that may change a catalog. -/
inductive Op where
  | observeBatch (newIds : Nat → String) (observations : List CatalogObservation)
  | beginCatalogJob (id kind : String) (parameters : Json) (time : Nat)
  | resetScanCoverage (jobId : String)
  | checkpointCatalogJob (jobId : String) (progress : Json)
  | finishCatalogScan (jobId collectionId locationId : String) (completeCoverage : Bool)
      (time : Nat) (summary : Json)
  | finishCatalogJob (jobId status : String) (time : Nat) (summary : Json)
  | markRemoved (request : RemovedSelection) (time : Nat)
  | recordBatch (changes : List RegistryChange) (hostId : String) (time : Nat)
  | renameArchive (name : String) (time : Nat)

/-- The catalog a call commits; a call that fails commits nothing. -/
def exec (c : Catalog) : Op → Option Catalog
  | .observeBatch newIds observations => (observeBatch newIds c observations).toOption.map Prod.snd
  | .beginCatalogJob id kind parameters time =>
      (beginCatalogJob c id kind parameters time).toOption.map Prod.snd
  | .resetScanCoverage jobId => (resetScanCoverage c jobId).toOption
  | .checkpointCatalogJob jobId progress => (checkpointCatalogJob c jobId progress).toOption
  | .finishCatalogScan jobId collectionId locationId completeCoverage time summary =>
      (finishCatalogScan c jobId collectionId locationId completeCoverage time
        summary).toOption.map Prod.snd
  | .finishCatalogJob jobId status time summary =>
      (finishCatalogJob c jobId status time summary).toOption
  | .markRemoved request time => (markRemoved c request time).toOption.map Prod.snd
  | .recordBatch changes hostId time => (recordBatch c changes hostId time).toOption.map Prod.snd
  | .renameArchive name time => (renameArchive c name time).toOption

def next (c : Catalog) (op : Op) : Catalog := (exec c op).getD c

/-! ### Steps -/

/-- What moves a catalog: a submission of a batch that commits, or a call as a whole. -/
inductive Event where
  | submitted (newId : String) (o : CatalogObservation) (outcome : ObservationOutcome)
      (fresh : Bool)
  | committed (op : Op)

/-- The steps of the loop of `observe_batch`. -/
def submissions (newIds : Nat → String) (tx : Catalog) :
    List CatalogObservation → List (Event × Catalog)
  | [] => []
  | o :: rest =>
      match submit (newIds 0) tx o with
      | .ok s =>
          (.submitted (newIds 0) o s.outcome s.fresh, s.tx) ::
            submissions (fun n => newIds (n + 1)) s.tx rest
      | .error _ => []

/-- The steps before the one that commits the call. -/
def Op.prelude (c : Catalog) : Op → List (Event × Catalog)
  | .observeBatch newIds observations => submissions newIds c observations
  | _ => []

/-- The steps of one call. -/
def effects (c : Catalog) (op : Op) : List (Event × Catalog) :=
  match exec c op with
  | some d => op.prelude c ++ [(.committed op, d)]
  | none => []

/-- The steps of a run. -/
def trace (c : Catalog) : List Op → List (Event × Catalog)
  | [] => []
  | op :: ops => effects c op ++ trace (next c op) ops

/-- How an event leads from one catalog to the next. -/
def Change (c : Catalog) : Event → Catalog → Prop
  | .submitted newId o outcome fresh, d => submit newId c o = .ok ⟨outcome, fresh, d⟩
  | .committed (.observeBatch _ _), d => d = c ∨ d = c.bumpRevision
  | .committed op, d => exec c op = some d

/-- A submission draws an identifier that no object has. -/
def Event.Unused (c : Catalog) : Event → Prop
  | .submitted newId _ _ _ => c.objects.get? newId = none
  | .committed _ => True

/-- The identifiers a call may draw are new. -/
def UlidsFresh (c : Catalog) : Op → Prop
  | .observeBatch newIds _ =>
      Function.Injective newIds ∧ ∀ n, c.objects.get? (newIds n) = none
  | _ => True

/-- The state a catalog is in after a run from its creation. -/
def Reachable (c : Catalog) : Prop :=
  ∃ archiveId displayName ops, Admissible next UlidsFresh (Catalog.create archiveId displayName) ops ∧
    c = run next (Catalog.create archiveId displayName) ops

theorem submissions_cons {newIds : Nat → String} {tx : Catalog} {o : CatalogObservation}
    {rest : List CatalogObservation} {s : Submission} (h : submit (newIds 0) tx o = .ok s) :
    submissions newIds tx (o :: rest) =
      (.submitted (newIds 0) o s.outcome s.fresh, s.tx) ::
        submissions (fun n => newIds (n + 1)) s.tx rest := by
  rw [submissions, h]

/-- The loop of a batch that succeeds, taken apart at its first observation. -/
theorem observeLoop_cons {newIds : Nat → String} {tx d : Catalog} {o : CatalogObservation}
    {rest : List CatalogObservation} {outcomes : List ObservationOutcome} {changed : Bool} :
    observeLoop newIds tx (o :: rest) = .ok (outcomes, changed, d) ↔
      ∃ s more changedMore, submit (newIds 0) tx o = .ok s ∧
        observeLoop (fun n => newIds (n + 1)) s.tx rest = .ok (more, changedMore, d) ∧
        outcomes = s.outcome :: more ∧ changed = (s.fresh || changedMore) := by
  rw [observeLoop, bind_eq_ok]
  constructor
  · rintro ⟨s, hs, h⟩
    rw [bind_eq_ok] at h
    obtain ⟨⟨more, changedMore, e⟩, hmore, h⟩ := h
    cases h
    exact ⟨s, more, changedMore, hs, hmore, rfl, rfl⟩
  · rintro ⟨s, more, changedMore, hs, hmore, rfl, rfl⟩
    refine ⟨s, hs, ?_⟩
    rw [bind_eq_ok]
    exact ⟨_, hmore, rfl⟩

theorem observeBatch_eq_ok {newIds : Nat → String} {c d : Catalog}
    {observations : List CatalogObservation} {outcomes : List ObservationOutcome} :
    observeBatch newIds c observations = .ok (outcomes, d) ↔
      ∃ changed tx, observeLoop newIds c observations = .ok (outcomes, changed, tx) ∧
        d = if changed then tx.bumpRevision else tx := by
  rw [observeBatch, bind_eq_ok]
  constructor
  · rintro ⟨⟨outs, changed, tx⟩, hloop, h⟩
    cases h
    exact ⟨changed, tx, hloop, rfl⟩
  · rintro ⟨changed, tx, hloop, rfl⟩
    exact ⟨_, hloop, rfl⟩

theorem toOption_eq_some {ε α : Type} {x : Except ε α} {a : α} :
    x.toOption = some a ↔ x = .ok a := by
  cases x <;> simp [Except.toOption]

theorem exec_observeBatch {newIds : Nat → String} {c d : Catalog}
    {observations : List CatalogObservation} :
    exec c (.observeBatch newIds observations) = some d ↔
      ∃ outcomes, observeBatch newIds c observations = .ok (outcomes, d) := by
  simp only [exec, Option.map_eq_some_iff, toOption_eq_some, Prod.exists, exists_eq_right]

/-- A loop that succeeds goes through its submissions. -/
theorem final_submissions {newIds : Nat → String} {tx d : Catalog}
    {observations : List CatalogObservation} {outcomes : List ObservationOutcome} {changed : Bool}
    (h : observeLoop newIds tx observations = .ok (outcomes, changed, d)) :
    final tx (submissions newIds tx observations) = d := by
  induction observations generalizing newIds tx outcomes changed with
  | nil => cases h; rfl
  | cons o rest ih =>
    obtain ⟨s, more, changedMore, hs, hmore, -, -⟩ := observeLoop_cons.mp h
    rw [submissions_cons hs]
    exact ih hmore

theorem path_submissions (newIds : Nat → String) (tx : Catalog)
    (observations : List CatalogObservation) :
    Path Change tx (submissions newIds tx observations) := by
  induction observations generalizing newIds tx with
  | nil => trivial
  | cons o rest ih =>
    rw [submissions]
    split
    · rename_i s hs
      exact ⟨hs, ih _ _⟩
    · trivial

theorem next_of_exec {c d : Catalog} {op : Op} (h : exec c op = some d) : next c op = d := by
  rw [next, h]
  rfl

theorem next_of_failure {c : Catalog} {op : Op} (h : exec c op = none) : next c op = c := by
  rw [next, h]
  rfl

/-- The last step of a call: after a batch only the revision is left to move. -/
theorem change_committed {c d : Catalog} {op : Op} (h : exec c op = some d) :
    Change (final c (op.prelude c)) (.committed op) d := by
  cases op with
  | observeBatch newIds observations =>
    obtain ⟨outcomes, hbatch⟩ := exec_observeBatch.mp h
    obtain ⟨changed, tx, hloop, rfl⟩ := observeBatch_eq_ok.mp hbatch
    have hfinal := final_submissions hloop
    simp only [Change, Op.prelude, hfinal]
    cases changed
    · exact Or.inl rfl
    · exact Or.inr rfl
  | _ => exact h

theorem path_effects (c : Catalog) (op : Op) : Path Change c (effects c op) := by
  unfold effects
  split
  · rename_i d hd
    refine path_append.mpr ⟨?_, change_committed hd, trivial⟩
    cases op with
    | observeBatch newIds observations => exact path_submissions newIds c observations
    | _ => trivial
  · trivial

@[simp] theorem final_effects (c : Catalog) (op : Op) : final c (effects c op) = next c op := by
  unfold effects next
  split
  · rename_i d hd
    simp [hd]
  · rename_i hd
    simp [hd]

theorem final_trace (c : Catalog) (ops : List Op) : final c (trace c ops) = run next c ops := by
  induction ops generalizing c with
  | nil => rfl
  | cons op ops ih => rw [trace, final_append, final_effects, ih, run_cons]

/-- Every step of a run is a change its event describes. -/
theorem path_trace (c : Catalog) (ops : List Op) : Path Change c (trace c ops) := by
  induction ops generalizing c with
  | nil => trivial
  | cons op ops ih =>
    rw [trace]
    exact path_append.mpr ⟨path_effects c op, by rw [final_effects]; exact ih _⟩

/-! ### A small archive -/

/-- A service Location of the small archive. -/
def sampleLocation (id : String) : LocationSnapshot where
  locationId := id
  displayName := id
  kind := "service"
  archiveRootId := none
  relativePath := none
  deviceId := none
  siteId := some "home"
  encryptionState := none
  trustLevel := none
  expectedAvailability := "online"
  isWritable := true
  status := "active"

/-- One Collection and two Locations. -/
def sampleRegistry : List RegistryChange :=
  [.site .register ⟨"home", "Home", "home", none, "active"⟩,
    .collection .register ⟨"photos", "Photos", none, none, none, "active"⟩,
    .location .register (sampleLocation "usb"), .location .register (sampleLocation "sd")]

def sampleDigest (n : UInt8) : Digest := Vector.replicate 32 n

/-- A checksum of `photos/a.jpg` at a Location. -/
def sampleObservation (locationId : String) (time : Nat) (blake3 : Digest) (accept : Bool) :
    CatalogObservation where
  collectionId := "photos"
  locationId := locationId
  path := .utf8 "a.jpg"
  timeUtcMs := time
  result := .checksum blake3 3
  acceptChange := accept
  operationKey := none
  jobId := none

def sampleIds (n : Nat) : String := String.ofList (List.replicate (n + 1) 'o')

theorem sampleIds_injective : Function.Injective sampleIds := by
  intro m n h
  have hlen := congrArg (fun s : String => s.toList.length) h
  simpa [sampleIds] using hlen

/-- Identifiers beyond those in use are fresh. -/
theorem sampleIds_fresh {c : Catalog} {k : Nat} (observations : List CatalogObservation)
    (h : ∀ r ∈ c.objects.rows, ∃ i, i < k ∧ r.objectId = sampleIds i) :
    UlidsFresh c (.observeBatch (fun n => sampleIds (n + k)) observations) := by
  refine ⟨fun m n heq => Nat.add_right_cancel (sampleIds_injective heq), fun n => ?_⟩
  refine Relational.Table.get?_eq_none.mpr fun r hr heq => ?_
  obtain ⟨i, hi, hid⟩ := h r hr
  have hsame : i = n + k := sampleIds_injective (hid.symm.trans heq)
  omega

/-- Both copies are checked and hold the same bytes. -/
def sampleOps : List Op :=
  [.recordBatch sampleRegistry "host" 1,
    .observeBatch sampleIds [sampleObservation "usb" 100 (sampleDigest 7) false,
      sampleObservation "sd" 100 (sampleDigest 7) false]]

def sampleCatalog : Catalog := run next (Catalog.create "archive" "Archive") sampleOps

theorem sampleOps_admissible :
    Admissible next UlidsFresh (Catalog.create "archive" "Archive") sampleOps := by
  have hempty : (next (Catalog.create "archive" "Archive")
      (.recordBatch sampleRegistry "host" 1)).objects.rows = [] := by decide +kernel
  refine ⟨trivial, ⟨sampleIds_injective, fun n => ?_⟩, trivial⟩
  rw [Relational.Table.get?_eq_none, hempty]
  exact nofun

end ArchiveLedger
