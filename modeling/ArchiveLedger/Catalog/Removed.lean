import ArchiveLedger.Catalog.Queries
import ArchiveLedger.Catalog.Writes

/-!
# Removal declarations

`sqlite_removed.rs`: the copies of selected objects at one target Location are
declared missing without looking at any filesystem.  `previewRemoved` streams the
paths a removal would affect; `markRemoved` freezes the selected objects before
it changes the evidence that selected them, then writes history, rows and
revision together.
-/

namespace ArchiveLedger

open Relational

inductive RemovedSelection where
  | path (locationId : String) (collectionId : Option String) (path : EncodedPath)
  | groups (filter : CatalogFileFilter)
deriving DecidableEq, Repr

structure RemovedResult where
  locationId : String
  filesMarkedMissing : Nat
deriving DecidableEq, Repr

/-- What a request selects, over the objects with a copy at the target. -/
structure RemovalSelection where
  target : String
  predicate : CatalogSelection
  single : Bool

/-- The target of a request, its filter, and whether it names a single path. -/
def removalScope : RemovedSelection → QueryResult (String × CatalogFileFilter × Bool)
  | .path locationId collectionId path =>
      .ok (locationId,
        { CatalogFileFilter.default with collectionId := collectionId, exactPath := some path },
        true)
  | .groups filter =>
      match filter.locationGroups with
      | [] => .error (.invalidFilter "bulk removal requires a positive target Location group")
      | first :: _ =>
          match first.negated, first.locationIds with
          | false, [target] => .ok (target, filter, false)
          | _, _ => .error (.invalidFilter "the first removal group must be positive and contain exactly one target Location")

/-- The object has a copy at the target. -/
def hasCopy (target : String) : Clause := fun c o =>
  (c.files.get? (o.objectId, target)).isSome

def removalSelection (request : RemovedSelection) (time : Nat) : QueryResult RemovalSelection := do
  let (target, filter, single) ← removalScope request
  if target = "" then .error (.invalidFilter "target Location is empty")
  else
    let predicate ← selectionPredicate filter (filter.asOfUtcMs.getD time)
    .ok ⟨target, ⟨predicate.clauses ++ [hasCopy target]⟩, single⟩

/-- The Location must be active, and a single path must not be ambiguous. -/
def validateRemoval (c : Catalog) (selection : RemovalSelection) : QueryResult Unit :=
  if ¬ (c.locations.get? selection.target).any (fun r => r.snapshot.status = "active") then
    .error (.invalidFilter "target Location is missing or retired")
  else if selection.single ∧ (c.objects.rows.filter (selection.predicate.holds c)).length > 1 then
    .error (.invalidFilter
      "path exists in multiple Collections at this Location; specify --collection")
  else .ok ()

/-- The copy at the target that a removal changes. -/
def removableCopy (target : String) : Clause := fun c o =>
  (c.files.get? (o.objectId, target)).any fun f => f.presence ≠ .missing

def affectedPredicate (selection : RemovalSelection) : CatalogSelection :=
  ⟨selection.predicate.clauses ++ [removableCopy selection.target]⟩

/-- Stream the exact affected paths from one snapshot; the callback may stop it. -/
def previewRemoved {σ : Type} (c : Catalog) (request : RemovedSelection) (time : Nat)
    (visit : σ → LosslessPath → QueryResult σ) (start : σ) : QueryResult (σ × RemovedResult) := do
  let selection ← removalSelection request time
  validateRemoval c selection
  let paths := (selectObjects c (affectedPredicate selection)).map fun o => (readPath o).relativePath
  let final ← Transition.commitAll visit start paths
  .ok (final, ⟨selection.target, paths.length⟩)

theorem FileRow.check_unverified (f : FileRow) :
    Integrity.unverified = .verified → f.lastSuccessTimeUtcMs.isSome = true := by
  intro h
  cases h

/-- The row after its copy was declared removed: the bytes last seen and the last
success stay. -/
def FileRow.declareRemoved (time : Nat) (f : FileRow) : FileRow :=
  { f with
    presence := .missing
    integrity := .unverified
    lastCheckTimeUtcMs := some time
    lastCheckResult := some .missing
    check_timed := Eq.refl false
    check_verified := f.check_unverified }

/-- The `file_removed` history row of an object and its copy. -/
def removedHistory (time : Nat) (o : ObjectRow) (f : FileRow) : HistoryRow where
  objectId := some o.objectId
  locationId := some f.locationId
  timeUtcMs := time
  kind := .fileRemoved
  checkResult := some .missing
  expectedBlake3 := o.expectedBlake3
  observedBlake3 := f.observedBlake3
  details := .removed f.presence f.integrity

/-- `catalog_removed_selection`: the objects whose copy the removal changes. -/
def removedObjects (c : Catalog) (selection : RemovalSelection) : List ObjectRow :=
  c.objects.rows.filter ((affectedPredicate selection).holds c)

/-- The copies at the target of the selected objects. -/
def isRemoved (selected : List ObjectRow) (target : String) (f : FileRow) : Bool :=
  f.locationId = target && (selected.map ObjectRow.objectId).contains f.objectId

/-- The statements of a removal with a selection that is not empty. -/
def declareRemoved (tx : Catalog) (selected : List ObjectRow) (target : String) (time : Nat) :
    Catalog :=
  { tx with
    history := tx.history ++ selected.filterMap fun o =>
      (tx.files.get? (o.objectId, target)).map (removedHistory time o)
    files := tx.files.modify (isRemoved selected target) (.declareRemoved time) }

/-- A selected copy has a check later than `time`. -/
def removalPredatesCheck (tx : Catalog) (selected : List ObjectRow) (target : String) (time : Nat) :
    Bool :=
  selected.any fun o => checkedAfter tx o.objectId target time

/-- Selection, missing declarations, history and revision commit together. -/
def markRemoved (c : Catalog) (request : RemovedSelection) (timeUtcMs : Nat) :
    QueryResult (RemovedResult × Catalog) :=
  match sqlInteger timeUtcMs with
  | none => .error (.invalidFilter "time exceeds SQLite range")
  | some time => do
      let selection ← removalSelection request timeUtcMs
      validateRemoval c selection
      let selected := removedObjects c selection
      if selected.length > 0 then
        if removalPredatesCheck c selected selection.target time then
          .error (.invalidFilter "removal predates a selected copy's current check")
        else
          .ok (⟨selection.target, selected.length⟩,
            (declareRemoved c selected selection.target time).bumpRevision)
      else .ok (⟨selection.target, 0⟩, c)

end ArchiveLedger
