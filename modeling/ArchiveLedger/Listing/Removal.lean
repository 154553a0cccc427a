import ArchiveLedger.Catalog.Effects
import ArchiveLedger.Listing.Selection

/-!
# A removal changes what its preview shows

`previewRemoved` and `markRemoved` select by the same predicate, the one reading a
snapshot and the other freezing the selection before it changes the evidence it
was made on.  `RemovalAgrees` says what a removal does in terms of the objects the
preview visits.  Repeated with the same predicate it selects nothing more; with an
age in a Location group the predicate depends on the time of the call, and a later
repetition can select other rows.
-/

namespace ArchiveLedger

open Relational Transition

/-- The predicate of the request does not depend on the time of the call. -/
def RemovedSelection.Timeless : RemovedSelection → Prop
  | .path _ _ _ => True
  | .groups filter => filter.asOfUtcMs.isSome = true ∨
      ∀ g ∈ filter.locationGroups, g.verifiedWithinMs = none

theorem removalSelection_eq_ok {request : RemovedSelection} {time : Nat}
    {selection : RemovalSelection} :
    removalSelection request time = .ok selection ↔
      ∃ filter predicate, removalScope request = .ok (selection.target, filter, selection.single) ∧
        selection.target ≠ "" ∧
        selectionPredicate filter (filter.asOfUtcMs.getD time) = .ok predicate ∧
        selection.predicate = ⟨predicate.clauses ++ [hasCopy selection.target]⟩ := by
  rw [removalSelection, bind_eq_ok]
  constructor
  · rintro ⟨⟨target, filter, single⟩, hscope, h⟩
    dsimp only at h
    split at h
    · cases h
    · rename_i hne
      obtain ⟨predicate, hpred, h⟩ := bind_eq_ok.mp h
      cases h
      exact ⟨filter, predicate, hscope, hne, hpred, rfl⟩
  · rintro ⟨filter, predicate, hscope, hne, hpred, hsel⟩
    refine ⟨_, hscope, ?_⟩
    dsimp only
    rw [if_neg hne, bind_eq_ok]
    refine ⟨predicate, hpred, ?_⟩
    rw [← hsel]

/-- A bulk request has a positive first group with the target as its only Location. -/
theorem removalScope_groups {filter filter' : CatalogFileFilter} {target : String} {single : Bool}
    (h : removalScope (.groups filter) = .ok (target, filter', single)) :
    filter' = filter ∧ single = false ∧ ∃ first rest, filter.locationGroups = first :: rest ∧
      first.negated = false ∧ first.locationIds = [target] := by
  rw [removalScope] at h
  split at h
  · cases h
  · rename_i first rest hgroups
    split at h
    · rename_i hneg hids
      cases h
      exact ⟨rfl, rfl, first, rest, hgroups, hneg, hids⟩
    · cases h

/-- A single path is asked for without Location groups. -/
theorem groups_of_single {request : RemovedSelection} {target : String} {filter : CatalogFileFilter}
    (h : removalScope request = .ok (target, filter, true)) : filter.locationGroups = [] := by
  cases request with
  | path locationId collectionId path =>
    obtain ⟨-, rfl, -⟩ := Prod.mk.inj (Except.ok.inj h) |>.imp id Prod.mk.inj
    rfl
  | groups filter' =>
    obtain ⟨-, hsingle, -⟩ := removalScope_groups h
    cases hsingle

/-- A request whose predicate does not depend on the time selects the same later. -/
theorem removalSelection_timeless {request : RemovedSelection} {time time' : Nat}
    {selection : RemovalSelection} (h : removalSelection request time = .ok selection)
    (htimeless : request.Timeless ∨ time' = time) (ht : time' ≤ i64Max) :
    removalSelection request time' = .ok selection := by
  rcases htimeless with htimeless | rfl
  · obtain ⟨filter, predicate, hscope, hne, hpred, hsel⟩ := removalSelection_eq_ok.mp h
    refine removalSelection_eq_ok.mpr ⟨filter, predicate, hscope, hne, ?_, hsel⟩
    cases request with
    | path locationId collectionId path =>
      obtain ⟨-, rfl, -⟩ := Prod.mk.inj (Except.ok.inj hscope) |>.imp id Prod.mk.inj
      exact selectionPredicate_timeless nofun hpred ht
    | groups filter' =>
      obtain ⟨rfl, -, -⟩ := removalScope_groups hscope
      rcases htimeless with hfixed | hages
      · obtain ⟨t, ht'⟩ := Option.isSome_iff_exists.mp hfixed
        rw [ht'] at hpred ⊢
        exact hpred
      · cases has : filter.asOfUtcMs with
        | some t =>
          rw [has] at hpred
          exact hpred
        | none =>
          rw [has] at hpred
          exact selectionPredicate_timeless hages hpred ht
  · exact h

/-! ### The preview -/

/-- The objects a preview visits, in order. -/
def visitedObjects (c : Catalog) (selection : RemovalSelection) : List ObjectRow :=
  selectObjects c (affectedPredicate selection)

theorem mem_visitedObjects {c : Catalog} {selection : RemovalSelection} {o : ObjectRow} :
    o ∈ visitedObjects c selection ↔ o ∈ removedObjects c selection := Keyset.mem_sorted _

theorem length_visitedObjects (c : Catalog) (selection : RemovalSelection) :
    (visitedObjects c selection).length = (removedObjects c selection).length :=
  Keyset.length_sorted _ _

theorem previewRemoved_eq {c : Catalog} {request : RemovedSelection} {time : Nat}
    {selection : RemovalSelection} (hsel : removalSelection request time = .ok selection)
    (hvalid : validateRemoval c selection = .ok ()) {σ : Type} (visit : σ → LosslessPath → QueryResult σ)
    (start : σ) :
    previewRemoved c request time visit start = (do
      let final ← commitAll visit start
        ((visitedObjects c selection).map fun o => (readPath o).relativePath)
      .ok (final, ⟨selection.target, (removedObjects c selection).length⟩)) := by
  have hlen : ((selectObjects c (affectedPredicate selection)).map
      fun o => (readPath o).relativePath).length = (removedObjects c selection).length := by
    rw [List.length_map]
    exact length_visitedObjects c selection
  rw [previewRemoved, hsel]
  change (validateRemoval c selection >>= _) = _
  rw [hvalid]
  change (commitAll visit start _ >>= fun final => _) = _
  rw [hlen]
  rfl

/-! ### What a removal does -/

/-- The row of a copy after a removal. -/
def afterRemoval (c : Catalog) (selection : RemovalSelection) (time : Nat) (f : FileRow) : FileRow :=
  if isRemoved (removedObjects c selection) selection.target f then f.declareRemoved time else f

theorem isRemoved_presence {c : Catalog} {selection : RemovalSelection} {f : FileRow}
    (hf : f ∈ c.files.rows) (h : isRemoved (removedObjects c selection) selection.target f = true) :
    f.presence ≠ .missing := by
  obtain ⟨htarget, o, ho, hid⟩ := isRemoved_iff.mp h
  obtain ⟨-, -, g, hg, hpresence⟩ := mem_removedObjects.mp ho
  have hget : c.files.get? (o.objectId, selection.target) = some f :=
    Table.get?_eq_some.mpr ⟨hf, Prod.ext hid.symm htarget⟩
  rw [hget] at hg
  cases hg
  exact hpresence

/-- A removal in terms of the objects its preview visits. -/
structure RemovalAgrees (c d : Catalog) (time : Nat) (target : String) (visited : List ObjectRow) :
    Prop where
  frame : d = { c with files := d.files, history := d.history, revision := d.revision }
  files : d.files.rows = c.files.rows.map fun f =>
    if f.locationId = target ∧ ∃ o ∈ visited, o.objectId = f.objectId then f.declareRemoved time else f
  changed : ∀ f ∈ c.files.rows, f.locationId = target → (∃ o ∈ visited, o.objectId = f.objectId) →
    f.presence ≠ .missing
  copies : ∀ o ∈ visited, o ∈ c.objects.rows ∧ ∃ f ∈ c.files.rows,
    f.objectId = o.objectId ∧ f.locationId = target
  count : (c.files.rows.filter fun f =>
    f.locationId = target ∧ ∃ o ∈ visited, o.objectId = f.objectId).length = visited.length
  history : ∃ rows, d.history = c.history ++ rows ∧ rows.Perm
    ((c.files.rows.filter fun f => f.locationId = target ∧ ∃ o ∈ visited, o.objectId = f.objectId).map
      (removalEntry c time))
  revision : d.revision = if visited = [] then c.revision else c.revision + 1

theorem isRemoved_visited (c : Catalog) (selection : RemovalSelection) (f : FileRow) :
    isRemoved (removedObjects c selection) selection.target f =
      decide (f.locationId = selection.target ∧
        ∃ o ∈ visitedObjects c selection, o.objectId = f.objectId) := by
  rw [Bool.eq_iff_iff, isRemoved_iff, decide_eq_true_eq]
  simp only [mem_visitedObjects]

theorem removal_agrees {c d : Catalog} {request : RemovedSelection} {selection : RemovalSelection}
    {time : Nat} {result : RemovedResult} (hsel : removalSelection request time = .ok selection)
    (h : markRemoved c request time = .ok (result, d)) :
    RemovalAgrees c d time selection.target (visitedObjects c selection) := by
  obtain ⟨-, selection', hsel', -, -, hd⟩ := markRemoved_eq_ok.mp h
  obtain rfl : selection = selection' := Except.ok.inj (hsel.symm.trans hsel')
  have hremoved := isRemoved_visited c selection
  have hcopies : ∀ o ∈ visitedObjects c selection, o ∈ c.objects.rows ∧ ∃ f ∈ c.files.rows,
      f.objectId = o.objectId ∧ f.locationId = selection.target := by
    intro o ho
    obtain ⟨hmem, -, f, hf, -⟩ := mem_removedObjects.mp (mem_visitedObjects.mp ho)
    have hkey := Table.key_of_get? hf
    exact ⟨hmem, f, Table.mem_of_get? hf, congrArg Prod.fst hkey, congrArg Prod.snd hkey⟩
  have hchanged : ∀ f ∈ c.files.rows, f.locationId = selection.target →
      (∃ o ∈ visitedObjects c selection, o.objectId = f.objectId) → f.presence ≠ .missing := by
    intro f hf htarget hobject
    refine @isRemoved_presence c selection f hf ?_
    rw [hremoved]
    exact decide_eq_true ⟨htarget, hobject⟩
  have hcount : (c.files.rows.filter fun f => f.locationId = selection.target ∧
      ∃ o ∈ visitedObjects c selection, o.objectId = f.objectId).length =
        (visitedObjects c selection).length := by
    have hperm := (removed_copies c selection).length_eq
    rw [show isRemoved (removedObjects c selection) selection.target = _ from funext hremoved]
      at hperm
    rw [← hperm, length_visitedObjects, ← List.length_map (f := ObjectRow.objectId),
      List.filterMap_length_eq_length]
    intro id hid
    obtain ⟨o, ho, rfl⟩ := List.mem_map.mp hid
    obtain ⟨-, -, f, hf, -⟩ := mem_removedObjects.mp ho
    rw [hf]
    rfl
  have hnil : visitedObjects c selection = [] ↔ removedObjects c selection = [] := by
    rw [← List.length_eq_zero_iff, length_visitedObjects, List.length_eq_zero_iff]
  rcases hd with ⟨hempty, rfl⟩ | ⟨hne, -, rfl⟩
  · have hvisited := hnil.mpr hempty
    refine ⟨rfl, ?_, hchanged, hcopies, hcount, ⟨[], by simp, ?_⟩, by rw [if_pos hvisited]⟩
    · simp [hvisited]
    · simp [hvisited]
  · have hvisited : visitedObjects c selection ≠ [] := fun h => hne (hnil.mp h)
    refine ⟨rfl, ?_, hchanged, hcopies, hcount, ⟨_, rfl, ?_⟩, ?_⟩
    · change (c.files.rows.map fun f =>
        if isRemoved (removedObjects c selection) selection.target f then f.declareRemoved time else f) = _
      refine List.map_congr_left fun f _ => ?_
      rw [hremoved]
      simp
    · have hfilter := removal_entries c selection time
      rw [show isRemoved (removedObjects c selection) selection.target = _ from funext hremoved]
        at hfilter
      exact hfilter
    · rw [if_neg hvisited]
      rfl

/-! ### Repeating a removal -/

/-- After a removal the selected copies are missing and all others as they were. -/
theorem get?_removal {c d : Catalog} {request : RemovedSelection} {selection : RemovalSelection}
    {time : Nat} {result : RemovedResult} (hsel : removalSelection request time = .ok selection)
    (h : markRemoved c request time = .ok (result, d)) (k : String × String) :
    d.objects = c.objects ∧ d.locations = c.locations ∧
      d.files.get? k = (c.files.get? k).map (afterRemoval c selection time) := by
  obtain ⟨-, selection', hsel', -, -, hd⟩ := markRemoved_eq_ok.mp h
  obtain rfl : selection = selection' := Except.ok.inj (hsel.symm.trans hsel')
  rcases hd with ⟨hempty, rfl⟩ | ⟨-, -, rfl⟩
  · refine ⟨rfl, rfl, ?_⟩
    have hnone : ∀ f, afterRemoval d selection time f = f := fun f => by
      rw [afterRemoval, if_neg]
      rw [isRemoved_iff, hempty]
      simp
    cases d.files.get? k with
    | none => rfl
    | some f => rw [Option.map_some, hnone]
  · refine ⟨rfl, rfl, ?_⟩
    have hfiles : (declareRemoved c (removedObjects c selection) selection.target
        time).bumpRevision.files = c.files.modify
          (isRemoved (removedObjects c selection) selection.target) (.declareRemoved time) := rfl
    rw [hfiles, Table.get?_modify]
    rfl

/-- An object the removal selected has no removable copy at the target afterwards. -/
theorem removableCopy_removed {c d : Catalog} {request : RemovedSelection}
    {selection : RemovalSelection} {time : Nat} {result : RemovedResult}
    (hsel : removalSelection request time = .ok selection)
    (h : markRemoved c request time = .ok (result, d)) {o : ObjectRow}
    (ho : o ∈ removedObjects c selection) : removableCopy selection.target d o = false := by
  obtain ⟨-, -, f, hf, -⟩ := mem_removedObjects.mp ho
  have hkey := Table.key_of_get? hf
  have hremoved : isRemoved (removedObjects c selection) selection.target f = true :=
    isRemoved_iff.mpr ⟨congrArg Prod.snd hkey, o, ho, (congrArg Prod.fst hkey).symm⟩
  rw [removableCopy, (get?_removal hsel h _).2.2, hf, Option.map_some, afterRemoval, if_pos hremoved]
  rfl

/-- The copies of an object the removal did not select are as they were. -/
theorem sameCopies_removal {c d : Catalog} {request : RemovedSelection} {selection : RemovalSelection}
    {time : Nat} {result : RemovedResult} (hsel : removalSelection request time = .ok selection)
    (h : markRemoved c request time = .ok (result, d)) {o : ObjectRow} (hmem : o ∈ c.objects.rows)
    (ho : o ∉ removedObjects c selection) : SameCopies d c o := by
  intro f hid
  have hkeep : ∀ g, g.objectId = o.objectId → afterRemoval c selection time g = g := by
    intro g hg
    rw [afterRemoval, if_neg]
    intro hremoved
    obtain ⟨-, s, hs, hsid⟩ := isRemoved_iff.mp hremoved
    have hsmem := (mem_removedObjects.mp hs).1
    exact ho (Table.eq_of_key hsmem hmem (hsid.trans hg) ▸ hs)
  rw [Table.mem_rows_iff, Table.mem_rows_iff, (get?_removal hsel h _).2.2]
  cases hg : c.files.get? (fileSchema.key f) with
  | none => simp
  | some g =>
    have hgid : g.objectId = o.objectId := (congrArg Prod.fst (Table.key_of_get? hg)).trans hid
    rw [Option.map_some, hkeep g hgid]

theorem removableCopy_local (target : String) : (removableCopy target).Local := by
  intro c d o hsame
  have hget : ∀ t u : Table fileSchema, (∀ f, f.objectId = o.objectId → (f ∈ t.rows ↔ f ∈ u.rows)) →
      t.get? (o.objectId, target) = u.get? (o.objectId, target) := by
    intro t u h
    ext f
    rw [Table.get?_eq_some, Table.get?_eq_some]
    exact and_congr_left fun hk => h f (congrArg Prod.fst hk)
  rw [removableCopy, removableCopy, hget _ _ hsame]

theorem hasCopy_local (target : String) : (hasCopy target).Local := by
  intro c d o hsame
  have hget : c.files.get? (o.objectId, target) = d.files.get? (o.objectId, target) := by
    ext f
    rw [Table.get?_eq_some, Table.get?_eq_some]
    exact and_congr_left fun hk => hsame f (congrArg Prod.fst hk)
  rw [hasCopy, hasCopy, hget]

theorem affectedPredicate_local {request : RemovedSelection} {time : Nat}
    {selection : RemovalSelection} (hsel : removalSelection request time = .ok selection) :
    ∀ clause ∈ (affectedPredicate selection).clauses, clause.Local := by
  obtain ⟨filter, predicate, -, -, hpred, hclauses⟩ := removalSelection_eq_ok.mp hsel
  intro clause hclause
  rw [affectedPredicate, hclauses] at hclause
  simp only [List.mem_append, List.mem_singleton] at hclause
  rcases hclause with (hclause | rfl) | rfl
  · exact selectionPredicate_local hpred clause hclause
  · exact hasCopy_local _
  · exact removableCopy_local _

/-- The selection of a removal selects nothing after it. -/
theorem removedObjects_after {c d : Catalog} {request : RemovedSelection}
    {selection : RemovalSelection} {time : Nat} {result : RemovedResult}
    (hsel : removalSelection request time = .ok selection)
    (h : markRemoved c request time = .ok (result, d)) : removedObjects d selection = [] := by
  rw [removedObjects, (get?_removal hsel h ("", "")).1, List.filter_eq_nil_iff]
  intro o hmem hholds
  by_cases ho : o ∈ removedObjects c selection
  · have hcopy := removableCopy_removed hsel h ho
    simp only [affectedPredicate, CatalogSelection.holds, List.all_append, List.all_cons, List.all_nil,
      Bool.and_true, hcopy, Bool.and_false] at hholds
    cases hholds
  · have hsame := sameCopies_removal hsel h hmem ho
    rw [holds_eq_of_local (affectedPredicate_local hsel) hsame] at hholds
    exact ho (List.mem_filter.mpr ⟨hmem, hholds⟩)

/-- A request for a single path selects the same objects after a removal, whether or
not their copies are there. -/
theorem validateRemoval_after {c d : Catalog} {request : RemovedSelection}
    {selection : RemovalSelection} {time : Nat} {result : RemovedResult}
    (hsel : removalSelection request time = .ok selection)
    (h : markRemoved c request time = .ok (result, d)) : validateRemoval d selection = .ok () := by
  obtain ⟨-, selection', hsel', hvalid, -⟩ := markRemoved_eq_ok.mp h
  obtain rfl : selection = selection' := Except.ok.inj (hsel.symm.trans hsel')
  obtain ⟨hobjects, hlocations, -⟩ := get?_removal hsel h ("", "")
  rw [← hvalid, validateRemoval, validateRemoval, hobjects, hlocations]
  by_cases hsingle : selection.single = true
  · obtain ⟨filter, predicate, hscope, -, hpred, hclauses⟩ := removalSelection_eq_ok.mp hsel
    rw [hsingle] at hscope
    have hstatic := selectionPredicate_static (groups_of_single hscope) hpred
    have hholds : selection.predicate.holds d = selection.predicate.holds c := by
      funext o
      have hcopy : hasCopy selection.target d o = hasCopy selection.target c o := by
        rw [hasCopy, hasCopy, (get?_removal hsel h _).2.2, Option.isSome_map]
      have hall := holds_eq_of_static hstatic d c o
      rw [hclauses]
      simp only [CatalogSelection.holds, List.all_append, List.all_cons, List.all_nil, Bool.and_true,
        hcopy] at hall ⊢
      rw [hall]
    rw [hholds]
  · simp [hsingle]

/-- Repeated at a later time with a predicate that does not depend on it, a removal
succeeds and selects no row. -/
theorem repeat_selects_nothing {c d : Catalog} {request : RemovedSelection}
    {selection : RemovalSelection} {time time' : Nat} {result : RemovedResult}
    (hsel : removalSelection request time = .ok selection)
    (h : markRemoved c request time = .ok (result, d)) (htimeless : request.Timeless ∨ time' = time)
    (ht : time' ≤ i64Max) : markRemoved d request time' = .ok (⟨selection.target, 0⟩, d) := by
  have hempty := removedObjects_after hsel h
  refine markRemoved_eq_ok.mpr ⟨ht, selection, removalSelection_timeless hsel htimeless ht,
    validateRemoval_after hsel h, by rw [hempty]; rfl, Or.inl ⟨hempty, rfl⟩⟩

theorem target_of_removalScope {request : RemovedSelection} {target target' : String}
    {filter filter' : CatalogFileFilter} {single single' : Bool}
    (h : removalScope request = .ok (target, filter, single))
    (h' : removalScope request = .ok (target', filter', single')) : target = target' :=
  congrArg Prod.fst (Except.ok.inj (h.symm.trans h'))

/-- A removal changes exactly the copies whose paths its preview shows.  No later
repetition selects one of them again, and one at the same time, or whose predicate does
not depend on the time, selects nothing.  A removal that fails changes nothing. -/
theorem removal_changes_what_its_preview_shows (c : Catalog) (request : RemovedSelection)
    (time : Nat) :
    (∀ result d, markRemoved c request time = .ok (result, d) →
      ∃ visited : List ObjectRow,
        (∀ {σ : Type} (visit : σ → LosslessPath → QueryResult σ) (start : σ),
          previewRemoved c request time visit start = (do
            let final ← commitAll visit start (visited.map fun o => (readPath o).relativePath)
            .ok (final, result))) ∧
        RemovalAgrees c d time result.locationId visited ∧
        result.filesMarkedMissing = visited.length ∧
        (∀ time' ≥ time, ∀ selection, removalSelection request time' = .ok selection →
          selection.target = result.locationId ∧ ∀ o ∈ visited, o ∉ removedObjects d selection) ∧
        ∀ time' ≥ time, time' ≤ i64Max → request.Timeless ∨ time' = time →
          markRemoved d request time' = .ok (⟨result.locationId, 0⟩, d)) ∧
    ∀ err, markRemoved c request time = .error err → next c (.markRemoved request time) = c := by
  constructor
  · intro result d h
    obtain ⟨-, selection, hsel, hvalid, rfl, -⟩ := markRemoved_eq_ok.mp h
    refine ⟨visitedObjects c selection, fun visit start => previewRemoved_eq hsel hvalid visit start,
      removal_agrees hsel h, (length_visitedObjects c selection).symm, ?_, ?_⟩
    · intro time' _ selection' hsel'
      obtain ⟨filter, predicate, hscope, -⟩ := removalSelection_eq_ok.mp hsel
      obtain ⟨filter', predicate', hscope', -⟩ := removalSelection_eq_ok.mp hsel'
      have htarget : selection'.target = selection.target := target_of_removalScope hscope' hscope
      refine ⟨htarget, fun o ho hagain => ?_⟩
      have hgone := removableCopy_removed hsel h (mem_visitedObjects.mp ho)
      obtain ⟨-, -, f, hf, hpresence⟩ := mem_removedObjects.mp hagain
      rw [removableCopy, ← htarget, hf] at hgone
      simp [hpresence] at hgone
    · exact fun time' _ ht htimeless => repeat_selects_nothing hsel h htimeless ht
  · intro err herr
    refine next_of_failure ?_
    rw [exec, herr]
    rfl

/-- Copies at `usb` without a recent verification at `sd`. -/
def unprotected : RemovedSelection :=
  .groups { CatalogFileFilter.default with
    locationGroups := [⟨["usb"], false, none⟩, ⟨["sd"], true, some 30⟩] }

/-- With an age the same request, repeated later, selects a copy that was protected
when it was first made. -/
theorem later_repetition_selects_again :
    ¬ ∀ (c d d' : Catalog) (request : RemovedSelection) (time time' : Nat)
      (result result' : RemovedResult), markRemoved c request time = .ok (result, d) →
      time ≤ time' → markRemoved d request time' = .ok (result', d') →
      result'.filesMarkedMissing = 0 := by
  intro h
  have hrun : ((markRemoved sampleCatalog unprotected 120).toOption.bind fun r =>
      (markRemoved r.2 unprotected 200).toOption.map fun r' => r'.1.filesMarkedMissing) = some 1 := by
    decide +kernel
  obtain ⟨⟨result, d⟩, hfirst, hsecond⟩ := Option.bind_eq_some_iff.mp hrun
  obtain ⟨⟨result', d'⟩, hagain, hcount⟩ := Option.map_eq_some_iff.mp hsecond
  have hzero := h _ _ _ unprotected 120 200 _ _ (toOption_eq_some.mp hfirst) (by decide)
    (toOption_eq_some.mp hagain)
  rw [show result'.filesMarkedMissing = 1 from hcount] at hzero
  cases hzero

end ArchiveLedger
