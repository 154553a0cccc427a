import ArchiveLedger.Foundation.Once
import ArchiveLedger.Catalog.Linked

/-!
# The ledger a catalog keeps

What objects, files and history say, with every object identifier replaced by the
path of its object (`evidence`).  Observations act on ledgers without identifiers
(`Ledger.observe`), and a submission to the catalog is one request to the memo of its
ledger and its stored outcomes (`once_of_submit`, `submit_of_once`).

A ledger may be restricted to some of the paths.  A submission about another path
leaves the restricted memo alone (`memoOf_submit_of_outside`), so lists of
observations on disjoint paths do not disturb each other.
-/

namespace ArchiveLedger

open Relational Transition Once

/-! ### Rows without identifiers -/

def ObjectRow.anonymous (r : ObjectRow) : ObjectRow := { r with objectId := "" }

def FileRow.anonymous (f : FileRow) : FileRow := { f with objectId := "" }

def HistoryRow.anonymous (r : HistoryRow) : HistoryRow := { r with objectId := none }

def ObservationOutcome.anonymous (outcome : ObservationOutcome) : ObservationOutcome :=
  { outcome with objectId := "" }

theorem IdentityDecision.anonymous_apply (decision : IdentityDecision) (r : ObjectRow) :
    (decision.apply r).anonymous = decision.apply r.anonymous := by
  unfold IdentityDecision.apply
  split <;> rfl

theorem Finding.anonymous_copy (finding : Finding) (objectId locationId : String) (time : Nat)
    (old : Option FileRow) :
    (finding.copy objectId locationId time old).anonymous =
      finding.copy "" locationId time (old.map FileRow.anonymous) := by
  cases finding with
  | metadata presence => cases presence <;> cases old <;> rfl
  | check j => cases old <;> rfl

theorem anonymous_observationHistory (o : CatalogObservation) (id : String) (time : Nat)
    (before : Option Digest) (decision : IdentityDecision) (finding : Finding) :
    (observationHistory o id time before decision finding).map HistoryRow.anonymous =
      (observationHistory o "" time before decision finding).map HistoryRow.anonymous := by
  unfold observationHistory
  split <;> rfl

/-! ### Ledgers -/

/-- Objects, copies and history by path. -/
@[ext] structure Ledger where
  object : ObjectPath → Option ObjectRow
  copy : ObjectPath → String → Option FileRow
  history : List (Option ObjectPath × HistoryRow)

/-- The path of an object. -/
def pathOf (c : Catalog) (id : String) : Option ObjectPath := (c.objects.get? id).map ObjectRow.path

/-- The ledger of a catalog. -/
def evidence (c : Catalog) : Ledger where
  object path := (c.objectAt path).map ObjectRow.anonymous
  copy path locationId := (c.objectAt path).bind fun r =>
    (c.files.get? (r.objectId, locationId)).map FileRow.anonymous
  history := c.history.map fun r => (r.objectId.bind (pathOf c), r.anonymous)

/-- The expectation of the object at a path. -/
def Ledger.expected (l : Ledger) (path : ObjectPath) : Option Digest :=
  (l.object path).bind ObjectRow.expectedBlake3

/-- The observation is no older than the copy's current check, and its size can be stored. -/
def Ledger.accepts (l : Ledger) (o : CatalogObservation) (path : ObjectPath) (time : Nat) : Bool :=
  !(((l.copy path o.locationId).bind FileRow.lastCheckTimeUtcMs).any fun prior => prior > time) &&
    (requireSize (decideIdentity (l.expected path) o.acceptChange o.result)).toOption.isSome

/-- The ledger after an observation of a path, and its outcome. -/
def Ledger.record (l : Ledger) (o : CatalogObservation) (path : ObjectPath) (time : Nat) :
    Ledger × ObservationOutcome :=
  let decision := decideIdentity (l.expected path) o.acceptChange o.result
  let finding := judge decision.expected o.result
  let before locationId :=
    if decision.accepted then (l.copy path locationId).map FileRow.forgetSuccess
    else l.copy path locationId
  ({ object := fun p =>
      if p = path then
        some (decision.apply ((l.object path).getD ⟨"", path, o.path.display, none, none⟩))
      else l.object p
     copy := fun p locationId =>
      if p = path then
        if o.locationId = locationId then
          some (finding.copy "" o.locationId time (before locationId))
        else before locationId
      else l.copy p locationId
     history := l.history ++
      (observationHistory o "" time (l.expected path) decision finding).map fun r =>
        (some path, r.anonymous) },
    ⟨"", finding.result, decision.established, decision.accepted⟩)

/-- An observation that passes the checks of `admission` and is accepted is recorded. -/
def Ledger.observe (admission : CatalogObservation → WriteResult (ObjectPath × Nat)) (l : Ledger)
    (o : CatalogObservation) : Option (Ledger × ObservationOutcome) :=
  (admission o).toOption.bind fun r =>
    if l.accepts o r.1 r.2 then some (l.record o r.1 r.2) else none

theorem Ledger.observe_eq_some {admission : CatalogObservation → WriteResult (ObjectPath × Nat)}
    {l l' : Ledger} {o : CatalogObservation} {outcome : ObservationOutcome} :
    l.observe admission o = some (l', outcome) ↔ ∃ path time, admission o = .ok (path, time) ∧
      l.accepts o path time = true ∧ l.record o path time = (l', outcome) := by
  rw [Ledger.observe, Option.bind_eq_some_iff]
  constructor
  · rintro ⟨⟨path, time⟩, hadmission, h⟩
    rw [Option.ite_none_right_eq_some, Option.some.injEq] at h
    exact ⟨path, time, toOption_eq_some.mp hadmission, h.1, h.2⟩
  · rintro ⟨path, time, hadmission, haccepts, hrecord⟩
    refine ⟨(path, time), toOption_eq_some.mpr hadmission, ?_⟩
    rw [if_pos haccepts, hrecord]

/-! ### Restricted ledgers -/

/-- The ledger about some paths only; history about no object stays. -/
def Ledger.restrict (Q : ObjectPath → Bool) (l : Ledger) : Ledger where
  object p := if Q p then l.object p else none
  copy p locationId := if Q p then l.copy p locationId else none
  history := l.history.filter fun r => r.1.all Q

section Restrict

variable {Q : ObjectPath → Bool} {l : Ledger} {o : CatalogObservation} {path : ObjectPath} {time : Nat}

theorem Ledger.object_restrict (hQ : Q path = true) : (l.restrict Q).object path = l.object path :=
  if_pos hQ

theorem Ledger.copy_restrict (hQ : Q path = true) (locationId : String) :
    (l.restrict Q).copy path locationId = l.copy path locationId := if_pos hQ

theorem Ledger.expected_restrict (hQ : Q path = true) :
    (l.restrict Q).expected path = l.expected path := by
  rw [Ledger.expected, Ledger.object_restrict hQ, Ledger.expected]

theorem Ledger.accepts_restrict (hQ : Q path = true) :
    (l.restrict Q).accepts o path time = l.accepts o path time := by
  rw [Ledger.accepts, Ledger.expected_restrict hQ, Ledger.copy_restrict hQ, Ledger.accepts]

/-- Recording at a path of the restriction is recording in the restriction. -/
theorem Ledger.record_restrict (hQ : Q path = true) :
    (l.restrict Q).record o path time =
      ((l.record o path time).1.restrict Q, (l.record o path time).2) := by
  unfold Ledger.record
  simp only [Ledger.expected_restrict hQ, Ledger.object_restrict hQ, Ledger.copy_restrict hQ]
  refine Prod.ext (Ledger.ext ?_ ?_ ?_) rfl
  · funext p
    by_cases hp : p = path
    · simp [Ledger.restrict, hp, hQ]
    · simp [Ledger.restrict, hp]
  · funext p locationId
    by_cases hp : p = path
    · simp [Ledger.restrict, hp, hQ]
    · simp [Ledger.restrict, hp]
  · simp only [Ledger.restrict, List.filter_append]
    congr 1
    refine (List.filter_eq_self.mpr fun r hr => ?_).symm
    obtain ⟨h, -, rfl⟩ := List.mem_map.mp hr
    exact hQ

/-- Recording at another path leaves the restriction alone. -/
theorem Ledger.restrict_record_of_outside (hQ : Q path = false) :
    (l.record o path time).1.restrict Q = l.restrict Q := by
  have hne : ∀ p, Q p = true → p ≠ path := by
    rintro p hp rfl
    rw [hQ] at hp
    cases hp
  refine Ledger.ext ?_ ?_ ?_
  · funext p
    by_cases hp : Q p = true
    · simp [Ledger.restrict, Ledger.record, hp, hne p hp]
    · simp [Ledger.restrict, hp]
  · funext p locationId
    by_cases hp : Q p = true
    · simp [Ledger.restrict, Ledger.record, hp, hne p hp]
    · simp [Ledger.restrict, hp]
  · simp only [Ledger.restrict, Ledger.record, List.filter_append]
    rw [List.append_right_eq_self, List.filter_eq_nil_iff]
    intro r hr
    obtain ⟨h, -, rfl⟩ := List.mem_map.mp hr
    simp [hQ]

end Restrict

/-! ### A recorded observation -/

section Recorded

variable {newId : String} {c : Catalog} {o : CatalogObservation} {path : ObjectPath} {time : Nat}

theorem expected_evidence : (locateObject newId c path).2 = (evidence c).expected path := by
  rcases locateObject_cases newId c path with ⟨r, hr, hl⟩ | ⟨hnone, hl⟩
  · simp only [Ledger.expected, evidence, hr, hl, Option.map_some, Option.bind_some]
    rfl
  · simp only [Ledger.expected, evidence, hnone, hl, Option.map_none, Option.bind_none]

theorem decisionAt_eq (newId : String) (c : Catalog) (o : CatalogObservation) (path : ObjectPath) :
    decisionAt newId c o path =
      decideIdentity ((evidence c).expected path) o.acceptChange o.result := by
  rw [decisionAt, expected_evidence]

theorem findingAt_eq (newId : String) (c : Catalog) (o : CatalogObservation) (path : ObjectPath) :
    findingAt newId c o path =
      judge (decideIdentity ((evidence c).expected path) o.acceptChange o.result).expected
        o.result := by
  rw [findingAt, decisionAt_eq]

/-- With an unused identifier a copy of the path is a copy of the object found. -/
theorem copy_evidence (hlinked : Linked c) (hnew : c.objects.get? newId = none)
    (locationId : String) :
    (evidence c).copy path locationId =
      (c.files.get? ((locateObject newId c path).1, locationId)).map FileRow.anonymous := by
  rcases locateObject_cases newId c path with ⟨r, hr, hl⟩ | ⟨hnone, hl⟩
  · simp only [evidence, hr, hl, Option.bind_some]
  · have hfile : c.files.get? (newId, locationId) = none := by
      by_contra hsome
      have hobject := hlinked.files _ (Option.isSome_iff_ne_none.mpr hsome)
      rw [hnew] at hobject
      cases hobject
    simp only [evidence, hnone, hl, hfile, Option.bind_none, Option.map_none]

theorem checkedAfter_eq (hlinked : Linked c) (hnew : c.objects.get? newId = none) :
    checkedAfter c (locateObject newId c path).1 o.locationId time =
      (((evidence c).copy path o.locationId).bind FileRow.lastCheckTimeUtcMs).any
        fun prior => prior > time := by
  rw [copy_evidence hlinked hnew, checkedAfter]
  cases c.files.get? ((locateObject newId c path).1, o.locationId) <;> rfl

/-- An observation is admitted by the catalog exactly when its ledger accepts it. -/
theorem admitted_iff (hlinked : Linked c) (hnew : c.objects.get? newId = none) :
    Admitted newId c o path time ↔
      admitObservation c o = .ok (path, time) ∧ (evidence c).accepts o path time = true := by
  have hsize : (requireSize (decideIdentity ((evidence c).expected path) o.acceptChange
      o.result)).toOption.isSome ↔
        requireSize (decideIdentity (locateObject newId c path).2 o.acceptChange o.result) = .ok () := by
    rw [expected_evidence, Option.isSome_iff_exists]
    exact ⟨fun ⟨u, hu⟩ => toOption_eq_some.mp hu, fun h => ⟨(), toOption_eq_some.mpr h⟩⟩
  rw [Ledger.accepts, Bool.and_eq_true, Bool.not_eq_true', hsize, ← checkedAfter_eq hlinked hnew]
  exact ⟨fun h => ⟨h.admitted, h.current, h.sized⟩, fun h => ⟨h.1, h.2.1, h.2.2⟩⟩

theorem object_recordAt (hnew : c.objects.get? newId = none) (p : ObjectPath) :
    (evidence (recordAt newId c o path time).2).object p =
      ((evidence c).record o path time).1.object p := by
  have hobject : (evidence (recordAt newId c o path time).2).object p =
      ((recordAt newId c o path time).2.objectAt p).map ObjectRow.anonymous := rfl
  rw [hobject, objectAt_recordAt hnew, decisionAt_eq]
  by_cases hp : p = path
  · simp only [Ledger.record, if_pos hp, Option.map_some, IdentityDecision.anonymous_apply,
      objectBefore, evidence]
    cases c.objectAt path <;> rfl
  · simp only [Ledger.record, if_neg hp, evidence]

/-- The object found at a path is not the one at another path. -/
theorem locateObject_ne (hnew : c.objects.get? newId = none) {p : ObjectPath} (hp : p ≠ path)
    {r : ObjectRow} (hr : c.objectAt p = some r) : (locateObject newId c path).1 ≠ r.objectId := by
  obtain ⟨hmem, hpath⟩ := Catalog.objectAt_eq_some.mp hr
  intro heq
  rcases locateObject_cases newId c path with ⟨s, hs, hl⟩ | ⟨-, hl⟩
  · obtain ⟨hsmem, hspath⟩ := Catalog.objectAt_eq_some.mp hs
    rw [hl] at heq
    have hsame : s = r := Table.eq_of_key hsmem hmem heq
    exact hp (hpath.symm.trans (hsame ▸ hspath))
  · rw [hl] at heq
    exact Table.get?_eq_none.mp hnew r hmem heq.symm

theorem copy_recordAt (hlinked : Linked c) (hnew : c.objects.get? newId = none) (p : ObjectPath)
    (locationId : String) :
    (evidence (recordAt newId c o path time).2).copy p locationId =
      ((evidence c).record o path time).1.copy p locationId := by
  have hcopy : (evidence (recordAt newId c o path time).2).copy p locationId =
      ((recordAt newId c o path time).2.objectAt p).bind fun r =>
        ((recordAt newId c o path time).2.files.get? (r.objectId, locationId)).map
          FileRow.anonymous := rfl
  rw [hcopy, objectAt_recordAt hnew]
  by_cases hp : p = path
  · subst hp
    have hid : ((decisionAt newId c o p).apply (objectBefore newId c p o.path.display)).objectId =
        (locateObject newId c p).1 := Table.key_of_get? (@get?_recordAt newId c o p time hnew)
    have hbefore : (if (decisionAt newId c o p).accepted then
        ((evidence c).copy p locationId).map FileRow.forgetSuccess else (evidence c).copy p locationId) =
          (copyBefore newId c o p ((locateObject newId c p).1, locationId)).map FileRow.anonymous := by
      rw [@copy_evidence newId c p hlinked hnew, copyBefore]
      cases (decisionAt newId c o p).accepted with
      | false => simp
      | true =>
        rw [if_pos rfl, if_pos ⟨rfl, rfl⟩, Option.map_map, Option.map_map]
        rfl
    have hrecord : ((evidence c).record o p time).1.copy p locationId =
        if o.locationId = locationId then
          some ((findingAt newId c o p).copy "" o.locationId time
            ((copyBefore newId c o p ((locateObject newId c p).1, locationId)).map FileRow.anonymous))
        else (copyBefore newId c o p ((locateObject newId c p).1, locationId)).map
          FileRow.anonymous := by
      rw [← hbefore, findingAt_eq, decisionAt_eq]
      exact if_pos rfl
    rw [hrecord, if_pos rfl, Option.bind_some, hid, get?_recordAt_files]
    by_cases hl : o.locationId = locationId
    · rw [if_pos (by rw [hl]), if_pos hl, Option.map_some, Finding.anonymous_copy]
    · rw [if_neg (fun h => hl (Prod.mk.inj h).2), if_neg hl]
  · rw [if_neg hp]
    simp only [Ledger.record, if_neg hp, evidence]
    cases hr : c.objectAt p with
    | none => rfl
    | some r =>
      have hne := @locateObject_ne newId c path hnew p hp r hr
      rw [Option.bind_some, Option.bind_some, get?_recordAt_files,
        if_neg (fun h => hne (Prod.mk.inj h).1), copyBefore, if_neg (fun h => hne h.2.symm)]

/-- The path of an object that is there does not change. -/
theorem pathOf_recordAt (hnew : c.objects.get? newId = none) {id : String}
    (hid : (c.objects.get? id).isSome) :
    pathOf (recordAt newId c o path time).2 id = pathOf c id := by
  by_cases heq : (locateObject newId c path).1 = id
  · subst heq
    rw [pathOf, get?_recordAt hnew, Option.map_some, IdentityDecision.path_apply, path_objectBefore]
    rcases locateObject_cases newId c path with ⟨r, hr, hl⟩ | ⟨-, hl⟩
    · obtain ⟨hmem, hpath⟩ := Catalog.objectAt_eq_some.mp hr
      have hget : c.objects.get? r.objectId = some r := Table.get?_of_mem hmem
      rw [hl, pathOf, hget, Option.map_some, hpath]
    · rw [hl, hnew] at hid
      cases hid
  · rw [pathOf, get?_recordAt_of_ne heq, pathOf]

theorem history_recordAt (hlinked : Linked c) (hnew : c.objects.get? newId = none) :
    (evidence (recordAt newId c o path time).2).history =
      ((evidence c).record o path time).1.history := by
  have hpath : pathOf (recordAt newId c o path time).2 (locateObject newId c path).1 = some path := by
    rw [pathOf, get?_recordAt hnew, Option.map_some, IdentityDecision.path_apply, path_objectBefore]
  simp only [evidence, recordAt_history, List.map_append, Ledger.record]
  congr 1
  · refine List.map_congr_left fun r hr => Prod.ext ?_ rfl
    cases hid : r.objectId with
    | none => rfl
    | some id => exact pathOf_recordAt hnew (hlinked.history r hr id hid)
  · have hnamed : ∀ r ∈ observationHistory o (locateObject newId c path).1 time
        (locateObject newId c path).2 (decisionAt newId c o path) (findingAt newId c o path),
        (r.objectId.bind (pathOf (recordAt newId c o path time).2), r.anonymous) =
          (some path, r.anonymous) := fun r hr => by
      rw [objectId_observationHistory hr, Option.bind_some, hpath]
    rw [List.map_congr_left hnamed, expected_evidence, decisionAt_eq, findingAt_eq]
    have hrows := congrArg (List.map (Prod.mk (some path))) (anonymous_observationHistory o
      (locateObject newId c path).1 time ((evidence c).expected path)
      (decideIdentity ((evidence c).expected path) o.acceptChange o.result)
      (judge (decideIdentity ((evidence c).expected path) o.acceptChange o.result).expected o.result))
    rw [List.map_map, List.map_map] at hrows
    exact hrows

/-- **A recorded observation of the catalog is one of its ledger.** -/
theorem evidence_recordAt (hlinked : Linked c) (hnew : c.objects.get? newId = none) :
    evidence (recordAt newId c o path time).2 = ((evidence c).record o path time).1 :=
  Ledger.ext (funext fun p => object_recordAt hnew p)
    (funext fun p => funext fun locationId => copy_recordAt hlinked hnew p locationId)
    (history_recordAt hlinked hnew)

theorem anonymous_recordAt :
    (recordAt newId c o path time).1.anonymous = ((evidence c).record o path time).2 := by
  have houtcome : (recordAt newId c o path time).1.anonymous =
      ⟨"", (findingAt newId c o path).result, (decisionAt newId c o path).established,
        (decisionAt newId c o path).accepted⟩ := rfl
  rw [houtcome, findingAt_eq, decisionAt_eq]
  rfl

end Recorded

/-! ### A submission is one request -/

/-- The observation is about a path of `Q`. -/
def Within (Q : ObjectPath → Bool) (o : CatalogObservation) : Prop :=
  ∀ path, observedPath o = some path → Q path = true

/-- The observation is about a path outside `Q`. -/
def Outside (Q : ObjectPath → Bool) (o : CatalogObservation) : Prop :=
  ∀ path, observedPath o = some path → Q path = false

/-- The outcome stored under a key, for a request about a path of `Q`. -/
def storedOf (Q : ObjectPath → Bool) (c : Catalog) (key : String) :
    Option (CatalogObservation × ObservationOutcome) :=
  ((c.catalogWriteOperations.get? key).filter fun w => (observedPath w.request).any Q).map
    fun w => (w.request, w.outcome.anonymous)

/-- Ledger and stored outcomes about the paths of `Q`. -/
def memoOf (Q : ObjectPath → Bool) (c : Catalog) :
    Memo Ledger String CatalogObservation ObservationOutcome where
  state := (evidence c).restrict Q
  stored := storedOf Q c

/-- One observation as a request to a memo, with the admission checks of a catalog. -/
abbrev request (c : Catalog) (m : Memo Ledger String CatalogObservation ObservationOutcome)
    (o : CatalogObservation) :
    Option (Memo Ledger String CatalogObservation ObservationOutcome × ObservationOutcome) :=
  once (Ledger.observe (admitObservation c)) CatalogObservation.operationKey m o

section Submitted

variable {Q : ObjectPath → Bool} {newId : String} {c : Catalog} {o : CatalogObservation}
  {s : Submission}

theorem storedOf_of_none {key : String} (h : c.catalogWriteOperations.get? key = none) :
    storedOf Q c key = none := by
  rw [storedOf, h]
  rfl

theorem storedOf_of_some {key : String} {w : WriteOperation}
    (h : c.catalogWriteOperations.get? key = some w) (hQ : (observedPath w.request).any Q = true) :
    storedOf Q c key = some (w.request, w.outcome.anonymous) := by
  rw [storedOf, h, Option.filter_some, if_pos hQ]
  rfl

/-- Stored outcomes after a submission that recorded its observation. -/
theorem storedOf_submit {path : ObjectPath} (h : submit newId c o = .ok s) (hfresh : s.fresh = true)
    (hpath : observedPath o = some path) (key : String) :
    storedOf Q s.tx key =
      if o.operationKey = some key then if Q path then some (o, s.outcome.anonymous) else none
      else storedOf Q c key := by
  have hget := operations_submit h key
  by_cases hkey : o.operationKey = some key
  · rw [if_pos ⟨hfresh, hkey⟩] at hget
    rw [if_pos hkey, storedOf, hget, Option.filter_some]
    simp only [hpath, Option.any_some]
    cases Q path <;> rfl
  · rw [if_neg (fun h => hkey h.2)] at hget
    rw [if_neg hkey, storedOf, hget, storedOf]

/-- Whatever a submission stores, its ledger is that of the record. -/
theorem evidence_storeOutcome {d e : Catalog} {outcome : ObservationOutcome}
    (h : storeOutcome d o outcome = .ok e) : evidence e = evidence d := by
  rcases storeOutcome_eq_ok.mp h with ⟨-, rfl⟩ | ⟨key, t, -, -, rfl⟩ <;> rfl

/-- **A submission about a path of `Q` is one request to the memo of `Q`.** -/
theorem once_of_submit (hlinked : Linked c) (hnew : c.objects.get? newId = none) (hQ : Within Q o)
    (h : submit newId c o = .ok s) :
    request c (memoOf Q c) o = some (memoOf Q s.tx, s.outcome.anonymous) := by
  rcases submit_eq_ok.mp h with ⟨key, w, hkey, hw, rfl, -, rfl⟩ |
    ⟨hnone, path, time, hadm, hstore, hout, hfresh⟩
  · obtain ⟨r, -, -, hpath⟩ := hlinked.operations key w hw
    refine once_eq_some.mpr (Or.inl ⟨⟨key, hkey, storedOf_of_some hw ?_⟩, rfl⟩)
    rw [hpath, Option.any_some]
    exact hQ r.path hpath
  · obtain ⟨hpath, -⟩ := admitObservation_eq_ok.mp hadm.admitted
    obtain ⟨hadmitted, haccepts⟩ := (admitted_iff hlinked hnew).mp hadm
    have hin := hQ path hpath
    refine once_eq_some.mpr (Or.inr ⟨?_, (evidence s.tx).restrict Q, ?_, ?_⟩)
    · rw [Option.bind_eq_none_iff] at hnone ⊢
      exact fun key hkey => storedOf_of_none (hnone key hkey)
    · refine Ledger.observe_eq_some.mpr ⟨path, time, hadmitted, ?_, ?_⟩
      · exact (Ledger.accepts_restrict hin).trans haccepts
      · change ((evidence c).restrict Q).record o path time = _
        rw [Ledger.record_restrict hin, evidence_storeOutcome hstore,
          evidence_recordAt hlinked hnew, hout, anonymous_recordAt]
    · rw [memoOf, Memo.store]
      congr 1
      funext key
      rw [storedOf_submit h hfresh hpath, if_pos hin]
      rfl

/-- **A submission about another path leaves the memo of `Q` alone.** -/
theorem memoOf_submit_of_outside (hlinked : Linked c) (hnew : c.objects.get? newId = none)
    (hQ : Outside Q o) (h : submit newId c o = .ok s) : memoOf Q s.tx = memoOf Q c := by
  rcases submit_eq_ok.mp h with ⟨key, w, -, -, -, -, rfl⟩ |
    ⟨hnone, path, time, hadm, hstore, -, hfresh⟩
  · rfl
  · obtain ⟨hpath, -⟩ := admitObservation_eq_ok.mp hadm.admitted
    have hout := hQ path hpath
    rw [memoOf, memoOf, evidence_storeOutcome hstore, evidence_recordAt hlinked hnew,
      Ledger.restrict_record_of_outside hout]
    congr 1
    funext key
    rw [storedOf_submit h hfresh hpath]
    split
    · rename_i hkey
      rw [hkey, Option.bind_some] at hnone
      rw [if_neg (by simp [hout]), storedOf_of_none hnone]
    · rfl

/-- A key under which nothing is stored can be stored. -/
theorem storeOutcome_of_none {d : Catalog} {outcome : ObservationOutcome}
    (hnone : o.operationKey.bind d.catalogWriteOperations.get? = none) :
    ∃ e, storeOutcome d o outcome = .ok e := by
  cases hkey : o.operationKey with
  | none => exact ⟨d, storeOutcome_eq_ok.mpr (Or.inl ⟨hkey, rfl⟩)⟩
  | some key =>
    rw [hkey, Option.bind_some] at hnone
    have hadmits : d.catalogWriteOperations.Admits ⟨key, o, outcome⟩ := fun w hw =>
      ⟨Table.get?_eq_none.mp hnone w hw, rfl⟩
    exact ⟨_, storeOutcome_eq_ok.mpr (Or.inr ⟨key, _, hkey, Table.insertOrIgnore_of_admits hadmits, rfl⟩)⟩

/-- **A request the memo of `Q` serves is a submission that succeeds**, when its job may be
named and its key holds no request about another path. -/
theorem submit_of_once (hlinked : Linked c) (hnew : c.objects.get? newId = none) (hQ : Within Q o)
    (hjob : requireObservationJob c o = .ok ())
    (hown : ∀ key w, o.operationKey = some key → c.catalogWriteOperations.get? key = some w →
      (observedPath w.request).any Q = true)
    {m : Memo Ledger String CatalogObservation ObservationOutcome} {outcome : ObservationOutcome}
    (h : request c (memoOf Q c) o = some (m, outcome)) : ∃ s, submit newId c o = .ok s := by
  rcases once_eq_some.mp h with ⟨⟨key, hkey, hstored⟩, -⟩ | ⟨hnone, l, hobserve, -⟩
  · obtain ⟨w, hw, hreq⟩ := Option.map_eq_some_iff.mp hstored
    obtain ⟨hw, -⟩ := Option.filter_eq_some_iff.mp hw
    exact ⟨_, submit_eq_ok.mpr (Or.inl ⟨key, w, hkey, hw, (Prod.mk.inj hreq).1, hjob, rfl⟩)⟩
  · obtain ⟨path, time, hadmitted, haccepts, -⟩ := Ledger.observe_eq_some.mp hobserve
    obtain ⟨hpath, -⟩ := admitObservation_eq_ok.mp hadmitted
    have hin := hQ path hpath
    have hfree : o.operationKey.bind c.catalogWriteOperations.get? = none := by
      rw [Option.bind_eq_none_iff] at hnone ⊢
      intro key hkey
      cases hw : c.catalogWriteOperations.get? key with
      | none => rfl
      | some w =>
        have hstored := hnone key hkey
        change storedOf Q c key = none at hstored
        rw [storedOf_of_some hw (hown key w hkey hw)] at hstored
        cases hstored
    have hadm : Admitted newId c o path time :=
      (admitted_iff hlinked hnew).mpr ⟨hadmitted, (Ledger.accepts_restrict hin).symm.trans haccepts⟩
    obtain ⟨d, hd⟩ := @storeOutcome_of_none o (recordAt newId c o path time).2
      (recordAt newId c o path time).1 hfree
    exact ⟨⟨(recordAt newId c o path time).1, true, d⟩,
      submit_eq_ok.mpr (Or.inr ⟨hfree, path, time, hadm, hd, rfl, rfl⟩)⟩

end Submitted

end ArchiveLedger
