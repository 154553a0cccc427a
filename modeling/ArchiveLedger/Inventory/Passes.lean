import ArchiveLedger.Inventory.Scan
import ArchiveLedger.Evidence.ScanCoverage

/-!
# What a pass has checked

The checks of a pass are of different paths.  `Passed` says what the catalog holds of those
submitted so far: the object of each has the expectation it had when the pass began or else the
digest that was read, its copy at the Location is present and judged by that expectation, the
coverage of the job is exactly their objects, and no other object was touched.  One submission
keeps it (`passed_submit`), and so does a batch (`passed_observeLoop`).
-/

namespace ArchiveLedger.Inventory

open Relational Outcome Discovery Transition

/-- The expectation of the object at a path. -/
def expectationAt (c : Catalog) (path : ObjectPath) : Option Digest :=
  (c.objectAt path).bind ObjectRow.expectedBlake3

variable {config : InventoryConfig} {jobId : String} {lossy : Bytes → String}

/-! ### Paths -/

theorem registryPath_encoding (path : RelativePath) :
    (registryPath lossy path).encoding = (registryPath (fun _ => "") path).encoding := by
  unfold registryPath
  dsimp only
  split <;> rfl

theorem utf8_of_fromUTF8? {bytes : Bytes} {text : String}
    (h : String.fromUTF8? ⟨bytes.toArray⟩ = some text) : utf8 text = bytes := by
  unfold String.fromUTF8? at h
  split at h
  · cases h
    rfl
  · cases h

theorem registryPathBytes_registryPath (path : RelativePath) :
    registryPathBytes (registryPath lossy path) = .ok (joinPath path) := by
  unfold registryPath
  dsimp only
  split
  · rename_i text htext
    have hbytes : utf8 text = joinPath path := utf8_of_fromUTF8? htext
    rw [RegistryPath.utf8, registryPathBytes, if_pos rfl]
    exact congrArg _ hbytes
  · have hother : ("unix_bytes" : String) ≠ "utf8" := by decide
    rw [registryPathBytes, if_neg hother, if_pos (Or.inl rfl)]
    simp only [String.toList_ofList, Base64.decode_encode]

/-- A check is about the object of its path. -/
theorem observedPath_check {k : Check} {path : ObjectPath}
    (h : observedPath (k.observation config jobId lossy) = some path) :
    path = objectPath config k.path := by
  obtain ⟨bytes, hbytes, rfl⟩ := Option.map_eq_some_iff.mp h
  obtain ⟨b, hb, hbytes⟩ := bind_eq_ok.mp (toOption_eq_some.mp hbytes)
  have hjoin : b = joinPath k.path := by
    have hok : registryPathBytes (k.observation config jobId lossy).path = .ok (joinPath k.path) :=
      registryPathBytes_registryPath k.path
    rw [hok] at hb
    exact (Except.ok.inj hb).symm
  have hsame : bytes = b := by
    split at hbytes
    · cases hbytes
    · split at hbytes
      · split at hbytes
        · cases hbytes
        · exact (Except.ok.inj hbytes).symm
      · cases hbytes
  rw [hsame, hjoin, objectPath, ← registryPath_encoding]
  rfl

theorem objectPath_inj {p q : RelativePath} (hp : ∀ name ∈ p, GoodName name)
    (hq : ∀ name ∈ q, GoodName name) (h : objectPath config p = objectPath config q) : p = q :=
  joinPath_inj hp hq (ObjectPath.mk.inj h).2.2

/-! ### Passes -/

/-- The row of the copy of a checked object. -/
def Judged (blake3 : Digest) (r : ObjectRow) (f : FileRow) : Prop :=
  f.presence = .present ∧
    f.integrity = if r.expectedBlake3 = some blake3 then .verified else .damaged

/-- The expectation a check leaves: one that exists stays, and a first digest becomes it. -/
def expectationAfter (expected : Option Digest) : ObservationResult → Option Digest
  | .checksum blake3 _ => some (expected.getD blake3)
  | _ => expected

structure Passed (config : InventoryConfig) (jobId : String) (c₀ : Catalog) (done : List Check)
    (c : Catalog) : Prop where
  checked : ∀ k ∈ done, ∀ blake3 sizeBytes, k.result = .checksum blake3 sizeBytes →
    ∃ r f, c.objectAt (objectPath config k.path) = some r ∧
      r.expectedBlake3 = some ((expectationAt c₀ (objectPath config k.path)).getD blake3) ∧
      c.files.get? (r.objectId, config.locationId) = some f ∧ Judged blake3 r f
  expects : ∀ k ∈ done, expectationAt c (objectPath config k.path) =
    expectationAfter (expectationAt c₀ (objectPath config k.path)) k.result
  covered : ∀ id, Covers c jobId id ↔
    ∃ k ∈ done, ∃ r, c.objectAt (objectPath config k.path) = some r ∧ r.objectId = id
  kept : ∀ path, (∀ k ∈ done, objectPath config k.path ≠ path) → c.objectAt path = c₀.objectAt path

theorem Passed.bump {c₀ c : Catalog} {done : List Check} (h : Passed config jobId c₀ done c) :
    Passed config jobId c₀ done c.bumpRevision := ⟨h.checked, h.expects, h.covered, h.kept⟩

/-- The start of a pass, whose coverage was reset. -/
theorem passed_start {c d : Catalog} (h : resetScanCoverage c jobId = .ok d) :
    Passed config jobId d [] d := by
  obtain ⟨-, rfl⟩ := resetScanCoverage_eq_ok.mp h
  refine ⟨fun k hk => absurd hk List.not_mem_nil, fun k hk => absurd hk List.not_mem_nil,
    fun id => ?_, fun _ _ => rfl⟩
  refine iff_of_false ?_ ?_
  · unfold Covers
    rw [Table.get?_delete]
    cases hget : c.catalogScanSeen.get? (jobId, id) with
    | none => simp
    | some r =>
      have hjob : r.jobId = jobId := congrArg Prod.fst (Table.key_of_get? hget)
      simp [hjob]
  · rintro ⟨k, hk, -⟩
    exact absurd hk List.not_mem_nil

/-- What a check without acceptance decides. -/
theorem decideIdentity_check (expected : Option Digest) (result : ObservationResult) :
    (decideIdentity expected false result).expected = expectationAfter expected result := by
  cases result with
  | checksum blake3 sizeBytes =>
    cases expected with
    | none => rfl
    | some e => rfl
  | _ => rfl

theorem not_accepted (expected : Option Digest) (result : ObservationResult) :
    (decideIdentity expected false result).accepted = false := by
  cases result with
  | checksum blake3 sizeBytes =>
    cases expected with
    | none => rfl
    | some e => rfl
  | _ => rfl

theorem judged_check {e blake3 : Digest} {sizeBytes time : Nat} {id location : String}
    {old : Option FileRow} {r : ObjectRow} (hr : r.expectedBlake3 = some e) :
    Judged blake3 r ((judge (some e) (.checksum blake3 sizeBytes)).copy id location time old) := by
  unfold Judged judge
  rw [hr]
  dsimp only
  split
  · cases old <;> exact ⟨rfl, rfl⟩
  · cases old <;> exact ⟨rfl, rfl⟩

section Submission

variable {c₀ c : Catalog} {done : List Check} {k : Check} {newId : String}

theorem expectation_of_locate (path : ObjectPath) :
    (locateObject newId c path).2 = expectationAt c path := by
  unfold locateObject expectationAt
  cases c.objectAt path <;> rfl

/-- The object a check leaves at its path. -/
theorem objectAt_check (hnew : c.objects.get? newId = none) (o : CatalogObservation) (path : ObjectPath)
    (time : Nat) : ∃ r, (recordAt newId c o path time).2.objectAt path = some r ∧
      r.objectId = (locateObject newId c path).1 ∧ r.expectedBlake3 = (decisionAt newId c o path).expected := by
  refine ⟨_, ?_, ?_, expected_apply_decisionAt⟩
  · rw [objectAt_recordAt hnew, if_pos rfl]
  · exact Table.key_of_get? (@get?_recordAt newId c o path time hnew)

/-- An object at another path has another identifier. -/
theorem locate_ne (hnew : c.objects.get? newId = none) {path other : ObjectPath} {r : ObjectRow}
    (hr : c.objectAt other = some r) (hne : other ≠ path) : (locateObject newId c path).1 ≠ r.objectId := by
  obtain ⟨hmem, hother⟩ := Catalog.objectAt_eq_some.mp hr
  rcases locateObject_cases newId c path with ⟨s, hs, hl⟩ | ⟨-, hl⟩
  · obtain ⟨hsmem, hspath⟩ := Catalog.objectAt_eq_some.mp hs
    rw [hl]
    intro hid
    have hsame : s = r := Table.eq_of_key hsmem hmem hid
    exact hne (hother.symm.trans (hsame ▸ hspath))
  · rw [hl]
    intro hid
    exact Table.get?_eq_none.mp hnew r hmem hid.symm

theorem recordAt_covers {o : CatalogObservation} {path : ObjectPath} {time : Nat} (hjob : o.jobId = some jobId)
    (id : String) : Covers (recordAt newId c o path time).2 jobId id ↔
      (locateObject newId c path).1 = id ∨ Covers c jobId id := by
  have hseen : (recordAt newId c o path time).2.catalogScanSeen =
      markJobObject c.catalogScanSeen o.jobId (locateObject newId c path).1 := rfl
  rw [covers_markJobObject hseen, hjob]
  simp

/-- **One check.** -/
theorem passed_record {time : Nat} (hp : Passed config jobId c₀ done c) (hnew : c.objects.get? newId = none)
    (hfresh : ∀ k' ∈ done, objectPath config k'.path ≠ objectPath config k.path) :
    Passed config jobId c₀ (done ++ [k])
      (recordAt newId c (k.observation config jobId lossy) (objectPath config k.path) time).2 := by
  set path := objectPath config k.path with hpath
  obtain ⟨r, hr, hid, hexpected⟩ := objectAt_check hnew (k.observation config jobId lossy) path time
  have hother : ∀ other, other ≠ path → (recordAt newId c (k.observation config jobId lossy) path time).2.objectAt
      other = c.objectAt other := fun other hne => by rw [objectAt_recordAt hnew, if_neg hne]
  have hbefore : expectationAt c path = expectationAt c₀ path := by
    rw [expectationAt, hp.kept path hfresh, ← expectationAt]
  have hnotaccepted : (decisionAt newId c (k.observation config jobId lossy) path).accepted = false :=
    not_accepted _ _
  have hdecided : (decisionAt newId c (k.observation config jobId lossy) path).expected =
      expectationAfter (expectationAt c₀ path) k.result := by
    rw [decisionAt, expectation_of_locate, hbefore]
    exact decideIdentity_check _ _
  refine ⟨?_, ?_, ?_, ?_⟩
  · intro k' hk' blake3 sizeBytes hresult
    rcases List.mem_append.mp hk' with hk' | hk'
    · obtain ⟨s, f, hs, hsexp, hf, hjudged⟩ := hp.checked k' hk' blake3 sizeBytes hresult
      refine ⟨s, f, by rw [hother _ (hfresh k' hk'), hs], hsexp, ?_, hjudged⟩
      have hne := locate_ne hnew hs (hfresh k' hk')
      rw [get?_recordAt_files, if_neg (fun h => hne (Prod.mk.inj h).1), copyBefore,
        if_neg (fun h => Bool.false_ne_true (hnotaccepted.symm.trans h.1)), hf]
    · rw [List.mem_singleton.mp hk'] at hresult ⊢
      rw [hresult, expectationAfter] at hdecided
      have hfound : findingAt newId c (k.observation config jobId lossy) path =
          judge (some ((expectationAt c₀ path).getD blake3)) (.checksum blake3 sizeBytes) := by
        rw [findingAt, hdecided]
        exact congrArg _ hresult
      have hfile := @get?_recordAt_files newId c (k.observation config jobId lossy) path time
        (r.objectId, config.locationId)
      rw [if_pos (by rw [hid]; rfl), hfound] at hfile
      exact ⟨r, _, hr, hexpected.trans hdecided, hfile, judged_check (hexpected.trans hdecided)⟩
  · intro k' hk'
    rcases List.mem_append.mp hk' with hk' | hk'
    · rw [expectationAt, hother _ (hfresh k' hk')]
      exact hp.expects k' hk'
    · rw [List.mem_singleton.mp hk', expectationAt, ← hpath, hr]
      exact hexpected.trans hdecided
  · intro id
    rw [recordAt_covers rfl, hp.covered]
    constructor
    · rintro (rfl | ⟨k', hk', s, hs, hid'⟩)
      · exact ⟨k, List.mem_append_right _ (List.mem_singleton_self k), r, hr, hid⟩
      · exact ⟨k', List.mem_append_left _ hk', s, by rw [hother _ (hfresh k' hk'), hs], hid'⟩
    · rintro ⟨k', hk', s, hs, hid'⟩
      rcases List.mem_append.mp hk' with hk' | hk'
      · rw [hother _ (hfresh k' hk')] at hs
        exact Or.inr ⟨k', hk', s, hs, hid'⟩
      · rw [List.mem_singleton.mp hk', ← hpath, hr, Option.some.injEq] at hs
        left
        rw [← hid, hs, hid']
  · intro other hne
    have hk := hne k (List.mem_append_right _ (List.mem_singleton_self k))
    rw [hother other (Ne.symm hk)]
    exact hp.kept other fun k' hk' => hne k' (List.mem_append_left _ hk')

theorem submit_check {s : Submission} (h : submit newId c (k.observation config jobId lossy) = .ok s) :
    ∃ time, s.tx = (recordAt newId c (k.observation config jobId lossy) (objectPath config k.path) time).2 := by
  rcases submit_eq_ok.mp h with ⟨key, stored, hkey, -⟩ | ⟨-, path, time, hadm, hstore, -, -⟩
  · cases hkey
  · obtain ⟨hobserved, -⟩ := admitObservation_eq_ok.mp hadm.admitted
    rw [observedPath_check hobserved] at hstore
    rcases storeOutcome_eq_ok.mp hstore with ⟨-, htx⟩ | ⟨key, t, hkey, -⟩
    · exact ⟨time, htx⟩
    · cases hkey

end Submission

/-- Identifiers that differ from one another and from those in use. -/
structure FreshIds (newIds : Nat → String) (c : Catalog) : Prop where
  differ : Function.Injective newIds
  unused : ∀ n, c.objects.get? (newIds n) = none

theorem FreshIds.submit {newIds : Nat → String} {c : Catalog} {o : CatalogObservation} {s : Submission}
    (hids : FreshIds newIds c) (h : submit (newIds 0) c o = .ok s) :
    FreshIds (fun n => newIds (n + 1)) s.tx where
  differ _ _ hmn := Nat.succ_injective (hids.differ hmn)
  unused n := unused_of_submit h (fun hn => Nat.succ_ne_zero n (hids.differ hn)) (hids.unused (n + 1))

/-- **A batch.** -/
theorem passed_observeLoop {newIds : Nat → String} {c₀ c d : Catalog} {done pending : List Check}
    {outcomes : List ObservationOutcome} {changed : Bool}
    (hdistinct : ((done ++ pending).map fun k => objectPath config k.path).Nodup) (hids : FreshIds newIds c)
    (h : observeLoop newIds c (pending.map (Check.observation config jobId lossy)) = .ok (outcomes, changed, d))
    (hp : Passed config jobId c₀ done c) :
    Passed config jobId c₀ (done ++ pending) d ∧ FreshIds (fun n => newIds (pending.length + n)) d := by
  induction pending generalizing newIds c done outcomes changed with
  | nil =>
    cases h
    rw [List.append_nil]
    refine ⟨hp, ?_⟩
    simpa using hids
  | cons k rest ih =>
    obtain ⟨s, more, changedMore, hs, hrest, -⟩ := observeLoop_cons.mp h
    obtain ⟨time, htx⟩ := submit_check hs
    have hfresh : ∀ k' ∈ done, objectPath config k'.path ≠ objectPath config k.path := by
      intro k' hk' heq
      rw [List.map_append, List.nodup_append] at hdistinct
      exact hdistinct.2.2 _ (List.mem_map_of_mem hk') _ (List.mem_map_of_mem List.mem_cons_self) heq
    have hnext : Passed config jobId c₀ (done ++ [k]) s.tx := by
      rw [htx]
      exact passed_record hp (hids.unused 0) hfresh
    have happend : done ++ k :: rest = (done ++ [k]) ++ rest := by simp
    rw [happend] at hdistinct ⊢
    obtain ⟨hpassed, hunused⟩ := ih hdistinct (hids.submit hs) hrest hnext
    refine ⟨hpassed, ?_⟩
    have hshift : (fun n => newIds ((k :: rest).length + n)) = fun n => newIds (rest.length + n + 1) := by
      funext n
      rw [List.length_cons, Nat.add_right_comm]
    rw [hshift]
    exact hunused

end ArchiveLedger.Inventory
