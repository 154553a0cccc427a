import ArchiveLedger.Registry.Steps

/-!
# The site of a device and its site history

`devices.current_site_id` is written by every action on a device, the intervals of
`device_site_history` only by registering and moving.  `siteIntervals_open` says what
each action leaves open; with it the two agree after a change exactly when a
retirement names the site the device is recorded at (`placed_step`), which
`validate_change_on` does not check.
-/

namespace ArchiveLedger

open Relational Transition

/-- The intervals of a device that have not ended. -/
def openIntervals (t : Table deviceSiteSchema) (deviceId : String) : List DeviceSiteRow :=
  t.rows.filter fun r => r.deviceId = deviceId && r.departedTimeUtcMs.isNone

/-- The recorded site of a device and its site history agree. -/
structure SiteAgrees (t : Table deviceSiteSchema) (v : DeviceSnapshot) : Prop where
  one : (openIntervals t v.deviceId).length ≤ 1
  here : ∀ r ∈ openIntervals t v.deviceId, v.currentSiteId = some r.siteId
  away : v.currentSiteId = none ↔ openIntervals t v.deviceId = []

/-- They agree for every device. -/
def SitesAgree (c : Catalog) : Prop :=
  ∀ r ∈ c.devices.rows, SiteAgrees c.deviceSiteHistory r.snapshot

theorem siteAgrees_iff {t : Table deviceSiteSchema} {v : DeviceSnapshot} :
    SiteAgrees t v ↔
      (openIntervals t v.deviceId).map DeviceSiteRow.siteId = v.currentSiteId.toList := by
  constructor
  · rintro ⟨hone, hhere, haway⟩
    cases hopen : openIntervals t v.deviceId with
    | nil => rw [haway.mpr hopen]; rfl
    | cons r rest =>
      rw [hopen] at hone hhere
      have hrest : rest = [] := List.length_eq_zero_iff.mp (by
        simp only [List.length_cons] at hone
        omega)
      rw [hhere r List.mem_cons_self, hrest]
      rfl
  · intro h
    cases hsite : v.currentSiteId with
    | none =>
      rw [hsite] at h
      have hopen : openIntervals t v.deviceId = [] := List.map_eq_nil_iff.mp h
      exact ⟨by simp [hopen], by simp [hopen], by simp [hopen, hsite]⟩
    | some site =>
      rw [hsite] at h
      obtain ⟨r, hopen, hr⟩ : ∃ r, openIntervals t v.deviceId = [r] ∧ r.siteId = site := by
        cases hopen : openIntervals t v.deviceId with
        | nil => rw [hopen] at h; cases h
        | cons r rest =>
          rw [hopen] at h
          obtain ⟨hr, hrest⟩ := List.cons.inj h
          exact ⟨r, by rw [List.map_eq_nil_iff.mp hrest], hr⟩
      exact ⟨by simp [hopen], by simp [hopen, hsite, hr], by simp [hopen, hsite]⟩

instance (t : Table deviceSiteSchema) (v : DeviceSnapshot) : Decidable (SiteAgrees t v) :=
  decidable_of_iff _ siteAgrees_iff.symm

instance (c : Catalog) : Decidable (SitesAgree c) :=
  inferInstanceAs (Decidable (∀ r ∈ c.devices.rows, SiteAgrees c.deviceSiteHistory r.snapshot))

/-! ### What an action leaves open -/

theorem openIntervals_departDevice (t : Table deviceSiteSchema) (deviceId id : String) (time : Nat) :
    openIntervals (departDevice t deviceId time) id =
      if deviceId = id then [] else openIntervals t id := by
  have hrows : (departDevice t deviceId time).rows = t.rows.map fun r =>
      if (r.deviceId = deviceId && r.departedTimeUtcMs.isNone) = true then
        { r with departedTimeUtcMs := some time } else r := rfl
  rw [openIntervals, hrows, List.filter_map]
  split
  · rename_i hid
    rw [List.map_eq_nil_iff, List.filter_eq_nil_iff]
    intro r _
    simp only [Function.comp, ← hid]
    split
    · simp
    · rename_i hclosed
      exact hclosed
  · rename_i hid
    have hsame : ∀ r ∈ t.rows, ((fun r : DeviceSiteRow => decide (r.deviceId = id) &&
        r.departedTimeUtcMs.isNone) ∘ fun r =>
          if (r.deviceId = deviceId && r.departedTimeUtcMs.isNone) = true then
            { r with departedTimeUtcMs := some time } else r) r =
        (decide (r.deviceId = id) && r.departedTimeUtcMs.isNone) := by
      intro r _
      simp only [Function.comp]
      split
      · rename_i hr
        have hne : r.deviceId ≠ id := fun h => hid (by
          rw [← h]
          simp only [Bool.and_eq_true, decide_eq_true_eq] at hr
          exact hr.1.symm)
        simp [hne]
      · rfl
    rw [List.filter_congr hsame, openIntervals]
    refine (List.map_congr_left fun r hr => ?_).trans (List.map_id _)
    have hr := (List.mem_filter.mp hr).2
    simp only [Bool.and_eq_true, decide_eq_true_eq] at hr
    rw [if_neg (by
      simp only [Bool.and_eq_true, decide_eq_true_eq]
      exact fun h => hid (h.1.symm.trans hr.1))]
    rfl

theorem openIntervals_insert {t u : Table deviceSiteSchema} {deviceId site : String} {time : Nat}
    (h : t.insert? ⟨deviceId, site, time, none⟩ = some u) (id : String) :
    (openIntervals u id).map DeviceSiteRow.siteId =
      (openIntervals t id).map DeviceSiteRow.siteId ++ if deviceId = id then [site] else [] := by
  rw [openIntervals, (Table.insert?_eq_some.mp h).2, List.filter_append, List.map_append]
  congr 1
  by_cases hid : deviceId = id <;> simp [hid]

/-- The sites a device is at after an action on it, by its intervals. -/
def sitesLeft (action : RegistryAction) (sites : List String) (site : Option String) : List String :=
  match action with
  | .register => sites ++ site.toList
  | .move => site.toList
  | .update => sites
  | .retire => sites

theorem siteIntervals_open {t u : Table deviceSiteSchema} {action : RegistryAction}
    {v : DeviceSnapshot} {time : Nat} (h : siteIntervals t action v time = some u) (id : String) :
    (openIntervals u id).map DeviceSiteRow.siteId =
      if v.deviceId = id then
        sitesLeft action ((openIntervals t id).map DeviceSiteRow.siteId) v.currentSiteId
      else (openIntervals t id).map DeviceSiteRow.siteId := by
  unfold siteIntervals at h
  cases action with
  | register =>
    simp only [reduceCtorEq, if_false, true_or, if_true] at h
    cases hsite : v.currentSiteId with
    | none =>
      rw [hsite] at h
      cases h
      simp [sitesLeft]
    | some site =>
      rw [hsite] at h
      rw [openIntervals_insert h]
      split <;> simp [sitesLeft]
  | move =>
    simp only [reduceCtorEq, or_true, if_true] at h
    cases hsite : v.currentSiteId with
    | none =>
      rw [hsite] at h
      cases h
      rw [openIntervals_departDevice]
      split <;> simp [sitesLeft]
    | some site =>
      rw [hsite] at h
      rw [openIntervals_insert h, openIntervals_departDevice]
      split <;> simp [sitesLeft]
  | update =>
    have hu : u = t := by
      cases hsite : v.currentSiteId <;> simpa [hsite, eq_comm] using h
    rw [hu]
    split <;> rfl
  | retire =>
    have hu : u = t := by
      cases hsite : v.currentSiteId <;> simpa [hsite, eq_comm] using h
    rw [hu]
    split <;> rfl

/-! ### The invariant -/

/-- The open intervals under an identifier are those of the site its device is
recorded at, and there are none where there is no device. -/
def Placed (c : Catalog) : Prop :=
  ∀ id, (openIntervals c.deviceSiteHistory id).map DeviceSiteRow.siteId =
    ((deviceAt c id).bind DeviceSnapshot.currentSiteId).toList

theorem sitesAgree_of_placed {c : Catalog} (h : Placed c) : SitesAgree c := by
  intro r hr
  have hat : deviceAt c r.snapshot.deviceId = some r.snapshot :=
    deviceAt_eq_some.mpr ⟨⟨r, hr, rfl⟩, rfl⟩
  rw [siteAgrees_iff, h r.snapshot.deviceId, hat]
  rfl

/-- A retirement names the site the device is recorded at. -/
def KeepsSite (c : Catalog) : RegistryChange → Prop
  | .device .retire v =>
      v.currentSiteId = (deviceAt c v.deviceId).bind DeviceSnapshot.currentSiteId
  | _ => True

/-- What one change leaves of the agreement of one device. -/
theorem placed_at {c d : Catalog} {change : RegistryChange} (hplaced : Placed c)
    (hstep : RegistryStep c change d) (id : String) :
    (openIntervals d.deviceSiteHistory id).map DeviceSiteRow.siteId =
        ((deviceAt d id).bind DeviceSnapshot.currentSiteId).toList ∨
      ∃ v, change = .device .retire v ∧ v.deviceId = id ∧
        (openIntervals d.deviceSiteHistory id).map DeviceSiteRow.siteId =
          ((deviceAt c id).bind DeviceSnapshot.currentSiteId).toList := by
  obtain ⟨time, -, hdevices, hsites⟩ := hstep.writes
  rw [hdevices id]
  cases change with
  | device action v =>
    rw [siteIntervals_open hsites]
    by_cases hid : v.deviceId = id
    · have hchecked := hstep.deviceChecked
      rw [if_pos hid, hplaced id, RegistryChange.deviceUnder, if_pos hid]
      rw [← hid]
      cases action with
      | register =>
        rw [hchecked.registered.mp rfl]
        exact Or.inl rfl
      | move => exact Or.inl rfl
      | update => exact Or.inl (by rw [sitesLeft, hchecked.kept rfl]; rfl)
      | retire => exact Or.inr ⟨v, rfl, rfl, rfl⟩
    · rw [if_neg hid, RegistryChange.deviceUnder, if_neg hid]
      exact Or.inl (hplaced id)
  | _ =>
    rw [← Option.some.inj hsites]
    exact Or.inl (hplaced id)

/-- A change keeps the agreement when a retirement keeps the site. -/
theorem placed_step {c d : Catalog} {change : RegistryChange} (hplaced : Placed c)
    (hstep : RegistryStep c change d) (hkeeps : KeepsSite c change) : Placed d := by
  intro id
  rcases placed_at hplaced hstep id with h | ⟨v, rfl, rfl, h⟩
  · exact h
  · obtain ⟨time, -, hdevices, -⟩ := hstep.writes
    rw [h, hdevices, RegistryChange.deviceUnder, if_pos rfl, ← hkeeps]
    rfl

/-- A change after which the two agree keeps the site. -/
theorem keepsSite_of_agree {c d : Catalog} {change : RegistryChange} (hplaced : Placed c)
    (hstep : RegistryStep c change d) (hagree : SitesAgree d) : KeepsSite c change := by
  cases change with
  | device action v =>
    cases action with
    | retire =>
      obtain ⟨time, -, hdevices, hsites⟩ := hstep.writes
      have hat : deviceAt d v.deviceId = some v := by
        rw [hdevices, RegistryChange.deviceUnder, if_pos rfl]
        rfl
      obtain ⟨⟨r, hr, hv⟩, -⟩ := deviceAt_eq_some.mp hat
      have hsite := siteAgrees_iff.mp (hagree r hr)
      rw [hv, siteIntervals_open hsites, if_pos rfl, sitesLeft, hplaced] at hsite
      have hhead := congrArg List.head? hsite
      rw [Option.head?_toList, Option.head?_toList] at hhead
      exact hhead.symm
    | _ => trivial
  | _ => trivial

/-- **The site and the site history of every device agree after every call of a run
whose retirements keep the site**; and along the changes of any run they agree
throughout if and only if every retirement keeps it. -/
theorem device_sites_agree (archiveId displayName : String) (ops : List Op) :
    (Path (fun c change _ => KeepsSite c change) (Catalog.create archiveId displayName)
        (registryTrace (Catalog.create archiveId displayName) ops) →
      ∀ p q, ops = p ++ q → SitesAgree (run next (Catalog.create archiveId displayName) p)) ∧
    ((∀ p q, registryTrace (Catalog.create archiveId displayName) ops = p ++ q →
        SitesAgree (final (Catalog.create archiveId displayName) p)) ↔
      Path (fun c change _ => KeepsSite c change) (Catalog.create archiveId displayName)
        (registryTrace (Catalog.create archiveId displayName) ops)) := by
  have halong := Path.along_iff (R := RegistryStep) (fun _ => sitesAgree_of_placed)
    (fun _ _ _ => placed_step) (fun _ _ _ => keepsSite_of_agree) (fun _ => rfl)
    (path_registryTrace (Catalog.create archiveId displayName) ops).1
  refine ⟨?_, halong⟩
  rintro hkeeps p q rfl
  rw [registryTrace_append] at halong hkeeps
  have hfinal := halong.mpr hkeeps _ _ rfl
  have hsame := (path_registryTrace (Catalog.create archiveId displayName) p).2
  rw [SitesAgree, hsame.devices, hsame.deviceSiteHistory]
  exact hfinal

/-! ### A retirement that does not keep the site -/

def sampleDevice (status : String) (site : Option String) : DeviceSnapshot where
  deviceId := "disk"
  displayName := "Disk"
  deviceKind := "external"
  serialHint := none
  hardwareFingerprint := none
  fingerprintKind := none
  identityState := "unavailable"
  owner := none
  status := status
  currentSiteId := site
  expectedAvailability := "offline"

/-- A disk arrives at a site and is retired without one. -/
def retirementOps : List Op :=
  [.recordBatch [.site .register ⟨"home", "Home", "home", none, "active"⟩,
      .device .register (sampleDevice "active" (some "home"))] "host" 1,
    .recordBatch [.device .retire (sampleDevice "retired" none)] "host" 2]

/-- The interval stays open and the device has no site. -/
theorem retirement_leaves_interval_open :
    (registryTrace (Catalog.create "archive" "Archive") retirementOps).length = 3 ∧
      ¬ SitesAgree (run next (Catalog.create "archive" "Archive") retirementOps) := by
  decide +kernel

end ArchiveLedger
