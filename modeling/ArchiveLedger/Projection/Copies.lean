import ArchiveLedger.Foundation.Occupancy
import ArchiveLedger.Projection.Frames

/-!
# Copies and the physical paths they occupy

A Copy stands at the Location and the path it was first written for (`seating`), and
no statement moves it.  The projector looks up what a new observation displaces by that
place, and so the Copies are occupants in the sense of `Occupancy`.
-/

namespace ArchiveLedger

open Relational Outcome Transition Occupancy

/-- A Location and a physical path. -/
abbrev PhysicalPath := String × StoredPath

/-- Two rows of one Copy: what is written once is the same. -/
structure SamePlace (c c' : CopyBindingRow) : Prop where
  owner : c'.owner = c.owner
  locationId : c'.locationId = c.locationId
  pathKey : c'.pathKey = c.pathKey
  locator : c'.locator = c.locator

theorem SamePlace.refl (c : CopyBindingRow) : SamePlace c c := ⟨rfl, rfl, rfl, rfl⟩

theorem SamePlace.trans {a b c : CopyBindingRow} (h : SamePlace a b) (g : SamePlace b c) : SamePlace a c :=
  ⟨g.owner.trans h.owner, g.locationId.trans h.locationId, g.pathKey.trans h.pathKey,
    g.locator.trans h.locator⟩

namespace Projection

/-- Where each Copy stands, and whether it is not superseded. -/
def seating (db : Projection) : Seating String PhysicalPath := fun id =>
  (db.copyBindings.get? id).bind fun c => (db.copyPath c).map fun path => ((c.locationId, path), c.active)

/-- Every Copy has a path, and its key is the key of that path. -/
def Keyed (R : ProjectionRuntime) (db : Projection) : Prop :=
  ∀ id c, db.copyBindings.get? id = some c → ∃ path, db.copyPath c = some path ∧ c.pathKey = pathKey R path

variable {R : ProjectionRuntime} {db db' : Projection} {item : Json}

theorem seating_of_get? {id : String} {c : CopyBindingRow} {path : StoredPath}
    (hc : db.copyBindings.get? id = some c) (hpath : db.copyPath c = some path) :
    db.seating id = some ((c.locationId, path), c.active) := by
  rw [seating, hc, Option.bind_some, hpath]
  rfl

theorem seating_of_none {id : String} (h : db.copyBindings.get? id = none) : db.seating id = none := by
  rw [seating, h]
  rfl

/-- A Copy that is written again stands where it stood. -/
theorem Keyed.rewritten (hk : Keyed R db) (hp : KeepsPlaces db db') {id : String} {c c' : CopyBindingRow}
    (hc : db.copyBindings.get? id = some c) (hc' : db'.copyBindings.get? id = some c')
    (hs : SamePlace c c') : ∃ path, db.seating id = some ((c.locationId, path), c.active) ∧
      db'.seating id = some ((c.locationId, path), c'.active) ∧
      db'.copyPath c' = some path ∧ c'.pathKey = pathKey R path := by
  obtain ⟨path, hpath, hkey⟩ := hk id c hc
  have hpath' : db'.copyPath c' = some path := hp.copyPath hs.owner hs.locator hpath
  refine ⟨path, seating_of_get? hc hpath, ?_, hpath', hs.pathKey.trans hkey⟩
  rw [seating_of_get? hc' hpath', hs.locationId]

/-- No Copy is written anew, and none is superseded; some are stated again. -/
structure Restates (db db' : Projection) (restated : String → Bool) : Prop where
  places : KeepsPlaces db db'
  rows : ∀ id, (db.copyBindings.get? id = none ∧ db'.copyBindings.get? id = none) ∨
    ∃ c c', db.copyBindings.get? id = some c ∧ db'.copyBindings.get? id = some c' ∧ SamePlace c c' ∧
      c'.active = (restated id || c.active)

theorem Restates.trans {a b c : Projection} {p q : String → Bool} (h : Restates a b p)
    (g : Restates b c q) : Restates a c fun id => q id || p id where
  places := h.places.trans g.places
  rows id := by
    rcases h.rows id with ⟨hn, hn'⟩ | ⟨x, y, hx, hy, hs, ha⟩ <;>
      rcases g.rows id with ⟨gn, gn'⟩ | ⟨y', z, hy', hz, gs, ga⟩
    · exact Or.inl ⟨hn, gn'⟩
    · rw [hn'] at hy'
      cases hy'
    · rw [hy] at gn
      cases gn
    · rw [hy] at hy'
      cases hy'
      exact Or.inr ⟨x, z, hx, hz, hs.trans gs, by rw [ga, ha, Bool.or_assoc]⟩

theorem Restates.mono {p q : String → Bool} (h : Restates db db' p) (he : p = q) : Restates db db' q :=
  he ▸ h

theorem Restates.keyed {p : String → Bool} (h : Restates db db' p) (hk : Keyed R db) : Keyed R db' := by
  intro id c' hc'
  rcases h.rows id with ⟨-, hn⟩ | ⟨c, c'', hc, hc'', hs, -⟩
  · rw [hn] at hc'
    cases hc'
  · rw [hc''] at hc'
    cases hc'
    obtain ⟨path, -, -, hpath, hkey⟩ := hk.rewritten h.places hc hc'' hs
    exact ⟨path, hpath, hkey⟩

/-- What Copies stated again say of the seating. -/
theorem Restates.seating {p : String → Bool} (h : Restates db db' p) (hk : Keyed R db) (id : String) :
    db'.seating id = (db.seating id).map fun x => (x.1, p id || x.2) := by
  rcases h.rows id with ⟨hn, hn'⟩ | ⟨c, c', hc, hc', hs, ha⟩
  · rw [seating_of_none hn, seating_of_none hn']
    rfl
  · obtain ⟨path, hplace, hplace', -⟩ := hk.rewritten h.places hc hc' hs
    rw [hplace, hplace', ha]
    rfl

theorem Restates.restated {p : String → Bool} (h : Restates db db' p) (hk : Keyed R db) :
    Restated db.seating (fun id => p id = true) db'.seating := by
  intro id
  rw [h.seating hk]
  constructor
  · intro hp
    have hid : p id = true := hp
    rw [hid]
    rfl
  · intro hp
    have hid : p id = false := by simpa using hp
    rw [hid]
    cases db.seating id <;> rfl

/-- A statement on Copies that are not superseded leaves the seating. -/
theorem Restates.seating_eq {p : String → Bool} (h : Restates db db' p) (hk : Keyed R db)
    (hp : ∀ id, p id = true → ∀ place active, db.seating id = some (place, active) → active = true) :
    db'.seating = db.seating := by
  funext id
  rw [h.seating hk]
  cases hs : db.seating id with
  | none => rfl
  | some x =>
    obtain ⟨place, active⟩ := x
    cases hid : p id with
    | false => rfl
    | true => rw [hp id hid place active hs]; rfl

/-! ### Writing a Copy -/

/-- The Copies of a place are told by the key of its path. -/
theorem occupies_iff (hk : Keyed R db) {location name id : String} {path : StoredPath}
    {c : CopyBindingRow} (hc : db.copyBindings.get? id = some c) :
    db.occupies R location name path c = true ↔
      id ≠ name ∧ db.seating id = some ((location, path), true) := by
  obtain ⟨path', hpath', hkey⟩ := hk id c hc
  have hid : c.canonicalId = id := Table.key_of_get? hc
  rw [seating_of_get? hc hpath']
  simp only [occupies, Bool.and_eq_true, decide_eq_true_eq, hpath', hid, Option.some.injEq, Prod.mk.injEq]
  constructor
  · rintro ⟨⟨⟨⟨hl, ha⟩, hne⟩, -⟩, hp⟩
    exact ⟨hne, ⟨hl, hp⟩, ha⟩
  · rintro ⟨hne, ⟨hl, hp⟩, ha⟩
    exact ⟨⟨⟨⟨hl, ha⟩, hne⟩, by rw [hkey, hp]⟩, hp⟩

/-- The Copy that is written, when it stands already. -/
theorem updated_samePlace (old row : CopyBindingRow) : SamePlace old (old.updated row) := by
  unfold CopyBindingRow.updated
  split
  · exact .refl old
  · exact ⟨rfl, rfl, rfl, rfl⟩

theorem updated_active (old row : CopyBindingRow) :
    (old.updated row).active = if row.basis = .sourceMetadata then old.active else row.active := by
  unfold CopyBindingRow.updated
  split <;> rfl

theorem copyState_active {state : String} {s : CopyState} (h : CopyState.ofStr? state = some s) :
    decide (s ≠ .superseded) = decide (state ≠ "superseded") := by
  unfold CopyState.ofStr? at h
  split at h
  · cases h; simp [*]
  split at h
  · cases h; simp [*]
  split at h
  · cases h; simp [*]
  split at h
  · cases h; simp [*]
  split at h
  · cases h; simp [*]
  · cases h

theorem claimBasis_iff {basis : String} {b : ClaimBasis} (h : ClaimBasis.ofStr? basis = some b) :
    b = .sourceMetadata ↔ basis = "source_metadata" := by
  unfold ClaimBasis.ofStr? at h
  split at h
  · cases h; simp [*]
  split at h
  · cases h; simp [*]
  split at h
  · cases h; simp [*]
  · cases h

/-- The Copies after one was written at a path. -/
structure CopyEffect (R : ProjectionRuntime) (db : Projection) (item : Json) (binding : BindingKey)
    (location name record state basis : String) (path : StoredPath) (row : CopyBindingRow)
    (db' : Projection) : Prop where
  write : CopyWrite R db item binding location name record state basis row
  read : ∃ copy, pathValue R item "copy_path" = .ok (copy, path)
  free : basis = "source_metadata" → ∀ c ∈ db.copyBindings.rows, db.occupies R location name path c = false
  self : db'.copyBindings.get? name = some (((db.copyBindings.get? name).map (·.updated row)).getD row)
  others : ∀ id, id ≠ name → db'.copyBindings.get? id = (db.copyBindings.get? id).map fun c =>
    if db.occupies R location name path c then { c with state := .superseded, stateRecord := record } else c
  places : KeepsPlaces db db'
  scans : SameScans db db'
  checks : db'.checks = db.checks

section Copy

variable {binding : BindingKey} {location name record state basis : String} {path : StoredPath}
  {row : CopyBindingRow}

theorem copy_effect {content external : Option String} {check : Option Nat} {integrity : Integrity}
    {name' : String}
    (h : db.copy R item binding location name record content external state basis check integrity
      = .ok (db', name')) :
    name' = name ∧ ∃ path row, CopyEffect R db item binding location name record state basis path row db' := by
  obtain ⟨hname, row, copies, copy, path, hw, hpath, hfree, hup, rfl⟩ := copy_eq_ok h
  have hsup : ∀ id, (db.supersede (db.occupies R location name path) record).get? id
      = (db.copyBindings.get? id).map fun c => if db.occupies R location name path c then
        { c with state := .superseded, stateRecord := record } else c := fun id => Table.get?_modify _ _ _ _ _ _
  have hplaces : KeepsPlaces db { db with copyBindings := copies } := .of_eq rfl rfl
  have hscans : SameScans db { db with copyBindings := copies } := ⟨rfl, rfl, rfl⟩
  have hset : Noting { db with copyBindings := copies } _ := setCopy_noting binding name
  refine ⟨hname, path, row, hw, ⟨copy, hpath⟩, ?_, ?_, ?_, hplaces.trans hset.places,
    hscans.trans hset.scans, rfl⟩
  · intro hmeta c hc
    by_contra ho
    exact hfree ⟨List.any_eq_true.mpr ⟨c, hc, by simpa using ho⟩, hmeta⟩
  · have hget := Table.get?_upsert? hup name
    rw [if_pos (show copyBindingSchema.key row = name from hw.canonicalId), hsup] at hget
    show copies.get? name = _
    rw [hget]
    cases hc : db.copyBindings.get? name with
    | none => rfl
    | some c =>
      have hid : c.canonicalId = name := Table.key_of_get? hc
      have hocc : db.occupies R location name path c = false := by simp [occupies, hid]
      simp [hocc]
  · intro id hid
    have hget := Table.get?_upsert? hup id
    rw [if_neg fun e => hid (e.symm.trans hw.canonicalId), hsup] at hget
    exact hget

namespace CopyEffect

variable (h : CopyEffect R db item binding location name record state basis path row db')
include h

theorem row_active : row.active = decide (state ≠ "superseded") := copyState_active h.write.state

theorem other {id : String} {c : CopyBindingRow} (hid : id ≠ name) (hc : db.copyBindings.get? id = some c) :
    ∃ c', db'.copyBindings.get? id = some c' ∧ SamePlace c c' ∧
      c'.active = (c.active && !db.occupies R location name path c) := by
  have hget := h.others id hid
  rw [hc, Option.map_some] at hget
  cases ho : db.occupies R location name path c with
  | true =>
    rw [ho, if_pos rfl] at hget
    exact ⟨_, hget, ⟨rfl, rfl, rfl, rfl⟩, by simp [CopyBindingRow.active]⟩
  | false =>
    rw [ho] at hget
    exact ⟨_, hget, .refl c, by simp⟩

/-- A Copy that is new stands at the path of the item. -/
theorem new (hn : db.copyBindings.get? name = none) :
    db'.copyBindings.get? name = some row ∧ db'.copyPath row = some path ∧ row.pathKey = pathKey R path := by
  obtain ⟨copy, hpath⟩ := h.read
  obtain ⟨copy', path', hp, hkey, file, hfile, hlocator⟩ := h.write.path
  rw [hpath] at hp
  cases hp
  have howned : db.copyPath { row with locator := none } = some file.path := by
    rw [copyPath, h.write.owner, hfile]
    rfl
  have howned' : db'.copyPath { row with locator := none } = some file.path :=
    h.places.copyPath rfl rfl howned
  refine ⟨by rw [h.self, hn]; rfl, ?_, hkey⟩
  rw [copyPath] at howned' ⊢
  obtain ⟨file', hfile', hat⟩ := Option.map_eq_some_iff.mp howned'
  rw [hfile', Option.map_some, hlocator]
  split
  · rename_i he
    exact congrArg some (hat.trans he)
  · rfl

theorem keyed (hk : Keyed R db) : Keyed R db' := by
  intro id c' hc'
  by_cases hid : id = name
  · subst hid
    cases hc : db.copyBindings.get? id with
    | none =>
      obtain ⟨hself, hpath, hkey⟩ := h.new hc
      rw [hself] at hc'
      cases hc'
      exact ⟨path, hpath, hkey⟩
    | some c =>
      have hself := h.self
      rw [hc] at hself
      rw [hself] at hc'
      cases hc'
      obtain ⟨p, -, -, hp, hkey⟩ := hk.rewritten h.places hc hself (updated_samePlace c row)
      exact ⟨p, hp, hkey⟩
  · cases hc : db.copyBindings.get? id with
    | none =>
      rw [h.others id hid, hc] at hc'
      cases hc'
    | some c =>
      obtain ⟨c'', hc'', hs, -⟩ := h.other hid hc
      rw [hc''] at hc'
      cases hc'
      obtain ⟨p, -, -, hp, hkey⟩ := hk.rewritten h.places hc hc'' hs
      exact ⟨p, hp, hkey⟩

/-- Source metadata changes no Copy that stands. -/
theorem inert (hmeta : basis = "source_metadata") {id : String} {c : CopyBindingRow}
    (hc : db.copyBindings.get? id = some c) : db'.copyBindings.get? id = some c := by
  by_cases hid : id = name
  · subst hid
    rw [h.self, hc, Option.map_some, Option.getD_some, CopyBindingRow.updated,
      if_pos ((claimBasis_iff h.write.basis).mpr hmeta)]
  · rw [h.others id hid, hc, Option.map_some, h.free hmeta c (Table.mem_of_get? hc)]
    rfl

/-- The flag a Copy has after it was written. -/
def flag (db : Projection) (name basis state : String) : Bool :=
  match db.copyBindings.get? name with
  | some c => if basis = "source_metadata" then c.active else decide (state ≠ "superseded")
  | none => decide (state ≠ "superseded")

theorem observed (hk : Keyed R db) :
    Observed db.seating (location, path) name (flag db name basis state) db'.seating where
  self := by
    cases hc : db.copyBindings.get? name with
    | none =>
      obtain ⟨hself, hpath, -⟩ := h.new hc
      rw [seating_of_get? hself hpath, seating_of_none hc, h.write.locationId, h.row_active, flag, hc]
      rfl
    | some c =>
      have hself := h.self
      rw [hc] at hself
      obtain ⟨p, hp, hp', -⟩ := hk.rewritten h.places hc hself (updated_samePlace c row)
      rw [hp, hp', Option.map_some, Option.getD_some, updated_active, flag, hc, h.row_active]
      simp only [claimBasis_iff h.write.basis, Option.map_some, Option.getD_some]
  others id hid := by
    cases hc : db.copyBindings.get? id with
    | none =>
      have hn : db'.copyBindings.get? id = none := by rw [h.others id hid, hc]; rfl
      rw [seating_of_none hn, seating_of_none hc, if_neg (by simp)]
    | some c =>
      obtain ⟨c', hc', hs, hactive⟩ := h.other hid hc
      obtain ⟨p, hp, hp', -⟩ := hk.rewritten h.places hc hc' hs
      have hocc : db.occupies R location name path c = true ↔ _ := occupies_iff hk hc
      rw [hp', hactive]
      by_cases hat : db.seating id = some ((location, path), true)
      · rw [if_pos hat, hocc.mpr ⟨hid, hat⟩]
        rw [hp] at hat
        obtain ⟨he, -⟩ := Prod.ext_iff.mp (Option.some.inj hat)
        simp only at he
        rw [he]
        simp
      · have ho : db.occupies R location name path c = false := by
          by_contra ho
          exact hat (hocc.mp (by simpa using ho)).2
        rw [if_neg hat, ho, hp]
        simp

end CopyEffect

end Copy

end Projection

theorem Observing.restates {db db' : Projection} (h : Observing db db') :
    Projection.Restates db db' fun _ => false where
  places := h.places
  rows id := by
    rw [h.copies]
    cases hc : db.copyBindings.get? id with
    | none => exact Or.inl ⟨rfl, rfl⟩
    | some c => exact Or.inr ⟨c, c, rfl, rfl, .refl c, rfl⟩

theorem Observing.keyed {R : ProjectionRuntime} {db db' : Projection} (h : Observing db db')
    (hk : Projection.Keyed R db) : Projection.Keyed R db' := h.restates.keyed hk

theorem Observing.seating {R : ProjectionRuntime} {db db' : Projection} (h : Observing db db')
    (hk : Projection.Keyed R db) : db'.seating = db.seating :=
  h.restates.seating_eq hk fun _ hp => by cases hp

namespace Projection

variable {R : ProjectionRuntime} {db db' : Projection} {item : Json}

/-! ### Items that observe a Copy -/

/-- An item that writes one Copy among other things. -/
structure WritesCopy (R : ProjectionRuntime) (db : Projection) (item : Json)
    (location name state basis : String) (db' : Projection) : Prop where
  copy : ∃ db₁ db₂ binding record path row, Observing db db₁ ∧
    CopyEffect R db₁ item binding location name record state basis path row db₂ ∧ Observing db₂ db'
  inert : basis = "source_metadata" → db'.checks = db.checks

theorem projectContentObserved_writesCopy {record : VerifiedV2Record} {frontiers : FrontierMap}
    (h : db.projectContentObserved R item record frontiers = .ok db') :
    ∃ location name, optionalString item "location_id" = some location ∧
      optionalString item "copy_claim_id" = some name ∧
      WritesCopy R db item location name "present" "observed_bytes" db' := by
  obtain ⟨rid, _, h⟩ := bind_eq_ok.mp h
  obtain ⟨_, _, h⟩ := bind_eq_ok.mp h
  obtain ⟨time, _, h⟩ := bind_eq_ok.mp h
  obtain ⟨_, _, h⟩ := bind_eq_ok.mp h
  obtain ⟨size, _, h⟩ := bind_eq_ok.mp h
  obtain ⟨_, _, h⟩ := bind_eq_ok.mp h
  obtain ⟨⟨d₁, objectId⟩, h₁, h⟩ := bind_eq_ok.mp h
  obtain ⟨⟨d₂, external⟩, h₂, h⟩ := bind_eq_ok.mp h
  obtain ⟨⟨d₃, fileId⟩, h₃, h⟩ := bind_eq_ok.mp h
  obtain ⟨location, hlocation, h⟩ := bind_eq_ok.mp h
  obtain ⟨⟨d₄, bound⟩, h₄, h⟩ := bind_eq_ok.mp h
  obtain ⟨copyId, hname, h⟩ := bind_eq_ok.mp h
  obtain ⟨⟨d₅, name⟩, hcopy, h⟩ := bind_eq_ok.mp h
  cases h
  obtain ⟨-, path, row, heffect⟩ := copy_effect hcopy
  have hnoting := ((content_noting h₁).trans (observeExternal_noting h₂)).trans
    ((observeFile_noting h₃).trans (binding_noting h₄).1)
  have hcheck : Observing d₄ _ := appendCheck_observing bound time .present .verified none
  refine ⟨location, copyId, string_eq_ok.mp hlocation, string_eq_ok.mp hname,
    ⟨_, _, bound, rid, path, row, hnoting.toObserving.trans hcheck, heffect, .refl _⟩, ?_⟩
  intro hmeta
  exact absurd hmeta (by decide)

theorem projectFileFailure_writesCopy {result fileRefId rid : String} {time : Nat} {name location : String}
    (h : db.projectFileFailure R item result fileRefId rid time name location = .ok db') :
    WritesCopy R db item location name "corrupt" "observed_bytes" db' := by
  obtain ⟨⟨_, path⟩, _, h⟩ := bind_eq_ok.mp h
  obtain ⟨_, _, h⟩ := bind_eq_ok.mp h
  obtain ⟨objectId, _, h⟩ := bind_eq_ok.mp h
  obtain ⟨_, _, h⟩ := bind_eq_ok.mp h
  obtain ⟨_, _, h⟩ := bind_eq_ok.mp h
  obtain ⟨_, _, h⟩ := bind_eq_ok.mp h
  obtain ⟨_, _, h⟩ := bind_eq_ok.mp h
  obtain ⟨_, _, h⟩ := bind_eq_ok.mp h
  obtain ⟨files, hfiles, h⟩ := bind_eq_ok.mp h
  obtain ⟨⟨d₁, bound⟩, h₁, h⟩ := bind_eq_ok.mp h
  obtain ⟨⟨d₂, copy⟩, hcopy, h⟩ := bind_eq_ok.mp h
  cases h
  obtain ⟨-, path, row, heffect⟩ := copy_effect hcopy
  have hfile : Observing db { db with fileObjects := files } :=
    ⟨keepsPlaces_modifyFile (statement_eq_ok.mp hfiles) fun _ => rfl, ⟨rfl, rfl, rfl⟩, rfl⟩
  have hcheck : Observing d₁ _ := appendCheck_observing bound time .present .damaged
    (some (result, optionalString item "error_detail"))
  refine ⟨⟨_, _, bound, rid, path, row, (hfile.trans (binding_noting h₁).1.toObserving).trans hcheck,
    heffect, .refl _⟩, ?_⟩
  intro hmeta
  exact absurd hmeta (by decide)

/-- A statement that states one Copy again. -/
theorem restates_modify? {name : String} {f : CopyBindingRow → CopyBindingRow} {hkey}
    {t : Table copyBindingSchema} (ht : t = db.copyBindings)
    (h : t.modify? (fun c => c.canonicalId = name) f hkey = some db'.copyBindings)
    (hplaces : KeepsPlaces db db') (hsame : ∀ c, SamePlace c (f c)) (hactive : ∀ c, (f c).active = true) :
    Restates db db' fun id => id = name where
  places := hplaces
  rows id := by
    have hget := Table.get?_modify? h id
    rw [ht] at hget
    cases hc : db.copyBindings.get? id with
    | none =>
      rw [hc] at hget
      exact Or.inl ⟨rfl, hget⟩
    | some c =>
      rw [hc, Option.map_some] at hget
      have hid : c.canonicalId = id := Table.key_of_get? hc
      refine Or.inr ⟨c, _, rfl, hget, ?_, ?_⟩
      · split
        · exact hsame c
        · exact .refl c
      · rw [hid]
        by_cases he : id = name
        · simp [he, hactive]
        · simp [he]

/-- A failure that names a Copy only states it again where it stands. -/
theorem projectCopyFailure_restates {result rid : String} {time : Nat} {name location : String}
    (h : db.projectCopyFailure item result rid time name location = .ok db') :
    Restates db db' (fun id => id = name) ∧ SameScans db db' := by
  obtain ⟨copy, _, h⟩ := bind_eq_ok.mp h
  obtain ⟨_, _, h⟩ := bind_eq_ok.mp h
  obtain ⟨copies, hcopies, h⟩ := bind_eq_ok.mp h
  cases h
  refine ⟨restates_modify? rfl (statement_eq_ok.mp hcopies)
    (keepsPlaces_modifyLocation (by intro _; rfl) rfl rfl) (fun _ => ⟨rfl, rfl, rfl, rfl⟩) ?_, ⟨rfl, rfl, rfl⟩⟩
  intro c
  simp only [CopyBindingRow.active]
  split <;> rfl

/-! ### Absent annex content -/

theorem missingCopy_restates {record : String} {time : Nat} {copy : CopyBindingRow}
    (h : missingCopy record time db copy = .ok db') :
    Restates db db' (fun id => id = copy.canonicalId) ∧ SameScans db db' := by
  obtain ⟨copies, hcopies, h⟩ := bind_eq_ok.mp h
  cases h
  have hcheck : Observing db _ := appendCheck_observing copy.owner time .missing .unverified none
  exact ⟨restates_modify? rfl (statement_eq_ok.mp hcopies)
    (hcheck.places.trans (keepsPlaces_modifyLocation (by intro _; rfl) rfl rfl))
    (fun _ => ⟨rfl, rfl, rfl, rfl⟩) fun _ => rfl, ⟨rfl, rfl, rfl⟩⟩

theorem missingCopies_restates {record : String} {time : Nat} {copies : List CopyBindingRow}
    (h : commitAll (missingCopy record time) db copies = .ok db') :
    Restates db db' (fun id => decide (id ∈ copies.map CopyBindingRow.canonicalId)) ∧ SameScans db db' := by
  induction copies generalizing db with
  | nil =>
    cases h
    exact ⟨(Observing.refl _).restates.mono (by funext id; simp), .refl _⟩
  | cons copy copies ih =>
    obtain ⟨d, hd, h⟩ := (commitAll_cons _).mp h
    obtain ⟨hfirst, hscans⟩ := missingCopy_restates hd
    obtain ⟨hrest, hscans'⟩ := ih h
    refine ⟨(hfirst.trans hrest).mono ?_, hscans.trans hscans'⟩
    funext id
    by_cases he : id = copy.canonicalId <;> simp [he]

theorem claimed_active {copy : CopyBindingRow} (h : CopyBindingRow.claimed copy = true) : copy.active = true := by
  simp only [CopyBindingRow.claimed, Bool.and_eq_true, Bool.or_eq_true, decide_eq_true_eq] at h
  rcases h.1 with (h | h) | h <;> simp [CopyBindingRow.active, h]

/-- Absence supersedes nothing and brings nothing back. -/
theorem projectAnnexAbsence_kept {fileId external record : String} {time : Nat} (hk : Keyed R db)
    (h : db.projectAnnexAbsence item fileId external record time = .ok db') :
    Keyed R db' ∧ db'.seating = db.seating ∧ SameScans db db' := by
  obtain ⟨representation, _, h⟩ := bind_eq_ok.mp h
  obtain ⟨location, _, h⟩ := bind_eq_ok.mp h
  obtain ⟨_, _, h⟩ := bind_eq_ok.mp h
  obtain ⟨d, hd, h⟩ := bind_eq_ok.mp h
  obtain ⟨cas, _, h⟩ := bind_eq_ok.mp h
  obtain ⟨_, _, h⟩ := bind_eq_ok.mp h
  obtain ⟨worktree, _, h⟩ := bind_eq_ok.mp h
  obtain ⟨_, _, h⟩ := bind_eq_ok.mp h
  obtain ⟨source, _, h⟩ := bind_eq_ok.mp h
  cases h
  obtain ⟨hrestates, hscans⟩ := missingCopies_restates hd
  have hseating : d.seating = db.seating := by
    refine hrestates.seating_eq hk fun id hid place active hplace => ?_
    obtain ⟨c, hc, rfl⟩ := List.mem_map.mp (of_decide_eq_true hid)
    obtain ⟨hm, hclaimed⟩ : c ∈ db.copyBindings.rows ∧ CopyBindingRow.claimed c = true := by
      split at hc
      · obtain ⟨hm, hp⟩ := List.mem_filter.mp hc
        simp only [Bool.and_eq_true] at hp
        exact ⟨hm, hp.1.2⟩
      · unfold absentWorktreeCopies at hc
        split at hc
        · cases hc
        · obtain ⟨hm, hp⟩ := List.mem_filter.mp hc
          simp only [Bool.and_eq_true] at hp
          exact ⟨hm, hp.1.2⟩
    have hget : db.copyBindings.get? c.canonicalId = some c := Table.get?_of_mem hm
    obtain ⟨path, hpath, -⟩ := hk _ c hget
    rw [seating_of_get? hget hpath] at hplace
    exact (congrArg Prod.snd (Option.some.inj hplace)).symm.trans (claimed_active hclaimed)
  have hnoting : Observing d _ := (removeAvailability_noting external cas source worktree).toObserving
  have hkeyed := hrestates.keyed hk
  exact ⟨hnoting.keyed hkeyed, (hnoting.seating hkeyed).trans hseating, hscans.trans hnoting.scans⟩

/-! ### Present annex content -/

theorem annexTarget_observing {fileId worktree copyLocation : String} {bound target : BindingKey}
    {record : String} {time : Nat} {content : Option String} {external pathState state : String}
    {inventory : Bool} (h : db.annexTarget fileId worktree copyLocation bound record time content external
      pathState state inventory = .ok (db', target)) :
    Observing db db' ∧ (inventory = true → db'.checks = db.checks) := by
  unfold annexTarget at h
  split at h
  · cases h
    exact ⟨.refl _, fun _ => rfl⟩
  · obtain ⟨_, _, h⟩ := bind_eq_ok.mp h
    cases h
    cases inventory with
    | true =>
      have hnoting := @annexContentLocation_noting db record fileId copyLocation
        content (some external) time none
      exact ⟨hnoting.toObserving, fun _ => hnoting.checks⟩
    | false =>
      have hcheck : Observing db _ := appendCheck_observing bound time (pathPresence pathState) .unverified none
      exact ⟨hcheck.trans (annexContentLocation_noting _ _ _ _ _ _).toObserving, fun he => by cases he⟩

theorem annexCheck_observing (target : BindingKey) (time : Nat) (state : String) (integrity : Integrity)
    (inventory : Bool) : Observing db (db.annexCheck item target time state integrity inventory).1 ∧
      (inventory = true → (db.annexCheck item target time state integrity inventory).1.checks = db.checks) := by
  cases inventory with
  | true => exact ⟨.refl _, fun _ => rfl⟩
  | false => exact ⟨appendCheck_observing _ _ _ _ _, fun he => by cases he⟩

/-- The state and the basis an annex entry claims for a Copy. -/
def claimedState (item : Json) : String := (optionalString item "copy_state").getD "unknown"

def claimedBasis (item : Json) : String := (optionalString item "claim_basis").getD "observed_bytes"

theorem isInventory_iff : isInventory item = true ↔ claimedBasis item = "source_metadata" := by
  unfold isInventory claimedBasis
  cases optionalString item "claim_basis" <;> simp

theorem annexCopy_writesCopy {fileId worktree : String} {bound : BindingKey} {record : String} {time : Nat}
    {content : Option String} {external pathState name copyLocation : String} {integrity : Integrity}
    (h : db.annexCopy R item fileId worktree bound record time content external pathState name copyLocation
      integrity (isInventory item) = .ok db') :
    WritesCopy R db item copyLocation name (claimedState item) (claimedBasis item) db' := by
  obtain ⟨⟨d₁, target⟩, h₁, h⟩ := bind_eq_ok.mp h
  obtain ⟨⟨d₂, copy⟩, hcopy, h⟩ := bind_eq_ok.mp h
  cases h
  obtain ⟨-, path, row, heffect⟩ := copy_effect hcopy
  have htarget := annexTarget_observing h₁
  have hcheck := @annexCheck_observing d₁ item target time (claimedState item) integrity
    (isInventory item)
  refine ⟨⟨_, _, target, record, path, row, htarget.1.trans hcheck.1, heffect,
    (setCopy_noting bound copy).toObserving⟩, ?_⟩
  intro hmeta
  have hinventory := isInventory_iff.mpr hmeta
  exact heffect.checks.trans ((hcheck.2 hinventory).trans (htarget.2 hinventory))

/-- What an annex entry does to Copies. -/
inductive AnnexEffect (R : ProjectionRuntime) (db : Projection) (item : Json) (db' : Projection) : Prop where
  | kept (hcopy : annexAbsent item = true ∨ annexCopyOf item = none)
      (hkeyed : Keyed R db') (hseating : db'.seating = db.seating) (hscans : SameScans db db')
      (hinert : isInventory item = true → db'.checks = db.checks ∧ db'.copyBindings = db.copyBindings)
  | written {name location : String} (hpresent : annexAbsent item = false)
      (hcopy : annexCopyOf item = some (name, location))
      (hwrites : WritesCopy R db item location name (claimedState item) (claimedBasis item) db')

theorem WritesCopy.after {location name state basis : String} {d : Projection} (hd : Noting db d)
    (h : WritesCopy R d item location name state basis db') :
    WritesCopy R db item location name state basis db' := by
  obtain ⟨⟨d₁, d₂, binding, record, path, row, h₁, heffect, h₂⟩, hinert⟩ := h
  exact ⟨⟨d₁, d₂, binding, record, path, row, hd.toObserving.trans h₁, heffect, h₂⟩,
    fun hmeta => (hinert hmeta).trans hd.checks⟩

theorem projectAnnexPresence_effect {fileId : String} {content : Option String} {external record : String}
    {time : Nat} (hk : Keyed R db) (hpresent : annexAbsent item = false)
    (h : db.projectAnnexPresence R item fileId content external record time (isInventory item) = .ok db') :
    AnnexEffect R db item db' := by
  obtain ⟨worktree, _, h⟩ := bind_eq_ok.mp h
  obtain ⟨pathState, _, h⟩ := bind_eq_ok.mp h
  obtain ⟨⟨d₁, bound⟩, h₁, h⟩ := bind_eq_ok.mp h
  obtain ⟨source, _, h⟩ := bind_eq_ok.mp h
  obtain ⟨cas, _, h⟩ := bind_eq_ok.mp h
  obtain ⟨_, _, h⟩ := bind_eq_ok.mp h
  obtain ⟨availability, _, h⟩ := bind_eq_ok.mp h
  obtain ⟨availability, _, h⟩ := bind_eq_ok.mp h
  obtain ⟨integrity, _, h⟩ := bind_eq_ok.mp h
  have hnoting := (binding_noting h₁).1.trans
    (@observeAvailability_noting d₁ ⟨external, source, availability, cas, time, record⟩)
  cases hcopy : annexCopyOf item with
  | some c =>
    obtain ⟨name, location⟩ := c
    rw [hcopy] at h
    exact .written hpresent hcopy ((annexCopy_writesCopy h).after hnoting)
  | none =>
    rw [hcopy] at h
    cases h
    cases hinventory : isInventory item with
    | true =>
      rw [if_pos rfl]
      exact .kept (Or.inr hcopy) (hnoting.keyed hk) (hnoting.seating hk) hnoting.scans
        fun _ => ⟨hnoting.checks, hnoting.copies⟩
    | false =>
      have hobserving := hnoting.toObserving.trans (appendCheck_observing bound time
        (pathPresence pathState) .unverified none)
      rw [if_neg (by simp)]
      exact .kept (Or.inr hcopy) (hobserving.keyed hk) (hobserving.seating hk) hobserving.scans
        fun he => by rw [hinventory] at he; cases he

theorem projectAnnexEntry_effect {record : VerifiedV2Record} (hk : Keyed R db)
    (h : db.projectAnnexEntry R item record = .ok db') : AnnexEffect R db item db' := by
  obtain ⟨rid, _, h⟩ := bind_eq_ok.mp h
  obtain ⟨time, _, h⟩ := bind_eq_ok.mp h
  obtain ⟨⟨d₁, content⟩, h₁, h⟩ := bind_eq_ok.mp h
  obtain ⟨⟨d₂, identity⟩, h₂, h⟩ := bind_eq_ok.mp h
  obtain ⟨resolution, _, h⟩ := bind_eq_ok.mp h
  obtain ⟨state, _, h⟩ := bind_eq_ok.mp h
  obtain ⟨⟨d₃, fileId⟩, h₃, h⟩ := bind_eq_ok.mp h
  have hnoting := ((annexContent_noting h₁).trans (annexIdentity_noting h₂)).trans (annexFile_noting h₃)
  have hk' := hnoting.keyed hk
  cases habsent : annexAbsent item with
  | true =>
    simp only [habsent, if_true] at h
    obtain ⟨hkeyed, hseating, hscans⟩ := projectAnnexAbsence_kept hk' h
    refine .kept (Or.inl habsent) hkeyed (hseating.trans (hnoting.seating hk)) (hnoting.scans.trans hscans) ?_
    intro hinventory
    simp [annexAbsent, hinventory] at habsent
  | false =>
    simp only [habsent, Bool.false_eq_true, if_false] at h
    cases projectAnnexPresence_effect hk' habsent h with
    | kept hcopy hkeyed hseating hscans hinert =>
      exact .kept hcopy hkeyed (hseating.trans (hnoting.seating hk)) (hnoting.scans.trans hscans)
        fun hi => ⟨(hinert hi).1.trans hnoting.checks, (hinert hi).2.trans hnoting.copies⟩
    | written hpresent hcopy hwrites => exact .written hpresent hcopy (hwrites.after hnoting)

end Projection

end ArchiveLedger
