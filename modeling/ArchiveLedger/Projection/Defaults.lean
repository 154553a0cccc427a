import ArchiveLedger.Journal.Values
import ArchiveLedger.Projection.Items

/-!
# Defaults of the items of a batch

The writer leaves out of an item what equals the default of its kind (`compactBatchItem`) and the
projector fills in what is absent (`materializeBatchItem`).  The two come back to an equal item where it
has a value of its own, null or not, for every defaulted field; a field it omits comes back as the
default (`defaults_round_trip`).
-/

namespace ArchiveLedger

open Outcome

/-! ### The writer -/

def validateKindDefaults (entry : String × Json) : StoreResult Unit := do
  require entry.2.isObject
    (.invalid ("schema-2 defaults for item kind " ++ quoted entry.1 ++ " must be an object"))
  require (entry.2.get "kind").isNone
    (.invalid ("schema-2 defaults for item kind " ++ quoted entry.1 ++ " cannot default kind"))

def validateItemDefaults (itemSchemaVersion : Nat) (defaults : Json) : StoreResult Unit :=
  if itemSchemaVersion = 1 then .ok ()
  else if itemSchemaVersion = 2 then do
    require defaults.isObject (.invalid "schema-2 batch defaults must be an object")
    defaults.fields.forM validateKindDefaults
  else .error (.invalid ("unsupported batch item schema version " ++ toString itemSchemaVersion))

/-- What every append asks of its version, context and defaults. -/
def admitBatch (operationKind : String) (itemSchemaVersion : Nat) (context defaults : Json) : StoreResult Unit := do
  require (operationKind ≠ "" ∧ itemSchemaVersion ≠ 0)
    (.invalid "batch operation kind and item schema version are required")
  require (context.isObject ∧ defaults.isObject) (.invalid "batch context and defaults must be JSON objects")
  validateItemDefaults itemSchemaVersion defaults

/-- `Map::remove`. -/
def Json.remove (value : Json) (key : String) : Json :=
  match value with
  | .obj fields => .obj (fields.filter fun f => f.1 ≠ key)
  | other => other

/-- `item.get(key) == Some(default)`. -/
def Json.hasValue (item : Json) (key : String) (value : Json) : Bool := (item.get key).any fun v => v.same value

/-- One default against an item. -/
def omitDefault (item : Json) (entry : String × Json) : Json :=
  if item.hasValue entry.1 entry.2 then item.remove entry.1 else item

/-- The fields the defaults give a kind. -/
def defaultsOf (defaults : Json) (kind : String) : List (String × Json) :=
  match defaults.get kind with
  | some (.obj values) => values
  | _ => []

def compactBatchItem (item : Json) (itemSchemaVersion : Nat) (defaults : Json) : StoreResult Json :=
  if itemSchemaVersion = 1 then .ok item
  else do
    require item.isObject (.invalid "schema-2 batch item must be an object")
    let kind ← okOr ((item.get "kind").bind Json.asStr) (.invalid "schema-2 batch item is missing kind")
    .ok ((defaultsOf defaults kind).foldl omitDefault item)

/-! ### Lookups -/

theorem Json.get_remove (value : Json) (key k : String) :
    (value.remove key).get k = if k = key then none else value.get k := by
  cases value with
  | obj fields =>
    show ((fields.filter fun f => f.1 ≠ key).find? fun f => f.1 = k).map Prod.snd = _
    rw [List.find?_filter]
    split
    · rename_i hk
      have hnone : fields.find? (fun f => decide (decide (f.1 ≠ key) = true ∧ decide (f.1 = k) = true)) = none := by
        rw [List.find?_eq_none]
        intro f _
        simp [hk]
      rw [hnone]
      rfl
    · rename_i hk
      have hsame : (fun f : String × Json => decide (decide (f.1 ≠ key) = true ∧ decide (f.1 = k) = true)) =
          fun f => decide (f.1 = k) := by
        funext f
        by_cases hf : f.1 = k
        · simp [hf, hk]
        · simp [hf]
      rw [hsame]
      rfl
  | _ =>
    split
    · rfl
    · rfl

theorem omitDefault_isObject {item : Json} (entry : String × Json) (h : item.isObject = true) :
    (omitDefault item entry).isObject = true := by
  unfold omitDefault
  split
  · cases item with
    | obj fields => rfl
    | _ => cases h
  · exact h

theorem foldl_omitDefault_isObject (l : List (String × Json)) {item : Json} (h : item.isObject = true) :
    (l.foldl omitDefault item).isObject = true := by
  induction l generalizing item with
  | nil => exact h
  | cons entry l ih => exact ih (omitDefault_isObject entry h)

theorem get_omitDefault (item : Json) (entry : String × Json) (k : String) :
    (omitDefault item entry).get k =
      if k = entry.1 ∧ item.hasValue k entry.2 = true then none else item.get k := by
  unfold omitDefault
  split
  · rename_i heq
    rw [Json.get_remove]
    by_cases hk : k = entry.1
    · subst hk
      rw [if_pos rfl, if_pos ⟨rfl, heq⟩]
    · rw [if_neg hk, if_neg fun h => hk h.1]
  · rename_i hne
    rw [if_neg]
    rintro ⟨rfl, heq⟩
    exact hne heq

/-- A map has a key once. -/
def DistinctKeys (l : List (String × Json)) : Prop := (l.map Prod.fst).Nodup

theorem get_obj_cons (entry : String × Json) (l : List (String × Json)) (k : String) :
    (Json.obj (entry :: l)).get k = if entry.1 = k then some entry.2 else (Json.obj l).get k := by
  show (((entry :: l).find? fun f => f.1 = k).map Prod.snd) = _
  rw [List.find?_cons]
  split
  · rename_i h
    rw [if_pos (of_decide_eq_true h)]
    rfl
  · rename_i h
    rw [if_neg (of_decide_eq_false h)]
    rfl

theorem get_obj_eq_none {l : List (String × Json)} {k : String} (h : k ∉ l.map Prod.fst) :
    (Json.obj l).get k = none := by
  induction l with
  | nil => rfl
  | cons entry l ih =>
    rw [List.map_cons, List.mem_cons, not_or] at h
    rw [get_obj_cons, if_neg fun he => h.1 he.symm, ih h.2]

/-- The default of a field that an item has the value of. -/
def omitted (l : List (String × Json)) (item : Json) (k : String) : Bool :=
  ((Json.obj l).get k).any fun d => item.hasValue k d

/-- A compacted item has its own value of a field unless the value is the default. -/
theorem get_compact {l : List (String × Json)} (hl : DistinctKeys l) (item : Json) (k : String) :
    (l.foldl omitDefault item).get k = if omitted l item k then none else item.get k := by
  induction l generalizing item with
  | nil => rfl
  | cons entry l ih =>
    obtain ⟨hnot, hl⟩ := List.nodup_cons.mp hl
    rw [List.foldl_cons, ih hl]
    unfold omitted
    rw [get_obj_cons]
    by_cases hk : k = entry.1
    · subst hk
      rw [if_pos rfl, get_obj_eq_none hnot, get_omitDefault]
      show (if _ then none else item.get entry.1) = if item.hasValue entry.1 entry.2 = true then none else item.get entry.1
      simp only [true_and]
    · have hstays : (omitDefault item entry).get k = item.get k := by
        rw [get_omitDefault, if_neg fun h => hk h.1]
      unfold Json.hasValue
      rw [hstays, if_neg (Ne.symm hk)]

/-- `kind` is never left out. -/
theorem get_kind_compact {l : List (String × Json)} (item : Json) (hkind : ∀ e ∈ l, e.1 ≠ "kind") :
    (l.foldl omitDefault item).get "kind" = item.get "kind" := by
  induction l generalizing item with
  | nil => rfl
  | cons entry l ih =>
    obtain ⟨hentry, hl⟩ := List.forall_mem_cons.mp hkind
    rw [List.foldl_cons, ih _ hl, get_omitDefault, if_neg fun h => hentry h.1.symm]

/-- A lookup among the fields of an item and then among the defaults it lacks. -/
theorem get_append (item : Json) (hitem : item.isObject = true) (l : List (String × Json)) (k : String) :
    (Json.obj (item.fields ++ l.filter fun f => (item.get f.1).isNone)).get k =
      (item.get k).or ((Json.obj l).get k) := by
  cases item with
  | obj fields =>
    show ((fields ++ l.filter fun f => ((Json.obj fields).get f.1).isNone).find? fun f => f.1 = k).map Prod.snd =
      ((fields.find? fun f => f.1 = k).map Prod.snd).or ((l.find? fun f => f.1 = k).map Prod.snd)
    rw [List.find?_append]
    cases hfind : fields.find? (fun f => f.1 = k) with
    | some f => simp
    | none =>
      have hget : (Json.obj fields).get k = none := by rw [Json.get, hfind]; rfl
      rw [List.find?_filter, Option.none_or, Option.map_none, Option.none_or]
      congr 1
      congr 1
      funext f
      by_cases hf : f.1 = k
      · simp [hf, hget]
      · simp [hf]
  | _ => cases hitem

/-! ### The round trip -/

/-- The two validators agree on what an append admits. -/
theorem validateProjected_of_admitBatch {operationKind : String} {version : Nat} {context defaults : Json}
    (h : admitBatch operationKind version context defaults = .ok ()) :
    validateProjectedItemDefaults version defaults = .ok () := by
  unfold admitBatch at h
  obtain ⟨_, -, h⟩ := Transition.bind_eq_ok.mp h
  obtain ⟨_, hobjects, h⟩ := Transition.bind_eq_ok.mp h
  obtain ⟨-, hdefaults⟩ := require_eq_ok.mp hobjects
  have hobject : object defaults "batch defaults" = .ok defaults := by
    rw [object, require, if_pos hdefaults]
    rfl
  rw [validateProjectedItemDefaults, hobject]
  show (if version = 1 then (.ok () : ProjectionResult Unit) else _) = .ok ()
  unfold validateItemDefaults at h
  split at h
  · rename_i hone
    rw [if_pos hone]
  · rename_i hone
    rw [if_neg hone]
    split at h
    · rename_i htwo
      rw [if_pos htwo]
      obtain ⟨_, -, h⟩ := Transition.bind_eq_ok.mp h
      rw [forM_eq_ok] at h ⊢
      intro entry hentry
      obtain ⟨_, hisobject, hkind⟩ := Transition.bind_eq_ok.mp (h entry hentry)
      rw [validateDefault, object, require, if_pos (require_eq_ok.mp hisobject)]
      show require _ _ = .ok ()
      rw [require, if_pos (require_eq_ok.mp hkind)]
    · cases h

/-- The fields of an object as a map holds them. -/
def Json.Mapped (value : Json) : Prop := DistinctKeys value.fields

theorem defaultsOf_eq {defaults : Json} {version : Nat} (h : validateItemDefaults version defaults = .ok ())
    (hversion : version ≠ 1) (kind : String) :
    kindDefaults defaults kind = .ok (.obj (defaultsOf defaults kind)) ∧
      ∀ e ∈ defaultsOf defaults kind, e.1 ≠ "kind" := by
  unfold validateItemDefaults at h
  rw [if_neg hversion] at h
  split at h
  · obtain ⟨_, -, h⟩ := Transition.bind_eq_ok.mp h
    rw [forM_eq_ok] at h
    unfold kindDefaults defaultsOf
    cases hget : defaults.get kind with
    | none => exact ⟨rfl, fun e he => absurd he List.not_mem_nil⟩
    | some values =>
      have hmem : (kind, values) ∈ defaults.fields := by
        cases defaults with
        | obj fields =>
          obtain ⟨f, hf, rfl⟩ := Option.map_eq_some_iff.mp hget
          have hkey : f.1 = kind := by simpa using List.find?_some hf
          rw [← hkey]
          exact List.mem_of_find?_eq_some hf
        | _ => cases hget
      obtain ⟨_, hobject, hkind⟩ := Transition.bind_eq_ok.mp (h _ hmem)
      rw [require_eq_ok] at hobject hkind
      cases values with
      | obj l =>
        refine ⟨rfl, fun e he heq => ?_⟩
        have hsome : ((l.find? fun f => f.1 = "kind").map Prod.snd).isSome = true := by
          rw [Option.isSome_map, List.find?_isSome]
          exact ⟨e, he, by simpa using heq⟩
        rw [Json.get, Option.isNone_iff_eq_none] at hkind
        rw [hkind] at hsome
        cases hsome
      | _ => cases hobject
  · cases h

/-- What comes back of a field: its value, unless it has the value of the default or none. -/
def returned (own default : Option Json) : Option Json :=
  match own, default with
  | some v, some d => if v.same d then some d else some v
  | some v, none => some v
  | none, d => d

/-- Fields that are both absent or have equal values. -/
def sameField (own back : Option Json) : Bool :=
  match own, back with
  | some v, some w => v.same w
  | none, none => true
  | _, _ => false

/-- The zero of an item comes back as the zero of the defaults. -/
example : returned (some (.num "-0.0")) (some (.num "0.0")) = some (.num "0.0") := rfl

theorem sameField_returned (own default : Option Json) : sameField (own.or default) (returned own default) = true := by
  cases own with
  | none => cases default <;> simp [returned, sameField]
  | some v =>
    cases default with
    | none => simp [returned, sameField]
    | some d =>
      by_cases h : v.same d = true
      · simp [returned, sameField, h]
      · simp [returned, sameField, h]

/-- **Defaults round-trip** for every field an item gives; an omitted one comes back as the default. -/
theorem defaults_round_trip {operationKind : String} {version : Nat} {context defaults item compact : Json}
    (hmapped : ∀ kind values, defaults.get kind = some values → values.Mapped)
    (haccepted : admitBatch operationKind version context defaults = .ok ())
    (hcompact : compactBatchItem item version defaults = .ok compact) :
    validateProjectedItemDefaults version defaults = .ok () ∧ (version = 1 → compact = item) ∧
      (version ≠ 1 → ∃ kind m, (item.get "kind").bind Json.asStr = some kind ∧
        materializeBatchItem compact defaults = .ok m ∧
        (∀ key, m.get key = returned (item.get key) ((Json.obj (defaultsOf defaults kind)).get key) ∧
          sameField ((item.get key).or ((Json.obj (defaultsOf defaults kind)).get key)) (m.get key) = true) ∧
        ((∀ key, sameField (item.get key) (m.get key) = true) ↔
          ∀ e ∈ defaultsOf defaults kind, (item.get e.1).isSome = true)) := by
  refine ⟨validateProjected_of_admitBatch haccepted, ?_, ?_⟩
  · intro hone
    rw [compactBatchItem, if_pos hone] at hcompact
    exact (Except.ok.inj hcompact).symm
  · intro hversion
    rw [compactBatchItem, if_neg hversion] at hcompact
    obtain ⟨_, hobject, hcompact⟩ := Transition.bind_eq_ok.mp hcompact
    obtain ⟨kind, hkind, hcompact⟩ := Transition.bind_eq_ok.mp hcompact
    rw [require_eq_ok] at hobject
    rw [okOr_eq_ok] at hkind
    have hcompact := (Except.ok.inj hcompact).symm
    have hvalid : validateItemDefaults version defaults = .ok () := by
      unfold admitBatch at haccepted
      obtain ⟨_, -, haccepted⟩ := Transition.bind_eq_ok.mp haccepted
      obtain ⟨_, -, haccepted⟩ := Transition.bind_eq_ok.mp haccepted
      exact haccepted
    obtain ⟨hdefaults, hnokind⟩ := defaultsOf_eq hvalid hversion kind
    have hkeyed : DistinctKeys (defaultsOf defaults kind) := by
      unfold defaultsOf
      split
      · rename_i values hvalues
        exact hmapped kind _ hvalues
      · exact List.nodup_nil
    have hisobject : compact.isObject = true := by
      rw [hcompact]
      exact foldl_omitDefault_isObject _ hobject
    have hsamekind : compact.get "kind" = item.get "kind" := by
      rw [hcompact]
      exact get_kind_compact item hnokind
    obtain ⟨value, hvalue, hstr⟩ := Option.bind_eq_some_iff.mp hkind
    have hmaterialize : materializeBatchItem compact defaults =
        .ok (.obj (compact.fields ++ (defaultsOf defaults kind).filter fun f => (compact.get f.1).isNone)) := by
      have hstring : string compact "kind" = .ok kind := by
        rw [string, required, hsamekind, hvalue]
        show okOr value.asStr _ = .ok kind
        rw [hstr]
        rfl
      rw [materializeBatchItem, object, require, if_pos hisobject]
      show (string compact "kind" >>= _) = _
      rw [hstring]
      show (kindDefaults defaults kind >>= _) = _
      rw [hdefaults]
      rfl
    have hget : ∀ key, (Json.obj (compact.fields ++ (defaultsOf defaults kind).filter fun f =>
        (compact.get f.1).isNone)).get key =
        returned (item.get key) ((Json.obj (defaultsOf defaults kind)).get key) := by
      intro key
      rw [get_append compact hisobject, hcompact, get_compact hkeyed]
      unfold omitted Json.hasValue
      cases item.get key with
      | none => cases (Json.obj (defaultsOf defaults kind)).get key <;> rfl
      | some v =>
        cases (Json.obj (defaultsOf defaults kind)).get key with
        | none => rfl
        | some d =>
          by_cases h : v.same d = true
          · simp [returned, h]
          · simp [returned, h]
    refine ⟨kind, _, hkind, hmaterialize, fun key => ⟨hget key, ?_⟩, ?_⟩
    · rw [hget]
      exact sameField_returned _ _
    constructor
    · intro hsame e he
      have hback := hsame e.1
      rw [hget] at hback
      cases hitem : item.get e.1 with
      | some v => rfl
      | none =>
        rw [hitem] at hback
        have hfound : ((Json.obj (defaultsOf defaults kind)).get e.1).isSome = true := by
          rw [Json.get, Option.isSome_map, List.find?_isSome]
          exact ⟨e, he, by simp⟩
        obtain ⟨d, hd⟩ := Option.isSome_iff_exists.mp hfound
        rw [hd] at hback
        cases hback
    · intro hgiven key
      rw [hget]
      have hor : item.get key = (item.get key).or ((Json.obj (defaultsOf defaults kind)).get key) := by
        cases hdefault : (Json.obj (defaultsOf defaults kind)).get key with
        | none => exact Option.or_none.symm
        | some v =>
          obtain ⟨e, he, -⟩ := Option.map_eq_some_iff.mp hdefault
          have hkey : e.1 = key := by simpa using List.find?_some he
          obtain ⟨w, hw⟩ := Option.isSome_iff_exists.mp (hgiven e (List.mem_of_find?_eq_some he))
          rw [← hkey, hw]
          rfl
      have hback := sameField_returned (item.get key) ((Json.obj (defaultsOf defaults kind)).get key)
      rwa [← hor] at hback

namespace Sample

def sharedDefaults : Json := .obj [("content_observed", .obj [("sha256_hex", .null)])]

/-- It gives the defaulted field. -/
def givenItem : Json := .obj [("kind", .str "content_observed"), ("sha256_hex", .null)]

def silentItem : Json := .obj [("kind", .str "content_observed")]

theorem sharedDefaults_mapped : ∀ kind values, sharedDefaults.get kind = some values → values.Mapped := by
  intro kind values h
  obtain ⟨f, hf, rfl⟩ := Option.map_eq_some_iff.mp h
  have hmem := List.mem_of_find?_eq_some hf
  rw [List.mem_singleton.mp hmem]
  exact List.nodup_singleton _

theorem givenItem_returns : ∃ m, materializeBatchItem silentItem sharedDefaults = .ok m ∧
    ∀ key, sameField (givenItem.get key) (m.get key) = true := by
  obtain ⟨-, -, htrip⟩ := @defaults_round_trip "inventory_add" 2 (.obj []) sharedDefaults givenItem silentItem
    sharedDefaults_mapped rfl rfl
  obtain ⟨kind, m, hkind, hm, -, hiff⟩ := htrip (by decide)
  have hname : kind = "content_observed" := (Option.some.inj hkind).symm
  refine ⟨m, hm, hiff.mpr ?_⟩
  rw [hname]
  decide

/-- **An omitted field comes back**: it is not in the item, and in what the projector makes of it. -/
theorem silentItem_changes : admitBatch "inventory_add" 2 (.obj []) sharedDefaults = .ok () ∧
    ∃ compact m, compactBatchItem silentItem 2 sharedDefaults = .ok compact ∧
      materializeBatchItem compact sharedDefaults = .ok m ∧
      silentItem.get "sha256_hex" = none ∧ m.get "sha256_hex" = some .null :=
  ⟨rfl, silentItem, _, rfl, rfl, rfl, rfl⟩

end Sample

end ArchiveLedger
