import ArchiveLedger.Compact.FindFiles

/-!
# The rows of a file search

A search joins each File with its Collection and its content, once (`mem_foundFiles`,
`nodup_foundFiles`).  No two active Files stand at one place of the order, so the cursor of a row
selects the rows that follow it, whether the search is of one Collection or of all
(`queryRows_after`).
-/

namespace ArchiveLedger.Compact

open Relational

/-- The joined row of a File and its Collection. -/
def Tables.foundFile (t : Tables) (c : CollectionRow) (f : FileObjectRow) : FoundFile where
  collection := c
  native := f
  file := t.fileRef f c
  object := (t.content? f.contentId).map fun o => ⟨o.objectId, o.sizeBytes⟩

namespace CompactDb

variable (db : CompactDb)

theorem leftJoin_objects {f : FileObjectRow} (hf : f ∈ db.fileObjects.rows) :
    (leftJoin db.objects fun o =>
      same (some o.objectId) ((db.content? f.contentId).map ContentObjectRow.objectId)) =
      [(db.content? f.contentId).map fun o => ⟨o.objectId, o.sizeBytes⟩] := by
  cases hid : f.contentId with
  | none => exact leftJoin_eq_nil (List.filter_eq_nil_iff.mpr fun o _ => by simp [Tables.content?])
  | some id =>
    obtain ⟨o, ho⟩ := db.linked.fileContent f hf id hid
    have hone : (db.contentObjects.rows.filter fun s => same (some s.objectId) (some o.objectId)) = [o] := by
      have hsame : (fun s : ContentObjectRow => same (some s.objectId) (some o.objectId)) =
          fun s => decide (s.objectId = o.objectId) := funext fun s => by simp [same_some_left, eq_comm]
      rw [hsame]
      exact filter_unique (fun r hr s hs h => eq_of_column hr hs h) (Table.mem_of_get? ho)
    simp only [Tables.content?, Option.bind_some, ho, Option.map_some]
    rw [Tables.objects, leftJoin_map, leftJoin_eq_singleton hone]
    rfl

theorem filter_fileRefs {c : CollectionRow} (hc : c ∈ db.collections.rows) {f : FileObjectRow}
    (hf : f ∈ db.fileObjects.rows) (hcollection : f.collectionId = c.id) :
    (db.fileRefs.filter fun r => decide (r.fileRefId = f.canonicalId)) = [db.fileRef f c] := by
  have hrow : db.fileRefs.filter (fun r => decide (r.fileRefId = f.canonicalId)) =
      (db.fileObjects.rows.filter fun g => decide (g.canonicalId = f.canonicalId)).filterMap fun g =>
        (db.collections.get? g.collectionId).map (db.fileRef g) := by
    rw [fileRefs_eq]
    induction db.fileObjects.rows with
    | nil => rfl
    | cons g rows ih =>
      cases hg : db.collections.get? g.collectionId with
      | none => by_cases h : g.canonicalId = f.canonicalId <;> simp [hg, h, ih]
      | some d => by_cases h : g.canonicalId = f.canonicalId <;> simp [hg, h, ih, Tables.fileRef]
  have hone : (db.fileObjects.rows.filter fun g => decide (g.canonicalId = f.canonicalId)) = [f] :=
    filter_unique (fun r hr s hs h => Table.eq_of_clash hr hs (by simp [h])) hf
  have hget : db.collections.get? f.collectionId = some c := by
    rw [hcollection]
    exact Table.get?_of_mem hc
  rw [hrow, hone]
  simp [hget]

/-- Each Collection is joined with its Files, in their order. -/
theorem foundFiles_eq : db.foundFiles = db.collections.rows.flatMap fun c =>
    (db.fileObjects.rows.filter fun f => decide (f.collectionId = c.id)).map (db.foundFile c) := by
  refine List.flatMap_congr fun c hc => ?_
  rw [List.map_eq_flatMap]
  refine List.flatMap_congr fun f hf => ?_
  obtain ⟨hf, hcollection⟩ := List.mem_filter.mp hf
  rw [filter_fileRefs db hc hf (of_decide_eq_true hcollection), List.flatMap_singleton]
  show (leftJoin db.objects fun o =>
    same (some o.objectId) ((db.content? f.contentId).map ContentObjectRow.objectId)).map _ = _
  rw [leftJoin_objects db hf]
  rfl

theorem mem_foundFiles {r : FoundFile} : r ∈ db.foundFiles ↔
    ∃ f ∈ db.fileObjects.rows, ∃ c, db.collections.get? f.collectionId = some c ∧ r = db.foundFile c f := by
  rw [foundFiles_eq, List.mem_flatMap]
  constructor
  · intro h
    obtain ⟨c, hc, hr⟩ := h
    obtain ⟨f, hf, rfl⟩ := List.mem_map.mp hr
    obtain ⟨hf, hcollection⟩ := List.mem_filter.mp hf
    refine ⟨f, hf, c, ?_, rfl⟩
    rw [of_decide_eq_true hcollection]
    exact Table.get?_of_mem hc
  · intro h
    obtain ⟨f, hf, c, hc, rfl⟩ := h
    have hkey : c.id = f.collectionId := Table.key_of_get? hc
    exact ⟨c, Table.mem_of_get? hc,
      List.mem_map_of_mem (List.mem_filter.mpr ⟨hf, decide_eq_true hkey.symm⟩)⟩

theorem nodup_foundFiles : db.foundFiles.Nodup := by
  rw [foundFiles_eq, List.nodup_flatMap]
  constructor
  · intro c _
    exact (db.fileObjects.rows_nodup.filter _).map fun f g h => congrArg FoundFile.native h
  · refine db.collections.rows_nodup.imp fun {c d} hne r hrc hrd => ?_
    obtain ⟨f, -, rfl⟩ := List.mem_map.mp hrc
    obtain ⟨g, -, h⟩ := List.mem_map.mp hrd
    exact hne (congrArg FoundFile.collection h).symm

/-- No two active Files stand at one place. -/
theorem eq_of_rank {r s : FoundFile} (hr : r ∈ db.foundFiles) (hs : s ∈ db.foundFiles)
    (hactive : r.native.active = true) (hactive' : s.native.active = true) (h : r.rank = s.rank) : r = s := by
  obtain ⟨f, hf, c, hc, rfl⟩ := (mem_foundFiles db).mp hr
  obtain ⟨g, hg, d, hd, rfl⟩ := (mem_foundFiles db).mp hs
  obtain ⟨hcollection, hpath⟩ := Prod.mk.inj (toLex.injective h)
  obtain ⟨hencoding, hbytes⟩ := Prod.mk.inj (toLex.injective hpath)
  have hcd : c = d := eq_of_column (Table.mem_of_get? hc) (Table.mem_of_get? hd) (textRank_injective hcollection)
  have hcid : c.id = f.collectionId := Table.key_of_get? hc
  have hdid : d.id = g.collectionId := Table.key_of_get? hd
  have hstored : f.path = g.path := by
    cases hfp : f.path
    cases hgp : g.path
    simp only [Tables.foundFile, hfp, hgp] at hencoding hbytes
    rw [textRank_injective hencoding, blobRank_injective hbytes]
  have hsame : f = g := by
    refine Table.eq_of_clash hf hg ?_
    have hfa : f.active = true := hactive
    have hga : g.active = true := hactive'
    simp [hfa, hga, hstored, ← hcid, ← hdid, hcd]
  rw [hcd, hsame]

theorem ranks_nodup {p : FoundFile → Bool} (hp : ∀ r, p r = true → r.native.active = true) :
    ((db.foundFiles.filter p).map FoundFile.rank).Nodup := by
  refine ((nodup_foundFiles db).filter p).map_on fun r hr s hs h => ?_
  obtain ⟨hr, hpr⟩ := List.mem_filter.mp hr
  obtain ⟨hs, hps⟩ := List.mem_filter.mp hs
  exact eq_of_rank db hr hs (hp r hpr) (hp s hps) h

end CompactDb

/-! ### The order and the cursor -/

/-- The rows of a request, in the order of Collection and path. -/
def Tables.listing (t : Tables) (filter : FileFilter) : List FoundFile :=
  Keyset.sorted FoundFile.rank (t.foundFiles.filter (t.satisfies filter))

/-- The cursor at a row. -/
def FoundFile.cursor (r : FoundFile) : FileCursor where
  collectionId := r.collection.collectionId
  pathEncoding := r.native.path.encoding
  pathBytes := r.native.path.bytes

theorem FoundFile.rank_le_iff {r s : FoundFile} (h : r.collection.collectionId = s.collection.collectionId) :
    r.pathRank ≤ s.pathRank ↔ r.rank ≤ s.rank := by
  rw [rank, rank, h, Prod.Lex.toLex_le_toLex]
  simp [pathRank]

theorem FoundFile.rank_lt_iff {r s : FoundFile} (h : r.collection.collectionId = s.collection.collectionId) :
    r.pathRank < s.pathRank ↔ r.rank < s.rank := by
  rw [rank, rank, h, Prod.Lex.toLex_lt_toLex]
  simp [pathRank]

/-- With the rows of one Collection both orders are one. -/
theorem ordered_eq {single : Bool} {rows : List FoundFile} (h : single = true →
    ∀ r ∈ rows, ∀ s ∈ rows, r.collection.collectionId = s.collection.collectionId) :
    ordered single rows = Keyset.sorted FoundFile.rank rows := by
  cases single with
  | false => rfl
  | true =>
    exact Keyset.sorted_congr fun r hr s hs => FoundFile.rank_le_iff (h rfl r hr s hs)

theorem least_path (r : FoundFile) : toLex (textRank "", blobRank []) ≤ r.pathRank := by
  rw [FoundFile.pathRank, Prod.Lex.toLex_le_toLex]
  have hempty : textRank "" = [] := rfl
  have hleast : ∀ l : List Nat, [] ≤ l := fun l => not_lt.mp (List.not_lt_nil l)
  rw [hempty]
  rcases (hleast (textRank r.native.path.encoding)).lt_or_eq with hlt | heq
  · exact Or.inl hlt
  · exact Or.inr ⟨heq, hleast _⟩

/-- The cursor at a row lets the rows pass that stand after it. -/
theorem passes_cursor {single : Bool} {r s : FoundFile}
    (h : single = true → r.collection.collectionId = s.collection.collectionId) :
    r.cursor.passes single s = decide (r.rank < s.rank) := by
  cases single with
  | true =>
    simp only [FileCursor.passes, if_true, decide_eq_decide]
    exact FoundFile.rank_lt_iff (h rfl)
  | false =>
    by_cases hsame : s.collection.collectionId = r.collection.collectionId
    · have hafter : (toLex (textRank r.cursor.pathEncoding, blobRank r.cursor.pathBytes) : List Nat ×ₗ List Nat) =
          r.pathRank := rfl
      have hcollection : s.collection.collectionId = r.cursor.collectionId := hsame
      simp only [FileCursor.passes, hafter, hcollection, if_true, ← FoundFile.rank_lt_iff hsame.symm]
      simpa using fun h => le_of_lt h
    · have hcollection : s.collection.collectionId ≠ r.cursor.collectionId := hsame
      have hne : textRank r.collection.collectionId ≠ textRank s.collection.collectionId := fun h =>
        hsame (textRank_injective h).symm
      have hlex : r.rank < s.rank ↔ textRank r.collection.collectionId ≤ textRank s.collection.collectionId := by
        rw [FoundFile.rank, FoundFile.rank, Prod.Lex.toLex_lt_toLex]
        constructor
        · rintro (hlt | ⟨heq, -⟩)
          · exact le_of_lt hlt
          · exact absurd heq hne
        · exact fun hle => Or.inl (lt_of_le_of_ne hle hne)
      simp only [FileCursor.passes, hcollection, if_false, decide_eq_true (least_path s), hlex, Bool.and_true]
      simp [hcollection]
      rfl

namespace CompactDb

variable (db : CompactDb)

theorem active_of_satisfies {filter : FileFilter} {r : FoundFile} (h : db.satisfies filter r = true) :
    r.native.active = true := by
  simp only [Tables.satisfies, Bool.and_eq_true] at h
  tauto

theorem collection_of_satisfies {filter : FileFilter} {r : FoundFile} (h : db.satisfies filter r = true) :
    ∀ id ∈ filter.collectionId, r.collection.collectionId = id := by
  simp only [Tables.satisfies, Bool.and_eq_true] at h
  intro id hid
  have hall : filter.collectionId.all (fun id => decide (r.collection.collectionId = id)) = true := by tauto
  rw [Option.mem_def.mp hid] at hall
  exact of_decide_eq_true hall

theorem same_collection {filter : FileFilter} {r s : FoundFile} (hr : db.satisfies filter r = true)
    (hs : db.satisfies filter s = true) (hsingle : filter.collectionId.isSome = true) :
    r.collection.collectionId = s.collection.collectionId := by
  obtain ⟨id, hid⟩ := Option.isSome_iff_exists.mp hsingle
  rw [collection_of_satisfies db hr id hid, collection_of_satisfies db hs id hid]

theorem mem_listing {filter : FileFilter} {r : FoundFile} :
    r ∈ db.listing filter ↔ r ∈ db.foundFiles ∧ db.satisfies filter r = true := by
  rw [Tables.listing, Keyset.mem_sorted, List.mem_filter]

theorem listing_strict (filter : FileFilter) : (db.listing filter).Pairwise fun a b => a.rank < b.rank :=
  Keyset.strict_sorted (ranks_nodup db fun _ => active_of_satisfies db)

theorem queryRows_first (filter : FileFilter) : db.queryRows filter none = db.listing filter := by
  have hall : (fun r => db.satisfies filter r && (none : Option FileCursor).all fun cursor =>
      cursor.passes filter.collectionId.isSome r) = db.satisfies filter := funext fun r => Bool.and_true _
  rw [Tables.queryRows, hall, ordered_eq]
  · rfl
  · intro hsingle r hr s hs
    exact same_collection db (List.mem_filter.mp hr).2 (List.mem_filter.mp hs).2 hsingle

/-- The rows after the cursor of a listed row are those that follow it. -/
theorem queryRows_after {filter : FileFilter} {xs ys : List FoundFile} {r : FoundFile}
    (hlist : db.listing filter = xs ++ r :: ys) : db.queryRows filter (some r.cursor) = ys := by
  have hr : db.satisfies filter r = true := (mem_listing db).mp (hlist ▸ by simp) |>.2
  have hsplit : (db.foundFiles.filter fun s => db.satisfies filter s &&
      (some r.cursor).all fun cursor => cursor.passes filter.collectionId.isSome s) =
      (db.foundFiles.filter (db.satisfies filter)).filter fun s => r.rank < s.rank := by
    rw [List.filter_filter]
    refine List.filter_congr fun s _ => ?_
    by_cases hs : db.satisfies filter s = true
    · rw [hs, Option.all_some, passes_cursor fun h => same_collection db hr hs h, Bool.true_and, Bool.and_true]
    · rw [Bool.eq_false_iff.mpr hs, Bool.false_and, Bool.and_false]
  rw [Tables.queryRows, hsplit, ordered_eq]
  · rw [← Keyset.filter_sorted (ranks_nodup db fun _ => active_of_satisfies db)]
    have hstrict := listing_strict db filter
    rw [hlist] at hstrict
    show (db.listing filter).filter _ = ys
    rw [hlist]
    exact Keyset.filter_after hstrict
  · intro hsingle s hs u hu
    have hs := (List.mem_filter.mp (List.mem_filter.mp hs).1).2
    have hu := (List.mem_filter.mp (List.mem_filter.mp hu).1).2
    exact same_collection db hs hu hsingle

end CompactDb

end ArchiveLedger.Compact
